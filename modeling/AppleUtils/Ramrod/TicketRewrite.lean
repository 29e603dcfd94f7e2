import AppleUtils.Ramrod.Ticket

/-! # Rewritten tickets

The elements that the writers encode, and what reading a rewritten ticket gives.  `rebuildKids_spec`
is about the outer sequence and does not depend on what is changed in the manifest body. -/

namespace AppleUtils.Ticket

open Bytes Checks List

variable {kids : List Element} {add : List Bytes} {tag : Bytes} {e : Element} {l : List Element}
    {value : Bytes} {err : TicketError} {wanted : String} {b rest body : Bytes} {set : Element}

variable {bytes out : Bytes} {m : Im4mManifest}

/-! ### Sizes -/

lemma length_lengthBytes (n : ℕ) : (lengthBytes n).length ≤ 9 := by
  unfold lengthBytes
  split
  · simp
  · have := (dropWhile_suffix (l := (leBytes 8 n).reverse) fun x => decide (x = 0)).length_le
    rw [length_reverse, length_leBytes] at this
    rw [length_cons]
    omega

lemma length_derEncode (header body : Bytes) : (derEncode header body).length ≤ header.length + 9 + body.length ∧
    body.length < (derEncode header body).length + 1 := by
  have := length_lengthBytes body.length
  rw [derEncode, length_append, length_append]
  omega

lemma readElement_length (h : readElement b = .ok (e, rest)) : e.body.length + rest.length < b.length := by
  rw [readElement] at h
  split at h
  · cases h
  · rename_i identifier body rest' hparts
    cases h
    obtain ⟨_, r₁, hid, hparts⟩ := Reader.andThen_eq_ok hparts
    obtain ⟨n, r₂, hlength, hparts⟩ := Reader.andThen_eq_ok hparts
    obtain ⟨_, _, hbytes, hparts⟩ := Reader.andThen_eq_ok hparts
    cases hparts
    have h₁ : r₁.length < b.length := by
      obtain ⟨header, rfl, hr⟩ := readIdentifier_local _ _ _ hid
      cases header with
      | nil => cases hr []
      | cons x header =>
        rw [length_append, length_cons]
        omega
    have h₂ := readLength_local.length_le hlength
    rw [readBytes] at hbytes
    split at hbytes
    · cases hbytes
    · cases hbytes
      rw [length_take, length_drop]
      omega

lemma Valid.body_lt (h : Valid e) : e.body.length < e.whole.length := by
  have := readElement_length (h [])
  simpa using this

lemma whole_le (h : children b = .ok l) (he : e ∈ l) : e.whole.length ≤ b.length := by
  obtain ⟨rfl, _⟩ := children_ok h
  obtain ⟨l₁, l₂, rfl⟩ := append_of_mem he
  rw [flatMap_append, flatMap_cons, length_append, length_append]
  omega

/-! ### Encoded elements -/

/-- A tag whose identifier is read back, and that is its own code. -/
structure Code (tag : Bytes) : Prop where
  reads : readIdentifier.Reads (fourccPrivateIdentifier tag) ⟨3, true, leVal tag.reverse⟩
  code : fourCharacterCode (leVal tag.reverse) = some tag
  short : (fourccPrivateIdentifier tag).length ≤ 6 ∧ tag.length ≤ 4

lemma code_body : Code MANIFEST_BODY_TAG := ⟨fun _ => rfl, by decide, by decide⟩

lemma code_properties : Code MANIFEST_PROPERTIES_TAG := ⟨fun _ => rfl, by decide, by decide⟩

lemma code_digest : Code DIGEST_PROPERTY_TAG := ⟨fun _ => rfl, by decide, by decide⟩

lemma code_nonce : Code BOOT_NONCE_HASH_PROPERTY_TAG := ⟨fun _ => rfl, by decide, by decide⟩

lemma code_trust (h : tag ∈ FDR_TRUST_OBJECT_TAGS) : Code tag := by
  rcases mem_cons.mp h with rfl | h
  · exact ⟨fun _ => rfl, by decide, by decide⟩
  · obtain rfl := mem_singleton.mp h
    exact ⟨fun _ => rfl, by decide, by decide⟩

def setOf (body : Bytes) : Element := ⟨⟨0, true, 17⟩, body, derEncode DER_SET_IDENTIFIER body⟩

def octets (value : Bytes) : Element := ⟨⟨0, false, 4⟩, value, derEncode DER_OCTET_IDENTIFIER value⟩

def named (tag rest : Bytes) : Element where
  tagClass := 3
  constructed := true
  tag := leVal tag.reverse
  body := derEncode DER_SEQUENCE_IDENTIFIER (derEncode DER_IA5_IDENTIFIER tag ++ rest)
  whole := encodeNamed tag rest

lemma setOf_valid (h : body.length < 2 ^ 32) : Valid (setOf body) :=
  der_valid (fun _ => rfl) h

lemma octets_valid (h : value.length < 2 ^ 32) : Valid (octets value) :=
  der_valid (fun _ => rfl) h

lemma length_encodeNamed (htag : Code tag) (rest : Bytes) :
    rest.length ≤ (encodeNamed tag rest).length ∧ (encodeNamed tag rest).length ≤ rest.length + 40 := by
  have h₁ := length_derEncode (fourccPrivateIdentifier tag)
    (derEncode DER_SEQUENCE_IDENTIFIER (derEncode DER_IA5_IDENTIFIER tag ++ rest))
  have h₂ := length_derEncode DER_SEQUENCE_IDENTIFIER (derEncode DER_IA5_IDENTIFIER tag ++ rest)
  have h₃ := length_derEncode DER_IA5_IDENTIFIER tag
  have hs : DER_SEQUENCE_IDENTIFIER.length = 1 := rfl
  have hi : DER_IA5_IDENTIFIER.length = 1 := rfl
  have := htag.short
  rw [length_append] at h₂
  rw [encodeNamed]
  omega

lemma named_valid (htag : Code tag) (h : (encodeNamed tag rest).length < 2 ^ 32) : Valid (named tag rest) := by
  refine der_valid htag.reads ?_
  have := (length_derEncode (fourccPrivateIdentifier tag)
    (derEncode DER_SEQUENCE_IDENTIFIER (derEncode DER_IA5_IDENTIFIER tag ++ rest))).2
  rw [encodeNamed] at h
  omega

lemma readNamedBody_named (htag : Code tag)
    (hl : children rest = .ok l) (h : (encodeNamed tag rest).length < 2 ^ 32) :
    readNamedBody (named tag rest) = .ok (tag, l) := by
  obtain ⟨hrest, hvalid⟩ := children_ok hl
  have h₁ := (length_derEncode (fourccPrivateIdentifier tag)
    (derEncode DER_SEQUENCE_IDENTIFIER (derEncode DER_IA5_IDENTIFIER tag ++ rest))).2
  have h₂ := (length_derEncode DER_SEQUENCE_IDENTIFIER (derEncode DER_IA5_IDENTIFIER tag ++ rest)).2
  have := htag.short
  rw [encodeNamed] at h
  let name : Element := ⟨⟨0, false, 22⟩, tag, derEncode DER_IA5_IDENTIFIER tag⟩
  have hname : Valid name := der_valid (fun _ => rfl) (by omega)
  let sequence : Element := ⟨⟨0, true, 16⟩, derEncode DER_IA5_IDENTIFIER tag ++ rest,
    derEncode DER_SEQUENCE_IDENTIFIER (derEncode DER_IA5_IDENTIFIER tag ++ rest)⟩
  have hsequence : Valid sequence := der_valid (fun _ => rfl) (by omega)
  have houter : children (named tag rest).body = .ok [sequence] := by
    have := children_flatMap (forall_mem_singleton.mpr hsequence)
    rwa [flatMap_singleton] at this
  have hinner : children sequence.body = .ok (name :: l) := by
    have := children_flatMap (forall_mem_cons.mpr ⟨hname, hvalid⟩)
    rwa [flatMap_cons, ← hrest] at this
  rw [readNamedBody, show fourCharacterCode (named tag rest).tag = some tag from htag.code]
  simp only [houter, hinner]
  rw [if_neg (not_not.mpr ⟨rfl, rfl⟩), if_neg (not_not.mpr ⟨rfl, rfl⟩), if_neg (not_not.mpr rfl)]

lemma setOf_children (h : ∀ e ∈ l, Valid e) : children (setOf (l.flatMap (·.whole))).body = .ok l :=
  children_flatMap h

lemma namedSet_named (htag : Code tag) (e : TicketError) (wanted : String)
    (h : (encodeNamed tag (setOf body).whole).length < 2 ^ 32) :
    namedSet (named tag (setOf body).whole) e wanted = .ok (tag, setOf body) := by
  have hset : (setOf body).whole.length < 2 ^ 32 := by
    have := (length_encodeNamed htag (setOf body).whole).1
    omega
  have hbody : body.length < 2 ^ 32 := by
    have := (length_derEncode DER_SET_IDENTIFIER body).2
    change (derEncode DER_SET_IDENTIFIER body).length < _ at hset
    omega
  have hchildren : children (setOf body).whole = .ok [setOf body] := by
    have := children_flatMap (forall_mem_singleton.mpr (setOf_valid hbody))
    rwa [flatMap_singleton] at this
  rw [namedSet, bind_ok (readNamedBody_named htag hchildren h)]
  exact if_pos ⟨rfl, rfl⟩

/-! ### The outer sequence -/

lemma isBody_private (h : isBody e) : e.tagClass = CLASS_PRIVATE := by
  rw [isBody, decide_eq_true_eq] at h
  exact h.1

lemma isBody_named (rest : Bytes) : isBody (named MANIFEST_BODY_TAG rest) := by
  rw [isBody, decide_eq_true_eq]
  exact ⟨rfl, code_body.code⟩

section Outer

variable {rebuild : Element → Except TicketError Bytes} {P : Element → Element → Prop}
    {inner : List Element} {parts : List Bytes} {rebuilt : Bytes} {K : ℕ}

/-- Rebuilt bodies are elements again, and bodies. -/
def Rebuilds (rebuild : Element → Except TicketError Bytes) (P : Element → Element → Prop) : Prop :=
  ∀ e b, isBody e → rebuild e = .ok b → b.length < 2 ^ 32 →
    ∃ e', b = e'.whole ∧ isBody e' ∧ Valid e' ∧ P e e'

lemma rebuildInner_spec (hrebuild : Rebuilds rebuild P)
    (h : inner.mapM (rebuildInner rebuild) = .ok parts) (hvalid : ∀ e ∈ inner, Valid e)
    (hsize : parts.flatten.length < 2 ^ 32) :
    ∃ inner' : List Element, parts.flatten = inner'.flatMap (·.whole) ∧ (∀ e ∈ inner', Valid e) ∧
      ∀ b, inner.find? isBody = some b → ∃ b', inner'.find? isBody = some b' ∧ P b b' := by
  induction inner generalizing parts with
  | nil =>
    cases h
    exact ⟨[], rfl, nofun, nofun⟩
  | cons e inner ih =>
    obtain ⟨he, hvalid⟩ := forall_mem_cons.mp hvalid
    rw [mapM_cons] at h
    obtain ⟨part, hpart, h⟩ := bind_eq_ok.mp h
    obtain ⟨rest, hrest, h⟩ := bind_eq_ok.mp h
    cases h
    rw [flatten_cons, length_append] at hsize
    obtain ⟨inner', heq, hvalid', hfind⟩ := ih hrest hvalid (by omega)
    rw [rebuildInner] at hpart
    split at hpart
    · rename_i hbody
      obtain ⟨e', rfl, hbody', he', hP⟩ := hrebuild e part hbody hpart (by omega)
      refine ⟨e' :: inner', by rw [flatten_cons, heq, flatMap_cons], forall_mem_cons.mpr ⟨he', hvalid'⟩, ?_⟩
      intro b hb
      rw [List.find?_cons_of_pos hbody] at hb
      cases hb
      exact ⟨e', List.find?_cons_of_pos hbody', hP⟩
    · rename_i hbody
      cases hpart
      refine ⟨e :: inner', by rw [flatten_cons, heq, flatMap_cons], forall_mem_cons.mpr ⟨he, hvalid'⟩, ?_⟩
      intro b hb
      rw [List.find?_cons_of_neg hbody] at hb
      rw [List.find?_cons_of_neg hbody]
      exact hfind b hb

lemma namesItself_cons (h : ¬ e.is CLASS_UNIVERSAL TAG_IA5_STRING) : namesItself (e :: l) = namesItself l := by
  rw [namesItself, any_cons, decide_eq_false (fun hc => h hc.1), Bool.false_or]
  rfl

/-- The outer sequence with the element that carries the manifest body rebuilt. -/
lemma rebuildKids_spec (hrebuild : Rebuilds rebuild P)
    (h : rebuildKids rebuild kids = .ok rebuilt) (hvalid : ∀ e ∈ kids, Valid e) (hsize : rebuilt.length < 2 ^ 32) :
    ∃ kids' : List Element, rebuilt = kids'.flatMap (·.whole) ∧ (∀ e ∈ kids', Valid e) ∧
      namesItself kids' = namesItself kids ∧
      ∀ b, findManifestBody kids = .ok b → ∃ b', findManifestBody kids' = .ok b' ∧ P b b' := by
  induction kids generalizing rebuilt with
  | nil => cases h
  | cons kid kids ih =>
    obtain ⟨hkid, hvalid⟩ := forall_mem_cons.mp hvalid
    rw [rebuildKids] at h
    obtain ⟨carries, hcarries, h⟩ := bind_eq_ok.mp h
    cases carries with
    | true =>
      obtain ⟨first, hfirst, h⟩ := bind_eq_ok.mp h
      cases h
      rw [length_append] at hsize
      rw [rebuildKid] at hfirst
      by_cases hbody : isBody kid
      · -- the manifest body stands in the outer sequence itself
        have hprivate := isBody_private hbody
        rw [if_pos hprivate] at hfirst
        obtain ⟨e', rfl, hbody', he', hP⟩ := hrebuild kid first hbody hfirst (by omega)
        refine ⟨e' :: kids, by rw [flatMap_cons], forall_mem_cons.mpr ⟨he', hvalid⟩, ?_, ?_⟩
        · rw [namesItself_cons, namesItself_cons]
          · intro hc
            rw [hc.1] at hprivate
            cases hprivate
          · intro hc
            have := isBody_private hbody'
            rw [hc.1] at this
            cases this
        · intro b hb
          rw [findManifestBody, if_pos hbody] at hb
          cases hb
          refine ⟨e', ?_, hP⟩
          rw [findManifestBody, if_pos hbody']
      · -- it stands in a set
        rw [carriesManifestBody, if_neg hbody] at hcarries
        split at hcarries
        · rename_i hset
          obtain ⟨inner, hinner, hany⟩ := bind_eq_ok.mp hcarries
          have hany : inner.any isBody = true := Except.ok.inj hany
          rw [if_neg (by rw [hset.1]; nofun)] at hfirst
          obtain ⟨inner₂, hinner₂, hfirst⟩ := bind_eq_ok.mp hfirst
          rw [hinner] at hinner₂
          cases hinner₂
          obtain ⟨parts, hparts, hfirst⟩ := bind_eq_ok.mp hfirst
          cases hfirst
          have hflat := (length_derEncode DER_SET_IDENTIFIER parts.flatten).2
          obtain ⟨inner', heq, hvalid', hfind⟩ :=
            rebuildInner_spec hrebuild hparts (children_ok hinner).2 (by omega)
          have hset' : Valid (setOf parts.flatten) := setOf_valid (by omega)
          refine ⟨setOf parts.flatten :: kids, by rw [flatMap_cons]; rfl,
            forall_mem_cons.mpr ⟨hset', hvalid⟩, ?_, ?_⟩
          · rw [namesItself_cons, namesItself_cons]
            · intro hc
              have := hset.2.symm.trans hc.2
              cases this
            · intro hc
              cases hc.2
          · intro b hb
            rw [findManifestBody, if_neg hbody, if_pos hset, bind_ok hinner] at hb
            obtain ⟨b₀, hb₀⟩ := Option.isSome_iff_exists.mp (List.find?_isSome.mpr (any_eq_true.mp hany))
            obtain ⟨b', hb', hP⟩ := hfind b₀ hb₀
            simp only [hb₀] at hb
            cases hb
            refine ⟨b', ?_, hP⟩
            rw [findManifestBody, if_neg fun h => (by decide : (0 : ℕ) ≠ 3) (isBody_private h), if_pos ⟨rfl, rfl⟩,
              bind_ok (heq ▸ setOf_children hvalid')]
            simp only [hb']
        · cases hcarries
    | false =>
      obtain ⟨others, hothers, h⟩ := bind_eq_ok.mp h
      cases h
      rw [length_append] at hsize
      obtain ⟨kids', heq, hvalid', hnames, hfind⟩ := ih hothers hvalid (by omega)
      refine ⟨kid :: kids', by rw [flatMap_cons, heq], forall_mem_cons.mpr ⟨hkid, hvalid'⟩, ?_, ?_⟩
      · rw [namesItself, namesItself, any_cons, any_cons]
        exact congrArg _ hnames
      · intro b hb
        rw [carriesManifestBody] at hcarries
        split at hcarries
        · cases hcarries
        · rename_i hbody
          rw [findManifestBody, if_neg hbody] at hb ⊢
          split at hcarries
          · rename_i hset
            obtain ⟨inner, hinner, hany⟩ := bind_eq_ok.mp hcarries
            have hnone : inner.find? isBody = none := by
              rw [List.find?_eq_none]
              exact any_eq_false.mp (Except.ok.inj hany)
            rw [if_pos hset, bind_ok hinner] at hb ⊢
            simp only [hnone] at hb ⊢
            exact hfind b hb
          · rename_i hset
            rw [if_neg hset] at hb ⊢
            exact hfind b hb

/-- Rebuilt bodies are at most `K` times as long. -/
def Grows (rebuild : Element → Except TicketError Bytes) (K : ℕ) : Prop :=
  ∀ e b, Valid e → rebuild e = .ok b → b.length ≤ K * e.whole.length

lemma rebuildInner_length (hK : 10 ≤ K) (hgrow : Grows rebuild K)
    (h : inner.mapM (rebuildInner rebuild) = .ok parts) (hvalid : ∀ e ∈ inner, Valid e) :
    parts.flatten.length ≤ K * (inner.flatMap (·.whole)).length := by
  induction inner generalizing parts with
  | nil =>
    cases h
    simp
  | cons e inner ih =>
    obtain ⟨he, hvalid⟩ := forall_mem_cons.mp hvalid
    rw [mapM_cons] at h
    obtain ⟨part, hpart, h⟩ := bind_eq_ok.mp h
    obtain ⟨rest, hrest, h⟩ := bind_eq_ok.mp h
    cases h
    have hhere : part.length ≤ K * e.whole.length := by
      rw [rebuildInner] at hpart
      split at hpart
      · exact hgrow e part he hpart
      · cases hpart
        exact Nat.le_mul_of_pos_left _ (by omega)
    have := ih hrest hvalid
    rw [flatten_cons, flatMap_cons, length_append, length_append, mul_add]
    omega

lemma rebuildKids_length (hK : 10 ≤ K) (hgrow : Grows rebuild K)
    (h : rebuildKids rebuild kids = .ok rebuilt) (hvalid : ∀ e ∈ kids, Valid e) :
    rebuilt.length ≤ K * (kids.flatMap (·.whole)).length := by
  induction kids generalizing rebuilt with
  | nil => cases h
  | cons kid kids ih =>
    obtain ⟨hkid, hvalid⟩ := forall_mem_cons.mp hvalid
    rw [rebuildKids] at h
    obtain ⟨carries, _, h⟩ := bind_eq_ok.mp h
    rw [flatMap_cons, length_append, mul_add]
    cases carries with
    | true =>
      obtain ⟨first, hfirst, h⟩ := bind_eq_ok.mp h
      cases h
      have hrest : (kids.flatMap (·.whole)).length ≤ K * (kids.flatMap (·.whole)).length :=
        Nat.le_mul_of_pos_left _ (by omega)
      have hhere : first.length ≤ K * kid.whole.length := by
        rw [rebuildKid] at hfirst
        split at hfirst
        · exact hgrow kid first hkid hfirst
        · obtain ⟨inner, hinner, hfirst⟩ := bind_eq_ok.mp hfirst
          obtain ⟨parts, hparts, hfirst⟩ := bind_eq_ok.mp hfirst
          cases hfirst
          obtain ⟨hbody, hinnerValid⟩ := children_ok hinner
          have hparts := rebuildInner_length hK hgrow hparts hinnerValid
          have hset := (length_derEncode DER_SET_IDENTIFIER parts.flatten).1
          have hone : DER_SET_IDENTIFIER.length = 1 := rfl
          have hmul := Nat.mul_le_mul_left K hkid.body_lt
          rw [← hbody] at hparts
          rw [Nat.mul_succ] at hmul
          omega
      rw [length_append]
      omega
    | false =>
      obtain ⟨others, hothers, h⟩ := bind_eq_ok.mp h
      cases h
      have := ih hothers hvalid
      have hhere : kid.whole.length ≤ K * kid.whole.length := Nat.le_mul_of_pos_left _ (by omega)
      rw [length_append]
      omega

lemma readTop_ok (h : readTop bytes = .ok kids) :
    (∀ e ∈ kids, Valid e) ∧ (kids.flatMap (·.whole)).length ≤ bytes.length := by
  obtain ⟨⟨outer, rest⟩, houter, h⟩ := bind_eq_ok.mp h
  obtain ⟨_, _, h⟩ := bind_eq_ok.mp h
  obtain ⟨hbody, hvalid⟩ := children_ok h
  have := readElement_length houter
  rw [← hbody]
  exact ⟨hvalid, by omega⟩

lemma readTop_encoded (h : ∀ e ∈ kids, Valid e) (hsize : (kids.flatMap (·.whole)).length < 2 ^ 32) :
    readTop (derEncode DER_SEQUENCE_IDENTIFIER (kids.flatMap (·.whole))) = .ok kids := by
  have houter : Valid ⟨⟨0, true, 16⟩, kids.flatMap (·.whole),
      derEncode DER_SEQUENCE_IDENTIFIER (kids.flatMap (·.whole))⟩ := der_valid (fun _ => rfl) hsize
  have hread := houter []
  rw [append_nil] at hread
  rw [readTop, bind_ok hread]
  exact children_flatMap h

/-- A ticket with its manifest body rebuilt is read as the same ticket with that body. -/
lemma rebuildOuter_spec (hrebuild : Rebuilds rebuild P) (hK : 10 ≤ K) (hgrow : Grows rebuild K)
    (h : rebuildOuter rebuild bytes = .ok out) (hsize : K * bytes.length < 2 ^ 32)
    (hkids : readTop bytes = .ok kids) : ∃ kids', readTop out = .ok kids' ∧ namesItself kids' = namesItself kids ∧
      ∀ b, findManifestBody kids = .ok b → ∃ b', findManifestBody kids' = .ok b' ∧ P b b' := by
  rw [rebuildOuter, bind_ok hkids] at h
  obtain ⟨rebuilt, hrebuilt, h⟩ := bind_eq_ok.mp h
  cases h
  obtain ⟨hvalid, hlength⟩ := readTop_ok hkids
  have hgrown := rebuildKids_length hK hgrow hrebuilt hvalid
  have hmul := Nat.mul_le_mul_left K hlength
  obtain ⟨kids', rfl, hvalid', hnames, hfind⟩ := rebuildKids_spec hrebuild hrebuilt hvalid (by omega)
  exact ⟨kids', readTop_encoded hvalid' (by omega), hnames, hfind⟩

end Outer

lemma readManifest_ok (h : readManifest bytes = .ok m) :
    ∃ top body tag set entries, readTop bytes = .ok top ∧ namesItself top ∧ findManifestBody top = .ok body ∧
      namedSet body .noManifestBody "a SET of manifest entries" = .ok (tag, set) ∧
      children set.body = .ok entries ∧ entries.foldlM readEntry ⟨[], []⟩ = .ok m := by
  obtain ⟨top, htop, h⟩ := bind_eq_ok.mp h
  obtain ⟨_, hnames, h⟩ := bind_eq_ok.mp h
  obtain ⟨body, hbody, h⟩ := bind_eq_ok.mp h
  obtain ⟨⟨tag, set⟩, hset, h⟩ := bind_eq_ok.mp h
  obtain ⟨entries, hentries, h⟩ := bind_eq_ok.mp h
  exact ⟨top, body, tag, set, entries, htop, not_not.mp (failIf_eq_ok.mp hnames), hbody, hset, hentries, h⟩

lemma readManifest_eq {top : List Element} {body : Element}
    {entries : List Element} (htop : readTop bytes = .ok top) (hnames : namesItself top)
    (hbody : findManifestBody top = .ok body)
    (hset : namedSet body .noManifestBody "a SET of manifest entries" = .ok (tag, set))
    (hentries : children set.body = .ok entries) : readManifest bytes = entries.foldlM readEntry ⟨[], []⟩ := by
  rw [readManifest, bind_ok htop, bind_ok (failIf_eq_ok (u := ()).mpr (not_not.mpr hnames)), bind_ok hbody,
    bind_ok hset]
  exact bind_ok hentries

lemma readNamedBody_ok {code : Bytes} {parts : List Element}
    (h : readNamedBody e = .ok (code, parts)) : fourCharacterCode e.tag = some code ∧ ∃ sequence others name,
      children e.body = .ok (sequence :: others) ∧ children sequence.body = .ok (name :: parts) := by
  unfold readNamedBody at h
  split at h
  · cases h
  · rename_i code' hcode
    split at h
    · cases h
    · cases h
    · rename_i sequence others houter
      split at h
      · cases h
      · split at h
        · cases h
        · cases h
        · rename_i name parts' hinner
          split at h
          · cases h
          · split at h
            · cases h
            · cases h
              exact ⟨hcode, sequence, others, name, houter, hinner⟩

lemma namedSet_ok
    (h : namedSet e err wanted = .ok (tag, set)) : ∃ parts, readNamedBody e = .ok (tag, set :: parts) := by
  obtain ⟨⟨tag', parts⟩, hbody, h⟩ := bind_eq_ok.mp h
  cases parts with
  | nil => cases h
  | cons set' parts =>
    change (if _ then _ else _) = _ at h
    split at h
    · cases h
      exact ⟨parts, hbody⟩
    · cases h

lemma namedSet_length (he : Valid e)
    (h : namedSet e err wanted = .ok (tag, set)) : set.body.length ≤ e.whole.length := by
  obtain ⟨parts, h⟩ := namedSet_ok h
  obtain ⟨_, sequence, others, name, houter, hinner⟩ := readNamedBody_ok h
  have h₁ := whole_le houter mem_cons_self
  have h₂ := whole_le hinner (mem_cons_of_mem name mem_cons_self)
  have h₃ := ((children_ok houter).2 sequence mem_cons_self).body_lt
  have h₄ := ((children_ok hinner).2 set (mem_cons_of_mem name mem_cons_self)).body_lt
  have h₅ := he.body_lt
  omega

/-! ### Trust objects -/

/-- The digest property of an object. -/
def digestProperty (digest : Bytes) : Element := named DIGEST_PROPERTY_TAG (octets digest).whole

def trustObject (tag digest : Bytes) : Element := named tag (setOf (digestProperty digest).whole).whole

variable {digest : Bytes}

/-- A named octet string of a digest or of a nonce, both of 32 bytes. -/
lemma length_namedOctets {value : Bytes} (htag : Code tag) (h : value.length = 32) :
    (named tag (octets value).whole).whole.length ≤ 82 := by
  have h₁ := (length_encodeNamed htag (octets value).whole).2
  have h₂ := (length_derEncode DER_OCTET_IDENTIFIER value).1
  have hone : DER_OCTET_IDENTIFIER.length = 1 := rfl
  change (encodeNamed _ _).length ≤ _
  change (encodeNamed _ _).length ≤ (derEncode DER_OCTET_IDENTIFIER value).length + 40 at h₁
  omega

lemma length_digestProperty (h : digest.length = 32) : (digestProperty digest).whole.length ≤ 82 :=
  length_namedOctets code_digest h

lemma length_trustObject (htag : Code tag) (h : digest.length = 32) :
    (trustObject tag digest).whole.length ≤ 132 := by
  have h₁ := (length_encodeNamed htag (setOf (digestProperty digest).whole).whole).2
  have h₂ := (length_derEncode DER_SET_IDENTIFIER (digestProperty digest).whole).1
  have h₃ := length_digestProperty h
  have hone : DER_SET_IDENTIFIER.length = 1 := rfl
  change (encodeNamed _ _).length ≤ _
  change (encodeNamed _ _).length ≤ (derEncode DER_SET_IDENTIFIER _).length + 40 at h₁
  omega

/-- An octet string under a name is read as a property with those bytes. -/
lemma readProperty_octets (htag : Code tag) (h : (encodeNamed tag (octets value).whole).length < 2 ^ 32) :
    readProperty (named tag (octets value).whole) = .ok ⟨tag, .bytes value⟩ := by
  have hvalue : value.length < 2 ^ 32 := by
    have h₁ := (length_encodeNamed htag (octets value).whole).1
    have h₂ := (length_derEncode DER_OCTET_IDENTIFIER value).2
    change (derEncode DER_OCTET_IDENTIFIER value).length ≤ _ at h₁
    omega
  have hchildren : children (octets value).whole = .ok [octets value] := by
    have := children_flatMap (forall_mem_singleton.mpr (octets_valid hvalue))
    rwa [flatMap_singleton] at this
  rw [readProperty, if_neg (show ¬ (named tag (octets value).whole).tagClass ≠ CLASS_PRIVATE from fun h => h rfl),
    bind_ok (readNamedBody_named htag hchildren h)]
  rfl

lemma trustObject_valid (htag : Code tag) (h : digest.length = 32) : Valid (trustObject tag digest) := by
  have := length_trustObject htag h
  exact named_valid htag (by change (trustObject tag digest).whole.length < _; omega)

lemma readEntry_trustObject (htag : Code tag) (hne : tag ≠ MANIFEST_PROPERTIES_TAG)
    (h : digest.length = 32) (m : Im4mManifest) : readEntry m (trustObject tag digest) =
      .ok { m with objects := m.objects ++ [⟨tag, [⟨DIGEST_PROPERTY_TAG, .bytes digest⟩]⟩] } := by
  have h₁ := length_trustObject htag h
  have h₂ := length_digestProperty h
  have hproperty : Valid (digestProperty digest) :=
    named_valid code_digest (by change (digestProperty digest).whole.length < _; omega)
  have hchildren : children (digestProperty digest).whole = .ok [digestProperty digest] := by
    have := children_flatMap (forall_mem_singleton.mpr hproperty)
    rwa [flatMap_singleton] at this
  have hdigest : readProperty (digestProperty digest) = .ok ⟨DIGEST_PROPERTY_TAG, .bytes digest⟩ :=
    readProperty_octets code_digest (by change (digestProperty digest).whole.length < _; omega)
  have hproperties : readProperties (setOf (digestProperty digest).whole) =
      .ok [⟨DIGEST_PROPERTY_TAG, .bytes digest⟩] := by
    rw [readProperties]
    change (children (digestProperty digest).whole >>= _) = _
    rw [bind_ok hchildren, mapM_cons, bind_ok hdigest]
    rfl
  have hset : namedSet (trustObject tag digest) .truncated "a SET of properties" =
      .ok (tag, setOf (digestProperty digest).whole) :=
    namedSet_named htag _ _ (by change (trustObject tag digest).whole.length < _; omega)
  rw [readEntry, if_neg (show ¬ (trustObject tag digest).tagClass ≠ CLASS_PRIVATE from fun h => h rfl),
    bind_ok hset]
  change (readProperties _ >>= _) = _
  rw [bind_ok hproperties]
  change Except.ok (if _ then _ else _) = _
  rw [if_neg hne]

/-- The objects that are added. -/
def addedObjects (add : List Bytes) (digest : Bytes) : List Im4mObject :=
  add.map fun tag => ⟨tag, [⟨DIGEST_PROPERTY_TAG, .bytes digest⟩]⟩

lemma foldlM_trustObjects (hadd : ∀ tag ∈ add, tag ∈ FDR_TRUST_OBJECT_TAGS)
    (h : digest.length = 32) (m : Im4mManifest) : (add.map (trustObject · digest)).foldlM readEntry m =
      .ok { m with objects := m.objects ++ addedObjects add digest } := by
  induction add generalizing m with
  | nil =>
    rw [addedObjects, map_nil, map_nil, append_nil]
    rfl
  | cons tag add ih =>
    obtain ⟨htag, hadd⟩ := forall_mem_cons.mp hadd
    have hne : tag ≠ MANIFEST_PROPERTIES_TAG := by
      rintro rfl
      revert htag
      decide
    rw [map_cons, foldlM_cons, bind_ok (readEntry_trustObject (code_trust htag) hne h m), ih hadd]
    simp [addedObjects]

lemma rebuildManifestBody_rebuilds : Rebuilds (rebuildManifestBody add digest) fun e e' => ∃ tag set,
    namedSet e .noManifestBody "a SET of manifest entries" = .ok (tag, set) ∧
    e' = named MANIFEST_BODY_TAG (setOf (set.body ++ add.flatMap (encodeFdrTrustObject · digest))).whole ∧
    e'.whole.length < 2 ^ 32 := by
  intro e b _ h hsize
  obtain ⟨⟨tag, set⟩, hset, h⟩ := bind_eq_ok.mp h
  cases h
  refine ⟨named MANIFEST_BODY_TAG (setOf (set.body ++ add.flatMap (encodeFdrTrustObject · digest))).whole,
    rfl, isBody_named _, named_valid code_body hsize, tag, set, hset, rfl, hsize⟩

lemma encodeFdrTrustObject_eq (tag digest : Bytes) :
    encodeFdrTrustObject tag digest = (trustObject tag digest).whole := rfl

lemma length_trustObjects (hadd : ∀ tag ∈ add, tag ∈ FDR_TRUST_OBJECT_TAGS)
    (h : digest.length = 32) : (add.flatMap (encodeFdrTrustObject · digest)).length ≤ 132 * add.length := by
  induction add with
  | nil => exact Nat.zero_le _
  | cons tag add ih =>
    obtain ⟨htag, hrest⟩ := forall_mem_cons.mp hadd
    have h₁ := length_trustObject (code_trust htag) h
    have h₂ := ih hrest
    rw [flatMap_cons, length_append, length_cons, encodeFdrTrustObject_eq]
    omega

lemma rebuildManifestBody_grows (hadd : ∀ tag ∈ add, tag ∈ FDR_TRUST_OBJECT_TAGS)
    (hlen : add.length ≤ 2) (h : digest.length = 32) : Grows (rebuildManifestBody add digest) 512 := by
  intro e b he hb
  obtain ⟨⟨tag, set⟩, hset, hb⟩ := bind_eq_ok.mp hb
  cases hb
  have hsetlen := namedSet_length he hset
  have hobjects := length_trustObjects hadd h
  have h₁ := (length_encodeNamed code_body (derEncode DER_SET_IDENTIFIER
    (set.body ++ add.flatMap (encodeFdrTrustObject · digest)))).2
  have h₂ := (length_derEncode DER_SET_IDENTIFIER
    (set.body ++ add.flatMap (encodeFdrTrustObject · digest))).1
  have hone : DER_SET_IDENTIFIER.length = 1 := rfl
  have hpos := length_pos_iff.mpr he.whole_ne_nil
  rw [length_append] at h₂
  omega

lemma readManifest_added (hread : readManifest bytes = .ok m) (hadd : ∀ tag ∈ add, tag ∈ FDR_TRUST_OBJECT_TAGS)
    (hlen : add.length ≤ 2) (h : digest.length = 32) (hsize : bytes.length < 2 ^ 23)
    (hout : rebuildOuter (rebuildManifestBody add digest) bytes = .ok out) :
    readManifest out = .ok { m with objects := m.objects ++ addedObjects add digest } := by
  obtain ⟨top, body, tag, set, entries, htop, hnames, hbody, hset, hentries, hfold⟩ := readManifest_ok hread
  obtain ⟨top', htop', hnames', hfind⟩ := rebuildOuter_spec rebuildManifestBody_rebuilds (by decide)
    (rebuildManifestBody_grows hadd hlen h) hout (by omega) htop
  obtain ⟨body', hbody', tag₂, set₂, hset₂, rfl, hsize'⟩ := hfind body hbody
  rw [hset] at hset₂
  cases hset₂
  obtain ⟨hsetbody, hvalid⟩ := children_ok hentries
  have hvalid' : ∀ e ∈ entries ++ add.map (trustObject · digest), Valid e := by
    refine forall_mem_append.mpr ⟨hvalid, fun e he => ?_⟩
    obtain ⟨tag, htag, rfl⟩ := mem_map.mp he
    exact trustObject_valid (code_trust (hadd tag htag)) h
  have hbytes : set.body ++ add.flatMap (encodeFdrTrustObject · digest) =
      (entries ++ add.map (trustObject · digest)).flatMap (·.whole) := by
    rw [flatMap_append, ← hsetbody, flatMap_map]
    rfl
  rw [hbytes] at hbody' hsize'
  rw [readManifest_eq htop' (hnames' ▸ hnames) hbody' (namedSet_named code_body _ _ hsize')
    (setOf_children hvalid'), foldlM_append, bind_ok hfold]
  exact foldlM_trustObjects hadd h m

lemma find?_addedObjects (add : List Bytes) (digest tag : Bytes) :
    (addedObjects add digest).find? (·.tag = tag) =
      if tag ∈ add then some ⟨tag, [⟨DIGEST_PROPERTY_TAG, .bytes digest⟩]⟩ else none := by
  induction add with
  | nil => rfl
  | cons tag' add ih =>
    rw [addedObjects, map_cons, List.find?_cons]
    by_cases h : tag' = tag
    · rw [h]
      simp
    · simp only [h, decide_false, mem_cons, Ne.symm h, false_or]
      exact ih

lemma object_added (m : Im4mManifest) (add : List Bytes) (digest tag : Bytes) :
    Im4mManifest.object { m with objects := m.objects ++ addedObjects add digest } tag =
        (m.object tag).or (if tag ∈ add then some ⟨tag, [⟨DIGEST_PROPERTY_TAG, .bytes digest⟩]⟩ else none) := by
  rw [Im4mManifest.object, Im4mManifest.object, List.find?_append, find?_addedObjects]

/-- The ticket that `addFdrTrustObjects` gives out is read with the missing objects added. -/
lemma readManifest_addFdrTrustObjects (hdigest : digest.length = 32)
    (hsize : bytes.length < 2 ^ 23) (hread : readManifest bytes = .ok m)
    (hadd : addFdrTrustObjects bytes digest = .ok out) :
    readManifest out = .ok { m with objects := m.objects ++ addedObjects (absentTags m) digest } := by
  rw [addFdrTrustObjects, bind_ok hread] at hadd
  change (if _ then _ else _) = _ at hadd
  split at hadd
  · rename_i hnone
    cases hadd
    rw [hnone, hread, addedObjects, map_nil, append_nil]
  · refine readManifest_added hread (fun tag h => (mem_filter.mp h).1) ?_ hdigest hsize hadd
    exact length_filter_le _ FDR_TRUST_OBJECT_TAGS

lemma carries_added (m : Im4mManifest) (digest : Bytes) (htag : tag ∈ FDR_TRUST_OBJECT_TAGS) :
    Im4mManifest.carries { m with objects := m.objects ++ addedObjects (absentTags m) digest } tag ↔
        (m.object tag).isNone ∨ m.carries tag := by
  rw [Im4mManifest.carries, object_added, Im4mManifest.carries]
  cases h : m.object tag with
  | none =>
    have hmem : tag ∈ absentTags m := mem_filter.mpr ⟨htag, by rw [h]; rfl⟩
    rw [if_pos hmem]
    exact iff_of_true rfl (.inl rfl)
  | some o => simp

/-- Added trust objects complete the ticket exactly if those that were there have a digest. -/
theorem add_fdr_trust_objects_iff (bytes digest out : Bytes) (m : Im4mManifest) (hdigest : digest.length = 32)
    (hsize : bytes.length < 2 ^ 23) (hread : readManifest bytes = .ok m)
    (hadd : addFdrTrustObjects bytes digest = .ok out) :
    (∃ m', readManifest out = .ok m' ∧ m'.missingFdrTrustObjects = [] ∧
      auditMissing out FDR_TRUST_OBJECT_TAGS = .ok [] ∧ m'.properties = m.properties ∧
      ∃ added, m'.objects = m.objects ++ added ∧ ∀ o ∈ added, o.digest = some digest) ↔
    ∀ tag ∈ FDR_TRUST_OBJECT_TAGS, (m.object tag).isNone ∨ m.carries tag := by
  have hout := readManifest_addFdrTrustObjects hdigest hsize hread hadd
  have hmissing : ∀ m' : Im4mManifest, m'.missingFdrTrustObjects = [] ↔
      ∀ tag ∈ FDR_TRUST_OBJECT_TAGS, m'.carries tag := by
    intro m'
    rw [Im4mManifest.missingFdrTrustObjects, filter_eq_nil_iff]
    simp
  constructor
  · rintro ⟨m', hm', hnone, _⟩ tag htag
    rw [hout] at hm'
    cases hm'
    exact (carries_added m digest htag).mp ((hmissing _).mp hnone tag htag)
  · intro h
    have hnone := (hmissing _).mpr fun tag htag => (carries_added m digest htag).mpr (h tag htag)
    refine ⟨_, hout, hnone, ?_, rfl, _, rfl, ?_⟩
    · rw [auditMissing, bind_ok hout]
      exact congrArg Except.ok hnone
    · intro o ho
      obtain ⟨tag, _, rfl⟩ := mem_map.mp ho
      rfl

/-- A ticket with the given entries in its manifest body. -/
def sampleTicket (entries : Bytes) : Bytes :=
  derEncode DER_SEQUENCE_IDENTIFIER (derEncode DER_IA5_IDENTIFIER MANIFEST_NAME ++
    encodeNamed MANIFEST_BODY_TAG (derEncode DER_SET_IDENTIFIER entries))

/-- A ticket that names both trust objects without a digest. -/
def digestlessTicket : Bytes :=
  sampleTicket (FDR_TRUST_OBJECT_TAGS.flatMap fun tag => encodeNamed tag (derEncode DER_SET_IDENTIFIER []))

theorem trust_objects_still_missing : addFdrTrustObjects digestlessTicket (zeros 32) = .ok digestlessTicket ∧
    auditMissing digestlessTicket FDR_TRUST_OBJECT_TAGS = .ok FDR_TRUST_OBJECT_TAGS := by decide

/-- A ticket with a property and an object of its own, and without trust objects. -/
def filledTicket : Bytes :=
  sampleTicket (encodeNamed MANIFEST_PROPERTIES_TAG (derEncode DER_SET_IDENTIFIER
      (encodeNamed BOOT_NONCE_HASH_PROPERTY_TAG (derEncode DER_OCTET_IDENTIFIER [7]))) ++
    encodeNamed MANIFEST_BODY_TAG (derEncode DER_SET_IDENTIFIER
      (encodeNamed DIGEST_PROPERTY_TAG (derEncode DER_OCTET_IDENTIFIER [9]))))

def filledManifest : Im4mManifest :=
  ⟨[⟨BOOT_NONCE_HASH_PROPERTY_TAG, .bytes [7]⟩], [⟨MANIFEST_BODY_TAG, [⟨DIGEST_PROPERTY_TAG, .bytes [9]⟩]⟩]⟩

theorem add_fdr_trust_objects_sample : ∃ out, addFdrTrustObjects filledTicket (zeros 32) = .ok out ∧
    ∃ m', readManifest out = .ok m' ∧ m'.missingFdrTrustObjects = [] ∧
      auditMissing out FDR_TRUST_OBJECT_TAGS = .ok [] ∧ m'.properties = filledManifest.properties ∧
      ∃ added, m'.objects = filledManifest.objects ++ added ∧ ∀ o ∈ added, o.digest = some (zeros 32) := by
  have hok : (addFdrTrustObjects filledTicket (zeros 32)).isOk := by decide +kernel
  cases hadd : addFdrTrustObjects filledTicket (zeros 32) with
  | error e =>
    rw [hadd] at hok
    cases hok
  | ok out =>
    exact ⟨out, rfl, (add_fdr_trust_objects_iff filledTicket (zeros 32) out filledManifest (by decide +kernel)
      (by decide +kernel) (by decide +kernel) hadd).mpr (by decide +kernel)⟩

end AppleUtils.Ticket
