import AppleUtils.Ramrod.TicketRewrite

/-! # The boot nonce of a ticket

The reader of a ticket takes the last block of properties, `setBootNonceHash` rewrites the first. -/

namespace AppleUtils.Ticket

open Bytes Checks
open List hiding set

variable {nonce : Bytes} {entries : List Element}
    {e : Element} {tag : Bytes} {err : TicketError} {wanted : String} {m₁ m₂ m : Im4mManifest} {rebuilt : Bytes}

/-- The property that is written. -/
def nonceProperty (nonce : Bytes) : Element := named BOOT_NONCE_HASH_PROPERTY_TAG (octets nonce).whole

/-- The entries of a block with the nonce in its place. -/
def stapled (nonce : Bytes) (written : Bool) : List Element → List Element
  | [] => if written then [] else [nonceProperty nonce]
  | e :: rest =>
    let code := fourCharacterCode e.tag
    if code = some BOOT_NONCE_HASH_PROPERTY_TAG then
      (if written then [] else [nonceProperty nonce]) ++ stapled nonce true rest
    else if ¬ written ∧ code.any (BOOT_NONCE_HASH_PROPERTY_TAG.map BitVec.toNat < ·.map BitVec.toNat) then
      nonceProperty nonce :: e :: stapled nonce true rest
    else e :: stapled nonce written rest

lemma stapleEntries_eq (written : Bool) (entries : List Element) :
    stapleEntries (encodeOctetStringProperty BOOT_NONCE_HASH_PROPERTY_TAG nonce) written entries =
      (stapled nonce written entries).flatMap (·.whole) := by
  have hwhole : (nonceProperty nonce).whole = encodeOctetStringProperty BOOT_NONCE_HASH_PROPERTY_TAG nonce := rfl
  induction entries generalizing written with
  | nil => cases written <;> simp [stapleEntries, stapled, hwhole]
  | cons e entries ih =>
    rw [stapleEntries, stapled]
    split
    · rw [ih]
      cases written <;> simp [hwhole]
    · split
      · rw [ih, flatMap_cons, flatMap_cons, hwhole]
      · rw [ih, flatMap_cons]

section

variable (h : nonce.length = 32)

include h

lemma length_nonceProperty : (nonceProperty nonce).whole.length ≤ 82 :=
  length_namedOctets code_nonce h

lemma nonceProperty_valid : Valid (nonceProperty nonce) := by
  have := length_nonceProperty h
  exact named_valid code_nonce (by change (nonceProperty nonce).whole.length < _; omega)

lemma readProperty_nonce :
    readProperty (nonceProperty nonce) = .ok ⟨BOOT_NONCE_HASH_PROPERTY_TAG, .bytes nonce⟩ := by
  have := length_nonceProperty h
  exact readProperty_octets code_nonce (by change (nonceProperty nonce).whole.length < _; omega)

lemma stapled_valid (hvalid : ∀ e ∈ entries, Valid e)
    (written : Bool) : ∀ e ∈ stapled nonce written entries, Valid e := by
  have hnonce := nonceProperty_valid h
  induction entries generalizing written with
  | nil => cases written <;> simp [stapled, hnonce]
  | cons e entries ih =>
    obtain ⟨he, hvalid⟩ := forall_mem_cons.mp hvalid
    rw [stapled]
    split
    · refine forall_mem_append.mpr ⟨?_, ih hvalid true⟩
      cases written <;> simp [hnonce]
    · split
      · exact forall_mem_cons.mpr ⟨hnonce, forall_mem_cons.mpr ⟨he, ih hvalid true⟩⟩
      · exact forall_mem_cons.mpr ⟨he, ih hvalid written⟩

lemma length_stapled (entries : List Element) (written : Bool) :
    ((stapled nonce written entries).flatMap (·.whole)).length ≤
      (entries.flatMap (·.whole)).length + if written then 0 else 82 := by
  have hnonce := length_nonceProperty h
  induction entries generalizing written with
  | nil => cases written <;> simp [stapled, hnonce]
  | cons e entries ih =>
    have htrue := ih true
    have hsame := ih written
    simp only [if_true] at htrue
    rw [stapled]
    split
    · cases written with
      | true =>
        simp only [if_true, nil_append, flatMap_cons, length_append]
        omega
      | false =>
        simp only [Bool.false_eq_true, if_false, singleton_append, flatMap_cons, length_append]
        omega
    · split
      · rename_i hbefore
        rw [if_neg (by simpa using hbefore.1)]
        simp only [flatMap_cons, length_append]
        omega
      · simp only [flatMap_cons, length_append]
        omega

end

/-! ### Properties -/

/-- The properties beside the nonce. -/
def otherProperties (properties : List Im4mProperty) : List Im4mProperty :=
  properties.filter (·.tag ≠ BOOT_NONCE_HASH_PROPERTY_TAG)

lemma readProperty_tag {property : Im4mProperty} (h : readProperty e = .ok property) :
    fourCharacterCode e.tag = some property.tag := by
  rw [readProperty] at h
  split at h
  · cases h
  · obtain ⟨⟨tag, elements⟩, hbody, h⟩ := bind_eq_ok.mp h
    have hcode := (readNamedBody_ok hbody).1
    cases elements with
    | nil =>
      cases h
      exact hcode
    | cons e' elements =>
      obtain ⟨value, _, h⟩ := bind_eq_ok.mp h
      cases h
      exact hcode

/-- The properties of a stapled block: the others as they were, and one nonce unless it is already
written. -/
lemma mapM_stapled (h : nonce.length = 32) {properties : List Im4mProperty}
    (hread : entries.mapM readProperty = .ok properties) (written : Bool) :
    ∃ properties', (stapled nonce written entries).mapM readProperty = .ok properties' ∧
      otherProperties properties' = otherProperties properties ∧
      properties'.find? (·.tag = BOOT_NONCE_HASH_PROPERTY_TAG) =
        if written then none else some ⟨BOOT_NONCE_HASH_PROPERTY_TAG, .bytes nonce⟩ := by
  have hnonce := readProperty_nonce h
  have hothers : ∀ l, otherProperties (⟨BOOT_NONCE_HASH_PROPERTY_TAG, .bytes nonce⟩ :: l) = otherProperties l :=
    fun l => filter_cons_of_neg (by simp)
  induction entries generalizing written properties with
  | nil =>
    cases hread
    cases written with
    | true => exact ⟨[], rfl, rfl, rfl⟩
    | false =>
      refine ⟨[⟨BOOT_NONCE_HASH_PROPERTY_TAG, .bytes nonce⟩], ?_, hothers [], ?_⟩
      · change ([nonceProperty nonce]).mapM readProperty = _
        rw [mapM_cons, bind_ok hnonce]
        rfl
      · rw [List.find?_cons_of_pos (by simp)]
        rfl
  | cons e entries ih =>
    rw [mapM_cons] at hread
    obtain ⟨property, hproperty, hread⟩ := bind_eq_ok.mp hread
    obtain ⟨rest, hrest, hread⟩ := bind_eq_ok.mp hread
    cases hread
    have hcode := readProperty_tag hproperty
    obtain ⟨after, hafter, hafterOthers, hafterFind⟩ := ih hrest true
    rw [if_pos rfl] at hafterFind
    rw [stapled, hcode]
    split
    · rename_i htag
      have htag : property.tag = BOOT_NONCE_HASH_PROPERTY_TAG := Option.some.inj htag
      have hdrop : otherProperties (property :: rest) = otherProperties rest :=
        filter_cons_of_neg (by simp [htag])
      rw [hdrop]
      cases written with
      | true => exact ⟨after, hafter, hafterOthers, hafterFind⟩
      | false =>
        refine ⟨⟨BOOT_NONCE_HASH_PROPERTY_TAG, .bytes nonce⟩ :: after, ?_, (hothers after).trans hafterOthers, ?_⟩
        · change (nonceProperty nonce :: stapled nonce true entries).mapM readProperty = _
          rw [mapM_cons, bind_ok hnonce, bind_ok hafter]
          rfl
        · rw [List.find?_cons_of_pos (by simp)]
          rfl
    · rename_i htag
      have htag : property.tag ≠ BOOT_NONCE_HASH_PROPERTY_TAG := fun h => htag (congrArg some h)
      have hkeep : ∀ l, otherProperties (property :: l) = property :: otherProperties l :=
        fun l => filter_cons_of_pos (by simpa using htag)
      rw [hkeep]
      split
      · rename_i hbefore
        rw [if_neg hbefore.1]
        refine ⟨⟨BOOT_NONCE_HASH_PROPERTY_TAG, .bytes nonce⟩ :: property :: after, ?_, ?_, ?_⟩
        · rw [mapM_cons, bind_ok hnonce, mapM_cons, bind_ok hproperty, bind_ok hafter]
          rfl
        · rw [hothers, hkeep, hafterOthers]
        · rw [List.find?_cons_of_pos (by simp)]
      · obtain ⟨same, hsame, hsameOthers, hsameFind⟩ := ih hrest written
        refine ⟨property :: same, ?_, ?_, ?_⟩
        · rw [mapM_cons, bind_ok hproperty, bind_ok hsame]
          rfl
        · rw [hkeep, hsameOthers]
        · rw [List.find?_cons_of_neg (by simpa using htag), hsameFind]

/-! ### Blocks -/

/-- A block of properties with the nonce written. -/
def stapledBlock (nonce : Bytes) (entries : List Element) : Element :=
  named MANIFEST_PROPERTIES_TAG (setOf ((stapled nonce false entries).flatMap (·.whole))).whole

lemma rebuildManifestProperties_ok {block : Element} {b : Bytes}
    (h : rebuildManifestProperties nonce block = .ok b) : ∃ tag set entries,
      namedSet block .noManifestProperties "a SET of properties" = .ok (tag, set) ∧
      children set.body = .ok entries ∧ b = (stapledBlock nonce entries).whole := by
  obtain ⟨⟨tag, set⟩, hset, h⟩ := bind_eq_ok.mp h
  obtain ⟨entries, hentries, h⟩ := bind_eq_ok.mp h
  cases h
  refine ⟨tag, set, entries, hset, hentries, ?_⟩
  rw [stapleEntries_eq]
  rfl

lemma length_stapledBlock (h : nonce.length = 32) {block set : Element} (hblock : Valid block)
    (hset : namedSet block err wanted = .ok (tag, set)) (hentries : children set.body = .ok entries) :
    (stapledBlock nonce entries).whole.length ≤ block.whole.length + 132 := by
  have h₁ := (length_encodeNamed code_properties
    (derEncode DER_SET_IDENTIFIER ((stapled nonce false entries).flatMap (·.whole)))).2
  have h₂ := (length_derEncode DER_SET_IDENTIFIER ((stapled nonce false entries).flatMap (·.whole))).1
  have h₃ := length_stapled h entries false
  have h₄ := namedSet_length hblock hset
  have hone : DER_SET_IDENTIFIER.length = 1 := rfl
  rw [← (children_ok hentries).1] at h₃
  simp only [Bool.false_eq_true, if_false] at h₃
  change (encodeNamed _ (derEncode _ _)).length ≤ _
  omega

/-- What an entry that is read adds, to the manifest at hand and to any other. -/
lemma readEntry_ok {m m' : Im4mManifest} (h : readEntry m e = .ok m') :
    ∃ tag set decoded, readNamedBody e = .ok (tag, set) ∧
      (∃ inner rest, set = inner :: rest ∧ readProperties inner = .ok decoded) ∧
      (isPropertiesBlock e ↔ tag = MANIFEST_PROPERTIES_TAG) ∧
      (m' = if tag = MANIFEST_PROPERTIES_TAG then { m with properties := decoded }
          else { m with objects := m.objects ++ [⟨tag, decoded⟩] }) ∧
      ∀ m₂, readEntry m₂ e = .ok (if tag = MANIFEST_PROPERTIES_TAG then { m₂ with properties := decoded }
          else { m₂ with objects := m₂.objects ++ [⟨tag, decoded⟩] }) := by
  rw [readEntry] at h
  split at h
  · cases h
  · rename_i hprivate
    obtain ⟨⟨tag, set⟩, hset, h⟩ := bind_eq_ok.mp h
    obtain ⟨decoded, hdecoded, h⟩ := bind_eq_ok.mp h
    obtain ⟨parts, hbody⟩ := namedSet_ok hset
    have hcode := (readNamedBody_ok hbody).1
    refine ⟨tag, set :: parts, decoded, hbody, ⟨set, parts, rfl, hdecoded⟩, ?_, (Except.ok.inj h).symm, fun m₂ => ?_⟩
    · rw [isPropertiesBlock, decide_eq_true_eq, hcode, Option.some.injEq]
      exact and_iff_right (not_not.mp hprivate)
    · rw [readEntry, if_neg hprivate, bind_ok hset]
      exact bind_ok hdecoded

/-- The entry of another manifest with the same objects. -/
lemma readEntry_congr (h : readEntry m₁ e = .ok m)
    (hobjects : m₁.objects = m₂.objects) : ∃ m', readEntry m₂ e = .ok m' ∧ m'.objects = m.objects ∧
      (isPropertiesBlock e → m'.properties = m.properties) ∧
      (¬ isPropertiesBlock e → m.properties = m₁.properties ∧ m'.properties = m₂.properties) := by
  obtain ⟨tag, -, decoded, -, -, hblock, rfl, hany⟩ := readEntry_ok h
  refine ⟨_, hany m₂, ?_⟩
  rw [hblock]
  split
  · rename_i htag
    exact ⟨hobjects.symm, fun _ => rfl, fun h => absurd htag h⟩
  · rename_i htag
    exact ⟨by rw [hobjects], fun h => absurd h htag, fun _ => ⟨rfl, rfl⟩⟩

/-- The rest of the entries, from another manifest with the same objects. -/
lemma foldlM_readEntry_congr (h : entries.foldlM readEntry m₁ = .ok m) (hobjects : m₁.objects = m₂.objects) :
    ∃ m', entries.foldlM readEntry m₂ = .ok m' ∧ m'.objects = m.objects ∧
      (entries.countP isPropertiesBlock = 0 → m.properties = m₁.properties ∧ m'.properties = m₂.properties) ∧
      (entries.countP isPropertiesBlock ≠ 0 → m'.properties = m.properties) := by
  induction entries generalizing m₁ m₂ with
  | nil =>
    cases h
    exact ⟨m₂, rfl, hobjects.symm, fun _ => ⟨rfl, rfl⟩, fun h => absurd rfl h⟩
  | cons e entries ih =>
    rw [foldlM_cons] at h
    obtain ⟨mid₁, hmid₁, h⟩ := bind_eq_ok.mp h
    obtain ⟨mid₂, hmid₂, hsame, hblock, hkeep⟩ := readEntry_congr hmid₁ hobjects
    obtain ⟨m', hm', hobjects', hnone, hsome⟩ := ih h hsame.symm
    refine ⟨m', by rw [foldlM_cons, bind_ok hmid₂, hm'], hobjects', ?_, ?_⟩
    · intro hcount
      rw [countP_eq_zero] at hcount
      obtain ⟨he, hrest⟩ := forall_mem_cons.mp hcount
      obtain ⟨h₁, h₂⟩ := hnone (countP_eq_zero.mpr hrest)
      obtain ⟨h₃, h₄⟩ := hkeep he
      exact ⟨h₁.trans h₃, h₂.trans h₄⟩
    · intro hcount
      by_cases hrest : entries.countP isPropertiesBlock = 0
      · have he : isPropertiesBlock e := by
          by_contra he
          exact hcount (by rw [countP_cons_of_neg he, hrest])
        obtain ⟨h₁, h₂⟩ := hnone hrest
        rw [h₁, h₂, hblock he]
      · exact hsome hrest

/-- A stapled block is read as the properties it was made from, with the nonce. -/
lemma readEntry_stapledBlock (h : nonce.length = 32) {e set : Element}
    {es : List Element} (hread : readEntry m e = .ok m₁)
    (hset : namedSet e err wanted = .ok (tag, set)) (hes : children set.body = .ok es)
    (hblock : isPropertiesBlock e) (hsize : (stapledBlock nonce es).whole.length < 2 ^ 32) :
    ∃ m₂, readEntry m (stapledBlock nonce es) = .ok m₂ ∧ m₂.objects = m.objects ∧ m₁.objects = m.objects ∧
      otherProperties m₂.properties = otherProperties m₁.properties ∧ m₂.bootNonceHash = some nonce := by
  obtain ⟨tag', parts, decoded, hbody, ⟨inner, rest, rfl, hdecoded⟩, htag, rfl, -⟩ := readEntry_ok hread
  obtain ⟨parts', hbody'⟩ := namedSet_ok hset
  rw [hbody] at hbody'
  cases hbody'
  rw [readProperties, bind_ok hes] at hdecoded
  obtain ⟨properties', hproperties', hothers, hfind⟩ := mapM_stapled h hdecoded false
  have hvalid := stapled_valid h (children_ok hes).2 false
  have hread' : readProperties (setOf ((stapled nonce false es).flatMap (·.whole))) = .ok properties' := by
    rw [readProperties, bind_ok (setOf_children hvalid), hproperties']
  refine ⟨{ m with properties := properties' }, ?_, rfl, ?_, ?_, ?_⟩
  · rw [readEntry, if_neg (show ¬ (stapledBlock nonce es).tagClass ≠ CLASS_PRIVATE from fun h => h rfl),
      stapledBlock, bind_ok (namedSet_named code_properties _ _ hsize)]
    change (readProperties _ >>= _) = _
    rw [bind_ok hread']
    rfl
  · rw [if_pos (htag.mp hblock)]
  · rw [if_pos (htag.mp hblock)]
    exact hothers
  · rw [Im4mManifest.bootNonceHash]
    change (properties'.find? _).bind _ = _
    rw [hfind]
    rfl

/-- Reading the manifest body with the first block stapled: that block counts if there is no other. -/
lemma stapleBlocks_spec (h : nonce.length = 32) {m m₀ : Im4mManifest}
    (hstaple : stapleBlocks nonce entries = .ok rebuilt) (hvalid : ∀ e ∈ entries, Valid e)
    (hfold : entries.foldlM readEntry m₀ = .ok m) (hsize : rebuilt.length < 2 ^ 32) :
    ∃ (entries' : List Element) (m' : Im4mManifest), rebuilt = entries'.flatMap (·.whole) ∧
      (∀ e ∈ entries', Valid e) ∧ entries'.foldlM readEntry m₀ = .ok m' ∧ m'.objects = m.objects ∧
      (entries.countP isPropertiesBlock = 1 → m'.bootNonceHash = some nonce ∧
        otherProperties m'.properties = otherProperties m.properties) ∧
      (entries.countP isPropertiesBlock ≠ 1 → m'.properties = m.properties) := by
  induction entries generalizing rebuilt m₀ with
  | nil => cases hstaple
  | cons e entries ih =>
    obtain ⟨he, hvalid⟩ := forall_mem_cons.mp hvalid
    rw [foldlM_cons] at hfold
    obtain ⟨m₁, hm₁, hfold⟩ := bind_eq_ok.mp hfold
    rw [stapleBlocks] at hstaple
    split at hstaple
    · rename_i hblock
      obtain ⟨first, hfirst, hstaple⟩ := bind_eq_ok.mp hstaple
      cases hstaple
      obtain ⟨tag, set, es, hset, hes, rfl⟩ := rebuildManifestProperties_ok hfirst
      rw [length_append] at hsize
      obtain ⟨m₂, hm₂, hobj₂, hobj₁, hothers, hnonce⟩ :=
        readEntry_stapledBlock h hm₁ hset hes hblock (by omega)
      obtain ⟨m', hm', hobjects, hnone, hsome⟩ :=
        foldlM_readEntry_congr hfold (hobj₁.trans hobj₂.symm)
      refine ⟨stapledBlock nonce es :: entries, m', by rw [flatMap_cons],
        forall_mem_cons.mpr ⟨named_valid code_properties (by
          change (stapledBlock nonce es).whole.length < _
          omega), hvalid⟩, by rw [foldlM_cons, bind_ok hm₂, hm'], hobjects, ?_, ?_⟩
      · intro hcount
        rw [countP_cons_of_pos hblock] at hcount
        obtain ⟨h₁, h₂⟩ := hnone (by omega)
        rw [Im4mManifest.bootNonceHash, h₁, h₂]
        exact ⟨hnonce, hothers⟩
      · intro hcount
        rw [countP_cons_of_pos hblock] at hcount
        exact hsome (by omega)
    · rename_i hblock
      obtain ⟨others, hothers, hstaple⟩ := bind_eq_ok.mp hstaple
      cases hstaple
      rw [length_append] at hsize
      obtain ⟨entries', m', rfl, hvalid', hm', hobjects, hone, hmany⟩ := ih hothers hvalid hfold (by omega)
      refine ⟨e :: entries', m', by rw [flatMap_cons], forall_mem_cons.mpr ⟨he, hvalid'⟩,
        by rw [foldlM_cons, bind_ok hm₁, hm'], hobjects, ?_, ?_⟩
      · rw [countP_cons_of_neg hblock]
        exact hone
      · rw [countP_cons_of_neg hblock]
        exact hmany

/-! ### The ticket -/

lemma length_stapleBlocks (h : nonce.length = 32)
    (hstaple : stapleBlocks nonce entries = .ok rebuilt) (hvalid : ∀ e ∈ entries, Valid e) :
    rebuilt.length ≤ (entries.flatMap (·.whole)).length + 132 := by
  induction entries generalizing rebuilt with
  | nil => cases hstaple
  | cons e entries ih =>
    obtain ⟨he, hvalid⟩ := forall_mem_cons.mp hvalid
    rw [stapleBlocks] at hstaple
    split at hstaple
    · obtain ⟨first, hfirst, hstaple⟩ := bind_eq_ok.mp hstaple
      cases hstaple
      obtain ⟨tag, set, es, hset, hes, rfl⟩ := rebuildManifestProperties_ok hfirst
      have := length_stapledBlock h he hset hes
      rw [flatMap_cons, length_append, length_append]
      omega
    · obtain ⟨others, hothers, hstaple⟩ := bind_eq_ok.mp hstaple
      cases hstaple
      have := ih hothers hvalid
      rw [flatMap_cons, length_append, length_append]
      omega

lemma bootNonce_rebuilds : Rebuilds (rebuildManifestBodyWithBootNonce nonce) fun e e' =>
    ∃ tag set entries rebuilt, namedSet e .noManifestBody "a SET of manifest entries" = .ok (tag, set) ∧
      children set.body = .ok entries ∧ stapleBlocks nonce entries = .ok rebuilt ∧
      e' = named MANIFEST_BODY_TAG (setOf rebuilt).whole ∧ e'.whole.length < 2 ^ 32 := by
  intro e b _ hb hsize
  obtain ⟨⟨tag, set⟩, hset, hb⟩ := bind_eq_ok.mp hb
  obtain ⟨entries, hentries, hb⟩ := bind_eq_ok.mp hb
  obtain ⟨rebuilt, hrebuilt, hb⟩ := bind_eq_ok.mp hb
  cases hb
  exact ⟨named MANIFEST_BODY_TAG (setOf rebuilt).whole, rfl, isBody_named _, named_valid code_body hsize,
    tag, set, entries, rebuilt, hset, hentries, hrebuilt, rfl, hsize⟩

lemma bootNonce_grows (h : nonce.length = 32) : Grows (rebuildManifestBodyWithBootNonce nonce) 512 := by
  intro e b he hb
  obtain ⟨⟨tag, set⟩, hset, hb⟩ := bind_eq_ok.mp hb
  obtain ⟨entries, hentries, hb⟩ := bind_eq_ok.mp hb
  obtain ⟨rebuilt, hrebuilt, hb⟩ := bind_eq_ok.mp hb
  cases hb
  obtain ⟨hbody, hvalid⟩ := children_ok hentries
  have h₁ := (length_encodeNamed code_body (derEncode DER_SET_IDENTIFIER rebuilt)).2
  have h₂ := (length_derEncode DER_SET_IDENTIFIER rebuilt).1
  have h₃ := length_stapleBlocks h hrebuilt hvalid
  have h₄ := namedSet_length he hset
  have hone : DER_SET_IDENTIFIER.length = 1 := rfl
  have hpos := length_pos_iff.mpr he.whole_ne_nil
  rw [← hbody] at h₃
  omega

/-- The blocks of properties in the manifest body. -/
def propertiesBlocks (bytes : Bytes) : Except TicketError ℕ := do
  let top ← readTop bytes
  let body ← findManifestBody top
  let (_, set) ← namedSet body .noManifestBody "a SET of manifest entries"
  let entries ← children set.body
  return entries.countP isPropertiesBlock

/-- A stapled ticket has the nonce, and the other properties and the objects as before, exactly if it
had the nonce already or has one block of properties. -/
theorem set_boot_nonce_hash_iff (bytes nonce out : Bytes) (m : Im4mManifest) (hnonce : nonce.length = 32)
    (hsize : bytes.length < 2 ^ 23) (hread : readManifest bytes = .ok m)
    (hset : setBootNonceHash bytes nonce = .ok out) :
    (∃ m', readManifest out = .ok m' ∧ m'.bootNonceHash = some nonce ∧ m'.objects = m.objects ∧
      otherProperties m'.properties = otherProperties m.properties) ↔
    m.bootNonceHash = some nonce ∨ propertiesBlocks bytes = .ok 1 := by
  rw [setBootNonceHash, bind_ok hread] at hset
  change (if _ then _ else _) = _ at hset
  split at hset
  · rename_i hsame
    cases hset
    exact iff_of_true ⟨m, hread, hsame, rfl, rfl⟩ (.inl hsame)
  · rename_i hother
    obtain ⟨top, body, tag, set, entries, htop, hnames, hbody, hbodyset, hentries, hfold⟩ := readManifest_ok hread
    obtain ⟨top', htop', hnames', hfind⟩ := rebuildOuter_spec bootNonce_rebuilds (by decide)
      (bootNonce_grows hnonce) hset (by omega) htop
    obtain ⟨body', hbody', tag₂, set₂, entries₂, rebuilt, hset₂, hentries₂, hrebuilt, rfl, hsize'⟩ :=
      hfind body hbody
    rw [hbodyset] at hset₂
    cases hset₂
    rw [hentries] at hentries₂
    cases hentries₂
    have hlength : rebuilt.length < 2 ^ 32 := by
      have h₁ := (length_encodeNamed code_body (setOf rebuilt).whole).1
      have h₂ := (length_derEncode DER_SET_IDENTIFIER rebuilt).2
      change (derEncode DER_SET_IDENTIFIER rebuilt).length ≤ _ at h₁
      change (encodeNamed _ _).length < _ at hsize'
      omega
    obtain ⟨entries', m', rfl, hvalid', hm', hobjects, hone, hmany⟩ :=
      stapleBlocks_spec hnonce hrebuilt (children_ok hentries).2 hfold hlength
    have hout : readManifest out = .ok m' := by
      rw [readManifest_eq htop' (hnames' ▸ hnames) hbody' (namedSet_named code_body _ _ hsize')
        (setOf_children hvalid'), hm']
    have hblocks : propertiesBlocks bytes = .ok (entries.countP isPropertiesBlock) := by
      rw [propertiesBlocks, bind_ok htop, bind_ok hbody, bind_ok hbodyset]
      change (children set.body >>= _) = _
      rw [bind_ok hentries]
      rfl
    rw [or_iff_right hother, hblocks, Except.ok.injEq]
    constructor
    · rintro ⟨m₂, hm₂, hhash, _⟩
      rw [hout] at hm₂
      cases hm₂
      by_contra hcount
      rw [Im4mManifest.bootNonceHash, hmany hcount] at hhash
      exact hother hhash
    · intro hcount
      obtain ⟨hhash, hothers⟩ := hone hcount
      exact ⟨m', hout, hhash, hobjects, hothers⟩

/-- A block of properties with the given nonces. -/
def nonceBlock (nonces : List Bytes) : Bytes :=
  encodeNamed MANIFEST_PROPERTIES_TAG (derEncode DER_SET_IDENTIFIER
    (nonces.flatMap (encodeOctetStringProperty BOOT_NONCE_HASH_PROPERTY_TAG)))

/-- Of two blocks the first gets the nonce and the second is read. -/
theorem nonce_stapled_in_unread_block :
    ((setBootNonceHash (sampleTicket (nonceBlock [] ++ nonceBlock [])) (zeros 32)).bind readManifest).map
      (·.bootNonceHash) = .ok none := by decide +kernel

theorem set_boot_nonce_hash_sample :
    ∃ out, setBootNonceHash (sampleTicket (nonceBlock [[1], [2]])) (zeros 32) = .ok out ∧
      ∃ m', readManifest out = .ok m' ∧ m'.bootNonceHash = some (zeros 32) ∧ m'.objects = [] ∧
        otherProperties m'.properties = [] := by
  have hok : (setBootNonceHash (sampleTicket (nonceBlock [[1], [2]])) (zeros 32)).isOk := by decide +kernel
  cases hset : setBootNonceHash (sampleTicket (nonceBlock [[1], [2]])) (zeros 32) with
  | error e =>
    rw [hset] at hok
    cases hok
  | ok out =>
    exact ⟨out, rfl, (set_boot_nonce_hash_iff _ (zeros 32) out
      ⟨[⟨BOOT_NONCE_HASH_PROPERTY_TAG, .bytes [1]⟩, ⟨BOOT_NONCE_HASH_PROPERTY_TAG, .bytes [2]⟩], []⟩ rfl
      (by decide) (by decide) hset).mpr (.inr (by decide))⟩

end AppleUtils.Ticket
