import AppleUtils.Lib.Reader
import AppleUtils.Lib.Slices

/-! # DER elements

The reader and the encoder of the elements a ticket is made of.  An element carries its bytes in
place of their positions in the ticket: the header is read from the bytes of the enclosing element,
so a header that reaches over its end is cut short here and refused by its length there.  Errors
keep their kind, without the position.

`children_ok` and `children_flatMap` say that the elements of a body can be taken apart and put
together, and `der_valid` that what the encoder writes is read back. -/

namespace AppleUtils.Ticket

open Bytes Checks List

inductive TicketError where
  | truncated | badLength | unexpected (wanted : String) | notAManifest | tagMismatch (tag inner : Bytes)
  | noManifestBody | noManifestProperties
deriving DecidableEq

def CLASS_UNIVERSAL : ℕ := 0
def CLASS_PRIVATE : ℕ := 3

def TAG_BOOLEAN : ℕ := 1
def TAG_INTEGER : ℕ := 2
def TAG_OCTET_STRING : ℕ := 4
def TAG_NULL : ℕ := 5
def TAG_SEQUENCE : ℕ := 16
def TAG_SET : ℕ := 17
def TAG_IA5_STRING : ℕ := 22

def HIGH_TAG_NUMBER_FORM : ℕ := 31

def MAX_LENGTH_BYTES : ℕ := 4

/-- What the identifier of an element says. -/
structure Identifier where
  tagClass : ℕ
  constructed : Bool
  tag : ℕ
deriving DecidableEq

/-- An element with its body and all of its bytes. -/
structure Element extends Identifier where
  (body whole : Bytes)
deriving DecidableEq

variable {l : List Element} {identifier : Identifier} {e : Element} {h b : Bytes} {n : ℕ}

def Element.is (e : Element) (tagClass tag : ℕ) : Prop := e.tagClass = tagClass ∧ e.tag = tag

instance (e : Element) (c t : ℕ) : Decidable (e.is c t) := inferInstanceAs (Decidable (_ ∧ _))

/-! ### Reading -/

/-- The groups of seven bits of a high tag number. -/
def readTag (tag : ℕ) : Reader Byte TicketError ℕ
  | [] => .error .truncated
  | x :: rest =>
    if (2 ^ 64 - 1) / 2 ^ 7 < tag then .error .badLength
    else if x.toNat < 128 then .ok (tag * 128 + x.toNat % 128, rest)
    else readTag (tag * 128 + x.toNat % 128) rest

def readIdentifier : Reader Byte TicketError Identifier
  | [] => .error .truncated
  | x :: rest =>
    if x.toNat % 32 = HIGH_TAG_NUMBER_FORM then
      (readTag 0).andThen (fun tag => .ret ⟨x.toNat / 64, x.toNat / 32 % 2 = 1, tag⟩) rest
    else .ok (⟨x.toNat / 64, x.toNat / 32 % 2 = 1, x.toNat % 32⟩, rest)

/-- The next `n` bytes. -/
def readBytes (e : TicketError) (n : ℕ) : Reader Byte TicketError Bytes := fun b =>
  if b.length < n then .error e else .ok (b.take n, b.drop n)

def readLength : Reader Byte TicketError ℕ
  | [] => .error .truncated
  | x :: rest =>
    if x.toNat < 128 then .ok (x.toNat, rest)
    else if x.toNat % 128 = 0 ∨ MAX_LENGTH_BYTES < x.toNat % 128 then .error .badLength
    else (readBytes .truncated (x.toNat % 128)).andThen (fun digits => .ret (leVal digits.reverse)) rest

def readParts : Reader Byte TicketError (Identifier × Bytes) :=
  readIdentifier.andThen fun identifier => readLength.andThen fun length =>
    (readBytes .badLength length).andThen fun body => .ret (identifier, body)

def readElement : Reader Byte TicketError Element := fun b =>
  match readParts b with
  | .error e => .error e
  | .ok ((identifier, body), rest) => .ok (⟨identifier, body, b.take (b.length - rest.length)⟩, rest)

def children (body : Bytes) : Except TicketError (List Element) :=
  Reader.many readElement .truncated body.length body

/-- The text of a tag of four printable characters. -/
def fourCharacterCode (tag : ℕ) : Option Bytes :=
  if 2 ^ 32 ≤ tag then none
  else
    let code := (leBytes 4 tag).reverse
    if code.all fun x => 0x20 ≤ x.toNat ∧ x.toNat < 0x7f then some code else none

/-! ### Encoding -/

def lengthBytes (n : ℕ) : Bytes :=
  if n < 0x80 then [BitVec.ofNat 8 n]
  else
    let significant := (leBytes 8 n).reverse.dropWhile (· = 0)
    BitVec.ofNat 8 (0x80 + significant.length) :: significant

def derEncode (identifier body : Bytes) : Bytes := identifier ++ (lengthBytes body.length ++ body)

/-- The groups of seven bits of a number, from the lowest. -/
def groups : ℕ → ℕ → List ℕ
  | 0, _ => []
  | fuel + 1, value =>
    if value / 128 = 0 then [value % 128] else value % 128 :: groups fuel (value / 128)

def fourccPrivateIdentifier (code : Bytes) : Bytes :=
  let parts := (groups 5 (leVal code.reverse)).reverse
  0xff :: (parts.dropLast.map fun g => BitVec.ofNat 8 (g + 0x80)) ++
    (parts.getLast?.toList.map fun g => BitVec.ofNat 8 g)

def DER_SEQUENCE_IDENTIFIER : Bytes := [0x30]
def DER_SET_IDENTIFIER : Bytes := [0x31]
def DER_IA5_IDENTIFIER : Bytes := [0x16]
def DER_OCTET_IDENTIFIER : Bytes := [0x04]

/-! ### What is read depends on what is taken -/

lemma readTag_local (tag : ℕ) : (readTag tag).Local := by
  intro b
  induction b generalizing tag with
  | nil => intro _ _ h; cases h
  | cons x b ih =>
    intro a rest h
    rw [readTag] at h
    split at h
    · cases h
    · rename_i htag
      split at h
      · rename_i hlow
        cases h
        refine ⟨[x], rfl, fun r => ?_⟩
        rw [singleton_append, readTag, if_neg htag, if_pos hlow]
      · rename_i hhigh
        obtain ⟨h₁, rfl, hr⟩ := ih _ _ _ h
        refine ⟨x :: h₁, rfl, fun r => ?_⟩
        rw [cons_append, readTag, if_neg htag, if_neg hhigh]
        exact hr r

lemma readIdentifier_local : readIdentifier.Local := by
  intro b a rest h
  cases b with
  | nil => cases h
  | cons x b =>
    rw [readIdentifier] at h
    split at h
    · rename_i hhigh
      obtain ⟨h₁, rfl, hr⟩ := (readTag_local 0).andThen (fun _ => Reader.Local.ret) _ _ _ h
      refine ⟨x :: h₁, rfl, fun r => ?_⟩
      rw [cons_append, readIdentifier, if_pos hhigh]
      exact hr r
    · rename_i hlow
      cases h
      refine ⟨[x], rfl, fun r => ?_⟩
      rw [singleton_append, readIdentifier, if_neg hlow]

lemma readBytes_reads (e : TicketError) (b : Bytes) : (readBytes e b.length).Reads b b := by
  intro r
  rw [readBytes, if_neg (by simp), take_left, drop_left]

lemma readBytes_local (e : TicketError) (n : ℕ) : (readBytes e n).Local := by
  intro b a rest h
  rw [readBytes] at h
  split at h
  · cases h
  · rename_i hn
    cases h
    refine ⟨b.take n, (take_append_drop n b).symm, ?_⟩
    have hlen : (b.take n).length = n := by rw [length_take]; omega
    have := readBytes_reads e (b.take n)
    rwa [hlen] at this

lemma readLength_local : readLength.Local := by
  intro b a rest h
  cases b with
  | nil => cases h
  | cons x b =>
    rw [readLength] at h
    split at h
    · rename_i hshort
      cases h
      refine ⟨[x], rfl, fun r => ?_⟩
      rw [singleton_append, readLength, if_pos hshort]
    · rename_i hlong
      split at h
      · cases h
      · rename_i hcount
        obtain ⟨h₁, rfl, hr⟩ := (readBytes_local _ _).andThen (fun _ => Reader.Local.ret) _ _ _ h
        refine ⟨x :: h₁, rfl, fun r => ?_⟩
        rw [cons_append, readLength, if_neg hlong, if_neg hcount]
        exact hr r

lemma readParts_local : readParts.Local :=
  readIdentifier_local.andThen fun _ => readLength_local.andThen fun _ =>
    (readBytes_local _ _).andThen fun _ => Reader.Local.ret

/-- An element that is read from its own bytes. -/
def Valid (e : Element) : Prop := readElement.Reads e.whole e

lemma valid_of_parts {body : Bytes}
    (hr : readParts.Reads h (identifier, body)) : Valid ⟨identifier, body, h⟩ := by
  intro r
  rw [readElement, hr r]
  simp

lemma readElement_local : readElement.Local := by
  intro b e rest h
  rw [readElement] at h
  split at h
  · cases h
  · rename_i identifier body rest' hparts
    cases h
    obtain ⟨h₁, rfl, hr⟩ := readParts_local _ _ _ hparts
    refine ⟨h₁, rfl, ?_⟩
    have htake : (h₁ ++ rest).take ((h₁ ++ rest).length - rest.length) = h₁ := by simp
    rw [htake]
    exact valid_of_parts hr

lemma readElement_ok {rest : Bytes} (h : readElement b = .ok (e, rest)) : b = e.whole ++ rest ∧ Valid e := by
  rw [readElement] at h
  split at h
  · cases h
  · rename_i identifier body rest' hparts
    cases h
    obtain ⟨h₁, rfl, hr⟩ := readParts_local _ _ _ hparts
    have htake : (h₁ ++ rest).take ((h₁ ++ rest).length - rest.length) = h₁ := by simp
    rw [htake]
    exact ⟨rfl, valid_of_parts hr⟩

lemma Valid.whole_ne_nil (h : Valid e) : e.whole ≠ [] := by
  intro hnil
  have := h []
  rw [hnil] at this
  cases this

/-! ### Bodies -/

lemma whole_of_reads (hr : readElement.Reads h e) : e.whole = h := by
  have := (readElement_ok (hr [])).1
  rw [append_nil, append_nil] at this
  exact this.symm

lemma children_ok (h : children b = .ok l) : b = l.flatMap (·.whole) ∧ ∀ e ∈ l, Valid e := by
  obtain ⟨hs, rfl, hall⟩ := Reader.many_ok readElement_local h
  have hwhole : hs = l.map (·.whole) ∧ ∀ e ∈ l, Valid e := by
    clear h
    induction hall with
    | nil => exact ⟨rfl, nofun⟩
    | cons hr _ ih =>
      have heq := whole_of_reads hr
      refine ⟨by rw [map_cons, heq, ← ih.1], forall_mem_cons.mpr ⟨?_, ih.2⟩⟩
      rw [Valid, heq]
      exact hr
  rw [hwhole.1, ← flatMap_def]
  exact ⟨rfl, hwhole.2⟩

lemma length_le_flatMap (h : ∀ e ∈ l, Valid e) : l.length ≤ (l.flatMap (·.whole)).length := by
  induction l with
  | nil => exact le_rfl
  | cons e l ih =>
    obtain ⟨he, hl⟩ := forall_mem_cons.mp h
    have := length_pos_iff.mpr he.whole_ne_nil
    have := ih hl
    rw [flatMap_cons, length_append, length_cons]
    omega

lemma children_flatMap (h : ∀ e ∈ l, Valid e) : children (l.flatMap (·.whole)) = .ok l := by
  have hall : List.Forall₂ readElement.Reads (l.map (·.whole)) l := by
    rw [forall₂_map_left_iff, forall₂_same]
    exact h
  rw [children, flatMap_def]
  refine Reader.many_reads hall ?_ ?_
  · intro b hb
    obtain ⟨e, he, rfl⟩ := mem_map.mp hb
    exact (h e he).whole_ne_nil
  · rw [length_map, ← flatMap_def]
    exact length_le_flatMap h

/-! ### The encoder -/

/-- The digits of a number of `k + 1` bytes, without zeros in front. -/
lemma significant_eq {k : ℕ} (hlow : 256 ^ k ≤ n) (hhigh : n < 256 ^ (k + 1)) (hk : k + 1 ≤ 8) :
    (leBytes 8 n).reverse.dropWhile (· = 0) = (leBytes (k + 1) n).reverse := by
  have hzeros : leBytes (8 - (k + 1)) (n / 256 ^ (k + 1)) = zeros (8 - (k + 1)) := by
    rw [Nat.div_eq_of_lt hhigh]
    have := leBytes_leVal (zeros (8 - (k + 1)))
    rwa [leVal_zeros, length_zeros] at this
  have hsplit : leBytes 8 n = leBytes (k + 1) n ++ zeros (8 - (k + 1)) := by
    rw [← hzeros, ← leBytes_add]
    congr 1
    omega
  have htop : leBytes (k + 1) n = leBytes k n ++ [BitVec.ofNat 8 (n / 256 ^ k)] := leBytes_add k 1 n
  have hne : BitVec.ofNat 8 (n / 256 ^ k) ≠ 0 := by
    have hpos : 0 < n / 256 ^ k := Nat.div_pos hlow (Nat.pow_pos (by decide))
    have hlt : n / 256 ^ k < 256 := by
      rw [Nat.div_lt_iff_lt_mul (Nat.pow_pos (by decide)), ← Nat.pow_succ']
      exact hhigh
    intro h
    have := congrArg BitVec.toNat h
    rw [BitVec.toNat_ofNat, Nat.mod_eq_of_lt hlt] at this
    simp at this
    omega
  rw [hsplit, reverse_append, zeros, reverse_replicate, dropWhile_append_of_pos]
  · rw [htop, reverse_append, reverse_singleton, singleton_append, dropWhile_cons_of_neg (by simpa using hne)]
  · intro x hx
    rw [(mem_replicate.mp hx).2]
    rfl

lemma lengthBytes_reads (h : n < 2 ^ 32) : readLength.Reads (lengthBytes n) n := by
  by_cases hshort : n < 0x80
  · intro r
    have htoNat : (BitVec.ofNat 8 n).toNat = n := by
      rw [BitVec.toNat_ofNat]
      omega
    rw [lengthBytes, if_pos hshort, singleton_append, readLength, htoNat, if_pos hshort]
  · obtain ⟨k, hk, hlow, hhigh⟩ : ∃ k, k + 1 ≤ 4 ∧ 256 ^ k ≤ n ∧ n < 256 ^ (k + 1) := by
      by_cases h1 : n < 256
      · exact ⟨0, by decide, by omega, by omega⟩
      · by_cases h2 : n < 65536
        · exact ⟨1, by decide, by omega, by omega⟩
        · by_cases h3 : n < 16777216
          · exact ⟨2, by decide, by omega, by omega⟩
          · exact ⟨3, by decide, by omega, by omega⟩
    have hdigits := significant_eq hlow hhigh (by omega)
    intro r
    have htoNat : (BitVec.ofNat 8 (0x80 + (k + 1))).toNat = 0x80 + (k + 1) := by
      rw [BitVec.toNat_ofNat]
      omega
    have hread : ((readBytes .truncated (k + 1)).andThen fun digits =>
        .ret (leVal digits.reverse)).Reads (leBytes (k + 1) n).reverse n := by
      have hbytes := readBytes_reads .truncated (leBytes (k + 1) n).reverse
      rw [length_reverse, length_leBytes] at hbytes
      have := hbytes.andThen (f := fun digits => .ret (leVal digits.reverse)) Reader.Reads.ret
      rwa [append_nil, reverse_reverse, leVal_leBytes, Nat.mod_eq_of_lt hhigh] at this
    rw [lengthBytes, if_neg hshort]
    simp only [hdigits, length_reverse, length_leBytes, cons_append]
    rw [readLength, htoNat, if_neg (by omega), if_neg (by simp only [MAX_LENGTH_BYTES]; omega),
      show (0x80 + (k + 1)) % 128 = k + 1 by omega]
    exact hread r

/-- What is encoded is read back. -/
lemma der_valid {header body : Bytes}
    (hid : readIdentifier.Reads header identifier) (hbody : body.length < 2 ^ 32) :
    Valid ⟨identifier, body, derEncode header body⟩ := by
  refine valid_of_parts (hid.andThen ((lengthBytes_reads hbody).andThen ?_))
  have := (readBytes_reads .badLength body).andThen (f := fun body => .ret (identifier, body))
    Reader.Reads.ret
  rwa [append_nil] at this

end AppleUtils.Ticket
