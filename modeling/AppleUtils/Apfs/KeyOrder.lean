import AppleUtils.Apfs.Catalog

/-! # The orders of catalog keys

The writers of trees sort keys by ranks of their own: `recOrder` where files are inserted,
`recordSortKey` where volumes are built and updated, `catalogSortKey` where files are replaced.  The
verifier asks for the order of `keyRank`.

A hashed directory key packs the hash of the name over its length into one word.  The verifier takes
the hash, then the name; `recOrder` takes the whole word, then the name. -/

namespace AppleUtils.Apfs

open Bytes List DrecKeyLayout

/-! ### The ranks of the writers -/

/-- `drec_key_is_hashed`. -/
def drecKeyIsHashed (key : Bytes) : Bool :=
  12 ≤ key.length ∧ recordKind (leAt 8 key 0) = J_DIR_REC ∧
    key.length - 8 = 4 + leAt 4 key 8 % 2 ^ 10 ∧ key.length - 8 ≠ 2 + leAt 2 key 8

/-- `record_tail`, of the module that inserts files. -/
def recordTail (kind : ℕ) (key : Bytes) : RecordTail :=
  if kind = J_DIR_REC ∧ drecKeyIsHashed key ∧ key.length ≥ 12 then
    .named (leAt 4 key 8) (key.drop 12)
  else if kind = J_DIR_REC ∧ key.length ≥ 10 then .named 0 (key.drop 10)
  else if (kind = J_XATTR ∨ kind = J_SNAP_NAME) ∧ key.length ≥ 10 then .named 0 (key.drop 10)
  else if (kind = J_SIBLING_LINK ∨ kind = J_FILE_EXTENT) ∧ key.length ≥ 16 then
    .number (leAt 8 key 8)
  else .bytes (key.drop 8)

def recOrder (key : Bytes) : List ℕ :=
  let header := leAt 8 key 0
  objId header :: recordKind header :: (recordTail (recordKind header) key).rank

/-- `to_be_bytes`. -/
def beBytes (n v : ℕ) : Bytes := (leBytes n v).reverse

/-- The tail of `record_sort_key`. -/
def sortTail (kind : ℕ) (key : Bytes) : Bytes :=
  if kind = J_DIR_REC ∧ key.length ≥ 12 then beBytes 4 (leAt 4 key 8 / 2 ^ 10) ++ key.drop 12
  else if (kind = J_XATTR ∨ kind = J_SNAP_NAME) ∧ key.length ≥ 10 then key.drop 10
  else if (kind = J_SIBLING_LINK ∨ kind = J_FILE_EXTENT) ∧ key.length ≥ 16 then beBytes 8 (leAt 8 key 8)
  else key.drop 8

def recordSortKey (key : Bytes) : List ℕ :=
  let header := leAt 8 key 0
  objId header :: recordKind header :: (sortTail (recordKind header) key).map BitVec.toNat

def catalogSortKey (layout : DrecKeyLayout) (key : Bytes) : List ℕ :=
  if layout = .plain ∧ key.length ≥ 10 ∧ recordKind (leAt 8 key 0) = J_DIR_REC then
    objId (leAt 8 key 0) :: J_DIR_REC :: (key.drop 10).map BitVec.toNat
  else recordSortKey key

/-! ### Agreement -/

/-- Two ranks order the keys `a` and `b` the same way. -/
def SameOrder (f g : Bytes → List ℕ) (a b : Bytes) : Prop :=
  (f a < f b ↔ g a < g b) ∧ (f b < f a ↔ g b < g a)

/-- The key has the fields of its kind; a directory key has a name with its terminator, of the length
it says. -/
def WellFormed (layout : DrecKeyLayout) (key : Bytes) : Prop :=
  let kind := recordKind (leAt 8 key 0)
  8 ≤ key.length ∧
    (kind = J_DIR_REC → layout.nameOffset + 2 ≤ key.length ∧
      layout.nameLength key = some (key.length - layout.nameOffset)) ∧
    (kind = J_XATTR ∨ kind = J_SNAP_NAME → 10 ≤ key.length) ∧
    (kind = J_SIBLING_LINK ∨ kind = J_FILE_EXTENT → 16 ≤ key.length)

/-- The name in a directory key, with its terminator. -/
def drecName (layout : DrecKeyLayout) (key : Bytes) : List ℕ := (key.drop layout.nameOffset).map BitVec.toNat

/-- The word after the header without its low ten bits, and what comes after it: the hash and the name
in a hashed key. -/
def packedName (key : Bytes) : List ℕ := leAt 4 key 8 / 2 ^ 10 :: (key.drop 12).map BitVec.toNat

/-- The names of two directory keys are ordered like what a writer takes in their place: on a hashed
volume, if the hashes are the same, the lengths; on a plain one, the packed names. -/
def NamesAgree (layout : DrecKeyLayout) (a b : Bytes) : Prop :=
  match layout with
  | .hashed => leAt 4 a 8 / 2 ^ 10 = leAt 4 b 8 / 2 ^ 10 →
      (a.length < b.length → drecName .hashed a < drecName .hashed b) ∧
      (b.length < a.length → drecName .hashed b < drecName .hashed a)
  | .plain => SameOrder packedName (drecName .plain) a b

/-- Two keys of directory records of one directory. -/
def Siblings (a b : Bytes) : Prop :=
  objId (leAt 8 a 0) = objId (leAt 8 b 0) ∧ recordKind (leAt 8 a 0) = J_DIR_REC ∧
    recordKind (leAt 8 b 0) = J_DIR_REC

variable {layout : DrecKeyLayout} {a b : Bytes}

lemma cons_lt_cons_same {x : ℕ} {l m : List ℕ} : x :: l < x :: m ↔ l < m := by
  rw [cons_lt_cons_iff]
  simp

lemma beBytes_succ (n h : ℕ) : beBytes (n + 1) h = BitVec.ofNat 8 (h / 256 ^ n) :: beBytes n (h % 256 ^ n) := by
  rw [beBytes, beBytes, leBytes_mod, leBytes_add n 1, reverse_append]
  rfl

/-- Numbers in big-endian bytes are ordered like the numbers. -/
lemma beBytes_lt {n h h' : ℕ} (hh : h < 256 ^ n) (hh' : h' < 256 ^ n) (l l' : List ℕ) :
    (beBytes n h).map BitVec.toNat ++ l < (beBytes n h').map BitVec.toNat ++ l' ↔ h < h' ∨ h = h' ∧ l < l' := by
  induction n generalizing h h' with
  | zero =>
    obtain rfl : h = 0 := by simpa using hh
    obtain rfl : h' = 0 := by simpa using hh'
    simp [beBytes, leBytes]
  | succ n ih =>
    have hpos : 0 < 256 ^ n := by positivity
    have top : ∀ {v : ℕ}, v < 256 ^ (n + 1) → (BitVec.ofNat 8 (v / 256 ^ n)).toNat = v / 256 ^ n := by
      intro v hv
      rw [BitVec.toNat_ofNat]
      exact Nat.mod_eq_of_lt (Nat.div_lt_of_lt_mul (by rwa [pow_succ] at hv))
    rw [beBytes_succ, beBytes_succ, map_cons, map_cons, cons_append, cons_append,
      cons_lt_cons_iff, top hh, top hh', ih (Nat.mod_lt _ hpos) (Nat.mod_lt _ hpos)]
    -- The leading byte decides, or the rest does
    have hv := Nat.div_add_mod h (256 ^ n)
    have hv' := Nat.div_add_mod h' (256 ^ n)
    have hr := Nat.mod_lt h hpos
    have hr' := Nat.mod_lt h' hpos
    rcases lt_trichotomy (h / 256 ^ n) (h' / 256 ^ n) with hlt | heq | hgt
    · have : h < h' := by
        by_contra hge
        exact absurd (Nat.div_le_div_right (c := 256 ^ n) (not_lt.mp hge)) (not_le.mpr hlt)
      simp [hlt, this]
    · rw [← heq] at hv' ⊢
      generalize 256 ^ n * (h / 256 ^ n) = q at hv hv'
      have hless : h % 256 ^ n < h' % 256 ^ n ↔ h < h' := by omega
      have hsame : h % 256 ^ n = h' % 256 ^ n ↔ h = h' := by omega
      simp [hless, hsame]
    · have : h' < h := by
        by_contra hge
        exact absurd (Nat.div_le_div_right (c := 256 ^ n) (not_lt.mp hge)) (not_le.mpr hgt)
      simp [hgt.not_gt, hgt.ne', this.not_gt, this.ne']

lemma leAt_two (key : Bytes) (i : ℕ) : leAt 2 key i = leAt 4 key i % 2 ^ 16 := by
  have htake : key.slice i 2 = (key.slice i 4).take 2 := by
    rw [slice, slice, take_take]
    rfl
  rw [leAt, leAt, htake]
  rcases key.slice i 4 with _ | ⟨x, _ | ⟨y, l⟩⟩
  · rfl
  · have := x.isLt
    simp only [List.take, leVal]
    omega
  · have := x.isLt
    have := y.isLt
    simp only [List.take, leVal]
    omega

/-! ### One kind of tail at a time -/

lemma sameOrder_of_cons {f g F G : Bytes → List ℕ}
    (hf : ∀ k, f k = objId (leAt 8 k 0) :: recordKind (leAt 8 k 0) :: F k)
    (hg : ∀ k, g k = objId (leAt 8 k 0) :: recordKind (leAt 8 k 0) :: G k) :
    SameOrder f g a b ↔ (objId (leAt 8 a 0) = objId (leAt 8 b 0) →
      recordKind (leAt 8 a 0) = recordKind (leAt 8 b 0) → SameOrder F G a b) := by
  simp only [SameOrder, hf, hg, cons_lt_cons_iff]
  constructor
  · rintro ⟨h, h'⟩ ho hk
    simpa [ho, hk] using And.intro h h'
  · intro h
    by_cases ho : objId (leAt 8 a 0) = objId (leAt 8 b 0)
    · by_cases hk : recordKind (leAt 8 a 0) = recordKind (leAt 8 b 0)
      · simpa [ho, hk] using h ho hk
      · simp [ho, hk, Ne.symm hk]
    · simp [ho, Ne.symm ho]

/-- The tail the verifier ranks by. -/
def verifiedTail (layout : DrecKeyLayout) (key : Bytes) : List ℕ :=
  (RecordTail.of (recordKind (leAt 8 key 0)) key layout).rank

def insertedTail (key : Bytes) : List ℕ := (recordTail (recordKind (leAt 8 key 0)) key).rank

def builtTail (key : Bytes) : List ℕ := (sortTail (recordKind (leAt 8 key 0)) key).map BitVec.toNat

def replacedTail (layout : DrecKeyLayout) (key : Bytes) : List ℕ :=
  if layout = .plain ∧ key.length ≥ 10 ∧ recordKind (leAt 8 key 0) = J_DIR_REC then
    (key.drop 10).map BitVec.toNat
  else builtTail key

lemma keyRank_cons (key : Bytes) : keyRank layout key =
    objId (leAt 8 key 0) :: recordKind (leAt 8 key 0) :: verifiedTail layout key :=
  rfl

lemma recOrder_cons (key : Bytes) : recOrder key =
    objId (leAt 8 key 0) :: recordKind (leAt 8 key 0) :: insertedTail key :=
  rfl

lemma recordSortKey_cons (key : Bytes) : recordSortKey key =
    objId (leAt 8 key 0) :: recordKind (leAt 8 key 0) :: builtTail key :=
  rfl

lemma catalogSortKey_cons (key : Bytes) : catalogSortKey layout key =
    objId (leAt 8 key 0) :: recordKind (leAt 8 key 0) :: replacedTail layout key := by
  rw [catalogSortKey, replacedTail]
  split_ifs with h
  · rw [h.2.2]
  · rfl

lemma drecKeyIsHashed_plain (h : WellFormed .plain a) (hk : recordKind (leAt 8 a 0) = J_DIR_REC) :
    drecKeyIsHashed a = false := by
  obtain ⟨hlen, hname⟩ := h.2.1 hk
  simp only [nameOffset] at hlen hname
  rw [nameLength, if_pos (by omega), Option.some.injEq] at hname
  rw [drecKeyIsHashed, decide_eq_false_iff_not]
  omega

/-- The length of the name would have to be two more than itself, up to a multiple of 1024. -/
lemma drecKeyIsHashed_hashed (h : WellFormed .hashed a) (hk : recordKind (leAt 8 a 0) = J_DIR_REC) :
    drecKeyIsHashed a = true := by
  obtain ⟨hlen, hname⟩ := h.2.1 hk
  simp only [nameOffset] at hlen hname
  rw [nameLength, if_pos (by omega), Option.some.injEq] at hname
  have htwo := leAt_two a 8
  rw [drecKeyIsHashed, decide_eq_true_iff]
  refine ⟨by omega, hk, by omega, ?_⟩
  omega

section hashed

variable (h : WellFormed .hashed a) (hk : recordKind (leAt 8 a 0) = J_DIR_REC)
include h hk

lemma verifiedTail_hashed : verifiedTail .hashed a = 1 :: leAt 4 a 8 / 2 ^ 10 :: drecName .hashed a := by
  have hlen := (h.2.1 hk).1
  simp only [nameOffset] at hlen
  have h12 : 12 ≤ a.length := by omega
  rw [verifiedTail, RecordTail.of, if_pos ⟨hk, h12⟩, RecordTail.rank, sortPrefix]
  simp only [ge_iff_le, h12, if_true]
  rfl

lemma insertedTail_hashed : insertedTail a = 1 :: leAt 4 a 8 :: drecName .hashed a := by
  have hlen := (h.2.1 hk).1
  simp only [nameOffset] at hlen
  rw [insertedTail, recordTail, if_pos ⟨hk, drecKeyIsHashed_hashed h hk, by omega⟩]
  rfl

lemma builtTail_hashed : builtTail a =
    (beBytes 4 (leAt 4 a 8 / 2 ^ 10)).map BitVec.toNat ++ drecName .hashed a := by
  have hlen := (h.2.1 hk).1
  simp only [nameOffset] at hlen
  rw [builtTail, sortTail, if_pos ⟨hk, by omega⟩, map_append]
  rfl

end hashed

section plain

variable (h : WellFormed .plain a) (hk : recordKind (leAt 8 a 0) = J_DIR_REC)
include h hk

lemma verifiedTail_plain : verifiedTail .plain a = 1 :: 0 :: drecName .plain a := by
  have hlen := (h.2.1 hk).1
  simp only [nameOffset] at hlen
  have h10 : 10 ≤ a.length := by omega
  rw [verifiedTail, RecordTail.of, if_pos ⟨hk, h10⟩]
  rfl

lemma insertedTail_plain : insertedTail a = 1 :: 0 :: drecName .plain a := by
  have hlen := (h.2.1 hk).1
  simp only [nameOffset] at hlen
  rw [insertedTail, recordTail, if_neg (by simp [drecKeyIsHashed_plain h hk]), if_pos ⟨hk, by omega⟩]
  rfl

lemma builtTail_plain : builtTail a =
    (beBytes 4 (leAt 4 a 8 / 2 ^ 10)).map BitVec.toNat ++ (a.drop 12).map BitVec.toNat := by
  have hlen := (h.2.1 hk).1
  simp only [nameOffset] at hlen
  rw [builtTail, sortTail, if_pos ⟨hk, by omega⟩, map_append]

lemma replacedTail_plain : replacedTail .plain a = drecName .plain a := by
  have hlen := (h.2.1 hk).1
  simp only [nameOffset] at hlen
  rw [replacedTail, if_pos ⟨rfl, by omega, hk⟩]
  rfl

end plain

lemma insertedTail_other (hk : recordKind (leAt 8 a 0) ≠ J_DIR_REC) : insertedTail a = verifiedTail layout a := by
  simp [insertedTail, verifiedTail, recordTail, RecordTail.of, hk]

lemma replacedTail_other (hk : layout = .plain → recordKind (leAt 8 a 0) ≠ J_DIR_REC) :
    replacedTail layout a = builtTail a :=
  if_neg fun h => hk h.1 h.2.2

lemma hash_lt (key : Bytes) : leAt 4 key 8 / 2 ^ 10 < 256 ^ 4 :=
  (Nat.div_le_self _ _).trans_lt (leAt_lt 4 key 8)

/-- Apart from directory records, what volumes are built by orders records as the verifier does. -/
lemma builtTail_other (ha : WellFormed layout a) (hb : WellFormed layout b)
    (hk : recordKind (leAt 8 a 0) ≠ J_DIR_REC) (hkind : recordKind (leAt 8 a 0) = recordKind (leAt 8 b 0)) :
    SameOrder builtTail (verifiedTail layout) a b := by
  obtain ⟨-, -, hname, hnumber⟩ := ha
  obtain ⟨-, -, hname', hnumber'⟩ := hb
  simp only [SameOrder, builtTail, verifiedTail, sortTail, RecordTail.of, ← hkind, hk, false_and,
    if_false] at hname' hnumber' ⊢
  by_cases h4 : recordKind (leAt 8 a 0) = J_XATTR ∨ recordKind (leAt 8 a 0) = J_SNAP_NAME
  · rw [if_pos ⟨h4, hname h4⟩, if_pos ⟨h4, hname' h4⟩, if_pos ⟨h4, hname h4⟩, if_pos ⟨h4, hname' h4⟩]
    simp only [RecordTail.rank, cons_lt_cons_same, and_self]
  · simp only [h4, false_and, if_false]
    by_cases h8 : recordKind (leAt 8 a 0) = J_SIBLING_LINK ∨ recordKind (leAt 8 a 0) = J_FILE_EXTENT
    · rw [if_pos ⟨h8, hnumber h8⟩, if_pos ⟨h8, hnumber' h8⟩, if_pos ⟨h8, hnumber h8⟩, if_pos ⟨h8, hnumber' h8⟩]
      have hlt := fun x y : Bytes => beBytes_lt (leAt_lt 8 x 8) (leAt_lt 8 y 8) [] []
      simp only [append_nil] at hlt
      simp only [RecordTail.rank, hlt, cons_lt_cons_iff, lt_self_iff_false, false_or, true_and, and_self]
    · simp only [h8, false_and, if_false, RecordTail.rank, cons_lt_cons_same, and_self]

lemma builtTail_sameOrder_hashed (ha : WellFormed .hashed a) (hb : WellFormed .hashed b)
    (hk : recordKind (leAt 8 a 0) = J_DIR_REC) (hk' : recordKind (leAt 8 b 0) = J_DIR_REC) :
    SameOrder builtTail (verifiedTail .hashed) a b := by
  rw [SameOrder, builtTail_hashed ha hk, builtTail_hashed hb hk', verifiedTail_hashed ha hk,
    verifiedTail_hashed hb hk', beBytes_lt (hash_lt a) (hash_lt b), beBytes_lt (hash_lt b) (hash_lt a)]
  simp only [cons_lt_cons_iff, lt_self_iff_false, false_or, true_and, and_self]

/-- With the whole word in place of the hash, keys with one hash are ordered by the length first. -/
lemma insertedTail_sameOrder_hashed (ha : WellFormed .hashed a) (hb : WellFormed .hashed b)
    (hk : recordKind (leAt 8 a 0) = J_DIR_REC) (hk' : recordKind (leAt 8 b 0) = J_DIR_REC) :
    SameOrder insertedTail (verifiedTail .hashed) a b ↔ NamesAgree .hashed a b := by
  have hlen : leAt 4 a 8 % 2 ^ 10 + 12 = a.length := by
    obtain ⟨h, hname⟩ := ha.2.1 hk
    simp only [nameOffset] at h hname
    rw [nameLength, if_pos (by omega), Option.some.injEq] at hname
    omega
  have hlen' : leAt 4 b 8 % 2 ^ 10 + 12 = b.length := by
    obtain ⟨h, hname⟩ := hb.2.1 hk'
    simp only [nameOffset] at h hname
    rw [nameLength, if_pos (by omega), Option.some.injEq] at hname
    omega
  rw [SameOrder, insertedTail_hashed ha hk, insertedTail_hashed hb hk', verifiedTail_hashed ha hk,
    verifiedTail_hashed hb hk', NamesAgree, ← hlen, ← hlen']
  simp only [cons_lt_cons_iff, lt_self_iff_false, false_or, true_and]
  generalize leAt 4 a 8 = v
  generalize leAt 4 b 8 = v'
  by_cases hh : v / 2 ^ 10 = v' / 2 ^ 10
  · have hlt : v < v' ↔ v % 2 ^ 10 + 12 < v' % 2 ^ 10 + 12 := by omega
    have hlt' : v' < v ↔ v' % 2 ^ 10 + 12 < v % 2 ^ 10 + 12 := by omega
    have heq : v = v' ↔ ¬ v < v' ∧ ¬ v' < v := by omega
    have hasymm : drecName .hashed a < drecName .hashed b → ¬ drecName .hashed b < drecName .hashed a :=
      fun h => List.lt_asymm h
    rw [← hlt, ← hlt', eq_comm (a := v') (b := v), heq, hh]
    have hnot : v < v' → ¬ v' < v := fun h => h.asymm
    simp only [lt_self_iff_false, false_or, true_and, forall_const]
    tauto
  · have hv : v ≠ v' := fun h => hh (by rw [h])
    have hlt : v < v' ↔ v / 2 ^ 10 < v' / 2 ^ 10 := by omega
    have hlt' : v' < v ↔ v' / 2 ^ 10 < v / 2 ^ 10 := by omega
    simp only [hlt, hlt', hh, Ne.symm hh, hv, hv.symm, false_and, or_false, and_self, false_imp_iff]

lemma builtTail_sameOrder_plain (ha : WellFormed .plain a) (hb : WellFormed .plain b)
    (hk : recordKind (leAt 8 a 0) = J_DIR_REC) (hk' : recordKind (leAt 8 b 0) = J_DIR_REC) :
    SameOrder builtTail (verifiedTail .plain) a b ↔ NamesAgree .plain a b := by
  rw [SameOrder, builtTail_plain ha hk, builtTail_plain hb hk', verifiedTail_plain ha hk,
    verifiedTail_plain hb hk', beBytes_lt (hash_lt a) (hash_lt b), beBytes_lt (hash_lt b) (hash_lt a),
    NamesAgree, SameOrder, packedName, packedName]
  simp only [cons_lt_cons_iff, lt_self_iff_false, false_or, true_and]

/-! ### One order -/

/-- The three writers order the keys as the verifier does. -/
def OneOrder (layout : DrecKeyLayout) (a b : Bytes) : Prop :=
  SameOrder recOrder (keyRank layout) a b ∧ SameOrder recordSortKey (keyRank layout) a b ∧
    SameOrder (catalogSortKey layout) (keyRank layout) a b

lemma oneOrder_iff (ha : WellFormed layout a) (hb : WellFormed layout b) :
    OneOrder layout a b ↔ (Siblings a b → NamesAgree layout a b) := by
  rw [OneOrder, sameOrder_of_cons recOrder_cons keyRank_cons, sameOrder_of_cons recordSortKey_cons keyRank_cons,
    sameOrder_of_cons catalogSortKey_cons keyRank_cons, Siblings]
  by_cases hkind : recordKind (leAt 8 a 0) = recordKind (leAt 8 b 0)
  swap
  · exact iff_of_true ⟨fun _ h => absurd h hkind, fun _ h => absurd h hkind, fun _ h => absurd h hkind⟩
      fun h => absurd (h.2.1.trans h.2.2.symm) hkind
  by_cases hk : recordKind (leAt 8 a 0) = J_DIR_REC
  swap
  · have hk' : recordKind (leAt 8 b 0) ≠ J_DIR_REC := hkind ▸ hk
    have hbuilt := builtTail_other ha hb hk hkind
    refine iff_of_true ⟨fun _ _ => ?_, fun _ _ => hbuilt, fun _ _ => ?_⟩ fun h => absurd h.2.1 hk
    · rw [SameOrder, insertedTail_other hk, insertedTail_other hk']
      exact ⟨Iff.rfl, Iff.rfl⟩
    · rw [SameOrder, replacedTail_other fun _ => hk, replacedTail_other fun _ => hk']
      exact hbuilt
  have hk' : recordKind (leAt 8 b 0) = J_DIR_REC := hkind ▸ hk
  cases layout with
  | hashed =>
    have hbuilt := builtTail_sameOrder_hashed ha hb hk hk'
    have hreplaced : SameOrder (replacedTail .hashed) (verifiedTail .hashed) a b := by
      have hsame : ∀ key, replacedTail .hashed key = builtTail key :=
        fun key => replacedTail_other (by simp)
      rw [SameOrder, hsame, hsame]
      exact hbuilt
    have hinserted := insertedTail_sameOrder_hashed ha hb hk hk'
    tauto
  | plain =>
    have hinserted : SameOrder insertedTail (verifiedTail .plain) a b := by
      rw [SameOrder, insertedTail_plain ha hk, insertedTail_plain hb hk', verifiedTail_plain ha hk,
        verifiedTail_plain hb hk']
      exact ⟨Iff.rfl, Iff.rfl⟩
    have hreplaced : SameOrder (replacedTail .plain) (verifiedTail .plain) a b := by
      rw [SameOrder, replacedTail_plain ha hk, replacedTail_plain hb hk', verifiedTail_plain ha hk,
        verifiedTail_plain hb hk']
      simp only [cons_lt_cons_same, and_self]
    have hbuilt := builtTail_sameOrder_plain ha hb hk hk'
    tauto

/-- The keys are in strictly ascending order of the rank. -/
def Ascending (rank : Bytes → List ℕ) (keys : List Bytes) : Prop := keys.Pairwise fun a b => rank a < rank b

instance (rank : Bytes → List ℕ) (keys : List Bytes) : Decidable (Ascending rank keys) :=
  inferInstanceAs (Decidable (List.Pairwise _ keys))

lemma Ascending.of_sameOrder {f g : Bytes → List ℕ} {keys : List Bytes} (h : Ascending f keys)
    (hsame : ∀ a ∈ keys, ∀ b ∈ keys, SameOrder f g a b) : Ascending g keys :=
  h.imp_of_mem fun ha hb hlt => (hsame _ ha _ hb).1.mp hlt

/-- For the keys of a volume the orders of the writers are the order of the verifier exactly if the
names in each directory agree; then keys any writer has sorted are in order for the verifier. -/
theorem one_order_iff {keys : List Bytes} (h : ∀ key ∈ keys, WellFormed layout key) :
    ((∀ a ∈ keys, ∀ b ∈ keys, OneOrder layout a b) ↔ ∀ a ∈ keys, ∀ b ∈ keys, Siblings a b → NamesAgree layout a b) ∧
      ((∀ a ∈ keys, ∀ b ∈ keys, Siblings a b → NamesAgree layout a b) →
        Ascending recOrder keys ∨ Ascending recordSortKey keys ∨ Ascending (catalogSortKey layout) keys →
        Ascending (keyRank layout) keys) := by
  have hiff : ∀ a ∈ keys, ∀ b ∈ keys, (OneOrder layout a b ↔ (Siblings a b → NamesAgree layout a b)) :=
    fun a ha b hb => oneOrder_iff (h a ha) (h b hb)
  refine ⟨forall₂_congr fun a ha => forall₂_congr fun b hb => hiff a ha b hb, fun hagree hsorted => ?_⟩
  have hone : ∀ a ∈ keys, ∀ b ∈ keys, OneOrder layout a b :=
    fun a ha b hb => (hiff a ha b hb).mpr (hagree a ha b hb)
  rcases hsorted with hasc | hasc | hasc
  · exact hasc.of_sameOrder fun a ha b hb => (hone a ha b hb).1
  · exact hasc.of_sameOrder fun a ha b hb => (hone a ha b hb).2.1
  · exact hasc.of_sameOrder fun a ha b hb => (hone a ha b hb).2.2

/-! ### Two names with one hash -/

def crc32cBit (crc : ℕ) : ℕ := if crc % 2 = 1 then (crc / 2) ^^^ 0x82F63B78 else crc / 2

def crc32cUpdate (crc : ℕ) (data : Bytes) : ℕ :=
  data.foldl (fun crc byte => crc32cBit^[8] (crc ^^^ byte.toNat)) crc

def toAsciiLowercase (c : Byte) : Byte := if 0x41 ≤ c ∧ c ≤ 0x5A then c + 0x20 else c

/-- `name_hash`; a name with other characters than ASCII is refused. -/
def nameHash (name : Bytes) : Option ℕ :=
  if name.all (· < 0x80) then
    some (crc32cUpdate 0xFFFFFFFF (name.flatMap fun c => leBytes 4 (toAsciiLowercase c).toNat) % 2 ^ 22)
  else none

def drecKey (parent : ℕ) (name : Bytes) (hashed : Bool) : Option Bytes := do
  let key := leBytes 8 ((J_DIR_REC <<< 60) ||| parent)
  let nbytes := name.length + 1
  if hashed then
    let hash ← nameHash name
    pure (key ++ leBytes 4 ((hash <<< 10) ||| nbytes) ++ name ++ [0])
  else
    pure (key ++ leBytes 2 nbytes ++ name ++ [0])

/-- The hashed key of a name in the root directory. -/
def rootKey (name : Bytes) : Bytes := (drecKey ROOT_DIR_INO_NUM name true).getD []

/-- The keys of `a1` and `b`, with different hashes. -/
theorem one_order_two_hashes :
    (∀ a ∈ [rootKey [0x61, 0x31], rootKey [0x62]], ∀ b ∈ [rootKey [0x61, 0x31], rootKey [0x62]],
      OneOrder .hashed a b) ∧ Ascending (keyRank .hashed) [rootKey [0x61, 0x31], rootKey [0x62]] := by
  have h : ∀ key ∈ [rootKey [0x61, 0x31], rootKey [0x62]], WellFormed .hashed key := by
    unfold WellFormed
    decide +kernel
  have hagree : ∀ a ∈ [rootKey [0x61, 0x31], rootKey [0x62]], ∀ b ∈ [rootKey [0x61, 0x31], rootKey [0x62]],
      Siblings a b → NamesAgree .hashed a b := by
    unfold Siblings NamesAgree
    decide +kernel
  have hsorted : Ascending recOrder [rootKey [0x61, 0x31], rootKey [0x62]] := by decide +kernel
  exact ⟨(one_order_iff h).1.mpr hagree, (one_order_iff h).2 hagree (.inl hsorted)⟩

/-- The keys of `oz9` and `i0er`, whose hashes are the same: inserted files are sorted by the length of
the name, and the verifier asks for `i0er` first. -/
theorem inserted_names_out_of_order : nameHash [0x6f, 0x7a, 0x39] = nameHash [0x69, 0x30, 0x65, 0x72] ∧
    (∀ key ∈ [rootKey [0x6f, 0x7a, 0x39], rootKey [0x69, 0x30, 0x65, 0x72]], WellFormed .hashed key) ∧
    Ascending recOrder [rootKey [0x6f, 0x7a, 0x39], rootKey [0x69, 0x30, 0x65, 0x72]] ∧
    ¬ Ascending (keyRank .hashed) [rootKey [0x6f, 0x7a, 0x39], rootKey [0x69, 0x30, 0x65, 0x72]] := by
  unfold WellFormed
  decide +kernel

end AppleUtils.Apfs
