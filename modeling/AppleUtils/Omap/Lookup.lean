import AppleUtils.Omap.Leaf

/-! # Looking up a mapping

In a well-formed leaf (`OmapLeaf`) the header, the table of contents, the keys and the values each
have bytes of their own, and the keys are in order.  `find_entry` then finds the entry of a key
(`OmapLeaf.findFrom_spec`), and `lookup` reads the map that the entries make up
(`IsMap.lookup_spec`). -/

namespace AppleUtils.Omap

open Bytes Checks
open Apfs.Repair (Disc)

variable {block block' : Bytes} {header : Header} {i j k v : ℕ}

/-! ### Bytes -/

@[simp] lemma number_eq_ok : number k block i = .ok v ↔ i + k ≤ block.length ∧ leAt k block i = v := by
  simp only [number, returns, not_lt, exists_const]

lemma puts_eq_ok {writes : List (ℕ × Bytes)} :
    puts block writes = .ok block' ↔ Within block.length writes ∧ block' = patch block writes := by
  rw [puts, foldlM_putAt, eq_comm]

/-! ### The header -/

def headerOf (block : Bytes) : Header :=
  let toc := TOC_BASE + leAt 2 block TOC_OFF_OFFSET
  let tocLen := leAt 2 block TOC_LEN_OFFSET
  let root := isRoot (leAt 2 block FLAGS_OFFSET)
  { nkeys := leAt 4 block NKEYS_OFFSET
    toc
    tocLen
    keyBase := toc + tocLen
    valueEnd := block.length - if root then BTREE_INFO_BYTES else 0
    freeOff := leAt 2 block FREE_SPACE_OFFSET
    freeLen := leAt 2 block (FREE_SPACE_OFFSET + 2)
    keyFreeLen := leAt 2 block (KEY_FREE_LIST_OFFSET + 2)
    valueFreeLen := leAt 2 block (VAL_FREE_LIST_OFFSET + 2)
    infoAt := if root then some (block.length - BTREE_INFO_BYTES) else none }

/-- The checks of `decode_header`. -/
structure Decodes (block : Bytes) : Prop where
  length : 56 ≤ block.length
  headed : (leAt 2 block FLAGS_OFFSET).testBit 4 = false
  leaf : (leAt 2 block FLAGS_OFFSET).testBit 1 = true
  fixed : (leAt 2 block FLAGS_OFFSET).testBit 2 = true
  room : (headerOf block).keyBase ≤ (headerOf block).valueEnd
  toc : (headerOf block).nkeys * TOC_ENTRY_BYTES ≤ (headerOf block).tocLen

lemma decodeHeader_eq_ok : decodeHeader block = .ok header ↔ Decodes block ∧ header = headerOf block := by
  simp only [decodeHeader, returns, number_eq_ok, FLAGS_OFFSET, NKEYS_OFFSET, TOC_OFF_OFFSET, TOC_LEN_OFFSET,
    FREE_SPACE_OFFSET, KEY_FREE_LIST_OFFSET, VAL_FREE_LIST_OFFSET, not_or, not_lt]
  constructor
  · rintro ⟨_, ⟨-, rfl⟩, _, hheaded, _, hleaf, _, hfixed, _, ⟨-, rfl⟩, _, ⟨-, rfl⟩, _, ⟨-, rfl⟩, _, -,
      _, ⟨hroom, -⟩, _, htoc, _, ⟨-, rfl⟩, _, ⟨-, rfl⟩, _, ⟨-, rfl⟩, _, ⟨hlength, rfl⟩, rfl⟩
    exact ⟨⟨hlength, eq_false_of_ne_true hheaded, not_not.mp hleaf, not_not.mp hfixed, hroom, htoc⟩, rfl⟩
  · rintro ⟨h, rfl⟩
    have hlength := h.length
    refine ⟨_, ⟨by omega, rfl⟩, (), ne_true_of_eq_false h.headed, (), not_not.mpr h.leaf, (),
      not_not.mpr h.fixed, _, ⟨by omega, rfl⟩, _, ⟨by omega, rfl⟩, _, ⟨by omega, rfl⟩, (), ?_, (),
      ⟨h.room, Nat.sub_le _ _⟩, (), h.toc, _, ⟨by omega, rfl⟩, _, ⟨by omega, rfl⟩, _,
      ⟨by omega, rfl⟩, _, ⟨by omega, rfl⟩, rfl⟩
    unfold BTREE_INFO_BYTES
    split_ifs <;> omega

/-- The fields of the header that no operation changes. -/
structure SameHeader (block block' : Bytes) : Prop where
  length : block'.length = block.length
  flags : leAt 2 block' FLAGS_OFFSET = leAt 2 block FLAGS_OFFSET
  tocOff : leAt 2 block' TOC_OFF_OFFSET = leAt 2 block TOC_OFF_OFFSET
  tocLen : leAt 2 block' TOC_LEN_OFFSET = leAt 2 block TOC_LEN_OFFSET

lemma SameHeader.decodes (h : SameHeader block block') (hd : Decodes block)
    (htoc : leAt 4 block' NKEYS_OFFSET * TOC_ENTRY_BYTES ≤ (headerOf block).tocLen) : Decodes block' where
  length := h.length ▸ hd.length
  headed := h.flags ▸ hd.headed
  leaf := h.flags ▸ hd.leaf
  fixed := h.flags ▸ hd.fixed
  room := by
    have := hd.room
    simp only [headerOf] at this ⊢
    rw [h.length, h.flags, h.tocOff, h.tocLen]
    exact this
  toc := by
    simp only [headerOf] at htoc ⊢
    rw [h.tocLen]
    exact htoc

/-! ### Keys and values -/

/-- The number that keys are ordered by. -/
def rank (key : Bytes) : ℕ := leAt 8 key 0 * 2 ^ 64 + leAt 8 key 8

lemma compareKeys_eq (a b : Bytes) : compareKeys a b = compare (rank a) (rank b) := by
  have ha : leAt 8 a 8 < 2 ^ 64 := leAt_lt 8 a 8
  have hb : leAt 8 b 8 < 2 ^ 64 := leAt_lt 8 b 8
  have hrank : ∀ x, rank x = leAt 8 x 0 * 2 ^ 64 + leAt 8 x 8 := fun _ => rfl
  unfold compareKeys
  rcases lt_trichotomy (leAt 8 a 0) (leAt 8 b 0) with h | h | h
  · have hlt : rank a < rank b := by rw [hrank, hrank]; omega
    rw [Nat.compare_eq_lt.mpr h, Nat.compare_eq_lt.mpr hlt]
    rfl
  · -- the object ids are the same
    rw [Nat.compare_eq_eq.mpr h]
    change compare (leAt 8 a 8) (leAt 8 b 8) = _
    rcases lt_trichotomy (leAt 8 a 8) (leAt 8 b 8) with h' | h' | h'
    · have hlt : rank a < rank b := by rw [hrank, hrank]; omega
      rw [Nat.compare_eq_lt.mpr h', Nat.compare_eq_lt.mpr hlt]
    · have heq : rank a = rank b := by rw [hrank, hrank]; omega
      rw [Nat.compare_eq_eq.mpr h', Nat.compare_eq_eq.mpr heq]
    · have hgt : rank b < rank a := by rw [hrank, hrank]; omega
      rw [Nat.compare_eq_gt.mpr h', Nat.compare_eq_gt.mpr hgt]
  · have hgt : rank b < rank a := by rw [hrank, hrank]; omega
    rw [Nat.compare_eq_gt.mpr h, Nat.compare_eq_gt.mpr hgt]
    rfl

lemma length_keyBytes (oid xid : BitVec 64) : (keyBytes oid xid).length = 16 := by simp [keyBytes]

lemma length_valueBytes (paddr : BitVec 64) (blockSize : ℕ) : (valueBytes paddr blockSize).length = 16 := by
  simp [valueBytes]

lemma rank_keyBytes (oid xid : BitVec 64) : rank (keyBytes oid xid) = oid.toNat * 2 ^ 64 + xid.toNat := by
  have hoid : oid.toNat < 256 ^ 8 := oid.isLt
  have hxid : xid.toNat < 256 ^ 8 := xid.isLt
  have hright : leAt 8 (keyBytes oid xid) 8 = xid.toNat := by
    rw [leAt, keyBytes, slice_append_right (by simp), length_leBytes, Nat.sub_self, ← leAt,
      leAt_leBytes, Nat.mod_eq_of_lt hxid]
  rw [rank, hright, keyBytes, leAt_append_left (by simp), leAt_leBytes, Nat.mod_eq_of_lt hoid]

lemma rank_keyBytes_inj {oid xid oid' xid' : BitVec 64}
    (h : rank (keyBytes oid xid) = rank (keyBytes oid' xid')) : oid = oid' ∧ xid = xid' := by
  rw [rank_keyBytes, rank_keyBytes] at h
  have hxid := xid.isLt
  have hxid' := xid'.isLt
  exact ⟨BitVec.eq_of_toNat_eq (by omega), BitVec.eq_of_toNat_eq (by omega)⟩

lemma leAt_valueBytes (paddr : BitVec 64) (blockSize : ℕ) :
    leAt 8 (valueBytes paddr blockSize) 8 = paddr.toNat := by
  rw [leAt, valueBytes, slice_append_right (by simp)]
  simp only [List.length_append, length_leBytes, Nat.reduceAdd, Nat.sub_self]
  have hpaddr : paddr.toNat < 256 ^ 8 := paddr.isLt
  rw [← leAt, leAt_leBytes, Nat.mod_eq_of_lt hpaddr]

def keyOff (block : Bytes) (header : Header) (i : ℕ) : ℕ := leAt 2 block (header.toc + i * 4)

def valueOff (block : Bytes) (header : Header) (i : ℕ) : ℕ := leAt 2 block (header.toc + i * 4 + 2)

/-- The key of an entry. -/
def storedKey (block : Bytes) (header : Header) (i : ℕ) : Bytes :=
  block.slice (header.keyBase + keyOff block header i) 16

/-- The value of an entry. -/
def storedValue (block : Bytes) (header : Header) (i : ℕ) : Bytes :=
  block.slice (header.valueEnd - valueOff block header i) 16

/-- A leaf of at most 65536 bytes with entries inside it, in order; no value overlaps another value or a
key. -/
structure OmapLeaf (block : Bytes) (header : Header) : Prop where
  decoded : decodeHeader block = .ok header
  small : block.length ≤ 65536
  root : header.infoAt = some (block.length - BTREE_INFO_BYTES)
  counted : leAt 8 block (block.length - BTREE_INFO_BYTES + BT_KEY_COUNT_OFFSET) = header.nkeys
  keys : ∀ i < header.nkeys, header.keyBase + keyOff block header i + 16 ≤ header.valueEnd
  values : ∀ i < header.nkeys, 16 ≤ valueOff block header i ∧
    header.keyBase + valueOff block header i ≤ header.valueEnd
  sorted : ∀ i j, i < j → j < header.nkeys →
    rank (storedKey block header i) < rank (storedKey block header j)
  apart : ∀ i < header.nkeys, ∀ j < header.nkeys, i ≠ j →
    valueOff block header i + 16 ≤ valueOff block header j ∨
      valueOff block header j + 16 ≤ valueOff block header i
  below : ∀ i < header.nkeys, ∀ j < header.nkeys,
    header.keyBase + keyOff block header i + 16 ≤ header.valueEnd - valueOff block header j ∨
      header.valueEnd - valueOff block header j + 16 ≤ header.keyBase + keyOff block header i

/-- What the fields of the header of a root say of one another. -/
structure Areas (block : Bytes) (header : Header) : Prop where
  length : 56 ≤ block.length
  toc : 56 ≤ header.toc
  keyBase : header.keyBase = header.toc + header.tocLen
  room : header.keyBase ≤ header.valueEnd
  valueEnd : header.valueEnd + 40 = block.length
  entries : header.nkeys * 4 ≤ header.tocLen
  nkeys : leAt 4 block NKEYS_OFFSET = header.nkeys

lemma OmapLeaf.areas (h : OmapLeaf block header) : Areas block header := by
  obtain ⟨hd, rfl⟩ := decodeHeader_eq_ok.mp h.decoded
  have hlength := hd.length
  have hroot : isRoot (leAt 2 block FLAGS_OFFSET) = true := by
    by_contra hno
    have := h.root
    simp [headerOf, hno] at this
  refine ⟨hlength, Nat.le_add_right _ _, rfl, hd.room, ?_, hd.toc, rfl⟩
  simp only [headerOf, hroot, if_true, BTREE_INFO_BYTES]
  omega

lemma Areas.countAt (h : Areas block header) :
    block.length - BTREE_INFO_BYTES + BT_KEY_COUNT_OFFSET = header.valueEnd + 24 := by
  have := h.valueEnd
  simp only [BTREE_INFO_BYTES, BT_KEY_COUNT_OFFSET]
  omega

/-! ### Looking a key up -/

/-- What `find_entry` should return for the key of a rank. -/
def Placed (block : Bytes) (header : Header) (r : ℕ) : Place → Prop
  | .found i => i < header.nkeys ∧ rank (storedKey block header i) = r
  | .vacant _ => ∀ i < header.nkeys, rank (storedKey block header i) ≠ r

namespace OmapLeaf

variable (h : OmapLeaf block header)

include h

section

variable (hi : i < header.nkeys)

include hi

lemma tocEntry_eq : tocEntry block header i = .ok (keyOff block header i, valueOff block header i) := by
  obtain ⟨-, -, hbase, hroom, hend, hentries, -⟩ := h.areas
  simp only [tocEntry, returns, number_eq_ok, TOC_ENTRY_BYTES]
  exact ⟨_, ⟨by omega, rfl⟩, _, ⟨by omega, rfl⟩, rfl⟩

lemma entryRanges_eq : entryRanges block header i 16 16 =
    .ok (header.keyBase + keyOff block header i, header.valueEnd - valueOff block header i) := by
  have hkey := h.keys i hi
  obtain ⟨hvalue, hlow⟩ := h.values i hi
  simp only [entryRanges, returns, h.tocEntry_eq hi]
  exact ⟨_, rfl, (), by omega, (), by omega, (), by omega, rfl⟩

lemma storedKey_eq :
    (sliceAt block (header.keyBase + keyOff block header i) 16 : Except BtreeError Bytes) = .ok (storedKey block header i) := by
  have := h.keys i hi
  have := h.areas.valueEnd
  exact sliceAt_eq_ok.mpr ⟨by omega, rfl⟩

lemma storedValue_eq :
    (sliceAt block (header.valueEnd - valueOff block header i) 16 : Except BtreeError Bytes) = .ok (storedValue block header i) := by
  have := h.values i hi
  have := h.areas.valueEnd
  exact sliceAt_eq_ok.mpr ⟨by omega, rfl⟩

lemma rank_inj (hj : j < header.nkeys)
    (hrank : rank (storedKey block header i) = rank (storedKey block header j)) : i = j := by
  rcases lt_trichotomy i j with hlt | heq | hgt
  · have := h.sorted i j hlt hj
    omega
  · exact heq
  · have := h.sorted j i hgt hi
    omega

end

lemma findFrom_spec {key : Bytes} (hkey : key.length = 16) {left : ℕ}
    (hleft : i + left = header.nkeys) (hless : ∀ j < i, rank (storedKey block header j) < rank key) :
    ∃ place, findFrom block header key 16 compareKeys left i = .ok place ∧ Placed block header (rank key) place := by
  induction left generalizing i with
  | zero => exact ⟨_, rfl, fun j hj => (hless j (by omega)).ne⟩
  | succ left ih =>
    have hi : i < header.nkeys := by omega
    rw [findFrom, hkey, bind_ok (h.entryRanges_eq hi)]
    dsimp only
    rw [bind_ok (h.storedKey_eq hi), compareKeys_eq]
    rcases lt_trichotomy (rank (storedKey block header i)) (rank key) with hlt | heq | hgt
    · rw [Nat.compare_eq_lt.mpr hlt]
      dsimp only
      refine ih (by omega) fun j hj => ?_
      by_cases hji : j = i
      · exact hji ▸ hlt
      · exact hless j (by omega)
    · rw [Nat.compare_eq_eq.mpr heq]
      exact ⟨_, rfl, hi, heq⟩
    · rw [Nat.compare_eq_gt.mpr hgt]
      refine ⟨_, rfl, fun j hj => ?_⟩
      -- the keys before are less, those from here on are greater
      by_cases hji : j < i
      · exact (hless j hji).ne
      · rcases Nat.eq_or_lt_of_le (Nat.le_of_not_lt hji) with heq | hlt
        · exact heq ▸ hgt.ne'
        · exact (hgt.trans (h.sorted i j hlt hj)).ne'

end OmapLeaf

variable {n root : ℕ} {disc disc' : Disc n} {oid xid : BitVec 64}

/-- The block at the root is a well-formed leaf. -/
structure IsMap (disc : Disc n) (root : ℕ) (header : Header) : Prop where
  inRange : root < disc.blockCount
  leaf : OmapLeaf (disc.block root).val header

/-- An entry maps the key of a rank to an address. -/
def Maps (block : Bytes) (header : Header) (r : ℕ) (paddr : BitVec 64) : Prop :=
  ∃ i < header.nkeys, rank (storedKey block header i) = r ∧
    BitVec.ofNat 64 (leAt 8 (storedValue block header i) 8) = paddr

namespace IsMap

variable (h : IsMap disc root header)

include h

lemma readBlock_eq : readBlock disc root = .ok (disc.block root).val := by
  rw [readBlock, bind_ok (failIf_eq_ok (u := ()).mpr (not_le.mpr h.inRange))]
  rfl

lemma findEntry_spec (oid xid : BitVec 64) : ∃ place,
    findEntry disc root (keyBytes oid xid) VALUE_BYTES compareKeys = .ok place ∧
      Placed (disc.block root).val header (rank (keyBytes oid xid)) place := by
  rw [findEntry, bind_ok h.readBlock_eq, bind_ok h.leaf.decoded]
  exact h.leaf.findFrom_spec (length_keyBytes oid xid) (zero_add _) fun j hj => absurd hj (by omega)

lemma valueAt_eq (hi : i < header.nkeys) : valueAt disc root i KEY_BYTES VALUE_BYTES =
    .ok (storedValue (disc.block root).val header i) := by
  rw [valueAt, bind_ok h.readBlock_eq, bind_ok h.leaf.decoded]
  simp only [returns, not_le]
  exact ⟨(), hi, _, h.leaf.entryRanges_eq hi, h.leaf.storedValue_eq hi⟩

lemma lookup_spec (oid xid : BitVec 64) : ∃ answer, lookup disc root oid xid = .ok answer ∧
    ∀ paddr, answer = some paddr ↔ Maps (disc.block root).val header (rank (keyBytes oid xid)) paddr := by
  obtain ⟨place, hfind, hplaced⟩ := h.findEntry_spec oid xid
  rw [lookup, bind_ok hfind]
  cases place with
  | vacant i =>
    refine ⟨none, rfl, fun paddr => ⟨(by intro hno; cases hno), ?_⟩⟩
    rintro ⟨j, hj, hrank, -⟩
    exact absurd hrank (hplaced j hj)
  | found i =>
    obtain ⟨hi, hrank⟩ := hplaced
    refine ⟨_, bind_ok (h.valueAt_eq hi), fun paddr => ⟨?_, ?_⟩⟩
    · intro hsome
      exact ⟨i, hi, hrank, Option.some.inj hsome⟩
    · rintro ⟨j, hj, hrank', rfl⟩
      rw [h.leaf.rank_inj hj hi (hrank'.trans hrank.symm)]

end IsMap

/-- Two maps that agree on a key are looked up alike there. -/
lemma lookup_congr {header' : Header} (h : IsMap disc root header) (h' : IsMap disc' root header')
    (hsame : ∀ paddr, Maps (disc'.block root).val header' (rank (keyBytes oid xid)) paddr ↔
      Maps (disc.block root).val header (rank (keyBytes oid xid)) paddr) :
    lookup disc' root oid xid = lookup disc root oid xid := by
  obtain ⟨a, hlookup, ha⟩ := h.lookup_spec oid xid
  obtain ⟨a', hlookup', ha'⟩ := h'.lookup_spec oid xid
  rw [hlookup, hlookup']
  refine congrArg Except.ok (Option.ext fun paddr => ?_)
  exact (ha' paddr).trans ((hsame paddr).trans (ha paddr).symm)

end AppleUtils.Omap
