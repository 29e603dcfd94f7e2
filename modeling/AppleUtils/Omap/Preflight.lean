import AppleUtils.Omap.Upsert

/-! # The check before an upsert

`ensure_upsertable` is asked before a repair starts to write.  It and `upsert` look the key up in the same
way and then measure the entries on their own: `insert_leaf` compares keys up to the place of the new
one, `ensure_insert_room` compares none.  They agree on every block (`upsertable_iff`). -/

namespace AppleUtils.Omap

open Bytes Checks
open Apfs (fletcher64Seal length_fletcher64Seal)
open Apfs.Repair (Disc)

variable {n : ℕ} {block block' : Bytes} {header : Header} {key : Bytes} {valueSize : ℕ} {compare : Compare}
    {e : Extent} {disc : Disc n} {value : Bytes} {left p index : ℕ}

/-! ### The check -/

/-- The loop of `ensure_insert_room`. -/
def highest (block : Bytes) (header : Header) (keySize : ℕ) (high : ℕ × ℕ) (index : ℕ) :
    Except BtreeError (ℕ × ℕ) := do
  let (keyOff, valueOff) ← tocEntry block header index
  return (max high.1 (keyOff + keySize), max high.2 valueOff)

def ensureInsertRoom (disc : Disc n) (nodePaddr keySize valueSize : ℕ) : Except BtreeError Unit := do
  let block ← readBlock disc nodePaddr
  let header ← decodeHeader block
  let (keyHigh, valueHigh) ← (List.range header.nkeys).foldlM (highest block header keySize) (0, 0)
  let dataArea := header.valueEnd - header.keyBase
  failIf (dataArea < keyHigh + valueHigh ∨ dataArea < header.freeOff
      ∨ dataArea < header.freeOff + header.freeLen ∨ header.freeOff < keyHigh
      ∨ dataArea < header.freeLen + header.keyFreeLen + header.valueFreeLen)
    (.malformed "the node's recorded free space contradicts its table of contents")
  failIf (header.tocLen < (header.nkeys + 1) * TOC_ENTRY_BYTES) .nodeSplitRequired
  let newValueOff := valueHigh + valueSize
  let newKeyAt := header.keyBase + keyHigh
  failIf (header.valueEnd < newValueOff ∨ header.valueEnd - newValueOff < header.keyBase)
    .nodeSplitRequired
  failIf (header.valueEnd - newValueOff < newKeyAt + keySize) .nodeSplitRequired

def ensureUpsertable (disc : Disc n) (treeRootPaddr : ℕ) (oid xid : BitVec 64) :
    Except BtreeError Unit := do
  match ← findEntry disc treeRootPaddr (keyBytes oid xid) VALUE_BYTES compareKeys with
  | .found _ => return ()
  | .vacant _ => ensureInsertRoom disc treeRootPaddr KEY_BYTES VALUE_BYTES

/-! ### Both measure the same -/

lemma measure_of_placed (h : e.insertAt ≠ header.nkeys) (l : List ℕ) :
    l.foldlM (measure block header key valueSize compare) e = (fun high => ⟨e.insertAt, high.1, high.2⟩) <$>
      l.foldlM (highest block header key.length) (e.keyHigh, e.valueHigh) := by
  induction l generalizing e with
  | nil => rfl
  | cons i l ih =>
    rw [List.foldlM_cons, List.foldlM_cons, measure, highest]
    cases tocEntry block header i with
    | error err => rfl
    | ok entry =>
      rw [bind_ok rfl, bind_ok rfl]
      dsimp only
      rw [if_neg h]
      exact ih h

/-- Where the place of the key is known, its comparisons have all been made. -/
lemma measure_of_find {i a : ℕ} (hplace : e.insertAt = header.nkeys)
    (hleft : i + left = header.nkeys) (hfind : findFrom block header key valueSize compare left i = .ok (.vacant a)) :
    a ≤ header.nkeys ∧ (List.range' i left).foldlM (measure block header key valueSize compare) e =
      (fun high => ⟨a, high.1, high.2⟩) <$>
        (List.range' i left).foldlM (highest block header key.length) (e.keyHigh, e.valueHigh) := by
  induction left generalizing e i with
  | zero =>
    obtain rfl : i = a := by simpa [findFrom] using hfind
    obtain rfl : e.insertAt = i := by omega
    exact ⟨hplace.le, rfl⟩
  | succ left ih =>
    obtain ⟨⟨keyAt, valueAt⟩, hranges, hfind⟩ := bind_eq_ok.mp hfind
    obtain ⟨stored, hstored, hfind⟩ := bind_eq_ok.mp hfind
    obtain ⟨entry, htoc, -⟩ := bind_eq_ok.mp hranges
    rw [List.range'_succ, List.foldlM_cons, List.foldlM_cons, measure, highest, bind_ok htoc, bind_ok htoc]
    dsimp only
    rw [if_pos hplace, bind_ok hranges]
    dsimp only
    rw [bind_ok hstored]
    cases hcompare : compare stored key with
    | eq =>
      rw [hcompare] at hfind
      cases hfind
    | gt =>
      rw [hcompare] at hfind
      cases hfind
      exact ⟨by omega, measure_of_placed (e := ⟨a, _, _⟩) (by dsimp only; omega) _⟩
    | lt =>
      rw [hcompare] at hfind
      exact ih (e := ⟨e.insertAt, _, _⟩) hplace (by omega) hfind

/-! ### What the checks allow can be written -/

lemma puts_returns {writes : List (ℕ × Bytes)} (h : Within block.length writes) :
    ∃ b, puts block writes = .ok b ∧ b.length = block.length :=
  ⟨_, puts_eq_ok.mpr ⟨h, rfl⟩, length_patch h⟩

lemma shiftFrom_returns {a : ℕ} (h : header.toc + (a + left + 1) * 4 ≤ block.length) :
    ∃ b, shiftFrom header a left block = .ok b := by
  induction left generalizing block with
  | zero => exact ⟨_, rfl⟩
  | succ left ih =>
    have hstep : ∃ b, shiftEntry header block (a + left) = .ok b := by
      simp only [shiftEntry, tocEntry, returns, number_eq_ok, TOC_ENTRY_BYTES, puts_eq_ok, within_cons,
        length_leBytes]
      exact ⟨_, _, ⟨_, ⟨by omega, rfl⟩, _, ⟨by omega, rfl⟩, rfl⟩, ⟨by omega, by omega, within_nil⟩, rfl⟩
    obtain ⟨b, hb⟩ := hstep
    obtain ⟨b', hb'⟩ := ih (by rw [(shiftEntry_eq hb).1]; omega)
    exact ⟨b', by rw [shiftFrom, bind_ok hb, hb']⟩

lemma readModifyWrite_returns {mutate : Bytes → Except BtreeError Bytes}
    (hread : readBlock disc p = .ok block) (hmutate : mutate block = .ok block')
    (hlength : block'.length = block.length) (h8 : 8 ≤ block.length) :
    (readModifyWrite disc p mutate).1 = .ok () := by
  rw [readModifyWrite, bind_ok hread, hmutate]
  simp only [readBlock, returns] at hread
  obtain ⟨_, hp, rfl⟩ := hread
  have hn : (fletcher64Seal block').length = n := by
    rw [length_fletcher64Seal (by omega), hlength]
    exact (disc.block p).2
  dsimp only
  rw [writeBlock, dif_pos hn, bind_ok (failIf_eq_ok (u := ()).mpr hp)]
  rfl

lemma countKey_returns (h : 56 ≤ block.length) (hlength : block'.length = block.length) :
    ∃ b, countKey (headerOf block) block' = .ok b ∧ b.length = block'.length := by
  unfold countKey
  split
  · exact ⟨_, rfl, rfl⟩
  · rename_i infoAt hinfo
    obtain rfl : infoAt = block.length - 40 := by
      simp only [headerOf] at hinfo
      split_ifs at hinfo
      exact (Option.some.inj hinfo).symm
    have hat : block.length - 40 + BT_KEY_COUNT_OFFSET + 8 ≤ block'.length := by
      unfold BT_KEY_COUNT_OFFSET
      omega
    dsimp only
    rw [bind_ok (failIf_eq_ok (u := ()).mpr (not_lt.mpr hat)), bind_ok (number_eq_ok.mpr ⟨hat, rfl⟩)]
    exact puts_returns (within_cons.mpr ⟨by rwa [length_leBytes], within_nil⟩)

/-- Where a key is not in a leaf, the check returns exactly if the insertion does. -/
lemma insert_returns {a : ℕ} (nodeXid : BitVec 64)
    (hkey : key.length = 16) (hvalue : value.length = 16) (hread : readBlock disc p = .ok block) (hd : Decodes block)
    (hfind : findFrom block (headerOf block) key 16 compare (headerOf block).nkeys 0 = .ok (.vacant a)) :
    (ensureInsertRoom disc p 16 16 = .ok () →
        ∃ b, insert key value nodeXid compare block = .ok b ∧ b.length = block.length) ∧
      ∀ b, insert key value nodeXid compare block = .ok b → ensureInsertRoom disc p 16 16 = .ok () := by
  have hdecode := decodeHeader_eq_ok.mpr ⟨hd, rfl⟩
  obtain ⟨ha, hmeasure⟩ := measure_of_find (e := ⟨_, 0, 0⟩) rfl (zero_add _) hfind
  rw [← List.range_eq_range', hkey] at hmeasure
  rw [ensureInsertRoom, bind_ok hread, bind_ok hdecode]
  simp only [insert, bind_ok hdecode, hvalue, hkey, hmeasure]
  cases (List.range (headerOf block).nkeys).foldlM (highest block (headerOf block) 16) (0, 0) with
  | error e => exact ⟨fun h => (by cases h), fun _ h => (by cases h)⟩
  | ok high =>
    obtain ⟨K, V⟩ := high
    simp only [Functor.map, Except.map, returns, Except.ok.injEq, exists_eq_left', exists_const]
    constructor
    · rintro ⟨hfree, htoc, hlow, hroom⟩
      have htocAt : 56 ≤ (headerOf block).toc := Nat.le_add_right _ _
      have hend : (headerOf block).valueEnd ≤ block.length := Nat.sub_le _ _
      have hfit : (headerOf block).toc + ((headerOf block).nkeys + 1) * 4 ≤ (headerOf block).keyBase :=
        Nat.add_le_add_left (not_lt.mp htoc) _
      have hcount := fun b' => @countKey_returns block b' hd.length
      generalize headerOf block = header at *
      have hw₁ : Within block.length [(header.keyBase + K, key), (header.valueEnd - (V + 16), value)] := by
        simp only [within_cons, hkey, hvalue]
        exact ⟨by omega, by omega, within_nil⟩
      obtain ⟨b₁, hb₁, hlength₁⟩ := puts_returns hw₁
      obtain ⟨b₂, hb₂⟩ : ∃ b, shiftFrom header a (header.nkeys - a) b₁ = .ok b := shiftFrom_returns (by omega)
      have hlength₂ := (shiftFrom_eq hb₂).1
      have hw₃ : Within b₂.length (headWrites header nodeXid a K V) := by
        simp only [headWrites, within_cons, length_leBytes, NKEYS_OFFSET, XID_OFFSET, FREE_SPACE_OFFSET]
        exact ⟨by omega, by omega, by omega, by omega, by omega, by omega, within_nil⟩
      obtain ⟨b₃, hb₃, hlength₃⟩ := puts_returns hw₃
      obtain ⟨b, hb, hlength⟩ := hcount b₃ (by omega)
      exact ⟨b, ⟨hfree, htoc, hlow, hroom, b₁, hb₁, b₂, hb₂, b₃, hb₃, hb⟩, by omega⟩
    · rintro b ⟨hfree, htoc, hlow, hroom, -⟩
      exact ⟨hfree, htoc, hlow, hroom⟩

/-! ### An entry that is found -/

lemma ranges_of_found {i : ℕ} (h : findFrom block header key valueSize compare left i = .ok (.found index)) :
    index < i + left ∧ ∃ ranges, entryRanges block header index key.length valueSize = .ok ranges := by
  induction left generalizing i with
  | zero => cases h
  | succ left ih =>
    obtain ⟨⟨keyAt, valueAt⟩, hranges, h⟩ := bind_eq_ok.mp h
    obtain ⟨stored, -, h⟩ := bind_eq_ok.mp h
    cases hcompare : compare stored key with
    | eq =>
      rw [hcompare] at h
      cases h
      exact ⟨by omega, _, hranges⟩
    | gt =>
      rw [hcompare] at h
      cases h
    | lt =>
      rw [hcompare] at h
      obtain ⟨hlt, hrest⟩ := ih h
      exact ⟨by omega, hrest⟩

lemma overwrite_returns {ranges : ℕ × ℕ} (nodeXid : BitVec 64)
    (hvalue : value.length = 16) (hd : Decodes block) (hindex : index < (headerOf block).nkeys)
    (h : entryRanges block (headerOf block) index 16 16 = .ok ranges) :
    ∃ b, overwrite index 16 value nodeXid block = .ok b ∧ b.length = block.length := by
  have hend : (headerOf block).valueEnd ≤ block.length := Nat.sub_le _ _
  have hlength := hd.length
  have hrange : ranges.2 + 16 ≤ (headerOf block).valueEnd := by
    simp only [entryRanges, returns, not_lt] at h
    obtain ⟨_, -, _, -, _, -, _, hle, rfl⟩ := h
    exact hle
  rw [overwrite, bind_ok (decodeHeader_eq_ok.mpr ⟨hd, rfl⟩), hvalue,
    bind_ok (failIf_eq_ok (u := ()).mpr (not_le.mpr hindex)), bind_ok h]
  refine puts_returns ?_
  simp only [within_cons, length_leBytes, hvalue, XID_OFFSET]
  exact ⟨by omega, by omega, within_nil⟩

/-- An upsert returns exactly if the check before it does, whatever the block holds. -/
theorem upsertable_iff (disc : Disc n) (root : ℕ) (m : Mapping) :
    ensureUpsertable disc root m.oid m.xid = .ok () ↔ (upsert disc root m).1 = .ok () := by
  have hkey := length_keyBytes m.oid m.xid
  have hvalue := length_valueBytes m.paddr n
  rw [ensureUpsertable, upsert]
  cases hfind : findEntry disc root (keyBytes m.oid m.xid) VALUE_BYTES compareKeys with
  | error e => exact iff_of_false (fun h => by cases h) fun h => by cases h
  | ok place =>
    obtain ⟨block, hread, hfrom⟩ := bind_eq_ok.mp hfind
    obtain ⟨header, hheader, hfrom⟩ := bind_eq_ok.mp hfrom
    obtain ⟨hd, rfl⟩ := decodeHeader_eq_ok.mp hheader
    have h8 : 8 ≤ block.length := by
      have := hd.length
      omega
    rw [bind_ok rfl]
    cases place with
    | found index =>
      obtain ⟨hindex, ranges, hranges⟩ := ranges_of_found hfrom
      rw [hkey] at hranges
      obtain ⟨b, hb, hlength⟩ := overwrite_returns m.nodeXid hvalue hd (by omega) hranges
      exact iff_of_true rfl (readModifyWrite_returns hread hb hlength h8)
    | vacant a =>
      obtain ⟨hreturns, hroom⟩ := insert_returns m.nodeXid hkey hvalue hread hd hfrom
      constructor
      · intro hcheck
        obtain ⟨b, hb, hlength⟩ := hreturns hcheck
        exact readModifyWrite_returns hread hb hlength h8
      · intro hok
        rcases readModifyWrite_spec disc root
          (insert (keyBytes m.oid m.xid) (valueBytes m.paddr n) m.nodeXid compareKeys) with
          ⟨e, he⟩ | ⟨b, disc', -, hb, -⟩
        · rw [insertLeaf, he] at hok
          cases hok
        · simp only [readBlock, returns] at hread
          obtain ⟨_, -, rfl⟩ := hread
          exact hroom b hb

end AppleUtils.Omap
