import AppleUtils.Apfs.Node

/-! # Leaves and what is read from them

`build_leaf` of the writer and `btree_leaf` of the mutator lay out a leaf in the same way: the table,
the keys upwards behind it, the values downwards from the end.  They differ in the room the table
takes, in the trailer and in the text of the refusal (`Builder`).

Offsets and lengths are stored in sixteen bits and the length of the table is too, and a key must
start before the end of the values to be read.  Where all of them fit, and only there, the leaf is
read back as it was written (`Builder.Lays.reads_iff`). -/

namespace AppleUtils.Apfs.LeafBlock

open Bytes Checks List

variable {r : Apfs.Record}

/-- Where the next key and the last value are. -/
structure Cursor where
  block : Bytes
  (index keys values : ℕ)

/-- What the two builders differ in. -/
structure Builder where
  root : Bool
  /-- The room for the table, by the number of records. -/
  tocLen : ℕ → ℕ
  /-- The fields of the header, by the number of records and the length of the table. -/
  header : ℕ → ℕ → List (ℕ × Bytes)
  btFlags : ℕ
  /-- Whether a value is compared with the start of the keys as well. -/
  floor : Bool
  full : Stop

namespace Builder

variable (b : Builder)

/-- A turn of the loop. -/
def place (keyBase valueEnd : ℕ) (c : Cursor) (record : Apfs.Record) : Checked Cursor := do
  let slot := BTNODE_TOC_BASE + c.index * 8
  let values := c.values + record.2.length
  let block ← (slotWrites false slot c.keys record.1.length values record.2.length).foldlM putAt
    c.block
  stopIf (valueEnd < values ∨ b.floor ∧ valueEnd - values < keyBase) b.full
  stopIf (keyBase + c.keys + record.1.length > valueEnd - values) b.full
  let block ← [(keyBase + c.keys, record.1), (valueEnd - values, record.2)].foldlM putAt block
  pure ⟨block, c.index + 1, c.keys + record.1.length, values⟩

def freeFields (keys free : ℕ) : List (ℕ × Bytes) :=
  [u16 0x2C keys, u16 0x2E free, u16 0x30 0xFFFF, u16 0x32 0, u16 0x34 0xFFFF, u16 0x36 0]

def info (blockSize : ℕ) (records : List Apfs.Record) : List (ℕ × Bytes) :=
  if b.root then rootInfo blockSize b.btFlags 0 0 (TreeTotals.of records) else []

def keyBase (n : ℕ) : ℕ := BTNODE_TOC_BASE + b.tocLen n % 2 ^ 16

def write (blockSize : ℕ) (records : List Apfs.Record) : Checked Bytes := do
  let block ← (b.header records.length (b.tocLen records.length % 2 ^ 16)).foldlM putAt
    (zeros blockSize)
  let valueEnd ← minus blockSize (infoBytes b.root)
  let keyBase := b.keyBase records.length
  let c ← records.foldlM (b.place keyBase valueEnd) ⟨block, 0, 0, 0⟩
  let free ← minus valueEnd (keyBase + c.keys + c.values)
  (freeFields c.keys free ++ b.info blockSize records).foldlM putAt c.block

end Builder

open Builder

/-- `build_leaf` of the writer. -/
def buildLeaf : Builder where
  root := true
  tocLen := variableTocLen
  header nkeys tocLen := [u16 0x20 3, u16 0x22 0, u32 0x24 nkeys, u16 0x28 0, u16 0x2A tocLen]
  btFlags := 0
  floor := true
  full := .refused "b-tree leaf overflowed its node" []

def fullLeaf : Stop := .refused "catalog leaf is full; cannot insert" []

/-- `btree_leaf` of the mutator. -/
def btreeLeaf (root : Bool) : Builder where
  root := root
  tocLen nkeys := nkeys * 8
  header nkeys tocLen :=
    [u16 0x20 (if root then 3 else 2), u32 0x24 nkeys, u16 0x2A tocLen]
  btFlags := 0x42
  floor := false
  full := fullLeaf

/-! ### The writes -/

section Writes

variable {b : Builder} {block block' : Bytes} {records : List Apfs.Record}
    {keyBase valueEnd n : ℕ} {c c' : Cursor}

/-- What a turn has tested, and what it has written. -/
lemma place_eq_ok {record : Apfs.Record} : b.place keyBase valueEnd c record = .ok c' ↔
    BTNODE_TOC_BASE + c.index * 8 + 8 ≤ c.block.length ∧ (c.values + record.2.length ≤ valueEnd
        ∧ keyBase + c.keys + record.1.length ≤ valueEnd - (c.values + record.2.length))
      ∧ keyBase + c.keys + record.1.length ≤ c.block.length
      ∧ valueEnd - (c.values + record.2.length) + record.2.length ≤ c.block.length
      ∧ c' = ⟨putRecord false c.block (BTNODE_TOC_BASE + c.index * 8) keyBase valueEnd c.keys
          (c.values + record.2.length) record, c.index + 1, c.keys + record.1.length,
        c.values + record.2.length⟩ := by
  simp only [place, returns, checks, foldlM_putAt, stopIf_eq_ok]
  constructor
  · rintro ⟨_, ⟨hslot, rfl⟩, hfloor, hmeet, _, ⟨hrecord, rfl⟩, rfl⟩
    have hlen := length_patch hslot
    simp only [slotWrites, Bool.false_eq_true, if_false, within_cons, u16_fst, u16_length,
      within_nil, and_true] at hslot
    rw [hlen] at hrecord
    simp only [within_cons, within_nil, and_true] at hrecord
    refine ⟨by omega, by omega, hrecord.1, hrecord.2, ?_⟩
    rw [putRecord, patch_append]
  · rintro ⟨hslot, ⟨hvalues, hmeet⟩, hkey, hvalue, rfl⟩
    have hwithin : Within c.block.length (slotWrites false (BTNODE_TOC_BASE + c.index * 8) c.keys
        record.1.length (c.values + record.2.length) record.2.length) := by
      simp only [slotWrites, Bool.false_eq_true, if_false, within_cons, u16_fst, u16_length, within_nil, and_true]
      omega
    refine ⟨_, ⟨hwithin, rfl⟩, by omega, by omega, _, ⟨?_, rfl⟩, ?_⟩
    · rw [length_patch hwithin]
      simp only [within_cons, within_nil, and_true]
      exact ⟨hkey, hvalue⟩
    · rw [putRecord, patch_append]

/-- Every offset and length fits into sixteen bits, and every key starts before the end of the
values. -/
def Addressable (keyBase valueEnd : ℕ) : ℕ → ℕ → List Apfs.Record → Prop
  | _, _, [] => True
  | keys, values, (key, value) :: records =>
    (keys < 2 ^ 16 ∧ key.length < 2 ^ 16 ∧ values + value.length < 2 ^ 16
        ∧ keyBase + keys < valueEnd)
      ∧ Addressable keyBase valueEnd (keys + key.length) (values + value.length) records

section

variable (h : records.foldlM (b.place keyBase valueEnd) c = .ok c')

include h

/-- Where the cursor ends up; the keys and the values have not met. -/
lemma places_cursor :
    c'.block.length = c.block.length ∧ c'.keys = c.keys + keyBytes records ∧ c'.values = c.values + valueBytes records
      ∧ (records ≠ [] → keyBase + c'.keys + c'.values ≤ valueEnd) := by
  induction records generalizing c with
  | nil =>
    obtain rfl : c = c' := Except.ok.inj h
    simp
  | cons record records ih =>
    rw [foldlM_cons, bind_eq_ok] at h
    obtain ⟨c1, hplace, h⟩ := h
    obtain ⟨hslot, ⟨hvalues, hmeet⟩, hkey, hvalue, rfl⟩ := place_eq_ok.mp hplace
    obtain ⟨hlen, hkeys, hvals, hfit⟩ := ih h
    have hlen1 : (putRecord false c.block (BTNODE_TOC_BASE + c.index * 8) keyBase valueEnd c.keys
        (c.values + record.2.length) record).length = c.block.length := by
      apply length_patch
      simp only [slotWrites, Bool.false_eq_true, if_false, cons_append, nil_append,
        within_cons, u16_fst, u16_length, within_nil, and_true]
      omega
    simp only at hlen hkeys hvals
    rw [keyBytes_cons, valueBytes_cons]
    refine ⟨by rw [hlen, hlen1], by omega, by omega, fun _ => ?_⟩
    rcases records with _ | ⟨r, rs⟩
    · rw [keyBytes_nil] at hkeys
      rw [valueBytes_nil] at hvals
      omega
    · exact hfit (by simp)

lemma places_before (hbase : BTNODE_TOC_BASE ≤ keyBase) {j m : ℕ} (hj : j + m ≤ BTNODE_TOC_BASE) :
    c'.block.slice j m = c.block.slice j m := by
  induction records generalizing c with
  | nil =>
    obtain rfl : c = c' := Except.ok.inj h
    rfl
  | cons record records ih =>
    rw [foldlM_cons, bind_eq_ok] at h
    obtain ⟨c1, hplace, h⟩ := h
    obtain ⟨hslot, ⟨hvalues, hmeet⟩, hkey, hvalue, rfl⟩ := place_eq_ok.mp hplace
    rw [ih h]
    apply slice_putRecord_of_disjoint <;>
      (try simp only [tocStride, Bool.false_eq_true, if_false]) <;> omega

/-- The records written are found again, and nothing else has changed. -/
lemma places_spec (htoc : BTNODE_TOC_BASE + n * 8 ≤ keyBase) (hcount : c.index + records.length ≤ n)
    (hinside : valueEnd ≤ c.block.length) (haddr : Addressable keyBase valueEnd c.keys c.values records) :
    Encoded false c'.block keyBase valueEnd c.index c.keys c.values records
      ∧ ∀ j m, (j + m ≤ BTNODE_TOC_BASE + c.index * 8 ∨ BTNODE_TOC_BASE + n * 8 ≤ j) →
        (j + m ≤ keyBase + c.keys ∨ keyBase + c'.keys ≤ j) →
        (j + m ≤ valueEnd - c'.values ∨ valueEnd - c.values ≤ j) → c'.block.slice j m = c.block.slice j m := by
  induction records generalizing c with
  | nil =>
    obtain rfl : c = c' := Except.ok.inj h
    exact ⟨trivial, fun _ _ _ _ _ => rfl⟩
  | cons record records ih =>
    have hcursor := places_cursor h
    obtain ⟨key, value⟩ := record
    rw [foldlM_cons, bind_eq_ok] at h
    obtain ⟨c1, hplace, h⟩ := h
    obtain ⟨hslot, ⟨hvalues, hmeet⟩, hkey, hvalue, rfl⟩ := place_eq_ok.mp hplace
    obtain ⟨⟨hkeys16, hkey16, hvalues16, hstart⟩, haddr⟩ := haddr
    simp only [length_cons, keyBytes_cons, valueBytes_cons] at hcount hcursor
    simp only at hmeet hkey hvalue hvalues
    have hfit := hcursor.2.2.2 (by simp)
    have htable : BTNODE_TOC_BASE = 56 := rfl
    obtain ⟨hlen, hslotAt, hkeyAt, hvalueAt⟩ := putRecord_written false c.block
      (BTNODE_TOC_BASE + c.index * 8) keyBase valueEnd c.keys (c.values + value.length)
      (key, value) (by simp only [tocStride, Bool.false_eq_true, if_false]; omega) hmeet hvalue
      hkey16 (by simp only; omega) hkeys16 hvalues16
    set block1 := putRecord false c.block (BTNODE_TOC_BASE + c.index * 8) keyBase valueEnd c.keys
      (c.values + value.length) (key, value) with hblock1
    simp only at hlen hslotAt hkeyAt hvalueAt
    obtain ⟨hrest, hframe⟩ := ih h (by simp only; omega) (by simp only; omega) haddr
    simp only at hframe
    -- the rest of the loop leaves this record alone
    have hkeep (j m : ℕ)
        (h1 : j + m ≤ BTNODE_TOC_BASE + (c.index + 1) * 8 ∨ keyBase ≤ j)
        (h2 : j + m ≤ keyBase + (c.keys + key.length)
          ∨ valueEnd - (c.values + value.length) ≤ j) :
        c'.block.slice j m = block1.slice j m :=
      hframe j m (by omega) (by omega) (by omega)
    refine ⟨⟨?_, ?_, ?_, hrest⟩, ?_⟩
    · simp only [SlotAt, leAt, tocStride, Bool.false_eq_true, if_false] at hslotAt ⊢
      rw [hkeep _ 2 (by omega) (by omega), hkeep _ 2 (by omega) (by omega),
        hkeep _ 2 (by omega) (by omega), hkeep _ 2 (by omega) (by omega)]
      exact hslotAt
    · rw [hkeep _ _ (by omega) (by omega)]
      exact hkeyAt
    · rw [hkeep _ _ (by omega) (by omega)]
      exact hvalueAt
    · intro j m h1 h2 h3
      rw [hframe j m (by omega) (by omega) (by omega), hblock1]
      apply slice_putRecord_of_disjoint <;>
        (try simp only [tocStride, Bool.false_eq_true, if_false]) <;> omega

end

end Writes

/-! ### Reading back -/

/-- The table has room for all records, and the header says what the block is. -/
structure Builder.Lays (b : Builder) : Prop where
  room : ∀ n, n * 8 ≤ b.tocLen n
  bounds : ∀ n tocLen, ∀ w ∈ b.header n tocLen, w.1 + w.2.length ≤ 0x2C
  header : ∀ {blockSize n tocLen}, Within blockSize (b.header n tocLen) → n < 2 ^ 32 →
    tocLen < 2 ^ 16 →
    NodeHeader (patch (zeros blockSize) (b.header n tocLen)) b.root false 0 n tocLen

lemma nodeFlags_lt (root leaf fixed : Bool) : nodeFlags root leaf fixed < 256 ^ 2 := by
  revert root leaf fixed
  decide

lemma buildLeaf_lays : buildLeaf.Lays where
  room n := Nat.mul_le_mul_right 8 (le_max_left _ _)
  bounds n tocLen := by simp [buildLeaf]
  header {_ _ tocLen} hwithin hn htoc := by
    have hsize := hwithin (u16 0x2A tocLen) (by simp [buildLeaf])
    rw [u16_fst, u16_length] at hsize
    constructor
    · exact leAt_patch_zeros hwithin (by simp [lastWrite, u16, u32, buildLeaf, nodeFlags]) (by omega)
        (nodeFlags_lt _ _ _)
    all_goals
      exact leAt_patch_zeros hwithin (by simp [lastWrite, u16, u32, buildLeaf]) (by omega)
        (by omega)

lemma btreeLeaf_lays (root : Bool) : (btreeLeaf root).Lays where
  room n := le_rfl
  bounds n tocLen := by simp [btreeLeaf]
  header {_ _ tocLen} hwithin hn htoc := by
    have hsize := hwithin (u16 0x2A tocLen) (by simp [btreeLeaf])
    rw [u16_fst, u16_length] at hsize
    constructor
    · refine leAt_patch_zeros hwithin ?_ (by omega) (nodeFlags_lt _ _ _)
      cases root <;> simp [lastWrite, u16, u32, btreeLeaf, nodeFlags]
    · exact leAt_patch_zeros hwithin (by simp [lastWrite, u16, u32, btreeLeaf]; rfl) (by omega)
        (by omega)
    · exact leAt_patch_zeros hwithin (by simp [lastWrite, u16, u32, btreeLeaf]) (by omega) (by omega)
    · exact leAt_patch_zeros hwithin (by simp [lastWrite, u16, u32, btreeLeaf]; rfl) (by omega)
        (by omega)
    · exact leAt_patch_zeros hwithin (by simp [lastWrite, u16, u32, btreeLeaf]) (by omega) (by omega)

section Reading

variable {b : Builder} {blockSize : ℕ} {records : List Apfs.Record} {block : Bytes}
    {nkeys paddr i keyOff valueOff keyBase valueEnd values : ℕ}

/-- The block that has been written: as long as a block, with the header, and with the records
where their offsets fit. -/
lemma write_spec (hb : b.Lays) (h : b.write blockSize records = .ok block) : block.length = blockSize
    ∧ b.keyBase records.length + keyBytes records + valueBytes records + infoBytes b.root ≤ blockSize
    ∧ (b.tocLen records.length < 2 ^ 16 → NodeHeader block b.root false 0 records.length (b.tocLen records.length)
      ∧ (Addressable (b.keyBase records.length) (blockSize - infoBytes b.root) 0 0 records →
        Encoded false block (b.keyBase records.length) (blockSize - infoBytes b.root) 0 0 0 records)) := by
  simp only [write, bind_eq_ok, foldlM_putAt, minus_eq_ok] at h
  obtain ⟨first, ⟨hheader, rfl⟩, valueEnd, ⟨hinfo, rfl⟩, c, hplaces, free, ⟨hroom, -⟩, hlast, rfl⟩ := h
  rw [length_zeros] at hheader
  obtain ⟨hlen, hkeys, hvalues, -⟩ := places_cursor hplaces
  have hfirst : (patch (zeros blockSize) (b.header records.length
      (b.tocLen records.length % 2 ^ 16))).length = blockSize := by
    rw [length_patch (by rwa [length_zeros]), length_zeros]
  simp only [hfirst, zero_add] at hlen hkeys hvalues
  have hlength := length_patch hlast
  -- the last writes lie between the header and the table, and behind the values
  have hframe (j m : ℕ) (h1 : j + m ≤ 0x2C ∨ BTNODE_TOC_BASE ≤ j)
      (h2 : j + m ≤ blockSize - infoBytes b.root) :
      (patch c.block (freeFields c.keys free ++ b.info blockSize records)).slice j m = c.block.slice j m := by
    apply slice_patch_of_disjoint hlast
    intro w hw
    rcases mem_append.mp hw with hw | hw
    · have htable : BTNODE_TOC_BASE = 56 := rfl
      have : 0x2C ≤ w.1 ∧ w.1 + w.2.length ≤ 56 := by
        simp only [freeFields, mem_cons, not_mem_nil, or_false] at hw
        rcases hw with rfl | rfl | rfl | rfl | rfl | rfl <;> simp
      omega
    · right
      cases hroot : b.root with
      | false => simp [info, hroot] at hw
      | true =>
        simp only [hroot, infoBytes, if_true] at h2
        have : blockSize - BTREE_INFO_BYTES ≤ w.1 := by
          simp only [info, hroot, if_true, rootInfo, mem_cons, not_mem_nil, or_false] at hw
          rcases hw with rfl | rfl | rfl | rfl | rfl | rfl | rfl | rfl <;> simp
        omega
  refine ⟨by rw [hlength, hlen], by omega, fun htoc => ?_⟩
  rw [Nat.mod_eq_of_lt htoc] at hheader hplaces
  have hbase : b.keyBase records.length = BTNODE_TOC_BASE + b.tocLen records.length := by
    rw [keyBase, Nat.mod_eq_of_lt htoc]
  have hroom8 := hb.room records.length
  have htable : BTNODE_TOC_BASE = 56 := rfl
  have hinside : BTNODE_TOC_BASE ≤ blockSize - infoBytes b.root := by omega
  have hsame (j m : ℕ) (hj : j + m ≤ 0x2C) :
      leAt m (patch c.block (freeFields c.keys free ++ b.info blockSize records)) j =
        leAt m (patch (zeros blockSize) (b.header records.length (b.tocLen records.length))) j := by
    rw [leAt, hframe j m (.inl hj) (by omega), places_before hplaces (by omega) (by omega), leAt]
  have hcount : records.length < 2 ^ 32 := by omega
  obtain ⟨h1, h2, h3, h4, h5⟩ := hb.header hheader hcount htoc
  constructor
  · constructor <;> rw [hsame _ _ (by omega)] <;> assumption
  · intro haddr
    have hspec := places_spec (n := records.length) hplaces (by omega) (by simp) (by
      rw [Nat.mod_eq_of_lt htoc] at hfirst
      rw [hfirst]
      omega) haddr
    refine hspec.1.congr (n := records.length) ?_ ?_ ?_ fun j m h1 h2 => hframe j m (.inr h1) h2
    · simp only [tocStride, Bool.false_eq_true, if_false]
      omega
    · simp
    · simp only [zero_add]
      omega

/-- The node that is read from a block with the header of a leaf. -/
def leafNode (b : Builder) (blockSize nkeys paddr : ℕ) (block : Bytes) : BTreeNode :=
  ⟨paddr, block, nodeFlags b.root true false, 0, nkeys, BTNODE_TOC_BASE + b.tocLen nkeys,
    blockSize - infoBytes b.root, BTNODE_TOC_BASE⟩

lemma decode_leaf (hlen : block.length = blockSize)
    (hheader : NodeHeader block b.root false 0 nkeys (b.tocLen nkeys)) (hroom : nkeys * 8 ≤ b.tocLen nkeys)
    (hfit : BTNODE_TOC_BASE + b.tocLen nkeys + infoBytes b.root ≤ blockSize) :
    BTreeNode.decode ⟨paddr, block⟩ blockSize = .ok (leafNode b blockSize nkeys paddr block) := by
  obtain ⟨hflags, hlevel, hnkeys, htocOff, htocLen⟩ := hheader
  have hbase : BTNODE_TOC_BASE = 56 := rfl
  simp only [BTreeNode.decode, BTreeNode.decodeNode, returns, checks, minus_eq_ok, existsAndEq,
    hflags, hlevel, hnkeys, htocOff, htocLen, btnodeRoot_nodeFlags, btnodeFixedKvSize_nodeFlags,
    btnodeNoheader_nodeFlags, add_zero, Bool.false_eq_true, not_false_eq_true, and_true, true_and, tocStride,
    if_false, decide_true, leafNode]
  omega

/-- A record that is read starts before the end of the values. -/
lemma key_lt_of_entry {keyLen valueLen : ℕ} (h : (leafNode b blockSize nkeys paddr block).entry i = .ok r)
    (hslot : SlotAt false block (BTNODE_TOC_BASE + i * 8) keyOff keyLen valueOff valueLen) :
    BTNODE_TOC_BASE + b.tocLen nkeys + keyOff < blockSize - infoBytes b.root := by
  obtain ⟨hk, -⟩ := hslot
  rw [leafNode] at h
  simp only [BTreeNode.entry, BTreeNode.entryAt, btnodeFixedKvSize_nodeFlags, Bool.false_eq_true, if_false, returns, checks, existsAndEq, hk] at h
  omega

lemma entry_of_slot (hlen : block.length = blockSize)
    (htable : BTNODE_TOC_BASE + i * 8 + 8 ≤ BTNODE_TOC_BASE + b.tocLen nkeys)
    (hslot : SlotAt false block (BTNODE_TOC_BASE + i * 8) keyOff r.1.length (valueOff + r.2.length) r.2.length)
    (hkey : block.slice (BTNODE_TOC_BASE + b.tocLen nkeys + keyOff) r.1.length = r.1)
    (hvalue : block.slice (blockSize - infoBytes b.root - (valueOff + r.2.length)) r.2.length = r.2)
    (hstart : BTNODE_TOC_BASE + b.tocLen nkeys + keyOff < blockSize - infoBytes b.root)
    (hareas : BTNODE_TOC_BASE + b.tocLen nkeys + (keyOff + r.1.length) + (valueOff + r.2.length)
      ≤ blockSize - infoBytes b.root) : (leafNode b blockSize nkeys paddr block).entry i = .ok r := by
  obtain ⟨hk, hkl, hv, hvl⟩ := hslot
  rw [leafNode]
  simp only [BTreeNode.entry, BTreeNode.entryAt, btnodeFixedKvSize_nodeFlags, Bool.false_eq_true, if_false, returns, checks, sliceAt_eq_ok, existsAndEq, hk, hkl, hv, hvl, and_true, Nat.add_sub_cancel_left, hkey, hvalue]
  and_intros <;> omega

lemma Addressable.get {keys j : ℕ} (h : Addressable keyBase valueEnd keys values records)
    (henc : Encoded false block keyBase valueEnd i keys values records) (hj : records[j]? = some r) :
    ∃ keyOff valueOff, SlotAt false block (BTNODE_TOC_BASE + (i + j) * 8) keyOff r.1.length
        (valueOff + r.2.length) r.2.length ∧ keyBase + keyOff < valueEnd := by
  induction records generalizing i j keys values with
  | nil => simp at hj
  | cons head records ih =>
    obtain ⟨hslot, -, -, hrest⟩ := henc
    obtain ⟨⟨-, -, -, hstart⟩, haddr⟩ := h
    cases j with
    | zero =>
      obtain rfl : head = r := by simpa using hj
      exact ⟨keys, values, hslot, hstart⟩
    | succ j =>
      rw [show i + (j + 1) = i + 1 + j by omega]
      exact ih haddr hrest (by simpa using hj)

/-- What is stored fits, as the places it is stored in have sixteen bits. -/
lemma addressable_of_encoded {keys : ℕ} (henc : Encoded false block keyBase valueEnd i keys values records)
    (hstart : ∀ j r keyOff keyLen valueOff valueLen, records[j]? = some r →
      SlotAt false block (BTNODE_TOC_BASE + (i + j) * 8) keyOff keyLen valueOff valueLen →
      keyBase + keyOff < valueEnd) : Addressable keyBase valueEnd keys values records := by
  induction records generalizing i keys values with
  | nil => trivial
  | cons head records ih =>
    obtain ⟨key, value⟩ := head
    obtain ⟨hslot, -, -, hrest⟩ := henc
    have hfirst := hstart 0 (key, value) keys key.length (values + value.length) value.length
      rfl hslot
    obtain ⟨hk, hkl, hv, -⟩ := hslot
    have hbound := leAt_lt 2 block
    refine ⟨⟨hk ▸ hbound _, hkl ▸ hbound _, hv ▸ hbound _, hfirst⟩, ih hrest ?_⟩
    intro j r keyOff keyLen valueOff valueLen hj
    rw [show i + 1 + j = i + (j + 1) by omega]
    exact hstart (j + 1) r keyOff keyLen valueOff valueLen (by simpa using hj)

/-- The leaf is read as it was written: the table says where each record is, nothing cut off, and
the reader finds a leaf with just these records. -/
structure Reads (b : Builder) (blockSize : ℕ) (records : List Apfs.Record) (block : Bytes) :
    Prop where
  toc : leAt 2 block 0x2A = b.tocLen records.length
  placed : Encoded false block (BTNODE_TOC_BASE + b.tocLen records.length)
    (blockSize - infoBytes b.root) 0 0 0 records
  node : ∀ paddr, ∃ node, BTreeNode.decode ⟨paddr, block⟩ blockSize = .ok node
    ∧ node.isLeaf = true ∧ node.nkeys = records.length
    ∧ ∀ i r, records[i]? = some r → node.entry i = .ok r

/-- The length of the table, the offsets and the lengths of the records fit into their fields, and no
key starts where the values end. -/
def Storable (b : Builder) (blockSize : ℕ) (records : List Apfs.Record) : Prop :=
  b.tocLen records.length < 2 ^ 16
    ∧ Addressable (BTNODE_TOC_BASE + b.tocLen records.length) (blockSize - infoBytes b.root) 0 0
      records

lemma Builder.Lays.reads_iff (hb : b.Lays) (h : b.write blockSize records = .ok block) :
    Reads b blockSize records block ↔ Storable b blockSize records := by
  obtain ⟨hlen, hfit, hspec⟩ := write_spec hb h
  have hroom := hb.room records.length
  have hbase (htoc : b.tocLen records.length < 2 ^ 16) :
      b.keyBase records.length = BTNODE_TOC_BASE + b.tocLen records.length := by
    rw [keyBase, Nat.mod_eq_of_lt htoc]
  constructor
  · rintro ⟨htoc, hplaced, hnode⟩
    have htoc16 : b.tocLen records.length < 2 ^ 16 := htoc ▸ leAt_lt 2 block 0x2A
    rw [hbase htoc16] at hfit
    obtain ⟨node, hdecode, -, -, hentry⟩ := hnode 0
    rw [decode_leaf hlen (hspec htoc16).1 hroom (by omega)] at hdecode
    cases hdecode
    refine ⟨htoc16, addressable_of_encoded hplaced ?_⟩
    intro j r keyOff keyLen valueOff valueLen hj hslot
    rw [zero_add] at hslot
    exact key_lt_of_entry (hentry j r hj) hslot
  · rintro ⟨htoc16, haddr⟩
    obtain ⟨hheader, henc⟩ := hspec htoc16
    rw [hbase htoc16] at hfit henc
    have hplaced := henc haddr
    refine ⟨hheader.tocLen, hplaced, fun paddr => ⟨_, decode_leaf hlen hheader hroom (by omega),
      btnodeLeaf_nodeFlags .., rfl, fun i r hi => ?_⟩⟩
    have hi' : i < records.length := (List.getElem?_eq_some_iff.mp hi).1
    obtain ⟨keyOff, valueOff, hslot, hkey, hvalue, hko, hvo⟩ := hplaced.get hi
    obtain ⟨keyOff', valueOff', hslot', hstart⟩ := haddr.get hplaced hi
    rw [zero_add] at hslot hslot' hko hvo
    obtain rfl : keyOff = keyOff' := hslot.1.symm.trans hslot'.1
    exact entry_of_slot hlen (by omega) hslot hkey hvalue hstart (by omega)

end Reading

/-! ### Leaves that are not read back -/

/-- Some leaf is built from a key of 65536 bytes. -/
lemma btreeLeaf_long_key : ∃ block, (btreeLeaf false).write (2 ^ 17) [(zeros (2 ^ 16), [])] = .ok block := by
  have hheader : Within (zeros (2 ^ 17)).length ((btreeLeaf false).header 1 8) := by simp [btreeLeaf]
  have hlen := length_patch hheader
  rw [length_zeros] at hlen
  have hbase : (btreeLeaf false).keyBase 1 = 64 := rfl
  obtain ⟨c, hplace⟩ : ∃ c, (btreeLeaf false).place 64 (2 ^ 17)
      ⟨patch (zeros (2 ^ 17)) ((btreeLeaf false).header 1 8), 0, 0, 0⟩ (zeros (2 ^ 16), []) =
      .ok c := by
    refine ⟨_, place_eq_ok.mpr ⟨?_, ⟨?_, ?_⟩, ?_, ?_, rfl⟩⟩ <;>
      simp only [hlen, length_zeros, length_nil, BTNODE_TOC_BASE] <;> norm_num
  have hplaces : [(zeros (2 ^ 16), [])].foldlM ((btreeLeaf false).place 64 (2 ^ 17))
      ⟨patch (zeros (2 ^ 17)) ((btreeLeaf false).header 1 8), 0, 0, 0⟩ = .ok c := by
    rw [foldlM_cons, hplace]
    rfl
  obtain ⟨hblock, hkeys, hvalues, -⟩ := places_cursor hplaces
  simp only [hlen] at hblock
  simp only [keyBytes, valueBytes, map_cons, map_nil, sum_cons, sum_nil, length_zeros, length_nil] at hkeys hvalues
  simp only [write, bind_eq_ok, foldlM_putAt, minus_eq_ok]
  refine ⟨_, _, ⟨hheader, rfl⟩, _, ⟨Nat.zero_le _, rfl⟩, c, hplaces, _, ⟨?_, rfl⟩, ?_, rfl⟩
  · rw [length_singleton, hbase, hkeys, hvalues]
    norm_num [infoBytes, btreeLeaf]
  · rw [hblock]
    simp [freeFields, info, btreeLeaf]

/-- A leaf that either builder returns has its keys and values in their own room, and it is read back
as it was written exactly if the offsets and lengths fit into their fields and no key starts where the
values end. -/
theorem leaves_read_back (blockSize : ℕ) (records : List Apfs.Record) (b : Builder)
    (hb : b = buildLeaf ∨ ∃ root, b = btreeLeaf root) (block : Bytes) (h : b.write blockSize records = .ok block) :
    b.keyBase records.length + keyBytes records + valueBytes records + infoBytes b.root ≤ blockSize
      ∧ (Reads b blockSize records block ↔ Storable b blockSize records) := by
  have hlays : b.Lays := by
    rcases hb with rfl | ⟨root, rfl⟩
    · exact buildLeaf_lays
    · exact btreeLeaf_lays root
  exact ⟨(write_spec hlays h).2.1, hlays.reads_iff h⟩

def smallLeaf : Bytes := ((buildLeaf.write 168 [([7], [9, 9])]).toOption).getD []

theorem leaves_read_back_small : Reads buildLeaf 168 [([7], [9, 9])] smallLeaf :=
  (leaves_read_back 168 [([7], [9, 9])] buildLeaf (.inl rfl) smallLeaf (by decide +kernel)).2.mpr
    ⟨by decide, ⟨by decide, by decide, by decide, by decide⟩, trivial⟩

/-- An empty key at the end of a full node is refused by the reader, and of a key of 65536 bytes the
table has no length. -/
theorem leaves_not_read_back : (∃ block node, buildLeaf.write 160 [([], [])] = .ok block
      ∧ BTreeNode.decode ⟨0, block⟩ 160 = .ok node ∧ node.nkeys = 1
      ∧ node.entry 0 = .error (.verify (.nodeMalformed 0 "key starts past the value area")))
    ∧ (∃ block, (btreeLeaf false).write (2 ^ 17) [(zeros (2 ^ 16), [])] = .ok block
      ∧ ¬ Reads (btreeLeaf false) (2 ^ 17) [(zeros (2 ^ 16), [])] block) := by
  constructor
  · let block := ((buildLeaf.write 160 [([], [])]).toOption).getD []
    let node : BTreeNode := leafNode buildLeaf 160 1 0 block
    exact ⟨block, node, by decide +kernel, by decide +kernel, rfl, by decide +kernel⟩
  · obtain ⟨block, hblock⟩ := btreeLeaf_long_key
    refine ⟨block, hblock, fun hreads => ?_⟩
    obtain ⟨-, ⟨-, hkey, -⟩, -⟩ := ((btreeLeaf_lays false).reads_iff hblock).mp hreads
    rw [length_zeros] at hkey
    omega

end AppleUtils.Apfs.LeafBlock
