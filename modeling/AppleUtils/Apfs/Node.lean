import AppleUtils.Apfs.Verify

/-! # Writing B-tree nodes

`encodeTreeNode` lays out a node: the header, a table of contents, the keys upwards from the end of
the table, the values downwards from the end of the block.  `buildFixedKvLeaf` does the same for trees
of a single node.

Reading is the inverse (`IsNode`): where the records fit, `BTreeNode.decode` finds as many records
as were written and `BTreeNode.entry` returns each.  In a node with records of fixed sizes an entry
runs on to the end of the value area, so there each key and value is the front of what is read. -/

namespace AppleUtils.Apfs

open Bytes Checks List

/-- A key and a value. -/
abbrev Record := Bytes × Bytes

variable {records : List Record}
    {blockSize level : ℕ} {b : Bytes} {root : Bool} {totals : TreeTotals} {body : Bytes}
    {b1 : Bytes} {flags keyBase valueEnd keyUsed valueUsed keySize valSize : ℕ}

/-- A number to be written at an offset. -/
def u16 (offset v : ℕ) : ℕ × Bytes := (offset, leBytes 2 v)
def u32 (offset v : ℕ) : ℕ × Bytes := (offset, leBytes 4 v)
def u64 (offset v : ℕ) : ℕ × Bytes := (offset, leBytes 8 v)

@[simp] lemma u16_fst (offset v : ℕ) : (u16 offset v).1 = offset := rfl
@[simp] lemma u32_fst (offset v : ℕ) : (u32 offset v).1 = offset := rfl
@[simp] lemma u64_fst (offset v : ℕ) : (u64 offset v).1 = offset := rfl
@[simp] lemma u16_length (offset v : ℕ) : (u16 offset v).2.length = 2 := length_leBytes 2 v
@[simp] lemma u32_length (offset v : ℕ) : (u32 offset v).2.length = 4 := length_leBytes 4 v
@[simp] lemma u64_length (offset v : ℕ) : (u64 offset v).2.length = 8 := length_leBytes 8 v

/-! ### Sealed objects -/

def sealBlock (oid xid oType subtype : ℕ) (block : Bytes) : Bytes :=
  fletcher64Seal (patch block [u64 8 oid, u64 16 xid, u32 24 oType, u32 28 subtype])

section Seal

variable {oid xid oType subtype i n : ℕ} {block : Bytes}

lemma sealWithin (oid xid oType subtype : ℕ) (h : 32 ≤ block.length) :
    Within block.length [u64 8 oid, u64 16 xid, u32 24 oType, u32 28 subtype] := by
  simp only [within_cons, u64_fst, u32_fst, u64_length, u32_length, within_nil, and_true]
  omega

lemma length_sealBlock (h : 32 ≤ block.length) : (sealBlock oid xid oType subtype block).length = block.length := by
  have hlen := length_patch (sealWithin oid xid oType subtype h)
  rw [sealBlock, length_fletcher64Seal (by omega), hlen]

lemma checksumValid_sealBlock (h : 32 ≤ block.length) (h4 : block.length % 4 = 0) :
    checksumValid (sealBlock oid xid oType subtype block) = true := by
  have hlen := length_patch (sealWithin oid xid oType subtype h)
  exact checksumValid_seal (by omega) (by omega)

lemma slice_sealBlock (h : 32 ≤ block.length) (hi : 32 ≤ i) :
    (sealBlock oid xid oType subtype block).slice i n = block.slice i n := by
  rw [sealBlock, slice_fletcher64Seal (by omega)]
  apply slice_patch_of_disjoint (sealWithin oid xid oType subtype h)
  simp only [mem_cons, not_mem_nil, or_false, forall_eq_or_imp, forall_eq, u64_fst, u32_fst, u64_length, u32_length]
  omega

lemma leAt_sealBlock (h : 32 ≤ block.length) (hi : 32 ≤ i) :
    leAt n (sealBlock oid xid oType subtype block) i = leAt n block i := by
  rw [leAt, slice_sealBlock h hi, leAt]

lemma header_sealBlock (h : 32 ≤ block.length) (hoid : oid < 2 ^ 64) (hxid : xid < 2 ^ 64)
    (htype : oType < 2 ^ 32) (hsubtype : subtype < 2 ^ 32) : leAt 8 (sealBlock oid xid oType subtype block) 8 = oid
      ∧ leAt 8 (sealBlock oid xid oType subtype block) 16 = xid
      ∧ leAt 4 (sealBlock oid xid oType subtype block) 24 = oType
      ∧ leAt 4 (sealBlock oid xid oType subtype block) 28 = subtype := by
  have hw := sealWithin oid xid oType subtype h
  simp only [sealBlock]
  refine ⟨?_, ?_, ?_, ?_⟩ <;> rw [leAt_fletcher64Seal (by omega)] <;>
    refine leAt_patch hw ?_ (by omega) <;> simp [lastWrite, u64, u32]

end Seal

/-! ### Layout of a node -/

structure TreeLayout where
  /-- The sizes of keys and of values in leaves, where they are fixed. -/
  fixed : Option (ℕ × ℕ)
  (flags subtype : ℕ)

def FIXED_TOC_ENTRY_BYTES : ℕ := 4
def MIN_VARIABLE_TOC_SLOTS : ℕ := 8

def fixedTocLen (blockSize keySize valSize : ℕ) : ℕ :=
  (blockSize - BTNODE_TOC_BASE) / (FIXED_TOC_ENTRY_BYTES + keySize + valSize) * FIXED_TOC_ENTRY_BYTES

def variableTocLen (nkeys : ℕ) : ℕ := max nkeys MIN_VARIABLE_TOC_SLOTS * 8

namespace TreeLayout

variable (layout : TreeLayout)

/-- Values above the leaves are object identifiers. -/
def sizes (level : ℕ) : Option (ℕ × ℕ) :=
  layout.fixed.map fun (ks, vs) => (ks, if level = 0 then vs else 8)

def tocLen (level blockSize nkeys : ℕ) : ℕ :=
  match layout.sizes level with
  | some (ks, vs) => fixedTocLen blockSize ks vs
  | none => variableTocLen nkeys

/-- `fixed_toc_len` does not underflow. -/
abbrev Measures (blockSize : ℕ) : Prop := layout.fixed = none ∨ BTNODE_TOC_BASE ≤ blockSize

end TreeLayout

/-- The bytes of all keys, of all values. -/
def keyBytes (records : List Record) : ℕ := (records.map (·.1.length)).sum
def valueBytes (records : List Record) : ℕ := (records.map (·.2.length)).sum

def nodeBytes (records : List Record) (layout : TreeLayout) (root : Bool) (level blockSize : ℕ) : ℕ :=
  BTNODE_TOC_BASE + layout.tocLen level blockSize records.length
    + (records.map fun r => r.1.length + r.2.length).sum + infoBytes root

def slotWrites (fixed : Bool) (slot keyOff keyLen valueOff valueLen : ℕ) : List (ℕ × Bytes) :=
  if fixed then [u16 slot keyOff, u16 (slot + 2) valueOff]
  else [u16 slot keyOff, u16 (slot + 2) keyLen, u16 (slot + 4) valueOff, u16 (slot + 6) valueLen]

/-- One record: its entry in the table, the key, the value. -/
def putRecord (fixed : Bool) (block : Bytes) (slot keyBase valueEnd keyOff valueOff : ℕ)
    (record : Record) : Bytes :=
  let (key, value) := record
  patch block (slotWrites fixed slot keyOff key.length valueOff value.length
    ++ [(keyBase + keyOff, key), (valueEnd - valueOff, value)])

/-- Both free lists stay empty. -/
def writeFreeSpaceFields (block : Bytes) (keyBase valueEnd keyBytesUsed valueBytesUsed : ℕ) : Bytes :=
  patch block [u16 0x2C keyBytesUsed, u16 0x2E (valueEnd - keyBase - keyBytesUsed - valueBytesUsed),
    u16 0x30 0xFFFF, u16 0x32 0, u16 0x34 0xFFFF, u16 0x36 0]

/-! ### Encoding -/

/-- What a root says of its tree: the keys, the nodes, the longest key and value. -/
structure TreeTotals where
  (keys nodes longestKey longestValue : ℕ)

/-- The longest of some byte strings. -/
def longest (bs : List Bytes) : ℕ := (bs.map List.length).foldl max 0

def TreeTotals.of (records : List Record) : TreeTotals :=
  ⟨records.length, 1, longest (records.map (·.1)), longest (records.map (·.2))⟩

/-- The records of a node, from the `i`-th on, with the bytes of keys and values used so far. -/
def encodeRecords (sizes : Option (ℕ × ℕ)) (keyBase valueEnd : ℕ) :
    ℕ → ℕ → ℕ → List Record → Bytes → Checked Bytes
  | _, _, _, [], block => .ok block
  | i, keyUsed, valueUsed, (key, value) :: records, block => do
    bailIf (sizes.any fun (ks, vs) => key.length ≠ ks || value.length ≠ vs)
      "invalid fixed-size b-tree record"
    let slot := BTNODE_TOC_BASE + i * tocStride sizes.isSome
    let valueUsed := valueUsed + value.length
    encodeRecords sizes keyBase valueEnd (i + 1) (keyUsed + key.length) valueUsed records
      (putRecord sizes.isSome block slot keyBase valueEnd keyUsed valueUsed (key, value))

def nodeFlags (root leaf fixed : Bool) : ℕ :=
  (if root then 1 else 0) + (if leaf then 2 else 0) + (if fixed then 4 else 0)

/-- The trailer of a root. -/
def rootInfo (blockSize flags keySize valSize : ℕ) (totals : TreeTotals) : List (ℕ × Bytes) :=
  let info := blockSize - BTREE_INFO_BYTES
  [u32 info flags, u32 (info + 4) blockSize, u32 (info + 8) keySize, u32 (info + 12) valSize,
    u32 (info + 16) totals.longestKey, u32 (info + 20) totals.longestValue,
    u64 (info + 24) totals.keys, u64 (info + 32) totals.nodes]

/-- A new block with the header of a node. -/
def nodeHeader (blockSize flags level nkeys tocLen : ℕ) : Bytes :=
  patch (zeros blockSize)
    [u16 0x20 flags, u16 0x22 level, u32 0x24 nkeys, u16 0x28 0, u16 0x2A tocLen]

def encodeTreeNode (blockSize : ℕ) (records : List Record) (layout : TreeLayout) (level : ℕ)
    (root : Bool) (totals : TreeTotals) : Checked Bytes := do
  panicUnless (layout.Measures blockSize)
  bailIf (nodeBytes records layout root level blockSize > blockSize)
    "b-tree records exceed node capacity"
  let tocLen := layout.tocLen level blockSize records.length
  let keyBase := BTNODE_TOC_BASE + tocLen
  let valueEnd := blockSize - infoBytes root
  let flags := nodeFlags root (level = 0) layout.fixed.isSome
  let block := nodeHeader blockSize flags level records.length tocLen
  let block ← encodeRecords (layout.sizes level) keyBase valueEnd 0 0 0 records block
  let block := writeFreeSpaceFields block keyBase valueEnd (keyBytes records) (valueBytes records)
  if root then
    let (ks, vs) := layout.fixed.getD (0, 0)
    return patch block (rootInfo blockSize layout.flags ks vs totals)
  else return block

/-! ### Trees of one leaf -/

/-- The records of a leaf with keys and values of fixed sizes. -/
def fixedRecords (keySize valSize keyBase valueEnd : ℕ) : ℕ → List Record → Bytes → Checked Bytes
  | _, [], block => .ok block
  | i, (key, value) :: records, block => do
    bailIf (key.length ≠ keySize ∨ value.length ≠ valSize)
      "record is not this tree's fixed key/value size"
    let keyOffset := i * keySize
    let valueOffset := (i + 1) * valSize
    bailIf (keyBase + keyOffset + keySize > valueEnd - valueOffset)
      "fixed key/value leaf overflowed its node"
    fixedRecords keySize valSize keyBase valueEnd (i + 1) records
      (putRecord true block (BTNODE_TOC_BASE + i * FIXED_TOC_ENTRY_BYTES) keyBase valueEnd
        keyOffset valueOffset (key, value))

def buildFixedKvLeaf (blockSize keySize valSize flags : ℕ) (records : List Record) :
    Checked Bytes := do
  panicUnless (BTNODE_TOC_BASE ≤ blockSize)
  let tocLen := fixedTocLen blockSize keySize valSize
  let keyBase := BTNODE_TOC_BASE + tocLen
  let valueEnd := blockSize - BTREE_INFO_BYTES
  let block := nodeHeader blockSize (nodeFlags true true true) 0 records.length tocLen
  bailIf (records.length > tocLen / FIXED_TOC_ENTRY_BYTES)
    "fixed key/value leaf overflowed its node"
  let block ← fixedRecords keySize valSize keyBase valueEnd 0 records block
  let block := writeFreeSpaceFields block keyBase valueEnd (records.length * keySize)
    (records.length * valSize)
  let (longestKey, longestValue) := if records = [] then (0, 0) else (keySize, valSize)
  return patch block (rootInfo blockSize flags keySize valSize
    ⟨records.length, 1, longestKey, longestValue⟩)

/-! ### Where the records are -/

/-- The entry of the table at `slot` has these offsets and lengths. -/
def SlotAt (fixed : Bool) (b : Bytes) (slot keyOff keyLen valueOff valueLen : ℕ) : Prop :=
  leAt 2 b slot = keyOff ∧
    if fixed then leAt 2 b (slot + 2) = valueOff
    else leAt 2 b (slot + 2) = keyLen ∧ leAt 2 b (slot + 4) = valueOff
      ∧ leAt 2 b (slot + 6) = valueLen

/-- The block holds the records, the first of them the `i`-th of the table. -/
def Encoded (fixed : Bool) (b : Bytes) (keyBase valueEnd : ℕ) : ℕ → ℕ → ℕ → List Record → Prop
  | _, _, _, [] => True
  | i, keyUsed, valueUsed, (key, value) :: records =>
    SlotAt fixed b (BTNODE_TOC_BASE + i * tocStride fixed) keyUsed key.length
        (valueUsed + value.length) value.length
      ∧ b.slice (keyBase + keyUsed) key.length = key
      ∧ b.slice (valueEnd - (valueUsed + value.length)) value.length = value
      ∧ Encoded fixed b keyBase valueEnd (i + 1) (keyUsed + key.length)
        (valueUsed + value.length) records

@[simp] lemma keyBytes_nil : keyBytes [] = 0 := rfl
@[simp] lemma valueBytes_nil : valueBytes [] = 0 := rfl

@[simp] lemma keyBytes_cons (r : Record) (rs : List Record) :
    keyBytes (r :: rs) = r.1.length + keyBytes rs := rfl

@[simp] lemma valueBytes_cons (r : Record) (rs : List Record) :
    valueBytes (r :: rs) = r.2.length + valueBytes rs := rfl

lemma sum_lengths (records : List Record) :
    (records.map fun r => r.1.length + r.2.length).sum = keyBytes records + valueBytes records := by
  induction records with
  | nil => rfl
  | cons r rs ih =>
    rw [map_cons, sum_cons, ih, keyBytes_cons, valueBytes_cons]
    omega

section Encoding

variable {fixed : Bool} {b' : Bytes} {i n slot : ℕ} {sizes : Option (ℕ × ℕ)} {keyOff keyLen valueOff valueLen : ℕ}

lemma le_tocStride (fixed : Bool) : 4 ≤ tocStride fixed := by
  unfold tocStride
  split <;> omega

lemma slotWrites_bounds : ∀ w ∈ slotWrites fixed slot keyOff keyLen valueOff valueLen,
    slot ≤ w.1 ∧ w.1 + w.2.length ≤ slot + tocStride fixed := by
  cases fixed <;> simp [slotWrites, tocStride]

/-- The table, the keys and the values do not meet. -/
structure Room (length i n keyBase valueEnd keyUsed valueUsed : ℕ) (fixed : Bool)
    (records : List Record) : Prop where
  toc : BTNODE_TOC_BASE + n * tocStride fixed ≤ keyBase
  count : i + records.length ≤ n
  areas : keyBase + (keyUsed + keyBytes records) + (valueUsed + valueBytes records) ≤ valueEnd
  inside : valueEnd ≤ length
  offsets : valueEnd ≤ 2 ^ 16

/-- What is not the entry, the key or the value of a record is not changed by it. -/
lemma slice_putRecord_of_disjoint {r : Record} {j m : ℕ}
    (hslot : slot + tocStride fixed ≤ b.length) (hkey : keyBase + keyOff + r.1.length ≤ b.length)
    (hvalue : valueEnd - valueOff + r.2.length ≤ b.length) (h1 : slot + tocStride fixed ≤ j ∨ j + m ≤ slot)
    (h2 : keyBase + keyOff + r.1.length ≤ j ∨ j + m ≤ keyBase + keyOff)
    (h3 : valueEnd - valueOff + r.2.length ≤ j ∨ j + m ≤ valueEnd - valueOff) :
    (putRecord fixed b slot keyBase valueEnd keyOff valueOff r).slice j m = b.slice j m := by
  apply slice_patch_of_disjoint
  · intro w hw
    rcases mem_append.mp hw with hw | hw
    · have := slotWrites_bounds w hw
      omega
    · simp only [mem_cons, not_mem_nil, or_false] at hw
      rcases hw with rfl | rfl <;> assumption
  · intro w hw
    rcases mem_append.mp hw with hw | hw
    · have := slotWrites_bounds w hw
      omega
    · simp only [mem_cons, not_mem_nil, or_false] at hw
      rcases hw with rfl | rfl <;> assumption

/-- What is read at the entry, the key and the value of a record. -/
lemma putRecord_written (fixed : Bool) (b : Bytes) (slot keyBase valueEnd keyOff valueOff : ℕ) (r : Record)
    (hslot : slot + tocStride fixed ≤ keyBase + keyOff)
    (hkey : keyBase + keyOff + r.1.length ≤ valueEnd - valueOff)
    (hvalue : valueEnd - valueOff + r.2.length ≤ b.length) (hlen : r.1.length < 2 ^ 16)
    (hlen' : r.2.length < 2 ^ 16) (hoff : keyOff < 2 ^ 16) (hoff' : valueOff < 2 ^ 16) :
    let b' := putRecord fixed b slot keyBase valueEnd keyOff valueOff r
    b'.length = b.length ∧ SlotAt fixed b' slot keyOff r.1.length valueOff r.2.length
      ∧ b'.slice (keyBase + keyOff) r.1.length = r.1
      ∧ b'.slice (valueEnd - valueOff) r.2.length = r.2 := by
  have hwslot : Within b.length (slotWrites fixed slot keyOff r.1.length valueOff r.2.length) := by
    intro w hw
    have := slotWrites_bounds w hw
    omega
  have hlen1 := length_patch hwslot
  set b1 := patch b (slotWrites fixed slot keyOff r.1.length valueOff r.2.length) with hb1
  have hb' : putRecord fixed b slot keyBase valueEnd keyOff valueOff r =
      (b1.splice (keyBase + keyOff) r.1).splice (valueEnd - valueOff) r.2 := by
    rw [putRecord, patch_append, ← hb1]
    rfl
  have hlen2 : (b1.splice (keyBase + keyOff) r.1).length = b.length := by rw [length_splice (by omega), hlen1]
  -- the table entry lies before the key and the value
  have hbefore (j m : ℕ) (hj : j + m ≤ slot + tocStride fixed) :
      ((b1.splice (keyBase + keyOff) r.1).splice (valueEnd - valueOff) r.2).slice j m = b1.slice j m := by
    rw [slice_splice_left (by omega) (by omega), slice_splice_left (by omega) (by omega)]
  simp only [hb']
  refine ⟨by rw [length_splice (by omega), hlen2], ?_, ?_, slice_splice (by omega)⟩
  · simp only [SlotAt, leAt]
    cases fixed with
    | true =>
      simp only [tocStride, if_true] at hbefore ⊢
      rw [hbefore _ _ (by omega), hbefore _ _ (by omega), hb1, ← leAt, ← leAt]
      constructor <;> refine leAt_patch hwslot ?_ (by omega) <;>
        simp [slotWrites, lastWrite, u16]
    | false =>
      simp only [tocStride, Bool.false_eq_true, if_false] at hbefore ⊢
      rw [hbefore _ _ (by omega), hbefore _ _ (by omega), hbefore _ _ (by omega),
        hbefore _ _ (by omega), hb1, ← leAt, ← leAt, ← leAt, ← leAt]
      refine ⟨?_, ?_, ?_, ?_⟩ <;> refine leAt_patch hwslot ?_ (by omega) <;>
        simp [slotWrites, lastWrite, u16]
  · rw [slice_splice_left (by omega) (by omega), slice_splice (by omega)]

/-- A slot is where it was, if its bytes are. -/
lemma SlotAt.congr (h : SlotAt fixed b slot keyOff keyLen valueOff valueLen)
    (hb : ∀ j m, slot ≤ j → j + m ≤ slot + tocStride fixed → b'.slice j m = b.slice j m) :
    SlotAt fixed b' slot keyOff keyLen valueOff valueLen := by
  simp only [SlotAt, leAt] at h ⊢
  have hstride := le_tocStride fixed
  rw [hb _ 2 (by omega) (by omega)]
  refine ⟨h.1, ?_⟩
  split_ifs at h ⊢ with hfixed
  · rw [hb _ 2 (by omega) (by omega)]
    exact h.2
  · have : tocStride fixed = 8 := if_neg hfixed
    rw [hb _ 2 (by omega) (by omega), hb _ 2 (by omega) (by omega), hb _ 2 (by omega) (by omega)]
    exact h.2

/-- The records written are found again, and nothing else has changed. -/
lemma encodeRecords_spec (h : encodeRecords sizes keyBase valueEnd i keyUsed valueUsed records b = .ok b')
    (hroom : Room b.length i n keyBase valueEnd keyUsed valueUsed sizes.isSome records) :
    b'.length = b.length ∧ Encoded sizes.isSome b' keyBase valueEnd i keyUsed valueUsed records ∧ ∀ j m,
        (j + m ≤ BTNODE_TOC_BASE + i * tocStride sizes.isSome ∨ BTNODE_TOC_BASE + n * tocStride sizes.isSome ≤ j) →
        (j + m ≤ keyBase + keyUsed ∨ keyBase + (keyUsed + keyBytes records) ≤ j) →
        (j + m ≤ valueEnd - (valueUsed + valueBytes records) ∨ valueEnd - valueUsed ≤ j) →
        b'.slice j m = b.slice j m := by
  induction records generalizing i keyUsed valueUsed b with
  | nil =>
    obtain rfl : b = b' := Except.ok.inj h
    exact ⟨rfl, trivial, fun _ _ _ _ _ => rfl⟩
  | cons r records ih =>
    obtain ⟨key, value⟩ := r
    simp only [encodeRecords, returns, checks] at h
    obtain ⟨-, h⟩ := h
    obtain ⟨htoc, hcount, hareas, hinside, hoffsets⟩ := hroom
    simp only [length_cons, keyBytes_cons, valueBytes_cons] at hcount hareas ⊢
    -- the entries up to the `n`-th end before the keys
    have hslots : BTNODE_TOC_BASE + i * tocStride sizes.isSome + tocStride sizes.isSome ≤
        BTNODE_TOC_BASE + n * tocStride sizes.isSome := by
      have := Nat.mul_le_mul_right (tocStride sizes.isSome) (show i + 1 ≤ n by omega)
      rw [Nat.add_one_mul] at this
      omega
    have hbase : 56 ≤ keyBase := by
      have : BTNODE_TOC_BASE = 56 := rfl
      omega
    obtain ⟨hlen, hslot, hkey, hvalue⟩ := putRecord_written sizes.isSome b
      (BTNODE_TOC_BASE + i * tocStride sizes.isSome) keyBase valueEnd keyUsed
      (valueUsed + value.length) (key, value) (by omega) (by simp only; omega)
      (by simp only; omega) (by simp only; omega) (by simp only; omega) (by omega) (by omega)
    set b1 := putRecord sizes.isSome b (BTNODE_TOC_BASE + i * tocStride sizes.isSome) keyBase
      valueEnd keyUsed (valueUsed + value.length) (key, value) with hb1
    obtain ⟨hlen', hrest, hframe⟩ := ih h
      ⟨htoc, by omega, by omega, by rw [hlen]; exact hinside, hoffsets⟩
    rw [Nat.add_one_mul] at hframe
    -- the tail leaves the first record alone
    have hkeep (j m : ℕ)
        (h1 : j + m ≤ BTNODE_TOC_BASE + i * tocStride sizes.isSome + tocStride sizes.isSome
          ∨ keyBase ≤ j)
        (h2 : j + m ≤ keyBase + keyUsed + key.length
          ∨ valueEnd - (valueUsed + value.length) ≤ j) : b'.slice j m = b1.slice j m :=
      hframe j m (by omega) (by omega) (by omega)
    refine ⟨by rw [hlen', hlen], ⟨?_, ?_, ?_, hrest⟩, ?_⟩
    · exact hslot.congr fun j m _ _ => hkeep j m (by omega) (by omega)
    · rw [hkeep _ _ (by omega) (by omega)]
      exact hkey
    · rw [hkeep _ _ (by omega) (by omega)]
      exact hvalue
    · intro j m h1 h2 h3
      rw [hframe j m (by omega) (by omega) (by omega), hb1]
      apply slice_putRecord_of_disjoint <;> (try simp only) <;> omega

section

variable (h : Encoded fixed b keyBase valueEnd i keyUsed valueUsed records)

include h

/-- The records are found wherever the table, the keys and the values are the same. -/
lemma Encoded.congr (htoc : BTNODE_TOC_BASE + n * tocStride fixed ≤ keyBase) (hcount : i + records.length ≤ n)
    (hareas : keyBase + (keyUsed + keyBytes records) + (valueUsed + valueBytes records) ≤ valueEnd)
    (hb : ∀ j m, BTNODE_TOC_BASE ≤ j → j + m ≤ valueEnd → b'.slice j m = b.slice j m) :
    Encoded fixed b' keyBase valueEnd i keyUsed valueUsed records := by
  induction records generalizing i keyUsed valueUsed with
  | nil => trivial
  | cons r records ih =>
    obtain ⟨hslot, hkey, hvalue, hrest⟩ := h
    simp only [length_cons, keyBytes_cons, valueBytes_cons] at hcount hareas
    have hslots : (i + 1) * tocStride fixed ≤ n * tocStride fixed :=
      Nat.mul_le_mul_right _ (by omega)
    rw [Nat.add_one_mul] at hslots
    refine ⟨?_, ?_, ?_, ih hrest (by omega) (by omega)⟩
    · exact hslot.congr fun j m _ _ => hb j m (by omega) (by omega)
    · rw [hb _ _ (by omega) (by omega)]
      exact hkey
    · rw [hb _ _ (by omega) (by omega)]
      exact hvalue

lemma Encoded.get {j : ℕ} {r : Record} (hj : records[j]? = some r) :
    ∃ keyOff valueOff, SlotAt fixed b (BTNODE_TOC_BASE + (i + j) * tocStride fixed) keyOff
        r.1.length (valueOff + r.2.length) r.2.length ∧ b.slice (keyBase + keyOff) r.1.length = r.1
      ∧ b.slice (valueEnd - (valueOff + r.2.length)) r.2.length = r.2
      ∧ keyOff + r.1.length ≤ keyUsed + keyBytes records
      ∧ valueOff + r.2.length ≤ valueUsed + valueBytes records := by
  induction records generalizing i j keyUsed valueUsed with
  | nil => simp at hj
  | cons head records ih =>
    obtain ⟨hslot, hkey, hvalue, hrest⟩ := h
    cases j with
    | zero =>
      obtain rfl : head = r := by simpa using hj
      refine ⟨keyUsed, valueUsed, hslot, hkey, hvalue, ?_, ?_⟩ <;> simp
    | succ j =>
      obtain ⟨ko, vo, h1, h2, h3, h4, h5⟩ := ih hrest (by simpa using hj)
      refine ⟨ko, vo, ?_, h2, h3, ?_, ?_⟩
      · rwa [show i + (j + 1) = i + 1 + j by omega]
      · rw [keyBytes_cons]
        omega
      · rw [valueBytes_cons]
        omega

end

end Encoding

/-! ### Reading nodes -/

/-- The block decodes to a node of this level with these records, each one the front of what the
node's entry reads; where `exact`, it is the whole of it. -/
def IsNode (blockSize : ℕ) (object : Object) (level : ℕ) (records : List Record) (exact : Bool) : Prop :=
  ∃ node : BTreeNode, (∀ headerless, BTreeNode.decodeNode object blockSize headerless = .ok node)
    ∧ node.paddr = object.paddr ∧ node.level = level ∧ node.isLeaf = decide (level = 0)
    ∧ node.nkeys = records.length
    ∧ ∀ i r, records[i]? = some r →
      ∃ e, node.entry i = .ok e ∧ r.1 <+: e.1 ∧ r.2 <+: e.2 ∧ (exact → e = r)

/-- The header of a node, as the writers fill it. -/
structure NodeHeader (b : Bytes) (root fixed : Bool) (level nkeys tocLen : ℕ) : Prop where
  flags : leAt 2 b 0x20 = nodeFlags root (level = 0) fixed
  level : leAt 2 b 0x22 = level
  nkeys : leAt 4 b 0x24 = nkeys
  tocOff : leAt 2 b 0x28 = 0
  tocLen : leAt 2 b 0x2A = tocLen

section

variable (root leaf fixed : Bool)

lemma btnodeRoot_nodeFlags : btnodeRoot (nodeFlags root leaf fixed) = root := by
  revert root leaf fixed
  decide

lemma btnodeLeaf_nodeFlags : btnodeLeaf (nodeFlags root leaf fixed) = leaf := by
  revert root leaf fixed
  decide

lemma btnodeFixedKvSize_nodeFlags : btnodeFixedKvSize (nodeFlags root leaf fixed) = fixed := by
  revert root leaf fixed
  decide

lemma btnodeNoheader_nodeFlags : btnodeNoheader (nodeFlags root leaf fixed) = false := by
  revert root leaf fixed
  decide

end

lemma isNode_of_encoded {fixed : Bool} {object : Object} (root : Bool)
    (tocLen : ℕ) (hlen : object.bytes.length = blockSize) (hsize : blockSize ≤ 2 ^ 16)
    (hheader : NodeHeader object.bytes root fixed level records.length tocLen)
    (htoc : records.length * tocStride fixed ≤ tocLen)
    (hroom : BTNODE_TOC_BASE + tocLen + keyBytes records + valueBytes records + infoBytes root ≤ blockSize)
    (hkeys : ∀ r ∈ records, r.1 ≠ [])
    (henc : Encoded fixed object.bytes (BTNODE_TOC_BASE + tocLen) (blockSize - infoBytes root)
      0 0 0 records) : IsNode blockSize object level records (! fixed) := by
  obtain ⟨hflags, hlevel, hnkeys, htocOff, htocLen⟩ := hheader
  have hbase : BTNODE_TOC_BASE = 56 := rfl
  refine ⟨⟨object.paddr, object.bytes, nodeFlags root (level = 0) fixed, level, records.length,
    BTNODE_TOC_BASE + tocLen, blockSize - infoBytes root, BTNODE_TOC_BASE⟩, ?_, rfl, rfl,
    btnodeLeaf_nodeFlags .., rfl, ?_⟩
  · intro headerless
    simp only [BTreeNode.decodeNode, returns, checks, minus_eq_ok, existsAndEq, hflags, hlevel,
      hnkeys, htocOff, htocLen, btnodeRoot_nodeFlags, btnodeFixedKvSize_nodeFlags, btnodeNoheader_nodeFlags, add_zero,
      Bool.false_eq_true, false_and, not_false_eq_true, and_true, true_and]
    omega
  · intro i r hi
    have hi' : i < records.length := (List.getElem?_eq_some_iff.mp hi).1
    obtain ⟨keyOff, valueOff, hslot, hkey, hvalue, hko, hvo⟩ := henc.get hi
    have hkey0 := length_pos_iff.mpr (hkeys r (mem_of_getElem? hi))
    have hslots : (i + 1) * tocStride fixed ≤ tocLen :=
      (Nat.mul_le_mul_right _ (by omega)).trans htoc
    rw [zero_add] at hslot hko hvo
    cases fixed with
    | true =>
      obtain ⟨hk, hv⟩ := hslot
      simp only [tocStride, if_true] at hk hv hslots
      refine ⟨(object.bytes.slice (BTNODE_TOC_BASE + tocLen + keyOff)
          (blockSize - infoBytes root - (BTNODE_TOC_BASE + tocLen + keyOff)),
        object.bytes.slice (blockSize - infoBytes root - (valueOff + r.2.length))
          (valueOff + r.2.length)), ?_, ?_, ?_, by simp⟩
      · simp only [BTreeNode.entry, BTreeNode.entryAt, btnodeFixedKvSize_nodeFlags, if_true, returns, checks,
          sliceAt_eq_ok, existsAndEq, hk, hv, and_true]
        rw [show blockSize - infoBytes root - (blockSize - infoBytes root - (valueOff + r.2.length)) = valueOff + r.2.length by omega]
        refine ⟨?_, ?_, ?_, ?_, ?_, ?_, ?_, ?_, rfl⟩ <;> omega
      · have := slice_isPrefix object.bytes (BTNODE_TOC_BASE + tocLen + keyOff)
          (show r.1.length ≤ blockSize - infoBytes root - (BTNODE_TOC_BASE + tocLen + keyOff) by
            omega)
        rwa [hkey] at this
      · have := slice_isPrefix object.bytes (blockSize - infoBytes root - (valueOff + r.2.length))
          (show r.2.length ≤ valueOff + r.2.length by omega)
        rwa [hvalue] at this
    | false =>
      obtain ⟨hk, hkl, hv, hvl⟩ := hslot
      simp only [tocStride, Bool.false_eq_true, if_false] at hk hkl hv hvl hslots
      refine ⟨r, ?_, prefix_rfl, prefix_rfl, fun _ => rfl⟩
      simp only [BTreeNode.entry, BTreeNode.entryAt, btnodeFixedKvSize_nodeFlags, Bool.false_eq_true, if_false,
        returns, checks, sliceAt_eq_ok, existsAndEq, hk, hkl, hv, hvl, and_true, Nat.add_sub_cancel_left, hkey, hvalue]
      and_intros <;> omega

lemma length_writeFreeSpaceFields (h : 56 ≤ b.length) (keyBase valueEnd keyUsed valueUsed : ℕ) :
    (writeFreeSpaceFields b keyBase valueEnd keyUsed valueUsed).length = b.length := by
  apply length_patch
  simp only [within_cons, u16_fst, u16_length, within_nil, and_true]
  omega

/-- The fields of the free space lie between the rest of the header and the table. -/
lemma slice_writeFreeSpaceFields {j m : ℕ} (h : 56 ≤ b.length)
    (hj : j + m ≤ 0x2C ∨ 56 ≤ j) (keyBase valueEnd keyUsed valueUsed : ℕ) :
    (writeFreeSpaceFields b keyBase valueEnd keyUsed valueUsed).slice j m = b.slice j m := by
  apply slice_patch_of_disjoint
  · simp only [within_cons, u16_fst, u16_length, within_nil, and_true]
    omega
  · simp only [mem_cons, not_mem_nil, or_false, forall_eq_or_imp, forall_eq, u16_fst, u16_length]
    omega

/-- A block with the header, the records and whatever behind and between them is a node. -/
lemma isNode_of_records {tocLen : ℕ} {sizes : Option (ℕ × ℕ)}
    (henc : encodeRecords sizes (BTNODE_TOC_BASE + tocLen) (blockSize - infoBytes root) 0 0 0
      records (nodeHeader blockSize (nodeFlags root (level = 0) sizes.isSome) level
        records.length tocLen) = .ok b1) (hsize : blockSize ≤ 2 ^ 16) (hlevel : level < 2 ^ 16)
    (hcount : records.length * tocStride sizes.isSome ≤ tocLen)
    (hroom : BTNODE_TOC_BASE + tocLen + keyBytes records + valueBytes records + infoBytes root ≤ blockSize)
    (hkeys : ∀ r ∈ records, r.1 ≠ []) (hlen : b1.length = blockSize → body.length = blockSize)
    (hagree : b1.length = blockSize → ∀ j m, j + m ≤ 0x2C ∨ 56 ≤ j →
      j + m ≤ blockSize - infoBytes root → body.slice j m = b1.slice j m) :
    b1.length = blockSize ∧ body.length = blockSize ∧ ∀ paddr oid xid oType subtype,
      leAt 2 (sealBlock oid xid oType subtype body) 0x20 = nodeFlags root (level = 0) sizes.isSome
        ∧ IsNode blockSize ⟨paddr, sealBlock oid xid oType subtype body⟩ level records (! sizes.isSome) := by
  have hbase : BTNODE_TOC_BASE = 56 := rfl
  have hw : Within blockSize
      [u16 0x20 (nodeFlags root (level = 0) sizes.isSome), u16 0x22 level,
        u32 0x24 records.length, u16 0x28 0, u16 0x2A tocLen] := by
    simp only [within_cons, u16_fst, u32_fst, u16_length, u32_length, within_nil, and_true]
    omega
  set b0 := nodeHeader blockSize (nodeFlags root (level = 0) sizes.isSome) level records.length
    tocLen with hb0
  have hlen0 : b0.length = blockSize := by
    rw [hb0, nodeHeader, length_patch (by rwa [length_zeros]), length_zeros]
  have harea : Room b0.length 0 records.length (BTNODE_TOC_BASE + tocLen)
      (blockSize - infoBytes root) 0 0 sizes.isSome records := by
    rw [hlen0]
    exact ⟨by omega, by omega, by omega, by omega, by omega⟩
  obtain ⟨hlen1, henc, hframe⟩ := encodeRecords_spec henc harea
  replace hlen := hlen (hlen1.trans hlen0)
  replace hagree := hagree (hlen1.trans hlen0)
  refine ⟨hlen1.trans hlen0, hlen, fun paddr oid xid oType subtype => ?_⟩
  have hsealed (j m : ℕ) (h32 : 32 ≤ j) (hj : j + m ≤ 0x2C ∨ 56 ≤ j)
      (hm : j + m ≤ blockSize - infoBytes root) :
      (sealBlock oid xid oType subtype body).slice j m = b1.slice j m := by
    rw [slice_sealBlock (by omega) h32, hagree j m hj hm]
  have hhead (j m : ℕ) (h32 : 32 ≤ j) (hj : j + m ≤ 0x2C) :
      leAt m (sealBlock oid xid oType subtype body) j = leAt m b0 j := by
    rw [leAt, hsealed j m h32 (.inl hj) (by omega),
      hframe j m (.inl (by omega)) (.inl (by omega)) (.inl (by omega)), leAt]
  have hflags : nodeFlags root (level = 0) sizes.isSome < 256 ^ 2 := by
    cases root <;> cases sizes.isSome <;> by_cases hl : level = 0 <;> simp [nodeFlags, hl]
  have hcount16 : records.length ≤ tocLen :=
    (Nat.le_mul_of_pos_right _ (by have := le_tocStride sizes.isSome; omega)).trans hcount
  have hheader : NodeHeader (sealBlock oid xid oType subtype body) root sizes.isSome level
      records.length tocLen := by
    constructor <;> rw [hhead _ _ (by omega) (by omega), hb0] <;>
      refine leAt_patch_zeros hw ?_ (by omega) (by omega)
    all_goals simp [lastWrite, u16, u32]
  refine ⟨hheader.flags, isNode_of_encoded root tocLen ?_ hsize hheader hcount (by omega) hkeys ?_⟩
  · rw [length_sealBlock (by omega), hlen]
  · apply henc.congr harea.toc harea.count harea.areas
    intro j m hj hm
    exact hsealed j m (by omega) (.inr (by omega)) hm

lemma rootInfo_within {ks vs : ℕ} (hlen : b1.length = blockSize) (hsize : 96 ≤ blockSize) :
    Within (writeFreeSpaceFields b1 keyBase valueEnd keyUsed valueUsed).length (rootInfo blockSize flags ks vs totals) := by
  have hinfo' : BTREE_INFO_BYTES = 40 := rfl
  have hlen2 := length_writeFreeSpaceFields (b := b1) (by omega) keyBase valueEnd keyUsed valueUsed
  simp only [rootInfo, within_cons, u32_fst, u64_fst, u32_length, u64_length, within_nil, and_true]
  omega

/-- The trailer of a root lies behind the values. -/
lemma rootInfo_agree {ks vs : ℕ} (hlen : b1.length = blockSize) (hsize : 96 ≤ blockSize) :
    let body := patch (writeFreeSpaceFields b1 keyBase valueEnd keyUsed valueUsed)
      (rootInfo blockSize flags ks vs totals)
    body.length = blockSize ∧ ∀ j m, j + m ≤ 0x2C ∨ 56 ≤ j → j + m ≤ blockSize - infoBytes true →
      body.slice j m = b1.slice j m := by
  have hinfo : infoBytes true = 40 := rfl
  have hinfo' : BTREE_INFO_BYTES = 40 := rfl
  have hlen2 := length_writeFreeSpaceFields (b := b1) (by omega) keyBase valueEnd keyUsed valueUsed
  refine ⟨by rw [length_patch (rootInfo_within hlen hsize)]; omega, fun j m hj hm => ?_⟩
  rw [slice_patch_of_disjoint (rootInfo_within hlen hsize), slice_writeFreeSpaceFields (by omega) hj]
  simp only [rootInfo, mem_cons, not_mem_nil, or_false, forall_eq_or_imp, forall_eq,
    u32_fst, u64_fst, u32_length, u64_length]
  omega

/-- A node of a tree, once sealed, decodes to the records it was written with; a root names the sizes
of its records. -/
lemma encodeTreeNode_spec {layout : TreeLayout}
    (h : encodeTreeNode blockSize records layout level root totals = .ok body)
    (hsize : blockSize ≤ 2 ^ 16) (hlevel : level < 2 ^ 16)
    (hcount : records.length * tocStride layout.fixed.isSome ≤ layout.tocLen level blockSize records.length)
    (hkeys : ∀ r ∈ records, r.1 ≠ []) : body.length = blockSize ∧ (root → ∀ kv ∈ layout.fixed,
        leAt 4 body (blockSize - BTREE_INFO_BYTES + 8) = kv.1 % 256 ^ 4
          ∧ leAt 4 body (blockSize - BTREE_INFO_BYTES + 12) = kv.2 % 256 ^ 4) ∧ ∀ paddr oid xid oType subtype,
      leAt 2 (sealBlock oid xid oType subtype body) 0x20 = nodeFlags root (level = 0) layout.fixed.isSome ∧ IsNode
        blockSize ⟨paddr, sealBlock oid xid oType subtype body⟩ level records (! layout.fixed.isSome) := by
  simp only [encodeTreeNode, returns, checks] at h
  obtain ⟨-, hfits, b1, henc, hbody⟩ := h
  rw [nodeBytes, sum_lengths] at hfits
  have hfixed : (layout.sizes level).isSome = layout.fixed.isSome := by simp [TreeLayout.sizes]
  have hbase : BTNODE_TOC_BASE = 56 := rfl
  have hinfo : infoBytes true = 40 := rfl
  rw [← hfixed] at henc hcount ⊢
  cases root with
  | false =>
    obtain rfl := pure_eq_ok.mp hbody
    obtain ⟨-, hlen, hnode⟩ := isNode_of_records henc hsize hlevel hcount (by omega) hkeys
      (fun hlen1 => by rw [length_writeFreeSpaceFields (by omega), hlen1])
      (fun hlen1 j m hj _ => slice_writeFreeSpaceFields (by omega) hj ..)
    exact ⟨hlen, by simp, hnode⟩
  | true =>
    obtain rfl := pure_eq_ok.mp hbody
    obtain ⟨hlen1, hlen, hnode⟩ := isNode_of_records henc hsize hlevel hcount (by omega) hkeys
      (fun hlen1 => (rootInfo_agree hlen1 (by omega)).1) (fun hlen1 => (rootInfo_agree hlen1 (by omega)).2)
    refine ⟨hlen, fun _ kv hkv => ?_, hnode⟩
    simp only [Option.mem_def.mp hkv, Option.getD_some]
    constructor <;>
      rw [leAt, slice_patch (rootInfo_within hlen1 (by omega)) (by simp [rootInfo, lastWrite, u32, u64]; rfl), leVal_leBytes]

lemma encodeRecords_sizes {i : ℕ} {b' : Bytes}
    (h : encodeRecords (some (keySize, valSize)) keyBase valueEnd i keyUsed valueUsed records b
      = .ok b') : ∀ r ∈ records, r.1.length = keySize ∧ r.2.length = valSize := by
  induction records generalizing i keyUsed valueUsed b with
  | nil => exact nofun
  | cons r records ih =>
    simp only [encodeRecords, returns, checks] at h
    obtain ⟨hsizes, h⟩ := h
    refine forall_mem_cons.mpr ⟨?_, ih h⟩
    simpa using hsizes

/-- The loop of `buildFixedKvLeaf` writes the records as that of `encodeTreeNode` does. -/
lemma encodeRecords_of_fixedRecords {i : ℕ} {b' : Bytes}
    (h : fixedRecords keySize valSize keyBase valueEnd i records b = .ok b') :
    encodeRecords (some (keySize, valSize)) keyBase valueEnd i (i * keySize) (i * valSize) records b = .ok b'
      ∧ (records ≠ [] → 0 < keySize → keyBase + (i * keySize + keyBytes records)
        + (i * valSize + valueBytes records) ≤ valueEnd) := by
  induction records generalizing i b with
  | nil => exact ⟨h, nofun⟩
  | cons r records ih =>
    obtain ⟨key, value⟩ := r
    simp only [fixedRecords, returns, checks] at h
    obtain ⟨hsizes, hover, h⟩ := h
    obtain ⟨rfl, rfl⟩ : key.length = keySize ∧ value.length = valSize := by omega
    obtain ⟨henc, hfits⟩ := ih h
    simp only [Nat.add_one_mul] at henc hfits hover h
    constructor
    · simp only [encodeRecords, returns, checks]
      exact ⟨by simp, henc⟩
    · intro _ hpos
      simp only [keyBytes_cons, valueBytes_cons]
      by_cases hnil : records = []
      · subst hnil
        simp only [keyBytes_nil, valueBytes_nil]
        omega
      · have := hfits hnil hpos
        omega

lemma buildFixedKvLeaf_spec (h : buildFixedKvLeaf blockSize keySize valSize flags records = .ok body)
    (hpos : 0 < keySize) (hsize : blockSize ≤ 2 ^ 16)
    (hempty : BTNODE_TOC_BASE + fixedTocLen blockSize keySize valSize + BTREE_INFO_BYTES ≤ blockSize) :
    body.length = blockSize ∧ ∀ paddr oid xid oType subtype,
      IsNode blockSize ⟨paddr, sealBlock oid xid oType subtype body⟩ 0 records false := by
  simp only [buildFixedKvLeaf, returns, checks] at h
  obtain ⟨-, hcap, b1, hb1, rfl⟩ := h
  obtain ⟨henc, hfits⟩ := encodeRecords_of_fixedRecords hb1
  rw [zero_mul, zero_mul] at henc hfits
  rw [show nodeFlags true true true = nodeFlags true (decide (0 = 0)) (some (keySize, valSize)).isSome
    from rfl, show BTREE_INFO_BYTES = infoBytes true from rfl] at henc
  have hbase : BTNODE_TOC_BASE = 56 := rfl
  have hinfo : BTREE_INFO_BYTES = 40 := rfl
  have hinfo' : infoBytes true = 40 := rfl
  have hslots : records.length * 4 ≤ fixedTocLen blockSize keySize valSize := by
    rw [show FIXED_TOC_ENTRY_BYTES = 4 from rfl] at hcap
    omega
  have hroom : BTNODE_TOC_BASE + fixedTocLen blockSize keySize valSize + keyBytes records
      + valueBytes records + infoBytes true ≤ blockSize := by
    by_cases hnil : records = []
    · subst hnil
      simp only [keyBytes_nil, valueBytes_nil]
      omega
    · have := hfits hnil hpos
      omega
  have hkeys : ∀ r ∈ records, r.1 ≠ [] := by
    intro r hr hkey
    have := (encodeRecords_sizes henc r hr).1
    rw [hkey, length_nil] at this
    omega
  refine (isNode_of_records henc hsize (by omega) hslots hroom hkeys
    (fun hlen => (rootInfo_agree hlen (by omega)).1)
    (fun hlen => (rootInfo_agree hlen (by omega)).2)).2.imp_right fun h paddr oid xid oType subtype => ?_
  exact (h paddr oid xid oType subtype).2

end AppleUtils.Apfs
