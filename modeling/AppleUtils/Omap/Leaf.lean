import AppleUtils.Apfs.Checkpoint
import AppleUtils.Lib.Checks

/-! # The object map of the repair writer

`repair_writer` keeps the mappings of an object map in one leaf with keys and values of a fixed
size.  `find_entry` looks a key up from the first entry on, `overwrite_value` replaces the value of
an entry, and `insert_leaf` adds one: the key goes above the highest key, the value below the lowest
value, and the entries of the table of contents that come after it move up by one.  `upsert` and
`lookup` are these operations for the keys (object id, transaction id). -/

namespace AppleUtils.Omap

open Bytes Checks
open Apfs.Repair (Disc)
open Apfs (DiscError fletcher64Seal)

inductive BtreeError where
  | disc (error : DiscError) | headerless | notLeaf | notFixedKv | sizeMismatch | duplicateKey
  | indexOutOfRange | malformed (reason : String) | nodeSplitRequired
  /-- An index outside the block. -/
  | panic
deriving DecidableEq

instance : Panics BtreeError := ⟨.panic⟩

/-! ### Bytes of a block -/

/-- `u16_at`, `u32_at` and `u64_at`. -/
def number (n : ℕ) (block : Bytes) (i : ℕ) : Except BtreeError ℕ := do
  failIf (block.length < i + n) .panic
  return leAt n block i

def puts (block : Bytes) (writes : List (ℕ × Bytes)) : Except BtreeError Bytes :=
  writes.foldlM putAt block

/-! ### The node -/

def XID_OFFSET : ℕ := 0x10
def FLAGS_OFFSET : ℕ := 32
def NKEYS_OFFSET : ℕ := 32 + 0x04
def TOC_OFF_OFFSET : ℕ := 32 + 0x08
def TOC_LEN_OFFSET : ℕ := 32 + 0x0A
def FREE_SPACE_OFFSET : ℕ := 32 + 0x0C
def KEY_FREE_LIST_OFFSET : ℕ := 32 + 0x10
def VAL_FREE_LIST_OFFSET : ℕ := 32 + 0x14
def BT_KEY_COUNT_OFFSET : ℕ := 0x18
def TOC_BASE : ℕ := 56
def BTREE_INFO_BYTES : ℕ := 40
def TOC_ENTRY_BYTES : ℕ := 4

def isRoot (flags : ℕ) : Bool := flags.testBit 0

structure Header where
  (nkeys toc tocLen keyBase valueEnd freeOff freeLen keyFreeLen valueFreeLen : ℕ)
  infoAt : Option ℕ
deriving DecidableEq

def decodeHeader (block : Bytes) : Except BtreeError Header := do
  let flags ← number 2 block FLAGS_OFFSET
  failIf (flags.testBit 4) .headerless
  failIf (¬ flags.testBit 1) .notLeaf
  failIf (¬ flags.testBit 2) .notFixedKv
  let nkeys ← number 4 block NKEYS_OFFSET
  let tocOff ← number 2 block TOC_OFF_OFFSET
  let tocLen ← number 2 block TOC_LEN_OFFSET
  let toc := TOC_BASE + tocOff
  let keyBase := toc + tocLen
  let info := if isRoot flags then BTREE_INFO_BYTES else 0
  failIf (block.length < info) .panic
  let valueEnd := block.length - info
  failIf (valueEnd < keyBase ∨ block.length < valueEnd)
    (.malformed "table of contents leaves no room for keys and values")
  failIf (tocLen < nkeys * TOC_ENTRY_BYTES) (.malformed "more keys than the table of contents holds")
  let freeOff ← number 2 block FREE_SPACE_OFFSET
  let freeLen ← number 2 block (FREE_SPACE_OFFSET + 2)
  let keyFreeLen ← number 2 block (KEY_FREE_LIST_OFFSET + 2)
  let valueFreeLen ← number 2 block (VAL_FREE_LIST_OFFSET + 2)
  return {
    nkeys, toc, tocLen, keyBase, valueEnd, freeOff, freeLen, keyFreeLen, valueFreeLen
    infoAt := if isRoot flags then some (block.length - BTREE_INFO_BYTES) else none }

def tocEntry (block : Bytes) (header : Header) (index : ℕ) : Except BtreeError (ℕ × ℕ) := do
  let at' := header.toc + index * TOC_ENTRY_BYTES
  let keyOff ← number 2 block at'
  let valueOff ← number 2 block (at' + 2)
  return (keyOff, valueOff)

/-- Where the key and the value of an entry start. -/
def entryRanges (block : Bytes) (header : Header) (index keySize valueSize : ℕ) :
    Except BtreeError (ℕ × ℕ) := do
  let (keyOff, valueOff) ← tocEntry block header index
  let keyAt := header.keyBase + keyOff
  failIf (header.valueEnd < keyAt + keySize) (.malformed "key runs past the value area")
  failIf (header.valueEnd < valueOff ∨ header.valueEnd - valueOff < header.keyBase)
    (.malformed "value offset leaves the node")
  let valueAt := header.valueEnd - valueOff
  failIf (header.valueEnd < valueAt + valueSize) (.malformed "value runs past the end of the node")
  return (keyAt, valueAt)

abbrev Compare := Bytes → Bytes → Ordering

/-- The index of an entry with the key, or where one would go. -/
inductive Place where
  | found (index : ℕ) | vacant (index : ℕ)
deriving DecidableEq

/-- The loop of `find_entry`, with the number of entries left. -/
def findFrom (block : Bytes) (header : Header) (key : Bytes) (valueSize : ℕ) (compare : Compare) :
    ℕ → ℕ → Except BtreeError Place
  | 0, index => .ok (.vacant index)
  | left + 1, index => do
    let (keyAt, _) ← entryRanges block header index key.length valueSize
    let stored ← sliceAt block keyAt key.length
    match compare stored key with
    | .eq => return .found index
    | .gt => return .vacant index
    | .lt => findFrom block header key valueSize compare left (index + 1)

/-! ### The disc -/

variable {n : ℕ}

def readBlock (disc : Disc n) (paddr : ℕ) : Except BtreeError Bytes := do
  failIf (disc.blockCount ≤ paddr) (.disc (.outOfRange paddr))
  return disc.block paddr

def writeBlock (disc : Disc n) (paddr : ℕ) (data : Bytes) : Except BtreeError (Disc n) :=
  if h : data.length = n then do
    failIf (disc.blockCount ≤ paddr) (.disc (.outOfRange paddr))
    return disc.after [(paddr, ⟨data, h⟩)]
  else .error (.disc (.blockLength n data.length))

/-- `read_modify_write`: the result, and the disc afterwards. -/
def readModifyWrite (disc : Disc n) (paddr : ℕ) (mutate : Bytes → Except BtreeError Bytes) :
    Except BtreeError Unit × Disc n :=
  match readBlock disc paddr >>= mutate with
  | .error e => (.error e, disc)
  | .ok block =>
    match writeBlock disc paddr (fletcher64Seal block) with
    | .error e => (.error e, disc)
    | .ok disc => (.ok (), disc)

def findEntry (disc : Disc n) (nodePaddr : ℕ) (key : Bytes) (valueSize : ℕ) (compare : Compare) :
    Except BtreeError Place := do
  let block ← readBlock disc nodePaddr
  let header ← decodeHeader block
  findFrom block header key valueSize compare header.nkeys 0

def valueAt (disc : Disc n) (nodePaddr index keySize valueSize : ℕ) : Except BtreeError Bytes := do
  let block ← readBlock disc nodePaddr
  let header ← decodeHeader block
  failIf (header.nkeys ≤ index) .indexOutOfRange
  let (_, start) ← entryRanges block header index keySize valueSize
  sliceAt block start valueSize

/-- What `overwrite_value` does to the block. -/
def overwrite (index keySize : ℕ) (value : Bytes) (nodeXid : BitVec 64) (block : Bytes) :
    Except BtreeError Bytes := do
  let header ← decodeHeader block
  failIf (header.nkeys ≤ index) .indexOutOfRange
  let (_, start) ← entryRanges block header index keySize value.length
  puts block [(start, value), (XID_OFFSET, leBytes 8 nodeXid.toNat)]

def overwriteValue (disc : Disc n) (nodePaddr index keySize : ℕ) (value : Bytes)
    (nodeXid : BitVec 64) : Except BtreeError Unit × Disc n :=
  readModifyWrite disc nodePaddr (overwrite index keySize value nodeXid)

/-! ### A new entry -/

/-- What the first loop of `insert_leaf` finds out. -/
structure Extent where
  /-- The number of entries as long as no greater key was met. -/
  (insertAt keyHigh valueHigh : ℕ)

def measure (block : Bytes) (header : Header) (key : Bytes) (valueSize : ℕ) (compare : Compare)
    (e : Extent) (index : ℕ) : Except BtreeError Extent := do
  let (keyOff, valueOff) ← tocEntry block header index
  let keyHigh := max e.keyHigh (keyOff + key.length)
  let valueHigh := max e.valueHigh valueOff
  if e.insertAt = header.nkeys then
    let (keyAt, _) ← entryRanges block header index key.length valueSize
    let stored ← sliceAt block keyAt key.length
    match compare stored key with
    | .eq => .error .duplicateKey
    | .gt => return ⟨index, keyHigh, valueHigh⟩
    | .lt => return ⟨e.insertAt, keyHigh, valueHigh⟩
  else
    return ⟨e.insertAt, keyHigh, valueHigh⟩

/-- The entry of the table of contents at `index`, one further up. -/
def shiftEntry (header : Header) (block : Bytes) (index : ℕ) : Except BtreeError Bytes := do
  let (keyOff, valueOff) ← tocEntry block header index
  let at' := header.toc + (index + 1) * TOC_ENTRY_BYTES
  puts block [(at', leBytes 2 keyOff), (at' + 2, leBytes 2 valueOff)]

/-- `for index in (insert_at..insert_at + left).rev()`. -/
def shiftFrom (header : Header) (insertAt : ℕ) : ℕ → Bytes → Except BtreeError Bytes
  | 0, block => .ok block
  | left + 1, block => do
    let block ← shiftEntry header block (insertAt + left)
    shiftFrom header insertAt left block

/-- The key count in the tree info of a root. -/
def countKey (header : Header) (block : Bytes) : Except BtreeError Bytes :=
  match header.infoAt with
  | none => .ok block
  | some infoAt => do
    let at' := infoAt + BT_KEY_COUNT_OFFSET
    failIf (block.length < at' + 8) (.malformed "btree info key count is missing")
    let count ← number 8 block at'
    puts block [(at', leBytes 8 (min (count + 1) (2 ^ 64 - 1)))]

/-- What `insert_leaf` does to the block. -/
def insert (key value : Bytes) (nodeXid : BitVec 64) (compare : Compare) (block : Bytes) :
    Except BtreeError Bytes := do
  let header ← decodeHeader block
  let e ← (List.range header.nkeys).foldlM (measure block header key value.length compare)
    ⟨header.nkeys, 0, 0⟩
  let dataArea := header.valueEnd - header.keyBase
  failIf (dataArea < e.keyHigh + e.valueHigh ∨ dataArea < header.freeOff
      ∨ dataArea < header.freeOff + header.freeLen ∨ header.freeOff < e.keyHigh
      ∨ dataArea < header.freeLen + header.keyFreeLen + header.valueFreeLen)
    (.malformed "the node's recorded free space contradicts its table of contents")
  failIf (header.tocLen < (header.nkeys + 1) * TOC_ENTRY_BYTES) .nodeSplitRequired
  let newKeyOff := e.keyHigh
  let newValueOff := e.valueHigh + value.length
  let newKeyAt := header.keyBase + newKeyOff
  failIf (header.valueEnd < newValueOff ∨ header.valueEnd - newValueOff < header.keyBase)
    .nodeSplitRequired
  let newValueAt := header.valueEnd - newValueOff
  failIf (newValueAt < newKeyAt + key.length) .nodeSplitRequired
  let block ← puts block [(newKeyAt, key), (newValueAt, value)]
  let block ← shiftFrom header e.insertAt (header.nkeys - e.insertAt) block
  let at' := header.toc + e.insertAt * TOC_ENTRY_BYTES
  let usedKeys := newKeyOff + key.length
  let usedValues := newValueOff
  let block ← puts block
    [(at', leBytes 2 newKeyOff), (at' + 2, leBytes 2 newValueOff),
      (NKEYS_OFFSET, leBytes 4 (header.nkeys + 1)), (XID_OFFSET, leBytes 8 nodeXid.toNat),
      (FREE_SPACE_OFFSET, leBytes 2 usedKeys),
      (FREE_SPACE_OFFSET + 2, leBytes 2 (dataArea - usedKeys - usedValues))]
  countKey header block

def insertLeaf (disc : Disc n) (nodePaddr : ℕ) (key value : Bytes) (nodeXid : BitVec 64)
    (compare : Compare) : Except BtreeError Unit × Disc n :=
  readModifyWrite disc nodePaddr (insert key value nodeXid compare)

/-! ### The object map -/

def KEY_BYTES : ℕ := 16
def VALUE_BYTES : ℕ := 16

def keyBytes (oid xid : BitVec 64) : Bytes := leBytes 8 oid.toNat ++ leBytes 8 xid.toNat

def valueBytes (paddr : BitVec 64) (blockSize : ℕ) : Bytes :=
  leBytes 4 0 ++ leBytes 4 blockSize ++ leBytes 8 paddr.toNat

def compareKeys (a b : Bytes) : Ordering :=
  (compare (leAt 8 a 0) (leAt 8 b 0)).then (compare (leAt 8 a 8) (leAt 8 b 8))

/-- The arguments of an `upsert`. -/
structure Mapping where
  (oid xid paddr nodeXid : BitVec 64)

def upsert (disc : Disc n) (treeRootPaddr : ℕ) (m : Mapping) : Except BtreeError Unit × Disc n :=
  let key := keyBytes m.oid m.xid
  let value := valueBytes m.paddr n
  match findEntry disc treeRootPaddr key VALUE_BYTES compareKeys with
  | .error e => (.error e, disc)
  | .ok (.found index) => overwriteValue disc treeRootPaddr index KEY_BYTES value m.nodeXid
  | .ok (.vacant _) => insertLeaf disc treeRootPaddr key value m.nodeXid compareKeys

def lookup (disc : Disc n) (treeRootPaddr : ℕ) (oid xid : BitVec 64) :
    Except BtreeError (Option (BitVec 64)) := do
  match ← findEntry disc treeRootPaddr (keyBytes oid xid) VALUE_BYTES compareKeys with
  | .vacant _ => return none
  | .found index =>
    let value ← valueAt disc treeRootPaddr index KEY_BYTES VALUE_BYTES
    return some (BitVec.ofNat 64 (leAt 8 value 8))

end AppleUtils.Omap
