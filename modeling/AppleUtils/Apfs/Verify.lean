import AppleUtils.Apfs.Catalog

/-! # The container verifier

`verifyContainer` walks a container from the superblock in block zero: the newest checkpoint, its
ephemeral objects, the space manager with its chunks, the object maps and every volume's catalog.
It notes each block it finds in use and at the end demands that the space manager marks them all.

The source of blocks is a parameter; the verifier's counters are its log (`Note`). -/

namespace AppleUtils.Apfs

open Bytes Checks

/-! ### Reading blocks -/

/-- `BlockSource`: reading the block at an index into a buffer of the given length. -/
structure BlockSource where
  readBlock : ℕ → ℕ → Checked Bytes

/-- `SliceBlocks` over a byte string. -/
def sliceBlocks (bytes : Bytes) (blockSize : ℕ) : BlockSource where
  readBlock index len := do
    rejectIf (index * blockSize ≥ 2 ^ 64) (.blockOutOfRange index)
    let last ← narrow 64 (index * blockSize + blockSize)
    rejectIf (last > bytes.length) (.blockOutOfRange index)
    panicUnless (len = blockSize)
    return bytes.slice (index * blockSize) blockSize

inductive Note where
  /-- `objects_checked += 1`. -/
  | checked
  /-- `in_use.push((paddr, what))`. -/
  | inUse (paddr : ℕ) (what : String)
deriving DecidableEq

abbrev Scan := Logged Note Stop

structure Verifier where
  source : BlockSource
  (blockSize blockCount : ℕ)

namespace Verifier

variable (v : Verifier)

/-- `read_run`, block after block. -/
def readRun (index blocks : ℕ) : Checked Bytes :=
  (List.range blocks).foldlM (fun into offset => do
    rejectIf (index + offset ≥ 2 ^ 64) (.blockOutOfRange index)
    return into ++ (← v.source.readBlock (index + offset) v.blockSize)) []

def readChecked (paddr : ℕ) : Scan Object := do
  rejectIf (paddr ≥ v.blockCount) (.blockOutOfRange paddr)
  let bytes ← v.source.readBlock paddr v.blockSize
  rejectIf (¬ checksumValid bytes) (.badChecksum paddr)
  Logged.note .checked
  return ⟨paddr, bytes⟩

def readCheckedSized (paddr blocks : ℕ) : Scan Object := do
  rejectIf (blocks = 0) (.fieldOutOfRange "object size in blocks" 0)
  rejectIf (paddr + blocks ≥ 2 ^ 64) (.blockOutOfRange paddr)
  rejectIf (paddr + blocks > v.blockCount) (.blockOutOfRange paddr)
  let bytes ← v.readRun paddr blocks
  rejectIf (¬ checksumValid bytes) (.badChecksum paddr)
  Logged.note .checked
  return ⟨paddr, bytes⟩

def readRaw (paddr : ℕ) : Scan Bytes := do
  rejectIf (paddr ≥ v.blockCount) (.blockOutOfRange paddr)
  v.source.readBlock paddr v.blockSize

def readHeaderlessNode (paddr : ℕ) : Scan Object := do
  let bytes ← v.readRaw paddr
  rejectIf (bytes.length < BTNODE_TOC_BASE)
    (.nodeMalformed paddr "the block is shorter than a b-tree node header")
  let header ← (sliceAt bytes 0 0x20 : Checked Bytes)
  rejectIf (header.any (· ≠ 0))
    (.nodeMalformed paddr "a headerless node was expected but the object header is not blank")
  rejectIf (¬ btnodeNoheader (← u16At bytes 0x20))
    (.nodeMalformed paddr "the node does not declare itself headerless")
  Logged.note (.inUse paddr "sealed filesystem tree node")
  return ⟨paddr, bytes⟩

end Verifier

def checkHeader (object : Object) (oid : Option ℕ) (kind : ℕ) : Checked Unit := do
  rejectIf (object.kind ≠ kind) (.objectMismatch object.paddr "object type" kind object.kind)
  match oid with
  | some oid =>
    rejectIf (object.oid ≠ oid) (.objectMismatch object.paddr "object id" oid object.oid)
  | none => pure ()

/-- `storage() != expected`. -/
def checkStorage (object : Object) (expected : ℕ) (field : String) : Checked Unit :=
  rejectIf (object.storage ≠ expected)
    (.objectMismatch object.paddr field expected object.storage)

namespace Verifier

variable (v : Verifier)

def readExpecting (paddr : ℕ) (oid : Option ℕ) (kind : ℕ) (what : String) : Scan Object := do
  let object ← v.readChecked paddr
  checkHeader object oid kind
  Logged.note (.inUse paddr what)
  return object

def readExpectingSized (paddr blocks : ℕ) (oid : Option ℕ) (kind : ℕ) (what : String) :
    Scan Object := do
  let object ← v.readCheckedSized paddr blocks
  checkHeader object oid kind
  (List.range blocks).forM fun offset => do
    Logged.note (.inUse (← narrow 64 (paddr + offset)) what)
  return object

end Verifier

/-! ### Object maps -/

structure OmapEntry where
  (oid xid paddr : ℕ)

/-- A node waiting to be read: its address, whether it is the root, and the level it must have. -/
structure PendingNode where
  paddr : ℕ
  isRoot : Bool
  expectedLevel : Option ℕ

/-- What a walk of an object map has found, has to visit and has seen. -/
structure OmapWalk where
  entries : List OmapEntry
  pending : List PendingNode
  seen : List ℕ

namespace Verifier

variable (v : Verifier)

def readOmap (paddr : ℕ) (what : String) : Scan ℕ := do
  let omap ← v.readExpecting paddr (some paddr) TYPE_OMAP what
  checkStorage omap OBJ_PHYSICAL "object map storage class"
  let treeType ← u32At omap.bytes 0x28
  rejectIf (objType treeType ≠ TYPE_BTREE)
    (.objectMismatch paddr "object map tree type" TYPE_BTREE (objType treeType))
  u64At omap.bytes 0x30

end Verifier

/-- `(oid, xid) <= earlier`. -/
def pairLe (a b : ℕ × ℕ) : Bool := a.1 < b.1 || a.1 = b.1 && a.2 ≤ b.2

lemma pairLe_eq_false {a b : ℕ × ℕ} : pairLe a b = false ↔ b.1 < a.1 ∨ b.1 = a.1 ∧ b.2 < a.2 := by
  simp only [pairLe, Bool.or_eq_false_iff, Bool.and_eq_false_iff, decide_eq_false_iff_not]
  omega

/-- One record of an object map node: the key that came before, the walk so far. -/
def omapRecord (node : BTreeNode) (state : Option (ℕ × ℕ) × OmapWalk) (index : ℕ) :
    Checked (Option (ℕ × ℕ) × OmapWalk) := do
  let (previous, walk) := state
  let (key, value) ← node.entry index
  rejectIf (key.length < 16)
    (.nodeMalformed node.paddr "object map key is shorter than 16 bytes")
  let oid ← u64At key 0
  let xid ← u64At key 8
  rejectIf (previous.any (pairLe (oid, xid))) (.recordsOutOfOrder node.paddr index)
  if node.isLeaf then
    rejectIf (value.length < 16)
      (.nodeMalformed node.paddr "object map value is shorter than 16 bytes")
    let paddr ← u64At value 8
    return (some (oid, xid), { walk with entries := walk.entries ++ [⟨oid, xid, paddr⟩] })
  else
    rejectIf (value.length < 8)
      (.nodeMalformed node.paddr "object map index value is shorter than 8 bytes")
    rejectIf (node.level = 0)
      (.nodeMalformed node.paddr "an index node claims to be at the leaf level")
    let child ← u64At value 0
    return (some (oid, xid),
      { walk with pending := ⟨child, false, some (node.level - 1)⟩ :: walk.pending })

/-- The records of an object map node: entries of a leaf, children of an index node. -/
def omapRecords (node : BTreeNode) (walk : OmapWalk) : Checked OmapWalk := do
  let (_, walk) ← (List.range node.nkeys).foldlM (omapRecord node) (none, walk)
  return walk

namespace Verifier

variable (v : Verifier)

/-- One turn of `collect_omap`: the node on top of the stack. -/
def omapTurn (what : String) (walk : OmapWalk) : Scan (OmapWalk ⊕ List OmapEntry) := do
  match walk.pending with
  | [] => return .inr walk.entries
  | next :: pending =>
    rejectIf (next.paddr ∈ walk.seen)
      (.nodeMalformed next.paddr "object map tree node was reached more than once")
    let kind := if next.isRoot then TYPE_BTREE else TYPE_BTREE_NODE
    let object ← v.readExpecting next.paddr none kind what
    rejectIf (objType object.subtype ≠ TYPE_OMAP)
      (.objectMismatch next.paddr "object map tree subtype" TYPE_OMAP (objType object.subtype))
    let node ← BTreeNode.decode object v.blockSize
    rejectIf (next.expectedLevel.any (· ≠ node.level))
      (.nodeMalformed next.paddr "object map tree node is not one level below its parent")
    let walk ← omapRecords node { walk with pending, seen := next.paddr :: walk.seen }
    rejectIf (node.level = 0 ∧ ¬ node.isLeaf)
      (.nodeMalformed next.paddr "level zero node is not marked a leaf")
    return .inl walk

/-- `collect_omap`.  No block is visited twice, so one turn for each block and one to end are
enough. -/
def collectOmap (rootPaddr : ℕ) (what : String) : Scan (List OmapEntry) :=
  Logged.loop (v.omapTurn what) .unfinished (v.blockCount + 2)
    ⟨[], [⟨rootPaddr, true, none⟩], []⟩

end Verifier

/-- The later of two entries of one object; of two with one transaction the later in the list. -/
def newerEntry (best : Option OmapEntry) (entry : OmapEntry) : Option OmapEntry :=
  match best with
  | some b => if entry.xid < b.xid then some b else some entry
  | none => some entry

/-- The newest entry no later than `xid`. -/
def resolve (entries : List OmapEntry) (oid xid : ℕ) : Checked ℕ :=
  match (entries.filter fun entry => entry.oid = oid ∧ entry.xid ≤ xid).foldl newerEntry none with
  | some entry => .ok entry.paddr
  | none => .error (.verify (.unmappedVirtualOid oid))

end AppleUtils.Apfs
