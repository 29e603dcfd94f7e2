import AppleUtils.Apfs.Node
import AppleUtils.Lib.Disk

/-! # Appending a checkpoint

`repair_writer` publishes a changed set of ephemeral objects as a new checkpoint: the objects go to
the free part of the data ring, checkpoint maps and a new superblock to the free part of the
descriptor ring, all stamped with the new transaction.  `appendWith` is that writer; its log is the
list of its block writes. -/

namespace AppleUtils.Apfs.Repair

open Bytes Checks

/-! ### The disc -/

/-- A block of `n` bytes. -/
abbrev Block (n : ℕ) := {b : Bytes // b.length = n}

/-- `RepairSession`: a container with blocks of `n` bytes. -/
structure Disc (n : ℕ) where
  blockCount : ℕ
  block : Disk (Block n)

abbrev Write (n : ℕ) := ℕ × Block n

abbrev Writes (n : ℕ) := Logged (Write n) Stop

/-- An object of a type with a body, in a block of its own. -/
def objectBlock (n oid xid oType subtype : ℕ) (body : Bytes) : Bytes :=
  sealBlock oid xid oType subtype (splice (zeros n) 32 body)

namespace Disc

variable {n : ℕ} (disc : Disc n)

def readBlock (paddr : ℕ) : Checked Bytes := do
  stopIf (paddr ≥ disc.blockCount) (.checkpoint (.disc (.outOfRange paddr)))
  return disc.block paddr

/-- `write_block`; its callers wrap its errors. -/
def writeBlock (paddr : ℕ) (data : Bytes) (stop : DiscError → Stop) : Writes n Unit :=
  if h : data.length = n then do
    stopIf (paddr ≥ disc.blockCount) (stop (.outOfRange paddr))
    Logged.note (paddr, ⟨data, h⟩)
  else Logged.throw (stop (.blockLength n data.length))

/-- `write_object`. -/
def writeObject (paddr oid xid oType subtype : ℕ) (body : Bytes) : Writes n Unit := do
  stopIf (32 + body.length > n) (.checkpoint (.write (.bodyTooLarge n body.length)))
  disc.writeBlock paddr (objectBlock n oid xid oType subtype body)
    fun e => .checkpoint (.write (.disc e))

/-- The disc after some writes. -/
def after (ws : List (Write n)) : Disc n := { disc with block := disc.block.apply ws }

end Disc

/-! ### The published checkpoint -/

def CPM_ENTRIES_OFFSET : ℕ := 0x28
def CPM_ENTRY_BYTES : ℕ := 40
def CPM_FLAGS_VALUE : ℕ := 1

/-- The entries a checkpoint map block holds. -/
def mapCapacity (blockSize : ℕ) : ℕ := (blockSize - CPM_ENTRIES_OFFSET) / CPM_ENTRY_BYTES

/-- `CheckpointError::Malformed`. -/
def malformedIf (c : Prop) [Decidable c] (reason : String) : Checked Unit :=
  stopIf c (.checkpoint (.malformed reason))

structure Geometry where
  (blockSize descriptorBase descriptorBlocks dataBase dataBlocks descriptorIndex descriptorLen : ℕ)
  (dataIndex dataLen : ℕ)
deriving DecidableEq

namespace Geometry

/-- The fields of a superblock. -/
def fields (superblock : Bytes) : Geometry where
  blockSize := leAt 4 superblock 0x24
  descriptorBase := leAt 8 superblock 0x70
  descriptorBlocks := leAt 4 superblock 0x68
  dataBase := leAt 8 superblock 0x78
  dataBlocks := leAt 4 superblock 0x6C
  descriptorIndex := leAt 4 superblock 0x88
  descriptorLen := leAt 4 superblock 0x8C
  dataIndex := leAt 4 superblock 0x90
  dataLen := leAt 4 superblock 0x94

variable (g : Geometry)

/-- The address of a slot of the descriptor window, before it is checked. -/
def descriptorSlot (index offset : ℕ) : ℕ :=
  g.descriptorBase + (index + offset) % g.descriptorBlocks

def dataSlot (index offset : ℕ) : ℕ := g.dataBase + (index + offset) % g.dataBlocks

end Geometry

/-- `read_geometry`. -/
def readGeometry (superblock : Bytes) : Checked Geometry := do
  panicUnless (0x98 ≤ superblock.length)
  let geometry := Geometry.fields superblock
  malformedIf (geometry.descriptorBlocks = 0) "checkpoint descriptor ring has zero blocks"
  malformedIf (geometry.dataBlocks = 0) "checkpoint data ring has zero blocks"
  malformedIf (geometry.descriptorLen = 0 ∨ geometry.descriptorLen > geometry.descriptorBlocks)
    "the published checkpoint's descriptor window does not fit the ring"
  malformedIf (geometry.dataLen > geometry.dataBlocks)
    "the published checkpoint's data window does not fit the ring"
  return geometry

/-- The sizes in one block of the descriptor window; a block that is no checkpoint map has none. -/
def mappingSizesIn (blockSize : ℕ) (block : Bytes) (sizes : List (ℕ × ℕ)) :
    Checked (List (ℕ × ℕ)) := do
  let oType ← u32At block 0x18
  if objType oType ≠ TYPE_CHECKPOINT_MAP then return sizes
  else
    let count ← u32At block 0x24
    panicUnless (CPM_ENTRIES_OFFSET ≤ blockSize)
    malformedIf (count > mapCapacity blockSize)
      "a published checkpoint mapping claims more entries than it can hold"
    (List.range count).foldlM (fun sizes index => do
      let entry := CPM_ENTRIES_OFFSET + index * CPM_ENTRY_BYTES
      let oid ← u64At block (entry + 24)
      let size ← u32At block (entry + 8)
      return sizes ++ [(oid, size)]) sizes

/-- `published_mapping_sizes`. -/
def publishedMappingSizes {n : ℕ} (disc : Disc n) (geometry : Geometry) : Checked (List (ℕ × ℕ)) :=
  (List.range geometry.descriptorLen).foldlM (fun sizes slot => do
    let paddr ← narrow 64 (geometry.descriptorSlot geometry.descriptorIndex slot)
    let block ← disc.readBlock paddr
    mappingSizesIn n block sizes) []

/-! ### The new checkpoint -/

structure EphemeralObject where
  (oid oType subtype paddr : ℕ)
deriving DecidableEq

structure AppendedCheckpoint where
  superblockPaddr : ℕ
  ephemeralObjects : List EphemeralObject
deriving DecidableEq

structure CheckpointPublish where
  omapOid : Option ℕ := none
  nextOid : Option ℕ := none
  ephemeralBodies : List (ℕ × Bytes) := []

/-- The body supplied for an object. -/
def CheckpointPublish.bodyOf (publish : CheckpointPublish) (oid : ℕ) : Option Bytes :=
  (publish.ephemeralBodies.find? fun body => body.1 = oid).map Prod.snd

def checkDataArea (geometry : Geometry) (entry : EphemeralObject) : Checked Unit := do
  let reason := "an ephemeral object's address falls outside the checkpoint data area"
  malformedIf (entry.paddr < geometry.dataBase) reason
  let last ← narrow 64 (geometry.dataBase + geometry.dataBlocks)
  malformedIf (entry.paddr ≥ last) reason

/-- The bound on object identifiers, raised for an object that was not published. -/
def raiseNextOid (published : List (ℕ × ℕ)) (nextOid : ℕ) (entry : EphemeralObject) :
    Checked ℕ := do
  if published.any (fun p => p.1 = entry.oid) then return nextOid
  else
    malformedIf (entry.oid + 1 ≥ 2 ^ 64)
      "new ephemeral object ID overflows the container object ID space"
    return max nextOid (entry.oid + 1)

def mappingSize (blockSize : ℕ) (published : List (ℕ × ℕ)) (publish : CheckpointPublish)
    (entry : EphemeralObject) : Checked ℕ := do
  let known := (published.find? fun p => p.1 = entry.oid).map Prod.snd
  let supplied := ((publish.bodyOf entry.oid).map List.length).filter (· < 2 ^ 32)
  let size ← okOr (known.or supplied) (.checkpoint (.notInPublishedCheckpoint entry.oid))
  stopIf (size ≠ blockSize) (.checkpoint (.multiBlockEphemeralObject entry.oid size))
  return size

/-- The bytes of an object: those supplied, or those in its block. -/
def ephemeralBytes {n : ℕ} (disc : Disc n) (publish : CheckpointPublish) (entry : EphemeralObject) :
    Checked Bytes :=
  match publish.bodyOf entry.oid with
  | some body => do
    malformedIf (body.length ≠ n)
      "a replacement ephemeral body does not match the container block size"
    return body
  | none => disc.readBlock entry.paddr

/-- An object with the new transaction, sealed. -/
def restamp (newXid : ℕ) (block : Bytes) : Bytes := fletcher64Seal (putLe 8 block 0x10 newXid)

def ephemeralBody {n : ℕ} (disc : Disc n) (newXid : ℕ) (publish : CheckpointPublish)
    (entry : EphemeralObject) : Checked Bytes := do
  let block ← ephemeralBytes disc publish entry
  let oid ← u64At block 0x08
  let oType ← u32At block 0x18
  let subtype ← u32At block 0x1C
  malformedIf (oid ≠ entry.oid ∨ oType ≠ entry.oType ∨ subtype ≠ entry.subtype)
    "an ephemeral object's own header disagrees with the identity given for it"
  return restamp newXid block

/-- The fields of one entry of a checkpoint map, at its offset in the body. -/
def mappingEntry (index : ℕ) (entry : EphemeralObject) (size : ℕ) : List (ℕ × Bytes) :=
  let offset := CPM_ENTRIES_OFFSET - 32 + index * CPM_ENTRY_BYTES
  [u32 offset entry.oType, u32 (offset + 4) entry.subtype, u32 (offset + 8) size, u32 (offset + 12) 0,
    u64 (offset + 16) 0, u64 (offset + 24) entry.oid, u64 (offset + 32) entry.paddr]

/-- The body of a checkpoint map. -/
def mapBody (blockSize : ℕ) (objects : List (EphemeralObject × ℕ)) : Bytes :=
  patch (zeros (blockSize - 32))
    ([u32 (0x20 - 32) CPM_FLAGS_VALUE, u32 (0x24 - 32) objects.length]
      ++ objects.zipIdx.flatMap fun ((entry, size), index) => mappingEntry index entry size)

/-- `write_checkpoint_map`. -/
def writeCheckpointMap {n : ℕ} (disc : Disc n) (paddr xid : ℕ)
    (objects : List (EphemeralObject × ℕ)) : Writes n Unit :=
  disc.writeObject paddr paddr xid (TYPE_CHECKPOINT_MAP + OBJ_PHYSICAL) 0 (mapBody n objects)

/-- `div_ceil`, and one block for an empty list. -/
def mapBlockCount (blockSize objects : ℕ) : ℕ :=
  if objects = 0 then 1 else (objects + mapCapacity blockSize - 1) / mapCapacity blockSize

/-- What `append_with` has read and worked out before its first write. -/
structure AppendPlan where
  oldSuperblock : Bytes
  geometry : Geometry
  nextOid : ℕ
  sizes : List ℕ
  bodies : List Bytes

/-- `append_with` up to the rings. -/
def planAppend {n : ℕ} (disc : Disc n) (oldSuperblockPaddr newXid : ℕ) (objects : List EphemeralObject)
    (publish : CheckpointPublish) : Checked AppendPlan := do
  let oldSb ← disc.readBlock oldSuperblockPaddr
  let magic ← u32At oldSb 0x20
  malformedIf (magic ≠ NX_MAGIC) "no NXSB magic at the given superblock address"
  let oldOType ← u32At oldSb 0x18
  malformedIf (objType oldOType ≠ TYPE_NX_SUPERBLOCK)
    "object at the given address is not a container superblock"
  let geometry ← readGeometry oldSb
  malformedIf (geometry.blockSize ≠ n)
    "the superblock's own block size disagrees with the disc's"
  objects.forM (checkDataArea geometry)
  let published ← publishedMappingSizes disc geometry
  let oldNextOid ← u64At oldSb 0x58
  let nextOid := publish.nextOid.getD oldNextOid
  malformedIf (nextOid < oldNextOid)
    "published next object ID precedes the existing container object ID bound"
  let nextOid ← objects.foldlM (raiseNextOid published) nextOid
  let sizes ← objects.mapM (mappingSize n published publish)
  let bodies ← objects.mapM (ephemeralBody disc newXid publish)
  return ⟨oldSb, geometry, nextOid, sizes, bodies⟩

/-- Where the new checkpoint goes. -/
structure NewWindows where
  (descriptorIndex descriptorLen dataIndex dataLen : ℕ)

/-- The windows behind the published ones; both rings must have room for the two checkpoints. -/
def newWindows (blockSize : ℕ) (g : Geometry) (objects : ℕ) : Checked NewWindows := do
  let descriptorLen := mapBlockCount blockSize objects + 1
  stopIf (descriptorLen + g.descriptorLen > g.descriptorBlocks) (.checkpoint .ringFull)
  stopIf (objects + g.dataLen > g.dataBlocks) (.checkpoint .ringFull)
  return ⟨(g.descriptorIndex + g.descriptorLen) % g.descriptorBlocks, descriptorLen,
    (g.dataIndex + g.dataLen) % g.dataBlocks, objects⟩

/-- The fields of the new superblock. -/
def superblockFields (g : Geometry) (w : NewWindows) (newXid nextOid : ℕ) (omapOid : Option ℕ) : List (ℕ × Bytes) :=
  [u32 0x88 w.descriptorIndex, u32 0x8C w.descriptorLen, u32 0x90 w.dataIndex, u32 0x94 w.dataLen,
    u32 0x80 ((w.descriptorIndex + w.descriptorLen) % g.descriptorBlocks),
    u32 0x84 ((w.dataIndex + w.dataLen) % g.dataBlocks),
    u64 0x60 (min (newXid + 1) (2 ^ 64 - 1)), u64 0x58 nextOid]
    ++ (omapOid.map (u64 0xA0)).toList

/-- One object at its new address. -/
def writeBody {n : ℕ} (disc : Disc n) (g : Geometry) (w : NewWindows)
    (relocated : List EphemeralObject) :
    (EphemeralObject × Bytes) × ℕ → Writes n (List EphemeralObject)
  | ((entry, body), offset) => do
    let paddr ← narrow 64 (g.dataSlot w.dataIndex offset)
    disc.writeBlock paddr body fun e => .checkpoint (.disc e)
    return relocated ++ [{ entry with paddr }]

/-- The data blocks of the new checkpoint. -/
def writeBodies {n : ℕ} (disc : Disc n) (g : Geometry) (w : NewWindows)
    (objects : List EphemeralObject) (bodies : List Bytes) : Writes n (List EphemeralObject) :=
  (objects.zip bodies).zipIdx.foldlM (writeBody disc g w) []

/-- The `index`-th of the parts of `size` elements. -/
def chunk {α : Type} (size index : ℕ) (l : List α) : List α := (l.drop (index * size)).take size

/-- One checkpoint map. -/
def writeMap {n : ℕ} (disc : Disc n) (g : Geometry) (w : NewWindows) (newXid : ℕ)
    (mapped : List (EphemeralObject × ℕ)) (index : ℕ) : Writes n Unit := do
  let paddr ← narrow 64 (g.descriptorSlot w.descriptorIndex index)
  writeCheckpointMap disc paddr newXid (chunk (mapCapacity n) index mapped)

/-- The checkpoint maps. -/
def writeMaps {n : ℕ} (disc : Disc n) (g : Geometry) (w : NewWindows) (newXid : ℕ)
    (mapped : List (EphemeralObject × ℕ)) : Writes n Unit :=
  (List.range (mapBlockCount n mapped.length)).forM (writeMap disc g w newXid mapped)

/-- `append_with`.  It reads nothing after its first write. -/
def appendWith {n : ℕ} (disc : Disc n) (oldSuperblockPaddr newXid : ℕ)
    (objects : List EphemeralObject) (publish : CheckpointPublish) : Writes n AppendedCheckpoint := do
  let plan ← planAppend disc oldSuperblockPaddr newXid objects publish
  let g := plan.geometry
  let w ← newWindows n g objects.length
  let relocated ← writeBodies disc g w objects plan.bodies
  writeMaps disc g w newXid (relocated.zip plan.sizes)
  let newSuperblockPaddr ←
    narrow 64 (g.descriptorSlot w.descriptorIndex (mapBlockCount n objects.length))
  panicUnless (publish.omapOid.isSome → 0xA8 ≤ plan.oldSuperblock.length)
  let sb := patch plan.oldSuperblock
    (superblockFields g w newXid plan.nextOid publish.omapOid)
  disc.writeObject newSuperblockPaddr (leAt 8 plan.oldSuperblock 0x08) newXid
    (leAt 4 plan.oldSuperblock 0x18) (leAt 4 plan.oldSuperblock 0x1C) (sb.drop 32)
  return ⟨newSuperblockPaddr, relocated⟩

end AppleUtils.Apfs.Repair
