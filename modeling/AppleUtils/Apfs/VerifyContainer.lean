import AppleUtils.Apfs.VerifyVolume

/-! # Verification of a container

`verifyContainer` finds the newest superblock of the descriptor area, checks its rings, reads the
objects its checkpoint maps name, and from there the reaper, the space manager, the object map and
every volume.  Last, every block noted in use must be allocated. -/

namespace AppleUtils.Apfs

open Bytes Checks

def MAX_REASONABLE_BLOCKS : ℕ := 2 ^ 40
def CHECKPOINT_MAPPING_BYTES : ℕ := 40
def NX_MIN_CHECKPOINT_RING_BLOCKS : ℕ := 8
def NX_MIN_CHECKPOINT_SEGMENT_BLOCKS : ℕ := 2
def NX_EFI_JUMPSTART_OFFSET : ℕ := 0x4F8
def NX_FUSION_UUID_OFFSET : ℕ := 0x500
def NX_KEYLOCKER_OFFSET : ℕ := 0x510
def NX_EPHEMERAL_INFO_OFFSET : ℕ := 0x520
def NX_FUSION_MT_OID_OFFSET : ℕ := 0x548
def NX_FUSION_WBC_OID_OFFSET : ℕ := 0x550
def NX_FUSION_WBC_OFFSET : ℕ := 0x558
def NX_EPH_INFO_VERSION : ℕ := 1
def NX_EPH_INFO_STRUCTS_PER_FS : ℕ := 4
def NX_EPH_INFO_MIN_BLOCK_COUNTS : List ℕ := [4, 8]

/-! ### The superblock's fields -/

/-- A power of two from 512 to 65536. -/
def blockSizeSupported (blockSize : ℕ) : Bool :=
  [512, 1024, 2048, 4096, 8192, 16384, 32768, 65536].contains blockSize

def validateContainerHeader (object : Object) : Checked Unit :=
  let expected := OBJ_EPHEMERAL + TYPE_NX_SUPERBLOCK
  rejectIf (object.oType ≠ expected)
    (.objectMismatch object.paddr "container superblock object type" expected object.oType)

/-- One ring of the checkpoint area: where its four fields are and what its errors say. -/
structure CheckpointRing where
  (countAt nextAt indexAt lenAt : ℕ)
  (ring segment cursor : String)

def validateRing (bytes : Bytes) (ring : CheckpointRing) : Checked Unit := do
  let count := (← u32At bytes ring.countAt) % 2 ^ 31
  rejectIf (count < NX_MIN_CHECKPOINT_RING_BLOCKS) (.fieldOutOfRange ring.ring count)
  let index ← u32At bytes ring.indexAt
  rejectIf (index ≥ count) (.fieldOutOfRange "checkpoint area index" index)
  let length ← u32At bytes ring.lenAt
  rejectIf (length < NX_MIN_CHECKPOINT_SEGMENT_BLOCKS ∨ length > count)
    (.fieldOutOfRange ring.segment length)
  let next ← u32At bytes ring.nextAt
  rejectIf (next ≥ count) (.fieldOutOfRange ring.cursor next)

def validateCheckpointBounds (bytes : Bytes) : Checked Unit := do
  validateRing bytes ⟨0x68, 0x80, 0x88, 0x8C, "checkpoint descriptor ring size",
    "checkpoint descriptor segment length", "checkpoint descriptor ring cursor"⟩
  validateRing bytes ⟨0x6C, 0x84, 0x90, 0x94, "checkpoint data ring size",
    "checkpoint data segment length", "checkpoint data ring cursor"⟩

def validateMaxFileSystems (maxFileSystems : ℕ) : Checked Unit :=
  rejectIf (maxFileSystems = 0 ∨ maxFileSystems > 100)
    (.fieldOutOfRange "nx_max_file_systems" maxFileSystems)

def validateEphemeralInfo (sb : Bytes) : Checked Unit := do
  let word0 ← u64At sb NX_EPHEMERAL_INFO_OFFSET
  let version := word0 % 16
  rejectIf (version ≠ NX_EPH_INFO_VERSION)
    (.fieldMismatch "nx_ephemeral_info[0] version" NX_EPH_INFO_VERSION version)
  let structsPerFs := word0 / 2 ^ 16 % 2 ^ 16
  rejectIf (structsPerFs ≠ NX_EPH_INFO_STRUCTS_PER_FS)
    (.fieldMismatch "nx_ephemeral_info[0] structures per fs" NX_EPH_INFO_STRUCTS_PER_FS
      structsPerFs)
  let minBlockCount := word0 / 2 ^ 32
  rejectIf (minBlockCount ∉ NX_EPH_INFO_MIN_BLOCK_COUNTS)
    (.fieldOutOfRange "nx_ephemeral_info[0] minimum block count per structure" minBlockCount)
  [1, 2, 3].forM fun index => do
    let word ← u64At sb (NX_EPHEMERAL_INFO_OFFSET + index * 8)
    rejectIf (word ≠ 0)
      (.fieldOutOfRange "nx_ephemeral_info[1..4], reserved and must be zero" word)

def validateFusionAndKeylockerFields (zero sb : Bytes) (blockCount : ℕ) : Checked Unit := do
  let zeroUuid ← (sliceAt zero NX_FUSION_UUID_OFFSET 16 : Checked Bytes)
  let uuid ← (sliceAt sb NX_FUSION_UUID_OFFSET 16 : Checked Bytes)
  rejectIf (zeroUuid ≠ uuid)
    (.fieldMismatch "nx_fusion_uuid" (leAt 8 zero NX_FUSION_UUID_OFFSET)
      (leAt 8 sb NX_FUSION_UUID_OFFSET))
  if uuid = zeros 16 then
    [(NX_FUSION_MT_OID_OFFSET, "nx_fusion_mt_oid"), (NX_FUSION_WBC_OID_OFFSET, "nx_fusion_wbc_oid"),
      (NX_FUSION_WBC_OFFSET, "nx_fusion_wbc paddr"),
      (NX_FUSION_WBC_OFFSET + 8, "nx_fusion_wbc block count")].forM fun (offset, name) => do
        let value ← u64At sb offset
        rejectIf (value ≠ 0) (.fieldOutOfRange name value)
  let jumpstart ← u64At sb NX_EFI_JUMPSTART_OFFSET
  if jumpstart ≠ 0 then
    regionWithin "EFI jumpstart record" jumpstart 1 blockCount
  let keylockerPaddr ← u64At sb NX_KEYLOCKER_OFFSET
  let keylockerCount ← u64At sb (NX_KEYLOCKER_OFFSET + 8)
  if keylockerCount ≠ 0 then
    regionWithin "keybag" keylockerPaddr keylockerCount blockCount
  else
    rejectIf (keylockerPaddr ≠ 0)
      (.fieldOutOfRange "nx_keylocker paddr with no block count" keylockerPaddr)

/-! ### The checkpoint -/

/-- The block size and the block count in block zero, read with a 4096-byte buffer. -/
def probe (source : BlockSource) : Checked (ℕ × ℕ) := do
  let probe ← source.readBlock 0 4096
  let magic ← u32At probe 0x20
  rejectIf (magic ≠ NX_MAGIC) (.badMagic 0 magic)
  let blockSize ← u32At probe 0x24
  rejectIf (¬ blockSizeSupported blockSize) (.unsupportedBlockSize blockSize)
  let blockCount ← u64At probe 0x28
  rejectIf (blockCount = 0 ∨ blockCount > MAX_REASONABLE_BLOCKS)
    (.implausibleBlockCount blockCount)
  return (blockSize, blockCount)

/-- The best checkpoint so far, as transaction and address, after one more block: one that holds a
superblock with a larger transaction. -/
def betterCheckpoint (best : Option (ℕ × ℕ)) (paddr : ℕ) (bytes : Bytes) :
    Checked (Option (ℕ × ℕ)) := do
  if ¬ checksumValid bytes then return best
  let oType ← u32At bytes 0x18
  if objType oType ≠ TYPE_NX_SUPERBLOCK then return best
  let magic ← u32At bytes 0x20
  if magic ≠ NX_MAGIC then return best
  let xid ← u64At bytes 0x10
  return if best.all (·.1 < xid) then some (xid, paddr) else best

/-- An object named by a checkpoint map. -/
structure EphemeralObject where
  (oid paddr oType blocks : ℕ)

/-- The data ring: the first block and the number of blocks. -/
structure DataArea where
  (base blocks : ℕ)

namespace Verifier

variable (v : Verifier)

/-- The newest superblock among the blocks of the descriptor area. -/
def bestCheckpoint (base blocks : ℕ) : Checked (Option (ℕ × ℕ)) :=
  (List.range blocks).foldlM (fun best slot => do
    let paddr ← narrow 64 (base + slot)
    let bytes ← v.source.readBlock paddr v.blockSize
    betterCheckpoint best paddr bytes) none

/-- One mapping of a checkpoint map and the object it names. -/
def readMapping (area : DataArea) (map : Bytes) (ephemeral : List EphemeralObject) (index : ℕ) :
    Scan (List EphemeralObject) := do
  let entry := 0x28 + index * CHECKPOINT_MAPPING_BYTES
  let oType ← u32At map entry
  let subtype ← u32At map (entry + 4)
  let size ← u32At map (entry + 8)
  let oid ← u64At map (entry + 24)
  let mapped ← u64At map (entry + 32)
  rejectIf (objStorage oType ≠ OBJ_EPHEMERAL)
    (.fieldOutOfRange "checkpoint mapping storage class" (objStorage oType))
  rejectIf (objStorage subtype ≠ 0)
    (.fieldOutOfRange "checkpoint mapping subtype storage bits" (objStorage subtype))
  rejectIf (size = 0 ∨ size % v.blockSize ≠ 0) (.fieldOutOfRange "checkpoint mapping size" size)
  let mappedBlocks := size / v.blockSize
  rejectIf (mapped < area.base ∨ mappedBlocks > area.blocks
    ∨ mapped - area.base > area.blocks - mappedBlocks) (.mappingOutsideDataArea oid mapped)
  let target ← v.readCheckedSized mapped mappedBlocks
  rejectIf (target.oid ≠ oid ∨ target.oType ≠ oType ∨ target.subtype ≠ subtype)
    (.objectMismatch mapped "checkpoint mapping" oid target.oid)
  checkStorage target OBJ_EPHEMERAL "ephemeral storage class"
  (List.range mappedBlocks).forM fun offset => do
    Logged.note (.inUse (← narrow 64 (mapped + offset)) "ephemeral object")
  return ephemeral ++ [⟨oid, mapped, oType, mappedBlocks⟩]

/-- One block of the checkpoint's descriptor segment; blocks that are no maps are passed over. -/
def readMapBlock (area : DataArea) (xid : ℕ) (ephemeral : List EphemeralObject) (paddr : ℕ) :
    Scan (List EphemeralObject) := do
  let object ← v.readChecked paddr
  if object.kind ≠ TYPE_CHECKPOINT_MAP then return ephemeral
  checkStorage object OBJ_PHYSICAL "checkpoint map storage class"
  rejectIf (object.oid ≠ paddr)
    (.objectMismatch paddr "checkpoint map object id" paddr object.oid)
  Logged.note (.inUse paddr "checkpoint map")
  rejectIf (object.xid ≠ xid)
    (.objectMismatch paddr "checkpoint map transaction id" xid object.xid)
  let count ← u32At object.bytes 0x24
  let room ← (minus v.blockSize 0x28 : Checked ℕ)
  rejectIf (count > room / CHECKPOINT_MAPPING_BYTES)
    (.nodeMalformed paddr "checkpoint map claims more mappings than it can hold")
  (List.range count).foldlM (v.readMapping area object.bytes) ephemeral

end Verifier

/-- The first object mapped under an identifier. -/
def findEphemeral (ephemeral : List EphemeralObject) (oid : ℕ) : Checked EphemeralObject :=
  okOr (ephemeral.find? (·.oid = oid)) (.verify (.unmappedEphemeralOid oid))

/-- The fields of the superblock that must be those read from block zero.  The two of the data ring
are compared with themselves. -/
def checkDescriptorFields (sb : Bytes) (descriptorBlocks descriptorBase dataBlocks dataBase : ℕ) :
    Checked Unit := do
  let blocks ← u32At sb 0x68
  rejectIf (blocks ≠ descriptorBlocks) (.fieldMismatch "nx_xp_desc_blocks" descriptorBlocks blocks)
  let base ← u64At sb 0x70
  rejectIf (base ≠ descriptorBase) (.fieldMismatch "nx_xp_desc_base" descriptorBase base)
  let blocks ← u32At sb 0x6C
  rejectIf (blocks ≠ dataBlocks) (.fieldMismatch "nx_xp_data_blocks" dataBlocks blocks)
  let base ← u64At sb 0x78
  rejectIf (base ≠ dataBase) (.fieldMismatch "nx_xp_data_base" dataBase base)

/-- The checkpoint chosen: its superblock and the objects its maps name. -/
structure Checkpoint where
  (xid superblockPaddr : ℕ)
  (zero sb : Bytes)
  ephemeral : List EphemeralObject

namespace Verifier

variable (v : Verifier)

def readCheckpoint : Scan Checkpoint := do
  let zero ← v.readChecked 0
  validateContainerHeader zero
  Logged.note (.inUse 0 "container superblock copy")
  let descriptorBase ← u64At zero.bytes 0x70
  let descriptorBlocks ← u32At zero.bytes 0x68
  rejectIf (descriptorBlocks = 0) (.fieldOutOfRange "checkpoint descriptor block count" 0)
  regionWithin "checkpoint descriptor" descriptorBase descriptorBlocks v.blockCount
  let best ← v.bestCheckpoint descriptorBase descriptorBlocks
  let (xid, superblockPaddr) ← okOr best (.verify .noCheckpoint)
  let superblock ← v.readChecked superblockPaddr
  validateContainerHeader superblock
  validateCheckpointBounds superblock.bytes
  Logged.note (.inUse superblockPaddr "container superblock")
  let sb := superblock.bytes
  let blockCount ← u64At sb 0x28
  let blockSize ← u32At sb 0x24
  rejectIf (blockCount ≠ v.blockCount ∨ blockSize ≠ v.blockSize)
    (.objectMismatch superblockPaddr "container geometry" v.blockCount blockCount)
  let dataBase ← u64At sb 0x78
  let dataBlocks ← u32At sb 0x6C
  regionWithin "checkpoint data" dataBase dataBlocks v.blockCount
  let descriptorIndex ← u32At sb 0x88
  let descriptorLen ← u32At sb 0x8C
  rejectIf (descriptorLen = 0 ∨ descriptorLen > descriptorBlocks)
    (.fieldOutOfRange "checkpoint descriptor length" descriptorLen)
  checkDescriptorFields sb descriptorBlocks descriptorBase dataBlocks dataBase
  let superblockSlot ← (minus superblockPaddr descriptorBase : Checked ℕ)
  let first ← (minus (← narrow 64 (superblockSlot + descriptorBlocks)) descriptorLen : Checked ℕ)
  let expectedIndex := (← narrow 64 (first + 1)) % descriptorBlocks
  rejectIf (expectedIndex ≠ descriptorIndex)
    (.fieldMismatch "nx_xp_desc_index" expectedIndex descriptorIndex)
  validateEphemeralInfo sb
  let ephemeral ← (List.range descriptorLen).foldlM (fun ephemeral slot => do
    let paddr ← narrow 64 (descriptorBase + (descriptorIndex + slot) % descriptorBlocks)
    v.readMapBlock ⟨dataBase, dataBlocks⟩ xid ephemeral paddr) []
  return ⟨xid, superblockPaddr, zero.bytes, sb, ephemeral⟩

/-! ### The objects of the checkpoint -/

def verifyReaper (sb : Bytes) (ephemeral : List EphemeralObject) : Scan Unit := do
  let reaperPaddr := (← findEphemeral ephemeral (← u64At sb 0xA8)).paddr
  let reaper ← v.readExpecting reaperPaddr none TYPE_NX_REAPER "reaper"
  let head ← u64At reaper.bytes 0x30
  let tail ← u64At reaper.bytes 0x38
  let count ← u32At reaper.bytes 0x44
  let holdsAList := decide (count ≠ 0)
  rejectIf (decide (head ≠ 0) ≠ holdsAList ∨ decide (tail ≠ 0) ≠ holdsAList)
    (.reapListBroken
      "the reaper's list count and its head and tail disagree about whether a list exists")
  if holdsAList then
    rejectIf (tail ≠ head)
      (.reapListBroken "the reaper's head and tail name different lists")
    let listPaddr := (← findEphemeral ephemeral head).paddr
    let list ← v.readExpecting listPaddr (some head) TYPE_NX_REAP_LIST "reap list"
    verifyReapList list.bytes v.blockSize

/-- The space manager and the free queues it names. -/
def verifySpace (sb : Bytes) (ephemeral : List EphemeralObject) (xid : ℕ) : Scan Allocation := do
  let spaceman ← findEphemeral ephemeral (← u64At sb 0x98)
  let sm ← v.readExpectingSized spaceman.paddr spaceman.blocks none TYPE_SPACEMAN "space manager"
  let allocation ← v.verifySpaceman sm.bytes xid
  allocation.freeQueueTreeOids.forM fun oid => do
    let queuePaddr := (← findEphemeral ephemeral oid).paddr
    let tree ← v.readExpecting queuePaddr (some oid) TYPE_BTREE "free queue tree"
    checkStorage tree OBJ_EPHEMERAL "free queue storage class"
  return allocation

/-- One slot of the superblock's list of volumes; empty slots are passed over. -/
def verifyVolumeSlot (sb : Bytes) (entries : List OmapEntry) (xid : ℕ)
    (volumes : List VerifiedVolume) (index : ℕ) : Scan (List VerifiedVolume) := do
  let oid ← u64At sb (0xB8 + index * 8)
  if oid = 0 then return volumes
  let paddr ← resolve entries oid xid
  let volume ← v.verifyVolume xid oid paddr
  return volumes ++ [volume]

def verifyVolumes (sb : Bytes) (xid : ℕ) : Scan (List VerifiedVolume) := do
  let containerOmapPaddr ← u64At sb 0xA0
  let omapTree ← v.readOmap containerOmapPaddr "container object map"
  let entries ← v.collectOmap omapTree "container object map tree"
  let maxFileSystems ← u32At sb 0xB4
  validateMaxFileSystems maxFileSystems
  (List.range maxFileSystems).foldlM (v.verifyVolumeSlot sb entries xid) []

end Verifier

structure VerifiedContainer where
  (blockSize blockCount : ℕ)
  uuid : Bytes
  (xid superblockPaddr maxFileSystems freeBlockCount : ℕ)
  ephemeral : List EphemeralObject
  volumes : List VerifiedVolume
  objectsChecked : ℕ
  blocksInUse : List ℕ

/-- The blocks noted in use. -/
def inUse : List Note → List (ℕ × String)
  | [] => []
  | .inUse paddr what :: log => (paddr, what) :: inUse log
  | .checked :: log => inUse log

/-- `sort_unstable` and `dedup`. -/
def sortedBlocks (paddrs : List ℕ) : List ℕ := (paddrs.insertionSort (· ≤ ·)).dedup

/-- Everything the verifier reads, before the blocks in use are compared with the bitmaps. -/
def Verifier.walkContainer (v : Verifier) :
    Scan (Checkpoint × Allocation × List VerifiedVolume) := do
  let checkpoint ← v.readCheckpoint
  v.verifyReaper checkpoint.sb checkpoint.ephemeral
  let allocation ← v.verifySpace checkpoint.sb checkpoint.ephemeral checkpoint.xid
  let volumes ← v.verifyVolumes checkpoint.sb checkpoint.xid
  validateFusionAndKeylockerFields checkpoint.zero checkpoint.sb v.blockCount
  return (checkpoint, allocation, volumes)

def verifyContainer (source : BlockSource) : Checked VerifiedContainer := do
  let (blockSize, blockCount) ← probe source
  let v : Verifier := ⟨source, blockSize, blockCount⟩
  let ((checkpoint, allocation, volumes), log) ← v.walkContainer.listen.result
  let blocks := inUse log
  blocks.forM fun (paddr, what) => do
    rejectIf (¬ (← allocation.isAllocated paddr)) (.blockNotAllocated paddr what)
  let uuid ← (sliceAt checkpoint.sb 0x48 16 : Checked Bytes)
  let maxFileSystems ← u32At checkpoint.sb 0xB4
  return {
    blockSize, blockCount, uuid, xid := checkpoint.xid
    superblockPaddr := checkpoint.superblockPaddr, maxFileSystems
    freeBlockCount := allocation.freeBlockCount, ephemeral := checkpoint.ephemeral, volumes
    objectsChecked := log.count .checked, blocksInUse := sortedBlocks (blocks.map (·.1)) }

end AppleUtils.Apfs
