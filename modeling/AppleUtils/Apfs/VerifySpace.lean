import AppleUtils.Apfs.Verify

/-! # Verification of the space manager

The space manager describes every block of the container by one bit.  `verifySpaceman` walks its
chunk-info blocks, counts the free bits of every chunk against the recorded counts, and returns the
bitmaps (`Allocation`).  `verifyIpRing` checks the ring of the internal pool's bitmaps: the live
slots and the chain of free ones. -/

namespace AppleUtils.Apfs

open Bytes Checks

def CHUNK_INFO_BYTES : ℕ := 32
def SPACEMAN_STRUCT_SIZE : ℕ := 2520

def regionWithin (what : String) (first count blockCount : ℕ) : Checked Unit := do
  rejectIf (first + count ≥ 2 ^ 64) (.regionOutOfBounds what first count)
  rejectIf (first + count > blockCount) (.regionOutOfBounds what first count)

/-- `(v + 7) & !7` on 32 bits. -/
def align8 (n : ℕ) : Checked ℕ := do
  let n ← narrow 32 (n + 7)
  return n / 8 * 8

def bitSet (bitmap : Bytes) (bit : ℕ) : Bool := (bitmap.byteAt (bit / 8)).getLsbD (bit % 8)

/-- `bitmap[bit >> 3] >> (bit & 7) & 1`. -/
def bitAt (bitmap : Bytes) (bit : ℕ) : Checked Bool := do
  panicUnless (bit / 8 < bitmap.length)
  return bitSet bitmap bit

/-! ### The ring of internal pool bitmaps -/

/-- One live bitmap: its slot must exist, be new and not be newer than the checkpoint. -/
def ringLive (sm : Bytes) (bitmapOffset xidOffset ringBlocks xid : ℕ) (live : List ℕ) (slot : ℕ) :
    Checked (List ℕ) := do
  let index ← u16At sm (bitmapOffset + slot * 2)
  rejectIf (index ≥ ringBlocks)
    (.ringBroken "a live bitmap names a ring slot that does not exist")
  rejectIf (index ∈ live) (.ringBroken "two live bitmaps name the same ring slot")
  rejectIf ((← u64At sm (xidOffset + slot * 8)) > xid)
    (.ringBroken "a live bitmap is newer than the checkpoint being mounted")
  return live ++ [index]

/-- The slots of the free chain from `cursor` on.  No slot is visited twice, so one turn for each
slot of the ring and one to end are enough. -/
def ringChain (sm : Bytes) (nextOffset ringBlocks tail : ℕ) (live : List ℕ) :
    ℕ → List ℕ → ℕ → Checked (List ℕ)
  | 0, _, _ => .error .unfinished
  | turns + 1, visited, cursor => do
    if cursor = BTOFF_INVALID then return visited
    rejectIf (cursor ≥ ringBlocks) (.ringBroken "the free chain leaves the ring")
    rejectIf (cursor ∈ visited) (.ringBroken "the free chain is cyclic")
    rejectIf (cursor ∈ live) (.ringBroken "a live bitmap slot is on the free chain")
    let next ← u16At sm (nextOffset + cursor * 2)
    rejectIf (next = BTOFF_INVALID ∧ cursor ≠ tail)
      (.ringBroken "the free chain ends somewhere other than the tail")
    ringChain sm nextOffset ringBlocks tail live turns (visited ++ [cursor]) next

def verifyIpRing (sm : Bytes) (sizeInBlocks ringBlocks xid : ℕ) : Checked ℕ := do
  rejectIf (sizeInBlocks = 0 ∨ ringBlocks = 0 ∨ sizeInBlocks > ringBlocks)
    (.ringBroken "the ring is smaller than the bitmap it must hold")
  let xidOffset ← u32At sm 0x144
  let bitmapOffset ← u32At sm 0x148
  let nextOffset ← u32At sm 0x14C
  rejectIf (xidOffset < SPACEMAN_STRUCT_SIZE)
    (.ringBroken "the transaction id array overlaps the fixed structure")
  let xidEnd ← narrow 32 (xidOffset + (← narrow 32 (sizeInBlocks * 8)))
  let expectedBitmapOffset ← align8 xidEnd
  rejectIf (bitmapOffset ≠ expectedBitmapOffset)
    (.fieldMismatch "sm_ip_bitmap_offset" expectedBitmapOffset bitmapOffset)
  let bitmapEnd ← narrow 32 (bitmapOffset + (← narrow 32 (sizeInBlocks * 2)))
  let expectedNextOffset ← align8 bitmapEnd
  rejectIf (nextOffset ≠ expectedNextOffset)
    (.fieldMismatch "sm_ip_bm_free_next_offset" expectedNextOffset nextOffset)
  rejectIf (nextOffset + ringBlocks * 2 > sm.length)
    (.ringBroken "the free chain array leaves the space manager object")
  let live ← (List.range sizeInBlocks).foldlM
    (ringLive sm bitmapOffset xidOffset ringBlocks xid) []
  let head ← u16At sm 0x140
  let tail ← u16At sm 0x142
  let visited ← ringChain sm nextOffset ringBlocks tail live (ringBlocks + 1) [] head
  rejectIf (visited.length ≠ (← (minus ringBlocks sizeInBlocks : Checked ℕ)))
    (.ringBroken "the free chain does not cover every slot that is not live")
  live.forM fun index => do
    rejectIf ((← u16At sm (nextOffset + index * 2)) ≠ BTOFF_INVALID)
      (.ringBroken "a live bitmap slot carries a chain pointer")
  return nextOffset

/-! ### The reap list -/

/-- The length of the free chain from `cursor` on, after `visited` entries. -/
def reapChain (bytes : Bytes) (max : ℕ) : ℕ → ℕ → ℕ → Checked ℕ
  | 0, _, _ => .error .unfinished
  | turns + 1, visited, cursor => do
    if cursor = 2 ^ 32 - 1 then return visited
    rejectIf (cursor ≥ max ∨ visited > max)
      (.reapListBroken "the free chain leaves the entry array")
    reapChain bytes max turns (visited + 1) (← u32At bytes (0x40 + cursor * 40))

def verifyReapList (bytes : Bytes) (blockSize : ℕ) : Checked Unit := do
  let max ← u32At bytes 0x2C
  let count ← u32At bytes 0x30
  rejectIf (max = 0 ∨ 0x40 + max * 40 > blockSize)
    (.reapListBroken "the entry array does not fit in its block")
  rejectIf (count > max) (.reapListBroken "more entries are in use than the list holds")
  let visited ← reapChain bytes max (max + 3) 0 (← u32At bytes 0x3C)
  rejectIf (visited + count ≠ max)
    (.reapListBroken "the free chain and the used count do not add up to the list size")

/-! ### Chunks -/

structure Allocation where
  blocksPerChunk : ℕ
  bitmaps : List (Option Bytes)
  freeBlockCount : ℕ
  freeQueueTreeOids : List ℕ

def Allocation.isAllocated (a : Allocation) (paddr : ℕ) : Checked Bool :=
  match a.bitmaps[paddr / a.blocksPerChunk]? with
  | some (some bitmap) => bitAt bitmap (paddr % a.blocksPerChunk)
  | _ => .ok false

/-- The fields that describe the chunks and the ring of the internal pool. -/
structure SpacemanFields where
  (blocksPerChunk chunksPerCib chunkCount cibCount cabCount cibsPerCab recordedFree cibAddrOffset : ℕ)
  (ipBmSizeInBlocks ipBmBlockCount : ℕ)

/-- The trees of the three free queues. -/
def freeQueueTreeOids (sm : Bytes) : Checked (List ℕ) :=
  [0, 1, 2].mapM fun queue => u64At sm (0xC8 + queue * 40 + 8)

/-- What the walk over the chunks has gathered. -/
structure ChunkWalk where
  bitmaps : List (Option Bytes)
  (countedFree covered : ℕ)

/-- The clear bits among the first `blocks`. -/
def freeBits (bitmap : Bytes) (blocks : ℕ) : Checked ℕ :=
  (List.range blocks).foldlM (fun free bit => do
    if ← bitAt bitmap bit then return free else narrow 32 (free + 1)) 0

/-- The number of addresses a chunk-info address block must hold: all but the last are full. -/
def cabEntries (cabCount cibCount cibsPerCab cabIndex : ℕ) : Checked ℕ :=
  if cabIndex + 1 = cabCount then minus cibCount (cabIndex * cibsPerCab) else .ok cibsPerCab

/-- `count` addresses, from `start` on. -/
def addrsAt (bytes : Bytes) (start count : ℕ) : Checked (List ℕ) :=
  (List.range count).mapM fun index => u64At bytes (start + index * 8)

/-- The free blocks of a chunk. -/
def chunkFree (bitmap : Option Bytes) (blocks : ℕ) : Checked ℕ :=
  match bitmap with
  | none => .ok blocks
  | some bitmap => freeBits bitmap blocks

namespace Verifier

variable (v : Verifier)

/-- The bitmap of a chunk; none where the chunk is free. -/
def readBitmap (bitmapAddr : ℕ) : Scan (Option Bytes) := do
  if bitmapAddr = 0 then return none
  let bitmap ← v.readRaw bitmapAddr
  Logged.note (.inUse bitmapAddr "allocation bitmap")
  return some bitmap

/-- One chunk-info record. -/
def verifyChunk (blocksPerChunk : ℕ) (cib : Bytes) (walk : ChunkWalk) (slot : ℕ) :
    Scan ChunkWalk := do
  let entry := 0x28 + slot * CHUNK_INFO_BYTES
  let chunkAddr ← u64At cib (entry + 8)
  let chunkBlocks ← u32At cib (entry + 16)
  let recorded ← u32At cib (entry + 20)
  let bitmapAddr ← u64At cib (entry + 24)
  rejectIf (chunkAddr ≠ walk.covered) (.chunkCoverage chunkAddr walk.covered)
  rejectIf (chunkBlocks > blocksPerChunk) (.fieldOutOfRange "chunk block count" chunkBlocks)
  let bitmap ← v.readBitmap bitmapAddr
  let free ← chunkFree bitmap chunkBlocks
  rejectIf (free ≠ recorded) (.chunkFreeCountMismatch chunkAddr recorded free)
  let countedFree ← narrow 64 (walk.countedFree + free)
  let covered ← narrow 64 (walk.covered + chunkBlocks)
  return ⟨walk.bitmaps ++ [bitmap], countedFree, covered⟩

/-- One chunk-info block. -/
def verifyCib (blocksPerChunk chunksPerCib : ℕ) (walk : ChunkWalk) (cib : ℕ × ℕ) :
    Scan ChunkWalk := do
  let (paddr, index) := cib
  let cib ← v.readExpecting paddr (some paddr) TYPE_SPACEMAN_CIB "chunk info block"
  checkStorage cib OBJ_PHYSICAL "chunk info block storage class"
  let recordedIndex ← u32At cib.bytes 0x20
  rejectIf (recordedIndex ≠ index)
    (.objectMismatch paddr "chunk info block index" index recordedIndex)
  let chunks ← u32At cib.bytes 0x24
  rejectIf (chunks > chunksPerCib)
    (.nodeMalformed paddr "chunk info block holds more chunks than its own limit")
  (List.range chunks).foldlM (v.verifyChunk blocksPerChunk cib.bytes) walk

/-- The addresses in one chunk-info address block. -/
def readCab (sm : Bytes) (cibAddrOffset cabCount cibCount cibsPerCab : ℕ) (addrs : List ℕ)
    (cabIndex : ℕ) : Scan (List ℕ) := do
  let cabPaddr ← u64At sm (cibAddrOffset + cabIndex * 8)
  let cab ← v.readExpecting cabPaddr (some cabPaddr) TYPE_SPACEMAN_CAB "chunk-info address block"
  checkStorage cab OBJ_PHYSICAL "chunk-info address block storage class"
  let recordedIndex ← u32At cab.bytes 0x20
  rejectIf (recordedIndex ≠ cabIndex)
    (.objectMismatch cabPaddr "chunk-info address block index" cabIndex recordedIndex)
  let entries ← u32At cab.bytes 0x24
  let expectedEntries ← cabEntries cabCount cibCount cibsPerCab cabIndex
  rejectIf (entries ≠ expectedEntries)
    (.fieldMismatch "chunk-info address block entry count" expectedEntries entries)
  rejectIf (0x28 + entries * 8 > v.blockSize)
    (.nodeMalformed cabPaddr "chunk-info address block holds more entries than it can")
  return addrs ++ (← addrsAt cab.bytes 0x28 entries)

/-- The addresses of the chunk-info blocks, in the space manager or in the blocks it names. -/
def cibAddrs (sm : Bytes) (cibAddrOffset cabCount cibCount cibsPerCab : ℕ) : Scan (List ℕ) := do
  if cabCount = 0 then
    addrsAt sm cibAddrOffset cibCount
  else
    rejectIf (cibsPerCab = 0) (.fieldOutOfRange "chunk-info blocks per address block" 0)
    let expectedCabCount := (cibCount + cibsPerCab - 1) / cibsPerCab
    rejectIf (cabCount ≠ expectedCabCount)
      (.fieldMismatch "space manager chunk-info address block count" expectedCabCount cabCount)
    (List.range cabCount).foldlM (v.readCab sm cibAddrOffset cabCount cibCount cibsPerCab) []

/-- The fields of the space manager before its ring. -/
def spacemanFields (sm : Bytes) : Checked SpacemanFields := do
  let recordedBlockSize ← u32At sm 0x20
  rejectIf (recordedBlockSize ≠ v.blockSize)
    (.fieldOutOfRange "space manager block size" recordedBlockSize)
  let blocksPerChunk ← u32At sm 0x24
  rejectIf (blocksPerChunk ≠ v.blockSize * 8) (.fieldOutOfRange "blocks per chunk" blocksPerChunk)
  let chunksPerCib ← u32At sm 0x28
  let room ← (minus v.blockSize 0x28 : Checked ℕ)
  rejectIf (chunksPerCib = 0 ∨ chunksPerCib > room / CHUNK_INFO_BYTES)
    (.fieldOutOfRange "chunks per chunk info block" chunksPerCib)
  let structSize ← u32At sm 0x154
  rejectIf (structSize ≠ SPACEMAN_STRUCT_SIZE)
    (.fieldOutOfRange "space manager struct size" structSize)
  let deviceBlockCount ← u64At sm 0x30
  rejectIf (deviceBlockCount ≠ v.blockCount)
    (.fieldOutOfRange "space manager device block count" deviceBlockCount)
  let chunkCount ← u64At sm 0x38
  let cibCount ← u32At sm 0x40
  let cabCount ← u32At sm 0x44
  let cibsPerCab ← u32At sm 0x2C
  let recordedFree ← u64At sm 0x48
  let cibAddrOffset ← u32At sm 0x50
  let directEntries := if cabCount = 0 then cibCount else cabCount
  rejectIf (cibAddrOffset + directEntries * 8 > sm.length)
    (.fieldOutOfRange "chunk info address array offset" cibAddrOffset)
  let ipBlockCount ← u64At sm 0x98
  let ipBmSizeInBlocks ← u32At sm 0xA0
  let ipBmBlockCount ← u32At sm 0xA4
  let ipBmBase ← u64At sm 0xA8
  let ipBase ← u64At sm 0xB0
  regionWithin "internal pool" ipBase ipBlockCount v.blockCount
  regionWithin "internal pool bitmap ring" ipBmBase ipBmBlockCount v.blockCount
  return {
    blocksPerChunk, chunksPerCib, chunkCount, cibCount, cabCount, cibsPerCab, recordedFree
    cibAddrOffset, ipBmSizeInBlocks, ipBmBlockCount }

def verifySpaceman (sm : Bytes) (xid : ℕ) : Scan Allocation := do
  let fields ← v.spacemanFields sm
  let ipBmFreeNextOffset ← verifyIpRing sm fields.ipBmSizeInBlocks fields.ipBmBlockCount xid
  let ringEnd ← narrow 32 (ipBmFreeNextOffset + (← narrow 32 (fields.ipBmBlockCount * 2)))
  let expectedCibAddrOffset ← align8 ringEnd
  rejectIf (fields.cibAddrOffset ≠ expectedCibAddrOffset)
    (.fieldMismatch "sm_dev[SD_MAIN].addr_offset" expectedCibAddrOffset fields.cibAddrOffset)
  let cibAddrs ← v.cibAddrs sm fields.cibAddrOffset fields.cabCount fields.cibCount
    fields.cibsPerCab
  let walk ← cibAddrs.zipIdx.foldlM (v.verifyCib fields.blocksPerChunk fields.chunksPerCib)
    ⟨[], 0, 0⟩
  rejectIf (walk.bitmaps.length ≠ fields.chunkCount)
    (.chunkCoverage walk.bitmaps.length fields.chunkCount)
  rejectIf (walk.covered ≠ v.blockCount) (.chunkCoverage walk.covered v.blockCount)
  rejectIf (walk.countedFree ≠ fields.recordedFree)
    (.freeCountMismatch fields.recordedFree walk.countedFree)
  let queues ← freeQueueTreeOids sm
  return ⟨fields.blocksPerChunk, walk.bitmaps, walk.countedFree, queues.filter (· ≠ 0)⟩

end Verifier

end AppleUtils.Apfs
