import AppleUtils.Apfs.Node
import AppleUtils.Apfs.VerifySpace

/-! # The space manager of a new container

`create_with_preboot_files` allocates its blocks one after the other, the internal pool last, so a
new container is in use up to `next` and free behind it.  `build_spaceman` writes that down: a bitmap
for every chunk the used blocks reach, the chunk-info blocks, and the space manager with the total.

`Accounts` reads all of it back from the blocks of the finished image.  The volumes and the object
map are built by a function of which only `Grows` is known: it allocates and does not give back. -/

namespace AppleUtils.Apfs.SpaceBuilder

open Bytes Checks List Function

def divCeil (a b : ℕ) : ℕ := (a + b - 1) / b

/-! ### The image -/

/-- An image under construction; `next` is the first block not allocated yet. -/
structure Image where
  (blockSize blockCount next : ℕ)
  blocks : ℕ → Bytes

namespace Image

def new (blockSize blockCount : ℕ) : Image := ⟨blockSize, blockCount, 0, fun _ => zeros blockSize⟩

def alloc (image : Image) (blocks : ℕ) : Checked (ℕ × Image) := do
  let stop := image.next + blocks
  bailIf (2 ^ 64 ≤ stop) "APFS container allocation overflowed"
  bailIf (image.blockCount < stop)
    "APFS container is too small to hold its own structures"
  return (image.next, { image with next := stop })

/-- Every write of the builder is of one block. -/
def writeBlocks (image : Image) (paddr : ℕ) (data : Bytes) : Checked Image := do
  failIf (image.blockCount ≤ paddr) .panic
  return { image with blocks := update image.blocks paddr data }

end Image

/-! ### Sizes known to work -/

def CHECKPOINT_GEOMETRY_TABLE : List (ℕ × ℕ × ℕ × ℕ) :=
  [(64 * 1024 * 1024, 8, 160, 4), (128 * 1024 * 1024, 8, 304, 8), (512 * 1024 * 1024, 8, 388, 8),
    (1024 * 1024 * 1024, 16, 992, 8), (2560 * 1024 * 1024, 32, 2452, 8), (8192 * 1024 * 1024, 68, 6160, 8)]

def MAIN_FREE_QUEUE_NODE_LIMIT_TABLE : List (ℕ × ℕ) :=
  [(64 * 1024 * 1024, 4), (128 * 1024 * 1024, 8), (256 * 1024 * 1024, 15),
    (512 * 1024 * 1024, 29), (768 * 1024 * 1024, 44), (1024 * 1024 * 1024, 116),
    (1536 * 1024 * 1024, 174), (2048 * 1024 * 1024, 231), (2560 * 1024 * 1024, 289),
    (3072 * 1024 * 1024, 347), (4096 * 1024 * 1024, 512), (8192 * 1024 * 1024, 512)]

/-- `max_by_key` on the first component: of equal keys the last. -/
def maxByKey {α : Type} (entries : List (ℕ × α)) : Option (ℕ × α) :=
  entries.foldl (fun best entry =>
    match best with
    | none => some entry
    | some b => if b.1 ≤ entry.1 then some entry else some b) none

/-- The entry for the largest size that is not above `containerBytes`. -/
def largestWithin {α : Type} (table : List (ℕ × α)) (containerBytes : ℕ) (message : String) : Checked α :=
  match maxByKey (table.filter fun entry => entry.1 ≤ containerBytes) with
  | some entry => .ok entry.2
  | none => .error (.refused message [])

def checkpointGeometry (containerBytes : ℕ) : Checked (ℕ × ℕ × ℕ) :=
  largestWithin CHECKPOINT_GEOMETRY_TABLE containerBytes
    ("container size " ++ toString containerBytes ++ " bytes is smaller than the smallest real APFS "
      ++ "checkpoint-area geometry this writer has confirmed against fsck_apfs (64 MiB); "
      ++ "refusing rather than inventing a checkpoint ring size")

def mainFreeQueueNodeLimit (containerBytes : ℕ) : Checked ℕ :=
  largestWithin MAIN_FREE_QUEUE_NODE_LIMIT_TABLE containerBytes
    ("container size " ++ toString containerBytes ++ " bytes is smaller than the smallest real APFS "
      ++ "main free-queue node limit this writer has confirmed against the live kernel "
      ++ "APFS driver (64 MiB); refusing rather than inventing one")

/-! ### The space manager -/

def setBit (bitmap : Bytes) (bit : ℕ) : Bytes :=
  bitmap.modify (bit / 8) fun byte => byte ||| 1#8 <<< (bit % 8)

/-- The loop leaves the bitmap exactly where it has fewer than `count` bits. -/
def setLeadingBits (bitmap : Bytes) (count : ℕ) : Checked Bytes := do
  failIf (8 * bitmap.length < count) .panic
  return (List.range count).foldl setBit bitmap

structure ChunkInfo where
  (addr blocks free bitmapAddr : ℕ)
  deriving DecidableEq, Repr

/-- What the loop over the chunks changes. -/
structure Chunks where
  image : Image
  chunks : List ChunkInfo
  bitmapSlot : ℕ

def buildChunk (blocksPerChunk bitmapBase usedFinal : ℕ) (s : Chunks) (chunk : ℕ) :
    Checked Chunks := do
  let addr := chunk * blocksPerChunk
  let blocks := min blocksPerChunk (← minus s.image.blockCount addr)
  if addr ≥ usedFinal then
    return { s with chunks := s.chunks ++ [⟨addr, blocks, blocks, 0⟩] }
  else
    let usedInChunk := min (usedFinal - addr) blocks
    let bitmapAddr := bitmapBase + s.bitmapSlot
    let bitmap ← setLeadingBits (zeros s.image.blockSize) usedInChunk
    let image ← s.image.writeBlocks bitmapAddr bitmap
    return ⟨image, s.chunks ++ [⟨addr, blocks, blocks - usedInChunk, bitmapAddr⟩], s.bitmapSlot + 1⟩

/-- The fields of the chunk in `slot` of its chunk-info block. -/
def chunkFields (xid : ℕ) (chunk : ChunkInfo) (slot : ℕ) : List (ℕ × Bytes) :=
  let start := 0x28 + slot * CHUNK_INFO_BYTES
  [u64 start xid, u64 (start + 8) chunk.addr, u32 (start + 16) chunk.blocks,
    u32 (start + 20) chunk.free, u64 (start + 24) chunk.bitmapAddr]

/-- `chunks` holds every chunk, so the default is never read. -/
def cibFields (xid cibIndex start stop : ℕ) (chunks : List ChunkInfo) : List (ℕ × Bytes) :=
  [u32 0x20 cibIndex, u32 0x24 (stop - start)] ++
    (List.range (stop - start)).flatMap fun slot =>
      chunkFields xid (chunks.getD (start + slot) ⟨0, 0, 0, 0⟩) slot

def cibBlock (xid cibBase chunksPerCib chunkCount : ℕ) (chunks : List ChunkInfo) (blockSize cibIndex : ℕ) : Bytes :=
  let start := cibIndex * chunksPerCib
  let stop := min ((cibIndex + 1) * chunksPerCib) chunkCount
  sealBlock (cibBase + cibIndex) xid (OBJ_PHYSICAL + TYPE_SPACEMAN_CIB) 0
    (patch (zeros blockSize) (cibFields xid cibIndex start stop chunks))

def buildCib (xid cibBase chunksPerCib chunkCount : ℕ) (chunks : List ChunkInfo) (image : Image)
    (cibIndex : ℕ) : Checked Image :=
  image.writeBlocks (cibBase + cibIndex)
    (cibBlock xid cibBase chunksPerCib chunkCount chunks image.blockSize cibIndex)

def IP_RING_BLOCKS : ℕ := 16
def IP_RING_LIVE : ℕ := 1

/-- `(v + 7) & !7`. -/
def alignUp8 (v : ℕ) : ℕ := (v + 7) / 8 * 8

def xidOffset : ℕ := SPACEMAN_STRUCT_SIZE
def bitmapOffset : ℕ := alignUp8 (xidOffset + IP_RING_LIVE * 8)
def nextOffset : ℕ := alignUp8 (bitmapOffset + IP_RING_LIVE * 2)
def cibAddrOffset : ℕ := alignUp8 (nextOffset + IP_RING_BLOCKS * 2)

/-- What `build_spaceman` is called with, the image apart. -/
structure Layout where
  (spacemanPaddr spacemanOid freeQueueOid cibBase cibCount chunksPerCib chunkCount blocksPerChunk : ℕ)
  (ipBase ipBlockCount ipBmBase bitmapBase bitmapReserve usedFinal xid : ℕ)

variable (l : Layout) {bitmap : Bytes} {cibIndex start blockSize : ℕ} {image image' : Image}

def Layout.fixedFields (blockSize blockCount mainNodeLimit : ℕ) : List (ℕ × Bytes) :=
  let ipQueue := 0xC8
  let mainQueue := 0xC8 + 40
  [u32 0x20 blockSize, u32 0x24 l.blocksPerChunk, u32 0x28 l.chunksPerCib,
    u32 0x2C ((blockSize - 0x28) / 8), u64 0x30 blockCount, u64 0x38 l.chunkCount,
    u32 0x40 l.cibCount, u32 0x44 0, u64 0x48 (blockCount - l.usedFinal),
    u32 0x50 cibAddrOffset, u32 (0x60 + 0x20) (cibAddrOffset + l.cibCount * 8), u32 0x90 1,
    u32 0x94 IP_RING_BLOCKS, u64 0x98 l.ipBlockCount, u32 0xA0 IP_RING_LIVE,
    u32 0xA4 IP_RING_BLOCKS, u64 0xA8 l.ipBmBase, u64 0xB0 l.ipBase, u16 (ipQueue + 24) 1,
    u64 mainQueue 0, u64 (mainQueue + 8) l.freeQueueOid, u16 (mainQueue + 24) mainNodeLimit,
    u16 0x140 IP_RING_LIVE, u16 0x142 (IP_RING_BLOCKS - 1), u32 0x144 xidOffset,
    u32 0x148 bitmapOffset, u32 0x14C nextOffset, u32 0x150 1, u32 0x154 SPACEMAN_STRUCT_SIZE]

def Layout.ringFields : List (ℕ × Bytes) :=
  ((List.range IP_RING_LIVE).flatMap fun slot =>
    [u64 (xidOffset + slot * 8) l.xid, u16 (bitmapOffset + slot * 2) slot]) ++
  (List.range IP_RING_BLOCKS).map fun slot =>
    u16 (nextOffset + slot * 2)
      (if slot < IP_RING_LIVE ∨ slot = IP_RING_BLOCKS - 1 then 0xFFFF else slot + 1)

def Layout.cibAddresses : List (ℕ × Bytes) :=
  (List.range l.cibCount).flatMap fun index => [u64 (cibAddrOffset + index * 8) (l.cibBase + index)]

def Layout.spaceman (image : Image) (mainNodeLimit : ℕ) : Bytes :=
  sealBlock l.spacemanOid l.xid (OBJ_EPHEMERAL + TYPE_SPACEMAN) 0 (patch (zeros image.blockSize)
    (l.fixedFields image.blockSize image.blockCount mainNodeLimit ++ l.ringFields ++ l.cibAddresses))

def buildSpaceman (image : Image) : Checked Image := do
  let built ← (List.range l.chunkCount).foldlM
    (buildChunk l.blocksPerChunk l.bitmapBase l.usedFinal) ⟨image, [], 0⟩
  let _recordedFree ← minus image.blockCount l.usedFinal
  let ipBitmap ← setLeadingBits (zeros image.blockSize) (l.cibCount + built.bitmapSlot)
  let pooled ← built.image.writeBlocks l.ipBmBase ipBitmap
  let described ← (List.range l.cibCount).foldlM
    (buildCib l.xid l.cibBase l.chunksPerCib l.chunkCount built.chunks) pooled
  bailIf (cibAddrOffset + l.cibCount * 8 > image.blockSize)
    "space manager ring bookkeeping overflowed its block"
  let mainNodeLimit ← mainFreeQueueNodeLimit (image.blockSize * image.blockCount)
  bailIf (built.bitmapSlot > l.bitmapReserve)
    "internal: the space manager needed more allocation bitmaps than were reserved"
  described.writeBlocks l.spacemanPaddr (l.spaceman image mainNodeLimit)

/-! ### The container -/

def APFS_BLOCK : ℕ := 4096

/-- The blocks of the other builders. -/
structure Others where
  (reaper freeQueue checkpointMap superblock : Bytes)

/-- `create_with_preboot_files` from the check of the size on.  `volumes` builds the four volumes and
the object map of the container. -/
def createWithPrebootFiles (volumes : Image → Checked Image) (others : Others) (partBytes : ℕ) :
    Checked Image := do
  bailIf (partBytes = 0 ∨ partBytes % APFS_BLOCK ≠ 0)
    "APFS container size must be a nonzero multiple of 4096 bytes"
  let blockSize := APFS_BLOCK
  let blockCount := partBytes / blockSize
  let (descRingBlocks, dataRingBlocks, _) ← checkpointGeometry partBytes
  let image := Image.new blockSize blockCount
  let (blockZeroPaddr, image) ← image.alloc 1
  let (descriptorBase, image) ← image.alloc descRingBlocks
  let (dataBase, image) ← image.alloc dataRingBlocks
  let blocksPerChunk := blockSize * 8
  let chunksPerCib := (blockSize - 0x28) / CHUNK_INFO_BYTES
  let chunkCount := divCeil blockCount blocksPerChunk
  let cibCount := divCeil chunkCount chunksPerCib
  let (ipBmBase, image) ← image.alloc IP_RING_BLOCKS
  let image ← volumes image
  let touchedNeeded := max (divCeil image.next blocksPerChunk) 1
  let bitmapReserve := touchedNeeded + 1
  let ipBlockCount := max (cibCount + bitmapReserve) (3 * chunkCount + 3)
  let (ipBase, image) ← image.alloc ipBlockCount
  let image ← buildSpaceman
    { spacemanPaddr := dataBase, spacemanOid := 0x400, freeQueueOid := 0x402, cibBase := ipBase
      cibCount, chunksPerCib, chunkCount, blocksPerChunk, ipBase, ipBlockCount, ipBmBase
      bitmapBase := ipBase + cibCount, bitmapReserve, usedFinal := image.next, xid := 1 } image
  let image ← image.writeBlocks (dataBase + 1) others.reaper
  let image ← image.writeBlocks (dataBase + 2) others.freeQueue
  let image ← image.writeBlocks descriptorBase others.checkpointMap
  let image ← image.writeBlocks blockZeroPaddr others.superblock
  image.writeBlocks (descriptorBase + 1) others.superblock

/-! ### Steps that return -/

section Steps

variable {n paddr : ℕ} {data : Bytes} {α : Type}

lemma Image.alloc_eq_ok (h : image.alloc n = .ok (start, image')) :
    start = image.next ∧ image' = { image with next := image.next + n } ∧ image.next + n ≤ image.blockCount := by
  obtain ⟨_, -, h⟩ := bind_eq_ok.mp h
  obtain ⟨_, hroom, h⟩ := bind_eq_ok.mp h
  obtain ⟨rfl, rfl⟩ := Prod.mk.inj (pure_eq_ok.mp h)
  exact ⟨rfl, rfl, not_lt.mp (bailIf_eq_ok.mp hroom)⟩

lemma Image.writeBlocks_eq_ok (h : image.writeBlocks paddr data = .ok image') :
    image' = { image with blocks := update image.blocks paddr data } := by
  obtain ⟨_, -, h⟩ := bind_eq_ok.mp h
  exact (pure_eq_ok.mp h).symm

lemma maxByKey_mem {entries : List (ℕ × α)} {entry : ℕ × α}
    (h : maxByKey entries = some entry) : entry ∈ entries := by
  suffices ∀ best, entries.foldl (fun best entry =>
      match best with
      | none => some entry
      | some b => if b.1 ≤ entry.1 then some entry else some b) best = some entry →
      entry ∈ entries ∨ best = some entry by
    exact (this none h).resolve_right (by simp)
  clear h
  induction entries with
  | nil => simp
  | cons e entries ih =>
    intro best h
    rw [foldl_cons] at h
    rcases ih _ h with hmem | hbest
    · exact .inl (mem_cons_of_mem e hmem)
    · cases best with
      | none => simp_all
      | some b =>
        simp only at hbest
        split_ifs at hbest
        · exact .inl (by simp_all)
        · exact .inr hbest

lemma largestWithin_mem {table : List (ℕ × α)} {bytes : ℕ} {message : String} {x : α}
    (h : largestWithin table bytes message = .ok x) : ∃ entry ∈ table, entry.2 = x := by
  unfold largestWithin at h
  split at h
  · next entry hentry =>
      exact ⟨entry, mem_of_mem_filter (maxByKey_mem hentry), Except.ok.inj h⟩
  · cases h

end Steps

/-! ### Bitmaps -/

lemma length_setBit (bitmap : Bytes) (bit : ℕ) : (setBit bitmap bit).length = bitmap.length :=
  length_modify ..

lemma bitSet_setBit {bit : ℕ} (h : bit < 8 * bitmap.length) (i : ℕ) :
    bitSet (setBit bitmap bit) i = (decide (i = bit) || bitSet bitmap i) := by
  have hbyte : bit / 8 < bitmap.length := by omega
  by_cases hi : bit / 8 = i / 8
  · have hsame : i = bit ↔ i % 8 = bit % 8 := by omega
    have hlt : i / 8 < bitmap.length := by omega
    simp only [bitSet, setBit, byteAt, getD_eq_getElem?_getD, List.getElem?_modify, hi,
      List.getElem?_eq_getElem hlt, hsame]
    simp only [if_true, Option.map_eq_map, Option.map_some, Option.getD_some, BitVec.getLsbD_or,
      BitVec.getLsbD_shiftLeft]
    have h8 : i % 8 < 8 := Nat.mod_lt _ (by omega)
    have hone : (1#8).getLsbD (i % 8 - bit % 8) = decide (i % 8 - bit % 8 = 0) := by
      rw [BitVec.getLsbD_one]
      simp
    rw [hone, Bool.or_comm]
    congr 1
    by_cases hle : i % 8 < bit % 8
    · simp [hle, hle.ne]
    · simp [hle, h8]
      omega
  · have hne : i ≠ bit := fun h => hi (by rw [h])
    simp only [bitSet, setBit, byteAt, getD_eq_getElem?_getD, List.getElem?_modify, hi, hne]
    simp

lemma bitSet_zeros (n i : ℕ) : bitSet (zeros n) i = false := by
  rw [bitSet, byteAt, zeros, getD_eq_getElem?_getD, List.getElem?_replicate]
  split_ifs <;> simp

/-- The bits before `count` and no other are set in a new block. -/
lemma setLeadingBits_zeros {n count : ℕ}
    (h : setLeadingBits (zeros n) count = .ok bitmap) (i : ℕ) : bitSet bitmap i = decide (i < count) := by
  obtain ⟨_, hroom, hbitmap⟩ := bind_eq_ok.mp h
  rw [← pure_eq_ok.mp hbitmap]
  rw [failIf_eq_ok, length_zeros, not_lt] at hroom
  clear h hbitmap
  suffices ((List.range count).foldl setBit (zeros n)).length = n ∧
      bitSet ((List.range count).foldl setBit (zeros n)) i = decide (i < count) from this.2
  induction count with
  | zero => exact ⟨length_zeros n, by simp [bitSet_zeros]⟩
  | succ count ih =>
    obtain ⟨hlen, hbits⟩ := ih (by omega)
    rw [range_succ, foldl_append, foldl_cons, foldl_nil]
    refine ⟨(length_setBit _ _).trans hlen, ?_⟩
    rw [bitSet_setBit (by omega), hbits, ← Bool.decide_or]
    exact decide_eq_decide.mpr (by omega)

/-! ### The chunks -/

section Loop

variable (blocksPerChunk bitmapBase usedFinal : ℕ) (image : Image) {s : Chunks}

/-- The record of chunk `k`: the used blocks are those before `usedFinal`. -/
def chunkInfo (k : ℕ) : ChunkInfo where
  addr := k * blocksPerChunk
  blocks := min blocksPerChunk (image.blockCount - k * blocksPerChunk)
  free := min blocksPerChunk (image.blockCount - k * blocksPerChunk) - (usedFinal - k * blocksPerChunk)
  bitmapAddr := if usedFinal ≤ k * blocksPerChunk then 0 else bitmapBase + k

/-- The state before chunk `k`.  The chunks in use come first, so the bitmap of chunk `j` is in slot
`j`. -/
structure BuiltTo (k : ℕ) (s : Chunks) : Prop where
  chunks : s.chunks = (List.range k).map (chunkInfo blocksPerChunk bitmapBase usedFinal image)
  frame : s.image = { image with blocks := s.image.blocks }
  slot_le : s.bitmapSlot ≤ k
  lt_slot : ∀ j < k, j * blocksPerChunk < usedFinal → j < s.bitmapSlot
  bitmap : ∀ j < k, j * blocksPerChunk < usedFinal → ∀ i, bitSet (s.image.blocks (bitmapBase + j)) i = decide
      (i < min (usedFinal - j * blocksPerChunk)
        (min blocksPerChunk (image.blockCount - j * blocksPerChunk)))

variable {blocksPerChunk bitmapBase usedFinal : ℕ} {image}

lemma BuiltTo.step {k : ℕ} {s' : Chunks} (h : BuiltTo blocksPerChunk bitmapBase usedFinal image k s)
    (hs : buildChunk blocksPerChunk bitmapBase usedFinal s k = .ok s') :
    BuiltTo blocksPerChunk bitmapBase usedFinal image (k + 1) s' := by
  have hcount : s.image.blockCount = image.blockCount := by rw [h.frame]
  obtain ⟨room, hroom, hs⟩ := bind_eq_ok.mp hs
  obtain ⟨-, rfl⟩ := minus_eq_ok.mp hroom
  rw [hcount] at hs
  split_ifs at hs with hused
  · obtain rfl := pure_eq_ok.mp hs
    refine ⟨?_, h.frame, h.slot_le.trans (by omega), fun j hj hju => ?_, fun j hj hju => ?_⟩
    · simp only [range_succ, map_append, h.chunks, map_cons, map_nil, chunkInfo,
        if_pos hused, Nat.sub_eq_zero_of_le hused, Nat.sub_zero]
    · have hjk : j ≠ k := fun e => absurd (e ▸ hju) (not_lt.mpr hused)
      exact h.lt_slot j (by omega) hju
    · have hjk : j ≠ k := fun e => absurd (e ▸ hju) (not_lt.mpr hused)
      exact h.bitmap j (by omega) hju
  · have hused : k * blocksPerChunk < usedFinal := not_le.mp hused
    obtain ⟨bitmap, hbitmap, hs⟩ := bind_eq_ok.mp hs
    obtain ⟨written, hwritten, hs⟩ := bind_eq_ok.mp hs
    obtain rfl := pure_eq_ok.mp hs
    obtain rfl := Image.writeBlocks_eq_ok hwritten
    -- Every chunk before this one is in use as well.
    have hslot : s.bitmapSlot = k := by
      rcases Nat.eq_zero_or_pos k with rfl | hk
      · exact Nat.le_zero.mp h.slot_le
      · have hprev : (k - 1) * blocksPerChunk < usedFinal :=
          (Nat.mul_le_mul_right blocksPerChunk (Nat.sub_le k 1)).trans_lt hused
        have := h.lt_slot (k - 1) (by omega) hprev
        have := h.slot_le
        omega
    refine ⟨?_, ?_, ?_, fun j hj _ => ?_, fun j hj hju i => ?_⟩
    · have hmin : ∀ m u : ℕ, m - min u m = m - u := fun m u => by omega
      simp only [range_succ, map_append, h.chunks, map_cons, map_nil, chunkInfo,
        if_neg (not_le.mpr hused), hslot, hmin]
    · simp only
      rw [h.frame]
    · simp only [hslot, le_refl]
    · simp only [hslot]
      exact hj
    · simp only [hslot]
      by_cases hjk : j = k
      · subst hjk
        rw [update_self]
        exact setLeadingBits_zeros hbitmap i
      · rw [update_of_ne (by omega)]
        exact h.bitmap j (by omega) hju i

lemma builtChunks {n : ℕ}
    (h : (List.range n).foldlM (buildChunk blocksPerChunk bitmapBase usedFinal) ⟨image, [], 0⟩ = .ok s) :
    BuiltTo blocksPerChunk bitmapBase usedFinal image n s :=
  Checks.foldlM_range_ok (fun _ _ _ _ h hs => h.step hs)
    ⟨rfl, rfl, le_refl 0, by simp, by simp⟩ h

end Loop

/-! ### Chunk-info blocks -/

/-- The chunk in `slot` of a chunk-info block. -/
def readChunk (cib : Bytes) (slot : ℕ) : ChunkInfo :=
  let start := 0x28 + slot * CHUNK_INFO_BYTES
  ⟨leAt 8 cib (start + 8), leAt 4 cib (start + 16), leAt 4 cib (start + 20), leAt 8 cib (start + 24)⟩

/-- The numbers of the record are within the widths of its fields. -/
def ChunkInfo.Fits (c : ChunkInfo) : Prop :=
  c.addr < 256 ^ 8 ∧ c.blocks < 256 ^ 4 ∧ c.free < 256 ^ 4 ∧ c.bitmapAddr < 256 ^ 8

lemma chunkFields_inSlots (xid : ℕ) (chunk : ℕ → ChunkInfo) :
    InSlots (fun slot => chunkFields xid (chunk slot) slot) 0x28 CHUNK_INFO_BYTES := by
  intro j u hu
  simp only [chunkFields, mem_cons, not_mem_nil, or_false, CHUNK_INFO_BYTES] at hu ⊢
  rcases hu with rfl | rfl | rfl | rfl | rfl <;>
    simp only [u64_fst, u64_length, u32_fst, u32_length] <;> omega

lemma cibFields_within {xid stop : ℕ} (chunks : List ChunkInfo)
    (hroom : 0x28 + (stop - start) * CHUNK_INFO_BYTES ≤ blockSize) :
    Within blockSize (cibFields xid cibIndex start stop chunks) := by
  have hin := chunkFields_inSlots xid fun slot => chunks.getD (start + slot) ⟨0, 0, 0, 0⟩
  intro u hu
  rcases mem_append.mp hu with hu | hu
  · simp only [mem_cons, not_mem_nil, or_false] at hu
    rcases hu with rfl | rfl <;> rw [u32_fst, u32_length] <;> omega
  · exact hin.within hroom u hu

lemma readChunk_cibFields {xid stop slot : ℕ} {chunks : List ChunkInfo}
    {c : ChunkInfo} (hslot : slot < stop - start) (hc : chunks[start + slot]? = some c) (hfits : c.Fits)
    (hroom : 0x28 + (stop - start) * CHUNK_INFO_BYTES ≤ blockSize) :
    readChunk (patch (zeros blockSize) (cibFields xid cibIndex start stop chunks)) slot = c := by
  have hin := chunkFields_inSlots xid fun slot => chunks.getD (start + slot) ⟨0, 0, 0, 0⟩
  have hhead : Within (zeros blockSize).length [u32 0x20 cibIndex, u32 0x24 (stop - start)] := by
    simp only [within_cons, u32_fst, u32_length, within_nil, and_true, length_zeros]
    omega
  have hlen : 0x28 + (stop - start) * CHUNK_INFO_BYTES ≤
      (patch (zeros blockSize) [u32 0x20 cibIndex, u32 0x24 (stop - start)]).length := by
    rwa [length_patch hhead, length_zeros]
  obtain ⟨haddr, hblocks, hfree, hbitmap⟩ := hfits
  rw [cibFields, patch_append, readChunk]
  simp only [CHUNK_INFO_BYTES] at hin hlen ⊢
  rw [hin.leAt_slot hlen hslot (v := c.addr) (by omega) (fun acc => ?_) haddr,
    hin.leAt_slot hlen hslot (v := c.blocks) (by omega) (fun acc => ?_) hblocks,
    hin.leAt_slot hlen hslot (v := c.free) (by omega) (fun acc => ?_) hfree,
    hin.leAt_slot hlen hslot (v := c.bitmapAddr) (by omega) (fun acc => ?_) hbitmap]
  all_goals simp [chunkFields, lastWrite, u64, u32, hc, CHUNK_INFO_BYTES, length_leBytes]

section Cibs

variable (xid cibBase chunksPerCib chunkCount : ℕ) (chunks : List ChunkInfo) (image : Image)

/-- The state before block `k`. -/
structure CibsTo (k : ℕ) (image' : Image) : Prop where
  frame : image' = { image with blocks := image'.blocks }
  cib : ∀ j < k, image'.blocks (cibBase + j) = cibBlock xid cibBase chunksPerCib chunkCount chunks
    image.blockSize j
  behind : ∀ p, cibBase + k ≤ p → image'.blocks p = image.blocks p

variable {xid cibBase chunksPerCib chunkCount : ℕ} {chunks : List ChunkInfo} {image}

lemma CibsTo.step {k : ℕ} {image'' : Image}
    (h : CibsTo xid cibBase chunksPerCib chunkCount chunks image k image')
    (hs : buildCib xid cibBase chunksPerCib chunkCount chunks image' k = .ok image'') :
    CibsTo xid cibBase chunksPerCib chunkCount chunks image (k + 1) image'' := by
  have hsize : image'.blockSize = image.blockSize := by rw [h.frame]
  obtain rfl := Image.writeBlocks_eq_ok hs
  refine ⟨?_, fun j hj => ?_, fun p hp => ?_⟩
  · simp only
    rw [h.frame]
  · by_cases hjk : j = k
    · subst hjk
      simp only [update_self, hsize]
    · simp only
      rw [update_of_ne (by omega)]
      exact h.cib j (by omega)
  · simp only
    rw [update_of_ne (by omega)]
    exact h.behind p (by omega)

lemma builtCibs {n : ℕ} (h : (List.range n).foldlM (buildCib xid cibBase chunksPerCib chunkCount chunks) image =
    .ok image') : CibsTo xid cibBase chunksPerCib chunkCount chunks image n image' :=
  Checks.foldlM_range_ok (fun _ _ _ _ h hs => h.step hs) ⟨rfl, by simp, by simp⟩ h

end Cibs

/-! ### The space manager as it is written -/

/-- The chunks of a layout. -/
def Layout.chunk (image : Image) (k : ℕ) : ChunkInfo :=
  chunkInfo l.blocksPerChunk l.bitmapBase l.usedFinal image k

/-- What `build_spaceman` leaves in an image. -/
structure Written (image image' : Image) : Prop where
  frame : image' = { image with blocks := image'.blocks }
  spaceman : ∃ limit, image'.blocks l.spacemanPaddr = l.spaceman image limit
  cib : ∀ j < l.cibCount, image'.blocks (l.cibBase + j) = cibBlock l.xid l.cibBase l.chunksPerCib
    l.chunkCount ((List.range l.chunkCount).map (l.chunk image)) image.blockSize j
  bitmap : ∀ j < l.chunkCount, j * l.blocksPerChunk < l.usedFinal → ∀ i,
    bitSet (image'.blocks (l.bitmapBase + j)) i = decide
      (i < min (l.usedFinal - j * l.blocksPerChunk) (l.chunk image j).blocks)
  room : cibAddrOffset + l.cibCount * 8 ≤ image.blockSize
  used_le : l.usedFinal ≤ image.blockCount

variable {l}

lemma Written.write {image'' : Image} {paddr : ℕ} {data : Bytes}
    (h : Written l image image') (hpool : paddr < l.cibBase) (hbase : l.cibBase ≤ l.bitmapBase)
    (hne : paddr ≠ l.spacemanPaddr) (hw : image'.writeBlocks paddr data = .ok image'') : Written l image image'' := by
  obtain rfl := Image.writeBlocks_eq_ok hw
  refine ⟨?_, ?_, fun j hj => ?_, fun j hj hju i => ?_, h.room, h.used_le⟩
  · simp only
    rw [h.frame]
  · simp only [update_of_ne (Ne.symm hne)]
    exact h.spaceman
  · simp only
    rw [update_of_ne (by omega)]
    exact h.cib j hj
  · simp only
    rw [update_of_ne (by omega)]
    exact h.bitmap j hj hju i

lemma written_buildSpaceman (h : buildSpaceman l image = .ok image')
    (hsm : l.spacemanPaddr < l.cibBase) (hip : l.ipBmBase < l.cibBase)
    (hbase : l.bitmapBase = l.cibBase + l.cibCount) : Written l image image' := by
  obtain ⟨built, hbuilt, h⟩ := bind_eq_ok.mp h
  obtain ⟨_, hfree, h⟩ := bind_eq_ok.mp h
  obtain ⟨ipBitmap, -, h⟩ := bind_eq_ok.mp h
  obtain ⟨pooled, hpooled, h⟩ := bind_eq_ok.mp h
  obtain ⟨described, hdescribed, h⟩ := bind_eq_ok.mp h
  obtain ⟨_, hroom, h⟩ := bind_eq_ok.mp h
  obtain ⟨limit, -, h⟩ := bind_eq_ok.mp h
  obtain ⟨_, -, h⟩ := bind_eq_ok.mp h
  have hchunks := builtChunks hbuilt
  have hpool := Image.writeBlocks_eq_ok hpooled
  have hcibs := builtCibs hdescribed
  have hframe : pooled = { image with blocks := pooled.blocks } := by rw [hpool, hchunks.frame]
  have hsize : pooled.blockSize = image.blockSize := by rw [hframe]
  obtain rfl := Image.writeBlocks_eq_ok h
  refine ⟨?_, ⟨limit, ?_⟩, fun j hj => ?_, fun j hj hju i => ?_, ?_, (minus_eq_ok.mp hfree).1⟩
  · simp only
    rw [hcibs.frame, hframe]
  · simp only [update_self]
  · simp only
    rw [update_of_ne (by omega), hcibs.cib j hj, hsize, hchunks.chunks]
    rfl
  · simp only
    rw [update_of_ne (by omega), hcibs.behind _ (by omega), hpool]
    simp only
    rw [update_of_ne (by omega)]
    exact hchunks.bitmap j hj hju i
  · exact not_lt.mp (bailIf_eq_ok.mp hroom)

section Fields

variable (l) {blockCount limit i m v : ℕ}

lemma fixedFields_within (blockCount limit : ℕ) (h : cibAddrOffset ≤ blockSize) :
    Within blockSize (l.fixedFields blockSize blockCount limit) := by
  have h : 2568 ≤ blockSize := h
  simp [Layout.fixedFields]
  omega

lemma ringFields_between : ∀ u ∈ l.ringFields, xidOffset ≤ u.1 ∧ u.1 + u.2.length ≤ cibAddrOffset := by
  have hlive : ∀ slot < IP_RING_LIVE, ∀ u ∈ [u64 (xidOffset + slot * 8) l.xid, u16 (bitmapOffset + slot * 2) slot],
      xidOffset ≤ u.1 ∧ u.1 + u.2.length ≤ cibAddrOffset := by
    intro slot hslot u hu
    have : slot = 0 := Nat.lt_one_iff.mp hslot
    simp only [mem_cons, not_mem_nil, or_false] at hu
    rcases hu with rfl | rfl
    · rw [u64_fst, u64_length]
      exact ⟨Nat.le_add_right .., by rw [this]; decide⟩
    · rw [u16_fst, u16_length, this]
      decide
  intro u hu
  rcases mem_append.mp hu with hu | hu
  · obtain ⟨slot, hslot, hu⟩ := mem_flatMap.mp hu
    exact hlive slot (mem_range.mp hslot) u hu
  · obtain ⟨slot, hslot, rfl⟩ := mem_map.mp hu
    have hslot : slot < 16 := mem_range.mp hslot
    have hnext : nextOffset = 2536 := by decide
    have hcib : cibAddrOffset = 2568 := by decide
    have hxid : xidOffset = 2520 := by decide
    rw [u16_fst, u16_length]
    omega

lemma cibAddresses_inSlots : InSlots
    (fun index => [u64 (cibAddrOffset + index * 8) (l.cibBase + index)]) cibAddrOffset 8 := by
  intro j u hu
  rw [mem_singleton] at hu
  subst hu
  rw [u64_fst, u64_length]
  omega

variable {l}

lemma length_fixed (limit : ℕ) (hroom : cibAddrOffset + l.cibCount * 8 ≤ image.blockSize) :
    (patch (zeros image.blockSize) (l.fixedFields image.blockSize image.blockCount limit ++
      l.ringFields)).length = image.blockSize := by
  rw [length_patch, length_zeros]
  rw [length_zeros]
  intro u hu
  rcases mem_append.mp hu with hu | hu
  · exact fixedFields_within l _ _ (by omega) u hu
  · exact ((ringFields_between l u hu).2).trans (by omega)

lemma leAt_spaceman_fixed (hroom : cibAddrOffset + l.cibCount * 8 ≤ image.blockSize)
    (hi : 32 ≤ i ∧ i + m ≤ xidOffset)
    (hz : lastWrite i m (l.fixedFields image.blockSize image.blockCount limit) (some (zeros m)) =
      some (leBytes m v)) (hv : v < 256 ^ m) : leAt m (l.spaceman image limit) i = v := by
  have hcib : cibAddrOffset = 2568 := by decide
  have hxid : xidOffset = 2520 := by decide
  have hlen := length_fixed limit hroom
  have hfixed := fixedFields_within l image.blockCount limit
    (show cibAddrOffset ≤ image.blockSize by omega)
  have hin := cibAddresses_inSlots l
  rw [Layout.spaceman, leAt_sealBlock _ hi.1, patch_append, Layout.cibAddresses,
    hin.leAt_before (by omega) (by omega), patch_append, leAt, slice_patch_of_disjoint, ← leAt]
  · exact leAt_patch_zeros hfixed hz (by omega) hv
  · rw [length_patch (by rwa [length_zeros]), length_zeros]
    exact fun u hu => ((ringFields_between l u hu).2).trans (by omega)
  · exact fun u hu => .inr (hi.2.trans (ringFields_between l u hu).1)
  · rw [patch_append, length_patch, hlen]
    · omega
    · rw [hlen]
      exact hin.within hroom

lemma leAt_spaceman_cib (hroom : cibAddrOffset + l.cibCount * 8 ≤ image.blockSize) {j : ℕ}
    (hj : j < l.cibCount) (hv : l.cibBase + j < 256 ^ 8) :
    leAt 8 (l.spaceman image limit) (cibAddrOffset + j * 8) = l.cibBase + j := by
  have hcib : cibAddrOffset = 2568 := by decide
  have hlen := length_fixed limit hroom
  have hin := cibAddresses_inSlots l
  rw [Layout.spaceman, leAt_sealBlock _ (by omega), patch_append, Layout.cibAddresses]
  · exact hin.leAt_slot (by omega) hj (by omega) (fun acc => by simp [lastWrite, u64, length_leBytes]) hv
  · rw [patch_append, length_patch, hlen]
    · omega
    · rw [hlen]
      exact hin.within hroom

end Fields

/-! ### What the finished image says -/

/-- Chunk `k`, found through the space manager. -/
def chunkAt (image : Image) (sm : Bytes) (k : ℕ) : ChunkInfo :=
  readChunk (image.blocks (leAt 8 sm (leAt 4 sm 0x50 + k / leAt 4 sm 0x28 * 8))) (k % leAt 4 sm 0x28)

/-- Whether bit `i` of the chunk's bitmap is set; a chunk without a bitmap is free. -/
def marks (image : Image) (c : ChunkInfo) (i : ℕ) : Bool :=
  c.bitmapAddr ≠ 0 && bitSet (image.blocks c.bitmapAddr) i

/-- The chunks the space manager describes. -/
def chunkTable (image : Image) (sm : Bytes) : List ChunkInfo :=
  (List.range (leAt 8 sm 0x38)).map (chunkAt image sm)

/-- The space manager `sm` of an image accounts for its blocks: those before `next` are in use. -/
structure Accounts (image : Image) (sm : Bytes) : Prop where
  covered : ∀ p, p < image.blockCount ↔
    ∃ c ∈ chunkTable image sm, c.addr ≤ p ∧ p < c.addr + c.blocks
  once : (chunkTable image sm).Pairwise fun c d => c.addr + c.blocks ≤ d.addr
  marked : ∀ c ∈ chunkTable image sm, ∀ i, marks image c i = true ↔ i < c.blocks ∧ c.addr + i < image.next
  free : ∀ c ∈ chunkTable image sm, c.free = ((List.range c.blocks).filter fun i => !marks image c i).length
  total : leAt 8 sm 0x48 = ((chunkTable image sm).map (·.free)).sum

lemma length_filter_range (n m : ℕ) : ((List.range n).filter fun i => !decide (i < m)).length = n - m := by
  induction n with
  | zero => simp
  | succ n ih =>
    rw [range_succ, filter_append, length_append, ih]
    by_cases h : n < m <;> simp [h] <;> omega

lemma sum_free (bitmapBase used bpc : ℕ) (image : Image) (n : ℕ) :
    ((List.range n).map fun k => (chunkInfo bpc bitmapBase used image k).free).sum =
      min (n * bpc) image.blockCount - used := by
  induction n with
  | zero => simp
  | succ n ih =>
    rw [range_succ, map_append, sum_append, ih, Nat.succ_mul]
    simp only [map_cons, map_nil, sum_singleton, chunkInfo]
    omega

lemma divCeil_spec {a b : ℕ} (hb : 0 < b) : a ≤ divCeil a b * b ∧ divCeil a b * b < a + b := by
  have h := Nat.div_add_mod (a + b - 1) b
  have hmod := Nat.mod_lt (a + b - 1) hb
  rw [mul_comm] at h
  unfold divCeil
  omega

/-- The layout of a container of 4096 byte blocks, with its internal pool behind everything else. -/
structure Layout.Standard (l : Layout) (image : Image) : Prop where
  blockSize : image.blockSize = 4096
  blocksPerChunk : l.blocksPerChunk = 32768
  chunksPerCib : l.chunksPerCib = 126
  chunkCount : l.chunkCount = divCeil image.blockCount 32768
  cibCount : l.cibCount = divCeil l.chunkCount 126
  usedFinal : l.usedFinal = image.next
  cibBase : 0 < l.cibBase
  bitmapBase : l.cibBase ≤ l.bitmapBase ∧ l.bitmapBase ≤ image.blockCount

section Reading

variable {limit k : ℕ}

/-- The sizes that fit in one space manager. -/
lemma Layout.Standard.bounds (hl : l.Standard image) (hroom : cibAddrOffset + l.cibCount * 8 ≤ image.blockSize) :
    l.cibCount ≤ 191 ∧ l.chunkCount ≤ 24066 ∧ image.blockCount ≤ 24066 * 32768 := by
  have hcib : cibAddrOffset = 2568 := by decide
  have h1 := (divCeil_spec (a := l.chunkCount) (b := 126) (by decide)).1
  have h2 := (divCeil_spec (a := image.blockCount) (b := 32768) (by decide)).1
  rw [← hl.cibCount] at h1
  rw [← hl.chunkCount] at h2
  have := hl.blockSize
  omega

lemma Layout.Standard.fits (hl : l.Standard image)
    (hroom : cibAddrOffset + l.cibCount * 8 ≤ image.blockSize) (hk : k < l.chunkCount) : (l.chunk image k).Fits := by
  obtain ⟨-, hchunks, hblocks⟩ := hl.bounds hroom
  have := hl.bitmapBase.2
  simp only [ChunkInfo.Fits, Layout.chunk, chunkInfo, hl.blocksPerChunk]
  refine ⟨by omega, by omega, by omega, ?_⟩
  split_ifs <;> omega

lemma Written.chunkAt_eq (limit : ℕ) (h : Written l image image') (hl : l.Standard image)
    (hk : k < l.chunkCount) : chunkAt image' (l.spaceman image limit) k = l.chunk image k := by
  obtain ⟨hcibs, hchunks, hblocks⟩ := hl.bounds h.room
  have hcount := (divCeil_spec (a := l.chunkCount) (b := 126) (by decide)).1
  rw [← hl.cibCount] at hcount
  have hj : k / 126 < l.cibCount := by omega
  have hper : leAt 4 (l.spaceman image limit) 0x28 = 126 :=
    leAt_spaceman_fixed h.room (by decide)
      (by simp [Layout.fixedFields, lastWrite, u64, u32, u16, length_leBytes, hl.chunksPerCib]) (by decide)
  have hoffset : leAt 4 (l.spaceman image limit) 0x50 = cibAddrOffset :=
    leAt_spaceman_fixed h.room (by decide)
      (by simp [Layout.fixedFields, lastWrite, u64, u32, u16, length_leBytes]) (by decide)
  have hbase := hl.bitmapBase
  rw [chunkAt, hper, hoffset, leAt_spaceman_cib h.room hj (by omega), h.cib _ hj, cibBlock]
  rw [hl.chunksPerCib]
  have hread : ∀ block slot, 32 ≤ block.length →
      readChunk (sealBlock (l.cibBase + k / 126) l.xid (OBJ_PHYSICAL + TYPE_SPACEMAN_CIB) 0 block) slot
        = readChunk block slot := by
    intro block slot hlen
    simp only [readChunk, CHUNK_INFO_BYTES]
    rw [leAt_sealBlock hlen (by omega), leAt_sealBlock hlen (by omega), leAt_sealBlock hlen (by omega),
      leAt_sealBlock hlen (by omega)]
  have hstop : min ((k / 126 + 1) * 126) l.chunkCount - k / 126 * 126 ≤ 126 := by omega
  have hslot : k % 126 < min ((k / 126 + 1) * 126) l.chunkCount - k / 126 * 126 := by omega
  have hindex : k / 126 * 126 + k % 126 = k := by omega
  have hroom : 0x28 + (min ((k / 126 + 1) * 126) l.chunkCount - k / 126 * 126) * CHUNK_INFO_BYTES ≤
      image.blockSize := by
    rw [hl.blockSize, CHUNK_INFO_BYTES]
    omega
  have hlen : (patch (zeros image.blockSize) (cibFields l.xid (k / 126) (k / 126 * 126)
      (min ((k / 126 + 1) * 126) l.chunkCount) ((List.range l.chunkCount).map (l.chunk image)))).length =
      image.blockSize := by
    rw [length_patch, length_zeros]
    rw [length_zeros]
    exact cibFields_within _ hroom
  rw [hread _ _ (by rw [hlen, hl.blockSize]; decide)]
  apply readChunk_cibFields hslot _ (hl.fits h.room hk) hroom
  rw [hindex, List.getElem?_map, List.getElem?_range hk, Option.map_some]

/-- The bits of a chunk are those of its blocks before `usedFinal`. -/
lemma Written.marks_eq (h : Written l image image') (hl : l.Standard image) (hk : k < l.chunkCount)
    (i : ℕ) : marks image' (l.chunk image k) i =
      decide (i < min (l.usedFinal - k * 32768) (l.chunk image k).blocks) := by
  have hbitmap := h.bitmap k hk
  have hpos := hl.cibBase
  have hbase := hl.bitmapBase.1
  rw [hl.blocksPerChunk] at hbitmap
  by_cases hused : l.usedFinal ≤ k * 32768
  · have haddr : (l.chunk image k).bitmapAddr = 0 := by
      rw [Layout.chunk, chunkInfo, hl.blocksPerChunk, if_pos hused]
    simp [marks, haddr, Nat.sub_eq_zero_of_le hused]
  · have haddr : (l.chunk image k).bitmapAddr = l.bitmapBase + k := by
      rw [Layout.chunk, chunkInfo, hl.blocksPerChunk, if_neg hused]
    have hne : l.bitmapBase + k ≠ 0 := by omega
    rw [marks, haddr, hbitmap (not_le.mp hused) i, decide_eq_true hne, Bool.true_and]

lemma Written.accounts (h : Written l image image') (hl : l.Standard image) :
    Accounts image' (image'.blocks l.spacemanPaddr) := by
  obtain ⟨limit, hlimit⟩ := h.spaceman
  obtain ⟨hcibs, hchunks, hblocks⟩ := hl.bounds h.room
  have hcount : leAt 8 (l.spaceman image limit) 0x38 = l.chunkCount :=
    leAt_spaceman_fixed h.room (by decide)
      (by simp [Layout.fixedFields, lastWrite, u64, u32, u16, length_leBytes]) (by omega)
  have htotal : leAt 8 (l.spaceman image limit) 0x48 = image.blockCount - l.usedFinal :=
    leAt_spaceman_fixed h.room (by decide)
      (by simp [Layout.fixedFields, lastWrite, u64, u32, u16, length_leBytes]) (by omega)
  have htable : chunkTable image' (l.spaceman image limit) = (List.range l.chunkCount).map (l.chunk image) := by
    rw [chunkTable, hcount]
    exact map_congr_left fun k hk => h.chunkAt_eq limit hl (mem_range.mp hk)
  have haddr : ∀ k, (l.chunk image k).addr = k * 32768 := fun k => by
    rw [Layout.chunk, chunkInfo, hl.blocksPerChunk]
  have hsize : ∀ k, (l.chunk image k).blocks = min 32768 (image.blockCount - k * 32768) := fun k => by
    rw [Layout.chunk, chunkInfo, hl.blocksPerChunk]
  have hends : image'.blockCount = image.blockCount ∧ image'.next = l.usedFinal := by
    rw [h.frame, hl.usedFinal]
    exact ⟨rfl, rfl⟩
  obtain ⟨hlast, hlt⟩ := divCeil_spec (a := image.blockCount) (b := 32768) (by decide)
  rw [← hl.chunkCount] at hlast hlt
  rw [hlimit]
  refine ⟨fun p => ?_, ?_, ?_, ?_, ?_⟩ <;> rw [htable]
  · simp only [mem_map, mem_range, exists_exists_and_eq_and, haddr, hsize, hends.1]
    refine ⟨fun hp => ⟨p / 32768, by omega, by omega, by omega⟩, ?_⟩
    rintro ⟨k, hk, hp⟩
    omega
  · rw [pairwise_map]
    refine pairwise_lt_range.imp fun hjk => ?_
    rw [haddr, haddr, hsize]
    omega
  · simp only [forall_mem_map, mem_range, hends.2]
    intro k hk i
    rw [h.marks_eq hl hk, decide_eq_true_iff, haddr]
    omega
  · simp only [forall_mem_map, mem_range]
    intro k hk
    simp only [h.marks_eq hl hk]
    rw [length_filter_range, Layout.chunk, chunkInfo, hl.blocksPerChunk]
    simp only
    omega
  · rw [htotal, map_map]
    have hsum := sum_free l.bitmapBase l.usedFinal l.blocksPerChunk image l.chunkCount
    rw [hl.blocksPerChunk] at hsum
    refine Eq.trans ?_ (hsum.symm.trans ?_)
    · omega
    · rw [← hl.blocksPerChunk]
      rfl

end Reading

/-! ### A new container -/

/-- The volumes are built in blocks that are allocated one after the other. -/
def Grows (volumes : Image → Checked Image) : Prop :=
  ∀ image image', volumes image = .ok image' → image'.blockSize = image.blockSize ∧
    image'.blockCount = image.blockCount ∧ image.next ≤ image'.next

/-- The superblock's copy is before the space manager. -/
lemma checkpointGeometry_desc {containerBytes desc data eph : ℕ}
    (h : checkpointGeometry containerBytes = .ok (desc, data, eph)) : 8 ≤ desc := by
  obtain ⟨entry, hentry, he⟩ := largestWithin_mem h
  have hall : ∀ entry ∈ CHECKPOINT_GEOMETRY_TABLE, 8 ≤ entry.2.1 := by decide
  have := hall entry hentry
  rwa [he] at this

/-- In a new container the bitmaps mark the blocks before the end of what was allocated and no other,
the chunks cover the container once, and both levels of counts are right. -/
theorem createWithPrebootFiles_accounts {volumes : Image → Checked Image} {others : Others}
    {partBytes : ℕ} {image : Image} (hgrow : Grows volumes)
    (h : createWithPrebootFiles volumes others partBytes = .ok image) :
    ∃ desc data eph, checkpointGeometry partBytes = .ok (desc, data, eph) ∧
      image.blockCount = partBytes / 4096 ∧ image.next ≤ image.blockCount ∧
      Accounts image (image.blocks (1 + desc)) := by
  obtain ⟨_, -, h⟩ := bind_eq_ok.mp h
  obtain ⟨⟨desc, data, eph⟩, hgeometry, h⟩ := bind_eq_ok.mp h
  obtain ⟨⟨blockZero, image₁⟩, h₁, h⟩ := bind_eq_ok.mp h
  obtain ⟨⟨descriptorBase, image₂⟩, h₂, h⟩ := bind_eq_ok.mp h
  obtain ⟨⟨dataBase, image₃⟩, h₃, h⟩ := bind_eq_ok.mp h
  obtain ⟨⟨ipBmBase, image₄⟩, h₄, h⟩ := bind_eq_ok.mp h
  obtain ⟨grown, hgrown, h⟩ := bind_eq_ok.mp h
  obtain ⟨⟨ipBase, pooled⟩, hpool, h⟩ := bind_eq_ok.mp h
  obtain ⟨managed, hmanaged, h⟩ := bind_eq_ok.mp h
  obtain ⟨image₅, h₅, h⟩ := bind_eq_ok.mp h
  obtain ⟨image₆, h₆, h⟩ := bind_eq_ok.mp h
  obtain ⟨image₇, h₇, h⟩ := bind_eq_ok.mp h
  obtain ⟨image₈, h₈, h₉⟩ := bind_eq_ok.mp h
  obtain ⟨rfl, rfl, -⟩ := Image.alloc_eq_ok h₁
  obtain ⟨rfl, rfl, -⟩ := Image.alloc_eq_ok h₂
  obtain ⟨rfl, rfl, -⟩ := Image.alloc_eq_ok h₃
  obtain ⟨rfl, rfl, -⟩ := Image.alloc_eq_ok h₄
  obtain ⟨rfl, rfl, hroom⟩ := Image.alloc_eq_ok hpool
  obtain ⟨hsize, hcount, hnext⟩ := hgrow _ _ hgrown
  have hdesc := checkpointGeometry_desc hgeometry
  -- The first rings start at fixed blocks, and the pool is behind all of them.
  simp only [Image.new, zero_add] at hsize hcount hnext hmanaged h₅ h₆ h₇ h₈ h₉
  rw [IP_RING_BLOCKS] at hnext
  have hwritten := written_buildSpaceman hmanaged (by simp only; omega) (by simp only; omega) rfl
  have hwritten := hwritten.write (by simp only; omega) (Nat.le_add_right ..) (by simp only; omega) h₅
  have hwritten := hwritten.write (by simp only; omega) (Nat.le_add_right ..) (by simp only; omega) h₆
  have hwritten := hwritten.write (by simp only; omega) (Nat.le_add_right ..) (by simp only; omega) h₇
  have hwritten := hwritten.write (by simp only; omega) (Nat.le_add_right ..) (by simp only; omega) h₈
  have hwritten := hwritten.write (by simp only; omega) (Nat.le_add_right ..) (by simp only; omega) h₉
  have hends := hwritten.frame
  refine ⟨desc, data, eph, hgeometry, ?_, ?_, hwritten.accounts ?_⟩
  · rw [hends]
    exact hcount
  · rw [hends]
    exact hroom
  · refine ⟨hsize, rfl, rfl, ?_, rfl, rfl, ?_, Nat.le_add_right .., ?_⟩
    · simp only [hcount]
      rfl
    · simp only
      omega
    · simp only
      exact le_trans (by omega) hroom

/-- A container of 64 MiB with nothing in its volumes. -/
def emptyContainer : Checked Image :=
  createWithPrebootFiles .ok ⟨[], [], [], []⟩ (64 * 1024 * 1024)

theorem emptyContainer_accounts : ∃ image, emptyContainer = .ok image ∧
    ∃ desc data eph, checkpointGeometry (64 * 1024 * 1024) = .ok (desc, data, eph) ∧
      image.blockCount = 64 * 1024 * 1024 / 4096 ∧ image.next ≤ image.blockCount ∧
      Accounts image (image.blocks (1 + desc)) := by
  have hgrow : Grows .ok := by
    intro image image' h
    cases h
    exact ⟨rfl, rfl, le_refl _⟩
  have hok : emptyContainer.isOk = true := by decide +kernel
  cases h : emptyContainer with
  | error fault =>
    rw [h] at hok
    cases hok
  | ok image => exact ⟨image, rfl, createWithPrebootFiles_accounts hgrow h⟩

end AppleUtils.Apfs.SpaceBuilder
