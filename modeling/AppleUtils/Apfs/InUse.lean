import AppleUtils.Apfs.Node
import AppleUtils.Apfs.VerifyContainer

/-! # Blocks in use and the chunks that cover them

The space manager divides the container into chunks, each with an address, a number of blocks and a
bitmap.  The verifier asks that the chunks lie one behind the other (`Tile`) and that none has more
than `blocksPerChunk` blocks.  To see whether a block in use is allocated it divides the address by
`blocksPerChunk`, which finds the chunk that covers the block where all chunks before it are full.
Behind a shorter chunk it looks at another bit. -/

namespace AppleUtils.Apfs

open Bytes Checks List

variable {allocation : Allocation} {walk walk' : ChunkWalk} {paddr : ℕ} {n : ℕ}

/-! ### Where the blocks in use lie -/

/-- A block noted in use is one of the container's `n` blocks. -/
def Note.Below (n : ℕ) : Note → Prop
  | .checked => True
  | .inUse paddr _ => paddr < n

namespace Verifier

variable {v : Verifier} {object : Object}

open Logged

lemma readChecked_notes (paddr : ℕ) : Notes (Note.Below v.blockCount) (v.readChecked paddr) := by
  simp [readChecked, Note.Below]

lemma lt_of_readChecked (h : (v.readChecked paddr).result = .ok object) : paddr < v.blockCount := by
  simp only [readChecked, bind_result_ok, liftM, monadLift_result, checks, not_le] at h
  exact h.1

lemma readCheckedSized_notes (paddr blocks : ℕ) :
    Notes (Note.Below v.blockCount) (v.readCheckedSized paddr blocks) := by
  simp [readCheckedSized, Note.Below]

lemma le_of_readCheckedSized {blocks : ℕ}
    (h : (v.readCheckedSized paddr blocks).result = .ok object) : paddr + blocks ≤ v.blockCount := by
  simp only [readCheckedSized, bind_result_ok, liftM, monadLift_result, checks, not_lt] at h
  exact h.2.2.1

lemma readExpecting_notes (paddr : ℕ) (oid : Option ℕ) (kind : ℕ) (what : String) :
    Notes (Note.Below v.blockCount) (v.readExpecting paddr oid kind what) := by
  simp only [readExpecting, Notes.bind_iff, Notes.liftM, Notes.note_iff, Notes.pure,
    readChecked_notes, true_and, and_true, implies_true]
  exact fun _ h _ _ => lt_of_readChecked h

lemma noteRun_notes {blocks : ℕ} (h : paddr + blocks ≤ v.blockCount) (what : String) :
    Notes (Note.Below v.blockCount) ((List.range blocks).forM fun offset => do
      Logged.note (.inUse (← narrow 64 (paddr + offset)) what) : Scan Unit) := by
  refine Notes.forM fun offset hoffset => ?_
  have hlt := mem_range.mp hoffset
  simp only [Notes.bind_iff, Notes.liftM, Notes.note_iff, true_and]
  intro n hn
  simp only [liftM, monadLift_result, narrow_eq_ok] at hn
  show n < v.blockCount
  omega

lemma readExpectingSized_notes (paddr blocks : ℕ) (oid : Option ℕ) (kind : ℕ) (what : String) :
    Notes (Note.Below v.blockCount) (v.readExpectingSized paddr blocks oid kind what) := by
  simp only [readExpectingSized, Notes.bind_iff, Notes.liftM, Notes.pure,
    readCheckedSized_notes, true_and, and_true, implies_true]
  exact fun _ h _ _ => noteRun_notes (le_of_readCheckedSized h) what

lemma readHeaderlessNode_notes (paddr : ℕ) : Notes (Note.Below v.blockCount) (v.readHeaderlessNode paddr) := by
  simp only [readHeaderlessNode, readRaw, Notes.bind_iff, Notes.liftM, Notes.note_iff, Notes.pure, true_and, and_true,
    implies_true, bind_result_ok, liftM, monadLift_result, checks, Note.Below]
  intro _ h
  intros
  omega

lemma readOmap_notes (paddr : ℕ) (what : String) :
    Notes (Note.Below v.blockCount) (v.readOmap paddr what) := by simp [readOmap, readExpecting_notes]

lemma omapTurn_notes (what : String) (walk : OmapWalk) :
    Notes (Note.Below v.blockCount) (v.omapTurn what walk) := by
  unfold omapTurn
  split <;> simp [readExpecting_notes]

lemma collectOmap_notes (rootPaddr : ℕ) (what : String) :
    Notes (Note.Below v.blockCount) (v.collectOmap rootPaddr what) :=
  Notes.loop (omapTurn_notes what) ..

/-! The space manager. -/

lemma readBitmap_notes (bitmapAddr : ℕ) : Notes (Note.Below v.blockCount) (v.readBitmap bitmapAddr) := by
  unfold readBitmap
  split
  · simp
  · simp only [readRaw, Notes.bind_iff, Notes.liftM, Notes.note_iff, Notes.pure, true_and, and_true, implies_true,
      bind_result_ok, liftM, monadLift_result, checks, Note.Below]
    intro _ h
    omega

lemma verifyChunk_notes (blocksPerChunk : ℕ) (cib : Bytes) (walk : ChunkWalk) (slot : ℕ) :
    Notes (Note.Below v.blockCount) (v.verifyChunk blocksPerChunk cib walk slot) := by
  simp [verifyChunk, readBitmap_notes]

lemma verifyCib_notes (blocksPerChunk chunksPerCib : ℕ) (walk : ChunkWalk) (cib : ℕ × ℕ) :
    Notes (Note.Below v.blockCount) (v.verifyCib blocksPerChunk chunksPerCib walk cib) := by
  simp only [verifyCib, Notes.bind_iff, Notes.liftM, readExpecting_notes, true_and]
  intros
  exact Notes.foldlM (fun walk slot _ => verifyChunk_notes ..) _

lemma readCab_notes (sm : Bytes) (cibAddrOffset cabCount cibCount cibsPerCab : ℕ)
    (addrs : List ℕ) (cabIndex : ℕ) : Notes (Note.Below v.blockCount)
      (v.readCab sm cibAddrOffset cabCount cibCount cibsPerCab addrs cabIndex) := by
  simp [readCab, readExpecting_notes]

lemma cibAddrs_notes (sm : Bytes) (cibAddrOffset cabCount cibCount cibsPerCab : ℕ) :
    Notes (Note.Below v.blockCount) (v.cibAddrs sm cibAddrOffset cabCount cibCount cibsPerCab) := by
  unfold cibAddrs
  split
  · simp
  · simp only [Notes.bind_iff, Notes.liftM, true_and]
    intros
    exact Notes.foldlM (fun _ _ _ => readCab_notes ..) _

lemma verifySpaceman_notes (sm : Bytes) (xid : ℕ) : Notes (Note.Below v.blockCount) (v.verifySpaceman sm xid) := by
  simp only [verifySpaceman, Notes.bind_iff, Notes.liftM, Notes.pure, cibAddrs_notes,
    true_and, and_true, implies_true]
  intros
  exact Notes.foldlM (fun _ _ _ => verifyCib_notes ..) _

/-! A volume. -/

lemma readCatalogNode_notes (paddr : ℕ) (expectedLevel : Option ℕ) (headerless : Bool) :
    Notes (Note.Below v.blockCount) (v.readCatalogNode paddr expectedLevel headerless) := by
  unfold readCatalogNode
  split
  · exact readHeaderlessNode_notes paddr
  · split <;> exact readExpecting_notes ..

lemma scanFsRecords_notes (volumeOid : ℕ) (layout : DrecKeyLayout)
    (omap : Option (List OmapEntry)) (xid depth paddr : ℕ) (expectedLevel : Option ℕ)
    (state : List ℕ × FsRootScan) : Notes (Note.Below v.blockCount)
      (v.scanFsRecords volumeOid layout omap xid depth paddr expectedLevel state) := by
  induction depth generalizing paddr expectedLevel state with
  | zero => exact Notes.throw
  | succ depth ih =>
    simp only [scanFsRecords, Notes.bind_iff, Notes.liftM, readCatalogNode_notes, true_and]
    intros
    split
    · simp
    · simp only [Notes.bind_iff, Notes.liftM, true_and]
      intros
      exact Notes.foldlM (fun _ _ _ => ih ..) _

lemma verifyFsRoot_notes (volumeOid paddr : ℕ) (layout : DrecKeyLayout)
    (omap : Option (List OmapEntry)) (xid : ℕ) : Notes (Note.Below v.blockCount)
      (v.verifyFsRoot volumeOid paddr layout omap xid) := by simp [verifyFsRoot, scanFsRecords_notes]

lemma readSeal_notes (entries : List OmapEntry) (xid volumeOid oid : ℕ) :
    Notes (Note.Below v.blockCount) (v.readSeal entries xid volumeOid oid) := by
  unfold readSeal
  split <;> simp [readVolumeSeal, readExpecting_notes]

lemma verifyVolume_notes (xid oid paddr : ℕ) : Notes (Note.Below v.blockCount) (v.verifyVolume xid oid paddr) := by
  simp [verifyVolume, readPhysicalTree, readExpecting_notes, readOmap_notes, collectOmap_notes,
    readSeal_notes, verifyFsRoot_notes]

/-! The checkpoint. -/

lemma readMapping_notes (area : DataArea) (map : Bytes) (ephemeral : List EphemeralObject)
    (index : ℕ) : Notes (Note.Below v.blockCount) (v.readMapping area map ephemeral index) := by
  simp only [readMapping, Notes.bind_iff, Notes.liftM, Notes.pure, readCheckedSized_notes,
    true_and, and_true, implies_true]
  intros
  exact noteRun_notes (le_of_readCheckedSized ‹_›) _

lemma readMapBlock_notes (area : DataArea) (xid : ℕ) (ephemeral : List EphemeralObject)
    (paddr : ℕ) : Notes (Note.Below v.blockCount) (v.readMapBlock area xid ephemeral paddr) := by
  simp only [readMapBlock, Notes.bind_iff, readChecked_notes, true_and]
  intro object hobject
  split
  · simp
  · simp only [Notes.bind_iff, Notes.liftM, Notes.note_iff, true_and]
    intros
    refine ⟨lt_of_readChecked hobject, ?_⟩
    intros
    exact Notes.foldlM (fun _ _ _ => readMapping_notes ..) _

lemma readCheckpoint_notes : Notes (Note.Below v.blockCount) v.readCheckpoint := by
  simp only [readCheckpoint, Notes.bind_iff, Notes.liftM, Notes.pure, Notes.note_iff,
    readChecked_notes, true_and, and_true, implies_true]
  intro _ hzero _ _
  refine ⟨lt_of_readChecked hzero, ?_⟩
  intros
  refine ⟨lt_of_readChecked ‹_›, ?_⟩
  intros
  refine Notes.foldlM (fun _ _ _ => ?_) _
  simp [readMapBlock_notes]

lemma verifyReaper_notes (sb : Bytes) (ephemeral : List EphemeralObject) :
    Notes (Note.Below v.blockCount) (v.verifyReaper sb ephemeral) := by
  simp only [verifyReaper, Notes.bind_iff, Notes.liftM, readExpecting_notes, true_and]
  intros
  split <;> simp [readExpecting_notes]

lemma verifySpace_notes (sb : Bytes) (ephemeral : List EphemeralObject) (xid : ℕ) :
    Notes (Note.Below v.blockCount) (v.verifySpace sb ephemeral xid) := by
  simp only [verifySpace, Notes.bind_iff, Notes.liftM, Notes.pure,
    readExpectingSized_notes, verifySpaceman_notes, true_and, and_true, implies_true]
  intros
  exact Notes.forM fun oid _ => by simp [readExpecting_notes]

lemma verifyVolumes_notes (sb : Bytes) (xid : ℕ) : Notes (Note.Below v.blockCount) (v.verifyVolumes sb xid) := by
  simp only [verifyVolumes, Notes.bind_iff, Notes.liftM, readOmap_notes, collectOmap_notes, true_and]
  intros
  refine Notes.foldlM (fun volumes index _ => ?_) _
  simp only [verifyVolumeSlot, Notes.bind_iff, Notes.liftM, true_and]
  intros
  split <;> simp [verifyVolume_notes]

/-- Every block noted in use is one of the container's. -/
lemma walkContainer_notes : Notes (Note.Below v.blockCount) v.walkContainer := by
  simp [walkContainer, readCheckpoint_notes, verifyReaper_notes, verifySpace_notes, verifyVolumes_notes]

end Verifier

/-! ### Chunks -/

/-- A chunk-info record and the bitmap it names. -/
structure Chunk where
  (addr blocks : ℕ)
  bitmap : Option Bytes
deriving DecidableEq

namespace Chunk

variable (c : Chunk)

def Covers (paddr : ℕ) : Prop := c.addr ≤ paddr ∧ paddr < c.addr + c.blocks

instance (paddr : ℕ) : Decidable (c.Covers paddr) := inferInstanceAs (Decidable (_ ∧ _))

/-- The bit of a block in the bitmap; a chunk without one is free. -/
def marks (paddr : ℕ) : Bool := c.bitmap.any (bitSet · (paddr - c.addr))

end Chunk

/-- The chunks lie one behind the other from `first` to `last`. -/
def Tile : ℕ → List Chunk → ℕ → Prop
  | first, [], last => first = last
  | first, c :: chunks, last => c.addr = first ∧ Tile (first + c.blocks) chunks last

namespace Tile

variable {first middle last : ℕ} {chunks chunks' : List Chunk}

lemma append (h : Tile first chunks middle) (h' : Tile middle chunks' last) :
    Tile first (chunks ++ chunks') last := by
  induction chunks generalizing first with
  | nil =>
    obtain rfl : first = middle := h
    exact h'
  | cons c chunks ih => exact ⟨h.1, ih h.2⟩

lemma exists_covers (h : Tile first chunks last) (hfirst : first ≤ paddr) (hlast : paddr < last) :
    ∃ (k : ℕ) (c : Chunk), chunks[k]? = some c ∧ c.Covers paddr := by
  induction chunks generalizing first with
  | nil =>
    obtain rfl : first = last := h
    omega
  | cons c chunks ih =>
    obtain ⟨haddr, htail⟩ := h
    by_cases hlt : paddr < first + c.blocks
    · exact ⟨0, c, rfl, haddr ▸ hfirst, haddr ▸ hlt⟩
    · obtain ⟨k, c', hk, hc'⟩ := ih htail (by omega)
      exact ⟨k + 1, c', hk, hc'⟩

end Tile

namespace Verifier

variable (v : Verifier)

/-- The chunk-info record in a slot. -/
def chunkAt (cib : Bytes) (slot : ℕ) : Checked Chunk := do
  let entry := 0x28 + slot * CHUNK_INFO_BYTES
  let addr ← u64At cib (entry + 8)
  let blocks ← u32At cib (entry + 16)
  let bitmapAddr ← u64At cib (entry + 24)
  let bitmap ← (v.readBitmap bitmapAddr).result
  return ⟨addr, blocks, bitmap⟩

/-- The records of a chunk-info block. -/
def cibChunks (paddr : ℕ) : Checked (List Chunk) := do
  let cib ← v.source.readBlock paddr v.blockSize
  let chunks ← u32At cib 0x24
  (List.range chunks).mapM (v.chunkAt cib)

/-- The chunks of the space manager that the newest checkpoint names. -/
def chunkTable : Checked (List Chunk) := do
  let checkpoint ← v.readCheckpoint.result
  let spaceman ← findEphemeral checkpoint.ephemeral (← u64At checkpoint.sb 0x98)
  let sm ← v.readRun spaceman.paddr spaceman.blocks
  let fields ← v.spacemanFields sm
  let cibAddrs ← (v.cibAddrs sm fields.cibAddrOffset fields.cabCount fields.cibCount
    fields.cibsPerCab).result
  let chunks ← cibAddrs.mapM v.cibChunks
  return chunks.flatten

end Verifier

/-! ### The walk over the chunks -/

/-- The walk has come from one state to another over these chunks. -/
structure Walked (blocksPerChunk : ℕ) (walk : ChunkWalk) (chunks : List Chunk) (walk' : ChunkWalk) :
    Prop where
  bitmaps : walk'.bitmaps = walk.bitmaps ++ chunks.map (·.bitmap)
  tile : Tile walk.covered chunks walk'.covered
  small : ∀ c ∈ chunks, c.blocks ≤ blocksPerChunk

namespace Walked

variable {walk₁ walk₂ : ChunkWalk} {chunks chunks' : List Chunk}

lemma nil : Walked n walk [] walk := ⟨(append_nil _).symm, rfl, nofun⟩

lemma append (h : Walked n walk chunks walk₁) (h' : Walked n walk₁ chunks' walk₂) :
    Walked n walk (chunks ++ chunks') walk₂ where
  bitmaps := by rw [h'.bitmaps, h.bitmaps, map_append, append_assoc]
  tile := h.tile.append h'.tile
  small c hc := (mem_append.mp hc).elim (h.small c) (h'.small c)

end Walked

/-- A loop whose turns walk over the chunks that `f` reads has walked over all of them. -/
lemma walked_of_foldlM {γ δ : Type} {step : ChunkWalk → γ → Scan ChunkWalk}
    {f : γ → Checked δ} (g : δ → List Chunk) (hstep : ∀ walk c walk', (step walk c).result = .ok walk' →
      ∃ d, f c = .ok d ∧ Walked n walk (g d) walk') {l : List γ} (h : (l.foldlM step walk).result = .ok walk') :
    ∃ ds, l.mapM f = .ok ds ∧ Walked n walk (ds.flatMap g) walk' := by
  induction l generalizing walk with
  | nil =>
    cases h
    exact ⟨[], rfl, .nil⟩
  | cons c l ih =>
    rw [foldlM_cons, Logged.bind_result_ok] at h
    obtain ⟨walk₁, hc, hl⟩ := h
    obtain ⟨d, hf, hwalk⟩ := hstep _ _ _ hc
    obtain ⟨ds, hds, hwalk'⟩ := ih hl
    refine ⟨d :: ds, ?_, hwalk.append hwalk'⟩
    simp [mapM_cons, hf, hds]

namespace Verifier

variable {v : Verifier} {object : Object} {oid : Option ℕ} {what : String} {sm : Bytes}

open Logged

lemma readChecked_bytes (h : (v.readChecked paddr).result = .ok object) :
    v.source.readBlock paddr v.blockSize = .ok object.bytes := by
  simp only [readChecked, bind_result_ok, liftM, monadLift_result, checks, note_result, pure_result, true_and] at h
  obtain ⟨-, bytes, hbytes, -, h⟩ := h
  cases h
  exact hbytes

lemma readExpecting_bytes {kind : ℕ} (h : (v.readExpecting paddr oid kind what).result = .ok object) :
    v.source.readBlock paddr v.blockSize = .ok object.bytes := by
  simp only [readExpecting, bind_result_ok, pure_result, Except.ok.injEq] at h
  obtain ⟨object', hread, _, _, _, _, rfl⟩ := h
  exact readChecked_bytes hread

lemma verifyChunk_walked {slot : ℕ} {cib : Bytes} (h : (v.verifyChunk n cib walk slot).result = .ok walk') :
    ∃ c, v.chunkAt cib slot = .ok c ∧ Walked n walk [c] walk' := by
  simp only [verifyChunk, bind_result_ok, liftM, monadLift_result, checks, pure_result, not_lt,
    ne_eq, not_not, gt_iff_lt, narrow_eq_ok] at h
  obtain ⟨addr, haddr, blocks, hblocks, -, -, bitmapAddr, hbitmapAddr, rfl, hsmall, bitmap, hbitmap,
    free, -, -, countedFree, -, covered, ⟨-, rfl⟩, rfl⟩ := h
  refine ⟨⟨walk.covered, blocks, bitmap⟩, ?_, rfl, ⟨rfl, rfl⟩, forall_mem_singleton.mpr hsmall⟩
  simp [chunkAt, haddr, hblocks, hbitmapAddr, hbitmap]

lemma verifyCib_walked {chunksPerCib : ℕ} {cib : ℕ × ℕ}
    (h : (v.verifyCib n chunksPerCib walk cib).result = .ok walk') :
    ∃ chunks, v.cibChunks cib.1 = .ok chunks ∧ Walked n walk chunks walk' := by
  simp only [verifyCib, bind_result_ok, liftM, monadLift_result, checks] at h
  obtain ⟨object, hobject, _, _, _, -, chunks, hchunks, -, hfold⟩ := h
  obtain ⟨chunks', hchunks', hwalk⟩ :=
    walked_of_foldlM (f := v.chunkAt object.bytes) (fun c => [c])
      (fun _ _ _ h => verifyChunk_walked h) hfold
  rw [flatMap_singleton'] at hwalk
  refine ⟨chunks', bind_eq_ok.mpr ⟨_, readExpecting_bytes hobject, ?_⟩, hwalk⟩
  exact bind_eq_ok.mpr ⟨chunks, u32At_eq_ok.mpr hchunks, hchunks'⟩

/-- What the space manager's bitmaps are: those of its chunks, which make up the container. -/
structure Described (v : Verifier) (chunks : List Chunk) (allocation : Allocation) : Prop where
  perChunk : allocation.blocksPerChunk = v.blockSize * 8
  bitmaps : allocation.bitmaps = chunks.map (·.bitmap)
  tile : Tile 0 chunks v.blockCount
  small : ∀ c ∈ chunks, c.blocks ≤ v.blockSize * 8

lemma spacemanFields_perChunk {fields : SpacemanFields}
    (h : v.spacemanFields sm = .ok fields) : fields.blocksPerChunk = v.blockSize * 8 := by
  simp only [spacemanFields, returns, checks, not_not] at h
  obtain ⟨_, -, -, perChunk, -, hperChunk, h⟩ := h
  rw [← hperChunk]
  obtain ⟨_, -, _, -, -, _, -, -, _, -, -, _, -, _, -, _, -, _, -, _, -, _, -, -, h⟩ := h
  obtain ⟨_, -, _, -, _, -, _, -, _, -, -, -, rfl⟩ := h
  rfl

lemma verifySpaceman_described {xid : ℕ} (h : (v.verifySpaceman sm xid).result = .ok allocation) :
    ∃ fields cibAddrs chunks, v.spacemanFields sm = .ok fields
      ∧ (v.cibAddrs sm fields.cibAddrOffset fields.cabCount fields.cibCount fields.cibsPerCab).result = .ok cibAddrs
      ∧ cibAddrs.mapM v.cibChunks = .ok chunks ∧ Described v chunks.flatten allocation := by
  simp only [verifySpaceman, bind_result_ok, liftM, monadLift_result, checks, pure_result, ne_eq, not_not] at h
  obtain ⟨fields, hfields, _, -, _, -, _, -, _, -, -, cibAddrs, haddrs, walk, hwalk, -, hcovered, -, _, -, rfl⟩ := h
  obtain ⟨chunks, hchunks, hwalked⟩ := walked_of_foldlM
    (f := fun cib : ℕ × ℕ => v.cibChunks cib.1) id (fun _ _ _ h => verifyCib_walked h) hwalk
  have hperChunk := spacemanFields_perChunk hfields
  refine ⟨fields, cibAddrs, chunks, hfields, haddrs, ?_, hperChunk, ?_, ?_, ?_⟩
  · rw [← hchunks, ← Function.comp_def, ← mapM_map, zipIdx_map_fst]
  · simpa using hwalked.bitmaps
  · rw [← hcovered, ← flatMap_id]
    exact hwalked.tile
  · rw [← hperChunk, ← flatMap_id]
    exact hwalked.small

/-- In a chunk that starts at its number times the blocks of a chunk, the verifier's lookup finds the
chunk's own bit. -/
lemma Described.marks_of_allocated {chunks : List Chunk}
    (h : Described v chunks allocation) {k : ℕ} {c : Chunk} (hk : chunks[k]? = some c)
    (hc : c.Covers paddr) (haddr : c.addr = k * (v.blockSize * 8))
    (hallocated : allocation.isAllocated paddr = .ok true) : c.marks paddr := by
  have hsmall := h.small c (mem_of_getElem? hk)
  obtain ⟨hle, hlt⟩ := hc
  have hdiv : paddr / (v.blockSize * 8) = k := by
    refine Nat.div_eq_of_lt_le (haddr ▸ hle) ?_
    rw [Nat.succ_mul]
    omega
  have hmod : paddr % (v.blockSize * 8) = paddr - c.addr := by rw [Nat.mod_eq_sub_div_mul, hdiv, haddr]
  rw [Allocation.isAllocated, h.perChunk, h.bitmaps, hdiv, hmod, List.getElem?_map, hk] at hallocated
  cases hbitmap : c.bitmap with
  | none => simp [hbitmap] at hallocated
  | some bitmap =>
    simp only [Option.map_some, hbitmap, bitAt, bind_eq_ok, pure_eq_ok] at hallocated
    obtain ⟨_, -, hbit⟩ := hallocated
    simpa [Chunk.marks, hbitmap] using hbit

lemma readExpectingSized_bytes {blocks kind : ℕ}
    (h : (v.readExpectingSized paddr blocks oid kind what).result = .ok object) :
    v.readRun paddr blocks = .ok object.bytes := by
  simp only [readExpectingSized, readCheckedSized, bind_result_ok, liftM, monadLift_result, checks, note_result,
    pure_result, true_and] at h
  obtain ⟨_, ⟨-, -, -, bytes, hbytes, -, rfl⟩, -, -, rfl⟩ := h
  exact hbytes

/-- The chunks are found by reading alone, and the verifier's bitmaps are theirs. -/
lemma walkContainer_described {checkpoint : Checkpoint}
    {volumes : List VerifiedVolume} (h : v.walkContainer.result = .ok (checkpoint, allocation, volumes)) :
    ∃ chunks, v.chunkTable = .ok chunks ∧ Described v chunks allocation := by
  simp only [walkContainer, bind_result_ok, pure_result, Except.ok.injEq, Prod.mk.injEq] at h
  obtain ⟨_, hcheckpoint, _, -, _, hspace, _, -, _, -, rfl, rfl, rfl⟩ := h
  simp only [verifySpace, bind_result_ok, liftM, monadLift_result, pure_result, Except.ok.injEq] at hspace
  obtain ⟨oid, hoid, spaceman, hspaceman, sm, hsm, _, hallocation, _, -, rfl⟩ := hspace
  obtain ⟨fields, cibAddrs, chunks, hfields, haddrs, hchunks, hdescribed⟩ :=
    verifySpaceman_described hallocation
  refine ⟨chunks.flatten, ?_, hdescribed⟩
  simp only [chunkTable, bind_eq_ok]
  exact ⟨_, hcheckpoint, oid, hoid, spaceman, hspaceman, _, readExpectingSized_bytes hsm, fields,
    hfields, cibAddrs, haddrs, chunks, hchunks, rfl⟩

end Verifier

/-! ### The blocks in use and the bitmaps -/

lemma mem_sortedBlocks {paddrs : List ℕ} : paddr ∈ sortedBlocks paddrs ↔ paddr ∈ paddrs := by
  rw [sortedBlocks, mem_dedup, mem_insertionSort]

lemma mem_inUse {log : List Note} : (∃ what, (paddr, what) ∈ inUse log) ↔ ∃ what, Note.inUse paddr what ∈ log := by
  induction log with
  | nil => simp [inUse]
  | cons note log ih => cases note <;> simp [inUse, ih, exists_or]

/-- An accepted container: its blocks in use are its own and were found allocated by the
verifier's lookup. -/
lemma verifyContainer_ok {source : BlockSource} {container : VerifiedContainer}
    (h : verifyContainer source = .ok container) : ∃ chunks allocation,
      (⟨source, container.blockSize, container.blockCount⟩ : Verifier).chunkTable = .ok chunks
      ∧ Verifier.Described ⟨source, container.blockSize, container.blockCount⟩ chunks allocation
      ∧ ∀ paddr ∈ container.blocksInUse, paddr < container.blockCount ∧ allocation.isAllocated paddr = .ok true := by
  simp only [verifyContainer, bind_eq_ok, pure_eq_ok] at h
  obtain ⟨⟨blockSize, blockCount⟩, -, ⟨⟨checkpoint, allocation, volumes⟩, log⟩, hwalk, _, hall, uuid, -,
    maxFileSystems, -, rfl⟩ := h
  obtain ⟨hwalk, hlog⟩ := Logged.listen_result_ok.mp hwalk
  obtain ⟨chunks, hchunks, hdescribed⟩ := Verifier.walkContainer_described hwalk
  refine ⟨chunks, allocation, hchunks, hdescribed, fun paddr hpaddr => ?_⟩
  obtain ⟨⟨_, what⟩, hmem, rfl⟩ := mem_map.mp (mem_sortedBlocks.mp hpaddr)
  obtain ⟨what', hnote⟩ := mem_inUse.mp ⟨what, hmem⟩
  have hbelow := (Verifier.walkContainer_notes (v := ⟨source, blockSize, blockCount⟩)).all
    (.inUse _ what') (hlog ▸ hnote)
  refine ⟨hbelow, ?_⟩
  have hallocated := forM_eq_ok.mp hall _ hmem
  simp only [bind_eq_ok, rejectIf_eq_ok, not_not] at hallocated
  obtain ⟨_, hallocated, rfl⟩ := hallocated
  exact hallocated

/-- In an accepted container in which every chunk with blocks starts at its number times the blocks of
a chunk, every block in use is marked in the bitmap of the chunk that covers it. -/
theorem in_use_marked {source : BlockSource} {container : VerifiedContainer}
    (h : verifyContainer source = .ok container) :
    ∃ chunks,
      (⟨source, container.blockSize, container.blockCount⟩ : Verifier).chunkTable = .ok chunks ∧
      ((∀ (k : ℕ) (c : Chunk), chunks[k]? = some c → 0 < c.blocks →
          c.addr = k * (container.blockSize * 8)) →
        ∀ paddr ∈ container.blocksInUse, ∃ c ∈ chunks, c.Covers paddr ∧ c.marks paddr) := by
  obtain ⟨chunks, allocation, hchunks, hdescribed, hinUse⟩ := verifyContainer_ok h
  refine ⟨chunks, hchunks, fun hplaced paddr hpaddr => ?_⟩
  obtain ⟨hlt, hallocated⟩ := hinUse paddr hpaddr
  obtain ⟨k, c, hk, hcovers⟩ := hdescribed.tile.exists_covers (Nat.zero_le _) hlt
  have hblocks : 0 < c.blocks := by
    unfold Chunk.Covers at hcovers
    omega
  exact ⟨c, mem_of_getElem? hk, hcovers,
    hdescribed.marks_of_allocated hk hcovers (hplaced k c hk hblocks) hallocated⟩

/-! ### A container of two chunks -/

/-- The source that `sliceBlocks` is over blocks of `n` bytes laid end to end. -/
def blockList (n : ℕ) (blocks : List Bytes) : BlockSource where
  readBlock index len := do
    rejectIf (index * n ≥ 2 ^ 64) (.blockOutOfRange index)
    let _ ← narrow 64 (index * n + n)
    rejectIf (index ≥ blocks.length) (.blockOutOfRange index)
    panicUnless (len = n)
    return blocks.getD index []

lemma length_flatten_blocks {blocks : List Bytes} (h : ∀ b ∈ blocks, b.length = n) :
    blocks.flatten.length = blocks.length * n := by simp [length_flatten, map_eq_replicate_iff.mpr h]

lemma slice_flatten_blocks {index : ℕ} {blocks : List Bytes} (h : ∀ b ∈ blocks, b.length = n)
    (hindex : index < blocks.length) : slice blocks.flatten (index * n) n = blocks.getD index [] := by
  induction blocks generalizing index with
  | nil => simp at hindex
  | cons b blocks ih =>
    obtain ⟨hb, hblocks⟩ := forall_mem_cons.mp h
    cases index with
    | zero => simp [slice, ← hb]
    | succ index =>
      rw [flatten_cons, slice_append_right (by rw [hb, Nat.succ_mul]; omega), hb, Nat.succ_mul, Nat.add_sub_cancel]
      exact ih hblocks (Nat.lt_of_succ_lt_succ hindex)

lemma sliceBlocks_flatten {blocks : List Bytes} (hn : 0 < n)
    (h : ∀ b ∈ blocks, b.length = n) : sliceBlocks blocks.flatten n = blockList n blocks := by
  refine congrArg BlockSource.mk (funext₂ fun index len => ?_)
  have hend : index * n + n > blocks.flatten.length ↔ index ≥ blocks.length := by
    rw [length_flatten_blocks h, ← Nat.succ_mul, gt_iff_lt, Nat.mul_lt_mul_right hn]
    omega
  refine bind_congr fun _ => ?_
  cases hlast : narrow 64 (index * n + n) with
  | error e => rfl
  | ok last =>
    obtain ⟨-, rfl⟩ := narrow_eq_ok.mp hlast
    show (rejectIf (index * n + n > blocks.flatten.length) _ >>= _)
      = (rejectIf (index ≥ blocks.length) _ >>= _)
    by_cases hindex : index < blocks.length
    · simp only [hend, slice_flatten_blocks h hindex]
    · rw [rejectIf, rejectIf, stopIf, stopIf, failIf, failIf, if_pos (hend.mpr (not_lt.mp hindex)),
        if_pos (not_lt.mp hindex)]
      rfl

namespace TwoChunks

/-! A container of 21 blocks without volumes: the descriptor area in blocks 1 to 8, the data area in
blocks 9 to 16, then the chunk-info block, the bitmap, the object map and its tree.  All 21 bits of
the bitmap are set.  It belongs to a first chunk of `first` blocks; the rest is a second chunk without
a bitmap. -/

/-- An object of transaction 1. -/
def object (oid oType subtype : ℕ) (fields : List (ℕ × Bytes)) : Bytes :=
  fletcher64Seal (patch (zeros 4096)
    ([u64 0x08 oid, u64 0x10 1, u32 0x18 oType, u32 0x1C subtype] ++ fields))

def superblock : Bytes :=
  object 1 (OBJ_EPHEMERAL + TYPE_NX_SUPERBLOCK) 0
    [u32 0x20 NX_MAGIC, u32 0x24 4096, u64 0x28 21, u32 0x68 8, u32 0x6C 8, u64 0x70 1, u64 0x78 9,
      u32 0x80 2, u32 0x84 2, u32 0x88 0, u32 0x8C 2, u32 0x90 0, u32 0x94 2, u64 0x98 0x400,
      u64 0xA0 19, u64 0xA8 0x401, u32 0xB4 1, u64 0x520 (1 + 4 * 2 ^ 16 + 4 * 2 ^ 32)]

/-- A mapping of the checkpoint map, at an offset. -/
def mapping (offset oType oid paddr : ℕ) : List (ℕ × Bytes) :=
  [u32 offset oType, u32 (offset + 8) 4096, u64 (offset + 24) oid, u64 (offset + 32) paddr]

def checkpointMap : Bytes :=
  object 1 (OBJ_PHYSICAL + TYPE_CHECKPOINT_MAP) 0 ([u32 0x20 1, u32 0x24 2]
    ++ mapping 0x28 (OBJ_EPHEMERAL + TYPE_NX_REAPER) 0x401 9
    ++ mapping 0x50 (OBJ_EPHEMERAL + TYPE_SPACEMAN) 0x400 10)

def reaper : Bytes := object 0x401 (OBJ_EPHEMERAL + TYPE_NX_REAPER) 0 []

def spaceman (first : ℕ) : Bytes :=
  object 0x400 (OBJ_EPHEMERAL + TYPE_SPACEMAN) 0
    [u32 0x20 4096, u32 0x24 32768, u32 0x28 126, u64 0x30 21, u64 0x38 2, u32 0x40 1,
      u64 0x48 (21 - first), u32 0x50 2544, u32 0xA0 1, u32 0xA4 1, u16 0x140 0xFFFF,
      u32 0x144 2520, u32 0x148 2528, u32 0x14C 2536, u32 0x154 2520, u16 2536 0xFFFF, u64 2544 17]

def cib (first : ℕ) : Bytes :=
  object 17 (OBJ_PHYSICAL + TYPE_SPACEMAN_CIB) 0
    [u32 0x24 2, u32 0x38 first, u64 0x40 18, u64 0x50 first, u32 0x58 (21 - first), u32 0x5C (21 - first)]

def bitmap : Bytes := patch (zeros 4096) [u32 0 (2 ^ 21 - 1)]

def omap : Bytes :=
  object 19 (OBJ_PHYSICAL + TYPE_OMAP) 0 [u32 0x28 (OBJ_PHYSICAL + TYPE_BTREE), u64 0x30 20]

def omapTree : Bytes := object 20 (OBJ_PHYSICAL + TYPE_BTREE) TYPE_OMAP [u16 0x20 7]

def blocks (first : ℕ) : List Bytes :=
  [superblock, checkpointMap, superblock] ++ List.replicate 6 (zeros 4096)
    ++ [reaper, spaceman first] ++ List.replicate 6 (zeros 4096)
    ++ [cib first, bitmap, omap, omapTree]

def image (first : ℕ) : Bytes := (blocks first).flatten

lemma length_object {oid oType subtype : ℕ} {fields : List (ℕ × Bytes)} (h : Within 4096 fields) :
    (object oid oType subtype fields).length = 4096 := by
  have hpatch : (patch (zeros 4096) ([u64 0x08 oid, u64 0x10 1, u32 0x18 oType, u32 0x1C subtype]
      ++ fields)).length = 4096 := by
    rw [length_patch, length_zeros]
    simpa using h
  rw [object, length_fletcher64Seal (by omega), hpatch]

lemma length_blocks (first : ℕ) : ∀ b ∈ blocks first, b.length = 4096 := by
  have hbitmap : bitmap.length = 4096 := by
    rw [bitmap, length_patch, length_zeros]
    simp
  simp [blocks, hbitmap, superblock, checkpointMap, mapping, reaper, spaceman, cib, omap, omapTree, length_object]

/-- The blocks in use, and the address, the length and the presence of a bitmap of each chunk, if the
container is accepted. -/
def accepted (source : BlockSource) : Checked (List ℕ × List (ℕ × ℕ × Bool)) := do
  let container ← verifyContainer source
  let chunks ← Verifier.chunkTable ⟨source, container.blockSize, container.blockCount⟩
  return (container.blocksInUse, chunks.map fun c => (c.addr, c.blocks, c.bitmap.isSome))

lemma accepted_image {first : ℕ} (h : first = 19 ∨ first = 21) :
    accepted (sliceBlocks (image first) 4096) = .ok ([0, 1, 2, 9, 10, 17, 18, 19, 20],
      [(0, first, true), (first, 21 - first, false)]) := by
  rw [image, sliceBlocks_flatten (by decide) (length_blocks first)]
  obtain rfl | rfl := h <;> decide +kernel

/-- What the container is accepted with. -/
lemma verify_image {first : ℕ} (h : first = 19 ∨ first = 21) :
    ∃ container chunks, verifyContainer (sliceBlocks (image first) 4096) = .ok container
      ∧ Verifier.chunkTable ⟨sliceBlocks (image first) 4096, container.blockSize,
          container.blockCount⟩ = .ok chunks ∧ 20 ∈ container.blocksInUse
      ∧ ∃ c₀ c₁, chunks = [c₀, c₁] ∧ (c₀.addr = 0 ∧ c₀.blocks = first)
          ∧ c₁.addr = first ∧ c₁.blocks = 21 - first ∧ c₁.bitmap = none := by
  have haccepted := accepted_image h
  simp only [accepted, returns, Prod.mk.injEq] at haccepted
  obtain ⟨container, hcontainer, chunks, hchunks, hused, htable⟩ := haccepted
  refine ⟨container, chunks, hcontainer, hchunks, by rw [hused]; decide, ?_⟩
  obtain ⟨c₀, rest, rfl, h₀, hrest⟩ := map_eq_cons_iff.mp htable
  obtain ⟨c₁, rest, rfl, h₁, hrest⟩ := map_eq_cons_iff.mp hrest
  obtain rfl := map_eq_nil_iff.mp hrest
  simp only [Prod.mk.injEq, Option.isSome_eq_false_iff, Option.isNone_iff_eq_none] at h₀ h₁
  exact ⟨c₀, c₁, rfl, ⟨h₀.1, h₀.2.1⟩, h₁⟩

end TwoChunks

/-- Where all blocks are in one chunk, those in use are marked. -/
theorem in_use_marked_one_chunk :
    ∃ container chunks, verifyContainer (sliceBlocks (TwoChunks.image 21) 4096) = .ok container
      ∧ Verifier.chunkTable ⟨sliceBlocks (TwoChunks.image 21) 4096, container.blockSize,
          container.blockCount⟩ = .ok chunks
      ∧ ∀ paddr ∈ container.blocksInUse, ∃ c ∈ chunks, c.Covers paddr ∧ c.marks paddr := by
  obtain ⟨container, chunks, hcontainer, hchunks, -, c₀, c₁, rfl, ⟨haddr₀, -⟩, haddr₁, hblocks₁, -⟩ :=
    TwoChunks.verify_image (.inr rfl)
  obtain ⟨chunks, hchunks', hmarked⟩ := in_use_marked hcontainer
  cases hchunks.symm.trans hchunks'
  refine ⟨container, _, hcontainer, hchunks, hmarked fun k c hk hpos => ?_⟩
  -- the first chunk starts at zero and the second has no blocks
  rcases k with _ | _ | k
  · cases hk
    omega
  · cases hk
    omega
  · simp at hk

/-- An accepted container in which block 20, the tree of the object map, is in use and lies in a
chunk that is free. -/
theorem free_block_in_use :
    ∃ container chunks, verifyContainer (sliceBlocks (TwoChunks.image 19) 4096) = .ok container
      ∧ Verifier.chunkTable ⟨sliceBlocks (TwoChunks.image 19) 4096, container.blockSize,
          container.blockCount⟩ = .ok chunks ∧ 20 ∈ container.blocksInUse ∧ (∃ c ∈ chunks, c.Covers 20)
      ∧ ¬ ∃ c ∈ chunks, c.Covers 20 ∧ c.marks 20 := by
  obtain ⟨container, chunks, hcontainer, hchunks, hused, c₀, c₁, rfl, ⟨haddr₀, hblocks₀⟩, haddr₁,
    hblocks₁, hbitmap⟩ := TwoChunks.verify_image (.inl rfl)
  have hcovers₀ : ¬ c₀.Covers 20 := by
    unfold Chunk.Covers
    omega
  have hcovers₁ : c₁.Covers 20 := by
    unfold Chunk.Covers
    omega
  have hmarks₁ : c₁.marks 20 = false := by simp [Chunk.marks, hbitmap]
  exact ⟨container, _, hcontainer, hchunks, hused, ⟨c₁, by simp, hcovers₁⟩, by
    simp [hcovers₀, hmarks₁]⟩

end AppleUtils.Apfs
