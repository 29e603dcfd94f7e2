import AppleUtils.Apfs.Fletcher
import AppleUtils.Lib.Checks
import AppleUtils.Lib.Logged

/-! # Objects and B-tree nodes as the verifier reads them

A block is a byte string.  Reads at an offset are checked: past the end of the block the code
panics, which is an outcome of its own beside the errors of the verifier, the reader and the
writers (`Stop`).  Arithmetic is that
of a checked build, so a sum that leaves its type panics too (`narrow`).

`BTreeNode.decode` reads a node's header, `BTreeNode.entry` its records. -/

namespace AppleUtils.Apfs

open Bytes Checks

/-! ### Errors -/

inductive VerifyError where
  | blockOutOfRange (index : ℕ) | badMagic (paddr observed : ℕ) | badChecksum (paddr : ℕ)
  | unsupportedBlockSize (block_size : ℕ) | implausibleBlockCount (block_count : ℕ)
  | objectMismatch (paddr : ℕ) (field : String) (expected observed : ℕ) | noCheckpoint
  | unmappedEphemeralOid (oid : ℕ) | mappingOutsideDataArea (oid paddr : ℕ)
  | regionOutOfBounds (what : String) (first count : ℕ)
  | chunkFreeCountMismatch (chunk_addr recorded counted : ℕ) | chunkCoverage (covered block_count : ℕ)
  | freeCountMismatch (recorded counted : ℕ) | blockNotAllocated (paddr : ℕ) (what : String)
  | ringBroken (reason : String) | reapListBroken (reason : String)
  | nodeMalformed (paddr : ℕ) (reason : String) | unmappedVirtualOid (oid : ℕ)
  | recordsOutOfOrder (paddr index : ℕ) | rootDirectoryMissing (volume : ℕ) (reason : String)
  | fieldOutOfRange (what : String) (observed : ℕ) | unknownSealHashType (volume hash_type : ℕ)
  | sealRootHashOutOfRange (paddr offset length : ℕ) | fieldMismatch (what : String) (expected observed : ℕ)
deriving DecidableEq

/-- `ApfsReadError`, without the cases of the extractor; the errors of the codecs are one case. -/
inductive ReadError where
  | imageTooSmall (length needed : ℕ) | notAContainer (observed : ℕ) | unsupportedBlockSize (block_size : ℕ)
  | implausibleBlockCount (block_count : ℕ) | imageShorterThanContainer (image_bytes container_bytes : ℕ)
  | checkpointDescriptorUnusable (first count : ℕ) | noCheckpoint (first count : ℕ)
  | geometryMismatch (paddr expected_block_size expected_block_count observed_block_size
      observed_block_count : ℕ)
  | implausibleVolumeSlots (max_file_systems : ℕ) | notAVolume (paddr observed : ℕ)
  | volumeNotVirtual (paddr storage : ℕ) | noVolumes | noWalkableVolume (path : Bytes) (isSealed : ℕ)
  | container (what : String) (source : VerifyError) | pathNotAbsolute (path : Bytes)
  | pathNamesNoFile (path : Bytes) | pathLeavesRoot (path : Bytes)
  | pathTooDeep (path : Bytes) (components : ℕ)
  | componentNotFound (path component : Bytes) (parent_id : ℕ) (volume : Bytes)
  | notADirectory (path component : Bytes) (dirent_type : ℕ) | noInode (path : Bytes) (file_id : ℕ)
  | notARegularFile (path : Bytes) (file_id mode : ℕ)
  | recordMalformed (path : Bytes) (object_id kind : ℕ) (reason : String)
  | tooManyRecords (object_id kind limit : ℕ) | treeWalkTooLong (paddr limit : ℕ)
  | treeLevelMismatch (paddr expected observed : ℕ) | noDataStream (path : Bytes) (file_id extents : ℕ)
  | missingExtents (path : Bytes) (object_id size : ℕ)
  | sizeOverflow (path : Bytes) (object_id size limit : ℕ)
  | compressionHeaderMissing (path : Bytes) (file_id : ℕ)
  | compressionHeaderTruncated (path : Bytes) (file_id length : ℕ)
  | compressionHeaderBadMagic (path : Bytes) (file_id observed : ℕ)
  | unsupportedCompression (path : Bytes) (file_id compression_type : ℕ)
  | resourceForkMissing (path : Bytes) (file_id : ℕ) | compressedStreamBroken (path : Bytes) (file_id : ℕ)
  | compressedSizeMismatch (path : Bytes) (file_id declared produced : ℕ)
  | unsupportedXattrStorage (path : Bytes) (file_id : ℕ) (name : Bytes) (flags : ℕ)
  | sealedWithoutExtentTree (volume : Bytes)
  | snapshotNotFound (volume wanted : Bytes) (available : List Bytes)
  | snapshotWithoutSuperblock (volume snapshot : Bytes)
deriving DecidableEq

inductive DiscError where
  | io (error : String) | outOfRange (paddr : ℕ) | blockLength (expected actual : ℕ)
deriving DecidableEq

inductive ObjectWriteError where
  | disc (error : DiscError) | bodyTooLarge (block_size body_len : ℕ)
deriving DecidableEq

inductive CheckpointError where
  | disc (error : DiscError) | write (error : ObjectWriteError) | malformed (reason : String)
  | notInPublishedCheckpoint (oid : ℕ) | multiBlockEphemeralObject (oid size : ℕ) | ringFull
deriving DecidableEq

/-- The failures of the loader that `kernel_checks` transcribes. -/
inductive LoadFailure where
  | descriptorWindowTooShort (descriptor_len : ℕ) | mappedAddress (oid wanted got : ℕ)
  | mappingSize (oid size : ℕ) | dataWindowOverflow (needed data_len : ℕ) | objectType (oid wanted got : ℕ)
  | objectSubtype (oid wanted got : ℕ) | objectOid (wanted got : ℕ) | objectXid (oid wanted got : ℕ)
  | mapBlockOid (wanted got : ℕ) | mapBlockType (wanted got : ℕ) | mapBlockSubtype (got : ℕ)
  | mapBlockXid (wanted got : ℕ) | mapBlockLastFlag (is_last flag : Bool) | mapBlockCount (count max : ℕ)
deriving DecidableEq

/-! ### How a computation stops -/

inductive Stop where
  | verify (error : VerifyError) | read (error : ReadError) | checkpoint (error : CheckpointError)
  | load (failure : LoadFailure)
  /-- The text of an error of the writers, and the value printed with it. -/
  | refused (message : String) (argument : Bytes) | panic
  /-- A loop of the model has used up its turns. -/
  | unfinished
deriving DecidableEq

abbrev Checked := Except Stop

instance : Panics Stop := ⟨.panic⟩

def stopIf (c : Prop) [Decidable c] (stop : Stop) : Checked Unit := failIf c stop

/-- `return Err(e)` of the verifier. -/
def rejectIf (c : Prop) [Decidable c] (e : VerifyError) : Checked Unit := stopIf c (.verify e)

/-- `return Err(e)` of the reader. -/
def refuseIf (c : Prop) [Decidable c] (e : ReadError) : Checked Unit := stopIf c (.read e)

/-- `return Err(message)` of the writers. -/
def bailIf (c : Prop) [Decidable c] (message : String) : Checked Unit :=
  stopIf c (.refused message [])

/-- The code panics unless `c`. -/
def panicUnless (c : Prop) [Decidable c] : Checked Unit := stopIf (¬ c) .panic

/-- A sum or product that has to fit `w` bits. -/
def narrow (w n : ℕ) : Checked ℕ := if n < 2 ^ w then .ok n else .error .panic

/-- `ok_or`. -/
def okOr {α : Type} (x : Option α) (stop : Stop) : Checked α :=
  match x with
  | some a => .ok a
  | none => .error stop

/-- The little-endian number in the `n` bytes at `i`. -/
def numberAt (n : ℕ) (b : Bytes) (i : ℕ) : Checked ℕ :=
  if i + n ≤ b.length then .ok (leAt n b i) else .error .panic

def u16At (b : Bytes) (i : ℕ) : Checked ℕ := numberAt 2 b i

def u32At (b : Bytes) (i : ℕ) : Checked ℕ := numberAt 4 b i

def u64At (b : Bytes) (i : ℕ) : Checked ℕ := numberAt 8 b i

/-! The value of each, as an equivalence. -/

section

variable {α : Type} {c : Prop} [Decidable c] {u : Unit} {b bs : Bytes} {i n m w : ℕ} {stop : Stop}

@[simp] lemma exists_unit {P : Unit → Prop} : (∃ u, P u) ↔ P () :=
  ⟨fun ⟨_, h⟩ => h, fun h => ⟨(), h⟩⟩

@[simp] lemma stopIf_eq_ok : stopIf c stop = .ok u ↔ ¬ c := failIf_eq_ok

@[simp] lemma rejectIf_eq_ok {e : VerifyError} : rejectIf c e = .ok u ↔ ¬ c := stopIf_eq_ok

@[simp] lemma refuseIf_eq_ok {e : ReadError} : refuseIf c e = .ok u ↔ ¬ c := stopIf_eq_ok

@[simp] lemma bailIf_eq_ok {message : String} : bailIf c message = .ok u ↔ ¬ c := stopIf_eq_ok

@[simp] lemma panicUnless_eq_ok : panicUnless c = .ok u ↔ c := by simp [panicUnless]

@[simp] lemma narrow_eq_ok : narrow w n = .ok m ↔ n < 2 ^ w ∧ n = m := by
  unfold narrow
  split <;> simp [*]

@[simp] lemma okOr_eq_ok {x : Option α} {a : α} : okOr x stop = .ok a ↔ x = some a := by
  cases x <;> simp [okOr]

@[simp] lemma numberAt_eq_ok : numberAt n b i = .ok m ↔ i + n ≤ b.length ∧ leAt n b i = m := by
  unfold numberAt
  split <;> simp [*]

@[simp] lemma u16At_eq_ok : u16At b i = .ok m ↔ i + 2 ≤ b.length ∧ leAt 2 b i = m :=
  numberAt_eq_ok

@[simp] lemma u32At_eq_ok : u32At b i = .ok m ↔ i + 4 ≤ b.length ∧ leAt 4 b i = m :=
  numberAt_eq_ok

@[simp] lemma u64At_eq_ok : u64At b i = .ok m ↔ i + 8 ≤ b.length ∧ leAt 8 b i = m :=
  numberAt_eq_ok

/-- When the checks return, for `simp`. -/
lemma checks : (∀ P : Unit → Prop, (∃ u, P u) ↔ P ()) ∧
    (∀ (c : Prop) [Decidable c] e u, rejectIf c e = .ok u ↔ ¬ c) ∧
    (∀ (c : Prop) [Decidable c] e u, bailIf c e = .ok u ↔ ¬ c) ∧
    (∀ (c : Prop) [Decidable c] u, panicUnless c = .ok u ↔ c) ∧
    (∀ b i m, u16At b i = .ok m ↔ i + 2 ≤ b.length ∧ leAt 2 b i = m) ∧
    (∀ b i m, u32At b i = .ok m ↔ i + 4 ≤ b.length ∧ leAt 4 b i = m) ∧
    (∀ b i m, u64At b i = .ok m ↔ i + 8 ≤ b.length ∧ leAt 8 b i = m) ∧
    ∀ {α : Type} (a a' : α), (.ok a : Checked α) = .ok a' ↔ a = a' := by simp

lemma u32At_of_le (h : i + 4 ≤ b.length) : u32At b i = .ok (leAt 4 b i) :=
  u32At_eq_ok.mpr ⟨h, rfl⟩

lemma u64At_of_le (h : i + 8 ≤ b.length) : u64At b i = .ok (leAt 8 b i) :=
  u64At_eq_ok.mpr ⟨h, rfl⟩

lemma forM_eq_ok {f : α → Checked Unit} {l : List α} : l.forM f = .ok u ↔ ∀ a ∈ l, f a = .ok () := by
  induction l with
  | nil => exact iff_of_true rfl nofun
  | cons a l ih =>
    rw [List.forM, bind_eq_ok, List.forall_mem_cons]
    exact ⟨fun ⟨_, ha, hl⟩ => ⟨ha, ih.mp hl⟩, fun ⟨ha, hl⟩ => ⟨_, ha, ih.mpr hl⟩⟩

end

/-! ### Constants -/

def NX_MAGIC : ℕ := 0x4253584E
def APFS_MAGIC : ℕ := 0x42535041

def OBJ_VIRTUAL : ℕ := 0x00000000
def OBJ_EPHEMERAL : ℕ := 0x80000000
def OBJ_PHYSICAL : ℕ := 0x40000000

def TYPE_NX_SUPERBLOCK : ℕ := 0x01
def TYPE_BTREE : ℕ := 0x02
def TYPE_BTREE_NODE : ℕ := 0x03
def TYPE_SPACEMAN : ℕ := 0x05
def TYPE_SPACEMAN_CAB : ℕ := 0x06
def TYPE_SPACEMAN_CIB : ℕ := 0x07
def TYPE_OMAP : ℕ := 0x0B
def TYPE_CHECKPOINT_MAP : ℕ := 0x0C
def TYPE_FS : ℕ := 0x0D
def TYPE_NX_REAPER : ℕ := 0x11
def TYPE_NX_REAP_LIST : ℕ := 0x12
def TYPE_INTEGRITY_META : ℕ := 0x1E

/-- The object type in a type word, `& OBJ_TYPE_MASK`. -/
def objType (word : ℕ) : ℕ := word % 2 ^ 16

/-- The storage class in a type word, `& OBJ_STORAGE_MASK`. -/
def objStorage (word : ℕ) : ℕ := word / 2 ^ 30 % 4 * 2 ^ 30

def BTREE_INFO_BYTES : ℕ := 40
def BTNODE_TOC_BASE : ℕ := 56
def BTOFF_INVALID : ℕ := 0xFFFF

/-- `flags & BTNODE_ROOT != 0`. -/
def btnodeRoot (flags : ℕ) : Bool := flags.testBit 0
def btnodeLeaf (flags : ℕ) : Bool := flags.testBit 1
def btnodeFixedKvSize (flags : ℕ) : Bool := flags.testBit 2
def btnodeNoheader (flags : ℕ) : Bool := flags.testBit 4

/-! ### Objects -/

/-- A block and its address. -/
structure Object where
  paddr : ℕ
  bytes : Bytes

namespace Object

variable (o : Object)

def oid : ℕ := leAt 8 o.bytes 0x08
def xid : ℕ := leAt 8 o.bytes 0x10
def oType : ℕ := leAt 4 o.bytes 0x18
def kind : ℕ := objType o.oType
def storage : ℕ := objStorage o.oType
def subtype : ℕ := leAt 4 o.bytes 0x1C

end Object

/-! ### B-tree nodes -/

/-- The room behind the values of a root. -/
def infoBytes (root : Bool) : ℕ := if root then BTREE_INFO_BYTES else 0

/-- The bytes an entry of the table of contents takes. -/
def tocStride (fixed : Bool) : ℕ := if fixed then 4 else 8

structure BTreeNode where
  paddr : ℕ
  bytes : Bytes
  (flags level nkeys keyBase valueEnd toc : ℕ)
deriving DecidableEq

namespace BTreeNode

def decodeNode (object : Object) (blockSize : ℕ) (headerlessPermitted : Bool) :
    Checked BTreeNode := do
  let bytes := object.bytes
  let paddr := object.paddr
  let flags ← u16At bytes 0x20
  rejectIf (btnodeNoheader flags ∧ ¬ headerlessPermitted)
    (.nodeMalformed paddr "headerless nodes belong to sealed volumes")
  let level ← u16At bytes 0x22
  let nkeys ← u32At bytes 0x24
  let tocOff ← u16At bytes 0x28
  let tocLen ← u16At bytes 0x2A
  let toc := BTNODE_TOC_BASE + tocOff
  let keyBase := toc + tocLen
  let valueEnd ← minus blockSize (infoBytes (btnodeRoot flags))
  rejectIf (keyBase > valueEnd ∨ valueEnd > blockSize)
    (.nodeMalformed paddr "table of contents leaves no room for keys and values")
  rejectIf (nkeys * tocStride (btnodeFixedKvSize flags) > tocLen)
    (.nodeMalformed paddr "more keys than the table of contents holds")
  return ⟨paddr, bytes, flags, level, nkeys, keyBase, valueEnd, toc⟩

def decode (object : Object) (blockSize : ℕ) : Checked BTreeNode :=
  decodeNode object blockSize false

def isLeaf (node : BTreeNode) : Bool := btnodeLeaf node.flags

/-- The record at the offsets of a table entry; without a length it runs to the end of the value
area. -/
def entryAt (node : BTreeNode) (keyOff : ℕ) (keyLen : Option ℕ) (valueOff : ℕ)
    (valueLen : Option ℕ) : Checked (Bytes × Bytes) := do
  let keyAt := node.keyBase + keyOff
  rejectIf (keyAt ≥ node.valueEnd) (.nodeMalformed node.paddr "key starts past the value area")
  let keyEnd := match keyLen with
    | some len => keyAt + len
    | none => node.valueEnd
  rejectIf (keyEnd > node.valueEnd)
    (.nodeMalformed node.paddr "key runs past the value area")
  rejectIf (node.valueEnd < valueOff ∨ node.valueEnd - valueOff < node.keyBase)
    (.nodeMalformed node.paddr "value offset leaves the node")
  let valueAt := node.valueEnd - valueOff
  let valueEnd := match valueLen with
    | some len => valueAt + len
    | none => node.valueEnd
  rejectIf (valueEnd > node.valueEnd)
    (.nodeMalformed node.paddr "value runs past the end of the node")
  let key ← sliceAt node.bytes keyAt (keyEnd - keyAt)
  let value ← sliceAt node.bytes valueAt (valueEnd - valueAt)
  return (key, value)

def entry (node : BTreeNode) (index : ℕ) : Checked (Bytes × Bytes) := do
  if btnodeFixedKvSize node.flags then
    let slot := node.toc + index * 4
    let keyOff ← u16At node.bytes slot
    let valueOff ← u16At node.bytes (slot + 2)
    node.entryAt keyOff none valueOff none
  else
    let slot := node.toc + index * 8
    let keyOff ← u16At node.bytes slot
    let keyLen ← u16At node.bytes (slot + 2)
    let valueOff ← u16At node.bytes (slot + 4)
    let valueLen ← u16At node.bytes (slot + 6)
    node.entryAt keyOff (some keyLen) valueOff (some valueLen)

end BTreeNode

end AppleUtils.Apfs
