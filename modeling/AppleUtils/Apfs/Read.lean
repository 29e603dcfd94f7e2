import AppleUtils.Apfs.VerifyContainer

/-! # The reader

The reader mounts a container and opens a volume.  It finds records by a walk of the catalog that leaves
out the children the index keys rule out (`Reader.records`), and from them the extended attributes and
the data stream of a file.

The expansion of compressed files is a parameter (`Decmpfs`). -/

namespace AppleUtils.Apfs

open Bytes Checks

def MAX_TREE_NODES : ℕ := 2 ^ 16
def MAX_RECORDS : ℕ := 2 ^ 20

/-- The bytes of a text of the source. -/
def ascii (text : String) : Bytes := text.toList.map fun c => BitVec.ofNat 8 c.toNat

/-- An error of the verifier as an error of the reader. -/
def faulted {α : Type} (what : String) (x : Scan α) : Checked α :=
  x.result.mapError fun
    | .verify e => .read (.container what e)
    | stop => stop

/-! ### Mounting -/

structure Reader where
  verifier : Verifier
  xid : ℕ
  containerOmap : List OmapEntry
  volumeOids : List ℕ
  (superblockPaddr containerBytes : ℕ)

def Reader.mount (source : BlockSource) (blockSize blockCount : ℕ) : Checked Reader := do
  let v : Verifier := ⟨source, blockSize, blockCount⟩
  let zero ← faulted "the container superblock copy in block zero" (v.readChecked 0)
  let descriptorBase ← u64At zero.bytes 0x70
  let descriptorBlocks ← u32At zero.bytes 0x68
  refuseIf (descriptorBlocks = 0 ∨ descriptorBase + descriptorBlocks ≥ 2 ^ 64
    ∨ descriptorBase + descriptorBlocks > blockCount)
    (.checkpointDescriptorUnusable descriptorBase descriptorBlocks)
  let best ← faulted "the checkpoint descriptor area"
    (v.bestCheckpoint descriptorBase descriptorBlocks)
  let (xid, superblockPaddr) ← okOr best (.read (.noCheckpoint descriptorBase descriptorBlocks))
  let superblock ← faulted "the checkpoint's container superblock" (v.readChecked superblockPaddr)
  let sb := superblock.bytes
  let observedBlockCount ← u64At sb 0x28
  let observedBlockSize ← u32At sb 0x24
  refuseIf (observedBlockCount ≠ blockCount ∨ observedBlockSize ≠ blockSize)
    (.geometryMismatch superblockPaddr blockSize blockCount observedBlockSize observedBlockCount)
  let omapPaddr ← u64At sb 0xA0
  let omapTree ← faulted "the container object map" (v.readOmap omapPaddr "container object map")
  let containerOmap ← faulted "the container object map tree"
    (v.collectOmap omapTree "container object map tree")
  let maxFileSystems ← u32At sb 0xB4
  refuseIf (maxFileSystems = 0 ∨ maxFileSystems > 100) (.implausibleVolumeSlots maxFileSystems)
  let oids ← (List.range maxFileSystems).mapM fun index => u64At sb (0xB8 + index * 8)
  let containerBytes ← narrow 64 (blockCount * blockSize)
  return ⟨v, xid, containerOmap, oids.filter (· ≠ 0), superblockPaddr, containerBytes⟩

/-! ### Volumes -/

inductive ExtentSource where
  | catalog | fextTree (paddr : ℕ)
deriving DecidableEq

structure Volume where
  oid : ℕ
  name : Bytes
  role : ℕ
  (isSealed encrypted : Bool)
  fsFlags : ℕ
  (uuid volumeGroupId : Bytes)
  incompatibleFeatures : ℕ
  layout : DrecKeyLayout
  (fsTreeOid fsTreePaddr apsbPaddr : ℕ)
  omap : List OmapEntry
  (resolveXid snapMetaTreePaddr declaredSnapshots : ℕ)
  extents : ExtentSource
  headerlessCatalog : Bool

def extentSource (volume : Bytes) (isSealed : Bool) (fextTreeOid fextTreeType : ℕ)
    (omap : List OmapEntry) (resolveXid : ℕ) : Checked ExtentSource := do
  if ! isSealed then return .catalog
  refuseIf (fextTreeOid = 0) (.sealedWithoutExtentTree volume)
  if objStorage fextTreeType = OBJ_PHYSICAL then return .fextTree fextTreeOid
  let paddr ← faulted "a sealed volume's file extent tree root" (resolve omap fextTreeOid resolveXid)
  return .fextTree paddr

namespace Reader

variable (r : Reader)

def decodeVolume (bytes : Bytes) (paddr oid resolveXid : ℕ) : Checked Volume := do
  let magic ← u32At bytes 0x20
  refuseIf (magic ≠ APFS_MAGIC) (.notAVolume paddr magic)
  let incompatibleFeatures ← u64At bytes 0x38
  let omapPaddr ← u64At bytes 0x80
  let omapTree ← faulted "a volume object map" (r.verifier.readOmap omapPaddr "volume object map")
  let omap ← faulted "a volume object map tree"
    (r.verifier.collectOmap omapTree "volume object map tree")
  let fsTreeOid ← u64At bytes 0x88
  let fsTreePaddr ← faulted "a volume's filesystem tree root" (resolve omap fsTreeOid resolveXid)
  let name := volumeName (← (sliceAt bytes 0x2C0 0x100 : Checked Bytes))
  let isSealed := incompatibleFeatures.testBit 5
  let fextTreeOid ← u64At bytes 0x408
  let fextTreeType ← u32At bytes 0x410
  let extents ← extentSource name isSealed fextTreeOid fextTreeType omap resolveXid
  let fsFlags ← u64At bytes 0x108
  let uuid ← (sliceAt bytes 0xF0 16 : Checked Bytes)
  let volumeGroupId := if bytes.length ≥ 0x400 then bytes.slice 0x3F0 16 else zeros 16
  let role ← u16At bytes 0x3C4
  return {
    oid, name, role, isSealed, encrypted := ! fsFlags.testBit 0, fsFlags, uuid, volumeGroupId
    incompatibleFeatures, layout := DrecKeyLayout.of incompatibleFeatures, fsTreeOid, fsTreePaddr
    apsbPaddr := paddr, omap, resolveXid, snapMetaTreePaddr := leAt 8 bytes 0x98
    declaredSnapshots := leAt 8 bytes 0xD8, extents, headerlessCatalog := isSealed }

def openVolume (oid : ℕ) : Checked Volume := do
  let paddr ← faulted "a volume superblock's object map entry" (resolve r.containerOmap oid r.xid)
  let volume ← faulted "a volume superblock"
    (r.verifier.readExpecting paddr (some oid) TYPE_FS "volume superblock")
  refuseIf (volume.storage ≠ OBJ_VIRTUAL) (.volumeNotVirtual paddr volume.storage)
  r.decodeVolume volume.bytes paddr oid r.xid

/-! ### Records -/

def childObjectId (volume : Volume) (stored paddr : ℕ) : Checked ℕ := do
  if ! volume.headerlessCatalog then return stored
  refuseIf (stored + volume.fsTreeOid ≥ 2 ^ 64) (.treeWalkTooLong paddr MAX_TREE_NODES)
  return stored + volume.fsTreeOid

def readNode (volume : Volume) (paddr : ℕ) (expectedLevel : Option ℕ) : Checked BTreeNode := do
  let object ← faulted
    (if volume.headerlessCatalog then "a sealed volume's filesystem tree node"
      else "a filesystem tree node")
    (r.verifier.readCatalogNode paddr expectedLevel volume.headerlessCatalog)
  let node ← faulted "a filesystem tree node"
    (BTreeNode.decodeNode object r.verifier.blockSize volume.headerlessCatalog)
  match expectedLevel with
  | some level =>
    refuseIf (node.level ≠ level) (.treeLevelMismatch paddr level node.level)
    return node
  | none => return node

/-- The object and the kind of every key of a node. -/
def prefixes (node : BTreeNode) (objectId kind : ℕ) : Checked (List (ℕ × ℕ)) :=
  (List.range node.nkeys).mapM fun index => do
    let (key, _) ← faulted "a filesystem tree record" (node.entry index)
    refuseIf (key.length < 8)
      (.recordMalformed [] objectId kind "a filesystem record key is shorter than its header")
    let header ← u64At key 0
    return (objId header, recordKind header)

/-- The records found and the nodes to visit, the next one first. -/
structure RecordWalk where
  found : List (Bytes × Bytes)
  pending : List (ℕ × Option ℕ)

/-- A child is left out when its first key is past the target or its sibling's is before it. -/
def reaches (prefixes : List (ℕ × ℕ)) (target : ℕ × ℕ) (index : ℕ) : Bool :=
  (index = 0 || prefixes[index]?.all (pairLe · target))
    && (index + 1 = prefixes.length || prefixes[index + 1]?.all (pairLe target ·))

/-- One record of a node on the way to the records of `objectId` of one kind. -/
def visitRecord (volume : Volume) (objectId kind : ℕ) (node : BTreeNode)
    (prefixes : List (ℕ × ℕ)) (walk : RecordWalk) (index : ℕ) : Checked RecordWalk := do
  let (key, value) ← faulted "a filesystem tree record" (node.entry index)
  if node.isLeaf then
    if prefixes[index]? ≠ some (objectId, kind) then return walk
    refuseIf (walk.found.length ≥ MAX_RECORDS) (.tooManyRecords objectId kind MAX_RECORDS)
    return { walk with found := walk.found ++ [(key, value)] }
  else
    if ! reaches prefixes (objectId, kind) index then return walk
    refuseIf (value.length < 8)
      (.recordMalformed [] objectId kind "a filesystem tree index record has no child object id")
    refuseIf (node.level = 0) (.treeLevelMismatch node.paddr 1 0)
    let childOid ← childObjectId volume (leAt 8 value 0) node.paddr
    let child ← faulted "a filesystem tree node's object map entry"
      (resolve volume.omap childOid volume.resolveXid)
    return { walk with pending := (child, some (node.level - 1)) :: walk.pending }

/-- The walk, with the number of nodes it may still visit. -/
def recordsLoop (volume : Volume) (objectId kind : ℕ) : ℕ → RecordWalk →
    Checked (List (Bytes × Bytes))
  | 0, walk =>
    match walk.pending with
    | [] => .ok walk.found
    | (paddr, _) :: _ => .error (.read (.treeWalkTooLong paddr MAX_TREE_NODES))
  | nodes + 1, walk => do
    match walk.pending with
    | [] => return walk.found
    | (paddr, expectedLevel) :: pending =>
      let node ← r.readNode volume paddr expectedLevel
      let prefixes ← prefixes node objectId kind
      let walk ← (List.range node.nkeys).foldlM (visitRecord volume objectId kind node prefixes)
        { walk with pending }
      recordsLoop volume objectId kind nodes walk

def records (volume : Volume) (objectId kind : ℕ) : Checked (List (Bytes × Bytes)) :=
  r.recordsLoop volume objectId kind MAX_TREE_NODES ⟨[], [(volume.fsTreePaddr, none)]⟩

end Reader

/-! ### Files -/

inductive XattrData where
  | embedded (bytes : Bytes) | stream (objectId size : ℕ)

/-- The expansion of compressed bytes, given their type and the size; `none` where it fails. -/
structure Decmpfs where
  expand : Bytes → ℕ → ℕ → Option Bytes

/-- A span of a file: the logical offset, the length, the first block. -/
structure Span where
  (logical length physical : ℕ)

/-- The order of the triples. -/
def Span.le (a b : Span) : Bool :=
  a.logical < b.logical || a.logical = b.logical &&
    (a.length < b.length || a.length = b.length && a.physical ≤ b.physical)

namespace Reader

variable (r : Reader)

/-- One block of a span, into the file. -/
def readSpanBlock (span : Span) (wanted : ℕ) (out : Bytes) (index : ℕ) : Checked Bytes := do
  let paddr ← narrow 64 (span.physical + index)
  let block ← faulted "a file extent's blocks" (r.verifier.readRaw paddr)
  let take := min (wanted - index * r.verifier.blockSize) r.verifier.blockSize
  let chunk ← (sliceAt block 0 take : Checked Bytes)
  let offset := span.logical + index * r.verifier.blockSize
  panicUnless (offset + take ≤ out.length)
  return out.splice offset chunk

/-- A span, into the file; a span without a first block is a hole. -/
def readSpan (size : ℕ) (out : Bytes) (span : Span) : Checked Bytes := do
  if span.physical = 0 ∨ span.logical ≥ size then return out
  let wanted := min span.length (size - span.logical)
  let blocks := (wanted + r.verifier.blockSize - 1) / r.verifier.blockSize
  (List.range blocks).foldlM (r.readSpanBlock span wanted) out

/-- The span of a file extent record. -/
def extentSpan (objectId : ℕ) (path : Bytes) (record : Bytes × Bytes) : Checked Span := do
  let malformed := fun reason => ReadError.recordMalformed path objectId J_FILE_EXTENT reason
  let (key, value) := record
  refuseIf (key.length < 16) (malformed "the key is shorter than a file extent key")
  refuseIf (value.length < 16) (malformed "the value is shorter than a file extent value")
  return ⟨leAt 8 key 8, leAt 8 value 0 % 2 ^ 56, leAt 8 value 8⟩

def readDataStream (volume : Volume) (objectId size : ℕ) (path : Bytes) : Checked Bytes := do
  refuseIf (size > r.containerBytes) (.sizeOverflow path objectId size r.containerBytes)
  let records ← r.records volume objectId J_FILE_EXTENT
  refuseIf (records = [] ∧ size ≠ 0) (.missingExtents path objectId size)
  let spans ← records.mapM (extentSpan objectId path)
  (spans.insertionSort fun a b => a.le b).foldlM (r.readSpan size) (zeros size)

/-- The first attribute of the file with the name. -/
def xattrIn (fileId : ℕ) (name path : Bytes) : List (Bytes × Bytes) → Checked (Option XattrData)
  | [] => .ok none
  | (key, value) :: records => do
    let malformed := fun reason => ReadError.recordMalformed path fileId J_XATTR reason
    refuseIf (key.length < 10) (malformed "the key is shorter than its name length field")
    let nameLength := leAt 2 key 8
    refuseIf (nameLength = 0 ∨ 10 + nameLength > key.length)
      (malformed "the name length leaves the key")
    if key.slice 10 (nameLength - 1) ≠ name then
      xattrIn fileId name path records
    else
      refuseIf (value.length < 4) (malformed "the value is shorter than an attribute header")
      let flags := leAt 2 value 0
      let dataLength := leAt 2 value 2
      refuseIf (4 + dataLength > value.length)
        (malformed "the attribute data length leaves the value")
      let data := value.slice 4 dataLength
      if flags.testBit 0 then
        refuseIf (data.length < 48) (malformed "the attribute names a stream but is too short to")
        return some (.stream (leAt 8 data 0) (leAt 8 data 8))
      refuseIf (! flags.testBit 1) (.unsupportedXattrStorage path fileId name flags)
      return some (.embedded data)

def xattr (volume : Volume) (fileId : ℕ) (name path : Bytes) : Checked (Option XattrData) := do
  xattrIn fileId name path (← r.records volume fileId J_XATTR)

/-- The bytes of an attribute. -/
def xattrBytes (volume : Volume) (path : Bytes) : Option XattrData → Checked (Option Bytes)
  | some (.embedded bytes) => .ok (some bytes)
  | some (.stream objectId size) => do
    let bytes ← r.readDataStream volume objectId size path
    return some bytes
  | none => .ok none

/-- The compressed bytes: behind the header, or in the resource fork. -/
def compressedBytes (volume : Volume) (fileId : ℕ) (path header : Bytes) (compressionType : ℕ) : Checked Bytes :=
  if compressionType ∈ [1, 3, 7] then .ok (header.drop 16)
  else if compressionType ∈ [4, 8] then do
    let fork ← r.xattr volume fileId (ascii "com.apple.ResourceFork") path
    okOr (← r.xattrBytes volume path fork) (.read (.resourceForkMissing path fileId))
  else .error (.read (.unsupportedCompression path fileId compressionType))

def readCompressed (codec : Decmpfs) (volume : Volume) (fileId : ℕ) (path header : Bytes) :
    Checked Bytes := do
  refuseIf (header.length < 16) (.compressionHeaderTruncated path fileId header.length)
  let magic := leAt 4 header 0
  refuseIf (magic ≠ 0x636D7066) (.compressionHeaderBadMagic path fileId magic)
  let compressionType := leAt 4 header 4
  let size := leAt 8 header 8
  refuseIf (size > r.containerBytes) (.sizeOverflow path fileId size r.containerBytes)
  let stored ← r.compressedBytes volume fileId path header compressionType
  let expanded := if compressionType = 1 then some stored
    else codec.expand stored compressionType size
  let bytes ← okOr expanded (.read (.compressedStreamBroken path fileId))
  refuseIf (bytes.length ≠ size) (.compressedSizeMismatch path fileId size bytes.length)
  return bytes

end Reader

end AppleUtils.Apfs
