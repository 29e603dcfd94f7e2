import AppleUtils.Apfs.VerifySpace

/-! # Verification of a volume

`verifyVolume` reads a volume's superblock, its object map, its two physical trees and its whole
catalog.  The catalog is walked depth first from the root (`scanFsRecords`): every node is one
level below its parent, no node is reached twice, and the records of each node ascend. -/

namespace AppleUtils.Apfs

open Bytes Checks

/-! ### The seal -/

def APFS_HASH_MAX_SIZE : ℕ := 64

/-- `SEAL_HASH_LENGTHS`, by hash type. -/
def sealHashType : ℕ → Option (String × ℕ)
  | 1 => some ("sha256", 32)
  | 2 => some ("sha512_256", 32)
  | 3 => some ("sha384", 48)
  | 4 => some ("sha512", 64)
  | 5 => some ("sha3_256", 32)
  | 6 => some ("sha3_384", 48)
  | 7 => some ("sha3_512", 64)
  | 8 => some ("sha3_256_4k", 32)
  | 9 => some ("sha3_384_4k", 48)
  | 10 => some ("sha3_512_4k", 64)
  | _ => none

structure VolumeSeal where
  (oid paddr version flags : ℕ)
  broken : Bool
  (brokenXid hashType : ℕ)
  hashName : String
  rootHashOffset : ℕ
  rootHash : Bytes

def decodeVolumeSeal (volumeOid oid paddr : ℕ) (bytes : Bytes) : Checked VolumeSeal := do
  rejectIf (bytes.length < 0x38)
    (.fieldOutOfRange "the integrity metadata object length" bytes.length)
  let hashType ← u32At bytes 0x28
  let (hashName, hashLength) ←
    okOr ((sealHashType hashType).filter (·.2 ≤ APFS_HASH_MAX_SIZE))
      (.verify (.unknownSealHashType volumeOid hashType))
  let rootHashOffset ← u32At bytes 0x2C
  rejectIf (rootHashOffset + hashLength > bytes.length)
    (.sealRootHashOutOfRange paddr rootHashOffset hashLength)
  let flags ← u32At bytes 0x24
  let version ← u32At bytes 0x20
  let brokenXid ← u64At bytes 0x30
  let rootHash ← (sliceAt bytes rootHashOffset hashLength : Checked Bytes)
  return {
    oid, paddr, version, flags, broken := flags.testBit 0, brokenXid, hashType, hashName
    rootHashOffset, rootHash }

/-! ### The catalog -/

structure FsRootScan where
  recordCount : ℕ := 0
  entries : List (Bytes × ℕ) := []
  inodes : List ℕ := []
  rootDirMode : Option ℕ := none
  privateDirMode : Option ℕ := none
deriving DecidableEq

/-- One record of a catalog leaf. -/
def scanLeafRecord (volumeOid paddr : ℕ) (layout : DrecKeyLayout) (key value : Bytes)
    (scan : FsRootScan) : Checked FsRootScan := do
  let header ← u64At key 0
  let kind := recordKind header
  let objId := objId header
  let scan := { scan with recordCount := scan.recordCount + 1 }
  if kind = J_DIR_REC then
    rejectIf (value.length < 18) (.nodeMalformed paddr "directory record is truncated")
    let nameAt := layout.nameOffset
    let nameLen ← okOr (layout.nameLength key)
      (.verify (.nodeMalformed paddr "directory record key is shorter than its name length"))
    rejectIf (nameLen = 0 ∨ nameAt + nameLen > key.length)
      (.nodeMalformed paddr "directory record name length leaves the key")
    if objId = ROOT_DIR_PARENT then
      let name ← (sliceAt key nameAt (nameLen - 1) : Checked Bytes)
      let id ← u64At value 0
      return { scan with entries := scan.entries ++ [(fromUtf8Lossy name, id)] }
    else return scan
  else if kind = J_INODE then
    rejectIf (value.length < 0x5C)
      (.nodeMalformed paddr "inode record is shorter than its fixed fields")
    let mode ← u16At value 0x50
    let parent ← u64At value 0
    rejectIf (objId = ROOT_DIR_INO_NUM ∧ parent ≠ ROOT_DIR_PARENT)
      (.rootDirectoryMissing volumeOid "the root inode's parent is not the root directory parent")
    return { scan with
      rootDirMode := if objId = ROOT_DIR_INO_NUM then some mode else scan.rootDirMode
      privateDirMode := if objId = PRIV_DIR_INO_NUM then some mode else scan.privateDirMode
      inodes := scan.inodes ++ [objId] }
  else if kind = J_XATTR then
    validateXattrRecord paddr key value
    return scan
  else if kind = J_SIBLING_LINK then
    validateSiblingLinkRecord paddr key value
    return scan
  else if kind = J_CRYPTO_STATE then
    validateCryptoStateRecord paddr value
    return scan
  else return scan

/-- What the records of one node have yielded: the rank of the last key, the children, the scan. -/
structure NodeScan where
  previous : Option (List ℕ)
  descendInto : List ℕ
  scan : FsRootScan

/-- One record of a catalog node. -/
def scanRecord (volumeOid : ℕ) (layout : DrecKeyLayout) (omap : Option (List OmapEntry)) (xid : ℕ)
    (node : BTreeNode) (state : NodeScan) (index : ℕ) : Checked NodeScan := do
  let (key, value) ← node.entry index
  rejectIf (key.length < 8)
    (.nodeMalformed node.paddr "filesystem record key is shorter than its header")
  let rank := keyRank layout key
  rejectIf (state.previous.any (¬ · < rank)) (.recordsOutOfOrder node.paddr index)
  let state := { state with previous := some rank }
  if node.isLeaf then
    let scan ← scanLeafRecord volumeOid node.paddr layout key value state.scan
    return { state with scan }
  else
    rejectIf (value.length < 8)
      (.nodeMalformed node.paddr "filesystem tree index record has no child object id")
    let stored ← u64At value 0
    let child ← match omap with
      | some entries => resolve entries stored xid
      | none => pure stored
    return { state with descendInto := state.descendInto ++ [child] }

/-- The records of a catalog node: the children to descend into and the scan. -/
def scanRecords (volumeOid : ℕ) (layout : DrecKeyLayout) (omap : Option (List OmapEntry))
    (xid : ℕ) (node : BTreeNode) (scan : FsRootScan) : Checked (List ℕ × FsRootScan) := do
  let state ← (List.range node.nkeys).foldlM (scanRecord volumeOid layout omap xid node)
    ⟨none, [], scan⟩
  return (state.descendInto, state.scan)

namespace Verifier

variable (v : Verifier)

def readCatalogNode (paddr : ℕ) (expectedLevel : Option ℕ) (headerless : Bool) : Scan Object :=
  if headerless then v.readHeaderlessNode paddr
  else match expectedLevel with
    | none => v.readExpecting paddr none TYPE_BTREE "filesystem tree root"
    | some _ => v.readExpecting paddr none TYPE_BTREE_NODE "filesystem tree node"

/-- `scan_fs_records`, with the visited nodes and the scan passed along.  The depth given bounds
the levels below: a node is one level below its parent. -/
def scanFsRecords (volumeOid : ℕ) (layout : DrecKeyLayout) (omap : Option (List OmapEntry))
    (xid : ℕ) : ℕ → ℕ → Option ℕ → List ℕ × FsRootScan → Scan (List ℕ × FsRootScan)
  | 0, _, _, _ => Logged.throw .unfinished
  | depth + 1, paddr, expectedLevel, (visited, scan) => do
    rejectIf (paddr ∈ visited)
      (.nodeMalformed paddr "filesystem tree node was reached more than once")
    let object ← v.readCatalogNode paddr expectedLevel omap.isNone
    let node ← BTreeNode.decodeNode object v.blockSize omap.isNone
    rejectIf (expectedLevel.any (· ≠ node.level))
      (.nodeMalformed paddr "filesystem tree node is not one level below its parent")
    let (descendInto, scan) ← scanRecords volumeOid layout omap xid node scan
    if node.isLeaf then return (paddr :: visited, scan)
    rejectIf (node.level = 0)
      (.nodeMalformed paddr "an index node claims to be at the leaf level")
    descendInto.foldlM (fun state child =>
      scanFsRecords volumeOid layout omap xid depth child (some (node.level - 1)) state)
      (paddr :: visited, scan)

/-- Levels are 16-bit numbers. -/
def verifyFsRoot (volumeOid paddr : ℕ) (layout : DrecKeyLayout) (omap : Option (List OmapEntry))
    (xid : ℕ) : Scan FsRootScan := do
  let (_, scan) ← v.scanFsRecords volumeOid layout omap xid (2 ^ 16) paddr none ([], {})
  rejectIf (scan.rootDirMode = none)
    (.rootDirectoryMissing volumeOid "no inode record for the root directory")
  rejectIf (¬ ∃ entry ∈ scan.entries, entry.2 = ROOT_DIR_INO_NUM)
    (.rootDirectoryMissing volumeOid "no directory entry points at the root directory")
  return scan

end Verifier

/-! ### The superblock of a volume -/

structure VerifiedVolume where
  (oid paddr fsIndex : ℕ)
  name : Bytes
  role : ℕ
  uuid : Bytes
  isSealed : Bool
  (incompatibleFeatures readOnlyCompatibleFeatures reserveBlockCount quotaBlockCount fsFlags nextObjId : ℕ)
  (fsTreeOid fsTreePaddr extentrefTreePaddr snapMetaTreePaddr : ℕ)
  root : FsRootScan
  volumeSeal : Option VolumeSeal

/-- The volume name: up to the first zero byte, nothing where there is none. -/
def volumeName (field : Bytes) : Bytes :=
  fromUtf8Lossy (field.take ((field.findIdx? (· = 0)).getD 0))

namespace Verifier

variable (v : Verifier)

def readVolumeSeal (volumeOid oid paddr : ℕ) : Scan VolumeSeal := do
  let object ← v.readExpecting paddr (some oid) TYPE_INTEGRITY_META "integrity metadata"
  checkStorage object OBJ_VIRTUAL "integrity metadata storage class"
  decodeVolumeSeal volumeOid oid paddr object.bytes

/-- The seal of a volume, if it has one. -/
def readSeal (entries : List OmapEntry) (xid volumeOid oid : ℕ) : Scan (Option VolumeSeal) := do
  if oid = 0 then return none
  let paddr ← resolve entries oid xid
  let volumeSeal ← v.readVolumeSeal volumeOid oid paddr
  return some volumeSeal

/-- One of a volume's two physical trees. -/
def readPhysicalTree (paddr : ℕ) (what : String) : Scan Unit := do
  let tree ← v.readExpecting paddr (some paddr) TYPE_BTREE what
  checkStorage tree OBJ_PHYSICAL "tree storage class"

def verifyVolume (xid oid paddr : ℕ) : Scan VerifiedVolume := do
  let volume ← v.readExpecting paddr (some oid) TYPE_FS "volume superblock"
  checkStorage volume OBJ_VIRTUAL "volume storage class"
  let bytes := volume.bytes
  let magic ← u32At bytes 0x20
  rejectIf (magic ≠ APFS_MAGIC) (.badMagic paddr magic)
  let incompatibleFeatures ← u64At bytes 0x38
  let isSealed := incompatibleFeatures.testBit 5
  let volumeOmapPaddr ← u64At bytes 0x80
  let fsTreeOid ← u64At bytes 0x88
  let extentrefTreePaddr ← u64At bytes 0x90
  let snapMetaTreePaddr ← u64At bytes 0x98
  let integrityMetaOid ← u64At bytes 0x400
  let omapTree ← v.readOmap volumeOmapPaddr "volume object map"
  let entries ← v.collectOmap omapTree "volume object map tree"
  let fsTreePaddr ← resolve entries fsTreeOid xid
  let volumeSeal ← v.readSeal entries xid oid integrityMetaOid
  v.readPhysicalTree extentrefTreePaddr "extent reference tree"
  v.readPhysicalTree snapMetaTreePaddr "snapshot metadata tree"
  let root ← v.verifyFsRoot oid fsTreePaddr (DrecKeyLayout.of incompatibleFeatures)
    (if isSealed then none else some entries) xid
  let nameField ← (sliceAt bytes 0x2C0 0x100 : Checked Bytes)
  let uuid ← (sliceAt bytes 0xF0 16 : Checked Bytes)
  let fsIndex ← u32At bytes 0x24
  let role ← u16At bytes 0x3C4
  let readOnlyCompatibleFeatures ← u64At bytes 0x30
  let reserveBlockCount ← u64At bytes 0x48
  let quotaBlockCount ← u64At bytes 0x50
  let fsFlags ← u64At bytes 0x108
  let nextObjId ← u64At bytes 0xB0
  return {
    oid, paddr, fsIndex, name := volumeName nameField, role, uuid, isSealed
    incompatibleFeatures, readOnlyCompatibleFeatures, reserveBlockCount, quotaBlockCount, fsFlags
    nextObjId, fsTreeOid, fsTreePaddr, extentrefTreePaddr, snapMetaTreePaddr, root, volumeSeal }

end Verifier

end AppleUtils.Apfs
