import AppleUtils.Lib.Ends
import AppleUtils.Lib.Slices
import Mathlib.Data.Finset.Card

/-! # Reading files of an EFI file system

`read_efi_files` takes a FAT16 or FAT32 image: the fields of the boot sector (`parseLayout`), then, for
each path, one directory after the other (`lookupPath`) and the clusters of the file
(`clusterChainBytes`).  An index out of range is a `panic`; a loop that has no turn left is
`unfinished`.

`parse_layout` compares the length of the image with the number of sectors and nothing else of the
geometry: neither that the table of clusters is inside the image nor that it has an entry for each
cluster. -/

namespace AppleUtils.Fat32

open Bytes Checks

variable {container : Bytes}

abbrev Text := List Char

inductive Stop where
  | panic | unfinished | refused (message : String)
deriving DecidableEq

abbrev Checked := Except Stop

instance : Panics Stop := ⟨.panic⟩

def refuse {α : Type} (message : String) : Checked α := .error (.refused message)

def refuseIf (c : Prop) [Decidable c] (message : String) : Checked Unit := failIf c (.refused message)

/-- `uN::from_le_bytes` of `bytes[i..i + n]`. -/
def le (n : ℕ) (b : Bytes) (i : ℕ) : Checked ℕ := leVal <$> sliceAt b i n

/-! ### Paths -/

def isControl (c : Char) : Bool := c.toNat < 0x20 ∨ 0x7F ≤ c.toNat ∧ c.toNat < 0xA0

def badPart (part : Text) : Bool :=
  part = [] ∨ part = ['.'] ∨ part = ['.', '.'] ∨ part.getLast? = some ' ' ∨ part.getLast? = some '.' ∨
    part.any fun c => isControl c ∨ c ∈ ['\\', ':', '*', '?', '"', '<', '>', '|']

/-- `validate_efi_files` of the names, with the lower case of the standard library. -/
def validateEfiFiles (toLowercase : Text → Text) : List Text → List Text → Checked Unit
  | _, [] => .ok ()
  | names, name :: rest =>
    if name = [] ∨ (name.splitOn '/').any badPart then
      refuse ("Invalid EFI file path: " ++ String.ofList name)
    else if toLowercase name ∈ names then refuse ("Duplicate EFI file path: " ++ String.ofList name)
    else validateEfiFiles toLowercase (toLowercase name :: names) rest

/-! ### The boot sector -/

inductive FatType where
  | fat16 | fat32
deriving DecidableEq

structure Layout where
  fatType : FatType
  (bytesPerSector sectorsPerCluster reservedSectors numFats rootEntryCount totalSectors fatSizeSectors : ℕ)
deriving DecidableEq

namespace Layout

variable (l : Layout)

def rootDirSectors : ℕ := (l.rootEntryCount * 32 + (l.bytesPerSector - 1)) / l.bytesPerSector

def firstFatSector : ℕ := l.reservedSectors

def firstRootDirSector : ℕ := l.firstFatSector + l.numFats * l.fatSizeSectors

def firstDataSector : ℕ := l.firstRootDirSector + l.rootDirSectors

def bytesPerCluster : ℕ := l.bytesPerSector * l.sectorsPerCluster

def clusterOffset (cluster : ℕ) : ℕ :=
  (l.firstDataSector + (cluster - 2) * l.sectorsPerCluster) * l.bytesPerSector

def dataSectors : ℕ := l.totalSectors - l.firstDataSector

def maxClusters : ℕ := l.dataSectors / l.sectorsPerCluster

def fatRegionLen : ℕ := l.fatSizeSectors * l.bytesPerSector

end Layout

def fatEntrySize : FatType → ℕ
  | .fat16 => 2
  | .fat32 => 4

def fatIsEoc (fatType : FatType) (value : ℕ) : Bool :=
  match fatType with
  | .fat16 => value ≥ 0xFFF8
  | .fat32 => value ≥ 0x0FFFFFF8

def fatGet (fat : Bytes) (index : ℕ) (fatType : FatType) : Checked ℕ :=
  match fatType with
  | .fat16 => le 2 fat (index * fatEntrySize .fat16)
  | .fat32 => (· % 2 ^ 28) <$> le 4 fat (index * fatEntrySize .fat32)

def validateEfiGeometry (partBytes sectorSize : ℕ) : Checked Unit :=
  refuseIf (sectorSize ∉ [512, 1024, 2048, 4096] ∨ partBytes = 0 ∨ partBytes % sectorSize ≠ 0)
    "EFI size must be a nonzero multiple of a supported FAT sector size"

def efiSectorSize (container : Bytes) : Checked ℕ := do
  refuseIf (container.length < 512 ∨ container.slice 510 2 ≠ [0x55, 0xaa])
    "EFI filesystem has no valid FAT boot sector"
  let sectorSize ← le 2 container 11
  validateEfiGeometry container.length sectorSize
  pure sectorSize

/-- The kind of the table, its size and the first cluster of the root directory. -/
def fatSize (container : Bytes) (fat16Sz : ℕ) : Checked (FatType × ℕ × ℕ) :=
  if fat16Sz ≠ 0 then .ok (.fat16, fat16Sz, 0)
  else do
    let fat32Sz ← le 4 container 36
    refuseIf (fat32Sz = 0) "EFI filesystem BPB has no FAT size in either field"
    let rc ← le 4 container 44
    refuseIf (rc < 2) "EFI filesystem has an invalid FAT32 root cluster"
    pure (.fat32, fat32Sz, rc)

/-- The product with the sector size has no overflow: the factors are below `2 ^ 32` and `2 ^ 16`. -/
def parseLayout (container : Bytes) : Checked (Layout × ℕ) := do
  let sectorSize ← efiSectorSize container
  refuseIf (container.length < 90) "EFI filesystem BPB is truncated"
  let spc ← le 1 container 13
  refuseIf (spc = 0) "EFI filesystem has an invalid sectors-per-cluster value"
  let reserved ← le 2 container 14
  refuseIf (reserved = 0) "EFI filesystem has zero reserved sectors"
  let numFats ← le 1 container 16
  refuseIf (numFats = 0) "EFI filesystem reports zero FAT copies"
  let rootEntryCount ← le 2 container 17
  let tot16 ← le 2 container 19
  let fat16Sz ← le 2 container 22
  let tot32 ← le 4 container 32
  let totalSectors := if tot32 ≠ 0 then tot32 else tot16
  refuseIf (totalSectors = 0) "EFI filesystem reports zero total sectors"
  let (fatType, size, rootCluster) ← fatSize container fat16Sz
  refuseIf (fatType = .fat32 ∧ rootEntryCount ≠ 0)
    "EFI FAT32 filesystem must have a zero root entry count"
  refuseIf (totalSectors * sectorSize ≠ container.length)
    "EFI filesystem BPB total sectors does not match the image length"
  pure ({ fatType, bytesPerSector := sectorSize, sectorsPerCluster := spc, reservedSectors := reserved,
          numFats, rootEntryCount, totalSectors, fatSizeSectors := size }, rootCluster)

/-! ### Directories -/

structure DirEntry where
  name : Text
  isDir : Bool
  (cluster size : ℕ)

/-- White space of Unicode. -/
def isWhitespace (c : Char) : Bool :=
  c.toNat ∈ [0x20, 0x85, 0xA0, 0x1680, 0x2028, 0x2029, 0x202F, 0x205F, 0x3000] ∨
    0x09 ≤ c.toNat ∧ c.toNat ≤ 0x0D ∨ 0x2000 ≤ c.toNat ∧ c.toNat ≤ 0x200A

def trimEnd (t : Text) : Text := (t.reverse.dropWhile isWhitespace).reverse

/-- `from_utf8`, or no text. -/
def fromUtf8 (b : Bytes) : Text :=
  ((String.fromUTF8? ⟨(b.map fun x => UInt8.ofBitVec x).toArray⟩).getD "").toList

def decodeShortName (short : Bytes) : Text :=
  let base := trimEnd (fromUtf8 (short.slice 0 8))
  let ext := trimEnd (fromUtf8 (short.slice 8 3))
  if ext = [] then base else base ++ '.' :: ext

def isSurrogate (u : ℕ) : Bool := 0xD800 ≤ u ∧ u < 0xE000

/-- `from_utf16_lossy`: a surrogate that is not half of a pair is replaced. -/
def fromUtf16Lossy : List ℕ → Text
  | [] => []
  | [u] => [if isSurrogate u then Char.ofNat 0xFFFD else Char.ofNat u]
  | u :: v :: rest =>
    if 0xD800 ≤ u ∧ u < 0xDC00 ∧ 0xDC00 ≤ v ∧ v < 0xE000 then
      Char.ofNat (0x10000 + (u - 0xD800) * 0x400 + (v - 0xDC00)) :: fromUtf16Lossy rest
    else (if isSurrogate u then Char.ofNat 0xFFFD else Char.ofNat u) :: fromUtf16Lossy (v :: rest)

def lfnChecksum (short : Bytes) : Byte := short.foldl (fun sum b => sum.rotateRight 1 + b) 0

/-- A part of a long name: the number, the checksum, the characters. -/
structure LfnPart where
  (seq checksum : Byte)
  chars : List ℕ

def LfnPart.of (raw : Bytes) : LfnPart where
  seq := raw.getD 0 0 &&& 0xBF
  checksum := raw.getD 13 0
  chars := (List.range 5).map (fun j => leAt 2 raw (1 + j * 2)) ++
    (List.range 6).map (fun j => leAt 2 raw (14 + j * 2)) ++
    (List.range 2).map fun j => leAt 2 raw (28 + j * 2)

def entryName (lfnParts : List LfnPart) (short : Bytes) : Text :=
  if lfnParts ≠ [] ∧ lfnParts.all fun part => part.checksum = lfnChecksum short then
    fromUtf16Lossy ((lfnParts.mergeSort fun x y => x.seq ≤ y.seq).flatMap fun part =>
      part.chars.takeWhile (· ≠ 0))
  else decodeShortName short

/-- `parse_dir_region`; each entry has its 32 bytes, so no index is out of range. -/
def parseDirRegion (lfnParts : List LfnPart) (region : Bytes) : List DirEntry :=
  if _ : 32 ≤ region.length then
    let raw := region.take 32
    let attr := raw.getD 11 0
    if raw.getD 0 0 = 0x00 then []
    else if raw.getD 0 0 = 0xE5 then parseDirRegion [] (region.drop 32)
    else if attr = 0x0F then parseDirRegion (lfnParts ++ [LfnPart.of raw]) (region.drop 32)
    else if attr &&& 0x08 ≠ 0 ∧ attr &&& 0x10 = 0 then parseDirRegion [] (region.drop 32)
    else
      let name := entryName lfnParts (Bytes.slice raw 0 11)
      if name = ['.'] ∨ name = ['.', '.'] then parseDirRegion [] (region.drop 32)
      else
        { name, isDir := attr &&& 0x10 ≠ 0, cluster := leAt 2 raw 20 * 2 ^ 16 + leAt 2 raw 26,
          size := leAt 4 raw 28 } :: parseDirRegion [] (region.drop 32)
  else []
termination_by region.length
decreasing_by all_goals (rw [List.length_drop]; omega)

/-! ### Clusters -/

structure Reader where
  image : Bytes
  layout : Layout
  rootCluster : ℕ

namespace Reader

variable (r : Reader)

def fatSlice : Checked Bytes :=
  sliceAt r.image (r.layout.firstFatSector * r.layout.bytesPerSector) r.layout.fatRegionLen

/-- The loop of `cluster_chain_bytes`. -/
def chainLoop (fat : Bytes) (sizeHint : Option ℕ) : ℕ → List ℕ → Bytes → ℕ → Checked Bytes
  | 0, _, _, _ => .error .unfinished
  | turns + 1, visited, out, cluster =>
    if cluster < 2 ∨ fatIsEoc r.layout.fatType cluster then .ok out
    else if cluster ∈ visited then refuse "FAT cluster chain contains a loop"
    else if cluster > r.layout.maxClusters + 1 then
      refuse "FAT cluster chain references an out-of-range cluster"
    else if r.layout.clusterOffset cluster + r.layout.bytesPerCluster > r.image.length then
      refuse "FAT cluster chain references data outside the image"
    else do
      let data ← sliceAt r.image (r.layout.clusterOffset cluster) r.layout.bytesPerCluster
      if sizeHint.any fun sz => decide ((out ++ data).length ≥ sz) then pure (out ++ data)
      else
        let next ← fatGet fat cluster r.layout.fatType
        chainLoop fat sizeHint turns (cluster :: visited) (out ++ data) next

/-- A cluster is visited once, so there are at most as many turns as clusters, and one to stop. -/
def clusterChainBytes (cluster : ℕ) (sizeHint : Option ℕ) : Checked Bytes :=
  if cluster = 0 then .ok []
  else do
    let fat ← r.fatSlice
    let out ← r.chainLoop fat sizeHint (r.layout.maxClusters + 3) [] [] cluster
    pure (match sizeHint with
      | some sz => out.take sz
      | none => out)

def rootRegionBytes : Checked Bytes :=
  match r.layout.fatType with
  | .fat16 =>
    let start := r.layout.firstRootDirSector * r.layout.bytesPerSector
    let len := r.layout.rootDirSectors * r.layout.bytesPerSector
    if start + len > r.image.length then refuse "Legacy FAT16 root directory extends past the image"
    else sliceAt r.image start len
  | .fat32 => r.clusterChainBytes r.rootCluster none

end Reader

def eqIgnoreAsciiCase (s t : Text) : Bool := s.map Char.toLower = t.map Char.toLower

/-- The loop of `lookup_path` over the components that are left. -/
def lookupFrom (r : Reader) (path : Text) : List Text → List DirEntry → Checked DirEntry
  | [], _ => refuse ("EFI file not found: " ++ String.ofList path)
  | comp :: rest, entries =>
    match entries.find? fun e => eqIgnoreAsciiCase e.name comp with
    | none => refuse ("EFI file not found: " ++ String.ofList path)
    | some found =>
      if rest = [] then .ok found
      else if ¬ found.isDir then
        refuse ("EFI path component is not a directory: " ++ String.ofList path)
      else do
        let region ← r.clusterChainBytes found.cluster none
        lookupFrom r path rest (parseDirRegion [] region)

def lookupPath (r : Reader) (path : Text) : Checked DirEntry := do
  let region ← r.rootRegionBytes
  lookupFrom r path (path.splitOn '/') (parseDirRegion [] region)

def readPath (r : Reader) (path : Text) : Checked Bytes := do
  let found ← lookupPath r path
  refuseIf found.isDir ("EFI path is a directory: " ++ String.ofList path)
  r.clusterChainBytes found.cluster (some found.size)

def readEfiFiles (toLowercase : Text → Text) (container : Bytes) (paths : List Text) :
    Checked (List Bytes) := do
  validateEfiFiles toLowercase [] paths
  let (layout, rootCluster) ← parseLayout container
  paths.mapM (readPath { image := container, layout, rootCluster })

/-! ### What the boot sector says -/

def sectorSize (container : Bytes) : ℕ := leAt 2 container 11

def totalSectors (container : Bytes) : ℕ :=
  if leAt 4 container 32 ≠ 0 then leAt 4 container 32 else leAt 2 container 19

/-- The layout in the fields of the boot sector, and the first cluster of the root directory. -/
def bpb (container : Bytes) : Layout × ℕ :=
  ({ fatType := if leAt 2 container 22 ≠ 0 then .fat16 else .fat32
     bytesPerSector := sectorSize container
     sectorsPerCluster := leAt 1 container 13
     reservedSectors := leAt 2 container 14
     numFats := leAt 1 container 16
     rootEntryCount := leAt 2 container 17
     totalSectors := totalSectors container
     fatSizeSectors := if leAt 2 container 22 ≠ 0 then leAt 2 container 22 else leAt 4 container 36 },
   if leAt 2 container 22 ≠ 0 then 0 else leAt 4 container 44)

/-- What `parse_layout` checks. -/
def Accepted (container : Bytes) : Prop :=
  (512 ≤ container.length ∧ container.slice 510 2 = [0x55, 0xaa]) ∧
    (sectorSize container ∈ [512, 1024, 2048, 4096] ∧ container.length % sectorSize container = 0) ∧
    leAt 1 container 13 ≠ 0 ∧ leAt 2 container 14 ≠ 0 ∧ leAt 1 container 16 ≠ 0 ∧
    totalSectors container ≠ 0 ∧
    (leAt 2 container 22 = 0 →
      leAt 4 container 36 ≠ 0 ∧ 2 ≤ leAt 4 container 44 ∧ leAt 2 container 17 = 0) ∧
    totalSectors container * sectorSize container = container.length

instance (container : Bytes) : Decidable (Accepted container) := by
  unfold Accepted
  infer_instance

/-- The table of clusters and the root directory are inside the image, and the table has an entry for
each cluster. -/
def Layout.Fits (l : Layout) (rootCluster : ℕ) : Prop :=
  l.firstDataSector ≤ l.totalSectors ∧ (l.fatType = .fat32 → rootCluster ≤ l.maxClusters + 1) ∧
    (l.maxClusters + 2) * fatEntrySize l.fatType ≤ l.fatRegionLen

instance (l : Layout) (rootCluster : ℕ) : Decidable (l.Fits rootCluster) := by
  unfold Layout.Fits
  infer_instance

/-! ### Computations that return -/

/-- The errors that are returned. -/
def Stop.IsRefusal : Stop → Prop
  | .refused _ => True
  | _ => False

/-- The computation returns a value or an error; it does not panic and does not run on. -/
def Returns {α : Type} (x : Checked α) : Prop := Ends Stop.IsRefusal x fun _ => True

section rules

variable {α : Type} {b : Bytes} {i n : ℕ} {Q : α → Prop}

lemma ends_refuse (message : String) : Ends Stop.IsRefusal (refuse message : Checked α) Q := trivial

lemma ends_refuseIf {c : Prop} [Decidable c] {message : String} {Q : Unit → Prop} :
    Ends Stop.IsRefusal (refuseIf c message) Q ↔ (¬ c → Q ()) := by
  unfold refuseIf failIf
  split <;> simp [Stop.IsRefusal, *]

lemma sliceAt_of_le (h : i + n ≤ b.length) : (sliceAt b i n : Checked Bytes) = .ok (b.slice i n) := if_pos h

lemma le_eq (h : i + n ≤ b.length) : le n b i = .ok (leAt n b i) := by
  rw [le, sliceAt_of_le h]
  rfl

end rules

lemma validateEfiFiles_returns (toLowercase : Text → Text) (names paths : List Text) :
    Returns (validateEfiFiles toLowercase names paths) := by
  induction paths generalizing names with
  | nil => trivial
  | cons name rest ih =>
    rw [validateEfiFiles]
    split_ifs
    · exact ends_refuse _
    · exact ends_refuse _
    · exact ih _

lemma efiSectorSize_ends (container : Bytes) : Ends Stop.IsRefusal (efiSectorSize container) fun s =>
    s = sectorSize container ∧ (512 ≤ container.length ∧ container.slice 510 2 = [0x55, 0xaa]) ∧
      sectorSize container ∈ [512, 1024, 2048, 4096] ∧ container.length % sectorSize container = 0 := by
  rw [efiSectorSize, Ends.bind_iff, ends_refuseIf, not_or, not_lt, not_not]
  rintro ⟨hlen, hsig⟩
  rw [le_eq (by omega), Ends.bind_iff, Ends.ok_iff, Ends.bind_iff, validateEfiGeometry, ends_refuseIf,
    not_or, not_or, not_not, not_not]
  rintro ⟨hs, -, hmod⟩
  exact ⟨rfl, ⟨hlen, hsig⟩, hs, hmod⟩

lemma parseLayout_ends (container : Bytes) : Ends Stop.IsRefusal (parseLayout container) fun r =>
    Accepted container ∧ r = bpb container := by
  rw [parseLayout, Ends.bind_iff]
  refine (efiSectorSize_ends container).conseq ?_
  rintro _ ⟨rfl, ⟨hlen, hsig⟩, hs⟩
  simp (disch := omega) only [le_eq, Ends.bind_iff, Ends.ok_iff, ends_refuseIf, fatSize]
  intro _ hspc hreserved hfats htotal
  by_cases h16 : leAt 2 container 22 = 0
  · rw [if_neg (by simp [h16])]
    simp only [Ends.bind_iff, Ends.ok_iff, Ends.pure_iff, ends_refuseIf]
    intro hsize hroot hcount hfit
    have hcount' : leAt 2 container 17 = 0 := by simpa using hcount
    refine ⟨⟨⟨hlen, hsig⟩, hs, hspc, hreserved, hfats, htotal, fun _ => ⟨hsize, by omega, hcount'⟩,
      not_not.mp hfit⟩, ?_⟩
    simp [bpb, h16, totalSectors]
  · rw [if_pos h16]
    simp only [Ends.ok_iff, Ends.pure_iff]
    intro _ hfit
    refine ⟨⟨⟨hlen, hsig⟩, hs, hspc, hreserved, hfats, htotal, fun h => absurd h h16, not_not.mp hfit⟩, ?_⟩
    simp [bpb, h16, totalSectors]

lemma refuseIf_neg {c : Prop} [Decidable c] {message : String} (h : ¬ c) : refuseIf c message = .ok () :=
  failIf_eq_ok.mpr h

lemma efiSectorSize_eq (h : Accepted container) : efiSectorSize container = .ok (sectorSize container) := by
  obtain ⟨⟨hlen, hsig⟩, ⟨hs, hmod⟩, -⟩ := h
  rw [efiSectorSize, bind_ok (refuseIf_neg (by simp [hsig]; omega)), bind_ok (le_eq (by omega)),
    validateEfiGeometry, bind_ok (refuseIf_neg ?_)]
  · rfl
  · rw [not_or, not_or, not_not, not_not]
    exact ⟨hs, by omega, hmod⟩

lemma fatSize_eq (h : Accepted container) : fatSize container (leAt 2 container 22) =
    .ok ((bpb container).1.fatType, (bpb container).1.fatSizeSectors, (bpb container).2) := by
  obtain ⟨⟨hlen, -⟩, -, -, -, -, -, h32, -⟩ := h
  by_cases h16 : leAt 2 container 22 = 0
  · obtain ⟨hsize, hroot, -⟩ := h32 h16
    rw [fatSize, if_neg (by simp [h16]), bind_ok (le_eq (by omega)), bind_ok (refuseIf_neg hsize),
      bind_ok (le_eq (by omega)), bind_ok (refuseIf_neg (by omega))]
    simp [bpb, h16, pure, Except.pure]
  · rw [fatSize, if_pos h16]
    simp [bpb, h16]

lemma parseLayout_eq (h : Accepted container) : parseLayout container = .ok (bpb container) := by
  have hsector := efiSectorSize_eq h
  have hfat := fatSize_eq h
  obtain ⟨⟨hlen, -⟩, -, hspc, hreserved, hfats, htotal, h32, hfit⟩ := h
  have hcount : ¬ ((bpb container).1.fatType = .fat32 ∧ leAt 2 container 17 ≠ 0) := by
    rintro ⟨htype, hcount⟩
    by_cases h16 : leAt 2 container 22 = 0
    · exact hcount (h32 h16).2.2
    · simp [bpb, h16] at htype
  rw [parseLayout, bind_ok hsector, bind_ok (refuseIf_neg (by omega)), bind_ok (le_eq (by omega)),
    bind_ok (refuseIf_neg hspc), bind_ok (le_eq (by omega)), bind_ok (refuseIf_neg hreserved),
    bind_ok (le_eq (by omega)), bind_ok (refuseIf_neg hfats), bind_ok (le_eq (by omega)),
    bind_ok (le_eq (by omega)), bind_ok (le_eq (by omega)), bind_ok (le_eq (by omega))]
  rw [totalSectors] at htotal hfit
  simp only []
  rw [bind_ok (refuseIf_neg htotal), bind_ok hfat]
  simp only []
  rw [bind_ok (refuseIf_neg hcount), bind_ok (refuseIf_neg (not_not.mpr hfit))]
  rfl

/-! ### Chains of clusters -/

lemma fatGet_returns {fat : Bytes} {fatType : FatType} {index : ℕ}
    (h : (index + 1) * fatEntrySize fatType ≤ fat.length) :
    Ends Stop.IsRefusal (fatGet fat index fatType) fun _ => True := by
  rw [Nat.succ_mul] at h
  cases fatType with
  | fat16 =>
    have h' : index * fatEntrySize .fat16 + 2 ≤ fat.length := h
    rw [fatGet, le_eq h']
    trivial
  | fat32 =>
    have h' : index * fatEntrySize .fat32 + 4 ≤ fat.length := h
    rw [fatGet, le_eq h']
    trivial

namespace Reader

variable {r : Reader}

/-- Along the loop the clusters visited are different and have entries in the table, so there is always
a turn left. -/
lemma chainLoop_returns {fat : Bytes} {sizeHint : Option ℕ}
    (hfat : (r.layout.maxClusters + 2) * fatEntrySize r.layout.fatType ≤ fat.length) {turns : ℕ}
    {visited : List ℕ} {out : Bytes} {cluster : ℕ} (hnodup : visited.Nodup)
    (hvisited : ∀ c ∈ visited, c < r.layout.maxClusters + 2)
    (hturns : r.layout.maxClusters + 3 ≤ visited.length + turns) :
    Returns (r.chainLoop fat sizeHint turns visited out cluster) := by
  induction turns generalizing visited out cluster with
  | zero =>
    have hsub : visited ⊆ List.range (r.layout.maxClusters + 2) :=
      fun c hc => List.mem_range.mpr (hvisited c hc)
    have hcard := (hnodup.subperm hsub).length_le
    rw [List.length_range] at hcard
    omega
  | succ turns ih =>
    rw [chainLoop]
    split_ifs with hend hseen hrange hdata
    · trivial
    · exact ends_refuse _
    · exact ends_refuse _
    · exact ends_refuse _
    · rw [sliceAt_of_le (not_lt.mp hdata), Returns, Ends.bind_iff, Ends.ok_iff]
      split_ifs
      · trivial
      · have hentry : (cluster + 1) * fatEntrySize r.layout.fatType ≤ fat.length :=
          (Nat.mul_le_mul_right _ (by omega)).trans hfat
        rw [Ends.bind_iff]
        refine (fatGet_returns hentry).conseq fun next _ => ih (hnodup.cons hseen) ?_ ?_
        · intro c hc
          rcases List.mem_cons.mp hc with rfl | hc
          · omega
          · exact hvisited c hc
        · rw [List.length_cons]
          omega

/-- The layout fits and is that of the image. -/
structure Sound (r : Reader) : Prop where
  fits : r.layout.Fits r.rootCluster
  length : r.layout.totalSectors * r.layout.bytesPerSector = r.image.length
  copies : r.layout.numFats ≠ 0

lemma Sound.fatSlice (h : r.Sound) : ∃ fat, r.fatSlice = .ok fat ∧ fat.length = r.layout.fatRegionLen := by
  have hin : r.layout.firstFatSector * r.layout.bytesPerSector + r.layout.fatRegionLen ≤ r.image.length := by
    have hone : r.layout.fatSizeSectors ≤ r.layout.numFats * r.layout.fatSizeSectors :=
      Nat.le_mul_of_pos_left _ (Nat.pos_of_ne_zero h.copies)
    have hfirst : r.layout.firstFatSector + r.layout.fatSizeSectors ≤ r.layout.totalSectors := by
      have := h.fits.1
      rw [Layout.firstDataSector, Layout.firstRootDirSector] at this
      omega
    rw [Layout.fatRegionLen, ← add_mul, ← h.length]
    exact Nat.mul_le_mul_right _ hfirst
  exact ⟨_, sliceAt_of_le hin, length_slice hin⟩

lemma Sound.clusterChainBytes_returns (h : r.Sound) (cluster : ℕ) (sizeHint : Option ℕ) :
    Returns (r.clusterChainBytes cluster sizeHint) := by
  rw [clusterChainBytes]
  split_ifs
  · trivial
  · obtain ⟨fat, hfat, hlen⟩ := h.fatSlice
    rw [bind_ok hfat, Returns, Ends.bind_iff]
    exact (chainLoop_returns (by rw [hlen]; exact h.fits.2.2) List.nodup_nil nofun (by simp)).conseq
      fun _ _ => trivial

lemma Sound.rootRegionBytes_returns (h : r.Sound) : Returns r.rootRegionBytes := by
  rw [rootRegionBytes]
  split
  · dsimp only
    split_ifs with hout
    · exact ends_refuse _
    · rw [sliceAt_of_le (not_lt.mp hout)]
      trivial
  · exact h.clusterChainBytes_returns _ _

end Reader

variable {r : Reader}

lemma lookupFrom_returns (h : r.Sound) (path : Text) (comps : List Text) (entries : List DirEntry) :
    Returns (lookupFrom r path comps entries) := by
  induction comps generalizing entries with
  | nil => exact ends_refuse _
  | cons comp rest ih =>
    rw [lookupFrom]
    split
    · exact ends_refuse _
    · split_ifs
      · trivial
      · rw [Returns, Ends.bind_iff]
        exact (h.clusterChainBytes_returns _ _).conseq fun region _ => ih _
      · exact ends_refuse _

lemma readPath_returns (h : r.Sound) (path : Text) : Returns (readPath r path) := by
  rw [readPath, lookupPath, Returns, Ends.bind_iff, Ends.bind_iff]
  refine h.rootRegionBytes_returns.conseq fun region _ => ?_
  refine (lookupFrom_returns h path _ _).conseq fun found _ => ?_
  rw [Ends.bind_iff, ends_refuseIf]
  exact fun _ => h.clusterChainBytes_returns _ _

/-- `read_efi_files` returns whatever the paths, and `parse_layout` refuses what does not fit the image,
exactly if a boot sector that passes the checks describes a layout that fits. -/
theorem read_efi_files_returns_iff (toLowercase : Text → Text) (container : Bytes) :
    ((∀ paths, Returns (readEfiFiles toLowercase container paths)) ∧
        ∀ layout rootCluster, parseLayout container = .ok (layout, rootCluster) → layout.Fits rootCluster) ↔
      (Accepted container → (bpb container).1.Fits (bpb container).2) := by
  constructor
  · exact fun h hchecks => h.2 _ _ (parseLayout_eq hchecks)
  intro h
  have hlayout := parseLayout_ends container
  refine ⟨fun paths => ?_, fun layout rootCluster hparse => ?_⟩
  · rw [readEfiFiles, Returns, Ends.bind_iff]
    refine (validateEfiFiles_returns toLowercase [] paths).conseq fun _ _ => ?_
    rw [Ends.bind_iff]
    refine hlayout.conseq ?_
    rintro ⟨layout, rootCluster⟩ ⟨hchecks, heq⟩
    have hsound : Reader.Sound { image := container, layout, rootCluster } := by
      have hfits := h hchecks
      obtain ⟨-, -, -, -, hcopies, -, -, hlength⟩ := hchecks
      rw [← heq] at hfits
      obtain ⟨rfl, rfl⟩ := Prod.mk.inj heq
      exact ⟨hfits, hlength, hcopies⟩
    exact (Ends.mapM fun path _ => readPath_returns hsound path).conseq fun _ _ => trivial
  · obtain ⟨hchecks, heq⟩ := hlayout.of_ok hparse
    have hfits := h hchecks
    rwa [← heq] at hfits

/-- The boot sector of a FAT32 image with one copy of a table of one sector. -/
def bootSector (sectors : ℕ) : Bytes :=
  putLe 2 (putLe 4 (putLe 4 (putLe 4 (putLe 1 (putLe 2 (putLe 1 (putLe 2 (zeros 512) 11 512) 13 1) 14 1) 16 1)
    32 sectors) 36 1) 44 2) 510 0xaa55

/-- An image with a sector for the table and two clusters. -/
def smallImage : Bytes := bootSector 4 ++ zeros 1536

theorem read_efi_files_returns_small : Returns (readEfiFiles (List.map Char.toLower) smallImage [['a']]) := by
  have hfits : Accepted smallImage → (bpb smallImage).1.Fits (bpb smallImage).2 := by decide +kernel
  have hreturns : ∀ paths, Returns (readEfiFiles (List.map Char.toLower) smallImage paths) :=
    And.left ((read_efi_files_returns_iff (List.map Char.toLower) smallImage).mpr hfits)
  -- Without the bytes of the image, or Lean would run the reader
  generalize smallImage = image at hreturns ⊢
  exact hreturns [['a']]

/-- An image of one sector passes the checks although the table of clusters would be behind it; the
first look at the root directory panics. -/
theorem table_behind_the_image :
    readEfiFiles (List.map Char.toLower) (bootSector 1) [['a']] = .error .panic := by decide +kernel

end AppleUtils.Fat32
