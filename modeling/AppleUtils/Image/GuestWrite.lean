import AppleUtils.Image.Backends

/-! # Writing to a qcow2 image

The explorer writes through `guest_write`: it opens the image once more as an `asahi_ops` handle
(`Qcow2`) and writes through that.  The handle finds the host cluster of each guest cluster, and
where there is none it allocates one at the end of the file, and a second-level table before it if
that is missing too.  It keeps the second-level tables it has read; the explorer's own handle keeps
only the first-level table it read when it was opened. -/

namespace AppleUtils.Image

open Bytes Checks

variable [FileSystem]

/-! ### Tables -/

/-- Big-endian numbers of eight bytes, one after the other. -/
def beTable (raw : Bytes) (n : ℕ) : List ℕ := (List.range n).map fun i => beAt 8 raw (i * 8)

/-- `to_be_bytes` of a number of `n` bytes. -/
def beBytes (n v : ℕ) : Bytes := (leBytes n v).reverse

/-- `align_up`. -/
def alignUp (v a : ℕ) : ℕ := (v + a - 1) / a * a

/-! ### The handle -/

structure Qcow2 where
  file : Bytes
  (virtualSize cluster l1Offset : ℕ)
  l1 : List ℕ
  (refcountTableOffset refcountTableClusters refcountOrder : ℕ)
  refcountTable : List ℕ
  /-- The second-level tables that were read, newest first. -/
  l2Cache : List (ℕ × List ℕ)
deriving DecidableEq

namespace Qcow2

/-- The refcount order of a version 3 header, four if it is left at zero. -/
def orderOf (extension : Bytes) (version : ℕ) : ℕ :=
  if version = 3 ∧ beAt 4 extension 24 ≠ 0 then beAt 4 extension 24 else 4

def «open» (file : Bytes) : Except Stop Qcow2 := do
  let header ← readExact file 0 72
  failIf (beAt 4 header 0 ≠ QCOW_MAGIC) (.format "not a qcow2 image")
  let version := beAt 4 header 4
  failIf (version ≠ 2 ∧ version ≠ 3) (.format "unsupported qcow2 version")
  let extension ← Qcow2File.readExtension file version
  let order := orderOf extension version
  failIf (¬ (3 ≤ order ∧ order ≤ 6)) (.format "unsupported qcow2 refcount_order")
  let clusterBits := beAt 4 header 20
  let virtualSize := beAt 8 header 24
  let l1Size := beAt 4 header 36
  let l1Offset := beAt 8 header 40
  let refcountTableOffset := beAt 8 header 48
  let refcountTableClusters := beAt 4 header 56
  failIf (64 ≤ clusterBits) (.format "attempt to shift left with overflow")
  failIf (refcountTableOffset = 0 ∨ refcountTableClusters = 0)
    (.format "qcow2 header is missing a refcount table")
  let tableBytes := refcountTableClusters * 2 ^ clusterBits
  failIf (8 * 2 ^ 20 < tableBytes) (.format "qcow2 refcount table is too large")
  seek refcountTableOffset
  let rawTable ← readExact file refcountTableOffset tableBytes
  seek l1Offset
  let raw ← readExact file l1Offset (l1Size * 8)
  return {
    file
    virtualSize
    cluster := 2 ^ clusterBits
    l1Offset
    l1 := (beTable raw l1Size).map Qcow2File.withoutCopied
    refcountTableOffset
    refcountTableClusters
    refcountOrder := order
    -- `& !0x1ff`
    refcountTable := (beTable rawTable (tableBytes / 8)).map fun entry => entry / 512 * 512
    l2Cache := [] }

variable (q : Qcow2)

def l2Entries : ℕ := q.cluster / 8

def refcountEntryBytes : ℕ := 2 ^ (q.refcountOrder - 3)

def refcountEntriesPerBlock : ℕ := q.cluster / q.refcountEntryBytes

def write (offset : ℕ) (data : Bytes) : Except Stop Qcow2 := do
  let file ← writeAll q.file offset data
  return { q with file }

def extendByCluster : Except Stop (ℕ × Qcow2) := do
  let off := alignUp q.file.length q.cluster
  failIf (FileSystem.largest < off + q.cluster) .io
  return (off, { q with file := q.file ++ zeros (off + q.cluster - q.file.length) })

def writeRefcountValue (offset count : ℕ) : Except Stop Qcow2 :=
  q.write offset (beBytes q.refcountEntryBytes count)

mutual

/-- A new refcount block is counted in its turn; each turn fills a slot of the table. -/
def ensureRefcountBlock : ℕ → Qcow2 → ℕ → Except Stop (ℕ × Qcow2)
  | 0, _, _ => .error .unfinished
  | turns + 1, q, blockIndex =>
    match q.refcountTable[blockIndex]? with
    | none => .error (.format "qcow2 refcount table has no slot for the block")
    | some slot =>
      if slot ≠ 0 then .ok (slot, q)
      else do
        let (off, q) ← q.extendByCluster
        let q ← q.write off (zeros q.cluster)
        let q := { q with refcountTable := q.refcountTable.set blockIndex off }
        let q ← q.write (q.refcountTableOffset + blockIndex * 8) (beBytes 8 off)
        let q ← setClusterRefcount turns q (off / q.cluster) 1
        return (off, q)

def setClusterRefcount : ℕ → Qcow2 → ℕ → ℕ → Except Stop Qcow2
  | 0, _, _, _ => .error .unfinished
  | turns + 1, q, clusterIndex, count => do
    let entries := q.refcountEntriesPerBlock
    failIf (entries = 0) (.format "qcow2 refcount block has no entries")
    let (blockOff, q) ← ensureRefcountBlock turns q (clusterIndex / entries)
    q.writeRefcountValue (blockOff + clusterIndex % entries * q.refcountEntryBytes) count

end

def allocateCluster : Except Stop (ℕ × Qcow2) := do
  let (off, q) ← q.extendByCluster
  let q ← setClusterRefcount (2 * q.refcountTable.length + 2) q (off / q.cluster) 1
  return (off, q)

def insertL2 (l1Idx : ℕ) (table : List ℕ) : Qcow2 :=
  { q with l2Cache := (l1Idx, table) :: q.l2Cache }

def ensureL2 (l1Idx : ℕ) : Except Stop (ℕ × Qcow2) :=
  match q.l1[l1Idx]? with
  | none => .error (.format "guest offset is outside the qcow2 L1 table")
  | some l2Off =>
    if l2Off ≠ 0 then .ok (l2Off, q)
    else do
      let (l2, q) ← q.allocateCluster
      let q ← q.write l2 (zeros q.cluster)
      let q := { q with l1 := q.l1.set l1Idx l2 }
      let q ← q.write (q.l1Offset + l1Idx * 8) (beBytes 8 (l2 + 2 ^ 63))
      return (l2, q.insertL2 l1Idx (List.replicate q.l2Entries 0))

def loadL2 (l1Idx l2Off : ℕ) : Except Stop (List ℕ × Qcow2) :=
  match q.l2Cache.lookup l1Idx with
  | some table => .ok (table, q)
  | none => do
    seek l2Off
    let raw ← readExact q.file l2Off (q.l2Entries * 8)
    let table := beTable raw q.l2Entries
    return (table, q.insertL2 l1Idx table)

/-- `& !QCOW_COPIED & !QCOW_COMPRESSED`. -/
def withoutFlags (entry : ℕ) : ℕ := entry % 2 ^ 62

def hostClusterForWrite (guest : ℕ) : Except Stop (ℕ × Qcow2) := do
  let l1Idx := guest / q.l2Entries
  let l2Idx := guest % q.l2Entries
  let (l2Off, q) ← q.ensureL2 l1Idx
  let (table, q) ← q.loadL2 l1Idx l2Off
  let host := withoutFlags (table.getD l2Idx 0)
  if host ≠ 0 then
    return (host, q)
  else
    let (host, q) ← q.allocateCluster
    let q ← q.write host (zeros q.cluster)
    let q ← q.write (l2Off + l2Idx * 8) (beBytes 8 (host + 2 ^ 63))
    return (host, q.insertL2 l1Idx (table.set l2Idx (host + 2 ^ 63)))

def lookupHost (guest : ℕ) : Except Stop (ℕ × Qcow2) :=
  match q.l1[guest / q.l2Entries]? with
  | none => .ok (0, q)
  | some l2Off =>
    if l2Off = 0 then .ok (0, q)
    else do
      let (table, q) ← q.loadL2 (guest / q.l2Entries) l2Off
      return (withoutFlags (table.getD (guest % q.l2Entries) 0), q)

/-- The inner loop of `write_at`: as long as the host clusters follow one another, they are written
together.  It ends at `last`, counted from `offset`. -/
def extendRun (offset len : ℕ) : ℕ → Qcow2 → ℕ → ℕ → ℕ → Except Stop (ℕ × Qcow2)
  | 0, _, _, _, _ => .error .unfinished
  | turns + 1, q, last, nextGuest, expectedHost =>
    if last < len ∧ offset + last < q.virtualSize then do
      let (host, q) ← q.lookupHost nextGuest
      if host ≠ expectedHost then
        return (last, q)
      else
        extendRun offset len turns q (last + min q.cluster (len - last)) (nextGuest + 1)
          (expectedHost + q.cluster)
    else .ok (last, q)

/-- The outer loop, with `done` bytes written. -/
def writeLoop (offset : ℕ) (data : Bytes) : ℕ → Qcow2 → ℕ → Except Stop Qcow2
  | 0, _, _ => .error .unfinished
  | turns + 1, q, done =>
    if done < data.length then do
      let pos := offset + done
      failIf (q.virtualSize ≤ pos) (.format "write past the end of the qcow2 virtual disc")
      let within := pos % q.cluster
      let take := min (q.cluster - within) (data.length - done)
      let (host, q) ← q.hostClusterForWrite (pos / q.cluster)
      let (last, q) ← extendRun offset data.length (data.length + 1) q (done + take)
        (pos / q.cluster + 1) (host + q.cluster)
      let q ← q.write (host + within) (data.slice done (last - done))
      writeLoop offset data turns q last
    else .ok q

def writeAt (offset : ℕ) (data : Bytes) : Except Stop Qcow2 :=
  writeLoop offset data (data.length + 1) q 0

end Qcow2

/-- `guest_write`: the file afterwards. -/
def guestWrite (file : Bytes) (offset : ℕ) (data : Bytes) : Except Stop Bytes := do
  let image ← Qcow2.open file
  let image ← image.writeAt offset data
  return image.file

/-! ### The explorer's backend -/

/-- The explorer's handle sees the file that was written, with the tables it read before. -/
def DiskBackend.writeAt (backend : DiskBackend) (offset : ℕ) (data : Bytes) : Except Stop DiskBackend :=
  match backend with
  | .raw file => do
    let file ← writeAll file offset data
    return .raw file
  | .qcow2 image => do
    let file ← guestWrite image.file offset data
    return .qcow2 { image with file }
  | .udif _ _ => .error (.format "cannot insert into a UDIF/DMG; use a raw or qcow2 image")

inductive Call where
  | write (offset : ℕ) (data : Bytes) | read (offset n : ℕ)
deriving DecidableEq

/-- The calls one after the other: what the reads return. -/
def DiskBackend.run (inflate : Bytes → Option Bytes) (backend : DiskBackend) :
    List Call → Except Stop (List Bytes)
  | [] => .ok []
  | .write offset data :: calls => do
    let backend ← backend.writeAt offset data
    backend.run inflate calls
  | .read offset n :: calls => do
    let bytes ← backend.readAt inflate offset n
    let rest ← backend.run inflate calls
    return bytes :: rest

end AppleUtils.Image
