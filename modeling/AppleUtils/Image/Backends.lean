import AppleUtils.Image.Files
import AppleUtils.Lib.Gather
import Mathlib.Data.List.Pairwise

/-! # The readers of disc images

The explorer reads a disc through `DiskBackend`: a raw file, a qcow2 image or a UDIF image.  The
operations on the other platform read a raw file through `RawImage`.  The zlib decoder is a parameter.  Positions add up within `u64`.

What an image holds is defined apart from the readers, by the rules of its format
(`Qcow2File.guestByte`, `UdifRun.byte`).  `backends_agree_iff` says for which reads every reader
gives that. -/

namespace AppleUtils.Image

open Bytes Checks List

section Readers

variable [FileSystem]

/-! ### qcow2 -/

structure Qcow2File where
  file : Bytes
  (version virtualSize cluster : ℕ)
  l1 : List ℕ
deriving DecidableEq

def QCOW_MAGIC : ℕ := 0x514649FB

namespace Qcow2File

/-- `& !QCOW_COPIED`. -/
def withoutCopied (entry : ℕ) : ℕ := entry % 2 ^ 63

/-- The part of the header that version 3 adds. -/
def readExtension (file : Bytes) (version : ℕ) : Except Stop Bytes :=
  if version = 3 then readExact file 72 32 else .ok []

def «open» (file : Bytes) : Except Stop Qcow2File := do
  let header ← readExact file 0 72
  failIf (beAt 4 header 0 ≠ QCOW_MAGIC) (.format "not a qcow2 image")
  let version := beAt 4 header 4
  failIf (version ≠ 2 ∧ version ≠ 3) (.format "unsupported qcow2 version")
  let _ ← readExtension file version
  let clusterBits := beAt 4 header 20
  failIf (¬ (9 ≤ clusterBits ∧ clusterBits ≤ 21)) (.format "unsupported qcow2 cluster_bits")
  let virtualSize := beAt 8 header 24
  let l1Size := beAt 4 header 36
  let l1Offset := beAt 8 header 40
  seek l1Offset
  let raw ← readExact file l1Offset (l1Size * 8)
  return ⟨file, version, virtualSize, 2 ^ clusterBits,
    (List.range l1Size).map fun i => withoutCopied (beAt 8 raw (i * 8))⟩

variable (q : Qcow2File)

def l2Entries : ℕ := q.cluster / 8

def lookupHost (guest : ℕ) : Except Stop ℕ :=
  match q.l1[guest / q.l2Entries]? with
  | none => .ok 0
  | some l2Off =>
    if l2Off = 0 then .ok 0
    else do
      let e ← readExact q.file (l2Off + guest % q.l2Entries * 8) 8
      let entry := beAt 8 e 0
      -- `entry & QCOW_COMPRESSED != 0`
      failIf (entry.testBit 62) (.format "compressed qcow2 clusters are not used by this reader")
      return withoutCopied entry

/-- The bytes of a host cluster, zeros if there is none. -/
def readHost (host within take : ℕ) : Except Stop Bytes :=
  if host = 0 then .ok (zeros take) else readExact q.file (host + within) take

/-- One turn of the loop of `read_at`, with `left` bytes of the buffer to go. -/
def piece (_ : Unit) (pos left : ℕ) : Except Stop (Bytes × Unit) :=
  if q.virtualSize ≤ pos then .ok (zeros left, ())
  else do
    let within := pos % q.cluster
    let take := min (q.cluster - within) left
    let host ← q.lookupHost (pos / q.cluster)
    let bytes ← q.readHost host within take
    return (bytes, ())

def readAt (offset n : ℕ) : Except Stop Bytes := do
  let (bytes, _) ← fill q.piece .unfinished n () offset n
  return bytes

end Qcow2File

/-! ### UDIF -/

inductive UdifKind where
  | zero | raw | ignore | zlib | term | other (kind : ℕ)
deriving DecidableEq

structure UdifRun where
  kind : UdifKind
  (sectorStart sectorCount compOffset compLength : ℕ)
deriving DecidableEq

structure UdifFile where
  file : Bytes
  runs : List UdifRun
  dataForkOffset : ℕ

def SECTOR_BYTES : ℕ := 512

/-- The largest run that is decoded, and the largest input of one. -/
def DECODING_LIMIT : ℕ := 256 * 1024 * 1024

namespace UdifFile

variable (inflate : Bytes → Option Bytes) (u : UdifFile)

/-- The run that covers a sector. -/
def runAt (sector : ℕ) : Option UdifRun :=
  u.runs.find? fun r => r.sectorStart ≤ sector ∧ sector < r.sectorStart + r.sectorCount

def readZlibRun (run : UdifRun) : Except Stop Bytes := do
  let expected := run.sectorCount * 512
  failIf (DECODING_LIMIT < expected) (.format "UDIF compressed run exceeds decoding limit")
  failIf (DECODING_LIMIT < run.compLength) (.format "UDIF compressed input exceeds decoding limit")
  let compressed ← readExact u.file (u.dataForkOffset + run.compOffset) run.compLength
  match inflate compressed with
  | none => .error (.format "UDIF zlib run did not decode")
  | some out =>
    if out.length ≠ expected then .error (.format "UDIF decoded run length does not match its sectors")
    else .ok out

/-- The decoded run that is kept, under its first sector. -/
abbrev Cache := Option (ℕ × Bytes)

variable {cache : Cache}

/-- The decoded run, and the cache with it. -/
def decodedRun (cache : Cache) (run : UdifRun) : Except Stop (Bytes × Cache) :=
  match cache with
  | some (start, decoded) =>
    if start = run.sectorStart then .ok (decoded, cache)
    else do
      let decoded ← u.readZlibRun inflate run
      return (decoded, some (run.sectorStart, decoded))
  | none => do
    let decoded ← u.readZlibRun inflate run
    return (decoded, some (run.sectorStart, decoded))

/-- One turn of the loop of `read_at`, with `left` bytes of the buffer to go. -/
def piece (cache : Cache) (pos left : ℕ) : Except Stop (Bytes × Cache) :=
  let sector := pos / SECTOR_BYTES
  let within := pos % SECTOR_BYTES
  let take := min (SECTOR_BYTES - within) left
  match u.runAt sector with
  | none => .ok (zeros take, cache)
  | some run =>
    match run.kind with
    | .zero => .ok (zeros take, cache)
    | .ignore => .ok (zeros take, cache)
    | .raw => do
      let bytes ← readExact u.file (u.dataForkOffset + run.compOffset +
        (sector - run.sectorStart) * SECTOR_BYTES + within) take
      return (bytes, cache)
    | .zlib => do
      let (decoded, cache) ← u.decodedRun inflate cache run
      return (decoded.slice ((sector - run.sectorStart) * SECTOR_BYTES + within) take, cache)
    | .term => .ok (zeros left, cache)
    | .other _ => .error (.format "unsupported UDIF blkx run type")

def readAt (cache : Cache) (offset n : ℕ) : Except Stop (Bytes × Cache) :=
  fill (u.piece inflate) .unfinished n cache offset n

end UdifFile

/-! ### Backends -/

inductive DiskBackend where
  | raw (file : Bytes) | qcow2 (image : Qcow2File) | udif (image : UdifFile) (cache : UdifFile.Cache)

def DiskBackend.readAt (inflate : Bytes → Option Bytes) (backend : DiskBackend) (offset n : ℕ) :
    Except Stop Bytes :=
  match backend with
  | .raw file => readOrZeros file offset n
  | .qcow2 image => image.readAt offset n
  | .udif image cache => do
    let (bytes, _) ← image.readAt inflate cache offset n
    return bytes

/-! ### What an image holds -/

/-- The bytes of a disc from `offset` on, and zeros past its end. -/
def expected (disc : Bytes) (offset n : ℕ) : Bytes :=
  (List.range n).map fun i => disc.getD (offset + i) 0

namespace Qcow2File

variable (q : Qcow2File)

/-- The host offset in an entry: bits 9 to 55. -/
def hostOffset (entry : ℕ) : ℕ := entry / 2 ^ 9 % 2 ^ 47 * 2 ^ 9

/-- The second-level entry of a guest cluster; zero where there is no second-level table. -/
def l2Entry (guest : ℕ) : Option ℕ :=
  q.l1[guest / q.l2Entries]?.bind fun l2Off =>
    if l2Off = 0 then some 0
    else if l2Off + guest % q.l2Entries * 8 + 8 ≤ q.file.length then
      some (beAt 8 q.file (l2Off + guest % q.l2Entries * 8))
    else none

/-- The byte at a position of the guest's disc: zero in a cluster that is flagged so or that is not
allocated, else the byte of the host cluster. -/
def guestByte (pos : ℕ) : Option Byte :=
  (q.l2Entry (pos / q.cluster)).bind fun entry =>
    if entry % 2 = 1 then some 0
    else if hostOffset entry = 0 then some 0
    else q.file[hostOffset entry + pos % q.cluster]?

/-- No compressed clusters, and the reserved bits are clear. -/
def Plain : Prop :=
  ∀ guest entry, q.l2Entry guest = some entry →
    entry % 2 ^ 63 = hostOffset entry + entry % 2 ∧ (q.version = 2 → entry % 2 = 0)

/-- The guest's disc is `disc`. -/
def Holds (disc : Bytes) : Prop :=
  disc.length = q.virtualSize ∧ ∀ pos < q.virtualSize, q.guestByte pos = some (disc.getD pos 0)

/-- The cluster of a position is flagged all-zero. -/
def Flagged (pos : ℕ) : Prop := ∃ entry, q.l2Entry (pos / q.cluster) = some entry ∧ entry % 2 = 1

/-- The file has a zero where the entry of the cluster points, flags and all. -/
def ZeroAt (pos : ℕ) : Prop :=
  ∃ entry, q.l2Entry (pos / q.cluster) = some entry ∧
    (entry % 2 ^ 63 = 0 ∨ q.file[entry % 2 ^ 63 + pos % q.cluster]? = some 0)

/-- The positions of a read that the reader takes from the file although the disc has zeros there:
those in a flagged cluster, and those past the end of the disc in the cluster in which it ends. -/
def Stray (offset pos : ℕ) : Prop :=
  (pos < q.virtualSize ∧ q.Flagged pos) ∨
    (q.virtualSize ≤ pos ∧ max offset (pos / q.cluster * q.cluster) < q.virtualSize)

end Qcow2File

namespace UdifFile

variable (inflate : Bytes → Option Bytes) (u : UdifFile)

def Covers (r : UdifRun) (pos : ℕ) : Prop :=
  r.sectorStart ≤ pos / SECTOR_BYTES ∧ pos / SECTOR_BYTES < r.sectorStart + r.sectorCount

/-- The byte at `i` of a run. -/
def byte (r : UdifRun) (i : ℕ) : Option Byte :=
  match r.kind with
  | .raw => u.file[u.dataForkOffset + r.compOffset + i]?
  | .zlib => (inflate (u.file.slice (u.dataForkOffset + r.compOffset) r.compLength)).bind (·[i]?)
  | _ => some 0

/-- The runs are those of an image that was opened, and describe `disc`. -/
structure Describes (disc : Bytes) : Prop where
  kind : ∀ r ∈ u.runs, r.sectorCount = 0 ∨
    r.kind = .zero ∨ r.kind = .ignore ∨ r.kind = .raw ∨ r.kind = .zlib
  disjoint : u.runs.Pairwise fun a b => a.sectorStart + a.sectorCount ≤ b.sectorStart
  inside : ∀ r ∈ u.runs, r.kind = .zlib →
    u.dataForkOffset + r.compOffset + r.compLength ≤ u.file.length
  decoded : ∀ r ∈ u.runs, r.kind = .zlib → ∀ out,
    inflate (u.file.slice (u.dataForkOffset + r.compOffset) r.compLength) = some out →
    out.length = r.sectorCount * SECTOR_BYTES
  covered : ∀ r ∈ u.runs, ∀ i < r.sectorCount * SECTOR_BYTES,
    u.byte inflate r i = some (disc.getD (r.sectorStart * SECTOR_BYTES + i) 0)
  gaps : ∀ pos, (∀ r ∈ u.runs, ¬ Covers r pos) → disc.getD pos 0 = 0

/-- A cached run is one of the image's. -/
def Cached (cache : Cache) : Prop :=
  ∀ start out, cache = some (start, out) → ∃ r ∈ u.runs, r.kind = .zlib ∧ 0 < r.sectorCount ∧
    r.sectorStart = start ∧ u.readZlibRun inflate r = .ok out

/-- The compressed run at a position is one the reader decodes. -/
def Decodable (pos : ℕ) : Prop :=
  ∀ r ∈ u.runs, Covers r pos → r.kind = .zlib →
    r.sectorCount * 512 ≤ DECODING_LIMIT ∧ r.compLength ≤ DECODING_LIMIT

end UdifFile

/-! ### Readers, byte by byte -/

lemma readExact_toOption (file : Bytes) (offset n : ℕ) :
    (readExact file offset n).toOption = gather (file[·]?) offset n := by
  unfold readExact
  split
  · rename_i h
    symm
    rw [Except.toOption, gather_eq_some_iff]
    refine ⟨?_, fun i hi => ?_⟩
    · rcases h with rfl | h
      · simp [slice]
      · exact length_slice h
    · rw [getElem?_slice, if_pos hi]
  · rename_i h
    cases hg : gather (file[·]?) offset n with
    | none => split <;> rfl
    | some l =>
      rw [gather_eq_some_iff] at hg
      have hlast := hg.2 (n - 1) (by omega)
      rw [getElem?_eq_none (by omega), getElem?_eq_getElem (by omega)] at hlast
      cases hlast

omit [FileSystem] in
lemma gather_zeros (view : ℕ → Option Byte) {pos n : ℕ} (h : ∀ i < n, view (pos + i) = some 0) :
    gather view pos n = some (zeros n) := by
  rw [gather_eq_some_iff]
  refine ⟨length_zeros n, fun i hi => ?_⟩
  rw [h i hi, zeros, getElem?_replicate, if_pos hi]

omit [FileSystem] in
/-- Bytes that come from one string, where there is one, are a slice of it. -/
lemma gather_slice {view : ℕ → Option Byte} {source : Option Bytes} {pos k start : ℕ} (hk : 0 < k)
    (hlong : ∀ out, source = some out → start + k ≤ out.length)
    (hview : ∀ i < k, view (pos + i) = source.bind (·[start + i]?)) :
    gather view pos k = source.map (·.slice start k) := by
  cases source with
  | none =>
    cases hgather : gather view pos k with
    | none => rfl
    | some l =>
      obtain ⟨hlen, hall⟩ := gather_eq_some_iff.mp hgather
      have hfirst := hall 0 hk
      rw [hview 0 hk, getElem?_eq_getElem (by omega)] at hfirst
      cases hfirst
  | some out =>
    rw [Option.map_some, gather_eq_some_iff]
    refine ⟨length_slice (hlong out rfl), fun i hi => ?_⟩
    rw [hview i hi, getElem?_slice, if_pos hi]
    rfl

omit [FileSystem] in
/-- A reader filled its buffer with what `view` has at every position. -/
lemma readsAs_iff {σ : Type} {piece : σ → ℕ → ℕ → Except Stop (Bytes × σ)} {view : ℕ → Option Byte}
    {I : σ → Prop} {P : ℕ → Prop} {offset n : ℕ} {s : σ} (hs : I s) (hP : P offset) (disc : Bytes)
    (h : ∀ s pos left, I s → 0 < left → P pos → ∃ k, Pieces piece view I P s pos left k) :
    (do let (bytes, _) ← fill piece .unfinished n s offset n; return bytes) = Except.ok (expected disc offset n) ↔
      ∀ i < n, view (offset + i) = some (disc.getD (offset + i) 0) := by
  have hfill := @fill_eq_gather _ _ _ _ .unfinished _ _ _ h _ _ _ _ hs hP (le_refl n)
  have hread : (do let (bytes, _) ← fill piece .unfinished n s offset n
                   return bytes) = Except.ok (expected disc offset n) ↔
      (fill piece Stop.unfinished n s offset n).toOption.map Prod.fst = some (expected disc offset n) := by
    cases fill piece Stop.unfinished n s offset n with
    | error e => simp [Except.toOption, bind, Except.bind]
    | ok r => simp [Except.toOption, bind, Except.bind, pure, Except.pure]
  rw [hread, hfill, gather_eq_some_iff]
  simp only [expected, length_map, length_range, true_and]
  refine forall₂_congr fun i hi => ?_
  rw [getElem?_map, getElem?_range hi]
  rfl

namespace Qcow2File

variable {q : Qcow2File} {disc : Bytes} {offset pos guest n : ℕ}

/-- What the reader has at a position, in a read from `offset` on. -/
def view (q : Qcow2File) (offset pos : ℕ) : Option Byte :=
  if q.virtualSize ≤ max offset (pos / q.cluster * q.cluster) then some 0
  else (q.lookupHost (pos / q.cluster)).toOption.bind fun host =>
    if host = 0 then some 0 else q.file[host + pos % q.cluster]?

lemma cluster_pos {file : Bytes} (h : Qcow2File.open file = .ok q) : 0 < q.cluster := by
  simp only [Qcow2File.open, returns] at h
  obtain ⟨header, -, _, -, _, -, _, -, _, -, _, -, raw, -, rfl⟩ := h
  exact Nat.two_pow_pos _

/-- Where the pieces of a read start. -/
def Starts (q : Qcow2File) (offset pos : ℕ) : Prop := pos = offset ∨ (offset ≤ pos ∧ pos % q.cluster = 0)

omit [FileSystem] in
lemma start_eq (hstart : q.Starts offset pos) {i : ℕ} (hi : i < q.cluster - pos % q.cluster) :
    (pos + i) / q.cluster = pos / q.cluster ∧ (pos + i) % q.cluster = pos % q.cluster + i ∧
      (q.virtualSize ≤ max offset ((pos + i) / q.cluster * q.cluster) ↔ q.virtualSize ≤ pos) := by
  have hq : 0 < q.cluster := by omega
  have hdm := Nat.div_add_mod pos q.cluster
  have hmul : q.cluster * (pos / q.cluster) = pos / q.cluster * q.cluster := mul_comm _ _
  have hdiv : (pos + i) / q.cluster = pos / q.cluster := by
    rw [← hdm, add_assoc, Nat.mul_add_div hq, Nat.mul_add_div hq,
      Nat.div_eq_of_lt (by have := Nat.mod_lt pos hq; omega : pos % q.cluster + i < q.cluster),
      Nat.div_eq_of_lt (Nat.mod_lt _ hq)]
  have hmod : (pos + i) % q.cluster = pos % q.cluster + i := by
    have := Nat.div_add_mod (pos + i) q.cluster
    rw [hdiv] at this
    omega
  refine ⟨hdiv, hmod, ?_⟩
  rw [hdiv]
  rcases hstart with rfl | ⟨hle, hzero⟩ <;> omega

lemma piece_view (hq : 0 < q.cluster) (s : Unit) {left : ℕ} (hleft : 0 < left) (hstart : q.Starts offset pos) :
    ∃ k, Pieces q.piece (q.view offset) (fun _ => True) (q.Starts offset) s pos left k := by
  have hwithin := Nat.mod_lt pos hq
  have hge : offset ≤ pos := by
    rcases hstart with rfl | ⟨h, -⟩
    · exact le_rfl
    · exact h
  by_cases hend : q.virtualSize ≤ pos
  · refine ⟨left, hleft, le_rfl, ?_, fun _ _ => trivial, fun h => absurd h (lt_irrefl _)⟩
    rw [piece, if_pos hend, gather_zeros]
    · rfl
    · intro i _
      have hdm := Nat.div_add_mod pos q.cluster
      have hle : pos / q.cluster ≤ (pos + i) / q.cluster := Nat.div_le_div_right (Nat.le_add_right _ _)
      have hmul := Nat.mul_le_mul_right q.cluster hle
      rw [mul_comm] at hdm
      rw [view, if_pos]
      rcases hstart with rfl | ⟨_, hzero⟩ <;> omega
  · obtain ⟨k, hk⟩ : ∃ k, k = min (q.cluster - pos % q.cluster) left := ⟨_, rfl⟩
    refine ⟨k, by omega, by omega, ?_, fun _ _ => trivial, ?_⟩
    · simp only [piece, if_neg hend, ← hk]
      have hview : ∀ i < k, q.view offset (pos + i) = (q.lookupHost (pos / q.cluster)).toOption.bind fun host =>
            if host = 0 then some 0 else q.file[host + pos % q.cluster + i]? := by
        intro i hi
        obtain ⟨hdiv, hmod, hvs⟩ := start_eq hstart (show i < _ by omega)
        rw [view, if_neg (mt hvs.mp hend), hdiv, hmod]
        simp only [add_assoc]
      cases hhost : q.lookupHost (pos / q.cluster) with
      | error e =>
        rw [hhost] at hview
        cases hg : gather (q.view offset) pos k with
        | none => rfl
        | some l =>
          -- the first byte of the piece is not there
          obtain ⟨hlen, hall⟩ := gather_eq_some_iff.mp hg
          have := hall 0 (by omega)
          rw [hview 0 (by omega), getElem?_eq_getElem (by omega)] at this
          cases this
      | ok host =>
        rw [hhost] at hview
        change Option.map Prod.fst (do
          let bytes ← q.readHost host (pos % q.cluster) k
          return (bytes, ())).toOption = _
        by_cases hzero : host = 0
        · rw [gather_zeros _ fun i hi => by rw [hview i hi]; simp [Except.toOption, hzero], readHost, if_pos hzero]
          rfl
        · rw [@gather_congr _ _ _ _ (q.file[·]?) (host + pos % q.cluster) fun i hi => by rw [hview i hi]; simp [Except.toOption, hzero],
            ← readExact_toOption, readHost, if_neg hzero]
          cases readExact q.file (host + pos % q.cluster) k <;> rfl
    · intro hlt
      refine .inr ⟨by omega, ?_⟩
      have hdm := Nat.div_add_mod pos q.cluster
      have hnext : pos + k = q.cluster * (pos / q.cluster) + q.cluster := by omega
      rw [hnext, Nat.mul_add_mod, Nat.mod_self]

lemma readAt_iff (hq : 0 < q.cluster) : q.readAt offset n = .ok (expected disc offset n) ↔
    ∀ i < n, q.view offset (offset + i) = some (disc.getD (offset + i) 0) :=
  readsAs_iff (I := fun _ => True) (P := q.Starts offset) trivial (.inl rfl) disc
    fun s _ _ _ hleft hstart => piece_view hq s hleft hstart

lemma lookupHost_of_entry {entry : ℕ} (hplain : q.Plain) (h : q.l2Entry guest = some entry) :
    q.lookupHost guest = .ok (entry % 2 ^ 63) := by
  have hreserved := (hplain guest entry h).1
  unfold l2Entry at h
  unfold lookupHost
  cases hl1 : q.l1[guest / q.l2Entries]? with
  | none =>
    rw [hl1] at h
    cases h
  | some l2Off =>
    rw [hl1] at h
    simp only [Option.bind_some] at h
    by_cases hzero : l2Off = 0
    · rw [if_pos hzero] at h
      cases h
      simp only [hzero, if_true]
      rfl
    · rw [if_neg hzero] at h
      split at h
      · rename_i hle
        have hread : readExact q.file (l2Off + guest % q.l2Entries * 8) 8 =
            .ok (q.file.slice (l2Off + guest % q.l2Entries * 8) 8) := if_pos (.inr hle)
        have hentry : beAt 8 (q.file.slice (l2Off + guest % q.l2Entries * 8) 8) 0 = entry := by
          rw [beAt, slice_slice (by decide : 0 + 8 ≤ 8)]
          exact Option.some.inj h
        have hsmall : entry % 2 ^ 63 < 2 ^ 57 := by
          have : hostOffset entry < 2 ^ 56 := by
            unfold hostOffset
            omega
          omega
        have hcompressed : entry.testBit 62 = false := by
          have hbit : (entry % 2 ^ 63).testBit 62 = entry.testBit 62 := by
            rw [Nat.testBit_mod_two_pow]
            simp
          rw [← hbit]
          exact Nat.testBit_lt_two_pow (lt_trans hsmall (by norm_num))
        simp only [hzero, if_false, hread]
        change (failIf ((beAt 8 _ 0).testBit 62) _ >>= fun _ => pure (withoutCopied (beAt 8 _ 0))) = _
        rw [hentry, hcompressed]
        rfl
      · cases h

/-- What the reader has is what the disc holds, unless it strays. -/
lemma view_iff (hq : 0 < q.cluster) (hplain : q.Plain) (hdisc : q.Holds disc) (hge : offset ≤ pos) :
    q.view offset pos = some (disc.getD pos 0) ↔ (q.Stray offset pos → q.ZeroAt pos) := by
  obtain ⟨hlen, hbytes⟩ := hdisc
  have hdm := Nat.div_add_mod pos q.cluster
  rw [mul_comm] at hdm
  have hpast : q.virtualSize ≤ pos → disc.getD pos 0 = 0 := by
    intro h
    rw [getD_eq_getElem?_getD, getElem?_eq_none (by omega)]
    rfl
  by_cases hend : q.virtualSize ≤ max offset (pos / q.cluster * q.cluster)
  · -- the piece starts past the end
    have hpos : q.virtualSize ≤ pos := by omega
    rw [view, if_pos hend, hpast hpos]
    refine iff_of_true rfl ?_
    rintro (⟨hlt, -⟩ | ⟨-, hlt⟩) <;> omega
  · -- the piece starts inside, so its cluster has an entry
    obtain ⟨entry, hentry⟩ : ∃ entry, q.l2Entry (pos / q.cluster) = some entry := by
      have hdiv : max offset (pos / q.cluster * q.cluster) / q.cluster = pos / q.cluster := by
        apply Nat.div_eq_of_lt_le
        · exact le_max_right _ _
        · have := Nat.lt_div_mul_add (a := pos) hq
          rw [add_mul, one_mul]
          omega
      have := hbytes _ (not_le.mp hend)
      rw [guestByte, hdiv] at this
      cases hentry : q.l2Entry (pos / q.cluster) with
      | none =>
        rw [hentry] at this
        cases this
      | some entry => exact ⟨entry, rfl⟩
    have hview : q.view offset pos = if entry % 2 ^ 63 = 0 then some 0
        else q.file[entry % 2 ^ 63 + pos % q.cluster]? := by
      rw [view, if_neg hend, lookupHost_of_entry hplain hentry]
      rfl
    have hzero : q.view offset pos = some 0 ↔ q.ZeroAt pos := by
      rw [hview]
      constructor
      · intro h
        refine ⟨entry, hentry, ?_⟩
        split at h
        · exact .inl ‹_›
        · exact .inr h
      · rintro ⟨entry', hentry', h⟩
        cases hentry.symm.trans hentry'
        split
        · rfl
        · exact h.resolve_left ‹_›
    by_cases hpos : q.virtualSize ≤ pos
    · rw [hpast hpos, hzero]
      exact ⟨fun h _ => h, fun h => h (.inr ⟨hpos, not_le.mp hend⟩)⟩
    · have hdisc : q.guestByte pos = some (disc.getD pos 0) := hbytes pos (not_le.mp hpos)
      rw [guestByte, hentry, Option.bind_some] at hdisc
      by_cases hflag : entry % 2 = 1
      · rw [if_pos hflag] at hdisc
        rw [← Option.some.inj hdisc, hzero]
        exact ⟨fun h _ => h, fun h => h (.inl ⟨not_le.mp hpos, entry, hentry, hflag⟩)⟩
      · rw [if_neg hflag] at hdisc
        have hreserved := (hplain _ _ hentry).1
        refine iff_of_true ?_ ?_
        · rw [hview, show entry % 2 ^ 63 = hostOffset entry by omega, hdisc]
        · rintro (⟨-, entry', hentry', hflag'⟩ | ⟨hge', -⟩)
          · cases hentry.symm.trans hentry'
            exact absurd hflag' hflag
          · exact absurd hge' hpos

end Qcow2File

namespace UdifFile

variable {inflate : Bytes → Option Bytes} {u : UdifFile} {disc : Bytes} {offset pos n : ℕ} {r r' : UdifRun}
    {out : Bytes}

/-- What the reader has at a position. -/
def view (inflate : Bytes → Option Bytes) (u : UdifFile) (pos : ℕ) : Option Byte :=
  match u.runAt (pos / SECTOR_BYTES) with
  | none => some 0
  | some r =>
    match r.kind with
    | .raw => u.file[u.dataForkOffset + r.compOffset + (pos - r.sectorStart * SECTOR_BYTES)]?
    | .zlib => (u.readZlibRun inflate r).toOption.bind (·[pos - r.sectorStart * SECTOR_BYTES]?)
    | _ => some 0

omit [FileSystem] in
lemma covers_unique (hu : u.Describes inflate disc) (hr : r ∈ u.runs) (hr' : r' ∈ u.runs) {s : ℕ}
    (h : r.sectorStart ≤ s ∧ s < r.sectorStart + r.sectorCount)
    (h' : r'.sectorStart ≤ s ∧ s < r'.sectorStart + r'.sectorCount) : r = r' := by
  by_contra hne
  have hsymm : u.runs.Pairwise fun a b => a.sectorStart + a.sectorCount ≤ b.sectorStart ∨
      b.sectorStart + b.sectorCount ≤ a.sectorStart := hu.disjoint.imp Or.inl
  have : Std.Symm fun a b : UdifRun => a.sectorStart + a.sectorCount ≤ b.sectorStart ∨
      b.sectorStart + b.sectorCount ≤ a.sectorStart := ⟨fun _ _ => Or.symm⟩
  have := hsymm.forall hr hr' hne
  omega

omit [FileSystem] in
lemma runAt_some {s : ℕ} (h : u.runAt s = some r) :
    r ∈ u.runs ∧ r.sectorStart ≤ s ∧ s < r.sectorStart + r.sectorCount := by
  refine ⟨mem_of_find?_eq_some h, ?_⟩
  simpa using find?_some h

/-- The cache changes nothing. -/
lemma decodedRun_eq (hu : u.Describes inflate disc) (hr : r ∈ u.runs) (hkind : r.kind = .zlib)
    (hcount : 0 < r.sectorCount) (hcache : u.Cached inflate cache) :
    (u.decodedRun inflate cache r).toOption.map Prod.fst = (u.readZlibRun inflate r).toOption ∧
      ∀ p, u.decodedRun inflate cache r = .ok p → u.Cached inflate p.2 := by
  have hfresh : (do
      let decoded ← u.readZlibRun inflate r
      return (decoded, some (r.sectorStart, decoded)) : Except Stop (Bytes × Cache)).toOption.map Prod.fst =
        (u.readZlibRun inflate r).toOption ∧
      ∀ p, (do
        let decoded ← u.readZlibRun inflate r
        return (decoded, some (r.sectorStart, decoded)) : Except Stop (Bytes × Cache)) = .ok p →
          u.Cached inflate p.2 := by
    cases hread : u.readZlibRun inflate r with
    | error e => exact ⟨rfl, nofun⟩
    | ok decoded =>
      refine ⟨rfl, ?_⟩
      rintro p ⟨⟩
      rintro start out ⟨⟩
      exact ⟨r, hr, hkind, hcount, rfl, hread⟩
  unfold decodedRun
  cases cache with
  | none => exact hfresh
  | some c =>
    obtain ⟨start, decoded⟩ := c
    simp only
    split
    · rename_i hstart
      obtain ⟨r', hr', hkind', hcount', hstart', hread⟩ := hcache start decoded rfl
      have : r' = r := covers_unique hu hr' hr (s := start) (by omega) (by omega)
      rw [← this, hread]
      refine ⟨rfl, ?_⟩
      rintro p ⟨⟩
      exact hcache
    · exact hfresh

lemma readZlibRun_length (h : u.readZlibRun inflate r = .ok out) :
    out.length = r.sectorCount * SECTOR_BYTES := by
  simp only [readZlibRun, bind_eq_ok] at h
  obtain ⟨_, -, _, -, compressed, -, h⟩ := h
  split at h
  · cases h
  · split at h
    · cases h
    · cases h
      rename_i hlen
      exact not_not.mp hlen

lemma piece_view (hu : u.Describes inflate disc) (hcache : u.Cached inflate cache) {left : ℕ} (hleft : 0 < left) :
    ∃ k, Pieces (u.piece inflate) (u.view inflate) (u.Cached inflate) (fun _ => True) cache pos left k := by
  obtain ⟨k, hk⟩ : ∃ k, k = min (SECTOR_BYTES - pos % SECTOR_BYTES) left := ⟨_, rfl⟩
  have hsector : ∀ i < k, (pos + i) / SECTOR_BYTES = pos / SECTOR_BYTES := by
    intro i hi
    simp only [SECTOR_BYTES] at *
    omega
  have hpos : 0 < k := by
    simp only [SECTOR_BYTES] at *
    omega
  suffices h : (u.piece inflate cache pos left).toOption.map Prod.fst = gather (u.view inflate) pos k ∧
      ∀ p, u.piece inflate cache pos left = .ok p → u.Cached inflate p.2 from
    ⟨_, hpos, by omega, h.1, h.2, fun _ => trivial⟩
  unfold piece
  simp only [← hk]
  cases hrun : u.runAt (pos / SECTOR_BYTES) with
  | none =>
    refine ⟨?_, ?_⟩
    · rw [gather_zeros _ fun i hi => by rw [view, hsector i hi, hrun]]
      rfl
    · rintro p ⟨⟩
      exact hcache
  | some r =>
    obtain ⟨hr, hle, hlt⟩ := runAt_some hrun
    have hoff : ∀ i, pos + i - r.sectorStart * SECTOR_BYTES =
        (pos / SECTOR_BYTES - r.sectorStart) * SECTOR_BYTES + pos % SECTOR_BYTES + i := by
      intro i
      simp only [SECTOR_BYTES] at *
      omega
    have hzeros : (r.kind = .zero ∨ r.kind = .ignore) → gather (u.view inflate) pos k = some (zeros k) := by
      intro hkind
      refine gather_zeros _ fun i hi => ?_
      rw [view, hsector i hi, hrun]
      rcases hkind with hkind | hkind <;> simp only [hkind]
    rcases hu.kind r hr with hcount | hkind | hkind | hkind | hkind
    · omega
    · simp only [hkind]
      refine ⟨?_, ?_⟩
      · rw [hzeros (.inl hkind)]
        rfl
      · rintro p ⟨⟩
        exact hcache
    · simp only [hkind]
      refine ⟨?_, ?_⟩
      · rw [hzeros (.inr hkind)]
        rfl
      · rintro p ⟨⟩
        exact hcache
    · simp only [hkind]
      refine ⟨?_, ?_⟩
      · rw [@gather_congr _ _ _ _ (u.file[·]?) (u.dataForkOffset + r.compOffset +
          (pos / SECTOR_BYTES - r.sectorStart) * SECTOR_BYTES + pos % SECTOR_BYTES), ← readExact_toOption]
        · cases readExact u.file (u.dataForkOffset + r.compOffset +
            (pos / SECTOR_BYTES - r.sectorStart) * SECTOR_BYTES + pos % SECTOR_BYTES)
            k <;> rfl
        · intro i hi
          rw [view, hsector i hi, hrun]
          simp only [hkind, hoff, add_assoc]
      · intro p hp
        obtain ⟨bytes, -, hp⟩ := bind_eq_ok.mp hp
        cases hp
        exact hcache
    · simp only [hkind]
      obtain ⟨heq, hkeep⟩ := decodedRun_eq hu hr hkind (by omega) hcache
      refine ⟨?_, ?_⟩
      · rw [@gather_slice _ (u.readZlibRun inflate r).toOption _ _
          ((pos / SECTOR_BYTES - r.sectorStart) * SECTOR_BYTES + pos % SECTOR_BYTES) hpos, ← heq]
        · cases u.decodedRun inflate cache r <;> rfl
        · intro out hout
          cases hread : u.readZlibRun inflate r with
          | error e =>
            rw [hread] at hout
            cases hout
          | ok out' =>
            rw [hread] at hout
            cases hout
            rw [readZlibRun_length hread]
            simp only [SECTOR_BYTES] at *
            omega
        · intro i hi
          rw [view, hsector i hi, hrun]
          simp only [hkind, hoff]
      · intro p hp
        obtain ⟨d, hd, hp⟩ := bind_eq_ok.mp hp
        cases hp
        exact hkeep d hd

lemma readAt_iff (hu : u.Describes inflate disc) (hcache : u.Cached inflate cache) :
    (do let (bytes, _) ← u.readAt inflate cache offset n; return bytes) = Except.ok (expected disc offset n) ↔
      ∀ i < n, u.view inflate (offset + i) = some (disc.getD (offset + i) 0) :=
  readsAs_iff (P := fun _ => True) hcache trivial disc fun _ _ _ hcache hleft _ =>
    piece_view hu hcache hleft

/-- A run that fits the limits decodes, one that does not is refused. -/
lemma readZlibRun_eq (hu : u.Describes inflate disc) (hr : r ∈ u.runs) (hkind : r.kind = .zlib)
    (hout : inflate (u.file.slice (u.dataForkOffset + r.compOffset) r.compLength) = some out) :
    (u.readZlibRun inflate r).toOption =
      if r.sectorCount * 512 ≤ DECODING_LIMIT ∧ r.compLength ≤ DECODING_LIMIT then some out else none := by
  have hread : readExact u.file (u.dataForkOffset + r.compOffset) r.compLength =
      .ok (u.file.slice (u.dataForkOffset + r.compOffset) r.compLength) :=
    if_pos (.inr (hu.inside r hr hkind))
  have hlen : ¬ out.length ≠ r.sectorCount * 512 := not_not.mpr (hu.decoded r hr hkind out hout)
  by_cases h1 : DECODING_LIMIT < r.sectorCount * 512
  · rw [if_neg (by omega), readZlibRun]
    simp only [failIf, if_pos h1]
    rfl
  · by_cases h2 : DECODING_LIMIT < r.compLength
    · rw [if_neg (by omega), readZlibRun]
      simp only [failIf, if_neg h1, if_pos h2]
      rfl
    · rw [if_pos (by omega), readZlibRun]
      simp only [failIf, if_neg h1, if_neg h2, hread]
      change (match inflate (u.file.slice (u.dataForkOffset + r.compOffset) r.compLength) with
        | none => _
        | some out => if out.length ≠ r.sectorCount * 512 then _ else _ : Except Stop Bytes).toOption = _
      rw [hout]
      simp only [if_neg hlen]
      rfl

lemma view_iff (hu : u.Describes inflate disc) : u.view inflate pos = some (disc.getD pos 0) ↔ u.Decodable pos := by
  unfold view
  cases hrun : u.runAt (pos / SECTOR_BYTES) with
  | none =>
    have hnone : ∀ r ∈ u.runs, ¬ Covers r pos := by
      intro r hr hc
      have := find?_eq_none.mp hrun r hr
      exact this (decide_eq_true hc)
    rw [hu.gaps pos hnone]
    exact iff_of_true rfl fun r hr hc => absurd hc (hnone r hr)
  | some r =>
    obtain ⟨hr, hcover⟩ := runAt_some hrun
    have hunique : ∀ r' ∈ u.runs, Covers r' pos → r' = r := fun r' hr' hc =>
      covers_unique hu hr' hr hc hcover
    have hbyte := hu.covered r hr (pos - r.sectorStart * SECTOR_BYTES) (by
      simp only [SECTOR_BYTES] at *
      omega)
    rw [show r.sectorStart * SECTOR_BYTES + (pos - r.sectorStart * SECTOR_BYTES) = pos by
      simp only [SECTOR_BYTES] at *
      omega] at hbyte
    have hfree : r.kind ≠ .zlib → u.Decodable pos := by
      intro hne r' hr' hc hkind
      rw [hunique r' hr' hc] at hkind
      exact absurd hkind hne
    unfold byte at hbyte
    rcases hu.kind r hr with hcount | hkind | hkind | hkind | hkind
    · omega
    · simp only [hkind] at hbyte ⊢
      exact iff_of_true hbyte (hfree (by rw [hkind]; nofun))
    · simp only [hkind] at hbyte ⊢
      exact iff_of_true hbyte (hfree (by rw [hkind]; nofun))
    · simp only [hkind] at hbyte ⊢
      exact iff_of_true hbyte (hfree (by rw [hkind]; nofun))
    · simp only [hkind] at hbyte ⊢
      obtain ⟨out, hout, hget⟩ := Option.bind_eq_some_iff.mp hbyte
      rw [readZlibRun_eq hu hr hkind hout]
      constructor
      · intro h r' hr' hc _
        rw [hunique r' hr' hc]
        by_contra hlimit
        rw [if_neg hlimit] at h
        cases h
      · intro h
        rw [if_pos (h r hr hcover hkind)]
        exact hget

end UdifFile

/-! ### Agreement -/

omit [FileSystem] in
lemma slice_eq_expected {disc : Bytes} {offset n : ℕ} (h : n = 0 ∨ offset + n ≤ disc.length) :
    disc.slice offset n = expected disc offset n := by
  refine ext_getElem? fun i => ?_
  rw [getElem?_slice, expected, getElem?_map]
  by_cases hi : i < n
  · rw [if_pos hi, getElem?_range hi, getElem?_eq_getElem (by omega)]
    simp only [Option.map_some, getD_eq_getElem?_getD,
      getElem?_eq_getElem (show offset + i < disc.length by omega), Option.getD_some]
  · rw [if_neg hi, getElem?_eq_none (by rw [length_range]; omega)]
    rfl

omit [FileSystem] in
lemma zeros_eq_expected_iff (disc : Bytes) (offset n : ℕ) :
    zeros n = expected disc offset n ↔ ∀ i < n, disc.getD (offset + i) 0 = 0 := by
  constructor
  · intro h i hi
    have hget := congrArg (·[i]?) h
    simp only [zeros, expected, getElem?_replicate, if_pos hi, getElem?_map,
      getElem?_range hi, Option.map_some, Option.some.injEq] at hget
    exact hget.symm
  · intro h
    refine ext_getElem? fun i => ?_
    rw [zeros, expected, getElem?_replicate, getElem?_map]
    by_cases hi : i < n
    · rw [if_pos hi, getElem?_range hi, Option.map_some, h i hi]
    · rw [if_neg hi, getElem?_eq_none (by rw [length_range]; omega)]
      rfl

lemma readOrZeros_iff (disc : Bytes) {offset n : ℕ} (h : offset + n ≤ FileSystem.largest) :
    readOrZeros disc offset n = .ok (expected disc offset n) ↔
      offset + n ≤ disc.length ∨ ∀ i < n, disc.getD (offset + i) 0 = 0 := by
  unfold readOrZeros seek failIf readExact
  rw [if_neg (by omega)]
  by_cases hin : n = 0 ∨ offset + n ≤ disc.length
  · rw [if_pos hin]
    refine iff_of_true (congrArg Except.ok (slice_eq_expected hin)) ?_
    rcases hin with rfl | hin
    · exact .inr fun i hi => absurd hi (Nat.not_lt_zero i)
    · exact .inl hin
  · rw [if_neg hin, if_pos h]
    change Except.ok (zeros n) = Except.ok (expected disc offset n) ↔ _
    rw [Except.ok.injEq, zeros_eq_expected_iff, or_iff_right (by omega)]

/-- Within the offsets of the file system, every reader fills the buffer with the bytes of the disc and
zeros past its end exactly if the read does not reach over the end of a disc with other bytes than
zeros before it, meets no qcow2 cluster whose zeros the reader would take from elsewhere in the file,
and no compressed run above the decoding limit. -/
theorem backends_agree_iff (inflate : Bytes → Option Bytes) (disc file : Bytes) (q : Qcow2File)
    (hopen : Qcow2File.open file = .ok q) (hplain : q.Plain) (hdisc : q.Holds disc)
    (u : UdifFile) (hu : u.Describes inflate disc) (cache : UdifFile.Cache)
    (hcache : u.Cached inflate cache) (offset n : ℕ) (hrange : offset + n ≤ FileSystem.largest) :
    ((DiskBackend.raw disc).readAt inflate offset n = .ok (expected disc offset n) ∧
      RawImage.readAt disc offset n = .ok (expected disc offset n) ∧
      (DiskBackend.qcow2 q).readAt inflate offset n = .ok (expected disc offset n) ∧
      (DiskBackend.udif u cache).readAt inflate offset n = .ok (expected disc offset n)) ↔
    (offset + n ≤ disc.length ∨ ∀ i < n, disc.getD (offset + i) 0 = 0) ∧
    (∀ i < n, q.Stray offset (offset + i) → q.ZeroAt (offset + i)) ∧
    ∀ i < n, u.Decodable (offset + i) := by
  have hq : (DiskBackend.qcow2 q).readAt inflate offset n = .ok (expected disc offset n) ↔
      ∀ i < n, q.Stray offset (offset + i) → q.ZeroAt (offset + i) := by
    have hcluster := Qcow2File.cluster_pos hopen
    refine (Qcow2File.readAt_iff hcluster).trans ?_
    exact forall₂_congr fun i _ => Qcow2File.view_iff hcluster hplain hdisc (Nat.le_add_right _ _)
  have hudif : (DiskBackend.udif u cache).readAt inflate offset n = .ok (expected disc offset n) ↔
      ∀ i < n, u.Decodable (offset + i) := by
    refine (UdifFile.readAt_iff hu hcache).trans ?_
    exact forall₂_congr fun i _ => UdifFile.view_iff hu
  rw [hq, hudif]
  simp only [DiskBackend.readAt, RawImage.readAt, readOrZeros_iff disc hrange]
  tauto

end Readers

/-- A version 2 image of a disc of one byte: the header, the first and the second table, the one
cluster. -/
def oneByteImage (x : Byte) : Bytes :=
  [0x51, 0x46, 0x49, 0xfb, 0, 0, 0, 2] ++ zeros 12 ++ [0, 0, 0, 9] ++ (leBytes 8 1).reverse ++
    zeros 4 ++ (leBytes 4 1).reverse ++ (leBytes 8 72).reverse ++ zeros 24 ++
    (leBytes 8 512).reverse ++ zeros 432 ++ (leBytes 8 1024).reverse ++ zeros 504 ++ x :: zeros 511

def oneByteQcow2 : Qcow2File := ⟨oneByteImage 7, 2, 1, 512, [512]⟩

def oneByteUdif : UdifFile := ⟨7 :: zeros 511, [⟨.raw, 0, 1, 0, 0⟩], 0⟩

lemma beAt_zeros {front back : Bytes} {n i k : ℕ} (hlow : front.length ≤ i)
    (hhigh : i + k ≤ front.length + n) : beAt k (front ++ zeros n ++ back) i = 0 := by
  rw [beAt, slice_append_left (by rwa [length_append, length_zeros]), slice_append_right hlow,
    slice_zeros (by omega), zeros, reverse_replicate]
  exact leVal_zeros k

lemma length_oneByteImage (x : Byte) : (oneByteImage x).length = 1536 := by simp [oneByteImage]

lemma oneByteQcow2_l2Entry {guest : ℕ} (hguest : guest < 64) :
    oneByteQcow2.l2Entry guest = some (if guest = 0 then 1024 else 0) := by
  have hl1 : oneByteQcow2.l1[guest / oneByteQcow2.l2Entries]? = some 512 := by
    rw [show guest / oneByteQcow2.l2Entries = 0 from Nat.div_eq_of_lt hguest]
    rfl
  have hmod : guest % oneByteQcow2.l2Entries = guest := Nat.mod_eq_of_lt hguest
  have hlength : oneByteQcow2.file.length = 1536 := length_oneByteImage 7
  rw [Qcow2File.l2Entry, hl1, Option.bind_some, if_neg (by decide), hmod, hlength, if_pos (by omega)]
  by_cases hzero : guest = 0
  · rw [if_pos hzero, hzero]
    decide +kernel
  · rw [if_neg hzero]
    exact congrArg some (beAt_zeros (by simp; omega) (by simp; omega))

lemma oneByteQcow2_plain : oneByteQcow2.Plain := by
  intro guest entry h
  by_cases hguest : guest < 64
  · rw [oneByteQcow2_l2Entry hguest] at h
    cases h
    split_ifs <;> decide
  · rw [Qcow2File.l2Entry, getElem?_eq_none] at h
    · cases h
    · simp only [oneByteQcow2, Qcow2File.l2Entries, length_singleton]
      omega

lemma oneByteUdif_describes : oneByteUdif.Describes some [7] where
  kind := by decide
  disjoint := pairwise_singleton _ _
  inside := by decide
  decoded := by
    intro r hr hkind
    rw [mem_singleton.mp hr] at hkind
    cases hkind
  covered := by
    intro r hr i hi
    rw [mem_singleton.mp hr] at hi ⊢
    change i < 1 * 512 at hi
    change (7 :: zeros 511)[0 + 0 + i]? = some ([(7 : Byte)].getD (0 * 512 + i) 0)
    rw [zero_mul, add_zero, zero_add]
    cases i with
    | zero => rfl
    | succ i =>
      rw [getElem?_cons_succ, zeros, getElem?_replicate, if_pos (by omega)]
      rfl
  gaps := by
    intro pos h
    have := h _ mem_cons_self
    cases pos with
    | zero => exact absurd ⟨le_rfl, Nat.one_pos⟩ this
    | succ pos => rfl

section Samples

local instance : FileSystem := signedOffsets

theorem backends_agree_sample : (DiskBackend.raw [7]).readAt some 0 1 = .ok (expected [7] 0 1) ∧
    RawImage.readAt [7] 0 1 = .ok (expected [7] 0 1) ∧
    (DiskBackend.qcow2 oneByteQcow2).readAt some 0 1 = .ok (expected [7] 0 1) ∧
    (DiskBackend.udif oneByteUdif none).readAt some 0 1 = .ok (expected [7] 0 1) := by
  refine (backends_agree_iff some [7] (oneByteImage 7) oneByteQcow2 ?_ oneByteQcow2_plain ?_
    oneByteUdif oneByteUdif_describes none (fun _ _ h => by cases h) 0 1 (by decide)).mpr
    ⟨.inl (by decide), ?_, ?_⟩
  · decide +kernel
  · exact ⟨rfl, by decide +kernel⟩
  · intro i hi hstray
    obtain rfl : i = 0 := by omega
    rcases hstray with ⟨-, entry, hentry, hodd⟩ | ⟨h, -⟩
    · have hplain : oneByteQcow2.l2Entry 0 = some 1024 := by decide +kernel
      change oneByteQcow2.l2Entry 0 = some entry at hentry
      rw [hplain, Option.some.injEq] at hentry
      rw [← hentry] at hodd
      cases hodd
    · exact absurd h (by decide)
  · intro i _ r hr _ hkind
    rw [mem_singleton.mp hr] at hkind
    cases hkind

/-- A read that reaches over the end of a raw file gives zeros for the bytes before it as well. -/
theorem raw_straddling_read_zeroed :
    (DiskBackend.raw [1]).readAt some 0 2 = .ok [0, 0] ∧ expected [1] 0 2 = [1, 0] := by decide

end Samples

end AppleUtils.Image
