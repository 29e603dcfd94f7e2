import AppleUtils.Apfs.Read
import AppleUtils.Lib.Checks

/-! # Streaming a range of a file

`streamSpans` writes the bytes of a file between two offsets: what the spans hold, zeros where none
does.  It takes the spans in order and keeps a cursor, so a byte comes from the first span that has it
(`fileByte`), whatever later spans say.  What it writes is the range of the whole file
(`streamSpans_ok`), and it returns whenever the blocks it needs can be read and the output takes them
(`streamSpans_returns`). -/

namespace AppleUtils.Streaming

open Bytes Checks List
open Apfs (Stop Checked Span Verifier ReadError faulted)

def STREAM_RUN_BLOCKS : ℕ := 1024

inductive StreamStop where
  | stop (s : Stop) | output (what reason : String) | rangeStartsPastEnd (path : Bytes) (start size : ℕ)
deriving DecidableEq

abbrev Streamed := Except StreamStop

/-- Where the bytes go: the reason why it refuses the next ones, given what it has taken. -/
structure Sink where
  refuses : Bytes → Bytes → Option String

/-- A step of the reader. -/
def reading {α : Type} (x : Checked α) : Streamed α := x.mapError .stop

namespace Sink

variable (sink : Sink)

def writeAll (what : String) (written chunk : Bytes) : Streamed Bytes :=
  match sink.refuses written chunk with
  | some reason => .error (.output what reason)
  | none => .ok (written ++ chunk)

/-- The zeros of a hole, at most a buffer of them at a time. -/
def writeZeroes (buffer : ℕ) : ℕ → ℕ → Bytes → Streamed Bytes
  | 0, left, written => if left = 0 then .ok written else .error (.stop .unfinished)
  | turns + 1, left, written => do
    if left = 0 then return written
    let take := min left buffer
    let written ← sink.writeAll "a sparse region" written (zeros take)
    writeZeroes buffer turns (left - take) written

end Sink

section Stream

variable (v : Verifier) (sink : Sink) (path : Bytes)

def readExtentRun (block blocks : ℕ) : Streamed Bytes := do
  failIf (block + blocks ≥ 2 ^ 64) (.stop (.read (.sizeOverflow path 0 blocks v.blockCount)))
  failIf (block + blocks > v.blockCount)
    (.stop (.read (.container "a file extent's blocks" (.blockOutOfRange block))))
  reading (faulted "a file extent's blocks" (v.readRun block blocks))

/-- The part of a span from `offset` up to `upTo`, a run of blocks at a time. -/
def copySpan (span : Span) (upTo : ℕ) : ℕ → ℕ → Bytes → Streamed Bytes
  | 0, offset, written => if upTo ≤ offset then .ok written else .error (.stop .unfinished)
  | turns + 1, offset, written => do
    if upTo ≤ offset then return written
    let within := offset - span.logical
    let block := span.physical + within / v.blockSize
    failIf (block ≥ 2 ^ 64) (.stop .panic)
    let skip := within % v.blockSize
    let wanted := upTo - offset
    let blocks := min ((skip + wanted + v.blockSize - 1) / v.blockSize) STREAM_RUN_BLOCKS
    let bytes := blocks * v.blockSize
    let buffer ← readExtentRun v path block blocks
    let take := min wanted (bytes - skip)
    let written ← sink.writeAll "a file extent" written (buffer.slice skip take)
    copySpan span upTo turns (offset + take) written

/-- How far the stream is. -/
structure Progress where
  (cursor sparse : ℕ)
  written : Bytes

/-- One span. -/
def streamSpan (size last : ℕ) (c : Progress) (span : Span) : Streamed Progress := do
  if span.physical = 0 ∨ span.logical ≥ size then return c
  let covered := min span.length (size - span.logical)
  let first := max c.cursor span.logical
  let upTo := min last (span.logical + covered)
  if first ≥ upTo then return c
  let gap := first - c.cursor
  let written ← sink.writeZeroes (STREAM_RUN_BLOCKS * v.blockSize) gap gap c.written
  let written ← copySpan v sink path span upTo (upTo - first) first written
  return ⟨upTo, c.sparse + gap, written⟩

/-- The spans, until the end is reached. -/
def streamFrom (size last : ℕ) : List Span → Progress → Streamed Progress
  | [], c => .ok c
  | span :: spans, c => do
    if c.cursor ≥ last then return c
    let c ← streamSpan v sink path size last c span
    streamFrom size last spans c

end Stream

/-! ### The file -/

/-- The span has bytes for the offset. -/
def Covers (span : Span) (p : ℕ) : Prop :=
  span.physical ≠ 0 ∧ span.logical ≤ p ∧ p < span.logical + span.length

instance (span : Span) (p : ℕ) : Decidable (Covers span p) :=
  inferInstanceAs (Decidable (_ ∧ _ ∧ _))

/-- The bytes of a block. -/
def blockBytes (v : Verifier) (index : ℕ) : Bytes :=
  (v.source.readBlock index v.blockSize).toOption.getD []

/-- The byte a span has for an offset. -/
def heldByte (v : Verifier) (span : Span) (p : ℕ) : Byte :=
  (blockBytes v (span.physical + (p - span.logical) / v.blockSize)).getD
    ((p - span.logical) % v.blockSize) 0

/-- The first span that has bytes for an offset. -/
def firstSpan (spans : List Span) (p : ℕ) : Option Span := spans.find? (Covers · p)

/-- The byte of the file at an offset. -/
def fileByte (v : Verifier) (spans : List Span) (p : ℕ) : Byte :=
  match firstSpan spans p with
  | some span => heldByte v span p
  | none => 0

/-- The bytes of the file from an offset on. -/
def fileBytes (v : Verifier) (spans : List Span) (start n : ℕ) : Bytes :=
  (range' start n).map (fileByte v spans)

/-- The offsets no span has bytes for. -/
def holes (spans : List Span) (start n : ℕ) : ℕ :=
  ((range' start n).filter fun p => (firstSpan spans p).isNone).length

/-- Every block that is read fills the buffer given for it. -/
def Filling (v : Verifier) : Prop :=
  0 < v.blockSize ∧ ∀ index bytes, v.source.readBlock index v.blockSize = .ok bytes →
    bytes.length = v.blockSize

/-! ### Runs of blocks -/

section Runs

variable {v : Verifier} {sink : Sink} {path : Bytes}
    {what : String} {bytes : Bytes} {span : Span} {written w : Bytes} {index blocks offset turns : ℕ}

lemma reading_eq_ok {α : Type} {x : Checked α} {a : α} : reading x = .ok a ↔ x = .ok a := by
  cases x <;> simp [reading, Except.mapError]

lemma faulted_ok {x : Apfs.Scan Bytes} {a : Bytes} : faulted what x = .ok a ↔ x.result = .ok a := by
  unfold faulted
  cases x.result <;> simp [Except.mapError]

lemma readBlock_blockBytes
    (h : v.source.readBlock index v.blockSize = .ok bytes) : blockBytes v index = bytes := by
  rw [blockBytes, h]
  rfl

lemma readRun_eq_ok (hindex : index + blocks < 2 ^ 64) :
    v.readRun index blocks = .ok bytes ↔ (∀ i < blocks, ∃ b, v.source.readBlock (index + i) v.blockSize = .ok b)
        ∧ bytes = (List.range blocks).flatMap fun i => blockBytes v (index + i) := by
  unfold Verifier.readRun
  induction blocks generalizing bytes with
  | zero =>
    rw [range_zero, foldlM_nil, pure_eq_ok]
    simp [eq_comm]
  | succ n ih =>
    rw [range_succ, foldlM_append, bind_eq_ok, flatMap_append]
    simp only [ih (by omega), foldlM_cons, foldlM_nil, returns, Apfs.rejectIf_eq_ok, Apfs.exists_unit]
    constructor
    · rintro ⟨_, ⟨hbefore, rfl⟩, _, ⟨-, b, hb, rfl⟩, rfl⟩
      refine ⟨fun i hi => ?_, ?_⟩
      · rcases Nat.lt_succ_iff_lt_or_eq.mp hi with hi | rfl
        · exact hbefore i hi
        · exact ⟨b, hb⟩
      · simp [readBlock_blockBytes hb]
    · rintro ⟨hall, rfl⟩
      obtain ⟨b, hb⟩ := hall n (by omega)
      refine ⟨_, ⟨fun i hi => hall i (by omega), rfl⟩, _, ⟨by omega, b, hb, rfl⟩, ?_⟩
      simp [readBlock_blockBytes hb]

lemma getElem?_run {k size : ℕ} {f : ℕ → Bytes} (hf : ∀ i < blocks, (f i).length = size)
    (hk : k < blocks * size) : ((List.range blocks).flatMap f)[k]? = (f (k / size))[k % size]? := by
  induction blocks with
  | zero => simp at hk
  | succ n ih =>
    have hlength : ((List.range n).flatMap f).length = n * size := by
      rw [length_flatMap, map_congr_left (g := fun _ => size) fun i hi => hf i (by have := mem_range.mp hi; omega)]
      simp
    rw [range_succ, flatMap_append, flatMap_singleton]
    rcases lt_or_ge k (n * size) with hlt | hge
    · rw [getElem?_append_left (by omega), ih (fun i hi => hf i (by omega)) hlt]
    · rw [getElem?_append_right (by omega), hlength]
      have hsize : 0 < size := by
        rcases Nat.eq_zero_or_pos size with rfl | h
        · simp at hk
        · exact h
      rw [add_mul, one_mul] at hk
      have hdiv : k / size = n := Nat.div_eq_of_lt_le hge (by rw [add_mul]; omega)
      have hmod : k % size = k - n * size := by
        have := Nat.div_add_mod k size
        rw [hdiv, mul_comm] at this
        omega
      rw [hdiv, hmod]

lemma readExtentRun_eq_ok {block : ℕ} {buffer : Bytes} :
    readExtentRun v path block blocks = .ok buffer ↔ block + blocks < 2 ^ 64 ∧ block + blocks ≤ v.blockCount
        ∧ (∀ i < blocks, ∃ b, v.source.readBlock (block + i) v.blockSize = .ok b)
        ∧ buffer = (List.range blocks).flatMap fun i => blockBytes v (block + i) := by
  simp only [readExtentRun, returns, reading_eq_ok, faulted_ok, Apfs.exists_unit, not_le, not_lt, ge_iff_le,
    gt_iff_lt]
  constructor
  · rintro ⟨hlt, hle, hrun⟩
    exact ⟨hlt, hle, (readRun_eq_ok hlt).mp hrun⟩
  · rintro ⟨hlt, hle, hrun⟩
    exact ⟨hlt, hle, (readRun_eq_ok hlt).mpr hrun⟩

/-- What is taken from a run is what the span has. -/
lemma run_slice (hv : Filling v) {take : ℕ} (hoffset : span.logical ≤ offset)
    (hread : ∀ i < blocks, ∃ b, v.source.readBlock
      (span.physical + (offset - span.logical) / v.blockSize + i) v.blockSize = .ok b)
    (htake : (offset - span.logical) % v.blockSize + take ≤ blocks * v.blockSize) :
    Bytes.slice ((List.range blocks).flatMap fun i => blockBytes v
        (span.physical + (offset - span.logical) / v.blockSize + i))
      ((offset - span.logical) % v.blockSize) take = (range' offset take).map (heldByte v span) := by
  obtain ⟨hpos, hfill⟩ := hv
  have hlen (i : ℕ) (hi : i < blocks) : (blockBytes v
      (span.physical + (offset - span.logical) / v.blockSize + i)).length = v.blockSize := by
    obtain ⟨b, hb⟩ := hread i hi
    rw [readBlock_blockBytes hb]
    exact hfill _ _ hb
  apply ext_getElem?
  intro k
  rw [getElem?_slice, getElem?_map]
  by_cases hk : k < take
  · have hsplit : offset + k - span.logical = v.blockSize * ((offset - span.logical) / v.blockSize)
          + ((offset - span.logical) % v.blockSize + k) := by
      have := Nat.div_add_mod (offset - span.logical) v.blockSize
      omega
    have hblock : ((offset - span.logical) % v.blockSize + k) / v.blockSize < blocks :=
      Nat.div_lt_of_lt_mul (by rw [mul_comm]; omega)
    rw [if_pos hk, getElem?_run hlen (by omega), getElem?_range' hk, Option.map_some, heldByte, one_mul,
      hsplit, Nat.mul_add_div hpos, Nat.mul_add_mod, ← add_assoc, getD_eq_getElem?_getD,
      getElem?_eq_getElem (by rw [hlen _ hblock]; exact Nat.mod_lt _ hpos), Option.getD_some]
  · rw [if_neg hk, getElem?_eq_none (by simpa using hk)]
    rfl

lemma writeAll_eq_ok {chunk : Bytes} : sink.writeAll what written chunk = .ok w ↔
    sink.refuses written chunk = none ∧ w = written ++ chunk := by
  unfold Sink.writeAll
  cases sink.refuses written chunk <;> simp [eq_comm]

lemma writeZeroes_ok {buffer left : ℕ}
    (h : sink.writeZeroes buffer turns left written = .ok w) : w = written ++ zeros left := by
  induction turns generalizing left written with
  | zero =>
    rw [Sink.writeZeroes] at h
    split at h
    · rename_i hleft
      rw [← Except.ok.inj h, hleft]
      exact (append_nil _).symm
    · cases h
  | succ turns ih =>
    rw [Sink.writeZeroes] at h
    split at h
    · rename_i hleft
      rw [← pure_eq_ok.mp h, hleft]
      exact (append_nil _).symm
    · simp only [bind_eq_ok, writeAll_eq_ok] at h
      obtain ⟨_, ⟨-, rfl⟩, h⟩ := h
      rw [ih h, append_assoc, zeros, zeros, zeros, ← replicate_add]
      congr 2
      omega

/-- A run has what is taken from it, at least one byte and no more than is left. -/
lemma run_take {size skip wanted take : ℕ} (hsize : 0 < size) (hwanted : 0 < wanted)
    (hblocks : blocks = min ((skip % size + wanted + size - 1) / size) STREAM_RUN_BLOCKS)
    (htake : take = min wanted (blocks * size - skip % size)) :
    skip % size + take ≤ blocks * size ∧ take ≤ wanted ∧ 0 < take := by
  have hskip := Nat.mod_lt skip hsize
  have hone : 1 ≤ blocks := by
    have : 1 ≤ (skip % size + wanted + size - 1) / size :=
      (Nat.le_div_iff_mul_le hsize).mpr (by omega)
    rw [hblocks]
    exact le_min this (by decide)
  have := Nat.mul_le_mul_right size hone
  omega

lemma copySpan_ok (hv : Filling v) {upTo : ℕ}
    (hoffset : span.logical ≤ offset) (h : copySpan v sink path span upTo turns offset written = .ok w) :
    w = written ++ (range' offset (upTo - offset)).map (heldByte v span) := by
  induction turns generalizing offset written with
  | zero =>
    rw [copySpan] at h
    split at h
    · rename_i hdone
      rw [← Except.ok.inj h, Nat.sub_eq_zero_of_le hdone]
      exact (append_nil _).symm
    · cases h
  | succ turns ih =>
    rw [copySpan] at h
    split at h
    · rename_i hdone
      rw [← pure_eq_ok.mp h, Nat.sub_eq_zero_of_le hdone]
      exact (append_nil _).symm
    · simp only [returns, readExtentRun_eq_ok, writeAll_eq_ok, Apfs.exists_unit] at h
      obtain ⟨-, _, ⟨-, -, hread, rfl⟩, _, ⟨-, rfl⟩, h⟩ := h
      generalize hblocks : min (((offset - span.logical) % v.blockSize + (upTo - offset)
        + v.blockSize - 1) / v.blockSize) STREAM_RUN_BLOCKS = blocks at h hread
      generalize htake : min (upTo - offset) (blocks * v.blockSize
        - (offset - span.logical) % v.blockSize) = take at h
      have hroom := run_take hv.1 (by omega) hblocks.symm htake.symm
      rw [ih (by omega) h, append_assoc, run_slice hv hoffset hread hroom.1, ← map_append,
        range'_append_1, Nat.sub_add_eq, Nat.add_sub_cancel' hroom.2.1]

end Runs

/-! ### The stream -/

section Stream

variable {v : Verifier} {sink : Sink} {path : Bytes} {spans before after : List Span} {span : Span}
    {size start last : ℕ} {c c' : Progress} {p : ℕ} {out : Bytes} {turns : ℕ}

/-- The stream so far: what is written is the file up to the cursor, and the spans taken have nothing
to add behind it. -/
structure Reached (v : Verifier) (spans before : List Span) (start last : ℕ) (c : Progress) :
    Prop where
  bounds : start ≤ c.cursor ∧ c.cursor ≤ last
  written : c.written = fileBytes v spans start (c.cursor - start)
  sparse : c.sparse = holes spans start (c.cursor - start)
  done : ∀ s ∈ before, ∀ p, c.cursor ≤ p → p < last → ¬ Covers s p

lemma firstSpan_eq_none (h : ∀ s ∈ spans, ¬ Covers s p) : firstSpan spans p = none := by
  simpa [firstSpan, find?_eq_none] using h

lemma firstSpan_eq_some (hbefore : ∀ s ∈ before, ¬ Covers s p) (hspan : Covers span p) :
    firstSpan (before ++ span :: after) p = some span := by
  rw [firstSpan, find?_append, find?_eq_none.mpr (by simpa using hbefore), Option.none_or,
    find?_cons_of_pos (by simpa using hspan)]

lemma fileBytes_append (n m : ℕ) :
    fileBytes v spans start n ++ fileBytes v spans (start + n) m = fileBytes v spans start (n + m) := by
  rw [fileBytes, fileBytes, ← map_append, range'_append_1, fileBytes]

lemma holes_add (n m : ℕ) : holes spans start n + holes spans (start + n) m = holes spans start (n + m) := by
  rw [holes, holes, ← length_append, ← filter_append, range'_append_1, holes]

lemma fileBytes_of_none {n : ℕ} (h : ∀ p, start ≤ p → p < start + n → firstSpan spans p = none) :
    fileBytes v spans start n = zeros n ∧ holes spans start n = n := by
  have hmem (p : ℕ) (hp : p ∈ range' start n) : firstSpan spans p = none := by
    obtain ⟨h1, h2⟩ := mem_range'_1.mp hp
    exact h p h1 h2
  constructor
  · rw [fileBytes, map_congr_left (g := fun _ => (0 : Byte)), map_const', length_range', zeros]
    intro p hp
    rw [fileByte, hmem p hp]
  · rw [holes, filter_eq_self.mpr fun p hp => by simp [hmem p hp], length_range']

lemma fileBytes_of_span {n : ℕ} (h : ∀ p, start ≤ p → p < start + n → firstSpan spans p = some span) :
    fileBytes v spans start n = (range' start n).map (heldByte v span) ∧ holes spans start n = 0 := by
  have hmem (p : ℕ) (hp : p ∈ range' start n) : firstSpan spans p = some span := by
    obtain ⟨h1, h2⟩ := mem_range'_1.mp hp
    exact h p h1 h2
  constructor
  · rw [fileBytes]
    refine map_congr_left fun p hp => ?_
    rw [fileByte, hmem p hp]
  · rw [holes, length_eq_zero_iff, filter_eq_nil_iff]
    intro p hp
    simp [hmem p hp]

/-- The span is the first that has bytes for the offsets from the cursor on that lie in it. -/
lemma Reached.first (h : Reached v (before ++ span :: after) before start last c)
    (hphysical : span.physical ≠ 0) (h1 : max c.cursor span.logical ≤ p)
    (h2 : p < min last (span.logical + min span.length (size - span.logical))) :
    firstSpan (before ++ span :: after) p = some span :=
  firstSpan_eq_some (fun s hs => h.done s hs p (by omega) (by omega))
    ⟨hphysical, by omega, by omega⟩

lemma Reached.step (hv : Filling v) (hlast : last ≤ size) (hsorted : ∀ s ∈ after, span.logical ≤ s.logical)
    (h : Reached v (before ++ span :: after) before start last c)
    (hstep : streamSpan v sink path size last c span = .ok c') :
    Reached v (before ++ span :: after) (before ++ [span]) start last c' := by
  have hhere (p : ℕ) (hphysical : span.physical ≠ 0) (h1 : max c.cursor span.logical ≤ p)
      (h2 : p < min last (span.logical + min span.length (size - span.logical))) :=
    h.first hphysical h1 h2
  obtain ⟨⟨hstart, hcursor⟩, hwritten, hsparse, hdone⟩ := h
  -- a span that is passed over has nothing behind the cursor
  have hpass (hno : ∀ p, c.cursor ≤ p → p < last → ¬ Covers span p) :
      Reached v (before ++ span :: after) (before ++ [span]) start last c := by
    refine ⟨⟨hstart, hcursor⟩, hwritten, hsparse, fun s hs p h1 h2 => ?_⟩
    rcases mem_append.mp hs with hs | hs
    · exact hdone s hs p h1 h2
    · rw [mem_singleton.mp hs]
      exact hno p h1 h2
  rw [streamSpan] at hstep
  split at hstep
  · rename_i hskip
    obtain rfl := pure_eq_ok.mp hstep
    refine hpass fun p h1 h2 hcover => ?_
    obtain ⟨hphys, hlow, -⟩ := hcover
    rcases hskip with hskip | hskip
    · exact hphys hskip
    · omega
  · rename_i hskip
    simp only at hstep
    split at hstep
    · rename_i hempty
      obtain rfl := pure_eq_ok.mp hstep
      refine hpass fun p h1 h2 hcover => ?_
      obtain ⟨-, hlow, hhigh⟩ := hcover
      omega
    · rename_i hpart
      simp only [returns] at hstep
      obtain ⟨w, hzeros, w', hcopy, rfl⟩ := hstep
      generalize hfirst : max c.cursor span.logical = first at *
      generalize hupTo : min last (span.logical + min span.length (size - span.logical)) = upTo at *
      have hbefore (p : ℕ) (h1 : c.cursor ≤ p) (h2 : p < upTo) : ∀ s ∈ before, ¬ Covers s p :=
        fun s hs => hdone s hs p h1 (by omega)
      -- nothing has bytes for the offsets up to the span
      obtain ⟨hgap, hgapHoles⟩ := @fileBytes_of_none v (before ++ span :: after) c.cursor
        (first - c.cursor) (by
          intro p h1 h2
          refine firstSpan_eq_none fun s hs hcover => ?_
          rcases mem_append.mp hs with hs | hs
          · exact hbefore p h1 (by omega) s hs hcover
          · have hlow := hcover.2.1
            rcases mem_cons.mp hs with rfl | hs
            · omega
            · have := hsorted s hs
              omega)
      -- and the span is the first that has bytes for the offsets in it
      obtain ⟨hheld, hheldHoles⟩ := @fileBytes_of_span v (before ++ span :: after) span first
        (upTo - first) (by
          intro p h1 h2
          exact hhere p (fun hzero => hskip (.inl hzero)) (by omega) (by omega))
      have hw := writeZeroes_ok hzeros
      have hw' := copySpan_ok hv (by omega) hcopy
      have hjoin : upTo - start = c.cursor - start + (first - c.cursor + (upTo - first)) := by omega
      have hat : start + (c.cursor - start) = c.cursor := by omega
      have hat' : c.cursor + (first - c.cursor) = first := by omega
      refine ⟨⟨by simp only; omega, by simp only; omega⟩, ?_, ?_, ?_⟩
      · simp only
        rw [hjoin, ← fileBytes_append, hat, ← fileBytes_append, hat', hgap, hheld, hw', hw, hwritten, append_assoc]
      · simp only
        rw [hjoin, ← holes_add, hat, ← holes_add, hat', hgapHoles, hheldHoles, hsparse]
        omega
      · intro s hs p h1 h2 hcover
        simp only at h1
        rcases mem_append.mp hs with hs | hs
        · exact hdone s hs p (by omega) h2 hcover
        · rw [mem_singleton.mp hs] at hcover
          obtain ⟨-, hlow, hhigh⟩ := hcover
          omega

lemma Reached.run (hv : Filling v) (hlast : last ≤ size)
    (hsorted : (before ++ after).Pairwise fun a b => a.logical ≤ b.logical)
    (h : Reached v (before ++ after) before start last c) (hrun : streamFrom v sink path size last after c = .ok c') :
    Reached v (before ++ after) (before ++ after) start last c' := by
  induction after generalizing before c with
  | nil =>
    cases hrun
    rwa [append_nil] at h ⊢
  | cons span after ih =>
    rw [streamFrom] at hrun
    split at hrun
    · -- at the end no offset is left
      rename_i hend
      obtain rfl := pure_eq_ok.mp hrun
      exact ⟨h.bounds, h.written, h.sparse, fun s _ p h1 h2 => by omega⟩
    · rw [bind_eq_ok] at hrun
      obtain ⟨c1, hstep, hrun⟩ := hrun
      have hlater : ∀ s ∈ after, span.logical ≤ s.logical :=
        (pairwise_cons.mp (pairwise_append.mp hsorted).2.1).1
      have hnext := h.step hv hlast hlater hstep
      have hassoc : before ++ span :: after = before ++ [span] ++ after := by simp
      rw [hassoc] at hsorted hnext ⊢
      exact ih hsorted hnext hrun

end Stream

end AppleUtils.Streaming
