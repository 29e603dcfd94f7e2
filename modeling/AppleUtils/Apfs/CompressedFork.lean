import AppleUtils.Apfs.Read
import AppleUtils.Codec.Inflate
import AppleUtils.Codec.Lzvn

/-! # Compressed forks

A compressed file is a list of blocks, named by a table in its resource fork (zlib) or at the front of
an attribute (LZVN).  `expandResourceFork` and `expandLzvnFork` expand the blocks one behind the
other, each with what is left of the declared size as its limit.

Both have the same loop (`expandFrom`), and one invariant covers it: what is out is the concatenation
of what the blocks so far expand to, and no longer than the declared size. -/

namespace AppleUtils.CompressedFork

open Bytes Checks Ends
open Inflate (InflateError zlibInflate)
open Lzvn (LzvnError)

inductive ForkError where
  | resourceForkMalformed (path : Bytes) (fileId : ℕ) (reason : String)
  | compressedStreamBroken (path : Bytes) (fileId block : ℕ) (source : InflateError)
  | lzvnStreamBroken (path : Bytes) (fileId block : ℕ) (source : LzvnError)

inductive Fault where
  | refused (error : ForkError) | panic | unfinished

instance : Panics Fault := ⟨.panic⟩

abbrev Forked := Except Fault

def DECMPFS_BLOCK_STORED_MARKER : ℕ := 0x0F
def DECMPFS_LZVN_STORED_MARKER : ℕ := 0x06
def DECMPFS_BLOCK_BYTES : ℕ := 0x10000
def RSRC_HEADER_BYTES : ℕ := 16
def RSRC_DATA_OFFSET_OFFSET : ℕ := 0x00
def RSRC_DATA_LENGTH_OFFSET : ℕ := 0x08
def RSRC_ENTRY_LENGTH_BYTES : ℕ := 4
def RSRC_BLOCK_ENTRY_BYTES : ℕ := 8
def LZVN_TABLE_ENTRY_BYTES : ℕ := 4

def beU32At (b : Bytes) (i : ℕ) : Forked ℕ := do
  failIf (b.length < i + 4) .panic
  return beAt 4 b i

def u32At (b : Bytes) (i : ℕ) : Forked ℕ := do
  failIf (b.length < i + 4) .panic
  return leAt 4 b i

/-! ### Blocks -/

def expandBlock (block : Bytes) (limit : ℕ) (out : Bytes) : Inflate.Inflating Bytes :=
  match block with
  | [] => .error (.refused .truncated)
  | first :: body =>
    if first.toNat % 16 = DECMPFS_BLOCK_STORED_MARKER then do
      failIf (body.length > limit) (.refused (.outputTooLarge limit))
      return out ++ body
    else do
      let bytes ← zlibInflate (first :: body) limit
      return out ++ bytes

def expandLzvnBlock (block : Bytes) (limit : ℕ) (out : Bytes) : Outcome Lzvn.Fault Bytes :=
  match block with
  | [] => .error (.refused (.truncated 0))
  | first :: body =>
    if first.toNat = DECMPFS_LZVN_STORED_MARKER then
      if body.length > limit then .error (.refused (.outputTooLarge limit)) else .ok (out ++ body)
    else
      let r := (Lzvn.decodeOnto (first :: body) limit).run out
      match r.outcome with
      | .ok () => .ok r.state
      | .error e => .error e
      | .running => .running

section Forks

variable (fileId : ℕ) (path : Bytes)

def malformed (reason : String) : Fault := .refused (.resourceForkMalformed path fileId reason)

def zlibBlock (index : ℕ) (block : Bytes) (limit : ℕ) (out : Bytes) : Forked Bytes :=
  match expandBlock block limit out with
  | .ok out => .ok out
  | .error (.refused source) => .error (.refused (.compressedStreamBroken path fileId index source))
  | .error .panic => .error .panic
  | .error .unfinished => .error .unfinished

def lzvnBlock (index : ℕ) (block : Bytes) (limit : ℕ) (out : Bytes) : Forked Bytes :=
  match expandLzvnBlock block limit out with
  | .ok out => .ok out
  | .error (.refused source) => .error (.refused (.lzvnStreamBroken path fileId index source))
  | .error .panic => .error .panic
  | .running => .error .unfinished

/-! ### Forks -/

/-- The blocks from an index on, each behind what is out. -/
def expandFrom (locate : ℕ → Forked Bytes) (expand : ℕ → Bytes → ℕ → Bytes → Forked Bytes) (size : ℕ) :
    ℕ → ℕ → Bytes → Forked Bytes
  | 0, _, out => .ok out
  | n + 1, index, out => do
    let block ← locate index
    let remaining := size - min out.length size
    let out ← expand index block (min remaining DECMPFS_BLOCK_BYTES) out
    expandFrom locate expand size n (index + 1) out

def locateZlib (fork : Bytes) (tableAt tableEnd dataEnd index : ℕ) : Forked Bytes := do
  let entry := tableAt + 4 + index * RSRC_BLOCK_ENTRY_BYTES
  let offset ← u32At fork entry
  let blockAt := tableAt + offset
  let blockLength ← u32At fork (entry + 4)
  let blockEnd := blockAt + blockLength
  failIf (¬ (tableEnd ≤ blockEnd ∧ blockEnd ≤ dataEnd))
    (malformed fileId path "a compressed block leaves the resource data")
  sliceAt fork blockAt blockLength

/-- The sums are of numbers of 32 bits and stay inside 64. -/
def expandResourceFork (fork : Bytes) (size : ℕ) : Forked Bytes := do
  failIf (fork.length < RSRC_HEADER_BYTES)
    (malformed fileId path "it is shorter than a resource fork header")
  let dataAt ← beU32At fork RSRC_DATA_OFFSET_OFFSET
  let dataLength ← beU32At fork RSRC_DATA_LENGTH_OFFSET
  let dataEnd := dataAt + dataLength
  failIf (fork.length < dataEnd) (malformed fileId path "the resource data leaves the fork")
  failIf (dataLength < RSRC_ENTRY_LENGTH_BYTES)
    (malformed fileId path "the resource data is shorter than one entry")
  let tableAt := dataAt + RSRC_ENTRY_LENGTH_BYTES
  let entryLength ← beU32At fork dataAt
  failIf (dataEnd < tableAt + entryLength)
    (malformed fileId path "the resource entry leaves the resource data")
  failIf (entryLength < 4)
    (malformed fileId path "the resource entry is shorter than a block count")
  let blocks ← u32At fork tableAt
  let tableEnd := tableAt + (4 + blocks * RSRC_BLOCK_ENTRY_BYTES)
  failIf (dataEnd < tableEnd) (malformed fileId path "the block table leaves the resource data")
  let out ← withCapacity size
  expandFrom (locateZlib fileId path fork tableAt tableEnd dataEnd) (zlibBlock fileId path) size
    blocks 0 out

def locateLzvn (fork : Bytes) (tableBytes index : ℕ) : Forked Bytes := do
  let first ← u32At fork (index * LZVN_TABLE_ENTRY_BYTES)
  let last ← u32At fork ((index + 1) * LZVN_TABLE_ENTRY_BYTES)
  failIf (first < tableBytes ∨ last < first ∨ fork.length < last)
    (malformed fileId path "a block leaves the attribute")
  let length ← minus last first
  sliceAt fork first length

def expandLzvnFork (fork : Bytes) (size : ℕ) : Forked Bytes := do
  failIf (fork.length < LZVN_TABLE_ENTRY_BYTES)
    (malformed fileId path "it is shorter than one block table entry")
  let tableBytes ← u32At fork 0
  failIf (tableBytes < 2 * LZVN_TABLE_ENTRY_BYTES ∨ tableBytes % LZVN_TABLE_ENTRY_BYTES ≠ 0
      ∨ fork.length < tableBytes)
    (malformed fileId path "the block table length is not a whole table inside the attribute")
  let blocks := tableBytes / LZVN_TABLE_ENTRY_BYTES - 1
  let out ← withCapacity size
  expandFrom (locateLzvn fileId path fork tableBytes) (lzvnBlock fileId path) size blocks 0 out

end Forks

/-- The codec of the reader. -/
def decmpfs : Apfs.Decmpfs where
  expand stored compressionType size :=
    if compressionType = 3 then
      (withCapacity size : Forked Bytes).toOption.bind fun out => (expandBlock stored size out).toOption
    else if compressionType = 4 then (expandResourceFork 0 [] stored size).toOption
    else if compressionType = 7 then
      (withCapacity size : Forked Bytes).toOption.bind fun out =>
        match expandLzvnBlock stored size out with
        | .ok out => some out
        | .error _ => none
        | .running => none
    else if compressionType = 8 then (expandLzvnFork 0 [] stored size).toOption
    else none

/-! ### What a table names, and what its blocks expand to -/

def resourceTable (fork : Bytes) : ℕ := beAt 4 fork 0 + 4

/-- The block of an entry in the table of a resource fork. -/
def resourceBlock (fork : Bytes) (index : ℕ) : Bytes :=
  let entry := resourceTable fork + 4 + index * 8
  fork.slice (resourceTable fork + leAt 4 fork entry) (leAt 4 fork (entry + 4))

def resourceBlocks (fork : Bytes) : List Bytes :=
  (List.range (leAt 4 fork (resourceTable fork))).map (resourceBlock fork)

/-- The block between two entries of the table of an attribute. -/
def attributeBlock (fork : Bytes) (index : ℕ) : Bytes :=
  let first := leAt 4 fork (index * 4)
  fork.slice first (leAt 4 fork ((index + 1) * 4) - first)

def attributeBlocks (fork : Bytes) : List Bytes :=
  (List.range (leAt 4 fork 0 / 4 - 1)).map (attributeBlock fork)

/-- What a block of a resource fork stands for: the bytes behind its marker if it is stored. -/
def ZlibExpands (block : Bytes) (limit : ℕ) (piece : Bytes) : Prop :=
  match block with
  | [] => False
  | first :: body =>
    if first.toNat % 16 = DECMPFS_BLOCK_STORED_MARKER then piece = body
    else zlibInflate block limit = .ok piece

def LzvnExpands (block : Bytes) (limit : ℕ) (piece : Bytes) : Prop :=
  match block with
  | [] => False
  | first :: body =>
    if first.toNat = DECMPFS_LZVN_STORED_MARKER then piece = body
    else Lzvn.decode block limit = .ok piece

/-- The output is one piece behind the other, each what the block at its place expands to within
what is left of the size. -/
def Concatenates (expands : Bytes → ℕ → Bytes → Prop) (size : ℕ) (blocks : List Bytes) (out : Bytes) : Prop :=
  ∃ pieces : List Bytes, out = pieces.flatten ∧ pieces.length = blocks.length ∧
    ∀ i block piece, blocks[i]? = some block → pieces[i]? = some piece →
      expands block (min (size - (pieces.take i).flatten.length) DECMPFS_BLOCK_BYTES) piece

/-! ### Proofs -/

def Refusal (f : Fault) : Prop := ∃ e, f = .refused e

/-- A check that refuses a fork as malformed, before the rest. -/
lemma malformedIf_ends {c : Prop} [Decidable c] {rest : Unit → Except Fault α} {Q : α → Prop}
    (h : ¬ c → Ends Refusal (rest ()) Q) : Ends Refusal (Checks.failIf c (malformed fileId path reason) >>= rest) Q :=
  bind_iff.mpr ((Ends.failIf ⟨_, rfl⟩).conseq fun _ => h)

lemma beU32At_of_le {b : Bytes} {i : ℕ} (h : i + 4 ≤ b.length) : beU32At b i = .ok (beAt 4 b i) := by
  rw [beU32At, bind_ok (a := ()) (failIf_eq_ok.mpr (by omega))]
  rfl

lemma u32At_of_le {b : Bytes} {i : ℕ} (h : i + 4 ≤ b.length) : u32At b i = .ok (leAt 4 b i) := by
  rw [u32At, bind_ok (a := ()) (failIf_eq_ok.mpr (by omega))]
  rfl

lemma expandBlock_ends {block : Bytes} {limit : ℕ} {out : Bytes} :
    Ends Inflate.Refusal (expandBlock block limit out) fun out' =>
      ∃ piece, out' = out ++ piece ∧ piece.length ≤ limit ∧ ZlibExpands block limit piece := by
  unfold expandBlock
  split
  · exact ⟨_, rfl⟩
  · rename_i first body
    split
    · rename_i hstored
      rw [bind_iff]
      refine (Inflate.failIf_ends ⟨_, rfl⟩).conseq fun _ hroom => ⟨body, rfl, by omega, ?_⟩
      rw [ZlibExpands, if_pos hstored]
    · rename_i hstored
      rw [bind_iff]
      cases hinflate : zlibInflate (first :: body) limit with
      | error f => exact Inflate.zlibInflate_ends.of_error hinflate
      | ok piece =>
        refine ⟨piece, rfl, Inflate.zlibInflate_ends.of_ok hinflate, ?_⟩
        rw [ZlibExpands, if_neg hstored]
        exact hinflate

section Blocks

variable {fileId : ℕ} {path : Bytes} {index : ℕ} {block : Bytes} {limit : ℕ} {out : Bytes}

lemma zlibBlock_ends : Ends Refusal (zlibBlock fileId path index block limit out) fun out' =>
    ∃ piece, out' = out ++ piece ∧ piece.length ≤ limit ∧ ZlibExpands block limit piece := by
  have hends : Ends Inflate.Refusal (expandBlock block limit out) _ := expandBlock_ends
  unfold zlibBlock
  cases h : expandBlock block limit out with
  | ok out' => exact hends.of_ok h
  | error f =>
    obtain ⟨e, rfl⟩ := hends.of_error h
    exact ⟨_, rfl⟩

lemma lzvnBlock_ends (hroom : out.length + limit ≤ isizeMax) :
    Ends Refusal (lzvnBlock fileId path index block limit out) fun out' =>
      ∃ piece, out' = out ++ piece ∧ piece.length ≤ limit ∧ LzvnExpands block limit piece := by
  unfold lzvnBlock
  cases block with
  | nil => exact ⟨_, rfl⟩
  | cons first body =>
    rw [expandLzvnBlock]
    by_cases hstored : first.toNat = DECMPFS_LZVN_STORED_MARKER
    · rw [if_pos hstored]
      by_cases hlimit : body.length > limit
      · rw [if_pos hlimit]
        exact ⟨_, rfl⟩
      · rw [if_neg hlimit]
        refine ⟨body, rfl, by omega, ?_⟩
        rw [LzvnExpands, if_pos hstored]
    · rw [if_neg hstored, Lzvn.decodeOnto_run _ (Nat.lt_of_le_of_lt hroom (by decide))]
      obtain ⟨hends, hlength⟩ := Lzvn.decodeLoop_ends (first :: body) limit
      have hdecode : ∀ u, ((Lzvn.decodeLoop (.after (first :: body) limit [])).run []).outcome = .ok u →
          Lzvn.decode (first :: body) limit =
            .ok ((Lzvn.decodeLoop (.after (first :: body) limit [])).run []).state := by
        intro u hok
        rw [Lzvn.decode_of_le _ (Nat.le_trans (Nat.le_add_left _ _) hroom), hok]
      generalize (Lzvn.decodeLoop (.after (first :: body) limit [])).run [] = r at hends hlength hdecode
      simp only [Result.map]
      obtain ho | ⟨e, ho⟩ := hends
      · rw [ho]
        refine ⟨r.state, rfl, hlength, ?_⟩
        rw [LzvnExpands, if_neg hstored]
        exact hdecode () ho
      · rw [ho]
        exact ⟨_, rfl⟩

end Blocks

/-- The loop, with the blocks it is to find and what each of them expands to. -/
lemma expandFrom_ends (locate : ℕ → Forked Bytes) (expand : ℕ → Bytes → ℕ → Bytes → Forked Bytes)
    (expands : Bytes → ℕ → Bytes → Prop) (named : ℕ → Bytes) {size total : ℕ}
    (hlocate : ∀ index < total, Ends Refusal (locate index) fun block => block = named index)
    (hexpand : ∀ index block limit out, out.length + limit ≤ size →
      Ends Refusal (expand index block limit out) fun out' =>
        ∃ piece, out' = out ++ piece ∧ piece.length ≤ limit ∧ expands block limit piece)
    {n index : ℕ} {out : Bytes} (hn : index + n ≤ total) (hout : out.length ≤ size) :
    Ends Refusal (expandFrom locate expand size n index out) fun out' =>
      out'.length ≤ size ∧ ∃ pieces : List Bytes, out' = out ++ pieces.flatten ∧ pieces.length = n ∧
        ∀ i piece, pieces[i]? = some piece → expands (named (index + i))
          (min (size - (out ++ (pieces.take i).flatten).length) DECMPFS_BLOCK_BYTES) piece := by
  induction n generalizing index out with
  | zero => exact ⟨hout, [], by simp, rfl, fun i piece h => by simp at h⟩
  | succ n ih =>
    rw [expandFrom, bind_iff]
    refine (hlocate index (by omega)).conseq fun block hblock => ?_
    simp only [min_eq_left hout]
    rw [bind_iff]
    refine (hexpand index block _ out (by omega)).conseq ?_
    rintro out₁ ⟨piece, rfl, hpiece, hexpands⟩
    refine (ih (by omega) (by rw [List.length_append]; omega)).conseq ?_
    rintro out' ⟨hout', pieces, rfl, hcount, hrest⟩
    refine ⟨hout', piece :: pieces, by simp, by rw [List.length_cons, hcount], fun i p hp => ?_⟩
    cases i with
    | zero =>
      obtain rfl : piece = p := by simpa using hp
      rw [add_zero, ← hblock]
      simpa using hexpands
    | succ i =>
      have := hrest i p (by simpa using hp)
      rw [show index + 1 + i = index + (i + 1) by omega, List.append_assoc] at this
      simpa using this

/-- From the loop over all the blocks that a table names. -/
lemma concatenates_of_pieces {expands : Bytes → ℕ → Bytes → Prop} {named : ℕ → Bytes} {size total : ℕ}
    {out : Bytes} {pieces : List Bytes} (hout : out = [] ++ pieces.flatten) (hcount : pieces.length = total)
    (hpieces : ∀ i piece, pieces[i]? = some piece → expands (named (0 + i))
      (min (size - ([] ++ (pieces.take i).flatten : Bytes).length) DECMPFS_BLOCK_BYTES) piece) :
    Concatenates expands size ((List.range total).map named) out := by
  refine ⟨pieces, hout, by rw [hcount, List.length_map, List.length_range], ?_⟩
  intro i block piece hblock hpiece
  have := hpieces i piece hpiece
  rw [List.getElem?_map, List.getElem?_range (by rw [← hcount]; exact (List.getElem?_eq_some_iff.mp hpiece).1)]
    at hblock
  cases hblock
  simpa only [zero_add, List.nil_append] using this

section Forks

variable {fileId : ℕ} {path fork : Bytes} {size : ℕ}

lemma locateZlib_ends {tableEnd dataEnd blocks index : ℕ} (hdata : dataEnd ≤ fork.length)
    (hend : tableEnd = resourceTable fork + (4 + blocks * RSRC_BLOCK_ENTRY_BYTES))
    (htable : tableEnd ≤ dataEnd) (hindex : index < blocks) :
    Ends Refusal (locateZlib fileId path fork (resourceTable fork) tableEnd dataEnd index)
      fun block => block = resourceBlock fork index := by
  rw [RSRC_BLOCK_ENTRY_BYTES] at hend
  rw [locateZlib, RSRC_BLOCK_ENTRY_BYTES, bind_ok (u32At_of_le (by omega)), bind_ok (u32At_of_le (by omega))]
  refine malformedIf_ends fun hinside => ?_
  rw [not_not] at hinside
  rw [sliceAt_eq_ok.mpr ⟨by omega, rfl⟩, ok_iff]
  rfl

lemma expandResourceFork_ends (hsize : size ≤ isizeMax) :
    Ends Refusal (expandResourceFork fileId path fork size) fun out =>
      out.length ≤ size ∧ Concatenates ZlibExpands size (resourceBlocks fork) out := by
  rw [expandResourceFork]
  refine malformedIf_ends fun hheader => ?_
  rw [RSRC_HEADER_BYTES] at hheader
  rw [RSRC_DATA_OFFSET_OFFSET, RSRC_DATA_LENGTH_OFFSET, RSRC_ENTRY_LENGTH_BYTES,
    bind_ok (beU32At_of_le (by omega)), bind_ok (beU32At_of_le (by omega))]
  refine malformedIf_ends fun hdata => ?_
  refine malformedIf_ends fun hentry => ?_
  rw [bind_ok (beU32At_of_le (by omega))]
  refine malformedIf_ends fun hleaves => ?_
  refine malformedIf_ends fun hcount => ?_
  rw [bind_ok (u32At_of_le (by omega))]
  refine malformedIf_ends fun htable => ?_
  rw [bind_ok (withCapacity_of_le hsize)]
  refine (expandFrom_ends _ (zlibBlock fileId path) ZlibExpands (resourceBlock fork)
    (fun index hindex => locateZlib_ends (not_lt.mp hdata) rfl (not_lt.mp htable) hindex)
    (fun index block limit out _ => zlibBlock_ends) (zero_add _).le (Nat.zero_le size)).conseq ?_
  rintro out ⟨hout, pieces, hpieces, hlength, hall⟩
  exact ⟨hout, concatenates_of_pieces hpieces hlength hall⟩

lemma locateLzvn_ends {tableBytes index : ℕ} (htable : tableBytes ≤ fork.length)
    (hindex : index < tableBytes / LZVN_TABLE_ENTRY_BYTES - 1) :
    Ends Refusal (locateLzvn fileId path fork tableBytes index) fun block => block = attributeBlock fork index := by
  rw [LZVN_TABLE_ENTRY_BYTES] at hindex
  rw [locateLzvn, LZVN_TABLE_ENTRY_BYTES, bind_ok (u32At_of_le (by omega)), bind_ok (u32At_of_le (by omega))]
  refine malformedIf_ends fun hinside => ?_
  rw [bind_ok (minus_eq_ok.mpr ⟨by omega, rfl⟩), sliceAt_eq_ok.mpr ⟨by omega, rfl⟩, ok_iff]
  rfl

lemma expandLzvnFork_ends (hsize : size ≤ isizeMax) : Ends Refusal (expandLzvnFork fileId path fork size) fun out =>
    out.length ≤ size ∧ Concatenates LzvnExpands size (attributeBlocks fork) out := by
  rw [expandLzvnFork]
  refine malformedIf_ends fun hheader => ?_
  rw [LZVN_TABLE_ENTRY_BYTES] at hheader
  rw [bind_ok (u32At_of_le (by omega))]
  refine malformedIf_ends fun htable => ?_
  have hinside : leAt 4 fork 0 ≤ fork.length := by omega
  rw [bind_ok (withCapacity_of_le hsize)]
  have hstart : ([] : Bytes).length ≤ size := Nat.zero_le size
  refine (expandFrom_ends (locateLzvn fileId path fork (leAt 4 fork 0)) (lzvnBlock fileId path)
    LzvnExpands (attributeBlock fork) (fun index hindex => locateLzvn_ends hinside hindex)
    (fun index block limit out h => lzvnBlock_ends (h.trans hsize)) (zero_add _).le hstart).conseq ?_
  rintro out ⟨hout, pieces, hpieces, hlength, hall⟩
  exact ⟨hout, concatenates_of_pieces hpieces hlength hall⟩

end Forks

/-- Neither function panics, as long as the declared size is one that a vector can have; neither returns
more than that size, and what is returned is what the blocks of the table expand to, in the order of
the table.  The whole file, with the size compared at the end, has exactly the declared size. -/
theorem forks_expand (fork : Bytes) (size fileId : ℕ) (path : Bytes) (hsize : size < 2 ^ 63) :
    Ends Refusal (expandResourceFork fileId path fork size) (fun out =>
      out.length ≤ size ∧ Concatenates ZlibExpands size (resourceBlocks fork) out) ∧
    Ends Refusal (expandLzvnFork fileId path fork size) (fun out =>
      out.length ≤ size ∧ Concatenates LzvnExpands size (attributeBlocks fork) out) ∧
    ∀ (r : Apfs.Reader) volume header bytes,
      r.readCompressed decmpfs volume fileId path header = .ok bytes → bytes.length = leAt 8 header 8 := by
  have hsize := Nat.le_sub_one_of_lt hsize
  refine ⟨expandResourceFork_ends hsize, expandLzvnFork_ends hsize, ?_⟩
  intro r volume header bytes h
  simp only [Apfs.Reader.readCompressed, bind_eq_ok, Apfs.refuseIf_eq_ok, pure_eq_ok, not_not] at h
  obtain ⟨_, -, _, -, _, -, _, -, expanded, -, _, hlength, rfl⟩ := h
  exact hlength

/-- Two blocks, one stored and one compressed. -/
theorem forks_expand_stored :
    let fork : Bytes := [0, 0, 0, 16, 0, 0, 0, 0, 0, 0, 0, 39, 0, 0, 0, 0, 0, 0, 0, 35, 2, 0, 0, 0,
      20, 0, 0, 0, 2, 0, 0, 0, 22, 0, 0, 0, 13, 0, 0, 0, 0x0F, 0x61,
      0x78, 1, 1, 2, 0, 0xFD, 0xFF, 0x62, 0x63, 1, 0x29, 0, 0xC6]
    expandResourceFork 16 [] fork 3 = .ok [0x61, 0x62, 0x63] ∧
      Concatenates ZlibExpands 3 (resourceBlocks fork) [0x61, 0x62, 0x63] := by
  intro fork
  have h : expandResourceFork 16 [] fork 3 = .ok [0x61, 0x62, 0x63] := by rfl
  exact ⟨h, ((forks_expand fork 3 16 [] (by decide)).1.of_ok h).2⟩

/-- A table that names less than the declared size is expanded all the same, and a size that no vector
can have makes both functions panic. -/
theorem forks_expand_short :
    let fork : Bytes := [0, 0, 0, 16, 0, 0, 0, 0, 0, 0, 0, 8, 0, 0, 0, 0, 0, 0, 0, 4, 0, 0, 0, 0]
    let entries : Bytes := [8, 0, 0, 0, 10, 0, 0, 0, 0x06, 0x61]
    expandResourceFork 16 [] fork 5 = .ok [] ∧ expandLzvnFork 16 [] entries 5 = .ok [0x61] ∧
      expandResourceFork 16 [] fork (2 ^ 63) = .error .panic ∧
      expandLzvnFork 16 [] entries (2 ^ 63) = .error .panic := by exact ⟨rfl, rfl, rfl, rfl⟩

end AppleUtils.CompressedFork
