import AppleUtils.Codec.Huffman
import AppleUtils.Lib.Lz77
import Mathlib.Data.List.Defs

/-! # The inflater

`zlibInflate` expands a zlib stream up to a limit.  A stream is a list of blocks, stored, coded with
the fixed codes or with codes of its own; a coded block is a list of literals and of matches, which
repeat what has been written before.

The loops run on the bits of the stream: a turn that goes on has read at least one (`Onward`).  So
the number of bits bounds the turns, and with it an inflater that is given any bytes at all ends, writes
no more than its limit and refuses what it cannot read (`zlibInflate_ends`). -/

namespace AppleUtils.Inflate

open Bytes Checks CanonicalCode List Ends Huffman

variable {lengths : List ℕ} {r : BitReader} {what : String} {stream : Bytes} {out : Bytes} {h : Huffman}

/-! ### Tables -/

def CODE_LENGTH_ORDER : List ℕ := [16, 17, 18, 0, 8, 7, 9, 6, 10, 5, 11, 4, 12, 3, 13, 2, 14, 1, 15]

def LENGTH_BASE : List ℕ :=
  [3, 4, 5, 6, 7, 8, 9, 10, 11, 13, 15, 17, 19, 23, 27, 31, 35, 43, 51, 59, 67, 83, 99, 115, 131,
    163, 195, 227, 258]

def LENGTH_EXTRA : List ℕ :=
  [0, 0, 0, 0, 0, 0, 0, 0, 1, 1, 1, 1, 2, 2, 2, 2, 3, 3, 3, 3, 4, 4, 4, 4, 5, 5, 5, 5, 0]

def DISTANCE_BASE : List ℕ :=
  [1, 2, 3, 4, 5, 7, 9, 13, 17, 25, 33, 49, 65, 97, 129, 193, 257, 385, 513, 769, 1025, 1537,
    2049, 3073, 4097, 6145, 8193, 12289, 16385, 24577]

def DISTANCE_EXTRA : List ℕ :=
  [0, 0, 0, 0, 1, 1, 2, 2, 3, 3, 4, 4, 5, 5, 6, 6, 7, 7, 8, 8, 9, 9, 10, 10, 11, 11, 12, 12, 13, 13]

/-- An element of an array, which the code takes without asking whether it is there. -/
def elementAt (table : List ℕ) (i : ℕ) : Inflating ℕ :=
  match table[i]? with
  | some v => .ok v
  | none => .error .panic

/-- A part of the stream, if it is there. -/
def partOf (stream : Bytes) (first last : ℕ) : Inflating Bytes := do
  failIf (¬ (first ≤ last ∧ last ≤ stream.length)) (.refused .truncated)
  return stream.slice first (last - first)

namespace BitReader

def alignToByte (r : BitReader) : BitReader := { r with bit := (r.bit + 7) / 8 * 8 }

def byteIndex (r : BitReader) : ℕ := r.bit / 8

def skipBytes (r : BitReader) (count : ℕ) : BitReader := r.skip (count * 8)

end BitReader

/-! ### Blocks -/

def inflateStoredBlock (stream : Bytes) (limit : ℕ) (r : BitReader) (out : Bytes) :
    Inflating (Bytes × BitReader) := do
  let r := r.alignToByte
  let start := r.byteIndex
  let head ← partOf stream start (start + 4)
  let len := leAt 2 head 0
  let nlen := leAt 2 head 2
  failIf (nlen ≠ 2 ^ 16 - 1 - len) (.refused (.storedLengthMismatch len nlen))
  let body ← partOf stream (start + 4) (start + 4 + len)
  failIf (out.length + body.length > limit) (.refused (.outputTooLarge limit))
  return (out ++ body, r.skipBytes (4 + len))

/-- Bytes are copied one by one, so that a match can reach into itself. -/
def copyMatch : ℕ → ℕ → Bytes → Inflating Bytes
  | 0, _, out => .ok out
  | length + 1, source, out =>
    match out[source]? with
    | some byte => copyMatch length (source + 1) (out ++ [byte])
    | none => .error .panic

/-- What a symbol of a table stands for: a base and some bits on top of it. -/
@[irreducible] def readExtra (what : String) (base extra : List ℕ) (symbol : ℕ) (r : BitReader) :
    Inflating (ℕ × BitReader) := do
  failIf (symbol ≥ base.length) (.refused (.unknownCode what))
  let low ← elementAt base symbol
  let bits ← elementAt extra symbol
  let (v, r) ← r.take bits
  return (low + v, r)

def inflateMatch (distances : Huffman) (limit symbol : ℕ) (r : BitReader) (out : Bytes) :
    Inflating (Bytes × BitReader) := do
  let (length, r) ← readExtra "literal and length" LENGTH_BASE LENGTH_EXTRA (symbol - 257) r
  let (distanceSymbol, r) ← distances.decode r "distance"
  let (distance, r) ← readExtra "distance" DISTANCE_BASE DISTANCE_EXTRA distanceSymbol r
  failIf (distance = 0 ∨ distance > out.length) (.refused (.distanceTooFar distance out.length))
  failIf (out.length + length > limit) (.refused (.outputTooLarge limit))
  let out ← copyMatch length (out.length - distance) out
  return (out, r)

def inflateCodedBlock (literals distances : Huffman) (limit : ℕ) : ℕ → BitReader → Bytes →
    Inflating (Bytes × BitReader)
  | 0, _, _ => .error .unfinished
  | turns + 1, r, out => do
    let (symbol, r) ← literals.decode r "literal and length"
    if symbol = 256 then return (out, r)
    else if symbol < 256 then
      failIf (out.length ≥ limit) (.refused (.outputTooLarge limit))
      inflateCodedBlock literals distances limit turns r (out ++ [BitVec.ofNat 8 symbol])
    else
      let (out, r) ← inflateMatch distances limit symbol r out
      inflateCodedBlock literals distances limit turns r out

/-! ### Codes of a block -/

def fixedLiteralLength (symbol : ℕ) : ℕ :=
  if symbol ≤ 143 then 8 else if symbol ≤ 255 then 9 else if symbol ≤ 279 then 7 else 8

def fixedCodes : Inflating (Huffman × Huffman) := do
  let literals ← new "literal and length" ((List.range 288).map fixedLiteralLength) false
  let distances ← new "distance" (List.replicate 32 5) false
  return (literals, distances)

def readCodeLengths : ℕ → ℕ → List ℕ → BitReader → Inflating (List ℕ × BitReader)
  | 0, _, lengths, r => .ok (lengths, r)
  | n + 1, index, lengths, r => do
    let symbol ← elementAt CODE_LENGTH_ORDER index
    let (length, r) ← r.take 3
    failIf (symbol ≥ lengths.length) .panic
    readCodeLengths n (index + 1) (lengths.set symbol length) r

/-- How often which length comes next, for the symbols that repeat one. -/
def repetition (symbol start : ℕ) (lengths : List ℕ) (r : BitReader) : Inflating (ℕ × ℕ × BitReader) :=
  if symbol = 16 then do
    failIf (start = 0) (.refused (.unknownCode "code length"))
    let (v, r) ← r.take 2
    let value ← elementAt lengths (start - 1)
    return (3 + v, value, r)
  else if symbol = 17 then do
    let (v, r) ← r.take 3
    return (3 + v, 0, r)
  else if symbol = 18 then do
    let (v, r) ← r.take 7
    return (11 + v, 0, r)
  else .error (.refused (.unknownCode "code length"))

def readLengths (code : Huffman) : ℕ → ℕ → List ℕ → BitReader → Inflating (List ℕ × BitReader)
  | 0, start, lengths, r => if start < lengths.length then .error .unfinished else .ok (lengths, r)
  | turns + 1, start, lengths, r =>
    if start < lengths.length then do
      let (symbol, r) ← code.decode r "code length"
      if symbol ≤ 15 then readLengths code turns (start + 1) (lengths.set start symbol) r
      else
        let (count, value, r) ← repetition symbol start lengths r
        failIf (start + count > lengths.length) (.refused (.oversubscribedCode "code length"))
        readLengths code turns (start + count)
          (lengths.take start ++ List.replicate count value ++ lengths.drop (start + count)) r
    else .ok (lengths, r)

def dynamicCodes (r : BitReader) : Inflating ((Huffman × Huffman) × BitReader) := do
  let (v, r) ← r.take 5
  let literalCount := v + 257
  let (v, r) ← r.take 5
  let distanceCount := v + 1
  let (v, r) ← r.take 4
  let codeLengthCount := v + 4
  let (codeLengths, r) ← readCodeLengths codeLengthCount 0 (List.replicate CODE_LENGTH_ORDER.length 0) r
  let code ← new "code length" codeLengths false
  let total := literalCount + distanceCount
  let (lengths, r) ← readLengths code total 0 (List.replicate total 0) r
  let literals ← new "literal and length" (lengths.take literalCount) false
  let distances ← new "distance" (lengths.drop literalCount) true
  return ((literals, distances), r)

/-! ### Streams -/

/-- No loop over the bits has more turns than this. -/
def turnsFor (stream : Bytes) : ℕ := 8 * stream.length + 1

def inflateBlock (stream : Bytes) (limit kind : ℕ) (r : BitReader) (out : Bytes) : Inflating (Bytes × BitReader) :=
  if kind = 0 then inflateStoredBlock stream limit r out
  else if kind = 1 then do
    let (literals, distances) ← fixedCodes
    inflateCodedBlock literals distances limit (turnsFor stream) r out
  else if kind = 2 then do
    let ((literals, distances), r) ← dynamicCodes r
    inflateCodedBlock literals distances limit (turnsFor stream) r out
  else .error (.refused .reservedBlockType)

def inflateBlocks (stream : Bytes) (limit : ℕ) : ℕ → BitReader → Bytes → Inflating (Bytes × ℕ)
  | 0, _, _ => .error .unfinished
  | turns + 1, r, out => do
    let (finalBlock, r) ← r.take 1
    let (kind, r) ← r.take 2
    let (out, r) ← inflateBlock stream limit kind r out
    if finalBlock = 1 then return (out, r.alignToByte.byteIndex)
    else inflateBlocks stream limit turns r out

def inflate (stream : Bytes) (limit : ℕ) : Inflating (Bytes × ℕ) :=
  inflateBlocks stream limit (turnsFor stream) ⟨stream, 0⟩ []

/-- The sums are reduced once in 5552 bytes, before they can outgrow 32 bits. -/
def adler32 (data : Bytes) : ℕ :=
  let (low, high) := (data.toChunks 5552).foldl (fun (low, high) run =>
    let (low, high) := run.foldl (fun (low, high) byte =>
      (low + byte.toNat, high + (low + byte.toNat))) (low, high)
    (low % 65521, high % 65521)) (1, 0)
  high * 2 ^ 16 + low

def zlibInflate (stream : Bytes) (limit : ℕ) : Inflating Bytes := do
  failIf (stream.length < 6) (.refused .truncated)
  let header := beAt 2 stream 0
  failIf (leAt 1 stream 0 % 16 ≠ 8 ∨ header % 31 ≠ 0) (.refused (.notZlib header))
  failIf (leAt 1 stream 1 / 32 % 2 ≠ 0) (.refused .presetDictionary)
  let (out, consumed) ← inflate (stream.drop 2) limit
  let trailer ← partOf stream (2 + consumed) (2 + consumed + 4)
  let expected := beAt 4 trailer 0
  let actual := adler32 out
  failIf (actual ≠ expected) (.refused (.checksumMismatch expected actual))
  return out

/-! ### Reading on -/

namespace BitReader

/-- At least `n` bits have been read, all of them inside the bytes. -/
structure Onward (n : ℕ) (r r' : BitReader) : Prop where
  bytes : r'.bytes = r.bytes
  bit : r.bit + n ≤ r'.bit
  inside : r'.bit ≤ 8 * r.bytes.length

variable {r' r'' : BitReader} {n m : ℕ}

lemma Onward.trans (h : Onward n r r') (h' : Onward m r' r'') : Onward (n + m) r r'' where
  bytes := h'.bytes.trans h.bytes
  bit := by
    have := h.bit
    have := h'.bit
    omega
  inside := by rw [← h.bytes]; exact h'.inside

lemma Onward.mono (h : Onward n r r') (hle : m ≤ n) : Onward m r r' :=
  ⟨h.bytes, (Nat.add_le_add_left hle _).trans h.bit, h.inside⟩

lemma Onward.stay (h : Onward n r r') : Onward 0 r' r' :=
  ⟨rfl, le_rfl, by rw [h.bytes]; exact h.inside⟩

lemma peek_onward {b : Bool} (h : r.peek = some b) : Onward 1 r (r.skip 1) := by
  refine ⟨rfl, le_rfl, ?_⟩
  obtain ⟨byte, hbyte, -⟩ := Option.map_eq_some_iff.mp h
  have := (List.getElem?_eq_some_iff.mp hbyte).1
  change r.bit + 1 ≤ _
  omega

lemma take_ends (h : Onward 0 r r) : Ends Refusal (r.take n) fun p => p.1 < 2 ^ n ∧ Onward n r p.2 := by
  induction n generalizing r with
  | zero => exact ⟨Nat.one_pos, h⟩
  | succ n ih =>
    rw [take]
    split
    · exact ⟨_, rfl⟩
    · rename_i b hpeek
      have hone := peek_onward hpeek
      rw [bind_iff]
      refine (ih hone.stay).conseq ?_
      rintro ⟨v, r'⟩ ⟨hv, hon⟩
      refine ⟨?_, (hone.trans hon).mono (by omega)⟩
      have := b.toNat_le
      simp only at hv ⊢
      omega

lemma alignToByte_onward (h : Onward n r r') : Onward n r r'.alignToByte := by
  have hbit := h.bit
  have hinside := h.inside
  refine ⟨h.bytes, ?_, ?_⟩
  · change _ ≤ (r'.bit + 7) / 8 * 8
    omega
  · change (r'.bit + 7) / 8 * 8 ≤ _
    omega

end BitReader

open BitReader

lemma elementAt_ends {table : List ℕ} {i : ℕ} (h : i < table.length) :
    Ends Refusal (elementAt table i) fun v => v ∈ table := by
  rw [elementAt, List.getElem?_eq_getElem h]
  exact getElem_mem h

lemma partOf_ends {first last : ℕ} : Ends Refusal (partOf stream first last) fun part =>
    last ≤ stream.length ∧ part.length = last - first := by
  rw [partOf, bind_iff]
  refine (failIf_ends ⟨_, rfl⟩).conseq fun _ hpart => ?_
  rw [Classical.not_not] at hpart
  refine ⟨hpart.2, ?_⟩
  exact length_slice (by omega)

lemma inflateStoredBlock_ends {limit : ℕ} (hstream : r.bytes = stream) (hr : Onward 0 r r) :
    Ends Refusal (inflateStoredBlock stream limit r out) fun p => p.1.length ≤ limit ∧ Onward 0 r p.2 := by
  have halign := alignToByte_onward hr
  simp only [inflateStoredBlock, bind_iff]
  refine partOf_ends.conseq fun head _ => (failIf_ends ⟨_, rfl⟩).conseq fun _ _ => ?_
  refine partOf_ends.conseq fun body hbody => (failIf_ends ⟨_, rfl⟩).conseq fun _ hroom => ?_
  refine ⟨by rw [length_append]; omega, halign.bytes, ?_, ?_⟩
  · exact halign.bit.trans (Nat.le_add_right _ _)
  · have := hbody.1
    rw [hstream]
    change r.alignToByte.bit + (4 + leAt 2 head 0) * 8 ≤ _
    rw [byteIndex] at this
    have hwhole : r.alignToByte.bit = (r.bit + 7) / 8 * 8 := rfl
    omega

/-- The source moves on with the end of the output, so that it stays the distance behind it. -/
lemma copyMatch_eq {distance : ℕ} (h : 0 < distance) (hle : distance ≤ out.length) (length : ℕ) :
    copyMatch length (out.length - distance) out = .ok (Lz77.copyBack distance length out) := by
  induction length generalizing out with
  | zero => rfl
  | succ length ih =>
    have hnext : out.length - distance + 1 = (out ++ [out[out.length - distance]]).length - distance := by
      rw [length_append, length_singleton]
      omega
    rw [copyMatch, List.getElem?_eq_getElem (by omega), Lz77.copyBack_succ h hle, hnext]
    exact ih (by rw [length_append]; omega)

lemma readExtra_ends {base extra : List ℕ} {symbol : ℕ} (htables : base.length = extra.length) (hr : Onward 0 r r) :
    Ends Refusal (readExtra what base extra symbol r) fun p => Onward 0 r p.2 := by
  simp only [readExtra, bind_iff]
  refine (failIf_ends ⟨_, rfl⟩).conseq fun _ hsymbol => ?_
  refine (elementAt_ends (by omega)).conseq fun low _ => ?_
  refine (elementAt_ends (by omega)).conseq fun bits _ => (take_ends hr).conseq ?_
  rintro ⟨v, r'⟩ ⟨-, hon⟩
  exact hon.mono (Nat.zero_le _)

/-- The words of a code are found in its table of symbols. -/
lemma decodeFrom_ends (hcodes : Huffman.Codes lengths h) {n l code : ℕ} (hl : l + n = MAX_CODE_BITS)
    (hcode : firstCode h.counts (l + 1) ≤ code) (hr : Onward 0 r r) :
    Ends Refusal (h.decodeFrom what n (l + 1) code (firstCode h.counts (l + 1))
      (before h.counts (l + 1)) r) fun p => Onward 1 r p.2 := by
  induction n generalizing l code r with
  | zero => exact ⟨_, rfl⟩
  | succ n ih =>
    rw [decodeFrom, bind_iff]
    refine (take_ends hr).conseq ?_
    rintro ⟨bit, r'⟩ ⟨-, hon⟩
    simp only
    split
    · rename_i hword
      have hplace : before h.counts (l + 1) + h.counts (l + 1) ≤ h.symbols.length := by
        rw [hcodes.size, hcodes.counts]
        exact before_mono (by omega)
      rw [List.getElem?_eq_getElem (by omega)]
      exact hon
    · rename_i hword
      refine (ih (l := l + 1) (by omega) ?_ hon.stay).conseq ?_
      · rw [firstCode]
        omega
      · rintro ⟨symbol, r''⟩ hrest
        exact (hon.trans hrest).mono (by omega)

lemma decode_ends (hcodes : Huffman.Codes lengths h)
    (hr : Onward 0 r r) : Ends Refusal (h.decode r what) fun p => Onward 1 r p.2 := by
  have hzero : h.counts 0 = 0 := by rw [hcodes.counts]; rfl
  have hstart : firstCode h.counts 1 ≤ 0 := by simp [firstCode, hzero]
  have hfrom : ∀ what, Ends Refusal (h.decodeFrom what MAX_CODE_BITS 1 0 (firstCode h.counts 1)
      (before h.counts 1) r) fun p => Onward 1 r p.2 :=
    fun _ => decodeFrom_ends hcodes (zero_add _) hstart hr
  simpa only [decode, firstCode, before, hzero] using hfrom what

section Blocks

variable {limit : ℕ} {literalLengths distanceLengths : List ℕ}
    {literals distances : Huffman}

lemma inflateMatch_ends (hdistances : Huffman.Codes distanceLengths distances) {symbol : ℕ}
    (hr : Onward 0 r r) : Ends Refusal (inflateMatch distances limit symbol r out) fun p =>
      p.1.length ≤ limit ∧ Onward 0 r p.2 := by
  rw [inflateMatch, bind_iff]
  refine (readExtra_ends (by rfl) hr).conseq ?_
  rintro ⟨length, r₁⟩ h₁
  simp only [bind_iff]
  refine (decode_ends hdistances h₁.stay).conseq ?_
  rintro ⟨distanceSymbol, r₂⟩ h₂
  simp only
  refine (readExtra_ends (by rfl) h₂.stay).conseq ?_
  rintro ⟨distance, r₃⟩ h₃
  simp only
  refine (failIf_ends ⟨_, rfl⟩).conseq fun _ hdistance => ?_
  refine (failIf_ends ⟨_, rfl⟩).conseq fun _ hroom => ?_
  rw [copyMatch_eq (by omega) (by omega)]
  refine ⟨?_, ?_⟩
  · rw [Lz77.length_copyBack (by omega) (by omega)]
    omega
  · exact ((h₁.trans h₂).trans h₃).mono (Nat.zero_le _)

/-- With a turn for each bit that is left a coded block comes to its end. -/
lemma inflateCodedBlock_ends (hliterals : Huffman.Codes literalLengths literals)
    (hdistances : Huffman.Codes distanceLengths distances) {turns : ℕ}
    (hturns : 8 * r.bytes.length - r.bit < turns) (hr : Onward 0 r r) (hout : out.length ≤ limit) :
    Ends Refusal (inflateCodedBlock literals distances limit turns r out) fun p =>
      p.1.length ≤ limit ∧ Onward 0 r p.2 := by
  induction turns generalizing r out with
  | zero => omega
  | succ turns ih =>
    rw [inflateCodedBlock, bind_iff]
    refine (decode_ends hliterals hr).conseq ?_
    rintro ⟨symbol, r₁⟩ h₁
    -- the bit of the symbol pays for the next turn
    have hnext {r' : BitReader} (h : Onward 1 r r') : 8 * r'.bytes.length - r'.bit < turns := by
      have := h.bit
      have := h.inside
      rw [h.bytes]
      omega
    simp only
    split
    · exact ⟨hout, h₁.mono (Nat.zero_le _)⟩
    split
    · rw [bind_iff]
      refine (failIf_ends ⟨_, rfl⟩).conseq fun _ hroom => ?_
      refine (ih (hnext h₁) h₁.stay ?_).conseq ?_
      · rw [length_append, length_singleton]
        omega
      · rintro ⟨out', r'⟩ ⟨hout', hon⟩
        exact ⟨hout', (h₁.trans hon).mono (Nat.zero_le _)⟩
    · rw [bind_iff]
      refine (inflateMatch_ends hdistances h₁.stay).conseq ?_
      rintro ⟨out₂, r₂⟩ ⟨hout₂, h₂⟩
      have h₁₂ : Onward 1 r r₂ := h₁.trans h₂
      refine (ih (hnext h₁₂) h₁₂.stay hout₂).conseq ?_
      rintro ⟨out', r'⟩ ⟨hout', hon⟩
      exact ⟨hout', (h₁₂.trans hon).mono (Nat.zero_le _)⟩

end Blocks

/-! ### The codes of a block are codes -/

section Codes

lemma fixedCodes_ends : Ends Refusal fixedCodes fun codes =>
    (∃ lengths, Huffman.Codes lengths codes.1) ∧ ∃ lengths, Huffman.Codes lengths codes.2 := by
  simp only [fixedCodes, bind_iff]
  refine (new_ends (by simp)).conseq fun literals hliterals => ?_
  exact (new_ends (by simp)).conseq fun distances hdistances =>
    ⟨⟨_, hliterals⟩, ⟨_, hdistances⟩⟩

lemma readCodeLengths_ends {n index : ℕ} (hr : Onward 0 r r)
    (hn : index + n ≤ CODE_LENGTH_ORDER.length) (hlengths : lengths.length = CODE_LENGTH_ORDER.length) :
    Ends Refusal (readCodeLengths n index lengths r) fun p =>
      p.1.length = CODE_LENGTH_ORDER.length ∧ Onward 0 r p.2 := by
  induction n generalizing index lengths r with
  | zero => exact ⟨hlengths, hr⟩
  | succ n ih =>
    rw [readCodeLengths, bind_iff]
    refine (elementAt_ends (by omega)).conseq fun symbol hsymbol => ?_
    have hinside : symbol < CODE_LENGTH_ORDER.length :=
      (by decide : ∀ s ∈ CODE_LENGTH_ORDER, s < CODE_LENGTH_ORDER.length) symbol hsymbol
    rw [bind_iff]
    refine (take_ends hr).conseq ?_
    rintro ⟨length, r₁⟩ ⟨-, h₁⟩
    simp only
    rw [bind_ok (a := ()) (failIf_eq_ok.mpr (by omega))]
    refine (ih h₁.stay (by omega) (by rw [length_set, hlengths])).conseq ?_
    rintro ⟨lengths', r'⟩ ⟨hlengths', hon⟩
    exact ⟨hlengths', (h₁.trans hon).mono (Nat.zero_le _)⟩

lemma repetition_ends {symbol start : ℕ} (hr : Onward 0 r r) (hstart : start < lengths.length) :
    Ends Refusal (repetition symbol start lengths r) fun p => 0 < p.1 ∧ Onward 0 r p.2.2 := by
  unfold repetition
  split
  · simp only [bind_iff]
    refine (failIf_ends ⟨_, rfl⟩).conseq fun _ hzero => (take_ends hr).conseq ?_
    rintro ⟨v, r'⟩ ⟨-, hon⟩
    simp only
    exact (elementAt_ends (by omega)).conseq fun value _ => ⟨by simp, hon.mono (Nat.zero_le _)⟩
  split
  · rw [bind_iff]
    refine (take_ends hr).conseq ?_
    rintro ⟨v, r'⟩ ⟨-, hon⟩
    exact ⟨by simp, hon.mono (Nat.zero_le _)⟩
  split
  · rw [bind_iff]
    refine (take_ends hr).conseq ?_
    rintro ⟨v, r'⟩ ⟨-, hon⟩
    exact ⟨by simp, hon.mono (Nat.zero_le _)⟩
  · exact ⟨_, rfl⟩

lemma readLengths_ends {codeLengths : List ℕ} {code : Huffman}
    (hcode : Huffman.Codes codeLengths code) {turns start : ℕ} (hr : Onward 0 r r)
    (hturns : lengths.length ≤ start + turns) : Ends Refusal (readLengths code turns start lengths r) fun p =>
      p.1.length = lengths.length ∧ Onward 0 r p.2 := by
  induction turns generalizing start lengths r with
  | zero =>
    rw [readLengths, if_neg (by omega)]
    exact ⟨rfl, hr⟩
  | succ turns ih =>
    rw [readLengths]
    split
    swap
    · exact ⟨rfl, hr⟩
    rename_i hstart
    rw [bind_iff]
    refine (decode_ends hcode hr).conseq ?_
    rintro ⟨symbol, r₁⟩ h₁
    simp only
    split
    · refine (ih h₁.stay (by rw [length_set]; omega)).conseq ?_
      rintro ⟨lengths', r'⟩ ⟨hlengths', hon⟩
      exact ⟨hlengths'.trans (length_set ..), (h₁.trans hon).mono (Nat.zero_le _)⟩
    · rw [bind_iff]
      refine (repetition_ends h₁.stay hstart).conseq ?_
      rintro ⟨count, value, r₂⟩ ⟨hcount, h₂⟩
      simp only at hcount ⊢
      rw [bind_iff]
      refine (failIf_ends ⟨_, rfl⟩).conseq fun _ hroom => ?_
      have hfilled : (lengths.take start ++ List.replicate count value
          ++ lengths.drop (start + count)).length = lengths.length := by
        simp only [length_append, length_take, length_replicate, length_drop]
        omega
      refine (ih h₂.stay (by rw [hfilled]; omega)).conseq ?_
      rintro ⟨lengths', r'⟩ ⟨hlengths', hon⟩
      exact ⟨hlengths'.trans hfilled, ((h₁.trans h₂).trans hon).mono (Nat.zero_le _)⟩

lemma dynamicCodes_ends (hr : Onward 0 r r) : Ends Refusal (dynamicCodes r) fun p =>
    (∃ lengths, Huffman.Codes lengths p.1.1) ∧ (∃ lengths, Huffman.Codes lengths p.1.2) ∧ Onward 0 r p.2 := by
  rw [dynamicCodes, bind_iff]
  refine (take_ends hr).conseq ?_
  rintro ⟨v₁, r₁⟩ ⟨hv₁, h₁⟩
  simp only [bind_iff] at hv₁ ⊢
  refine (take_ends h₁.stay).conseq ?_
  rintro ⟨v₂, r₂⟩ ⟨hv₂, h₂⟩
  simp only at hv₂ ⊢
  refine (take_ends h₂.stay).conseq ?_
  rintro ⟨v₃, r₃⟩ ⟨hv₃, h₃⟩
  simp only at hv₃ ⊢
  refine (readCodeLengths_ends h₃.stay ?_ (length_replicate ..)).conseq ?_
  · change 0 + (v₃ + 4) ≤ 19
    omega
  rintro ⟨codeLengths, r₄⟩ ⟨hcodeLengths, h₄⟩
  simp only at hcodeLengths ⊢
  refine (new_ends (by rw [hcodeLengths]; decide)).conseq fun code hcode => ?_
  refine (readLengths_ends hcode h₄.stay (by rw [length_replicate]; omega)).conseq ?_
  rintro ⟨lengths, r₅⟩ ⟨hlengths, h₅⟩
  rw [length_replicate] at hlengths
  simp only at hlengths ⊢
  refine (new_ends (by rw [length_take]; omega)).conseq fun literals hliterals => ?_
  refine (new_ends (by rw [length_drop]; omega)).conseq fun distances hdistances => ?_
  refine ⟨⟨_, hliterals⟩, ⟨_, hdistances⟩, ?_⟩
  exact ((((h₁.trans h₂).trans h₃).trans h₄).trans h₅).mono (Nat.zero_le _)

end Codes

/-! ### Whole streams -/

section Streams

variable {limit : ℕ}

lemma inflateBlock_ends {kind : ℕ} (hstream : r.bytes = stream) (hr : Onward 0 r r)
    (hout : out.length ≤ limit) : Ends Refusal (inflateBlock stream limit kind r out) fun p =>
      p.1.length ≤ limit ∧ Onward 0 r p.2 := by
  have hturns {r' : BitReader} (h : Onward 0 r r') :
      8 * r'.bytes.length - r'.bit < turnsFor stream := by
    rw [h.bytes, hstream, turnsFor]
    omega
  unfold inflateBlock
  split
  · exact inflateStoredBlock_ends hstream hr
  split
  · rw [bind_iff]
    refine fixedCodes_ends.conseq ?_
    rintro ⟨literals, distances⟩ ⟨⟨_, hliterals⟩, ⟨_, hdistances⟩⟩
    exact inflateCodedBlock_ends hliterals hdistances (hturns hr) hr hout
  split
  · rw [bind_iff]
    refine (dynamicCodes_ends hr).conseq ?_
    rintro ⟨⟨literals, distances⟩, r₁⟩ ⟨⟨_, hliterals⟩, ⟨_, hdistances⟩, h₁⟩
    refine (inflateCodedBlock_ends hliterals hdistances (hturns h₁) h₁.stay hout).conseq ?_
    rintro ⟨out', r'⟩ ⟨hout', hon⟩
    exact ⟨hout', h₁.trans hon⟩
  · exact ⟨_, rfl⟩

lemma inflateBlocks_ends {turns : ℕ} (hstream : r.bytes = stream) (hr : Onward 0 r r)
    (hturns : 8 * stream.length - r.bit < turns) (hout : out.length ≤ limit) :
    Ends Refusal (inflateBlocks stream limit turns r out) fun p => p.1.length ≤ limit := by
  induction turns generalizing r out with
  | zero => omega
  | succ turns ih =>
    rw [inflateBlocks, bind_iff]
    refine (take_ends hr).conseq ?_
    rintro ⟨finalBlock, r₁⟩ ⟨-, h₁⟩
    simp only [bind_iff]
    refine (take_ends h₁.stay).conseq ?_
    rintro ⟨kind, r₂⟩ ⟨-, h₂⟩
    have h₁₂ := h₁.trans h₂
    simp only
    refine (inflateBlock_ends (h₁₂.bytes.trans hstream) h₁₂.stay hout).conseq ?_
    rintro ⟨out₃, r₃⟩ ⟨hout₃, h₃⟩
    simp only
    split
    · exact hout₃
    · have hon : Onward 3 r r₃ := h₁₂.trans h₃
      have hbit := hon.bit
      have hinside := hon.inside
      rw [hstream] at hinside
      have hnext : 8 * stream.length - r₃.bit < turns := by omega
      exact ih (hon.bytes.trans hstream) hon.stay hnext hout₃

lemma inflate_ends : Ends Refusal (inflate stream limit) fun p => p.1.length ≤ limit :=
  inflateBlocks_ends rfl ⟨rfl, le_rfl, Nat.zero_le _⟩ (by rw [turnsFor]; omega) (Nat.zero_le _)

/-- Whatever the bytes, the inflater ends with no more than the limit or with a refusal. -/
lemma zlibInflate_ends : Ends Refusal (zlibInflate stream limit) fun out => out.length ≤ limit := by
  simp only [zlibInflate, bind_iff]
  refine (failIf_ends ⟨_, rfl⟩).conseq fun _ _ => (failIf_ends ⟨_, rfl⟩).conseq fun _ _ => ?_
  refine (failIf_ends ⟨_, rfl⟩).conseq fun _ _ => ?_
  refine inflate_ends.conseq ?_
  rintro ⟨out, consumed⟩ hout
  simp only
  refine partOf_ends.conseq fun trailer _ => (failIf_ends ⟨_, rfl⟩).conseq fun _ _ => hout

end Streams

end AppleUtils.Inflate
