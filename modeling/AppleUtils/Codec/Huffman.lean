import AppleUtils.Lib.CanonicalCode
import AppleUtils.Lib.Ends
import AppleUtils.Lib.Slices
import Mathlib.Algebra.Order.Field.Basic
import Mathlib.Algebra.Order.Field.Rat
import Mathlib.Tactic.FieldSimp
import Mathlib.Tactic.Linarith

/-! # Huffman codes of the inflater

A code is given by the lengths of its words.  `Huffman.new` counts the words of each length, refuses
lengths that ask for more words than there are, and lists the symbols by the length of their words;
`decode` reads bits until what it has read is a word, with the counts alone.

The words are the canonical ones (`codeOf`), and `decode` at a word returns its symbol
(`decode_word`). -/

namespace AppleUtils.Inflate

open Bytes Checks CanonicalCode List Function

variable {lengths : List ℕ} {what : String} {allowIncomplete : Bool}

inductive InflateError where
  | truncated | notZlib (header : ℕ) | presetDictionary | reservedBlockType
  | storedLengthMismatch (len nlen : ℕ) | oversubscribedCode (what : String) | incompleteCode (what : String)
  | unknownCode (what : String) | distanceTooFar (distance produced : ℕ) | outputTooLarge (limit : ℕ)
  | checksumMismatch (expected actual : ℕ)
deriving DecidableEq

inductive Fault where
  | refused (error : InflateError) | panic
  /-- A loop of the model has used up its turns. -/
  | unfinished
deriving DecidableEq

abbrev Inflating := Except Fault

def Refusal (f : Fault) : Prop := ∃ e, f = .refused e

lemma failIf_ends {c : Prop} [Decidable c] {f : Fault} (h : Refusal f) :
    Ends Refusal (failIf c f) fun _ => ¬ c := Ends.failIf h

/-! ### Bits -/

structure BitReader where
  bytes : Bytes
  bit : ℕ
deriving DecidableEq

variable {r : BitReader}

namespace BitReader

/-- The bit a reader is at. -/
def peek (r : BitReader) : Option Bool := r.bytes[r.bit / 8]?.map (·.getLsbD (r.bit % 8))

def skip (r : BitReader) (n : ℕ) : BitReader := { r with bit := r.bit + n }

/-- Bits of a number, the least significant first. -/
def take : ℕ → BitReader → Inflating (ℕ × BitReader)
  | 0, r => .ok (0, r)
  | n + 1, r =>
    match r.peek with
    | none => .error (.refused .truncated)
    | some b => do
      let (v, r) ← take n (r.skip 1)
      return (b.toNat + 2 * v, r)

end BitReader

/-! ### Codes -/

def MAX_CODE_BITS : ℕ := 15

structure Huffman where
  counts : ℕ → ℕ
  symbols : List ℕ

variable {h : Huffman}

namespace Huffman

section New

variable (what : String)

def countLengths : List ℕ → (ℕ → ℕ) → Inflating (ℕ → ℕ)
  | [], counts => .ok counts
  | length :: lengths, counts => do
    failIf (length > MAX_CODE_BITS) (.refused (.oversubscribedCode what))
    failIf (counts length + 1 ≥ 2 ^ 16) .panic
    countLengths lengths (update counts length (counts length + 1))

/-- The words left over, from a length on. -/
def spareFrom (counts : ℕ → ℕ) : ℕ → ℕ → ℕ → Inflating ℕ
  | 0, _, spare => .ok spare
  | n + 1, length, spare => do
    failIf (2 * spare < counts length) (.refused (.oversubscribedCode what))
    spareFrom counts n (length + 1) (2 * spare - counts length)

def offsetsFrom (counts : ℕ → ℕ) : ℕ → ℕ → (ℕ → ℕ) → ℕ → ℕ
  | 0, _, offsets => offsets
  | n + 1, length, offsets =>
    offsetsFrom counts n (length + 1)
      (update offsets (length + 1) (offsets length + counts length))

/-- Each symbol with a word, behind those before it with words of the same length. -/
def placeSymbols : List ℕ → ℕ → (ℕ → ℕ) → List ℕ → Inflating (List ℕ)
  | [], _, _, symbols => .ok symbols
  | length :: lengths, symbol, offsets, symbols =>
    if length = 0 then placeSymbols lengths (symbol + 1) offsets symbols
    else do
      failIf (offsets length ≥ symbols.length) .panic
      placeSymbols lengths (symbol + 1) (update offsets length (offsets length + 1))
        (symbols.set (offsets length) (symbol % 2 ^ 16))

@[irreducible] def new (lengths : List ℕ) (allowIncomplete : Bool) : Inflating Huffman := do
  let counts ← countLengths what lengths fun _ => 0
  let coded := lengths.length - counts 0
  let counts := update counts 0 0
  let spare ← spareFrom what counts MAX_CODE_BITS 1 1
  failIf (0 < spare ∧ ¬ (allowIncomplete ∧ coded ≤ 1)) (.refused (.incompleteCode what))
  let offsets := offsetsFrom counts MAX_CODE_BITS 1 fun _ => 0
  let symbols ← placeSymbols lengths 0 offsets (List.replicate coded 0)
  return ⟨counts, symbols⟩

end New

/-- The bits read so far are a word if they lie behind the first one of their length by less than
there are. -/
def decodeFrom (h : Huffman) (what : String) : ℕ → ℕ → ℕ → ℕ → ℕ → BitReader →
    Inflating (ℕ × BitReader)
  | 0, _, _, _, _, _ => .error (.refused (.unknownCode what))
  | n + 1, length, code, first, index, r => do
    let (bit, r) ← r.take 1
    let code := code + bit
    let count := h.counts length
    if code < first + count then
      match h.symbols[index + code - first]? with
      | some symbol => return (symbol, r)
      | none => .error .panic
    else decodeFrom h what n (length + 1) (2 * code) (2 * (first + count)) (index + count) r

def decode (h : Huffman) (r : BitReader) (what : String) : Inflating (ℕ × BitReader) :=
  h.decodeFrom what MAX_CODE_BITS 1 0 0 0 r

end Huffman

/-! ### The canonical code of some lengths -/

/-- The number of words of a length. -/
def wordsOf (lengths : List ℕ) (length : ℕ) : ℕ := if length = 0 then 0 else lengths.count length

/-- The word of a symbol, as a number. -/
def codeOf (lengths : List ℕ) (symbol length : ℕ) : ℕ :=
  firstCode (wordsOf lengths) length + (lengths.take symbol).count length

/-- The word of a symbol, the most significant bit first. -/
def wordOf (lengths : List ℕ) (symbol length : ℕ) : List Bool :=
  msb (codeOf lengths symbol length) length

/-- The words of 15 bits that are taken. -/
def wordsTaken (lengths : List ℕ) : ℕ :=
  ((lengths.filter (· ≠ 0)).map fun length => 2 ^ (MAX_CODE_BITS - length)).sum

namespace Huffman

section New

variable {counts counts' offsets : ℕ → ℕ} {symbols result : List ℕ}

lemma countLengths_eq_ok : countLengths what lengths counts = .ok counts' ↔
    (∀ l ∈ lengths, l ≤ MAX_CODE_BITS ∧ counts l + lengths.count l < 2 ^ 16)
      ∧ counts' = fun l => counts l + lengths.count l := by
  induction lengths generalizing counts with
  | nil => simp [countLengths, eq_comm]
  | cons l lengths ih =>
    simp only [countLengths, returns, ih, exists_const]
    have hcounts : (fun k => update counts l (counts l + 1) k + lengths.count k) =
        fun k => counts k + (l :: lengths).count k := by
      funext k
      by_cases hk : k = l
      · subst hk
        rw [update_self, count_cons_self]
        omega
      · rw [update_of_ne hk, count_cons_of_ne (Ne.symm hk)]
    have hpoint (k : ℕ) := congrFun hcounts k
    simp only [hpoint, forall_mem_cons]
    constructor
    · rintro ⟨hle, hroom, hrest, rfl⟩
      refine ⟨⟨⟨by omega, ?_⟩, hrest⟩, rfl⟩
      by_cases hmem : l ∈ lengths
      · exact (hrest l hmem).2
      · rw [count_cons_self, count_eq_zero_of_not_mem hmem]
        omega
    · rintro ⟨⟨⟨hle, hroom⟩, hrest⟩, rfl⟩
      refine ⟨by omega, ?_, hrest, rfl⟩
      rw [count_cons_self] at hroom
      omega

/-- The words left over are those of a length that are not taken. -/
lemma spareFrom_ok {n length spare spare' : ℕ} (hinv : firstCode counts length + counts length + spare = 2 ^ length)
    (h : spareFrom what counts n (length + 1) spare = .ok spare') :
    firstCode counts (length + n) + counts (length + n) + spare' = 2 ^ (length + n)
      ∧ ∀ j, length ≤ j → j ≤ length + n → firstCode counts j + counts j ≤ 2 ^ j := by
  induction n generalizing length spare with
  | zero =>
    cases h
    refine ⟨hinv, fun j h1 h2 => ?_⟩
    obtain rfl : length = j := by omega
    omega
  | succ n ih =>
    simp only [spareFrom, returns, exists_const] at h
    obtain ⟨hroom, h⟩ := h
    have hnext : firstCode counts (length + 1) + counts (length + 1)
        + (2 * spare - counts (length + 1)) = 2 ^ (length + 1) := by
      rw [firstCode, pow_succ]
      omega
    obtain ⟨hend, hall⟩ := ih hnext h
    refine ⟨by rw [show length + (n + 1) = length + 1 + n by omega]; exact hend, fun j h1 h2 => ?_⟩
    rcases Nat.lt_or_eq_of_le h1 with h1 | rfl
    · exact hall j h1 (by omega)
    · omega

lemma offsetsFrom_eq {n length : ℕ} (h : ∀ j, 1 ≤ j → j ≤ length → offsets j = before counts j)
    (hlength : 1 ≤ length) {l : ℕ} (h1 : 1 ≤ l) (h2 : l ≤ length + n) :
    offsetsFrom counts n length offsets l = before counts l := by
  induction n generalizing length offsets with
  | zero => exact h l h1 h2
  | succ n ih =>
    rw [offsetsFrom]
    refine ih (fun j hj hj' => ?_) (by omega) (by omega)
    rcases Nat.lt_or_eq_of_le hj' with hj' | rfl
    · rw [update_of_ne (by omega)]
      exact h j hj (by omega)
    · rw [update_self, h length hlength le_rfl, before]

/-- Fewer of a length come before a symbol that has it than there are. -/
lemma count_take_lt {s l : ℕ} (h : lengths[s]? = some l) : (lengths.take s).count l < lengths.count l := by
  obtain ⟨hlt, rfl⟩ := List.getElem?_eq_some_iff.mp h
  have hsplit := congrArg (List.count lengths[s]) (take_append_drop s lengths)
  rw [drop_eq_getElem_cons hlt, count_append, count_cons_self] at hsplit
  omega

lemma getElem?_append_one {α : Type} {l : List α} {a b : α} {i : ℕ} (h : (l ++ [a])[i]? = some b) :
    (i < l.length ∧ l[i]? = some b ∧ (l ++ [a]).take i = l.take i)
      ∨ (i = l.length ∧ a = b ∧ (l ++ [a]).take i = l) := by
  rcases lt_or_ge i l.length with hi | hi
  · rw [List.getElem?_append_left hi] at h
    exact .inl ⟨hi, h, take_append_of_le_length hi.le⟩
  · have hlen := (List.getElem?_eq_some_iff.mp h).1
    rw [length_append, length_singleton] at hlen
    obtain rfl : i = l.length := by omega
    exact .inr ⟨rfl, by simpa using h, by simp⟩

lemma placeSymbols_spec {base : ℕ → ℕ} {done rest : List ℕ} {m : ℕ} (hshort : ∀ l ∈ rest, l ≤ m)
    (hbase : ∀ l m, l ≠ 0 → l < m → base l + (done ++ rest).count l ≤ base m)
    (hroom : ∀ l ∈ rest, l ≠ 0 → base l + (done ++ rest).count l ≤ symbols.length)
    (hoffsets : ∀ l, l ≠ 0 → l ≤ m → offsets l = base l + done.count l) (hdone : ∀ s l, done[s]? = some l → l ≠ 0 →
      symbols[base l + (done.take s).count l]? = some (s % 2 ^ 16)) :
    ∃ result, placeSymbols rest done.length offsets symbols = .ok result ∧ result.length = symbols.length
      ∧ ∀ s l, (done ++ rest)[s]? = some l → l ≠ 0 →
        result[base l + ((done ++ rest).take s).count l]? = some (s % 2 ^ 16) := by
  induction rest generalizing done offsets symbols with
  | nil =>
    rw [append_nil]
    exact ⟨symbols, rfl, rfl, hdone⟩
  | cons length rest ih =>
    have hassoc : done ++ length :: rest = done ++ [length] ++ rest := by simp
    have hlength : (done ++ [length]).length = done.length + 1 := by simp
    rw [placeSymbols]
    by_cases hzero : length = 0
    · rw [if_pos hzero, ← hlength, hassoc]
      subst hzero
      refine ih (fun l hl => hshort l (mem_cons_of_mem _ hl)) (hassoc ▸ hbase)
        (fun l hl => hassoc ▸ hroom l (mem_cons_of_mem _ hl)) ?_ ?_
      · intro l hl hm
        rw [hoffsets l hl hm, count_append, count_singleton, if_neg (by simpa using Ne.symm hl), add_zero]
      · intro s l hs hl
        obtain ⟨-, hget, htake⟩ | ⟨-, rfl, -⟩ := getElem?_append_one hs
        · rw [htake]
          exact hdone s l hget hl
        · exact absurd rfl hl
    · rw [if_neg hzero]
      have hcount : done.count length + 1 ≤ (done ++ length :: rest).count length := by
        rw [count_append, count_cons_self]
        omega
      have hplace := hroom length mem_cons_self hzero
      have hoff := hoffsets length hzero (hshort length mem_cons_self)
      rw [bind_ok (a := ()) (failIf_eq_ok.mpr (by omega)), ← hlength]
      have hset : (symbols.set (offsets length) (done.length % 2 ^ 16)).length = symbols.length :=
        length_set ..
      rw [hassoc, ← hset]
      refine ih (fun l hl => hshort l (mem_cons_of_mem _ hl)) (hassoc ▸ hbase)
        (fun l hl => ?_) ?_ ?_
      · rw [hset, ← hassoc]
        exact hroom l (mem_cons_of_mem _ hl)
      · intro l hl hm
        rw [count_append, count_singleton]
        by_cases hsame : l = length
        · subst hsame
          rw [update_self, hoff, if_pos (by simp)]
          omega
        · rw [update_of_ne hsame, hoffsets l hl hm, if_neg (by simpa using Ne.symm hsame)]
          omega
      · intro s l hs hl
        obtain ⟨-, hget, htake⟩ | ⟨rfl, rfl, htake⟩ := getElem?_append_one hs
        · -- the place of an earlier symbol is another one
          have hbefore := count_take_lt hget
          have hall : done.count l ≤ (done ++ length :: rest).count l := by
            rw [count_append]
            omega
          have hne : offsets length ≠ base l + (done.take s).count l := by
            rcases lt_trichotomy l length with hlt | rfl | hlt
            · have := hbase l length hl hlt
              omega
            · omega
            · have := hbase length l hzero hlt
              omega
          rw [htake, List.getElem?_set_ne hne]
          exact hdone s l hget hl
        · rw [htake, ← hoff, List.getElem?_set_self (by omega)]

end New

/-! ### Sums over the lengths -/

section Sums

lemma before_add (f g : ℕ → ℕ) (n : ℕ) : before (fun l => f l + g l) n = before f n + before g n := by
  induction n with
  | zero => rfl
  | succ n ih =>
    rw [before, before, before, ih]
    omega

lemma before_single (l c n : ℕ) : before (fun k => if k = l then c else 0) n = if l < n then c else 0 := by
  induction n with
  | zero => rfl
  | succ n ih =>
    rw [before, ih]
    split_ifs <;> omega

lemma before_eq_sum (f : ℕ → ℕ) (n : ℕ) : before f n = ((List.range n).map f).sum := by
  induction n with
  | zero => rfl
  | succ n ih => rw [before, ih, range_succ, map_append, sum_append]; simp

/-- A sum over the lengths, by the length. -/
lemma before_wordsOf (h : ∀ l ∈ lengths, l ≤ MAX_CODE_BITS) (w : ℕ → ℕ) :
    before (fun l => wordsOf lengths l * w l) (MAX_CODE_BITS + 1) = ((lengths.filter (· ≠ 0)).map w).sum := by
  induction lengths with
  | nil =>
    have hnone : (fun l => wordsOf [] l * w l) = fun l => if l = 0 then 0 else 0 := by
      funext l
      simp [wordsOf]
    rw [hnone, before_single]
    rfl
  | cons l lengths ih =>
    have ih := ih fun k hk => h k (mem_cons_of_mem l hk)
    have hl := h l mem_cons_self
    by_cases hzero : l = 0
    · have hsame : wordsOf (l :: lengths) = wordsOf lengths := by
        funext k
        by_cases hk : k = 0
        · simp [wordsOf, hk]
        · simp [wordsOf, hk, hzero, Ne.symm hk]
      rw [hsame, ih, filter_cons_of_neg (by simpa using hzero)]
    · have hsplit : (fun k => wordsOf (l :: lengths) k * w k) =
          fun k => wordsOf lengths k * w k + if k = l then w l else 0 := by
        funext k
        by_cases hk : k = l
        · subst hk
          simp [wordsOf, hzero]
          ring
        · by_cases hk0 : k = 0
          · simp [wordsOf, hk0, Ne.symm hzero]
          · simp [wordsOf, hk, hk0, Ne.symm hk]
      rw [hsplit, before_add, before_single, if_pos (by omega), ih,
        filter_cons_of_pos (by simpa using hzero), map_cons, sum_cons]
      omega

lemma kraft_wordsOf (h : ∀ l ∈ lengths, l ≤ MAX_CODE_BITS) :
    kraft (wordsOf lengths) MAX_CODE_BITS = wordsTaken lengths := by
  rw [wordsTaken, ← before_wordsOf h, before_eq_sum, kraft]

lemma length_filter_add_count (lengths : List ℕ) :
    (lengths.filter (· ≠ 0)).length + lengths.count 0 = lengths.length := by
  induction lengths with
  | nil => rfl
  | cons l lengths ih =>
    by_cases hzero : l = 0
    · rw [filter_cons_of_neg (by simpa using hzero), hzero, count_cons_self, length_cons]
      omega
    · rw [filter_cons_of_pos (by simpa using hzero), count_cons_of_ne hzero, length_cons, length_cons]
      omega

/-- As many words as symbols with one. -/
lemma before_coded (h : ∀ l ∈ lengths, l ≤ MAX_CODE_BITS) :
    before (wordsOf lengths) (MAX_CODE_BITS + 1) = lengths.length - lengths.count 0 := by
  have hsum := before_wordsOf h fun _ => 1
  simp only [mul_one] at hsum
  rw [show (fun l => wordsOf lengths l) = wordsOf lengths from rfl] at hsum
  have hlen := length_filter_add_count lengths
  rw [hsum, map_const', sum_replicate, nsmul_eq_mul, mul_one, Nat.cast_id]
  omega

end Sums

/-! ### Accepted codes -/

/-- What a code that is accepted says of its lengths. -/
structure Codes (lengths : List ℕ) (h : Huffman) : Prop where
  short : ∀ l ∈ lengths, l ≤ MAX_CODE_BITS
  counts : h.counts = wordsOf lengths
  fits : ∀ j ≤ MAX_CODE_BITS, firstCode (wordsOf lengths) j + wordsOf lengths j ≤ 2 ^ j
  size : h.symbols.length = before (wordsOf lengths) (MAX_CODE_BITS + 1)
  symbols : ∀ s l, lengths[s]? = some l → l ≠ 0 →
    h.symbols[before (wordsOf lengths) l + (lengths.take s).count l]? = some (s % 2 ^ 16)

lemma wordsOf_of_pos {l : ℕ} (h : l ≠ 0) : wordsOf lengths l = lengths.count l :=
  if_neg h

lemma update_counts (lengths : List ℕ) : update (fun l => lengths.count l) 0 0 = wordsOf lengths := by
  funext l
  by_cases hl : l = 0
  · rw [hl, update_self]
    rfl
  · rw [update_of_ne hl, wordsOf_of_pos hl]

/-- The symbols are placed, and without a panic. -/
lemma placeSymbols_new (h : ∀ l ∈ lengths, l ≤ MAX_CODE_BITS) :
    ∃ symbols, placeSymbols lengths 0 (offsetsFrom (wordsOf lengths) MAX_CODE_BITS 1 fun _ => 0)
        (List.replicate (lengths.length - lengths.count 0) 0) = .ok symbols
      ∧ symbols.length = before (wordsOf lengths) (MAX_CODE_BITS + 1) ∧ ∀ s l, lengths[s]? = some l → l ≠ 0 →
        symbols[before (wordsOf lengths) l + (lengths.take s).count l]? = some (s % 2 ^ 16) := by
  have hoffset (l : ℕ) (h1 : 1 ≤ l) (h2 : l ≤ 1 + MAX_CODE_BITS) :
      offsetsFrom (wordsOf lengths) MAX_CODE_BITS 1 (fun _ => 0) l = before (wordsOf lengths) l := by
    refine offsetsFrom_eq (fun j h1 h2 => ?_) le_rfl h1 h2
    obtain rfl : j = 1 := by omega
    rfl
  have hnext (l m : ℕ) (hl : l ≠ 0) (hlt : l < m) :
      before (wordsOf lengths) l + lengths.count l ≤ before (wordsOf lengths) m := by
    rw [← wordsOf_of_pos hl]
    exact before_mono hlt
  have hzeros : (List.replicate (lengths.length - lengths.count 0) 0).length =
      before (wordsOf lengths) (MAX_CODE_BITS + 1) := by rw [length_replicate, before_coded h]
  obtain ⟨symbols, hplaced, hsize, hat⟩ := @placeSymbols_spec _
    (List.replicate (lengths.length - lengths.count 0) 0) (before (wordsOf lengths)) [] lengths _ h
    hnext (fun l hl hzero => (hnext l _ hzero (Nat.lt_succ_of_le (h l hl))).trans hzeros.ge)
    (fun l hl hm => hoffset l (Nat.pos_of_ne_zero hl) (by omega))
    (fun s l hs => by simp at hs)
  exact ⟨symbols, hplaced, hsize.trans hzeros, hat⟩

lemma new_eq_ok (hnew : new what lengths allowIncomplete = .ok h) :
    Codes lengths h ∧ wordsTaken lengths ≤ 2 ^ MAX_CODE_BITS ∧ (wordsTaken lengths = 2 ^ MAX_CODE_BITS
        ∨ allowIncomplete = true ∧ lengths.length - lengths.count 0 ≤ 1) := by
  simp only [new, returns, countLengths_eq_ok, exists_const] at hnew
  obtain ⟨_, ⟨hshort, rfl⟩, spare, hspare, hcomplete, symbols, hsymbols, rfl⟩ := hnew
  simp only [zero_add, update_counts] at hspare hsymbols hcomplete ⊢
  have hshort' : ∀ l ∈ lengths, l ≤ MAX_CODE_BITS := fun l hl => (hshort l hl).1
  obtain ⟨hsum, hfits⟩ := spareFrom_ok (by rfl) hspare
  rw [zero_add, ← kraft_eq, kraft_wordsOf hshort'] at hsum
  obtain ⟨placed, hplaced, hsize, hat⟩ := placeSymbols_new hshort'
  cases hsymbols.symm.trans hplaced
  refine ⟨⟨hshort', rfl, fun j hj => hfits j (Nat.zero_le _) (by omega), hsize, hat⟩, by omega, ?_⟩
  by_cases hzero : spare = 0
  · exact .inl (by omega)
  · refine .inr ?_
    by_contra hno
    exact hcomplete ⟨Nat.pos_of_ne_zero hzero, hno⟩

lemma new_ok (hshort : ∀ l ∈ lengths, l ≤ MAX_CODE_BITS) (hcount : ∀ l, lengths.count l < 2 ^ 16)
    (hspare : spareFrom what (wordsOf lengths) MAX_CODE_BITS 1 1 = .ok 0) :
    ∃ h, new what lengths allowIncomplete = .ok h := by
  obtain ⟨symbols, hplaced, -⟩ := placeSymbols_new hshort
  have hcounts : countLengths what lengths (fun _ => 0) = .ok fun l => 0 + lengths.count l :=
    countLengths_eq_ok.mpr ⟨fun l hl => ⟨hshort l hl, by rw [zero_add]; exact hcount l⟩, rfl⟩
  refine ⟨⟨wordsOf lengths, symbols⟩, ?_⟩
  rw [new, bind_ok hcounts]
  simp only [zero_add, update_counts]
  rw [bind_ok hspare, bind_ok (a := ()) (failIf_eq_ok.mpr (by simp)), bind_ok hplaced]
  rfl

/-- Fewer of a length come before a symbol that has it than before a later symbol. -/
lemma count_take_lt_of_lt {s t l : ℕ} (h : lengths[s]? = some l) (hst : s < t) :
    (lengths.take s).count l < (lengths.take t).count l := by
  have hget : (lengths.take t)[s]? = some l := by rw [List.getElem?_take_of_lt hst, h]
  have := count_take_lt hget
  rwa [take_take, min_eq_left hst.le] at this

lemma words_prefix_free (hcodes : Codes lengths h) {s t l m : ℕ}
    (hs : lengths[s]? = some l) (ht : lengths[t]? = some m) (hl : l ≠ 0) (hm : m ≠ 0)
    (hword : wordOf lengths s l <+: wordOf lengths t m) : s = t := by
  have hfits {k : ℕ} {s : ℕ} (hs : lengths[s]? = some k) :=
    hcodes.fits k (hcodes.short k (mem_of_getElem? hs))
  have hcount {k : ℕ} {s : ℕ} (hk : k ≠ 0) (hs : lengths[s]? = some k) :
      (lengths.take s).count k < wordsOf lengths k := by
    rw [wordsOf_of_pos hk]
    exact count_take_lt hs
  obtain ⟨rfl, hsame⟩ := prefix_free (hcount hl hs) (hcount hm ht) (hfits hs) (hfits ht) hword
  rcases lt_trichotomy s t with hlt | heq | hlt
  · have := count_take_lt_of_lt hs hlt
    omega
  · exact heq
  · have := count_take_lt_of_lt ht hlt
    omega

end Huffman

/-! ### Reading a word -/

/-- The next bits of the reader are those of the word. -/
def BitReader.At (r : BitReader) (word : List Bool) : Prop :=
  ∀ i < word.length, (r.skip i).peek = word[i]?

lemma BitReader.take_one {b : Bool} (h : r.peek = some b) : r.take 1 = .ok (b.toNat, r.skip 1) := by
  simp only [take, h]
  rfl

lemma BitReader.skip_skip (r : BitReader) (n m : ℕ) : (r.skip n).skip m = r.skip (n + m) := by
  rw [skip, skip, skip, add_assoc]

namespace Huffman

/-- The bits of a word are read one by one; what has been read before the last of them lies behind the
words of its length. -/
lemma decodeFrom_word (what : String) {m code symbol : ℕ}
    (hlow : firstCode h.counts m ≤ code) (hhigh : code < firstCode h.counts m + h.counts m)
    (hsymbol : h.symbols[before h.counts m + (code - firstCode h.counts m)]? = some symbol)
    {n l : ℕ} (hl : l < m) (hn : m ≤ l + n)
    (hbits : ∀ i < m - l, (r.skip i).peek = some (code.testBit (m - l - 1 - i))) :
    h.decodeFrom what n (l + 1) (2 * (code / 2 ^ (m - l))) (firstCode h.counts (l + 1))
      (before h.counts (l + 1)) r = .ok (symbol, r.skip (m - l)) := by
  induction n generalizing l r with
  | zero => omega
  | succ n ih =>
    have hbit : r.take 1 = .ok ((code.testBit (m - l - 1)).toNat, r.skip 1) :=
      BitReader.take_one (hbits 0 (by omega))
    have hread : 2 * (code / 2 ^ (m - l)) + (code.testBit (m - l - 1)).toNat = code / 2 ^ (m - (l + 1)) := by
      have := div_two_pow_succ (v := code) (n := m - l - 1)
      rw [show m - l - 1 + 1 = m - l by omega] at this
      rw [show m - (l + 1) = m - l - 1 by omega, this]
    rw [decodeFrom, bind_ok hbit]
    simp only [hread]
    rcases Nat.lt_or_eq_of_le (Nat.succ_le_of_lt hl) with hlt | rfl
    · rw [if_neg (not_lt.mpr (le_div_of_lt hlt hlow))]
      have hrest := ih (l := l + 1) (r := r.skip 1) hlt (by omega) fun i hi => by
        rw [BitReader.skip_skip, hbits (1 + i) (by omega)]
        congr 2
        omega
      rw [BitReader.skip_skip, show 1 + (m - (l + 1)) = m - l by omega] at hrest
      exact hrest
    · rw [Nat.sub_self, pow_zero, Nat.div_one, if_pos hhigh, Nat.add_sub_assoc hlow, hsymbol,
        show l + 1 - l = 1 by omega]
      rfl

lemma decode_word (hcodes : Codes lengths h) {s l : ℕ}
    (hs : lengths[s]? = some l) (hl : l ≠ 0) (hat : r.At (wordOf lengths s l))
    (what : String) : h.decode r what = .ok (s % 2 ^ 16, r.skip l) := by
  have hshort := hcodes.short l (mem_of_getElem? hs)
  have hcount : (lengths.take s).count l < wordsOf lengths l := by
    rw [wordsOf_of_pos hl]
    exact count_take_lt hs
  have hcode : codeOf lengths s l < 2 ^ l := by
    have := hcodes.fits l hshort
    rw [codeOf]
    omega
  have hbits : ∀ i < l - 0, (r.skip i).peek = some ((codeOf lengths s l).testBit (l - 0 - 1 - i)) := by
    intro i hi
    rw [Nat.sub_zero] at hi ⊢
    rw [hat i (by simpa [wordOf] using hi), wordOf, getElem?_msb hi]
  have hsymbol := hcodes.symbols s l hs hl
  rw [← hcodes.counts] at hcount hsymbol
  rw [codeOf, ← hcodes.counts] at hcode hbits
  have := decodeFrom_word (h := h) what (n := MAX_CODE_BITS) (l := 0) (Nat.le_add_right _ _)
    (Nat.add_lt_add_left hcount _) (by rw [Nat.add_sub_cancel_left]; exact hsymbol)
    (Nat.pos_of_ne_zero hl) (by omega) hbits
  have hzero : h.counts 0 = 0 := by rw [hcodes.counts]; rfl
  rw [Nat.sub_zero, Nat.div_eq_of_lt hcode] at this
  simpa only [decode, firstCode, before, hzero] using this

/-! ### Refused codes -/

lemma countLengths_ends {counts : ℕ → ℕ} (h : ∀ l, counts l + lengths.length < 2 ^ 16) :
    Ends Refusal (countLengths what lengths counts) fun _ => ∀ l ∈ lengths, l ≤ MAX_CODE_BITS := by
  induction lengths generalizing counts with
  | nil => simp [countLengths]
  | cons length lengths ih =>
    rw [countLengths, Ends.bind_iff]
    refine (failIf_ends ⟨_, rfl⟩).conseq fun _ hlength => ?_
    have hroom := h length
    rw [length_cons] at hroom
    rw [bind_ok (a := ()) (failIf_eq_ok.mpr (by omega))]
    refine (ih fun l => ?_).conseq fun _ hall => forall_mem_cons.mpr ⟨by omega, hall⟩
    have hroom' := h l
    rw [length_cons] at hroom'
    by_cases hl : l = length
    · rw [hl, update_self]
      omega
    · rw [update_of_ne hl]
      omega

lemma spareFrom_ends {counts : ℕ → ℕ} {n length spare : ℕ} :
    Ends Refusal (spareFrom what counts n length spare) fun _ => True := by
  induction n generalizing length spare with
  | zero => trivial
  | succ n ih =>
    rw [spareFrom, Ends.bind_iff]
    exact (failIf_ends ⟨_, rfl⟩).conseq fun _ _ => ih

/-- A code that is not accepted is refused, unless there are too many lengths to count. -/
lemma new_ends (h : lengths.length < 2 ^ 16) : Ends Refusal (new what lengths allowIncomplete) (Codes lengths) := by
  have hends : Ends Refusal (new what lengths allowIncomplete) fun _ => True := by
    rw [new, Ends.bind_iff]
    cases hcounts : countLengths what lengths fun _ => 0 with
    | error f => exact (countLengths_ends (by simpa using h)).of_error hcounts
    | ok counts =>
      obtain ⟨hshort, rfl⟩ := countLengths_eq_ok.mp hcounts
      simp only [zero_add, update_counts, Ends.ok_iff, Ends.bind_iff]
      refine spareFrom_ends.conseq fun _ _ => (failIf_ends ⟨_, rfl⟩).conseq fun _ _ => ?_
      obtain ⟨symbols, hplaced, -⟩ := placeSymbols_new fun l hl => (hshort l hl).1
      rw [hplaced]
      trivial
  cases hnew : new what lengths allowIncomplete with
  | error f => exact hends.of_error hnew
  | ok h => exact (new_eq_ok hnew).1

/-! ### The Kraft sum -/

/-- The part of all bit patterns that start with a word. -/
def kraftSum (lengths : List ℕ) : ℚ := ((lengths.filter (· ≠ 0)).map fun l => 1 / 2 ^ l).sum

lemma kraftSum_eq (h : ∀ l ∈ lengths, l ≤ MAX_CODE_BITS) :
    kraftSum lengths = wordsTaken lengths / 2 ^ MAX_CODE_BITS := by
  unfold kraftSum wordsTaken
  have hall : ∀ l ∈ lengths.filter (· ≠ 0), l ≤ MAX_CODE_BITS := fun l hl => h l (mem_filter.mp hl).1
  generalize lengths.filter (· ≠ 0) = coded at hall ⊢
  induction coded with
  | nil => simp
  | cons l coded ih =>
    have hl := hall l mem_cons_self
    have hsplit : (2 : ℚ) ^ MAX_CODE_BITS = 2 ^ (MAX_CODE_BITS - l) * 2 ^ l := by
      rw [← pow_add, Nat.sub_add_cancel hl]
    rw [map_cons, sum_cons, ih fun l hl => hall l (.tail _ hl), map_cons, sum_cons,
      Nat.cast_add, add_div, Nat.cast_pow, Nat.cast_ofNat]
    congr 1
    rw [hsplit]
    field_simp

/-- A code that is accepted has words that are prefix free, and reading one of them gives its symbol,
as the 16 bits it is kept in, and uses up the bits of the word.  A code that takes more than there is,
or that leaves something although it has to be complete, is not accepted, and refused with an error if
it is short enough to be counted. -/
theorem canonical_decoding (what : String) (lengths : List ℕ) (allowIncomplete : Bool) :
    (∀ h, new what lengths allowIncomplete = .ok h →
      (∀ s t l m, lengths[s]? = some l → lengths[t]? = some m → l ≠ 0 → m ≠ 0 →
        wordOf lengths s l <+: wordOf lengths t m → s = t) ∧
      ∀ s l, lengths[s]? = some l → l ≠ 0 → ∀ r : BitReader, r.At (wordOf lengths s l) →
        ∀ what', h.decode r what' = .ok (s % 2 ^ 16, r.skip l) ∧ (lengths.length ≤ 2 ^ 16 → s % 2 ^ 16 = s)) ∧
    (kraftSum lengths > 1 ∨ kraftSum lengths < 1 ∧ ¬ (allowIncomplete = true ∧ lengths.length - lengths.count 0 ≤ 1) →
      ∃ fault, new what lengths allowIncomplete = .error fault
        ∧ (lengths.length < 2 ^ 16 → ∃ e, fault = .refused e)) := by
  constructor
  · intro h hnew
    obtain ⟨hcodes, -, -⟩ := new_eq_ok hnew
    refine ⟨fun s t l m hs ht hl hm => words_prefix_free hcodes hs ht hl hm, ?_⟩
    intro s l hs hl r hat what'
    refine ⟨decode_word hcodes hs hl hat what', fun hlength => Nat.mod_eq_of_lt ?_⟩
    exact (List.getElem?_eq_some_iff.mp hs).1.trans_le hlength
  · intro hsum
    cases hnew : new what lengths allowIncomplete with
    | error fault => exact ⟨fault, rfl, fun hlength => (new_ends hlength).of_error hnew⟩
    | ok h =>
      exfalso
      obtain ⟨hcodes, hle, hcomplete⟩ := new_eq_ok hnew
      have hall : (0 : ℚ) < 2 ^ MAX_CODE_BITS := by positivity
      rw [kraftSum_eq hcodes.short, gt_iff_lt, one_lt_div hall, div_lt_one hall] at hsum
      obtain hover | ⟨hunder, hneed⟩ := hsum
      · have : 2 ^ MAX_CODE_BITS < wordsTaken lengths := by exact_mod_cast hover
        omega
      · have : wordsTaken lengths < 2 ^ MAX_CODE_BITS := by exact_mod_cast hunder
        exact hneed (hcomplete.resolve_left (by omega))

/-- Two words of one bit, with so many symbols between them that the second symbol is read as the
first. -/
theorem canonical_decoding_wraps : let lengths := 1 :: (List.replicate 65535 0 ++ [1])
  let r : BitReader := ⟨[1], 0⟩
  lengths[65536]? = some 1 ∧ r.At (wordOf lengths 65536 1) ∧
    ∃ h, new "distance" lengths false = .ok h ∧ h.decode r "distance" = .ok (0, r.skip 1) := by
  intro lengths r
  have hwords : wordsOf lengths = fun l => if l = 1 then 2 else 0 := by
    funext l
    by_cases hzero : l = 0
    · rw [hzero]
      rfl
    · rw [wordsOf_of_pos hzero, count_cons, count_append, count_replicate]
      by_cases hone : l = 1
      · rw [hone]
        rfl
      · simp [hone, Ne.symm hone, Ne.symm hzero]
  have hlast : lengths[65536]? = some 1 := by
    rw [List.getElem?_cons_succ, List.getElem?_append_right (by rw [length_replicate]), length_replicate]
    rfl
  have hfront : (lengths.take 65536).count 1 = 1 := by
    rw [take_succ_cons, take_append_of_le_length (by rw [length_replicate]),
      take_replicate, count_cons_self, count_replicate]
    rfl
  have hat : r.At (wordOf lengths 65536 1) := by
    intro i hi
    obtain rfl : i = 0 := by simpa [wordOf] using hi
    rw [wordOf, codeOf, hfront, hwords]
    change BitReader.peek ⟨[1], 0⟩ = _
    decide
  have hshort : ∀ l ∈ lengths, l ≤ MAX_CODE_BITS := by
    intro l hl
    rcases mem_cons.mp hl with rfl | hl
    · decide
    rcases mem_append.mp hl with hl | hl
    · rw [eq_of_mem_replicate hl]
      decide
    · rw [mem_singleton.mp hl]
      decide
  have hcount : ∀ l, lengths.count l < 2 ^ 16 := by
    intro l
    rw [count_cons, count_append, count_replicate, count_singleton]
    by_cases hone : l = 1
    · rw [hone]
      decide
    · simp [Ne.symm hone]
      split <;> omega
  obtain ⟨h, hnew⟩ : ∃ h, new "distance" lengths false = .ok h :=
    new_ok hshort hcount (by rw [hwords]; rfl)
  exact ⟨hlast, hat, h, hnew, decode_word (new_eq_ok hnew).1 hlast (by omega) hat "distance"⟩

end Huffman

end AppleUtils.Inflate
