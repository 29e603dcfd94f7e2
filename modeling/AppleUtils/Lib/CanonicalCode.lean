import Mathlib.Algebra.BigOperators.Group.List.Basic
import Mathlib.Algebra.BigOperators.Ring.List
import Mathlib.Algebra.Order.Group.Nat
import Mathlib.Tactic.Ring

/-! # Canonical prefix codes

A code is given by the number of its words of each length.  The words of a length are consecutive
numbers, those of the next length start behind the extensions of all shorter words (`firstCode`).  As
long as the words of each length fit, no word is a prefix of another (`prefix_free`). -/

namespace AppleUtils.CanonicalCode

/-! ### Bits, the most significant first -/

/-- The low `n` bits of a number, the most significant first. -/
def msb (v : ℕ) : ℕ → List Bool
  | 0 => []
  | n + 1 => v.testBit n :: msb v n

@[simp] lemma length_msb (v n : ℕ) : (msb v n).length = n := by
  induction n with
  | zero => rfl
  | succ n ih => rw [msb, List.length_cons, ih]

lemma getElem?_msb {v n i : ℕ} (h : i < n) : (msb v n)[i]? = some (v.testBit (n - 1 - i)) := by
  induction n generalizing i with
  | zero => omega
  | succ n ih =>
    cases i with
    | zero => rfl
    | succ i =>
      rw [msb, List.getElem?_cons_succ, ih (by omega)]
      congr 2
      omega

/-- The number with one more bit behind it. -/
lemma div_two_pow_succ {v n : ℕ} : v / 2 ^ n = 2 * (v / 2 ^ (n + 1)) + (v.testBit n).toNat := by
  rw [pow_succ, ← Nat.div_div_eq_div_mul, Nat.testBit_eq_decide_div_mod_eq]
  have := Nat.div_add_mod (v / 2 ^ n) 2
  have := Nat.mod_lt (v / 2 ^ n) (show 0 < 2 by omega)
  by_cases hone : v / 2 ^ n % 2 = 1
  · simp [hone]
    omega
  · simp [hone]
    omega

/-- The front of the bits of a number tells the number without its last bits. -/
lemma div_eq_of_prefix {a b n m : ℕ} (ha : a < 2 ^ n) (hb : b < 2 ^ m) (hnm : n ≤ m)
    (h : msb a n <+: msb b m) : b / 2 ^ (m - n) = a := by
  have hbits (i : ℕ) (hi : i < n) : b.testBit (m - 1 - i) = a.testBit (n - 1 - i) := by
    have hget := getElem?_msb (v := b) (show i < m by omega)
    obtain ⟨rest, hrest⟩ := h
    rw [← hrest, List.getElem?_append_left (by simpa using hi), getElem?_msb hi] at hget
    exact (Option.some.inj hget).symm
  apply Nat.eq_of_testBit_eq
  intro k
  rw [Nat.testBit_div_two_pow]
  rcases lt_or_ge k n with hk | hk
  · have := hbits (n - 1 - k) (by omega)
    rwa [show n - 1 - (n - 1 - k) = k by omega, show m - 1 - (n - 1 - k) = k + (m - n) by omega] at this
  · rw [Nat.testBit_lt_two_pow (ha.trans_le (Nat.pow_le_pow_right (by omega) hk)),
      Nat.testBit_lt_two_pow (hb.trans_le (Nat.pow_le_pow_right (by omega) (by omega)))]

/-! ### The words of each length -/

section Counts

variable {count : ℕ → ℕ} {l m : ℕ}

/-- The first word of a length. -/
def firstCode (count : ℕ → ℕ) : ℕ → ℕ
  | 0 => 0
  | length + 1 => 2 * (firstCode count length + count length)

/-- The number of shorter words. -/
def before (count : ℕ → ℕ) : ℕ → ℕ
  | 0 => 0
  | length + 1 => before count length + count length

lemma before_mono (h : l < m) : before count l + count l ≤ before count m := by
  induction m with
  | zero => omega
  | succ m ih =>
    rw [before]
    rcases Nat.lt_succ_iff_lt_or_eq.mp h with h | rfl
    · have := ih h
      omega
    · exact le_rfl

/-- The extensions of shorter words lie before the words of a length. -/
lemma extensions_le (h : l < m) : 2 ^ (m - l) * (firstCode count l + count l) ≤ firstCode count m := by
  induction m with
  | zero => omega
  | succ m ih =>
    rw [firstCode]
    rcases Nat.lt_succ_iff_lt_or_eq.mp h with h | rfl
    · have := ih h
      rw [show m + 1 - l = m - l + 1 by omega, pow_succ]
      calc 2 ^ (m - l) * 2 * (firstCode count l + count l)
          = 2 * (2 ^ (m - l) * (firstCode count l + count l)) := by ring
        _ ≤ 2 * (firstCode count m + count m) := Nat.mul_le_mul_left 2 (by omega)
    · rw [show l + 1 - l = 1 by omega, Nat.pow_one]

/-- A word shortened to a smaller length is past the words of that length. -/
lemma le_div_of_lt {l m code : ℕ} (h : l < m) (hcode : firstCode count m ≤ code) :
    firstCode count l + count l ≤ code / 2 ^ (m - l) := by
  rw [Nat.le_div_iff_mul_le (Nat.two_pow_pos _), mul_comm]
  exact (extensions_le h).trans hcode

/-- No word of a length is a prefix of a longer word, or of another word of its own length. -/
lemma prefix_free {l m i j : ℕ} (hi : i < count l) (hj : j < count m)
    (hl : firstCode count l + count l ≤ 2 ^ l) (hm : firstCode count m + count m ≤ 2 ^ m)
    (h : msb (firstCode count l + i) l <+: msb (firstCode count m + j) m) : l = m ∧ i = j := by
  have hlm : l ≤ m := by simpa using h.length_le
  have hdiv := div_eq_of_prefix (by omega) (by omega) hlm h
  rcases Nat.lt_or_eq_of_le hlm with hlt | rfl
  · have := le_div_of_lt hlt (Nat.le_add_right (firstCode count m) j)
    omega
  · rw [Nat.sub_self, pow_zero, Nat.div_one] at hdiv
    exact ⟨rfl, by omega⟩

/-- Part of the words used up by all words up to a length, in words of that length. -/
def kraft (count : ℕ → ℕ) (m : ℕ) : ℕ := ((List.range (m + 1)).map fun l => count l * 2 ^ (m - l)).sum

lemma kraft_eq (m : ℕ) : kraft count m = firstCode count m + count m := by
  induction m with
  | zero => simp [kraft, firstCode]
  | succ m ih =>
    have hdouble : ((List.range (m + 1)).map fun l => count l * 2 ^ (m + 1 - l)).sum
        = 2 * kraft count m := by
      rw [kraft, ← List.sum_map_mul_left]
      congr 1
      refine List.map_congr_left fun l hl => ?_
      have := List.mem_range.mp hl
      rw [show m + 1 - l = m - l + 1 by omega, pow_succ]
      ring
    rw [kraft, List.range_succ, List.map_append, List.sum_append, hdouble, ih, firstCode]
    simp

end Counts

end AppleUtils.CanonicalCode
