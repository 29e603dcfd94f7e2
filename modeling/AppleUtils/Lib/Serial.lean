import Mathlib.Data.BitVec
import Mathlib.Data.Nat.ModEq
import Mathlib.Tactic.Ring

/-! # Serial numbers

Positions of an unbounded stream, named by words of `w` bits that wrap around.
`serial b k` is the word that names position `k` of a stream whose position `0` is named
`b`.  Two positions share a name iff they agree modulo `2 ^ w` (`serial_eq_serial_iff`), so a
name determines its position among any `2 ^ w` consecutive ones (`serial_inj`), and the
wrapping difference of two names recovers the distance of two positions that are less than
`2 ^ w` apart (`toNat_serial_sub`).

The signed reading of a difference is what a serial comparison tests:
`toInt_pos_iff` says which words are positive, and `serial_sub_toInt_nonpos` decides it for two
positions less than `2 ^ (w - 1)` apart. -/

namespace AppleUtils.Serial

variable {w : ℕ} {j k : ℕ}

/-- The name of position `k` of the stream whose position `0` is named `b`. -/
def serial (b : BitVec w) (k : ℕ) : BitVec w := b + BitVec.ofNat w k

section

variable (b : BitVec w)

@[simp] lemma serial_zero : serial b 0 = b := by simp [serial]

lemma serial_add_ofNat (j k : ℕ) : serial b j + BitVec.ofNat w k = serial b (j + k) := by
  unfold serial
  rw [BitVec.add_assoc, BitVec.ofNat_add]

lemma serial_succ (k : ℕ) : serial b k + 1 = serial b (k + 1) :=
  serial_add_ofNat b k 1

lemma serial_sub (h : j ≤ k) : serial b k - serial b j = BitVec.ofNat w (k - j) := by
  obtain ⟨d, rfl⟩ := Nat.exists_eq_add_of_le h
  rw [← serial_add_ofNat, Nat.add_sub_cancel_left]
  simp

/-- The wrapping difference of two names is the distance of their positions. -/
lemma toNat_serial_sub (h : j ≤ k) (hd : k - j < 2 ^ w) :
    (serial b k - serial b j).toNat = k - j := by rw [serial_sub b h, BitVec.toNat_ofNat, Nat.mod_eq_of_lt hd]

/-- A difference taken backwards wraps around. -/
lemma toNat_serial_sub_rev (h : j < k) (hd : k - j < 2 ^ w) :
    (serial b j - serial b k).toNat = 2 ^ w - (k - j) := by
  have e : serial b j - serial b k = -(serial b k - serial b j) := (neg_sub _ _).symm
  rw [e, serial_sub b h.le, BitVec.toNat_neg, BitVec.toNat_ofNat, Nat.mod_eq_of_lt hd]
  exact Nat.mod_eq_of_lt (by omega)

lemma serial_eq_serial_iff (j k : ℕ) : serial b j = serial b k ↔ j ≡ k [MOD 2 ^ w] := by
  unfold serial
  rw [BitVec.add_right_inj, BitVec.toNat_eq, BitVec.toNat_ofNat, BitVec.toNat_ofNat]
  rfl

/-- A name determines its position among `2 ^ w` consecutive ones. -/
lemma serial_inj (h : serial b j = serial b k) (hjk : j < k + 2 ^ w) (hkj : k < j + 2 ^ w) : j = k := by
  have hm := (serial_eq_serial_iff b j k).mp h
  rcases le_total j k with hle | hle
  · have hd := (Nat.modEq_iff_dvd' hle).mp hm
    have := Nat.eq_zero_of_dvd_of_lt hd (by omega)
    omega
  · have hd := (Nat.modEq_iff_dvd' hle).mp hm.symm
    have := Nat.eq_zero_of_dvd_of_lt hd (by omega)
    omega

end

/-! ### Signed comparison -/

lemma toInt_pos_iff (x : BitVec w) : 0 < x.toInt ↔ 0 < x.toNat ∧ 2 * x.toNat < 2 ^ w := by
  have := x.isLt
  rw [BitVec.toInt_eq_toNat_cond]
  split
  · omega
  · have : ((2 ^ w : ℕ) : ℤ) = 2 ^ w := by norm_cast
    omega

/-- A position that is not later, less than half the number space away, does not. -/
lemma serial_sub_toInt_nonpos (b : BitVec w) (h : j ≤ k) (hd : 2 * (k - j) < 2 ^ w) :
    ¬ 0 < (serial b j - serial b k).toInt := by
  rw [toInt_pos_iff]
  rcases Nat.eq_or_lt_of_le h with rfl | hlt
  · simp
  · rw [toNat_serial_sub_rev b hlt (by omega)]
    omega

end AppleUtils.Serial
