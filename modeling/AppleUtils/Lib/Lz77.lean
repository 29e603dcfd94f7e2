import Mathlib.Tactic.Common

/-! # Copies from earlier in the output

A match of a Lempel-Ziv code appends elements of the output itself, one at a time, each the one that
stands `distance` before the end; where the match is longer than the distance it reads what it has
just written. -/

namespace AppleUtils.Lz77

variable {α : Type} {distance : ℕ} {out : List α}

/-- `n` steps, each appending the element `distance` before the end. -/
def copyBack (distance : ℕ) : ℕ → List α → List α
  | 0, out => out
  | n + 1, out => copyBack distance n (out ++ out[out.length - distance]?.toList)

lemma copyBack_succ (h : 0 < distance) (hle : distance ≤ out.length)
    (n : ℕ) : copyBack distance (n + 1) out = copyBack distance n (out ++ [out[out.length - distance]]) := by
  rw [copyBack, List.getElem?_eq_getElem (by omega)]
  rfl

lemma length_copyBack (h : 0 < distance)
    (hle : distance ≤ out.length) (n : ℕ) : (copyBack distance n out).length = out.length + n := by
  induction n generalizing out with
  | zero => rfl
  | succ n ih =>
    rw [copyBack_succ h hle, ih, List.length_append, List.length_singleton]
    · omega
    · rw [List.length_append]
      omega

lemma length_le_copyBack (distance n : ℕ) (out : List α) : out.length ≤ (copyBack distance n out).length := by
  induction n generalizing out with
  | zero => exact Nat.le_refl _
  | succ n ih =>
    refine Nat.le_trans ?_ (ih _)
    rw [List.length_append]
    exact Nat.le_add_right _ _

end AppleUtils.Lz77
