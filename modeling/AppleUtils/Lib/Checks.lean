import AppleUtils.Lib.Slices
import Mathlib.Tactic.Common

/-! # Computations that may fail

When a computation in `Except` returns, as an equivalence for each way to build one.  A panic is one
of the errors (`Panics`), and differences, ranges and capacities that the code does not check panic. -/

namespace AppleUtils.Checks

open Bytes

variable {ε α β γ : Type} {x : Except ε α} {f : α → Except ε β} {b b' : β}

/-- Fails with `e` if `c` holds. -/
def failIf (c : Prop) [Decidable c] (e : ε) : Except ε Unit := if c then .error e else .ok ()

@[simp] lemma failIf_eq_ok {c : Prop} [Decidable c] {e : ε} {u : Unit} : failIf c e = .ok u ↔ ¬ c := by
  unfold failIf
  split <;> simp [*]

@[simp] lemma bind_eq_ok {y : β} : x >>= f = .ok y ↔ ∃ a, x = .ok a ∧ f a = .ok y := by
  cases x <;> simp [bind, Except.bind]

@[simp] lemma pure_eq_ok {a a' : α} : (pure a : Except ε α) = .ok a' ↔ a = a' := by simp [pure, Except.pure]

/-- Errors of which one is a panic. -/
class Panics (ε : Type) where
  panic : ε

section Panics

variable [Panics ε] {n m k i : ℕ} {b bytes : Bytes}

/-- A difference of unsigned numbers. -/
def minus (n m : ℕ) : Except ε ℕ := if m ≤ n then .ok (n - m) else .error Panics.panic

/-- `&b[i..i + n]`. -/
def sliceAt (b : Bytes) (i n : ℕ) : Except ε Bytes :=
  if i + n ≤ b.length then .ok (b.slice i n) else .error Panics.panic

/-- `b[i..i + n].copy_from_slice(bytes)`. -/
def putAt (b : Bytes) (write : ℕ × Bytes) : Except ε Bytes :=
  if write.1 + write.2.length ≤ b.length then .ok (b.splice write.1 write.2)
  else .error Panics.panic

/-- The largest length of a vector, `isize::MAX`. -/
def isizeMax : ℕ := 2 ^ 63 - 1

/-- `Vec::with_capacity`. -/
def withCapacity (size : ℕ) : Except ε Bytes :=
  if size ≤ isizeMax then .ok [] else .error Panics.panic

@[simp] lemma minus_eq_ok : (minus n m : Except ε ℕ) = .ok k ↔ m ≤ n ∧ n - m = k := by
  unfold minus
  split <;> simp [*]

@[simp] lemma sliceAt_eq_ok :
    (sliceAt b i n : Except ε Bytes) = .ok bytes ↔ i + n ≤ b.length ∧ b.slice i n = bytes := by
  unfold sliceAt
  split <;> simp [*]

/-- Writes one after another are a patch, if each of them lies inside. -/
lemma foldlM_putAt (writes : List (ℕ × Bytes)) : (writes.foldlM putAt b : Except ε Bytes) = .ok bytes ↔
    Within b.length writes ∧ patch b writes = bytes := by
  induction writes generalizing b with
  | nil => simp [pure_eq_ok]
  | cons w writes ih =>
    rw [List.foldlM_cons, bind_eq_ok, within_cons, patch_cons]
    by_cases hw : w.1 + w.2.length ≤ b.length
    · simp only [putAt, hw, if_true, Except.ok.injEq, exists_eq_left', ih, length_splice hw, true_and]
    · simp [putAt, hw]

lemma withCapacity_of_le (h : n ≤ isizeMax) : (withCapacity n : Except ε Bytes) = .ok [] := if_pos h

end Panics

lemma bind_ok {a : α} (h : x = .ok a) : x >>= f = f a := by
  rw [h]
  rfl

/-- When a sequence of checks returns, for `simp`. -/
lemma returns : (∀ {ε α β : Type} (x : Except ε α) (f : α → Except ε β) y, x >>= f = .ok y ↔
    ∃ a, x = .ok a ∧ f a = .ok y) ∧ (∀ {ε α : Type} (a a' : α), (pure a : Except ε α) = .ok a' ↔ a = a') ∧
    ∀ {ε : Type} (c : Prop) [Decidable c] (e : ε) u, failIf c e = .ok u ↔ ¬ c :=
  ⟨fun _ _ _ => bind_eq_ok, fun _ _ => pure_eq_ok, fun _ _ _ _ => failIf_eq_ok⟩

/-- A loop over a list that returns, along an invariant on what is done. -/
lemma foldlM_ok {step : β → γ → Except ε β} {I : List γ → β → Prop} {l : List γ}
    (hstep : ∀ done c b b', I done b → step b c = .ok b' → I (done ++ [c]) b') (h : I [] b)
    (hl : l.foldlM step b = .ok b') : I l b' := by
  suffices ∀ done b, I done b → l.foldlM step b = .ok b' → I (done ++ l) b' from this [] b h hl
  clear h hl
  induction l with
  | nil =>
    intro done b h hb
    cases hb
    rwa [List.append_nil]
  | cons c l ih =>
    intro done b h hb
    rw [List.foldlM_cons, bind_eq_ok] at hb
    obtain ⟨b₁, hc, hrest⟩ := hb
    have := ih (done ++ [c]) b₁ (hstep done c b b₁ h hc) hrest
    rwa [List.append_assoc] at this

/-- A loop over the numbers below `n` that returns, along an invariant on the turns done. -/
lemma foldlM_range_ok {step : β → ℕ → Except ε β} {I : ℕ → β → Prop} {n : ℕ}
    (hstep : ∀ k b b', k < n → I k b → step b k = .ok b' → I (k + 1) b') (h : I 0 b)
    (hl : (List.range n).foldlM step b = .ok b') : I n b' := by
  induction n generalizing b' with
  | zero =>
    cases hl
    exact h
  | succ n ih =>
    rw [List.range_succ, List.foldlM_append, bind_eq_ok] at hl
    obtain ⟨b₁, hrun, hlast⟩ := hl
    rw [List.foldlM_cons, bind_eq_ok] at hlast
    obtain ⟨b₂, hlast, hend⟩ := hlast
    cases hend
    exact hstep n b₁ b' (by omega)
      (ih (fun k b b' hk => hstep k b b' (by omega)) hrun) hlast

end AppleUtils.Checks
