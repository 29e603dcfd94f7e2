import AppleUtils.Lib.Checks

/-! # How a computation can end

`Ends E r Q` says of a computation that may fail: if it returns, the value satisfies `Q`, and if it
fails, the error satisfies `E`.  With `E` the errors that are meant to occur this is partial
correctness without the others.  A rule for each form of a computation says what that takes. -/

namespace AppleUtils

variable {ε α β γ : Type}

def Ends (E : ε → Prop) (r : Except ε α) (Q : α → Prop) : Prop :=
  match r with
  | .ok a => Q a
  | .error e => E e

namespace Ends

variable {E : ε → Prop} {r : Except ε α} {f : α → Except ε β} {P Q : α → Prop} {R : β → Prop} {a : α} {e : ε}

@[simp] lemma ok_iff : Ends E (.ok a) Q ↔ Q a := Iff.rfl

@[simp] lemma error_iff : Ends E (.error e) Q ↔ E e := Iff.rfl

@[simp] lemma pure_iff : Ends E (pure a) Q ↔ Q a := Iff.rfl

@[simp] lemma bind_iff : Ends E (r >>= f) R ↔ Ends E r fun a => Ends E (f a) R := by
  cases r <;> rfl

lemma conseq (h : Ends E r P) (hPQ : ∀ a, P a → Q a) : Ends E r Q := by
  cases r with
  | ok a => exact hPQ a h
  | error e => exact h

lemma of_ok (h : Ends E r Q) (hr : r = .ok a) : Q a := by
  rw [hr] at h
  exact h

lemma of_error (h : Ends E r Q) (hr : r = .error e) : E e := by
  rw [hr] at h
  exact h

lemma failIf {c : Prop} [Decidable c] (h : E e) : Ends E (Checks.failIf c e) fun _ => ¬ c := by
  unfold Checks.failIf
  split
  · exact h
  · assumption

lemma mapM {step : γ → Except ε β} {l : List γ} (h : ∀ c ∈ l, Ends E (step c) R) :
    Ends E (l.mapM step) fun out => out.length = l.length ∧ ∀ b ∈ out, R b := by
  induction l with
  | nil => exact ⟨rfl, nofun⟩
  | cons c l ih =>
    rw [List.mapM_cons, bind_iff]
    refine (h c List.mem_cons_self).conseq fun b hb => ?_
    rw [bind_iff]
    refine (ih fun c hc => h c (.tail _ hc)).conseq fun out ⟨hlen, hout⟩ => ?_
    exact ⟨congrArg (· + 1) hlen, List.forall_mem_cons.mpr ⟨hb, hout⟩⟩

end Ends

end AppleUtils
