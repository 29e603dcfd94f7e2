import AppleUtils.Lib.Proc

/-! # Cleaning up after a procedure

Steps whose errors are dropped, and steps that are taken after an error or in any case. -/

namespace AppleUtils

variable {σ ε τ α β : Type}

namespace Proc

/-- The procedure with its outcome dropped. -/
def ignoring (x : Proc σ ε τ α) : Proc σ ε τ Unit := ⟨fun s => ⟨.ok (), (x.run s).state, (x.run s).trace⟩⟩

/-- `x`, and `cleanup` if it ends with an error. -/
def onError (x : Proc σ ε τ α) (cleanup : Proc σ ε τ Unit) : Proc σ ε τ α where
  run s :=
    match (x.run s).outcome with
    | .error e => ⟨.error e, (cleanup.run (x.run s).state).state,
        (x.run s).trace ++ (cleanup.run (x.run s).state).trace⟩
    | _ => x.run s

/-- `x`, and then `cleanup` whatever came of it. -/
def always (x : Proc σ ε τ α) (cleanup : Proc σ ε τ Unit) : Proc σ ε τ α where
  run s := ⟨(x.run s).outcome, (cleanup.run (x.run s).state).state,
    (x.run s).trace ++ (cleanup.run (x.run s).state).trace⟩

/-- `f` of each element in turn, up to the first error. -/
def forEach (f : α → Proc σ ε τ β) : List α → Proc σ ε τ Unit
  | [] => pure ()
  | a :: l => do
    let _ ← f a
    forEach f l

/-- An error leaves the state as it was. -/
def FailsClean (x : Proc σ ε τ α) : Prop :=
  ∀ s e, (x.run s).outcome = .error e → (x.run s).state = s

end Proc

namespace Triple

open Proc

variable {C : Contract σ ε τ} {P : σ → Prop} {Q : α → σ → Prop} {x : Proc σ ε τ α}
    {cleanup : Proc σ ε τ Unit}

lemma ignoring {R : Unit → σ → Prop} (h : Triple C P x fun _ _ => True)
    (hR : ∀ s, C.inv s → P s → R () (x.run s).state) : Triple C P x.ignoring R := by
  intro s hi hp hr
  obtain ⟨hinv, hgives, _, _⟩ := h s hi hp hr
  refine ⟨hinv, hgives, nofun, fun a _ => hR s hi hp⟩

lemma onError (hx : Triple C P x Q) (hclean : x.FailsClean)
    (hcleanup : Triple C P cleanup fun _ _ => True) : Triple C P (x.onError cleanup) Q := by
  intro s hi hp hr
  unfold Proc.onError at hr ⊢
  cases ho : (x.run s).outcome with
  | error e =>
    simp only [ho] at hr ⊢
    obtain ⟨hrx, hrc⟩ := List.forall_mem_append.mp hr
    obtain ⟨_, hgives, hfails, _⟩ := hx s hi hp hrx
    rw [hclean s e ho] at hrc ⊢
    obtain ⟨hinv', hgives', _, _⟩ := hcleanup s hi hp hrc
    refine ⟨hinv', List.forall_mem_append.mpr ⟨hgives, hgives'⟩, ?_, nofun⟩
    intro e' he'
    cases he'
    exact hfails e ho
  | ok a =>
    simp only [ho] at hr ⊢
    exact hx s hi hp hr
  | running =>
    simp only [ho] at hr ⊢
    exact hx s hi hp hr

lemma always (hx : Triple C P x Q) (hcleanup : Triple C (fun _ => True) cleanup fun _ _ => True) :
    Triple C P (x.always cleanup) fun _ _ => True := by
  intro s hi hp hr
  obtain ⟨hrx, hrc⟩ := List.forall_mem_append.mp hr
  obtain ⟨hinv, hgives, hfails, _⟩ := hx s hi hp hrx
  obtain ⟨hinv', hgives', _, _⟩ := hcleanup _ hinv trivial hrc
  exact ⟨hinv', List.forall_mem_append.mpr ⟨hgives, hgives'⟩, hfails, fun _ _ => trivial⟩

lemma forEach {f : α → Proc σ ε τ β} (h : ∀ a, Triple C P (f a) fun _ => P) (l : List α) :
    Triple C P (Proc.forEach f l) fun _ => P := by
  induction l with
  | nil => exact Triple.ret (Q := fun _ => P) ()
  | cons a l ih => exact (h a).bind fun _ => ih

end Triple

end AppleUtils
