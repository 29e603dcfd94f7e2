import AppleUtils.Lib.Proc

/-! # Monitors

A monitor reads the effects of a procedure one by one and keeps a state of its own.  It knows something
of the procedure's state, allows an effect or not, and takes some errors as explained by what it has
read.  `Follows M x` says that the monitor is right about `x` from any state it knows: it allows every
effect, knows the state in the end and explains the error, if there is one.

What a monitor knows may fail between two steps that belong together.  `Reads` is about one result, so
such steps can be taken together. -/

namespace AppleUtils

structure Monitor (σ ε τ μ : Type) where
  knows : μ → σ → Prop
  next : μ → τ → μ
  allows : μ → τ → Prop
  explains : μ → ε → Prop

namespace Monitor

variable {σ ε τ μ α β : Type} (M : Monitor σ ε τ μ) {t u : List τ}

def read (m : μ) (trace : List τ) : μ := trace.foldl M.next m

/-- Every effect is allowed at its place. -/
def Accepts : μ → List τ → Prop
  | _, [] => True
  | m, t :: trace => M.allows m t ∧ Accepts (M.next m t) trace

variable {M}

lemma read_append {m : μ} : M.read m (t ++ u) = M.read (M.read m t) u :=
  List.foldl_append

lemma accepts_append {m : μ} : M.Accepts m (t ++ u) ↔ M.Accepts m t ∧ M.Accepts (M.read m t) u := by
  induction t generalizing m with
  | nil => simp [Accepts, read]
  | cons e t ih => simp only [List.cons_append, Accepts, ih, and_assoc, read, List.foldl_cons]

variable (M)

structure Reads (m : μ) (r : Result σ ε τ α) : Prop where
  knows : M.knows (M.read m r.trace) r.state
  accepts : M.Accepts m r.trace
  explains : ∀ e, r.outcome = .error e → M.explains (M.read m r.trace) e

def Follows (x : Proc σ ε τ α) : Prop := ∀ s m, M.knows m s → M.Reads m (x.run s)

variable {M}

namespace Reads

variable {m : μ} {s : σ} {x : Proc σ ε τ α} {f : α → Proc σ ε τ β}

lemma after {r : Result σ ε τ α} (ht : M.Accepts m t) (h : M.Reads (M.read m t) r) : M.Reads m (r.after t) where
  knows := by
    change M.knows (M.read m (t ++ r.trace)) r.state
    rw [read_append]
    exact h.knows
  accepts := accepts_append.mpr ⟨ht, h.accepts⟩
  explains e he := by
    change M.explains (M.read m (t ++ r.trace)) e
    rw [read_append]
    exact h.explains e he

lemma bind (h : M.Reads m (x.run s)) (hf : ∀ a, M.Follows (f a)) : M.Reads m ((x >>= f).run s) := by
  cases ho : (x.run s).outcome with
  | ok a =>
    rw [Proc.bind_ok ho]
    exact after h.accepts (hf a _ _ h.knows)
  | error e =>
    rw [Proc.bind_error ho]
    refine ⟨h.knows, h.accepts, fun e' he' => ?_⟩
    cases he'
    exact h.explains e ho
  | running =>
    rw [Proc.bind_running ho]
    exact ⟨h.knows, h.accepts, fun e' he' => by cases he'⟩

end Reads

namespace Follows

variable {x : Proc σ ε τ α} {f : α → Proc σ ε τ β}

/-- A step without effects that leaves alone what the monitor knows. -/
lemma of_silent (htrace : ∀ s, (x.run s).trace = []) (hstate : ∀ s m, M.knows m s → M.knows m (x.run s).state)
    (herror : ∀ s m e, M.knows m s → (x.run s).outcome = .error e → M.explains m e) : M.Follows x := by
  intro s m hm
  have hread : M.read m (x.run s).trace = m := by rw [htrace]; rfl
  refine ⟨?_, ?_, fun e he => ?_⟩
  · rw [hread]
    exact hstate s m hm
  · rw [htrace]
    trivial
  · rw [hread]
    exact herror s m e hm he

lemma ret (a : α) : M.Follows (pure a : Proc σ ε τ α) :=
  of_silent (fun _ => rfl) (fun _ _ h => h) fun _ _ _ _ h => by cases h

lemma get : M.Follows (Proc.get : Proc σ ε τ σ) :=
  of_silent (fun _ => rfl) (fun _ _ h => h) fun _ _ _ _ h => by cases h

lemma throw {e : ε} (he : ∀ m, M.explains m e) : M.Follows (Proc.throw e : Proc σ ε τ α) :=
  of_silent (fun _ => rfl) (fun _ _ h => h) fun _ m _ _ h => by
    cases h
    exact he m

lemma modify {g : σ → σ} (hg : ∀ s m, M.knows m s → M.knows m (g s)) :
    M.Follows (Proc.modify g : Proc σ ε τ Unit) :=
  of_silent (fun _ => rfl) hg fun _ _ _ _ h => by cases h

lemma record {g : σ → τ} (hg : ∀ s m, M.knows m s → M.allows m (g s) ∧ M.knows (M.next m (g s)) s) :
    M.Follows (Proc.record g : Proc σ ε τ Unit) := fun s m hm =>
  ⟨(hg s m hm).2, ⟨(hg s m hm).1, trivial⟩, fun _ h => by cases h⟩

lemma bind (hx : M.Follows x) (hf : ∀ a, M.Follows (f a)) : M.Follows (x >>= f) :=
  fun s m hm => (hx s m hm).bind hf

lemma loop {body : β → Proc σ ε τ (Turn β α)} (hbody : ∀ b, M.Follows (body b)) (turns : ℕ) (b : β) :
    M.Follows (Proc.loop body turns b) := by
  induction turns generalizing b with
  | zero => exact of_silent (fun _ => rfl) (fun _ _ h => h) fun _ _ _ _ h => by cases h
  | succ turns ih =>
    refine (hbody b).bind fun turn => ?_
    cases turn with
    | again next => exact ih next
    | done a => exact ret a

end Follows

end Monitor

end AppleUtils
