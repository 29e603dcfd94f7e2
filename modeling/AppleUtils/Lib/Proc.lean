import Mathlib.Tactic.Common

/-! # Procedures with a trace

A procedure of type `Proc σ ε τ α` runs on a state `σ` and ends with a value, with an error, or
still running when a loop has used up the turns it was given.  Whatever the outcome, the state
reached and the trace of effects so far remain: an error does not undo what came before it.

Four judgements about a procedure come with their rules.

* `Triple C P x Q` is a Hoare triple under a contract `C`: as long as the effects meet what the
  contract relies on, `x` keeps the invariant, its effects and its errors are those the contract
  allows, and `Q` holds of the value it returns.
* `Blames bad blame x` says that `x` ends with an error to blame exactly when its trace has a
  bad effect; so a bad effect ends the procedure, and nothing else gives that error.
* `Yields R x` relates the value that `x` returns to the effects it had by then.
* `Halts Q x` says that `x` ends, and `Q` of the value it returns.

`Mirrors f g s x y` compares two procedures: on the image of `s` under `f`, `x` does what `y` does
on `s`, with the effects renamed by `g`. -/

namespace AppleUtils

open List

/-- How a procedure ended. -/
inductive Outcome (ε α : Type) where
  | ok (value : α)
  | error (error : ε)
  | running
deriving DecidableEq

/-- The outcome of a computation that can fail, its error embedded by `f`. -/
def Outcome.ofExcept {δ ε α : Type} (f : δ → ε) : Except δ α → Outcome ε α
  | .ok a => .ok a
  | .error e => .error (f e)

lemma Outcome.ofExcept_eq_error {δ ε α : Type} {f : δ → ε} {r : Except δ α} {e : ε}
    (h : Outcome.ofExcept f r = .error e) : ∃ d, e = f d := by
  cases r with
  | ok a => cases h
  | error d =>
    cases h
    exact ⟨d, rfl⟩

/-- A procedure's outcome, the state it reached and the effects it had, in order. -/
structure Result (σ ε τ α : Type) where
  outcome : Outcome ε α
  state : σ
  trace : List τ

structure Proc (σ ε τ α : Type) where
  run : σ → Result σ ε τ α

/-- What one turn of a loop decides. -/
inductive Turn (β α : Type) where
  | again (next : β)
  | done (value : α)

variable {σ ε τ α β : Type}

/-- `P` of what the loop goes on with, `Q` of what it returns. -/
def Turn.Holds (P : β → Prop) (Q : α → Prop) : Turn β α → Prop
  | .again next => P next
  | .done value => Q value

/-- The result with effects that came before it. -/
def Result.after (r : Result σ ε τ α) (earlier : List τ) : Result σ ε τ α :=
  { r with trace := earlier ++ r.trace }

namespace Proc

protected def pure (a : α) : Proc σ ε τ α := ⟨fun s => ⟨.ok a, s, []⟩⟩

protected def bind (x : Proc σ ε τ α) (f : α → Proc σ ε τ β) : Proc σ ε τ β where
  run s :=
    match (x.run s).outcome with
    | .ok a => ((f a).run (x.run s).state).after (x.run s).trace
    | .error e => ⟨.error e, (x.run s).state, (x.run s).trace⟩
    | .running => ⟨.running, (x.run s).state, (x.run s).trace⟩

instance : Monad (Proc σ ε τ) where
  pure := Proc.pure
  bind := Proc.bind

def get : Proc σ ε τ σ := ⟨fun s => ⟨.ok s, s, []⟩⟩

def modify (f : σ → σ) : Proc σ ε τ Unit := ⟨fun s => ⟨.ok (), f s, []⟩⟩

def throw (e : ε) : Proc σ ε τ α := ⟨fun s => ⟨.error e, s, []⟩⟩

/-- A computation that does not touch the state. -/
def lift : Except ε α → Proc σ ε τ α
  | .ok a => Proc.pure a
  | .error e => throw e

/-- An effect that shows the state it happened in. -/
def record (effect : σ → τ) : Proc σ ε τ Unit := ⟨fun s => ⟨.ok (), s, [effect s]⟩⟩

/-- A loop of at most `turns` turns. -/
def loop (body : β → Proc σ ε τ (Turn β α)) : ℕ → β → Proc σ ε τ α
  | 0, _ => ⟨fun s => ⟨.running, s, []⟩⟩
  | turns + 1, b => do
    match ← body b with
    | .again next => loop body turns next
    | .done value => pure value

/-! ### Equations -/

section Equations

variable {x : Proc σ ε τ α} {f : α → Proc σ ε τ β} {s : σ} {a : α}

@[simp] lemma pure_run (a : α) : (pure a : Proc σ ε τ α).run s = ⟨.ok a, s, []⟩ := rfl

@[simp] lemma get_run : (get : Proc σ ε τ σ).run s = ⟨.ok s, s, []⟩ := rfl

@[simp] lemma modify_run (g : σ → σ) : (modify g : Proc σ ε τ Unit).run s = ⟨.ok (), g s, []⟩ := rfl

@[simp] lemma throw_run (e : ε) : (throw e : Proc σ ε τ α).run s = ⟨.error e, s, []⟩ := rfl

@[simp] lemma record_run (g : σ → τ) : (record g : Proc σ ε τ Unit).run s = ⟨.ok (), s, [g s]⟩ := rfl

@[simp] lemma lift_ok_run (a : α) : (lift (.ok a) : Proc σ ε τ α).run s = ⟨.ok a, s, []⟩ := rfl

lemma bind_ok (h : (x.run s).outcome = .ok a) :
    (x >>= f).run s = ((f a).run (x.run s).state).after (x.run s).trace := by
  simp only [Bind.bind, Proc.bind, h]

lemma bind_error {e : ε} (h : (x.run s).outcome = .error e) :
    (x >>= f).run s = ⟨.error e, (x.run s).state, (x.run s).trace⟩ := by simp only [Bind.bind, Proc.bind, h]

lemma bind_running (h : (x.run s).outcome = .running) :
    (x >>= f).run s = ⟨.running, (x.run s).state, (x.run s).trace⟩ := by simp only [Bind.bind, Proc.bind, h]

/-- A step that returns without an effect only moves the state. -/
lemma bind_silent {s' : σ} (h : x.run s = ⟨.ok a, s', []⟩) : (x >>= f).run s = (f a).run s' := by
  rw [bind_ok (congrArg Result.outcome h), h]
  rfl

/-- A step whose result is known, and the rest of the procedure from there. -/
lemma bind_run {s' : σ} {t : List τ} (h : x.run s = ⟨.ok a, s', t⟩) :
    (x >>= f).run s = ((f a).run s').after t := by rw [bind_ok (congrArg Result.outcome h), h]

end Equations

end Proc

/-! ### Hoare triples under a contract -/

/-- What a family of procedures keeps, what it relies on of the effects, and the effects and
errors it allows. -/
structure Contract (σ ε τ : Type) where
  inv : σ → Prop
  (relies gives : τ → Prop)
  fails : ε → Prop

/-- The result of a procedure that met the contract. -/
structure Contract.Meets (C : Contract σ ε τ) (Q : α → σ → Prop) (r : Result σ ε τ α) : Prop where
  inv : C.inv r.state
  gives : ∀ t ∈ r.trace, C.gives t
  fails : ∀ e, r.outcome = .error e → C.fails e
  post : ∀ a, r.outcome = .ok a → Q a r.state

def Triple (C : Contract σ ε τ) (P : σ → Prop) (x : Proc σ ε τ α) (Q : α → σ → Prop) : Prop :=
  ∀ s, C.inv s → P s → (∀ t ∈ (x.run s).trace, C.relies t) → C.Meets Q (x.run s)

/-- The triple with nothing to say beyond the contract. -/
def Contract.Keeps (C : Contract σ ε τ) (x : Proc σ ε τ α) : Prop :=
  Triple C (fun _ => True) x (fun _ _ => True)

namespace Triple

variable {C : Contract σ ε τ} {P P' : σ → Prop} {Q Q' : α → σ → Prop} {R : β → σ → Prop}
    {x : Proc σ ε τ α} {f : α → Proc σ ε τ β}

lemma conseq (h : Triple C P' x Q') (hP : ∀ s, C.inv s → P s → P' s)
    (hQ : ∀ a s, C.inv s → Q' a s → Q a s) : Triple C P x Q := by
  intro s hi hp hr
  obtain ⟨hinv, hgives, hfails, hpost⟩ := h s hi (hP s hi hp) hr
  exact ⟨hinv, hgives, hfails, fun a ha => hQ a _ hinv (hpost a ha)⟩

lemma keeps (h : Triple C (fun _ => True) x Q) : C.Keeps x :=
  h.conseq (fun _ _ _ => trivial) (fun _ _ _ _ => trivial)

lemma ret (a : α) : Triple C (Q a) (pure a) Q := by
  intro s hi hp _
  refine ⟨hi, ?_, ?_, ?_⟩
  · intro t ht
    cases ht
  · intro e he
    cases he
  · intro b hb
    cases hb
    exact hp

lemma get {Q : σ → σ → Prop} : Triple C (fun s => Q s s) Proc.get Q := by
  intro s hi hp _
  refine ⟨hi, ?_, ?_, ?_⟩
  · intro t ht
    cases ht
  · intro e he
    cases he
  · intro b hb
    cases hb
    exact hp

lemma modify {Q : Unit → σ → Prop} {g : σ → σ} (hg : ∀ s, C.inv s → P s → C.inv (g s))
    (hQ : ∀ s, C.inv s → P s → Q () (g s)) : Triple C P (Proc.modify g) Q := by
  intro s hi hp _
  refine ⟨hg s hi hp, ?_, ?_, ?_⟩
  · intro t ht
    cases ht
  · intro e he
    cases he
  · intro b _
    exact hQ s hi hp

lemma throw {e : ε} (he : C.fails e) : Triple C P (Proc.throw e) Q := by
  intro s hi _ _
  refine ⟨hi, ?_, ?_, ?_⟩
  · intro t ht
    cases ht
  · intro e' he'
    cases he'
    exact he
  · intro a ha
    cases ha

lemma record {Q : Unit → σ → Prop} {g : σ → τ}
    (hg : ∀ s, C.inv s → P s → C.relies (g s) → C.gives (g s) ∧ Q () s) : Triple C P (Proc.record g) Q := by
  intro s hi hp hr
  obtain ⟨hgives, hpost⟩ := hg s hi hp (hr _ (mem_singleton_self _))
  refine ⟨hi, ?_, ?_, ?_⟩
  · intro t ht
    rw [mem_singleton.mp ht]
    exact hgives
  · intro e he
    cases he
  · intro b _
    exact hpost

lemma bind (hx : Triple C P x Q) (hf : ∀ a, Triple C (Q a) (f a) R) : Triple C P (x >>= f) R := by
  intro s hi hp hr
  cases ho : (x.run s).outcome with
  | ok a =>
    rw [Proc.bind_ok ho] at hr ⊢
    have hsplit := forall_mem_append.mp hr
    obtain ⟨hinv, hgives, _, hpost⟩ := hx s hi hp hsplit.1
    obtain ⟨hinv', hgives', hfails', hpost'⟩ := hf a _ hinv (hpost a ho) hsplit.2
    exact ⟨hinv', forall_mem_append.mpr ⟨hgives, hgives'⟩, hfails', hpost'⟩
  | error e =>
    rw [Proc.bind_error ho] at hr ⊢
    obtain ⟨hinv, hgives, hfails, _⟩ := hx s hi hp hr
    refine ⟨hinv, hgives, ?_, ?_⟩
    · intro e' he'
      cases he'
      exact hfails e ho
    · intro b hb
      cases hb
  | running =>
    rw [Proc.bind_running ho] at hr ⊢
    obtain ⟨hinv, hgives, _, _⟩ := hx s hi hp hr
    refine ⟨hinv, hgives, ?_, ?_⟩
    · intro e' he'
      cases he'
    · intro b hb
      cases hb

/-- Reading the state first: the rest may use that the value read is the state. -/
lemma get_bind {g : σ → Proc σ ε τ β} (hg : ∀ s, C.inv s → P s → Triple C (· = s) (g s) R) :
    Triple C P (Proc.get >>= g) R := by
  intro s hi hp hr
  rw [Proc.bind_silent Proc.get_run] at hr ⊢
  exact hg s hi hp s hi rfl hr

lemma lift_bind {r : Except ε α} (he : ∀ e, r = .error e → C.fails e)
    (hf : ∀ a, r = .ok a → Triple C P (f a) R) : Triple C P (Proc.lift r >>= f) R := by
  cases r with
  | ok a =>
    intro s hi hp hr
    rw [Proc.bind_silent (Proc.lift_ok_run a)] at hr ⊢
    exact hf a rfl s hi hp hr
  | error e =>
    intro s hi hp hr
    exact Triple.throw (he e rfl) s hi hp hr

lemma loop {J : β → σ → Prop} {body : β → Proc σ ε τ (Turn β α)}
    (hbody : ∀ b, Triple C (J b) (body b) fun turn s => match turn with
      | .again next => J next s
      | .done a => Q a s) (turns : ℕ) (b : β) : Triple C (J b) (Proc.loop body turns b) Q := by
  induction turns generalizing b with
  | zero =>
    intro s hi _ _
    refine ⟨hi, ?_, ?_, ?_⟩
    · intro t ht
      cases ht
    · intro e he
      cases he
    · intro a ha
      cases ha
  | succ turns ih =>
    refine (hbody b).bind fun turn => ?_
    cases turn with
    | again next => exact ih next
    | done a => exact Triple.ret a

end Triple

namespace Contract

variable {C : Contract σ ε τ} {x : Proc σ ε τ α} {f : α → Proc σ ε τ β}

lemma Keeps.ret (a : α) : C.Keeps (pure a) :=
  (Triple.ret a).conseq (fun _ _ _ => trivial) (fun _ _ _ => id)

lemma Keeps.throw {e : ε} (he : C.fails e) : C.Keeps (Proc.throw e : Proc σ ε τ α) :=
  Triple.throw he

lemma Keeps.modify {g : σ → σ} (hg : ∀ s, C.inv s → C.inv (g s)) : C.Keeps (Proc.modify g) :=
  Triple.modify (fun s hi _ => hg s hi) (fun _ _ _ => trivial)

lemma Keeps.record {g : σ → τ} (hg : ∀ s, C.inv s → C.relies (g s) → C.gives (g s)) : C.Keeps (Proc.record g) :=
  Triple.record fun s hi _ hr => ⟨hg s hi hr, trivial⟩

lemma Keeps.bind (hx : C.Keeps x) (hf : ∀ a, C.Keeps (f a)) : C.Keeps (x >>= f) :=
  Triple.bind hx hf

lemma Keeps.get_bind {g : σ → Proc σ ε τ β}
    (hg : ∀ s, C.inv s → Triple C (· = s) (g s) fun _ _ => True) : C.Keeps (Proc.get >>= g) :=
  Triple.get_bind fun s hi _ => hg s hi

lemma Keeps.loop {body : β → Proc σ ε τ (Turn β α)} (hbody : ∀ b, C.Keeps (body b)) (turns : ℕ)
    (b : β) : C.Keeps (Proc.loop body turns b) :=
  Triple.loop (J := fun _ _ => True)
    (fun b => (hbody b).conseq (fun _ _ _ => trivial) fun turn _ _ _ => by cases turn <;> trivial)
    turns b

/-- A fact about what the procedure does to the state, beside the contract it keeps. -/
lemma Keeps.with_post {P : σ → Prop} {Q : α → σ → Prop} (h : C.Keeps x)
    (hQ : ∀ s a, P s → (x.run s).outcome = .ok a → Q a (x.run s).state) : Triple C P x Q := by
  intro s hi hp hr
  obtain ⟨hinv, hgives, hfails, _⟩ := h s hi trivial hr
  exact ⟨hinv, hgives, hfails, fun a ha => hQ s a hp ha⟩

lemma Keeps.under (h : C.Keeps x) (P : σ → Prop) : Triple C P x fun _ _ => True :=
  h.with_post fun _ _ _ _ => trivial

end Contract

/-- The contract that speaks of effects and errors only. -/
def Contract.effects (gives : τ → Prop) (fails : ε → Prop) : Contract σ ε τ where
  inv _ := True
  relies _ := True
  gives := gives
  fails := fails

namespace Contract

variable {gives : τ → Prop} {fails : ε → Prop} {x : Proc σ ε τ α}

lemma effects_keeps_iff : (effects gives fails).Keeps x ↔
    ∀ s, (∀ t ∈ (x.run s).trace, gives t) ∧ ∀ e, (x.run s).outcome = .error e → fails e := by
  constructor
  · intro h s
    obtain ⟨_, hgives, hfails, _⟩ := h s trivial trivial (fun _ _ => trivial)
    exact ⟨hgives, hfails⟩
  · intro h s _ _ _
    exact ⟨trivial, (h s).1, (h s).2, fun _ _ => trivial⟩

lemma effects_modify (g : σ → σ) : (effects gives fails).Keeps (Proc.modify g : Proc σ ε τ Unit) :=
  Keeps.modify fun _ _ => trivial

end Contract

/-! ### Errors to blame on an effect -/

/-- The procedure ends with an error to blame exactly when it had a bad effect. -/
def Blames (bad : τ → Prop) (blame : ε → Prop) (x : Proc σ ε τ α) : Prop :=
  ∀ s, (∃ t ∈ (x.run s).trace, bad t) ↔ ∃ e, (x.run s).outcome = .error e ∧ blame e

namespace Blames

variable {bad : τ → Prop} {blame : ε → Prop} {x : Proc σ ε τ α} {f : α → Proc σ ε τ β}

/-- A procedure without effects and without errors to blame. -/
lemma of_silent (ht : ∀ s, (x.run s).trace = []) (he : ∀ s e, (x.run s).outcome = .error e → ¬ blame e) :
    Blames bad blame x := by
  intro s
  constructor
  · rintro ⟨t, hmem, _⟩
    rw [ht s] at hmem
    cases hmem
  · rintro ⟨e, ho, hb⟩
    exact absurd hb (he s e ho)

/-- A procedure whose effects are not bad and whose errors are not to blame. -/
lemma of_effects {gives : τ → Prop} {fails : ε → Prop}
    (h : (Contract.effects gives fails).Keeps x) (hbad : ∀ t, gives t → ¬ bad t)
    (hblame : ∀ e, fails e → ¬ blame e) : Blames bad blame x := by
  intro s
  obtain ⟨hgives, hfails⟩ := Contract.effects_keeps_iff.mp h s
  constructor
  · rintro ⟨t, hmem, hb⟩
    exact absurd hb (hbad t (hgives t hmem))
  · rintro ⟨e, ho, hb⟩
    exact absurd hb (hblame e (hfails e ho))

lemma ret (a : α) : Blames bad blame (pure a : Proc σ ε τ α) :=
  of_silent (fun _ => rfl) (fun _ _ h => by cases h)

lemma modify (g : σ → σ) : Blames bad blame (Proc.modify g : Proc σ ε τ Unit) :=
  of_silent (fun _ => rfl) (fun _ _ h => by cases h)

lemma throw {e : ε} (he : ¬ blame e) : Blames bad blame (Proc.throw e : Proc σ ε τ α) :=
  of_silent (fun _ => rfl) (fun _ _ h => by cases h; exact he)

lemma record {g : σ → τ} (hg : ∀ s, ¬ bad (g s)) : Blames bad blame (Proc.record g : Proc σ ε τ Unit) := by
  intro s
  constructor
  · rintro ⟨t, hmem, hbad⟩
    rw [mem_singleton.mp hmem] at hbad
    exact absurd hbad (hg s)
  · rintro ⟨e, ho, _⟩
    cases ho

lemma bind (hx : Blames bad blame x) (hf : ∀ a, Blames bad blame (f a)) : Blames bad blame (x >>= f) := by
  intro s
  cases ho : (x.run s).outcome with
  | ok a =>
    -- nothing bad happened in `x`, for it returned
    have hgood : ¬ ∃ t ∈ (x.run s).trace, bad t := by
      rw [hx s, ho]
      rintro ⟨e, he, _⟩
      cases he
    rw [Proc.bind_ok ho]
    refine Iff.trans ?_ (hf a (x.run s).state)
    constructor
    · rintro ⟨t, hmem, hbad⟩
      rcases mem_append.mp hmem with hmem | hmem
      · exact absurd ⟨t, hmem, hbad⟩ hgood
      · exact ⟨t, hmem, hbad⟩
    · rintro ⟨t, hmem, hbad⟩
      exact ⟨t, mem_append_right _ hmem, hbad⟩
  | error e =>
    rw [Proc.bind_error ho]
    have h := hx s
    simp only [ho, Outcome.error.injEq] at h
    simpa using h
  | running =>
    rw [Proc.bind_running ho]
    have h := hx s
    simp only [ho] at h
    simpa using h

lemma loop {body : β → Proc σ ε τ (Turn β α)} (hbody : ∀ b, Blames bad blame (body b))
    (turns : ℕ) (b : β) : Blames bad blame (Proc.loop body turns b) := by
  induction turns generalizing b with
  | zero => exact of_silent (fun _ => rfl) (fun _ _ h => by cases h)
  | succ turns ih =>
    refine (hbody b).bind fun turn => ?_
    cases turn with
    | again next => exact ih next
    | done a => exact ret a

end Blames

/-! ### Returned values and traces -/

/-- Whenever the procedure returns, `R` relates the value and the trace. -/
def Yields (R : α → List τ → Prop) (x : Proc σ ε τ α) : Prop :=
  ∀ s a, (x.run s).outcome = .ok a → R a (x.run s).trace

namespace Yields

variable {x : Proc σ ε τ α} {f : α → Proc σ ε τ β} {R : α → List τ → Prop}

lemma ret {a : α} (h : R a []) : Yields R (pure a : Proc σ ε τ α) := by
  rintro s b ⟨⟩
  exact h

lemma throw (e : ε) : Yields R (Proc.throw e : Proc σ ε τ α) := by rintro s b ⟨⟩

/-- The continuation is judged with the trace so far in front of its own. -/
lemma bind {R : β → List τ → Prop} {S : α → List τ → Prop} (hx : Yields S x)
    (hf : ∀ a t, S a t → Yields (fun b t' => R b (t ++ t')) (f a)) : Yields R (x >>= f) := by
  intro s b h
  cases ho : (x.run s).outcome with
  | ok a =>
    rw [Proc.bind_ok ho] at h ⊢
    exact hf a _ (hx s a ho) _ b h
  | error e =>
    rw [Proc.bind_error ho] at h
    cases h
  | running =>
    rw [Proc.bind_running ho] at h
    cases h

/-- A loop whose repeated turns leave a trace that may stand in front. -/
lemma loop {calm : List τ → Prop} {body : β → Proc σ ε τ (Turn β α)}
    (hR : ∀ a t t', calm t → R a t' → R a (t ++ t')) (hbody : ∀ b, Yields (fun turn t => match turn with
      | .again _ => calm t
      | .done a => R a t) (body b)) (turns : ℕ) (b : β) : Yields R (Proc.loop body turns b) := by
  induction turns generalizing b with
  | zero => rintro s a ⟨⟩
  | succ turns ih =>
    refine (hbody b).bind ?_
    intro turn t ht
    cases turn with
    | again next =>
      intro s a h
      exact hR a _ _ ht (ih next s a h)
    | done a =>
      refine ret ?_
      rw [append_nil]
      exact ht

end Yields

/-! ### Termination -/

/-- From every state the procedure ends, and a value it returns satisfies `Q`. -/
def Halts (Q : α → Prop) (x : Proc σ ε τ α) : Prop :=
  ∀ s, (x.run s).outcome ≠ .running ∧ ∀ a, (x.run s).outcome = .ok a → Q a

namespace Halts

variable {Q : α → Prop} {R : β → Prop} {x : Proc σ ε τ α} {f : α → Proc σ ε τ β}

lemma ret {a : α} (h : Q a) : Halts Q (pure a : Proc σ ε τ α) := by
  intro s
  refine ⟨nofun, ?_⟩
  rintro b ⟨⟩
  exact h

lemma throw (e : ε) : Halts Q (Proc.throw e : Proc σ ε τ α) := fun _ => ⟨nofun, nofun⟩

lemma get : Halts (fun _ => True) (Proc.get : Proc σ ε τ σ) := fun _ => ⟨nofun, fun _ _ => trivial⟩

lemma modify (g : σ → σ) : Halts (fun _ => True) (Proc.modify g : Proc σ ε τ Unit) :=
  fun _ => ⟨nofun, fun _ _ => trivial⟩

lemma record (g : σ → τ) : Halts (fun _ => True) (Proc.record g : Proc σ ε τ Unit) :=
  fun _ => ⟨nofun, fun _ _ => trivial⟩

lemma lift {r : Except ε α} (h : ∀ a, r = .ok a → Q a) : Halts Q (Proc.lift r : Proc σ ε τ α) := by
  cases r with
  | ok a => exact ret (h a rfl)
  | error e => exact throw e

lemma bind (hx : Halts Q x) (hf : ∀ a, Q a → Halts R (f a)) : Halts R (x >>= f) := by
  intro s
  obtain ⟨hends, hQ⟩ := hx s
  cases ho : (x.run s).outcome with
  | ok a =>
    rw [Proc.bind_ok ho]
    exact hf a (hQ a ho) _
  | error e =>
    rw [Proc.bind_error ho]
    exact ⟨nofun, nofun⟩
  | running => exact absurd ho hends

/-- A loop whose measure drops at every turn ends before its turns are used up. -/
lemma loop {body : β → Proc σ ε τ (Turn β α)} (m : β → ℕ)
    (hbody : ∀ b, Halts (Turn.Holds (m · < m b) Q) (body b)) {turns : ℕ} {b : β} (h : m b < turns) :
    Halts Q (Proc.loop body turns b) := by
  induction turns generalizing b with
  | zero => omega
  | succ turns ih =>
    refine (hbody b).bind fun turn hturn => ?_
    cases turn with
    | again next =>
      have : m next < m b := hturn
      exact ih (by omega)
    | done a => exact ret hturn

end Halts

/-! ### One procedure in the image of another -/

/-- The result seen through `f` and `g`. -/
def Result.map {σ' τ' : Type} (f : σ → σ') (g : τ → τ') (r : Result σ ε τ α) : Result σ' ε τ' α :=
  ⟨r.outcome, f r.state, r.trace.map g⟩

/-- `x` does on `f s` what `y` does on `s`. -/
def Mirrors {σ' τ' : Type} (f : σ → σ') (g : τ → τ') (s : σ) (x : Proc σ' ε τ' α) (y : Proc σ ε τ α) : Prop :=
  x.run (f s) = (y.run s).map f g

namespace Mirrors

variable {σ' τ' : Type} {f : σ → σ'} {g : τ → τ'} {s : σ} {x : Proc σ' ε τ' α} {y : Proc σ ε τ α}
    {h : α → Proc σ' ε τ' β} {k : α → Proc σ ε τ β}

lemma ret (a : α) : Mirrors f g s (pure a : Proc σ' ε τ' α) (pure a) := rfl

lemma throw (e : ε) : Mirrors f g s (Proc.throw e : Proc σ' ε τ' α) (Proc.throw e) := rfl

lemma bind (hx : Mirrors f g s x y)
    (hk : ∀ a, (y.run s).outcome = .ok a → Mirrors f g (y.run s).state (h a) (k a)) :
    Mirrors f g s (x >>= h) (y >>= k) := by
  have hout : (x.run (f s)).outcome = (y.run s).outcome := congrArg Result.outcome hx
  have hstate : (x.run (f s)).state = f (y.run s).state := congrArg Result.state hx
  have htrace : (x.run (f s)).trace = (y.run s).trace.map g := congrArg Result.trace hx
  unfold Mirrors
  cases ho : (y.run s).outcome with
  | ok a =>
    rw [Proc.bind_ok (hout.trans ho), Proc.bind_ok ho, hstate, htrace, hk a ho]
    simp only [Result.map, Result.after, map_append]
  | error e =>
    rw [Proc.bind_error (hout.trans ho), Proc.bind_error ho, hstate, htrace]
    rfl
  | running =>
    rw [Proc.bind_running (hout.trans ho), Proc.bind_running ho, hstate, htrace]
    rfl

/-- Reading the state: the rest of each has its own state. -/
lemma get_bind {h : σ' → Proc σ' ε τ' β} {k : σ → Proc σ ε τ β} (hk : Mirrors f g s (h (f s)) (k s)) :
    Mirrors f g s (Proc.get >>= h) (Proc.get >>= k) := by
  unfold Mirrors
  rw [Proc.bind_silent Proc.get_run, Proc.bind_silent Proc.get_run]
  exact hk

lemma lift_bind {r : Except ε α} (hk : ∀ a, r = .ok a → Mirrors f g s (h a) (k a)) :
    Mirrors f g s (Proc.lift r >>= h) (Proc.lift r >>= k) := by
  cases r with
  | ok a => exact bind (x := Proc.lift (.ok a)) rfl fun b hb => by cases hb; exact hk a rfl
  | error e => rfl

lemma modify_bind {m : σ' → σ'} {n : σ → σ} {h : Unit → Proc σ' ε τ' β} {k : Unit → Proc σ ε τ β}
    (hm : m (f s) = f (n s)) (hk : Mirrors f g (n s) (h ()) (k ())) :
    Mirrors f g s (Proc.modify m >>= h) (Proc.modify n >>= k) := by
  refine bind ?_ fun _ _ => hk
  rw [Mirrors, Proc.modify_run, hm]
  rfl

lemma record_bind {m : σ' → τ'} {n : σ → τ} {h : Unit → Proc σ' ε τ' β} {k : Unit → Proc σ ε τ β}
    (hm : m (f s) = g (n s)) (hk : Mirrors f g s (h ()) (k ())) :
    Mirrors f g s (Proc.record m >>= h) (Proc.record n >>= k) := by
  refine bind ?_ fun _ _ => hk
  rw [Mirrors, Proc.record_run, hm]
  rfl

lemma loop {b : β} {body' : β → Proc σ' ε τ' (Turn β α)}
    {body : β → Proc σ ε τ (Turn β α)} (hbody : ∀ b s, Mirrors f g s (body' b) (body b))
    (turns : ℕ) : Mirrors f g s (Proc.loop body' turns b) (Proc.loop body turns b) := by
  induction turns generalizing b s with
  | zero => rfl
  | succ turns ih =>
    refine (hbody b s).bind fun turn _ => ?_
    cases turn with
    | again next => exact ih
    | done a => exact ret a

end Mirrors

end AppleUtils
