import Mathlib.Data.List.Basic
import Mathlib.Tactic.Common

/-! # Computations with a log

A computation of type `Logged τ ε α` ends with a value or an error and has written a log by then.
It has no other state: what it reads are its parameters.  An error ends it; the log up to there
remains.

* `Passes A x Q` says that `x` returns a value with `Q` and that every entry of its log satisfies
  `A`.  For each form of `x` an equivalence says what that takes.
* A loop is given a number of turns; `Passes.loop` says when they are enough. -/

namespace AppleUtils

open List

variable {γ : Type} {l : List γ}

structure Logged (τ ε α : Type) where
  result : Except ε α
  log : List τ

namespace Logged

variable {τ ε α β : Type} {f : β → ℕ → Except ε β} {I : β → List γ → Prop} {b : β}

protected def pure (a : α) : Logged τ ε α := ⟨.ok a, []⟩

protected def bind (x : Logged τ ε α) (f : α → Logged τ ε β) : Logged τ ε β :=
  match x.result with
  | .ok a => ⟨(f a).result, x.log ++ (f a).log⟩
  | .error e => ⟨.error e, x.log⟩

instance : Monad (Logged τ ε) where
  pure := Logged.pure
  bind := Logged.bind

def throw (e : ε) : Logged τ ε α := ⟨.error e, []⟩

/-- One entry of the log. -/
def note (t : τ) : Logged τ ε Unit := ⟨.ok (), [t]⟩

/-- A computation without a log. -/
def ofExcept (r : Except ε α) : Logged τ ε α := ⟨r, []⟩

instance : MonadLift (Except ε) (Logged τ ε) where
  monadLift := ofExcept

/-- The computation together with the log it wrote. -/
def listen (x : Logged τ ε α) : Logged τ ε (α × List τ) := ⟨x.result.map (·, x.log), x.log⟩

/-- A loop of at most `turns` turns on a value; it ends when a turn returns no next value, and with
`stuck` when the turns are used up. -/
def loop (body : β → Logged τ ε (β ⊕ α)) (stuck : ε) : ℕ → β → Logged τ ε α
  | 0, _ => throw stuck
  | turns + 1, b => do
    match ← body b with
    | .inl next => loop body stuck turns next
    | .inr value => pure value

/-! ### Equations -/

section Equations

variable {x : Logged τ ε α} {f : α → Logged τ ε β} {a : α}

@[simp] lemma pure_result (a : α) : (pure a : Logged τ ε α).result = .ok a := rfl

@[simp] lemma pure_log (a : α) : (pure a : Logged τ ε α).log = [] := rfl

@[simp] lemma note_result (t : τ) : (note t : Logged τ ε Unit).result = .ok () := rfl

@[simp] lemma pure_bind (a : α) (f : α → Logged τ ε β) : (pure a >>= f) = f a := rfl

@[simp] lemma throw_bind (e : ε) (f : α → Logged τ ε β) : (throw e >>= f) = throw e := rfl

@[simp] lemma monadLift_ok (a : α) : (monadLift (Except.ok a : Except ε α) : Logged τ ε α) = pure a := rfl

@[simp] lemma monadLift_error (e : ε) :
    (monadLift (Except.error e : Except ε α) : Logged τ ε α) = throw e := rfl

lemma bind_of_ok (h : x.result = .ok a) : x >>= f = ⟨(f a).result, x.log ++ (f a).log⟩ := by
  simp only [Bind.bind, Logged.bind, h]

lemma bind_of_error {e : ε} (h : x.result = .error e) : x >>= f = ⟨.error e, x.log⟩ := by
  simp only [Bind.bind, Logged.bind, h]

lemma bind_result_ok : (x >>= f).result = .ok b ↔ ∃ a, x.result = .ok a ∧ (f a).result = .ok b := by
  cases h : x.result with
  | ok a =>
    rw [bind_of_ok h]
    simp
  | error e =>
    rw [bind_of_error h]
    simp

lemma forM_result_ok {step : γ → Logged τ ε PUnit} {u : PUnit}
    (h : (l.forM step).result = .ok u) : ∀ c ∈ l, (step c).result = .ok ⟨⟩ := by
  induction l with
  | nil => exact nofun
  | cons c l ih =>
    obtain ⟨_, hc, hl⟩ := bind_result_ok.mp h
    exact forall_mem_cons.mpr ⟨hc, ih hl⟩

lemma monadLift_result (r : Except ε α) : (monadLift r : Logged τ ε α).result = r := rfl

lemma listen_result_ok {log : List τ} : x.listen.result = .ok (a, log) ↔ x.result = .ok a ∧ x.log = log := by
  unfold listen
  cases x.result <;> simp [Except.map]

end Equations

/-! ### Errors -/

/-- Every error of the computation satisfies `E`. -/
def Fails (E : ε → Prop) (x : Logged τ ε α) : Prop := ∀ e, x.result = .error e → E e

namespace Fails

variable {E : ε → Prop} {x : Logged τ ε α} {f : α → Logged τ ε β}

lemma ret (a : α) : Fails E (pure a : Logged τ ε α) := by
  intro e he
  cases he

lemma bind (hx : Fails E x) (hf : ∀ a, Fails E (f a)) : Fails E (x >>= f) := by
  intro e he
  cases hr : x.result with
  | ok a =>
    rw [bind_of_ok hr] at he
    exact hf a e he
  | error e' =>
    rw [bind_of_error hr] at he
    cases he
    exact hx _ hr

lemma foldlM {step : β → γ → Logged τ ε β} (h : ∀ b c, Fails E (step b c)) (l : List γ) (b : β) :
    Fails E (l.foldlM step b) := by
  induction l generalizing b with
  | nil => exact ret b
  | cons c l ih => exact (h b c).bind ih

lemma forM {step : γ → Logged τ ε PUnit} (h : ∀ c, Fails E (step c)) (l : List γ) : Fails E (l.forM step) := by
  induction l with
  | nil => exact ret _
  | cons c l ih => exact (h c).bind fun _ => ih

end Fails

/-! ### Loops over indices -/

/-- A loop over the indices of a list succeeds when every turn does, along an invariant on the
accumulator and the elements that are left. -/
lemma foldlM_range_ok
    (h : ∀ i c rest b, l.drop i = c :: rest → I b (c :: rest) → ∃ b', f b i = .ok b' ∧ I b' rest)
    (hI : I b l) : ∃ b', (List.range l.length).foldlM f b = .ok b' ∧ I b' [] := by
  induction l generalizing f b with
  | nil => exact ⟨b, rfl, hI⟩
  | cons c l ih =>
    obtain ⟨b1, hf, hI1⟩ := h 0 c l b rfl hI
    obtain ⟨b', hb', hI'⟩ := ih (f := fun b i => f b (i + 1))
      (fun i c' rest b hdrop => h (i + 1) c' rest b (by simpa using hdrop)) hI1
    refine ⟨b', ?_, hI'⟩
    rw [length_cons, range_succ_eq_map, foldlM_cons, hf]
    exact (foldlM_map ..).trans hb'

/-- A loop over the indices of a list whose turns never fail. -/
lemma foldlM_range_step {step : β → γ → β} (h : ∀ i c b, l[i]? = some c → f b i = .ok (step b c)) (b : β) :
    (List.range l.length).foldlM f b = .ok (l.foldl step b) := by
  obtain ⟨b', hfold, hb'⟩ := foldlM_range_ok (l := l) (f := f) (b := b)
    (I := fun b' rest => rest.foldl step b' = l.foldl step b)
    (fun i c rest b' hdrop hI => ⟨step b' c, h i c b' (by rw [← List.head?_drop, hdrop]; rfl), hI⟩)
    rfl
  rw [hfold, ← hb', foldl_nil]

/-- A loop over a list succeeds when every turn does, along an invariant on the accumulator and
the elements taken so far. -/
lemma foldlM_prefix_ok {f : β → γ → Except ε β}
    (h : ∀ b before c, before ++ [c] <+: l → I b before → ∃ b', f b c = .ok b' ∧ I b' (before ++ [c]))
    (hI : I b []) : ∃ b', l.foldlM f b = .ok b' ∧ I b' l := by
  suffices hgen : ∀ rest before b, before ++ rest = l → I b before →
      ∃ b', rest.foldlM f b = .ok b' ∧ I b' l from hgen l [] b rfl hI
  intro rest
  induction rest with
  | nil =>
    intro before b hl hI
    rw [append_nil] at hl
    exact ⟨b, rfl, hl ▸ hI⟩
  | cons c rest ih =>
    intro before b hl hI
    have hl' : (before ++ [c]) ++ rest = l := by rw [append_assoc]; exact hl
    obtain ⟨b1, hf, hI1⟩ := h b before c ⟨rest, hl'⟩ hI
    obtain ⟨b', hb', hI'⟩ := ih (before ++ [c]) b1 hl' hI1
    refine ⟨b', ?_, hI'⟩
    rw [foldlM_cons, hf]
    exact hb'

/-! ### What a computation writes -/

/-- Under `f`, the computation writes `ts` in order: all of it if it returns a value, and a part from
the start if not. -/
def Logs {σ : Type} (f : τ → σ) (x : Logged τ ε α) (ts : List σ) : Prop :=
  x.log.map f <+: ts ∧ ∀ a, x.result = .ok a → x.log.map f = ts

namespace Logs

variable {σ : Type} {f : τ → σ} {x : Logged τ ε α} {k : α → Logged τ ε β} {ts us : List σ} {w : γ → List σ}

lemma pure (a : α) : Logs f (Pure.pure a : Logged τ ε α) [] := ⟨List.nil_prefix, fun _ _ => rfl⟩

lemma lift (r : Except ε α) : Logs f (monadLift r : Logged τ ε α) [] :=
  ⟨List.nil_prefix, fun _ _ => rfl⟩

lemma throw (e : ε) (ts : List σ) : Logs f (Logged.throw e : Logged τ ε α) ts :=
  ⟨List.nil_prefix, nofun⟩

lemma note (t : τ) : Logs f (Logged.note t : Logged τ ε Unit) [f t] :=
  ⟨prefix_rfl, fun _ _ => rfl⟩

lemma bind (hx : Logs f x ts) (hk : ∀ a, x.result = .ok a → Logs f (k a) us) : Logs f (x >>= k) (ts ++ us) := by
  cases h : x.result with
  | error e =>
    rw [bind_of_error h]
    exact ⟨hx.1.trans (prefix_append ts us), nofun⟩
  | ok a =>
    rw [bind_of_ok h]
    obtain ⟨hpre, hall⟩ := hk a h
    constructor
    · rw [map_append, hx.2 a h]
      exact (prefix_append_right_inj ts).mpr hpre
    · intro b hb
      rw [map_append, hx.2 a h, hall b hb]

lemma lift_bind {r : Except ε α} (hk : ∀ a, r = .ok a → Logs f (k a) us) :
    Logs f (monadLift r >>= k) us := (lift r).bind hk

lemma foldlM {step : β → γ → Logged τ ε β}
    (h : ∀ b, ∀ c ∈ l, Logs f (step b c) (w c)) : Logs f (l.foldlM step b) (l.flatMap w) := by
  induction l generalizing b with
  | nil => exact pure b
  | cons c l ih =>
    rw [foldlM_cons, flatMap_cons]
    exact (h b c mem_cons_self).bind fun b' _ =>
      ih fun b c hc => h b c (mem_cons_of_mem _ hc)

lemma forM {step : γ → Logged τ ε PUnit}
    (h : ∀ c ∈ l, Logs f (step c) (w c)) : Logs f (l.forM step) (l.flatMap w) := by
  induction l with
  | nil => exact pure _
  | cons c l ih =>
    rw [flatMap_cons]
    exact (h c mem_cons_self).bind fun _ _ =>
      ih fun c hc => h c (mem_cons_of_mem _ hc)

end Logs

/-- Under `f`, the computation writes `ts` in order and then `t`; it writes `t` only if it returns a
value. -/
def LogsLast {σ : Type} (f : τ → σ) (x : Logged τ ε α) (ts : List σ) (t : σ) : Prop :=
  match x.result with
  | .ok _ => x.log.map f = ts ++ [t]
  | .error _ => x.log.map f <+: ts

namespace LogsLast

variable {σ : Type} {f : τ → σ} {x : Logged τ ε α} {k : α → Logged τ ε β} {ts us : List σ} {t : σ}

lemma bind (hx : Logs f x ts) (hk : ∀ a, x.result = .ok a → LogsLast f (k a) us t) :
    LogsLast f (x >>= k) (ts ++ us) t := by
  cases h : x.result with
  | error e =>
    rw [bind_of_error h]
    exact hx.1.trans (prefix_append ts us)
  | ok a =>
    rw [bind_of_ok h]
    have hka := hk a h
    unfold LogsLast at hka ⊢
    simp only [map_append, hx.2 a h]
    split
    next hr =>
        rw [hr] at hka
        rw [hka, append_assoc]
    next hr =>
        rw [hr] at hka
        exact (prefix_append_right_inj ts).mpr hka

lemma lift_bind {r : Except ε α} (hk : ∀ a, r = .ok a → LogsLast f (k a) us t) :
    LogsLast f (monadLift r >>= k) us t := bind (.lift r) hk

lemma bind_pure {g : α → β} (hx : LogsLast f x ts t) : LogsLast f (x >>= fun a => Pure.pure (g a)) ts t := by
  unfold LogsLast at hx ⊢
  cases h : x.result with
  | error e =>
    rw [bind_of_error h]
    rwa [h] at hx
  | ok a =>
    rw [bind_of_ok h]
    rw [h] at hx
    simpa using hx

lemma note (s : τ) : LogsLast f (Logged.note s : Logged τ ε Unit) [] (f s) := rfl

lemma throw (e : ε) : LogsLast f (Logged.throw e : Logged τ ε α) ts t := nil_prefix

lemma of_ok {a : α} (hx : LogsLast f x ts t) (h : x.result = .ok a) : x.log.map f = ts ++ [t] := by
  unfold LogsLast at hx
  rwa [h] at hx

lemma before (hx : LogsLast f x ts t) {ws : List τ} (hws : ws <+: x.log)
    (hlast : ∀ a, x.result = .ok a → ws ≠ x.log) : ws.map f <+: ts := by
  unfold LogsLast at hx
  cases h : x.result with
  | error e =>
    rw [h] at hx
    exact (hws.map f).trans hx
  | ok a =>
    rw [h] at hx
    have hpre := hws.map f
    rw [hx, prefix_concat_iff] at hpre
    refine hpre.resolve_left fun heq => hlast a h (hws.eq_of_length ?_)
    rw [← length_map f, ← length_map f, hx, heq]

end LogsLast

/-! ### What a log holds -/

/-- Whether it returns or not, the computation writes only what satisfies `A`. -/
structure Notes (A : τ → Prop) (x : Logged τ ε α) : Prop where
  all : ∀ t ∈ x.log, A t

namespace Notes

variable {A : τ → Prop} {x : Logged τ ε α} {f : α → Logged τ ε β} {r : Except ε α}

@[simp] lemma pure {a : α} : Notes A (Pure.pure a : Logged τ ε α) := ⟨nofun⟩

@[simp] lemma throw {e : ε} : Notes A (Logged.throw e : Logged τ ε α) := ⟨nofun⟩

@[simp] lemma lift : Notes A (monadLift r : Logged τ ε α) := ⟨nofun⟩

@[simp] lemma liftM : Notes A (liftM r : Logged τ ε α) := lift

@[simp] lemma note_iff {t : τ} : Notes A (Logged.note t : Logged τ ε Unit) ↔ A t := by
  constructor
  · exact fun h => h.all t (mem_singleton_self t)
  · exact fun h => ⟨fun s hs => mem_singleton.mp hs ▸ h⟩

@[simp] lemma bind_iff : Notes A (x >>= f) ↔ Notes A x ∧ ∀ a, x.result = .ok a → Notes A (f a) := by
  cases h : x.result with
  | error e =>
    rw [bind_of_error h]
    exact ⟨fun hx => ⟨⟨hx.all⟩, nofun⟩, fun hx => ⟨hx.1.all⟩⟩
  | ok a =>
    rw [bind_of_ok h]
    constructor
    · intro hx
      refine ⟨⟨fun t ht => hx.all t (mem_append_left _ ht)⟩, fun a' ha' => ?_⟩
      cases ha'
      exact ⟨fun t ht => hx.all t (mem_append_right _ ht)⟩
    · exact fun ⟨hx, hf⟩ =>
        ⟨fun t ht => (mem_append.mp ht).elim (hx.all t) ((hf a rfl).all t)⟩

lemma foldlM {step : β → γ → Logged τ ε β}
    (h : ∀ b, ∀ c ∈ l, Notes A (step b c)) (b : β) : Notes A (l.foldlM step b) := by
  induction l generalizing b with
  | nil => exact pure
  | cons c l ih =>
    rw [foldlM_cons, bind_iff]
    exact ⟨h b c mem_cons_self, fun b' _ => ih (fun b c hc => h b c (.tail _ hc)) b'⟩

lemma forM {step : γ → Logged τ ε PUnit} (h : ∀ c ∈ l, Notes A (step c)) : Notes A (l.forM step) := by
  induction l with
  | nil => exact pure
  | cons c l ih =>
    exact bind_iff.mpr ⟨h c mem_cons_self, fun _ _ => ih fun c hc => h c (.tail _ hc)⟩

lemma loop {body : β → Logged τ ε (β ⊕ α)} {stuck : ε} (h : ∀ b, Notes A (body b)) (turns : ℕ)
    (b : β) : Notes A (Logged.loop body stuck turns b) := by
  induction turns generalizing b with
  | zero => exact throw
  | succ turns ih =>
    refine bind_iff.mpr ⟨h b, fun r _ => ?_⟩
    cases r with
    | inl b' => exact ih b'
    | inr a => exact pure

end Notes

/-! ### Computations that pass -/

/-- The computation returns a value with `Q`, and its log satisfies `A`. -/
def Passes (A : τ → Prop) (x : Logged τ ε α) (Q : α → Prop) : Prop :=
  (∃ a, x.result = .ok a ∧ Q a) ∧ ∀ t ∈ x.log, A t

namespace Passes

variable {A : τ → Prop} {x : Logged τ ε α} {f : α → Logged τ ε β} {P P' : α → Prop} {Q : β → Prop}
    {r : Except ε α}

/-! What a computation needs to pass, by its form. -/

@[simp] lemma pure_iff {a : α} : Passes A (pure a : Logged τ ε α) P ↔ P a := by simp [Passes]

@[simp] lemma note_iff {t : τ} {P : Unit → Prop} : Passes A (Logged.note t : Logged τ ε Unit) P ↔ A t ∧ P () := by
  constructor
  · rintro ⟨⟨_, _, hP⟩, hlog⟩
    exact ⟨hlog t (mem_singleton_self t), hP⟩
  · rintro ⟨ht, hP⟩
    exact ⟨⟨(), rfl, hP⟩, fun s hs => mem_singleton.mp hs ▸ ht⟩

@[simp] lemma lift_iff : Passes A (monadLift r : Logged τ ε α) P ↔ ∃ a, r = .ok a ∧ P a := by
  simp only [Passes, monadLift_result]
  exact and_iff_left nofun

@[simp] lemma liftM_iff : Passes A (liftM r : Logged τ ε α) P ↔ ∃ a, r = .ok a ∧ P a := lift_iff

@[simp] lemma bind_iff : Passes A (x >>= f) Q ↔ Passes A x fun a => Passes A (f a) Q := by
  constructor
  · rintro ⟨⟨b, hb, hQ⟩, hlog⟩
    obtain ⟨a, ha, hfa⟩ := bind_result_ok.mp hb
    rw [bind_of_ok ha] at hlog
    exact ⟨⟨a, ha, ⟨b, hfa, hQ⟩, fun t ht => hlog t (mem_append_right _ ht)⟩,
      fun t ht => hlog t (mem_append_left _ ht)⟩
  · rintro ⟨⟨a, ha, hb, hlog'⟩, hlog⟩
    rw [bind_of_ok ha]
    exact ⟨hb, fun t ht => (mem_append.mp ht).elim (hlog t) (hlog' t)⟩

lemma conseq (hx : Passes A x P') (h : ∀ a, P' a → P a) : Passes A x P := by
  obtain ⟨⟨a, hr, ha⟩, hlog⟩ := hx
  exact ⟨⟨a, hr, h a ha⟩, hlog⟩

lemma bind (hx : Passes A x P) (hf : ∀ a, P a → Passes A (f a) Q) : Passes A (x >>= f) Q :=
  bind_iff.mpr (hx.conseq hf)

/-- A loop passes when every turn does, ends or brings a measure down, and the turns given exceed
the measure. -/
lemma loop {body : β → Logged τ ε (β ⊕ α)} {stuck : ε} {I : ℕ → β → Prop}
    (hturn : ∀ n b, I n b → Passes A (body b) fun r => match r with
      | .inl b' => ∃ m < n, I m b'
      | .inr a => P a) {turns n : ℕ} (h : I n b) (hn : n < turns) :
    Passes A (Logged.loop body stuck turns b) P := by
  induction turns generalizing n b with
  | zero => omega
  | succ turns ih =>
    rw [Logged.loop]
    apply (hturn n b h).bind
    intro r hr
    cases r with
    | inl b' =>
      obtain ⟨m, hm, hb'⟩ := hr
      exact ih hb' (by omega)
    | inr a => exact pure_iff.mpr hr

end Passes

end Logged

end AppleUtils
