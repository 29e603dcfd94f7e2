import Mathlib.Data.List.Basic
import Mathlib.Logic.Relation
import Mathlib.Tactic.Common

/-! # Programs that race through files

Programs that look at files and publish new ones without overwriting, any number of them on one
store, in any interleaving of their single steps.  A program that is stopped is one that takes no
further step.

A file once published never changes, so stores only grow.  `Safe inv post p s` says that `p`,
started in a store that has grown from `s`, keeps `inv` with every step whatever the others do
meanwhile, and ends with a result that meets `post`.  `Safe.run` is what that means for a program
on its own, `Sound.steps` what it means for a whole system. -/

namespace AppleUtils.Racing

variable {ι β ε α γ : Type} {path : ι}

/-! ### Stores -/

abbrev Store (ι β : Type) := ι → Option β

namespace Store

variable {s s' s'' : Store ι β}

/-- Everything published in the first store is in the second. -/
def Grows (s s' : Store ι β) : Prop := ∀ path bytes, s path = some bytes → s' path = some bytes

lemma Grows.refl (s : Store ι β) : Grows s s := fun _ _ h => h

lemma Grows.trans (h : Grows s s') (h' : Grows s' s'') : Grows s s'' :=
  fun path bytes hs => h' path bytes (h path bytes hs)

/-- The file is created unless there is one of that name. -/
def publish [DecidableEq ι] (s : Store ι β) (path : ι) (bytes : β) : Store ι β :=
  if (s path).isSome then s else fun p => if p = path then some bytes else s p

variable [DecidableEq ι]

lemma publish_of_some {old : β} (h : s path = some old) (bytes : β) : s.publish path bytes = s := by
  simp [publish, h]

lemma publish_self (h : s path = none) (bytes : β) : s.publish path bytes path = some bytes := by
  simp [publish, h]

lemma publish_of_ne {path other : ι} (hne : other ≠ path) (bytes : β) : s.publish path bytes other = s other := by
  unfold publish
  split
  · rfl
  · simp [hne]

lemma grows_publish (s : Store ι β) (path : ι) (bytes : β) : Grows s (s.publish path bytes) := by
  intro p old hp
  cases hs : s path with
  | some b => rwa [publish_of_some hs]
  | none =>
    have hne : p ≠ path := by
      rintro rfl
      rw [hs] at hp
      cases hp
    rwa [publish_of_ne hne]

end Store

/-! ### Programs -/

/-- A program by its next access to the store. -/
inductive Prog (ι β ε α : Type) where
  | done (r : Except ε α)
  | stat (path : ι) (next : Bool → Prog ι β ε α)
  | read (path : ι) (next : Option β → Prog ι β ε α)
  | publish (path : ι) (bytes : β) (next : Bool → Prog ι β ε α)

namespace Prog

protected def bind (f : α → Prog ι β ε γ) : Prog ι β ε α → Prog ι β ε γ
  | .done (.ok a) => f a
  | .done (.error e) => .done (.error e)
  | .stat path next => .stat path fun b => (next b).bind f
  | .read path next => .read path fun b => (next b).bind f
  | .publish path bytes next => .publish path bytes fun b => (next b).bind f

instance : Monad (Prog ι β ε) where
  pure a := .done (.ok a)
  bind p f := p.bind f

def throw (e : ε) : Prog ι β ε α := .done (.error e)

def lift (r : Except ε α) : Prog ι β ε α := .done r

def fileExists (path : ι) : Prog ι β ε Bool := .stat path pure

def readFile (path : ι) : Prog ι β ε (Option β) := .read path pure

/-- Whether the file was created. -/
def publishNew (path : ι) (bytes : β) : Prog ι β ε Bool := .publish path bytes pure

variable [DecidableEq ι]

/-- One access to the store. -/
def step (s : Store ι β) : Prog ι β ε α → Option (Prog ι β ε α × Store ι β)
  | .done _ => none
  | .stat path next => some (next (s path).isSome, s)
  | .read path next => some (next (s path), s)
  | .publish path bytes next => some (next (s path).isNone, s.publish path bytes)

/-- The program on its own. -/
def run : Prog ι β ε α → Store ι β → Except ε α × Store ι β
  | .done r, s => (r, s)
  | .stat path next, s => (next (s path).isSome).run s
  | .read path next, s => (next (s path)).run s
  | .publish path bytes next, s => (next (s path).isNone).run (s.publish path bytes)

end Prog

/-! ### Safety -/

section Safe

variable [DecidableEq ι] (inv : Store ι β → Prop) {f : α → Prog ι β ε γ} {bytes : β}

/-- The result stays right when the store grows. -/
def Stable (post : Except ε α → Store ι β → Prop) : Prop :=
  ∀ r s s', s.Grows s' → inv s' → post r s → post r s'

/-- The program keeps the invariant and ends as it should, whatever the others publish. -/
def Safe (post : Except ε α → Store ι β → Prop) : Prog ι β ε α → Store ι β → Prop
  | .done r, s => post r s
  | .stat path next, s => ∀ s', s.Grows s' → inv s' → Safe post (next (s' path).isSome) s'
  | .read path next, s => ∀ s', s.Grows s' → inv s' → Safe post (next (s' path)) s'
  | .publish path bytes next, s => ∀ s', s.Grows s' → inv s' →
      inv (s'.publish path bytes) ∧
        Safe post (next (s' path).isNone) (s'.publish path bytes)

variable {inv} {post post' : Except ε α → Store ι β → Prop} {p : Prog ι β ε α} {s s' : Store ι β}

lemma Safe.grow (h : Safe inv post p s) (hpost : Stable inv post) (hs : s.Grows s')
    (hi : inv s') : Safe inv post p s' := by
  cases p with
  | done r => exact hpost r s s' hs hi h
  | stat path next => exact fun s'' hg => h s'' (hs.trans hg)
  | read path next => exact fun s'' hg => h s'' (hs.trans hg)
  | publish path bytes next => exact fun s'' hg => h s'' (hs.trans hg)

lemma Safe.conseq (h : Safe inv post p s) (hi : inv s)
    (hpost : ∀ r s', s.Grows s' → inv s' → post r s' → post' r s') : Safe inv post' p s := by
  induction p generalizing s with
  | done r => exact hpost r s (.refl s) hi h
  | stat path next ih =>
    intro s' hg hi'
    exact ih _ (h s' hg hi') hi' fun r s'' hg' => hpost r s'' (hg.trans hg')
  | read path next ih =>
    intro s' hg hi'
    exact ih _ (h s' hg hi') hi' fun r s'' hg' => hpost r s'' (hg.trans hg')
  | publish path bytes next ih =>
    intro s' hg hi'
    obtain ⟨hi'', hsafe⟩ := h s' hg hi'
    refine ⟨hi'', ih _ hsafe hi'' ?_⟩
    exact fun r s'' hg' => hpost r s'' ((hg.trans (s'.grows_publish path bytes)).trans hg')

/-- What the first program ends with decides how the second goes on. -/
lemma Safe.bind {post' : Except ε γ → Store ι β → Prop} (h : Safe inv post p s) (hi : inv s)
    (hok : ∀ a s', s.Grows s' → inv s' → post (.ok a) s' → Safe inv post' (f a) s')
    (herror : ∀ e s', s.Grows s' → inv s' → post (.error e) s' → post' (.error e) s') :
    Safe inv post' (p >>= f) s := by
  induction p generalizing s with
  | done r =>
    cases r with
    | ok a => exact hok a s (.refl s) hi h
    | error e => exact herror e s (.refl s) hi h
  | stat path next ih =>
    intro s' hg hi'
    exact ih _ (h s' hg hi') hi' (fun a s'' hg' => hok a s'' (hg.trans hg'))
      (fun e s'' hg' => herror e s'' (hg.trans hg'))
  | read path next ih =>
    intro s' hg hi'
    exact ih _ (h s' hg hi') hi' (fun a s'' hg' => hok a s'' (hg.trans hg'))
      (fun e s'' hg' => herror e s'' (hg.trans hg'))
  | publish path bytes next ih =>
    intro s' hg hi'
    obtain ⟨hi'', hsafe⟩ := h s' hg hi'
    have hg' := hg.trans (s'.grows_publish path bytes)
    exact ⟨hi'', ih _ hsafe hi'' (fun a s'' hg'' => hok a s'' (hg'.trans hg''))
      (fun e s'' hg'' => herror e s'' (hg'.trans hg''))⟩

/-- A program that can only end with one value. -/
lemma Safe.bind_value {post' : Except ε γ → Store ι β → Prop} {a : α}
    (h : Safe inv (fun r _ => r = .ok a) p s) (hi : inv s)
    (hf : ∀ s', s.Grows s' → inv s' → Safe inv post' (f a) s') : Safe inv post' (p >>= f) s := by
  refine h.bind hi ?_ ?_
  · intro b s' hg hi' hb
    cases hb
    exact hf s' hg hi'
  · intro e s' _ _ he
    cases he

lemma Safe.bind_ok {post' : Except ε γ → Store ι β → Prop}
    {Q : α → Store ι β → Prop} (h : Safe inv (fun r s' => ∃ a, r = .ok a ∧ Q a s') p s) (hi : inv s)
    (hf : ∀ a s', s.Grows s' → inv s' → Q a s' → Safe inv post' (f a) s') : Safe inv post' (p >>= f) s := by
  refine h.bind hi ?_ ?_
  · rintro a s' hg hi' ⟨_, ha, hQ⟩
    cases ha
    exact hf a s' hg hi' hQ
  · rintro e s' _ _ ⟨_, he, _⟩
    cases he

lemma Safe.readFile (h : s path = some bytes) :
    Safe inv (fun r _ => r = .ok (some bytes)) (Prog.readFile path : Prog ι β ε (Option β)) s := by
  intro s' hg _
  rw [hg path bytes h]
  rfl

lemma Safe.fileExists (path : ι) : Safe inv (fun r s' => ∃ b, r = .ok b ∧ (b = true → (s' path).isSome))
    (Prog.fileExists path : Prog ι β ε Bool) s := by
  intro s' _ _
  exact ⟨(s' path).isSome, rfl, id⟩

lemma Safe.fileExists_of (h : (s path).isSome) :
    Safe inv (fun r _ => r = .ok true) (Prog.fileExists path : Prog ι β ε Bool) s := by
  intro s' hg _
  obtain ⟨bytes, hbytes⟩ := Option.isSome_iff_exists.mp h
  rw [hg path bytes hbytes]
  rfl

/-- After publishing the file is there; if it was created, with these bytes. -/
lemma Safe.publishNew (hinv : ∀ s', s.Grows s' → inv s' → inv (s'.publish path bytes)) :
    Safe inv (fun r s' => ∃ b, r = .ok b ∧ (b = true → s' path = some bytes) ∧ (s' path).isSome)
      (Prog.publishNew path bytes : Prog ι β ε Bool) s := by
  intro s' hg hi
  refine ⟨hinv s' hg hi, (s' path).isNone, rfl, ?_, ?_⟩
  · intro hnone
    exact Store.publish_self (Option.isNone_iff_eq_none.mp hnone) bytes
  · cases hs : s' path with
    | none => rw [Store.publish_self hs]; rfl
    | some old => rw [Store.publish_of_some hs, hs]; rfl

lemma Safe.run (h : Safe inv post p s) (hi : inv s) : inv (p.run s).2 ∧ post (p.run s).1 (p.run s).2 := by
  induction p generalizing s with
  | done r => exact ⟨hi, h⟩
  | stat path next ih => exact ih _ (h s (.refl s) hi) hi
  | read path next ih => exact ih _ (h s (.refl s) hi) hi
  | publish path bytes next ih =>
    obtain ⟨hi', hsafe⟩ := h s (.refl s) hi
    exact ih _ hsafe hi'

lemma Safe.step {p' : Prog ι β ε α} (h : Safe inv post p s) (hi : inv s)
    (hstep : p.step s = some (p', s')) : inv s' ∧ s.Grows s' ∧ Safe inv post p' s' := by
  cases p with
  | done r => cases hstep
  | stat path next =>
    cases hstep
    exact ⟨hi, .refl s, h s (.refl s) hi⟩
  | read path next =>
    cases hstep
    exact ⟨hi, .refl s, h s (.refl s) hi⟩
  | publish path bytes next =>
    cases hstep
    obtain ⟨hi', hsafe⟩ := h s (.refl s) hi
    exact ⟨hi', s.grows_publish path bytes, hsafe⟩

end Safe

/-! ### Systems -/

/-- A store and the programs at work on it. -/
structure System (ι β ε α : Type) where
  store : Store ι β
  calls : List (Prog ι β ε α)

namespace System

variable [DecidableEq ι]

/-- One call takes one step, or a new one starts. -/
inductive Step (starts : Prog ι β ε α → Prop) : System ι β ε α → System ι β ε α → Prop
  | act {σ : System ι β ε α} (i : ℕ) {p p' : Prog ι β ε α} {s' : Store ι β}
      (hp : σ.calls[i]? = some p) (hstep : p.step σ.store = some (p', s')) :
      Step starts σ ⟨s', σ.calls.set i p'⟩
  | start {σ : System ι β ε α} (p : Prog ι β ε α) (hp : starts p) :
      Step starts σ ⟨σ.store, σ.calls ++ [p]⟩

def Steps (starts : Prog ι β ε α → Prop) : System ι β ε α → System ι β ε α → Prop :=
  Relation.ReflTransGen (Step starts)

lemma step_at {starts : Prog ι β ε α → Prop} {p p' : Prog ι β ε α} {s s' : Store ι β}
    {before after : List (Prog ι β ε α)} (h : p.step s = some (p', s')) :
    Step starts ⟨s, before ++ p :: after⟩ ⟨s', before ++ p' :: after⟩ := by
  have hact : Step starts ⟨s, before ++ p :: after⟩ ⟨s', (before ++ p :: after).set before.length p'⟩ :=
    .act before.length (by simp) h
  simpa using hact

/-- A call runs to its end while the others wait. -/
lemma steps_run {starts : Prog ι β ε α → Prop} (p : Prog ι β ε α) (s : Store ι β)
    (before after : List (Prog ι β ε α)) :
    Steps starts ⟨s, before ++ p :: after⟩ ⟨(p.run s).2, before ++ .done (p.run s).1 :: after⟩ := by
  induction p generalizing s with
  | done r => exact Relation.ReflTransGen.refl
  | stat path next ih => exact (ih _ s).head (step_at rfl)
  | read path next ih => exact (ih _ s).head (step_at rfl)
  | publish path bytes next ih => exact (ih _ _).head (step_at rfl)

end System

variable [DecidableEq ι] {inv : Store ι β → Prop} {post : ℕ → Except ε α → Store ι β → Prop}
    {starts : Prog ι β ε α → Prop} {σ σ' : System ι β ε α} {n : ℕ}

/-- The invariant holds and every call is safe. -/
structure Sound (inv : Store ι β → Prop) (post : ℕ → Except ε α → Store ι β → Prop) (n : ℕ)
    (σ : System ι β ε α) : Prop where
  holds : inv σ.store
  length : n ≤ σ.calls.length
  safe : ∀ i p, σ.calls[i]? = some p → Safe inv (post i) p σ.store

lemma Sound.step (h : Sound inv post n σ) (hpost : ∀ i, Stable inv (post i))
    (hstarts : ∀ p, starts p → ∀ i, n ≤ i → ∀ s, inv s → Safe inv (post i) p s)
    (hstep : System.Step starts σ σ') : Sound inv post n σ' ∧ σ.store.Grows σ'.store := by
  cases hstep with
  | @act i p p' s' hp hstep =>
    obtain ⟨hi', hg, hsafe⟩ := (h.safe i p hp).step h.holds hstep
    refine ⟨⟨hi', ?_, ?_⟩, hg⟩
    · rw [List.length_set]
      exact h.length
    · intro j q hq
      rw [List.getElem?_set] at hq
      split at hq
      · rename_i hij
        split at hq
        · cases hq
          exact hij ▸ hsafe
        · cases hq
      · exact (h.safe j q hq).grow (hpost j) hg hi'
  | start p hp =>
    refine ⟨⟨h.holds, ?_, ?_⟩, .refl _⟩
    · rw [List.length_append]
      exact Nat.le_add_right_of_le h.length
    · intro j q hq
      rw [List.getElem?_append] at hq
      split at hq
      · exact h.safe j q hq
      · rename_i hj
        have hmem := List.mem_of_getElem? hq
        rw [List.mem_singleton] at hmem
        subst hmem
        exact hstarts q hp j (Nat.le_trans h.length (Nat.le_of_not_lt hj)) _ h.holds

/-- Along any interleaving of any number of calls. -/
lemma Sound.steps (h : Sound inv post n σ) (hpost : ∀ i, Stable inv (post i))
    (hstarts : ∀ p, starts p → ∀ i, n ≤ i → ∀ s, inv s → Safe inv (post i) p s)
    (hsteps : System.Steps starts σ σ') : Sound inv post n σ' ∧ σ.store.Grows σ'.store := by
  induction hsteps with
  | refl => exact ⟨h, .refl _⟩
  | tail _ hstep ih =>
    obtain ⟨hnext, hg⟩ := ih.1.step hpost hstarts hstep
    exact ⟨hnext, ih.2.trans hg⟩

end AppleUtils.Racing
