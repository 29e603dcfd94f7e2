import AppleUtils.Lib.Checks

/-! # Readers of a prefix

A reader takes what it needs from the front of a list and returns the rest.  `Reads p h a` says that
`p` takes exactly `h`, whatever comes after it, and gives `a`.  A reader is `Local` if it never does
anything else: what it gives depends on what it takes only.  So values that were read from one list
can be read again from another that has the same pieces (`many_reads`). -/

namespace AppleUtils

variable {τ ε α β : Type}

abbrev Reader (τ ε α : Type) := List τ → Except ε (α × List τ)

namespace Reader

def ret (a : α) : Reader τ ε α := fun b => .ok (a, b)

def andThen (p : Reader τ ε α) (f : α → Reader τ ε β) : Reader τ ε β := fun b =>
  match p b with
  | .error e => .error e
  | .ok (a, rest) => f a rest

/-- Values up to the end of the list, with at most `fuel` of them. -/
def many (p : Reader τ ε α) (stuck : ε) : ℕ → List τ → Except ε (List α)
  | _, [] => .ok []
  | 0, _ :: _ => .error stuck
  | fuel + 1, x :: b => do
    let (a, rest) ← p (x :: b)
    let l ← many p stuck fuel rest
    return a :: l

def Reads (p : Reader τ ε α) (h : List τ) (a : α) : Prop := ∀ rest, p (h ++ rest) = .ok (a, rest)

def Local (p : Reader τ ε α) : Prop :=
  ∀ b a rest, p b = .ok (a, rest) → ∃ h, b = h ++ rest ∧ p.Reads h a

variable {p : Reader τ ε α} {f : α → Reader τ ε β} {h h' : List τ} {a : α} {b : β}
    {s rest : List τ} {stuck : ε} {fuel : ℕ} {l : List α}

lemma andThen_eq_ok {y : β} (h : p.andThen f s = .ok (y, rest)) :
    ∃ a mid, p s = .ok (a, mid) ∧ f a mid = .ok (y, rest) := by
  unfold andThen at h
  split at h
  · cases h
  · rename_i a mid hmid
    exact ⟨a, mid, hmid, h⟩

lemma Reads.ret : Reads (ret a : Reader τ ε α) [] a := fun _ => rfl

lemma Reads.andThen (hp : p.Reads h a) (hf : (f a).Reads h' b) : (p.andThen f).Reads (h ++ h') b := by
  intro rest
  unfold Reader.andThen
  rw [List.append_assoc, hp]
  exact hf rest

lemma Local.ret : Local (ret a : Reader τ ε α) := by
  intro b _ _ h
  cases h
  exact ⟨[], rfl, Reads.ret⟩

lemma Local.andThen (hp : p.Local) (hf : ∀ a, (f a).Local) : (p.andThen f).Local := by
  intro s y rest h
  obtain ⟨a, mid, hmid, hrest⟩ := andThen_eq_ok h
  obtain ⟨h₁, rfl, hr₁⟩ := hp _ _ _ hmid
  obtain ⟨h₂, rfl, hr₂⟩ := hf a _ _ _ hrest
  exact ⟨h₁ ++ h₂, (List.append_assoc _ _ _).symm, hr₁.andThen hr₂⟩

lemma Local.length_le (hp : p.Local) (h : p s = .ok (a, rest)) : rest.length ≤ s.length := by
  obtain ⟨h₁, rfl, _⟩ := hp _ _ _ h
  rw [List.length_append]
  omega

open Checks in
/-- The pieces that the values of a list were read from. -/
lemma many_ok (hp : p.Local)
    (h : many p stuck fuel s = .ok l) : ∃ hs : List (List τ), s = hs.flatten ∧ List.Forall₂ p.Reads hs l := by
  induction fuel generalizing s l with
  | zero =>
    cases s with
    | nil =>
      cases h
      exact ⟨[], rfl, .nil⟩
    | cons x s => cases h
  | succ fuel ih =>
    cases s with
    | nil =>
      cases h
      exact ⟨[], rfl, .nil⟩
    | cons x s =>
      obtain ⟨⟨a, rest⟩, hread, h⟩ := bind_eq_ok.mp h
      obtain ⟨l', hrest, h⟩ := bind_eq_ok.mp h
      cases h
      obtain ⟨h₁, heq, hr⟩ := hp _ _ _ hread
      obtain ⟨hs, rfl, hall⟩ := ih hrest
      exact ⟨h₁ :: hs, heq, .cons hr hall⟩

/-- Pieces that are read one by one are read one after the other. -/
lemma many_reads {hs : List (List τ)}
    (hall : List.Forall₂ p.Reads hs l) (hne : ∀ h ∈ hs, h ≠ []) (hfuel : hs.length ≤ fuel) :
    many p stuck fuel hs.flatten = .ok l := by
  induction hall generalizing fuel with
  | nil => cases fuel <;> rfl
  | @cons h a hs l hr hall ih =>
    obtain ⟨hh, hrest⟩ := List.forall_mem_cons.mp hne
    cases fuel with
    | zero => exact absurd hfuel (by simp)
    | succ fuel =>
      cases h with
      | nil => exact absurd rfl hh
      | cons x h =>
        have hread : p (x :: (h ++ hs.flatten)) = .ok (a, hs.flatten) := hr hs.flatten
        rw [List.flatten_cons]
        change (p (x :: (h ++ hs.flatten)) >>= _) = _
        rw [Checks.bind_ok hread]
        change (many p stuck fuel hs.flatten >>= fun l => pure (a :: l)) = _
        rw [Checks.bind_ok (ih hrest (by simpa using hfuel))]
        rfl

end Reader

end AppleUtils
