import Mathlib.Tactic.Common

/-! # Reading in pieces

A reader fills a buffer piece by piece (`fill`): how long the next piece is depends on where it
starts.  What it reads is best said byte by byte: `gather view pos n` asks `view` for each of the `n`
positions from `pos` on.  A reader whose pieces agree with `view` reads what `gather` gives
(`fill_eq_gather`), and `gather` is compared with a list position by position
(`gather_eq_some_iff`). -/

namespace AppleUtils

variable {ε σ β : Type}

/-- The elements at `pos`, …, `pos + n - 1`, if there is one at each. -/
def gather (view : ℕ → Option β) : ℕ → ℕ → Option (List β)
  | _, 0 => some []
  | pos, n + 1 => do
    let b ← view pos
    let rest ← gather view (pos + 1) n
    return b :: rest

section Gather

variable {view : ℕ → Option β} {pos n m : ℕ} {l : List β}

lemma gather_eq_some_iff : gather view pos n = some l ↔ l.length = n ∧ ∀ i < n, view (pos + i) = l[i]? := by
  induction n generalizing pos l with
  | zero =>
    cases l with
    | nil => simp [gather]
    | cons b l => simp [gather]
  | succ n ih =>
    cases l with
    | nil => cases hb : view pos <;> cases hrest : gather view (pos + 1) n <;> simp [gather, hb, hrest]
    | cons b l =>
      have hstep : gather view pos (n + 1) = some (b :: l) ↔
          view pos = some b ∧ gather view (pos + 1) n = some l := by
        cases hb : view pos <;> cases hrest : gather view (pos + 1) n <;> simp [gather, hb, hrest]
      rw [hstep, ih, List.length_cons, Nat.add_right_cancel_iff]
      constructor
      · rintro ⟨hb, hlen, hrest⟩
        refine ⟨hlen, fun i hi => ?_⟩
        cases i with
        | zero => exact hb
        | succ i =>
          rw [List.getElem?_cons_succ, ← hrest i (by omega)]
          congr 1
          omega
      · rintro ⟨hlen, hall⟩
        refine ⟨hall 0 (by omega), hlen, fun i hi => ?_⟩
        rw [← List.getElem?_cons_succ (a := b), ← hall (i + 1) (by omega)]
        congr 1
        omega

lemma gather_add : gather view pos (n + m) = do
    let x ← gather view pos n
    let y ← gather view (pos + n) m
    return x ++ y := by
  induction n generalizing pos with
  | zero => cases h : gather view pos m <;> simp [gather, h]
  | succ n ih =>
    rw [Nat.add_right_comm, gather, ih, gather, Nat.add_right_comm, ← Nat.add_assoc]
    cases view pos <;> cases gather view (pos + 1) n <;> cases gather view (pos + n + 1) m <;> rfl

lemma gather_congr {view' : ℕ → Option β} {pos' : ℕ}
    (h : ∀ i < n, view (pos + i) = view' (pos' + i)) : gather view pos n = gather view' pos' n := by
  induction n generalizing pos pos' with
  | zero => rfl
  | succ n ih =>
    have hrest : gather view (pos + 1) n = gather view' (pos' + 1) n :=
      ih fun i hi => by
        have := h (i + 1) (by omega)
        rwa [Nat.add_assoc, Nat.add_comm 1 i, Nat.add_assoc pos' 1 i, Nat.add_comm 1 i]
    have hfirst : view pos = view' pos' := h 0 (by omega)
    rw [gather, gather, hrest, hfirst]

end Gather

/-- The loop of a reader: pieces until nothing is left to read. -/
def fill (piece : σ → ℕ → ℕ → Except ε (List β × σ)) (stuck : ε) :
    ℕ → σ → ℕ → ℕ → Except ε (List β × σ)
  | _, s, _, 0 => .ok ([], s)
  | 0, _, _, _ + 1 => .error stuck
  | turns + 1, s, pos, left + 1 => do
    let (b, s) ← piece s pos (left + 1)
    let (rest, s) ← fill piece stuck turns s (pos + b.length) (left + 1 - b.length)
    return (b ++ rest, s)

/-- The piece at `pos` is what `view` gives for `k` of the positions that are left; it keeps `I`, and
the next piece starts where `P` holds. -/
structure Pieces (piece : σ → ℕ → ℕ → Except ε (List β × σ)) (view : ℕ → Option β) (I : σ → Prop)
    (P : ℕ → Prop) (s : σ) (pos left k : ℕ) : Prop where
  nonempty : 0 < k
  le : k ≤ left
  eq : (piece s pos left).toOption.map Prod.fst = gather view pos k
  keeps : ∀ r, piece s pos left = .ok r → I r.2
  next : k < left → P (pos + k)

lemma fill_eq_gather {piece : σ → ℕ → ℕ → Except ε (List β × σ)} {stuck : ε} {view : ℕ → Option β}
    {I : σ → Prop} {P : ℕ → Prop} (h : ∀ s pos left, I s → 0 < left → P pos → ∃ k, Pieces piece view I P s pos left k)
    {turns left pos : ℕ} {s : σ} (hs : I s) (hpos : P pos) (hturns : left ≤ turns) :
    (fill piece stuck turns s pos left).toOption.map Prod.fst = gather view pos left := by
  induction turns generalizing s pos left with
  | zero =>
    obtain rfl : left = 0 := by omega
    rfl
  | succ turns ih =>
    cases left with
    | zero => rfl
    | succ left =>
      obtain ⟨k, hk, hle, heq, hkeeps, hnext⟩ := h s pos (left + 1) hs (Nat.succ_pos _) hpos
      rw [show left + 1 = k + (left + 1 - k) by omega, gather_add, ← heq,
        show k + (left + 1 - k) = left + 1 by omega, fill]
      cases hp : piece s pos (left + 1) with
      | error e => rfl
      | ok r =>
        obtain ⟨b, s'⟩ := r
        have hb : b.length = k := by
          rw [hp] at heq
          exact (gather_eq_some_iff.mp heq.symm).1
        have ih : (fill piece stuck turns s' (pos + k) (left + 1 - k)).toOption.map Prod.fst =
            gather view (pos + k) (left + 1 - k) := by
          by_cases hlast : k < left + 1
          · exact ih (hkeeps _ hp) (hnext hlast) (by omega)
          · rw [show left + 1 - k = 0 by omega, fill]
            rfl
        change ((fill piece stuck turns s' (pos + b.length) (left + 1 - b.length) >>= fun r =>
          pure (b ++ r.1, r.2)).toOption).map Prod.fst = _
        rw [hb]
        change _ = (gather view (pos + k) (left + 1 - k)).bind fun y => some (b ++ y)
        rw [← ih]
        cases fill piece stuck turns s' (pos + k) (left + 1 - k) <;> rfl

end AppleUtils
