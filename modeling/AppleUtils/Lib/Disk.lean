import Mathlib.Logic.Function.Basic
import Mathlib.Data.List.Nodup

/-! # Disks and lists of writes

A disk is a function from addresses to blocks.  Writes are applied one after the other; a block holds
what was last written to it, and a block no write names is as it was. -/

namespace AppleUtils

open List Function

/-- A disk with blocks of a type. -/
abbrev Disk (β : Type) := ℕ → β

namespace Disk

variable {β : Type} {d d' : Disk β} {ws ws' : List (ℕ × β)} {p : ℕ} {b : β}

def apply (d : Disk β) (ws : List (ℕ × β)) : Disk β :=
  ws.foldl (fun d w => update d w.1 w.2) d

lemma apply_cons (d : Disk β) (w : ℕ × β) (ws : List (ℕ × β)) :
    d.apply (w :: ws) = Disk.apply (update d w.1 w.2) ws := rfl

lemma apply_append (d : Disk β) (ws ws' : List (ℕ × β)) :
    d.apply (ws ++ ws') = (d.apply ws).apply ws' := foldl_append

lemma map_apply {γ : Type} (f : β → γ) (d : Disk β) (ws : List (ℕ × β)) (p : ℕ) :
    f (d.apply ws p) = Disk.apply (fun q => f (d q)) (ws.map (Prod.map id f)) p := by
  induction ws generalizing d with
  | nil => rfl
  | cons w ws ih =>
    rw [apply_cons, ih, map_cons, apply_cons]
    congr 2
    funext q
    exact apply_update (fun _ => f) d w.1 w.2 q

lemma apply_of_not_mem (h : p ∉ ws.map Prod.fst) : d.apply ws p = d p := by
  induction ws generalizing d with
  | nil => rfl
  | cons w ws ih =>
    rw [map_cons, mem_cons, not_or] at h
    rw [apply_cons, ih h.2, update_of_ne h.1]

lemma apply_eq_or (d : Disk β) (ws : List (ℕ × β)) (p : ℕ) :
    d.apply ws p = d p ∧ p ∉ ws.map Prod.fst ∨ (p, d.apply ws p) ∈ ws := by
  induction ws generalizing d with
  | nil => exact .inl ⟨rfl, not_mem_nil⟩
  | cons w ws ih =>
    rw [apply_cons]
    obtain ⟨hsame, hmem⟩ | hmem := ih (update d w.1 w.2)
    · by_cases hp : p = w.1
      · subst hp
        rw [hsame, update_self]
        exact .inr mem_cons_self
      · rw [update_of_ne hp] at hsame
        exact .inl ⟨hsame, by simpa [hp] using hmem⟩
    · exact .inr (mem_cons_of_mem _ hmem)

lemma apply_of_mem (h : (ws.map Prod.fst).Nodup) (hmem : (p, b) ∈ ws) : d.apply ws p = b := by
  induction ws generalizing d with
  | nil => exact absurd hmem not_mem_nil
  | cons w ws ih =>
    rw [map_cons, nodup_cons] at h
    cases hmem with
    | head => rw [apply_cons, apply_of_not_mem h.1, update_self]
    | tail _ hmem => exact ih h.2 hmem

end Disk

end AppleUtils
