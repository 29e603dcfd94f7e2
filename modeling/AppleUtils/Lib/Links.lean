import Mathlib.Data.List.Nodup
import Mathlib.Data.List.Dedup
import Mathlib.Data.Finset.Card

/-! # Linked lists in an array

Each slot of an array names the next one, and one value names none.  Following the slots is
deterministic, so a list that ends meets no slot twice (`IsChain.nodup`); and a list without repeats
that meets only slots of a set meets all of them as soon as it is long enough (`covers_iff`). -/

namespace AppleUtils.Links

open List

variable {α : Type*} {next : α → α} {ends cursor : α} {chain chain' : List α}

/-- The slots from `cursor` on, up to the value that names none. -/
def IsChain (next : α → α) (ends : α) : α → List α → Prop
  | cursor, [] => cursor = ends
  | cursor, slot :: rest => cursor = slot ∧ slot ≠ ends ∧ IsChain next ends (next slot) rest

lemma IsChain.unique (h : IsChain next ends cursor chain) (h' : IsChain next ends cursor chain') :
    chain = chain' := by
  induction chain generalizing cursor chain' with
  | nil =>
    cases chain' with
    | nil => rfl
    | cons slot rest => exact absurd (h'.1.symm.trans h) h'.2.1
  | cons slot rest ih =>
    obtain ⟨rfl, hne, h⟩ := h
    cases chain' with
    | nil => exact absurd h' hne
    | cons slot' rest' =>
      obtain ⟨rfl, -, h'⟩ := h'
      rw [ih h h']

/-- What follows a slot of a chain is a chain. -/
lemma IsChain.suffix {before after : List α} {slot : α}
    (h : IsChain next ends cursor (before ++ slot :: after)) : IsChain next ends slot (slot :: after) := by
  induction before generalizing cursor with
  | nil =>
    obtain ⟨rfl, h⟩ := h
    exact ⟨rfl, h⟩
  | cons first before ih => exact ih h.2.2

/-- A slot met twice would start two chains of different lengths. -/
lemma IsChain.nodup (h : IsChain next ends cursor chain) : chain.Nodup := by
  induction chain generalizing cursor with
  | nil => exact nodup_nil
  | cons slot rest ih =>
    obtain ⟨rfl, hne, h⟩ := h
    refine nodup_cons.mpr ⟨fun hmem => ?_, ih h⟩
    obtain ⟨before, after, rfl⟩ := append_of_mem hmem
    have hagain : IsChain next ends cursor (cursor :: (before ++ cursor :: after)) := ⟨rfl, hne, h⟩
    have hsame := h.suffix.unique hagain
    have := congrArg List.length hsame
    simp at this
    omega

/-- Slots of `0 .. n` that are not live, met once each: there are `n` less the live ones exactly if
all are met. -/
lemma covers_iff {n : ℕ} {live met : List ℕ} (hlive : live.Nodup) (hmet : met.Nodup)
    (hlt : ∀ s ∈ live, s < n) (hmet_lt : ∀ s ∈ met, s < n ∧ s ∉ live) :
    met.length = n - live.length ↔ ∀ s, s < n → s ∉ live → s ∈ met := by
  have hcard : (Finset.range n \ live.toFinset).card = n - live.length := by
    rw [Finset.card_sdiff_of_subset, Finset.card_range, toFinset_card_of_nodup hlive]
    intro s hs
    exact Finset.mem_range.mpr (hlt s (mem_toFinset.mp hs))
  have hsub : met.toFinset ⊆ Finset.range n \ live.toFinset := by
    intro s hs
    obtain ⟨hs, hs'⟩ := hmet_lt s (mem_toFinset.mp hs)
    simp [hs, hs']
  rw [← hcard, ← toFinset_card_of_nodup hmet]
  constructor
  · intro heq s hs hs'
    have hset := Finset.eq_of_subset_of_card_le hsub heq.ge
    rw [← mem_toFinset, hset]
    simp [hs, hs']
  · intro hall
    congr 1
    refine hsub.antisymm fun s hs => ?_
    simp only [Finset.mem_sdiff, Finset.mem_range, mem_toFinset] at hs
    exact mem_toFinset.mpr (hall s hs.1 hs.2)

end AppleUtils.Links
