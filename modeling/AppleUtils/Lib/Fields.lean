import Mathlib.Tactic.Common

/-! # Several strings in one

A list of strings as one string: every element after a one, a zero after each string. -/

namespace AppleUtils.Fields

variable {α : Type} [Zero α] [One α]

def joinFields : List (List α) → List α
  | [] => []
  | field :: fields => field.flatMap (fun a => [1, a]) ++ 0 :: joinFields fields

variable [DecidableEq α]

def splitFields : List α → List (List α)
  | [] => []
  | [mark] => if mark = 0 then [[]] else []
  | mark :: a :: rest =>
    if mark = 0 then [] :: splitFields (a :: rest)
    else (splitFields rest).modifyHead (a :: ·)

omit [One α] in
lemma splitFields_zero (rest : List α) : splitFields (0 :: rest) = [] :: splitFields rest := by
  cases rest <;> simp [splitFields]

lemma splitFields_joinFields (h : (1 : α) ≠ 0) (fields : List (List α)) (rest : List α) :
    splitFields (joinFields fields ++ rest) = fields ++ splitFields rest := by
  induction fields with
  | nil => rfl
  | cons field fields ih =>
    rw [joinFields]
    induction field with
    | nil =>
      rw [List.flatMap_nil, List.nil_append, List.cons_append, splitFields_zero, ih]
      rfl
    | cons a field ihfield =>
      simp only [List.flatMap_cons, List.cons_append, List.nil_append, splitFields, h,
        if_false, ihfield, List.modifyHead_cons]

end AppleUtils.Fields
