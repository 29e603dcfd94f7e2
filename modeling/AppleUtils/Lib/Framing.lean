import Mathlib.Data.List.Basic
import Mathlib.Tactic.Common

/-! # Framing a stream

A framing reads one record off the front of a stream: it asks for more input, finds the front
malformed, or returns a record with its size.  What it says of a front does not change when more
input arrives.  `records` are the records it reads one after the other and `rest` is where it
stops; both can be taken in pieces (`records_append`, `rest_append`).

`pushes` feeds a stream in chunks to a reader that holds back what it could not use, and that
gives up the records of a chunk in which it meets a malformed front.  `pushes_iff` says when the
chunks do not matter. -/

namespace AppleUtils

open List

/-- What is found at the front of a stream. -/
inductive Next (ρ ε : Type) where
  | more
  | bad (e : ε)
  | got (r : ρ) (size : ℕ)
deriving DecidableEq

structure Framing (α ρ ε : Type) where
  next : List α → Next ρ ε
  nil : next [] = .more
  got_size {s : List α} {r : ρ} {n : ℕ} : next s = .got r n → 0 < n ∧ n ≤ s.length
  got_append {s : List α} {r : ρ} {n : ℕ} (t : List α) :
    next s = .got r n → next (s ++ t) = .got r n
  bad_append {s : List α} {e : ε} (t : List α) : next s = .bad e → next (s ++ t) = .bad e

namespace Framing

variable {α ρ ε : Type} (F : Framing α ρ ε) {s t : List α} {r : ρ} {n : ℕ} {e : ε}

/-- The framing reads no record off the front. -/
def Stops (s : List α) : Prop := ∀ r n, F.next s ≠ .got r n

/-- At most `turns` records off the front, and what is left. -/
def scan : ℕ → List α → List ρ × List α
  | 0, s => ([], s)
  | turns + 1, s =>
    match F.next s with
    | .got r n => (r :: (scan turns (s.drop n)).1, (scan turns (s.drop n)).2)
    | _ => ([], s)

/-- The complete records before the first malformed front. -/
def records (s : List α) : List ρ := (F.scan s.length s).1

/-- What is left after them. -/
def rest (s : List α) : List α := (F.scan s.length s).2

/-! ### Reading to the end -/

lemma induction {P : List α → Prop} (stop : ∀ s, F.Stops s → P s)
    (got : ∀ s r n, F.next s = .got r n → P (s.drop n) → P s) (s : List α) : P s := by
  induction hk : s.length using Nat.strongRecOn generalizing s with
  | ind k ih =>
    by_cases hs : F.Stops s
    · exact stop s hs
    · unfold Stops at hs
      push Not at hs
      obtain ⟨r, n, hgot⟩ := hs
      have hsize := F.got_size hgot
      refine got s r n hgot (ih _ ?_ (s.drop n) rfl)
      rw [length_drop]
      omega

variable {F}

lemma scan_stop (hs : F.Stops s) (turns : ℕ) : F.scan turns s = ([], s) := by
  cases turns with
  | zero => rfl
  | succ turns =>
    unfold scan
    split
    · rename_i r n hgot
      exact absurd hgot (hs r n)
    · rfl

/-- A turn for each symbol is enough. -/
lemma scan_enough {turns : ℕ} (h : s.length ≤ turns) : F.scan turns s = F.scan s.length s := by
  induction s using F.induction generalizing turns with
  | stop s hs => rw [scan_stop hs, scan_stop hs]
  | got s r n hgot ih =>
    have hsize := F.got_size hgot
    obtain ⟨k, rfl⟩ : ∃ k, turns = k + 1 := ⟨turns - 1, by omega⟩
    obtain ⟨m, hm⟩ : ∃ m, s.length = m + 1 := ⟨s.length - 1, by omega⟩
    have hdrop : (s.drop n).length = s.length - n := length_drop
    rw [hm]
    simp only [scan, hgot]
    have hk : F.scan k (s.drop n) = F.scan (s.drop n).length (s.drop n) := ih (by omega)
    have hm' : F.scan m (s.drop n) = F.scan (s.drop n).length (s.drop n) := ih (by omega)
    rw [hk, hm']

lemma records_stop (hs : F.Stops s) : F.records s = [] := by rw [records, scan_stop hs]

lemma rest_stop (hs : F.Stops s) : F.rest s = s := by rw [rest, scan_stop hs]

lemma scan_got (hgot : F.next s = .got r n) :
    F.scan s.length s = (r :: F.records (s.drop n), F.rest (s.drop n)) := by
  have hsize := F.got_size hgot
  obtain ⟨m, hm⟩ : ∃ m, s.length = m + 1 := ⟨s.length - 1, by omega⟩
  have hdrop : (s.drop n).length = s.length - n := length_drop
  rw [hm]
  simp only [scan, hgot, records, rest]
  rw [scan_enough (by omega)]

lemma records_got (hgot : F.next s = .got r n) : F.records s = r :: F.records (s.drop n) := by
  rw [records, scan_got hgot]

lemma rest_got (hgot : F.next s = .got r n) : F.rest s = F.rest (s.drop n) := by rw [rest, scan_got hgot]

lemma rest_stops (s : List α) : F.Stops (F.rest s) := by
  induction s using F.induction with
  | stop s hs => rwa [rest_stop hs]
  | got s r n hgot ih => rwa [rest_got hgot]

lemma Stops.of_more (h : F.next s = .more) : F.Stops s := by
  intro r n hgot
  rw [h] at hgot
  cases hgot

lemma Stops.of_bad (h : F.next s = .bad e) : F.Stops s := by
  intro r n hgot
  rw [h] at hgot
  cases hgot

lemma Stops.cases (hs : F.Stops s) : F.next s = .more ∨ ∃ e, F.next s = .bad e := by
  cases h : F.next s with
  | more => exact .inl rfl
  | bad e => exact .inr ⟨e, rfl⟩
  | got r n => exact absurd h (hs r n)

/-! ### Reading in pieces -/

lemma scan_append (s t : List α) : F.records (s ++ t) = F.records s ++ F.records (F.rest s ++ t) ∧
    F.rest (s ++ t) = F.rest (F.rest s ++ t) := by
  induction s using F.induction with
  | stop s hs =>
    rw [records_stop hs, rest_stop hs]
    exact ⟨rfl, rfl⟩
  | got s r n hgot ih =>
    have hsize := F.got_size hgot
    have happend := F.got_append t hgot
    have hdrop : (s ++ t).drop n = s.drop n ++ t := drop_append_of_le_length hsize.2
    rw [records_got happend, rest_got happend, records_got hgot, rest_got hgot, hdrop, ih.1, ih.2]
    exact ⟨rfl, rfl⟩

lemma records_append (s t : List α) :
    F.records (s ++ t) = F.records s ++ F.records (F.rest s ++ t) := (scan_append s t).1

lemma rest_append (s t : List α) : F.rest (s ++ t) = F.rest (F.rest s ++ t) := (scan_append s t).2

/-- Nothing is read past a malformed front. -/
lemma rest_append_bad (h : F.next (F.rest s) = .bad e) (t : List α) :
    F.records (s ++ t) = F.records s ∧ F.next (F.rest (s ++ t)) = .bad e := by
  have hbad := F.bad_append t h
  rw [records_append, rest_append, records_stop (.of_bad hbad), rest_stop (.of_bad hbad)]
  exact ⟨append_nil _, hbad⟩

/-! ### A reader fed in chunks -/

variable (F) in
/-- The records returned up to the first error, and the error.  The records of the chunk that
shows a malformed front are lost. -/
def pushes : List α → List (List α) → List ρ × Option ε
  | _, [] => ([], none)
  | held, chunk :: chunks =>
    match F.next (F.rest (held ++ chunk)) with
    | .bad e => ([], some e)
    | _ => (F.records (held ++ chunk) ++ (pushes (F.rest (held ++ chunk)) chunks).1,
        (pushes (F.rest (held ++ chunk)) chunks).2)

variable {held chunk : List α} {chunks : List (List α)}

lemma pushes_cons_bad (h : F.next (F.rest (held ++ chunk)) = .bad e) :
    F.pushes held (chunk :: chunks) = ([], some e) := by simp only [pushes, h]

lemma pushes_cons_more (h : F.next (F.rest (held ++ chunk)) = .more) : F.pushes held (chunk :: chunks) =
    (F.records (held ++ chunk) ++ (F.pushes (F.rest (held ++ chunk)) chunks).1,
      (F.pushes (F.rest (held ++ chunk)) chunks).2) := by simp only [pushes, h]

variable (F) in
/-- Some of the chunks hold every complete record of the stream and do not show the malformed
front yet. -/
def CutInTime (held : List α) (chunks : List (List α)) : Prop :=
  ∃ k ≤ chunks.length, F.records (held ++ (chunks.take k).flatten) = F.records (held ++ chunks.flatten) ∧
      F.next (F.rest (held ++ (chunks.take k).flatten)) = .more

/-- A chunk that shows a malformed front is in time only if nothing was to be returned. -/
lemma cutInTime_cons_bad (hheld : F.next held = .more) (h : F.next (F.rest (held ++ chunk)) = .bad e) :
    F.CutInTime held (chunk :: chunks) ↔ F.records (held ++ (chunk :: chunks).flatten) = [] := by
  unfold CutInTime
  constructor
  · rintro ⟨k, -, hrecords, hmore⟩
    cases k with
    | zero =>
      rw [← hrecords, take_zero, flatten_nil, append_nil, records_stop (.of_more hheld)]
    | succ k =>
      rw [take_succ_cons, flatten_cons, ← append_assoc, (rest_append_bad h _).2] at hmore
      cases hmore
  · intro hnil
    refine ⟨0, Nat.zero_le _, ?_, ?_⟩
    · rw [hnil, take_zero, flatten_nil, append_nil, records_stop (.of_more hheld)]
    · rw [take_zero, flatten_nil, append_nil, rest_stop (.of_more hheld), hheld]

/-- After a chunk without a malformed front the question is about the remaining ones. -/
lemma cutInTime_cons_more (hheld : F.next held = .more) (h : F.next (F.rest (held ++ chunk)) = .more) :
    F.CutInTime held (chunk :: chunks) ↔ F.CutInTime (F.rest (held ++ chunk)) chunks := by
  unfold CutInTime
  simp only [flatten_cons, ← append_assoc]
  rw [records_append (held ++ chunk) chunks.flatten]
  constructor
  · rintro ⟨k, hk, hrecords, hmore⟩
    cases k with
    | zero =>
      rw [take_zero, flatten_nil, append_nil, records_stop (.of_more hheld)] at hrecords
      refine ⟨0, Nat.zero_le _, ?_, ?_⟩
      · rw [take_zero, flatten_nil, append_nil, records_stop (.of_more h)]
        exact (append_eq_nil_iff.mp hrecords.symm).2.symm
      · rw [take_zero, flatten_nil, append_nil, rest_stop (.of_more h), h]
    | succ k =>
      rw [take_succ_cons, flatten_cons, ← append_assoc] at hrecords hmore
      rw [records_append] at hrecords
      rw [rest_append] at hmore
      exact ⟨k, Nat.le_of_succ_le_succ hk, append_cancel_left hrecords, hmore⟩
  · rintro ⟨k, hk, hrecords, hmore⟩
    refine ⟨k + 1, Nat.succ_le_succ hk, ?_, ?_⟩
    · rw [take_succ_cons, flatten_cons, ← append_assoc, records_append, hrecords]
    · rw [take_succ_cons, flatten_cons, ← append_assoc, rest_append, hmore]

/-- The chunks give all the records of the stream exactly if they are cut in time. -/
lemma pushes_iff (hheld : F.next held = .more) :
    (F.pushes held chunks).1 = F.records (held ++ chunks.flatten) ↔ F.CutInTime held chunks := by
  induction chunks generalizing held with
  | nil =>
    have hnil : F.records (held ++ ([] : List (List α)).flatten) = [] := by
      rw [flatten_nil, append_nil, records_stop (.of_more hheld)]
    refine iff_of_true hnil.symm ⟨0, Nat.le_refl _, rfl, ?_⟩
    rw [take_nil, flatten_nil, append_nil, rest_stop (.of_more hheld), hheld]
  | cons chunk chunks ih =>
    rcases (rest_stops (F := F) (held ++ chunk)).cases with hmore | ⟨e, hbad⟩
    · rw [cutInTime_cons_more hheld hmore, ← ih hmore, pushes_cons_more hmore,
        flatten_cons, ← append_assoc, records_append (held ++ chunk)]
      exact append_right_inj _
    · rw [cutInTime_cons_bad hheld hbad, pushes_cons_bad hbad]
      exact eq_comm

/-- A stream without a malformed front is read whole, whatever the chunks. -/
lemma pushes_of_more (hend : F.next (F.rest (held ++ chunks.flatten)) = .more)
    (hheld : F.next held = .more) : F.pushes held chunks = (F.records (held ++ chunks.flatten), none) := by
  induction chunks generalizing held with
  | nil =>
    rw [flatten_nil, append_nil, records_stop (.of_more hheld)]
    rfl
  | cons chunk chunks ih =>
    rw [flatten_cons, ← append_assoc] at hend ⊢
    rcases (rest_stops (F := F) (held ++ chunk)).cases with hmore | ⟨e, hbad⟩
    · rw [rest_append] at hend
      rw [pushes_cons_more hmore, ih hend hmore, records_append (held ++ chunk)]
    · rw [(rest_append_bad hbad _).2] at hend
      cases hend

end Framing

end AppleUtils
