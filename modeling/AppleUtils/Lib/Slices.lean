import AppleUtils.Lib.Bytes
import Mathlib.Tactic.Ring
import Mathlib.Tactic.NormNum

/-! # Slices of byte strings and little-endian numbers

`slice b i n` is the part of `b` of length `n` at offset `i`, `splice b i x` is `b` with `x` copied
over it at offset `i`.  A slice of a splice is read off by position (`slice_splice`,
`slice_splice_left`, `slice_splice_right`, `slice_splice_inside`).

A number is stored in `n` little-endian bytes (`leBytes`), read at an offset by `leAt` and written
by `putLe`; what is written is what is read, modulo `256 ^ n`, and a write elsewhere does not
matter (`leAt_putLe`, `leAt_putLe_of_disjoint`). -/

namespace AppleUtils

open List List

namespace Bytes

/-- `n` zero bytes. -/
def zeros (n : ℕ) : Bytes := replicate n 0

def slice (b : Bytes) (i n : ℕ) : Bytes := (b.drop i).take n

def splice (b : Bytes) (i : ℕ) (x : Bytes) : Bytes := b.take i ++ (x ++ b.drop (i + x.length))

variable {b x y : Bytes} {i j n m v : ℕ}

@[simp] lemma length_zeros (n : ℕ) : (zeros n).length = n := length_replicate

lemma getElem?_slice (b : Bytes) (i n k : ℕ) : (b.slice i n)[k]? = if k < n then b[i + k]? else none := by
  rw [slice, getElem?_take]
  split
  · rw [getElem?_drop]
  · rfl

lemma getElem?_splice (h : i ≤ b.length) (k : ℕ) : (b.splice i x)[k]? =
    if k < i then b[k]? else if k < i + x.length then x[k - i]? else b[k]? := by
  have htake : (b.take i).length = i := by simp [h]
  unfold splice
  by_cases h1 : k < i
  · rw [getElem?_append_left (by omega), getElem?_take, if_pos h1, if_pos h1]
  · rw [getElem?_append_right (by omega), htake, if_neg h1]
    by_cases h2 : k < i + x.length
    · rw [getElem?_append_left (by omega), if_pos h2]
    · rw [getElem?_append_right (by omega), getElem?_drop, if_neg h2]
      congr 1
      omega

lemma length_slice (h : i + n ≤ b.length) : (b.slice i n).length = n := by
  simp only [slice, length_take, length_drop]
  omega

lemma length_slice_le (b : Bytes) (i n : ℕ) : (b.slice i n).length ≤ n := by
  simp only [slice, length_take]
  omega

lemma length_splice (h : i + x.length ≤ b.length) : (b.splice i x).length = b.length := by
  simp only [splice, length_append, length_take, length_drop]
  omega

@[simp] lemma slice_zero_length (b : Bytes) : b.slice 0 b.length = b := by simp [slice]

/-- The shorter of two slices at one offset is the front of the longer. -/
lemma slice_isPrefix (b : Bytes) (i : ℕ) (h : n ≤ m) : b.slice i n <+: b.slice i m :=
  take_isPrefix_take.mpr (.inl h)

lemma slice_slice (h : j + m ≤ n) : (b.slice i n).slice j m = b.slice (i + j) m := by
  apply ext_getElem?
  intro k
  simp only [getElem?_slice]
  by_cases hk : k < m
  · rw [if_pos hk, if_pos hk, if_pos (by omega), add_assoc]
  · rw [if_neg hk, if_neg hk]

lemma slice_ext {b' : Bytes} (h : ∀ k < n, b[i + k]? = b'[j + k]?) : b.slice i n = b'.slice j n := by
  apply ext_getElem?
  intro k
  rw [getElem?_slice, getElem?_slice]
  split
  · exact h k ‹_›
  · rfl

section

variable (h : i ≤ b.length)

include h

lemma slice_splice : (b.splice i x).slice i x.length = x := by
  apply ext_getElem?
  intro k
  rw [getElem?_slice]
  split
  · rw [getElem?_splice h, if_neg (by omega), if_pos (by omega), Nat.add_sub_cancel_left]
  · rw [getElem?_eq_none (by omega)]

lemma slice_splice_inside (hj : i ≤ j) (hn : j + n ≤ i + x.length) :
    (b.splice i x).slice j n = x.slice (j - i) n := by
  refine slice_ext fun k hk => ?_
  rw [getElem?_splice h, if_neg (by omega), if_pos (by omega)]
  congr 1
  omega

lemma slice_splice_left (hj : j + n ≤ i) : (b.splice i x).slice j n = b.slice j n := by
  refine slice_ext fun k hk => ?_
  rw [getElem?_splice h, if_pos (by omega)]

lemma slice_splice_right (hj : i + x.length ≤ j) : (b.splice i x).slice j n = b.slice j n := by
  refine slice_ext fun k hk => ?_
  rw [getElem?_splice h, if_neg (by omega), if_neg (by omega)]

lemma slice_splice_of_disjoint (hj : j + n ≤ i ∨ i + x.length ≤ j) : (b.splice i x).slice j n = b.slice j n := by
  rcases hj with hj | hj
  · exact slice_splice_left h hj
  · exact slice_splice_right h hj

end

lemma slice_append_left (h : i + n ≤ b.length) : (b ++ y).slice i n = b.slice i n := by
  refine slice_ext fun k hk => ?_
  rw [getElem?_append_left (by omega)]

lemma slice_append_right (h : b.length ≤ i) : (b ++ y).slice i n = y.slice (i - b.length) n := by
  refine slice_ext fun k hk => ?_
  rw [getElem?_append_right (by omega)]
  congr 1
  omega

lemma slice_zeros (h : i + n ≤ m) : (zeros m).slice i n = zeros n := by
  apply ext_getElem?
  intro k
  rw [getElem?_slice, zeros, zeros, getElem?_replicate, getElem?_replicate]
  split
  · rw [if_pos (by omega)]
  · rfl

/-! ### Little-endian numbers -/

/-- The `n` little-endian bytes of `v`. -/
def leBytes : ℕ → ℕ → Bytes
  | 0, _ => []
  | n + 1, v => BitVec.ofNat 8 v :: leBytes n (v / 256)

/-- The number with the given little-endian bytes. -/
def leVal : Bytes → ℕ
  | [] => 0
  | x :: b => x.toNat + 256 * leVal b

/-- `uN::from_le_bytes` of the `n` bytes at `i`. -/
def leAt (n : ℕ) (b : Bytes) (i : ℕ) : ℕ := leVal (b.slice i n)

/-- The big-endian number in the `n` bytes at `i`. -/
def beAt (n : ℕ) (b : Bytes) (i : ℕ) : ℕ := leVal (b.slice i n).reverse

/-- `uN::to_le_bytes` copied to the `n` bytes at `i`. -/
def putLe (n : ℕ) (b : Bytes) (i v : ℕ) : Bytes := b.splice i (leBytes n v)

@[simp] lemma length_leBytes (n v : ℕ) : (leBytes n v).length = n := by
  induction n generalizing v with
  | zero => rfl
  | succ n ih => rw [leBytes, length_cons, ih]

lemma leBytes_add (n m v : ℕ) : leBytes (n + m) v = leBytes n v ++ leBytes m (v / 256 ^ n) := by
  induction n generalizing v with
  | zero => simp [leBytes]
  | succ n ih =>
    rw [Nat.succ_add, leBytes, leBytes, ih, cons_append, Nat.div_div_eq_div_mul, pow_succ']

lemma leVal_leBytes (n v : ℕ) : leVal (leBytes n v) = v % 256 ^ n := by
  induction n generalizing v with
  | zero => rw [leBytes, leVal, pow_zero, Nat.mod_one]
  | succ n ih =>
    have hmod : v % 256 ^ (n + 1) = v % 256 + 256 * (v / 256 % 256 ^ n) := by rw [pow_succ', Nat.mod_mul]
    rw [leBytes, leVal, ih, BitVec.toNat_ofNat, hmod]

lemma leVal_lt (b : Bytes) : leVal b < 256 ^ b.length := by
  induction b with
  | nil => simp [leVal]
  | cons x b ih =>
    have hx : x.toNat < 256 := x.isLt
    rw [leVal, length_cons, pow_succ']
    omega

lemma leBytes_leVal (b : Bytes) : leBytes b.length (leVal b) = b := by
  induction b with
  | nil => rfl
  | cons x b ih =>
    have hx : x.toNat < 256 := x.isLt
    rw [length_cons, leBytes, leVal, Nat.add_mul_div_left _ _ (by norm_num), Nat.div_eq_of_lt hx, zero_add, ih]
    congr 1
    apply BitVec.eq_of_toNat_eq
    rw [BitVec.toNat_ofNat, Nat.add_mul_mod_self_left, Nat.mod_eq_of_lt hx]

lemma leBytes_mod (n v : ℕ) : leBytes n (v % 256 ^ n) = leBytes n v := by
  have h := leBytes_leVal (leBytes n v)
  rwa [length_leBytes, leVal_leBytes] at h

lemma leVal_zeros (n : ℕ) : leVal (zeros n) = 0 := by
  induction n with
  | zero => rfl
  | succ n ih =>
    rw [zeros, replicate_succ, leVal]
    exact (zero_add _).trans (by rw [← zeros, ih])

lemma leAt_lt (n : ℕ) (b : Bytes) (i : ℕ) : leAt n b i < 256 ^ n :=
  (leVal_lt _).trans_le (Nat.pow_le_pow_right (by norm_num) (length_slice_le b i n))

lemma leAt_slice (h : j + m ≤ n) : leAt m (b.slice i n) j = leAt m b (i + j) := by
  rw [leAt, slice_slice h, leAt]

@[simp] lemma leAt_zeros (h : i + n ≤ m) : leAt n (zeros m) i = 0 := by
  rw [leAt, slice_zeros h, leVal_zeros]

@[simp] lemma length_putLe (h : i + n ≤ b.length) : (putLe n b i v).length = b.length :=
  length_splice (by rwa [length_leBytes])

section

variable (h : i ≤ b.length)

include h

lemma leAt_putLe : leAt n (putLe n b i v) i = v % 256 ^ n := by
  have hslice := slice_splice (x := leBytes n v) h
  rw [length_leBytes] at hslice
  rw [leAt, putLe, hslice, leVal_leBytes]

lemma leAt_putLe_of_lt (hv : v < 256 ^ n) : leAt n (putLe n b i v) i = v := by
  rw [leAt_putLe h, Nat.mod_eq_of_lt hv]

lemma slice_putLe_of_disjoint (hj : j + m ≤ i ∨ i + n ≤ j) : (putLe n b i v).slice j m = b.slice j m :=
  slice_splice_of_disjoint h (by rwa [length_leBytes])

lemma leAt_putLe_of_disjoint (hj : j + m ≤ i ∨ i + n ≤ j) :
    leAt m (putLe n b i v) j = leAt m b j := by rw [leAt, slice_putLe_of_disjoint h hj, leAt]

end

lemma leAt_append_left (h : i + n ≤ b.length) : leAt n (b ++ y) i = leAt n b i := by
  rw [leAt, slice_append_left h, leAt]

lemma leAt_leBytes (n v : ℕ) : leAt n (leBytes n v) 0 = v % 256 ^ n := by
  have h := slice_zero_length (leBytes n v)
  rw [length_leBytes] at h
  rw [leAt, h, leVal_leBytes]

/-! ### Several writes

A block is filled by writes at fixed offsets.  What is read from it afterwards is the last write
there, if none of the later ones meets it: `lastWrite` computes it. -/

section Patch

variable {z : Bytes} {ws : List (ℕ × Bytes)}

/-- Writes at offsets, one after the other. -/
def patch (b : Bytes) (ws : List (ℕ × Bytes)) : Bytes := ws.foldl (fun b w => b.splice w.1 w.2) b

/-- Every write is within the first `m` bytes. -/
def Within (m : ℕ) (ws : List (ℕ × Bytes)) : Prop := ∀ w ∈ ws, w.1 + w.2.length ≤ m

/-- The bytes at `i` after the writes, where `acc` was there before; `none` once a write meets them
without being the bytes at `i`. -/
def lastWrite (i n : ℕ) : List (ℕ × Bytes) → Option Bytes → Option Bytes
  | [], acc => acc
  | (j, x) :: ws, acc =>
    if j = i ∧ x.length = n then lastWrite i n ws (some x)
    else if j + x.length ≤ i ∨ i + n ≤ j then lastWrite i n ws acc
    else lastWrite i n ws none

@[simp] lemma patch_nil (b : Bytes) : patch b [] = b := rfl

@[simp] lemma patch_cons (b : Bytes) (w : ℕ × Bytes) (ws : List (ℕ × Bytes)) :
    patch b (w :: ws) = patch (b.splice w.1 w.2) ws := rfl

lemma patch_append (b : Bytes) (ws us : List (ℕ × Bytes)) :
    patch b (ws ++ us) = patch (patch b ws) us := foldl_append

@[simp] lemma within_nil : Within m [] := nofun

@[simp] lemma within_cons {w : ℕ × Bytes} :
    Within m (w :: ws) ↔ w.1 + w.2.length ≤ m ∧ Within m ws := by simp [Within]

lemma length_patch (h : Within b.length ws) : (patch b ws).length = b.length := by
  induction ws generalizing b with
  | nil => rfl
  | cons w ws ih =>
    obtain ⟨hw, hws⟩ := within_cons.mp h
    have hlen : (b.splice w.1 w.2).length = b.length := length_splice hw
    rw [patch_cons, ih (hlen.symm ▸ hws), hlen]

lemma slice_patch_of_disjoint (h : Within b.length ws)
    (hd : ∀ w ∈ ws, w.1 + w.2.length ≤ i ∨ i + n ≤ w.1) : (patch b ws).slice i n = b.slice i n := by
  induction ws generalizing b with
  | nil => rfl
  | cons w ws ih =>
    obtain ⟨hw, hws⟩ := within_cons.mp h
    have hlen : (b.splice w.1 w.2).length = b.length := length_splice hw
    rw [patch_cons, ih (hlen.symm ▸ hws) fun u hu => hd u (mem_cons_of_mem w hu),
      slice_splice_of_disjoint (by omega) (hd w mem_cons_self).symm]

lemma lastWrite_none : lastWrite i n ws none = some z → ∀ y, lastWrite i n ws (some y) = some z := by
  induction ws with
  | nil => exact nofun
  | cons w ws ih =>
    intro h y
    rw [lastWrite] at h ⊢
    split_ifs at h ⊢
    · exact h
    · exact ih h y
    · exact h

lemma slice_patch (h : Within b.length ws) (hz : lastWrite i n ws (some (b.slice i n)) = some z) :
    (patch b ws).slice i n = z := by
  induction ws generalizing b with
  | nil => exact Option.some.inj hz
  | cons w ws ih =>
    obtain ⟨hw, hws⟩ := within_cons.mp h
    have hlen : (b.splice w.1 w.2).length = b.length := length_splice hw
    rw [patch_cons]
    apply ih (hlen.symm ▸ hws)
    rw [lastWrite] at hz
    split_ifs at hz with hthere haway
    · obtain ⟨rfl, rfl⟩ := hthere
      rwa [slice_splice (by omega)]
    · rwa [slice_splice_of_disjoint (by omega) haway.symm]
    · exact lastWrite_none hz _

lemma leAt_patch (h : Within b.length ws)
    (hz : lastWrite i n ws (some (b.slice i n)) = some (leBytes n v)) (hv : v < 256 ^ n) :
    leAt n (patch b ws) i = v := by rw [leAt, slice_patch h hz, leVal_leBytes, Nat.mod_eq_of_lt hv]

lemma leAt_patch_zeros (h : Within m ws)
    (hz : lastWrite i n ws (some (zeros n)) = some (leBytes n v)) (hi : i + n ≤ m)
    (hv : v < 256 ^ n) : leAt n (patch (zeros m) ws) i = v := by
  apply leAt_patch (by rwa [length_zeros]) _ hv
  rwa [slice_zeros hi]

end Patch

/-! ### Tables of equal slots -/

section Slots

variable {f : ℕ → List (ℕ × Bytes)} {base w : ℕ}

/-- The writes of `f j` are within slot `j` of a table at `base`. -/
def InSlots (f : ℕ → List (ℕ × Bytes)) (base w : ℕ) : Prop :=
  ∀ j, ∀ u ∈ f j, base + j * w ≤ u.1 ∧ u.1 + u.2.length ≤ base + (j + 1) * w

lemma InSlots.within (hf : InSlots f base w) (hb : base + n * w ≤ m) : Within m ((List.range n).flatMap f) := by
  intro u hu
  obtain ⟨j, hj, hu⟩ := mem_flatMap.mp hu
  have hjn : (j + 1) * w ≤ n * w := Nat.mul_le_mul_right w (mem_range.mp hj)
  have := (hf j u hu).2
  omega

lemma InSlots.leAt_before (hf : InSlots f base w) (hb : base + n * w ≤ b.length) (hi : i + m ≤ base) :
    leAt m (patch b ((List.range n).flatMap f)) i = leAt m b i := by
  rw [leAt, slice_patch_of_disjoint (hf.within hb), leAt]
  intro u hu
  obtain ⟨j, -, hu⟩ := mem_flatMap.mp hu
  have := (hf j u hu).1
  omega

lemma InSlots.leAt_slot (hf : InSlots f base w) (hb : base + n * w ≤ b.length) (hj : j < n)
    (hi : base + j * w ≤ i ∧ i + m ≤ base + (j + 1) * w)
    (hz : ∀ acc, lastWrite i m (f j) acc = some (leBytes m v)) (hv : v < 256 ^ m) :
    leAt m (patch b ((List.range n).flatMap f)) i = v := by
  induction n with
  | zero => omega
  | succ n ih =>
    have hnext : (n + 1) * w = n * w + w := Nat.succ_mul n w
    have hdone : Within b.length ((List.range n).flatMap f) := hf.within (by omega)
    have hlast : Within (patch b ((List.range n).flatMap f)).length (f n) := by
      rw [length_patch hdone]
      exact fun u hu => ((hf n u hu).2).trans hb
    rw [range_succ, flatMap_append, patch_append, flatMap_singleton]
    rcases Nat.lt_succ_iff_lt_or_eq.mp hj with hjn | rfl
    · have hjw : (j + 1) * w ≤ n * w := Nat.mul_le_mul_right w hjn
      rw [leAt, slice_patch_of_disjoint hlast, ← leAt]
      · exact ih (by omega) hjn
      · intro u hu
        have := (hf n u hu).1
        omega
    · exact leAt_patch hlast (hz _) hv

end Slots

end Bytes

end AppleUtils
