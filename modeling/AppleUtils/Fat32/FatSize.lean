import AppleUtils.Fat32.Reader
import Mathlib.Algebra.Order.Floor.Div
import Mathlib.Order.Iterate

/-! # The size of a new table of clusters

`compute_fat_size` looks for the size of the table by iteration: a size leaves a number of clusters, and
these need a size.  A larger table leaves fewer clusters, so the iteration goes down and up around its
fixed point.  Where there is none it ends, after 64 turns, on the smaller of two sizes. -/

namespace AppleUtils.Fat32

open Bytes Checks Function

/-! ### Formatting -/

/-- The loop doubles seven times at most; a turn that does not double would leave all later ones so. -/
def chooseSpcFat32 (totalSectors bytesPerSector : ℕ) : ℕ :=
  let totalBytes := min (totalSectors * bytesPerSector) (2 ^ 64 - 1)
  let mb := 1024 * 1024
  let gb := 1024 * mb
  let targetClusterBytes :=
    if totalBytes < 64 * mb then 512
    else if totalBytes < 128 * mb then 1024
    else if totalBytes < 256 * mb then 2048
    else if totalBytes < 8 * gb then 4096
    else if totalBytes < 16 * gb then 8192
    else if totalBytes < 32 * gb then 16384
    else 32768
  let raw := max (targetClusterBytes / bytesPerSector) 1
  (fun spc => if spc * 2 ≤ raw ∧ spc < 128 then spc * 2 else spc)^[7] 1

/-- The layout of `format_image`, before the size of the table is known. -/
def formatLayout (fatType : FatType) (totalSectors bytesPerSector : ℕ) : Layout :=
  match fatType with
  | .fat32 => ⟨.fat32, bytesPerSector, chooseSpcFat32 totalSectors bytesPerSector, 32, 2, 0, totalSectors, 0⟩
  | .fat16 => ⟨.fat16, bytesPerSector, 1, 1, 2, 512, totalSectors, 0⟩

/-- The clusters that a table of `fatSize` sectors leaves need a table of so many sectors. -/
def needed (l : Layout) (fatSize : ℕ) : ℕ :=
  let overhead := l.reservedSectors + l.rootDirSectors + l.numFats * fatSize
  let entries := (l.totalSectors - overhead) / l.sectorsPerCluster + 2
  max ((entries * fatEntrySize l.fatType) ⌈/⌉ l.bytesPerSector) 1

def fatSizeLoop (l : Layout) : ℕ → ℕ → Checked ℕ
  | 0, fatSize => .ok fatSize
  | turns + 1, fatSize => do
    refuseIf (l.totalSectors ≤ l.reservedSectors + l.rootDirSectors + l.numFats * fatSize)
      "EFI partition is too small for the requested FAT geometry"
    if needed l fatSize = fatSize then return fatSize
    fatSizeLoop l turns (needed l fatSize)

def computeFatSize (l : Layout) : Checked ℕ := do
  let fatSize ← fatSizeLoop l 64 1
  refuseIf (2 ^ 32 ≤ fatSize) "FAT size exceeds addressable range"
  return fatSize

def fatSet (fat : Bytes) (index value : ℕ) (fatType : FatType) : Checked Bytes :=
  let off := index * fatEntrySize fatType
  if off + fatEntrySize fatType ≤ fat.length then
    match fatType with
    | .fat16 => .ok (putLe 2 fat off (value % 2 ^ 16))
    | .fat32 => .ok (putLe 4 fat off (value % 2 ^ 28))
  else .error .panic

lemma fatEntrySize_le (fatType : FatType) : fatEntrySize fatType ≤ 4 := by
  cases fatType <;> decide

lemma formatLayout_fields {fatType : FatType} {t s : ℕ} {l : Layout} (h : formatLayout fatType t s = l) :
    s = l.bytesPerSector ∧ l.numFats = 2 ∧ t = l.totalSectors ∧ fatType = l.fatType := by
  subst h
  cases fatType <;> exact ⟨rfl, rfl, rfl, rfl⟩

lemma fatSet_panics_iff {fat : Bytes} {index value : ℕ} {fatType : FatType} :
    fatSet fat index value fatType = .error .panic ↔ fat.length < (index + 1) * fatEntrySize fatType := by
  unfold fatSet
  rw [Nat.succ_mul, ← not_le]
  by_cases hroom : index * fatEntrySize fatType + fatEntrySize fatType ≤ fat.length
  · cases fatType <;> simp [hroom]
  · simp [hroom]

/-! ### Iterations that go down and up -/

section iteration

variable {g : ℕ → ℕ} (hanti : Antitone g) (hslow : ∀ a b, a ≤ b → g a ≤ g b + (b - a) / 64 + 1) {x N : ℕ}
include hanti hslow

/-- Every second value is below the next one, and the distance shrinks to 1. -/
lemma iterate_narrows (hx : x ≤ g x) (hN : g x ≤ x + N + 1) (k : ℕ) :
    g^[2 * k] x ≤ g (g^[2 * k] x) ∧ g (g^[2 * k] x) ≤ g^[2 * k] x + N / 4 ^ k + 1 := by
  induction k with
  | zero => simpa using ⟨hx, hN⟩
  | succ k ih =>
    rw [Nat.mul_succ, iterate_succ_apply', iterate_succ_apply', pow_succ, ← Nat.div_div_eq_div_mul]
    generalize g^[2 * k] x = y, N / 4 ^ k = M at ih ⊢
    have hback : g (g y) ≤ g y := hanti ih.1
    have hup := hslow _ _ ih.1
    have hdown := hslow _ _ hback
    exact ⟨hanti hback, by omega⟩

lemma iterate_isFixedPt (hx : x ≤ g x) (hN : g x ≤ x + N + 1) {k p : ℕ} (hk : N < 4 ^ k) (hp : g p = p) :
    g (g^[2 * k + 2] x) = g^[2 * k + 2] x := by
  obtain ⟨hle, hnear⟩ := iterate_narrows hanti hslow hx hN k
  rw [iterate_succ_apply', iterate_succ_apply']
  rw [Nat.div_eq_of_lt hk] at hnear
  generalize g^[2 * k] x = y at hle hnear ⊢
  -- Below the fixed point `y` is one less than it, and the next value is the fixed point
  rcases le_or_gt p y with hpy | hpy
  · have hfixed : g y = y := le_antisymm ((hanti hpy).trans (hp.trans_le hpy)) hle
    simp only [hfixed]
  · have hbelow := hanti hpy.le
    have hnext : g y = p := by omega
    rw [hnext, hp, hp]

end iteration

/-! ### The loop -/

section loop

variable {l : Layout} {a b : ℕ} (hsector : 512 ≤ l.bytesPerSector)

lemma one_le_needed : 1 ≤ needed l a := le_max_right _ _

include hsector

lemma needed_le_iff (hb : 1 ≤ b) : needed l a ≤ b ↔
    ((l.totalSectors - (l.reservedSectors + l.rootDirSectors + l.numFats * a)) / l.sectorsPerCluster + 2) *
      fatEntrySize l.fatType ≤ l.bytesPerSector * b := by
  unfold needed
  rw [max_le_iff, and_iff_left hb, ceilDiv_le_iff_le_mul (by omega)]

lemma needed_antitone : Antitone (needed l) := by
  intro a b hab
  rw [needed_le_iff hsector one_le_needed]
  refine le_trans ?_ ((needed_le_iff hsector one_le_needed).mp le_rfl)
  gcongr

/-- Two copies of the table take two sectors for each sector of its size, and an entry has four bytes at
most. -/
lemma needed_slow (hfats : l.numFats = 2) (hab : a ≤ b) : needed l a ≤ needed l b + (b - a) / 64 + 1 := by
  rw [needed_le_iff hsector (by omega), hfats]
  have hroom := (needed_le_iff (l := l) (a := b) hsector one_le_needed).mp le_rfl
  rw [hfats] at hroom
  generalize l.reservedSectors + l.rootDirSectors = fixed at *
  have hclusters : (l.totalSectors - (fixed + 2 * a)) / l.sectorsPerCluster ≤
      (l.totalSectors - (fixed + 2 * b)) / l.sectorsPerCluster + 2 * (b - a) := by
    rcases Nat.eq_zero_or_pos l.sectorsPerCluster with hs | hs
    · simp [hs]
    · rw [← Nat.add_mul_div_left _ _ hs]
      have := Nat.le_mul_of_pos_left (2 * (b - a)) hs
      exact Nat.div_le_div_right (by omega)
  have hentry := fatEntrySize_le l.fatType
  have hmore : 2 * (b - a) * fatEntrySize l.fatType ≤ l.bytesPerSector * ((b - a) / 64 + 1) :=
    calc 2 * (b - a) * fatEntrySize l.fatType ≤ 2 * (b - a) * 4 := Nat.mul_le_mul_left _ hentry
      _ ≤ 512 * ((b - a) / 64 + 1) := by omega
      _ ≤ l.bytesPerSector * ((b - a) / 64 + 1) := Nat.mul_le_mul_right _ hsector
  refine (Nat.mul_le_mul_right _ (Nat.add_le_add_right hclusters 2)).trans ?_
  rw [add_right_comm, add_mul, add_assoc, mul_add]
  exact Nat.add_le_add hroom hmore

lemma needed_one_le : needed l 1 ≤ 1 + l.totalSectors / 64 + 1 := by
  rw [needed_le_iff hsector (by omega)]
  have hentry := fatEntrySize_le l.fatType
  have hclusters := (Nat.div_le_self (l.totalSectors - (l.reservedSectors + l.rootDirSectors + l.numFats * 1))
    l.sectorsPerCluster).trans (Nat.sub_le _ _)
  calc _ ≤ (l.totalSectors + 2) * 4 := Nat.mul_le_mul (Nat.add_le_add_right hclusters 2) hentry
    _ ≤ 512 * (1 + l.totalSectors / 64 + 1) := by omega
    _ ≤ _ := Nat.mul_le_mul_right _ hsector

omit hsector in
/-- A size that the loop stops on early would not change in the turns that are left. -/
lemma fatSizeLoop_eq {turns : ℕ} (h : fatSizeLoop l turns a = .ok b) : b = (needed l)^[turns] a := by
  induction turns generalizing a with
  | zero => exact (Except.ok.inj h).symm
  | succ turns ih =>
    obtain ⟨-, -, h⟩ := bind_eq_ok.mp h
    split at h
    · next hfixed => rw [iterate_fixed hfixed, Except.ok.inj h]
    · exact ih h

lemma computeFatSize_spec (hfats : l.numFats = 2) (htotal : l.totalSectors < 2 ^ 64)
    (h : computeFatSize l = .ok a) : 1 ≤ a ∧ (needed l a ≤ a ↔ ∃ p, needed l p = p) := by
  obtain ⟨size, hloop, h⟩ := bind_eq_ok.mp h
  obtain ⟨-, -, h⟩ := bind_eq_ok.mp h
  have hlast : a = (needed l)^[2 * 31 + 2] 1 := Except.ok.inj h ▸ fatSizeLoop_eq hloop
  have hanti := needed_antitone hsector
  have hslow : ∀ a b, a ≤ b → needed l a ≤ needed l b + (b - a) / 64 + 1 :=
    fun a b => needed_slow hsector hfats
  have hstart := needed_one_le hsector
  rw [hlast]
  refine ⟨?_, fun h => ⟨_, le_antisymm h ?_⟩, fun ⟨p, hp⟩ => ?_⟩
  · rw [iterate_succ_apply']
    exact one_le_needed
  · exact (iterate_narrows hanti hslow one_le_needed hstart 32).1
  · exact (iterate_isFixedPt hanti hslow one_le_needed hstart (by omega) hp).le

end loop

/-- The table of the size found has room for every cluster if and only if some size is the one its own
clusters need. -/
theorem fat_size_suffices_iff {fatType : FatType} {totalSectors bytesPerSector fatSize : ℕ} {l : Layout}
    (hl : formatLayout fatType totalSectors bytesPerSector = l) (htotal : totalSectors < 2 ^ 64)
    (hsector : 512 ≤ bytesPerSector) (hsize : computeFatSize l = .ok fatSize) :
    let layout := { l with fatSizeSectors := fatSize }
    ((layout.maxClusters + 2) * fatEntrySize fatType ≤ fatSize * bytesPerSector ↔ ∃ p, needed l p = p) ∧
      ((∀ fat index value, fat.length = layout.fatRegionLen → index ≤ layout.maxClusters + 1 →
        fatSet fat index value fatType ≠ .error .panic) ↔ ∃ p, needed l p = p) := by
  intro layout
  obtain ⟨rfl, hfats, rfl, rfl⟩ := formatLayout_fields hl
  obtain ⟨hone, hfixed⟩ := computeFatSize_spec hsector hfats htotal hsize
  have hroom : (layout.maxClusters + 2) * fatEntrySize l.fatType ≤ fatSize * l.bytesPerSector ↔
      ∃ p, needed l p = p := by
    rw [← hfixed, needed_le_iff hsector hone, add_right_comm, mul_comm fatSize]
    rfl
  refine ⟨hroom, Iff.trans ⟨fun h => ?_, fun h fat index value hlength hindex => ?_⟩ hroom⟩
  · have hlast := h (zeros layout.fatRegionLen) _ 0 (length_zeros _) le_rfl
    rw [Ne, fatSet_panics_iff, length_zeros, not_lt] at hlast
    exact hlast
  · rw [Ne, fatSet_panics_iff, not_lt, hlength]
    exact (Nat.mul_le_mul_right _ (Nat.succ_le_succ hindex)).trans h

/-- With 200 sectors two sectors are found, and they are the size that their clusters need. -/
theorem fat_size_suffices_of_two : ∃ p, needed (formatLayout .fat32 200 512) p = p := by
  have hsize : computeFatSize (formatLayout .fat32 200 512) = .ok 2 := by decide
  exact (fat_size_suffices_iff rfl (by decide) (by decide) hsize).1.mp (by decide)

/-- In 161 sectors, one for the table leaves 127 clusters, one more than it has entries for, and two leave
125, for which one is enough. -/
theorem one_sector_too_small : computeFatSize (formatLayout .fat32 161 512) = .ok 1 ∧
    { formatLayout .fat32 161 512 with fatSizeSectors := 1 }.maxClusters = 127 ∧
      fatSet (zeros 512) 128 0x0FFFFFFF .fat32 = .error .panic := by decide +kernel

end AppleUtils.Fat32
