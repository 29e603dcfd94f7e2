import AppleUtils.Lib.Slices

/-! # The object checksum

Every APFS object starts with eight checksum bytes, a Fletcher sum over the little-endian words of
the rest.  The writer stores the two check words that bring the first running sum back to zero
(`fletcher64Seal`), and both readers test just that (`fletcher64Valid`, `checksumValid`); so what is
sealed is valid (`checksumValid_seal`) and differs from what was there in its first eight bytes
only. -/

namespace AppleUtils.Apfs

open Bytes List

def FLETCHER_MODULUS : ℕ := 0xFFFFFFFF

/-- The little-endian words of a byte string, a short rest dropped. -/
def chunkWords : Bytes → List ℕ
  | a :: b :: c :: d :: rest => leVal [a, b, c, d] :: chunkWords rest
  | _ => []

/-- The two running sums. -/
def fletcher64Sums (body : Bytes) : ℕ × ℕ :=
  (chunkWords body).foldl (fun (lo, hi) word =>
    let lo := (lo + word) % FLETCHER_MODULUS
    (lo, (hi + lo) % FLETCHER_MODULUS)) (0, 0)

/-- The checksum of an object of at least eight bytes. -/
def fletcher64 (block : Bytes) : ℕ :=
  let (lo, hi) := fletcher64Sums (block.drop 8)
  let c1 := FLETCHER_MODULUS - (lo + hi) % FLETCHER_MODULUS
  let c2 := FLETCHER_MODULUS - (lo + c1) % FLETCHER_MODULUS
  c2 * 256 ^ 4 + c1

def fletcher64Seal (block : Bytes) : Bytes := putLe 8 block 0 (fletcher64 block)

/-- The test of `apfs_image`. -/
def fletcher64Valid (block : Bytes) : Bool :=
  8 ≤ block.length && block.length % 4 = 0 && (fletcher64Sums block).1 = 0

/-- The test of `apfs_verify`. -/
def checksumValid (block : Bytes) : Bool :=
  if block.length < 8 || block.length % 4 ≠ 0 then false else (fletcher64Sums block).1 = 0

lemma checksumValid_eq (block : Bytes) : checksumValid block = fletcher64Valid block := by
  unfold checksumValid fletcher64Valid
  by_cases h : block.length < 8 <;> by_cases h' : block.length % 4 = 0 <;>
    simp [h, h', not_le.mpr, not_lt.mp]

/-! ### The first sum -/

lemma fletcher64Sums_fst (body : Bytes) : (fletcher64Sums body).1 = (chunkWords body).sum % FLETCHER_MODULUS := by
  have hfold (words : List ℕ) (s : ℕ × ℕ) (hs : s.1 < FLETCHER_MODULUS) :
      (words.foldl (fun (lo, hi) word =>
        let lo := (lo + word) % FLETCHER_MODULUS
        (lo, (hi + lo) % FLETCHER_MODULUS)) s).1 = (s.1 + words.sum) % FLETCHER_MODULUS := by
    induction words generalizing s with
    | nil => simp [Nat.mod_eq_of_lt hs]
    | cons word words ih =>
      rw [foldl_cons, ih _ (Nat.mod_lt _ (by decide)), sum_cons]
      simp only [Nat.mod_add_mod, add_assoc]
  rw [fletcher64Sums, hfold _ _ (by decide), zero_add]

lemma chunkWords_append (x y : Bytes) (h : x.length % 4 = 0) :
    chunkWords (x ++ y) = chunkWords x ++ chunkWords y := by
  induction x using chunkWords.induct with
  | case1 a b c d rest ih =>
    have hrest : rest.length % 4 = 0 := by
      simp only [length_cons] at h
      omega
    simp only [cons_append, chunkWords, ih hrest]
  | case2 x hx =>
    obtain rfl : x = [] := by
      match x, hx with
      | [], _ => rfl
      | [_], _ => simp at h
      | [_, _], _ => simp at h
      | [_, _, _], _ => simp at h
      | a :: b :: c :: d :: rest, hx => exact absurd rfl (hx a b c d rest)
    rfl

lemma chunkWords_word {w : Bytes} (h : w.length = 4) : chunkWords w = [leVal w] := by
  match w, h with
  | [a, b, c, d], _ => rfl

lemma chunkWords_leBytes_four (v : ℕ) : chunkWords (leBytes 4 v) = [v % 256 ^ 4] := by
  rw [← leVal_leBytes 4 v]
  simp only [leBytes, chunkWords]

lemma chunkWords_leBytes_eight (v : ℕ) : chunkWords (leBytes 8 v) = [v % 256 ^ 4, v / 256 ^ 4 % 256 ^ 4] := by
  rw [leBytes_add 4 4 v, chunkWords_append _ _ (by rw [length_leBytes]), chunkWords_leBytes_four,
    chunkWords_leBytes_four]
  rfl

/-! ### Sealing -/

variable {block : Bytes} {i n : ℕ}

lemma fletcher64Seal_eq (block : Bytes) : fletcher64Seal block = leBytes 8 (fletcher64 block) ++ block.drop 8 := by
  rw [fletcher64Seal, putLe, splice, length_leBytes, take_zero, nil_append]

@[simp] lemma length_fletcher64Seal (h : 8 ≤ block.length) :
    (fletcher64Seal block).length = block.length := length_putLe (by omega)

lemma slice_fletcher64Seal (hi : 8 ≤ i) : (fletcher64Seal block).slice i n = block.slice i n :=
  slice_putLe_of_disjoint (Nat.zero_le _) (.inr hi)

lemma leAt_fletcher64Seal (hi : 8 ≤ i) : leAt n (fletcher64Seal block) i = leAt n block i := by
  rw [leAt, slice_fletcher64Seal hi, leAt]

/-- Two check words below a base that bring a sum back to zero. -/
lemma check_words {M B lo total c : ℕ} (hM : 0 < M) (hB : M < B) (hlo : lo = total % M) (hc : c ≤ M) :
    (((M - (lo + c) % M) * B + c) % B + (((M - (lo + c) % M) * B + c) / B % B + total)) % M = 0 := by
  have hr := Nat.mod_lt (lo + c) hM
  have hfst : ((M - (lo + c) % M) * B + c) % B = c := by
    rw [mul_comm, Nat.mul_add_mod, Nat.mod_eq_of_lt (by omega)]
  have hsnd : ((M - (lo + c) % M) * B + c) / B % B = M - (lo + c) % M := by
    rw [mul_comm, Nat.mul_add_div (by omega), Nat.div_eq_of_lt (by omega), add_zero, Nat.mod_eq_of_lt (by omega)]
  have hsum : c + (M - (lo + c) % M + total) = (c + total) + (M - (c + total) % M) := by
    rw [hlo, Nat.mod_add_mod, add_comm total c]
    omega
  have hle := (Nat.mod_lt (c + total) hM).le
  rw [hfst, hsnd, hsum, ← Nat.mod_add_mod, Nat.add_sub_cancel' hle, Nat.mod_self]

/-- The check words bring the first sum back to zero. -/
lemma fletcher64Sums_seal (block : Bytes) : (fletcher64Sums (fletcher64Seal block)).1 = 0 := by
  have hlo := fletcher64Sums_fst (block.drop 8)
  rw [fletcher64Sums_fst, fletcher64Seal_eq, chunkWords_append _ _ (by rw [length_leBytes]),
    chunkWords_leBytes_eight, sum_append, sum_cons, sum_cons, sum_nil, add_zero, add_assoc, fletcher64]
  generalize fletcher64Sums (block.drop 8) = sums at hlo
  obtain ⟨lo, hi⟩ := sums
  exact check_words (by decide) (by decide) hlo (Nat.sub_le _ _)

lemma checksumValid_seal (h : 8 ≤ block.length) (h4 : block.length % 4 = 0) :
    checksumValid (fletcher64Seal block) = true := by
  rw [checksumValid_eq, fletcher64Valid, length_fletcher64Seal h, fletcher64Sums_seal]
  simp [h, h4]

/-- The checksum does not depend on the eight bytes it is stored in. -/
lemma fletcher64_seal (block : Bytes) : fletcher64 (fletcher64Seal block) = fletcher64 block := by
  rw [fletcher64, fletcher64, fletcher64Seal_eq, drop_left' (length_leBytes 8 _)]

/-- A sealed block passes both checks, differs from the block in its first eight bytes only, and is
not changed by sealing it again. -/
theorem sealed_block (block : Bytes) (h8 : 8 ≤ block.length) (h4 : block.length % 4 = 0) :
    fletcher64Valid (fletcher64Seal block) = true ∧ checksumValid (fletcher64Seal block) = true
      ∧ (fletcher64Seal block).length = block.length ∧ (fletcher64Seal block).drop 8 = block.drop 8
      ∧ fletcher64Seal (fletcher64Seal block) = fletcher64Seal block := by
  have hvalid := checksumValid_seal h8 h4
  have hdrop : (fletcher64Seal block).drop 8 = block.drop 8 := by
    rw [fletcher64Seal_eq, drop_left' (length_leBytes 8 _)]
  refine ⟨by rw [← checksumValid_eq, hvalid], hvalid, length_fletcher64Seal h8, hdrop, ?_⟩
  rw [fletcher64Seal_eq (fletcher64Seal block), fletcher64_seal, hdrop, ← fletcher64Seal_eq]

/-- A block whose words add up to the modulus. -/
theorem sealed_block_of_ones : checksumValid (fletcher64Seal (zeros 8 ++ List.replicate 4 0xFF)) = true :=
  (sealed_block (zeros 8 ++ List.replicate 4 0xFF) (by decide) (by decide)).2.1

/-! ### What the checks accept

Both checks look at the first sum alone, the plain sum of the words.  They accept every order of
the same words, and the words `0` and `0xFFFFFFFF` for each other. -/

lemma fletcher64Valid_iff (h8 : 8 ≤ block.length) (h4 : block.length % 4 = 0) :
    fletcher64Valid block = true ↔ (chunkWords block).sum % FLETCHER_MODULUS = 0 := by
  rw [fletcher64Valid, fletcher64Sums_fst]
  simp [h8, h4]

lemma chunkWords_checked (h8 : 8 ≤ block.length) :
    chunkWords block = leAt 4 block 0 :: leAt 4 block 4 :: chunkWords (block.drop 8) := by
  match block, h8 with
  | a :: b :: c :: d :: e :: f :: g :: h :: rest, _ => rfl

lemma leAt_eight (h8 : 8 ≤ block.length) : leAt 8 block 0 = leAt 4 block 4 * 256 ^ 4 + leAt 4 block 0 := by
  match block, h8 with
  | a :: b :: c :: d :: e :: f :: g :: h :: rest, _ =>
    simp only [leAt, slice, drop_succ_cons, drop_zero, take_succ_cons, take_zero, leVal]
    ring

/-- The second check word is determined by the first, but for zero in the place of the modulus. -/
lemma second_check_word {M lo c c' : ℕ} (hM : 0 < M) (hc' : c' ≤ M)
    (hsum : (c + (c' + lo)) % M = 0) : c' = M - (lo + c) % M ↔ c' ≠ 0 := by
  have hr := Nat.mod_lt (lo + c) hM
  have hrest : (c' + (lo + c) % M) % M = 0 := by
    rw [Nat.add_mod_mod, ← hsum]
    congr 1
    omega
  constructor
  · omega
  · intro hne
    obtain ⟨k, hk⟩ := Nat.dvd_of_mod_eq_zero hrest
    -- the sum is above zero and below twice the modulus
    obtain rfl : k = 1 := by
      have hpos : 0 < M * k := by omega
      have hlt : M * k < M * 2 := by omega
      have := Nat.pos_of_mul_pos_left hpos
      have := Nat.lt_of_mul_lt_mul_left hlt
      omega
    omega

/-- The first check word is the one for the two sums of the body, and the second is not zero. -/
def CheckWords (block : Bytes) : Prop :=
  leAt 4 block 0 = FLETCHER_MODULUS -
      ((fletcher64Sums (block.drop 8)).1 + (fletcher64Sums (block.drop 8)).2) % FLETCHER_MODULUS
    ∧ leAt 4 block 4 ≠ 0

lemma stored_eq_iff (h8 : 8 ≤ block.length) (hsum : (chunkWords block).sum % FLETCHER_MODULUS = 0) :
    leAt 8 block 0 = fletcher64 block ↔ CheckWords block := by
  have hc := leAt_lt 4 block 0
  have hc' := leAt_lt 4 block 4
  have hM : FLETCHER_MODULUS + 1 = 256 ^ 4 := by decide
  have hsums := fletcher64Sums_fst (block.drop 8)
  rw [chunkWords_checked h8, sum_cons, sum_cons] at hsum
  have hzero : (leAt 4 block 0 + (leAt 4 block 4 + (fletcher64Sums (block.drop 8)).1))
      % FLETCHER_MODULUS = 0 := by
    rw [hsums, ← add_assoc, Nat.add_mod_mod, add_assoc]
    exact hsum
  have hsecond := second_check_word (by decide) (by omega) hzero
  rw [leAt_eight h8, fletcher64, CheckWords]
  generalize hs : fletcher64Sums (block.drop 8) = sums at *
  obtain ⟨lo, hi⟩ := sums
  simp only at hsecond ⊢
  generalize hfirst : FLETCHER_MODULUS - (lo + hi) % FLETCHER_MODULUS = first
  have hle : first ≤ FLETCHER_MODULUS := hfirst ▸ Nat.sub_le _ _
  constructor
  · intro heq
    have heq0 : leAt 4 block 0 = first := by omega
    refine ⟨heq0, hsecond.mp ?_⟩
    rw [heq0]
    omega
  · rintro ⟨heq0, hne⟩
    rw [hsecond.mpr hne, heq0]

/-- Two different words of the body have changed places. -/
def Swapped (block swapped : Bytes) : Prop :=
  ∃ front w mid w' back, block = front ++ (w ++ (mid ++ (w' ++ back)))
    ∧ swapped = front ++ (w' ++ (mid ++ (w ++ back))) ∧ w.length = 4 ∧ w'.length = 4 ∧ w ≠ w'
    ∧ 8 ≤ front.length ∧ front.length % 4 = 0 ∧ mid.length % 4 = 0

/-- A swap of words changes neither the length nor the sum. -/
lemma fletcher64Valid_swapped {swapped : Bytes} (h : Swapped block swapped) :
    fletcher64Valid swapped = fletcher64Valid block := by
  obtain ⟨front, w, mid, w', back, rfl, rfl, hw, hw', -, -, hfront, hmid⟩ := h
  have hsum (x y : Bytes) (hx : x.length = 4) (hy : y.length = 4) :
      (chunkWords (front ++ (x ++ (mid ++ (y ++ back))))).sum = (chunkWords front).sum
        + ((chunkWords x).sum + ((chunkWords mid).sum + ((chunkWords y).sum
          + (chunkWords back).sum))) := by
    rw [chunkWords_append _ _ hfront, chunkWords_append x _ (by omega),
      chunkWords_append _ _ hmid, chunkWords_append y _ (by omega)]
    simp only [sum_append]
  have hlen : (front ++ (w' ++ (mid ++ (w ++ back)))).length
      = (front ++ (w ++ (mid ++ (w' ++ back)))).length := by
    simp only [length_append]
    omega
  rw [fletcher64Valid, fletcher64Valid, fletcher64Sums_fst, fletcher64Sums_fst, hlen,
    hsum w w' hw hw', hsum w' w hw' hw]
  congr 4
  omega

/-- A word of a byte string, with what is before and after it. -/
lemma exists_word {x : Bytes} {front : List ℕ} {v : ℕ} {back : List ℕ} (h : chunkWords x = front ++ v :: back) :
    ∃ y w z, x = y ++ (w ++ z) ∧ y.length % 4 = 0 ∧ w.length = 4 ∧ leVal w = v ∧ chunkWords z = back := by
  induction x using chunkWords.induct generalizing front with
  | case1 a b c d rest ih =>
    rw [chunkWords] at h
    cases front with
    | nil =>
      obtain ⟨hv, hback⟩ := List.cons.inj h
      exact ⟨[], [a, b, c, d], rest, rfl, rfl, rfl, hv, hback⟩
    | cons u front =>
      obtain ⟨y, w, z, hrest, hy, hw⟩ := ih (List.cons.inj h).2
      refine ⟨a :: b :: c :: d :: y, w, z, by rw [hrest]; rfl, ?_, hw⟩
      simp only [length_cons]
      omega
  | case2 x hx =>
    have hnil : chunkWords x = [] := by
      unfold chunkWords
      split
      · exact absurd rfl (hx _ _ _ _ _)
      · rfl
    rw [hnil] at h
    simp at h

lemma exists_two_of_ne {α : Type} {l : List α} {v v' : α} (h : v ∈ l) (h' : v' ∈ l)
    (hne : v ≠ v') : ∃ a b front mid back, a ≠ b ∧ l = front ++ a :: (mid ++ b :: back) := by
  obtain ⟨front, back, rfl⟩ := append_of_mem h
  rw [mem_append, mem_cons] at h'
  obtain hfront | rfl | hback := h'
  · obtain ⟨x, y, rfl⟩ := append_of_mem hfront
    exact ⟨v', v, x, y, back, hne.symm, by simp⟩
  · exact absurd rfl hne
  · obtain ⟨x, y, rfl⟩ := append_of_mem hback
    exact ⟨v, v', front, x, y, hne, rfl⟩

lemma exists_swapped {v v' : ℕ} (h : v ∈ chunkWords (block.drop 8))
    (h' : v' ∈ chunkWords (block.drop 8)) (hne : v ≠ v') : ∃ swapped, Swapped (fletcher64Seal block) swapped := by
  obtain ⟨a, b, front, mid, back, hab, hwords⟩ := exists_two_of_ne h h' hne
  obtain ⟨y, w, z, hy, hy4, hw, rfl, hz⟩ := exists_word hwords
  obtain ⟨y', w', z', rfl, hy4', hw', rfl, -⟩ := exists_word hz
  refine ⟨_, leBytes 8 (fletcher64 block) ++ y, w, y', w', z', ?_, rfl, hw, hw', ?_, ?_, ?_, hy4'⟩
  · rw [fletcher64Seal_eq, hy]
    simp only [append_assoc]
  · rintro rfl
    exact hab rfl
  · rw [length_append, length_leBytes]
    omega
  · rw [length_append, length_leBytes]
    omega

/-- A swap is detected where there is nothing to swap. -/
lemma swaps_detected_iff (h8 : 8 ≤ block.length) (h4 : block.length % 4 = 0) :
    (∀ swapped, Swapped (fletcher64Seal block) swapped →
        fletcher64Valid swapped = false ∧ checksumValid swapped = false)
      ↔ ∀ v ∈ chunkWords (block.drop 8), ∀ v' ∈ chunkWords (block.drop 8), v = v' := by
  constructor
  · intro hall v hv v' hv'
    by_contra hne
    obtain ⟨swapped, hswap⟩ := exists_swapped hv hv' hne
    have hvalid := checksumValid_seal h8 h4
    rw [checksumValid_eq, ← fletcher64Valid_swapped hswap, (hall swapped hswap).1] at hvalid
    cases hvalid
  · rintro hall swapped ⟨front, w, mid, w', back, hseal, -, hw, hw', hne, hfront, hfront4, hmid⟩
    refine absurd ?_ hne
    -- the two words are words of the body
    have hwords : chunkWords (block.drop 8) = chunkWords (front.drop 8)
        ++ (chunkWords w ++ (chunkWords mid ++ (chunkWords w' ++ chunkWords back))) := by
      have hdrop : block.drop 8 = front.drop 8 ++ (w ++ (mid ++ (w' ++ back))) := by
        have := congrArg (List.drop 8) hseal
        rwa [fletcher64Seal_eq, drop_append_of_le_length hfront, drop_left' (length_leBytes 8 _)] at this
      rw [hdrop, chunkWords_append _ _ (by rw [length_drop]; omega), chunkWords_append w _ (by omega),
        chunkWords_append _ _ hmid, chunkWords_append w' _ (by omega)]
    rw [chunkWords_word hw, chunkWords_word hw'] at hwords
    have heq : leVal w = leVal w' := hall _ (by simp [hwords]) _ (by simp [hwords])
    rw [← leBytes_leVal w, ← leBytes_leVal w', heq, hw, hw']

/-- What the two checks accept carries the checksum that sealing would store, and every swap of two
different words of a sealed body is detected, exactly for the blocks named on the right: either the
checks refuse the block or its check words are those of its body, and its body has no two different
words. -/
theorem checksum_soundness (block : Bytes) (h8 : 8 ≤ block.length) (h4 : block.length % 4 = 0) :
    ((fletcher64Valid block = true → leAt 8 block 0 = fletcher64 block)
        ∧ (checksumValid block = true → leAt 8 block 0 = fletcher64 block)
        ∧ ∀ swapped, Swapped (fletcher64Seal block) swapped →
            fletcher64Valid swapped = false ∧ checksumValid swapped = false)
      ↔ ((chunkWords block).sum % FLETCHER_MODULUS ≠ 0 ∨ CheckWords block)
        ∧ ∀ v ∈ chunkWords (block.drop 8), ∀ v' ∈ chunkWords (block.drop 8), v = v' := by
  rw [checksumValid_eq block, swaps_detected_iff h8 h4, fletcher64Valid_iff h8 h4, ← and_assoc, and_self]
  refine and_congr_left fun _ => ?_
  by_cases hsum : (chunkWords block).sum % FLETCHER_MODULUS = 0
  · simp only [hsum, stored_eq_iff h8 hsum, ne_eq, not_true_eq_false, false_or, forall_true_left]
  · simp only [hsum, ne_eq, not_false_eq_true, true_or, false_implies]

/-- A sealed block with one word in its body. -/
theorem checksum_soundness_one_word : let block := fletcher64Seal (zeros 8 ++ leBytes 4 7)
  leAt 8 block 0 = fletcher64 block :=
  ((checksum_soundness (fletcher64Seal (zeros 8 ++ leBytes 4 7)) (by decide) (by decide)).mpr
    ⟨.inr ⟨by decide, by decide⟩, by decide⟩).1 (by decide)

/-- Two words of a sealed body swapped: both checks accept the block, whose checksum is wrong. -/
theorem swapped_words_accepted : let sealed := fletcher64Seal (zeros 8 ++ (leBytes 4 1 ++ leBytes 4 2))
  let swapped := sealed.take 8 ++ (leBytes 4 2 ++ leBytes 4 1)
  Swapped sealed swapped ∧ fletcher64Valid swapped = true ∧ checksumValid swapped = true
    ∧ leAt 8 swapped 0 ≠ fletcher64 swapped := by
  refine ⟨⟨_, leBytes 4 1, [], leBytes 4 2, [], ?_, rfl, ?_⟩, ?_⟩ <;> decide

end AppleUtils.Apfs
