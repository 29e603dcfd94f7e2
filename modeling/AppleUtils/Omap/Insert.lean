import AppleUtils.Omap.Lookup

/-! # Changing a leaf

What `overwrite_value` and `insert_leaf` do to the bytes of a well-formed leaf.  A new value changes
one entry.  A new entry is followed from the bytes (`Inserted`) to the entries (`Entries`): the
entries before its place stay, those after it are one further up (`lift`), and their keys and values
are where they were. -/

namespace AppleUtils.Omap

open Bytes Checks
open Apfs (fletcher64Seal length_fletcher64Seal leAt_fletcher64Seal slice_fletcher64Seal)

variable {block block' : Bytes} {header : Header} {i j k : ℕ}
    {key : Bytes} {e : Extent} {a left s m : ℕ} {nodeXid : BitVec 64} {value : Bytes}

/-! ### A new value -/

section Overwrite

/-- Apart from the value, the checksum and the transaction the block stays as it is. -/
lemma overwrite_frame (h : OmapLeaf block header) (hi : i < header.nkeys) (hvalue : value.length = 16)
    (hok : overwrite i KEY_BYTES value nodeXid block = .ok block') : block'.length = block.length ∧
      block'.slice (header.valueEnd - valueOff block header i) 16 = value ∧
      ∀ s m, 24 ≤ s → (s + m ≤ header.valueEnd - valueOff block header i ∨
        header.valueEnd - valueOff block header i + 16 ≤ s) → block'.slice s m = block.slice s m := by
  obtain ⟨-, htoc, hbase, -, hend, -, -⟩ := h.areas
  have hstart := h.values i hi
  rw [overwrite, bind_ok h.decoded, bind_ok (failIf_eq_ok (u := ()).mpr (not_le.mpr hi)), hvalue,
    show KEY_BYTES = 16 from rfl, bind_ok (h.entryRanges_eq hi)] at hok
  obtain ⟨hwithin, rfl⟩ := puts_eq_ok.mp hok
  refine ⟨length_patch hwithin, ?_, ?_⟩
  · refine slice_patch hwithin ?_
    simp only [lastWrite, XID_OFFSET, length_leBytes]
    rw [if_pos ⟨trivial, hvalue⟩, if_neg (by omega), if_pos (by omega)]
  · intro s m hs haway
    refine slice_patch_of_disjoint hwithin ?_
    simp only [List.forall_mem_cons, XID_OFFSET, length_leBytes, hvalue]
    exact ⟨haway.symm, by omega, by simp⟩

lemma overwrite_spec (h : OmapLeaf block header) (hi : i < header.nkeys) (hvalue : value.length = 16)
    (hok : overwrite i KEY_BYTES value nodeXid block = .ok block') : OmapLeaf (fletcher64Seal block') header ∧
      ∀ j < header.nkeys, storedKey (fletcher64Seal block') header j = storedKey block header j ∧
        storedValue (fletcher64Seal block') header j = if j = i then value else storedValue block header j := by
  obtain ⟨hlength, hwritten, hframe⟩ := overwrite_frame h hi hvalue hok
  have hstart := h.values i hi
  obtain ⟨h56, htoc, hbase, hroom, hend, hentries, -⟩ := h.areas
  have hslice : ∀ s m, 24 ≤ s → (s + m ≤ header.valueEnd - valueOff block header i ∨
      header.valueEnd - valueOff block header i + 16 ≤ s) →
        (fletcher64Seal block').slice s m = block.slice s m := by
    intro s m hs haway
    rw [slice_fletcher64Seal (by omega), hframe s m hs haway]
  have hnumber : ∀ s m, 24 ≤ s → (s + m ≤ header.valueEnd - valueOff block header i ∨
      header.valueEnd - valueOff block header i + 16 ≤ s) → leAt m (fletcher64Seal block') s = leAt m block s := by
    intro s m hs haway
    rw [leAt, hslice s m hs haway, leAt]
  have hlen : (fletcher64Seal block').length = block.length := by
    rw [length_fletcher64Seal (by omega), hlength]
  have hkeyOff : ∀ j < header.nkeys, keyOff (fletcher64Seal block') header j = keyOff block header j :=
    fun j hj => hnumber _ _ (by omega) (by omega)
  have hvalueOff : ∀ j < header.nkeys, valueOff (fletcher64Seal block') header j = valueOff block header j :=
    fun j hj => hnumber _ _ (by omega) (by omega)
  have hkeys : ∀ j < header.nkeys, storedKey (fletcher64Seal block') header j = storedKey block header j := by
    intro j hj
    rw [storedKey, hkeyOff j hj]
    exact hslice _ _ (by omega) (h.below j hj i hi)
  obtain ⟨hd, hheader⟩ := decodeHeader_eq_ok.mp h.decoded
  have hsame : SameHeader block (fletcher64Seal block') :=
    ⟨hlen, hnumber _ _ (by decide) (.inl (by simp only [FLAGS_OFFSET]; omega)),
      hnumber _ _ (by decide) (.inl (by simp only [TOC_OFF_OFFSET]; omega)),
      hnumber _ _ (by decide) (.inl (by simp only [TOC_LEN_OFFSET]; omega))⟩
  have hfield : ∀ s m, 32 ≤ s → s + m ≤ 56 → leAt m (fletcher64Seal block') s = leAt m block s :=
    fun s m hs hm => hnumber s m (by omega) (.inl (by omega))
  have hheader' : header = headerOf (fletcher64Seal block') := by
    rw [hheader]
    simp only [headerOf, hlen, hsame.flags, hsame.tocOff, hsame.tocLen,
      hfield NKEYS_OFFSET 4 (by decide) (by decide), hfield FREE_SPACE_OFFSET 2 (by decide) (by decide),
      hfield (FREE_SPACE_OFFSET + 2) 2 (by decide) (by decide),
      hfield (KEY_FREE_LIST_OFFSET + 2) 2 (by decide) (by decide),
      hfield (VAL_FREE_LIST_OFFSET + 2) 2 (by decide) (by decide)]
  refine ⟨⟨decodeHeader_eq_ok.mpr ⟨?_, hheader'⟩, ?_, ?_, ?_, ?_, ?_, ?_, ?_, ?_⟩, ?_⟩
  · refine hsame.decodes hd ?_
    rw [hfield NKEYS_OFFSET 4 (by decide) (by decide)]
    exact hd.toc
  · rw [hlen]
    exact h.small
  · rw [hlen]
    exact h.root
  · rw [hlen, ← h.counted, h.areas.countAt]
    exact hnumber _ _ (by omega) (.inr (by omega))
  · intro j hj
    rw [hkeyOff j hj]
    exact h.keys j hj
  · intro j hj
    rw [hvalueOff j hj]
    exact h.values j hj
  · intro j k hjk hk
    rw [hkeys j (by omega), hkeys k hk]
    exact h.sorted j k hjk hk
  · intro j hj k hk hjk
    rw [hvalueOff j hj, hvalueOff k hk]
    exact h.apart j hj k hk hjk
  · intro j hj k hk
    rw [hkeyOff j hj, hvalueOff k hk]
    exact h.below j hj k hk
  · intro j hj
    refine ⟨hkeys j hj, ?_⟩
    rw [storedValue, hvalueOff j hj]
    split_ifs with hji
    · rw [hji, slice_fletcher64Seal (by omega), hwritten]
    · have := h.apart j hj i hi hji
      have := h.values j hj
      exact hslice _ _ (by omega) (by omega)

end Overwrite

/-! ### The place of a new entry -/

/-- What the first loop of `insert_leaf` has found out after `k` entries. -/
structure Measured (block : Bytes) (header : Header) (r k : ℕ) (e : Extent) : Prop where
  keys : ∀ i < k, keyOff block header i + 16 ≤ e.keyHigh
  values : ∀ i < k, valueOff block header i ≤ e.valueHigh
  place : (e.insertAt = header.nkeys ∧ ∀ i < k, rank (storedKey block header i) < r) ∨
    (e.insertAt < k ∧ (∀ i < e.insertAt, rank (storedKey block header i) < r) ∧
      r < rank (storedKey block header e.insertAt))

lemma Measured.step {e' : Extent} (h : OmapLeaf block header)
    (hkey : key.length = 16) (hk : k < header.nkeys) (hm : Measured block header (rank key) k e)
    (hok : measure block header key 16 compareKeys e k = .ok e') : Measured block header (rank key) (k + 1) e' := by
  rw [measure, bind_ok (h.tocEntry_eq hk), hkey] at hok
  dsimp only at hok
  have hkeys : ∀ i < k + 1, keyOff block header i + 16 ≤ max e.keyHigh (keyOff block header k + 16) := by
    intro i hi
    by_cases hik : i = k
    · rw [hik]
      exact le_max_right _ _
    · exact (hm.keys i (by omega)).trans (le_max_left _ _)
  have hvalues : ∀ i < k + 1, valueOff block header i ≤ max e.valueHigh (valueOff block header k) := by
    intro i hi
    by_cases hik : i = k
    · rw [hik]
      exact le_max_right _ _
    · exact (hm.values i (by omega)).trans (le_max_left _ _)
  split_ifs at hok with hnone
  · have hless : ∀ i < k, rank (storedKey block header i) < rank key := by
      rcases hm.place with ⟨-, hless⟩ | ⟨hlt, -, -⟩
      · exact hless
      · omega
    rw [bind_ok (h.entryRanges_eq hk)] at hok
    dsimp only at hok
    rw [bind_ok (h.storedKey_eq hk), compareKeys_eq] at hok
    rcases lt_trichotomy (rank (storedKey block header k)) (rank key) with hlt | heq | hgt
    · rw [Nat.compare_eq_lt.mpr hlt] at hok
      cases hok
      refine ⟨hkeys, hvalues, .inl ⟨hnone, fun i hi => ?_⟩⟩
      by_cases hik : i = k
      · exact hik ▸ hlt
      · exact hless i (by omega)
    · rw [Nat.compare_eq_eq.mpr heq] at hok
      cases hok
    · rw [Nat.compare_eq_gt.mpr hgt] at hok
      cases hok
      exact ⟨hkeys, hvalues, .inr ⟨Nat.lt_succ_self k, hless, hgt⟩⟩
  · cases hok
    rcases hm.place with ⟨hall, -⟩ | ⟨hlt, hbefore, hafter⟩
    · exact absurd hall hnone
    · exact ⟨hkeys, hvalues, .inr ⟨Nat.lt_succ_of_lt hlt, hbefore, hafter⟩⟩

lemma measured (h : OmapLeaf block header) (hkey : key.length = 16) (hk : k ≤ header.nkeys)
    (hok : (List.range k).foldlM (measure block header key 16 compareKeys) ⟨header.nkeys, 0, 0⟩ = .ok e) :
    Measured block header (rank key) k e := by
  refine Checks.foldlM_range_ok (I := Measured block header (rank key))
    (fun i _ _ hi hmeasured hstep => ?_) ?_ hok
  · exact hmeasured.step h hkey (by omega) hstep
  · exact ⟨fun i hi => absurd hi (by omega), fun i hi => absurd hi (by omega),
      .inl ⟨rfl, fun i hi => absurd hi (by omega)⟩⟩

/-- The keys before the place are less, those after it are greater. -/
lemma Measured.split {r : ℕ} (hm : Measured block header r header.nkeys e)
    (h : OmapLeaf block header) : e.insertAt ≤ header.nkeys ∧
      (∀ i < e.insertAt, rank (storedKey block header i) < r) ∧
        ∀ i < header.nkeys, e.insertAt ≤ i → r < rank (storedKey block header i) := by
  rcases hm.place with ⟨hall, hless⟩ | ⟨hlt, hbefore, hafter⟩
  · exact ⟨hall.le, fun i hi => hless i (by omega), fun i hi hge => by omega⟩
  · refine ⟨hlt.le, hbefore, fun i hi hge => ?_⟩
    rcases Nat.eq_or_lt_of_le hge with heq | hgt
    · exact heq ▸ hafter
    · exact hafter.trans (h.sorted _ i hgt hi)

/-! ### The table of contents moves up -/

lemma leBytes_leAt (hi : i + k ≤ block.length) : leBytes k (leAt k block i) = block.slice i k := by
  have := leBytes_leVal (block.slice i k)
  rwa [length_slice hi] at this

lemma shiftEntry_eq (hok : shiftEntry header block i = .ok block') :
    block'.length = block.length ∧ ∀ p, block'[p]? = if header.toc + (i + 1) * 4 ≤ p ∧ p < header.toc + (i + 2) * 4
        then block[p - 4]? else block[p]? := by
  simp only [shiftEntry, tocEntry, returns, number_eq_ok, TOC_ENTRY_BYTES] at hok
  obtain ⟨_, ⟨_, ⟨hkey, rfl⟩, _, ⟨hvalue, rfl⟩, rfl⟩, hputs⟩ := hok
  obtain ⟨hwithin, rfl⟩ := puts_eq_ok.mp hputs
  refine ⟨length_patch hwithin, fun p => ?_⟩
  simp only [within_cons, length_leBytes] at hwithin
  have hkeyBytes := leBytes_leAt hkey
  have hvalueBytes := leBytes_leAt hvalue
  simp only [patch_cons, patch_nil, hkeyBytes, hvalueBytes]
  have hlength : (block.slice (header.toc + i * 4) 2).length = 2 := length_slice hkey
  have hlength' : (block.slice (header.toc + i * 4 + 2) 2).length = 2 := length_slice hvalue
  rw [getElem?_splice (by rw [length_splice (by omega)]; omega), getElem?_splice (by omega), hlength,
    hlength', getElem?_slice, getElem?_slice]
  split_ifs <;> first | rfl | omega | (congr 1; omega)

lemma shiftFrom_eq (hok : shiftFrom header a left block = .ok block') : block'.length = block.length ∧
    ∀ p, block'[p]? = if header.toc + (a + 1) * 4 ≤ p ∧ p < header.toc + (a + left + 1) * 4
      then block[p - 4]? else block[p]? := by
  induction left generalizing block with
  | zero =>
    cases hok
    refine ⟨rfl, fun p => ?_⟩
    rw [if_neg (by omega)]
  | succ left ih =>
    obtain ⟨b, hstep, hrest⟩ := bind_eq_ok.mp hok
    obtain ⟨hlength, hget⟩ := shiftEntry_eq hstep
    obtain ⟨hlength', hget'⟩ := ih hrest
    refine ⟨hlength'.trans hlength, fun p => ?_⟩
    rw [hget', hget, hget]
    -- the entries still to move are below the one that has moved
    split_ifs <;> first | rfl | omega

lemma slice_shiftFrom (hok : shiftFrom header a left block = .ok block')
    (haway : s + m ≤ header.toc + (a + 1) * 4 ∨ header.toc + (a + left + 1) * 4 ≤ s) :
    block'.slice s m = block.slice s m := by
  refine slice_ext fun p hp => ?_
  rw [(shiftFrom_eq hok).2, if_neg (by omega)]

lemma slice_shifted (hok : shiftFrom header a left block = .ok block')
    (hlow : a ≤ i) (hhigh : i < a + left) (hs : s + m ≤ 4) :
    block'.slice (header.toc + (i + 1) * 4 + s) m = block.slice (header.toc + i * 4 + s) m := by
  refine slice_ext fun p hp => ?_
  rw [(shiftFrom_eq hok).2, if_pos (by omega)]
  congr 1
  omega

/-! ### A new entry -/

/-- A block with one entry more than another, at `a`; the key is `K` bytes above the start of the
keys, the value `V + 16` bytes below the end of the values. -/
structure Inserted (block : Bytes) (header : Header) (key value : Bytes) (a K V : ℕ) (block' : Bytes) :
    Prop where
  length : block'.length = block.length
  fields : ∀ s m, 24 ≤ s → s + m ≤ 36 ∨ 40 ≤ s ∧ s + m ≤ 44 ∨ 48 ≤ s ∧ s + m ≤ 56 →
    block'.slice s m = block.slice s m
  nkeys : leAt 4 block' NKEYS_OFFSET = header.nkeys + 1
  counted : leAt 8 block' (header.valueEnd + 24) = header.nkeys + 1
  newKeyOff : leAt 2 block' (header.toc + a * 4) = K
  newValueOff : leAt 2 block' (header.toc + a * 4 + 2) = V + 16
  before : ∀ i < a, ∀ s m, s + m ≤ 4 →
    block'.slice (header.toc + i * 4 + s) m = block.slice (header.toc + i * 4 + s) m
  after : ∀ i < header.nkeys, a ≤ i → ∀ s m, s + m ≤ 4 →
    block'.slice (header.toc + (i + 1) * 4 + s) m = block.slice (header.toc + i * 4 + s) m
  data : ∀ s, header.keyBase ≤ s → s + 16 ≤ header.keyBase + K ∨
    header.valueEnd - V ≤ s ∧ s + 16 ≤ header.valueEnd → block'.slice s 16 = block.slice s 16
  newKey : block'.slice (header.keyBase + K) 16 = key
  newValue : block'.slice (header.valueEnd - (V + 16)) 16 = value

/-- The checks that an insertion passes. -/
structure Fits (block : Bytes) (header : Header) (r a K V : ℕ) : Prop where
  place : a ≤ header.nkeys
  less : ∀ i < a, rank (storedKey block header i) < r
  greater : ∀ i < header.nkeys, a ≤ i → r < rank (storedKey block header i)
  keys : ∀ i < header.nkeys, keyOff block header i + 16 ≤ K
  values : ∀ i < header.nkeys, valueOff block header i ≤ V
  toc : (header.nkeys + 1) * 4 ≤ header.tocLen
  room : header.keyBase + K + 16 + (V + 16) ≤ header.valueEnd

/-- The writes after the entries have moved up. -/
def headWrites (header : Header) (nodeXid : BitVec 64) (a K V : ℕ) : List (ℕ × Bytes) :=
  [(header.toc + a * 4, leBytes 2 K), (header.toc + a * 4 + 2, leBytes 2 (V + 16)),
    (NKEYS_OFFSET, leBytes 4 (header.nkeys + 1)), (XID_OFFSET, leBytes 8 nodeXid.toNat),
    (FREE_SPACE_OFFSET, leBytes 2 (K + 16)),
    (FREE_SPACE_OFFSET + 2, leBytes 2 (header.valueEnd - header.keyBase - (K + 16) - (V + 16)))]

section HeadWrites

variable {b : Bytes} {K V : ℕ}

section

variable (hw : Within b.length (headWrites header nodeXid a K V))

include hw

lemma slice_headWrites (hs : 24 ≤ s) (hfield : s + m ≤ 36 ∨ 40 ≤ s ∧ s + m ≤ 44 ∨ 48 ≤ s)
    (hentry : s + m ≤ header.toc + a * 4 ∨ header.toc + a * 4 + 4 ≤ s) :
    (patch b (headWrites header nodeXid a K V)).slice s m = b.slice s m := by
  refine slice_patch_of_disjoint hw ?_
  simp only [headWrites, List.forall_mem_cons, length_leBytes, NKEYS_OFFSET, XID_OFFSET, FREE_SPACE_OFFSET]
  exact ⟨by omega, by omega, by omega, by omega, by omega, by omega, by simp⟩

lemma nkeys_headWrites (hnkeys : header.nkeys + 1 < 256 ^ 4) :
    leAt 4 (patch b (headWrites header nodeXid a K V)) NKEYS_OFFSET = header.nkeys + 1 := by
  refine leAt_patch hw ?_ hnkeys
  -- what was written before it does not matter
  simp [headWrites, lastWrite, NKEYS_OFFSET, XID_OFFSET, FREE_SPACE_OFFSET]

lemma keyOff_headWrites (htoc : 56 ≤ header.toc) (hK : K < 256 ^ 2) :
    leAt 2 (patch b (headWrites header nodeXid a K V)) (header.toc + a * 4) = K := by
  refine leAt_patch hw ?_ hK
  simp only [headWrites, lastWrite, length_leBytes, NKEYS_OFFSET, XID_OFFSET, FREE_SPACE_OFFSET]
  rw [if_pos ⟨trivial, trivial⟩, if_neg (by omega), if_pos (by omega), if_neg (by omega),
    if_pos (by omega), if_neg (by omega), if_pos (by omega), if_neg (by omega), if_pos (by omega),
    if_neg (by omega), if_pos (by omega)]

lemma valueOff_headWrites (htoc : 56 ≤ header.toc) (hV : V + 16 < 256 ^ 2) :
    leAt 2 (patch b (headWrites header nodeXid a K V)) (header.toc + a * 4 + 2) = V + 16 := by
  refine leAt_patch hw ?_ hV
  simp only [headWrites, lastWrite, length_leBytes, NKEYS_OFFSET, XID_OFFSET, FREE_SPACE_OFFSET]
  rw [if_neg (by omega), if_pos (by omega), if_pos ⟨trivial, trivial⟩, if_neg (by omega),
    if_pos (by omega), if_neg (by omega), if_pos (by omega), if_neg (by omega), if_pos (by omega),
    if_neg (by omega), if_pos (by omega)]

end

end HeadWrites

lemma insert_steps (h : OmapLeaf block header) (hkey : key.length = 16) (hvalue : value.length = 16)
    (hok : insert key value nodeXid compareKeys block = .ok block') :
    ∃ a K V b₁ b₂ b₃, Fits block header (rank key) a K V ∧
      puts block [(header.keyBase + K, key), (header.valueEnd - (V + 16), value)] = .ok b₁ ∧
      shiftFrom header a (header.nkeys - a) b₁ = .ok b₂ ∧ puts b₂ (headWrites header nodeXid a K V) = .ok b₃ ∧
      puts b₃ [(header.valueEnd + 24,
        leBytes 8 (min (leAt 8 b₃ (header.valueEnd + 24) + 1) (2 ^ 64 - 1)))] = .ok block' := by
  have hroom := h.areas.room
  have hcountAt := h.areas.countAt
  rw [insert, bind_ok h.decoded, hvalue] at hok
  simp only [returns, not_or, not_lt] at hok
  simp only [hkey, TOC_ENTRY_BYTES] at hok
  obtain ⟨⟨a, K, V⟩, hmeasure, _, hfree, _, htocLen, _, hvalueRoom, _, hkeyRoom, b₁, hb₁, b₂, hb₂, b₃, hb₃,
    hcount⟩ := hok
  have hm := measured h hkey le_rfl hmeasure
  obtain ⟨hplace, hless, hgreater⟩ := hm.split h
  dsimp only at hvalueRoom hkeyRoom
  rw [countKey, h.root] at hcount
  simp only [returns, number_eq_ok, hcountAt] at hcount
  obtain ⟨_, -, _, ⟨-, rfl⟩, hputs⟩ := hcount
  exact ⟨a, K, V, b₁, b₂, b₃, ⟨hplace, hless, hgreater, hm.keys, hm.values, htocLen, by omega⟩, hb₁, hb₂, hb₃,
    hputs⟩

lemma insert_inserted (h : OmapLeaf block header) (hkey : key.length = 16) (hvalue : value.length = 16)
    (hok : insert key value nodeXid compareKeys block = .ok block') :
    ∃ a K V, Fits block header (rank key) a K V ∧ Inserted block header key value a K V block' := by
  obtain ⟨h56, htoc, hbase, hroom, hend, hentries, -⟩ := h.areas
  have hsmall := h.small
  obtain ⟨a, K, V, b₁, b₂, b₃, hfits, hb₁, hb₂, hb₃, hb₄⟩ := insert_steps h hkey hvalue hok
  have hfit := hfits.room
  have htocLen := hfits.toc
  have hplace := hfits.place
  obtain ⟨hw₁, rfl⟩ := puts_eq_ok.mp hb₁
  obtain ⟨hw₃, rfl⟩ := puts_eq_ok.mp hb₃
  obtain ⟨hw₄, rfl⟩ := puts_eq_ok.mp hb₄
  -- what each step leaves alone
  have frame₁ : ∀ s m, s + m ≤ header.keyBase + K ∨ header.valueEnd - V ≤ s →
      (patch block [(header.keyBase + K, key), (header.valueEnd - (V + 16), value)]).slice s m =
        block.slice s m := by
    intro s m haway
    refine slice_patch_of_disjoint hw₁ ?_
    simp only [List.forall_mem_cons, hkey, hvalue]
    exact ⟨by omega, by omega, by simp⟩
  have frame₃ : ∀ s m, 24 ≤ s → s + m ≤ 36 ∨ 40 ≤ s ∧ s + m ≤ 44 ∨ 48 ≤ s →
      s + m ≤ header.toc + a * 4 ∨ header.toc + a * 4 + 4 ≤ s →
      (patch b₂ (headWrites header nodeXid a K V)).slice s m = b₂.slice s m :=
    fun s m hs hfield hentry => slice_headWrites hw₃ hs hfield hentry
  have hlength : (patch b₂ (headWrites header nodeXid a K V)).length = block.length := by
    rw [length_patch hw₃, (shiftFrom_eq hb₂).1, length_patch hw₁]
  generalize hb : patch b₂ (headWrites header nodeXid a K V) = b₃ at *
  have frame₄ : ∀ s m, s + m ≤ header.valueEnd → (patch b₃ [(header.valueEnd + 24,
        leBytes 8 (min (leAt 8 b₃ (header.valueEnd + 24) + 1) (2 ^ 64 - 1)))]).slice s m = b₃.slice s m := by
    intro s m hs
    refine slice_patch_of_disjoint hw₄ ?_
    simp only [List.forall_mem_cons, length_leBytes]
    exact ⟨by omega, by simp⟩
  have hcount : leAt 8 b₃ (header.valueEnd + 24) = header.nkeys := by
    rw [leAt, frame₃ _ _ (by omega) (by omega) (by omega), slice_shiftFrom hb₂ (by omega),
      frame₁ _ _ (by omega), ← leAt, ← h.areas.countAt, h.counted]
  have hmin : min (leAt 8 b₃ (header.valueEnd + 24) + 1) (2 ^ 64 - 1) = header.nkeys + 1 := by
    have hle : header.nkeys + 1 ≤ 65536 := by omega
    rw [hcount]
    exact min_eq_left (hle.trans (by norm_num))
  rw [hmin] at hw₄ frame₄ ⊢
  clear hmin
  have hfront : ∀ s m, 24 ≤ s → s + m ≤ 36 ∨ 40 ≤ s ∧ s + m ≤ 44 ∨ 48 ≤ s →
      s + m ≤ header.toc + a * 4 → (patch b₃ [(header.valueEnd + 24, leBytes 8 (header.nkeys + 1))]).slice s m =
        block.slice s m := by
    intro s m hs hfield hbefore
    rw [frame₄ _ _ (by omega), frame₃ _ _ hs hfield (.inl hbefore), slice_shiftFrom hb₂ (.inl (by omega)),
      frame₁ _ _ (.inl (by omega))]
  have hdata : ∀ s m, header.keyBase ≤ s → s + m ≤ header.valueEnd →
      (patch b₃ [(header.valueEnd + 24, leBytes 8 (header.nkeys + 1))]).slice s m =
        (patch block [(header.keyBase + K, key), (header.valueEnd - (V + 16), value)]).slice s m := by
    intro s m hs hend'
    rw [frame₄ _ _ hend', frame₃ _ _ (by omega) (by omega) (.inr (by omega)), slice_shiftFrom hb₂ (.inr (by omega))]
  refine ⟨a, K, V, hfits, ?_⟩
  constructor
  case length => rw [length_patch hw₄, hlength]
  case fields => exact fun s m hs hfield => hfront s m hs (by omega) (by omega)
  case nkeys =>
    rw [leAt, frame₄ _ _ (by simp only [NKEYS_OFFSET]; omega), ← leAt, ← hb]
    exact nkeys_headWrites hw₃ (by omega)
  case counted =>
    refine leAt_patch hw₄ ?_ (by omega)
    simp only [lastWrite, length_leBytes]
    rw [if_pos ⟨trivial, trivial⟩]
  case newKeyOff =>
    rw [leAt, frame₄ _ _ (by omega), ← leAt, ← hb]
    exact keyOff_headWrites hw₃ htoc (by omega)
  case newValueOff =>
    rw [leAt, frame₄ _ _ (by omega), ← leAt, ← hb]
    exact valueOff_headWrites hw₃ htoc (by omega)
  case before => exact fun i hi s m hs => hfront _ m (by omega) (by omega) (by omega)
  case after =>
    intro i hi hge s m hs
    rw [frame₄ _ _ (by omega), frame₃ _ _ (by omega) (by omega) (.inr (by omega)),
      slice_shifted hb₂ hge (by omega) hs, frame₁ _ _ (.inl (by omega))]
  case data =>
    intro s hs haway
    rw [hdata _ _ hs (by omega), frame₁ _ _ (by omega)]
  case newKey =>
    rw [hdata _ _ (by omega) (by omega)]
    refine slice_patch hw₁ ?_
    simp only [lastWrite, hvalue, hkey]
    rw [if_pos ⟨trivial, trivial⟩, if_neg (by omega), if_pos (by omega)]
  case newValue =>
    rw [hdata _ _ (by omega) (by omega)]
    refine slice_patch hw₁ ?_
    simp only [lastWrite, hvalue, hkey]
    rw [if_neg (by omega), if_pos (by omega), if_pos ⟨trivial, trivial⟩]

/-- Where an entry is after an insertion at `a`. -/
def lift (a i : ℕ) : ℕ := if i < a then i else i + 1

lemma eq_or_lift (ha : a ≤ m) (hj : j < m + 1) : j = a ∨ ∃ i < m, j = lift a i := by
  unfold lift
  rcases lt_trichotomy j a with hlt | heq | hgt
  · exact .inr ⟨j, by omega, (if_pos hlt).symm⟩
  · exact .inl heq
  · exact .inr ⟨j - 1, by omega, by rw [if_neg (by omega)]; omega⟩

section Insert

variable {K V : ℕ}

section inserted

variable (h : Inserted block header key value a K V block')
include h

lemma Inserted.sealed (hareas : Areas block header) (hfits : Fits block header (rank key) a K V) :
    Inserted block header key value a K V (fletcher64Seal block') := by
  obtain ⟨h56, htoc, hbase, hroom, hend, hentries, -⟩ := hareas
  have hfit := hfits.room
  constructor
  case length => rw [length_fletcher64Seal (by rw [h.length]; omega), h.length]
  case fields =>
    intro s m hs hfield
    rw [slice_fletcher64Seal (by omega), h.fields s m hs hfield]
  case nkeys => rw [leAt_fletcher64Seal (by decide), h.nkeys]
  case counted => rw [leAt_fletcher64Seal (by omega), h.counted]
  case newKeyOff => rw [leAt_fletcher64Seal (by omega), h.newKeyOff]
  case newValueOff => rw [leAt_fletcher64Seal (by omega), h.newValueOff]
  case before =>
    intro i hi s m hs
    rw [slice_fletcher64Seal (by omega), h.before i hi s m hs]
  case after =>
    intro i hi hge s m hs
    rw [slice_fletcher64Seal (by omega), h.after i hi hge s m hs]
  case data =>
    intro s hs haway
    rw [slice_fletcher64Seal (by omega), h.data s hs haway]
  case newKey => rw [slice_fletcher64Seal (by omega), h.newKey]
  case newValue => rw [slice_fletcher64Seal (by omega), h.newValue]

lemma Inserted.sameHeader : SameHeader block block' where
  length := h.length
  flags := congrArg leVal (h.fields 32 2 (by omega) (by omega))
  tocOff := congrArg leVal (h.fields 40 2 (by omega) (by omega))
  tocLen := congrArg leVal (h.fields 42 2 (by omega) (by omega))

/-- The header of the block with the new entry. -/
structure Follows (header header' : Header) : Prop where
  nkeys : header'.nkeys = header.nkeys + 1
  toc : header'.toc = header.toc
  keyBase : header'.keyBase = header.keyBase
  valueEnd : header'.valueEnd = header.valueEnd
  infoAt : header'.infoAt = header.infoAt

lemma Inserted.follows (hleaf : OmapLeaf block header) : Follows header (headerOf block') := by
  obtain ⟨-, rfl⟩ := decodeHeader_eq_ok.mp hleaf.decoded
  have hsame := h.sameHeader
  constructor
  case nkeys => exact h.nkeys
  all_goals simp only [headerOf, hsame.length, hsame.flags, hsame.tocOff, hsame.tocLen]

/-- What the entries of the new block are. -/
structure Entries (block : Bytes) (header : Header) (key value : Bytes) (a K V : ℕ) (block' : Bytes)
    (header' : Header) : Prop where
  keyOff : ∀ i < header.nkeys, keyOff block' header' (lift a i) = Omap.keyOff block header i
  valueOff : ∀ i < header.nkeys, valueOff block' header' (lift a i) = Omap.valueOff block header i
  storedKey : ∀ i < header.nkeys, storedKey block' header' (lift a i) = Omap.storedKey block header i
  storedValue : ∀ i < header.nkeys, storedValue block' header' (lift a i) = Omap.storedValue block header i
  newKeyOff : Omap.keyOff block' header' a = K
  newValueOff : Omap.valueOff block' header' a = V + 16
  newKey : Omap.storedKey block' header' a = key
  newValue : Omap.storedValue block' header' a = value

lemma Inserted.entries {header' : Header} (hleaf : OmapLeaf block header) (hfits : Fits block header (rank key) a K V)
    (hfollows : Follows header header') : Entries block header key value a K V block' header' := by
  have hentry : ∀ i < header.nkeys, ∀ s m, s + m ≤ 4 →
      block'.slice (header.toc + lift a i * 4 + s) m = block.slice (header.toc + i * 4 + s) m := by
    intro i hi s m hs
    unfold lift
    split_ifs with hia
    · exact h.before i hia s m hs
    · exact h.after i hi (by omega) s m hs
  have hkeyOff : ∀ i < header.nkeys, Omap.keyOff block' header' (lift a i) = Omap.keyOff block header i := by
    intro i hi
    rw [Omap.keyOff, hfollows.toc]
    exact congrArg leVal (hentry i hi 0 2 (by omega))
  have hvalueOff : ∀ i < header.nkeys, Omap.valueOff block' header' (lift a i) = Omap.valueOff block header i := by
    intro i hi
    rw [Omap.valueOff, hfollows.toc]
    exact congrArg leVal (hentry i hi 2 2 (by omega))
  have hnewKeyOff : Omap.keyOff block' header' a = K := by rw [Omap.keyOff, hfollows.toc, h.newKeyOff]
  have hnewValueOff : Omap.valueOff block' header' a = V + 16 := by
    rw [Omap.valueOff, hfollows.toc, h.newValueOff]
  refine ⟨hkeyOff, hvalueOff, ?_, ?_, hnewKeyOff, hnewValueOff, ?_, ?_⟩
  · intro i hi
    have := hfits.keys i hi
    rw [Omap.storedKey, hkeyOff i hi, hfollows.keyBase]
    exact h.data _ (by omega) (.inl (by omega))
  · intro i hi
    have := hfits.values i hi
    have := hleaf.values i hi
    rw [Omap.storedValue, hvalueOff i hi, hfollows.valueEnd]
    exact h.data _ (by omega) (.inr (by omega))
  · rw [Omap.storedKey, hnewKeyOff, hfollows.keyBase, h.newKey]
  · rw [Omap.storedValue, hnewValueOff, hfollows.valueEnd, h.newValue]

lemma Inserted.omapLeaf (hleaf : OmapLeaf block header) (hfits : Fits block header (rank key) a K V) :
    OmapLeaf block' (headerOf block') := by
  have hfollows := h.follows hleaf
  have he := h.entries hleaf hfits hfollows
  have hroom := hfits.room
  have hareas := hleaf.areas
  obtain ⟨hd, hheader⟩ := decodeHeader_eq_ok.mp hleaf.decoded
  have hcases : ∀ j < (headerOf block').nkeys, j = a ∨ ∃ i < header.nkeys, j = lift a i := by
    intro j hj
    rw [hfollows.nkeys] at hj
    exact eq_or_lift hfits.place hj
  constructor
  case decoded =>
    refine decodeHeader_eq_ok.mpr ⟨h.sameHeader.decodes hd ?_, rfl⟩
    rw [h.nkeys, ← hheader]
    exact hfits.toc
  case small =>
    rw [h.length]
    exact hleaf.small
  case root =>
    rw [hfollows.infoAt, h.length]
    exact hleaf.root
  case counted => rw [h.length, hareas.countAt, h.counted, hfollows.nkeys]
  case keys =>
    intro j hj
    rw [hfollows.keyBase, hfollows.valueEnd]
    rcases hcases j hj with rfl | ⟨i, hi, rfl⟩
    · rw [he.newKeyOff]
      omega
    · rw [he.keyOff i hi]
      exact hleaf.keys i hi
  case values =>
    intro j hj
    rw [hfollows.keyBase, hfollows.valueEnd]
    rcases hcases j hj with rfl | ⟨i, hi, rfl⟩
    · rw [he.newValueOff]
      omega
    · rw [he.valueOff i hi]
      exact hleaf.values i hi
  case sorted =>
    intro j k hjk hk
    rcases hcases j (by omega) with rfl | ⟨i, hi, rfl⟩ <;>
      rcases hcases k hk with rfl | ⟨i', hi', rfl⟩
    · omega
    · rw [he.newKey, he.storedKey i' hi']
      refine hfits.greater i' hi' ?_
      unfold lift at hjk
      split_ifs at hjk <;> omega
    · rw [he.newKey, he.storedKey i hi]
      refine hfits.less i ?_
      unfold lift at hjk
      split_ifs at hjk <;> omega
    · rw [he.storedKey i hi, he.storedKey i' hi']
      refine hleaf.sorted i i' ?_ hi'
      unfold lift at hjk
      split_ifs at hjk <;> omega
  case apart =>
    intro j hj k hk hjk
    rcases hcases j hj with rfl | ⟨i, hi, rfl⟩ <;> rcases hcases k hk with rfl | ⟨i', hi', rfl⟩
    · exact absurd rfl hjk
    · have := hfits.values i' hi'
      rw [he.newValueOff, he.valueOff i' hi']
      omega
    · have := hfits.values i hi
      rw [he.newValueOff, he.valueOff i hi]
      omega
    · rw [he.valueOff i hi, he.valueOff i' hi']
      exact hleaf.apart i hi i' hi' fun heq => hjk (by rw [heq])
  case below =>
    -- the keys end at `K + 16`, where the values start at the earliest
    intro j hj k hk
    rw [hfollows.keyBase, hfollows.valueEnd]
    rcases hcases j hj with rfl | ⟨i, hi, rfl⟩ <;> rcases hcases k hk with rfl | ⟨i', hi', rfl⟩
    · rw [he.newKeyOff, he.newValueOff]
      omega
    · have := hfits.values i' hi'
      rw [he.newKeyOff, he.valueOff i' hi']
      omega
    · have := hfits.keys i hi
      rw [he.keyOff i hi, he.newValueOff]
      omega
    · rw [he.keyOff i hi, he.valueOff i' hi']
      exact hleaf.below i hi i' hi'

end inserted

end Insert

end AppleUtils.Omap
