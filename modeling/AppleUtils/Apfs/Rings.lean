import AppleUtils.Apfs.VerifySpace
import AppleUtils.Lib.Links

/-! # The ring of the internal pool and the reap list

`verifyIpRing` counts and tests membership; what it accepts is a property of the links
(`RingSound`): the slots that are not live form one list from the head to the tail.  Both directions
are proved (`verifyIpRing_eq_ok`).  Of the reap list the same walk, with a count only, tells that its
free entries form a list that ends (`verifyReapList_sound`). -/

namespace AppleUtils.Apfs

open Bytes Checks Links List

/-- `v` rounded up to a multiple of eight. -/
def roundUp8 (v : ℕ) : ℕ := (v + 7) / 8 * 8

section Ring

variable {sm : Bytes} {sizeInBlocks ringBlocks xid nextOffset tail turns cursor : ℕ}
    {live visited met : List ℕ}

/-- The links of the free chain. -/
def ringNext (sm : Bytes) (nextOffset slot : ℕ) : ℕ := leAt 2 sm (nextOffset + slot * 2)

/-- The slots the live bitmaps name. -/
def ringSlots (sm : Bytes) (bitmapOffset sizeInBlocks : ℕ) : List ℕ :=
  (List.range sizeInBlocks).map fun slot => leAt 2 sm (bitmapOffset + slot * 2)

/-- The arrays lie behind the fixed structure, packed and inside the object. -/
structure RingLayout (sm : Bytes) (sizeInBlocks ringBlocks : ℕ) : Prop where
  holds : 0 < sizeInBlocks ∧ sizeInBlocks ≤ ringBlocks
  fixed : SPACEMAN_STRUCT_SIZE ≤ leAt 4 sm 0x144
  bitmaps : leAt 4 sm 0x148 = roundUp8 (leAt 4 sm 0x144 + sizeInBlocks * 8)
  links : leAt 4 sm 0x14C = roundUp8 (leAt 4 sm 0x148 + sizeInBlocks * 2)
  inside : leAt 4 sm 0x14C + ringBlocks * 2 ≤ sm.length

/-- The live slots are there, once each, not too new and without a link. -/
structure LiveSlots (sm : Bytes) (sizeInBlocks ringBlocks xid : ℕ) (live : List ℕ) : Prop where
  distinct : live.Nodup
  inRange : ∀ slot ∈ live, slot < ringBlocks
  notNewer : ∀ i < sizeInBlocks, leAt 8 sm (leAt 4 sm 0x144 + i * 8) ≤ xid
  unlinked : ∀ slot ∈ live, ringNext sm (leAt 4 sm 0x14C) slot = BTOFF_INVALID

/-- The links from the head meet every slot that is not live, once, and the last one is the tail. -/
structure FreeSlots (sm : Bytes) (ringBlocks : ℕ) (live chain : List ℕ) : Prop where
  links : IsChain (ringNext sm (leAt 4 sm 0x14C)) BTOFF_INVALID (leAt 2 sm 0x140) chain
  once : chain.Nodup
  covers : ∀ slot, slot ∈ chain ↔ slot < ringBlocks ∧ slot ∉ live
  tail : ∀ slot, chain.getLast? = some slot → slot = leAt 2 sm 0x142

structure RingSound (sm : Bytes) (sizeInBlocks ringBlocks xid : ℕ) : Prop where
  layout : RingLayout sm sizeInBlocks ringBlocks
  live : LiveSlots sm sizeInBlocks ringBlocks xid (ringSlots sm (leAt 4 sm 0x148) sizeInBlocks)
  free : ∃ chain, FreeSlots sm ringBlocks (ringSlots sm (leAt 4 sm 0x148) sizeInBlocks) chain

lemma align8_eq_ok {n m : ℕ} : align8 n = .ok m ↔ n + 7 < 2 ^ 32 ∧ roundUp8 n = m := by
  simp only [align8, returns, narrow_eq_ok, roundUp8, and_assoc, exists_and_left, exists_eq_left']

lemma ringLive_foldlM {bitmapOffset xidOffset n : ℕ}
    (hbitmaps : bitmapOffset + n * 2 ≤ sm.length) (hxids : xidOffset + n * 8 ≤ sm.length) :
    (List.range n).foldlM (ringLive sm bitmapOffset xidOffset ringBlocks xid) [] = .ok live ↔
      live = ringSlots sm bitmapOffset n ∧ live.Nodup ∧ (∀ slot ∈ live, slot < ringBlocks)
        ∧ ∀ i < n, leAt 8 sm (xidOffset + i * 8) ≤ xid := by
  induction n generalizing live with
  | zero =>
    rw [range_zero, foldlM_nil, pure_eq_ok]
    constructor
    · rintro rfl
      simp [ringSlots]
    · rintro ⟨rfl, -⟩
      rfl
  | succ n ih =>
    rw [range_succ, foldlM_append, bind_eq_ok]
    simp only [foldlM_cons, foldlM_nil, returns, checks, ringLive]
    have hslots : ringSlots sm bitmapOffset (n + 1) =
        ringSlots sm bitmapOffset n ++ [leAt 2 sm (bitmapOffset + n * 2)] := by simp [ringSlots, range_succ]
    rw [hslots]
    constructor
    · rintro ⟨before, hbefore, _, ⟨_, ⟨-, rfl⟩, hlt, hnew, _, ⟨-, rfl⟩, hxid, rfl⟩, rfl⟩
      obtain ⟨rfl, hnodup, hrange, hxids⟩ := (ih (by omega) (by omega)).mp hbefore
      refine ⟨rfl, ?_, ?_, ?_⟩
      · rw [nodup_append]
        refine ⟨hnodup, nodup_singleton _, fun a ha b hb hab => hnew ?_⟩
        rw [← mem_singleton.mp hb, ← hab]
        exact ha
      · intro slot hslot
        rcases mem_append.mp hslot with hslot | hslot
        · exact hrange slot hslot
        · rw [mem_singleton.mp hslot]
          omega
      · intro i hi
        rcases Nat.lt_succ_iff_lt_or_eq.mp hi with hi | rfl
        · exact hxids i hi
        · omega
    · rintro ⟨rfl, hnodup, hrange, hxid⟩
      obtain ⟨hnodup, -, hnew⟩ := nodup_append.mp hnodup
      refine ⟨_, (ih (by omega) (by omega)).mpr ⟨rfl, hnodup, ?_, ?_⟩, _,
        ⟨_, ⟨by omega, rfl⟩, ?_, ?_, _, ⟨by omega, rfl⟩, ?_, rfl⟩, rfl⟩
      · exact fun slot hslot => hrange slot (mem_append_left _ hslot)
      · exact fun i hi => hxid i (by omega)
      · have := hrange _ (mem_append_right _ (mem_singleton_self _))
        omega
      · exact fun hmem => hnew _ hmem _ (mem_singleton_self _) rfl
      · have := hxid n (by omega)
        omega

/-- The walk along the free chain, from a cursor on. -/
lemma ringChain_eq_ok (hinside : nextOffset + ringBlocks * 2 ≤ sm.length) :
    ringChain sm nextOffset ringBlocks tail live turns visited cursor = .ok met ↔
      ∃ chain, met = visited ++ chain ∧ chain.length < turns
        ∧ IsChain (ringNext sm nextOffset) BTOFF_INVALID cursor chain
        ∧ (∀ slot ∈ chain, slot < ringBlocks ∧ slot ∉ live ∧ slot ∉ visited)
        ∧ ∀ slot, chain.getLast? = some slot → slot = tail := by
  induction turns generalizing visited cursor with
  | zero => simp [ringChain]
  | succ turns ih =>
    rw [ringChain]
    by_cases hend : cursor = BTOFF_INVALID
    · rw [if_pos hend, pure_eq_ok]
      constructor
      · rintro rfl
        exact ⟨[], by simp, by simp, hend, by simp, by simp⟩
      · rintro ⟨chain, rfl, -, hchain, -⟩
        have hnil : IsChain (ringNext sm nextOffset) BTOFF_INVALID cursor [] := hend
        rw [hchain.unique hnil, append_nil]
    · rw [if_neg hend]
      simp only [returns, checks, ih]
      constructor
      · rintro ⟨hlt, hnew, hfree, _, ⟨-, rfl⟩, htail, rest, rfl, hlen, hrest, hslots, hlast⟩
        have hchain : IsChain (ringNext sm nextOffset) BTOFF_INVALID cursor (cursor :: rest) :=
          ⟨rfl, hend, hrest⟩
        refine ⟨cursor :: rest, by simp, by simpa using hlen, hchain, ?_, ?_⟩
        · intro slot hslot
          rcases mem_cons.mp hslot with rfl | hslot
          · exact ⟨by omega, hfree, hnew⟩
          · obtain ⟨h1, h2, h3⟩ := hslots slot hslot
            exact ⟨h1, h2, fun hmem => h3 (mem_append_left _ hmem)⟩
        · intro slot hslot
          cases rest with
          | nil =>
            obtain rfl : cursor = slot := by simpa using hslot
            exact not_not.mp fun hne => htail ⟨hrest, hne⟩
          | cons second rest => exact hlast slot (by simpa using hslot)
      · rintro ⟨chain, rfl, hlen, hchain, hslots, hlast⟩
        have hnodup := hchain.nodup
        cases chain with
        | nil => exact absurd hchain hend
        | cons slot rest =>
          obtain ⟨rfl, -, hrest⟩ := hchain
          obtain ⟨hlt, hfree, hnew⟩ := hslots cursor mem_cons_self
          refine ⟨by omega, hnew, hfree, _, ⟨by omega, rfl⟩, ?_, rest, by simp, by simpa using hlen, hrest, ?_, ?_⟩
          · rintro ⟨hnext, hne⟩
            have hnil : IsChain (ringNext sm nextOffset) BTOFF_INVALID
              (ringNext sm nextOffset cursor) [] := hnext
            rw [hrest.unique hnil] at hlast
            exact hne (hlast cursor rfl)
          · intro slot hslot
            obtain ⟨h1, h2, h3⟩ := hslots slot (mem_cons_of_mem _ hslot)
            refine ⟨h1, h2, fun hmem => ?_⟩
            rcases mem_append.mp hmem with hmem | hmem
            · exact h3 hmem
            · rw [mem_singleton.mp hmem] at hslot
              exact (nodup_cons.mp hnodup).1 hslot
          · intro slot hslot
            cases rest with
            | nil => simp at hslot
            | cons second rest => exact hlast slot (by simpa using hslot)

lemma RingLayout.bounds (h : RingLayout sm sizeInBlocks ringBlocks) :
    SPACEMAN_STRUCT_SIZE ≤ sm.length ∧ leAt 4 sm 0x144 + sizeInBlocks * 8 + 7 < 2 ^ 32
      ∧ leAt 4 sm 0x144 + sizeInBlocks * 8 ≤ sm.length ∧ leAt 4 sm 0x148 + sizeInBlocks * 2 + 7 < 2 ^ 32
      ∧ leAt 4 sm 0x148 + sizeInBlocks * 2 ≤ sm.length := by
  obtain ⟨hholds, hfixed, hbitmaps, hlinks, hinside⟩ := h
  have h1 : leAt 4 sm 0x148 < 2 ^ 32 := leAt_lt 4 sm 0x148
  have h2 : leAt 4 sm 0x14C < 2 ^ 32 := leAt_lt 4 sm 0x14C
  simp only [roundUp8] at hbitmaps hlinks
  omega

lemma verifyIpRing_eq_ok : verifyIpRing sm sizeInBlocks ringBlocks xid = .ok nextOffset ↔
    RingSound sm sizeInBlocks ringBlocks xid ∧ nextOffset = leAt 4 sm 0x14C := by
  simp only [verifyIpRing, returns, checks, narrow_eq_ok, align8_eq_ok, minus_eq_ok, forM_eq_ok]
  constructor
  · rintro ⟨hholds, _, ⟨-, rfl⟩, _, ⟨-, rfl⟩, _, ⟨-, rfl⟩, hfixed, _, ⟨-, rfl⟩, _, ⟨-, rfl⟩, _,
      ⟨-, rfl⟩, hbitmaps, _, ⟨-, rfl⟩, _, ⟨-, rfl⟩, _, ⟨-, rfl⟩, hlinks, hinside, live, hlive, _,
      ⟨-, rfl⟩, _, ⟨-, rfl⟩, met, hmet, _, ⟨-, rfl⟩, hcount, hunlinked, rfl⟩
    have hlayout : RingLayout sm sizeInBlocks ringBlocks :=
      ⟨by omega, by omega, not_not.mp hbitmaps, not_not.mp hlinks, by omega⟩
    obtain ⟨-, -, hxids, -, hslots⟩ := hlayout.bounds
    obtain ⟨rfl, hnodup, hrange, hxid⟩ := (ringLive_foldlM hslots hxids).mp hlive
    obtain ⟨chain, hchainMet, -, hchain, hfree, htail⟩ := (ringChain_eq_ok hlayout.inside).mp hmet
    rw [hchainMet, nil_append] at hcount
    refine ⟨⟨hlayout, ⟨hnodup, hrange, hxid, fun slot hslot => ?_⟩, chain, hchain, hchain.nodup, ?_, htail⟩, rfl⟩
    · obtain ⟨_, ⟨-, rfl⟩, hlink⟩ := hunlinked slot hslot
      exact not_not.mp hlink
    · have hlength : (ringSlots sm (leAt 4 sm 0x148) sizeInBlocks).length = sizeInBlocks := by
        simp [ringSlots]
      have hcover := (covers_iff hnodup hchain.nodup hrange
        fun slot hslot => ⟨(hfree slot hslot).1, (hfree slot hslot).2.1⟩).mp
          (by rw [hlength]; exact not_not.mp hcount)
      exact fun slot => ⟨fun hslot => ⟨(hfree slot hslot).1, (hfree slot hslot).2.1⟩,
        fun hslot => hcover slot hslot.1 hslot.2⟩
  · rintro ⟨⟨hlayout, ⟨hnodup, hrange, hxid, hunlinked⟩, chain, hchain, -, hcovers, htail⟩, rfl⟩
    obtain ⟨hlen, hx32, hxids, hb32, hslots⟩ := hlayout.bounds
    have hstruct : SPACEMAN_STRUCT_SIZE = 2520 := rfl
    obtain ⟨hholds, hfixed, hbitmaps, hlinks, hinside⟩ := hlayout
    have hlength : (ringSlots sm (leAt 4 sm 0x148) sizeInBlocks).length = sizeInBlocks := by simp [ringSlots]
    have hcount := (covers_iff hnodup hchain.nodup hrange
      fun slot hslot => (hcovers slot).mp hslot).mpr
        fun slot hlt hfree => (hcovers slot).mpr ⟨hlt, hfree⟩
    rw [hlength] at hcount
    refine ⟨by omega, _, ⟨by omega, rfl⟩, _, ⟨by omega, rfl⟩, _, ⟨by omega, rfl⟩, by omega, _,
      ⟨by omega, rfl⟩, _, ⟨by omega, rfl⟩, _, ⟨by omega, rfl⟩, not_not.mpr hbitmaps, _,
      ⟨by omega, rfl⟩, _, ⟨by omega, rfl⟩, _, ⟨by omega, rfl⟩, not_not.mpr hlinks, by omega, _,
      (ringLive_foldlM hslots hxids).mpr ⟨rfl, hnodup, hrange, hxid⟩, _, ⟨by omega, rfl⟩, _,
      ⟨by omega, rfl⟩, chain, (ringChain_eq_ok hinside).mpr ⟨chain, rfl, by omega, hchain, ?_,
        htail⟩, _, ⟨by omega, rfl⟩, not_not.mpr hcount, ?_, rfl⟩
    · exact fun slot hslot => ⟨((hcovers slot).mp hslot).1, ((hcovers slot).mp hslot).2, by simp⟩
    · intro slot hslot
      have := hrange slot hslot
      exact ⟨_, ⟨by omega, rfl⟩, not_not.mpr (hunlinked slot hslot)⟩

end Ring

/-! ### The reap list -/

section Reap

variable {bytes : Bytes} {max turns visited cursor length : ℕ}

/-- The links of the free entries. -/
def reapNext (bytes : Bytes) (entry : ℕ) : ℕ := leAt 4 bytes (0x40 + entry * 40)

lemma reapChain_ok (h : reapChain bytes max turns visited cursor = .ok length) :
    ∃ chain, IsChain (reapNext bytes) (2 ^ 32 - 1) cursor chain ∧ (∀ entry ∈ chain, entry < max)
      ∧ length = visited + chain.length := by
  induction turns generalizing visited cursor with
  | zero => cases h
  | succ turns ih =>
    rw [reapChain] at h
    by_cases hend : cursor = 2 ^ 32 - 1
    · rw [if_pos hend, pure_eq_ok] at h
      exact ⟨[], hend, by simp, h.symm⟩
    · rw [if_neg hend] at h
      simp only [returns, checks] at h
      obtain ⟨hlt, _, ⟨-, rfl⟩, h⟩ := h
      obtain ⟨rest, hrest, hentries, rfl⟩ := ih h
      refine ⟨cursor :: rest, ⟨rfl, hend, hrest⟩, ?_, ?_⟩
      · intro entry hentry
        rcases mem_cons.mp hentry with rfl | hentry
        · omega
        · exact hentries entry hentry
      · rw [length_cons]
        omega

lemma verifyReapList_sound {blockSize : ℕ} (h : verifyReapList bytes blockSize = .ok ()) :
    ∃ chain, IsChain (reapNext bytes) (2 ^ 32 - 1) (leAt 4 bytes 0x3C) chain ∧ chain.Nodup
      ∧ (∀ entry ∈ chain, entry < leAt 4 bytes 0x2C) ∧ 0x40 + leAt 4 bytes 0x2C * 40 ≤ blockSize
      ∧ leAt 4 bytes 0x30 ≤ leAt 4 bytes 0x2C ∧ chain.length = leAt 4 bytes 0x2C - leAt 4 bytes 0x30 := by
  simp only [verifyReapList, returns, checks] at h
  obtain ⟨_, ⟨-, rfl⟩, _, ⟨-, rfl⟩, hfits, hcount, _, ⟨-, rfl⟩, met, hmet, hsum⟩ := h
  obtain ⟨chain, hchain, hentries, rfl⟩ := reapChain_ok hmet
  exact ⟨chain, hchain, hchain.nodup, hentries, by omega, by omega, by omega⟩

end Reap

/-- The ring of a space manager, with the sizes it gives for it, is accepted exactly if it is sound;
and a reap list is accepted only if its free entries form a list that ends, inside the array and as
long as the entries not in use. -/
theorem ring_and_reap_list (sm : Bytes) (xid : ℕ) (list : Bytes) (blockSize : ℕ) :
    ((∃ nextOffset, verifyIpRing sm (leAt 4 sm 0xA0) (leAt 4 sm 0xA4) xid = .ok nextOffset) ↔
        RingSound sm (leAt 4 sm 0xA0) (leAt 4 sm 0xA4) xid) ∧ (verifyReapList list blockSize = .ok () →
        ∃ chain, IsChain (reapNext list) (2 ^ 32 - 1) (leAt 4 list 0x3C) chain ∧ chain.Nodup
          ∧ (∀ entry ∈ chain, entry < leAt 4 list 0x2C) ∧ 0x40 + leAt 4 list 0x2C * 40 ≤ blockSize
          ∧ leAt 4 list 0x30 ≤ leAt 4 list 0x2C ∧ chain.length = leAt 4 list 0x2C - leAt 4 list 0x30) := by
  refine ⟨?_, verifyReapList_sound⟩
  simp only [verifyIpRing_eq_ok, exists_and_left, exists_eq, and_true]

/-- A ring of a live slot and two free ones. -/
def smallRing : Bytes :=
  patch (zeros 2544) [(0xA0, leBytes 4 1), (0xA4, leBytes 4 3), (0x140, leBytes 2 1), (0x142, leBytes 2 2),
    (0x144, leBytes 4 2520), (0x148, leBytes 4 2528), (0x14C, leBytes 4 2536), (2536, leBytes 2 0xFFFF),
    (2538, leBytes 2 2), (2540, leBytes 2 0xFFFF)]

/-- A list of one entry, which is free. -/
def smallReapList : Bytes := patch (zeros 104) [(0x2C, leBytes 4 1), (0x40, leBytes 4 (2 ^ 32 - 1))]

theorem ring_and_reap_list_small : RingSound smallRing (leAt 4 smallRing 0xA0) (leAt 4 smallRing 0xA4) 5
    ∧ ∃ chain, IsChain (reapNext smallReapList) (2 ^ 32 - 1) (leAt 4 smallReapList 0x3C) chain
      ∧ chain.length = 1 := by
  obtain ⟨hring, hreap⟩ := ring_and_reap_list smallRing 5 smallReapList 104
  obtain ⟨chain, hchain, -, -, -, -, hlength⟩ := hreap (by decide +kernel)
  refine ⟨hring.mp ⟨2536, by decide +kernel⟩, chain, hchain, ?_⟩
  rw [hlength]
  decide +kernel

end AppleUtils.Apfs
