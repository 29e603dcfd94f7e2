import AppleUtils.Omap.Insert
import Mathlib.Data.Finset.Card
import Mathlib.Data.Prod.Lex

/-! # The object map is a finite map

A well-formed leaf holds a finite map from (object id, transaction id) to addresses.  A successful
`upsert` changes it at one key, and the leaf stays well formed. -/

namespace AppleUtils.Omap

open Bytes Checks
open Apfs.Repair (Disc)
open Apfs (fletcher64Seal)

variable {block block' : Bytes} {header : Header} {i j : ℕ} {n root : ℕ} {disc disc' : Disc n}
    {oid xid : BitVec 64}

/-! ### What an upsert does to the map -/

lemma maps_overwrite {index : ℕ} (h : OmapLeaf block header) (hi : index < header.nkeys)
    {value : Bytes} (hkeys : ∀ j < header.nkeys, storedKey block' header j = storedKey block header j ∧
      storedValue block' header j = if j = index then value else storedValue block header j)
    (r : ℕ) (paddr : BitVec 64) : Maps block' header r paddr ↔
      if r = rank (storedKey block header index) then BitVec.ofNat 64 (leAt 8 value 8) = paddr
      else Maps block header r paddr := by
  constructor
  · rintro ⟨j, hj, hrank, hpaddr⟩
    rw [(hkeys j hj).1] at hrank
    rw [(hkeys j hj).2] at hpaddr
    by_cases hji : j = index
    · rw [if_pos (by rw [← hrank, hji])]
      rwa [if_pos hji] at hpaddr
    · rw [if_neg fun heq => hji (h.rank_inj hj hi (hrank.trans heq))]
      rw [if_neg hji] at hpaddr
      exact ⟨j, hj, hrank, hpaddr⟩
  · intro hmaps
    split_ifs at hmaps with hr
    · refine ⟨index, hi, ?_, ?_⟩
      · rw [(hkeys index hi).1, hr]
      · rwa [(hkeys index hi).2, if_pos rfl]
    · obtain ⟨j, hj, hrank, hpaddr⟩ := hmaps
      refine ⟨j, hj, ?_, ?_⟩
      · rw [(hkeys j hj).1, hrank]
      · rwa [(hkeys j hj).2, if_neg fun hji => hr (by rw [← hrank, hji])]

lemma maps_insert {key value : Bytes} {a K V : ℕ} {header' : Header}
    (he : Entries block header key value a K V block' header') (hfollows : Follows header header')
    (hfits : Fits block header (rank key) a K V) (r : ℕ) (paddr : BitVec 64) : Maps block' header' r paddr ↔
      if r = rank key then BitVec.ofNat 64 (leAt 8 value 8) = paddr else Maps block header r paddr := by
  have hplace := hfits.place
  have hne : ∀ i < header.nkeys, rank (storedKey block header i) ≠ rank key := by
    intro i hi
    by_cases hia : i < a
    · exact (hfits.less i hia).ne
    · exact (hfits.greater i hi (by omega)).ne'
  constructor
  · rintro ⟨j, hj, hrank, hpaddr⟩
    rw [hfollows.nkeys] at hj
    rcases eq_or_lift hplace hj with rfl | ⟨i, hi, rfl⟩
    · rw [he.newKey] at hrank
      rwa [if_pos hrank.symm, ← he.newValue]
    · rw [he.storedKey i hi] at hrank
      rw [he.storedValue i hi] at hpaddr
      rw [if_neg fun heq => hne i hi (hrank.trans heq)]
      exact ⟨i, hi, hrank, hpaddr⟩
  · intro hmaps
    split_ifs at hmaps with hr
    · refine ⟨a, by rw [hfollows.nkeys]; omega, ?_, ?_⟩
      · rw [he.newKey, hr]
      · rwa [he.newValue]
    · obtain ⟨i, hi, hrank, hpaddr⟩ := hmaps
      refine ⟨lift a i, ?_, ?_, ?_⟩
      · rw [hfollows.nkeys]
        unfold lift
        split_ifs <;> omega
      · rw [he.storedKey i hi, hrank]
      · rwa [he.storedValue i hi]

lemma readModifyWrite_spec (disc : Disc n) (root : ℕ) (mutate : Bytes → Except BtreeError Bytes) :
    (∃ e, readModifyWrite disc root mutate = (.error e, disc)) ∨
      ∃ b disc', readModifyWrite disc root mutate = (.ok (), disc') ∧
        mutate (disc.block root).val = .ok b ∧ (disc'.block root).val = fletcher64Seal b ∧
          disc'.blockCount = disc.blockCount := by
  unfold readModifyWrite
  cases hread : readBlock disc root >>= mutate with
  | error e => exact .inl ⟨e, rfl⟩
  | ok b =>
    obtain ⟨block, hblock, hmutate⟩ := bind_eq_ok.mp hread
    simp only [readBlock, returns] at hblock
    obtain ⟨_, -, rfl⟩ := hblock
    dsimp only
    cases hwrite : writeBlock disc root (fletcher64Seal b) with
    | error e => exact .inl ⟨e, rfl⟩
    | ok disc' =>
      refine .inr ⟨b, disc', rfl, hmutate, ?_⟩
      unfold writeBlock at hwrite
      split_ifs at hwrite with hlength
      simp only [returns] at hwrite
      obtain ⟨_, -, rfl⟩ := hwrite
      refine ⟨?_, rfl⟩
      simp [Disc.after, Disk.apply]

/-- An `upsert` fails and leaves the disc as it is, or it changes the map at its key. -/
lemma upsert_spec (h : IsMap disc root header) (m : Mapping) : (∃ e, upsert disc root m = (.error e, disc)) ∨
    ∃ disc' header', upsert disc root m = (.ok (), disc') ∧ IsMap disc' root header' ∧
      ∀ r paddr, Maps (disc'.block root).val header' r paddr ↔
        if r = rank (keyBytes m.oid m.xid) then m.paddr = paddr
        else Maps (disc.block root).val header r paddr := by
  obtain ⟨place, hfind, hplaced⟩ := h.findEntry_spec m.oid m.xid
  have hkey := length_keyBytes m.oid m.xid
  have hvalue := length_valueBytes m.paddr n
  have hstored : BitVec.ofNat 64 (leAt 8 (valueBytes m.paddr n) 8) = m.paddr := by
    rw [leAt_valueBytes, BitVec.ofNat_toNat, BitVec.setWidth_eq]
  rw [upsert, hfind]
  cases place with
  | found index =>
    obtain ⟨hi, hrank⟩ := hplaced
    dsimp only
    rw [overwriteValue]
    rcases readModifyWrite_spec disc root (overwrite index KEY_BYTES (valueBytes m.paddr n) m.nodeXid) with
      herror | ⟨b, disc', heq, hok, hblock, hcount⟩
    · exact .inl herror
    · obtain ⟨hleaf, hkeys⟩ := overwrite_spec h.leaf hi hvalue hok
      rw [← hblock] at hleaf hkeys
      refine .inr ⟨disc', header, heq, ⟨hcount ▸ h.inRange, hleaf⟩, fun r paddr => ?_⟩
      rw [maps_overwrite h.leaf hi hkeys, hrank, hstored]
  | vacant index =>
    dsimp only
    rw [insertLeaf]
    rcases readModifyWrite_spec disc root
      (insert (keyBytes m.oid m.xid) (valueBytes m.paddr n) m.nodeXid compareKeys) with
      herror | ⟨b, disc', heq, hok, hblock, hcount⟩
    · exact .inl herror
    · obtain ⟨a, K, V, hfits, hinserted⟩ := insert_inserted h.leaf hkey hvalue hok
      have hsealed := hinserted.sealed h.leaf.areas hfits
      rw [← hblock] at hsealed
      have hfollows := hsealed.follows h.leaf
      refine .inr ⟨disc', headerOf (disc'.block root).val, heq,
        ⟨hcount ▸ h.inRange, hsealed.omapLeaf h.leaf hfits⟩, fun r paddr => ?_⟩
      rw [maps_insert (hsealed.entries h.leaf hfits hfollows) hfollows hfits, hstored]

/-! ### Runs of upserts -/

/-- The disc after some calls, successful or not. -/
def upserts (disc : Disc n) (root : ℕ) : List Mapping → Disc n
  | [] => disc
  | m :: rest => upserts (upsert disc root m).2 root rest

lemma upserts_isMap (h : IsMap disc root header) (calls : List Mapping) :
    ∃ header', IsMap (upserts disc root calls) root header' := by
  induction calls generalizing disc header with
  | nil => exact ⟨header, h⟩
  | cons m rest ih =>
    rw [upserts]
    rcases upsert_spec h m with ⟨e, heq⟩ | ⟨disc', header', heq, h', -⟩
    · rw [heq]
      exact ih h
    · rw [heq]
      exact ih h'

/-- The keys of a leaf, as pairs in the order of pairs. -/
def keysOf (block : Bytes) (header : Header) : List (ℕ ×ₗ ℕ) :=
  (List.range header.nkeys).map fun i =>
    toLex (leAt 8 (storedKey block header i) 0, leAt 8 (storedKey block header i) 8)

lemma lex_of_rank {a b : Bytes} (h : rank a < rank b) :
    toLex (leAt 8 a 0, leAt 8 a 8) < toLex (leAt 8 b 0, leAt 8 b 8) := by
  have ha : leAt 8 a 8 < 2 ^ 64 := leAt_lt 8 a 8
  have hb : leAt 8 b 8 < 2 ^ 64 := leAt_lt 8 b 8
  unfold rank at h
  rw [Prod.Lex.toLex_lt_toLex]
  dsimp only
  omega

/-- The keys of a leaf are in order, and both counts are the number of different keys. -/
structure Counted (block : Bytes) (header : Header) : Prop where
  sorted : (keysOf block header).Pairwise (· < ·)
  nkeys : leAt 4 block NKEYS_OFFSET = (keysOf block header).toFinset.card
  info : leAt 8 block (block.length - BTREE_INFO_BYTES + BT_KEY_COUNT_OFFSET) =
    (keysOf block header).toFinset.card

lemma OmapLeaf.isCounted (h : OmapLeaf block header) : Counted block header := by
  have hsorted : (keysOf block header).Pairwise (· < ·) := by
    rw [keysOf, List.pairwise_map]
    refine List.pairwise_lt_range.imp_of_mem ?_
    intro i j hi hj hlt
    exact lex_of_rank (h.sorted i j hlt (List.mem_range.mp hj))
  have hcard : (keysOf block header).toFinset.card = header.nkeys := by
    rw [List.toFinset_card_of_nodup (hsorted.imp fun hlt => hlt.ne)]
    simp [keysOf]
  exact ⟨hsorted, by rw [hcard, h.areas.nkeys], by rw [hcard, h.counted]⟩

/-- The object map in a well-formed leaf is a finite map: whatever calls came before, the leaf is well
formed with its keys in order and counted right, a successful `upsert` sets the address of its key and
of no other, and one that fails leaves the block as it was. -/
theorem omap_is_finite_map (disc : Disc n) (root : ℕ) (header : Header) (h : IsMap disc root header)
    (before : List Mapping) (m : Mapping) :
    (∃ header', IsMap (upserts disc root before) root header' ∧
      Counted ((upserts disc root before).block root).val header') ∧
    ((upsert (upserts disc root before) root m).1 = .ok () →
      lookup (upsert (upserts disc root before) root m).2 root m.oid m.xid = .ok (some m.paddr) ∧
      ∀ oid xid, (oid, xid) ≠ (m.oid, m.xid) →
        lookup (upsert (upserts disc root before) root m).2 root oid xid =
          lookup (upserts disc root before) root oid xid) ∧
    ∀ e, (upsert (upserts disc root before) root m).1 = .error e →
      (upsert (upserts disc root before) root m).2.block root = (upserts disc root before).block root := by
  obtain ⟨header₁, h₁⟩ := upserts_isMap h before
  refine ⟨⟨header₁, h₁, h₁.leaf.isCounted⟩, ?_⟩
  rcases upsert_spec h₁ m with ⟨e, heq⟩ | ⟨disc', header', heq, h', hmaps⟩
  · rw [heq]
    exact ⟨(by intro hok; cases hok), fun _ _ => rfl⟩
  · rw [heq]
    refine ⟨fun _ => ⟨?_, fun oid xid hne => ?_⟩, (by intro e herror; cases herror)⟩
    · obtain ⟨answer, hlookup, hanswer⟩ := h'.lookup_spec m.oid m.xid
      rw [hlookup, (hanswer m.paddr).mpr ((hmaps _ _).mpr (by rw [if_pos rfl]))]
    · refine lookup_congr h₁ h' fun paddr => ?_
      rw [hmaps, if_neg fun hrank => hne ?_]
      obtain ⟨rfl, rfl⟩ := rank_keyBytes_inj hrank
      rfl

/-! ### A small map -/

/-- A root without entries, with room for four. -/
def emptyLeaf : Bytes :=
  patch (zeros 256) [(FLAGS_OFFSET, leBytes 2 7), (TOC_LEN_OFFSET, leBytes 2 16),
    (FREE_SPACE_OFFSET + 2, leBytes 2 144)]

lemma length_emptyLeaf : emptyLeaf.length = 256 := by decide +kernel

def emptyDisc : Disc 256 := ⟨1, fun _ => ⟨emptyLeaf, length_emptyLeaf⟩⟩

lemma emptyDisc_isMap : IsMap emptyDisc 0 (headerOf emptyLeaf) := by
  have hnkeys : (headerOf emptyLeaf).nkeys = 0 := by decide
  have hnone : ∀ i < (headerOf emptyLeaf).nkeys, False := by
    intro i hi
    rw [hnkeys] at hi
    omega
  refine ⟨by decide, ?_⟩
  constructor
  case decoded => decide +kernel
  case small => exact length_emptyLeaf.le.trans (by decide)
  case root => decide +kernel
  case counted => decide +kernel
  case keys => exact fun i hi => (hnone i hi).elim
  case values => exact fun i hi => (hnone i hi).elim
  case sorted => exact fun i j _ hj => (hnone j hj).elim
  case apart => exact fun i hi => (hnone i hi).elim
  case below => exact fun i hi => (hnone i hi).elim

/-- A second key goes before the first. -/
theorem omap_is_finite_map_two : (upsert (upserts emptyDisc 0 [⟨9, 1, 70, 3⟩]) 0 ⟨5, 2, 71, 4⟩).1 = .ok () ∧
    lookup (upsert (upserts emptyDisc 0 [⟨9, 1, 70, 3⟩]) 0 ⟨5, 2, 71, 4⟩).2 0 5 2 = .ok (some 71) ∧
    lookup (upsert (upserts emptyDisc 0 [⟨9, 1, 70, 3⟩]) 0 ⟨5, 2, 71, 4⟩).2 0 9 1 =
      lookup (upserts emptyDisc 0 [⟨9, 1, 70, 3⟩]) 0 9 1 := by
  have hok : (upsert (upserts emptyDisc 0 [⟨9, 1, 70, 3⟩]) 0 ⟨5, 2, 71, 4⟩).1 = .ok () := by decide +kernel
  have hmap := (omap_is_finite_map emptyDisc 0 _ emptyDisc_isMap [⟨9, 1, 70, 3⟩] ⟨5, 2, 71, 4⟩).2.1 hok
  exact ⟨hok, hmap.1, hmap.2 9 1 (by decide)⟩

end AppleUtils.Omap
