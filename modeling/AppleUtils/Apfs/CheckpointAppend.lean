import AppleUtils.Apfs.CheckpointLoad

/-! # The checkpoint that is appended

What `appendWith` writes, as a list of blocks, and what the loader finds there.  An append that returns
writes the objects, the checkpoint maps and the superblock in this order (`appendWith_ok`); before
that, all it has written are blocks of the new transaction outside the published windows. -/

namespace AppleUtils.Apfs.Repair

open Bytes Checks List Logged

/-! ### Slots of a ring -/

section Ring

variable {index a b m : ℕ}

lemma ring_behind (index len a m : ℕ) : ((index + len) % m + a) % m = (index + (len + a)) % m := by
  rw [Nat.mod_add_mod, add_assoc]

lemma ring_injective (ha : a < m) (hb : b < m) (h : (index + a) % m = (index + b) % m) : a = b :=
  Nat.ModEq.eq_of_lt_of_lt (Nat.ModEq.add_left_cancel' index h) ha hb

lemma exists_offset (index : ℕ) (ha : a < m) : ∃ k < m, (index + k) % m = a := by
  have hm : 0 < m := by omega
  have hindex := Nat.mod_lt index hm
  refine ⟨(a + (m - index % m)) % m, Nat.mod_lt _ hm, ?_⟩
  rw [Nat.add_mod_mod, ← Nat.mod_add_mod, show index % m + (a + (m - index % m)) = a + m by omega,
    Nat.add_mod_right, Nat.mod_eq_of_lt ha]

end Ring

/-! ### Blocks -/

section Blocks

variable {n oid xid oType subtype i k : ℕ} {b body : Bytes}

/-- The header of an object. -/
structure Header (b : Bytes) (oid xid oType subtype : ℕ) : Prop where
  oid : leAt 8 b 0x08 = oid
  xid : leAt 8 b 0x10 = xid
  oType : leAt 4 b 0x18 = oType
  subtype : leAt 4 b 0x1C = subtype

lemma length_splice_zeros (h : 32 + body.length ≤ n) : (splice (zeros n) 32 body).length = n :=
  (length_splice (by rwa [length_zeros])).trans (length_zeros n)

lemma length_objectBlock (h : 32 + body.length ≤ n) : (objectBlock n oid xid oType subtype body).length = n := by
  have hsplice := length_splice_zeros h
  rw [objectBlock, length_sealBlock (by omega), hsplice]

lemma header_objectBlock (h : 32 + body.length ≤ n) (hoid : oid < 2 ^ 64) (hxid : xid < 2 ^ 64)
    (htype : oType < 2 ^ 32) (hsubtype : subtype < 2 ^ 32) :
    Header (objectBlock n oid xid oType subtype body) oid xid oType subtype := by
  have hsplice := length_splice_zeros h
  obtain ⟨h1, h2, h3, h4⟩ := @header_sealBlock _ _ _ _ (splice (zeros n) 32 body) (by omega) hoid hxid
    htype hsubtype
  exact ⟨h1, h2, h3, h4⟩

lemma leAt_objectBlock (h : 32 + body.length ≤ n) (hi : 32 ≤ i) (hk : i + k ≤ 32 + body.length) :
    leAt k (objectBlock n oid xid oType subtype body) i = leAt k body (i - 32) := by
  have hsplice := length_splice_zeros h
  rw [objectBlock, leAt_sealBlock (by omega) hi, leAt, slice_splice_inside (by rw [length_zeros]; omega)
    hi hk, leAt]

lemma length_restamp (h : 0x18 ≤ b.length) : (restamp xid b).length = b.length := by
  rw [restamp, length_fletcher64Seal (by rw [length_putLe (by omega)]; omega), length_putLe (by omega)]

lemma header_restamp (h : 0x18 ≤ b.length) (hxid : xid < 2 ^ 64) :
    Header (restamp xid b) (leAt 8 b 0x08) xid (leAt 4 b 0x18) (leAt 4 b 0x1C) := by
  constructor <;> rw [restamp, leAt_fletcher64Seal (by omega)]
  · exact leAt_putLe_of_disjoint (by omega) (by omega)
  · exact leAt_putLe_of_lt (by omega) (by simpa using hxid)
  · exact leAt_putLe_of_disjoint (by omega) (by omega)
  · exact leAt_putLe_of_disjoint (by omega) (by omega)

end Blocks

/-! ### Checkpoint maps -/

section Maps

variable {n index size : ℕ} {entry : EphemeralObject} {b : Bytes}
    {objects : List (EphemeralObject × ℕ)} {w : ℕ × Bytes}

/-- The places of the entries of a map in its body. -/
lemma mappingEntry_within (h : w ∈ mappingEntry index entry size) :
    8 + index * 40 ≤ w.1 ∧ w.1 + w.2.length ≤ 8 + index * 40 + 40 := by
  simp only [mappingEntry, CPM_ENTRIES_OFFSET, CPM_ENTRY_BYTES, mem_cons, not_mem_nil, or_false] at h
  obtain rfl | rfl | rfl | rfl | rfl | rfl | rfl := h <;>
    simp only [u32_fst, u64_fst, u32_length, u64_length] <;> omega

/-- The entry of a map at an offset. -/
structure EntryAt (b : Bytes) (offset : ℕ) (entry : EphemeralObject) (size : ℕ) : Prop where
  oType : leAt 4 b offset = entry.oType
  subtype : leAt 4 b (offset + 4) = entry.subtype
  size : leAt 4 b (offset + 8) = size
  oid : leAt 8 b (offset + 24) = entry.oid
  paddr : leAt 8 b (offset + 32) = entry.paddr

/-- The fields of an object fit the places they are written to. -/
structure EphemeralObject.Fits (entry : EphemeralObject) : Prop where
  oid : entry.oid < 2 ^ 64
  oType : entry.oType < 2 ^ 32
  subtype : entry.subtype < 2 ^ 32
  paddr : entry.paddr < 2 ^ 64

lemma entryAt_patch (h : 8 + index * 40 + 40 ≤ b.length) (hfits : entry.Fits) (hsize : size < 2 ^ 32) :
    EntryAt (patch b (mappingEntry index entry size)) (8 + index * 40) entry size := by
  have hwithin : Within b.length (mappingEntry index entry size) := fun w hw => by
    have := mappingEntry_within hw
    omega
  have h1 := hfits.oid
  have h2 := hfits.oType
  have h3 := hfits.subtype
  have h4 := hfits.paddr
  constructor <;> refine leAt_patch hwithin ?_ (by omega) <;>
    simp [mappingEntry, CPM_ENTRIES_OFFSET, CPM_ENTRY_BYTES, lastWrite, u32, u64]

/-- The writes for the objects of a map, from an entry on. -/
def mappingEntries (index : ℕ) (objects : List (EphemeralObject × ℕ)) : List (ℕ × Bytes) :=
  (objects.zipIdx index).flatMap fun ((entry, size), index) => mappingEntry index entry size

lemma mappingEntries_cons (index : ℕ) (o : EphemeralObject × ℕ) (objects : List (EphemeralObject × ℕ)) :
    mappingEntries index (o :: objects) = mappingEntry index o.1 o.2 ++ mappingEntries (index + 1) objects := rfl

lemma mappingEntries_within (h : w ∈ mappingEntries index objects) :
    8 + index * 40 ≤ w.1 ∧ w.1 + w.2.length ≤ 8 + (index + objects.length) * 40 := by
  induction objects generalizing index with
  | nil => exact absurd h not_mem_nil
  | cons o objects ih =>
    rw [mappingEntries_cons, mem_append] at h
    rw [length_cons]
    obtain h | h := h
    · have := mappingEntry_within h
      omega
    · have := ih h
      omega

lemma EntryAt.of_slice {b' : Bytes} {offset : ℕ} (h : EntryAt b offset entry size)
    (hslice : b'.slice offset 40 = b.slice offset 40) : EntryAt b' offset entry size := by
  have hleAt : ∀ k j, j + k ≤ 40 → leAt k b' (offset + j) = leAt k b (offset + j) := by
    intro k j hj
    rw [← leAt_slice hj, ← leAt_slice hj, hslice]
  exact ⟨(hleAt 4 0 (by omega)).trans h.oType, (hleAt 4 4 (by omega)).trans h.subtype,
    (hleAt 4 8 (by omega)).trans h.size, (hleAt 8 24 (by omega)).trans h.oid,
    (hleAt 8 32 (by omega)).trans h.paddr⟩

lemma entryAt_entries {j : ℕ} (hlen : 8 + (index + objects.length) * 40 ≤ b.length)
    (hj : objects[j]? = some (entry, size)) (hfits : entry.Fits) (hsize : size < 2 ^ 32) :
    EntryAt (patch b (mappingEntries index objects)) (8 + (index + j) * 40) entry size := by
  induction objects generalizing index j b with
  | nil => cases hj
  | cons o objects ih =>
    rw [length_cons] at hlen
    have hfirst : Within b.length (mappingEntry index o.1 o.2) := fun w hw => by
      have := mappingEntry_within hw
      omega
    have hlength := length_patch hfirst
    rw [mappingEntries_cons, patch_append]
    cases j with
    | zero =>
      obtain rfl : o = (entry, size) := Option.some.inj hj
      have hentry : EntryAt (patch b (mappingEntry index entry size)) (8 + index * 40) entry size :=
        entryAt_patch (by omega) hfits hsize
      refine hentry.of_slice (slice_patch_of_disjoint ?_ ?_)
      · intro w hw
        have hw' := mappingEntries_within hw
        rw [hlength]
        omega
      · intro w hw
        have hw' := mappingEntries_within hw
        omega
    | succ j =>
      rw [show index + (j + 1) = index + 1 + j by omega]
      exact ih (by rw [hlength]; omega) hj

/-- The map written for some objects. -/
structure MapOf (b : Bytes) (objects : List (EphemeralObject × ℕ)) : Prop where
  flags : leAt 4 b 0x20 = CPM_FLAGS_VALUE
  count : leAt 4 b 0x24 = objects.length
  entry : ∀ j entry size, objects[j]? = some (entry, size) → entry.Fits → size < 2 ^ 32 →
    EntryAt b (CPM_ENTRIES_OFFSET + j * CPM_ENTRY_BYTES) entry size

lemma mapCapacity_le (h : objects.length ≤ mapCapacity n) (hn : 0x98 ≤ n) : 8 + objects.length * 40 ≤ n - 32 := by
  unfold mapCapacity CPM_ENTRIES_OFFSET CPM_ENTRY_BYTES at h
  omega

lemma mapBody_eq (n : ℕ) (objects : List (EphemeralObject × ℕ)) : mapBody n objects
    = patch (patch (zeros (n - 32)) [u32 0 CPM_FLAGS_VALUE, u32 4 objects.length])
        (mappingEntries 0 objects) := patch_append ..

lemma length_mapHeader (hn : 0x98 ≤ n) (count : ℕ) :
    (patch (zeros (n - 32)) [u32 0 CPM_FLAGS_VALUE, u32 4 count]).length = n - 32 := by
  rw [length_patch, length_zeros]
  simp only [length_zeros, within_cons, u32_fst, u32_length, within_nil, and_true]
  omega

lemma within_mapHeader (hn : 0x98 ≤ n) (h : objects.length ≤ mapCapacity n) (count : ℕ) :
    Within (patch (zeros (n - 32)) [u32 0 CPM_FLAGS_VALUE, u32 4 count]).length (mappingEntries 0 objects) := by
  intro w hw
  have hw' := mappingEntries_within hw
  have hcap := mapCapacity_le h hn
  rw [length_mapHeader hn]
  omega

lemma length_mapBody (hn : 0x98 ≤ n) (h : objects.length ≤ mapCapacity n) :
    (mapBody n objects).length = n - 32 := by
  rw [mapBody_eq, length_patch (within_mapHeader hn h _), length_mapHeader hn]

lemma mapOf_objectBlock {oid xid oType subtype : ℕ} (hn : 0x98 ≤ n)
    (h : objects.length ≤ mapCapacity n) (hcount : objects.length < 2 ^ 32) :
    MapOf (objectBlock n oid xid oType subtype (mapBody n objects)) objects := by
  have hlen := length_mapBody hn h
  have hcap := mapCapacity_le h hn
  have hfield : ∀ k i, 32 ≤ i → i + k ≤ n → leAt k (objectBlock n oid xid oType subtype (mapBody n objects)) i
        = leAt k (mapBody n objects) (i - 32) :=
    fun k i hi hk => leAt_objectBlock (by omega) hi (by omega)
  have hheader : ∀ i v, i + 4 ≤ 8 → v < 2 ^ 32 →
      lastWrite i 4 [u32 0 CPM_FLAGS_VALUE, u32 4 objects.length] (some (zeros 4)) = some (leBytes 4 v) →
      leAt 4 (mapBody n objects) i = v := by
    intro i v hi hv hw
    rw [mapBody_eq, leAt, slice_patch_of_disjoint (within_mapHeader hn h _)]
    · refine leAt_patch_zeros ?_ hw (by omega) (by omega)
      simp only [within_cons, u32_fst, u32_length, within_nil, and_true]
      omega
    · intro w hw
      have := mappingEntries_within hw
      omega
  constructor
  · rw [hfield 4 _ (by omega) (by omega)]
    exact hheader 0 _ (by omega) (by decide) (by simp [lastWrite, u32])
  · rw [hfield 4 _ (by omega) (by omega)]
    exact hheader 4 _ (by omega) hcount (by simp [lastWrite, u32])
  · intro j entry size hj hfits hsize
    have hjlen := (List.getElem?_eq_some_iff.mp hj).1
    have hentry := @entryAt_entries 0 _ _ (patch (zeros (n - 32))
      [u32 0 CPM_FLAGS_VALUE, u32 4 objects.length]) _ _ (by rw [length_mapHeader hn]; omega) hj hfits hsize
    rw [← mapBody_eq, zero_add] at hentry
    have hat : ∀ k c, c + k ≤ 40 → leAt k (objectBlock n oid xid oType subtype (mapBody n objects))
          (CPM_ENTRIES_OFFSET + j * CPM_ENTRY_BYTES + c)
        = leAt k (mapBody n objects) (8 + j * 40 + c) := by
      intro k c hc
      unfold CPM_ENTRIES_OFFSET CPM_ENTRY_BYTES
      rw [hfield k _ (by omega) (by omega)]
      congr 1
      omega
    exact ⟨(hat 4 0 (by omega)).trans hentry.oType, (hat 4 4 (by omega)).trans hentry.subtype,
      (hat 4 8 (by omega)).trans hentry.size, (hat 8 24 (by omega)).trans hentry.oid,
      (hat 8 32 (by omega)).trans hentry.paddr⟩

end Maps

/-! ### The superblock -/

section Superblock

variable {n newXid nextOid : ℕ} {omapOid : Option ℕ} {sb : Bytes} {g : Geometry} {w : NewWindows}

/-- The superblock of the new checkpoint. -/
def newSuperblock (n : ℕ) (sb : Bytes) (g : Geometry) (w : NewWindows) (newXid nextOid : ℕ)
    (omapOid : Option ℕ) : Bytes :=
  objectBlock n (leAt 8 sb 0x08) newXid (leAt 4 sb 0x18) (leAt 4 sb 0x1C)
    ((patch sb (superblockFields g w newXid nextOid omapOid)).drop 32)

lemma superblockFields_within (hn : 0x98 ≤ sb.length) (homap : omapOid.isSome → 0xA8 ≤ sb.length) :
    Within sb.length (superblockFields g w newXid nextOid omapOid) := by
  cases omapOid with
  | none =>
    simp only [superblockFields, Option.map_none, Option.toList_none, append_nil, within_cons,
      u32_fst, u64_fst, u32_length, u64_length, within_nil, and_true]
    omega
  | some oid =>
    have := homap rfl
    simp only [superblockFields, Option.map_some, Option.toList_some, cons_append,
      nil_append, within_cons, u32_fst, u64_fst, u32_length, u64_length, within_nil, and_true]
    omega

lemma slice_superblockFields {i k : ℕ} (hn : 0x98 ≤ sb.length) (homap : omapOid.isSome → 0xA8 ≤ sb.length)
    (hi : i + k ≤ 0x58 ∨ 0x68 ≤ i ∧ i + k ≤ 0x80) :
    (patch sb (superblockFields g w newXid nextOid omapOid)).slice i k = sb.slice i k := by
  apply slice_patch_of_disjoint (superblockFields_within hn homap)
  intro x hx
  simp only [superblockFields, mem_append, mem_cons, not_mem_nil, or_false,
    Option.mem_toList, Option.map_eq_some_iff] at hx
  obtain (rfl | rfl | rfl | rfl | rfl | rfl | rfl | rfl) | ⟨oid, -, rfl⟩ := hx <;>
    simp only [u32_fst, u64_fst, u32_length, u64_length] <;> omega

lemma leAt_drop (b : Bytes) (i j k : ℕ) : leAt k (b.drop i) j = leAt k b (i + j) := by
  rw [leAt, leAt, slice, slice, drop_drop]

section

variable (hlen : sb.length = n) (hn : 0x98 ≤ n) (homap : omapOid.isSome → 0xA8 ≤ n)

include hlen hn homap

lemma length_superblockBody :
    ((patch sb (superblockFields g w newXid nextOid omapOid)).drop 32).length = n - 32 := by
  rw [length_drop, length_patch (superblockFields_within (by omega) (by rwa [hlen])), hlen]

lemma leAt_newSuperblock {i k : ℕ} (hi : 32 ≤ i) (hk : i + k ≤ n) :
    leAt k (newSuperblock n sb g w newXid nextOid omapOid) i
      = leAt k (patch sb (superblockFields g w newXid nextOid omapOid)) i := by
  have hbody := @length_superblockBody _ newXid nextOid _ _ g w hlen hn
    homap
  rw [newSuperblock, leAt_objectBlock (by omega) hi (by omega), leAt_drop, show 32 + (i - 32) = i by omega]

lemma header_newSuperblock (hxid : newXid < 2 ^ 64) :
    Header (newSuperblock n sb g w newXid nextOid omapOid) (leAt 8 sb 0x08) newXid (leAt 4 sb 0x18)
      (leAt 4 sb 0x1C) :=
  header_objectBlock (by rw [length_superblockBody hlen hn homap]; omega) (leAt_lt 8 _ _) hxid
    (leAt_lt 4 _ _) (leAt_lt 4 _ _)

lemma isSuperblock_new (hxid : newXid < 2 ^ 64) (hsb : IsSuperblock sb) :
    IsSuperblock (newSuperblock n sb g w newXid nextOid omapOid) := by
  constructor
  · rw [(header_newSuperblock hlen hn homap hxid).oType]
    exact hsb.1
  · rw [leAt_newSuperblock hlen hn homap (by omega) (by omega), leAt,
      slice_superblockFields (by omega) (by rwa [hlen]) (by omega)]
    exact hsb.2

/-- The geometry of the new superblock: the same rings, the new windows. -/
lemma fields_newSuperblock (hdi : w.descriptorIndex < 2 ^ 32) (hdl : w.descriptorLen < 2 ^ 32)
    (hxi : w.dataIndex < 2 ^ 32) (hxl : w.dataLen < 2 ^ 32) :
    Geometry.fields (newSuperblock n sb g w newXid nextOid omapOid) = { Geometry.fields sb with
          descriptorIndex := w.descriptorIndex, descriptorLen := w.descriptorLen,
          dataIndex := w.dataIndex, dataLen := w.dataLen } := by
  have hkeep : ∀ i k, 32 ≤ i → i + k ≤ 0x58 ∨ 0x68 ≤ i ∧ i + k ≤ 0x80 →
      leAt k (newSuperblock n sb g w newXid nextOid omapOid) i = leAt k sb i := by
    intro i k hi hk
    rw [leAt_newSuperblock hlen hn homap hi (by omega), leAt,
      slice_superblockFields (by omega) (by rwa [hlen]) hk, leAt]
  have hset : ∀ i v, 0x88 ≤ i → i + 4 ≤ 0x98 → v < 2 ^ 32 →
      lastWrite i 4 (superblockFields g w newXid nextOid omapOid) (some (sb.slice i 4))
        = some (leBytes 4 v) →
      leAt 4 (newSuperblock n sb g w newXid nextOid omapOid) i = v := by
    intro i v hi hi' hv hwrite
    rw [leAt_newSuperblock hlen hn homap (by omega) (by omega)]
    exact leAt_patch (superblockFields_within (by omega) (by rwa [hlen])) hwrite (by omega)
  simp only [Geometry.fields, Geometry.mk.injEq]
  refine ⟨hkeep _ _ (by omega) (by omega), hkeep _ _ (by omega) (by omega),
    hkeep _ _ (by omega) (by omega), hkeep _ _ (by omega) (by omega), hkeep _ _ (by omega) (by omega),
    hset _ _ (by omega) (by omega) hdi ?_, hset _ _ (by omega) (by omega) hdl ?_,
    hset _ _ (by omega) (by omega) hxi ?_, hset _ _ (by omega) (by omega) hxl ?_⟩ <;>
  cases omapOid <;> simp [superblockFields, lastWrite, u32, u64]

end

end Superblock

/-! ### What is worked out before the first write -/

section Plan

variable {n p newXid : ℕ} {disc : Disc n} {objects : List EphemeralObject}
    {publish : CheckpointPublish} {plan : AppendPlan} {α β : Type} {entry : EphemeralObject}
    {l : List α} {bs : List β}

lemma mapM_eq_ok {f : α → Checked β} : l.mapM f = .ok bs ↔ List.Forall₂ (fun a b => f a = .ok b) l bs := by
  induction l generalizing bs with
  | nil =>
    rw [mapM_nil, pure_eq_ok, forall₂_nil_left_iff]
    exact eq_comm
  | cons a l ih =>
    simp only [mapM_cons, returns, ih]
    constructor
    · rintro ⟨b, hb, bs', hbs', rfl⟩
      exact .cons hb hbs'
    · intro h
      cases h with
      | cons hb hbs' => exact ⟨_, hb, _, hbs', rfl⟩

/-- The published superblock, as an append requires it. -/
structure Published (disc : Disc n) (p : ℕ) (g : Geometry) : Prop where
  onDisc : p < disc.blockCount
  isSuperblock : IsSuperblock (disc.block p).1
  length : 0x98 ≤ n
  geometry : Geometry.fields (disc.block p) = g
  blockSize : g.blockSize = n
  descriptorBlocks : 0 < g.descriptorBlocks
  dataBlocks : 0 < g.dataBlocks
  descriptorLen : 0 < g.descriptorLen ∧ g.descriptorLen ≤ g.descriptorBlocks
  dataLen : g.dataLen ≤ g.dataBlocks

/-- A body of an object with the new transaction. -/
structure BodyOf (n newXid : ℕ) (entry : EphemeralObject) (b : Bytes) : Prop where
  length : b.length = n
  header : Header b entry.oid newXid entry.oType entry.subtype

lemma bodyOf_ephemeralBody {b : Bytes} (hxid : newXid < 2 ^ 64)
    (h : ephemeralBody disc newXid publish entry = .ok b) : BodyOf n newXid entry b := by
  simp only [ephemeralBody, returns, checks, malformedIf, stopIf_eq_ok, not_or, not_not] at h
  obtain ⟨block, hblock, _, ⟨h1, rfl⟩, _, ⟨h2, rfl⟩, _, ⟨h3, rfl⟩, ⟨h4, h5, h6⟩, rfl⟩ := h
  have hlen : block.length = n := by
    unfold ephemeralBytes at hblock
    split at hblock
    · simp only [returns, checks, malformedIf, stopIf_eq_ok, not_not] at hblock
      obtain ⟨hlen, rfl⟩ := hblock
      exact hlen
    · simp only [Disc.readBlock, returns, checks, stopIf_eq_ok] at hblock
      obtain ⟨-, rfl⟩ := hblock
      exact (disc.block entry.paddr).2
  refine ⟨(length_restamp (by omega)).trans hlen, ?_⟩
  rw [← h4, ← h5, ← h6]
  exact header_restamp (by omega) hxid

lemma mappingSize_ok {published : List (ℕ × ℕ)} {size : ℕ}
    (h : mappingSize n published publish entry = .ok size) : size = n := by
  simp only [mappingSize, returns, checks, stopIf_eq_ok, not_not] at h
  obtain ⟨_, -, hsize, rfl⟩ := h
  exact hsize

lemma eq_replicate_of_forall₂ {b : β}
    (h : List.Forall₂ (fun _ x => x = b) l bs) : bs = List.replicate l.length b := by
  induction h with
  | nil => rfl
  | cons hb _ ih => rw [hb, ih, length_cons, replicate_succ]

lemma planAppend_ok (hxid : newXid < 2 ^ 64) (h : planAppend disc p newXid objects publish = .ok plan) :
    plan.oldSuperblock = (disc.block p).1 ∧ Published disc p plan.geometry
      ∧ plan.sizes = List.replicate objects.length n ∧ List.Forall₂ (BodyOf n newXid) objects plan.bodies := by
  simp only [planAppend, returns, checks, malformedIf, readGeometry, Disc.readBlock, stopIf_eq_ok, not_not, mapM_eq_ok] at h
  obtain ⟨_, ⟨hp, rfl⟩, _, ⟨-, hmagic⟩, hm, _, ⟨-, htype⟩, ht, g, ⟨hlen, h1, h2, h3, h4, rfl⟩, hsize, -, _,
    -, _, -, -, _, -, sizes, hsizes, bodies, hbodies, rfl⟩ := h
  have hn := (disc.block p).2
  subst hmagic htype
  refine ⟨rfl, ⟨not_le.mp hp, ⟨ht, hm⟩, hn ▸ hlen, rfl, hsize, Nat.pos_of_ne_zero h1,
    Nat.pos_of_ne_zero h2, ⟨?_, ?_⟩, not_lt.mp h4⟩, ?_, ?_⟩
  · exact Nat.pos_of_ne_zero fun h0 => h3 (.inl h0)
  · exact not_lt.mp fun hlt => h3 (.inr hlt)
  · exact eq_replicate_of_forall₂ (hsizes.imp fun entry size hs => mappingSize_ok hs)
  · exact hbodies.imp fun entry b hb => bodyOf_ephemeralBody hxid hb

end Plan

/-! ### The writes -/

section Writes

variable {n newXid : ℕ} {disc : Disc n} {g : Geometry} {u : Unit} {k : ℕ} {paddr : ℕ}

def Write.raw (w : Write n) : ℕ × Bytes := (w.1, w.2.1)

lemma writeBlock_result {data : Bytes} {stop : DiscError → Stop} :
    (disc.writeBlock paddr data stop).result = .ok u ↔ data.length = n ∧ paddr < disc.blockCount := by
  unfold Disc.writeBlock
  split
  next h => simp [h, bind_result_ok, liftM, monadLift_result]
  next h => simp [h, Logged.throw]

lemma writeBlock_logs (paddr : ℕ) (data : Bytes) (stop : DiscError → Stop) :
    Logs Write.raw (disc.writeBlock paddr data stop) [(paddr, data)] := by
  unfold Disc.writeBlock
  split
  · exact .lift_bind fun _ _ => .note _
  · exact .throw _ _

lemma writeObject_result {oid xid oType subtype : ℕ} {body : Bytes} :
    (disc.writeObject paddr oid xid oType subtype body).result = .ok u
      ↔ 32 + body.length ≤ n ∧ paddr < disc.blockCount := by
  simp only [Disc.writeObject, bind_result_ok, liftM, monadLift_result, stopIf_eq_ok,
    exists_unit, writeBlock_result, not_lt]
  constructor
  · rintro ⟨hlen, -, hp⟩
    exact ⟨hlen, hp⟩
  · rintro ⟨hlen, hp⟩
    exact ⟨hlen, length_objectBlock hlen, hp⟩

lemma writeObject_logs (paddr oid xid oType subtype : ℕ) (body : Bytes) :
    Logs Write.raw (disc.writeObject paddr oid xid oType subtype body)
      [(paddr, objectBlock n oid xid oType subtype body)] :=
  .lift_bind fun _ _ => writeBlock_logs _ _ _

lemma writeObject_logsLast (paddr oid xid oType subtype : ℕ) (body : Bytes) :
    LogsLast Write.raw (disc.writeObject paddr oid xid oType subtype body) []
      (paddr, objectBlock n oid xid oType subtype body) := by
  refine .lift_bind fun _ _ => ?_
  unfold Disc.writeBlock
  split
  · exact .lift_bind fun _ _ => .note _
  · exact .throw _

/-- The slots behind the published windows. -/
def newDescriptorSlot (g : Geometry) (i : ℕ) : ℕ :=
  g.descriptorSlot g.descriptorIndex (g.descriptorLen + i)

def newDataSlot (g : Geometry) (i : ℕ) : ℕ := g.dataSlot g.dataIndex (g.dataLen + i)

/-- The windows of a checkpoint with so many objects. -/
def nextWindows (n : ℕ) (g : Geometry) (objects : ℕ) : NewWindows where
  descriptorIndex := (g.descriptorIndex + g.descriptorLen) % g.descriptorBlocks
  descriptorLen := mapBlockCount n objects + 1
  dataIndex := (g.dataIndex + g.dataLen) % g.dataBlocks
  dataLen := objects

/-- The rings have room for both checkpoints. -/
structure Room (n : ℕ) (g : Geometry) (objects : ℕ) : Prop where
  descriptor : g.descriptorLen + (mapBlockCount n objects + 1) ≤ g.descriptorBlocks
  data : g.dataLen + objects ≤ g.dataBlocks

lemma newWindows_eq_ok {objects : ℕ} {w : NewWindows} :
    newWindows n g objects = .ok w ↔ Room n g objects ∧ w = nextWindows n g objects := by
  simp only [newWindows, returns, checks, stopIf_eq_ok, not_lt]
  constructor
  · rintro ⟨h1, h2, rfl⟩
    exact ⟨⟨by omega, by omega⟩, rfl⟩
  · rintro ⟨⟨h1, h2⟩, rfl⟩
    exact ⟨by omega, by omega, rfl⟩

lemma descriptorSlot_nextWindows (n : ℕ) (g : Geometry) (objects i : ℕ) :
    g.descriptorSlot (nextWindows n g objects).descriptorIndex i = newDescriptorSlot g i := by
  simp only [Geometry.descriptorSlot, nextWindows, newDescriptorSlot, ring_behind]

lemma dataSlot_nextWindows (n : ℕ) (g : Geometry) (objects i : ℕ) :
    g.dataSlot (nextWindows n g objects).dataIndex i = newDataSlot g i := by
  simp only [Geometry.dataSlot, nextWindows, newDataSlot, ring_behind]

/-- The objects at their new addresses. -/
def relocate (g : Geometry) (placed : List ((EphemeralObject × Bytes) × ℕ)) : List EphemeralObject :=
  placed.map fun x => { x.1.1 with paddr := newDataSlot g x.2 }

def dataWrites (g : Geometry) (placed : List ((EphemeralObject × Bytes) × ℕ)) : List (ℕ × Bytes) :=
  placed.map fun x => (newDataSlot g x.2, x.1.2)

lemma writeBody_result {relocated r : List EphemeralObject} {x : (EphemeralObject × Bytes) × ℕ} :
    (writeBody disc g (nextWindows n g k) relocated x).result = .ok r ↔
      (newDataSlot g x.2 < 2 ^ 64 ∧ x.1.2.length = n ∧ newDataSlot g x.2 < disc.blockCount)
        ∧ r = relocated ++ relocate g [x] := by
  simp only [writeBody, bind_result_ok, liftM, monadLift_result, narrow_eq_ok,
    dataSlot_nextWindows, writeBlock_result, exists_unit, pure_result, Except.ok.injEq]
  constructor
  · rintro ⟨_, ⟨hlt, rfl⟩, ⟨hlen, hp⟩, rfl⟩
    exact ⟨⟨hlt, hlen, hp⟩, rfl⟩
  · rintro ⟨⟨hlt, hlen, hp⟩, rfl⟩
    exact ⟨_, ⟨hlt, rfl⟩, ⟨hlen, hp⟩, rfl⟩

lemma writeBody_logs (k : ℕ) (relocated : List EphemeralObject) (x : (EphemeralObject × Bytes) × ℕ) :
    Logs Write.raw (writeBody disc g (nextWindows n g k) relocated x) [(newDataSlot g x.2, x.1.2)] := by
  refine .lift_bind fun paddr hpaddr => ?_
  rw [narrow_eq_ok, dataSlot_nextWindows] at hpaddr
  obtain ⟨-, rfl⟩ := hpaddr
  exact (writeBlock_logs _ _ _).bind fun _ _ => .pure _

lemma writeBodies_result {objects r : List EphemeralObject} {bodies : List Bytes}
    (h : (writeBodies disc g (nextWindows n g k) objects bodies).result = .ok r) :
    r = relocate g (objects.zip bodies).zipIdx ∧ ∀ x ∈ (objects.zip bodies).zipIdx,
      newDataSlot g x.2 < 2 ^ 64 ∧ newDataSlot g x.2 < disc.blockCount := by
  suffices hgen : ∀ (l : List ((EphemeralObject × Bytes) × ℕ)) acc,
      (l.foldlM (writeBody disc g (nextWindows n g k)) acc).result = .ok r →
      r = acc ++ relocate g l ∧ ∀ x ∈ l,
        newDataSlot g x.2 < 2 ^ 64 ∧ newDataSlot g x.2 < disc.blockCount from hgen _ [] h
  intro l
  induction l with
  | nil =>
    intro acc h
    cases h
    exact ⟨(append_nil _).symm, nofun⟩
  | cons x l ih =>
    intro acc h
    rw [foldlM_cons, bind_result_ok] at h
    obtain ⟨acc', hx, h⟩ := h
    obtain ⟨⟨hlt, -, hp⟩, rfl⟩ := writeBody_result.mp hx
    obtain ⟨rfl, hall⟩ := ih _ h
    refine ⟨by rw [append_assoc]; rfl, ?_⟩
    rw [forall_mem_cons]
    exact ⟨⟨hlt, hp⟩, hall⟩

lemma writeBodies_logs (k : ℕ) (objects : List EphemeralObject) (bodies : List Bytes) :
    Logs Write.raw (writeBodies disc g (nextWindows n g k) objects bodies)
      (dataWrites g (objects.zip bodies).zipIdx) := by
  have h := Logs.foldlM (b := []) fun relocated x (_ : x ∈ (objects.zip bodies).zipIdx) =>
    @writeBody_logs _ disc g k relocated x
  rwa [← map_eq_flatMap] at h

/-- The checkpoint map at an address. -/
def mapBlock (n paddr xid : ℕ) (objects : List (EphemeralObject × ℕ)) : Bytes :=
  objectBlock n paddr xid (TYPE_CHECKPOINT_MAP + OBJ_PHYSICAL) 0 (mapBody n objects)

def mapWrites (n : ℕ) (g : Geometry) (newXid : ℕ) (mapped : List (EphemeralObject × ℕ)) : List (ℕ × Bytes) :=
  (List.range (mapBlockCount n mapped.length)).map fun i =>
    (newDescriptorSlot g i, mapBlock n (newDescriptorSlot g i) newXid (chunk (mapCapacity n) i mapped))

lemma writeMap_logs (k : ℕ) (mapped : List (EphemeralObject × ℕ)) (i : ℕ) :
    Logs Write.raw (writeMap disc g (nextWindows n g k) newXid mapped i) [(newDescriptorSlot g i,
        mapBlock n (newDescriptorSlot g i) newXid (chunk (mapCapacity n) i mapped))] := by
  refine .lift_bind fun paddr hpaddr => ?_
  rw [narrow_eq_ok, descriptorSlot_nextWindows] at hpaddr
  obtain ⟨-, rfl⟩ := hpaddr
  exact writeObject_logs _ _ _ _ _ _

lemma writeMaps_logs (k : ℕ) (mapped : List (EphemeralObject × ℕ)) :
    Logs Write.raw (writeMaps disc g (nextWindows n g k) newXid mapped) (mapWrites n g newXid mapped) := by
  have h := Logs.forM fun i (_ : i ∈ List.range (mapBlockCount n mapped.length)) =>
    @writeMap_logs _ newXid disc g k mapped i
  rwa [← map_eq_flatMap] at h

lemma writeMaps_result {mapped : List (EphemeralObject × ℕ)}
    (h : (writeMaps disc g (nextWindows n g k) newXid mapped).result = .ok u) {i : ℕ}
    (hi : i < mapBlockCount n mapped.length) :
    newDescriptorSlot g i < 2 ^ 64 ∧ newDescriptorSlot g i < disc.blockCount := by
  have hmap := forM_result_ok h i (mem_range.mpr hi)
  simp only [writeMap, bind_result_ok, liftM, monadLift_result, narrow_eq_ok,
    descriptorSlot_nextWindows, writeCheckpointMap, writeObject_result] at hmap
  obtain ⟨_, ⟨hlt, rfl⟩, -, hp⟩ := hmap
  exact ⟨hlt, hp⟩

lemma zip_replicate {α β : Type} (l : List α) (b : β) :
    l.zip (List.replicate l.length b) = l.map fun a => (a, b) := by
  induction l with
  | nil => rfl
  | cons a l ih => rw [length_cons, replicate_succ, zip_cons_cons, ih, map_cons]

/-- The objects of a checkpoint with their sizes. -/
def mapped (n : ℕ) (g : Geometry) (placed : List ((EphemeralObject × Bytes) × ℕ)) :
    List (EphemeralObject × ℕ) := (relocate g placed).map fun entry => (entry, n)

/-- The writes of an append before its superblock. -/
def blockWrites (n : ℕ) (g : Geometry) (newXid : ℕ) (placed : List ((EphemeralObject × Bytes) × ℕ)) :
    List (ℕ × Bytes) := dataWrites g placed ++ mapWrites n g newXid (mapped n g placed)

end Writes

/-! ### The append -/

section Append

variable {n p newXid : ℕ} {disc : Disc n} {objects : List EphemeralObject}
    {publish : CheckpointPublish} {plan : AppendPlan}

def AppendPlan.placed (plan : AppendPlan) (objects : List EphemeralObject) :
    List ((EphemeralObject × Bytes) × ℕ) := (objects.zip plan.bodies).zipIdx

/-- The superblock of an append. -/
def AppendPlan.superblock (plan : AppendPlan) (n newXid objects : ℕ) (publish : CheckpointPublish) : Bytes :=
  newSuperblock n plan.oldSuperblock plan.geometry (nextWindows n plan.geometry objects) newXid
    plan.nextOid publish.omapOid

lemma length_placed (hbodies : List.Forall₂ (BodyOf n newXid) objects plan.bodies) :
    (plan.placed objects).length = objects.length := by
  rw [AppendPlan.placed, length_zipIdx, length_zip, ← hbodies.length_eq, Nat.min_self]

lemma zip_sizes (hsizes : plan.sizes = List.replicate objects.length n)
    (hbodies : List.Forall₂ (BodyOf n newXid) objects plan.bodies) (g : Geometry) :
    (relocate g (plan.placed objects)).zip plan.sizes = mapped n g (plan.placed objects) := by
  rw [hsizes, ← length_placed hbodies, ← @length_map _ _ (plan.placed objects)]
  exact zip_replicate _ _

/-- An append writes the objects, the maps and last the superblock. -/
lemma appendWith_logs (hxid : newXid < 2 ^ 64) (hplan : planAppend disc p newXid objects publish = .ok plan) :
    LogsLast Write.raw (appendWith disc p newXid objects publish)
      (blockWrites n plan.geometry newXid (plan.placed objects))
      (newDescriptorSlot plan.geometry (mapBlockCount n objects.length),
        plan.superblock n newXid objects.length publish) := by
  obtain ⟨-, -, hsizes, hbodies⟩ := planAppend_ok hxid hplan
  refine .lift_bind fun plan' hplan' => ?_
  cases hplan'.symm.trans hplan
  refine .lift_bind fun w hw => ?_
  obtain ⟨-, rfl⟩ := newWindows_eq_ok.mp hw
  refine .bind (writeBodies_logs _ _ _) fun relocated hrelocated => ?_
  obtain ⟨rfl, -⟩ := writeBodies_result hrelocated
  have hmaps := @writeMaps_logs _ newXid disc plan.geometry objects.length
    (mapped n plan.geometry (plan.placed objects))
  rw [← zip_sizes hsizes hbodies] at hmaps
  rw [← append_nil (mapWrites _ _ _ _), ← zip_sizes hsizes hbodies]
  refine .bind hmaps fun _ _ => .lift_bind fun paddr hpaddr => ?_
  rw [narrow_eq_ok, descriptorSlot_nextWindows] at hpaddr
  obtain ⟨-, rfl⟩ := hpaddr
  exact .lift_bind fun _ _ => .bind_pure (writeObject_logsLast _ _ _ _ _ _)

/-- An append that returned: what it worked out, and that its blocks are on the disc. -/
structure Appended (disc : Disc n) (newXid : ℕ) (objects : List EphemeralObject)
    (publish : CheckpointPublish) (plan : AppendPlan) (a : AppendedCheckpoint) : Prop where
  room : Room n plan.geometry objects.length
  result : a = ⟨newDescriptorSlot plan.geometry (mapBlockCount n objects.length),
    relocate plan.geometry (plan.placed objects)⟩
  objectSlot : ∀ x ∈ plan.placed objects,
    newDataSlot plan.geometry x.2 < 2 ^ 64 ∧ newDataSlot plan.geometry x.2 < disc.blockCount
  mapSlot : ∀ i ≤ mapBlockCount n objects.length,
    newDescriptorSlot plan.geometry i < 2 ^ 64 ∧ newDescriptorSlot plan.geometry i < disc.blockCount
  omapOid : publish.omapOid.isSome → 0xA8 ≤ plan.oldSuperblock.length

lemma appendWith_ok (hxid : newXid < 2 ^ 64) {a : AppendedCheckpoint}
    (h : (appendWith disc p newXid objects publish).result = .ok a) :
    ∃ plan, planAppend disc p newXid objects publish = .ok plan ∧ Appended disc newXid objects publish plan a := by
  simp only [appendWith, bind_result_ok, liftM, monadLift_result, newWindows_eq_ok, narrow_eq_ok, panicUnless_eq_ok,
    exists_unit, writeObject_result, pure_result, Except.ok.injEq] at h
  obtain ⟨plan, hplan, _, ⟨hroom, rfl⟩, relocated, hrelocated, hmaps, paddr, ⟨hlt, rfl⟩, homap, ⟨-, hp⟩, rfl⟩ := h
  obtain ⟨-, -, hsizes, hbodies⟩ := planAppend_ok hxid hplan
  obtain ⟨rfl, hobjects⟩ := writeBodies_result hrelocated
  rw [descriptorSlot_nextWindows] at hlt hp ⊢
  have hmapped := @zip_sizes n newXid _ _ hsizes hbodies plan.geometry
  have hlength : (mapped n plan.geometry (plan.placed objects)).length = objects.length := by
    rw [mapped, relocate, length_map, length_map, length_placed hbodies]
  refine ⟨plan, hplan, hroom, rfl, hobjects, fun i hi => ?_, homap⟩
  obtain hi | rfl := Nat.lt_or_eq_of_le hi
  · refine writeMaps_result hmaps ?_
    rw [show (relocate plan.geometry (objects.zip plan.bodies).zipIdx).zip plan.sizes
      = mapped n plan.geometry (plan.placed objects) from hmapped, hlength]
    exact hi
  · exact ⟨hlt, hp⟩

end Append

/-! ### The disc afterwards -/

section After

variable {n q : ℕ} {disc : Disc n} {ws : List (Write n)} {us vs : List (ℕ × Bytes)} {b : Bytes}

lemma after_block_cases (disc : Disc n) (ws : List (Write n)) (q : ℕ) :
    (disc.after ws).block q = disc.block q ∨ (q, ((disc.after ws).block q).1) ∈ ws.map Write.raw := by
  obtain ⟨hsame, -⟩ | hmem := Disk.apply_eq_or disc.block ws q
  · exact .inl hsame
  · exact .inr (mem_map.mpr ⟨_, hmem, rfl⟩)

lemma after_block_of_not_mem (h : ∀ b, (q, b) ∉ ws.map Write.raw) : (disc.after ws).block q = disc.block q :=
  (after_block_cases disc ws q).resolve_right (h _)

/-- Of the last writes, all are there if they go to different blocks. -/
lemma after_block_of_mem (h : ws.map Write.raw = us ++ vs) (hnodup : (vs.map Prod.fst).Nodup)
    (hmem : (q, b) ∈ vs) : ((disc.after ws).block q).1 = b := by
  change (disc.block.apply ws q).1 = b
  rw [Disk.map_apply Subtype.val]
  change Disk.apply _ (ws.map Write.raw) q = b
  rw [h, Disk.apply_append]
  exact Disk.apply_of_mem hnodup hmem

end After

/-! ### The new checkpoint loads -/

section Load

variable {n newXid : ℕ} {disc : Disc n} {g : Geometry}
    {placed : List ((EphemeralObject × Bytes) × ℕ)} {map : Bytes}
    {e : EphemeralObject} {loaded : List (ℕ × ℕ)} {paddr : ℕ} {l : List (EphemeralObject × Bytes)} {q : ℕ}

/-- The windows of a geometry replaced by those behind them. -/
abbrev Geometry.next (g : Geometry) (n objects : ℕ) : Geometry :=
  { g with
    descriptorIndex := (nextWindows n g objects).descriptorIndex
    descriptorLen := (nextWindows n g objects).descriptorLen
    dataIndex := (nextWindows n g objects).dataIndex
    dataLen := (nextWindows n g objects).dataLen }

lemma next_descriptorSlot (g : Geometry) (n objects i : ℕ) :
    (g.next n objects).descriptorSlot (nextWindows n g objects).descriptorIndex i
      = newDescriptorSlot g i := descriptorSlot_nextWindows n g objects i

lemma windowOffset_mod {j : ℕ} (hindex : g.dataIndex < g.dataBlocks) (hj : j < g.dataBlocks) :
    windowOffset g ((g.dataIndex + j) % g.dataBlocks) = .ok j := by
  unfold windowOffset
  by_cases h : g.dataIndex + j < g.dataBlocks
  · rw [Nat.mod_eq_of_lt h]
    split <;> simp only [minus_eq_ok] <;> omega
  · rw [Nat.mod_eq_sub_mod (by omega), Nat.mod_eq_of_lt (by omega)]
    split <;> simp only [minus_eq_ok] <;> omega

lemma blocks_one (hn : 0 < n) : (n + n - 1) / n = 1 := by
  rw [show n + n - 1 = n - 1 + n by omega, Nat.add_div_right _ hn, Nat.div_eq_of_lt (by omega)]

/-- The `j`-th object of a new checkpoint is loaded. -/
lemma loadEntry_new {k j : ℕ} {body : Bytes}
    (hn : 0x98 ≤ n) (hg : 0 < g.dataBlocks) (hj : j < k) (hk : g.dataLen + k ≤ g.dataBlocks)
    (hmap : 40 + j * 40 + 40 ≤ map.length) (hentry : EntryAt map (CPM_ENTRIES_OFFSET + j * CPM_ENTRY_BYTES)
      { e with paddr := newDataSlot g j } n)
      (hslot : newDataSlot g j < 2 ^ 64 ∧ newDataSlot g j < disc.blockCount)
      (hbody : BodyOf n newXid e body) (hblock : (disc.block (newDataSlot g j)).1 = body) :
      loadEntry disc (g.next n k) newXid map
          ⟨((nextWindows n g k).dataIndex + j) % g.dataBlocks, loaded⟩ j
        = .ok ⟨((nextWindows n g k).dataIndex + (j + 1)) % g.dataBlocks, loaded ++ [(e.oid, newDataSlot g j)]⟩ := by
  have hwanted : g.dataBase + ((nextWindows n g k).dataIndex + j) % g.dataBlocks = newDataSlot g j :=
    dataSlot_nextWindows n g k j
  have hoffset : windowOffset (g.next n k) (((nextWindows n g k).dataIndex + j) % g.dataBlocks) = .ok j :=
    windowOffset_mod (g := g.next n k) (Nat.mod_lt _ hg) (show j < g.dataBlocks by omega)
  have hcheck : checkObject newXid map (CPM_ENTRIES_OFFSET + j * CPM_ENTRY_BYTES)
      (disc.block (newDataSlot g j)).1 = .ok () := by
    have hlen := hbody.length
    simp only [checkObject, returns, checks, loadIf_eq_ok, not_not, hblock, hentry.oType, hentry.subtype, hentry.oid]
    exact ⟨_, ⟨by omega, rfl⟩, hbody.header.oType, _, ⟨by omega, rfl⟩, hbody.header.subtype, _,
      ⟨by omega, rfl⟩, hbody.header.oid, _, ⟨by omega, rfl⟩, hbody.header.xid⟩
  have hsize : ¬ (n = 0 ∨ n % n ≠ 0) := by
    rw [Nat.mod_self]
    omega
  simp only [loadEntry, returns, checks, narrow_eq_ok, loadIf_eq_ok, Disc.read_eq_ok, hwanted, hentry.size,
    hentry.oid, hentry.paddr, blocks_one (show 0 < n by omega)]
  refine ⟨?_, _, ⟨hslot.1, rfl⟩, not_not.mpr rfl, hsize, j, hoffset, ?_, _, ⟨hslot.2, rfl⟩, hcheck, hg.ne', ?_⟩
  · unfold CPM_ENTRIES_OFFSET CPM_ENTRY_BYTES
    omega
  · simp only [nextWindows]
    omega
  · rw [Nat.mod_add_mod, add_assoc]

/-- The objects of a new checkpoint are at their slots. -/
structure Placed (disc : Disc n) (g : Geometry) (newXid : ℕ) (l : List (EphemeralObject × Bytes)) :
    Prop where
  slot : ∀ j < l.length, newDataSlot g j < 2 ^ 64 ∧ newDataSlot g j < disc.blockCount
  body : ∀ j e b, l[j]? = some (e, b) → BodyOf n newXid e b ∧ (disc.block (newDataSlot g j)).1 = b

def pair (e : EphemeralObject) : ℕ × ℕ := (e.oid, e.paddr)

lemma relocate_concat (g : Geometry) (l : List (EphemeralObject × Bytes)) (e : EphemeralObject) (b : Bytes) :
    relocate g (l ++ [(e, b)]).zipIdx = relocate g l.zipIdx ++ [{ e with paddr := newDataSlot g l.length }] := by
  simp only [relocate, zipIdx_append, map_append, zipIdx_cons, zipIdx_nil, map_cons, map_nil, zero_add]

lemma BodyOf.fits {b : Bytes} (h : BodyOf n newXid e b)
    (hpaddr : paddr < 2 ^ 64) : ({ e with paddr } : EphemeralObject).Fits :=
  ⟨h.header.oid ▸ leAt_lt 8 b _, h.header.oType ▸ leAt_lt 4 b _, h.header.subtype ▸ leAt_lt 4 b _, hpaddr⟩

lemma loadEntries_new (hn : 0x98 ≤ n) (hn' : n < 2 ^ 32)
    (hg : 0 < g.dataBlocks) (hk : g.dataLen + l.length ≤ g.dataBlocks)
    (hcap : l.length ≤ mapCapacity n) (hlen : map.length = n)
    (hmap : MapOf map (mapped n g l.zipIdx)) (hplaced : Placed disc g newXid l) :
    ∃ cursor, (List.range l.length).foldlM (loadEntry disc (g.next n l.length) newXid map)
      ⟨(nextWindows n g l.length).dataIndex, []⟩ = .ok ⟨cursor, (relocate g l.zipIdx).map pair⟩ := by
  have hindex : (nextWindows n g l.length).dataIndex < g.dataBlocks := Nat.mod_lt _ hg
  -- along the loop: the objects done are loaded, and the cursor stands behind them
  obtain ⟨state, hfold, done, hdone, rfl⟩ := foldlM_range_ok (l := l)
    (f := loadEntry disc (g.next n l.length) newXid map)
    (b := ⟨(nextWindows n g l.length).dataIndex, []⟩)
    (I := fun state rest => ∃ done, done ++ rest = l ∧
      state = ⟨((nextWindows n g l.length).dataIndex + done.length) % g.dataBlocks,
        (relocate g done.zipIdx).map pair⟩)
    (by
      rintro i ⟨e, b⟩ rest state hdrop ⟨done, hdone, rfl⟩
      have hi : done.length = i := by
        have h1 := congrArg List.length hdrop
        have h2 := congrArg List.length hdone
        simp only [length_drop, length_cons, length_append] at h1 h2
        omega
      have hget : l[i]? = some (e, b) := by rw [← List.head?_drop, hdrop]; rfl
      have hlt : i < l.length := (List.getElem?_eq_some_iff.mp hget).1
      obtain ⟨hbody, hblock⟩ := hplaced.body i e b hget
      have hslot := hplaced.slot i hlt
      have hentry : (mapped n g l.zipIdx)[i]? = some ({ e with paddr := newDataSlot g i }, n) := by
        simp only [mapped, relocate, map_map, List.getElem?_map, List.getElem?_zipIdx, hget,
          Option.map_some, Function.comp_apply, zero_add]
      refine ⟨_, ?_, done ++ [(e, b)], by rw [append_assoc]; exact hdone, rfl⟩
      rw [hi, length_append, length_singleton, hi, relocate_concat, map_append, hi]
      refine loadEntry_new (e := e) hn hg hlt hk ?_ (hmap.entry i _ n hentry (hbody.fits hslot.1) hn')
        hslot hbody hblock
      have hcap' := hcap
      unfold mapCapacity CPM_ENTRIES_OFFSET CPM_ENTRY_BYTES at hcap'
      omega)
    ⟨[], rfl, by
      rw [length_nil, add_zero, Nat.mod_eq_of_lt hindex]
      rfl⟩
  rw [append_nil] at hdone
  subst hdone
  exact ⟨_, hfold⟩

lemma mapCapacity_le_self (n : ℕ) : mapCapacity n ≤ n :=
  (Nat.div_le_self _ _).trans (Nat.sub_le _ _)

lemma mapCapacity_pos (hn : 0x98 ≤ n) : 0 < mapCapacity n := by
  unfold mapCapacity CPM_ENTRIES_OFFSET CPM_ENTRY_BYTES
  omega

lemma mapBlockCount_pos (hn : 0x98 ≤ n) (k : ℕ) : 0 < mapBlockCount n k := by
  have hcap := mapCapacity_pos hn
  unfold mapBlockCount
  split
  · exact Nat.one_pos
  · exact Nat.div_pos (by omega) hcap

/-- One map block is enough exactly for the lists that fit it. -/
lemma mapBlockCount_le_one (hn : 0x98 ≤ n) (k : ℕ) : mapBlockCount n k ≤ 1 ↔ k ≤ mapCapacity n := by
  have hcap := mapCapacity_pos hn
  unfold mapBlockCount
  split
  · omega
  · rw [← Nat.lt_succ_iff, Nat.div_lt_iff_lt_mul hcap]
    omega

lemma checkMap_new {objects : List (EphemeralObject × ℕ)} (hn : 0x98 ≤ n)
    (hcap : objects.length ≤ mapCapacity n) (hlen : map.length = n)
    (hheader : Header map paddr newXid (TYPE_CHECKPOINT_MAP + OBJ_PHYSICAL) 0)
    (hmap : MapOf map objects) : checkMap n newXid paddr true map = .ok objects.length := by
  have hoffset : CPM_ENTRIES_OFFSET = 40 := rfl
  simp only [checkMap, returns, checks, loadIf_eq_ok, not_not, not_lt]
  exact ⟨_, ⟨by omega, rfl⟩, hheader.oType, _, ⟨by omega, rfl⟩, hheader.subtype, _, ⟨by omega, rfl⟩,
    hheader.xid, _, ⟨by omega, rfl⟩, hheader.oid, _, ⟨by omega, rfl⟩, by rw [hmap.flags]; rfl, _,
    ⟨by omega, rfl⟩, by omega, by rw [hmap.count]; exact hcap, hmap.count⟩

/-- The block at `q` is the superblock of a checkpoint behind the windows of `g`. -/
structure SuperblockAt (disc : Disc n) (q : ℕ) (g : Geometry) (newXid objects : ℕ) : Prop where
  onDisc : q < disc.blockCount
  xid : leAt 8 (disc.block q).1 0x10 = newXid
  geometry : Geometry.fields (disc.block q) = g.next n objects

lemma load_new (hn : 0x98 ≤ n) (hn' : n < 2 ^ 32)
    (hxid : newXid < 2 ^ 64) (hroom : Room n g l.length) (hcap : l.length ≤ mapCapacity n)
    (hg : 0 < g.dataBlocks) (hsb : SuperblockAt disc q g newXid l.length)
    (hslot : newDescriptorSlot g 0 < 2 ^ 64 ∧ newDescriptorSlot g 0 < disc.blockCount)
    (hmap : (disc.block (newDescriptorSlot g 0)).1
      = mapBlock n (newDescriptorSlot g 0) newXid (mapped n g l.zipIdx)) (hplaced : Placed disc g newXid l) :
    loadCheckpointData disc q = .ok ((relocate g l.zipIdx).map pair) := by
  have hone : mapBlockCount n l.length = 1 :=
    le_antisymm ((mapBlockCount_le_one hn _).mpr hcap) (mapBlockCount_pos hn _)
  have hlength : (mapped n g l.zipIdx).length = l.length := by simp [mapped, relocate]
  have hbody := @length_mapBody _ (mapped n g l.zipIdx) hn (hlength ▸ hcap)
  have hblocks : g.descriptorBlocks ≠ 0 := by
    have := hroom.descriptor
    omega
  have hmapOf : MapOf (mapBlock n (newDescriptorSlot g 0) newXid (mapped n g l.zipIdx))
      (mapped n g l.zipIdx) := by
    refine mapOf_objectBlock hn (hlength ▸ hcap) ?_
    have hself := mapCapacity_le_self n
    omega
  have hmapLength : (mapBlock n (newDescriptorSlot g 0) newXid (mapped n g l.zipIdx)).length = n :=
    length_objectBlock (by omega)
  obtain ⟨cursor, hfold⟩ := loadEntries_new hn hn' hg hroom.data hcap hmapLength hmapOf hplaced
  have hcheck := checkMap_new hn (hlength ▸ hcap) hmapLength
    (header_objectBlock (by omega) hslot.1 hxid (by decide) (by decide)) hmapOf
  rw [hlength] at hcheck
  have hloadMap : loadMap disc (g.next n l.length) newXid ⟨(nextWindows n g l.length).dataIndex, []⟩ 0
      = .ok ⟨cursor, (relocate g l.zipIdx).map pair⟩ := by
    simp only [loadMap, returns, checks, narrow_eq_ok, Disc.read_eq_ok, next_descriptorSlot]
    refine ⟨hblocks, _, ⟨hslot.1, rfl⟩, _, ⟨hslot.2, hmap⟩, l.length, ?_, hfold⟩
    rw [decide_eq_true (show 0 + 2 = (nextWindows n g l.length).descriptorLen by simp only [nextWindows, hone])]
    exact hcheck
  simp only [loadCheckpointData, returns, checks, Disc.read_eq_ok, loadIf_eq_ok]
  refine ⟨_, ⟨hsb.onDisc, rfl⟩, ?_, ?_, ⟨cursor, _⟩, ?_, rfl⟩
  · rw [(disc.block q).2]
    exact hn
  · rw [hsb.geometry]
    simp [nextWindows, hone]
  · rw [hsb.geometry, hsb.xid]
    simp only [nextWindows, hone, Nat.add_sub_cancel, range_one, foldlM_cons, foldlM_nil, returns]
    exact ⟨_, hloadMap, rfl⟩

/-- A checkpoint with more map blocks does not: the first of them is marked as the last. -/
lemma load_of_many_maps {objects : ℕ} (hn : 0x98 ≤ n)
    (hcap : mapCapacity n < objects) (hsb : SuperblockAt disc q g newXid objects)
    (hflags : leAt 4 (disc.block (newDescriptorSlot g 0)).1 0x20 = CPM_FLAGS_VALUE) :
    loadCheckpointData disc q ≠ .ok loaded := by
  have hmany : ¬ mapBlockCount n objects ≤ 1 := by
    rw [mapBlockCount_le_one hn]
    omega
  intro h
  simp only [loadCheckpointData, returns, checks, Disc.read_eq_ok] at h
  obtain ⟨_, ⟨-, rfl⟩, -, -, state, hfold, -⟩ := h
  rw [hsb.geometry, hsb.xid, show (g.next n objects).descriptorLen - 1 = mapBlockCount n objects from rfl,
    show mapBlockCount n objects = mapBlockCount n objects - 1 + 1 by omega, range_succ_eq_map,
    foldlM_cons, bind_eq_ok] at hfold
  obtain ⟨_, hmap, -⟩ := hfold
  simp only [loadMap, bind_eq_ok, narrow_eq_ok, Disc.read_eq_ok, next_descriptorSlot, checkMap,
    u32At_eq_ok, loadIf_eq_ok] at hmap
  obtain ⟨_, -, _, ⟨-, rfl⟩, _, ⟨-, rfl⟩, _, ⟨_, -, _, -, _, -, _, -, _, -, _, -, _, -, _, -, _, ⟨-, rfl⟩, _,
    hlast, -⟩, -⟩ := hmap
  rw [hflags,
    decide_eq_false (show ¬ 0 + 2 = (nextWindows n g objects).descriptorLen by simp only [nextWindows]; omega)] at hlast
  exact hlast (by decide)

end Load

end AppleUtils.Apfs.Repair
