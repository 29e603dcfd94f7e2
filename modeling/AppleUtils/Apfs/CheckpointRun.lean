import AppleUtils.Apfs.CheckpointAppend

/-! # Appends in a row

A container is *mounted* at a superblock if that is what the choice at mount gives, block zero names its
descriptor ring, and the rings are apart.  An append that returns moves the mount to its own superblock
if the objects fit one checkpoint map (`appended_loads_iff`); until its superblock is written the old
one stays, whatever part of the other writes has been done (`crash_safety`). -/

namespace AppleUtils.Apfs.Repair

open Bytes Checks List Repair.Geometry

variable {g : Geometry}

/-! ### Rings that are apart -/

/-- The rings overlap neither each other nor block zero. -/
structure Geometry.Apart (g : Geometry) : Prop where
  rings : g.descriptorBase + g.descriptorBlocks ≤ g.dataBase
    ∨ g.dataBase + g.dataBlocks ≤ g.descriptorBase
  descriptor : 0 < g.descriptorBase
  data : 0 < g.dataBase

section Slots

variable {n k : ℕ} {index a b : ℕ}

lemma Geometry.descriptorSlot_lt (hg : 0 < g.descriptorBlocks) (index offset : ℕ) :
    g.descriptorBase ≤ g.descriptorSlot index offset
      ∧ g.descriptorSlot index offset < g.descriptorBase + g.descriptorBlocks :=
  ⟨Nat.le_add_right _ _, Nat.add_lt_add_left (Nat.mod_lt _ hg) _⟩

lemma Geometry.dataSlot_lt (hg : 0 < g.dataBlocks) (index offset : ℕ) :
    g.dataBase ≤ g.dataSlot index offset ∧ g.dataSlot index offset < g.dataBase + g.dataBlocks :=
  ⟨Nat.le_add_right _ _, Nat.add_lt_add_left (Nat.mod_lt _ hg) _⟩

lemma Geometry.descriptorSlot_injective (ha : a < g.descriptorBlocks)
    (hb : b < g.descriptorBlocks) (h : g.descriptorSlot index a = g.descriptorSlot index b) : a = b :=
  ring_injective ha hb (Nat.add_left_cancel h)

lemma Geometry.dataSlot_injective (ha : a < g.dataBlocks) (hb : b < g.dataBlocks)
    (h : g.dataSlot index a = g.dataSlot index b) : a = b :=
  ring_injective ha hb (Nat.add_left_cancel h)

lemma Geometry.Apart.ne (h : g.Apart) (hd : 0 < g.descriptorBlocks) (hx : 0 < g.dataBlocks)
    (index index' a b : ℕ) : g.descriptorSlot index a ≠ g.dataSlot index' b := by
  have h1 := g.descriptorSlot_lt hd index a
  have h2 := g.dataSlot_lt hx index' b
  have h3 := h.rings
  omega

/-- Every block of the descriptor ring is at some offset from the window. -/
lemma Geometry.exists_descriptorSlot {s : ℕ} (hs : s < g.descriptorBlocks) :
    ∃ k < g.descriptorBlocks, g.descriptorSlot g.descriptorIndex k = g.descriptorBase + s := by
  obtain ⟨k, hk, hmod⟩ := exists_offset g.descriptorIndex hs
  exact ⟨k, hk, by rw [descriptorSlot, hmod]⟩

lemma newDescriptorSlot_nodup (hroom : Room n g k) :
    ((List.range (mapBlockCount n k + 1)).map (newDescriptorSlot g)).Nodup := by
  refine List.Nodup.map_on (fun a ha b hb h => ?_) nodup_range
  rw [mem_range] at ha hb
  have hd := hroom.descriptor
  have := g.descriptorSlot_injective (by omega) (by omega) h
  omega

lemma newDataSlot_nodup (hroom : Room n g k) : ((List.range k).map (newDataSlot g)).Nodup := by
  refine List.Nodup.map_on (fun a ha b hb h => ?_) nodup_range
  rw [mem_range] at ha hb
  have hx := hroom.data
  have := g.dataSlot_injective (by omega) (by omega) h
  omega

end Slots

/-! ### The writes of an append -/

section Writes

variable {n p newXid q : ℕ} {disc : Disc n} {objects : List EphemeralObject} {plan : AppendPlan}
    {b : Bytes} {l : List (EphemeralObject × ℕ)}

lemma getElem?_placed (j : ℕ) :
    (plan.placed objects)[j]? = ((objects.zip plan.bodies)[j]?).map fun x => (x, j) := by
  rw [AppendPlan.placed, List.getElem?_zipIdx]
  simp

/-- A body among those placed belongs to the object it stands with. -/
lemma bodyOf_zip {j : ℕ} {e : EphemeralObject} (hbodies : List.Forall₂ (BodyOf n newXid) objects plan.bodies)
    (h : (objects.zip plan.bodies)[j]? = some (e, b)) : BodyOf n newXid e b := by
  have hmem := mem_of_getElem? h
  exact (forall₂_iff_zip.mp hbodies).2 hmem

lemma mem_dataWrites (hbodies : List.Forall₂ (BodyOf n newXid) objects plan.bodies)
    (h : (q, b) ∈ dataWrites g (plan.placed objects)) :
    (∃ j < objects.length, q = newDataSlot g j) ∧ leAt 8 b 0x10 = newXid := by
  obtain ⟨⟨⟨e, b'⟩, j⟩, hmem, heq⟩ := mem_map.mp h
  obtain ⟨rfl, rfl⟩ := Prod.mk.inj heq
  obtain ⟨i, hi⟩ := mem_iff_getElem?.mp hmem
  rw [getElem?_placed, Option.map_eq_some_iff] at hi
  obtain ⟨_, hget, hpair⟩ := hi
  obtain ⟨rfl, rfl⟩ := Prod.mk.inj hpair
  have hlt := (List.getElem?_eq_some_iff.mp hget).1
  rw [length_zip] at hlt
  exact ⟨⟨i, by omega, rfl⟩, (bodyOf_zip hbodies hget).header.xid⟩

lemma length_chunk_le {α : Type} (size index : ℕ) (l : List α) : (chunk size index l).length ≤ size := by
  rw [chunk, length_take]
  exact min_le_left _ _

/-- The header of a map, wherever it is to be written. -/
lemma header_mapBlock {paddr : ℕ} (hn : 0x98 ≤ n) (hl : l.length ≤ mapCapacity n) (hxid : newXid < 2 ^ 64) :
    Header (mapBlock n paddr newXid l) (paddr % 2 ^ 64) newXid (TYPE_CHECKPOINT_MAP + OBJ_PHYSICAL) 0 := by
  have hbody := length_mapBody hn hl
  have hmod : mapBlock n paddr newXid l = mapBlock n (paddr % 2 ^ 64) newXid l := by
    simp only [mapBlock, objectBlock, sealBlock, u64]
    rw [show (2 : ℕ) ^ 64 = 256 ^ 8 by norm_num, leBytes_mod]
  rw [hmod]
  exact header_objectBlock (by omega) (Nat.mod_lt _ (by norm_num)) hxid (by decide) (by decide)

lemma mem_mapWrites (hn : 0x98 ≤ n) (hxid : newXid < 2 ^ 64) (h : (q, b) ∈ mapWrites n g newXid l) :
    ∃ i < mapBlockCount n l.length, q = newDescriptorSlot g i
      ∧ Header b (q % 2 ^ 64) newXid (TYPE_CHECKPOINT_MAP + OBJ_PHYSICAL) 0 := by
  obtain ⟨i, hi, heq⟩ := mem_map.mp h
  obtain ⟨rfl, rfl⟩ := Prod.mk.inj heq
  exact ⟨i, mem_range.mp hi, rfl, header_mapBlock hn (length_chunk_le _ _ _) hxid⟩

lemma Header.not_isSuperblock {oid xid subtype : ℕ}
    (h : Header b oid xid (TYPE_CHECKPOINT_MAP + OBJ_PHYSICAL) subtype) : ¬ IsSuperblock b := by
  rintro ⟨htype, -⟩
  rw [h.oType] at htype
  revert htype
  decide

lemma length_mapped (hbodies : List.Forall₂ (BodyOf n newXid) objects plan.bodies) (g : Geometry) :
    (mapped n g (plan.placed objects)).length = objects.length := by
  rw [mapped, relocate, length_map, length_map, length_placed hbodies]

/-- A block written before the superblock is an object in the data ring or a map in the descriptor
ring; either carries the new transaction. -/
lemma mem_blockWrites (hn : 0x98 ≤ n) (hxid : newXid < 2 ^ 64)
    (hbodies : List.Forall₂ (BodyOf n newXid) objects plan.bodies)
    (h : (q, b) ∈ blockWrites n g newXid (plan.placed objects)) :
    leAt 8 b 0x10 = newXid ∧ ((∃ j < objects.length, q = newDataSlot g j)
      ∨ (∃ i < mapBlockCount n objects.length, q = newDescriptorSlot g i) ∧ ¬ IsSuperblock b) := by
  obtain h | h := mem_append.mp h
  · obtain ⟨hslot, hb⟩ := mem_dataWrites hbodies h
    exact ⟨hb, .inl hslot⟩
  · obtain ⟨i, hi, hq, hheader⟩ := mem_mapWrites hn hxid h
    rw [length_mapped hbodies] at hi
    exact ⟨hheader.xid, .inr ⟨⟨i, hi, hq⟩, hheader.not_isSuperblock⟩⟩

end Writes

/-! ### Refusals -/

section Refusals

variable {n : ℕ} {disc : Disc n}

/-- The errors of the checks of `append_with`; the others are those of the disc. -/
def IsValidation : CheckpointError → Prop
  | .disc _ | .write _ => False
  | .malformed _ | .notInPublishedCheckpoint _ | .multiBlockEphemeralObject _ _ | .ringFull => True

/-- What the writes of an append can stop with. -/
def OfWriting (stop : Stop) : Prop := ∀ e, stop = .checkpoint e → ¬ IsValidation e

/-- An append that is refused, by its checks or for want of room, has written nothing. -/
lemma appendWith_cases (disc : Disc n) (p newXid : ℕ) (objects : List EphemeralObject)
    (publish : CheckpointPublish) : (appendWith disc p newXid objects publish).log = []
      ∨ ∃ plan w, planAppend disc p newXid objects publish = .ok plan
        ∧ newWindows n plan.geometry objects.length = .ok w := by
  cases hplan : planAppend disc p newXid objects publish with
  | error e =>
    left
    rw [appendWith, hplan]
    rfl
  | ok plan =>
    cases hw : newWindows n plan.geometry objects.length with
    | error e =>
      left
      simp only [appendWith, hplan, liftM, Logged.monadLift_ok, Logged.pure_bind, hw,
        Logged.monadLift_error, Logged.throw_bind]
      rfl
    | ok w => exact .inr ⟨plan, w, rfl, hw⟩

lemma stopIf_fails {c : Prop} [Decidable c] {stop : Stop} (h : OfWriting stop) :
    Logged.Fails (τ := Write n) OfWriting (liftM (stopIf c stop)) := by
  intro e he
  change stopIf c stop = .error e at he
  unfold stopIf failIf at he
  split at he
  · cases he
    exact h
  · cases he

lemma narrow_fails (v : ℕ) : Logged.Fails (τ := Write n) OfWriting (liftM (narrow 64 v)) := by
  intro e he
  change narrow 64 v = .error e at he
  unfold narrow at he
  split at he
  · cases he
  · cases he
    exact fun _ h => by cases h

lemma writeBlock_fails {stop : DiscError → Stop} (h : ∀ e, OfWriting (stop e)) (paddr : ℕ) (data : Bytes) :
    Logged.Fails OfWriting (disc.writeBlock paddr data stop) := by
  unfold Disc.writeBlock
  split
  · exact (stopIf_fails (h _)).bind fun _ e he => by cases he
  · intro e he
    cases he
    exact h _

lemma writeObject_fails (paddr oid xid oType subtype : ℕ) (body : Bytes) :
    Logged.Fails OfWriting (disc.writeObject paddr oid xid oType subtype body) := by
  have hwrite (e : ObjectWriteError) : OfWriting (.checkpoint (.write e)) := by
    rintro _ ⟨⟩
    exact id
  exact (stopIf_fails (hwrite _)).bind fun _ => writeBlock_fails (fun _ => hwrite _) _ _

/-- A checkpoint is refused before anything is written: an error of the checks leaves every block as it
was. -/
theorem append_validates_first (disc : Disc n) (p newXid : ℕ) (objects : List EphemeralObject)
    (publish : CheckpointPublish) (e : CheckpointError) (he : IsValidation e)
    (h : (appendWith disc p newXid objects publish).result = .error (.checkpoint e)) :
    (appendWith disc p newXid objects publish).log = []
      ∧ disc.after (appendWith disc p newXid objects publish).log = disc := by
  suffices hlog : (appendWith disc p newXid objects publish).log = [] from ⟨hlog, by rw [hlog]; rfl⟩
  rcases appendWith_cases disc p newXid objects publish with hlog | ⟨plan, w, hplan, hw⟩
  · exact hlog
  · refine absurd he ?_
    simp only [appendWith, hplan, liftM, Logged.monadLift_ok, Logged.pure_bind, hw] at h
    suffices hstop : OfWriting (.checkpoint e) from hstop e rfl
    refine Logged.Fails.bind (.foldlM (fun relocated entry => ?_) _ _) (fun relocated => ?_) _ h
    · refine (narrow_fails _).bind fun paddr => (writeBlock_fails ?_ _ _).bind fun _ => .ret _
      rintro _ _ ⟨⟩
      exact id
    · refine Logged.Fails.bind (.forM (fun index => ?_) _) fun _ => ?_
      · exact (narrow_fails _).bind fun paddr => writeObject_fails _ _ _ _ _ _
      · refine (narrow_fails _).bind fun paddr => (stopIf_fails ?_).bind fun _ => ?_
        · exact fun _ h => by cases h
        · exact (writeObject_fails _ _ _ _ _ _).bind fun _ => .ret _

end Refusals

/-! ### An interrupted append -/

section Crash

variable {n p newXid xid : ℕ} {disc : Disc n} {objects : List EphemeralObject}
    {publish : CheckpointPublish} {plan : AppendPlan} {ws : List (Write n)}

/-- No superblock in the ring carries the transaction, apart from the `taken` slots behind the
window. -/
def Fresh (disc : Disc n) (g : Geometry) (xid taken : ℕ) : Prop :=
  ∀ k < g.descriptorBlocks, k < g.descriptorLen ∨ g.descriptorLen + taken ≤ k →
    IsSuperblock (disc.block (g.descriptorSlot g.descriptorIndex k)).1 →
    leAt 8 (disc.block (g.descriptorSlot g.descriptorIndex k)).1 0x10 ≠ xid

/-- The writes of an append before its superblock, or some of them from the first on. -/
structure Interrupted (disc : Disc n) (p newXid : ℕ) (objects : List EphemeralObject)
    (publish : CheckpointPublish) (ws : List (Write n)) : Prop where
  isPrefix : ws <+: (appendWith disc p newXid objects publish).log
  unfinished : ∀ a, (appendWith disc p newXid objects publish).result = .ok a →
    ws ≠ (appendWith disc p newXid objects publish).log

/-- An append that has not begun, or that has written some of its blocks. -/
lemma Interrupted.cases (hxid : newXid < 2 ^ 64) (h : Interrupted disc p newXid objects publish ws) :
    ws = [] ∨ ∃ plan, planAppend disc p newXid objects publish = .ok plan ∧ Room n plan.geometry objects.length
      ∧ ws.map Write.raw <+: blockWrites n plan.geometry newXid (plan.placed objects) := by
  rcases appendWith_cases disc p newXid objects publish with hlog | ⟨plan, w, hplan, hw⟩
  · exact .inl (prefix_nil.mp (hlog ▸ h.isPrefix))
  · have hroom := (newWindows_eq_ok.mp hw).1
    exact .inr ⟨plan, hplan, hroom, (appendWith_logs hxid hplan).before h.isPrefix h.unfinished⟩

/-- The choice at mount is the superblock at `p`, among those of its own descriptor ring, which block
zero names; the rings are apart. -/
structure Mounted (disc : Disc n) (p xid : ℕ) (g : Geometry) : Prop where
  geometry : fields (disc.block p) = g
  best : bestLoadableCheckpoint disc = .ok (some (xid, p))
  zero : ZeroNames disc g.descriptorBase g.descriptorBlocks
  apart : g.Apart

/-- The published checkpoint lies in its windows: the superblock in the one, the objects that are
loaded in the other. -/
structure InWindows (disc : Disc n) (p : ℕ) (g : Geometry) : Prop where
  superblock : ∃ k < g.descriptorLen, p = g.descriptorSlot g.descriptorIndex k
  objects : ∀ loaded, loadCheckpointData disc p = .ok loaded →
    ∀ x ∈ loaded, ∃ k < g.dataLen, x.2 = g.dataSlot g.dataIndex k

/-- The blocks of the published windows are the same on both discs. -/
structure WindowsKept (disc disc' : Disc n) (g : Geometry) : Prop where
  descriptor : ∀ k < g.descriptorLen, disc'.block (g.descriptorSlot g.descriptorIndex k)
    = disc.block (g.descriptorSlot g.descriptorIndex k)
  data : ∀ k < g.dataLen, disc'.block (g.dataSlot g.dataIndex k)
    = disc.block (g.dataSlot g.dataIndex k)

lemma windowsKept_of_writes (hn : 0x98 ≤ n)
    (hxid : newXid < 2 ^ 64) (hpub : Published disc p g) (happart : g.Apart) (hroom : Room n g objects.length)
    (hbodies : List.Forall₂ (BodyOf n newXid) objects plan.bodies)
    (hws : ws.map Write.raw <+: blockWrites n g newXid (plan.placed objects)) :
    WindowsKept disc (disc.after ws) g := by
  have hd := hroom.descriptor
  have hx := hroom.data
  constructor
  · intro k hk
    refine after_block_of_not_mem fun b hb => ?_
    obtain ⟨-, ⟨j, hj, heq⟩ | ⟨⟨i, hi, heq⟩, -⟩⟩ := mem_blockWrites hn hxid hbodies (hws.subset hb)
    · exact happart.ne hpub.descriptorBlocks hpub.dataBlocks _ _ _ _ heq
    · have := g.descriptorSlot_injective (by omega) (by omega) heq
      omega
  · intro k hk
    refine after_block_of_not_mem fun b hb => ?_
    obtain ⟨-, ⟨j, hj, heq⟩ | ⟨⟨i, hi, heq⟩, -⟩⟩ := mem_blockWrites hn hxid hbodies (hws.subset hb)
    · have := g.dataSlot_injective (by omega) (by omega) heq
      omega
    · exact happart.ne hpub.descriptorBlocks hpub.dataBlocks _ _ _ _ heq.symm

/-- Block zero still names the ring after writes to new slots of the rings. -/
lemma Mounted.zero_kept (h : Mounted disc p xid g)
    (hws : ∀ q b, (q, b) ∈ ws.map Write.raw → (∃ j, q = newDataSlot g j) ∨ ∃ i, q = newDescriptorSlot g i) :
    ZeroNames (disc.after ws) g.descriptorBase g.descriptorBlocks := by
  have hsame : (disc.after ws).block 0 = disc.block 0 := by
    have h1 := h.apart.descriptor
    have h2 := h.apart.data
    refine after_block_of_not_mem fun b hb => ?_
    obtain ⟨j, heq⟩ | ⟨i, heq⟩ := hws 0 b hb
    · unfold newDataSlot dataSlot at heq
      omega
    · unfold newDescriptorSlot descriptorSlot at heq
      omega
  exact ⟨h.zero.onDisc, h.zero.length, hsame ▸ h.zero.base_eq, hsame ▸ h.zero.blocks_eq⟩

/-- The loader finds the published checkpoint as long as its windows are kept. -/
lemma InWindows.load_kept {disc' : Disc n} {loaded : List (ℕ × ℕ)}
    (h : InWindows disc p g) (hg : fields (disc.block p) = g)
    (hcount : disc'.blockCount = disc.blockCount) (hkept : WindowsKept disc disc' g)
    (hload : loadCheckpointData disc p = .ok loaded) : loadCheckpointData disc' p = .ok loaded := by
  obtain ⟨k, hk, hp⟩ := h.superblock
  refine load_congr hload hcount (hp ▸ hkept.descriptor k hk) ?_ ?_
  · rw [hg]
    exact fun slot hslot => hkept.descriptor slot (by omega)
  · intro x hx
    obtain ⟨k, hk, hx2⟩ := h.objects loaded hload x hx
    exact hx2 ▸ hkept.data k hk

/-- An interrupted append keeps the published windows and the choice at mount. -/
lemma Interrupted.safe (hxid : newXid < 2 ^ 64)
    (hmounted : Mounted disc p xid g) (hwindows : InWindows disc p g) (hfresh : Fresh disc g newXid 0)
    (h : Interrupted disc p newXid objects publish ws) : WindowsKept disc (disc.after ws) g
      ∧ bestLoadableCheckpoint (disc.after ws) = .ok (some (xid, p)) := by
  obtain rfl | ⟨plan, hplan, hroom, hws⟩ := h.cases hxid
  · exact ⟨⟨fun _ _ => rfl, fun _ _ => rfl⟩, hmounted.best⟩
  obtain ⟨-, hpub, -, hbodies⟩ := planAppend_ok hxid hplan
  obtain rfl : g = plan.geometry := hmounted.geometry.symm.trans hpub.geometry
  have hn := hpub.length
  have hkept := windowsKept_of_writes hn hxid hpub hmounted.apart hroom hbodies hws
  have hwritten := fun q b (hb : (q, b) ∈ ws.map Write.raw) =>
    mem_blockWrites hn hxid hbodies (hws.subset hb)
  have hchanged : ChangedBy newXid disc (disc.after ws) :=
    ⟨rfl, fun q => (after_block_cases disc ws q).imp_right fun hmem => (hwritten _ _ hmem).1⟩
  have hzero := hmounted.zero_kept fun q b hb => (hwritten q b hb).2.imp
    (fun ⟨j, _, hj⟩ => ⟨j, hj⟩) fun ⟨⟨i, _, hi⟩, _⟩ => ⟨i, hi⟩
  refine ⟨hkept, (best_iff_newest hzero).mpr ?_⟩
  have hnewest := (best_iff_newest hmounted.zero).mp hmounted.best
  obtain ⟨k, hk, hp⟩ := hwindows.superblock
  refine ⟨hnewest.slot, ?_, fun s hs => ?_⟩
  · obtain ⟨hcount, hsb, ⟨loaded, hload⟩, hxid'⟩ := (candidate_eq_some hn).mp hnewest.loads
    have hsame : (disc.after ws).block p = disc.block p := hp ▸ hkept.descriptor k hk
    refine (candidate_eq_some hn).mpr ⟨hcount, hsame ▸ hsb, ⟨loaded, ?_⟩, hsame ▸ hxid'⟩
    exact hwindows.load_kept hmounted.geometry rfl hkept hload
  · obtain ⟨hlt, found, hfound, hother⟩ := hnewest.others s hs
    refine ⟨hlt, ?_⟩
    obtain ⟨k', hk', hslot⟩ := plan.geometry.exists_descriptorSlot hs
    have hcount := candidate_onDisc hfound
    obtain hsame | hmem := after_block_cases disc ws (plan.geometry.descriptorBase + s)
    · have hne := hfresh k' hk' (by omega)
      rw [hslot] at hne
      obtain hcand | hcand := hchanged.candidate_follows hn hcount hsame hne hfound
      · exact ⟨found, hcand, hother⟩
      · exact ⟨none, hcand, nofun⟩
    · obtain ⟨-, ⟨j, -, heq⟩ | ⟨-, hnot⟩⟩ := hwritten _ _ hmem
      · exact absurd (hslot.trans heq) (hmounted.apart.ne hpub.descriptorBlocks hpub.dataBlocks _ _ _ _)
      · exact ⟨none, candidate_of_not hn hcount hnot, nofun⟩

end Crash

/-! ### A finished append -/

section Finished

variable {n p newXid xid : ℕ} {disc : Disc n} {objects : List EphemeralObject}
    {publish : CheckpointPublish} {plan : AppendPlan} {a : AppendedCheckpoint}

/-- The disc after an append. -/
def afterAppend (disc : Disc n) (p newXid : ℕ) (objects : List EphemeralObject)
    (publish : CheckpointPublish) : Disc n :=
  disc.after (appendWith disc p newXid objects publish).log

/-- The writes to the descriptor ring. -/
def descriptorWrites (n newXid : ℕ) (objects : List EphemeralObject) (publish : CheckpointPublish)
    (plan : AppendPlan) : List (ℕ × Bytes) :=
  mapWrites n plan.geometry newXid (mapped n plan.geometry (plan.placed objects))
    ++ [(newDescriptorSlot plan.geometry (mapBlockCount n objects.length),
      plan.superblock n newXid objects.length publish)]

lemma fst_descriptorWrites (hbodies : List.Forall₂ (BodyOf n newXid) objects plan.bodies) :
    (descriptorWrites n newXid objects publish plan).map Prod.fst
      = (List.range (mapBlockCount n objects.length + 1)).map (newDescriptorSlot plan.geometry) := by
  rw [descriptorWrites, map_append, mapWrites, length_mapped hbodies, map_map, range_succ, map_append]
  rfl

lemma fst_dataWrites (hbodies : List.Forall₂ (BodyOf n newXid) objects plan.bodies) (g : Geometry) :
    (dataWrites g (plan.placed objects)).map Prod.fst = (List.range objects.length).map (newDataSlot g) := by
  have hsnd : (plan.placed objects).map Prod.snd = List.range objects.length := by
    rw [← length_placed hbodies, AppendPlan.placed, zipIdx_map_snd, length_zipIdx, range_eq_range']
  rw [← hsnd, dataWrites, map_map, map_map]
  rfl

section

variable (hxid : newXid < 2 ^ 64) (hplan : planAppend disc p newXid objects publish = .ok plan)
    (happended : Appended disc newXid objects publish plan a)
    (hok : (appendWith disc p newXid objects publish).result = .ok a)

include hxid hplan happended hok

omit happended in
lemma log_appended : (appendWith disc p newXid objects publish).log.map Write.raw
    = dataWrites plan.geometry (plan.placed objects) ++ descriptorWrites n newXid objects publish plan := by
  rw [(appendWith_logs hxid hplan).of_ok hok, blockWrites, append_assoc]
  rfl

/-- The new superblock is there, whatever the rings are. -/
lemma superblockAt_appended :
    SuperblockAt (afterAppend disc p newXid objects publish) a.superblockPaddr plan.geometry newXid objects.length
    ∧ IsSuperblock ((afterAppend disc p newXid objects publish).block a.superblockPaddr).1 := by
  obtain ⟨hsb, hpub, -, hbodies⟩ := planAppend_ok hxid hplan
  have hn := hpub.length
  have hroom := happended.room
  have hlen : plan.oldSuperblock.length = n := hsb ▸ (disc.block p).2
  have homap := happended.omapOid
  rw [hlen] at homap
  have hblock : ((afterAppend disc p newXid objects publish).block a.superblockPaddr).1
      = plan.superblock n newXid objects.length publish := by
    refine after_block_of_mem (log_appended hxid hplan hok) ?_ ?_
    · rw [fst_descriptorWrites hbodies]
      exact newDescriptorSlot_nodup hroom
    · rw [happended.result]
      exact mem_append_right _ (mem_singleton_self _)
  have hd := hroom.descriptor
  have hx := hroom.data
  have hbound : plan.geometry.descriptorBlocks < 2 ^ 32 ∧ plan.geometry.dataBlocks < 2 ^ 32 := by
    rw [← hpub.geometry]
    exact ⟨leAt_lt 4 _ _, leAt_lt 4 _ _⟩
  have hdi := Nat.mod_lt (plan.geometry.descriptorIndex + plan.geometry.descriptorLen)
    hpub.descriptorBlocks
  have hxi := Nat.mod_lt (plan.geometry.dataIndex + plan.geometry.dataLen) hpub.dataBlocks
  refine ⟨⟨?_, ?_, ?_⟩, ?_⟩
  · rw [happended.result]
    exact (happended.mapSlot _ le_rfl).2
  · rw [hblock]
    exact (header_newSuperblock hlen hn homap hxid).xid
  · rw [hblock, AppendPlan.superblock, fields_newSuperblock hlen hn homap, hsb, hpub.geometry]
    all_goals simp only [nextWindows]; omega
  · rw [hblock]
    exact isSuperblock_new hlen hn homap hxid (hsb ▸ hpub.isSuperblock)

/-- The checkpoint maps are there, whatever the rings are. -/
lemma map_appended {i : ℕ} (hi : i < mapBlockCount n objects.length) :
    ((afterAppend disc p newXid objects publish).block (newDescriptorSlot plan.geometry i)).1
      = mapBlock n (newDescriptorSlot plan.geometry i) newXid
          (chunk (mapCapacity n) i (mapped n plan.geometry (plan.placed objects))) := by
  obtain ⟨-, -, -, hbodies⟩ := planAppend_ok hxid hplan
  refine after_block_of_mem (log_appended hxid hplan hok) ?_ ?_
  · rw [fst_descriptorWrites hbodies]
    exact newDescriptorSlot_nodup happended.room
  · refine mem_append_left _ (mem_map.mpr ⟨i, ?_, rfl⟩)
    rw [length_mapped hbodies, mem_range]
    exact hi

/-- The objects are there if the rings are apart. -/
lemma placed_appended (happart : plan.geometry.Apart) :
    Placed (afterAppend disc p newXid objects publish) plan.geometry newXid (objects.zip plan.bodies) := by
  obtain ⟨-, hpub, -, hbodies⟩ := planAppend_ok hxid hplan
  have hmem : ∀ j x, (objects.zip plan.bodies)[j]? = some x → (x, j) ∈ plan.placed objects := by
    intro j x hx
    refine mem_of_getElem? (i := j) ?_
    rw [getElem?_placed, hx]
    rfl
  constructor
  · intro j hj
    exact happended.objectSlot _ (hmem j _ (List.getElem?_eq_getElem hj))
  · intro j e b hget
    refine ⟨bodyOf_zip hbodies hget, ?_⟩
    refine after_block_of_mem ((log_appended hxid hplan hok).trans
      (nil_append _).symm) ?_ ?_
    · rw [map_append, fst_dataWrites hbodies, fst_descriptorWrites hbodies, nodup_append']
      refine ⟨newDataSlot_nodup happended.room, newDescriptorSlot_nodup happended.room, ?_⟩
      intro q hq hq'
      obtain ⟨j, -, rfl⟩ := mem_map.mp hq
      obtain ⟨i, -, heq⟩ := mem_map.mp hq'
      exact happart.ne hpub.descriptorBlocks hpub.dataBlocks _ _ _ _ heq
    · exact mem_append_left _ (mem_map.mpr ⟨((e, b), j), hmem j _ hget, rfl⟩)

lemma mem_log {q : ℕ} {b : Bytes} (h : (q, b) ∈ (appendWith disc p newXid objects publish).log.map Write.raw) :
    leAt 8 b 0x10 = newXid ∧ ((∃ j, q = newDataSlot plan.geometry j)
      ∨ ∃ i ≤ mapBlockCount n objects.length, q = newDescriptorSlot plan.geometry i) := by
  obtain ⟨hsb, hpub, -, hbodies⟩ := planAppend_ok hxid hplan
  have hlen : plan.oldSuperblock.length = n := hsb ▸ (disc.block p).2
  have homap := happended.omapOid
  rw [hlen] at homap
  rw [(appendWith_logs hxid hplan).of_ok hok] at h
  obtain h | h := mem_append.mp h
  · obtain ⟨hb, ⟨j, -, hq⟩ | ⟨⟨i, hi, hq⟩, -⟩⟩ := mem_blockWrites hpub.length hxid hbodies h
    · exact ⟨hb, .inl ⟨j, hq⟩⟩
    · exact ⟨hb, .inr ⟨i, hi.le, hq⟩⟩
  · obtain ⟨rfl, rfl⟩ := Prod.mk.inj (mem_singleton.mp h)
    exact ⟨(header_newSuperblock hlen hpub.length homap hxid).xid, .inr ⟨_, le_rfl, rfl⟩⟩

/-- The new checkpoint is loaded if one map holds its objects. -/
lemma load_appended (happart : plan.geometry.Apart) (hfits : objects.length ≤ mapCapacity n) :
    loadCheckpointData (afterAppend disc p newXid objects publish) a.superblockPaddr
      = .ok (a.ephemeralObjects.map pair) := by
  obtain ⟨-, hpub, -, hbodies⟩ := planAppend_ok hxid hplan
  have hn := hpub.length
  have hlen : (objects.zip plan.bodies).length = objects.length := by
    rw [length_zip, ← hbodies.length_eq, Nat.min_self]
  have hsb := (superblockAt_appended hxid hplan happended hok).1
  have hmap := map_appended hxid hplan happended hok (mapBlockCount_pos hn objects.length)
  have hchunk : chunk (mapCapacity n) 0 (mapped n plan.geometry (plan.placed objects))
      = mapped n plan.geometry (plan.placed objects) := by
    rw [chunk, zero_mul, drop_zero, take_of_length_le]
    rw [length_mapped hbodies]
    exact hfits
  rw [hchunk] at hmap
  have hn' : n < 2 ^ 32 := by
    rw [← hpub.blockSize, ← hpub.geometry]
    exact leAt_lt 4 _ _
  rw [happended.result] at hsb ⊢
  exact load_new hn hn' hxid (hlen.symm ▸ happended.room) (hlen.symm ▸ hfits) hpub.dataBlocks
    (hlen.symm ▸ hsb) (happended.mapSlot 0 (Nat.zero_le _)) hmap
    (placed_appended hxid hplan happended hok happart)

/-- The choice at mount is the new checkpoint if it loads. -/
lemma newest_appended (hmounted : Mounted disc p xid plan.geometry) (hnewer : xid < newXid)
    (hfresh : Fresh disc plan.geometry newXid (mapBlockCount n objects.length + 1))
    (hload : ∃ loaded, loadCheckpointData (afterAppend disc p newXid objects publish)
      a.superblockPaddr = .ok loaded) :
    Newest (afterAppend disc p newXid objects publish) plan.geometry.descriptorBase
      plan.geometry.descriptorBlocks newXid a.superblockPaddr := by
  obtain ⟨-, hpub, -, hbodies⟩ := planAppend_ok hxid hplan
  have hn := hpub.length
  have hwritten := fun q b => mem_log (q := q) (b := b) hxid hplan happended hok
  obtain ⟨hsb, hsuper⟩ := superblockAt_appended hxid hplan happended hok
  have hq : a.superblockPaddr
      = newDescriptorSlot plan.geometry (mapBlockCount n objects.length) := by rw [happended.result]
  have hcandidate : candidate (afterAppend disc p newXid objects publish) a.superblockPaddr
      = .ok (some newXid) := (candidate_eq_some hn).mpr ⟨hsb.onDisc, hsuper, hload, hsb.xid⟩
  have hchanged : ChangedBy newXid disc (afterAppend disc p newXid objects publish) :=
    ⟨rfl, fun q => (after_block_cases disc _ q).imp_right fun hmem => (hwritten _ _ hmem).1⟩
  have hnewest := (best_iff_newest hmounted.zero).mp hmounted.best
  refine ⟨hq ▸ plan.geometry.descriptorSlot_lt hpub.descriptorBlocks _ _, hcandidate, fun s hs => ?_⟩
  obtain ⟨hlt, found, hfound, hother⟩ := hnewest.others s hs
  refine ⟨hlt, ?_⟩
  obtain ⟨k, hk, hslot⟩ := plan.geometry.exists_descriptorSlot hs
  have hcount := candidate_onDisc hfound
  -- the slot is the superblock's, a map's, or was not written
  by_cases hin : plan.geometry.descriptorLen ≤ k
      ∧ k < plan.geometry.descriptorLen + (mapBlockCount n objects.length + 1)
  · obtain ⟨i, rfl⟩ := Nat.exists_eq_add_of_le hin.1
    obtain hi | rfl := Nat.lt_or_eq_of_le (show i ≤ mapBlockCount n objects.length by omega)
    · have hmap := map_appended hxid hplan happended hok hi
      rw [show newDescriptorSlot plan.geometry i = plan.geometry.descriptorBase + s from hslot] at hmap
      refine ⟨none, candidate_of_not hn hcount ?_, nofun⟩
      rw [hmap]
      exact (header_mapBlock hn (length_chunk_le _ _ _) hxid).not_isSuperblock
    · refine ⟨some newXid, ?_, fun x hx => .inr ⟨(Option.some.inj hx).symm, ?_⟩⟩
      · rw [hq] at hcandidate
        rw [← hslot]
        exact hcandidate
      · rw [← hslot, hq]
        rfl
  · have hsame : (afterAppend disc p newXid objects publish).block (plan.geometry.descriptorBase + s)
        = disc.block (plan.geometry.descriptorBase + s) := by
      refine after_block_of_not_mem fun b hb => ?_
      rw [← hslot] at hb
      obtain ⟨-, ⟨j, heq⟩ | ⟨i, hi, heq⟩⟩ := hwritten _ _ hb
      · exact hmounted.apart.ne hpub.descriptorBlocks hpub.dataBlocks _ _ _ _ heq
      · have hd := happended.room.descriptor
        have := plan.geometry.descriptorSlot_injective hk (by omega) heq
        omega
    have hne := hfresh k hk (by omega)
    rw [hslot] at hne
    obtain hcand | hcand := hchanged.candidate_follows hn hcount hsame hne hfound
    · refine ⟨found, hcand, fun x hx => ?_⟩
      have := hother x hx
      omega
    · exact ⟨none, hcand, nofun⟩

/-- An append moves the mount. -/
lemma mounted_appended (hmounted : Mounted disc p xid plan.geometry) (hnewer : xid < newXid)
    (hfresh : Fresh disc plan.geometry newXid (mapBlockCount n objects.length + 1))
    (hfits : objects.length ≤ mapCapacity n) :
    Mounted (afterAppend disc p newXid objects publish) a.superblockPaddr newXid (plan.geometry.next n objects.length)
      ∧ InWindows (afterAppend disc p newXid objects publish) a.superblockPaddr
        (plan.geometry.next n objects.length) := by
  have hload := load_appended hxid hplan happended hok hmounted.apart hfits
  have hwritten := fun q b => mem_log (q := q) (b := b) hxid hplan happended hok
  have hzero := hmounted.zero_kept fun q b hb => (hwritten q b hb).2.imp_right
    fun ⟨i, _, hi⟩ => ⟨i, hi⟩
  have hnewest := newest_appended hxid hplan happended hok hmounted hnewer hfresh ⟨_, hload⟩
  refine ⟨⟨(superblockAt_appended hxid hplan happended hok).1.geometry, (best_iff_newest hzero).mpr hnewest, hzero,
    ⟨hmounted.apart.rings, hmounted.apart.descriptor, hmounted.apart.data⟩⟩, ⟨?_, ?_⟩⟩
  · refine ⟨mapBlockCount n objects.length, Nat.lt_succ_self _, ?_⟩
    rw [next_descriptorSlot, happended.result]
  · intro loaded hloaded x hx
    cases hload.symm.trans hloaded
    rw [happended.result] at hx
    obtain ⟨e, he, rfl⟩ := mem_map.mp hx
    obtain ⟨⟨⟨e', b⟩, j⟩, hmem, rfl⟩ := mem_map.mp he
    have hj : j < objects.length := by
      obtain ⟨-, -, -, hbodies⟩ := planAppend_ok hxid hplan
      have := (mem_zipIdx hmem).2.1
      rw [length_zip, ← hbodies.length_eq, Nat.min_self] at this
      omega
    exact ⟨j, hj, (dataSlot_nextWindows n plan.geometry objects.length j).symm⟩

end

/-- A checkpoint whose objects need several maps is not loaded. -/
lemma load_many (hxid : newXid < 2 ^ 64) (hmany : mapCapacity n < objects.length)
    (hok : (appendWith disc p newXid objects publish).result = .ok a) (loaded : List (ℕ × ℕ)) :
    loadCheckpointData (afterAppend disc p newXid objects publish) a.superblockPaddr ≠ .ok loaded := by
  obtain ⟨plan, hplan, happended⟩ := appendWith_ok hxid hok
  obtain ⟨-, hpub, -, -⟩ := planAppend_ok hxid hplan
  have hsb := (superblockAt_appended hxid hplan happended hok).1
  have hmap := map_appended hxid hplan happended hok (mapBlockCount_pos hpub.length objects.length)
  refine load_of_many_maps hpub.length hmany hsb ?_
  rw [hmap]
  have hchunk := length_chunk_le (mapCapacity n) 0 (mapped n plan.geometry (plan.placed objects))
  refine (mapOf_objectBlock hpub.length hchunk ?_).flags
  have hn' : n < 2 ^ 32 := by
    rw [← hpub.blockSize, ← hpub.geometry]
    exact leAt_lt 4 _ _
  have hself := mapCapacity_le_self n
  omega

lemma relocate_oids (hbodies : List.Forall₂ (BodyOf n newXid) objects plan.bodies) :
    (relocate g (plan.placed objects)).map EphemeralObject.oid = objects.map EphemeralObject.oid := by
  have hfst : (plan.placed objects).map (fun x => x.1.1) = objects := by
    have hzip : (plan.placed objects).map Prod.fst = objects.zip plan.bodies := zipIdx_map_fst ..
    have hobjects : (objects.zip plan.bodies).map Prod.fst = objects :=
      map_fst_zip hbodies.length_eq.le
    rw [← hzip, map_map] at hobjects
    exact hobjects
  rw [relocate, map_map]
  conv_rhs => rw [← hfst, map_map]
  rfl

/-- An append to the mounted container: its transaction is newer, and no superblock that it leaves in
the ring carries it. -/
structure Orderly (disc : Disc n) (p newXid xid objects : ℕ) (g : Geometry) : Prop where
  mounted : Mounted disc p xid g
  newer : xid < newXid
  fresh : Fresh disc g newXid (mapBlockCount n objects + 1)

/-- Such an append publishes a checkpoint that loads with its objects and is chosen at mount exactly if
one checkpoint map holds the objects. -/
theorem appended_loads_iff (disc : Disc n) (p newXid xid : ℕ) (objects : List EphemeralObject)
    (publish : CheckpointPublish) (a : AppendedCheckpoint) (g : Geometry) (hxid : newXid < 2 ^ 64)
    (horderly : Orderly disc p newXid xid objects.length g)
    (hok : (appendWith disc p newXid objects publish).result = .ok a) :
    (a.ephemeralObjects.map EphemeralObject.oid = objects.map EphemeralObject.oid
      ∧ loadCheckpointData (afterAppend disc p newXid objects publish) a.superblockPaddr
        = .ok (a.ephemeralObjects.map pair) ∧ bestLoadableCheckpoint (afterAppend disc p newXid objects publish)
        = .ok (some (newXid, a.superblockPaddr))) ↔ objects.length ≤ mapCapacity n := by
  obtain ⟨plan, hplan, happended⟩ := appendWith_ok hxid hok
  obtain ⟨-, hpub, -, hbodies⟩ := planAppend_ok hxid hplan
  have hmounted := horderly.mounted
  obtain rfl : g = plan.geometry := hmounted.geometry.symm.trans hpub.geometry
  constructor
  · rintro ⟨-, hload, -⟩
    exact not_lt.mp fun hmany => load_many hxid hmany hok _ hload
  · intro hfits
    obtain ⟨hmounted', -⟩ := mounted_appended hxid hplan happended hok hmounted horderly.newer
      horderly.fresh hfits
    refine ⟨?_, load_appended hxid hplan happended hok hmounted.apart hfits, hmounted'.best⟩
    rw [happended.result]
    exact relocate_oids hbodies

end Finished

/-! ### A small container

Blocks of 512 bytes: the descriptor ring is blocks 1 to 5, the data ring blocks 6 to 17.  Transaction 5
is published, with an empty map in block 1 and its superblock in block 2. -/

section Small

def smallBlock (fields : List (ℕ × Bytes)) (h : Within 512 fields) : Block 512 :=
  ⟨patch (zeros 512) fields, by rw [length_patch (by rwa [length_zeros]), length_zeros]⟩

def smallSuperblock (xid descriptorIndex dataLen : ℕ) : Block 512 :=
  smallBlock [u64 0x08 1, u64 0x10 xid, u32 0x18 (OBJ_EPHEMERAL + TYPE_NX_SUPERBLOCK),
    u32 0x20 NX_MAGIC, u32 0x24 512, u64 0x58 1024, u32 0x68 5, u32 0x6C 12, u64 0x70 1, u64 0x78 6,
    u32 0x88 descriptorIndex, u32 0x8C 2, u32 0x94 dataLen] (by simp)

def smallMap : Block 512 :=
  smallBlock [u64 0x08 1, u64 0x10 5, u32 0x18 (TYPE_CHECKPOINT_MAP + OBJ_PHYSICAL),
    u32 0x20 CPM_FLAGS_VALUE] (by simp)

/-- The container; `stale` adds a superblock of transaction 6 in block 4 whose map is gone. -/
def smallDisc (stale : Bool) : Disc 512 where
  blockCount := 18
  block p :=
    if p = 0 ∨ p = 2 then smallSuperblock 5 0 0
    else if p = 1 then smallMap
    else if stale ∧ p = 4 then smallSuperblock 6 2 1
    else smallBlock [] (by simp)

def smallObjects (count : ℕ) : List EphemeralObject :=
  (List.range count).map fun i => ⟨1024 + i, OBJ_EPHEMERAL + TYPE_NX_REAPER, 0, 6⟩

/-- Bodies for the objects, which no published checkpoint names. -/
def smallPublish (count : ℕ) : CheckpointPublish where
  ephemeralBodies := (List.range count).map fun i =>
    (1024 + i, patch (zeros 512) [u64 0x08 (1024 + i), u32 0x18 (OBJ_EPHEMERAL + TYPE_NX_REAPER)])

theorem append_full_ring_writes_nothing :
    (appendWith (smallDisc false) 2 6 (smallObjects 13) (smallPublish 13)).log = []
      ∧ (smallDisc false).after (appendWith (smallDisc false) 2 6 (smallObjects 13) (smallPublish 13)).log =
        smallDisc false :=
  append_validates_first (smallDisc false) 2 6 (smallObjects 13) (smallPublish 13) .ringFull trivial
    (by decide +kernel)

lemma smallDisc_mounted (stale : Bool) : Mounted (smallDisc stale) 2 5 (fields ((smallDisc stale).block 2))
    ∧ InWindows (smallDisc stale) 2 (fields ((smallDisc stale).block 2)) := by
  have hload : loadCheckpointData (smallDisc stale) 2 = .ok [] := by cases stale <;> decide +kernel
  have hbest : bestLoadableCheckpoint (smallDisc stale) = .ok (some (5, 2)) := by
    cases stale <;> decide +kernel
  have hgeometry : fields ((smallDisc stale).block 2) = ⟨512, 1, 5, 6, 12, 0, 2, 0, 0⟩ := by
    cases stale <;> decide +kernel
  have hzero : ZeroNames (smallDisc stale) 1 5 :=
    ⟨Nat.zero_lt_succ 17, by decide, by cases stale <;> decide +kernel, by cases stale <;> decide +kernel⟩
  rw [hgeometry]
  refine ⟨⟨hgeometry, hbest, hzero, ⟨.inl (by decide), by decide, by decide⟩⟩, ⟨1, by decide, rfl⟩, ?_⟩
  intro loaded hloaded
  cases hload.symm.trans hloaded
  exact nofun

/-- Twelve objects need two maps; the checkpoint that is published does not load. -/
theorem twelve_objects_not_loaded : (∃ loaded, loadCheckpointData (smallDisc false) 2 = .ok loaded)
    ∧ ∃ a, (appendWith (smallDisc false) 2 6 (smallObjects 12) (smallPublish 12)).result = .ok a
      ∧ ∀ loaded, loadCheckpointData
          (afterAppend (smallDisc false) 2 6 (smallObjects 12) (smallPublish 12)) a.superblockPaddr
        ≠ .ok loaded := by
  have hok : ∃ a, (appendWith (smallDisc false) 2 6 (smallObjects 12) (smallPublish 12)).result
      = .ok a := by
    have h : (appendWith (smallDisc false) 2 6 (smallObjects 12) (smallPublish 12)).result.isOk
        = true := by decide +kernel
    cases hr : (appendWith (smallDisc false) 2 6 (smallObjects 12) (smallPublish 12)).result with
    | ok a => exact ⟨a, rfl⟩
    | error e => rw [hr] at h; cases h
  obtain ⟨a, hok⟩ := hok
  exact ⟨⟨[], by decide +kernel⟩, a, hok, load_many (by decide) (by decide) hok⟩

/-- One object, in one map. -/
theorem one_object_loaded : Orderly (smallDisc false) 2 6 5 (smallObjects 1).length
      (fields ((smallDisc false).block 2))
    ∧ loadCheckpointData (afterAppend (smallDisc false) 2 6 (smallObjects 1) (smallPublish 1)) 4
      = .ok [(1024, 6)] := by
  have hok : (appendWith (smallDisc false) 2 6 (smallObjects 1) (smallPublish 1)).result
      = .ok ⟨4, [⟨1024, OBJ_EPHEMERAL + TYPE_NX_REAPER, 0, 6⟩]⟩ := by decide +kernel
  have horderly : Orderly (smallDisc false) 2 6 5 (smallObjects 1).length
      (fields ((smallDisc false).block 2)) :=
    ⟨(smallDisc_mounted false).1, by decide, by unfold Fresh; decide +kernel⟩
  have h := (appended_loads_iff (smallDisc false) 2 6 5 (smallObjects 1) (smallPublish 1) _ _ (by decide)
    horderly hok).mpr (by decide)
  exact ⟨horderly, h.2.1⟩

end Small

/-! ### Appends in a row -/

section Run

variable {n : ℕ}

/-- Appends that returned, each to the superblock of the one before; each has objects for one
checkpoint map, a newer transaction, and one that no superblock of the ring carries. -/
inductive Appends : Disc n → ℕ → ℕ → Disc n → ℕ → ℕ → Prop
  | none (disc : Disc n) (p xid : ℕ) : Appends disc p xid disc p xid
  | append {disc disc₁ : Disc n} {p xid p₁ xid₁ newXid : ℕ} {objects : List EphemeralObject}
      {publish : CheckpointPublish} {a : AppendedCheckpoint} :
      Appends disc p xid disc₁ p₁ xid₁ → newXid < 2 ^ 64 → xid₁ < newXid →
      Fresh disc₁ (fields (disc₁.block p₁)) newXid 0 → objects.length ≤ mapCapacity n →
      (appendWith disc₁ p₁ newXid objects publish).result = .ok a →
      Appends disc p xid (afterAppend disc₁ p₁ newXid objects publish) a.superblockPaddr newXid

lemma Fresh.mono {disc : Disc n} {xid taken : ℕ} (h : Fresh disc g xid 0) :
    Fresh disc g xid taken := fun k hk _ => h k hk (by omega)

/-- Every append of the row finds the container mounted at the one before. -/
lemma Appends.mounted {disc disc₁ : Disc n} {p xid p₁ xid₁ : ℕ} (h : Appends disc p xid disc₁ p₁ xid₁)
    (hmounted : Mounted disc p xid (fields (disc.block p)))
    (hwindows : InWindows disc p (fields (disc.block p))) : Mounted disc₁ p₁ xid₁ (fields (disc₁.block p₁))
      ∧ InWindows disc₁ p₁ (fields (disc₁.block p₁)) := by
  induction h with
  | none => exact ⟨hmounted, hwindows⟩
  | append _ hxid hnewer hfresh hfits hok ih =>
    obtain ⟨hmounted₁, -⟩ := ih hmounted hwindows
    obtain ⟨plan, hplan, happended⟩ := appendWith_ok hxid hok
    obtain ⟨-, hpub, -, -⟩ := planAppend_ok hxid hplan
    rw [hpub.geometry] at hmounted₁ hfresh
    obtain ⟨hmounted₂, hwindows₂⟩ := mounted_appended hxid hplan happended hok hmounted₁ hnewer
      hfresh.mono hfits
    exact ⟨hmounted₂.geometry ▸ hmounted₂, hmounted₂.geometry ▸ hwindows₂⟩

/-- After any number of such appends, an append with a transaction of its own may stop before its
superblock is written: the published windows are unchanged, and so is the choice at mount. -/
theorem crash_safety (disc disc₁ : Disc n) (p xid p₁ xid₁ newXid : ℕ)
    (objects : List EphemeralObject) (publish : CheckpointPublish) (ws : List (Write n))
    (hmounted : Mounted disc p xid (fields (disc.block p))) (hwindows : InWindows disc p (fields (disc.block p)))
    (hrun : Appends disc p xid disc₁ p₁ xid₁) (hxid : newXid < 2 ^ 64)
    (hfresh : Fresh disc₁ (fields (disc₁.block p₁)) newXid 0) (hws : Interrupted disc₁ p₁ newXid objects publish ws) :
    WindowsKept disc₁ (disc₁.after ws) (fields (disc₁.block p₁))
      ∧ bestLoadableCheckpoint (disc₁.after ws) = .ok (some (xid₁, p₁)) := by
  obtain ⟨hmounted₁, hwindows₁⟩ := hrun.mounted hmounted hwindows
  exact hws.safe hxid hmounted₁ hwindows₁ hfresh

lemma smallDisc_run :
    Appends (smallDisc false) 2 5 (afterAppend (smallDisc false) 2 6 (smallObjects 1) (smallPublish 1)) 4 6 := by
  have hok : (appendWith (smallDisc false) 2 6 (smallObjects 1) (smallPublish 1)).result
      = .ok ⟨4, [⟨1024, OBJ_EPHEMERAL + TYPE_NX_REAPER, 0, 6⟩]⟩ := by decide +kernel
  exact .append (.none _ _ _) (by decide) (by decide) (by unfold Fresh; decide +kernel) (by decide) hok

/-- A second append, stopped after its first write. -/
theorem second_append_stopped : bestLoadableCheckpoint
      ((afterAppend (smallDisc false) 2 6 (smallObjects 1) (smallPublish 1)).after
        ((appendWith (afterAppend (smallDisc false) 2 6 (smallObjects 1) (smallPublish 1)) 4 7
          (smallObjects 1) (smallPublish 1)).log.take 1)) = .ok (some (6, 4)) := by
  have hlog : (appendWith (afterAppend (smallDisc false) 2 6 (smallObjects 1) (smallPublish 1)) 4 7
      (smallObjects 1) (smallPublish 1)).log.length = 3 := by decide +kernel
  refine (crash_safety (smallDisc false) _ 2 5 4 6 7 (smallObjects 1) (smallPublish 1) _
    (smallDisc_mounted false).1 (smallDisc_mounted false).2 smallDisc_run (by decide)
    (by unfold Fresh; decide +kernel) ⟨List.take_prefix _ _, fun a _ h => ?_⟩).2
  have hlength := congrArg List.length h
  rw [length_take, hlog] at hlength
  exact absurd hlength (by decide)

/-- An append whose transaction an old superblock carries: when the object and the map are written,
that superblock loads with them. -/
theorem stale_superblock_revived : Mounted (smallDisc true) 2 5 (fields ((smallDisc true).block 2))
    ∧ InWindows (smallDisc true) 2 (fields ((smallDisc true).block 2))
    ∧ Interrupted (smallDisc true) 2 6 (smallObjects 1) (smallPublish 1)
        ((appendWith (smallDisc true) 2 6 (smallObjects 1) (smallPublish 1)).log.take 2)
    ∧ bestLoadableCheckpoint ((smallDisc true).after
        ((appendWith (smallDisc true) 2 6 (smallObjects 1) (smallPublish 1)).log.take 2)) = .ok (some (6, 4)) := by
  have hlog : (appendWith (smallDisc true) 2 6 (smallObjects 1) (smallPublish 1)).log.length = 3 := by
    decide +kernel
  refine ⟨(smallDisc_mounted true).1, (smallDisc_mounted true).2, ⟨List.take_prefix _ _, fun a _ h => ?_⟩,
    by decide +kernel⟩
  have hlength := congrArg List.length h
  rw [length_take, hlog] at hlength
  exact absurd hlength (by decide)

end Run

end AppleUtils.Apfs.Repair
