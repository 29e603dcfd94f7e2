import AppleUtils.Apfs.Checkpoint
import AppleUtils.Lib.Checks

/-! # Loading a checkpoint

`loadCheckpointData` is the loader that the tests of `repair_writer` transcribe from the kernel: from a
superblock it reads the checkpoint maps of the descriptor window and finds every mapped object at the
next place of the data window.  `bestLoadableCheckpoint` is the choice at mount, the newest superblock
of the descriptor ring that loads.

What a load returns depends on the blocks it reads only (`load_congr`), and blocks that are written
with another transaction do not mislead it (`load_follows`). -/

namespace AppleUtils.Apfs.Repair

open Bytes Checks List

variable {p : ℕ} {found : Option ℕ}

/-! ### The loader -/

/-- `read` of `kernel_checks`. -/
def Disc.read {n : ℕ} (disc : Disc n) (paddr : ℕ) : Checked Bytes :=
  if paddr < disc.blockCount then .ok (disc.block paddr) else .error .panic

@[simp] lemma Disc.read_eq_ok {n : ℕ} {disc : Disc n} {b : Bytes} :
    disc.read p = .ok b ↔ p < disc.blockCount ∧ (disc.block p).1 = b := by
  unfold Disc.read
  split <;> simp [*]

def loadIf (c : Prop) [Decidable c] (failure : LoadFailure) : Checked Unit := stopIf c (.load failure)

@[simp] lemma loadIf_eq_ok {c : Prop} [Decidable c] {failure : LoadFailure} {u : Unit} :
    loadIf c failure = .ok u ↔ ¬ c := stopIf_eq_ok

/-- Where the next object has to be, and what was loaded so far. -/
structure LoadState where
  cursor : ℕ
  loaded : List (ℕ × ℕ)

/-- The object a mapping names, in its block. -/
def checkObject (xid : ℕ) (map : Bytes) (entry : ℕ) (object : Bytes) : Checked Unit := do
  let oid := leAt 8 map (entry + 24)
  let gotType ← u32At object 0x18
  loadIf (gotType ≠ leAt 4 map entry) (.objectType oid (leAt 4 map entry) gotType)
  let gotSubtype ← u32At object 0x1C
  loadIf (gotSubtype ≠ leAt 4 map (entry + 4))
    (.objectSubtype oid (leAt 4 map (entry + 4)) gotSubtype)
  let gotOid ← u64At object 0x08
  loadIf (gotOid ≠ oid) (.objectOid oid gotOid)
  let gotXid ← u64At object 0x10
  loadIf (gotXid ≠ xid) (.objectXid oid xid gotXid)

/-- How far a place of the data ring is into the window of the checkpoint. -/
def windowOffset (g : Geometry) (cursor : ℕ) : Checked ℕ :=
  if cursor ≥ g.dataIndex then minus cursor g.dataIndex
  else minus (cursor + g.dataBlocks) g.dataIndex

/-- One entry of a checkpoint map. -/
def loadEntry {n : ℕ} (disc : Disc n) (g : Geometry) (xid : ℕ) (map : Bytes) (state : LoadState)
    (index : ℕ) : Checked LoadState := do
  let entry := CPM_ENTRIES_OFFSET + index * CPM_ENTRY_BYTES
  panicUnless (entry + 40 ≤ map.length)
  let size := leAt 4 map (entry + 8)
  let oid := leAt 8 map (entry + 24)
  let paddr := leAt 8 map (entry + 32)
  let wanted ← narrow 64 (g.dataBase + state.cursor)
  loadIf (paddr ≠ wanted) (.mappedAddress oid wanted paddr)
  loadIf (size = 0 ∨ size % n ≠ 0) (.mappingSize oid size)
  let blocks := (size + n - 1) / n
  let offset ← windowOffset g state.cursor
  loadIf (offset ≥ g.dataLen ∨ offset + blocks > g.dataLen)
    (.dataWindowOverflow (offset + blocks) g.dataLen)
  let object ← disc.read paddr
  checkObject xid map entry object
  panicUnless (g.dataBlocks ≠ 0)
  return ⟨(state.cursor + blocks) % g.dataBlocks, state.loaded ++ [(oid, paddr)]⟩

/-- The header of a checkpoint map: the number of its entries. -/
def checkMap (blockSize xid paddr : ℕ) (isLast : Bool) (map : Bytes) : Checked ℕ := do
  let mapType ← u32At map 0x18
  loadIf (mapType ≠ TYPE_CHECKPOINT_MAP + OBJ_PHYSICAL)
    (.mapBlockType (TYPE_CHECKPOINT_MAP + OBJ_PHYSICAL) mapType)
  let mapSubtype ← u32At map 0x1C
  loadIf (mapSubtype ≠ 0) (.mapBlockSubtype mapSubtype)
  let mapXid ← u64At map 0x10
  loadIf (mapXid ≠ xid) (.mapBlockXid xid mapXid)
  let mapOid ← u64At map 0x08
  loadIf (mapOid ≠ paddr) (.mapBlockOid paddr mapOid)
  let flags ← u32At map 0x20
  let lastFlag := flags.testBit 0
  loadIf (lastFlag ≠ isLast) (.mapBlockLastFlag isLast lastFlag)
  let count ← u32At map 0x24
  panicUnless (CPM_ENTRIES_OFFSET ≤ blockSize)
  loadIf (count > mapCapacity blockSize) (.mapBlockCount count (mapCapacity blockSize))
  return count

/-- One checkpoint map of the window. -/
def loadMap {n : ℕ} (disc : Disc n) (g : Geometry) (xid : ℕ) (state : LoadState) (slot : ℕ) :
    Checked LoadState := do
  panicUnless (g.descriptorBlocks ≠ 0)
  let paddr ← narrow 64 (g.descriptorSlot g.descriptorIndex slot)
  let map ← disc.read paddr
  let count ← checkMap n xid paddr (slot + 2 = g.descriptorLen) map
  (List.range count).foldlM (loadEntry disc g xid map) state

/-- `load_checkpoint_data`. -/
def loadCheckpointData {n : ℕ} (disc : Disc n) (superblockPaddr : ℕ) : Checked (List (ℕ × ℕ)) := do
  let sb ← disc.read superblockPaddr
  panicUnless (0x98 ≤ sb.length)
  let g := Geometry.fields sb
  loadIf (g.descriptorLen < 2) (.descriptorWindowTooShort g.descriptorLen)
  let state ← (List.range (g.descriptorLen - 1)).foldlM (loadMap disc g (leAt 8 sb 0x10))
    ⟨g.dataIndex, []⟩
  return state.loaded

/-- A superblock in the descriptor ring that loads, with its transaction. -/
def candidate {n : ℕ} (disc : Disc n) (paddr : ℕ) : Checked (Option ℕ) := do
  let block ← disc.read paddr
  let oType ← u32At block 0x18
  let magic ← u32At block 0x20
  if objType oType ≠ TYPE_NX_SUPERBLOCK ∨ magic ≠ NX_MAGIC then return none
  else
    match loadCheckpointData disc paddr with
    | .ok _ => return some (leAt 8 block 0x10)
    | .error (.load _) => return none
    | .error stop => .error stop

/-- One slot of the ring; of two with one transaction the earlier stays. -/
def bestStep {n : ℕ} (disc : Disc n) (base : ℕ) (best : Option (ℕ × ℕ)) (slot : ℕ) :
    Checked (Option (ℕ × ℕ)) := do
  let paddr ← narrow 64 (base + slot)
  match ← candidate disc paddr with
  | some xid => return if best.all (fun b => xid > b.1) then some (xid, paddr) else best
  | none => return best

/-- `best_loadable_checkpoint`: a transaction and the address of its superblock. -/
def bestLoadableCheckpoint {n : ℕ} (disc : Disc n) : Checked (Option (ℕ × ℕ)) := do
  let zero ← disc.read 0
  let base ← u64At zero 0x70
  let blocks ← u32At zero 0x68
  (List.range blocks).foldlM (bestStep disc base) none

/-! ### Runs on two discs

A run of the loader on a changed disc *follows* the run on the disc itself: it ends the same way, or it
meets a change and fails. -/

section Follows

variable {α β : Type}

/-- A failure of the loader; a panic is none. -/
def Fails (r : Checked α) : Prop := ∃ failure, r = .error (.load failure)

lemma Fails.bind {r : Checked α} (h : Fails r) (k : α → Checked β) : Fails (r >>= k) := by
  obtain ⟨failure, rfl⟩ := h
  exact ⟨failure, rfl⟩

lemma Fails.ok_bind {a : α} {k : α → Checked β} (h : Fails (k a)) : Fails (.ok a >>= k) := h

lemma Fails.loadIf_bind {c : Prop} [Decidable c] {failure : LoadFailure} {k : Unit → Checked β}
    (h : ¬ c → Fails (k ())) : Fails (loadIf c failure >>= k) := by
  by_cases hc : c
  · exact ⟨failure, by rw [loadIf, stopIf, failIf, if_pos hc]; rfl⟩
  · rw [loadIf, stopIf, failIf, if_neg hc]
    exact h hc

def Follows (r r' : Checked α) : Prop := r' = r ∨ Fails r'

namespace Follows

variable {r r' : Checked α} {k k' : α → Checked β}

lemma refl (r : Checked α) : Follows r r := .inl rfl

lemma bind (h : Follows r r') (hk : ∀ a, r = .ok a → Follows (k a) (k' a)) : Follows (r >>= k) (r' >>= k') := by
  obtain rfl | hfails := h
  · cases r' with
    | error e => exact .inl rfl
    | ok a => exact hk a rfl
  · exact .inr (hfails.bind k')

lemma bind_left (r : Checked α) (hk : ∀ a, r = .ok a → Follows (k a) (k' a)) :
    Follows (r >>= k) (r >>= k') := (refl r).bind hk

lemma foldlM {f f' : β → α → Checked β} {l : List α} (h : ∀ b, ∀ a ∈ l, Follows (f b a) (f' b a)) (b : β) :
    Follows (l.foldlM f b) (l.foldlM f' b) := by
  induction l generalizing b with
  | nil => exact refl _
  | cons a l ih =>
    rw [foldlM_cons, foldlM_cons]
    exact (h b a mem_cons_self).bind fun b' _ =>
      ih (fun b a ha => h b a (mem_cons_of_mem _ ha)) b'

end Follows

/-- A fold that succeeds is repeated by steps that do the same on its way. -/
lemma foldlM_repeats {f f' : β → α → Checked β} {R : β → β → Prop} (hrefl : ∀ b, R b b)
    (htrans : ∀ {a b c}, R a b → R b c → R a c) (hR : ∀ b a b', f b a = .ok b' → R b b')
    {l : List α} {b b' : β} (hfold : l.foldlM f b = .ok b')
    (hstep : ∀ b₁ b₂, ∀ a ∈ l, f b₁ a = .ok b₂ → R b₂ b' → f' b₁ a = .ok b₂) : l.foldlM f' b = .ok b' ∧ R b b' := by
  induction l generalizing b with
  | nil =>
    obtain rfl := Except.ok.inj hfold
    exact ⟨rfl, hrefl b⟩
  | cons a l ih =>
    rw [foldlM_cons, bind_eq_ok] at hfold
    obtain ⟨b₁, hf, hfold⟩ := hfold
    obtain ⟨hfold', hR'⟩ := ih hfold fun b₁ b₂ a ha => hstep b₁ b₂ a (mem_cons_of_mem _ ha)
    refine ⟨?_, htrans (hR b a b₁ hf) hR'⟩
    rw [foldlM_cons, hstep b b₁ a mem_cons_self hf hR']
    exact hfold'

end Follows

/-! ### Blocks of another transaction -/

section Changed

variable {n xid newXid entry : ℕ} {map object : Bytes} {disc disc' : Disc n} {g : Geometry}

/-- The loader refuses an object of another transaction. -/
lemma checkObject_stale (hlen : 0x20 ≤ object.length) (h : leAt 8 object 0x10 ≠ xid) :
    Fails (checkObject xid map entry object) := by
  rw [checkObject, u32At_of_le (by omega), u32At_of_le (by omega), u64At_of_le (by omega), u64At_of_le (by omega)]
  refine .ok_bind (.loadIf_bind fun _ => .ok_bind (.loadIf_bind fun _ => .ok_bind
    (.loadIf_bind fun _ => .ok_bind ?_)))
  exact ⟨_, by rw [loadIf, stopIf, failIf, if_pos h]⟩

/-- The loader refuses a checkpoint map of another transaction. -/
lemma checkMap_stale {paddr : ℕ} {isLast : Bool} (hlen : 0x28 ≤ map.length)
    (h : leAt 8 map 0x10 ≠ xid) : Fails (checkMap n xid paddr isLast map) := by
  rw [checkMap, u32At_of_le (by omega), u32At_of_le (by omega), u64At_of_le (by omega)]
  exact .ok_bind (.loadIf_bind fun _ => .ok_bind (.loadIf_bind fun _ => .ok_bind
    (.loadIf_bind fun hc => absurd h hc)))

/-- The blocks in which `disc'` differs from `disc` carry the transaction `xid`. -/
structure ChangedBy (xid : ℕ) (disc disc' : Disc n) : Prop where
  blockCount : disc'.blockCount = disc.blockCount
  block : ∀ p, disc'.block p = disc.block p ∨ leAt 8 (disc'.block p).1 0x10 = xid

namespace ChangedBy

variable (h : ChangedBy newXid disc disc')

include h

/-- A block is read and checked for its transaction: the run on the changed disc follows. -/
lemma read_bind {α : Type} {k k' : Bytes → Checked α} (hne : xid ≠ newXid)
    (hstale : ∀ b : Bytes, b.length = n → leAt 8 b 0x10 ≠ xid → Fails (k' b))
    (hk : ∀ b, Follows (k b) (k' b)) : Follows (disc.read p >>= k) (disc'.read p >>= k') := by
  rw [Disc.read, Disc.read, h.blockCount]
  split
  · obtain hsame | hstamp := h.block p
    · rw [hsame]
      exact hk _
    · exact .inr (.ok_bind (hstale _ (disc'.block p).2 (hstamp ▸ hne.symm)))
  · exact .inl rfl

lemma loadEntry_follows (hn : 0x98 ≤ n) (hne : xid ≠ newXid) (state : LoadState) (index : ℕ) :
    Follows (loadEntry disc g xid map state index) (loadEntry disc' g xid map state index) := by
  refine .bind_left _ fun _ _ => .bind_left _ fun _ _ => .bind_left _ fun _ _ =>
    .bind_left _ fun _ _ => .bind_left _ fun _ _ => .bind_left _ fun _ _ =>
    h.read_bind hne ?_ fun _ => .refl _
  exact fun b hb hxid => (checkObject_stale (by omega) hxid).bind _

lemma loadMap_follows (hn : 0x98 ≤ n) (hne : xid ≠ newXid) (state : LoadState) (slot : ℕ) :
    Follows (loadMap disc g xid state slot) (loadMap disc' g xid state slot) := by
  refine .bind_left _ fun _ _ => .bind_left _ fun _ _ => h.read_bind hne ?_ fun map => ?_
  · exact fun b hb hxid => (checkMap_stale (by omega) hxid).bind _
  · exact .bind_left _ fun count _ => .foldlM (fun b index _ => h.loadEntry_follows hn hne b index) _

/-- A superblock of another transaction loads as before, or no longer. -/
lemma load_follows (hn : 0x98 ≤ n) (hsame : disc'.block p = disc.block p)
    (hne : leAt 8 (disc.block p).1 0x10 ≠ newXid) :
    Follows (loadCheckpointData disc p) (loadCheckpointData disc' p) := by
  have hread : disc'.read p = disc.read p := by rw [Disc.read, Disc.read, h.blockCount, hsame]
  rw [loadCheckpointData, loadCheckpointData, hread]
  refine .bind_left _ fun sb hsb => ?_
  obtain ⟨-, rfl⟩ := Disc.read_eq_ok.mp hsb
  refine .bind_left _ fun _ _ => .bind_left _ fun _ _ => .bind ?_ fun _ _ => .refl _
  exact .foldlM (fun b slot _ => h.loadMap_follows hn hne b slot) _

end ChangedBy

end Changed

/-! ### What a load reads -/

section Congr

variable {n xid : ℕ} {disc disc' : Disc n} {g : Geometry} {state state' : LoadState} {slot : ℕ}

/-- The address of the object that an entry of a map names is among those loaded. -/
lemma loadEntry_ok {map : Bytes} {state state' : LoadState} {index : ℕ}
    (h : loadEntry disc g xid map state index = .ok state') :
    ∃ oid paddr, state'.loaded = state.loaded ++ [(oid, paddr)] ∧
      (disc'.blockCount = disc.blockCount → disc'.block paddr = disc.block paddr →
        loadEntry disc' g xid map state index = .ok state') := by
  simp only [loadEntry, returns, checks, narrow_eq_ok, loadIf_eq_ok, Disc.read_eq_ok] at h
  obtain ⟨h1, _, h2, h3, h4, offset, hoffset, h5, b, ⟨h6, rfl⟩, h7, h8, rfl⟩ := h
  refine ⟨_, _, rfl, fun hcount hsame => ?_⟩
  simp only [loadEntry, returns, checks, narrow_eq_ok, loadIf_eq_ok, Disc.read_eq_ok]
  exact ⟨h1, _, h2, h3, h4, offset, hoffset, h5, _, ⟨hcount ▸ h6, by rw [hsame]⟩, h7, h8, trivial⟩

/-- The loaded pairs of the first state are the front of those of the second. -/
def LoadState.Before (s s' : LoadState) : Prop := s.loaded <+: s'.loaded

/-- A loop of the loader is repeated on a disc with the same blocks where it loaded. -/
lemma foldlM_loads {f f' : LoadState → ℕ → Checked LoadState} {l : List ℕ} {s s' : LoadState}
    (hbefore : ∀ s i s', f s i = .ok s' → s.Before s') (hfold : l.foldlM f s = .ok s')
    (hstep : ∀ s₁ s₂, ∀ i ∈ l, f s₁ i = .ok s₂ → s₂.Before s' → f' s₁ i = .ok s₂) :
    l.foldlM f' s = .ok s' ∧ s.Before s' :=
  foldlM_repeats (R := LoadState.Before) (fun _ => prefix_rfl) List.IsPrefix.trans hbefore hfold
    hstep

lemma loadEntry_before {map : Bytes} {index : ℕ}
    (h : loadEntry disc g xid map state index = .ok state') : state.Before state' := by
  obtain ⟨oid, paddr, hloaded, -⟩ := @loadEntry_ok _ _ _ disc _ _ _ _ _ h
  exact ⟨_, hloaded.symm⟩

lemma loadMap_before (h : loadMap disc g xid state slot = .ok state') : state.Before state' := by
  simp only [loadMap, bind_eq_ok] at h
  obtain ⟨_, _, _, _, _, _, _, _, hfold⟩ := h
  exact (foldlM_loads (fun _ _ _ => loadEntry_before) hfold fun _ _ _ _ h _ => h).2

lemma loadMap_congr
    (h : loadMap disc g xid state slot = .ok state') (hcount : disc'.blockCount = disc.blockCount)
    (hmap : disc'.block (g.descriptorSlot g.descriptorIndex slot)
      = disc.block (g.descriptorSlot g.descriptorIndex slot))
    (hdata : ∀ x ∈ state'.loaded, disc'.block x.2 = disc.block x.2) :
    loadMap disc' g xid state slot = .ok state' := by
  simp only [loadMap, returns, checks, narrow_eq_ok, Disc.read_eq_ok] at h ⊢
  obtain ⟨h1, _, ⟨h2, rfl⟩, _, ⟨h3, rfl⟩, count, h4, hfold⟩ := h
  refine ⟨h1, _, ⟨h2, rfl⟩, _, ⟨hcount ▸ h3, rfl⟩, count, hmap ▸ h4, ?_⟩
  rw [hmap]
  refine (foldlM_loads (fun _ _ _ => loadEntry_before) hfold fun s₁ s₂ i _ hi hs₂ => ?_).1
  obtain ⟨oid, paddr, hloaded, hrepeat⟩ := @loadEntry_ok _ _ _ disc' _ _ _ _ _ hi
  exact hrepeat hcount (hdata (oid, paddr) (hs₂.subset (by simp [hloaded])))

/-- A load is repeated on a disc with the same superblock, checkpoint maps and objects. -/
lemma load_congr {loaded : List (ℕ × ℕ)} (h : loadCheckpointData disc p = .ok loaded)
    (hcount : disc'.blockCount = disc.blockCount) (hsb : disc'.block p = disc.block p)
    (hmaps : ∀ slot, slot + 1 < (Geometry.fields (disc.block p)).descriptorLen →
      disc'.block ((Geometry.fields (disc.block p)).descriptorSlot
        (Geometry.fields (disc.block p)).descriptorIndex slot)
      = disc.block ((Geometry.fields (disc.block p)).descriptorSlot
        (Geometry.fields (disc.block p)).descriptorIndex slot))
    (hdata : ∀ x ∈ loaded, disc'.block x.2 = disc.block x.2) : loadCheckpointData disc' p = .ok loaded := by
  simp only [loadCheckpointData, returns, checks, loadIf_eq_ok, Disc.read_eq_ok] at h ⊢
  obtain ⟨_, ⟨h1, rfl⟩, h2, h3, state, hfold, rfl⟩ := h
  refine ⟨_, ⟨hcount ▸ h1, congrArg Subtype.val hsb⟩, h2, h3, state, ?_, rfl⟩
  refine (foldlM_loads (fun _ _ _ => loadMap_before) hfold fun s₁ s₂ slot hslot hs hs₂ => ?_).1
  rw [mem_range] at hslot
  exact loadMap_congr hs hcount (hmaps slot (by omega)) fun x hx => hdata x (hs₂.subset hx)

end Congr

/-! ### The choice at mount -/

section Best

variable {n : ℕ} {disc disc' : Disc n} {base blocks : ℕ} {best best' : Option (ℕ × ℕ)} {xid : ℕ}

/-- The superblock at `p` loads; no other of the ring is newer, and none of its transaction comes
first. -/
structure Newest (disc : Disc n) (base blocks xid p : ℕ) : Prop where
  slot : base ≤ p ∧ p < base + blocks
  loads : candidate disc p = .ok (some xid)
  others : ∀ s < blocks, base + s < 2 ^ 64 ∧ ∃ found, candidate disc (base + s) = .ok found ∧
    ∀ x ∈ found, x < xid ∨ x = xid ∧ p ≤ base + s

lemma bestStep_ok {slot : ℕ} : bestStep disc base best slot = .ok best' ↔ base + slot < 2 ^ 64 ∧
      ∃ found, candidate disc (base + slot) = .ok found ∧ best' = match found with
          | some x => if best.all (fun b => x > b.1) then some (x, base + slot) else best
          | none => best := by
  simp only [bestStep, bind_eq_ok, narrow_eq_ok]
  constructor
  · rintro ⟨_, ⟨hlt, rfl⟩, found, hfound, h⟩
    refine ⟨hlt, found, hfound, ?_⟩
    cases found <;> exact (pure_eq_ok.mp h).symm
  · rintro ⟨hlt, found, hfound, h⟩
    refine ⟨_, ⟨hlt, rfl⟩, found, hfound, ?_⟩
    cases found <;> exact pure_eq_ok.mpr h.symm

/-- What the first `blocks` slots of the ring give. -/
def IsBest (disc : Disc n) (base blocks : ℕ) : Option (ℕ × ℕ) → Prop
  | some (xid, p) => Newest disc base blocks xid p
  | none => ∀ s < blocks, base + s < 2 ^ 64 ∧ candidate disc (base + s) = .ok none

lemma IsBest.candidate_ok {best : Option (ℕ × ℕ)} (h : IsBest disc base blocks best) {s : ℕ}
    (hs : s < blocks) : base + s < 2 ^ 64 ∧ ∃ found, candidate disc (base + s) = .ok found := by
  cases best with
  | none => exact ⟨(h s hs).1, _, (h s hs).2⟩
  | some b =>
    obtain ⟨hlt, found, hfound, -⟩ := h.others s hs
    exact ⟨hlt, found, hfound⟩

lemma IsBest.step (h : IsBest disc base blocks best)
    (hstep : bestStep disc base best blocks = .ok best') : IsBest disc base (blocks + 1) best' := by
  obtain ⟨hlt, found, hfound, rfl⟩ := bestStep_ok.mp hstep
  cases found with
  | none =>
    cases best with
    | none =>
      intro s hs
      obtain hs | rfl := Nat.lt_succ_iff_lt_or_eq.mp hs
      · exact h s hs
      · exact ⟨hlt, hfound⟩
    | some b =>
      refine ⟨⟨h.slot.1, by have := h.slot.2; omega⟩, h.loads, fun s hs => ?_⟩
      obtain hs | rfl := Nat.lt_succ_iff_lt_or_eq.mp hs
      · exact h.others s hs
      · exact ⟨hlt, none, hfound, nofun⟩
  | some x =>
    cases best with
    | none =>
      refine ⟨⟨by omega, by omega⟩, hfound, fun s hs => ?_⟩
      obtain hs | rfl := Nat.lt_succ_iff_lt_or_eq.mp hs
      · exact ⟨(h s hs).1, none, (h s hs).2, nofun⟩
      · exact ⟨hlt, some x, hfound, fun y hy => .inr ⟨(Option.some.inj hy).symm, le_rfl⟩⟩
    | some b =>
      have hp := h.slot
      by_cases hx : x > b.1
      · simp only [Option.all_some, hx, decide_true, if_true]
        refine ⟨⟨by omega, by omega⟩, hfound, fun s hs => ?_⟩
        obtain hs | rfl := Nat.lt_succ_iff_lt_or_eq.mp hs
        · obtain ⟨hlt', found, hfound', hother⟩ := h.others s hs
          refine ⟨hlt', found, hfound', fun y hy => ?_⟩
          have := hother y hy
          omega
        · exact ⟨hlt, some x, hfound, fun y hy => .inr ⟨(Option.some.inj hy).symm, le_rfl⟩⟩
      · simp only [Option.all_some, hx, decide_false]
        refine ⟨⟨hp.1, by omega⟩, h.loads, fun s hs => ?_⟩
        obtain hs | rfl := Nat.lt_succ_iff_lt_or_eq.mp hs
        · exact h.others s hs
        · refine ⟨hlt, some x, hfound, fun y hy => ?_⟩
          cases hy
          omega

lemma IsBest.of_fold
    (h : (List.range blocks).foldlM (bestStep disc base) none = .ok best) : IsBest disc base blocks best := by
  refine Checks.foldlM_range_ok (I := IsBest disc base) (fun _ _ _ _ hbest hstep => ?_) ?_ h
  · exact hbest.step hstep
  · exact fun s hs => absurd hs (Nat.not_lt_zero s)

lemma Newest.unique {xid' p' : ℕ} (h : Newest disc base blocks xid p)
    (h' : Newest disc base blocks xid' p') : (xid, p) = (xid', p') := by
  have bound : ∀ {xid xid' p p'}, Newest disc base blocks xid p → Newest disc base blocks xid' p' →
      xid' < xid ∨ xid' = xid ∧ p ≤ p' := by
    intro xid xid' p p' h h'
    obtain ⟨-, found, hfound, hother⟩ := h.others (p' - base) (by have := h'.slot; omega)
    rw [show base + (p' - base) = p' by have := h'.slot; omega] at hfound hother
    cases hfound.symm.trans h'.loads
    exact hother xid' rfl
  have h1 := bound h h'
  have h2 := bound h' h
  ext <;> simp only <;> omega

lemma fold_bestStep_ok {best : Option (ℕ × ℕ)}
    (h : ∀ s < blocks, base + s < 2 ^ 64 ∧ ∃ found, candidate disc (base + s) = .ok found) :
    ∃ best', (List.range blocks).foldlM (bestStep disc base) best = .ok best' := by
  obtain ⟨best', hfold, -⟩ := Logged.foldlM_prefix_ok (l := List.range blocks)
    (f := bestStep disc base) (I := fun _ _ => True) (b := best) (fun best' before slot hslot _ => by
      have hmem := hslot.subset (mem_append_right before (mem_singleton_self slot))
      obtain ⟨hlt, found, hfound⟩ := h slot (mem_range.mp hmem)
      exact ⟨_, bestStep_ok.mpr ⟨hlt, found, hfound, rfl⟩, trivial⟩) trivial
  exact ⟨best', hfold⟩

/-- The ring that block zero names. -/
structure ZeroNames (disc : Disc n) (base blocks : ℕ) : Prop where
  onDisc : 0 < disc.blockCount
  length : 0x78 ≤ n
  base_eq : leAt 8 (disc.block 0).1 0x70 = base
  blocks_eq : leAt 4 (disc.block 0).1 0x68 = blocks

lemma bestLoadableCheckpoint_eq_ok :
    bestLoadableCheckpoint disc = .ok best ↔ ∃ base blocks, ZeroNames disc base blocks
      ∧ (List.range blocks).foldlM (bestStep disc base) none = .ok best := by
  simp only [bestLoadableCheckpoint, bind_eq_ok, Disc.read_eq_ok, u64At_eq_ok, u32At_eq_ok]
  constructor
  · rintro ⟨_, ⟨h0, rfl⟩, base, ⟨hlen, hbase⟩, blocks, ⟨-, hblocks⟩, hfold⟩
    rw [(disc.block 0).2] at hlen
    exact ⟨base, blocks, ⟨h0, hlen, hbase, hblocks⟩, hfold⟩
  · rintro ⟨base, blocks, ⟨h0, hlen, hbase, hblocks⟩, hfold⟩
    have hlen' := (disc.block 0).2
    exact ⟨_, ⟨h0, rfl⟩, base, ⟨by omega, hbase⟩, blocks, ⟨by omega, hblocks⟩, hfold⟩

/-- The choice is the newest superblock of the ring that loads. -/
lemma best_iff_newest (hzero : ZeroNames disc base blocks) :
    bestLoadableCheckpoint disc = .ok (some (xid, p)) ↔ Newest disc base blocks xid p := by
  rw [bestLoadableCheckpoint_eq_ok]
  constructor
  · rintro ⟨base', blocks', hzero', hfold⟩
    obtain rfl := hzero.base_eq.symm.trans hzero'.base_eq
    obtain rfl := hzero.blocks_eq.symm.trans hzero'.blocks_eq
    exact IsBest.of_fold hfold
  · intro h
    refine ⟨base, blocks, hzero, ?_⟩
    obtain ⟨best, hfold⟩ := @fold_bestStep_ok _ _ _ _ none fun s hs =>
      @IsBest.candidate_ok _ _ _ _ (some (xid, p)) h _ hs
    cases best with
    | none =>
      have hnone := (IsBest.of_fold hfold (p - base) (by have := h.slot; omega)).2
      rw [show base + (p - base) = p by have := h.slot; omega, h.loads] at hnone
      cases hnone
    | some b =>
      obtain rfl : (xid, p) = b := h.unique (IsBest.of_fold hfold)
      exact hfold

/-- A superblock of a container, by its type and magic. -/
def IsSuperblock (b : Bytes) : Prop :=
  objType (leAt 4 b 0x18) = TYPE_NX_SUPERBLOCK ∧ leAt 4 b 0x20 = NX_MAGIC

instance (b : Bytes) : Decidable (IsSuperblock b) := inferInstanceAs (Decidable (_ ∧ _))

lemma candidate_of_not (hn : 0x98 ≤ n) (hp : p < disc.blockCount)
    (h : ¬ IsSuperblock (disc.block p).1) : candidate disc p = .ok none := by
  have hlen := (disc.block p).2
  simp only [candidate, bind_eq_ok, Disc.read_eq_ok, u32At_eq_ok]
  refine ⟨_, ⟨hp, rfl⟩, _, ⟨by omega, rfl⟩, _, ⟨by omega, rfl⟩, ?_⟩
  rw [if_pos (not_and_or.mp h)]
  rfl

lemma candidate_of_isSuperblock (hn : 0x98 ≤ n) (hp : p < disc.blockCount)
    (h : IsSuperblock (disc.block p).1) : candidate disc p = .ok found ↔
      (∃ loaded, loadCheckpointData disc p = .ok loaded ∧ found = some (leAt 8 (disc.block p).1 0x10))
        ∨ Fails (loadCheckpointData disc p) ∧ found = none := by
  have hlen := (disc.block p).2
  have hcandidate : candidate disc p = match loadCheckpointData disc p with
      | .ok _ => .ok (some (leAt 8 (disc.block p).1 0x10))
      | .error (.load _) => .ok none
      | .error stop => .error stop := by
    rw [candidate, Disc.read, if_pos hp]
    change (u32At _ _ >>= _) = _
    rw [u32At_of_le (by omega), u32At_of_le (by omega)]
    change ite _ _ _ = _
    rw [if_neg (not_or.mpr ⟨not_not.mpr h.1, not_not.mpr h.2⟩)]
    rfl
  rw [hcandidate]
  unfold Fails
  generalize loadCheckpointData disc p = r
  cases r with
  | ok loaded => simp [eq_comm]
  | error stop => cases stop <;> simp [eq_comm]

lemma candidate_onDisc (h : candidate disc p = .ok found) : p < disc.blockCount := by
  simp only [candidate, bind_eq_ok, Disc.read_eq_ok] at h
  obtain ⟨_, ⟨hcount, -⟩, -⟩ := h
  exact hcount

/-- On a changed disc a superblock of another transaction is a candidate as before, or none. -/
lemma ChangedBy.candidate_follows {newXid : ℕ}
    (h : ChangedBy newXid disc disc') (hn : 0x98 ≤ n) (hp : p < disc.blockCount)
    (hsame : disc'.block p = disc.block p)
    (hne : IsSuperblock (disc.block p).1 → leAt 8 (disc.block p).1 0x10 ≠ newXid)
    (hfound : candidate disc p = .ok found) : candidate disc' p = .ok found ∨ candidate disc' p = .ok none := by
  have hp' : p < disc'.blockCount := h.blockCount ▸ hp
  by_cases hsb : IsSuperblock (disc.block p).1
  · have hsb' : IsSuperblock (disc'.block p).1 := hsame ▸ hsb
    rw [candidate_of_isSuperblock hn hp' hsb', candidate_of_isSuperblock hn hp' hsb', hsame]
    obtain heq | hfails := h.load_follows hn hsame (hne hsb)
    · rw [heq]
      exact .inl ((candidate_of_isSuperblock hn hp hsb).mp hfound)
    · exact .inr (.inr ⟨hfails, rfl⟩)
  · exact .inr (candidate_of_not hn hp' (hsame ▸ hsb))

lemma candidate_eq_some (hn : 0x98 ≤ n) :
    candidate disc p = .ok (some xid) ↔ p < disc.blockCount ∧ IsSuperblock (disc.block p).1
      ∧ (∃ loaded, loadCheckpointData disc p = .ok loaded) ∧ leAt 8 (disc.block p).1 0x10 = xid := by
  by_cases hp : p < disc.blockCount
  · by_cases hsb : IsSuperblock (disc.block p).1
    · rw [candidate_of_isSuperblock hn hp hsb]
      simp [hp, hsb, eq_comm]
    · rw [candidate_of_not hn hp hsb]
      simp [hsb]
  · simp [candidate, Disc.read, hp]

end Best

end AppleUtils.Apfs.Repair
