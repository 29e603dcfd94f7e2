import AppleUtils.Apfs.TreeRead
import Mathlib.Data.List.MinMax
import Mathlib.Data.List.Pairwise

/-! # Three readers of one object map

An object map holds versions of an object under its identifier and a transaction.  The verifier and
the reader look an object up with `resolve`, `apfs_replace` with `mappings` and `apfs_update` with
`volumeMappings`.  What each returns is described here by the newest version no later than a
transaction (`newest`): `resolve` ignores the deleted flag, `volumeMappings` the flag and the
transaction. -/

namespace AppleUtils.Apfs

open Bytes Checks List

variable {records : List Record} {versions : ℕ → Option (ℕ × Option ℕ)} {x : ℕ}

/-! ### Versions -/

def keyOid (r : Record) : ℕ := leAt 8 r.1 0
def keyXid (r : Record) : ℕ := leAt 8 r.1 8
def mappedTo (r : Record) : ℕ := leAt 8 r.2 8

/-- The version of an object with the greatest transaction not above `x`. -/
def newest (records : List Record) (oid x : ℕ) : Option Record :=
  (records.filter fun r => keyOid r = oid ∧ keyXid r ≤ x).argmax keyXid

/-- The address of a version, unless it is deleted. -/
def liveAddress (r : Record) : Option ℕ := if omapDeleted r.2 then none else some (mappedTo r)

/-- The address of an object at a transaction: that of the newest version, unless it is deleted. -/
def addressAt (records : List Record) (oid x : ℕ) : Option ℕ :=
  (newest records oid x).bind liveAddress

structure IsNewest (records : List Record) (oid x : ℕ) (r : Record) : Prop where
  mem : r ∈ records
  oid_eq : keyOid r = oid
  le : keyXid r ≤ x
  max : ∀ r' ∈ records, keyOid r' = oid → keyXid r' ≤ x → keyXid r' ≤ keyXid r

/-- No version is early enough. -/
def NoVersion (records : List Record) (oid x : ℕ) : Prop :=
  ∀ r ∈ records, keyOid r = oid → ¬ keyXid r ≤ x

section Newest

variable {oid : ℕ} {r r' : Record}

lemma newest_eq_none : newest records oid x = none ↔ NoVersion records oid x := by
  simp [newest, argmax_eq_none, filter_eq_nil_iff, NoVersion]

lemma isNewest_of_newest (h : newest records oid x = some r) : IsNewest records oid x r := by
  have hmem := mem_filter.mp (argmax_mem h)
  have hr : keyOid r = oid ∧ keyXid r ≤ x := by simpa using hmem.2
  refine ⟨hmem.1, hr.1, hr.2, fun r' hr' hoid hx => ?_⟩
  exact le_of_mem_argmax (mem_filter.mpr ⟨hr', by simpa using ⟨hoid, hx⟩⟩) h

lemma OmapSorted.eq_of_key (h : OmapSorted records) (hr : r ∈ records) (hr' : r' ∈ records)
    (hoid : keyOid r = keyOid r') (hxid : keyXid r = keyXid r') : r = r' := by
  by_contra hne
  have hdistinct : records.Pairwise fun a b => ¬ (keyOid a = keyOid b ∧ keyXid a = keyXid b) :=
    h.imp fun {a b} hab => by
      have := pairLe_eq_false.mp hab
      simp only [pairOf] at this
      simp only [keyOid, keyXid]
      omega
  have hsymm : Std.Symm fun a b : Record => ¬ (keyOid a = keyOid b ∧ keyXid a = keyXid b) :=
    ⟨fun a b hab hba => hab ⟨hba.1.symm, hba.2.symm⟩⟩
  exact hdistinct.forall hr hr' hne ⟨hoid, hxid⟩

lemma OmapSorted.newest_eq (h : OmapSorted records) (hr : IsNewest records oid x r) :
    newest records oid x = some r := by
  cases hn : newest records oid x with
  | none => exact absurd hr.le (newest_eq_none.mp hn r hr.mem hr.oid_eq)
  | some r' =>
    have hr' := isNewest_of_newest hn
    have hxid : keyXid r' = keyXid r := le_antisymm
      (hr.max r' hr'.mem hr'.oid_eq hr'.le) (hr'.max r hr.mem hr.oid_eq hr.le)
    rw [h.eq_of_key hr'.mem hr.mem (hr'.oid_eq.trans hr.oid_eq.symm) hxid]

/-! One more record at the end. -/

variable {before : List Record} {r₀ : Record}

lemma NoVersion.snoc (h : NoVersion before oid x) (hr : keyOid r = oid → ¬ keyXid r ≤ x) :
    NoVersion (before ++ [r]) oid x :=
  forall_mem_append.mpr ⟨h, by simpa using hr⟩

lemma IsNewest.snoc (h : IsNewest before oid x r₀)
    (hr : keyOid r = oid → keyXid r ≤ x → keyXid r ≤ keyXid r₀) : IsNewest (before ++ [r]) oid x r₀ :=
  ⟨mem_append_left _ h.mem, h.oid_eq, h.le, forall_mem_append.mpr ⟨h.max, by simpa using hr⟩⟩

lemma newest_snoc_of_ne (h : keyOid r ≠ oid) : newest (before ++ [r]) oid x = newest before oid x := by
  simp [newest, filter_append, h]

lemma isNewest_last (hx : keyXid r ≤ x)
    (h : ∀ r' ∈ before, keyOid r' = keyOid r → keyXid r' ≤ x → keyXid r' ≤ keyXid r) :
    IsNewest (before ++ [r]) (keyOid r) x r :=
  ⟨mem_append_right _ (mem_singleton_self r), rfl, hx, forall_mem_append.mpr ⟨h, by simp⟩⟩

end Newest

/-! ### The verifier and the reader -/

/-- The fold of `resolve` keeps an entry with the greatest transaction. -/
lemma foldl_newerEntry (l : List OmapEntry) (best : Option OmapEntry) : match l.foldl newerEntry best with
    | none => l = [] ∧ best = none
    | some e => (e ∈ l ∨ best = some e) ∧ (∀ e' ∈ l, e'.xid ≤ e.xid) ∧ ∀ b ∈ best, b.xid ≤ e.xid := by
  induction l generalizing best with
  | nil => cases best <;> simp
  | cons a l ih =>
    rw [foldl_cons]
    have hbest := ih (newerEntry best a)
    have hstep : ∃ e, newerEntry best a = some e ∧ (e = a ∨ best = some e) ∧ a.xid ≤ e.xid
        ∧ ∀ b ∈ best, b.xid ≤ e.xid := by
      cases best with
      | none => exact ⟨a, rfl, .inl rfl, le_rfl, nofun⟩
      | some b =>
        by_cases hlt : a.xid < b.xid
        · exact ⟨b, by simp [newerEntry, hlt], .inr rfl, hlt.le, by simp⟩
        · exact ⟨a, by simp [newerEntry, hlt], .inl rfl, le_rfl, by simpa using hlt⟩
    obtain ⟨e, he, hfrom, ha, hb⟩ := hstep
    rw [he] at hbest ⊢
    cases hfold : l.foldl newerEntry (some e) with
    | none => simp [hfold] at hbest
    | some e' =>
      simp only [hfold] at hbest ⊢
      obtain ⟨hmem, hmax, hmax'⟩ := hbest
      have hle := hmax' e rfl
      refine ⟨?_, ?_, fun b hb' => (hb b hb').trans hle⟩
      · rcases hmem with hmem | heq
        · exact .inl (mem_cons_of_mem _ hmem)
        · cases heq
          exact hfrom.imp (fun ha' : e = a => ha' ▸ mem_cons_self) id
      · exact forall_mem_cons.mpr ⟨ha.trans hle, hmax⟩

/-- `resolve` over the entries of an object map, in any order. -/
lemma resolve_eq {entries : List OmapEntry} (hsorted : OmapSorted records)
    (hperm : entries.Perm (records.map entryOf)) (oid x : ℕ) :
    (resolve entries oid x).toOption = (newest records oid x).map mappedTo := by
  have hmem : ∀ e, e ∈ entries.filter (fun entry => entry.oid = oid ∧ entry.xid ≤ x)
      ↔ ∃ r ∈ records, entryOf r = e ∧ keyOid r = oid ∧ keyXid r ≤ x := by
    intro e
    rw [mem_filter, hperm.mem_iff, mem_map]
    constructor
    · rintro ⟨⟨r, hr, rfl⟩, hkey⟩
      exact ⟨r, hr, rfl, of_decide_eq_true hkey⟩
    · rintro ⟨r, hr, rfl, hkey⟩
      exact ⟨⟨r, hr, rfl⟩, decide_eq_true hkey⟩
  have hfold := foldl_newerEntry
    (entries.filter fun entry => entry.oid = oid ∧ entry.xid ≤ x) none
  unfold resolve
  cases hres : (entries.filter fun entry => entry.oid = oid ∧ entry.xid ≤ x).foldl newerEntry none with
  | none =>
    rw [hres] at hfold
    have hnone : newest records oid x = none := newest_eq_none.mpr fun r hr hoid hx => by
      have := (hmem (entryOf r)).mpr ⟨r, hr, rfl, hoid, hx⟩
      rw [hfold.1] at this
      exact absurd this not_mem_nil
    rw [hnone]
    rfl
  | some e =>
    simp only [hres] at hfold
    obtain ⟨r, hr, rfl, hoid, hx⟩ := (hmem e).mp (hfold.1.resolve_right nofun)
    rw [hsorted.newest_eq ⟨hr, hoid, hx, fun r' hr' hoid' hx' => hfold.2.1 (entryOf r') ((hmem _).mpr ⟨r', hr', rfl,
      hoid', hx'⟩)⟩]
    rfl

/-! ### `apfs_replace` -/

/-- What `mappings` knows after some records. -/
def Tracks (x : ℕ) (versions : ℕ → Option (ℕ × Option ℕ)) (before : List Record) : Prop :=
  ∀ oid, match versions oid with
    | none => NoVersion before oid x
    | some (version, address) => ∃ r, IsNewest before oid x r ∧ version = keyXid r
        ∧ address = liveAddress r

/-- The versions after one more record. -/
def addedVersion (x : ℕ) (versions : ℕ → Option (ℕ × Option ℕ)) (r : Record) : ℕ → Option (ℕ × Option ℕ) :=
  if keyXid r ≤ x ∧ (versions (keyOid r)).all (fun old => keyXid r > old.1) then
    Function.update versions (keyOid r) (some (keyXid r, liveAddress r))
  else versions

lemma addVersion_eq {r : Record} (hkey : r.1.length = 16) (hvalue : r.2.length = 16) :
    addVersion x versions r = .ok (addedVersion x versions r) := by
  simp only [addVersion, returns, checks]
  refine ⟨by omega, ?_⟩
  unfold addedVersion
  by_cases hnew : keyXid r ≤ x ∧ (versions (keyOid r)).all (fun old => keyXid r > old.1)
  · rw [if_pos hnew]
    exact if_pos hnew
  · rw [if_neg hnew]
    exact if_neg hnew

lemma Tracks.add {before : List Record}
    (h : Tracks x versions before) (r : Record) : Tracks x (addedVersion x versions r) (before ++ [r]) := by
  intro oid
  have hoid := h oid
  by_cases heq : oid = keyOid r
  · subst heq
    unfold addedVersion
    split_ifs with htaken
    · -- the record is newer than what was there
      rw [Function.update_self]
      refine ⟨r, isNewest_last htaken.1 fun r' hr' hoid' hx' => ?_, rfl, rfl⟩
      cases hv : versions (keyOid r) with
      | none =>
        rw [hv] at hoid
        exact absurd hx' (hoid r' hr' hoid')
      | some v =>
        simp only [hv] at hoid htaken
        obtain ⟨r₀, hr₀, hversion, -⟩ := hoid
        have hlt : v.1 < keyXid r := by simpa using htaken.2
        have hle := hr₀.max r' hr' hoid' hx'
        omega
    · -- it is too late, or older
      cases hv : versions (keyOid r) with
      | none =>
        rw [hv] at hoid
        exact hoid.snoc fun _ hx => htaken ⟨hx, by simp [hv]⟩
      | some v =>
        simp only [hv] at hoid htaken ⊢
        obtain ⟨r₀, hr₀, hversion, haddress⟩ := hoid
        refine ⟨r₀, hr₀.snoc fun _ hx => ?_, hversion, haddress⟩
        by_contra hlt
        exact htaken ⟨hx, by simp; omega⟩
  · -- another object
    have hsame : addedVersion x versions r oid = versions oid := by
      unfold addedVersion
      split_ifs
      · exact Function.update_of_ne heq ..
      · rfl
    rw [hsame]
    cases hv : versions oid with
    | none =>
      rw [hv] at hoid
      exact hoid.snoc fun hr => absurd hr.symm heq
    | some v =>
      simp only [hv] at hoid ⊢
      obtain ⟨r₀, hr₀, hrest⟩ := hoid
      exact ⟨r₀, hr₀.snoc fun hr => absurd hr.symm heq, hrest⟩

lemma mappings_eq (hsorted : OmapSorted records)
    (hsizes : ∀ r ∈ records, r.1.length = 16 ∧ r.2.length = 16) (x : ℕ) :
    ∃ map, mappings records x = .ok map ∧ ∀ oid, map oid = addressAt records oid x := by
  obtain ⟨versions, hfold, htracks⟩ := Logged.foldlM_prefix_ok (l := records) (f := addVersion x)
    (I := Tracks x) (b := fun _ => none)
    (fun versions before r hpre h => by
      have hr := hsizes r (hpre.subset (mem_append_right _ (mem_singleton_self r)))
      exact ⟨_, addVersion_eq hr.1 hr.2, h.add r⟩)
    (fun oid => by simp [NoVersion])
  refine ⟨fun oid => (versions oid).bind Prod.snd, by simp [mappings, hfold], fun oid => ?_⟩
  have hoid := htracks oid
  cases hv : versions oid with
  | none =>
    rw [hv] at hoid
    simp only [hv, addressAt, newest_eq_none.mpr hoid, Option.bind_none]
  | some v =>
    obtain ⟨version, address⟩ := v
    simp only [hv] at hoid
    obtain ⟨r, hr, -, rfl⟩ := hoid
    simp only [hv, addressAt, hsorted.newest_eq hr, Option.bind_some]

/-! ### `apfs_update` -/

lemma foldlM_addMapping (hsorted : OmapSorted records) (hsizes : ∀ r ∈ records, r.1.length = 16 ∧ r.2.length = 16) :
    ∃ map, records.foldlM addMapping (fun _ => none) = .ok map
      ∧ ∀ oid, map oid = (newest records oid (2 ^ 64)).map mappedTo := by
  obtain ⟨map, hfold, hmap⟩ := Logged.foldlM_prefix_ok (l := records) (f := addMapping)
    (I := fun map before => ∀ oid, map oid = (newest before oid (2 ^ 64)).map mappedTo)
    (b := fun _ => none)
    (fun map before r hpre h => by
      have hr := hsizes r (hpre.subset (mem_append_right _ (mem_singleton_self r)))
      have hsorted' : OmapSorted (before ++ [r]) := hsorted.sublist hpre.sublist
      refine ⟨Function.update map (keyOid r) (some (mappedTo r)), ?_, fun oid => ?_⟩
      · simp only [addMapping, returns, checks]
        exact ⟨by omega, rfl⟩
      · by_cases heq : oid = keyOid r
        · subst heq
          have hlast : IsNewest (before ++ [r]) (keyOid r) (2 ^ 64) r :=
            isNewest_last (leAt_lt 8 r.1 8).le fun r' hr' hoid' _ => by
              have hlt := pairLe_eq_false.mp
                (pairwise_append.mp hsorted' |>.2.2 r' hr' r (mem_singleton_self r))
              simp only [pairOf] at hlt
              simp only [keyOid, keyXid] at hoid' ⊢
              omega
          rw [Function.update_self, hsorted'.newest_eq hlast]
          rfl
        · rw [Function.update_of_ne heq, newest_snoc_of_ne (Ne.symm heq), h oid])
    (fun oid => by rw [newest_eq_none.mpr (by simp [NoVersion])]; rfl)
  exact ⟨map, hfold, hmap⟩

/-! ### One object map, three answers -/

/-- A node of an object map in an image. -/
structure ObjectMapNode (image : Bytes) (blockSize blockCount : ℕ) (root : Bool)
    (level oid paddr : ℕ) (records : List Record) : Prop where
  lt : paddr < blockCount
  checksum : checksumValid (image.slice (paddr * blockSize) blockSize) = true
  kind : (⟨paddr, image.slice (paddr * blockSize) blockSize⟩ : Object).kind = nodeKind root
  subtype : objType (⟨paddr, image.slice (paddr * blockSize) blockSize⟩ : Object).subtype = TYPE_OMAP
  fixed : btnodeFixedKvSize (leAt 2 (image.slice (paddr * blockSize) blockSize) 0x20) = true
  node : IsNode blockSize ⟨paddr, image.slice (paddr * blockSize) blockSize⟩ level records false
  physical : oid = paddr
  sizes : ∀ r ∈ records, r.1.length = 16 ∧ r.2.length = if level = 0 then 16 else 8
  sorted : OmapSorted records

/-- A well-formed object map in an image: a tree of nodes at different addresses, the keys of its
leaves in ascending order. -/
structure ObjectMap (image : Bytes) (blockSize blockCount level : ℕ) (t : Tree level) : Prop where
  root : ObjectMapNode image blockSize blockCount true level t.oid t.paddr t.nodeRecords
  below : ∀ i ∈ t.items, Below (ObjectMapNode image blockSize blockCount false) level i
  nodup : ((nodes (level + 1) t).map Prod.snd).Nodup
  sorted : OmapSorted (leaves (level + 1) t)
  size : BTREE_INFO_BYTES ≤ blockSize
  covers : blockCount * blockSize ≤ image.length
  image_lt : image.length < 2 ^ 64
  keySize : leAt 4 (image.slice (t.paddr * blockSize) blockSize)
    (blockSize - BTREE_INFO_BYTES + 8) = 16
  valueSize : leAt 4 (image.slice (t.paddr * blockSize) blockSize)
    (blockSize - BTREE_INFO_BYTES + 12) = 16

section Image

variable {image : Bytes} {blockSize blockCount level : ℕ} {t : Tree level} {oid : ℕ}

namespace ObjectMap

variable (h : ObjectMap image blockSize blockCount level t) {paddr : ℕ}
include h

lemma fits (hp : paddr < blockCount) : paddr * blockSize + blockSize ≤ image.length := by
  have hmul : (paddr + 1) * blockSize ≤ blockCount * blockSize := Nat.mul_le_mul_right _ hp
  have hcovers := h.covers
  rw [add_mul, one_mul] at hmul
  omega

lemma paddr_lt (hp : paddr < blockCount) : paddr < 2 ^ 64 := by
  have hfits := h.fits hp
  have himage := h.image_lt
  have hpos : 1 ≤ blockSize := le_trans (by decide) h.size
  have hmul : paddr * 1 ≤ paddr * blockSize := Nat.mul_le_mul_left _ hpos
  omega

lemma reads : Reads ⟨sliceBlocks image blockSize, blockSize, blockCount⟩
    (fun p => image.slice (p * blockSize) blockSize) := by
  intro p hp
  have hfits := h.fits hp
  have himage := h.image_lt
  simp only [sliceBlocks, returns, checks, narrow_eq_ok, existsAndEq, and_true]
  exact ⟨by omega, by omega, by omega⟩

lemma omapTree : OmapTree ⟨sliceBlocks image blockSize, blockSize, blockCount⟩
    (fun p => image.slice (p * blockSize) blockSize) true level t := by
  have hnode {root : Bool} {level oid paddr : ℕ} {records : List Record}
      (hn : ObjectMapNode image blockSize blockCount root level oid paddr records) :
      OmapNode ⟨sliceBlocks image blockSize, blockSize, blockCount⟩
        (fun p => image.slice (p * blockSize) blockSize) root level oid paddr records :=
    ⟨⟨hn.lt, hn.checksum, hn.kind, hn.subtype, hn.node⟩, hn.physical, h.paddr_lt hn.lt, hn.sizes, hn.sorted⟩
  exact ⟨hnode h.root, fun i hi => (h.below i hi).mono fun _ _ _ _ hn => hnode hn⟩

lemma fixedRoot : FixedRoot image blockSize 16 16 level t := by
  have hnode {root : Bool} {level oid paddr : ℕ} {records : List Record}
      (hn : ObjectMapNode image blockSize blockCount root level oid paddr records) :
      FixedNode image blockSize 16 16 level oid paddr records := by
    refine ⟨h.fits hn.lt, checksumValid_eq _ ▸ hn.checksum, hn.fixed, hn.node, hn.physical,
      h.paddr_lt hn.lt, fun r hr => ?_⟩
    have hsizes := hn.sizes r hr
    split_ifs at hsizes ⊢
    · exact hsizes
    · exact hsizes.2
  exact ⟨⟨hnode h.root, fun i hi => (h.below i hi).mono fun _ _ _ _ hn => hnode hn⟩, h.nodup,
    h.size, h.image_lt, h.keySize, h.valueSize⟩

lemma leaf_sizes : ∀ r ∈ leaves (level + 1) t, r.1.length = 16 ∧ r.2.length = 16 := by
  have hbelow : Below (fun level _ _ records => ∀ r ∈ records,
      r.1.length = 16 ∧ r.2.length = if level = 0 then 16 else 8) (level + 1) t :=
    ⟨h.root.sizes, fun i hi => (h.below i hi).mono fun _ _ _ _ hn => hn.sizes⟩
  exact hbelow.forall_leaves fun _ _ _ hrecords => hrecords

end ObjectMap

/-- The object has no version at all, or its newest version no later than `x` is not deleted and is
at the address of its newest version of all. -/
def Undisturbed (records : List Record) (oid x : ℕ) : Prop :=
  (∀ r ∈ records, keyOid r ≠ oid)
    ∨ ∃ r r', newest records oid x = some r ∧ omapDeleted r.2 = false
      ∧ newest records oid (2 ^ 64) = some r' ∧ mappedTo r' = mappedTo r

lemma newest_top_eq_none : newest records oid (2 ^ 64) = none ↔ ∀ r ∈ records, keyOid r ≠ oid := by
  rw [newest_eq_none]
  exact forall₂_congr fun r _ => ⟨fun h hoid => h hoid (leAt_lt 8 r.1 8).le, fun h hoid => absurd hoid h⟩

/-- When the two answers that ignore the flag are right. -/
lemma undisturbed_iff : (newest records oid x).map mappedTo = addressAt records oid x
      ∧ (newest records oid (2 ^ 64)).map mappedTo = addressAt records oid x ↔ Undisturbed records oid x := by
  unfold Undisturbed addressAt
  rw [← newest_top_eq_none]
  cases hn : newest records oid x with
  | none => simp
  | some r =>
    have htop : newest records oid (2 ^ 64) ≠ none := fun hnone =>
      (newest_top_eq_none.mp hnone) r (isNewest_of_newest hn).mem (isNewest_of_newest hn).oid_eq
    generalize newest records oid (2 ^ 64) = top at htop
    cases hd : omapDeleted r.2 <;> simp [htop, hd, liveAddress]

/-- On a well-formed object map the verifier's `resolve`, `mappings` of `apfs_replace` and
`volume_mappings` of `apfs_update` all give the address of the newest version no later than `x`,
with nothing for a deleted one, exactly where that version is not deleted and no later version has
moved the object. -/
theorem resolvers_agree (h : ObjectMap image blockSize blockCount level t) (what : String)
    {apsb omap : Bytes} {omapPaddr : ℕ} (hapsb : u64At apsb 0x80 = .ok omapPaddr)
    (homap : blockAt image blockSize omapPaddr = .ok omap) (hroot : u64At omap 0x30 = .ok t.paddr)
    (oid x : ℕ) : ((∃ entries, ((⟨sliceBlocks image blockSize, blockSize, blockCount⟩ : Verifier).collectOmap
            t.paddr what).result = .ok entries
          ∧ (resolve entries oid x).toOption = addressAt (leaves (level + 1) t) oid x)
        ∧ (∃ contents map, readTree image blockSize t.paddr none = .ok contents
          ∧ mappings contents.records x = .ok map ∧ map oid = addressAt (leaves (level + 1) t) oid x)
        ∧ ∃ map, volumeMappings image blockSize apsb = .ok map
          ∧ map oid = addressAt (leaves (level + 1) t) oid x) ↔ Undisturbed (leaves (level + 1) t) oid x := by
  obtain ⟨⟨entries, hentries, hperm⟩, -⟩ := passes_collectOmap (A := fun _ => True)
    h.reads h.omapTree h.nodup trivial (fun _ _ => trivial)
  obtain ⟨contents, hcontents, hrecords⟩ := readTree_spec h.fixedRoot
  obtain ⟨map, hmap, haddress⟩ := mappings_eq h.sorted h.leaf_sizes x
  obtain ⟨map', hmap', haddress'⟩ := foldlM_addMapping h.sorted h.leaf_sizes
  have hvolume : volumeMappings image blockSize apsb = .ok map' := by
    simp only [volumeMappings, hapsb, homap, hroot, decodeTreeRecords_spec h.fixedRoot, bind_eq_ok,
      Except.ok.injEq, existsAndEq, true_and, hmap']
  rw [← undisturbed_iff]
  constructor
  · rintro ⟨⟨entries', hentries', hresolve⟩, -, map'', hvolume', haddress''⟩
    cases hentries.symm.trans hentries'
    cases hvolume.symm.trans hvolume'
    exact ⟨(resolve_eq h.sorted hperm oid x) ▸ hresolve, (haddress' oid) ▸ haddress''⟩
  · rintro ⟨hresolve, hlast⟩
    refine ⟨⟨entries, hentries, (resolve_eq h.sorted hperm oid x).trans hresolve⟩,
      ⟨contents, map, hcontents, hrecords ▸ hmap, haddress oid⟩, map', hvolume, (haddress' oid).trans hlast⟩

end Image

/-! Maps with versions of object 5. -/

def versionOf (xid flags paddr : ℕ) : Record :=
  (leBytes 8 5 ++ leBytes 8 xid, leBytes 4 flags ++ (leBytes 4 512 ++ leBytes 8 paddr))

def mapLeaf (records : List Record) : Bytes := (buildFixedKvLeaf 512 16 16 0x12 records).toOption.getD []

/-- Two blocks: an object map, and the leaf that is its tree. -/
def mapImage (records : List Record) : Bytes :=
  patch (zeros 512) [u64 0x30 1] ++ sealBlock 1 1 (OBJ_PHYSICAL + TYPE_BTREE) TYPE_OMAP (mapLeaf records)

/-- At transaction 1 in block 7, deleted at transaction 2, at transaction 3 in block 9. -/
def threeVersions : List Record := [versionOf 1 0 7, versionOf 2 1 7, versionOf 3 0 9]

lemma threeVersions_objectMap : ObjectMap (mapImage threeVersions) 512 2 0 ⟨1, 1, [], threeVersions⟩ := by
  have hleaf : buildFixedKvLeaf 512 16 16 0x12 threeVersions = .ok (mapLeaf threeVersions)
      ∧ btnodeFixedKvSize (leAt 2 (mapLeaf threeVersions) 0x20) = true
      ∧ leAt 4 (mapLeaf threeVersions) (512 - BTREE_INFO_BYTES + 8) = 16
      ∧ leAt 4 (mapLeaf threeVersions) (512 - BTREE_INFO_BYTES + 12) = 16 := by decide +kernel
  obtain ⟨hbuild, hfixed, hkey, hvalue⟩ := hleaf
  obtain ⟨hlen, hnode⟩ := buildFixedKvLeaf_spec hbuild (by decide) (by decide) (by decide)
  have hwithin : Within (zeros 512).length [u64 0x30 1] := by simp [within_cons, within_nil]
  have hfront : (patch (zeros 512) [u64 0x30 1]).length = 512 := by rw [length_patch hwithin, length_zeros]
  have hseal : (sealBlock 1 1 (OBJ_PHYSICAL + TYPE_BTREE) TYPE_OMAP (mapLeaf threeVersions)).length = 512 := by
    rw [length_sealBlock (by omega), hlen]
  have hslice : (mapImage threeVersions).slice (1 * 512) 512
      = sealBlock 1 1 (OBJ_PHYSICAL + TYPE_BTREE) TYPE_OMAP (mapLeaf threeVersions) := by
    rw [mapImage, slice_append_right (by omega), hfront, one_mul, Nat.sub_self]
    exact take_of_length_le hseal.le
  have himage : (mapImage threeVersions).length = 1024 := by rw [mapImage, length_append, hfront, hseal]
  obtain ⟨-, -, htype, hsubtype⟩ := @header_sealBlock _ _ _ _ (mapLeaf threeVersions) (by omega)
    (show 1 < 2 ^ 64 by decide) (show 1 < 2 ^ 64 by decide)
    (show OBJ_PHYSICAL + TYPE_BTREE < 2 ^ 32 by decide) (show TYPE_OMAP < 2 ^ 32 by decide)
  have hsorted : OmapSorted threeVersions := by
    unfold OmapSorted
    decide
  refine ⟨⟨by decide, ?_, ?_, ?_, ?_, ?_, rfl, by decide, hsorted⟩,
    fun _ _ => trivial, by decide, hsorted, by decide, ?_, ?_, ?_, ?_⟩ <;>
    simp only [hslice, himage]
  · exact checksumValid_sealBlock (by omega) (by omega)
  · simp only [Object.kind, Object.oType, htype]
    decide
  · simp only [Object.subtype, hsubtype]
    decide
  · rw [leAt_sealBlock (by omega) (by omega)]
    exact hfixed
  · exact hnode ..
  · decide
  · decide
  · rw [leAt_sealBlock (by omega) (by decide)]
    exact hkey
  · rw [leAt_sealBlock (by omega) (by decide)]
    exact hvalue

/-- The three resolvers agree on the live version. -/
theorem resolvers_agree_live :
    ∃ map, volumeMappings (mapImage threeVersions) 512 (zeros 0x88) = .ok map ∧ map 5 = some 9 := by
  have himage : (mapImage threeVersions).length = 1024 := by decide +kernel
  have hroot : leAt 8 ((mapImage threeVersions).slice 0 512) 0x30 = 1 := by decide +kernel
  have hundisturbed : Undisturbed threeVersions 5 3 :=
    .inr ⟨versionOf 3 0 9, versionOf 3 0 9, by decide, by decide, by decide, rfl⟩
  have hagree := (@resolvers_agree _ _ _ _ _ threeVersions_objectMap "" (zeros 0x88) _ 0
    (u64At_eq_ok.mpr ⟨by simp, leAt_zeros (by omega)⟩)
    (blockAt_eq_ok (by omega) (by omega))
    (u64At_eq_ok.mpr ⟨by rw [length_slice] <;> omega, hroot⟩) 5 3).mpr hundisturbed
  obtain ⟨map, hmap, haddress⟩ := hagree.2.2
  exact ⟨map, hmap, haddress.trans (by decide)⟩

/-- A deleted version is still found by the verifier and by `apfs_update`. -/
theorem deleted_version_resolves :
    ((⟨sliceBlocks (mapImage [versionOf 1 1 7]) 512, 512, 2⟩ : Verifier).collectOmap 1 "").result.toOption.map
        (fun entries => (resolve entries 5 1).toOption) = some (some 7)
      ∧ ((readTree (mapImage [versionOf 1 1 7]) 512 1 none).toOption.bind fun contents =>
          (mappings contents.records 1).toOption.map fun map => map 5) = some none
      ∧ (volumeMappings (mapImage [versionOf 1 1 7]) 512 (zeros 0x88)).toOption.map (fun map => map 5)
        = some (some 7) := by decide +kernel

end AppleUtils.Apfs
