import AppleUtils.Apfs.InUse
import AppleUtils.Apfs.SealedCatalog

/-! # Verified containers are mounted

The verifier and the reader take the same way to the newest superblock, the object map and the volumes;
the reader asks for less.  Only a sealed volume may fail to open: the verifier does not look at its file
extent tree. -/

namespace AppleUtils.Apfs

open Bytes Checks List Logged Verifier

/-- The volume opens, with the name and the catalog the verifier found. -/
def Reader.Opens (r : Reader) (vol : VerifiedVolume) : Prop :=
  ∃ volume, r.openVolume vol.oid = .ok volume ∧ volume.name = vol.name ∧ volume.fsTreePaddr = vol.fsTreePaddr

section Volumes

variable {r : Reader} {oid paddr : ℕ} (hsize : blockSizeSupported r.verifier.blockSize)
    (hsource : ∀ paddr n b, r.verifier.source.readBlock paddr n = .ok b → b.length = n)
include hsize hsource

lemma opens_of_verifyVolume {vol : VerifiedVolume} (hpaddr : resolve r.containerOmap oid r.xid = .ok paddr)
    (h : (r.verifier.verifyVolume r.xid oid paddr).result = .ok vol) :
    vol.oid = oid ∧ (vol.isSealed = false → r.Opens vol) := by
  simp only [verifyVolume, bind_result_ok, liftM, monadLift_result, pure_result, checkStorage, checks,
    sliceAt_eq_ok, ne_eq, not_not] at h
  obtain ⟨object, hobject, hstorage, magic, hmagic, rfl, features, hfeatures, omapPaddr, homapPaddr, fsTreeOid,
    hfsTreeOid, -, -, -, -, _, hseal, omapTree, homapTree, omap, homap, fsTreePaddr, hfsTreePaddr, -, -, -, -,
    -, -, name, hname, uuid, huuid, -, -, role, hrole, -, -, -, -, -, -, fsFlags, hfsFlags, -, -, rfl⟩ := h
  refine ⟨rfl, fun hsealed => ?_⟩
  -- the verifier does not read as far as the reader does
  have hlength : 0x414 ≤ object.bytes.length := by
    rw [hsource _ _ _ (readExpecting_bytes hobject)] at hseal ⊢
    simp [blockSizeSupported] at hsize
    omega
  simp only [Reader.Opens, Reader.openVolume, Reader.decodeVolume, faulted_eq_ok, returns, checks, liftM,
    monadLift_result, refuseIf_eq_ok, sliceAt_eq_ok, ne_eq, not_not]
  exact ⟨_, ⟨paddr, hpaddr, object, hobject, hstorage, _, hmagic, rfl, _, hfeatures, _, homapPaddr, _, homapTree,
    _, homap, _, hfsTreeOid, _, hfsTreePaddr, _, hname, _, ⟨by omega, rfl⟩, _, ⟨hlength, rfl⟩, .catalog,
    if_pos (by simpa using hsealed), _, hfsFlags, _, huuid, _, hrole, rfl⟩, rfl, rfl⟩

/-- The volumes listed are those of the slots in use, in their order. -/
lemma opens_of_verifyVolumeSlot {slots : List ℕ} {sb : Bytes} {volumes volumes' : List VerifiedVolume}
    (h : (slots.foldlM (r.verifier.verifyVolumeSlot sb r.containerOmap r.xid) volumes).result = .ok volumes') :
    ∃ oids new, slots.mapM (fun index => u64At sb (0xB8 + index * 8)) = .ok oids ∧ volumes' = volumes ++ new
      ∧ oids.filter (· ≠ 0) = new.map (·.oid) ∧ ∀ vol ∈ new, vol.isSealed = false → r.Opens vol := by
  induction slots generalizing volumes with
  | nil => exact ⟨[], [], rfl, by simpa using h.symm, rfl, by simp⟩
  | cons index slots ih =>
    simp only [foldlM_cons, bind_result_ok, verifyVolumeSlot, liftM, monadLift_result] at h
    obtain ⟨_, ⟨oid, hoid, hslot⟩, h⟩ := h
    obtain ⟨oids, new, hoids, rfl, hnew, hopens⟩ := ih h
    refine ⟨oid :: oids, ?_⟩
    rw [mapM_cons, hoid, hoids]
    split at hslot
    next hzero =>
      cases hslot
      exact ⟨new, rfl, rfl, by simp [← hnew, hzero], hopens⟩
    next hne =>
      simp only [bind_result_ok, monadLift_result, pure_result, Except.ok.injEq] at hslot
      obtain ⟨paddr, hpaddr, vol, hvol, rfl⟩ := hslot
      obtain ⟨rfl, hvolume⟩ := opens_of_verifyVolume hsize hsource hpaddr hvol
      exact ⟨vol :: new, rfl, by simp, by simp [← hnew, hne], forall_mem_cons.mpr ⟨hvolume, hopens⟩⟩

end Volumes

/-- The reader mounts every container the verifier accepts, at the same checkpoint, and opens its
volumes but the sealed ones. -/
theorem verified_mounts {source : BlockSource} {container : VerifiedContainer}
    (hsource : ∀ paddr n b, source.readBlock paddr n = .ok b → b.length = n)
    (h : verifyContainer source = .ok container) :
    ∃ reader, Reader.mount source container.blockSize container.blockCount = .ok reader
      ∧ reader.xid = container.xid ∧ reader.superblockPaddr = container.superblockPaddr
      ∧ reader.volumeOids = container.volumes.map (·.oid)
      ∧ ∀ vol ∈ container.volumes, vol.isSealed = false → reader.Opens vol := by
  simp only [verifyContainer, bind_eq_ok, pure_eq_ok] at h
  obtain ⟨⟨blockSize, blockCount⟩, hprobe, ⟨⟨checkpoint, allocation, volumes⟩, log⟩, hwalk, _, -, uuid, -,
    maxFileSystems, -, rfl⟩ := h
  replace hwalk := (listen_result_ok.mp hwalk).1
  simp only [walkContainer, bind_result_ok, pure_result, Except.ok.injEq, Prod.mk.injEq] at hwalk
  obtain ⟨_, hcheckpoint, _, -, _, -, _, hvolumes, _, -, rfl, rfl, rfl⟩ := hwalk
  simp only [readCheckpoint, bind_result_ok, liftM, monadLift_result, pure_result, regionWithin, returns, checks,
    okOr_eq_ok] at hcheckpoint
  obtain ⟨zero, hzero, -, -, base, hbase, blocks, hblocks, hpos, hwithin, _, hbest, best, rfl, superblock,
    hsuperblock, -, -, -, _, hcount, _, hsize, hgeometry, -, -, -, -, -, -, -, -, -, -, -, -, -, -, -, -, -, -, -,
    -, -, _, -, rfl⟩ := hcheckpoint
  simp only [probe, returns, checks] at hprobe
  obtain ⟨-, -, -, -, -, _, -, hsupported, _, -, hreasonable, hgeom⟩ := hprobe
  cases hgeom
  simp only [verifyVolumes, bind_result_ok, liftM, monadLift_result, validateMaxFileSystems, checks] at hvolumes
  obtain ⟨omapPaddr, homapPaddr, omapTree, homapTree, omap, homap, slots, hslots, hmax, hvolumes⟩ := hvolumes
  obtain ⟨oids, new, hoids, rfl, hnew, hopens⟩ := opens_of_verifyVolumeSlot
    (r := ⟨⟨source, blockSize, blockCount⟩, best.1, omap, [], 0, 0⟩) (by simpa using hsupported) hsource hvolumes
  refine ⟨⟨⟨source, blockSize, blockCount⟩, best.1, omap, _, best.2, blockCount * blockSize⟩, ?_, rfl, rfl, hnew, hopens⟩
  have hbytes : blockCount * blockSize < 2 ^ 64 := by
    simp only [MAX_REASONABLE_BLOCKS] at hreasonable
    simp [blockSizeSupported] at hsupported
    have hmul := Nat.mul_le_mul (by omega : blockCount ≤ 2 ^ 40) (by omega : blockSize ≤ 2 ^ 16)
    omega
  simp only [Reader.mount, returns, checks, faulted_eq_ok, liftM, monadLift_result, refuseIf_eq_ok, okOr_eq_ok, narrow_eq_ok]
  exact ⟨zero, hzero, _, hbase, _, hblocks, by omega, _, hbest, _, rfl, _, hsuperblock, _, hcount, _, hsize, hgeometry,
    _, homapPaddr, _, homapTree, _, homap, _, hslots, hmax, _, hoids, _, ⟨hbytes, rfl⟩, rfl⟩

theorem verified_mounts_image : ∃ container reader,
    verifyContainer (sliceBlocks (TwoChunks.image 21) 4096) = .ok container ∧
      Reader.mount (sliceBlocks (TwoChunks.image 21) 4096) container.blockSize container.blockCount = .ok reader := by
  obtain ⟨container, _, h, -⟩ := TwoChunks.verify_image (.inr rfl)
  obtain ⟨reader, hreader, -⟩ := verified_mounts (fun paddr n b hb => by
    simp only [sliceBlocks, returns, checks, narrow_eq_ok, existsAndEq, and_true] at hb
    obtain ⟨-, -, hlast, rfl, rfl⟩ := hb
    exact length_slice (not_lt.mp hlast)) h
  exact ⟨container, reader, h, hreader⟩

end AppleUtils.Apfs
