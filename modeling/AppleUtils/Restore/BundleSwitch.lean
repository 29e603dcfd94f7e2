import AppleUtils.Lib.Fields
import AppleUtils.Restore.BundleNames

/-! # The switch of a restore bundle

Staging only adds files, so up to the rename everything that was read is still there; the rename
comes after all the files the new configuration depends on. -/

namespace AppleUtils.Restore

open Checks Racing List

variable {t : Tools} {s s' s'' : Bundle} {path : Path} {bytes hash : Bytes} {plan : Plan}
    {sources todo : List (Path × Bytes)} {c : Current} {o : Originals} {p : Prepared}
    {receipt : Option Bytes}

/-! ### Reading a store that has grown -/

lemma read_eq_ok : read s path = .ok bytes ↔ s (components path) = some bytes := by
  unfold read
  split <;> simp_all

lemma recheckHash_eq_ok :
    recheckHash t s path hash = .ok () ↔
      ∃ bytes, s (components path) = some bytes ∧ t.sha256 bytes = hash := by
  unfold recheckHash
  split <;> simp_all [failIf_eq_ok]

lemma recheckAll_eq_ok : recheckAll t s sources = .ok () ↔
    ∀ source ∈ sources, recheckHash t s source.1 source.2 = .ok () := by
  induction sources with
  | nil => simp [recheckAll]
  | cons source sources ih =>
    obtain ⟨path, hash⟩ := source
    simp only [recheckAll, bind_eq_ok, ih, forall_mem_cons]
    constructor
    · rintro ⟨_, hfirst, hrest⟩
      exact ⟨hfirst, hrest⟩
    · rintro ⟨hfirst, hrest⟩
      exact ⟨(), hfirst, hrest⟩

lemma readCurrent_spec (h : readCurrent t s = .ok c) :
    s configJson = some c.config ∧
      configuredPaths t "parse bundle config: " c.config = .ok (c.mediaPath, c.cachePath) ∧
      s (components c.mediaPath) = some c.media ∧
      s (components c.cachePath) = some c.cache := by
  simp only [readCurrent, returns, read_eq_ok] at h
  obtain ⟨config, hconfig, paths, hpaths, media, hmedia, cache, hcache, rfl⟩ := h
  exact ⟨hconfig, hpaths, hmedia, hcache⟩

section Grows

variable (hgrows : Store.Grows s s')

include hgrows

lemma read_mono (h : read s path = .ok bytes) : read s' path = .ok bytes :=
  read_eq_ok.mpr (hgrows _ _ (read_eq_ok.mp h))

lemma recheckHash_mono (h : recheckHash t s path hash = .ok ()) : recheckHash t s' path hash = .ok () := by
  obtain ⟨bytes, hbytes, hhash⟩ := recheckHash_eq_ok.mp h
  exact recheckHash_eq_ok.mpr ⟨bytes, hgrows _ _ hbytes, hhash⟩

lemma recheckAll_mono (h : recheckAll t s sources = .ok ()) : recheckAll t s' sources = .ok () :=
  recheckAll_eq_ok.mpr fun source hsource =>
    recheckHash_mono hgrows (recheckAll_eq_ok.mp h source hsource)

lemma verifyAppliedPatch_mono {receiptBytes : Bytes} {verified : VerifiedPatch}
    (h : verifyAppliedPatch t s c receiptBytes = .ok verified) :
    verifyAppliedPatch t s' c receiptBytes = .ok verified := by
  simp only [verifyAppliedPatch, bind_eq_ok] at h ⊢
  obtain ⟨receipt, hreceipt, original, horiginal, paths, hpaths, u, hhashes, executable, hexecutable,
    u', hhash, u'', hall, u''', hlast, h⟩ := h
  exact ⟨receipt, hreceipt, original, read_mono hgrows horiginal, paths, hpaths, u, hhashes,
    executable, hexecutable, u', hhash, u'', recheckAll_mono hgrows hall, u''',
    recheckHash_mono hgrows hlast, h⟩

lemma readCurrent_mono (h : readCurrent t s = .ok c) : readCurrent t s' = .ok c := by
  simp only [readCurrent, bind_eq_ok] at h ⊢
  obtain ⟨config, hconfig, paths, hpaths, media, hmedia, cache, hcache, h⟩ := h
  exact ⟨config, read_mono hgrows hconfig, paths, hpaths, media, read_mono hgrows hmedia, cache,
    read_mono hgrows hcache, h⟩

lemma findOriginals_mono {found : Originals × Option VerifiedPatch} (h : findOriginals t s c receipt = .ok found) :
    findOriginals t s' c receipt = .ok found := by
  cases receipt with
  | none => exact h
  | some receiptBytes =>
    simp only [findOriginals, bind_eq_ok] at h ⊢
    obtain ⟨verified, hverified, media, hmedia, cache, hcache, u, hhashes, h⟩ := h
    exact ⟨verified, verifyAppliedPatch_mono hgrows hverified, media, read_mono hgrows hmedia,
      cache, read_mono hgrows hcache, u, hhashes, h⟩

/-- A store that has grown, with no new receipt for the configuration it has, gives the same run. -/
lemma runBundle_mono {outcome : Outcome} (h : runBundle t s = .ok outcome)
    (hreceipt : ∀ config, s configJson = some config → s' (receiptPath t config) = s (receiptPath t config)) :
    runBundle t s' = .ok outcome := by
  simp only [runBundle, bind_eq_ok] at h ⊢
  obtain ⟨c, hc, ⟨o, installed⟩, hfound, executable, hexecutable, p, hp, h⟩ := h
  obtain ⟨hconfig, -⟩ := readCurrent_spec hc
  refine ⟨c, readCurrent_mono hgrows hc, (o, installed), ?_, executable, hexecutable, p, hp, ?_⟩
  · rw [hreceipt _ hconfig]
    exact findOriginals_mono hgrows hfound
  · rw [hreceipt _ hconfig]
    cases installed with
    | none => exact h
    | some verified =>
      simp only [bind_eq_ok] at h ⊢
      obtain ⟨u, hu, h⟩ := h
      refine ⟨u, hu, ?_⟩
      split_ifs at h ⊢ with hrecorded
      · simp only [bind_eq_ok] at h ⊢
        obtain ⟨media, hmedia, cache, hcache, v, hv, h⟩ := h
        exact ⟨media, read_mono hgrows hmedia, cache, read_mono hgrows hcache, v,
          verifyAppliedPatch_mono hgrows hv, h⟩
      · exact h

end Grows

/-! ### Staging -/

/-- The store with some of the files added, and parts of files under names made up for them. -/
structure Adds (files : List (Path × Bytes)) (s s' : Bundle) : Prop where
  grows : Store.Grows s s'
  added : ∀ key, s key = none → s' key = none ∨
    (∃ file ∈ files, components file.1 = key ∧ s' key = some file.2) ∨ Pending key

variable {files : List (Path × Bytes)} {acts acts' : List Act}

lemma grows_put (h : s path = none) (bytes : Bytes) : Store.Grows s (put s path (some bytes)) := by
  intro p old hp
  unfold put
  split_ifs with heq
  · rw [heq, h] at hp
    cases hp
  · exact hp

namespace Adds

lemma refl (files : List (Path × Bytes)) (s : Bundle) : Adds files s s :=
  ⟨Store.Grows.refl s, fun _ h => .inl h⟩

lemma trans (h : Adds files s s') (h' : Adds files s' s'') : Adds files s s'' where
  grows := h.grows.trans h'.grows
  added := by
    intro key hkey
    rcases h.added key hkey with hnone | ⟨file, hmem, heq, hsome⟩ | hpending
    · exact h'.added key hnone
    · exact .inr (.inl ⟨file, hmem, heq, h'.grows _ _ hsome⟩)
    · exact .inr (.inr hpending)

lemma put_file (h : s (components path) = none) (hmem : (path, bytes) ∈ files) :
    Adds files s (put s (components path) (some bytes)) where
  grows := grows_put h bytes
  added := by
    intro key hkey
    unfold put
    split_ifs with heq
    · exact .inr (.inl ⟨_, hmem, heq.symm, rfl⟩)
    · exact .inl hkey

lemma put_pending (h : s path = none) (hpending : Pending path) : Adds files s (put s path (some bytes)) where
  grows := grows_put h bytes
  added := by
    intro p hp
    unfold put
    split_ifs with heq
    · exact .inr (.inr (heq ▸ hpending))
    · exact .inl hp

end Adds

/-- The acts that stage the files. -/
def stages (files : List (Path × Bytes)) : List Act := files.map fun file => .stage file.1 file.2

/-- The acts that hash the files once more. -/
def rechecks (sources : List (Path × Bytes)) : List Act :=
  sources.map fun source => .recheck source.1 source.2

lemma perform_stage (h : perform t s (.stage path bytes) = .ok s') :
    (s (components path) = some bytes ∧ s' = s) ∨
      (s (components path) = none ∧ s' = put s (components path) (some bytes)) := by
  simp only [perform] at h
  split at h
  · next hnone =>
    cases h
    exact .inr ⟨hnone, rfl⟩
  · next found hfound =>
    split_ifs at h with heq
    cases h
    exact .inl ⟨heq ▸ hfound, rfl⟩

lemma adds_stage (h : perform t s (.stage path bytes) = .ok s') (hmem : (path, bytes) ∈ files) :
    Adds files s s' ∧ s' (components path) = some bytes := by
  rcases perform_stage h with ⟨hfound, rfl⟩ | ⟨hnone, rfl⟩
  · exact ⟨Adds.refl _ _, hfound⟩
  · exact ⟨Adds.put_file hnone hmem, by simp [put]⟩

/-- Wherever staging stops, files were only added. -/
lemma stops_stages (hsub : todo ⊆ files) (h : Stops t (stages todo) s s') : Adds files s s' := by
  induction todo generalizing s with
  | nil =>
    cases h
    exact Adds.refl _ _
  | cons file rest ih =>
    obtain ⟨hfile, hrest⟩ := cons_subset.mp hsub
    cases h with
    | between => exact Adds.refl _ _
    | pending _ name habsent hfresh hmadeUp _ => exact Adds.put_pending hfresh hmadeUp
    | next hperformed hlater => exact (adds_stage hperformed hfile).1.trans (ih hrest hlater)

lemma performAll_stages (hsub : todo ⊆ files) (h : performAll t s (stages todo) = .ok s') :
    Adds files s s' ∧ ∀ file ∈ todo, s' (components file.1) = some file.2 := by
  induction todo generalizing s with
  | nil =>
    cases h
    exact ⟨Adds.refl _ _, by simp⟩
  | cons file rest ih =>
    obtain ⟨hfile, hrest⟩ := cons_subset.mp hsub
    obtain ⟨s₁, hperformed, hlater⟩ := bind_eq_ok.mp h
    obtain ⟨hadds, hthere⟩ := adds_stage hperformed hfile
    obtain ⟨hadds', hall⟩ := ih hrest hlater
    exact ⟨hadds.trans hadds', forall_mem_cons.mpr ⟨hadds'.grows _ _ hthere, hall⟩⟩

/-- Staging goes through if no name is taken by other bytes. -/
lemma performAll_stages_ok (hnodup : (files.map fun file => components file.1).Nodup)
    (hfree : ∀ file ∈ files, s (components file.1) = none ∨ s (components file.1) = some file.2) :
    ∃ s', performAll t s (stages files) = .ok s' := by
  induction files generalizing s with
  | nil => exact ⟨s, rfl⟩
  | cons file rest ih =>
    rw [map_cons, nodup_cons] at hnodup
    obtain ⟨hfirst, hothers⟩ := forall_mem_cons.mp hfree
    rcases hfirst with hnone | hfound
    · have hperformed : perform t s (.stage file.1 file.2) =
          .ok (put s (components file.1) (some file.2)) := by
        simp only [perform, hnone]
      obtain ⟨s', hs'⟩ := ih (s := put s (components file.1) (some file.2)) hnodup.2 (by
        intro other hother
        have hne : components other.1 ≠ components file.1 := by
          intro heq
          exact hnodup.1 (heq ▸ mem_map_of_mem (f := fun file => components file.1) hother)
        simp only [put, if_neg hne]
        exact hothers other hother)
      exact ⟨s', bind_eq_ok.mpr ⟨_, hperformed, hs'⟩⟩
    · have hperformed : perform t s (.stage file.1 file.2) = .ok s := by simp only [perform, hfound, if_true]
      obtain ⟨s', hs'⟩ := ih hnodup.2 hothers
      exact ⟨s', bind_eq_ok.mpr ⟨_, hperformed, hs'⟩⟩

/-! ### Acts in sequence -/

lemma performAll_append :
    performAll t s (acts ++ acts') = performAll t s acts >>= fun s => performAll t s acts' := by
  induction acts generalizing s with
  | nil => rfl
  | cons act acts ih =>
    simp only [cons_append, performAll, ih]
    cases perform t s act <;> rfl

lemma stops_append (h : Stops t (acts ++ acts') s s') :
    Stops t acts s s' ∨ ∃ s₁, performAll t s acts = .ok s₁ ∧ Stops t acts' s₁ s' := by
  induction acts generalizing s with
  | nil => exact .inr ⟨s, rfl, h⟩
  | cons act acts ih =>
    rw [cons_append] at h
    cases h with
    | between => exact .inl (.between _ _)
    | pending _ name habsent hfresh hmadeUp hwritten =>
      exact .inl (.pending _ name habsent hfresh hmadeUp hwritten)
    | next hperformed hlater =>
      rcases ih hlater with hstops | ⟨s₁, hall, hstops⟩
      · exact .inl (.next hperformed hstops)
      · exact .inr ⟨s₁, bind_eq_ok.mpr ⟨_, hperformed, hall⟩, hstops⟩

lemma performAll_rechecks :
    performAll t s (rechecks sources) = .ok s' ↔ s' = s ∧ recheckAll t s sources = .ok () := by
  induction sources with
  | nil =>
    simp only [rechecks, map_nil, performAll, recheckAll, Except.ok.injEq, and_true]
    exact eq_comm
  | cons source sources ih =>
    rw [rechecks] at ih
    simp only [rechecks, map_cons, performAll, recheckAll, perform, returns]
    constructor
    · rintro ⟨_, ⟨u, hfirst, rfl⟩, hrest⟩
      obtain ⟨rfl, hall⟩ := ih.mp hrest
      exact ⟨rfl, u, hfirst, hall⟩
    · rintro ⟨rfl, u, hfirst, hall⟩
      exact ⟨s', ⟨u, hfirst, rfl⟩, ih.mpr ⟨rfl, hall⟩⟩

lemma stops_rechecks (h : Stops t (rechecks sources) s s') : s' = s := by
  induction sources with
  | nil =>
    cases h
    rfl
  | cons source sources ih =>
    cases h with
    | between => rfl
    | next hperformed hlater =>
      simp only [perform, returns] at hperformed
      obtain ⟨_, -, rfl⟩ := hperformed
      exact ih hlater

lemma stops_rename (h : Stops t (.rename path :: rechecks sources) s s') :
    s' = s ∨ s' = renamed s path := by
  cases h with
  | between => exact .inl rfl
  | next hperformed hlater =>
    rw [stops_rechecks hlater]
    simp only [perform] at hperformed
    split at hperformed
    · cases hperformed
    · cases hperformed
      exact .inr rfl

/-! ### What a plan was made from -/

/-- The plan is one for the bundle. -/
structure PlanFor (t : Tools) (s : Bundle) (plan : Plan) : Prop where
  config : s configJson = some plan.current.config
  paths : configuredPaths t "parse bundle config: " plan.current.config =
    .ok (plan.current.mediaPath, plan.current.cachePath)
  media : s (components plan.current.mediaPath) = some plan.current.media
  cache : s (components plan.current.cachePath) = some plan.current.cache
  currentReceipt : plan.currentReceipt = s (receiptPath t plan.current.config)
  originalPaths : ∀ what, configuredPaths t what plan.originals.config =
    .ok (plan.originals.mediaPath, plan.originals.cachePath)
  originalMedia : s (components plan.originals.mediaPath) = some plan.originals.media
  originalCache : s (components plan.originals.cachePath) = some plan.originals.cache
  originalConfig : s configJson = some plan.originals.config ∨
    s (rollbackPath (t.sha256 plan.originals.config)) = some plan.originals.config
  /-- Without a receipt the current files are the originals. -/
  stock : plan.currentReceipt = none → plan.originals.mediaPath = plan.current.mediaPath
  /-- With one, the patch it records is another one. -/
  other : ∀ receiptBytes, plan.currentReceipt = some receiptBytes →
    t.parseReceipt receiptBytes ≠ .ok plan.receipt
  prepared : ∃ executable p, t.restoredExternal plan.originals.media = .ok executable ∧
    t.prepareSkipTcon executable plan.originals.cache = .ok p ∧
    makePlan t plan.current plan.currentReceipt plan.originals p = .ok plan

lemma findOriginals_spec {installed : Option VerifiedPatch} (hc : readCurrent t s = .ok c)
    (h : findOriginals t s c receipt = .ok (o, installed)) :
    (∀ what, configuredPaths t what o.config = .ok (o.mediaPath, o.cachePath)) ∧
      s (components o.mediaPath) = some o.media ∧
      s (components o.cachePath) = some o.cache ∧
      (s configJson = some o.config ∨ s (rollbackPath (t.sha256 o.config)) = some o.config) := by
  obtain ⟨hconfig, hpaths, hmedia, hcache⟩ := readCurrent_spec hc
  cases receipt with
  | none =>
    cases h
    exact ⟨configuredPaths_label hpaths, hmedia, hcache, .inl hconfig⟩
  | some receiptBytes =>
    simp only [findOriginals, returns, read_eq_ok] at h
    obtain ⟨verified, hverified, media', hmedia', cache', hcache', _, -, h⟩ := h
    cases h
    simp only [verifyAppliedPatch, returns, read_eq_ok] at hverified
    obtain ⟨r, -, original, horiginal, paths, hvalid, _, -, _, -, _, -, _, -, _, -, rfl⟩ := hverified
    simp only [validateReceiptConfig, returns] at hvalid
    obtain ⟨_, -, _, hhashes, paths', hpaths', _, -, _, -, _, -, _, -, _, -, rfl⟩ := hvalid
    have hsha : t.sha256 original = r.originalConfigSha256 := by
      by_contra hne
      exact hhashes (.inr hne)
    exact ⟨configuredPaths_label hpaths', hmedia', hcache', .inr (by rw [hsha]; exact horiginal)⟩

/-- What `findOriginals` says of a patch in place. -/
lemma findOriginals_installed {installed : Option VerifiedPatch}
    (h : findOriginals t s c receipt = .ok (o, installed)) :
    (receipt = none → o.mediaPath = c.mediaPath ∧ installed = none) ∧
      ∀ receiptBytes, receipt = some receiptBytes →
        ∃ verified, installed = some verified ∧ t.parseReceipt receiptBytes = .ok verified.receipt := by
  cases receipt with
  | none =>
    cases h
    exact ⟨fun _ => ⟨rfl, rfl⟩, by simp⟩
  | some receiptBytes =>
    refine ⟨by simp, ?_⟩
    rintro _ ⟨⟩
    simp only [findOriginals, returns] at h
    obtain ⟨verified, hverified, _, -, _, -, _, -, h⟩ := h
    cases h
    simp only [verifyAppliedPatch, returns] at hverified
    obtain ⟨r, hr, _, -, _, -, _, -, _, -, _, -, _, -, _, -, rfl⟩ := hverified
    refine ⟨_, rfl, ?_⟩
    cases hparse : t.parseReceipt receiptBytes with
    | error e =>
      rw [hparse] at hr
      cases hr
    | ok r' =>
      rw [hparse] at hr
      cases hr
      rfl

/-- How the parts of a plan hang together. -/
structure Composed (t : Tools) (plan : Plan) (executable : Bytes) (p : Prepared) : Prop where
  found : t.restoredExternal plan.originals.media = .ok executable
  prepared : t.prepareSkipTcon executable plan.originals.cache = .ok p
  media : t.replaceExecutable plan.originals.media p.executable = .ok plan.replacementMedia
  cache : plan.replacementCache = p.trustcacheIm4p
  stagedMedia : stagedPathForHash plan.originals.mediaPath (t.sha256 plan.replacementMedia) =
    .ok plan.stagedMedia
  stagedCache : stagedPathForHash plan.originals.cachePath (t.sha256 p.trustcacheIm4p) =
    .ok plan.stagedCache
  separate : components plan.stagedMedia ≠ components plan.stagedCache
  switched : switchedConfig t plan.originals.config plan.stagedMedia plan.stagedCache =
    .ok plan.replacement
  receipt : plan.receipt = {
    version := 1
    configSha256 := t.sha256 plan.replacement
    originalConfigSha256 := t.sha256 plan.originals.config
    originalMediaSha256 := t.sha256 plan.originals.media
    originalTrustcacheSha256 := t.sha256 plan.originals.cache
    mediaSha256 := t.sha256 plan.replacementMedia
    trustcacheSha256 := t.sha256 p.trustcacheIm4p
    executableSha256 := t.sha256 p.executable
    oldCdhash := p.oldCdhash
    newCdhash := p.newCdhash }

lemma makePlan_spec (h : makePlan t c receipt o p = .ok plan) :
    plan.current = c ∧ plan.currentReceipt = receipt ∧ plan.originals = o ∧
      ∀ executable, t.restoredExternal o.media = .ok executable →
        t.prepareSkipTcon executable o.cache = .ok p → Composed t plan executable p := by
  simp only [makePlan, returns, not_or] at h
  obtain ⟨media, hmedia, stagedMedia, hstagedMedia, stagedCache, hstagedCache, _, hseparate,
    replacement, hswitched, rfl⟩ := h
  exact ⟨rfl, rfl, rfl, fun executable hexecutable hp => ⟨hexecutable, hp, hmedia, rfl, hstagedMedia,
    hstagedCache, hseparate.2, hswitched, rfl⟩⟩

lemma PlanFor.composed (h : PlanFor t s plan) : ∃ executable p, Composed t plan executable p := by
  obtain ⟨executable, p, hexecutable, hp, hmake⟩ := h.prepared
  exact ⟨executable, p, (makePlan_spec hmake).2.2.2 executable hexecutable hp⟩

lemma Composed.recorded {executable : Bytes} (h : Composed t plan executable p) :
    Recorded t p plan.receipt := by
  rw [h.receipt]
  exact ⟨rfl, rfl, rfl⟩

lemma planFor_of_runBundle (h : runBundle t s = .ok (.switch plan)) : PlanFor t s plan := by
  simp only [runBundle, bind_eq_ok] at h
  obtain ⟨c, hc, ⟨o, installed⟩, hfound, executable, hexecutable, p, hp, h⟩ := h
  have hmake : makePlan t c (s (receiptPath t c.config)) o p = .ok plan ∧
      ∀ verified, installed = some verified → ¬ Recorded t p verified.receipt := by
    cases installed with
    | none =>
      simp only [returns] at h
      obtain ⟨_, hmake, heq⟩ := h
      cases heq
      exact ⟨hmake, by simp⟩
    | some verified =>
      simp only [bind_eq_ok] at h
      obtain ⟨_, -, h⟩ := h
      split_ifs at h with hrecorded
      · simp only [returns] at h
        obtain ⟨_, -, _, -, _, -, heq⟩ := h
        cases heq
      · simp only [returns] at h
        obtain ⟨_, hmake, heq⟩ := h
        cases heq
        refine ⟨hmake, ?_⟩
        rintro _ ⟨⟩
        exact hrecorded
  obtain ⟨hmake, hrecorded⟩ := hmake
  obtain ⟨rfl, hreceipt, rfl, hcomposed⟩ := makePlan_spec hmake
  obtain ⟨hpaths, hmedia, hcache, horiginal⟩ := findOriginals_spec hc hfound
  obtain ⟨hconfig, hcpaths, hmedia', hcache'⟩ := readCurrent_spec hc
  obtain ⟨hstock, hother⟩ := findOriginals_installed hfound
  refine ⟨hconfig, hcpaths, hmedia', hcache', hreceipt, hpaths, hmedia, hcache, horiginal, ?_, ?_,
    executable, p, hexecutable, hp, hreceipt ▸ hmake⟩
  · intro hnone
    exact (hstock (hreceipt ▸ hnone)).1
  · intro receiptBytes hsome hparse
    obtain ⟨verified, hinstalled, hverified⟩ := hother receiptBytes (hreceipt ▸ hsome)
    apply hrecorded verified hinstalled
    rw [Except.ok.inj (hverified.symm.trans hparse)]
    exact (hcomposed executable hexecutable hp).recorded

/-! ### The switch -/

/-- Each name of the plan is free or holds its file already. -/
def Plan.Free (t : Tools) (plan : Plan) (s : Bundle) : Prop :=
  ∀ file ∈ plan.staged t, s (components file.1) = none ∨ s (components file.1) = some file.2

lemma components_receiptPath (b : Bytes) : components (receiptPath t b) = receiptPath t b :=
  components_singleton (by simp [Blank])

lemma components_rollbackPath (b : Bytes) : components (rollbackPath b) = rollbackPath b :=
  components_singleton (by simp [Blank])

lemma components_temporaryConfig (b : Bytes) :
    components (temporaryConfig t b) = temporaryConfig t b :=
  components_singleton (by simp [Blank])

lemma forall_staged {P : Path × Bytes → Prop} : (∀ file ∈ plan.staged t, P file) ↔
    P (plan.stagedMedia, plan.replacementMedia) ∧
      P (plan.stagedCache, plan.replacementCache) ∧
      P (receiptPath t plan.replacement, t.printReceipt plan.receipt) ∧
      P (rollbackPath (t.sha256 plan.originals.config), plan.originals.config) ∧
      P (temporaryConfig t plan.replacement, plan.replacement) := by
  simp only [Plan.staged, forall_mem_cons, not_mem_nil, false_imp_iff, implies_true, and_true]

section Names

variable (hlaw : t.Lawful) (hplan : PlanFor t s plan) (hfree : plan.Free t s)
    (hcollision : t.sha256 plan.replacement = t.sha256 plan.current.config →
      plan.replacement = plan.current.config)

include hplan

lemma stagedFrom_plan : StagedFrom plan.originals.mediaPath plan.stagedMedia ∧
    StagedFrom plan.originals.cachePath plan.stagedCache := by
  obtain ⟨executable, p, hcomposed⟩ := hplan.composed
  exact ⟨stagedFrom_of_ok hcomposed.stagedMedia, stagedFrom_of_ok hcomposed.stagedCache⟩

lemma stagedKeys : StagedKey (components plan.stagedMedia) ∧ StagedKey (components plan.stagedCache) :=
  ⟨(stagedFrom_plan hplan).1.key, (stagedFrom_plan hplan).2.key⟩

include hlaw in
/-- The new configuration names the staged files. -/
lemma replacement_paths (what : String) :
    configuredPaths t what plan.replacement = .ok (plan.stagedMedia, plan.stagedCache) := by
  obtain ⟨executable, p, hcomposed⟩ := hplan.composed
  obtain ⟨hmedia, hcache⟩ := stagedFrom_plan hplan
  obtain ⟨htext, htext'⟩ := configuredPaths_textual (hplan.originalPaths what)
  exact hlaw.switched (hmedia.textual htext) (hcache.textual htext') hcomposed.switched what

lemma notPending : ∀ file ∈ plan.staged t, ¬ Pending (components file.1) := by
  rw [forall_staged, components_receiptPath, components_rollbackPath, components_temporaryConfig]
  exact ⟨(stagedKeys hplan).1.not_pending, (stagedKeys hplan).2.not_pending,
    not_pending_of_apart (by decide) _, not_pending_of_apart (by decide) _,
    not_pending_of_apart (by decide) _⟩

lemma distinct : ((plan.staged t).map fun file => components file.1).Nodup := by
  obtain ⟨executable, p, hcomposed⟩ := hplan.composed
  obtain ⟨hmedia, hcache⟩ := stagedKeys hplan
  simp only [Plan.staged, map_cons, map_nil, nodup_cons, mem_cons, not_mem_nil, or_false, not_or,
    not_false_eq_true, nodup_nil, and_true, components_receiptPath, components_rollbackPath,
    components_temporaryConfig]
  exact ⟨⟨hcomposed.separate, hmedia.ne_receiptPath _ _, hmedia.ne_rollbackPath _,
      hmedia.ne_temporaryConfig _ _⟩,
    ⟨hcache.ne_receiptPath _ _, hcache.ne_rollbackPath _, hcache.ne_temporaryConfig _ _⟩,
    ⟨receiptPath_ne_rollbackPath, receiptPath_ne_temporaryConfig⟩, rollbackPath_ne_temporaryConfig⟩

include hlaw hfree hcollision

/-- The two configurations have receipts of different names. -/
lemma renewed : receiptPath t plan.replacement ≠ receiptPath t plan.current.config := by
  intro heq
  have hsame := hcollision (receiptPath_inj heq)
  cases hreceipt : plan.currentReceipt with
  | none =>
    -- the current files are the originals, and a staged name is longer than the name it replaces
    have hpaths := (replacement_paths hlaw hplan _).symm.trans (hsame ▸ hplan.paths)
    have hstaged := (stagedFrom_plan hplan).1.longer
    rw [hplan.stock hreceipt] at hstaged
    exact hstaged (congrArg components (Prod.mk.inj (Except.ok.inj hpaths)).1)
  | some receiptBytes =>
    have hthere : s (receiptPath t plan.current.config) = some receiptBytes := by
      rw [← hplan.currentReceipt, hreceipt]
    have hstaged := (forall_staged.mp hfree).2.2.1
    simp only [components_receiptPath, heq, hthere, reduceCtorEq, false_or, Option.some.injEq] at hstaged
    apply hplan.other receiptBytes hreceipt
    rw [hstaged]
    exact hlaw.receipts _

lemma changes : plan.replacement ≠ plan.current.config :=
  fun heq => renewed hlaw hplan hfree hcollision (congrArg (receiptPath t) heq)

lemma notReceipt : ∀ file ∈ plan.staged t, components file.1 ≠ receiptPath t plan.current.config := by
  rw [forall_staged, components_receiptPath, components_rollbackPath, components_temporaryConfig]
  exact ⟨(stagedKeys hplan).1.ne_receiptPath _ _, (stagedKeys hplan).2.ne_receiptPath _ _,
    renewed hlaw hplan hfree hcollision, receiptPath_ne_rollbackPath.symm,
    receiptPath_ne_temporaryConfig.symm⟩

omit hcollision in
/-- The originals are neither the configuration nor the temporary one. -/
lemma originals_apart : ∀ path ∈ [plan.originals.mediaPath, plan.originals.cachePath],
    components path ≠ configJson ∧ components path ≠ temporaryConfig t plan.replacement := by
  obtain ⟨executable, p, hcomposed⟩ := hplan.composed
  have hnot {config : Bytes} {paths : Path × Path}
      (hpaths : configuredPaths t "" config = .ok paths) :
      ∀ path ∈ [plan.originals.mediaPath, plan.originals.cachePath],
        s (components path) ≠ some config := by
    obtain ⟨hmedia, hcache⟩ := hlaw.apart hpaths executable
    simp only [forall_mem_cons, not_mem_nil, false_imp_iff, implies_true, and_true,
      hplan.originalMedia, hplan.originalCache, ne_eq, Option.some.injEq]
    exact ⟨fun heq => hmedia executable (heq ▸ hcomposed.found),
      fun heq => hcache p (heq ▸ hcomposed.prepared)⟩
  intro path hpath
  have hcurrent := hnot (configuredPaths_label hplan.paths "") path hpath
  have hnew := hnot (replacement_paths hlaw hplan "") path hpath
  refine ⟨fun heq => hcurrent (heq ▸ hplan.config), ?_⟩
  intro heq
  have htemporary := (forall_staged.mp hfree).2.2.2.2
  simp only [components_temporaryConfig] at htemporary
  rw [← heq] at htemporary
  rcases htemporary with hnone | hsome
  · have hthere : (s (components path)).isSome := by
      have : ∀ path ∈ [plan.originals.mediaPath, plan.originals.cachePath],
          (s (components path)).isSome := by
        simp [hplan.originalMedia, hplan.originalCache]
      exact this path hpath
    rw [hnone] at hthere
    cases hthere
  · exact hnew hsome

end Names

/-- The new configuration is in place, with everything it depends on. -/
structure Switched (t : Tools) (plan : Plan) (s : Bundle) : Prop where
  config : s configJson = some plan.replacement
  media : s (components plan.stagedMedia) = some plan.replacementMedia
  cache : s (components plan.stagedCache) = some plan.replacementCache
  receipt : s (receiptPath t plan.replacement) = some (t.printReceipt plan.receipt)
  rollback : s (rollbackPath (t.sha256 plan.originals.config)) = some plan.originals.config
  originalMedia : s (components plan.originals.mediaPath) = some plan.originals.media
  originalCache : s (components plan.originals.cachePath) = some plan.originals.cache

/-- A run on a bundle that was switched verifies the receipt and has nothing to do. -/
lemma runBundle_switched (hlaw : t.Lawful) (hplan : PlanFor t s' plan) (h : Switched t plan s) :
    runBundle t s = .ok .alreadyApplied := by
  obtain ⟨executable, p, hcomposed⟩ := hplan.composed
  have hreceipt := hcomposed.receipt
  have hrollback : s (components (rollbackPath (t.sha256 plan.originals.config))) =
      some plan.originals.config := (components_rollbackPath _).symm ▸ h.rollback
  have hconfig : s (components configJson) = some plan.replacement := h.config
  have hcurrent : readCurrent t s = .ok ⟨plan.replacement, plan.stagedMedia, plan.stagedCache,
      plan.replacementMedia, plan.replacementCache⟩ := by
    simp only [readCurrent, bind_eq_ok, pure_eq_ok, read_eq_ok]
    exact ⟨_, h.config, _, replacement_paths hlaw hplan _, _, h.media, _, h.cache, rfl⟩
  have hvalid : validateReceiptConfig t plan.receipt plan.replacement plan.originals.config
      plan.stagedMedia plan.stagedCache =
        .ok (plan.originals.mediaPath, plan.originals.cachePath) := by
    simp only [validateReceiptConfig, bind_eq_ok, pure_eq_ok, failIf_eq_ok]
    refine ⟨(), by rw [hreceipt]; simp, (), by rw [hreceipt]; simp, _, hplan.originalPaths _, _,
      hcomposed.switched, (), by simp, _, by rw [hreceipt]; exact hcomposed.stagedMedia, _,
      by rw [hreceipt]; exact hcomposed.stagedCache, (), by simp, rfl⟩
  have hverified : verifyAppliedPatch t s ⟨plan.replacement, plan.stagedMedia, plan.stagedCache,
      plan.replacementMedia, plan.replacementCache⟩ (t.printReceipt plan.receipt) =
        .ok ⟨plan.receipt, plan.originals.config, plan.originals.mediaPath,
          plan.originals.cachePath⟩ := by
    simp only [verifyAppliedPatch, bind_eq_ok, pure_eq_ok, failIf_eq_ok, read_eq_ok]
    refine ⟨_, by rw [hlaw.receipts]; rfl, _, by rw [hreceipt]; exact hrollback, _, hvalid, (), ?_,
      _, hlaw.replaced _ _ _ hcomposed.media, (), by rw [hreceipt]; simp, (), ?_, (), ?_, rfl⟩
    · rw [hreceipt, hcomposed.cache]
      simp
    · rw [recheckAll_eq_ok]
      simp only [forall_mem_cons, not_mem_nil, false_imp_iff, implies_true, and_true,
        recheckHash_eq_ok, hreceipt]
      exact ⟨⟨_, h.originalMedia, rfl⟩, ⟨_, h.originalCache, rfl⟩, ⟨_, h.media, rfl⟩,
        ⟨_, h.cache, by rw [hcomposed.cache]⟩, ⟨_, hrollback, rfl⟩, ⟨_, hconfig, rfl⟩⟩
    · exact recheckHash_eq_ok.mpr ⟨_, (components_receiptPath _).symm ▸ h.receipt, rfl⟩
  have hfound : findOriginals t s ⟨plan.replacement, plan.stagedMedia, plan.stagedCache,
      plan.replacementMedia, plan.replacementCache⟩ (some (t.printReceipt plan.receipt)) =
        .ok (plan.originals, some ⟨plan.receipt, plan.originals.config, plan.originals.mediaPath,
          plan.originals.cachePath⟩) := by
    simp only [findOriginals, bind_eq_ok, pure_eq_ok, failIf_eq_ok, read_eq_ok]
    exact ⟨_, hverified, _, h.originalMedia, _, h.originalCache, (), by rw [hreceipt]; simp, rfl⟩
  simp only [runBundle, bind_eq_ok]
  refine ⟨_, hcurrent, _, by rw [h.receipt]; exact hfound, executable, hcomposed.found, p,
    hcomposed.prepared, ?_⟩
  simp only [bind_eq_ok, failIf_eq_ok, if_pos hcomposed.recorded, read_eq_ok]
  refine ⟨(), by rw [hreceipt]; simp, _, h.media, _, h.cache, ⟨plan.receipt, plan.originals.config,
    plan.originals.mediaPath, plan.originals.cachePath⟩, ?_, rfl⟩
  rw [h.receipt]
  exact hverified

lemma acts_eq (t : Tools) (plan : Plan) : plan.acts t = stages (plan.staged t) ++
    (rechecks (plan.sources t) ++ (.rename (temporaryConfig t plan.replacement) ::
      rechecks [(configJson, t.sha256 plan.replacement)])) := by
  simp [Plan.acts, stages, rechecks]

/-- If one of the names is taken by other bytes, no run makes the switch. -/
lemma stops_taken {file : Path × Bytes} {other : Bytes} (hfile : file ∈ plan.staged t)
    (htaken : s (components file.1) = some other) (hother : other ≠ file.2)
    (h : Stops t (plan.acts t) s s') : Adds (plan.staged t) s s' := by
  rw [acts_eq] at h
  rcases stops_append h with hstages | ⟨s₁, hstages, -⟩
  · exact stops_stages (List.Subset.refl _) hstages
  · obtain ⟨hadds, hall⟩ := performAll_stages (List.Subset.refl (plan.staged t)) hstages
    have hsame := (hadds.grows _ _ htaken).symm.trans (hall file hfile)
    exact absurd (Option.some.inj hsame) hother

section Free

variable (hlaw : t.Lawful) (hplan : PlanFor t s plan) (hfree : plan.Free t s)
    (hcollision : t.sha256 plan.replacement = t.sha256 plan.current.config →
      plan.replacement = plan.current.config)

include hplan hfree

lemma free_adds (h : Adds (plan.staged t) s s') : plan.Free t s' := by
  intro file hfile
  rcases hfree file hfile with hnone | hfound
  · rcases h.added _ hnone with hnone' | ⟨file', hmem, heq, hsome⟩ | hmadeUp
    · exact .inl hnone'
    · -- the name has one content in the plan
      rw [inj_on_of_nodup_map (distinct hplan) hmem hfile heq] at hsome
      exact .inr hsome
    · exact absurd hmadeUp (notPending hplan file hfile)
  · exact .inr (h.grows _ _ hfound)

include hlaw

/-- Once all the files are staged, the rename makes the switch. -/
lemma switched_renamed (h : Adds (plan.staged t) s s')
    (hall : ∀ file ∈ plan.staged t, s' (components file.1) = some file.2) :
    Switched t plan (renamed s' (temporaryConfig t plan.replacement)) := by
  obtain ⟨hmedia, hcache, hreceipt, hrollback, htemporary⟩ := forall_staged.mp hall
  rw [components_receiptPath] at hreceipt
  rw [components_rollbackPath] at hrollback
  rw [components_temporaryConfig] at htemporary
  have hkept {key : Path} {bytes : Bytes} (hbytes : s' key = some bytes)
      (hne : key ≠ configJson) (hne' : key ≠ temporaryConfig t plan.replacement) :
      renamed s' (temporaryConfig t plan.replacement) key = some bytes := by
    simp only [renamed, put, if_neg hne, if_neg hne', hbytes]
  obtain ⟨hmediaPath, hcachePath⟩ := forall_mem_cons.mp (originals_apart hlaw hplan hfree)
  have hcachePath := hcachePath _ mem_cons_self
  obtain ⟨hkey, hkey'⟩ := stagedKeys hplan
  refine ⟨?_, hkept hmedia hkey.ne_configJson (hkey.ne_temporaryConfig _ _),
    hkept hcache hkey'.ne_configJson (hkey'.ne_temporaryConfig _ _),
    hkept hreceipt receiptPath_ne_config receiptPath_ne_temporaryConfig,
    hkept hrollback rollbackPath_ne_config rollbackPath_ne_temporaryConfig,
    hkept (h.grows _ _ hplan.originalMedia) hmediaPath.1 hmediaPath.2,
    hkept (h.grows _ _ hplan.originalCache) hcachePath.1 hcachePath.2⟩
  simp only [renamed, put, if_neg temporaryConfig_ne_config.symm, if_true, htemporary]

omit hfree hlaw in
/-- Nothing that is hashed once more has changed. -/
lemma sources_unchanged (h : Adds (plan.staged t) s s')
    (hall : ∀ file ∈ plan.staged t, s' (components file.1) = some file.2) :
    recheckAll t s' (plan.sources t) = .ok () := by
  obtain ⟨executable, p, hcomposed⟩ := hplan.composed
  have hreceipt := hcomposed.receipt
  obtain ⟨hmedia, hcache, hstaged, hrollback, htemporary⟩ := forall_staged.mp hall
  have hconfig : s (components configJson) = some plan.current.config := hplan.config
  rw [recheckAll_eq_ok]
  simp only [Plan.sources, forall_mem_append]
  refine ⟨⟨?_, ?_⟩, ?_⟩
  · simp only [forall_mem_cons, not_mem_nil, false_imp_iff, implies_true, and_true,
      recheckHash_eq_ok, hreceipt]
    exact ⟨⟨_, h.grows _ _ hplan.originalMedia, rfl⟩, ⟨_, h.grows _ _ hplan.originalCache, rfl⟩,
      ⟨_, h.grows _ _ hplan.media, rfl⟩, ⟨_, h.grows _ _ hplan.cache, rfl⟩⟩
  · cases hcurrent : plan.currentReceipt with
    | none => simp
    | some receiptBytes =>
      have hthere : s (components (receiptPath t plan.current.config)) = some receiptBytes := by
        rw [components_receiptPath, ← hplan.currentReceipt, hcurrent]
      simp only [forall_mem_cons, not_mem_nil, false_imp_iff, implies_true, and_true,
        recheckHash_eq_ok, hreceipt]
      exact ⟨⟨_, h.grows _ _ hthere, rfl⟩, ⟨_, hrollback, rfl⟩⟩
  · simp only [forall_mem_cons, not_mem_nil, false_imp_iff, implies_true, and_true,
      recheckHash_eq_ok, hreceipt]
    exact ⟨⟨_, hmedia, rfl⟩, ⟨_, hcache, by rw [hcomposed.cache]⟩, ⟨_, hstaged, by rw [hreceipt]⟩,
      ⟨_, hrollback, rfl⟩, ⟨_, htemporary, rfl⟩, ⟨_, h.grows _ _ hconfig, rfl⟩⟩

/-- A run that is not stopped makes the switch. -/
lemma performAll_acts : ∃ s', performAll t s (plan.acts t) = .ok s' ∧ Switched t plan s' := by
  obtain ⟨s₁, hstages⟩ : ∃ s₁, performAll t s (stages (plan.staged t)) = .ok s₁ :=
    performAll_stages_ok (distinct hplan) hfree
  obtain ⟨hadds, hall⟩ := performAll_stages (List.Subset.refl (plan.staged t)) hstages
  have hrechecks : performAll t s₁ (rechecks (plan.sources t)) = .ok s₁ :=
    performAll_rechecks.mpr ⟨rfl, sources_unchanged hplan hadds hall⟩
  have htemporary := (forall_staged.mp hall).2.2.2.2
  rw [components_temporaryConfig] at htemporary
  have hswitched := switched_renamed hlaw hplan hfree hadds hall
  refine ⟨_, ?_, hswitched⟩
  have hlast : performAll t (renamed s₁ (temporaryConfig t plan.replacement))
      (rechecks [(configJson, t.sha256 plan.replacement)]) =
        .ok (renamed s₁ (temporaryConfig t plan.replacement)) := by
    rw [performAll_rechecks, recheckAll_eq_ok, forall_mem_singleton, recheckHash_eq_ok]
    exact ⟨rfl, _, hswitched.config, rfl⟩
  rw [acts_eq, performAll_append, bind_ok hstages, performAll_append, bind_ok hrechecks]
  simp only [performAll, perform, htemporary]
  exact hlast

/-- Where a run can be stopped: before the switch, with files only added, or after it. -/
lemma stops_acts (h : Stops t (plan.acts t) s s') :
    Adds (plan.staged t) s s' ∨ Switched t plan s' := by
  rw [acts_eq] at h
  rcases stops_append h with hstages | ⟨s₁, hstages, h⟩
  · exact .inl (stops_stages (List.Subset.refl _) hstages)
  · obtain ⟨hadds, hall⟩ := performAll_stages (List.Subset.refl (plan.staged t)) hstages
    rcases stops_append h with hrechecks | ⟨s₂, hrechecks, hrename⟩
    · rw [stops_rechecks hrechecks]
      exact .inl hadds
    · obtain ⟨rfl, -⟩ := performAll_rechecks.mp hrechecks
      rcases stops_rename hrename with rfl | rfl
      · exact .inl hadds
      · exact .inr (switched_renamed hlaw hplan hfree hadds hall)

include hcollision

/-- Up to the rename there is no new receipt for the configuration in place. -/
lemma receipt_kept (h : Adds (plan.staged t) s s') :
    s' (receiptPath t plan.current.config) = s (receiptPath t plan.current.config) := by
  cases hreceipt : s (receiptPath t plan.current.config) with
  | some receiptBytes => exact h.grows _ _ hreceipt
  | none =>
    rcases h.added _ hreceipt with hnone | ⟨file, hmem, heq, -⟩ | hmadeUp
    · exact hnone
    · exact absurd heq (notReceipt hlaw hplan hfree hcollision _ hmem)
    · exact absurd hmadeUp (not_pending_of_apart (by decide) _)

lemma runBundle_adds (h : Adds (plan.staged t) s s') (hrun : runBundle t s = .ok (.switch plan)) :
    runBundle t s' = .ok (.switch plan) := by
  refine runBundle_mono h.grows hrun ?_
  intro config hconfig
  cases hplan.config.symm.trans hconfig
  exact receipt_kept hlaw hplan hfree hcollision h

end Free

/-- Wherever a run is stopped, the configuration is the old one or the new one, the originals are
there, and if the configuration is the new one then so is all it depends on, with the hashes of the
receipt.  If it is the old one, another run has the same plan and makes the switch unless it is
stopped too; if it is the new one, another run finds the patch applied and writes nothing. -/
theorem bundle_switch_crash_safe (t : Tools) (hlaw : t.Lawful) (s s' : Bundle) (plan : Plan)
    (hrun : runBundle t s = .ok (.switch plan))
    (hfree : plan.Free t s)
    (hcollision : t.sha256 plan.replacement = t.sha256 plan.current.config →
      plan.replacement = plan.current.config)
    (hstops : Stops t (plan.acts t) s s') :
    (s' configJson = some plan.current.config ∨ s' configJson = some plan.replacement) ∧
      s' (components plan.originals.mediaPath) = some plan.originals.media ∧
      s' (components plan.originals.cachePath) = some plan.originals.cache ∧
      (s' configJson = some plan.originals.config ∨
        s' (rollbackPath (t.sha256 plan.originals.config)) = some plan.originals.config) ∧
      (s' configJson = some plan.replacement →
        recheckAll t s' [(plan.stagedMedia, plan.receipt.mediaSha256),
          (plan.stagedCache, plan.receipt.trustcacheSha256),
          (rollbackPath plan.receipt.originalConfigSha256, plan.receipt.originalConfigSha256),
          (configJson, plan.receipt.configSha256)] = .ok () ∧
        s' (receiptPath t plan.replacement) = some (t.printReceipt plan.receipt) ∧
        runBundle t s' = .ok .alreadyApplied) ∧
      (s' configJson = some plan.current.config →
        runBundle t s' = .ok (.switch plan) ∧
        plan.Free t s' ∧
        ∃ s'', performAll t s' (plan.acts t) = .ok s'' ∧
          s'' configJson = some plan.replacement) := by
  have hplan := planFor_of_runBundle hrun
  have hchanges := changes hlaw hplan hfree hcollision
  rcases stops_acts hlaw hplan hfree hstops with hadds | hswitched
  · -- not yet switched
    have hrun' := runBundle_adds hlaw hplan hfree hcollision hadds hrun
    have hplan' := planFor_of_runBundle hrun'
    have hfree' := free_adds hplan hfree hadds
    refine ⟨.inl hplan'.config, hplan'.originalMedia, hplan'.originalCache, hplan'.originalConfig,
      ?_, ?_⟩
    · intro hnew
      exact absurd (Option.some.inj (hnew.symm.trans hplan'.config)) hchanges
    · intro _
      obtain ⟨s'', hperformed, hswitched⟩ := performAll_acts hlaw hplan' hfree'
      exact ⟨hrun', hfree', s'', hperformed, hswitched.config⟩
  · refine ⟨.inr hswitched.config, hswitched.originalMedia, hswitched.originalCache,
      .inr hswitched.rollback, ?_, ?_⟩
    · intro _
      refine ⟨?_, hswitched.receipt, runBundle_switched hlaw hplan hswitched⟩
      obtain ⟨executable, p, hcomposed⟩ := hplan.composed
      have hrollback := (components_rollbackPath _).symm ▸ hswitched.rollback
      have hconfig : s' (components configJson) = some plan.replacement := hswitched.config
      rw [recheckAll_eq_ok]
      simp only [forall_mem_cons, not_mem_nil, false_imp_iff, implies_true, and_true,
        recheckHash_eq_ok, hcomposed.receipt]
      exact ⟨⟨_, hswitched.media, rfl⟩, ⟨_, hswitched.cache, by rw [hcomposed.cache]⟩,
        ⟨_, hrollback, rfl⟩, ⟨_, hconfig, rfl⟩⟩
    · intro hold
      exact absurd (Option.some.inj (hswitched.config.symm.trans hold)) hchanges

/-! ### A small bundle -/

/-- The characters of a name, four bytes each. -/
def printName (name : Name) : Bytes := name.flatMap fun c => Bytes.leBytes 4 c.toNat

def parseName : Bytes → Name
  | a :: b :: c :: d :: rest => Char.ofNat (Bytes.leVal [a, b, c, d]) :: parseName rest
  | _ => []

lemma parseName_printName (name : Name) : parseName (printName name) = name := by
  induction name with
  | nil => rfl
  | cons c name ih =>
    have hstep (rest : Bytes) : parseName (Bytes.leBytes 4 c.toNat ++ rest) =
        Char.ofNat (Bytes.leVal (Bytes.leBytes 4 c.toNat)) :: parseName rest := rfl
    have hc : c.toNat < 256 ^ 4 := c.val.toBitVec.isLt
    rw [printName, flatMap_cons, hstep, Bytes.leVal_leBytes, Nat.mod_eq_of_lt hc, Char.ofNat_toNat]
    exact congrArg (c :: ·) ih

/-- A configuration with the two paths and nothing else. -/
def smallConfig (media cache : Name) : Value :=
  .object [("sources".toList, .object [("restoreMediaPath".toList, .string media)]),
    ("directBoot".toList, .object [("restoreTrustcachePath".toList, .string cache)])]

def stringAt (value : Value) (pointer : Pointer) : Name :=
  match value.pointer pointer with
  | some (.string text) => text
  | _ => []

/-- The two paths after a brace. -/
def printSmall (value : Value) : Bytes :=
  0x7B :: Fields.joinFields [printName (stringAt value mediaPointer), printName (stringAt value cachePointer)]

def parseSmall (bytes : Bytes) : Except String Value :=
  match bytes.head?, Fields.splitFields bytes.tail with
  | some 0x7B, media :: cache :: _ => .ok (smallConfig (parseName media) (parseName cache))
  | _, _ => .error "expected value"

lemma parseSmall_printSmall (media cache : Name) :
    parseSmall (printSmall (smallConfig media cache) ++ [0x0A]) = .ok (smallConfig media cache) := by
  have hmedia : stringAt (smallConfig media cache) mediaPointer = media := rfl
  have hcache : stringAt (smallConfig media cache) cachePointer = cache := rfl
  rw [printSmall, hmedia, hcache, cons_append, parseSmall, head?_cons, tail_cons,
    Fields.splitFields_joinFields (by decide)]
  exact congrArg₂ (fun media cache => Except.ok (smallConfig media cache))
    (parseName_printName media) (parseName_printName cache)

lemma parseSmall_eq_ok {bytes : Bytes} {value : Value} (h : parseSmall bytes = .ok value) :
    bytes.head? = some 0x7B ∧ ∃ media cache, value = smallConfig media cache := by
  unfold parseSmall at h
  split at h
  · next hhead _ =>
    cases h
    exact ⟨hhead, _, _, rfl⟩
  · cases h

/-- Receipts field by field. -/
def printFields (r : PatchReceipt) : Bytes :=
  Fields.joinFields [List.replicate r.version 0, r.configSha256, r.originalConfigSha256,
    r.originalMediaSha256, r.originalTrustcacheSha256, r.mediaSha256, r.trustcacheSha256,
    r.executableSha256, r.oldCdhash, r.newCdhash]

def parseFields (b : Bytes) : Except String PatchReceipt :=
  match Fields.splitFields b with
  | [version, config, originalConfig, originalMedia, originalCache, media, cache, executable, old,
      new] =>
    .ok ⟨version.length, config, originalConfig, originalMedia, originalCache, media, cache,
      executable, old, new⟩
  | _ => .error "malformed"

/-- A sum for a hash, media and caches that begin with a sequence tag, and a patch that appends a
byte. -/
def smallTools : Tools where
  sha256 b := [b.foldl (· + ·) 0]
  parseJson := parseSmall
  printJson := printSmall
  restoredExternal media :=
    if media.head? = some 0x30 then .ok media.tail
    else .error "restore media must be exactly one IM4P DER sequence"
  prepareSkipTcon executable cache :=
    if cache.head? = some 0x30 then .ok ⟨executable ++ [9], cache ++ [9], [2], [3]⟩
    else .error "trust cache must be one IM4P"
  replaceExecutable _ executable := .ok (0x30 :: executable)
  printReceipt := printFields
  parseReceipt := parseFields

lemma smallTools_lawful : smallTools.Lawful where
  receipts := by
    intro r
    have hsplit := Fields.splitFields_joinFields (by decide) [List.replicate r.version (0 : Byte),
      r.configSha256, r.originalConfigSha256, r.originalMediaSha256, r.originalTrustcacheSha256,
      r.mediaSha256, r.trustcacheSha256, r.executableSha256, r.oldCdhash, r.newCdhash] []
    rw [append_nil] at hsplit
    simp only [smallTools, printFields, parseFields, hsplit, Fields.splitFields, append_nil,
      length_replicate]
  json := by
    intro config value media cache hvalue
    obtain ⟨-, _, _, rfl⟩ := parseSmall_eq_ok hvalue
    exact ⟨smallConfig media cache, parseSmall_printSmall media cache, fun _ _ h => h⟩
  notMedia := by
    intro config value text executable hvalue _
    simp [smallTools, (parseSmall_eq_ok hvalue).1]
  notCache := by
    intro config value text executable prepared hvalue _
    simp [smallTools, (parseSmall_eq_ok hvalue).1]
  replaced := by
    intro media executable media' h
    cases h
    rfl

def smallOriginal : Bytes := printSmall (smallConfig ['m'] ['c'])

def smallBundle : Bundle := fun key =>
  if key = configJson then some smallOriginal
  else if key = [['m']] then some [0x30, 5]
  else if key = [['c']] then some [0x30, 6]
  else none

def smallReplacement : Bytes :=
  printSmall (smallConfig "m.skip-tcon-3e".toList "c.skip-tcon-3f".toList) ++ [0x0A]

def smallPlan : Plan where
  current := ⟨smallOriginal, [['m']], [['c']], [0x30, 5], [0x30, 6]⟩
  currentReceipt := none
  originals := ⟨smallOriginal, [['m']], [['c']], [0x30, 5], [0x30, 6]⟩
  receipt := ⟨1, smallTools.sha256 smallReplacement, smallTools.sha256 smallOriginal, [0x35], [0x36],
    [0x3e], [0x3f], [14], [2], [3]⟩
  replacement := smallReplacement
  stagedMedia := ["m.skip-tcon-3e".toList]
  replacementMedia := [0x30, 5, 9]
  stagedCache := ["c.skip-tcon-3f".toList]
  replacementCache := [0x30, 6, 9]

/-- The bundle with the two staged files and the first bytes of the receipt under a made-up name. -/
def smallStop : Bundle :=
  put (put (put smallBundle smallPlan.stagedMedia (some smallPlan.replacementMedia))
    smallPlan.stagedCache (some smallPlan.replacementCache))
    [".restore-patch-stage-".toList ++ hex (Bytes.zeros 16)] (some [1, 0, 0])

lemma smallStop_stops : Stops smallTools (smallPlan.acts smallTools) smallBundle smallStop :=
  .next rfl (.next rfl (.pending _ _ (by decide +kernel) (by decide +kernel)
    ⟨Bytes.zeros 16, rfl, rfl⟩ (by decide +kernel)))

/-- A run stopped while it writes the receipt, and the run after it. -/
theorem bundle_switch_small :
    Stops smallTools (smallPlan.acts smallTools) smallBundle smallStop ∧
      smallStop configJson = some smallOriginal ∧
      runBundle smallTools smallStop = .ok (.switch smallPlan) ∧
      ∃ s', performAll smallTools smallStop (smallPlan.acts smallTools) = .ok s' ∧
        s' configJson = some smallReplacement := by
  have hsafe := bundle_switch_crash_safe smallTools smallTools_lawful smallBundle smallStop smallPlan
    (by decide +kernel) (by unfold Plan.Free; decide +kernel) (by decide +kernel) smallStop_stops
  have hconfig : smallStop configJson = some smallOriginal := by decide +kernel
  obtain ⟨hrun, -, hcompleted⟩ := hsafe.2.2.2.2.2 hconfig
  exact ⟨smallStop_stops, hconfig, hrun, hcompleted⟩

/-- Another file under the name of the rollback copy. -/
def takenBundle : Bundle :=
  put smallBundle (rollbackPath (smallTools.sha256 smallOriginal)) (some [7])

/-- A run starts on this bundle, and wherever it stops the configuration is the old one. -/
theorem taken_name_blocks_switch :
    runBundle smallTools takenBundle = .ok (.switch smallPlan) ∧
      performAll smallTools takenBundle (smallPlan.acts smallTools) =
        .error "staged bundle file collision: config.restore-patch-original-53.json" ∧
      ∀ s', Stops smallTools (smallPlan.acts smallTools) takenBundle s' →
        s' configJson = some smallOriginal := by
  refine ⟨by decide +kernel, by rfl, ?_⟩
  intro s' hstops
  have htaken : takenBundle (components (rollbackPath (smallTools.sha256 smallOriginal))) = some [7] := by
    decide +kernel
  have hmem : (rollbackPath (smallTools.sha256 smallOriginal), smallOriginal) ∈
      smallPlan.staged smallTools := by decide +kernel
  have hadds := stops_taken hmem htaken (by decide +kernel) hstops
  exact hadds.grows _ _ (by decide +kernel)

end AppleUtils.Restore
