import AppleUtils.Lib.Fields
import AppleUtils.Ramrod.Authority

/-! # One authority per directory

Whatever calls of `load_or_generate_portable` race through an empty directory, its record is
published once and everything else follows from it.  `Elected` is that state of a directory: a
valid record, member files that are absent or as the record says, and no descriptor before the
seeds and serial numbers.  `Settled`, the invariant, is an empty directory or an elected one.

Each function of the model has a rule that says what it does in an elected directory while others
go on (`resumeCreation_safe` and those before it).  `authority_elected` puts them together. -/

namespace AppleUtils.Ramrod

open Racing Checks FdrMaterialCreationRecord

variable {bytes : Bytes}

section

variable (json : Json) (issue : Issuer) {text : Text} {field : String} {next : FdrM Bytes}

/-! ### Elected directories -/

structure Elected (s : Directory) (record : FdrMaterialCreationRecord) (sel : ValidatedCreation) :
    Prop where
  file : s .record = some (json.writeRecord record)
  valid : validateCreation json issue record = .ok sel
  members : ∀ f b, s f = some b → b = memberBytes json record sel.inputs f
  order : (s .descriptor).isSome → ∀ f ∈ seedsAndSerials, (s f).isSome

def Settled (s : Directory) : Prop := (∀ f, s f = none) ∨ ∃ record sel, Elected json issue s record sel

variable {json issue} {s s' : Directory} {record record' : FdrMaterialCreationRecord}
    {sel sel' : ValidatedCreation} {file : AuthorityFile}

lemma Elected.settled (h : Elected json issue s record sel) : Settled json issue s :=
  .inr ⟨record, sel, h⟩

/-- A settled directory with a file in it is elected. -/
lemma Settled.elected (h : Settled json issue s) (hf : (s file).isSome = true) :
    ∃ record sel, Elected json issue s record sel := by
  rcases h with hnone | helected
  · rw [hnone file] at hf
    cases hf
  · exact helected

lemma writeRecord_inj (h : json.writeRecord record = json.writeRecord record') : record = record' := by
  have hread := congrArg json.readRecord h
  rw [json.record_roundTrip, json.record_roundTrip] at hread
  exact Except.ok.inj hread

section

variable (h : Elected json issue s record sel)

include h

lemma Elected.unique (h' : Elected json issue s record' sel') : record = record' ∧ sel = sel' := by
  have hrecord := writeRecord_inj (Option.some.inj (h.file.symm.trans h'.file))
  subst hrecord
  exact ⟨rfl, Except.ok.inj (h.valid.symm.trans h'.valid)⟩

/-- Once elected, always so, and by the same record. -/
lemma Elected.grow (hg : s.Grows s') (hi : Settled json issue s') : Elected json issue s' record sel := by
  have hfile := hg _ _ h.file
  obtain ⟨record', sel', h'⟩ := hi.elected (by rw [hfile]; rfl)
  have hrecord := writeRecord_inj (Option.some.inj (hfile.symm.trans h'.file))
  subst hrecord
  rw [Except.ok.inj (h.valid.symm.trans h'.valid)]
  exact h'

/-- A file of an elected directory holds what the record says. -/
lemma Elected.member (hf : (s file).isSome) : s file = some (memberBytes json record sel.inputs file) := by
  obtain ⟨b, hb⟩ := Option.isSome_iff_exists.mp hf
  rw [hb, h.members file b hb]

end

lemma isSome_grow (hf : (s file).isSome) (hg : s.Grows s') : (s' file).isSome := by
  obtain ⟨b, hb⟩ := Option.isSome_iff_exists.mp hf
  rw [hg _ _ hb]
  rfl

/-- Publishing a member as the record says keeps the directory elected. -/
lemma Elected.publish (h : Elected json issue s record sel)
    (hfile : file ∈ seedsAndSerials ∨ ∀ f ∈ seedsAndSerials, (s f).isSome) :
    Elected json issue (s.publish file (memberBytes json record sel.inputs file)) record sel := by
  have hg := s.grows_publish file (memberBytes json record sel.inputs file)
  refine ⟨hg _ _ h.file, h.valid, ?_, ?_⟩
  · intro f b hb
    by_cases hf : f = file
    · subst hf
      cases hs : s f with
      | none =>
        rw [Store.publish_self hs] at hb
        exact (Option.some.inj hb).symm
      | some old =>
        rw [Store.publish_of_some hs] at hb
        exact h.members f b hb
    · rw [Store.publish_of_ne hf] at hb
      exact h.members f b hb
  · intro hdescriptor f hf
    rcases hfile with hfile | hall
    · have hne : AuthorityFile.descriptor ≠ file := by
        rintro rfl
        simp [seedsAndSerials] at hfile
      rw [Store.publish_of_ne hne] at hdescriptor
      exact isSome_grow (h.order hdescriptor f hf) hg
    · exact isSome_grow (hall f hf) hg

lemma Settled.publish_record (h : Settled json issue s) (hvalid : validateCreation json issue record = .ok sel) :
    Settled json issue (s.publish .record (json.writeRecord record)) := by
  rcases h with hnone | ⟨record', sel', helected⟩
  · refine .inr ⟨record, sel, Store.publish_self (hnone _) _, hvalid, ?_, ?_⟩
    · intro f b hb
      by_cases hf : f = .record
      · subst hf
        rw [Store.publish_self (hnone _)] at hb
        exact (Option.some.inj hb).symm
      · rw [Store.publish_of_ne hf, hnone f] at hb
        cases hb
    · intro hdescriptor
      rw [Store.publish_of_ne (by decide), hnone] at hdescriptor
      cases hdescriptor
  · rw [Store.publish_of_some helected.file]
    exact helected.settled

/-! ### What a valid record gives -/

structure Valid (json : Json) (issue : Issuer) (record : FdrMaterialCreationRecord)
    (sel : ValidatedCreation) : Prop where
  inputs : record.inputs json = .ok sel.inputs
  parsed : FdrMaterialDescriptor.parse json record.descriptorJson = .ok sel.inputs.descriptor
  validated : sel.inputs.descriptor.validate = .ok ()
  rootSeed : sel.inputs.rootCaSeed.length = FDR_KEY_SEED_BYTES
  tlsSeed : sel.inputs.tlsRootSeed.length = FDR_KEY_SEED_BYTES
  rootSerial : ¬ (sel.inputs.rootCaSerial = [] ∨
    MAXIMUM_SERIAL_BYTES < sel.inputs.rootCaSerial.length)
  tlsSerial : ¬ (sel.inputs.tlsRootSerial = [] ∨
    MAXIMUM_SERIAL_BYTES < sel.inputs.tlsRootSerial.length)
  issued : ∃ rootDomain tlsDomain rootSubject tlsSubject,
    sel.inputs.descriptor.rootCa.keyDerivationDomain "rootCa" = .ok rootDomain ∧
    sel.inputs.descriptor.tlsRoot.keyDerivationDomain "tlsRoot" = .ok tlsDomain ∧
    sel.inputs.descriptor.rootCa.subjectName "rootCa" = .ok rootSubject ∧
    sel.inputs.descriptor.tlsRoot.subjectName "tlsRoot" = .ok tlsSubject ∧
    issue ⟨sel.inputs.rootCaSeed, rootDomain⟩ ⟨sel.inputs.tlsRootSeed, tlsDomain⟩
      (identity sel.inputs.descriptor.rootCa rootSubject sel.inputs.rootCaSerial)
      (identity sel.inputs.descriptor.tlsRoot tlsSubject sel.inputs.tlsRootSerial) =
        .ok sel.material

lemma mapError_eq_ok {ε ε' α : Type} {f : ε → ε'} {r : Except ε α} {a : α} : r.mapError f = .ok a ↔ r = .ok a := by
  cases r <;> simp [Except.mapError]

lemma creationSeed_length (h : creationSeed text field = .ok bytes) : bytes.length = FDR_KEY_SEED_BYTES := by
  obtain ⟨_, _, h⟩ := bind_eq_ok.mp h
  obtain ⟨_, hlength, h⟩ := bind_eq_ok.mp h
  rw [← pure_eq_ok.mp h]
  exact not_not.mp (failIf_eq_ok.mp hlength)

/-- A serial that is not all zero is not empty. -/
lemma creationSerial_length
    (h : creationSerial text field = .ok bytes) : ¬ (bytes = [] ∨ MAXIMUM_SERIAL_BYTES < bytes.length) := by
  obtain ⟨_, _, h⟩ := bind_eq_ok.mp h
  obtain ⟨_, hlength, h⟩ := bind_eq_ok.mp h
  rw [← pure_eq_ok.mp h]
  rw [failIf_eq_ok] at hlength
  rintro (rfl | hlong)
  · exact hlength (.inr rfl)
  · exact hlength (.inl hlong)

lemma valid_of_validateCreation (h : validateCreation json issue record = .ok sel) :
    Valid json issue record sel := by
  unfold validateCreation at h
  obtain ⟨inputs, hinputs, h⟩ := bind_eq_ok.mp h
  obtain ⟨rootDomain, hrootDomain, h⟩ := bind_eq_ok.mp h
  obtain ⟨tlsDomain, htlsDomain, h⟩ := bind_eq_ok.mp h
  obtain ⟨rootSubject, hrootSubject, h⟩ := bind_eq_ok.mp h
  obtain ⟨tlsSubject, htlsSubject, h⟩ := bind_eq_ok.mp h
  obtain ⟨material, hmaterial, h⟩ := bind_eq_ok.mp h
  rw [mapError_eq_ok] at hmaterial
  obtain rfl := pure_eq_ok.mp h
  have hopen := hinputs
  unfold FdrMaterialCreationRecord.inputs at hopen
  obtain ⟨_, _, hopen⟩ := bind_eq_ok.mp hopen
  obtain ⟨descriptor, hdescriptor, hopen⟩ := bind_eq_ok.mp hopen
  obtain ⟨rootSeed, hrootSeed, hopen⟩ := bind_eq_ok.mp hopen
  obtain ⟨tlsSeed, htlsSeed, hopen⟩ := bind_eq_ok.mp hopen
  obtain ⟨rootSerial, hrootSerial, hopen⟩ := bind_eq_ok.mp hopen
  obtain ⟨tlsSerial, htlsSerial, hopen⟩ := bind_eq_ok.mp hopen
  obtain rfl := pure_eq_ok.mp hopen
  rw [mapError_eq_ok] at hdescriptor
  have hparse := hdescriptor
  unfold FdrMaterialDescriptor.parse at hparse
  obtain ⟨_, _, hparse⟩ := bind_eq_ok.mp hparse
  obtain ⟨_, hvalidate, hparse⟩ := bind_eq_ok.mp hparse
  rw [pure_eq_ok.mp hparse] at hvalidate
  exact ⟨hinputs, hdescriptor, hvalidate, creationSeed_length hrootSeed,
    creationSeed_length htlsSeed, creationSerial_length hrootSerial,
    creationSerial_length htlsSerial, rootDomain, tlsDomain, rootSubject, tlsSubject, hrootDomain,
    htlsDomain, hrootSubject, htlsSubject, hmaterial⟩

/-! ### Loading an elected authority -/

/-- The whole authority is there. -/
structure Committed (json : Json) (issue : Issuer) (s : Directory)
    (record : FdrMaterialCreationRecord) (sel : ValidatedCreation) : Prop where
  elected : Elected json issue s record sel
  descriptor : (s .descriptor).isSome

lemma Committed.grow (h : Committed json issue s record sel) (hg : s.Grows s')
    (hi : Settled json issue s') : Committed json issue s' record sel :=
  ⟨h.elected.grow hg hi, isSome_grow h.descriptor hg⟩

lemma Committed.member (h : Committed json issue s record sel) (file : AuthorityFile)
    (hf : file ∈ seedsAndSerials) : s file = some (memberBytes json record sel.inputs file) :=
  h.elected.member (h.elected.order h.descriptor file hf)

lemma loadKeyPair_safe {name : String} {domain bytes : Bytes} (hs : s file = some bytes)
    (hi : Settled json issue s) (hlength : bytes.length = FDR_KEY_SEED_BYTES) :
    Safe (Settled json issue) (fun r _ => r = .ok ⟨bytes, domain⟩) (loadKeyPair file name domain) s := by
  refine (Safe.readFile hs).bind_value hi ?_
  intro s' _ _
  simp only [hlength, ne_eq, not_true_eq_false, if_false]
  rfl

lemma readPortableSerial_safe (hs : s file = some bytes)
    (hi : Settled json issue s) (hlength : ¬ (bytes = [] ∨ MAXIMUM_SERIAL_BYTES < bytes.length)) :
    Safe (Settled json issue) (fun r _ => r = .ok bytes) (readPortableSerial file) s := by
  refine (Safe.readFile hs).bind_value hi ?_
  intro s' _ _
  simp only [if_neg hlength]
  rfl

section

variable (h : Committed json issue s record sel)

include h

lemma loadDescriptor_safe :
    Safe (Settled json issue) (fun r _ => r = .ok sel.inputs.descriptor) (FdrMaterialDescriptor.load json) s := by
  have hfile := h.elected.member h.descriptor
  refine (Safe.readFile hfile).bind_value h.elected.settled ?_
  intro s' _ _
  exact (valid_of_validateCreation h.elected.valid).parsed

/-- The files of a committed authority give the trust object of its record. -/
lemma loadWithDescriptor_safe : Safe (Settled json issue) (fun r _ => r = .ok sel.material)
    (loadWithDescriptor issue sel.inputs.descriptor) s := by
  have hvalid := valid_of_validateCreation h.elected.valid
  obtain ⟨rootDomain, tlsDomain, rootSubject, tlsSubject, hrootDomain, htlsDomain, hrootSubject,
    htlsSubject, hissue⟩ := hvalid.issued
  unfold loadWithDescriptor
  rw [hvalid.validated, hrootDomain, htlsDomain, hrootSubject, htlsSubject]
  refine (loadKeyPair_safe (h.member .rootCaSeed (by decide)) h.elected.settled hvalid.rootSeed).bind_value
    h.elected.settled ?_
  intro s₁ hg₁ hi₁
  have h₁ := h.grow hg₁ hi₁
  refine (loadKeyPair_safe (h₁.member .tlsRootSeed (by decide)) hi₁ hvalid.tlsSeed).bind_value hi₁ ?_
  intro s₂ hg₂ hi₂
  have h₂ := h₁.grow hg₂ hi₂
  refine (readPortableSerial_safe (h₂.member .rootCaSerial (by decide)) hi₂ hvalid.rootSerial).bind_value hi₂ ?_
  intro s₃ hg₃ hi₃
  have h₃ := h₂.grow hg₃ hi₃
  refine (readPortableSerial_safe (h₃.member .tlsRootSerial (by decide)) hi₃ hvalid.tlsSerial).bind_value hi₃ ?_
  intro s₄ _ _
  exact mapError_eq_ok.mpr hissue

lemma loadFromDirectory_safe :
    Safe (Settled json issue) (fun r _ => r = .ok sel.material) (loadFromDirectory json issue) s := by
  refine (loadDescriptor_safe h).bind_value h.elected.settled ?_
  intro s' hg hi
  exact loadWithDescriptor_safe (h.grow hg hi)

end

/-- What the record gives a call that asks for the given window. -/
def ValidatedCreation.answer (sel : ValidatedCreation) (notBefore notAfter : ℤ) : Except FdrError Bytes :=
  (sel.inputs.descriptor.requireWindow notBefore notAfter).map fun _ => sel.material

/-- A committed authority answers; without a descriptor there is none. -/
lemma loadCommittedPortable_safe (hi : Settled json issue s) (notBefore notAfter : ℤ) :
    Safe (Settled json issue) (fun r s' => r = .ok none ∨ ∃ record sel,
        Elected json issue s' record sel ∧ r = (sel.answer notBefore notAfter).map some)
      (loadCommittedPortable json issue notBefore notAfter) s := by
  refine (Safe.fileExists _).bind_ok hi ?_
  intro present s₁ hg₁ hi₁ hsome
  cases present with
  | false => exact .inl rfl
  | true =>
    obtain ⟨record, sel, helected⟩ := hi₁.elected (hsome rfl)
    have hcommitted : Committed json issue s₁ record sel := ⟨helected, hsome rfl⟩
    refine (loadDescriptor_safe hcommitted).bind_value hi₁ ?_
    intro s₂ hg₂ hi₂
    have h₂ := hcommitted.grow hg₂ hi₂
    cases hwindow : sel.inputs.descriptor.requireWindow notBefore notAfter with
    | error e =>
      refine .inr ⟨record, sel, h₂.elected, ?_⟩
      rw [ValidatedCreation.answer, hwindow]
      rfl
    | ok u =>
      refine (loadWithDescriptor_safe h₂).bind_value hi₂ ?_
      intro s₃ hg₃ hi₃
      refine .inr ⟨record, sel, (h₂.grow hg₃ hi₃).elected, ?_⟩
      rw [ValidatedCreation.answer, hwindow]
      rfl

lemma loadRecord_read_safe (h : Elected json issue s record sel) :
    Safe (Settled json issue) (fun r _ => r = .ok (some record)) (load json) s := by
  have hvalid := valid_of_validateCreation h.valid
  refine (Safe.fileExists_of (by rw [h.file]; rfl)).bind_value h.settled ?_
  intro s₁ hg₁ hi₁
  refine (Safe.readFile (hg₁ _ _ h.file)).bind_value hi₁ ?_
  intro s₂ _ _
  simp only [json.record_roundTrip, hvalid.inputs]
  rfl

/-- The record of an elected directory, or none. -/
lemma loadRecord_safe (hi : Settled json issue s) :
    Safe (Settled json issue) (fun r s' => r = .ok none ∨ ∃ record sel,
        Elected json issue s' record sel ∧ r = .ok (some record)) (load json) s := by
  refine (Safe.fileExists _).bind_ok hi ?_
  intro present s₁ hg₁ hi₁ hsome
  cases present with
  | false => exact .inl rfl
  | true =>
    obtain ⟨record, sel, helected⟩ := hi₁.elected (hsome rfl)
    have hvalid := valid_of_validateCreation helected.valid
    refine (Safe.readFile helected.file).bind_value hi₁ ?_
    intro s₂ hg₂ hi₂
    simp only [json.record_roundTrip, hvalid.inputs]
    exact .inr ⟨record, sel, helected.grow hg₂ hi₂, rfl⟩

/-! ### Finishing an elected authority -/

section

variable (h : Elected json issue s record sel)

include h

lemma creationFileMatches_safe (file : AuthorityFile) :
    Safe (Settled json issue) (fun r s' => ∃ b, r = .ok b ∧ (b = true → (s' file).isSome))
      (creationFileMatches file (memberBytes json record sel.inputs file)) s := by
  refine (Safe.fileExists _).bind_ok h.settled ?_
  intro present s₁ hg₁ hi₁ hsome
  cases present with
  | false => exact ⟨false, rfl, by intro hb; cases hb⟩
  | true =>
    have hfile := (h.grow hg₁ hi₁).member (hsome rfl)
    refine (Safe.readFile hfile).bind_value hi₁ ?_
    intro s₂ hg₂ _
    simp only [ne_eq, not_true_eq_false, if_false]
    exact ⟨true, rfl, fun _ => isSome_grow (hsome rfl) hg₂⟩

lemma creationFileMatches_present (hf : (s file).isSome) : Safe (Settled json issue) (fun r _ => r = .ok true)
    (creationFileMatches file (memberBytes json record sel.inputs file)) s := by
  refine (Safe.fileExists_of hf).bind_value h.settled ?_
  intro s₁ hg₁ hi₁
  have hfile := (h.grow hg₁ hi₁).member (isSome_grow hf hg₁)
  refine (Safe.readFile hfile).bind_value hi₁ ?_
  intro s₂ _ _
  simp only [ne_eq, not_true_eq_false, if_false]
  rfl

/-- Whoever publishes a member, it is there afterwards. -/
lemma publishCreationFile_safe (hfile : file ∈ seedsAndSerials ∨ ∀ f ∈ seedsAndSerials, (s f).isSome) :
    Safe (Settled json issue) (fun r s' => r = .ok () ∧ (s' file).isSome)
      (publishCreationFile file (memberBytes json record sel.inputs file)) s := by
  refine (creationFileMatches_safe h file).bind_ok h.settled ?_
  intro already s₁ hg₁ hi₁ hsome
  have h₁ := h.grow hg₁ hi₁
  cases already with
  | true => exact ⟨rfl, hsome rfl⟩
  | false =>
    have hpublish : ∀ s', s₁.Grows s' → Settled json issue s' → Settled json issue
        (s'.publish file (memberBytes json record sel.inputs file)) := by
      intro s' hg hi
      refine ((h₁.grow hg hi).publish ?_).settled
      rcases hfile with hfile | hall
      · exact .inl hfile
      · exact .inr fun f hf => isSome_grow (isSome_grow (hall f hf) hg₁) hg
    refine (Safe.publishNew hpublish).bind_ok hi₁ ?_
    rintro _ s₂ hg₂ hi₂ ⟨_, hthere⟩
    refine (creationFileMatches_present (h₁.grow hg₂ hi₂) hthere).bind_value hi₂ ?_
    intro s₃ hg₃ _
    exact ⟨rfl, isSome_grow hthere hg₃⟩

/-- Checking the members fails on none of them. -/
lemma checkFiles_safe (files : List AuthorityFile) :
    Safe (Settled json issue) (fun r _ => r = .ok ()) (forFiles (fun file => do
      let _ ← creationFileMatches file (memberBytes json record sel.inputs file)) files) s := by
    induction files generalizing s with
  | nil => rfl
  | cons file files ih =>
    refine Safe.bind_value (a := ()) ?_ h.settled ?_
    · refine (creationFileMatches_safe h file).bind_ok h.settled ?_
      intro _ _ _ _ _
      rfl
    · intro s₁ hg₁ hi₁
      exact ih (h.grow hg₁ hi₁)

/-- Publishing the seeds and serial numbers, in any order. -/
lemma publishFiles_safe (files : List AuthorityFile)
    (hfiles : ∀ f ∈ files, f ∈ seedsAndSerials) {rest : List AuthorityFile}
    {post : Except FdrError Unit → Directory → Prop}
    (hrest : ∀ s', s.Grows s' → Settled json issue s' → (∀ f ∈ files, (s' f).isSome) →
      Safe (Settled json issue) post (forFiles (fun file =>
        publishCreationFile file (memberBytes json record sel.inputs file)) rest) s') :
    Safe (Settled json issue) post (forFiles (fun file =>
      publishCreationFile file (memberBytes json record sel.inputs file)) (files ++ rest)) s := by
  induction files generalizing s with
  | nil =>
    refine hrest s (.refl s) h.settled ?_
    intro f hf
    cases hf
  | cons file files ih =>
    refine (publishCreationFile_safe h (.inl (hfiles file (.head _)))).bind h.settled ?_ ?_
    · rintro _ s₁ hg₁ hi₁ ⟨_, hthere⟩
      refine ih (h.grow hg₁ hi₁) (fun f hf => hfiles f (.tail _ hf)) ?_
      intro s₂ hg₂ hi₂ hall
      refine hrest s₂ (hg₁.trans hg₂) hi₂ ?_
      intro f hf
      rcases List.mem_cons.mp hf with rfl | hf
      · exact isSome_grow hthere hg₂
      · exact hall f hf
    · rintro e s₁ _ _ ⟨he, _⟩
      cases he

lemma publishMembers_safe : Safe (Settled json issue) (fun r s' => r = .ok () ∧ (s' .descriptor).isSome)
    (forFiles (fun file => publishCreationFile file (memberBytes json record sel.inputs file)) memberFiles) s := by
  refine publishFiles_safe h seedsAndSerials (fun _ hf => hf) ?_
  intro s₁ hg₁ hi₁ hall
  refine (publishCreationFile_safe (h.grow hg₁ hi₁) (.inr hall)).bind hi₁ ?_ ?_
  · rintro _ s₂ _ _ ⟨_, hthere⟩
    exact ⟨rfl, hthere⟩
  · rintro e s₂ _ _ ⟨he, _⟩
    cases he

/-- A call that goes on with the record of the directory gets the answer of that record. -/
lemma resumeCreation_safe (notBefore notAfter : ℤ) :
    Safe (Settled json issue) (fun r _ => r = sel.answer notBefore notAfter)
      (resumeCreation json issue record notBefore notAfter) s := by
  unfold resumeCreation ValidatedCreation.answer
  rw [h.valid]
  cases hwindow : sel.inputs.descriptor.requireWindow notBefore notAfter with
  | error e =>
    change Safe _ _ (Prog.lift (sel.inputs.descriptor.requireWindow notBefore notAfter) >>= _) s
    rw [hwindow]
    rfl
  | ok u =>
    change Safe _ _ (Prog.lift (sel.inputs.descriptor.requireWindow notBefore notAfter) >>= _) s
    rw [hwindow]
    refine (checkFiles_safe h memberFiles).bind_value h.settled ?_
    intro s₁ hg₁ hi₁
    have h₁ := h.grow hg₁ hi₁
    refine (publishMembers_safe h₁).bind hi₁ ?_ ?_
    · rintro _ s₂ hg₂ hi₂ ⟨_, hthere⟩
      have h₂ : Committed json issue s₂ record sel := ⟨h₁.grow hg₂ hi₂, hthere⟩
      refine (loadFromDirectory_safe h₂).bind_value hi₂ ?_
      intro s₃ _ _
      simp only [ne_eq, not_true_eq_false, if_false]
      rfl
    · rintro e s₂ _ _ ⟨he, _⟩
      cases he

end

/-! ### Calls -/

/-- A call that succeeds returns the trust object of the directory's record. -/
def Agrees (json : Json) (issue : Issuer) (r : Except FdrError Bytes) (s : Directory) : Prop :=
  ∀ t, r = .ok t → ∃ record sel, Elected json issue s record sel ∧ t = sel.material

lemma agrees_stable : Stable (Settled json issue) (Agrees json issue) := by
  intro r s s' hg hi h t ht
  obtain ⟨record, sel, helected, hmaterial⟩ := h t ht
  exact ⟨record, sel, helected.grow hg hi, hmaterial⟩

lemma agrees_error (e : FdrError) (s : Directory) : Agrees json issue (.error e) s := by
  intro t ht
  cases ht

lemma agrees_answer (h : Elected json issue s record sel) (notBefore notAfter : ℤ) :
    Agrees json issue (sel.answer notBefore notAfter) s := by
  intro t ht
  refine ⟨record, sel, h, ?_⟩
  unfold ValidatedCreation.answer at ht
  cases hwindow : sel.inputs.descriptor.requireWindow notBefore notAfter with
  | error e =>
    rw [hwindow] at ht
    cases ht
  | ok u =>
    rw [hwindow] at ht
    exact (Except.ok.inj ht).symm

lemma resumeCreation_agrees (h : Elected json issue s record sel) (notBefore notAfter : ℤ) :
    Safe (Settled json issue) (Agrees json issue) (resumeCreation json issue record notBefore notAfter) s := by
  refine (resumeCreation_safe h notBefore notAfter).conseq h.settled ?_
  rintro _ s' hg hi rfl
  exact agrees_answer (h.grow hg hi) notBefore notAfter

/-- The committed authority, or else what follows. -/
lemma committed_agrees (hi : Settled json issue s) (notBefore notAfter : ℤ)
    (hnext : ∀ s', s.Grows s' → Settled json issue s' → Safe (Settled json issue) (Agrees json issue) next s') :
    Safe (Settled json issue) (Agrees json issue) (do
      match ← loadCommittedPortable json issue notBefore notAfter with
      | some committed => pure committed
      | none => next) s := by
  refine (loadCommittedPortable_safe hi notBefore notAfter).bind hi ?_ ?_
  · rintro answer s₁ hg₁ hi₁ (hnone | ⟨record, sel, helected, hanswer⟩)
    · cases hnone
      exact hnext s₁ hg₁ hi₁
    · have hagrees := agrees_answer helected notBefore notAfter
      cases hr : sel.answer notBefore notAfter with
      | error e =>
        rw [hr] at hanswer
        cases hanswer
      | ok material =>
        rw [hr] at hanswer hagrees
        cases hanswer
        exact hagrees
  · intro e s₁ _ _ _
    exact agrees_error e s₁

/-- The authority of the record, or else what follows. -/
lemma record_agrees (hi : Settled json issue s) (notBefore notAfter : ℤ)
    (hnext : ∀ s', s.Grows s' → Settled json issue s' → Safe (Settled json issue) (Agrees json issue) next s') :
    Safe (Settled json issue) (Agrees json issue) (do
      match ← load json with
      | some record => resumeCreation json issue record notBefore notAfter
      | none => next) s := by
  refine (loadRecord_safe hi).bind hi ?_ ?_
  · rintro answer s₁ hg₁ hi₁ (hnone | ⟨record, sel, helected, hanswer⟩)
    · cases hnone
      exact hnext s₁ hg₁ hi₁
    · cases hanswer
      exact resumeCreation_agrees helected notBefore notAfter
  · intro e s₁ _ _ _
    exact agrees_error e s₁

/-- A computation that does not look at the directory. -/
lemma lift_agrees {α : Type} {r : Except FdrError α} {next : α → FdrM Bytes}
    (hnext : ∀ a, r = .ok a → Safe (Settled json issue) (Agrees json issue) (next a) s) :
    Safe (Settled json issue) (Agrees json issue) (Prog.lift r >>= next) s := by
  cases r with
  | error e => exact agrees_error e s
  | ok a => exact hnext a rfl

lemma generatePortable_agrees (hi : Settled json issue s) (notBefore notAfter : ℤ)
    (drawn : Except String Drawn) : Safe (Settled json issue) (Agrees json issue)
      (generatePortable json issue notBefore notAfter drawn) s := by
  unfold generatePortable
  refine lift_agrees fun _ _ => lift_agrees fun entropy _ => lift_agrees fun candidate _ =>
    lift_agrees fun sel hvalid => committed_agrees hi notBefore notAfter ?_
  intro s₁ hg₁ hi₁
  have hinputs := (valid_of_validateCreation hvalid).inputs
  have hpublish : Safe (Settled json issue)
      (fun r s' => ∃ b, r = .ok b ∧ (b = true → s' .record = some (json.writeRecord candidate)) ∧
        (s' .record).isSome) (candidate.publishNew json) s₁ := by
    unfold publishNew
    rw [hinputs]
    exact Safe.publishNew fun s' _ hi' => hi'.publish_record hvalid
  refine hpublish.bind hi₁ ?_ ?_
  · rintro first s₂ hg₂ hi₂ ⟨_, hfirst, hcreated, hthere⟩
    cases hfirst
    obtain ⟨record, sel', helected⟩ := hi₂.elected hthere
    cases first with
    | true =>
      have hrecord : candidate = record :=
        writeRecord_inj (Option.some.inj ((hcreated rfl).symm.trans helected.file))
      subst hrecord
      change Safe _ _ (Prog.lift (validateCreation json issue candidate) >>= _) s₂
      exact lift_agrees fun _ _ => resumeCreation_agrees helected notBefore notAfter
    | false =>
      have hcompeting : Safe (Settled json issue) (fun r _ => r = .ok record)
          (generatePortable.competingRecord json) s₂ := by
        refine (loadRecord_read_safe helected).bind_value hi₂ ?_
        intro s₃ _ _
        rfl
      refine hcompeting.bind_value hi₂ ?_
      intro s₃ hg₃ hi₃
      exact lift_agrees fun _ _ =>
        resumeCreation_agrees (helected.grow hg₃ hi₃) notBefore notAfter
  · rintro e s₂ _ _ _
    exact agrees_error e s₂

lemma generateUnlessPresent_agrees (hi : Settled json issue s) (notBefore notAfter : ℤ)
    (drawn : Except String Drawn) (files : List AuthorityFile) : Safe (Settled json issue) (Agrees json issue)
      (generateUnlessPresent json issue notBefore notAfter drawn files) s := by
  induction files generalizing s with
  | nil => exact generatePortable_agrees hi notBefore notAfter drawn
  | cons file files ih =>
    refine (Safe.fileExists _).bind hi ?_ ?_
    · rintro present s₁ hg₁ hi₁ ⟨_, hpresent, _⟩
      cases hpresent
      cases present with
      | false => exact ih hi₁
      | true =>
        refine committed_agrees hi₁ notBefore notAfter fun s₂ _ hi₂ => ?_
        refine record_agrees hi₂ notBefore notAfter fun s₃ _ _ => ?_
        exact agrees_error _ s₃
    · intro e s₁ _ _ _
      exact agrees_error e s₁

lemma loadOrGeneratePortable_agrees (hi : Settled json issue s) (notBefore notAfter : ℤ)
    (drawn : Except String Drawn) : Safe (Settled json issue) (Agrees json issue)
      (loadOrGeneratePortable json issue notBefore notAfter drawn) s := by
  refine committed_agrees hi notBefore notAfter fun s₁ _ hi₁ => ?_
  refine record_agrees hi₁ notBefore notAfter fun s₂ _ hi₂ => ?_
  exact generateUnlessPresent_agrees hi₂ notBefore notAfter drawn seedsAndSerials

/-- In an elected directory every call gets the answer of the record. -/
lemma loadOrGeneratePortable_elected (h : Elected json issue s record sel)
    (notBefore notAfter : ℤ) (drawn : Except String Drawn) :
    Safe (Settled json issue) (fun r _ => r = sel.answer notBefore notAfter)
      (loadOrGeneratePortable json issue notBefore notAfter drawn) s := by
  refine (loadCommittedPortable_safe h.settled notBefore notAfter).bind h.settled ?_ ?_
  · rintro answer s₁ hg₁ hi₁ (hnone | ⟨record', sel', helected, hanswer⟩)
    · cases hnone
      have h₁ := h.grow hg₁ hi₁
      refine (loadRecord_read_safe h₁).bind_value hi₁ ?_
      intro s₂ hg₂ hi₂
      exact resumeCreation_safe (h₁.grow hg₂ hi₂) notBefore notAfter
    · obtain ⟨rfl, rfl⟩ := (h.grow hg₁ hi₁).unique helected
      cases hr : sel.answer notBefore notAfter with
      | error e =>
        rw [hr] at hanswer
        cases hanswer
      | ok material =>
        rw [hr] at hanswer
        cases hanswer
        rfl
  · rintro e s₁ hg₁ hi₁ (hnone | ⟨record', sel', helected, hanswer⟩)
    · cases hnone
    · obtain ⟨rfl, rfl⟩ := (h.grow hg₁ hi₁).unique helected
      cases hr : sel.answer notBefore notAfter with
      | error e' =>
        rw [hr] at hanswer
        cases hanswer
        rfl
      | ok material =>
        rw [hr] at hanswer
        cases hanswer

end

/-! ### Any number of calls -/

/-- The calls of `load_or_generate_portable`, with any window and whatever they draw. -/
def IsCall (json : Json) (issue : Issuer) (p : FdrM Bytes) : Prop :=
  ∃ notBefore notAfter drawn, p = loadOrGeneratePortable json issue notBefore notAfter drawn

/-- A directory without authority files, and no call yet. -/
def noAuthority : System AuthorityFile Bytes FdrError Bytes := ⟨fun _ => none, []⟩

variable {json : Json} {issue : Issuer} {σ : System AuthorityFile Bytes FdrError Bytes}

lemma isCall_agrees (p : FdrM Bytes) (hp : IsCall json issue p) (s : Directory)
    (hi : Settled json issue s) : Safe (Settled json issue) (Agrees json issue) p s := by
  obtain ⟨notBefore, notAfter, drawn, rfl⟩ := hp
  exact loadOrGeneratePortable_agrees hi notBefore notAfter drawn

/-- The invariant of every interleaving. -/
lemma calls_sound (h : System.Steps (IsCall json issue) noAuthority σ) :
    Sound (Settled json issue) (fun _ => Agrees json issue) 0 σ := by
  refine (Sound.steps ⟨.inl fun _ => rfl, Nat.zero_le _, ?_⟩ (fun _ => agrees_stable)
    (fun p hp _ _ s hi => isCall_agrees p hp s hi) h).1
  intro i p hp
  cases hp

/-- A call that starts in an elected directory, among any others. -/
lemma later_sound {record : FdrMaterialCreationRecord} {sel : ValidatedCreation}
    (hsound : Sound (Settled json issue) (fun _ => Agrees json issue) 0 σ)
    (helected : Elected json issue σ.store record sel) {notBefore notAfter : ℤ}
    {drawn : Except String Drawn} {σ' : System AuthorityFile Bytes FdrError Bytes}
    (h : System.Steps (IsCall json issue)
      ⟨σ.store, σ.calls ++ [loadOrGeneratePortable json issue notBefore notAfter drawn]⟩ σ')
    {r : Except FdrError Bytes} (hr : σ'.calls[σ.calls.length]? = some (.done r)) :
    r = sel.answer notBefore notAfter := by
  let post (i : ℕ) (r : Except FdrError Bytes) (s : Directory) : Prop :=
    if i = σ.calls.length then r = sel.answer notBefore notAfter else Agrees json issue r s
  have hstable (i : ℕ) : Stable (Settled json issue) (post i) := by
    intro r s s' hg hi hpost
    by_cases hn : i = σ.calls.length
    · simpa only [post, if_pos hn] using hpost
    · simp only [post, if_neg hn] at hpost ⊢
      exact agrees_stable r s s' hg hi hpost
  have hstart : Sound (Settled json issue) post (σ.calls.length + 1)
      ⟨σ.store, σ.calls ++ [loadOrGeneratePortable json issue notBefore notAfter drawn]⟩ := by
    refine ⟨helected.settled, ?_, ?_⟩
    · simp
    · intro i p hp
      rw [List.getElem?_append] at hp
      split at hp
      · rename_i hlt
        have hsafe := hsound.safe i p hp
        have hpost : post i = Agrees json issue := by
          funext r s
          simp only [post, if_neg (ne_of_lt hlt)]
        rw [hpost]
        exact hsafe
      · rename_i hge
        have hi : i = σ.calls.length := by
          have := (List.getElem?_eq_some_iff.mp hp).1
          simp only [List.length_singleton] at this
          omega
        subst hi
        rw [Nat.sub_self] at hp
        cases hp
        have hpost : post σ.calls.length = fun r _ => r = sel.answer notBefore notAfter := by
          funext r s
          simp only [post, if_pos]
        rw [hpost]
        exact loadOrGeneratePortable_elected helected notBefore notAfter drawn
  have hend := (hstart.steps hstable (fun p hp i hi s hs => by
    have hpost : post i = Agrees json issue := by
      funext r s
      simp only [post, if_neg (show i ≠ σ.calls.length by omega)]
    rw [hpost]
    exact isCall_agrees p hp s hs) h).1.safe _ _ hr
  simpa only [Safe, post, if_pos] using hend

/-- Whatever calls race through a directory without authority files, in any interleaving and
stopped anywhere: those that succeed agree, every file holds what the one record determines, the
descriptor comes after the seeds and serial numbers, and a later call with the recorded window
succeeds with the same trust object. -/
theorem authority_elected (h : System.Steps (IsCall json issue) noAuthority σ) :
    (∀ (i j : ℕ) (t t' : Bytes), σ.calls[i]? = some (.done (.ok t)) → σ.calls[j]? = some (.done (.ok t')) → t = t') ∧
    (∀ file bytes, σ.store file = some bytes → ∃ record inputs,
      σ.store .record = some (json.writeRecord record) ∧ record.inputs json = .ok inputs ∧
        bytes = memberBytes json record inputs file) ∧
    ((σ.store .descriptor).isSome → ∀ file ∈ seedsAndSerials, (σ.store file).isSome) ∧
    ∀ record inputs notBefore notAfter drawn,
      σ.store .record = some (json.writeRecord record) → record.inputs json = .ok inputs →
      inputs.descriptor.requireWindow notBefore notAfter = .ok () →
      ∃ t, ((loadOrGeneratePortable json issue notBefore notAfter drawn).run σ.store).1 = .ok t ∧
        (∀ (i : ℕ) (t' : Bytes), σ.calls[i]? = some (.done (.ok t')) → t' = t) ∧
        ∀ σ', System.Steps (IsCall json issue)
            ⟨σ.store, σ.calls ++ [loadOrGeneratePortable json issue notBefore notAfter drawn]⟩ σ' →
          ∀ r, σ'.calls[σ.calls.length]? = some (.done r) → r = .ok t := by
  have hsound := calls_sound h
  have hagrees (i : ℕ) (t : Bytes) (hi : σ.calls[i]? = some (.done (.ok t))) :
      ∃ record sel, Elected json issue σ.store record sel ∧ t = sel.material :=
    hsound.safe i _ hi t rfl
  refine ⟨?_, ?_, ?_, ?_⟩
  · intro i j t t' hi hj
    obtain ⟨record, sel, helected, rfl⟩ := hagrees i t hi
    obtain ⟨record', sel', helected', rfl⟩ := hagrees j t' hj
    rw [(helected.unique helected').2]
  · intro file bytes hbytes
    obtain ⟨record, sel, helected⟩ := hsound.holds.elected (by rw [hbytes]; rfl)
    exact ⟨record, sel.inputs, helected.file, (valid_of_validateCreation helected.valid).inputs,
      helected.members file bytes hbytes⟩
  · intro hdescriptor
    obtain ⟨record, sel, helected⟩ := hsound.holds.elected hdescriptor
    exact helected.order hdescriptor
  · intro record inputs notBefore notAfter drawn hrecord hinputs hwindow
    obtain ⟨record', sel, helected⟩ :=
      hsound.holds.elected (by rw [hrecord]; rfl)
    have hsame := writeRecord_inj (Option.some.inj (hrecord.symm.trans helected.file))
    subst hsame
    have hsel := Except.ok.inj
      (hinputs.symm.trans (valid_of_validateCreation helected.valid).inputs)
    have hanswer : sel.answer notBefore notAfter = .ok sel.material := by
      rw [ValidatedCreation.answer, ← hsel, hwindow]
      rfl
    refine ⟨sel.material, ?_, ?_, ?_⟩
    · have hrun := (loadOrGeneratePortable_elected helected notBefore notAfter drawn).run
        helected.settled
      exact hrun.2.trans hanswer
    · intro i t' hi
      obtain ⟨record', sel', helected', rfl⟩ := hagrees i t' hi
      rw [(helected.unique helected').2]
    · intro σ' hsteps r hr
      exact (later_sound hsound helected hsteps hr).trans hanswer

/-! ### One call on its own -/

def writeFields (r : FdrMaterialCreationRecord) : Bytes :=
  Fields.joinFields [List.replicate r.creationVersion 0, r.descriptorJson, r.rootCaSeedHex,
    r.tlsRootSeedHex, r.rootCaSerialHex, r.tlsRootSerialHex]

def readFields (bytes : Bytes) : Except String FdrMaterialCreationRecord :=
  match Fields.splitFields bytes with
  | [version, descriptorJson, rootCaSeedHex, tlsRootSeedHex, rootCaSerialHex, tlsRootSerialHex] =>
    .ok ⟨version.length, descriptorJson, rootCaSeedHex, tlsRootSeedHex, rootCaSerialHex, tlsRootSerialHex⟩
  | _ => .error "malformed"

/-- Records as fields; every descriptor text stands for the one with the window from 0 to 9. -/
def fieldJson : Json where
  writeRecord := writeFields
  readRecord := readFields
  writeDescriptor _ := [0x7b, 0x7d]
  readDescriptor _ := .ok (sdkMaterialDescriptor 0 9)
  record_roundTrip := by
    intro r
    have hsplit := Fields.splitFields_joinFields (by decide) [List.replicate r.creationVersion (0 : Byte),
      r.descriptorJson, r.rootCaSeedHex, r.tlsRootSeedHex, r.rootCaSerialHex, r.tlsRootSerialHex] []
    rw [List.append_nil] at hsplit
    simp only [writeFields, readFields, hsplit, Fields.splitFields, List.append_nil, List.length_replicate]

/-- Two seeds and a serial as the trust object. -/
def concatIssuer : Issuer := fun root tls rootIdentity _ =>
  .ok (root.seed ++ tls.seed ++ rootIdentity.serial)

def sampleDraw : Drawn := ⟨List.replicate 32 1, List.replicate 32 2, [3], [4]⟩

def otherDraw : Drawn := ⟨List.replicate 32 5, List.replicate 32 6, [7], [8]⟩

def sampleCall (drawn : Drawn) : FdrM Bytes := loadOrGeneratePortable fieldJson concatIssuer 0 9 (.ok drawn)

/-- The directory after the call that was started second. -/
def otherFirst : Store AuthorityFile Bytes := ((sampleCall otherDraw).run fun _ => none).2

/-- The directory after both calls, and their results. -/
def sampleSystem : System AuthorityFile Bytes FdrError Bytes :=
  ⟨((sampleCall sampleDraw).run otherFirst).2,
    [.done ((sampleCall sampleDraw).run otherFirst).1, .done ((sampleCall otherDraw).run fun _ => none).1]⟩

/-- The call that comes to its end later returns what the other one has drawn. -/
theorem authority_elected_sample :
    ((sampleCall otherDraw).run fun _ => none).1 = .ok (List.replicate 32 5 ++ List.replicate 32 6 ++ [7]) ∧
    System.Steps (IsCall fieldJson concatIssuer) noAuthority sampleSystem ∧
    (∀ t, ((sampleCall sampleDraw).run otherFirst).1 = .ok t →
      t = List.replicate 32 5 ++ List.replicate 32 6 ++ [7]) ∧
    ((sampleSystem.store .descriptor).isSome → ∀ file ∈ seedsAndSerials, (sampleSystem.store file).isSome) := by
  have hother : ((sampleCall otherDraw).run fun _ => none).1 =
      .ok (List.replicate 32 5 ++ List.replicate 32 6 ++ [7]) := by decide
  have hsteps : System.Steps (IsCall fieldJson concatIssuer) noAuthority sampleSystem := by
    refine .head (.start (sampleCall sampleDraw) ⟨0, 9, _, rfl⟩) (.head (.start (sampleCall otherDraw) ⟨0, 9, _, rfl⟩) ?_)
    exact (System.steps_run (sampleCall otherDraw) _ [sampleCall sampleDraw] []).trans
      (System.steps_run (sampleCall sampleDraw) _ [] _)
  obtain ⟨hsame, -, hfiles, -⟩ := authority_elected hsteps
  refine ⟨hother, hsteps, fun t ht => hsame 0 1 t _ ?_ ?_, hfiles⟩
  · exact congrArg (fun r => some (Prog.done r)) ht
  · exact congrArg (fun r => some (Prog.done r)) hother

end AppleUtils.Ramrod
