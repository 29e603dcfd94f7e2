import AppleUtils.Lib.Bytes
import AppleUtils.Lib.Checks
import AppleUtils.Lib.Racing

/-! # The portable FDR authority (`ramrod/fdr_object.rs`, `ramrod/fdr_material_format.rs`)

An authority is six files of one directory: a creation record, two seeds, two serial numbers and a
descriptor.  `loadOrGeneratePortable` returns the authority that is there, finishes one whose record
is there, or draws a new one, publishes its record and then the five member files the record
determines.  Nothing is overwritten: files appear whole, by `persist_noclobber`.

The functions are programs over the store of the six files, one access at a time; a temporary file
is seen by nobody and is left out, and so are failures of the file system other than a missing file:
a call that gives up on one is, for the others, a call that stopped.  JSON (`serde_json`) and the
issuing of certificates are parameters (`Json`, `Issuer`); a trust material is its trust object. -/

namespace AppleUtils.Ramrod

open Racing Checks

/-! ### Errors -/

inductive FdrError where
  /-- `FdrMaterialFormatError::Read`. -/
  | read (path : String)
  /-- `FdrMaterialFormatError::Refused` and `FdrObjectError::PortableRefusal`. -/
  | refused (name detail : String) | unrecordedMaterial (path : String)
  /-- What issuing or the entropy source reported. -/
  | pki (error : String)
deriving DecidableEq, Repr

def refused (name detail : String) : FdrError := .refused name detail

/-- The text of a missing file. -/
def notFound : String := "No such file or directory (os error 2)"

/-! ### Files -/

inductive AuthorityFile where
  | record | rootCaSeed | tlsRootSeed | rootCaSerial | tlsRootSerial | descriptor
deriving DecidableEq, Repr

def AuthorityFile.fileName : AuthorityFile → String
  | .record => "fdr-material.creation.json"
  | .rootCaSeed => "root-ca.seed"
  | .tlsRootSeed => "tls-root.seed"
  | .rootCaSerial => "root-ca.serial"
  | .tlsRootSerial => "tls-root.serial"
  | .descriptor => "fdr-material.json"

abbrev Directory := Store AuthorityFile Bytes

abbrev FdrM (α : Type) := Prog AuthorityFile Bytes FdrError α

/-! ### The descriptor -/

inductive NameAttribute where
  | commonName | organizationName | stateOrProvinceName
deriving DecidableEq, Repr

/-- Texts are their UTF-8 bytes. -/
abbrev Text := Bytes

structure FdrAuthorityDescriptor where
  keyDerivationDomainHex : Text
  subject : List (NameAttribute × Text)
  (notBefore notAfter : ℤ)
deriving DecidableEq, Repr

structure FdrMaterialDescriptor where
  formatVersion : ℕ
  (rootCa tlsRoot : FdrAuthorityDescriptor)
deriving DecidableEq, Repr

/-- The value of an ASCII hexadecimal digit. -/
def hexDigit (b : Byte) : Option ℕ :=
  let n := b.toNat
  if 0x30 ≤ n ∧ n ≤ 0x39 then some (n - 0x30)
  else if 0x61 ≤ n ∧ n ≤ 0x66 then some (n - 0x61 + 10)
  else if 0x41 ≤ n ∧ n ≤ 0x46 then some (n - 0x41 + 10)
  else none

/-- The bytes of a nonempty text of pairs of hexadecimal digits. -/
def exactHex : Text → Option Bytes
  | [] => some []
  | [_] => none
  | a :: b :: rest => do
    let high ← hexDigit a
    let low ← hexDigit b
    let bytes ← exactHex rest
    pure (BitVec.ofNat 8 (high * 16 + low) :: bytes)

def nonemptyHex (text : Text) (e : FdrError) : Except FdrError Bytes :=
  match text, exactHex text with
  | [], _ => .error e
  | _, none => .error e
  | _, some bytes => .ok bytes

/-- `{byte:02x}` of every byte. -/
def creationHex (bytes : Bytes) : Text :=
  bytes.flatMap fun b => [digit (b.toNat / 16), digit (b.toNat % 16)]
where
  digit (n : ℕ) : Byte := BitVec.ofNat 8 (if n < 10 then 0x30 + n else 0x61 + (n - 10))

namespace FdrAuthorityDescriptor

def keyDerivationDomain (d : FdrAuthorityDescriptor) (authority : String) : Except FdrError Bytes :=
  nonemptyHex d.keyDerivationDomainHex (refused "domain-invalid"
    s!"{authority}.keyDerivationDomainHex must be nonempty exact-byte hex")

def subjectName (d : FdrAuthorityDescriptor) (authority : String) :
    Except FdrError (List (NameAttribute × Text)) := do
  failIf (d.subject = []) (refused "name-invalid"
    s!"{authority}.subject must carry ordered name attributes")
  pure d.subject

def validate (d : FdrAuthorityDescriptor) (authority : String) : Except FdrError Unit := do
  let _ ← d.keyDerivationDomain authority
  let _ ← d.subjectName authority
  failIf (d.notAfter < d.notBefore) (refused "window-invalid"
    s!"{authority}: notAfter={d.notAfter} precedes notBefore={d.notBefore}")

end FdrAuthorityDescriptor

def FDR_MATERIAL_FORMAT_VERSION : ℕ := 1

namespace FdrMaterialDescriptor

def validate (d : FdrMaterialDescriptor) : Except FdrError Unit := do
  failIf (d.formatVersion ≠ FDR_MATERIAL_FORMAT_VERSION) (refused "metadata-version"
    s!"formatVersion={d.formatVersion} is unsupported; expected {FDR_MATERIAL_FORMAT_VERSION}")
  d.rootCa.validate "rootCa"
  d.tlsRoot.validate "tlsRoot"

def requireWindowOf (name : String) (d : FdrAuthorityDescriptor) (notBefore notAfter : ℤ) : Except FdrError Unit :=
  failIf (d.notBefore ≠ notBefore ∨ d.notAfter ≠ notAfter) (refused "window-mismatch"
    s!"{name}: recorded=[{d.notBefore},{d.notAfter}] requested=[{notBefore},{notAfter}]")

def requireWindow (d : FdrMaterialDescriptor) (notBefore notAfter : ℤ) : Except FdrError Unit := do
  requireWindowOf "rootCa" d.rootCa notBefore notAfter
  requireWindowOf "tlsRoot" d.tlsRoot notBefore notAfter

end FdrMaterialDescriptor

/-! ### The creation record -/

structure FdrMaterialCreationRecord where
  creationVersion : ℕ
  (descriptorJson rootCaSeedHex tlsRootSeedHex rootCaSerialHex tlsRootSerialHex : Text)
deriving DecidableEq, Repr

structure FdrMaterialCreationInputs where
  descriptor : FdrMaterialDescriptor
  (rootCaSeed tlsRootSeed rootCaSerial tlsRootSerial : Bytes)
deriving DecidableEq, Repr

/-- `serde_json` on the two kinds of document: a record that was written is read back. -/
structure Json where
  writeRecord : FdrMaterialCreationRecord → Bytes
  readRecord : Bytes → Except String FdrMaterialCreationRecord
  writeDescriptor : FdrMaterialDescriptor → Text
  readDescriptor : Bytes → Except String FdrMaterialDescriptor
  record_roundTrip : ∀ r, readRecord (writeRecord r) = .ok r

/-- A key pair is derived from its seed and its domain. -/
structure FdrKeyPair where
  (seed domain : Bytes)
deriving DecidableEq, Repr

structure CertificateIdentity where
  subject : List (NameAttribute × Text)
  serial : Bytes
  (notBefore notAfter : ℤ)
deriving DecidableEq, Repr

/-- `FdrTrustMaterial::issue`: the trust object of two keys and two identities. -/
abbrev Issuer := FdrKeyPair → FdrKeyPair → CertificateIdentity → CertificateIdentity →
  Except String Bytes

def FDR_KEY_SEED_BYTES : ℕ := 32

def MAXIMUM_SERIAL_BYTES : ℕ := 20

section

variable (json : Json) (issue : Issuer)

def FdrMaterialDescriptor.parse (bytes : Bytes) : Except FdrError FdrMaterialDescriptor := do
  let descriptor ← (json.readDescriptor bytes).mapError (refused "metadata-invalid")
  descriptor.validate
  pure descriptor

def creationBytes (text : Text) (field : String) : Except FdrError Bytes :=
  nonemptyHex text (refused "creation-invalid" s!"{field} must contain nonempty exact-byte hex")

def creationSeed (text : Text) (field : String) : Except FdrError Bytes := do
  let bytes ← creationBytes text field
  failIf (bytes.length ≠ FDR_KEY_SEED_BYTES) (refused "creation-invalid"
    s!"{field} must encode {FDR_KEY_SEED_BYTES} bytes")
  pure bytes

def creationSerial (text : Text) (field : String) : Except FdrError Bytes := do
  let bytes ← creationBytes text field
  failIf (MAXIMUM_SERIAL_BYTES < bytes.length ∨ bytes.all (· == 0)) (refused "creation-invalid"
    s!"{field} must encode a positive serial of at most {MAXIMUM_SERIAL_BYTES} bytes")
  pure bytes

namespace FdrMaterialCreationRecord

def inputs (r : FdrMaterialCreationRecord) : Except FdrError FdrMaterialCreationInputs := do
  failIf (r.creationVersion ≠ 1) (refused "creation-invalid" "creationVersion must be 1")
  let descriptor ← (FdrMaterialDescriptor.parse json r.descriptorJson).mapError fun _ =>
    refused "creation-invalid" "descriptorJson must contain a valid complete v1 authority descriptor"
  let rootCaSeed ← creationSeed r.rootCaSeedHex "rootCaSeedHex"
  let tlsRootSeed ← creationSeed r.tlsRootSeedHex "tlsRootSeedHex"
  let rootCaSerial ← creationSerial r.rootCaSerialHex "rootCaSerialHex"
  let tlsRootSerial ← creationSerial r.tlsRootSerialHex "tlsRootSerialHex"
  pure ⟨descriptor, rootCaSeed, tlsRootSeed, rootCaSerial, tlsRootSerial⟩

def new (descriptor : FdrMaterialDescriptor)
    (rootCaSeed tlsRootSeed rootCaSerial tlsRootSerial : Bytes) :
    Except FdrError FdrMaterialCreationRecord := do
  let record : FdrMaterialCreationRecord :=
    { creationVersion := 1
      descriptorJson := json.writeDescriptor descriptor
      rootCaSeedHex := creationHex rootCaSeed
      tlsRootSeedHex := creationHex tlsRootSeed
      rootCaSerialHex := creationHex rootCaSerial
      tlsRootSerialHex := creationHex tlsRootSerial }
  let _ ← record.inputs json
  pure record

def load : FdrM (Option FdrMaterialCreationRecord) := do
  let present ← Prog.fileExists .record
  if present then
    match ← Prog.readFile .record with
    | none => Prog.throw (refused "creation-unreadable" notFound)
    | some bytes =>
      match json.readRecord bytes with
      | .error e => Prog.throw (refused "creation-invalid" e)
      | .ok record => do
        let _ ← Prog.lift (record.inputs json)
        pure (some record)
  else pure none

/-- Whether this call's record is the one published. -/
def publishNew (record : FdrMaterialCreationRecord) : FdrM Bool := do
  let _ ← Prog.lift (record.inputs json)
  Prog.publishNew .record (json.writeRecord record)

end FdrMaterialCreationRecord

/-! ### Loading -/

/-- `FdrKeyPair::load`. -/
def loadKeyPair (file : AuthorityFile) (name : String) (domain : Bytes) : FdrM FdrKeyPair := do
  match ← Prog.readFile file with
  | none => Prog.throw (refused name s!"seed file {file.fileName}: {notFound}")
  | some bytes =>
    if bytes.length ≠ FDR_KEY_SEED_BYTES then
      Prog.throw (refused name
        s!"seed file {file.fileName} holds {bytes.length} bytes, not {FDR_KEY_SEED_BYTES}")
    else pure ⟨bytes, domain⟩

def readPortableSerial (file : AuthorityFile) : FdrM Bytes := do
  match ← Prog.readFile file with
  | none => Prog.throw (refused "serial-unreadable" s!"{file.fileName}: {notFound}")
  | some serial =>
    if serial = [] ∨ MAXIMUM_SERIAL_BYTES < serial.length then
      Prog.throw (refused "serial-invalid" s!"{file.fileName} holds {serial.length} bytes")
    else pure serial

def FdrMaterialDescriptor.load : FdrM FdrMaterialDescriptor := do
  match ← Prog.readFile .descriptor with
  | none => Prog.throw (.read s!"{AuthorityFile.fileName .descriptor}: {notFound}")
  | some bytes => Prog.lift (FdrMaterialDescriptor.parse json bytes)

def identity (d : FdrAuthorityDescriptor) (subject : List (NameAttribute × Text)) (serial : Bytes) :
    CertificateIdentity := ⟨subject, serial, d.notBefore, d.notAfter⟩

def loadWithDescriptor (d : FdrMaterialDescriptor) : FdrM Bytes := do
  let _ ← Prog.lift d.validate
  let rootDomain ← Prog.lift (d.rootCa.keyDerivationDomain "rootCa")
  let tlsDomain ← Prog.lift (d.tlsRoot.keyDerivationDomain "tlsRoot")
  let rootKey ← loadKeyPair .rootCaSeed "root-key-unreadable" rootDomain
  let tlsKey ← loadKeyPair .tlsRootSeed "tls-key-unreadable" tlsDomain
  let rootSubject ← Prog.lift (d.rootCa.subjectName "rootCa")
  let rootSerial ← readPortableSerial .rootCaSerial
  let tlsSubject ← Prog.lift (d.tlsRoot.subjectName "tlsRoot")
  let tlsSerial ← readPortableSerial .tlsRootSerial
  Prog.lift ((issue rootKey tlsKey (identity d.rootCa rootSubject rootSerial)
    (identity d.tlsRoot tlsSubject tlsSerial)).mapError (refused "identity-invalid"))

def loadFromDirectory : FdrM Bytes := do
  let d ← FdrMaterialDescriptor.load json
  loadWithDescriptor issue d

def loadCommittedPortable (notBefore notAfter : ℤ) : FdrM (Option Bytes) := do
  let present ← Prog.fileExists .descriptor
  if present then do
    let d ← FdrMaterialDescriptor.load json
    let _ ← Prog.lift (d.requireWindow notBefore notAfter)
    let material ← loadWithDescriptor issue d
    pure (some material)
  else pure none

/-! ### Creation -/

structure ValidatedCreation where
  inputs : FdrMaterialCreationInputs
  material : Bytes

def validateCreation (record : FdrMaterialCreationRecord) : Except FdrError ValidatedCreation := do
  let inputs ← record.inputs json
  let rootDomain ← inputs.descriptor.rootCa.keyDerivationDomain "rootCa"
  let tlsDomain ← inputs.descriptor.tlsRoot.keyDerivationDomain "tlsRoot"
  let rootSubject ← inputs.descriptor.rootCa.subjectName "rootCa"
  let tlsSubject ← inputs.descriptor.tlsRoot.subjectName "tlsRoot"
  let material ← (issue ⟨inputs.rootCaSeed, rootDomain⟩ ⟨inputs.tlsRootSeed, tlsDomain⟩
    (identity inputs.descriptor.rootCa rootSubject inputs.rootCaSerial)
    (identity inputs.descriptor.tlsRoot tlsSubject inputs.tlsRootSerial)).mapError fun _ =>
      refused "creation-invalid" "recorded authority identity cannot be issued"
  pure ⟨inputs, material⟩

/-- The bytes a record determines for each member file. -/
def memberBytes (record : FdrMaterialCreationRecord) (inputs : FdrMaterialCreationInputs) :
    AuthorityFile → Bytes
  | .record => json.writeRecord record
  | .rootCaSeed => inputs.rootCaSeed
  | .tlsRootSeed => inputs.tlsRootSeed
  | .rootCaSerial => inputs.rootCaSerial
  | .tlsRootSerial => inputs.tlsRootSerial
  | .descriptor => record.descriptorJson

def seedsAndSerials : List AuthorityFile := [.rootCaSeed, .tlsRootSeed, .rootCaSerial, .tlsRootSerial]

/-- The member files in the order they are published. -/
def memberFiles : List AuthorityFile := seedsAndSerials ++ [.descriptor]

def creationFileMatches (file : AuthorityFile) (expected : Bytes) : FdrM Bool := do
  let present ← Prog.fileExists file
  if present then
    match ← Prog.readFile file with
    | none => Prog.throw (refused "creation-unreadable" s!"{file.fileName}: {notFound}")
    | some actual =>
      if actual ≠ expected then
        Prog.throw (refused "creation-conflict"
          s!"{file.fileName} differs from the selected creation record")
      else pure true
  else pure false

def publishCreationFile (file : AuthorityFile) (bytes : Bytes) : FdrM Unit := do
  let already ← creationFileMatches file bytes
  if already then pure ()
  else do
    let _ ← Prog.publishNew file bytes
    let published ← creationFileMatches file bytes
    if published then pure ()
    else Prog.throw (refused "creation-unreadable"
      s!"{file.fileName} could not be read after publication")

/-- An operation on each of the files in turn. -/
def forFiles (op : AuthorityFile → FdrM Unit) : List AuthorityFile → FdrM Unit
  | [] => pure ()
  | file :: files => do
    op file
    forFiles op files

def resumeCreation (record : FdrMaterialCreationRecord) (notBefore notAfter : ℤ) : FdrM Bytes := do
  let selected ← Prog.lift (validateCreation json issue record)
  let _ ← Prog.lift (selected.inputs.descriptor.requireWindow notBefore notAfter)
  let bytes := memberBytes json record selected.inputs
  forFiles (fun file => do
    let _ ← creationFileMatches file (bytes file)) memberFiles
  forFiles (fun file => publishCreationFile file (bytes file)) memberFiles
  let loaded ← loadFromDirectory json issue
  if loaded ≠ selected.material then
    Prog.throw (refused "creation-conflict"
      "published authority does not reproduce the selected trust object")
  else pure loaded

/-- What a call draws from the entropy source. -/
structure Drawn where
  (rootCaSeed tlsRootSeed rootCaSerial tlsRootSerial : Bytes)
deriving DecidableEq, Repr

/-- The bytes of an ASCII text. -/
def ascii (text : String) : Bytes := text.toList.map fun c => BitVec.ofNat 8 c.toNat

def FDR_ROOT_CA_KEY_DOMAIN : Bytes := ascii "AppleUtils FDR sealing root CA"

def FDR_TLS_ROOT_KEY_DOMAIN : Bytes := ascii "AppleUtils FDR sealing TLS root"

def authorityDescriptor (domain : Bytes) (subject : List (NameAttribute × Text))
    (notBefore notAfter : ℤ) : FdrAuthorityDescriptor :=
  ⟨creationHex domain, subject, notBefore, notAfter⟩

def sdkMaterialDescriptor (notBefore notAfter : ℤ) : FdrMaterialDescriptor where
  formatVersion := FDR_MATERIAL_FORMAT_VERSION
  rootCa := authorityDescriptor FDR_ROOT_CA_KEY_DOMAIN
    [(.commonName, ascii "AppleUtils FDR Sealing Root CA"), (.organizationName, ascii "AppleUtils")]
    notBefore notAfter
  tlsRoot := authorityDescriptor FDR_TLS_ROOT_KEY_DOMAIN
    [(.commonName, ascii "AppleUtils FDR Sealing TLS Root CA"), (.organizationName, ascii "AppleUtils")]
    notBefore notAfter

/-- A new authority, or the one of whoever published a record first. -/
def generatePortable (notBefore notAfter : ℤ) (drawn : Except String Drawn) : FdrM Bytes := do
  let descriptor := sdkMaterialDescriptor notBefore notAfter
  let _ ← Prog.lift descriptor.validate
  let entropy ← Prog.lift (drawn.mapError FdrError.pki)
  let candidate ← Prog.lift (FdrMaterialCreationRecord.new json descriptor entropy.rootCaSeed
    entropy.tlsRootSeed entropy.rootCaSerial entropy.tlsRootSerial)
  let _ ← Prog.lift (validateCreation json issue candidate)
  match ← loadCommittedPortable json issue notBefore notAfter with
  | some committed => pure committed
  | none => do
    let first ← candidate.publishNew json
    let record ← if first then pure candidate else competingRecord
    let _ ← Prog.lift (validateCreation json issue record)
    resumeCreation json issue record notBefore notAfter
where
  competingRecord : FdrM FdrMaterialCreationRecord := do
    match ← FdrMaterialCreationRecord.load json with
    | some record => pure record
    | none => Prog.throw (refused "creation-unreadable"
        "the competing creator's record could not be read")

/-- The loop over the member files other than the descriptor: one that is there without a
descriptor or a record belongs to nobody. -/
def generateUnlessPresent (notBefore notAfter : ℤ) (drawn : Except String Drawn) :
    List AuthorityFile → FdrM Bytes
  | [] => generatePortable json issue notBefore notAfter drawn
  | file :: files => do
    let present ← Prog.fileExists file
    if present then
      match ← loadCommittedPortable json issue notBefore notAfter with
      | some committed => pure committed
      | none =>
        match ← FdrMaterialCreationRecord.load json with
        | some record => resumeCreation json issue record notBefore notAfter
        | none => Prog.throw (.unrecordedMaterial file.fileName)
    else generateUnlessPresent notBefore notAfter drawn files

def loadOrGeneratePortable (notBefore notAfter : ℤ) (drawn : Except String Drawn) : FdrM Bytes := do
  match ← loadCommittedPortable json issue notBefore notAfter with
  | some committed => pure committed
  | none =>
    match ← FdrMaterialCreationRecord.load json with
    | some record => resumeCreation json issue record notBefore notAfter
    | none => generateUnlessPresent json issue notBefore notAfter drawn seedsAndSerials

end

end AppleUtils.Ramrod
