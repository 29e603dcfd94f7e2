import AppleUtils.Ramrod.Der

/-! # Tickets

An IM4M manifest: its reader, and the two functions that write a changed one, `addFdrTrustObjects`
and `setBootNonceHash`.  Names and texts are kept as their bytes. -/

namespace AppleUtils.Ticket

open Bytes Checks

def MANIFEST_NAME : Bytes := [0x49, 0x4d, 0x34, 0x4d]
def MANIFEST_BODY_TAG : Bytes := [0x4d, 0x41, 0x4e, 0x42]
def MANIFEST_PROPERTIES_TAG : Bytes := [0x4d, 0x41, 0x4e, 0x50]
def DIGEST_PROPERTY_TAG : Bytes := [0x44, 0x47, 0x53, 0x54]
def BOOT_NONCE_HASH_PROPERTY_TAG : Bytes := [0x42, 0x4e, 0x43, 0x48]
def RESTORE_FDR_TRUST_OBJECT_TAG : Bytes := [0x72, 0x66, 0x74, 0x61]
def BOOTED_OS_FDR_TRUST_OBJECT_TAG : Bytes := [0x66, 0x74, 0x61, 0x70]

def FDR_TRUST_OBJECT_TAGS : List Bytes := [RESTORE_FDR_TRUST_OBJECT_TAG, BOOTED_OS_FDR_TRUST_OBJECT_TAG]

inductive PropertyValue where
  | boolean (value : Bool) | integer (bytes : Bytes) | bytes (bytes : Bytes) | text (text : Bytes) | null
  | other (derTag : ℕ) (bytes : Bytes) | absent
deriving DecidableEq

def PropertyValue.asBytes : PropertyValue → Option Bytes
  | .bytes b => some b
  | _ => none

structure Im4mProperty where
  tag : Bytes
  value : PropertyValue
deriving DecidableEq

structure Im4mObject where
  tag : Bytes
  properties : List Im4mProperty
deriving DecidableEq

def Im4mObject.digest (o : Im4mObject) : Option Bytes :=
  (o.properties.find? (·.tag = DIGEST_PROPERTY_TAG)).bind (·.value.asBytes)

structure Im4mManifest where
  properties : List Im4mProperty
  objects : List Im4mObject
deriving DecidableEq

namespace Im4mManifest

variable (m : Im4mManifest)

def object (tag : Bytes) : Option Im4mObject := m.objects.find? (·.tag = tag)

def bootNonceHash : Option Bytes :=
  (m.properties.find? (·.tag = BOOT_NONCE_HASH_PROPERTY_TAG)).bind (·.value.asBytes)

/-- The object is there with a digest. -/
def carries (tag : Bytes) : Bool := (m.object tag).any (·.digest.isSome)

def missingFdrTrustObjects : List Bytes := FDR_TRUST_OBJECT_TAGS.filter fun tag => ¬ m.carries tag

end Im4mManifest

/-! ### Reading -/

/-- The value of an element; a private wrapper of one element has the value of that one. -/
def readValue : ℕ → Element → Except TicketError PropertyValue
  | 0, e => .ok (.other e.tag e.body)
  | fuel + 1, e =>
    if e.tagClass = CLASS_UNIVERSAL then
      .ok (if e.tag = TAG_BOOLEAN then .boolean (e.body.head?.any (· ≠ 0))
        else if e.tag = TAG_INTEGER then .integer e.body
        else if e.tag = TAG_OCTET_STRING then .bytes e.body
        else if e.tag = TAG_NULL then .null
        else if e.tag = TAG_IA5_STRING then .text e.body
        else .other e.tag e.body)
    else if e.constructed then
      match children e.body with
      | .error err => .error err
      | .ok [inner] => readValue fuel inner
      | .ok _ => .ok (.other e.tag e.body)
    else .ok (.other e.tag e.body)

/-- The code of an element and the parts of its sequence after the name. -/
def readNamedBody (e : Element) : Except TicketError (Bytes × List Element) :=
  match fourCharacterCode e.tag with
  | none => .error (.unexpected "a four character code tag")
  | some code =>
    match children e.body with
    | .error err => .error err
    | .ok [] => .error .truncated
    | .ok (sequence :: _) =>
      if ¬ sequence.is CLASS_UNIVERSAL TAG_SEQUENCE then .error (.unexpected "a SEQUENCE")
      else
        match children sequence.body with
        | .error err => .error err
        | .ok [] => .error .truncated
        | .ok (name :: parts) =>
          if ¬ name.is CLASS_UNIVERSAL TAG_IA5_STRING then .error (.unexpected "an IA5String name")
          else if name.body ≠ code then .error (.tagMismatch code name.body)
          else .ok (code, parts)

def readProperty (entry : Element) : Except TicketError Im4mProperty :=
  if entry.tagClass ≠ CLASS_PRIVATE then .error (.unexpected "a private property tag")
  else do
    let (tag, elements) ← readNamedBody entry
    match elements with
    | [] => return ⟨tag, .absent⟩
    | e :: _ => do
      let value ← readValue (e.whole.length + 1) e
      return ⟨tag, value⟩

def readProperties (set : Element) : Except TicketError (List Im4mProperty) := do
  let entries ← children set.body
  entries.mapM readProperty

/-- The first part of a named body, which has to be a set. -/
def namedSet (e : Element) (none : TicketError) (wanted : String) : Except TicketError (Bytes × Element) := do
  let (tag, parts) ← readNamedBody e
  match parts with
  | [] => .error none
  | set :: _ => if set.is CLASS_UNIVERSAL TAG_SET then .ok (tag, set) else .error (.unexpected wanted)

/-- One entry of the manifest body. -/
def readEntry (m : Im4mManifest) (entry : Element) : Except TicketError Im4mManifest :=
  if entry.tagClass ≠ CLASS_PRIVATE then .error (.unexpected "a private manifest entry")
  else do
    let (tag, set) ← namedSet entry .truncated "a SET of properties"
    let decoded ← readProperties set
    return if tag = MANIFEST_PROPERTIES_TAG then { m with properties := decoded }
      else { m with objects := m.objects ++ [⟨tag, decoded⟩] }

def isBody (e : Element) : Bool :=
  e.tagClass = CLASS_PRIVATE ∧ fourCharacterCode e.tag = some MANIFEST_BODY_TAG

def findManifestBody : List Element → Except TicketError Element
  | [] => .error .noManifestBody
  | e :: rest =>
    if isBody e then .ok e
    else if e.is CLASS_UNIVERSAL TAG_SET then do
      let inner ← children e.body
      match inner.find? isBody with
      | some body => .ok body
      | none => findManifestBody rest
    else findManifestBody rest

def namesItself (top : List Element) : Bool :=
  top.any fun e => e.is CLASS_UNIVERSAL TAG_IA5_STRING ∧ e.body = MANIFEST_NAME

/-- The elements in the outer sequence. -/
def readTop (bytes : Bytes) : Except TicketError (List Element) := do
  let (outer, _) ← readElement bytes
  failIf (¬ outer.is CLASS_UNIVERSAL TAG_SEQUENCE) .notAManifest
  children outer.body

def readManifest (bytes : Bytes) : Except TicketError Im4mManifest := do
  let top ← readTop bytes
  failIf (¬ namesItself top) .notAManifest
  let body ← findManifestBody top
  let (_, set) ← namedSet body .noManifestBody "a SET of manifest entries"
  let entries ← children set.body
  entries.foldlM readEntry ⟨[], []⟩

/-- What `audit_ticket` reports as missing. -/
def auditMissing (bytes : Bytes) (required : List Bytes) : Except TicketError (List Bytes) := do
  let manifest ← readManifest bytes
  return required.filter fun tag => ¬ manifest.carries tag

/-! ### Writing -/

/-- An element named `tag`, private and constructed, around a sequence of its name and `rest`. -/
def encodeNamed (tag rest : Bytes) : Bytes :=
  derEncode (fourccPrivateIdentifier tag)
    (derEncode DER_SEQUENCE_IDENTIFIER (derEncode DER_IA5_IDENTIFIER tag ++ rest))

def encodeOctetStringProperty (tag value : Bytes) : Bytes :=
  encodeNamed tag (derEncode DER_OCTET_IDENTIFIER value)

def encodeFdrTrustObject (tag digest : Bytes) : Bytes :=
  encodeNamed tag (derEncode DER_SET_IDENTIFIER (encodeOctetStringProperty DIGEST_PROPERTY_TAG digest))

def rebuildManifestBody (add : List Bytes) (digest : Bytes) (body : Element) : Except TicketError Bytes := do
  let (_, set) ← namedSet body .noManifestBody "a SET of manifest entries"
  return encodeNamed MANIFEST_BODY_TAG
    (derEncode DER_SET_IDENTIFIER (set.body ++ add.flatMap (encodeFdrTrustObject · digest)))

def carriesManifestBody (e : Element) : Except TicketError Bool :=
  if isBody e then .ok true
  else if e.is CLASS_UNIVERSAL TAG_SET then do
    let inner ← children e.body
    return inner.any isBody
  else .ok false

/-- The bytes of the entries of a set, those of manifest bodies rebuilt. -/
def rebuildInner (rebuild : Element → Except TicketError Bytes) (e : Element) : Except TicketError Bytes :=
  if isBody e then rebuild e else .ok e.whole

/-- The element that carries the manifest body, rebuilt. -/
def rebuildKid (rebuild : Element → Except TicketError Bytes) (kid : Element) : Except TicketError Bytes :=
  if kid.tagClass = CLASS_PRIVATE then rebuild kid
  else do
    let inner ← children kid.body
    let parts ← inner.mapM (rebuildInner rebuild)
    return derEncode DER_SET_IDENTIFIER parts.flatten

/-- The elements of the outer sequence, the first that carries a manifest body rebuilt. -/
def rebuildKids (rebuild : Element → Except TicketError Bytes) : List Element → Except TicketError Bytes
  | [] => .error .noManifestBody
  | kid :: rest => do
    let carries ← carriesManifestBody kid
    if carries then do
      let first ← rebuildKid rebuild kid
      return first ++ rest.flatMap (·.whole)
    else do
      let others ← rebuildKids rebuild rest
      return kid.whole ++ others

def rebuildOuter (rebuild : Element → Except TicketError Bytes) (bytes : Bytes) :
    Except TicketError Bytes := do
  let kids ← readTop bytes
  let rebuilt ← rebuildKids rebuild kids
  return derEncode DER_SEQUENCE_IDENTIFIER rebuilt

/-- The trust objects the manifest lacks. -/
def absentTags (m : Im4mManifest) : List Bytes := FDR_TRUST_OBJECT_TAGS.filter fun tag => (m.object tag).isNone

def addFdrTrustObjects (bytes digest : Bytes) : Except TicketError Bytes := do
  let manifest ← readManifest bytes
  let missing := absentTags manifest
  if missing = [] then .ok bytes else rebuildOuter (rebuildManifestBody missing digest) bytes

/-- The set of properties with the nonce in the place its tag has in the order of the tags. -/
def stapleEntries (staged : Bytes) (written : Bool) : List Element → Bytes
  | [] => if written then [] else staged
  | e :: rest =>
    let code := fourCharacterCode e.tag
    if code = some BOOT_NONCE_HASH_PROPERTY_TAG then
      (if written then [] else staged) ++ stapleEntries staged true rest
    else if ¬ written ∧ code.any (BOOT_NONCE_HASH_PROPERTY_TAG.map BitVec.toNat < ·.map BitVec.toNat) then
      staged ++ (e.whole ++ stapleEntries staged true rest)
    else e.whole ++ stapleEntries staged written rest

def rebuildManifestProperties (nonce : Bytes) (block : Element) : Except TicketError Bytes := do
  let (_, set) ← namedSet block .noManifestProperties "a SET of properties"
  let entries ← children set.body
  return encodeNamed MANIFEST_PROPERTIES_TAG (derEncode DER_SET_IDENTIFIER
    (stapleEntries (encodeOctetStringProperty BOOT_NONCE_HASH_PROPERTY_TAG nonce) false entries))

def isPropertiesBlock (e : Element) : Bool :=
  e.tagClass = CLASS_PRIVATE ∧ fourCharacterCode e.tag = some MANIFEST_PROPERTIES_TAG

/-- The entries of the manifest body, the first block of properties rebuilt. -/
def stapleBlocks (nonce : Bytes) : List Element → Except TicketError Bytes
  | [] => .error .noManifestProperties
  | e :: rest =>
    if isPropertiesBlock e then do
      let first ← rebuildManifestProperties nonce e
      return first ++ rest.flatMap (·.whole)
    else do
      let others ← stapleBlocks nonce rest
      return e.whole ++ others

def rebuildManifestBodyWithBootNonce (nonce : Bytes) (body : Element) : Except TicketError Bytes := do
  let (_, set) ← namedSet body .noManifestBody "a SET of manifest entries"
  let entries ← children set.body
  let rebuilt ← stapleBlocks nonce entries
  return encodeNamed MANIFEST_BODY_TAG (derEncode DER_SET_IDENTIFIER rebuilt)

def setBootNonceHash (bytes nonce : Bytes) : Except TicketError Bytes := do
  let manifest ← readManifest bytes
  if manifest.bootNonceHash = some nonce then .ok bytes
  else rebuildOuter (rebuildManifestBodyWithBootNonce nonce) bytes

end AppleUtils.Ticket
