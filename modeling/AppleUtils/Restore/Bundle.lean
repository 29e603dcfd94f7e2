import AppleUtils.Lib.Checks
import AppleUtils.Lib.Racing
import Mathlib.Data.List.DropRight

/-! # Patching a restore bundle

`run_bundle` patches the restore media and the trust cache a bundle's `config.json` names.  It reads
the bundle and computes what to write (`runBundle`); then it stages the new files under names made
of their hashes, a receipt, a copy of the original configuration and the new configuration, and
last renames the new configuration over `config.json` (`Plan.acts`).

A bundle is a store of files by their components, all regular and with one link.  The texts of JSON,
the media and container formats, the patch and the hash are parameters (`Tools`).  The text that is
shown at the end is left out. -/

namespace AppleUtils.Restore

open Checks Racing

/-! ### Paths -/

abbrev Name := List Char

/-- The parts of a path's text between its slashes. -/
abbrev Path := List Name

/-- A part that stands for nothing. -/
def Blank (name : Name) : Prop := name = [] ∨ name = ['.']

instance (name : Name) : Decidable (Blank name) := by
  unfold Blank
  infer_instance

def parts : Name → Path
  | [] => [[]]
  | c :: rest => if c = '/' then [] :: parts rest else (parts rest).modifyHead (c :: ·)

def text : Path → Name
  | [] => []
  | [part] => part
  | part :: path => part ++ '/' :: text path

def display (path : Path) : String := String.ofList (text path)

/-- Paths with the same components are the same file. -/
def components (path : Path) : Path := path.filter (¬ Blank ·)

def relativeComponents (path : Path) : Except String Path := do
  -- the text is empty or begins with a slash
  failIf (path.head? = some []) s!"bundle path must be relative and nonempty: {display path}"
  failIf (path.head? = some ['.'] ∨ path.any (· = ['.', '.']))
    s!"bundle path contains traversal or a non-normal component: {display path}"
  return components path

/-- The stem and the extension of a file name. -/
def splitAtDot (name : Name) : Name × Option Name :=
  let after := name.rtakeWhile (· ≠ '.')
  let before := name.take (name.length - after.length - 1)
  if after.length = name.length ∨ before = [] then (name, none) else (before, some after)

def withFileName (path : Path) (name : Name) : Path :=
  ((path.rdropWhile (Blank ·)).dropLast.rdropWhile (Blank ·)) ++ [name]

def hexDigit (n : ℕ) : Char := "0123456789abcdef".toList.getD n '0'

def hex (bytes : Bytes) : Name :=
  bytes.flatMap fun b => [hexDigit (b.toNat / 16), hexDigit (b.toNat % 16)]

def stagedName (name : Name) (hash : Bytes) : Name :=
  let (stem, extension) := splitAtDot name
  stem ++ (".skip-tcon-".toList ++ (hex hash ++ extension.elim [] ('.' :: ·)))

def stagedPathForHash (original : Path) (hash : Bytes) : Except String Path :=
  match (components original).getLast? with
  | none => .error "configured bundle filename must be UTF-8"
  | some name => .ok (withFileName original (stagedName name hash))

/-! ### The configuration -/

/-- A JSON value. -/
inductive Value where
  | null | bool (b : Bool) | number (text : String) | string (text : Name)
  | array (items : List Value) | object (fields : List (Name × Value))

abbrev Pointer := List Name

def mediaPointer : Pointer := ["sources".toList, "restoreMediaPath".toList]

def cachePointer : Pointer := ["directBoot".toList, "restoreTrustcachePath".toList]

def showPointer (pointer : Pointer) : String := "/" ++ display pointer

namespace Value

def field? (key : Name) : Value → Option Value
  | .object fields => (fields.find? (·.1 = key)).map Prod.snd
  | _ => none

/-- `pointer`, for keys that are no numbers. -/
def pointer : Pointer → Value → Option Value
  | [], value => some value
  | key :: keys, value => (value.field? key).bind (pointer keys)

/-- The value with another one at the pointer. -/
def set (new : Value) : Pointer → Value → Value
  | [], _ => new
  | key :: keys, .object fields =>
    .object (fields.map fun field => if field.1 = key then (key, set new keys field.2) else field)
  | _ :: _, value => value

end Value

def configuredPath (config : Value) (pointer : Pointer) : Except String Path :=
  match config.pointer pointer with
  | some (.string text) => do
    let path := parts text
    let _ ← relativeComponents path
    return path
  | _ => .error s!"bundle config must name {showPointer pointer}"

/-- One turn of the loop of `switched_config`. -/
def switchPath (config : Value) (pointer : Pointer) (path : Path) : Except String Value := do
  let _ ← relativeComponents path
  match config.pointer pointer with
  | none => throw s!"bundle config must name {showPointer pointer}"
  | some (.string _) => return Value.set (.string (text path)) pointer config
  | some _ => throw s!"bundle config {showPointer pointer} must be a string"

structure PatchReceipt where
  version : ℕ
  (configSha256 originalConfigSha256 originalMediaSha256 originalTrustcacheSha256 mediaSha256 : Bytes)
  (trustcacheSha256 executableSha256 oldCdhash newCdhash : Bytes)
deriving DecidableEq

structure Prepared where
  (executable trustcacheIm4p oldCdhash newCdhash : Bytes)

/-- The functions on bytes that the switch is made of. -/
structure Tools where
  sha256 : Bytes → Bytes
  parseJson : Bytes → Except String Value
  /-- `to_vec_pretty`. -/
  printJson : Value → Bytes
  /-- The executable in restore media. -/
  restoredExternal : Bytes → Except String Bytes
  prepareSkipTcon : Bytes → Bytes → Except String Prepared
  /-- Restore media with another executable. -/
  replaceExecutable : Bytes → Bytes → Except String Bytes
  printReceipt : PatchReceipt → Bytes
  parseReceipt : Bytes → Except String PatchReceipt

variable (t : Tools)

/-- The media path and the trust cache path in a configuration. -/
def configuredPaths (what : String) (config : Bytes) : Except String (Path × Path) := do
  let value ← (t.parseJson config).mapError (what ++ ·)
  let media ← configuredPath value mediaPointer
  let cache ← configuredPath value cachePointer
  return (media, cache)

def switchedConfig (original : Bytes) (media trustcache : Path) : Except String Bytes := do
  let config ← (t.parseJson original).mapError ("parse bundle config: " ++ ·)
  let config ← switchPath config mediaPointer media
  let config ← switchPath config cachePointer trustcache
  return t.printJson config ++ [0x0A]

/-! ### Names -/

abbrev Bundle := Store Path Bytes

def configJson : Path := ["config.json".toList]

def receiptPath (config : Bytes) : Path :=
  ["restore-patch-".toList ++ (hex (t.sha256 config) ++ ".json".toList)]

def rollbackPath (configHash : Bytes) : Path :=
  ["config.restore-patch-original-".toList ++ (hex configHash ++ ".json".toList)]

def temporaryConfig (replacement : Bytes) : Path :=
  [".config.restore-patch-".toList ++ (hex (t.sha256 replacement) ++ ".tmp".toList)]

/-- A name that `stage` makes up for a file it has not published yet. -/
def Pending (path : Path) : Prop :=
  ∃ nonce : Bytes, nonce.length = 16 ∧ path.getLast? = some (".restore-patch-stage-".toList ++ hex nonce)

def RESTORED_EXTERNAL : String := "/usr/local/bin/restored_external"

/-- The text of `NotFound`. -/
def notFound : String := "No such file or directory (os error 2)"

/-! ### Reading -/

variable (s : Bundle)

def read (path : Path) : Except String Bytes :=
  match s (components path) with
  | some bytes => .ok bytes
  | none => .error s!"bundle file not found: {display path}"

def recheckHash (path : Path) (expected : Bytes) : Except String Unit :=
  match s (components path) with
  | none => .error s!"reopen bundle file without symlinks {display path}: {notFound}"
  | some bytes =>
    failIf (t.sha256 bytes ≠ expected)
      s!"bundle file changed while preparing restore patch: {display path}"

def recheck (path : Path) (expected : Bytes) : Except String Unit :=
  recheckHash t s path (t.sha256 expected)

/-- All the files have the hashes given for them. -/
def recheckAll : List (Path × Bytes) → Except String Unit
  | [] => .ok ()
  | (path, hash) :: rest => do
    recheckHash t s path hash
    recheckAll rest

/-- The paths of the originals, if the receipt fits the two configurations. -/
def validateReceiptConfig (receipt : PatchReceipt) (current original : Bytes)
    (media cache : Path) : Except String (Path × Path) := do
  failIf (receipt.version ≠ 1) s!"unsupported restore patch receipt version {receipt.version}"
  failIf (t.sha256 current ≠ receipt.configSha256 ∨
      t.sha256 original ≠ receipt.originalConfigSha256)
    "restore patch receipt config hashes do not match current and rollback configs"
  let (originalMedia, originalCache) ←
    configuredPaths t "parse restore patch rollback config: " original
  let switched ← switchedConfig t original media cache
  failIf (switched ≠ current) "restore patch current config differs from the recorded transaction"
  let stagedMedia ← stagedPathForHash originalMedia receipt.mediaSha256
  let stagedCache ← stagedPathForHash originalCache receipt.trustcacheSha256
  failIf (components stagedMedia ≠ components media ∨ components stagedCache ≠ components cache)
    "restore patch receipt does not identify the configured staged files"
  return (originalMedia, originalCache)

structure VerifiedPatch where
  receipt : PatchReceipt
  originalConfig : Bytes
  (originalMedia originalCache : Path)

/-- What `config.json` says now, with the files it names. -/
structure Current where
  config : Bytes
  (mediaPath cachePath : Path)
  (media cache : Bytes)
deriving DecidableEq

def verifyAppliedPatch (c : Current) (receiptBytes : Bytes) : Except String VerifiedPatch := do
  let receipt ← (t.parseReceipt receiptBytes).mapError ("parse restore patch receipt: " ++ ·)
  let rollback := rollbackPath receipt.originalConfigSha256
  let originalConfig ← read s rollback
  let (originalMedia, originalCache) ←
    validateReceiptConfig t receipt c.config originalConfig c.mediaPath c.cachePath
  failIf (t.sha256 c.media ≠ receipt.mediaSha256 ∨ t.sha256 c.cache ≠ receipt.trustcacheSha256)
    "restore patch receipt hashes do not match staged restore media and trustcache"
  let executable ← t.restoredExternal c.media
  failIf (t.sha256 executable ≠ receipt.executableSha256)
    ("restore patch receipt executable hash does not match " ++ RESTORED_EXTERNAL)
  recheckAll t s [(originalMedia, receipt.originalMediaSha256),
    (originalCache, receipt.originalTrustcacheSha256), (c.mediaPath, receipt.mediaSha256),
    (c.cachePath, receipt.trustcacheSha256), (rollback, receipt.originalConfigSha256),
    (configJson, receipt.configSha256)]
  recheck t s (receiptPath t c.config) receiptBytes
  return ⟨receipt, originalConfig, originalMedia, originalCache⟩

def readCurrent : Except String Current := do
  let config ← read s configJson
  let (mediaPath, cachePath) ← configuredPaths t "parse bundle config: " config
  let media ← read s mediaPath
  let cache ← read s cachePath
  return ⟨config, mediaPath, cachePath, media, cache⟩

/-- What the patch starts from: the current files, or those of the patch already in place. -/
structure Originals where
  config : Bytes
  (mediaPath cachePath : Path)
  (media cache : Bytes)
deriving DecidableEq

def findOriginals (c : Current) :
    Option Bytes → Except String (Originals × Option VerifiedPatch)
  | none => .ok (⟨c.config, c.mediaPath, c.cachePath, c.media, c.cache⟩, none)
  | some receiptBytes => do
    let verified ← verifyAppliedPatch t s c receiptBytes
    let media ← read s verified.originalMedia
    let cache ← read s verified.originalCache
    failIf (t.sha256 media ≠ verified.receipt.originalMediaSha256 ∨
        t.sha256 cache ≠ verified.receipt.originalTrustcacheSha256)
      "restore patch original media or trustcache changed after receipt verification"
    return (⟨verified.originalConfig, verified.originalMedia, verified.originalCache, media,
      cache⟩, some verified)

/-! ### The plan -/

/-- What is to be written. -/
structure Plan where
  current : Current
  currentReceipt : Option Bytes
  originals : Originals
  receipt : PatchReceipt
  replacement : Bytes
  stagedMedia : Path
  replacementMedia : Bytes
  stagedCache : Path
  replacementCache : Bytes
deriving DecidableEq

def makePlan (c : Current) (currentReceipt : Option Bytes) (o : Originals) (p : Prepared) :
    Except String Plan := do
  let replacementMedia ← t.replaceExecutable o.media p.executable
  let stagedMedia ← stagedPathForHash o.mediaPath (t.sha256 replacementMedia)
  let stagedCache ← stagedPathForHash o.cachePath (t.sha256 p.trustcacheIm4p)
  failIf (components o.mediaPath = components o.cachePath ∨
      components stagedMedia = components stagedCache)
    "restore media and restore trustcache must name separate bundle files"
  let replacement ← switchedConfig t o.config stagedMedia stagedCache
  let receipt : PatchReceipt := {
    version := 1
    configSha256 := t.sha256 replacement
    originalConfigSha256 := t.sha256 o.config
    originalMediaSha256 := t.sha256 o.media
    originalTrustcacheSha256 := t.sha256 o.cache
    mediaSha256 := t.sha256 replacementMedia
    trustcacheSha256 := t.sha256 p.trustcacheIm4p
    executableSha256 := t.sha256 p.executable
    oldCdhash := p.oldCdhash
    newCdhash := p.newCdhash }
  return ⟨c, currentReceipt, o, receipt, replacement, stagedMedia, replacementMedia, stagedCache,
    p.trustcacheIm4p⟩

inductive Outcome where
  /-- The receipt was verified; there is nothing to do. -/
  | alreadyApplied | switch (plan : Plan)
deriving DecidableEq

/-- The prepared patch is the one the receipt records. -/
def Recorded (p : Prepared) (receipt : PatchReceipt) : Prop :=
  t.sha256 p.executable = receipt.executableSha256 ∧
    t.sha256 p.trustcacheIm4p = receipt.trustcacheSha256 ∧ p.newCdhash = receipt.newCdhash

instance (p : Prepared) (receipt : PatchReceipt) : Decidable (Recorded t p receipt) := by
  unfold Recorded
  infer_instance

/-- `run_bundle` up to the first write. -/
def runBundle : Except String Outcome := do
  let c ← readCurrent t s
  let currentReceipt := s (receiptPath t c.config)
  let (o, installed) ← findOriginals t s c currentReceipt
  let executable ← t.restoredExternal o.media
  let p ← t.prepareSkipTcon executable o.cache
  match installed with
  | none =>
    let plan ← makePlan t c currentReceipt o p
    return .switch plan
  | some verified =>
    failIf (p.oldCdhash ≠ verified.receipt.oldCdhash)
      "restore patch receipt original CDHash does not match verified stock executable"
    if Recorded t p verified.receipt then
      let media ← read s c.mediaPath
      let cache ← read s c.cachePath
      let _ ← verifyAppliedPatch t s { c with media, cache } (currentReceipt.getD [])
      return .alreadyApplied
    else
      let plan ← makePlan t c currentReceipt o p
      return .switch plan

/-! ### Writing -/

inductive Act where
  /-- Publish a file under a name of its own, or find it there. -/
  | stage (path : Path) (bytes : Bytes) | recheck (path : Path) (hash : Bytes)
  /-- Rename a file over `config.json`. -/
  | rename (path : Path)

/-- The files that are staged, in order. -/
def Plan.staged (plan : Plan) : List (Path × Bytes) :=
  [(plan.stagedMedia, plan.replacementMedia), (plan.stagedCache, plan.replacementCache),
    (receiptPath t plan.replacement, t.printReceipt plan.receipt),
    (rollbackPath (t.sha256 plan.originals.config), plan.originals.config),
    (temporaryConfig t plan.replacement, plan.replacement)]

/-- The files that are hashed once more before the switch. -/
def Plan.sources (plan : Plan) : List (Path × Bytes) :=
  [(plan.originals.mediaPath, plan.receipt.originalMediaSha256),
    (plan.originals.cachePath, plan.receipt.originalTrustcacheSha256),
    (plan.current.mediaPath, t.sha256 plan.current.media),
    (plan.current.cachePath, t.sha256 plan.current.cache)] ++
  (match plan.currentReceipt with
    | none => []
    | some receiptBytes => [(receiptPath t plan.current.config, t.sha256 receiptBytes),
        (rollbackPath plan.receipt.originalConfigSha256, plan.receipt.originalConfigSha256)]) ++
  [(plan.stagedMedia, plan.receipt.mediaSha256), (plan.stagedCache, plan.receipt.trustcacheSha256),
    (receiptPath t plan.replacement, t.sha256 (t.printReceipt plan.receipt)),
    (rollbackPath (t.sha256 plan.originals.config), t.sha256 plan.originals.config),
    (temporaryConfig t plan.replacement, t.sha256 plan.replacement), (configJson, t.sha256 plan.current.config)]

def Plan.acts (plan : Plan) : List Act :=
  (plan.staged t).map (fun file => .stage file.1 file.2) ++
    ((plan.sources t).map (fun source => .recheck source.1 source.2) ++
      [.rename (temporaryConfig t plan.replacement), .recheck configJson (t.sha256 plan.replacement)])

/-- The store with one file set or removed. -/
def put (path : Path) (file : Option Bytes) : Bundle := fun p => if p = path then file else s p

/-- The store after `rename`. -/
def renamed (path : Path) : Bundle := put (put s configJson (s path)) path none

/-- One act, carried through. -/
def perform (s : Bundle) : Act → Except String Bundle
  | .stage path bytes =>
    match s (components path) with
    | none => .ok (put s (components path) (some bytes))
    | some found =>
      if found = bytes then .ok s
      else .error s!"staged bundle file collision: {display path}"
  | .recheck path hash => do
    recheckHash t s path hash
    return s
  | .rename path =>
    match s path with
    | none => .error s!"atomically switch bundle config config.json: {notFound}"
    | some _ => .ok (renamed s path)

/-- All the acts, if none of them fails. -/
def performAll (s : Bundle) : List Act → Except String Bundle
  | [] => .ok s
  | act :: acts => do
    let s ← perform t s act
    performAll s acts

/-- The stores a run of the acts can be stopped at.  It can stop between any two system calls, with
an error or because it is killed; while a file is staged a part of it can be left under a name made
up for it. -/
inductive Stops (t : Tools) : List Act → Bundle → Bundle → Prop
  | between (acts : List Act) (s : Bundle) : Stops t acts s s
  | pending {path : Path} {bytes part : Bytes} (acts : List Act) {s : Bundle} (name : Path)
      (absent : s (components path) = none) (fresh : s name = none) (madeUp : Pending name)
      (written : part <+: bytes) :
      Stops t (.stage path bytes :: acts) s (put s name (some part))
  | next {act : Act} {acts : List Act} {s s' s'' : Bundle} (performed : perform t s act = .ok s')
      (later : Stops t acts s' s'') : Stops t (act :: acts) s s''

end AppleUtils.Restore
