import AppleUtils.Lib.Bytes
import AppleUtils.Lib.Cleanup
import AppleUtils.Lib.Posix
import Mathlib.Data.List.DropRight

/-! # Staging the entries of an archive

`IpswTree` is the file tree of an archive, read from its central directory; `IpswStage` pulls
entries into a directory of its own on demand.  Names and link targets are lists of the components
between the slashes of their text.  What is read of an entry is part of the entry: reading is a
function of the archive.

The directory is in a tree of files with symbolic links (`Posix.Tree`); an operation fails for the
reasons that the shape of the tree gives, not for want of space or permission.  Every place at which
a node is made is an event of the procedure, and so is every name that becomes staged, with the tree
at that moment. -/

namespace AppleUtils.Ipsw

open Posix List Proc

/-- The components of an entry's name. -/
abbrev Name := List String

inductive IpswError where
  | missing (name : Name) | unsupported (name : Name) | unsafeName (name : List String)
  | corrupt (name : Name) | cli (name : Name) | noCli | io (errno : Errno)
deriving DecidableEq

/-- An entry with what comes of reading it: an entry may not open, and its data may turn out not to
be those of the directory. -/
inductive Entry where
  | file (opened : Except IpswError (Except IpswError Bytes)) | symlink (target : Except IpswError Path)

/-! ### The central directory -/

/-- A name that `sanitize_name` gives out. -/
def Sanitized (name : Name) : Prop := name ≠ [] ∧ ∀ c ∈ name, Plain c

instance (name : Name) : Decidable (Sanitized name) := inferInstanceAs (Decidable (_ ∧ _))

/-- The raw name without the slashes at its end, if it is safe. -/
def sanitizeName (raw : List String) : Except IpswError { name : Name // Sanitized name } :=
  let trimmed := raw.rdropWhile (· = "")
  if trimmed.any fun c => c.toList.any fun ch => ch = '\x00' ∨ ch = '\\' then .error (.unsafeName raw)
  else if h : Sanitized trimmed then .ok ⟨trimmed, h⟩
  else .error (.unsafeName raw)

/-- A record of the central directory: its name, the file mode it gives and the entry. -/
structure Record where
  rawName : List String
  mode : ℕ
  entry : Entry

def Record.isDirectory (r : Record) : Bool :=
  r.rawName.getLast? = some "" ∨ (r.mode / 2 ^ 12 % 2 ^ 4 = 0o04 ∧ r.mode ≠ 0)

/-- The entries and the directories met so far. -/
structure Listing where
  entries : List (Name × Entry)
  directories : List Name
  sanitized : ∀ e ∈ entries, Sanitized e.1
  nodup : (entries.map Prod.fst).Nodup
  covered : ∀ e ∈ entries, ∀ d, d ≠ [] → d <+: e.1 → d ≠ e.1 → d ∈ directories

namespace Listing

def empty : Listing := ⟨[], [], nofun, nodup_nil, nofun⟩

/-- `insert_directories`: the directories above a name, and the name itself if it is one. -/
def insertDirectories (l : Listing) (name : Name) (includeSelf : Bool) : Listing where
  entries := l.entries
  directories := name.inits.filter (fun d => d ≠ [] ∧ (includeSelf ∨ d ≠ name)) ++ l.directories
  sanitized := l.sanitized
  nodup := l.nodup
  covered e he d hne hle hd := mem_append_right _ (l.covered e he d hne hle hd)

/-- `entries.insert`, of a name that is new. -/
def insertEntry (l : Listing) (name : { name : Name // Sanitized name }) (entry : Entry)
    (hnew : name.1 ∉ l.entries.map Prod.fst) : Listing where
  entries := (name.1, entry) :: l.entries
  directories := (l.insertDirectories name.1 false).directories
  sanitized := forall_mem_cons.mpr ⟨name.2, l.sanitized⟩
  nodup := nodup_cons.mpr ⟨hnew, l.nodup⟩
  covered := by
    refine forall_mem_cons.mpr ⟨fun d hne hle hd => mem_append_left _ ?_,
      (l.insertDirectories name.1 false).covered⟩
    exact mem_filter.mpr ⟨(mem_inits _ _).mpr hle, by simp [hne, hd]⟩

/-- What one record of the central directory adds. -/
def insertRecord (l : Listing) (r : Record) : Except IpswError Listing :=
  if r.rawName.head? = some "__MACOSX" then .ok l
  else do
    let name ← sanitizeName r.rawName
    if r.isDirectory then .ok (l.insertDirectories name.1 true)
    else if hnew : name.1 ∉ l.entries.map Prod.fst then .ok (l.insertEntry name r.entry hnew)
    else .error (.unsafeName name.1)

end Listing

structure IpswTree extends Listing where
  clash : ∀ e ∈ entries, e.1 ∉ directories

/-- The listing of an archive without records. -/
def IpswTree.empty : IpswTree := ⟨Listing.empty, nofun⟩

/-- `parse_central_directory`. -/
def parseCentralDirectory (records : List Record) : Except IpswError IpswTree := do
  let l ← records.foldlM Listing.insertRecord Listing.empty
  if h : ∀ e ∈ l.entries, e.1 ∉ l.directories then .ok ⟨l, h⟩
  else .error (.unsafeName [])

namespace IpswTree

variable (archive : IpswTree) {name : Name} {e : Entry}

def entry (name : Name) : Option Entry := archive.entries.lookup name

/-- `names_under`, in the order of the map's keys. -/
def namesUnder (under : List String) : List Name :=
  ((archive.entries.map Prod.fst).filter (under <+: ·)).mergeSort fun a b =>
    "/".intercalate a ≤ "/".intercalate b

lemma mem_of_entry (h : archive.entry name = some e) : (name, e) ∈ archive.entries := by
  rw [entry, lookup_eq_some_iff] at h
  obtain ⟨l₁, l₂, heq, _⟩ := h
  rw [heq]
  exact mem_append_right _ mem_cons_self

lemma sanitized_of_entry (h : archive.entry name = some e) : Sanitized name :=
  archive.sanitized _ (archive.mem_of_entry h)

end IpswTree

/-! ### The stage -/

/-- The archive, the place of the staging directory, the number of links the system follows, and
the tool that decrypts. -/
structure Setting where
  archive : IpswTree
  root : Path
  links : ℕ
  cli : Option (Bytes → Option Bytes)

structure Stage where
  tree : Posix.Tree Bytes
  staged : List Name
  /-- The names that were decrypted and the names of the plain files. -/
  decrypted : List (Name × Name)

inductive Event where
  | created (place : Path) | staged (name : Name) (tree : Posix.Tree Bytes)

abbrev Staging := Proc Stage IpswError Event

/-- A question to the system about the tree. -/
def io {α : Type} (question : Posix.Tree Bytes → Except Errno α) : Staging α := do
  let s ← Proc.get
  Proc.lift ((question s.tree).mapError .io)

def setNode (place : Path) (node : Option (Node Bytes)) : Staging Unit :=
  Proc.modify fun s => { s with tree := s.tree.set place node }

def DECRYPT_WORK_DIR : String := ".aea-work"

/-- `strip_suffix(".aea")` of the last component. -/
def stripAea (c : String) : Option String :=
  if ".aea".toList <:+ c.toList then some (String.ofList (c.toList.take (c.toList.length - 4))) else none

/-- The name of the decrypted file. -/
def plainName (name : Name) : Option Name := do
  let base ← name.getLast?
  let plain ← stripAea base
  if plain = "" then none else some (name.dropLast ++ [plain])

/-- `partial_path`. -/
def partialPath (p : Path) : Path := p.dropLast ++ [p.getLast?.getD "" ++ ".part"]

/-- The number of components from the staging root that the target of a link stays below, at every
point of it. -/
def depths : ℤ → Path → List ℤ
  | _, [] => []
  | depth, c :: rest =>
    let next := if c = "" ∨ c = "." then depth else if c = ".." then depth - 1 else depth + 1
    next :: depths next rest

def validateLinkTarget (name : Name) (target : Path) : Except IpswError Unit :=
  if target = [""] ∨ target = [] ∨ Absolute target ∨ target.any (·.toList.any (· = '\x00')) then
    .error (.unsafeName name)
  else if (depths ((name.length : ℤ) - 1) target).any (· < 0) then .error (.unsafeName name)
  else .ok ()

namespace Setting

variable (E : Setting)

def stagedPath (name : Name) : Path := E.root ++ name

/-- A new node at a path. -/
def make (p : Path) (node : Node Bytes) : Staging Unit := do
  let place ← io (·.vacant E.links p)
  setNode place (some node)
  record fun _ => .created place

def removeFile (p : Path) : Staging Unit := do
  let place ← io (·.unlinkable E.links p)
  setNode place none

/-- `fs::rename` of something that is not a directory. -/
def rename (p q : Path) : Staging Unit := do
  let (node, source, place) ← io (·.movable E.links p q)
  setNode source none
  setNode place (some node)
  record fun _ => .created place

/-- `create_new`, the copy with its checks and the `rename`; the partial file goes if one of them
fails. -/
def extractFile (opened : Except IpswError (Except IpswError Bytes)) (destination : Path) :
    Staging Unit := do
  let data ← Proc.lift opened
  let cleanup := (E.removeFile (partialPath destination)).ignoring
  (E.make (partialPath destination) (.file (data.toOption.getD []))).onError cleanup
  let _ ← (Proc.lift data).onError cleanup
  (E.rename (partialPath destination) destination).onError cleanup

/-- One directory of `ensure_parent`. -/
def ensureDirectory (current : Path) : Staging Unit := do
  let s ← Proc.get
  match s.tree.lstat E.links current with
  | .ok _ =>
    match s.tree.canonicalize E.links current with
    | .error e => Proc.throw (.io e)
    | .ok resolved =>
      if E.root <+: resolved ∧ s.tree resolved = some .dir then pure ()
      else Proc.throw (.unsafeName current)
  | .error .noEntry => E.make current .dir
  | .error e => Proc.throw (.io e)

def ensureDirectories : Path → List String → Staging Unit
  | _, [] => pure ()
  | current, c :: rest => do
    E.ensureDirectory (current ++ [c])
    ensureDirectories (current ++ [c]) rest

/-- `ensure_parent` of the staged path of a name. -/
def ensureParent (name : Name) : Staging Unit := E.ensureDirectories E.root name.dropLast

/-- The check of a link that was just made. -/
def checkLink (name : Name) : Staging Unit := do
  let s ← Proc.get
  match s.tree.canonicalize E.links (E.stagedPath name) with
  | .error _ => pure ()
  | .ok resolved =>
    if E.root <+: resolved then pure ()
    else do
      (E.removeFile (E.stagedPath name)).ignoring
      Proc.throw (.unsafeName name)

def stageFile (name : Name) (opened : Except IpswError (Except IpswError Bytes)) : Staging Unit := do
  E.ensureParent name
  E.extractFile opened (E.stagedPath name)

def stageLink (name : Name) (target : Except IpswError Path) : Staging Unit := do
  E.ensureParent name
  let target ← Proc.lift target
  Proc.lift (validateLinkTarget name target)
  E.make (E.stagedPath name) (.link target)
  E.checkLink name

def stageEntry (name : Name) : Entry → Staging Unit
  | .file opened => E.stageFile name opened
  | .symlink target => E.stageLink name target

/-- `staged.insert(name)`. -/
def markStaged (name : Name) : Staging Unit := do
  Proc.modify fun s => { s with staged := name :: s.staged }
  record fun s => .staged name s.tree

def stage (name : Name) : Staging Path := do
  let s ← Proc.get
  if name ∈ s.staged then pure (E.stagedPath name)
  else
    match E.archive.entry name with
    | none => Proc.throw (.missing name)
    | some entry => do
      E.stageEntry name entry
      markStaged name
      pure (E.stagedPath name)

def stageTree (under : List String) : Staging ℕ := do
  forEach E.stage (E.archive.namesUnder under)
  pure (E.archive.namesUnder under).length

/-! ### Decryption and release -/

/-- One directory of `create_dir_all`. -/
def makeDirectory (p : Path) : Staging Unit := do
  let s ← Proc.get
  match s.tree.vacant E.links p with
  | .ok _ => E.make p .dir
  | .error e =>
    match s.tree.canonicalize E.links p with
    | .ok resolved => if s.tree resolved = some .dir then pure () else Proc.throw (.io e)
    | .error _ => Proc.throw (.io e)

def workPath (rest : List String) : Path := E.root ++ DECRYPT_WORK_DIR :: rest

/-- The tool reads `input` and writes the plain file, unless a directory is in its way. -/
def runTool (name : Name) (tool : Bytes → Option Bytes) (input produced : Path) : Staging Unit := do
  let s ← Proc.get
  match s.tree.lstat E.links input with
  | .ok (.file bytes) =>
    match tool bytes, s.tree.locate E.links produced with
    | some plain, .ok place =>
      if s.tree place = some .dir then Proc.throw (.cli name)
      else do
        setNode place (some (.file plain))
        record fun _ => .created place
        if plain = [] then Proc.throw (.cli name) else pure ()
    | _, _ => Proc.throw (.cli name)
  | _ => Proc.throw (.cli name)

/-- The part of `decrypt` after which the work directory is removed. -/
def decryptInto (name plain : Name) (opened : Except IpswError (Except IpswError Bytes))
    (tool : Bytes → Option Bytes) : Staging Unit := do
  E.makeDirectory (E.workPath [])
  E.makeDirectory (E.workPath ["in"])
  E.makeDirectory (E.workPath ["out"])
  let input := E.workPath ["in", name.getLast?.getD ""]
  let plainBase := plain.getLast?.getD ""
  let produced := E.workPath ["out", plainBase]
  E.extractFile opened input
  if Plain plainBase then do
    E.runTool name tool input produced
    E.removeFile input
    E.ensureParent plain
    E.rename produced (E.stagedPath plain)
  else Proc.throw (.cli name)

/-- `remove_dir_all`; a link goes itself. -/
def removeDirAll (p : Path) : Staging Unit := do
  let s ← Proc.get
  let place ← io (·.locate E.links p)
  match s.tree place with
  | some .dir => Proc.modify fun s => { s with tree := fun q => if place <+: q then none else s.tree q }
  | some (.link _) => setNode place none
  | _ => Proc.throw (.io .notDirectory)

/-- `decrypt` of a name that was not decrypted before. -/
def decryptEntry (name plain : Name) : Staging Path :=
  match E.cli, E.archive.entry name with
  | none, _ => Proc.throw .noCli
  | some _, none => Proc.throw (.missing name)
  | some _, some (.symlink _) => Proc.throw (.unsupported name)
  | some tool, some (.file opened) => do
    (E.decryptInto name plain opened tool).always (E.removeDirAll (E.workPath [])).ignoring
    Proc.modify fun s => { s with decrypted := (name, plain) :: s.decrypted }
    pure (E.stagedPath plain)

def decrypt (name : Name) : Staging Path :=
  match plainName name with
  | none => Proc.throw (.unsupported name)
  | some plain => do
    let s ← Proc.get
    if name ∈ s.decrypted.map Prod.fst then pure (E.stagedPath plain)
    else E.decryptEntry name plain

/-- The plain file of a name goes. -/
def releasePlain (name : Name) : Staging Unit := do
  let s ← Proc.get
  match s.decrypted.lookup name with
  | none => pure ()
  | some plain => do
    Proc.modify fun s => { s with decrypted := s.decrypted.filter (·.1 ≠ name) }
    (E.removeFile (E.stagedPath plain)).ignoring

def releaseStaged (name : Name) : Staging Unit := do
  let s ← Proc.get
  if name ∈ s.staged then do
    Proc.modify fun s => { s with staged := s.staged.filter (· ≠ name) }
    (E.removeFile (E.stagedPath name)).ignoring
  else pure ()

def release (name : Name) : Staging Unit := do
  E.releasePlain name
  E.releaseStaged name

def releaseAll : Staging Unit := do
  let s ← Proc.get
  forEach E.release (s.staged ++ s.decrypted.map Prod.fst)

end Setting

/-! ### Rules -/

/-- The staging directory is given by its place: directories from the root of the tree down. -/
structure Canonical (t : Posix.Tree Bytes) (root : Path) : Prop where
  plain : ∀ c ∈ root, Plain c
  dirs : ∀ q, q <+: root → t q = some .dir

/-- A staging directory that stands in the root of the tree. -/
lemma Canonical.of_top {t : Posix.Tree Bytes} {name : String} (hname : Plain name) (htop : t [] = some .dir)
    (hdir : t [name] = some .dir) : Canonical t [name] where
  plain := by simpa using hname
  dirs := by
    intro q hq
    rcases List.prefix_cons_iff.mp hq with rfl | ⟨q', rfl, hq'⟩
    · exact htop
    · rw [List.prefix_nil.mp hq']
      exact hdir

/-- A question that fails leaves the state as it was. -/
lemma io_run {α : Type} (question : Posix.Tree Bytes → Except Errno α) (s : Stage) :
    (io question).run s = ⟨match question s.tree with
      | .ok a => .ok a
      | .error e => .error (.io e), s, []⟩ := by
  unfold io
  rw [bind_silent get_run]
  cases question s.tree <;> rfl

lemma io_bind {α β : Type} {C : Contract Stage IpswError Event} {P : Stage → Prop}
    {R : β → Stage → Prop} {question : Posix.Tree Bytes → Except Errno α} {f : α → Staging β}
    (hC : ∀ e, C.fails e) (h : ∀ s a, C.inv s → P s → question s.tree = .ok a → Triple C (· = s) (f a) R) :
    Triple C P (io question >>= f) R := by
  intro s hi hp hr
  cases hq : question s.tree with
  | error e =>
    have hrun : (io question).run s = ⟨.error (.io e), s, []⟩ := by rw [io_run, hq]
    have herror : ((io question).run s).outcome = .error (.io e) := by rw [hrun]
    rw [bind_error herror, hrun]
    exact ⟨hi, nofun, fun e _ => hC e, nofun⟩
  | ok a =>
    have hrun : (io question).run s = ⟨.ok a, s, []⟩ := by rw [io_run, hq]
    rw [bind_silent hrun] at hr ⊢
    exact h s a hi hp hq s hi rfl hr

namespace Setting

variable {E : Setting} {α : Type} {s : Stage} {p place : Path}

lemma failsClean_io {question : Posix.Tree Bytes → Except Errno α} {f : α → Staging Unit}
    (hf : ∀ a s e, ((f a).run s).outcome ≠ .error e) : (io question >>= f).FailsClean := by
  intro s e h
  cases hq : question s.tree with
  | error e' =>
    have hrun : (io question).run s = ⟨.error (.io e'), s, []⟩ := by rw [io_run, hq]
    have herror : ((io question).run s).outcome = .error (.io e') := by rw [hrun]
    rw [bind_error herror, hrun]
  | ok a =>
    have hrun : (io question).run s = ⟨.ok a, s, []⟩ := by rw [io_run, hq]
    rw [bind_silent hrun] at h
    exact absurd h (hf a s e)

lemma make_failsClean (p : Path) (node : Node Bytes) : (E.make p node).FailsClean :=
  failsClean_io fun _ _ _ => nofun

lemma rename_failsClean (p q : Path) : (E.rename p q).FailsClean :=
  failsClean_io fun _ _ _ => nofun

lemma lift_failsClean (r : Except IpswError α) : (Proc.lift r : Staging α).FailsClean := by
  intro s e h
  cases r with
  | ok a => rfl
  | error e => rfl

lemma partialPath_append (p : Path) (c : String) : partialPath (p ++ [c]) = p ++ [c ++ ".part"] := by
  rw [partialPath, dropLast_concat, List.getLast?_concat]
  rfl

/-- The staged path of a sanitized name, split at its last component. -/
lemma stagedPath_eq {name : Name} (hname : Sanitized name) :
    E.stagedPath name = (E.root ++ name.dropLast) ++ [name.getLast hname.1] := by
  rw [stagedPath, append_assoc, dropLast_append_getLast]

end Setting

end AppleUtils.Ipsw
