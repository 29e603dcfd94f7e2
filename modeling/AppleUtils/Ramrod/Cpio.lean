import AppleUtils.Lib.Checks
import AppleUtils.Lib.Slices
import Mathlib.Data.List.TakeWhile
import Mathlib.Data.Nat.Digits.Lemmas

/-! # The cpio writer

`CpioWriter` appends members of a portable cpio archive to a sink: a header of 76 bytes with octal
fields, the path, a NUL and the body.  Paths and link targets are the bytes of the strings.  The sink
is a vector; a call that returns an error ends the archive, and what it left in the sink does not
matter here.

`parseArchive` reads an archive by the rules of the format.  `archive_round_trip_iff` compares the
two: an archive reads back as what was written exactly if no member has the path of the trailer. -/

namespace AppleUtils.Cpio

open Bytes Checks List

/-! ### Entries -/

/-- `"070707"`. -/
def CPIO_MAGIC : Bytes := [0x30, 0x37, 0x30, 0x37, 0x30, 0x37]

def CPIO_HEADER_BYTES : ℕ := 76

/-- `"TRAILER!!!"`. -/
def CPIO_TRAILER_PATH : Bytes := [0x54, 0x52, 0x41, 0x49, 0x4c, 0x45, 0x52, 0x21, 0x21, 0x21]

def MODE_TYPE_REGULAR : ℕ := 0x8000
def MODE_TYPE_DIRECTORY : ℕ := 0x4000
def MODE_TYPE_SYMLINK : ℕ := 0xa000
def COPY_BUFFER_BYTES : ℕ := 64 * 1024
def NARROW_FIELD : ℕ := 6
def WIDE_FIELD : ℕ := 11

inductive CpioFileType where
  | directory | regularFile | symlink
deriving DecidableEq

def CpioFileType.modeTypeBits : CpioFileType → ℕ
  | directory => MODE_TYPE_DIRECTORY
  | regularFile => MODE_TYPE_REGULAR
  | symlink => MODE_TYPE_SYMLINK

def CpioFileType.linkCount (_ : CpioFileType) : ℕ := 1

structure CpioFileMeta where
  (mode uid gid mtime : ℕ)
deriving DecidableEq

inductive CpioBody where
  | empty | linkTarget (target : Bytes) | contents (bytes : Bytes)

structure CpioEntry where
  path : Bytes
  fileType : CpioFileType
  (mode uid gid mtime : ℕ)
  body : CpioBody

/-! ### Errors -/

inductive CpioError where
  | fieldTooLarge (field : String) (value width : ℕ) | emptyPath | nulInPath (path : Bytes) (offset : ℕ)
  | nulInLinkTarget (path target : Bytes) (offset : ℕ) | modeOutsidePermissionMask (path : Bytes) (mode : ℕ)
  | bodyMismatch (path : Bytes) (fileType : CpioFileType)
  | sourceTooShort (path : Bytes) (expected copied : ℕ) | sourceTooLong (path : Bytes) (expected : ℕ) | io

inductive Stop where
  | refused (error : CpioError) | panic
  /-- A loop of the model has used up its turns. -/
  | unfinished

/-! ### Headers -/

/-- `format!("{value:o}")`, as digits. -/
def octalDigits (value : ℕ) : List ℕ := if value = 0 then [0] else (Nat.digits 8 value).reverse

def digitByte (d : ℕ) : Byte := BitVec.ofNat 8 (0x30 + d)

def pushOctal (header : Bytes) (field : String) (value width : ℕ) : Except Stop Bytes :=
  let digits := octalDigits value
  if width < digits.length then .error (.refused (.fieldTooLarge field value width))
  else .ok (header ++ List.replicate (width - digits.length) 0x30 ++ digits.map digitByte)

/-- The length of the path with its NUL. -/
def validatePath (path : Bytes) : Except Stop ℕ :=
  if path = [] then .error (.refused .emptyPath)
  else
    match path.findIdx? (· = 0) with
    | some offset => .error (.refused (.nulInPath path offset))
    | none => .ok (path.length + 1)

def buildHeader (path : Bytes) (ino : ℕ) (fileMeta : CpioFileMeta) (nlink filesize : ℕ) :
    Except Stop Bytes := do
  let namesize ← validatePath path
  let header ← pushOctal CPIO_MAGIC "dev" 0 NARROW_FIELD
  let header ← pushOctal header "ino" ino NARROW_FIELD
  let header ← pushOctal header "mode" fileMeta.mode NARROW_FIELD
  let header ← pushOctal header "uid" fileMeta.uid NARROW_FIELD
  let header ← pushOctal header "gid" fileMeta.gid NARROW_FIELD
  let header ← pushOctal header "nlink" nlink NARROW_FIELD
  let header ← pushOctal header "rdev" 0 NARROW_FIELD
  let header ← pushOctal header "mtime" fileMeta.mtime WIDE_FIELD
  let header ← pushOctal header "namesize" namesize NARROW_FIELD
  pushOctal header "filesize" filesize WIDE_FIELD

/-! ### The writer -/

structure CpioWriter where
  out : Bytes
  (bytesWritten entriesWritten nextInode : ℕ)

namespace CpioWriter

def new : CpioWriter := ⟨[], 0, 0, 1⟩

def emit (w : CpioWriter) (bytes : Bytes) : Except Stop CpioWriter :=
  if w.bytesWritten + bytes.length < 2 ^ 64 then
    .ok { w with out := w.out ++ bytes, bytesWritten := w.bytesWritten + bytes.length }
  else .error .panic

def writeMember (w : CpioWriter) (path : Bytes) (fileType : CpioFileType) (fileMeta : CpioFileMeta)
    (filesize : ℕ) : Except Stop CpioWriter := do
  -- `meta.mode & !MODE_PERMISSION_MASK != 0`
  failIf (fileMeta.mode / 2 ^ 12 ≠ 0) (.refused (.modeOutsidePermissionMask path fileMeta.mode))
  let header ← buildHeader path w.nextInode
    { fileMeta with mode := fileType.modeTypeBits ||| fileMeta.mode } fileType.linkCount filesize
  let w ← w.emit header
  let w ← w.emit path
  let w ← w.emit [0]
  return { w with nextInode := w.nextInode + 1, entriesWritten := w.entriesWritten + 1 }

def writeDirectory (w : CpioWriter) (path : Bytes) (fileMeta : CpioFileMeta) : Except Stop CpioWriter :=
  w.writeMember path .directory fileMeta 0

def writeSymlink (w : CpioWriter) (path target : Bytes) (fileMeta : CpioFileMeta) : Except Stop CpioWriter :=
  match target.findIdx? (· = 0) with
  | some offset => .error (.refused (.nulInLinkTarget path target offset))
  | none => do
    let w ← w.writeMember path .symlink fileMeta target.length
    w.emit target

end CpioWriter

/-- What a call of `read` gives. -/
inductive ReadEvent where
  | chunk (bytes : Bytes) | interrupted | failed

/-- A reader: what its calls give in turn, and then the end.  A chunk longer than the buffer is handed
out in pieces. -/
abbrev Source := List ReadEvent

variable {source rest : Source} {calls : List Call} {value : ℕ} {w : CpioWriter}

namespace Source

def read (want : ℕ) : Source → ReadEvent × Source
  | [] => (.chunk [], [])
  | .chunk bytes :: rest =>
    if bytes.length ≤ want then (.chunk bytes, rest)
    else (.chunk (bytes.take want), .chunk (bytes.drop want) :: rest)
  | event :: rest => (event, rest)

/-- What a reader gives up to its end. -/
def contents : Source → Bytes
  | .chunk [] :: _ => []
  | .chunk (b :: bytes) :: rest => b :: bytes ++ contents rest
  | .interrupted :: rest => contents rest
  | _ => []

end Source

namespace CpioWriter

/-- The loop over `remaining`. -/
def copySource (path : Bytes) (len : ℕ) :
    ℕ → Source → ℕ → CpioWriter → Except Stop (Source × CpioWriter)
  | _, source, 0, w => .ok (source, w)
  | 0, _, _ + 1, _ => .error .unfinished
  | turns + 1, source, remaining + 1, w =>
    match source.read (min (remaining + 1) COPY_BUFFER_BYTES) with
    | (.chunk [], _) =>
      .error (.refused (.sourceTooShort path len (len - (remaining + 1))))
    | (.chunk (b :: bytes), rest) => do
      let w ← w.emit (b :: bytes)
      copySource path len turns rest (remaining + 1 - (bytes.length + 1)) w
    | (.interrupted, rest) => copySource path len turns rest (remaining + 1) w
    | (.failed, _) => .error (.refused .io)

/-- The loop after it, which reads one byte too many. -/
def checkOverrun (path : Bytes) (len : ℕ) : Source → Except Stop Unit
  | [] => .ok ()
  | .chunk [] :: _ => .ok ()
  | .chunk (_ :: _) :: _ => .error (.refused (.sourceTooLong path len))
  | .interrupted :: rest => checkOverrun path len rest
  | .failed :: _ => .error (.refused .io)

def writeFile (w : CpioWriter) (path : Bytes) (len : ℕ) (data : Source) (fileMeta : CpioFileMeta) :
    Except Stop CpioWriter := do
  let w ← w.writeMember path .regularFile fileMeta len
  -- every turn takes an event of the reader or shortens what remains
  let (rest, w) ← copySource path len (data.length + len) data len w
  checkOverrun path len rest
  return w

def writeEntry (w : CpioWriter) (entry : CpioEntry) : Except Stop CpioWriter :=
  let fileMeta : CpioFileMeta := ⟨entry.mode, entry.uid, entry.gid, entry.mtime⟩
  match entry.fileType, entry.body with
  | .directory, .empty => w.writeDirectory entry.path fileMeta
  | .symlink, .linkTarget target => w.writeSymlink entry.path target fileMeta
  | .regularFile, .contents bytes => w.writeFile entry.path bytes.length [.chunk bytes] fileMeta
  | fileType, _ => .error (.refused (.bodyMismatch entry.path fileType))

def finish (w : CpioWriter) : Except Stop CpioWriter := do
  let header ← buildHeader CPIO_TRAILER_PATH 0 ⟨0, 0, 0, 0⟩ 1 0
  let w ← w.emit header
  let w ← w.emit CPIO_TRAILER_PATH
  w.emit [0]

end CpioWriter

/-- A call on the writer. -/
inductive Call where
  | directory (path : Bytes) (fileMeta : CpioFileMeta)
  | symlink (path target : Bytes) (fileMeta : CpioFileMeta)
  | file (path : Bytes) (len : ℕ) (data : Source) (fileMeta : CpioFileMeta) | entry (entry : CpioEntry)

def Call.write (w : CpioWriter) : Call → Except Stop CpioWriter
  | directory path fileMeta => w.writeDirectory path fileMeta
  | symlink path target fileMeta => w.writeSymlink path target fileMeta
  | file path len data fileMeta => w.writeFile path len data fileMeta
  | entry e => w.writeEntry e

/-- A fresh writer, the calls in order, and `finish`. -/
def archive (calls : List Call) : Except Stop CpioWriter := do
  let w ← calls.foldlM Call.write .new
  w.finish

/-! ### The format -/

structure ParsedEntry where
  path : Bytes
  (ino mode uid gid nlink mtime : ℕ)
  body : Bytes

variable {ms : List (Bytes × ParsedEntry)}

def parseOctal (field : Bytes) : Option ℕ :=
  field.foldlM (fun n b => if 0x30 ≤ b.toNat ∧ b.toNat < 0x38 then some (n * 8 + (b.toNat - 0x30)) else none)
    0

/-- The member at the start, and what follows it. -/
def parseMember (bytes : Bytes) : Option (ParsedEntry × Bytes) := do
  guard (CPIO_HEADER_BYTES ≤ bytes.length)
  guard (bytes.slice 0 6 = CPIO_MAGIC)
  guard ((← parseOctal (bytes.slice 6 6)) = 0)
  guard ((← parseOctal (bytes.slice 42 6)) = 0)
  let ino ← parseOctal (bytes.slice 12 6)
  let mode ← parseOctal (bytes.slice 18 6)
  let uid ← parseOctal (bytes.slice 24 6)
  let gid ← parseOctal (bytes.slice 30 6)
  let nlink ← parseOctal (bytes.slice 36 6)
  let mtime ← parseOctal (bytes.slice 48 11)
  let namesize ← parseOctal (bytes.slice 59 6)
  let filesize ← parseOctal (bytes.slice 65 11)
  let rest : Bytes := bytes.drop CPIO_HEADER_BYTES
  guard (1 ≤ namesize ∧ namesize + filesize ≤ rest.length)
  guard (rest[namesize - 1]? = some 0)
  let body := rest.slice namesize filesize
  return (⟨rest.take (namesize - 1), ino, mode, uid, gid, nlink, mtime, body⟩, rest.drop (namesize + filesize))

/-- The members before the first one that has the trailer's path. -/
def parseMembers : ℕ → Bytes → Option (List ParsedEntry)
  | 0, _ => none
  | turns + 1, bytes => do
    let (entry, rest) ← parseMember bytes
    if entry.path = CPIO_TRAILER_PATH then some []
    else return entry :: (← parseMembers turns rest)

/-- A member is not empty, so an archive has fewer members than bytes. -/
def parseArchive (bytes : Bytes) : Option (List ParsedEntry) := parseMembers (bytes.length + 1) bytes

/-- What a member of an archive stands for. -/
structure Member where
  path : Bytes
  fileType : CpioFileType
  (mode uid gid mtime : ℕ)
  body : Bytes
deriving DecidableEq

/-- The type in a mode word. -/
def fileTypeOf (mode : ℕ) : Option CpioFileType :=
  if mode / 2 ^ 12 = 0x4 then some .directory
  else if mode / 2 ^ 12 = 0x8 then some .regularFile
  else if mode / 2 ^ 12 = 0xa then some .symlink
  else none

def ParsedEntry.member (e : ParsedEntry) : Option Member :=
  (fileTypeOf e.mode).map fun fileType =>
    ⟨e.path, fileType, e.mode % 2 ^ 12, e.uid, e.gid, e.mtime, e.body⟩

def CpioBody.bytes : CpioBody → Bytes
  | empty => []
  | linkTarget target => target
  | contents bytes => bytes

/-- The member that a call lists. -/
def Call.member : Call → Member
  | directory path m => ⟨path, .directory, m.mode, m.uid, m.gid, m.mtime, []⟩
  | symlink path target m => ⟨path, .symlink, m.mode, m.uid, m.gid, m.mtime, target⟩
  | file path _ data m => ⟨path, .regularFile, m.mode, m.uid, m.gid, m.mtime, data.contents⟩
  | entry e => ⟨e.path, e.fileType, e.mode, e.uid, e.gid, e.mtime, e.body.bytes⟩

/-! ### Octal fields -/

lemma foldl_digits (ds : List ℕ) (n : ℕ) :
    ds.foldl (fun n d => n * 8 + d) n = n * 8 ^ ds.length + Nat.ofDigits 8 ds.reverse := by
  induction ds generalizing n with
  | nil => simp
  | cons d ds ih =>
    rw [foldl_cons, ih, reverse_cons, Nat.ofDigits_append, length_reverse, length_cons, Nat.ofDigits_singleton]
    ring

lemma parseOctal_digits {ds : List ℕ} (h : ∀ d ∈ ds, d < 8) :
    parseOctal (ds.map digitByte) = some (Nat.ofDigits 8 ds.reverse) := by
  suffices ∀ n, (ds.map digitByte).foldlM (fun n b =>
      if 0x30 ≤ b.toNat ∧ b.toNat < 0x38 then some (n * 8 + (b.toNat - 0x30)) else none) n =
      some (ds.foldl (fun n d => n * 8 + d) n) by
    rw [parseOctal, this 0, foldl_digits, zero_mul, zero_add]
  induction ds with
  | nil => exact fun _ => rfl
  | cons d ds ih =>
    intro n
    have hd : d < 8 := h d mem_cons_self
    have hbyte : (digitByte d).toNat = 0x30 + d := by
      rw [digitByte, BitVec.toNat_ofNat]
      omega
    rw [map_cons, foldlM_cons, hbyte, if_pos (by omega), Nat.add_sub_cancel_left]
    exact ih (fun d' h' => h d' (mem_cons_of_mem _ h')) (n * 8 + d)

lemma octalDigits_lt : ∀ d ∈ octalDigits value, d < 8 := by
  intro d hd
  unfold octalDigits at hd
  split at hd
  · simp at hd
    omega
  · exact Nat.digits_lt_base (by decide) (mem_reverse.mp hd)

lemma ofDigits_octalDigits (value : ℕ) : Nat.ofDigits 8 (octalDigits value).reverse = value := by
  unfold octalDigits
  split
  · simp [*]
  · rw [reverse_reverse, Nat.ofDigits_digits]

/-- A field that was pushed has its width and reads back. -/
lemma pushOctal_ok {header header' : Bytes} {field : String} {width : ℕ}
    (h : pushOctal header field value width = .ok header') :
    ∃ digits : Bytes, header' = header ++ digits ∧ digits.length = width ∧ parseOctal digits = some value := by
  unfold pushOctal at h
  simp only at h
  split at h
  · cases h
  · rename_i hle
    cases h
    have hzeros : List.replicate (width - (octalDigits value).length) (0x30 : Byte) =
        (List.replicate (width - (octalDigits value).length) 0).map digitByte := by
      rw [map_replicate]
      rfl
    refine ⟨_, append_assoc _ _ _, ?_, ?_⟩
    · rw [length_append, length_replicate, length_map]
      omega
    · rw [hzeros, ← map_append, parseOctal_digits]
      · rw [reverse_append, Nat.ofDigits_append, ofDigits_octalDigits, reverse_replicate]
        have : Nat.ofDigits 8 (List.replicate (width - (octalDigits value).length) 0) = 0 := by
          simp [Nat.ofDigits_replicate_zero]
        rw [this, mul_zero, add_zero]
      · intro d hd
        rcases mem_append.mp hd with h | h
        · rw [(mem_replicate.mp h).2]
          decide
        · exact octalDigits_lt d h

/-! ### Members -/

section Members

variable {path body rest header : Bytes} {ino nlink filesize : ℕ} {fileMeta : CpioFileMeta}

/-- The field at the front is cut off, and the next one is found behind it. -/
lemma cut {b x y : Bytes} {i n : ℕ} (j : ℕ) (hb : b.drop i = x ++ y) (hx : x.length = n) (hj : i + n = j) :
    b.slice i n = x ∧ b.drop j = y := by
  constructor
  · rw [slice, hb, take_left' hx]
  · rw [← hj, ← drop_drop, hb, drop_left' hx]

lemma parseMember_header (h : buildHeader path ino fileMeta nlink filesize = .ok header)
    (hbody : body.length = filesize) : parseMember (header ++ (path ++ 0 :: (body ++ rest))) =
      some (⟨path, ino, fileMeta.mode, fileMeta.uid, fileMeta.gid, nlink, fileMeta.mtime, body⟩, rest) := by
  simp only [buildHeader, bind_eq_ok] at h
  obtain ⟨namesize, hname, _, h1, _, h2, _, h3, _, h4, _, h5, _, h6, _, h7, _, h8, _, h9, h10⟩ := h
  obtain ⟨dev, rfl, ldev, pdev⟩ := pushOctal_ok h1
  obtain ⟨ino', rfl, lino, pino⟩ := pushOctal_ok h2
  obtain ⟨mode, rfl, lmode, pmode⟩ := pushOctal_ok h3
  obtain ⟨uid, rfl, luid, puid⟩ := pushOctal_ok h4
  obtain ⟨gid, rfl, lgid, pgid⟩ := pushOctal_ok h5
  obtain ⟨nlink', rfl, lnlink, pnlink⟩ := pushOctal_ok h6
  obtain ⟨rdev, rfl, lrdev, prdev⟩ := pushOctal_ok h7
  obtain ⟨mtime, rfl, lmtime, pmtime⟩ := pushOctal_ok h8
  obtain ⟨namesize', rfl, lname, pname⟩ := pushOctal_ok h9
  obtain ⟨filesize', rfl, lfile, pfile⟩ := pushOctal_ok h10
  have hnamesize : namesize = path.length + 1 := by
    unfold validatePath at hname
    split at hname
    · cases hname
    · split at hname <;> cases hname
      rfl
  simp only [append_assoc]
  simp only [NARROW_FIELD, WIDE_FIELD] at ldev lino lmode luid lgid lnlink lrdev lmtime lname lfile
  generalize htail : path ++ 0 :: (body ++ rest) = tail
  generalize hall : CPIO_MAGIC ++ (dev ++ (ino' ++ (mode ++ (uid ++ (gid ++ (nlink' ++ (rdev ++
    (mtime ++ (namesize' ++ (filesize' ++ tail)))))))))) = bytes
  obtain ⟨smagic, h⟩ := cut (n := 6) 6 (drop_zero.trans hall.symm) rfl rfl
  obtain ⟨sdev, h⟩ := cut 12 h ldev rfl
  obtain ⟨sino, h⟩ := cut 18 h lino rfl
  obtain ⟨smode, h⟩ := cut 24 h lmode rfl
  obtain ⟨suid, h⟩ := cut 30 h luid rfl
  obtain ⟨sgid, h⟩ := cut 36 h lgid rfl
  obtain ⟨snlink, h⟩ := cut 42 h lnlink rfl
  obtain ⟨srdev, h⟩ := cut 48 h lrdev rfl
  obtain ⟨smtime, h⟩ := cut 59 h lmtime rfl
  obtain ⟨snamesize, h⟩ := cut 65 h lname rfl
  obtain ⟨sfilesize, htail'⟩ := cut CPIO_HEADER_BYTES h lfile rfl
  have hpath : tail.take path.length = path := by rw [← htail, take_left]
  have hnul : tail[path.length]? = some 0 := by
    rw [← htail, List.getElem?_append_right le_rfl, Nat.sub_self]
    rfl
  have hafter : tail.drop (path.length + 1) = body ++ rest := by
    rw [← htail, ← drop_drop, drop_left]
    rfl
  have hroom : path.length + 1 + filesize ≤ tail.length := by
    rw [← htail, length_append, length_cons, length_append]
    omega
  have hbody' : tail.slice (path.length + 1) filesize = body := by rw [slice, hafter, ← hbody, take_left]
  have hrest : tail.drop (path.length + 1 + filesize) = rest := by
    rw [← drop_drop, hafter, ← hbody, drop_left]
  have hlen : CPIO_HEADER_BYTES ≤ bytes.length := by
    have := congrArg length htail'
    rw [length_drop] at this
    omega
  simp [parseMember, guard, hlen, htail', smagic, sdev, sino, smode, suid, sgid, snlink, srdev, smtime,
    snamesize, sfilesize, pdev, pino, pmode, puid, pgid, pnlink, prdev, pmtime, pname, pfile, hnamesize,
    hpath, hnul, hroom, hbody', hrest]

lemma modeTypeBits_or {fileType : CpioFileType} {mode : ℕ} (h : mode < 2 ^ 12) :
    fileTypeOf (fileType.modeTypeBits ||| mode) = some fileType ∧
      (fileType.modeTypeBits ||| mode) % 2 ^ 12 = mode := by
  have hbits : fileType.modeTypeBits ||| mode = fileType.modeTypeBits + mode := by
    have hor (k : ℕ) : 2 ^ 12 * k ||| mode = 2 ^ 12 * k + mode :=
      (Nat.two_pow_add_eq_or_of_lt h k).symm
    cases fileType with
    | directory => exact hor 4
    | regularFile => exact hor 8
    | symlink => exact hor 10
  rw [hbits]
  refine ⟨?_, ?_⟩
  · unfold fileTypeOf
    cases fileType with
    | directory =>
      change (if (0x4000 + mode) / 2 ^ 12 = 0x4 then _ else _) = _
      rw [if_pos (by omega)]
    | regularFile =>
      change (if (0x8000 + mode) / 2 ^ 12 = 0x4 then _ else if (0x8000 + mode) / 2 ^ 12 = 0x8 then _ else _) = _
      rw [if_neg (by omega), if_pos (by omega)]
    | symlink =>
      change (if (0xa000 + mode) / 2 ^ 12 = 0x4 then _ else if (0xa000 + mode) / 2 ^ 12 = 0x8 then _ else
        if (0xa000 + mode) / 2 ^ 12 = 0xa then _ else _) = _
      rw [if_neg (by omega), if_neg (by omega), if_pos (by omega)]
  · cases fileType <;> simp only [CpioFileType.modeTypeBits, MODE_TYPE_DIRECTORY, MODE_TYPE_REGULAR,
      MODE_TYPE_SYMLINK] <;> omega

end Members

/-! ### Calls -/

section Calls

variable {w' : CpioWriter} {path : Bytes} {fileType : CpioFileType} {fileMeta : CpioFileMeta}
    {bytes : Bytes} {want : ℕ} {len : ℕ}

/-- The writer went on by `bytes`. -/
structure Appended (w w' : CpioWriter) (bytes : Bytes) : Prop where
  out : w'.out = w.out ++ bytes
  bytesWritten : w'.bytesWritten = w.bytesWritten + bytes.length

lemma Appended.trans {w'' : CpioWriter} {bytes' : Bytes} (h : Appended w w' bytes)
    (h' : Appended w' w'' bytes') : Appended w w'' (bytes ++ bytes') where
  out := by rw [h'.out, h.out, append_assoc]
  bytesWritten := by rw [h'.bytesWritten, h.bytesWritten, length_append, add_assoc]

lemma emit_ok (h : w.emit bytes = .ok w') : Appended w w' bytes ∧ w'.nextInode = w.nextInode := by
  unfold CpioWriter.emit at h
  split at h
  · cases h
    exact ⟨⟨rfl, rfl⟩, rfl⟩
  · cases h

/-- The bytes of a member, which read back as the entry. -/
structure Encodes (bytes : Bytes) (entry : ParsedEntry) : Prop where
  parse : ∀ rest, parseMember (bytes ++ rest) = some (entry, rest)

lemma Encodes.ne_nil {entry : ParsedEntry} (h : Encodes bytes entry) : bytes ≠ [] := by
  rintro rfl
  exact absurd (h.parse []) (by simp [parseMember, guard, CPIO_HEADER_BYTES])

/-- What `write_member` leaves out of an entry is its body. -/
lemma writeMember_ok {filesize : ℕ} (h : w.writeMember path fileType fileMeta filesize = .ok w') :
    ∃ front, Appended w w' front ∧ w'.nextInode = w.nextInode + 1 ∧
      ∀ body : Bytes, body.length = filesize → ∃ entry, Encodes (front ++ body) entry ∧
        entry.ino = w.nextInode ∧ entry.path = path ∧
        entry.member = some ⟨path, fileType, fileMeta.mode, fileMeta.uid, fileMeta.gid, fileMeta.mtime, body⟩ := by
  simp only [CpioWriter.writeMember, returns] at h
  obtain ⟨_, hmode, header, hheader, w₁, h₁, w₂, h₂, w₃, h₃, rfl⟩ := h
  obtain ⟨a₁, i₁⟩ := emit_ok h₁
  obtain ⟨a₂, i₂⟩ := emit_ok h₂
  obtain ⟨a₃, i₃⟩ := emit_ok h₃
  have a := (a₁.trans a₂).trans a₃
  refine ⟨header ++ path ++ [0], ⟨a.out, a.bytesWritten⟩, ?_, ?_⟩
  · change w₃.nextInode + 1 = _
    rw [i₃, i₂, i₁]
  · intro body hbody
    refine ⟨⟨path, w.nextInode, fileType.modeTypeBits ||| fileMeta.mode, fileMeta.uid, fileMeta.gid,
      fileType.linkCount, fileMeta.mtime, body⟩, ⟨fun rest => ?_⟩, rfl, rfl, ?_⟩
    · have := @parseMember_header _ _ rest _ _ _ _ _ hheader hbody
      simp only [append_assoc, singleton_append]
      exact this
    · obtain ⟨htype, hperm⟩ := @modeTypeBits_or fileType fileMeta.mode
        (by simp only [ne_eq, Nat.div_eq_zero_iff, not_not] at hmode; omega)
      simp only [ParsedEntry.member, htype, hperm, Option.map_some]

lemma read_chunk {b : Byte} (hwant : 0 < want) (h : source.read want = (.chunk (b :: bytes), rest)) :
    source.contents = b :: bytes ++ rest.contents ∧ bytes.length + 1 ≤ want := by
  match source with
  | [] => cases h
  | .interrupted :: _ => cases h
  | .failed :: _ => cases h
  | .chunk [] :: _ =>
    rw [Source.read, take_nil] at h
    split at h <;> cases h
  | .chunk (c :: chunk) :: source =>
    rw [Source.read] at h
    split at h
    · cases h
      exact ⟨rfl, by assumption⟩
    · rename_i hlong
      obtain ⟨want, rfl⟩ : ∃ k, want = k + 1 := ⟨want - 1, by omega⟩
      rw [take_succ_cons, drop_succ_cons] at h
      cases h
      rw [length_cons] at hlong
      have hdrop : chunk.drop want ≠ [] := by
        rw [ne_eq, drop_eq_nil_iff]
        omega
      obtain ⟨d, ds, hd⟩ := exists_cons_of_ne_nil hdrop
      refine ⟨?_, ?_⟩
      · rw [hd, Source.contents, Source.contents, ← hd, ← append_assoc, cons_append,
          cons_append, take_append_drop, cons_append]
      · rw [length_take]
        omega

lemma read_interrupted (h : source.read want = (.interrupted, rest)) : source.contents = rest.contents := by
  match source with
  | [] => cases h
  | .interrupted :: _ =>
    cases h
    rfl
  | .failed :: _ => cases h
  | .chunk bytes :: _ =>
    rw [Source.read] at h
    split at h <;> cases h

lemma copySource_ok {turns remaining : ℕ}
    (h : CpioWriter.copySource path len turns source remaining w = .ok (rest, w')) :
    ∃ data, Appended w w' data ∧ w'.nextInode = w.nextInode ∧ data.length = remaining ∧
      source.contents = data ++ rest.contents := by
  induction turns generalizing source remaining w with
  | zero =>
    cases remaining with
    | zero =>
      cases h
      exact ⟨[], ⟨(append_nil _).symm, rfl⟩, rfl, rfl, rfl⟩
    | succ remaining => cases h
  | succ turns ih =>
    cases remaining with
    | zero =>
      cases h
      exact ⟨[], ⟨(append_nil _).symm, rfl⟩, rfl, rfl, rfl⟩
    | succ remaining =>
      rw [CpioWriter.copySource] at h
      split at h
      · cases h
      · rename_i b bytes rest' hread
        obtain ⟨w₁, h₁, h₂⟩ := bind_eq_ok.mp h
        obtain ⟨a₁, i₁⟩ := emit_ok h₁
        obtain ⟨data, a₂, i₂, hlen, hcontents⟩ := ih h₂
        obtain ⟨hsource, hshort⟩ := read_chunk (by simp [COPY_BUFFER_BYTES]) hread
        refine ⟨b :: bytes ++ data, a₁.trans a₂, i₂.trans i₁, ?_, ?_⟩
        · have := le_trans hshort (min_le_left _ _)
          rw [length_append, length_cons, hlen]
          omega
        · rw [hsource, hcontents, append_assoc]
      · rename_i rest' hread
        rw [read_interrupted hread]
        exact ih h
      · cases h

lemma checkOverrun_ok {u : Unit}
    (h : CpioWriter.checkOverrun path len source = .ok u) : source.contents = [] := by
  induction source with
  | nil => rfl
  | cons event source ih =>
    match event with
    | .chunk [] => rfl
    | .chunk (b :: bytes) => cases h
    | .interrupted => exact ih h
    | .failed => cases h

/-- What a call that returns has done. -/
structure Wrote (w w' : CpioWriter) (member : Member) (bytes : Bytes) (entry : ParsedEntry) : Prop where
  appended : Appended w w' bytes
  nextInode : w'.nextInode = w.nextInode + 1
  encodes : Encodes bytes entry
  ino : entry.ino = w.nextInode
  path : entry.path = member.path
  member : entry.member = some member

lemma writeDirectory_ok (h : w.writeDirectory path fileMeta = .ok w') :
    ∃ bytes entry, Wrote w w' (Call.directory path fileMeta).member bytes entry := by
  obtain ⟨front, ha, hi, hbody⟩ := writeMember_ok h
  obtain ⟨entry, henc, hino, hpath, hmember⟩ := hbody [] rfl
  rw [append_nil] at henc
  exact ⟨front, entry, ha, hi, henc, hino, hpath, hmember⟩

lemma writeSymlink_ok {target : Bytes} (h : w.writeSymlink path target fileMeta = .ok w') :
    ∃ bytes entry, Wrote w w' (Call.symlink path target fileMeta).member bytes entry := by
  unfold CpioWriter.writeSymlink at h
  split at h
  · cases h
  · obtain ⟨w₁, h₁, h₂⟩ := bind_eq_ok.mp h
    obtain ⟨front, ha, hi, hbody⟩ := writeMember_ok h₁
    obtain ⟨entry, henc, hino, hpath, hmember⟩ := hbody target rfl
    obtain ⟨a₂, i₂⟩ := emit_ok h₂
    exact ⟨front ++ target, entry, ha.trans a₂, i₂.trans hi, henc, hino, hpath, hmember⟩

lemma writeFile_ok {data : Source} (h : w.writeFile path len data fileMeta = .ok w') :
    ∃ bytes entry, Wrote w w' (Call.file path len data fileMeta).member bytes entry := by
  simp only [CpioWriter.writeFile, returns] at h
  obtain ⟨w₁, h₁, ⟨rest, w₂⟩, h₂, _, h₃, rfl⟩ := h
  obtain ⟨front, ha, hi, hbody⟩ := writeMember_ok h₁
  obtain ⟨bytes, a₂, i₂, hlen, hcontents⟩ := copySource_ok h₂
  rw [checkOverrun_ok h₃, append_nil] at hcontents
  obtain ⟨entry, henc, hino, hpath, hmember⟩ := hbody bytes hlen
  rw [← hcontents] at hmember
  exact ⟨front ++ bytes, entry, ha.trans a₂, i₂.trans hi, henc, hino, hpath, hmember⟩

lemma write_ok {c : Call} (h : c.write w = .ok w') : ∃ bytes entry, Wrote w w' c.member bytes entry := by
  cases c with
  | directory path m => exact writeDirectory_ok h
  | symlink path target m => exact writeSymlink_ok h
  | file path len data m => exact writeFile_ok h
  | entry e =>
    obtain ⟨path, fileType, mode, uid, gid, mtime, body⟩ := e
    cases fileType <;> cases body <;> try cases h
    · exact writeDirectory_ok h
    · rename_i bytes
      have hcontents : Source.contents [.chunk bytes] = bytes := by
        cases bytes with
        | nil => rfl
        | cons b bytes => exact append_nil _
      have hwrote := writeFile_ok h
      simp only [Call.member, hcontents] at hwrote
      exact hwrote
    · exact writeSymlink_ok h

end Calls

/-! ### Archives -/

/-- Members read in turn, up to the trailer. -/
lemma parseMembers_flatten (h : ∀ m ∈ ms, Encodes m.1 m.2)
    {trailer : Bytes} {last : ParsedEntry} (htrailer : Encodes trailer last)
    (hlast : last.path = CPIO_TRAILER_PATH) {turns : ℕ} (hturns : ms.length < turns) :
    parseMembers turns ((ms.map Prod.fst).flatten ++ trailer) =
      some ((ms.map Prod.snd).takeWhile (·.path ≠ CPIO_TRAILER_PATH)) := by
  induction ms generalizing turns with
  | nil =>
    obtain ⟨turns, rfl⟩ : ∃ k, turns = k + 1 := ⟨turns - 1, by simp at hturns; omega⟩
    have hparse := htrailer.parse []
    rw [append_nil] at hparse
    simp [parseMembers, hparse, hlast]
  | cons m ms ih =>
    obtain ⟨turns, rfl⟩ : ∃ k, turns = k + 1 := ⟨turns - 1, by omega⟩
    have hparse := (h m mem_cons_self).parse ((ms.map Prod.fst).flatten ++ trailer)
    have ih := ih (fun m' h' => h m' (mem_cons_of_mem _ h'))
      (show _ < turns by rw [length_cons] at hturns; omega)
    rw [map_cons, flatten_cons, append_assoc, parseMembers, hparse]
    simp only [map_cons, takeWhile_cons, decide_eq_true_eq]
    by_cases hpath : m.2.path = CPIO_TRAILER_PATH
    · simp [hpath]
    · simp [hpath, ih]

/-- Where the calls so far have taken the writer. -/
structure Archived (calls : List Call) (w : CpioWriter) (ms : List (Bytes × ParsedEntry)) : Prop where
  encodes : ∀ m ∈ ms, Encodes m.1 m.2
  out : w.out = (ms.map Prod.fst).flatten
  bytesWritten : w.bytesWritten = w.out.length
  nextInode : w.nextInode = ms.length + 1
  ino : ms.map (·.2.ino) = (List.range ms.length).map (· + 1)
  path : ms.map (·.2.path) = calls.map (·.member.path)
  member : ms.map (·.2.member) = calls.map (some ·.member)

lemma Archived.write {w' : CpioWriter}
    (h : Archived calls w ms) {c : Call} (hc : c.write w = .ok w') : ∃ ms', Archived (calls ++ [c]) w' ms' := by
  obtain ⟨bytes, entry, happ, hnext, henc, hino, hpath, hmember⟩ := write_ok hc
  refine ⟨ms ++ [(bytes, entry)], ?_, ?_, ?_, ?_, ?_, ?_, ?_⟩
  · intro m hm
    rcases mem_append.mp hm with hm | hm
    · exact h.encodes m hm
    · rw [mem_singleton.mp hm]
      exact henc
  · rw [happ.out, h.out]
    simp
  · rw [happ.bytesWritten, happ.out, h.bytesWritten, length_append]
  · rw [hnext, h.nextInode, length_append, length_singleton]
  · rw [length_append, length_singleton, range_succ, map_append, map_append, h.ino]
    simp [hino, h.nextInode]
  · rw [map_append, map_append, h.path]
    simp [hpath]
  · rw [map_append, map_append, h.member]
    simp [hmember]

lemma archive_ok (h : archive calls = .ok w) :
    ∃ w₀ ms trailer last, Archived calls w₀ ms ∧ Appended w₀ w trailer ∧ Encodes trailer last ∧
      last.path = CPIO_TRAILER_PATH := by
  obtain ⟨w₀, hcalls, hfinish⟩ := bind_eq_ok.mp h
  have hstart : Archived [] .new [] := ⟨nofun, rfl, rfl, rfl, rfl, rfl, rfl⟩
  obtain ⟨ms, hms⟩ := foldlM_ok (I := fun done w => ∃ ms, Archived done w ms)
    (fun done c w w' hI hc => hI.elim fun ms hms => hms.write hc) ⟨[], hstart⟩ hcalls
  simp only [CpioWriter.finish, bind_eq_ok] at hfinish
  obtain ⟨header, hheader, w₁, h₁, w₂, h₂, h₃⟩ := hfinish
  have happ := ((emit_ok h₁).1.trans (emit_ok h₂).1).trans (emit_ok h₃).1
  refine ⟨w₀, ms, _, ⟨CPIO_TRAILER_PATH, 0, 0, 0, 0, 1, 0, []⟩, hms, happ, ⟨fun rest => ?_⟩, rfl⟩
  have := @parseMember_header _ [] rest _ _ _ _ _ hheader rfl
  simp only [append_assoc, singleton_append]
  exact this

lemma length_le_flatten (h : ∀ m ∈ ms, Encodes m.1 m.2) : ms.length ≤ (ms.map Prod.fst).flatten.length := by
  induction ms with
  | nil => exact le_rfl
  | cons m ms ih =>
    have hpos := length_pos_iff.mpr (h m mem_cons_self).ne_nil
    have := ih fun m' h' => h m' (mem_cons_of_mem _ h')
    rw [map_cons, flatten_cons, length_append, length_cons]
    omega

/-- An archive reads back as the calls listed it, with an inode number for each, exactly if no member
has the path of the trailer. -/
theorem archive_round_trip_iff (calls : List Call) (w : CpioWriter) (h : archive calls = .ok w) :
    ((∃ parsed, parseArchive w.out = some parsed ∧ parsed.map ParsedEntry.member = calls.map (some ·.member) ∧
        (parsed.map ParsedEntry.ino).Nodup) ∧ w.bytesWritten = w.out.length) ↔
    ∀ c ∈ calls, c.member.path ≠ CPIO_TRAILER_PATH := by
  obtain ⟨w₀, ms, trailer, last, hms, happ, htrailer, hlast⟩ := archive_ok h
  have hparse : parseArchive w.out = some ((ms.map Prod.snd).takeWhile (·.path ≠ CPIO_TRAILER_PATH)) := by
    rw [parseArchive, happ.out, hms.out]
    refine parseMembers_flatten hms.encodes htrailer hlast ?_
    have := length_le_flatten hms.encodes
    rw [length_append]
    omega
  have hpaths : (∀ c ∈ calls, c.member.path ≠ CPIO_TRAILER_PATH) ↔
      ∀ e ∈ ms.map Prod.snd, e.path ≠ CPIO_TRAILER_PATH := by
    have : (∀ p ∈ calls.map (·.member.path), p ≠ CPIO_TRAILER_PATH) ↔
        ∀ p ∈ ms.map (·.2.path), p ≠ CPIO_TRAILER_PATH := by rw [hms.path]
    simpa only [forall_mem_map] using this
  have hbytes : w.bytesWritten = w.out.length := by
    rw [happ.bytesWritten, happ.out, hms.bytesWritten, length_append]
  rw [hpaths, and_iff_left hbytes]
  constructor
  · rintro ⟨parsed, hparsed, hmember, -⟩
    -- a shorter list of members cannot be the list of the calls
    cases hparse.symm.trans hparsed
    have hlen := congrArg List.length hmember
    have hall := congrArg List.length hms.member
    rw [length_map, length_map] at hlen hall
    have hwhole := (List.takeWhile_prefix (·.path ≠ CPIO_TRAILER_PATH) (l := ms.map Prod.snd)).eq_of_length
      (by rw [hlen, length_map, hall])
    intro e he
    exact of_decide_eq_true (takeWhile_eq_self_iff.mp hwhole e he)
  · intro hno
    have hwhole : (ms.map Prod.snd).takeWhile (·.path ≠ CPIO_TRAILER_PATH) = ms.map Prod.snd :=
      takeWhile_eq_self_iff.mpr fun e he => decide_eq_true (hno e he)
    refine ⟨ms.map Prod.snd, by rw [hparse, hwhole], ?_, ?_⟩
    · rw [map_map]
      exact hms.member
    · rw [map_map]
      refine Eq.mpr (congrArg List.Nodup hms.ino) ?_
      exact nodup_range.map (add_left_injective 1)

/-- A directory, a file and a link. -/
def sampleCalls : List Call :=
  [.directory [0x64] ⟨0o755, 0, 0, 0⟩, .file [0x66] 2 [.chunk [1], .chunk [2]] ⟨0o644, 0, 0, 7⟩,
    .symlink [0x6c] [0x64] ⟨0o777, 0, 0, 0⟩]

theorem archive_round_trip_sample : ∃ w, archive sampleCalls = .ok w ∧ ∃ parsed, parseArchive w.out = some parsed ∧
    parsed.map ParsedEntry.member = sampleCalls.map (some ·.member) := by
  have hok : ∃ w, archive sampleCalls = .ok w := ⟨_, rfl⟩
  obtain ⟨w, hw⟩ := hok
  obtain ⟨⟨parsed, hparsed, hmember, -⟩, -⟩ := (archive_round_trip_iff _ w hw).mpr (by decide)
  exact ⟨w, hw, parsed, hparsed, hmember⟩

/-- A directory with the trailer's name ends the archive for its reader. -/
theorem trailer_path_accepted : ∃ w, archive [.directory CPIO_TRAILER_PATH ⟨0o755, 0, 0, 0⟩] = .ok w ∧
    ¬ ∃ parsed, parseArchive w.out = some parsed ∧ parsed.map ParsedEntry.member =
      [some (Call.directory CPIO_TRAILER_PATH ⟨0o755, 0, 0, 0⟩).member] := by
  have hread : (archive [.directory CPIO_TRAILER_PATH ⟨0o755, 0, 0, 0⟩]).toOption.map
      (fun w => (parseArchive w.out).map List.length) = some (some 0) := by decide +kernel
  cases harchive : archive [.directory CPIO_TRAILER_PATH ⟨0o755, 0, 0, 0⟩] with
  | error e =>
    rw [harchive] at hread
    cases hread
  | ok w =>
    rw [harchive] at hread
    refine ⟨w, rfl, ?_⟩
    rintro ⟨parsed, hparsed, hmember⟩
    have hlen : parsed.length = 0 := by simpa [Except.toOption, hparsed] using hread
    cases eq_nil_of_length_eq_zero hlen
    cases hmember

end AppleUtils.Cpio
