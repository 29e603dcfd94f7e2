import AppleUtils.Apfs.Format

/-! # Catalog records

The keys of a volume's catalog: an object and a record kind in the first eight bytes, then a tail
that depends on the kind.  The verifier orders records by these three (`keyRank`); the values of
some kinds it checks against their own length fields. -/

namespace AppleUtils.Apfs

open Bytes

def J_INODE : ℕ := 3
def J_XATTR : ℕ := 4
def J_SIBLING_LINK : ℕ := 5
def J_CRYPTO_STATE : ℕ := 7
def J_FILE_EXTENT : ℕ := 8
def J_DIR_REC : ℕ := 9
def J_SNAP_NAME : ℕ := 11

def ROOT_DIR_PARENT : ℕ := 1
def ROOT_DIR_INO_NUM : ℕ := 2
def PRIV_DIR_INO_NUM : ℕ := 3

/-- `header & 0x0FFF_FFFF_FFFF_FFFF`. -/
def objId (header : ℕ) : ℕ := header % 2 ^ 60

/-- `header >> 60`. -/
def recordKind (header : ℕ) : ℕ := header / 2 ^ 60

/-! ### Keys -/

inductive DrecKeyLayout where
  | plain | hashed
deriving DecidableEq

namespace DrecKeyLayout

/-- Names are hashed on volumes that ignore case or normalization. -/
def of (incompatibleFeatures : ℕ) : DrecKeyLayout :=
  if incompatibleFeatures.testBit 0 || incompatibleFeatures.testBit 3 then hashed else plain

def nameOffset : DrecKeyLayout → ℕ
  | plain => 10
  | hashed => 12

def nameLength (layout : DrecKeyLayout) (key : Bytes) : Option ℕ :=
  match layout with
  | plain => if key.length ≥ 10 then some (leAt 2 key 8) else none
  | hashed => if key.length ≥ 12 then some (leAt 4 key 8 % 2 ^ 10) else none

/-- The hash without the length of the name. -/
def sortPrefix (layout : DrecKeyLayout) (key : Bytes) : ℕ :=
  match layout with
  | plain => 0
  | hashed => if key.length ≥ 12 then leAt 4 key 8 / 2 ^ 10 else 0

end DrecKeyLayout

inductive RecordTail where
  | number (value : ℕ) | named (hash : ℕ) (name : Bytes) | bytes (bytes : Bytes)

namespace RecordTail

def of (kind : ℕ) (key : Bytes) (layout : DrecKeyLayout) : RecordTail :=
  if kind = J_DIR_REC ∧ key.length ≥ layout.nameOffset then
    named (layout.sortPrefix key) (key.drop layout.nameOffset)
  else if (kind = J_XATTR ∨ kind = J_SNAP_NAME) ∧ key.length ≥ 10 then
    named 0 (key.drop 10)
  else if (kind = J_SIBLING_LINK ∨ kind = J_FILE_EXTENT) ∧ key.length ≥ 16 then
    number (leAt 8 key 8)
  else bytes (key.drop 8)

/-- The derived order is that of these lists: the constructor first, then its fields. -/
def rank : RecordTail → List ℕ
  | number value => [0, value]
  | named hash name => 1 :: hash :: name.map BitVec.toNat
  | bytes b => 2 :: b.map BitVec.toNat

end RecordTail

/-- The order of records: the object, the kind, the tail. -/
def keyRank (layout : DrecKeyLayout) (key : Bytes) : List ℕ :=
  let header := leAt 8 key 0
  objId header :: recordKind header :: (RecordTail.of (recordKind header) key layout).rank

/-! ### Values -/

def validateXattrRecord (paddr : ℕ) (key value : Bytes) : Checked Unit := do
  rejectIf (key.length < 10)
    (.nodeMalformed paddr "extended attribute key is shorter than its fixed fields")
  let nameLen ← u16At key 8
  rejectIf (nameLen = 0 ∨ 10 + nameLen ≠ key.length)
    (.nodeMalformed paddr "extended attribute name length does not exactly fill the key")
  rejectIf (value.length < 4)
    (.nodeMalformed paddr "extended attribute value is shorter than its fixed fields")
  let flags ← u16At value 0
  let xdataLen ← u16At value 2
  -- one of the two storage bits, not both
  let storage := flags % 4
  rejectIf (storage ≠ 1 ∧ storage ≠ 2)
    (.nodeMalformed paddr "extended attribute flags name neither or both storage kinds")
  rejectIf (storage = 2 ∧ 4 + xdataLen ≠ value.length)
    (.nodeMalformed paddr "embedded extended attribute data length does not exactly fill the value")

def validateSiblingLinkRecord (paddr : ℕ) (key value : Bytes) : Checked Unit := do
  rejectIf (key.length ≠ 16)
    (.nodeMalformed paddr "sibling link key is not exactly a header and a sibling id")
  rejectIf (value.length < 10)
    (.nodeMalformed paddr "sibling link value is shorter than its fixed fields")
  let nameLen ← u16At value 8
  rejectIf (nameLen = 0 ∨ 10 + nameLen ≠ value.length)
    (.nodeMalformed paddr "sibling link name length does not exactly fill the value")

def validateCryptoStateRecord (paddr : ℕ) (value : Bytes) : Checked Unit :=
  rejectIf (value.length < 24)
    (.nodeMalformed paddr "crypto state value is shorter than its fixed fields")

/-! ### Text

`String::from_utf8_lossy`: each longest piece of an ill-formed sequence becomes U+FFFD. -/

/-- Continuation bytes, within the limits the first byte sets for the second. -/
def utf8Second (first second : ℕ) : Bool :=
  if first = 0xE0 then 0xA0 ≤ second && second ≤ 0xBF
  else if first = 0xED then 0x80 ≤ second && second ≤ 0x9F
  else if first = 0xF0 then 0x90 ≤ second && second ≤ 0xBF
  else if first = 0xF4 then 0x80 ≤ second && second ≤ 0x8F
  else 0x80 ≤ second && second ≤ 0xBF

/-- The number of bytes a sequence with this first byte has; zero if none starts so. -/
def utf8Width (first : ℕ) : ℕ :=
  if first < 0x80 then 1
  else if first < 0xC2 then 0
  else if first < 0xE0 then 2
  else if first < 0xF0 then 3
  else if first < 0xF5 then 4
  else 0

/-- The number of bytes at the front that can belong to the sequence the first byte starts. -/
def utf8Run (b : Bytes) : ℕ :=
  match b.map BitVec.toNat with
  | [] => 0
  | first :: rest =>
    let second := rest.take 1 |>.takeWhile (utf8Second first)
    let later := if second.length = 1 then
      rest.drop 1 |>.takeWhile fun x => 0x80 ≤ x && x ≤ 0xBF else []
    min (utf8Width first) (1 + second.length + later.length)

def fromUtf8LossyLoop : ℕ → Bytes → Bytes
  | 0, _ => []
  | turns + 1, b =>
    match b with
    | [] => []
    | x :: _ =>
      let run := max 1 (utf8Run b)
      if run = utf8Width x.toNat then b.take run ++ fromUtf8LossyLoop turns (b.drop run)
      else [0xEF, 0xBF, 0xBD] ++ fromUtf8LossyLoop turns (b.drop run)

def fromUtf8Lossy (b : Bytes) : Bytes := fromUtf8LossyLoop b.length b

example : fromUtf8Lossy [0x41, 0xE2, 0x82, 0x42, 0xC3, 0xA9] =
  [0x41, 0xEF, 0xBF, 0xBD, 0x42, 0xC3, 0xA9] := by decide

end AppleUtils.Apfs
