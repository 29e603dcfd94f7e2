import AppleUtils.Lib.Checks

/-! # Files under disc images

A file is its bytes.  The largest offset of the file system is a parameter. -/

namespace AppleUtils.Image

open Bytes Checks

inductive Stop where
  | unexpectedEof | io | format (message : String)
  /-- A loop of the model has used up its turns. -/
  | unfinished
deriving DecidableEq

/-- The file system: a request that reaches past the largest offset is refused. -/
class FileSystem where
  largest : ℕ

/-- Offsets are signed numbers of 64 bits. -/
abbrev signedOffsets : FileSystem := ⟨2 ^ 63 - 1⟩

variable [FileSystem] {file file' data : Bytes} {offset n : ℕ}

/-- `seek(SeekFrom::Start(offset))`. -/
def seek (offset : ℕ) : Except Stop Unit := failIf (FileSystem.largest < offset) .io

/-- `read_exact` of `n` bytes at `offset`. -/
def readExact (file : Bytes) (offset n : ℕ) : Except Stop Bytes :=
  if n = 0 ∨ offset + n ≤ file.length then .ok (file.slice offset n)
  else if offset + n ≤ FileSystem.largest then .error .unexpectedEof
  else .error .io

/-- `read_exact`, and zeros in place of the whole buffer if the file ends inside it. -/
def readOrZeros (file : Bytes) (offset n : ℕ) : Except Stop Bytes := do
  seek offset
  match readExact file offset n with
  | .error .unexpectedEof => .ok (zeros n)
  | result => result

/-- `seek` and `write_all`; a file grows to hold what is written. -/
def writeAll (file : Bytes) (offset : ℕ) (data : Bytes) : Except Stop Bytes := do
  seek offset
  failIf (FileSystem.largest < offset + data.length) .io
  if data = [] then
    return file
  else
    return (file ++ zeros (offset + data.length - file.length)).splice offset data

/-- `RawImage::read_at`. -/
def RawImage.readAt (file : Bytes) (offset n : ℕ) : Except Stop Bytes := readOrZeros file offset n

/-- What a write that returns leaves: the data in its place if that lies inside the file. -/
lemma writeAll_inside (h : writeAll file offset data = .ok file')
    (hin : offset + data.length ≤ file.length) : file' = file.splice offset data := by
  simp only [writeAll, bind_eq_ok] at h
  obtain ⟨_, -, _, -, h⟩ := h
  split_ifs at h with hdata
  · cases h
    simp [hdata, splice]
  · cases h
    simp [Nat.sub_eq_zero_of_le hin, zeros]

end AppleUtils.Image
