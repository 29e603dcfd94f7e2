import AppleUtils.Codec.Lzvn
import AppleUtils.Lib.Lz77

/-! # What an LZVN stream stands for

A stream is a list of instructions: runs of literals, and matches behind up to three literals.  The
format has several opcodes for an instruction (`Serialised`); which are open to it depends on its
lengths and its distance.  `decode_expand` says that the decoder gives the expansion of the
instructions whatever opcodes the encoder chose. -/

namespace AppleUtils.Lzvn

open Bytes Checks Lz77 List Proc

variable {last : ℕ}

/-! ### Instructions -/

inductive Instruction where
  /-- A run of literals. -/
  | literal (bytes : Bytes)
  /-- Literals, then a match at a distance of its own. -/
  | matching (literals : Bytes) (length distance : ℕ)
  /-- Literals, then a match at the distance of the last one. -/
  | repeating (literals : Bytes) (length : ℕ)

variable {i : Instruction}

/-- What has been decoded, and the distance of the last match. -/
structure Progress where
  out : Bytes
  distance : ℕ

namespace Instruction

def lastDistance (last : ℕ) : Instruction → ℕ
  | literal _ => last
  | matching _ _ distance => distance
  | repeating _ _ => last

def expand (p : Progress) : Instruction → Progress
  | literal bytes => ⟨p.out ++ bytes, p.distance⟩
  | matching literals length distance => ⟨copyBack distance length (p.out ++ literals), distance⟩
  | repeating literals length => ⟨copyBack p.distance length (p.out ++ literals), p.distance⟩

/-- The instruction makes sense where `p` is what has been decoded. -/
def Valid (p : Progress) : Instruction → Prop
  | literal bytes => 1 ≤ bytes.length ∧ bytes.length ≤ 271
  | matching literals length distance =>
    literals.length ≤ 3 ∧ 3 ≤ length ∧ 1 ≤ distance ∧ distance ≤ p.out.length + literals.length
  | repeating literals length => literals.length ≤ 3 ∧ 1 ≤ length ∧ p.distance ≠ 0

end Instruction

/-- The bytes that the instructions expand to. -/
def expand (is : List Instruction) : Bytes := (is.foldl Instruction.expand ⟨[], 0⟩).out

/-- Every instruction makes sense where it stands. -/
def Valid : Progress → List Instruction → Prop
  | _, [] => True
  | p, i :: is => i.Valid p ∧ Valid (i.expand p) is

/-! ### Opcodes -/

def byte (n : ℕ) : Byte := BitVec.ofNat 8 n

/-- The lengths that a match behind `literals` literals can have in an opcode of the form
`LLMMM___`; the longer ones would be opcodes of other forms. -/
def Fits (literals length : ℕ) : Prop := literals ≤ 3 ∧ 3 ≤ length ∧ length ≤ 10 - 2 * literals

/-- `LLMMM___`. -/
def packed (literals length low : ℕ) : Byte := byte (literals * 64 + (length - 3) * 8 + low)

/-- The ways to write an instruction, where the last match had the distance `last`. -/
inductive Serialised (last : ℕ) : Instruction → Bytes → Prop
  | smallLiteral {bytes : Bytes} (h : 1 ≤ bytes.length) (hle : bytes.length ≤ 15) :
      Serialised last (.literal bytes) (byte (0xe0 + bytes.length) :: bytes)
  | largeLiteral {bytes : Bytes} (h : 16 ≤ bytes.length) (hle : bytes.length ≤ 271) :
      Serialised last (.literal bytes) (byte 0xe0 :: byte (bytes.length - 16) :: bytes)
  | smallDistance {literals : Bytes} {length distance : ℕ} (h : Fits literals.length length)
      (hd : distance < 6 * 256) :
      Serialised last (.matching literals length distance)
        (packed literals.length length (distance / 256) :: byte (distance % 256) :: literals)
  | mediumDistance {literals : Bytes} {length distance : ℕ} (hl : literals.length ≤ 3)
      (h : 3 ≤ length) (hle : length ≤ 34) (hd : distance < 2 ^ 14) :
      Serialised last (.matching literals length distance)
        (byte (0xa0 + literals.length * 8 + (length - 3) / 4) ::
          byte (distance % 64 * 4 + (length - 3) % 4) :: byte (distance / 64) :: literals)
  | largeDistance {literals : Bytes} {length distance : ℕ} (h : Fits literals.length length)
      (hd : distance < 2 ^ 16) :
      Serialised last (.matching literals length distance)
        (packed literals.length length 7 :: byte (distance % 256) :: byte (distance / 256) :: literals)
  | previousDistance {literals : Bytes} {length : ℕ} (h : Fits literals.length length)
      (hl : literals ≠ []) :
      Serialised last (.repeating literals length) (packed literals.length length 6 :: literals)
  | smallMatch {length : ℕ} (h : 1 ≤ length) (hle : length ≤ 15) :
      Serialised last (.repeating [] length) [byte (0xf0 + length)]
  | largeMatch {length : ℕ} (h : 16 ≤ length) (hle : length ≤ 271) :
      Serialised last (.repeating [] length) [byte 0xf0, byte (length - 16)]
  /-- A match at the distance of the last one needs no distance of its own. -/
  | reused {literals bytes : Bytes} {length : ℕ} (h : Serialised last (.repeating literals length) bytes) :
      Serialised last (.matching literals length last) bytes

/-- The ways to write a list of instructions; opcodes that do nothing may stand between them. -/
inductive SerialisedList : ℕ → List Instruction → Bytes → Prop
  | nil (last : ℕ) : SerialisedList last [] []
  | nop {last : ℕ} {is : List Instruction} {bytes : Bytes} {opcode : Byte}
      (h : opcode = 0x0e ∨ opcode = 0x16) (hrest : SerialisedList last is bytes) :
      SerialisedList last is (opcode :: bytes)
  | cons {last : ℕ} {i : Instruction} {is : List Instruction} {first bytes : Bytes}
      (h : Serialised last i first) (hrest : SerialisedList (i.lastDistance last) is bytes) :
      SerialisedList last (i :: is) (first ++ bytes)

lemma expand_distance (p : Progress) (i : Instruction) :
    (i.expand p).distance = i.lastDistance p.distance := by cases i <;> rfl

/-! ### Reading an opcode back -/

section Reading

variable {stream tail : Bytes} {start n : ℕ} {literals length low : ℕ} {b : Byte}

lemma toNat_byte (h : n < 256) : (byte n).toNat = n := by
  rw [byte, BitVec.toNat_ofNat]
  exact Nat.mod_eq_of_lt h

lemma byteAt_drop {k : ℕ} (h : (stream.drop start)[k]? = some b) :
    byteAt stream (start + k) start = .ok b.toNat := by
  rw [List.getElem?_drop] at h
  rw [byteAt, h]

lemma halfWordAt_drop {low high : Byte} {opcode : Byte} (h : stream.drop start = opcode :: low :: high :: tail) :
    halfWordAt stream (start + 1) start = .ok (low.toNat + high.toNat * 2 ^ 8) := by
  have hlow : byteAt stream (start + 1) start = .ok low.toNat := byteAt_drop (by rw [h]; rfl)
  have hhigh : byteAt stream (start + 2) start = .ok high.toNat := byteAt_drop (by rw [h]; rfl)
  rw [halfWordAt, hlow]
  change (do let high ← byteAt stream (start + 2) start; return low.toNat + high * 2 ^ 8) = _
  rw [hhigh]
  rfl

lemma classify_packed (h : Fits literals length) (hlow : low ≤ 7) (hl : low = 6 → literals ≠ 0) :
    classify (literals * 64 + (length - 3) * 8 + low) =
      if low = 7 then .largeDistance else if low = 6 then .previousDistance else .smallDistance := by
  obtain ⟨hlit, h3, hle⟩ := h
  have hm : (literals * 64 + (length - 3) * 8 + low) % 8 = low := by omega
  unfold classify
  simp only [mem_cons, not_mem_nil, or_false, hm]
  rw [if_neg (by omega), if_neg (by omega), if_neg (by omega), if_neg (by omega), if_neg (by omega),
    if_neg (by omega), if_neg (by omega), if_neg (by omega), if_neg (by omega)]

lemma packed_lt (h : Fits literals length) (hlow : low ≤ 7) : literals * 64 + (length - 3) * 8 + low < 256 := by
  obtain ⟨hlit, h3, hle⟩ := h
  omega

/-- The bytes of an instruction are an opcode with its operands, then literals; the opcode asks for
them and for a match, and that is what the instruction does. -/
structure Reads (last : ℕ) (i : Instruction) (bytes : Bytes) (header literals : Bytes)
    (length distance : ℕ) : Prop where
  bytes_eq : bytes = header ++ literals
  header_pos : 0 < header.length
  expand_eq : ∀ out, i.expand ⟨out, last⟩ = ⟨copyBack distance length (out ++ literals), distance⟩
  reach : ∀ out, last ≤ out.length → i.Valid ⟨out, last⟩ → length ≠ 0 →
    0 < distance ∧ distance ≤ out.length + literals.length
  read : ∀ stream start tail, stream.drop start = header ++ tail →
    ∃ opcode : Byte, stream[start]? = some opcode ∧
      readOpcode stream start last opcode.toNat =
        .ok (.copy ⟨literals.length, length, distance, start + header.length⟩)

lemma getElem?_of_drop (h : stream.drop start = b :: tail) : stream[start]? = some b := by
  have : (stream.drop start)[0]? = some b := by rw [h]; rfl
  rwa [List.getElem?_drop] at this

lemma Serialised.reads {bytes : Bytes} (h : Serialised last i bytes) :
    ∃ header literals length distance, Reads last i bytes header literals length distance := by
  induction h with
  | @smallLiteral bytes h hle =>
    refine ⟨[byte (0xe0 + bytes.length)], bytes, 0, last, rfl, Nat.one_pos, fun _ => rfl,
      fun _ _ _ h0 => absurd rfl h0, ?_⟩
    intro stream start tail hdrop
    refine ⟨_, getElem?_of_drop hdrop, ?_⟩
    rw [toNat_byte (by omega)]
    have hc : classify (0xe0 + bytes.length) = .smallLiteral := by
      rw [classify, if_neg (by omega), if_pos (by omega)]
    rw [readOpcode, hc, show (0xe0 + bytes.length) % 16 = bytes.length by omega]
    rfl
  | @largeLiteral bytes h hle =>
    refine ⟨[byte 0xe0, byte (bytes.length - 16)], bytes, 0, last, rfl, Nat.two_pos, fun _ => rfl,
      fun _ _ _ h0 => absurd rfl h0, ?_⟩
    intro stream start tail hdrop
    refine ⟨_, getElem?_of_drop hdrop, ?_⟩
    have hmore : byteAt stream (start + 1) start = .ok (bytes.length - 16) := by
      rw [byteAt_drop (b := byte (bytes.length - 16)) (by rw [hdrop]; rfl), toNat_byte (by omega)]
    rw [toNat_byte (by omega), readOpcode, show classify 0xe0 = .largeLiteral from rfl, hmore]
    change Except.ok (Action.copy ⟨bytes.length - 16 + 16, 0, last, start + 2⟩) = _
    rw [Nat.sub_add_cancel h]
    rfl
  | @smallDistance literals length distance h hd =>
    refine ⟨[packed literals.length length (distance / 256), byte (distance % 256)], literals, length,
      distance, rfl, Nat.two_pos, fun _ => rfl, fun _ _ hv _ => hv.2.2, ?_⟩
    intro stream start tail hdrop
    refine ⟨_, getElem?_of_drop hdrop, ?_⟩
    have hlow : byteAt stream (start + 1) start = .ok (distance % 256) := by
      rw [byteAt_drop (b := byte (distance % 256)) (by rw [hdrop]; rfl), toNat_byte (by omega)]
    rw [packed, toNat_byte (packed_lt h (by omega)), readOpcode,
      classify_packed h (by omega) (by omega), if_neg (by omega), if_neg (by omega), hlow]
    obtain ⟨hlit, h3, hle⟩ := h
    change Except.ok (Action.copy ⟨_, _, _, start + 2⟩) = _
    congr 3 <;> omega
  | @mediumDistance literals length distance hl h hle hd =>
    refine ⟨[byte (0xa0 + literals.length * 8 + (length - 3) / 4),
      byte (distance % 64 * 4 + (length - 3) % 4), byte (distance / 64)], literals, length, distance,
      rfl, Nat.succ_pos _, fun _ => rfl, fun _ _ hv _ => hv.2.2, ?_⟩
    intro stream start tail hdrop
    refine ⟨_, getElem?_of_drop hdrop, ?_⟩
    have hc : classify (0xa0 + literals.length * 8 + (length - 3) / 4) = .mediumDistance := by
      rw [classify, if_neg (by omega), if_neg (by omega), if_neg (by omega), if_neg (by omega), if_pos (by omega)]
    rw [toNat_byte (by omega), readOpcode, hc]
    simp only [halfWordAt_drop hdrop]
    rw [toNat_byte (by omega), toNat_byte (by omega)]
    change Except.ok (Action.copy ⟨_, _, _, start + 3⟩) = _
    congr 3 <;> omega
  | @largeDistance literals length distance h hd =>
    refine ⟨[packed literals.length length 7, byte (distance % 256), byte (distance / 256)], literals,
      length, distance, rfl, Nat.succ_pos _, fun _ => rfl, fun _ _ hv _ => hv.2.2, ?_⟩
    intro stream start tail hdrop
    refine ⟨_, getElem?_of_drop hdrop, ?_⟩
    rw [packed, toNat_byte (packed_lt h (by omega)), readOpcode,
      classify_packed h (by omega) (by omega), if_pos rfl]
    simp only [halfWordAt_drop hdrop]
    rw [toNat_byte (by omega), toNat_byte (by omega)]
    obtain ⟨hlit, h3, hle⟩ := h
    change Except.ok (Action.copy ⟨_, _, _, start + 3⟩) = _
    congr 3 <;> omega
  | @previousDistance literals length h hl =>
    refine ⟨[packed literals.length length 6], literals, length, last, rfl, Nat.one_pos,
      fun _ => rfl, fun _ hle hv _ => ⟨Nat.pos_of_ne_zero hv.2.2, Nat.le_add_right_of_le hle⟩, ?_⟩
    intro stream start tail hdrop
    refine ⟨_, getElem?_of_drop hdrop, ?_⟩
    rw [packed, toNat_byte (packed_lt h (by omega)), readOpcode,
      classify_packed h (by omega) (fun _ => mt eq_nil_of_length_eq_zero hl), if_neg (by omega), if_pos rfl]
    obtain ⟨hlit, h3, hle⟩ := h
    change Except.ok (Action.copy ⟨_, _, _, start + 1⟩) = _
    congr 3 <;> omega
  | @smallMatch length h hle =>
    refine ⟨[byte (0xf0 + length)], [], length, last, rfl, Nat.one_pos, fun _ => rfl,
      fun _ hle hv _ => ⟨Nat.pos_of_ne_zero hv.2.2, hle⟩, ?_⟩
    intro stream start tail hdrop
    refine ⟨_, getElem?_of_drop hdrop, ?_⟩
    rw [toNat_byte (by omega)]
    have hc : classify (0xf0 + length) = .smallMatch := by
      rw [classify, if_neg (by omega), if_neg (by omega), if_neg (by omega), if_pos (by omega)]
    rw [readOpcode, hc, show (0xf0 + length) % 16 = length by omega]
    rfl
  | @largeMatch length h hle =>
    refine ⟨[byte 0xf0, byte (length - 16)], [], length, last, rfl, Nat.two_pos, fun _ => rfl,
      fun _ hle hv _ => ⟨Nat.pos_of_ne_zero hv.2.2, hle⟩, ?_⟩
    intro stream start tail hdrop
    refine ⟨_, getElem?_of_drop hdrop, ?_⟩
    have hmore : byteAt stream (start + 1) start = .ok (length - 16) := by
      rw [byteAt_drop (b := byte (length - 16)) (by rw [hdrop]; rfl), toNat_byte (by omega)]
    rw [toNat_byte (by omega), readOpcode, show classify 0xf0 = .largeMatch from rfl, hmore]
    change Except.ok (Action.copy ⟨0, length - 16 + 16, last, start + 2⟩) = _
    rw [Nat.sub_add_cancel h]
    rfl
  | @reused literals bytes length _ ih =>
    obtain ⟨header, literals', length', distance, hbytes, hpos, hexpand, hreach, hread⟩ := ih
    refine ⟨header, literals', length', distance, hbytes, hpos, hexpand, ?_, hread⟩
    intro out hle hv
    exact hreach out hle ⟨hv.1, by have := hv.2.1; omega, by have := hv.2.2.1; simp only; omega⟩

end Reading

/-! ### Running an instruction -/

section Running

variable {stream out literals : Bytes} {limit start next length distance : ℕ} {tail : Bytes}

lemma copyLiterals_run (hnext : (stream.drop next).take literals.length = literals)
    (hroom : out.length + literals.length ≤ limit) :
    (copyLiterals (.after stream limit []) start literals.length next).run out =
      ⟨.ok (next + literals.length), out ++ literals, []⟩ := by
  unfold copyLiterals
  by_cases hnil : literals.length = 0
  · rw [if_pos hnil, eq_nil_of_length_eq_zero hnil, append_nil]
    rfl
  · have hlen := congrArg List.length hnext
    rw [length_take, length_drop] at hlen
    have htrunc : refuseIf ((Call.after stream limit []).stream.length < next + literals.length)
        (.truncated start) = .ok () := refuseIf_eq_ok.mpr (by simp only [Call.after]; omega)
    have hfull : refuseIf ((Call.after stream limit []).ceiling < out.length + literals.length)
        (.outputTooLarge (Call.after stream limit []).limit) = .ok () :=
      refuseIf_eq_ok.mpr (by simp only [Call.after, length_nil]; omega)
    have hslice : (sliceAt (Call.after stream limit []).stream next literals.length : Except Fault Bytes) =
        .ok literals := by
      rw [sliceAt_eq_ok]
      exact ⟨by simp only [Call.after]; omega, hnext⟩
    rw [if_neg hnil, htrunc, bind_silent (lift_ok_run ()), bind_silent get_run,
      hfull, bind_silent (lift_ok_run ()), hslice, bind_silent (lift_ok_run _), bind_silent (modify_run _)]
    rfl

/-- The copy loop appends what the match stands for, read at a fixed distance from the end. -/
lemma copyBytes_run (h : 0 < distance) (hle : distance ≤ out.length) :
    ∃ t, (copyBytes length (out.length - distance)).run out = ⟨.ok (), copyBack distance length out, t⟩ := by
  induction length generalizing out with
  | zero => exact ⟨[], rfl⟩
  | succ length ih =>
    have hlen : (out ++ [out[out.length - distance]]).length = out.length + 1 := by
      rw [length_append, length_singleton]
    obtain ⟨t, ht⟩ := @ih (out ++ [out[out.length - distance]]) (by omega)
    rw [copyBytes, bind_silent get_run, List.getElem?_eq_getElem (by omega)]
    simp only
    rw [bind_run (record_run _), bind_silent (modify_run _), copyBack_succ h hle]
    rw [hlen, show out.length + 1 - distance = out.length - distance + 1 by omega] at ht
    rw [ht]
    exact ⟨_, rfl⟩

lemma copyMatch_run (h : length ≠ 0 → 0 < distance ∧ distance ≤ out.length)
    (hroom : out.length + length ≤ limit) : ∃ t, (copyMatch (.after stream limit []) start length distance).run out =
      ⟨.ok (), copyBack distance length out, t⟩ := by
  unfold copyMatch
  by_cases hzero : length = 0
  · rw [if_pos hzero, hzero]
    exact ⟨[], rfl⟩
  · obtain ⟨hpos, hle⟩ := h hzero
    have hset : refuseIf (distance = 0) (.noPreviousDistance start) = .ok () :=
      refuseIf_eq_ok.mpr (by omega)
    have hnear : refuseIf (out.length < distance) (.distanceTooFar start distance out.length) = .ok () :=
      refuseIf_eq_ok.mpr (by omega)
    have hfull : refuseIf ((Call.after stream limit []).ceiling < out.length + length)
        (.outputTooLarge (Call.after stream limit []).limit) = .ok () :=
      refuseIf_eq_ok.mpr (by simp only [Call.after, length_nil]; omega)
    have hsource : (minus out.length distance : Except Fault ℕ) = .ok (out.length - distance) :=
      minus_eq_ok.mpr ⟨hle, rfl⟩
    rw [if_neg hzero, hset, bind_silent (lift_ok_run ()), bind_silent get_run,
      minus_base_nil, bind_silent (lift_ok_run _), hnear, bind_silent (lift_ok_run ()),
      hfull, bind_silent (lift_ok_run ()), hsource, bind_silent (lift_ok_run _)]
    exact copyBytes_run hpos hle

/-- One instruction is one turn of the decoder. -/
lemma decodeTurn_run {bytes : Bytes} (h : Serialised last i bytes)
    (hvalid : i.Valid ⟨out, last⟩) (hlast : last ≤ out.length) (hdrop : stream.drop start = bytes ++ tail)
    (hroom : (i.expand ⟨out, last⟩).out.length ≤ limit) :
    ∃ t, (decodeTurn (.after stream limit []) ⟨start, last⟩).run out =
      ⟨.ok (.again ⟨start + bytes.length, i.lastDistance last⟩), (i.expand ⟨out, last⟩).out, t⟩ := by
  obtain ⟨header, literals, length, distance, rfl, hpos, hexpand, hreach, hread⟩ := h.reads
  rw [append_assoc] at hdrop
  obtain ⟨opcode, hopcode, haction⟩ := hread stream start _ hdrop
  have hdist : i.lastDistance last = distance := by
    have := expand_distance ⟨out, last⟩ i
    rw [hexpand] at this
    exact this.symm
  have hnext : (stream.drop (start + header.length)).take literals.length = literals := by
    rw [← drop_drop, hdrop, drop_left, take_left]
  have hreach := hreach out hlast hvalid
  replace hroom : (copyBack distance length (out ++ literals)).length ≤ limit := by
    rw [hexpand] at hroom
    exact hroom
  have hlen : (copyBack distance length (out ++ literals)).length = out.length + literals.length + length := by
    by_cases hzero : length = 0
    · rw [hzero, copyBack, length_append, add_zero]
    · obtain ⟨h0, hle⟩ := hreach hzero
      rw [length_copyBack h0 (by rw [length_append]; exact hle), length_append]
  obtain ⟨t, ht⟩ := @copyMatch_run stream (out ++ literals) limit start length distance
    (by rw [length_append]; exact hreach)
    (by rw [length_append]; omega)
  have hturn : decodeTurn (.after stream limit []) ⟨start, last⟩ = (do
      let action ← Proc.lift (readOpcode stream start last opcode.toNat)
      act (.after stream limit []) ⟨start, last⟩ action) := by simp only [decodeTurn, Call.after, hopcode]
  rw [hturn, haction, bind_silent (lift_ok_run _), act,
    bind_silent (copyLiterals_run hnext (by omega)), bind_run ht, hdist, hexpand, length_append, add_assoc]
  exact ⟨_, rfl⟩

/-- A byte that does nothing is a turn that moves on by one. -/
lemma decodeTurn_nop {opcode : Byte} (h : opcode = 0x0e ∨ opcode = 0x16)
    (hdrop : stream.drop start = opcode :: tail) : (decodeTurn (.after stream limit []) ⟨start, last⟩).run out =
      ⟨.ok (.again ⟨start + 1, last⟩), out, []⟩ := by
  have hread : readOpcode stream start last opcode.toNat = .ok .skip := by
    rcases h with rfl | rfl <;> rfl
  simp only [decodeTurn, Call.after, getElem?_of_drop hdrop, hread]
  rw [bind_silent (lift_ok_run _)]
  rfl

lemma decodeTurn_end (htail : tail.length = 7) (hdrop : stream.drop start = 0x06 :: tail) :
    (decodeTurn (.after stream limit []) ⟨start, last⟩).run out = ⟨.ok (.done ()), out, []⟩ := by
  have hlen := congrArg List.length hdrop
  rw [length_drop, length_cons] at hlen
  have hread : readOpcode stream start last (0x06 : Byte).toNat = .ok .finish := by
    change (if stream.length - start < END_OF_STREAM_BYTES then _ else _) = _
    rw [if_neg (by simp only [END_OF_STREAM_BYTES]; omega)]
  simp only [decodeTurn, Call.after, getElem?_of_drop hdrop, hread]
  rw [bind_silent (lift_ok_run _)]
  rfl

lemma expand_last_le (hvalid : i.Valid ⟨out, last⟩)
    (hlast : last ≤ out.length) : i.lastDistance last ≤ (i.expand ⟨out, last⟩).out.length := by
  cases i with
  | literal bytes =>
    change last ≤ (out ++ bytes).length
    rw [length_append]
    omega
  | matching literals length distance =>
    refine le_trans ?_ (length_le_copyBack _ _ _)
    rw [length_append]
    exact hvalid.2.2.2
  | repeating literals length =>
    refine le_trans ?_ (length_le_copyBack _ _ _)
    rw [length_append]
    exact Nat.le_add_right_of_le hlast

lemma foldl_expand_length (is : List Instruction) (p : Progress) :
    p.out.length ≤ (is.foldl Instruction.expand p).out.length := by
  induction is generalizing p with
  | nil => exact le_rfl
  | cons i is ih =>
    refine le_trans ?_ (ih (i.expand p))
    cases i with
    | literal bytes =>
      change _ ≤ (p.out ++ bytes).length
      rw [length_append]
      exact Nat.le_add_right _ _
    | matching literals length distance =>
      refine le_trans ?_ (length_le_copyBack _ _ _)
      rw [length_append]
      exact Nat.le_add_right _ _
    | repeating literals length =>
      refine le_trans ?_ (length_le_copyBack _ _ _)
      rw [length_append]
      exact Nat.le_add_right _ _

/-- The loop runs through the instructions that are left and stops at the end of the stream. -/
lemma loop_run {is : List Instruction} {bytes tail : Bytes} {last turns : ℕ}
    (hser : SerialisedList last is bytes) (hvalid : Valid ⟨out, last⟩ is) (hlast : last ≤ out.length)
    (hdrop : stream.drop start = bytes ++ 0x06 :: tail) (htail : tail.length = 7)
    (hroom : (is.foldl Instruction.expand ⟨out, last⟩).out.length ≤ limit) (hturns : stream.length < turns + start) :
    ∃ t, (Proc.loop (decodeTurn (.after stream limit [])) turns ⟨start, last⟩).run out =
      ⟨.ok (), (is.foldl Instruction.expand ⟨out, last⟩).out, t⟩ := by
  -- induction on the serialisation; every item of it is one turn
  have hturn : ∀ {start turns : ℕ} {b : Byte} {rest : Bytes}, stream.drop start = b :: rest →
      stream.length < turns + start → ∃ k, turns = k + 1 := by
    intro start turns b rest h hturns
    have hlt := (List.getElem?_eq_some_iff.mp (getElem?_of_drop h)).1
    exact ⟨turns - 1, by omega⟩
  induction hser generalizing out start turns with
  | nil last =>
    obtain ⟨turns, rfl⟩ := hturn hdrop hturns
    rw [Proc.loop, bind_silent (decodeTurn_end htail hdrop)]
    exact ⟨[], rfl⟩
  | @nop last is bytes opcode h hrest ih =>
    obtain ⟨turns, rfl⟩ := hturn hdrop hturns
    have hdrop' : stream.drop (start + 1) = bytes ++ 0x06 :: tail := by
      rw [← drop_drop, hdrop]
      rfl
    rw [Proc.loop, bind_silent (decodeTurn_nop h hdrop)]
    exact ih hvalid hlast hdrop' hroom (by omega)
  | @cons last i is first bytes h hrest ih =>
    rw [append_assoc] at hdrop
    have hpos : 0 < first.length := by
      obtain ⟨header, literals, _, _, rfl, hpos, -⟩ := h.reads
      rw [length_append]
      omega
    obtain ⟨opcode, rest, hfirst⟩ := exists_cons_of_length_pos hpos
    obtain ⟨turns, rfl⟩ := hturn (b := opcode) (by rw [hdrop, hfirst]; rfl) hturns
    have hdrop' : stream.drop (start + first.length) = bytes ++ 0x06 :: tail := by
      rw [← drop_drop, hdrop, drop_left]
    rw [foldl_cons] at hroom ⊢
    obtain ⟨t, ht⟩ := decodeTurn_run h hvalid.1 hlast hdrop
      (le_trans (foldl_expand_length is _) hroom)
    have hlast' := expand_last_le hvalid.1 hlast
    have hvalid' := hvalid.2
    have hp := expand_distance ⟨out, last⟩ i
    generalize i.expand ⟨out, last⟩ = p at *
    obtain ⟨out', distance⟩ := p
    cases hp
    obtain ⟨t', ht'⟩ := ih hvalid' hlast' hdrop' hroom (show stream.length < turns + _ by omega)
    rw [Proc.loop, bind_run ht]
    simp only
    rw [ht']
    exact ⟨_, rfl⟩

end Running

/-- The decoder gives the expansion of the instructions, as long as a vector of the limit's length can
be made. -/
theorem decode_expand {is : List Instruction} {bytes tail : Bytes} {limit : ℕ}
    (hvalid : Valid ⟨[], 0⟩ is) (hser : SerialisedList 0 is bytes) (htail : tail.length = 7)
    (hlimit : (expand is).length ≤ limit) (hisize : limit ≤ isizeMax) :
    decode (bytes ++ 0x06 :: tail) limit = .ok (expand is) := by
  obtain ⟨t, ht⟩ := @loop_run (bytes ++ 0x06 :: tail) [] limit 0 is bytes tail 0 _ hser hvalid
    le_rfl rfl htail hlimit (Nat.lt_succ_self _)
  have hrun : (decodeLoop (.after (bytes ++ 0x06 :: tail) limit [])).run [] = ⟨.ok (), expand is, t⟩ := ht
  rw [decode_of_le _ hisize, hrun]

/-- A run of one literal, an opcode that does nothing, and a match that reads what it writes. -/
theorem decode_expand_overlap : decode ([0xe1, 0x61, 0x0e, 0x10, 0x01] ++ 0x06 :: zeros 7) 6 =
    .ok [0x61, 0x61, 0x61, 0x61, 0x61, 0x61] :=
  @decode_expand [.literal [0x61], .matching [] 5 1] _ _ _
    ⟨⟨by decide, by decide⟩, ⟨by decide, by decide, by decide, by decide⟩, trivial⟩
    (.cons (.smallLiteral (by decide) (by decide))
      (.nop (.inl rfl) (.cons (.smallDistance ⟨by decide, by decide, by decide⟩ (by decide)) (.nil _))))
    rfl (by decide) (by decide)

/-- With a limit of `2 ^ 63` even one literal is not decoded. -/
theorem decode_expand_no_room : Valid ⟨[], 0⟩ [.literal [0x61]] ∧
    SerialisedList 0 [.literal [0x61]] [0xe1, 0x61] ∧
    (expand [.literal [0x61]]).length ≤ 2 ^ 63 ∧
    decode ([0xe1, 0x61] ++ 0x06 :: zeros 7) (2 ^ 63) = .error .panic :=
  ⟨⟨⟨by decide, by decide⟩, trivial⟩, .cons (.smallLiteral (by decide) (by decide)) (.nil _),
    by decide, by decide +kernel⟩

end AppleUtils.Lzvn
