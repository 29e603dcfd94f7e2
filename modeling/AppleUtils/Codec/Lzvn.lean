import AppleUtils.Lib.Ends
import AppleUtils.Lib.Proc
import AppleUtils.Lib.Slices

/-! # The LZVN decoder

`decodeOnto` appends what a stream decodes to onto a vector.  The vector is the state of the
procedure, so it stays as it is when the decoder fails; the trace lists the positions of the vector
that matches read.

A vector's length is at most `isize::MAX`, so a length and the counts of one opcode add up within
`usize`; the sum with the caller's limit is checked, as the source does.  Differences and indices
panic out of range. -/

namespace AppleUtils.Lzvn

open Bytes Checks List Triple

/-! ### Errors -/

inductive LzvnError where
  | truncated (offset : ℕ) | reservedOpcode (offset opcode : ℕ)
  | distanceTooFar (offset distance decoded : ℕ) | noPreviousDistance (offset : ℕ)
  | outputTooLarge (limit : ℕ) | unterminated (decoded : ℕ)
deriving DecidableEq

inductive Fault where
  | refused (error : LzvnError) | panic
deriving DecidableEq

instance : Panics Fault := ⟨.panic⟩

/-! ### Opcodes -/

def END_OF_STREAM_BYTES : ℕ := 8

inductive Opcode where
  | smallDistance | mediumDistance | largeDistance | previousDistance | smallLiteral | largeLiteral
  | smallMatch | largeMatch | nop | endOfStream | reserved
deriving DecidableEq

def classify (opcode : ℕ) : Opcode :=
  if opcode = 0xe0 then .largeLiteral
  else if 0xe1 ≤ opcode ∧ opcode ≤ 0xef then .smallLiteral
  else if opcode = 0xf0 then .largeMatch
  else if 0xf1 ≤ opcode ∧ opcode ≤ 0xff then .smallMatch
  else if 0xa0 ≤ opcode ∧ opcode ≤ 0xbf then .mediumDistance
  else if opcode = 0x06 then .endOfStream
  else if opcode = 0x0e ∨ opcode = 0x16 then .nop
  else if opcode ∈ [0x1e, 0x26, 0x2e, 0x36, 0x3e] then .reserved
  else if 0x70 ≤ opcode ∧ opcode ≤ 0x7f ∨ 0xd0 ≤ opcode ∧ opcode ≤ 0xdf then .reserved
  else if opcode % 8 = 7 then .largeDistance
  else if opcode % 8 = 6 then .previousDistance
  else .smallDistance

def byteAt (stream : Bytes) (offset start : ℕ) : Except Fault ℕ :=
  match stream[offset]? with
  | some byte => .ok byte.toNat
  | none => .error (.refused (.truncated start))

def halfWordAt (stream : Bytes) (offset start : ℕ) : Except Fault ℕ := do
  let low ← byteAt stream offset start
  let high ← byteAt stream (offset + 1) start
  return low + high * 2 ^ 8

/-- What an opcode asks for: literals, then a match.  `next` is where the opcode's own bytes end. -/
structure Order where
  (literals length distance next : ℕ)

/-- What the match over the opcode's class decides. -/
inductive Action where
  | finish | skip | copy (order : Order)

/-- The opcode at `start`; `distance` is the distance of the last match. -/
def readOpcode (stream : Bytes) (start distance opcode : ℕ) : Except Fault Action :=
  match classify opcode with
  | .endOfStream =>
    if stream.length - start < END_OF_STREAM_BYTES then .error (.refused (.truncated start))
    else .ok .finish
  | .nop => .ok .skip
  | .reserved => .error (.refused (.reservedOpcode start opcode))
  | .smallDistance => do
    let low ← byteAt stream (start + 1) start
    return .copy ⟨opcode / 2 ^ 6, opcode / 2 ^ 3 % 8 + 3, opcode % 8 * 2 ^ 8 + low, start + 2⟩
  | .mediumDistance => do
    let packed ← halfWordAt stream (start + 1) start
    return .copy
      ⟨opcode / 2 ^ 3 % 4, opcode % 8 * 2 ^ 2 + packed % 4 + 3, packed / 2 ^ 2, start + 3⟩
  | .largeDistance => do
    let distance ← halfWordAt stream (start + 1) start
    return .copy ⟨opcode / 2 ^ 6, opcode / 2 ^ 3 % 8 + 3, distance, start + 3⟩
  | .previousDistance => .ok (.copy ⟨opcode / 2 ^ 6, opcode / 2 ^ 3 % 8 + 3, distance, start + 1⟩)
  | .smallLiteral => .ok (.copy ⟨opcode % 16, 0, distance, start + 1⟩)
  | .largeLiteral => do
    let more ← byteAt stream (start + 1) start
    return .copy ⟨more + 16, 0, distance, start + 2⟩
  | .smallMatch => .ok (.copy ⟨0, opcode % 16, distance, start + 1⟩)
  | .largeMatch => do
    let more ← byteAt stream (start + 1) start
    return .copy ⟨0, more + 16, distance, start + 2⟩

/-! ### The loop -/

abbrev Decoder := Proc Bytes Fault ℕ

/-- `return Err(e)`. -/
def refuseIf (c : Prop) [Decidable c] (e : LzvnError) : Except Fault Unit := failIf c (.refused e)

lemma refuseIf_eq_ok {c : Prop} [Decidable c] {e : LzvnError} {u : Unit} :
    refuseIf c e = .ok u ↔ ¬ c := failIf_eq_ok

/-- What stays the same through a call. -/
structure Call where
  stream : Bytes
  (limit base ceiling : ℕ)

def copyLiterals (call : Call) (start literals next : ℕ) : Decoder ℕ :=
  if literals = 0 then pure next
  else do
    Proc.lift (refuseIf (call.stream.length < next + literals) (.truncated start))
    let out ← Proc.get
    Proc.lift (refuseIf (call.ceiling < out.length + literals) (.outputTooLarge call.limit))
    let bytes ← Proc.lift (sliceAt call.stream next literals)
    Proc.modify (· ++ bytes)
    return next + literals

/-- Reads at `source`, `source + 1`, … of the growing vector. -/
def copyBytes : (length source : ℕ) → Decoder Unit
  | 0, _ => pure ()
  | length + 1, source => do
    let out ← Proc.get
    match out[source]? with
    | none => Proc.throw .panic
    | some byte => do
      Proc.record fun _ => source
      Proc.modify (· ++ [byte])
      copyBytes length (source + 1)

def copyMatch (call : Call) (start length distance : ℕ) : Decoder Unit :=
  if length = 0 then pure ()
  else do
    Proc.lift (refuseIf (distance = 0) (.noPreviousDistance start))
    let out ← Proc.get
    let decoded ← Proc.lift (minus out.length call.base)
    Proc.lift (refuseIf (decoded < distance) (.distanceTooFar start distance decoded))
    Proc.lift (refuseIf (call.ceiling < out.length + length) (.outputTooLarge call.limit))
    let source ← Proc.lift (minus out.length distance)
    copyBytes length source

/-- The position in the stream and the distance of the last match. -/
structure Cursor where
  (offset distance : ℕ)

/-- What follows the reading of an opcode. -/
def act (call : Call) (c : Cursor) : Action → Decoder (Turn Cursor Unit)
  | .finish => pure (.done ())
  | .skip => pure (.again { c with offset := c.offset + 1 })
  | .copy order => do
    let next ← copyLiterals call c.offset order.literals order.next
    copyMatch call c.offset order.length order.distance
    return .again ⟨next, order.distance⟩

def decodeTurn (call : Call) (c : Cursor) : Decoder (Turn Cursor Unit) :=
  match call.stream[c.offset]? with
  | none => do
    let out ← Proc.get
    let decoded ← Proc.lift (minus out.length call.base)
    Proc.throw (.refused (.unterminated decoded))
  | some opcode => do
    let action ← Proc.lift (readOpcode call.stream c.offset c.distance opcode.toNat)
    act call c action

/-- Every turn moves on in the stream, so one turn more than it has bytes is enough. -/
def decodeLoop (call : Call) : Decoder Unit :=
  Proc.loop (decodeTurn call) (call.stream.length + 1) ⟨0, 0⟩

def decodeOnto (stream : Bytes) (limit : ℕ) : Decoder Unit := do
  let out ← Proc.get
  let base := out.length
  -- `checked_add` of two numbers of 64 bits
  Proc.lift (refuseIf (2 ^ 64 ≤ base + limit) (.outputTooLarge limit))
  decodeLoop ⟨stream, limit, base, base + limit⟩

/-- The vector is made with room for the limit. -/
def decode (stream : Bytes) (limit : ℕ) : Outcome Fault Bytes :=
  match withCapacity limit with
  | .error e => .error e
  | .ok out =>
    let r := (decodeOnto stream limit).run out
    match r.outcome with
    | .ok () => .ok r.state
    | .error e => .error e
    | .running => .running

/-! ### Independence of what the vector already holds

A call on a vector that holds `prior` does what a call on an empty one does, with everything moved
up by `prior.length`. -/

section Independence

variable {stream prior out : Bytes} {limit : ℕ}

/-- The call that finds `prior` in its vector. -/
def Call.after (stream : Bytes) (limit : ℕ) (prior : Bytes) : Call :=
  ⟨stream, limit, prior.length, prior.length + limit⟩

/-- `x` on a vector with `prior` in front is `y` on the rest of the vector. -/
abbrev Behind {α : Type} (prior out : Bytes) (x y : Decoder α) : Prop :=
  Mirrors (prior ++ ·) (prior.length + ·) out x y

lemma minus_add_left (k n m : ℕ) : (minus (k + n) (k + m) : Except Fault ℕ) = minus n m := by
  simp only [minus, Nat.add_le_add_iff_left, Nat.add_sub_add_left]

/-- Both vectors hold as much of what the call has decoded. -/
lemma minus_base : (minus (prior ++ out).length (Call.after stream limit prior).base : Except Fault ℕ) =
    minus out.length (Call.after stream limit []).base := by
  rw [length_append]
  exact minus_add_left prior.length out.length 0

lemma refuseIf_congr {c d : Prop} [Decidable c] [Decidable d] (h : c ↔ d) (e : LzvnError) :
    refuseIf c e = refuseIf d e := by
  unfold refuseIf failIf
  split <;> simp_all

/-- Both vectors have the same room left. -/
lemma ceiling_lt_iff {n : ℕ} : (Call.after stream limit prior).ceiling < (prior ++ out).length + n ↔
    (Call.after stream limit []).ceiling < out.length + n := by
  simp only [Call.after, length_append, length_nil]
  omega

lemma copyLiterals_behind (start literals next : ℕ) :
    Behind prior out (copyLiterals (.after stream limit prior) start literals next)
      (copyLiterals (.after stream limit []) start literals next) := by
  unfold copyLiterals
  split
  · exact .ret _
  · refine .lift_bind fun _ _ => .get_bind ?_
    rw [refuseIf_congr ceiling_lt_iff]
    refine .lift_bind fun _ _ => .lift_bind fun bytes _ => .modify_bind ?_ (.ret _)
    exact append_assoc prior out bytes

lemma copyBytes_behind (length source : ℕ) :
    Behind prior out (copyBytes length (prior.length + source)) (copyBytes length source) := by
  induction length generalizing out source with
  | zero => exact .ret _
  | succ length ih =>
    refine .get_bind ?_
    rw [List.getElem?_append_right (Nat.le_add_right _ _), Nat.add_sub_cancel_left]
    cases out[source]? with
    | none => exact .throw _
    | some byte =>
      refine .record_bind rfl (.modify_bind (append_assoc _ _ _) ?_)
      exact ih (source + 1)

lemma copyMatch_behind (start length distance : ℕ) :
    Behind prior out (copyMatch (.after stream limit prior) start length distance)
      (copyMatch (.after stream limit []) start length distance) := by
  unfold copyMatch
  split
  · exact .ret _
  · refine .lift_bind fun _ _ => .get_bind ?_
    rw [minus_base]
    refine .lift_bind fun decoded hdecoded => .lift_bind fun _ hfar => ?_
    rw [refuseIf_congr ceiling_lt_iff]
    refine .lift_bind fun _ _ => ?_
    -- the match starts within what this call has decoded
    have hle : distance ≤ out.length := by
      have h := (minus_eq_ok.mp hdecoded).2
      have h' := refuseIf_eq_ok.mp hfar
      simp only [Call.after, length_nil] at h
      omega
    have hsource : (minus (prior ++ out).length distance : Except Fault ℕ) =
        .ok (prior.length + (out.length - distance)) := by
      rw [minus_eq_ok, length_append]
      omega
    have hsource' : (minus out.length distance : Except Fault ℕ) = .ok (out.length - distance) :=
      minus_eq_ok.mpr ⟨hle, rfl⟩
    rw [hsource, hsource']
    exact copyBytes_behind length (out.length - distance)

lemma act_behind (c : Cursor) (action : Action) :
    Behind prior out (act (.after stream limit prior) c action) (act (.after stream limit []) c action) := by
  cases action with
  | finish => exact .ret _
  | skip => exact .ret _
  | copy order =>
    refine (copyLiterals_behind _ _ _).bind fun next _ => ?_
    exact (copyMatch_behind _ _ _).bind fun _ _ => .ret _

lemma decodeTurn_behind (c : Cursor) : Behind prior out (decodeTurn (.after stream limit prior) c)
    (decodeTurn (.after stream limit []) c) := by
  unfold decodeTurn
  change Behind prior out (match stream[c.offset]? with | none => _ | some _ => _)
    (match stream[c.offset]? with | none => _ | some _ => _)
  cases stream[c.offset]? with
  | none =>
    refine .get_bind ?_
    rw [minus_base]
    exact .lift_bind fun _ _ => .throw _
  | some opcode => exact .lift_bind fun action _ => act_behind c action

lemma decodeLoop_behind :
    Behind prior out (decodeLoop (.after stream limit prior)) (decodeLoop (.after stream limit [])) :=
  .loop (fun c _ => decodeTurn_behind c) _

end Independence

/-! ### Bounds -/

section Bounds

variable {stream : Bytes} {limit : ℕ}

/-- The vector stays below the limit, and no fault is a panic. -/
def bounded (limit : ℕ) : Contract Bytes Fault ℕ where
  inv out := out.length ≤ limit
  relies _ := True
  gives _ := True
  fails e := e ≠ .panic

lemma minus_base_nil {out : Bytes} :
    (minus out.length (Call.after stream limit []).base : Except Fault ℕ) = .ok out.length :=
  minus_eq_ok.mpr ⟨Nat.zero_le _, rfl⟩

lemma refuseIf_not_panic {c : Prop} [Decidable c] {e : LzvnError} :
    ∀ fault, refuseIf c e = .error fault → fault ≠ .panic := by
  unfold refuseIf failIf
  split <;> simp_all

lemma copyLiterals_bounded (start literals next : ℕ) :
    (bounded limit).Keeps (copyLiterals (.after stream limit []) start literals next) := by
  unfold copyLiterals
  split
  · exact .ret _
  · refine lift_bind refuseIf_not_panic fun _ hend => ?_
    refine get_bind fun out _ _ => lift_bind refuseIf_not_panic fun _ hroom => ?_
    rw [refuseIf_eq_ok] at hend hroom
    simp only [Call.after, length_nil, zero_add, not_lt] at hend hroom
    have hslice : (sliceAt stream next literals : Except Fault Bytes) = .ok (stream.slice next literals) :=
      sliceAt_eq_ok.mpr ⟨hend, rfl⟩
    rw [show (Call.after stream limit []).stream = stream from rfl, hslice]
    refine lift_bind (fun _ h => by cases h) fun bytes hbytes => ?_
    cases hbytes
    refine Triple.bind (Q := fun _ _ => True) (Triple.modify ?_ fun _ _ _ => trivial) fun _ =>
      Contract.Keeps.ret _
    rintro s _ rfl
    change (s ++ _).length ≤ limit
    rw [length_append, length_slice hend]
    exact hroom

lemma copyBytes_bounded (length source : ℕ) :
    Triple (bounded limit) (fun out => source < out.length ∧ out.length + length ≤ limit)
      (copyBytes length source) fun _ _ => True := by
  induction length generalizing source with
  | zero => exact (Contract.Keeps.ret ()).under _
  | succ length ih =>
    refine get_bind fun out _ hout => ?_
    rw [List.getElem?_eq_getElem hout.1]
    refine Triple.bind (Q := fun _ => (· = out)) (record fun s _ hs _ => ⟨trivial, hs⟩) fun _ => ?_
    refine Triple.bind (Q := fun _ out' => source + 1 < out'.length ∧ out'.length + length ≤ limit)
      (Triple.modify ?_ ?_) fun _ => ih (source + 1)
    · rintro s _ rfl
      change (s ++ [_]).length ≤ limit
      rw [length_append, length_singleton]
      omega
    · rintro s _ rfl
      rw [length_append, length_singleton]
      omega

lemma copyMatch_bounded (start length distance : ℕ) :
    (bounded limit).Keeps (copyMatch (.after stream limit []) start length distance) := by
  unfold copyMatch
  split
  · exact .ret _
  · refine lift_bind refuseIf_not_panic fun _ hset => get_bind fun out _ _ => ?_
    rw [minus_base_nil]
    refine lift_bind (fun _ h => by cases h) fun decoded hdecoded => ?_
    cases hdecoded
    refine lift_bind refuseIf_not_panic fun _ hfar => ?_
    refine lift_bind refuseIf_not_panic fun _ hroom => ?_
    rw [refuseIf_eq_ok] at hset hfar hroom
    simp only [Call.after, length_nil, zero_add, not_lt] at hfar hroom
    rw [show (minus out.length distance : Except Fault ℕ) = .ok (out.length - distance) from minus_eq_ok.mpr ⟨hfar, rfl⟩]
    refine lift_bind (fun _ h => by cases h) fun source hsource => ?_
    cases hsource
    refine (copyBytes_bounded length (out.length - distance)).conseq ?_ fun _ _ _ => id
    rintro _ _ rfl
    omega

lemma byteAt_ends (offset start : ℕ) : Ends (· ≠ .panic) (byteAt stream offset start) fun _ => True := by
  unfold byteAt
  split
  · trivial
  · exact Fault.noConfusion

lemma halfWordAt_ends (offset start : ℕ) : Ends (· ≠ .panic) (halfWordAt stream offset start) fun _ => True := by
  simp only [halfWordAt, Ends.bind_iff, Ends.pure_iff]
  exact (byteAt_ends _ _).conseq fun _ _ => (byteAt_ends _ _).conseq fun _ _ => trivial

/-- An opcode moves the position on. -/
def Action.MovesOn (start : ℕ) : Action → Prop
  | .copy order => start < order.next
  | _ => True

lemma readOpcode_ends (start distance opcode : ℕ) :
    Ends (· ≠ .panic) (readOpcode stream start distance opcode) (Action.MovesOn start) := by
  have hbyte : ∀ f : ℕ → Order, (∀ n, start < (f n).next) →
      Ends (· ≠ .panic) (byteAt stream (start + 1) start) fun n =>
        Action.MovesOn start (.copy (f n)) :=
    fun f hf => (byteAt_ends _ _).conseq fun n _ => hf n
  have hhalf : ∀ f : ℕ → Order, (∀ n, start < (f n).next) →
      Ends (· ≠ .panic) (halfWordAt stream (start + 1) start) fun n =>
        Action.MovesOn start (.copy (f n)) :=
    fun f hf => (halfWordAt_ends _ _).conseq fun n _ => hf n
  unfold readOpcode
  cases classify opcode <;> simp only [Ends.bind_iff, Ends.pure_iff]
  case endOfStream =>
    split
    · exact Fault.noConfusion
    · trivial
  case nop => trivial
  case reserved => exact Fault.noConfusion
  case smallDistance => exact hbyte _ fun _ => Nat.lt_add_of_pos_right (by decide)
  case mediumDistance => exact hhalf _ fun _ => Nat.lt_add_of_pos_right (by decide)
  case largeDistance => exact hhalf _ fun _ => Nat.lt_add_of_pos_right (by decide)
  case previousDistance => exact Nat.lt_succ_self start
  case smallLiteral => exact Nat.lt_succ_self start
  case largeLiteral => exact hbyte _ fun _ => Nat.lt_add_of_pos_right (by decide)
  case smallMatch => exact Nat.lt_succ_self start
  case largeMatch => exact hbyte _ fun _ => Nat.lt_add_of_pos_right (by decide)

lemma decodeTurn_bounded (c : Cursor) : (bounded limit).Keeps (decodeTurn (.after stream limit []) c) := by
  unfold decodeTurn
  split
  · refine get_bind fun out _ _ => ?_
    rw [minus_base_nil]
    refine lift_bind (fun _ h => by cases h) fun decoded _ => Triple.throw ?_
    nofun
  · refine lift_bind (fun _ => (readOpcode_ends _ _ _).of_error) fun action _ => ?_
    cases action with
    | finish => exact Contract.Keeps.ret _
    | skip => exact Contract.Keeps.ret _
    | copy order =>
      refine (copyLiterals_bounded _ _ _).bind fun next => ?_
      exact (copyMatch_bounded _ _ _).bind fun _ => .ret _

lemma decodeLoop_bounded : (bounded limit).Keeps (decodeLoop (.after stream limit [])) :=
  .loop decodeTurn_bounded _ _

lemma copyLiterals_halts (call : Call) (start literals next : ℕ) :
    Halts (next ≤ ·) (copyLiterals call start literals next) := by
  unfold copyLiterals
  split
  · exact .ret le_rfl
  · refine (Halts.lift fun _ _ => trivial).bind (Q := fun _ => True) fun _ _ => Halts.get.bind fun out _ => ?_
    refine (Halts.lift fun _ _ => trivial).bind (Q := fun _ => True) fun _ _ => ?_
    refine (Halts.lift fun _ _ => trivial).bind (Q := fun _ => True) fun bytes _ => ?_
    exact (Halts.modify _).bind fun _ _ => .ret (Nat.le_add_right _ _)

lemma copyBytes_halts (length source : ℕ) : Halts (fun _ => True) (copyBytes length source) := by
  induction length generalizing source with
  | zero => exact .ret trivial
  | succ length ih =>
    refine Halts.get.bind fun out _ => ?_
    split
    · exact .throw _
    · exact (Halts.record _).bind fun _ _ => (Halts.modify _).bind fun _ _ => ih _

lemma copyMatch_halts (call : Call) (start length distance : ℕ) :
    Halts (fun _ => True) (copyMatch call start length distance) := by
  have hlift : ∀ {α : Type} (r : Except Fault α), Halts (fun _ => True) (Proc.lift r : Decoder α) :=
    fun _ => .lift fun _ _ => trivial
  unfold copyMatch
  split
  · exact .ret trivial
  · refine (hlift _).bind fun _ _ => Halts.get.bind fun out _ => (hlift _).bind fun decoded _ => ?_
    refine (hlift _).bind fun _ _ => (hlift _).bind fun _ _ => (hlift _).bind fun source _ => ?_
    exact copyBytes_halts length source

/-- A turn that goes on has moved on in the stream. -/
lemma decodeTurn_halts (call : Call) (c : Cursor) :
    Halts (Turn.Holds (fun next => call.stream.length - next.offset < call.stream.length - c.offset)
      fun _ => True) (decodeTurn call c) := by
  unfold decodeTurn
  split
  · exact Halts.get.bind fun _ _ => (Halts.lift fun _ _ => trivial).bind (Q := fun _ => True)
      fun _ _ => .throw _
  · rename_i opcode hopcode
    have hlt : c.offset < call.stream.length := (List.getElem?_eq_some_iff.mp hopcode).1
    refine (Halts.lift fun _ => (readOpcode_ends c.offset c.distance opcode.toNat).of_ok).bind
      fun action haction => ?_
    cases action with
    | finish => exact .ret trivial
    | skip => exact .ret (show call.stream.length - (c.offset + 1) < _ by omega)
    | copy order =>
      refine (copyLiterals_halts _ _ _ _).bind fun next hnext => ?_
      refine (copyMatch_halts _ _ _ _).bind fun _ _ => .ret ?_
      have : c.offset < order.next := haction
      change call.stream.length - next < _
      omega

lemma decodeLoop_halts (call : Call) : Halts (fun _ => True) (decodeLoop call) :=
  .loop (fun c => call.stream.length - c.offset) (decodeTurn_halts call) (by omega)

end Bounds

/-- A call on a vector does what the loop does on an empty one, behind what the vector holds. -/
lemma decodeOnto_run (stream : Bytes) {limit : ℕ} {prior : Bytes}
    (h : prior.length + limit < 2 ^ 64) : (decodeOnto stream limit).run prior =
      ((decodeLoop (.after stream limit [])).run []).map (prior ++ ·) (prior.length + ·) := by
  have hbehind : (decodeLoop (.after stream limit prior)).run (prior ++ []) =
      ((decodeLoop (.after stream limit [])).run []).map (prior ++ ·) (prior.length + ·) :=
    decodeLoop_behind
  rw [← hbehind, append_nil, decodeOnto, Proc.bind_silent Proc.get_run]
  have hfit : refuseIf (2 ^ 64 ≤ prior.length + limit) (.outputTooLarge limit) = .ok () :=
    refuseIf_eq_ok.mpr (by omega)
  simp only [hfit]
  rw [Proc.bind_silent (Proc.lift_ok_run ())]
  rfl

lemma decodeOnto_run_nil (stream : Bytes) {limit : ℕ} (h : limit < 2 ^ 64) :
    (decodeOnto stream limit).run [] = (decodeLoop (.after stream limit [])).run [] := by
  rw [decodeOnto_run stream (by simpa using h)]
  simp [Result.map]

/-- The loop ends, without a panic and below the limit. -/
lemma decodeLoop_ends (stream : Bytes) (limit : ℕ) :
    (((decodeLoop (.after stream limit [])).run []).outcome = .ok () ∨
      ∃ e, ((decodeLoop (.after stream limit [])).run []).outcome = .error (.refused e)) ∧
    ((decodeLoop (.after stream limit [])).run []).state.length ≤ limit := by
  have hmeets := (decodeLoop_bounded : (bounded limit).Keeps (decodeLoop (.after stream limit []))) []
    (Nat.zero_le _) trivial fun _ _ => trivial
  have hends := (decodeLoop_halts (.after stream limit []) []).1
  refine ⟨?_, hmeets.inv⟩
  cases ho : ((decodeLoop (.after stream limit [])).run []).outcome with
  | ok _ => exact .inl rfl
  | error fault =>
    cases fault with
    | refused e => exact .inr ⟨e, rfl⟩
    | panic => exact absurd rfl (hmeets.fails _ ho)
  | running => exact absurd ho hends

lemma decode_of_le (stream : Bytes) {limit : ℕ} (h : limit ≤ isizeMax) : decode stream limit =
    match ((decodeLoop (.after stream limit [])).run []).outcome with
    | .ok () => .ok ((decodeLoop (.after stream limit [])).run []).state
    | .error e => .error e
    | .running => .running := by
  have hlimit : limit < 2 ^ 64 := Nat.lt_of_le_of_lt h (by decide)
  simp only [decode, withCapacity_of_le h, decodeOnto_run_nil stream hlimit]

/-- A call appends to the vector what a call on an empty vector decodes to, or fails as that one
does, as long as a vector of the limit's length can be made.  It does not touch what the vector held,
stays below the limit and does not panic, and no match reads a byte that was there before. -/
theorem decodeOnto_independent (stream : Bytes) (limit : ℕ) (prior : Bytes)
    (h : prior.length + limit < 2 ^ 64) :
    let r := (decodeOnto stream limit).run prior
    (r.outcome = .ok () ∨ ∃ e, r.outcome = .error (.refused e)) ∧
    prior <+: r.state ∧
    r.state.length ≤ prior.length + limit ∧
    (limit ≤ isizeMax →
      match decode stream limit with
      | .ok decoded => r.outcome = .ok () ∧ r.state = prior ++ decoded
      | .error fault => r.outcome = .error fault
      | .running => False) ∧
    ∀ source ∈ r.trace, prior.length ≤ source := by
  intro r
  let r₀ := (decodeLoop (.after stream limit [])).run []
  have hr : r = r₀.map (prior ++ ·) (prior.length + ·) := decodeOnto_run stream h
  obtain ⟨hends, hlength⟩ := decodeLoop_ends stream limit
  rw [hr]
  refine ⟨hends, prefix_append prior r₀.state, ?_, ?_, ?_⟩
  · change (prior ++ r₀.state).length ≤ _
    rw [length_append]
    exact Nat.add_le_add_left hlength _
  · intro hlimit
    rw [decode_of_le stream hlimit]
    change match (match r₀.outcome with | .ok () => _ | .error e => _ | .running => _ : Outcome Fault Bytes) with
      | .ok decoded => r₀.outcome = _ ∧ prior ++ r₀.state = _
      | .error fault => r₀.outcome = _
      | .running => False
    obtain ho | ⟨e, ho⟩ := hends
    · rw [show r₀.outcome = .ok () from ho]
      exact ⟨rfl, rfl⟩
    · rw [show r₀.outcome = .error (.refused e) from ho]
  · intro source hsource
    obtain ⟨i, -, rfl⟩ := mem_map.mp hsource
    exact Nat.le_add_right _ _

/-- The match of the call reads the byte it has just decoded, not the one before it. -/
theorem decodeOnto_independent_overlap :
    ((decodeOnto ([0xe1, 0x61, 0x00, 0x01, 0x06] ++ zeros 7) 4).run [0x70]).state =
      [0x70, 0x61, 0x61, 0x61, 0x61] := by
  have hdecode : decode ([0xe1, 0x61, 0x00, 0x01, 0x06] ++ zeros 7) 4 = .ok [0x61, 0x61, 0x61, 0x61] := by decide
  have h := (decodeOnto_independent ([0xe1, 0x61, 0x00, 0x01, 0x06] ++ zeros 7) 4 [0x70]
    (by decide)).2.2.2.1 (by decide)
  rw [hdecode] at h
  exact h.2

/-- From a limit of `2 ^ 63` on no vector can be made with room for it, while an existing one is
appended to. -/
theorem decode_panics_above_isize : decode (0x06 :: zeros 7) (2 ^ 63) = .error .panic ∧
    ((decodeOnto (0x06 :: zeros 7) (2 ^ 63)).run []).outcome = .ok () := by
  decide +kernel

end AppleUtils.Lzvn
