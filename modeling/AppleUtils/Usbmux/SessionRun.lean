import AppleUtils.Usbmux.Session
import Mathlib.Logic.Relation

/-! # Runs of a session

A run drives one session by any sequence of its operations.  `History` keeps, beside the
session, what crossed its boundary so far: every byte queued, every segment handed out by
`next_segment` and `retransmit_unacknowledged`, every byte accepted from the device, every byte
returned by `take_received`, and the acknowledgement numbers of the segments it processed.
`Step` is one operation under the conditions the send side relies on (`SessionOp.Allowed`):
bytes are queued only while `can_write` holds, a segment with an acknowledgement came off the
wire, and an acknowledgement that the session accepts lies in the modular interval from `sndUna`
to `sndNxt`. -/

namespace AppleUtils.Usbmux

open Serial

inductive SessionOp where
  | queue (data : Bytes) | nextSegment | retransmitUnacknowledged
  | onSegment (header : TcpHeader) (payload : Bytes) | probeWindow | requestAck | shutdownWrite
  | takeReceived (room : ℕ) | close

structure History where
  session : MuxSession
  queued : Bytes
  emitted : List Segment
  (accepted taken : Bytes)
  acks : List (BitVec 32)

namespace History

def start (s : MuxSession) : History := ⟨s, [], [], [], [], []⟩

/-- What a processed segment adds to the bytes accepted from the device. -/
def acceptedBy (payload : Bytes) : Except SessionError SessionEvent → Bytes
  | .ok (.data _) => payload
  | _ => []

/-- What a processed segment adds to the acknowledgements the device gave. -/
def acksBy (header : TcpHeader) : Except SessionError SessionEvent → List (BitVec 32)
  | .ok (.data _) | .ok .acknowledged | .ok (.outOfOrder _ _) =>
    if header.hasAck then [header.acknowledgement] else []
  | _ => []

def step (h : History) : SessionOp → History
  | .queue data => { h with session := h.session.queue data, queued := h.queued ++ data }
  | .nextSegment =>
    let (segment, s) := h.session.nextSegment
    { h with session := s, emitted := h.emitted ++ segment.toList }
  | .retransmitUnacknowledged =>
    { h with emitted := h.emitted ++ h.session.retransmitUnacknowledged.toList }
  | .onSegment header payload =>
    let (event, s) := h.session.onSegment header payload
    { h with
      session := s
      accepted := h.accepted ++ acceptedBy payload event
      acks := h.acks ++ acksBy header event }
  | .probeWindow => { h with session := h.session.probeWindow.2 }
  | .requestAck => { h with session := h.session.requestAck }
  | .shutdownWrite => { h with session := h.session.shutdownWrite.2 }
  | .takeReceived room =>
    let (bytes, s) := h.session.takeReceived room
    { h with session := s, taken := h.taken ++ bytes }
  | .close => { h with session := h.session.close.2 }

end History

/-- The modular interval from `sndUna` to `sndNxt`. -/
def MuxSession.AckInWindow (s : MuxSession) (acknowledgement : BitVec 32) : Prop :=
  (acknowledgement - s.sndUna).toNat ≤ (s.sndNxt - s.sndUna).toNat

instance (s : MuxSession) : DecidablePred s.AckInWindow := fun _ =>
  inferInstanceAs (Decidable (_ ≤ _))

/-- The header came through `TcpHeader::decode`. -/
def TcpHeader.OffWire (h : TcpHeader) : Prop := ∃ bytes, TcpHeader.decode bytes = .ok h

/-- The conditions of a run on the operation it performs next. -/
def SessionOp.Allowed (s : MuxSession) : SessionOp → Prop
  | .queue _ => s.canWrite = true
  | .onSegment header payload => header.hasAck = true → header.OffWire ∧
      ∀ a ∈ History.acksBy header (s.onSegment header payload).1, s.AckInWindow a
  | _ => True

/-- One operation of a run. -/
def Step (h h' : History) : Prop := ∃ op : SessionOp, op.Allowed h.session ∧ h' = h.step op

/-- The histories of the sessions built by `MuxSession::open`. -/
def Driven (config : SessionConfig) : History → Prop :=
  Relation.ReflTransGen Step (History.start (MuxSession.open config).1)

/-- Every operation of the list is allowed when its turn comes. -/
def AllowedInTurn (h : History) : List SessionOp → Prop
  | [] => True
  | op :: ops => op.Allowed h.session ∧ AllowedInTurn (h.step op) ops

/-- Operations that are allowed in turn make a run. -/
lemma Driven.foldl {config : SessionConfig} {h : History} (hr : Driven config h)
    {ops : List SessionOp} (hops : AllowedInTurn h ops) : Driven config (ops.foldl History.step h) := by
  induction ops generalizing h with
  | nil => exact hr
  | cons op ops ih => exact ih (hr.tail ⟨op, hops.1, rfl⟩) hops.2

/-! ### What an operation can do to the send side -/

namespace MuxSession

/-- The two sessions have the same send side. -/
structure SameSend (s s' : MuxSession) : Prop where
  config : s'.config = s.config
  sndNxt : s'.sndNxt = s.sndNxt
  sndUna : s'.sndUna = s.sndUna
  sndWndEdge : s'.sndWndEdge = s.sndWndEdge
  outbound : s'.outbound = s.outbound
  unacknowledged : s'.unacknowledged = s.unacknowledged
  writeShutdown : s'.writeShutdown = s.writeShutdown
  sentFin : s'.sentFin = s.sentFin

lemma SameSend.refl (s : MuxSession) : SameSend s s := ⟨rfl, rfl, rfl, rfl, rfl, rfl, rfl, rfl⟩

lemma SameSend.trans {s₁ s₂ s₃ : MuxSession} (h : SameSend s₁ s₂) (h' : SameSend s₂ s₃) : SameSend s₁ s₃ :=
  ⟨h'.config.trans h.config, h'.sndNxt.trans h.sndNxt, h'.sndUna.trans h.sndUna,
    h'.sndWndEdge.trans h.sndWndEdge, h'.outbound.trans h.outbound,
    h'.unacknowledged.trans h.unacknowledged, h'.writeShutdown.trans h.writeShutdown,
    h'.sentFin.trans h.sentFin⟩

section

variable (s : MuxSession)

lemma acceptPayload_sameSend (header : TcpHeader) (payload : Bytes) :
    SameSend s (s.acceptPayload header payload).2 := by
  unfold acceptPayload
  split
  · exact SameSend.refl s
  · split <;> exact ⟨rfl, rfl, rfl, rfl, rfl, rfl, rfl, rfl⟩

lemma acceptPayload_state (header : TcpHeader) (payload : Bytes) :
    (s.acceptPayload header payload).2.state = s.state := by
  unfold acceptPayload
  split
  · rfl
  · split <;> rfl

lemma advance_config (header : TcpHeader) : (s.advance header).config = s.config := by
  unfold advance updateWindow
  split <;> split <;> rfl

lemma nextSegment_config : s.nextSegment.2.config = s.config := by
  rcases s.nextSegment_cases with ⟨_, _, _, e⟩ | ⟨_, _, _, _, _, e⟩ | ⟨_, _, e⟩ | e <;> rw [e] <;> rfl

/-- What taking the acknowledgement does to the two queues. -/
lemma advance_queues (header : TcpHeader) :
    ((s.advance header).unacknowledged = s.unacknowledged ∧ (s.advance header).outbound = s.outbound) ∨
    (header.hasAck = true ∧ (s.advance header).unacknowledged = s.unacknowledged.drop
      (min (header.acknowledgement - s.sndUna).toNat s.unacknowledged.length) ∧
      (s.advance header).outbound = s.outbound) := by
  unfold advance
  split
  · rename_i h
    rw [Bool.and_eq_true] at h
    refine .inr ⟨h.1, ?_, ?_⟩ <;> rw [updateWindow, if_pos h.1] <;> rfl
  · unfold updateWindow
    split <;> exact .inl ⟨rfl, rfl⟩

lemma requestAck_sameSend : SameSend s s.requestAck := by
  unfold requestAck
  split <;> exact ⟨rfl, rfl, rfl, rfl, rfl, rfl, rfl, rfl⟩

lemma probeWindow_sameSend : SameSend s s.probeWindow.2 := by
  unfold probeWindow
  split
  · exact SameSend.refl s
  · split <;> exact ⟨rfl, rfl, rfl, rfl, rfl, rfl, rfl, rfl⟩

lemma requestAck_state : s.requestAck.state = s.state := by
  unfold requestAck
  split <;> rfl

lemma probeWindow_state : s.probeWindow.2.state = s.state := by
  unfold probeWindow
  split
  · rfl
  · split <;> rfl

lemma shutdownWrite_cases : s.shutdownWrite.2 = s ∨ s.shutdownWrite.2 = { s with writeShutdown := true } := by
  unfold shutdownWrite
  split
  · exact .inl rfl
  · exact .inr rfl

end

end MuxSession

lemma History.acksBy_acceptPayload (s : MuxSession) (header : TcpHeader) (payload : Bytes) :
    History.acksBy header (.ok (s.acceptPayload header payload).1) =
      if header.hasAck then [header.acknowledgement] else [] := by
  unfold MuxSession.acceptPayload
  split
  · rfl
  · split <;> rfl

end AppleUtils.Usbmux
