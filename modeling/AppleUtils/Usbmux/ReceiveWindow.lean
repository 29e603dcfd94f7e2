import AppleUtils.Usbmux.LinkRules
import AppleUtils.Usbmux.ReceiveStream

/-! # What a session promises to receive

Every segment a session emits carries the number it expects next and a window.  The window loses
its low byte on the wire, so the edge the device sees is never beyond what is free
(`wireWindow_le`).  `Promised` keeps beside a history the furthest edge the device has been sent, as
a position of the device's stream.  If the device sends no payload beyond it, the buffer never
holds more than the receive window (`receiveWindow_kept`): an edge sent earlier is still good for
the buffer later, because reading only frees room. -/

namespace AppleUtils.Usbmux

open List MuxSession

variable {segment : Segment} {op : SessionOp}

/-! ### The edge of a segment -/

namespace TcpHeader

/-- The window of the header as the peer reads it. -/
def wireWindow (h : TcpHeader) : ℕ := (windowFromWire (windowToWire h.window)).toNat

lemma wireWindow_le (h : TcpHeader) : h.wireWindow ≤ h.window.toNat := by
  unfold wireWindow
  rw [windowFromWire_toNat]
  unfold windowToWire
  have hscaled : (h.window >>> WINDOW_SCALE_SHIFT).toNat = h.window.toNat / 256 := by
    rw [BitVec.toNat_ushiftRight, WINDOW_SCALE_SHIFT, Nat.shiftRight_eq_div_pow]
  dsimp only
  split
  · rename_i hbig
    rw [BitVec.lt_def, hscaled] at hbig
    have hmax : ((0xffff : BitVec 16)).toNat = 65535 := rfl
    have hmax' : ((0xffff : BitVec 32)).toNat = 65535 := rfl
    omega
  · rename_i hsmall
    rw [BitVec.lt_def, hscaled] at hsmall
    have hmax : ((0xffff : BitVec 32)).toNat = 65535 := rfl
    rw [BitVec.toNat_setWidth, hscaled]
    omega

end TcpHeader

/-- The segment an operation hands out. -/
def SessionOp.handsOut (s : MuxSession) : SessionOp → Option Segment
  | .nextSegment => s.nextSegment.1
  | .retransmitUnacknowledged => s.retransmitUnacknowledged
  | .close => some s.close.1
  | _ => none

/-- The segment offers the device no more than is free. -/
structure Segment.Offers (segment : Segment) (s : MuxSession) : Prop where
  acknowledgement : segment.header.acknowledgement = s.rcvNxt
  window : segment.header.wireWindow ≤ s.advertisedWindow.toNat

namespace MuxSession

variable {s : MuxSession}

lemma nextSegment_offers (h : s.nextSegment.1 = some segment) : segment.Offers s := by
  rcases s.nextSegment_cases with ⟨_, _, _, e⟩ | ⟨_, _, _, _, _, e⟩ | ⟨_, _, e⟩ | e <;> rw [e] at h
  · cases h
    exact ⟨rfl, TcpHeader.wireWindow_le _⟩
  · cases h
    exact ⟨rfl, TcpHeader.wireWindow_le _⟩
  · cases h
    exact ⟨rfl, TcpHeader.wireWindow_le _⟩
  · cases h

lemma retransmitUnacknowledged_offers (h : s.retransmitUnacknowledged = some segment) : segment.Offers s := by
  unfold retransmitUnacknowledged at h
  split at h
  · cases h
  · split at h
    · split at h
      · cases h
      · split at h
        · cases h
        · cases h
          exact ⟨rfl, TcpHeader.wireWindow_le _⟩
    · dsimp only at h
      split at h
      · cases h
      · cases h
        exact ⟨rfl, TcpHeader.wireWindow_le _⟩

lemma close_offers (s : MuxSession) : s.close.1.Offers s :=
  ⟨rfl, (TcpHeader.wireWindow_le _).trans (Nat.zero_le _)⟩

lemma open_offers (config : SessionConfig) : (MuxSession.open config).2.Offers (MuxSession.open config).1 := by
  refine ⟨rfl, (TcpHeader.wireWindow_le _).trans ?_⟩
  change config.receiveWindow.toNat ≤ (MuxSession.open config).1.advertisedWindow.toNat
  have hopen : (MuxSession.open config).1.advertisedWindow = config.receiveWindow := by
    unfold advertisedWindow
    simp [MuxSession.open]
  rw [hopen]

lemma handsOut_offers (h : op.handsOut s = some segment) : segment.Offers s := by
  cases op with
  | nextSegment => exact nextSegment_offers h
  | retransmitUnacknowledged => exact retransmitUnacknowledged_offers h
  | close =>
    cases h
    exact s.close_offers
  | _ => cases h

/-- While the buffer is within the window, what is offered is what is free. -/
lemma advertisedWindow_toNat (h : s.inbound.length ≤ s.config.receiveWindow.toNat) :
    s.advertisedWindow.toNat = s.config.receiveWindow.toNat - s.inbound.length := by
  have hlt := s.config.receiveWindow.isLt
  have hused : (BitVec.ofNat 32 s.inbound.length).toNat = s.inbound.length := by
    rw [BitVec.toNat_ofNat]
    omega
  have hfits : s.inbound.length < 2 ^ 32 := by omega
  have hroom : ¬ s.config.receiveWindow < BitVec.ofNat 32 s.inbound.length := by
    rw [BitVec.lt_def, hused]
    omega
  unfold advertisedWindow
  dsimp only
  rw [if_pos hfits, if_neg hroom, BitVec.toNat_sub, hused]
  omega

end MuxSession

/-! ### Promises along a run -/

/-- A history and the furthest edge the device has been sent, counted from its first byte. -/
structure Promised where
  history : History
  edge : ℕ

/-- The position of `rcv_nxt` in the device's stream: a FIN takes a number of its own. -/
def History.received (h : History) : ℕ := h.accepted.length + h.session.finAccepted

namespace Promised

/-- The SYN is the first offer. -/
def start (config : SessionConfig) : Promised where
  history := History.start (MuxSession.open config).1
  edge := (MuxSession.open config).2.header.wireWindow

def step (p : Promised) (op : SessionOp) : Promised where
  history := p.history.step op
  edge :=
    match op.handsOut p.history.session with
    | none => p.edge
    | some segment => max p.edge (p.history.received + segment.header.wireWindow)

/-- The payload of a segment that is accepted ends at or before the furthest edge. -/
def Respects (p : Promised) : SessionOp → Prop
  | .onSegment header payload =>
    (∃ n, (p.history.session.onSegment header payload).1 = .ok (.data n)) →
      payload ≠ [] → p.history.accepted.length + payload.length ≤ p.edge
  | _ => True

/-- The runs of a session whose device sends no payload beyond the furthest edge. -/
def Run (config : SessionConfig) : Promised → Prop :=
  Relation.ReflTransGen (fun p p' => ∃ op : SessionOp, p.Respects op ∧ p' = p.step op)
    (start config)

end Promised

/-! ### What an operation keeps -/

namespace History

lemma step_config (h : History) (op : SessionOp) : (h.step op).session.config = h.session.config := by
  cases op with
  | nextSegment => exact h.session.nextSegment_config
  | onSegment header payload => exact h.session.onSegment_config header payload
  | probeWindow => exact h.session.probeWindow_sameSend.config
  | requestAck => exact h.session.requestAck_sameSend.config
  | shutdownWrite =>
    change h.session.shutdownWrite.2.config = _
    rcases h.session.shutdownWrite_cases with e | e <;> rw [e]
  | _ => rfl

lemma onSegment_finAccepted (s : MuxSession) (header : TcpHeader) (payload : Bytes) :
    s.finAccepted ≤ (s.onSegment header payload).2.finAccepted := by
  rcases s.onSegment_cases header payload with
    ⟨_, _, _, e⟩ | ⟨_, _, e⟩ | ⟨_, _, _, _, e⟩ | ⟨_, _, e⟩ <;> rw [e]
  · exact le_refl _
  · exact le_refl _
  · exact le_refl _
  · have hadvance : (s.counted.advance header).peerFin = s.peerFin :=
      (s.counted.advance_sameRecv header).peerFin
    unfold finAccepted
    rw [← hadvance]
    rcases (s.counted.advance header).acceptPayload_cases header payload with
      ⟨hsame, _⟩ | ⟨_, hnone, _⟩
    · rw [hsame.peerFin]
    · simp [hnone]

/-- A FIN once accepted stays accepted. -/
lemma step_finAccepted (h : History) (op : SessionOp) :
    h.session.finAccepted ≤ (h.step op).session.finAccepted := by
  have same {s s' : MuxSession} (hs : s.SameRecv s') : s.finAccepted ≤ s'.finAccepted := by
    unfold finAccepted
    rw [hs.peerFin]
  cases op with
  | nextSegment => exact same h.session.nextSegment_sameRecv
  | onSegment header payload => exact onSegment_finAccepted h.session header payload
  | probeWindow => exact same h.session.probeWindow_sameRecv
  | requestAck => exact same h.session.requestAck_sameRecv
  | shutdownWrite => exact same h.session.shutdownWrite_sameRecv
  | _ => exact le_refl _

/-- Payload is accepted only by a segment that reports data. -/
lemma acceptedBy_ne_nil {payload : Bytes} {event : Except SessionError SessionEvent}
    (h : acceptedBy payload event ≠ []) : ∃ n, event = .ok (.data n) := by
  unfold acceptedBy at h
  split at h
  · exact ⟨_, rfl⟩
  · exact absurd rfl h

lemma step_taken (h : History) (op : SessionOp) : h.taken.length ≤ (h.step op).taken.length := by
  cases op with
  | takeReceived room => simp [step]
  | _ => exact le_refl _

end History

namespace Promised

/-- The buffer is within the window, and no edge reaches beyond the window past what was read. -/
structure Kept (config : SessionConfig) (p : Promised) : Prop where
  config_eq : p.history.session.config = config
  balance : p.history.accepted = p.history.taken ++ p.history.session.inbound
  room : p.history.session.inbound.length ≤ config.receiveWindow.toNat
  edge : p.edge ≤ config.receiveWindow.toNat + p.history.taken.length +
    p.history.session.finAccepted

variable {config : SessionConfig} {p : Promised}

lemma Kept.start (config : SessionConfig) : Kept config (start config) := by
  refine ⟨rfl, rfl, Nat.zero_le _, ?_⟩
  exact (TcpHeader.wireWindow_le _).trans (Nat.le_add_right_of_le (Nat.le_add_right _ _))

/-- The edge of an emitted segment is within the window past what was read. -/
lemma Kept.offer (h : Kept config p)
    (he : op.handsOut p.history.session = some segment) : p.history.received + segment.header.wireWindow ≤
      config.receiveWindow.toNat + p.history.taken.length + p.history.session.finAccepted := by
  have hwindow := (handsOut_offers he).window
  have hroom := h.room
  have hbalance := congrArg List.length h.balance
  rw [advertisedWindow_toNat (by rw [h.config_eq]; exact hroom), h.config_eq] at hwindow
  rw [length_append] at hbalance
  unfold History.received
  omega

lemma Kept.step (h : Kept config p) (hop : p.Respects op) : Kept config (p.step op) := by
  have hconfig := (p.history.step_config op).trans h.config_eq
  have hbalance := History.step_accepted h.balance op
  have htaken := p.history.step_taken op
  have hfin := p.history.step_finAccepted op
  refine ⟨hconfig, hbalance, ?_, ?_⟩
  · -- Only accepted payload fills the buffer, and it ends before the edge.
    have hroom := h.room
    have hedge := h.edge
    have hlength := congrArg List.length h.balance
    rw [length_append] at hlength
    change (p.history.step op).session.inbound.length ≤ _
    cases p.history.step_recv op with
    | keeps _ same => rwa [same.inbound]
    | handshake _ _ inbound => rwa [inbound]
    | takes _ bytes =>
      have hbytes := congrArg List.length bytes
      rw [length_append, length_append] at hbytes
      omega
    | accepts header payload _ before inbound _ _ _ accepted =>
      rw [inbound, length_append]
      by_cases hnil : payload = []
      · rw [hnil, length_nil]
        omega
      · have haccepted : History.acceptedBy payload
            (p.history.session.onSegment header payload).1 = payload :=
          append_cancel_left accepted
        have hdata := History.acceptedBy_ne_nil (by rw [haccepted]; exact hnil)
        have hlimit := hop hdata hnil
        have hnofin : p.history.session.finAccepted = 0 := by simp [finAccepted, before]
        omega
  · have hedge := h.edge
    change (match op.handsOut p.history.session with
      | none => p.edge
      | some segment => max p.edge (p.history.received + segment.header.wireWindow)) ≤
        config.receiveWindow.toNat + (p.history.step op).taken.length + (p.history.step op).session.finAccepted
    cases he : op.handsOut p.history.session with
    | none =>
      dsimp only
      omega
    | some segment =>
      have hoffer := h.offer he
      exact max_le (by omega) (by omega)

lemma Run.kept (hr : Run config p) : Kept config p := by
  induction hr with
  | refl => exact Kept.start config
  | tail _ hstep ih =>
    obtain ⟨op, hop, rfl⟩ := hstep
    exact ih.step hop

end Promised

/-- Every segment a session emits, and the SYN before them, offers an edge no further than
`rcv_nxt + advertised_window`; and if the device sends no payload beyond the furthest edge, the
buffer stays within the receive window and what is offered is exactly what is free. -/
theorem receiveWindow_kept (config : SessionConfig) : (MuxSession.open config).2.Offers (MuxSession.open config).1 ∧
    (∀ (s : MuxSession) (op : SessionOp) (segment : Segment),
      op.handsOut s = some segment → segment.Offers s) ∧ ∀ p : Promised, Promised.Run config p →
      p.history.session.config = config ∧ p.history.session.inbound.length ≤ config.receiveWindow.toNat ∧
        p.history.session.advertisedWindow.toNat = config.receiveWindow.toNat - p.history.session.inbound.length := by
  refine ⟨open_offers config, fun s op segment => handsOut_offers, ?_⟩
  intro p hr
  have hkept := hr.kept
  have hroom := hkept.room
  rw [← hkept.config_eq] at hroom ⊢
  exact ⟨rfl, hroom, advertisedWindow_toNat hroom⟩

/-- The handshake, the acknowledgement that follows it, and two bytes of the device. -/
def promiseOps : List SessionOp :=
  [.onSegment feedSynAck [], .nextSegment, .onSegment (feedHeader 0 flags.ACK) [10, 11]]

theorem receiveWindow_kept_feed : let p := promiseOps.foldl Promised.step (Promised.start feedConfig)
  Promised.Run feedConfig p ∧ p.history.accepted = [10, 11] ∧ (p.history.session.config = feedConfig ∧
    p.history.session.inbound.length ≤ feedConfig.receiveWindow.toNat ∧ p.history.session.advertisedWindow.toNat =
        feedConfig.receiveWindow.toNat - p.history.session.inbound.length) := by
  have hrun : Promised.Run feedConfig
      (promiseOps.foldl Promised.step (Promised.start feedConfig)) := by
    have hopened : Promised.Run feedConfig ((Promised.start feedConfig).step
        (.onSegment feedSynAck [])) :=
      Relation.ReflTransGen.refl.tail
        ⟨.onSegment feedSynAck [], fun _ hne => absurd rfl hne, rfl⟩
    have hacked := hopened.tail ⟨.nextSegment, trivial, rfl⟩
    have hdata := hacked.tail
      ⟨.onSegment (feedHeader 0 flags.ACK) [10, 11], fun _ _ => by decide, rfl⟩
    simp only [promiseOps, foldl_cons, foldl_nil]
    exact hdata
  exact ⟨hrun, by decide, (receiveWindow_kept feedConfig).2.2 _ hrun⟩

end AppleUtils.Usbmux
