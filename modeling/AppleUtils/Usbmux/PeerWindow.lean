import AppleUtils.Usbmux.ReceiveStream

/-! # What a session sends against an arbitrary peer

`SendWindow` is the send side of a session reduced to its four counters: what is acknowledged,
what is sent, the edge the peer allowed last, and the widest window it ever allowed.  Its two
steps are sending within the usable window and taking a peer's acknowledgement and window.
Every operation of a session is one of them or leaves the counters alone.

The edge is taken from any acknowledgement that is not ahead of what was sent, however far behind
it is.  One about `2 ^ 31` behind that comes with a window smaller than what is in flight wraps the
signed comparison of `usable_window`, and the session may then send far beyond every window it was
given: `farBehind_overruns`.  As long as no acknowledgement is that far behind
(`MuxSession.AckNear`), what is in flight stays within the widest window
(`inFlight_le_maxPeerWindow`). -/

namespace AppleUtils.Usbmux

open Serial History

variable {header : TcpHeader} {config : SessionConfig} {h : History}

/-! ### The window on its own -/

structure SendWindow where
  (una nxt edge widest : BitVec 32)

namespace SendWindow

def inFlight (w : SendWindow) : ℕ := (w.nxt - w.una).toNat

def usable (w : SendWindow) : ℕ := if (w.edge - w.nxt).toInt ≤ 0 then 0 else (w.edge - w.nxt).toNat

def sent (w : SendWindow) (n : ℕ) : SendWindow := { w with nxt := w.nxt + BitVec.ofNat 32 n }

/-- An acknowledgement moves `una` if it compares greater; the edge is taken in any case. -/
def took (w : SendWindow) (ack window : BitVec 32) : SendWindow where
  una := if 0 < (ack - w.una).toInt then ack else w.una
  nxt := w.nxt
  edge := ack + window
  widest := wordMax w.widest window

/-- An acknowledgement that compares greater, or is not so far behind that the edge it gives
compares greater than what was sent. -/
def AckNear (w : SendWindow) (ack window : BitVec 32) : Prop :=
  0 < (ack - w.una).toInt ∨ (w.una - ack).toNat + w.inFlight ≤ 2 ^ 31 + window.toNat

/-- What is in flight and what may be added to it is within the widest window. -/
structure Within (w : SendWindow) : Prop where
  small : w.widest.toNat < 2 ^ 24
  room : w.inFlight + w.usable ≤ w.widest.toNat

lemma usable_eq (w : SendWindow) : w.usable =
    if 0 < (w.edge - w.nxt).toNat ∧ 2 * (w.edge - w.nxt).toNat < 2 ^ 32 then (w.edge - w.nxt).toNat else 0 := by
  unfold usable
  simp only [← toInt_pos_iff]
  split <;> split <;> omega

lemma wordMax_toNat (a b : BitVec 32) : (wordMax a b).toNat = max a.toNat b.toNat := by
  unfold wordMax
  split
  · rename_i h
    rw [BitVec.lt_def] at h
    omega
  · rename_i h
    rw [BitVec.lt_def] at h
    omega

/-- Sending within the usable window uses it up. -/
lemma Within.sent {w : SendWindow} (h : w.Within) {n : ℕ} (hn : n ≤ w.usable) : (w.sent n).Within := by
  obtain ⟨hsmall, hroom⟩ := h
  refine ⟨hsmall, ?_⟩
  have hflight : (w.sent n).nxt - w.una = (w.nxt - w.una) + BitVec.ofNat 32 n := by
    unfold SendWindow.sent
    ring
  have hedge : w.edge - (w.sent n).nxt = (w.edge - w.nxt) - BitVec.ofNat 32 n := by
    unfold SendWindow.sent
    ring
  have hx := congrArg BitVec.toNat hflight
  have hr := congrArg BitVec.toNat hedge
  rw [BitVec.toNat_add, BitVec.toNat_ofNat] at hx
  rw [BitVec.toNat_sub (w.edge - w.nxt), BitVec.toNat_ofNat] at hr
  rw [usable_eq] at hroom hn ⊢
  unfold inFlight at hroom ⊢
  change ((w.sent n).nxt - w.una).toNat + (if 0 < (w.edge - (w.sent n).nxt).toNat ∧
    2 * (w.edge - (w.sent n).nxt).toNat < 2 ^ 32 then (w.edge - (w.sent n).nxt).toNat else 0) ≤ w.widest.toNat
  by_cases hopen : 0 < (w.edge - w.nxt).toNat ∧ 2 * (w.edge - w.nxt).toNat < 2 ^ 32
  · rw [if_pos hopen] at hroom hn
    split <;> omega
  · rw [if_neg hopen] at hroom hn
    split <;> omega

lemma Within.took {w : SendWindow} (h : w.Within) {ack window : BitVec 32}
    (hwindow : window.toNat < 2 ^ 24) (hnear : w.AckNear ack window)
    (hsent : ¬ (0 < (ack - w.una).toInt ∧ 0 < (ack - w.nxt).toInt)) : (w.took ack window).Within := by
  obtain ⟨hsmall, hroom⟩ := h
  have hwidest : (w.took ack window).widest.toNat = max w.widest.toNat window.toNat :=
    wordMax_toNat _ _
  refine ⟨by omega, ?_⟩
  rw [hwidest, usable_eq]
  have hflight : w.inFlight ≤ w.widest.toNat := by omega
  unfold AckNear at hnear
  unfold inFlight at hflight hnear ⊢
  rw [toInt_pos_iff] at hnear hsent
  rw [toInt_pos_iff] at hsent
  -- Everything in terms of the three distances from `una`.
  have hnxt : (ack - w.nxt) = (ack - w.una) - (w.nxt - w.una) := by ring
  have hback : (w.una - ack) = -(ack - w.una) := by ring
  have hedge : (w.took ack window).edge - w.nxt = (ack - w.una) + window - (w.nxt - w.una) := by
    unfold SendWindow.took
    ring
  have hnxt := congrArg BitVec.toNat hnxt
  have hback := congrArg BitVec.toNat hback
  have hedge := congrArg BitVec.toNat hedge
  rw [BitVec.toNat_sub (ack - w.una)] at hnxt
  rw [BitVec.toNat_neg] at hback
  rw [BitVec.toNat_sub (ack - w.una + window), BitVec.toNat_add] at hedge
  have hlt := (ack - w.una).isLt
  change ((w.nxt - if 0 < (ack - w.una).toInt then ack else w.una).toNat +
    if 0 < ((w.took ack window).edge - w.nxt).toNat ∧ 2 * ((w.took ack window).edge - w.nxt).toNat < 2 ^ 32 then
        ((w.took ack window).edge - w.nxt).toNat else 0) ≤ _
  by_cases hgt : 0 < (ack - w.una).toInt
  · have hfresh : (w.nxt - ack) = (w.nxt - w.una) - (ack - w.una) := by ring
    have hfresh := congrArg BitVec.toNat hfresh
    rw [BitVec.toNat_sub (w.nxt - w.una)] at hfresh
    rw [if_pos hgt]
    rw [toInt_pos_iff] at hgt
    split <;> omega
  · rw [if_neg hgt]
    rw [toInt_pos_iff] at hgt
    split <;> omega

end SendWindow

/-! ### The window of a session -/

namespace MuxSession

def sendWindow (s : MuxSession) : SendWindow := ⟨s.sndUna, s.sndNxt, s.sndWndEdge, s.maxPeerWindow⟩

lemma sendWindow_inFlight (s : MuxSession) : s.sendWindow.inFlight = s.inFlight.toNat := rfl

/-- The acknowledgement of the segment, if an established session looks at it, is near. -/
def AckNear (s : MuxSession) (header : TcpHeader) : Prop :=
  s.state = .established → header.hasAck = true →
    s.sendWindow.AckNear header.acknowledgement header.window

lemma acceptPayload_sendWindow (s : MuxSession) (header : TcpHeader) (payload : Bytes) :
    (s.acceptPayload header payload).2.sendWindow = s.sendWindow := by
  unfold acceptPayload
  split
  · rfl
  · split <;> rfl

lemma advance_sendWindow (s : MuxSession) (header : TcpHeader) : (s.advance header).sendWindow =
    if header.hasAck then s.sendWindow.took header.acknowledgement header.window else s.sendWindow := by
  unfold advance updateWindow
  cases hack : header.hasAck with
  | false => rfl
  | true =>
    simp only [Bool.true_and, if_true, seqGt, decide_eq_true_eq]
    unfold sendWindow SendWindow.took
    split
    · rfl
    · rfl

/-- Pulling a segment sends within the usable window. -/
lemma nextSegment_sendWindow (s : MuxSession) :
    ∃ n ≤ s.usableWindow, s.nextSegment.2.sendWindow = s.sendWindow.sent n := by
  have hnone : s.sendWindow.sent 0 = s.sendWindow := by simp [SendWindow.sent]
  rcases s.nextSegment_cases with ⟨_, _, _, e⟩ | ⟨_, husable, _, _, _, e⟩ | ⟨_, _, e⟩ | e
  · exact ⟨s.nextTake, min_le_right _ _, by rw [e]; rfl⟩
  · exact ⟨1, husable, by rw [e]; rfl⟩
  · exact ⟨0, Nat.zero_le _, by rw [e, hnone]; rfl⟩
  · exact ⟨0, Nat.zero_le _, by rw [e, hnone]⟩

/-- The widest window came off the wire, and an established session is within it. -/
structure WindowInv (s : MuxSession) : Prop where
  small : s.maxPeerWindow.toNat < 2 ^ 24
  within : s.state = .established → s.sendWindow.Within

variable {s s' : MuxSession}

lemma WindowInv.congr (h : s.WindowInv) (hw : s'.sendWindow = s.sendWindow)
    (hst : s'.state = .established → s.state = .established) : s'.WindowInv := by
  refine ⟨?_, ?_⟩
  · have hwidest : s'.maxPeerWindow = s.maxPeerWindow := congrArg SendWindow.widest hw
    rw [hwidest]
    exact h.small
  · intro hs
    rw [hw]
    exact h.within (hst hs)

lemma WindowInv.nextSegment (h : s.WindowInv) : s.nextSegment.2.WindowInv := by
  obtain ⟨n, hn, hw⟩ := s.nextSegment_sendWindow
  have hwidest : s.nextSegment.2.maxPeerWindow = s.maxPeerWindow := congrArg SendWindow.widest hw
  refine ⟨by rw [hwidest]; exact h.small, ?_⟩
  intro hst
  have hst₀ : s.state = .established := by
    rcases s.nextSegment_cases with ⟨hs, _⟩ | ⟨hs, _⟩ | ⟨hs, _⟩ | e
    · exact hs
    · exact hs
    · exact hs
    · rwa [e] at hst
  rw [hw]
  exact (h.within hst₀).sent hn

lemma WindowInv.completeHandshake (h : s.WindowInv)
    (hwindow : header.window.toNat < 2 ^ 24) (hack : header.acknowledgement = s.config.initialSequence + 1) :
    (s.completeHandshake header).WindowInv := by
  have hwidest : (s.completeHandshake header).maxPeerWindow.toNat =
      max s.maxPeerWindow.toNat header.window.toNat := SendWindow.wordMax_toNat _ _
  have hsmall := h.small
  refine ⟨by omega, fun _ => ⟨by change (s.completeHandshake header).maxPeerWindow.toNat < _; omega, ?_⟩⟩
  have hroom : (s.completeHandshake header).sendWindow.edge -
      (s.completeHandshake header).sendWindow.nxt = header.window := by
    change header.acknowledgement + header.window - (s.config.initialSequence + 1) = header.window
    rw [hack]
    ring
  have hflight : (s.completeHandshake header).sendWindow.inFlight = 0 := by
    change (s.config.initialSequence + 1 - (s.config.initialSequence + 1)).toNat = 0
    simp
  change _ ≤ (s.completeHandshake header).maxPeerWindow.toNat
  rw [hflight, SendWindow.usable_eq, hroom]
  split <;> omega

/-- A segment that an established session takes does not acknowledge what was never sent. -/
lemma onSegment_not_ahead {payload : Bytes} {event : SessionEvent}
    (hst : s.state = .established) (hok : (s.onSegment header payload).1 = .ok event)
    (hst' : (s.onSegment header payload).2.state = .established) (hack : header.hasAck = true) :
    ¬ (0 < (header.acknowledgement - s.sndUna).toInt ∧ 0 < (header.acknowledgement - s.sndNxt).toInt) := by
  unfold MuxSession.onSegment at hok hst'
  dsimp only at hok hst'
  cases hreset : header.isReset with
  | true =>
    rw [if_pos hreset] at hst'
    cases hst'
  | false =>
    have hst₀ : s.counted.state = .established := hst
    rw [hreset] at hok hst'
    simp only [Bool.false_eq_true, if_false, hst₀] at hok hst'
    rcases s.counted.onEstablished_cases header payload with
      ⟨_, _, e⟩ | ⟨_, _, _, _, e⟩ | ⟨_, hsent, _⟩
    · rw [e] at hst'
      cases hst'
    · rw [e] at hok
      cases hok
    · intro h
      exact hsent ⟨hack, decide_eq_true h.1, decide_eq_true h.2⟩

lemma WindowInv.advance (h : s.WindowInv) (hst : s.state = .established)
    (hwindow : header.window.toNat < 2 ^ 24) (hnear : s.AckNear header)
    (hsent : header.hasAck = true → ¬ (0 < (header.acknowledgement - s.sndUna).toInt ∧
      0 < (header.acknowledgement - s.sndNxt).toInt)) : (s.advance header).WindowInv := by
  have hwithin := h.within hst
  have hadvance := s.advance_sendWindow header
  cases hack : header.hasAck with
  | false =>
    rw [hack] at hadvance
    exact h.congr hadvance fun _ => hst
  | true =>
    rw [hack, if_pos rfl] at hadvance
    have htook := hwithin.took hwindow (hnear hst hack) (hsent hack)
    rw [← hadvance] at htook
    exact ⟨htook.small, fun _ => htook⟩

lemma WindowInv.onSegment (h : s.WindowInv) (payload : Bytes)
    (hwire : header.OffWire) (hnear : s.AckNear header) : (s.onSegment header payload).2.WindowInv := by
  obtain ⟨bytes, hdecode⟩ := hwire
  have hwindow := TcpHeader.decode_window_lt hdecode
  have hcounted : s.counted.WindowInv := h.congr rfl id
  rcases s.onSegment_cases header payload with
    ⟨_, event, _, e⟩ | ⟨_, error, e⟩ | ⟨_, _, _, hack, e⟩ | ⟨hrefused, hst, e⟩
  · rw [e]
    exact hcounted.congr rfl (by intro hs; cases hs)
  · rw [e]
    exact hcounted
  · rw [e]
    exact hcounted.completeHandshake hwindow hack
  · have hst' : (s.onSegment header payload).2.state = .established := by
      rw [e, acceptPayload_state, advance_state]
      exact hst
    have hsent := onSegment_not_ahead hst (congrArg Prod.fst e) hst'
    have hadvance : (s.counted.advance header).WindowInv :=
      hcounted.advance hst hwindow hnear hsent
    rw [e]
    exact hadvance.congr (acceptPayload_sendWindow _ header payload)
      (by rw [acceptPayload_state]; exact id)

end MuxSession

/-! ### Whole runs -/

/-- Segments come off the wire, and no acknowledgement is too far behind; the local operations are
any. -/
def SessionOp.Near (s : MuxSession) : SessionOp → Prop
  | .onSegment header _ => header.OffWire ∧ s.AckNear header
  | _ => True

/-- The histories of an opened session whose peer does not acknowledge from too far behind. -/
def NearRun (config : SessionConfig) : History → Prop :=
  Relation.ReflTransGen (fun h h' => ∃ op : SessionOp, op.Near h.session ∧ h' = h.step op)
    (start (MuxSession.open config).1)

lemma NearRun.start (config : SessionConfig) :
    NearRun config (start (MuxSession.open config).1) := Relation.ReflTransGen.refl

lemma NearRun.step (hr : NearRun config h)
    (op : SessionOp) (hop : op.Near h.session) : NearRun config (h.step op) :=
  hr.tail ⟨op, hop, rfl⟩

open MuxSession in
lemma History.step_windowInv (hi : h.session.WindowInv) {op : SessionOp}
    (hop : op.Near h.session) : (h.step op).session.WindowInv := by
  cases op with
  | queue data => exact hi.congr rfl id
  | nextSegment => exact hi.nextSegment
  | retransmitUnacknowledged => exact hi
  | onSegment header payload => exact hi.onSegment payload hop.1 hop.2
  | probeWindow =>
    refine hi.congr ?_ (by rw [step, probeWindow_state]; exact id)
    change h.session.probeWindow.2.sendWindow = _
    unfold probeWindow
    split
    · rfl
    · split <;> rfl
  | requestAck =>
    refine hi.congr ?_ (by rw [step, requestAck_state]; exact id)
    change h.session.requestAck.sendWindow = _
    unfold requestAck
    split <;> rfl
  | shutdownWrite =>
    refine hi.congr ?_ (by rw [step, shutdownWrite_state]; exact id)
    change h.session.shutdownWrite.2.sendWindow = _
    unfold shutdownWrite
    split <;> rfl
  | takeReceived room => exact hi.congr rfl id
  | close => exact hi.congr rfl (by intro hs; cases hs)

lemma NearRun.windowInv (hr : NearRun config h) : h.session.WindowInv := by
  induction hr with
  | refl =>
    refine ⟨?_, by intro hs; cases hs⟩
    change (0 : BitVec 32).toNat < 2 ^ 24
    decide
  | tail _ hstep ih =>
    obtain ⟨op, hop, rfl⟩ := hstep
    exact step_windowInv ih hop

/-- What is in flight never exceeds the widest window the peer allowed, and one for a FIN. -/
theorem inFlight_le_maxPeerWindow {config : SessionConfig} {h : History} (hr : NearRun config h)
    (hst : h.session.state = .established) :
    h.session.inFlight.toNat ≤ h.session.maxPeerWindow.toNat + if h.session.sentFin.isSome then 1 else 0 := by
  have hroom := (hr.windowInv.within hst).room
  rw [MuxSession.sendWindow_inFlight] at hroom
  change _ ≤ h.session.maxPeerWindow.toNat at hroom
  omega

/-! ### An acknowledgement from far behind -/

def overrunConfig : SessionConfig := ⟨49152, 62078, 0, 200, 65536⟩

/-- A segment of the device: a number acknowledged and a window. -/
def windowHeader (f : Byte) (sequence acknowledgement window : BitVec 32) : TcpHeader :=
  ⟨62078, 49152, sequence, acknowledgement, f, window⟩

/-- The handshake allows 256 bytes; 200 of 400 are sent. -/
def overrunStart : List SessionOp :=
  [.onSegment (windowHeader flags.SYN_ACK 500 1 256) [], .queue (List.replicate 400 0), .nextSegment]

/-- An empty window, acknowledged half the number space behind; then the session sends again. -/
def overrunOps : List SessionOp :=
  overrunStart ++ [.onSegment (windowHeader flags.ACK 501 0x80000001 0) [], .nextSegment]

theorem farBehind_overruns :
    ((windowHeader flags.SYN_ACK 500 1 256).OffWire ∧ (windowHeader flags.ACK 501 0x80000001 0).OffWire) ∧
    let h := overrunOps.foldl step (start (MuxSession.open overrunConfig).1)
    h.session.state = .established ∧ h.session.sndUna = 1 ∧ h.session.maxPeerWindow = 256 ∧
      h.session.inFlight = 400 ∧ h.session.sentFin = none := by
  refine ⟨⟨⟨(windowHeader flags.SYN_ACK 500 1 256).headerBytes, ?_⟩,
    ⟨(windowHeader flags.ACK 501 0x80000001 0).headerBytes, ?_⟩⟩, by decide +kernel⟩
  · decide
  · decide

/-- The run before the acknowledgement from behind. -/
theorem inFlight_le_overrunStart : let h := overrunStart.foldl step (start (MuxSession.open overrunConfig).1)
  NearRun overrunConfig h ∧ h.session.state = .established ∧ h.session.inFlight.toNat ≤
      h.session.maxPeerWindow.toNat + if h.session.sentFin.isSome then 1 else 0 := by
  have hwire : (windowHeader flags.SYN_ACK 500 1 256).OffWire :=
    ⟨(windowHeader flags.SYN_ACK 500 1 256).headerBytes, by decide⟩
  have hrun : NearRun overrunConfig
      (overrunStart.foldl step (start (MuxSession.open overrunConfig).1)) := by
    have hopened := (NearRun.start overrunConfig).step
      (.onSegment (windowHeader flags.SYN_ACK 500 1 256) []) ⟨hwire, by intro hst; cases hst⟩
    have hqueued := hopened.step (.queue (List.replicate 400 0)) trivial
    have hpulled := hqueued.step .nextSegment trivial
    simp only [overrunStart, List.foldl_cons, List.foldl_nil]
    exact hpulled
  have hst : (overrunStart.foldl step
      (start (MuxSession.open overrunConfig).1)).session.state = .established := by decide +kernel
  exact ⟨hrun, hst, inFlight_le_maxPeerWindow hrun hst⟩

end AppleUtils.Usbmux
