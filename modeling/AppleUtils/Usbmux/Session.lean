import AppleUtils.Lib.Serial
import AppleUtils.Usbmux.Tcp

/-! # Mux sessions (`usbmux/session.rs`)

A session is one connection of the host over the mux link.  Its send side has three parts:
`outbound` (queued, not yet sent), `unacknowledged` (sent, kept for retransmission) and the
sequence pointers `sndUna` and `sndNxt`; its receive side is the queue `inbound` and the next
expected number `rcvNxt`.  A FIN takes one sequence number in either direction and no byte.

The operations are pure functions on the session record.  A byte queue is a list, a `usize`
count is a natural number, and sequence numbers and windows are 32-bit words whose arithmetic
wraps.  `takeReceived` is given the length of the caller's buffer and returns the bytes it
copies into it.

After the definitions come two inversion lemmas that later modules use in their place:
`onSegment_cases` says everything a segment from the device can do, `nextSegment_cases`
everything pulling a segment can do. -/

namespace AppleUtils.Usbmux

inductive SessionState where
  | synSent | established | closed
deriving DecidableEq, Repr

inductive SessionEvent where
  | established | data (bytes : ℕ) | acknowledged | reset | outOfOrder (expected received : BitVec 32)
  | closedByFlags (flags : Byte)
deriving DecidableEq, Repr

inductive SessionError where
  | closed | badHandshake (flags : Byte) | badAcknowledgement (sent acknowledged : BitVec 32)
deriving DecidableEq, Repr

structure Segment where
  header : TcpHeader
  payload : Bytes
deriving DecidableEq, Repr

/-- `to_bytes`: a zeroed buffer of the right size, the header encoded into it and the payload
copied behind what `encode` wrote.  The buffer always holds the header, so the error branch
(`expect` in the source) is never taken. -/
def Segment.toBytes (s : Segment) : Bytes :=
  match s.header.encode (List.replicate (TCP_HEADER_LEN + s.payload.length) 0) with
  | .ok out => out.take TCP_HEADER_LEN ++ s.payload
  | .error _ => []

lemma Segment.toBytes_eq (s : Segment) : s.toBytes = s.header.headerBytes ++ s.payload := by
  unfold Segment.toBytes TcpHeader.encode
  rw [if_neg (by simp)]
  dsimp only
  rw [List.take_left' s.header.headerBytes_length]

structure SessionConfig where
  (localPort remotePort : BitVec 16)
  initialSequence : BitVec 32
  mss : ℕ
  receiveWindow : BitVec 32
deriving DecidableEq, Repr

structure MuxSession where
  config : SessionConfig
  state : SessionState
  (sndNxt sndUna sndWndEdge : BitVec 32)
  sendEpoch : BitVec 64
  rcvNxt : BitVec 32
  (outbound unacknowledged inbound : Bytes)
  oweAck : Bool
  peerFin : Option (BitVec 32)
  writeShutdown : Bool
  sentFin : Option (BitVec 32)
  (peerWindow maxPeerWindow : BitVec 32)
  segmentsIn : BitVec 64
deriving DecidableEq, Repr

/-- `seq_gt`: the wrapping difference is positive as a signed word. -/
def seqGt (a b : BitVec 32) : Bool := decide (0 < (a - b).toInt)

/-- `u32::max`. -/
def wordMax (a b : BitVec 32) : BitVec 32 := if a < b then b else a

/-- `u64::saturating_add(1)`. -/
def saturatingSucc (x : BitVec 64) : BitVec 64 := if x = BitVec.allOnes 64 then x else x + 1

namespace MuxSession

/-- The SYN carries no payload: the device answers one that does with a reset. -/
def «open» (config : SessionConfig) : MuxSession × Segment :=
  ({ config := config
     state := .synSent
     sndNxt := config.initialSequence
     sndUna := config.initialSequence
     sndWndEdge := config.initialSequence
     sendEpoch := 0
     rcvNxt := 0
     outbound := []
     unacknowledged := []
     inbound := []
     oweAck := false
     peerFin := none
     writeShutdown := false
     sentFin := none
     peerWindow := 0
     maxPeerWindow := 0
     segmentsIn := 0 },
   { header :=
      { sourcePort := config.localPort
        destinationPort := config.remotePort
        sequence := config.initialSequence
        acknowledgement := 0
        flags := flags.SYN
        window := config.receiveWindow }
     payload := [] })

def pendingLen (s : MuxSession) : ℕ := s.outbound.length

def queue (s : MuxSession) (data : Bytes) : MuxSession :=
  { s with outbound := s.outbound ++ data }

/-- `take_received` into a buffer of `room` bytes: the bytes copied, and the session. -/
def takeReceived (s : MuxSession) (room : ℕ) : Bytes × MuxSession :=
  let taken := min room s.inbound.length
  (s.inbound.take taken, { s with inbound := s.inbound.drop taken })

/-- `advertised_window`: what is left of the receive window, saturating at zero. -/
def advertisedWindow (s : MuxSession) : BitVec 32 :=
  let used : BitVec 32 := if s.inbound.length < 2 ^ 32 then BitVec.ofNat 32 s.inbound.length
    else BitVec.allOnes 32
  if s.config.receiveWindow < used then 0 else s.config.receiveWindow - used

def ackHeader (s : MuxSession) (sequence : BitVec 32) : TcpHeader :=
  { sourcePort := s.config.localPort
    destinationPort := s.config.remotePort
    sequence := sequence
    acknowledgement := s.rcvNxt
    flags := flags.ACK
    window := s.advertisedWindow }

/-- `usable_window`: the room between `sndNxt` and the window's edge, zero when the edge lies
behind. -/
def usableWindow (s : MuxSession) : ℕ :=
  let room := s.sndWndEdge - s.sndNxt
  if room.toInt ≤ 0 then 0 else room.toNat

def inFlight (s : MuxSession) : BitVec 32 := s.sndNxt - s.sndUna

/-- The session after the device's SYN and ACK: both pointers stand at the first byte. -/
def completeHandshake (s : MuxSession) (header : TcpHeader) : MuxSession :=
  { s with
    sndNxt := s.config.initialSequence + 1
    sndUna := s.config.initialSequence + 1
    sndWndEdge := header.windowEdge
    peerWindow := header.window
    maxPeerWindow := wordMax s.maxPeerWindow header.window
    rcvNxt := header.sequence + 1
    state := .established
    oweAck := true }

def onSynAck (s : MuxSession) (header : TcpHeader) : Except SessionError SessionEvent × MuxSession :=
  let expected := s.config.initialSequence + 1
  if !header.isSynAck then (.error (.badHandshake header.flags), s)
  else if header.acknowledgement ≠ expected then
    (.error (.badAcknowledgement expected header.acknowledgement), s)
  else (.ok .established, s.completeHandshake header)

/-- The acknowledgement part of `on_established`: what was acknowledged leaves the
retransmission queue.  A FIN takes sequence space but is not a byte of that queue. -/
def acknowledge (s : MuxSession) (header : TcpHeader) : MuxSession :=
  let acknowledged := (header.acknowledgement - s.sndUna).toNat
  { s with
    unacknowledged := s.unacknowledged.drop (min acknowledged s.unacknowledged.length)
    sndUna := header.acknowledgement
    sendEpoch := s.sendEpoch + 1 }

/-- The window part of `on_established`: always the last segment's edge, never the widest. -/
def updateWindow (s : MuxSession) (header : TcpHeader) : MuxSession :=
  if header.hasAck then
    { s with
      sndWndEdge := header.windowEdge
      peerWindow := header.window
      maxPeerWindow := wordMax s.maxPeerWindow header.window }
  else s

/-- The payload part of `on_established`: in-order bytes and FIN are accepted, anything else
only owes the device an acknowledgement. -/
def acceptPayload (s : MuxSession) (header : TcpHeader) (payload : Bytes) : SessionEvent × MuxSession :=
  if payload.isEmpty && !header.isFin then (.acknowledged, s)
  else if header.sequence ≠ s.rcvNxt ∨ s.peerFin.isSome then
    (.outOfOrder s.rcvNxt header.sequence, { s with oweAck := true })
  else
    let rcvNxt := s.rcvNxt + BitVec.ofNat 32 payload.length
    (.data payload.length,
     { s with
       inbound := s.inbound ++ payload
       rcvNxt := if header.isFin then rcvNxt + 1 else rcvNxt
       peerFin := if header.isFin then some rcvNxt else s.peerFin
       oweAck := true })

def onEstablished (s : MuxSession) (header : TcpHeader) (payload : Bytes) :
    Except SessionError SessionEvent × MuxSession :=
  if !header.isBareAck && !header.isFin then
    (.ok (.closedByFlags header.flags), { s with state := .closed })
  else if header.hasAck && seqGt header.acknowledgement s.sndUna then
    if seqGt header.acknowledgement s.sndNxt then
      (.error (.badAcknowledgement s.sndNxt header.acknowledgement), s)
    else
      let (event, s) := ((s.acknowledge header).updateWindow header).acceptPayload header payload
      (.ok event, s)
  else
    let (event, s) := (s.updateWindow header).acceptPayload header payload
    (.ok event, s)

/-- The session with one more segment counted. -/
def counted (s : MuxSession) : MuxSession := { s with segmentsIn := saturatingSucc s.segmentsIn }

def onSegment (s : MuxSession) (header : TcpHeader) (payload : Bytes) :
    Except SessionError SessionEvent × MuxSession :=
  let s := s.counted
  if header.isReset then (.ok .reset, { s with state := .closed })
  else
    match s.state with
    | .closed => (.error .closed, s)
    | .synSent => s.onSynAck header
    | .established => s.onEstablished header payload

/-- `may_send_now`: silly-window avoidance on the sending side. -/
def maySendNow (s : MuxSession) (take : ℕ) : Bool :=
  s.config.mss ≤ take || (s.maxPeerWindow / 2).toNat ≤ take || s.peerWindow.toNat ≤ take ||
    take == s.outbound.length || s.inFlight == 0

/-- How many bytes the next data segment would carry. -/
def nextTake (s : MuxSession) : ℕ := min (min s.outbound.length s.config.mss) s.usableWindow

/-- The data branch of `next_segment`. -/
def sendData (s : MuxSession) : Segment × MuxSession :=
  let take := s.nextTake
  let startsFlight := s.unacknowledged.isEmpty
  let payload := s.outbound.take take
  let s := { s with
    outbound := s.outbound.drop take
    unacknowledged := s.unacknowledged ++ payload
    sendEpoch := if startsFlight then s.sendEpoch + 1 else s.sendEpoch }
  (⟨s.ackHeader s.sndNxt, payload⟩,
   { s with sndNxt := s.sndNxt + BitVec.ofNat 32 take, oweAck := false })

/-- A header with FIN set besides ACK. -/
def finHeader (s : MuxSession) (sequence : BitVec 32) : TcpHeader :=
  { s.ackHeader sequence with flags := flags.ACK ||| flags.FIN }

/-- The FIN branch of `next_segment`. -/
def sendFin (s : MuxSession) : Segment × MuxSession :=
  (⟨s.finHeader s.sndNxt, []⟩,
   { s with
     sentFin := some s.sndNxt
     sndNxt := s.sndNxt + 1
     sendEpoch := s.sendEpoch + 1
     oweAck := false })

/-- Data held back by `may_send_now` still falls through to an owed acknowledgement. -/
def nextSegment (s : MuxSession) : Option Segment × MuxSession :=
  if s.state ≠ .established then (none, s)
  else if 0 < s.usableWindow ∧ s.outbound ≠ [] ∧ s.maySendNow s.nextTake then
    let (segment, s) := s.sendData
    (some segment, s)
  else if 0 < s.usableWindow ∧ s.outbound = [] ∧ s.writeShutdown ∧ s.sentFin = none then
    let (segment, s) := s.sendFin
    (some segment, s)
  else if s.oweAck then
    (some ⟨s.ackHeader s.sndNxt, []⟩, { s with oweAck := false })
  else (none, s)

def retransmitUnacknowledged (s : MuxSession) : Option Segment :=
  if s.state ≠ .established then none
  else if s.unacknowledged.isEmpty then
    match s.sentFin with
    | none => none
    | some sequence =>
      if s.sndUna ≠ sequence then none else some ⟨s.finHeader sequence, []⟩
  else
    let room := s.sndWndEdge - s.sndUna
    if room.toInt ≤ 0 then none
    else
      let take := min (min s.unacknowledged.length s.config.mss) room.toNat
      some ⟨s.ackHeader s.sndUna, s.unacknowledged.take take⟩

def requestAck (s : MuxSession) : MuxSession :=
  if s.state = .established then { s with oweAck := true } else s

/-- `probe_window`: owe a bare acknowledgement, unless one is owed or data could go out. -/
def probeWindow (s : MuxSession) : Bool × MuxSession :=
  if s.state ≠ .established ∨ s.oweAck then (false, s)
  else if 0 < s.usableWindow ∧ s.outbound ≠ [] then (false, s)
  else (true, { s with oweAck := true })

def shutdownWrite (s : MuxSession) : Except SessionError Unit × MuxSession :=
  if s.state ≠ .established then (.error .closed, s)
  else (.ok (), { s with writeShutdown := true })

def canWrite (s : MuxSession) : Bool := s.state == .established && !s.writeShutdown

def receivedEof (s : MuxSession) : Bool := s.peerFin.isSome && s.inbound.isEmpty

def orderlyClosed (s : MuxSession) : Bool :=
  s.state == .established && s.receivedEof && s.sentFin.isSome && s.sndUna == s.sndNxt

/-- Abortive close: the session is closed and an RST at `sndNxt` is what remains to send. -/
def close (s : MuxSession) : Segment × MuxSession :=
  (⟨{ sourcePort := s.config.localPort
      destinationPort := s.config.remotePort
      sequence := s.sndNxt
      acknowledgement := s.rcvNxt
      flags := flags.RST
      window := 0 }, []⟩,
   { s with state := .closed })

/-! ### Inversion -/

/-- The four ways `next_segment` answers. -/
lemma nextSegment_cases (s : MuxSession) : (s.state = .established ∧ 0 < s.usableWindow ∧ s.outbound ≠ [] ∧
    s.nextSegment = (some s.sendData.1, s.sendData.2)) ∨
  (s.state = .established ∧ 0 < s.usableWindow ∧ s.outbound = [] ∧ s.writeShutdown = true ∧
    s.sentFin = none ∧ s.nextSegment = (some s.sendFin.1, s.sendFin.2)) ∨
  (s.state = .established ∧ s.oweAck = true ∧
    s.nextSegment = (some ⟨s.ackHeader s.sndNxt, []⟩, { s with oweAck := false })) ∨
    s.nextSegment = (none, s) := by
  unfold nextSegment
  split
  · exact .inr (.inr (.inr rfl))
  · rename_i hst
    have hst : s.state = .established := not_not.mp hst
    split
    · rename_i h
      exact .inl ⟨hst, h.1, h.2.1, rfl⟩
    · split
      · rename_i h
        exact .inr (.inl ⟨hst, h.1, h.2.1, h.2.2.1, h.2.2.2, rfl⟩)
      · split
        · exact .inr (.inr (.inl ⟨hst, ‹_›, rfl⟩))
        · exact .inr (.inr (.inr rfl))

/-- What a segment that is not refused does to an established session before its payload is
looked at: its acknowledgement and its window are taken in that order. -/
def advance (s : MuxSession) (header : TcpHeader) : MuxSession :=
  if header.hasAck && seqGt header.acknowledgement s.sndUna then
    (s.acknowledge header).updateWindow header
  else s.updateWindow header

/-- The segments a session refuses: anything but a reset once it is closed, anything but the
right SYN and ACK while it waits for the handshake, and an acknowledgement of a number that was
never sent. -/
def Refuses (s : MuxSession) (header : TcpHeader) : Prop :=
  header.isReset = false ∧
    match s.state with
    | .closed => True
    | .synSent => header.isSynAck = false ∨
        header.acknowledgement ≠ s.config.initialSequence + 1
    | .established => (header.isBareAck = true ∨ header.isFin = true) ∧ header.hasAck = true ∧
        seqGt header.acknowledgement s.sndUna = true ∧ seqGt header.acknowledgement s.sndNxt = true

lemma onEstablished_cases (s : MuxSession) (header : TcpHeader) (payload : Bytes) :
    (header.isBareAck = false ∧ header.isFin = false ∧ s.onEstablished header payload =
      (.ok (.closedByFlags header.flags), { s with state := .closed })) ∨
      ((header.isBareAck = true ∨ header.isFin = true) ∧ header.hasAck = true ∧
        seqGt header.acknowledgement s.sndUna = true ∧ seqGt header.acknowledgement s.sndNxt = true ∧
        s.onEstablished header payload = (.error (.badAcknowledgement s.sndNxt header.acknowledgement), s)) ∨
      ((header.isBareAck = true ∨ header.isFin = true) ∧
        ¬ (header.hasAck = true ∧ seqGt header.acknowledgement s.sndUna = true ∧
          seqGt header.acknowledgement s.sndNxt = true) ∧
        s.onEstablished header payload = (.ok ((s.advance header).acceptPayload header payload).1,
          ((s.advance header).acceptPayload header payload).2)) := by
  unfold onEstablished advance
  split
  · rename_i hflags
    rw [Bool.and_eq_true, Bool.not_eq_true', Bool.not_eq_true'] at hflags
    exact .inl ⟨hflags.1, hflags.2, rfl⟩
  · rename_i hflags
    have hflags : header.isBareAck = true ∨ header.isFin = true := by
      cases h1 : header.isBareAck <;> cases h2 : header.isFin <;> simp_all
    split
    · rename_i hack
      rw [Bool.and_eq_true] at hack
      split
      · rename_i hnxt
        exact .inr (.inl ⟨hflags, hack.1, hack.2, hnxt, rfl⟩)
      · rename_i hnxt
        exact .inr (.inr ⟨hflags, fun h => hnxt h.2.2, rfl⟩)
    · rename_i hack
      rw [Bool.and_eq_true] at hack
      exact .inr (.inr ⟨hflags, fun h => hack ⟨h.1, h.2.1⟩, rfl⟩)

/-- Everything a segment from the device can do: close the session, be refused, complete the
handshake, or be taken by the established session. -/
lemma onSegment_cases (s : MuxSession) (header : TcpHeader) (payload : Bytes) :
    (¬ s.Refuses header ∧ (∃ event, (event = .reset ∨ event = .closedByFlags header.flags) ∧
      s.onSegment header payload = (.ok event, { s.counted with state := .closed }))) ∨
      (s.Refuses header ∧ ∃ e, s.onSegment header payload = (.error e, s.counted)) ∨
      (¬ s.Refuses header ∧ s.state = .synSent ∧ header.hasAck = true ∧
        header.acknowledgement = s.config.initialSequence + 1 ∧
        s.onSegment header payload = (.ok .established, s.counted.completeHandshake header)) ∨
      (¬ s.Refuses header ∧ s.state = .established ∧ s.onSegment header payload =
        (.ok ((s.counted.advance header).acceptPayload header payload).1,
          ((s.counted.advance header).acceptPayload header payload).2)) := by
  unfold onSegment Refuses
  dsimp only
  cases hr : header.isReset with
  | true => exact .inl ⟨by simp, _, .inl rfl, by simp⟩
  | false =>
    have hst₀ : s.counted.state = s.state := rfl
    rw [hst₀]
    cases hst : s.state with
    | closed => exact .inr (.inl ⟨by simp, _, rfl⟩)
    | synSent =>
      simp only [Bool.false_eq_true, if_false, true_and]
      unfold onSynAck
      dsimp only
      split
      · rename_i hsyn
        exact .inr (.inl ⟨.inl (by simpa using hsyn), _, rfl⟩)
      · rename_i hsyn
        have hsyn : header.isSynAck = true := by simpa using hsyn
        have hack : header.hasAck = true := by
          unfold TcpHeader.isSynAck at hsyn
          unfold TcpHeader.hasAck
          rw [eq_of_beq hsyn]
          decide
        split
        · rename_i hne
          exact .inr (.inl ⟨.inr hne, _, rfl⟩)
        · rename_i heq
          have heq : header.acknowledgement = s.config.initialSequence + 1 := not_not.mp heq
          exact .inr (.inr (.inl ⟨by simp [hsyn, heq], hack, heq, rfl⟩))
    | established =>
      simp only [Bool.false_eq_true, if_false, true_and]
      rcases s.counted.onEstablished_cases header payload with
        ⟨h1, h2, e⟩ | ⟨h1, h2, h3, h4, e⟩ | ⟨h1, h2, e⟩
      · exact .inl ⟨by simp [h1, h2], _, .inr rfl, e⟩
      · exact .inr (.inl ⟨⟨h1, h2, h3, h4⟩, _, e⟩)
      · exact .inr (.inr (.inr ⟨fun h => h2 h.2, e⟩))

end MuxSession

end AppleUtils.Usbmux
