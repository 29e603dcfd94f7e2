import AppleUtils.Lib.Proc
import AppleUtils.Usbmux.Frame
import AppleUtils.Usbmux.Session

/-! # The mux link (`usbmux/link.rs`)

One link carries all the sessions of a device over one bulk transport.  Its operations are
procedures on the link record: they return a value or a `MuxError`, and the link they leave
behind keeps whatever happened before an error.

The transport is a parameter of the model.  `BulkTransport` has the methods of the trait that the
link uses and `Clock` stands for `Instant::now`; both act on the same state, since a receive that
waits takes time.  A `Duration` or an `Instant` is a number of nanoseconds.

The trace of a procedure records what later modules speak about: packets received and sent,
segments pulled from a session, bytes queued to one, versions announced by the device, and what a
deadline check found left.  The observers of the source (`trace`, `packet_trace`, `roundtrip`)
have no influence on the link and are left out.

Loops take the number of turns they may make.  `flush` needs no such bound from its caller: every
turn but the last takes something off the session's queue. -/

namespace AppleUtils.Usbmux

def FIRST_LOCAL_PORT : BitVec 16 := 49152

def DEFAULT_RECEIVE_WINDOW : BitVec 32 := 256 * 1024

/-- The kinds of `io::Error` the link itself raises; a transport may raise others. -/
inductive ErrorKind where
  | brokenPipe | connectionReset | other (name : String)
deriving DecidableEq, Repr

structure IoError where
  kind : ErrorKind
  message : String
deriving DecidableEq, Repr

class BulkTransport (T : Type) where
  send : T → Bytes → Except IoError Unit × T
  recv : T → ℕ → Except IoError (Option Bytes) × T
  maxPacket : T → ℕ
  sendCapacity : T → Option Bool

/-- `Instant::now`. -/
class Clock (T : Type) where
  now : T → ℕ × T

inductive LinkEvent where
  | idle | session (localPort : BitVec 16) (event : SessionEvent) | unmatched (localPort : BitVec 16)
  | other (protocol : Protocol) | rejected (declared : BitVec 32) (delivered : ℕ)
deriving DecidableEq, Repr

inductive MuxError where
  | io (error : IoError) | frame (error : FrameError) | tcp (error : TcpError)
  | session (localPort : BitVec 16) (error : SessionError) | notNegotiated | versionTimedOut (waited : ℕ)
  | sequenceGap (expected received : BitVec 16) | tooLarge (bytes limit : ℕ)
  | noSession (localPort : BitVec 16) | handshakeTimedOut (localPort : BitVec 16) (waited : ℕ)
  | closed (localPort : BitVec 16) | noPorts
deriving DecidableEq, Repr

structure MuxLink (T : Type) where
  transport : T
  version : Option MuxVersion
  (txSeq rxExpected : BitVec 16)
  sessions : BitVec 16 → Option MuxSession
  nextLocalPort : BitVec 16
  (receiveWindow sequenceSeed : BitVec 32)
  (packetsReceived packetsRejected : BitVec 64)
  inFlush : Bool

inductive LinkEffect (T : Type) where
  /-- A packet came off the transport; the link before it looks at the packet. -/
  | received (link : MuxLink T) (packet : Bytes)
  /-- The device announced a version; the link before it changes. -/
  | announced (link : MuxLink T) (version : MuxVersion)
  /-- A segment was obtained from a session of the link. -/
  | pulled (link : MuxLink T) (segment : Segment)
  /-- A packet was handed to the transport, which accepted it or failed. -/
  | sent (packet : Bytes) (accepted : Bool)
  | queued (localPort : BitVec 16) (data : Bytes)
  /-- A deadline check found this much time left. -/
  | remaining (left : ℕ)

abbrev LinkM (T α : Type) := Proc (MuxLink T) MuxError (LinkEffect T) α

namespace MuxLink

variable {T : Type}

/-- The seed comes from the system clock or from `with_sequence_seed`. -/
def new (transport : T) (sequenceSeed : BitVec 32) : MuxLink T where
  transport := transport
  version := none
  txSeq := 0
  rxExpected := 0
  sessions := fun _ => none
  nextLocalPort := FIRST_LOCAL_PORT
  receiveWindow := DEFAULT_RECEIVE_WINDOW
  sequenceSeed := sequenceSeed
  packetsReceived := 0
  packetsRejected := 0
  inFlush := false

def withReceiveWindow (link : MuxLink T) (window : BitVec 32) : MuxLink T :=
  { link with receiveWindow := window }

/-- `sessions.insert`, or a session changed through `get_mut`. -/
def putSession (link : MuxLink T) (port : BitVec 16) (session : MuxSession) : MuxLink T :=
  { link with sessions := fun p => if p = port then some session else link.sessions p }

/-- `sessions.remove`. -/
def removeSession (link : MuxLink T) (port : BitVec 16) : MuxLink T :=
  { link with sessions := fun p => if p = port then none else link.sessions p }

/-- The header of the next packet of `total` bytes. -/
def hostHeader (link : MuxLink T) (protocol : Protocol) (total : ℕ) : MuxHeader where
  protocol := protocol
  length := BitVec.ofNat 32 total
  magic := HOST_MAGIC
  txSeq := link.txSeq
  rxAck := link.rxExpected - 1

end MuxLink

namespace LinkM

open Proc BulkTransport

variable {T : Type}

def requireVersion : LinkM T MuxVersion := do
  let link ← get
  match link.version with
  | some version => pure version
  | none => throw .notNegotiated

def requireSession (port : BitVec 16) : LinkM T MuxSession := do
  let link ← get
  match link.sessions port with
  | some session => pure session
  | none => throw (.noSession port)

def setSession (port : BitVec 16) (session : MuxSession) : LinkM T Unit :=
  modify (·.putSession port session)

/-! ### The transport and the clock -/

section

variable [BulkTransport T]

def transportSend (packet : Bytes) : LinkM T Unit where
  run link :=
    let result := send link.transport packet
    ⟨.ofExcept .io result.1, { link with transport := result.2 }, [.sent packet result.1.isOk]⟩

def transportRecv (timeout : ℕ) : LinkM T (Option Bytes) where
  run link :=
    let result := recv link.transport timeout
    ⟨.ofExcept .io result.1, { link with transport := result.2 }, []⟩

end

def now [Clock T] : LinkM T ℕ where
  run link :=
    ⟨.ok (Clock.now link.transport).1, { link with transport := (Clock.now link.transport).2 }, []⟩

/-- `Instant::now() + timeout`. -/
def startDeadline [Clock T] (timeout : ℕ) : LinkM T ℕ := do
  let started ← now
  pure (started + timeout)

/-- `deadline.saturating_duration_since(Instant::now())`. -/
def remainingUntil [Clock T] (deadline : ℕ) : LinkM T ℕ := do
  let at' ← now
  record fun _ => .remaining (deadline - at')
  pure (deadline - at')

/-! ### Sending -/

section

variable [BulkTransport T]

/-- The sequence number moves on only once the transport has accepted the packet. -/
def transmit (version : MuxVersion) (packet : Bytes) : LinkM T Unit := do
  transportSend packet
  if version.isSequenced then modify fun link => { link with txSeq := link.txSeq + 1 }
  else pure ()

def sendPacket (protocol : Protocol) (payload : Bytes) : LinkM T Unit := do
  let version ← requireVersion
  let link ← get
  let total := version.headerLen + payload.length
  let limit := min (maxPacket link.transport) MAX_PACKET
  if limit < total then throw (.tooLarge total limit)
  else
    match (link.hostHeader protocol total).encode version (List.replicate total 0) with
    | .error e => throw (.frame e)
    | .ok packet => transmit version (packet.take version.headerLen ++ payload)

def sendSegment (segment : Bytes) : LinkM T Unit := sendPacket .tcp segment

/-- One turn of `flush`.  The capacity is checked before a segment is pulled: pulling it commits
its sequence number and takes its bytes off the queue. -/
def flushTurn (port : BitVec 16) : LinkM T (Turn Unit Unit) := do
  let link ← get
  if sendCapacity link.transport = some false then pure (.done ())
  else
    match link.sessions port with
    | none => pure (.done ())
    | some session => do
      setSession port session.nextSegment.2
      match session.nextSegment.1 with
      | none => pure (.done ())
      | some segment => do
        record fun link => .pulled link segment
        sendSegment segment.toBytes
        pure (.again ())

/-- More turns than `flush` makes: one for each queued byte, one for a FIN, one for an owed
acknowledgement and one to find nothing left. -/
def flushTurns : Option MuxSession → ℕ
  | none => 1
  | some session => session.outbound.length + 3

def flush (port : BitVec 16) : LinkM T Unit := do
  let link ← get
  loop (fun _ => flushTurn port) (flushTurns (link.sessions port)) ()

/-! ### Receiving -/

/-- `reject_packet`: the packet is counted and reported, and otherwise dropped. -/
def rejectPacket (error : FrameError) (packet : Bytes) : LinkM T LinkEvent := do
  let declared := match error with
    | .lengthMismatch declared _ => declared
    | .short _ _ | .notVersion _ => if packet.length < 8 then 0 else packet.be32 4
  modify fun link => { link with packetsRejected := link.packetsRejected + 1 }
  pure (.rejected declared packet.length)

/-- The version the device announced: both sequence counters start over. -/
def restartFraming (version : MuxVersion) : LinkM T Unit := do
  record fun link => .announced link version
  modify fun link => { link with version := some version, txSeq := 0, rxExpected := 0 }

/-- The sequence number of a received packet, in version two. -/
def acceptSequence (version : MuxVersion) (header : MuxHeader) : LinkM T Unit := do
  let link ← get
  if version.isSequenced then
    if header.txSeq ≠ link.rxExpected then throw (.sequenceGap link.rxExpected header.txSeq)
    else modify fun link => { link with rxExpected := link.rxExpected + 1 }
  else pure ()

/-- After a segment the session took: unless it closed the session, what the session can send now
is sent. -/
def settle (port : BitVec 16) (event : SessionEvent) : LinkM T LinkEvent := do
  let link ← get
  match event with
  | .reset | .closedByFlags _ => pure (.session port event)
  | _ =>
    if link.inFlush then pure (.session port event)
    else do
      flush port
      pure (.session port event)

/-- The end of `pump`: the segment goes to the session of its port.  What the session refuses is
the caller's error. -/
def deliver (tcp : TcpHeader) (body : Bytes) : LinkM T LinkEvent := do
  let port := tcp.destinationPort
  let link ← get
  match link.sessions port with
  | none => pure (.unmatched port)
  | some session => do
    setSession port (session.onSegment tcp body).2
    match (session.onSegment tcp body).1 with
    | .error error => throw (.session port error)
    | .ok event => settle port event

/-- A framed packet, by its protocol. -/
def dispatch (version : MuxVersion) (packet : Bytes) (header : MuxHeader) (payload : Bytes) :
    LinkM T LinkEvent := do
  if header.protocol = .version then
    match VersionPacket.decode packet with
    | .error e => throw (.frame e)
    | .ok reply => do
      restartFraming reply.negotiated
      pure (.other .version)
  else do
    acceptSequence version header
    if header.protocol = .control then pure (.other .control)
    else if header.protocol ≠ .tcp then pure (.other header.protocol)
    else
      match TcpHeader.decode payload with
      | .error e => throw (.tcp e)
      | .ok tcp => deliver tcp (payload.drop TCP_HEADER_LEN)

/-- A received packet: what does not frame is dropped. -/
def routePacket (version : MuxVersion) (packet : Bytes) : LinkM T LinkEvent := do
  modify fun link => { link with packetsReceived := link.packetsReceived + 1 }
  match MuxHeader.decode version packet with
  | .error e => rejectPacket e packet
  | .ok header =>
    match header.payload version packet with
    | .error e => rejectPacket e packet
    | .ok payload => dispatch version packet header payload

def pump (timeout : ℕ) : LinkM T LinkEvent := do
  let version ← requireVersion
  match ← transportRecv timeout with
  | none => pure .idle
  | some packet => do
    record fun link => .received link packet
    routePacket version packet

def drainTurn (routed : ℕ) : LinkM T (Turn ℕ ℕ) := do
  match ← pump 0 with
  | .idle => pure (.done routed)
  | _ => pure (.again (routed + 1))

def drainInbound (turns : ℕ) : LinkM T ℕ := loop drainTurn turns 0

/-- `route_available`: the flag is put back whether or not draining failed. -/
def routeAvailable (turns : ℕ) : LinkM T ℕ where
  run link :=
    let result := (drainInbound turns).run { link with inFlush := true }
    { result with state := { result.state with inFlush := link.inFlush } }

end

/-! ### Streams -/

section

variable [BulkTransport T]

/-- `take_received` into a buffer of `room` bytes: the bytes copied.  Taking bytes grows the
window, so it owes the device an acknowledgement. -/
def takeReceived (port : BitVec 16) (room : ℕ) : LinkM T Bytes := do
  if room = 0 then pure []
  else
    let session ← requireSession port
    let (taken, session) := session.takeReceived room
    setSession port session
    if taken.isEmpty then pure taken
    else do
      setSession port session.requestAck
      flush port
      pure taken

def writeClosed (port : BitVec 16) : MuxError :=
  let number := port.toNat
  .io ⟨.brokenPipe, s!"mux port {number} write side is closed"⟩

def pendingWrite (port : BitVec 16) : LinkM T ℕ := do
  flush port
  let session ← requireSession port
  if session.state ≠ .established then throw (.closed port)
  else pure session.pendingLen

/-- The common start of `write` and `queue_write`. -/
def enqueue (port : BitVec 16) (data : Bytes) : LinkM T Unit := do
  let session ← requireSession port
  if !session.canWrite then throw (writeClosed port)
  else do
    setSession port (session.queue data)
    record fun _ => .queued port data

def queueWrite (port : BitVec 16) (data : Bytes) : LinkM T ℕ := do
  enqueue port data
  pendingWrite port

def probeWindow (port : BitVec 16) : LinkM T Bool := do
  let session ← requireSession port
  let (probing, session) := session.probeWindow
  setSession port session
  if !probing then pure false
  else do
    flush port
    pure true

def retransmitUnacknowledged (port : BitVec 16) : LinkM T Bool := do
  let link ← get
  if sendCapacity link.transport = some false then pure false
  else
    let session ← requireSession port
    match session.retransmitUnacknowledged with
    | none => probeWindow port
    | some segment => do
      record fun link => .pulled link segment
      sendSegment segment.toBytes
      pure true

def receivedEof (port : BitVec 16) : LinkM T Bool := do
  let session ← requireSession port
  if session.state = .closed then
    let number := port.toNat
    throw (.io ⟨.connectionReset, s!"mux peer reset or aborted port {number}"⟩)
  else pure session.receivedEof

def shutdownWrite (port : BitVec 16) : LinkM T Unit := do
  let session ← requireSession port
  setSession port session.shutdownWrite.2
  match session.shutdownWrite.1 with
  | .error error => throw (.session port error)
  | .ok () => flush port

/-- Only an orderly closed session goes without a reset. -/
def close (port : BitVec 16) : LinkM T Unit := do
  let link ← get
  match link.sessions port with
  | none => pure ()
  | some session =>
    if session.orderlyClosed then modify (·.removeSession port)
    else do
      modify (·.removeSession port)
      sendSegment session.close.1.toBytes

variable [Clock T]

/-- One turn of `write`: `wanted` is the length of the data, all of which was queued. -/
def writeTurn (port : BitVec 16) (wanted deadline turns : ℕ) : LinkM T (Turn Unit ℕ) := do
  let before ← requireSession port
  flush port
  let session ← requireSession port
  if session.state ≠ .established then throw (.closed port)
  else if session.pendingLen = 0 then pure (.done wanted)
  else do
    let remaining ← remainingUntil deadline
    if remaining = 0 then pure (.done (wanted - min session.pendingLen wanted))
    else if session.pendingLen < before.pendingLen ∧ 0 < session.usableWindow then do
      let _ ← drainInbound turns
      pure (.again ())
    else do
      let _ ← pump remaining
      pure (.again ())

def write (port : BitVec 16) (data : Bytes) (timeout turns : ℕ) : LinkM T ℕ := do
  enqueue port data
  let deadline ← startDeadline timeout
  loop (fun _ => writeTurn port data.length deadline turns) turns ()

def readTurn (port : BitVec 16) (room deadline : ℕ) : LinkM T (Turn Unit Bytes) := do
  let taken ← takeReceived port room
  if !taken.isEmpty then pure (.done taken)
  else if ← receivedEof port then pure (.done [])
  else do
    let remaining ← remainingUntil deadline
    if remaining = 0 then pure (.done [])
    else do
      let _ ← pump remaining
      pure (.again ())

def read (port : BitVec 16) (room timeout turns : ℕ) : LinkM T Bytes := do
  if room = 0 then pure []
  else
    let deadline ← startDeadline timeout
    loop (fun _ => readTurn port room deadline) turns ()

/-! ### Opening -/

/-- One turn of `negotiate`.  The exchange is unsequenced, and whatever is not a version packet
is passed over. -/
def negotiateTurn (deadline timeout : ℕ) : LinkM T (Turn Unit MuxVersion) := do
  let remaining ← remainingUntil deadline
  if remaining = 0 then throw (.versionTimedOut timeout)
  else
    match ← transportRecv remaining with
    | none => pure (.again ())
    | some bytes =>
      match VersionPacket.decode bytes with
      | .error (.notVersion _) => pure (.again ())
      | .error e => throw (.frame e)
      | .ok reply => do
        restartFraming reply.negotiated
        pure (.done reply.negotiated)

def negotiate (request : VersionRequest) (timeout turns : ℕ) : LinkM T MuxVersion := do
  transportSend request.packet.encode
  let deadline ← startDeadline timeout
  loop (fun _ => negotiateTurn deadline timeout) turns ()

/-- `a - b` on `usize`, which wraps where the build does not check for overflow. -/
def usizeSub (a b : ℕ) : ℕ := (a + 2 ^ 64 - b) % 2 ^ 64

def segmentSize : LinkM T ℕ := do
  let version ← requireVersion
  let link ← get
  let ceiling := min (maxPacket link.transport) MAX_TRANSFER
  pure (usizeSub (usizeSub ceiling version.headerLen) TCP_HEADER_LEN)

/-- The `for` loop of `allocate_port`. -/
def allocateTurns : ℕ → LinkM T (BitVec 16)
  | 0 => throw .noPorts
  | turns + 1 => do
    let link ← get
    let port := link.nextLocalPort
    modify fun link =>
      { link with nextLocalPort := if port = 0xffff then FIRST_LOCAL_PORT else port + 1 }
    if (link.sessions port).isSome then allocateTurns turns else pure port

def allocatePort : LinkM T (BitVec 16) :=
  allocateTurns (0xffff - FIRST_LOCAL_PORT.toNat + 1)

def nextInitialSequence (port : BitVec 16) : LinkM T (BitVec 32) := do
  modify fun link => { link with sequenceSeed := link.sequenceSeed * 1664525 + 1013904223 }
  let link ← get
  pure (link.sequenceSeed ^^^ (port.setWidth 32 <<< 16))

def beginOpen (remotePort : BitVec 16) : LinkM T (BitVec 16) := do
  let port ← allocatePort
  let mss ← segmentSize
  let initialSequence ← nextInitialSequence port
  let link ← get
  let config : SessionConfig := ⟨port, remotePort, initialSequence, mss, link.receiveWindow⟩
  setSession port (MuxSession.open config).1
  sendSegment (MuxSession.open config).2.toBytes
  pure port

/-- The device learns this side's window only from the segment flushed here. -/
def finishOpen (port : BitVec 16) : LinkM T Unit := flush port

def abandonOpen (port : BitVec 16) : LinkM T Unit := modify (·.removeSession port)

def forgetSession (port : BitVec 16) : LinkM T Unit := modify (·.removeSession port)

def openTurn (port : BitVec 16) (deadline timeout : ℕ) : LinkM T (Turn Unit (BitVec 16)) := do
  let link ← get
  match (link.sessions port).map MuxSession.state with
  | some .established => do
    finishOpen port
    pure (.done port)
  | some .closed | none => do
    forgetSession port
    throw (.closed port)
  | some .synSent => do
    let remaining ← remainingUntil deadline
    if remaining = 0 then do
      abandonOpen port
      throw (.handshakeTimedOut port timeout)
    else do
      let _ ← pump remaining
      pure (.again ())

def «open» (remotePort : BitVec 16) (timeout turns : ℕ) : LinkM T (BitVec 16) := do
  let port ← beginOpen remotePort
  let deadline ← startDeadline timeout
  loop (fun _ => openTurn port deadline timeout) turns ()

end

end LinkM

/-- The operations of a link, with the turns their loops may make. -/
inductive LinkOp where
  | negotiate (request : VersionRequest) (timeout turns : ℕ) | beginOpen (remotePort : BitVec 16)
  | finishOpen (port : BitVec 16) | abandonOpen (port : BitVec 16) | forgetSession (port : BitVec 16)
  | open (remotePort : BitVec 16) (timeout turns : ℕ)
  | write (port : BitVec 16) (data : Bytes) (timeout turns : ℕ)
  | queueWrite (port : BitVec 16) (data : Bytes) | pendingWrite (port : BitVec 16)
  | read (port : BitVec 16) (room timeout turns : ℕ) | takeReceived (port : BitVec 16) (room : ℕ)
  | receivedEof (port : BitVec 16) | shutdownWrite (port : BitVec 16) | probeWindow (port : BitVec 16)
  | retransmitUnacknowledged (port : BitVec 16) | flush (port : BitVec 16) | close (port : BitVec 16)
  | pump (timeout : ℕ) | drainInbound (turns : ℕ) | routeAvailable (turns : ℕ)

/-- The operation as a procedure, without the value it returns. -/
def LinkOp.run {T : Type} [BulkTransport T] [Clock T] : LinkOp → LinkM T Unit
  | .negotiate request timeout turns => do let _ ← LinkM.negotiate request timeout turns
  | .beginOpen remotePort => do let _ ← LinkM.beginOpen remotePort
  | .finishOpen port => LinkM.finishOpen port
  | .abandonOpen port => LinkM.abandonOpen port
  | .forgetSession port => LinkM.forgetSession port
  | .open remotePort timeout turns => do let _ ← LinkM.open remotePort timeout turns
  | .write port data timeout turns => do let _ ← LinkM.write port data timeout turns
  | .queueWrite port data => do let _ ← LinkM.queueWrite port data
  | .pendingWrite port => do let _ ← LinkM.pendingWrite port
  | .read port room timeout turns => do let _ ← LinkM.read port room timeout turns
  | .takeReceived port room => do let _ ← LinkM.takeReceived port room
  | .receivedEof port => do let _ ← LinkM.receivedEof port
  | .shutdownWrite port => LinkM.shutdownWrite port
  | .probeWindow port => do let _ ← LinkM.probeWindow port
  | .retransmitUnacknowledged port => do let _ ← LinkM.retransmitUnacknowledged port
  | .flush port => LinkM.flush port
  | .close port => LinkM.close port
  | .pump timeout => do let _ ← LinkM.pump timeout
  | .drainInbound turns => do let _ ← LinkM.drainInbound turns
  | .routeAvailable turns => do let _ ← LinkM.routeAvailable turns

/-- The link after a list of operations, each run whatever became of the one before. -/
def MuxLink.after {T : Type} [BulkTransport T] [Clock T] (link : MuxLink T) (ops : List LinkOp) : MuxLink T :=
  ops.foldl (fun link op => (op.run.run link).state) link

/-- A transport that delivers the packets of a script and accepts whatever it is given, with a
clock that reads the given ticks. -/
structure Script where
  inbox : List Bytes
  room : ℕ
  ticks : List ℕ

instance : BulkTransport Script where
  send t _ := (.ok (), t)
  recv t _ :=
    match t.inbox with
    | [] => (.ok none, t)
    | packet :: inbox => (.ok (some packet), { t with inbox })
  maxPacket t := t.room
  sendCapacity _ := none

instance : Clock Script where
  now t :=
    match t.ticks with
    | [] => (0, t)
    | tick :: ticks => (tick, { t with ticks })

/-- A segment as the device sends it, in version one. -/
def Segment.fromDevice (s : Segment) : Bytes :=
  MuxHeader.headerBytes ⟨.tcp, BitVec.ofNat 32 (HEADER_LEN_V1 + s.toBytes.length), 0, 0, 0⟩ .v1 ++
    s.toBytes

end AppleUtils.Usbmux
