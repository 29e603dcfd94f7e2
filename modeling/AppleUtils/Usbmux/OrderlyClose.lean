import AppleUtils.Usbmux.LinkRules
import AppleUtils.Usbmux.ReceiveStream
import AppleUtils.Usbmux.SendStream

/-! # Closing a session

`MuxLink::close` lets an orderly closed session go without a word and resets any other.
`orderly_close_loses_nothing` says that this is right: in an orderly closed session both queues
are empty, the device has acknowledged everything up to and including the FIN, and every byte it
sent was returned to the caller; and that otherwise exactly one RST is sent. -/

namespace AppleUtils.Usbmux

open Proc Serial List LinkM

/-! ### The session -/

/-- Once the FIN is sent and nothing is in flight, everything queued is acknowledged. -/
lemma MuxSession.Opened.drained {s : MuxSession} {q A : Bytes} {g : ℕ} (h : Opened s q A g)
    (hfin : s.sentFin.isSome = true) (hidle : s.sndUna = s.sndNxt) :
    s.outbound = [] ∧ s.unacknowledged = [] ∧ g = 1 ∧ A = q := by
  obtain ⟨x, hx⟩ := Option.isSome_iff_exists.mp hfin
  have hout : s.outbound = [] := (h.finAt x hx).2.1
  have hflight := h.toNat_flight
  have hone := finSent_some hx
  have hle := h.acked_le_one
  rw [hidle, BitVec.sub_self, BitVec.toNat_zero] at hflight
  have hnil : s.unacknowledged = [] := by
    rw [← length_eq_zero_iff]
    omega
  refine ⟨hout, hnil, ?_, ?_⟩
  · rw [hnil, length_nil] at hflight
    omega
  · rw [h.split, hnil, hout, List.append_nil, List.append_nil]

lemma Driven.orderlyClosed {config : SessionConfig} {h : History} (hr : Driven config h)
    (hc : h.session.orderlyClosed = true) : h.session.outbound = [] ∧ h.session.unacknowledged = [] ∧
      config.initialSequence + 1 + BitVec.ofNat 32 (h.queued.length + 1) ∈ h.acks ∧
      h.session.peerFin.isSome = true ∧ h.taken = h.accepted := by
  simp only [MuxSession.orderlyClosed, MuxSession.receivedEof, Bool.and_eq_true, beq_iff_eq, List.isEmpty_iff] at hc
  obtain ⟨⟨⟨hst, hpeer, hin⟩, hfin⟩, hidle⟩ := hc
  have hacc := hr.accepted_eq
  rw [hin, List.append_nil] at hacc
  obtain ⟨hconfig, _, hside⟩ := hr.sendInv
  rcases hside with hu | ⟨A, g, ho, hack⟩
  · exact absurd hst hu.state
  · obtain ⟨hout, hun, hg, hA⟩ := ho.drained hfin hidle
    refine ⟨hout, hun, ?_, hpeer, hacc.symm⟩
    rcases hack with ⟨_, hzero⟩ | hmem
    · omega
    · have huna := ho.una
      rw [hg, hA] at huna
      rw [huna] at hmem
      unfold serial MuxSession.base at hmem
      rwa [hconfig] at hmem

/-! ### The link -/

/-- A session is in the table only once a version is agreed on. -/
def negotiated {T : Type} : Contract (MuxLink T) MuxError (LinkEffect T) where
  inv link := ∀ port session, link.sessions port = some session → link.version.isSome = true
  relies _ := True
  gives _ := True
  fails _ := True

section

variable {T : Type} [BulkTransport T] [Clock T]

/-- The links reached from `start`. -/
def Reached (start : MuxLink T) : MuxLink T → Prop :=
  Relation.ReflTransGen (fun link link' => ∃ op : LinkOp, link' = (op.run.run link).state) start

omit [BulkTransport T] [Clock T] in
/-- Steps that leave the table and the version alone. -/
lemma negotiated_of_same {α : Type} {x : LinkM T α} (h : ∀ link, (x.run link).state.sessions = link.sessions ∧
    (x.run link).state.version = link.version) : negotiated.Keeps x := by
  intro link hi _ _
  refine ⟨?_, fun _ _ => trivial, fun _ _ => trivial, fun _ _ => trivial⟩
  intro port session hs
  rw [(h link).1] at hs
  rw [(h link).2]
  exact hi port session hs

lemma negotiated_sound : Sound (negotiated : Contract (MuxLink T) MuxError (LinkEffect T)) := by
  have hsend (packet : Bytes) : negotiated.Keeps (transportSend packet : LinkM T Unit) :=
    negotiated_of_same fun _ => ⟨rfl, rfl⟩
  have hpacket (payload : Bytes) : negotiated.Keeps (sendSegment payload : LinkM T Unit) :=
    sendPacket_keeps hsend (negotiated_of_same fun _ => ⟨rfl, rfl⟩) (fun _ _ => trivial) .tcp payload
  refine
    { counted := negotiated_of_same fun _ => ⟨rfl, rfl⟩
      rejected := negotiated_of_same fun _ => ⟨rfl, rfl⟩
      sequenced := negotiated_of_same fun _ => ⟨rfl, rfl⟩
      restart := ?_
      fails := fun _ => trivial
      flushes := fun port => ⟨?_, ?_, fun _ => (hpacket _).under _⟩
      recv := fun _ => negotiated_of_same fun _ => ⟨rfl, rfl⟩
      received := fun _ => negotiated_of_same fun _ => ⟨rfl, rfl⟩
      inFlush := fun _ hi => hi
      now := negotiated_of_same fun _ => ⟨rfl, rfl⟩
      remaining := fun _ => negotiated_of_same fun _ => ⟨rfl, rfl⟩
      queued := fun _ _ => negotiated_of_same fun _ => ⟨rfl, rfl⟩
      request := fun _ => hsend _
      remove := ?_
      allocated := fun _ => negotiated_of_same fun _ => ⟨rfl, rfl⟩
      seeded := Contract.Keeps.modify fun _ hi port session hs => hi port session hs
      bare := fun _ => hpacket _
      opened := ?_ }
  · intro version link _ _ _
    exact ⟨fun _ _ _ => rfl, fun _ _ => trivial, fun _ _ => trivial, fun _ _ => trivial⟩
  · intro s s' _
    refine Triple.modify ?_ fun link _ _ => by simp [MuxLink.putSession]
    intro link hi hs p session _
    exact hi port s hs
  · intro session segment _
    exact Triple.record fun _ _ hs _ => ⟨trivial, hs⟩
  · intro port
    refine Contract.Keeps.modify ?_
    intro link hi p session hp
    by_cases heq : p = port
    · simp [MuxLink.removeSession, heq] at hp
    · simp only [MuxLink.removeSession, if_neg heq] at hp
      exact hi p session hp
  · intro config
    refine Triple.modify ?_ fun _ _ _ => trivial
    intro link _ hmss p session _
    rw [segmentSize_run] at hmss
    cases hv : link.version with
    | none => simp [hv] at hmss
    | some version => exact congrArg Option.isSome hv

lemma Reached.version {transport : T} {seed window : BitVec 32} {link : MuxLink T}
    (hr : Reached ((MuxLink.new transport seed).withReceiveWindow window) link)
    {port : BitVec 16} {session : MuxSession} (hs : link.sessions port = some session) :
    ∃ version, link.version = some version := by
  have hi : negotiated.inv link := by
    clear hs
    induction hr with
    | refl => exact nofun
    | tail _ hstep ih =>
      obtain ⟨op, rfl⟩ := hstep
      exact (negotiated_sound.run op _ ih trivial fun _ _ => trivial).inv
  exact Option.isSome_iff_exists.mp (hi port session hs)

end

section

variable {T : Type} [BulkTransport T] {port : BitVec 16} {link : MuxLink T} {session : MuxSession}

/-- The reset of an abortive close. -/
def MuxSession.reset (s : MuxSession) : TcpHeader :=
  ⟨s.config.localPort, s.config.remotePort, s.sndNxt, s.rcvNxt, flags.RST, 0⟩

lemma close_orderly (hs : link.sessions port = some session) (hc : session.orderlyClosed = true) :
    (LinkM.close port).run link = ⟨.ok (), link.removeSession port, []⟩ := by
  unfold LinkM.close
  rw [bind_silent get_run]
  simp only [hs, hc, if_true]
  rfl

lemma close_abortive (hs : link.sessions port = some session) (hc : session.orderlyClosed = false) :
    (LinkM.close port).run link =
      (sendSegment (Segment.mk session.reset []).toBytes).run (link.removeSession port) := by
  unfold LinkM.close
  rw [bind_silent get_run]
  simp only [hs, hc, Bool.false_eq_true, if_false]
  exact bind_silent (modify_run _)

/-- The reset reads back from the packet that carries it. -/
lemma reset_onWire (session : MuxSession) (link : MuxLink T) {version : MuxVersion}
    (hv : link.version = some version) (hfit : version.headerLen + TCP_HEADER_LEN ≤ link.packetLimit) :
    ∃ packet header accepted, ((sendSegment (Segment.mk session.reset []).toBytes).run link).trace =
        [.sent packet accepted] ∧ MuxHeader.decode version packet = .ok header ∧ header.protocol = .tcp ∧
      header.payload version packet = .ok (Segment.mk session.reset []).toBytes ∧
      TcpHeader.decode (Segment.mk session.reset []).toBytes = .ok session.reset := by
  have hbytes : (Segment.mk session.reset []).toBytes = session.reset.headerBytes ++ [] :=
    Segment.toBytes_eq _
  have hlen : (Segment.mk session.reset []).toBytes.length = TCP_HEADER_LEN := by
    rw [hbytes, List.append_nil, TcpHeader.headerBytes_length]
  have htotal : (BitVec.ofNat 32 (version.headerLen + TCP_HEADER_LEN)).toNat =
      version.headerLen + TCP_HEADER_LEN := by
    have := version.headerLen_le
    rw [BitVec.toNat_ofNat, Nat.mod_eq_of_lt]
    unfold TCP_HEADER_LEN
    omega
  unfold sendSegment
  rw [sendPacket_run]
  simp only [hv, hlen, if_neg (not_lt.mpr hfit)]
  obtain ⟨accepted, htrace⟩ := (transmit_run version
    ((link.hostHeader .tcp (version.headerLen + TCP_HEADER_LEN)).headerBytes version ++
      (Segment.mk session.reset []).toBytes) link).2.2
  refine ⟨_, _, accepted, htrace, MuxHeader.decode_headerBytes _ version _ rfl, ?_, ?_, ?_⟩
  · rw [MuxHeader.onWire_protocol]
    rfl
  · refine MuxHeader.payload_packet _ _ version _ ?_
    rw [MuxHeader.onWire_length, hlen]
    exact htotal
  · have hwindow : TcpHeader.windowFromWire (TcpHeader.windowToWire 0) = 0 := by decide
    rw [hbytes, TcpHeader.decode_headerBytes]
    simp only [MuxSession.reset, hwindow]

end

/-- **An orderly close loses nothing.**  In an orderly closed session both queues are empty, the
device has acknowledged the number after the FIN and so every byte queued, its own FIN was
accepted and every byte accepted was returned.  The link lets such a session go in silence; any
other session of its table it removes and sends one RST at `sndNxt`, which the transport gets as
one packet unless it has no room for the bare headers. -/
theorem orderly_close_loses_nothing {config : SessionConfig} {h : History} (hr : Driven config h) :
    (h.session.orderlyClosed = true → h.session.outbound = [] ∧ h.session.unacknowledged = [] ∧
      config.initialSequence + 1 + BitVec.ofNat 32 (h.queued.length + 1) ∈ h.acks ∧
      h.session.peerFin.isSome = true ∧ h.taken = h.accepted) ∧
    ∀ (T : Type) [BulkTransport T] [Clock T] (transport : T) (seed window : BitVec 32)
      (link : MuxLink T) (port : BitVec 16) (session : MuxSession),
      Reached ((MuxLink.new transport seed).withReceiveWindow window) link →
      link.sessions port = some session → (session.orderlyClosed = true →
        (LinkM.close port).run link = ⟨.ok (), link.removeSession port, []⟩) ∧
      (session.orderlyClosed = false → (LinkM.close port).run link =
          (sendSegment (Segment.mk session.reset []).toBytes).run (link.removeSession port) ∧
        ((LinkM.close port).run link).state.sessions = (link.removeSession port).sessions ∧
        ∃ version, link.version = some version ∧ (version.headerLen + TCP_HEADER_LEN ≤ link.packetLimit →
            ∃ packet header accepted, ((LinkM.close port).run link).trace = [.sent packet accepted] ∧
              MuxHeader.decode version packet = .ok header ∧ header.protocol = .tcp ∧
              header.payload version packet = .ok (Segment.mk session.reset []).toBytes ∧
              TcpHeader.decode (Segment.mk session.reset []).toBytes = .ok session.reset)) := by
  refine ⟨hr.orderlyClosed, ?_⟩
  intro T _ _ transport seed window link port session hreach hs
  refine ⟨close_orderly hs, fun hc => ?_⟩
  have hclose := close_abortive hs hc
  rw [hclose]
  obtain ⟨version, hv⟩ := hreach.version hs
  refine ⟨rfl, sendPacket_sessions _ _ _, version, hv, ?_⟩
  intro hfit
  exact reset_onWire session (link.removeSession port) hv hfit

/-! One byte each way and both FINs; and a session that is closed before the handshake. -/

def closeConfig : SessionConfig := ⟨49152, 62078, 0, 1024, 65536⟩

/-- A segment of the device with the given numbers. -/
def closeHeader (sequence acknowledgement : BitVec 32) (f : Byte) : TcpHeader :=
  ⟨62078, 49152, sequence, acknowledgement, f, 65536⟩

def closeOps : List SessionOp :=
  [.onSegment (closeHeader 7 1 flags.SYN_ACK) [], .queue [1], .nextSegment, .shutdownWrite,
    .nextSegment, .onSegment (closeHeader 8 3 (flags.FIN ||| flags.ACK)) [2], .takeReceived 4]

def closeHistory : History := closeOps.foldl History.step (.start (MuxSession.open closeConfig).1)

lemma closeHistory_driven : Driven closeConfig closeHistory := by
  have h1 : (closeHeader 7 1 flags.SYN_ACK).OffWire :=
    ⟨(closeHeader 7 1 flags.SYN_ACK).headerBytes, by decide⟩
  have h2 : (closeHeader 8 3 (flags.FIN ||| flags.ACK)).OffWire :=
    ⟨(closeHeader 8 3 (flags.FIN ||| flags.ACK)).headerBytes, by decide⟩
  refine Driven.foldl .refl ⟨fun _ => ⟨h1, ?_⟩, ?_, trivial, trivial, trivial, fun _ => ⟨h2, ?_⟩, trivial, trivial⟩
  · intro a ha
    cases ha
  · show MuxSession.canWrite _ = true
    decide
  · intro a ha
    obtain rfl := mem_singleton.mp ha
    show BitVec.toNat _ ≤ BitVec.toNat _
    decide

lemma Reached.after {T : Type} [BulkTransport T] [Clock T] {start link : MuxLink T}
    (hr : Reached start link) (ops : List LinkOp) : Reached start (link.after ops) := by
  induction ops generalizing link with
  | nil => exact hr
  | cons op ops ih => exact ih (hr.tail ⟨op, rfl⟩)

def halfOpenScript : Script := ⟨[(VersionPacket.mk 2 0).encode], MAX_PACKET, []⟩

def halfOpenLink : MuxLink Script :=
  (MuxLink.new halfOpenScript 0).after [.negotiate .resync 10 1, .beginOpen 62078]

theorem closeHistory_loses_nothing : closeHistory.session.outbound = [] ∧ closeHistory.taken = [2] ∧
    (3 : BitVec 32) ∈ closeHistory.acks ∧ ((LinkM.close 49152).run halfOpenLink).state.sessions =
      (halfOpenLink.removeSession 49152).sessions := by
  have h := orderly_close_loses_nothing closeHistory_driven
  obtain ⟨hout, _, hack, _, htaken⟩ := h.1 (by decide)
  have hreached : Reached (MuxLink.new halfOpenScript 0) halfOpenLink := Reached.after .refl _
  refine ⟨hout, htaken.trans (by decide), hack, ?_⟩
  exact ((h.2 Script halfOpenScript 0 DEFAULT_RECEIVE_WINDOW halfOpenLink 49152 _ hreached rfl).2
    (by decide)).2.1

end AppleUtils.Usbmux
