import AppleUtils.Usbmux.Link
import AppleUtils.Usbmux.SessionRun

/-! # Contracts of the link

The operations of the link are put together from few elementary steps.  `Flushes`, `Dispatches`
and `Routes` list what a contract needs of the steps that flushing, handling a packet and pumping
are made of, and `Sound` what it needs of the others; `Sound.run` then gives the contract for
every operation. -/

namespace AppleUtils.Usbmux

open Proc Contract LinkM Keeps

lemma MuxSession.onSegment_config (s : MuxSession) (header : TcpHeader) (payload : Bytes) :
    (s.onSegment header payload).2.config = s.config := by
  rcases s.onSegment_cases header payload with
    ⟨_, event, _, e⟩ | ⟨_, err, e⟩ | ⟨_, _, _, _, e⟩ | ⟨_, _, e⟩ <;> rw [e]
  · rfl
  · rfl
  · rfl
  · exact (acceptPayload_sameSend _ header payload).config.trans (advance_config _ header)

/-- No segment is longer than the session's segment size. -/
lemma MuxSession.nextSegment_payload_le {s : MuxSession} {segment : Segment}
    (h : s.nextSegment.1 = some segment) : segment.payload.length ≤ s.config.mss := by
  rcases s.nextSegment_cases with ⟨_, _, _, e⟩ | ⟨_, _, _, _, _, e⟩ | ⟨_, _, e⟩ | e <;> rw [e] at h
  · cases h
    simp only [sendData, nextTake, List.length_take]
    omega
  · cases h
    exact Nat.zero_le _
  · cases h
    exact Nat.zero_le _
  · cases h

lemma MuxSession.retransmitUnacknowledged_payload_le {s : MuxSession} {segment : Segment}
    (h : s.retransmitUnacknowledged = some segment) : segment.payload.length ≤ s.config.mss := by
  unfold retransmitUnacknowledged at h
  split at h
  · cases h
  · split at h
    · split at h
      · cases h
      · split at h
        · cases h
        · cases h
          exact Nat.zero_le _
    · dsimp only at h
      split at h
      · cases h
      · cases h
        simp only [List.length_take]
        omega

/-- Errors that do not come from the size check of `send_packet`. -/
def MuxError.NotTooLarge : MuxError → Prop
  | .tooLarge _ _ => False
  | _ => True

variable {T : Type} {C : Contract (MuxLink T) MuxError (LinkEffect T)}

/-- The largest packet the link sends. -/
def MuxLink.packetLimit [BulkTransport T] (link : MuxLink T) : ℕ :=
  min (BulkTransport.maxPacket link.transport) MAX_PACKET

/-! ### Single steps -/

namespace LinkM

lemma requireVersion_run (link : MuxLink T) : requireVersion.run link = ⟨match link.version with
        | some version => .ok version
        | none => .error .notNegotiated, link, []⟩ := by
  unfold requireVersion
  rw [bind_silent get_run]
  cases link.version <;> rfl

lemma requireSession_run (port : BitVec 16) (link : MuxLink T) :
    (requireSession port).run link = ⟨match link.sessions port with
        | some session => .ok session
        | none => .error (.noSession port), link, []⟩ := by
  unfold requireSession
  rw [bind_silent get_run]
  cases link.sessions port <;> rfl

/-- The segment size is the room a packet of the link's version leaves. -/
lemma segmentSize_run [BulkTransport T] (link : MuxLink T) : segmentSize.run link = ⟨match link.version with
        | some version => .ok (usizeSub (usizeSub
            (min (BulkTransport.maxPacket link.transport) MAX_TRANSFER) version.headerLen) TCP_HEADER_LEN)
        | none => .error .notNegotiated, link, []⟩ := by
  unfold segmentSize
  cases hv : link.version with
  | none => rw [bind_error (e := .notNegotiated)] <;> simp [requireVersion_run, hv]
  | some version =>
    have hrun : requireVersion.run link = ⟨.ok version, link, []⟩ := by simp [requireVersion_run, hv]
    rw [bind_silent hrun]
    rfl

variable [BulkTransport T]

/-- Sending a packet: the header always fits the buffer made for it. -/
lemma sendPacket_run (protocol : Protocol) (payload : Bytes) (link : MuxLink T) :
    (sendPacket protocol payload).run link = match link.version with
      | none => (Proc.throw .notNegotiated : LinkM T Unit).run link
      | some version => if link.packetLimit < version.headerLen + payload.length then
          (Proc.throw (.tooLarge (version.headerLen + payload.length) link.packetLimit) : LinkM T Unit).run link
        else (transmit version ((link.hostHeader protocol
            (version.headerLen + payload.length)).headerBytes version ++ payload)).run link := by
  have hversion := requireVersion_run link
  unfold sendPacket MuxLink.packetLimit
  rcases Option.eq_none_or_eq_some link.version with hv | ⟨version, hv⟩ <;>
    simp only [hv] at hversion ⊢
  · rw [bind_error (congrArg Result.outcome hversion), hversion]
    rfl
  · rw [bind_silent hversion, bind_silent get_run]
    split
    · rfl
    · have hencode : ¬ (List.replicate (version.headerLen + payload.length) (0 : Byte)).length <
          version.headerLen := by
        rw [List.length_replicate]
        omega
      simp only [MuxHeader.encode, if_neg hencode,
        List.take_left' ((link.hostHeader protocol _).headerBytes_length version)]

/-- Transmitting hands the transport one packet and leaves the session table alone. -/
lemma transmit_run (version : MuxVersion) (packet : Bytes) (link : MuxLink T) :
    ((transmit version packet).run link).outcome =
        .ofExcept .io (BulkTransport.send link.transport packet).1 ∧
      ((transmit version packet).run link).state.sessions = link.sessions ∧
      ∃ accepted, ((transmit version packet).run link).trace = [.sent packet accepted] := by
  have hsend : (transportSend packet).run link =
      ⟨.ofExcept .io (BulkTransport.send link.transport packet).1,
        { link with transport := (BulkTransport.send link.transport packet).2 },
        [.sent packet (BulkTransport.send link.transport packet).1.isOk]⟩ := rfl
  unfold transmit
  cases hr : (BulkTransport.send link.transport packet).1 with
  | error e =>
    rw [hr] at hsend
    rw [bind_error (congrArg Result.outcome hsend), hsend]
    exact ⟨rfl, rfl, _, rfl⟩
  | ok _ =>
    rw [hr] at hsend
    rw [bind_ok (congrArg Result.outcome hsend), hsend]
    cases version.isSequenced <;> exact ⟨rfl, rfl, _, rfl⟩

/-- Whatever becomes of a packet, the session table stays. -/
lemma sendPacket_sessions (protocol : Protocol) (payload : Bytes) (link : MuxLink T) :
    ((sendPacket protocol payload).run link).state.sessions = link.sessions := by
  rw [sendPacket_run]
  split
  · rfl
  · split
    · rfl
    · exact (transmit_run _ _ link).2.1

end LinkM

/-! ### Flushing and pumping -/

variable [BulkTransport T]

/-- What flushing the session of `port` needs of a contract. -/
structure Flushes (C : Contract (MuxLink T) MuxError (LinkEffect T)) (port : BitVec 16) :
    Prop where
  put {s s' : MuxSession} (h : s'.config = s.config) :
    Triple C (fun link => link.sessions port = some s) (setSession port s')
      fun _ link => link.sessions port = some s'
  pulled {session : MuxSession} {segment : Segment}
    (h : segment.payload.length ≤ session.config.mss) :
    Triple C (fun link => link.sessions port = some session)
      (record fun link => .pulled link segment) fun _ link => link.sessions port = some session
  send {session : MuxSession} {segment : Segment}
    (h : segment.payload.length ≤ session.config.mss) :
    Triple C (fun link => link.sessions port = some session)
      (sendSegment segment.toBytes) fun _ _ => True

/-- What handling a received packet needs of a contract, apart from its segment. -/
structure Dispatches (C : Contract (MuxLink T) MuxError (LinkEffect T)) : Prop where
  counted : C.Keeps (modify fun link => { link with packetsReceived := link.packetsReceived + 1 })
  rejected : C.Keeps (modify fun link => { link with packetsRejected := link.packetsRejected + 1 })
  sequenced : C.Keeps (modify fun link => { link with rxExpected := link.rxExpected + 1 })
  restart (version : MuxVersion) : C.Keeps (restartFraming version)
  fails {e : MuxError} : e.NotTooLarge → C.fails e

/-- What pumping needs of a contract. -/
structure Routes (C : Contract (MuxLink T) MuxError (LinkEffect T)) : Prop
    extends Dispatches C where
  flushes (port : BitVec 16) : Flushes C port
  recv (timeout : ℕ) : C.Keeps (transportRecv timeout)
  received (packet : Bytes) : C.Keeps (record fun link => .received link packet)
  inFlush {link : MuxLink T} (b : Bool) : C.inv link → C.inv { link with inFlush := b }

section

variable {C : Contract (MuxLink T) MuxError (LinkEffect T)}

namespace Flushes

variable {port : BitVec 16} (hC : Flushes C port)

include hC

lemma flushTurn : C.Keeps (LinkM.flushTurn port) := by
  unfold LinkM.flushTurn
  apply get_bind
  intro link _
  split
  · exact (Keeps.ret _).under _
  · split
    · exact (Keeps.ret _).under _
    · rename_i session hs
      refine Triple.bind ((hC.put session.nextSegment_config).conseq
        (fun link' _ h => h ▸ hs) (fun _ _ _ h => h)) ?_
      intro _
      split
      · exact (Keeps.ret _).under _
      · rename_i segment hsegment
        have hle := session.nextSegment_config ▸ MuxSession.nextSegment_payload_le hsegment
        refine (hC.pulled hle).bind fun _ => (hC.send hle).bind fun _ => ?_
        exact Keeps.ret _

lemma flush : C.Keeps (LinkM.flush port) := by
  unfold LinkM.flush
  apply get_bind
  intro link _
  exact (Keeps.loop (fun _ => hC.flushTurn) _ _).under _

lemma settle (event : SessionEvent) : C.Keeps (LinkM.settle port event) := by
  unfold LinkM.settle
  apply get_bind
  intro link _
  refine under ?_ _
  split
  · exact .ret _
  · exact .ret _
  · split
    · exact .ret _
    · exact hC.flush.bind fun _ => .ret _

end Flushes

namespace Dispatches

variable (hC : Dispatches C)

include hC

omit [BulkTransport T] in
lemma requireVersion : C.Keeps LinkM.requireVersion := by
  unfold LinkM.requireVersion
  apply get_bind
  intro link _
  split
  · exact (Keeps.ret _).under _
  · exact Triple.throw (hC.fails trivial)

omit [BulkTransport T] in
lemma requireSession (port : BitVec 16) : Triple C (fun _ => True) (LinkM.requireSession port) fun session link =>
    link.sessions port = some session := by
  unfold LinkM.requireSession
  refine with_post ?_ ?_
  · apply get_bind
    intro link _
    split
    · exact (Keeps.ret _).under _
    · exact Triple.throw (hC.fails trivial)
  · intro link session _ h
    have e := requireSession_run port link
    unfold LinkM.requireSession at e
    rw [e] at h ⊢
    cases hs : link.sessions port with
    | none => simp [hs] at h
    | some s =>
      simp only [hs, Outcome.ok.injEq] at h
      exact congrArg some h

omit [BulkTransport T] in
lemma rejectPacket (error : FrameError) (packet : Bytes) : C.Keeps (rejectPacket error packet) :=
  hC.rejected.bind fun _ => .ret _

omit [BulkTransport T] in
lemma acceptSequence (version : MuxVersion) (header : MuxHeader) :
    C.Keeps (LinkM.acceptSequence version header) := by
  unfold LinkM.acceptSequence
  apply get_bind
  intro link _
  split
  · split
    · exact Triple.throw (hC.fails trivial)
    · exact hC.sequenced.under _
  · exact (Keeps.ret _).under _

lemma deliver {tcp : TcpHeader} (hF : Flushes C tcp.destinationPort) (body : Bytes) :
    C.Keeps (LinkM.deliver tcp body) := by
  unfold LinkM.deliver
  apply get_bind
  intro link _
  split
  · exact (Keeps.ret _).under _
  · rename_i session hs
    refine Triple.bind ((hF.put (session.onSegment_config tcp body)).conseq
      (fun link' _ h => h ▸ hs) (fun _ _ _ _ => trivial)) ?_
    intro _
    split
    · exact .throw (hC.fails trivial)
    · exact hF.settle _

lemma dispatch (version : MuxVersion) (packet : Bytes) (header : MuxHeader) {payload : Bytes}
    (hF : ∀ tcp, TcpHeader.decode payload = .ok tcp → Flushes C tcp.destinationPort) :
    C.Keeps (LinkM.dispatch version packet header payload) := by
  unfold LinkM.dispatch
  split
  · split
    · exact .throw (hC.fails trivial)
    · exact (hC.restart _).bind fun _ => .ret _
  · apply (hC.acceptSequence version header).bind
    intro _
    split
    · exact .ret _
    · split
      · exact .ret _
      · split
        · exact .throw (hC.fails trivial)
        · rename_i tcp htcp
          exact hC.deliver (hF tcp htcp) _

lemma routePacket (version : MuxVersion) (packet : Bytes)
    (hF : ∀ header payload tcp, MuxHeader.decode version packet = .ok header →
      header.payload version packet = .ok payload → TcpHeader.decode payload = .ok tcp →
      Flushes C tcp.destinationPort) : C.Keeps (LinkM.routePacket version packet) := by
  unfold LinkM.routePacket
  apply hC.counted.bind
  intro _
  split
  · exact hC.rejectPacket _ _
  · rename_i header hd
    split
    · exact hC.rejectPacket _ _
    · rename_i payload hp
      exact hC.dispatch _ _ _ fun tcp htcp => hF header payload tcp hd hp htcp

end Dispatches

namespace Routes

variable (hC : Routes C)

include hC

lemma flush (port : BitVec 16) : C.Keeps (LinkM.flush port) := (hC.flushes port).flush

lemma pump (timeout : ℕ) : C.Keeps (LinkM.pump timeout) := by
  unfold LinkM.pump
  apply hC.requireVersion.bind
  intro version
  apply (hC.recv timeout).bind
  intro received
  cases received with
  | none => exact .ret _
  | some packet =>
    exact (hC.received packet).bind fun _ =>
      hC.routePacket version packet fun _ _ tcp _ _ _ => hC.flushes _

lemma drainInbound (turns : ℕ) : C.Keeps (drainInbound turns) := by
  apply Keeps.loop
  intro routed
  apply (hC.pump 0).bind
  intro event
  split <;> exact .ret _

lemma routeAvailable (turns : ℕ) : C.Keeps (routeAvailable turns) := by
  intro link hi _ hr
  obtain ⟨hinv, hgives, hfails, hpost⟩ := hC.drainInbound turns _ (hC.inFlush true hi) trivial hr
  exact ⟨hC.inFlush _ hinv, hgives, hfails, fun a _ => trivial⟩

end Routes

end

/-! ### Sending -/

/-- The errors of sending a segment. -/
def MuxError.OfSending : MuxError → Prop
  | .io _ | .frame _ | .notNegotiated | .tooLarge _ _ => True
  | _ => False

/-- Sending a packet needs the contract of the transport and of the sequence number, and that a
packet over the limit is allowed to fail or does not come up. -/
lemma sendPacket_triple {P : MuxLink T → Prop} (hsend : ∀ packet, C.Keeps (transportSend packet))
    (hseq : C.Keeps (modify fun link => { link with txSeq := link.txSeq + 1 }))
      (hversion : C.fails .notNegotiated) (protocol : Protocol) {payload : Bytes}
      (hlarge : ∀ link version, C.inv link → P link → link.version = some version →
        link.packetLimit < version.headerLen + payload.length →
        ∀ bytes limit, C.fails (.tooLarge bytes limit)) :
      Triple C P (sendPacket protocol payload : LinkM T Unit) fun _ _ => True := by
  have htransmit (version : MuxVersion) (packet : Bytes) :
      C.Keeps (transmit version packet) := by
    apply (hsend packet).bind
    intro _
    split
    · exact hseq
    · exact .ret _
  intro link hi hp hr
  rw [sendPacket_run] at hr ⊢
  split at hr
  · exact Triple.throw hversion link hi hp hr
  · rename_i version hv
    split at hr
    · rename_i hlimit
      rw [if_pos hlimit]
      exact Triple.throw (hlarge link version hi hp hv hlimit _ _) link hi hp hr
    · rename_i hlimit
      rw [if_neg hlimit]
      exact htransmit version _ link hi trivial hr

lemma sendPacket_keeps (hsend : ∀ packet, C.Keeps (transportSend packet))
    (hseq : C.Keeps (modify fun link => { link with txSeq := link.txSeq + 1 }))
      (hfails : ∀ e : MuxError, e.OfSending → C.fails e) (protocol : Protocol) (payload : Bytes) :
      C.Keeps (sendPacket protocol payload) :=
  sendPacket_triple hsend hseq (hfails _ trivial) protocol fun _ _ _ _ _ _ _ _ => hfails _ trivial

/-! ### Contracts of effects -/

section

variable {gives : LinkEffect T → Prop} {fails : MuxError → Prop}

section

variable (hsent : ∀ packet accepted, gives (.sent packet accepted))

include hsent

lemma transportSend_effects (hfails : ∀ e : MuxError, e.OfSending → fails e) (packet : Bytes) :
    (effects gives fails).Keeps (transportSend packet) := by
  rw [effects_keeps_iff]
  intro link
  constructor
  · intro t ht
    rw [List.mem_singleton.mp ht]
    exact hsent _ _
  · intro e he
    obtain ⟨error, rfl⟩ := Outcome.ofExcept_eq_error he
    exact hfails _ trivial

lemma sendPacket_effects (hfails : ∀ e : MuxError, e.OfSending → fails e) (protocol : Protocol) (payload : Bytes) :
    (effects gives fails).Keeps (sendPacket protocol payload) :=
  sendPacket_keeps (transportSend_effects hsent hfails) (effects_modify _) hfails protocol
    payload

end

/-- A contract of effects that allows pulling and sending allows flushing. -/
lemma Flushes.of_effects (hpulled : ∀ link segment, gives (.pulled link segment))
    (hsent : ∀ packet accepted, gives (.sent packet accepted))
    (hfails : ∀ e : MuxError, e.OfSending → fails e) (port : BitVec 16) :
    Flushes (effects gives fails : Contract (MuxLink T) MuxError (LinkEffect T)) port where
  put _ := Triple.modify (fun _ _ _ => trivial) fun link _ _ => by simp [MuxLink.putSession]
  pulled _ := Triple.record fun link _ h _ => ⟨hpulled _ _, h⟩
  send _ := (sendPacket_effects hsent hfails .tcp _).under _

end

/-! ### Every operation -/

/-- What the remaining operations need of a contract. -/
structure Sound [Clock T] (C : Contract (MuxLink T) MuxError (LinkEffect T)) : Prop
    extends Routes C where
  now : C.Keeps now
  remaining (left : ℕ) : C.Keeps (record fun _ => .remaining left)
  queued (port : BitVec 16) (data : Bytes) : C.Keeps (record fun _ => .queued port data)
  request (r : VersionRequest) : C.Keeps (transportSend r.packet.encode)
  remove (port : BitVec 16) : C.Keeps (modify (·.removeSession port))
  allocated (next : BitVec 16) : C.Keeps (modify fun link => { link with nextLocalPort := next })
  seeded : C.Keeps (modify fun link =>
    { link with sequenceSeed := link.sequenceSeed * 1664525 + 1013904223 })
  bare {segment : Segment} (h : segment.payload = []) : C.Keeps (sendSegment segment.toBytes)
  opened (config : SessionConfig) : Triple C
    (fun link => (LinkM.segmentSize.run link).outcome = .ok config.mss)
    (setSession config.localPort (MuxSession.open config).1) fun _ _ => True

namespace Sound

variable [Clock T] {C : Contract (MuxLink T) MuxError (LinkEffect T)} (hC : Sound C)

include hC

lemma startDeadline (timeout : ℕ) : C.Keeps (startDeadline timeout) :=
  hC.now.bind fun _ => .ret _

lemma remainingUntil (deadline : ℕ) : C.Keeps (remainingUntil deadline) :=
  hC.now.bind fun _ => (hC.remaining _).bind fun _ => .ret _

section

variable (port : BitVec 16)

/-- A session is read, changed without its configuration, and the rest goes on. -/
lemma change {α β : Type} (f : MuxSession → α × MuxSession)
    (hf : ∀ s, (f s).2.config = s.config) (rest : α → MuxSession → LinkM T β)
    (hrest : ∀ a s, Triple C (fun link => link.sessions port = some s) (rest a s) fun _ _ => True) : C.Keeps (do
      let session ← LinkM.requireSession port
      setSession port (f session).2
      rest (f session).1 (f session).2) := by
  apply Triple.bind (hC.requireSession port)
  intro session
  apply Triple.bind ((hC.flushes port).put (hf session))
  intro _
  exact hrest _ _

lemma takeReceived (room : ℕ) : C.Keeps (LinkM.takeReceived port room) := by
  unfold LinkM.takeReceived
  split
  · exact .ret _
  · refine hC.change port (fun s => s.takeReceived room) (fun _ => rfl) (fun taken s =>
      if taken.isEmpty then pure taken
      else do
        setSession port s.requestAck
        LinkM.flush port
        pure taken) ?_
    intro taken s
    split
    · exact (Keeps.ret _).under _
    · apply Triple.bind ((hC.flushes port).put s.requestAck_sameSend.config)
      intro _
      exact ((hC.flush port).bind fun _ => .ret _).under _

lemma pendingWrite : C.Keeps (LinkM.pendingWrite port) := by
  unfold LinkM.pendingWrite
  apply (hC.flush port).bind
  intro _
  apply (hC.requireSession port).keeps.bind
  intro session
  split
  · exact .throw (hC.fails trivial)
  · exact .ret _

lemma enqueue (data : Bytes) : C.Keeps (LinkM.enqueue port data) := by
  unfold LinkM.enqueue
  apply Triple.bind (hC.requireSession port)
  intro session
  split
  · exact Triple.throw (hC.fails trivial)
  · have hput := (hC.flushes port).put (show (session.queue data).config = session.config from rfl)
    apply Triple.bind hput
    intro _
    exact (hC.queued port data).under _

lemma queueWrite (data : Bytes) : C.Keeps (queueWrite port data) :=
  (hC.enqueue port data).bind fun _ => hC.pendingWrite port

lemma probeWindow : C.Keeps (probeWindow port) := by
  refine hC.change port MuxSession.probeWindow (fun s => s.probeWindow_sameSend.config)
    (fun probing _ =>
      if !probing then pure false
      else do
        LinkM.flush port
        pure true) ?_
  intro probing s
  split
  · exact (Keeps.ret _).under _
  · exact ((hC.flush port).bind fun _ => .ret _).under _

lemma retransmitUnacknowledged : C.Keeps (LinkM.retransmitUnacknowledged port) := by
  unfold LinkM.retransmitUnacknowledged
  apply get_bind
  intro link _
  split
  · exact (Keeps.ret _).under _
  · refine under ?_ _
    apply Triple.bind (hC.requireSession port)
    intro session
    split
    · exact (hC.probeWindow port).under _
    · rename_i segment hs
      have hle := MuxSession.retransmitUnacknowledged_payload_le hs
      refine ((hC.flushes port).pulled hle).bind fun _ => ((hC.flushes port).send hle).bind fun _ => ?_
      exact Keeps.ret _

lemma receivedEof : C.Keeps (LinkM.receivedEof port) := by
  unfold LinkM.receivedEof
  apply (hC.requireSession port).keeps.bind
  intro session
  split
  · exact .throw (hC.fails trivial)
  · exact .ret _

lemma shutdownWrite : C.Keeps (shutdownWrite port) := by
  have hconfig (s : MuxSession) : s.shutdownWrite.2.config = s.config := by
    rcases s.shutdownWrite_cases with e | e <;> rw [e]
  apply Triple.bind (hC.requireSession port)
  intro session
  apply Triple.bind ((hC.flushes port).put (hconfig session))
  intro _
  cases session.shutdownWrite.1 with
  | error e => exact Triple.throw (hC.fails trivial)
  | ok _ => exact (hC.flush port).under _

lemma close : C.Keeps (LinkM.close port) := by
  unfold LinkM.close
  apply get_bind
  intro link _
  split
  · exact (Keeps.ret _).under _
  · split
    · exact (hC.remove port).under _
    · exact ((hC.remove port).bind fun _ => hC.bare rfl).under _

lemma write (data : Bytes) (timeout turns : ℕ) : C.Keeps (write port data timeout turns) := by
  apply (hC.enqueue port data).bind
  intro _
  apply (hC.startDeadline timeout).bind
  intro deadline
  apply Keeps.loop
  intro _
  apply (hC.requireSession port).keeps.bind
  intro before
  apply (hC.flush port).bind
  intro _
  apply (hC.requireSession port).keeps.bind
  intro session
  split
  · exact .throw (hC.fails trivial)
  · split
    · exact .ret _
    · apply (hC.remainingUntil deadline).bind
      intro remaining
      split
      · exact .ret _
      · split
        · exact (hC.drainInbound turns).bind fun _ => .ret _
        · exact (hC.pump remaining).bind fun _ => .ret _

lemma read (room timeout turns : ℕ) : C.Keeps (LinkM.read port room timeout turns) := by
  unfold LinkM.read
  split
  · exact .ret _
  · apply (hC.startDeadline timeout).bind
    intro deadline
    apply Keeps.loop
    intro _
    apply (hC.takeReceived port room).bind
    intro taken
    split
    · exact .ret _
    · apply (hC.receivedEof port).bind
      intro eof
      split
      · exact .ret _
      · apply (hC.remainingUntil deadline).bind
        intro remaining
        split
        · exact .ret _
        · exact (hC.pump remaining).bind fun _ => .ret _

end

lemma negotiate (request : VersionRequest) (timeout turns : ℕ) : C.Keeps (negotiate request timeout turns) := by
  apply (hC.request request).bind
  intro _
  apply (hC.startDeadline timeout).bind
  intro deadline
  apply Keeps.loop
  intro _
  apply (hC.remainingUntil deadline).bind
  intro remaining
  split
  · exact .throw (hC.fails trivial)
  · apply (hC.recv remaining).bind
    intro received
    cases received with
    | none => exact .ret _
    | some bytes =>
      dsimp only
      cases VersionPacket.decode bytes with
      | ok reply => exact (hC.restart _).bind fun _ => .ret _
      | error e =>
        cases e with
        | notVersion _ => exact .ret _
        | short _ _ => exact .throw (hC.fails trivial)
        | lengthMismatch _ _ => exact .throw (hC.fails trivial)

lemma allocatePort : C.Keeps allocatePort := by
  have hturns (turns : ℕ) : C.Keeps (allocateTurns turns) := by
    induction turns with
    | zero => exact .throw (hC.fails trivial)
    | succ turns ih =>
      apply get_bind
      intro link _
      refine under ((hC.allocated _).bind fun _ => ?_) _
      split
      · exact ih
      · exact .ret _
  exact hturns _

lemma segmentSize : Triple C (fun _ => True) (LinkM.segmentSize : LinkM T ℕ) fun mss link =>
    (LinkM.segmentSize.run link).outcome = .ok mss := by
  refine with_post ?_ ?_
  · apply hC.requireVersion.bind
    intro version
    apply get_bind
    intro link _
    exact (Keeps.ret _).under _
  · intro link mss _ h
    have hstate : (LinkM.segmentSize.run link).state = link := by rw [LinkM.segmentSize_run]
    rw [hstate]
    exact h

lemma beginOpen (remotePort : BitVec 16) : C.Keeps (LinkM.beginOpen remotePort) := by
  unfold LinkM.beginOpen
  apply hC.allocatePort.bind
  intro port
  apply Triple.bind hC.segmentSize
  intro mss
  have hget {Q : MuxLink T → Prop} : Triple C Q Proc.get fun _ link => Q link := Triple.get
  have hseed : Triple C (fun link => (LinkM.segmentSize.run link).outcome = .ok mss)
      (nextInitialSequence port)
      fun _ link => (LinkM.segmentSize.run link).outcome = .ok mss := by
    unfold nextInitialSequence
    refine Triple.bind (Q := fun _ link => (LinkM.segmentSize.run link).outcome = .ok mss)
      (hC.seeded.with_post ?_) ?_
    · intro link _ h _
      simpa only [modify_run, LinkM.segmentSize_run] using h
    · intro _
      exact hget.bind fun link => Triple.ret
        (Q := fun _ link => (LinkM.segmentSize.run link).outcome = .ok mss) _
  apply hseed.bind
  intro initialSequence
  apply hget.bind
  intro link
  apply (hC.opened ⟨port, remotePort, initialSequence, mss, link.receiveWindow⟩).bind
  intro _
  exact (hC.bare rfl).bind fun _ => .ret _

lemma «open» (remotePort : BitVec 16) (timeout turns : ℕ) : C.Keeps (LinkM.open remotePort timeout turns) := by
  apply (hC.beginOpen remotePort).bind
  intro port
  apply (hC.startDeadline timeout).bind
  intro deadline
  apply Keeps.loop
  intro _
  apply get_bind
  intro link _
  refine under ?_ _
  split
  · exact (hC.flush port).bind fun _ => .ret _
  · exact (hC.remove port).bind fun _ => .throw (hC.fails trivial)
  · exact (hC.remove port).bind fun _ => .throw (hC.fails trivial)
  · apply (hC.remainingUntil deadline).bind
    intro remaining
    split
    · exact (hC.remove port).bind fun _ => .throw (hC.fails trivial)
    · exact (hC.pump remaining).bind fun _ => .ret _

/-- Every operation of the link meets the contract. -/
lemma run (op : LinkOp) : C.Keeps (op.run : LinkM T Unit) := by
  cases op with
  | negotiate request timeout turns =>
    exact (hC.negotiate request timeout turns).bind fun _ => .ret _
  | beginOpen remotePort => exact (hC.beginOpen remotePort).bind fun _ => .ret _
  | finishOpen port => exact hC.flush port
  | abandonOpen port => exact hC.remove port
  | forgetSession port => exact hC.remove port
  | «open» remotePort timeout turns =>
    exact (hC.open remotePort timeout turns).bind fun _ => .ret _
  | write port data timeout turns =>
    exact (hC.write port data timeout turns).bind fun _ => .ret _
  | queueWrite port data => exact (hC.queueWrite port data).bind fun _ => .ret _
  | pendingWrite port => exact (hC.pendingWrite port).bind fun _ => .ret _
  | read port room timeout turns =>
    exact (hC.read port room timeout turns).bind fun _ => .ret _
  | takeReceived port room => exact (hC.takeReceived port room).bind fun _ => .ret _
  | receivedEof port => exact (hC.receivedEof port).bind fun _ => .ret _
  | shutdownWrite port => exact hC.shutdownWrite port
  | probeWindow port => exact (hC.probeWindow port).bind fun _ => .ret _
  | retransmitUnacknowledged port =>
    exact (hC.retransmitUnacknowledged port).bind fun _ => .ret _
  | flush port => exact hC.flush port
  | close port => exact hC.close port
  | pump timeout => exact (hC.pump timeout).bind fun _ => .ret _
  | drainInbound turns => exact (hC.drainInbound turns).bind fun _ => .ret _
  | routeAvailable turns => exact (hC.routeAvailable turns).bind fun _ => .ret _

end Sound

end AppleUtils.Usbmux
