import AppleUtils.Lib.Monitor
import AppleUtils.Usbmux.Isolation

/-! # The sequence numbers of a link

In version two every packet of a link carries a number of its own and the number of the last packet it
took from the other side.  `Tally` counts both, by reading the effects of the link: the packets that the
transport accepted and the packets that the link took since the device last announced a version.  The
link's counters are the tally modulo 2^16 (`follows_run`), whatever the link is asked to do.

Two links whose packets reach each other in order then agree, as long as none of them negotiates
(`no_gap`): `negotiate` passes over the packets it meets while it waits for an answer. -/

namespace AppleUtils.Usbmux

open Bytes Proc Monitor

variable {header : MuxHeader} {T : Type}

/-- The header of a packet that frames, in version two. -/
def frameIn (packet : Bytes) : Option MuxHeader :=
  match MuxHeader.decode .v2 packet with
  | .error _ => none
  | .ok header =>
    match header.payload .v2 packet with
    | .error _ => none
    | .ok _ => some header

/-- Whether a packet is one of the version exchange, which is not sequenced. -/
def isVersionPacket (packet : Bytes) : Bool := packet.be32 0 = 0

structure Tally where
  version : Option MuxVersion
  sent : ℕ
  accepted : ℕ
  /-- The last packet that was received is one of the version exchange. -/
  heard : Bool
  gap : Bool
deriving DecidableEq

variable {t : Tally} {packet : Bytes} {version : MuxVersion}

namespace Tally

variable {T : Type}

/-- A packet that frames and is not of the version exchange is taken if it carries the next number. -/
def receive (t : Tally) (packet : Bytes) : Tally :=
  match t.version, frameIn packet with
  | some .v2, some header =>
    if header.protocol = .version then t
    else if header.txSeq = BitVec.ofNat 16 t.accepted then { t with accepted := t.accepted + 1 }
    else { t with gap := true }
  | _, _ => t

def next (t : Tally) : LinkEffect T → Tally
  | .received _ packet => { t.receive packet with heard := isVersionPacket packet }
  | .announced _ version => { t with version := some version, sent := 0, accepted := 0 }
  | .sent packet true =>
    if t.version = some .v2 ∧ ¬ isVersionPacket packet then { t with sent := t.sent + 1 } else t
  | .sent _ false => t
  | .pulled _ _ => t
  | .queued _ _ => t
  | .remaining _ => t

/-- A sequenced packet carries the numbers of the tally. -/
def Numbers (t : Tally) (packet : Bytes) : Prop :=
  ∃ header, frameIn packet = some header ∧ header.txSeq = BitVec.ofNat 16 t.sent
    ∧ header.rxAck = BitVec.ofNat 16 t.accepted - 1

/-- The link's counters are those of the tally. -/
structure Of (t : Tally) (link : MuxLink T) : Prop where
  version : link.version = t.version
  txSeq : link.txSeq = BitVec.ofNat 16 t.sent
  rxExpected : link.rxExpected = BitVec.ofNat 16 t.accepted

/-- `quiet` for a link that does not negotiate: it sends no packet of the version exchange, and hears of
a version only from such a packet. -/
def Allows (quiet : Prop) (t : Tally) : LinkEffect T → Prop
  | .sent packet accepted => (quiet → ¬ isVersionPacket packet) ∧
      (accepted = true → t.version = some .v2 → ¬ isVersionPacket packet → t.Numbers packet)
  | .announced _ _ => quiet → t.heard = true
  | .received _ _ => True
  | .pulled _ _ => True
  | .queued _ _ => True
  | .remaining _ => True

end Tally

def MuxError.IsGap : MuxError → Bool
  | .sequenceGap _ _ => true
  | _ => false

/-- The tally as a monitor: a gap is reported only if the tally has one. -/
def tallying (T : Type) (quiet : Prop) : Monitor (MuxLink T) MuxError (LinkEffect T) Tally where
  knows t link := t.Of link
  next := Tally.next
  allows := Tally.Allows quiet
  explains t e := e.IsGap = true → t.gap = true

section Steps

variable {T : Type} {quiet : Prop} {link link' : MuxLink T} {payload : Bytes}

abbrev Tallied (T : Type) (quiet : Prop) {α : Type} (x : LinkM T α) : Prop := (tallying T quiet).Follows x

lemma Tally.Of.change (h : t.Of link) (hversion : link'.version = link.version) (htx : link'.txSeq = link.txSeq)
    (hrx : link'.rxExpected = link.rxExpected) : t.Of link' :=
  ⟨hversion.trans h.version, htx.trans h.txSeq, hrx.trans h.rxExpected⟩

lemma follows_throw {α : Type} {e : MuxError} (he : e.IsGap = false) :
    Tallied T quiet (Proc.throw e : LinkM T α) :=
  .throw fun _ h => by
    rw [he] at h
    cases h

lemma follows_modify {g : MuxLink T → MuxLink T} (hversion : ∀ link, (g link).version = link.version)
    (htx : ∀ link, (g link).txSeq = link.txSeq) (hrx : ∀ link, (g link).rxExpected = link.rxExpected) :
    Tallied T quiet (Proc.modify g : LinkM T Unit) :=
  .modify fun link _ h => Tally.Of.change h (hversion link) (htx link) (hrx link)

lemma follows_setSession (port : BitVec 16) (session : MuxSession) :
    Tallied T quiet (LinkM.setSession port session) :=
  follows_modify (fun _ => rfl) (fun _ => rfl) fun _ => rfl

lemma follows_removeSession (port : BitVec 16) :
    Tallied T quiet (Proc.modify (·.removeSession port) : LinkM T Unit) :=
  follows_modify (fun _ => rfl) (fun _ => rfl) fun _ => rfl

lemma follows_pulled (segment : Segment) :
    Tallied T quiet (Proc.record fun link => .pulled link segment : LinkM T Unit) :=
  .record fun _ _ h => ⟨trivial, h⟩

lemma follows_requireVersion : Tallied T quiet LinkM.requireVersion := by
  refine Follows.get.bind fun link => ?_
  cases link.version with
  | none => exact follows_throw rfl
  | some version => exact .ret version

lemma follows_requireSession (port : BitVec 16) : Tallied T quiet (LinkM.requireSession port) := by
  refine Follows.get.bind fun link => ?_
  cases link.sessions port with
  | none => exact follows_throw rfl
  | some session => exact .ret session

lemma follows_now [Clock T] : Tallied T quiet LinkM.now :=
  .of_silent (fun _ => rfl) (fun _ _ h => h.change rfl rfl rfl) fun _ _ _ _ h => by cases h

lemma follows_startDeadline [Clock T] (timeout : ℕ) : Tallied T quiet (LinkM.startDeadline timeout) :=
  follows_now.bind fun _ => .ret _

lemma follows_remainingUntil [Clock T] (deadline : ℕ) : Tallied T quiet (LinkM.remainingUntil deadline) :=
  follows_now.bind fun _ => (Follows.record fun _ _ h => ⟨trivial, h⟩).bind fun _ => .ret _

/-- Receiving leaves the tally's counters alone: what it knows of the link stays. -/
lemma Tally.Of.received (h : t.Of link')
    (hsame : t.receive packet = t) : Tally.Of (t.next (.received link packet)) link' := by
  rw [Tally.next, hsame]
  exact ⟨h.version, h.txSeq, h.rxExpected⟩

lemma follows_restart (hheard : quiet → t.heard = true) :
    (tallying T quiet).Reads t ((LinkM.restartFraming version).run link) := by
  rw [restartFraming_run]
  exact ⟨⟨rfl, rfl, rfl⟩, ⟨hheard, trivial⟩, fun e h => by cases h⟩

lemma follows_rejectPacket (error : FrameError) (packet : Bytes) :
    Tallied T quiet (LinkM.rejectPacket error packet) := by
  refine Follows.bind ?_ fun _ => .ret _
  exact follows_modify (fun _ => rfl) (fun _ => rfl) fun _ => rfl

lemma follows_enqueue (port : BitVec 16) (data : Bytes) : Tallied T quiet (LinkM.enqueue port data) := by
  refine (follows_requireSession port).bind fun session => ?_
  split
  · exact follows_throw rfl
  · exact (follows_setSession port _).bind fun _ => .record fun _ _ h => ⟨trivial, h⟩

lemma follows_receivedEof (port : BitVec 16) : Tallied T quiet (LinkM.receivedEof port) := by
  refine (follows_requireSession port).bind fun session => ?_
  split
  · exact follows_throw rfl
  · exact .ret _

lemma follows_allocatePort : Tallied T quiet LinkM.allocatePort := by
  have hturns (turns : ℕ) : Tallied T quiet (LinkM.allocateTurns turns) := by
    induction turns with
    | zero => exact follows_throw rfl
    | succ turns ih =>
      refine Follows.get.bind fun link => Follows.bind ?_ fun _ => ?_
      · exact follows_modify (fun _ => rfl) (fun _ => rfl) fun _ => rfl
      · split
        · exact ih
        · exact .ret _
  exact hturns _

variable [BulkTransport T]

lemma follows_transportRecv (timeout : ℕ) : Tallied T quiet (LinkM.transportRecv timeout) := by
  refine .of_silent (fun _ => rfl) (fun _ _ h => h.change rfl rfl rfl) fun link _ e _ h hgap => ?_
  obtain ⟨d, rfl⟩ := Outcome.ofExcept_eq_error h
  cases hgap

lemma isVersionPacket_headerBytes (header : MuxHeader) (version : MuxVersion) (body : Bytes) :
    isVersionPacket (header.headerBytes version ++ body) = decide (header.protocol.wireValue = 0) := by
  have hzero : (header.headerBytes version ++ body).be32 0 = header.protocol.wireValue :=
    extract_append_32 _
  rw [isVersionPacket, hzero]

/-- The packet of a segment frames, with the counters of the link in its header. -/
lemma frameIn_hostHeader (link : MuxLink T)
    (hlimit : ¬ link.packetLimit < MuxVersion.v2.headerLen + payload.length) :
    frameIn ((link.hostHeader .tcp (MuxVersion.v2.headerLen + payload.length)).headerBytes .v2 ++ payload) =
      some (link.hostHeader .tcp (MuxVersion.v2.headerLen + payload.length)) := by
  have hsmall : MuxVersion.v2.headerLen + payload.length < 2 ^ 32 := by
    have hmax : MAX_PACKET < 2 ^ 32 := by decide
    have : link.packetLimit ≤ MAX_PACKET := Nat.min_le_right _ _
    omega
  have hdecode := MuxHeader.decode_headerBytes
    (link.hostHeader .tcp (MuxVersion.v2.headerLen + payload.length)) .v2 payload rfl
  have hpayload := MuxHeader.payload_packet (link.hostHeader .tcp (MuxVersion.v2.headerLen + payload.length))
    (link.hostHeader .tcp (MuxVersion.v2.headerLen + payload.length)) .v2 payload
    (by rw [MuxLink.hostHeader, BitVec.toNat_ofNat, Nat.mod_eq_of_lt hsmall])
  simp only [frameIn, hdecode, MuxHeader.onWire, hpayload]

/-- The number moves on with the packet that carries it. -/
lemma follows_sendSegment (payload : Bytes) : Tallied T quiet (LinkM.sendSegment payload) := by
  intro link t ht
  rw [LinkM.sendSegment, LinkM.sendPacket_run]
  cases hv : link.version with
  | none => exact follows_throw rfl link t ht
  | some version =>
    dsimp only
    split
    · exact follows_throw rfl link t ht
    rename_i hlimit
    have htcp := isVersionPacket_headerBytes
      (link.hostHeader .tcp (version.headerLen + payload.length)) version payload
    have hnumbers : t.version = some .v2 → t.Numbers
        ((link.hostHeader .tcp (version.headerLen + payload.length)).headerBytes version ++ payload) := by
      intro hversion
      obtain rfl : version = .v2 := Option.some.inj (hv.symm.trans (ht.version.trans hversion))
      refine ⟨_, frameIn_hostHeader link hlimit, ht.txSeq, ?_⟩
      change link.rxExpected - 1 = _
      rw [ht.rxExpected]
    generalize (link.hostHeader .tcp (version.headerLen + payload.length)).headerBytes version ++ payload
      = packet at htcp hnumbers
    have hplain : isVersionPacket packet = false := by rw [htcp]; rfl
    have hversion := ht.version.symm.trans hv
    cases hsend : (BulkTransport.send link.transport packet).1 with
    | error e =>
      rw [LinkM.transmit, bind_error (e := .io e) (by simp [LinkM.transportSend, hsend, Outcome.ofExcept])]
      simp only [LinkM.transportSend, hsend]
      exact ⟨ht.change rfl rfl rfl, ⟨⟨fun _ => by simp [hplain], fun h => by cases h⟩, trivial⟩,
        fun e he hgap => by cases he; cases hgap⟩
    | ok u =>
      have hrun : (LinkM.transportSend packet).run link =
          ⟨.ok (), { link with transport := (BulkTransport.send link.transport packet).2 },
            [.sent packet true]⟩ := by
        simp [LinkM.transportSend, hsend, Outcome.ofExcept, Except.isOk, Except.toBool]
      rw [LinkM.transmit, bind_run hrun]
      have hallows : Tally.Allows (T := T) quiet t (.sent packet true) :=
        ⟨fun _ => by simp [hplain], fun _ hv2 _ => hnumbers hv2⟩
      refine Reads.after ⟨hallows, trivial⟩ ?_
      cases version with
      | v1 =>
        refine Follows.ret () _ _ ?_
        change Tally.Of (t.next (.sent packet true : LinkEffect T)) _
        rw [Tally.next, if_neg (by simp [hversion])]
        exact ht.change rfl rfl rfl
      | v2 =>
        have hnext : t.next (.sent packet true : LinkEffect T) = { t with sent := t.sent + 1 } := by
          rw [Tally.next, if_pos ⟨hversion, by simp [hplain]⟩]
        refine ⟨?_, trivial, fun e he => by cases he⟩
        change Tally.Of (t.next (.sent packet true : LinkEffect T)) _
        rw [hnext]
        refine ⟨ht.version, ?_, ht.rxExpected⟩
        change link.txSeq + 1 = BitVec.ofNat 16 (t.sent + 1)
        rw [ht.txSeq, BitVec.ofNat_add]
        rfl

lemma follows_flush (port : BitVec 16) : Tallied T quiet (LinkM.flush port) := by
  refine Follows.get.bind fun _ => .loop (fun _ => ?_) _ _
  refine Follows.get.bind fun link => ?_
  split
  · exact .ret _
  cases link.sessions port with
  | none => exact .ret _
  | some session =>
    refine (follows_setSession port _).bind fun _ => ?_
    cases session.nextSegment.1 with
    | none => exact .ret _
    | some segment =>
      exact (follows_pulled segment).bind fun _ => (follows_sendSegment _).bind fun _ => .ret _

lemma follows_settle (port : BitVec 16) (event : SessionEvent) : Tallied T quiet (LinkM.settle port event) := by
  refine Follows.get.bind fun link => ?_
  have hrest : Tallied T quiet (if link.inFlush then pure (.session port event)
      else do
        LinkM.flush port
        pure (.session port event) : LinkM T LinkEvent) := by
    split
    · exact .ret _
    · exact (follows_flush port).bind fun _ => .ret _
  cases event <;> first | exact .ret _ | exact hrest

lemma follows_deliver (tcp : TcpHeader) (body : Bytes) : Tallied T quiet (LinkM.deliver tcp body) := by
  refine Follows.get.bind fun link => ?_
  cases link.sessions tcp.destinationPort with
  | none => exact .ret _
  | some session =>
    refine (follows_setSession _ _).bind fun _ => ?_
    cases (session.onSegment tcp body).1 with
    | error e => exact follows_throw rfl
    | ok event => exact follows_settle _ event

/-! ### Received packets -/

lemma fromWire_eq_version {value : BitVec 32} : Protocol.fromWire value = .version ↔ value = 0 := by
  unfold Protocol.fromWire
  split
  · simpa
  · rename_i hzero
    constructor
    · intro h
      split at h
      · cases h
      split at h
      · cases h
      split at h <;> cases h
    · exact fun h => absurd h hzero

lemma decode_protocol (h : MuxHeader.decode version packet = .ok header) :
    header.protocol = .version ↔ isVersionPacket packet = true := by
  unfold MuxHeader.decode at h
  split at h
  · cases h
  split at h <;>
  · obtain rfl := Except.ok.inj h
    rw [fromWire_eq_version, isVersionPacket, decide_eq_true_iff]

lemma receive_of_frameIn (h : t.version = some .v2 → frameIn packet = none) : t.receive packet = t := by
  unfold Tally.receive
  split
  · rename_i hversion hframe
    rw [h hversion] at hframe
    cases hframe
  · rfl

/-- What follows the check of the sequence number. -/
lemma follows_protocol (header : MuxHeader) (payload : Bytes) :
    Tallied T quiet (if header.protocol = .control then pure (.other .control)
      else if header.protocol ≠ .tcp then pure (.other header.protocol) else match TcpHeader.decode payload with
        | .error e => throw (.tcp e)
        | .ok tcp => LinkM.deliver tcp (payload.drop TCP_HEADER_LEN) : LinkM T LinkEvent) := by
  split
  · exact .ret _
  split
  · exact .ret _
  cases TcpHeader.decode payload with
  | error e => exact follows_throw rfl
  | ok tcp => exact follows_deliver tcp _

lemma dispatch_reads (link₀ : MuxLink T) (ht : t.Of link) (hv : link.version = some version)
    (hdecode : MuxHeader.decode version packet = .ok header)
    (hpayload : header.payload version packet = .ok payload) :
    (tallying T quiet).Reads (t.next (.received link₀ packet))
      ((LinkM.dispatch version packet header payload).run link) := by
  have hversion := ht.version.symm.trans hv
  unfold LinkM.dispatch
  by_cases hprotocol : header.protocol = .version
  · rw [if_pos hprotocol]
    have hsame : t.receive packet = t := by
      unfold Tally.receive
      split
      · rename_i header' hv2 hframe
        obtain rfl : version = .v2 := Option.some.inj (hversion.symm.trans hv2)
        simp only [frameIn, hdecode, hpayload, Option.some.injEq] at hframe
        rw [if_pos (hframe ▸ hprotocol)]
      · rfl
    cases VersionPacket.decode packet with
    | error e => exact follows_throw rfl _ _ (ht.received hsame)
    | ok reply =>
      refine (follows_restart fun _ => ?_).bind fun _ => .ret _
      exact (decode_protocol hdecode).mp hprotocol
  · rw [if_neg hprotocol]
    cases version with
    | v1 =>
      have hrun : (LinkM.acceptSequence .v1 header).run link = ⟨.ok (), link, []⟩ := by
        rw [acceptSequence_run]
        rfl
      rw [bind_silent hrun]
      refine follows_protocol header payload _ _ (ht.received (receive_of_frameIn fun h => ?_))
      rw [hversion] at h
      cases h
    | v2 =>
      have hframe : frameIn packet = some header := by simp only [frameIn, hdecode, hpayload]
      have hreceive : t.receive packet = if header.txSeq = BitVec.ofNat 16 t.accepted then
          { t with accepted := t.accepted + 1 } else { t with gap := true } := by
        unfold Tally.receive
        rw [hversion, hframe]
        exact if_neg hprotocol
      have hsequenced : MuxVersion.v2.isSequenced = true := rfl
      by_cases hgap : header.txSeq = link.rxExpected
      · have hrun : (LinkM.acceptSequence .v2 header).run link =
            ⟨.ok (), { link with rxExpected := link.rxExpected + 1 }, []⟩ := by
          rw [acceptSequence_run, if_pos hsequenced, if_neg (not_not.mpr hgap)]
        rw [bind_silent hrun]
        refine follows_protocol header payload _ _ ?_
        rw [Tally.next, hreceive, if_pos (hgap.trans ht.rxExpected)]
        refine ⟨ht.version, ht.txSeq, ?_⟩
        change link.rxExpected + 1 = BitVec.ofNat 16 (t.accepted + 1)
        rw [ht.rxExpected, BitVec.ofNat_add]
        rfl
      · have hrun : (LinkM.acceptSequence .v2 header).run link =
            ⟨.error (.sequenceGap link.rxExpected header.txSeq), link, []⟩ := by
          rw [acceptSequence_run, if_pos hsequenced, if_pos hgap]
        rw [bind_error (congrArg Result.outcome hrun), hrun]
        rw [ht.rxExpected] at hgap
        refine ⟨?_, trivial, fun _ _ _ => ?_⟩
        · change Tally.Of (t.next (.received link₀ packet)) link
          rw [Tally.next, hreceive, if_neg hgap]
          exact ⟨ht.version, ht.txSeq, ht.rxExpected⟩
        · change (t.next (.received link₀ packet)).gap = true
          rw [Tally.next, hreceive, if_neg hgap]

lemma routePacket_reads (link₀ : MuxLink T) (ht : t.Of link) (hv : link.version = some version) :
    (tallying T quiet).Reads (t.next (.received link₀ packet)) ((LinkM.routePacket version packet).run link) := by
  have hversion := ht.version.symm.trans hv
  unfold LinkM.routePacket
  rw [bind_silent (modify_run _)]
  have ht' : t.Of { link with packetsReceived := link.packetsReceived + 1 } := ht.change rfl rfl rfl
  cases hdecode : MuxHeader.decode version packet with
  | error e =>
    refine follows_rejectPacket e packet _ _ (ht'.received (receive_of_frameIn fun hv2 => ?_))
    obtain rfl : version = .v2 := Option.some.inj (hversion.symm.trans hv2)
    simp only [frameIn, hdecode]
  | ok header =>
    dsimp only
    cases hpayload : header.payload version packet with
    | error e =>
      refine follows_rejectPacket e packet _ _ (ht'.received (receive_of_frameIn fun hv2 => ?_))
      obtain rfl : version = .v2 := Option.some.inj (hversion.symm.trans hv2)
      simp only [frameIn, hdecode, hpayload]
    | ok payload => exact dispatch_reads link₀ ht' hv hdecode hpayload

lemma follows_pump (timeout : ℕ) : Tallied T quiet (LinkM.pump timeout) := by
  intro link t ht
  unfold LinkM.pump
  cases hv : link.version with
  | none =>
    rw [bind_error (e := .notNegotiated) (by rw [LinkM.requireVersion_run, hv])]
    rw [LinkM.requireVersion_run]
    exact ⟨ht, trivial, fun e he hgap => by cases he; cases hgap⟩
  | some version =>
    have hrun : LinkM.requireVersion.run link = ⟨.ok version, link, []⟩ := by
      rw [LinkM.requireVersion_run, hv]
    rw [bind_silent hrun]
    have hrecv : (tallying T quiet).Reads t ((LinkM.transportRecv timeout).run link) :=
      follows_transportRecv timeout link t ht
    cases ho : ((LinkM.transportRecv timeout).run link).outcome with
    | error e =>
      rw [bind_error ho]
      exact ⟨hrecv.knows, hrecv.accepts, fun e' he' => by cases he'; exact hrecv.explains e ho⟩
    | running =>
      rw [bind_running ho]
      exact ⟨hrecv.knows, hrecv.accepts, fun e' he' => by cases he'⟩
    | ok received =>
      rw [bind_ok ho]
      refine Reads.after hrecv.accepts ?_
      cases received with
      | none => exact Follows.ret _ _ _ hrecv.knows
      | some packet =>
        rw [bind_run (record_run _)]
        exact Reads.after ⟨trivial, trivial⟩ (routePacket_reads link hrecv.knows hv)

lemma follows_drainInbound (turns : ℕ) : Tallied T quiet (LinkM.drainInbound turns) := by
  refine .loop (fun routed => (follows_pump 0).bind fun event => ?_) _ _
  cases event <;> exact .ret _

/-- The flag that is put up while draining is none of the counters. -/
lemma follows_routeAvailable (turns : ℕ) : Tallied T quiet (LinkM.routeAvailable turns) := by
  intro link t ht
  have hdrain : (tallying T quiet).Reads t ((LinkM.drainInbound turns).run { link with inFlush := true }) :=
    follows_drainInbound turns _ t (ht.change rfl rfl rfl)
  exact ⟨hdrain.knows.change rfl rfl rfl, hdrain.accepts, hdrain.explains⟩

/-! ### Operations -/

lemma follows_takeReceived (port : BitVec 16) (room : ℕ) : Tallied T quiet (LinkM.takeReceived port room) := by
  unfold LinkM.takeReceived
  split
  · exact .ret _
  · refine (follows_requireSession port).bind fun session => (follows_setSession port _).bind fun _ => ?_
    split
    · exact .ret _
    · exact (follows_setSession port _).bind fun _ => (follows_flush port).bind fun _ => .ret _

lemma follows_pendingWrite (port : BitVec 16) : Tallied T quiet (LinkM.pendingWrite port) := by
  refine (follows_flush port).bind fun _ => (follows_requireSession port).bind fun session => ?_
  split
  · exact follows_throw rfl
  · exact .ret _

lemma follows_probeWindow (port : BitVec 16) : Tallied T quiet (LinkM.probeWindow port) := by
  refine (follows_requireSession port).bind fun session => ?_
  rcases session.probeWindow with ⟨probing, session'⟩
  refine (follows_setSession port session').bind fun _ => ?_
  split
  · exact .ret _
  · exact (follows_flush port).bind fun _ => .ret _

lemma follows_retransmitUnacknowledged (port : BitVec 16) :
    Tallied T quiet (LinkM.retransmitUnacknowledged port) := by
  refine Follows.get.bind fun link => ?_
  split
  · exact .ret _
  · refine (follows_requireSession port).bind fun session => ?_
    cases session.retransmitUnacknowledged with
    | none => exact follows_probeWindow port
    | some segment =>
      exact (follows_pulled segment).bind fun _ => (follows_sendSegment _).bind fun _ => .ret _

lemma follows_shutdownWrite (port : BitVec 16) : Tallied T quiet (LinkM.shutdownWrite port) := by
  refine (follows_requireSession port).bind fun session => (follows_setSession port _).bind fun _ => ?_
  cases session.shutdownWrite.1 with
  | error e => exact follows_throw rfl
  | ok _ => exact follows_flush port

lemma follows_close (port : BitVec 16) : Tallied T quiet (LinkM.close port) := by
  refine Follows.get.bind fun link => ?_
  cases link.sessions port with
  | none => exact .ret _
  | some session =>
    dsimp only
    split
    · exact follows_removeSession port
    · exact (follows_removeSession port).bind fun _ => follows_sendSegment _

lemma follows_beginOpen (remotePort : BitVec 16) : Tallied T quiet (LinkM.beginOpen remotePort) := by
  refine follows_allocatePort.bind fun port => Follows.bind ?_ fun mss => ?_
  · exact follows_requireVersion.bind fun version => Follows.get.bind fun link => .ret _
  refine Follows.bind ?_ fun initialSequence => Follows.get.bind fun link => ?_
  · refine Follows.bind ?_ fun _ => Follows.get.bind fun _ => .ret _
    exact follows_modify (fun _ => rfl) (fun _ => rfl) fun _ => rfl
  · exact (follows_setSession port _).bind fun _ => (follows_sendSegment _).bind fun _ => .ret _

/-- The request of the exchange is not sequenced. -/
lemma follows_request (hquiet : ¬ quiet) (request : VersionRequest) :
    Tallied T quiet (LinkM.transportSend request.packet.encode) := by
  intro link t ht
  have hversion : isVersionPacket request.packet.encode = true := by
    have hzero : request.packet.encode.be32 0 = Protocol.version.wireValue := extract_append_32 _
    rw [isVersionPacket, hzero]
    rfl
  have hnext (accepted : Bool) : t.next (.sent request.packet.encode accepted : LinkEffect T) = t := by
    cases accepted with
    | false => rfl
    | true => rw [Tally.next, if_neg (by simp [hversion])]
  refine ⟨?_, ⟨⟨fun h => absurd h hquiet, fun _ _ h => absurd hversion h⟩, trivial⟩, ?_⟩
  · change Tally.Of (t.next (.sent request.packet.encode _ : LinkEffect T)) _
    rw [hnext]
    exact ht.change rfl rfl rfl
  · intro e he hgap
    obtain ⟨d, rfl⟩ := Outcome.ofExcept_eq_error he
    cases hgap

variable [Clock T]

lemma follows_write (port : BitVec 16) (data : Bytes) (timeout turns : ℕ) :
    Tallied T quiet (LinkM.write port data timeout turns) := by
  refine (follows_enqueue port data).bind fun _ => (follows_startDeadline timeout).bind fun deadline => ?_
  refine .loop (fun _ => (follows_requireSession port).bind fun before => ?_) _ _
  refine (follows_flush port).bind fun _ => (follows_requireSession port).bind fun session => ?_
  split
  · exact follows_throw rfl
  split
  · exact .ret _
  refine (follows_remainingUntil deadline).bind fun remaining => ?_
  split
  · exact .ret _
  split
  · exact (follows_drainInbound turns).bind fun _ => .ret _
  · exact (follows_pump remaining).bind fun _ => .ret _

lemma follows_read (port : BitVec 16) (room timeout turns : ℕ) :
    Tallied T quiet (LinkM.read port room timeout turns) := by
  unfold LinkM.read
  split
  · exact .ret _
  refine (follows_startDeadline timeout).bind fun deadline => ?_
  refine .loop (fun _ => (follows_takeReceived port room).bind fun taken => ?_) _ _
  split
  · exact .ret _
  refine (follows_receivedEof port).bind fun eof => ?_
  split
  · exact .ret _
  refine (follows_remainingUntil deadline).bind fun remaining => ?_
  split
  · exact .ret _
  · exact (follows_pump remaining).bind fun _ => .ret _

lemma follows_open (remotePort : BitVec 16) (timeout turns : ℕ) :
    Tallied T quiet (LinkM.open remotePort timeout turns) := by
  refine (follows_beginOpen remotePort).bind fun port => (follows_startDeadline timeout).bind fun deadline => ?_
  refine .loop (fun _ => Follows.get.bind fun link => ?_) _ _
  split
  · exact (follows_flush port).bind fun _ => .ret _
  · exact (follows_removeSession port).bind fun _ => follows_throw rfl
  · exact (follows_removeSession port).bind fun _ => follows_throw rfl
  · refine (follows_remainingUntil deadline).bind fun remaining => ?_
    split
    · exact (follows_removeSession port).bind fun _ => follows_throw rfl
    · exact (follows_pump remaining).bind fun _ => .ret _

lemma follows_negotiate (hquiet : ¬ quiet) (request : VersionRequest) (timeout turns : ℕ) :
    Tallied T quiet (LinkM.negotiate request timeout turns) := by
  refine (follows_request hquiet request).bind fun _ => (follows_startDeadline timeout).bind fun deadline => ?_
  refine .loop (fun _ => (follows_remainingUntil deadline).bind fun remaining => ?_) _ _
  split
  · exact follows_throw rfl
  refine (follows_transportRecv remaining).bind fun received => ?_
  cases received with
  | none => exact .ret _
  | some bytes =>
    dsimp only
    cases VersionPacket.decode bytes with
    | ok reply =>
      refine Follows.bind (fun link t _ => ?_) fun _ => .ret _
      exact follows_restart fun h => absurd h hquiet
    | error e =>
      cases e with
      | notVersion _ => exact .ret _
      | short _ _ => exact follows_throw rfl
      | lengthMismatch _ _ => exact follows_throw rfl

def LinkOp.IsNegotiate : LinkOp → Bool
  | .negotiate _ _ _ => true
  | _ => false

lemma follows_run (op : LinkOp) (hop : quiet → op.IsNegotiate = false) :
    Tallied T quiet (op.run : LinkM T Unit) := by
  cases op with
  | negotiate request timeout turns =>
    refine (follows_negotiate (fun h => ?_) request timeout turns).bind fun _ => .ret _
    cases hop h
  | beginOpen remotePort => exact (follows_beginOpen remotePort).bind fun _ => .ret _
  | finishOpen port => exact follows_flush port
  | abandonOpen port => exact follows_removeSession port
  | forgetSession port => exact follows_removeSession port
  | «open» remotePort timeout turns => exact (follows_open remotePort timeout turns).bind fun _ => .ret _
  | write port data timeout turns => exact (follows_write port data timeout turns).bind fun _ => .ret _
  | queueWrite port data =>
    exact ((follows_enqueue port data).bind fun _ => follows_pendingWrite port).bind fun _ => .ret _
  | pendingWrite port => exact (follows_pendingWrite port).bind fun _ => .ret _
  | read port room timeout turns => exact (follows_read port room timeout turns).bind fun _ => .ret _
  | takeReceived port room => exact (follows_takeReceived port room).bind fun _ => .ret _
  | receivedEof port => exact (follows_receivedEof port).bind fun _ => .ret _
  | shutdownWrite port => exact follows_shutdownWrite port
  | probeWindow port => exact (follows_probeWindow port).bind fun _ => .ret _
  | retransmitUnacknowledged port => exact (follows_retransmitUnacknowledged port).bind fun _ => .ret _
  | flush port => exact follows_flush port
  | close port => exact follows_close port
  | pump timeout => exact (follows_pump timeout).bind fun _ => .ret _
  | drainInbound turns => exact (follows_drainInbound turns).bind fun _ => .ret _
  | routeAvailable turns => exact (follows_routeAvailable turns).bind fun _ => .ret _

end Steps

/-! ### Histories -/

lemma Tally.receive_gap (packet : Bytes) (h : t.gap = true) : (t.receive packet).gap = true := by
  unfold Tally.receive
  split
  · split
    · exact h
    · split
      · exact h
      · rfl
  · exact h

/-- A gap is not forgotten. -/
lemma Tally.next_gap (effect : LinkEffect T) (h : t.gap = true) : (t.next effect).gap = true := by
  cases effect with
  | received _ packet => exact t.receive_gap packet h
  | announced _ _ => exact h
  | sent packet accepted =>
    cases accepted with
    | false => exact h
    | true =>
      change (ite _ _ _ : Tally).gap = true
      split <;> exact h
  | pulled _ _ => exact h
  | queued _ _ => exact h
  | remaining _ => exact h

lemma read_gap {quiet : Prop} {trace : List (LinkEffect T)} (h : t.gap = true) : ((tallying T quiet).read t trace).gap = true := by
  induction trace generalizing t with
  | nil => exact h
  | cons effect trace ih => exact ih (t.next_gap effect h)

section Histories

variable {T : Type} [BulkTransport T] [Clock T] {quiet : Prop} {link : MuxLink T}

namespace MuxLink

/-- All effects of a list of operations, each run whatever became of the one before. -/
def history (link : MuxLink T) : List LinkOp → List (LinkEffect T)
  | [] => []
  | op :: ops => (op.run.run link).trace ++ history (op.run.run link).state ops

/-- An operation reports a gap. -/
def ReportsGap (link : MuxLink T) : List LinkOp → Prop
  | [] => False
  | op :: ops => (∃ expected received, (op.run.run link).outcome = .error (.sequenceGap expected received))
      ∨ ReportsGap (op.run.run link).state ops

end MuxLink

lemma history_accepted (ht : t.Of link) (ops : List LinkOp)
    (hops : quiet → ∀ op ∈ ops, op.IsNegotiate = false) : (tallying T quiet).Accepts t (link.history ops)
      ∧ Tally.Of ((tallying T quiet).read t (link.history ops)) (link.after ops) := by
  induction ops generalizing t link with
  | nil => exact ⟨trivial, ht⟩
  | cons op ops ih =>
    have hop := follows_run op (fun h => hops h op List.mem_cons_self) link t ht
    obtain ⟨haccepts, hknows⟩ := ih hop.knows fun h op' hop' => hops h op' (.tail _ hop')
    rw [MuxLink.history, accepts_append, read_append]
    exact ⟨⟨hop.accepts, haccepts⟩, hknows⟩

lemma gap_of_reportsGap (ht : t.Of link) {ops : List LinkOp}
    (hops : quiet → ∀ op ∈ ops, op.IsNegotiate = false) (h : link.ReportsGap ops) :
    ((tallying T quiet).read t (link.history ops)).gap = true := by
  induction ops generalizing t link with
  | nil => cases h
  | cons op ops ih =>
    have hop := follows_run op (fun h => hops h op List.mem_cons_self) link t ht
    rw [MuxLink.history, read_append]
    obtain ⟨expected, received, ho⟩ | h := h
    · exact read_gap (hop.explains _ ho rfl)
    · exact ih hop.knows (fun h op' hop' => hops h op' (.tail _ hop')) h

end Histories

/-! ### Two links -/

section Packets

variable {T : Type}

/-- The packets that the transport accepted. -/
def sentPackets : List (LinkEffect T) → List Bytes
  | [] => []
  | .sent packet true :: trace => packet :: sentPackets trace
  | _ :: trace => sentPackets trace

/-- The packets that came off the transport while pumping. -/
def receivedPackets : List (LinkEffect T) → List Bytes
  | [] => []
  | .received _ packet :: trace => packet :: receivedPackets trace
  | _ :: trace => receivedPackets trace

/-- A packet with a number, of no version exchange. -/
def CarriesNumber (packet : Bytes) (n : ℕ) : Prop :=
  ∃ header, frameIn packet = some header ∧ header.protocol ≠ .version ∧ header.txSeq = BitVec.ofNat 16 n

lemma frameIn_protocol (h : frameIn packet = some header) :
    header.protocol = .version ↔ isVersionPacket packet = true := by
  unfold frameIn at h
  split at h
  · cases h
  · rename_i header' hdecode
    split at h
    · cases h
    · obtain rfl := Option.some.inj h
      exact decode_protocol hdecode

lemma CarriesNumber.not_version {n : ℕ} (h : CarriesNumber packet n) : isVersionPacket packet = false := by
  obtain ⟨header, hframe, hprotocol, -⟩ := h
  exact Bool.eq_false_iff.mpr fun hversion => hprotocol ((frameIn_protocol hframe).mpr hversion)

lemma Tally.receive_counts (t : Tally) (packet : Bytes) :
    (t.receive packet).version = t.version ∧ (t.receive packet).sent = t.sent := by
  unfold Tally.receive
  split
  · split
    · exact ⟨rfl, rfl⟩
    · split <;> exact ⟨rfl, rfl⟩
  · exact ⟨rfl, rfl⟩

/-- The packets of a link that does not negotiate are numbered from its count on, as long as it hears of
no version. -/
lemma sentPackets_numbered {trace : List (LinkEffect T)} (haccepts : (tallying T True).Accepts t trace) (hversion : t.version = some .v2)
    (hheard : t.heard = false) (hplain : ∀ packet ∈ receivedPackets trace, isVersionPacket packet = false)
    {i : ℕ} (hi : (sentPackets trace)[i]? = some packet) : CarriesNumber packet (t.sent + i) := by
  induction trace generalizing t i with
  | nil => cases hi
  | cons effect trace ih =>
    obtain ⟨hallows, haccepts⟩ := haccepts
    cases effect with
    | received link p =>
      obtain ⟨hv, hs⟩ := t.receive_counts p
      have := ih haccepts (hv.trans hversion) (hplain p List.mem_cons_self)
        (fun q hq => hplain q (List.mem_cons_of_mem _ hq)) hi
      rwa [show ((tallying T True).next t (.received link p)).sent = t.sent from hs] at this
    | announced link version => exact absurd (hallows trivial) (by simp [hheard])
    | sent p accepted =>
      cases accepted with
      | false => exact ih haccepts hversion hheard hplain hi
      | true =>
        have hp : ¬ isVersionPacket p = true := hallows.1 trivial
        have hnext : (tallying T True).next t (.sent p true) = { t with sent := t.sent + 1 } :=
          if_pos ⟨hversion, hp⟩
        cases i with
        | zero =>
          obtain rfl : p = packet := Option.some.inj hi
          obtain ⟨header, hframe, htx, -⟩ := hallows.2 rfl hversion hp
          exact ⟨header, hframe, fun h => hp ((frameIn_protocol hframe).mp h), htx⟩
        | succ i =>
          rw [hnext] at haccepts
          have := ih haccepts hversion hheard hplain hi
          rwa [show t.sent + (i + 1) = t.sent + 1 + i by omega]
    | pulled link segment => exact ih haccepts hversion hheard hplain hi
    | queued port data => exact ih haccepts hversion hheard hplain hi
    | remaining left => exact ih haccepts hversion hheard hplain hi

lemma Tally.receive_number (hversion : t.version = some .v2)
    (h : CarriesNumber packet t.accepted) : t.receive packet = { t with accepted := t.accepted + 1 } := by
  obtain ⟨header, hframe, hprotocol, htx⟩ := h
  unfold Tally.receive
  rw [hversion, hframe]
  dsimp only
  rw [if_neg hprotocol, if_pos htx]

/-- A link that receives the next numbers has no gap. -/
lemma read_no_gap {trace : List (LinkEffect T)} (haccepts : (tallying T True).Accepts t trace) (hversion : t.version = some .v2)
    (hheard : t.heard = false) (hnumbers : ∀ i packet, (receivedPackets trace)[i]? = some packet →
      CarriesNumber packet (t.accepted + i)) : ((tallying T True).read t trace).gap = t.gap := by
  induction trace generalizing t with
  | nil => rfl
  | cons effect trace ih =>
    obtain ⟨hallows, haccepts⟩ := haccepts
    change ((tallying T True).read ((tallying T True).next t effect) trace).gap = _
    cases effect with
    | received link p =>
      have hp : CarriesNumber p t.accepted := hnumbers 0 p rfl
      have hnext : (tallying T True).next t (.received link p) =
          { t with accepted := t.accepted + 1, heard := false } := by
        change { t.receive p with heard := isVersionPacket p } = _
        rw [t.receive_number hversion hp, hp.not_version]
      rw [hnext] at haccepts ⊢
      refine ih haccepts hversion rfl fun i packet hi => ?_
      have := hnumbers (i + 1) packet hi
      rwa [show t.accepted + (i + 1) = t.accepted + 1 + i by omega] at this
    | announced link version => exact absurd (hallows trivial) (by simp [hheard])
    | sent p accepted =>
      have hsame : ((tallying T True).next t (.sent p accepted)).version = t.version
          ∧ ((tallying T True).next t (.sent p accepted)).heard = t.heard
          ∧ ((tallying T True).next t (.sent p accepted)).accepted = t.accepted
          ∧ ((tallying T True).next t (.sent p accepted)).gap = t.gap := by
        cases accepted with
        | false => exact ⟨rfl, rfl, rfl, rfl⟩
        | true =>
          simp only [tallying, Tally.next]
          split <;> exact ⟨rfl, rfl, rfl, rfl⟩
      obtain ⟨hv, hh, ha, hg⟩ := hsame
      rw [← hg]
      refine ih haccepts (hv.trans hversion) (hh.trans hheard) fun i packet hi => ?_
      rw [ha]
      exact hnumbers i packet hi
    | pulled link segment => exact ih haccepts hversion hheard hnumbers
    | queued port data => exact ih haccepts hversion hheard hnumbers
    | remaining left => exact ih haccepts hversion hheard hnumbers

end Packets

/-- The tally of a history from the start of a link. -/
def Tally.of {T : Type} (trace : List (LinkEffect T)) : Tally :=
  trace.foldl Tally.next ⟨none, 0, 0, false, false⟩

/-- A link whose version exchange is just over. -/
def MuxLink.Exchanged {T : Type} (link : MuxLink T) : Prop :=
  link.version = some .v2 ∧ link.txSeq = 0 ∧ link.rxExpected = 0

lemma MuxLink.Exchanged.tally {link : MuxLink T} (h : link.Exchanged) :
    Tally.Of ⟨some .v2, 0, 0, false, false⟩ link := ⟨h.1, h.2.1, h.2.2⟩

/-- A link that does not negotiate sends no packet of the version exchange. -/
lemma sentPackets_plain {trace : List (LinkEffect T)} (haccepts : (tallying T True).Accepts t trace) (h : packet ∈ sentPackets trace) :
    isVersionPacket packet = false := by
  induction trace generalizing t with
  | nil => cases h
  | cons effect trace ih =>
    obtain ⟨hallows, haccepts⟩ := haccepts
    cases effect with
    | sent p accepted =>
      cases accepted with
      | false => exact ih haccepts h
      | true =>
        rcases List.mem_cons.mp h with rfl | h
        · exact Bool.eq_false_iff.mpr (hallows.1 trivial)
        · exact ih haccepts h
    | received _ _ => exact ih haccepts h
    | announced _ _ => exact ih haccepts h
    | pulled _ _ => exact ih haccepts h
    | queued _ _ => exact ih haccepts h
    | remaining _ => exact ih haccepts h

section Links

variable {T U : Type} [BulkTransport T] [Clock T] [BulkTransport U] [Clock U]

/-- Packets that come in order from a link that does not negotiate make no gap. -/
lemma no_gap {a : MuxLink T} {b : MuxLink U} {opsA opsB : List LinkOp} (ha : a.Exchanged)
    (hb : b.Exchanged) (hA : ∀ op ∈ opsA, op.IsNegotiate = false) (hB : ∀ op ∈ opsB, op.IsNegotiate = false)
    (hba : receivedPackets (b.history opsB) <+: sentPackets (a.history opsA))
    (hab : receivedPackets (a.history opsA) <+: sentPackets (b.history opsB)) : ¬ b.ReportsGap opsB := by
  have hacceptsA : (tallying T True).Accepts _ (a.history opsA) :=
    (history_accepted ha.tally opsA fun _ => hA).1
  have hacceptsB : (tallying U True).Accepts _ (b.history opsB) :=
    (history_accepted hb.tally opsB fun _ => hB).1
  intro hgap
  have hread := gap_of_reportsGap hb.tally (fun _ : True => hB) hgap
  have hnumbers : ∀ i packet, (receivedPackets (b.history opsB))[i]? = some packet →
      CarriesNumber packet (0 + i) := by
    intro i packet hi
    obtain ⟨rest, hrest⟩ := hba
    have hsent : (sentPackets (a.history opsA))[i]? = some packet := by
      rw [← hrest, List.getElem?_append_left (List.getElem?_eq_some_iff.mp hi).1, hi]
    refine sentPackets_numbered hacceptsA rfl rfl (fun p hp => ?_) hsent
    exact sentPackets_plain hacceptsB (hab.subset hp)
  rw [read_no_gap hacceptsB rfl rfl hnumbers] at hread
  cases hread

end Links

/-- In every history of a link the counters are the tally, and a sequenced packet that the transport
accepts carries them: its number among those sent since the last version exchange, and one less than
the packets taken since then.  A packet that the transport fails to send is not counted.

Two links that have just exchanged versions, of which none negotiates again, report no gap as long as
each receives what the other has sent, in order. -/
theorem sequence_discipline {T U : Type} [BulkTransport T] [Clock T] [BulkTransport U] [Clock U] :
    (∀ (transport : T) (seed : BitVec 32) (ops : List LinkOp),
      (Tally.of ((MuxLink.new transport seed).history ops)).Of ((MuxLink.new transport seed).after ops) ∧
      ∀ earlier packet later, (MuxLink.new transport seed).history ops = earlier ++ .sent packet true :: later →
        (Tally.of earlier).version = some .v2 → ¬ isVersionPacket packet → (Tally.of earlier).Numbers packet) ∧
    ∀ (a : MuxLink T) (b : MuxLink U) (opsA opsB : List LinkOp), a.Exchanged → b.Exchanged →
      (∀ op ∈ opsA, op.IsNegotiate = false) → (∀ op ∈ opsB, op.IsNegotiate = false) →
      receivedPackets (b.history opsB) <+: sentPackets (a.history opsA) →
      receivedPackets (a.history opsA) <+: sentPackets (b.history opsB) →
      ¬ a.ReportsGap opsA ∧ ¬ b.ReportsGap opsB := by
  constructor
  · intro transport seed ops
    have hstart : Tally.Of ⟨none, 0, 0, false, false⟩ (MuxLink.new transport seed) := ⟨rfl, rfl, rfl⟩
    obtain ⟨haccepts, hof⟩ := history_accepted hstart ops fun h : False => h.elim
    refine ⟨hof, fun earlier packet later hhistory hversion hplain => ?_⟩
    rw [hhistory, accepts_append] at haccepts
    exact haccepts.2.1.2 rfl hversion hplain
  · intro a b opsA opsB ha hb hA hB hba hab
    exact ⟨no_gap hb ha hB hA hab hba, no_gap ha hb hA hB hba hab⟩

/-- A link over a script, just after its version exchange. -/
def scripted (inbox : List Bytes) (ticks : List ℕ) : MuxLink Script :=
  { MuxLink.new ⟨inbox, MAX_PACKET, ticks⟩ 0 with version := some .v2 }

/-- What a link sends when it opens two ports. -/
def twoOpens : List Bytes := sentPackets ((scripted [] []).history [.beginOpen 1, .beginOpen 1])

/-- The other link takes both packets. -/
theorem sequence_discipline_pumps :
    twoOpens.length = 2 ∧ receivedPackets ((scripted twoOpens []).history [.pump 0, .pump 0]) = twoOpens ∧
      ¬ (scripted twoOpens []).ReportsGap [.pump 0, .pump 0] := by
  have hreceived : receivedPackets ((scripted twoOpens []).history [.pump 0, .pump 0]) = twoOpens := by
    decide +kernel
  have hsent : receivedPackets ((scripted [] []).history [.beginOpen 1, .beginOpen 1]) = [] := by
    decide +kernel
  refine ⟨by decide +kernel, hreceived, ?_⟩
  refine (sequence_discipline.2 (scripted [] []) (scripted twoOpens []) [.beginOpen 1, .beginOpen 1]
    [.pump 0, .pump 0] ⟨rfl, rfl, rfl⟩ ⟨rfl, rfl, rfl⟩ (by decide) (by decide) ?_ ?_).2
  · rw [hreceived]
    exact List.prefix_rfl
  · rw [hsent]
    exact List.nil_prefix

/-- A link that negotiates once more passes over the first of the packets while it waits, gets no answer
in time, and then finds a gap before the second. -/
theorem gap_after_negotiation :
    (scripted twoOpens [0, 0, 5]).Exchanged ∧ (scripted twoOpens [0, 0, 5]).transport.inbox = twoOpens ∧
      (scripted twoOpens [0, 0, 5]).ReportsGap [.negotiate (.exact .v2) 1 5, .pump 0] := by
  refine ⟨⟨rfl, rfl, rfl⟩, rfl, .inr (.inl ⟨0, 1, ?_⟩)⟩
  decide +kernel

end AppleUtils.Usbmux
