import AppleUtils.Usbmux.LinkRules

/-! # Sessions that share a link

One pump serves every stream of a link.  A packet that a session refuses is an error of whoever
pumped it, also when that was another session's stream: `session_isolation` says exactly when an
operation on behalf of one session fails with another session's error, and that nothing else of
the packet reaches the first session. -/

namespace AppleUtils.Usbmux

open Proc Contract LinkM

variable {T : Type} {version : MuxVersion}

/-- The segment a packet holds for the link: framed, in sequence, and of the right protocol. -/
def MuxLink.segmentIn (link : MuxLink T) (packet : Bytes) : Option (TcpHeader × Bytes) :=
  match link.version with
  | none => none
  | some version =>
    match MuxHeader.decode version packet with
    | .error _ => none
    | .ok header =>
      match header.payload version packet with
      | .error _ => none
      | .ok payload =>
        if header.protocol ≠ .tcp ∨ version.isSequenced ∧ header.txSeq ≠ link.rxExpected then none
        else
          match TcpHeader.decode payload with
          | .error _ => none
          | .ok tcp => some (tcp, payload.drop TCP_HEADER_LEN)

/-- The session of `port` is in the table and refuses the segment. -/
def MuxLink.RefusesAt (link : MuxLink T) (port : BitVec 16) (tcp : TcpHeader) : Prop :=
  tcp.destinationPort = port ∧ ∃ session, link.sessions port = some session ∧ session.Refuses tcp

/-- A packet arrived whose segment the session of `port` refuses. -/
def RefusedFor (port : BitVec 16) : LinkEffect T → Prop
  | .received link packet =>
    ∃ tcp body, link.segmentIn packet = some (tcp, body) ∧ link.RefusesAt port tcp
  | _ => False

/-- `MuxError::Session` of the given port. -/
def MuxError.IsSession (port : BitVec 16) : MuxError → Prop
  | .session p _ => p = port
  | _ => False

/-- What flushing does: it pulls and sends, and fails with no session's error. -/
def flushing : Contract (MuxLink T) MuxError (LinkEffect T) :=
  .effects
    (fun
      | .pulled _ _ | .sent _ _ => True
      | _ => False)
    MuxError.OfSending

/-- Handling a packet receives no other. -/
def handling : Contract (MuxLink T) MuxError (LinkEffect T) :=
  .effects
    (fun
      | .received _ _ => False
      | _ => True)
    fun _ => True

section

variable [BulkTransport T] {e : MuxError}

lemma flushing_flushes (port : BitVec 16) :
    Flushes (flushing : Contract (MuxLink T) MuxError (LinkEffect T)) port :=
  Flushes.of_effects (fun _ _ => trivial) (fun _ _ => trivial) (fun _ h => h) port

/-- No session's error comes out of flushing. -/
lemma MuxError.OfSending.not_isSession (h : e.OfSending) (port : BitVec 16) : ¬ e.IsSession port := by
  cases e <;> simp_all [MuxError.OfSending, MuxError.IsSession]

lemma handling_flushes (port : BitVec 16) :
    Flushes (handling : Contract (MuxLink T) MuxError (LinkEffect T)) port :=
  Flushes.of_effects (fun _ _ => trivial) (fun _ _ => trivial) (fun _ _ => trivial) port

omit [BulkTransport T] in
lemma handling_dispatches : Dispatches (handling : Contract (MuxLink T) MuxError (LinkEffect T)) where
  counted := effects_modify _
  rejected := effects_modify _
  sequenced := effects_modify _
  restart _ := (Keeps.record fun _ _ _ => trivial).bind fun _ => effects_modify _
  fails _ := trivial

/-! ### The pump -/

lemma MuxSession.onSegment_error_iff (s : MuxSession) (header : TcpHeader) (payload : Bytes) :
    (∃ e, (s.onSegment header payload).1 = .error e) ↔ s.Refuses header := by
  rcases s.onSegment_cases header payload with
    ⟨hr, event, _, e⟩ | ⟨hr, err, e⟩ | ⟨hr, _, _, _, e⟩ | ⟨hr, _, e⟩ <;> simp [e, hr]

lemma settle_not_isSession {p : BitVec 16} {event : SessionEvent} {link : MuxLink T}
    (h : ((settle p event).run link).outcome = .error e) (port : BitVec 16) : ¬ e.IsSession port :=
  ((effects_keeps_iff.mp ((flushing_flushes p).settle event) link).2 e h).not_isSession port

/-- Delivering a segment fails with a session's error when that session refuses it. -/
lemma deliver_isSession (port : BitVec 16) (tcp : TcpHeader) (body : Bytes) (link : MuxLink T) :
    (∃ e, ((deliver tcp body).run link).outcome = .error e ∧ e.IsSession port) ↔ link.RefusesAt port tcp := by
  unfold deliver MuxLink.RefusesAt
  rw [bind_silent get_run]
  cases hs : link.sessions tcp.destinationPort with
  | none =>
    simp only [pure_run, reduceCtorEq, false_and, exists_false, false_iff]
    rintro ⟨rfl, session, h, _⟩
    rw [hs] at h
    cases h
  | some session =>
    unfold setSession
    rw [bind_silent (modify_run _)]
    have hport : (tcp.destinationPort = port ∧ ∃ s, link.sessions port = some s ∧
        s.Refuses tcp) ↔ tcp.destinationPort = port ∧ session.Refuses tcp := by
      constructor
      · rintro ⟨rfl, s, h, hr⟩
        rw [hs] at h
        exact ⟨rfl, Option.some.inj h ▸ hr⟩
      · rintro ⟨rfl, hr⟩
        exact ⟨rfl, session, hs, hr⟩
    rw [hport]
    cases happlied : (session.onSegment tcp body).1 with
    | error error =>
      have hr : session.Refuses tcp := (session.onSegment_error_iff tcp body).mp ⟨error, happlied⟩
      simp [MuxError.IsSession, hr]
    | ok event =>
      have hr : ¬ session.Refuses tcp := by
        rw [← session.onSegment_error_iff tcp body, happlied]
        rintro ⟨error, h⟩
        cases h
      simp only [hr, and_false, iff_false]
      rintro ⟨e, ho, he⟩
      exact settle_not_isSession ho port he

end

lemma acceptSequence_run (version : MuxVersion) (header : MuxHeader) (link : MuxLink T) :
    (acceptSequence version header).run link = if version.isSequenced then if header.txSeq ≠ link.rxExpected then
          ⟨.error (.sequenceGap link.rxExpected header.txSeq), link, []⟩
        else ⟨.ok (), { link with rxExpected := link.rxExpected + 1 }, []⟩
        else ⟨.ok (), link, []⟩ := by
  unfold acceptSequence
  rw [bind_silent get_run]
  split
  · split <;> rfl
  · rfl

lemma restartFraming_run (version : MuxVersion) (link : MuxLink T) : (restartFraming version).run link =
    ⟨.ok (), { link with version := some version, txSeq := 0, rxExpected := 0 }, [.announced link version]⟩ := rfl

/-- A packet that does not frame is never an error. -/
lemma rejectPacket_ne_error (error : FrameError) (packet : Bytes) (link : MuxLink T)
    (e : MuxError) : ((rejectPacket error packet).run link).outcome ≠ .error e := nofun

/-- The segment in a packet, part by part. -/
lemma MuxLink.exists_segmentIn (link : MuxLink T)
    (hv : link.version = some version) (packet : Bytes) (P : TcpHeader → Prop) :
    (∃ tcp body, link.segmentIn packet = some (tcp, body) ∧ P tcp) ↔
      ∃ header payload, MuxHeader.decode version packet = .ok header ∧ header.payload version packet = .ok payload ∧
        ¬ (header.protocol ≠ .tcp ∨ version.isSequenced ∧ header.txSeq ≠ link.rxExpected) ∧
        ∃ tcp, TcpHeader.decode payload = .ok tcp ∧ P tcp := by
  unfold MuxLink.segmentIn
  simp only [hv]
  cases hd : MuxHeader.decode version packet with
  | error e => simp
  | ok header =>
    cases hp : header.payload version packet with
    | error e => simp [hp]
    | ok payload =>
      simp only [hp, Except.ok.injEq, exists_eq_left', exists_and_left]
      split
      · rename_i hbad
        simp [hbad]
      · rename_i hgood
        cases TcpHeader.decode payload with
        | error e => simp
        | ok tcp => simp [hgood]

variable [BulkTransport T]

/-- A framed packet fails with a session's error when it is a segment, in sequence, that the
session refuses. -/
lemma dispatch_isSession (port : BitVec 16) (version : MuxVersion) (packet : Bytes)
    (header : MuxHeader) (payload : Bytes) (link : MuxLink T) :
    (∃ e, ((dispatch version packet header payload).run link).outcome = .error e ∧ e.IsSession port) ↔
      ¬ (header.protocol ≠ .tcp ∨ version.isSequenced ∧ header.txSeq ≠ link.rxExpected) ∧
        ∃ tcp, TcpHeader.decode payload = .ok tcp ∧ link.RefusesAt port tcp := by
  unfold dispatch
  split
  · rename_i hversion
    cases VersionPacket.decode packet with
    | error e => simp [MuxError.IsSession, hversion]
    | ok reply =>
      rw [bind_ok (congrArg Result.outcome (restartFraming_run _ link))]
      simp [Result.after, hversion]
  · have hacc := acceptSequence_run version header link
    by_cases hgap : version.isSequenced ∧ header.txSeq ≠ link.rxExpected
    · rw [if_pos hgap.1, if_pos hgap.2] at hacc
      rw [bind_error (congrArg Result.outcome hacc)]
      simp [MuxError.IsSession, hgap.1, hgap.2]
    · obtain ⟨link', hsame, hrun⟩ : ∃ link' : MuxLink T, link'.sessions = link.sessions ∧
          (acceptSequence version header).run link = ⟨.ok (), link', []⟩ := by
        cases hseq : version.isSequenced with
        | false => exact ⟨link, rfl, by rw [hacc, hseq]; rfl⟩
        | true =>
          refine ⟨{ link with rxExpected := link.rxExpected + 1 }, rfl, ?_⟩
          rw [hacc, if_pos hseq, if_neg fun h => hgap ⟨hseq, h⟩]
      rw [bind_silent hrun]
      split
      · rename_i hcontrol
        simp [hcontrol]
      · split
        · rename_i hother
          simp [hother]
        · rename_i htcp
          rw [not_or, not_not]
          simp only [ne_eq, not_not] at htcp
          simp only [htcp, true_and, hgap, not_false_eq_true]
          cases hd : TcpHeader.decode payload with
          | error e => simp [MuxError.IsSession]
          | ok tcp =>
            have h := deliver_isSession port tcp (payload.drop TCP_HEADER_LEN) link'
            simp only [MuxLink.RefusesAt, hsame] at h ⊢
            simpa using h

/-- Handling a packet fails with a session's error when the packet has a segment that the
session refuses. -/
lemma routePacket_isSession (port : BitVec 16) (packet : Bytes)
    (link : MuxLink T) (hv : link.version = some version) :
    (∃ e, ((routePacket version packet).run link).outcome = .error e ∧ e.IsSession port) ↔
      RefusedFor port (.received link packet) := by
  refine Iff.trans ?_ (link.exists_segmentIn hv packet _).symm
  unfold routePacket
  rw [bind_silent (modify_run _)]
  cases hd : MuxHeader.decode version packet with
  | error e => simp [rejectPacket_ne_error]
  | ok header =>
    cases hp : header.payload version packet with
    | error e => simp [hp, rejectPacket_ne_error]
    | ok payload =>
      simp only [hp]
      rw [dispatch_isSession]
      simp [hp, MuxLink.RefusesAt]

/-- A pump either ends before a packet arrives, or handles the one that arrived. -/
lemma LinkM.pump_cases (timeout : ℕ) (link : MuxLink T) :
    (∃ outcome transport, (pump timeout).run link = ⟨outcome, { link with transport }, []⟩ ∧
      ∀ e port, outcome = .error e → ¬ e.IsSession port) ∨
    ∃ version packet transport, link.version = some version ∧ (pump timeout).run link =
        ((routePacket version packet).run { link with transport }).after
          [.received { link with transport } packet] := by
  unfold pump
  have hrun := requireVersion_run link
  rcases Option.eq_none_or_eq_some link.version with hv | ⟨version, hv⟩ <;> simp only [hv] at hrun
  · refine .inl ⟨.error .notNegotiated, link.transport, ?_, ?_⟩
    · rw [bind_error (congrArg Result.outcome hrun), hrun]
    · rintro e port ⟨⟩
      exact id
  · rw [bind_silent hrun]
    have hrecv : (transportRecv timeout).run link = ⟨.ofExcept .io (BulkTransport.recv link.transport timeout).1,
          { link with transport := (BulkTransport.recv link.transport timeout).2 }, []⟩ := rfl
    cases hr : (BulkTransport.recv link.transport timeout).1 with
    | error e =>
      rw [hr] at hrecv
      refine .inl ⟨.error (.io e), (BulkTransport.recv link.transport timeout).2, ?_, ?_⟩
      · rw [bind_error (congrArg Result.outcome hrecv), hrecv]
      · rintro e port ⟨⟩
        exact id
    | ok received =>
      rw [hr] at hrecv
      rw [bind_silent hrecv]
      cases received with
      | none => exact .inl ⟨.ok .idle, _, rfl, nofun⟩
      | some packet =>
        refine .inr ⟨version, packet, (BulkTransport.recv link.transport timeout).2, hv, ?_⟩
        exact bind_ok (congrArg Result.outcome (record_run _))

/-- The only packet of a pump is the one it handles. -/
lemma routePacket_not_received {packet : Bytes} {link : MuxLink T}
    {t : LinkEffect T} (ht : t ∈ ((routePacket version packet).run link).trace) :
    ∀ link' packet', t ≠ .received link' packet' := by
  have hgives := (effects_keeps_iff.mp (handling_dispatches.routePacket
    version packet fun _ _ _ _ _ _ => handling_flushes _) link).1 t ht
  rintro link' packet' rfl
  exact hgives

lemma pump_blames (port : BitVec 16) (timeout : ℕ) :
    Blames (RefusedFor port) (MuxError.IsSession port) (pump timeout : LinkM T LinkEvent) := by
  intro link
  rcases pump_cases timeout link with ⟨outcome, transport, e, hno⟩ | ⟨version, packet, transport, hv, e⟩
  · rw [e]
    constructor
    · rintro ⟨t, ht, _⟩
      cases ht
    · rintro ⟨error, ho, hb⟩
      exact absurd hb (hno error port ho)
  · rw [e]
    refine Iff.trans ?_ (routePacket_isSession port packet { link with transport } hv).symm
    constructor
    · rintro ⟨t, ht, hbad⟩
      rcases List.mem_append.mp ht with ht | ht
      · rwa [List.mem_singleton.mp ht] at hbad
      · cases t with
        | received link' packet' => exact absurd rfl (routePacket_not_received ht link' packet')
        | _ => exact absurd hbad id
    · intro h
      exact ⟨_, List.mem_append_left _ (List.mem_singleton_self _), h⟩

/-! ### Operations on behalf of a session -/

/-- The operations a stream of `port` performs, beside opening and closing. -/
def LinkOp.OnBehalfOf (port : BitVec 16) : LinkOp → Prop
  | .read p _ _ _ | .write p _ _ _ | .queueWrite p _ | .pendingWrite p | .takeReceived p _ => p = port
  | .drainInbound _ | .routeAvailable _ => True
  | _ => False

section

variable (port : BitVec 16)

/-- The pump's errors for `port` come from packets the session of `port` refused. -/
abbrev BlamesRefused {α : Type} (x : LinkM T α) : Prop :=
  Blames (RefusedFor port) (MuxError.IsSession port) x

lemma flush_blames (p : BitVec 16) : BlamesRefused port (flush p : LinkM T Unit) := by
  refine Blames.of_effects (flushing_flushes p).flush ?_ fun e h => h.not_isSession port
  intro t ht
  cases t with
  | received _ _ => exact absurd ht id
  | _ => exact id

omit [BulkTransport T] in
lemma requireSession_blames (p : BitVec 16) : BlamesRefused port (requireSession p : LinkM T MuxSession) := by
  refine Blames.of_silent ?_ ?_ <;> intro link
  · rw [requireSession_run]
  · rw [requireSession_run]
    cases link.sessions p with
    | none => rintro e ⟨⟩ ⟨⟩
    | some session => rintro e ⟨⟩

lemma takeReceived_blames (p : BitVec 16) (room : ℕ) :
    BlamesRefused port (takeReceived p room : LinkM T Bytes) := by
  unfold takeReceived
  split
  · exact Blames.ret _
  · apply (requireSession_blames port p).bind
    intro session
    apply (Blames.modify _).bind
    intro _
    split
    · exact Blames.ret _
    · apply (Blames.modify _).bind
      intro _
      exact (flush_blames port p).bind fun _ => Blames.ret _

lemma pendingWrite_blames (p : BitVec 16) : BlamesRefused port (pendingWrite p : LinkM T ℕ) := by
  apply (flush_blames port p).bind
  intro _
  apply (requireSession_blames port p).bind
  intro session
  split
  · exact Blames.throw id
  · exact Blames.ret _

omit [BulkTransport T] in
lemma enqueue_blames (p : BitVec 16) (data : Bytes) : BlamesRefused port (enqueue p data : LinkM T Unit) := by
  apply (requireSession_blames port p).bind
  intro session
  split
  · exact Blames.throw id
  · exact (Blames.modify _).bind fun _ => Blames.record fun _ => id

lemma drainInbound_blames (turns : ℕ) : BlamesRefused port (drainInbound turns : LinkM T ℕ) := by
  apply Blames.loop
  intro routed
  apply (pump_blames port 0).bind
  intro event
  split <;> exact Blames.ret _

/-- The flag set around draining shows neither in the effects nor in the outcome. -/
lemma routeAvailable_blames (turns : ℕ) : BlamesRefused port (routeAvailable turns : LinkM T ℕ) :=
  fun link => drainInbound_blames port turns { link with inFlush := true }

omit [BulkTransport T] in
lemma receivedEof_blames (p : BitVec 16) : BlamesRefused port (receivedEof p : LinkM T Bool) := by
  apply (requireSession_blames port p).bind
  intro session
  split
  · exact Blames.throw id
  · exact Blames.ret _

variable [Clock T]

omit [BulkTransport T] in
lemma now_blames : BlamesRefused port (now : LinkM T ℕ) :=
  Blames.of_silent (fun _ => rfl) (fun _ _ h => by cases h)

omit [BulkTransport T] in
lemma remainingUntil_blames (deadline : ℕ) : BlamesRefused port (remainingUntil deadline : LinkM T ℕ) :=
  (now_blames port).bind fun _ => (Blames.record fun _ => id).bind fun _ => Blames.ret _

lemma write_blames (p : BitVec 16) (data : Bytes) (timeout turns : ℕ) :
    BlamesRefused port (write p data timeout turns : LinkM T ℕ) := by
  apply (enqueue_blames port p data).bind
  intro _
  apply ((now_blames port).bind fun _ => Blames.ret _).bind
  intro deadline
  apply Blames.loop
  intro _
  apply (requireSession_blames port p).bind
  intro before
  apply (flush_blames port p).bind
  intro _
  apply (requireSession_blames port p).bind
  intro session
  split
  · exact Blames.throw id
  · split
    · exact Blames.ret _
    · apply (remainingUntil_blames port deadline).bind
      intro remaining
      split
      · exact Blames.ret _
      · split
        · exact (drainInbound_blames port turns).bind fun _ => Blames.ret _
        · exact (pump_blames port remaining).bind fun _ => Blames.ret _

lemma read_blames (p : BitVec 16) (room timeout turns : ℕ) :
    BlamesRefused port (LinkM.read p room timeout turns : LinkM T Bytes) := by
  unfold LinkM.read
  split
  · exact Blames.ret _
  · apply ((now_blames port).bind fun _ => Blames.ret _).bind
    intro deadline
    apply Blames.loop
    intro _
    apply (takeReceived_blames port p room).bind
    intro taken
    split
    · exact Blames.ret _
    · apply (receivedEof_blames port p).bind
      intro eof
      split
      · exact Blames.ret _
      · apply (remainingUntil_blames port deadline).bind
        intro remaining
        split
        · exact Blames.ret _
        · exact (pump_blames port remaining).bind fun _ => Blames.ret _

lemma onBehalfOf_blames {p : BitVec 16} {op : LinkOp} (hop : op.OnBehalfOf p) :
    BlamesRefused port (op.run : LinkM T Unit) := by
  cases op with
  | read q room timeout turns =>
    exact (read_blames port q room timeout turns).bind fun _ => Blames.ret _
  | write q data timeout turns =>
    exact (write_blames port q data timeout turns).bind fun _ => Blames.ret _
  | queueWrite q data =>
    exact ((enqueue_blames port q data).bind fun _ => pendingWrite_blames port q).bind
      fun _ => Blames.ret _
  | pendingWrite q => exact (pendingWrite_blames port q).bind fun _ => Blames.ret _
  | takeReceived q room => exact (takeReceived_blames port q room).bind fun _ => Blames.ret _
  | drainInbound turns => exact (drainInbound_blames port turns).bind fun _ => Blames.ret _
  | routeAvailable turns => exact (routeAvailable_blames port turns).bind fun _ => Blames.ret _
  | _ => exact absurd hop id

end

/-! ### The other sessions' state -/

/-- The session of `port` stays what it is. -/
def unchangedAt (port : BitVec 16) (session : Option MuxSession) :
    Contract (MuxLink T) MuxError (LinkEffect T) where
  inv link := link.sessions port = session
  relies _ := True
  gives _ := True
  fails _ := True

section

variable {port p : BitVec 16} {session : Option MuxSession}

lemma unchangedAt_flushes (hne : p ≠ port) :
    Flushes (unchangedAt port session : Contract (MuxLink T) MuxError (LinkEffect T)) p where
  put _ := by
    refine Triple.modify ?_ ?_
    · intro link hi _
      simpa [unchangedAt, MuxLink.putSession, Ne.symm hne] using hi
    · intro link _ _
      simp [MuxLink.putSession]
  pulled _ := Triple.record fun _ _ h _ => ⟨trivial, h⟩
  send _ := by
    refine Keeps.under (sendPacket_keeps ?_ ?_ (fun _ _ => trivial) _ _) _
    · intro packet link hi _ _
      exact ⟨hi, fun _ _ => trivial, fun _ _ => trivial, fun _ _ => trivial⟩
    · exact Keeps.modify fun _ hi => hi

omit [BulkTransport T] in
lemma unchangedAt_dispatches :
    Dispatches (unchangedAt port session : Contract (MuxLink T) MuxError (LinkEffect T)) where
  counted := Keeps.modify fun _ hi => hi
  rejected := Keeps.modify fun _ hi => hi
  sequenced := Keeps.modify fun _ hi => hi
  restart _ := (Keeps.record fun _ _ _ => trivial).bind fun _ =>
    Keeps.modify fun _ hi => hi
  fails _ := trivial

/-- A packet for one session leaves every other session as it is. -/
lemma pump_unchanged {timeout : ℕ} {link link' : MuxLink T} {packet body : Bytes}
    {tcp : TcpHeader} (hmem : .received link' packet ∈ ((pump timeout).run link).trace)
    (hseg : link'.segmentIn packet = some (tcp, body)) (hne : tcp.destinationPort ≠ port) :
    ((pump timeout).run link).state.sessions port = link.sessions port := by
  rcases pump_cases timeout link with ⟨_, _, e, _⟩ | ⟨version, packet', transport, hv, e⟩
  · rw [e]
  · rw [e] at hmem ⊢
    rcases List.mem_append.mp hmem with hmem | hmem
    · obtain ⟨rfl, rfl⟩ := LinkEffect.received.inj (List.mem_singleton.mp hmem)
      have hkeeps : (unchangedAt port (link.sessions port)).Keeps
          (routePacket version packet : LinkM T LinkEvent) := by
        apply unchangedAt_dispatches.routePacket
        intro header payload tcp' hd hp htcp
        apply unchangedAt_flushes
        obtain ⟨header', payload', hd', hp', _, tcp'', htcp', heq⟩ :=
          (MuxLink.exists_segmentIn { link with transport } hv packet (· = tcp)).mp
            ⟨tcp, body, hseg, rfl⟩
        rw [hd] at hd'
        cases hd'
        rw [hp] at hp'
        cases hp'
        rw [htcp] at htcp'
        cases htcp'
        rw [heq]
        exact hne
      exact (hkeeps { link with transport } rfl trivial fun _ _ => trivial).inv
    · exact absurd rfl (routePacket_not_received hmem link' packet)

end

/-- **Isolation of the sessions of a link.**  An operation on behalf of `A` fails with an error of
the session of `B` exactly when a packet arrives meanwhile whose segment the session of `B`
refuses; and a packet for `B` leaves the session of `A` as it was. -/
theorem session_isolation [Clock T] {A B : BitVec 16} (hAB : A ≠ B) (link : MuxLink T) :
    (∀ op : LinkOp, op.OnBehalfOf A →
      ((∀ error, (op.run.run link).outcome ≠ .error (.session B error)) ↔
        ∀ t ∈ (op.run.run link).trace, ¬ RefusedFor B t)) ∧
    ∀ timeout link' packet tcp body,
      .received link' packet ∈ ((pump timeout).run link).trace →
      link'.segmentIn packet = some (tcp, body) → tcp.destinationPort = B →
      ((pump timeout).run link).state.sessions A = link.sessions A := by
  constructor
  · intro op hop
    have hblames := onBehalfOf_blames (T := T) B hop link
    constructor
    · intro hok t ht hbad
      obtain ⟨e, ho, he⟩ := hblames.mp ⟨t, ht, hbad⟩
      cases e with
      | session p error =>
        obtain rfl : p = B := he
        exact hok error ho
      | _ => exact absurd he id
    · intro hgood error ho
      obtain ⟨t, ht, hbad⟩ := hblames.mpr ⟨_, ho, rfl⟩
      exact hgood t ht hbad
  · rintro timeout link' packet tcp body hmem hseg rfl
    exact pump_unchanged hmem hseg (Ne.symm hAB)

/-! Two sessions on one link; the device resets the second one, which stays in the table, and then
sends it one more segment. -/

/-- A segment of the device to a local port. -/
def deviceSegment (port : BitVec 16) (sequence acknowledgement : BitVec 32) (f : Byte) : Segment :=
  ⟨⟨62078, port, sequence, acknowledgement, f, 65536⟩, []⟩

def sharedScript : Script where
  inbox := [(VersionPacket.mk 1 0).encode, (deviceSegment 49152 7 0xfc6ef360 flags.SYN_ACK).fromDevice,
    (deviceSegment 49153 9 0x87512933 flags.SYN_ACK).fromDevice,
    (deviceSegment 49153 10 0 flags.RST).fromDevice, (deviceSegment 49153 10 0x87512933 flags.ACK).fromDevice]
  room := MAX_PACKET
  ticks := []

/-- The link once both sessions are open and the second one was reset. -/
def sharedLink : MuxLink Script :=
  (MuxLink.new sharedScript 0).after
    [.negotiate .resync 10 1, .beginOpen 62078, .beginOpen 62078, .pump 0, .pump 0, .pump 0]

/-- The first session's read fails because the second session refused a packet. -/
theorem sharedLink_read_fails : (sharedLink.sessions 49152).map MuxSession.state = some .established ∧
    (sharedLink.sessions 49153).map MuxSession.state = some .closed ∧
    ((LinkM.read 49152 1 10 3).run sharedLink).outcome = .error (.session 49153 .closed) := by decide

/-- The link before the reset, which is the last packet here. -/
def openLink : MuxLink Script :=
  (MuxLink.new { sharedScript with inbox := sharedScript.inbox.take 4 } 0).after
    [.negotiate .resync 10 1, .beginOpen 62078, .beginOpen 62078, .pump 0, .pump 0]

/-- The reset is not refused, so draining the link on behalf of the first session succeeds, and
the first session stays as it is. -/
theorem openLink_isolated : (∀ t ∈ ((LinkOp.drainInbound 2).run.run openLink).trace, ¬ RefusedFor 49153 t) ∧
    ((pump 0).run openLink).state.sessions 49152 = openLink.sessions 49152 := by
  have h := session_isolation (A := 49152) (B := 49153) (by decide) openLink
  have hok : ((LinkOp.drainInbound 2).run.run openLink).outcome = .ok () := by decide
  constructor
  · refine (h.1 (.drainInbound 2) trivial).mp ?_
    intro error
    rw [hok]
    nofun
  · refine h.2 0 { openLink with transport := { openLink.transport with inbox := [] } }
      (deviceSegment 49153 10 0 flags.RST).fromDevice
      (deviceSegment 49153 10 0 flags.RST).header [] ?_ ?_ rfl
    · exact List.Mem.head _
    · decide

end AppleUtils.Usbmux
