import AppleUtils.Usbmux.LinkRules

/-! # Packets fit the transport

A session's segment size is fixed when it opens, from the header of the link's version at that
time; the version can change later, when the device restarts its framing.  `no_segment_too_large`
says that as long as every version announced leaves room for the segments of the sessions open at
that moment, no segment that a session gives up is refused for its size.  A session opened in
version one does not fit version two: `lateVersion_too_large` runs into that. -/

namespace AppleUtils.Usbmux

open Proc BulkTransport Contract MuxLink

/-- The transport's largest packet does not change while it is used. -/
class SteadyTransport (T : Type) [BulkTransport T] [Clock T] : Prop where
  send (t : T) (packet : Bytes) :
    maxPacket (send t packet).2 = maxPacket t
  recv (t : T) (timeout : ℕ) :
    maxPacket (recv t timeout).2 = maxPacket t
  now (t : T) : maxPacket (Clock.now t).2 = maxPacket t

variable {T : Type} [BulkTransport T]

/-- A segment of `n` bytes in a packet of the given version is within the limit. -/
def MuxLink.Fits (link : MuxLink T) (version : MuxVersion) (n : ℕ) : Prop :=
  version.headerLen + TCP_HEADER_LEN + n ≤ link.packetLimit

/-- Every open session's segments fit packets of the given version. -/
def MuxLink.LeavesRoom (link : MuxLink T) (version : MuxVersion) : Prop :=
  ∀ port session, link.sessions port = some session → link.Fits version session.config.mss

/-- The versions announced leave room, the segments pulled fit, and no packet is too large. -/
def sized : Contract (MuxLink T) MuxError (LinkEffect T) where
  inv link := HEADER_LEN_V2 + TCP_HEADER_LEN < maxPacket link.transport ∧
    ∀ port session, link.sessions port = some session →
      ∃ version, link.version = some version ∧ link.Fits version session.config.mss
  relies
    | .announced link version => link.LeavesRoom version
    | _ => True
  gives
    | .pulled link segment => ∃ version, link.version = some version ∧
        link.Fits version segment.payload.length
    | _ => True
  fails := MuxError.NotTooLarge

namespace Sized

variable {link link' : MuxLink T}

section

variable (hi : sized.inv link) {port : BitVec 16}

include hi

/-- The invariant looks at the sessions, the version and the transport's limit only. -/
lemma congr (hsessions : link'.sessions = link.sessions)
    (hversion : link'.version = link.version) (hmax : maxPacket link'.transport = maxPacket link.transport) :
    sized.inv link' := by
  obtain ⟨hroom, hfits⟩ := hi
  refine ⟨hmax ▸ hroom, ?_⟩
  intro port session hs
  rw [hsessions] at hs
  obtain ⟨version, hv, hfit⟩ := hfits port session hs
  refine ⟨version, hversion.trans hv, ?_⟩
  unfold MuxLink.Fits packetLimit at hfit ⊢
  rw [hmax]
  exact hfit

lemma put {s s' : MuxSession}
    (hs : link.sessions port = some s) (hconfig : s'.config = s.config) : sized.inv (link.putSession port s') := by
  refine ⟨hi.1, ?_⟩
  intro p session hp
  by_cases heq : p = port
  · simp only [putSession, if_pos heq, Option.some.injEq] at hp
    rw [← hp, hconfig]
    exact hi.2 port s hs
  · simp only [putSession, if_neg heq] at hp
    exact hi.2 p session hp

lemma remove (port : BitVec 16) : sized.inv (link.removeSession port) := by
  refine ⟨hi.1, ?_⟩
  intro p session hp
  by_cases heq : p = port
  · simp [removeSession, heq] at hp
  · simp only [removeSession, if_neg heq] at hp
    exact hi.2 p session hp

lemma fits_le {session : MuxSession}
    (hs : link.sessions port = some session) {n : ℕ} (hle : n ≤ session.config.mss) :
    ∃ version, link.version = some version ∧ link.Fits version n := by
  obtain ⟨version, hv, hfit⟩ := hi.2 port session hs
  refine ⟨version, hv, ?_⟩
  unfold MuxLink.Fits at hfit ⊢
  omega

lemma fits_bare (version : MuxVersion) : link.Fits version 0 := by
  have hroom := hi.1
  have hlen := version.headerLen_le
  unfold MuxLink.Fits packetLimit
  simp only [HEADER_LEN_V2, TCP_HEADER_LEN, MAX_PACKET] at hroom ⊢
  omega

/-- The segment size of the link's version leaves room for the headers. -/
lemma fits_segmentSize {mss : ℕ} (hmss : (LinkM.segmentSize.run link).outcome = .ok mss) :
    ∃ version, link.version = some version ∧ link.Fits version mss := by
  rw [LinkM.segmentSize_run] at hmss
  cases hv : link.version with
  | none => simp [hv] at hmss
  | some version =>
    simp only [hv, Outcome.ok.injEq] at hmss
    refine ⟨version, rfl, ?_⟩
    have hroom := hi.1
    have hlen := version.headerLen_le
    unfold MuxLink.Fits packetLimit
    simp only [LinkM.usizeSub, HEADER_LEN_V2, TCP_HEADER_LEN, MAX_TRANSFER, MAX_PACKET]
      at hroom hmss ⊢
    omega

end

lemma send {P : MuxLink T → Prop} {segment : Segment}
    (hsend : ∀ packet, sized.Keeps (LinkM.transportSend packet : LinkM T Unit))
    (hfits : ∀ link version, sized.inv link → P link → link.version = some version →
      link.Fits version segment.payload.length) :
    Triple sized P (LinkM.sendSegment segment.toBytes : LinkM T Unit) fun _ _ => True := by
  refine sendPacket_triple hsend (Keeps.modify fun _ hi => hi) trivial .tcp ?_
  intro link version hi hp hv hlarge
  have hfit := hfits link version hi hp hv
  have hlen : segment.toBytes.length = TCP_HEADER_LEN + segment.payload.length := by
    rw [segment.toBytes_eq, List.length_append, segment.header.headerBytes_length]
  unfold MuxLink.Fits at hfit
  omega

end Sized

lemma sized_sound [Clock T] [SteadyTransport T] : Sound (sized : Contract (MuxLink T) MuxError (LinkEffect T)) := by
  have hsend (packet : Bytes) : sized.Keeps (LinkM.transportSend packet : LinkM T Unit) := by
    intro link hi _ _
    refine ⟨Sized.congr hi rfl rfl (SteadyTransport.send _ _), ?_, ?_, fun _ _ => trivial⟩
    · intro t ht
      rw [List.mem_singleton.mp ht]
      trivial
    · intro e he
      obtain ⟨error, rfl⟩ := Outcome.ofExcept_eq_error he
      trivial
  refine
    { counted := Keeps.modify fun _ hi => hi
      rejected := Keeps.modify fun _ hi => hi
      sequenced := Keeps.modify fun _ hi => hi
      restart := ?_
      fails := fun h => h
      flushes := fun port => ⟨?_, ?_, ?_⟩
      recv := ?_
      received := fun packet => Keeps.record fun _ _ _ => trivial
      inFlush := fun _ hi => hi
      now := ?_
      remaining := fun _ => Keeps.record fun _ _ _ => trivial
      queued := fun _ _ => Keeps.record fun _ _ _ => trivial
      request := fun r => hsend _
      remove := fun port => Keeps.modify fun _ hi => Sized.remove hi port
      allocated := fun _ => Keeps.modify fun _ hi => hi
      seeded := Keeps.modify fun _ hi => Sized.congr hi rfl rfl rfl
      bare := ?_
      opened := ?_ }
  · -- the new version leaves room for the open sessions
    intro version
    refine Triple.bind (Q := fun _ link => link.LeavesRoom version)
      (Triple.record fun link _ _ hr => ⟨trivial, hr⟩) fun _ => ?_
    refine Triple.modify ?_ fun _ _ _ => trivial
    intro link hi hroom
    exact ⟨hi.1, fun port session hs => ⟨version, rfl, hroom port session hs⟩⟩
  · intro s s' hconfig
    refine Triple.modify (fun link hi hs => Sized.put hi hs hconfig) ?_
    intro link _ _
    simp [putSession]
  · intro session segment hle
    exact Triple.record fun link hi hs _ => ⟨Sized.fits_le hi hs hle, hs⟩
  · intro session segment hle
    refine Sized.send hsend ?_
    intro link version hi hs hv
    obtain ⟨version', hv', hfit⟩ := Sized.fits_le hi hs hle
    rw [hv] at hv'
    cases hv'
    exact hfit
  · intro timeout link hi _ _
    refine ⟨Sized.congr hi rfl rfl (SteadyTransport.recv _ _), fun _ ht => absurd ht List.not_mem_nil,
      ?_, fun _ _ => trivial⟩
    intro e he
    obtain ⟨error, rfl⟩ := Outcome.ofExcept_eq_error he
    trivial
  · intro link hi _ _
    exact ⟨Sized.congr hi rfl rfl (SteadyTransport.now _), fun _ ht => absurd ht List.not_mem_nil,
      (by intro e he; cases he), fun _ _ => trivial⟩
  · intro segment hbare
    refine Sized.send hsend ?_
    intro link version hi _ _
    rw [hbare]
    exact Sized.fits_bare hi version
  · intro config
    refine Triple.modify ?_ fun _ _ _ => trivial
    intro link hi hmss
    refine ⟨hi.1, ?_⟩
    intro p session hp
    by_cases heq : p = config.localPort
    · simp only [putSession, if_pos heq, Option.some.injEq] at hp
      rw [← hp]
      exact Sized.fits_segmentSize hi hmss
    · simp only [putSession, if_neg heq] at hp
      exact hi.2 p session hp

/-! ### Runs -/

section

variable [Clock T] {link : MuxLink T}

/-- The operation announces no version that has no room for an open session. -/
def LinkOp.KeepsRoom (op : LinkOp) (link : MuxLink T) : Prop :=
  ∀ link' version, .announced link' version ∈ (op.run.run link).trace → link'.LeavesRoom version

/-- The links reached from a new one by operations that keep the room of open sessions. -/
def ReachedWithRoom (start : MuxLink T) : MuxLink T → Prop :=
  Relation.ReflTransGen
    (fun link link' => ∃ op : LinkOp, op.KeepsRoom link ∧ link' = (op.run.run link).state) start

lemma LinkOp.KeepsRoom.meets [SteadyTransport T] {op : LinkOp}
    (hop : op.KeepsRoom link) (hi : sized.inv link) : sized.Meets (fun _ _ => True) (op.run.run link) := by
  refine sized_sound.run op link hi trivial ?_
  intro t ht
  cases t with
  | announced link' version => exact hop link' version ht
  | _ => trivial

lemma ReachedWithRoom.inv [SteadyTransport T] {transport : T} {seed window : BitVec 32}
    (hmax : HEADER_LEN_V2 + TCP_HEADER_LEN < maxPacket transport)
    (hr : ReachedWithRoom ((new transport seed).withReceiveWindow window) link) : sized.inv link := by
  induction hr with
  | refl => exact ⟨hmax, nofun⟩
  | tail _ hstep ih =>
    obtain ⟨op, hop, rfl⟩ := hstep
    exact (hop.meets ih).inv

/-- **No committed segment is refused for its size**, in every run whose announced versions leave
room for the sessions open at the time: the segments a session of a link reached so would give
up fit, and whatever operation of such a run comes next, the segments it pulls fit and it does
not end with `TooLarge`. -/
theorem no_segment_too_large [SteadyTransport T] {transport : T} {seed window : BitVec 32}
    (hmax : HEADER_LEN_V2 + TCP_HEADER_LEN < maxPacket transport) {link : MuxLink T}
    (hr : ReachedWithRoom ((new transport seed).withReceiveWindow window) link) :
    (∀ port session segment, link.sessions port = some session →
      session.nextSegment.1 = some segment ∨ session.retransmitUnacknowledged = some segment →
      ∃ version, link.version = some version ∧ version.headerLen + TCP_HEADER_LEN + segment.payload.length ≤
          min (maxPacket link.transport) MAX_PACKET) ∧ ∀ op : LinkOp, op.KeepsRoom link →
      (∀ link' segment, .pulled link' segment ∈ (op.run.run link).trace → ∃ version, link'.version = some version ∧
          version.headerLen + TCP_HEADER_LEN + segment.payload.length ≤ min (maxPacket link'.transport) MAX_PACKET) ∧
      ∀ bytes limit, (op.run.run link).outcome ≠ .error (.tooLarge bytes limit) := by
  have hi := ReachedWithRoom.inv hmax hr
  constructor
  · intro port session segment hs hsegment
    refine Sized.fits_le hi hs ?_
    rcases hsegment with h | h
    · exact MuxSession.nextSegment_payload_le h
    · exact MuxSession.retransmitUnacknowledged_payload_le h
  · intro op hop
    have hmeets := hop.meets hi
    constructor
    · intro link' segment hpulled
      exact hmeets.gives _ hpulled
    · intro bytes limit ho
      exact hmeets.fails _ ho

end

instance : SteadyTransport Script where
  send _ _ := rfl
  recv t _ := by
    show (recv t _).2.room = t.room
    simp only [recv]
    split <;> rfl
  now t := by
    show (Clock.now t).2.room = t.room
    simp only [Clock.now]
    split <;> rfl

/-! A session opened in version one with the largest segments the transport takes; then the device
restarts its framing in version two. -/

def lateScript : Script where
  inbox := [(VersionPacket.mk 1 0).encode,
    (Segment.mk ⟨62078, 49152, 7, 0xfc6ef360, flags.SYN_ACK, 65536⟩ []).fromDevice,
    (VersionPacket.mk 2 0).encode]
  room := 64
  ticks := []

def lateLink : MuxLink Script :=
  (new lateScript 0).after [.negotiate .resync 10 1, .open 62078 10 2, .pump 0]

/-- The write fails for its size, and its bytes are gone from the queue. -/
theorem lateVersion_too_large : ((LinkM.queueWrite 49152 (List.replicate 36 0)).run lateLink).outcome =
    .error (.tooLarge 72 64) ∧
  ((((LinkM.queueWrite 49152 (List.replicate 36 0)).run lateLink).state.sessions 49152).map
    fun s => (s.pendingLen, s.sndNxt)) = some (0, 0xfc6ef360 + 36) := by decide

/-! The same link without the late version packet. -/

def LinkEffect.announces {T : Type} : LinkEffect T → Bool
  | .announced _ _ => true
  | _ => false

lemma LinkOp.keepsRoom_of_no_announcement [Clock T] {op : LinkOp} {link : MuxLink T}
    (h : ((op.run.run link).trace.all fun t => !t.announces) = true) : op.KeepsRoom link := by
  intro link' version hmem
  have := List.all_eq_true.mp h _ hmem
  cases this

def earlyStart : MuxLink Script := new { lateScript with inbox := lateScript.inbox.take 2 } 0

def earlyLink : MuxLink Script := earlyStart.after [.negotiate .resync 10 1, .open 62078 10 2]

lemma earlyLink_reached : ReachedWithRoom earlyStart earlyLink := by
  have h1 : (LinkOp.negotiate .resync 10 1).KeepsRoom earlyStart := by
    intro link' version hmem
    have htrace : ((LinkOp.negotiate .resync 10 1).run.run earlyStart).trace =
        [.sent VersionRequest.resync.packet.encode true, .remaining 10,
          .announced { earlyStart with transport := { lateScript with
            inbox := [(Segment.mk ⟨62078, 49152, 7, 0xfc6ef360, flags.SYN_ACK, 65536⟩ []).fromDevice] } }
            .v1] := rfl
    rw [htrace] at hmem
    simp only [List.mem_cons, reduceCtorEq, LinkEffect.announced.injEq, List.not_mem_nil, or_false,
      false_or] at hmem
    rw [hmem.1]
    exact nofun
  have h2 : (LinkOp.open 62078 10 2).KeepsRoom
      ((LinkOp.negotiate .resync 10 1).run.run earlyStart).state :=
    LinkOp.keepsRoom_of_no_announcement (by decide)
  exact (Relation.ReflTransGen.refl.tail ⟨_, h1, rfl⟩).tail ⟨_, h2, rfl⟩

theorem earlyLink_fits : (∃ link' segment, .pulled link' segment ∈
    ((LinkOp.queueWrite 49152 (List.replicate 36 0)).run.run earlyLink).trace) ∧
  ∀ bytes limit, ((LinkOp.queueWrite 49152 (List.replicate 36 0)).run.run earlyLink).outcome ≠
    .error (.tooLarge bytes limit) := by
  have hop : (LinkOp.queueWrite 49152 (List.replicate 36 0)).KeepsRoom earlyLink :=
    LinkOp.keepsRoom_of_no_announcement (by decide)
  have h := (@no_segment_too_large Script _ _ _ earlyStart.transport 0 DEFAULT_RECEIVE_WINDOW (by decide) _
    earlyLink_reached).2 _ hop
  exact ⟨⟨_, _, List.Mem.tail _ (List.Mem.head _)⟩, h.2⟩

end AppleUtils.Usbmux
