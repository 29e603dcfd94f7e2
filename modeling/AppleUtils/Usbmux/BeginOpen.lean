import AppleUtils.Usbmux.LinkRules

/-! # What a failed `begin_open` leaves behind

`begin_open` puts the new session in the table before its SYN is sent, and does not take it out
again when sending fails.  `beginOpen_atomic_iff` says when that matters: the table is unchanged
by every failure exactly when there is no free port at all, or the SYN for the first free port is
within the packet limit and the transport accepts it.  `refused_leaves_session` is a SYN that the
transport refuses: the port stays taken by a session nobody knows of.

The search itself goes through the whole range, wherever it starts (`toNat_iterate_portAfter`), and
so finds a free port if there is one. -/

namespace AppleUtils.Usbmux

open Proc LinkM

variable {T : Type} {link : MuxLink T} {version : MuxVersion}

/-- The port `allocate_port` looks at after `port`. -/
def portAfter (port : BitVec 16) : BitVec 16 :=
  if port = 0xffff then FIRST_LOCAL_PORT else port + 1

/-- The first port without a session among the `n` ports from `port` on. -/
def freePort (sessions : BitVec 16 → Option MuxSession) : ℕ → BitVec 16 → Option (BitVec 16)
  | 0, _ => none
  | n + 1, port =>
    if (sessions port).isSome then freePort sessions n (portAfter port) else some port

/-- The first port without a session that `allocate_port` comes to. -/
def MuxLink.firstFreePort (link : MuxLink T) : Option (BitVec 16) :=
  freePort link.sessions (0xffff - FIRST_LOCAL_PORT.toNat + 1) link.nextLocalPort

/-- The link when `begin_open` has chosen `port` and an initial sequence number. -/
def MuxLink.chosen (link : MuxLink T) (port : BitVec 16) : MuxLink T :=
  { link with
    nextLocalPort := portAfter port
    sequenceSeed := link.sequenceSeed * 1664525 + 1013904223 }

section

variable [BulkTransport T]

/-- The configuration of a session opened on `port` in the given version. -/
def MuxLink.openConfig (link : MuxLink T) (version : MuxVersion) (port remotePort : BitVec 16) :
    SessionConfig where
  localPort := port
  remotePort := remotePort
  initialSequence := (link.chosen port).sequenceSeed ^^^ (port.setWidth 32 <<< 16)
  mss := usizeSub (usizeSub
    (min (BulkTransport.maxPacket link.transport) MAX_TRANSFER) version.headerLen) TCP_HEADER_LEN
  receiveWindow := link.receiveWindow

/-- The packet of the segment is within the limit and the transport accepts it. -/
def MuxLink.CanSend (link : MuxLink T) (version : MuxVersion) (segment : Bytes) : Prop :=
  version.headerLen + segment.length ≤ link.packetLimit ∧
    (BulkTransport.send link.transport ((link.hostHeader .tcp
      (version.headerLen + segment.length)).headerBytes version ++ segment)).1 = .ok ()

/-- There is no free port, or the SYN for the first free one can be sent. -/
def MuxLink.CanSendSyn (link : MuxLink T) (version : MuxVersion) (remotePort : BitVec 16) : Prop :=
  ∀ port, link.firstFreePort = some port →
    link.CanSend version (MuxSession.open (link.openConfig version port remotePort)).2.toBytes

end

/-! ### Choosing a port -/

namespace LinkM

/-- The search changes nothing but the port it goes on from. -/
lemma allocateTurns_run (n : ℕ) (link : MuxLink T) :
    (∀ port, freePort link.sessions n link.nextLocalPort = some port →
      (allocateTurns n).run link = ⟨.ok port, { link with nextLocalPort := portAfter port }, []⟩) ∧
      (freePort link.sessions n link.nextLocalPort = none → (allocateTurns n).run link =
        ⟨.error .noPorts, { link with nextLocalPort := portAfter^[n] link.nextLocalPort }, []⟩) := by
  induction n generalizing link with
  | zero =>
    refine ⟨?_, fun _ => rfl⟩
    intro port h
    cases h
  | succ n ih =>
    -- The turn moves the next port on whether or not the port at hand is taken.
    have hrun : (allocateTurns (n + 1)).run link =
        (if (link.sessions link.nextLocalPort).isSome then allocateTurns n
          else pure link.nextLocalPort : LinkM T (BitVec 16)).run
            { link with nextLocalPort := portAfter link.nextLocalPort } := by
      rw [allocateTurns, bind_silent get_run, bind_silent (modify_run _)]
      rfl
    rw [hrun]
    unfold freePort
    split
    · exact ih { link with nextLocalPort := portAfter link.nextLocalPort }
    · refine ⟨?_, by intro h; cases h⟩
      intro port h
      cases h
      rfl

/-- From a port of the range the search goes through the range in turn. -/
lemma toNat_iterate_portAfter {port : BitVec 16} (h : FIRST_LOCAL_PORT ≤ port) (k : ℕ) :
    (portAfter^[k] port).toNat = 49152 + (port.toNat + k) % 16384 := by
  have hlt := port.isLt
  have hle : 49152 ≤ port.toNat := h
  induction k with
  | zero =>
    rw [Function.iterate_zero_apply]
    omega
  | succ k ih =>
    rw [Function.iterate_succ_apply', portAfter]
    generalize portAfter^[k] port = next at ih ⊢
    split
    next heq =>
      rw [heq, show (0xffff : BitVec 16).toNat = 65535 from rfl] at ih
      rw [show FIRST_LOCAL_PORT.toNat = 49152 from rfl]
      omega
    next hne =>
      have hmax : next.toNat ≠ 65535 := fun heq => hne (BitVec.eq_of_toNat_eq heq)
      rw [BitVec.toNat_add, show (1 : BitVec 16).toNat = 1 from rfl]
      omega

lemma freePort_eq_some {sessions : BitVec 16 → Option MuxSession} {n : ℕ} {start port : BitVec 16}
    (h : freePort sessions n start = some port) : sessions port = none ∧ ∃ k, portAfter^[k] start = port := by
  induction n generalizing start with
  | zero => cases h
  | succ n ih =>
    unfold freePort at h
    split at h
    · obtain ⟨hnone, k, hk⟩ := ih h
      exact ⟨hnone, k + 1, hk⟩
    · rename_i hnone
      cases h
      exact ⟨by simpa using hnone, 0, rfl⟩

lemma freePort_eq_none {sessions : BitVec 16 → Option MuxSession} {n : ℕ} {start : BitVec 16} :
    freePort sessions n start = none ↔ ∀ k < n, (sessions (portAfter^[k] start)).isSome := by
  induction n generalizing start with
  | zero => simp [freePort]
  | succ n ih =>
    rw [freePort, Nat.forall_lt_succ_left]
    split
    next h => simp [h, ih]
    next h => simp [h]

/-- A search of as many turns as there are ports finds a free one if there is any, and stays in the range. -/
theorem allocatePort_free_iff (link : MuxLink T) (hnext : FIRST_LOCAL_PORT ≤ link.nextLocalPort) :
    FIRST_LOCAL_PORT ≤ (allocatePort.run link).state.nextLocalPort ∧
    ((allocatePort.run link).outcome = .error .noPorts ∨ ∃ port, (allocatePort.run link).outcome = .ok port ∧
      FIRST_LOCAL_PORT ≤ port ∧ link.sessions port = none) ∧ ((allocatePort.run link).outcome = .error .noPorts ↔
      ∀ port, FIRST_LOCAL_PORT ≤ port → (link.sessions port).isSome) := by
  have hrange (k : ℕ) : FIRST_LOCAL_PORT ≤ portAfter^[k] link.nextLocalPort := by
    rw [BitVec.le_def, toNat_iterate_portAfter hnext k]
    exact Nat.le_add_right _ _
  have hrun := allocateTurns_run (0xffff - FIRST_LOCAL_PORT.toNat + 1) link
  rw [allocatePort]
  cases hfree : freePort link.sessions (0xffff - FIRST_LOCAL_PORT.toNat + 1) link.nextLocalPort with
  | some port =>
    obtain ⟨hnone, k, hk⟩ := freePort_eq_some hfree
    have hport := hrange k
    have hafter := hrange (k + 1)
    rw [Function.iterate_succ_apply', hk] at hafter
    rw [hk] at hport
    rw [hrun.1 port hfree]
    refine ⟨hafter, .inr ⟨port, rfl, hport, hnone⟩, ?_⟩
    simp only [reduceCtorEq, false_iff]
    intro hall
    simpa [hnone] using hall port hport
  | none =>
    have hlast := hrange (0xffff - FIRST_LOCAL_PORT.toNat + 1)
    rw [hrun.2 hfree]
    generalize portAfter^[_] _ = last at hlast ⊢
    refine ⟨hlast, .inl rfl, iff_of_true rfl fun port hport => ?_⟩
    -- the turn that comes to the port
    have hlt := port.isLt
    have hlt' := link.nextLocalPort.isLt
    have hle : 49152 ≤ port.toNat := hport
    have hle' : 49152 ≤ link.nextLocalPort.toNat := hnext
    have hturn := freePort_eq_none.mp hfree ((port.toNat + 16384 - link.nextLocalPort.toNat) % 16384)
      (Nat.mod_lt _ (by decide))
    have hport : portAfter^[(port.toNat + 16384 - link.nextLocalPort.toNat) % 16384] link.nextLocalPort = port := by
      apply BitVec.eq_of_toNat_eq
      rw [toNat_iterate_portAfter hnext]
      omega
    rwa [hport] at hturn

theorem allocatePort_last_free : (allocatePort.run { MuxLink.new () 0 with
      nextLocalPort := 65535, sessions := fun p => if p = 65535 then none else some (MuxSession.open ⟨p, 0, 0, 0, 0⟩).1 }).outcome
    ≠ .error .noPorts := by
  rw [Ne, (allocatePort_free_iff _ (by decide)).2.2]
  intro hall
  exact absurd (hall 65535 (by decide)) (by decide)

/-! ### Sending -/

variable [BulkTransport T]

/-- A segment that can be sent is sent; any other fails. -/
lemma sendSegment_outcome (segment : Bytes) (hv : link.version = some version) :
    (link.CanSend version segment → ((sendSegment segment).run link).outcome = .ok ()) ∧
    (¬ link.CanSend version segment → ∃ e, ((sendSegment segment).run link).outcome = .error e) := by
  unfold sendSegment MuxLink.CanSend
  rw [sendPacket_run, hv]
  dsimp only
  split
  · exact ⟨fun h => absurd h.1 (by omega), fun _ => ⟨_, rfl⟩⟩
  · rename_i hfits
    rw [(transmit_run version _ link).1]
    generalize BulkTransport.send link.transport _ = result
    cases hr : result.1 with
    | ok u => exact ⟨fun _ => rfl, fun h => absurd ⟨by omega, rfl⟩ h⟩
    | error e => exact ⟨fun h => absurd h.2 (by simp), fun _ => ⟨_, rfl⟩⟩

/-! ### Opening -/

lemma beginOpen_noPort (remotePort : BitVec 16) (hnone : link.firstFreePort = none) :
    ((beginOpen remotePort).run link).state.sessions = link.sessions := by
  obtain ⟨next, hrun⟩ : ∃ next, (allocateTurns _).run link = ⟨.error .noPorts, { link with nextLocalPort := next }, []⟩ :=
    ⟨_, (allocateTurns_run _ link).2 hnone⟩
  unfold beginOpen allocatePort
  rw [bind_error (congrArg Result.outcome hrun), hrun]

/-- With a free port, everything up to the SYN succeeds and the session is in the table. -/
lemma beginOpen_run (hv : link.version = some version)
    (remotePort : BitVec 16) {port : BitVec 16} (hfree : link.firstFreePort = some port) :
    (beginOpen remotePort).run link =
      (do sendSegment (MuxSession.open (link.openConfig version port remotePort)).2.toBytes
          pure port : LinkM T (BitVec 16)).run ((link.chosen port).putSession port
          (MuxSession.open (link.openConfig version port remotePort)).1) := by
  have hrun := (allocateTurns_run _ link).1 port hfree
  have hmss : segmentSize.run { link with nextLocalPort := portAfter port } =
      ⟨.ok (link.openConfig version port remotePort).mss, { link with nextLocalPort := portAfter port }, []⟩ := by
    rw [segmentSize_run]
    simp only [hv]
    rfl
  have hseq : (nextInitialSequence port : LinkM T (BitVec 32)).run
      { link with nextLocalPort := portAfter port } =
        ⟨.ok (link.openConfig version port remotePort).initialSequence, link.chosen port, []⟩ := rfl
  unfold beginOpen allocatePort
  rw [bind_silent hrun, bind_silent hmss, bind_silent hseq, bind_silent get_run]
  dsimp only
  rw [setSession, bind_silent (modify_run _)]
  rfl

end LinkM

/-- With a free port, `begin_open` ends as sending its SYN does, and the new session is in the
table either way. -/
lemma beginOpen_taken [BulkTransport T]
    (hv : link.version = some version) (remotePort : BitVec 16) {port : BitVec 16}
    (hfree : link.firstFreePort = some port) :
    (link.CanSend version (MuxSession.open (link.openConfig version port remotePort)).2.toBytes →
      ((beginOpen remotePort).run link).outcome = .ok port) ∧
    (¬ link.CanSend version (MuxSession.open (link.openConfig version port remotePort)).2.toBytes →
      (∃ e, ((beginOpen remotePort).run link).outcome = .error e) ∧
        (((beginOpen remotePort).run link).state.sessions port).isSome) := by
  rw [beginOpen_run hv remotePort hfree]
  set opened := (link.chosen port).putSession port
    (MuxSession.open (link.openConfig version port remotePort)).1 with hopened
  generalize (MuxSession.open (link.openConfig version port remotePort)).2.toBytes = syn
  have hopenedVersion : opened.version = some version := hv
  obtain ⟨hsent, hrefused⟩ := sendSegment_outcome syn hopenedVersion
  refine ⟨?_, ?_⟩
  · intro hcan
    rw [bind_ok (hsent hcan)]
    rfl
  · intro hcan
    obtain ⟨e, he⟩ := hrefused hcan
    rw [bind_error he]
    refine ⟨⟨e, rfl⟩, ?_⟩
    change (((sendPacket .tcp syn).run opened).state.sessions port).isSome
    rw [sendPacket_sessions, hopened]
    simp [MuxLink.putSession]

/-- `begin_open` leaves the table as it was on every failure exactly when there is no free port or
the SYN for the first free one can be sent. -/
theorem beginOpen_atomic_iff [BulkTransport T] (link : MuxLink T) (version : MuxVersion)
    (hv : link.version = some version) (remotePort : BitVec 16) :
    (∀ e, ((beginOpen remotePort).run link).outcome = .error e →
      ((beginOpen remotePort).run link).state.sessions = link.sessions) ↔ link.CanSendSyn version remotePort := by
  unfold MuxLink.CanSendSyn
  cases hfree : link.firstFreePort with
  | none => simp [beginOpen_noPort remotePort hfree]
  | some port =>
    obtain ⟨hsent, hrefused⟩ := beginOpen_taken hv remotePort hfree
    refine ⟨?_, ?_⟩
    · intro hatomic p hp
      cases hp
      by_contra hcan
      obtain ⟨⟨e, he⟩, hsome⟩ := hrefused hcan
      rw [hatomic e he, (freePort_eq_some hfree).1] at hsome
      cases hsome
    · intro hcan e he
      rw [hsent (hcan port rfl)] at he
      cases he

/-! ### A transport that refuses the SYN -/

/-- A transport that takes packets of up to `room` bytes and accepts none. -/
structure Refusing where
  room : ℕ

def Refusing.error : IoError := ⟨.brokenPipe, "gone"⟩

instance : BulkTransport Refusing where
  send t _ := (.error Refusing.error, t)
  recv t _ := (.ok none, t)
  maxPacket t := t.room
  sendCapacity _ := none

/-- A negotiated link over it, without sessions. -/
def refusingLink : MuxLink Refusing :=
  { MuxLink.new ⟨0x8000⟩ 0 with version := some .v2 }

theorem refused_leaves_session : refusingLink.version = some .v2 ∧
    ((beginOpen 62078).run refusingLink).outcome = .error (.io Refusing.error) ∧
      refusingLink.sessions FIRST_LOCAL_PORT = none ∧
        (((beginOpen 62078).run refusingLink).state.sessions FIRST_LOCAL_PORT).isSome := by
  decide

/-- A link over a transport that accepts what it is given. -/
def acceptingLink : MuxLink Script :=
  { MuxLink.new ⟨[], 0x8000, []⟩ 0 with version := some .v2 }

theorem beginOpen_atomic_accepting : acceptingLink.CanSendSyn .v2 62078 ∧
    (∀ e, ((beginOpen 62078).run acceptingLink).outcome = .error e →
      ((beginOpen 62078).run acceptingLink).state.sessions = acceptingLink.sessions) := by
  have hcan : acceptingLink.CanSendSyn .v2 62078 := by
    intro port _
    refine ⟨?_, rfl⟩
    rw [Segment.toBytes_eq, List.length_append, TcpHeader.headerBytes_length]
    change HEADER_LEN_V2 + (TCP_HEADER_LEN + 0) ≤ min 0x8000 MAX_PACKET
    decide
  exact ⟨hcan, (beginOpen_atomic_iff acceptingLink .v2 rfl 62078).mpr hcan⟩

end AppleUtils.Usbmux
