import AppleUtils.Usbmux.SessionRun

/-! # The receive side of a session

The device sends one stream `S` whose first byte is numbered `d + 1`.  A segment with a payload
carries the bytes of `S` at the position its sequence number names, and a segment with a FIN ends
exactly where `S` does; segments may be lost, repeated, reordered or overlap, and any other
operation of the session may come between them.

`RecvInv` says that what was returned by `take_received`, followed by what still waits in the
session, is the first `n` bytes of `S`, and that `rcvNxt` names position `n`, or `n + 1` once the
FIN is accepted, which happens only at the end of `S`. -/

namespace AppleUtils.Usbmux

open Serial List MuxSession

variable {h : History} {s : MuxSession} {S : Bytes} {d : BitVec 32}

/-- The session was just established with a device whose initial sequence number is `d`. -/
structure JustEstablished (d : BitVec 32) (s : MuxSession) : Prop where
  state : s.state = .established
  rcvNxt : s.rcvNxt = d + 1
  inbound : s.inbound = []
  peerFin : s.peerFin = none

/-- A handshake the session accepts leaves it just established. -/
lemma completeHandshake_justEstablished (config : SessionConfig) (header : TcpHeader) :
    JustEstablished header.sequence ((MuxSession.open config).1.counted.completeHandshake header) :=
  ⟨rfl, rfl, rfl, rfl⟩

/-- The segments of a device that sends the stream `S` from sequence number `d + 1` on. -/
def SessionOp.FromDevice (S : Bytes) (d : BitVec 32) : SessionOp → Prop
  | .onSegment header payload =>
    (payload ≠ [] →
      payload = (S.drop (header.sequence - (d + 1)).toNat).take payload.length) ∧
    (header.isFin = true → (header.sequence - (d + 1)).toNat + payload.length = S.length)
  | _ => True

/-- The histories of a session that was just established with such a device. -/
def Fed (S : Bytes) (d : BitVec 32) (s : MuxSession) : History → Prop :=
  Relation.ReflTransGen (fun h h' => ∃ op : SessionOp, op.FromDevice S d ∧ h' = h.step op)
    (History.start s)

instance (S : Bytes) (d : BitVec 32) : DecidablePred (SessionOp.FromDevice S d)
  | .onSegment _ _ => inferInstanceAs (Decidable (_ ∧ _))
  | .queue _ | .nextSegment | .retransmitUnacknowledged | .probeWindow | .requestAck
  | .shutdownWrite | .takeReceived _ | .close => inferInstanceAs (Decidable True)

/-- Operations with segments of the device make a run. -/
lemma Fed.foldl (hr : Fed S d s h)
    {ops : List SessionOp} (hops : ∀ op ∈ ops, op.FromDevice S d) : Fed S d s (ops.foldl History.step h) := by
  induction ops generalizing h with
  | nil => exact hr
  | cons op ops ih =>
    rw [forall_mem_cons] at hops
    exact ih (hr.tail ⟨op, hops.1, rfl⟩) hops.2

/-- The sequence number taken by a FIN that was accepted. -/
def MuxSession.finAccepted (s : MuxSession) : ℕ := if s.peerFin.isSome then 1 else 0

/-! ### What an operation can do to the receive side -/

namespace MuxSession

/-- The two sessions have the same receive side. -/
structure SameRecv (s s' : MuxSession) : Prop where
  rcvNxt : s'.rcvNxt = s.rcvNxt
  inbound : s'.inbound = s.inbound
  peerFin : s'.peerFin = s.peerFin

section

variable (s : MuxSession)

lemma advance_sameRecv (header : TcpHeader) : SameRecv s (s.advance header) := by
  unfold advance updateWindow
  split <;> split <;> exact ⟨rfl, rfl, rfl⟩

lemma advance_state (header : TcpHeader) : (s.advance header).state = s.state := by
  unfold advance updateWindow
  split <;> split <;> rfl

lemma nextSegment_sameRecv : SameRecv s s.nextSegment.2 := by
  rcases s.nextSegment_cases with ⟨_, _, _, e⟩ | ⟨_, _, _, _, _, e⟩ | ⟨_, _, e⟩ | e <;> rw [e] <;>
    exact ⟨rfl, rfl, rfl⟩

lemma nextSegment_state : s.nextSegment.2.state = s.state := by
  rcases s.nextSegment_cases with ⟨_, _, _, e⟩ | ⟨_, _, _, _, _, e⟩ | ⟨_, _, e⟩ | e <;> rw [e] <;>
    rfl

lemma probeWindow_sameRecv : SameRecv s s.probeWindow.2 := by
  unfold probeWindow
  split
  · exact ⟨rfl, rfl, rfl⟩
  · split <;> exact ⟨rfl, rfl, rfl⟩

lemma requestAck_sameRecv : SameRecv s s.requestAck := by
  unfold requestAck
  split <;> exact ⟨rfl, rfl, rfl⟩

lemma shutdownWrite_sameRecv : SameRecv s s.shutdownWrite.2 := by
  rcases s.shutdownWrite_cases with e | e <;> rw [e] <;> exact ⟨rfl, rfl, rfl⟩

lemma shutdownWrite_state : s.shutdownWrite.2.state = s.state := by
  rcases s.shutdownWrite_cases with e | e <;> rw [e]

/-- The payload of a segment is either taken whole, in order and before any FIN, or not at
all. -/
lemma acceptPayload_cases (header : TcpHeader) (payload : Bytes) :
    (SameRecv s (s.acceptPayload header payload).2 ∧ ∀ n, (s.acceptPayload header payload).1 ≠ .data n) ∨
    (header.sequence = s.rcvNxt ∧ s.peerFin = none ∧ (s.acceptPayload header payload).1 = .data payload.length ∧
      (s.acceptPayload header payload).2.inbound = s.inbound ++ payload ∧
      (s.acceptPayload header payload).2.rcvNxt =
        s.rcvNxt + BitVec.ofNat 32 payload.length + (if header.isFin then 1 else 0) ∧
      (s.acceptPayload header payload).2.peerFin.isSome = header.isFin) := by
  unfold acceptPayload
  split
  · exact .inl ⟨⟨rfl, rfl, rfl⟩, nofun⟩
  · split
    · exact .inl ⟨⟨rfl, rfl, rfl⟩, nofun⟩
    · rename_i h
      rw [not_or, not_not] at h
      have hnone : s.peerFin = none := by simpa using h.2
      refine .inr ⟨h.1, hnone, rfl, rfl, ?_, ?_⟩
      · cases header.isFin <;> simp
      · cases header.isFin <;> simp [hnone]

end

end MuxSession

/-- All that one operation can do to the receive side: nothing, the handshake, a read, or one
segment accepted at the number expected next. -/
inductive RecvStep (h h' : History) : SessionOp → Prop
  | keeps (op : SessionOp) (same : h.session.SameRecv h'.session) (taken : h'.taken = h.taken)
      (accepted : h'.accepted = h.accepted) : RecvStep h h' op
  | handshake (op : SessionOp) (state : h.session.state = .synSent)
      (inbound : h'.session.inbound = h.session.inbound) (taken : h'.taken = h.taken)
      (accepted : h'.accepted = h.accepted) : RecvStep h h' op
  | takes (room : ℕ)
      (bytes : h'.taken ++ h'.session.inbound = h.taken ++ h.session.inbound)
      (rcvNxt : h'.session.rcvNxt = h.session.rcvNxt)
      (peerFin : h'.session.peerFin = h.session.peerFin)
      (accepted : h'.accepted = h.accepted) : RecvStep h h' (.takeReceived room)
  | accepts (header : TcpHeader) (payload : Bytes)
      (sequence : header.sequence = h.session.rcvNxt) (before : h.session.peerFin = none)
      (inbound : h'.session.inbound = h.session.inbound ++ payload)
      (rcvNxt : h'.session.rcvNxt = h.session.rcvNxt + BitVec.ofNat 32 payload.length +
        (if header.isFin then 1 else 0))
      (peerFin : h'.session.peerFin.isSome = header.isFin) (taken : h'.taken = h.taken)
      (accepted : h'.accepted = h.accepted ++ payload) :
      RecvStep h h' (.onSegment header payload)

namespace History

/-- A segment that yields no data adds nothing to what was accepted. -/
lemma acceptedBy_of_ne_data (payload : Bytes) {event : SessionEvent}
    (h : ∀ n, event ≠ .data n) : acceptedBy payload (.ok event) = [] := by
  cases event with
  | data n => exact absurd rfl (h n)
  | _ => rfl

lemma step_onSegment {header : TcpHeader} {payload : Bytes} {event : Except SessionError SessionEvent}
    (e : h.session.onSegment header payload = (event, s)) : h.step (.onSegment header payload) = { h with
      session := s
      accepted := h.accepted ++ acceptedBy payload event
      acks := h.acks ++ acksBy header event } := by simp only [step, e]

lemma step_recv_onSegment (h : History) (header : TcpHeader) (payload : Bytes) :
    RecvStep h (h.step (.onSegment header payload)) (.onSegment header payload) := by
  rcases h.session.onSegment_cases header payload with
    ⟨_, event, hev, e⟩ | ⟨_, err, e⟩ | ⟨_, hst, _, _, e⟩ | ⟨_, hst, e⟩ <;> rw [step_onSegment e]
  · have hnone : acceptedBy payload (.ok event) = [] := by
      rcases hev with rfl | rfl <;> rfl
    exact .keeps _ ⟨rfl, rfl, rfl⟩ rfl (by simp [hnone])
  · exact .keeps _ ⟨rfl, rfl, rfl⟩ rfl (by simp [acceptedBy])
  · exact .handshake _ hst rfl rfl (by simp [acceptedBy])
  · have hadv := h.session.counted.advance_sameRecv header
    rcases (h.session.counted.advance header).acceptPayload_cases header payload with
      ⟨hsame, hev⟩ | ⟨hseq, hnone, hev, hin, hrcv, hfin⟩
    · refine .keeps _ ⟨?_, ?_, ?_⟩ rfl ?_
      · exact hsame.rcvNxt.trans hadv.rcvNxt
      · exact hsame.inbound.trans hadv.inbound
      · exact hsame.peerFin.trans hadv.peerFin
      · simp [acceptedBy_of_ne_data payload hev]
    · refine .accepts _ _ (hseq.trans hadv.rcvNxt) (hadv.peerFin.symm.trans hnone) ?_ ?_ hfin rfl ?_
      · exact hin.trans (congrArg (· ++ payload) hadv.inbound)
      · refine hrcv.trans ?_
        rw [hadv.rcvNxt]
        rfl
      · simp [hev, acceptedBy]

lemma step_recv (h : History) (op : SessionOp) : RecvStep h (h.step op) op := by
  cases op with
  | queue data => exact .keeps _ ⟨rfl, rfl, rfl⟩ rfl rfl
  | nextSegment => exact .keeps _ h.session.nextSegment_sameRecv rfl rfl
  | retransmitUnacknowledged => exact .keeps _ ⟨rfl, rfl, rfl⟩ rfl rfl
  | probeWindow => exact .keeps _ h.session.probeWindow_sameRecv rfl rfl
  | requestAck => exact .keeps _ h.session.requestAck_sameRecv rfl rfl
  | shutdownWrite => exact .keeps _ h.session.shutdownWrite_sameRecv rfl rfl
  | onSegment header payload => exact h.step_recv_onSegment header payload
  | close => exact .keeps _ ⟨rfl, rfl, rfl⟩ rfl rfl
  | takeReceived room =>
    refine .takes room ?_ rfl rfl rfl
    simp [step, takeReceived]

/-- A session never returns to the handshake. -/
lemma step_not_synSent (hst : h.session.state ≠ .synSent) (op : SessionOp) :
    (h.step op).session.state ≠ .synSent := by
  cases op with
  | queue data => exact hst
  | nextSegment => exact h.session.nextSegment_state ▸ hst
  | retransmitUnacknowledged => exact hst
  | probeWindow => exact h.session.probeWindow_state ▸ hst
  | requestAck => exact h.session.requestAck_state ▸ hst
  | shutdownWrite => exact h.session.shutdownWrite_state ▸ hst
  | takeReceived room => exact hst
  | close => exact nofun
  | onSegment header payload =>
    rcases h.session.onSegment_cases header payload with
      ⟨_, event, _, e⟩ | ⟨_, err, e⟩ | ⟨_, hst, _, _, e⟩ | ⟨_, _, e⟩ <;> rw [step_onSegment e]
    · nofun
    · exact hst
    · nofun
    · simp only [acceptPayload_state, advance_state]
      exact hst

/-- After the FIN an operation only moves bytes from the session to the caller. -/
lemma step_after_fin (hfin : h.session.peerFin.isSome) (op : SessionOp) :
    (h.step op).taken ++ (h.step op).session.inbound = h.taken ++ h.session.inbound := by
  cases h.step_recv op with
  | keeps _ same taken _ => rw [taken, same.inbound]
  | handshake _ _ inbound taken _ => rw [taken, inbound]
  | takes _ bytes => exact bytes
  | accepts _ _ _ before => simp [before] at hfin

/-- What was accepted from the device is what was returned and what still waits. -/
lemma step_accepted (hacc : h.accepted = h.taken ++ h.session.inbound) (op : SessionOp) :
    (h.step op).accepted = (h.step op).taken ++ (h.step op).session.inbound := by
  cases h.step_recv op with
  | keeps _ same taken accepted => rw [taken, same.inbound, accepted, hacc]
  | handshake _ _ inbound taken accepted => rw [taken, inbound, accepted, hacc]
  | takes _ bytes _ _ accepted => rw [bytes, accepted, hacc]
  | accepts _ _ _ _ inbound _ _ taken accepted =>
    rw [taken, inbound, accepted, hacc, append_assoc]

end History

lemma Driven.accepted_eq {config : SessionConfig} (hr : Driven config h) :
    h.accepted = h.taken ++ h.session.inbound := by
  induction hr with
  | refl => rfl
  | tail _ hstep ih =>
    obtain ⟨op, _, rfl⟩ := hstep
    exact History.step_accepted ih op

/-! ### The invariant of a run -/

/-- What was accepted so far is the first `n` bytes of the stream. -/
structure RecvInv (S : Bytes) (d : BitVec 32) (h : History) : Prop where
  state : h.session.state ≠ .synSent
  holds : ∃ n, n ≤ S.length ∧ h.taken ++ h.session.inbound = S.take n ∧
    h.session.rcvNxt = serial (d + 1) (n + h.session.finAccepted) ∧
    (h.session.peerFin.isSome → n = S.length)

namespace RecvInv

/-- A segment of the device that is accepted starts at the end of the prefix. -/
lemma extend {n : ℕ} (hS : S.length < 2 ^ 31) (hn : n ≤ S.length) {header : TcpHeader}
    {payload : Bytes} (hd : (SessionOp.onSegment header payload).FromDevice S d)
    (hseq : header.sequence = serial (d + 1) n) :
    payload = (S.drop n).take payload.length ∧ n + payload.length ≤ S.length ∧
      (header.isFin = true → n + payload.length = S.length) := by
  have hoff : (header.sequence - (d + 1)).toNat = n := by
    have := toNat_serial_sub (d + 1) (Nat.zero_le n) (by omega)
    rwa [serial_zero, ← hseq] at this
  obtain ⟨hpay, hend⟩ := hd
  rw [hoff] at hpay hend
  have hpay : payload = (S.drop n).take payload.length := by
    by_cases hp : payload = []
    · rw [hp]; rfl
    · exact hpay hp
  have hlen := congrArg List.length hpay
  rw [length_take, length_drop] at hlen
  exact ⟨hpay, by omega, hend⟩

lemma step (hi : RecvInv S d h) (hS : S.length < 2 ^ 31) {op : SessionOp}
    (hop : op.FromDevice S d) : RecvInv S d (h.step op) := by
  obtain ⟨hst, n, hn, hgot, hrcv, hend⟩ := hi
  have hst' := History.step_not_synSent hst op
  cases h.step_recv op with
  | keeps _ same taken _ =>
    refine ⟨hst', n, hn, ?_, ?_, ?_⟩
    · rw [taken, same.inbound, hgot]
    · rw [same.rcvNxt, finAccepted, same.peerFin]
      exact hrcv
    · rw [same.peerFin]
      exact hend
  | handshake _ state => exact absurd state hst
  | takes _ bytes rcvNxt peerFin _ =>
    refine ⟨hst', n, hn, ?_, ?_, ?_⟩
    · rw [bytes, hgot]
    · rw [rcvNxt, finAccepted, peerFin]
      exact hrcv
    · rw [peerFin]
      exact hend
  | accepts header payload sequence before inbound rcvNxt peerFin taken _ =>
    have hzero : h.session.finAccepted = 0 := by simp [finAccepted, before]
    rw [hzero, add_zero] at hrcv
    obtain ⟨hpay, hle, hfin⟩ := extend hS hn hop (sequence.trans hrcv)
    refine ⟨hst', n + payload.length, hle, ?_, ?_, ?_⟩
    · rw [taken, inbound, ← append_assoc, hgot, take_add, ← hpay]
    · rw [rcvNxt, hrcv, serial_add_ofNat, finAccepted, peerFin]
      cases header.isFin with
      | false => simp
      | true => exact serial_succ _ _
    · rw [peerFin]
      exact hfin

end RecvInv

lemma Fed.recvInv (hS : S.length < 2 ^ 31) (hs : JustEstablished d s) (hr : Fed S d s h) : RecvInv S d h := by
  induction hr with
  | refl =>
    refine ⟨?_, 0, Nat.zero_le _, ?_, ?_, ?_⟩
    · show s.state ≠ _
      rw [hs.state]; nofun
    · show [] ++ s.inbound = _
      rw [hs.inbound]; rfl
    · show s.rcvNxt = serial (d + 1) (0 + s.finAccepted)
      simp [hs.rcvNxt, finAccepted, hs.peerFin]
    · intro hx
      have hx : s.peerFin.isSome = true := hx
      rw [hs.peerFin] at hx
      cases hx
  | tail _ hstep ih =>
    obtain ⟨op, hop, rfl⟩ := hstep
    exact ih.step hS hop

/-- **Receive-side correctness.**  The bytes returned so far and the bytes still waiting are the
prefix of the stream that `rcvNxt` counts, less the number the FIN takes; once the FIN is
accepted no operation appends a byte; and the end of the stream is reported only after all of it
was returned. -/
theorem receive_correct {S : Bytes} {d : BitVec 32} {s : MuxSession} {h : History}
    (hS : S.length < 2 ^ 31) (hs : JustEstablished d s) (hr : Fed S d s h) :
    h.taken ++ h.session.inbound = S.take ((h.session.rcvNxt - (d + 1)).toNat -
      if h.session.peerFin.isSome then 1 else 0) ∧
    (h.taken ++ h.session.inbound).length = (h.session.rcvNxt - (d + 1)).toNat -
      (if h.session.peerFin.isSome then 1 else 0) ∧ (h.session.peerFin.isSome → ∀ op : SessionOp,
      (h.step op).taken ++ (h.step op).session.inbound = h.taken ++ h.session.inbound) ∧
    (h.session.receivedEof = true → h.taken = S) := by
  obtain ⟨hst, n, hn, hgot, hrcv, hfin⟩ := Fed.recvInv hS hs hr
  have hlen : (h.session.rcvNxt - (d + 1)).toNat - (if h.session.peerFin.isSome then 1 else 0) = n := by
    have hle : h.session.finAccepted ≤ 1 := by
      unfold finAccepted
      split <;> omega
    have := toNat_serial_sub (d + 1) (Nat.zero_le (n + h.session.finAccepted)) (by omega)
    rw [serial_zero, ← hrcv] at this
    rw [this]
    exact Nat.add_sub_cancel _ _
  refine ⟨?_, ?_, fun hsome op => h.step_after_fin hsome op, ?_⟩
  · rw [hlen]; exact hgot
  · rw [hlen, hgot, length_take]; omega
  · intro heof
    rw [receivedEof, Bool.and_eq_true] at heof
    have hnil : h.session.inbound = [] := isEmpty_iff.mp heof.2
    rw [hnil, append_nil, hfin heof.1, take_length] at hgot
    exact hgot

/-! A device that counts across the end of the sequence numbers, sends its second segment first,
repeats the first one and ends with an overlap that carries the FIN. -/

def feedStream : Bytes := [10, 11, 12, 13]

def feedStart : BitVec 32 := 0xfffffffe

/-- A segment of the device at the given offset of the stream. -/
def feedHeader (offset : BitVec 32) (f : Byte) : TcpHeader :=
  ⟨62078, 49152, feedStart + 1 + offset, 1, f, 65536⟩

def feedOps : List SessionOp :=
  [.onSegment (feedHeader 2 flags.ACK) [12, 13], .onSegment (feedHeader 0 flags.ACK) [10, 11],
    .takeReceived 1, .onSegment (feedHeader 0 flags.ACK) [10, 11], .nextSegment,
    .onSegment (feedHeader 1 flags.ACK) [11, 12], .onSegment (feedHeader 2 (flags.FIN ||| flags.ACK)) [12, 13],
    .onSegment (feedHeader 4 flags.ACK) [], .takeReceived 8]

def feedConfig : SessionConfig := ⟨49152, 62078, 0, 1024, 65536⟩

def feedSynAck : TcpHeader := ⟨62078, 49152, feedStart, 1, flags.SYN_ACK, 65536⟩

theorem feedOps_received : (feedOps.foldl History.step (.start
    ((MuxSession.open feedConfig).1.counted.completeHandshake feedSynAck))).taken = feedStream :=
  (receive_correct (by decide) (completeHandshake_justEstablished feedConfig feedSynAck)
    (Fed.foldl .refl (by decide))).2.2.2 (by decide)

end AppleUtils.Usbmux
