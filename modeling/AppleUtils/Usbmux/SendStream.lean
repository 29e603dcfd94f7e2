import AppleUtils.Usbmux.SessionRun

/-! # The send side of a session

Everything ever queued on a session splits into the bytes acknowledged, the bytes kept for
retransmission and the bytes not yet sent, and the sequence pointers name the two splits.
`Opened s q A g` says so: `q = A ++ unacknowledged ++ outbound`, `sndUna` names position
`|A| + g` and `sndNxt` position `|A| + |unacknowledged| + f` of the stream whose position `0` is
named `initialSequence + 1`, where `f` and `g` count the FIN as sent and as acknowledged.

Two bounds make the wrapping arithmetic exact.  The window's edge lies less than `2 ^ 24` past
`sndUna`, because a window comes off the wire, and nothing is sent past the edge, so less than
`2 ^ 24` numbers are in flight.  `Opened` is kept by every operation of a run
(`SendInv.step`), which gives the invariant of all runs (`Driven.sendInv`). -/

namespace AppleUtils.Usbmux

open Serial List MuxSession

variable {header : TcpHeader} {segment : Segment} {s : MuxSession} {q A : Bytes} {g : ℕ}

namespace MuxSession

/-- The name of the first byte of the stream. -/
def base (s : MuxSession) : BitVec 32 := s.config.initialSequence + 1

/-- Sequence numbers taken by a FIN that was sent. -/
def finSent (s : MuxSession) : ℕ := if s.sentFin.isSome then 1 else 0

/-- A FIN was sent and `sndUna` has not moved past it. -/
def finOutstanding (s : MuxSession) : Bool :=
  match s.sentFin with
  | none => false
  | some sequence => s.sndUna != sequence + 1

/-- The send side of a session that has been established: `A` is acknowledged, and `g` is `1`
once the FIN is too. -/
structure Opened (s : MuxSession) (q A : Bytes) (g : ℕ) : Prop where
  state : s.state ≠ .synSent
  split : q = A ++ s.unacknowledged ++ s.outbound
  una : s.sndUna = serial s.base (A.length + g)
  nxt : s.sndNxt = serial s.base (A.length + s.unacknowledged.length + s.finSent)
  finAt : ∀ x, s.sentFin = some x → x = serial s.base (A.length + s.unacknowledged.length) ∧
    s.outbound = [] ∧ s.writeShutdown = true
  finAcked : g = 0 ∨ g = 1 ∧ s.finSent = 1 ∧ s.unacknowledged = []
  edge : ∃ W, W < 2 ^ 24 ∧ s.sndWndEdge = serial s.sndUna W
  flight : s.unacknowledged.length + s.finSent < 2 ^ 24 + g

/-- The send side of a session that never was: nothing is queued and nothing was sent. -/
structure Unopened (s : MuxSession) (q : Bytes) : Prop where
  state : s.state ≠ .established
  queued : q = []
  unacknowledged : s.unacknowledged = []
  outbound : s.outbound = []
  sentFin : s.sentFin = none

variable {s' : MuxSession}

lemma Opened.congr (h : Opened s q A g) (e : SameSend s s') (hst : s'.state ≠ .synSent) : Opened s' q A g := by
  obtain ⟨hc, hn, hu, hw, ho, hk, hs, hf⟩ := e
  have hb : s'.base = s.base := by unfold base; rw [hc]
  have hfin : s'.finSent = s.finSent := by unfold finSent; rw [hf]
  refine ⟨hst, ?_, ?_, ?_, ?_, ?_, ?_, ?_⟩
  · rw [hk, ho]; exact h.split
  · rw [hu, hb]; exact h.una
  · rw [hn, hb, hk, hfin]; exact h.nxt
  · rw [hf, hb, hk, ho, hs]; exact h.finAt
  · rw [hfin, hk]; exact h.finAcked
  · rw [hw, hu]; exact h.edge
  · rw [hk, hfin]; exact h.flight

lemma Unopened.congr (h : Unopened s q) (e : SameSend s s') (hst : s'.state ≠ .established) : Unopened s' q :=
  ⟨hst, h.queued, e.unacknowledged.trans h.unacknowledged, e.outbound.trans h.outbound, e.sentFin.trans h.sentFin⟩

lemma finSent_le (s : MuxSession) : s.finSent ≤ 1 := by
  unfold finSent
  split <;> omega

lemma finSent_none (h : s.sentFin = none) : s.finSent = 0 := by simp [finSent, h]

lemma finSent_some {x : BitVec 32} (h : s.sentFin = some x) : s.finSent = 1 := by simp [finSent, h]

section

variable (h : Opened s q A g)

include h

/-- Bytes waiting to be sent mean that no FIN was sent. -/
lemma Opened.sentFin_none (ho : s.outbound ≠ []) : s.sentFin = none := by
  cases hf : s.sentFin with
  | none => rfl
  | some x => exact absurd (h.finAt x hf).2.1 ho

lemma Opened.acked_le : g ≤ s.unacknowledged.length + s.finSent := by
  rcases h.finAcked with hg | ⟨hg, hf, _⟩ <;> omega

lemma Opened.acked_le_one : g ≤ 1 := by
  rcases h.finAcked with hg | ⟨hg, _, _⟩ <;> omega

lemma Opened.acked_zero (hf : s.sentFin = none) : g = 0 := by
  have h0 := finSent_none hf
  rcases h.finAcked with hg | ⟨_, h1, _⟩ <;> omega

/-- The numbers in flight, read off the pointers. -/
lemma Opened.toNat_flight : (s.sndNxt - s.sndUna).toNat = s.unacknowledged.length + s.finSent - g := by
  have h1 := h.acked_le
  have h2 := h.flight
  rw [h.nxt, h.una, toNat_serial_sub _ (by omega) (by omega)]
  omega

/-- The usable window is what the edge leaves beyond the numbers in flight. -/
lemma Opened.usable (hu : 0 < s.usableWindow) :
    s.unacknowledged.length + s.finSent - g + s.usableWindow < 2 ^ 24 := by
  obtain ⟨W, hW, hedge⟩ := h.edge
  have h1 := h.acked_le
  have h2 := h.flight
  have hroom : s.sndWndEdge = serial s.base (A.length + g + W) := by
    rw [hedge, h.una]
    exact serial_add_ofNat _ _ _
  unfold usableWindow at hu ⊢
  dsimp only at hu ⊢
  rw [hroom, h.nxt] at hu ⊢
  rcases lt_or_ge (A.length + s.unacknowledged.length + s.finSent) (A.length + g + W)
    with hlt | hge
  · rw [toNat_serial_sub _ hlt.le (by omega)] at hu ⊢
    split <;> omega
  · have := serial_sub_toInt_nonpos s.base hge (w := 32) (by omega)
    rw [if_pos (by omega)] at hu
    exact absurd hu (by omega)

end

/-! ### Acknowledgements -/

/-- An acknowledgement in the window names a position between the two pointers. -/
lemma Opened.ack_eq (h : Opened s q A g) {a : BitVec 32} (ha : s.AckInWindow a) :
    ∃ n, n = (a - s.sndUna).toNat ∧ n ≤ s.unacknowledged.length + s.finSent - g ∧
      a = serial s.base (A.length + g + n) := by
  refine ⟨(a - s.sndUna).toNat, rfl, ?_, ?_⟩
  · rw [← h.toNat_flight]; exact ha
  · rw [← serial_add_ofNat, ← h.una, BitVec.ofNat_toNat, BitVec.setWidth_eq]
    ring

lemma Opened.acknowledge (h : Opened s q A g)
    (ha : s.AckInWindow header.acknowledgement) (hgt : seqGt header.acknowledgement s.sndUna = true) :
    ∃ A' g', (s.acknowledge header).unacknowledged.length ≤ s.unacknowledged.length ∧
      q = A' ++ (s.acknowledge header).unacknowledged ++ s.outbound ∧
      header.acknowledgement = serial s.base (A'.length + g') ∧
      A'.length + (s.acknowledge header).unacknowledged.length = A.length + s.unacknowledged.length ∧
      (g' = 0 ∨ g' = 1 ∧ s.finSent = 1 ∧ (s.acknowledge header).unacknowledged = []) := by
  obtain ⟨n, hn, hle, he⟩ := h.ack_eq ha
  have hpos : 0 < n := by
    have := (toInt_pos_iff _).mp (of_decide_eq_true hgt)
    omega
  have hg : g = 0 := by
    rcases h.finAcked with hg | ⟨hg, hf, hu⟩
    · exact hg
    · rw [hu, hf, hg] at hle
      simp at hle
      omega
  subst hg
  have hf := s.finSent_le
  have hdrop : (s.acknowledge header).unacknowledged = s.unacknowledged.drop
      (min n s.unacknowledged.length) := by
    rw [hn]; rfl
  rw [hdrop]
  -- The FIN is acknowledged exactly when the number lies past the last byte in flight.
  refine ⟨A ++ s.unacknowledged.take (min n s.unacknowledged.length),
    n - s.unacknowledged.length, ?_, ?_, ?_, ?_, ?_⟩
  · simp
  · rw [append_assoc A, take_append_drop]; exact h.split
  · rw [he]
    congr 1
    simp only [length_append, length_take]
    omega
  · simp only [length_append, length_take, length_drop]
    omega
  · rcases lt_or_ge s.unacknowledged.length n with hlt | hge
    · refine .inr ⟨by omega, by omega, ?_⟩
      rw [min_eq_right hlt.le]
      exact drop_length
    · exact .inl (by omega)

/-- The edge a segment sets lies a wire window past its acknowledgement. -/
lemma windowEdge_eq (hw : header.OffWire) :
    ∃ W, W < 2 ^ 24 ∧ header.windowEdge = serial header.acknowledgement W := by
  obtain ⟨bytes, hd⟩ := hw
  refine ⟨header.window.toNat, TcpHeader.decode_window_lt hd, ?_⟩
  unfold TcpHeader.windowEdge serial
  simp

/-- Taking the acknowledgement and the window of an allowed segment keeps the send side. -/
lemma Opened.advance (h : Opened s q A g)
    (ha : header.hasAck = true → header.OffWire ∧ s.AckInWindow header.acknowledgement) :
    ∃ A' g', Opened (s.advance header) q A' g' ∧ (A' = A ∧ g' = g ∧ (s.advance header).sndUna = s.sndUna ∨
        header.hasAck = true ∧ (s.advance header).sndUna = header.acknowledgement) := by
  cases hack : header.hasAck with
  | false =>
    have e : s.advance header = s := by simp [MuxSession.advance, updateWindow, hack]
    rw [e]
    exact ⟨A, g, h, .inl ⟨rfl, rfl, rfl⟩⟩
  | true =>
    obtain ⟨hwire, hin⟩ := ha hack
    obtain ⟨W, hW, hedge⟩ := windowEdge_eq hwire
    cases hgt : seqGt header.acknowledgement s.sndUna with
    | true =>
      obtain ⟨A', g', hlen, hsplit, hack', hsum, hfin⟩ := h.acknowledge hin hgt
      have e : s.advance header = (s.acknowledge header).updateWindow header := by
        simp [MuxSession.advance, hack, hgt]
      have e' : (s.acknowledge header).updateWindow header = { s.acknowledge header with
            sndWndEdge := header.windowEdge
            peerWindow := header.window
            maxPeerWindow := wordMax s.maxPeerWindow header.window } := by
        simp [updateWindow, hack, MuxSession.acknowledge]
      rw [e, e']
      refine ⟨A', g', ⟨h.state, hsplit, hack', ?_, ?_, hfin, ⟨W, hW, hedge⟩, ?_⟩, .inr ⟨rfl, rfl⟩⟩
      · show s.sndNxt = serial s.base (A'.length + (s.acknowledge header).unacknowledged.length
          + s.finSent)
        rw [hsum]; exact h.nxt
      · intro x hx
        show x = serial s.base (A'.length + (s.acknowledge header).unacknowledged.length) ∧ _
        rw [hsum]; exact h.finAt x hx
      · show (s.acknowledge header).unacknowledged.length + s.finSent < 2 ^ 24 + g'
        have hflight := h.flight
        have hf := s.finSent_le
        rcases h.finAcked with hg | ⟨hg, hf1, hu⟩
        · omega
        · rw [hu] at hlen
          simp only [length_nil] at hlen
          omega
    | false =>
      -- In the window and not greater than `sndUna`: the acknowledgement repeats it.
      obtain ⟨n, hn, hle, he⟩ := h.ack_eq hin
      have hzero : n = 0 := by
        have := (toInt_pos_iff (header.acknowledgement - s.sndUna)).not.mp
          (of_decide_eq_false hgt)
        have := h.flight
        omega
      rw [hzero, add_zero, ← h.una] at he
      have e : s.advance header = { s with
            sndWndEdge := header.windowEdge
            peerWindow := header.window
            maxPeerWindow := wordMax s.maxPeerWindow header.window } := by
        simp [MuxSession.advance, updateWindow, hack, hgt]
      rw [e]
      refine ⟨A, g, ⟨h.state, h.split, h.una, h.nxt, h.finAt, h.finAcked, ⟨W, hW, ?_⟩, h.flight⟩,
        .inl ⟨rfl, rfl, rfl⟩⟩
      rw [← he]; exact hedge

/-! ### Pulling a segment -/

lemma Opened.sendData (h : Opened s q A g) (hu : 0 < s.usableWindow) (ho : s.outbound ≠ []) :
    Opened s.sendData.2 q A g := by
  have hnone := h.sentFin_none ho
  have hg := h.acked_zero hnone
  have hf := finSent_none hnone
  have husable := h.usable hu
  have htake : s.nextTake ≤ s.outbound.length ∧ s.nextTake ≤ s.usableWindow := by
    unfold nextTake; omega
  have hlen : (s.outbound.take s.nextTake).length = s.nextTake := by
    rw [length_take]; omega
  refine ⟨h.state, ?_, h.una, ?_, ?_, .inl hg, h.edge, ?_⟩
  · show q = A ++ (s.unacknowledged ++ s.outbound.take s.nextTake) ++ s.outbound.drop s.nextTake
    rw [← append_assoc, append_assoc _ (List.take _ _), take_append_drop]
    exact h.split
  · show s.sndNxt + BitVec.ofNat 32 s.nextTake = serial s.base
      (A.length + (s.unacknowledged ++ s.outbound.take s.nextTake).length + s.finSent)
    rw [h.nxt, serial_add_ofNat, length_append, hlen]
    congr 1
    omega
  · intro x hx
    rw [show s.sendData.2.sentFin = s.sentFin from rfl, hnone] at hx
    cases hx
  · show (s.unacknowledged ++ s.outbound.take s.nextTake).length + s.finSent < 2 ^ 24 + g
    rw [length_append, hlen]
    omega

lemma Opened.sendFin (h : Opened s q A g) (hu : 0 < s.usableWindow) (ho : s.outbound = [])
    (hw : s.writeShutdown = true) (hnone : s.sentFin = none) : Opened s.sendFin.2 q A g := by
  have hg := h.acked_zero hnone
  have hf := finSent_none hnone
  have husable := h.usable hu
  have hnxt : s.sndNxt = serial s.base (A.length + s.unacknowledged.length) := by rw [h.nxt, hf, add_zero]
  refine ⟨h.state, h.split, h.una, ?_, ?_, .inl hg, h.edge, ?_⟩
  · show s.sndNxt + 1 = serial s.base (A.length + s.unacknowledged.length + 1)
    rw [hnxt, serial_succ]
  · intro x hx
    obtain rfl : s.sndNxt = x := Option.some.inj hx
    exact ⟨hnxt, ho, hw⟩
  · show s.unacknowledged.length + 1 < 2 ^ 24 + g
    omega

lemma Opened.nextSegment (h : Opened s q A g) : Opened s.nextSegment.2 q A g := by
  rcases s.nextSegment_cases with ⟨_, hu, ho, e⟩ | ⟨_, hu, ho, hw, hn, e⟩ | ⟨_, _, e⟩ | e
  · rw [e]; exact h.sendData hu ho
  · rw [e]; exact h.sendFin hu ho hw hn
  · rw [e]; exact h.congr ⟨rfl, rfl, rfl, rfl, rfl, rfl, rfl, rfl⟩ h.state
  · rw [e]; exact h

lemma nextSegment_sndUna (s : MuxSession) : s.nextSegment.2.sndUna = s.sndUna := by
  rcases s.nextSegment_cases with ⟨_, _, _, e⟩ | ⟨_, _, _, _, _, e⟩ | ⟨_, _, e⟩ | e <;> rw [e] <;> rfl

lemma nextSegment_not_established (hst : s.state ≠ .established) : s.nextSegment = (none, s) := by
  unfold nextSegment
  rw [if_pos hst]

end MuxSession

/-- The segment carries the bytes of `q` at the position its sequence number names in the
stream that starts at `b`. -/
def Segment.Carries (b : BitVec 32) (q : Bytes) (segment : Segment) : Prop :=
  ∃ k, segment.header.sequence = serial b k ∧
    segment.payload = (q.drop k).take segment.payload.length

namespace MuxSession

lemma Opened.nextSegment_carries (h : Opened s q A g)
    (hs : s.nextSegment.1 = some segment) (hp : segment.payload ≠ []) : segment.Carries s.base q := by
  rcases s.nextSegment_cases with ⟨_, _, ho, e⟩ | ⟨_, _, _, _, _, e⟩ | ⟨_, _, e⟩ | e
  · rw [e] at hs
    cases hs
    have hf := finSent_none (h.sentFin_none ho)
    refine ⟨A.length + s.unacknowledged.length, ?_, ?_⟩
    · show s.sndNxt = _
      rw [h.nxt, hf, add_zero]
    · show s.outbound.take s.nextTake = (q.drop _).take (s.outbound.take s.nextTake).length
      rw [h.split, ← length_append, drop_left, length_take]
      exact take_eq_take_min
  · rw [e] at hs
    cases hs
    exact absurd rfl hp
  · rw [e] at hs
    cases hs
    exact absurd rfl hp
  · rw [e] at hs
    cases hs

/-- A retransmission starts at the first byte kept. -/
lemma Opened.retransmit_eq (h : Opened s q A g)
    (hs : s.retransmitUnacknowledged = some segment) (hp : segment.payload ≠ []) :
    segment.header.sequence = serial s.base A.length ∧ ∃ n, segment.payload = s.unacknowledged.take n := by
  unfold retransmitUnacknowledged at hs
  split at hs
  · cases hs
  · split at hs
    · split at hs
      · cases hs
      · split at hs
        · cases hs
        · cases hs
          exact absurd rfl hp
    · rename_i hne
      dsimp only at hs
      split at hs
      · cases hs
      · cases hs
        have hg : g = 0 := by
          rcases h.finAcked with hg | ⟨_, _, hu⟩
          · exact hg
          · rw [hu] at hne
            exact absurd rfl hne
        refine ⟨?_, _, rfl⟩
        show s.sndUna = _
        rw [h.una, hg, add_zero]

lemma Opened.retransmit_carries (h : Opened s q A g)
    (hs : s.retransmitUnacknowledged = some segment) (hp : segment.payload ≠ []) : segment.Carries s.base q := by
  obtain ⟨hseq, n, hpay⟩ := h.retransmit_eq hs hp
  refine ⟨A.length, hseq, ?_⟩
  rw [hpay, h.split, append_assoc, drop_left, length_take, take_append_of_le_length (by omega)]
  exact take_eq_take_min

/-! ### Segments from the device -/

/-- A completed handshake opens the send side at the first byte of the stream. -/
lemma Unopened.completeHandshake (hu : Unopened s q)
    (hw : header.OffWire) (hack : header.acknowledgement = s.base) : Opened (s.completeHandshake header) q [] 0 := by
  obtain ⟨W, hW, hedge⟩ := windowEdge_eq hw
  obtain ⟨_, hq, hk, ho, hf⟩ := hu
  refine ⟨nofun, ?_, ?_, ?_, ?_, .inl rfl, ⟨W, hW, ?_⟩, ?_⟩
  · show q = [] ++ s.unacknowledged ++ s.outbound
    rw [hq, hk, ho]; rfl
  · show s.base = serial s.base 0
    rw [serial_zero]
  · show s.base = serial s.base (0 + s.unacknowledged.length + s.finSent)
    rw [hk, finSent_none hf]
    simp
  · intro x hx
    rw [show (s.completeHandshake header).sentFin = s.sentFin from rfl, hf] at hx
    cases hx
  · show header.windowEdge = serial s.base W
    rw [hedge, hack]
  · show s.unacknowledged.length + s.finSent < 2 ^ 24 + 0
    rw [hk, finSent_none hf]
    simp

end MuxSession

/-! ### The invariant of a run -/

/-- The send side of a history: what was emitted carries the queued bytes, and the session is
either not opened or splits them.  `sndUna` was given by the device once it has moved. -/
structure SendInv (config : SessionConfig) (h : History) : Prop where
  sameConfig : h.session.config = config
  emitted : ∀ segment ∈ h.emitted, segment.payload ≠ [] →
    segment.Carries (config.initialSequence + 1) h.queued
  side : h.session.Unopened h.queued ∨ ∃ A g, h.session.Opened h.queued A g ∧
    (A = [] ∧ g = 0 ∨ h.session.sndUna ∈ h.acks)

/-- Queueing more bytes does not disturb what a segment carries. -/
lemma Segment.Carries.append {b : BitVec 32}
    (h : segment.Carries b q) (hp : segment.payload ≠ []) (data : Bytes) : segment.Carries b (q ++ data) := by
  obtain ⟨k, hseq, hpay⟩ := h
  refine ⟨k, hseq, ?_⟩
  have hlen := congrArg List.length hpay
  have hpos := length_pos_iff.mpr hp
  rw [length_take, length_drop] at hlen
  rw [drop_append_of_le_length (by omega), take_append_of_le_length (by rw [length_drop]; omega)]
  exact hpay

namespace SendInv

variable {config : SessionConfig} {h : History}

lemma start (config : SessionConfig) : SendInv config (History.start (MuxSession.open config).1) :=
  ⟨rfl, fun _ hm => absurd hm not_mem_nil, .inl ⟨nofun, rfl, rfl, rfl, rfl⟩⟩

section

variable (hi : SendInv config h) {h' : History}

include hi

/-- An operation that leaves the send side and what crossed it alone keeps the invariant. -/
lemma of_sameSend (e : h.session.SameSend h'.session) (hq : h'.queued = h.queued) (hem : h'.emitted = h.emitted)
    (hst : h'.session.state = h.session.state ∨ h'.session.state = .closed)
    (hacks : ∀ a ∈ h.acks, a ∈ h'.acks) : SendInv config h' := by
  obtain ⟨hc, hemit, hside⟩ := hi
  refine ⟨e.config.trans hc, ?_, ?_⟩
  · rw [hem, hq]; exact hemit
  · rw [hq]
    rcases hside with hu | ⟨A, g, ho, hack⟩
    · refine .inl (hu.congr e ?_)
      rcases hst with hst | hst <;> rw [hst]
      · exact hu.state
      · nofun
    · refine .inr ⟨A, g, ho.congr e ?_, ?_⟩
      · rcases hst with hst | hst <;> rw [hst]
        · exact ho.state
        · nofun
      rw [e.sndUna]
      exact hack.imp id (hacks _)

lemma queue {data : Bytes} (hw : h.session.canWrite = true) : SendInv config (h.step (.queue data)) := by
  obtain ⟨hc, hemit, hside⟩ := hi
  have hw : h.session.state = .established ∧ h.session.writeShutdown = false := by simpa [canWrite] using hw
  rcases hside with hu | ⟨A, g, ho, hack⟩
  · exact absurd hw.1 hu.state
  · refine ⟨hc, fun segment hm hp => (hemit segment hm hp).append hp data, .inr ⟨A, g, ?_, hack⟩⟩
    refine ⟨ho.state, ?_, ho.una, ho.nxt, ?_, ho.finAcked, ho.edge, ho.flight⟩
    · show h.queued ++ data = A ++ h.session.unacknowledged ++ (h.session.outbound ++ data)
      rw [← append_assoc, ← ho.split]
    · intro x hx
      have := (ho.finAt x hx).2.2
      rw [hw.2] at this
      cases this

lemma nextSegment : SendInv config (h.step .nextSegment) := by
  obtain ⟨hc, hemit, hside⟩ := hi
  have hbase : h.session.base = config.initialSequence + 1 := by rw [base, hc]
  refine ⟨(h.session.nextSegment_config).trans hc, ?_, ?_⟩
  · intro segment hm hp
    have hm : segment ∈ h.emitted ++ h.session.nextSegment.1.toList := hm
    rcases mem_append.mp hm with hm | hm
    · exact hemit segment hm hp
    · have hs := Option.mem_toList.mp hm
      rcases hside with hu | ⟨A, g, ho, _⟩
      · rw [nextSegment_not_established hu.state] at hs
        cases hs
      · rw [← hbase]
        exact ho.nextSegment_carries hs hp
  · rcases hside with hu | ⟨A, g, ho, hack⟩
    · refine .inl ?_
      show (h.session.nextSegment.2).Unopened h.queued
      rw [nextSegment_not_established hu.state]
      exact hu
    · refine .inr ⟨A, g, ho.nextSegment, ?_⟩
      show _ ∨ h.session.nextSegment.2.sndUna ∈ h.acks
      rw [nextSegment_sndUna]
      exact hack

lemma retransmitUnacknowledged : SendInv config (h.step .retransmitUnacknowledged) := by
  obtain ⟨hc, hemit, hside⟩ := hi
  have hbase : h.session.base = config.initialSequence + 1 := by rw [base, hc]
  refine ⟨hc, ?_, hside⟩
  intro segment hm hp
  have hm : segment ∈ h.emitted ++ h.session.retransmitUnacknowledged.toList := hm
  rcases mem_append.mp hm with hm | hm
  · exact hemit segment hm hp
  · have hs := Option.mem_toList.mp hm
    rcases hside with hu | ⟨A, g, ho, _⟩
    · have hnone : h.session.retransmitUnacknowledged = none := by
        unfold MuxSession.retransmitUnacknowledged
        rw [if_pos hu.state]
      rw [hnone] at hs
      cases hs
    · rw [← hbase]
      exact ho.retransmit_carries hs hp

lemma onSegment {payload : Bytes} (ha : (SessionOp.onSegment header payload).Allowed h.session) :
    SendInv config (h.step (.onSegment header payload)) := by
  have hsess : (h.step (.onSegment header payload)).session = (h.session.onSegment header payload).2 := rfl
  have hacks : ∀ a ∈ h.acks, a ∈ (h.step (.onSegment header payload)).acks :=
    fun a hm => mem_append_left _ hm
  have hcount : h.session.SameSend h.session.counted := ⟨rfl, rfl, rfl, rfl, rfl, rfl, rfl, rfl⟩
  rcases h.session.onSegment_cases header payload with
    ⟨_, event, _, e⟩ | ⟨_, err, e⟩ | ⟨_, hst, hack, hexp, e⟩ | ⟨_, hst, e⟩
  · refine hi.of_sameSend ?_ rfl rfl (.inr ?_) hacks
    · rw [hsess, e]
      exact hcount.trans ⟨rfl, rfl, rfl, rfl, rfl, rfl, rfl, rfl⟩
    · rw [hsess, e]
  · refine hi.of_sameSend ?_ rfl rfl (.inl ?_) hacks
    · rw [hsess, e]
      exact hcount
    · rw [hsess, e]
      rfl
  · obtain ⟨hc, hemit, hside⟩ := hi
    rcases hside with hu | ⟨A, g, ho, _⟩
    · have hu' := (hu.congr hcount hu.state).completeHandshake (ha hack).1 hexp
      refine ⟨?_, hemit, .inr ⟨[], 0, ?_, .inl ⟨rfl, rfl⟩⟩⟩
      · rw [hsess, e]; exact hc
      · rw [hsess, e]; exact hu'
    · exact absurd hst ho.state
  · obtain ⟨hc, hemit, hside⟩ := hi
    rcases hside with hu | ⟨A, g, ho, hack⟩
    · exact absurd hst hu.state
    · have hwindow : header.hasAck = true → h.session.AckInWindow header.acknowledgement := by
        intro hx
        refine (ha hx).2 _ ?_
        rw [e, History.acksBy_acceptPayload, if_pos hx]
        exact mem_singleton_self _
      obtain ⟨A', g', ho', hmove⟩ := (ho.congr hcount ho.state).advance
        (fun hx => ⟨(ha hx).1, hwindow hx⟩)
      have hsame := acceptPayload_sameSend (h.session.counted.advance header)
        header payload
      have hstate := acceptPayload_state (h.session.counted.advance header)
        header payload
      refine ⟨?_, hemit, .inr ⟨A', g', ?_, ?_⟩⟩
      · rw [hsess, e]
        exact hsame.config.trans ((advance_config _ header).trans hc)
      · rw [hsess, e]
        refine ho'.congr hsame ?_
        rw [hstate]
        exact ho'.state
      · rw [hsess, e]
        have hadd : (h.step (.onSegment header payload)).acks =
            h.acks ++ if header.hasAck then [header.acknowledgement] else [] := by
          show h.acks ++ History.acksBy header (h.session.onSegment header payload).1 = _
          rw [e, History.acksBy_acceptPayload]
        rw [hadd, hsame.sndUna]
        rcases hmove with ⟨rfl, rfl, hun⟩ | ⟨hx, hun⟩
        · rw [hun]
          exact hack.imp id (mem_append_left _)
        · rw [hun, hx]
          exact .inr (mem_append_right _ (by simp))

lemma shutdownWrite : SendInv config (h.step .shutdownWrite) := by
  obtain ⟨hc, hemit, hside⟩ := hi
  rcases h.session.shutdownWrite_cases with e | e
  · have e' : h.step .shutdownWrite = h := by
      show { h with session := h.session.shutdownWrite.2 } = h
      rw [e]
    rw [e']
    exact ⟨hc, hemit, hside⟩
  · have e' : h.step .shutdownWrite = { h with session := { h.session with writeShutdown := true } } := by
      show { h with session := h.session.shutdownWrite.2 } = _
      rw [e]
    rw [e']
    refine ⟨hc, hemit, ?_⟩
    rcases hside with hu | ⟨A, g, ho, hack⟩
    · exact .inl ⟨hu.state, hu.queued, hu.unacknowledged, hu.outbound, hu.sentFin⟩
    · exact .inr ⟨A, g, ⟨ho.state, ho.split, ho.una, ho.nxt,
        fun x hx => ⟨(ho.finAt x hx).1, (ho.finAt x hx).2.1, rfl⟩, ho.finAcked, ho.edge, ho.flight⟩, hack⟩

lemma step (hs : Step h h') : SendInv config h' := by
  obtain ⟨op, hop, rfl⟩ := hs
  cases op with
  | queue data => exact hi.queue hop
  | nextSegment => exact hi.nextSegment
  | retransmitUnacknowledged => exact hi.retransmitUnacknowledged
  | onSegment header payload => exact hi.onSegment hop
  | probeWindow =>
    refine hi.of_sameSend h.session.probeWindow_sameSend rfl rfl (.inl ?_) fun _ hm => hm
    exact h.session.probeWindow_state
  | requestAck =>
    refine hi.of_sameSend h.session.requestAck_sameSend rfl rfl (.inl ?_) fun _ hm => hm
    exact h.session.requestAck_state
  | shutdownWrite => exact hi.shutdownWrite
  | takeReceived room =>
    exact hi.of_sameSend ⟨rfl, rfl, rfl, rfl, rfl, rfl, rfl, rfl⟩ rfl rfl (.inl rfl) fun _ hm => hm
  | close =>
    exact hi.of_sameSend ⟨rfl, rfl, rfl, rfl, rfl, rfl, rfl, rfl⟩ rfl rfl (.inr rfl) fun _ hm => hm

end

end SendInv

lemma Driven.sendInv {config : SessionConfig} {h : History} (hr : Driven config h) : SendInv config h := by
  induction hr with
  | refl => exact SendInv.start config
  | tail _ hs ih => exact ih.step hs

/-- The FIN is outstanding exactly while it is sent and not counted as acknowledged. -/
lemma MuxSession.Opened.finOutstanding_eq
    (h : s.Opened q A g) : (if s.finOutstanding then 1 else 0) = s.finSent - g := by
  have hflight := h.flight
  cases hf : s.sentFin with
  | none =>
    have e : s.finOutstanding = false := by simp [finOutstanding, hf]
    rw [e, finSent_none hf]
    simp
  | some x =>
    have hx := (h.finAt x hf).1
    have hone := finSent_some hf
    have e : s.finOutstanding = (s.sndUna != x + 1) := by simp [finOutstanding, hf]
    rw [e, hone, h.una, hx, serial_succ]
    rcases h.finAcked with hg | ⟨hg, _, hu⟩
    · have hne : serial s.base (A.length + g) ≠ serial s.base (A.length + s.unacknowledged.length + 1) := by
        intro heq
        have := serial_inj s.base heq (by omega) (by omega)
        omega
      rw [bne_iff_ne.mpr hne, hg]
      rfl
    · rw [hu, hg]
      simp

/-- The pointers differ by what is in flight. -/
lemma MuxSession.Opened.sndNxt_eq (h : s.Opened q A g) : s.sndNxt = s.sndUna + BitVec.ofNat 32
    (s.unacknowledged.length + if s.finOutstanding then 1 else 0) := by
  have hle : g ≤ s.finSent := by
    rcases h.finAcked with hg | ⟨hg, hf, _⟩ <;> omega
  rw [h.finOutstanding_eq, h.nxt, h.una, serial_add_ofNat]
  congr 1
  omega

end AppleUtils.Usbmux
