import AppleUtils.Usbmux.SendStream

/-! # What a receiver makes of the segments of a session

A receiver appends a payload only when its sequence number is the next one expected, and drops
everything else.  Fed with segments a session emitted, in any order and with any of them lost or
repeated, every byte it appends is a byte of the queued stream at a position that agrees modulo
`2 ^ 32` with the byte's own (`receive_modEq`), so below `2 ^ 32` queued bytes what it holds is a
prefix of the stream (`receive_prefix`).

Longer streams need the receiver to keep up with the session.  `Heard` runs a session and a
receiver together: a segment arrives when it is emitted or never, and the device acknowledges
only what the receiver holds.  Then the receiver holds a prefix of the stream whatever its length
(`Heard.keepsUp`), because less than `2 ^ 24` numbers are in flight. -/

namespace AppleUtils.Usbmux

open Serial List MuxSession

variable {segment : Segment} {segments : List Segment} {config : SessionConfig} {c : Conversation}

structure Receiver where
  next : BitVec 32
  got : Bytes

namespace Receiver

/-- The receiver that waits for the first byte of the stream named `b`. -/
def start (b : BitVec 32) : Receiver := ⟨b, []⟩

def accept (r : Receiver) (segment : Segment) : Receiver :=
  if segment.payload ≠ [] ∧ segment.header.sequence = r.next then
    ⟨r.next + BitVec.ofNat 32 segment.payload.length, r.got ++ segment.payload⟩
  else r

/-- The receiver names its next byte by how many it holds. -/
def Counts (b : BitVec 32) (r : Receiver) : Prop := r.next = serial b r.got.length

lemma Counts.accept {b : BitVec 32} {r : Receiver} (h : r.Counts b) (segment : Segment) :
    (r.accept segment).Counts b := by
  unfold Receiver.accept
  split
  · show r.next + BitVec.ofNat 32 segment.payload.length = serial b (r.got ++ segment.payload).length
    rw [h, serial_add_ofNat, length_append]
  · exact h

/-- Every byte held stands in the stream at a position that agrees modulo `2 ^ 32`. -/
def Agrees (q : Bytes) (r : Receiver) : Prop :=
  ∀ i, i < r.got.length → ∃ j, j ≡ i [MOD 2 ^ 32] ∧ j < q.length ∧ q[j]? = r.got[i]?

lemma Agrees.accept {b : BitVec 32} {q : Bytes} {r : Receiver} (hc : r.Counts b)
    (h : r.Agrees q) (hs : segment.payload ≠ [] → segment.Carries b q) : (r.accept segment).Agrees q := by
  unfold Receiver.accept
  split
  · rename_i hacc
    obtain ⟨k, hseq, hpay⟩ := hs hacc.1
    have hk : k ≡ r.got.length [MOD 2 ^ 32] := by
      rw [← serial_eq_serial_iff b, ← hseq, hacc.2]
      exact hc
    have hlen := congrArg List.length hpay
    rw [length_take, length_drop] at hlen
    intro i hi
    have hi : i < (r.got ++ segment.payload).length := hi
    rw [length_append] at hi
    show ∃ j, j ≡ i [MOD 2 ^ 32] ∧ j < q.length ∧ q[j]? = (r.got ++ segment.payload)[i]?
    rcases lt_or_ge i r.got.length with hlt | hge
    · rw [List.getElem?_append_left hlt]
      exact h i hlt
    · refine ⟨k + (i - r.got.length), ?_, by omega, ?_⟩
      · have := hk.add_right (i - r.got.length)
        rwa [Nat.add_sub_cancel' hge] at this
      · rw [List.getElem?_append_right hge, hpay, List.getElem?_take_of_lt (by omega), List.getElem?_drop]
  · exact h

end Receiver

variable {b : BitVec 32} {q : Bytes}

/-- Whatever arrives in whatever order, the receiver holds bytes of the stream at positions
that agree modulo `2 ^ 32`. -/
lemma receive_modEq (hs : ∀ segment ∈ segments, segment.payload ≠ [] → segment.Carries b q) :
    ∀ {r : Receiver}, r.Counts b → r.Agrees q →
      (segments.foldl Receiver.accept r).Counts b ∧ (segments.foldl Receiver.accept r).Agrees q := by
  induction segments with
  | nil => exact fun hc ha => ⟨hc, ha⟩
  | cons segment segments ih =>
    intro r hc ha
    exact ih (fun x hx => hs x (mem_cons_of_mem _ hx)) (hc.accept segment)
      (ha.accept hc (hs segment mem_cons_self))

/-- A receiver that holds a prefix of the stream still does after a segment whose position is
less than `2 ^ 32` away from its own. -/
lemma Receiver.accept_isPrefix {r : Receiver} (hc : r.Counts b) (hp : r.got <+: q)
    {k : ℕ} (hseq : segment.header.sequence = serial b k)
    (hpay : segment.payload = (q.drop k).take segment.payload.length)
    (hlo : k < r.got.length + 2 ^ 32) (hhi : r.got.length < k + 2 ^ 32) : (r.accept segment).got <+: q := by
  unfold Receiver.accept
  split
  · rename_i hacc
    have hk : k = r.got.length := by
      refine serial_inj b ?_ hlo hhi
      rw [← hseq, hacc.2]
      exact hc
    show r.got ++ segment.payload <+: q
    obtain ⟨rest, rfl⟩ := hp
    rw [hk, drop_left] at hpay
    rw [hpay, prefix_append_right_inj]
    exact take_prefix _ _
  · exact hp

/-- Below `2 ^ 32` queued bytes a receiver holds a prefix of the stream, whatever arrives in
whatever order. -/
lemma receive_prefix (hq : q.length < 2 ^ 32)
    (hs : ∀ segment ∈ segments, segment.payload ≠ [] → segment.Carries b q) :
    ∀ {r : Receiver}, r.Counts b → r.got <+: q → (segments.foldl Receiver.accept r).got <+: q := by
  induction segments with
  | nil => exact fun _ hp => hp
  | cons segment segments ih =>
    intro r hc hp
    refine ih (fun x hx => hs x (mem_cons_of_mem _ hx)) (hc.accept segment) ?_
    by_cases hne : segment.payload = []
    · have e : r.accept segment = r := by simp [Receiver.accept, hne]
      rw [e]
      exact hp
    · obtain ⟨k, hseq, hpay⟩ := hs segment mem_cons_self hne
      have hlen := congrArg List.length hpay
      have hpos := length_pos_iff.mpr hne
      have hgot := hp.length_le
      rw [length_take, length_drop] at hlen
      exact r.accept_isPrefix hc hp hseq hpay (by omega) (by omega)

/-! ### A receiver that keeps up -/

/-- A session and the receiver its segments go to. -/
structure Conversation where
  history : History
  receiver : Receiver

/-- The segment an operation emits. -/
def SessionOp.emits (s : MuxSession) : SessionOp → Option Segment
  | .nextSegment => s.nextSegment.1
  | .retransmitUnacknowledged => s.retransmitUnacknowledged
  | _ => none

/-- What was emitted arrives at the receiver, or is lost. -/
def Receiver.hear (r : Receiver) (arrives : Bool) : Option Segment → Receiver
  | some segment => if arrives then r.accept segment else r
  | none => r

lemma Receiver.hear_empty (r : Receiver) (arrives : Bool)
    (hp : segment.payload = []) : r.hear arrives (some segment) = r := by
  simp [Receiver.hear, Receiver.accept, hp]

/-- The device acknowledges only what the receiver holds, and the FIN only when it is the next
number the receiver expects. -/
def Conversation.Honest (c : Conversation) : SessionOp → Prop
  | .onSegment header _ => header.hasAck = true → c.history.session.state = .established →
      (header.acknowledgement - c.history.session.sndUna).toNat ≤
        (c.receiver.next - c.history.session.sndUna).toNat ∨
      c.history.session.sentFin = some c.receiver.next
  | _ => True

/-- One operation of the session; what it emits arrives at once or is lost. -/
def Conversation.Step (c c' : Conversation) : Prop :=
  ∃ (op : SessionOp) (arrives : Bool), op.Allowed c.history.session ∧ c.Honest op ∧
    c' = ⟨c.history.step op, c.receiver.hear arrives (op.emits c.history.session)⟩

/-- The conversations of the sessions built by `MuxSession::open`. -/
def Heard (config : SessionConfig) : Conversation → Prop :=
  Relation.ReflTransGen Conversation.Step
    ⟨History.start (MuxSession.open config).1, Receiver.start (config.initialSequence + 1)⟩

lemma Heard.driven (h : Heard config c) : Driven config c.history := by
  induction h with
  | refl => exact .refl
  | tail _ hs ih =>
    obtain ⟨op, _, hop, _, rfl⟩ := hs
    exact ih.tail ⟨op, hop, rfl⟩

/-- The receiver holds a prefix of the stream that ends between the two pointers. -/
structure KeepsUp (b : BitVec 32) (h : History) (r : Receiver) : Prop where
  counts : r.Counts b
  holds : r.got <+: h.queued
  behind : r.got.length + h.session.outbound.length ≤ h.queued.length
  ahead : h.queued.length ≤
    r.got.length + h.session.unacknowledged.length + h.session.outbound.length

namespace KeepsUp

variable {h h' : History} {r : Receiver}

section

variable (hk : KeepsUp b h r)

include hk

lemma of_same (hq : h'.queued = h.queued) (hu : h'.session.unacknowledged = h.session.unacknowledged)
    (ho : h'.session.outbound = h.session.outbound) : KeepsUp b h' r := by
  obtain ⟨hc, hp, hlo, hhi⟩ := hk
  exact ⟨hc, by rwa [hq], by rwa [hq, ho], by rwa [hq, hu, ho]⟩

lemma queue (data : Bytes) : KeepsUp b (h.step (.queue data)) r := by
  obtain ⟨hc, hp, hlo, hhi⟩ := hk
  refine ⟨hc, hp.trans (prefix_append _ _), ?_, ?_⟩
  · show r.got.length + (h.session.outbound ++ data).length ≤ (h.queued ++ data).length
    simp only [length_append]
    omega
  · show (h.queued ++ data).length ≤
      r.got.length + h.session.unacknowledged.length + (h.session.outbound ++ data).length
    simp only [length_append]
    omega

/-- A segment emitted between the pointers and accepted keeps the receiver in step with a
session that has sent at least as far. -/
lemma accept {k : ℕ} (hseq : segment.header.sequence = serial b k)
    (hpay : segment.payload = (h.queued.drop k).take segment.payload.length)
    (hlo : k < r.got.length + 2 ^ 32) (hhi : r.got.length < k + 2 ^ 32) (hq : h'.queued = h.queued)
    (hsum : h'.session.unacknowledged.length + h'.session.outbound.length =
      h.session.unacknowledged.length + h.session.outbound.length)
    (hout : h'.session.outbound.length ≤ h.session.outbound.length)
    (hend : k + segment.payload.length + h'.session.outbound.length ≤ h.queued.length) :
    KeepsUp b h' (r.accept segment) := by
  obtain ⟨hc, hp, hbehind, hahead⟩ := hk
  refine ⟨hc.accept segment, ?_, ?_, ?_⟩
  · rw [hq]
    exact r.accept_isPrefix hc hp hseq hpay hlo hhi
  · rw [hq]
    unfold Receiver.accept
    split
    · rename_i hacc
      have hkr : k = r.got.length := by
        refine serial_inj b ?_ hlo hhi
        rw [← hseq, hacc.2]
        exact hc
      simp only [length_append]
      omega
    · omega
  · rw [hq]
    unfold Receiver.accept
    split
    · simp only [length_append]
      omega
    · omega

/-- Sending without arriving only moves bytes towards the retransmission queue. -/
lemma of_sent (hq : h'.queued = h.queued) (hsum : h'.session.unacknowledged.length + h'.session.outbound.length =
    h.session.unacknowledged.length + h.session.outbound.length)
  (hout : h'.session.outbound.length ≤ h.session.outbound.length) : KeepsUp b h' r := by
  obtain ⟨hc, hp, hbehind, hahead⟩ := hk
  refine ⟨hc, by rwa [hq], ?_, ?_⟩ <;> rw [hq] <;> omega

end

section

variable (hk : KeepsUp (config.initialSequence + 1) h r)

include hk

lemma nextSegment (hi : SendInv config h)
    (arrives : Bool) : KeepsUp (config.initialSequence + 1) (h.step .nextSegment)
      (r.hear arrives h.session.nextSegment.1) := by
  have hbase : h.session.base = config.initialSequence + 1 := by rw [base, hi.sameConfig]
  have hsess : (h.step .nextSegment).session = h.session.nextSegment.2 := rfl
  rcases h.session.nextSegment_cases with ⟨hst, _, hne, e⟩ | ⟨_, _, _, _, _, e⟩ | ⟨_, _, e⟩ | e
  · rcases hi.side with hu | ⟨A, g, ho, _⟩
    · exact absurd hst hu.state
    · have hf := finSent_none (ho.sentFin_none hne)
      have hlen := congrArg List.length ho.split
      simp only [length_append] at hlen
      have htake : h.session.nextTake ≤ h.session.outbound.length := by
        unfold nextTake; omega
      have hsum : (h.step .nextSegment).session.unacknowledged.length +
          (h.step .nextSegment).session.outbound.length =
          h.session.unacknowledged.length + h.session.outbound.length := by
        rw [hsess, e]
        show (h.session.unacknowledged ++ h.session.outbound.take h.session.nextTake).length +
          (h.session.outbound.drop h.session.nextTake).length = _
        simp only [length_append, length_take, length_drop]
        omega
      have hout : (h.step .nextSegment).session.outbound.length =
          h.session.outbound.length - h.session.nextTake := by
        rw [hsess, e]
        exact length_drop
      have hpay : h.session.sendData.1.payload.length = h.session.nextTake := by
        show (h.session.outbound.take h.session.nextTake).length = _
        rw [length_take]
        omega
      rw [e]
      cases arrives with
      | false => exact hk.of_sent rfl hsum (by omega)
      | true =>
        have hbehind := hk.behind
        have hahead := hk.ahead
        have hflight := ho.flight
        have hg := ho.acked_le_one
        have hseq : h.session.sendData.1.header.sequence =
            serial (config.initialSequence + 1) (A.length + h.session.unacknowledged.length) := by
          show h.session.sndNxt = _
          rw [ho.nxt, hf, add_zero, hbase]
        refine hk.accept hseq ?_ (by omega) (by omega) rfl hsum (by omega) (by omega)
        show h.session.outbound.take _ = (h.queued.drop _).take _
        rw [ho.split, ← length_append, drop_left, hpay]
  · rw [e, r.hear_empty arrives rfl]
    exact hk.of_same rfl (by rw [hsess, e]; rfl) (by rw [hsess, e]; rfl)
  · rw [e, r.hear_empty arrives rfl]
    exact hk.of_same rfl (by rw [hsess, e]) (by rw [hsess, e])
  · rw [e]
    exact hk.of_same rfl (by rw [hsess, e]) (by rw [hsess, e])

lemma retransmitUnacknowledged
    (hi : SendInv config h) (arrives : Bool) : KeepsUp (config.initialSequence + 1) (h.step .retransmitUnacknowledged)
      (r.hear arrives h.session.retransmitUnacknowledged) := by
  have hbase : h.session.base = config.initialSequence + 1 := by rw [base, hi.sameConfig]
  have hsame : KeepsUp (config.initialSequence + 1) (h.step .retransmitUnacknowledged) r :=
    hk.of_same rfl rfl rfl
  cases hs : h.session.retransmitUnacknowledged with
  | none => exact hsame
  | some segment =>
    by_cases hne : segment.payload = []
    · rwa [r.hear_empty arrives hne]
    · cases arrives with
      | false => exact hsame
      | true =>
        rcases hi.side with hu | ⟨A, g, ho, _⟩
        · exact absurd hs (by simp [MuxSession.retransmitUnacknowledged, hu.state])
        · obtain ⟨hseq, n, hpay⟩ := ho.retransmit_eq hs hne
          have hlen := congrArg List.length ho.split
          simp only [length_append] at hlen
          have hplen : segment.payload.length ≤ h.session.unacknowledged.length := by
            rw [hpay, length_take]
            omega
          have hbehind := hk.behind
          have hahead := hk.ahead
          have hflight := ho.flight
          have hg := ho.acked_le_one
          rw [hbase] at hseq
          have hout : (h.step .retransmitUnacknowledged).session = h.session := rfl
          refine hk.accept hseq ?_ (by omega) (by omega) rfl rfl (by rw [hout])
            (by rw [hout]; omega)
          rw [hpay, ho.split, append_assoc, drop_left, length_take, take_append_of_le_length (by omega)]
          exact take_eq_take_min

/-- An honest acknowledgement does not pass what the receiver holds. -/
lemma onSegment (hi : SendInv config h)
    {header : TcpHeader} {payload : Bytes} (hon : Conversation.Honest ⟨h, r⟩ (.onSegment header payload)) :
    KeepsUp (config.initialSequence + 1) (h.step (.onSegment header payload)) r := by
  have hsess : (h.step (.onSegment header payload)).session = (h.session.onSegment header payload).2 := rfl
  rcases h.session.onSegment_cases header payload with
    ⟨_, event, _, e⟩ | ⟨_, err, e⟩ | ⟨_, hst, hack, hexp, e⟩ | ⟨_, hst, e⟩
  · exact hk.of_same rfl (by rw [hsess, e]; rfl) (by rw [hsess, e]; rfl)
  · exact hk.of_same rfl (by rw [hsess, e]; rfl) (by rw [hsess, e]; rfl)
  · exact hk.of_same rfl (by rw [hsess, e]; rfl) (by rw [hsess, e]; rfl)
  · have hsame := acceptPayload_sameSend (h.session.counted.advance header)
      header payload
    rcases h.session.counted.advance_queues header with ⟨hu, ho⟩ | ⟨hack, hu, ho⟩
    · refine hk.of_same rfl ?_ ?_
      · rw [hsess, e, hsame.unacknowledged, hu]; rfl
      · rw [hsess, e, hsame.outbound, ho]; rfl
    · rcases hi.side with hun | ⟨A, g, hop', _⟩
      · exact absurd hst hun.state
      · obtain ⟨hc, hp, hbehind, hahead⟩ := hk
        have hlen := congrArg List.length hop'.split
        simp only [length_append] at hlen
        have hflight := hop'.flight
        have hg := hop'.acked_le_one
        have hbase : h.session.base = config.initialSequence + 1 := by rw [base, hi.sameConfig]
        have hu' : (h.step (.onSegment header payload)).session.unacknowledged =
            h.session.unacknowledged.drop (min (header.acknowledgement - h.session.sndUna).toNat
              h.session.unacknowledged.length) := by
          rw [hsess, e, hsame.unacknowledged, hu]; rfl
        have ho' : (h.step (.onSegment header payload)).session.outbound = h.session.outbound := by
          rw [hsess, e, hsame.outbound, ho]; rfl
        refine ⟨hc, hp, by rw [ho']; exact hbehind, ?_⟩
        rw [hu', ho', length_drop]
        show h.queued.length ≤ _
        -- How much left the retransmission queue is at most what the receiver holds of it.
        have hn : min (header.acknowledgement - h.session.sndUna).toNat
            h.session.unacknowledged.length ≤ r.got.length - A.length := by
          rcases hop'.finAcked with hg0 | ⟨_, _, hnil⟩
          · rcases hon hack hst with hle | hfin
            · have hnext : (r.next - h.session.sndUna).toNat = r.got.length - A.length := by
                rw [hc, hop'.una, hg0, hbase, add_zero]
                exact toNat_serial_sub _ (by omega) (by omega)
              have hle : (header.acknowledgement - h.session.sndUna).toNat ≤
                  (r.next - h.session.sndUna).toNat := hle
              omega
            · have hfin : r.next = _ := (hop'.finAt r.next hfin).1
              rw [hc, hbase] at hfin
              have := serial_inj _ hfin (by omega) (by omega)
              omega
          · rw [hnil]
            simp
        omega

end

end KeepsUp

/-- In every conversation the receiver holds a prefix of the stream. -/
lemma Heard.keepsUp (hr : Heard config c) : KeepsUp (config.initialSequence + 1) c.history c.receiver := by
  induction hr with
  | refl => exact ⟨(serial_zero _).symm, nil_prefix, le_refl _, le_refl _⟩
  | @tail c c' hr hs ih =>
    have hi := (Heard.driven hr).sendInv
    obtain ⟨op, arrives, hop, hon, rfl⟩ := hs
    cases op with
    | queue data => exact ih.queue data
    | nextSegment => exact ih.nextSegment hi arrives
    | retransmitUnacknowledged => exact ih.retransmitUnacknowledged hi arrives
    | onSegment header payload => exact ih.onSegment hi hon
    | probeWindow =>
      have e := c.history.session.probeWindow_sameSend
      exact ih.of_same rfl e.unacknowledged e.outbound
    | requestAck =>
      have e := c.history.session.requestAck_sameSend
      exact ih.of_same rfl e.unacknowledged e.outbound
    | shutdownWrite =>
      have e : (c.history.step .shutdownWrite).session = c.history.session.shutdownWrite.2 := rfl
      rcases c.history.session.shutdownWrite_cases with e' | e'
      · exact ih.of_same rfl (by rw [e, e']) (by rw [e, e'])
      · exact ih.of_same rfl (by rw [e, e']) (by rw [e, e'])
    | takeReceived room => exact ih.of_same rfl rfl rfl
    | close => exact ih.of_same rfl rfl rfl

/-! ### Conservation -/

/-- **Send-side conservation.**  In every run, what was queued is what was acknowledged, what is
kept for retransmission and what is not yet sent, in this order; the pointers of an established
session differ by what is in flight; every segment with a payload carries the queued bytes at the
position its sequence number names; and a receiver that appends a payload only when its number is
the next one expected holds bytes of the stream at their own positions. -/
theorem send_conservation {config : SessionConfig} {h : History} (hr : Driven config h) :
    (∃ A, h.queued = A ++ h.session.unacknowledged ++ h.session.outbound) ∧
    (h.session.state = .established → h.session.sndNxt = h.session.sndUna +
      BitVec.ofNat 32 (h.session.unacknowledged.length + if h.session.finOutstanding then 1 else 0)) ∧
    (∀ segment ∈ h.emitted, segment.payload ≠ [] →
      ∃ k, k ≡ (segment.header.sequence - (config.initialSequence + 1)).toNat [MOD 2 ^ 32] ∧
        segment.payload = (h.queued.drop k).take segment.payload.length) ∧
    (∀ segments : List Segment, (∀ segment ∈ segments, segment ∈ h.emitted) →
      let r := segments.foldl Receiver.accept (Receiver.start (config.initialSequence + 1))
      (∀ i, i < r.got.length → ∃ j, j ≡ i [MOD 2 ^ 32] ∧ j < h.queued.length ∧ h.queued[j]? = r.got[i]?) ∧
      (h.queued.length < 2 ^ 32 → r.got <+: h.queued)) ∧
    (∀ r, Heard config ⟨h, r⟩ → r.got <+: h.queued) := by
  have hi := hr.sendInv
  have hcounts : (Receiver.start (config.initialSequence + 1)).Counts (config.initialSequence + 1) :=
    (serial_zero _).symm
  refine ⟨?_, ?_, ?_, ?_, ?_⟩
  · rcases hi.side with hu | ⟨A, g, ho, _⟩
    · refine ⟨[], ?_⟩
      rw [hu.queued, hu.unacknowledged, hu.outbound]; rfl
    · exact ⟨A, ho.split⟩
  · intro hst
    rcases hi.side with hu | ⟨A, g, ho, _⟩
    · exact absurd hst hu.state
    · exact ho.sndNxt_eq
  · intro segment hm hp
    obtain ⟨k, hseq, hpay⟩ := hi.emitted segment hm hp
    refine ⟨k, ?_, hpay⟩
    rw [hseq, serial, add_sub_cancel_left, BitVec.toNat_ofNat]
    exact (Nat.mod_modEq _ _).symm
  · intro segments hm
    have hcar : ∀ segment ∈ segments, segment.payload ≠ [] →
        segment.Carries (config.initialSequence + 1) h.queued :=
      fun segment hs hp => hi.emitted segment (hm segment hs) hp
    refine ⟨(receive_modEq hcar hcounts fun i hi => absurd hi (Nat.not_lt_zero i)).2, ?_⟩
    exact fun hq => receive_prefix hq hcar hcounts nil_prefix
  · exact fun r hh => (Heard.keepsUp hh).holds

/-! ### A run across the wrap of the sequence space -/

/-- A session whose first byte is named `0xffffffff`, with segments of two bytes. -/
def wrapConfig : SessionConfig := ⟨49152, 62078, 0xfffffffe, 2, 65536⟩

def wrapSynAck : TcpHeader := ⟨62078, 49152, 7, 0xffffffff, flags.SYN_ACK, 65536⟩

/-- The device acknowledges the first byte of the first segment only. -/
def wrapAck : TcpHeader := ⟨62078, 49152, 8, 0, flags.ACK, 65536⟩

/-- Handshake, three bytes queued, one segment sent, its first byte acknowledged, the rest
retransmitted. -/
def wrapOps : List SessionOp :=
  [.onSegment wrapSynAck [], .queue [1, 2, 3], .nextSegment, .onSegment wrapAck [], .retransmitUnacknowledged]

def wrapHistory : History := wrapOps.foldl History.step (History.start (MuxSession.open wrapConfig).1)

lemma wrapHistory_driven : Driven wrapConfig wrapHistory := by
  have h1 : wrapSynAck.OffWire := ⟨wrapSynAck.headerBytes, by decide⟩
  have h2 : wrapAck.OffWire := ⟨wrapAck.headerBytes, by decide⟩
  refine Driven.foldl .refl ⟨fun _ => ⟨h1, ?_⟩, ?_, trivial, fun _ => ⟨h2, ?_⟩, trivial, trivial⟩
  · intro a ha
    cases ha
  · show canWrite _ = true
    decide
  · intro a ha
    obtain rfl := mem_singleton.mp ha
    show BitVec.toNat _ ≤ BitVec.toNat _
    decide

theorem wrapHistory_conserved :
    wrapHistory.emitted.map (fun s => (s.header.sequence, s.payload)) = [(0xffffffff, [1, 2]), (0, [2])] ∧
    (∃ A, wrapHistory.queued = A ++ wrapHistory.session.unacknowledged ++ wrapHistory.session.outbound) ∧
    wrapHistory.session.sndNxt = wrapHistory.session.sndUna + BitVec.ofNat 32
      (wrapHistory.session.unacknowledged.length + if wrapHistory.session.finOutstanding then 1 else 0) :=
  ⟨by decide, (send_conservation wrapHistory_driven).1, (send_conservation wrapHistory_driven).2.1 rfl⟩

end AppleUtils.Usbmux
