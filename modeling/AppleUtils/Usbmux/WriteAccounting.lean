import AppleUtils.Usbmux.LinkRules

/-! # What `write` says it wrote

`MuxLink::write` queues all its data before it waits, and when its timeout expires it returns how
much of the data has left the queue; the rest stays queued.  A caller that resends the rest
queues those bytes twice.  `write_accounting` says when the bytes handed to the session's queue
are the accepted prefixes: when no call with data runs into its deadline. -/

namespace AppleUtils.Usbmux

open Proc List Contract

variable {T : Type}

/-- The effects of routing: nothing is queued and no deadline is checked. -/
def LinkEffect.Routing : LinkEffect T → Prop
  | .queued _ _ | .remaining _ => False
  | _ => True

/-- The bytes queued for a port. -/
def queuedBytes (port : BitVec 16) (trace : List (LinkEffect T)) : Bytes :=
  trace.flatMap fun
    | .queued p data => if p = port then data else []
    | _ => []

lemma queuedBytes_append (port : BitVec 16) (t t' : List (LinkEffect T)) :
    queuedBytes port (t ++ t') = queuedBytes port t ++ queuedBytes port t' := by simp [queuedBytes]

lemma queuedBytes_eq_nil {port : BitVec 16} {trace : List (LinkEffect T)}
    (h : ∀ p data, .queued p data ∉ trace) : queuedBytes port trace = [] := by
  unfold queuedBytes
  rw [flatMap_eq_nil_iff]
  intro t ht
  cases t with
  | queued p data => exact absurd ht (h p data)
  | _ => rfl

/-- Nothing is queued, and every deadline check finds time left. -/
structure Calm (trace : List (LinkEffect T)) : Prop where
  unqueued : ∀ p data, .queued p data ∉ trace
  unexpired : .remaining 0 ∉ trace

namespace Calm

variable {t t' : List (LinkEffect T)}

lemma of_routing (h : ∀ e ∈ t, e.Routing) : Calm t :=
  ⟨fun _ _ hmem => h _ hmem, fun hmem => h _ hmem⟩

lemma append (h : Calm t) (h' : Calm t') : Calm (t ++ t') := by
  constructor
  · intro p data hmem
    exact (mem_append.mp hmem).elim (h.unqueued p data) (h'.unqueued p data)
  · intro hmem
    exact (mem_append.mp hmem).elim h.unexpired h'.unexpired

end Calm

/-- What is known of a write that returned `n` once its data was queued: either it was calm and
`n` is all that was wanted, or its last deadline check found no time left and `n` is less by what
was outstanding. -/
def Accounts (wanted n : ℕ) (trace : List (LinkEffect T)) : Prop :=
  (n = wanted ∧ Calm trace) ∨
    ((∀ p data, .queued p data ∉ trace) ∧ .remaining 0 ∈ trace ∧
      ∃ outstanding, 0 < outstanding ∧ n = wanted - min outstanding wanted)

lemma Accounts.after_calm {wanted n : ℕ} {t t' : List (LinkEffect T)} (h : Calm t)
    (h' : Accounts wanted n t') : Accounts wanted n (t ++ t') := by
  rcases h' with ⟨hn, hcalm⟩ | ⟨hun, hexp, hout⟩
  · exact .inl ⟨hn, h.append hcalm⟩
  · refine .inr ⟨?_, mem_append_right _ hexp, hout⟩
    intro p data hmem
    exact (mem_append.mp hmem).elim (h.unqueued p data) (hun p data)

variable [BulkTransport T]

lemma routing_routes : Routes
    (effects LinkEffect.Routing fun _ => True : Contract (MuxLink T) MuxError (LinkEffect T)) where
  counted := effects_modify _
  rejected := effects_modify _
  sequenced := effects_modify _
  restart _ := (Keeps.record fun _ _ _ => trivial).bind fun _ => effects_modify _
  fails _ := trivial
  flushes port := Flushes.of_effects (fun _ _ => trivial) (fun _ _ => trivial) (fun _ _ => trivial) port
  recv timeout := by
    rw [effects_keeps_iff]
    intro link
    exact ⟨fun _ ht => absurd ht not_mem_nil, fun _ _ => trivial⟩
  received _ := Keeps.record fun _ _ _ => trivial
  inFlush _ _ := trivial

variable [Clock T]

omit [BulkTransport T] [Clock T] in
lemma calm_of_keeps {α : Type} {x : LinkM T α}
    (h : (effects LinkEffect.Routing fun _ => True).Keeps x) : Yields (fun _ t => Calm t) x :=
  fun link _ _ => Calm.of_routing (effects_keeps_iff.mp h link).1

omit [BulkTransport T] [Clock T] in
/-- A calm step in front does not change what a turn says. -/
lemma yields_after_calm {α β : Type} {x : LinkM T α} {f : α → LinkM T β}
    {R : β → List (LinkEffect T) → Prop} (hR : ∀ b t t', Calm t → R b t' → R b (t ++ t'))
    (hx : Yields (fun _ t => Calm t) x) (hf : ∀ a, Yields R (f a)) : Yields R (x >>= f) := by
  refine hx.bind ?_
  intro a t ht link b h
  exact hR b t _ ht (hf a link b h)

/-- What a turn of a write decides. -/
def TurnAccounts (wanted : ℕ) (turn : Turn Unit ℕ) (trace : List (LinkEffect T)) : Prop :=
  match turn with
  | .again _ => Calm trace
  | .done n => Accounts wanted n trace

omit [BulkTransport T] [Clock T] in
lemma TurnAccounts.after_calm {wanted : ℕ} (turn : Turn Unit ℕ) (t t' : List (LinkEffect T))
    (h : Calm t) (h' : TurnAccounts wanted turn t') : TurnAccounts wanted turn (t ++ t') := by
  cases turn with
  | again _ => exact h.append h'
  | done n => exact Accounts.after_calm h h'

omit [BulkTransport T] in
lemma remainingUntil_yields (deadline : ℕ) :
    Yields (fun left t => t = [.remaining left]) (LinkM.remainingUntil deadline : LinkM T ℕ) := by
  rintro link left ⟨⟩
  rfl

lemma writeTurn_yields (port : BitVec 16) (wanted deadline turns : ℕ) :
    Yields (TurnAccounts wanted) (LinkM.writeTurn port wanted deadline turns : LinkM T _) := by
  have hcalm : Calm ([] : List (LinkEffect T)) := Calm.of_routing (fun _ h => absurd h not_mem_nil)
  have hsession : Yields (fun _ t => Calm t) (LinkM.requireSession port : LinkM T MuxSession) :=
    calm_of_keeps (routing_routes.requireSession port).keeps
  refine yields_after_calm TurnAccounts.after_calm hsession fun before => ?_
  refine yields_after_calm TurnAccounts.after_calm (calm_of_keeps (routing_routes.flush port)) fun _ => ?_
  refine yields_after_calm TurnAccounts.after_calm hsession fun session => ?_
  split
  · exact Yields.throw _
  · split
    · exact Yields.ret (.inl ⟨rfl, hcalm⟩)
    · rename_i hpending
      refine (remainingUntil_yields deadline).bind ?_
      rintro left t rfl
      split
      · rename_i hzero
        refine Yields.ret (.inr ⟨by simp, by simp [hzero], session.pendingLen, by omega, rfl⟩)
      · rename_i hleft
        have htick : Calm ([.remaining left] : List (LinkEffect T)) := ⟨by simp, by simpa using Ne.symm hleft⟩
        split
        · refine (calm_of_keeps (routing_routes.drainInbound turns)).bind fun _ t ht => ?_
          refine Yields.ret (htick.append ?_)
          simpa using ht
        · refine (calm_of_keeps (routing_routes.pump left)).bind fun _ t ht => ?_
          refine Yields.ret (htick.append ?_)
          simpa using ht

omit [BulkTransport T] [Clock T] in
lemma enqueue_yields (port : BitVec 16) (data : Bytes) :
    Yields (fun _ t => t = [.queued port data]) (LinkM.enqueue port data : LinkM T Unit) := by
  have hsession : Yields (fun _ t => t = []) (LinkM.requireSession port : LinkM T MuxSession) := by
    intro link session _
    rw [LinkM.requireSession_run]
  refine hsession.bind ?_
  rintro session t rfl
  split
  · exact Yields.throw _
  · rintro link _ ⟨⟩
    rfl

/-- A write that returned queued all its data first. -/
lemma write_yields (port : BitVec 16) (data : Bytes) (timeout turns : ℕ) :
    Yields (fun n t => ∃ rest, t = .queued port data :: rest ∧ Accounts data.length n rest)
      (LinkM.write port data timeout turns : LinkM T ℕ) := by
  refine (enqueue_yields port data).bind ?_
  rintro _ t rfl
  have hdeadline : Yields (fun _ t => t = []) (LinkM.startDeadline timeout : LinkM T ℕ) := by
    rintro link deadline ⟨⟩
    rfl
  refine hdeadline.bind ?_
  rintro deadline t rfl
  intro link n h
  refine ⟨_, rfl, ?_⟩
  refine Yields.loop (fun n t t' => Accounts.after_calm) ?_ turns () link n h
  intro _ link turn hturn
  have := writeTurn_yields port data.length deadline turns link turn hturn
  cases turn <;> exact this

variable (T) in
/-- A call of `write` on the session of `port` that returned a count. -/
structure WriteCall (port : BitVec 16) where
  link : MuxLink T
  data : Bytes
  (timeout turns returned : ℕ)
  ok : ((LinkM.write port data timeout turns).run link).outcome = .ok returned

namespace WriteCall

variable {port : BitVec 16}

def trace (c : WriteCall T port) : List (LinkEffect T) :=
  ((LinkM.write port c.data c.timeout c.turns).run c.link).trace

/-- What the call handed to `MuxSession::queue`. -/
def handedOver (c : WriteCall T port) : Bytes := queuedBytes port c.trace

/-- A deadline check of the call found its timeout expired. -/
def Expired (c : WriteCall T port) : Prop := .remaining 0 ∈ c.trace

lemma handedOver_eq (c : WriteCall T port) : c.handedOver = c.data := by
  obtain ⟨rest, htrace, hacc⟩ := write_yields port c.data c.timeout c.turns c.link c.returned c.ok
  have hun : ∀ p data, .queued p data ∉ rest := by
    rcases hacc with ⟨_, hcalm⟩ | ⟨hun, _⟩
    · exact hcalm.unqueued
    · exact hun
  unfold handedOver trace
  rw [htrace, ← singleton_append, queuedBytes_append, queuedBytes_eq_nil hun]
  simp [queuedBytes]

/-- The count is the length of the data exactly when a call with data did not expire. -/
lemma length_le_returned_iff (c : WriteCall T port) : c.data.length ≤ c.returned ↔ c.data = [] ∨ ¬ c.Expired := by
  obtain ⟨rest, htrace, hacc⟩ := write_yields port c.data c.timeout c.turns c.link c.returned c.ok
  have hexpired : c.Expired ↔ .remaining 0 ∈ rest := by
    unfold Expired trace
    simp [htrace]
  rw [hexpired]
  rcases hacc with ⟨hn, hcalm⟩ | ⟨_, hexp, outstanding, hpos, hn⟩
  · simp [hn, hcalm.unexpired]
  · rw [hn]
    have : c.data.length ≤ c.data.length - min outstanding c.data.length ↔ c.data = [] := by
      rw [← length_eq_zero_iff]
      omega
    simp [this, hexp]

lemma take_eq_iff (c : WriteCall T port) : c.data.take c.returned = c.data ↔ c.data = [] ∨ ¬ c.Expired := by
  rw [take_eq_self_iff, length_le_returned_iff]

end WriteCall

/-- **Write accounting.**  For calls of `write` on one session that returned counts, in whatever
states of the link they were made, the bytes handed to the session's queue are the prefixes the
counts accept exactly when no call with data found its timeout expired. -/
theorem write_accounting {port : BitVec 16} (calls : List (WriteCall T port)) :
    calls.flatMap WriteCall.handedOver = calls.flatMap (fun c => c.data.take c.returned) ↔
      ∀ c ∈ calls, c.data = [] ∨ ¬ c.Expired := by
  have hle (calls : List (WriteCall T port)) :
      (calls.flatMap fun c => c.data.take c.returned).length ≤ (calls.flatMap WriteCall.handedOver).length := by
    induction calls with
    | nil => simp
    | cons c calls ih =>
      simp only [flatMap_cons, length_append, c.handedOver_eq, length_take]
      omega
  induction calls with
  | nil => simp
  | cons c calls ih =>
    rw [flatMap_cons, flatMap_cons, forall_mem_cons, ← c.take_eq_iff, c.handedOver_eq]
    constructor
    · intro h
      -- the prefixes are no longer than the data, call by call
      have hlen := congrArg List.length h
      have hrest := hle calls
      have htake := c.data.length_take_le' c.returned
      simp only [length_append] at hlen
      obtain ⟨h1, h2⟩ := append_inj h (by omega)
      exact ⟨h1.symm, ih.mp h2⟩
    · rintro ⟨h1, h2⟩
      rw [h1, ih.mpr h2]

/-! A device that opened no window: the first call waits ten nanoseconds in vain, and so does the
call that resends its data. -/

def stalledScript : Script where
  inbox := [(VersionPacket.mk 1 0).encode,
    (Segment.mk ⟨62078, 49152, 7, 0xfc6ef360, flags.SYN_ACK, 0⟩ []).fromDevice]
  room := MAX_PACKET
  ticks := [0, 0, 0, 10, 20, 30]

def stalledLink : MuxLink Script :=
  (MuxLink.new stalledScript 0).after [.negotiate .resync 10 1, .beginOpen 62078, .pump 0]

def firstCall : WriteCall Script 49152 where
  link := stalledLink
  data := [1, 2, 3]
  timeout := 10
  turns := 1
  returned := 0
  ok := by decide

def secondCall : WriteCall Script 49152 where
  link := stalledLink.after [.write 49152 [1, 2, 3] 10 1]
  data := [1, 2, 3]
  timeout := 10
  turns := 1
  returned := 0
  ok := by decide

/-- Both calls report nothing written, and the session holds the data twice. -/
theorem stalled_write_queues_twice : [firstCall, secondCall].flatMap WriteCall.handedOver = [1, 2, 3, 1, 2, 3] ∧
    [firstCall, secondCall].flatMap (fun c => c.data.take c.returned) = [] ∧
    ((stalledLink.after [.write 49152 [1, 2, 3] 10 1, .write 49152 [1, 2, 3] 10 1]).sessions
      49152).map (fun s => (s.state, s.outbound)) = some (.established, [1, 2, 3, 1, 2, 3]) := by
  decide

end AppleUtils.Usbmux
