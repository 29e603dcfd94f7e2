import AppleUtils.Bridge.Protocol

/-! # Bridge framing and the pieces of a stream

The stream format as a framing, the assembler against it, and what `encode_record` writes as a
stream in that format.

A push that completes records and then meets a malformed header returns the error alone: the
records it completed are gone, while the same bytes in two pushes return them first.
`pushAll_split` says for which pieces nothing is lost; `malformed_loses_record` is a stream for
which two ways to cut it differ. -/

namespace AppleUtils.Bridge

open Bytes Checks Framing List

variable {decoders : SignedDecoders} {s : Bytes} {header : RecordHeader}

/-! ### The stream format -/

/-- What the assembler checks in a header besides decoding it. -/
def checkLength (header : RecordHeader) : Except BridgeError Unit := do
  failIf (header.kind = .apNonce ∧ header.payloadLen.toNat ≠ 32)
    (invalidData "AP_NONCE payload must be exactly 32 bytes")
  failIf (header.kind = .sepNonce ∧ header.payloadLen.toNat ≠ 20)
    (invalidData "SEP_NONCE payload must be exactly 20 bytes")
  failIf (header.kind.payloadLimit < header.payloadLen.toNat)
    (invalidData (overLimit header.kind header.payloadLen.toNat))

/-- A header that may start a record. -/
def readHeader (bytes : Bytes) : Except BridgeError RecordHeader := do
  let header ← RecordHeader.decode bytes
  checkLength header
  pure header

/-- The front of a stream: a record, a malformed header, or too little to say. -/
def nextRecord (s : Bytes) : Next RawRecord BridgeError :=
  if s.length < HEADER_LEN then .more
  else
    match readHeader (s.take HEADER_LEN) with
    | .error e => .bad e
    | .ok header =>
      if s.length < HEADER_LEN + header.payloadLen.toNat then .more
      else .got ⟨header, (s.drop HEADER_LEN).take header.payloadLen.toNat⟩
        (HEADER_LEN + header.payloadLen.toNat)

lemma nextRecord_got {r : RawRecord} {n : ℕ} :
    nextRecord s = .got r n ↔ readHeader (s.take HEADER_LEN) = .ok r.header ∧
      n = HEADER_LEN + r.header.payloadLen.toNat ∧ n ≤ s.length ∧
        r.payload = (s.drop HEADER_LEN).take r.header.payloadLen.toNat := by
  unfold nextRecord
  split
  · rename_i hshort
    simp only [reduceCtorEq, false_iff, not_and]
    omega
  · cases readHeader (s.take HEADER_LEN) with
    | error e => simp
    | ok header =>
      obtain ⟨header', payload⟩ := r
      simp only [Except.ok.injEq]
      split
      · rename_i hshort
        simp only [reduceCtorEq, false_iff, not_and]
        rintro rfl rfl hle
        omega
      · simp only [Next.got.injEq, RawRecord.mk.injEq]
        constructor
        · rintro ⟨⟨rfl, rfl⟩, rfl⟩
          exact ⟨rfl, rfl, by omega, rfl⟩
        · rintro ⟨rfl, rfl, -, rfl⟩
          exact ⟨⟨rfl, rfl⟩, rfl⟩

lemma nextRecord_bad {e : BridgeError} :
    nextRecord s = .bad e ↔ HEADER_LEN ≤ s.length ∧ readHeader (s.take HEADER_LEN) = .error e := by
  unfold nextRecord
  split
  · rename_i hshort
    simp only [reduceCtorEq, false_iff, not_and]
    omega
  · rename_i hlong
    cases readHeader (s.take HEADER_LEN) with
    | error e' => simp [Nat.le_of_not_lt hlong]
    | ok header =>
      dsimp only
      split <;> simp

/-- The Restore Bridge stream format. -/
def framing : Framing Byte RawRecord BridgeError where
  next := nextRecord
  nil := rfl
  got_size := by
    intro s r n hgot
    obtain ⟨-, hn, hle, -⟩ := nextRecord_got.mp hgot
    have hheader : HEADER_LEN = 40 := rfl
    exact ⟨by omega, hle⟩
  got_append := by
    intro s r n t hgot
    obtain ⟨hheader, hn, hle, hpayload⟩ := nextRecord_got.mp hgot
    refine nextRecord_got.mpr ⟨?_, hn, ?_, ?_⟩
    · rwa [take_append_of_le_length (by omega)]
    · rw [length_append]
      omega
    · rw [drop_append_of_le_length (by omega), take_append_of_le_length, hpayload]
      rw [length_drop]
      omega
  bad_append := by
    intro s e t hbad
    obtain ⟨hle, hheader⟩ := nextRecord_bad.mp hbad
    refine nextRecord_bad.mpr ⟨?_, ?_⟩
    · rw [length_append]
      omega
    · rwa [take_append_of_le_length hle]

/-! ### The assembler reads the format -/

namespace FrameAssembler

variable {a : FrameAssembler}

section

variable (a : FrameAssembler)

lemma compact_available : a.compact.available = a.available := by
  unfold compact
  split
  · rfl
  · split
    · rename_i hall
      unfold available
      rw [hall, drop_length]
      rfl
    · split <;> rfl

lemma extend_available (bytes : Bytes) : (a.extend bytes).available = a.available ++ bytes :=
  drop_append_of_le_length a.inBuffer

lemma skip_available (total : ℕ) (h : ¬ a.available.length < total) :
    (a.skip total h).available = a.available.drop total := by
  unfold available skip
  rw [drop_drop]

/-- `try_take` looks at the front of what is available. -/
lemma tryTake_spec : match nextRecord a.available with
    | .more => a.tryTake = (.ok none, a)
    | .bad e => a.tryTake = (.error e, a)
    | .got r n => ∃ a', a.tryTake = (.ok (some r), a') ∧ a'.available = a.available.drop n := by
  unfold nextRecord tryTake
  by_cases hshort : a.available.length < HEADER_LEN
  · simp only [if_pos hshort]
  · simp only [if_neg hshort, readHeader]
    cases RecordHeader.decode (a.available.take HEADER_LEN) with
    | error e => rfl
    | ok header =>
      simp only [checkLength, failIf, bind, Except.bind, pure, Except.pure]
      -- One case for each check of the header, then whether the payload is there.
      by_cases hap : header.kind = .apNonce ∧ header.payloadLen.toNat ≠ 32
      · simp only [if_pos hap]
      by_cases hsep : header.kind = .sepNonce ∧ header.payloadLen.toNat ≠ 20
      · simp only [if_neg hap, if_pos hsep]
      by_cases hlimit : header.kind.payloadLimit < header.payloadLen.toNat
      · simp only [if_neg hap, if_neg hsep, if_pos hlimit]
      by_cases hwait : a.available.length < HEADER_LEN + header.payloadLen.toNat
      · simp only [if_neg hap, if_neg hsep, if_neg hlimit, if_pos hwait, dif_pos hwait]
      · simp only [if_neg hap, if_neg hsep, if_neg hlimit, if_neg hwait, dif_neg hwait]
        exact ⟨_, rfl, by rw [compact_available, skip_available]⟩

end

/-- With a turn to spare, the loop reads all the records and stops where the format stops. -/
lemma takeAll_spec {turns : ℕ} (frames : List RawRecord) (a : FrameAssembler)
    (hturns : a.available.length < turns) :
    (takeAll turns frames a).1 = (match framing.next (framing.rest a.available) with
          | .bad e => .error e
          | _ => .ok (frames ++ framing.records a.available)) ∧
      (takeAll turns frames a).2.available = framing.rest a.available := by
  induction turns generalizing frames a with
  | zero => omega
  | succ turns ih =>
    have hstep := tryTake_spec a
    unfold takeAll
    cases hnext : nextRecord a.available with
    | more =>
      simp only [hnext] at hstep
      have hstop : framing.Stops a.available := .of_more hnext
      have hmore : framing.next a.available = .more := hnext
      rw [hstep, rest_stop hstop, records_stop hstop, hmore, append_nil]
      exact ⟨rfl, rfl⟩
    | bad e =>
      simp only [hnext] at hstep
      have hstop : framing.Stops a.available := .of_bad hnext
      have hbad : framing.next a.available = .bad e := hnext
      rw [hstep, rest_stop hstop, hbad]
      exact ⟨rfl, rfl⟩
    | got r n =>
      simp only [hnext] at hstep
      obtain ⟨a', htake, havailable⟩ := hstep
      have hgot : framing.next a.available = .got r n := hnext
      have hsize := framing.got_size hgot
      have hlength : a'.available.length < turns := by
        rw [havailable, length_drop]
        omega
      have hrest := ih (frames ++ [r]) a' hlength
      rw [havailable] at hrest
      rw [htake, rest_got hgot, records_got hgot]
      dsimp only
      rw [append_assoc, singleton_append] at hrest
      exact hrest

lemma push_spec (a : FrameAssembler) (bytes : Bytes) :
    (a.push bytes).1 = (match framing.next (framing.rest (a.available ++ bytes)) with
          | .bad e => .error e
          | _ => .ok (framing.records (a.available ++ bytes))) ∧
      (a.push bytes).2.available = framing.rest (a.available ++ bytes) := by
  have h := takeAll_spec [] (a.extend bytes) (Nat.lt_succ_self _)
  rw [extend_available, nil_append] at h
  unfold push
  rw [extend_available]
  exact h

/-- The assembler is a reader of the format fed in chunks. -/
lemma pushAll_eq (a : FrameAssembler) (chunks : List Bytes) :
    a.pushAll chunks = framing.pushes a.available chunks := by
  induction chunks generalizing a with
  | nil => rfl
  | cons chunk chunks ih =>
    obtain ⟨hresult, hrest⟩ := push_spec a chunk
    unfold pushAll
    cases hpush : a.push chunk with
    | mk result a' =>
    rw [hpush] at hresult hrest
    dsimp only at hresult hrest
    rcases (rest_stops (F := framing) (a.available ++ chunk)).cases with hmore | ⟨e, hbad⟩
    · rw [hmore] at hresult
      rw [hresult, pushes_cons_more hmore, ← hrest, ← ih]
    · rw [hbad] at hresult
      rw [hresult, pushes_cons_bad hbad]

end FrameAssembler

/-! ### What `encode_record` writes -/

lemma validateRecordHeader_ok
    (h : validateRecordHeader header = .ok ()) : header.version = VERSION ∧ header.flags = 0 := by
  unfold validateRecordHeader at h
  obtain ⟨_, hversion, h⟩ := bind_eq_ok.mp h
  obtain ⟨_, hflags, -⟩ := bind_eq_ok.mp h
  exact ⟨not_not.mp (failIf_eq_ok.mp hversion), not_not.mp (failIf_eq_ok.mp hflags)⟩

/-- The lengths of the nonces are checked on both sides. -/
lemma validateRecordPayload_ok {kind : RecordKind} {payload : Bytes}
    (h : validateRecordPayload decoders kind payload = .ok ()) :
    (kind = .apNonce → payload.length = 32) ∧ (kind = .sepNonce → payload.length = 20) := by
  constructor
  · rintro rfl
    exact not_not.mp (failIf_eq_ok.mp h)
  · rintro rfl
    exact not_not.mp (failIf_eq_ok.mp h)

/-- The front of an encoding, whatever follows it, is the record. -/
lemma next_encodeRecord {payload bytes : Bytes}
    (h : encodeRecord decoders header payload = .ok bytes) (t : Bytes) :
    framing.next (bytes ++ t) = .got (RawRecord.sized header payload) bytes.length := by
  unfold encodeRecord at h
  obtain ⟨_, hheader, h⟩ := bind_eq_ok.mp h
  obtain ⟨_, hsize, h⟩ := bind_eq_ok.mp h
  obtain ⟨_, hlimit, h⟩ := bind_eq_ok.mp h
  obtain ⟨_, hpayload, h⟩ := bind_eq_ok.mp h
  rw [failIf_eq_ok] at hsize hlimit
  obtain ⟨hversion, hflags⟩ := validateRecordHeader_ok hheader
  obtain ⟨hap, hsep⟩ := validateRecordPayload_ok hpayload
  have hbytes := (pure_eq_ok.mp h).symm
  have hlen : (RawRecord.sized header payload).header.payloadLen.toNat = payload.length := by
    simp only [RawRecord.sized, BitVec.toNat_ofNat]
    omega
  have hencoded := (RawRecord.sized header payload).header.encode_length
  refine nextRecord_got.mpr ⟨?_, ?_, ?_, ?_⟩
  · have hcheck : checkLength (RawRecord.sized header payload).header = .ok () := by
      unfold checkLength
      rw [hlen]
      have h32 : ¬ (header.kind = .apNonce ∧ payload.length ≠ 32) := fun h => h.2 (hap h.1)
      have h20 : ¬ (header.kind = .sepNonce ∧ payload.length ≠ 20) := fun h => h.2 (hsep h.1)
      exact bind_eq_ok.mpr ⟨(), failIf_eq_ok.mpr h32,
        bind_eq_ok.mpr ⟨(), failIf_eq_ok.mpr h20, failIf_eq_ok.mpr hlimit⟩⟩
    have hdecode : RecordHeader.decode (RawRecord.sized header payload).header.encode = .ok _ :=
      RecordHeader.decode_encode hversion hflags
    rw [hbytes, append_assoc, take_left' hencoded]
    unfold readHeader
    rw [bind_ok hdecode, bind_ok hcheck]
    rfl
  · rw [hbytes, length_append, hencoded, hlen]
  · rw [length_append]
    omega
  · rw [hlen, hbytes, append_assoc, drop_left' hencoded, take_left' rfl]
    rfl

/-- Encodings one after the other are read as their records, with nothing left over. -/
lemma scan_encoded {records : List (RecordHeader × Bytes)}
    {encodings : List Bytes} (h : records.map (fun r => encodeRecord decoders r.1 r.2) = encodings.map .ok) :
    framing.records encodings.flatten = records.map (fun r => RawRecord.sized r.1 r.2) ∧
      framing.rest encodings.flatten = [] := by
  induction records generalizing encodings with
  | nil =>
    cases encodings with
    | nil => exact ⟨records_stop (.of_more rfl), rest_stop (.of_more rfl)⟩
    | cons encoding encodings => simp at h
  | cons record records ih =>
    cases encodings with
    | nil => simp at h
    | cons encoding encodings =>
      simp only [map_cons, List.cons.injEq] at h
      obtain ⟨hrecord, hrecords⟩ := h
      have hgot := next_encodeRecord hrecord encodings.flatten
      obtain ⟨htail, hrest⟩ := ih hrecords
      rw [flatten_cons, records_got hgot, rest_got hgot, drop_left' rfl, htail, hrest]
      exact ⟨rfl, rfl⟩

/-! ### The pieces of a stream -/

/-- The records of a stream before its first malformed header come out of the assembler exactly
when some of the pushes hold all of them and do not show that header yet; and what `encode_record`
accepted comes out whatever the pieces. -/
theorem pushAll_split (chunks : List Bytes) :
    ((FrameAssembler.default.pushAll chunks).1 = framing.records chunks.flatten ↔ framing.CutInTime [] chunks) ∧
      ∀ (decoders : SignedDecoders) (records : List (RecordHeader × Bytes)) (encodings : List Bytes),
        records.map (fun r => encodeRecord decoders r.1 r.2) = encodings.map .ok →
        chunks.flatten = encodings.flatten → FrameAssembler.default.pushAll chunks =
            (records.map (fun r => RawRecord.sized r.1 r.2), none) := by
  rw [FrameAssembler.pushAll_eq]
  refine ⟨pushes_iff rfl, ?_⟩
  intro decoders records encodings hencoded hflatten
  obtain ⟨hrecords, hrest⟩ := scan_encoded hencoded
  have hpushes : framing.pushes [] chunks = (framing.records chunks.flatten, none) := by
    refine pushes_of_more ?_ rfl
    rw [nil_append, hflatten, hrest]
    rfl
  rw [hflatten, hrecords] at hpushes
  exact hpushes

/-- A ping followed by forty bytes that are no header. -/
def pingRecord : Bytes :=
  RecordHeader.encode ⟨VERSION, .ping, 0, 8, 1, 0, 0⟩ ++ be64Bytes 7

def noHeader : Bytes := List.replicate 40 0

theorem malformed_loses_record : (FrameAssembler.default.pushAll [pingRecord ++ noHeader]).1 = [] ∧
    (FrameAssembler.default.pushAll [pingRecord, noHeader]).1 =
      [⟨⟨VERSION, .ping, 0, 8, 1, 0, 0⟩, be64Bytes 7⟩] := by decide

/-- Decoders of signed material that accept everything. -/
def acceptAll : SignedDecoders := ⟨fun _ => .ok (), fun _ => .ok (), fun _ => .ok ()⟩

theorem pushAll_split_ping : (framing.CutInTime [] [pingRecord, noHeader] ∧
    (FrameAssembler.default.pushAll [pingRecord, noHeader]).1 = framing.records [pingRecord, noHeader].flatten) ∧
  encodeRecord acceptAll ⟨VERSION, .ping, 0, 0, 1, 0, 0⟩ (be64Bytes 7) = .ok pingRecord ∧
  FrameAssembler.default.pushAll [pingRecord.take 3, pingRecord.drop 3] =
    ([⟨⟨VERSION, .ping, 0, 8, 1, 0, 0⟩, be64Bytes 7⟩], none) := by
  have hcut : framing.CutInTime [] [pingRecord, noHeader] :=
    ⟨1, by decide, by decide, by decide⟩
  refine ⟨⟨hcut, (pushAll_split [pingRecord, noHeader]).1.mpr hcut⟩, by decide, ?_⟩
  exact (pushAll_split [pingRecord.take 3, pingRecord.drop 3]).2 acceptAll
    [(⟨VERSION, .ping, 0, 0, 1, 0, 0⟩, be64Bytes 7)] [pingRecord] (by decide)
    (by decide)

end AppleUtils.Bridge
