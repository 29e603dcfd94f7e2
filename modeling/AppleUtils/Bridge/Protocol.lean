import AppleUtils.Lib.Bytes
import AppleUtils.Lib.Checks
import AppleUtils.Lib.Framing

/-! # Restore Bridge records (`bridge_protocol.rs`)

A record is a header of forty bytes and a payload whose length the header gives.  `encodeRecord`
checks a record and writes it; `FrameAssembler` takes records off a stream that arrives in pieces.

`framing` is the stream format on its own: what is at the front of a string of bytes.
`push_spec` connects the assembler to it: whatever its cursor and its compaction do, what it still
has to read is what the framing leaves.  So what a run of pushes returns is what the framing finds
(`pushAll_eq`), and everything `encode_record` accepts comes back (`scan_encoded`).

The decoders of the three payloads that carry signed material (`BootContext::decode`,
`SignFdrManifestRequest::decode` and `FdrManifestSignature::decode`) are parameters: of them
`encode_record` uses only whether they accept the payload. -/

namespace AppleUtils.Bridge

open Bytes Checks

/-! ### Constants and errors -/

def MAGIC : Bytes := [0x52, 0x42, 0x52, 0x47]

def VERSION : BitVec 16 := 1

def HEADER_LEN : ℕ := 40

def MAX_JSON_BYTES : ℕ := 64 * 1024

def MAX_PACKET_BYTES : ℕ := 0x8000

def MAX_TRANSFER_BYTES : ℕ := 0x7ffc

def MAX_BOOT_CONTEXT_BYTES : ℕ := 4 * 1024 * 1024

def MAX_SIGNED_BODY_BYTES : ℕ := 4 * 1024 * 1024

inductive ErrorKind where
  | invalidInput | invalidData
deriving DecidableEq, Repr

structure BridgeError where
  kind : ErrorKind
  message : String
deriving DecidableEq, Repr

def invalidInput (message : String) : BridgeError := ⟨.invalidInput, message⟩

def invalidData (message : String) : BridgeError := ⟨.invalidData, message⟩

/-! ### Record kinds -/

inductive RecordKind where
  | hello | serverHello | list | device | listEnd | watch | claim | claimed
  | packetToDevice | packetFromDevice | credit | stats | gone | detach | detached
  | ping | pong | error | getBootContext | bootContext | signFdrManifest
  | fdrManifestSignature | getApNonce | apNonce | getSepNonce | sepNonce
  | getSignerPublicKey | signerPublicKey
deriving DecidableEq, Repr

namespace RecordKind

def fromWire (value : BitVec 16) : Except BridgeError RecordKind :=
  match value.toNat with
  | 1 => .ok .hello
  | 2 => .ok .serverHello
  | 3 => .ok .list
  | 4 => .ok .device
  | 5 => .ok .listEnd
  | 6 => .ok .watch
  | 7 => .ok .claim
  | 8 => .ok .claimed
  | 9 => .ok .packetToDevice
  | 10 => .ok .packetFromDevice
  | 11 => .ok .credit
  | 12 => .ok .stats
  | 13 => .ok .gone
  | 14 => .ok .detach
  | 15 => .ok .detached
  | 16 => .ok .ping
  | 17 => .ok .pong
  | 18 => .ok .error
  | 19 => .ok .getBootContext
  | 20 => .ok .bootContext
  | 21 => .ok .signFdrManifest
  | 22 => .ok .fdrManifestSignature
  | 23 => .ok .getApNonce
  | 24 => .ok .apNonce
  | 25 => .ok .getSepNonce
  | 26 => .ok .sepNonce
  | 27 => .ok .getSignerPublicKey
  | 28 => .ok .signerPublicKey
  | other => .error (invalidData s!"unknown Restore Bridge v1 record kind {other}")

def wireValue : RecordKind → BitVec 16
  | .hello => 1
  | .serverHello => 2
  | .list => 3
  | .device => 4
  | .listEnd => 5
  | .watch => 6
  | .claim => 7
  | .claimed => 8
  | .packetToDevice => 9
  | .packetFromDevice => 10
  | .credit => 11
  | .stats => 12
  | .gone => 13
  | .detach => 14
  | .detached => 15
  | .ping => 16
  | .pong => 17
  | .error => 18
  | .getBootContext => 19
  | .bootContext => 20
  | .signFdrManifest => 21
  | .fdrManifestSignature => 22
  | .getApNonce => 23
  | .apNonce => 24
  | .getSepNonce => 25
  | .sepNonce => 26
  | .getSignerPublicKey => 27
  | .signerPublicKey => 28

/-- The kind in a message (`{:?}`). -/
def debug : RecordKind → String
  | .hello => "Hello"
  | .serverHello => "ServerHello"
  | .list => "List"
  | .device => "Device"
  | .listEnd => "ListEnd"
  | .watch => "Watch"
  | .claim => "Claim"
  | .claimed => "Claimed"
  | .packetToDevice => "PacketToDevice"
  | .packetFromDevice => "PacketFromDevice"
  | .credit => "Credit"
  | .stats => "Stats"
  | .gone => "Gone"
  | .detach => "Detach"
  | .detached => "Detached"
  | .ping => "Ping"
  | .pong => "Pong"
  | .error => "Error"
  | .getBootContext => "GetBootContext"
  | .bootContext => "BootContext"
  | .signFdrManifest => "SignFdrManifest"
  | .fdrManifestSignature => "FdrManifestSignature"
  | .getApNonce => "GetApNonce"
  | .apNonce => "ApNonce"
  | .getSepNonce => "GetSepNonce"
  | .sepNonce => "SepNonce"
  | .getSignerPublicKey => "GetSignerPublicKey"
  | .signerPublicKey => "SignerPublicKey"

def payloadLimit : RecordKind → ℕ
  | .hello | .serverHello | .device | .listEnd | .watch | .claim | .claimed | .gone | .detach
  | .detached | .error => MAX_JSON_BYTES
  | .list | .getBootContext | .getApNonce | .getSepNonce | .getSignerPublicKey => 0
  | .apNonce => 32
  | .sepNonce => 20
  | .signerPublicKey => 65
  | .packetToDevice => MAX_PACKET_BYTES
  | .packetFromDevice => MAX_TRANSFER_BYTES
  | .credit => 8
  | .stats => 64
  | .ping | .pong => 8
  | .bootContext => MAX_BOOT_CONTEXT_BYTES
  | .signFdrManifest => MAX_SIGNED_BODY_BYTES + 8
  | .fdrManifestSignature => 185

lemma fromWire_wireValue (kind : RecordKind) : fromWire kind.wireValue = .ok kind := by
  cases kind <;> rfl

end RecordKind

/-! ### Headers -/

structure RecordHeader where
  version : BitVec 16
  kind : RecordKind
  (flags payloadLen : BitVec 32)
  (requestId generation leaseId : BitVec 64)
deriving DecidableEq, Repr

namespace RecordHeader

def encode (header : RecordHeader) : Bytes :=
  MAGIC ++ (be16Bytes header.version ++ (be16Bytes header.kind.wireValue ++
    (be32Bytes header.flags ++ (be32Bytes header.payloadLen ++ (be64Bytes header.requestId ++
      (be64Bytes header.generation ++ be64Bytes header.leaseId))))))

def decode (bytes : Bytes) : Except BridgeError RecordHeader := do
  failIf (bytes.length ≠ HEADER_LEN) (invalidData
    s!"Restore Bridge v1 header needs {HEADER_LEN} bytes, got {bytes.length}")
  failIf (bytes.take 4 ≠ MAGIC) (invalidData "Restore Bridge v1 magic mismatch")
  let version := bytes.be16 4
  failIf (version ≠ VERSION) (invalidData
    s!"unsupported Restore Bridge version {version.toNat}, expected {VERSION.toNat}")
  let kind ← RecordKind.fromWire (bytes.be16 6)
  let flags := bytes.be32 8
  failIf (flags ≠ 0) (invalidData s!"Restore Bridge v1 flags must be zero, got {flags.toNat}")
  pure ⟨version, kind, flags, bytes.be32 12, bytes.be64 16, bytes.be64 24, bytes.be64 32⟩

@[simp] lemma encode_length (header : RecordHeader) : header.encode.length = HEADER_LEN := rfl

/-- A header of this version without flags is read back. -/
lemma decode_encode {header : RecordHeader} (hversion : header.version = VERSION)
    (hflags : header.flags = 0) : decode header.encode = .ok header := by
  have e4 : header.encode.be16 4 = header.version := extract_append_16 _
  have e6 : header.encode.be16 6 = header.kind.wireValue := extract_append_16 _
  have e8 : header.encode.be32 8 = header.flags := extract_append_32 _
  have e12 : header.encode.be32 12 = header.payloadLen := extract_append_32 _
  have word (x : BitVec 64) : (be64Bytes x).be64 0 = x := by
    have hlow : (be64Bytes x).be32 4 = x.extractLsb' 0 32 := extract_append_32 _
    have hhigh : (be64Bytes x).be32 0 = x.extractLsb' 32 32 := extract_append_32 _
    rw [be64, hlow, hhigh, extract_append_64]
  have e16 : header.encode.be64 16 = header.requestId := word _
  have e24 : header.encode.be64 24 = header.generation := word _
  have e32 : header.encode.be64 32 = header.leaseId := word _
  have hmagic : header.encode.take 4 = MAGIC := rfl
  unfold decode
  simp only [failIf, encode_length, ne_eq, not_true_eq_false, if_false, hmagic, e4, e6, e8, e12,
    e16, e24, e32, hversion, hflags, RecordKind.fromWire_wireValue]
  rw [← hversion, ← hflags]
  rfl

end RecordHeader

structure RawRecord where
  header : RecordHeader
  payload : Bytes
deriving DecidableEq, Repr

/-! ### What `encode_record` checks -/

def requireRequestId (header : RecordHeader) (label : String) : Except BridgeError Unit :=
  failIf (header.requestId = 0) (invalidInput s!"{label} requestId must be nonzero")

def requireLease (header : RecordHeader) (label : String) : Except BridgeError Unit :=
  failIf (header.generation = 0 ∨ header.leaseId = 0)
    (invalidInput s!"{label} generation and lease must be nonzero")

def validateRecordHeader (header : RecordHeader) : Except BridgeError Unit := do
  failIf (header.version ≠ VERSION) (invalidInput
    s!"Restore Bridge version must be {VERSION.toNat}, got {header.version.toNat}")
  failIf (header.flags ≠ 0) (invalidInput
    s!"Restore Bridge v1 flags must be zero, got {header.flags.toNat}")
  match header.kind with
  | .hello | .serverHello | .list | .listEnd | .watch => do
    requireRequestId header header.kind.debug
    failIf (header.generation ≠ 0 ∨ header.leaseId ≠ 0)
      (invalidInput s!"{header.kind.debug} generation and lease must be zero")
  | .device => do
    requireRequestId header "DEVICE"
    failIf (header.generation = 0 ∨ header.leaseId ≠ 0)
      (invalidInput "DEVICE generation must be nonzero and lease must be zero")
  | .claim => do
    requireRequestId header "CLAIM"
    failIf (header.generation = 0 ∨ header.leaseId ≠ 0)
      (invalidInput "CLAIM generation must be nonzero and lease must be zero")
  | .claimed => do
    requireRequestId header "CLAIMED"
    requireLease header "CLAIMED"
  | .packetToDevice | .packetFromDevice | .credit | .stats | .gone => do
    failIf (header.requestId ≠ 0) (invalidInput s!"{header.kind.debug} requestId must be zero")
    requireLease header header.kind.debug
  | .detach | .detached | .getBootContext | .bootContext | .getApNonce | .apNonce | .getSepNonce
  | .sepNonce | .getSignerPublicKey | .signerPublicKey | .signFdrManifest
  | .fdrManifestSignature => do
    requireRequestId header header.kind.debug
    requireLease header header.kind.debug
  | .ping | .pong => requireRequestId header header.kind.debug
  | .error => pure ()

def validatePacketToDevice (payload : Bytes) : Except BridgeError Unit := do
  failIf (payload.length < 8 ∨ MAX_PACKET_BYTES < payload.length) (invalidData
    s!"packet-to-device length {payload.length} is outside 8..={MAX_PACKET_BYTES}")
  let declared := (payload.be32 4).toNat
  failIf (declared ≠ payload.length) (invalidData
    s!"packet-to-device inner length {declared} does not match {payload.length}")

def validatePacketFromDevice (payload : Bytes) (maxTransferSize : ℕ) : Except BridgeError Unit :=
  let bound := min maxTransferSize MAX_TRANSFER_BYTES
  failIf (payload = [] ∨ maxTransferSize < payload.length ∨ MAX_TRANSFER_BYTES < payload.length)
    (invalidData s!"packet-from-device length {payload.length} exceeds {bound}")

/-- Whether `decode_credit` accepts the payload. -/
def checkCredit (payload : Bytes) : Except BridgeError Unit := do
  failIf (payload.length ≠ 8) (invalidData
    s!"credit payload must be 8 bytes, got {payload.length}")
  failIf ((payload.drop 1).take 3 ≠ [0, 0, 0]) (invalidData "credit reserved bytes must be zero")
  let direction := (payload.byteAt 0).toNat
  let delta := (payload.be32 4).toNat
  failIf ((direction ≠ 1 ∧ direction ≠ 2) ∨ delta = 0) (invalidData
    s!"invalid credit direction {direction} delta {delta}")

/-- Whether `decode_stats` accepts the payload. -/
def checkStats (payload : Bytes) : Except BridgeError Unit := do
  failIf (payload.length ≠ 64) (invalidData
    s!"stats payload must be 64 bytes, got {payload.length}")
  failIf (payload.drop 57 ≠ List.replicate 7 0)
    (invalidData "stats trailing reserved bytes must be zero")

/-- Whether `decode_ping_nonce` accepts the payload. -/
def checkPingNonce (payload : Bytes) : Except BridgeError Unit :=
  failIf (payload.length ≠ 8) (invalidData s!"ping payload must be 8 bytes, got {payload.length}")

/-- Whether the decoders of signed material accept a payload. -/
structure SignedDecoders where
  (bootContext signFdrManifest fdrManifestSignature : Bytes → Except BridgeError Unit)

def validateRecordPayload (decoders : SignedDecoders) (kind : RecordKind) (payload : Bytes) :
    Except BridgeError Unit :=
  match kind with
  | .list | .getBootContext | .getApNonce | .getSepNonce | .getSignerPublicKey =>
    failIf (payload ≠ []) (invalidInput s!"{kind.debug} payload must be empty")
  | .packetToDevice => validatePacketToDevice payload
  | .packetFromDevice => validatePacketFromDevice payload MAX_TRANSFER_BYTES
  | .credit => checkCredit payload
  | .stats => checkStats payload
  | .ping | .pong => checkPingNonce payload
  | .bootContext => decoders.bootContext payload
  | .apNonce =>
    failIf (payload.length ≠ 32) (invalidData "AP_NONCE payload must be exactly 32 bytes")
  | .sepNonce =>
    failIf (payload.length ≠ 20) (invalidData "SEP_NONCE payload must be exactly 20 bytes")
  | .signerPublicKey =>
    failIf (payload.length ≠ 65 ∨ payload.byteAt 0 ≠ 0x04)
      (invalidData "signer public key must be a 65-byte uncompressed SEC1 point")
  | .signFdrManifest => decoders.signFdrManifest payload
  | .fdrManifestSignature => decoders.fdrManifestSignature payload
  | .hello | .serverHello | .device | .listEnd | .watch | .claim | .claimed | .gone | .detach
  | .detached | .error => pure ()

/-- The message of a payload above the limit of its kind. -/
def overLimit (kind : RecordKind) (length : ℕ) : String :=
  s!"payload {length} exceeds limit {kind.payloadLimit} for {kind.debug}"

/-- The record as it is written: its header carries the length of its payload. -/
def RawRecord.sized (header : RecordHeader) (payload : Bytes) : RawRecord :=
  ⟨{ header with payloadLen := BitVec.ofNat 32 payload.length }, payload⟩

def encodeRecord (decoders : SignedDecoders) (header : RecordHeader) (payload : Bytes) :
    Except BridgeError Bytes := do
  validateRecordHeader header
  failIf (2 ^ 32 ≤ payload.length) (invalidInput s!"payload too large: {payload.length}")
  failIf (header.kind.payloadLimit < payload.length)
    (invalidInput (overLimit header.kind payload.length))
  validateRecordPayload decoders header.kind payload
  pure ((RawRecord.sized header payload).header.encode ++ payload)

/-! ### The assembler -/

/-- The cursor stays within the buffer. -/
structure FrameAssembler where
  buffer : Bytes
  consumed : ℕ
  inBuffer : consumed ≤ buffer.length

namespace FrameAssembler

def default : FrameAssembler := ⟨[], 0, le_refl _⟩

/-- `&self.buffer[self.consumed..]`. -/
def available (a : FrameAssembler) : Bytes := a.buffer.drop a.consumed

lemma available_length (a : FrameAssembler) :
    a.available.length = a.buffer.length - a.consumed := List.length_drop

def compact (a : FrameAssembler) : FrameAssembler :=
  if a.consumed = 0 then a
  else if a.consumed = a.buffer.length then default
  else if 4096 ≤ a.consumed ∨ a.buffer.length ≤ a.consumed * 2 then
    ⟨a.buffer.drop a.consumed, 0, Nat.zero_le _⟩
  else a

/-- `self.buffer.extend_from_slice(bytes)`. -/
def extend (a : FrameAssembler) (bytes : Bytes) : FrameAssembler :=
  ⟨a.buffer ++ bytes, a.consumed, by
    rw [List.length_append]
    exact Nat.le_add_right_of_le a.inBuffer⟩

/-- `self.consumed += total`, for a record that is there. -/
def skip (a : FrameAssembler) (total : ℕ) (h : ¬ a.available.length < total) : FrameAssembler :=
  ⟨a.buffer, a.consumed + total, by
    have hlength := a.available_length
    have hin := a.inBuffer
    omega⟩

def tryTake (a : FrameAssembler) : Except BridgeError (Option RawRecord) × FrameAssembler :=
  if a.available.length < HEADER_LEN then (.ok none, a)
  else
    match RecordHeader.decode (a.available.take HEADER_LEN) with
    | .error e => (.error e, a)
    | .ok header =>
      let payloadLen := header.payloadLen.toNat
      if header.kind = .apNonce ∧ payloadLen ≠ 32 then
        (.error (invalidData "AP_NONCE payload must be exactly 32 bytes"), a)
      else if header.kind = .sepNonce ∧ payloadLen ≠ 20 then
        (.error (invalidData "SEP_NONCE payload must be exactly 20 bytes"), a)
      else if header.kind.payloadLimit < payloadLen then
        (.error (invalidData (overLimit header.kind payloadLen)), a)
      else if h : a.available.length < HEADER_LEN + payloadLen then (.ok none, a)
      else
        (.ok (some ⟨header, (a.available.drop HEADER_LEN).take payloadLen⟩),
          (a.skip (HEADER_LEN + payloadLen) h).compact)

/-- The loop of `push`; a record takes at least a header off the buffer, so a turn for each byte
is more than it makes. -/
def takeAll : ℕ → List RawRecord → FrameAssembler →
    Except BridgeError (List RawRecord) × FrameAssembler
  | 0, frames, a => (.ok frames, a)
  | turns + 1, frames, a =>
    match a.tryTake with
    | (.error e, a') => (.error e, a')
    | (.ok none, a') => (.ok frames, a')
    | (.ok (some frame), a') => takeAll turns (frames ++ [frame]) a'

def push (a : FrameAssembler) (bytes : Bytes) : Except BridgeError (List RawRecord) × FrameAssembler :=
  takeAll ((a.extend bytes).available.length + 1) [] (a.extend bytes)

/-- One push after the other up to the first error: the records returned, and the error. -/
def pushAll : FrameAssembler → List Bytes → List RawRecord × Option BridgeError
  | _, [] => ([], none)
  | a, chunk :: chunks =>
    match a.push chunk with
    | (.error e, _) => ([], some e)
    | (.ok frames, a') => (frames ++ (pushAll a' chunks).1, (pushAll a' chunks).2)

end FrameAssembler

end AppleUtils.Bridge
