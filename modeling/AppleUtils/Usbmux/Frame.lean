import AppleUtils.Lib.Bytes

/-! # Mux frames (`usbmux/frame.rs`)

Every packet on the link starts with a mux header: a protocol word and the length of the whole
packet, and in version two also a magic word and a pair of sequence numbers.  The version packet
has a layout of its own and is the only one read before a version is agreed on.

`decode_headerBytes` and `payload_packet` are the round trip of a packet the host builds. -/

namespace AppleUtils.Usbmux

open Bytes

def HEADER_LEN_V2 : ℕ := 16

def HEADER_LEN_V1 : ℕ := 8

def VERSION_PACKET_LEN : ℕ := 20

def HOST_MAGIC : BitVec 32 := 0xfeedface

def MAX_PACKET : ℕ := 0x8000

def MAX_TRANSFER : ℕ := 0x7ffc

inductive MuxVersion where
  | v1 | v2
deriving DecidableEq, Repr

namespace MuxVersion

def headerLen : MuxVersion → ℕ
  | .v1 => HEADER_LEN_V1
  | .v2 => HEADER_LEN_V2

def wireValue : MuxVersion → BitVec 32
  | .v1 => 1
  | .v2 => 2

def negotiatedFrom (value : BitVec 32) : MuxVersion := if value = 1 then .v1 else .v2

def isSequenced : MuxVersion → Bool
  | .v1 => false
  | .v2 => true

lemma headerLen_le (v : MuxVersion) : v.headerLen ≤ 16 := by
  cases v <;> decide

end MuxVersion

inductive Protocol where
  | version | control | hostLogLevel | tcp | unknown (value : BitVec 32)
deriving DecidableEq, Repr

namespace Protocol

def wireValue : Protocol → BitVec 32
  | .version => 0
  | .control => 1
  | .hostLogLevel => 2
  | .tcp => 6
  | .unknown value => value

def fromWire (value : BitVec 32) : Protocol :=
  if value = 0 then .version
  else if value = 1 then .control
  else if value = 2 then .hostLogLevel
  else if value = 6 then .tcp
  else .unknown value

end Protocol

inductive FrameError where
  | short (needed had : ℕ) | lengthMismatch (declared : BitVec 32) (actual : ℕ)
  | notVersion (protocol : BitVec 32)
deriving DecidableEq, Repr

structure MuxHeader where
  protocol : Protocol
  (length magic : BitVec 32)
  (txSeq rxAck : BitVec 16)
deriving DecidableEq, Repr

namespace MuxHeader

/-- The bytes `encode` puts at the front of its buffer. -/
def headerBytes (h : MuxHeader) (version : MuxVersion) : Bytes :=
  be32Bytes h.protocol.wireValue ++ (be32Bytes h.length ++
    if version.isSequenced then
      be32Bytes h.magic ++ (be16Bytes h.txSeq ++ be16Bytes h.rxAck)
    else [])

/-- `encode`: the buffer with the header written over its first bytes. -/
def encode (h : MuxHeader) (version : MuxVersion) (out : Bytes) : Except FrameError Bytes :=
  if out.length < version.headerLen then .error (.short version.headerLen out.length)
  else .ok (h.headerBytes version ++ out.drop version.headerLen)

def decode (version : MuxVersion) (bytes : Bytes) : Except FrameError MuxHeader :=
  if bytes.length < version.headerLen then .error (.short version.headerLen bytes.length)
  else if version.isSequenced then
    .ok ⟨.fromWire (bytes.be32 0), bytes.be32 4, bytes.be32 8, bytes.be16 12, bytes.be16 14⟩
  else .ok ⟨.fromWire (bytes.be32 0), bytes.be32 4, 0, 0, 0⟩

def payload (h : MuxHeader) (version : MuxVersion) (packet : Bytes) : Except FrameError Bytes :=
  if h.length.toNat ≠ packet.length then .error (.lengthMismatch h.length packet.length)
  else if packet.length < version.headerLen then .error (.short version.headerLen packet.length)
  else .ok (packet.drop version.headerLen)

@[simp] lemma headerBytes_length (h : MuxHeader) (version : MuxVersion) :
    (h.headerBytes version).length = version.headerLen := by
  cases version <;> rfl

/-- What the peer reads of a header: version one carries neither magic nor sequence numbers. -/
def onWire (h : MuxHeader) : MuxVersion → MuxHeader
  | .v1 => { h with magic := 0, txSeq := 0, rxAck := 0 }
  | .v2 => h

@[simp] lemma onWire_length (h : MuxHeader) (version : MuxVersion) : (h.onWire version).length = h.length := by
  cases version <;> rfl

@[simp] lemma onWire_protocol (h : MuxHeader) (version : MuxVersion) :
    (h.onWire version).protocol = h.protocol := by
  cases version <;> rfl

lemma decode_headerBytes (h : MuxHeader) (version : MuxVersion) (body : Bytes)
    (hp : Protocol.fromWire h.protocol.wireValue = h.protocol) :
    decode version (h.headerBytes version ++ body) = .ok (h.onWire version) := by
  have hlen : ¬ (h.headerBytes version ++ body).length < version.headerLen := by simp
  have e0 : (h.headerBytes version ++ body).be32 0 = h.protocol.wireValue := extract_append_32 _
  have e4 : (h.headerBytes version ++ body).be32 4 = h.length := extract_append_32 _
  unfold decode
  rw [if_neg hlen, e0, e4, hp]
  cases version with
  | v1 => rfl
  | v2 =>
    have e8 : (h.headerBytes .v2 ++ body).be32 8 = h.magic := extract_append_32 _
    have e12 : (h.headerBytes .v2 ++ body).be16 12 = h.txSeq := extract_append_16 _
    have e14 : (h.headerBytes .v2 ++ body).be16 14 = h.rxAck := extract_append_16 _
    rw [e8, e12, e14]
    rfl

/-- The payload of a packet, by a header that declares its length. -/
lemma payload_packet (h h' : MuxHeader) (version : MuxVersion) (body : Bytes)
    (hlen : h'.length.toNat = version.headerLen + body.length) :
    h'.payload version (h.headerBytes version ++ body) = .ok body := by
  have htotal : (h.headerBytes version ++ body).length = version.headerLen + body.length := by simp
  unfold payload
  rw [htotal, if_neg (not_not.mpr hlen), if_neg (by omega), List.drop_left' (h.headerBytes_length version)]

end MuxHeader

structure VersionPacket where
  (version reserved : BitVec 32)
deriving DecidableEq, Repr

namespace VersionPacket

def encode (p : VersionPacket) : Bytes :=
  be32Bytes Protocol.version.wireValue ++ be32Bytes (BitVec.ofNat 32 VERSION_PACKET_LEN) ++
    be32Bytes p.version ++ be32Bytes p.reserved ++ [0, 0, 0, 0]

def decode (bytes : Bytes) : Except FrameError VersionPacket :=
  if bytes.length < VERSION_PACKET_LEN then .error (.short VERSION_PACKET_LEN bytes.length)
  else if bytes.be32 0 ≠ Protocol.version.wireValue then .error (.notVersion (bytes.be32 0))
  else .ok ⟨bytes.be32 8, bytes.be32 12⟩

def negotiated (p : VersionPacket) : MuxVersion := .negotiatedFrom p.version

end VersionPacket

structure VersionRequest where
  value : BitVec 32
deriving DecidableEq, Repr

namespace VersionRequest

def resync : VersionRequest := ⟨HOST_MAGIC⟩

def exact (version : MuxVersion) : VersionRequest := ⟨version.wireValue⟩

def packet (r : VersionRequest) : VersionPacket := ⟨r.value, 0⟩

end VersionRequest

end AppleUtils.Usbmux
