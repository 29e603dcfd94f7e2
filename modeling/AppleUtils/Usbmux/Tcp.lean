import AppleUtils.Lib.Bytes

/-! # Segment headers (`usbmux/tcp.rs`)

The twenty-byte header of a mux segment: encoding into a buffer, decoding with its two
refusals (a short buffer and a data offset other than five words), and the flag predicates.

The window travels as a sixteen-bit count of 256-byte units, so encoding rounds it down and
saturates.  `decode_headerBytes` is the resulting round trip: every field reads back, the
window as `windowFromWire (windowToWire window)`.  A decoded window is at most
`0xffff * 256` (`decode_window_lt`), which is what bounds the bytes in flight of a session. -/

namespace AppleUtils.Usbmux

open Bytes

def TCP_HEADER_LEN : ℕ := 20

def DATA_OFFSET_WORDS : Byte := 5

/-- Wire window shifted left by this is the byte count. -/
def WINDOW_SCALE_SHIFT : ℕ := 8

namespace flags

def FIN : Byte := 0x01
def SYN : Byte := 0x02
def RST : Byte := 0x04
def PSH : Byte := 0x08
def ACK : Byte := 0x10
def SYN_ACK : Byte := SYN ||| ACK

end flags

structure TcpHeader where
  (sourcePort destinationPort : BitVec 16)
  (sequence acknowledgement : BitVec 32)
  flags : Byte
  window : BitVec 32
deriving DecidableEq, Repr

inductive TcpError where
  | short (needed had : ℕ) | options (offsetWords : Byte)
deriving DecidableEq, Repr

namespace TcpHeader

def windowFromWire (value : BitVec 16) : BitVec 32 := value.setWidth 32 <<< WINDOW_SCALE_SHIFT

def windowToWire (bytes : BitVec 32) : BitVec 16 :=
  let scaled := bytes >>> WINDOW_SCALE_SHIFT
  if 0xffff < scaled then 0xffff else scaled.setWidth 16

/-- The bytes `encode` puts at the front of its buffer. -/
def headerBytes (h : TcpHeader) : Bytes :=
  be16Bytes h.sourcePort ++ (be16Bytes h.destinationPort ++ (be32Bytes h.sequence ++
    (be32Bytes h.acknowledgement ++ ([DATA_OFFSET_WORDS <<< 4, h.flags] ++
      (be16Bytes (windowToWire h.window) ++ [0, 0, 0, 0])))))

/-- `encode`: the buffer with the header written over its first twenty bytes. -/
def encode (h : TcpHeader) (out : Bytes) : Except TcpError Bytes :=
  if out.length < TCP_HEADER_LEN then .error (.short TCP_HEADER_LEN out.length)
  else .ok (h.headerBytes ++ out.drop TCP_HEADER_LEN)

def decode (bytes : Bytes) : Except TcpError TcpHeader :=
  if bytes.length < TCP_HEADER_LEN then .error (.short TCP_HEADER_LEN bytes.length)
  else
    let offsetWords := bytes.byteAt 12 >>> 4
    if offsetWords ≠ DATA_OFFSET_WORDS then .error (.options offsetWords)
    else .ok
      { sourcePort := bytes.be16 0
        destinationPort := bytes.be16 2
        sequence := bytes.be32 4
        acknowledgement := bytes.be32 8
        flags := bytes.byteAt 13
        window := windowFromWire (bytes.be16 14) }

def isBareAck (h : TcpHeader) : Bool := h.flags == flags.ACK

def isSynAck (h : TcpHeader) : Bool := h.flags == flags.SYN_ACK

def isFin (h : TcpHeader) : Bool :=
  h.flags &&& flags.FIN != 0 && h.flags &&& ~~~(flags.FIN ||| flags.ACK ||| flags.PSH) == 0

def isReset (h : TcpHeader) : Bool := h.flags &&& flags.RST != 0

/-- The segment carries an acknowledgement number. -/
def hasAck (h : TcpHeader) : Bool := h.flags &&& flags.ACK != 0

def windowEdge (h : TcpHeader) : BitVec 32 := h.acknowledgement + h.window

/-! ### Windows on the wire -/

lemma windowFromWire_toNat (value : BitVec 16) : (windowFromWire value).toNat = value.toNat * 256 := by
  have := value.isLt
  simp only [windowFromWire, WINDOW_SCALE_SHIFT, BitVec.toNat_shiftLeft, BitVec.toNat_setWidth, Nat.shiftLeft_eq]
  omega

/-- A window that came off the wire is less than `2 ^ 24` bytes. -/
lemma decode_window_lt {bytes : Bytes} {h : TcpHeader} (hd : decode bytes = .ok h) : h.window.toNat < 2 ^ 24 := by
  unfold decode at hd
  split at hd
  · cases hd
  · dsimp only at hd
    split at hd
    · cases hd
    · cases hd
      have := (bytes.be16 14).isLt
      rw [windowFromWire_toNat]
      omega

/-! ### Round trip -/

@[simp] lemma headerBytes_length (h : TcpHeader) : h.headerBytes.length = TCP_HEADER_LEN := rfl

/-- Decoding what `encode` wrote gives the header back, its window rounded to the wire. -/
lemma decode_headerBytes (h : TcpHeader) (body : Bytes) :
    decode (h.headerBytes ++ body) = .ok { h with window := windowFromWire (windowToWire h.window) } := by
  have hlen : ¬ (h.headerBytes ++ body).length < TCP_HEADER_LEN := by simp
  have hoff : (h.headerBytes ++ body).byteAt 12 >>> 4 = DATA_OFFSET_WORDS := by
    show DATA_OFFSET_WORDS <<< 4 >>> 4 = DATA_OFFSET_WORDS
    decide
  unfold decode
  rw [if_neg hlen]
  simp only [hoff, ne_eq, not_true_eq_false, if_false]
  have e0 : (h.headerBytes ++ body).be16 0 = h.sourcePort := extract_append_16 _
  have e2 : (h.headerBytes ++ body).be16 2 = h.destinationPort := extract_append_16 _
  have e4 : (h.headerBytes ++ body).be32 4 = h.sequence := extract_append_32 _
  have e8 : (h.headerBytes ++ body).be32 8 = h.acknowledgement := extract_append_32 _
  have e14 : (h.headerBytes ++ body).be16 14 = windowToWire h.window := extract_append_16 _
  rw [e0, e2, e4, e8, e14]
  rfl

end TcpHeader

end AppleUtils.Usbmux
