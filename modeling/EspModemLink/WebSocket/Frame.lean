import EspModemLink.Bytes
import EspModemLink.NetworkError

/-!
# WebSocket frames

`EncodeFrame` and `TakeFrame`.
-/

namespace EspModemLink.WebSocket

open Bytes

inductive WsOpcode where
  | kContinuation | kText | kBinary | kClose | kPing | kPong
deriving DecidableEq, Repr

/-- The number a frame header carries for an opcode. -/
def WsOpcode.raw : WsOpcode → UInt8
  | .kContinuation => 0x0
  | .kText => 0x1
  | .kBinary => 0x2
  | .kClose => 0x8
  | .kPing => 0x9
  | .kPong => 0xA

/-- `OpcodeFromRaw`. The reserved opcodes have no name. -/
def opcodeFromRaw (raw : UInt8) : Option WsOpcode :=
  if raw = 0x0 then some .kContinuation
  else if raw = 0x1 then some .kText
  else if raw = 0x2 then some .kBinary
  else if raw = 0x8 then some .kClose
  else if raw = 0x9 then some .kPing
  else if raw = 0xA then some .kPong
  else none

theorem opcodeFromRaw_raw (opcode : WsOpcode) : opcodeFromRaw opcode.raw = some opcode := by
  cases opcode <;> rfl

/-- `IsControlOpcode`. -/
def isControlOpcode (opcode : WsOpcode) : Bool :=
  opcode == .kClose || opcode == .kPing || opcode == .kPong

def kMaxControlPayload : ℕ := 125

/-- `WsFrame`, with the unmasked payload. -/
structure WsFrame where
  fin : Bool := true
  opcode : WsOpcode := .kText
  payload : Bytes := []
deriving DecidableEq, Repr

def kMaskBit : UInt8 := 0x80
def kFinBit : UInt8 := 0x80
def kRsvBits : UInt8 := 0x70
def kOpcodeMask : UInt8 := 0x0F
def kLengthIs16Bit : ℕ := 126
def kLengthIs64Bit : ℕ := 127

/-- The four octets of a masking key, in the order they travel. -/
def maskOctets (key : UInt32) : Bytes :=
  [byteAt key.toNat 24, byteAt key.toNat 16, byteAt key.toNat 8, byteAt key.toNat 0]

/-- `AppendMasked`: octet `i` of the payload against octet `i mod 4` of the key. -/
def masked (payload : Bytes) (key : UInt32) : Bytes :=
  payload.mapIdx fun i b => b ^^^ (maskOctets key).getD (i % 4) 0

/-- The second header byte and the extended length behind it. -/
def encodeLength (maskBit : UInt8) (length : ℕ) : Bytes :=
  if length < kLengthIs16Bit then [maskBit ||| length.toUInt8]
  else if length ≤ 0xFFFF then
    [maskBit ||| kLengthIs16Bit.toUInt8, byteAt length 8, byteAt length 0]
  else
    (maskBit ||| kLengthIs64Bit.toUInt8) ::
      [56, 48, 40, 32, 24, 16, 8, 0].map (byteAt length)

/-- `EncodeFrame`. -/
def encodeFrame (opcode : WsOpcode) (payload : Bytes) (fin : Bool) (maskKey : Option UInt32) :
    Result Bytes :=
  if isControlOpcode opcode ∧ fin = false then
    .error ⟨.kInvalidArgument, 0, "a control frame cannot be fragmented"⟩
  else if isControlOpcode opcode ∧ kMaxControlPayload < payload.length then
    .error ⟨.kInvalidArgument, 0, "a control frame cannot carry more than 125 bytes"⟩
  else
    let first := opcode.raw ||| (if fin then kFinBit else 0x00)
    match maskKey with
    | none => .ok (first :: encodeLength 0x00 payload.length ++ payload)
    | some key =>
        .ok (first :: encodeLength kMaskBit payload.length ++ maskOctets key ++
          masked payload key)

/-- What taking a frame off a buffer found. -/
inductive WsFrameRead where
  | incomplete
  | ready (frame : WsFrame)
  | invalid (reason : String)
deriving DecidableEq, Repr

/-- A big-endian number. -/
def bigEndian (s : Bytes) : ℕ := s.foldl (fun n b => n * 256 + b.toNat) 0

/-- The payload length and the header's size, `none` while the extended length is not there and
an error when its leading bit is set. -/
def takeLength (second : UInt8) (rest : Bytes) : Option (Except String (ℕ × ℕ)) :=
  let length := (second &&& 0x7F).toNat
  if length = kLengthIs16Bit then
    if rest.length < 2 then none else some (.ok (bigEndian (rest.take 2), 4))
  else if length = kLengthIs64Bit then
    if rest.length < 8 then none
    else if 2 ^ 63 ≤ bigEndian (rest.take 8) then
      some (.error "the frame length has its leading bit set")
    else some (.ok (bigEndian (rest.take 8), 10))
  else some (.ok (length, 2))

/-- `TakeFrame`: what it found and the buffer it leaves. -/
def takeFrame (buffer : Bytes) : WsFrameRead × Bytes :=
  match buffer with
  | first :: second :: rest =>
      if first &&& kRsvBits ≠ 0 then
        (.invalid "a reserved bit is set in the frame header", buffer)
      else
        match opcodeFromRaw (first &&& kOpcodeMask) with
        | none => (.invalid "the frame header carries a reserved opcode", buffer)
        | some opcode =>
            if second &&& kMaskBit ≠ 0 then
              (.invalid "a frame from the server is masked", buffer)
            else
              match takeLength second rest with
              | none => (.incomplete, buffer)
              | some (.error reason) => (.invalid reason, buffer)
              | some (.ok (length, offset)) =>
                  let fin : Bool := first &&& kFinBit ≠ 0
                  if isControlOpcode opcode ∧ fin = false then
                    (.invalid "a control frame arrived fragmented", buffer)
                  else if isControlOpcode opcode ∧ kMaxControlPayload < length then
                    (.invalid "a control frame carries more than 125 bytes", buffer)
                  else if buffer.length < offset + length then (.incomplete, buffer)
                  else
                    (.ready ⟨fin, opcode, (buffer.drop offset).take length⟩,
                      buffer.drop (offset + length))
  | _ => (.incomplete, buffer)

end EspModemLink.WebSocket
