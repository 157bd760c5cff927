import EspModemLink.Bytes
import EspModemLink.NetworkError

/-!
# MQTT control packets

The wire format of `mqtt_packet`: fixed headers, the two length encodings, and the packets that the
client writes and reads.
-/

namespace EspModemLink.Mqtt

open Bytes

/-- The high nibble of the first byte. The first and the last value have no name in the source. -/
inductive MqttPacketType where
  | kReserved0 | kConnect | kConnack | kPublish | kPuback | kPubrec | kPubrel | kPubcomp
  | kSubscribe | kSuback | kUnsubscribe | kUnsuback | kPingreq | kPingresp | kDisconnect
  | kReserved15
deriving DecidableEq, Repr

def MqttPacketType.toNat : MqttPacketType → ℕ
  | .kReserved0 => 0
  | .kConnect => 1
  | .kConnack => 2
  | .kPublish => 3
  | .kPuback => 4
  | .kPubrec => 5
  | .kPubrel => 6
  | .kPubcomp => 7
  | .kSubscribe => 8
  | .kSuback => 9
  | .kUnsubscribe => 10
  | .kUnsuback => 11
  | .kPingreq => 12
  | .kPingresp => 13
  | .kDisconnect => 14
  | .kReserved15 => 15

/-- The type that a nibble stands for. -/
def MqttPacketType.ofNibble : ℕ → MqttPacketType
  | 0 => .kReserved0
  | 1 => .kConnect
  | 2 => .kConnack
  | 3 => .kPublish
  | 4 => .kPuback
  | 5 => .kPubrec
  | 6 => .kPubrel
  | 7 => .kPubcomp
  | 8 => .kSubscribe
  | 9 => .kSuback
  | 10 => .kUnsubscribe
  | 11 => .kUnsuback
  | 12 => .kPingreq
  | 13 => .kPingresp
  | 14 => .kDisconnect
  | _ => .kReserved15

theorem MqttPacketType.ofNibble_toNat (type : MqttPacketType) : ofNibble type.toNat = type := by
  cases type <;> rfl

theorem MqttPacketType.toNat_lt (type : MqttPacketType) : type.toNat < 16 := by
  cases type <;> decide

inductive MqttConnectReturnCode where
  | kAccepted | kUnacceptableProtocol | kIdentifierRejected | kServerUnavailable
  | kBadCredentials | kNotAuthorized
deriving DecidableEq, Repr

def MqttConnectReturnCode.toNat : MqttConnectReturnCode → ℕ
  | .kAccepted => 0
  | .kUnacceptableProtocol => 1
  | .kIdentifierRejected => 2
  | .kServerUnavailable => 3
  | .kBadCredentials => 4
  | .kNotAuthorized => 5

/-- The return code that a byte stands for. -/
def MqttConnectReturnCode.ofByte : ℕ → Option MqttConnectReturnCode
  | 0 => some .kAccepted
  | 1 => some .kUnacceptableProtocol
  | 2 => some .kIdentifierRejected
  | 3 => some .kServerUnavailable
  | 4 => some .kBadCredentials
  | 5 => some .kNotAuthorized
  | _ => none

def describeConnectReturnCode : MqttConnectReturnCode → String
  | .kAccepted => "connection accepted"
  | .kUnacceptableProtocol => "unacceptable protocol version"
  | .kIdentifierRejected => "client identifier rejected"
  | .kServerUnavailable => "server unavailable"
  | .kBadCredentials => "bad user name or password"
  | .kNotAuthorized => "not authorized"

/-- The enumerators of `MqttQoS`. -/
inductive MqttQoS where
  | kQoS0 | kQoS1 | kQoS2
deriving DecidableEq, Repr

def MqttQoS.toNat : MqttQoS → ℕ
  | .kQoS0 => 0
  | .kQoS1 => 1
  | .kQoS2 => 2

theorem MqttQoS.toNat_lt (qos : MqttQoS) : qos.toNat < 3 := by
  cases qos <;> decide

structure MqttWill where
  topic : Bytes := []
  payload : Bytes := []
  qos : Int := 0
  retain : Bool := false
deriving DecidableEq, Repr

structure MqttFixedHeader where
  type : MqttPacketType := .kConnect
  dup : Bool := false
  qos : ℕ := 0
  retain : Bool := false
  remainingLength : ℕ := 0
deriving DecidableEq, Repr

structure MqttPacket where
  header : MqttFixedHeader
  body : Bytes
deriving DecidableEq, Repr

structure MqttConnack where
  sessionPresent : Bool
  code : MqttConnectReturnCode
deriving DecidableEq, Repr

structure MqttPublishMessage where
  topic : Bytes
  packetId : ℕ := 0
  qos : ℕ := 0
  retain : Bool := false
  payload : Bytes
deriving DecidableEq, Repr

structure MqttSuback where
  packetId : ℕ
  returnCodes : List UInt8
deriving DecidableEq, Repr

structure MqttConnectOptions where
  clientId : Bytes := []
  username : Bytes := []
  password : Bytes := []
  hasUsername : Bool := false
  hasPassword : Bool := false
  cleanSession : Bool := true
  keepAliveSeconds : ℕ := 60
  hasWill : Bool := false
  will : MqttWill := {}
deriving DecidableEq, Repr

/-! ## Primitives -/

def kMaxRemainingLength : ℕ := 268435455

/-- The bit of a flag. -/
def bit (flag : Bool) (value : ℕ) : ℕ := if flag then value else 0

/-- `FlagsFor`. -/
def flagsFor (header : MqttFixedHeader) : ℕ :=
  bit header.dup 0x08 + header.qos % 4 * 2 + bit header.retain 0x01

/-- `AppendUint16`, which keeps the low sixteen bits. -/
def uint16 (value : ℕ) : Bytes := [byteAt value 8, byteAt value 0]

/-- The loop of `EncodeRemainingLength`, which takes at most four passes. -/
def lengthDigits : (passes : ℕ) → (value : ℕ) → Bytes
  | 0, _ => []
  | passes + 1, value =>
      if 0 < value / 128 then
        (value % 128 + 128).toUInt8 :: lengthDigits passes (value / 128)
      else [(value % 128).toUInt8]

def encodeRemainingLength (value : ℕ) : Bytes :=
  if kMaxRemainingLength < value then [] else lengthDigits 4 value

/-- The loop of `DecodeRemainingLength`: the value and how many bytes it took. -/
def decodeLengthFrom : (passes : ℕ) → (value multiplier : ℕ) → Bytes → Option (ℕ × ℕ)
  | 0, _, _, _ => none
  | _ + 1, _, _, [] => none
  | passes + 1, value, multiplier, byte :: rest =>
      let value := value + byte.toNat % 128 * multiplier
      if byte.toNat < 128 then some (value, 1)
      else (decodeLengthFrom passes value (multiplier * 128) rest).map fun p => (p.1, p.2 + 1)

def decodeRemainingLength (buffer : Bytes) : Option (ℕ × ℕ) := decodeLengthFrom 4 0 1 buffer

/-- `AppendString`. -/
def mqttString (value : Bytes) : Bytes := uint16 value.length ++ value

/-- The big-endian number that two bytes hold. -/
def readUint16 (buffer : Bytes) (offset : ℕ) : ℕ :=
  (buffer.getD offset 0).toNat * 256 + (buffer.getD (offset + 1) 0).toNat

/-- `ReadString`: the string and the offset behind it. -/
def readString (buffer : Bytes) (offset : ℕ) : Option (Bytes × ℕ) :=
  if buffer.length < offset + 2 then none
  else
    let length := readUint16 buffer offset
    let start := offset + 2
    if buffer.length < start + length then none
    else some ((buffer.drop start).take length, start + length)

/-! ## Reading packets -/

/-- `TakePacket`: the first packet of a buffer and what is left behind it. -/
def takePacket (buffer : Bytes) : Option (MqttPacket × Bytes) :=
  match buffer with
  | [] => none
  | first :: rest =>
      match decodeRemainingLength rest with
      | none => none
      | some (remaining, lengthBytes) =>
          let headerSize := 1 + lengthBytes
          if buffer.length < headerSize + remaining then none
          else
            some ({ header :=
                      { type := .ofNibble (first.toNat / 16)
                        dup := first.toNat / 8 % 2 == 1
                        qos := first.toNat / 2 % 4
                        retain := first.toNat % 2 == 1
                        remainingLength := remaining }
                    body := (buffer.drop headerSize).take remaining },
              buffer.drop (headerSize + remaining))

def parseConnack (body : Bytes) : Option MqttConnack :=
  match body with
  | [flags, code] =>
      if flags.toNat / 2 ≠ 0 then none
      else (MqttConnectReturnCode.ofByte code.toNat).map fun code => ⟨flags.toNat % 2 == 1, code⟩
  | _ => none

def parsePublish (header : MqttFixedHeader) (body : Bytes) : Option MqttPublishMessage :=
  if 2 < header.qos then none
  else
    match readString body 0 with
    | none => none
    | some (topic, offset) =>
        if 0 < header.qos then
          if body.length < offset + 2 then none
          else
            some { topic := topic, packetId := readUint16 body offset, qos := header.qos,
                   retain := header.retain, payload := body.drop (offset + 2) }
        else
          some { topic := topic, qos := header.qos, retain := header.retain,
                 payload := body.drop offset }

def parseSuback (body : Bytes) : Option MqttSuback :=
  if body.length < 3 then none else some ⟨readUint16 body 0, body.drop 2⟩

def parsePacketId (body : Bytes) : Option ℕ :=
  if body.length = 2 then some (readUint16 body 0) else none

/-! ## Reading a longer buffer -/

theorem decodeLengthFrom_append {passes value multiplier : ℕ} {buffer : Bytes} {p : ℕ × ℕ}
    (h : decodeLengthFrom passes value multiplier buffer = some p) (t : Bytes) :
    decodeLengthFrom passes value multiplier (buffer ++ t) = some p := by
  induction passes generalizing value multiplier buffer p with
  | zero => cases h
  | succ passes ih =>
      cases buffer with
      | nil => cases h
      | cons byte rest =>
          simp only [decodeLengthFrom, List.cons_append] at h ⊢
          by_cases hlast : byte.toNat < 128
          · rw [if_pos hlast] at h ⊢
            exact h
          · rw [if_neg hlast] at h ⊢
            obtain ⟨q, hq, rfl⟩ := Option.map_eq_some_iff.mp h
            rw [ih hq]
            rfl

/-- A packet that is there is taken whatever follows it. -/
theorem takePacket_append {buffer rest : Bytes} {packet : MqttPacket}
    (h : takePacket buffer = some (packet, rest)) (t : Bytes) :
    takePacket (buffer ++ t) = some (packet, rest ++ t) := by
  cases buffer with
  | nil => cases h
  | cons first tail =>
      cases hlength : decodeRemainingLength tail with
      | none => simp [takePacket, hlength] at h
      | some p =>
          obtain ⟨remaining, lengthBytes⟩ := p
          have hlonger : decodeRemainingLength (tail ++ t) = some (remaining, lengthBytes) :=
            decodeLengthFrom_append hlength t
          simp only [takePacket, hlength] at h
          split at h
          · cases h
          · rename_i hfits
            obtain ⟨rfl, rfl⟩ := Prod.mk.inj (Option.some.inj h)
            rw [Nat.not_lt] at hfits
            have hfits' : ¬(first :: (tail ++ t)).length < 1 + lengthBytes + remaining := by
              simp only [List.length_cons, List.length_append] at hfits ⊢
              omega
            have hhead : 1 + lengthBytes ≤ (first :: tail).length := by omega
            have hbody : remaining ≤ ((first :: tail).drop (1 + lengthBytes)).length := by
              rw [List.length_drop]
              omega
            simp only [List.cons_append, takePacket, hlonger, if_neg hfits']
            rw [← List.cons_append, List.drop_append_of_le_length hhead,
              List.take_append_of_le_length hbody, List.drop_append_of_le_length hfits]

theorem takePacket_shorter {buffer rest : Bytes} {packet : MqttPacket}
    (h : takePacket buffer = some (packet, rest)) : rest.length < buffer.length := by
  cases buffer with
  | nil => cases h
  | cons first tail =>
      cases hlength : decodeRemainingLength tail with
      | none => simp [takePacket, hlength] at h
      | some p =>
          simp only [takePacket, hlength] at h
          split at h
          · cases h
          · obtain ⟨-, rfl⟩ := Prod.mk.inj (Option.some.inj h)
            simp only [List.length_drop, List.length_cons]
            omega

/-! ## Writing packets -/

/-- `Frame`. -/
def frame (type : MqttPacketType) (flags : ℕ) (body : Bytes) : Bytes :=
  (type.toNat * 16 + flags % 16).toUInt8 :: encodeRemainingLength body.length ++ body

/-- "MQTT". -/
def protocolName : Bytes := ascii ['M', 'Q', 'T', 'T']

/-- The flags byte of a CONNECT. The lowest two bits of `will.qos` go into it. -/
def connectFlags (options : MqttConnectOptions) : ℕ :=
  bit options.cleanSession 0x02 +
    (if options.hasWill then
      0x04 + (options.will.qos % 4).toNat * 8 + bit options.will.retain 0x20 else 0) +
    bit options.hasPassword 0x40 + bit options.hasUsername 0x80

def connectBody (options : MqttConnectOptions) : Bytes :=
  mqttString protocolName ++ [4] ++ [(connectFlags options).toUInt8] ++
    uint16 options.keepAliveSeconds ++ mqttString options.clientId ++
    (if options.hasWill then mqttString options.will.topic ++ mqttString options.will.payload
      else []) ++
    (if options.hasUsername then mqttString options.username else []) ++
    (if options.hasPassword then mqttString options.password else [])

def encodeConnect (options : MqttConnectOptions) : Bytes := frame .kConnect 0 (connectBody options)

def publishBody (packetId : ℕ) (topic payload : Bytes) (qos : ℕ) : Bytes :=
  mqttString topic ++ (if 0 < qos then uint16 packetId else []) ++ payload

/-- `EncodePublish` as the client calls it, without the DUP flag. -/
def encodePublish (packetId : ℕ) (topic payload : Bytes) (qos : ℕ) (retain : Bool) : Bytes :=
  frame .kPublish (flagsFor { qos := qos, retain := retain })
    (publishBody packetId topic payload qos)

/-- `EncodePublish` with its DUP flag. -/
def encodePublishAs (packetId : ℕ) (topic payload : Bytes) (qos : ℕ) (retain dup : Bool) : Bytes :=
  frame .kPublish (flagsFor { dup := dup, qos := qos, retain := retain })
    (publishBody packetId topic payload qos)

def subscribeBody (packetId : ℕ) (topic : Bytes) (qos : ℕ) : Bytes :=
  uint16 packetId ++ mqttString topic ++ [(qos % 4).toUInt8]

def encodeSubscribe (packetId : ℕ) (topic : Bytes) (qos : ℕ) : Bytes :=
  frame .kSubscribe 0x02 (subscribeBody packetId topic qos)

def encodeUnsubscribe (packetId : ℕ) (topic : Bytes) : Bytes :=
  frame .kUnsubscribe 0x02 (uint16 packetId ++ mqttString topic)

def encodePacketIdAck (type : MqttPacketType) (packetId : ℕ) : Bytes :=
  frame type (if type = .kPubrel then 0x02 else 0x00) (uint16 packetId)

/-- `EncodePacket`. -/
def encodePacket (header : MqttFixedHeader) (body : Bytes) : Bytes :=
  frame header.type (flagsFor header) body

def encodePingreq : Bytes := frame .kPingreq 0 []
def encodeDisconnect : Bytes := frame .kDisconnect 0 []

end EspModemLink.Mqtt
