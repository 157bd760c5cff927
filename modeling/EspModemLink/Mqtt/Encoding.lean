import EspModemLink.Mqtt.Packet

/-!
# Requests on the wire

What the readers make of the packets that the client writes. A string longer than its length field
and a body longer than the remaining length can say are not read back.
-/

namespace EspModemLink.Mqtt

open Bytes

/-! ## Frames -/

/-- The digits of a length are read back. -/
theorem decodeLengthFrom_digits (passes value : ℕ) (hvalue : value < 128 ^ passes)
    (hpasses : 0 < passes) (start multiplier : ℕ) (rest : Bytes) :
    decodeLengthFrom passes start multiplier (lengthDigits passes value ++ rest) =
      some (start + value * multiplier, (lengthDigits passes value).length) := by
  induction passes generalizing value start multiplier with
  | zero => omega
  | succ passes ih =>
      unfold lengthDigits
      by_cases hmore : 0 < value / 128
      · have hpos : 0 < passes := by
          obtain rfl | hpos := Nat.eq_zero_or_pos passes
          · simp at hvalue
            omega
          · exact hpos
        have hdigit : ((value % 128 + 128).toUInt8).toNat = value % 128 + 128 := by
          simp
          omega
        have hdiv : value / 128 < 128 ^ passes := by
          rw [Nat.pow_succ] at hvalue
          exact Nat.div_lt_of_lt_mul (by omega)
        simp only [if_pos hmore, List.cons_append, decodeLengthFrom, hdigit]
        rw [if_neg (by omega), ih (value / 128) hdiv hpos]
        have hmod : (value % 128 + 128) % 128 = value % 128 := by omega
        have hsum : start + value % 128 * multiplier + value / 128 * (multiplier * 128) =
            start + value * multiplier := by
          calc start + value % 128 * multiplier + value / 128 * (multiplier * 128)
              = start + (value % 128 + 128 * (value / 128)) * multiplier := by
                rw [Nat.add_mul, Nat.add_assoc, Nat.mul_comm multiplier 128, ← Nat.mul_assoc,
                  Nat.mul_comm (value / 128) 128]
            _ = start + value * multiplier := by rw [Nat.mod_add_div]
        simp only [Option.map_some, hmod, hsum, List.length_cons]
      · have hdigit : ((value % 128).toUInt8).toNat = value % 128 := by
          simp
          omega
        have hsmall : value % 128 = value := by
          have : value < 128 := by
            rw [Nat.not_lt, Nat.le_zero, Nat.div_eq_zero_iff] at hmore
            omega
          omega
        simp only [if_neg hmore, List.cons_append, decodeLengthFrom, hdigit]
        rw [if_pos (by omega), Nat.mod_mod, hsmall]
        simp

/-- The header that a frame carries. -/
def frameHeader (type : MqttPacketType) (flags : ℕ) (body : Bytes) : MqttFixedHeader :=
  { type := type
    dup := flags / 8 % 2 == 1
    qos := flags / 2 % 4
    retain := flags % 2 == 1
    remainingLength := body.length }

/-- A frame whose length can be expressed is taken as the packet it is. -/
theorem takePacket_frame {type : MqttPacketType} {flags : ℕ} {body : Bytes} (hflags : flags < 16)
    (hbody : body.length ≤ kMaxRemainingLength) :
    takePacket (frame type flags body) = some (⟨frameHeader type flags body, body⟩, []) := by
  have htype := type.toNat_lt
  have hlength : decodeRemainingLength (encodeRemainingLength body.length ++ body) =
      some (body.length, (encodeRemainingLength body.length).length) := by
    have hdigits := decodeLengthFrom_digits 4 body.length
      (by simp only [kMaxRemainingLength] at hbody; omega) (by omega) 0 1 body
    rw [Nat.zero_add, Nat.mul_one] at hdigits
    rw [decodeRemainingLength, encodeRemainingLength, if_neg (Nat.not_lt.mpr hbody)]
    exact hdigits
  have hfirst : ((type.toNat * 16 + flags % 16).toUInt8).toNat = type.toNat * 16 + flags := by
    simp
    omega
  have hnibble : (type.toNat * 16 + flags) / 16 = type.toNat := by omega
  have hdup : (type.toNat * 16 + flags) / 8 % 2 = flags / 8 % 2 := by omega
  have hqos : (type.toNat * 16 + flags) / 2 % 4 = flags / 2 % 4 := by omega
  have hretain : (type.toNat * 16 + flags) % 2 = flags % 2 := by omega
  have hfits : ¬(frame type flags body).length <
      1 + (encodeRemainingLength body.length).length + body.length := by
    simp only [frame, List.length_cons, List.length_append]
    omega
  have hframe : frame type flags body = (type.toNat * 16 + flags % 16).toUInt8 ::
      (encodeRemainingLength body.length ++ body) := rfl
  have hdrop : (frame type flags body).drop (1 + (encodeRemainingLength body.length).length) =
      body := by
    rw [hframe, Nat.add_comm, List.drop_succ_cons, List.drop_left]
  have hrest : (frame type flags body).drop
      (1 + (encodeRemainingLength body.length).length + body.length) = [] := by
    rw [← List.drop_drop, hdrop, List.drop_length]
  rw [hframe] at hfits hdrop hrest ⊢
  simp only [takePacket, hlength]
  rw [if_neg hfits, hdrop, hrest, hfirst, hnibble, hdup, hqos, hretain, List.take_length,
    MqttPacketType.ofNibble_toNat]
  rfl

/-- What was taken is shorter than the buffer by a header of two bytes at least. -/
theorem length_of_takePacket {buffer : Bytes} {p : MqttPacket}
    (h : takePacket buffer = some (p, [])) : p.body.length + 2 ≤ buffer.length := by
  cases buffer with
  | nil => cases h
  | cons first tail =>
      cases hlength : decodeRemainingLength tail with
      | none => simp [takePacket, hlength] at h
      | some q =>
          obtain ⟨remaining, lengthBytes⟩ := q
          have hpos : 0 < lengthBytes := by
            cases tail with
            | nil => cases hlength
            | cons byte rest =>
                simp only [decodeRemainingLength, decodeLengthFrom] at hlength
                split at hlength
                · obtain ⟨-, rfl⟩ := Prod.mk.inj (Option.some.inj hlength)
                  omega
                · obtain ⟨x, -, hx⟩ := Option.map_eq_some_iff.mp hlength
                  obtain ⟨-, rfl⟩ := Prod.mk.inj hx
                  omega
          simp only [takePacket, hlength] at h
          split at h
          · cases h
          · rename_i hfits
            obtain ⟨rfl, -⟩ := Prod.mk.inj (Option.some.inj h)
            simp only [List.length_take, List.length_drop]
            omega

/-! ## Fields -/

theorem uint16_length (value : ℕ) : (uint16 value).length = 2 := rfl

theorem mqttString_length (s : Bytes) : (mqttString s).length = 2 + s.length := by
  rw [mqttString, List.length_append, uint16_length]

theorem readUint16_lt (buffer : Bytes) (offset : ℕ) : readUint16 buffer offset < 65536 := by
  have h := (buffer.getD offset 0).toNat_lt
  have h' := (buffer.getD (offset + 1) 0).toNat_lt
  unfold readUint16
  omega

/-- A number that sixteen bits hold is read back. -/
theorem readUint16_of_drop {buffer rest : Bytes} {offset value : ℕ}
    (h : buffer.drop offset = uint16 value ++ rest) (hvalue : value < 65536) :
    readUint16 buffer offset = value := by
  have hget : ∀ i, buffer.getD (offset + i) 0 = (uint16 value ++ rest).getD i 0 := by
    intro i
    rw [← h, List.getD_eq_getElem?_getD, List.getD_eq_getElem?_getD, List.getElem?_drop]
  have h0 := hget 0
  have h1 := hget 1
  rw [Nat.add_zero] at h0
  unfold readUint16
  rw [h0, h1]
  simp only [uint16, byteAt, List.cons_append, List.nil_append, List.getD_cons_zero,
    List.getD_cons_succ, Nat.shiftRight_eq_div_pow]
  simp
  omega

/-- A string that the length field can express is read back. -/
theorem readString_of_drop {buffer rest s : Bytes} {offset : ℕ}
    (h : buffer.drop offset = mqttString s ++ rest) (hs : s.length < 65536) :
    readString buffer offset = some (s, offset + 2 + s.length) ∧
      buffer.drop (offset + 2 + s.length) = rest := by
  have hlength := congrArg List.length h
  rw [List.length_drop, List.length_append, mqttString_length] at hlength
  rw [mqttString, List.append_assoc] at h
  have hdrop : buffer.drop (offset + 2) = s ++ rest := by
    rw [← List.drop_drop, h]
    rfl
  constructor
  · unfold readString
    rw [readUint16_of_drop h hs, if_neg (by omega)]
    dsimp only
    rw [if_neg (by omega), hdrop, List.take_left]
  · rw [← List.drop_drop, hdrop, List.drop_left]

theorem readString_spec {buffer s : Bytes} {offset next : ℕ}
    (h : readString buffer offset = some (s, next)) :
    s.length < 65536 ∧ next = offset + 2 + s.length ∧ next ≤ buffer.length := by
  unfold readString at h
  split at h
  · cases h
  · dsimp only at h
    split at h
    · cases h
    · obtain ⟨rfl, rfl⟩ := Prod.mk.inj (Option.some.inj h)
      have hlt := readUint16_lt buffer offset
      simp only [List.length_take, List.length_drop]
      omega

/-! ## Requests -/

/-- What a request asks the broker for. -/
inductive Request where
  | connect (options : MqttConnectOptions)
  | publish (packetId : ℕ) (topic payload : Bytes) (qos : MqttQoS) (retain : Bool)
  | subscribe (packetId : ℕ) (topic : Bytes) (qos : MqttQoS)
  | unsubscribe (packetId : ℕ) (topic : Bytes)
deriving DecidableEq

/-- The packet that the client makes of a request. -/
def Request.encode : Request → Bytes
  | .connect options => encodeConnect options
  | .publish packetId topic payload qos retain =>
      encodePublish packetId topic payload qos.toNat retain
  | .subscribe packetId topic qos => encodeSubscribe packetId topic qos.toNat
  | .unsubscribe packetId topic => encodeUnsubscribe packetId topic

def MqttQoS.ofByte : ℕ → Option MqttQoS
  | 0 => some .kQoS0
  | 1 => some .kQoS1
  | 2 => some .kQoS2
  | _ => none

theorem MqttQoS.ofByte_toNat (qos : MqttQoS) : ofByte qos.toNat = some qos := by
  cases qos <;> rfl

theorem MqttQoS.toNat_of_ofByte {n : ℕ} {qos : MqttQoS} (h : ofByte n = some qos) :
    qos.toNat = n := by
  unfold ofByte at h
  split at h
  · obtain rfl := Option.some.inj h
    rfl
  · obtain rfl := Option.some.inj h
    rfl
  · obtain rfl := Option.some.inj h
    rfl
  · cases h

/-- A string that is there if its flag is set. -/
def readFlagged (flag : Bool) (body : Bytes) (offset : ℕ) : Option (Bytes × ℕ) :=
  if flag then readString body offset else some ([], offset)

/-- Whether a bit of a flags byte is set. -/
def hasBit (flags value : ℕ) : Bool := flags / value % 2 == 1

/-- The fields of a CONNECT, read one behind the other up to its end. -/
def readConnect (body : Bytes) : Option Request := do
  let (name, offset) ← readString body 0
  if name ≠ protocolName ∨ body[offset]? ≠ some 4 then none
  let flags ← body[offset + 1]?
  let (clientId, next) ← readString body (offset + 4)
  let (topic, next) ← readFlagged (hasBit flags.toNat 4) body next
  let (payload, next) ← readFlagged (hasBit flags.toNat 4) body next
  let (username, next) ← readFlagged (hasBit flags.toNat 128) body next
  let (password, next) ← readFlagged (hasBit flags.toNat 64) body next
  if next ≠ body.length then none
  some (.connect
    { clientId := clientId
      username := username
      password := password
      hasUsername := hasBit flags.toNat 128
      hasPassword := hasBit flags.toNat 64
      cleanSession := hasBit flags.toNat 2
      keepAliveSeconds := readUint16 body (offset + 2)
      hasWill := hasBit flags.toNat 4
      will :=
        { topic := topic
          payload := payload
          qos := (flags.toNat / 8 % 4 : ℕ)
          retain := hasBit flags.toNat 32 } })

/-- The packet id and the topic filter that SUBSCRIBE and UNSUBSCRIBE begin with. -/
def readFilter (body : Bytes) : Option (ℕ × Bytes × ℕ) := do
  let packetId ← parsePacketId (body.take 2)
  let (topic, next) ← readString body 2
  some (packetId, topic, next)

/-- The request that a packet carries. -/
def readRequest (p : MqttPacket) : Option Request :=
  match p.header.type with
  | .kConnect => readConnect p.body
  | .kPublish => do
      let m ← parsePublish p.header p.body
      let qos ← MqttQoS.ofByte m.qos
      some (.publish m.packetId m.topic m.payload qos m.retain)
  | .kSubscribe => do
      let (packetId, topic, next) ← readFilter p.body
      let qos ← p.body[next]?
      let qos ← MqttQoS.ofByte qos.toNat
      if p.body.length ≠ next + 1 then none
      some (.subscribe packetId topic qos)
  | .kUnsubscribe => do
      let (packetId, topic, next) ← readFilter p.body
      if p.body.length ≠ next then none
      some (.unsubscribe packetId topic)
  | _ => none

/-- The broker reads the request back, with nothing left over. -/
def Recovers (packet : Bytes) (r : Request) : Prop :=
  ∃ p, takePacket packet = some (p, []) ∧ readRequest p = some r

/-- The lengths that the encodings can express, and the two bits of a will's quality of service. -/
def Request.Fits : Request → Prop
  | .connect options =>
      options.clientId.length < 65536 ∧ options.username.length < 65536 ∧
        options.password.length < 65536 ∧ options.will.topic.length < 65536 ∧
        options.will.payload.length < 65536 ∧ 0 ≤ options.will.qos ∧ options.will.qos < 4
  | .publish packetId topic payload qos _ =>
      topic.length < 65536 ∧
        (publishBody packetId topic payload qos.toNat).length ≤ kMaxRemainingLength
  | .subscribe _ topic _ => topic.length < 65536
  | .unsubscribe _ topic => topic.length < 65536

/-- What the client itself puts into a request: packet ids and a keep-alive of sixteen bits, no
packet id at quality of service zero, and no field without its flag. -/
def Request.Formed : Request → Prop
  | .connect options =>
      options.keepAliveSeconds < 65536 ∧ (options.hasWill = false → options.will = {}) ∧
        (options.hasUsername = false → options.username = []) ∧
        (options.hasPassword = false → options.password = [])
  | .publish packetId _ _ qos _ => packetId < 65536 ∧ (qos = .kQoS0 → packetId = 0)
  | .subscribe packetId _ _ => packetId < 65536
  | .unsubscribe packetId _ => packetId < 65536

/-- The fields of a PUBLISH are read back. At quality of service zero there is no packet id. -/
theorem parsePublish_publishBody {header : MqttFixedHeader} {packetId : ℕ} {topic payload : Bytes}
    (hqos : header.qos ≤ 2) (htopic : topic.length < 65536) (hid : packetId < 65536) :
    parsePublish header (publishBody packetId topic payload header.qos) =
      some { topic := topic, packetId := if 0 < header.qos then packetId else 0,
             qos := header.qos, retain := header.retain, payload := payload } := by
  have hdrop : (publishBody packetId topic payload header.qos).drop 0 =
      mqttString topic ++ ((if 0 < header.qos then uint16 packetId else []) ++ payload) := by
    rw [List.drop_zero, publishBody, List.append_assoc]
  obtain ⟨hread, hrest⟩ := readString_of_drop hdrop htopic
  rw [parsePublish, if_neg (by omega), hread]
  by_cases hpos : 0 < header.qos
  · rw [if_pos hpos] at hrest
    have hpayload : (publishBody packetId topic payload header.qos).drop
        (0 + 2 + topic.length + 2) = payload := by
      rw [← List.drop_drop, hrest]
      rfl
    have henough : ¬(publishBody packetId topic payload header.qos).length <
        0 + 2 + topic.length + 2 := by
      simp only [publishBody, if_pos hpos, List.length_append, mqttString_length, uint16_length]
      omega
    simp only [if_pos hpos, if_neg henough, hpayload, readUint16_of_drop hrest hid]
  · rw [if_neg hpos, List.nil_append] at hrest
    simp only [if_neg hpos, hrest]

/-- A PUBLISH that fits is read back. -/
theorem recovers_publish {packetId : ℕ} {topic payload : Bytes} {qos : MqttQoS} {retain : Bool}
    (hfits : (Request.publish packetId topic payload qos retain).Fits)
    (hformed : (Request.publish packetId topic payload qos retain).Formed) :
    Recovers (encodePublish packetId topic payload qos.toNat retain)
      (.publish packetId topic payload qos retain) := by
  obtain ⟨htopic, hlength⟩ := hfits
  obtain ⟨hid, hzero⟩ := hformed
  have hflags : flagsFor { qos := qos.toNat, retain := retain } < 16 := by
    cases qos <;> cases retain <;> decide
  refine ⟨_, takePacket_frame hflags hlength, ?_⟩
  have hqos : flagsFor { qos := qos.toNat, retain := retain } / 2 % 4 = qos.toNat := by
    cases qos <;> cases retain <;> rfl
  have hretain : (flagsFor { qos := qos.toNat, retain := retain } % 2 == 1) = retain := by
    cases qos <;> cases retain <;> rfl
  have htwo := qos.toNat_lt
  set body := publishBody packetId topic payload qos.toNat with hbody
  set header := frameHeader .kPublish (flagsFor { qos := qos.toNat, retain := retain }) body
    with hheader
  have hheaderQos : header.qos = qos.toNat := hqos
  have hheaderRetain : header.retain = retain := hretain
  have hparse : parsePublish header body =
      some { topic := topic, packetId := packetId, qos := qos.toNat, retain := retain,
             payload := payload } := by
    have hread := @parsePublish_publishBody header packetId topic payload
      (by rw [hheaderQos]; omega) htopic hid
    rw [hheaderQos, hheaderRetain, ← hbody] at hread
    rw [hread]
    cases qos with
    | kQoS0 => rw [hzero rfl]; rfl
    | kQoS1 | kQoS2 => rfl
  have htype : header.type = .kPublish := rfl
  simp only [readRequest, htype, hparse, Option.bind_eq_bind, Option.bind_some,
    MqttQoS.ofByte_toNat]

theorem readFilter_of_eq {packetId : ℕ} {topic rest body : Bytes}
    (hbody : body = uint16 packetId ++ (mqttString topic ++ rest)) (hid : packetId < 65536)
    (htopic : topic.length < 65536) :
    readFilter body = some (packetId, topic, 2 + 2 + topic.length) ∧
      body.drop (2 + 2 + topic.length) = rest := by
  have hdrop : body.drop 2 = mqttString topic ++ rest := by
    rw [hbody]
    rfl
  obtain ⟨hread, hrest⟩ := readString_of_drop hdrop htopic
  refine ⟨?_, hrest⟩
  have hhead : body.take 2 = uint16 packetId := by
    rw [hbody]
    rfl
  have hparse : parsePacketId (uint16 packetId) = some packetId := by
    have hnothing : (uint16 packetId).drop 0 = uint16 packetId ++ [] := by simp
    rw [parsePacketId, if_pos (uint16_length packetId), readUint16_of_drop hnothing hid]
  simp only [readFilter, hhead, hparse, hread, Option.bind_eq_bind, Option.bind_some]

theorem recovers_subscribe {packetId : ℕ} {topic : Bytes} {qos : MqttQoS}
    (htopic : topic.length < 65536) (hid : packetId < 65536) :
    Recovers (encodeSubscribe packetId topic qos.toNat) (.subscribe packetId topic qos) := by
  have hlength : (subscribeBody packetId topic qos.toNat).length = 2 + (2 + topic.length) + 1 := by
    simp only [subscribeBody, List.length_append, uint16_length, mqttString_length,
      List.length_singleton]
  have hmax : (subscribeBody packetId topic qos.toNat).length ≤ kMaxRemainingLength := by
    rw [hlength, kMaxRemainingLength]
    omega
  refine ⟨_, takePacket_frame (by decide) hmax, ?_⟩
  have hbody : subscribeBody packetId topic qos.toNat =
      uint16 packetId ++ (mqttString topic ++ [(qos.toNat % 4).toUInt8]) := by
    rw [subscribeBody, List.append_assoc]
  obtain ⟨hread, hrest⟩ := readFilter_of_eq hbody hid htopic
  have hqos : (subscribeBody packetId topic qos.toNat)[2 + 2 + topic.length]? =
      some (qos.toNat % 4).toUInt8 := by
    have hget : ((subscribeBody packetId topic qos.toNat).drop (2 + 2 + topic.length))[0]? =
        (subscribeBody packetId topic qos.toNat)[2 + 2 + topic.length + 0]? := List.getElem?_drop
    rw [hrest] at hget
    exact hget.symm
  have hbyte : ((qos.toNat % 4).toUInt8).toNat = qos.toNat := by
    cases qos <;> rfl
  simp only [readRequest, frameHeader, hread, hqos, hbyte, Option.bind_eq_bind, Option.bind_some,
    MqttQoS.ofByte_toNat]
  rw [if_neg (by omega)]

theorem recovers_unsubscribe {packetId : ℕ} {topic : Bytes} (htopic : topic.length < 65536)
    (hid : packetId < 65536) :
    Recovers (encodeUnsubscribe packetId topic) (.unsubscribe packetId topic) := by
  have hlength : (uint16 packetId ++ mqttString topic).length = 2 + (2 + topic.length) := by
    rw [List.length_append, uint16_length, mqttString_length]
  have hmax : (uint16 packetId ++ mqttString topic).length ≤ kMaxRemainingLength := by
    rw [hlength, kMaxRemainingLength]
    omega
  refine ⟨_, takePacket_frame (by decide) hmax, ?_⟩
  have hbody : uint16 packetId ++ mqttString topic =
      uint16 packetId ++ (mqttString topic ++ []) := by
    rw [List.append_nil]
  obtain ⟨hread, -⟩ := readFilter_of_eq hbody hid htopic
  simp only [readRequest, frameHeader, hread, Option.bind_eq_bind, Option.bind_some]
  rw [if_neg (by omega)]

/-! ### CONNECT -/

/-- The fields behind the keep-alive. -/
def connectFields (options : MqttConnectOptions) : Bytes :=
  mqttString options.clientId ++
    ((if options.hasWill then mqttString options.will.topic else []) ++
      ((if options.hasWill then mqttString options.will.payload else []) ++
        ((if options.hasUsername then mqttString options.username else []) ++
          ((if options.hasPassword then mqttString options.password else []) ++ []))))

theorem connectBody_eq (options : MqttConnectOptions) :
    connectBody options = mqttString protocolName ++
      (4 :: (connectFlags options).toUInt8 ::
        (uint16 options.keepAliveSeconds ++ connectFields options)) := by
  unfold connectBody connectFields
  cases options.hasWill <;> simp

theorem hasBit_eq {flags value : ℕ} {b : Bool} (h : flags / value % 2 = b.toNat) :
    hasBit flags value = b := by
  rw [hasBit, h]
  cases b <;> rfl

/-- The flags byte is the sum of its bits. The will brings three of its own, and none if it is
not there. -/
theorem connectFlags_eq (options : MqttConnectOptions) : ∃ qos retain : ℕ,
    connectFlags options = 2 * options.cleanSession.toNat + 4 * options.hasWill.toNat + 8 * qos +
      32 * retain + 64 * options.hasPassword.toNat + 128 * options.hasUsername.toNat ∧
    qos < 4 ∧ retain < 2 ∧
    (options.hasWill = true →
      qos = (options.will.qos % 4).toNat ∧ retain = options.will.retain.toNat) ∧
    (options.hasWill = false → qos = 0 ∧ retain = 0) := by
  have hbit : ∀ (b : Bool) (value : ℕ), bit b value = value * b.toNat := by
    intro b value
    cases b <;> simp [bit]
  unfold connectFlags
  simp only [hbit]
  cases options.hasWill with
  | false => exact ⟨0, 0, by simp, by decide, by decide, by simp, by simp⟩
  | true =>
      have hretain := options.will.retain.toNat_lt
      refine ⟨(options.will.qos % 4).toNat, options.will.retain.toNat, ?_, by omega, hretain,
        fun _ => ⟨rfl, rfl⟩, by simp⟩
      simp only [if_true, Bool.toNat_true]
      omega

theorem connectFlags_lt (options : MqttConnectOptions) : connectFlags options < 256 := by
  obtain ⟨qos, retain, hflags, hqos, hretain, -⟩ := connectFlags_eq options
  have hclean := options.cleanSession.toNat_lt
  have hwill := options.hasWill.toNat_lt
  have hpassword := options.hasPassword.toNat_lt
  have husername := options.hasUsername.toNat_lt
  omega

/-- The flags byte tells the flags apart. -/
theorem hasBit_connectFlags (options : MqttConnectOptions) :
    hasBit (connectFlags options) 2 = options.cleanSession ∧
      hasBit (connectFlags options) 4 = options.hasWill ∧
      hasBit (connectFlags options) 64 = options.hasPassword ∧
      hasBit (connectFlags options) 128 = options.hasUsername := by
  obtain ⟨qos, retain, hflags, hqos, hretain, -⟩ := connectFlags_eq options
  have hclean := options.cleanSession.toNat_lt
  have hwill := options.hasWill.toNat_lt
  have hpassword := options.hasPassword.toNat_lt
  have husername := options.hasUsername.toNat_lt
  refine ⟨hasBit_eq ?_, hasBit_eq ?_, hasBit_eq ?_, hasBit_eq ?_⟩ <;> omega

/-- The flags byte keeps the quality of service of a will in range, and its retain flag. -/
theorem will_of_connectFlags {options : MqttConnectOptions}
    (hnone : options.hasWill = false → options.will = {}) (hqos : 0 ≤ options.will.qos)
    (hqos' : options.will.qos < 4) :
    ((connectFlags options / 8 % 4 : ℕ) : Int) = options.will.qos ∧
      hasBit (connectFlags options) 32 = options.will.retain := by
  obtain ⟨qos, retain, hflags, hlt, hretain, htrue, hfalse⟩ := connectFlags_eq options
  have hclean := options.cleanSession.toNat_lt
  have hwill := options.hasWill.toNat_lt
  have hread : connectFlags options / 8 % 4 = qos ∧ connectFlags options / 32 % 2 = retain := by
    omega
  rw [hread.1]
  cases hhas : options.hasWill with
  | false =>
      obtain ⟨rfl, rfl⟩ := hfalse hhas
      rw [hnone hhas]
      exact ⟨rfl, hasBit_eq hread.2⟩
  | true =>
      obtain ⟨rfl, rfl⟩ := htrue hhas
      exact ⟨by omega, hasBit_eq hread.2⟩

theorem readFlagged_of_drop {buffer rest s : Bytes} {offset : ℕ} {flag : Bool}
    (h : buffer.drop offset = (if flag then mqttString s else []) ++ rest)
    (hs : s.length < 65536) (hoffset : offset ≤ buffer.length) (hnone : flag = false → s = []) :
    ∃ next, readFlagged flag buffer offset = some (s, next) ∧ buffer.drop next = rest ∧
      next ≤ buffer.length := by
  cases flag with
  | true =>
      obtain ⟨hread, hrest⟩ := readString_of_drop h hs
      exact ⟨_, hread, hrest, (readString_spec hread).2.2⟩
  | false =>
      refine ⟨offset, ?_, h, hoffset⟩
      rw [hnone rfl]
      rfl

theorem recovers_connect {options : MqttConnectOptions} (hfits : (Request.connect options).Fits)
    (hformed : (Request.connect options).Formed) :
    Recovers (encodeConnect options) (.connect options) := by
  obtain ⟨hclient, husername, hpassword, htopic, hpayload, hqos, hqos'⟩ := hfits
  obtain ⟨hkeepAlive, hwill, hnouser, hnopass⟩ := hformed
  have hflagged : ∀ (flag : Bool) (s : Bytes), s.length < 65536 →
      ((if flag then mqttString s else []) : Bytes).length < 65538 := by
    intro flag s hs
    cases flag with
    | true =>
        rw [if_pos rfl, mqttString_length]
        omega
    | false => simp
  have hmax : (connectBody options).length ≤ kMaxRemainingLength := by
    have h1 := hflagged options.hasWill _ htopic
    have h2 := hflagged options.hasWill _ hpayload
    have h3 := hflagged options.hasUsername _ husername
    have h4 := hflagged options.hasPassword _ hpassword
    rw [connectBody_eq, kMaxRemainingLength]
    simp only [connectFields, List.length_append, mqttString_length, uint16_length,
      List.length_cons, List.length_nil, protocolName, ascii, List.length_map]
    omega
  refine ⟨_, takePacket_frame (by decide) hmax, ?_⟩
  obtain ⟨hclean, hhasWill, hhasPassword, hhasUsername⟩ := hasBit_connectFlags options
  have hbyte : ((connectFlags options).toUInt8).toNat = connectFlags options := by
    have := connectFlags_lt options
    simp
    omega
  have hname : (connectBody options).drop 0 = mqttString protocolName ++
      (4 :: (connectFlags options).toUInt8 ::
        (uint16 options.keepAliveSeconds ++ connectFields options)) := by
    rw [List.drop_zero, connectBody_eq]
  obtain ⟨hreadName, hhead⟩ := readString_of_drop hname (by decide)
  have hsix : 0 + 2 + protocolName.length = 6 := rfl
  rw [hsix] at hreadName hhead
  have hat : ∀ i, (connectBody options)[6 + i]? = ((connectBody options).drop 6)[i]? := by
    intro i
    rw [List.getElem?_drop]
  have hlevel : (connectBody options)[6]? = some 4 := by
    have := hat 0
    rw [hhead] at this
    exact this
  have hflags : (connectBody options)[6 + 1]? = some (connectFlags options).toUInt8 := by
    have := hat 1
    rw [hhead] at this
    exact this
  have htail : (connectBody options).drop (6 + 2) =
      uint16 options.keepAliveSeconds ++ connectFields options := by
    rw [← List.drop_drop, hhead]
    rfl
  have hkeep := readUint16_of_drop htail hkeepAlive
  have hfields : (connectBody options).drop (6 + 4) = connectFields options := by
    rw [← List.drop_drop, hhead]
    rfl
  obtain ⟨hreadClient, hrest⟩ := readString_of_drop hfields hclient
  have hle := (readString_spec hreadClient).2.2
  obtain ⟨n1, hreadTopic, hrest, hle⟩ := readFlagged_of_drop hrest htopic hle
    fun h => by rw [hwill h]
  obtain ⟨n2, hreadPayload, hrest, hle⟩ := readFlagged_of_drop hrest hpayload hle
    fun h => by rw [hwill h]
  obtain ⟨n3, hreadUser, hrest, hle⟩ := readFlagged_of_drop hrest husername hle hnouser
  obtain ⟨n4, hreadPass, hrest, hle⟩ := readFlagged_of_drop hrest hpassword hle hnopass
  have hend : n4 = (connectBody options).length := by
    have := List.drop_eq_nil_iff.mp hrest
    omega
  have hsame : (⟨options.will.topic, options.will.payload, (connectFlags options / 8 % 4 : ℕ),
      hasBit (connectFlags options) 32⟩ : MqttWill) = options.will := by
    obtain ⟨hq, hr⟩ := will_of_connectFlags hwill hqos hqos'
    rw [hq, hr]
  have htype : (frameHeader .kConnect 0 (connectBody options)).type = .kConnect := rfl
  simp only [readRequest, htype, readConnect, hreadName, hlevel, hflags, hbyte, hhasWill,
    hhasUsername, hhasPassword, hclean, hreadClient, hreadTopic, hreadPayload, hreadUser, hreadPass,
    hkeep, hend, hsame, Option.bind_eq_bind, Option.bind_some, ne_eq, not_true, or_self, if_false]

/-! ### Requests that do not fit -/

/-- Whatever is read of a CONNECT fits. -/
theorem fits_of_readConnect {body : Bytes} {options : MqttConnectOptions}
    (h : readConnect body = some (.connect options)) : (Request.connect options).Fits := by
  have hflagged : ∀ {flag : Bool} {offset : ℕ} {p : Bytes × ℕ},
      readFlagged flag body offset = some p → p.1.length < 65536 := by
    intro flag offset p hp
    cases flag with
    | true => exact (readString_spec hp).1
    | false =>
        obtain rfl := Option.some.inj hp
        simp
  simp only [readConnect, Option.bind_eq_bind, Option.bind_none, Option.bind_eq_some_iff,
    Option.ite_none_left_eq_some] at h
  obtain ⟨⟨name, offset⟩, -, -, flags, -, ⟨clientId, n⟩, hclient, ⟨topic, n1⟩, htopic,
    ⟨payload, n2⟩, hpayload, ⟨username, n3⟩, huser, ⟨password, n4⟩, hpass, -, h⟩ := h
  obtain rfl := Request.connect.inj (Option.some.inj h)
  refine ⟨(readString_spec hclient).1, hflagged huser, hflagged hpass, hflagged htopic,
    hflagged hpayload, ?_, ?_⟩
  · exact Int.natCast_nonneg _
  · have : flags.toNat / 8 % 4 < 4 := Nat.mod_lt _ (by decide)
    simp only
    omega

theorem topic_of_readFilter {body topic : Bytes} {packetId next : ℕ}
    (h : readFilter body = some (packetId, topic, next)) : topic.length < 65536 := by
  simp only [readFilter, Option.bind_eq_bind, Option.bind_eq_some_iff] at h
  obtain ⟨id, -, ⟨s, n⟩, hread, h⟩ := h
  obtain ⟨-, rfl, -⟩ : id = packetId ∧ s = topic ∧ n = next := by simpa using h
  exact (readString_spec hread).1

/-- The fields of a PUBLISH that is read make up its body. -/
theorem parsePublish_spec {header : MqttFixedHeader} {body : Bytes} {m : MqttPublishMessage}
    (h : parsePublish header body = some m) :
    m.qos = header.qos ∧ m.topic.length < 65536 ∧
      (publishBody m.packetId m.topic m.payload m.qos).length = body.length := by
  unfold parsePublish at h
  split at h
  · cases h
  · split at h
    · cases h
    · rename_i topic offset hread
      obtain ⟨htopic, hoffset, hle⟩ := readString_spec hread
      split at h
      · rename_i hpos
        split at h
        · cases h
        · obtain rfl := Option.some.inj h
          refine ⟨rfl, htopic, ?_⟩
          simp only [publishBody, if_pos hpos, List.length_append, mqttString_length,
            uint16_length, List.length_drop]
          omega
      · rename_i hpos
        obtain rfl := Option.some.inj h
        refine ⟨rfl, htopic, ?_⟩
        simp only [publishBody, if_neg hpos, List.length_append, mqttString_length,
          List.length_nil, List.length_drop]
        omega

/-- The frame of a body that is too long lacks its length, so that no body of this length is
taken off it. -/
theorem length_of_takePacket_frame {type : MqttPacketType} {flags : ℕ} {body : Bytes}
    {p : MqttPacket} (h : takePacket (frame type flags body) = some (p, []))
    (hsame : p.body.length = body.length) : body.length ≤ kMaxRemainingLength := by
  by_contra hlong
  have hle := length_of_takePacket h
  have hnone : encodeRemainingLength body.length = [] := by
    rw [encodeRemainingLength, if_pos (by omega)]
  simp only [frame, hnone, List.cons_append, List.nil_append, List.length_cons] at hle
  omega

/-- Whatever is read of a packet fits, but for the length of a PUBLISH, which is that of the body. -/
theorem readRequest_spec {p : MqttPacket} {r : Request} (h : readRequest p = some r) :
    r.Fits ∨ ∃ packetId topic payload qos retain,
      r = .publish packetId topic payload qos retain ∧ topic.length < 65536 ∧
        (publishBody packetId topic payload qos.toNat).length = p.body.length := by
  unfold readRequest at h
  split at h
  · left
    cases r with
    | connect options => exact fits_of_readConnect h
    | publish | subscribe | unsubscribe =>
        simp only [readConnect, Option.bind_eq_bind, Option.bind_none, Option.bind_eq_some_iff,
          Option.ite_none_left_eq_some] at h
        obtain ⟨_, -, -, _, -, _, -, _, -, _, -, _, -, _, -, -, h⟩ := h
        cases h
  · right
    simp only [Option.bind_eq_bind, Option.bind_eq_some_iff] at h
    obtain ⟨m, hparse, qos, hqos, h⟩ := h
    obtain rfl := Option.some.inj h
    obtain ⟨-, htopic, hbody⟩ := parsePublish_spec hparse
    rw [← MqttQoS.toNat_of_ofByte hqos] at hbody
    exact ⟨_, _, _, _, _, rfl, htopic, hbody⟩
  · left
    simp only [Option.bind_eq_bind, Option.bind_eq_some_iff] at h
    obtain ⟨⟨packetId, topic, next⟩, hfilter, byte, -, qos, -, h⟩ := h
    split at h
    · cases h
    · obtain rfl := Option.some.inj h
      exact topic_of_readFilter hfilter
  · left
    simp only [Option.bind_eq_bind, Option.bind_eq_some_iff] at h
    obtain ⟨⟨packetId, topic, next⟩, hfilter, h⟩ := h
    split at h
    · cases h
    · obtain rfl := Option.some.inj h
      exact topic_of_readFilter hfilter
  · cases h

/-- A request is read back exactly if it fits. -/
theorem recovers_encode_iff {r : Request} (hformed : r.Formed) : Recovers r.encode r ↔ r.Fits := by
  constructor
  · rintro ⟨p, htake, hread⟩
    obtain hfits | ⟨packetId, topic, payload, qos, retain, rfl, htopic, hbody⟩ :=
      readRequest_spec hread
    · exact hfits
    · exact ⟨htopic, length_of_takePacket_frame htake hbody.symm⟩
  · intro hfits
    cases r with
    | connect options => exact recovers_connect hfits hformed
    | publish packetId topic payload qos retain => exact recovers_publish hfits hformed
    | subscribe packetId topic qos => exact recovers_subscribe hfits hformed
    | unsubscribe packetId topic => exact recovers_unsubscribe hfits hformed

end EspModemLink.Mqtt
