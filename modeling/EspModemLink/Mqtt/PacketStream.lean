import EspModemLink.Library.Cutting
import EspModemLink.Mqtt.Encoding
import Mathlib.Tactic.Ring

/-!
# A stream of MQTT packets

`TakePacket` over a byte stream that arrives in pieces, and the round trips: packets through the
stream, a taken packet back to its bytes, and the fields of a PUBLISH.
-/

namespace EspModemLink.Mqtt

open Bytes

/-! ## The packets of a stream -/

/-- `TakePacket` over and over. -/
def packetReader : Cutting.Reader (List MqttPacket) UInt8 where
  halted _ := false
  take packets buffer := (takePacket buffer).map fun p => (packets ++ [p.1], p.2)
  shorter h := by
    obtain ⟨p, hp, heq⟩ := Option.map_eq_some_iff.mp h
    obtain ⟨-, rfl⟩ := Prod.mk.inj heq
    exact takePacket_shorter hp

/-- The packets that a byte stream holds, in order. -/
def packetsOf (stream : Bytes) : List MqttPacket := (packetReader.drain [] stream).1

theorem packetReader_resumes : packetReader.Resumes fun _ _ => True := by
  intro packets packets' buffer rest t _ _ h
  left
  obtain ⟨p, hp, heq⟩ := Option.map_eq_some_iff.mp h
  obtain ⟨rfl, rfl⟩ := Prod.mk.inj heq
  simp only [packetReader, takePacket_append hp t, Option.map_some]

/-- Packets that were read stay in front. -/
theorem prefix_drain (packets : List MqttPacket) (buffer : Bytes) :
    packets <+: (packetReader.drain packets buffer).1 := by
  refine Cutting.Reader.drain_invariant (I := fun s => packets <+: s) ?_ (List.prefix_refl packets)
  intro s b s' r h hs
  obtain ⟨p, -, heq⟩ := Option.map_eq_some_iff.mp h
  obtain ⟨rfl, -⟩ := Prod.mk.inj heq
  exact hs.trans (List.prefix_append s [p.1])

theorem drain_of_takePacket {packets : List MqttPacket} {buffer rest : Bytes} {p : MqttPacket}
    (h : takePacket buffer = some (p, rest)) :
    packetReader.drain packets buffer = packetReader.drain (packets ++ [p]) rest := by
  apply Cutting.Reader.drain_of_take
  · rfl
  · simp only [packetReader, h, Option.map_some]

/-- Append the pieces one after the other, and call `TakePacket` behind each until it returns
nothing: the packets, and the bytes that are left. -/
def receivePackets (pieces : List Bytes) : List MqttPacket × Bytes :=
  packetReader.feedAll ([], []) pieces

/-- The packets and the buffer in front of every call of `TakePacket` that follows a piece. -/
def momentsOf (front : List Bytes) (piece : Bytes) : List (List MqttPacket × Bytes) :=
  packetReader.visits (receivePackets front).1 ((receivePackets front).2 ++ piece)

theorem receivePackets_eq_drain (pieces : List Bytes) :
    receivePackets pieces = packetReader.drain [] pieces.flatten :=
  Cutting.Reader.feedAll_eq_feed packetReader_resumes [] pieces fun _ _ => trivial

/-! ## Packets through the stream -/

/-- What `EncodePacket` can put on the wire: a type that has a name, two bits of quality of service,
and a body whose length the length field can say. -/
def Encodable (header : MqttFixedHeader) (body : Bytes) : Prop :=
  1 ≤ header.type.toNat ∧ header.type.toNat ≤ 14 ∧ header.qos < 4 ∧
    body.length ≤ kMaxRemainingLength

/-- The packet that a header and a body arrive as. -/
def arriving (p : MqttFixedHeader × Bytes) : MqttPacket :=
  ⟨{ p.1 with remainingLength := p.2.length }, p.2⟩

/-- Packets encoded one behind the other. -/
def encodePackets (packets : List (MqttFixedHeader × Bytes)) : Bytes :=
  packets.flatMap fun p => encodePacket p.1 p.2

theorem encodePackets_cons (p : MqttFixedHeader × Bytes)
    (packets : List (MqttFixedHeader × Bytes)) :
    encodePackets (p :: packets) = encodePacket p.1 p.2 ++ encodePackets packets := rfl

theorem encodePackets_append (front back : List (MqttFixedHeader × Bytes)) :
    encodePackets (front ++ back) = encodePackets front ++ encodePackets back :=
  List.flatMap_append

theorem flagsFor_lt (header : MqttFixedHeader) : flagsFor header < 16 := by
  have hdup : bit header.dup 0x08 = 0 ∨ bit header.dup 0x08 = 8 := by
    cases header.dup <;> simp [bit]
  have hretain : bit header.retain 0x01 = 0 ∨ bit header.retain 0x01 = 1 := by
    cases header.retain <;> simp [bit]
  unfold flagsFor
  omega

/-- The flags of a header are read back. -/
theorem frameHeader_flagsFor {header : MqttFixedHeader} {body : Bytes} (hqos : header.qos < 4) :
    frameHeader header.type (flagsFor header) body =
      { header with remainingLength := body.length } := by
  obtain ⟨type, dup, qos, retain, remaining⟩ := header
  have hflags : flagsFor ⟨type, dup, qos, retain, remaining⟩ =
      bit dup 0x08 + qos * 2 + bit retain 0x01 := by
    rw [flagsFor, Nat.mod_eq_of_lt hqos]
  dsimp only at hqos
  rw [frameHeader, hflags]
  congr 1
  · cases dup <;> cases retain <;> simp [bit] <;> omega
  · cases dup <;> cases retain <;> simp [bit] <;> omega
  · cases dup <;> cases retain <;> grind [bit]

/-- A packet is taken off the front of whatever follows it. -/
theorem takePacket_encodePacket {p : MqttFixedHeader × Bytes} (h : Encodable p.1 p.2)
    (rest : Bytes) : takePacket (encodePacket p.1 p.2 ++ rest) = some (arriving p, rest) := by
  obtain ⟨-, -, hqos, hbody⟩ := h
  have hframe : takePacket (encodePacket p.1 p.2) =
      some (⟨frameHeader p.1.type (flagsFor p.1) p.2, p.2⟩, []) :=
    takePacket_frame (flagsFor_lt p.1) hbody
  rw [takePacket_append hframe rest, frameHeader_flagsFor hqos, List.nil_append]
  rfl

/-- The packets that were taken are the first ones, and the buffer is what has arrived of the
others. -/
def TakenSoFar (packets : List (MqttFixedHeader × Bytes)) (arrived : Bytes)
    (taken : List MqttPacket) (buffer : Bytes) : Prop :=
  ∃ n, taken = (packets.take n).map arriving ∧ encodePackets (packets.take n) ++ buffer = arrived

theorem TakenSoFar.arrive {packets : List (MqttFixedHeader × Bytes)} {arrived buffer : Bytes}
    {taken : List MqttPacket} (h : TakenSoFar packets arrived taken buffer) (piece : Bytes) :
    TakenSoFar packets (arrived ++ piece) taken (buffer ++ piece) := by
  obtain ⟨n, htaken, hbuffer⟩ := h
  exact ⟨n, htaken, by rw [← hbuffer, List.append_assoc]⟩

section Stream

variable {packets : List (MqttFixedHeader × Bytes)} {arrived later buffer : Bytes}
  {taken : List MqttPacket}

/-- What is in the buffer and what is still to come are the packets that were not taken. -/
theorem TakenSoFar.untaken (h : TakenSoFar packets arrived taken buffer)
    (hstream : arrived ++ later = encodePackets packets) :
    ∃ n, taken = (packets.take n).map arriving ∧
      encodePackets (packets.take n) ++ buffer = arrived ∧
      buffer ++ later = encodePackets (packets.drop n) := by
  obtain ⟨n, htaken, hbuffer⟩ := h
  refine ⟨n, htaken, hbuffer, ?_⟩
  have hsplit : encodePackets (packets.take n) ++ (buffer ++ later) =
      encodePackets (packets.take n) ++ encodePackets (packets.drop n) := by
    rw [← List.append_assoc, hbuffer, hstream, ← encodePackets_append, List.take_append_drop]
  exact List.append_cancel_left hsplit

/-- The next packet to be taken is the next one of the list. -/
theorem TakenSoFar.take (hpackets : ∀ p ∈ packets, Encodable p.1 p.2)
    (hstream : arrived ++ later = encodePackets packets)
    (h : TakenSoFar packets arrived taken buffer) {p : MqttPacket} {rest : Bytes}
    (htake : takePacket buffer = some (p, rest)) :
    TakenSoFar packets arrived (taken ++ [p]) rest := by
  obtain ⟨n, htaken, hbuffer, huntaken⟩ := h.untaken hstream
  have hlonger := takePacket_append htake later
  cases hdrop : packets.drop n with
  | nil =>
      rw [huntaken, hdrop] at hlonger
      cases hlonger
  | cons q others =>
      have hq : q ∈ packets := List.mem_of_mem_drop (by rw [hdrop]; exact List.mem_cons_self)
      have hfirst := takePacket_encodePacket (hpackets q hq) (encodePackets others)
      rw [huntaken, hdrop, encodePackets_cons, hfirst] at hlonger
      obtain ⟨rfl, hrest⟩ := Prod.mk.inj (Option.some.inj hlonger)
      have hfront : buffer = encodePacket q.1 q.2 ++ rest := by
        have hbehind : buffer ++ later = encodePacket q.1 q.2 ++ rest ++ later := by
          rw [List.append_assoc, ← hrest, huntaken, hdrop, encodePackets_cons]
        exact List.append_cancel_right hbehind
      have hnext : packets.take (n + 1) = packets.take n ++ [q] := by
        rw [List.take_add, hdrop]
        rfl
      refine ⟨n + 1, ?_, ?_⟩
      · rw [htaken, hnext, List.map_append]
        rfl
      · rw [hnext, encodePackets_append, List.append_assoc, ← hbuffer, hfront]
        simp [encodePackets]

theorem TakenSoFar.visits (hpackets : ∀ p ∈ packets, Encodable p.1 p.2)
    (hstream : arrived ++ later = encodePackets packets)
    (h : TakenSoFar packets arrived taken buffer) :
    ∀ v ∈ packetReader.visits taken buffer, TakenSoFar packets arrived v.1 v.2 := by
  refine Cutting.Reader.visits_invariant ?_ h
  intro s b s' r htake hs
  obtain ⟨p, hp, heq⟩ := Option.map_eq_some_iff.mp htake
  obtain ⟨rfl, rfl⟩ := Prod.mk.inj heq
  exact hs.take hpackets hstream hp

/-- Between two arrivals. -/
theorem takenSoFar_receivePackets (hpackets : ∀ p ∈ packets, Encodable p.1 p.2)
    {pieces : List Bytes} (hstream : pieces.flatten ++ later = encodePackets packets) :
    TakenSoFar packets pieces.flatten (receivePackets pieces).1 (receivePackets pieces).2 := by
  have hstart : TakenSoFar packets pieces.flatten [] pieces.flatten := ⟨0, rfl, rfl⟩
  rw [receivePackets_eq_drain]
  exact hstart.visits hpackets hstream _ (Cutting.Reader.drain_mem_visits _ _)

/-- A receiver that has everything and takes no more has taken every packet. -/
theorem TakenSoFar.all (hpackets : ∀ p ∈ packets, Encodable p.1 p.2)
    (h : TakenSoFar packets (encodePackets packets) taken buffer)
    (hwait : takePacket buffer = none) : taken = packets.map arriving ∧ buffer = [] := by
  obtain ⟨n, htaken, -, huntaken⟩ := h.untaken (List.append_nil _)
  rw [List.append_nil] at huntaken
  cases hdrop : packets.drop n with
  | nil =>
      have hall : packets.take n = packets := by
        rw [← List.append_nil (packets.take n), ← hdrop, List.take_append_drop]
      constructor
      · rw [htaken, hall]
      · rw [huntaken, hdrop]
        rfl
  | cons q others =>
      have hq : q ∈ packets := List.mem_of_mem_drop (by rw [hdrop]; exact List.mem_cons_self)
      rw [huntaken, hdrop, encodePackets_cons, takePacket_encodePacket (hpackets q hq)] at hwait
      cases hwait

theorem receivePackets_encodePackets (hpackets : ∀ p ∈ packets, Encodable p.1 p.2)
    {pieces : List Bytes} (hstream : pieces.flatten = encodePackets packets) :
    receivePackets pieces = (packets.map arriving, []) := by
  have hwhole : pieces.flatten ++ [] = encodePackets packets := by rw [List.append_nil, hstream]
  have htaken := takenSoFar_receivePackets hpackets hwhole
  rw [hstream] at htaken
  have hstop := Cutting.Reader.drain_stops (R := packetReader) [] pieces.flatten
  rw [← receivePackets_eq_drain] at hstop
  obtain hhalted | hnone := hstop
  · cases hhalted
  · obtain ⟨hfst, hsnd⟩ := htaken.all hpackets (Option.map_eq_none_iff.mp hnone)
    exact Prod.ext hfst hsnd

end Stream

/-! ## A taken packet back to its bytes -/

/-- The length field of a packet is in shortest form: no field that says the same is shorter. -/
def ShortestLength (buffer : Bytes) : Prop :=
  ∀ value n, decodeRemainingLength buffer.tail = some (value, n) →
    ∀ other m, decodeRemainingLength other = some (value, m) → n ≤ m

theorem decodeLengthFrom_pos {passes start multiplier : ℕ} {buffer : Bytes} {p : ℕ × ℕ}
    (h : decodeLengthFrom passes start multiplier buffer = some p) : 0 < p.2 := by
  cases passes with
  | zero => cases h
  | succ passes =>
      cases buffer with
      | nil => cases h
      | cons byte rest =>
          simp only [decodeLengthFrom] at h
          split at h
          · obtain rfl := Option.some.inj h
            exact Nat.one_pos
          · obtain ⟨q, -, rfl⟩ := Option.map_eq_some_iff.mp h
            exact Nat.succ_pos _

/-- The value that a length field says, and the field itself if it is no longer than the digits of
the value. -/
theorem decodeLengthFrom_spec {passes start multiplier : ℕ} {buffer : Bytes} {p : ℕ × ℕ}
    (h : decodeLengthFrom passes start multiplier buffer = some p) :
    ∃ value, p.1 = start + value * multiplier ∧ value < 128 ^ passes ∧
      (p.2 ≤ (lengthDigits passes value).length → buffer.take p.2 = lengthDigits passes value) := by
  induction passes generalizing start multiplier buffer p with
  | zero => cases h
  | succ passes ih =>
      cases buffer with
      | nil => cases h
      | cons byte rest =>
          have hbyte := byte.toNat_lt
          simp only [decodeLengthFrom] at h
          by_cases hlast : byte.toNat < 128
          · rw [if_pos hlast] at h
            obtain rfl := Option.some.inj h
            have hmod : byte.toNat % 128 = byte.toNat := Nat.mod_eq_of_lt hlast
            refine ⟨byte.toNat, by rw [hmod], ?_, fun _ => ?_⟩
            · have hpos := Nat.one_le_pow passes 128 (by omega)
              rw [Nat.pow_succ]
              omega
            · have hdigits : lengthDigits (passes + 1) byte.toNat = [byte] := by
                rw [lengthDigits, if_neg (by omega), hmod, Nat.toUInt8_eq, UInt8.ofNat_toNat]
              rw [hdigits]
              rfl
          · rw [if_neg hlast] at h
            obtain ⟨q, hq, rfl⟩ := Option.map_eq_some_iff.mp h
            obtain ⟨value, hvalue, hlt, hdigits⟩ := ih hq
            have hpos := decodeLengthFrom_pos hq
            have hdiv : (byte.toNat % 128 + 128 * value) / 128 = value := by omega
            have hmod : (byte.toNat % 128 + 128 * value) % 128 = byte.toNat % 128 := by omega
            refine ⟨byte.toNat % 128 + 128 * value, ?_, ?_, fun hle => ?_⟩
            · calc q.1 = start + byte.toNat % 128 * multiplier + value * (multiplier * 128) := hvalue
                _ = start + (byte.toNat % 128 + 128 * value) * multiplier := by ring
            · rw [Nat.pow_succ]
              omega
            · rw [lengthDigits, hdiv, hmod] at hle ⊢
              by_cases hmore : 0 < value
              · rw [if_pos hmore] at hle ⊢
                have hfirst : (byte.toNat % 128 + 128).toUInt8 = byte := by
                  have : byte.toNat % 128 + 128 = byte.toNat := by omega
                  rw [this, Nat.toUInt8_eq, UInt8.ofNat_toNat]
                rw [List.length_cons] at hle
                rw [List.take_succ_cons, hdigits (by omega), hfirst]
              · rw [if_neg hmore, List.length_singleton] at hle
                omega

theorem MqttPacketType.toNat_ofNibble : ∀ n < 16, (ofNibble n).toNat = n := by decide

theorem bit_eq (n value : ℕ) : bit (n % 2 == 1) value = n % 2 * value := by
  obtain h | h := Nat.mod_two_eq_zero_or_one n
  · simp [bit, h]
  · simp [bit, h]

/-- The flags that `TakePacket` reads off the first byte are the low nibble of it. -/
theorem flagsFor_taken (type : MqttPacketType) (first remaining : ℕ) :
    flagsFor ⟨type, first / 8 % 2 == 1, first / 2 % 4, first % 2 == 1, remaining⟩ = first % 16 := by
  rw [flagsFor, bit_eq, bit_eq]
  dsimp only
  omega

/-- `EncodePacket` gives the bytes of a taken packet back. -/
theorem encodePacket_of_takePacket {buffer rest : Bytes} {p : MqttPacket}
    (h : takePacket buffer = some (p, rest)) (hshortest : ShortestLength buffer) :
    encodePacket p.header p.body ++ rest = buffer := by
  cases buffer with
  | nil => cases h
  | cons first tail =>
      cases hlength : decodeRemainingLength tail with
      | none => simp [takePacket, hlength] at h
      | some q =>
          obtain ⟨remaining, lengthBytes⟩ := q
          obtain ⟨value, hvalue, hlt, hdigits⟩ := decodeLengthFrom_spec hlength
          dsimp only at hvalue hdigits
          obtain rfl : value = remaining := by omega
          have hmax : value ≤ kMaxRemainingLength := by
            rw [kMaxRemainingLength]
            omega
          have hfield : tail.take lengthBytes = encodeRemainingLength value := by
            have hown := decodeLengthFrom_digits 4 value hlt (by omega) 0 1 []
            rw [Nat.zero_add, Nat.mul_one] at hown
            rw [encodeRemainingLength, if_neg (Nat.not_lt.mpr hmax)]
            exact hdigits (hshortest value lengthBytes hlength _ _ hown)
          simp only [takePacket, hlength] at h
          split at h
          · cases h
          · rename_i hfits
            obtain ⟨rfl, rfl⟩ := Prod.mk.inj (Option.some.inj h)
            rw [List.length_cons] at hfits
            have hdrop : (first :: tail).drop (1 + lengthBytes) = tail.drop lengthBytes := by
              rw [Nat.add_comm, List.drop_succ_cons]
            have hbody : ((tail.drop lengthBytes).take value).length = value := by
              rw [List.length_take, List.length_drop]
              omega
            have hbyte := first.toNat_lt
            have hfirst : ((MqttPacketType.ofNibble (first.toNat / 16)).toNat * 16 +
                first.toNat % 16 % 16).toUInt8 = first := by
              have hsum : first.toNat / 16 * 16 + first.toNat % 16 % 16 = first.toNat := by omega
              rw [MqttPacketType.toNat_ofNibble _ (by omega), hsum, Nat.toUInt8_eq, UInt8.ofNat_toNat]
            have hrest : (first :: tail).drop (1 + lengthBytes + value) =
                (tail.drop lengthBytes).drop value := by
              rw [← List.drop_drop, hdrop]
            rw [encodePacket, frame, flagsFor_taken, hfirst, hrest, hdrop, hbody, ← hfield,
              List.cons_append, List.cons_append, List.append_assoc, List.take_append_drop,
              List.take_append_drop]

/-! ## The round trips -/

/-- The header of a PUBLISH. -/
def publishHeader (packetId : ℕ) (topic payload : Bytes) (qos : ℕ) (retain dup : Bool) :
    MqttFixedHeader :=
  { type := .kPublish
    dup := dup
    qos := qos
    retain := retain
    remainingLength := (publishBody packetId topic payload qos).length }

theorem takePacket_encodePublishAs {packetId : ℕ} {topic payload : Bytes} {qos : ℕ}
    {retain dup : Bool} (hqos : qos < 4)
    (hbody : (publishBody packetId topic payload qos).length ≤ kMaxRemainingLength) :
    takePacket (encodePublishAs packetId topic payload qos retain dup) =
      some (⟨publishHeader packetId topic payload qos retain dup,
        publishBody packetId topic payload qos⟩, []) := by
  have hheader : frameHeader .kPublish (flagsFor { dup := dup, qos := qos, retain := retain })
      (publishBody packetId topic payload qos) =
        publishHeader packetId topic payload qos retain dup := by
    exact @frameHeader_flagsFor { type := .kPublish, dup, qos, retain } _ hqos
  rw [encodePublishAs, takePacket_frame (flagsFor_lt _) hbody, hheader]

/-- Packets come out of the stream as they went in, however it was cut, and at every moment the
buffer is what was not taken. A packet whose length field is in shortest form goes back to its
bytes. What `EncodePublish` put behind the fixed header is read back as its fields, and header and
body come out of the packet whenever the length field can say how long it is. -/
theorem packetStream_roundTrip :
    (∀ packets : List (MqttFixedHeader × Bytes), (∀ p ∈ packets, Encodable p.1 p.2) →
      (∀ pieces : List Bytes, pieces.flatten = encodePackets packets →
        receivePackets pieces = (packets.map arriving, [])) ∧
      ∀ front piece back, (front ++ piece :: back).flatten = encodePackets packets →
        ∀ moment ∈ momentsOf front piece, ∃ n,
          moment.1 = (packets.take n).map arriving ∧
          encodePackets (packets.take n) ++ moment.2 = front.flatten ++ piece) ∧
    (∀ buffer p rest, takePacket buffer = some (p, rest) → ShortestLength buffer →
      encodePacket p.header p.body ++ rest = buffer) ∧
    ∀ packetId topic payload qos retain dup, packetId < 65536 → topic.length ≤ 65535 → qos ≤ 2 →
      (∃ first, encodePublishAs packetId topic payload qos retain dup =
        first :: encodeRemainingLength (publishBody packetId topic payload qos).length ++
          publishBody packetId topic payload qos) ∧
      parsePublish (publishHeader packetId topic payload qos retain dup)
          (publishBody packetId topic payload qos) =
        some { topic := topic, packetId := if 0 < qos then packetId else 0, qos := qos,
               retain := retain, payload := payload } ∧
      ((publishBody packetId topic payload qos).length ≤ kMaxRemainingLength →
        takePacket (encodePublishAs packetId topic payload qos retain dup) =
          some (⟨publishHeader packetId topic payload qos retain dup,
            publishBody packetId topic payload qos⟩, [])) := by
  refine ⟨fun packets hpackets => ⟨?_, ?_⟩, ?_, ?_⟩
  · intro pieces hstream
    exact receivePackets_encodePackets hpackets hstream
  · intro front piece back hstream
    have hwhole : front.flatten ++ (piece ++ back.flatten) = encodePackets packets := by
      rw [← hstream, List.flatten_append, List.flatten_cons]
    have hbefore := takenSoFar_receivePackets hpackets hwhole
    exact (hbefore.arrive piece).visits hpackets (by rw [List.append_assoc, hwhole])
  · intro buffer p rest h hshortest
    exact encodePacket_of_takePacket h hshortest
  · intro packetId topic payload qos retain dup hid htopic hqos
    refine ⟨⟨_, rfl⟩, ?_, fun hbody => takePacket_encodePublishAs (by omega) hbody⟩
    exact @parsePublish_publishBody (publishHeader packetId topic payload qos retain dup) _ _ _ hqos
      (by omega) hid

end EspModemLink.Mqtt
