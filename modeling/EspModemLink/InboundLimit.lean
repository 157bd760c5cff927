import EspModemLink.Mqtt.InboundLimit
import EspModemLink.WebSocket.InboundLimit

/-!
# The limit on inbound bytes

Both clients hold everything in the receive buffer to one limit before they take what has become
complete in it. Headers count, and so do messages that arrived together with the last byte of the one
in front of them.
-/

namespace EspModemLink

open Bytes

/-- Packets and messages in single frames are all handled, in order and without an overflow, exactly
if every arrival fits into the buffer behind what the arrivals before it left of a packet or a
frame. -/
theorem inboundLimit_exact [Target] :
    (∀ packets cfg ls cfg', (∀ p ∈ packets, Mqtt.Encodable p.1 p.2) →
      Mqtt.Delivers packets cfg ls cfg' →
      (Mqtt.FitsBuffer packets ls → Mqtt.HandlesAll packets cfg ls cfg') ∧
        (Sections.Free Mqtt.inbound cfg' → Mqtt.HandlesAll packets cfg ls cfg' →
          Mqtt.FitsBuffer packets ls)) ∧
    ∀ n sent cfg ls cfg', (∀ f ∈ sent, WebSocket.SingleFrame f) →
      WebSocket.Delivers n sent cfg ls cfg' →
      (WebSocket.FitsBuffer sent ls → WebSocket.HandlesAll n sent cfg ls cfg') ∧
        (Sections.Free WebSocket.inbound cfg' → WebSocket.HandlesAll n sent cfg ls cfg' →
          WebSocket.FitsBuffer sent ls) :=
  ⟨fun _ _ _ _ => Mqtt.handlesAll_iff_fits, fun _ _ _ _ _ => WebSocket.handlesAll_iff_fits⟩

/-- A PUBLISH of "m" under the topic "t". -/
def mqttPackets : List (Mqtt.MqttFixedHeader × Bytes) :=
  [({ type := .kPublish }, Mqtt.publishBody 0 [116] [109] 0)]

/-- It arrives in two pieces. -/
def mqttPieceLabels : List Mqtt.Label :=
  [.start (.data 0 [0x30, 4, 0]), .run 0 .go, .run 0 .go, .start (.data 0 [1, 116, 109]),
    .run 1 .go, .run 1 .go, .run 1 .go, .run 1 .go, .run 1 .go, .run 1 .go]

/-- "h" in a text frame. -/
def wsFrames : List WebSocket.InboundFrame := [WebSocket.textFrame [104] (by decide)]

/-- It arrives in two pieces. -/
def wsPieceLabels : List WebSocket.Label :=
  [.start (.data 0 [0x81]), .run 0 .go, .run 0 .go, .run 0 .go, .run 0 .go,
    .start (.data 0 [1, 104]), .run 1 .go, .run 1 .go, .run 1 .go, .run 1 .go, .run 1 .go,
    .run 1 .go, .run 1 .go, .run 1 .go]

/-- A small packet and a small message are handled. -/
theorem inboundLimit_exact_small :
    (∃ cfg', Runs.exec Mqtt.program.step Mqtt.readyConfig mqttPieceLabels = some cfg' ∧
      Mqtt.HandlesAll mqttPackets Mqtt.readyConfig mqttPieceLabels cfg') ∧
    ∃ cfg', Runs.exec (@WebSocket.program esp32).step WebSocket.openConfig wsPieceLabels =
        some cfg' ∧
      @WebSocket.HandlesAll esp32 1 wsFrames WebSocket.openConfig wsPieceLabels cfg' := by
  obtain ⟨hmqtt, hws⟩ := @inboundLimit_exact esp32
  constructor
  · have hrun : (Runs.exec Mqtt.program.step Mqtt.readyConfig mqttPieceLabels).isSome = true := by
      decide +kernel
    obtain ⟨cfg', hcfg'⟩ := Option.isSome_iff_exists.mp hrun
    have hok : Runs.Along Mqtt.program.step Mqtt.Undisturbed Mqtt.readyConfig mqttPieceLabels := by
      decide +kernel
    have hdelivers : Mqtt.Delivers mqttPackets Mqtt.readyConfig mqttPieceLabels cfg' :=
      ⟨Mqtt.ready_readyConfig, .of_along hok fun _ _ _ h => h, by decide +kernel, hcfg'⟩
    refine ⟨cfg', hcfg', (hmqtt mqttPackets _ _ cfg' ?_ hdelivers).1 ?_⟩
    · intro p hp
      obtain rfl := List.mem_singleton.mp hp
      exact ⟨by decide, by decide, by decide, by decide⟩
    · rw [Mqtt.FitsBuffer]
      decide +kernel
  · have hrun : (Runs.exec (@WebSocket.program esp32).step WebSocket.openConfig
        wsPieceLabels).isSome = true := by decide +kernel
    obtain ⟨cfg', hcfg'⟩ := Option.isSome_iff_exists.mp hrun
    have hok : Runs.Along (@WebSocket.program esp32).step (WebSocket.Undisturbed 1)
        WebSocket.openConfig wsPieceLabels := by decide +kernel
    have hdelivers : @WebSocket.Delivers esp32 1 wsFrames WebSocket.openConfig wsPieceLabels cfg' :=
      @WebSocket.Delivers.mk esp32 1 wsFrames WebSocket.openConfig _ cfg'
        WebSocket.onOpen_openConfig (.of_along hok fun _ _ _ h => h.orderly) (by decide +kernel) hcfg'
    refine ⟨cfg', hcfg', (hws 1 wsFrames _ _ cfg' ?_ hdelivers).1 ?_⟩
    · intro f hf
      obtain rfl := List.mem_singleton.mp hf
      exact ⟨rfl, .inl rfl⟩
    · rw [WebSocket.FitsBuffer]
      decide +kernel

/-- A PUBLISH packet with a body of 40000 bytes. -/
def longPacket : Mqtt.MqttFixedHeader × Bytes := ({ type := .kPublish }, List.replicate 40000 0)

/-- A message of 64 KiB. -/
def longFrame : WebSocket.InboundFrame :=
  WebSocket.textFrame (List.replicate 65536 97) (by rw [List.length_replicate]; decide)

/-- Two packets far below the limit overflow the one buffer when they arrive together, and so does a
message of exactly 64 KiB with the header of its frame. -/
theorem legal_arrival_overflows :
    (¬∀ packets cfg ls cfg',
      (∀ p ∈ packets, Mqtt.Encodable p.1 p.2 ∧ p.2.length ≤ 64 * 1024) →
      Mqtt.Delivers packets cfg ls cfg' → Mqtt.HandlesAll packets cfg ls cfg') ∧
    ¬∀ n sent cfg ls cfg',
      (∀ f ∈ sent, WebSocket.SingleFrame f ∧ f.frame.payload.length ≤ 64 * 1024) →
      @WebSocket.Delivers esp32 n sent cfg ls cfg' →
      @WebSocket.HandlesAll esp32 n sent cfg ls cfg' := by
  constructor
  · intro h
    have hlong : Mqtt.kMaxBufferedBytes < (Mqtt.encodePackets [longPacket, longPacket]).length := by
      have hbody : longPacket.2.length = 40000 := List.length_replicate
      have hpacket : 40000 ≤ (Mqtt.encodePacket longPacket.1 longPacket.2).length :=
        hbody.ge.trans (Mqtt.length_le_encodePacket longPacket.1 longPacket.2)
      simp only [Mqtt.encodePackets, List.flatMap_cons, List.flatMap_nil, List.append_nil,
        List.length_append]
      calc
        Mqtt.kMaxBufferedBytes < 40000 + 40000 := by decide
        _ ≤ _ := Nat.add_le_add hpacket hpacket
    obtain ⟨cfg', hrun, hok, hstops⟩ := Mqtt.overflows_arrival hlong
    apply hstops
    have hdelivers : Mqtt.Delivers [longPacket, longPacket] Mqtt.readyConfig _ cfg' :=
      ⟨Mqtt.ready_readyConfig, hok, by rw [Mqtt.unitsIn_arrival], hrun⟩
    refine (h _ _ _ cfg' ?_ hdelivers).goes
    intro p hp
    obtain rfl : p = longPacket := by simpa using hp
    have hbody : longPacket.2.length = 40000 := List.length_replicate
    rw [Mqtt.Encodable, hbody]
    exact ⟨⟨by decide, by decide, by decide, by decide⟩, by decide⟩
  · intro h
    have hpayload : longFrame.frame.payload.length = 65536 := List.length_replicate
    have hlong : WebSocket.kMaxMessageBytes < (WebSocket.wire [longFrame]).length := by
      calc
        WebSocket.kMaxMessageBytes = longFrame.frame.payload.length := hpayload.symm
        _ < _ := WebSocket.length_lt_wire_textFrame _
    obtain ⟨cfg', hrun, hok, hstops⟩ := @WebSocket.overflows_arrival esp32 _ hlong
    apply hstops
    have hdelivers : @WebSocket.Delivers esp32 1 [longFrame] WebSocket.openConfig _ cfg' :=
      @WebSocket.Delivers.mk esp32 1 [longFrame] WebSocket.openConfig _ cfg'
        WebSocket.onOpen_openConfig hok (by rw [WebSocket.unitsIn_arrival]) hrun
    have hlegal : ∀ f ∈ [longFrame],
        WebSocket.SingleFrame f ∧ f.frame.payload.length ≤ 64 * 1024 := by
      intro f hf
      obtain rfl := List.mem_singleton.mp hf
      exact ⟨⟨rfl, .inl rfl⟩, by rw [hpayload]⟩
    have hall := h 1 [longFrame] WebSocket.openConfig _ cfg' hlegal hdelivers
    exact @WebSocket.HandlesAll.goes esp32 1 [longFrame] WebSocket.openConfig _ cfg' hall

end EspModemLink
