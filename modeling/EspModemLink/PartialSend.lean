import EspModemLink.Mqtt.PartialSend
import EspModemLink.WebSocket.OpenState
import EspModemLink.WebSocket.PartialSend

/-!
# Sends that are cut short

Both clients take a `Send` that accepted a part of its bytes for one that accepted all of them. They
go on using the stream behind it, and report success.
-/

namespace EspModemLink

open Bytes Pieces

/-- As long as every `Send` that succeeds accepts everything, but for a goodbye that nobody sends
behind, and frames go out behind the handshake request, both clients keep their streams intact and
report no success for what was not accepted. -/
theorem sends_keepStreams [Target] :
    Mqtt.KeepsStreams Mqtt.AcceptsWhole ∧
      WebSocket.KeepsStreams fun s l => WebSocket.AcceptsWhole s.2 l ∧ WebSocket.BehindRequest s l :=
  ⟨Mqtt.keepsStreams, WebSocket.keepsStreams⟩

/-- An MQTT client that is connected and publishes twice, up to the answer for the first packet. -/
def mqttPublishingLabels : List Mqtt.Label :=
  [.start (.call (.setKeepAlive 0)), .run 0 .go, .start (.call (.connect [104] 1883 true)),
    .run 1 .go, .run 1 (.answer (.ok 0)), .run 1 (.answer (.ok 0)), .run 1 .go, .run 1 .go,
    .run 1 .go, .run 1 (.answer (.ok 14)), .run 1 (.now 1), .run 1 .go,
    .start (.data 0 [0x20, 2, 0, 0]), .run 2 .go, .run 2 .go, .run 2 .go, .run 1 .go,
    .start (.call (.publish [116] [109] .kQoS0 false)), .run 3 .go, .run 3 .go, .run 3 .go,
    .start (.call (.publish [116] [109] .kQoS0 false)), .run 4 .go, .run 4 .go, .run 4 .go]

/-- A WebSocket client that waits for the answer for its handshake request. -/
def wsRequestingLabels : List WebSocket.Label :=
  [.start (.call (.connect WebSocket.exampleUrl)), .run 0 .go, .run 0 (.random [0, 0, 0, 0]),
    .run 0 (.answer (.ok 0)), .run 0 (.answer (.ok 0)), .run 0 .go, .run 0 .go]

/-- A ping, up to the answer for its frame. -/
def wsPingingLabels : List WebSocket.Label :=
  [.start (.call (.ping [])), .run 1 .go, .run 1 (.random [0]), .run 1 .go]

/-- A packet that fails ahead of one that is accepted, and a ping behind the handshake request. -/
theorem sends_keepStreams_whole :
    Runs.Along Mqtt.sendingStep
        (fun _ _ s' => (∀ t, Mqtt.Intact t s'.2.shared.trace) ∧ ¬Mqtt.ReportsSuccess s')
        ([], Mqtt.initial)
        (mqttPublishingLabels ++ [.run 3 (.answer (.error Mqtt.Conn.notConnected)), .run 3 .go,
          .run 3 .go, .run 4 (.answer (.ok 6)), .run 4 (.now 2), .run 4 .go, .run 4 .go]) ∧
      Runs.Along (@WebSocket.sendingStep esp32)
        (fun _ _ s' => (∀ t, WebSocket.Intact t s'.2.shared.trace) ∧ ¬WebSocket.ReportsSuccess s')
        ({}, WebSocket.initial)
        (wsRequestingLabels ++ [.run 0 (.answer (.ok 140))] ++ wsPingingLabels ++
          [.run 1 (.answer (.ok 6))]) := by
  obtain ⟨hmqtt, hws⟩ := @sends_keepStreams esp32
  constructor
  · apply hmqtt
    decide +kernel
  · apply hws
    decide +kernel

/-- A packet is sent behind the first byte of another one, and a ping behind the first byte of a
handshake request. -/
theorem stream_used_behind_partial_send :
    ¬Mqtt.KeepsStreams (fun _ _ => True) ∧ ¬@WebSocket.KeepsStreams esp32 (fun _ _ => True) := by
  constructor
  · intro h
    have hrun : (Runs.exec Mqtt.sendingStep ([], Mqtt.initial)
        (mqttPublishingLabels ++ [.run 3 (.answer (.ok 1)), .run 4 (.answer (.ok 6))])).map
        (fun s => decide (Framed (Mqtt.pieces 0 s.2.shared.trace))) = some false := by
      decide +kernel
    obtain ⟨s, hs, hbroken⟩ := Option.map_eq_some_iff.mp hrun
    have hkeeps := h _ (show Runs.Along Mqtt.sendingStep
      (fun s l _ => Mqtt.AcceptsAtMost s.2 l ∧ True) ([], Mqtt.initial)
      (mqttPublishingLabels ++ [.run 3 (.answer (.ok 1)), .run 4 (.answer (.ok 6))]) by
        decide +kernel)
    have hframed : Framed (Mqtt.pieces 0 s.2.shared.trace) :=
      hkeeps.invariant (I := fun s => Framed (Mqtt.pieces 0 s.2.shared.trace))
        (fun _ _ _ _ hstep _ => (hstep.1 0).framed) (by decide) hs
    exact (of_decide_eq_false hbroken) hframed
  · intro h
    have hrun : (Runs.exec (@WebSocket.sendingStep esp32) ({}, WebSocket.initial)
        (wsRequestingLabels ++ [.run 0 (.answer (.ok 1))] ++ wsPingingLabels ++
          [.run 1 (.answer (.ok 6))])).map
        (fun s => decide (Framed (WebSocket.pieces 0 s.2.shared.trace))) = some false := by
      decide +kernel
    obtain ⟨s, hs, hbroken⟩ := Option.map_eq_some_iff.mp hrun
    have hkeeps := h _ (show Runs.Along (@WebSocket.sendingStep esp32)
      (fun s l _ => WebSocket.AcceptsAtMost s.2 l ∧ True) ({}, WebSocket.initial)
      (wsRequestingLabels ++ [.run 0 (.answer (.ok 1))] ++ wsPingingLabels ++
          [.run 1 (.answer (.ok 6))]) by decide +kernel)
    have hframed : Framed (WebSocket.pieces 0 s.2.shared.trace) :=
      hkeeps.invariant (I := fun s => Framed (WebSocket.pieces 0 s.2.shared.trace))
        (fun _ _ _ _ hstep _ => (hstep.1 0).framed) (by decide) hs
    exact (of_decide_eq_false hbroken) hframed

end EspModemLink
