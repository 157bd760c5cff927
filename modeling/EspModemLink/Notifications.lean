import EspModemLink.Mqtt.Notifications
import EspModemLink.Mqtt.SessionGate
import EspModemLink.WebSocket.Notifications

/-!
# Connected and disconnected

Neither client orders its calls of `on_connected` and `on_disconnected`. The MQTT client also
reports the end of a transport that never carried a session, which the WebSocket client avoids by
design.
-/

namespace EspModemLink

open Bytes Alternation

/-- As long as the connection does not change while a call is due, `on_connected` and
`on_disconnected` alternate in both clients, and a `Connect` that fails calls neither. -/
theorem notifications_alternate [Target] :
    Mqtt.NotifiesInTurn Mqtt.InTurn ∧ WebSocket.NotifiesInTurn WebSocket.InTurn :=
  ⟨Mqtt.notifiesInTurn, WebSocket.notifiesInTurn⟩

/-- An MQTT `Connect` without a keep-alive, up to its wait. -/
def mqttConnectLabels : List Mqtt.Label :=
  [.start (.call (.setKeepAlive 0)), .run 0 .go, .start (.call (.connect [104] 1883 true)),
    .run 1 .go, .run 1 (.answer (.ok 0)), .run 1 (.answer (.ok 0)), .run 1 .go, .run 1 .go,
    .run 1 .go, .run 1 (.answer (.ok 14)), .run 1 (.now 1), .run 1 .go]

/-- The broker accepts, `on_connected` is called, and the transport closes. -/
def mqttSessionLabels : List Mqtt.Label :=
  mqttConnectLabels ++
    [.start (.data 0 [0x20, 2, 0, 0]), .run 2 .go, .run 2 .go, .run 2 .go, .run 2 .go, .run 1 .go,
      .run 1 .go, .run 1 .go, .run 1 .go, .run 1 .go, .start (.closed 0), .run 3 .go, .run 3 .go,
      .run 3 .go, .run 3 .go, .run 3 .go, .run 3 .go, .run 3 .go]

/-- The broker refuses. -/
def mqttRefusedLabels : List Mqtt.Label :=
  mqttConnectLabels ++
    [.start (.data 0 [0x20, 2, 0, 5]), .run 2 .go, .run 2 .go, .run 2 .go, .run 1 .go, .run 1 .go,
      .run 1 .go, .run 1 .go, .run 1 .go, .run 1 .go, .run 1 .go]

/-- A WebSocket connection is opened, `on_connected` is called, and the transport closes. -/
def wsSessionLabels : List WebSocket.Label :=
  WebSocket.openLabels ++
    [.run 0 .go, .run 0 .go, .run 0 .go, .run 0 .go, .run 0 .go, .run 0 .go, .start (.closed 0),
      .run 2 .go, .run 2 .go, .run 2 .go, .run 2 .go, .run 2 .go, .run 2 .go]

/-- The transport closes before `Connect` has called `on_connected`. -/
def wsOvertakenLabels : List WebSocket.Label :=
  WebSocket.openLabels ++
    [.start (.closed 0), .run 2 .go, .run 2 .go, .run 2 .go, .run 2 .go, .run 2 .go]

theorem notifications_alternate_sessions :
    Runs.Along Mqtt.program.step (fun _ _ cfg => Mqtt.Notified cfg) Mqtt.initial mqttSessionLabels ∧
      Runs.Along (@WebSocket.program esp32).step (fun _ _ cfg => WebSocket.Notified cfg)
        WebSocket.initial wsSessionLabels := by
  obtain ⟨hmqtt, hws⟩ := @notifications_alternate esp32
  constructor
  · apply hmqtt
    decide +kernel
  · apply hws
    decide +kernel

/-- An MQTT `Connect` that is refused calls `on_disconnected`, and a WebSocket connection that is
lost early calls `on_disconnected` first. -/
theorem disconnected_without_connected :
    ¬Mqtt.NotifiesInTurn (fun _ _ => True) ∧
      ¬@WebSocket.NotifiesInTurn esp32 (fun _ _ => True) := by
  constructor
  · intro h
    have hnot : ¬Runs.Along Mqtt.program.step
        (fun _ _ cfg => Alternates (Mqtt.notifications cfg.shared.trace)) Mqtt.initial
        mqttRefusedLabels := by
      decide +kernel
    apply hnot
    refine (h mqttRefusedLabels (by decide +kernel)).mono (I := fun _ => True) ?_ trivial
    exact fun _ _ _ _ hnotified _ => ⟨trivial, hnotified.alternates⟩
  · intro h
    have hnot : ¬Runs.Along (@WebSocket.program esp32).step
        (fun _ _ cfg => Alternates (WebSocket.notifications cfg.shared.trace)) WebSocket.initial
        wsOvertakenLabels := by
      decide +kernel
    apply hnot
    refine (h wsOvertakenLabels (by decide +kernel)).mono (I := fun _ => True) ?_ trivial
    exact fun _ _ _ _ hnotified _ => ⟨trivial, hnotified.alternates⟩

end EspModemLink
