import EspModemLink.Mqtt.KeepAlive
import EspModemLink.WebSocket.Heartbeat
import EspModemLink.WebSocket.OpenState

/-!
# Timeouts of the keep-alive

Both clients store the time of a ping behind its `Send`, when the answer may have come already. The
time then stands for a ping that nobody waits for, and ends a connection that is alive.
-/

namespace EspModemLink

open Bytes

/-- An MQTT client with a keep-alive of one second, up to the `Send` of its first PINGREQ. -/
def mqttPingLabels : List Mqtt.Label :=
  [.start (.call (.setKeepAlive 1)), .run 0 .go, .start (.call (.connect [104] 1883 true)),
    .run 1 .go, .run 1 (.answer (.ok 0)), .run 1 (.answer (.ok 0)), .run 1 .go, .run 1 .go,
    .run 1 .go, .run 1 (.answer (.ok 14)), .run 1 (.now 1), .run 1 .go,
    .start (.data 0 [0x20, 2, 0, 0]), .run 2 .go, .run 2 .go, .run 2 .go,
    .run 1 .go, .run 1 .go, .run 1 .go, .run 1 (.now 1), .run 1 .go, .run 1 .go, .run 1 .go,
    .start .keepAlive, .run 3 .go, .run 3 .go, .run 3 .go, .run 3 (.now 1001), .run 3 .go,
    .run 3 .go, .run 3 .go, .run 3 .go]

/-- The PINGRESP is handled. -/
def mqttPongLabels : List Mqtt.Label :=
  [.start (.data 0 [0xD0, 0]), .run 4 .go, .run 4 .go, .run 4 .go]

/-- The `Send` returns and the time of the PINGREQ is stored. -/
def mqttStoreLabels : List Mqtt.Label :=
  [.run 3 (.answer (.ok 2)), .run 3 (.now 1002), .run 3 .go, .run 3 .go]

/-- The next check of the loop. -/
def mqttCheckLabels : List Mqtt.Label :=
  [.run 3 .go, .run 3 .go, .run 3 (.now 2001), .run 3 .go]

/-- A WebSocket client with a heartbeat of one second, up to the `Send` of its first ping. -/
def wsPingLabels : List WebSocket.Label :=
  [.start (.call (.setHeartbeat ⟨1, 1, true⟩)), .run 0 .go,
    .start (.call (.connect WebSocket.exampleUrl)), .run 1 .go, .run 1 (.random [0, 0, 0, 0]),
    .run 1 (.answer (.ok 0)), .run 1 (.answer (.ok 0)), .run 1 .go, .run 1 .go,
    .run 1 (.answer (.ok 0)),
    .start (.data 0 (WebSocket.acceptingHead WebSocket.exampleKey)), .run 2 .go, .run 1 (.now 1),
    .run 1 .go, .run 1 .go, .run 1 .go, .run 1 .go,
    .start .maintain, .run 3 .go, .run 3 .go, .run 3 .go, .run 3 .go, .run 3 .go,
    .run 3 (.now 1001), .run 3 .go, .run 3 .go, .run 3 (.random [0]), .run 3 .go]

/-- The pong is handled. -/
def wsPongLabels : List WebSocket.Label :=
  [.start (.data 0 [0x8A, 0]), .run 4 .go, .run 4 .go, .run 4 .go, .run 4 .go]

/-- The `Send` returns and the time of the ping is stored. -/
def wsStoreLabels : List WebSocket.Label :=
  [.run 3 (.answer (.ok 6)), .run 3 (.now 1002), .run 3 .go, .run 3 (.now 1002), .run 3 .go]

/-- The next check of the loop. -/
def wsCheckLabels : List WebSocket.Label :=
  [.run 3 .go, .run 3 .go, .run 3 .go, .run 3 .go, .run 3 (.now 2002), .run 3 .go]

end EspModemLink
