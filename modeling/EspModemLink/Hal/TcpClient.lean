import EspModemLink.Library.Stack
import EspModemLink.NetworkError
import EspModemLink.Hal.Routing

/-!
# The TCP client over a module

`HalTcpClient` on a HAL that it shares with others. The callbacks of the client may call `Connect` and
`Disconnect` again, from inside `SubscribeTcp` too. What the module, the HAL and the other clients do
to the routes may come between any two steps.
-/

namespace EspModemLink.Hal.TcpClient

/-- Whose callbacks a route calls. -/
inductive Owner where
  | client
  | other
deriving DecidableEq

/-- `HalTcpClient`. `TcpConnect` alone reads what is left out here. -/
structure HalTcpClient where
  connected : Bool := false
  connectId : Int := -1
  subscription : ℕ := 0
  generation : ℕ := 0
deriving DecidableEq

/-- What is left to do of a call. A callback of the application is `callback` (one that is not set
returns at once), one of another client `foreign`. `subscribed` is what `Connect` does behind
`SubscribeTcp`, for the `nth` socket of the client. -/
inductive Frame where
  | tcpConnect
  | tcpClose (id : Int)
  | dispatchTcpData (id : Int) (data : Bytes)
  | dispatchTcpClose (id : Int)
  | onTcpData (data : Bytes)
  | onTcpClose
  | onDisconnected
  | callback
  | subscribed (handle generation nth : ℕ)
  | destroyed
  | foreign
deriving DecidableEq

inductive Event where
  | connectReturned (result : Result Unit)
  | onData (data : Bytes)
  | onDisconnected
deriving DecidableEq

/-- What the application, the module, the HAL and the other clients choose. `next` goes on, or
returns. -/
inductive Choice where
  | connect
  | disconnect
  | destroy
  | opens (id : Int)
  | fails (e : NetworkError)
  | next
  | traverse (order : List (ℕ × TcpRoute Owner))
  | tcpData (id : Int) (data : Bytes)
  | tcpClosed (id : Int)
  | discard (id : Int)
  | subscribeOther (id : Int)
  | subscribeUdpOther (id : Int)
  | unsubscribeOther (handle : ℕ)
deriving DecidableEq

/-- A route whose callbacks point to the client. -/
def pointsToClient (route : ℕ × TcpRoute Owner) : Bool :=
  route.2.onData == some .client || route.2.onClose == some .client

/-- The client, its HAL, and how many sockets the client has had. -/
structure World where
  client : HalTcpClient := {}
  alive : Bool := true
  routing : Routing Owner := {}
  connects : ℕ := 0
  trace : List Event := []

/-- The frame that calls a handler. -/
def handlerFrame (own : Frame) : Owner → Frame
  | .client => own
  | .other => .foreign

/-- What `SubscribeTcp` still does once the route is there. -/
def handOver (id : Int) (held : Undelivered) : List Frame :=
  (if held.data = [] then [] else [.dispatchTcpData id held.data]) ++
    if held.closed then [.dispatchTcpClose id]
    else if held.truncated then [.tcpClose id, .dispatchTcpClose id] else []

namespace World

def log (w : World) (e : Event) : World := { w with trace := w.trace ++ [e] }

/-- What happens to the routes from outside of the client. A client withdraws handles of its own
only. -/
def outside (w : World) : Choice → Option (World × List Frame)
  | .tcpData id data => some (w, [.dispatchTcpData id data])
  | .tcpClosed id => some (w, [.dispatchTcpClose id])
  | .discard id => some ({ w with routing := w.routing.discardUndelivered id }, [])
  | .subscribeOther id =>
      let (_, held, routing) := w.routing.subscribeTcp id (some .other) (some .other)
      some ({ w with routing := routing }, handOver id held)
  | .subscribeUdpOther id =>
      let (_, routing) := w.routing.subscribeUdp id (some .other)
      some ({ w with routing := routing }, [])
  | .unsubscribeOther handle =>
      if ∀ route ∈ w.routing.tcpRoutes, route.1 = handle → pointsToClient route = false then
        some ({ w with routing := w.routing.unsubscribe handle }, [])
      else none
  | _ => none

/-- `Connect` as far as `TcpConnect`. -/
def connect (w : World) : World × List Frame :=
  if w.client.connected then
    (w.log (.connectReturned (.error ⟨.kAlreadyConnected, 0, "already connected"⟩)), [])
  else (w, [.tcpConnect])

/-- `Connect` from `TcpConnect` on, with the locked section of `SubscribeTcp`. -/
def opened (w : World) (id : Int) : World × List Frame :=
  let generation := (w.client.generation + 1) % 2 ^ 32
  let (handle, held, routing) := w.routing.subscribeTcp id (some .client) (some .client)
  ({ w with
      client := { w.client with connectId := id, connected := true, generation := generation }
      routing := routing
      connects := w.connects + 1 },
    handOver id held ++ [.subscribed handle generation (w.connects + 1)])

/-- The end of `Connect`. -/
def subscribed (w : World) (handle generation : ℕ) : World :=
  (if w.client.generation = generation then
    { w with client := { w.client with subscription := handle } }
  else w).log (.connectReturned (.ok ()))

/-- `Disconnect`, up to `TcpClose`. -/
def disconnect (w : World) : World × List Frame :=
  if w.client.connected then
    ({ w with
        client := { w.client with connectId := -1, connected := false, subscription := 0 }
        routing := w.routing.unsubscribe w.client.subscription },
      [.tcpClose w.client.connectId, .onDisconnected])
  else (w, [])

/-- `~HalTcpClient`, up to the end of its `Disconnect`. -/
def destroy (w : World) : World × List Frame :=
  let (w, frames) := w.disconnect
  (w, frames ++ [.destroyed])

/-- The rest of `~HalTcpClient`. -/
def destroyed (w : World) : World :=
  { w with
    client := { w.client with subscription := 0 }
    routing := w.routing.unsubscribe w.client.subscription
    alive := false }

/-- `OnTcpClose`. -/
def onTcpClose (w : World) : World :=
  { w with client := { w.client with connectId := -1, connected := false } }

/-- `DispatchTcpData`. -/
def dispatchTcpData (w : World) (order : List (ℕ × TcpRoute Owner)) (id : Int) (data : Bytes) :
    World × List Frame :=
  let (handler, routing) := w.routing.dispatchTcpData order id data
  ({ w with routing := routing }, handler.toList.map (handlerFrame (.onTcpData data)))

/-- `DispatchTcpClose`. -/
def dispatchTcpClose (w : World) (order : List (ℕ × TcpRoute Owner)) (id : Int) :
    World × List Frame :=
  let (handlers, routing) := w.routing.dispatchTcpClose order id
  ({ w with routing := routing }, handlers.map (handlerFrame .onTcpClose))

/-- What the frame on top does. What a call into a destroyed client does is undefined. -/
def goOn (w : World) : Frame → Choice → Option (World × List Frame)
  | .tcpConnect, .opens id => some (w.opened id)
  | .tcpConnect, .fails e => some (w.log (.connectReturned (.error e)), [])
  | .tcpClose _, .next => some (w, [])
  | .dispatchTcpData id data, .traverse order =>
      if order.Perm w.routing.tcpRoutes then some (w.dispatchTcpData order id data) else none
  | .dispatchTcpClose id, .traverse order =>
      if order.Perm w.routing.tcpRoutes then some (w.dispatchTcpClose order id) else none
  | .onTcpData data, .next => if w.alive then some (w.log (.onData data), [.callback]) else none
  | .onTcpClose, .next => if w.alive then some (w.onTcpClose, [.onDisconnected]) else none
  | .onDisconnected, .next => some (w.log .onDisconnected, [.callback])
  | .callback, .connect =>
      let (w, frames) := w.connect
      some (w, frames ++ [.callback])
  | .callback, .disconnect =>
      let (w, frames) := w.disconnect
      some (w, frames ++ [.callback])
  | .callback, .next => some (w, [])
  | .subscribed handle generation _, .next => some (w.subscribed handle generation, [])
  | .destroyed, .next => some (w.destroyed, [])
  | .foreign, .next => some (w, [])
  | _, _ => none

/-- A step of the frame on top, or from outside on top of it. -/
def exec (f : Frame) (c : Choice) (w : World) : Option (World × List Frame) :=
  match w.outside c with
  | some (w', frames) => some (w', frames ++ [f])
  | none => w.goOn f c

/-- What begins with no call on the stack. -/
def enter (c : Choice) (w : World) : Option (World × List Frame) :=
  match w.outside c with
  | some out => some out
  | none =>
      match c with
      | .connect => if w.alive then some w.connect else none
      | .disconnect => if w.alive then some w.disconnect else none
      | .destroy => if w.alive then some w.destroy else none
      | _ => none

/-- The routes of the client. -/
def ours (w : World) : List (ℕ × TcpRoute Owner) := w.routing.tcpRoutes.filter pointsToClient

end World

abbrev Config := Stack.Config World Frame

def program : Stack.Program World Frame Choice := ⟨World.enter, World.exec⟩

/-- A new client on a new HAL. -/
def start : Config := ⟨{}, []⟩

/-- The HAL holds a route of the client exactly while it is connected, under the handle that the client
knows. -/
structure OwnsRoute (w : World) : Prop where
  none : w.alive = false ∨ w.client.connected = false → w.ours = []
  one : w.alive = true → w.client.connected = true →
    w.ours = [(w.client.subscription, ⟨w.client.connectId, some .client, some .client⟩)]

end EspModemLink.Hal.TcpClient
