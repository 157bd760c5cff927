import EspModemLink.Hal.Routing
import EspModemLink.Library.Runs
import EspModemLink.NetworkError
import Mathlib.Data.List.Nodup

/-!
# The UDP clients of a module

Any number of `HalUdpClient`s on one HAL. The calls of one client do not overlap, and those of
different clients come in any order: while one is in `UdpOpen`, datagrams arrive and others open,
close and subscribe. A dispatch takes the handler of a client and calls it later, and in between the
client may close its socket and open another. A call from inside a callback is a call that comes
behind the delivery.
-/

namespace EspModemLink.Hal.UdpClient

open Runs

/-- `HalUdpClient`. -/
structure HalUdpClient where
  connected : Bool := false
  connectId : Int := -1
  remoteHost : Bytes := []
  remotePort : UInt16 := 0
  subscription : ℕ := 0
  /-- `on_message_` is set. -/
  listens : Bool := false
deriving DecidableEq

/-- Where the client's last socket was opened to. -/
def HalUdpClient.peer (client : HalUdpClient) : Bytes × UInt16 :=
  (client.remoteHost, client.remotePort)

/-- A datagram as the module reports it. -/
structure Datagram where
  id : Int
  host : Bytes
  port : UInt16
  data : Bytes
deriving DecidableEq

/-- Where a datagram is from: one that names no source is from the peer. -/
def Datagram.source (d : Datagram) (peer : Bytes × UInt16) : Bytes × UInt16 :=
  if d.host = [] then peer else (d.host, d.port)

/-- What a client does with its sockets, the datagrams that its handler is taken for, and what it
hands to its application. -/
inductive Event where
  | opened (id : Int) (host : Bytes) (port : UInt16)
  | closed (id : Int)
  | sent (id : Int) (data : Bytes)
  | taken (d : Datagram)
  | message (id : Int) (host : Bytes) (port : UInt16) (data : Bytes)
  | connectReturned (result : Result Unit)
  | sendRefused (e : NetworkError)
deriving DecidableEq

def alreadyConnected : NetworkError := ⟨.kAlreadyConnected, 0, "already connected"⟩
def notConnected : NetworkError := ⟨.kNotConnected, 0, "not connected"⟩

/-- A client, whether it is there, and the address of a `Connect` that is in `UdpOpen`. -/
structure Slot where
  client : HalUdpClient := {}
  alive : Bool := true
  opening : Option (Bytes × UInt16) := none
deriving DecidableEq

/-- The HAL and its clients, with the events of each client and the datagrams that its handler was
taken for and not yet called with. -/
structure World (ι : Type) where
  slots : ι → Slot := fun _ => {}
  routing : Routing ι := {}
  events : ι → List Event := fun _ => []
  underWay : ι → List Datagram := fun _ => []

/-- What the applications, the module and the other users of the HAL choose. A datagram comes with
the order that the routes are gone through in. -/
inductive Label (ι : Type) where
  | onMessage (i : ι) (listens : Bool)
  | connect (i : ι) (host : Bytes) (port : UInt16)
  | opens (i : ι) (id : Int)
  | fails (i : ι) (e : NetworkError)
  | disconnect (i : ι)
  | destroy (i : ι)
  | send (i : ι) (data : Bytes)
  | datagram (order : List (ℕ × UdpRoute ι)) (d : Datagram)
  | calls (i : ι) (n : ℕ)
  | subscribeTcp (id : Int)
  | unsubscribeTcp (handle : ℕ)

namespace World

variable {ι : Type} [DecidableEq ι] (w : World ι)

def setClient (i : ι) (client : HalUdpClient) : World ι :=
  { w with slots := Function.update w.slots i { w.slots i with client := client } }

def setOpening (i : ι) (opening : Option (Bytes × UInt16)) : World ι :=
  { w with slots := Function.update w.slots i { w.slots i with opening := opening } }

def log (i : ι) (es : List Event) : World ι :=
  { w with events := Function.update w.events i (w.events i ++ es) }

/-- A call of the client may begin: the client is there, and none of its calls is under way. -/
def free (i : ι) : Bool := (w.slots i).alive && (w.slots i).opening.isNone

/-- `Connect` up to `UdpOpen`. -/
def connect (i : ι) (host : Bytes) (port : UInt16) : World ι :=
  if (w.slots i).client.connected then w.log i [.connectReturned (.error alreadyConnected)]
  else w.setOpening i (some (host, port))

/-- `Connect` behind `UdpOpen`. -/
def opened (i : ι) (id : Int) (host : Bytes) (port : UInt16) : World ι :=
  let (handle, routing) := w.routing.subscribeUdp id (some i)
  ((({ w with routing := routing }).setOpening i none).setClient i
    { (w.slots i).client with
      connected := true
      connectId := id
      remoteHost := host
      remotePort := port
      subscription := handle }).log i [.opened id host port, .connectReturned (.ok ())]

/-- `Disconnect`. -/
def disconnect (i : ι) : World ι :=
  let client := (w.slots i).client
  if client.connected then
    (({ w with routing := w.routing.unsubscribe client.subscription }).setClient i
      { client with connected := false, connectId := -1, subscription := 0 }).log i
        [.closed client.connectId]
  else w

/-- `~HalUdpClient`. -/
def destroy (i : ι) : World ι :=
  let w := w.disconnect i
  { w with
    routing := w.routing.unsubscribe (w.slots i).client.subscription
    slots := Function.update w.slots i
      { w.slots i with
        client := { (w.slots i).client with subscription := 0 }
        alive := false } }

/-- `Send` and `SendTo`, up to what the HAL answers. -/
def send (i : ι) (data : Bytes) : World ι :=
  if (w.slots i).client.connected then w.log i [.sent (w.slots i).client.connectId data]
  else w.log i [.sendRefused notConnected]

def setUnderWay (i : ι) (ds : List Datagram) : World ι :=
  { w with underWay := Function.update w.underWay i ds }

/-- The section of `DispatchUdpData`, which takes the handler. -/
def dispatchUdpData (order : List (ℕ × UdpRoute ι)) (d : Datagram) : World ι :=
  match Routing.dispatchUdpData order d.id with
  | none => w
  | some i => (w.setUnderWay i (w.underWay i ++ [d])).log i [.taken d]

/-- `OnUdpData`. -/
def onUdpData (i : ι) (d : Datagram) : World ι :=
  let client := (w.slots i).client
  if client.listens then
    w.log i [.message d.id (d.source client.peer).1 (d.source client.peer).2 d.data]
  else w

/-- A TCP client withdraws routes of its own only. A client is destroyed where no handler of it is
about to be called, since such a call would be on freed memory. -/
def step : Step (World ι) (Label ι)
  | w, .onMessage i listens =>
      if w.free i then some (w.setClient i { (w.slots i).client with listens := listens }) else none
  | w, .connect i host port => if w.free i then some (w.connect i host port) else none
  | w, .opens i id =>
      (w.slots i).opening.map fun address => w.opened i id address.1 address.2
  | w, .fails i e =>
      (w.slots i).opening.map fun _ =>
        (w.setOpening i none).log i [.connectReturned (.error e)]
  | w, .disconnect i => if w.free i then some (w.disconnect i) else none
  | w, .destroy i => if w.free i ∧ w.underWay i = [] then some (w.destroy i) else none
  | w, .send i data => if w.free i then some (w.send i data) else none
  | w, .datagram order d =>
      if order.Perm w.routing.udpRoutes then some (w.dispatchUdpData order d) else none
  | w, .calls i n =>
      (w.underWay i)[n]?.map fun d =>
        (w.setUnderWay i ((w.underWay i).eraseIdx n)).onUdpData i d
  | w, .subscribeTcp id =>
      some { w with routing := (w.routing.subscribeTcp id none none).2.2 }
  | w, .unsubscribeTcp handle =>
      if ∀ r ∈ w.routing.udpRoutes, r.1 ≠ handle then
        some { w with routing := w.routing.unsubscribe handle }
      else none

end World

/-- New clients on a new HAL. -/
def start {ι : Type} : World ι := {}

/-! ## Sessions -/

/-- A socket of a client, with the address that it was opened to. -/
structure Socket where
  id : Int
  host : Bytes
  port : UInt16
deriving DecidableEq

/-- What a client may have done and handed on, the socket that it then has, where its last one was
opened to, and the datagrams that its handler is still to be called with. A socket is opened where
there is none, it is used and closed under its id, and the handler is taken for datagrams of that id
while it is open. Each is handed on once at most, maybe behind the close. -/
inductive Sessions : List Event → Option Socket → Bytes × UInt16 → List Datagram → Prop
  | new : Sessions [] none ([], 0) []
  | failed {es peer ds} (h : Sessions es none peer ds) (e : NetworkError) :
      Sessions (es ++ [.connectReturned (.error e)]) none peer ds
  | opened {es peer ds} (h : Sessions es none peer ds) (socket : Socket) :
      Sessions (es ++ [.opened socket.id socket.host socket.port, .connectReturned (.ok ())])
        (some socket) (socket.host, socket.port) ds
  | refused {es socket peer ds} (h : Sessions es (some socket) peer ds) :
      Sessions (es ++ [.connectReturned (.error alreadyConnected)]) (some socket) peer ds
  | sent {es socket peer ds} (h : Sessions es (some socket) peer ds) (data : Bytes) :
      Sessions (es ++ [.sent socket.id data]) (some socket) peer ds
  | sendRefused {es peer ds} (h : Sessions es none peer ds) :
      Sessions (es ++ [.sendRefused notConnected]) none peer ds
  | taken {es socket peer ds} (h : Sessions es (some socket) peer ds) {d : Datagram}
      (hid : d.id = socket.id) : Sessions (es ++ [.taken d]) (some socket) peer (ds ++ [d])
  | message {es socket peer ds} (h : Sessions es socket peer ds) {n : ℕ} {d : Datagram}
      (hd : ds[n]? = some d) :
      Sessions (es ++ [.message d.id (d.source peer).1 (d.source peer).2 d.data]) socket peer
        (ds.eraseIdx n)
  | unheard {es socket peer ds} (h : Sessions es socket peer ds) (n : ℕ) :
      Sessions es socket peer (ds.eraseIdx n)
  | closed {es socket peer ds} (h : Sessions es (some socket) peer ds) :
      Sessions (es ++ [.closed socket.id]) none peer ds

/-- The socket that a client has. -/
def HalUdpClient.socket (client : HalUdpClient) : Option Socket :=
  if client.connected then some ⟨client.connectId, client.remoteHost, client.remotePort⟩ else none

theorem HalUdpClient.socket_idle {client : HalUdpClient} (h : client.connected = false) :
    client.socket = none := by
  rw [socket, if_neg (by rw [h]; decide)]

theorem HalUdpClient.socket_connected {client : HalUdpClient} (h : client.connected = true) :
    client.socket = some ⟨client.connectId, client.remoteHost, client.remotePort⟩ := by
  rw [socket, if_pos h]

/-- The route of a client that has a socket. -/
def HalUdpClient.route {ι : Type} (client : HalUdpClient) (i : ι) : ℕ × UdpRoute ι :=
  (client.subscription, ⟨client.connectId, some i⟩)

variable {ι : Type}

/-- The HAL's routes are exactly those of the sockets that clients have, every client has gone through
sessions, and one that is destroyed has no socket and gets nothing any more. -/
structure Orderly (w : World ι) : Prop where
  routes : ∀ r, r ∈ w.routing.udpRoutes ↔
    ∃ i, (w.slots i).client.connected = true ∧ r = (w.slots i).client.route i
  handles : (w.routing.udpRoutes.map Prod.fst).Nodup
  sessions : ∀ i, Sessions (w.events i) (w.slots i).client.socket (w.slots i).client.peer
    (w.underWay i)
  destroyed : ∀ i, (w.slots i).alive = false →
    (w.slots i).client.connected = false ∧ w.underWay i = []

/-- With what holds of the handles and of a `Connect` that is under way. -/
structure Kept (w : World ι) : Prop extends Orderly w where
  issued : ∀ r ∈ w.routing.udpRoutes, 0 < r.1 ∧ r.1 < w.routing.nextSubscription
  next : 0 < w.routing.nextSubscription
  tcp : ∀ r ∈ w.routing.tcpRoutes, r.1 < w.routing.nextSubscription
  withdrawn : ∀ i, (w.slots i).client.connected = false → (w.slots i).client.subscription = 0
  waits : ∀ i, (w.slots i).opening ≠ none →
    (w.slots i).client.connected = false ∧ (w.slots i).alive = true

theorem kept_start : Kept (start : World ι) where
  routes r := iff_of_false List.not_mem_nil (by rintro ⟨i, ⟨⟩, -⟩)
  handles := List.nodup_nil
  sessions _ := .new
  destroyed := by rintro i ⟨⟩
  issued _ h := absurd h List.not_mem_nil
  next := Nat.one_pos
  tcp _ h := absurd h List.not_mem_nil
  withdrawn _ _ := rfl
  waits _ h := absurd rfl h

namespace Kept

variable {w : World ι} {i j : ι}

/-- No two clients have one handle. -/
theorem subscription_ne (h : Kept w) (hi : (w.slots i).client.connected = true)
    (hj : (w.slots j).client.connected = true) (hne : i ≠ j) :
    (w.slots i).client.subscription ≠ (w.slots j).client.subscription := by
  intro heq
  have hmem : ∀ {k}, (w.slots k).client.connected = true →
      (w.slots k).client.route k ∈ w.routing.udpRoutes := fun hk => (h.routes _).mpr ⟨_, hk, rfl⟩
  have hsame := List.inj_on_of_nodup_map h.handles (hmem hi) (hmem hj) heq
  have howner := congrArg (fun r => r.2.onData) hsame
  exact hne (Option.some.inj howner)

end Kept

/-! ## Steps -/

theorem World.underWay_disconnect [DecidableEq ι] (w : World ι) (i : ι) :
    (w.disconnect i).underWay = w.underWay := by
  unfold World.disconnect
  dsimp only
  split
  · rfl
  · rfl

namespace Kept

variable {w : World ι} {i : ι}

/-- The routes of datagrams stay, and no handle is issued twice. -/
theorem setRouting (h : Kept w) {routing : Routing ι} (hudp : routing.udpRoutes = w.routing.udpRoutes)
    (hnext : w.routing.nextSubscription ≤ routing.nextSubscription)
    (htcp : ∀ r ∈ routing.tcpRoutes, r.1 < routing.nextSubscription) :
    Kept { w with routing := routing } where
  routes := hudp ▸ h.routes
  handles := hudp ▸ h.handles
  sessions := h.sessions
  destroyed := h.destroyed
  issued r hr := by
    obtain ⟨hpos, hlt⟩ := h.issued r (hudp ▸ hr)
    exact ⟨hpos, hlt.trans_le hnext⟩
  next := h.next.trans_le hnext
  tcp := htcp
  withdrawn := h.withdrawn
  waits := h.waits

variable [DecidableEq ι]

/-- Only the events of a client and the datagrams under way to it go on. -/
theorem goesOn (h : Kept w) {es : List Event} {ds : List Datagram}
    (hes : Sessions (w.events i ++ es) (w.slots i).client.socket (w.slots i).client.peer ds)
    (halive : (w.slots i).alive = false → ds = []) : Kept ((w.setUnderWay i ds).log i es) where
  routes := h.routes
  handles := h.handles
  sessions j := by
    by_cases hj : j = i
    · subst hj
      simpa [World.log, World.setUnderWay] using hes
    · simpa [World.log, World.setUnderWay, Function.update_of_ne hj] using h.sessions j
  destroyed j hdead := by
    refine ⟨(h.destroyed j hdead).1, ?_⟩
    by_cases hj : j = i
    · subst hj
      simpa [World.log, World.setUnderWay] using halive hdead
    · simpa [World.log, World.setUnderWay, Function.update_of_ne hj] using (h.destroyed j hdead).2
  issued := h.issued
  next := h.next
  tcp := h.tcp
  withdrawn := h.withdrawn
  waits := h.waits

/-- Only the events of a client go on. -/
theorem log (h : Kept w) {es : List Event}
    (hes : Sessions (w.events i ++ es) (w.slots i).client.socket (w.slots i).client.peer
      (w.underWay i)) : Kept (w.log i es) := by
  have hgoes := h.goesOn hes fun hdead => (h.destroyed i hdead).2
  rwa [World.setUnderWay, Function.update_eq_self] at hgoes

/-- Only what does not say which socket a client has changes in its slot. -/
theorem setSlot (h : Kept w) {slot : Slot}
    (hclient : slot.client.connected = (w.slots i).client.connected ∧
      slot.client.route i = (w.slots i).client.route i ∧
      slot.client.socket = (w.slots i).client.socket ∧
      slot.client.peer = (w.slots i).client.peer)
    (hdestroyed : slot.alive = false → slot.client.connected = false ∧ w.underWay i = [])
    (hwaits : slot.opening ≠ none → slot.client.connected = false ∧ slot.alive = true) :
    Kept { w with slots := Function.update w.slots i slot } where
  routes r := by
    rw [h.routes r]
    refine exists_congr fun j => ?_
    dsimp only
    by_cases hj : j = i
    · subst hj
      rw [Function.update_self, hclient.1, hclient.2.1]
    · rw [Function.update_of_ne hj]
  handles := h.handles
  sessions := (Function.forall_update_iff w.slots
    (fun j slot => Sessions (w.events j) slot.client.socket slot.client.peer (w.underWay j))).mpr
    ⟨by rw [hclient.2.2.1, hclient.2.2.2]; exact h.sessions i, fun j _ => h.sessions j⟩
  destroyed := (Function.forall_update_iff w.slots (fun j slot => slot.alive = false →
    slot.client.connected = false ∧ w.underWay j = [])).mpr ⟨hdestroyed, fun j _ => h.destroyed j⟩
  issued := h.issued
  next := h.next
  tcp := h.tcp
  withdrawn := (Function.forall_update_iff w.slots
    (fun _ slot => slot.client.connected = false → slot.client.subscription = 0)).mpr
    ⟨fun hidle => (congrArg Prod.fst hclient.2.1).trans (h.withdrawn i (hclient.1 ▸ hidle)),
      fun j _ => h.withdrawn j⟩
  waits := (Function.forall_update_iff w.slots (fun _ slot => slot.opening ≠ none →
    slot.client.connected = false ∧ slot.alive = true)).mpr ⟨hwaits, fun j _ => h.waits j⟩

/-- A socket that is opened gets a route of its own. -/
theorem opened (h : Kept w) (hidle : (w.slots i).client.connected = false)
    (halive : (w.slots i).alive = true) (id : Int) (host : Bytes) (port : UInt16) :
    Kept (w.opened i id host port) := by
  have hslots : (w.opened i id host port).slots = Function.update w.slots i
      { w.slots i with
        client := { (w.slots i).client with
          connected := true
          connectId := id
          remoteHost := host
          remotePort := port
          subscription := w.routing.nextSubscription }
        opening := none } := by
    simp [World.opened, World.setOpening, World.setClient, World.log, Routing.subscribeUdp]
  have hevents : (w.opened i id host port).events = Function.update w.events i
      (w.events i ++ [.opened id host port, .connectReturned (.ok ())]) := rfl
  have hrouting : (w.opened i id host port).routing =
      (w.routing.subscribeUdp id (some i)).2 := rfl
  have hunderWay : (w.opened i id host port).underWay = w.underWay := rfl
  generalize w.opened i id host port = w' at hslots hevents hrouting hunderWay
  have hold : ∀ r ∈ w.routing.udpRoutes, ∃ j, j ≠ i ∧ (w.slots j).client.connected = true ∧
      r = (w.slots j).client.route j := by
    intro r hr
    obtain ⟨j, hj, rfl⟩ := (h.routes r).mp hr
    exact ⟨j, fun heq => absurd ((heq ▸ hj).symm.trans hidle) (by decide), hj, rfl⟩
  refine ⟨⟨fun r => ?_, ?_, ?_, ?_⟩, ?_, ?_, ?_, ?_, ?_⟩
  · rw [hrouting, hslots, Routing.subscribeUdp, List.mem_append, List.mem_singleton]
    constructor
    · rintro (hr | rfl)
      · obtain ⟨j, hne, hj, rfl⟩ := hold r hr
        exact ⟨j, by rw [Function.update_of_ne hne]; exact hj, by rw [Function.update_of_ne hne]⟩
      · exact ⟨i, by rw [Function.update_self], by rw [Function.update_self]; rfl⟩
    · rintro ⟨j, hj, rfl⟩
      by_cases hne : j = i
      · subst hne
        rw [Function.update_self]
        exact .inr rfl
      · rw [Function.update_of_ne hne] at hj ⊢
        exact .inl ((h.routes _).mpr ⟨j, hj, rfl⟩)
  · rw [hrouting, Routing.subscribeUdp, List.map_append]
    refine h.handles.append (List.nodup_singleton _) ?_
    rw [List.map_singleton, List.disjoint_singleton]
    intro hmem
    obtain ⟨r, hr, heq⟩ := List.mem_map.mp hmem
    exact absurd heq (h.issued r hr).2.ne
  · rw [hslots, hevents, hunderWay]
    intro j
    by_cases hne : j = i
    · subst hne
      rw [Function.update_self, Function.update_self]
      exact .opened (HalUdpClient.socket_idle hidle ▸ h.sessions j) ⟨id, host, port⟩
    · rw [Function.update_of_ne hne, Function.update_of_ne hne]
      exact h.sessions j
  · rw [hslots, hunderWay]
    exact (Function.forall_update_iff w.slots (fun j slot => slot.alive = false →
      slot.client.connected = false ∧ w.underWay j = [])).mpr
      ⟨fun hdead => absurd (halive.symm.trans hdead) (by decide), fun j _ => h.destroyed j⟩
  · rw [hrouting]
    intro r hr
    obtain hr | hr := List.mem_append.mp hr
    · exact ⟨(h.issued r hr).1, Nat.lt_succ_of_lt (h.issued r hr).2⟩
    · obtain rfl := List.mem_singleton.mp hr
      exact ⟨h.next, Nat.lt_succ_self _⟩
  · rw [hrouting]
    exact Nat.succ_pos _
  · rw [hrouting]
    exact fun r hr => Nat.lt_succ_of_lt (h.tcp r hr)
  · rw [hslots]
    exact (Function.forall_update_iff w.slots
      (fun _ slot => slot.client.connected = false → slot.client.subscription = 0)).mpr
      ⟨by rintro ⟨⟩, fun j _ => h.withdrawn j⟩
  · rw [hslots]
    exact (Function.forall_update_iff w.slots (fun _ slot => slot.opening ≠ none →
      slot.client.connected = false ∧ slot.alive = true)).mpr
      ⟨fun hopening => absurd rfl hopening, fun j _ => h.waits j⟩

theorem disconnect (h : Kept w) (hopening : (w.slots i).opening = none) : Kept (w.disconnect i) := by
  by_cases hconnected : (w.slots i).client.connected = true
  · have hroute : (w.slots i).client.route i ∈ w.routing.udpRoutes :=
      (h.routes _).mpr ⟨i, hconnected, rfl⟩
    have hslots : (w.disconnect i).slots = Function.update w.slots i
        { w.slots i with client := { (w.slots i).client with
          connected := false
          connectId := -1
          subscription := 0 } } := by
      rw [World.disconnect, if_pos hconnected]
      rfl
    have hevents : (w.disconnect i).events = Function.update w.events i
        (w.events i ++ [.closed (w.slots i).client.connectId]) := by
      rw [World.disconnect, if_pos hconnected]
      rfl
    have hrouting : (w.disconnect i).routing = { w.routing with
        tcpRoutes := w.routing.tcpRoutes.filter fun r => r.1 != (w.slots i).client.subscription
        udpRoutes := w.routing.udpRoutes.filter fun r =>
          r.1 != (w.slots i).client.subscription } := by
      rw [World.disconnect, if_pos hconnected]
      exact if_neg (h.issued _ hroute).1.ne'
    have hunderWay : (w.disconnect i).underWay = w.underWay := w.underWay_disconnect i
    generalize w.disconnect i = w' at hslots hevents hrouting hunderWay
    refine ⟨⟨fun r => ?_, ?_, ?_, ?_⟩, ?_, ?_, ?_, ?_, ?_⟩
    · rw [hrouting, hslots, List.mem_filter, bne_iff_ne]
      constructor
      · rintro ⟨hr, hother⟩
        obtain ⟨j, hj, rfl⟩ := (h.routes r).mp hr
        have hne : j ≠ i := by
          rintro rfl
          exact hother rfl
        exact ⟨j, by rw [Function.update_of_ne hne]; exact hj, by rw [Function.update_of_ne hne]⟩
      · rintro ⟨j, hj, rfl⟩
        by_cases hne : j = i
        · subst hne
          rw [Function.update_self] at hj
          cases hj
        · rw [Function.update_of_ne hne] at hj ⊢
          exact ⟨(h.routes _).mpr ⟨j, hj, rfl⟩, h.subscription_ne hj hconnected hne⟩
    · rw [hrouting]
      exact h.handles.sublist (List.filter_sublist.map _)
    · rw [hslots, hevents, hunderWay]
      intro j
      by_cases hne : j = i
      · subst hne
        rw [Function.update_self, Function.update_self]
        exact .closed (HalUdpClient.socket_connected hconnected ▸ h.sessions j)
      · rw [Function.update_of_ne hne, Function.update_of_ne hne]
        exact h.sessions j
    · rw [hslots, hunderWay]
      exact (Function.forall_update_iff w.slots (fun j slot => slot.alive = false →
        slot.client.connected = false ∧ w.underWay j = [])).mpr
        ⟨fun hdead => ⟨rfl, (h.destroyed i hdead).2⟩, fun j _ => h.destroyed j⟩
    · rw [hrouting]
      exact fun r hr => h.issued r (List.mem_of_mem_filter hr)
    · rw [hrouting]
      exact h.next
    · rw [hrouting]
      exact fun r hr => h.tcp r (List.mem_of_mem_filter hr)
    · rw [hslots]
      exact (Function.forall_update_iff w.slots
        (fun _ slot => slot.client.connected = false → slot.client.subscription = 0)).mpr
        ⟨fun _ => rfl, fun j _ => h.withdrawn j⟩
    · rw [hslots]
      exact (Function.forall_update_iff w.slots (fun _ slot => slot.opening ≠ none →
        slot.client.connected = false ∧ slot.alive = true)).mpr
        ⟨fun hwaits => absurd hopening hwaits, fun j _ => h.waits j⟩
  · rw [World.disconnect, if_neg hconnected]
    exact h

theorem destroy (h : Kept w) (hopening : (w.slots i).opening = none)
    (hnothing : w.underWay i = []) : Kept (w.destroy i) := by
  have hkept := h.disconnect hopening
  have hidle : ((w.disconnect i).slots i).client.connected = false := by
    unfold World.disconnect
    dsimp only
    split
    · simp [World.setClient, World.log]
    · rename_i hconnected
      exact Bool.eq_false_iff.mpr hconnected
  have hwaiting : ((w.disconnect i).slots i).opening = none := by
    unfold World.disconnect
    dsimp only
    split
    · simp [World.setClient, World.log, hopening]
    · exact hopening
  have hnone : ((w.disconnect i).slots i).client.subscription = 0 := hkept.withdrawn i hidle
  unfold World.destroy
  dsimp only
  rw [hnone]
  refine hkept.setSlot ⟨rfl, ?_, rfl, rfl⟩ (fun _ => ⟨hidle, ?_⟩)
    fun hwaits => absurd hwaiting hwaits
  · rw [HalUdpClient.route, HalUdpClient.route, hnone]
  · rw [World.underWay_disconnect]
    exact hnothing

/-- The handler that is taken is that of the client whose socket the datagram is of. -/
theorem dispatchUdpData (h : Kept w) {order : List (ℕ × UdpRoute ι)}
    (horder : order.Perm w.routing.udpRoutes) (d : Datagram) : Kept (w.dispatchUdpData order d) := by
  unfold World.dispatchUdpData
  cases hfound : Routing.dispatchUdpData order d.id with
  | none => exact h
  | some i =>
      obtain ⟨route, hroute, howner⟩ := Option.bind_eq_some_iff.mp hfound
      obtain ⟨j, hj, rfl⟩ := (h.routes route).mp (horder.mem_iff.mp (List.mem_of_find?_eq_some hroute))
      obtain rfl := Option.some.inj howner
      have hserves := List.find?_some hroute
      have hid : d.id = (w.slots j).client.connectId := (eq_of_beq hserves).symm
      have hsessions := h.sessions j
      have hsocket := HalUdpClient.socket_connected hj
      rw [hsocket] at hsessions
      refine h.goesOn ?_ fun hdead => absurd ((h.destroyed j hdead).1.symm.trans hj) (by decide)
      rw [hsocket]
      exact hsessions.taken hid

/-- A handler that was taken is called, whatever became of the socket. -/
theorem calls (h : Kept w) {n : ℕ} {d : Datagram} (hd : (w.underWay i)[n]? = some d) :
    Kept ((w.setUnderWay i ((w.underWay i).eraseIdx n)).onUdpData i d) := by
  have hnone : (w.slots i).alive = false → (w.underWay i).eraseIdx n = [] := by
    intro hdead
    rw [(h.destroyed i hdead).2]
    rfl
  unfold World.onUdpData
  dsimp only
  split
  · exact h.goesOn ((h.sessions i).message hd) hnone
  · have hunheard : Sessions (w.events i ++ []) (w.slots i).client.socket (w.slots i).client.peer
        ((w.underWay i).eraseIdx n) := by
      rw [List.append_nil]
      exact (h.sessions i).unheard n
    have hgoes := h.goesOn hunheard hnone
    simpa [World.log] using hgoes

/-- Every step keeps it. -/
theorem step (h : Kept w) {l : Label ι} {w' : World ι} (hstep : World.step w l = some w') :
    Kept w' := by
  have hfree : ∀ {j}, w.free j = true → (w.slots j).alive = true ∧ (w.slots j).opening = none := by
    intro j hj
    simpa [World.free] using hj
  cases l with
  | onMessage i listens =>
      obtain ⟨hi, ⟨⟩⟩ := Option.ite_none_right_eq_some.mp hstep
      exact h.setSlot ⟨rfl, rfl, rfl, rfl⟩ (h.destroyed i) (h.waits i)
  | connect i host port =>
      obtain ⟨hi, ⟨⟩⟩ := Option.ite_none_right_eq_some.mp hstep
      unfold World.connect
      split
      · rename_i hconnected
        have hsessions := h.sessions i
        rw [HalUdpClient.socket_connected hconnected] at hsessions
        exact h.log (HalUdpClient.socket_connected hconnected ▸ hsessions.refused)
      · rename_i hidle
        exact h.setSlot ⟨rfl, rfl, rfl, rfl⟩ (h.destroyed i)
          fun _ => ⟨Bool.eq_false_iff.mpr hidle, (hfree hi).1⟩
  | opens i id =>
      obtain ⟨address, haddress, rfl⟩ := Option.map_eq_some_iff.mp hstep
      obtain ⟨hidle, halive⟩ := h.waits i (by rw [haddress]; exact Option.some_ne_none _)
      exact h.opened hidle halive id _ _
  | fails i e =>
      obtain ⟨address, haddress, rfl⟩ := Option.map_eq_some_iff.mp hstep
      obtain ⟨hidle, halive⟩ := h.waits i (by rw [haddress]; exact Option.some_ne_none _)
      have hopened : Kept (w.setOpening i none) :=
        h.setSlot ⟨rfl, rfl, rfl, rfl⟩ (h.destroyed i) fun hwaits => absurd rfl hwaits
      have hclient : ((w.setOpening i none).slots i).client = (w.slots i).client := by
        simp [World.setOpening]
      have hsocket : ((w.setOpening i none).slots i).client.socket = none := by
        rw [hclient]
        exact HalUdpClient.socket_idle hidle
      have hsessions := hopened.sessions i
      rw [hsocket] at hsessions
      exact hopened.log (hsocket ▸ hsessions.failed e)
  | disconnect i =>
      obtain ⟨hi, ⟨⟩⟩ := Option.ite_none_right_eq_some.mp hstep
      exact h.disconnect (hfree hi).2
  | destroy i =>
      obtain ⟨hi, ⟨⟩⟩ := Option.ite_none_right_eq_some.mp hstep
      exact h.destroy (hfree hi.1).2 hi.2
  | send i data =>
      obtain ⟨hi, ⟨⟩⟩ := Option.ite_none_right_eq_some.mp hstep
      have hsessions := h.sessions i
      unfold World.send
      split
      · rename_i hconnected
        rw [HalUdpClient.socket_connected hconnected] at hsessions
        exact h.log (HalUdpClient.socket_connected hconnected ▸ hsessions.sent data)
      · rename_i hidle
        have hsocket := HalUdpClient.socket_idle (Bool.eq_false_iff.mpr hidle)
        rw [hsocket] at hsessions
        exact h.log (hsocket ▸ hsessions.sendRefused)
  | datagram order d =>
      obtain ⟨horder, ⟨⟩⟩ := Option.ite_none_right_eq_some.mp hstep
      exact h.dispatchUdpData horder d
  | calls i n =>
      obtain ⟨d, hd, rfl⟩ := Option.map_eq_some_iff.mp hstep
      exact h.calls hd
  | subscribeTcp id =>
      obtain rfl := Option.some.inj hstep
      refine h.setRouting rfl (Nat.le_succ _) fun r hr => ?_
      obtain hr | hr := List.mem_append.mp hr
      · exact Nat.lt_succ_of_lt (h.tcp r hr)
      · obtain rfl := List.mem_singleton.mp hr
        exact Nat.lt_succ_self _
  | unsubscribeTcp handle =>
      obtain ⟨hother, ⟨⟩⟩ := Option.ite_none_right_eq_some.mp hstep
      unfold Routing.unsubscribe
      split
      · exact h
      · refine h.setRouting ?_ (Nat.le_refl _) fun r hr => h.tcp r (List.mem_of_mem_filter hr)
        exact List.filter_eq_self.mpr fun r hr => bne_iff_ne.mpr (hother r hr)

end Kept

/-- Whatever the applications, the module and the other users of the HAL do, in whatever order. -/
theorem orderly_of_reachable [DecidableEq ι] {w : World ι}
    (h : Reachable (World.step (ι := ι)) start w) : Orderly w := by
  have hkept : Kept w := Reachable.invariant kept_start (fun w l w' hw hstep => hw.step hstep) h
  exact hkept.toOrderly

/-- Two clients: the handler of the second is taken for a datagram while the first is in `UdpOpen`,
and called when the second has another socket, whose peer the datagram is said to be from. -/
def crossingRun : List (Label Bool) :=
  [.connect true [98] 53, .opens true 2, .onMessage true true, .connect false [97] 7,
    .datagram [(1, ⟨2, some true⟩)] ⟨2, [], 0, [1]⟩, .disconnect true, .opens false 2,
    .connect true [99] 80, .opens true 3, .calls true 0, .disconnect true, .destroy false]

theorem orderly_of_reachable_crossing :
    ∃ w, Runs.exec World.step start crossingRun = some w ∧ Orderly w ∧
      w.events true = [.opened 2 [98] 53, .connectReturned (.ok ()), .taken ⟨2, [], 0, [1]⟩,
        .closed 2, .opened 3 [99] 80, .connectReturned (.ok ()), .message 2 [99] 80 [1],
        .closed 3] := by
  have hevents : (Runs.exec World.step start crossingRun).map (fun w => w.events true) =
      some [.opened 2 [98] 53, .connectReturned (.ok ()), .taken ⟨2, [], 0, [1]⟩,
        .closed 2, .opened 3 [99] 80, .connectReturned (.ok ()), .message 2 [99] 80 [1],
        .closed 3] := by
    decide
  obtain ⟨w, hw, htrue⟩ := Option.map_eq_some_iff.mp hevents
  exact ⟨w, hw, orderly_of_reachable ⟨_, hw⟩, htrue⟩

end EspModemLink.Hal.UdpClient
