import EspModemLink.Bytes
import Mathlib.Data.List.Perm.Basic

/-!
# Routes from sockets to clients

The part of `IModuleHal` that every module shares: who is told about a connection id, and what is
held for an id that nobody listens to yet. A callback is known by a name in `κ`. The maps of
routes are traversed in an order the library leaves open, so every traversal takes its order as
an argument.
-/

namespace EspModemLink.Hal

/-- `TcpRoute`. -/
structure TcpRoute (κ : Type) where
  connectId : Int
  onData : Option κ
  onClose : Option κ
deriving DecidableEq

/-- `UdpRoute`. -/
structure UdpRoute (κ : Type) where
  connectId : Int
  onData : Option κ
deriving DecidableEq

/-- `Undelivered`. -/
structure Undelivered where
  data : Bytes := []
  truncated : Bool := false
  closed : Bool := false
deriving DecidableEq

def kMaxUndeliveredBytes : ℕ := 4 * 1024

/-- The members under `subscription_mutex_`. A subscription is known by its handle. -/
structure Routing (κ : Type) where
  nextSubscription : ℕ := 1
  tcpRoutes : List (ℕ × TcpRoute κ) := []
  udpRoutes : List (ℕ × UdpRoute κ) := []
  undelivered : Int → Option Undelivered := fun _ => none

namespace Routing

variable {κ : Type}

/-- What is held for an id, empty where there is no entry. -/
def held (r : Routing κ) (id : Int) : Undelivered := (r.undelivered id).getD {}

/-- `undelivered_[id] = u`. -/
def setHeld (r : Routing κ) (id : Int) (u : Undelivered) : Routing κ :=
  { r with undelivered := Function.update r.undelivered id (some u) }

/-- `DiscardUndelivered`. -/
def discardUndelivered (r : Routing κ) (id : Int) : Routing κ :=
  { r with undelivered := Function.update r.undelivered id none }

/-- The section of `SubscribeTcp`: the handle, what was held, and the new routes. -/
def subscribeTcp (r : Routing κ) (id : Int) (onData onClose : Option κ) :
    ℕ × Undelivered × Routing κ :=
  (r.nextSubscription, r.held id,
    { r with
      nextSubscription := r.nextSubscription + 1
      tcpRoutes := r.tcpRoutes ++ [(r.nextSubscription, ⟨id, onData, onClose⟩)]
      undelivered := Function.update r.undelivered id none })

/-- `SubscribeUdp`. -/
def subscribeUdp (r : Routing κ) (id : Int) (onData : Option κ) : ℕ × Routing κ :=
  (r.nextSubscription,
    { r with
      nextSubscription := r.nextSubscription + 1
      udpRoutes := r.udpRoutes ++ [(r.nextSubscription, ⟨id, onData⟩)] })

/-- `Unsubscribe`. -/
def unsubscribe (r : Routing κ) (handle : ℕ) : Routing κ :=
  if handle = 0 then r
  else { r with
    tcpRoutes := r.tcpRoutes.filter fun route => route.1 != handle
    udpRoutes := r.udpRoutes.filter fun route => route.1 != handle }

/-- `HoldLocked`. -/
def hold (r : Routing κ) (id : Int) (data : Bytes) : Routing κ :=
  let held := r.held id
  let take := min (kMaxUndeliveredBytes - held.data.length) data.length
  r.setHeld id { held with
    data := held.data ++ data.take take
    truncated := held.truncated || decide (take < data.length) }

/-- Routes of an id. -/
def serves (id : Int) (route : ℕ × TcpRoute κ) : Bool := route.2.connectId == id

/-- `FindTcpRouteLocked`, in the order of the traversal. -/
def findTcpRoute (order : List (ℕ × TcpRoute κ)) (id : Int) : Option (ℕ × TcpRoute κ) :=
  order.find? (serves id)

/-- The section of `DispatchTcpData`: the handler, if there is a route, and what is held then. -/
def dispatchTcpData (r : Routing κ) (order : List (ℕ × TcpRoute κ)) (id : Int) (data : Bytes) :
    Option κ × Routing κ :=
  match findTcpRoute order id with
  | some route => (route.2.onData, r)
  | none => (none, r.hold id data)

/-- The section of `DispatchTcpClose`: the handlers, and the routes without those of the id. -/
def dispatchTcpClose (r : Routing κ) (order : List (ℕ × TcpRoute κ)) (id : Int) :
    List κ × Routing κ :=
  let routed := order.filter (serves id)
  if routed = [] then ([], r.setHeld id { r.held id with closed := true })
  else
    (routed.filterMap fun route => route.2.onClose,
      { r with
        tcpRoutes := r.tcpRoutes.filter fun route => !serves id route
        undelivered := Function.update r.undelivered id none })

/-- The section of `DispatchUdpData`: the handler. -/
def dispatchUdpData (order : List (ℕ × UdpRoute κ)) (id : Int) : Option κ :=
  (order.find? fun route => route.2.connectId == id).bind fun route => route.2.onData

/-! ## The routes of one id -/

/-- The routes that serve an id. -/
def routesOf (r : Routing κ) (id : Int) : List (ℕ × TcpRoute κ) := r.tcpRoutes.filter (serves id)

variable {r : Routing κ} {order : List (ℕ × TcpRoute κ)} {id : Int}

@[simp] theorem held_setHeld (u : Undelivered) : (r.setHeld id u).held id = u := by
  simp [held, setHeld]

@[simp] theorem routesOf_setHeld (i : Int) (u : Undelivered) :
    (r.setHeld i u).routesOf id = r.routesOf id := rfl

@[simp] theorem routesOf_hold (i : Int) (data : Bytes) :
    (r.hold i data).routesOf id = r.routesOf id := rfl

@[simp] theorem routesOf_discardUndelivered (i : Int) :
    (r.discardUndelivered i).routesOf id = r.routesOf id := rfl

theorem routesOf_subscribeTcp (onData onClose : Option κ) :
    (r.subscribeTcp id onData onClose).2.2.routesOf id =
      r.routesOf id ++ [(r.nextSubscription, ⟨id, onData, onClose⟩)] := by
  simp [routesOf, subscribeTcp, serves]

/-- Whatever the order, an id without a route has none. -/
theorem findTcpRoute_eq_none (horder : order.Perm r.tcpRoutes) (h : r.routesOf id = []) :
    findTcpRoute order id = none := by
  apply List.find?_eq_none.mpr
  intro route hroute hserves
  have hmem : route ∈ r.routesOf id :=
    List.mem_filter.mpr ⟨horder.mem_iff.mp hroute, hserves⟩
  rw [h] at hmem
  cases hmem

/-- Whatever the order, the one route of an id is found. -/
theorem findTcpRoute_eq_some {route : ℕ × TcpRoute κ} (horder : order.Perm r.tcpRoutes)
    (h : r.routesOf id = [route]) : findTcpRoute order id = some route := by
  have hfilter : order.filter (serves id) = [route] :=
    List.perm_singleton.mp (h ▸ horder.filter _)
  rw [findTcpRoute, ← List.head?_filter, hfilter]
  rfl

theorem dispatchTcpData_held (horder : order.Perm r.tcpRoutes) (h : r.routesOf id = [])
    (data : Bytes) : r.dispatchTcpData order id data = (none, r.hold id data) := by
  rw [dispatchTcpData, findTcpRoute_eq_none horder h]

theorem dispatchTcpData_routed {route : ℕ × TcpRoute κ} (horder : order.Perm r.tcpRoutes)
    (h : r.routesOf id = [route]) (data : Bytes) :
    r.dispatchTcpData order id data = (route.2.onData, r) := by
  rw [dispatchTcpData, findTcpRoute_eq_some horder h]

theorem dispatchTcpClose_held (horder : order.Perm r.tcpRoutes) (h : r.routesOf id = []) :
    r.dispatchTcpClose order id = ([], r.setHeld id { r.held id with closed := true }) := by
  have hfilter : order.filter (serves id) = [] := List.perm_nil.mp (h ▸ horder.filter _)
  simp [dispatchTcpClose, hfilter]

/-- A close is told to the one route of the id, which is gone afterwards. -/
theorem dispatchTcpClose_routed {route : ℕ × TcpRoute κ} (horder : order.Perm r.tcpRoutes)
    (h : r.routesOf id = [route]) :
    (r.dispatchTcpClose order id).1 = route.2.onClose.toList ∧
      (r.dispatchTcpClose order id).2.routesOf id = [] := by
  have hfilter : order.filter (serves id) = [route] :=
    List.perm_singleton.mp (h ▸ horder.filter _)
  rw [dispatchTcpClose, hfilter, if_neg (List.cons_ne_nil _ _)]
  constructor
  · cases hclose : route.2.onClose <;> simp [hclose]
  · simp [routesOf, List.filter_filter]

/-! ## Holding -/

/-- A hold keeps the first bytes of a stream. -/
theorem hold_prefix {stream : Bytes} (hdata : (r.held id).data = stream.take kMaxUndeliveredBytes)
    (htruncated : (r.held id).truncated = decide (kMaxUndeliveredBytes < stream.length))
    (data : Bytes) :
    ((r.hold id data).held id).data = (stream ++ data).take kMaxUndeliveredBytes ∧
      ((r.hold id data).held id).truncated =
        decide (kMaxUndeliveredBytes < (stream ++ data).length) ∧
      ((r.hold id data).held id).closed = (r.held id).closed := by
  have hlen : (r.held id).data.length = min kMaxUndeliveredBytes stream.length := by
    rw [hdata, List.length_take]
  simp only [hold, held_setHeld]
  refine ⟨?_, ?_, trivial⟩
  · rw [hdata, List.length_take, List.take_append]
    congr 1
    by_cases hle : data.length ≤ kMaxUndeliveredBytes - (min kMaxUndeliveredBytes stream.length)
    · rw [Nat.min_eq_right hle, List.take_of_length_le (Nat.le_refl _),
        List.take_of_length_le (by omega)]
    · rw [Nat.min_eq_left (by omega)]
      congr 1
      omega
  · rw [htruncated, hlen, Bool.eq_iff_iff]
    simp only [Bool.or_eq_true, decide_eq_true_eq, List.length_append]
    omega

end Routing

end EspModemLink.Hal
