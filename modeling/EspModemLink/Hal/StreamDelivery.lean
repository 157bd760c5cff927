import EspModemLink.Library.Sections
import EspModemLink.Hal.Routing

/-!
# One subscription and the stream of its socket

`SubscribeTcp` for one id on one thread, and on the receive task the dispatches of what the module
sends for it. `SubscribeTcp` makes the route visible before it hands over what was held. The
client gets the stream in order as long as the receive task stays out of that gap.
-/

namespace EspModemLink.Hal.Delivery

/-- The parts of `SubscribeTcp` and of the dispatches, and the callbacks of clients. -/
inductive Sect where
  | subscribeTcp (id : Int) (client : ℕ)
  | dispatchTcpData (id : Int) (data : Bytes)
  | onData (client : ℕ) (id : Int) (data : Bytes)
  | dispatchTcpClose (id : Int)
  | onClose (client : ℕ) (id : Int)
  | tcpClose (id : Int)
deriving DecidableEq

inductive Event where
  | onData (client : ℕ) (id : Int) (data : Bytes)
  | onClose (client : ℕ) (id : Int)
  | overflowed (id : Int)
  | tcpClosed (id : Int)
deriving DecidableEq

/-- The routes and what has happened. -/
structure World where
  routing : Routing ℕ := {}
  trace : List Event := []

/-- The order in which the routes are traversed, and whether the module's `TcpClose` voids what is
held for its id. -/
structure Choice where
  order : List (ℕ × TcpRoute ℕ)
  discards : Bool
deriving DecidableEq

namespace World

def log (w : World) (e : Event) : World := { w with trace := w.trace ++ [e] }

/-- `SubscribeTcp`: the route is there, and what was held is still to be handed over. -/
def subscribeTcp (w : World) (id : Int) (client : ℕ) : World × List Sect :=
  let (_, held, routing) := w.routing.subscribeTcp id (some client) (some client)
  ({ w with routing := routing },
    (if held.data = [] then [] else [.dispatchTcpData id held.data]) ++
      if held.closed then [.dispatchTcpClose id]
      else if held.truncated then [.tcpClose id, .dispatchTcpClose id] else [])

/-- `DispatchTcpData`. -/
def dispatchTcpData (w : World) (order : List (ℕ × TcpRoute ℕ)) (id : Int) (data : Bytes) :
    World × List Sect :=
  match Routing.findTcpRoute order id with
  | some _ =>
      let (handler, routing) := w.routing.dispatchTcpData order id data
      ({ w with routing := routing }, handler.toList.map fun client => .onData client id data)
  | none =>
      let routing := (w.routing.dispatchTcpData order id data).2
      (if (routing.held id).truncated then ({ w with routing := routing } : World).log (.overflowed id)
        else { w with routing := routing }, [])

/-- `DispatchTcpClose`. -/
def dispatchTcpClose (w : World) (order : List (ℕ × TcpRoute ℕ)) (id : Int) : World × List Sect :=
  let (handlers, routing) := w.routing.dispatchTcpClose order id
  ({ w with routing := routing }, handlers.map fun client => .onClose client id)

/-- One section. A traversal visits every route once. -/
def exec (_ : ℕ) (s : Sect) (c : Choice) (w : World) : Option (World × List Sect) :=
  match s with
  | .subscribeTcp id client => some (w.subscribeTcp id client)
  | .dispatchTcpData id data =>
      if c.order.Perm w.routing.tcpRoutes then some (w.dispatchTcpData c.order id data) else none
  | .onData client id data => some (w.log (.onData client id data), [])
  | .dispatchTcpClose id =>
      if c.order.Perm w.routing.tcpRoutes then some (w.dispatchTcpClose c.order id) else none
  | .onClose client id => some (w.log (.onClose client id), [])
  | .tcpClose id =>
      let routing := if c.discards then w.routing.discardUndelivered id else w.routing
      some (({ w with routing := routing } : World).log (.tcpClosed id), [])

end World

/-- The threads. No thread begins later. -/
def program : Sections.Program World Sect Empty Choice := ⟨nofun, World.exec⟩

abbrev Config := Sections.Config World Sect
abbrev Label := Sections.Label Empty Choice

/-- The dispatches of the receive task that are still to come. -/
def receiver (id : Int) (todo : List Bytes) (closing : Bool) : List Sect :=
  todo.map (.dispatchTcpData id) ++ if closing then [.dispatchTcpClose id] else []

/-- A subscription of `client` for `id`, beside a receive task that dispatches `arrivals` for it
and then, where `closes` says so, the close. -/
def start (routing : Routing ℕ) (id : Int) (client : ℕ) (arrivals : List Bytes) (closes : Bool) :
    Config :=
  ⟨⟨routing, []⟩, [[.subscribeTcp id client], receiver id arrivals closes]⟩

/-! ## The stream that a client gets -/

/-- The bytes of the calls of `on_data`, in call order. -/
def delivered (client : ℕ) (trace : List Event) : Bytes :=
  trace.flatMap fun e => match e with
    | .onData c _ data => if c = client then data else []
    | _ => []

/-- The callbacks of a client. -/
def Event.tells (client : ℕ) : Event → Bool
  | .onData c _ _ => c == client
  | .onClose c _ => c == client
  | _ => false

/-- `on_close` is the last callback of the client, so there is at most one. -/
def ClosedLast (id : Int) (client : ℕ) (trace : List Event) : Prop :=
  ∀ before after, trace = before ++ .onClose client id :: after →
    ∀ e ∈ after, e.tells client = false

/-- The client gets the stream that was dispatched: in order, and whole in the end, unless the
hold overflowed, in which case the socket is closed. -/
structure StreamKept (id : Int) (client : ℕ) (arrivals : List Bytes) (closes : Bool)
    (cfg : Config) : Prop where
  ordered : delivered client cfg.shared.trace <+: arrivals.flatten
  whole : (∀ q ∈ cfg.threads, q = []) →
    delivered client cfg.shared.trace = arrivals.flatten ∨
      Event.overflowed id ∈ cfg.shared.trace ∧
        (Event.tcpClosed id ∈ cfg.shared.trace ∨ closes = true)
  closedLast : ClosedLast id client cfg.shared.trace

/-- A lookup of the route for data. -/
def Sect.looksUp : Sect → Bool
  | .dispatchTcpData .. => true
  | _ => false

/-- A call of `on_data`. -/
def Sect.callsOnData : Sect → Bool
  | .onData .. => true
  | _ => false

/-- What the receive task may do while the subscriber still has `owed` to do: it looks up no route
for data while a close for an overflow is owed, it calls `on_data` only when the held bytes are
through, it takes the route away only when they are looked up (or cut off anyway), and it calls
`on_close` only when they are delivered. -/
def Undisturbed (id : Int) (owed : List Sect) : Sect → Prop
  | .dispatchTcpData .. => .dispatchTcpClose id ∉ owed
  | .onData .. => ∀ s ∈ owed, s.looksUp = false ∧ s.callsOnData = false
  | .dispatchTcpClose _ => (∀ s ∈ owed, s.looksUp = false) ∨ .tcpClose id ∈ owed
  | .onClose .. => ∀ s ∈ owed, s.callsOnData = false
  | _ => True

instance (id : Int) (owed : List Sect) : (s : Sect) → Decidable (Undisturbed id owed s)
  | .dispatchTcpData .. => inferInstanceAs (Decidable (¬_ ∈ owed))
  | .onData .. => inferInstanceAs (Decidable (∀ s ∈ owed, s.looksUp = false ∧ s.callsOnData = false))
  | .dispatchTcpClose _ =>
      inferInstanceAs (Decidable ((∀ s ∈ owed, s.looksUp = false) ∨ .tcpClose id ∈ owed))
  | .onClose .. => inferInstanceAs (Decidable (∀ s ∈ owed, s.callsOnData = false))
  | .subscribeTcp .. => inferInstanceAs (Decidable True)
  | .tcpClose _ => inferInstanceAs (Decidable True)

/-- The receive task (thread 1) stays out of the hand-over of the subscriber (thread 0). -/
def KeepsOut (id : Int) (cfg : Config) : Label → Prop
  | .run 1 _ =>
      match cfg.threads with
      | [owed, s :: _] => Undisturbed id owed s
      | _ => True
  | _ => True

instance (id : Int) (cfg : Config) (l : Label) : Decidable (KeepsOut id cfg l) := by
  unfold KeepsOut
  split
  · split
    · exact inferInstanceAs (Decidable (Undisturbed id _ _))
    · exact inferInstanceAs (Decidable True)
  · exact inferInstanceAs (Decidable True)

/-! ## Traces -/

theorem delivered_snoc (client : ℕ) (trace : List Event) (e : Event) :
    delivered client (trace ++ [e]) = delivered client trace ++ delivered client [e] := by
  simp [delivered, List.flatMap_append]

@[simp] theorem delivered_onData (client : ℕ) (id : Int) (trace : List Event) (data : Bytes) :
    delivered client (trace ++ [.onData client id data]) = delivered client trace ++ data := by
  simp [delivered]

/-- Other events deliver nothing. -/
theorem delivered_of_quiet {client : ℕ} {e : Event} (he : e.tells client = false)
    (trace : List Event) : delivered client (trace ++ [e]) = delivered client trace := by
  rw [delivered_snoc]
  cases e with
  | onData c i data =>
      have hc : ¬c = client := by simpa [Event.tells] using he
      simp [delivered, hc]
  | onClose | overflowed | tcpClosed => simp [delivered]

@[simp] theorem delivered_onClose (client c : ℕ) (id : Int) (trace : List Event) :
    delivered client (trace ++ [.onClose c id]) = delivered client trace := by
  simp [delivered]

/-- A client that was told nothing got nothing. -/
theorem delivered_eq_nil {client : ℕ} {trace : List Event}
    (h : ∀ e ∈ trace, e.tells client = false) : delivered client trace = [] := by
  apply List.flatMap_eq_nil_iff.mpr
  intro e he
  cases e with
  | onData c i data =>
      have hc : ¬c = client := by simpa [Event.tells] using h _ he
      simp [hc]
  | onClose | overflowed | tcpClosed => rfl

/-- Before its close, a client may be told anything. -/
theorem ClosedLast.snoc_of_notMem {id : Int} {client : ℕ} {trace : List Event} (e : Event)
    (hclose : Event.onClose client id ∉ trace) : ClosedLast id client (trace ++ [e]) := by
  intro before after heq
  rcases List.eq_nil_or_concat after with rfl | ⟨after', e', rfl⟩
  · simp
  · rw [List.concat_eq_append, ← List.cons_append, ← List.append_assoc] at heq
    obtain ⟨htrace, -⟩ := List.append_inj' heq rfl
    exact absurd (htrace ▸ by simp) hclose

/-- After it, what is not for the client may still happen. -/
theorem ClosedLast.snoc_of_quiet {id : Int} {client : ℕ} {trace : List Event} {e : Event}
    (h : ClosedLast id client trace) (he : e.tells client = false) :
    ClosedLast id client (trace ++ [e]) := by
  intro before after heq
  rcases List.eq_nil_or_concat after with rfl | ⟨after', e', rfl⟩
  · simp
  · rw [List.concat_eq_append, ← List.cons_append, ← List.append_assoc] at heq
    obtain ⟨htrace, hlast⟩ := List.append_inj' heq rfl
    obtain rfl := List.singleton_inj.mp hlast
    intro x hx
    rw [List.concat_eq_append] at hx
    obtain hx | hx := List.mem_append.mp hx
    · exact h before after' htrace x hx
    · exact List.mem_singleton.mp hx ▸ he

/-! ## What the dispatches do -/

section

variable {w : World} {order : List (ℕ × TcpRoute ℕ)} {id : Int} {client n : ℕ}

/-- The one route of `id` goes to the client. -/
def Routed (w : World) (id : Int) (client : ℕ) : Prop :=
  ∃ n, w.routing.routesOf id = [(n, ⟨id, some client, some client⟩)]

theorem dispatchTcpData_of_routed (horder : order.Perm w.routing.tcpRoutes)
    (h : Routed w id client) (data : Bytes) :
    w.dispatchTcpData order id data = (w, [.onData client id data]) := by
  obtain ⟨n, h⟩ := h
  simp only [World.dispatchTcpData, Routing.findTcpRoute_eq_some horder h,
    Routing.dispatchTcpData_routed horder h]
  rfl

theorem dispatchTcpData_of_free (horder : order.Perm w.routing.tcpRoutes)
    (h : w.routing.routesOf id = []) (data : Bytes) :
    ∃ w', w.dispatchTcpData order id data = (w', []) ∧ w'.routing = w.routing.hold id data ∧
      (w'.trace = w.trace ++ [.overflowed id] ∨
        w'.trace = w.trace ∧ ((w.routing.hold id data).held id).truncated = false) := by
  simp only [World.dispatchTcpData, Routing.findTcpRoute_eq_none horder h,
    Routing.dispatchTcpData_held horder h]
  split
  · exact ⟨_, rfl, rfl, .inl rfl⟩
  · rename_i htruncated
    exact ⟨_, rfl, rfl, .inr ⟨rfl, Bool.eq_false_iff.mpr htruncated⟩⟩

theorem dispatchTcpClose_of_routed (horder : order.Perm w.routing.tcpRoutes)
    (h : Routed w id client) :
    ∃ w', w.dispatchTcpClose order id = (w', [.onClose client id]) ∧
      w'.routing.routesOf id = [] ∧ w'.trace = w.trace := by
  obtain ⟨n, h⟩ := h
  obtain ⟨hhandlers, hroutes⟩ := Routing.dispatchTcpClose_routed horder h
  refine ⟨{ w with routing := (w.routing.dispatchTcpClose order id).2 }, ?_, hroutes, rfl⟩
  simp only [World.dispatchTcpClose, hhandlers]
  rfl

theorem dispatchTcpClose_of_free (horder : order.Perm w.routing.tcpRoutes)
    (h : w.routing.routesOf id = []) :
    w.dispatchTcpClose order id =
      ({ w with routing := w.routing.setHeld id { w.routing.held id with closed := true } }, []) := by
  simp only [World.dispatchTcpClose, Routing.dispatchTcpClose_held horder h]
  rfl

end

/-! ## The phases of a subscription -/

/-- The held bytes `h` on their way to the client. -/
inductive Handing (id : Int) (client : ℕ) : Bytes → List Sect → Prop where
  | through : Handing id client [] []
  | lookingUp (h : Bytes) : Handing id client h [.dispatchTcpData id h]
  | calling (h : Bytes) : Handing id client h [.onData client id h]

/-- Bytes `d` that the receive task is about to pass to the client. -/
inductive Calling (id : Int) (client : ℕ) : Bytes → List Sect → Prop where
  | through : Calling id client [] []
  | calling (d : Bytes) : Calling id client d [.onData client id d]

section

variable (id : Int) (client : ℕ) (arrivals : List Bytes) (closes : Bool) (w : World)

/-- Nobody has subscribed: what arrived is held. -/
structure Waiting (done todo : List Bytes) (closing : Bool) : Prop where
  split : arrivals = done ++ todo
  announced : closes = (closing || (w.routing.held id).closed)
  last : (w.routing.held id).closed = true → todo = [] ∧ closing = false
  routes : w.routing.routesOf id = []
  data : (w.routing.held id).data = done.flatten.take kMaxUndeliveredBytes
  truncated : (w.routing.held id).truncated = decide (kMaxUndeliveredBytes < done.flatten.length)
  overflowed : (w.routing.held id).truncated = true → Event.overflowed id ∈ w.trace
  quiet : ∀ e ∈ w.trace, e.tells client = false

/-- The client is routed and nothing ends the stream yet: what was dispatched is delivered but for
the held bytes `h` and the bytes `d` in the hands of the receive task. -/
structure Opened (done todo : List Bytes) (h d : Bytes) : Prop where
  split : arrivals = done ++ todo
  routed : Routed w id client
  delivered : delivered client w.trace ++ h ++ d = done.flatten
  notClosed : Event.onClose client id ∉ w.trace

/-- The client is routed and the subscriber owes the end `tail` of the stream. -/
structure Ending (h : Bytes) (tail : List Sect) : Prop where
  routed : Routed w id client
  owes : tail = [.dispatchTcpClose id] ∨
    tail = [.tcpClose id, .dispatchTcpClose id] ∧ Event.overflowed id ∈ w.trace
  ordered : delivered client w.trace ++ h <+: arrivals.flatten
  whole : delivered client w.trace ++ h = arrivals.flatten ∨ Event.overflowed id ∈ w.trace ∧
    (Event.tcpClosed id ∈ w.trace ∨ closes = true ∨ Sect.tcpClose id ∈ tail)
  notClosed : Event.onClose client id ∉ w.trace

/-- The receive task took the route away. -/
structure ByPeer (h : Bytes) (s tail r : List Sect) : Prop where
  routes : w.routing.routesOf id = []
  announced : closes = true
  owes : tail = [] ∨ tail = [.dispatchTcpClose id] ∨ tail = [.tcpClose id, .dispatchTcpClose id]
  ordered : delivered client w.trace ++ h <+: arrivals.flatten
  whole : (delivered client w.trace ++ h = arrivals.flatten ∧
    ∀ k ∈ s, k.looksUp = false) ∨ Event.overflowed id ∈ w.trace
  told : r = [.onClose client id] ∧ Event.onClose client id ∉ w.trace ∨
    r = [] ∧ ∀ k ∈ s, k.callsOnData = false

/-- The subscriber took the route away. -/
structure BySubscriber (s : List Sect) : Prop where
  routes : w.routing.routesOf id = []
  ordered : delivered client w.trace <+: arrivals.flatten
  whole : delivered client w.trace = arrivals.flatten ∨ Event.overflowed id ∈ w.trace ∧
    (Event.tcpClosed id ∈ w.trace ∨ closes = true)
  told : s = [.onClose client id] ∧ Event.onClose client id ∉ w.trace ∨ s = []

/-- What the subscriber and the receive task still have to execute, phase by phase. -/
inductive Phase : List Sect → List Sect → Prop where
  | waiting {done todo : List Bytes} {closing : Bool}
      (h : Waiting id client arrivals closes w done todo closing) :
      Phase [.subscribeTcp id client] (receiver id todo closing)
  | opened {done todo : List Bytes} {h d : Bytes} {s c : List Sect} (hs : Handing id client h s)
      (hc : Calling id client d c) (ho : Opened id client arrivals w done todo h d) :
      Phase s (c ++ receiver id todo closes)
  | ending {todo : List Bytes} {closing : Bool} {h : Bytes} {s tail : List Sect}
      (hs : Handing id client h s) (hclosing : closing = true → closes = true)
      (he : Ending id client arrivals closes w h tail) :
      Phase (s ++ tail) (receiver id todo closing)
  | byPeer {h : Bytes} {s tail r : List Sect} (hs : Handing id client h s)
      (hp : ByPeer id client arrivals closes w h s tail r) : Phase (s ++ tail) r
  | bySubscriber {todo : List Bytes} {closing : Bool} {s : List Sect}
      (hb : BySubscriber id client arrivals closes w s) : Phase s (receiver id todo closing)

end

/-! ## What one step does to a phase -/

section

variable {id : Int} {client : ℕ} {arrivals : List Bytes} {closes : Bool} {w w' : World}
  {done todo : List Bytes} {closing : Bool} {h d : Bytes} {order : List (ℕ × TcpRoute ℕ)}

/-- A lookup of a route for data traverses all routes. -/
theorem exec_dispatchTcpData {i : ℕ} {choice : Choice} {ks : List Sect} {data : Bytes}
    (h : World.exec i (.dispatchTcpData id data) choice w = some (w', ks)) :
    choice.order.Perm w.routing.tcpRoutes ∧ w.dispatchTcpData choice.order id data = (w', ks) := by
  simp only [World.exec] at h
  split at h
  · exact ⟨‹_›, Option.some.inj h⟩
  · cases h

/-- A lookup of the routes for a close traverses all routes. -/
theorem exec_dispatchTcpClose {i : ℕ} {choice : Choice} {ks : List Sect}
    (h : World.exec i (.dispatchTcpClose id) choice w = some (w', ks)) :
    choice.order.Perm w.routing.tcpRoutes ∧ w.dispatchTcpClose choice.order id = (w', ks) := by
  simp only [World.exec] at h
  split at h
  · exact ⟨‹_›, Option.some.inj h⟩
  · cases h

/-- The module's own close of the socket. -/
theorem exec_tcpClose {i : ℕ} {choice : Choice} {ks : List Sect}
    (h : World.exec i (.tcpClose id) choice w = some (w', ks)) :
    (∀ j, w'.routing.routesOf j = w.routing.routesOf j) ∧
      w'.trace = w.trace ++ [.tcpClosed id] ∧ ks = [] := by
  obtain ⟨rfl, rfl⟩ := Prod.mk.inj (Option.some.inj h)
  refine ⟨fun j => ?_, rfl, rfl⟩
  by_cases hd : choice.discards = true
  · simp only [World.log, hd, if_true, Routing.routesOf_discardUndelivered]
  · simp only [World.log, hd, if_false, Bool.false_eq_true]

/-- A callback is logged. -/
theorem exec_onData {i c : ℕ} {choice : Choice} {ks : List Sect} {data : Bytes}
    (h : World.exec i (.onData c id data) choice w = some (w', ks)) :
    w' = w.log (.onData c id data) ∧ ks = [] :=
  have h := Prod.mk.inj (Option.some.inj h)
  ⟨h.1.symm, h.2.symm⟩

theorem exec_onClose {i c : ℕ} {choice : Choice} {ks : List Sect}
    (h : World.exec i (.onClose c id) choice w = some (w', ks)) :
    w' = w.log (.onClose c id) ∧ ks = [] :=
  have h := Prod.mk.inj (Option.some.inj h)
  ⟨h.1.symm, h.2.symm⟩

/-- The stream that was dispatched so far grows by what is dispatched next. -/
theorem flatten_snoc (done : List Bytes) (x : Bytes) : (done ++ [x]).flatten = done.flatten ++ x := by
  simp

namespace Waiting

/-- Data without a route is held. -/
theorem dispatchTcpData (hw : Waiting id client arrivals closes w done (d :: todo) closing)
    (horder : order.Perm w.routing.tcpRoutes) :
    ∃ w', w.dispatchTcpData order id d = (w', []) ∧
      Waiting id client arrivals closes w' (done ++ [d]) todo closing := by
  obtain ⟨w', hdispatch, hrouting, htrace⟩ := dispatchTcpData_of_free horder hw.routes d
  obtain ⟨hdata, htruncated, hclosed⟩ := Routing.hold_prefix hw.data hw.truncated d
  refine ⟨w', hdispatch, ?_⟩
  have hopen : (w.routing.held id).closed = false := by
    apply Bool.eq_false_iff.mpr
    intro hc
    exact List.cons_ne_nil _ _ (hw.last hc).1
  constructor
  · rw [hw.split, List.append_assoc]
    rfl
  · rw [hrouting, hclosed]
    exact hw.announced
  · rw [hrouting, hclosed, hopen]
    intro hc
    cases hc
  · rw [hrouting]
    exact hw.routes
  · rw [hrouting, hdata, flatten_snoc]
  · rw [hrouting, htruncated, flatten_snoc]
  · rw [hrouting]
    intro ht
    obtain htrace | ⟨-, hnot⟩ := htrace
    · rw [htrace]
      exact List.mem_append_right _ (List.mem_singleton_self _)
    · rw [hnot] at ht
      cases ht
  · obtain htrace | ⟨htrace, -⟩ := htrace
    · rw [htrace]
      intro e he
      obtain he | he := List.mem_append.mp he
      · exact hw.quiet e he
      · rw [List.mem_singleton.mp he]
        rfl
    · rw [htrace]
      exact hw.quiet

/-- A close without a route is held. -/
theorem dispatchTcpClose (hw : Waiting id client arrivals closes w done [] true)
    (horder : order.Perm w.routing.tcpRoutes) :
    ∃ w', w.dispatchTcpClose order id = (w', []) ∧
      Waiting id client arrivals closes w' done [] false := by
  refine ⟨_, dispatchTcpClose_of_free horder hw.routes, hw.split, ?_, ?_, ?_, ?_, ?_, ?_, hw.quiet⟩
  · simpa using hw.announced
  · exact fun _ => ⟨rfl, rfl⟩
  · rw [Routing.routesOf_setHeld]
    exact hw.routes
  · rw [Routing.held_setHeld]
    exact hw.data
  · rw [Routing.held_setHeld]
    exact hw.truncated
  · rw [Routing.held_setHeld]
    exact hw.overflowed

/-- The subscriber takes over what is held. -/
theorem subscribeTcp (hw : Waiting id client arrivals closes w done todo closing) :
    Phase id client arrivals closes (w.subscribeTcp id client).1 (w.subscribeTcp id client).2
      (receiver id todo closing) := by
  let held := w.routing.held id
  let s : List Sect := if held.data = [] then [] else [.dispatchTcpData id held.data]
  have hs : Handing id client held.data s := by
    by_cases hempty : held.data = []
    · simp only [s, hempty, if_true]
      exact .through
    · simp only [s, hempty, if_false]
      exact .lookingUp _
  have hrouted : Routed (w.subscribeTcp id client).1 id client := by
    refine ⟨w.routing.nextSubscription, ?_⟩
    calc (w.routing.subscribeTcp id (some client) (some client)).2.2.routesOf id
        = w.routing.routesOf id ++ [(w.routing.nextSubscription, ⟨id, some client, some client⟩)] :=
          Routing.routesOf_subscribeTcp _ _
      _ = _ := by rw [hw.routes, List.nil_append]
  have hnothing : delivered client w.trace = [] := delivered_eq_nil hw.quiet
  have hnotClosed : Event.onClose client id ∉ w.trace := by
    intro hmem
    have htells := hw.quiet _ hmem
    simp [Event.tells] at htells
  have hkept : held.truncated = false → held.data = done.flatten := by
    intro ht
    have hlen : ¬kMaxUndeliveredBytes < done.flatten.length := by
      simpa [held, hw.truncated] using ht
    rw [show held.data = _ from hw.data, List.take_of_length_le (Nat.le_of_not_lt hlen)]
  have hordered : delivered client w.trace ++ held.data <+: arrivals.flatten := by
    rw [hnothing, List.nil_append, show held.data = _ from hw.data, hw.split, List.flatten_append]
    exact (List.take_prefix _ _).trans (List.prefix_append _ _)
  change Phase id client arrivals closes _
    (s ++ if held.closed then [.dispatchTcpClose id]
      else if held.truncated then [.tcpClose id, .dispatchTcpClose id] else []) _
  by_cases hclosed : held.closed = true
  · rw [if_pos hclosed]
    obtain ⟨rfl, rfl⟩ := hw.last hclosed
    have hcloses : closes = true := by
      rw [hw.announced]
      exact hclosed
    refine .ending hs nofun ⟨hrouted, .inl rfl, hordered, ?_, hnotClosed⟩
    by_cases ht : held.truncated = true
    · exact .inr ⟨hw.overflowed ht, .inr (.inl hcloses)⟩
    · left
      change delivered client w.trace ++ held.data = _
      rw [hnothing, List.nil_append, hkept (Bool.eq_false_iff.mpr ht), hw.split, List.append_nil]
  · rw [if_neg hclosed]
    have hcloses : closing = closes := by
      rw [hw.announced, Bool.eq_false_iff.mpr hclosed, Bool.or_false]
    by_cases ht : held.truncated = true
    · rw [if_pos ht]
      have hover : Event.overflowed id ∈ w.trace := hw.overflowed ht
      exact .ending hs (fun hc => hcloses ▸ hc) ⟨hrouted, .inr ⟨rfl, hover⟩, hordered,
        .inr ⟨hover, .inr (.inr (List.mem_cons_self ..))⟩, hnotClosed⟩
    · rw [if_neg ht, List.append_nil, hcloses]
      refine .opened hs .through ⟨hw.split, hrouted, ?_, hnotClosed⟩
      change delivered client w.trace ++ held.data ++ [] = _
      rw [hnothing, List.nil_append, List.append_nil, hkept (Bool.eq_false_iff.mpr ht)]

end Waiting

theorem Handing.eq_nil (hs : Handing id client h []) : h = [] := by
  cases hs
  rfl

theorem Calling.eq_nil (hc : Calling id client d []) : d = [] := by
  cases hc
  rfl

/-- The held bytes are looked up and passed on. Neither ends the stream. -/
theorem Handing.closes_notMem {s : List Sect} (hs : Handing id client h s) :
    Sect.tcpClose id ∉ s ∧ Sect.dispatchTcpClose id ∉ s := by
  cases hs <;> simp

/-- Another event is not the close of the client. -/
theorem onClose_notMem_snoc {trace : List Event} {e : Event}
    (hmem : Event.onClose client id ∉ trace) (he : e ≠ .onClose client id) :
    Event.onClose client id ∉ trace ++ [e] := by
  rw [List.mem_append, List.mem_singleton, not_or]
  exact ⟨hmem, he.symm⟩

section

variable {i : ℕ} {choice : Choice} {ks : List Sect}

/-- The client is told something, which is not its close. -/
def Safe (id : Int) (client : ℕ) (w w' : World) : Prop :=
  ClosedLast id client w.trace → ClosedLast id client w'.trace

theorem Safe.of_trace (h : w'.trace = w.trace) : Safe id client w w' := by
  intro hclosed
  rw [h]
  exact hclosed

theorem Safe.log {e : Event} (h : Event.onClose client id ∉ w.trace) :
    Safe id client w (w.log e) := fun _ => .snoc_of_notMem e h

/-- The client hears nothing of a step. -/
def Unheard (client : ℕ) (w w' : World) : Prop :=
  w'.trace = w.trace ∨ ∃ e, w'.trace = w.trace ++ [e] ∧ e.tells client = false

namespace Unheard

theorem delivered (hu : Unheard client w w') :
    delivered client w'.trace = delivered client w.trace := by
  obtain htrace | ⟨e, htrace, he⟩ := hu
  · rw [htrace]
  · rw [htrace, delivered_of_quiet he]

theorem mem {e : Event} (hu : Unheard client w w') (hmem : e ∈ w.trace) : e ∈ w'.trace := by
  obtain htrace | ⟨e', htrace, -⟩ := hu
  · exact htrace ▸ hmem
  · exact htrace ▸ List.mem_append_left _ hmem

theorem notClosed (hu : Unheard client w w') (hmem : Event.onClose client id ∉ w.trace) :
    Event.onClose client id ∉ w'.trace := by
  obtain htrace | ⟨e, htrace, he⟩ := hu
  · exact htrace ▸ hmem
  · rw [htrace]
    apply onClose_notMem_snoc hmem
    rintro rfl
    simp [Event.tells] at he

theorem safe (hu : Unheard client w w') : Safe id client w w' := by
  intro hclosed
  obtain htrace | ⟨e, htrace, he⟩ := hu
  · exact htrace ▸ hclosed
  · exact htrace ▸ hclosed.snoc_of_quiet he

end Unheard

/-- Dispatched data that finds no route stays unheard. -/
theorem exec_dispatchTcpData_of_free (client : ℕ) {data : Bytes} (hroutes : w.routing.routesOf id = [])
    (hexec : World.exec i (.dispatchTcpData id data) choice w = some (w', ks)) :
    Unheard client w w' ∧ w'.routing.routesOf id = [] ∧ ks = [] := by
  obtain ⟨horder, hdispatch⟩ := exec_dispatchTcpData hexec
  obtain ⟨w', heq, hrouting, htrace⟩ := dispatchTcpData_of_free horder hroutes data
  rw [heq] at hdispatch
  obtain ⟨rfl, rfl⟩ := Prod.mk.inj hdispatch
  refine ⟨?_, ?_, rfl⟩
  · obtain htrace | ⟨htrace, -⟩ := htrace
    · exact .inr ⟨_, htrace, rfl⟩
    · exact .inl htrace
  · rw [hrouting, Routing.routesOf_hold]
    exact hroutes

/-- So does a dispatched close. -/
theorem exec_dispatchTcpClose_of_free (client : ℕ) (hroutes : w.routing.routesOf id = [])
    (hexec : World.exec i (.dispatchTcpClose id) choice w = some (w', ks)) :
    Unheard client w w' ∧ w'.routing.routesOf id = [] ∧ ks = [] := by
  obtain ⟨horder, hdispatch⟩ := exec_dispatchTcpClose hexec
  rw [dispatchTcpClose_of_free horder hroutes] at hdispatch
  obtain ⟨rfl, rfl⟩ := Prod.mk.inj hdispatch
  exact ⟨.inl rfl, hroutes, rfl⟩

/-- And the module's close of the socket, which touches no route. -/
theorem exec_tcpClose_unheard (hexec : World.exec i (.tcpClose id) choice w = some (w', ks)) :
    Unheard client w w' := by
  obtain ⟨-, htrace, -⟩ := exec_tcpClose hexec
  exact .inr ⟨_, htrace, rfl⟩

namespace Opened

/-- The subscriber hands over the held bytes. -/
theorem subscriber {k : Sect} {owed c : List Sect} (hs : Handing id client h (k :: owed))
    (hc : Calling id client d c) (ho : Opened id client arrivals w done todo h d)
    (hexec : World.exec i k choice w = some (w', ks)) :
    Phase id client arrivals closes w' (ks ++ owed) (c ++ receiver id todo closes) ∧
      Safe id client w w' := by
  cases hs with
  | lookingUp h =>
      obtain ⟨horder, hdispatch⟩ := exec_dispatchTcpData hexec
      rw [dispatchTcpData_of_routed horder ho.routed] at hdispatch
      obtain ⟨rfl, rfl⟩ := Prod.mk.inj hdispatch
      exact ⟨.opened (.calling h) hc ho, .of_trace rfl⟩
  | calling h =>
      obtain ⟨rfl, rfl⟩ := exec_onData hexec
      refine ⟨.opened .through hc ⟨ho.split, ho.routed, ?_, ?_⟩, .log ho.notClosed⟩
      · rw [World.log, delivered_onData, List.append_nil]
        exact ho.delivered
      · exact onClose_notMem_snoc ho.notClosed nofun

/-- The receive task passes on what it looked up. -/
theorem calling {s rest : List Sect} (hs : Handing id client h s)
    (ho : Opened id client arrivals w done todo h d)
    (hclear : Undisturbed id s (.onData client id d))
    (hexec : World.exec i (.onData client id d) choice w = some (w', ks))
    (hrest : rest = receiver id todo closes) :
    Phase id client arrivals closes w' s (ks ++ rest) ∧ Safe id client w w' := by
  obtain ⟨rfl, rfl⟩ := exec_onData hexec
  cases hs with
  | lookingUp => exact absurd (hclear _ (List.mem_cons_self ..)).1 nofun
  | calling => exact absurd (hclear _ (List.mem_cons_self ..)).2 nofun
  | through =>
      rw [hrest]
      refine ⟨.opened .through .through ⟨ho.split, ho.routed, ?_, ?_⟩,
        .log ho.notClosed⟩
      · rw [World.log, delivered_onData, List.append_nil, List.append_nil, ← ho.delivered,
          List.append_nil]
      · exact onClose_notMem_snoc ho.notClosed nofun

/-- The receive task finds the client for what arrived. -/
theorem arrival {s : List Sect} {x : Bytes} (hs : Handing id client h s)
    (ho : Opened id client arrivals w done (x :: todo) h [])
    (hexec : World.exec i (.dispatchTcpData id x) choice w = some (w', ks)) :
    Phase id client arrivals closes w' s (ks ++ receiver id todo closes) ∧ Safe id client w w' := by
  obtain ⟨horder, hdispatch⟩ := exec_dispatchTcpData hexec
  rw [dispatchTcpData_of_routed horder ho.routed] at hdispatch
  obtain ⟨rfl, rfl⟩ := Prod.mk.inj hdispatch
  have hsplit : arrivals = done ++ [x] ++ todo := by
    rw [ho.split, List.append_assoc]
    rfl
  refine ⟨.opened hs (.calling x) ⟨hsplit, ho.routed, ?_, ho.notClosed⟩, .of_trace rfl⟩
  · rw [flatten_snoc, ← ho.delivered, List.append_nil]

/-- The receive task takes the route away. -/
theorem close {s : List Sect} (hs : Handing id client h s)
    (ho : Opened id client arrivals w done [] h [])
    (hclear : Undisturbed id s (.dispatchTcpClose id)) (hcloses : closes = true)
    (hexec : World.exec i (.dispatchTcpClose id) choice w = some (w', ks)) :
    Phase id client arrivals closes w' s ks ∧ Safe id client w w' := by
  obtain ⟨horder, hdispatch⟩ := exec_dispatchTcpClose hexec
  obtain ⟨w', heq, hroutes, htrace⟩ := dispatchTcpClose_of_routed horder ho.routed
  rw [heq] at hdispatch
  obtain ⟨rfl, rfl⟩ := Prod.mk.inj hdispatch
  have hwhole : Delivery.delivered client w'.trace ++ h = arrivals.flatten := by
    rw [htrace, ho.split, List.append_nil, ← ho.delivered, List.append_nil]
  have hlooked : ∀ k ∈ s, k.looksUp = false :=
    hclear.resolve_right hs.closes_notMem.1
  refine ⟨?_, .of_trace htrace⟩
  rw [← List.append_nil s]
  exact .byPeer hs ⟨hroutes, hcloses, .inl rfl, hwhole ▸ List.prefix_refl _, .inl ⟨hwhole, hlooked⟩,
    .inl ⟨rfl, htrace ▸ ho.notClosed⟩⟩

end Opened

namespace Ending

theorem owes_close {tail : List Sect} (he : Ending id client arrivals closes w h tail) :
    Sect.dispatchTcpClose id ∈ tail := by
  obtain rfl | ⟨rfl, -⟩ := he.owes <;> simp

/-- The subscriber hands over the held bytes and then ends the stream. -/
theorem subscriber {k : Sect} {owed s tail : List Sect} (hs : Handing id client h s)
    (hclosing : closing = true → closes = true)
    (he : Ending id client arrivals closes w h tail) (hfront : k :: owed = s ++ tail)
    (hexec : World.exec i k choice w = some (w', ks)) :
    Phase id client arrivals closes w' (ks ++ owed) (receiver id todo closing) ∧
      Safe id client w w' := by
  cases hs with
  | lookingUp h =>
      obtain ⟨rfl, rfl⟩ := List.cons.inj hfront
      obtain ⟨horder, hdispatch⟩ := exec_dispatchTcpData hexec
      rw [dispatchTcpData_of_routed horder he.routed] at hdispatch
      obtain ⟨rfl, rfl⟩ := Prod.mk.inj hdispatch
      exact ⟨.ending (.calling h) hclosing he, .of_trace rfl⟩
  | calling h =>
      obtain ⟨rfl, rfl⟩ := List.cons.inj hfront
      obtain ⟨rfl, rfl⟩ := exec_onData hexec
      refine ⟨.ending .through hclosing ⟨he.routed, ?_, ?_, ?_, ?_⟩, .log he.notClosed⟩
      · exact he.owes.imp_right fun ⟨htail, hover⟩ => ⟨htail, List.mem_append_left _ hover⟩
      · rw [World.log, delivered_onData, List.append_nil]
        exact he.ordered
      · rw [World.log, delivered_onData, List.append_nil]
        exact he.whole.imp_right fun ⟨hover, hend⟩ =>
          ⟨List.mem_append_left _ hover, hend.imp_left (List.mem_append_left _)⟩
      · exact onClose_notMem_snoc he.notClosed nofun
  | through =>
      obtain rfl | ⟨rfl, hover⟩ := he.owes
      · -- The subscriber itself takes the route away.
        obtain ⟨rfl, rfl⟩ := List.cons.inj hfront
        obtain ⟨horder, hdispatch⟩ := exec_dispatchTcpClose hexec
        obtain ⟨w', heq, hroutes, htrace⟩ := dispatchTcpClose_of_routed horder he.routed
        rw [heq] at hdispatch
        obtain ⟨rfl, rfl⟩ := Prod.mk.inj hdispatch
        refine ⟨.bySubscriber ⟨hroutes, ?_, ?_, .inl ⟨rfl, htrace ▸ he.notClosed⟩⟩,
          .of_trace htrace⟩
        · rw [htrace]
          simpa using he.ordered
        · rw [htrace]
          simpa using he.whole
      · -- The socket is closed for the overflow first.
        obtain ⟨rfl, rfl⟩ := List.cons.inj hfront
        have hu : Unheard client w w' := exec_tcpClose_unheard hexec
        obtain ⟨hroutes, htrace, rfl⟩ := exec_tcpClose hexec
        refine ⟨.ending .through hclosing ⟨?_, .inl rfl, ?_, .inr ⟨hu.mem hover, .inl ?_⟩,
          hu.notClosed he.notClosed⟩, hu.safe⟩
        · obtain ⟨n, hn⟩ := he.routed
          exact ⟨n, (hroutes id).trans hn⟩
        · rw [hu.delivered]
          exact he.ordered
        · rw [htrace]
          exact List.mem_append_right _ (List.mem_singleton_self _)

/-- The receive task takes the route away. -/
theorem close {s tail : List Sect} (hs : Handing id client h s) (hcloses : closes = true)
    (he : Ending id client arrivals closes w h tail)
    (hclear : Undisturbed id (s ++ tail) (.dispatchTcpClose id))
    (hexec : World.exec i (.dispatchTcpClose id) choice w = some (w', ks)) :
    Phase id client arrivals closes w' (s ++ tail) ks ∧ Safe id client w w' := by
  obtain ⟨horder, hdispatch⟩ := exec_dispatchTcpClose hexec
  obtain ⟨w', heq, hroutes, htrace⟩ := dispatchTcpClose_of_routed horder he.routed
  rw [heq] at hdispatch
  obtain ⟨rfl, rfl⟩ := Prod.mk.inj hdispatch
  refine ⟨.byPeer hs ⟨hroutes, hcloses, ?_, htrace ▸ he.ordered, ?_,
    .inl ⟨rfl, htrace ▸ he.notClosed⟩⟩, .of_trace htrace⟩
  · exact .inr (he.owes.imp_right And.left)
  · rw [htrace]
    obtain hlooked | howes := hclear
    · exact he.whole.imp (fun hw => ⟨hw, fun k hmem =>
        hlooked k (List.mem_append_left _ hmem)⟩) And.left
    · -- What is still to be looked up is cut off by the overflow.
      obtain htail | ⟨-, hover⟩ := he.owes
      · rw [htail, List.mem_append, List.mem_singleton] at howes
        exact absurd (howes.resolve_left hs.closes_notMem.1) nofun
      · exact .inr hover

end Ending

namespace ByPeer

variable {s tail tail' r : List Sect}

/-- What the client does not hear moves the subscriber on. -/
theorem of_unheard (hp : ByPeer id client arrivals closes w [] [] tail r)
    (hu : Unheard client w w') (hroutes : w'.routing.routesOf id = [])
    (howes : tail' = [] ∨ tail' = [.dispatchTcpClose id]) :
    ByPeer id client arrivals closes w' [] [] tail' r := by
  constructor
  · exact hroutes
  · exact hp.announced
  · exact howes.imp_right .inl
  · rw [hu.delivered]
    exact hp.ordered
  · rw [hu.delivered]
    exact hp.whole.imp_right hu.mem
  · exact hp.told.imp_left fun ⟨hr, hclosed⟩ => ⟨hr, hu.notClosed hclosed⟩

/-- The subscriber goes on without a route. -/
theorem subscriber {k : Sect} {owed : List Sect} (hs : Handing id client h s)
    (hp : ByPeer id client arrivals closes w h s tail r) (hfront : k :: owed = s ++ tail)
    (hexec : World.exec i k choice w = some (w', ks)) :
    Phase id client arrivals closes w' (ks ++ owed) r ∧ Safe id client w w' := by
  cases hs with
  | lookingUp h =>
      obtain ⟨rfl, rfl⟩ := List.cons.inj hfront
      obtain ⟨hu, hroutes, rfl⟩ := exec_dispatchTcpData_of_free client hp.routes hexec
      refine ⟨.byPeer .through ⟨hroutes, hp.announced, hp.owes, ?_, ?_, ?_⟩, hu.safe⟩
      · rw [hu.delivered, List.append_nil]
        exact (List.prefix_append _ _).trans hp.ordered
      · obtain ⟨-, hlooked⟩ | hover := hp.whole
        · exact absurd (hlooked _ (List.mem_cons_self ..)) nofun
        · exact .inr (hu.mem hover)
      · exact hp.told.imp (fun ⟨hr, hclosed⟩ => ⟨hr, hu.notClosed hclosed⟩)
          (And.imp_right fun _ => nofun)
  | calling h =>
      obtain ⟨rfl, rfl⟩ := List.cons.inj hfront
      obtain ⟨rfl, rfl⟩ := exec_onData hexec
      -- The close was not told before the bytes.
      obtain ⟨rfl, hclosed⟩ | ⟨-, hcalled⟩ := hp.told
      · refine ⟨.byPeer .through ⟨hp.routes, hp.announced, hp.owes, ?_, ?_, ?_⟩, .log hclosed⟩
        · rw [World.log, delivered_onData, List.append_nil]
          exact hp.ordered
        · rw [World.log, delivered_onData, List.append_nil]
          exact hp.whole.imp (And.imp_right fun _ => nofun) (List.mem_append_left _)
        · exact .inl ⟨rfl, onClose_notMem_snoc hclosed nofun⟩
      · exact absurd (hcalled _ (List.mem_cons_self ..)) nofun
  | through =>
      obtain rfl | rfl | rfl := hp.owes
      · cases hfront
      · obtain ⟨rfl, rfl⟩ := List.cons.inj hfront
        obtain ⟨hu, hroutes, rfl⟩ := exec_dispatchTcpClose_of_free client hp.routes hexec
        exact ⟨.byPeer .through (hp.of_unheard hu hroutes (.inl rfl)), hu.safe⟩
      · obtain ⟨rfl, rfl⟩ := List.cons.inj hfront
        have hu : Unheard client w w' := exec_tcpClose_unheard hexec
        obtain ⟨hroutes, -, rfl⟩ := exec_tcpClose hexec
        exact ⟨.byPeer .through (hp.of_unheard hu ((hroutes id).trans hp.routes) (.inr rfl)), hu.safe⟩

/-- The receive task tells the client of the close. -/
theorem receiver {k : Sect} {rest : List Sect} (hs : Handing id client h s)
    (hp : ByPeer id client arrivals closes w h s tail (k :: rest))
    (hclear : Undisturbed id (s ++ tail) k) (hexec : World.exec i k choice w = some (w', ks)) :
    Phase id client arrivals closes w' (s ++ tail) (ks ++ rest) ∧ Safe id client w w' := by
  obtain ⟨hr, hclosed⟩ | ⟨hr, -⟩ := hp.told
  · obtain ⟨rfl, rfl⟩ := List.cons.inj hr
    obtain ⟨rfl, rfl⟩ := exec_onClose hexec
    refine ⟨.byPeer hs ⟨hp.routes, hp.announced, hp.owes, ?_, ?_, .inr ⟨rfl, ?_⟩⟩, .log hclosed⟩
    · rw [World.log, delivered_onClose]
      exact hp.ordered
    · rw [World.log, delivered_onClose]
      exact hp.whole.imp_right (List.mem_append_left _)
    · exact fun k hmem => hclear k (List.mem_append_left _ hmem)
  · cases hr

end ByPeer

namespace BySubscriber

variable {s : List Sect}

/-- The subscriber tells the client of the close. -/
theorem subscriber {k : Sect} {owed : List Sect}
    (hb : BySubscriber id client arrivals closes w (k :: owed))
    (hexec : World.exec i k choice w = some (w', ks)) :
    Phase id client arrivals closes w' (ks ++ owed) (Delivery.receiver id todo closing) ∧
      Safe id client w w' := by
  obtain ⟨hs, hclosed⟩ | hs := hb.told
  · obtain ⟨rfl, rfl⟩ := List.cons.inj hs
    obtain ⟨rfl, rfl⟩ := exec_onClose hexec
    refine ⟨.bySubscriber ⟨hb.routes, ?_, ?_, .inr rfl⟩, .log hclosed⟩
    · rw [World.log, delivered_onClose]
      exact hb.ordered
    · rw [World.log, delivered_onClose]
      exact hb.whole.imp_right fun ⟨hover, hend⟩ =>
        ⟨List.mem_append_left _ hover, hend.imp_left (List.mem_append_left _)⟩
  · cases hs

/-- What still arrives finds no route. -/
theorem of_unheard (hb : BySubscriber id client arrivals closes w s) (hu : Unheard client w w')
    (hroutes : w'.routing.routesOf id = []) : BySubscriber id client arrivals closes w' s := by
  constructor
  · exact hroutes
  · rw [hu.delivered]
    exact hb.ordered
  · rw [hu.delivered]
    exact hb.whole.imp_right fun ⟨hover, hend⟩ => ⟨hu.mem hover, hend.imp_left hu.mem⟩
  · exact hb.told.imp_left fun ⟨hs, hclosed⟩ => ⟨hs, hu.notClosed hclosed⟩

end BySubscriber

/-- The next dispatch of the receive task. -/
theorem receiver_eq_cons {k : Sect} {rest : List Sect} (hq : receiver id todo closing = k :: rest) :
    (∃ x xs, todo = x :: xs ∧ k = .dispatchTcpData id x ∧ rest = receiver id xs closing) ∨
      (todo = [] ∧ closing = true ∧ k = .dispatchTcpClose id ∧ rest = []) := by
  cases todo with
  | cons x xs =>
      obtain ⟨rfl, rfl⟩ := List.cons.inj hq
      exact .inl ⟨x, xs, rfl, rfl, rfl⟩
  | nil =>
      cases closing with
      | false => cases hq
      | true =>
          obtain ⟨rfl, rfl⟩ := List.cons.inj hq
          exact .inr ⟨rfl, rfl, rfl, rfl⟩

namespace Phase

/-- A step of the subscriber. -/
theorem subscriber_step {k : Sect} {owed r : List Sect}
    (hp : Phase id client arrivals closes w (k :: owed) r)
    (hexec : World.exec i k choice w = some (w', ks)) :
    Phase id client arrivals closes w' (ks ++ owed) r ∧ Safe id client w w' := by
  generalize hfront : k :: owed = q at hp
  cases hp with
  | waiting hw =>
      obtain ⟨rfl, rfl⟩ := List.cons.inj hfront
      have hsubscribe : w.subscribeTcp id client = (w', ks) := Option.some.inj hexec
      have htrace : (w.subscribeTcp id client).1.trace = w.trace := rfl
      have hw' := hw.subscribeTcp
      rw [hsubscribe] at hw' htrace
      rw [List.append_nil]
      exact ⟨hw', .of_trace htrace⟩
  | opened hs hc ho =>
      subst hfront
      exact ho.subscriber hs hc hexec
  | ending hs hclosing he => exact he.subscriber hs hclosing hfront hexec
  | byPeer hs hb => exact hb.subscriber hs hfront hexec
  | bySubscriber hb =>
      subst hfront
      exact hb.subscriber hexec

/-- A step of the receive task that stays out of the hand-over. -/
theorem receiver_step {k : Sect} {owed rest : List Sect}
    (hp : Phase id client arrivals closes w owed (k :: rest)) (hclear : Undisturbed id owed k)
    (hexec : World.exec i k choice w = some (w', ks)) :
    Phase id client arrivals closes w' owed (ks ++ rest) ∧ Safe id client w w' := by
  generalize hfront : k :: rest = r at hp
  cases hp with
  | waiting hw =>
      obtain ⟨x, xs, rfl, rfl, rfl⟩ | ⟨rfl, rfl, rfl, rfl⟩ := receiver_eq_cons hfront.symm
      · obtain ⟨horder, hdispatch⟩ := exec_dispatchTcpData hexec
        obtain ⟨hu, -, -⟩ := exec_dispatchTcpData_of_free client hw.routes hexec
        obtain ⟨w', heq, hw'⟩ := hw.dispatchTcpData horder
        rw [heq] at hdispatch
        obtain ⟨rfl, rfl⟩ := Prod.mk.inj hdispatch
        exact ⟨.waiting hw', hu.safe⟩
      · obtain ⟨horder, hdispatch⟩ := exec_dispatchTcpClose hexec
        obtain ⟨hu, -, -⟩ := exec_dispatchTcpClose_of_free client hw.routes hexec
        obtain ⟨w', heq, hw'⟩ := hw.dispatchTcpClose horder
        rw [heq] at hdispatch
        obtain ⟨rfl, rfl⟩ := Prod.mk.inj hdispatch
        exact ⟨.waiting hw', hu.safe⟩
  | opened hs hc ho =>
      cases hc with
      | calling d =>
          obtain ⟨rfl, rfl⟩ := List.cons.inj hfront
          exact ho.calling hs hclear hexec rfl
      | through =>
          obtain ⟨x, xs, rfl, rfl, rfl⟩ | ⟨rfl, hcloses, rfl, rfl⟩ := receiver_eq_cons hfront.symm
          · exact ho.arrival hs hexec
          · rw [List.append_nil]
            exact ho.close hs hclear hcloses hexec
  | ending hs hclosing he =>
      obtain ⟨x, xs, rfl, rfl, rfl⟩ | ⟨rfl, hc, rfl, rfl⟩ := receiver_eq_cons hfront.symm
      · -- No route is looked up while the end is owed.
        exact absurd (List.mem_append_right _ he.owes_close) hclear
      · rw [List.append_nil]
        exact he.close hs (hclosing hc) hclear hexec
  | byPeer hs hb =>
      subst hfront
      exact hb.receiver hs hclear hexec
  | bySubscriber hb =>
      obtain ⟨x, xs, rfl, rfl, rfl⟩ | ⟨rfl, -, rfl, rfl⟩ := receiver_eq_cons hfront.symm
      · obtain ⟨hu, hroutes, rfl⟩ := exec_dispatchTcpData_of_free client hb.routes hexec
        exact ⟨.bySubscriber (hb.of_unheard hu hroutes), hu.safe⟩
      · obtain ⟨hu, hroutes, rfl⟩ := exec_dispatchTcpClose_of_free client hb.routes hexec
        have hphase : Phase id client arrivals closes w' owed (receiver id [] false) :=
          .bySubscriber (hb.of_unheard hu hroutes)
        exact ⟨hphase, hu.safe⟩

/-- What has been delivered in a phase is in order. -/
theorem ordered {s r : List Sect} (hp : Phase id client arrivals closes w s r) :
    delivered client w.trace <+: arrivals.flatten := by
  cases hp with
  | waiting hw => exact delivered_eq_nil hw.quiet ▸ List.nil_prefix
  | opened hs hc ho =>
      rw [ho.split, List.flatten_append, ← ho.delivered, List.append_assoc, List.append_assoc]
      exact List.prefix_append _ _
  | ending hs hclosing he => exact (List.prefix_append _ _).trans he.ordered
  | byPeer hs hb => exact (List.prefix_append _ _).trans hb.ordered
  | bySubscriber hb => exact hb.ordered

/-- When both threads are through, the stream is whole or was cut off with its socket. -/
theorem whole {s r : List Sect} (hp : Phase id client arrivals closes w s r) (hs : s = [])
    (hr : r = []) : delivered client w.trace = arrivals.flatten ∨
      Event.overflowed id ∈ w.trace ∧ (Event.tcpClosed id ∈ w.trace ∨ closes = true) := by
  cases hp with
  | waiting hw => cases hs
  | opened hhanding hc ho =>
      subst hs
      obtain ⟨rfl, hreceiver⟩ := List.append_eq_nil_iff.mp hr
      obtain ⟨htodo, -⟩ := List.append_eq_nil_iff.mp hreceiver
      left
      rw [ho.split, List.map_eq_nil_iff.mp htodo, List.append_nil, ← ho.delivered,
        hhanding.eq_nil, hc.eq_nil, List.append_nil, List.append_nil]
  | ending hhanding hclosing he =>
      obtain ⟨-, rfl⟩ := List.append_eq_nil_iff.mp hs
      exact absurd he.owes_close List.not_mem_nil
  | byPeer hhanding hb =>
      obtain ⟨rfl, -⟩ := List.append_eq_nil_iff.mp hs
      obtain rfl := hhanding.eq_nil
      refine hb.whole.imp (fun hw => ?_) (fun hover => ⟨hover, .inr hb.announced⟩)
      rw [← hw.1, List.append_nil]
  | bySubscriber hb => exact hb.whole

end Phase

end

/-! ## Runs -/

/-- Both threads stand in a phase, and the close was the last callback. -/
def Standing (id : Int) (client : ℕ) (arrivals : List Bytes) (closes : Bool) (cfg : Config) : Prop :=
  ∃ s r, cfg.threads = [s, r] ∧ Phase id client arrivals closes cfg.shared s r ∧
    ClosedLast id client cfg.shared.trace

theorem standing_start {routing : Routing ℕ} (hroutes : routing.routesOf id = [])
    (hheld : routing.undelivered id = none) :
    Standing id client arrivals closes (start routing id client arrivals closes) := by
  have hnothing : routing.held id = {} := by rw [Routing.held, hheld, Option.getD_none]
  have hsplit : arrivals = [] ++ arrivals := rfl
  refine ⟨_, _, rfl, .waiting ⟨hsplit, ?_, ?_, hroutes, ?_, ?_, ?_, ?_⟩, ?_⟩
  · change closes = (closes || (routing.held id).closed)
    rw [hnothing, Bool.or_false]
  · change (routing.held id).closed = true → _
    rw [hnothing]
    rintro ⟨⟩
  · change (routing.held id).data = _
    rw [hnothing]
    rfl
  · change (routing.held id).truncated = _
    rw [hnothing]
    rfl
  · change (routing.held id).truncated = true → _
    rw [hnothing]
    rintro ⟨⟩
  · intro e he
    cases he
  · intro before after heq
    cases List.append_eq_nil_iff.mp heq.symm |>.2

/-- A step that stays out of the hand-over keeps the threads in a phase. -/
theorem Standing.step {cfg cfg' : Config} {l : Label}
    (hs : Standing id client arrivals closes cfg) (hclear : KeepsOut id cfg l)
    (hstep : program.step cfg l = some cfg') : Standing id client arrivals closes cfg' := by
  obtain ⟨s, r, hthreads, hphase, hlast⟩ := hs
  obtain ⟨e, -, -, -, -, -⟩ | ⟨i, c, k, ks, w', ks', rfl, hget, hexec, rfl⟩ :=
    Sections.Program.step_cases hstep
  · exact e.elim
  · rw [hthreads] at hget ⊢
    match i, hget with
    | 0, hget =>
        obtain rfl := Option.some.inj hget
        obtain ⟨hphase', hsafe⟩ := hphase.subscriber_step (i := 0) hexec
        exact ⟨_, _, rfl, hphase', hsafe hlast⟩
    | 1, hget =>
        obtain rfl := Option.some.inj hget
        have hclear : Undisturbed id s k := by
          simpa only [KeepsOut, hthreads] using hclear
        obtain ⟨hphase', hsafe⟩ := hphase.receiver_step (i := 1) hclear hexec
        exact ⟨_, _, rfl, hphase', hsafe hlast⟩

theorem Standing.streamKept {cfg : Config} (hs : Standing id client arrivals closes cfg) :
    StreamKept id client arrivals closes cfg := by
  obtain ⟨s, r, hthreads, hphase, hlast⟩ := hs
  refine ⟨hphase.ordered, fun hthrough => ?_, hlast⟩
  rw [hthreads] at hthrough
  exact hphase.whole (hthrough s (by simp)) (hthrough r (by simp))

/-- As long as the receive task stays out of the hand-over, the client gets the stream. -/
theorem run_streamKept {routing : Routing ℕ} {ls : List Label} {cfg : Config}
    (hroutes : routing.routesOf id = []) (hheld : routing.undelivered id = none)
    (hclear : Runs.Along program.step (fun c l _ => KeepsOut id c l)
      (start routing id client arrivals closes) ls)
    (hrun : Runs.exec program.step (start routing id client arrivals closes) ls = some cfg) :
    StreamKept id client arrivals closes cfg :=
  (hclear.invariant (fun _ _ _ hs hc hstep => hs.step hc hstep) (standing_start hroutes hheld)
    hrun).streamKept

end

/-! ## The hand-over and the receive task -/

/-- The route of the first subscription. -/
def firstRoute (id : Int) (client : ℕ) : List (ℕ × TcpRoute ℕ) := [(1, ⟨id, some client, some client⟩)]

/-- `"a"` is held and handed over, then `"b"` arrives. -/
def patientLabels : List Label :=
  [.run 1 ⟨[], false⟩, .run 0 ⟨[], false⟩, .run 0 ⟨firstRoute 0 7, false⟩,
    .run 0 ⟨[], false⟩, .run 1 ⟨firstRoute 0 7, false⟩, .run 1 ⟨[], false⟩]

/-- `"b"` arrives once the route is visible and overtakes the held `"a"`. -/
def overtakingLabels : List Label :=
  [.run 1 ⟨[], false⟩, .run 0 ⟨[], false⟩, .run 1 ⟨firstRoute 0 7, false⟩, .run 1 ⟨[], false⟩]

/-- A subscription for `"a"` and `"b"` in separate payloads. -/
def twoPayloads : Config := start {} 0 7 [ascii ['a'], ascii ['b']] false

theorem run_streamKept_patient :
    ∃ cfg, Runs.exec program.step twoPayloads patientLabels = some cfg ∧
      StreamKept 0 7 [ascii ['a'], ascii ['b']] false cfg ∧
      delivered 7 cfg.shared.trace = ascii ['a', 'b'] := by
  have hrun : (Runs.exec program.step twoPayloads patientLabels).map
      (fun cfg => delivered 7 cfg.shared.trace) = some (ascii ['a', 'b']) := by decide +kernel
  obtain ⟨cfg, hcfg, hdelivered⟩ := Option.map_eq_some_iff.mp hrun
  exact ⟨cfg, hcfg, run_streamKept rfl rfl (by decide +kernel) hcfg, hdelivered⟩

/-- Bytes that arrive during the hand-over overtake the held ones. -/
theorem overtaken :
    ¬ ∀ (routing : Routing ℕ) id client arrivals closes ls cfg,
      routing.routesOf id = [] → routing.undelivered id = none →
      Runs.exec program.step (start routing id client arrivals closes) ls = some cfg →
      StreamKept id client arrivals closes cfg := by
  intro h
  have hrun : (Runs.exec program.step twoPayloads overtakingLabels).map
      (fun cfg => delivered 7 cfg.shared.trace) = some (ascii ['b']) := by decide +kernel
  obtain ⟨cfg, hcfg, hdelivered⟩ := Option.map_eq_some_iff.mp hrun
  have hordered := (h {} 0 7 _ _ _ cfg rfl rfl hcfg).ordered
  rw [hdelivered] at hordered
  exact absurd hordered (by decide)

end EspModemLink.Hal.Delivery
