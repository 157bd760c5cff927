import EspModemLink.Library.Runs
import EspModemLink.Library.Traversal
import EspModemLink.Hal.Routing

/-!
# The newest route of a connection id

A second registration for a cid leaves the first one in place, and which of the two a dispatch finds
is up to the order of a hash map. The newest one is found in every order just when all routes of the
cid lead to the same callback.
-/

namespace EspModemLink.Hal.Newest

/-! ## Sequences of calls -/

/-- A locked section of `IModuleHal`. What `SubscribeTcp` hands over it dispatches like a HAL, in
sections of its own, between which callbacks may run sections too. -/
inductive Section (κ : Type) where
  | subscribeTcp (id : Int) (onData onClose : Option κ)
  | subscribeUdp (id : Int) (onData : Option κ)
  | unsubscribe (handle : ℕ)
  | dispatchTcpData (id : Int) (data : Bytes)
  | dispatchTcpClose (id : Int)
  | dispatchUdpData (id : Int)
  | discardUndelivered (id : Int)
deriving DecidableEq

/-- The orders that the maps of routes have when a section runs. -/
structure Order (κ : Type) where
  tcp : List (ℕ × TcpRoute κ)
  udp : List (ℕ × UdpRoute κ)
deriving DecidableEq

variable {κ : Type}

/-- The maps have the order when it lists their routes. -/
def Order.Of (order : Order κ) (r : Routing κ) : Prop :=
  order.tcp.Perm r.tcpRoutes ∧ order.udp.Perm r.udpRoutes

instance [DecidableEq κ] (order : Order κ) (r : Routing κ) : Decidable (order.Of r) := by
  unfold Order.Of
  infer_instance

/-- The callback that a section hands its data to. -/
def handler (r : Routing κ) (order : Order κ) : Section κ → Option κ
  | .dispatchTcpData id data => (r.dispatchTcpData order.tcp id data).1
  | .dispatchUdpData id => Routing.dispatchUdpData order.udp id
  | _ => none

/-- The routes behind a section. -/
def after (r : Routing κ) (order : Order κ) : Section κ → Routing κ
  | .subscribeTcp id onData onClose => (r.subscribeTcp id onData onClose).2.2
  | .subscribeUdp id onData => (r.subscribeUdp id onData).2
  | .unsubscribe handle => r.unsubscribe handle
  | .dispatchTcpData id data => (r.dispatchTcpData order.tcp id data).2
  | .dispatchTcpClose id => (r.dispatchTcpClose order.tcp id).2
  | .dispatchUdpData _ => r
  | .discardUndelivered id => r.discardUndelivered id

/-- A section runs in any order that the maps may have. -/
def step [DecidableEq κ] : Runs.Step (Routing κ) (Section κ × Order κ) := fun r l =>
  if l.2.Of r then some (after r l.2 l.1) else none

/-! ## Ownership -/

/-- Who has registered and not withdrawn or been closed, the newest in front. -/
structure Ledger (κ : Type) where
  next : ℕ := 1
  tcp : List (ℕ × TcpRoute κ) := []
  udp : List (ℕ × UdpRoute κ) := []

namespace Ledger

/-- The callback of the newest TCP registration of an id. -/
def tcpOwner (ledger : Ledger κ) (id : Int) : Option κ :=
  (ledger.tcp.find? (Routing.serves id)).bind fun route => route.2.onData

/-- The callback of the newest UDP registration of an id. -/
def udpOwner (ledger : Ledger κ) (id : Int) : Option κ :=
  (ledger.udp.find? fun route => route.2.connectId == id).bind fun route => route.2.onData

/-- Who the data of a section is for. -/
def owner (ledger : Ledger κ) : Section κ → Option κ
  | .dispatchTcpData id _ => ledger.tcpOwner id
  | .dispatchUdpData id => ledger.udpOwner id
  | _ => none

/-- The registrations behind a section. -/
def note (ledger : Ledger κ) : Section κ → Ledger κ
  | .subscribeTcp id onData onClose =>
      { ledger with
        next := ledger.next + 1
        tcp := (ledger.next, ⟨id, onData, onClose⟩) :: ledger.tcp }
  | .subscribeUdp id onData =>
      { ledger with
        next := ledger.next + 1
        udp := (ledger.next, ⟨id, onData⟩) :: ledger.udp }
  | .unsubscribe handle =>
      { ledger with
        tcp := ledger.tcp.filter fun route => route.1 != handle
        udp := ledger.udp.filter fun route => route.1 != handle }
  | .dispatchTcpClose id =>
      { ledger with tcp := ledger.tcp.filter fun route => !Routing.serves id route }
  | _ => ledger

/-- The registrations that the data of a section could go to all have one callback. -/
def Agrees (ledger : Ledger κ) : Section κ → Prop
  | .dispatchTcpData id _ =>
      ∀ route ∈ ledger.tcp, Routing.serves id route = true → route.2.onData = ledger.tcpOwner id
  | .dispatchUdpData id =>
      ∀ route ∈ ledger.udp, (route.2.connectId == id) = true →
        route.2.onData = ledger.udpOwner id
  | _ => True

/-- The client of an id has withdrawn before the next one registers. -/
def Vacant (ledger : Ledger κ) : Section κ → Prop
  | .subscribeTcp id _ _ => ∀ route ∈ ledger.tcp, route.2.connectId ≠ id
  | .subscribeUdp id _ => ∀ route ∈ ledger.udp, route.2.connectId ≠ id
  | _ => True

/-- `ledger.Throughout P sections`: `P` holds of every section, with the registrations then. -/
abbrev Throughout (ledger : Ledger κ) (P : Ledger κ → Section κ → Prop)
    (sections : List (Section κ)) : Prop :=
  Runs.Along (fun ledger s => some (ledger.note s)) (fun ledger s _ => P ledger s) ledger sections

end Ledger

/-- The routes with a ledger beside them. -/
def watched [DecidableEq κ] : Runs.Step (Ledger κ × Routing κ) (Section κ × Order κ) :=
  Runs.monitored step fun ledger _ l _ => ledger.note l.1

/-- The data of a section goes to the owner. -/
def Delivers (s : Ledger κ × Routing κ) (l : Section κ × Order κ) (_ : Ledger κ × Routing κ) : Prop :=
  handler s.2 l.2 l.1 = s.1.owner l.1

instance [DecidableEq κ] (s : Ledger κ × Routing κ) (l : Section κ × Order κ)
    (s' : Ledger κ × Routing κ) : Decidable (Delivers s l s') := by
  unfold Delivers
  infer_instance

/-- All data of a sequence of calls goes to the newest registration, whatever orders the maps have. -/
def NewestOwns [DecidableEq κ] (sections : List (Section κ)) : Prop :=
  ∀ ls : List (Section κ × Order κ), ls.map Prod.fst = sections →
    Runs.Along watched Delivers ({}, {}) ls

/-! ## The ledger and the maps -/

section

variable {ledger : Ledger κ} {r : Routing κ} {order : Order κ}

theorem dispatchTcpData_handler (order : List (ℕ × TcpRoute κ)) (id : Int) (data : Bytes) :
    (r.dispatchTcpData order id data).1 =
      (order.find? (Routing.serves id)).bind fun route => route.2.onData := by
  unfold Routing.dispatchTcpData Routing.findTcpRoute
  cases order.find? (Routing.serves id) <;> rfl

theorem dispatchTcpData_tcpRoutes (order : List (ℕ × TcpRoute κ)) (id : Int) (data : Bytes) :
    (r.dispatchTcpData order id data).2 = r ∨
      (r.dispatchTcpData order id data).2 = r.hold id data := by
  unfold Routing.dispatchTcpData
  cases Routing.findTcpRoute order id with
  | none => exact .inr rfl
  | some route => exact .inl rfl

/-- A ledger lists the routes of the maps under their handles. -/
structure Lists (ledger : Ledger κ) (r : Routing κ) : Prop where
  next : ledger.next = r.nextSubscription
  tcp : ledger.tcp = r.tcpRoutes.reverse
  udp : ledger.udp = r.udpRoutes.reverse
  positive : 0 < ledger.next
  tcpNamed : ∀ route ∈ ledger.tcp, 0 < route.1
  udpNamed : ∀ route ∈ ledger.udp, 0 < route.1

theorem lists_start : Lists ({} : Ledger κ) {} := by
  constructor
  · rfl
  · rfl
  · rfl
  · exact Nat.one_pos
  · simp
  · simp

/-- Neither the routes nor the next handle change. -/
theorem Lists.congr {r' : Routing κ} (h : Lists ledger r)
    (hnext : r'.nextSubscription = r.nextSubscription) (htcp : r'.tcpRoutes = r.tcpRoutes)
    (hudp : r'.udpRoutes = r.udpRoutes) : Lists ledger r' := by
  constructor
  · rw [hnext, h.next]
  · rw [htcp, h.tcp]
  · rw [hudp, h.udp]
  · exact h.positive
  · exact h.tcpNamed
  · exact h.udpNamed

theorem Lists.subscribeTcp (h : Lists ledger r) (id : Int) (onData onClose : Option κ) :
    Lists (ledger.note (.subscribeTcp id onData onClose)) (r.subscribeTcp id onData onClose).2.2 := by
  constructor
  · simp [Ledger.note, Routing.subscribeTcp, h.next]
  · simp [Ledger.note, Routing.subscribeTcp, h.next, h.tcp]
  · exact h.udp
  · exact Nat.succ_pos _
  · intro route hroute
    obtain rfl | hroute := List.mem_cons.mp hroute
    · exact h.positive
    · exact h.tcpNamed route hroute
  · exact h.udpNamed

theorem Lists.subscribeUdp (h : Lists ledger r) (id : Int) (onData : Option κ) :
    Lists (ledger.note (.subscribeUdp id onData)) (r.subscribeUdp id onData).2 := by
  constructor
  · simp [Ledger.note, Routing.subscribeUdp, h.next]
  · exact h.tcp
  · simp [Ledger.note, Routing.subscribeUdp, h.next, h.udp]
  · exact Nat.succ_pos _
  · exact h.tcpNamed
  · intro route hroute
    obtain rfl | hroute := List.mem_cons.mp hroute
    · exact h.positive
    · exact h.udpNamed route hroute

/-- The handle zero names nothing, so that withdrawing it is no exception. -/
theorem Lists.unsubscribe (h : Lists ledger r) (handle : ℕ) :
    Lists (ledger.note (.unsubscribe handle)) (r.unsubscribe handle) := by
  have hkept : ∀ {ρ : Type} {routes : List (ℕ × ρ)}, (∀ route ∈ routes, 0 < route.1) →
      handle = 0 → routes.filter (fun route => route.1 != handle) = routes := by
    intro ρ routes hnamed hzero
    apply List.filter_eq_self.mpr
    intro route hroute
    have := hnamed route hroute
    simp only [bne_iff_ne]
    omega
  unfold Routing.unsubscribe
  split
  · rename_i hzero
    have hnote : ledger.note (.unsubscribe handle) = ledger := by
      simp only [Ledger.note, hkept h.tcpNamed hzero, hkept h.udpNamed hzero]
    rw [hnote]
    exact h
  · constructor
    · exact h.next
    · simp [Ledger.note, h.tcp]
    · simp [Ledger.note, h.udp]
    · exact h.positive
    · intro route hroute
      exact h.tcpNamed route (List.mem_of_mem_filter hroute)
    · intro route hroute
      exact h.udpNamed route (List.mem_of_mem_filter hroute)

/-- A close takes the routes of its id, if there are any. -/
theorem dispatchTcpClose_tcpRoutes {order : List (ℕ × TcpRoute κ)} (horder : order.Perm r.tcpRoutes)
    (id : Int) :
    (r.dispatchTcpClose order id).2.tcpRoutes =
      r.tcpRoutes.filter fun route => !Routing.serves id route := by
  unfold Routing.dispatchTcpClose
  dsimp only
  split
  · rename_i hnone
    symm
    apply List.filter_eq_self.mpr
    intro route hroute
    simpa using List.filter_eq_nil_iff.mp hnone route (horder.mem_iff.mpr hroute)
  · rfl

theorem Lists.dispatchTcpClose (h : Lists ledger r) {order : List (ℕ × TcpRoute κ)}
    (horder : order.Perm r.tcpRoutes) (id : Int) :
    Lists (ledger.note (.dispatchTcpClose id)) (r.dispatchTcpClose order id).2 := by
  have hframe : (r.dispatchTcpClose order id).2.nextSubscription = r.nextSubscription ∧
      (r.dispatchTcpClose order id).2.udpRoutes = r.udpRoutes := by
    unfold Routing.dispatchTcpClose
    dsimp only
    split
    · exact ⟨rfl, rfl⟩
    · exact ⟨rfl, rfl⟩
  constructor
  · rw [hframe.1]
    exact h.next
  · rw [dispatchTcpClose_tcpRoutes horder]
    simp [Ledger.note, h.tcp]
  · rw [hframe.2]
    exact h.udp
  · exact h.positive
  · intro route hroute
    exact h.tcpNamed route (List.mem_of_mem_filter hroute)
  · exact h.udpNamed

/-- The ledger goes along with every section, in whatever order the maps are traversed. -/
theorem Lists.follows (h : Lists ledger r) (horder : order.Of r) (s : Section κ) :
    Lists (ledger.note s) (after r order s) := by
  cases s with
  | subscribeTcp id onData onClose => exact h.subscribeTcp id onData onClose
  | subscribeUdp id onData => exact h.subscribeUdp id onData
  | unsubscribe handle => exact h.unsubscribe handle
  | dispatchTcpData id data =>
      change Lists ledger (r.dispatchTcpData order.tcp id data).2
      obtain heq | heq := dispatchTcpData_tcpRoutes (r := r) order.tcp id data
      · rw [heq]
        exact h
      · rw [heq]
        exact h.congr rfl rfl rfl
  | dispatchTcpClose id => exact h.dispatchTcpClose horder.1 id
  | dispatchUdpData id => exact h
  | discardUndelivered id => exact h.congr rfl rfl rfl

/-- In every order the owner gets the data, just when all registrations in question agree. -/
theorem Lists.delivers_iff (h : Lists ledger r) (s : Section κ) :
    (∀ order : Order κ, order.Of r → handler r order s = ledger.owner s) ↔ ledger.Agrees s := by
  have htcp : r.tcpRoutes.Perm ledger.tcp := by
    rw [h.tcp]
    exact (List.reverse_perm _).symm
  have hudp : r.udpRoutes.Perm ledger.udp := by
    rw [h.udp]
    exact (List.reverse_perm _).symm
  cases s with
  | dispatchTcpData id data =>
      refine Iff.trans ?_ Traversal.find?_bind_iff
      constructor
      · intro hall order horder
        have hgoes := hall ⟨order, r.udpRoutes⟩ ⟨horder.trans htcp.symm, .refl _⟩
        rwa [handler, dispatchTcpData_handler] at hgoes
      · intro hall order horder
        rw [handler, dispatchTcpData_handler]
        exact hall order.tcp (horder.1.trans htcp)
  | dispatchUdpData id =>
      refine Iff.trans ?_ Traversal.find?_bind_iff
      constructor
      · intro hall order horder
        exact hall ⟨r.tcpRoutes, order⟩ ⟨.refl _, horder.trans hudp.symm⟩
      · intro hall order horder
        exact hall order.udp (horder.2.trans hudp)
  | _ => exact ⟨fun _ => trivial, fun _ _ _ => rfl⟩

end

/-! ## Runs -/

section

variable [DecidableEq κ]

/-- From a ledger that lists the routes on. -/
theorem Lists.along_iff {ledger : Ledger κ} {r : Routing κ} (h : Lists ledger r)
    {sections : List (Section κ)} :
    (∀ ls : List (Section κ × Order κ), ls.map Prod.fst = sections →
      Runs.Along watched Delivers (ledger, r) ls) ↔
      ledger.Throughout Ledger.Agrees sections := by
  induction sections generalizing ledger r with
  | nil =>
      refine ⟨fun _ => trivial, fun _ ls hls => ?_⟩
      rw [List.map_eq_nil_iff.mp hls]
      trivial
  | cons s sections ih =>
      have hstep : ∀ order : Order κ, order.Of r →
          watched (ledger, r) (s, order) = some (ledger.note s, after r order s) := by
        intro order horder
        exact Runs.monitored_eq_some.mpr ⟨if_pos horder, rfl⟩
      constructor
      · intro hall next hnext
        obtain rfl := Option.some.inj hnext
        constructor
        · apply (h.delivers_iff s).mp
          intro order horder
          -- only the first step matters, so that the other orders may be anything
          have hrun := hall ((s, order) :: sections.map fun t => (t, ⟨[], []⟩))
            (by simp [Function.comp_def])
          exact (hrun _ (hstep order horder)).1
        · have hself : Order.Of ⟨r.tcpRoutes, r.udpRoutes⟩ r := ⟨.refl _, .refl _⟩
          apply (ih (h.follows hself s)).mp
          intro ls hls
          have hrun := hall ((s, ⟨r.tcpRoutes, r.udpRoutes⟩) :: ls) (by simp [hls])
          exact (hrun _ (hstep _ hself)).2
      · intro hagree ls hls
        obtain ⟨l, ls, rfl, rfl, htail⟩ := List.map_eq_cons_iff.mp hls
        obtain ⟨hhead, hrest⟩ := hagree _ rfl
        intro next hnext
        obtain ⟨hrouting, hledger⟩ := Runs.monitored_eq_some.mp hnext
        obtain ⟨horder, hafter⟩ := Option.ite_none_right_eq_some.mp hrouting
        constructor
        · exact (h.delivers_iff l.1).mpr hhead l.2 horder
        · have hlists := h.follows horder l.1
          obtain ⟨ledger', r'⟩ := next
          obtain rfl := Option.some.inj hafter
          obtain rfl := hledger
          exact (ih hlists).mpr hrest ls htail

/-- Data always goes to the newest registration of its id exactly when, at each dispatch, no older
registration of the id has another callback. -/
theorem newestOwns_iff (sections : List (Section κ)) :
    NewestOwns sections ↔ ({} : Ledger κ).Throughout Ledger.Agrees sections :=
  lists_start.along_iff

end

/-! ## Clients that withdraw first -/

namespace Ledger

/-- No id has two registrations. -/
structure Single (ledger : Ledger κ) : Prop where
  tcp : (ledger.tcp.map fun route => route.2.connectId).Nodup
  udp : (ledger.udp.map fun route => route.2.connectId).Nodup

variable {ledger : Ledger κ}

theorem Single.note (h : ledger.Single) {s : Section κ} (hs : ledger.Vacant s) :
    (ledger.note s).Single := by
  cases s with
  | subscribeTcp id onData onClose =>
      refine ⟨List.nodup_cons.mpr ⟨fun hmem => ?_, h.tcp⟩, h.udp⟩
      obtain ⟨route, hroute, hid⟩ := List.mem_map.mp hmem
      exact hs route hroute hid
  | subscribeUdp id onData =>
      refine ⟨h.tcp, List.nodup_cons.mpr ⟨fun hmem => ?_, h.udp⟩⟩
      obtain ⟨route, hroute, hid⟩ := List.mem_map.mp hmem
      exact hs route hroute hid
  | unsubscribe handle =>
      constructor
      · exact h.tcp.sublist (List.filter_sublist.map _)
      · exact h.udp.sublist (List.filter_sublist.map _)
  | dispatchTcpClose id => exact ⟨h.tcp.sublist (List.filter_sublist.map _), h.udp⟩
  | _ => exact h

theorem Single.agrees (h : ledger.Single) (s : Section κ) : ledger.Agrees s := by
  cases s with
  | dispatchTcpData id data =>
      intro route hroute hserves
      have hfind : ledger.tcp.find? (Routing.serves id) = some route :=
        Traversal.find?_key (fun route => route.2.connectId) h.tcp hroute hserves
      rw [tcpOwner, hfind]
      rfl
  | dispatchUdpData id =>
      intro route hroute hserves
      rw [udpOwner, Traversal.find?_key (fun route => route.2.connectId) h.udp hroute hserves]
      rfl
  | _ => trivial

/-- While every client withdraws before the next one registers, no id is contended. -/
theorem throughout_agrees (h : ledger.Single) {sections : List (Section κ)}
    (hvacant : ledger.Throughout Vacant sections) : ledger.Throughout Agrees sections := by
  apply hvacant.mono (I := Single) _ h
  intro ledger s next hsingle hs hnext
  obtain rfl := Option.some.inj hnext
  exact ⟨hsingle.note hs, hsingle.agrees s⟩

end Ledger

/-- A HAL whose clients withdraw before it reopens on their id always reaches the newest one. -/
theorem newestOwns_of_vacant [DecidableEq κ] {sections : List (Section κ)}
    (h : ({} : Ledger κ).Throughout Ledger.Vacant sections) : NewestOwns sections := by
  apply lists_start.along_iff.mpr
  apply Ledger.throughout_agrees _ h
  exact ⟨List.nodup_nil, List.nodup_nil⟩

/-- Two clients register for socket 0, and a byte arrives for it. -/
def reopened : List (Section ℕ) :=
  [.subscribeTcp 0 (some 1) (some 1), .subscribeTcp 0 (some 2) (some 2),
    .dispatchTcpData 0 (ascii ['x'])]

/-- A map that is traversed in the order of its handles leads to the older client. -/
theorem olderClient_found : ¬ ∀ sections : List (Section ℕ), NewestOwns sections := by
  intro h
  let first : ℕ × TcpRoute ℕ := (1, ⟨0, some 1, some 1⟩)
  let second : ℕ × TcpRoute ℕ := (2, ⟨0, some 2, some 2⟩)
  have hrun := h reopened (reopened.zip [⟨[], []⟩, ⟨[first], []⟩, ⟨[first, second], []⟩]) rfl
  exact absurd hrun (by decide)

end EspModemLink.Hal.Newest
