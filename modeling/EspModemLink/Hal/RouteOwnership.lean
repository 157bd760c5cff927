import EspModemLink.Hal.TcpClient

/-!
# Who owns the route of a client

`Connect` learns the handle of its route from `SubscribeTcp`, which has run callbacks of the
application by then. The client owns its route as long as no `Disconnect` runs in between.
-/

namespace EspModemLink.Hal.TcpClient

/-! ## The condition -/

/-- The `Connect` that a frame belongs to, if it is still inside `SubscribeTcp`. -/
def Frame.subscribes : Frame → Option ℕ
  | .subscribed _ _ n => some n
  | _ => none

/-- A `Connect` ends before its generation comes round again. -/
def Frame.Timely (connects : ℕ) : Frame → Prop
  | .subscribed _ _ n => connects < n + 2 ^ 32
  | _ => True

instance (connects : ℕ) : (f : Frame) → Decidable (f.Timely connects)
  | .subscribed _ _ n => inferInstanceAs (Decidable (connects < n + 2 ^ 32))
  | .tcpConnect | .tcpClose _ | .dispatchTcpData .. | .dispatchTcpClose _ | .onTcpData _
  | .onTcpClose | .onDisconnected | .callback | .destroyed | .foreign =>
      inferInstanceAs (Decidable True)

/-- `Disconnect` finds the client connected only when the `Connect` that opened the socket is through
with `SubscribeTcp`. -/
def Known (cfg : Config) (c : Choice) : Prop :=
  (c = .disconnect → cfg.shared.client.connected = true →
    ∀ f ∈ cfg.stack, f.subscribes ≠ some cfg.shared.connects) ∧
  ∀ f ∈ cfg.stack.head?, f.Timely cfg.shared.connects

instance (cfg : Config) (c : Choice) : Decidable (Known cfg c) := by
  unfold Known
  infer_instance

/-! ## Steps beside the client -/

/-- Frames that are not of the client. -/
def Frame.isForeign : Frame → Bool
  | .tcpClose _ | .dispatchTcpData .. | .dispatchTcpClose _ | .foreign => true
  | _ => false

/-- Frames before which the client has no route. -/
def Frame.waits : Frame → Bool
  | .tcpConnect | .onTcpClose => true
  | _ => false

theorem Frame.waits_of_foreign {f : Frame} (h : f.isForeign = true) : f.waits = false := by
  cases f <;> first | rfl | cases h

theorem Frame.subscribes_of_foreign {f : Frame} (h : f.isForeign = true) : f.subscribes = none := by
  cases f <;> first | rfl | cases h

/-- The client and its routes are left alone. -/
structure Aside (w w' : World) : Prop where
  client : w'.client = w.client
  alive : w'.alive = w.alive
  connects : w'.connects = w.connects
  ours : w'.ours = w.ours
  positive : 0 < w.routing.nextSubscription → 0 < w'.routing.nextSubscription

theorem Aside.rfl {w : World} : Aside w w := ⟨.refl _, .refl _, .refl _, .refl _, id⟩

theorem foreign_handOver (id : Int) (held : Undelivered) :
    ∀ f ∈ handOver id held, f.isForeign = true := by
  intro f hf
  obtain hf | hf := List.mem_append.mp hf
  · split at hf
    · cases hf
    · rw [List.mem_singleton.mp hf]
      rfl
  · split at hf
    · rw [List.mem_singleton.mp hf]
      rfl
    · split at hf
      · obtain rfl | hf := List.mem_cons.mp hf
        · rfl
        · rw [List.mem_singleton.mp hf]
          rfl
      · cases hf

theorem World.ours_unsubscribe (w : World) (handle : ℕ) :
    ({ w with routing := w.routing.unsubscribe handle } : World).ours =
      if handle = 0 then w.ours else w.ours.filter fun route => route.1 != handle := by
  unfold World.ours Routing.unsubscribe
  split
  · rfl
  · exact List.filter_comm ..

theorem unsubscribe_nextSubscription (r : Routing Owner) (handle : ℕ) :
    (r.unsubscribe handle).nextSubscription = r.nextSubscription := by
  unfold Routing.unsubscribe
  split <;> rfl

theorem outside_spec {w w' : World} {c : Choice} {frames : List Frame}
    (h : w.outside c = some (w', frames)) : Aside w w' ∧ ∀ f ∈ frames, f.isForeign = true := by
  cases c with
  | tcpData id data =>
      obtain ⟨rfl, rfl⟩ := Prod.mk.inj (Option.some.inj h)
      exact ⟨.rfl, by simp [Frame.isForeign]⟩
  | tcpClosed id =>
      obtain ⟨rfl, rfl⟩ := Prod.mk.inj (Option.some.inj h)
      exact ⟨.rfl, by simp [Frame.isForeign]⟩
  | discard i =>
      obtain ⟨rfl, rfl⟩ := Prod.mk.inj (Option.some.inj h)
      exact ⟨⟨rfl, rfl, rfl, rfl, id⟩, by simp⟩
  | subscribeOther id =>
      obtain ⟨rfl, rfl⟩ := Prod.mk.inj (Option.some.inj h)
      refine ⟨⟨rfl, rfl, rfl, ?_, fun _ => Nat.succ_pos _⟩, foreign_handOver _ _⟩
      simp [World.ours, List.filter_append, pointsToClient]
  | subscribeUdpOther id =>
      obtain ⟨rfl, rfl⟩ := Prod.mk.inj (Option.some.inj h)
      exact ⟨⟨rfl, rfl, rfl, rfl, fun _ => Nat.succ_pos _⟩, by simp⟩
  | unsubscribeOther handle =>
      simp only [World.outside] at h
      split at h
      · rename_i hothers
        obtain ⟨rfl, rfl⟩ := Prod.mk.inj (Option.some.inj h)
        refine ⟨⟨rfl, rfl, rfl, ?_, ?_⟩, by simp⟩
        · rw [World.ours_unsubscribe]
          split
          · rfl
          · apply List.filter_eq_self.mpr
            intro route hroute
            obtain ⟨hmem, hours⟩ := List.mem_filter.mp hroute
            have : route.1 ≠ handle := by
              intro heq
              rw [hothers route hmem heq] at hours
              cases hours
            simpa using this
        · intro hpositive
          rwa [unsubscribe_nextSubscription]
      · cases h
  | _ => cases h

/-! ## Dispatches -/

section

variable {w w' : World} {order : List (ℕ × TcpRoute Owner)} {id : Int} {frames : List Frame}

theorem handlerFrame_foreign {own : Frame} {o : Owner} (h : o ≠ .client) :
    handlerFrame own o = .foreign := by
  cases o with
  | client => exact absurd rfl h
  | other => rfl

/-- `DispatchTcpData` leaves the routes alone, and calls the client only if it has a route. -/
theorem dispatchTcpData_spec (horder : order.Perm w.routing.tcpRoutes) {data : Bytes}
    (h : w.dispatchTcpData order id data = (w', frames)) :
    Aside w w' ∧ ((∀ f ∈ frames, f.isForeign = true) ∨ frames = [.onTcpData data] ∧ w.ours ≠ []) := by
  have hw : w' = { w with routing := (w.routing.dispatchTcpData order id data).2 } :=
    (congrArg Prod.fst h).symm
  have hframes : frames = (w.routing.dispatchTcpData order id data).1.toList.map
      (handlerFrame (.onTcpData data)) := (congrArg Prod.snd h).symm
  rw [hw, hframes]
  unfold Routing.dispatchTcpData
  cases hfind : Routing.findTcpRoute order id with
  | none => exact ⟨⟨rfl, rfl, rfl, rfl, fun h => h⟩, .inl (by simp)⟩
  | some route =>
      refine ⟨⟨rfl, rfl, rfl, rfl, fun h => h⟩, ?_⟩
      dsimp only
      cases hdata : route.2.onData with
      | none => exact .inl (by simp)
      | some o =>
          cases o with
          | client =>
              refine .inr ⟨rfl, ?_⟩
              have hmem : route ∈ w.ours := by
                apply List.mem_filter.mpr
                exact ⟨horder.mem_iff.mp (List.mem_of_find?_eq_some hfind),
                  by simp [pointsToClient, hdata]⟩
              exact List.ne_nil_of_mem hmem
          | other => exact .inl (by simp [handlerFrame, Frame.isForeign])

/-- Handlers of routes that are not of the client. -/
theorem foreign_handlers {routes : List (ℕ × TcpRoute Owner)}
    (h : ∀ route ∈ routes, pointsToClient route = false) :
    ∀ f ∈ (routes.filterMap fun route => route.2.onClose).map (handlerFrame .onTcpClose),
      f.isForeign = true := by
  intro f hf
  obtain ⟨o, ho, rfl⟩ := List.mem_map.mp hf
  obtain ⟨route, hroute, hclose⟩ := List.mem_filterMap.mp ho
  have hother : o ≠ .client := by
    rintro rfl
    have := h route hroute
    rw [pointsToClient, hclose] at this
    simp at this
  rw [handlerFrame_foreign hother]
  rfl

/-- `DispatchTcpClose` for another socket leaves the client alone. For its own it takes its route and
calls its handler once. -/
theorem dispatchTcpClose_spec (horder : order.Perm w.routing.tcpRoutes)
    (hours : w.ours = [] ∨ ∃ h i, w.ours = [(h, ⟨i, some .client, some .client⟩)])
    (h : w.dispatchTcpClose order id = (w', frames)) :
    Aside w w' ∧ (∀ f ∈ frames, f.isForeign = true) ∨
      w.ours ≠ [] ∧ Aside w { w' with routing := w.routing } ∧ w'.ours = [] ∧
        w'.routing.nextSubscription = w.routing.nextSubscription ∧
        ∃ front back, frames = front ++ .onTcpClose :: back ∧ (∀ f ∈ front, f.isForeign = true) ∧
          ∀ f ∈ back, f.isForeign = true := by
  have hw : w' = { w with routing := (w.routing.dispatchTcpClose order id).2 } :=
    (congrArg Prod.fst h).symm
  have hframes : frames = (w.routing.dispatchTcpClose order id).1.map (handlerFrame .onTcpClose) :=
    (congrArg Prod.snd h).symm
  rw [hw, hframes]
  unfold Routing.dispatchTcpClose
  dsimp only
  split
  · exact .inl ⟨⟨rfl, rfl, rfl, rfl, fun h => h⟩, by simp⟩
  · have hfiltered : ∀ route, route ∈ order.filter pointsToClient ↔ route ∈ w.ours := by
      intro route
      exact (horder.filter _).mem_iff
    have hrest : (w.routing.tcpRoutes.filter fun route => !Routing.serves id route).filter
        pointsToClient = w.ours.filter fun route => !Routing.serves id route :=
      List.filter_comm ..
    by_cases hserved : ∃ route ∈ w.ours, Routing.serves id route = true
    · obtain ⟨route, hroute, hserves⟩ := hserved
      obtain hnone | ⟨handle, i, hone⟩ := hours
      · rw [hnone] at hroute
        cases hroute
      · rw [hone] at hroute
        obtain rfl := List.mem_singleton.mp hroute
        right
        refine ⟨by simp [hone], ⟨rfl, rfl, rfl, rfl, fun h => h⟩, ?_, rfl, ?_⟩
        · have hours' : w.ours.filter (fun route => !Routing.serves id route) = [] := by
            rw [hone, List.filter_cons_of_neg (by simp [hserves])]
            rfl
          exact hrest.trans hours'
        · -- the one route of the client stands somewhere in the order
          have hperm : order.filter pointsToClient = [(handle, ⟨i, some .client, some .client⟩)] := by
            apply List.perm_singleton.mp
            rw [← hone]
            exact horder.filter _
          obtain ⟨front, back, horder', hfront, -, hback⟩ := List.filter_eq_cons_iff.mp hperm
          refine ⟨((front.filter (Routing.serves id)).filterMap fun route => route.2.onClose).map
              (handlerFrame .onTcpClose),
            ((back.filter (Routing.serves id)).filterMap fun route => route.2.onClose).map
              (handlerFrame .onTcpClose), ?_, ?_, ?_⟩
          · rw [horder', List.filter_append, List.filter_cons_of_pos hserves]
            simp [handlerFrame]
          · apply foreign_handlers
            intro route hroute
            simpa using hfront route (List.mem_of_mem_filter hroute)
          · apply foreign_handlers
            intro route hroute
            simpa using List.filter_eq_nil_iff.mp hback route (List.mem_of_mem_filter hroute)
    · left
      refine ⟨⟨rfl, rfl, rfl, ?_, fun h => h⟩, ?_⟩
      · refine hrest.trans (List.filter_eq_self.mpr fun route hroute => ?_)
        have := not_exists.mp hserved route
        simpa [hroute] using this
      · apply foreign_handlers
        intro route hroute
        obtain ⟨hmem, hserves⟩ := List.mem_filter.mp hroute
        by_contra hpoints
        refine hserved ⟨route, (hfiltered route).mp ?_, hserves⟩
        exact List.mem_filter.mpr ⟨hmem, by simpa using hpoints⟩

end

/-! ## The stack -/

/-- No call of `TcpConnect` and no report of a close is under way. -/
def Free (stack : List Frame) : Prop := ∀ f ∈ stack, f.waits = false

/-- One frame that waits is under way, and only foreign ones are called from there. -/
def Awaits (k : Frame) (stack : List Frame) : Prop :=
  ∃ front rest, stack = front ++ k :: rest ∧ (∀ f ∈ front, f.isForeign = true) ∧ Free rest

theorem Free.append {front stack : List Frame} (hfront : ∀ f ∈ front, f.isForeign = true)
    (h : Free stack) : Free (front ++ stack) := by
  intro f hf
  obtain hf | hf := List.mem_append.mp hf
  · exact Frame.waits_of_foreign (hfront f hf)
  · exact h f hf

theorem Free.cons {k : Frame} {stack : List Frame} (hk : k.waits = false) (h : Free stack) :
    Free (k :: stack) := by
  intro f hf
  obtain rfl | hf := List.mem_cons.mp hf
  · exact hk
  · exact h f hf

theorem Free.tail {k : Frame} {stack : List Frame} (h : Free (k :: stack)) : Free stack :=
  fun f hf => h f (List.mem_cons_of_mem _ hf)

theorem Awaits.append {k : Frame} {front stack : List Frame}
    (hfront : ∀ f ∈ front, f.isForeign = true) (h : Awaits k stack) : Awaits k (front ++ stack) := by
  obtain ⟨front', rest, rfl, hfront', hrest⟩ := h
  refine ⟨front ++ front', rest, by rw [List.append_assoc], fun f hf => ?_, hrest⟩
  obtain hf | hf := List.mem_append.mp hf
  · exact hfront f hf
  · exact hfront' f hf

theorem Awaits.tail {k f : Frame} {stack : List Frame} (hk : k.waits = true)
    (hf : f.isForeign = true) (h : Awaits k (f :: stack)) : Awaits k stack := by
  obtain ⟨front, rest, heq, hfront, hrest⟩ := h
  cases front with
  | nil =>
      obtain ⟨rfl, -⟩ := List.cons.inj heq
      rw [Frame.waits_of_foreign hf] at hk
      cases hk
  | cons f' front =>
      obtain ⟨-, rfl⟩ := List.cons.inj heq
      exact ⟨front, rest, rfl, fun g hg => hfront g (List.mem_cons_of_mem _ hg), hrest⟩

/-- A frame that is not foreign is the one that is awaited. -/
theorem Awaits.head {k f : Frame} {stack : List Frame} (hf : f.isForeign = false)
    (h : Awaits k (f :: stack)) : f = k ∧ Free stack := by
  obtain ⟨front, rest, heq, hfront, hrest⟩ := h
  cases front with
  | nil =>
      obtain ⟨rfl, rfl⟩ := List.cons.inj heq
      exact ⟨rfl, hrest⟩
  | cons f' front =>
      obtain ⟨rfl, -⟩ := List.cons.inj heq
      rw [hfront f (by simp)] at hf
      cases hf

/-! ## The handle -/

/-- The route `handle` is the one that the last `Connect` is about to learn of, or the one that the
client knows. -/
structure Named (w : World) (stack : List Frame) (handle : ℕ) : Prop where
  pending : ∀ h g, .subscribed h g w.connects ∈ stack → h = handle
  known : (∀ f ∈ stack, f.subscribes ≠ some w.connects) → w.client.subscription = handle

/-- Frames that do not belong to a `Connect` inside `SubscribeTcp` do not matter. -/
theorem Named.of_mem {w w' : World} {stack stack' : List Frame} {handle : ℕ}
    (h : Named w stack handle) (hclient : w'.client = w.client) (hconnects : w'.connects = w.connects)
    (hmem : ∀ f, f.subscribes ≠ none → (f ∈ stack' ↔ f ∈ stack)) : Named w' stack' handle := by
  constructor
  · intro h' g hin
    rw [hconnects] at hin
    exact h.pending h' g ((hmem _ (by simp [Frame.subscribes])).mp hin)
  · intro hnone
    rw [hclient]
    apply h.known
    intro f hf heq
    rw [hconnects] at hnone
    exact hnone f ((hmem f (by simp [heq])).mpr hf) heq

/-- The client is as it says, and nothing is under way that will change that. -/
structure Holds (w : World) (stack : List Frame) : Prop where
  alive : w.alive = true
  none : w.client.connected = false → w.ours = []
  one : w.client.connected = true → ∃ handle, 0 < handle ∧
    w.ours = [(handle, ⟨w.client.connectId, some .client, some .client⟩)] ∧ Named w stack handle
  free : Free stack

/-- Where a run stands: the client is gone, or is as it says, or has no route because it is opening a
socket or is about to be told of a close. -/
inductive Stands (w : World) (stack : List Frame) : Prop
  | gone (halive : w.alive = false) (hours : w.ours = [])
      (hstack : ∀ f ∈ stack, f.isForeign = true)
  | holds (h : Holds w stack)
  | opening (halive : w.alive = true) (hours : w.ours = []) (hdown : w.client.connected = false)
      (hstack : Awaits .tcpConnect stack)
  | closing (halive : w.alive = true) (hours : w.ours = [])
      (hstack : Awaits .onTcpClose stack)

/-- The numbers of the frames. -/
structure Numbered (w : World) (stack : List Frame) : Prop where
  positive : 0 < w.routing.nextSubscription
  generation : w.client.generation = w.connects % 2 ^ 32
  frames : ∀ h g n, .subscribed h g n ∈ stack → n ≤ w.connects ∧ g = n % 2 ^ 32
  bottom : ∀ front rest, stack = front ++ .destroyed :: rest → rest = []

/-! ## Steps -/

section

variable {w w' : World} {stack frames : List Frame} {f : Frame}

/-- Frames on top that are neither awaited nor of a `Connect`. -/
theorem Holds.swap (h : Holds w (f :: stack)) (haside : Aside w w')
    (hf : f.subscribes = Option.none)
    (hframes : ∀ g ∈ frames, g.waits = false ∧ g.subscribes = Option.none) :
    Holds w' (frames ++ stack) := by
  refine ⟨haside.alive.trans h.alive, fun hdown => ?_, fun hup => ?_, fun g hg => ?_⟩
  · rw [haside.ours]
    exact h.none (haside.client ▸ hdown)
  · obtain ⟨handle, hpositive, hours, hnamed⟩ := h.one (haside.client ▸ hup)
    refine ⟨handle, hpositive, by rw [haside.ours, haside.client, hours], ?_⟩
    apply hnamed.of_mem haside.client haside.connects
    intro g hg
    constructor
    · intro hin
      obtain hin | hin := List.mem_append.mp hin
      · exact absurd (hframes g hin).2 hg
      · exact List.mem_cons_of_mem _ hin
    · intro hin
      obtain rfl | hin := List.mem_cons.mp hin
      · exact absurd hf hg
      · exact List.mem_append_right _ hin
  · obtain hg | hg := List.mem_append.mp hg
    · exact (hframes g hg).1
    · exact h.free.tail g hg

theorem Holds.push (h : Holds w stack) (hwaits : f.waits = false)
    (hf : f.subscribes = Option.none) : Holds w (f :: stack) := by
  refine ⟨h.alive, h.none, fun hup => ?_, h.free.cons hwaits⟩
  obtain ⟨handle, hpositive, hours, hnamed⟩ := h.one hup
  refine ⟨handle, hpositive, hours, hnamed.of_mem rfl rfl fun g hg => ?_⟩
  have : g ≠ f := by
    rintro rfl
    exact hg hf
  simp [this]

/-- What happens beside the client, on top of what is under way. -/
theorem Stands.beside (h : Stands w stack) (haside : Aside w w')
    (hframes : ∀ g ∈ frames, g.isForeign = true) : Stands w' (frames ++ stack) := by
  cases h with
  | gone halive hours hstack =>
      refine .gone (haside.alive.trans halive) (haside.ours.trans hours) fun g hg => ?_
      obtain hg | hg := List.mem_append.mp hg
      · exact hframes g hg
      · exact hstack g hg
  | holds h =>
      have hunder : Holds w (.foreign :: stack) := h.push rfl rfl
      exact .holds (hunder.swap haside rfl fun g hg => ⟨Frame.waits_of_foreign (hframes g hg),
        Frame.subscribes_of_foreign (hframes g hg)⟩)
  | opening halive hours hdown hstack =>
      exact .opening (haside.alive.trans halive) (haside.ours.trans hours) (haside.client ▸ hdown)
        (hstack.append hframes)
  | closing halive hours hstack =>
      exact .closing (haside.alive.trans halive) (haside.ours.trans hours) (hstack.append hframes)

theorem Stands.tail (h : Stands w (f :: stack)) (hf : f.isForeign = true) : Stands w stack := by
  cases h with
  | gone halive hours hstack =>
      exact .gone halive hours fun g hg => hstack g (List.mem_cons_of_mem _ hg)
  | holds h =>
      have hnone : ∀ g ∈ ([] : List Frame), g.waits = false ∧ g.subscribes = none := by simp
      exact .holds (h.swap .rfl (Frame.subscribes_of_foreign hf) hnone)
  | opening halive hours hdown hstack => exact .opening halive hours hdown (hstack.tail rfl hf)
  | closing halive hours hstack => exact .closing halive hours (hstack.tail rfl hf)

/-- On a frame of the client that waits for nothing, the client is as it says. -/
theorem Stands.own (h : Stands w (f :: stack)) (hf : f.isForeign = false) (hwaits : f.waits = false) :
    Holds w (f :: stack) := by
  cases h with
  | gone _ _ hstack =>
      rw [hstack f (by simp)] at hf
      cases hf
  | holds h => exact h
  | opening _ _ _ hstack =>
      obtain ⟨rfl, -⟩ := hstack.head hf
      cases hwaits
  | closing _ _ hstack =>
      obtain ⟨rfl, -⟩ := hstack.head hf
      cases hwaits

theorem Stands.idle (h : Stands w []) (halive : w.alive = true) : Holds w [] := by
  cases h with
  | gone hgone =>
      rw [hgone] at halive
      cases halive
  | holds h => exact h
  | opening _ _ _ hstack | closing _ _ hstack =>
      obtain ⟨front, rest, heq, -⟩ := hstack
      simp at heq

/-! ## Numbers -/

theorem Numbered.tail (h : Numbered w (f :: stack)) : Numbered w stack := by
  refine ⟨h.positive, h.generation, fun h' g n hin => h.frames h' g n (List.mem_cons_of_mem _ hin),
    fun front rest heq => ?_⟩
  exact h.bottom (f :: front) rest (by rw [heq]; rfl)

/-- Frames that are neither of a `Connect` nor of the destructor. -/
theorem Numbered.append (h : Numbered w stack)
    (hgeneration : w'.client.generation = w.client.generation) (hconnects : w'.connects = w.connects)
    (hpositive : 0 < w'.routing.nextSubscription)
    (hframes : ∀ g ∈ frames, g.subscribes = none ∧ g ≠ .destroyed) :
    Numbered w' (frames ++ stack) := by
  refine ⟨hpositive, by rw [hgeneration, hconnects, h.generation], fun h' g n hin => ?_,
    fun front rest heq => ?_⟩
  · rw [hconnects]
    obtain hin | hin := List.mem_append.mp hin
    · have := (hframes _ hin).1
      cases this
    · exact h.frames h' g n hin
  · obtain ⟨front', -, hstack⟩ | ⟨back, hback, hrest⟩ := List.append_eq_append_iff.mp heq
    · exact h.bottom front' rest hstack
    · cases back with
      | nil => exact h.bottom [] rest hrest.symm
      | cons g back =>
          obtain ⟨rfl, -⟩ := List.cons.inj hrest
          exact absurd rfl (hframes .destroyed (by simp [hback])).2

theorem not_destroyed_of_foreign {g : Frame} (h : g.isForeign = true) : g ≠ .destroyed := by
  rintro rfl
  cases h

theorem Numbered.beside (h : Numbered w stack) (haside : Aside w w')
    (hframes : ∀ g ∈ frames, g.isForeign = true) : Numbered w' (frames ++ stack) :=
  h.append (by rw [haside.client]) haside.connects (haside.positive h.positive) fun g hg =>
    ⟨Frame.subscribes_of_foreign (hframes g hg), not_destroyed_of_foreign (hframes g hg)⟩

/-! ## Calls -/

/-- What a run keeps. -/
structure Kept (w : World) (stack : List Frame) : Prop where
  stands : Stands w stack
  numbered : Numbered w stack

theorem Kept.beside (h : Kept w stack) (haside : Aside w w')
    (hframes : ∀ g ∈ frames, g.isForeign = true) : Kept w' (frames ++ stack) :=
  ⟨h.stands.beside haside hframes, h.numbered.beside haside hframes⟩

theorem Kept.tail (h : Kept w (f :: stack)) (hf : f.isForeign = true) : Kept w stack :=
  ⟨h.stands.tail hf, h.numbered.tail⟩

theorem Aside.log (e : Event) : Aside w (w.log e) := ⟨.refl _, .refl _, .refl _, .refl _, id⟩

theorem Aside.connects_eq (h : Aside w w') : w'.client.generation = w.client.generation := by
  rw [h.client]

/-- A frame of the client gives way to others. -/
theorem Kept.swap (h : Kept w (f :: stack)) (hown : f.isForeign = false) (hwaits : f.waits = false)
    (hf : f.subscribes = none) (haside : Aside w w')
    (hframes : ∀ g ∈ frames, g.waits = false ∧ g.subscribes = none ∧ g ≠ .destroyed) :
    Kept w' (frames ++ stack) := by
  constructor
  · exact .holds ((h.stands.own hown hwaits).swap haside hf fun g hg =>
      ⟨(hframes g hg).1, (hframes g hg).2.1⟩)
  · exact h.numbered.tail.append haside.connects_eq haside.connects
      (haside.positive h.numbered.positive) fun g hg => (hframes g hg).2

theorem kept_connect (h : Holds w stack) (hnumbered : Numbered w stack) :
    Kept w.connect.1 (w.connect.2 ++ stack) := by
  unfold World.connect
  split
  · have hkept : Kept w stack := ⟨.holds h, hnumbered⟩
    exact hkept.beside (.log _) (by simp)
  · rename_i hdown
    have hdown : w.client.connected = false := by simpa using hdown
    constructor
    · exact .opening h.alive (h.none hdown) hdown ⟨[], stack, rfl, by simp, h.free⟩
    · exact hnumbered.append rfl rfl hnumbered.positive (by simp [Frame.subscribes])

/-- `Disconnect` withdraws the route if the client knows its handle. -/
theorem kept_disconnect (h : Holds w stack) (hnumbered : Numbered w stack)
    (hknown : w.client.connected = true → ∀ f ∈ stack, f.subscribes ≠ some w.connects) :
    Kept w.disconnect.1 (w.disconnect.2 ++ stack) := by
  unfold World.disconnect
  split
  · rename_i hup
    obtain ⟨handle, hpositive, hours, hnamed⟩ := h.one hup
    have hhandle := hnamed.known (hknown hup)
    constructor
    · refine .holds ⟨h.alive, fun _ => ?_, fun h => (by cases h), ?_⟩
      · refine (World.ours_unsubscribe w w.client.subscription).trans ?_
        rw [hhandle, if_neg (by omega), hours]
        simp
      · exact (h.free.cons rfl).cons rfl
    · refine hnumbered.append ?_ ?_ ?_ ?_
      · rfl
      · rfl
      · exact (unsubscribe_nextSubscription ..).symm ▸ hnumbered.positive
      · simp [Frame.subscribes]
  · exact ⟨.holds h, hnumbered⟩

/-- The new route is the one that `Connect` will learn of. -/
theorem kept_opened {id : Int} (h : Kept w (.tcpConnect :: stack)) :
    Kept (w.opened id).1 ((w.opened id).2 ++ stack) := by
  obtain ⟨hstands, hnumbered⟩ := h
  have hforeign := foreign_handOver id (w.routing.held id)
  obtain ⟨halive, hours, hfree⟩ : w.alive = true ∧ w.ours = [] ∧ Free stack := by
    cases hstands with
    | gone _ _ hstack =>
        have := hstack .tcpConnect (by simp)
        cases this
    | holds h =>
        have := h.free .tcpConnect (by simp)
        cases this
    | opening halive hours _ hstack => exact ⟨halive, hours, (hstack.head rfl).2⟩
    | closing _ _ hstack =>
        have := (hstack.head rfl).1
        cases this
  have hframes : (w.opened id).2 ++ stack = handOver id (w.routing.held id) ++
      (.subscribed w.routing.nextSubscription ((w.client.generation + 1) % 2 ^ 32) (w.connects + 1) ::
        stack) := List.append_assoc ..
  have holder : ∀ h g n, .subscribed h g n ∈ (w.opened id).2 ++ stack →
      h = w.routing.nextSubscription ∧ g = (w.client.generation + 1) % 2 ^ 32 ∧ n = w.connects + 1 ∨
        .subscribed h g n ∈ stack := by
    intro h g n hin
    rw [hframes] at hin
    obtain hin | hin := List.mem_append.mp hin
    · have := hforeign _ hin
      cases this
    · obtain heq | hin := List.mem_cons.mp hin
      · obtain ⟨rfl, rfl, rfl⟩ := Frame.subscribed.inj heq
        exact .inl ⟨rfl, rfl, rfl⟩
      · exact .inr hin
  constructor
  · refine .holds ⟨halive, fun h => (by cases h), fun _ => ?_, ?_⟩
    · refine ⟨w.routing.nextSubscription, hnumbered.positive, ?_, ?_, fun hnone => ?_⟩
      · refine (List.filter_append ..).trans ?_
        rw [show w.routing.tcpRoutes.filter pointsToClient = [] from hours]
        rfl
      · intro h g hin
        obtain ⟨rfl, -, -⟩ | hin := holder h g _ hin
        · rfl
        · have := (hnumbered.tail.frames h g _ hin).1
          exact absurd this (Nat.not_succ_le_self _)
      · refine absurd rfl (hnone (.subscribed w.routing.nextSubscription
          ((w.client.generation + 1) % 2 ^ 32) (w.connects + 1)) ?_)
        rw [hframes]
        exact List.mem_append_right _ (List.mem_cons_self ..)
    · rw [hframes]
      exact (hfree.cons rfl).append hforeign
  · refine ⟨Nat.succ_pos _, ?_, fun h g n hin => ?_, fun front rest heq => ?_⟩
    · have hnext : (w.client.generation + 1) % 2 ^ 32 = (w.connects + 1) % 2 ^ 32 := by
        rw [hnumbered.generation, Nat.mod_add_mod]
      exact hnext
    · have hnext : (w.client.generation + 1) % 2 ^ 32 = (w.connects + 1) % 2 ^ 32 := by
        rw [hnumbered.generation, Nat.mod_add_mod]
      obtain ⟨-, rfl, rfl⟩ | hin := holder h g n hin
      · exact ⟨Nat.le_refl _, hnext⟩
      · obtain ⟨hn, hg⟩ := hnumbered.tail.frames h g n hin
        exact ⟨Nat.le_succ_of_le hn, hg⟩
    · rw [hframes] at heq
      obtain ⟨front', -, hstack⟩ | ⟨back, hback, hrest⟩ := List.append_eq_append_iff.mp heq
      · cases front' with
        | nil =>
            obtain ⟨hhead, -⟩ := List.cons.inj hstack
            cases hhead
        | cons _ front' =>
            obtain ⟨-, hstack⟩ := List.cons.inj hstack
            exact hnumbered.tail.bottom front' rest hstack
      · cases back with
        | nil =>
            obtain ⟨hhead, -⟩ := List.cons.inj hrest
            cases hhead
        | cons g back =>
            obtain ⟨rfl, -⟩ := List.cons.inj hrest
            exact absurd rfl (not_destroyed_of_foreign (hforeign .destroyed (by simp [hback])))

/-- The last `Connect` learns of its route, and no other one changes the handle. -/
theorem kept_subscribed {handle generation n : ℕ}
    (h : Kept w (.subscribed handle generation n :: stack)) (htimely : w.connects < n + 2 ^ 32) :
    Kept (w.subscribed handle generation) stack := by
  obtain ⟨hstands, hnumbered⟩ := h
  have hholds := hstands.own rfl rfl
  obtain ⟨hn, hgeneration⟩ := hnumbered.frames handle generation n (by simp)
  have hsame : w.client.generation = generation ↔ n = w.connects := by
    rw [hnumbered.generation, hgeneration]
    omega
  have hnone : ∀ {w' : World}, w'.ours = w.ours → w'.client.connected = w.client.connected →
      w'.client.connected = false → w'.ours = [] := by
    intro w' hours hconnected hdown
    rw [hours]
    exact hholds.none (hconnected ▸ hdown)
  unfold World.subscribed
  split
  · rename_i heq
    obtain rfl := hsame.mp heq
    constructor
    · refine .holds ⟨hholds.alive, hnone rfl rfl, fun hup => ?_, hholds.free.tail⟩
      obtain ⟨handle', hpositive, hours, hnamed⟩ := hholds.one hup
      refine ⟨handle', hpositive, hours, fun h' g hin => ?_, fun _ => ?_⟩
      · exact hnamed.pending h' g (List.mem_cons_of_mem _ hin)
      · exact hnamed.pending handle generation (by simp)
    · exact ⟨hnumbered.positive, hnumbered.generation, hnumbered.tail.frames, hnumbered.tail.bottom⟩
  · rename_i hne
    constructor
    · refine .holds ⟨hholds.alive, hnone rfl rfl, fun hup => ?_, hholds.free.tail⟩
      obtain ⟨handle', hpositive, hours, hnamed⟩ := hholds.one hup
      refine ⟨handle', hpositive, hours, fun h' g hin => ?_, fun hnone => ?_⟩
      · exact hnamed.pending h' g (List.mem_cons_of_mem _ hin)
      · apply hnamed.known
        intro f hf
        obtain rfl | hf := List.mem_cons.mp hf
        · intro heq
          exact hne (hsame.mpr (Option.some.inj heq))
        · exact hnone f hf
    · exact ⟨hnumbered.positive, hnumbered.generation, hnumbered.tail.frames, hnumbered.tail.bottom⟩

/-- The destructor withdraws the route that the client knows. -/
theorem kept_destroyed (h : Kept w (.destroyed :: stack)) : Kept w.destroyed stack := by
  obtain ⟨hstands, hnumbered⟩ := h
  have hholds := hstands.own rfl rfl
  obtain rfl := hnumbered.bottom [] stack rfl
  constructor
  · refine .gone rfl ?_ (by simp)
    refine (World.ours_unsubscribe w w.client.subscription).trans ?_
    cases hup : w.client.connected with
    | false =>
        rw [hholds.none hup]
        split <;> rfl
    | true =>
        obtain ⟨handle, hpositive, hours, hnamed⟩ := hholds.one hup
        rw [hnamed.known (by simp [Frame.subscribes]), if_neg (by omega), hours]
        simp
  · refine ⟨?_, hnumbered.generation, hnumbered.tail.frames, hnumbered.tail.bottom⟩
    exact (unsubscribe_nextSubscription ..).symm ▸ hnumbered.positive

/-- A report of a close is delivered. -/
theorem kept_onTcpClose (h : Kept w (.onTcpClose :: stack)) :
    Kept w.onTcpClose ([.onDisconnected] ++ stack) := by
  obtain ⟨hstands, hnumbered⟩ := h
  obtain ⟨halive, hours, hfree⟩ : w.alive = true ∧ w.ours = [] ∧ Free stack := by
    cases hstands with
    | gone _ _ hstack =>
        have := hstack .onTcpClose (by simp)
        cases this
    | holds h =>
        have := h.free .onTcpClose (by simp)
        cases this
    | opening _ _ _ hstack =>
        have := (hstack.head rfl).1
        cases this
    | closing halive hours hstack => exact ⟨halive, hours, (hstack.head rfl).2⟩
  constructor
  · exact .holds ⟨halive, fun _ => hours, fun h => (by cases h), hfree.cons rfl⟩
  · refine hnumbered.tail.append ?_ ?_ hnumbered.positive ?_
    · rfl
    · rfl
    · simp [Frame.subscribes]

/-- Where a dispatch finds a route of the client, the client is as it says. -/
theorem Stands.routed (h : Stands w stack) (hours : w.ours ≠ []) : Holds w stack := by
  cases h with
  | gone _ hnone | opening _ hnone | closing _ hnone => exact absurd hnone hours
  | holds h => exact h

theorem kept_dispatchTcpData {order : List (ℕ × TcpRoute Owner)} {id : Int} {data : Bytes}
    (h : Kept w (.dispatchTcpData id data :: stack)) (horder : order.Perm w.routing.tcpRoutes)
    (hdispatch : w.dispatchTcpData order id data = (w', frames)) : Kept w' (frames ++ stack) := by
  obtain ⟨haside, hforeign | ⟨rfl, hours⟩⟩ := dispatchTcpData_spec horder hdispatch
  · exact (h.tail rfl).beside haside hforeign
  · constructor
    · exact .holds ((h.stands.routed hours).swap haside rfl (by simp [Frame.waits, Frame.subscribes]))
    · exact h.numbered.tail.append haside.connects_eq haside.connects
        (haside.positive h.numbered.positive) (by simp [Frame.subscribes])

theorem kept_dispatchTcpClose {order : List (ℕ × TcpRoute Owner)} {id : Int}
    (h : Kept w (.dispatchTcpClose id :: stack)) (horder : order.Perm w.routing.tcpRoutes)
    (hdispatch : w.dispatchTcpClose order id = (w', frames)) : Kept w' (frames ++ stack) := by
  have hone : w.ours = [] ∨ ∃ h i, w.ours = [(h, ⟨i, some .client, some .client⟩)] := by
    by_cases hours : w.ours = []
    · exact .inl hours
    · have hholds := h.stands.routed hours
      cases hup : w.client.connected with
      | false => exact absurd (hholds.none hup) hours
      | true =>
          obtain ⟨handle, -, hours, -⟩ := hholds.one hup
          exact .inr ⟨handle, _, hours⟩
  obtain ⟨haside, hforeign⟩ | ⟨hours, haside, hgone, hnext, front, back, rfl, hfront, hback⟩ :=
    dispatchTcpClose_spec horder hone hdispatch
  · exact (h.tail rfl).beside haside hforeign
  · have hholds := h.stands.routed hours
    constructor
    · refine .closing (haside.alive.trans hholds.alive) hgone ⟨front, back ++ stack, ?_, hfront, ?_⟩
      · rw [List.append_assoc]
        rfl
      · exact hholds.free.tail.append hback
    · refine h.numbered.tail.append haside.connects_eq haside.connects
        (hnext.symm ▸ h.numbered.positive) fun g hg => ?_
      obtain hg | hg := List.mem_append.mp hg
      · exact ⟨Frame.subscribes_of_foreign (hfront g hg), not_destroyed_of_foreign (hfront g hg)⟩
      · obtain rfl | hg := List.mem_cons.mp hg
        · simp [Frame.subscribes]
        · exact ⟨Frame.subscribes_of_foreign (hback g hg), not_destroyed_of_foreign (hback g hg)⟩

/-- `Connect` comes to nothing. -/
theorem kept_fails (h : Kept w (.tcpConnect :: stack)) (e : NetworkError) :
    Kept (w.log (.connectReturned (.error e))) stack := by
  obtain ⟨hstands, hnumbered⟩ := h
  constructor
  · cases hstands with
    | gone _ _ hstack =>
        have := hstack .tcpConnect (by simp)
        cases this
    | holds h =>
        have := h.free .tcpConnect (by simp)
        cases this
    | opening halive hours hdown hstack =>
        refine .holds ⟨halive, fun _ => hours, fun hup => ?_, (hstack.head rfl).2⟩
        have hup : w.client.connected = true := hup
        rw [hdown] at hup
        cases hup
    | closing _ _ hstack =>
        have := (hstack.head rfl).1
        cases this
  · exact ⟨hnumbered.positive, hnumbered.generation, hnumbered.tail.frames, hnumbered.tail.bottom⟩

/-! ## Runs -/

/-- Every frame keeps it. -/
theorem kept_goOn {c : Choice} (h : Kept w (f :: stack)) (hknown : Known ⟨w, f :: stack⟩ c)
    (hexec : w.goOn f c = some (w', frames)) : Kept w' (frames ++ stack) := by
  have htimely : f.Timely w.connects := hknown.2 f rfl
  unfold World.goOn at hexec
  split at hexec
  · obtain ⟨rfl, rfl⟩ := Prod.mk.inj (Option.some.inj hexec)
    exact kept_opened h
  · obtain ⟨rfl, rfl⟩ := Prod.mk.inj (Option.some.inj hexec)
    exact kept_fails h _
  · obtain ⟨rfl, rfl⟩ := Prod.mk.inj (Option.some.inj hexec)
    exact h.tail rfl
  · split at hexec
    · rename_i horder
      exact kept_dispatchTcpData h horder (Option.some.inj hexec)
    · cases hexec
  · split at hexec
    · rename_i horder
      exact kept_dispatchTcpClose h horder (Option.some.inj hexec)
    · cases hexec
  · split at hexec
    · obtain ⟨rfl, rfl⟩ := Prod.mk.inj (Option.some.inj hexec)
      exact h.swap rfl rfl rfl (.log _) (by simp [Frame.waits, Frame.subscribes])
    · cases hexec
  · split at hexec
    · obtain ⟨rfl, rfl⟩ := Prod.mk.inj (Option.some.inj hexec)
      exact kept_onTcpClose h
    · cases hexec
  · obtain ⟨rfl, rfl⟩ := Prod.mk.inj (Option.some.inj hexec)
    exact h.swap rfl rfl rfl (.log _) (by simp [Frame.waits, Frame.subscribes])
  · obtain ⟨rfl, rfl⟩ := Prod.mk.inj (Option.some.inj hexec)
    rw [List.append_assoc]
    exact kept_connect (h.stands.own rfl rfl) h.numbered
  · obtain ⟨rfl, rfl⟩ := Prod.mk.inj (Option.some.inj hexec)
    rw [List.append_assoc]
    exact kept_disconnect (h.stands.own rfl rfl) h.numbered (hknown.1 rfl)
  · obtain ⟨rfl, rfl⟩ := Prod.mk.inj (Option.some.inj hexec)
    exact h.swap rfl rfl rfl .rfl (by simp)
  · obtain ⟨rfl, rfl⟩ := Prod.mk.inj (Option.some.inj hexec)
    exact kept_subscribed h htimely
  · obtain ⟨rfl, rfl⟩ := Prod.mk.inj (Option.some.inj hexec)
    exact kept_destroyed h
  · obtain ⟨rfl, rfl⟩ := Prod.mk.inj (Option.some.inj hexec)
    exact h.tail rfl
  · cases hexec

theorem kept_exec {c : Choice} (h : Kept w (f :: stack)) (hknown : Known ⟨w, f :: stack⟩ c)
    (hexec : w.exec f c = some (w', frames)) : Kept w' (frames ++ stack) := by
  unfold World.exec at hexec
  split at hexec
  · rename_i w₁ frames₁ houtside
    obtain ⟨rfl, rfl⟩ := Prod.mk.inj (Option.some.inj hexec)
    obtain ⟨haside, hforeign⟩ := outside_spec houtside
    rw [List.append_assoc]
    exact h.beside haside hforeign
  · exact kept_goOn h hknown hexec

/-- Every call keeps it. -/
theorem kept_enter {c : Choice} (h : Kept w []) (henter : w.enter c = some (w', frames)) :
    Kept w' frames := by
  have hdisconnect : w.alive = true → Kept w.disconnect.1 w.disconnect.2 := by
    intro halive
    have := kept_disconnect (h.stands.idle halive) h.numbered (by simp)
    rwa [List.append_nil] at this
  unfold World.enter at henter
  split at henter
  · rename_i houtside
    obtain rfl := Option.some.inj henter
    obtain ⟨haside, hforeign⟩ := outside_spec houtside
    have := h.beside haside hforeign
    rwa [List.append_nil] at this
  · split at henter
    · split at henter
      · rename_i halive
        obtain ⟨rfl, rfl⟩ := Prod.mk.inj (Option.some.inj henter)
        have := kept_connect (h.stands.idle halive) h.numbered
        rwa [List.append_nil] at this
      · cases henter
    · split at henter
      · rename_i halive
        obtain ⟨rfl, rfl⟩ := Prod.mk.inj (Option.some.inj henter)
        exact hdisconnect halive
      · cases henter
    · split at henter
      · rename_i halive
        obtain ⟨rfl, rfl⟩ := Prod.mk.inj (Option.some.inj henter)
        -- the destructor is the last frame on the stack
        have hnumbered : Numbered w [.destroyed] := by
          refine ⟨h.numbered.positive, h.numbered.generation, by simp, fun front rest heq => ?_⟩
          cases front with
          | nil => exact (List.cons.inj heq).2.symm
          | cons g front => simp at heq
        exact kept_disconnect ((h.stands.idle halive).push rfl rfl) hnumbered
          (by simp [Frame.subscribes])
      · cases henter
    · cases henter

end

/-- In every run in which `Disconnect` finds the client connected only when `Connect` knows its
route, and in which no `Connect` outlasts a round of the generations, the client owns its route
whenever no call is on the stack. -/
theorem run_ownsRoute {choices : List Choice} {cfg : Config}
    (hknown : Runs.Along program.step (fun cfg c _ => Known cfg c) start choices)
    (hrun : Runs.exec program.step start choices = some cfg) (hidle : cfg.stack = []) :
    OwnsRoute cfg.shared := by
  have hinit : Kept start.shared start.stack := by
    constructor
    · exact .holds ⟨rfl, fun _ => rfl, fun h => (by cases h), by simp [Free, start]⟩
    · exact ⟨Nat.one_pos, rfl, by simp [start], by simp [start]⟩
  have hkept : Kept cfg.shared cfg.stack := Stack.Program.invariant (I := Kept)
    (fun _ _ _ _ _ h henter => kept_enter h henter)
    (fun _ _ _ _ _ _ hknown h hexec => kept_exec h hknown hexec) hknown hinit hrun
  rw [hidle] at hkept
  constructor
  · rintro (hgone | hdown)
    · cases hkept.stands with
      | gone _ hours | opening _ hours | closing _ hours => exact hours
      | holds h => exact absurd (h.alive.symm.trans hgone) (by simp)
    · cases hkept.stands with
      | gone _ hours | opening _ hours | closing _ hours => exact hours
      | holds h => exact h.none hdown
  · intro halive hup
    obtain ⟨handle, -, hours, hnamed⟩ := (hkept.stands.idle halive).one hup
    rw [hours, hnamed.known (by simp)]

/-- A callback reconnects from inside `Connect`, and the client owns the route of the new socket. -/
def reconnects : List Choice :=
  [.tcpClosed 0, .traverse [], .connect, .opens 0,
    .traverse [(1, ⟨0, some .client, some .client⟩)], .next, .next, .connect, .opens 7, .next, .next,
    .next]

theorem run_ownsRoute_reconnects :
    ∃ cfg, Runs.exec program.step start reconnects = some cfg ∧ cfg.stack = [] ∧
      cfg.shared.client.connected = true ∧ OwnsRoute cfg.shared := by
  have hrun : (Runs.exec program.step start reconnects).map
      (fun cfg => (cfg.stack, cfg.shared.client.connected)) = some ([], true) := by decide +kernel
  obtain ⟨cfg, hcfg, hout⟩ := Option.map_eq_some_iff.mp hrun
  obtain ⟨hidle, hup⟩ := Prod.mk.inj hout
  exact ⟨cfg, hcfg, hidle, hup, run_ownsRoute (by decide +kernel) hcfg hidle⟩

/-- `on_data` gets the bytes that came before the route, and disconnects. -/
def leavesEarly : List Choice :=
  [.tcpData 0 [97], .traverse [], .connect, .opens 0,
    .traverse [(1, ⟨0, some .client, some .client⟩)], .next, .disconnect, .next, .next, .next, .next,
    .next]

/-- The client is not connected, and its HAL still has its route. -/
theorem not_ownsRoute : ∃ cfg, Runs.exec program.step start leavesEarly = some cfg ∧ cfg.stack = [] ∧
    ¬ OwnsRoute cfg.shared := by
  have hrun : (Runs.exec program.step start leavesEarly).map
      (fun cfg => (cfg.stack, cfg.shared.client.connected, cfg.shared.ours)) =
        some ([], false, [(1, ⟨0, some .client, some .client⟩)]) := by decide +kernel
  obtain ⟨cfg, hcfg, hout⟩ := Option.map_eq_some_iff.mp hrun
  obtain ⟨hidle, hout⟩ := Prod.mk.inj hout
  obtain ⟨hdown, hours⟩ := Prod.mk.inj hout
  refine ⟨cfg, hcfg, hidle, fun h => ?_⟩
  have := hours.symm.trans (h.none (.inr hdown))
  cases this

end EspModemLink.Hal.TcpClient
