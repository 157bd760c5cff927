import EspModemLink.Library.Alternation
import EspModemLink.Mqtt.ClientSteps

/-!
# Connected and disconnected

`Connect` calls `on_connected` when the broker has accepted for a while. `Teardown` calls
`on_disconnected` for every transport that it takes, whether or not there was a session on it.
-/

namespace EspModemLink.Mqtt

open Bytes Http Sections Alternation

/-! ## The calls -/

/-- `on_connected` is `true` and `on_disconnected` is `false`. -/
def Event.notification? : Event → Option Bool
  | .callback .connected => some true
  | .callback .disconnected => some false
  | _ => none

def Sect.notification? : Sect → Option Bool
  | .callback .connected => some true
  | .callback .disconnected => some false
  | _ => none

/-- The calls of `on_connected` and `on_disconnected`. -/
def notifications (trace : List (Origin × Event)) : List Bool :=
  trace.filterMap fun e => e.2.notification?

@[simp] theorem notifications_nil : notifications [] = [] := rfl

@[simp] theorem notifications_cons (o : Origin) (e : Event) (trace : List (Origin × Event)) :
    notifications ((o, e) :: trace) = e.notification?.toList ++ notifications trace := by
  cases h : e.notification? <;> simp [notifications, h]

@[simp] theorem notifications_append (trace more : List (Origin × Event)) :
    notifications (trace ++ more) = notifications trace ++ notifications more :=
  List.filterMap_append

/-! ## What is due -/

/-- A section of a `Connect` that has not stored its transport. -/
def Sect.pending : Sect → Bool
  | .create .. | .transportConnect .. | .store .. => true
  | _ => false

/-- A section of a `Connect` that has stored it and still waits for the broker. -/
def Sect.opening : Sect → Bool
  | .sendPacket _ .connect | .transportSend _ _ .connect | .sending _ _ .connect => true
  | .packetSent .connect _ | .await => true
  | _ => false

/-- A call of `on_connected` is due. -/
def Sect.announcing : Sect → Bool
  | .callback .connected => true
  | _ => false

/-- A call of `on_disconnected` is due. -/
def Sect.parting : Sect → Bool
  | .callback .disconnected => true
  | _ => false

/-- A call is going to report that it failed. -/
def Sect.reports : Sect → Bool
  | .returned (.error _) => true
  | _ => false

/-- What `Subscribe` and `Unsubscribe` do before they report that they failed. -/
def Sect.drops : Sect → Bool
  | .dropTopic _ => true
  | _ => false

def Task.pending (task : Task) : Bool := task.sect.pending
def Task.opening (task : Task) : Bool := task.sect.opening
def Task.announcing (task : Task) : Bool := task.sect.announcing
def Task.parting (task : Task) : Bool := task.sect.parting

/-- A `Connect` begins while no other one has still to store its transport, does not fail once its
own is stored, and succeeds while no call of `on_disconnected` is due. A `Teardown` takes a
transport whose `on_connected` has been called. -/
def Sect.InTurn (cfg : Config) (c : Choice) : Sect → Prop
  | .call (.connect ..) =>
      cfg.shared.client.connected = false ∧ cfg.shared.client.transport = none →
        Free Task.pending cfg
  | .packetSent .connect (.error _) => False
  | .await =>
      match c with
      | .go => cfg.shared.client.connackError = none ∧ Free Task.parting cfg
      | _ => False
  | .teardown _ =>
      cfg.shared.client.transport ≠ none → Free Task.opening cfg ∧ Free Task.announcing cfg
  | _ => True

def InTurn (cfg : Config) : Label → Prop
  | .start _ => True
  | .run i c => ∀ task ∈ (Label.run i c : Label).front cfg, task.sect.InTurn cfg c

instance (cfg : Config) (c : Choice) (s : Sect) : Decidable (s.InTurn cfg c) := by
  unfold Sect.InTurn
  split <;> (try split) <;> infer_instance

instance (cfg : Config) (l : Label) : Decidable (InTurn cfg l) := by
  cases l <;> unfold InTurn <;> infer_instance

/-- The calls alternate, and no thread has one due before it reports that a call failed. -/
structure Notified (cfg : Config) : Prop where
  alternates : Alternates (notifications cfg.shared.trace)
  failed : ∀ q ∈ cfg.threads, q.Pairwise fun due report =>
    report.sect.reports = true → due.announcing = false ∧ due.parting = false

/-! ## What a section does about sessions -/

/-- A section of neither kind. -/
def Sect.idle (s : Sect) : Bool :=
  !(s.pending || s.opening || s.announcing || s.parting || s.reports)

/-- Nothing is in front of the report of a failure but what belongs to it. -/
def Reported : List Task → Bool
  | [] => true
  | k :: ks => (k.sect.drops || ks.all fun k' => !k'.sect.reports) && Reported ks

/-- How much of a `Connect` is left, with which calls. -/
structure Weighs (ks : List Task) (pending opening announcing parting : ℕ) : Prop where
  pending : weight (fun task => task.pending.toNat) ks = pending
  opening : weight (fun task => task.opening.toNat) ks = opening
  announcing : weight (fun task => task.announcing.toNat) ks = announcing
  parting : weight (fun task => task.parting.toNat) ks = parting
  reported : Reported ks = true

variable {task : Task} {c : Choice} {w w' v : Conn} {ks : List Task} {sects : List Sect}

/-- What executing `task` in `w` makes of the session and of the calls that are due. -/
inductive Turns (task : Task) (c : Choice) (w w' : Conn) (ks : List Task) : Prop
  | aside {pending : ℕ} (hks : Weighs ks pending task.opening.toNat 0 0)
      (hpending : pending ≤ task.pending.toNat) (hannouncing : task.announcing = false)
      (hparting : task.parting = false) (htransport : w'.client.transport = w.client.transport)
      (hcalls : notifications w'.trace = notifications w.trace)
  | begins {host : Bytes} {port : ℕ} {cleanSession : Bool}
      (hsect : task.sect = .call (.connect host port cleanSession))
      (hidle : w.client.connected = false ∧ w.client.transport = none) (hks : Weighs ks 1 0 0 0)
      (htransport : w'.client.transport = w.client.transport)
      (hcalls : notifications w'.trace = notifications w.trace)
  | stores {t : ℕ} {options : MqttConnectOptions} (hsect : task.sect = .store t options)
      (hks : Weighs ks 0 1 0 0) (htransport : w'.client.transport ≠ none)
      (hcalls : notifications w'.trace = notifications w.trace)
  | fails (hfails : ∀ cfg : Config, cfg.shared = w → ¬task.sect.InTurn cfg c)
  | opens (hsect : task.sect = .await) (hgo : c = .go) (hks : Weighs ks 0 0 1 0)
      (htransport : w'.client.transport = w.client.transport)
      (hcalls : notifications w'.trace = notifications w.trace)
  | announces (hsect : task.sect = .callback .connected) (hks : Weighs ks 0 0 0 0)
      (htransport : w'.client.transport = w.client.transport)
      (hcalls : notifications w'.trace = notifications w.trace ++ [true])
  | closes {b : Bool} (hsect : task.sect = .teardown b) (hopen : w.client.transport ≠ none)
      (hks : Weighs ks 0 0 0 1) (htransport : w'.client.transport = none)
      (hcalls : notifications w'.trace = notifications w.trace)
  | parts (hsect : task.sect = .callback .disconnected) (hks : Weighs ks 0 0 0 0)
      (htransport : w'.client.transport = w.client.transport)
      (hcalls : notifications w'.trace = notifications w.trace ++ [false])

theorem reported_of_idle (h : ∀ k ∈ ks, k.sect.reports = false) : Reported ks = true := by
  induction ks with
  | nil => rfl
  | cons k ks ih =>
      rw [Reported, ih fun k' hk' => h k' (List.mem_cons_of_mem _ hk'), Bool.and_true]
      have hall : (ks.all fun k' => !k'.sect.reports) = true := by
        rw [List.all_eq_true]
        intro k' hk'
        rw [h k' (List.mem_cons_of_mem _ hk'), Bool.not_false]
      rw [hall, Bool.or_true]

theorem weighs_zero (h : ∀ k ∈ ks, k.sect.idle = true) : Weighs ks 0 0 0 0 := by
  have hall : ∀ k ∈ ks, (((k.sect.pending = false ∧ k.sect.opening = false) ∧
      k.sect.announcing = false) ∧ k.sect.parting = false) ∧ k.sect.reports = false := by
    intro k hk
    simpa [Sect.idle] using h k hk
  constructor
  · exact weight_eq_zero fun k hk => by rw [Task.pending, (hall k hk).1.1.1.1, Bool.toNat_false]
  · exact weight_eq_zero fun k hk => by rw [Task.opening, (hall k hk).1.1.1.2, Bool.toNat_false]
  · exact weight_eq_zero fun k hk => by rw [Task.announcing, (hall k hk).1.1.2, Bool.toNat_false]
  · exact weight_eq_zero fun k hk => by rw [Task.parting, (hall k hk).1.2, Bool.toNat_false]
  · exact reported_of_idle fun k hk => (hall k hk).2

theorem idle_handled (client : SoftwareMqttClient) (packet : MqttPacket) :
    (Conn.handled client packet).2.all Sect.idle = true := by
  unfold Conn.handled
  split
  · rfl
  · unfold Conn.handlePublish
    split
    · rfl
    · split
      · rfl
      · split
        · rfl
        · split <;> rfl
  · unfold Conn.handlePublishComplete
    split <;> rfl
  · unfold Conn.handlePublishComplete
    split <;> rfl
  · unfold Conn.handlePubrec
    split <;> rfl
  · unfold Conn.handlePubrel
    split
    · rfl
    · rename_i packetId _
      cases lookup packetId client.pendingQos2 <;> rfl
  · unfold Conn.handleSuback
    split
    · rfl
    · dsimp only
      split <;> rfl
  · unfold Conn.handleUnsuback
    split <;> rfl
  · rfl
  · rfl

theorem transport_handled (client : SoftwareMqttClient) (packet : MqttPacket) :
    (Conn.handled client packet).1.transport = client.transport := by
  unfold Conn.handled
  split
  · unfold Conn.handleConnack
    split
    · rfl
    · split
      · rfl
      · split <;> rfl
  · unfold Conn.handlePublish
    split
    · rfl
    · split
      · rfl
      · split
        · rfl
        · split <;> rfl
  · rfl
  · rfl
  · rfl
  · unfold Conn.handlePubrel
    split <;> rfl
  · unfold Conn.handleSuback
    split <;> rfl
  · unfold Conn.handleUnsuback
    split <;> rfl
  · rfl
  · rfl

/-- A section that leaves the transport and calls nobody. -/
theorem Turns.of_push {o : Origin} {a : ℕ} (h : some (v, o.tasks sects) = some (w', ks))
    (hks : Weighs (o.tasks sects) a task.opening.toNat 0 0) (ha : a ≤ task.pending.toNat)
    (hannouncing : task.announcing = false) (hparting : task.parting = false)
    (htransport : v.client.transport = w.client.transport)
    (hcalls : notifications v.trace = notifications w.trace) : Turns task c w w' ks := by
  obtain ⟨rfl, rfl⟩ := Prod.mk.inj (Option.some.inj h)
  exact .aside hks ha hannouncing hparting htransport hcalls

/-- The same behind a reading of the clock. -/
theorem Turns.of_clock {o : Origin} {ms : Int} {f : Conn → Conn}
    (h : ((w.readClock ms).bind fun w => some (f w, o.tasks sects)) = some (w', ks))
    (hks : Weighs (o.tasks sects) 0 task.opening.toNat 0 0) (hannouncing : task.announcing = false)
    (hparting : task.parting = false)
    (htransport : ∀ v, (f v).client.transport = v.client.transport) (htrace : ∀ v, (f v).trace = v.trace) : Turns task c w w' ks := by
  obtain ⟨v, hclock, h⟩ := Option.bind_eq_some_iff.mp h
  simp only [Conn.readClock] at hclock
  split at hclock
  · obtain rfl := Option.some.inj hclock
    exact .of_push h hks (Nat.zero_le _) hannouncing hparting (htransport _) (by rw [htrace])
  · cases hclock

/-- A delivery comes in front of a section that stays. -/
theorem turns_deliverWithin (h : w.deliverWithin task c = some (w', ks))
    (hannouncing : task.announcing = false) (hparting : task.parting = false)
    (hreports : task.sect.reports = false) : Turns task c w w' ks := by
  simp only [Conn.deliverWithin, Option.map_eq_some_iff, Prod.mk.injEq] at h
  obtain ⟨first, hfirst, rfl, rfl⟩ := h
  have hidle : first.sect.idle = true := by
    cases c with
    | data | closed =>
        simp only [Conn.delivery] at hfirst
        split at hfirst
        · rw [← Option.some.inj hfirst]
          rfl
        · cases hfirst
    | go | now | answer | timeout | call => cases hfirst
  have hzero : Weighs [first] 0 0 0 0 :=
    weighs_zero fun k hk => by rw [List.mem_singleton.mp hk]; exact hidle
  have hweigh : ∀ f : Task → ℕ, weight f [first, task] = weight f [first] + f task := by simp
  have hks : Weighs [first, task] task.pending.toNat task.opening.toNat 0 0 := by
    constructor
    · rw [hweigh, hzero.pending, Nat.zero_add]
    · rw [hweigh, hzero.opening, Nat.zero_add]
    · rw [hweigh, hzero.announcing, hannouncing]
      rfl
    · rw [hweigh, hzero.parting, hparting]
      rfl
    · simp [Reported, hreports]
  exact .aside hks (Nat.le_refl _) hannouncing hparting rfl rfl

theorem turns_call {o : Origin} {call : Call}
    (h : some ((w.call o call).1, o.tasks (w.call o call).2) = some (w', ks)) :
    Turns ⟨o, .call call⟩ c w w' ks := by
  cases call with
  | connect host port cleanSession =>
      simp only [Conn.call, Conn.connect] at h
      split at h
      · exact .of_push h ⟨rfl, rfl, rfl, rfl, rfl⟩ (Nat.zero_le _) rfl rfl rfl rfl
      · rename_i hidle
        obtain ⟨rfl, rfl⟩ := Prod.mk.inj (Option.some.inj h)
        refine .begins rfl ?_ ⟨rfl, rfl, rfl, rfl, rfl⟩ rfl ?_
        · simpa using hidle
        · simp [Event.notification?]
  | publish topic payload qos retain =>
      simp only [Conn.call, Conn.publish] at h
      split at h
      · exact .of_push h ⟨rfl, rfl, rfl, rfl, rfl⟩ (Nat.zero_le _) rfl rfl rfl rfl
      · split at h <;>
          exact .of_push h ⟨rfl, rfl, rfl, rfl, rfl⟩ (Nat.zero_le _) rfl rfl rfl rfl
  | subscribe topic qos =>
      simp only [Conn.call, Conn.subscribe] at h
      split at h <;> exact .of_push h ⟨rfl, rfl, rfl, rfl, rfl⟩ (Nat.zero_le _) rfl rfl rfl rfl
  | unsubscribe topic =>
      simp only [Conn.call, Conn.unsubscribe] at h
      split at h <;> exact .of_push h ⟨rfl, rfl, rfl, rfl, rfl⟩ (Nat.zero_le _) rfl rfl rfl rfl
  | setKeepAlive | setClientId | setCredentials | setWill | setTlsConfig | disconnect =>
      exact .of_push h ⟨rfl, rfl, rfl, rfl, rfl⟩ (Nat.zero_le _) rfl rfl rfl rfl

theorem turns_teardown {o : Origin} {b : Bool}
    (h : some ((w.teardown o b).1, o.tasks (w.teardown o b).2) = some (w', ks)) :
    Turns ⟨o, .teardown b⟩ c w w' ks := by
  obtain ⟨rfl, rfl⟩ := Prod.mk.inj (Option.some.inj h)
  cases ht : w.client.transport with
  | none =>
      have hks : Weighs (o.tasks (w.teardown o b).2) 0 0 0 0 := by
        rw [Conn.teardown, ht]
        exact ⟨rfl, rfl, rfl, rfl, rfl⟩
      exact .aside hks (Nat.zero_le _) rfl rfl ht.symm
        (by simp [Conn.teardown, Event.notification?])
  | some t =>
      refine .closes rfl (by simp [ht]) ?_ rfl (by simp [Conn.teardown, Event.notification?])
      rw [Conn.teardown, ht]
      cases b <;> exact ⟨rfl, rfl, rfl, rfl, rfl⟩

theorem turns_sent {o : Origin} {t : ℕ} {packet : Bytes} {caller : SendCaller} {result : Result ℕ}
    (h : some (w.log o (.sent t packet caller result), o.tasks (Conn.sent caller result)) =
      some (w', ks)) : Turns ⟨o, .sending t packet caller⟩ c w w' ks := by
  cases caller <;> cases result <;>
    exact .of_push h ⟨rfl, rfl, rfl, rfl, rfl⟩ (Nat.zero_le _) rfl rfl rfl
      (by simp [Event.notification?])

theorem turns_packetSent {o : Origin} {caller : SendCaller} {result : Result Unit}
    (h : some (w, o.tasks (Conn.packetSent caller result)) = some (w', ks)) :
    Turns ⟨o, .packetSent caller result⟩ c w w' ks := by
  cases caller with
  | connect =>
      cases result with
      | error e => exact .fails fun _ _ hinTurn => hinTurn
      | ok u => exact .of_push h ⟨rfl, rfl, rfl, rfl, rfl⟩ (Nat.zero_le _) rfl rfl rfl rfl
  | publish | subscribe | unsubscribe | handler | keepAlive | goodbye =>
      cases result <;> exact .of_push h ⟨rfl, rfl, rfl, rfl, rfl⟩ (Nat.zero_le _) rfl rfl rfl rfl

theorem turns_callback {o : Origin} {call : Callback}
    (h : some (w.log o (.callback call), o.tasks [.inCallback]) = some (w', ks)) :
    Turns ⟨o, .callback call⟩ c w w' ks := by
  cases call with
  | connected =>
      obtain ⟨rfl, rfl⟩ := Prod.mk.inj (Option.some.inj h)
      exact .announces rfl ⟨rfl, rfl, rfl, rfl, rfl⟩ rfl (by simp [Event.notification?])
  | disconnected =>
      obtain ⟨rfl, rfl⟩ := Prod.mk.inj (Option.some.inj h)
      exact .parts rfl ⟨rfl, rfl, rfl, rfl, rfl⟩ rfl (by simp [Event.notification?])
  | message | publishAck | error =>
      exact .of_push h ⟨rfl, rfl, rfl, rfl, rfl⟩ (Nat.zero_le _) rfl rfl rfl
        (by simp [Event.notification?])

theorem exec_turns (h : Conn.exec task c w = some (w', ks)) : Turns task c w w' ks := by
  obtain ⟨o, s⟩ := task
  unfold Conn.exec at h
  dsimp only at h
  split at h
  -- calls and `Connect`
  · exact turns_call h
  · rename_i result
    cases result with
    | error e => exact .of_push h ⟨rfl, rfl, rfl, rfl, rfl⟩ (Nat.zero_le 1) rfl rfl rfl rfl
    | ok n =>
        exact .of_push h ⟨rfl, rfl, rfl, rfl, rfl⟩ (Nat.le_refl 1) rfl rfl rfl
          (by simp [Conn.create, Event.notification?])
  · split at h
    · exact .of_push h ⟨rfl, rfl, rfl, rfl, rfl⟩ (Nat.zero_le 1) rfl rfl rfl rfl
    · exact .of_push h ⟨rfl, rfl, rfl, rfl, rfl⟩ (Nat.le_refl 1) rfl rfl rfl rfl
  · exact turns_deliverWithin h rfl rfl rfl
  · obtain ⟨rfl, rfl⟩ := Prod.mk.inj (Option.some.inj h)
    exact .stores rfl ⟨rfl, rfl, rfl, rfl, rfl⟩ (Option.some_ne_none _)
      (by simp [Conn.store, Event.notification?])
  · split at h
    · cases herror : w.client.connackError with
      | none =>
          rw [Conn.wake, herror] at h
          obtain ⟨rfl, rfl⟩ := Prod.mk.inj (Option.some.inj h)
          exact .opens rfl rfl ⟨rfl, rfl, rfl, rfl, rfl⟩ rfl rfl
      | some e =>
          refine .fails fun cfg hshared hinTurn => ?_
          have hnone := hinTurn.1
          rw [hshared, herror] at hnone
          cases hnone
    · cases h
  · exact .fails fun _ _ hinTurn => hinTurn
  -- sending
  · rename_i packet caller
    unfold Conn.sendPacket at h
    split at h <;> cases caller <;>
      exact .of_push h ⟨rfl, rfl, rfl, rfl, rfl⟩ (Nat.zero_le _) rfl rfl rfl rfl
  · rename_i caller
    cases caller <;>
      exact .of_push h ⟨rfl, rfl, rfl, rfl, rfl⟩ (Nat.zero_le _) rfl rfl rfl
        (by simp [Event.notification?])
  · exact turns_sent h
  · exact turns_deliverWithin h rfl rfl rfl
  · exact .of_clock h ⟨rfl, rfl, rfl, rfl, rfl⟩ rfl rfl (fun _ => rfl) fun _ => rfl
  · exact turns_packetSent h
  · exact .of_push h ⟨rfl, rfl, rfl, rfl, rfl⟩ (Nat.zero_le _) rfl rfl rfl rfl
  -- receiving and ending
  · simp only [Conn.onTransportData] at h
    split at h <;>
      exact .of_push h ⟨rfl, rfl, rfl, rfl, rfl⟩ (Nat.zero_le _) rfl rfl rfl
        (by simp [Event.notification?])
  · simp only [Conn.takePackets] at h
    split at h <;>
      exact .of_push h ⟨rfl, rfl, rfl, rfl, rfl⟩ (Nat.zero_le _) rfl rfl rfl
        (by simp [Event.notification?])
  · rename_i number packet
    obtain ⟨rfl, rfl⟩ := Prod.mk.inj (Option.some.inj h)
    have hks : Weighs (w.handlePacket number packet).2 0 0 0 0 := by
      refine weighs_zero fun k hk => ?_
      obtain ⟨s, hs, rfl⟩ := List.mem_map.mp hk
      exact List.all_eq_true.mp (idle_handled w.client packet) s hs
    exact .aside hks (Nat.zero_le _) rfl rfl (transport_handled w.client packet)
      (by simp [Event.notification?])
  · exact turns_teardown h
  · exact .of_push h ⟨rfl, rfl, rfl, rfl, rfl⟩ (Nat.zero_le _) rfl rfl rfl rfl
  · exact .of_push h ⟨rfl, rfl, rfl, rfl, rfl⟩ (Nat.zero_le _) rfl rfl rfl rfl
  · exact .of_push h ⟨rfl, rfl, rfl, rfl, rfl⟩ (Nat.zero_le _) rfl rfl rfl
      (by simp [Event.notification?])
  · exact .of_push h ⟨rfl, rfl, rfl, rfl, rfl⟩ (Nat.zero_le _) rfl rfl rfl rfl
  · exact turns_deliverWithin h rfl rfl rfl
  -- the keep-alive task
  · unfold Conn.startKeepAlive at h
    split at h <;> exact .of_push h ⟨rfl, rfl, rfl, rfl, rfl⟩ (Nat.zero_le _) rfl rfl rfl rfl
  · split at h <;> exact .of_push h ⟨rfl, rfl, rfl, rfl, rfl⟩ (Nat.zero_le _) rfl rfl rfl rfl
  · simp only [Conn.joining] at h
    split at h
    · exact .of_push h ⟨rfl, rfl, rfl, rfl, rfl⟩ (Nat.zero_le _) rfl rfl rfl rfl
    · cases h
  · exact .of_push h ⟨rfl, rfl, rfl, rfl, rfl⟩ (Nat.zero_le _) rfl rfl rfl rfl
  · simp only [Conn.createTask] at h
    split at h
    · exact .of_push h ⟨rfl, rfl, rfl, rfl, rfl⟩ (Nat.zero_le _) rfl rfl rfl rfl
    · cases h
  · unfold Conn.keepAliveBegin at h
    split at h <;> exact .of_push h ⟨rfl, rfl, rfl, rfl, rfl⟩ (Nat.zero_le _) rfl rfl rfl rfl
  · split at h <;> exact .of_push h ⟨rfl, rfl, rfl, rfl, rfl⟩ (Nat.zero_le _) rfl rfl rfl rfl
  · split at h <;> exact .of_push h ⟨rfl, rfl, rfl, rfl, rfl⟩ (Nat.zero_le _) rfl rfl rfl rfl
  · exact .of_clock h ⟨rfl, rfl, rfl, rfl, rfl⟩ rfl rfl (fun _ => rfl) fun _ => rfl
  · unfold Conn.keepAlivePing at h
    split at h
    · exact .of_push h ⟨rfl, rfl, rfl, rfl, rfl⟩ (Nat.zero_le _) rfl rfl rfl rfl
    · split at h <;> exact .of_push h ⟨rfl, rfl, rfl, rfl, rfl⟩ (Nat.zero_le _) rfl rfl rfl rfl
  · unfold Conn.keepAliveIdle at h
    split at h <;> exact .of_push h ⟨rfl, rfl, rfl, rfl, rfl⟩ (Nat.zero_le _) rfl rfl rfl rfl
  · exact .of_push h ⟨rfl, rfl, rfl, rfl, rfl⟩ (Nat.zero_le _) rfl rfl rfl rfl
  · exact .of_push h ⟨rfl, rfl, rfl, rfl, rfl⟩ (Nat.zero_le _) rfl rfl rfl rfl
  -- callbacks
  · exact turns_callback h
  · exact .of_push h ⟨rfl, rfl, rfl, rfl, rfl⟩ (Nat.zero_le _) rfl rfl rfl rfl
  · obtain ⟨rfl, rfl⟩ := Prod.mk.inj (Option.some.inj h)
    have hks : Weighs [(w.newCall ‹_›).2, ⟨o, .inCallback⟩] 0 0 0 0 := ⟨rfl, rfl, rfl, rfl, rfl⟩
    exact .aside hks (Nat.zero_le _) rfl rfl rfl (by simp [Conn.newCall, Event.notification?])
  · exact .of_push h ⟨rfl, rfl, rfl, rfl, rfl⟩ (Nat.zero_le _) rfl rfl rfl
      (by simp [Event.notification?])
  · cases h

theorem exec_dropTopic (h : Conn.exec task c w = some (w', ks)) (hdrops : task.sect.drops = true) :
    ks = [] := by
  obtain ⟨o, s⟩ := task
  cases s with
  | dropTopic packetId =>
      cases c with
      | go => exact (Prod.mk.inj (Option.some.inj h)).2.symm
      | now | answer | data | closed | timeout | call => cases h
  | _ => cases hdrops

/-! ## The calls over a run -/

/-- 1 for a stored transport. -/
def stored (cfg : Config) : ℕ := if cfg.shared.client.transport ≠ none then 1 else 0

/-- How much of `Connect` is under way, and how many calls are due. -/
def pending (cfg : Config) : ℕ := load (fun task => task.pending.toNat) cfg
def opening (cfg : Config) : ℕ := load (fun task => task.opening.toNat) cfg
def announcing (cfg : Config) : ℕ := load (fun task => task.announcing.toNat) cfg
def parting (cfg : Config) : ℕ := load (fun task => task.parting.toNat) cfg

/-- The calls that were made and those that are due agree with the session, which is open on a
stored transport that no `Connect` still waits for the broker on. -/
structure Kept (cfg : Config) : Prop where
  ledger : Ledger (stored cfg - opening cfg) (announcing cfg) (parting cfg)
    (notifications cfg.shared.trace)
  opening_le : opening cfg ≤ stored cfg
  pending_le : pending cfg + stored cfg ≤ 1
  reported : ∀ q ∈ cfg.threads, Reported q = true

section

variable {cfg : Config} {i : ℕ} {rest : List Task} {a b d e : ℕ}

theorem pending_run (w' : Conn) (hget : cfg.threads[i]? = some (task :: rest))
    (hks : Weighs ks a b d e) :
    pending ⟨w', cfg.threads.set i (ks ++ rest)⟩ + task.pending.toNat = pending cfg + a := by
  rw [pending, load_run _ hget, hks.pending]
  rfl

theorem opening_run (w' : Conn) (hget : cfg.threads[i]? = some (task :: rest))
    (hks : Weighs ks a b d e) :
    opening ⟨w', cfg.threads.set i (ks ++ rest)⟩ + task.opening.toNat = opening cfg + b := by
  rw [opening, load_run _ hget, hks.opening]
  rfl

theorem announcing_run (w' : Conn) (hget : cfg.threads[i]? = some (task :: rest))
    (hks : Weighs ks a b d e) :
    announcing ⟨w', cfg.threads.set i (ks ++ rest)⟩ + task.announcing.toNat =
      announcing cfg + d := by
  rw [announcing, load_run _ hget, hks.announcing]
  rfl

theorem parting_run (w' : Conn) (hget : cfg.threads[i]? = some (task :: rest))
    (hks : Weighs ks a b d e) :
    parting ⟨w', cfg.threads.set i (ks ++ rest)⟩ + task.parting.toNat = parting cfg + e := by
  rw [parting, load_run _ hget, hks.parting]
  rfl

theorem reported_append (hks : Reported ks = true) (hrest : Reported rest = true)
    (hnone : ks = [] ∨ (rest.all fun k => !k.sect.reports) = true) :
    Reported (ks ++ rest) = true := by
  induction ks with
  | nil => exact hrest
  | cons k ks ih =>
      have hnone := hnone.resolve_left (List.cons_ne_nil k ks)
      rw [Reported, Bool.and_eq_true] at hks
      rw [List.cons_append, Reported, Bool.and_eq_true, List.all_append, hnone, Bool.and_true]
      exact ⟨hks.1, ih hks.2 (.inr hnone)⟩

theorem Kept.reported_run (h : Kept cfg) (hget : cfg.threads[i]? = some (task :: rest))
    (hks : Reported ks = true) (hdrops : task.sect.drops = true → ks = []) :
    ∀ q ∈ cfg.threads.set i (ks ++ rest), Reported q = true := by
  intro q hq
  obtain rfl | ⟨j, -, hj⟩ := mem_set_cases hq
  · have hfront := h.reported _ (List.mem_of_getElem? hget)
    rw [Reported, Bool.and_eq_true, Bool.or_eq_true] at hfront
    exact reported_append hks hfront.2 (hfront.1.imp_left hdrops)
  · exact h.reported q (List.mem_of_getElem? hj)

theorem stored_of_some (h : cfg.shared.client.transport ≠ none) : stored cfg = 1 := if_pos h

theorem stored_of_none (h : cfg.shared.client.transport = none) : stored cfg = 0 :=
  if_neg (not_not.mpr h)

theorem Kept.run (h : Kept cfg) (hget : cfg.threads[i]? = some (task :: rest))
    (hinTurn : task.sect.InTurn cfg c) (hturns : Turns task c cfg.shared w' ks)
    (hdrops : task.sect.drops = true → ks = []) : Kept ⟨w', cfg.threads.set i (ks ++ rest)⟩ := by
  obtain ⟨o, s⟩ := task
  have hledger := h.ledger
  have hopening := h.opening_le
  have hpending := h.pending_le
  cases hturns with
  | aside hks hle hannouncing hparting htransport hcalls =>
      have ha := pending_run w' hget hks
      have hb := Nat.add_right_cancel (opening_run w' hget hks)
      have hd := announcing_run w' hget hks
      have he := parting_run w' hget hks
      rw [hannouncing] at hd
      rw [hparting] at he
      have hstored : stored ⟨w', cfg.threads.set i (ks ++ rest)⟩ = stored cfg := by
        simp only [stored, htransport]
      refine ⟨?_, by omega, by omega, h.reported_run hget hks.reported hdrops⟩
      rw [hstored, hb, Nat.add_right_cancel hd, Nat.add_right_cancel he, hcalls]
      exact hledger
  | fails hfails => exact absurd hinTurn (hfails cfg rfl)
  | begins hsect hidle hks htransport hcalls =>
      obtain rfl : s = _ := hsect
      have hfree : pending cfg = 0 := (hinTurn hidle).load_eq_zero
      have hnone : stored cfg = 0 := stored_of_none hidle.2
      have ha : pending ⟨w', cfg.threads.set i (ks ++ rest)⟩ = pending cfg + 1 :=
        pending_run w' hget hks
      have hb : opening ⟨w', cfg.threads.set i (ks ++ rest)⟩ = opening cfg :=
        opening_run w' hget hks
      have hd : announcing ⟨w', cfg.threads.set i (ks ++ rest)⟩ = announcing cfg :=
        announcing_run w' hget hks
      have he : parting ⟨w', cfg.threads.set i (ks ++ rest)⟩ = parting cfg :=
        parting_run w' hget hks
      have hstored : stored ⟨w', cfg.threads.set i (ks ++ rest)⟩ = stored cfg := by
        simp only [stored, htransport]
      refine ⟨?_, by omega, by omega, h.reported_run hget hks.reported hdrops⟩
      rw [hstored, hb, hd, he, hcalls]
      exact hledger
  | stores hsect hks htransport hcalls =>
      obtain rfl : s = _ := hsect
      have ha : pending ⟨w', cfg.threads.set i (ks ++ rest)⟩ + 1 = pending cfg :=
        pending_run w' hget hks
      have hb : opening ⟨w', cfg.threads.set i (ks ++ rest)⟩ = opening cfg + 1 :=
        opening_run w' hget hks
      have hd : announcing ⟨w', cfg.threads.set i (ks ++ rest)⟩ = announcing cfg :=
        announcing_run w' hget hks
      have he : parting ⟨w', cfg.threads.set i (ks ++ rest)⟩ = parting cfg :=
        parting_run w' hget hks
      have hstored : stored ⟨w', cfg.threads.set i (ks ++ rest)⟩ = 1 := stored_of_some htransport
      refine ⟨?_, by omega, by omega, h.reported_run hget hks.reported hdrops⟩
      have hsame : 1 - (opening cfg + 1) = stored cfg - opening cfg := by omega
      rw [hstored, hb, hd, he, hcalls, hsame]
      exact hledger
  | opens hsect hgo hks htransport hcalls =>
      obtain rfl : s = _ := hsect
      subst hgo
      have hfree : parting cfg = 0 := (hinTurn.2).load_eq_zero
      have ha : pending ⟨w', cfg.threads.set i (ks ++ rest)⟩ = pending cfg :=
        pending_run w' hget hks
      have hb : opening ⟨w', cfg.threads.set i (ks ++ rest)⟩ + 1 = opening cfg :=
        opening_run w' hget hks
      have hd : announcing ⟨w', cfg.threads.set i (ks ++ rest)⟩ = announcing cfg + 1 :=
        announcing_run w' hget hks
      have he : parting ⟨w', cfg.threads.set i (ks ++ rest)⟩ = parting cfg :=
        parting_run w' hget hks
      have hstored : stored ⟨w', cfg.threads.set i (ks ++ rest)⟩ = stored cfg := by
        simp only [stored, htransport]
      refine ⟨?_, by omega, by omega, h.reported_run hget hks.reported hdrops⟩
      have hclosed : stored cfg - opening cfg = 0 := by omega
      have hopened : stored cfg - opening ⟨w', cfg.threads.set i (ks ++ rest)⟩ = 1 := by omega
      rw [hclosed] at hledger
      rw [hstored, hopened, hd, he, hcalls]
      exact hledger.whenOpened hfree
  | announces hsect hks htransport hcalls =>
      obtain rfl : s = _ := hsect
      have ha : pending ⟨w', cfg.threads.set i (ks ++ rest)⟩ = pending cfg :=
        pending_run w' hget hks
      have hb : opening ⟨w', cfg.threads.set i (ks ++ rest)⟩ = opening cfg :=
        opening_run w' hget hks
      have hd : announcing ⟨w', cfg.threads.set i (ks ++ rest)⟩ + 1 = announcing cfg :=
        announcing_run w' hget hks
      have he : parting ⟨w', cfg.threads.set i (ks ++ rest)⟩ = parting cfg :=
        parting_run w' hget hks
      have hstored : stored ⟨w', cfg.threads.set i (ks ++ rest)⟩ = stored cfg := by
        simp only [stored, htransport]
      refine ⟨?_, by omega, by omega, h.reported_run hget hks.reported hdrops⟩
      rw [← hd] at hledger
      rw [hstored, hb, he, hcalls]
      exact hledger.callOpen
  | closes hsect hopen hks htransport hcalls =>
      obtain rfl : s = _ := hsect
      obtain ⟨hfree, hfree'⟩ := hinTurn hopen
      have hnoOpening : opening cfg = 0 := hfree.load_eq_zero
      have hnoAnnouncing : announcing cfg = 0 := hfree'.load_eq_zero
      have hsome : stored cfg = 1 := stored_of_some hopen
      have ha : pending ⟨w', cfg.threads.set i (ks ++ rest)⟩ = pending cfg :=
        pending_run w' hget hks
      have hb : opening ⟨w', cfg.threads.set i (ks ++ rest)⟩ = opening cfg :=
        opening_run w' hget hks
      have hd : announcing ⟨w', cfg.threads.set i (ks ++ rest)⟩ = announcing cfg :=
        announcing_run w' hget hks
      have he : parting ⟨w', cfg.threads.set i (ks ++ rest)⟩ = parting cfg + 1 :=
        parting_run w' hget hks
      have hstored : stored ⟨w', cfg.threads.set i (ks ++ rest)⟩ = 0 := stored_of_none htransport
      refine ⟨?_, by omega, by omega, h.reported_run hget hks.reported hdrops⟩
      rw [hsome, hnoOpening] at hledger
      rw [hstored, hb, hnoOpening, hd, he, hcalls]
      exact hledger.whenClosed hnoAnnouncing
  | parts hsect hks htransport hcalls =>
      obtain rfl : s = _ := hsect
      have ha : pending ⟨w', cfg.threads.set i (ks ++ rest)⟩ = pending cfg :=
        pending_run w' hget hks
      have hb : opening ⟨w', cfg.threads.set i (ks ++ rest)⟩ = opening cfg :=
        opening_run w' hget hks
      have hd : announcing ⟨w', cfg.threads.set i (ks ++ rest)⟩ = announcing cfg :=
        announcing_run w' hget hks
      have he : parting ⟨w', cfg.threads.set i (ks ++ rest)⟩ + 1 = parting cfg :=
        parting_run w' hget hks
      have hstored : stored ⟨w', cfg.threads.set i (ks ++ rest)⟩ = stored cfg := by
        simp only [stored, htransport]
      refine ⟨?_, by omega, by omega, h.reported_run hget hks.reported hdrops⟩
      rw [← he] at hledger
      rw [hstored, hb, hd, hcalls]
      exact hledger.callClosed

/-- A thread begins with no `Connect` under way and no call due. -/
theorem Kept.start (h : Kept cfg) {entry : Entry} {q : List Task}
    (hentry : Conn.entry entry cfg.shared = some (w', q)) : Kept ⟨w', cfg.threads ++ [q]⟩ := by
  have heffect : Weighs q 0 0 0 0 ∧ w'.client.transport = cfg.shared.client.transport ∧
      notifications w'.trace = notifications cfg.shared.trace := by
    cases entry with
    | call call =>
        obtain ⟨rfl, rfl⟩ := Prod.mk.inj (Option.some.inj hentry)
        exact ⟨⟨rfl, rfl, rfl, rfl, rfl⟩, rfl, by simp [Conn.newCall, Event.notification?]⟩
    | data | closed =>
        simp only [Conn.entry, Conn.delivery, Option.map_eq_some_iff, Prod.mk.injEq] at hentry
        obtain ⟨first, hfirst, rfl, rfl⟩ := hentry
        split at hfirst
        · obtain rfl := Option.some.inj hfirst
          exact ⟨⟨rfl, rfl, rfl, rfl, rfl⟩, rfl, rfl⟩
        · cases hfirst
    | keepAlive =>
        simp only [Conn.entry] at hentry
        split at hentry
        · obtain ⟨rfl, rfl⟩ := Prod.mk.inj (Option.some.inj hentry)
          exact ⟨⟨rfl, rfl, rfl, rfl, rfl⟩, rfl, rfl⟩
        · cases hentry
  obtain ⟨hq, htransport, hcalls⟩ := heffect
  have ha : pending ⟨w', cfg.threads ++ [q]⟩ = pending cfg :=
    (load_start _ cfg.shared _ _ _).trans (by rw [hq.pending]; rfl)
  have hb : opening ⟨w', cfg.threads ++ [q]⟩ = opening cfg :=
    (load_start _ cfg.shared _ _ _).trans (by rw [hq.opening]; rfl)
  have hd : announcing ⟨w', cfg.threads ++ [q]⟩ = announcing cfg :=
    (load_start _ cfg.shared _ _ _).trans (by rw [hq.announcing]; rfl)
  have he : parting ⟨w', cfg.threads ++ [q]⟩ = parting cfg :=
    (load_start _ cfg.shared _ _ _).trans (by rw [hq.parting]; rfl)
  have hstored : stored ⟨w', cfg.threads ++ [q]⟩ = stored cfg := by simp only [stored, htransport]
  refine ⟨?_, ?_, ?_, ?_⟩
  · rw [hstored, hb, hd, he, hcalls]
    exact h.ledger
  · rw [hb, hstored]
    exact h.opening_le
  · rw [ha, hstored]
    exact h.pending_le
  · intro p hp
    obtain hp | hp := List.mem_append.mp hp
    · exact h.reported p hp
    · rw [List.mem_singleton.mp hp]
      exact hq.reported

theorem Kept.step {cfg' : Config} {l : Label} (h : Kept cfg) (hinTurn : InTurn cfg l)
    (hstep : program.step cfg l = some cfg') : Kept cfg' := by
  obtain ⟨e, s', q, rfl, hentry, rfl⟩ | ⟨i, c, task, rest, s', ks, rfl, hget, hexec, rfl⟩ :=
    Program.step_cases hstep
  · exact h.start hentry
  · exact h.run hget (hinTurn task (Label.front_run hget c)) (exec_turns hexec)
      (exec_dropTopic hexec)

theorem kept_initial : Kept initial :=
  ⟨ledger_nil, Nat.le_refl 0, Nat.zero_le 1, List.forall_mem_nil _⟩

theorem pairwise_of_reported {q : List Task} (h : Reported q = true) : q.Pairwise fun due report =>
    report.sect.reports = true → due.announcing = false ∧ due.parting = false := by
  induction q with
  | nil => exact .nil
  | cons k ks ih =>
      rw [Reported, Bool.and_eq_true, Bool.or_eq_true] at h
      refine .cons (fun report hreport hreports => ?_) (ih h.2)
      obtain hdrops | hnone := h.1
      · obtain ⟨o, s⟩ := k
        cases s <;> first | exact ⟨rfl, rfl⟩ | cases hdrops
      · have hnot := List.all_eq_true.mp hnone report hreport
        rw [hreports] at hnot
        cases hnot

theorem Kept.notified (h : Kept cfg) : Notified cfg :=
  ⟨h.ledger.alternates, fun q hq => pairwise_of_reported (h.reported q hq)⟩

end

/-- On steps that `ok` admits, `on_connected` and `on_disconnected` alternate in every state. -/
def NotifiesInTurn (ok : Config → Label → Prop) : Prop :=
  ∀ ls, Runs.Along program.step (fun cfg l _ => ok cfg l) initial ls →
    Runs.Along program.step (fun _ _ cfg => Notified cfg) initial ls

theorem notifiesInTurn : NotifiesInTurn InTurn := by
  intro ls hok
  refine hok.mono (I := Kept) ?_ kept_initial
  intro cfg l cfg' hkept hinTurn hstep
  have hkept' := hkept.step hinTurn hstep
  exact ⟨hkept', hkept'.notified⟩

end EspModemLink.Mqtt
