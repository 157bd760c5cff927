import EspModemLink.Library.Heartbeat
import EspModemLink.Mqtt.ClientSteps

/-!
# The keep-alive task of the MQTT client

The pings of the keep-alive task and what becomes of `ping_sent_ms_`. At most one thread runs the
loop, and it takes the broker for dead only for a PINGREQ that has waited for a whole interval.
-/

namespace EspModemLink.Mqtt

open Bytes Http Heartbeat

/-! ## Pings -/

/-- What a section does about PINGREQ and PINGRESP. The deadline of a PINGREQ counts from the clock
value that is stored for it. -/
def beatOf (i : ℕ) (task : Task) (c : Choice) : Beat :=
  match task.sect, c with
  | .transportSend _ _ (.keepAlive ..), .go => .begins i
  | .sending _ _ (.keepAlive _ now), .answer (.ok _) => .stamps i now
  | .sending _ _ (.keepAlive ..), .answer (.error _) => .aborts i
  | .storePing now, .go => .stores i now
  | .handlePacket _ packet, .go => if packet.header.type = .kPingresp then .answered else .quiet
  | .clearPing, .go => .cleared
  | _, _ => .quiet

/-- What a step does about them. -/
def beat (cfg : Config) : Label → Beat
  | .start _ => .quiet
  | .run i c =>
      match cfg.threads[i]? with
      | some (task :: _) => beatOf i task c
      | _ => .quiet

/-- The client with its pings beside it. -/
def pinging : Runs.Step (List Ping × Config) Label :=
  Runs.monitored program.step fun pings cfg l _ => after pings (beat cfg l)

/-- The clock value that a step of the loop reads, with its interval. -/
def readsNow (cfg : Config) : Label → Option (Int × Int)
  | .run i (.now ms) =>
      match cfg.threads[i]? with
      | some (⟨_, .keepAliveNow interval⟩ :: _) => some (ms, interval)
      | _ => none
  | _ => none

/-- The clock value and the interval that a step of the loop compares `ping_sent_ms_` with. -/
def compares (cfg : Config) : Label → Option (Int × Int)
  | .run i .go =>
      match cfg.threads[i]? with
      | some (⟨_, .keepAlivePing interval now⟩ :: _) => some (now, interval)
      | _ => none
  | _ => none

/-- When the loop reads the clock, every PINGREQ has been answered or has not waited for the
interval. -/
def AnsweredInTime (s : List Ping × Config) (l : Label) : Prop :=
  ∀ r ∈ readsNow s.2 l, Within s.1 r.1 r.2

instance (s : List Ping × Config) (l : Label) : Decidable (AnsweredInTime s l) :=
  inferInstanceAs (Decidable (∀ r ∈ readsNow s.2 l, Within s.1 r.1 r.2))

/-- The time of a PINGREQ is stored while the PINGREQ is still to be answered. -/
def StoresPing (s : List Ping × Config) (l : Label) : Prop := StoresStanding s.1 (beat s.2 l)

instance (s : List Ping × Config) (l : Label) : Decidable (StoresPing s l) :=
  inferInstanceAs (Decidable (StoresStanding _ _))

/-- The loop takes the branch that reports that the broker does not answer and tears the connection
down. -/
def TimesOut (cfg : Config) (l : Label) : Prop :=
  ∃ r ∈ compares cfg l, cfg.shared.client.pingSentMs ≠ 0 ∧
    r.2 ≤ r.1 - cfg.shared.client.pingSentMs

instance (cfg : Config) (l : Label) : Decidable (TimesOut cfg l) :=
  inferInstanceAs (Decidable (∃ r ∈ compares cfg l, _))

/-- That branch, and no other of the loop, reports a timeout. -/
theorem timesOut_iff {cfg : Config} {i : ℕ} {o : Origin} {interval now : Int} {ks : List Task}
    (hget : cfg.threads[i]? = some (⟨o, .keepAlivePing interval now⟩ :: ks)) :
    TimesOut cfg (.run i .go) ↔
      .callback (.error Conn.pingTimeout) ∈ cfg.shared.keepAlivePing interval now := by
  simp only [TimesOut, compares, hget, Option.mem_def, Option.some.injEq, exists_eq_left']
  simp only [Conn.keepAlivePing]
  split
  · rename_i hzero
    simp [hzero]
  · rename_i hmarker
    split
    · rename_i hlate
      simp [hmarker, hlate]
    · rename_i hlate
      simp [hlate]

/-! ## The thread of the loop -/

/-- A section of `KeepAliveLoop`, with the `SendPacket` of its PINGREQ. -/
def inLoop (task : Task) : ℕ :=
  match task.sect with
  | .keepAliveBegin | .keepAliveLoop _ | .keepAliveTick _ | .keepAliveNow _ | .keepAlivePing ..
  | .keepAliveIdle .. | .keepAliveEnd | .sendPacket _ (.keepAlive ..)
  | .transportSend _ _ (.keepAlive ..) | .sending _ _ (.keepAlive ..)
  | .packetSent (.keepAlive ..) _ => 1
  | _ => 0

/-- What a section does about `keepalive_task_`: nothing, and it stays in the loop if it was in it;
or it ends the loop; or it lets go of a task or makes one while none runs. -/
inductive LoopStep (task : Task) (w w' : Conn) (ks : List Task) : Prop
  | stays (hstatus : w'.client.keepAliveTask = w.client.keepAliveTask)
      (hloop : Sections.weight inLoop ks = inLoop task)
  | ends (htask : inLoop task = 1) (hstatus : w'.client.keepAliveTask = some .finished)
      (hloop : Sections.weight inLoop ks = 0)
  | swaps (hstatus : w.client.keepAliveTask ≠ some .running)
      (hstatus' : w'.client.keepAliveTask ≠ some .running) (htask : inLoop task = 0)
      (hloop : Sections.weight inLoop ks = 0)

/-- What a section does about the keep-alive: to the marker, to checks under way, and to the
loop. -/
structure Beats (i : ℕ) (task : Task) (c : Choice) (w w' : Conn) (ks : List Task) : Prop where
  marker : w'.client.pingSentMs = mark w.client.pingSentMs (beatOf i task c)
  checks : ∀ k ∈ ks, ∀ interval now, k.sect = .keepAlivePing interval now →
    task.sect = .keepAliveNow interval ∧ c = .now now
  loop : LoopStep task w w' ks

variable {i : ℕ} {task : Task} {c : Choice} {w w' : Conn} {ks : List Task}

/-- A section of the client that has nothing to do with the keep-alive. -/
def Sect.apart (s : Sect) : Bool :=
  match s with
  | .keepAliveBegin | .keepAliveLoop _ | .keepAliveTick _ | .keepAliveNow _ | .keepAlivePing ..
  | .keepAliveIdle .. | .keepAliveEnd | .sendPacket _ (.keepAlive ..)
  | .transportSend _ _ (.keepAlive ..) | .sending _ _ (.keepAlive ..)
  | .packetSent (.keepAlive ..) _ => false
  | _ => true

theorem inLoop_of_apart {task : Task} (h : task.sect.apart = true) : inLoop task = 0 := by
  obtain ⟨o, s⟩ := task
  unfold inLoop
  unfold Sect.apart at h
  split at h <;> simp_all

theorem weight_of_apart {ks : List Task} (h : ∀ k ∈ ks, k.sect.apart = true) :
    Sections.weight inLoop ks = 0 :=
  Sections.weight_eq_zero fun k hk => inLoop_of_apart (h k hk)

theorem apart_tasks (o : Origin) {sects : List Sect} (h : sects.all Sect.apart = true) :
    ∀ k ∈ o.tasks sects, k.sect.apart = true := by
  intro k hk
  obtain ⟨s, hs, rfl⟩ := List.mem_map.mp hk
  exact List.all_eq_true.mp h s hs

/-- A section apart from the keep-alive that leaves such sections. -/
theorem Beats.apart (htask : task.sect.apart = true) (hks : ∀ k ∈ ks, k.sect.apart = true)
    (hmarker : w'.client.pingSentMs = mark w.client.pingSentMs (beatOf i task c))
    (hstatus : w'.client.keepAliveTask = w.client.keepAliveTask) : Beats i task c w w' ks := by
  refine ⟨hmarker, ?_, .stays hstatus ?_⟩
  · intro k hk interval now hsect
    have := hks k hk
    rw [hsect] at this
    cases this
  · rw [weight_of_apart hks, inLoop_of_apart htask]

/-- The same for a section that leaves its own. -/
theorem Beats.of_push {v : Conn} {sects : List Sect}
    (h : some (v, task.origin.tasks sects) = some (w', ks)) (htask : task.sect.apart = true)
    (hsects : sects.all Sect.apart = true)
    (hmarker : v.client.pingSentMs = mark w.client.pingSentMs (beatOf i task c))
    (hstatus : v.client.keepAliveTask = w.client.keepAliveTask) : Beats i task c w w' ks := by
  obtain ⟨rfl, rfl⟩ := Prod.mk.inj (Option.some.inj h)
  exact .apart htask (apart_tasks _ hsects) hmarker hstatus

/-- A section of the loop that leaves one section of the loop. -/
theorem Beats.of_loop {v : Conn} {sects : List Sect}
    (h : some (v, task.origin.tasks sects) = some (w', ks))
    (hmarker : v.client.pingSentMs = mark w.client.pingSentMs (beatOf i task c))
    (hchecks : ∀ s ∈ sects, ∀ interval now, s ≠ .keepAlivePing interval now)
    (hstatus : v.client.keepAliveTask = w.client.keepAliveTask)
    (hloop : Sections.weight inLoop (task.origin.tasks sects) = inLoop task) :
    Beats i task c w w' ks := by
  obtain ⟨rfl, rfl⟩ := Prod.mk.inj (Option.some.inj h)
  refine ⟨hmarker, ?_, .stays hstatus hloop⟩
  intro k hk interval now hsect
  obtain ⟨s, hs, rfl⟩ := List.mem_map.mp hk
  exact absurd hsect (hchecks s hs interval now)

/-- A delivery within a call is no beat. -/
theorem beatOf_delivery {first : Task} (h : w.delivery c = some first) :
    beatOf i task c = .quiet ∧ first.sect.apart = true := by
  cases c with
  | data | closed =>
      simp only [Conn.delivery] at h
      split at h
      · obtain rfl := Option.some.inj h
        refine ⟨?_, rfl⟩
        unfold beatOf
        split <;> first | rfl | contradiction
      · cases h
  | go | now | answer | timeout | call => cases h

/-- A section that a delivery comes in front of. -/
theorem Beats.of_deliverWithin (h : w.deliverWithin task c = some (w', ks))
    (htask : ∀ interval now, task.sect ≠ .keepAlivePing interval now) : Beats i task c w w' ks := by
  simp only [Conn.deliverWithin, Option.map_eq_some_iff, Prod.mk.injEq] at h
  obtain ⟨first, hfirst, rfl, rfl⟩ := h
  obtain ⟨hbeat, hapart⟩ : beatOf i task c = .quiet ∧ first.sect.apart = true :=
    beatOf_delivery hfirst
  refine ⟨by rw [hbeat]; rfl, ?_, .stays rfl ?_⟩
  · intro k hk interval now hsect
    obtain rfl | rfl : k = first ∨ k = task := by simpa using hk
    · rw [hsect] at hapart
      cases hapart
    · exact absurd hsect (htask interval now)
  · simp [inLoop_of_apart hapart]

theorem apart_call (o : Origin) (c : Call) : (w.call o c).2.all Sect.apart = true := by
  cases c with
  | connect | subscribe | unsubscribe =>
      simp only [Conn.call, Conn.connect, Conn.subscribe, Conn.unsubscribe]
      split <;> rfl
  | publish =>
      simp only [Conn.call, Conn.publish]
      split
      · rfl
      · split <;> rfl
  | setKeepAlive | setClientId | setCredentials | setWill | setTlsConfig | disconnect =>
      rfl

theorem same_call (o : Origin) (c : Call) :
    (w.call o c).1.client.pingSentMs = w.client.pingSentMs ∧
      (w.call o c).1.client.keepAliveTask = w.client.keepAliveTask := by
  cases c with
  | connect | subscribe | unsubscribe =>
      simp only [Conn.call, Conn.connect, Conn.subscribe, Conn.unsubscribe]
      split <;> exact ⟨rfl, rfl⟩
  | publish =>
      simp only [Conn.call, Conn.publish]
      split
      · exact ⟨rfl, rfl⟩
      · split <;> exact ⟨rfl, rfl⟩
  | setKeepAlive | setClientId | setCredentials | setWill | setTlsConfig | disconnect =>
      exact ⟨rfl, rfl⟩

/-- A handler clears the marker for a PINGRESP only, and leaves sections apart from the loop. -/
theorem handled_beats (client : SoftwareMqttClient) (p : MqttPacket) :
    (Conn.handled client p).1.pingSentMs =
        mark client.pingSentMs (if p.header.type = .kPingresp then .answered else .quiet) ∧
      (Conn.handled client p).1.keepAliveTask = client.keepAliveTask ∧
      (Conn.handled client p).2.all Sect.apart = true := by
  cases htype : p.header.type with
  | kConnack =>
      simp only [Conn.handled, htype, Conn.handleConnack]
      split
      · exact ⟨rfl, rfl, rfl⟩
      · split
        · exact ⟨rfl, rfl, rfl⟩
        · split <;> exact ⟨rfl, rfl, rfl⟩
  | kPublish =>
      simp only [Conn.handled, htype, Conn.handlePublish]
      split
      · exact ⟨rfl, rfl, rfl⟩
      · split
        · exact ⟨rfl, rfl, rfl⟩
        · split
          · exact ⟨rfl, rfl, rfl⟩
          · split <;> exact ⟨rfl, rfl, rfl⟩
  | kPuback | kPubcomp =>
      simp only [Conn.handled, htype, Conn.handlePublishComplete]
      cases parsePacketId p.body <;> exact ⟨rfl, trivial, rfl⟩
  | kPubrec =>
      simp only [Conn.handled, htype, Conn.handlePubrec]
      cases parsePacketId p.body <;> exact ⟨rfl, trivial, rfl⟩
  | kPubrel =>
      simp only [Conn.handled, htype, Conn.handlePubrel]
      split
      · exact ⟨rfl, rfl, rfl⟩
      · rename_i packetId _
        refine ⟨rfl, rfl, ?_⟩
        cases lookup packetId client.pendingQos2 <;> rfl
  | kSuback =>
      simp only [Conn.handled, htype, Conn.handleSuback]
      split
      · exact ⟨rfl, rfl, rfl⟩
      · refine ⟨rfl, rfl, ?_⟩
        split <;> rfl
  | kUnsuback =>
      simp only [Conn.handled, htype, Conn.handleUnsuback]
      split <;> exact ⟨rfl, rfl, rfl⟩
  | kPingresp =>
      simp only [Conn.handled, htype]
      exact ⟨rfl, trivial, rfl⟩
  | kReserved0 | kConnect | kSubscribe | kUnsubscribe | kPingreq | kDisconnect | kReserved15 =>
      simp only [Conn.handled, htype]
      exact ⟨rfl, trivial, rfl⟩

theorem Beats.of_clock {ms : Int} {f : Conn → Conn} {sects : List Sect}
    (h : ((w.readClock ms).bind fun w => some (f w, task.origin.tasks sects)) = some (w', ks))
    (hbeats : ∀ v, v.client = w.client →
      some (f v, task.origin.tasks sects) = some (w', ks) → Beats i task c w w' ks) :
    Beats i task c w w' ks := by
  obtain ⟨v, hclock, h⟩ := Option.bind_eq_some_iff.mp h
  apply hbeats v _ h
  simp only [Conn.readClock] at hclock
  split at hclock
  · obtain rfl := Option.some.inj hclock
    rfl
  · cases hclock

/-- The sections of `SendPacket` belong to the loop if its PINGREQ is what they send. -/
theorem beats_sendPacket {o : Origin} {packet : Bytes} {caller : SendCaller}
    (h : some (w, o.tasks (w.sendPacket packet caller)) = some (w', ks)) :
    Beats i ⟨o, .sendPacket packet caller⟩ .go w w' ks := by
  by_cases hcaller : (Sect.sendPacket packet caller).apart = true
  · apply Beats.of_push h hcaller _ rfl rfl
    cases ht : w.client.transport with
    | none => cases caller <;> simp_all [Conn.sendPacket, Sect.apart]
    | some t => cases caller <;> simp_all [Conn.sendPacket, Sect.apart]
  · cases caller with
    | keepAlive interval now =>
        apply Beats.of_loop h rfl _ rfl
        · cases ht : w.client.transport <;> simp [Conn.sendPacket, ht, Origin.tasks, inLoop]
        · cases ht : w.client.transport <;> simp [Conn.sendPacket, ht]
    | connect | publish | subscribe | unsubscribe | handler | goodbye => exact absurd rfl hcaller

theorem beats_transportSend {o : Origin} {t : ℕ} {packet : Bytes} {caller : SendCaller}
    (h : some (w.log o (.sending t packet caller), o.tasks [.sending t packet caller]) =
      some (w', ks)) : Beats i ⟨o, .transportSend t packet caller⟩ .go w w' ks := by
  cases caller with
  | keepAlive interval now =>
      exact .of_loop h rfl (by simp) rfl (by simp [Origin.tasks, inLoop])
  | connect | publish | subscribe | unsubscribe | handler | goodbye =>
      exact .of_push h rfl rfl rfl rfl

theorem beats_sending {o : Origin} {t : ℕ} {packet : Bytes} {caller : SendCaller}
    {result : Result ℕ}
    (h : some (w.log o (.sent t packet caller result), o.tasks (Conn.sent caller result)) =
      some (w', ks)) : Beats i ⟨o, .sending t packet caller⟩ (.answer result) w w' ks := by
  cases caller with
  | keepAlive interval now =>
      cases result with
      | error e =>
          exact .of_loop h rfl (by simp [Conn.sent]) rfl (by simp [Conn.sent, Origin.tasks, inLoop])
      | ok n =>
          exact .of_loop h rfl (by simp [Conn.sent]) rfl (by simp [Conn.sent, Origin.tasks, inLoop])
  | connect | publish | subscribe | unsubscribe | handler | goodbye =>
      cases result <;> exact .of_push h rfl rfl rfl rfl

theorem beats_packetSent {o : Origin} {caller : SendCaller} {result : Result Unit}
    (h : some (w, o.tasks (Conn.packetSent caller result)) = some (w', ks)) :
    Beats i ⟨o, .packetSent caller result⟩ .go w w' ks := by
  cases caller with
  | keepAlive interval now =>
      cases result with
      | error e =>
          exact .of_loop h rfl (by simp [Conn.packetSent]) rfl
            (by simp [Conn.packetSent, Origin.tasks, inLoop])
      | ok n =>
          exact .of_loop h rfl (by simp [Conn.packetSent]) rfl
            (by simp [Conn.packetSent, Origin.tasks, inLoop])
  | connect | publish | subscribe | unsubscribe | handler | goodbye =>
      cases result <;> exact .of_push h rfl rfl rfl rfl

theorem apart_teardown (o : Origin) (b : Bool) : (w.teardown o b).2.all Sect.apart = true := by
  cases ht : w.client.transport with
  | none => simp [Conn.teardown, ht, Conn.endTransport, Sect.apart]
  | some t => cases b <;> simp [Conn.teardown, ht, Conn.endTransport, Sect.apart]

/-- What every section does about the keep-alive. -/
theorem exec_beats (h : Conn.exec task c w = some (w', ks)) : Beats i task c w w' ks := by
  obtain ⟨o, s⟩ := task
  unfold Conn.exec at h
  dsimp only at h
  split at h
  -- calls and `Connect`
  · obtain ⟨hmarker, hstatus⟩ := same_call (w := w) o _
    exact .of_push h rfl (apart_call _ _) hmarker hstatus
  · rename_i result
    cases result <;> exact .of_push h rfl rfl rfl rfl
  · split at h <;> exact .of_push h rfl rfl rfl rfl
  · exact .of_deliverWithin h (by simp)
  · exact .of_push h rfl rfl rfl rfl
  · split at h
    · refine .of_push h rfl ?_ rfl rfl
      cases herror : w.client.connackError <;> simp [Conn.wake, herror, Sect.apart]
    · cases h
  · split at h
    · cases h
    · exact .of_push h rfl rfl rfl rfl
  -- sending
  · exact beats_sendPacket h
  · exact beats_transportSend h
  · exact beats_sending h
  · exact .of_deliverWithin h (by simp)
  · exact .of_clock h fun v hv h =>
      .of_push h rfl rfl (by rw [← hv]; rfl) (by rw [← hv])
  · exact beats_packetSent h
  · exact .of_push h rfl rfl rfl rfl
  -- receiving and ending
  · refine .of_push h rfl ?_ ?_ ?_ <;> simp only [Conn.onTransportData] <;> split <;>
      rfl
  · refine .of_push h rfl ?_ ?_ ?_ <;> simp only [Conn.takePackets] <;> split <;>
      rfl
  · obtain ⟨rfl, rfl⟩ := Prod.mk.inj (Option.some.inj h)
    obtain ⟨hmarker, hstatus, hsects⟩ := handled_beats w.client _
    exact .apart rfl (apart_tasks _ hsects) hmarker hstatus
  · exact .of_push h rfl (apart_teardown _ _) rfl rfl
  · exact .of_push h rfl rfl rfl rfl
  · exact .of_push h rfl rfl rfl rfl
  · exact .of_push h rfl rfl rfl rfl
  · exact .of_push h rfl rfl rfl rfl
  · exact .of_deliverWithin h (by simp)
  -- the keep-alive task
  · refine .of_push h rfl ?_ rfl rfl
    simp only [Conn.startKeepAlive]
    split <;> rfl
  · refine .of_push h rfl ?_ rfl rfl
    split <;> rfl
  · simp only [Conn.joining] at h
    split at h
    · rename_i hstatus
      obtain ⟨rfl, rfl⟩ := Prod.mk.inj (Option.some.inj h)
      refine ⟨rfl, by simp [Origin.tasks], .swaps ?_ (by simp) rfl rfl⟩
      obtain hstatus | hstatus := hstatus <;> simp [hstatus]
    · cases h
  · exact .of_push h rfl rfl rfl rfl
  · simp only [Conn.createTask] at h
    split at h
    · rename_i hstatus
      obtain ⟨rfl, rfl⟩ := Prod.mk.inj (Option.some.inj h)
      refine ⟨rfl, by simp [Origin.tasks], .swaps ?_ (by simp) rfl rfl⟩
      obtain hstatus | hstatus := hstatus <;> simp [hstatus]
    · cases h
  · refine .of_loop h rfl ?_ rfl ?_ <;> simp only [Conn.keepAliveBegin] <;> split <;>
      simp [Origin.tasks, inLoop]
  · refine .of_loop h rfl ?_ rfl ?_ <;> split <;> simp [Origin.tasks, inLoop]
  · refine .of_loop h rfl ?_ rfl ?_ <;> split <;> simp [Origin.tasks, inLoop]
  · rename_i interval ms
    refine .of_clock h fun v hv h => ?_
    obtain ⟨rfl, rfl⟩ := Prod.mk.inj (Option.some.inj h)
    refine ⟨by rw [hv]; rfl, ?_, .stays (by rw [hv]) (by simp [Origin.tasks, inLoop])⟩
    intro k hk interval' now hsect
    obtain rfl := List.mem_singleton.mp hk
    obtain ⟨rfl, rfl⟩ := Sect.keepAlivePing.inj hsect
    exact ⟨rfl, rfl⟩
  · refine .of_loop h rfl ?_ rfl ?_ <;> simp only [Conn.keepAlivePing] <;> split <;>
      (try split) <;> simp [Origin.tasks, inLoop]
  · refine .of_loop h rfl ?_ rfl ?_ <;> simp only [Conn.keepAliveIdle] <;> split <;>
      simp [Origin.tasks, inLoop]
  · exact .of_push h rfl rfl rfl rfl
  · obtain ⟨rfl, rfl⟩ := Prod.mk.inj (Option.some.inj h)
    exact ⟨rfl, by simp [Origin.tasks], .ends rfl rfl rfl⟩
  -- callbacks
  · exact .of_push h rfl rfl rfl rfl
  · exact .of_push h rfl rfl rfl rfl
  · obtain ⟨rfl, rfl⟩ := Prod.mk.inj (Option.some.inj h)
    exact .apart rfl (List.forall_mem_cons.mpr ⟨rfl, List.forall_mem_singleton.mpr rfl⟩) rfl rfl
  · exact .of_push h rfl rfl rfl rfl
  · cases h

/-! ## Runs -/

/-- What a run keeps: `ping_sent_ms_` is truthful, a check under way has no late PINGREQ, and one
thread at most is in the loop. -/
structure Alive (s : List Ping × Config) : Prop where
  marker : Truthful s.1 s.2.shared.client.pingSentMs
  checks : ∀ q ∈ s.2.threads, ∀ task ∈ q, ∀ interval now, task.sect = .keepAlivePing interval now →
    Within s.1 now interval
  loop : Sections.load inLoop s.2 =
    if s.2.shared.client.keepAliveTask = some .running then 1 else 0

theorem inLoop_of_ping {task : Task} {interval now : Int}
    (h : task.sect = .keepAlivePing interval now) : inLoop task = 1 := by
  simp [inLoop, h]

/-- Only the loop learns the time of a PINGREQ. -/
theorem inLoop_of_stamps {t : ℕ} {ms : Int} (h : beatOf i task c = .stamps t ms) :
    inLoop task = 1 := by
  obtain ⟨o, s⟩ := task
  unfold beatOf at h
  split at h
  · cases h
  · simp_all [inLoop]
  · cases h
  · cases h
  · split at h <;> cases h
  · cases h
  · cases h

/-- The load of the loop behind a step. -/
theorem LoopStep.load {cfg : Config} (hloop : Sections.load inLoop cfg =
      if cfg.shared.client.keepAliveTask = some .running then 1 else 0)
    (hget : cfg.threads[i]? = some (task :: ks)) {w' : Conn} {ks' : List Task}
    (h : LoopStep task cfg.shared w' ks') :
    Sections.load inLoop (⟨w', cfg.threads.set i (ks' ++ ks)⟩ : Config) =
      if w'.client.keepAliveTask = some .running then 1 else 0 := by
  have hload := Sections.load_run inLoop hget w' ks'
  cases h with
  | stays hstatus hsame =>
      rw [hstatus, ← hloop]
      omega
  | ends htask hstatus hnone =>
      have hle := Sections.le_load inLoop hget (List.mem_cons_self ..)
      rw [htask, hloop] at hle
      split at hloop
      · rw [hstatus, if_neg (by simp)]
        omega
      · omega
  | swaps hstatus hstatus' htask hnone =>
      rw [if_neg hstatus] at hloop
      rw [if_neg hstatus']
      omega

theorem Alive.start {pings : List Ping} {cfg : Config} (h : Alive (pings, cfg)) {e : Entry}
    {w' : Conn} {q : List Task} (hentry : Conn.entry e cfg.shared = some (w', q)) :
    Alive (pings, ⟨w', cfg.threads ++ [q]⟩) := by
  have hload := Sections.load_start inLoop cfg.shared w' cfg.threads q
  have hnew : w'.client.pingSentMs = cfg.shared.client.pingSentMs ∧
      (∀ k ∈ q, ∀ interval now, k.sect ≠ .keepAlivePing interval now) ∧
      (Sections.load inLoop cfg + Sections.weight inLoop q =
        if w'.client.keepAliveTask = some .running then 1 else 0) := by
    cases e with
    | call call =>
        obtain ⟨rfl, rfl⟩ := Prod.mk.inj (Option.some.inj hentry)
        exact ⟨rfl, by simp [Conn.newCall], h.loop⟩
    | data | closed =>
        simp only [Conn.entry, Option.map_eq_some_iff, Prod.mk.injEq] at hentry
        obtain ⟨first, hfirst, rfl, rfl⟩ := hentry
        obtain ⟨-, hapart⟩ : beatOf 0 first _ = .quiet ∧ first.sect.apart = true :=
          beatOf_delivery hfirst
        refine ⟨rfl, ?_, ?_⟩
        · intro k hk interval now hsect
          rw [List.mem_singleton.mp hk] at hsect
          rw [hsect] at hapart
          cases hapart
        · rw [weight_of_apart (by simpa using hapart)]
          exact h.loop
    | keepAlive =>
        simp only [Conn.entry] at hentry
        split at hentry
        · rename_i hstatus
          obtain ⟨rfl, rfl⟩ := Prod.mk.inj (Option.some.inj hentry)
          have hloop := h.loop
          simp only [hstatus] at hloop
          refine ⟨rfl, by simp, ?_⟩
          simp only [hloop]
          rfl
        · cases hentry
  obtain ⟨hmarker, hsects, hloop⟩ := hnew
  refine ⟨?_, ?_, ?_⟩
  · simp only [hmarker]
    exact h.marker
  · intro p hp task htask interval now hsect
    obtain hp | hp := List.mem_append.mp hp
    · exact h.checks p hp task htask interval now hsect
    · rw [List.mem_singleton.mp hp] at htask
      exact absurd hsect (hsects task htask interval now)
  · rw [← hloop, hload]

/-- Every section keeps it, unless a time is stored behind its answer. -/
theorem Alive.run {pings : List Ping} {cfg : Config} (h : Alive (pings, cfg)) {w' : Conn}
    {ks' : List Task} (hget : cfg.threads[i]? = some (task :: ks))
    (hexec : Conn.exec task c cfg.shared = some (w', ks'))
    (hinTime : ∀ interval now, task.sect = .keepAliveNow interval → c = .now now →
      Within pings now interval)
    (hstores : StoresStanding pings (beatOf i task c)) :
    Alive (after pings (beatOf i task c), ⟨w', cfg.threads.set i (ks' ++ ks)⟩) := by
  obtain ⟨hmarker, hchecks, hloop⟩ := exec_beats (i := i) hexec
  refine ⟨?_, ?_, hloop.load h.loop hget⟩
  · simp only [hmarker]
    exact h.marker.after hstores
  · intro q hq k hk interval now hsect
    -- a check under way in a thread that still has it
    have hold : ∀ (j : ℕ) (p : List Task), (cfg.threads.set i ks)[j]? = some p → k ∈ p →
        Within (after pings (beatOf i task c)) now interval := by
      intro j p hj hkp
      apply Within.after
      · obtain rfl | ⟨l, -, hl⟩ := Sections.mem_set_cases (List.mem_of_getElem? hj)
        · exact h.checks _ (List.mem_of_getElem? hget) k (List.mem_cons_of_mem _ hkp) interval now
            hsect
        · exact h.checks p (List.mem_of_getElem? hl) k hkp interval now hsect
      · intro t ms hbeat
        have htwo := Sections.add_le_load inLoop hget hj hkp
        rw [inLoop_of_stamps hbeat, inLoop_of_ping hsect, h.loop] at htwo
        split at htwo <;> omega
    obtain ⟨j, hj⟩ := List.mem_iff_getElem?.mp hq
    have hi : i < cfg.threads.length := (List.getElem?_eq_some_iff.mp hget).1
    by_cases hij : i = j
    · subst hij
      rw [List.getElem?_set_self hi] at hj
      obtain rfl := Option.some.inj hj
      obtain hk | hk := List.mem_append.mp hk
      · obtain ⟨hnow, rfl⟩ := hchecks k hk interval now hsect
        have hquiet : beatOf i task (.now now) = .quiet := by
          unfold beatOf
          rw [hnow]
        rw [hquiet]
        exact hinTime interval now hnow rfl
      · exact hold i ks (List.getElem?_set_self hi) hk
    · rw [List.getElem?_set_ne hij] at hj
      exact hold j q (by rw [List.getElem?_set_ne hij]; exact hj) hk

theorem Alive.step {s s' : List Ping × Config} {l : Label} (h : Alive s)
    (hok : AnsweredInTime s l ∧ StoresPing s l) (hstep : pinging s l = some s') : Alive s' := by
  obtain ⟨pings, cfg⟩ := s
  obtain ⟨hprogram, hpings⟩ := Runs.monitored_eq_some.mp hstep
  obtain ⟨pings', cfg'⟩ := s'
  obtain ⟨hinTime, hstores⟩ := hok
  simp only at hprogram hpings
  obtain ⟨e, w', q, rfl, hentry, rfl⟩ | ⟨i, c, task, ks, w', ks', rfl, hget, hexec, rfl⟩ :=
    Sections.Program.step_cases hprogram
  · subst hpings
    exact h.start hentry
  · have hbeat : beat cfg (.run i c) = beatOf i task c := by simp [beat, hget]
    rw [hpings, hbeat]
    apply h.run hget hexec
    · rintro interval now hsect rfl
      apply hinTime (now, interval)
      obtain ⟨o, s⟩ := task
      simp only at hsect
      subst hsect
      simp [readsNow, hget]
    · have hstanding : StoresStanding pings (beat cfg (.run i c)) := hstores
      rw [hbeat] at hstanding
      exact hstanding

/-- A check under way does not time out. -/
theorem Alive.not_timesOut {s : List Ping × Config} (h : Alive s) (l : Label) :
    ¬TimesOut s.2 l := by
  rintro ⟨⟨now, interval⟩, hcompares, hmarker, hlate⟩
  cases l with
  | start => cases hcompares
  | run i c =>
      cases c with
      | go =>
          simp only [compares] at hcompares
          split at hcompares
          · rename_i hget
            obtain ⟨rfl, rfl⟩ := Prod.mk.inj (Option.some.inj hcompares)
            have hwithin := h.checks _ (List.mem_of_getElem? hget) _ (List.mem_cons_self ..) _ _ rfl
            obtain hzero | hnot := h.marker.not_late hwithin
            · exact hmarker hzero
            · simp only at hlate
              omega
          · cases hcompares
      | now | answer | data | closed | timeout | call => cases hcompares

theorem alive_initial : Alive ([], initial) :=
  ⟨fun h => absurd rfl h, by simp [initial], by simp [initial, Sections.load]⟩

/-- In the runs whose steps meet `ok`, as long as every PINGREQ is answered in time, the loop never
times out. -/
def NoFalseTimeout (ok : List Ping × Config → Label → Prop) : Prop :=
  ∀ ls, Runs.Along pinging (fun s l _ => AnsweredInTime s l ∧ ok s l) ([], initial) ls →
    Runs.Along pinging (fun s l _ => ¬TimesOut s.2 l) ([], initial) ls

theorem noFalseTimeout : NoFalseTimeout StoresPing := by
  intro ls h
  apply h.mono (I := Alive) _ alive_initial
  intro s l s' halive hok hstep
  exact ⟨halive.step hok hstep, halive.not_timesOut l⟩

end EspModemLink.Mqtt
