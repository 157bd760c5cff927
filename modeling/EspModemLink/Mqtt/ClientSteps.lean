import EspModemLink.Mqtt.Client

/-!
# What one section of the MQTT client can do

Most sections leave the session alone: the transport, the receive buffer, the flags of the handshake
and the messages held. The sections that do not, and those that react to a packet, are named here
one by one.
-/

namespace EspModemLink.Mqtt

open Bytes Http

/-! ## Reactions -/

/-- An acknowledgement is handed to the transport, or a message or a broker's acknowledgement to the
application. -/
def Event.reaction : Event → Bool
  | .sending _ _ .handler => true
  | .callback (.message _) => true
  | .callback (.publishAck _) => true
  | _ => false

/-- A section that a reaction is still to come of. -/
def Sect.reaction : Sect → Bool
  | .sendPacket _ .handler => true
  | .transportSend _ _ .handler => true
  | .callback (.message _) => true
  | .callback (.publishAck _) => true
  | _ => false

/-- An event that is no reaction and says nothing about the session. -/
def Event.plain : Event → Bool
  | .began .. => false
  | .stored .. => false
  | .arrived .. => false
  | .overflowed => false
  | .taken .. => false
  | .received .. => false
  | .tornDown => false
  | e => !e.reaction

/-- A section that neither handles a packet nor reacts to one. -/
def Sect.plain : Sect → Bool
  | .handlePacket .. => false
  | s => !s.reaction

/-- The first section of a call. -/
def Sect.isCall : Sect → Bool
  | .call _ => true
  | _ => false

theorem Sect.reaction_of_plain {s : Sect} (h : s.plain = true) : s.reaction = false := by
  cases s <;> simp_all [Sect.plain, Sect.reaction]

theorem Event.reaction_of_plain {e : Event} (h : e.plain = true) : e.reaction = false := by
  cases e <;> simp_all [Event.plain, Event.reaction]

namespace Conn

@[simp] theorem log_client (w : Conn) (o : Origin) (e : Event) : (w.log o e).client = w.client := rfl
@[simp] theorem log_taken (w : Conn) (o : Origin) (e : Event) : (w.log o e).taken = w.taken := rfl
@[simp] theorem log_received (w : Conn) (o : Origin) (e : Event) :
    (w.log o e).received = w.received := rfl
@[simp] theorem log_trace (w : Conn) (o : Origin) (e : Event) :
    (w.log o e).trace = w.trace ++ [(o, e)] := rfl

/-! ## Quiet sections -/

/-- The members that make up the session. -/
structure SameSession (c c' : SoftwareMqttClient) : Prop where
  transport : c'.transport = c.transport
  connected : c'.connected = c.connected
  connecting : c'.connecting = c.connecting
  rxBuffer : c'.rxBuffer = c.rxBuffer
  pendingQos2 : c'.pendingQos2 = c.pendingQos2

theorem SameSession.rfl {c : SoftwareMqttClient} : SameSession c c :=
  ⟨.refl _, .refl _, .refl _, .refl _, .refl _⟩

/-- A section that leaves the session alone and tells nothing of it. -/
structure Quiet (w w' : Conn) : Prop where
  session : SameSession w.client w'.client
  taken : w'.taken = w.taken
  received : w'.received = w.received
  trace : ∃ es : List (Origin × Event), (∀ e ∈ es, e.2.plain = true) ∧ w'.trace = w.trace ++ es

theorem Quiet.rfl {w : Conn} : Quiet w w := ⟨.rfl, .refl _, .refl _, [], by simp, by simp⟩

theorem Quiet.trans {w w' w'' : Conn} (h : Quiet w w') (h' : Quiet w' w'') : Quiet w w'' := by
  obtain ⟨es, hplain, htrace⟩ := h.trace
  obtain ⟨es', hplain', htrace'⟩ := h'.trace
  refine ⟨⟨h'.session.transport.trans h.session.transport,
    h'.session.connected.trans h.session.connected,
    h'.session.connecting.trans h.session.connecting,
    h'.session.rxBuffer.trans h.session.rxBuffer,
    h'.session.pendingQos2.trans h.session.pendingQos2⟩, h'.taken.trans h.taken,
    h'.received.trans h.received, es ++ es', ?_, ?_⟩
  · intro e he
    obtain he | he := List.mem_append.mp he
    · exact hplain e he
    · exact hplain' e he
  · rw [htrace', htrace, List.append_assoc]

/-- Only other members of the client change. -/
theorem Quiet.client {w : Conn} {c : SoftwareMqttClient} (h : SameSession w.client c) :
    Quiet w { w with client := c } := ⟨h, .refl _, .refl _, [], by simp, by simp⟩

theorem Quiet.logged (w : Conn) (o : Origin) {e : Event} (he : e.plain = true) :
    Quiet w (w.log o e) := ⟨.rfl, .refl _, .refl _, [(o, e)], by simpa using he, by simp⟩

theorem readClock_quiet {w w' : Conn} {ms : Int} (h : w.readClock ms = some w') : Quiet w w' := by
  simp only [readClock] at h
  split at h
  · obtain rfl := Option.some.inj h
    exact ⟨.rfl, .refl _, .refl _, [], by simp, by simp⟩
  · cases h

theorem newCall_quiet (w : Conn) (c : Call) : Quiet w (w.newCall c).1 :=
  ⟨.rfl, .refl _, .refl _, [(.call w.calls, .called c)], by simp [Event.plain, Event.reaction], .refl _⟩

/-- The factory made a transport. -/
theorem quiet_created (w : Conn) (o : Origin) (t : ℕ) (tls : Bool) (config : TlsConfig)
    (host : Bytes) (port : ℕ) :
    Quiet w ((({ w with transports := w.transports ++ [t] } : Conn).log o
      (.created t tls config)).log o (.connecting t host port)) := by
  have hmade : Quiet w { w with transports := w.transports ++ [t] } :=
    ⟨.rfl, rfl, rfl, [], by simp, by simp⟩
  exact hmade.trans ((Quiet.logged _ o rfl).trans (.logged _ o rfl))

/-! ## The effect of a section -/

/-- What executing `task` in `w` makes of the connection, and the sections it leaves to do. -/
inductive Effect (task : Task) (w : Conn) : Conn → List Task → Prop
  | quiet {w' : Conn} {ks : List Task} (hplain : task.sect.plain = true) (h : Quiet w w')
      (hks : ∀ k ∈ ks, k.sect.plain = true) : Effect task w w' ks
  | begins {ks : List Task} (hplain : task.sect.plain = true)
      (hks : ∀ k ∈ ks, k.sect.plain = true) :
      Effect task w
        (({ w with client := beginAttempt w.client, attempts := w.attempts + 1 } : Conn).log
          task.origin (.began w.attempts)) ks
  | stores (t : ℕ) {ks : List Task} (hplain : task.sect.plain = true)
      (hks : ∀ k ∈ ks, k.sect.plain = true) :
      Effect task w
        (({ w with client := { w.client with transport := some t } } : Conn).log task.origin
          (.stored t)) ks
  | forwards {packet : Bytes} {t : ℕ} (hsect : task.sect = .sendPacket packet .handler)
      (ht : w.client.transport = some t) :
      Effect task w w (task.origin.tasks [.transportSend t packet .handler])
  | drops {packet : Bytes} {ks : List Task} (hsect : task.sect = .sendPacket packet .handler)
      (ht : w.client.transport = none) (hks : ∀ k ∈ ks, k.sect.plain = true) : Effect task w w ks
  | sends {t : ℕ} {packet : Bytes} {ks : List Task}
      (hsect : task.sect = .transportSend t packet .handler)
      (hks : ∀ k ∈ ks, k.sect.plain = true) :
      Effect task w (w.log task.origin (.sending t packet .handler)) ks
  | notifies {c : Callback} {ks : List Task} (hsect : task.sect = .callback c)
      (hreaction : task.sect.reaction = true) (hks : ∀ k ∈ ks, k.sect.plain = true) :
      Effect task w (w.log task.origin (.callback c)) ks
  | arrives {t : ℕ} {data : Bytes} {ks : List Task} (hsect : task.sect = .onTransportData t data)
      (hks : ∀ k ∈ ks, k.sect.plain = true) :
      Effect task w
        { w.log task.origin (.arrived t data) with
          client := { w.client with rxBuffer := w.client.rxBuffer ++ data } } ks
  | overflows {t : ℕ} {data : Bytes} {ks : List Task} (hsect : task.sect = .onTransportData t data)
      (hks : ∀ k ∈ ks, k.sect.plain = true) :
      Effect task w
        (({ w.log task.origin (.arrived t data) with
          client := { w.client with rxBuffer := [] } } : Conn).log task.origin .overflowed) ks
  | takes {packet : MqttPacket} {rest : Bytes} (hsect : task.sect = .takePackets)
      (htake : takePacket w.client.rxBuffer = some (packet, rest)) :
      Effect task w
        (({ w with client := { w.client with rxBuffer := rest }, taken := w.taken + 1 } : Conn).log
          task.origin (.taken packet))
        (task.origin.tasks [.handlePacket w.taken packet, .takePackets])
  | handles {number : ℕ} {packet : MqttPacket} (hsect : task.sect = .handlePacket number packet) :
      Effect task w (w.handlePacket number packet).1 (w.handlePacket number packet).2
  | tearsDown {b : Bool} {ks : List Task} (hsect : task.sect = .teardown b)
      (hks : ∀ k ∈ ks, k.sect.plain = true) :
      Effect task w
        (({ w with client := dropTransport w.client } : Conn).log task.origin .tornDown) ks

variable {task : Task} {w : Conn}

theorem exec_onTransportData (o : Origin) (t : ℕ) (data : Bytes) (w : Conn) :
    exec ⟨o, .onTransportData t data⟩ .go w =
      some ((w.onTransportData o t data).1, o.tasks (w.onTransportData o t data).2) := rfl

theorem exec_takePackets (o : Origin) (w : Conn) :
    exec ⟨o, .takePackets⟩ .go w =
      some ((w.takePackets o).1, o.tasks (w.takePackets o).2) := rfl

theorem plain_tasks (o : Origin) {sects : List Sect} (h : sects.all Sect.plain = true) :
    ∀ k ∈ o.tasks sects, k.sect.plain = true := by
  intro k hk
  obtain ⟨s, hs, rfl⟩ := List.mem_map.mp hk
  exact List.all_eq_true.mp h s hs

/-- A quiet section that leaves plain sections of its own in front. -/
theorem Effect.of_push {v w' : Conn} {sects : List Sect} {ks : List Task}
    (h : some (v, task.origin.tasks sects) = some (w', ks)) (hplain : task.sect.plain = true)
    (hq : Quiet w v) (hs : sects.all Sect.plain = true) : Effect task w w' ks := by
  obtain ⟨rfl, rfl⟩ := Prod.mk.inj (Option.some.inj h)
  exact .quiet hplain hq (plain_tasks _ hs)

/-- The same behind a reading of the clock. -/
theorem Effect.of_clock {ms : Int} {f : Conn → Conn} {sects : List Sect} {w' : Conn}
    {ks : List Task} (hplain : task.sect.plain = true)
    (h : ((w.readClock ms).bind fun w => some (f w, task.origin.tasks sects)) = some (w', ks))
    (hq : ∀ w, Quiet w (f w)) (hs : sects.all Sect.plain = true) : Effect task w w' ks := by
  obtain ⟨v, hclock, h⟩ := Option.bind_eq_some_iff.mp h
  exact .of_push h hplain ((readClock_quiet hclock).trans (hq v)) hs

theorem effect_call {c : Call} (hsect : task.sect = .call c) :
    Effect task w (w.call task.origin c).1 (task.origin.tasks (w.call task.origin c).2) := by
  have hplain : task.sect.plain = true := by rw [hsect]; rfl
  cases c with
  | connect host port cleanSession =>
      simp only [call, connect]
      split
      · exact .quiet hplain .rfl (plain_tasks _ rfl)
      · exact .begins hplain (plain_tasks _ rfl)
  | publish topic payload qos retain =>
      simp only [call, publish]
      split
      · exact .quiet hplain .rfl (plain_tasks _ rfl)
      · split <;>
          exact .quiet hplain (.client ⟨rfl, rfl, rfl, rfl, rfl⟩)
            (plain_tasks _ rfl)
  | subscribe topic qos =>
      simp only [call, subscribe]
      split <;>
        exact .quiet hplain (.client ⟨rfl, rfl, rfl, rfl, rfl⟩)
          (plain_tasks _ rfl)
  | unsubscribe topic =>
      simp only [call, unsubscribe]
      split <;>
        exact .quiet hplain (.client ⟨rfl, rfl, rfl, rfl, rfl⟩)
          (plain_tasks _ rfl)
  | setKeepAlive | setClientId | setCredentials | setWill | setTlsConfig | disconnect =>
      exact .quiet hplain (.client ⟨rfl, rfl, rfl, rfl, rfl⟩)
        (plain_tasks _ rfl)

theorem effect_sendPacket {packet : Bytes} {caller : SendCaller}
    (hsect : task.sect = .sendPacket packet caller) :
    Effect task w w (task.origin.tasks (w.sendPacket packet caller)) := by
  by_cases hcaller : caller = .handler
  · subst hcaller
    cases ht : w.client.transport with
    | none =>
        apply Effect.drops hsect ht
        exact plain_tasks _ (by simp [sendPacket, ht, Sect.plain, Sect.reaction])
    | some t =>
        have hforwards : w.sendPacket packet .handler = [.transportSend t packet .handler] := by
          simp [sendPacket, ht]
        rw [hforwards]
        exact .forwards hsect ht
  · have hplain : task.sect.plain = true := by
      rw [hsect]
      cases caller <;> first | rfl | exact absurd rfl hcaller
    apply Effect.quiet hplain .rfl (plain_tasks _ _)
    cases ht : w.client.transport with
    | none => simp [sendPacket, ht, Sect.plain, Sect.reaction]
    | some t => cases caller <;> simp_all [sendPacket, Sect.plain, Sect.reaction]

theorem effect_transportSend {t : ℕ} {packet : Bytes} {caller : SendCaller}
    (hsect : task.sect = .transportSend t packet caller) :
    Effect task w (w.log task.origin (.sending t packet caller))
      (task.origin.tasks [.sending t packet caller]) := by
  by_cases hcaller : caller = .handler
  · subst hcaller
    exact .sends hsect (plain_tasks _ rfl)
  · apply Effect.quiet
    · rw [hsect]
      cases caller <;> first | rfl | exact absurd rfl hcaller
    · apply Quiet.logged
      cases caller <;> first | rfl | exact absurd rfl hcaller
    · exact plain_tasks _ rfl

theorem effect_callback {c : Callback} (hsect : task.sect = .callback c) :
    Effect task w (w.log task.origin (.callback c)) (task.origin.tasks [.inCallback]) := by
  have hks : ∀ k ∈ task.origin.tasks [.inCallback], k.sect.plain = true :=
    plain_tasks task.origin rfl
  cases c with
  | message m => exact .notifies hsect (by rw [hsect]; rfl) hks
  | publishAck packetId => exact .notifies hsect (by rw [hsect]; rfl) hks
  | connected | disconnected | error => exact .quiet (by rw [hsect]; rfl) (.logged _ _ rfl) hks

theorem effect_onTransportData {t : ℕ} {data : Bytes} (hsect : task.sect = .onTransportData t data) :
    Effect task w (w.onTransportData task.origin t data).1
      (task.origin.tasks (w.onTransportData task.origin t data).2) := by
  simp only [onTransportData]
  split
  · exact .overflows hsect (plain_tasks _ rfl)
  · exact .arrives hsect (plain_tasks _ rfl)

theorem effect_takePackets (hsect : task.sect = .takePackets) :
    Effect task w (w.takePackets task.origin).1
      (task.origin.tasks (w.takePackets task.origin).2) := by
  simp only [takePackets]
  split
  · exact .quiet (by rw [hsect]; rfl) .rfl (plain_tasks _ rfl)
  · rename_i packet rest htake
    exact .takes hsect htake

theorem effect_teardown {b : Bool} (hsect : task.sect = .teardown b) :
    Effect task w (w.teardown task.origin b).1
      (task.origin.tasks (w.teardown task.origin b).2) := by
  apply Effect.tearsDown hsect (plain_tasks _ _)
  cases ht : w.client.transport with
  | none => simp [teardown, ht, endTransport, Sect.plain, Sect.reaction]
  | some t => cases b <;> simp [teardown, ht, endTransport, Sect.plain, Sect.reaction]

theorem delivery_plain {c : Choice} {first : Task} (h : w.delivery c = some first) :
    first.sect.plain = true := by
  cases c with
  | data | closed =>
      simp only [delivery] at h
      split at h
      · obtain rfl := Option.some.inj h
        rfl
      · cases h
  | go | now | answer | timeout | call => cases h

theorem effect_deliverWithin {c : Choice} {w' : Conn} {ks : List Task}
    (hplain : task.sect.plain = true) (h : w.deliverWithin task c = some (w', ks)) :
    Effect task w w' ks := by
  simp only [deliverWithin, Option.map_eq_some_iff, Prod.mk.injEq] at h
  obtain ⟨first, hfirst, rfl, rfl⟩ := h
  apply Effect.quiet hplain .rfl
  intro k hk
  obtain rfl | rfl : k = first ∨ k = task := by simpa using hk
  · exact delivery_plain hfirst
  · exact hplain

theorem plain_packetSent (caller : SendCaller) (result : Result Unit) :
    (packetSent caller result).all Sect.plain = true := by
  cases caller <;> cases result <;> rfl

theorem plain_sent (caller : SendCaller) (result : Result ℕ) :
    (sent caller result).all Sect.plain = true := by
  cases caller <;> cases result <;> rfl

/-- Everything that a section can do to the session and in answer to a packet. -/
theorem exec_effect {c : Choice} {w' : Conn} {ks : List Task}
    (h : exec task c w = some (w', ks)) : Effect task w w' ks := by
  obtain ⟨o, s⟩ := task
  unfold exec at h
  dsimp only at h
  split at h
  -- calls and `Connect`
  · obtain ⟨rfl, rfl⟩ := Prod.mk.inj (Option.some.inj h)
    exact effect_call rfl
  · rename_i result
    cases result with
    | error e => exact .of_push h rfl .rfl rfl
    | ok n =>
        refine .of_push h rfl ?_ rfl
        exact quiet_created w o _ _ _ _ _
  · split at h <;> exact .of_push h rfl .rfl rfl
  · exact effect_deliverWithin rfl h
  · obtain ⟨rfl, rfl⟩ := Prod.mk.inj (Option.some.inj h)
    exact .stores _ rfl (plain_tasks _ rfl)
  · split at h
    · refine .of_push h rfl .rfl ?_
      cases herror : w.client.connackError <;> simp [wake, herror, Sect.plain, Sect.reaction]
    · cases h
  · split at h
    · cases h
    · exact .of_push h rfl .rfl rfl
  -- sending
  · obtain ⟨rfl, rfl⟩ := Prod.mk.inj (Option.some.inj h)
    exact effect_sendPacket rfl
  · obtain ⟨rfl, rfl⟩ := Prod.mk.inj (Option.some.inj h)
    exact effect_transportSend rfl
  · exact .of_push h rfl (.logged _ _ rfl) (plain_sent _ _)
  · exact effect_deliverWithin rfl h
  · exact .of_clock rfl h (fun _ => .client ⟨rfl, rfl, rfl, rfl, rfl⟩) rfl
  · exact .of_push h rfl .rfl (plain_packetSent _ _)
  · exact .of_push h rfl (.client ⟨rfl, rfl, rfl, rfl, rfl⟩) rfl
  -- receiving and ending
  · obtain ⟨rfl, rfl⟩ := Prod.mk.inj (Option.some.inj h)
    exact effect_onTransportData rfl
  · obtain ⟨rfl, rfl⟩ := Prod.mk.inj (Option.some.inj h)
    exact effect_takePackets rfl
  · obtain ⟨rfl, rfl⟩ := Prod.mk.inj (Option.some.inj h)
    exact .handles rfl
  · obtain ⟨rfl, rfl⟩ := Prod.mk.inj (Option.some.inj h)
    exact effect_teardown rfl
  · exact .of_push h rfl (.client ⟨rfl, rfl, rfl, rfl, rfl⟩) rfl
  · exact .of_push h rfl (.client ⟨rfl, rfl, rfl, rfl, rfl⟩) rfl
  · exact .of_push h rfl (.logged _ _ rfl) rfl
  · exact .of_push h rfl .rfl rfl
  · exact effect_deliverWithin rfl h
  -- the keep-alive task
  · refine .of_push h rfl .rfl ?_
    simp only [startKeepAlive]
    split <;> rfl
  · refine .of_push h rfl (.client ⟨rfl, rfl, rfl, rfl, rfl⟩) ?_
    split <;> rfl
  · simp only [joining] at h
    split at h
    · exact .of_push h rfl (.client ⟨rfl, rfl, rfl, rfl, rfl⟩) rfl
    · cases h
  · exact .of_push h rfl (.client ⟨rfl, rfl, rfl, rfl, rfl⟩) rfl
  · simp only [createTask] at h
    split at h
    · exact .of_push h rfl (.client ⟨rfl, rfl, rfl, rfl, rfl⟩) rfl
    · cases h
  · refine .of_push h rfl .rfl ?_
    simp only [keepAliveBegin]
    split <;> rfl
  · refine .of_push h rfl .rfl ?_
    split <;> rfl
  · refine .of_push h rfl .rfl ?_
    split <;> rfl
  · exact .of_clock rfl h (fun _ => .rfl) rfl
  · refine .of_push h rfl .rfl ?_
    simp only [keepAlivePing]
    split
    · rfl
    · split <;> rfl
  · refine .of_push h rfl .rfl ?_
    simp only [keepAliveIdle]
    split <;> rfl
  · exact .of_push h rfl (.client ⟨rfl, rfl, rfl, rfl, rfl⟩) rfl
  · exact .of_push h rfl (.client ⟨rfl, rfl, rfl, rfl, rfl⟩) rfl
  -- callbacks
  · obtain ⟨rfl, rfl⟩ := Prod.mk.inj (Option.some.inj h)
    exact effect_callback rfl
  · exact .of_push h rfl .rfl rfl
  · obtain ⟨rfl, rfl⟩ := Prod.mk.inj (Option.some.inj h)
    exact .quiet rfl (newCall_quiet _ _)
      (List.forall_mem_cons.mpr ⟨rfl, List.forall_mem_singleton.mpr rfl⟩)
  · exact .of_push h rfl (.logged _ _ rfl) rfl
  · cases h

/-- A section only adds to what has happened. -/
theorem Effect.trace {w' : Conn} {ks : List Task} (h : Effect task w w' ks) :
    ∃ es, w'.trace = w.trace ++ es := by
  cases h with
  | quiet _ hq _ =>
      obtain ⟨es, -, htrace⟩ := hq.trace
      exact ⟨es, htrace⟩
  | forwards | drops => exact ⟨[], by simp⟩
  | overflows => exact ⟨_, List.append_assoc _ _ _⟩
  | begins | stores | sends | notifies | arrives | takes | handles | tearsDown => exact ⟨[_], rfl⟩

/-- A new thread leaves the session alone and begins with a plain section. -/
theorem entry_quiet {e : Entry} {w w' : Conn} {q : List Task} (h : entry e w = some (w', q)) :
    Quiet w w' ∧ ∀ k ∈ q, k.sect.plain = true := by
  cases e with
  | call c =>
      obtain ⟨rfl, rfl⟩ := Prod.mk.inj (Option.some.inj h)
      exact ⟨newCall_quiet _ _, List.forall_mem_singleton.mpr rfl⟩
  | data | closed =>
      simp only [entry, Option.map_eq_some_iff, Prod.mk.injEq] at h
      obtain ⟨first, hfirst, rfl, rfl⟩ := h
      refine ⟨.rfl, ?_⟩
      intro k hk
      rw [List.mem_singleton.mp hk]
      exact delivery_plain hfirst
  | keepAlive =>
      simp only [entry] at h
      split at h
      · obtain ⟨rfl, rfl⟩ := Prod.mk.inj (Option.some.inj h)
        exact ⟨.client ⟨rfl, rfl, rfl, rfl, rfl⟩, List.forall_mem_singleton.mpr rfl⟩
      · cases h

/-! ## Whose sections these are -/

/-- Events of one origin are added. -/
structure Logs (o : Origin) (w w' : Conn) : Prop where
  calls : w'.calls = w.calls
  trace : ∃ es : List Event, w'.trace = w.trace ++ es.map (Prod.mk o)

theorem Logs.rfl {o : Origin} {w : Conn} : Logs o w w := ⟨.refl _, [], by simp⟩

theorem Logs.trans {o : Origin} {w w' w'' : Conn} (h : Logs o w w') (h' : Logs o w' w'') :
    Logs o w w'' := by
  obtain ⟨es, htrace⟩ := h.trace
  obtain ⟨es', htrace'⟩ := h'.trace
  exact ⟨h'.calls.trans h.calls, es ++ es', by rw [htrace', htrace]; simp⟩

/-- Only members other than the calls and the trace change. -/
theorem Logs.of_eq {o : Origin} {w w' : Conn} (hcalls : w'.calls = w.calls)
    (htrace : w'.trace = w.trace) : Logs o w w' := ⟨hcalls, [], by simp [htrace]⟩

theorem Logs.log {o : Origin} {w w' : Conn} (h : Logs o w w') (e : Event) :
    Logs o w (w'.log o e) := by
  obtain ⟨es, htrace⟩ := h.trace
  exact ⟨h.calls, es ++ [e], by rw [log_trace, htrace]; simp⟩

/-- The sections that a section leaves are its own, or it is still there itself behind the first
section of a delivery or of a new call, or they are those of a handler. -/
inductive Form (task : Task) (w : Conn) : Conn → List Task → Prop
  | own {w' : Conn} (h : Logs task.origin w w') {sects : List Sect}
      (hsects : ∀ s ∈ sects, s.isCall = false) : Form task w w' (task.origin.tasks sects)
  | within {first : Task} {t : ℕ} (horigin : first.origin = .delivery t) :
      Form task w w [first, task]
  | calls (c : Call) : Form task w (w.newCall c).1 [(w.newCall c).2, task]
  | handles (number : ℕ) (packet : MqttPacket) (hsect : task.sect = .handlePacket number packet) :
      Form task w (w.handlePacket number packet).1 (w.handlePacket number packet).2

theorem Form.of_push {v w' : Conn} {sects : List Sect} {ks : List Task}
    (h : some (v, task.origin.tasks sects) = some (w', ks)) (hlogs : Logs task.origin w v)
    (hsects : sects.any Sect.isCall = false) : Form task w w' ks := by
  obtain ⟨rfl, rfl⟩ := Prod.mk.inj (Option.some.inj h)
  exact .own hlogs fun s hs => Bool.eq_false_iff.mpr (List.any_eq_false.mp hsects s hs)

theorem delivery_origin {c : Choice} {first : Task} (h : w.delivery c = some first) :
    ∃ t, first.origin = .delivery t := by
  cases c with
  | data | closed =>
      simp only [delivery] at h
      split at h
      · obtain rfl := Option.some.inj h
        exact ⟨_, .refl _⟩
      · cases h
  | go | now | answer | timeout | call => cases h

theorem Form.of_deliverWithin {c : Choice} {w' : Conn} {ks : List Task}
    (h : w.deliverWithin task c = some (w', ks)) : Form task w w' ks := by
  simp only [deliverWithin, Option.map_eq_some_iff, Prod.mk.injEq] at h
  obtain ⟨first, hfirst, rfl, rfl⟩ := h
  obtain ⟨t, ht⟩ := delivery_origin hfirst
  exact .within ht

theorem Form.of_clock {ms : Int} {f : Conn → Conn} {sects : List Sect} {w' : Conn}
    {ks : List Task}
    (h : ((w.readClock ms).bind fun w => some (f w, task.origin.tasks sects)) = some (w', ks))
    (hlogs : ∀ w, Logs task.origin w (f w)) (hsects : sects.any Sect.isCall = false) :
    Form task w w' ks := by
  obtain ⟨v, hclock, h⟩ := Option.bind_eq_some_iff.mp h
  refine .of_push h (.trans ?_ (hlogs v)) hsects
  simp only [readClock] at hclock
  split at hclock
  · obtain rfl := Option.some.inj hclock
    exact .of_eq rfl rfl
  · cases hclock

theorem logs_call (o : Origin) (c : Call) : Logs o w (w.call o c).1 := by
  cases c with
  | connect host port cleanSession =>
      simp only [call, connect]
      split
      · exact .rfl
      · apply Logs.log
        exact .of_eq rfl rfl
  | publish topic payload qos retain =>
      simp only [call, publish]
      split
      · exact .rfl
      · split <;> exact .of_eq rfl rfl
  | subscribe | unsubscribe =>
      simp only [call, subscribe, unsubscribe]
      split <;> exact .of_eq rfl rfl
  | setKeepAlive | setClientId | setCredentials | setWill | setTlsConfig | disconnect =>
      exact .of_eq rfl rfl

theorem logs_onTransportData (o : Origin) (t : ℕ) (data : Bytes) :
    Logs o w (w.onTransportData o t data).1 := by
  simp only [onTransportData]
  split
  · apply Logs.log
    apply Logs.trans (Logs.log .rfl (.arrived t data))
    exact .of_eq rfl rfl
  · apply Logs.trans (Logs.log .rfl (.arrived t data))
    exact .of_eq rfl rfl

theorem logs_takePackets (o : Origin) : Logs o w (w.takePackets o).1 := by
  simp only [takePackets]
  split
  · exact .rfl
  · apply Logs.log
    exact .of_eq rfl rfl

theorem logs_create (o : Origin) (t : ℕ) (tls : Bool) (config : TlsConfig) (host : Bytes)
    (port : ℕ) (options : MqttConnectOptions) (result : Result ℕ) :
    Logs o w (w.create o t tls config host port options result).1 := by
  cases result with
  | error e => exact .rfl
  | ok n =>
      apply Logs.log
      apply Logs.log
      exact .of_eq rfl rfl

theorem isCall_call (o : Origin) (c : Call) : (w.call o c).2.any Sect.isCall = false := by
  cases c with
  | connect | subscribe | unsubscribe =>
      simp only [call, connect, subscribe, unsubscribe]
      split <;> rfl
  | publish =>
      simp only [call, publish]
      split
      · rfl
      · split <;> rfl
  | setKeepAlive | setClientId | setCredentials | setWill | setTlsConfig | disconnect =>
      rfl

theorem isCall_packetSent (caller : SendCaller) (result : Result Unit) :
    (packetSent caller result).any Sect.isCall = false := by
  cases caller <;> cases result <;> rfl

theorem isCall_sent (caller : SendCaller) (result : Result ℕ) :
    (sent caller result).any Sect.isCall = false := by
  cases caller <;> cases result <;> rfl

theorem isCall_teardown (o : Origin) (b : Bool) : (w.teardown o b).2.any Sect.isCall = false := by
  cases ht : w.client.transport with
  | none => simp [teardown, ht, endTransport, Sect.isCall]
  | some t => cases b <;> simp [teardown, ht, endTransport, Sect.isCall]

/-- Everything that a section can leave. -/
theorem exec_form {c : Choice} {w' : Conn} {ks : List Task}
    (h : exec task c w = some (w', ks)) : Form task w w' ks := by
  obtain ⟨o, s⟩ := task
  unfold exec at h
  dsimp only at h
  split at h
  -- calls and `Connect`
  · exact .of_push h (logs_call _ _) (isCall_call _ _)
  · rename_i result
    exact .of_push h (logs_create _ _ _ _ _ _ _ _) (by cases result <;> rfl)
  · split at h <;> exact .of_push h .rfl rfl
  · exact .of_deliverWithin h
  · apply Form.of_push h
    · apply Logs.log
      exact .of_eq rfl rfl
    · rfl
  · split at h
    · refine .of_push h .rfl ?_
      cases herror : w.client.connackError <;> simp [wake, herror, Sect.isCall]
    · cases h
  · split at h
    · cases h
    · exact .of_push h .rfl rfl
  -- sending
  · refine .of_push h .rfl ?_
    cases ht : w.client.transport <;> simp [sendPacket, ht, Sect.isCall]
  · exact .of_push h (.log .rfl _) rfl
  · exact .of_push h (.log .rfl _) (isCall_sent _ _)
  · exact .of_deliverWithin h
  · exact .of_clock h (fun _ => .of_eq rfl rfl) rfl
  · exact .of_push h .rfl (isCall_packetSent _ _)
  · exact .of_push h (.of_eq rfl rfl) rfl
  -- receiving and ending
  · refine .of_push h (logs_onTransportData _ _ _) ?_
    simp only [onTransportData]
    split <;> rfl
  · refine .of_push h (logs_takePackets _) ?_
    simp only [takePackets]
    split <;> rfl
  · obtain ⟨rfl, rfl⟩ := Prod.mk.inj (Option.some.inj h)
    exact .handles _ _ (.refl _)
  · apply Form.of_push h
    · apply Logs.log
      exact .of_eq rfl rfl
    · exact isCall_teardown _ _
  · exact .of_push h (.of_eq rfl rfl) rfl
  · exact .of_push h (.of_eq rfl rfl) rfl
  · exact .of_push h (.log .rfl _) rfl
  · exact .of_push h .rfl rfl
  · exact .of_deliverWithin h
  -- the keep-alive task
  · refine .of_push h .rfl ?_
    simp only [startKeepAlive]
    split <;> rfl
  · refine .of_push h (.of_eq rfl rfl) ?_
    split <;> rfl
  · simp only [joining] at h
    split at h
    · exact .of_push h (.of_eq rfl rfl) rfl
    · cases h
  · exact .of_push h (.of_eq rfl rfl) rfl
  · simp only [createTask] at h
    split at h
    · exact .of_push h (.of_eq rfl rfl) rfl
    · cases h
  · refine .of_push h .rfl ?_
    simp only [keepAliveBegin]
    split <;> rfl
  · refine .of_push h .rfl ?_
    split <;> rfl
  · refine .of_push h .rfl ?_
    split <;> rfl
  · exact .of_clock h (fun _ => .rfl) rfl
  · refine .of_push h .rfl ?_
    simp only [keepAlivePing]
    split
    · rfl
    · split <;> rfl
  · refine .of_push h .rfl ?_
    simp only [keepAliveIdle]
    split <;> rfl
  · exact .of_push h (.of_eq rfl rfl) rfl
  · exact .of_push h (.of_eq rfl rfl) rfl
  -- callbacks
  · exact .of_push h (.log .rfl _) rfl
  · exact .of_push h .rfl rfl
  · obtain ⟨rfl, rfl⟩ := Prod.mk.inj (Option.some.inj h)
    exact .calls _
  · exact .of_push h (.log .rfl _) rfl
  · cases h

end Conn

end EspModemLink.Mqtt
