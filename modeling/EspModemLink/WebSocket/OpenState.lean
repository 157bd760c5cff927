import EspModemLink.WebSocket.ClientSteps

/-!
# An open client and its transport

`Teardown` lets go of the transport and leaves the client disconnected, but it may run while
`Establish` still waits. The client is open without a transport exactly when `Establish` then
wakes to an accepted upgrade.
-/

namespace EspModemLink.WebSocket

open Bytes Http

/-! ## The transport that is held -/

/-- What one event does to the transport that is held. -/
def Event.hold (held : Option ℕ) : Event → Option ℕ
  | .stored t => some t
  | .tornDown .. => none
  | _ => held

/-- The transport that was stored last, unless a `Teardown` has run since. -/
def heldTransport (trace : List (Origin × Event)) : Option ℕ :=
  trace.foldl (fun held e => e.2.hold held) none

@[simp] theorem heldTransport_snoc (trace : List (Origin × Event)) (o : Origin) (e : Event) :
    heldTransport (trace ++ [(o, e)]) = e.hold (heldTransport trace) := by
  simp [heldTransport]

theorem Event.hold_of_plain {e : Event} (he : e.plain = true) (held : Option ℕ) :
    e.hold held = held := by
  cases e <;> first | rfl | cases he

theorem heldTransport_of_plain (trace : List (Origin × Event)) (o : Origin) {es : List Event}
    (hes : ∀ e ∈ es, e.plain = true) :
    heldTransport (trace ++ es.map (Prod.mk o)) = heldTransport trace := by
  induction es using List.reverseRecOn with
  | nil => simp
  | append_singleton es e ih =>
      rw [List.map_append, ← List.append_assoc, List.map_singleton, heldTransport_snoc,
        Event.hold_of_plain (hes e (by simp))]
      exact ih fun e' he' => hes e' (List.mem_append_left _ he')

/-! ## The two properties -/

/-- An open client has a transport, and a client whose transport was torn down is not open. -/
structure Consistent (w : Conn) : Prop where
  socket : w.client.state = .kOpen → w.client.transport ≠ none
  dead : heldTransport w.trace = none → w.client.state ≠ .kOpen

/-- When the last section of `Establish` wakes to an accepted upgrade, no `Teardown` has run since
a transport was stored. -/
def WakesHeld (cfg : Config) : Label → Prop
  | .start _ => True
  | .run i _ => ∀ o caller ks, cfg.threads[i]? = some (⟨o, .await caller⟩ :: ks) →
      cfg.shared.client.handshakeDone = true → cfg.shared.client.handshakeError = none →
      heldTransport cfg.shared.trace ≠ none

/-! ## What sections keep -/

section

variable [Target]

/-- `transport_` is the transport that the stores and teardowns have left. -/
theorem Effect.transport {task : Task} {w w' : Conn} {ks : List Task}
    (h : Conn.Effect task w w' ks) (hw : w.client.transport = heldTransport w.trace) :
    w'.client.transport = heldTransport w'.trace := by
  cases h with
  | quiet hq _ =>
      obtain ⟨es, hplain, htrace⟩ := hq.trace
      rw [hq.link.transport, htrace, heldTransport_of_plain _ _ hplain, hw]
  | begins key _ =>
      rw [Conn.beginConnection_trace, heldTransport_snoc]
      exact hw
  | abandons _ => exact hw
  | stores t _ => exact (heldTransport_snoc w.trace _ (.stored t)).symm
  | readsHead rxBuffer e _ _ =>
      rw [Conn.readHead_trace, heldTransport_snoc]
      exact hw
  | opens ms _ hclock _ _ _ =>
      obtain ⟨es, hplain, htrace⟩ := (Conn.readClock_quiet (o := task.origin) hclock).trace
      have hlink := (Conn.readClock_quiet (o := task.origin) hclock).link.transport
      calc (Conn.openConnection _ ms).client.transport = w.client.transport := hlink
        _ = heldTransport w.trace := hw
        _ = heldTransport (Conn.openConnection _ ms).trace := by
          rw [← heldTransport_of_plain w.trace task.origin hplain, ← htrace]; rfl
  | tearsDown code reason _ => exact (heldTransport_snoc w.trace _ (.tornDown code reason)).symm
  | drains rxBuffer _ _ _ he _ =>
      apply hw.trans
      rw [Conn.log_trace, heldTransport_snoc, Event.hold_of_plain he]

omit [Target] in
/-- Both properties say the same while `transport_` is the transport that is held. -/
theorem consistent_iff {w : Conn} (hw : w.client.transport = heldTransport w.trace) :
    Consistent w ↔ (w.client.state = .kOpen → w.client.transport ≠ none) := by
  constructor
  · exact Consistent.socket
  · intro h
    exact ⟨h, fun hdead hopen => h hopen (hw.trans hdead)⟩

/-- Only the wake of `Establish` opens the client. -/
theorem Effect.socket {task : Task} {w w' : Conn} {ks : List Task}
    (h : Conn.Effect task w w' ks) (hw : w.client.state = .kOpen → w.client.transport ≠ none)
    (hwake : ∀ caller, task.sect = .await caller → w.client.handshakeDone = true →
      w.client.handshakeError = none → w.client.transport ≠ none) :
    w'.client.state = .kOpen → w'.client.transport ≠ none := by
  intro hopen
  cases h with
  | quiet hq _ =>
      rw [hq.link.transport]
      exact hw (hq.link.state.symm.trans hopen)
  | begins key _ => cases hopen
  | abandons _ => cases hopen
  | stores t _ => exact Option.some_ne_none t
  | readsHead rxBuffer e _ _ => exact hw hopen
  | opens ms hsect hclock hdone herror _ =>
      have hlink := (Conn.readClock_quiet (o := task.origin) hclock).link.transport
      exact hlink ▸ hwake _ hsect hdone herror
  | tearsDown code reason _ => cases hopen
  | drains rxBuffer _ _ _ _ _ => exact hw hopen

theorem exec_await_now (i : ℕ) (o : Origin) (caller : Caller) (ms : Int) (w : Conn) :
    Conn.exec i ⟨o, .await caller⟩ (.now ms) w =
      if w.client.handshakeDone then
        (w.readClock ms).bind fun v =>
          some ((v.wake caller ms).1, o.tasks (v.wake caller ms).2)
      else none := rfl

theorem exec_await_timeout (i : ℕ) (o : Origin) (caller : Caller) (w : Conn) :
    Conn.exec i ⟨o, .await caller⟩ .timeout w =
      if w.client.handshakeDone then none
      else some (w, o.tasks [.teardown kAbnormalClosure [],
        .established caller (.error Conn.upgradeTimeout)]) := rfl

/-- An accepted upgrade opens the client. -/
theorem exec_await_accepted {i : ℕ} {o : Origin} {caller : Caller} {c : Choice} {w w' : Conn}
    {ks : List Task} (h : Conn.exec i ⟨o, .await caller⟩ c w = some (w', ks))
    (hdone : w.client.handshakeDone = true) (herror : w.client.handshakeError = none) :
    w'.client.state = .kOpen ∧ w'.client.transport = w.client.transport := by
  cases c with
  | now ms =>
      rw [exec_await_now, if_pos hdone] at h
      obtain ⟨v, hclock, h⟩ := Option.bind_eq_some_iff.mp h
      have hlink := (Conn.readClock_quiet (o := o) hclock).link
      obtain ⟨rfl, -⟩ := Prod.mk.inj (Option.some.inj h)
      simp only [Conn.wake, hlink.error, herror]
      exact ⟨rfl, hlink.transport⟩
  | timeout =>
      rw [exec_await_timeout, if_pos hdone] at h
      cases h
  | go | random | answer | data | closed | again | call => cases h

/-- What holds between the sections of every run whose states are consistent. -/
structure Linked (cfg : Config) : Prop where
  transport : cfg.shared.client.transport = heldTransport cfg.shared.trace
  consistent : Consistent cfg.shared

omit [Target] in
/-- A new thread touches neither the link nor the trace. -/
theorem entry_link {e : Entry} {w w' : Conn} {q : List Task} (h : Conn.entry e w = some (w', q)) :
    Conn.SameLink w.client w'.client ∧ w'.connection = w.connection ∧ w'.trace = w.trace := by
  cases e with
  | call c =>
      obtain ⟨rfl, -⟩ := Prod.mk.inj (Option.some.inj h)
      exact ⟨.rfl, rfl, rfl⟩
  | data t bytes | closed t =>
      simp only [Conn.entry] at h
      split at h
      · obtain ⟨rfl, -⟩ := Prod.mk.inj (Option.some.inj h)
        exact ⟨.rfl, rfl, rfl⟩
      · cases h
  | maintain =>
      simp only [Conn.entry] at h
      split at h
      · obtain ⟨rfl, -⟩ := Prod.mk.inj (Option.some.inj h)
        exact ⟨⟨rfl, rfl, rfl, rfl, rfl⟩, rfl, rfl⟩
      · cases h

/-- A step keeps `transport_` in line with the stores and teardowns. -/
theorem step_transport {cfg cfg' : Config} {l : Label}
    (hw : cfg.shared.client.transport = heldTransport cfg.shared.trace)
    (h : program.step cfg l = some cfg') :
    cfg'.shared.client.transport = heldTransport cfg'.shared.trace := by
  obtain ⟨e, w', q, -, hentry, rfl⟩ | ⟨i, c, task, ks, w', ks', -, -, hexec, rfl⟩ :=
    Sections.Program.step_cases h
  · obtain ⟨hlink, -, htrace⟩ := entry_link hentry
    exact hlink.transport.trans (hw.trans (by rw [htrace]))
  · exact Effect.transport (Conn.exec_effect hexec) hw

/-- A step from a consistent state ends in one exactly when it does not wake `Establish` behind a
`Teardown`. -/
theorem step_consistent_iff {cfg cfg' : Config} {l : Label} (hcfg : Linked cfg)
    (h : program.step cfg l = some cfg') : Consistent cfg'.shared ↔ WakesHeld cfg l := by
  have hsocket := (consistent_iff hcfg.transport).mp hcfg.consistent
  rw [consistent_iff (step_transport hcfg.transport h)]
  obtain ⟨e, w', q, rfl, hentry, rfl⟩ | ⟨i, c, task, ks, w', ks', rfl, hget, hexec, rfl⟩ :=
    Sections.Program.step_cases h
  · obtain ⟨hlink, -, -⟩ := entry_link hentry
    refine ⟨fun _ => trivial, fun _ hopen => ?_⟩
    exact hlink.transport ▸ hsocket (hlink.state.symm.trans hopen)
  · constructor
    · intro hopen o caller ks₀ hfront hdone herror
      obtain ⟨rfl, rfl⟩ := List.cons.inj (Option.some.inj (hget.symm.trans hfront))
      obtain ⟨hstate, htransport⟩ := exec_await_accepted hexec hdone herror
      rw [← hcfg.transport, ← htransport]
      exact hopen hstate
    · intro hwake
      apply Effect.socket (Conn.exec_effect hexec) hsocket
      intro caller hsect hdone herror
      rw [hcfg.transport]
      apply hwake task.origin caller ks _ hdone herror
      rw [hget, ← hsect]

/-- Along a run every state is consistent exactly when every accepting wake finds the transport
still held. -/
theorem run_consistent_iff (ls : List Label) :
    Runs.Along program.step (fun _ _ cfg' => Consistent cfg'.shared) initial ls ↔
      Runs.Along program.step (fun cfg l _ => WakesHeld cfg l) initial ls := by
  apply Runs.Along.congr (I := Linked)
  · intro cfg l cfg' hcfg hcons h
    exact ⟨step_transport hcfg.transport h, hcons⟩
  · intro cfg l cfg' hcfg h
    exact step_consistent_iff hcfg h
  · exact ⟨rfl, ⟨fun h => (by cases h), fun _ h => (by cases h)⟩⟩

end

/-! ## A socket that is lost between the answer and the wake -/

/-- "ws://h/". -/
def exampleUrl : Bytes := ascii ['w', 's', ':', '/', '/', 'h', '/']

/-- The key of sixteen zero bytes. -/
def exampleKey : Bytes := makeSecWebSocketKey [0, 0, 0, 0]

/-- The head with which a server accepts an upgrade under a key. -/
def acceptingHead (key : Bytes) : Bytes :=
  httpVersion ++ ascii [' ', '1', '0', '1', ' ', 'X', '\r', '\n'] ++
    fieldLine (acceptName, computeSecWebSocketAccept key) ++ crlf

/-- `Connect` up to its wait: the request has gone out on transport 0. -/
def connectLabels : List Label :=
  [.start (.call (.connect exampleUrl)), .run 0 .go, .run 0 (.random [0, 0, 0, 0]),
    .run 0 (.answer (.ok 0)), .run 0 (.answer (.ok 0)), .run 0 .go, .run 0 .go,
    .run 0 (.answer (.ok 0))]

/-- The server accepts and closes before `Establish` has woken. -/
def lostSocketLabels : List Label :=
  connectLabels ++ [.start (.data 0 (acceptingHead exampleKey)), .run 1 .go, .start (.closed 0),
    .run 2 .go, .run 0 (.now 0)]

/-- The client can be open without a transport. -/
theorem open_without_transport :
    ¬ ∀ cfg, Runs.Reachable (@program esp32).step initial cfg →
      cfg.shared.client.state = .kOpen → cfg.shared.client.transport ≠ none := by
  intro h
  have hrun : (Runs.exec (@program esp32).step initial lostSocketLabels).map
      (fun cfg => (cfg.shared.client.state, cfg.shared.client.transport)) =
      some (.kOpen, none) := by decide +kernel
  obtain ⟨cfg, hcfg, hlost⟩ := Option.map_eq_some_iff.mp hrun
  obtain ⟨hstate, htransport⟩ := Prod.mk.inj hlost
  exact h cfg ⟨_, hcfg⟩ hstate htransport

end EspModemLink.WebSocket
