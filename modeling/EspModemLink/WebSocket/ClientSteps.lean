import EspModemLink.WebSocket.Client

/-!
# What one section of the WebSocket client can do

Most sections leave the link alone: the state, the transport and what is known of the
handshake. The sections that do not are named here one by one.
-/

namespace EspModemLink.WebSocket

open Bytes Http

/-- An event that says nothing about a handshake or about which transport is held. -/
def Event.plain : Event → Bool
  | .began .. => false
  | .head .. => false
  | .stored .. => false
  | .tornDown .. => false
  | _ => true

/-- Sections that are executed for `o`, or for a delivery or a call that comes in meanwhile. -/
def Pushed (o : Origin) (ks : List Task) : Prop :=
  ∀ k ∈ ks, k.origin = o ∨ k.origin = .delivery ∨ k.origin = .app

theorem pushed_tasks (o : Origin) (sects : List Sect) : Pushed o (o.tasks sects) := by
  intro k hk
  obtain ⟨s, -, rfl⟩ := List.mem_map.mp hk
  exact .inl rfl

namespace Conn

@[simp] theorem log_client (w : Conn) (o : Origin) (e : Event) : (w.log o e).client = w.client := rfl
@[simp] theorem log_connection (w : Conn) (o : Origin) (e : Event) :
    (w.log o e).connection = w.connection := rfl
@[simp] theorem log_trace (w : Conn) (o : Origin) (e : Event) :
    (w.log o e).trace = w.trace ++ [(o, e)] := rfl

@[simp] theorem beginConnection_trace (w : Conn) (o : Origin) (key : Bytes) :
    (w.beginConnection o key).trace = w.trace ++ [(o, .began (w.connection + 1) key)] := rfl
@[simp] theorem readHead_trace [Target] (w : Conn) (o : Origin) (e : ℕ) :
    (w.readHead o e).trace = w.trace ++
      [(o, .head w.connection w.client.handshakeKey (w.client.rxBuffer.take (e + 4)))] := rfl

/-! ## Quiet sections -/

/-- The members that decide whether the client is open, and for whom. -/
structure SameLink (c c' : SoftwareWsClient) : Prop where
  state : c'.state = c.state
  transport : c'.transport = c.transport
  key : c'.handshakeKey = c.handshakeKey
  done : c'.handshakeDone = c.handshakeDone
  error : c'.handshakeError = c.handshakeError

theorem SameLink.rfl {c : SoftwareWsClient} : SameLink c c :=
  ⟨.refl _, .refl _, .refl _, .refl _, .refl _⟩

/-- A section for `o` that leaves the link alone and tells nothing about a handshake. -/
structure Quiet (o : Origin) (w w' : Conn) : Prop where
  link : SameLink w.client w'.client
  connection : w'.connection = w.connection
  trace : ∃ es : List Event, (∀ e ∈ es, e.plain = true) ∧ w'.trace = w.trace ++ es.map (Prod.mk o)

theorem Quiet.rfl {o : Origin} {w : Conn} : Quiet o w w := ⟨.rfl, .refl _, [], by simp, by simp⟩

theorem Quiet.trans {o : Origin} {w w' w'' : Conn} (h : Quiet o w w') (h' : Quiet o w' w'') :
    Quiet o w w'' := by
  obtain ⟨es, hplain, htrace⟩ := h.trace
  obtain ⟨es', hplain', htrace'⟩ := h'.trace
  refine ⟨⟨h'.link.state.trans h.link.state, h'.link.transport.trans h.link.transport,
    h'.link.key.trans h.link.key, h'.link.done.trans h.link.done,
    h'.link.error.trans h.link.error⟩, h'.connection.trans h.connection, es ++ es', ?_, ?_⟩
  · intro e he
    obtain he | he := List.mem_append.mp he
    · exact hplain e he
    · exact hplain' e he
  · rw [htrace', htrace, List.map_append, List.append_assoc]

/-- Only other members of the client change. -/
theorem Quiet.client {o : Origin} {w : Conn} {c : SoftwareWsClient} (h : SameLink w.client c) :
    Quiet o w { w with client := c } := ⟨h, .refl _, [], by simp, by simp⟩

theorem Quiet.logged (o : Origin) (w : Conn) {e : Event} (he : e.plain = true) :
    Quiet o w (w.log o e) := ⟨.rfl, .refl _, [e], by simpa using he, by simp⟩

theorem readClock_quiet {o : Origin} {w w' : Conn} {ms : Int} (h : w.readClock ms = some w') :
    Quiet o w w' := by
  simp only [readClock] at h
  split at h
  · obtain rfl := Option.some.inj h
    exact ⟨.rfl, .refl _, [], by simp, by simp⟩
  · cases h

theorem quiet_call (o : Origin) (w : Conn) (c : Call) : Quiet o w (w.call c).1 := by
  cases c with
  | connect url =>
      simp only [call, connect]
      split
      · exact .rfl
      · exact .client ⟨rfl, rfl, rfl, rfl, rfl⟩
  | sendFragment data binary fin =>
      simp only [call, sendFragment]
      split
      · exact .rfl
      · exact .client ⟨rfl, rfl, rfl, rfl, rfl⟩
  | ping payload =>
      simp only [call, ping]
      split <;> exact .rfl
  | setHeader | setTlsConfig | setHeartbeat | setAutoReconnect | close =>
      exact .client ⟨rfl, rfl, rfl, rfl, rfl⟩

theorem quiet_created (o : Origin) (w : Conn) (caller : Caller) (url : ParsedUrl) (key : Bytes)
    (config : TlsConfig) (headers : Fields) (result : Result ℕ) :
    Quiet o w (w.create o caller url key config headers result).1 := by
  cases result with
  | error e => exact .rfl
  | ok n =>
      have hmade : Quiet o w { w with transports := w.transports + 1 } :=
        ⟨.rfl, rfl, [], by simp, by simp⟩
      exact hmade.trans ((Quiet.logged o _ rfl).trans (.logged o _ rfl))

theorem quiet_established (o : Origin) (w : Conn) (caller : Caller) (result : Result Unit) :
    Quiet o w (w.established caller result).1 := by
  cases caller <;> cases result <;> exact .client ⟨rfl, rfl, rfl, rfl, rfl⟩

theorem quiet_sendFrame (o : Origin) (w : Conn) (opcode : WsOpcode) (payload : Bytes) (fin : Bool)
    (caller : FrameCaller) (mask : UInt32) :
    Quiet o w (w.sendFrame opcode payload fin caller mask).1 := by
  simp only [sendFrame]
  split
  · exact .rfl
  · split <;> exact .rfl

theorem quiet_frameSent (o : Origin) (w : Conn) (caller : FrameCaller) (result : Result Unit) :
    Quiet o w (w.frameSent caller result).1 := by
  cases caller <;> cases result <;> exact .rfl

theorem quiet_sendCloseFrame (o : Origin) (w : Conn) (code : ℕ) (reason : Bytes)
    (caller : CloseCaller) (mask : UInt32) :
    Quiet o w (w.sendCloseFrame code reason caller mask).1 := by
  simp only [sendCloseFrame]
  split
  · exact .rfl
  · split
    · exact .client ⟨rfl, rfl, rfl, rfl, rfl⟩
    · split <;> exact .client ⟨rfl, rfl, rfl, rfl, rfl⟩

theorem quiet_sent (o : Origin) (w : Conn) (result : Result ℕ) (caller : SendCaller) :
    Quiet o w (w.sent result caller).1 := by
  cases caller <;> cases result <;> exact .rfl

theorem quiet_handleDataFrame (o : Origin) (w : Conn) (frame : WsFrame) :
    Quiet o w (w.handleDataFrame frame).1 := by
  simp only [handleDataFrame]
  split
  · exact .rfl
  · split
    · exact .rfl
    · split
      · split
        · exact .client ⟨rfl, rfl, rfl, rfl, rfl⟩
        · split <;> exact .client ⟨rfl, rfl, rfl, rfl, rfl⟩
      · split
        · exact .rfl
        · exact .client ⟨rfl, rfl, rfl, rfl, rfl⟩

theorem quiet_handleFrame (o : Origin) (w : Conn) (frame : WsFrame) :
    Quiet o w (w.handleFrame frame).1 := by
  simp only [handleFrame]
  split
  · exact .rfl
  · exact .client ⟨rfl, rfl, rfl, rfl, rfl⟩
  · unfold handleCloseFrame
    split <;> exact .rfl
  · exact quiet_handleDataFrame o w frame

theorem quiet_maintainRead (o : Origin) (w : Conn) : Quiet o w w.maintainRead.1 := by
  simp only [maintainRead]
  split
  · exact .rfl
  · split
    · exact .rfl
    · split <;> exact .rfl

/-! ## The effect of a section -/

variable [Target]

theorem exec_queueInbound (i : ℕ) (o : Origin) (data : Bytes) (w : Conn) :
    exec i ⟨o, .onTransportData data⟩ .go w =
      some ((w.queueInbound o data).1, o.tasks (w.queueInbound o data).2) := rfl

theorem exec_drainFrames (i : ℕ) (o : Origin) (w : Conn) :
    exec i ⟨o, .drainFrames⟩ .go w = some (w.drainFrames o) := rfl

/-- What executing `task` in `w` makes of the connection, and the sections it leaves to do. -/
inductive Effect (task : Task) (w : Conn) : Conn → List Task → Prop
  | quiet {w' : Conn} {ks : List Task} (h : Quiet task.origin w w') (hks : Pushed task.origin ks) :
      Effect task w w' ks
  | begins (key : Bytes) {ks : List Task} (hks : Pushed task.origin ks) :
      Effect task w (w.beginConnection task.origin key) ks
  | abandons {ks : List Task} (hks : Pushed task.origin ks) :
      Effect task w { w with client := { w.client with state := .kDisconnected } } ks
  | stores (t : ℕ) {ks : List Task} (hks : Pushed task.origin ks) :
      Effect task w
        (({ w with client := { w.client with transport := some t } } : Conn).log task.origin
          (.stored t)) ks
  | readsHead (rxBuffer : Bytes) (e : ℕ) {ks : List Task} (hdone : w.client.handshakeDone = false)
      (hks : Pushed task.origin ks) :
      Effect task w
        (readHead { w with client := { w.client with rxBuffer := rxBuffer } } task.origin e) ks
  | opens (ms : Int) {w' : Conn} {ks : List Task} {caller : Caller}
      (hsect : task.sect = .await caller) (hclock : w.readClock ms = some w')
      (hdone : w.client.handshakeDone = true) (herror : w.client.handshakeError = none)
      (hks : Pushed task.origin ks) : Effect task w (w'.openConnection ms) ks
  | tearsDown (code : ℕ) (reason : Bytes) {ks : List Task} (hks : Pushed task.origin ks) :
      Effect task w
        (({ w with client := dropTransport w.client } : Conn).log task.origin
          (.tornDown code reason)) ks
  | drains (rxBuffer : Bytes) {e : Event} {ks : List Task} (hsect : task.sect = .drainFrames)
      (hdone : w.client.handshakeDone = true)
      (hread : (takeFrame w.client.rxBuffer).1 ≠ .incomplete) (he : e.plain = true)
      (hks : ∀ k ∈ ks, k.origin = .frame w.connection ∨ k.origin = task.origin) :
      Effect task w
        (({ w with client := { w.client with rxBuffer := rxBuffer } } : Conn).log
          (.frame w.connection) e) ks

variable {task : Task} {w : Conn}

/-- A quiet section that leaves its own sections in front. -/
theorem Effect.of_push {v w' : Conn} {sects : List Sect} {ks : List Task}
    (h : some (v, task.origin.tasks sects) = some (w', ks)) (hq : Quiet task.origin w v) :
    Effect task w w' ks := by
  obtain ⟨rfl, rfl⟩ := Prod.mk.inj (Option.some.inj h)
  exact .quiet hq (pushed_tasks _ _)

/-- The same behind a reading of the clock. -/
theorem Effect.of_clock {ms : Int} {f : Conn → Conn} {sects : Conn → List Sect} {w' : Conn}
    {ks : List Task}
    (h : ((w.readClock ms).bind fun w => some (f w, task.origin.tasks (sects w))) = some (w', ks))
    (hq : ∀ w, Quiet task.origin w (f w)) : Effect task w w' ks := by
  obtain ⟨v, hclock, h⟩ := Option.bind_eq_some_iff.mp h
  exact .of_push h ((readClock_quiet hclock).trans (hq v))

theorem effect_establish (caller : Caller) (url : Bytes) (words : List UInt32) :
    Effect task w (w.establish task.origin caller url words).1
      (task.origin.tasks (w.establish task.origin caller url words).2) := by
  simp only [establish]
  split
  · exact .quiet .rfl (pushed_tasks _ _)
  · split
    · exact .quiet .rfl (pushed_tasks _ _)
    · exact .begins _ (pushed_tasks _ _)

/-- `Establish` wakes to an answer: the client is open unless the upgrade was refused. -/
theorem effect_wake {caller : Caller} {ms : Int} {v : Conn} (hsect : task.sect = .await caller)
    (hclock : w.readClock ms = some v) (hdone : w.client.handshakeDone = true) :
    Effect task w (v.wake caller ms).1 (task.origin.tasks (v.wake caller ms).2) := by
  have hquiet : Quiet task.origin w v := readClock_quiet hclock
  simp only [wake]
  split
  · exact .quiet hquiet (pushed_tasks _ _)
  · rename_i herror
    exact .opens ms hsect hclock hdone (hquiet.link.error ▸ herror) (pushed_tasks _ _)

/-- `QueueInbound` reads the head once, while the handshake is not done. -/
theorem effect_queueInbound (data : Bytes) :
    Effect task w (w.queueInbound task.origin data).1
      (task.origin.tasks (w.queueInbound task.origin data).2) := by
  simp only [queueInbound]
  split
  · exact .quiet (.client ⟨rfl, rfl, rfl, rfl, rfl⟩) (pushed_tasks _ _)
  · split
    · exact .quiet (.client ⟨rfl, rfl, rfl, rfl, rfl⟩) (pushed_tasks _ _)
    · rename_i hdone
      simp only [consumeHandshake]
      split
      · exact .quiet (.client ⟨rfl, rfl, rfl, rfl, rfl⟩) (pushed_tasks _ _)
      · exact .readsHead _ _ (Bool.eq_false_iff.mpr hdone) (pushed_tasks _ _)

theorem effect_drainFrames (hsect : task.sect = .drainFrames) :
    Effect task w (w.drainFrames task.origin).1 (w.drainFrames task.origin).2 := by
  simp only [drainFrames]
  split
  · exact .quiet .rfl (by simp [Pushed])
  · rename_i hdone
    rw [Bool.not_eq_false] at hdone
    split
    · exact .quiet .rfl (by simp [Pushed])
    · rename_i hread
      apply Effect.drains w.client.rxBuffer hsect hdone (by simp [hread]) rfl
      intro k hk
      obtain ⟨s, -, rfl⟩ := List.mem_map.mp hk
      exact .inl rfl
    · rename_i hread
      apply Effect.drains _ hsect hdone (by simp [hread]) rfl
      intro k hk
      obtain hk | hk := List.mem_append.mp hk
      · obtain ⟨s, -, rfl⟩ := List.mem_map.mp hk
        exact .inl rfl
      · obtain ⟨s, -, rfl⟩ := List.mem_map.mp hk
        exact .inr rfl

theorem effect_deliverWithin {c : Choice} {w' : Conn} {ks : List Task}
    (h : w.deliverWithin task c = some (w', ks)) : Effect task w w' ks := by
  simp only [deliverWithin, Option.map_eq_some_iff, Prod.mk.injEq] at h
  obtain ⟨tasks, hdelivery, rfl, rfl⟩ := h
  apply Effect.quiet .rfl
  intro k hk
  obtain hk | hk := List.mem_append.mp hk
  · cases c <;> simp [delivery] at hdelivery <;> subst hdelivery <;>
      exact .inr (.inl (by simp [List.mem_singleton.mp hk]))
  · exact .inl (by rw [List.mem_singleton.mp hk])

/-- Everything that a section can do to the link. -/
theorem exec_effect {i : ℕ} {c : Choice} {w' : Conn} {ks : List Task}
    (h : exec i task c w = some (w', ks)) : Effect task w w' ks := by
  obtain ⟨o, s⟩ := task
  unfold exec at h
  dsimp only at h
  split at h
  -- calls and `Establish`
  · exact .of_push h (quiet_call _ _ _)
  · obtain ⟨rfl, rfl⟩ := Prod.mk.inj (Option.some.inj h)
    exact effect_establish _ _ _
  · exact .of_push h (quiet_created _ _ _ _ _ _ _ _)
  · obtain ⟨rfl, rfl⟩ := Prod.mk.inj (Option.some.inj h)
    exact .abandons (pushed_tasks _ _)
  · split at h <;> exact .of_push h .rfl
  · exact effect_deliverWithin h
  · obtain ⟨rfl, rfl⟩ := Prod.mk.inj (Option.some.inj h)
    exact .stores _ (pushed_tasks _ _)
  · split at h
    · rename_i hdone
      obtain ⟨v, hclock, h⟩ := Option.bind_eq_some_iff.mp h
      obtain ⟨rfl, rfl⟩ := Prod.mk.inj (Option.some.inj h)
      exact effect_wake rfl hclock hdone
    · cases h
  · split at h
    · cases h
    · exact .of_push h .rfl
  · exact .of_push h (quiet_established _ _ _ _)
  -- `Close` and sending
  · simp only [closing] at h
    split at h <;> exact .of_push h .rfl
  · split at h
    · exact .of_push h .rfl
    · cases h
  · exact .of_push h .rfl
  · exact .of_push h (quiet_sendFrame _ _ _ _ _ _ _)
  · exact .of_push h (quiet_frameSent _ _ _ _)
  · exact .of_push h (quiet_sendCloseFrame _ _ _ _ _ _)
  · rename_i caller
    cases caller <;> exact .of_push h .rfl
  · exact .of_push h (.logged _ _ rfl)
  · exact .of_push h ((Quiet.logged _ _ rfl).trans (quiet_sent _ _ _ _))
  · exact effect_deliverWithin h
  · exact .of_clock h fun _ => .client ⟨rfl, rfl, rfl, rfl, rfl⟩
  · exact .of_clock h fun _ => .rfl
  · exact .of_push h (.client ⟨rfl, rfl, rfl, rfl, rfl⟩)
  -- receiving
  · obtain ⟨rfl, rfl⟩ := Prod.mk.inj (Option.some.inj h)
    exact effect_queueInbound _
  · split at h
    · exact .of_push h .rfl
    · exact .of_push h ⟨.rfl, rfl, [], by simp, by simp⟩
  · have heffect : Effect ⟨o, .drainFrames⟩ w (w.drainFrames o).1 (w.drainFrames o).2 :=
      effect_drainFrames rfl
    rw [Option.some.inj h] at heffect
    exact heffect
  · exact .of_push h ⟨.rfl, rfl, [], by simp, by simp⟩
  · exact .of_push h (quiet_handleFrame _ _ _)
  · exact .of_push h (.client ⟨rfl, rfl, rfl, rfl, rfl⟩)
  -- ending
  · obtain ⟨rfl, rfl⟩ := Prod.mk.inj (Option.some.inj h)
    exact .tearsDown _ _ (pushed_tasks _ _)
  · exact .of_push h (.logged _ _ rfl)
  · exact .of_push h .rfl
  · exact effect_deliverWithin h
  · exact .of_push h (.client ⟨rfl, rfl, rfl, rfl, rfl⟩)
  · exact .of_push h (.client ⟨rfl, rfl, rfl, rfl, rfl⟩)
  -- the maintenance task
  · simp only [joinMaintain] at h
    split at h <;> exact .of_push h .rfl
  · simp only [joining] at h
    split at h
    · exact .of_push h (.client ⟨rfl, rfl, rfl, rfl, rfl⟩)
    · cases h
  · exact .of_push h (.client ⟨rfl, rfl, rfl, rfl, rfl⟩)
  · simp only [createTask] at h
    split at h
    · exact .of_push h (.client ⟨rfl, rfl, rfl, rfl, rfl⟩)
    · cases h
  · exact .of_push h (.client ⟨rfl, rfl, rfl, rfl, rfl⟩)
  · exact .of_push h .rfl
  · exact .of_push h .rfl
  · exact .of_push h (quiet_maintainRead _ _)
  · exact .of_push h (.client ⟨rfl, rfl, rfl, rfl, rfl⟩)
  · exact .of_clock h fun _ => .rfl
  · simp only [heartbeatPing] at h
    split at h
    · exact .of_push h .rfl
    · split at h <;> exact .of_push h .rfl
  · simp only [heartbeatIdle] at h
    split at h <;> exact .of_push h .rfl
  · simp only [giveUp] at h
    split at h <;> exact .of_push h .rfl
  · exact .of_push h (.client ⟨rfl, rfl, rfl, rfl, rfl⟩)
  · split at h
    · exact .of_push h .rfl
    · cases h
  · exact .of_push h .rfl
  · exact .of_push h .rfl
  · exact .of_push h (.client ⟨rfl, rfl, rfl, rfl, rfl⟩)
  · exact .of_push h (.logged _ _ rfl)
  · exact .of_push h .rfl
  · obtain ⟨rfl, rfl⟩ := Prod.mk.inj (Option.some.inj h)
    exact .quiet .rfl (by simp [Pushed])
  · exact .of_push h (.logged _ _ rfl)
  · cases h

end Conn

end EspModemLink.WebSocket
