import EspModemLink.Library.Alternation
import EspModemLink.WebSocket.ControlFlow

/-!
# Connected and disconnected

`Connect` calls `on_connected` when the connection has been open for a while, and `Teardown` calls
`on_disconnected` when it has been closed for a while. No lock is held over either, so what is
opened and closed meanwhile decides in which order the application hears of it.
-/

namespace EspModemLink.WebSocket

open Bytes Http Sections Alternation

/-! ## The calls -/

/-- `on_connected` is `true` and `on_disconnected` is `false`. -/
def Callback.notification : Callback → Option Bool
  | .connected => some true
  | .disconnected .. => some false
  | _ => none

def Event.callback? : Event → Option Callback
  | .callback c => some c
  | _ => none

def Sect.callback? : Sect → Option Callback
  | .callback c => some c
  | _ => none

/-- The callbacks that were called. -/
def callbacks (trace : List (Origin × Event)) : List Callback :=
  trace.filterMap fun e => e.2.callback?

/-- The calls of `on_connected` and `on_disconnected`. -/
def notifications (trace : List (Origin × Event)) : List Bool :=
  (callbacks trace).filterMap Callback.notification

@[simp] theorem callbacks_nil : callbacks [] = [] := rfl

@[simp] theorem callbacks_cons (o : Origin) (e : Event) (trace : List (Origin × Event)) :
    callbacks ((o, e) :: trace) = e.callback?.toList ++ callbacks trace := by
  cases h : e.callback? <;> simp [callbacks, h]

@[simp] theorem callbacks_append (trace more : List (Origin × Event)) :
    callbacks (trace ++ more) = callbacks trace ++ callbacks more := List.filterMap_append

/-! ## What is due -/

/-- A section of an attempt of `Establish`. -/
def Kind.attempting : Kind → Bool
  | .create _ | .abandon _ | .transportConnect _ | .store .. | .await _ => true
  | .transportSend (.establish _) _ | .sending (.establish _) _ => true
  | _ => false

/-- A section that reports the failure of `Establish`. -/
def Kind.reports : Kind → Bool
  | .established _ ok => !ok
  | _ => false

/-- A section that a call of `on_connected` is due in. -/
def Kind.announcing : Kind → Bool
  | .established _ ok => ok
  | .onConnected => true
  | _ => false

/-- A section that a call of `on_disconnected` is due in. -/
def Kind.parting : Kind → Bool
  | .notifyDisconnected | .onDisconnected => true
  | _ => false

def Task.unfinished (task : Task) : Bool := task.sect.kind.attempting || task.sect.kind.reports
def Task.announcing (task : Task) : Bool := task.sect.kind.announcing
def Task.parting (task : Task) : Bool := task.sect.kind.parting

/-- An attempt is over once the report of its failure is what its thread does next. -/
def unreported : List Task → List Task
  | [] => []
  | task :: rest => if task.sect.kind.reports then rest else task :: rest

/-- No attempt of `Establish` is under way. -/
def NoAttempt (cfg : Config) : Prop :=
  Free Task.unfinished (⟨cfg.shared, cfg.threads.map unreported⟩ : Config)

/-- `Establish` begins an attempt: the URL is good and the client is disconnected. -/
def Begins (w : Conn) (url : Bytes) : Prop :=
  (parseWebSocketUrl url).isOk = true ∧ w.client.state = .kDisconnected

/-- `Establish` wakes to an accepted upgrade. -/
def UpgradeAccepted (w : Conn) : Prop :=
  w.client.handshakeDone = true ∧ w.client.handshakeError = none

/-- An attempt begins while no other one is under way, opens the connection while it has a transport
and no call of `on_disconnected` is due, and a `Teardown` closes an open connection once its
`on_connected` has been called. -/
def Sect.InTurn (cfg : Config) : Sect → Prop
  | .establish _ url => Begins cfg.shared url → NoAttempt cfg
  | .await _ => UpgradeAccepted cfg.shared →
      cfg.shared.client.transport ≠ none ∧ Free Task.parting cfg
  | .teardown .. => cfg.shared.client.state = .kOpen → Free Task.announcing cfg
  | _ => True

def InTurn (cfg : Config) (l : Label) : Prop := ∀ task ∈ l.front cfg, task.sect.InTurn cfg

instance (cfg : Config) (s : Sect) : Decidable (s.InTurn cfg) := by
  unfold Sect.InTurn Begins NoAttempt UpgradeAccepted
  split <;> infer_instance

instance (cfg : Config) (l : Label) : Decidable (InTurn cfg l) := by
  unfold InTurn
  infer_instance

/-- The calls alternate, and no thread has one due before it reports that an attempt failed. -/
structure Notified (cfg : Config) : Prop where
  alternates : Alternates (notifications cfg.shared.trace)
  failed : ∀ q ∈ cfg.threads, q.Pairwise fun due report =>
    report.sect.kind.reports = true → due.announcing = false ∧ due.parting = false

/-! ## What a section calls -/

section

variable {i : ℕ} {task : Task} {c : Choice} {w w' v : Conn} {ks : List Task} {sects : List Sect}

theorem callbacks_of_push {o : Origin} (h : some (v, o.tasks sects) = some (w', ks))
    (hv : callbacks v.trace = callbacks w.trace ++ task.sect.callback?.toList) :
    callbacks w'.trace = callbacks w.trace ++ task.sect.callback?.toList := by
  obtain ⟨rfl, -⟩ := Prod.mk.inj (Option.some.inj h)
  exact hv

theorem callbacks_of_clock {o : Origin} {ms : Int} {f : Conn → Conn} {sects : Conn → List Sect}
    (h : ((w.readClock ms).bind fun w => some (f w, o.tasks (sects w))) = some (w', ks))
    (hf : ∀ v, (f v).trace = v.trace) (hsect : task.sect.callback? = none) :
    callbacks w'.trace = callbacks w.trace ++ task.sect.callback?.toList := by
  obtain ⟨v, hv, h⟩ := Option.bind_eq_some_iff.mp h
  obtain ⟨-, rfl⟩ := readClock_eq hv
  exact callbacks_of_push h (by simp [hf, hsect])

theorem callbacks_of_deliverWithin (h : w.deliverWithin task c = some (w', ks))
    (hsect : task.sect.callback? = none) :
    callbacks w'.trace = callbacks w.trace ++ task.sect.callback?.toList := by
  simp only [Conn.deliverWithin, Option.map_eq_some_iff, Prod.mk.injEq] at h
  obtain ⟨tasks, -, rfl, -⟩ := h
  simp [hsect]

theorem trace_call (cl : Call) : (w.call cl).1.trace = w.trace := by
  cases cl with
  | connect url =>
      simp only [Conn.call, Conn.connect]
      split <;> rfl
  | sendFragment data binary fin =>
      simp only [Conn.call, Conn.sendFragment]
      split <;> rfl
  | ping payload =>
      simp only [Conn.call, Conn.ping]
      split <;> rfl
  | setHeader | setTlsConfig | setHeartbeat | setAutoReconnect | close => rfl

theorem trace_handleFrame (frame : WsFrame) : (w.handleFrame frame).1.trace = w.trace := by
  simp only [Conn.handleFrame]
  split
  · rfl
  · rfl
  · unfold Conn.handleCloseFrame
    split <;> rfl
  · simp only [Conn.handleDataFrame]
    split
    · rfl
    · split
      · rfl
      · split
        · split
          · rfl
          · split <;> rfl
        · split <;> rfl

/-- A section calls the application back if and only if it is a callback. -/
theorem exec_callbacks [Target] (h : Conn.exec i task c w = some (w', ks)) :
    callbacks w'.trace = callbacks w.trace ++ task.sect.callback?.toList := by
  obtain ⟨o, s⟩ := task
  unfold Conn.exec at h
  dsimp only at h
  split at h
  -- calls and `Establish`
  · exact callbacks_of_push h (by simp [trace_call, Sect.callback?])
  · refine callbacks_of_push h ?_
    simp only [Conn.establish]
    split
    · simp [Sect.callback?]
    · split <;> simp [Sect.callback?, Event.callback?]
  · rename_i result
    refine callbacks_of_push h ?_
    cases result <;> simp [Conn.create, Sect.callback?, Event.callback?]
  · exact callbacks_of_push h (by simp [Conn.abandon, Sect.callback?])
  · split at h <;> exact callbacks_of_push h (by simp [Sect.callback?])
  · exact callbacks_of_deliverWithin h rfl
  · exact callbacks_of_push h (by simp [Conn.store, Sect.callback?, Event.callback?])
  · split at h
    · obtain ⟨v, hclock, h⟩ := Option.bind_eq_some_iff.mp h
      obtain ⟨-, rfl⟩ := readClock_eq hclock
      refine callbacks_of_push h ?_
      simp only [Conn.wake]
      split <;> simp [Conn.openConnection, Sect.callback?]
    · cases h
  · split at h
    · cases h
    · exact callbacks_of_push h (by simp [Sect.callback?])
  · rename_i caller result
    refine callbacks_of_push h ?_
    cases caller <;> cases result <;> simp [Conn.established, Sect.callback?]
  -- `Close` and sending
  · simp only [Conn.closing] at h
    split at h <;> exact callbacks_of_push h (by simp [Sect.callback?])
  · split at h
    · exact callbacks_of_push h (by simp [Sect.callback?])
    · cases h
  · exact callbacks_of_push h (by simp [Sect.callback?])
  · refine callbacks_of_push h ?_
    simp only [Conn.sendFrame]
    split
    · simp [Sect.callback?]
    · split <;> simp [Sect.callback?]
  · rename_i caller result
    refine callbacks_of_push h ?_
    cases caller <;> cases result <;> simp [Conn.frameSent, Sect.callback?]
  · refine callbacks_of_push h ?_
    simp only [Conn.sendCloseFrame]
    split
    · simp [Sect.callback?]
    · split
      · simp [Sect.callback?]
      · split <;> simp [Sect.callback?]
  · rename_i caller
    refine callbacks_of_push h ?_
    cases caller <;> simp [Conn.closeFrameSent, Sect.callback?]
  · exact callbacks_of_push h (by simp [Sect.callback?, Event.callback?])
  · rename_i caller result
    refine callbacks_of_push h ?_
    cases caller <;> cases result <;> simp [Conn.sent, Sect.callback?, Event.callback?]
  · exact callbacks_of_deliverWithin h rfl
  · exact callbacks_of_clock h (fun _ => rfl) rfl
  · exact callbacks_of_clock h (fun _ => rfl) rfl
  · exact callbacks_of_push h (by simp [Sect.callback?])
  -- receiving
  · refine callbacks_of_push h ?_
    simp only [Conn.queueInbound]
    split
    · simp [Sect.callback?]
    · split
      · simp [Sect.callback?]
      · simp only [Conn.consumeHandshake]
        split <;> simp [Sect.callback?, Event.callback?]
  · split at h <;> exact callbacks_of_push h (by simp [Sect.callback?])
  · simp only [Conn.drainFrames] at h
    split at h
    · obtain ⟨rfl, -⟩ := Prod.mk.inj (Option.some.inj h)
      simp [Sect.callback?]
    · split at h <;> obtain ⟨rfl, -⟩ := Prod.mk.inj (Option.some.inj h) <;>
        simp [Sect.callback?, Event.callback?]
  · exact callbacks_of_push h (by simp [Sect.callback?])
  · exact callbacks_of_push h (by simp [trace_handleFrame, Sect.callback?])
  · exact callbacks_of_push h (by simp [Conn.answerClose, Sect.callback?])
  -- ending
  · exact callbacks_of_push h (by simp [Conn.teardown, Sect.callback?, Event.callback?])
  · exact callbacks_of_push h (by simp [Sect.callback?, Event.callback?])
  · exact callbacks_of_push h (by simp [Sect.callback?])
  · exact callbacks_of_deliverWithin h rfl
  · exact callbacks_of_push h (by simp [Sect.callback?])
  · exact callbacks_of_push h (by simp [Sect.callback?])
  -- the maintenance task
  · simp only [Conn.joinMaintain] at h
    split at h <;> exact callbacks_of_push h (by simp [Sect.callback?])
  · simp only [Conn.joining] at h
    split at h
    · exact callbacks_of_push h (by simp [Sect.callback?])
    · cases h
  · exact callbacks_of_push h (by simp [Sect.callback?])
  · simp only [Conn.createTask] at h
    split at h
    · exact callbacks_of_push h (by simp [Sect.callback?])
    · cases h
  · exact callbacks_of_push h (by simp [Sect.callback?])
  · exact callbacks_of_push h (by simp [Sect.callback?])
  · exact callbacks_of_push h (by simp [Sect.callback?])
  · simp only [Conn.maintainRead] at h
    split at h
    · exact callbacks_of_push h (by simp [Sect.callback?])
    · split at h
      · exact callbacks_of_push h (by simp [Sect.callback?])
      · split at h <;> exact callbacks_of_push h (by simp [Sect.callback?])
  · exact callbacks_of_push h (by simp [Conn.maintainOpen, Sect.callback?])
  · exact callbacks_of_clock h (fun _ => rfl) rfl
  · simp only [Conn.heartbeatPing] at h
    split at h
    · exact callbacks_of_push h (by simp [Sect.callback?])
    · split at h <;> exact callbacks_of_push h (by simp [Sect.callback?])
  · simp only [Conn.heartbeatIdle] at h
    split at h <;> exact callbacks_of_push h (by simp [Sect.callback?])
  · simp only [Conn.giveUp] at h
    split at h <;> exact callbacks_of_push h (by simp [Sect.callback?])
  · exact callbacks_of_push h (by simp [Sect.callback?])
  · split at h
    · exact callbacks_of_push h (by simp [Sect.callback?])
    · cases h
  · exact callbacks_of_push h (by simp [Sect.callback?])
  · exact callbacks_of_push h (by simp [Sect.callback?])
  · exact callbacks_of_push h (by simp [Sect.callback?])
  -- callbacks
  · exact callbacks_of_push h (by simp [Sect.callback?, Event.callback?])
  · exact callbacks_of_push h (by simp [Sect.callback?])
  · obtain ⟨rfl, -⟩ := Prod.mk.inj (Option.some.inj h)
    simp [Sect.callback?]
  · exact callbacks_of_push h (by simp [Sect.callback?, Event.callback?])
  · cases h

/-! ## What a section does about connections -/

def Sect.notification? (s : Sect) : Option Bool := s.callback?.bind Callback.notification

/-- A section of an attempt, or one that a call is due in. -/
def Kind.due (k : Kind) : Bool := k.attempting || k.reports || k.announcing || k.parting

/-- A section that neither is nor comes to one of those, and leaves the connection as it is. -/
def Kind.bystander (k : Kind) : Bool :=
  !k.due && k.next.all (fun k' => !k'.due) && .state ∉ k.writes && .transport ∉ k.writes

/-- How much of an attempt is left, with which calls. -/
structure Weighs (ks : List Task) (unfinished announcing parting : ℕ) : Prop where
  unfinished : weight (fun task => task.unfinished.toNat) (unreported ks) = unfinished
  announcing : weight (fun task => task.announcing.toNat) ks = announcing
  parting : weight (fun task => task.parting.toNat) ks = parting

theorem mem_of_mem_unreported {q : List Task} (h : task ∈ unreported q) : task ∈ q := by
  cases q with
  | nil => exact h
  | cons front rest =>
      rw [unreported] at h
      split at h
      · exact List.mem_cons_of_mem _ h
      · exact h

theorem not_due (h : task.sect.kind.due = false) :
    task.unfinished = false ∧ task.announcing = false ∧ task.parting = false := by
  rw [Kind.due, Bool.or_eq_false_iff, Bool.or_eq_false_iff] at h
  exact ⟨h.1.1, h.1.2, h.2⟩

theorem weighs_zero (h : ∀ k ∈ ks, k.sect.kind.due = false) : Weighs ks 0 0 0 := by
  constructor
  · refine weight_eq_zero fun k hk => ?_
    rw [(not_due (h k (mem_of_mem_unreported hk))).1, Bool.toNat_false]
  · exact weight_eq_zero fun k hk => by rw [(not_due (h k hk)).2.1, Bool.toNat_false]
  · exact weight_eq_zero fun k hk => by rw [(not_due (h k hk)).2.2, Bool.toNat_false]

theorem silent_of_kind {s : Sect} (hannouncing : s.kind.announcing = false)
    (hparting : s.kind.parting = false) : s.notification? = none := by
  cases s with
  | callback c =>
      cases c with
      | connected => cases hannouncing
      | disconnected => cases hparting
      | message | pong | error => rfl
  | _ => rfl

/-- What executing `task` in `w` makes of the connection and of the calls that are due. -/
inductive Turns (task : Task) (w w' : Conn) (ks : List Task) : Prop
  | aside {unfinished : ℕ} (hks : Weighs ks unfinished task.announcing.toNat task.parting.toNat)
      (hunfinished : unfinished ≤ task.sect.kind.attempting.toNat)
      (hsilent : task.sect.notification? = none) (hstate : w'.client.state = w.client.state)
      (htransport : w.client.transport ≠ none → w'.client.transport ≠ none)
  | begins {caller : Caller} {url : Bytes} (hsect : task.sect = .establish caller url)
      (hbegins : Begins w url) (hks : Weighs ks 1 0 0) (hstate : w'.client.state ≠ .kOpen)
  | abandons {caller : Caller} {e : NetworkError} (hsect : task.sect = .abandon caller e)
      (hks : Weighs ks 0 0 0) (hstate : w'.client.state ≠ .kOpen)
  | opens {caller : Caller} (hsect : task.sect = .await caller) (haccepted : UpgradeAccepted w)
      (hks : Weighs ks 0 1 0) (hstate : w'.client.state = .kOpen)
      (htransport : w'.client.transport = w.client.transport)
  | announces (hsect : task.sect = .callback .connected) (hks : Weighs ks 0 0 0)
      (hclient : w'.client = w.client)
  | closes {code : ℕ} {reason : Bytes} (hsect : task.sect = .teardown code reason)
      (hopen : w.client.state = .kOpen) (hks : Weighs ks 0 0 1) (hstate : w'.client.state ≠ .kOpen)
  | drops {code : ℕ} {reason : Bytes} (hsect : task.sect = .teardown code reason)
      (hopen : w.client.state = .kOpen → w.client.transport = none) (hks : Weighs ks 0 0 0)
      (hstate : w'.client.state ≠ .kOpen)
  | parts {code : ℕ} {reason : Bytes} (hsect : task.sect = .callback (.disconnected code reason))
      (hks : Weighs ks 0 0 0) (hclient : w'.client = w.client)

theorem Turns.of_bystander (h : Flows task.sect.kind w w' ks)
    (hbystander : task.sect.kind.bystander = true) : Turns task w w' ks := by
  simp only [Kind.bystander, Bool.and_eq_true, Bool.not_eq_true', List.all_eq_true,
    decide_eq_true_eq] at hbystander
  obtain ⟨⟨⟨hdue, hnext⟩, hstate⟩, htransport⟩ := hbystander
  rw [Kind.due, Bool.or_eq_false_iff, Bool.or_eq_false_iff] at hdue
  have hks : Weighs ks 0 0 0 := weighs_zero fun k hk => hnext _ (h.next k hk)
  refine .aside ?_ (Nat.zero_le _) (silent_of_kind hdue.1.2 hdue.2) (h.keeps.state hstate) ?_
  · rw [Task.announcing, Task.parting, hdue.1.2, hdue.2]
    exact hks
  · rw [h.keeps.transport htransport]
    exact id

/-- A section that leaves sections of its own and the connection as it is. -/
theorem Turns.of_push {o : Origin} {a : ℕ} (h : some (v, o.tasks sects) = some (w', ks))
    (hks : Weighs (o.tasks sects) a task.announcing.toNat task.parting.toNat)
    (ha : a ≤ task.sect.kind.attempting.toNat) (hsilent : task.sect.notification? = none)
    (hstate : v.client.state = w.client.state)
    (htransport : w.client.transport ≠ none → v.client.transport ≠ none) : Turns task w w' ks := by
  obtain ⟨rfl, rfl⟩ := Prod.mk.inj (Option.some.inj h)
  exact .aside hks ha hsilent hstate htransport

/-- A delivery comes in front of a section of an attempt. -/
theorem turns_deliverWithin (h : w.deliverWithin task c = some (w', ks))
    (hattempting : task.sect.kind.attempting = true) (hsilent : task.sect.notification? = none) :
    Turns task w w' ks := by
  simp only [Conn.deliverWithin, Option.map_eq_some_iff, Prod.mk.injEq] at h
  obtain ⟨tasks, hdelivery, rfl, rfl⟩ := h
  have hfirst : ∃ first, tasks = [first] ∧ first.sect.kind.due = false := by
    cases c <;> simp only [Conn.delivery, Option.some.injEq, reduceCtorEq] at hdelivery <;>
      exact ⟨_, hdelivery.symm, rfl⟩
  obtain ⟨first, rfl, hfirst⟩ := hfirst
  obtain ⟨hunfinished, hannouncing, hparting⟩ := not_due hfirst
  have hreports : first.sect.kind.reports = false := (Bool.or_eq_false_iff.mp hunfinished).2
  have hks : Weighs ([first] ++ [task]) 1 task.announcing.toNat task.parting.toNat := by
    have htask : task.unfinished = true := by rw [Task.unfinished, hattempting, Bool.true_or]
    constructor
    · simp [unreported, hreports, hunfinished, htask]
    · simp [hannouncing]
    · simp [hparting]
  exact .aside hks (by rw [hattempting]; rfl) hsilent rfl id

theorem turns_establish {o : Origin} {caller : Caller} {url : Bytes} {words : List UInt32}
    (h : some ((w.establish o caller url words).1, o.tasks (w.establish o caller url words).2) =
      some (w', ks)) : Turns ⟨o, .establish caller url⟩ w w' ks := by
  simp only [Conn.establish] at h
  split at h
  · exact .of_push h ⟨rfl, rfl, rfl⟩ (Nat.zero_le _) rfl rfl id
  · rename_i parsed hparsed
    split at h
    · exact .of_push h ⟨rfl, rfl, rfl⟩ (Nat.zero_le _) rfl rfl id
    · rename_i hstate
      obtain ⟨rfl, rfl⟩ := Prod.mk.inj (Option.some.inj h)
      refine .begins rfl ⟨?_, not_not.mp hstate⟩ ⟨rfl, rfl, rfl⟩ ?_
      · rw [hparsed]
        rfl
      · simp [Conn.beginConnection, Conn.log, Conn.beginHandshake]

theorem turns_create {o : Origin} {caller : Caller} {url : ParsedUrl} {key : Bytes}
    {config : TlsConfig} {headers : Fields} {result : Result ℕ}
    (h : some ((w.create o caller url key config headers result).1,
      o.tasks (w.create o caller url key config headers result).2) = some (w', ks)) :
    Turns ⟨o, .create caller url key config headers⟩ w w' ks := by
  cases result with
  | error e => exact .of_push h ⟨rfl, rfl, rfl⟩ (Nat.le_refl 1) rfl rfl id
  | ok n => exact .of_push h ⟨rfl, rfl, rfl⟩ (Nat.le_refl 1) rfl rfl id

theorem turns_wake {o : Origin} {caller : Caller} {ms : Int} (hclient : v.client = w.client)
    (hdone : w.client.handshakeDone = true)
    (h : some ((v.wake caller ms).1, o.tasks (v.wake caller ms).2) = some (w', ks)) :
    Turns ⟨o, .await caller⟩ w w' ks := by
  simp only [Conn.wake] at h
  split at h
  · exact .of_push h ⟨rfl, rfl, rfl⟩ (Nat.le_refl 1) rfl (by rw [hclient])
      (by rw [hclient]; exact id)
  · rename_i herror
    obtain ⟨rfl, rfl⟩ := Prod.mk.inj (Option.some.inj h)
    rw [hclient] at herror
    exact .opens rfl ⟨hdone, herror⟩ ⟨rfl, rfl, rfl⟩ rfl (by simp [Conn.openConnection, hclient])

theorem turns_established {o : Origin} {caller : Caller} {result : Result Unit}
    (h : some ((w.established caller result).1, o.tasks (w.established caller result).2) =
      some (w', ks)) : Turns ⟨o, .established caller result⟩ w w' ks := by
  cases caller <;> cases result <;>
    exact .of_push h ⟨rfl, rfl, rfl⟩ (Nat.zero_le _) rfl rfl id

theorem turns_teardown {o : Origin} {code : ℕ} {reason : Bytes}
    (h : some ((w.teardown o code reason).1, o.tasks (w.teardown o code reason).2) =
      some (w', ks)) : Turns ⟨o, .teardown code reason⟩ w w' ks := by
  obtain ⟨rfl, rfl⟩ := Prod.mk.inj (Option.some.inj h)
  by_cases hopen : w.client.state = .kOpen ∧ w.client.transport ≠ none
  · obtain ⟨t, ht⟩ := Option.ne_none_iff_exists'.mp hopen.2
    refine .closes rfl hopen.1 ?_ (by simp [Conn.teardown, Conn.log, Conn.dropTransport])
    simp only [Conn.teardown, hopen.1, ht]
    exact ⟨rfl, rfl, rfl⟩
  · refine .drops rfl ?_ ?_ (by simp [Conn.teardown, Conn.log, Conn.dropTransport])
    · intro hstate
      exact not_not.mp fun htransport => hopen ⟨hstate, htransport⟩
    · simp only [Conn.teardown, hopen, decide_false]
      cases w.client.transport <;> exact ⟨rfl, rfl, rfl⟩

theorem exec_turns [Target] (h : Conn.exec i task c w = some (w', ks)) : Turns task w w' ks := by
  by_cases hbystander : task.sect.kind.bystander = true
  · exact .of_bystander (exec_flows h) hbystander
  · obtain ⟨o, s⟩ := task
    cases s with
    | call cl => cases cl <;> exact absurd rfl hbystander
    | establish caller url =>
        cases c with
        | random words => exact turns_establish h
        | _ => cases h
    | create caller url key config headers =>
        cases c with
        | answer result => exact turns_create h
        | _ => cases h
    | abandon caller e =>
        cases c with
        | go =>
            obtain ⟨rfl, rfl⟩ := Prod.mk.inj (Option.some.inj h)
            exact .abandons rfl ⟨rfl, rfl, rfl⟩ (by simp [Conn.abandon])
        | _ => cases h
    | transportConnect caller t url key headers =>
        cases c with
        | answer result =>
            cases result with
            | error e => exact .of_push h ⟨rfl, rfl, rfl⟩ (Nat.le_refl 1) rfl rfl id
            | ok n => exact .of_push h ⟨rfl, rfl, rfl⟩ (Nat.le_refl 1) rfl rfl id
        | data | closed => exact turns_deliverWithin h rfl rfl
        | _ => cases h
    | store caller t request =>
        cases c with
        | go =>
            exact .of_push h ⟨rfl, rfl, rfl⟩ (Nat.le_refl 1) rfl rfl fun _ => Option.some_ne_none t
        | _ => cases h
    | await caller =>
        cases c with
        | now ms =>
            rw [exec_await_now] at h
            split at h
            · rename_i hdone
              obtain ⟨v, hclock, h⟩ := Option.bind_eq_some_iff.mp h
              obtain ⟨-, hv⟩ := readClock_eq hclock
              exact turns_wake (by rw [hv]) hdone h
            · cases h
        | timeout =>
            rw [exec_await_timeout] at h
            split at h
            · cases h
            · exact .of_push h ⟨rfl, rfl, rfl⟩ (Nat.le_refl 1) rfl rfl id
        | _ => cases h
    | established caller result =>
        cases c with
        | go => exact turns_established h
        | _ => cases h
    | frameSent caller result =>
        cases caller <;> cases result <;> exact absurd rfl hbystander
    | closeFrameSent caller => cases caller <;> exact absurd rfl hbystander
    | transportSend t bytes caller =>
        cases caller with
        | establish caller =>
            cases c with
            | go => exact .of_push h ⟨rfl, rfl, rfl⟩ (Nat.le_refl 1) rfl rfl id
            | _ => cases h
        | sendFrame caller => cases caller <;> exact absurd rfl hbystander
        | sendCloseFrame caller => cases caller <;> exact absurd rfl hbystander
    | sending t bytes caller =>
        cases caller with
        | establish caller =>
            cases c with
            | answer result =>
                cases result with
                | error e => exact .of_push h ⟨rfl, rfl, rfl⟩ (Nat.le_refl 1) rfl rfl id
                | ok n => exact .of_push h ⟨rfl, rfl, rfl⟩ (Nat.le_refl 1) rfl rfl id
            | data | closed => exact turns_deliverWithin h rfl rfl
            | _ => cases h
        | sendFrame caller => cases caller <;> exact absurd rfl hbystander
        | sendCloseFrame caller => cases caller <;> exact absurd rfl hbystander
    | teardown code reason =>
        cases c with
        | go => exact turns_teardown h
        | _ => cases h
    | notifyDisconnected code reason =>
        cases c with
        | go => exact .of_push h ⟨rfl, rfl, rfl⟩ (Nat.zero_le _) rfl rfl id
        | _ => cases h
    | callback call =>
        cases call with
        | connected =>
            cases c with
            | go =>
                obtain ⟨rfl, rfl⟩ := Prod.mk.inj (Option.some.inj h)
                exact .announces rfl ⟨rfl, rfl, rfl⟩ rfl
            | _ => cases h
        | disconnected code reason =>
            cases c with
            | go =>
                obtain ⟨rfl, rfl⟩ := Prod.mk.inj (Option.some.inj h)
                exact .parts rfl ⟨rfl, rfl, rfl⟩ rfl
            | _ => cases h
        | message | pong | error => exact absurd rfl hbystander
    | _ => exact absurd rfl hbystander

/-! ## The calls over a run -/

/-- 1 for an open connection. -/
def opened (cfg : Config) : ℕ := if cfg.shared.client.state = .kOpen then 1 else 0

/-- How many attempts are under way, and how many calls are due. -/
def unfinished (cfg : Config) : ℕ :=
  load (fun task => task.unfinished.toNat) (⟨cfg.shared, cfg.threads.map unreported⟩ : Config)
def announcing (cfg : Config) : ℕ := load (fun task => task.announcing.toNat) cfg
def parting (cfg : Config) : ℕ := load (fun task => task.parting.toNat) cfg

/-- No call is due in front of a section of an attempt. -/
def Settled (k k' : Task) : Prop := k'.unfinished = true → k.announcing = false ∧ k.parting = false

/-- The calls that were made and those that are due agree with the connection, and one attempt is
under way at most. -/
structure Kept (cfg : Config) : Prop where
  ledger : Ledger (opened cfg) (announcing cfg) (parting cfg) (notifications cfg.shared.trace)
  alone : unfinished cfg + opened cfg ≤ 1
  socket : cfg.shared.client.state = .kOpen → cfg.shared.client.transport ≠ none
  settled : ∀ q ∈ cfg.threads, q.Pairwise Settled

theorem weight_unreported_append (f : Task → ℕ) (ks rest : List Task) :
    weight f (unreported (ks ++ rest)) ≤ weight f (unreported ks) + weight f rest := by
  cases ks with
  | nil =>
      rw [List.nil_append, unreported, weight_nil, Nat.zero_add]
      cases rest with
      | nil => exact Nat.le_refl 0
      | cons k rest =>
          rw [unreported]
          split <;> simp
  | cons k ks =>
      rw [List.cons_append, unreported, unreported]
      split <;> simp [Nat.add_assoc]

section

variable {cfg : Config} {rest : List Task} {a b d : ℕ}

theorem weight_unreported_cons (task : Task) (rest : List Task) :
    task.sect.kind.attempting.toNat + weight (fun task => task.unfinished.toNat) rest ≤
      weight (fun task => task.unfinished.toNat) (unreported (task :: rest)) := by
  rw [unreported]
  split
  · rename_i hreports
    have hattempting : task.sect.kind.attempting = false := by
      cases hkind : task.sect.kind <;> simp_all [Kind.attempting, Kind.reports]
    simp [hattempting]
  · cases hattempting : task.sect.kind.attempting <;> simp [Task.unfinished, hattempting]

/-- A section of an attempt and those behind it are counted. -/
theorem unfinished_front (hget : cfg.threads[i]? = some (task :: rest)) :
    task.sect.kind.attempting.toNat + weight (fun task => task.unfinished.toNat) rest ≤
      unfinished cfg := by
  have hmem : unreported (task :: rest) ∈ cfg.threads.map unreported :=
    List.mem_map_of_mem (List.mem_of_getElem? hget)
  exact Nat.le_trans (weight_unreported_cons task rest) (le_weight hmem)

/-- The attempts that are under way behind a section. -/
theorem unfinished_run (w' : Conn) (hget : cfg.threads[i]? = some (task :: rest))
    (hks : Weighs ks a b d) :
    unfinished ⟨w', cfg.threads.set i (ks ++ rest)⟩ + task.sect.kind.attempting.toNat ≤
      unfinished cfg + a := by
  have hmapped : (cfg.threads.map unreported)[i]? = some (unreported (task :: rest)) := by
    rw [List.getElem?_map, hget, Option.map_some]
  have hset := weight_set (f := weight fun task => task.unfinished.toNat)
    (a := unreported (ks ++ rest)) hmapped
  have happend := weight_unreported_append (fun task => task.unfinished.toNat) ks rest
  have hfront := weight_unreported_cons task rest
  rw [hks.unfinished] at happend
  simp only [unfinished, load, List.map_set]
  omega

theorem announcing_run (w' : Conn) (hget : cfg.threads[i]? = some (task :: rest))
    (hks : Weighs ks a b d) :
    announcing ⟨w', cfg.threads.set i (ks ++ rest)⟩ + task.announcing.toNat =
      announcing cfg + b := by
  rw [announcing, load_run _ hget, hks.announcing]
  rfl

theorem parting_run (w' : Conn) (hget : cfg.threads[i]? = some (task :: rest))
    (hks : Weighs ks a b d) :
    parting ⟨w', cfg.threads.set i (ks ++ rest)⟩ + task.parting.toNat = parting cfg + d := by
  rw [parting, load_run _ hget, hks.parting]
  rfl

theorem not_unfinished_of_weight {q : List Task}
    (h : weight (fun task => task.unfinished.toNat) q = 0) {k : Task} (hk : k ∈ q) :
    k.unfinished = false := by
  have hle := le_weight (f := fun task : Task => task.unfinished.toNat) hk
  rw [h] at hle
  cases hunfinished : k.unfinished with
  | false => rfl
  | true => simp [hunfinished] at hle

/-- Sections in which no call is due. -/
theorem Weighs.settled (hks : Weighs ks a 0 0) {k : Task} (hk : k ∈ ks) (k' : Task) :
    Settled k k' := by
  intro _
  have hannouncing := le_weight (f := fun task : Task => task.announcing.toNat) hk
  have hparting := le_weight (f := fun task : Task => task.parting.toNat) hk
  rw [hks.announcing] at hannouncing
  rw [hks.parting] at hparting
  constructor
  · cases h : k.announcing <;> simp_all
  · cases h : k.parting <;> simp_all

/-- Sections that no attempt is under way in. -/
theorem Weighs.pairwise (hks : Weighs ks 0 b d) : ks.Pairwise Settled := by
  have hunfinished := hks.unfinished
  have hnone : ∀ q : List Task, weight (fun task => task.unfinished.toNat) q = 0 →
      q.Pairwise Settled ∧ ∀ k, ∀ k' ∈ q, Settled k k' := by
    intro q hq
    have hall : ∀ k, ∀ k' ∈ q, Settled k k' := fun k k' hk' h => by
      rw [not_unfinished_of_weight hq hk'] at h
      cases h
    exact ⟨List.pairwise_of_forall_mem_list fun k _ k' hk' => hall k k' hk', hall⟩
  cases ks with
  | nil => exact .nil
  | cons k ks =>
      rw [unreported] at hunfinished
      split at hunfinished
      · obtain ⟨hpairwise, hall⟩ := hnone ks hunfinished
        exact .cons (hall k) hpairwise
      · exact (hnone _ hunfinished).1

/-- The order is kept where nothing is due in what comes in front, or no attempt is under way
behind it. -/
theorem Kept.settled_run (h : Kept cfg) (hget : cfg.threads[i]? = some (task :: rest))
    (hpairwise : ks.Pairwise Settled) (hcross : ∀ k ∈ ks, ∀ k' ∈ rest, Settled k k') :
    ∀ q ∈ cfg.threads.set i (ks ++ rest), q.Pairwise Settled := by
  intro q hq
  obtain rfl | ⟨j, -, hj⟩ := mem_set_cases hq
  · have hrest := (List.pairwise_cons.mp (h.settled _ (List.mem_of_getElem? hget))).2
    exact List.pairwise_append.mpr ⟨hpairwise, hrest, hcross⟩
  · exact h.settled q (List.mem_of_getElem? hj)

theorem settled_of_weight (hrest : weight (fun task => task.unfinished.toNat) rest = 0) :
    ∀ k ∈ ks, ∀ k' ∈ rest, Settled k k' := by
  intro k _ k' hk' hunfinished
  rw [not_unfinished_of_weight hrest hk'] at hunfinished
  cases hunfinished

/-- What is due in a section in front keeps attempts out of what is behind it. -/
theorem Kept.weight_rest (h : Kept cfg) (hget : cfg.threads[i]? = some (task :: rest))
    (hdue : task.announcing = true ∨ task.parting = true) :
    weight (fun task => task.unfinished.toNat) rest = 0 := by
  have hfront := (List.pairwise_cons.mp (h.settled _ (List.mem_of_getElem? hget))).1
  refine weight_eq_zero fun k hk => ?_
  cases hunfinished : k.unfinished with
  | false => rfl
  | true =>
      obtain ⟨hannouncing, hparting⟩ := hfront k hk hunfinished
      simp [hannouncing, hparting] at hdue

theorem attempting_of_due (h : task.announcing = true ∨ task.parting = true) :
    task.sect.kind.attempting = false := by
  unfold Task.announcing Task.parting at h
  cases hkind : task.sect.kind <;> simp_all [Kind.attempting, Kind.announcing, Kind.parting]

theorem opened_of_open (h : cfg.shared.client.state = .kOpen) : opened cfg = 1 := if_pos h

theorem opened_of_not_open (h : cfg.shared.client.state ≠ .kOpen) : opened cfg = 0 := if_neg h

/-- Sections in which no call is due keep the order. -/
theorem Kept.settled_silent (h : Kept cfg) (hget : cfg.threads[i]? = some (task :: rest))
    (hks : Weighs ks a 0 0) : ∀ q ∈ cfg.threads.set i (ks ++ rest), q.Pairwise Settled :=
  h.settled_run hget (List.pairwise_of_forall_mem_list fun _ hk k' _ => hks.settled hk k')
    fun _ hk k' _ => hks.settled hk k'

/-- So do sections that come in front where no attempt is under way. -/
theorem Kept.settled_due (h : Kept cfg) (hget : cfg.threads[i]? = some (task :: rest))
    (hks : Weighs ks 0 b d) (hrest : weight (fun task => task.unfinished.toNat) rest = 0) :
    ∀ q ∈ cfg.threads.set i (ks ++ rest), q.Pairwise Settled :=
  h.settled_run hget hks.pairwise (settled_of_weight hrest)

theorem Kept.run (h : Kept cfg) (hget : cfg.threads[i]? = some (task :: rest))
    (hinTurn : task.sect.InTurn cfg) (hturns : Turns task cfg.shared w' ks)
    (hcalls : notifications w'.trace =
      notifications cfg.shared.trace ++ task.sect.notification?.toList) :
    Kept ⟨w', cfg.threads.set i (ks ++ rest)⟩ := by
  obtain ⟨o, s⟩ := task
  have hledger := h.ledger
  have halone := h.alone
  have hfront := unfinished_front hget
  cases hturns with
  | @aside a hks hunfinished hsilent hstate htransport =>
      have hu := unfinished_run w' hget hks
      have hb := Nat.add_right_cancel (announcing_run w' hget hks)
      have hd := Nat.add_right_cancel (parting_run w' hget hks)
      have hopened : opened ⟨w', cfg.threads.set i (ks ++ rest)⟩ = opened cfg := by
        simp only [opened, hstate]
      refine ⟨?_, by omega, ?_, ?_⟩
      · rw [hopened, hb, hd, hcalls, hsilent, Option.toList_none, List.append_nil]
        exact hledger
      · intro hopen
        exact htransport (h.socket (hstate.symm.trans hopen))
      · by_cases hdue : Task.announcing ⟨o, s⟩ = true ∨ Task.parting ⟨o, s⟩ = true
        · have ha : a = 0 := by
            rw [attempting_of_due hdue, Bool.toNat_false] at hunfinished
            exact Nat.le_zero.mp hunfinished
          subst ha
          exact h.settled_due hget hks (h.weight_rest hget hdue)
        · rw [not_or, Bool.not_eq_true, Bool.not_eq_true] at hdue
          rw [hdue.1, hdue.2] at hks
          exact h.settled_silent hget hks
  | begins hsect hbegins hks hstate =>
      obtain rfl : s = _ := hsect
      have hnone : unfinished cfg = 0 := (hinTurn hbegins).load_eq_zero
      have hclosed : opened cfg = 0 := opened_of_not_open (by rw [hbegins.2]; decide)
      have hu := unfinished_run w' hget hks
      have hb : announcing ⟨w', cfg.threads.set i (ks ++ rest)⟩ = announcing cfg :=
        announcing_run w' hget hks
      have hd : parting ⟨w', cfg.threads.set i (ks ++ rest)⟩ = parting cfg :=
        parting_run w' hget hks
      have hclosed' : opened ⟨w', cfg.threads.set i (ks ++ rest)⟩ = 0 := opened_of_not_open hstate
      refine ⟨?_, by omega, fun hopen => absurd hopen hstate, h.settled_silent hget hks⟩
      rw [hclosed', ← hclosed, hb, hd, hcalls]
      simpa [Sect.notification?, Sect.callback?] using hledger
  | abandons hsect hks hstate =>
      obtain rfl : s = _ := hsect
      have hone : 1 + _ ≤ unfinished cfg := hfront
      have hclosed : opened cfg = 0 := by omega
      have hu : unfinished ⟨w', cfg.threads.set i (ks ++ rest)⟩ + 1 ≤ unfinished cfg :=
        unfinished_run w' hget hks
      have hb : announcing ⟨w', cfg.threads.set i (ks ++ rest)⟩ = announcing cfg :=
        announcing_run w' hget hks
      have hd : parting ⟨w', cfg.threads.set i (ks ++ rest)⟩ = parting cfg :=
        parting_run w' hget hks
      have hclosed' : opened ⟨w', cfg.threads.set i (ks ++ rest)⟩ = 0 := opened_of_not_open hstate
      refine ⟨?_, by omega, fun hopen => absurd hopen hstate, h.settled_silent hget hks⟩
      rw [hclosed', ← hclosed, hb, hd, hcalls]
      simpa [Sect.notification?, Sect.callback?] using hledger
  | opens hsect haccepted hks hstate htransport =>
      obtain rfl : s = _ := hsect
      obtain ⟨hsocket, hfree⟩ := hinTurn haccepted
      have hnone : parting cfg = 0 := hfree.load_eq_zero
      have hone : 1 + weight _ rest ≤ unfinished cfg := hfront
      have hclosed : opened cfg = 0 := by omega
      have hu : unfinished ⟨w', cfg.threads.set i (ks ++ rest)⟩ + 1 ≤ unfinished cfg :=
        unfinished_run w' hget hks
      have hb : announcing ⟨w', cfg.threads.set i (ks ++ rest)⟩ = announcing cfg + 1 :=
        announcing_run w' hget hks
      have hd : parting ⟨w', cfg.threads.set i (ks ++ rest)⟩ = parting cfg :=
        parting_run w' hget hks
      have hopen' : opened ⟨w', cfg.threads.set i (ks ++ rest)⟩ = 1 := opened_of_open hstate
      refine ⟨?_, by omega, fun _ => htransport ▸ hsocket, h.settled_due hget hks (by omega)⟩
      rw [hclosed] at hledger
      rw [hopen', hb, hd, hcalls]
      simpa [Sect.notification?, Sect.callback?] using hledger.whenOpened hnone
  | announces hsect hks hclient =>
      obtain rfl : s = _ := hsect
      have hu := unfinished_run w' hget hks
      have hb : announcing ⟨w', cfg.threads.set i (ks ++ rest)⟩ + 1 = announcing cfg :=
        announcing_run w' hget hks
      have hd : parting ⟨w', cfg.threads.set i (ks ++ rest)⟩ = parting cfg :=
        parting_run w' hget hks
      have hopened : opened ⟨w', cfg.threads.set i (ks ++ rest)⟩ = opened cfg := by
        simp only [opened, hclient]
      refine ⟨?_, by omega, ?_, h.settled_silent hget hks⟩
      · rw [← hb] at hledger
        rw [hopened, hd, hcalls]
        exact hledger.callOpen
      · change w'.client.state = .kOpen → w'.client.transport ≠ none
        rw [hclient]
        exact h.socket
  | closes hsect hopen hks hstate =>
      obtain rfl : s = _ := hsect
      have hnone : announcing cfg = 0 := (hinTurn hopen).load_eq_zero
      have hone : opened cfg = 1 := opened_of_open hopen
      have hrest : 0 + weight _ rest ≤ unfinished cfg := hfront
      have hu : unfinished ⟨w', cfg.threads.set i (ks ++ rest)⟩ ≤ unfinished cfg :=
        unfinished_run w' hget hks
      have hb : announcing ⟨w', cfg.threads.set i (ks ++ rest)⟩ = announcing cfg :=
        announcing_run w' hget hks
      have hd : parting ⟨w', cfg.threads.set i (ks ++ rest)⟩ = parting cfg + 1 :=
        parting_run w' hget hks
      have hclosed' : opened ⟨w', cfg.threads.set i (ks ++ rest)⟩ = 0 := opened_of_not_open hstate
      refine ⟨?_, by omega, fun hopen => absurd hopen hstate, h.settled_due hget hks (by omega)⟩
      rw [hone] at hledger
      rw [hclosed', hb, hd, hcalls]
      simpa [Sect.notification?, Sect.callback?] using hledger.whenClosed hnone
  | drops hsect hopen hks hstate =>
      obtain rfl : s = _ := hsect
      have hclosed : opened cfg = 0 :=
        opened_of_not_open fun hstate => h.socket hstate (hopen hstate)
      have hu := unfinished_run w' hget hks
      have hb : announcing ⟨w', cfg.threads.set i (ks ++ rest)⟩ = announcing cfg :=
        announcing_run w' hget hks
      have hd : parting ⟨w', cfg.threads.set i (ks ++ rest)⟩ = parting cfg :=
        parting_run w' hget hks
      have hclosed' : opened ⟨w', cfg.threads.set i (ks ++ rest)⟩ = 0 := opened_of_not_open hstate
      refine ⟨?_, by omega, fun hopen => absurd hopen hstate, h.settled_silent hget hks⟩
      rw [hclosed', ← hclosed, hb, hd, hcalls]
      simpa [Sect.notification?, Sect.callback?] using hledger
  | parts hsect hks hclient =>
      obtain rfl : s = _ := hsect
      have hu := unfinished_run w' hget hks
      have hb : announcing ⟨w', cfg.threads.set i (ks ++ rest)⟩ = announcing cfg :=
        announcing_run w' hget hks
      have hd : parting ⟨w', cfg.threads.set i (ks ++ rest)⟩ + 1 = parting cfg :=
        parting_run w' hget hks
      have hopened : opened ⟨w', cfg.threads.set i (ks ++ rest)⟩ = opened cfg := by
        simp only [opened, hclient]
      refine ⟨?_, by omega, ?_, h.settled_silent hget hks⟩
      · rw [← hd] at hledger
        rw [hopened, hb, hcalls]
        exact hledger.callClosed
      · change w'.client.state = .kOpen → w'.client.transport ≠ none
        rw [hclient]
        exact h.socket

/-- A new thread is none of this. -/
theorem Kept.start (h : Kept cfg) {q : List Task} (hnext : ∀ k ∈ q, k.sect.kind.due = false)
    (hkeeps : Keeps [.maintainTask] cfg.shared.client w'.client)
    (hcalls : notifications w'.trace = notifications cfg.shared.trace) :
    Kept ⟨w', cfg.threads ++ [q]⟩ := by
  have hq := weighs_zero hnext
  have hu : unfinished ⟨w', cfg.threads ++ [q]⟩ = unfinished cfg := by
    rw [unfinished, List.map_append, List.map_singleton]
    exact (load_start _ cfg.shared _ _ _).trans (by rw [hq.unfinished]; rfl)
  have hb : announcing ⟨w', cfg.threads ++ [q]⟩ = announcing cfg :=
    (load_start _ cfg.shared _ _ _).trans (by rw [hq.announcing]; rfl)
  have hd : parting ⟨w', cfg.threads ++ [q]⟩ = parting cfg :=
    (load_start _ cfg.shared _ _ _).trans (by rw [hq.parting]; rfl)
  have hstate : w'.client.state = cfg.shared.client.state := hkeeps.state (by decide)
  have hopened : opened ⟨w', cfg.threads ++ [q]⟩ = opened cfg := by simp only [opened, hstate]
  refine ⟨?_, ?_, ?_, ?_⟩
  · rw [hopened, hb, hd, hcalls]
    exact h.ledger
  · rw [hu, hopened]
    exact h.alone
  · change w'.client.state = .kOpen → w'.client.transport ≠ none
    rw [hstate, hkeeps.transport (by decide)]
    exact h.socket
  · intro p hp
    obtain hp | hp := List.mem_append.mp hp
    · exact h.settled p hp
    · rw [List.mem_singleton.mp hp]
      exact List.pairwise_of_forall_mem_list fun k hk k' _ => hq.settled hk k'

/-- A thread begins with no call and no attempt. -/
theorem entry_due {e : Entry} {q : List Task} (h : Conn.entry e w = some (w', q)) :
    ∀ k ∈ q, k.sect.kind.due = false := by
  obtain ⟨task, rfl, hkind⟩ := entry_kind h
  have hall : ∀ k ∈ Kind.entries, k.due = false := by decide
  intro k hk
  rw [List.mem_singleton.mp hk]
  exact hall _ hkind

theorem entry_trace {e : Entry} {q : List Task} (h : Conn.entry e w = some (w', q)) :
    w'.trace = w.trace := by
  cases e with
  | call cl =>
      obtain ⟨rfl, -⟩ := Prod.mk.inj (Option.some.inj h)
      rfl
  | data | closed | maintain =>
      simp only [Conn.entry] at h
      split at h
      · obtain ⟨rfl, -⟩ := Prod.mk.inj (Option.some.inj h)
        rfl
      · cases h

theorem exec_notifications [Target] (h : Conn.exec i task c w = some (w', ks)) :
    notifications w'.trace = notifications w.trace ++ task.sect.notification?.toList := by
  rw [notifications, exec_callbacks h, List.filterMap_append]
  cases hcall : task.sect.callback? with
  | none => simp [notifications, Sect.notification?, hcall]
  | some cb => cases hcb : cb.notification <;> simp [notifications, Sect.notification?, hcall, hcb]

theorem Kept.step [Target] {cfg' : Config} {l : Label} (h : Kept cfg) (hinTurn : InTurn cfg l)
    (hstep : program.step cfg l = some cfg') : Kept cfg' := by
  obtain ⟨e, s', q, rfl, hentry, rfl⟩ | ⟨i, c, task, rest, s', ks, rfl, hget, hexec, rfl⟩ :=
    Program.step_cases hstep
  · exact h.start (entry_due hentry) (entry_keeps hentry) (by rw [entry_trace hentry])
  · exact h.run hget (hinTurn task (Label.front_run hget c)) (exec_turns hexec)
      (exec_notifications hexec)

theorem kept_initial : Kept initial :=
  ⟨ledger_nil, Nat.zero_le _, nofun, List.forall_mem_nil _⟩

theorem Kept.notified (h : Kept cfg) : Notified cfg := by
  refine ⟨h.ledger.alternates, fun q hq => (h.settled q hq).imp ?_⟩
  intro due report hsettled hreports
  exact hsettled (by rw [Task.unfinished, hreports, Bool.or_true])

end

end

/-- On steps that `ok` admits, `on_connected` and `on_disconnected` alternate in every state. -/
def NotifiesInTurn [Target] (ok : Config → Label → Prop) : Prop :=
  ∀ ls, Runs.Along program.step (fun cfg l _ => ok cfg l) initial ls →
    Runs.Along program.step (fun _ _ cfg => Notified cfg) initial ls

theorem notifiesInTurn [Target] : NotifiesInTurn InTurn := by
  intro ls hok
  refine hok.mono (I := Kept) ?_ kept_initial
  intro cfg l cfg' hkept hinTurn hstep
  have hkept' := hkept.step hinTurn hstep
  exact ⟨hkept', hkept'.notified⟩

end EspModemLink.WebSocket
