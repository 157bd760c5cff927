import EspModemLink.Library.Retries
import EspModemLink.WebSocket.Notifications

/-!
# The course of the maintenance task

Where the one maintenance task is between two of its laps, with the number of the attempt that it
carries, and what each of its sections does about the attempts.
-/

namespace EspModemLink.WebSocket

open Bytes Http Retries Sections

/-! ## Phases -/

/-- The phase of a section of the maintenance task. -/
def Sect.phase : Sect → Option Phase
  | .maintainBegin | .maintainLoop | .maintainTick | .maintainRead | .maintainOpen _ => some .lap
  | .heartbeatNow _ | .heartbeatPing .. | .heartbeatIdle .. | .maintainEnd => some .lap
  | .giveUp n => some (.givingUp n)
  | .setExhausted => some .reporting
  | .backoff n _ | .backoffOver n _ | .establish (.maintain n) _ => some (.waiting n)
  | .create (.maintain n) .. | .abandon (.maintain n) _ => some (.trying n)
  | .transportConnect (.maintain n) .. | .store (.maintain n) .. => some (.trying n)
  | .transportSend _ _ (.establish (.maintain n)) => some (.trying n)
  | .sending _ _ (.establish (.maintain n)) => some (.trying n)
  | .await (.maintain n) | .established (.maintain n) (.error _) => some (.trying n)
  | .established (.maintain _) (.ok _) => some .succeeded
  | _ => none

def Task.phase (task : Task) : Option Phase := task.sect.phase

/-- The task goes on from this section. -/
def Task.steers (task : Task) : Bool := task.phase.isSome

def phases (q : List Task) : List Phase := q.filterMap Task.phase

def Kind.steers : Kind → Bool
  | .maintainBegin | .maintainLoop | .maintainTick | .maintainRead | .maintainOpen => true
  | .heartbeatNow | .heartbeatPing | .heartbeatIdle | .maintainEnd => true
  | .giveUp | .setExhausted | .backoff | .backoffOver => true
  | .establish task | .create task | .abandon task | .transportConnect task => task
  | .store task _ | .await task | .established task _ => task
  | .transportSend (.establish task) _ | .sending (.establish task) _ => task
  | _ => false

/-- The task waits with the number of an attempt, or is about to make it. -/
def Kind.waits : Kind → Bool
  | .backoff | .backoffOver => true
  | .establish task => task
  | _ => false

def Task.waits (task : Task) : Bool := task.sect.kind.waits

theorem phase_isSome (s : Sect) : s.phase.isSome = s.kind.steers := by
  cases s with
  | call c => cases c <;> rfl
  | callback c => cases c <;> rfl
  | establish caller | create caller | abandon caller | transportConnect caller | store caller
  | await caller => cases caller <;> rfl
  | established caller result => cases caller <;> cases result <;> rfl
  | transportSend t bytes caller | sending t bytes caller =>
      cases caller with
      | establish caller => cases caller <;> rfl
      | _ => rfl
  | _ => rfl

theorem Kind.steers_of_waits {k : Kind} (h : k.waits = true) : k.steers = true := by
  cases k <;> first | rfl | exact h | cases h

/-- Only the task's own sections leave sections of the task. -/
theorem Kind.not_steers_next {k : Kind} (h : k.steers = false) :
    ∀ k' ∈ k.next, k'.steers = false := by
  have hnext : k.next.any Kind.steers = false := by
    cases k with
    | established task ok =>
        cases task with
        | false => cases ok <;> rfl
        | true => cases h
    | frameSent caller ok => cases caller <;> cases ok <;> rfl
    | closeFrameSent waits => cases waits <;> rfl
    | transportSend caller data | sending caller data =>
        cases caller with
        | establish task =>
            obtain rfl : task = false := h
            rfl
        | frame | close => rfl
    | establish task | create task | abandon task | transportConnect task | await task =>
        obtain rfl : task = false := h
        rfl
    | store task data =>
        obtain rfl : task = false := h
        rfl
    | maintainBegin | maintainLoop | maintainTick | maintainRead | maintainOpen => cases h
    | heartbeatNow | heartbeatPing | heartbeatIdle | maintainEnd => cases h
    | giveUp | setExhausted | backoff | backoffOver => cases h
    | _ => rfl
  exact fun k' hk' => Bool.eq_false_iff.mpr (List.any_eq_false.mp hnext k' hk')

/-! ## What a section does about the attempts -/

/-- What the task shares with those who reset it. -/
def SoftwareWsClient.retries (c : SoftwareWsClient) : Retries.Shared :=
  ⟨c.reconnectAttempt, c.reconnectExhausted, c.reconnect.maxRetries⟩

/-- An accepted `Connect`, a `SetAutoReconnect` and a connection that opens begin the counts again.
The task attempts and fails, and behind `setExhausted` the next thing on its thread is the report
that it gives up. -/
def tallied (t : Tally) (i : ℕ) (w : Conn) (task : Task) : Tally :=
  match task.sect with
  | .call (.connect _) => if w.client.state = .kDisconnected then t.reset else t
  | .call (.setAutoReconnect _) => t.reset
  | .await _ =>
      if w.client.handshakeDone = true ∧ w.client.handshakeError = none then t.reset else t
  | .establish (.maintain _) _ => { t with attempts := t.attempts + 1 }
  | .established (.maintain _) (.error _) => { t with failures := t.failures + 1 }
  | .setExhausted => { t with due := some i }
  | .callback (.error _) =>
      if t.due = some i then { t with due := none, reports := t.reports + 1 } else t
  | _ => t

/-- From which phase a section takes the task to which ones, what it makes of the shared members,
and what is counted with it. -/
inductive Moves (i : ℕ) (task : Task) (w w' : Conn) : Phase → List Phase → Prop
  | laps (hshared : w'.client.retries = w.client.retries) (hcount : ∀ t, tallied t i w task = t) :
      Moves i task w w' .lap [.lap]
  | ends (hsect : task.sect = .maintainEnd) (hshared : w'.client.retries = w.client.retries) :
      Moves i task w w' .lap []
  | setsBack {config : HeartbeatConfig} (hsect : task.sect = .maintainOpen config)
      (hshared : w'.client.retries = { w.client.retries with count := 0 }) :
      Moves i task w w' .lap [.lap]
  | waits (hlimit : 0 ≤ w.client.retries.limit →
        (w.client.retries.count : Int) < w.client.retries.limit)
      (huser : w.client.userClosed = false) (hshared : w'.client.retries = w.client.retries)
      (hcount : ∀ t, tallied t i w task = t) :
      Moves i task w w' .lap [.waiting w.client.retries.count]
  | givesUp (hlimit : w.client.retries.limit ≤ (w.client.retries.count : Int))
      (hshared : w'.client.retries = w.client.retries) (hcount : ∀ t, tallied t i w task = t) :
      Moves i task w w' .lap [.givingUp w.client.retries.count]
  | keepsQuiet {n : ℕ} (hshared : w'.client.retries = w.client.retries)
      (hcount : ∀ t, tallied t i w task = t) : Moves i task w w' (.givingUp n) [.lap]
  | decides {n : ℕ} (hexhausted : w.client.retries.exhausted = false)
      (hshared : w'.client.retries = w.client.retries) (hcount : ∀ t, tallied t i w task = t) :
      Moves i task w w' (.givingUp n) [.reporting, .lap]
  | exhausts (hsect : task.sect = .setExhausted)
      (hshared : w'.client.retries = { w.client.retries with exhausted := true }) :
      Moves i task w w' .reporting []
  | waitsOn {n : ℕ} (hshared : w'.client.retries = w.client.retries)
      (hcount : ∀ t, tallied t i w task = t) : Moves i task w w' (.waiting n) [.waiting n]
  | stops {n : ℕ} (hshared : w'.client.retries = w.client.retries)
      (hcount : ∀ t, tallied t i w task = t) : Moves i task w w' (.waiting n) [.lap]
  | tries {n : ℕ} {url : Bytes} (hsect : task.sect = .establish (.maintain n) url)
      (hshared : w'.client.retries = w.client.retries) :
      Moves i task w w' (.waiting n) [.trying n]
  | triesOn {n : ℕ} (hshared : w'.client.retries = w.client.retries)
      (hcount : ∀ t, tallied t i w task = t) : Moves i task w w' (.trying n) [.trying n]
  | succeeds {n : ℕ} (hshared : w'.client.retries = w.client.retries)
      (hcount : ∀ t, tallied t i w task = t.reset) : Moves i task w w' (.trying n) [.succeeded]
  | fails {n : ℕ} (hcount : ∀ t, tallied t i w task = { t with failures := t.failures + 1 })
      (hshared : w'.client.retries = { w.client.retries with count := n + 1 }) :
      Moves i task w w' (.trying n) [.lap]
  | clears (hshared : w'.client.retries = { w.client.retries with count := 0, exhausted := false })
      (hcount : ∀ t, tallied t i w task = t) : Moves i task w w' .succeeded [.lap]

section

variable {i : ℕ} {o : Origin} {task : Task} {c : Choice} {w w' v : Conn} {ks : List Task}
  {sects : List Sect} {p : Phase} {ps : List Phase}

theorem phases_tasks (o : Origin) (sects : List Sect) :
    phases (o.tasks sects) = sects.filterMap Sect.phase := by
  rw [phases, Origin.tasks, List.filterMap_map]
  rfl

theorem phases_append (p q : List Task) : phases (p ++ q) = phases p ++ phases q :=
  List.filterMap_append

theorem Moves.of_push (h : some (v, o.tasks sects) = some (w', ks))
    (hps : sects.filterMap Sect.phase = ps) (hmoves : Moves i task w v p ps) :
    Moves i task w w' p (phases ks) := by
  obtain ⟨rfl, rfl⟩ := Prod.mk.inj (Option.some.inj h)
  rw [phases_tasks, hps]
  exact hmoves

theorem Moves.of_clock {ms : Int} {sects : List Sect}
    (h : ((w.readClock ms).bind fun w => some (w, o.tasks sects)) = some (w', ks))
    (hps : sects.filterMap Sect.phase = ps)
    (hmoves : ∀ v : Conn, v.client = w.client → Moves i task w v p ps) :
    Moves i task w w' p (phases ks) := by
  obtain ⟨v, hv, h⟩ := Option.bind_eq_some_iff.mp h
  obtain ⟨-, rfl⟩ := readClock_eq hv
  exact .of_push h hps (hmoves _ rfl)

theorem Moves.of_deliverWithin (h : w.deliverWithin task c = some (w', ks))
    (hphase : task.phase = some p) (hmoves : Moves i task w w p [p]) :
    Moves i task w w' p (phases ks) := by
  simp only [Conn.deliverWithin, Option.map_eq_some_iff, Prod.mk.injEq] at h
  obtain ⟨tasks, hdelivery, rfl, rfl⟩ := h
  have htask : phases [task] = [p] := List.filterMap_cons_some hphase
  have hdelivered : phases tasks = [] := by
    cases c <;> simp [Conn.delivery] at hdelivery <;> subst hdelivery <;> rfl
  rw [phases_append, hdelivered, htask]
  exact hmoves

/-- The section that reads the members. -/
theorem moves_maintainRead
    (h : some (w.maintainRead.1, o.tasks w.maintainRead.2) = some (w', ks)) :
    Moves i ⟨o, .maintainRead⟩ w w' .lap (phases ks) := by
  simp only [Conn.maintainRead] at h
  split at h
  · exact .of_push h rfl (.laps rfl fun _ => rfl)
  · split at h
    · exact .of_push h rfl (.laps rfl fun _ => rfl)
    · rename_i hgoesOn
      split at h
      · rename_i hspent
        exact .of_push h rfl (.givesUp hspent.2 rfl fun _ => rfl)
      · rename_i hleft
        refine .of_push h rfl (.waits (fun hle => ?_) ?_ rfl fun _ => rfl)
        · exact Int.not_le.mp fun hspent => hleft ⟨hle, hspent⟩
        · exact Bool.eq_false_iff.mpr fun huser => hgoesOn (.inr (.inr huser))

theorem moves_establish {n : ℕ} {url : Bytes} {words : List UInt32}
    (h : some ((w.establish o (.maintain n) url words).1,
      o.tasks (w.establish o (.maintain n) url words).2) = some (w', ks)) :
    Moves i ⟨o, .establish (.maintain n) url⟩ w w' (.waiting n) (phases ks) := by
  simp only [Conn.establish] at h
  split at h
  · exact .of_push h rfl (.tries rfl rfl)
  · split at h
    · exact .of_push h rfl (.tries rfl rfl)
    · exact .of_push h rfl (.tries rfl rfl)

/-- `Establish` wakes up, or the wait is over. -/
theorem moves_await [Target] {n : ℕ}
    (h : Conn.exec i ⟨o, .await (.maintain n)⟩ c w = some (w', ks)) :
    Moves i ⟨o, .await (.maintain n)⟩ w w' (.trying n) (phases ks) := by
  cases c with
  | now ms =>
      obtain ⟨hdone, h⟩ := Option.ite_none_right_eq_some.mp h
      obtain ⟨v, hv, h⟩ := Option.bind_eq_some_iff.mp h
      obtain ⟨-, rfl⟩ := readClock_eq hv
      simp only [Conn.wake] at h
      split at h
      · rename_i herror
        have hrefused : ¬(w.client.handshakeDone = true ∧ w.client.handshakeError = none) := by
          rintro ⟨-, hnone⟩
          rw [herror] at hnone
          cases hnone
        exact .of_push h rfl (.triesOn rfl fun _ => if_neg hrefused)
      · rename_i hnone
        exact .of_push h rfl (.succeeds rfl fun _ => if_pos ⟨hdone, hnone⟩)
  | timeout =>
      obtain ⟨hnot, h⟩ := Option.ite_none_left_eq_some.mp h
      exact .of_push h rfl (.triesOn rfl fun _ => if_neg fun haccepted => hnot haccepted.1)
  | _ => cases h

/-- Everything a section of the task does about the attempts. -/
theorem exec_moves [Target] (h : Conn.exec i task c w = some (w', ks))
    (hphase : task.phase = some p) : Moves i task w w' p (phases ks) := by
  obtain ⟨o, s⟩ := task
  cases s with
  -- between the attempts
  | maintainBegin =>
      cases hphase
      cases c with
      | go => exact .of_push h rfl (.laps rfl fun _ => rfl)
      | _ => cases h
  | maintainLoop =>
      cases hphase
      cases c with
      | go => exact .of_push h (by split <;> rfl) (.laps rfl fun _ => rfl)
      | _ => cases h
  | maintainTick =>
      cases hphase
      cases c with
      | go => exact .of_push h (by split <;> rfl) (.laps rfl fun _ => rfl)
      | _ => cases h
  | maintainRead =>
      cases hphase
      cases c with
      | go => exact moves_maintainRead h
      | _ => cases h
  | maintainOpen config =>
      cases hphase
      cases c with
      | go => exact .of_push h (by simp only [Conn.maintainOpen]; split <;> rfl) (.setsBack rfl rfl)
      | _ => cases h
  | heartbeatNow config =>
      cases hphase
      cases c with
      | now ms => exact .of_clock h rfl fun v hv => .laps (by rw [hv]) fun _ => rfl
      | _ => cases h
  | heartbeatPing config now =>
      cases hphase
      cases c with
      | go =>
          have h : some ((w.heartbeatPing config now).1, o.tasks (w.heartbeatPing config now).2) =
            some (w', ks) := h
          simp only [Conn.heartbeatPing] at h
          split at h
          · exact .of_push h rfl (.laps rfl fun _ => rfl)
          · split at h <;> exact .of_push h rfl (.laps rfl fun _ => rfl)
      | _ => cases h
  | heartbeatIdle config now =>
      cases hphase
      cases c with
      | go =>
          have h : some ((w.heartbeatIdle config now).1, o.tasks (w.heartbeatIdle config now).2) =
            some (w', ks) := h
          simp only [Conn.heartbeatIdle] at h
          split at h <;> exact .of_push h rfl (.laps rfl fun _ => rfl)
      | _ => cases h
  | maintainEnd =>
      cases hphase
      cases c with
      | go => exact .of_push h rfl (.ends rfl rfl)
      | _ => cases h
  -- giving up
  | giveUp n =>
      cases hphase
      cases c with
      | go =>
          have h : some ((w.giveUp n).1, o.tasks (w.giveUp n).2) = some (w', ks) := h
          simp only [Conn.giveUp] at h
          split at h
          · exact .of_push h rfl (.keepsQuiet rfl fun _ => rfl)
          · rename_i hfirst
            exact .of_push h rfl (.decides (Bool.eq_false_iff.mpr hfirst) rfl fun _ => rfl)
      | _ => cases h
  | setExhausted =>
      cases hphase
      cases c with
      | go => exact .of_push h rfl (.exhausts rfl rfl)
      | _ => cases h
  -- an attempt
  | backoff n url =>
      cases hphase
      cases c with
      | go => exact .of_push h rfl (.waitsOn rfl fun _ => rfl)
      | again =>
          obtain ⟨-, h⟩ := Option.ite_none_right_eq_some.mp h
          exact .of_push h rfl (.waitsOn rfl fun _ => rfl)
      | _ => cases h
  | backoffOver n url =>
      cases hphase
      cases c with
      | go =>
          have h : some (w, o.tasks (if w.client.maintainRunning then
            [.establish (.maintain n) url] else [.maintainEnd])) = some (w', ks) := h
          split at h
          · exact .of_push h rfl (.waitsOn rfl fun _ => rfl)
          · exact .of_push h rfl (.stops rfl fun _ => rfl)
      | _ => cases h
  | establish caller url =>
      cases caller with
      | connect => cases hphase
      | maintain n =>
          cases hphase
          cases c with
          | random words => exact moves_establish h
          | _ => cases h
  | create caller url key config headers =>
      cases caller with
      | connect => cases hphase
      | maintain n =>
          cases hphase
          cases c with
          | answer result =>
              cases result <;> exact .of_push h rfl (.triesOn rfl fun _ => rfl)
          | _ => cases h
  | abandon caller e =>
      cases caller with
      | connect => cases hphase
      | maintain n =>
          cases hphase
          cases c with
          | go => exact .of_push h rfl (.triesOn rfl fun _ => rfl)
          | _ => cases h
  | transportConnect caller t url key headers =>
      cases caller with
      | connect => cases hphase
      | maintain n =>
          cases hphase
          cases c with
          | answer result =>
              cases result <;> exact .of_push h rfl (.triesOn rfl fun _ => rfl)
          | _ => exact .of_deliverWithin h rfl (.triesOn rfl fun _ => rfl)
  | store caller t request =>
      cases caller with
      | connect => cases hphase
      | maintain n =>
          cases hphase
          cases c with
          | go => exact .of_push h rfl (.triesOn rfl fun _ => rfl)
          | _ => cases h
  | transportSend t bytes caller =>
      cases caller with
      | establish caller =>
          cases caller with
          | connect => cases hphase
          | maintain n =>
              cases hphase
              cases c with
              | go => exact .of_push h rfl (.triesOn rfl fun _ => rfl)
              | _ => cases h
      | _ => cases hphase
  | sending t bytes caller =>
      cases caller with
      | establish caller =>
          cases caller with
          | connect => cases hphase
          | maintain n =>
              cases hphase
              cases c with
              | answer result =>
                  cases result <;> exact .of_push h rfl (.triesOn rfl fun _ => rfl)
              | _ => exact .of_deliverWithin h rfl (.triesOn rfl fun _ => rfl)
      | _ => cases hphase
  | await caller =>
      cases caller with
      | connect => cases hphase
      | maintain n =>
          cases hphase
          exact moves_await h
  | established caller result =>
      cases caller with
      | connect => cases result <;> cases hphase
      | maintain n =>
          cases result <;> cases hphase <;> cases c with
          | go =>
              first
              | exact .of_push h rfl (.fails (fun _ => rfl) rfl)
              | exact .of_push h rfl (.clears rfl fun _ => rfl)
          | _ => cases h
  | _ => cases hphase

end

/-! ## The one task -/

/-- The phases of what the task still has to execute. There is at most one task, on one thread, and
it has told which one unless it has just begun. -/
inductive Course (cfg : Config) : List Phase → Prop
  | absent (hfree : Free Task.steers cfg)
      (hrunning : cfg.shared.client.maintainTask ≠ some .running) : Course cfg []
  | present {i : ℕ} {owned : List Task} (howns : Owns Task.steers i owned cfg)
      (hrunning : cfg.shared.client.maintainTask = some .running)
      (hbegun : ∀ k ∈ owned, k.sect.kind = .maintainBegin ∨
        cfg.shared.client.maintainThread = some i) : Course cfg (phases owned)

section

variable {i : ℕ} {task : Task} {c : Choice} {w w' : Conn} {ks rest q : List Task} {cfg : Config}
  {p : Phase} {ps : List Phase}

theorem phases_filter (q : List Task) : phases (q.filter Task.steers) = phases q := by
  induction q with
  | nil => rfl
  | cons task q ih =>
      cases hphase : task.phase with
      | none =>
          have hsteers : ¬task.steers = true := by simp [Task.steers, hphase]
          rw [List.filter_cons_of_neg hsteers, ih]
          exact (List.filterMap_cons_none hphase).symm
      | some p =>
          have hsteers : task.steers = true := by simp [Task.steers, hphase]
          rw [List.filter_cons_of_pos hsteers, phases, List.filterMap_cons_some hphase]
          exact (congrArg (p :: ·) ih).trans (List.filterMap_cons_some hphase).symm

theorem eq_nil_of_phases {owned : List Task} (hsteers : ∀ k ∈ owned, k.steers = true)
    (h : phases owned = []) : owned = [] := by
  cases owned with
  | nil => rfl
  | cons k owned =>
      obtain ⟨p, hp⟩ := Option.isSome_iff_exists.mp (hsteers k (List.mem_cons_self ..))
      rw [phases, List.filterMap_cons_some hp] at h
      cases h

theorem steers_eq (task : Task) : task.steers = task.sect.kind.steers := phase_isSome task.sect

theorem filter_steers_of_kind (h : ∀ k ∈ q, k.sect.kind.steers = false) :
    q.filter Task.steers = [] := by
  rw [List.filter_eq_nil_iff]
  intro k hk
  rw [steers_eq, h k hk]
  exact Bool.false_ne_true

theorem Free.of_kind (h : Free Task.steers cfg) : Free Task.waits cfg :=
  h.mono fun k hk => (steers_eq k).trans (Kind.steers_of_waits hk)

/-- What begins and ends the task. -/
theorem Kind.maintainTask_not_mem {k : Kind}
    (h : k ≠ .joining ∧ k ≠ .createTask ∧ k ≠ .maintainEnd) :
    .maintainTask ∉ k.writes := by
  cases k with
  | joining => exact absurd rfl h.1
  | createTask => exact absurd rfl h.2.1
  | maintainEnd => exact absurd rfl h.2.2
  | established task ok => cases task <;> cases ok <;> simp [writes]
  | _ => simp [writes]

theorem Kind.maintainThread_not_mem {k : Kind} (h : k ≠ .maintainBegin) :
    .maintainThread ∉ k.writes := by
  cases k with
  | maintainBegin => exact absurd rfl h
  | established task ok => cases task <;> cases ok <;> simp [writes]
  | _ => simp [writes]

/-- A section that is none of the task's leaves it running or not, as it was. -/
theorem exec_running [Target] (h : Conn.exec i task c w = some (w', ks))
    (hsteers : task.steers = false) :
    w'.client.maintainTask = some .running ↔ w.client.maintainTask = some .running := by
  have hkeeps (hkind : task.sect.kind ≠ .joining ∧ task.sect.kind ≠ .createTask ∧
      task.sect.kind ≠ .maintainEnd) : w'.client.maintainTask = some .running ↔
      w.client.maintainTask = some .running := by
    rw [(exec_flows h).keeps.maintainTask (Kind.maintainTask_not_mem hkind)]
  obtain ⟨o, s⟩ := task
  cases s with
  | joining =>
      cases c with
      | go =>
          obtain ⟨out, hjoining, h⟩ := Option.bind_eq_some_iff.mp h
          obtain ⟨hover, hout⟩ := Option.ite_none_right_eq_some.mp hjoining
          obtain rfl := Option.some.inj hout
          obtain ⟨rfl, -⟩ := Prod.mk.inj (Option.some.inj h)
          obtain hover | hover := hover <;> simp [hover]
      | _ => cases h
  | createTask =>
      cases c with
      | go =>
          obtain ⟨out, hcreate, h⟩ := Option.bind_eq_some_iff.mp h
          obtain ⟨hover, hout⟩ := Option.ite_none_right_eq_some.mp hcreate
          obtain rfl := Option.some.inj hout
          obtain ⟨rfl, -⟩ := Prod.mk.inj (Option.some.inj h)
          obtain hover | hover := hover <;> simp [hover]
      | _ => cases h
  | maintainEnd => cases hsteers
  | call call => cases call <;> exact hkeeps ⟨nofun, nofun, nofun⟩
  | callback call => cases call <;> exact hkeeps ⟨nofun, nofun, nofun⟩
  | _ => exact hkeeps ⟨nofun, nofun, nofun⟩

/-- The task tells which thread it is on. -/
theorem exec_begins [Target] (h : Conn.exec i task c w = some (w', ks))
    (hkind : task.sect.kind = .maintainBegin) : w'.client.maintainThread = some i := by
  obtain ⟨o, s⟩ := task
  cases s with
  | maintainBegin =>
      cases c with
      | go =>
          obtain ⟨rfl, -⟩ := Prod.mk.inj (Option.some.inj h)
          rfl
      | _ => cases h
  | call call => cases call <;> cases hkind
  | callback call => cases call <;> cases hkind
  | _ => cases hkind

/-- The task ends. -/
theorem exec_ends [Target] (h : Conn.exec i task c w = some (w', ks))
    (hkind : task.sect.kind = .maintainEnd) :
    ks = [] ∧ w'.client.maintainTask ≠ some .running := by
  obtain ⟨o, s⟩ := task
  cases s with
  | maintainEnd =>
      cases c with
      | go =>
          obtain ⟨rfl, rfl⟩ := Prod.mk.inj (Option.some.inj h)
          exact ⟨rfl, nofun⟩
      | _ => cases h
  | call call => cases call <;> cases hkind
  | callback call => cases call <;> cases hkind
  | _ => cases hkind

theorem Kind.ne_of_steers {k : Kind} (h : k.steers = true) : k ≠ .joining ∧ k ≠ .createTask := by
  constructor <;> rintro rfl <;> cases h

theorem phase_maintainEnd (h : task.sect.kind = .maintainEnd) : task.phase = some .lap := by
  obtain ⟨o, s⟩ := task
  cases s with
  | maintainEnd => rfl
  | call call => cases call <;> cases h
  | callback call => cases call <;> cases h
  | _ => cases h

/-- A section that is none of the task's. -/
theorem Course.run_aside [Target] (h : Course cfg ps)
    (hget : cfg.threads[i]? = some (task :: rest)) (hsteers : task.steers = false)
    (hexec : Conn.exec i task c cfg.shared = some (w', ks)) :
    Course ⟨w', cfg.threads.set i (ks ++ rest)⟩ ps := by
  have hkind : task.sect.kind.steers = false := (steers_eq task).symm.trans hsteers
  have hks : ks.filter Task.steers = [] :=
    filter_steers_of_kind fun k hk => Kind.not_steers_next hkind _ ((exec_flows hexec).next k hk)
  cases h with
  | absent hfree hrunning =>
      exact .absent (hfree.run w' hget hks) fun h => hrunning ((exec_running hexec hsteers).mp h)
  | @present j owned howns hrunning hbegun =>
      refine .present (howns.other w' hget hsteers hks)
        ((exec_running hexec hsteers).mpr hrunning) ?_
      have hthread : w'.client.maintainThread = cfg.shared.client.maintainThread := by
        refine (exec_flows hexec).keeps.maintainThread (Kind.maintainThread_not_mem ?_)
        intro hbegin
        rw [hbegin] at hkind
        cases hkind
      exact fun k hk => (hbegun k hk).imp_right hthread.trans

/-- A section of the task. -/
theorem Course.run_steers [Target] (h : Course cfg ps) (hshape : Shape ps)
    (hget : cfg.threads[i]? = some (task :: rest)) (hphase : task.phase = some p)
    (hexec : Conn.exec i task c cfg.shared = some (w', ks)) :
    ∃ tail, ps = p :: tail ∧ Course ⟨w', cfg.threads.set i (ks ++ rest)⟩ (phases ks ++ tail) := by
  have hsteers : task.steers = true := by simp [Task.steers, hphase]
  have hkeeps := (exec_flows hexec).keeps
  cases h with
  | absent hfree hrunning =>
      rw [(hfree.front hget).1] at hsteers
      cases hsteers
  | @present j owned howns hrunning hbegun =>
      obtain ⟨rfl, rfl⟩ := howns.front hget hsteers
      have hphases : phases (task :: rest.filter Task.steers) = p :: phases rest := by
        rw [phases, List.filterMap_cons_some hphase]
        exact congrArg (p :: ·) (phases_filter rest)
      have howns' := howns.own w' ks hget hsteers
      refine ⟨phases rest, hphases, ?_⟩
      by_cases hend : task.sect.kind = .maintainEnd
      · obtain ⟨rfl, hended⟩ := exec_ends hexec hend
        rw [phase_maintainEnd hend] at hphase
        obtain rfl := Option.some.inj hphase
        rw [hphases] at hshape
        have hrest : rest.filter Task.steers = [] :=
          eq_nil_of_phases (fun k hk => (List.mem_filter.mp hk).2)
            ((phases_filter rest).trans (hshape.tail_eq_nil nofun))
        rw [hrest] at howns'
        rw [hshape.tail_eq_nil nofun]
        exact .absent howns'.free hended
      · obtain ⟨hjoining, hcreate⟩ := Kind.ne_of_steers ((steers_eq task).symm.trans hsteers)
        have htask : w'.client.maintainTask = cfg.shared.client.maintainTask :=
          hkeeps.maintainTask (Kind.maintainTask_not_mem ⟨hjoining, hcreate, hend⟩)
        have hthread : w'.client.maintainThread = some i := by
          obtain hbegin | hthread := hbegun task (List.mem_cons_self ..)
          · exact exec_begins hexec hbegin
          · by_cases hbegin : task.sect.kind = .maintainBegin
            · exact exec_begins hexec hbegin
            · rw [hkeeps.maintainThread (Kind.maintainThread_not_mem hbegin), hthread]
        have hnext : phases (ks.filter Task.steers ++ rest.filter Task.steers) =
            phases ks ++ phases rest := by
          rw [phases_append, phases_filter, phases_filter]
        rw [← hnext]
        exact .present howns' (htask.trans hrunning) fun _ _ => .inr hthread

/-- A new thread is the task's if it is to run it. -/
theorem Course.start {e : Entry} (h : Course cfg ps)
    (hentry : Conn.entry e cfg.shared = some (w', q)) :
    Course ⟨w', cfg.threads ++ [q]⟩ ps ∨ ps = [] ∧ Course ⟨w', cfg.threads ++ [q]⟩ [.lap] := by
  have haside (hw : w'.client = cfg.shared.client) (hq : q.filter Task.steers = []) :
      Course ⟨w', cfg.threads ++ [q]⟩ ps := by
    cases h with
    | absent hfree hrunning => exact .absent (hfree.start w' hq) (by rw [hw]; exact hrunning)
    | present howns hrunning hbegun =>
        exact .present (howns.start w' hq) (by rw [hw]; exact hrunning) (by rw [hw]; exact hbegun)
  cases e with
  | call call =>
      obtain ⟨rfl, rfl⟩ := Prod.mk.inj (Option.some.inj hentry)
      exact .inl (haside rfl rfl)
  | data t bytes =>
      obtain ⟨-, hentry⟩ := Option.ite_none_right_eq_some.mp hentry
      obtain ⟨rfl, rfl⟩ := Prod.mk.inj (Option.some.inj hentry)
      exact .inl (haside rfl rfl)
  | closed t =>
      obtain ⟨-, hentry⟩ := Option.ite_none_right_eq_some.mp hentry
      obtain ⟨rfl, rfl⟩ := Prod.mk.inj (Option.some.inj hentry)
      exact .inl (haside rfl rfl)
  | maintain =>
      obtain ⟨hpending, hentry⟩ := Option.ite_none_right_eq_some.mp hentry
      obtain ⟨rfl, rfl⟩ := Prod.mk.inj (Option.some.inj hentry)
      cases h with
      | absent hfree hrunning =>
          refine .inr ⟨rfl, .present (hfree.owns_start _ [⟨.maintain, .maintainBegin⟩]) rfl ?_⟩
          intro k hk
          rw [List.mem_singleton.mp hk]
          exact .inl rfl
      | present howns hrunning hbegun =>
          rw [hpending] at hrunning
          cases hrunning

end

/-! ## What is next on a thread -/

/-- A section that comes next on its thread. -/
def Kind.first (k : Kind) : Bool := k.waits || k == .setExhausted

/-- Only the section in front waits for an attempt or leads to the report of giving up, which is
right behind it. -/
structure Leads (q : List Task) : Prop where
  tail : ∀ k ∈ q.tail, k.sect.kind.first = false
  report : ∀ k rest, q = k :: rest → k.sect.kind = .setExhausted →
    ∃ o e rest', rest = ⟨o, .callback (.error e)⟩ :: rest' ∧ ∃ k' ∈ rest', k'.steers = true

theorem leads_of_kind {q : List Task} (h : ∀ k ∈ q, k.sect.kind.first = false) : Leads q := by
  refine ⟨fun k hk => h k (List.mem_of_mem_tail hk), ?_⟩
  rintro k rest rfl hkind
  have hfirst := h k (List.mem_cons_self ..)
  rw [hkind] at hfirst
  cases hfirst

theorem leads_singleton {k : Task} (h : k.sect.kind ≠ .setExhausted) : Leads [k] := by
  refine ⟨fun _ hk => absurd hk List.not_mem_nil, ?_⟩
  intro k' rest hq hkind
  obtain ⟨rfl, -⟩ := List.cons.inj hq
  exact absurd hkind h

section

variable {i : ℕ} {task : Task} {c : Choice} {w w' : Conn} {ks rest q : List Task} {cfg : Config}
  {ps : List Phase}

/-- What was next on the thread stays behind what comes in front of it. -/
theorem Leads.append (hks : Leads ks) (h : Leads (task :: rest)) : Leads (ks ++ rest) := by
  have hrest : ∀ k ∈ rest, k.sect.kind.first = false := h.tail
  cases ks with
  | nil => exact leads_of_kind hrest
  | cons front ks =>
      constructor
      · intro k hk
        obtain hk | hk := List.mem_append.mp hk
        · exact hks.tail k hk
        · exact hrest k hk
      · intro k rest' hq hkind
        obtain ⟨rfl, rfl⟩ := List.cons.inj hq
        obtain ⟨o, e, behind, rfl, k', hk', hsteers⟩ := hks.report _ _ rfl hkind
        exact ⟨o, e, behind ++ rest, rfl, k', List.mem_append_left _ hk', hsteers⟩

theorem Kind.not_first_next {k : Kind}
    (h : [Kind.maintainRead, .backoff, .backoffOver, .giveUp].contains k = false) :
    ∀ k' ∈ k.next, k'.first = false := by
  have hnext : k.next.any Kind.first = false := by
    cases k with
    | maintainRead | backoff | backoffOver | giveUp => cases h
    | established task ok => cases task <;> cases ok <;> rfl
    | frameSent caller ok => cases caller <;> cases ok <;> rfl
    | closeFrameSent waits => cases waits <;> rfl
    | sending caller data => cases caller <;> rfl
    | _ => rfl
  exact fun k' hk' => Bool.eq_false_iff.mpr (List.any_eq_false.mp hnext k' hk')

theorem exec_leads [Target] (h : Conn.exec i task c w = some (w', ks)) : Leads ks := by
  have hplain (hkind : [Kind.maintainRead, .backoff, .backoffOver, .giveUp].contains
      task.sect.kind = false) : Leads ks :=
    leads_of_kind fun k hk => Kind.not_first_next hkind _ ((exec_flows h).next k hk)
  obtain ⟨o, s⟩ := task
  cases s with
  | maintainRead =>
      cases c with
      | go =>
          have h : some (w.maintainRead.1, o.tasks w.maintainRead.2) = some (w', ks) := h
          obtain ⟨-, rfl⟩ := Prod.mk.inj (Option.some.inj h)
          simp only [Conn.maintainRead]
          split
          · exact leads_singleton (by rintro ⟨⟩)
          · split
            · exact leads_singleton (by rintro ⟨⟩)
            · split <;> exact leads_singleton (by rintro ⟨⟩)
      | _ => cases h
  | backoff n url =>
      cases c with
      | go =>
          obtain ⟨-, rfl⟩ := Prod.mk.inj (Option.some.inj h)
          exact leads_singleton (by rintro ⟨⟩)
      | again =>
          obtain ⟨-, h⟩ := Option.ite_none_right_eq_some.mp h
          obtain ⟨-, rfl⟩ := Prod.mk.inj (Option.some.inj h)
          exact leads_singleton (by rintro ⟨⟩)
      | _ => cases h
  | backoffOver n url =>
      cases c with
      | go =>
          obtain ⟨-, rfl⟩ := Prod.mk.inj (Option.some.inj h)
          split <;> exact leads_singleton (by rintro ⟨⟩)
      | _ => cases h
  | giveUp n =>
      cases c with
      | go =>
          have h : some ((w.giveUp n).1, o.tasks (w.giveUp n).2) = some (w', ks) := h
          obtain ⟨-, rfl⟩ := Prod.mk.inj (Option.some.inj h)
          simp only [Conn.giveUp]
          split
          · exact leads_singleton (by rintro ⟨⟩)
          · refine ⟨?_, ?_⟩
            · simp [Origin.tasks, Sect.kind, Callback.kind, Kind.first, Kind.waits]
            · intro k rest hq _
              obtain ⟨-, rfl⟩ := List.cons.inj hq
              exact ⟨o, _, _, rfl, _, List.mem_singleton_self _, rfl⟩
      | _ => cases h
  | call call => cases call <;> exact hplain rfl
  | callback call => cases call <;> exact hplain rfl
  | _ => exact hplain rfl

/-! ## What a run keeps -/

/-- There is one task, and it goes on from the front of its thread. -/
structure Steered (cfg : Config) : Prop where
  course : ∃ ps, Course cfg ps ∧ Shape ps
  leads : ∀ q ∈ cfg.threads, Leads q

theorem steered_initial : Steered initial :=
  ⟨⟨[], .absent (fun _ hq => absurd hq List.not_mem_nil) nofun, .inl rfl⟩,
    fun _ hq => absurd hq List.not_mem_nil⟩

/-- The sections of the task are on one thread. -/
theorem Course.same_thread (h : Course cfg ps) {j : ℕ} {q' : List Task} {k k' : Task}
    (hq : cfg.threads[i]? = some q) (hk : k ∈ q) (hsteers : k.steers = true)
    (hq' : cfg.threads[j]? = some q') (hk' : k' ∈ q') (hsteers' : k'.steers = true) : i = j := by
  cases h with
  | absent hfree hrunning =>
      rw [hfree.eq_false (List.mem_of_getElem? hq) hk] at hsteers
      cases hsteers
  | @present l owned howns hrunning hbegun =>
      have hhere {m : ℕ} {r : List Task} {x : Task} (hr : cfg.threads[m]? = some r) (hx : x ∈ r)
          (hsteers : x.steers = true) : m = l := by
        by_contra hml
        have hfilter := howns.sections m r hr
        rw [if_neg hml, List.filter_eq_nil_iff] at hfilter
        exact hfilter x hx hsteers
      exact (hhere hq hk hsteers).trans (hhere hq' hk' hsteers').symm

theorem Moves.shape {p : Phase} {tail : List Phase} (h : Moves i task w w' p ps)
    (hshape : Shape (p :: tail)) : Shape (ps ++ tail) := by
  cases h with
  | exhausts =>
      obtain h | ⟨p, h⟩ | h := hshape
      · cases h
      · obtain ⟨-, rfl⟩ := List.cons.inj h
        exact .inl rfl
      · obtain ⟨-, rfl⟩ := List.cons.inj h
        exact .inr (.inl ⟨_, rfl⟩)
  | ends =>
      rw [hshape.tail_eq_nil nofun]
      exact .inl rfl
  | decides =>
      rw [hshape.tail_eq_nil nofun]
      exact .inr (.inr rfl)
  | _ =>
      rw [hshape.tail_eq_nil nofun]
      exact .inr (.inl ⟨_, rfl⟩)

theorem Steered.step [Target] {cfg' : Config} {l : Label} (h : Steered cfg)
    (hstep : program.step cfg l = some cfg') : Steered cfg' := by
  obtain ⟨ps, hcourse, hshape⟩ := h.course
  obtain ⟨e, w', q, rfl, hentry, rfl⟩ | ⟨i, c, task, rest, w', ks, rfl, hget, hexec, rfl⟩ :=
    Program.step_cases hstep
  · constructor
    · obtain hsame | ⟨-, hbegun⟩ := hcourse.start hentry
      · exact ⟨ps, hsame, hshape⟩
      · exact ⟨_, hbegun, .inr (.inl ⟨_, rfl⟩)⟩
    · intro p hp
      obtain hp | hp := List.mem_append.mp hp
      · exact h.leads p hp
      · obtain ⟨task, rfl, hkind⟩ := entry_kind hentry
        have hentries : ∀ k ∈ Kind.entries, k ≠ .setExhausted := by decide
        rw [List.mem_singleton.mp hp]
        exact leads_singleton (hentries _ hkind)
  · constructor
    · cases hphase : task.phase with
      | none =>
          have hsteers : task.steers = false := by simp [Task.steers, hphase]
          exact ⟨ps, hcourse.run_aside hget hsteers hexec, hshape⟩
      | some p =>
          obtain ⟨tail, rfl, hnext⟩ := hcourse.run_steers hshape hget hphase hexec
          exact ⟨_, hnext, (exec_moves hexec hphase).shape hshape⟩
    · intro p hp
      obtain rfl | ⟨j, -, hj⟩ := mem_set_cases hp
      · exact (exec_leads hexec).append (h.leads _ (List.mem_of_getElem? hget))
      · exact h.leads p (List.mem_of_getElem? hj)

end

end EspModemLink.WebSocket
