import EspModemLink.Library.Heartbeat
import EspModemLink.WebSocket.ClientSteps

/-!
# The heartbeat of the WebSocket client

The pings of the maintenance task and of `Ping`, and what becomes of `ping_sent_ms_`. The clock does
not run backwards, so a ping sent behind the clock reading of a check is not late for that check.
-/

namespace EspModemLink.WebSocket

open Bytes Http Heartbeat

/-! ## Pings -/

/-- What a section does about pings and pongs. -/
def beatOf (i : ℕ) (task : Task) (c : Choice) : Beat :=
  match task.sect, c with
  | .transportSend _ _ (.sendFrame .sendPing), .go => .begins i
  | .sending _ _ (.sendFrame .sendPing), .answer (.error _) => .aborts i
  | .readPingSent, .now ms => .stamps i ms
  | .storePingSent ms, .go => .stores i ms
  | .handleFrame frame, .go => if frame.opcode = .kPong then .answered else .quiet
  | .teardown .., .go => .cleared
  | _, _ => .quiet

/-- What a step does about them. -/
def beat (cfg : Config) : Label → Beat
  | .start _ => .quiet
  | .run i c =>
      match cfg.threads[i]? with
      | some (task :: _) => beatOf i task c
      | _ => .quiet

/-- The client with its pings beside it. -/
def pinging [Target] : Runs.Step (List Ping × Config) Label :=
  Runs.monitored program.step fun pings cfg l _ => after pings (beat cfg l)

/-- The clock value that a step of `MaintainLoop` reads for the heartbeat, with the time that a ping
may go unanswered. -/
def readsNow (cfg : Config) : Label → Option (Int × Int)
  | .run i (.now ms) =>
      match cfg.threads[i]? with
      | some (⟨_, .heartbeatNow config⟩ :: _) => some (ms, Conn.pongDeadline config)
      | _ => none
  | _ => none

/-- The clock value and the deadline that a step of `MaintainLoop` compares `ping_sent_ms_` with. -/
def compares (cfg : Config) : Label → Option (Int × Int)
  | .run i .go =>
      match cfg.threads[i]? with
      | some (⟨_, .heartbeatPing config now⟩ :: _) => some (now, Conn.pongDeadline config)
      | _ => none
  | _ => none

/-- When the loop reads the clock, every ping has been answered or has not waited for the
deadline. -/
def AnsweredInTime (s : List Ping × Config) (l : Label) : Prop :=
  ∀ r ∈ readsNow s.2 l, Within s.1 r.1 r.2

instance (s : List Ping × Config) (l : Label) : Decidable (AnsweredInTime s l) :=
  inferInstanceAs (Decidable (∀ r ∈ readsNow s.2 l, Within s.1 r.1 r.2))

/-- The time of a ping is stored while the ping is still to be answered. -/
def StoresPing (s : List Ping × Config) (l : Label) : Prop := StoresStanding s.1 (beat s.2 l)

instance (s : List Ping × Config) (l : Label) : Decidable (StoresPing s l) :=
  inferInstanceAs (Decidable (StoresStanding _ _))

/-- The loop takes the branch that reports a peer that does not answer and tears the connection
down. -/
def TimesOut (cfg : Config) (l : Label) : Prop :=
  ∃ r ∈ compares cfg l, cfg.shared.client.pingSentMs ≠ 0 ∧
    r.2 ≤ r.1 - cfg.shared.client.pingSentMs

instance (cfg : Config) (l : Label) : Decidable (TimesOut cfg l) :=
  inferInstanceAs (Decidable (∃ r ∈ compares cfg l, _))

/-- That branch, and no other of the loop, reports a timeout. -/
theorem timesOut_iff {cfg : Config} {i : ℕ} {o : Origin} {config : HeartbeatConfig} {now : Int}
    {ks : List Task} (hget : cfg.threads[i]? = some (⟨o, .heartbeatPing config now⟩ :: ks)) :
    TimesOut cfg (.run i .go) ↔
      .callback (.error ⟨.kTimeout, 0, "the peer did not answer a ping"⟩) ∈
        (cfg.shared.heartbeatPing config now).2 := by
  simp only [TimesOut, compares, hget, Option.mem_def, Option.some.injEq, exists_eq_left']
  simp only [Conn.heartbeatPing]
  split
  · rename_i hzero
    simp [hzero]
  · rename_i hmarker
    split
    · rename_i hlate
      simp [hmarker, hlate]
    · rename_i hlate
      simp [hlate]

/-! ## What a section does about the heartbeat -/

/-- A section that does not look at `ping_sent_ms_` for its age. -/
def Sect.unmeasured (s : Sect) : Bool :=
  match s with
  | .heartbeatNow _ | .heartbeatPing .. => false
  | _ => true

/-- What a section does about the heartbeat: to the marker, to the clock, and to the checks that it
leaves to do. -/
structure Beats (i : ℕ) (task : Task) (c : Choice) (w w' : Conn) (ks : List Task) : Prop where
  marker : w'.client.pingSentMs = mark w.client.pingSentMs (beatOf i task c)
  clock : w.clock ≤ w'.clock
  reads : ∀ k ∈ ks, ∀ config, k.sect = .heartbeatNow config → 0 < Conn.pongDeadline config
  checks : ∀ k ∈ ks, ∀ config now, k.sect = .heartbeatPing config now →
    task.sect = .heartbeatNow config ∧ c = .now now ∧ w'.clock = now

variable {i : ℕ} {task : Task} {c : Choice} {w w' : Conn} {ks : List Task}

/-- A section that leaves none that measures the age of a ping. -/
theorem Beats.plain (hmarker : w'.client.pingSentMs = mark w.client.pingSentMs (beatOf i task c))
    (hclock : w.clock ≤ w'.clock) (hks : ∀ k ∈ ks, k.sect.unmeasured = true) :
    Beats i task c w w' ks := by
  refine ⟨hmarker, hclock, ?_, ?_⟩
  · intro k hk config hsect
    have := hks k hk
    rw [hsect] at this
    cases this
  · intro k hk config now hsect
    have := hks k hk
    rw [hsect] at this
    cases this

theorem unmeasured_tasks (o : Origin) {sects : List Sect} (h : sects.all Sect.unmeasured = true) :
    ∀ k ∈ o.tasks sects, k.sect.unmeasured = true := by
  intro k hk
  obtain ⟨s, hs, rfl⟩ := List.mem_map.mp hk
  exact List.all_eq_true.mp h s hs

/-- The same for a section that leaves its own and does not read the clock. -/
theorem Beats.of_push {v : Conn} {sects : List Sect}
    (h : some (v, task.origin.tasks sects) = some (w', ks))
    (hmarker : v.client.pingSentMs = mark w.client.pingSentMs (beatOf i task c))
    (hclock : v.clock = w.clock) (hsects : sects.all Sect.unmeasured = true) :
    Beats i task c w w' ks := by
  obtain ⟨rfl, rfl⟩ := Prod.mk.inj (Option.some.inj h)
  exact .plain hmarker (Int.le_of_eq hclock.symm) (unmeasured_tasks _ hsects)

theorem readClock_eq {ms : Int} {v : Conn} (h : w.readClock ms = some v) :
    w.clock ≤ ms ∧ v = { w with clock := ms } := by
  simp only [Conn.readClock] at h
  split at h
  · rename_i hle
    exact ⟨hle, (Option.some.inj h).symm⟩
  · cases h

/-- The same for a section that reads the clock. -/
theorem Beats.of_clock {ms : Int} {f : Conn → Conn} {sects : Conn → List Sect}
    (h : ((w.readClock ms).bind fun w => some (f w, task.origin.tasks (sects w))) = some (w', ks))
    (hmarker : ∀ v, v.client = w.client →
      (f v).client.pingSentMs = mark w.client.pingSentMs (beatOf i task c))
    (hclock : ∀ v, (f v).clock = v.clock) (hsects : ∀ v, (sects v).all Sect.unmeasured = true) :
    Beats i task c w w' ks := by
  obtain ⟨v, hv, h⟩ := Option.bind_eq_some_iff.mp h
  obtain ⟨hle, rfl⟩ := readClock_eq hv
  obtain ⟨rfl, rfl⟩ := Prod.mk.inj (Option.some.inj h)
  apply Beats.plain (hmarker { w with clock := ms } rfl) _ (unmeasured_tasks _ (hsects _))
  rw [hclock]
  exact hle

/-- A time that a ping learns is not behind the clock. -/
theorem clock_le_stamp [Target] (h : Conn.exec i task c w = some (w', ks)) {t : ℕ} {ms : Int}
    (hbeat : beatOf i task c = .stamps t ms) : w.clock ≤ ms := by
  obtain ⟨o, s⟩ := task
  unfold beatOf at hbeat
  split at hbeat
  · cases hbeat
  · cases hbeat
  · rename_i hsect
    simp only at hsect
    subst hsect
    obtain ⟨-, rfl⟩ := Beat.stamps.inj hbeat
    obtain ⟨v, hv, -⟩ := Option.bind_eq_some_iff.mp h
    exact (readClock_eq hv).1
  · cases hbeat
  · split at hbeat <;> cases hbeat
  · cases hbeat
  · cases hbeat

theorem unmeasured_call (cl : Call) : (w.call cl).2.all Sect.unmeasured = true := by
  cases cl with
  | connect url =>
      simp only [Conn.call, Conn.connect]
      split <;> rfl
  | sendFragment data binary fin =>
      simp only [Conn.call, Conn.sendFragment]
      split <;> rfl
  | ping payload =>
      simp only [Conn.call, Conn.ping]
      split <;> rfl
  | setHeader | setTlsConfig | setHeartbeat | setAutoReconnect | close =>
      rfl

theorem same_call (cl : Call) :
    (w.call cl).1.client.pingSentMs = w.client.pingSentMs ∧ (w.call cl).1.clock = w.clock := by
  cases cl with
  | connect url =>
      simp only [Conn.call, Conn.connect]
      split <;> exact ⟨rfl, rfl⟩
  | sendFragment data binary fin =>
      simp only [Conn.call, Conn.sendFragment]
      split <;> exact ⟨rfl, rfl⟩
  | ping payload =>
      simp only [Conn.call, Conn.ping]
      split <;> exact ⟨rfl, rfl⟩
  | setHeader | setTlsConfig | setHeartbeat | setAutoReconnect | close =>
      exact ⟨rfl, rfl⟩

theorem unmeasured_fail (e : NetworkError) (code : ℕ) (reason : Bytes) :
    (Conn.fail e code reason).all Sect.unmeasured = true := rfl

/-- A delivery within a call is no beat, and measures nothing. -/
theorem Beats.of_deliverWithin (h : w.deliverWithin task c = some (w', ks))
    (htask : task.sect.unmeasured = true) : Beats i task c w w' ks := by
  simp only [Conn.deliverWithin, Option.map_eq_some_iff, Prod.mk.injEq] at h
  obtain ⟨tasks, hdelivery, rfl, rfl⟩ := h
  have hbeat : beatOf i task c = .quiet := by
    unfold beatOf
    cases c <;> simp [Conn.delivery] at hdelivery <;> split <;> first | rfl | contradiction
  apply Beats.plain (by rw [hbeat]; rfl) (Int.le_refl _)
  intro k hk
  obtain hk | hk := List.mem_append.mp hk
  · cases c <;> simp [Conn.delivery] at hdelivery <;> subst hdelivery <;>
      rw [List.mem_singleton.mp hk] <;> rfl
  · rw [List.mem_singleton.mp hk]
    exact htask

/-- `HandleDataFrame` leaves the marker alone, and measures nothing. -/
theorem handleDataFrame_beats (frame : WsFrame) :
    (w.handleDataFrame frame).1.client.pingSentMs = w.client.pingSentMs ∧
      (w.handleDataFrame frame).1.clock = w.clock ∧
      (w.handleDataFrame frame).2.all Sect.unmeasured = true := by
  simp only [Conn.handleDataFrame]
  split
  · exact ⟨rfl, rfl, unmeasured_fail _ _ _⟩
  · split
    · exact ⟨rfl, rfl, unmeasured_fail _ _ _⟩
    · split
      · split
        · exact ⟨rfl, rfl, unmeasured_fail _ _ _⟩
        · split <;> exact ⟨rfl, rfl, rfl⟩
      · split <;> exact ⟨rfl, rfl, rfl⟩

/-- A handler clears the marker for a pong only. -/
theorem handleFrame_beats (frame : WsFrame) :
    (w.handleFrame frame).1.client.pingSentMs =
        mark w.client.pingSentMs (if frame.opcode = .kPong then .answered else .quiet) ∧
      (w.handleFrame frame).1.clock = w.clock ∧
      (w.handleFrame frame).2.all Sect.unmeasured = true := by
  cases hopcode : frame.opcode with
  | kPing | kPong =>
      simp only [Conn.handleFrame, hopcode]
      exact ⟨rfl, trivial, rfl⟩
  | kClose =>
      simp only [Conn.handleFrame, hopcode, Conn.handleCloseFrame]
      split
      · exact ⟨rfl, rfl, rfl⟩
      · exact ⟨rfl, rfl, unmeasured_fail _ _ _⟩
      · exact ⟨rfl, rfl, rfl⟩
  | kContinuation | kText | kBinary =>
      simp only [Conn.handleFrame, hopcode]
      exact handleDataFrame_beats frame

/-- The heartbeat is looked at only with an interval, which gives the pongs some time. -/
theorem pongDeadline_pos {config : HeartbeatConfig} (h : 0 < config.interval) :
    0 < Conn.pongDeadline config := by
  simp only [Conn.pongDeadline]
  split <;> omega

theorem beats_maintainOpen {o : Origin} {config : HeartbeatConfig}
    (h : some ((w.maintainOpen config).1, o.tasks (w.maintainOpen config).2) = some (w', ks)) :
    Beats i ⟨o, .maintainOpen config⟩ .go w w' ks := by
  obtain ⟨rfl, rfl⟩ := Prod.mk.inj (Option.some.inj h)
  refine ⟨rfl, Int.le_refl _, ?_, ?_⟩
  · intro k hk config' hsect
    obtain ⟨s, hs, rfl⟩ := List.mem_map.mp hk
    simp only [Conn.maintainOpen] at hs
    split at hs
    · rw [List.mem_singleton.mp hs] at hsect
      cases hsect
    · rename_i hbeats
      rw [List.mem_singleton.mp hs] at hsect
      obtain rfl := Sect.heartbeatNow.inj hsect
      apply pongDeadline_pos
      omega
  · intro k hk config' now hsect
    obtain ⟨s, hs, rfl⟩ := List.mem_map.mp hk
    simp only [Conn.maintainOpen] at hs
    split at hs
    · rw [List.mem_singleton.mp hs] at hsect
      cases hsect
    · rw [List.mem_singleton.mp hs] at hsect
      cases hsect

theorem beats_heartbeatNow {o : Origin} {config : HeartbeatConfig} {ms : Int}
    (h : ((w.readClock ms).bind fun w => some (w, o.tasks [.heartbeatPing config ms])) =
      some (w', ks)) : Beats i ⟨o, .heartbeatNow config⟩ (.now ms) w w' ks := by
  obtain ⟨v, hv, h⟩ := Option.bind_eq_some_iff.mp h
  obtain ⟨hle, rfl⟩ := readClock_eq hv
  obtain ⟨rfl, rfl⟩ := Prod.mk.inj (Option.some.inj h)
  refine ⟨rfl, hle, ?_, ?_⟩
  · intro k hk config' hsect
    rw [List.mem_singleton.mp hk] at hsect
    cases hsect
  · intro k hk config' now hsect
    rw [List.mem_singleton.mp hk] at hsect
    obtain ⟨rfl, rfl⟩ := Sect.heartbeatPing.inj hsect
    exact ⟨rfl, rfl, rfl⟩

variable [Target]

/-- What every section does about the heartbeat. -/
theorem exec_beats (h : Conn.exec i task c w = some (w', ks)) : Beats i task c w w' ks := by
  obtain ⟨o, s⟩ := task
  unfold Conn.exec at h
  dsimp only at h
  split at h
  -- calls and `Establish`
  · obtain ⟨hmarker, hclock⟩ := same_call (w := w) _
    exact .of_push h hmarker hclock (unmeasured_call _)
  · simp only [Conn.establish] at h
    split at h
    · exact .of_push h rfl rfl rfl
    · split at h <;> exact .of_push h rfl rfl rfl
  · rename_i result
    cases result <;> exact .of_push h rfl rfl rfl
  · exact .of_push h rfl rfl rfl
  · split at h <;> exact .of_push h rfl rfl rfl
  · exact .of_deliverWithin h rfl
  · exact .of_push h rfl rfl rfl
  · split at h
    · refine .of_clock h ?_ ?_ ?_ <;> intro v
      · intro hv
        rw [← hv]
        simp only [Conn.wake]
        split <;> rfl
      · simp only [Conn.wake]
        split <;> rfl
      · simp only [Conn.wake]
        split <;> rfl
    · cases h
  · split at h
    · cases h
    · exact .of_push h rfl rfl rfl
  · rename_i caller result
    cases caller <;> cases result <;>
      exact .of_push h rfl rfl rfl
  -- `Close` and sending
  · simp only [Conn.closing] at h
    split at h <;> exact .of_push h rfl rfl rfl
  · split at h
    · exact .of_push h rfl rfl rfl
    · cases h
  · exact .of_push h rfl rfl rfl
  · simp only [Conn.sendFrame] at h
    split at h
    · exact .of_push h rfl rfl rfl
    · split at h <;> exact .of_push h rfl rfl rfl
  · rename_i caller result
    cases caller <;> cases result <;>
      exact .of_push h rfl rfl rfl
  · simp only [Conn.sendCloseFrame] at h
    split at h
    · exact .of_push h rfl rfl rfl
    · split at h
      · exact .of_push h rfl rfl rfl
      · split at h <;> exact .of_push h rfl rfl rfl
  · rename_i caller
    cases caller <;> exact .of_push h rfl rfl rfl
  · rename_i caller
    cases caller with
    | sendFrame caller => cases caller <;> exact .of_push h rfl rfl rfl
    | establish | sendCloseFrame => exact .of_push h rfl rfl rfl
  · rename_i caller result
    cases caller with
    | sendFrame caller =>
        cases caller <;> cases result <;>
          exact .of_push h rfl rfl rfl
    | establish | sendCloseFrame =>
        cases result <;> exact .of_push h rfl rfl rfl
  · exact .of_deliverWithin h rfl
  · exact .of_clock h (fun v hv => by rw [← hv]; rfl) (fun _ => rfl) (fun _ => rfl)
  · exact .of_clock h (fun v hv => by rw [hv]; rfl) (fun _ => rfl) (fun _ => rfl)
  · exact .of_push h rfl rfl rfl
  -- receiving
  · simp only [Conn.queueInbound] at h
    split at h
    · exact .of_push h rfl rfl (unmeasured_fail _ _ _)
    · split at h
      · exact .of_push h rfl rfl rfl
      · simp only [Conn.consumeHandshake] at h
        split at h <;> exact .of_push h rfl rfl rfl
  · split at h <;> exact .of_push h rfl rfl rfl
  · simp only [Conn.drainFrames] at h
    split at h
    · obtain ⟨rfl, rfl⟩ := Prod.mk.inj (Option.some.inj h)
      exact .plain rfl (Int.le_refl _) (by simp)
    · split at h
      · obtain ⟨rfl, rfl⟩ := Prod.mk.inj (Option.some.inj h)
        exact .plain rfl (Int.le_refl _) (by simp)
      · obtain ⟨rfl, rfl⟩ := Prod.mk.inj (Option.some.inj h)
        exact .plain rfl (Int.le_refl _) (unmeasured_tasks _ (unmeasured_fail _ _ _))
      · obtain ⟨rfl, rfl⟩ := Prod.mk.inj (Option.some.inj h)
        exact .plain rfl (Int.le_refl _)
          (List.forall_mem_cons.mpr ⟨rfl, List.forall_mem_singleton.mpr rfl⟩)
  · exact .of_push h rfl rfl rfl
  · obtain ⟨hmarker, hclock, hsects⟩ := handleFrame_beats (w := w) _
    exact .of_push h hmarker hclock hsects
  · refine .of_push h rfl rfl ?_
    simp only [Conn.answerClose]
    split <;> rfl
  -- ending
  · refine .of_push h rfl rfl ?_
    simp only [Conn.teardown]
    cases w.client.transport <;> split <;> rfl
  · exact .of_push h rfl rfl rfl
  · exact .of_push h rfl rfl rfl
  · exact .of_deliverWithin h rfl
  · exact .of_push h rfl rfl rfl
  · refine .of_push h rfl rfl ?_
    split <;> rfl
  -- the maintenance task
  · simp only [Conn.joinMaintain] at h
    split at h <;> exact .of_push h rfl rfl rfl
  · simp only [Conn.joining] at h
    split at h
    · exact .of_push h rfl rfl rfl
    · cases h
  · exact .of_push h rfl rfl rfl
  · simp only [Conn.createTask] at h
    split at h
    · exact .of_push h rfl rfl rfl
    · cases h
  · exact .of_push h rfl rfl rfl
  · refine .of_push h rfl rfl ?_
    split <;> rfl
  · refine .of_push h rfl rfl ?_
    split <;> rfl
  · simp only [Conn.maintainRead] at h
    split at h
    · exact .of_push h rfl rfl rfl
    · split at h
      · exact .of_push h rfl rfl rfl
      · split at h <;> exact .of_push h rfl rfl rfl
  · exact beats_maintainOpen h
  · exact beats_heartbeatNow h
  · simp only [Conn.heartbeatPing] at h
    split at h
    · exact .of_push h rfl rfl rfl
    · split at h <;> exact .of_push h rfl rfl rfl
  · simp only [Conn.heartbeatIdle] at h
    split at h <;> exact .of_push h rfl rfl rfl
  · simp only [Conn.giveUp] at h
    split at h <;> exact .of_push h rfl rfl rfl
  · exact .of_push h rfl rfl rfl
  · split at h
    · exact .of_push h rfl rfl rfl
    · cases h
  · exact .of_push h rfl rfl rfl
  · refine .of_push h rfl rfl ?_
    split <;> rfl
  · exact .of_push h rfl rfl rfl
  · exact .of_push h rfl rfl rfl
  · exact .of_push h rfl rfl rfl
  · obtain ⟨rfl, rfl⟩ := Prod.mk.inj (Option.some.inj h)
    exact .plain rfl (Int.le_refl _)
      (List.forall_mem_cons.mpr ⟨rfl, List.forall_mem_singleton.mpr rfl⟩)
  · exact .of_push h rfl rfl rfl
  · cases h

/-! ## Runs -/

omit [Target] in
/-- What a run keeps: `ping_sent_ms_` is truthful, a check is made only with a deadline, and a check
under way has no late ping. -/
structure Alive (s : List Ping × Config) : Prop where
  marker : Truthful s.1 s.2.shared.client.pingSentMs
  reads : ∀ q ∈ s.2.threads, ∀ task ∈ q, ∀ config, task.sect = .heartbeatNow config →
    0 < Conn.pongDeadline config
  checks : ∀ q ∈ s.2.threads, ∀ task ∈ q, ∀ config now, task.sect = .heartbeatPing config now →
    0 < Conn.pongDeadline config ∧ now ≤ s.2.shared.clock ∧
      Within s.1 now (Conn.pongDeadline config)

omit [Target] in
/-- The first sections of a thread measure nothing, and an entry is no beat. -/
theorem entry_beats {e : Entry} {q : List Task} (h : Conn.entry e w = some (w', q)) :
    w'.client.pingSentMs = w.client.pingSentMs ∧ w'.clock = w.clock ∧
      ∀ k ∈ q, k.sect.unmeasured = true := by
  cases e with
  | call cl =>
      obtain ⟨rfl, rfl⟩ := Prod.mk.inj (Option.some.inj h)
      exact ⟨rfl, rfl, List.forall_mem_singleton.mpr rfl⟩
  | data | closed | maintain =>
      simp only [Conn.entry] at h
      split at h
      · obtain ⟨rfl, rfl⟩ := Prod.mk.inj (Option.some.inj h)
        exact ⟨rfl, rfl, List.forall_mem_singleton.mpr rfl⟩
      · cases h

omit [Target] in
theorem Alive.start {pings : List Ping} {cfg : Config} (h : Alive (pings, cfg)) {e : Entry}
    {q : List Task} (hentry : Conn.entry e cfg.shared = some (w', q)) :
    Alive (pings, ⟨w', cfg.threads ++ [q]⟩) := by
  obtain ⟨hmarker, hclock, hnew⟩ := entry_beats hentry
  refine ⟨?_, ?_, ?_⟩
  · simp only [hmarker]
    exact h.marker
  · intro p hp task htask config hsect
    obtain hp | hp := List.mem_append.mp hp
    · exact h.reads p hp task htask config hsect
    · rw [List.mem_singleton.mp hp] at htask
      have := hnew task htask
      rw [hsect] at this
      cases this
  · intro p hp task htask config now hsect
    simp only [hclock]
    obtain hp | hp := List.mem_append.mp hp
    · exact h.checks p hp task htask config now hsect
    · rw [List.mem_singleton.mp hp] at htask
      have := hnew task htask
      rw [hsect] at this
      cases this

/-- Every section keeps it, unless a time is stored behind its answer. -/
theorem Alive.run {pings : List Ping} {cfg : Config} (h : Alive (pings, cfg))
    (hget : cfg.threads[i]? = some (task :: ks)) {ks' : List Task}
    (hexec : Conn.exec i task c cfg.shared = some (w', ks'))
    (hinTime : ∀ config now, task.sect = .heartbeatNow config → c = .now now →
      Within pings now (Conn.pongDeadline config))
    (hstores : StoresStanding pings (beatOf i task c)) :
    Alive (after pings (beatOf i task c), ⟨w', cfg.threads.set i (ks' ++ ks)⟩) := by
  obtain ⟨hmarker, hclock, hreads, hchecks⟩ := exec_beats hexec
  -- a section that some thread had to execute before
  have hold : ∀ p ∈ cfg.threads.set i (ks' ++ ks), ∀ k ∈ p,
      (p = ks' ++ ks ∧ k ∈ ks') ∨ ∃ q ∈ cfg.threads, k ∈ q := by
    intro p hp k hk
    obtain rfl | ⟨j, -, hj⟩ := Sections.mem_set_cases hp
    · obtain hk | hk := List.mem_append.mp hk
      · exact .inl ⟨rfl, hk⟩
      · exact .inr ⟨_, List.mem_of_getElem? hget, List.mem_cons_of_mem _ hk⟩
    · exact .inr ⟨p, List.mem_of_getElem? hj, hk⟩
  refine ⟨?_, ?_, ?_⟩
  · simp only [hmarker]
    exact h.marker.after hstores
  · intro p hp k hk config hsect
    obtain ⟨-, hnew⟩ | ⟨q, hq, hk⟩ := hold p hp k hk
    · exact hreads k hnew config hsect
    · exact h.reads q hq k hk config hsect
  · intro p hp k hk config now hsect
    obtain ⟨-, hnew⟩ | ⟨q, hq, hk⟩ := hold p hp k hk
    · obtain ⟨hnow, rfl, htime⟩ := hchecks k hnew config now hsect
      have hquiet : beatOf i task (.now now) = .quiet := by
        unfold beatOf
        rw [hnow]
      rw [hquiet]
      refine ⟨?_, Int.le_of_eq htime.symm, hinTime config now hnow rfl⟩
      exact h.reads _ (List.mem_of_getElem? hget) task (List.mem_cons_self ..) config hnow
    · obtain ⟨hpos, hle, hwithin⟩ := h.checks q hq k hk config now hsect
      refine ⟨hpos, Int.le_trans hle hclock, hwithin.after ?_⟩
      -- a ping that learns its time now was not sent before the clock was read for the check
      intro t ms hbeat
      have hstamp : cfg.shared.clock ≤ ms := clock_le_stamp hexec hbeat
      simp only at hle
      omega

theorem Alive.step {s s' : List Ping × Config} {l : Label} (h : Alive s)
    (hok : AnsweredInTime s l ∧ StoresPing s l) (hstep : pinging s l = some s') : Alive s' := by
  obtain ⟨pings, cfg⟩ := s
  obtain ⟨hprogram, hpings⟩ := Runs.monitored_eq_some.mp hstep
  obtain ⟨pings', cfg'⟩ := s'
  obtain ⟨hinTime, hstores⟩ := hok
  simp only at hprogram hpings
  obtain ⟨e, w', q, rfl, hentry, rfl⟩ | ⟨i, c, task, ks, w', ks', rfl, hget, hexec, rfl⟩ :=
    Sections.Program.step_cases hprogram
  · subst hpings
    exact h.start hentry
  · have hbeat : beat cfg (.run i c) = beatOf i task c := by simp [beat, hget]
    rw [hpings, hbeat]
    apply h.run hget hexec
    · rintro config now hsect rfl
      apply hinTime (now, Conn.pongDeadline config)
      obtain ⟨o, s⟩ := task
      simp only at hsect
      subst hsect
      simp [readsNow, hget]
    · have hstanding : StoresStanding pings (beat cfg (.run i c)) := hstores
      rw [hbeat] at hstanding
      exact hstanding

omit [Target] in
/-- A check under way does not time out. -/
theorem Alive.not_timesOut {s : List Ping × Config} (h : Alive s) (l : Label) :
    ¬TimesOut s.2 l := by
  rintro ⟨⟨now, deadline⟩, hcompares, hmarker, hlate⟩
  cases l with
  | start => cases hcompares
  | run i c =>
      cases c with
      | go =>
          simp only [compares] at hcompares
          split at hcompares
          · rename_i hget
            obtain ⟨rfl, rfl⟩ := Prod.mk.inj (Option.some.inj hcompares)
            obtain ⟨-, -, hwithin⟩ :=
              h.checks _ (List.mem_of_getElem? hget) _ (List.mem_cons_self ..) _ _ rfl
            obtain hzero | hnot := h.marker.not_late hwithin
            · exact hmarker hzero
            · simp only at hlate
              omega
          · cases hcompares
      | random | now | answer | data | closed | timeout | again | call => cases hcompares

omit [Target] in
theorem alive_initial : Alive ([], initial) :=
  ⟨fun h => absurd rfl h, by simp [initial], by simp [initial]⟩

/-- In the runs whose steps meet `ok`, as long as every ping is answered in time, the loop never
times out. -/
def NoFalseTimeout (ok : List Ping × Config → Label → Prop) : Prop :=
  ∀ ls, Runs.Along pinging (fun s l _ => AnsweredInTime s l ∧ ok s l) ([], initial) ls →
    Runs.Along pinging (fun s l _ => ¬TimesOut s.2 l) ([], initial) ls

theorem noFalseTimeout : NoFalseTimeout StoresPing := by
  intro ls h
  apply h.mono (I := Alive) _ alive_initial
  intro s l s' halive hok hstep
  exact ⟨halive.step hok hstep, halive.not_timesOut l⟩

end EspModemLink.WebSocket
