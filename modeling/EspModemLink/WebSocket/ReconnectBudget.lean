import EspModemLink.WebSocket.ReconnectCourse

/-!
# The attempts to reconnect

`max_retries` bounds how many attempts the maintenance task makes in a row. The task carries the
count that it has read into its attempt, and what `Connect` and `SetAutoReconnect` reset meanwhile
is overwritten with the next number behind it.
-/

namespace EspModemLink.WebSocket

open Bytes Http Retries Sections

/-! ## What is counted -/

/-- The threads on which a `Close` is stopping the task, and whether one has stopped it, since the
last `Connect`. -/
structure Closes where
  stopping : List ℕ := []
  closed : Bool := false

/-- `Close` has stopped the task when it comes to its own sections, which is before it returns. -/
def Closes.after (m : Closes) (i : ℕ) (w : Conn) (task : Task) : Closes :=
  match task.sect with
  | .call (.connect _) => if w.client.state = .kDisconnected then {} else m
  | .call (.close ..) => { m with stopping := i :: m.stopping }
  | .closing .. => if i ∈ m.stopping then ⟨m.stopping.filter (· ≠ i), true⟩ else m
  | _ => m

structure Reconnects where
  tally : Tally := {}
  closes : Closes := {}

def Reconnects.watch (m : Reconnects) (cfg : Config) (l : Label) (_ : Config) : Reconnects :=
  match l with
  | .start _ => m
  | .run i _ =>
      match cfg.threads[i]? with
      | some (task :: _) =>
          ⟨tallied m.tally i cfg.shared task, m.closes.after i cfg.shared task⟩
      | _ => m

/-- The client with its attempts to reconnect beside it. -/
def reconnecting [Target] : Runs.Step (Reconnects × Config) Label :=
  Runs.monitored program.step Reconnects.watch

/-- The task reports that it gives up. -/
def GivesUp (s : Reconnects × Config) : Label → Prop
  | .start _ => False
  | .run i _ =>
      s.1.tally.due = some i ∧
        match s.2.threads[i]? with
        | some (⟨_, .callback (.error _)⟩ :: _) => True
        | _ => False

/-- The task makes an attempt. -/
def Attempts (cfg : Config) (l : Label) : Prop :=
  ∃ task ∈ l.front cfg, task.sect.kind = .establish true

/-- The task makes no more attempts than `max_retries` allows, reports at most once that it gives up
and only when that many have failed, and makes none once a `Close` has stopped it. -/
structure Bounded (s : Reconnects × Config) (l : Label) (s' : Reconnects × Config) : Prop where
  attempts : 0 ≤ s'.2.shared.client.reconnect.maxRetries →
    (s'.1.tally.attempts : Int) ≤ s'.2.shared.client.reconnect.maxRetries
  reports : s'.1.tally.reports ≤ 1
  spent : GivesUp s l → s.2.shared.client.reconnect.maxRetries ≤ s.1.tally.failures
  closed : Attempts s.2 l → s.1.closes.closed = false

/-! ## When the count is right -/

/-- The task carries no number but 0, and has not decided to give up. -/
def CarriesNothing (s : Reconnects × Config) : Prop :=
  s.1.tally.due = none ∧ ∀ q ∈ s.2.threads, ∀ p ∈ phases q, p.fresh = true

/-- A reset finds the task carrying nothing, and not about to make an attempt that is allowed no
more. A `Connect` succeeds before the task has failed behind it. An open connection has the count
set back only if there has been no attempt since it was opened. -/
def Sect.Steady (s : Reconnects × Config) : Sect → Prop
  | .call (.connect _) => s.2.shared.client.state = .kDisconnected → CarriesNothing s
  | .call (.setAutoReconnect config) =>
      CarriesNothing s ∧ (config.maxRetries = 0 → ∀ q ∈ s.2.threads, .waiting 0 ∉ phases q)
  | .await .connect => UpgradeAccepted s.2.shared →
      CarriesNothing s ∧ s.2.shared.client.reconnectAttempt = 0
  | .maintainOpen _ => s.1.tally.attempts = 0
  | _ => True

def Steady (s : Reconnects × Config) (l : Label) : Prop :=
  ∀ task ∈ l.front s.2, task.sect.Steady s

instance (s : Reconnects × Config) (l : Label) : Decidable (Steady s l) := by
  have (sect : Sect) : Decidable (sect.Steady s) := by
    unfold Sect.Steady CarriesNothing UpgradeAccepted
    split <;> infer_instance
  unfold Steady
  infer_instance

/-- Whether the call at the front of a thread reports that the task gives up. -/
def reportsFailure : Option (List Task) → Bool
  | some (⟨_, .callback (.error _)⟩ :: _) => true
  | _ => false

theorem givesUp_run (s : Reconnects × Config) (i : ℕ) (c : Choice) :
    GivesUp s (.run i c) ↔ s.1.tally.due = some i ∧ reportsFailure s.2.threads[i]? = true := by
  unfold GivesUp reportsFailure
  dsimp only
  split <;> simp

instance (s : Reconnects × Config) : (l : Label) → Decidable (GivesUp s l)
  | .start _ => isFalse id
  | .run i c => decidable_of_iff _ (givesUp_run s i c).symm

instance (s : Reconnects × Config) (l : Label) (s' : Reconnects × Config) :
    Decidable (Bounded s l s') :=
  have : Decidable (Attempts s.2 l) := by
    unfold Attempts
    infer_instance
  decidable_of_iff
    ((0 ≤ s'.2.shared.client.reconnect.maxRetries →
      (s'.1.tally.attempts : Int) ≤ s'.2.shared.client.reconnect.maxRetries) ∧
      s'.1.tally.reports ≤ 1 ∧
      (GivesUp s l → s.2.shared.client.reconnect.maxRetries ≤ s.1.tally.failures) ∧
      (Attempts s.2 l → s.1.closes.closed = false))
    ⟨fun ⟨ha, hr, hs, hc⟩ => ⟨ha, hr, hs, hc⟩, fun h => ⟨h.attempts, h.reports, h.spent, h.closed⟩⟩

/-! ## Closing -/

/-- The sections of `StopMaintain`. -/
def Kind.stops : List Kind := [.stopMaintain, .joinMaintain, .joining]

/-- How far a `Close` has come that is stopping the task. -/
inductive Stopping (cfg : Config) (i : ℕ) : Prop
  | stops {k k' : Task} {rest : List Task} (hget : cfg.threads[i]? = some (k :: k' :: rest))
      (hkind : k.sect.kind ∈ Kind.stops) (hnext : k'.sect.kind = .closing)
  | stopped {k : Task} {rest : List Task} (hget : cfg.threads[i]? = some (k :: rest))
      (hkind : k.sect.kind = .closing) (hfree : Free Task.waits cfg)

/-- A `Close` keeps the task from waiting for an attempt, which lasts until the next `Connect`. -/
structure Closes.Sound (m : Closes) (cfg : Config) : Prop where
  user : m.stopping ≠ [] ∨ m.closed = true → cfg.shared.client.userClosed = true
  closed : m.closed = true → Free Task.waits cfg
  stopping : ∀ i ∈ m.stopping, Stopping cfg i

section

variable {i : ℕ} {task : Task} {c : Choice} {w w' : Conn} {ks rest : List Task} {cfg : Config}
  {m m' : Closes}

theorem waits_iff : task.waits = true ↔ ∃ n, task.phase = some (.waiting n) := by
  obtain ⟨o, s⟩ := task
  cases s with
  | call c =>
      cases c <;> simp [Task.waits, Task.phase, Sect.kind, Call.kind, Kind.waits, Sect.phase]
  | callback c =>
      cases c <;> simp [Task.waits, Task.phase, Sect.kind, Callback.kind, Kind.waits, Sect.phase]
  | establish caller | create caller | abandon caller | transportConnect caller | store caller
  | await caller =>
      cases caller <;>
        simp [Task.waits, Task.phase, Sect.kind, Caller.isTask, Kind.waits, Sect.phase]
  | established caller result =>
      cases caller <;> cases result <;>
        simp [Task.waits, Task.phase, Sect.kind, Kind.waits, Sect.phase]
  | transportSend t bytes caller | sending t bytes caller =>
      cases caller with
      | establish caller =>
          cases caller <;> simp [Task.waits, Task.phase, Sect.kind, Kind.waits, Sect.phase]
      | _ => simp [Task.waits, Task.phase, Sect.kind, Kind.waits, Sect.phase]
  | _ => simp [Task.waits, Task.phase, Sect.kind, Kind.waits, Sect.phase]

/-- Behind `user_closed_` the task does not begin to wait for an attempt. -/
theorem exec_waits [Target] (h : Conn.exec i task c w = some (w', ks))
    (huser : w.client.userClosed = true) (hnot : task.waits = false) :
    ks.filter Task.waits = [] := by
  rw [List.filter_eq_nil_iff]
  intro k hk hwaits
  obtain ⟨n, hn⟩ := waits_iff.mp hwaits
  have hmem : .waiting n ∈ phases ks := List.mem_filterMap.mpr ⟨k, hk, hn⟩
  cases hphase : task.phase with
  | none =>
      have hkind : task.sect.kind.steers = false := by
        rw [← steers_eq]
        simp [Task.steers, hphase]
      have hsteers := Kind.not_steers_next hkind _ ((exec_flows h).next k hk)
      rw [Kind.steers_of_waits hwaits] at hsteers
      cases hsteers
  | some p =>
      have hmoves := exec_moves h hphase
      generalize phases ks = ps at hmem hmoves
      cases hmoves with
      | waits _ hfalse =>
          rw [huser] at hfalse
          cases hfalse
      | waitsOn =>
          rw [waits_iff.mpr ⟨_, hphase⟩] at hnot
          cases hnot
      | _ => simp at hmem

/-- A section of `StopMaintain` leaves the next one, or there is nothing to wait for. -/
theorem exec_stops [Target] (h : Conn.exec i task c w = some (w', ks))
    (hkind : task.sect.kind ∈ Kind.stops) :
    (∃ k, ks = [k] ∧ k.sect.kind ∈ Kind.stops) ∨
      ks = [] ∧ (w.client.maintainTask ≠ some .running ∨ w.client.maintainThread = some i) := by
  obtain ⟨o, s⟩ := task
  cases s with
  | stopMaintain =>
      cases c with
      | go =>
          obtain ⟨-, rfl⟩ := Prod.mk.inj (Option.some.inj h)
          split
          · rename_i hnone
            exact .inr ⟨rfl, .inl (by simp [hnone])⟩
          · exact .inl ⟨_, rfl, by simp [Sect.kind, Kind.stops]⟩
      | _ => cases h
  | joinMaintain =>
      cases c with
      | go =>
          obtain ⟨-, rfl⟩ := Prod.mk.inj (Option.some.inj h)
          simp only [Conn.joinMaintain]
          split
          · rename_i hthread
            exact .inr ⟨rfl, .inr hthread⟩
          · exact .inl ⟨_, rfl, by simp [Sect.kind, Kind.stops]⟩
      | _ => cases h
  | joining =>
      cases c with
      | go =>
          obtain ⟨out, hjoining, h⟩ := Option.bind_eq_some_iff.mp h
          obtain ⟨hover, hout⟩ := Option.ite_none_right_eq_some.mp hjoining
          obtain rfl := Option.some.inj hout
          obtain ⟨-, rfl⟩ := Prod.mk.inj (Option.some.inj h)
          refine .inr ⟨rfl, .inl ?_⟩
          obtain hover | hover := hover <;> simp [hover]
      | _ => cases h
  | call c => cases c <;> simp [Sect.kind, Call.kind, Kind.stops] at hkind
  | callback c => cases c <;> simp [Sect.kind, Callback.kind, Kind.stops] at hkind
  | _ => simp [Sect.kind, Kind.stops] at hkind

/-- A task that is over, or that is busy with something else on its thread, does not wait. -/
theorem Steered.free_waits (h : Steered cfg) (hget : cfg.threads[i]? = some (task :: rest))
    (hnot : task.waits = false)
    (hover : cfg.shared.client.maintainTask ≠ some .running ∨
      cfg.shared.client.maintainThread = some i) : Free Task.waits cfg := by
  obtain ⟨ps, hcourse, -⟩ := h.course
  cases hcourse with
  | absent hfree hrunning => exact Free.of_kind hfree
  | @present j owned howns hrunning hbegun =>
      have hthread := hover.resolve_left (not_not_intro hrunning)
      intro q hq
      rw [List.filter_eq_nil_iff]
      intro k hk hwaits
      obtain ⟨l, hl⟩ := List.mem_iff_getElem?.mp hq
      have hsteers : k.steers = true := (steers_eq k).trans (Kind.steers_of_waits hwaits)
      have hsections := howns.sections l q hl
      have hlj : l = j := by
        by_contra hne
        rw [if_neg hne, List.filter_eq_nil_iff] at hsections
        exact hsections k hk hsteers
      subst hlj
      rw [if_pos rfl] at hsections
      have howned : k ∈ owned := hsections ▸ List.mem_filter.mpr ⟨hk, hsteers⟩
      obtain hkind | hhere := hbegun k howned
      · rw [Task.waits, hkind] at hwaits
        cases hwaits
      · obtain rfl : i = l := Option.some.inj (hthread.symm.trans hhere)
        obtain rfl := Option.some.inj (hget.symm.trans hl)
        obtain rfl | htail := List.mem_cons.mp hk
        · rw [hnot] at hwaits
          cases hwaits
        · have hfirst := (h.leads _ hq).tail k htail
          rw [Kind.first, Bool.or_eq_false_iff] at hfirst
          rw [Task.waits, hfirst.1] at hwaits
          cases hwaits

/-- A `Close` on another thread is where it was. -/
theorem Stopping.other (h : Stopping cfg i) {j : ℕ} {q : List Task} (hji : j ≠ i)
    (hfree : Free Task.waits cfg → Free Task.waits ⟨w', cfg.threads.set j q⟩) :
    Stopping ⟨w', cfg.threads.set j q⟩ i := by
  have hsame : (cfg.threads.set j q)[i]? = cfg.threads[i]? := List.getElem?_set_ne hji
  cases h with
  | stops hget hkind hnext => exact .stops (hsame.trans hget) hkind hnext
  | stopped hget hkind hwaits => exact .stopped (hsame.trans hget) hkind (hfree hwaits)

/-- A `Close` is stopping the task, or has stopped it, on its own thread only. -/
theorem Stopping.front (h : Stopping cfg i) (hget : cfg.threads[i]? = some (task :: rest)) :
    task.sect.kind ∈ .closing :: Kind.stops := by
  cases h with
  | stops hget' hkind _ =>
      obtain ⟨rfl, -⟩ := List.cons.inj (Option.some.inj (hget.symm.trans hget'))
      exact List.mem_cons_of_mem _ hkind
  | stopped hget' hkind _ =>
      obtain ⟨rfl, -⟩ := List.cons.inj (Option.some.inj (hget.symm.trans hget'))
      exact hkind ▸ List.mem_cons_self ..

theorem Kind.userClosed_not_mem {k : Kind} (h : k ≠ .callConnect ∧ k ≠ .callClose) :
    .userClosed ∉ k.writes := by
  cases k with
  | callConnect => exact absurd rfl h.1
  | callClose => exact absurd rfl h.2
  | established task ok => cases task <;> cases ok <;> simp [writes]
  | _ => simp [writes]

theorem Kind.not_waits_of_stops {k : Kind} (h : k ∈ .closing :: Kind.stops) : k.waits = false := by
  have hall : ∀ k ∈ .closing :: Kind.stops, k.waits = false := by decide
  exact hall k h

/-- What a section other than a call of `Close` leaves of the closes. -/
theorem Closes.Sound.keeps [Target] (h : m.Sound cfg) (hsteered : Steered cfg)
    (hget : cfg.threads[i]? = some (task :: rest))
    (hexec : Conn.exec i task c cfg.shared = some (w', ks))
    (hstopping : ∀ j ∈ m'.stopping, j ∈ m.stopping)
    (hclosed : m'.closed = true → m.closed = true ∨ i ∈ m.stopping ∧ task.sect.kind = .closing)
    (hgone : task.sect.kind = .closing → i ∉ m'.stopping)
    (huser : w'.client.userClosed = cfg.shared.client.userClosed) :
    m'.Sound ⟨w', cfg.threads.set i (ks ++ rest)⟩ := by
  have hi : i < cfg.threads.length := (List.getElem?_eq_some_iff.mp hget).1
  have hfree (huser : cfg.shared.client.userClosed = true) (hwaits : Free Task.waits cfg) :
      Free Task.waits ⟨w', cfg.threads.set i (ks ++ rest)⟩ :=
    hwaits.run w' hget (exec_waits hexec huser (hwaits.front hget).1)
  have hstoppingUser {j : ℕ} (hj : j ∈ m.stopping) : cfg.shared.client.userClosed = true :=
    h.user (.inl (List.ne_nil_of_mem hj))
  refine ⟨?_, ?_, ?_⟩
  · rintro (hne | hm)
    · obtain ⟨j, hj⟩ := List.exists_mem_of_ne_nil _ hne
      exact huser.trans (hstoppingUser (hstopping j hj))
    · obtain hm | ⟨hmem, -⟩ := hclosed hm
      · exact huser.trans (h.user (.inr hm))
      · exact huser.trans (hstoppingUser hmem)
  · intro hm
    obtain hm | ⟨hmem, hkind⟩ := hclosed hm
    · exact hfree (h.user (.inr hm)) (h.closed hm)
    · refine hfree (hstoppingUser hmem) ?_
      cases h.stopping i hmem with
      | stops hget' hkind' _ =>
          obtain ⟨rfl, -⟩ := List.cons.inj (Option.some.inj (hget.symm.trans hget'))
          rw [hkind] at hkind'
          simp [Kind.stops] at hkind'
      | stopped _ _ hwaits => exact hwaits
  · intro j hj
    have hbefore := h.stopping j (hstopping j hj)
    by_cases hji : i = j
    · subst hji
      cases hbefore with
      | stops hget' hkind hnext =>
          obtain ⟨rfl, rfl⟩ := List.cons.inj (Option.some.inj (hget.symm.trans hget'))
          obtain ⟨k, rfl, hk⟩ | ⟨rfl, hover⟩ := exec_stops hexec hkind
          · exact .stops (List.getElem?_set_self hi) hk hnext
          · refine .stopped (List.getElem?_set_self hi) hnext ?_
            have hnot := Kind.not_waits_of_stops (List.mem_cons_of_mem _ hkind)
            exact hfree (hstoppingUser (hstopping _ hj)) (hsteered.free_waits hget hnot hover)
      | stopped hget' hkind _ =>
          obtain ⟨rfl, -⟩ := List.cons.inj (Option.some.inj (hget.symm.trans hget'))
          exact absurd hj (hgone hkind)
    · exact hbefore.other hji (hfree (hstoppingUser (hstopping j hj)))

/-- A call of `Close` begins to stop the task. -/
theorem Closes.Sound.closes [Target] (h : m.Sound cfg) {o : Origin} {code : ℕ} {reason : Bytes}
    (hget : cfg.threads[i]? = some (⟨o, .call (.close code reason)⟩ :: rest))
    (hexec : Conn.exec i ⟨o, .call (.close code reason)⟩ c cfg.shared = some (w', ks)) :
    Closes.Sound { m with stopping := i :: m.stopping }
      ⟨w', cfg.threads.set i (ks ++ rest)⟩ := by
  have hi : i < cfg.threads.length := (List.getElem?_eq_some_iff.mp hget).1
  have hfree (huser : cfg.shared.client.userClosed = true) (hwaits : Free Task.waits cfg) :
      Free Task.waits ⟨w', cfg.threads.set i (ks ++ rest)⟩ :=
    hwaits.run w' hget (exec_waits hexec huser (hwaits.front hget).1)
  obtain ⟨huser, hks⟩ : w'.client.userClosed = true ∧
      ks = o.tasks [.stopMaintain, .closing code reason] := by
    cases c with
    | go =>
        obtain ⟨rfl, rfl⟩ := Prod.mk.inj (Option.some.inj hexec)
        exact ⟨rfl, rfl⟩
    | _ => cases hexec
  refine ⟨fun _ => huser, fun hm => hfree (h.user (.inr hm)) (h.closed hm), ?_⟩
  intro j hj
  by_cases hji : i = j
  · subst hji
    rw [hks]
    exact .stops (List.getElem?_set_self hi) (List.mem_cons_self ..) rfl
  · have hmem : j ∈ m.stopping := (List.mem_cons.mp hj).resolve_left (Ne.symm hji)
    exact (h.stopping j hmem).other hji (hfree (h.user (.inl (List.ne_nil_of_mem hmem))))

theorem closes_none : Closes.Sound {} cfg := ⟨fun h => by simp at h, nofun, nofun⟩

theorem Closes.Sound.step [Target] (h : m.Sound cfg) (hsteered : Steered cfg)
    (hget : cfg.threads[i]? = some (task :: rest))
    (hexec : Conn.exec i task c cfg.shared = some (w', ks)) :
    (m.after i cfg.shared task).Sound ⟨w', cfg.threads.set i (ks ++ rest)⟩ := by
  have hkeeps (hafter : m.after i cfg.shared task = m) (hnot : task.sect.kind ≠ .closing)
      (huser : w'.client.userClosed = cfg.shared.client.userClosed) :
      (m.after i cfg.shared task).Sound ⟨w', cfg.threads.set i (ks ++ rest)⟩ := by
    rw [hafter]
    exact h.keeps hsteered hget hexec (fun _ hj => hj) .inl (fun hkind => absurd hkind hnot) huser
  have haside (hafter : m.after i cfg.shared task = m)
      (hkind : [Kind.closing, .callConnect, .callClose].contains task.sect.kind = false) :
      (m.after i cfg.shared task).Sound ⟨w', cfg.threads.set i (ks ++ rest)⟩ := by
    have hnot {k : Kind} (hk : k ∈ [Kind.closing, .callConnect, .callClose]) :
        task.sect.kind ≠ k := by
      rintro rfl
      rw [List.contains_iff_mem.mpr hk] at hkind
      cases hkind
    exact hkeeps hafter (hnot (by simp)) ((exec_flows hexec).keeps.userClosed
      (Kind.userClosed_not_mem ⟨hnot (by simp), hnot (by simp)⟩))
  obtain ⟨o, s⟩ := task
  cases s with
  | call call =>
      cases call with
      | connect url =>
          by_cases hstate : cfg.shared.client.state = .kDisconnected
          · have hafter : m.after i cfg.shared ⟨o, .call (.connect url)⟩ = {} := if_pos hstate
            rw [hafter]
            exact closes_none
          · refine hkeeps (if_neg hstate) (by rintro ⟨⟩) ?_
            cases c with
            | go =>
                have hcall : some ((cfg.shared.connect url).1, o.tasks (cfg.shared.connect url).2) =
                  some (w', ks) := hexec
                rw [Conn.connect, if_pos hstate] at hcall
                obtain ⟨rfl, -⟩ := Prod.mk.inj (Option.some.inj hcall)
                rfl
            | _ => cases hexec
      | close code reason => exact h.closes hget hexec
      | _ => exact haside rfl rfl
  | closing code reason =>
      have huser : w'.client.userClosed = cfg.shared.client.userClosed :=
        (exec_flows hexec).keeps.userClosed List.not_mem_nil
      by_cases hmem : i ∈ m.stopping
      · have hafter : m.after i cfg.shared ⟨o, .closing code reason⟩ =
            ⟨m.stopping.filter (· ≠ i), true⟩ := if_pos hmem
        rw [hafter]
        refine h.keeps hsteered hget hexec ?_ (fun _ => .inr ⟨hmem, rfl⟩) (fun _ => ?_) huser
        · exact fun j hj => (List.mem_filter.mp hj).1
        · simp
      · have hafter : m.after i cfg.shared ⟨o, .closing code reason⟩ = m := if_neg hmem
        rw [hafter]
        exact h.keeps hsteered hget hexec (fun _ hj => hj) .inl (fun _ => hmem) huser
  | callback call => cases call <;> exact haside rfl rfl
  | _ => exact haside rfl rfl

/-- A new thread is none that waits, and leaves the others where they are. -/
theorem Closes.Sound.start {e : Entry} {q : List Task} (h : m.Sound cfg)
    (hentry : Conn.entry e cfg.shared = some (w', q)) : m.Sound ⟨w', cfg.threads ++ [q]⟩ := by
  have huser : w'.client.userClosed = cfg.shared.client.userClosed :=
    (entry_keeps hentry).userClosed (by decide)
  have hq : q.filter Task.waits = [] := by
    obtain ⟨task, rfl, hkind⟩ := entry_kind hentry
    have hentries : ∀ k ∈ Kind.entries, k.waits = false := by decide
    have hnot : task.waits = false := hentries _ hkind
    rw [List.filter_cons_of_neg (by simp [hnot])]
    rfl
  refine ⟨fun hm => huser.trans (h.user hm), fun hm => (h.closed hm).start w' hq, fun j hj => ?_⟩
  have hsame {p : List Task} (hget : cfg.threads[j]? = some p) :
      (cfg.threads ++ [q])[j]? = some p := by
    rw [List.getElem?_append_left (List.getElem?_eq_some_iff.mp hget).1]
    exact hget
  cases h.stopping j hj with
  | stops hget hkind hnext => exact .stops (hsame hget) hkind hnext
  | stopped hget hkind hfree => exact .stopped (hsame hget) hkind (hfree.start w' hq)

end

/-! ## Counting -/

/-- Thread `i` is about to report that the task gives up. -/
def Due (cfg : Config) (i : ℕ) : Prop :=
  ∃ o e rest, cfg.threads[i]? = some (⟨o, .callback (.error e)⟩ :: rest) ∧
    ∃ k ∈ rest, k.steers = true

/-- What is counted goes with what the task carries. -/
structure Tracked (t : Tally) (cfg : Config) : Prop where
  sound : ∃ ps, Course cfg ps ∧ Retries.Sound t cfg.shared.client.retries ps
  due : ∀ i, t.due = some i → Due cfg i

section

variable {i : ℕ} {task : Task} {c : Choice} {w w' : Conn} {ks rest : List Task} {cfg : Config}
  {t : Tally} {p : Phase} {ps tail : List Phase}

/-- A section of the task. Nothing is due while the task goes on. -/
theorem Moves.sound (h : Moves i task w w' p ps)
    (hsound : Retries.Sound t w.client.retries (p :: tail)) (hdue : t.due = none)
    (hattempts : ∀ config, task.sect = .maintainOpen config → t.attempts = 0) :
    Retries.Sound (tallied t i w task) w'.client.retries (ps ++ tail) := by
  have hshape := hsound.holds.shape
  cases h with
  | laps hshared hcount =>
      obtain rfl := hshape.tail_eq_nil nofun
      rw [hcount, hshared]
      exact hsound
  | ends hsect hshared =>
      obtain rfl := hshape.tail_eq_nil nofun
      rw [tallied, hsect, hshared]
      exact hsound.ends hdue
  | setsBack hsect hshared =>
      obtain rfl := hshape.tail_eq_nil nofun
      rw [tallied, hsect, hshared]
      exact hsound.setsBack hdue (hattempts _ hsect)
  | waits hlimit huser hshared hcount =>
      obtain rfl := hshape.tail_eq_nil nofun
      rw [hcount, hshared]
      exact hsound.waits hdue hlimit
  | givesUp hlimit hshared hcount =>
      obtain rfl := hshape.tail_eq_nil nofun
      rw [hcount, hshared]
      exact hsound.givesUp hdue hlimit
  | keepsQuiet hshared hcount =>
      obtain rfl := hshape.tail_eq_nil nofun
      rw [hcount, hshared]
      exact hsound.keepsQuiet
  | decides hexhausted hshared hcount =>
      obtain rfl := hshape.tail_eq_nil nofun
      rw [hcount, hshared]
      exact hsound.decides hexhausted
  | exhausts hsect hshared =>
      obtain rfl : tail = [.lap] := by
        obtain h | ⟨q, h⟩ | h := hshape
        · cases h
        · obtain ⟨-, rfl⟩ := List.cons.inj h
          exact hsound.holds.elim
        · exact (List.cons.inj h).2
      rw [tallied, hsect, hshared]
      exact hsound.exhausts
  | waitsOn hshared hcount =>
      obtain rfl := hshape.tail_eq_nil nofun
      rw [hcount, hshared]
      exact hsound
  | stops hshared hcount =>
      obtain rfl := hshape.tail_eq_nil nofun
      rw [hcount, hshared]
      exact hsound.stops
  | tries hsect hshared =>
      obtain rfl := hshape.tail_eq_nil nofun
      rw [tallied, hsect, hshared]
      exact hsound.tries
  | triesOn hshared hcount =>
      obtain rfl := hshape.tail_eq_nil nofun
      rw [hcount, hshared]
      exact hsound
  | succeeds hshared hcount =>
      obtain rfl := hshape.tail_eq_nil nofun
      rw [hcount, hshared]
      exact hsound.succeeds
  | fails hcount hshared =>
      obtain rfl := hshape.tail_eq_nil nofun
      rw [hcount, hshared]
      exact hsound.fails
  | clears hshared hcount =>
      obtain rfl := hshape.tail_eq_nil nofun
      rw [hcount, hshared]
      exact hsound.clears

/-- Only behind `setExhausted` something is due. -/
theorem Moves.due (h : Moves i task w w' p ps) (hdue : t.due = none)
    (hsect : task.sect ≠ .setExhausted) : (tallied t i w task).due = none := by
  cases h with
  | ends hsect' | setsBack hsect' | tries hsect' =>
      rw [tallied, hsect']
      exact hdue
  | exhausts hsect' => exact absurd hsect' hsect
  | laps _ hcount | waits _ _ _ hcount | givesUp _ _ hcount | keepsQuiet _ hcount
  | decides _ _ hcount | waitsOn _ hcount | stops _ hcount | triesOn _ hcount | succeeds _ hcount
  | fails hcount | clears _ hcount =>
      rw [hcount]
      exact hdue

theorem Course.mem_phases (h : Course cfg ps) (hp : p ∈ ps) : ∃ q ∈ cfg.threads, p ∈ phases q := by
  cases h with
  | absent hfree hrunning => cases hp
  | @present i owned howns hrunning hbegun =>
      have hget := List.getElem?_eq_getElem howns.here
      have howned := howns.sections i _ hget
      rw [if_pos rfl] at howned
      refine ⟨_, List.mem_of_getElem? hget, ?_⟩
      rw [← phases_filter, howned]
      exact hp

/-- A section of others that resets nothing. -/
theorem Kind.retries_not_mem {k : Kind} (hsteers : k.steers = false)
    (h : k ≠ .callConnect ∧ k ≠ .callSetAutoReconnect) :
    .reconnect ∉ k.writes ∧ .reconnectAttempt ∉ k.writes ∧ .reconnectExhausted ∉ k.writes := by
  cases k with
  | callConnect => exact absurd rfl h.1
  | callSetAutoReconnect => exact absurd rfl h.2
  | maintainOpen | setExhausted => cases hsteers
  | established task ok =>
      obtain rfl : task = false := hsteers
      simp [writes]
  | _ => simp [writes]

theorem Keeps.retries {written : List Member} {c c' : SoftwareWsClient} (h : Keeps written c c')
    (hmem : .reconnect ∉ written ∧ .reconnectAttempt ∉ written ∧ .reconnectExhausted ∉ written) :
    c'.retries = c.retries := by
  rw [SoftwareWsClient.retries, h.reconnect hmem.1, h.reconnectAttempt hmem.2.1,
    h.reconnectExhausted hmem.2.2]
  rfl

theorem Due.other (h : Due cfg i) {j : ℕ} {q : List Task} (hji : j ≠ i) :
    Due ⟨w', cfg.threads.set j q⟩ i := by
  obtain ⟨o, e, rest, hget, hsteers⟩ := h
  exact ⟨o, e, rest, (List.getElem?_set_ne hji).trans hget, hsteers⟩

/-- While the task goes on nothing is due. -/
theorem Tracked.due_eq_none (h : Tracked t cfg) (hget : cfg.threads[i]? = some (task :: rest))
    (hsteers : task.steers = true) : t.due = none := by
  cases hdue : t.due with
  | none => rfl
  | some j =>
      obtain ⟨ps, hcourse, -⟩ := h.sound
      obtain ⟨o, e, rest', hget', k, hk, hk'⟩ := h.due j hdue
      obtain rfl := hcourse.same_thread hget (List.mem_cons_self ..) hsteers hget'
        (List.mem_cons_of_mem _ hk) hk'
      obtain ⟨rfl, -⟩ := List.cons.inj (Option.some.inj (hget.symm.trans hget'))
      cases hsteers

theorem Tracked.run_steers [Target] (h : Tracked t cfg) (hsteered : Steered cfg)
    (hget : cfg.threads[i]? = some (task :: rest)) (hphase : task.phase = some p)
    (hexec : Conn.exec i task c cfg.shared = some (w', ks))
    (hattempts : ∀ config, task.sect = .maintainOpen config → t.attempts = 0) :
    Tracked (tallied t i cfg.shared task) ⟨w', cfg.threads.set i (ks ++ rest)⟩ := by
  have hi : i < cfg.threads.length := (List.getElem?_eq_some_iff.mp hget).1
  have hsteers : task.steers = true := by simp [Task.steers, hphase]
  have hdue := h.due_eq_none hget hsteers
  have hmoves := exec_moves hexec hphase
  obtain ⟨ps, hcourse, hsound⟩ := h.sound
  obtain ⟨tail, rfl, hnext⟩ := hcourse.run_steers hsound.holds.shape hget hphase hexec
  refine ⟨⟨_, hnext, hmoves.sound hsound hdue hattempts⟩, fun j hj => ?_⟩
  obtain ⟨o, s⟩ := task
  by_cases hsect : s = .setExhausted
  · subst hsect
    obtain rfl : i = j := Option.some.inj hj
    obtain ⟨o', e, rest', rfl, hbehind⟩ :=
      (hsteered.leads _ (List.mem_of_getElem? hget)).report _ _ rfl rfl
    obtain rfl : ks = [] := by
      cases c with
      | go => exact (Prod.mk.inj (Option.some.inj hexec)).2.symm
      | _ => cases hexec
    exact ⟨o', e, rest', List.getElem?_set_self hi, hbehind⟩
  · rw [hmoves.due hdue hsect] at hj
    cases hj

/-- A section of others, which counts on what it makes of the shared members. -/
theorem Tracked.run_aside [Target] (h : Tracked t cfg)
    (hget : cfg.threads[i]? = some (task :: rest)) (hsteers : task.steers = false)
    (hexec : Conn.exec i task c cfg.shared = some (w', ks))
    (hsound : ∀ ps, Course cfg ps → Retries.Sound t cfg.shared.client.retries ps →
      Retries.Sound (tallied t i cfg.shared task) w'.client.retries ps)
    (hdue : ∀ j, (tallied t i cfg.shared task).due = some j → t.due = some j ∧ j ≠ i) :
    Tracked (tallied t i cfg.shared task) ⟨w', cfg.threads.set i (ks ++ rest)⟩ := by
  obtain ⟨ps, hcourse, hbefore⟩ := h.sound
  refine ⟨⟨ps, hcourse.run_aside hget hsteers hexec, hsound ps hcourse hbefore⟩, fun j hj => ?_⟩
  obtain ⟨hj, hji⟩ := hdue j hj
  exact (h.due j hj).other (Ne.symm hji)

/-- A section of others with which nothing is counted. -/
theorem Tracked.run_plain [Target] (h : Tracked t cfg)
    (hget : cfg.threads[i]? = some (task :: rest)) (hsteers : task.steers = false)
    (hexec : Conn.exec i task c cfg.shared = some (w', ks))
    (hcount : tallied t i cfg.shared task = t)
    (hshared : w'.client.retries = cfg.shared.client.retries)
    (hreport : ∀ e, task.sect ≠ .callback (.error e)) :
    Tracked (tallied t i cfg.shared task) ⟨w', cfg.threads.set i (ks ++ rest)⟩ := by
  refine h.run_aside hget hsteers hexec ?_ ?_
  · intro ps _ hsound
    rw [hcount, hshared]
    exact hsound
  · intro j hj
    rw [hcount] at hj
    refine ⟨hj, ?_⟩
    rintro rfl
    obtain ⟨o, e, rest', hget', -⟩ := h.due j hj
    obtain ⟨rfl, -⟩ := List.cons.inj (Option.some.inj (hget.symm.trans hget'))
    exact hreport e rfl

/-- A section of others with which the counts begin again. -/
theorem Tracked.run_reset [Target] (h : Tracked t cfg)
    (hget : cfg.threads[i]? = some (task :: rest)) (hsteers : task.steers = false)
    (hexec : Conn.exec i task c cfg.shared = some (w', ks))
    (hcount : tallied t i cfg.shared task = t.reset) (hdue : t.due = none)
    (hfresh : ∀ q ∈ cfg.threads, ∀ p ∈ phases q, p.fresh = true)
    (hzero : w'.client.retries.count = 0)
    (hlimit : w'.client.retries.limit = cfg.shared.client.retries.limit ∨
      (w'.client.retries.limit = 0 → ∀ q ∈ cfg.threads, .waiting 0 ∉ phases q)) :
    Tracked (tallied t i cfg.shared task) ⟨w', cfg.threads.set i (ks ++ rest)⟩ := by
  refine h.run_aside hget hsteers hexec ?_ ?_
  · intro ps hcourse hsound
    rw [hcount]
    refine hsound.reset hdue ?_ hzero ?_
    · intro p hp
      obtain ⟨q, hq, hp⟩ := hcourse.mem_phases hp
      exact hfresh q hq p hp
    · intro hwaits hle
      obtain hsame | hnone := hlimit
      · rw [hsame] at hle ⊢
        exact hsound.lt_limit hwaits hle
      · obtain ⟨q, hq, hp⟩ := hcourse.mem_phases hwaits
        obtain hpos | hzero := Int.lt_or_eq_of_le hle
        · exact hpos
        · exact absurd hp (hnone hzero.symm q hq)
  · intro j hj
    rw [hcount, Tally.reset, hdue] at hj
    cases hj

theorem retries_connect {o : Origin} {url : Bytes}
    (h : some ((w.connect url).1, o.tasks (w.connect url).2) = some (w', ks)) :
    (w.client.state = .kDisconnected → w'.client.retries.count = 0 ∧
      w'.client.retries.limit = w.client.retries.limit) ∧
    (w.client.state ≠ .kDisconnected → w'.client.retries = w.client.retries) := by
  simp only [Conn.connect] at h
  split at h
  · rename_i hstate
    obtain ⟨rfl, -⟩ := Prod.mk.inj (Option.some.inj h)
    exact ⟨fun h => absurd h hstate, fun _ => rfl⟩
  · rename_i hstate
    obtain ⟨rfl, -⟩ := Prod.mk.inj (Option.some.inj h)
    exact ⟨fun _ => ⟨rfl, rfl⟩, fun h => absurd h hstate⟩

/-- A section with which something may be counted. -/
def Sect.counted : Sect → Bool
  | .call (.connect _) | .call (.setAutoReconnect _) | .await _ | .establish .. => true
  | .established .. | .setExhausted | .callback (.error _) => true
  | _ => false

theorem tallied_of_not_counted (h : task.sect.counted = false) : tallied t i w task = t := by
  unfold tallied
  split <;> rename_i hsect <;> first | rfl | (rw [hsect] at h; cases h)

theorem Kind.not_reset_of_not_counted {s : Sect} (h : s.counted = false) :
    s.kind ≠ .callConnect ∧ s.kind ≠ .callSetAutoReconnect := by
  cases s with
  | call call =>
      cases call with
      | connect | setAutoReconnect => cases h
      | _ => exact ⟨nofun, nofun⟩
  | callback call => cases call <;> exact ⟨nofun, nofun⟩
  | _ => exact ⟨nofun, nofun⟩

/-- Behind a `Connect` that wakes up to an accepted upgrade. -/
theorem Tracked.run_await [Target] {m : Reconnects} (h : Tracked m.tally cfg) {o : Origin}
    (hget : cfg.threads[i]? = some (⟨o, .await .connect⟩ :: rest))
    (hexec : Conn.exec i ⟨o, .await .connect⟩ c cfg.shared = some (w', ks))
    (hok : (Sect.await .connect).Steady (m, cfg)) :
    Tracked (tallied m.tally i cfg.shared ⟨o, .await .connect⟩)
      ⟨w', cfg.threads.set i (ks ++ rest)⟩ := by
  have hsame : w'.client.retries = cfg.shared.client.retries :=
    (exec_flows hexec).keeps.retries (Kind.retries_not_mem rfl ⟨nofun, nofun⟩)
  by_cases haccepted : UpgradeAccepted cfg.shared
  · obtain ⟨⟨hdue, hfresh⟩, hzero⟩ := hok haccepted
    refine h.run_reset hget rfl hexec (if_pos haccepted) hdue hfresh ?_ (.inl ?_)
    · rw [hsame]
      exact hzero
    · rw [hsame]
  · exact h.run_plain hget rfl hexec (if_neg haccepted) hsame nofun

/-- Behind a callback, which is a report if the thread is about to make one. -/
theorem Tracked.run_error [Target] (h : Tracked t cfg) {o : Origin} {e : NetworkError}
    (hget : cfg.threads[i]? = some (⟨o, .callback (.error e)⟩ :: rest))
    (hexec : Conn.exec i ⟨o, .callback (.error e)⟩ c cfg.shared = some (w', ks)) :
    Tracked (tallied t i cfg.shared ⟨o, .callback (.error e)⟩)
      ⟨w', cfg.threads.set i (ks ++ rest)⟩ := by
  have hsame : w'.client.retries = cfg.shared.client.retries :=
    (exec_flows hexec).keeps.retries (Kind.retries_not_mem rfl ⟨nofun, nofun⟩)
  by_cases hi : t.due = some i
  · have hreports : tallied t i cfg.shared ⟨o, .callback (.error e)⟩ =
        { t with due := none, reports := t.reports + 1 } := if_pos hi
    refine h.run_aside hget rfl hexec ?_ ?_
    · intro ps _ hsound
      obtain ⟨rfl, -⟩ := hsound.due (by rw [hi]; rfl)
      rw [hreports, hsame]
      exact hsound.reportsIt hi
    · intro j hj
      rw [hreports] at hj
      cases hj
  · have hcount : tallied t i cfg.shared ⟨o, .callback (.error e)⟩ = t := if_neg hi
    refine h.run_aside hget rfl hexec ?_ ?_
    · intro ps _ hsound
      rw [hcount, hsame]
      exact hsound
    · intro j hj
      rw [hcount] at hj
      exact ⟨hj, fun hji => hi (hji ▸ hj)⟩

/-- Any section of others. -/
theorem Tracked.run_others [Target] {m : Reconnects} (h : Tracked m.tally cfg)
    (hget : cfg.threads[i]? = some (task :: rest)) (hsteers : task.steers = false)
    (hexec : Conn.exec i task c cfg.shared = some (w', ks))
    (hok : task.sect.Steady (m, cfg)) :
    Tracked (tallied m.tally i cfg.shared task) ⟨w', cfg.threads.set i (ks ++ rest)⟩ := by
  have hplain (hcounted : task.sect.counted = false) :
      Tracked (tallied m.tally i cfg.shared task) ⟨w', cfg.threads.set i (ks ++ rest)⟩ := by
    have hkind : task.sect.kind.steers = false := (steers_eq task).symm.trans hsteers
    have hmembers := Kind.retries_not_mem hkind (Kind.not_reset_of_not_counted hcounted)
    refine h.run_plain hget hsteers hexec (tallied_of_not_counted hcounted)
      ((exec_flows hexec).keeps.retries hmembers) fun e hsect => ?_
    rw [hsect] at hcounted
    cases hcounted
  obtain ⟨o, s⟩ := task
  cases hcounted : s.counted with
  | false => exact hplain hcounted
  | true =>
      cases s with
      | call call =>
          cases call with
          | connect url =>
              cases c with
              | go =>
                  obtain ⟨haccepted, hrejected⟩ := retries_connect hexec
                  by_cases hstate : cfg.shared.client.state = .kDisconnected
                  · obtain ⟨hdue, hfresh⟩ := hok hstate
                    obtain ⟨hzero, hlimit⟩ := haccepted hstate
                    exact h.run_reset hget hsteers hexec (if_pos hstate) hdue hfresh hzero
                      (.inl hlimit)
                  · exact h.run_plain hget hsteers hexec (if_neg hstate) (hrejected hstate) nofun
              | _ => cases hexec
          | setAutoReconnect config =>
              obtain ⟨⟨hdue, hfresh⟩, hwaiting⟩ := hok
              have hclient : w'.client.retries = ⟨0, false, config.maxRetries⟩ := by
                cases c with
                | go =>
                    obtain ⟨rfl, -⟩ := Prod.mk.inj (Option.some.inj hexec)
                    rfl
                | _ => cases hexec
              refine h.run_reset hget hsteers hexec rfl hdue hfresh (by rw [hclient]) (.inr ?_)
              rw [hclient]
              exact hwaiting
          | _ => cases hcounted
      | await caller =>
          cases caller with
          | connect => exact h.run_await hget hexec hok
          | maintain n => cases hsteers
      | callback call =>
          cases call with
          | error e => exact h.run_error hget hexec
          | _ => cases hcounted
      | establish caller url =>
          cases caller with
          | connect =>
              exact h.run_plain hget hsteers hexec rfl
                ((exec_flows hexec).keeps.retries (Kind.retries_not_mem rfl ⟨nofun, nofun⟩)) nofun
          | maintain n => cases hsteers
      | established caller result =>
          cases caller with
          | connect =>
              exact h.run_plain hget hsteers hexec rfl
                ((exec_flows hexec).keeps.retries (Kind.retries_not_mem rfl ⟨nofun, nofun⟩)) nofun
          | maintain n => cases result <;> cases hsteers
      | setExhausted => cases hsteers
      | _ => cases hcounted

theorem Tracked.start {e : Entry} {q : List Task} (h : Tracked t cfg)
    (hentry : Conn.entry e cfg.shared = some (w', q)) : Tracked t ⟨w', cfg.threads ++ [q]⟩ := by
  have hsame : w'.client.retries = cfg.shared.client.retries :=
    (entry_keeps hentry).retries (by decide)
  obtain ⟨ps, hcourse, hsound⟩ := h.sound
  constructor
  · simp only [hsame]
    obtain hnext | ⟨rfl, hnext⟩ := hcourse.start hentry
    · exact ⟨ps, hnext, hsound⟩
    · exact ⟨_, hnext, hsound.begins⟩
  · intro j hj
    obtain ⟨o, e, rest, hget, hsteers⟩ := h.due j hj
    refine ⟨o, e, rest, ?_, hsteers⟩
    rw [List.getElem?_append_left (List.getElem?_eq_some_iff.mp hget).1]
    exact hget

end

/-! ## The bound -/

/-- All that a run keeps. -/
structure Reconnects.Kept (s : Reconnects × Config) : Prop where
  steered : Steered s.2
  closes : s.1.closes.Sound s.2
  tracked : Tracked s.1.tally s.2

namespace Reconnects

theorem kept_initial : Kept ({}, initial) := by
  refine ⟨steered_initial, closes_none, ⟨[], ?_, ?_⟩, nofun⟩
  · exact .absent (fun _ hq => absurd hq List.not_mem_nil) nofun
  · exact sound_of_none rfl ⟨Nat.le_refl 0, Nat.le_refl 0⟩ (fun hle => hle) (Nat.zero_le 1) nofun

variable {s s' : Reconnects × Config} {l : Label}

theorem Kept.step [Target] (h : Kept s) (hok : Steady s l)
    (hstep : reconnecting s l = some s') : Kept s' := by
  obtain ⟨m, cfg⟩ := s
  obtain ⟨m', cfg'⟩ := s'
  obtain ⟨hprogram, hm⟩ := Runs.monitored_eq_some.mp hstep
  simp only at hprogram hm
  refine ⟨h.steered.step hprogram, ?_, ?_⟩
  · obtain ⟨e, w', q, rfl, hentry, rfl⟩ | ⟨i, c, task, rest, w', ks, rfl, hget, hexec, rfl⟩ :=
      Program.step_cases hprogram
    · subst hm
      exact h.closes.start hentry
    · have hcloses : m'.closes = m.closes.after i cfg.shared task := by
        rw [hm, watch]
        simp only [hget]
      simp only [hcloses]
      exact h.closes.step h.steered hget hexec
  · obtain ⟨e, w', q, rfl, hentry, rfl⟩ | ⟨i, c, task, rest, w', ks, rfl, hget, hexec, rfl⟩ :=
      Program.step_cases hprogram
    · subst hm
      exact h.tracked.start hentry
    · have htally : m'.tally = tallied m.tally i cfg.shared task := by
        rw [hm, watch]
        simp only [hget]
      have hfront := hok task (Label.front_run hget c)
      simp only [htally]
      cases hphase : task.phase with
      | none => exact h.tracked.run_others hget (by simp [Task.steers, hphase]) hexec hfront
      | some p =>
          refine h.tracked.run_steers h.steered hget hphase hexec fun config hsect => ?_
          rw [hsect] at hfront
          exact hfront

theorem Kept.bounded [Target] (h : Kept s) (h' : Kept s') (hstep : reconnecting s l = some s') :
    Bounded s l s' := by
  obtain ⟨ps', -, hsound'⟩ := h'.tracked.sound
  obtain ⟨ps, -, hsound⟩ := h.tracked.sound
  refine ⟨hsound'.within, ?_, ?_, ?_⟩
  · exact Nat.le_trans (Nat.le_add_right ..) hsound'.once
  · intro hgivesUp
    cases l with
    | start e => exact hgivesUp.elim
    | run i c => exact (hsound.due (by rw [hgivesUp.1]; rfl)).2
  · rintro ⟨task, hfront, hkind⟩
    refine Bool.eq_false_iff.mpr fun hclosed => ?_
    obtain ⟨i, c, rest, rfl, hget⟩ := Label.of_front hfront
    have hnot := ((h.closes.closed hclosed).front hget).1
    rw [Task.waits, hkind] at hnot
    cases hnot

end Reconnects

/-- As long as no reset and no successful `Connect` comes upon a number or a decision that the task
carries, the attempts to reconnect are bounded, giving up is reported once and in time, and nothing
is attempted behind a `Close`. -/
theorem reconnects_bounded [Target] (ls : List Label)
    (hok : Runs.Along reconnecting (fun s l _ => Steady s l) ({}, initial) ls) :
    Runs.Along reconnecting Bounded ({}, initial) ls := by
  refine hok.mono (I := Reconnects.Kept) ?_ Reconnects.kept_initial
  intro s l s' hkept hundisturbed hstep
  have hkept' := hkept.step hundisturbed hstep
  exact ⟨hkept', hkept.bounded hkept' hstep⟩

/-- `max_retries` is 1, a connection was open until the transport closed, and the task is about to
begin its next lap. -/
def lostLabels : List Label :=
  [.start (.call (.setAutoReconnect ⟨true, 1⟩)), .run 0 .go, .start (.call (.connect exampleUrl)),
    .run 1 .go, .run 1 (.random [0, 0, 0, 0]), .run 1 (.answer (.ok 0)), .run 1 (.answer (.ok 0)),
    .run 1 .go, .run 1 .go, .run 1 (.answer (.ok 0)),
    .start (.data 0 (acceptingHead exampleKey)), .run 2 .go, .run 1 (.now 1), .run 1 .go,
    .run 1 .go, .run 1 .go, .run 1 .go, .run 1 .go, .run 1 .go, .run 1 .go, .start .maintain,
    .run 3 .go, .run 3 .go, .run 3 .go, .run 3 .go, .run 3 .go, .start (.closed 0), .run 4 .go,
    .run 4 .go, .run 4 .go]

/-- The task waits, attempts and fails. -/
def failedAttemptLabels : List Label :=
  [.run 3 .go, .run 3 .go, .run 3 .go, .run 3 .go, .run 3 .go, .run 3 (.random [0, 0, 0, 0]),
    .run 3 (.answer (.error ⟨.kTimeout, 0, ""⟩)), .run 3 .go, .run 3 .go, .run 3 .go, .run 3 .go]

/-- The task finds the attempts used up and reports that it gives up. -/
def givingUpLabels : List Label :=
  lostLabels ++ failedAttemptLabels ++
    [.run 3 .go, .run 3 .go, .run 3 .go, .run 3 .go, .run 3 .go, .run 3 .go, .run 3 .go, .run 3 .go]

theorem reconnects_bounded_givingUp :
    Runs.Along (@reconnecting esp32) Bounded ({}, initial) givingUpLabels :=
  @reconnects_bounded esp32 givingUpLabels (by decide +kernel)

/-- While the task waits, `SetAutoReconnect` allows no attempt any more. -/
def disallowedLabels : List Label :=
  lostLabels ++
    [.run 3 .go, .run 3 .go, .run 3 .go, .start (.call (.setAutoReconnect ⟨true, 0⟩)), .run 5 .go,
      .run 3 .go, .run 3 .go, .run 3 (.random [0, 0, 0, 0])]

/-- The task has decided to give up when `SetAutoReconnect` allows more attempts. -/
def allowedAgainLabels : List Label :=
  lostLabels ++ failedAttemptLabels ++
    [.run 3 .go, .run 3 .go, .run 3 .go, .start (.call (.setAutoReconnect ⟨true, 5⟩)), .run 5 .go,
      .run 3 .go, .run 3 .go, .run 3 .go]

/-- The task makes an attempt where none is allowed, and gives up where more are. -/
theorem reconnects_unbounded :
    ¬(∀ ls, Runs.Along (@reconnecting esp32)
        (fun _ _ s => 0 ≤ s.2.shared.client.reconnect.maxRetries →
          (s.1.tally.attempts : Int) ≤ s.2.shared.client.reconnect.maxRetries)
        ({}, initial) ls) ∧
      ¬(∀ ls, Runs.Along (@reconnecting esp32)
        (fun s l _ => GivesUp s l →
          s.2.shared.client.reconnect.maxRetries ≤ s.1.tally.failures) ({}, initial) ls) := by
  constructor
  · intro h
    exact absurd (h disallowedLabels) (by decide +kernel)
  · intro h
    exact absurd (h allowedAgainLabels) (by decide +kernel)

end EspModemLink.WebSocket
