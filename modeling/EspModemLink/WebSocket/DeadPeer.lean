import EspModemLink.WebSocket.Heartbeat
import EspModemLink.WebSocket.OpenState

/-!
# Dead peers

`ping_sent_ms_` keeps the time of one ping, the one that was recorded last. A check measures the
silence of the peer from there, however long an earlier ping has gone unanswered.
-/

namespace EspModemLink.WebSocket

open Bytes Heartbeat

/-- The pings sent since the last pong or teardown, and the time that was recorded last since
then. -/
structure Silence where
  pings : List Ping := []
  recorded : Option Int := none

def Silence.after (s : Silence) (b : Beat) : Silence :=
  ⟨sentSince s.pings b, storedSince s.recorded b⟩

section

variable [Target]

/-- The client with the silence of its peer beside it. -/
def listening : Runs.Step (Silence × Config) Label :=
  Runs.monitored program.step fun s cfg l _ => s.after (beat cfg l)

end

/-- The error of a check that finds the peer dead. -/
def peerSilent : NetworkError := ⟨.kTimeout, 0, "the peer did not answer a ping"⟩

/-- What the thread of a step is left with: it reports a dead peer and tears the connection down. -/
def TearsDown (cfg' : Config) : Label → Prop
  | .run i _ =>
      match cfg'.threads[i]? with
      | some (⟨_, .callback (.error e)⟩ :: ⟨_, .teardown code reason⟩ :: _) =>
          e = peerSilent ∧ code = kAbnormalClosure ∧ reason = Conn.noPongReason
      | _ => False
  | .start _ => False

instance TearsDown.decidable (cfg' : Config) (l : Label) : Decidable (TearsDown cfg' l) := by
  unfold TearsDown
  split
  · split <;> infer_instance
  · infer_instance

/-- A check that finds a ping unanswered for the deadline tears the connection down. -/
def FindsDead (s : Silence × Config) (l : Label) (s' : Silence × Config) : Prop :=
  ∀ r ∈ compares s.2 l, Overdue s.1.pings r.1 r.2 → TearsDown s'.2 l

instance FindsDead.decidable (s : Silence × Config) (l : Label) (s' : Silence × Config) :
    Decidable (FindsDead s l s') :=
  inferInstanceAs (Decidable (∀ r ∈ compares s.2 l, _))

/-- A check that finds a ping unanswered for the deadline finds the one that was recorded last so,
too. -/
def LastIsLate (s : Silence × Config) (l : Label) : Prop :=
  ∀ r ∈ compares s.2 l, Overdue s.1.pings r.1 r.2 → LastOverdue s.1.recorded r.1 r.2

/-- `ping_sent_ms_` is the time that was recorded last. -/
def Recorded (s : Silence × Config) : Prop :=
  s.2.shared.client.pingSentMs = s.1.recorded.getD 0

section

variable {cfg cfg' : Config} {l : Label}

/-- What a step compares, it compares in front of a thread. -/
theorem compares_eq_some {r : Int × Int} (h : compares cfg l = some r) :
    ∃ i o config rest, l = .run i .go ∧ r.2 = Conn.pongDeadline config ∧
      cfg.threads[i]? = some (⟨o, .heartbeatPing config r.1⟩ :: rest) := by
  unfold compares at h
  split at h
  · rename_i i
    split at h
    · rename_i o config now rest hget
      obtain rfl := Option.some.inj h
      exact ⟨i, o, config, rest, rfl, rfl, hget⟩
    · cases h
  · cases h

variable [Target]

/-- A check tears down exactly where `ping_sent_ms_` is set and the whole deadline ago. -/
theorem tearsDown_iff {r : Int × Int} (h : compares cfg l = some r)
    (hstep : program.step cfg l = some cfg') :
    TearsDown cfg' l ↔
      cfg.shared.client.pingSentMs ≠ 0 ∧ r.2 ≤ r.1 - cfg.shared.client.pingSentMs := by
  obtain ⟨i, o, config, rest, rfl, hdeadline, hget⟩ := compares_eq_some h
  obtain ⟨k, rest', s', ks, hget', hexec, rfl⟩ := Sections.Program.step_run.mp hstep
  obtain ⟨rfl, rfl⟩ := List.cons.inj (Option.some.inj (hget.symm.trans hget'))
  have hpush : some ((cfg.shared.heartbeatPing config r.1).1,
      o.tasks (cfg.shared.heartbeatPing config r.1).2) = some (s', ks) := hexec
  obtain ⟨rfl, rfl⟩ := Prod.mk.inj (Option.some.inj hpush)
  have hi : i < cfg.threads.length := (List.getElem?_eq_some_iff.mp hget).1
  rw [TearsDown, List.getElem?_set_self hi, hdeadline, Conn.heartbeatPing]
  by_cases hzero : cfg.shared.client.pingSentMs = 0
  · simp [Origin.tasks, hzero]
  · by_cases hlate : Conn.pongDeadline config ≤ r.1 - cfg.shared.client.pingSentMs
    · simp [Origin.tasks, peerSilent, hzero, hlate]
    · simp [Origin.tasks, hzero, hlate]

theorem Recorded.step {s s' : Silence × Config} (h : Recorded s)
    (hstep : listening s l = some s') : Recorded s' := by
  obtain ⟨hprogram, hsilence⟩ := Runs.monitored_eq_some.mp hstep
  rw [Recorded, hsilence]
  change _ = (storedSince s.1.recorded (beat s.2 l)).getD 0
  rw [← mark_getD, ← h]
  obtain ⟨e, w', q, rfl, hentry, hs'⟩ | ⟨i, c, task, ks, w', ks', rfl, hget, hexec, hs'⟩ :=
    Sections.Program.step_cases hprogram
  · rw [hs']
    exact (entry_beats hentry).1
  · have hbeat : beat s.2 (.run i c) = beatOf i task c := by simp [beat, hget]
    rw [hs', hbeat]
    exact (exec_beats hexec).marker

/-- In any run, every check finds a dead peer if and only if, at every check that comes late for some
ping, the ping that was recorded last is late as well. -/
theorem findsDead_iff (ls : List Label) :
    Runs.Along listening FindsDead ({}, initial) ls ↔
      Runs.Along listening (fun s l _ => LastIsLate s l) ({}, initial) ls := by
  apply Runs.Along.congr (I := Recorded)
  · intro s l s' h _ hstep
    exact h.step hstep
  · intro s l s' h hstep
    obtain ⟨hprogram, -⟩ := Runs.monitored_eq_some.mp hstep
    refine forall₂_congr fun r hr => imp_congr_right fun _ => ?_
    rw [tearsDown_iff hr hprogram, h, lastOverdue_iff]
  · exact rfl

end

/-- A client with a heartbeat of one second whose connection opens at 1 ms. Its maintenance task is
at its first check. -/
def heartbeatLabels : List Label :=
  [.start (.call (.setHeartbeat ⟨1, 1, true⟩)), .run 0 .go, .start (.call (.connect exampleUrl)),
    .run 1 .go, .run 1 (.random [0, 0, 0, 0]), .run 1 (.answer (.ok 0)), .run 1 (.answer (.ok 0)),
    .run 1 .go, .run 1 .go, .run 1 (.answer (.ok 0)),
    .start (.data 0 (acceptingHead exampleKey)), .run 2 .go, .run 1 (.now 1),
    .run 1 .go, .run 1 .go, .run 1 .go, .run 1 .go,
    .start .maintain, .run 3 .go, .run 3 .go, .run 3 .go, .run 3 .go, .run 3 .go]

/-- A call of `Ping` whose frame has gone out at `ms`. -/
def callPing (i : ℕ) (ms : Int) : List Label :=
  [.start (.call (.ping [])), .run i .go, .run i (.random [0]), .run i .go,
    .run i (.answer (.ok 6)), .run i (.now ms), .run i .go, .run i (.now ms), .run i .go]

/-- The peer has been silent since the first of two pings, and the check measures from the second. -/
theorem second_ping_hides_silence :
    ¬∀ ls : List Label, Runs.Along (@listening esp32) FindsDead ({}, initial) ls := by
  intro h
  exact absurd (h (heartbeatLabels ++ callPing 4 1000 ++ callPing 5 1900 ++
    [.run 3 (.now 2001), .run 3 .go])) (by decide +kernel)

end EspModemLink.WebSocket
