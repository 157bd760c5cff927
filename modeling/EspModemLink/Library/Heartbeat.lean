import Mathlib.Data.List.Basic

/-!
# Heartbeats with one marker

Threads send pings and then store in one marker when the last ping was sent. An answer clears the
marker. A check reads the clock and then the marker, and takes the connection for dead when the
marker has stood too long. Whether it stands for a ping that is still to be answered is up to the
order of the stores.
-/

namespace Heartbeat

/-- A ping that a thread sent, the time that its deadline counts from, and whether it needs no answer
any more. -/
structure Ping where
  thread : ℕ
  stamp : Option Int := none
  settled : Bool := false
deriving DecidableEq

/-- What a step does about pings: a thread begins to send one, fails to, learns its time or stores
it, an answer is handled, or everything about pings is forgotten. -/
inductive Beat where
  | quiet
  | begins (thread : ℕ)
  | aborts (thread : ℕ)
  | stamps (thread : ℕ) (ms : Int)
  | stores (thread : ℕ) (ms : Int)
  | answered
  | cleared
deriving DecidableEq

/-- A ping of the thread that has no time yet. -/
def Ping.isOpen (thread : ℕ) (p : Ping) : Bool := p.thread == thread && p.stamp.isNone

/-- The first open ping of the thread gets its time. -/
def stampFirst (thread : ℕ) (ms : Int) : List Ping → List Ping
  | [] => []
  | p :: ps =>
      if p.isOpen thread then { p with stamp := some ms } :: ps else p :: stampFirst thread ms ps

/-- The first ping that needs an answer has it. -/
def settleFirst : List Ping → List Ping
  | [] => []
  | p :: ps => if p.settled then p :: settleFirst ps else { p with settled := true } :: ps

/-- The pings behind a step, the newest in front. An answer is one to the oldest ping. -/
def after (pings : List Ping) : Beat → List Ping
  | .quiet | .stores .. => pings
  | .begins thread => ⟨thread, none, false⟩ :: pings
  | .aborts thread => pings.eraseP (Ping.isOpen thread)
  | .stamps thread ms => stampFirst thread ms pings
  | .answered => (settleFirst pings.reverse).reverse
  | .cleared => pings.map fun p => { p with settled := true }

/-- The marker behind a step, zero when it is clear. -/
def mark (marker : Int) : Beat → Int
  | .stores _ ms => ms
  | .answered | .cleared => 0
  | .quiet | .begins _ | .aborts _ | .stamps .. => marker

/-- A marker that is set is the time of a ping that is still to be answered. -/
def Truthful (pings : List Ping) (marker : Int) : Prop :=
  marker ≠ 0 → ∃ p ∈ pings, p.settled = false ∧ p.stamp = some marker

/-- A time is stored only while its ping is still to be answered. -/
def StoresStanding (pings : List Ping) : Beat → Prop
  | .stores thread ms =>
      ∃ p ∈ pings, p.thread = thread ∧ p.stamp = some ms ∧ p.settled = false
  | _ => True

instance (pings : List Ping) : (b : Beat) → Decidable (StoresStanding pings b)
  | .stores thread ms =>
      inferInstanceAs (Decidable (∃ p ∈ pings, p.thread = thread ∧ p.stamp = some ms ∧
        p.settled = false))
  | .quiet | .begins _ | .aborts _ | .stamps .. | .answered | .cleared => isTrue trivial

/-- No ping that is still to be answered has waited for the whole deadline. -/
def Within (pings : List Ping) (now deadline : Int) : Prop :=
  ∀ p ∈ pings, p.settled = false → ∀ ms ∈ p.stamp, now - ms < deadline

instance (pings : List Ping) (now deadline : Int) : Decidable (Within pings now deadline) :=
  inferInstanceAs (Decidable (∀ p ∈ pings, p.settled = false → ∀ ms ∈ p.stamp, _))

variable {pings : List Ping} {marker now deadline : Int}

/-! ## What a step does to single pings -/

theorem mem_settleFirst {p : Ping} {ps : List Ping} (h : p ∈ settleFirst ps) :
    p ∈ ps ∨ p.settled = true := by
  induction ps with
  | nil => simp [settleFirst] at h
  | cons x ps ih =>
      unfold settleFirst at h
      split at h
      · obtain rfl | h := List.mem_cons.mp h
        · exact .inl (List.mem_cons_self ..)
        · obtain h | h := ih h
          · exact .inl (List.mem_cons_of_mem _ h)
          · exact .inr h
      · obtain rfl | h := List.mem_cons.mp h
        · exact .inr rfl
        · exact .inl (List.mem_cons_of_mem _ h)

theorem mem_stampFirst {thread : ℕ} {ms : Int} {p : Ping} {ps : List Ping}
    (h : p ∈ stampFirst thread ms ps) : p ∈ ps ∨ p.stamp = some ms := by
  induction ps with
  | nil => simp [stampFirst] at h
  | cons x ps ih =>
      unfold stampFirst at h
      split at h
      · obtain rfl | h := List.mem_cons.mp h
        · exact .inr rfl
        · exact .inl (List.mem_cons_of_mem _ h)
      · obtain rfl | h := List.mem_cons.mp h
        · exact .inl (List.mem_cons_self ..)
        · obtain h | h := ih h
          · exact .inl (List.mem_cons_of_mem _ h)
          · exact .inr h

/-- A ping that has its time keeps it. -/
theorem mem_stampFirst_of_stamped {thread : ℕ} {ms ms' : Int} {p : Ping} {ps : List Ping}
    (hp : p ∈ ps) (hstamp : p.stamp = some ms') : p ∈ stampFirst thread ms ps := by
  induction ps with
  | nil => simp at hp
  | cons x ps ih =>
      unfold stampFirst
      obtain rfl | hp := List.mem_cons.mp hp
      · have hnot : p.isOpen thread = false := by simp [Ping.isOpen, hstamp]
        simp [hnot]
      · split
        · exact List.mem_cons_of_mem _ hp
        · exact List.mem_cons_of_mem _ (ih hp)

/-! ## What a step keeps -/

/-- The marker stays truthful as long as no time is stored behind its answer. -/
theorem Truthful.after (h : Truthful pings marker) {b : Beat} (hb : StoresStanding pings b) :
    Truthful (after pings b) (mark marker b) := by
  intro hmarker
  cases b with
  | quiet => exact h hmarker
  | stores thread ms =>
      obtain ⟨p, hp, -, hstamp, hsettled⟩ := hb
      exact ⟨p, hp, hsettled, hstamp⟩
  | answered | cleared => exact absurd rfl hmarker
  | begins thread =>
      obtain ⟨p, hp, hsettled, hstamp⟩ := h hmarker
      exact ⟨p, List.mem_cons_of_mem _ hp, hsettled, hstamp⟩
  | aborts thread =>
      obtain ⟨p, hp, hsettled, hstamp⟩ := h hmarker
      refine ⟨p, ?_, hsettled, hstamp⟩
      apply (List.mem_eraseP_of_neg _).mpr hp
      have hstamp' : p.stamp = some marker := hstamp
      simp [Ping.isOpen, hstamp']
  | stamps thread ms =>
      obtain ⟨p, hp, hsettled, hstamp⟩ := h hmarker
      exact ⟨p, mem_stampFirst_of_stamped hp hstamp, hsettled, hstamp⟩

/-- Deadlines that have not passed stay so until the clock is read again. -/
theorem Within.after (h : Within pings now deadline) {b : Beat}
    (hb : ∀ thread ms, b = .stamps thread ms → now - ms < deadline) :
    Within (after pings b) now deadline := by
  intro p hp hsettled ms hms
  cases b with
  | quiet | stores => exact h p hp hsettled ms hms
  | begins thread =>
      obtain rfl | hp := List.mem_cons.mp hp
      · cases hms
      · exact h p hp hsettled ms hms
  | aborts thread => exact h p (List.mem_of_mem_eraseP hp) hsettled ms hms
  | stamps thread ms' =>
      obtain hp | hstamp := mem_stampFirst hp
      · exact h p hp hsettled ms hms
      · rw [hstamp] at hms
        obtain rfl := Option.some.inj hms
        exact hb thread ms' rfl
  | answered =>
      obtain hp | hsettled' := mem_settleFirst (List.mem_reverse.mp hp)
      · exact h p (List.mem_reverse.mp hp) hsettled ms hms
      · rw [hsettled] at hsettled'
        cases hsettled'
  | cleared =>
      obtain ⟨x, -, rfl⟩ := List.mem_map.mp hp
      cases hsettled

/-- A truthful marker is not late while no deadline has passed. -/
theorem Truthful.not_late (h : Truthful pings marker) (hwithin : Within pings now deadline) :
    marker = 0 ∨ now - marker < deadline := by
  by_cases hmarker : marker = 0
  · exact .inl hmarker
  · obtain ⟨p, hp, hsettled, hstamp⟩ := h hmarker
    exact .inr (hwithin p hp hsettled marker hstamp)

/-! ## Silence -/

/-- The pings sent since the last answer, the newest in front. Any answer shows that the peer was
there. -/
def sentSince (pings : List Ping) : Beat → List Ping
  | .answered | .cleared => []
  | b => after pings b

/-- The time stored last since then. -/
def storedSince (last : Option Int) : Beat → Option Int
  | .stores _ ms => some ms
  | .answered | .cleared => none
  | .quiet | .begins _ | .aborts _ | .stamps .. => last

/-- A ping has waited for the whole deadline. -/
def Overdue (pings : List Ping) (now deadline : Int) : Prop :=
  ∃ p ∈ pings, ∃ ms ∈ p.stamp, deadline ≤ now - ms

instance (pings : List Ping) (now deadline : Int) : Decidable (Overdue pings now deadline) :=
  inferInstanceAs (Decidable (∃ p ∈ pings, ∃ ms ∈ p.stamp, _))

/-- The time stored last is the whole deadline ago. A time of zero is not told from none. -/
def LastOverdue (last : Option Int) (now deadline : Int) : Prop :=
  ∃ ms ∈ last, ms ≠ 0 ∧ deadline ≤ now - ms

instance (last : Option Int) (now deadline : Int) : Decidable (LastOverdue last now deadline) :=
  inferInstanceAs (Decidable (∃ ms ∈ last, _))

/-- The marker is the time stored last. -/
theorem mark_getD (last : Option Int) (b : Beat) :
    mark (last.getD 0) b = (storedSince last b).getD 0 := by
  cases b <;> rfl

theorem lastOverdue_iff (last : Option Int) (now deadline : Int) :
    LastOverdue last now deadline ↔ last.getD 0 ≠ 0 ∧ deadline ≤ now - last.getD 0 := by
  cases last with
  | none => simp [LastOverdue]
  | some ms => simp [LastOverdue]

end Heartbeat
