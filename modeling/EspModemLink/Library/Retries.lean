import Mathlib.Data.List.Basic

/-!
# Bounded retries

A loop tries something again and again. It reads how often it has failed, decides by that whether to
wait and try or to give up, and writes the next number back when the attempt has failed. What it
shares with others they may reset at any time, so a number that the loop has read can be out of date
when it is used.
-/

namespace Retries

/-- Where the loop is. A number is the count that it read when it decided what to do. -/
inductive Phase where
  | lap
  | givingUp (n : ℕ)
  | reporting
  | waiting (n : ℕ)
  | trying (n : ℕ)
  | succeeded
deriving DecidableEq, Repr

/-- What the loop shares with those who reset it. A negative limit is none. -/
structure Shared where
  count : ℕ
  exhausted : Bool
  limit : Int

/-- What has happened since the last reset or success: attempts, failures and reports of giving up,
and the place from which a report is about to be made. -/
structure Tally where
  attempts : ℕ := 0
  failures : ℕ := 0
  reports : ℕ := 0
  due : Option ℕ := none
deriving DecidableEq, Repr

/-- The count hides no attempt and makes up no failure. -/
structure Tally.Counts (t : Tally) (s : Shared) : Prop where
  attempts : t.attempts ≤ s.count
  failures : s.count ≤ t.failures

/-- The loop has failed as often as it may. -/
def Tally.Spent (t : Tally) (s : Shared) : Prop := s.limit ≤ t.failures

/-- The counts start again. -/
def Tally.reset (t : Tally) : Tally := { t with attempts := 0, failures := 0, reports := 0 }

/-- The number that the loop carries is right, too. The phases are those of the sections the loop
still has to execute, and there are none while no loop is running. -/
def Holds (t : Tally) (s : Shared) : List Phase → Prop
  | [] | [.lap] => t.Counts s
  | [.givingUp _] => t.Counts s ∧ t.Spent s
  | [.reporting, .lap] => t.Counts s ∧ t.Spent s ∧ t.reports = 0
  | [.waiting n] =>
      t.Counts s ∧ t.attempts ≤ n ∧ n ≤ t.failures ∧ (0 ≤ s.limit → (n : Int) < s.limit)
  | [.trying n] => t.attempts ≤ n + 1 ∧ n ≤ t.failures
  | [.succeeded] => t.attempts = 0 ∧ t.reports = 0
  | _ => False

/-- A loop that is on its way to give up has its next lap behind it, and otherwise it is in one
phase. -/
def Shape (ps : List Phase) : Prop := ps = [] ∨ (∃ p, ps = [p]) ∨ ps = [.reporting, .lap]

/-- The attempts stay within the limit, and giving up is reported at most once, and only when the
limit is spent. -/
structure Sound (t : Tally) (s : Shared) (ps : List Phase) : Prop where
  holds : Holds t s ps
  within : 0 ≤ s.limit → (t.attempts : Int) ≤ s.limit
  once : t.reports + t.due.isSome.toNat ≤ 1
  exhausted : 0 < t.reports + t.due.isSome.toNat → s.exhausted = true
  due : t.due.isSome = true → ps = [.lap] ∧ t.Spent s

/-- A phase that carries no number but 0 and no decision to give up. -/
def Phase.fresh : Phase → Bool
  | .givingUp _ | .reporting => false
  | .waiting n | .trying n => n == 0
  | .lap | .succeeded => true

variable {t : Tally} {s : Shared} {p : Phase} {ps : List Phase} {n i : ℕ}

theorem Holds.shape (h : Holds t s ps) : Shape ps := by
  unfold Holds at h
  split at h
  · exact .inl rfl
  · exact .inr (.inl ⟨_, rfl⟩)
  · exact .inr (.inl ⟨_, rfl⟩)
  · exact .inr (.inr rfl)
  · exact .inr (.inl ⟨_, rfl⟩)
  · exact .inr (.inl ⟨_, rfl⟩)
  · exact .inr (.inl ⟨_, rfl⟩)
  · exact h.elim

/-- Behind anything but a report there is nothing. -/
theorem Shape.tail_eq_nil (h : Shape (p :: ps)) (hp : p ≠ .reporting) : ps = [] := by
  obtain h | ⟨q, h⟩ | h := h
  · cases h
  · exact (List.cons.inj h).2
  · exact absurd (List.cons.inj h).1 hp

/-- Nothing is about to be reported but from the next lap. -/
theorem Sound.due_eq_none (h : Sound t s ps) (hps : ps ≠ [.lap]) : t.due = none :=
  Option.not_isSome_iff_eq_none.mp fun hdue => hps (h.due hdue).1

/-- A loop that waits has not spent its limit. -/
theorem Sound.lt_limit (h : Sound t s ps) (hp : .waiting n ∈ ps) (hle : 0 ≤ s.limit) :
    (n : Int) < s.limit := by
  have hholds := h.holds
  unfold Holds at hholds
  split at hholds
  · cases hp
  · cases List.mem_singleton.mp hp
  · cases List.mem_singleton.mp hp
  · simp at hp
  · cases List.mem_singleton.mp hp
    exact hholds.2.2.2 hle
  · cases List.mem_singleton.mp hp
  · cases List.mem_singleton.mp hp
  · exact hholds.elim

/-- While nothing is due, what matters of the reports is that each of them is remembered. -/
theorem sound_of_none (hdue : t.due = none) (hholds : Holds t s ps)
    (hwithin : 0 ≤ s.limit → (t.attempts : Int) ≤ s.limit) (honce : t.reports ≤ 1)
    (hexhausted : 0 < t.reports → s.exhausted = true) : Sound t s ps := by
  refine ⟨hholds, hwithin, ?_, ?_, ?_⟩
  · rw [hdue]
    exact honce
  · rw [hdue]
    exact hexhausted
  · rw [hdue]
    exact nofun

/-! ## What the loop does -/

theorem Sound.begins (h : Sound t s []) : Sound t s [.lap] :=
  { h with due := fun hdue => absurd (h.due hdue).1 nofun }

theorem Sound.ends (h : Sound t s [.lap]) (hdue : t.due = none) : Sound t s [] :=
  { h with due := by rw [hdue]; exact nofun }

theorem Sound.waits (h : Sound t s [.lap]) (hdue : t.due = none)
    (hlimit : 0 ≤ s.limit → (s.count : Int) < s.limit) : Sound t s [.waiting s.count] := by
  have hcounts : t.Counts s := h.holds
  exact { h with
    holds := ⟨hcounts, hcounts.attempts, hcounts.failures, hlimit⟩
    due := by rw [hdue]; exact nofun }

theorem Sound.givesUp (h : Sound t s [.lap]) (hdue : t.due = none)
    (hlimit : s.limit ≤ (s.count : Int)) : Sound t s [.givingUp s.count] := by
  have hcounts : t.Counts s := h.holds
  have hspent : s.limit ≤ (t.failures : Int) := by
    have := hcounts.failures
    omega
  exact { h with holds := ⟨hcounts, hspent⟩, due := by rw [hdue]; exact nofun }

/-- The loop sets the count back where there has been no attempt. -/
theorem Sound.setsBack (h : Sound t s [.lap]) (hdue : t.due = none) (hattempts : t.attempts = 0) :
    Sound t { s with count := 0 } [.lap] :=
  { h with
    holds := ⟨Nat.le_of_eq hattempts, Nat.zero_le _⟩
    due := by rw [hdue]; exact nofun }

theorem Sound.reportsIt (h : Sound t s [.lap]) (hi : t.due = some i) :
    Sound { t with due := none, reports := t.reports + 1 } s [.lap] := by
  have hcounts : t.Counts s := h.holds
  have honce := h.once
  have hremembered := h.exhausted
  rw [hi] at honce hremembered
  exact sound_of_none rfl ⟨hcounts.attempts, hcounts.failures⟩ h.within honce
    fun _ => hremembered (Nat.succ_pos _)

/-- It has reported before. -/
theorem Sound.keepsQuiet (h : Sound t s [.givingUp n]) : Sound t s [.lap] :=
  { h with holds := h.holds.1, due := fun hdue => absurd (h.due hdue).1 nofun }

theorem Sound.decides (h : Sound t s [.givingUp n]) (hexhausted : s.exhausted = false) :
    Sound t s [.reporting, .lap] := by
  obtain ⟨hcounts, hspent⟩ := h.holds
  have hreports : t.reports = 0 := by
    by_contra hne
    have := h.exhausted (by omega)
    rw [hexhausted] at this
    cases this
  exact { h with
    holds := ⟨hcounts, hspent, hreports⟩
    due := fun hdue => absurd (h.due hdue).1 nofun }

theorem Sound.exhausts (h : Sound t s [.reporting, .lap]) :
    Sound { t with due := some i } { s with exhausted := true } [.lap] := by
  obtain ⟨hcounts, hspent, hreports⟩ := h.holds
  refine ⟨⟨hcounts.attempts, hcounts.failures⟩, h.within, ?_, fun _ => rfl, fun _ => ⟨rfl, hspent⟩⟩
  rw [hreports]
  exact Nat.le_refl 1

theorem Sound.stops (h : Sound t s [.waiting n]) : Sound t s [.lap] :=
  { h with holds := h.holds.1, due := fun hdue => absurd (h.due hdue).1 nofun }

theorem Sound.tries (h : Sound t s [.waiting n]) :
    Sound { t with attempts := t.attempts + 1 } s [.trying n] := by
  obtain ⟨-, hattempts, hfailures, hlimit⟩ := h.holds
  exact { h with
    holds := ⟨Nat.succ_le_succ hattempts, hfailures⟩
    within := fun hle => by
      have := hlimit hle
      simp only
      omega
    due := fun hdue => absurd (h.due hdue).1 nofun }

theorem Sound.fails (h : Sound t s [.trying n]) :
    Sound { t with failures := t.failures + 1 } { s with count := n + 1 } [.lap] := by
  obtain ⟨hattempts, hfailures⟩ := h.holds
  exact { h with
    holds := ⟨hattempts, Nat.succ_le_succ hfailures⟩
    due := fun hdue => absurd (h.due hdue).1 nofun }

theorem Sound.succeeds (h : Sound t s [.trying n]) : Sound t.reset s [.succeeded] :=
  sound_of_none (h.due_eq_none nofun) ⟨rfl, rfl⟩ (fun hle => hle) (Nat.zero_le 1) nofun

/-- The loop clears the count behind a success. -/
theorem Sound.clears (h : Sound t s [.succeeded]) :
    Sound t { s with count := 0, exhausted := false } [.lap] := by
  obtain ⟨hattempts, hreports⟩ := h.holds
  have hreports_le : t.reports ≤ 1 := by omega
  refine sound_of_none (h.due_eq_none nofun) ⟨Nat.le_of_eq hattempts, Nat.zero_le _⟩ h.within
    hreports_le fun hpos => ?_
  rw [hreports] at hpos
  cases hpos

/-! ## What others do -/

/-- A reset finds the loop without an old number and without a decision to give up. -/
theorem Sound.reset (h : Sound t s ps) (hdue : t.due = none) (hfresh : ∀ p ∈ ps, p.fresh = true)
    {s' : Shared} (hcount : s'.count = 0)
    (hlimit : .waiting 0 ∈ ps → 0 ≤ s'.limit → 0 < s'.limit) : Sound t.reset s' ps := by
  have hcounts : t.reset.Counts s' := ⟨Nat.zero_le _, Nat.le_of_eq hcount⟩
  refine sound_of_none hdue ?_ (fun hle => hle) (Nat.zero_le 1) nofun
  have hholds := h.holds
  unfold Holds at hholds ⊢
  split at hholds
  · exact hcounts
  · exact hcounts
  · cases hfresh _ (List.mem_singleton_self _)
  · cases hfresh _ (List.mem_cons_self ..)
  · rename_i n
    have hn : n = 0 := beq_iff_eq.mp (hfresh _ (List.mem_singleton_self _))
    subst hn
    exact ⟨hcounts, Nat.le_refl 0, Nat.le_refl 0, hlimit (List.mem_singleton_self _)⟩
  · rename_i n
    have hn : n = 0 := beq_iff_eq.mp (hfresh _ (List.mem_singleton_self _))
    subst hn
    exact ⟨Nat.zero_le 1, Nat.le_refl 0⟩
  · exact ⟨rfl, rfl⟩
  · exact hholds.elim

end Retries
