import Mathlib.Data.List.Chain

/-!
# Loops that go round for a request

A round is executed for a request. It fails, or it answers and may name the request of the next
round. The loop has no bound of its own: a run of it is a derivation, and a loop whose rounds name
no further request from a limit on is computed by as many rounds as the limit leaves.
-/

namespace Rounds

variable {ρ σ α ε : Type*}

/-- What the `n`-th round makes of a request and a state. -/
abbrev Round (ρ σ α ε : Type*) := ℕ → ρ → σ → Except ε (α × Option ρ) × σ

/-- A round that was executed. -/
structure Visit (ρ σ : Type*) where
  request : ρ
  before : σ
  after : σ

/-- The loop: the rounds that it executes and what it comes to. -/
inductive Loop (round : Round ρ σ α ε) :
    ℕ → ρ → σ → List (Visit ρ σ) → Except ε α × σ → Prop
  | fails {n : ℕ} {r : ρ} {s s' : σ} {e : ε} (h : round n r s = (.error e, s')) :
      Loop round n r s [⟨r, s, s'⟩] (.error e, s')
  | answers {n : ℕ} {r : ρ} {s s' : σ} {a : α} (h : round n r s = (.ok (a, none), s')) :
      Loop round n r s [⟨r, s, s'⟩] (.ok a, s')
  | follows {n : ℕ} {r r' : ρ} {s s' : σ} {a : α} {visits : List (Visit ρ σ)}
      {out : Except ε α × σ} (h : round n r s = (.ok (a, some r'), s'))
      (hrest : Loop round (n + 1) r' s' visits out) :
      Loop round n r s (⟨r, s, s'⟩ :: visits) out

/-- The loop with a bound on the rounds behind the first one. -/
def bounded (round : Round ρ σ α ε) : ℕ → ℕ → ρ → σ → Except ε α × σ
  | left, n, r, s =>
      match round n r s, left with
      | (.error e, s'), _ => (.error e, s')
      | (.ok (_, some r'), s'), left + 1 => bounded round left (n + 1) r' s'
      | (.ok (a, _), s'), _ => (.ok a, s')

variable {round : Round ρ σ α ε} {n : ℕ} {r : ρ} {s : σ} {visits : List (Visit ρ σ)}
  {out : Except ε α × σ}

/-- Every visit is what its round made of its request. -/
theorem Loop.visit (h : Loop round n r s visits out) {v : Visit ρ σ} (hv : v ∈ visits) :
    ∃ m result, round m v.request v.before = (result, v.after) := by
  induction h with
  | fails h | answers h =>
      obtain rfl := List.mem_singleton.mp hv
      exact ⟨_, _, h⟩
  | follows h _ ih =>
      obtain rfl | hv := List.mem_cons.mp hv
      · exact ⟨_, _, h⟩
      · exact ih hv

/-- The first visit is for the request of the loop. -/
theorem Loop.head (h : Loop round n r s visits out) :
    ∃ s' rest, visits = ⟨r, s, s'⟩ :: rest := by
  cases h with
  | fails | answers => exact ⟨_, [], rfl⟩
  | follows => exact ⟨_, _, rfl⟩

theorem Loop.head_request (h : Loop round n r s visits out) : ∀ v ∈ visits.head?, v.request = r := by
  obtain ⟨s', rest, rfl⟩ := h.head
  intro v hv
  obtain rfl := Option.mem_some.mp hv
  rfl

/-- The last visit ends where the loop does. -/
theorem Loop.last (h : Loop round n r s visits out) :
    ∃ v, visits.getLast? = some v ∧ v.after = out.2 := by
  induction h with
  | fails | answers => exact ⟨_, rfl, rfl⟩
  | follows _ _ ih =>
      obtain ⟨v, hlast, hafter⟩ := ih
      exact ⟨v, by rw [List.getLast?_cons, hlast]; rfl, hafter⟩

/-- A loop that answers has its answer from its last visit. -/
theorem Loop.answer (h : Loop round n r s visits out) {a : α} (hok : out.1 = .ok a)
    {v : Visit ρ σ} (hlast : visits.getLast? = some v) :
    ∃ m, round m v.request v.before = (.ok (a, none), out.2) := by
  induction h with
  | fails => cases hok
  | answers h =>
      obtain rfl := Except.ok.inj hok
      obtain rfl := Option.some.inj hlast
      exact ⟨_, h⟩
  | follows _ hrest ih =>
      obtain ⟨w, rest, rfl⟩ := hrest.head
      exact ih hok (by rwa [List.getLast?_cons_cons] at hlast)

/-- A visit that names no further request is the last one: the loop comes to what it came to. -/
theorem Loop.ends_at (h : Loop round n r s visits out) {v : Visit ρ σ} (hv : v ∈ visits)
    (hend : ∀ m a r', (round m v.request v.before).1 ≠ .ok (a, some r')) :
    ∃ m, out.1 = (round m v.request v.before).1.map Prod.fst := by
  induction h with
  | fails h | answers h =>
      obtain rfl := List.mem_singleton.mp hv
      exact ⟨_, by rw [h]; rfl⟩
  | follows h _ ih =>
      obtain rfl | hv := List.mem_cons.mp hv
      · exact absurd (congrArg Prod.fst h) (hend _ _ _)
      · exact ih hv

/-- What a round makes of its visit holds from each visit to the next. -/
theorem Loop.chain {R : Visit ρ σ → ρ → Prop}
    (hround : ∀ n r s a r' s', round n r s = (.ok (a, some r'), s') → R ⟨r, s, s'⟩ r')
    (h : Loop round n r s visits out) : visits.IsChain fun v v' => R v v'.request := by
  induction h with
  | fails | answers => exact List.isChain_singleton _
  | follows h hrest ih =>
      obtain ⟨s'', rest, rfl⟩ := hrest.head
      exact List.isChain_cons_cons.mpr ⟨hround _ _ _ _ _ _ h, ih⟩

/-- What every round makes of the request before it, behind any number of rounds. -/
theorem Loop.pairwise {R : ρ → ρ → Prop} [IsTrans ρ R]
    (hround : ∀ n r s a r' s', round n r s = (.ok (a, some r'), s') → R r r')
    (h : Loop round n r s visits out) : visits.Pairwise fun v v' => R v.request v'.request := by
  have htrans : IsTrans (Visit ρ σ) fun v v' => R v.request v'.request :=
    ⟨fun _ _ _ => IsTrans.trans (r := R) _ _ _⟩
  apply List.IsChain.pairwise
  exact h.chain (R := fun v r' => R v.request r') hround

/-- An invariant of the rounds holds before and behind every visit. -/
theorem Loop.invariant {I : σ → Prop}
    (hround : ∀ n r s result s', round n r s = (result, s') → I s → I s')
    (h : Loop round n r s visits out) (hs : I s) :
    I out.2 ∧ ∀ v ∈ visits, I v.before ∧ I v.after := by
  induction h with
  | fails h | answers h =>
      have hs' := hround _ _ _ _ _ h hs
      exact ⟨hs', by simp [hs, hs']⟩
  | follows h _ ih =>
      have hs' := hround _ _ _ _ _ h hs
      obtain ⟨hout, hvisits⟩ := ih hs'
      exact ⟨hout, List.forall_mem_cons.mpr ⟨⟨hs, hs'⟩, hvisits⟩⟩

/-- A loop whose rounds name no further request from a limit on is computed within the limit. -/
theorem bounded_loop {I : σ → Prop} {limit : ℕ}
    (hround : ∀ n r s result s', round n r s = (result, s') → I s → I s')
    (hlimit : ∀ n r s a r' s', round n r s = (.ok (a, some r'), s') → I s → n < limit)
    (left : ℕ) (hleft : left + n = limit) (hs : I s) :
    ∃ visits, Loop round n r s visits (bounded round left n r s) ∧ visits.length ≤ left + 1 := by
  induction left generalizing n r s with
  | zero =>
      unfold bounded
      split
      · rename_i h
        exact ⟨_, .fails h, Nat.le_refl _⟩
      · contradiction
      · rename_i a next s' h hne
        cases next with
        | none => exact ⟨_, .answers h, Nat.le_refl _⟩
        | some r' =>
            have := hlimit _ _ _ _ _ _ h hs
            omega
  | succ left ih =>
      unfold bounded
      split
      · rename_i h
        exact ⟨_, .fails h, by simp⟩
      · rename_i a r' s' left' h hleft'
        obtain rfl := Nat.succ.inj hleft'
        obtain ⟨visits, hloop, hlength⟩ := ih (n := n + 1) (by omega) (hround _ _ _ _ _ h hs)
        exact ⟨_, .follows h hloop, by simpa using hlength⟩
      · rename_i a next s' h hne
        cases next with
        | none => exact ⟨_, .answers h, by simp⟩
        | some r' => exact absurd rfl (hne r' left rfl)

end Rounds
