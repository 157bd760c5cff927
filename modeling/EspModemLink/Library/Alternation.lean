import Mathlib.Data.List.Chain

/-!
# Alternating calls

A thing opens and closes again and again. When it opens a call is due that says so, and when it
closes another one, and both are made some time later. The calls alternate as long as neither is due
while the thing has already gone on.
-/

namespace Alternation

/-- The calls that say "open" are `true`. -/
def Alternates (calls : List Bool) : Prop := (false :: calls).IsChain (· ≠ ·)

instance (calls : List Bool) : Decidable (Alternates calls) :=
  inferInstanceAs (Decidable ((false :: calls).IsChain (· ≠ ·)))

/-- What the last call said. Before the first one the thing is known to be closed. -/
def last (calls : List Bool) : Bool := calls.getLast?.getD false

@[simp] theorem last_concat (calls : List Bool) (b : Bool) : last (calls ++ [b]) = b := by
  simp [last]

theorem alternates_nil : Alternates [] := List.isChain_singleton _

theorem alternates_concat {calls : List Bool} {b : Bool} :
    Alternates (calls ++ [b]) ↔ Alternates calls ∧ last calls ≠ b := by
  have hlast : (false :: calls).getLast? = some (last calls) := by
    simp [last, List.getLast?_cons]
  unfold Alternates
  rw [← List.cons_append, List.isChain_append, hlast]
  simp

/-- The calls that are due, beside whether the thing is open (`opened` is 0 or 1) and the calls that
were made: an open thing owes at most the call that says so, a closed one at most the other. -/
structure Ledger (opened opens closes : ℕ) (calls : List Bool) : Prop where
  alternates : Alternates calls
  owed : opens + (last calls).toNat = opened + closes
  opens_le : opens ≤ opened
  closes_le : closes + opened ≤ 1

variable {opened opens closes : ℕ} {calls : List Bool}

theorem ledger_nil : Ledger 0 0 0 [] := ⟨alternates_nil, rfl, Nat.le_refl _, Nat.zero_le _⟩

/-- The thing opens while nothing is due. -/
theorem Ledger.whenOpened (h : Ledger 0 opens closes calls) (hcloses : closes = 0) :
    Ledger 1 (opens + 1) closes calls := by
  have howed := h.owed
  have hle := h.opens_le
  exact ⟨h.alternates, by omega, by omega, by omega⟩

/-- The call that says "open" is made. -/
theorem Ledger.callOpen (h : Ledger opened (opens + 1) closes calls) :
    Ledger opened opens closes (calls ++ [true]) := by
  have howed := h.owed
  have hopens := h.opens_le
  have hcloses := h.closes_le
  have hlast : last calls = false := by
    cases hlast : last calls with
    | false => rfl
    | true =>
        rw [hlast, Bool.toNat_true] at howed
        omega
  refine ⟨alternates_concat.mpr ⟨h.alternates, by simp [hlast]⟩, ?_, by omega, hcloses⟩
  rw [hlast, Bool.toNat_false] at howed
  rw [last_concat, Bool.toNat_true]
  omega

/-- The thing closes while nothing is due. -/
theorem Ledger.whenClosed (h : Ledger 1 opens closes calls) (hopens : opens = 0) :
    Ledger 0 opens (closes + 1) calls := by
  have howed := h.owed
  have hle := h.closes_le
  exact ⟨h.alternates, by omega, by omega, by omega⟩

/-- The call that says "closed" is made. -/
theorem Ledger.callClosed (h : Ledger opened opens (closes + 1) calls) :
    Ledger opened opens closes (calls ++ [false]) := by
  have howed := h.owed
  have hopens := h.opens_le
  have hcloses := h.closes_le
  have hlast : last calls = true := by
    cases hlast : last calls with
    | true => rfl
    | false =>
        rw [hlast, Bool.toNat_false] at howed
        omega
  refine ⟨alternates_concat.mpr ⟨h.alternates, by simp [hlast]⟩, ?_, hopens, by omega⟩
  rw [hlast, Bool.toNat_true] at howed
  rw [last_concat, Bool.toNat_false]
  omega

end Alternation
