import Mathlib.Data.Nat.ModEq

/-!
# A counter that wraps around

Numbers are given out from 1 to a period, and then from 1 again. Two numbers are the same when a
multiple of the period lies between the turns in which they were given.
-/

namespace Wrapping

/-- The number behind `last`. -/
def next (period last : ℕ) : ℕ := if last = period then 1 else last + 1

/-- The number of the `n`-th turn, zero in front of the first one. -/
def nth (period n : ℕ) : ℕ := if n = 0 then 0 else (n - 1) % period + 1

variable {period m n : ℕ}

theorem nth_zero (period : ℕ) : nth period 0 = 0 := rfl

theorem nth_succ (period n : ℕ) : nth period (n + 1) = n % period + 1 := rfl

theorem nth_pos (h : 0 < n) : 0 < nth period n := by
  obtain ⟨k, rfl⟩ := Nat.exists_eq_add_of_lt h
  rw [Nat.zero_add, nth_succ]
  exact Nat.succ_pos _

/-- The counter goes from each turn to the next one. -/
theorem next_nth (h : 0 < period) (n : ℕ) : next period (nth period n) = nth period (n + 1) := by
  cases n with
  | zero =>
      rw [nth_zero, nth_succ, next, if_neg (by omega), Nat.zero_mod]
  | succ n =>
      have hlt : n % period < period := Nat.mod_lt n h
      rw [nth_succ, nth_succ, next]
      by_cases hlast : n % period + 1 = period
      · have hwraps : (n + 1) % period = 0 := by
          rw [← Nat.mod_add_mod, hlast]
          exact Nat.mod_self period
        rw [if_pos hlast, hwraps]
      · have hgoes : (n + 1) % period = n % period + 1 := by
          rw [← Nat.mod_add_mod]
          exact Nat.mod_eq_of_lt (by omega)
        rw [if_neg hlast, hgoes]

/-- A number comes again when the turns are a multiple of the period apart. -/
theorem nth_eq_iff (hm : 0 < m) (hmn : m ≤ n) : nth period n = nth period m ↔ period ∣ n - m := by
  obtain ⟨i, rfl⟩ : ∃ i, m = i + 1 := ⟨m - 1, by omega⟩
  obtain ⟨j, rfl⟩ : ∃ j, n = j + 1 := ⟨n - 1, by omega⟩
  have hij : i ≤ j := by omega
  rw [nth_succ, nth_succ, Nat.succ_inj, Nat.add_sub_add_right, ← Nat.modEq_iff_dvd' hij]
  exact eq_comm

end Wrapping
