import Mathlib.Data.List.Induction
import Mathlib.Data.Nat.Digits.Defs

/-!
# Numerals read from the left

A reader takes the digits of a numeral most significant first and keeps the number read so far in a
register. With a register of bounded size it ends with the remainder of the number. Numerals without
zeros in front are ordered by their length first, and like words where that is the same.
-/

namespace Numerals

/-- The number that digits say in base `b`, the most significant digit first. -/
def value (b : ℕ) (ds : List ℕ) : ℕ := Nat.ofDigits b ds.reverse

variable {b m : ℕ} {ds es : List ℕ}

@[simp] theorem value_nil : value b [] = 0 := rfl

theorem value_concat (ds : List ℕ) (d : ℕ) : value b (ds ++ [d]) = value b ds * b + d := by
  rw [value, List.reverse_append, List.reverse_singleton, List.singleton_append,
    Nat.ofDigits_cons, value, Nat.mul_comm, Nat.add_comm]

theorem value_cons (d : ℕ) (ds : List ℕ) :
    value b (d :: ds) = d * b ^ ds.length + value b ds := by
  rw [value, List.reverse_cons, Nat.ofDigits_append, Nat.ofDigits_singleton, List.length_reverse,
    Nat.mul_comm, Nat.add_comm, value]

/-- A reader with an unbounded register ends with the number. -/
theorem foldl_eq_value (ds : List ℕ) : ds.foldl (fun n d => n * b + d) 0 = value b ds := by
  induction ds using List.reverseRecOn with
  | nil => rfl
  | append_singleton ds d ih => rw [List.foldl_append, List.foldl_cons, List.foldl_nil, ih, value_concat]

/-- A reader whose register holds numbers below `m` ends with the remainder of the number. -/
theorem foldl_mod_eq_value (ds : List ℕ) :
    ds.foldl (fun n d => (n * b + d) % m) 0 = value b ds % m := by
  induction ds using List.reverseRecOn with
  | nil => simp
  | append_singleton ds d ih =>
      rw [List.foldl_append, List.foldl_cons, List.foldl_nil, ih, value_concat]
      calc (value b ds % m * b + d) % m = (value b ds % m * b % m + d) % m := by
            rw [Nat.mod_add_mod]
        _ = (value b ds * b + d) % m := by rw [Nat.mod_mul_mod, Nat.mod_add_mod]

/-- A numeral says zero if and only if all its digits are zero. -/
theorem value_eq_zero (hb : b ≠ 0) : value b ds = 0 ↔ ∀ d ∈ ds, d = 0 := by
  induction ds using List.reverseRecOn with
  | nil => simp
  | append_singleton ds d ih =>
      rw [value_concat]
      simp only [Nat.add_eq_zero_iff, Nat.mul_eq_zero, hb, or_false, ih, List.mem_append,
        List.mem_singleton]
      constructor
      · rintro ⟨hds, rfl⟩ e (he | rfl)
        · exact hds e he
        · rfl
      · exact fun h => ⟨fun e he => h e (.inl he), h d (.inr rfl)⟩

/-! ## Numerals in order -/

theorem value_lt_pow (hds : ∀ d ∈ ds, d < b) : value b ds < b ^ ds.length := by
  induction ds with
  | nil => simp
  | cons d ds ih =>
      have htail := ih fun e he => hds e (List.mem_cons_of_mem _ he)
      have hd : d < b := hds d List.mem_cons_self
      calc value b (d :: ds) = d * b ^ ds.length + value b ds := value_cons d ds
        _ < (d + 1) * b ^ ds.length := by rw [Nat.succ_mul]; omega
        _ ≤ b * b ^ ds.length := Nat.mul_le_mul_right _ hd
        _ = b ^ (d :: ds).length := by rw [List.length_cons, Nat.pow_succ, Nat.mul_comm]

/-- Zeros in front do not count. -/
theorem value_dropWhile_zero (ds : List ℕ) : value b (ds.dropWhile (· == 0)) = value b ds := by
  induction ds with
  | nil => rfl
  | cons d ds ih =>
      by_cases hd : d = 0
      · rw [List.dropWhile_cons_of_pos (by simp [hd]), ih, value_cons, hd, Nat.zero_mul,
          Nat.zero_add]
      · rw [List.dropWhile_cons_of_neg (by simp [hd])]

/-- Numerals of one length are in the order of the dictionary. -/
theorem value_lt_iff_lt (hlen : ds.length = es.length) (hds : ∀ d ∈ ds, d < b)
    (hes : ∀ e ∈ es, e < b) : value b ds < value b es ↔ ds < es := by
  induction ds generalizing es with
  | nil =>
      obtain rfl := List.length_eq_zero_iff.mp hlen.symm
      simp
  | cons d ds ih =>
      cases es with
      | nil => cases hlen
      | cons e es =>
          have hlen' : ds.length = es.length := Nat.succ.inj hlen
          have hds' : ∀ d ∈ ds, d < b := fun x hx => hds x (List.mem_cons_of_mem _ hx)
          have hes' : ∀ e ∈ es, e < b := fun x hx => hes x (List.mem_cons_of_mem _ hx)
          have hd := value_lt_pow hds'
          have he := value_lt_pow hes'
          rw [hlen'] at hd
          rw [value_cons, value_cons, List.cons_lt_cons_iff, ← ih hlen' hds' hes', hlen']
          obtain hlt | rfl | hlt := Nat.lt_trichotomy d e
          · have hstep : (d + 1) * b ^ es.length ≤ e * b ^ es.length := Nat.mul_le_mul_right _ hlt
            rw [Nat.succ_mul] at hstep
            exact iff_of_true (by omega) (.inl hlt)
          · simp
          · have hstep : (e + 1) * b ^ es.length ≤ d * b ^ es.length := Nat.mul_le_mul_right _ hlt
            rw [Nat.succ_mul] at hstep
            exact iff_of_false (by omega) (by omega)

/-- A longer numeral says more, if it does not begin with a zero. -/
theorem value_lt_of_length_lt (hds : ∀ d ∈ ds, d < b) (hes : ∀ e ∈ es, e < b)
    (hfront : es.head? ≠ some 0) (hlen : ds.length < es.length) : value b ds < value b es := by
  cases es with
  | nil => cases hlen
  | cons e es =>
      have he : 1 ≤ e := Nat.one_le_iff_ne_zero.mpr fun hzero => hfront (congrArg some hzero)
      have hb : 0 < b := Nat.zero_lt_of_lt (hes e List.mem_cons_self)
      calc value b ds < b ^ ds.length := value_lt_pow hds
        _ ≤ b ^ es.length := Nat.pow_le_pow_right hb (Nat.le_of_lt_succ hlen)
        _ = 1 * b ^ es.length := (Nat.one_mul _).symm
        _ ≤ e * b ^ es.length := Nat.mul_le_mul_right _ he
        _ ≤ value b (e :: es) := by rw [value_cons]; exact Nat.le_add_right _ _

/-- Numerals that do not begin with a zero: a shorter one says less, and those of one length are
in the order of the dictionary. -/
theorem value_lt_iff (hds : ∀ d ∈ ds, d < b) (hes : ∀ e ∈ es, e < b) (hfront : ds.head? ≠ some 0)
    (hfront' : es.head? ≠ some 0) :
    value b ds < value b es ↔ ds.length < es.length ∨ ds.length = es.length ∧ ds < es := by
  obtain hlt | heq | hlt := Nat.lt_trichotomy ds.length es.length
  · exact iff_of_true (value_lt_of_length_lt hds hes hfront' hlt) (.inl hlt)
  · rw [value_lt_iff_lt heq hds hes]
    simp [heq]
  · have hmore := value_lt_of_length_lt hes hds hfront hlt
    exact iff_of_false (by omega) (by omega)

end Numerals
