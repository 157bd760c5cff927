import Mathlib.Data.List.Basic
import Mathlib.Tactic.Ring

/-!
# Bit strings

Numbers and octets as strings of bits, the highest bit first, and the groups that a string is cut
into. A string of `n * k` bits and its `k` groups say the same number.
-/

namespace BitStrings

/-- The lowest `w` bits of a number, the highest of them first. -/
def bits : (w : ℕ) → (n : ℕ) → List Bool
  | 0, _ => []
  | w + 1, n => n.testBit w :: bits w n

/-- The number that bits write. -/
def value (bs : List Bool) : ℕ := bs.foldl (fun n b => 2 * n + b.toNat) 0

/-- The bits of octets. -/
def octetBits (octets : List UInt8) : List Bool := octets.flatMap fun o => bits 8 o.toNat

variable {α : Type*} {w m n k x y : ℕ} {bs cs : List Bool} {l r : List α}

@[simp] theorem bits_length (w n : ℕ) : (bits w n).length = w := by
  induction w with
  | zero => rfl
  | succ w ih => rw [bits, List.length_cons, ih]

theorem bits_zero (w : ℕ) : bits w 0 = List.replicate w false := by
  induction w with
  | zero => rfl
  | succ w ih => rw [bits, ih, Nat.zero_testBit, List.replicate_succ]

/-- The higher bits stand in front of the lower ones. -/
theorem bits_add (m n x : ℕ) : bits (m + n) x = bits m (x / 2 ^ n) ++ bits n x := by
  induction m with
  | zero => rw [Nat.zero_add, bits, List.nil_append]
  | succ m ih =>
      rw [Nat.succ_add, bits, bits, ih, Nat.testBit_div_two_pow, List.cons_append]

/-- Only the lowest `w` bits count. -/
theorem bits_mod (w x : ℕ) (h : w ≤ k) : bits w (x % 2 ^ k) = bits w x := by
  induction w with
  | zero => rfl
  | succ w ih =>
      have hlow : w < k := h
      rw [bits, bits, ih (Nat.le_of_lt hlow), Nat.testBit_mod_two_pow, decide_eq_true hlow,
        Bool.true_and]

theorem bits_append (m x : ℕ) (hy : y < 2 ^ n) :
    bits m x ++ bits n y = bits (m + n) (x * 2 ^ n + y) := by
  have hhigh : (x * 2 ^ n + y) / 2 ^ n = x := by
    rw [Nat.mul_comm, Nat.mul_add_div (Nat.two_pow_pos n), Nat.div_eq_of_lt hy, Nat.add_zero]
  have hlow : (x * 2 ^ n + y) % 2 ^ n = y := by
    rw [Nat.mul_comm, Nat.mul_add_mod, Nat.mod_eq_of_lt hy]
  rw [bits_add, hhigh, ← bits_mod n (x * 2 ^ n + y) (Nat.le_refl n), hlow]

theorem value_cons (b : Bool) (bs : List Bool) :
    value (b :: bs) = b.toNat * 2 ^ bs.length + value bs := by
  have hfold : ∀ n, bs.foldl (fun n b => 2 * n + b.toNat) n = n * 2 ^ bs.length + value bs := by
    intro n
    induction bs generalizing n with
    | nil => simp [value]
    | cons c bs ih =>
        rw [value, List.foldl_cons, List.foldl_cons, ih, ih, List.length_cons]
        ring
  rw [value, List.foldl_cons, hfold]
  simp

/-- The bits of a number write its remainder. -/
theorem value_bits (w n : ℕ) : value (bits w n) = n % 2 ^ w := by
  induction w with
  | zero => simp [bits, value, Nat.mod_one]
  | succ w ih =>
      rw [bits, value_cons, ih, bits_length, Nat.mod_pow_succ, Nat.toNat_testBit]
      ring

/-! ## Groups -/

/-- The groups of `n` that a list falls into; what is left over is a group of its own. -/
def groups (n : ℕ) (l : List α) : List (List α) :=
  (List.range ((l.length + n - 1) / n)).map fun i => (l.drop (n * i)).take n

@[simp] theorem groups_length (n : ℕ) (l : List α) :
    (groups n l).length = (l.length + n - 1) / n := by
  rw [groups, List.length_map, List.length_range]

@[simp] theorem groups_nil (n : ℕ) : groups n ([] : List α) = [] := by
  have hcount : (([] : List α).length + n - 1) / n = 0 := by
    obtain rfl | hn := Nat.eq_zero_or_pos n
    · exact Nat.div_zero _
    · exact Nat.div_eq_of_lt (by rw [List.length_nil]; omega)
  rw [groups, hcount, List.range_zero, List.map_nil]

/-- A whole group in front is the first one. -/
theorem groups_append (hn : 0 < n) (hl : l.length = n) : groups n (l ++ r) = l :: groups n r := by
  have hcount : ((l ++ r).length + n - 1) / n = (r.length + n - 1) / n + 1 := by
    rw [← Nat.add_div_right _ hn, List.length_append, hl]
    congr 1
    omega
  rw [groups, hcount, List.range_succ_eq_map, List.map_cons, Nat.mul_zero, List.drop_zero,
    List.take_left' hl, List.map_map, groups]
  congr 1
  apply List.map_congr_left
  intro i _
  have hdrop : (l ++ r).drop (n * (i + 1)) = r.drop (n * i) := by
    rw [Nat.mul_succ, Nat.add_comm, ← List.drop_drop, List.drop_left' hl]
  exact congrArg (List.take n) hdrop

theorem groups_singleton (hpos : 0 < l.length) (hl : l.length ≤ n) : groups n l = [l] := by
  have hcount : (l.length + n - 1) / n = 1 := by
    apply Nat.div_eq_of_lt_le <;> omega
  rw [groups, hcount]
  simp [List.take_of_length_le hl]

/-- The groups of the bits of a number. -/
theorem groups_bits (hn : 0 < n) (k x : ℕ) :
    groups n (bits (n * k) x) = (List.range k).reverse.map fun i => bits n (x / 2 ^ (n * i)) := by
  induction k with
  | zero => simp [bits]
  | succ k ih =>
      rw [Nat.mul_succ, Nat.add_comm, bits_add, groups_append hn (bits_length n _), ih,
        List.range_succ, List.reverse_concat, List.map_cons]

/-- The bits of a number are those of its groups. -/
theorem flatMap_bits (n k x : ℕ) :
    ((List.range k).reverse.flatMap fun i => bits n (x / 2 ^ (n * i))) = bits (n * k) x := by
  induction k with
  | zero => simp [bits]
  | succ k ih =>
      rw [List.range_succ, List.reverse_concat, List.flatMap_cons, ih, ← bits_add, Nat.mul_succ,
        Nat.add_comm]

/-! ## Octets -/

@[simp] theorem octetBits_nil : octetBits [] = [] := rfl

theorem octetBits_cons (o : UInt8) (octets : List UInt8) :
    octetBits (o :: octets) = bits 8 o.toNat ++ octetBits octets := rfl

theorem octetBits_append (octets more : List UInt8) :
    octetBits (octets ++ more) = octetBits octets ++ octetBits more := List.flatMap_append

@[simp] theorem octetBits_length (octets : List UInt8) :
    (octetBits octets).length = 8 * octets.length := by
  induction octets with
  | nil => rfl
  | cons o octets ih =>
      rw [octetBits_cons, List.length_append, bits_length, ih, List.length_cons, Nat.mul_succ,
        Nat.add_comm]

theorem octetBits_replicate_zero (n : ℕ) :
    octetBits (List.replicate n 0) = List.replicate (8 * n) false := by
  induction n with
  | zero => rfl
  | succ n ih =>
      rw [List.replicate_succ, octetBits_cons, ih, Nat.mul_succ, Nat.add_comm,
        ← List.replicate_append_replicate, UInt8.toNat_zero, bits_zero]

/-- Octets come back out of their bits. -/
theorem octets_octetBits (octets : List UInt8) :
    (groups 8 (octetBits octets)).map (fun bs => UInt8.ofNat (value bs)) = octets := by
  induction octets with
  | nil => simp
  | cons o octets ih =>
      rw [octetBits_cons, groups_append (by decide) (bits_length 8 _), List.map_cons, ih, value_bits,
        Nat.mod_eq_of_lt o.toNat_lt, UInt8.ofNat_toNat]

end BitStrings
