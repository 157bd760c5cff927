import Mathlib.Data.List.Nodup
import Mathlib.Data.List.Perm.Basic

/-!
# Searches through a collection without an order

A collection is traversed in whatever order it happens to have, and the first match is taken. Its
members are given by a list, and a traversal is a permutation of it.
-/

namespace Traversal

variable {α β : Type*} {l : List α} {p : α → Bool} {a : α}

/-- Some traversal meets a given match first. -/
theorem exists_find? (ha : a ∈ l) (hp : p a = true) :
    ∃ order : List α, order.Perm l ∧ order.find? p = some a := by
  obtain ⟨front, back, rfl⟩ := List.append_of_mem ha
  refine ⟨a :: (front ++ back), List.perm_middle.symm, ?_⟩
  exact List.find?_cons_of_pos hp

/-- Whether there is a match does not depend on the traversal. -/
theorem find?_eq_none_iff {order : List α} (horder : order.Perm l) :
    order.find? p = none ↔ l.find? p = none := by
  simp only [List.find?_eq_none]
  constructor
  · intro h b hb
    exact h b (horder.mem_iff.mpr hb)
  · intro h b hb
    exact h b (horder.mem_iff.mp hb)

/-- What a search reads off its match is the same in every traversal just when all matches have it in
common. -/
theorem find?_bind_iff {f : α → Option β} :
    (∀ order : List α, order.Perm l → (order.find? p).bind f = (l.find? p).bind f) ↔
      ∀ b ∈ l, p b = true → f b = (l.find? p).bind f := by
  constructor
  · intro h b hb hp
    obtain ⟨order, horder, hfind⟩ := exists_find? hb hp
    have hsame := h order horder
    rwa [hfind] at hsame
  · intro h order horder
    cases hfind : order.find? p with
    | none =>
        rw [(find?_eq_none_iff horder).mp hfind]
    | some b =>
        have hb : b ∈ l := horder.mem_iff.mp (List.mem_of_find?_eq_some hfind)
        exact h b hb (List.find?_some hfind)

/-- Where no two members share a key, a search by key finds the one that has it. -/
theorem find?_key {κ : Type*} [BEq κ] [LawfulBEq κ] (key : α → κ) (h : (l.map key).Nodup) (ha : a ∈ l)
    {k : κ} (hk : (key a == k) = true) : l.find? (fun b => key b == k) = some a := by
  cases hfind : l.find? fun b => key b == k with
  | none => exact absurd hk (List.find?_eq_none.mp hfind a ha)
  | some b =>
      have hb : (key b == k) = true := by
        simpa using List.find?_some hfind
      have hsame : key b = key a := (eq_of_beq hb).trans (eq_of_beq hk).symm
      rw [List.inj_on_of_nodup_map h (List.mem_of_find?_eq_some hfind) ha hsame]

end Traversal
