import Mathlib.Data.List.Basic

/-!
# Messages in fragments

A message is sent as one fragment or more. A fragment begins a message exactly when the message in
front of it has ended, so a sequence of fragments can be read without looking ahead.
-/

namespace Fragmentation

/-- A fragment of a message: whether it begins one, and whether the message ends with it. -/
structure Fragment where
  begins : Bool
  ends : Bool
deriving DecidableEq

/-- Whether a message is open behind the fragments, when one is `isOpen` in front of them. -/
def openAfter (isOpen : Bool) : List Fragment → Bool
  | [] => isOpen
  | f :: fs => openAfter (!f.ends) fs

/-- A fragment begins a message exactly when none is open. -/
def Fragmented (isOpen : Bool) : List Fragment → Prop
  | [] => True
  | f :: fs => f.begins = !isOpen ∧ Fragmented (!f.ends) fs

instance Fragmented.decidable :
    (isOpen : Bool) → (fs : List Fragment) → Decidable (Fragmented isOpen fs)
  | _, [] => isTrue trivial
  | isOpen, f :: fs =>
      have : Decidable (Fragmented (!f.ends) fs) := Fragmented.decidable (!f.ends) fs
      inferInstanceAs (Decidable (f.begins = !isOpen ∧ Fragmented (!f.ends) fs))

/-- The fragments of whole messages. -/
def Whole (fs : List Fragment) : Prop := Fragmented false fs ∧ openAfter false fs = false

/-- What has been sent of the fragments of whole messages. -/
def Begun (fs : List Fragment) : Prop := ∃ rest, Whole (fs ++ rest)

variable {isOpen : Bool} {fs gs : List Fragment} {f : Fragment}

theorem openAfter_append (isOpen : Bool) (fs gs : List Fragment) :
    openAfter isOpen (fs ++ gs) = openAfter (openAfter isOpen fs) gs := by
  induction fs generalizing isOpen with
  | nil => rfl
  | cons f fs ih => exact ih (!f.ends)

theorem fragmented_append :
    Fragmented isOpen (fs ++ gs) ↔
      Fragmented isOpen fs ∧ Fragmented (openAfter isOpen fs) gs := by
  induction fs generalizing isOpen with
  | nil => simp [Fragmented, openAfter]
  | cons f fs ih =>
      rw [List.cons_append, Fragmented, Fragmented, ih, and_assoc]
      rfl

theorem openAfter_concat (isOpen : Bool) (fs : List Fragment) (f : Fragment) :
    openAfter isOpen (fs ++ [f]) = !f.ends := by
  rw [openAfter_append]
  rfl

theorem Fragmented.concat (h : Fragmented isOpen fs) (hf : f.begins = !openAfter isOpen fs) :
    Fragmented isOpen (fs ++ [f]) :=
  fragmented_append.mpr ⟨h, hf, trivial⟩

/-- Whatever has been sent can be completed by one fragment. -/
theorem begun_iff : Begun fs ↔ Fragmented false fs := by
  constructor
  · rintro ⟨rest, h, -⟩
    exact (fragmented_append.mp h).1
  · intro h
    cases hopen : openAfter false fs with
    | false =>
        refine ⟨[], ?_⟩
        rw [List.append_nil]
        exact ⟨h, hopen⟩
    | true =>
        refine ⟨[⟨false, true⟩], h.concat ?_, openAfter_concat false fs _⟩
        rw [hopen]
        rfl

instance Begun.decidable (fs : List Fragment) : Decidable (Begun fs) :=
  decidable_of_iff _ begun_iff.symm

end Fragmentation
