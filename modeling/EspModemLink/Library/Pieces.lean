import Mathlib.Data.List.Basic

/-!
# Units written to a stream

A writer hands whole units to a stream, and the stream accepts each as far as it likes. What the
stream holds can be read back unit by unit as long as nothing follows a unit that was cut short.
-/

namespace Pieces

/-- A unit, and how much of it the stream accepted. -/
structure Piece (α : Type*) where
  unit : List α
  accepted : ℕ
deriving DecidableEq

variable {α : Type*}

/-- What the stream holds of a unit. -/
def Piece.bytes (p : Piece α) : List α := p.unit.take p.accepted

/-- The unit was accepted to its end. -/
def Piece.Whole (p : Piece α) : Prop := p.accepted = p.unit.length

instance (p : Piece α) : Decidable p.Whole := inferInstanceAs (Decidable (_ = _))

/-- What the stream holds. -/
def stream (ps : List (Piece α)) : List α := ps.flatMap Piece.bytes

/-- Whole units, and behind them one at most that was cut short. -/
def Framed (ps : List (Piece α)) : Prop := ∀ p ∈ ps.dropLast, p.Whole

instance (ps : List (Piece α)) : Decidable (Framed ps) :=
  inferInstanceAs (Decidable (∀ p ∈ ps.dropLast, p.Whole))

variable {ps : List (Piece α)}

theorem framed_of_whole (h : ∀ p ∈ ps, p.Whole) : Framed ps :=
  fun p hp => h p (List.dropLast_subset ps hp)

/-- Behind whole units a piece of any length may follow. -/
theorem framed_concat (h : ∀ p ∈ ps, p.Whole) (p : Piece α) : Framed (ps ++ [p]) := by
  intro x hx
  rw [List.dropLast_concat] at hx
  exact h x hx

theorem bytes_of_whole {p : Piece α} (h : p.Whole) : p.bytes = p.unit := by
  rw [Piece.bytes, h, List.take_length]

/-- A framed stream is a concatenation of units, with the first part of one unit behind them. -/
theorem Framed.stream_eq (h : Framed ps) :
    ∃ part : List α, stream ps = (ps.dropLast.map Piece.unit).flatten ++ part ∧
      (part = [] ∨ ∃ p ∈ ps, part = p.bytes) := by
  obtain rfl | ⟨qs, p, rfl⟩ := List.eq_nil_or_concat ps
  · exact ⟨[], rfl, .inl rfl⟩
  · have hqs : qs.flatMap Piece.bytes = (qs.map Piece.unit).flatten := by
      rw [List.flatMap_def, List.map_congr_left]
      intro x hx
      apply bytes_of_whole
      apply h
      simpa using hx
    refine ⟨p.bytes, ?_, .inr ⟨p, by simp, rfl⟩⟩
    simp [stream, hqs]

end Pieces
