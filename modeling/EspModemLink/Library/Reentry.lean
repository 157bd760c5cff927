import Mathlib.Data.List.Nodup

/-!
# One marker for a stack

Something can be entered while it is not yet left, and what is entered last is left first. A single
marker, set on the way in and cleared on the way out, is to keep everything from being entered twice
at a time. It does so only for what has had nothing else entered inside of it.
-/

namespace Reentry

variable {α : Type*} {marker : Option α} {stack lost : List α} {a : α}

/-- What is entered and not left, innermost first, beside the marker. What had something else
entered inside of it is `lost`: the marker may not stand for it any more. -/
structure Marked (marker : Option α) (stack lost : List α) : Prop where
  nodup : stack.Nodup
  head : ∀ a ∈ stack.head?, a ∈ lost ∨ marker = some a
  tail : ∀ a ∈ stack.tail, a ∈ lost

theorem marked_nil : Marked marker [] lost := ⟨List.nodup_nil, nofun, nofun⟩

/-- The marker stands for everything that is not lost. -/
theorem Marked.eq_some (h : Marked marker stack lost) (ha : a ∈ stack) (hlost : a ∉ lost) :
    marker = some a := by
  cases stack with
  | nil => cases ha
  | cons b stack =>
      obtain rfl | htail := List.mem_cons.mp ha
      · exact (h.head a rfl).resolve_left hlost
      · exact absurd (h.tail a htail) hlost

/-- What is not lost is entered unless the marker stands for it. -/
theorem Marked.enter (h : Marked marker stack lost) (hmarker : marker ≠ some a) (hlost : a ∉ lost) :
    Marked (some a) (a :: stack) stack := by
  refine ⟨List.nodup_cons.mpr ⟨?_, h.nodup⟩, ?_, fun b hb => hb⟩
  · exact fun ha => hmarker (h.eq_some ha hlost)
  · rintro b hb
    exact .inr (congrArg some (Option.some.inj hb))

/-- Whatever was entered is left again, and the marker cleared. -/
theorem Marked.leave [DecidableEq α] (h : Marked marker (a :: stack) lost) :
    Marked none stack (lost.filter (· ≠ a)) := by
  obtain ⟨ha, hnodup⟩ := List.nodup_cons.mp h.nodup
  have hstack : ∀ b ∈ stack, b ∈ lost.filter (· ≠ a) := by
    intro b hb
    have hba : b ≠ a := fun hba => ha (hba ▸ hb)
    exact List.mem_filter.mpr ⟨h.tail b hb, decide_eq_true hba⟩
  exact ⟨hnodup, fun b hb => .inl (hstack b (List.mem_of_head? hb)),
    fun b hb => hstack b (List.mem_of_mem_tail hb)⟩

end Reentry
