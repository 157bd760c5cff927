import Mathlib.Data.List.Basic
import Mathlib.Data.List.Infix

/-!
# Texts made of segments

A text that begins with a separator is a list of segments with the separator in front of each.
-/

namespace Segments

variable {α : Type*}

/-- The segments, each behind a separator. -/
def render (sep : α) (segs : List (List α)) : List α := segs.flatMap (sep :: ·)

@[simp] theorem render_nil (sep : α) : render sep [] = [] := rfl

@[simp] theorem render_cons (sep : α) (s : List α) (segs : List (List α)) :
    render sep (s :: segs) = sep :: (s ++ render sep segs) := rfl

@[simp] theorem render_append (sep : α) (p q : List (List α)) :
    render sep (p ++ q) = render sep p ++ render sep q := List.flatMap_append

theorem render_eq_cons (sep : α) {segs : List (List α)} (h : segs ≠ []) :
    ∃ s, render sep segs = sep :: s := by
  cases segs with
  | nil => exact absurd rfl h
  | cons s segs => exact ⟨_, render_cons sep s segs⟩

variable [DecidableEq α] {sep : α} {s : List α} {segs : List (List α)}

theorem notMem_of_mem_splitOn {t : List α} (h : t ∈ s.splitOn sep) : sep ∉ t := by
  induction s generalizing t with
  | nil =>
      obtain rfl := List.mem_singleton.mp h
      exact List.not_mem_nil
  | cons c s ih =>
      rw [List.splitOn_cons_eq_if_modifyHead] at h
      split at h
      · obtain rfl | h := List.mem_cons.mp h
        · exact List.not_mem_nil
        · exact ih h
      · rename_i hc
        cases hs : s.splitOn sep with
        | nil => exact absurd hs (List.splitOn_ne_nil sep s)
        | cons u us =>
            rw [hs] at h ih
            obtain rfl | h := List.mem_cons.mp h
            · have hu := ih List.mem_cons_self
              have hne : sep ≠ c := fun heq => hc (by simp [heq])
              simp [hne, hu]
            · exact ih (List.mem_cons_of_mem _ h)

/-- A text behind a separator is made of the segments that it splits into. -/
theorem render_splitOn (sep : α) (s : List α) : render sep (s.splitOn sep) = sep :: s := by
  induction s with
  | nil => simp
  | cons c s ih =>
      rw [List.splitOn_cons_eq_if_modifyHead]
      split
      · rename_i hc
        rw [render_cons, List.nil_append, ih, beq_iff_eq.mp hc]
      · cases hs : s.splitOn sep with
        | nil => exact absurd hs (List.splitOn_ne_nil sep s)
        | cons u us =>
            rw [hs, render_cons, List.cons.injEq] at ih
            rw [List.modifyHead_cons, render_cons, List.cons_append, ih.2]

theorem splitOn_render (h : ∀ t ∈ segs, sep ∉ t) : (render sep segs).splitOn sep = [] :: segs := by
  cases segs with
  | nil => simp
  | cons t segs =>
      induction segs generalizing t with
      | nil =>
          have ht := h t List.mem_cons_self
          rw [render_cons, render_nil, List.append_nil, List.splitOn_cons_eq_if_modifyHead]
          simp [List.splitOn_eq_singleton ht]
      | cons u segs ih =>
          obtain ⟨ht, hsegs⟩ := List.forall_mem_cons.mp h
          have hrest := ih u hsegs
          rw [render_cons, List.splitOn_cons_eq_if_modifyHead, if_pos (by simp)] at hrest ⊢
          rw [render_cons, List.splitOn_append_cons_self_of_not_mem ht, (List.cons.inj hrest).2]

/-- The text without its last segment and the separator in front of it. -/
def pop (sep : α) (s : List α) : List α := ((s.reverse.dropWhile (· != sep)).drop 1).reverse

@[simp] theorem pop_nil (sep : α) : pop sep [] = [] := rfl

theorem pop_render {t : List α} (h : sep ∉ t) : pop sep (render sep (segs ++ [t])) = render sep segs := by
  have hdrop : (t.reverse ++ sep :: (render sep segs).reverse).dropWhile (· != sep) =
      sep :: (render sep segs).reverse := by
    rw [List.dropWhile_append_of_pos fun c hc => ?_]
    · simp
    · simpa using fun hcs : c = sep => h (List.mem_reverse.mp (hcs ▸ hc))
  have hreverse : (render sep (segs ++ [t])).reverse = t.reverse ++ sep :: (render sep segs).reverse := by
    simp
  rw [pop, hreverse, hdrop]
  simp

/-- Two separators stand side by side if and only if a segment that is not the last one is empty. -/
theorem adjacent_iff (h : ∀ t ∈ segs, sep ∉ t) :
    [sep, sep] <:+: render sep segs ↔ [] ∈ segs.dropLast := by
  constructor
  · rintro ⟨a, b, hab⟩
    have hsplit := splitOn_render h
    rw [← hab, List.append_assoc, List.cons_append, List.cons_append, List.nil_append,
      List.splitOn_append_cons_self, List.splitOn_cons_eq_if_modifyHead, if_pos (by simp)] at hsplit
    cases ha : a.splitOn sep with
    | nil => exact absurd ha (List.splitOn_ne_nil sep a)
    | cons u us =>
        rw [ha, List.cons_append] at hsplit
        rw [← (List.cons.inj hsplit).2, List.dropLast_append_of_ne_nil (List.cons_ne_nil _ _),
          List.dropLast_cons_of_ne_nil (List.splitOn_ne_nil sep b)]
        simp
  · intro hmem
    obtain ⟨p, r, hpr⟩ := List.append_of_mem hmem
    have hne : segs ≠ [] := by
      rintro rfl
      cases hmem
    obtain ⟨t, rfl⟩ : ∃ t, segs = p ++ [] :: (r ++ [t]) :=
      ⟨segs.getLast hne, by rw [← List.cons_append, ← List.append_assoc, ← hpr,
        List.dropLast_append_getLast]⟩
    obtain ⟨s, hs⟩ := render_eq_cons sep (List.append_ne_nil_of_right_ne_nil r (List.cons_ne_nil t []))
    refine ⟨render sep p, s, ?_⟩
    rw [render_append, render_cons, hs]
    simp

end Segments
