import EspModemLink.Http.Authority
import EspModemLink.Library.Segments

/-!
# Dot segments

`NormalizePath` beside the rewriting loop of RFC 3986, section 5.2.4. Both are described by what they
do to the segments of a path.
-/

namespace EspModemLink.Http

open Bytes Segments

/-! ## The rewriting loop of RFC 3986 -/

/-- The first segment of the input buffer, with its slash if it has one. -/
def firstSegment : Bytes → Bytes
  | [] => []
  | c :: s => c :: s.takeWhile (· != slash)

/-- One pass of `remove_dot_segments` over its input and its output buffer, steps A to E. -/
def dotPass (input output : Bytes) : Bytes × Bytes :=
  if startsWith input (dotdot ++ [slash]) then (input.drop 3, output)
  else if startsWith input (dot ++ [slash]) then (input.drop 2, output)
  else if startsWith input (slash :: (dot ++ [slash])) then (input.drop 2, output)
  else if input = slash :: dot then ([slash], output)
  else if startsWith input (slash :: (dotdot ++ [slash])) then (input.drop 3, pop slash output)
  else if input = slash :: dotdot then ([slash], pop slash output)
  else if input = dot ∨ input = dotdot then ([], output)
  else (input.drop (firstSegment input).length, output ++ firstSegment input)

/-- At most `fuel` passes. Every pass shortens the input buffer. -/
def removeDotSegmentsFor : ℕ → Bytes → Bytes → Bytes
  | 0, _, output => output
  | fuel + 1, input, output =>
      if input = [] then output
      else removeDotSegmentsFor fuel (dotPass input output).1 (dotPass input output).2

/-- `remove_dot_segments` of RFC 3986, section 5.2.4. -/
def removeDotSegments (path : Bytes) : Bytes := removeDotSegmentsFor path.length path []

/-- The same loop on segments, the kept ones in reverse. A dot segment at the end leaves an empty
segment behind. -/
def rfcSegments (kept : List Bytes) : List Bytes → List Bytes
  | [] => kept
  | [s] => if s = dot then [] :: kept else if s = dotdot then [] :: kept.drop 1 else s :: kept
  | s :: segs =>
      rfcSegments (if s = dot then kept else if s = dotdot then kept.drop 1 else s :: kept) segs

section

variable {s t : Bytes} {segs kept : List Bytes}

theorem startsWith_render (hs : ∀ u ∈ s :: segs, slash ∉ u) (ht : slash ∉ t) :
    startsWith (render slash (s :: segs)) (slash :: (t ++ [slash])) = true ↔ s = t ∧ segs ≠ [] := by
  constructor
  · intro h
    obtain ⟨u, hu⟩ := List.isPrefixOf_iff_prefix.mp h
    have hsplit := splitOn_render hs
    rw [← hu, List.cons_append, List.splitOn_cons_eq_if_modifyHead, if_pos (by simp), List.append_assoc,
      List.singleton_append, List.splitOn_append_cons_self_of_not_mem ht] at hsplit
    obtain ⟨hst, hsegs⟩ := List.cons.inj (List.cons.inj hsplit).2
    exact ⟨hst.symm, hsegs ▸ List.splitOn_ne_nil slash u⟩
  · rintro ⟨rfl, hne⟩
    obtain ⟨u, hu⟩ := render_eq_cons slash hne
    rw [startsWith, List.isPrefixOf_iff_prefix, render_cons, hu]
    exact ⟨u, by simp⟩

theorem render_eq_segment (hs : ∀ u ∈ s :: segs, slash ∉ u) (ht : slash ∉ t) :
    render slash (s :: segs) = slash :: t ↔ s = t ∧ segs = [] := by
  constructor
  · intro h
    have hsplit := splitOn_render hs
    rw [h, List.splitOn_cons_eq_if_modifyHead, if_pos (by simp), List.splitOn_eq_singleton ht] at hsplit
    obtain ⟨hst, hsegs⟩ := List.cons.inj (List.cons.inj hsplit).2
    exact ⟨hst.symm, hsegs.symm⟩
  · rintro ⟨rfl, rfl⟩
    simp

theorem not_startsWith_render (hs : t.head? ≠ some slash) (hne : t ≠ []) :
    startsWith (render slash (s :: segs)) t = false := by
  cases t with
  | nil => exact absurd rfl hne
  | cons c t =>
      have hc : c ≠ slash := fun h => hs (by rw [h]; rfl)
      simp [startsWith, List.isPrefixOf, hc]

theorem firstSegment_render (hs : slash ∉ s) :
    firstSegment (render slash (s :: segs)) = slash :: s := by
  rw [render_cons, firstSegment, List.takeWhile_append_of_pos]
  · cases segs with
    | nil => simp
    | cons t segs => simp
  · intro c hc
    simpa using fun hcs : c = slash => hs (hcs ▸ hc)

/-- One pass takes the first segment off the input. -/
theorem dotPass_render (hs : ∀ u ∈ s :: segs, slash ∉ u) (output : Bytes) :
    dotPass (render slash (s :: segs)) output =
      if s = dot then (render slash (if segs = [] then [[]] else segs), output)
      else if s = dotdot then (render slash (if segs = [] then [[]] else segs), pop slash output)
      else (render slash segs, output ++ slash :: s) := by
  have hdot : slash ∉ dot := by decide
  have hdotdot : slash ∉ dotdot := by decide
  have hfirst := @firstSegment_render s segs (List.forall_mem_cons.mp hs).1
  have hplain : ¬(render slash (s :: segs) = dot ∨ render slash (s :: segs) = dotdot) := by
    simp [dot, dotdot, slash]
  rw [dotPass, if_neg (by rw [not_startsWith_render (by decide) (by decide)]; simp),
    if_neg (by rw [not_startsWith_render (by decide) (by decide)]; simp), if_neg hplain, hfirst]
  simp only [startsWith_render hs hdot, startsWith_render hs hdotdot, render_eq_segment hs hdot,
    render_eq_segment hs hdotdot]
  by_cases h1 : s = dot
  · by_cases hsegs : segs = []
    · simp [h1, hsegs]
    · simp [h1, hsegs, dot]
  · by_cases h2 : s = dotdot
    · by_cases hsegs : segs = []
      · simp [h2, hsegs, dot, dotdot]
      · simp [h2, hsegs, dot, dotdot]
    · simp [h1, h2]

theorem pop_kept (hkept : ∀ u ∈ kept, slash ∉ u) :
    pop slash (render slash kept.reverse) = render slash (kept.drop 1).reverse := by
  cases kept with
  | nil => rfl
  | cons k kept =>
      rw [List.reverse_cons, pop_render (hkept k List.mem_cons_self)]
      rfl

/-- One pass of the loop on segments. -/
theorem rfcSegments_cons (s : Bytes) (segs kept : List Bytes) : rfcSegments kept (s :: segs) =
    if s = dot then rfcSegments kept (if segs = [] then [[]] else segs)
    else if s = dotdot then rfcSegments (kept.drop 1) (if segs = [] then [[]] else segs)
    else rfcSegments (s :: kept) segs := by
  have hdot : ([] : Bytes) ≠ dot := by decide
  have hdotdot : ([] : Bytes) ≠ dotdot := by decide
  cases segs with
  | nil =>
      rw [rfcSegments, if_pos rfl, rfcSegments, rfcSegments, rfcSegments, if_neg hdot, if_neg hdotdot]
      split
      · rfl
      · split <;> rfl
  | cons t segs =>
      rw [rfcSegments, if_neg (List.cons_ne_nil t segs)]
      · split
        · rfl
        · split <;> rfl
      · exact fun h => List.cons_ne_nil t segs h

/-- The loop on bytes does what the loop on segments does. -/
theorem removeDotSegmentsFor_render {fuel : ℕ} (hs : ∀ u ∈ segs, slash ∉ u)
    (hkept : ∀ u ∈ kept, slash ∉ u) (hfuel : (render slash segs).length ≤ fuel) :
    removeDotSegmentsFor fuel (render slash segs) (render slash kept.reverse) =
      render slash (rfcSegments kept segs).reverse := by
  induction fuel generalizing segs kept with
  | zero =>
      cases segs with
      | nil => rfl
      | cons s segs => simp at hfuel
  | succ fuel ih =>
      cases segs with
      | nil => rfl
      | cons s segs =>
          obtain ⟨hhead, htail⟩ := List.forall_mem_cons.mp hs
          have hne : render slash (s :: segs) ≠ [] := List.cons_ne_nil _ _
          have hlength : s.length + (render slash segs).length ≤ fuel := by simpa using hfuel
          have hnext : ∀ u ∈ (if segs = [] then [[]] else segs), slash ∉ u := by
            split
            · simp
            · exact htail
          have hshort : s ≠ [] → (render slash (if segs = [] then [[]] else segs)).length ≤ fuel := by
            intro hnil
            have hpos := List.length_pos_iff.mpr hnil
            split
            · simp
              omega
            · omega
          rw [removeDotSegmentsFor, if_neg hne, dotPass_render hs, rfcSegments_cons]
          split
          · rename_i hdot
            exact ih hnext hkept (hshort (by rw [hdot]; decide))
          · split
            · rename_i hdotdot
              dsimp only
              rw [pop_kept hkept]
              exact ih hnext (fun u hu => hkept u (List.mem_of_mem_drop hu))
                (hshort (by rw [hdotdot]; decide))
            · have hpush := ih htail (List.forall_mem_cons.mpr ⟨hhead, hkept⟩) (by omega)
              rwa [List.reverse_cons, render_append, render_cons, render_nil, List.append_nil] at hpush

/-- A path that begins with a slash, by its segments. -/
theorem removeDotSegments_slash (path : Bytes) : removeDotSegments (slash :: path) =
    render slash (rfcSegments [] (path.splitOn slash)).reverse := by
  rw [removeDotSegments, ← render_splitOn]
  exact @removeDotSegmentsFor_render _ [] _ (fun u hu => notMem_of_mem_splitOn hu) (by simp) le_rfl

/-! ## The loop of `NormalizePath` -/

/-- The last segment of a path. -/
def lastSegment (path : Bytes) : Bytes := (path.splitOn slash).getLastD []

/-- A path names a directory where it ends in a slash or in a dot segment. -/
def NamesDirectory (path : Bytes) : Prop := lastSegment path ∈ [[], dot, dotdot]

instance (path : Bytes) : Decidable (NamesDirectory path) := inferInstanceAs (Decidable (_ ∈ _))

/-- The segments of a directory, and those of the root, end in an empty one. -/
def ended (directory : Prop) [Decidable directory] (segs : List Bytes) : List Bytes :=
  if directory ∨ segs = [] then segs ++ [[]] else segs

/-- Where no segment but the last one is empty, both loops keep the same segments. -/
theorem rfcSegments_eq (hne : segs ≠ []) (hfull : [] ∉ segs.dropLast) (kept : List Bytes) :
    (rfcSegments kept segs).reverse =
      ended (segs.getLastD [] ∈ [[], dot, dotdot]) (segs.foldl pushSegment kept).reverse := by
  induction segs generalizing kept with
  | nil => exact absurd rfl hne
  | cons s segs ih =>
      cases segs with
      | nil =>
          have hdot : dot ≠ dotdot := by decide
          rw [List.foldl_cons, List.foldl_nil, rfcSegments, pushSegment, ended]
          by_cases h1 : s = dot
          · simp [h1, hdot]
          · by_cases h2 : s = dotdot
            · simp [h2, hdot.symm]
            · by_cases h3 : s = []
              · simp [h3, dot, dotdot]
              · simp [h1, h2, h3]
      | cons t segs =>
          rw [List.dropLast_cons_of_ne_nil (List.cons_ne_nil t segs), List.mem_cons, not_or] at hfull
          have hnext := ih (List.cons_ne_nil t segs) hfull.2
          have hlast : (s :: t :: segs).getLastD [] = (t :: segs).getLastD [] := rfl
          rw [hlast, List.foldl_cons, rfcSegments_cons, if_neg (List.cons_ne_nil t segs), pushSegment]
          have hdot : dot ≠ dotdot := by decide
          by_cases h1 : s = dot
          · rw [if_pos h1, if_neg (h1.trans_ne hdot), if_pos (.inl h1)]
            exact hnext kept
          · by_cases h2 : s = dotdot
            · rw [if_neg h1, if_pos h2, if_pos h2]
              exact hnext _
            · rw [if_neg h1, if_neg h2, if_neg h2, if_neg (not_or.mpr ⟨h1, fun h => hfull.1 h.symm⟩)]
              exact hnext _

/-- The loop of `NormalizePath` sees the segments that the path splits into. -/
theorem segmentsLeft_eq (path : Bytes) :
    segmentsLeft path = ((pathPartOf path).splitOn slash).foldl pushSegment [] := by
  have hempty : ∀ kept, pushSegment kept [] = kept := fun kept => by simp [pushSegment, dotdot]
  have hsplit : ∀ fuel (p : Bytes) (kept : List Bytes), p.length < fuel →
      (splitPath fuel p).foldl pushSegment kept = (p.splitOn slash).foldl pushSegment kept := by
    intro fuel
    induction fuel with
    | zero => exact fun p kept h => absurd h (Nat.not_lt_zero _)
    | succ fuel ih =>
        intro p kept hlt
        cases p with
        | nil => simp [splitPath, hempty]
        | cons c p =>
            have hpass : splitPath (fuel + 1) (c :: p) = (c :: p).takeWhile (· != slash) ::
                splitPath fuel ((c :: p).drop (((c :: p).takeWhile (· != slash)).length + 1)) := rfl
            rw [hpass]
            by_cases hmem : slash ∈ c :: p
            · obtain ⟨a, b, hp, ha⟩ := List.eq_append_cons_of_mem hmem
              have hsegment : (a ++ slash :: b).takeWhile (· != slash) = a := by
                rw [List.takeWhile_append_of_pos]
                · simp
                · intro d hd
                  simpa using fun hds : d = slash => ha (hds ▸ hd)
              have hrest : (a ++ slash :: b).drop (a.length + 1) = b := by simp
              have hshort : b.length < fuel := by
                have hlength := congrArg List.length hp
                simp at hlength hlt
                omega
              rw [hp, hsegment, hrest, List.splitOn_append_cons_self_of_not_mem ha, List.foldl_cons,
                List.foldl_cons, ih b _ hshort]
            · have hsegment : (c :: p).takeWhile (· != slash) = c :: p := by
                rw [List.takeWhile_eq_self_iff]
                intro d hd
                simpa using fun hds : d = slash => hmem (hds ▸ hd)
              have hrest : (c :: p).drop ((c :: p).length + 1) = [] := by simp
              rw [hsegment, hrest, List.splitOn_eq_singleton hmem]
              cases fuel <;> rfl
  exact hsplit _ _ _ (Nat.lt_succ_self _)

theorem lastSegment_eq {path : Bytes} (h : slash ∉ path) : lastSegment path = path := by
  rw [lastSegment, List.splitOn_eq_singleton h]
  rfl

theorem lastSegment_cut (a : Bytes) {l : Bytes} (h : slash ∉ l) : lastSegment (a ++ slash :: l) = l := by
  rw [lastSegment, List.splitOn_append_cons_self, List.splitOn_eq_singleton h]
  simp

/-- What `NormalizePath` takes for a directory. -/
theorem namesDirectory_iff {path : Bytes} (hne : path ≠ []) :
    (path.getLast? == some slash || path == dot || path == dotdot ||
      endsWith path (slash :: dot) || endsWith path (slash :: dotdot)) = true ↔ NamesDirectory path := by
  have hdot : slash ∉ dot := by decide
  have hdotdot : slash ∉ dotdot := by decide
  by_cases hmem : slash ∈ path
  · obtain ⟨i, hi⟩ := Option.ne_none_iff_exists'.mp (mt rfindByte_eq_none.mp (not_not.mpr hmem))
    obtain ⟨hlast, hcut⟩ := rfindByte_cut hi
    generalize path.take i = a at hcut
    generalize path.drop (i + 1) = l at hcut hlast
    subst hcut
    have hsuffix : ∀ t, slash ∉ t → (endsWith (a ++ slash :: l) (slash :: t) = true ↔ l = t) := by
      intro t ht
      rw [endsWith, List.isSuffixOf_iff_suffix]
      constructor
      · rintro ⟨u, hu⟩
        have hsplit := congrArg (List.splitOn slash) hu
        rw [List.splitOn_append_cons_self, List.splitOn_append_cons_self, List.splitOn_eq_singleton ht,
          List.splitOn_eq_singleton hlast] at hsplit
        exact (List.singleton_inj.mp (List.append_inj_right' hsplit rfl)).symm
      · rintro rfl
        exact ⟨a, rfl⟩
    have hend : (a ++ slash :: l).getLast? = some slash ↔ l = [] := by
      constructor
      · intro h
        by_contra hl
        rw [List.getLast?_append_of_ne_nil _ (List.cons_ne_nil slash l),
          List.getLast?_cons_of_ne_nil hl] at h
        exact hlast (List.mem_of_getLast? h)
      · rintro rfl
        simp
    have hwhole : ∀ t, slash ∉ t → a ++ slash :: l ≠ t := fun t ht h => ht (h ▸ by simp)
    rw [NamesDirectory, lastSegment_cut a hlast]
    simp only [Bool.or_eq_true, beq_iff_eq, hend, hsuffix dot hdot, hsuffix dotdot hdotdot,
      hwhole dot hdot, hwhole dotdot hdotdot, or_false, List.mem_cons, List.not_mem_nil]
    exact or_assoc
  · have hend : path.getLast? ≠ some slash := fun h => hmem (List.mem_of_getLast? h)
    have hsuffix : ∀ t, endsWith path (slash :: t) ≠ true := fun t h =>
      hmem ((List.isSuffixOf_iff_suffix.mp h).subset List.mem_cons_self)
    rw [NamesDirectory, lastSegment_eq hmem]
    simp only [Bool.or_eq_true, beq_iff_eq, hend, hsuffix, hne, false_or, or_false, List.mem_cons,
      List.not_mem_nil, Bool.false_eq_true]

/-! ## What `NormalizePath` answers -/

/-- A segment that `NormalizePath` keeps. -/
def PlainSegment (s : Bytes) : Prop := s ≠ [] ∧ s ≠ dot ∧ s ≠ dotdot

theorem plain_of_mem_foldl (hkept : ∀ u ∈ kept, PlainSegment u) :
    ∀ u ∈ segs.foldl pushSegment kept, PlainSegment u := by
  induction segs generalizing kept with
  | nil => exact hkept
  | cons t segs ih =>
      refine ih fun u hu => ?_
      rw [pushSegment] at hu
      split at hu
      · exact hkept u (List.mem_of_mem_drop hu)
      · rename_i hdotdot
        split at hu
        · exact hkept u hu
        · rename_i hskip
          obtain rfl | hu := List.mem_cons.mp hu
          · exact ⟨fun h => hskip (.inr h), fun h => hskip (.inl h), hdotdot⟩
          · exact hkept u hu

/-- Plain segments are all kept. -/
theorem foldl_pushSegment_plain (h : ∀ u ∈ segs, PlainSegment u) :
    segs.foldl pushSegment kept = segs.reverse ++ kept := by
  induction segs generalizing kept with
  | nil => rfl
  | cons t segs ih =>
      obtain ⟨⟨hnil, hdot, hdotdot⟩, hsegs⟩ := List.forall_mem_cons.mp h
      rw [List.foldl_cons, pushSegment, if_neg hdotdot, if_neg (not_or.mpr ⟨hdot, hnil⟩), ih hsegs]
      simp

/-- The segments that `NormalizePath` answers, in order. -/
def segmentsKept (path : Bytes) : List Bytes := (segmentsLeft path).reverse

theorem segmentsKept_plain (path : Bytes) : ∀ u ∈ segmentsKept path, PlainSegment u := by
  intro u hu
  rw [segmentsKept, segmentsLeft_eq, List.mem_reverse] at hu
  exact plain_of_mem_foldl (by simp) u hu

theorem segmentsKept_bytes (path : Bytes) :
    ∀ u ∈ segmentsKept path, slash ∉ u ∧ question ∉ u := by
  intro u hu
  rw [segmentsKept, List.mem_reverse] at hu
  have hkept := hu
  rw [segmentsLeft_eq] at hkept
  obtain hnil | hsplit := mem_foldl_pushSegment hkept
  · cases hnil
  · refine ⟨notMem_of_mem_splitOn hsplit, fun hq => ?_⟩
    obtain hnil | hsplit := mem_foldl_pushSegment hu
    · cases hnil
    · exact notMem_upTo_findByte question path (mem_splitPath hsplit hq)

theorem joinSegments_render (hne : segs ≠ []) : slash :: joinSegments segs = render slash segs := by
  induction segs with
  | nil => exact absurd rfl hne
  | cons t segs ih =>
      cases segs with
      | nil => simp [joinSegments]
      | cons u segs =>
          have hjoin : joinSegments (t :: u :: segs) = t ++ slash :: joinSegments (u :: segs) := rfl
          rw [hjoin, ih (List.cons_ne_nil u segs)]
          rfl

/-- The answer of `NormalizePath`, by its segments. -/
theorem normalizePath_render (path : Bytes) : normalizePath path =
    render slash (ended (NamesDirectory (pathPartOf path)) (segmentsKept path)) ++ queryOf path := by
  have hfold : normalizePath path =
      (if pathPartOf path ≠ [] ∧ 1 < (slash :: joinSegments (segmentsKept path)).length ∧
          ((pathPartOf path).getLast? == some slash || pathPartOf path == dot ||
            pathPartOf path == dotdot || endsWith (pathPartOf path) (slash :: dot) ||
            endsWith (pathPartOf path) (slash :: dotdot)) = true
        then slash :: joinSegments (segmentsKept path) ++ [slash]
        else slash :: joinSegments (segmentsKept path)) ++ queryOf path := rfl
  rw [hfold, ended]
  congr 1
  by_cases hroot : segmentsKept path = []
  · rw [if_neg (by simp [hroot, joinSegments]), if_pos (.inr hroot), hroot]
    rfl
  · have hne : pathPartOf path ≠ [] := by
      intro hnil
      refine hroot ?_
      rw [segmentsKept, segmentsLeft, hnil]
      rfl
    have hlong : 1 < (slash :: joinSegments (segmentsKept path)).length := by
      rw [joinSegments_render hroot]
      obtain ⟨u, us, hus⟩ := List.exists_cons_of_ne_nil hroot
      have hu := (segmentsKept_plain path u (hus ▸ List.mem_cons_self)).1
      have hpos := List.length_pos_iff.mpr hu
      rw [hus, render_cons, List.length_cons, List.length_append]
      omega
    have hiff := namesDirectory_iff hne
    by_cases hdirectory : NamesDirectory (pathPartOf path)
    · rw [if_pos ⟨hne, hlong, hiff.mpr hdirectory⟩, if_pos (.inl hdirectory),
        joinSegments_render hroot, render_append]
      rfl
    · rw [if_neg (fun h => hdirectory (hiff.mp h.2.2)), if_neg (not_or.mpr ⟨hdirectory, hroot⟩),
        joinSegments_render hroot]

theorem pathPartOf_append {p q : Bytes} (hp : question ∉ p) (hq : q = [] ∨ q.head? = some question) :
    pathPartOf (p ++ q) = p ∧ queryOf (p ++ q) = q := by
  obtain rfl | hq := hq
  · rw [List.append_nil, pathPartOf, queryOf, findByte_eq_none.mpr hp]
    exact ⟨rfl, rfl⟩
  · cases q with
    | nil => cases hq
    | cons c q =>
        obtain rfl := Option.some.inj hq
        rw [pathPartOf, queryOf, findByte_append q hp]
        exact ⟨List.take_left, List.drop_left⟩

theorem queryOf_begins (path : Bytes) : queryOf path = [] ∨ (queryOf path).head? = some question := by
  rw [queryOf]
  cases h : findByte question path with
  | none => exact .inl rfl
  | some q => exact .inr (by rw [List.head?_drop, getElem?_of_findByte h])

theorem ended_congr {p q : Prop} [Decidable p] [Decidable q] (h : p ∨ segs = [] ↔ q ∨ segs = []) :
    ended p segs = ended q segs := by
  rw [ended, ended]
  exact if_congr h rfl rfl

theorem mem_ended {directory : Prop} [Decidable directory] (h : t ∈ ended directory segs) :
    t = [] ∨ t ∈ segs := by
  rw [ended] at h
  split at h
  · obtain h | h := List.mem_append.mp h
    · exact .inr h
    · exact .inl (List.mem_singleton.mp h)
  · exact .inr h

theorem ended_ne_nil (directory : Prop) [Decidable directory] (segs : List Bytes) :
    ended directory segs ≠ [] := by
  rw [ended]
  split
  · simp
  · rename_i h
    exact fun hnil => h (.inr hnil)

/-- The path part and the query of the answer. -/
theorem normalizePath_parts (path : Bytes) :
    pathPartOf (normalizePath path) =
        render slash (ended (NamesDirectory (pathPartOf path)) (segmentsKept path)) ∧
      queryOf (normalizePath path) = queryOf path := by
  rw [normalizePath_render]
  refine pathPartOf_append (fun hq => ?_) (queryOf_begins path)
  obtain ⟨u, hu, hq⟩ := List.mem_flatMap.mp hq
  obtain hslash | hq := List.mem_cons.mp hq
  · exact absurd hslash (by decide)
  · obtain rfl | hu := mem_ended hu
    · cases hq
    · exact (segmentsKept_bytes path u hu).2 hq

/-- The segments of the answer hold no slash. -/
theorem notMem_ended (path : Bytes) :
    ∀ u ∈ ended (NamesDirectory (pathPartOf path)) (segmentsKept path), slash ∉ u := by
  intro u hu
  obtain rfl | hu := mem_ended hu
  · exact List.not_mem_nil
  · exact (segmentsKept_bytes path u hu).1

/-- The answer splits into the segments it is made of. -/
theorem splitOn_normalizePath (path : Bytes) :
    (pathPartOf (normalizePath path)).splitOn slash =
      [] :: ended (NamesDirectory (pathPartOf path)) (segmentsKept path) := by
  rw [(normalizePath_parts path).1]
  exact splitOn_render (notMem_ended path)

theorem normalizePath_idempotent (path : Bytes) :
    normalizePath (normalizePath path) = normalizePath path := by
  obtain ⟨hpart, hquery⟩ := normalizePath_parts path
  have hkept : segmentsKept (normalizePath path) = segmentsKept path := by
    rw [segmentsKept, segmentsLeft_eq, splitOn_normalizePath, ended]
    have hempty : pushSegment [] [] = [] := rfl
    have hplain := @foldl_pushSegment_plain _ [] (segmentsKept_plain path)
    rw [List.foldl_cons, hempty]
    split
    · rw [List.foldl_append, hplain]
      simp [pushSegment, dotdot]
    · rw [hplain]
      simp
  have hended : ended (NamesDirectory (pathPartOf (normalizePath path))) (segmentsKept path) =
      ended (NamesDirectory (pathPartOf path)) (segmentsKept path) := by
    have hlast : lastSegment (pathPartOf (normalizePath path)) =
        (ended (NamesDirectory (pathPartOf path)) (segmentsKept path)).getLastD [] := by
      rw [lastSegment, splitOn_normalizePath, List.getLastD_cons]
    refine ended_congr ?_
    by_cases hend : NamesDirectory (pathPartOf path) ∨ segmentsKept path = []
    · rw [ended, if_pos hend] at hlast
      refine iff_of_true (.inl ?_) hend
      rw [NamesDirectory, hlast]
      simp
    · obtain ⟨hdirectory, hroot⟩ := not_or.mp hend
      obtain ⟨hne, hdot, hdotdot⟩ := segmentsKept_plain path _ (List.getLast_mem hroot)
      rw [ended, if_neg hend, List.getLastD_eq_getLast?, List.getLast?_eq_some_getLast hroot,
        Option.getD_some] at hlast
      refine iff_of_false (not_or.mpr ⟨?_, hroot⟩) hend
      rw [NamesDirectory, hlast]
      simp [hne, hdot, hdotdot]
  calc normalizePath (normalizePath path)
      = render slash (ended (NamesDirectory (pathPartOf (normalizePath path)))
          (segmentsKept (normalizePath path))) ++ queryOf (normalizePath path) :=
        normalizePath_render _
    _ = render slash (ended (NamesDirectory (pathPartOf path)) (segmentsKept path)) ++
          queryOf path := by rw [hkept, hended, hquery]
    _ = normalizePath path := (normalizePath_render path).symm

theorem pathPartOf_append_queryOf (path : Bytes) : pathPartOf path ++ queryOf path = path := by
  rw [pathPartOf, queryOf]
  cases findByte question path with
  | none => exact List.append_nil path
  | some q => exact List.take_append_drop q path

theorem pathPartOf_slash {path : Bytes} (h : path.head? = some slash) :
    ∃ rest, pathPartOf path = slash :: rest := by
  have hwhole := pathPartOf_append_queryOf path
  cases hp : pathPartOf path with
  | nil =>
      rw [hp, List.nil_append] at hwhole
      obtain hnil | hquestion := queryOf_begins path
      · rw [← hwhole, hnil] at h
        cases h
      · rw [hwhole, h] at hquestion
        exact absurd (Option.some.inj hquestion) (by decide)
  | cons c rest =>
      rw [← hwhole, hp] at h
      exact ⟨rest, by rw [Option.some.inj h]⟩

/-- Behind a slash and without empty segments in between, `NormalizePath` removes dot segments as the
RFC does. -/
theorem normalizePath_eq_rfc {path : Bytes} (hslash : path.head? = some slash)
    (hfull : ¬[slash, slash] <:+: pathPartOf path) :
    normalizePath path = removeDotSegments (pathPartOf path) ++ queryOf path := by
  obtain ⟨rest, hrest⟩ := pathPartOf_slash hslash
  have hsplit : (slash :: rest).splitOn slash = [] :: rest.splitOn slash := by
    rw [List.splitOn_cons_eq_if_modifyHead, if_pos (by simp)]
  have hlast : lastSegment (slash :: rest) = (rest.splitOn slash).getLastD [] := by
    rw [lastSegment, hsplit, List.getLastD_cons]
  have hkept : segmentsKept path = ((rest.splitOn slash).foldl pushSegment []).reverse := by
    have hempty : pushSegment [] [] = [] := rfl
    rw [segmentsKept, segmentsLeft_eq, hrest, hsplit, List.foldl_cons, hempty]
  have hinner : [] ∉ (rest.splitOn slash).dropLast := by
    have hiff := adjacent_iff fun u (hu : u ∈ rest.splitOn slash) => notMem_of_mem_splitOn hu
    rw [← hiff, render_splitOn, ← hrest]
    exact hfull
  rw [normalizePath_render, hkept, hrest, removeDotSegments_slash,
    rfcSegments_eq (List.splitOn_ne_nil slash rest) hinner]
  simp only [NamesDirectory, hlast]

end

/-- What holds of every answer of `NormalizePath`. -/
structure Normalized (path normalized : Bytes) : Prop where
  begins : normalized.head? = some slash
  noDots : ∀ s ∈ (pathPartOf normalized).splitOn slash, s ≠ dot ∧ s ≠ dotdot
  directory : NamesDirectory (pathPartOf path) → (pathPartOf normalized).getLast? = some slash
  query : queryOf normalized = queryOf path
  idempotent : normalizePath normalized = normalized

/-- `NormalizePath` agrees with the RFC on every path without empty segments in between, and answers a
normalized path whatever it is given. -/
theorem normalizePath_correct (path : Bytes) :
    (path.head? = some slash ∧ ¬[slash, slash] <:+: pathPartOf path →
      normalizePath path = removeDotSegments (pathPartOf path) ++ queryOf path) ∧
    Normalized path (normalizePath path) := by
  obtain ⟨hpart, hquery⟩ := normalizePath_parts path
  refine ⟨fun h => normalizePath_eq_rfc h.1 h.2, ?_, ?_, ?_, hquery, normalizePath_idempotent path⟩
  · obtain ⟨u, hu⟩ := render_eq_cons slash
      (ended_ne_nil (NamesDirectory (pathPartOf path)) (segmentsKept path))
    rw [normalizePath_render, hu]
    rfl
  · intro s hs
    rw [splitOn_normalizePath] at hs
    have hempty : ([] : Bytes) ≠ dot ∧ ([] : Bytes) ≠ dotdot := by decide
    obtain rfl | hs := List.mem_cons.mp hs
    · exact hempty
    · obtain rfl | hs := mem_ended hs
      · exact hempty
      · exact (segmentsKept_plain path s hs).2
  · intro hdirectory
    rw [hpart, ended, if_pos (.inl hdirectory), render_append]
    simp

/-- "/a/../b/.?c/../d". -/
def dotted : Bytes :=
  ascii ['/', 'a', '/', '.', '.', '/', 'b', '/', '.', '?', 'c', '/', '.', '.', '/', 'd']

theorem normalizePath_correct_dotted :
    normalizePath dotted = removeDotSegments (pathPartOf dotted) ++ queryOf dotted :=
  (normalizePath_correct dotted).1 (by decide)

/-! ## A Location that needs no rewriting -/

section

variable {segs kept : List Bytes}

theorem rfcSegments_noDots (h : ∀ s ∈ segs, s ≠ dot ∧ s ≠ dotdot) :
    rfcSegments kept segs = segs.reverse ++ kept := by
  induction segs generalizing kept with
  | nil => rfl
  | cons s segs ih =>
      obtain ⟨⟨hdot, hdotdot⟩, hsegs⟩ := List.forall_mem_cons.mp h
      rw [rfcSegments_cons, if_neg hdot, if_neg hdotdot, ih hsegs]
      simp

theorem ended_inner {directory : Prop} [Decidable directory] (h : [] ∉ segs) :
    [] ∉ (ended directory segs).dropLast := by
  rw [ended]
  split
  · rwa [List.dropLast_concat]
  · exact fun hmem => h (List.mem_of_mem_dropLast hmem)

/-- A path without dot segments is left alone if and only if it has no empty segments in between. -/
theorem normalizePath_eq_self_iff {path : Bytes} (hslash : path.head? = some slash)
    (hdots : ∀ s ∈ (pathPartOf path).splitOn slash, s ≠ dot ∧ s ≠ dotdot) :
    normalizePath path = path ↔ ¬[slash, slash] <:+: pathPartOf path := by
  constructor
  · intro h
    rw [← h, (normalizePath_parts path).1, adjacent_iff (notMem_ended path)]
    exact ended_inner fun hnil => (segmentsKept_plain path [] hnil).1 rfl
  · intro hfull
    obtain ⟨rest, hrest⟩ := pathPartOf_slash hslash
    rw [hrest, List.splitOn_cons_eq_if_modifyHead, if_pos (by simp)] at hdots
    have hkept : removeDotSegments (pathPartOf path) = pathPartOf path := by
      rw [hrest, removeDotSegments_slash,
        rfcSegments_noDots fun s hs => hdots s (List.mem_cons_of_mem _ hs), List.append_nil,
        List.reverse_reverse, render_splitOn]
    rw [normalizePath_eq_rfc hslash hfull, hkept, pathPartOf_append_queryOf]

end

/-- A Location that begins with a single slash and has neither a fragment nor dot segments is
requested as it was sent if and only if its path has no two slashes side by side. -/
theorem requestedAsSent_iff {original location : Bytes} {source : ParsedUrl}
    (hsource : parseUrl original = .ok source) (hhost : at' ∉ source.host ∧ colon ∉ source.host)
    (hslash : location.head? = some slash) (hsingle : startsWith location [slash, slash] = false)
    (hfragment : hash ∉ location)
    (hdots : ∀ s ∈ (pathPartOf location).splitOn slash, s ≠ dot ∧ s ≠ dotdot) :
    (∃ url, resolveRedirect source location = .ok url ∧ url.path = location) ↔
      ¬[slash, slash] <:+: pathPartOf location := by
  have hwhole : withoutFragment location = location := by
    rw [withoutFragment, findByte_eq_none.mpr hfragment]
    rfl
  have hrelative : IsRelative (withoutFragment location) := by
    rw [hwhole]
    cases location with
    | nil => cases hslash
    | cons c rest =>
        obtain rfl := Option.some.inj hslash
        have hfirst : findFirstOf slash question (slash :: rest) = some 0 := by
          simp [findFirstOf, List.findIdx?_cons]
        refine ⟨List.cons_ne_nil _ _, rfl, rfl, hsingle, ?_⟩
        rw [hfirst]
        exact List.not_mem_nil
  have hresolved : resolvePath source location = location := by
    have hquestion : location.head? ≠ some question := by
      rw [hslash]
      decide
    unfold resolvePath
    dsimp only
    rw [if_neg hquestion, if_pos hslash]
  rw [← normalizePath_eq_self_iff hslash hdots]
  obtain ⟨hne, hport⟩ := parseUrl_wellFormed hsource
  obtain ⟨a, ha, hsame, hsays⟩ := exists_written hport ⟨hhost.1, fun _ => hhost.2⟩
  constructor
  · rintro ⟨url, hurl, hpath⟩
    have hread := ((resolveRedirect_relative hsource hrelative a ha).mp hurl).2.2.2.1
    rwa [hwhole, hresolved, hpath, eq_comm] at hread
  · intro h
    refine ⟨{ source with path := location },
      (resolveRedirect_relative hsource hrelative a ha).mpr ?_, rfl⟩
    rw [hwhole, hresolved, h]
    exact ⟨rfl, hsame.symm, hsays, rfl, hne⟩

/-- The base "http://h/" and the Location "/b?c//d". -/
theorem requestedAsSent_iff_query :
    (∃ url, resolveRedirect ⟨false, [104], 80, [slash]⟩ [slash, 98, question, 99, slash, slash, 100] =
        .ok url ∧ url.path = [slash, 98, question, 99, slash, slash, 100]) ↔
      ¬[slash, slash] <:+: pathPartOf [slash, 98, question, 99, slash, slash, 100] := by
  have hsource : parseUrl (httpScheme ++ [104, slash]) = .ok ⟨false, [104], 80, [slash]⟩ := rfl
  exact requestedAsSent_iff hsource (by decide) rfl rfl (by decide) (by decide)

/-- "/a//b" is requested as "/a/b", "http://h/a//b" as it is. -/
theorem emptySegment_lost :
    parseUrl (httpScheme ++ [104, slash]) = .ok ⟨false, [104], 80, [slash]⟩ ∧
      resolveRedirect ⟨false, [104], 80, [slash]⟩ [slash, 97, slash, slash, 98] =
        .ok ⟨false, [104], 80, [slash, 97, slash, 98]⟩ ∧
      [slash, 97, slash, 98] ≠ [slash, 97, slash, slash, 98] ∧
      resolveRedirect ⟨false, [104], 80, [slash]⟩
          (httpScheme ++ [104] ++ [slash, 97, slash, slash, 98]) =
        .ok ⟨false, [104], 80, [slash, 97, slash, slash, 98]⟩ :=
  ⟨rfl, rfl, by decide, rfl⟩

end EspModemLink.Http
