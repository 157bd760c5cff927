import Mathlib.Data.List.Nodup

/-!
# Lists of named entries

Entries stand in the order in which they were set. Two names are the same when `norm` makes them
the same, so that a name set again in another spelling keeps its place and its first spelling.
-/

namespace Named

variable {α β ν : Type*} (norm : α → ν)

/-- The names of the entries, without their spellings. -/
def names (entries : List (α × β)) : List ν := entries.map fun e => norm e.1

variable [DecidableEq ν]

/-- Set the entry of a name, or put a new one at the end. -/
def set (key : α) (value : β) : List (α × β) → List (α × β)
  | [] => [(key, value)]
  | (k, v) :: entries =>
      if norm k = norm key then (k, value) :: entries else (k, v) :: set key value entries

/-- Remove the entries of a name. -/
def remove (key : α) (entries : List (α × β)) : List (α × β) :=
  entries.filter fun e => norm e.1 ≠ norm key

/-- Set the entries of a list one after the other. -/
def setAll (more entries : List (α × β)) : List (α × β) :=
  more.foldl (fun es e => set norm e.1 e.2 es) entries

variable {norm} {key : α} {value : β} {entries : List (α × β)} {f : α × β}

omit [DecidableEq ν] in
theorem mem_names {n : ν} : n ∈ names norm entries ↔ ∃ e ∈ entries, norm e.1 = n := List.mem_map

omit [DecidableEq ν] in
theorem name_mem_names (h : f ∈ entries) : norm f.1 ∈ names norm entries :=
  mem_names.mpr ⟨f, h, rfl⟩

/-- Setting an entry adds its name at most. -/
theorem names_set : names norm (set norm key value entries) =
    if norm key ∈ names norm entries then names norm entries
    else names norm entries ++ [norm key] := by
  induction entries with
  | nil => simp [names, set]
  | cons e entries ih =>
      obtain ⟨k, v⟩ := e
      by_cases hk : norm k = norm key
      · simp [names, set, hk]
      · have hcons : names norm (set norm key value ((k, v) :: entries)) =
            norm k :: names norm (set norm key value entries) := by
          rw [set, if_neg hk]
          rfl
        have hmem : norm key ∈ names norm ((k, v) :: entries) ↔ norm key ∈ names norm entries := by
          simp [names, Ne.symm hk]
        rw [hcons, ih]
        simp only [hmem]
        split <;> rfl

theorem mem_names_set {n : ν} :
    n ∈ names norm (set norm key value entries) ↔ n = norm key ∨ n ∈ names norm entries := by
  rw [names_set]
  split
  · rename_i hkey
    exact ⟨.inr, fun h => h.elim (fun hn => hn ▸ hkey) id⟩
  · rw [List.mem_append, List.mem_singleton, or_comm]

theorem nodup_set (h : (names norm entries).Nodup) :
    (names norm (set norm key value entries)).Nodup := by
  rw [names_set]
  split
  · exact h
  · rename_i hkey
    apply List.Nodup.append h (List.nodup_singleton _)
    rw [List.disjoint_singleton]
    exact hkey

theorem names_remove : names norm (remove norm key entries) =
    (names norm entries).filter fun n => n ≠ norm key := by
  rw [names, remove, names, List.filter_map]
  rfl

theorem nodup_remove (h : (names norm entries).Nodup) :
    (names norm (remove norm key entries)).Nodup := by
  rw [names_remove]
  exact h.filter _

/-- An entry of the name that was set has the value that was set. -/
theorem value_of_mem_set (hnodup : (names norm entries).Nodup)
    (h : f ∈ set norm key value entries) (hname : norm f.1 = norm key) : f.2 = value := by
  induction entries with
  | nil => exact (Prod.mk.inj (List.mem_singleton.mp h)).2
  | cons e entries ih =>
      obtain ⟨k, v⟩ := e
      obtain ⟨hk, hrest⟩ := List.nodup_cons.mp hnodup
      by_cases hkey : norm k = norm key
      · rw [set, if_pos hkey] at h
        obtain rfl | h := List.mem_cons.mp h
        · rfl
        · have hmem : norm f.1 ∈ names norm entries := name_mem_names h
          rw [hname, ← hkey] at hmem
          exact absurd hmem hk
      · rw [set, if_neg hkey] at h
        obtain rfl | h := List.mem_cons.mp h
        · exact absurd hname hkey
        · exact ih hrest h

/-- The entry that was set is there. -/
theorem exists_mem_set (key : α) (value : β) (entries : List (α × β)) :
    ∃ f ∈ set norm key value entries, norm f.1 = norm key ∧ f.2 = value := by
  induction entries with
  | nil => exact ⟨(key, value), List.mem_singleton.mpr rfl, rfl, rfl⟩
  | cons e entries ih =>
      rw [set]
      split
      · rename_i hkey
        exact ⟨(e.1, value), List.mem_cons_self, hkey, rfl⟩
      · obtain ⟨f, hf, hname, hvalue⟩ := ih
        exact ⟨f, List.mem_cons_of_mem _ hf, hname, hvalue⟩

/-! ## Setting several entries -/

theorem setAll_cons (e : α × β) (more entries : List (α × β)) :
    setAll norm (e :: more) entries = setAll norm more (set norm e.1 e.2 entries) := rfl

theorem nodup_setAll {more : List (α × β)} (h : (names norm entries).Nodup) :
    (names norm (setAll norm more entries)).Nodup := by
  induction more generalizing entries with
  | nil => exact h
  | cons e more ih => exact ih (nodup_set h)

theorem mem_names_setAll {more : List (α × β)} {n : ν} :
    n ∈ names norm (setAll norm more entries) ↔ n ∈ names norm more ∨ n ∈ names norm entries := by
  induction more generalizing entries with
  | nil => simp [setAll, names]
  | cons e more ih =>
      rw [setAll_cons, ih, mem_names_set]
      simp only [names, List.map_cons, List.mem_cons]
      tauto

/-! ## Looking up -/

variable (norm) in
/-- The value under a name, that of the first entry. -/
def lookup (n : ν) (entries : List (α × β)) : Option β :=
  (entries.find? fun e => norm e.1 = n).map Prod.snd

theorem lookup_cons (n : ν) (e : α × β) (entries : List (α × β)) :
    lookup norm n (e :: entries) = if norm e.1 = n then some e.2 else lookup norm n entries := by
  unfold lookup
  rw [List.find?_cons]
  split
  · rename_i h
    rw [if_pos (of_decide_eq_true h)]
    rfl
  · rename_i h
    rw [if_neg (of_decide_eq_false h)]

/-- Setting an entry gives its name the value, and leaves the other names. -/
theorem lookup_set (n : ν) (key : α) (value : β) (entries : List (α × β)) :
    lookup norm n (set norm key value entries) =
      if norm key = n then some value else lookup norm n entries := by
  induction entries with
  | nil => rw [set, lookup_cons]
  | cons e entries ih =>
      obtain ⟨k, v⟩ := e
      rw [set]
      split
      · rename_i hkey
        rw [lookup_cons, lookup_cons, hkey]
        split <;> rfl
      · rename_i hkey
        rw [lookup_cons, lookup_cons, ih]
        by_cases hk : norm k = n
        · rw [if_pos hk, if_pos hk, if_neg fun h => hkey (hk.trans h.symm)]
        · rw [if_neg hk, if_neg hk]

theorem lookup_remove (n : ν) (key : α) (entries : List (α × β)) :
    lookup norm n (remove norm key entries) =
      if norm key = n then none else lookup norm n entries := by
  induction entries with
  | nil => exact (ite_self _).symm
  | cons e entries ih =>
      rw [remove, List.filter_cons, lookup_cons]
      split
      · rename_i hkeep
        have hkeep := of_decide_eq_true hkeep
        rw [lookup_cons, show lookup norm n (entries.filter fun e => norm e.1 ≠ norm key) = _ from ih]
        by_cases he : norm e.1 = n
        · rw [if_pos he, if_pos he, if_neg fun h => hkeep (he.trans h.symm)]
        · rw [if_neg he, if_neg he]
      · rename_i hdrop
        have hdrop : norm e.1 = norm key := by simpa using hdrop
        rw [show lookup norm n (entries.filter fun e => norm e.1 ≠ norm key) = _ from ih, hdrop]
        split <;> rfl

/-- Among entries that are set one after the other, the last of a name counts. -/
theorem lookup_setAll (n : ν) (more entries : List (α × β)) :
    lookup norm n (setAll norm more entries) =
      (lookup norm n more.reverse).or (lookup norm n entries) := by
  induction more generalizing entries with
  | nil => rfl
  | cons e more ih =>
      rw [setAll_cons, ih, lookup_set, List.reverse_cons]
      unfold lookup
      rw [List.find?_append]
      cases hmore : more.reverse.find? fun e => norm e.1 = n with
      | some f => rfl
      | none =>
          by_cases he : norm e.1 = n
          · simp [he]
          · simp [he]

theorem lookup_map (n : ν) (g : β → β) (entries : List (α × β)) :
    lookup norm n (entries.map fun e => (e.1, g e.2)) = (lookup norm n entries).map g := by
  induction entries with
  | nil => rfl
  | cons e entries ih =>
      rw [List.map_cons, lookup_cons, lookup_cons, ih]
      split <;> rfl

theorem mem_names_iff_lookup {n : ν} : n ∈ names norm entries ↔ lookup norm n entries ≠ none := by
  rw [mem_names]
  unfold lookup
  rw [Ne, Option.map_eq_none_iff, List.find?_eq_none]
  simp

end Named
