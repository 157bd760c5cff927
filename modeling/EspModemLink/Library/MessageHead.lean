import Mathlib.Data.List.TakeWhile

/-!
# Message heads

A start line, lines that each name a field and give it a value, and a blank line. A head that is
written is read back as it was, exactly if nothing in it ends a line or a name before its time.
-/

namespace MessageHead

/-- What a head is structured by. Blanks around a value do not belong to it. -/
structure Marks (α : Type*) where
  cr : α
  lf : α
  colon : α
  space : α
  blank : α → Bool
  cr_ne_lf : cr ≠ lf
  colon_ne_lf : colon ≠ lf
  space_ne_lf : space ≠ lf
  blank_space : blank space = true

structure Head (α : Type*) where
  start : List α
  fields : List (List α × List α)

namespace Marks

section

variable {α : Type*} (k : Marks α)

def lineEnd : List α := [k.cr, k.lf]

def writeField (f : List α × List α) : List α := f.1 ++ [k.colon, k.space] ++ f.2 ++ k.lineEnd

def write (h : Head α) : List α :=
  h.start ++ k.lineEnd ++ h.fields.flatMap k.writeField ++ k.lineEnd

def trim (value : List α) : List α := ((value.dropWhile k.blank).reverse.dropWhile k.blank).reverse

/-- Nothing in a head ends a line, and nothing in a name ends the name. -/
structure Legible (h : Head α) : Prop where
  start : k.lf ∉ h.start
  name : ∀ f ∈ h.fields, k.colon ∉ f.1 ∧ k.lf ∉ f.1
  value : ∀ f ∈ h.fields, k.lf ∉ f.2

end

variable {α : Type*} [DecidableEq α] (k : Marks α)

/-- A carriage return in front of the end of a line belongs to the end. -/
def dropCr (line : List α) : List α := if line.getLast? = some k.cr then line.dropLast else line

/-- The first line, and what is behind it. -/
def readLine (s : List α) : Option (List α × List α) :=
  match s.dropWhile (· ≠ k.lf) with
  | [] => none
  | _ :: rest => some (k.dropCr (s.takeWhile (· ≠ k.lf)), rest)

def readField (line : List α) : Option (List α × List α) :=
  match line.dropWhile (· ≠ k.colon) with
  | [] => none
  | _ :: value => some (line.takeWhile (· ≠ k.colon), k.trim value)

/-- The fields up to the blank line. `fuel` bounds the lines. -/
def readFields : (fuel : ℕ) → List α → Option (List (List α × List α) × List α)
  | 0, _ => none
  | fuel + 1, s => do
      let (line, rest) ← k.readLine s
      if line = [] then return ([], rest)
      let field ← k.readField line
      let (fields, rest) ← readFields fuel rest
      return (field :: fields, rest)

def read (s : List α) : Option (Head α × List α) := do
  let (start, rest) ← k.readLine s
  let (fields, rest) ← k.readFields rest.length rest
  return (⟨start, fields⟩, rest)

/-! ## Lines -/

theorem takeWhile_append_of_not_mem {c : α} {front : List α} (h : c ∉ front) (rest : List α) :
    (front ++ c :: rest).takeWhile (· ≠ c) = front := by
  rw [List.takeWhile_append_of_pos]
  · simp
  · intro d hd
    exact decide_eq_true fun heq => h (heq ▸ hd)

theorem dropWhile_append_of_not_mem {c : α} {front : List α} (h : c ∉ front) (rest : List α) :
    (front ++ c :: rest).dropWhile (· ≠ c) = c :: rest := by
  rw [List.dropWhile_append_of_pos]
  · simp
  · intro d hd
    exact decide_eq_true fun heq => h (heq ▸ hd)

theorem readLine_append {line : List α} (h : k.lf ∉ line) (rest : List α) :
    k.readLine (line ++ k.lineEnd ++ rest) = some (line, rest) := by
  have hcut : line ++ k.lineEnd ++ rest = (line ++ [k.cr]) ++ k.lf :: rest := by
    simp [lineEnd]
  have hline : k.lf ∉ line ++ [k.cr] := by simp [h, k.cr_ne_lf.symm]
  rw [hcut, readLine, takeWhile_append_of_not_mem hline, dropWhile_append_of_not_mem hline]
  simp [dropCr]

/-- Where there is a line, its end is the first end in the text. -/
theorem cut_of_dropWhile {c d : α} {s rest : List α} (h : s.dropWhile (· ≠ c) = d :: rest) :
    s = s.takeWhile (· ≠ c) ++ c :: rest ∧ c ∉ s.takeWhile (· ≠ c) := by
  have hd : d = c := by
    have hhead := List.head?_dropWhile_not (· ≠ c) s
    rw [h] at hhead
    simpa using hhead
  refine ⟨?_, fun hmem => ?_⟩
  · rw [← hd, ← h, hd]
    exact List.takeWhile_append_dropWhile.symm
  · simpa using List.mem_takeWhile_imp hmem

theorem count_of_readLine {s line rest : List α} (h : k.readLine s = some (line, rest)) :
    s.count k.lf = rest.count k.lf + 1 := by
  unfold readLine at h
  split at h
  · cases h
  · rename_i d rest' hcut
    obtain ⟨-, rfl⟩ := Prod.mk.inj (Option.some.inj h)
    obtain ⟨hs, hfront⟩ := cut_of_dropWhile hcut
    rw [hs, List.count_append, List.count_eq_zero_of_not_mem hfront, List.count_cons_self, Nat.zero_add]

theorem colon_of_readField {line : List α} {f : List α × List α} (h : k.readField line = some f) :
    k.colon ∉ f.1 := by
  unfold readField at h
  split at h
  · cases h
  · rename_i d value hcut
    obtain rfl := Option.some.inj h
    exact (cut_of_dropWhile hcut).2

omit [DecidableEq α] in
theorem trim_space (value : List α) : k.trim (k.space :: value) = k.trim value := by
  rw [trim, List.dropWhile_cons_of_pos k.blank_space, trim]

theorem readField_append {name : List α} (h : k.colon ∉ name) (value : List α) :
    k.readField (name ++ [k.colon, k.space] ++ value) = some (name, k.trim value) := by
  have hcut : name ++ [k.colon, k.space] ++ value = name ++ k.colon :: k.space :: value := by simp
  rw [hcut, readField, takeWhile_append_of_not_mem h, dropWhile_append_of_not_mem h]
  exact congrArg (fun v => some (name, v)) (k.trim_space value)

/-! ## Fields -/

theorem readFields_write {fields : List (List α × List α)}
    (hname : ∀ f ∈ fields, k.colon ∉ f.1 ∧ k.lf ∉ f.1) (hvalue : ∀ f ∈ fields, k.lf ∉ f.2)
    {fuel : ℕ} (hfuel : fields.length < fuel) (rest : List α) :
    k.readFields fuel (fields.flatMap k.writeField ++ k.lineEnd ++ rest) =
      some (fields.map fun f => (f.1, k.trim f.2), rest) := by
  induction fields generalizing fuel with
  | nil =>
      obtain ⟨fuel, rfl⟩ := Nat.exists_eq_add_of_lt hfuel
      have hblank := k.readLine_append List.not_mem_nil rest
      rw [List.nil_append] at hblank
      rw [List.length_nil, Nat.zero_add, readFields, List.flatMap_nil, List.nil_append, hblank]
      rfl
  | cons f fields ih =>
      obtain ⟨⟨hcolon, hlf⟩, hname⟩ := List.forall_mem_cons.mp hname
      obtain ⟨hlf', hvalue⟩ := List.forall_mem_cons.mp hvalue
      obtain ⟨fuel, rfl⟩ : ∃ n, fuel = n + 1 := ⟨fuel - 1, by omega⟩
      have hline : k.lf ∉ f.1 ++ [k.colon, k.space] ++ f.2 := by
        simp [hlf, hlf', k.colon_ne_lf.symm, k.space_ne_lf.symm]
      have hcut : (f :: fields).flatMap k.writeField ++ k.lineEnd ++ rest =
          (f.1 ++ [k.colon, k.space] ++ f.2) ++ k.lineEnd ++
            (fields.flatMap k.writeField ++ k.lineEnd ++ rest) := by
        simp [writeField]
      rw [hcut, readFields, k.readLine_append hline]
      simp only [Option.bind_eq_bind, Option.bind_some]
      rw [if_neg (by simp), k.readField_append hcolon, Option.bind_some,
        ih hname hvalue (Nat.lt_of_succ_lt_succ hfuel)]
      rfl

/-- Each field that is read takes a line, and so does the blank line. -/
theorem count_of_readFields {fuel : ℕ} {s rest : List α} {fields : List (List α × List α)}
    (h : k.readFields fuel s = some (fields, rest)) :
    s.count k.lf = rest.count k.lf + (fields.length + 1) ∧ ∀ f ∈ fields, k.colon ∉ f.1 := by
  induction fuel generalizing s rest fields with
  | zero => cases h
  | succ fuel ih =>
      simp only [readFields, Option.bind_eq_bind, Option.bind_eq_some_iff, Prod.exists] at h
      obtain ⟨line, behind, hline, h⟩ := h
      have hcount := k.count_of_readLine hline
      split at h
      · obtain ⟨rfl, rfl⟩ := Prod.mk.inj (Option.some.inj h)
        exact ⟨hcount, fun f hf => absurd hf List.not_mem_nil⟩
      · simp only [Option.bind_eq_some_iff, Prod.exists] at h
        obtain ⟨name, value, hfield, fields', rest', hrest, h⟩ := h
        obtain ⟨rfl, rfl⟩ := Prod.mk.inj (Option.some.inj h)
        obtain ⟨hbehind, hcolon⟩ := ih hrest
        refine ⟨?_, List.forall_mem_cons.mpr ⟨k.colon_of_readField hfield, hcolon⟩⟩
        rw [hcount, hbehind, List.length_cons]
        exact Nat.add_assoc _ _ _

/-! ## Heads -/

omit [DecidableEq α] in
theorem length_le_writeFields (fields : List (List α × List α)) :
    fields.length ≤ (fields.flatMap k.writeField).length := by
  induction fields with
  | nil => exact Nat.le_refl _
  | cons f fields ih =>
      rw [List.flatMap_cons, List.length_append, List.length_cons]
      have hpos : 0 < (k.writeField f).length := by
        simp only [writeField, List.length_append, List.length_cons]
        omega
      omega

/-- A head that is legible is read back, without the blanks around its values. -/
theorem read_write {h : Head α} (hlegible : k.Legible h) (rest : List α) :
    k.read (k.write h ++ rest) =
      some (⟨h.start, h.fields.map fun f => (f.1, k.trim f.2)⟩, rest) := by
  have hcut : k.write h ++ rest = h.start ++ k.lineEnd ++
      (h.fields.flatMap k.writeField ++ k.lineEnd ++ rest) := by
    simp [write]
  have hshort : h.fields.length < (h.fields.flatMap k.writeField ++ k.lineEnd ++ rest).length := by
    have hle := k.length_le_writeFields h.fields
    rw [List.length_append, List.length_append]
    exact Nat.lt_of_le_of_lt hle (by simp only [lineEnd, List.length_cons]; omega)
  rw [hcut, read, k.readLine_append hlegible.start]
  simp only [Option.bind_eq_bind, Option.bind_some]
  rw [k.readFields_write hlegible.name hlegible.value hshort]
  rfl

theorem count_writeFields (fields : List (List α × List α)) :
    (fields.flatMap k.writeField).count k.lf =
      (fields.flatMap fun f => f.1 ++ f.2).count k.lf + fields.length := by
  induction fields with
  | nil => rfl
  | cons f fields ih =>
      have hfield : (k.writeField f).count k.lf = (f.1 ++ f.2).count k.lf + 1 := by
        simp [writeField, lineEnd, k.cr_ne_lf, k.colon_ne_lf, k.space_ne_lf]
        omega
      rw [List.flatMap_cons, List.flatMap_cons, List.count_append, List.count_append, ih, hfield,
        List.length_cons]
      omega

theorem count_write (h : Head α) :
    (k.write h).count k.lf = (h.start ++ h.fields.flatMap fun f => f.1 ++ f.2).count k.lf +
      (h.fields.length + 2) := by
  have hend : k.lineEnd.count k.lf = 1 := by simp [lineEnd, k.cr_ne_lf]
  rw [write, List.count_append, List.count_append, List.count_append, hend, k.count_writeFields,
    List.count_append]
  omega

/-- A head that is read back with as many fields as were written has nothing in it that ends a
line. -/
theorem not_mem_of_read {h g : Head α} {rest : List α}
    (hread : k.read (k.write h ++ rest) = some (g, rest))
    (hlength : g.fields.length = h.fields.length) :
    k.lf ∉ h.start ∧ ∀ f ∈ h.fields, k.lf ∉ f.1 ∧ k.lf ∉ f.2 := by
  simp only [read, Option.bind_eq_bind, Option.bind_eq_some_iff, Prod.exists] at hread
  obtain ⟨line, behind, hline, fields, rest', hfields, h'⟩ := hread
  obtain ⟨rfl, rfl⟩ := Prod.mk.inj (Option.some.inj h')
  have hcount := k.count_of_readLine hline
  rw [List.count_append, k.count_write, (k.count_of_readFields hfields).1] at hcount
  have hzero : (h.start ++ h.fields.flatMap fun f => f.1 ++ f.2).count k.lf = 0 := by
    dsimp only at hlength
    omega
  have hnone := List.count_eq_zero.mp hzero
  rw [List.mem_append, not_or, List.mem_flatMap] at hnone
  refine ⟨hnone.1, fun f hf => ?_⟩
  have hfield : k.lf ∉ f.1 ++ f.2 := fun hmem => hnone.2 ⟨f, hf, hmem⟩
  rw [List.mem_append, not_or] at hfield
  exact hfield

theorem colon_of_read {g : Head α} {s rest : List α} (hread : k.read s = some (g, rest)) :
    ∀ f ∈ g.fields, k.colon ∉ f.1 := by
  simp only [read, Option.bind_eq_bind, Option.bind_eq_some_iff, Prod.exists] at hread
  obtain ⟨line, behind, -, fields, rest', hfields, h⟩ := hread
  obtain ⟨rfl, rfl⟩ := Prod.mk.inj (Option.some.inj h)
  exact (k.count_of_readFields hfields).2

end Marks

end MessageHead
