import EspModemLink.AtParser

/-!
# Joined fields

`SplitCsv` takes a line apart at its commas, and the commas between two quotes belong to the field.
Fields that were joined with commas come back as they were, each without its quotes.
-/

namespace EspModemLink.AtParser

open Bytes

/-- The fields of a command behind its `=`. -/
def commandFields (cmd : Bytes) : List Bytes :=
  match findByte 61 cmd with
  | none => []
  | some sign => splitCsv (cmd.drop (sign + 1))

theorem commandFields_append {name : Bytes} (h : 61 ∉ name) (arguments : Bytes) :
    commandFields (name ++ 61 :: arguments) = splitCsv arguments := by
  have hdrop : (name ++ 61 :: arguments).drop (name.length + 1) = arguments := by
    rw [List.drop_append, Nat.add_sub_cancel_left, List.drop_eq_nil_of_le (Nat.le_succ _)]
    rfl
  rw [commandFields, findByte_append arguments h]
  exact congrArg splitCsv hdrop

/-- A field as it stands in a line: a bare one holds no comma and does not begin with a quote, and
a quoted one holds no quote. -/
inductive CsvField where
  | bare (content : Bytes) (comma : 44 ∉ content) (quote : content.head? ≠ some 34)
  | quoted (content : Bytes) (quote : 34 ∉ content)

namespace CsvField

def content : CsvField → Bytes
  | bare content _ _ => content
  | quoted content _ => content

def written : CsvField → Bytes
  | bare content _ _ => content
  | quoted content _ => 34 :: content ++ [34]

/-- The fields of a line with commas between them. -/
def join : CsvField → List CsvField → Bytes
  | field, [] => field.written
  | field, next :: rest => field.written ++ 44 :: join next rest

theorem splitCsv_written_append (field : CsvField) (rest : Bytes) :
    splitCsv (field.written ++ 44 :: rest) = field.content :: splitCsv rest := by
  cases field with
  | bare content comma quote => exact splitCsv_bare_append comma quote rest
  | quoted content quote =>
      have hcut : 34 :: content ++ [34] ++ 44 :: rest = 34 :: content ++ 34 :: 44 :: rest := by
        simp
      rw [written, hcut, splitCsv_quoted_append quote]
      rfl

theorem splitCsv_written (field : CsvField) : splitCsv field.written = [field.content] := by
  cases field with
  | bare content comma quote => exact splitCsv_bare comma quote
  | quoted content quote => exact splitCsv_quoted quote

/-- A joined line is split into the contents of its fields. -/
theorem splitCsv_join (field : CsvField) (fields : List CsvField) :
    splitCsv (join field fields) = (field :: fields).map content := by
  induction fields generalizing field with
  | nil => exact splitCsv_written field
  | cons next rest ih =>
      rw [join, splitCsv_written_append, ih next]
      rfl

theorem join_eq_intercalate (field : CsvField) (fields : List CsvField) :
    join field fields = [44].intercalate ((field :: fields).map written) := by
  induction fields generalizing field with
  | nil => simp [join, List.intercalate]
  | cons next rest ih =>
      rw [join, ih next]
      simp [List.intercalate]

/-- Whatever the fields hold, and wherever empty ones stand, they come back as they were. -/
theorem splitCsv_inverts_joining (fields : List CsvField) (h : fields ≠ []) :
    splitCsv ([44].intercalate (fields.map written)) = fields.map content := by
  obtain ⟨field, rest, rfl⟩ := List.exists_cons_of_ne_nil h
  rw [← join_eq_intercalate, splitCsv_join]

/-- `,"1,2",` has an empty field at either end. -/
theorem splitCsv_inverts_joining_empty :
    splitCsv [44, 34, 49, 44, 50, 34, 44] = [[], [49, 44, 50], []] :=
  splitCsv_inverts_joining
    [.bare [] (by decide) (by decide), .quoted [49, 44, 50] (by decide),
      .bare [] (by decide) (by decide)]
    (List.cons_ne_nil _ _)

end CsvField

end EspModemLink.AtParser
