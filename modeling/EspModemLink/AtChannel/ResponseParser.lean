import EspModemLink.Bytes
import EspModemLink.NetworkError

/-!
# Responses to AT commands

`ParseResponse` cuts what a command was answered into lines and reads the first status line among
them. The lemmas say what it finds when the buffer was put together from complete lines.
-/

namespace EspModemLink.AtChannel

open Bytes

structure ParsedAtResponse where
  ok : Bool := false
  error : AtError := { code := .kCommandError }
  lines : List Bytes := []
deriving DecidableEq

def okLine : Bytes := ascii ['O', 'K']
def errorLine : Bytes := ascii ['E', 'R', 'R', 'O', 'R']
def cmeErrorKey : Bytes := ascii ['+', 'C', 'M', 'E', ' ', 'E', 'R', 'R', 'O', 'R', ':']
def cmsErrorKey : Bytes := ascii ['+', 'C', 'M', 'S', ' ', 'E', 'R', 'R', 'O', 'R', ':']
def promptLine : Bytes := ascii ['>']

/-- The digits in front of an error text, as the code adds them up in an `int`. -/
def errorCode (code : Bytes) : Int :=
  Int.bmod ((code.takeWhile isDigit).foldl (fun n c => n * 10 + digitValue c) 0 : ℕ) (2 ^ 32)

/-- The error in the text behind `+CME ERROR:`. -/
def cmeError (rest : Bytes) : AtError :=
  { code := .kCmeError, cme := errorCode (trimBy isSpace rest), context := text (trimBy isSpace rest) }

/-- The error in the text behind `+CMS ERROR:`. -/
def cmsError (rest : Bytes) : AtError :=
  { code := .kCmsError, cms := errorCode (trimBy isSpace rest), context := text (trimBy isSpace rest) }

/-- What a trimmed status line leaves in `out_error`. -/
def statusError (trimmed : Bytes) : Option AtError :=
  if trimmed = okLine then some { code := .kCommandError }
  else if trimmed = errorLine then some { code := .kCommandError }
  else if startsWith trimmed cmeErrorKey then some (cmeError (trimmed.drop 11))
  else if startsWith trimmed cmsErrorKey then some (cmsError (trimmed.drop 11))
  else if trimmed = promptLine then some { code := .kCommandError }
  else none

/-- `IsStatusLine`. -/
def isStatusLine (line : Bytes) : Option AtError := statusError (trimBy isSpace line)

/-- The pieces of the buffer between line ends. `fuel` bounds the passes of the loop. -/
def rawLinesFor : ℕ → Bytes → List Bytes
  | 0, _ => []
  | _ + 1, [] => []
  | fuel + 1, raw =>
      match find crlf raw with
      | none => [raw]
      | some lineEnd => raw.take lineEnd :: rawLinesFor fuel (raw.drop (lineEnd + 2))

def rawLines (raw : Bytes) : List Bytes := rawLinesFor raw.length raw

/-- A first line that repeats the command. -/
def isEcho (line : Bytes) : Bool :=
  startsWith line (ascii ['A', 'T']) || startsWith line (ascii ['a', 't'])

/-- The loop of `ParseResponse` over the pieces. -/
def parseLines : (firstLine : Bool) → List Bytes → ParsedAtResponse → ParsedAtResponse
  | _, [], result => result
  | firstLine, raw :: rest, result =>
      let line := trimBy isSpace raw
      if line = [] then parseLines firstLine rest result
      else if firstLine && isEcho line then parseLines false rest result
      else
        match isStatusLine line with
        | some err =>
            let ok := startsWith line okLine || startsWith line promptLine
            { result with ok := ok, error := if ok then result.error else err }
        | none => parseLines false rest { result with lines := result.lines ++ [line] }

def parseResponse (raw : Bytes) : ParsedAtResponse := parseLines true (rawLines raw) {}

/-! ## Buffers of complete lines -/

/-- A line as it stands between two line ends. -/
def IsLine (line : Bytes) : Prop := find crlf line = none

instance (line : Bytes) : Decidable (IsLine line) := inferInstanceAs (Decidable (_ = none))

/-- The buffer that `ProcessLine` builds. -/
def joined (lines : List Bytes) : Bytes := lines.flatMap (· ++ crlf)

theorem joined_append (lines more : List Bytes) :
    joined (lines ++ more) = joined lines ++ joined more := by
  simp [joined]

/-- A line ends at the first line end behind it. -/
theorem find_crlf_append {line : Bytes} (h : IsLine line) (t : Bytes) :
    find crlf (line ++ crlf ++ t) = some line.length := by
  induction line with
  | nil => rfl
  | cons c line ih =>
      have hne : ¬(crlf.isPrefixOf (c :: line) = true) := by
        intro hp
        simp [IsLine, find_cons, hp] at h
      have htail : IsLine line := by
        simpa [IsLine, find_cons, hne] using h
      have hne' : ¬(crlf.isPrefixOf (c :: line ++ crlf ++ t) = true) := by
        cases line with
        | nil => simp [crlf, cr, lf, List.isPrefixOf]
        | cons d line => simpa [crlf, List.isPrefixOf] using hne
      calc find crlf (c :: line ++ crlf ++ t)
          = (find crlf (line ++ crlf ++ t)).map (· + 1) := by
            simp only [List.cons_append] at hne' ⊢
            rw [find_cons, if_neg hne']
        _ = some (c :: line).length := by rw [ih htail]; rfl

theorem rawLinesFor_joined {lines : List Bytes} (h : ∀ l ∈ lines, IsLine l) {fuel : ℕ}
    (hfuel : (joined lines).length ≤ fuel) : rawLinesFor fuel (joined lines) = lines := by
  induction lines generalizing fuel with
  | nil => cases fuel <;> rfl
  | cons line lines ih =>
      have hjoined : joined (line :: lines) = line ++ crlf ++ joined lines := rfl
      have hlen : (joined (line :: lines)).length = line.length + 2 + (joined lines).length := by
        simp only [hjoined, crlf, List.length_append, List.length_cons, List.length_nil]
      obtain ⟨n, rfl⟩ : ∃ n, fuel = n + 1 := ⟨fuel - 1, by omega⟩
      have hne : joined (line :: lines) ≠ [] := by
        intro he
        rw [he, List.length_nil] at hlen
        omega
      have hfind := find_crlf_append (h line (List.mem_cons_self ..)) (joined lines)
      have hdrop : (line ++ crlf ++ joined lines).drop (line.length + 2) = joined lines := by
        simp [crlf]
      have htake : (line ++ crlf ++ joined lines).take line.length = line := by
        simp
      rw [rawLinesFor]
      · rw [hjoined, hfind]
        simp only [hdrop, htake]
        rw [ih (fun l hl => h l (List.mem_cons_of_mem _ hl)) (by omega)]
      · exact hne

/-- Complete lines come back out of the buffer they were joined to. -/
theorem rawLines_joined {lines : List Bytes} (h : ∀ l ∈ lines, IsLine l) :
    rawLines (joined lines) = lines := rawLinesFor_joined h (Nat.le_refl _)

end EspModemLink.AtChannel
