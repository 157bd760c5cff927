import EspModemLink.Bytes

/-!
# The dispatcher of unsolicited lines

`UrcDispatcher::Dispatch`: a line is cut at its first colon, and every handler whose prefix the part
in front begins with is called with the two parts.
-/

namespace EspModemLink.AtChannel

open Bytes

/-- `HandlerEntry`: what was subscribed for a prefix. -/
structure HandlerEntry (α : Type*) where
  key : Bytes
  handler : Bytes → Bytes → α

namespace UrcDispatcher

variable {α : Type*}

/-- `command`: the part of a line that the prefixes are compared with. -/
def command (line : Bytes) : Bytes := upTo line (findByte 58 line)

/-- `arguments`: the part behind the colon. -/
def arguments (line : Bytes) : Bytes :=
  match findByte 58 line with
  | some colon => trimBy isSpace (line.drop (colon + 1))
  | none => []

/-- `Dispatch`: what the handlers that match answer, in the order in which the table has them. -/
def dispatch (handlers : List (HandlerEntry α)) (line : Bytes) : List α :=
  let line := trimBy isSpace line
  if line = [] then []
  else
    (handlers.filter fun entry => startsWith (command line) entry.key).map fun entry =>
      entry.handler (command line) (arguments line)

/-- The part in front of the first colon. -/
theorem command_eq_takeWhile (line : Bytes) : command line = line.takeWhile (· != 58) := by
  induction line with
  | nil => rfl
  | cons c line ih =>
      rw [command, findByte, List.findIdx?_cons, List.takeWhile_cons]
      by_cases hc : c = 58
      · subst hc
        rfl
      · have hbeq : (c == 58) = false := by simpa using hc
        have hbne : (c != 58) = true := by simpa using hc
        rw [hbeq, hbne, if_neg Bool.false_ne_true, if_pos rfl, ← ih, command, findByte]
        cases List.findIdx? (· == 58) line with
        | none => rfl
        | some i => rfl

/-- No handler sees a colon in what it takes for the line. -/
theorem colon_notMem_command (line : Bytes) : (58 : UInt8) ∉ command line := by
  rw [command_eq_takeWhile]
  intro h
  have hne := List.mem_takeWhile_imp h
  simp at hne

/-- A handler without a prefix is called for every line that is not blank. -/
theorem dispatch_singleton_nil (handler : Bytes → Bytes → α) {line : Bytes}
    (h : trimBy isSpace line ≠ []) :
    dispatch [⟨[], handler⟩] line =
      [handler (command (trimBy isSpace line)) (arguments (trimBy isSpace line))] := by
  simp [dispatch, h, startsWith]

end UrcDispatcher

end EspModemLink.AtChannel
