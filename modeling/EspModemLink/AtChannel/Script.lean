import EspModemLink.AtChannel.Port

/-!
# Scripts of commands

The straight parts of a bring-up as lists of steps. A driver's code follows its script: it goes
through the steps in order and ends at the first that fails, with the error of that step.
-/

namespace EspModemLink.AtChannel

open Transcript

/-- A command given by what stands behind its `AT`. -/
def atCommand (rest : List Char) : Bytes := ascii ('A' :: 'T' :: rest)

/-- A step of a script. What a command has to read back is a step of its own. -/
inductive Step where
  | command (cmd : Bytes) (timeout : ℕ)
  | readBack (cmd : Bytes) (timeout : ℕ) (holds : List Bytes → Bool) (error : NetworkError)
  | line (cmd : Bytes)
  | shut (timeout : ℕ) (error : NetworkError)

/-- What a step comes to with what passed. -/
def Step.outcome : Step → Exchange → Option (Result Unit)
  | .command cmd timeout, .command _ cmd' timeout' result _ =>
      if cmd' = cmd ∧ timeout' = timeout then some (result.mapError AtError.toNetworkError)
      else none
  | .readBack cmd timeout holds error, .command _ cmd' timeout' result lines =>
      if cmd' = cmd ∧ timeout' = timeout then
        some (match result with
          | .error e => .error e.toNetworkError
          | .ok () => if holds lines then .ok () else .error error)
      else none
  | .line cmd, .line cmd' result =>
      if cmd' = cmd then some (result.mapError AtError.toNetworkError) else none
  | .shut timeout error, .shut timeout' seen =>
      if timeout' = timeout then some (if seen then .ok () else .error error) else none
  | _, _ => none

/-- What passed are the steps of a script, up to the first that failed. -/
abbrev FollowsScript : List Step → Result Unit → List Exchange → Prop := Follows Step.outcome

namespace Port

variable {σ : Type} (port : Port σ)

/-- A command and what its answer has to say. -/
def readBack (cmd : Bytes) (timeout : ℕ) (holds : List Bytes → Bool) (error : NetworkError) :
    HalM σ Unit := do
  let lines ← port.query cmd timeout
  if holds lines then return () else throw error

/-- The wait for `SHUT OK`. -/
def shut (timeout : ℕ) (error : NetworkError) : HalM σ Unit := fun s =>
  (if (port.awaitShut timeout s).1 then .ok () else .error error, (port.awaitShut timeout s).2)

/-- The code of a step. -/
def perform : Step → HalM σ Unit
  | .command cmd timeout => port.command cmd timeout
  | .readBack cmd timeout holds error => port.readBack cmd timeout holds error
  | .line cmd => port.line cmd
  | .shut timeout error => port.shut timeout error

/-- A step adds its one exchange. -/
theorem adds_perform (step : Step) (s : σ) :
    Adds (port.transcribed.perform step) s fun r _ es => ∃ x, es = [x] ∧ step.outcome x = some r := by
  cases step with
  | command cmd timeout =>
      refine (port.adds_command cmd timeout s).mono ?_
      rintro r s' es ⟨sent, rfl, -, rfl⟩
      exact ⟨_, rfl, if_pos ⟨rfl, rfl⟩⟩
  | readBack cmd timeout holds error =>
      refine (port.adds_query cmd timeout s).andThen ?_ ?_
      · rintro e s' _ ⟨sent, hsent, -, rfl⟩
        refine ⟨_, rfl, (if_pos ⟨rfl, rfl⟩).trans ?_⟩
        cases sent with
        | error e' => exact congrArg (fun r => some (r.map fun _ => ())) hsent.symm
        | ok => cases hsent
      · rintro lines s' _ ⟨sent, hsent, -, rfl⟩
        cases sent with
        | error e' => cases hsent
        | ok =>
            obtain rfl := Except.ok.inj hsent
            refine .ite (fun hholds => .pure ?_) fun hholds => .pure ?_
            · exact ⟨_, rfl, (if_pos ⟨rfl, rfl⟩).trans (congrArg some (if_pos hholds))⟩
            · exact ⟨_, rfl, (if_pos ⟨rfl, rfl⟩).trans (congrArg some (if_neg hholds))⟩
  | line cmd => exact fun _ => ⟨_, _, _, rfl, _, rfl, if_pos rfl⟩
  | shut timeout error => exact fun _ => ⟨_, _, _, rfl, _, rfl, if_pos rfl⟩

end Port

end EspModemLink.AtChannel
