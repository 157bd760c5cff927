import EspModemLink.AtChannel.Channel
import EspModemLink.Library.Transcript

/-!
# The port that a driver brings a module up over

`IAtChannel` with the two operations that a bring-up needs besides: a line that is sent without
waiting for its answer, and the wait for the event that answers `AT+CIPSHUT`. A transcript of what
passes can be kept beside it.
-/

namespace EspModemLink.AtChannel

open Transcript

structure Port (σ : Type) extends IAtChannel σ where
  sendLine (cmd : Bytes) : σ → AtResult Unit × σ
  /-- Whether `SHUT OK` comes within a time. -/
  awaitShut (timeout : ℕ) : σ → Bool × σ

/-- What passes over a port. A command stands with the rate that the host was at, its result and the
response lines that are held behind it. -/
inductive Exchange where
  | command (rate : Int) (cmd : Bytes) (timeout : ℕ) (result : AtResult Unit) (lines : List Bytes)
  | moved (baud : Int) (result : AtResult Unit)
  | line (cmd : Bytes) (result : AtResult Unit)
  | shut (timeout : ℕ) (seen : Bool)

/-- A driver's code over the states of a port. -/
abbrev HalM (σ : Type) := ExceptT NetworkError (StateM σ)

namespace Port

variable {σ : Type} (port : Port σ)

/-- The port with a transcript. -/
def transcribed : Port (σ × List Exchange) where
  sendCommand cmd timeout t :=
    let (result, s) := port.sendCommand cmd timeout t.1
    (result, s, t.2 ++
      [.command (port.getBaudRate t.1) cmd timeout result (port.getResponseLines s)])
  getResponseLines t := port.getResponseLines t.1
  getBaudRate t := port.getBaudRate t.1
  setBaudRate baud t :=
    let (result, s) := port.setBaudRate baud t.1
    (result, s, t.2 ++ [.moved baud result])
  stays cmd timeout t := port.stays cmd timeout t.1
  follows baud t h := port.follows baud t.1 h
  sendLine cmd t :=
    let (result, s) := port.sendLine cmd t.1
    (result, s, t.2 ++ [.line cmd result])
  awaitShut timeout t :=
    let (seen, s) := port.awaitShut timeout t.1
    (seen, s, t.2 ++ [.shut timeout seen])

/-- A command whose failure is returned as it is. -/
def command (cmd : Bytes) (timeout : ℕ) : HalM σ Unit := fun s =>
  ((port.sendCommand cmd timeout s).1.mapError AtError.toNetworkError,
    (port.sendCommand cmd timeout s).2)

/-- A command and the response lines behind it. -/
def query (cmd : Bytes) (timeout : ℕ) : HalM σ (List Bytes) := do
  port.command cmd timeout
  return port.getResponseLines (← get)

/-- `SendLine`, whose failure is returned as it is. -/
def line (cmd : Bytes) : HalM σ Unit := fun s =>
  ((port.sendLine cmd s).1.mapError AtError.toNetworkError, (port.sendLine cmd s).2)

/-! ## What is added to the transcript -/

theorem adds_sendCommand (cmd : Bytes) (timeout : ℕ) (s : σ) :
    Adds (port.transcribed.sendCommand cmd timeout) s fun result s' es =>
      port.getBaudRate s' = port.getBaudRate s ∧
        es = [.command (port.getBaudRate s) cmd timeout result (port.getResponseLines s')] :=
  fun _ => ⟨_, _, _, rfl, port.stays cmd timeout s, rfl⟩

theorem adds_setBaudRate (baud : Int) (s : σ) :
    Adds (port.transcribed.setBaudRate baud) s fun result s' es =>
      (result = .ok () → port.getBaudRate s' = baud) ∧ es = [.moved baud result] :=
  fun _ => ⟨_, _, _, rfl, port.follows baud s, rfl⟩

theorem adds_command (cmd : Bytes) (timeout : ℕ) (s : σ) :
    Adds (port.transcribed.command cmd timeout) s fun result s' es =>
      ∃ sent : AtResult Unit, result = sent.mapError AtError.toNetworkError ∧
        port.getBaudRate s' = port.getBaudRate s ∧
        es = [.command (port.getBaudRate s) cmd timeout sent (port.getResponseLines s')] :=
  fun _ => ⟨_, _, _, rfl, _, rfl, port.stays cmd timeout s, rfl⟩

theorem adds_query (cmd : Bytes) (timeout : ℕ) (s : σ) :
    Adds (port.transcribed.query cmd timeout) s fun result s' es =>
      ∃ sent : AtResult Unit,
        result = (sent.mapError AtError.toNetworkError).map (fun _ => port.getResponseLines s') ∧
        port.getBaudRate s' = port.getBaudRate s ∧
        es = [.command (port.getBaudRate s) cmd timeout sent (port.getResponseLines s')] := by
  refine (port.adds_command cmd timeout s).andThen ?_ ?_
  · rintro e s' _ ⟨sent, hsent, hrate, rfl⟩
    exact ⟨sent, by rw [← hsent]; rfl, hrate, rfl⟩
  · rintro ⟨⟩ s' _ ⟨sent, hsent, hrate, rfl⟩ log
    exact ⟨_, s', [], by rw [List.append_nil]; rfl, sent, by rw [← hsent]; rfl, hrate, rfl⟩

end Port

end EspModemLink.AtChannel
