import EspModemLink.Bytes
import EspModemLink.NetworkError

/-!
# The channel as its callers see it

`IAtChannel` with whatever stands behind it: a state that every call may change. The calls made of
it can be recorded without changing what they come to.
-/

namespace EspModemLink.AtChannel

/-- `IAtChannel`, over the states of what stands behind it. A command leaves the rate of the host
where it is, and the host is at the rate that it was last moved to. Timeouts are in milliseconds. -/
structure IAtChannel (σ : Type*) where
  sendCommand (cmd : Bytes) (timeout : ℕ) : σ → AtResult Unit × σ
  getResponseLines : σ → List Bytes
  getBaudRate : σ → Int
  setBaudRate (baud : Int) : σ → AtResult Unit × σ
  stays (cmd : Bytes) (timeout : ℕ) (s : σ) :
    getBaudRate (sendCommand cmd timeout s).2 = getBaudRate s
  follows (baud : Int) (s : σ) (h : (setBaudRate baud s).1 = .ok ()) :
    getBaudRate (setBaudRate baud s).2 = baud

/-- A call of a channel and its result, a command with the rate that the host was at. -/
inductive Called where
  | command (rate : Int) (cmd : Bytes) (timeout : ℕ) (result : AtResult Unit)
  | moved (baud : Int) (result : AtResult Unit)

namespace IAtChannel

variable {σ τ : Type*}

/-- The channel accepts being set to a rate. -/
def Accepts (ch : IAtChannel σ) (baud : Int) : Prop := ∀ s, (ch.setBaudRate baud s).1 = .ok ()

/-- The channel with a record of the calls made of it. -/
def recorded (ch : IAtChannel σ) : IAtChannel (σ × List Called) where
  sendCommand cmd timeout s :=
    ((ch.sendCommand cmd timeout s.1).1, (ch.sendCommand cmd timeout s.1).2,
      s.2 ++ [.command (ch.getBaudRate s.1) cmd timeout (ch.sendCommand cmd timeout s.1).1])
  getResponseLines s := ch.getResponseLines s.1
  getBaudRate s := ch.getBaudRate s.1
  setBaudRate baud s :=
    ((ch.setBaudRate baud s.1).1, (ch.setBaudRate baud s.1).2,
      s.2 ++ [.moved baud (ch.setBaudRate baud s.1).1])
  stays cmd timeout s := ch.stays cmd timeout s.1
  follows baud s h := ch.follows baud s.1 h

/-- One channel shows what another one does, with more behind it. -/
structure Shows (upper : IAtChannel τ) (ch : IAtChannel σ) (under : τ → σ) : Prop where
  sendCommand (cmd : Bytes) (timeout : ℕ) (t : τ) :
    Prod.map id under (upper.sendCommand cmd timeout t) = ch.sendCommand cmd timeout (under t)
  getResponseLines (t : τ) : upper.getResponseLines t = ch.getResponseLines (under t)
  getBaudRate (t : τ) : upper.getBaudRate t = ch.getBaudRate (under t)
  setBaudRate (baud : Int) (t : τ) :
    Prod.map id under (upper.setBaudRate baud t) = ch.setBaudRate baud (under t)

theorem recorded_shows (ch : IAtChannel σ) : ch.recorded.Shows ch Prod.fst where
  sendCommand _ _ _ := rfl
  getResponseLines _ := rfl
  getBaudRate _ := rfl
  setBaudRate _ _ := rfl

end IAtChannel

/-- The commands of a record, each with the rate that it was sent at. -/
def commandsOf (calls : List Called) : List (Int × Bytes) :=
  calls.filterMap fun
    | .command rate cmd _ _ => some (rate, cmd)
    | .moved _ _ => none

@[simp] theorem commandsOf_nil : commandsOf [] = [] := rfl

@[simp] theorem commandsOf_append (calls more : List Called) :
    commandsOf (calls ++ more) = commandsOf calls ++ commandsOf more :=
  List.filterMap_append

@[simp] theorem commandsOf_command (rate : Int) (cmd : Bytes) (timeout : ℕ) (r : AtResult Unit) :
    commandsOf [.command rate cmd timeout r] = [(rate, cmd)] := rfl

@[simp] theorem commandsOf_moved (baud : Int) (r : AtResult Unit) :
    commandsOf [.moved baud r] = [] := rfl

end EspModemLink.AtChannel
