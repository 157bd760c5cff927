import EspModemLink.Library.Runs
import EspModemLink.AtChannel.ResponseParser

/-!
# The AT channel over a UART

`AtUart`: how its receive task cuts the stream into lines, what a line does to the command in
progress, and the two calls that wait for a final status line.
-/

namespace EspModemLink.AtChannel

open Bytes

/-- The members of `AtUart` that the receive task and a call share, the two event bits they meet
at, and the `line_buffer` of the receive task. -/
structure AtUart where
  commandInProgress : Bool := false
  responseBuffer : Bytes := []
  parsedResponse : ParsedAtResponse := {}
  promptArmed : Bool := false
  responseDone : Bool := false
  dataPrompt : Bool := false
  discardPartialLine : Bool := false
  lineBuffer : Bytes := []
deriving DecidableEq

/-- A line without the `\r` that a second line end leaves behind it. -/
def dropCr (line : Bytes) : Bytes := if line.getLast? = some cr then line.dropLast else line

/-- The status lines that end a command. -/
def endsCommand (line : Bytes) : Bool :=
  let trimmed := trimBy isBlank line
  trimmed == okLine || trimmed == errorLine || startsWith trimmed cmeErrorKey ||
    startsWith trimmed cmsErrorKey

/-- `IsDataPrompt`. -/
def isDataPrompt : Bytes → Bool
  | 62 :: rest => rest.all isBlank
  | _ => false

/-- What the receive task does with the stream: a line passed to `ProcessLine`, or the data-prompt
event raised. -/
inductive Signal where
  | line (line : Bytes)
  | dataPrompt
deriving DecidableEq

namespace AtUart

/-- A line that arrives while a command is in progress. -/
def absorb (u : AtUart) (line : Bytes) : AtUart :=
  let buffer := u.responseBuffer ++ line ++ crlf
  { u with
    responseBuffer := buffer
    dataPrompt := u.dataPrompt || line == promptLine
    parsedResponse := if endsCommand line then parseResponse buffer else u.parsedResponse
    responseDone := u.responseDone || endsCommand line }

/-- `ProcessLine`, and the line that the handlers are called with. -/
def processLine (u : AtUart) (line : Bytes) : AtUart × Option Bytes :=
  let line := dropCr line
  if line.all isBlank then (u, none)
  else (if u.commandInProgress then u.absorb line else u, some line)

/-- The data-prompt event that `ProcessLine` raises for a line. -/
def linePrompt (u : AtUart) (line : Bytes) : List Signal :=
  if u.commandInProgress && dropCr line == promptLine then [.dataPrompt] else []

/-- The loop of `ReceiveTask` over the complete lines, and what is left. `fuel` bounds its
passes. -/
def processLinesFor : ℕ → AtUart → Bytes → AtUart × List Signal × Bytes
  | 0, u, buffer => (u, [], buffer)
  | fuel + 1, u, buffer =>
      match find crlf buffer with
      | none => (u, [], buffer)
      | some lineEnd =>
          let line := buffer.take lineEnd
          let (u', signals, rest) :=
            processLinesFor fuel (u.processLine line).1 (buffer.drop (lineEnd + 2))
          (u', .line line :: u.linePrompt line ++ signals, rest)

def processLines (u : AtUart) (buffer : Bytes) : AtUart × List Signal × Bytes :=
  processLinesFor buffer.length u buffer

/-- The prompt that is left in the partial line. -/
def takePrompt (u : AtUart) : AtUart × List Signal :=
  if isDataPrompt u.lineBuffer then
    ({ u with
        promptArmed := false, dataPrompt := u.dataPrompt || u.promptArmed, lineBuffer := [] },
      if u.promptArmed then [.dataPrompt] else [])
  else (u, [])

/-- One pass of `ReceiveTask`, whose read returned `bytes`. `rateChanged` says that the rate was
changed while the task was in that read. -/
def receive (u : AtUart) (bytes : Bytes) (rateChanged : Bool) : AtUart × List Signal :=
  let u := if u.discardPartialLine then { u with lineBuffer := [], discardPartialLine := false }
    else u
  if rateChanged then ({ u with lineBuffer := [] }, [])
  else if bytes = [] then (u, [])
  else
    let (u, signals, rest) := u.processLines (u.lineBuffer ++ bytes)
    let (u, prompts) := takePrompt { u with lineBuffer := rest }
    (u, signals ++ prompts)

/-- The passes of `ReceiveTask` over successive reads, at one rate. -/
def receiveAll (u : AtUart) : List Bytes → AtUart × List Signal
  | [] => (u, [])
  | bytes :: reads =>
      let (u, signals) := u.receive bytes false
      let (u', signals') := u.receiveAll reads
      (u', signals ++ signals')

/-- The response that a call clears before it writes. -/
def clearResponse (u : AtUart) : AtUart := { u with responseBuffer := [], parsedResponse := {} }

end AtUart

/-! ## The calls that wait for a status line -/

/-- `SendCommand` and `SendCommandWithData`. -/
inductive Request where
  | sendCommand (cmd : Bytes)
  | sendCommandWithData (cmdPrefix data cmdSuffix : Bytes)
deriving DecidableEq

/-- What a request writes first. -/
def Request.front : Request → Bytes
  | .sendCommand cmd => cmd ++ crlf
  | .sendCommandWithData cmdPrefix _ cmdSuffix =>
      if cmdSuffix = [] then cmdPrefix else cmdPrefix ++ crlf

/-- A request whose payload goes out behind the prompt. -/
def Request.awaitsPrompt : Request → Bool
  | .sendCommand _ => false
  | .sendCommandWithData _ _ cmdSuffix => cmdSuffix != []

/-- What the call does next. -/
inductive Phase where
  | start | clearResponse | clearBits | write | awaitPrompt | writeData | awaitResponse
  | leave | read
  | returned (result : AtResult Unit)

/-- What a request writes behind the prompt. -/
def Request.payload : Request → Bytes
  | .sendCommand _ => []
  | .sendCommandWithData _ data cmdSuffix => data ++ cmdSuffix

/-- A call beside the receive task. `written` is what it wrote, and `received` holds the lines that
arrived in its window: behind the clearing of the response, while the command is in progress. -/
structure Call where
  uart : AtUart
  request : Request
  phase : Phase := .start
  written : Bytes := []
  received : List Bytes := []

/-- A complete line arrives, or the call goes on: it writes all it has or less, its wait ends with
the event or without it, or it does anything else. -/
inductive Move where
  | line (line : Bytes)
  | write (complete : Bool)
  | timeout
  | go
deriving DecidableEq

def transmitFailed (context : String) : AtResult Unit :=
  .error { code := .kTransmitFailed, context := context }

def timedOut (context : String) : AtResult Unit := .error { code := .kTimeout, context := context }

/-- The contexts of the errors that a request fails with before a response. -/
def Request.writeContext : Request → String
  | .sendCommand _ => "failed to send command"
  | .sendCommandWithData .. => "failed to send command prefix"

def Request.timeoutContext : Request → String
  | .sendCommand cmd => "command timeout: " ++ text cmd
  | .sendCommandWithData .. => "command with data timeout"

/-- What a parsed response is reported as. -/
def ParsedAtResponse.result (p : ParsedAtResponse) : AtResult Unit :=
  if p.ok then .ok () else .error p.error

namespace Call

/-- The receive task hands a line to `ProcessLine`. -/
def takeLine (c : Call) (line : Bytes) : Call :=
  { c with
    uart := (c.uart.processLine line).1
    received := if c.uart.commandInProgress then c.received ++ [line] else c.received }

/-- The call gives up with an error. -/
def fail (c : Call) (result : AtResult Unit) : Call :=
  { c with uart := { c.uart with commandInProgress := false }, phase := .returned result }

/-- The wait for the final response, or the prompt before it. -/
def afterWrite (c : Call) : Phase := if c.request.awaitsPrompt then .awaitPrompt else .awaitResponse

/-- A step of the call or of the receive task. -/
def step : Runs.Step Call Move
  | c, .line line => if IsLine line then some (c.takeLine line) else none
  | c, move =>
      match c.phase, move with
      | .start, .go =>
          some { c with uart := { c.uart with commandInProgress := true }, phase := .clearResponse }
      | .clearResponse, .go =>
          some { c with uart := c.uart.clearResponse, phase := .clearBits, received := [] }
      | .clearBits, .go =>
          some { c with
            uart := { c.uart with
              responseDone := false
              dataPrompt := match c.request with
                | .sendCommand _ => c.uart.dataPrompt
                | .sendCommandWithData .. => false }
            phase := .write }
      | .write, .write complete =>
          if complete then
            some { c with phase := c.afterWrite, written := c.written ++ c.request.front }
          else some (c.fail (transmitFailed c.request.writeContext))
      | .awaitPrompt, .go =>
          if c.uart.dataPrompt then
            some { c with uart := { c.uart with dataPrompt := false }, phase := .writeData }
          else none
      | .awaitPrompt, .timeout =>
          if c.uart.dataPrompt then none else some (c.fail (timedOut "data prompt timeout"))
      | .writeData, .write complete =>
          if complete then
            some { c with phase := .awaitResponse, written := c.written ++ c.request.payload }
          else some (c.fail (transmitFailed "failed to send data"))
      | .awaitResponse, .go =>
          if c.uart.responseDone then
            some { c with uart := { c.uart with responseDone := false }, phase := .leave }
          else none
      | .awaitResponse, .timeout =>
          if c.uart.responseDone then none
          else some (c.fail (timedOut c.request.timeoutContext))
      | .leave, .go =>
          some { c with uart := { c.uart with commandInProgress := false }, phase := .read }
      | .read, .go => some { c with phase := .returned c.uart.parsedResponse.result }
      | _, _ => none

/-- A call that is about to begin on an idle channel. -/
def begin (uart : AtUart) (request : Request) : Call :=
  { uart := { uart with commandInProgress := false }, request := request }

end Call

end EspModemLink.AtChannel
