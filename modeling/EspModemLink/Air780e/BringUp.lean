import EspModemLink.Air780e.State
import EspModemLink.AtChannel.Script

/-!
# Bringing an Air780E up

`Initialize` of `Air780eHal`, over a port. The sockets are reset first, the multi-connection mode and
the TLS switch are read back, and the receive task is started behind it all.
-/

namespace EspModemLink.Air780e

open AtChannel AtParser Bytes Transcript

def kDefaultTimeout : ℕ := 5000
def kLongTimeout : ℕ := 30000

/-- The loop over the lines that answer `AT+CIPMUX?`: the last number that is read counts. -/
def muxOn (lines : List Bytes) : Bool :=
  lines.foldl (fun on line =>
    match parseInt (trim (stripKeyPrefix line)) with
    | some value => value == 1
    | none => on) false

def shutError : NetworkError := ⟨.kTimeout, 0, "AT+CIPSHUT was not confirmed with SHUT OK"⟩

def muxError : NetworkError :=
  ⟨.kProtocolError, 0,
    "AT+CIPMUX? does not report 1, so the module is not in multi-connection mode and " ++
      "AT+CIPSTART=<id>,... cannot be used"⟩

def switchError (enable : Bool) : NetworkError :=
  let digit := if enable then "1" else "0"
  ⟨.kProtocolError, 0, "AT+CIPSSL? does not report " ++ digit ++ " after AT+CIPSSL=" ++ digit⟩

/-- The command of the TLS switch. -/
def switchLine (enable : Bool) : Bytes :=
  atCommand (['+', 'C', 'I', 'P', 'S', 'S', 'L', '='] ++ [if enable then '1' else '0'])

def sslVersionLine : Bytes :=
  atCommand ['+', 'S', 'S', 'L', 'C', 'F', 'G', '=', '"', 's', 's', 'l', 'v', 'e', 'r', 's', 'i',
    'o', 'n', '"', ',', '0', ',', '4']

variable {σ : Type} (port : Port σ)

/-- `ApplySslSwitch` from the switch itself on. -/
def turnSwitch (enable : Bool) : HalM σ Unit := do
  port.command (switchLine enable) kDefaultTimeout
  port.readBack (atCommand ['+', 'C', 'I', 'P', 'S', 'S', 'L', '?']) kDefaultTimeout
    (reportsSwitch enable) (switchError enable)

def applySslSwitch (enable : Bool) : HalM σ Unit :=
  if enable then do
    port.command sslVersionLine kDefaultTimeout
    turnSwitch port enable
  else turnSwitch port enable

/-- `Initialize`. -/
def initializeHal : HalM σ Unit := do
  port.command (atCommand ['E', '0']) kDefaultTimeout
  port.command (atCommand ['+', 'C', 'F', 'U', 'N', '=', '1']) kDefaultTimeout
  port.line (atCommand ['+', 'C', 'I', 'P', 'S', 'H', 'U', 'T'])
  port.shut kLongTimeout shutError
  port.command (atCommand ['+', 'C', 'I', 'P', 'M', 'U', 'X', '=', '1']) kDefaultTimeout
  port.readBack (atCommand ['+', 'C', 'I', 'P', 'M', 'U', 'X', '?']) kDefaultTimeout muxOn muxError
  port.command (atCommand ['+', 'C', 'I', 'P', 'R', 'X', 'G', 'E', 'T', '=', '5']) kDefaultTimeout
  port.command (atCommand ['+', 'C', 'I', 'P', 'S', 'R', 'I', 'P', '=', '1']) kDefaultTimeout
  applySslSwitch port false

/-! ## The scripts -/

def turnSwitchScript (enable : Bool) : List Step :=
  [.command (switchLine enable) kDefaultTimeout,
    .readBack (atCommand ['+', 'C', 'I', 'P', 'S', 'S', 'L', '?']) kDefaultTimeout
      (reportsSwitch enable) (switchError enable)]

/-- What `Initialize` goes through. -/
def initializeScript : List Step :=
  [.command (atCommand ['E', '0']) kDefaultTimeout,
    .command (atCommand ['+', 'C', 'F', 'U', 'N', '=', '1']) kDefaultTimeout,
    .line (atCommand ['+', 'C', 'I', 'P', 'S', 'H', 'U', 'T']),
    .shut kLongTimeout shutError,
    .command (atCommand ['+', 'C', 'I', 'P', 'M', 'U', 'X', '=', '1']) kDefaultTimeout,
    .readBack (atCommand ['+', 'C', 'I', 'P', 'M', 'U', 'X', '?']) kDefaultTimeout muxOn muxError,
    .command (atCommand ['+', 'C', 'I', 'P', 'R', 'X', 'G', 'E', 'T', '=', '5']) kDefaultTimeout,
    .command (atCommand ['+', 'C', 'I', 'P', 'S', 'R', 'I', 'P', '=', '1']) kDefaultTimeout] ++
    turnSwitchScript false

theorem adds_turnSwitch (enable : Bool) (s : σ) :
    Adds (turnSwitch port.transcribed enable) s fun r _ es =>
      FollowsScript (turnSwitchScript enable) r es :=
  .follows (port.adds_perform (.command _ _) s) fun s' =>
    .followsLast (port.adds_perform (.readBack _ _ _ _) s')

theorem adds_initializeHal (s : σ) :
    Adds (initializeHal port.transcribed) s fun r _ es => FollowsScript initializeScript r es := by
  refine .follows (port.adds_perform (.command _ _) s) fun s => ?_
  refine .follows (port.adds_perform (.command _ _) s) fun s => ?_
  refine .follows (port.adds_perform (.line _) s) fun s => ?_
  refine .follows (port.adds_perform (.shut _ _) s) fun s => ?_
  refine .follows (port.adds_perform (.command _ _) s) fun s => ?_
  refine .follows (port.adds_perform (.readBack _ _ _ _) s) fun s => ?_
  refine .follows (port.adds_perform (.command _ _) s) fun s => ?_
  refine .follows (port.adds_perform (.command _ _) s) fun s => ?_
  exact adds_turnSwitch port false s

end EspModemLink.Air780e
