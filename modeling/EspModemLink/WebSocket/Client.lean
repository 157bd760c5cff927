import EspModemLink.Library.Sections
import EspModemLink.Http.Client
import EspModemLink.WebSocket.Frame
import EspModemLink.WebSocket.Handshake

/-!
# The software WebSocket client

`SoftwareWsClient` as threads of atomic sections over one state. A section is a
part of a member function under `mutex_`, an access to an atomic, a callback, or
a call into the transport, which may deliver before it returns.
-/

namespace EspModemLink.WebSocket

open Bytes Http

/-! ## The client -/

inductive State where
  | kDisconnected | kHandshaking | kOpen
deriving DecidableEq, Repr

/-- `HeartbeatConfig`, in seconds. -/
structure HeartbeatConfig where
  interval : Int := 30
  timeout : Int := 10
  enabled : Bool := false
deriving DecidableEq, Repr

/-- `ReconnectConfig` without the lengths of the waits. -/
structure ReconnectConfig where
  enabled : Bool := false
  maxRetries : Int := -1
deriving DecidableEq, Repr

/-- What has become of the thread behind `maintain_task_`. -/
inductive TaskStatus where
  | pending | running | finished
deriving DecidableEq, Repr

/-- The members of `SoftwareWsClient`. A transport and a thread are known by their numbers. -/
structure SoftwareWsClient where
  state : State := .kDisconnected
  transport : Option ℕ := none
  rxBuffer : Bytes := []
  headers : Fields := []
  tlsConfig : TlsConfig := {}
  url : Bytes := []
  userClosed : Bool := false
  heartbeat : HeartbeatConfig := ⟨0, 0, false⟩
  reconnect : ReconnectConfig := {}
  reconnectAttempt : ℕ := 0
  reconnectExhausted : Bool := false
  handshakeKey : Bytes := []
  handshakeDone : Bool := false
  handshakeError : Option NetworkError := none
  fragmentOpen : Bool := false
  fragmentBinary : Bool := false
  fragmentPayload : Bytes := []
  sendFragmentOpen : Bool := false
  closeSent : Bool := false
  maintainTask : Option TaskStatus := none
  maintainThread : Option ℕ := none
  maintainRunning : Bool := false
  lastSentMs : Int := 0
  pingSentMs : Int := 0
  connected : Bool := false

def kMaxMessageBytes : ℕ := 64 * 1024
def kMaxCloseReason : ℕ := kMaxControlPayload - 2

def kNormal : ℕ := 1000
def kProtocolErrorCode : ℕ := 1002
def kNoStatus : ℕ := 1005
def kAbnormalClosure : ℕ := 1006
def kMessageTooBig : ℕ := 1009

/-- Where the loop of `FitReason` ends when it starts at `n`. -/
def fitEnd (reason : Bytes) : ℕ → ℕ
  | 0 => 0
  | n + 1 => if reason.getD (n + 1) 0 &&& 0xC0 = 0x80 then fitEnd reason n else n + 1

/-- `FitReason`. -/
def fitReason (reason : Bytes) : Bytes :=
  if reason.length ≤ kMaxCloseReason then reason
  else reason.take (fitEnd reason kMaxCloseReason)

/-- `ClosePayload`. -/
def closePayload (code : ℕ) (reason : Bytes) : Bytes :=
  if code = kNoStatus then [] else byteAt code 8 :: byteAt code 0 :: fitReason reason

/-- `HeaderValue`. -/
def headerValue (headers : Fields) (name : Bytes) : Bytes :=
  ((headers.find? fun h => equalsIgnoreCase h.1 name).map Prod.snd).getD []

/-- `ParseWebSocketUrl`. -/
def parseWebSocketUrl (url : Bytes) : Result ParsedUrl :=
  if startsWith url (ascii ['w', 's', ':', '/', '/']) then parseUrl (httpScheme ++ url.drop 5)
  else if startsWith url (ascii ['w', 's', 's', ':', '/', '/']) then
    parseUrl (httpsScheme ++ url.drop 6)
  else .error ⟨.kInvalidArgument, 0, "URL must start with ws:// or wss://"⟩

/-! ## Sections -/

/-- What a section is executed for: a call of the application, the maintenance task, a callback
of the transport, or a frame that was taken off `rx_buffer_` on the connection of that number. -/
inductive Origin where
  | app | maintain | delivery | frame (connection : ℕ)
deriving DecidableEq, Repr

/-- The caller of `Establish`. The maintenance task holds the number of its attempt. -/
inductive Caller where
  | connect | maintain (attempt : ℕ)
deriving DecidableEq, Repr

/-- The caller of `SendFrame`. -/
inductive FrameCaller where
  | handler | sendFragment | sendPing
deriving DecidableEq, Repr

/-- The caller of `SendCloseFrame`. -/
inductive CloseCaller where
  | close (code : ℕ) (reason : Bytes) | fail
deriving DecidableEq, Repr

/-- The caller of the transport's `Send`. -/
inductive SendCaller where
  | establish (caller : Caller) | sendFrame (caller : FrameCaller)
  | sendCloseFrame (caller : CloseCaller)
deriving DecidableEq, Repr

/-- The callbacks of the application. -/
inductive Callback where
  | connected
  | disconnected (code : ℕ) (reason : Bytes)
  | message (data : Bytes) (binary : Bool)
  | pong (data : Bytes)
  | error (e : NetworkError)
deriving DecidableEq, Repr

/-- The calls of the application. -/
inductive Call where
  | setHeader (key value : Bytes)
  | setTlsConfig (config : TlsConfig)
  | setHeartbeat (config : HeartbeatConfig)
  | setAutoReconnect (config : ReconnectConfig)
  | connect (url : Bytes)
  | close (code : ℕ) (reason : Bytes)
  | sendFragment (data : Bytes) (binary fin : Bool)
  | ping (payload : Bytes)
deriving DecidableEq, Repr

inductive Sect where
  | call (c : Call)
  -- Establish
  | establish (caller : Caller) (url : Bytes)
  | create (caller : Caller) (url : ParsedUrl) (key : Bytes) (config : TlsConfig)
      (headers : Fields)
  | abandon (caller : Caller) (e : NetworkError)
  | transportConnect (caller : Caller) (t : ℕ) (url : ParsedUrl) (key : Bytes) (headers : Fields)
  | store (caller : Caller) (t : ℕ) (request : Bytes)
  | await (caller : Caller)
  | established (caller : Caller) (result : Result Unit)
  -- Close
  | closing (code : ℕ) (reason : Bytes)
  | awaitClosed (code : ℕ) (reason : Bytes)
  -- sending
  | sendFrame (opcode : WsOpcode) (payload : Bytes) (fin : Bool) (caller : FrameCaller)
  | frameSent (caller : FrameCaller) (result : Result Unit)
  | sendCloseFrame (code : ℕ) (reason : Bytes) (caller : CloseCaller)
  | closeFrameSent (caller : CloseCaller)
  | transportSend (t : ℕ) (bytes : Bytes) (caller : SendCaller)
  | sending (t : ℕ) (bytes : Bytes) (caller : SendCaller)
  | storeLastSent
  | readPingSent
  | storePingSent (ms : Int)
  -- receiving
  | onTransportData (data : Bytes)
  | enterDrain
  | drainFrames
  | leaveDrain
  | handleFrame (frame : WsFrame)
  | answerClose (code : ℕ) (reason payload : Bytes)
  -- ending
  | teardown (code : ℕ) (reason : Bytes)
  | transportDisconnect (t : ℕ)
  | disconnecting (t : ℕ)
  | notifyDisconnected (code : ℕ) (reason : Bytes)
  -- the maintenance task
  | stopMaintain
  | joinMaintain
  | joining
  | setRunning
  | createTask
  | maintainBegin
  | maintainLoop
  | maintainTick
  | maintainRead
  | maintainOpen (config : HeartbeatConfig)
  | heartbeatNow (config : HeartbeatConfig)
  | heartbeatPing (config : HeartbeatConfig) (now : Int)
  | heartbeatIdle (config : HeartbeatConfig) (now : Int)
  | giveUp (attempt : ℕ)
  | setExhausted
  | backoff (attempt : ℕ) (url : Bytes)
  | backoffOver (attempt : ℕ) (url : Bytes)
  | maintainEnd
  -- callbacks
  | callback (c : Callback)
  | inCallback
  | returned (result : Result Unit)

/-- A section and what it is executed for. -/
structure Task where
  origin : Origin
  sect : Sect

def Origin.tasks (o : Origin) (sects : List Sect) : List Task := sects.map (Task.mk o)

/-- What the outside decides when a section is executed: random words, the clock, the answer of
the factory or the transport, a delivery of the transport out of the call into it, the end of a
wait, or a call out of a callback. -/
inductive Choice where
  | go
  | random (words : List UInt32)
  | now (ms : Int)
  | answer (result : Result ℕ)
  | data (bytes : Bytes)
  | closed
  | timeout
  | again
  | call (c : Call)

/-- What threads begin with: a call, a delivery of a transport, or the task that was created. -/
inductive Entry where
  | call (c : Call)
  | data (t : ℕ) (bytes : Bytes)
  | closed (t : ℕ)
  | maintain

/-- What happened. The attempts of `Establish` are numbered from 1, and an attempt names its
connection. -/
inductive Event where
  | began (connection : ℕ) (key : Bytes)
  | head (connection : ℕ) (key head : Bytes)
  | frame (f : WsFrame)
  | violation (reason : String)
  | created (t : ℕ) (tls : Bool) (config : TlsConfig)
  | connecting (t : ℕ) (host : Bytes) (port : ℕ)
  | stored (t : ℕ)
  | sending (t : ℕ) (bytes : Bytes)
  | sent (t : ℕ) (bytes : Bytes) (result : Result ℕ)
  | tornDown (code : ℕ) (reason : Bytes)
  | disconnected (t : ℕ)
  | callback (c : Callback)
  | returned (result : Result Unit)

/-- The client, how many transports and connections there have been, the clock, the threads whose
`draining_client` is the client, and what has happened. -/
structure Conn where
  client : SoftwareWsClient := {}
  transports : ℕ := 0
  connection : ℕ := 0
  clock : Int := 0
  draining : List ℕ := []
  trace : List (Origin × Event) := []

namespace Conn

def log (w : Conn) (o : Origin) (e : Event) : Conn := { w with trace := w.trace ++ [(o, e)] }

/-- `platform::Now()`, which does not run backwards. -/
def readClock (w : Conn) (ms : Int) : Option Conn :=
  if w.clock ≤ ms then some { w with clock := ms } else none

/-! ### Establish -/

/-- The first section of `Connect`. -/
def connect (w : Conn) (url : Bytes) : Conn × List Sect :=
  if w.client.state ≠ .kDisconnected then
    (w, [.returned (.error ⟨.kAlreadyConnected, 0, "already connected"⟩)])
  else
    ({ w with client := { w.client with
        url := url, userClosed := false, reconnectAttempt := 0, reconnectExhausted := false } },
      [.establish .connect url])

/-- The key of the next attempt: the caller's own, or one from the random words. -/
def nextKey (client : SoftwareWsClient) (words : List UInt32) : Bytes :=
  if headerValue client.headers keyName = [] then makeSecWebSocketKey words
  else headerValue client.headers keyName

/-- The members that `Establish` resets before it makes a transport. -/
def beginHandshake (client : SoftwareWsClient) (key : Bytes) : SoftwareWsClient :=
  { client with
    handshakeKey := key, handshakeDone := false, handshakeError := none, rxBuffer := [],
    fragmentOpen := false, fragmentBinary := false, fragmentPayload := [],
    sendFragmentOpen := false, closeSent := false, state := .kHandshaking }

/-- The connection that an attempt begins. -/
def beginConnection (w : Conn) (o : Origin) (key : Bytes) : Conn :=
  ({ w with client := beginHandshake w.client key, connection := w.connection + 1 } : Conn).log o
    (.began (w.connection + 1) key)

/-- The first section of `Establish`. -/
def establish (w : Conn) (o : Origin) (caller : Caller) (url : Bytes) (words : List UInt32) :
    Conn × List Sect :=
  match parseWebSocketUrl url with
  | .error e => (w, [.established caller (.error e)])
  | .ok parsed =>
      if w.client.state ≠ .kDisconnected then
        (w, [.established caller (.error ⟨.kAlreadyConnected, 0, "already connected"⟩)])
      else
        let key := nextKey w.client words
        (w.beginConnection o key,
          [.create caller parsed key (if parsed.tls then w.client.tlsConfig else {})
            w.client.headers])

/-- The call of the factory. -/
def create (w : Conn) (o : Origin) (caller : Caller) (url : ParsedUrl) (key : Bytes)
    (config : TlsConfig) (headers : Fields) : Result ℕ → Conn × List Sect
  | .error e => (w, [.abandon caller e])
  | .ok _ =>
      ((({ w with transports := w.transports + 1 } : Conn).log o
          (.created w.transports url.tls config)).log o
          (.connecting w.transports url.host url.port),
        [.transportConnect caller w.transports url key headers])

/-- The section behind a factory or a transport that refused. -/
def abandon (w : Conn) (caller : Caller) (e : NetworkError) : Conn × List Sect :=
  ({ w with client := { w.client with state := .kDisconnected } },
    [.established caller (.error e)])

/-- The section that stores the transport. -/
def store (w : Conn) (o : Origin) (caller : Caller) (t : ℕ) (request : Bytes) :
    Conn × List Sect :=
  (({ w with client := { w.client with transport := some t } } : Conn).log o (.stored t),
    [.transportSend t request (.establish caller)])

/-- The connection that `Establish` reports open. -/
def openConnection (w : Conn) (ms : Int) : Conn :=
  { w with client := { w.client with
    state := .kOpen, connected := true, lastSentMs := ms } }

/-- The last section of `Establish`, when the wait ends with an answer. -/
def wake (w : Conn) (caller : Caller) (ms : Int) : Conn × List Sect :=
  match w.client.handshakeError with
  | some e => (w, [.teardown kAbnormalClosure [], .established caller (.error e)])
  | none => (w.openConnection ms, [.established caller (.ok ())])

def upgradeTimeout : NetworkError := ⟨.kTimeout, 0, "the server did not answer the upgrade"⟩

/-- What `Connect` or `MaintainLoop` does with the result of `Establish`. -/
def established (w : Conn) : Caller → Result Unit → Conn × List Sect
  | .connect, .error e => (w, [.returned (.error e)])
  | .connect, .ok () =>
      (w, [.stopMaintain, .setRunning, .createTask, .callback .connected, .returned (.ok ())])
  | .maintain attempt, .error e =>
      ({ w with client := { w.client with reconnectAttempt := attempt + 1 } },
        [.callback (.error e), .maintainLoop])
  | .maintain _, .ok () =>
      ({ w with client := { w.client with reconnectAttempt := 0, reconnectExhausted := false } },
        [.callback .connected, .maintainLoop])

/-! ### Sending -/

/-- `SendFragment` up to `SendFrame`. -/
def sendFragment (w : Conn) (data : Bytes) (binary fin : Bool) : Conn × List Sect :=
  if w.client.state ≠ .kOpen then
    (w, [.returned (.error ⟨.kNotConnected, 0, "not connected"⟩)])
  else
    let opcode : WsOpcode :=
      if w.client.sendFragmentOpen then .kContinuation else if binary then .kBinary else .kText
    ({ w with client := { w.client with sendFragmentOpen := !fin } },
      [.sendFrame opcode data fin .sendFragment])

/-- `SendFrame` up to the transport's `Send`. -/
def sendFrame (w : Conn) (opcode : WsOpcode) (payload : Bytes) (fin : Bool)
    (caller : FrameCaller) (mask : UInt32) : Conn × List Sect :=
  match encodeFrame opcode payload fin (some mask) with
  | .error e => (w, [.frameSent caller (.error e)])
  | .ok encoded =>
      match w.client.transport with
      | none => (w, [.frameSent caller (.error ⟨.kNotConnected, 0, "not connected"⟩)])
      | some t => (w, [.transportSend t encoded (.sendFrame caller)])

/-- What the callers of `SendFrame` do with its result. -/
def frameSent (w : Conn) : FrameCaller → Result Unit → Conn × List Sect
  | .handler, _ => (w, [])
  | .sendFragment, result => (w, [.returned result])
  | .sendPing, .ok () => (w, [.readPingSent])
  | .sendPing, .error e => (w, [.callback (.error e)])

/-- `SendCloseFrame` up to the transport's `Send`. -/
def sendCloseFrame (w : Conn) (code : ℕ) (reason : Bytes) (caller : CloseCaller) (mask : UInt32) :
    Conn × List Sect :=
  if w.client.state ≠ .kOpen then (w, [])
  else
    let w := { w with client := { w.client with closeSent := true } }
    match w.client.transport with
    | none => (w, [])
    | some t =>
        match encodeFrame .kClose (closePayload code reason) true (some mask) with
        | .error _ => (w, [.closeFrameSent caller])
        | .ok encoded => (w, [.transportSend t encoded (.sendCloseFrame caller)])

/-- A close frame has gone out: `Close` waits for the peer's, `Fail` does not. -/
def closeFrameSent (w : Conn) : CloseCaller → Conn × List Sect
  | .close code reason => (w, [.awaitClosed code reason])
  | .fail => (w, [])

/-- What the callers of the transport's `Send` do with its result. -/
def sent (w : Conn) (result : Result ℕ) : SendCaller → Conn × List Sect
  | .establish caller =>
      match result with
      | .error e => (w, [.teardown kAbnormalClosure [], .established caller (.error e)])
      | .ok _ => (w, [.await caller])
  | .sendFrame caller =>
      match result with
      | .error e => (w, [.frameSent caller (.error e)])
      | .ok _ => (w, [.storeLastSent, .frameSent caller (.ok ())])
  | .sendCloseFrame caller => (w, [.storeLastSent, .closeFrameSent caller])

/-- `Ping`. -/
def ping (w : Conn) (payload : Bytes) : Conn × List Sect :=
  if kMaxControlPayload < payload.length then
    (w, [.callback (.error ⟨.kInvalidArgument, 0, "a ping payload cannot exceed 125 bytes"⟩)])
  else (w, [.sendFrame .kPing payload true .sendPing])

/-! ### Receiving -/

/-- `Fail`. -/
def fail (e : NetworkError) (code : ℕ) (reason : Bytes) : List Sect :=
  [.callback (.error e), .sendCloseFrame code reason .fail, .teardown code reason]

/-- What `ConsumeHandshakeLocked` makes of the head. -/
def handshakeVerdict [Target] (key head : Bytes) : Option NetworkError :=
  match parseHandshakeResponse head with
  | .error e => some e
  | .ok response =>
      if response.status ≠ 101 then
        some ⟨.kWsHandshakeFailed, response.status,
          "the server answered the upgrade with " ++ toString response.status⟩
      else if response.accept ≠ computeSecWebSocketAccept key then
        some ⟨.kWsHandshakeFailed, 0,
          "the server's Sec-WebSocket-Accept does not match the key that was sent"⟩
      else none

/-- "\r\n\r\n". -/
def blankLine : Bytes := crlf ++ crlf

/-- The head that ends at `e` is read, and the upgrade judged by it. -/
def readHead [Target] (w : Conn) (o : Origin) (e : ℕ) : Conn :=
  let head := w.client.rxBuffer.take (e + 4)
  ({ w with client := { w.client with
      rxBuffer := w.client.rxBuffer.drop (e + 4)
      handshakeDone := true
      handshakeError := (handshakeVerdict w.client.handshakeKey head).or w.client.handshakeError } }
    : Conn).log o (.head w.connection w.client.handshakeKey head)

/-- `ConsumeHandshakeLocked`. -/
def consumeHandshake [Target] (w : Conn) (o : Origin) : Conn :=
  match find blankLine w.client.rxBuffer with
  | none => w
  | some e => w.readHead o e

/-- "message too big". -/
def tooBigReason : Bytes :=
  ascii ['m', 'e', 's', 's', 'a', 'g', 'e', ' ', 't', 'o', 'o', ' ', 'b', 'i', 'g']

/-- `QueueInbound`. -/
def queueInbound [Target] (w : Conn) (o : Origin) (data : Bytes) : Conn × List Sect :=
  let rxBuffer := w.client.rxBuffer ++ data
  if kMaxMessageBytes < rxBuffer.length then
    ({ w with client := { w.client with rxBuffer := [] } },
      fail ⟨.kBufferOverflow, 0, "the inbound stream exceeds the buffer limit"⟩ kMessageTooBig
        tooBigReason)
  else
    let w := { w with client := { w.client with rxBuffer := rxBuffer } }
    (if w.client.handshakeDone then w else w.consumeHandshake o, [.enterDrain])

/-- The bytes of a text that the client writes into a close frame. -/
def reasonBytes (reason : String) : Bytes := reason.toUTF8.toList

/-- One turn of the loop of `DrainFrames`. What a frame leads to is executed for that frame. -/
def drainFrames (w : Conn) (o : Origin) : Conn × List Task :=
  let frameOrigin := Origin.frame w.connection
  if w.client.handshakeDone = false then (w, [])
  else
    match takeFrame w.client.rxBuffer with
    | (.incomplete, _) => (w, [])
    | (.invalid reason, _) =>
        (w.log frameOrigin (.violation reason),
          frameOrigin.tasks
            (fail ⟨.kProtocolError, 0, reason⟩ kProtocolErrorCode (reasonBytes reason)))
    | (.ready frame, rest) =>
        (({ w with client := { w.client with rxBuffer := rest } } : Conn).log frameOrigin
            (.frame frame),
          frameOrigin.tasks [.handleFrame frame] ++ o.tasks [.drainFrames])

/-- `HandleDataFrame`. -/
def handleDataFrame (w : Conn) (frame : WsFrame) : Conn × List Sect :=
  let violation (reason : String) : Conn × List Sect :=
    (w, fail ⟨.kProtocolError, 0, reason⟩ kProtocolErrorCode (reasonBytes reason))
  let c := w.client
  if frame.opcode = .kContinuation ∧ c.fragmentOpen = false then
    violation "a continuation frame arrived with no message to continue"
  else if frame.opcode ≠ .kContinuation ∧ c.fragmentOpen = true then
    violation "a new message started before the last one finished"
  else if frame.opcode = .kContinuation then
    let payload := c.fragmentPayload ++ frame.payload
    if kMaxMessageBytes < payload.length then
      ({ w with client := { c with fragmentPayload := payload } },
        fail ⟨.kBufferOverflow, 0, "a fragmented message exceeds the size limit"⟩ kMessageTooBig
          tooBigReason)
    else if frame.fin then
      ({ w with client := { c with fragmentPayload := [], fragmentOpen := false } },
        [.callback (.message payload c.fragmentBinary)])
    else ({ w with client := { c with fragmentPayload := payload } }, [])
  else if frame.fin then
    (w, [.callback (.message frame.payload (frame.opcode == .kBinary))])
  else
    ({ w with client := { c with
        fragmentOpen := true
        fragmentBinary := frame.opcode == .kBinary
        fragmentPayload := frame.payload } }, [])

/-- "malformed close frame". -/
def malformedClose : Bytes :=
  ascii ['m', 'a', 'l', 'f', 'o', 'r', 'm', 'e', 'd', ' ', 'c', 'l', 'o', 's', 'e', ' ', 'f', 'r',
    'a', 'm', 'e']

/-- `HandleCloseFrame` up to its section. -/
def handleCloseFrame (w : Conn) : Bytes → Conn × List Sect
  | [] => (w, [.answerClose kNoStatus [] []])
  | [_] =>
      (w, fail ⟨.kProtocolError, 0,
        "a close frame carries a single byte, which cannot be a status code"⟩ kProtocolErrorCode
        malformedClose)
  | high :: low :: reason =>
      (w, [.answerClose (high.toNat * 256 + low.toNat) reason (high :: low :: reason)])

/-- `HandleFrame` with `HandleControlFrame`. -/
def handleFrame (w : Conn) (frame : WsFrame) : Conn × List Sect :=
  match frame.opcode with
  | .kPing => (w, [.sendFrame .kPong frame.payload true .handler])
  | .kPong =>
      ({ w with client := { w.client with pingSentMs := 0 } }, [.callback (.pong frame.payload)])
  | .kClose => w.handleCloseFrame frame.payload
  | _ => w.handleDataFrame frame

/-- The rest of `HandleCloseFrame`. -/
def answerClose (w : Conn) (code : ℕ) (reason payload : Bytes) : Conn × List Sect :=
  ({ w with client := { w.client with closeSent := true } },
    (if w.client.closeSent then [] else [.sendFrame .kClose payload true .handler]) ++
      [.teardown code reason])

/-! ### Ending -/

/-- The client behind the section of `Teardown`. -/
def dropTransport (client : SoftwareWsClient) : SoftwareWsClient :=
  { client with
    state := .kDisconnected, transport := none, rxBuffer := [],
    fragmentOpen := false, fragmentBinary := false, fragmentPayload := [],
    sendFragmentOpen := false, closeSent := false, pingSentMs := 0 }

/-- `Teardown`. -/
def teardown (w : Conn) (o : Origin) (code : ℕ) (reason : Bytes) : Conn × List Sect :=
  let wasOpen : Bool := w.client.state = .kOpen ∧ w.client.transport ≠ none
  (({ w with client := dropTransport w.client } : Conn).log o (.tornDown code reason),
    (w.client.transport.map Sect.transportDisconnect).toList ++
      if wasOpen then [.notifyDisconnected code reason] else [])

/-- `Close` behind the stop of the maintenance task. -/
def closing (w : Conn) (code : ℕ) (reason : Bytes) : Conn × List Sect :=
  if code = kAbnormalClosure then
    (w, [.callback (.error ⟨.kInvalidArgument, 1006,
      "1006 describes how a connection ended and cannot be requested"⟩), .teardown code reason])
  else (w, [.sendCloseFrame code reason (.close code reason)])

/-! ### The maintenance task -/

/-- The section of `StopMaintain` that looks for the thread it runs on. -/
def joinMaintain (w : Conn) (i : ℕ) : Conn × List Sect :=
  if w.client.maintainThread = some i then (w, []) else (w, [.joining])

/-- A task that has ended can be joined and let go of. -/
def joining (w : Conn) : Option (Conn × List Sect) :=
  if w.client.maintainTask = none ∨ w.client.maintainTask = some .finished then
    some ({ w with client := { w.client with maintainTask := none } }, [])
  else none

/-- A new `maintain_task_`, which destroys the old one and so joins it. -/
def createTask (w : Conn) : Option (Conn × List Sect) :=
  if w.client.maintainTask = none ∨ w.client.maintainTask = some .finished then
    some ({ w with client := { w.client with maintainTask := some .pending } }, [])
  else none

/-- The section of `MaintainLoop` that reads the members, and the branch it takes. -/
def maintainRead (w : Conn) : Conn × List Sect :=
  let c := w.client
  if c.state = .kOpen then (w, [.maintainOpen c.heartbeat])
  else if c.state ≠ .kDisconnected ∨ c.reconnect.enabled = false ∨ c.userClosed = true then
    (w, [.maintainLoop])
  else if 0 ≤ c.reconnect.maxRetries ∧ c.reconnect.maxRetries ≤ c.reconnectAttempt then
    (w, [.giveUp c.reconnectAttempt])
  else (w, [.backoff c.reconnectAttempt c.url])

def maintainOpen (w : Conn) (config : HeartbeatConfig) : Conn × List Sect :=
  ({ w with client := { w.client with reconnectAttempt := 0 } },
    if config.enabled = false ∨ config.interval ≤ 0 then [.maintainLoop]
    else [.heartbeatNow config])

/-- How long a ping may go unanswered, in milliseconds. -/
def pongDeadline (config : HeartbeatConfig) : Int :=
  (if 0 < config.timeout then config.timeout else config.interval) * 1000

/-- "no pong from the peer". -/
def noPongReason : Bytes :=
  ascii ['n', 'o', ' ', 'p', 'o', 'n', 'g', ' ', 'f', 'r', 'o', 'm', ' ', 't', 'h', 'e', ' ', 'p',
    'e', 'e', 'r']

def heartbeatPing (w : Conn) (config : HeartbeatConfig) (now : Int) : Conn × List Sect :=
  if w.client.pingSentMs = 0 then (w, [.heartbeatIdle config now])
  else if pongDeadline config ≤ now - w.client.pingSentMs then
    (w, [.callback (.error ⟨.kTimeout, 0, "the peer did not answer a ping"⟩),
      .teardown kAbnormalClosure noPongReason, .maintainLoop])
  else (w, [.maintainLoop])

def heartbeatIdle (w : Conn) (config : HeartbeatConfig) (now : Int) : Conn × List Sect :=
  if config.interval * 1000 ≤ now - w.client.lastSentMs then
    (w, [.sendFrame .kPing [] true .sendPing, .maintainLoop])
  else (w, [.maintainLoop])

def giveUp (w : Conn) (attempt : ℕ) : Conn × List Sect :=
  if w.client.reconnectExhausted then (w, [.maintainLoop])
  else
    (w, [.setExhausted, .callback (.error ⟨.kConnectFailed, attempt,
      "giving up after " ++ toString attempt ++ " reconnection attempts"⟩), .maintainLoop])

/-! ### All sections -/

/-- The first section of a call. -/
def call (w : Conn) : Call → Conn × List Sect
  | .setHeader key value =>
      ({ w with client := { w.client with headers := setHeader key value w.client.headers } }, [])
  | .setTlsConfig config => ({ w with client := { w.client with tlsConfig := config } }, [])
  | .setHeartbeat config => ({ w with client := { w.client with heartbeat := config } }, [])
  | .setAutoReconnect config =>
      ({ w with client := { w.client with
        reconnect := config, reconnectAttempt := 0, reconnectExhausted := false } }, [])
  | .connect url => w.connect url
  | .close code reason =>
      ({ w with client := { w.client with userClosed := true } },
        [.stopMaintain, .closing code reason])
  | .sendFragment data binary fin => w.sendFragment data binary fin
  | .ping payload => w.ping payload

/-- A delivery of the transport. -/
def delivery : Choice → Option (List Task)
  | .data bytes => some [⟨.delivery, .onTransportData bytes⟩]
  | .closed => some [⟨.delivery, .teardown kAbnormalClosure []⟩]
  | _ => none

/-- The transport delivers out of a call into it, which then goes on. -/
def deliverWithin (w : Conn) (task : Task) (c : Choice) : Option (Conn × List Task) :=
  (delivery c).map fun tasks => (w, tasks ++ [task])

/-- One section, executed by thread `i`. -/
def exec [Target] (i : ℕ) (task : Task) (c : Choice) (w : Conn) : Option (Conn × List Task) :=
  let o := task.origin
  let push (out : Conn × List Sect) : Option (Conn × List Task) := some (out.1, o.tasks out.2)
  match task.sect, c with
  | .call call, .go => push (w.call call)
  | .establish caller url, .random words => push (w.establish o caller url words)
  | .create caller url key config headers, .answer result =>
      push (w.create o caller url key config headers result)
  | .abandon caller e, .go => push (w.abandon caller e)
  | .transportConnect caller t url key headers, .answer result =>
      match result with
      | .error e => push (w, [.abandon caller e])
      | .ok _ => push (w, [.store caller t (buildHandshakeRequest url key headers)])
  | .transportConnect .., c => w.deliverWithin task c
  | .store caller t request, .go => push (w.store o caller t request)
  | .await caller, .now ms =>
      if w.client.handshakeDone then (w.readClock ms).bind fun w => push (w.wake caller ms)
      else none
  | .await caller, .timeout =>
      if w.client.handshakeDone then none
      else push (w, [.teardown kAbnormalClosure [], .established caller (.error upgradeTimeout)])
  | .established caller result, .go => push (w.established caller result)
  | .closing code reason, .go => push (w.closing code reason)
  | .awaitClosed code reason, .go =>
      if w.client.state ≠ .kOpen then push (w, [.teardown code reason]) else none
  | .awaitClosed code reason, .timeout => push (w, [.teardown code reason])
  | .sendFrame opcode payload fin caller, .random [mask] =>
      push (w.sendFrame opcode payload fin caller mask)
  | .frameSent caller result, .go => push (w.frameSent caller result)
  | .sendCloseFrame code reason caller, .random [mask] =>
      push (w.sendCloseFrame code reason caller mask)
  | .closeFrameSent caller, .go => push (w.closeFrameSent caller)
  | .transportSend t bytes caller, .go =>
      push (w.log o (.sending t bytes), [.sending t bytes caller])
  | .sending t bytes caller, .answer result =>
      push ((w.log o (.sent t bytes result)).sent result caller)
  | .sending .., c => w.deliverWithin task c
  | .storeLastSent, .now ms =>
      (w.readClock ms).bind fun w =>
        push ({ w with client := { w.client with lastSentMs := ms } }, [])
  | .readPingSent, .now ms => (w.readClock ms).bind fun w => push (w, [.storePingSent ms])
  | .storePingSent ms, .go => push ({ w with client := { w.client with pingSentMs := ms } }, [])
  | .onTransportData data, .go => push (w.queueInbound o data)
  | .enterDrain, .go =>
      if i ∈ w.draining then push (w, [])
      else push ({ w with draining := i :: w.draining }, [.drainFrames, .leaveDrain])
  | .drainFrames, .go => some (w.drainFrames o)
  | .leaveDrain, .go => push ({ w with draining := w.draining.filter (· != i) }, [])
  | .handleFrame frame, .go => push (w.handleFrame frame)
  | .answerClose code reason payload, .go => push (w.answerClose code reason payload)
  | .teardown code reason, .go => push (w.teardown o code reason)
  | .transportDisconnect t, .go => push (w.log o (.disconnected t), [.disconnecting t])
  | .disconnecting _, .go => push (w, [])
  | .disconnecting _, c => w.deliverWithin task c
  | .notifyDisconnected code reason, .go =>
      push ({ w with client := { w.client with connected := false } },
        [.callback (.disconnected code reason)])
  | .stopMaintain, .go =>
      push ({ w with client := { w.client with maintainRunning := false } },
        if w.client.maintainTask = none then [] else [.joinMaintain])
  | .joinMaintain, .go => push (w.joinMaintain i)
  | .joining, .go => w.joining.bind push
  | .setRunning, .go =>
      push ({ w with client := { w.client with maintainRunning := true } }, [])
  | .createTask, .go => w.createTask.bind push
  | .maintainBegin, .go =>
      push ({ w with client := { w.client with maintainThread := some i } }, [.maintainLoop])
  | .maintainLoop, .go =>
      push (w, if w.client.maintainRunning then [.maintainTick] else [.maintainEnd])
  | .maintainTick, .go =>
      push (w, if w.client.maintainRunning then [.maintainRead] else [.maintainEnd])
  | .maintainRead, .go => push w.maintainRead
  | .maintainOpen config, .go => push (w.maintainOpen config)
  | .heartbeatNow config, .now ms =>
      (w.readClock ms).bind fun w => push (w, [.heartbeatPing config ms])
  | .heartbeatPing config now, .go => push (w.heartbeatPing config now)
  | .heartbeatIdle config now, .go => push (w.heartbeatIdle config now)
  | .giveUp attempt, .go => push (w.giveUp attempt)
  | .setExhausted, .go =>
      push ({ w with client := { w.client with reconnectExhausted := true } }, [])
  | .backoff attempt url, .again =>
      if w.client.maintainRunning then push (w, [.backoff attempt url]) else none
  | .backoff attempt url, .go => push (w, [.backoffOver attempt url])
  | .backoffOver attempt url, .go =>
      push (w, if w.client.maintainRunning then [.establish (.maintain attempt) url]
        else [.maintainEnd])
  | .maintainEnd, .go =>
      push ({ w with client := { w.client with maintainTask := some .finished } }, [])
  | .callback call, .go => push (w.log o (.callback call), [.inCallback])
  | .inCallback, .go => push (w, [])
  | .inCallback, .call call => some (w, [⟨.app, .call call⟩, task])
  | .returned result, .go => push (w.log o (.returned result), [])
  | _, _ => none

/-- A transport delivers once it is there, and the task runs once it is created. -/
def entry : Entry → Conn → Option (Conn × List Task)
  | .call call, w => some (w, [⟨.app, .call call⟩])
  | .data t bytes, w =>
      if t < w.transports then some (w, [⟨.delivery, .onTransportData bytes⟩]) else none
  | .closed t, w =>
      if t < w.transports then some (w, [⟨.delivery, .teardown kAbnormalClosure []⟩]) else none
  | .maintain, w =>
      if w.client.maintainTask = some .pending then
        some ({ w with client := { w.client with maintainTask := some .running } },
          [⟨.maintain, .maintainBegin⟩])
      else none

end Conn

/-- The client and its threads. -/
def program [Target] : Sections.Program Conn Task Entry Choice := ⟨Conn.entry, Conn.exec⟩

abbrev Config := Sections.Config Conn Task
abbrev Label := Sections.Label Entry Choice

/-- A client that was just made, with no thread in it. -/
def initial : Config := ⟨{}, []⟩

end EspModemLink.WebSocket
