import EspModemLink.Library.Sections
import EspModemLink.Http.Client
import EspModemLink.Mqtt.Packet

/-!
# The software MQTT client

`SoftwareMqttClient` as threads of atomic sections over one state. A section is a part of a member
function under `mutex_`, an access to an atomic, a callback, or a call into the transport, which may
deliver before it returns.
-/

namespace EspModemLink.Mqtt

open Bytes Http

/-! ## The client -/

/-- What has become of the thread behind `keepalive_task_`. -/
inductive TaskStatus where
  | pending | running | finished
deriving DecidableEq, Repr

/-- The members of `SoftwareMqttClient`. A transport is known by its number, and a map is the list
of its entries. -/
structure SoftwareMqttClient where
  transport : Option ℕ := none
  connected : Bool := false
  rxBuffer : Bytes := []
  clientId : Bytes := []
  username : Bytes := []
  password : Bytes := []
  hasCredentials : Bool := false
  keepAliveSeconds : Int := 60
  hasWill : Bool := false
  will : MqttWill := {}
  tlsEnabled : Bool := false
  tls : TlsConfig := {}
  connecting : Bool := false
  connackReady : Bool := false
  connackError : Option NetworkError := none
  lastPacketId : ℕ := 0
  pendingTopics : List (ℕ × Bytes) := []
  pendingQos2 : List (ℕ × MqttPublishMessage) := []
  keepAliveTask : Option TaskStatus := none
  keepAliveRunning : Bool := false
  lastSentMs : Int := 0
  pingSentMs : Int := 0

def kMaxBufferedBytes : ℕ := 64 * 1024

/-- The entry of a map under a key. -/
def lookup {α : Type*} (key : ℕ) (entries : List (ℕ × α)) : Option α :=
  (entries.find? fun e => e.1 == key).map Prod.snd

/-- `erase` of a map. -/
def erase {α : Type*} (key : ℕ) (entries : List (ℕ × α)) : List (ℕ × α) :=
  entries.filter fun e => e.1 != key

/-- `emplace` of a map, which keeps the entry that is there. -/
def emplace {α : Type*} (key : ℕ) (value : α) (entries : List (ℕ × α)) : List (ℕ × α) :=
  match lookup key entries with
  | some _ => entries
  | none => entries ++ [(key, value)]

/-- The assignment `entries[key] = value`. -/
def assign {α : Type*} (key : ℕ) (value : α) (entries : List (ℕ × α)) : List (ℕ × α) :=
  erase key entries ++ [(key, value)]

theorem lookup_erase {α : Type*} (key id : ℕ) (entries : List (ℕ × α)) :
    lookup id (erase key entries) = if id = key then none else lookup id entries := by
  unfold lookup erase
  rw [List.find?_filter]
  split
  · rename_i hsame
    subst hsame
    rw [Option.map_eq_none_iff, List.find?_eq_none]
    intro e _
    simp
  · rename_i hne
    congr 2
    funext e
    by_cases he : e.1 = id
    · simp [he, hne]
    · simp [he]

theorem lookup_append {α : Type*} (id : ℕ) (entries more : List (ℕ × α)) :
    lookup id (entries ++ more) = (lookup id entries).or (lookup id more) := by
  unfold lookup
  rw [List.find?_append]
  cases entries.find? fun e => e.1 == id <;> rfl

theorem lookup_emplace {α : Type*} (key id : ℕ) (value : α) (entries : List (ℕ × α)) :
    lookup id (emplace key value entries) =
      (lookup id entries).or (if id = key then some value else none) := by
  unfold emplace
  cases hlookup : lookup key entries with
  | some old =>
      by_cases hid : id = key
      · subst hid
        simp [hlookup]
      · simp [hid]
  | none =>
      simp only [lookup_append]
      by_cases hid : id = key
      · subst hid
        simp [lookup]
      · simp [lookup, hid, Ne.symm hid]

/-! ## Sections -/

/-- What a section is executed for: a call of the application, the keep-alive task, a callback of a
transport, or a packet that is being handled. Calls and packets go by their numbers. -/
inductive Origin where
  | call (number : ℕ) | keepAlive | delivery (t : ℕ) | packet (number : ℕ)
deriving DecidableEq, Repr

/-- The caller of the transport's `Send`: a request through `SendPacket`, or `Teardown`. -/
inductive SendCaller where
  | connect
  | publish (packetId : ℕ)
  | subscribe (packetId : ℕ)
  | unsubscribe (packetId : ℕ)
  | handler
  | keepAlive (interval now : Int)
  | goodbye
deriving DecidableEq, Repr

/-- The callbacks of the application. -/
inductive Callback where
  | connected
  | disconnected
  | message (m : MqttPublishMessage)
  | publishAck (packetId : ℕ)
  | error (e : NetworkError)
deriving DecidableEq, Repr

/-- The calls of the application. -/
inductive Call where
  | setKeepAlive (seconds : Int)
  | setClientId (clientId : Bytes)
  | setCredentials (user pass : Bytes)
  | setWill (will : MqttWill)
  | setTlsConfig (config : TlsConfig)
  | connect (host : Bytes) (port : ℕ) (cleanSession : Bool)
  | disconnect
  | publish (topic payload : Bytes) (qos : MqttQoS) (retain : Bool)
  | subscribe (topic : Bytes) (qos : MqttQoS)
  | unsubscribe (topic : Bytes)
deriving DecidableEq, Repr

/-- What a call returns, with the packet id where there is one. -/
abbrev Returned := Result (Option ℕ)

inductive Sect where
  | call (c : Call)
  -- Connect
  | create (t : ℕ) (tls : Bool) (config : TlsConfig) (host : Bytes) (port : ℕ)
      (options : MqttConnectOptions)
  | transportConnect (t : ℕ) (host : Bytes) (port : ℕ) (options : MqttConnectOptions)
  | store (t : ℕ) (options : MqttConnectOptions)
  | await
  -- sending
  | sendPacket (packet : Bytes) (caller : SendCaller)
  | transportSend (t : ℕ) (packet : Bytes) (caller : SendCaller)
  | sending (t : ℕ) (packet : Bytes) (caller : SendCaller)
  | storeLastSent
  | packetSent (caller : SendCaller) (result : Result Unit)
  | dropTopic (packetId : ℕ)
  -- receiving
  | onTransportData (t : ℕ) (data : Bytes)
  | takePackets
  | handlePacket (number : ℕ) (packet : MqttPacket)
  -- ending
  | teardown (sendDisconnect : Bool)
  | stopLoop
  | clearPing
  | transportDisconnect (t : ℕ)
  | disconnecting (t : ℕ)
  -- the keep-alive task
  | startKeepAlive
  | stopKeepAlive
  | joining
  | setRunning
  | createTask
  | keepAliveBegin
  | keepAliveLoop (interval : Int)
  | keepAliveTick (interval : Int)
  | keepAliveNow (interval : Int)
  | keepAlivePing (interval now : Int)
  | keepAliveIdle (interval now : Int)
  | storePing (now : Int)
  | keepAliveEnd
  -- callbacks
  | callback (c : Callback)
  | inCallback
  | returned (result : Returned)
deriving DecidableEq

/-- A section and what it is executed for. -/
structure Task where
  origin : Origin
  sect : Sect
deriving DecidableEq

def Origin.tasks (o : Origin) (sects : List Sect) : List Task := sects.map (Task.mk o)

/-- What the outside decides when a section is executed: the clock, the answer of the factory or the
transport, a delivery of a transport out of a call into it, the end of a wait, or a call out of a
callback. -/
inductive Choice where
  | go
  | now (ms : Int)
  | answer (result : Result ℕ)
  | data (t : ℕ) (bytes : Bytes)
  | closed (t : ℕ)
  | timeout
  | call (c : Call)

/-- What threads begin with: a call, a delivery of a transport, or the task that was created. -/
inductive Entry where
  | call (c : Call)
  | data (t : ℕ) (bytes : Bytes)
  | closed (t : ℕ)
  | keepAlive

/-- What happened. A `Connect` that gets past its first section is an attempt, and the attempts, the
transports they make and the packets taken off the stream are numbered from 0. -/
inductive Event where
  | called (c : Call)
  | began (t : ℕ)
  | created (t : ℕ) (tls : Bool) (config : TlsConfig)
  | connecting (t : ℕ) (host : Bytes) (port : ℕ)
  | stored (t : ℕ)
  | sending (t : ℕ) (packet : Bytes) (caller : SendCaller)
  | sent (t : ℕ) (packet : Bytes) (caller : SendCaller) (result : Result ℕ)
  | arrived (t : ℕ) (data : Bytes)
  | overflowed
  | taken (packet : MqttPacket)
  | received (number : ℕ) (packet : MqttPacket)
  | tornDown
  | disconnected (t : ℕ)
  | callback (c : Callback)
  | returned (result : Returned)
deriving DecidableEq

/-- The client, how many attempts, calls and packets there have been, the transports made, the
clock, and what has happened. -/
structure Conn where
  client : SoftwareMqttClient := {}
  attempts : ℕ := 0
  transports : List ℕ := []
  calls : ℕ := 0
  taken : ℕ := 0
  received : ℕ := 0
  clock : Int := 0
  trace : List (Origin × Event) := []

namespace Conn

def log (w : Conn) (o : Origin) (e : Event) : Conn := { w with trace := w.trace ++ [(o, e)] }

/-- `platform::Now()`, which does not run backwards. -/
def readClock (w : Conn) (ms : Int) : Option Conn :=
  if w.clock ≤ ms then some { w with clock := ms } else none

def notConnected : NetworkError := ⟨.kNotConnected, 0, "not connected"⟩

/-! ### Connect -/

/-- The options of the CONNECT packet that the members ask for. -/
def connectOptions (c : SoftwareMqttClient) (cleanSession : Bool) : MqttConnectOptions :=
  { clientId := c.clientId
    username := c.username
    password := c.password
    hasUsername := c.hasCredentials
    hasPassword := c.hasCredentials
    cleanSession := cleanSession
    keepAliveSeconds := ((if c.keepAliveSeconds < 0 then 0 else c.keepAliveSeconds) % 65536).toNat
    hasWill := c.hasWill
    will := c.will }

/-- The members that `Connect` resets before it makes a transport. -/
def beginAttempt (c : SoftwareMqttClient) : SoftwareMqttClient :=
  { c with connecting := true, connackReady := false, connackError := none, rxBuffer := [] }

/-- The first section of `Connect`. -/
def connect (w : Conn) (o : Origin) (host : Bytes) (port : ℕ) (cleanSession : Bool) :
    Conn × List Sect :=
  if w.client.connected = true ∨ w.client.transport ≠ none then
    (w, [.returned (.error ⟨.kAlreadyConnected, 0, "already connected"⟩)])
  else
    (({ w with client := beginAttempt w.client, attempts := w.attempts + 1 } : Conn).log o
        (.began w.attempts),
      [.create w.attempts w.client.tlsEnabled w.client.tls host port
        (connectOptions w.client cleanSession)])

/-- The call of the factory. -/
def create (w : Conn) (o : Origin) (t : ℕ) (tls : Bool) (config : TlsConfig) (host : Bytes)
    (port : ℕ) (options : MqttConnectOptions) : Result ℕ → Conn × List Sect
  | .error e => (w, [.returned (.error e)])
  | .ok _ =>
      ((({ w with transports := w.transports ++ [t] } : Conn).log o (.created t tls config)).log o
          (.connecting t host port),
        [.transportConnect t host port options])

/-- The section that stores the transport. -/
def store (w : Conn) (o : Origin) (t : ℕ) (options : MqttConnectOptions) : Conn × List Sect :=
  (({ w with client := { w.client with transport := some t } } : Conn).log o (.stored t),
    [.sendPacket (encodeConnect options) .connect])

def connackTimeout : NetworkError := ⟨.kTimeout, 0, "no CONNACK from broker"⟩

/-- The wait of `Connect` ends with an answer. -/
def wake (w : Conn) : List Sect :=
  match w.client.connackError with
  | some e => [.teardown false, .returned (.error e)]
  | none => [.startKeepAlive, .callback .connected, .returned (.ok none)]

/-! ### Requests and sending -/

/-- `NextPacketIdLocked`. -/
def nextPacketId (last : ℕ) : ℕ := if last = 0xFFFF then 1 else last + 1

/-- `Publish` up to `SendPacket`. -/
def publish (w : Conn) (topic payload : Bytes) (qos : MqttQoS) (retain : Bool) : Conn × List Sect :=
  if w.client.connected = false then (w, [.returned (.error notConnected)])
  else if 0 < qos.toNat then
    let packetId := nextPacketId w.client.lastPacketId
    ({ w with client := { w.client with lastPacketId := packetId } },
      [.sendPacket (encodePublish packetId topic payload qos.toNat retain) (.publish packetId)])
  else (w, [.sendPacket (encodePublish 0 topic payload qos.toNat retain) (.publish 0)])

/-- The section in which `Subscribe` and `Unsubscribe` take a packet id and note their topic. -/
def noteTopic (w : Conn) (topic : Bytes) : Conn :=
  { w with client := { w.client with
      lastPacketId := nextPacketId w.client.lastPacketId
      pendingTopics := assign (nextPacketId w.client.lastPacketId) topic w.client.pendingTopics } }

/-- `Subscribe` up to `SendPacket`. -/
def subscribe (w : Conn) (topic : Bytes) (qos : MqttQoS) : Conn × List Sect :=
  if w.client.connected = false then (w, [.returned (.error notConnected)])
  else
    let packetId := nextPacketId w.client.lastPacketId
    (w.noteTopic topic,
      [.sendPacket (encodeSubscribe packetId topic qos.toNat) (.subscribe packetId)])

/-- `Unsubscribe` up to `SendPacket`. -/
def unsubscribe (w : Conn) (topic : Bytes) : Conn × List Sect :=
  if w.client.connected = false then (w, [.returned (.error notConnected)])
  else
    let packetId := nextPacketId w.client.lastPacketId
    (w.noteTopic topic,
      [.sendPacket (encodeUnsubscribe packetId topic) (.unsubscribe packetId)])

/-- `SendPacket` up to the transport's `Send`. -/
def sendPacket (w : Conn) (packet : Bytes) (caller : SendCaller) : List Sect :=
  match w.client.transport with
  | none => [.packetSent caller (.error notConnected)]
  | some t => [.transportSend t packet caller]

/-- What `SendPacket` and `Teardown` do with the answer of the transport's `Send`. -/
def sent (caller : SendCaller) (result : Result ℕ) : List Sect :=
  match caller, result with
  | .goodbye, _ => []
  | caller, .error e => [.packetSent caller (.error e)]
  | caller, .ok _ => [.storeLastSent, .packetSent caller (.ok ())]

/-- What the callers of `SendPacket` do with its result. -/
def packetSent : SendCaller → Result Unit → List Sect
  | .connect, .ok () => [.await]
  | .connect, .error e => [.teardown false, .returned (.error e)]
  | .publish packetId, .ok () => [.returned (.ok (some packetId))]
  | .publish _, .error e => [.returned (.error e)]
  | .subscribe packetId, .ok () => [.returned (.ok (some packetId))]
  | .subscribe packetId, .error e => [.dropTopic packetId, .returned (.error e)]
  | .unsubscribe _, .ok () => [.returned (.ok none)]
  | .unsubscribe packetId, .error e => [.dropTopic packetId, .returned (.error e)]
  | .handler, _ => []
  | .keepAlive interval now, .ok () => [.storePing now, .keepAliveLoop interval]
  | .keepAlive interval _, .error _ => [.keepAliveLoop interval]
  | .goodbye, _ => []

/-! ### Ending -/

/-- The client behind the section of `Teardown`. -/
def dropTransport (c : SoftwareMqttClient) : SoftwareMqttClient :=
  { c with
    transport := none, connected := false, connecting := false, connackReady := false,
    rxBuffer := [], pendingQos2 := [], pendingTopics := [] }

/-- What `Teardown` does with the transport it took. -/
def endTransport (sendDisconnect : Bool) : Option ℕ → List Sect
  | none => []
  | some t =>
      (if sendDisconnect then [.transportSend t encodeDisconnect .goodbye] else []) ++
        [.transportDisconnect t, .callback .disconnected]

/-- `Teardown`. -/
def teardown (w : Conn) (o : Origin) (sendDisconnect : Bool) : Conn × List Sect :=
  (({ w with client := dropTransport w.client } : Conn).log o .tornDown,
    [.stopLoop, .clearPing] ++ endTransport sendDisconnect w.client.transport)

/-! ### Receiving -/

def bufferOverflow : NetworkError :=
  ⟨.kBufferOverflow, 0, "inbound MQTT stream exceeds the buffer limit"⟩

/-- The first section of `OnTransportData`. -/
def onTransportData (w : Conn) (o : Origin) (t : ℕ) (data : Bytes) : Conn × List Sect :=
  let rxBuffer := w.client.rxBuffer ++ data
  let w := w.log o (.arrived t data)
  if kMaxBufferedBytes < rxBuffer.length then
    (({ w with client := { w.client with rxBuffer := [] } } : Conn).log o .overflowed,
      [.callback (.error bufferOverflow), .teardown false])
  else ({ w with client := { w.client with rxBuffer := rxBuffer } }, [.takePackets])

/-- One turn of the loop of `OnTransportData`. -/
def takePackets (w : Conn) (o : Origin) : Conn × List Sect :=
  match takePacket w.client.rxBuffer with
  | none => (w, [])
  | some (packet, rest) =>
      (({ w with client := { w.client with rxBuffer := rest }, taken := w.taken + 1 } : Conn).log o
          (.taken packet),
        [.handlePacket w.taken packet, .takePackets])

def malformed (context : String) : Sect := .callback (.error ⟨.kProtocolError, 0, context⟩)

/-- The error that a refusing CONNACK leaves. -/
def refusal (code : MqttConnectReturnCode) : NetworkError :=
  ⟨if code = .kNotAuthorized ∨ code = .kBadCredentials then .kMqttNotAuthorized
    else .kConnectFailed, code.toNat, describeConnectReturnCode code⟩

/-- `HandleConnack`. -/
def handleConnack (c : SoftwareMqttClient) (body : Bytes) : SoftwareMqttClient :=
  if c.connecting = false then c
  else
    match parseConnack body with
    | none =>
        { c with connecting := false, connackReady := true
                 connackError := some ⟨.kProtocolError, 0, "malformed CONNACK"⟩ }
    | some connack =>
        if connack.code = .kAccepted then
          { c with connecting := false, connackReady := true, connected := true }
        else
          { c with connecting := false, connackReady := true
                   connackError := some (refusal connack.code) }

/-- `HandlePublish` with its section. -/
def handlePublish (c : SoftwareMqttClient) (packet : MqttPacket) : SoftwareMqttClient × List Sect :=
  if 2 < packet.header.qos then
    (c, [.callback (.error ⟨.kProtocolError, packet.header.qos, "PUBLISH with both QoS bits set"⟩),
      .teardown false])
  else
    match parsePublish packet.header packet.body with
    | none => (c, [malformed "malformed PUBLISH from broker"])
    | some message =>
        if packet.header.qos = 2 then
          ({ c with pendingQos2 := emplace message.packetId message c.pendingQos2 },
            [.sendPacket (encodePacketIdAck .kPubrec message.packetId) .handler])
        else if packet.header.qos = 1 then
          (c, [.sendPacket (encodePacketIdAck .kPuback message.packetId) .handler,
            .callback (.message message)])
        else (c, [.callback (.message message)])

/-- `HandlePubrec`. -/
def handlePubrec (body : Bytes) : List Sect :=
  match parsePacketId body with
  | none => [malformed "malformed PUBREC from broker"]
  | some packetId => [.sendPacket (encodePacketIdAck .kPubrel packetId) .handler]

/-- `HandlePubrel` with its section. -/
def handlePubrel (c : SoftwareMqttClient) (body : Bytes) : SoftwareMqttClient × List Sect :=
  match parsePacketId body with
  | none => (c, [malformed "malformed PUBREL from broker"])
  | some packetId =>
      ({ c with pendingQos2 := erase packetId c.pendingQos2 },
        .sendPacket (encodePacketIdAck .kPubcomp packetId) .handler ::
          ((lookup packetId c.pendingQos2).map fun m => Sect.callback (.message m)).toList)

/-- `HandlePublishComplete`. -/
def handlePublishComplete (body : Bytes) : List Sect :=
  match parsePacketId body with
  | none => [malformed "malformed publish acknowledgement from broker"]
  | some packetId => [.callback (.publishAck packetId)]

/-- `HandleSuback` with its section. -/
def handleSuback (c : SoftwareMqttClient) (body : Bytes) : SoftwareMqttClient × List Sect :=
  match parseSuback body with
  | none => (c, [malformed "malformed SUBACK from broker"])
  | some suback =>
      ({ c with pendingTopics := erase suback.packetId c.pendingTopics },
        if (0x80 : UInt8) ∈ suback.returnCodes then
          [.callback (.error ⟨.kProtocolError, 0x80, "broker refused the subscription to '" ++
            text ((lookup suback.packetId c.pendingTopics).getD []) ++ "'"⟩)]
        else [])

/-- `HandleUnsuback`. -/
def handleUnsuback (c : SoftwareMqttClient) (body : Bytes) : SoftwareMqttClient × List Sect :=
  match parsePacketId body with
  | none => (c, [malformed "malformed UNSUBACK from broker"])
  | some packetId => ({ c with pendingTopics := erase packetId c.pendingTopics }, [])

/-- `HandlePacket` with the first section of the handler it calls. -/
def handled (c : SoftwareMqttClient) (packet : MqttPacket) : SoftwareMqttClient × List Sect :=
  match packet.header.type with
  | .kConnack => (handleConnack c packet.body, [])
  | .kPublish => handlePublish c packet
  | .kPuback | .kPubcomp => (c, handlePublishComplete packet.body)
  | .kPubrec => (c, handlePubrec packet.body)
  | .kPubrel => handlePubrel c packet.body
  | .kSuback => handleSuback c packet.body
  | .kUnsuback => handleUnsuback c packet.body
  | .kPingresp => ({ c with pingSentMs := 0 }, [])
  | _ => (c, [])

/-- The handler runs for the packet, which gets the next number of the packets received. -/
def handlePacket (w : Conn) (number : ℕ) (packet : MqttPacket) : Conn × List Task :=
  (({ w with client := (handled w.client packet).1, received := w.received + 1 } : Conn).log
      (.packet w.received) (.received number packet),
    (Origin.packet w.received).tasks (handled w.client packet).2)

/-! ### The keep-alive task -/

/-- The section of `StartKeepAlive`. -/
def startKeepAlive (w : Conn) : List Sect :=
  if w.client.keepAliveSeconds ≤ 0 then []
  else [.stopKeepAlive, .storeLastSent, .clearPing, .setRunning, .createTask]

/-- A task that has ended can be joined and let go of. -/
def joining (w : Conn) : Option Conn :=
  if w.client.keepAliveTask = none ∨ w.client.keepAliveTask = some .finished then
    some { w with client := { w.client with keepAliveTask := none } }
  else none

/-- A new `keepalive_task_`, which destroys the old one and so joins it. -/
def createTask (w : Conn) : Option Conn :=
  if w.client.keepAliveTask = none ∨ w.client.keepAliveTask = some .finished then
    some { w with client := { w.client with keepAliveTask := some .pending } }
  else none

/-- The section at the begin of `KeepAliveLoop`. -/
def keepAliveBegin (w : Conn) : List Sect :=
  if w.client.keepAliveSeconds ≤ 0 then [.stopLoop, .keepAliveEnd]
  else [.keepAliveLoop (w.client.keepAliveSeconds * 1000)]

def pingTimeout : NetworkError := ⟨.kTimeout, 0, "no PINGRESP from broker"⟩

/-- The loop behind its two readings of the clock and of `ping_sent_ms_`. -/
def keepAlivePing (w : Conn) (interval now : Int) : List Sect :=
  if w.client.pingSentMs = 0 then [.keepAliveIdle interval now]
  else if interval ≤ now - w.client.pingSentMs then
    [.callback (.error pingTimeout), .teardown false, .keepAliveEnd]
  else [.keepAliveLoop interval]

def keepAliveIdle (w : Conn) (interval now : Int) : List Sect :=
  if interval ≤ now - w.client.lastSentMs then
    [.sendPacket encodePingreq (.keepAlive interval now)]
  else [.keepAliveLoop interval]

/-! ### All sections -/

/-- The first section of a call. -/
def call (w : Conn) (o : Origin) : Call → Conn × List Sect
  | .setKeepAlive seconds =>
      ({ w with client := { w.client with keepAliveSeconds := seconds } }, [])
  | .setClientId clientId => ({ w with client := { w.client with clientId := clientId } }, [])
  | .setCredentials user pass =>
      ({ w with client := { w.client with
        username := user, password := pass, hasCredentials := true } }, [])
  | .setWill will => ({ w with client := { w.client with will := will, hasWill := true } }, [])
  | .setTlsConfig config =>
      ({ w with client := { w.client with tls := config, tlsEnabled := true } }, [])
  | .connect host port cleanSession => w.connect o host port cleanSession
  | .disconnect => (w, [.stopKeepAlive, .teardown true])
  | .publish topic payload qos retain => w.publish topic payload qos retain
  | .subscribe topic qos => w.subscribe topic qos
  | .unsubscribe topic => w.unsubscribe topic

/-- A new call gets the next number. -/
def newCall (w : Conn) (c : Call) : Conn × Task :=
  (({ w with calls := w.calls + 1 } : Conn).log (.call w.calls) (.called c),
    ⟨.call w.calls, .call c⟩)

/-- What a delivery of a transport begins with. -/
def delivery (w : Conn) : Choice → Option Task
  | .data t bytes =>
      if t ∈ w.transports then some ⟨.delivery t, .onTransportData t bytes⟩ else none
  | .closed t => if t ∈ w.transports then some ⟨.delivery t, .teardown false⟩ else none
  | _ => none

/-- A transport delivers out of a call into it, which then goes on. -/
def deliverWithin (w : Conn) (task : Task) (c : Choice) : Option (Conn × List Task) :=
  (w.delivery c).map fun first => (w, [first, task])

/-- One section. -/
def exec (task : Task) (c : Choice) (w : Conn) : Option (Conn × List Task) :=
  let o := task.origin
  let push (out : Conn × List Sect) : Option (Conn × List Task) := some (out.1, o.tasks out.2)
  match task.sect, c with
  | .call call, .go => push (w.call o call)
  | .create t tls config host port options, .answer result =>
      push (w.create o t tls config host port options result)
  | .transportConnect t _ _ options, .answer result =>
      match result with
      | .error e => push (w, [.returned (.error e)])
      | .ok _ => push (w, [.store t options])
  | .transportConnect .., c => w.deliverWithin task c
  | .store t options, .go => push (w.store o t options)
  | .await, .go => if w.client.connackReady then push (w, w.wake) else none
  | .await, .timeout =>
      if w.client.connackReady then none
      else push (w, [.teardown true, .returned (.error connackTimeout)])
  | .sendPacket packet caller, .go => push (w, w.sendPacket packet caller)
  | .transportSend t packet caller, .go =>
      push (w.log o (.sending t packet caller), [.sending t packet caller])
  | .sending t packet caller, .answer result =>
      push (w.log o (.sent t packet caller result), sent caller result)
  | .sending .., c => w.deliverWithin task c
  | .storeLastSent, .now ms =>
      (w.readClock ms).bind fun w =>
        push ({ w with client := { w.client with lastSentMs := ms } }, [])
  | .packetSent caller result, .go => push (w, packetSent caller result)
  | .dropTopic packetId, .go =>
      push ({ w with client := { w.client with
        pendingTopics := erase packetId w.client.pendingTopics } }, [])
  | .onTransportData t data, .go => push (w.onTransportData o t data)
  | .takePackets, .go => push (w.takePackets o)
  | .handlePacket number packet, .go => some (w.handlePacket number packet)
  | .teardown sendDisconnect, .go => push (w.teardown o sendDisconnect)
  | .stopLoop, .go =>
      push ({ w with client := { w.client with keepAliveRunning := false } }, [])
  | .clearPing, .go => push ({ w with client := { w.client with pingSentMs := 0 } }, [])
  | .transportDisconnect t, .go => push (w.log o (.disconnected t), [.disconnecting t])
  | .disconnecting _, .go => push (w, [])
  | .disconnecting _, c => w.deliverWithin task c
  | .startKeepAlive, .go => push (w, w.startKeepAlive)
  | .stopKeepAlive, .go =>
      push ({ w with client := { w.client with keepAliveRunning := false } },
        if w.client.keepAliveTask = none then [] else [.joining])
  | .joining, .go => w.joining.bind fun w => push (w, [])
  | .setRunning, .go => push ({ w with client := { w.client with keepAliveRunning := true } }, [])
  | .createTask, .go => w.createTask.bind fun w => push (w, [])
  | .keepAliveBegin, .go => push (w, w.keepAliveBegin)
  | .keepAliveLoop interval, .go =>
      push (w, if w.client.keepAliveRunning then [.keepAliveTick interval] else [.keepAliveEnd])
  | .keepAliveTick interval, .go =>
      push (w, if w.client.keepAliveRunning then [.keepAliveNow interval] else [.keepAliveEnd])
  | .keepAliveNow interval, .now ms =>
      (w.readClock ms).bind fun w => push (w, [.keepAlivePing interval ms])
  | .keepAlivePing interval now, .go => push (w, w.keepAlivePing interval now)
  | .keepAliveIdle interval now, .go => push (w, w.keepAliveIdle interval now)
  | .storePing now, .go => push ({ w with client := { w.client with pingSentMs := now } }, [])
  | .keepAliveEnd, .go =>
      push ({ w with client := { w.client with keepAliveTask := some .finished } }, [])
  | .callback call, .go => push (w.log o (.callback call), [.inCallback])
  | .inCallback, .go => push (w, [])
  | .inCallback, .call c => some ((w.newCall c).1, [(w.newCall c).2, task])
  | .returned result, .go => push (w.log o (.returned result), [])
  | _, _ => none

/-- A transport delivers once it is there, and the task runs once it is created. -/
def entry : Entry → Conn → Option (Conn × List Task)
  | .call c, w => some ((w.newCall c).1, [(w.newCall c).2])
  | .data t bytes, w => (w.delivery (.data t bytes)).map fun first => (w, [first])
  | .closed t, w => (w.delivery (.closed t)).map fun first => (w, [first])
  | .keepAlive, w =>
      if w.client.keepAliveTask = some .pending then
        some ({ w with client := { w.client with keepAliveTask := some .running } },
          [⟨.keepAlive, .keepAliveBegin⟩])
      else none

end Conn

/-- The client and its threads. -/
def program : Sections.Program Conn Task Entry Choice := ⟨Conn.entry, fun _ => Conn.exec⟩

abbrev Config := Sections.Config Conn Task
abbrev Label := Sections.Label Entry Choice

/-- A client that was just made, with no thread in it. -/
def initial : Config := ⟨{}, []⟩

end EspModemLink.Mqtt
