import EspModemLink.Library.Sections
import EspModemLink.Air780e.State

/-!
# The AIR780E module driver

`Air780eHal` as threads of sections: what runs under one mutex, one AT command or one callback is
one section. Threads are the callers that open, subscribe, send and close, the receive loop, the
handlers of unsolicited lines, and whoever else sends commands on the channel. What the module
answers and reports, and which of its sockets that is about, comes from outside.
-/

namespace EspModemLink.Air780e

open Bytes AtParser Hal

/-- What only the record of the run knows: the `AT+CIPSSL` value confirmed last, the serial given
last for each id, and the generations of the bytes and closes that wait in the response, in the
holds and as close records. -/
structure History where
  confirmedSsl : Option Bool := none
  lastSerial : Cid → ℕ := fun _ => 0
  responseGen : ℕ := 0
  heldGens : Cid → List ℕ := fun _ => []
  closeGen : Cid → ℕ := fun _ => 0

/-- The driver, the lines of the last response of its channel, and its routes. The client that
subscribed for a generation is known by that generation. -/
structure Air780eHal where
  pool : Pool := {}
  modes : Modes := {}
  openWait : OpenWait := {}
  sendWait : Cid → SendWait := fun _ => {}
  events : Events := {}
  receiver : Receiver := {}
  routing : Routing ℕ := {}
  responseLines : List Bytes := []
  history : History := {}

/-- The arguments of `OpenSocket`, and how far its search has come. -/
structure Opening where
  udp : Bool
  ssl : Bool
  host : Bytes
  port : ℕ
  tried : List Cid := []
  attempt : ℕ := 0
deriving DecidableEq

/-- What a call returns. An open is followed by the subscription of the client that made it. -/
inductive Returned where
  | opened (o : Opening) (r : Result (Cid × ℕ))
  | done (r : Result Int)
  | line (r : Result Bytes)
deriving DecidableEq

inductive Sect where
  -- `ReserveSocketForMode` and `ApplySslSwitch`
  | reserve (o : Opening)
  | sslVersion (o : Opening)
  | sslSwitch (o : Opening)
  | sslQuery (o : Opening)
  | sslReadBack (o : Opening)
  | endSwitch (o : Opening) (r : Result Unit)
  | releaseMode (ssl : Bool)
  -- `OpenSocket`
  | allocate (o : Opening)
  | claim (o : Opening) (id : Cid) (gen : ℕ)
  | setType (o : Opening) (id : Cid) (gen : ℕ)
  | armOpenWait (o : Opening) (id : Cid) (gen : ℕ)
  | cipStart (o : Opening) (id : Cid) (gen : ℕ)
  | waitForOpenResult (o : Opening) (id : Cid) (gen : ℕ)
  | keep (o : Opening) (id : Cid) (gen : ℕ)
  -- `RetireSlot`, and what `ReleaseConnectionId` does after it
  | retire (id : Cid) (releases : Bool)
  | releaseOwned (ssl : Bool)
  | clearReceiver (id : Cid)
  | clearSendWait (id : Cid)
  | discard (id : Cid)
  -- `CloseConnection`
  | checkUsed (id : Cid)
  | armClose (id : Cid)
  | cipClose (id : Cid)
  | awaitClose
  -- `SendPayload`
  | armSend (id : Cid) (len : ℕ)
  | cipSend (id : Cid) (len : ℕ)
  | refused (id : Cid) (e : AtError)
  | awaitSend (id : Cid) (len : ℕ)
  -- the receive loop
  | collect
  | drain (id : Cid) (drained : ℕ)
  | forgetClose (id : Cid)
  | readType (id : Cid) (drained : ℕ)
  | cipRxGet (id : Cid) (drained : ℕ) (udp : Bool)
  | readReply (id : Cid) (drained : ℕ) (udp : Bool) (own : List Bytes)
  | readPeer (id : Cid) (drained : ℕ) (gen : ℕ) (data : Bytes)
  | rearm (id : Cid)
  | finish (id : Cid)
  | checkOwner (id : Cid) (serial gen : ℕ)
  -- the handlers of unsolicited lines
  | arrival (id : Cid) (peer : Option Bytes)
  | shutOk
  | openResult (id : Cid) (outcome : OpenOutcome)
  | closeOk (id : Cid) (gen : ℕ)
  | sendOk (id : Cid)
  | sendFail (id : Cid)
  | notePeerClosed (id : Cid) (gen : ℕ)
  | recordClose (id : Cid) (serial gen : ℕ)
  -- routes and callbacks
  | subscribeTcp (id : Cid) (gen : ℕ)
  | subscribeUdp (id : Cid) (gen : ℕ)
  | unsubscribe (handle : ℕ)
  | dispatchTcpData (id : Cid) (gens : List ℕ) (data : Bytes)
  | dispatchTcpClose (id : Cid) (gens : List ℕ)
  | dispatchUdpData (id : Cid) (gen : ℕ) (host : Bytes) (port : ℕ) (data : Bytes)
  | onData (client : ℕ) (gens : List ℕ) (data : Bytes)
  | onClose (client : ℕ) (gens : List ℕ)
  | onUdpData (client : ℕ) (gen : ℕ) (host : Bytes) (port : ℕ) (data : Bytes)
  -- other users of the channel
  | command
  | query
  | readQuery (own : List Bytes)
  | returned (r : Returned)
deriving DecidableEq

/-- What a section is given from outside: the result of a command with the lines that answered it
and the generation of the bytes among them, a write that awaits nothing, the end of a wait by its
timeout, or the order in which the routes are traversed. -/
inductive Choice where
  | go
  | answer (r : AtResult Unit) (lines : List Bytes) (gen : ℕ)
  | wrote (r : AtResult Unit)
  | timeout
  | tcpOrder (order : List (ℕ × TcpRoute ℕ))
  | udpOrder (order : List (ℕ × UdpRoute ℕ))

/-! ## Error texts -/

def modeInUse (ssl : Bool) : NetworkError :=
  ⟨.kResourceBusy, 0,
    if ssl then
      "AT+CIPSSL is one switch for the whole module, so a TLS socket cannot be opened while a plaintext socket is open"
    else
      "AT+CIPSSL is one switch for the whole module, so a plaintext socket cannot be opened while a TLS socket is open"⟩

def switchDigit (ssl : Bool) : String := if ssl then "1" else "0"

def switchNotReported (ssl : Bool) : NetworkError :=
  ⟨.kProtocolError, 0,
    "AT+CIPSSL? does not report " ++ switchDigit ssl ++ " after AT+CIPSSL=" ++ switchDigit ssl⟩

def allInUse : NetworkError :=
  ⟨.kNoResources, 0, "all " ++ toString kMaxConnections ++ " connection ids in use"⟩

def allHeldElsewhere : NetworkError :=
  ⟨.kResourceBusy, 0, "every connection id is held by a socket this process did not open"⟩

def noOpenResult (id : Cid) : NetworkError :=
  ⟨.kTimeout, 0,
    "no CONNECT OK, CONNECT FAIL or ALREADY CONNECT for connection " ++ toString id.val⟩

def stillHeld (id : Cid) : NetworkError :=
  ⟨.kAlreadyConnected, kAlreadyConnectedCode,
    "the module still holds connection " ++ toString id.val⟩

def refusedOpen (id : Cid) : NetworkError :=
  ⟨.kConnectFailed, 0, "the module refused connection " ++ toString id.val⟩

def outOfRange : NetworkError := ⟨.kInvalidArgument, 0, "connection id out of range"⟩

def peerClosedBefore : NetworkError :=
  ⟨.kConnectionLost, 0, "the peer closed the connection before this send"⟩

def refusedSend (id : Cid) : NetworkError :=
  ⟨.kConnectFailed, 0, "AT+CIPSEND was refused on connection " ++ toString id.val⟩

def noSendOk (id : Cid) : NetworkError :=
  ⟨.kTimeout, 0, "no SEND OK for connection " ++ toString id.val⟩

namespace Air780eHal

/-! ## Opening -/

/-- The first section of `ReserveSocketForMode`. It waits for a switch under way. -/
def reserve (s : Air780eHal) (o : Opening) : Option (Air780eHal × List Sect) :=
  if s.modes.sslSwitchInProgress then none
  else if 0 < s.modes.count (!o.ssl) then
    some (s, [.returned (.opened o (.error (modeInUse o.ssl)))])
  else if 0 < s.modes.count o.ssl then
    some ({ s with modes := s.modes.take o.ssl }, [.allocate o])
  else
    some ({ s with modes := s.modes.setSwitching true },
      [if o.ssl then .sslVersion o else .sslSwitch o])

/-- The lines of a response replace those of the one before. -/
def respond (s : Air780eHal) (lines : List Bytes) (gen : ℕ) : Air780eHal :=
  { s with responseLines := lines, history := { s.history with responseGen := gen } }

/-- A command of `ApplySslSwitch`, followed by `next` where the module accepts it. -/
def sslCommand (s : Air780eHal) (o : Opening) (next : Sect) (r : AtResult Unit) (lines : List Bytes)
    (gen : ℕ) : Air780eHal × List Sect :=
  (s.respond lines gen,
    match r with
    | .ok () => [next]
    | .error e => [.endSwitch o (.error e.toNetworkError)])

/-- `AT+CIPSSL=`. -/
def sslSwitch (s : Air780eHal) (o : Opening) (r : AtResult Unit) (lines : List Bytes) (gen : ℕ) :
    Air780eHal × List Sect :=
  let (s, next) := s.sslCommand o (.sslQuery o) r lines gen
  match r with
  | .ok () => ({ s with history := { s.history with confirmedSsl := some o.ssl } }, next)
  | .error _ => (s, next)

/-- The second section of `ReserveSocketForMode`. -/
def endSwitch (s : Air780eHal) (o : Opening) : Result Unit → Air780eHal × List Sect
  | .ok () =>
      ({ s with modes := (s.modes.setSwitching false).take o.ssl }, [.allocate o])
  | .error e =>
      ({ s with modes := s.modes.setSwitching false },
        [.returned (.opened o (.error e))])

/-- An attempt of `OpenSocket` takes an id. The first pass beyond the last ends the loop. -/
def allocate (s : Air780eHal) (o : Opening) : Air780eHal × List Sect :=
  if kMaxConnections ≤ o.attempt then
    (s, [.releaseMode o.ssl, .returned (.opened o (.error allHeldElsewhere))])
  else
    match s.pool.allocate o.tried with
    | none => (s, [.releaseMode o.ssl, .returned (.opened o (.error allInUse))])
    | some (id, pool) =>
        ({ s with
            pool := pool
            history := { s.history with
              lastSerial := Function.update s.history.lastSerial id s.pool.nextSerial } },
          [.claim o id s.pool.nextSerial])

/-- An attempt that fails gives the id and the reservation back. -/
def giveUp (o : Opening) (id : Cid) (e : NetworkError) : List Sect :=
  [.retire id false, .releaseMode o.ssl, .returned (.opened o (.error e))]

/-- `WaitForOpenResult`, and what `OpenSocket` makes of it. The outcome is read, whoever it was
recorded for. -/
def openResult (o : Opening) (id : Cid) (gen : ℕ) : OpenOutcome → List Sect
  | .kConnected => [.keep o id gen]
  | .kAlreadyConnected =>
      [.retire id false, .allocate { o with tried := id :: o.tried, attempt := o.attempt + 1 }]
  | .kFailed => giveUp o id (refusedOpen id)

/-- `RecordOpenResult`. -/
def recordOpenResult (s : Air780eHal) (id : Cid) (outcome : OpenOutcome) : Air780eHal :=
  { s with
    openWait :=
      if s.openWait.id = id.int then { s.openWait with outcome := outcome, done := true }
      else s.openWait }

/-! ## Retiring and closing -/

/-- The first section of `RetireSlot`. `ReleaseConnectionId` also releases the reservation that the
slot was holding. -/
def retire (s : Air780eHal) (id : Cid) (releases : Bool) : Air780eHal × List Sect :=
  match s.pool.retire id with
  | none => (s, [])
  | some (owned, pool) =>
      ({ s with pool := pool },
        [.clearReceiver id, .clearSendWait id, .discard id] ++
          if releases then owned.toList.map .releaseOwned else [])

def discard (s : Air780eHal) (id : Cid) : Air780eHal :=
  { s with
    routing := s.routing.discardUndelivered id.int
    history := { s.history with heldGens := Function.update s.history.heldGens id [] } }

/-! ## Sending -/

def setSendWait (s : Air780eHal) (id : Cid) (w : SendWait) : Air780eHal :=
  { s with sendWait := Function.update s.sendWait id w }

/-- A send that the module refuses. -/
def refused (s : Air780eHal) (id : Cid) (e : AtError) : Air780eHal × List Sect :=
  (s.setSendWait id { s.sendWait id with pending := (s.sendWait id).pending - 1 },
    [.returned (.done (.error
      (if s.receiver.closeSerial id ≠ 0 then peerClosedBefore else e.toNetworkError)))])

/-- What the wait for the acknowledgement returns. -/
def sendResult (s : Air780eHal) (id : Cid) (len : ℕ) : Result Int :=
  if (s.sendWait id).failed then .error (refusedSend id)
  else if (s.sendWait id).pending = 0 then .ok (Int.bmod len (2 ^ 32))
  else .error (noSendOk id)

/-! ## Receiving -/

/-- The head of the loop of `DrainOneCid`. -/
def drain (s : Air780eHal) (id : Cid) (drained : ℕ) : List Sect :=
  if drained < kMaxDrainPerWake then
    if (s.pool.slots id).used then [.readType id drained] else [.forgetClose id]
  else [.rearm id]

/-- A datagram goes to its sender's name. Without an address it is dropped and ends the pass. -/
def dispatchFrom (id : Cid) (drained gen : ℕ) (peer data : Bytes) : List Sect :=
  match splitPeer peer with
  | none => []
  | some (host, port) =>
      [.dispatchUdpData id gen host port data, .drain id (drained + data.length)]

/-- What `DrainOneCid` makes of the lines it reads. -/
def readReply (s : Air780eHal) (id : Cid) (drained : ℕ) (udp : Bool) : List Sect :=
  match readPayload id s.responseLines with
  | none => [.finish id]
  | some (data, source) =>
      let gen := s.history.responseGen
      if udp then
        if source = [] then [.readPeer id drained gen data] else dispatchFrom id drained gen source data
      else [.dispatchTcpData id [gen] data, .drain id (drained + data.length)]

/-- The first section of `FinishClosedCid`. -/
def finish (s : Air780eHal) (id : Cid) : Air780eHal × List Sect :=
  ({ s with receiver := s.receiver.setCloseSerial id 0 },
    if s.receiver.closeSerial id = 0 then []
    else [.checkOwner id (s.receiver.closeSerial id) (s.history.closeGen id)])

/-! ## Lines -/

/-- `CLOSE OK` answers a close that is waited for, or else reports that the peer is gone. -/
def closeOk (s : Air780eHal) (id : Cid) (gen : ℕ) : Air780eHal × List Sect :=
  ({ s with
      events :=
        if s.events.closePendingId = id.int then { s.events with closeOk := true } else s.events },
    if s.events.closePendingId = id.int then [] else [.notePeerClosed id gen])

/-- The section of `NotePeerClosed` under `pool_mutex_`. -/
def notePeerClosed (s : Air780eHal) (id : Cid) (gen : ℕ) : List Sect :=
  let serial := if (s.pool.slots id).used then (s.pool.slots id).serial else 0
  if serial = 0 then [] else [.recordClose id serial gen]

/-- Its section under `rx_mutex_`. -/
def recordClose (s : Air780eHal) (id : Cid) (serial gen : ℕ) : Air780eHal :=
  { s with
    receiver := (s.receiver.setCloseSerial id serial).setPending id
    history := { s.history with closeGen := Function.update s.history.closeGen id gen } }

/-- `"+CIPRXGET: 1,<id>"`. -/
def arrival (s : Air780eHal) (id : Cid) (peer : Option Bytes) : Air780eHal :=
  let receiver := match peer with
    | some peer => { s.receiver with peer := Function.update s.receiver.peer id peer }
    | none => s.receiver
  { s with receiver := receiver.setPending id }

/-! ## Routes -/

/-- `SubscribeTcp`, and what it hands over. -/
def subscribeTcp (s : Air780eHal) (id : Cid) (gen : ℕ) : Air780eHal × List Sect :=
  let (_, held, routing) := s.routing.subscribeTcp id.int (some gen) (some gen)
  let gens := s.history.heldGens id
  ({ s with
      routing := routing
      history := { s.history with heldGens := Function.update s.history.heldGens id [] } },
    (if held.data = [] then [] else [.dispatchTcpData id gens held.data]) ++
      if held.closed then [.dispatchTcpClose id gens]
      else if held.truncated then [.checkUsed id, .dispatchTcpClose id gens] else [])

def subscribeUdp (s : Air780eHal) (id : Cid) (gen : ℕ) : Air780eHal :=
  { s with routing := (s.routing.subscribeUdp id.int (some gen)).2 }

/-- `DispatchTcpData`. -/
def dispatchTcpData (s : Air780eHal) (order : List (ℕ × TcpRoute ℕ)) (id : Cid) (gens : List ℕ)
    (data : Bytes) : Air780eHal × List Sect :=
  let out := s.routing.dispatchTcpData order id.int data
  let routed := (Routing.findTcpRoute order id.int).isSome
  ({ s with
      routing := out.2
      history := { s.history with
        heldGens := Function.update s.history.heldGens id
          (s.history.heldGens id ++ if routed then [] else gens) } },
    out.1.toList.map fun client => .onData client gens data)

/-- `DispatchTcpClose`. -/
def dispatchTcpClose (s : Air780eHal) (order : List (ℕ × TcpRoute ℕ)) (id : Cid) (gens : List ℕ) :
    Air780eHal × List Sect :=
  let out := s.routing.dispatchTcpClose order id.int
  let routed := order.any (Routing.serves id.int)
  ({ s with
      routing := out.2
      history := { s.history with
        heldGens := Function.update s.history.heldGens id
          (if routed then [] else s.history.heldGens id ++ gens) } },
    out.1.map fun client => .onClose client gens)

/-- `DispatchUdpData`. -/
def dispatchUdpData (order : List (ℕ × UdpRoute ℕ)) (id : Cid) (gen : ℕ) (host : Bytes) (port : ℕ)
    (data : Bytes) : List Sect :=
  (Routing.dispatchUdpData order id.int).toList.map fun client => .onUdpData client gen host port data

/-! ## Sections -/

/-- One section. A wait ends with what it waits for or, without it, at its timeout. A traversal
visits every route once. -/
def exec (_ : ℕ) (k : Sect) (c : Choice) (s : Air780eHal) : Option (Air780eHal × List Sect) :=
  match k, c with
  | .reserve o, .go => s.reserve o
  | .sslVersion o, .answer r lines gen => some (s.sslCommand o (.sslSwitch o) r lines gen)
  | .sslSwitch o, .answer r lines gen => some (s.sslSwitch o r lines gen)
  | .sslQuery o, .answer r lines gen => some (s.sslCommand o (.sslReadBack o) r lines gen)
  | .sslReadBack o, .go =>
      some (s, [.endSwitch o
        (if reportsSwitch o.ssl s.responseLines then .ok () else .error (switchNotReported o.ssl))])
  | .endSwitch o r, .go => some (s.endSwitch o r)
  | .releaseMode ssl, .go => some ({ s with modes := s.modes.release ssl }, [])
  | .allocate o, .go => some (s.allocate o)
  | .claim o id gen, .go => some (s.discard id, [.setType o id gen])
  | .setType o id gen, .go =>
      some ({ s with pool := s.pool.setUdp id o.udp }, [.armOpenWait o id gen])
  | .armOpenWait o id gen, .go =>
      some ({ s with openWait := { id := id.int } }, [.cipStart o id gen])
  | .cipStart o id gen, .wrote (.ok ()) => some (s, [.waitForOpenResult o id gen])
  | .cipStart o id _, .wrote (.error e) => some (s, giveUp o id e.toNetworkError)
  | .waitForOpenResult o id gen, .go =>
      if s.openWait.done then
        some ({ s with openWait := {} }, openResult o id gen s.openWait.outcome)
      else none
  | .waitForOpenResult o id _, .timeout =>
      if s.openWait.done then none
      else some ({ s with openWait := {} }, giveUp o id (noOpenResult id))
  | .keep o id gen, .go =>
      some ({ s with pool := s.pool.keep id o.ssl }, [.returned (.opened o (.ok (id, gen)))])
  | .retire id releases, .go => some (s.retire id releases)
  | .releaseOwned ssl, .go => some ({ s with modes := s.modes.release ssl }, [])
  | .clearReceiver id, .go => some ({ s with receiver := s.receiver.clear id }, [])
  | .clearSendWait id, .go => some (s.setSendWait id {}, [])
  | .discard id, .go => some (s.discard id, [])
  | .checkUsed id, .go =>
      some (s, if (s.pool.slots id).used then [.armClose id] else [.returned (.done (.ok 0))])
  | .armClose id, .go =>
      some ({ s with events := { s.events with closeOk := false, closePendingId := id.int } },
        [.cipClose id])
  | .cipClose id, .wrote (.ok ()) => some (s, [.retire id true, .awaitClose])
  | .cipClose id, .wrote (.error e) =>
      some (s, [.retire id true, .returned (.done (.error e.toNetworkError))])
  | .awaitClose, .go =>
      if s.events.closeOk then
        some ({ s with events := { s.events with closePendingId := -1 } },
          [.returned (.done (.ok 0))])
      else none
  | .awaitClose, .timeout =>
      if s.events.closeOk then none
      else some ({ s with events := { s.events with closePendingId := -1 } },
        [.returned (.done (.ok 0))])
  | .armSend id len, .go =>
      some (s.setSendWait id { pending := (s.sendWait id).pending + 1 }, [.cipSend id len])
  | .cipSend id len, .answer r lines gen =>
      some (s.respond lines gen,
        match r with
        | .ok () => [.awaitSend id len]
        | .error e => [.refused id e])
  | .refused id e, .go => some (s.refused id e)
  | .awaitSend id len, .go =>
      if (s.sendWait id).pending = 0 ∨ (s.sendWait id).failed then
        some (s.setSendWait id {}, [.returned (.done (s.sendResult id len))])
      else none
  | .awaitSend id len, .timeout =>
      if (s.sendWait id).pending = 0 ∨ (s.sendWait id).failed then none
      else some (s.setSendWait id {}, [.returned (.done (s.sendResult id len))])
  | .collect, .go =>
      let (ids, receiver) := s.receiver.collect
      some ({ s with receiver := receiver }, ids.map (.drain · 0))
  | .drain id drained, .go => some (s, s.drain id drained)
  | .forgetClose id, .go => some ({ s with receiver := s.receiver.setCloseSerial id 0 }, [])
  | .readType id drained, .go => some (s, [.cipRxGet id drained (s.pool.slots id).udp])
  | .cipRxGet id drained udp, .answer r lines gen =>
      some (s.respond lines gen,
        match r with
        | .ok () => [.readReply id drained udp lines]
        | .error _ => [.finish id])
  | .readReply id drained udp _, .go => some (s, s.readReply id drained udp)
  | .readPeer id drained gen data, .go =>
      some (s, dispatchFrom id drained gen (s.receiver.peer id) data)
  | .rearm id, .go => some ({ s with receiver := s.receiver.setPending id }, [])
  | .finish id, .go => some (s.finish id)
  | .checkOwner id serial gen, .go =>
      some (s, if s.pool.owns id serial then [.retire id true, .dispatchTcpClose id [gen]] else [])
  | .arrival id peer, .go => some (s.arrival id peer, [])
  | .shutOk, .go => some ({ s with events := { s.events with shutOk := true } }, [])
  | .openResult id outcome, .go => some (s.recordOpenResult id outcome, [])
  | .closeOk id gen, .go => some (s.closeOk id gen)
  | .sendOk id, .go =>
      some (s.setSendWait id { s.sendWait id with pending := (s.sendWait id).pending - 1 }, [])
  | .sendFail id, .go => some (s.setSendWait id { pending := 0, failed := true }, [])
  | .notePeerClosed id gen, .go => some (s, s.notePeerClosed id gen)
  | .recordClose id serial gen, .go => some (s.recordClose id serial gen, [])
  | .subscribeTcp id gen, .go => some (s.subscribeTcp id gen)
  | .subscribeUdp id gen, .go => some (s.subscribeUdp id gen, [])
  | .unsubscribe handle, .go => some ({ s with routing := s.routing.unsubscribe handle }, [])
  | .dispatchTcpData id gens data, .tcpOrder order =>
      if order.Perm s.routing.tcpRoutes then some (s.dispatchTcpData order id gens data) else none
  | .dispatchTcpClose id gens, .tcpOrder order =>
      if order.Perm s.routing.tcpRoutes then some (s.dispatchTcpClose order id gens) else none
  | .dispatchUdpData id gen host port data, .udpOrder order =>
      if order.Perm s.routing.udpRoutes then some (s, dispatchUdpData order id gen host port data)
      else none
  | .onData .., .go => some (s, [])
  | .onClose .., .go => some (s, [])
  | .onUdpData .., .go => some (s, [])
  | .command, .answer _ lines gen => some (s.respond lines gen, [])
  | .query, .answer r lines gen =>
      some (s.respond lines gen,
        match r with
        | .ok () => [.readQuery lines]
        | .error e => [.returned (.line (.error e.toNetworkError))])
  | .readQuery _, .go => some (s, [.returned (.line (singleLine s.responseLines))])
  | .returned (.opened o (.ok (id, gen))), .go =>
      some (s, [if o.udp then .subscribeUdp id gen else .subscribeTcp id gen])
  | .returned _, .go => some (s, [])
  | _, _ => none

end Air780eHal

/-! ## Threads -/

/-- What a thread begins with: a call, a pass of the receive loop, or a line that the module sends,
with the generation of the socket it is about. -/
inductive Entry where
  | openSocket (udp ssl : Bool) (host : Bytes) (port : ℕ)
  | closeConnection (id : Int)
  | sendPayload (id : Int) (len : ℕ)
  | unsubscribe (handle : ℕ)
  | receive
  | line (line : Bytes) (gen : ℕ)
  | command
  | query

/-- `OnCiprxgetUrc`. -/
def onCiprxgetUrc (args : Bytes) : List Sect :=
  match splitCsv args with
  | kind :: id :: rest =>
      if parseInt (trim kind) = some 1 then
        (((parseInt (trim id)).bind cid?).map fun id =>
          Sect.arrival id (rest.head?.map trim)).toList
      else []
  | _ => []

/-- The event lines of one id. -/
def cidEvent (id : Cid) (gen : ℕ) (what : Bytes) : List Sect :=
  if what = ascii ['C', 'O', 'N', 'N', 'E', 'C', 'T', ' ', 'O', 'K'] then
    [.openResult id .kConnected]
  else if what = ascii ['C', 'O', 'N', 'N', 'E', 'C', 'T', ' ', 'F', 'A', 'I', 'L'] then
    [.openResult id .kFailed]
  else if what =
      ascii ['A', 'L', 'R', 'E', 'A', 'D', 'Y', ' ', 'C', 'O', 'N', 'N', 'E', 'C', 'T'] then
    [.openResult id .kAlreadyConnected]
  else if what = ascii ['C', 'L', 'O', 'S', 'E', ' ', 'O', 'K'] then [.closeOk id gen]
  else if what = ascii ['S', 'E', 'N', 'D', ' ', 'O', 'K'] then [.sendOk id]
  else if what = ascii ['S', 'E', 'N', 'D', ' ', 'F', 'A', 'I', 'L'] then [.sendFail id]
  else if what = ascii ['C', 'L', 'O', 'S', 'E', 'D'] then [.notePeerClosed id gen]
  else []

/-- `OnUnsolicitedLine`. -/
def onUnsolicitedLine (line : Bytes) (gen : ℕ) : List Sect :=
  if (findByte 58 line).isSome then []
  else if line = ascii ['S', 'H', 'U', 'T', ' ', 'O', 'K'] then [.shutOk]
  else
    match findByte 44 line with
    | none => []
    | some comma =>
        match (parseInt (trim (line.take comma))).bind cid? with
        | none => []
        | some id => cidEvent id gen (trim (line.drop (comma + 1)))

/-- `UrcDispatcher::Dispatch` with the two handlers of this module. A keyed line reaches them as
its key and its arguments. -/
def dispatchLine (line : Bytes) (gen : ℕ) : List Sect :=
  let line := trimBy isSpace line
  let command := upTo line (findByte 58 line)
  let arguments := match findByte 58 line with
    | some colon => trimBy isSpace (line.drop (colon + 1))
    | none => []
  (if startsWith command (ascii ['+', 'C', 'I', 'P', 'R', 'X', 'G', 'E', 'T']) then
      onCiprxgetUrc arguments
    else []) ++ if line = [] then [] else onUnsolicitedLine command gen

/-- The first sections of a thread. -/
def Entry.sections : Entry → List Sect
  | .openSocket udp ssl host port => [.reserve { udp := udp, ssl := ssl, host := host, port := port }]
  | .closeConnection id =>
      match cid? id with
      | some id => [.checkUsed id]
      | none => [.returned (.done (.error outOfRange))]
  | .sendPayload id len =>
      match cid? id with
      | some id => [.armSend id len]
      | none => [.returned (.done (.error outOfRange))]
  | .unsubscribe handle => [.unsubscribe handle]
  | .receive => [.collect]
  | .line l gen => dispatchLine l gen
  | .command => [.command]
  | .query => [.query]

/-- Threads of the driver. -/
def program : Sections.Program Air780eHal Sect Entry Choice :=
  ⟨fun e s => some (s, e.sections), Air780eHal.exec⟩

abbrev Config := Sections.Config Air780eHal Sect
abbrev Label := Sections.Label Entry Choice

/-- The driver after `Initialize`, whose `AT+CIPSSL=0` was confirmed, and no thread yet. -/
def initial : Config := ⟨{ history := { confirmedSsl := some false } }, []⟩

end EspModemLink.Air780e
