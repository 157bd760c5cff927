import EspModemLink.AtChannel.BaudAlignment
import EspModemLink.AtChannel.Channel

/-!
# The ML307 module driver

The connect path of `Ml307Hal` with the pool of connection ids behind it, and the send path. What
the driver runs against is a channel with a clock beside it.
-/

namespace EspModemLink.Ml307

open Bytes AtParser AtChannel

def kMaxConnections : ℕ := 6

/-- A connection id in range. -/
abbrev Cid := Fin kMaxConnections

def kCidQuarantine : ℕ := 1000
def kClosePollAttempts : ℕ := 20
def kClosePollInterval : ℕ := 50
def kDefaultTimeout : ℕ := 5000
def kLongTimeout : ℕ := 30000
def kMinHandshakeTimeout : Int := 10
def kMaxHandshakeTimeout : Int := 300

/-! ## The pool -/

/-- `ConnectionSlot`. Times are in milliseconds. -/
structure ConnectionSlot where
  used : Bool := false
  released : Bool := false
  releasedAt : ℕ := 0
deriving DecidableEq

abbrev Pool := Cid → ConnectionSlot

/-- The quarantine of a slot is over. -/
def ConnectionSlot.settled (slot : ConnectionSlot) (now : ℕ) : Bool :=
  !slot.released || decide (kCidQuarantine ≤ now - slot.releasedAt)

/-- The loop of `AllocateConnectionId`: a slot that has settled, or else the oldest of the others.
The clock is read anew for every slot. -/
def pickSlot (pool : Pool) (clock : Cid → ℕ) : List Cid → (oldest : Option Cid) → Option Cid
  | [], oldest => oldest
  | i :: rest, oldest =>
      if (pool i).used then pickSlot pool clock rest oldest
      else if (pool i).settled (clock i) then some i
      else
        match oldest with
        | none => pickSlot pool clock rest (some i)
        | some o =>
            if (pool i).releasedAt < (pool o).releasedAt then pickSlot pool clock rest (some i)
            else pickSlot pool clock rest oldest

def allocateConnectionId (pool : Pool) (clock : Cid → ℕ) (first : ℕ) : Option (Cid × Pool) :=
  (pickSlot pool clock ((List.finRange kMaxConnections).drop first) none).map fun id =>
    (id, Function.update pool id { pool id with used := true })

def releaseConnectionId (pool : Pool) (id : Cid) (now : ℕ) : Pool :=
  Function.update pool id { used := false, released := true, releasedAt := now }

/-! ## The commands -/

/-- What `%.*s` prints of a string. -/
def cString (s : Bytes) : Bytes := s.takeWhile (· != 0)

/-- What `snprintf` leaves in a buffer of `size` bytes. -/
def snprintf (size : ℕ) (s : Bytes) : Bytes := s.take (size - 1)

inductive SocketType where
  | tcp
  | udp
deriving DecidableEq

def SocketType.text : SocketType → Bytes
  | .tcp => ascii ['T', 'C', 'P']
  | .udp => ascii ['U', 'D', 'P']

/-- A field between quotes. -/
def inQuotes (s : Bytes) : Bytes := 34 :: s ++ [34]

def mipopenLine (id : Cid) (type : SocketType) (host : Bytes) (port : UInt16) : Bytes :=
  snprintf 256 (ascii ['A', 'T', '+', 'M', 'I', 'P', 'O', 'P', 'E', 'N', '='] ++ decimal id ++
    44 :: inQuotes (cString type.text) ++ 44 :: inQuotes (cString host) ++
    44 :: decimal port.toNat ++ ascii [',', ',', '0'])

def mipstateKey : Bytes := ascii ['+', 'M', 'I', 'P', 'S', 'T', 'A', 'T', 'E']

def mipstateLine (id : Cid) : Bytes := ascii ['A', 'T'] ++ mipstateKey ++ 61 :: decimal id

def mipcloseLine (id : Cid) : Bytes :=
  ascii ['A', 'T', '+', 'M', 'I', 'P', 'C', 'L', 'O', 'S', 'E', '='] ++ decimal id

/-- `AT+MIPCFG=` or `AT+MSSLCFG=` with the name of a setting and its values. -/
def settingLine (command name : List Char) (values : List Int) : Bytes :=
  ascii ['A', 'T', '+'] ++ ascii command ++ 61 :: inQuotes (ascii name) ++
    values.flatMap fun value => 44 :: decimalInt value

/-! ## What the driver runs against -/

/-- A channel with a clock, and the rendezvous with the `+MIPOPEN` that answers an open. -/
structure World (σ : Type*) extends IAtChannel σ where
  /-- The readings of `steady_clock` in the loop of an `AllocateConnectionId`. -/
  slotClock : σ → (Cid → ℕ) × σ
  now : σ → ℕ × σ
  sleepFor : ℕ → σ → σ
  /-- The code of the `+MIPOPEN` for an id, if it comes within a time. -/
  awaitOpen : Cid → ℕ → σ → Option Int × σ

structure TlsConfig where
  verifyCertificate : Bool := false
  verifyHostname : Bool := false
  caCert : Bytes := []
  clientCert : Bytes := []
  clientKey : Bytes := []
  alpnProtocols : Bytes := []
  handshakeTimeout : Int := 10
deriving DecidableEq

/-- `OpenTimeout`. -/
def openTimeout (ssl : Bool) (config : TlsConfig) : ℕ :=
  if ssl then kLongTimeout + 1000 * config.handshakeTimeout.toNat else kLongTimeout

def hasCertificateMaterial (config : TlsConfig) : Bool :=
  config.caCert != [] || config.clientCert != [] || config.clientKey != []

def sslAuthMode (config : TlsConfig) : Result Int :=
  if hasCertificateMaterial config || config.alpnProtocols != [] then
    .error ⟨.kNotSupported, 0,
      "TLS certificates and ALPN cannot be set from this library: the module takes a certificate " ++
        "file it already holds (AT+MSSLCFG=\"cert\") and has no ALPN setting"⟩
  else if config.verifyCertificate != config.verifyHostname then
    .error ⟨.kNotSupported, 0,
      "AT+MSSLCFG=\"auth\" verifies the certificate chain and the hostname as one setting, so " ++
        "verify_certificate and verify_hostname have to agree"⟩
  else if config.handshakeTimeout < kMinHandshakeTimeout ∨
      kMaxHandshakeTimeout < config.handshakeTimeout then
    .error ⟨.kInvalidArgument, 0,
      "TlsConfig.handshake_timeout of " ++ toString config.handshakeTimeout ++
        " s is outside the 10-300 s AT+MSSLCFG=\"negotime\" accepts"⟩
  else .ok (if config.verifyCertificate then 1 else 0)

def isTlsHandshakeFailure (code : Int) : Bool := code == 753 || code == 762

def describeOpenFailure (ssl : Bool) (error : NetworkError) : NetworkError :=
  if ssl && isTlsHandshakeFailure error.native then
    { code := .kTlsHandshakeFailed
      native := error.native
      context := error.context ++ " - the module refused the TLS connection; this is what a " ++
        "firmware holding no certificate authority answers when asked to verify" }
  else error

/-- The module turned the open down because the id is taken. -/
def isConnectionIdBusy (error : NetworkError) : Bool :=
  error.code == .kAtCmeError && error.native == 552

namespace World

variable {σ : Type*} (w : World σ)

/-- A command whose failure the caller returns as it is. -/
def command (cmd : Bytes) (timeout : ℕ) (s : σ) : Result Unit × σ :=
  match w.sendCommand cmd timeout s with
  | (.ok (), s) => (.ok (), s)
  | (.error e, s) => (.error e.toNetworkError, s)

/-- The loop of `QuerySocketActive` over the response lines. -/
def readState : List Bytes → Bool
  | [] => false
  | line :: rest =>
      if startsWith line mipstateKey then
        match (splitCsv (stripKeyPrefix line))[4]? with
        | none => readState rest
        | some state => stripQuotes state != ascii ['I', 'N', 'I', 'T', 'I', 'A', 'L']
      else readState rest

def querySocketActive (id : Cid) (s : σ) : Result Bool × σ :=
  match w.sendCommand (mipstateLine id) kDefaultTimeout s with
  | (.ok (), s) => (.ok (readState (w.getResponseLines s)), s)
  | (.error e, s) => if e.code = .kCmeError then (.ok false, s) else (.error e.toNetworkError, s)

/-- The polls of `EnsureSocketFree` behind its close. Whatever they find, the id is left alone. -/
def awaitClosed (id : Cid) : (attempts : ℕ) → σ → Result Bool × σ
  | 0, s => (.ok false, s)
  | attempts + 1, s =>
      match w.querySocketActive id (w.sleepFor kClosePollInterval s) with
      | (.error e, s) => (.error e, s)
      | (.ok false, s) => (.ok false, s)
      | (.ok true, s) => awaitClosed id attempts s

def ensureSocketFree (id : Cid) (s : σ) : Result Bool × σ :=
  match w.querySocketActive id s with
  | (.error e, s) => (.error e, s)
  | (.ok false, s) => (.ok true, s)
  | (.ok true, s) =>
      match w.sendCommand (mipcloseLine id) kDefaultTimeout s with
      | (.ok (), s) => w.awaitClosed id kClosePollAttempts s
      | (.error e, s) =>
          if e.code = .kCmeError then w.awaitClosed id kClosePollAttempts s
          else (.error e.toNetworkError, s)

def configureSsl (id : Cid) (enable : Bool) (config : TlsConfig) (s : σ) : Result Unit × σ :=
  if !enable then
    if hasCertificateMaterial config then
      (.error ⟨.kNotSupported, 0,
        "a TlsConfig with certificate material was given to a plaintext socket; the connection " ++
          "would be unauthenticated, so the material is refused rather than dropped"⟩, s)
    else w.command (settingLine ['M', 'I', 'P', 'C', 'F', 'G'] ['s', 's', 'l'] [id, 0, 0])
      kDefaultTimeout s
  else
    match sslAuthMode config with
    | .error e => (.error e, s)
    | .ok auth =>
        match w.command (settingLine ['M', 'S', 'S', 'L', 'C', 'F', 'G'] ['a', 'u', 't', 'h']
            [id, auth]) kDefaultTimeout s with
        | (.error e, s) => (.error e, s)
        | (.ok (), s) =>
            match w.command (settingLine ['M', 'S', 'S', 'L', 'C', 'F', 'G']
                ['n', 'e', 'g', 'o', 't', 'i', 'm', 'e'] [id, config.handshakeTimeout])
                kDefaultTimeout s with
            | (.error e, s) => (.error e, s)
            | (.ok (), s) =>
                w.command (settingLine ['M', 'I', 'P', 'C', 'F', 'G'] ['s', 's', 'l'] [id, 1, id])
                  kDefaultTimeout s

def configureEncoding (id : Cid) (s : σ) : Result Unit × σ :=
  w.command (settingLine ['M', 'I', 'P', 'C', 'F', 'G']
    ['e', 'n', 'c', 'o', 'd', 'i', 'n', 'g'] [id, 1, 1]) kDefaultTimeout s

def waitForOpenResult (id : Cid) (timeout : ℕ) (s : σ) : Result Unit × σ :=
  match w.awaitOpen id timeout s with
  | (none, s) =>
      (.error ⟨.kTimeout, 0, "timed out waiting for +MIPOPEN for connection " ++ toString id.val⟩, s)
  | (some code, s) =>
      if code = 0 then (.ok (), s)
      else
        (.error ⟨.kConnectFailed, code,
          "module refused connection " ++ toString id.val ++ " (code " ++ toString code ++ ")"⟩, s)

def openOnId (id : Cid) (type : SocketType) (host : Bytes) (port : UInt16) (timeout : ℕ) (s : σ) :
    Result Unit × σ :=
  match w.command (mipopenLine id type host port) timeout s with
  | (.error e, s) => (.error e, s)
  | (.ok (), s) => w.waitForOpenResult id timeout s

end World

/-! ## Opening a socket -/

/-- What is asked of `OpenSocket`. -/
structure Target where
  type : SocketType
  host : Bytes
  port : UInt16
  ssl : Bool := false
  config : TlsConfig := {}

/-- What an attempt on an id comes to: the module holds it, refuses it as busy, or the call ends. -/
inductive Attempt where
  | occupied
  | refused
  | ends (result : Result Unit)

def Attempt.busy : Attempt → Bool
  | occupied | refused => true
  | ends _ => false

/-- A pass of the search: the pool and the clock that it picked an id with, the id, and what the
attempt on it came to. -/
structure Visit where
  first : ℕ
  pool : Pool
  clock : Cid → ℕ
  id : Cid
  attempt : Attempt

/-- A search that has ended, with a record of its passes. -/
structure Search (σ : Type*) where
  result : Result Cid
  pool : Pool
  state : σ
  visits : List Visit

/-- No id is left to try. -/
def noResources (first : ℕ) : NetworkError :=
  ⟨.kNoResources, 0,
    if first = 0 then "no available connection slots"
    else "every connection slot is already in use on the module"⟩

namespace World

variable {σ : Type*} (w : World σ)

/-- The body of the loop of `OpenSocket` behind `AllocateConnectionId`. -/
def attempt (id : Cid) (target : Target) (s : σ) : Attempt × σ :=
  match w.ensureSocketFree id s with
  | (.error e, s) => (.ends (.error e), s)
  | (.ok false, s) => (.occupied, s)
  | (.ok true, s) =>
      match w.configureSsl id target.ssl target.config s with
      | (.error e, s) => (.ends (.error e), s)
      | (.ok (), s) =>
          match w.configureEncoding id s with
          | (.error e, s) => (.ends (.error e), s)
          | (.ok (), s) =>
              match w.openOnId id target.type target.host target.port
                  (openTimeout target.ssl target.config) s with
              | (.ok (), s) => (.ends (.ok ()), s)
              | (.error e, s) =>
                  if isConnectionIdBusy e then (.refused, s)
                  else (.ends (.error (describeOpenFailure target.ssl e)), s)

/-- The loop of `OpenSocket`. `fuel` bounds its passes. -/
def openFrom (target : Target) : (fuel first : ℕ) → Pool → σ → Search σ
  | 0, first, pool, s => ⟨.error (noResources first), pool, s, []⟩
  | fuel + 1, first, pool, s =>
      if kMaxConnections ≤ first then ⟨.error (noResources first), pool, s, []⟩
      else
        let (clock, s) := w.slotClock s
        match allocateConnectionId pool clock first with
        | none => ⟨.error (noResources first), pool, s, []⟩
        | some (id, taken) =>
            let (attempt, s) := w.attempt id target s
            let visit : Visit := ⟨first, pool, clock, id, attempt⟩
            match attempt with
            | .ends (.ok ()) => ⟨.ok id, taken, s, [visit]⟩
            | .ends (.error e) =>
                let (now, s) := w.now s
                ⟨.error e, releaseConnectionId taken id now, s, [visit]⟩
            | .occupied | .refused =>
                let (now, s) := w.now s
                let rest := openFrom target fuel (id.val + 1) (releaseConnectionId taken id now) s
                { rest with visits := visit :: rest.visits }

def openSocket (target : Target) (pool : Pool) (s : σ) : Search σ :=
  w.openFrom target kMaxConnections 0 pool s

end World

/-! ## Sending -/

def kMaxChunk : ℕ := 1460 / 2

/-- `AT+MIPSEND` of a chunk. -/
def mipsendLine (id : Int) (chunk : Bytes) : Bytes :=
  ascii ['A', 'T', '+', 'M', 'I', 'P', 'S', 'E', 'N', 'D', '='] ++ decimalInt id ++
    44 :: decimal chunk.length ++ 44 :: encodeHex chunk

/-- `static_cast<int>` of a `size_t`. -/
def toInt32 (n : ℕ) : Int := (n : Int).bmod (2 ^ 32)

namespace World

variable {σ : Type*} (w : World σ)

/-- The loop of `SendHexPayload` over what is left of the payload. `fuel` bounds its passes. -/
def sendChunks (id : Int) : (fuel : ℕ) → (left : Bytes) → σ → Result Unit × σ
  | 0, _, s => (.ok (), s)
  | fuel + 1, left, s =>
      if left = [] then (.ok (), s)
      else
        match w.command (mipsendLine id (left.take kMaxChunk)) kLongTimeout s with
        | (.error e, s) => (.error e, s)
        | (.ok (), s) => sendChunks id fuel (left.drop kMaxChunk) s

def sendHexPayload (id : Int) (data : Bytes) (s : σ) : Result Int × σ :=
  match w.sendChunks id data.length data s with
  | (.error e, s) => (.error e, s)
  | (.ok (), s) => (.ok (toInt32 data.length), s)

end World

end EspModemLink.Ml307
