import EspModemLink.Http.Request

/-!
# The software HTTP client

`SoftwareHttpClient` over transports that a factory makes. What the environment
does is read off an `Env`: the outcome of every factory call, connect and send, and the
events of the receive thread at every point where the driver thread does not
hold the mutex. What the client does is recorded in a trace.
-/

namespace EspModemLink.Http

open Bytes AtParser

/-- `TlsConfig`, with the handshake timeout in seconds. -/
structure TlsConfig where
  verifyCertificate : Bool := false
  verifyHostname : Bool := false
  caCert : Bytes := []
  clientCert : Bytes := []
  clientKey : Bytes := []
  alpnProtocols : Bytes := []
  handshakeTimeout : ℕ := 10
deriving DecidableEq, Repr

def kMaxRedirects : ℕ := 5

/-- The members of `SoftwareHttpClient`. A transport is known by its number. -/
structure SoftwareHttpClient where
  transport : Option ℕ := none
  headers : Fields := []
  requestBody : Bytes := []
  keepAlive : Bool := false
  followRedirects : Bool := true
  maxRedirects : ℕ := kMaxRedirects
  tls : TlsConfig := {}
  chunkedUpload : Bool := false
  uploadChunked : Bool := false
  uploadActive : Bool := false
  parser : HttpParser := {}
  parseFailed : Bool := false
  parseError : Option NetworkError := none
  closed : Bool := false
  streaming : Bool := false
  pending : Bytes := []
  response : HttpResponse := {}
  connected : Bool := false
  connectedHost : Bytes := []
  connectedPort : ℕ := 0
  connectedTls : Bool := false
deriving DecidableEq, Repr

/-- What the receive thread brings: payload, the peer's close, a transport error. `answers`
is the request that the server answers with the payload; the client does not see it. -/
inductive Event where
  | data (answers : ℕ) (bytes : Bytes)
  | closed
  | error (e : NetworkError)
deriving DecidableEq, Repr

/-- What a `Send` of the client is for. -/
inductive Part where
  | head | chunk | terminator
deriving DecidableEq, Repr

/-- What happened, in order. Requests are numbered from 1 as `StartRequest` begins them. -/
inductive Action where
  | created (transport : ℕ) (tls : Bool) (config : TlsConfig)
  | connected (transport : ℕ) (host : Bytes) (port : ℕ)
  | disconnected (transport : ℕ)
  | began (transport request : ℕ) (parserComplete : Bool)
  | sent (transport request : ℕ) (part : Part) (bytes : Bytes) (outcome : Result ℕ)
  | answeredEarly (transport request : ℕ)
  | data (transport request answers : ℕ) (bytes : Bytes) (fed : Bool)
  | closed (transport : ℕ)

/-- The environment: outcomes by the number of the attempt, events by the number of the point
at which they may arrive. -/
structure Env where
  create : ℕ → Result Unit
  connect : ℕ → Result Unit
  send : ℕ → Result ℕ
  events : ℕ → List Event

/-- The client and what has happened to it. -/
structure Conn where
  client : SoftwareHttpClient := {}
  transports : ℕ := 0
  request : ℕ := 0
  trace : List Action := []

/-- The client in its environment. -/
structure World extends Conn where
  creates : ℕ := 0
  sends : ℕ := 0
  yields : ℕ := 0

/-! ## The receive thread -/

namespace Conn

def log (c : Conn) (a : Action) : Conn := { c with trace := c.trace ++ [a] }

/-- `HandleBody`. -/
def handleBody (client : SoftwareHttpClient) (data : Bytes) : SoftwareHttpClient :=
  if client.streaming then { client with pending := client.pending ++ data }
  else { client with response := { client.response with body := client.response.body ++ data } }

/-- `Feed` with `HandleBody` as the body callback. -/
def feedParser [Target] (client : SoftwareHttpClient) (bytes : Bytes) : SoftwareHttpClient :=
  let (result, parser) := client.parser.feed bytes
  let body := parser.delivered.drop client.parser.delivered.length
  let client := handleBody { client with parser := parser } body
  match result with
  | .ok _ => client
  | .error e => { client with parseFailed := true, parseError := some e }

/-- `OnTransportData`. -/
def onTransportData [Target] (c : Conn) (t answers : ℕ) (bytes : Bytes) : Conn :=
  if c.client.parser.isComplete then c.log (.data t c.request answers bytes false)
  else
    { c with client := feedParser c.client bytes }.log (.data t c.request answers bytes true)

/-- `OnTransportClosed`. -/
def onTransportClosed (c : Conn) (t : ℕ) : Conn :=
  let parser := { c.client.parser with toParserCore := c.client.parser.finish }
  { c with client := { c.client with closed := true, parser := parser } }.log (.closed t)

/-- The callback of `OnError`. -/
def onTransportError (c : Conn) (e : NetworkError) : Conn :=
  { c with client := { c.client with parseFailed := true, parseError := some e } }

/-- An event reaches the client through the callbacks of its transport. -/
def handle [Target] (c : Conn) (e : Event) : Conn :=
  match c.client.transport with
  | none => c
  | some t =>
      match e with
      | .data answers bytes => c.onTransportData t answers bytes
      | .closed => c.onTransportClosed t
      | .error e => c.onTransportError e

def handleAll [Target] (c : Conn) (es : List Event) : Conn := es.foldl handle c

/-! ## Sections of the driver thread -/

/-- `DropTransport`. -/
def dropTransport (c : Conn) : Conn :=
  let c' := match c.client.transport with
    | none => c
    | some t => c.log (.disconnected t)
  { c' with
    client := { c.client with
      transport := none, connected := false, uploadActive := false, uploadChunked := false } }

/-- A new transport, with its callbacks registered. -/
def attach (c : Conn) (tls : Bool) (config : TlsConfig) : Conn :=
  { c with
    client := { c.client with transport := some c.transports }
    transports := c.transports + 1 }.log (.created c.transports tls config)

/-- The end of `EnsureConnected`. -/
def markConnected (c : Conn) (t : ℕ) (url : ParsedUrl) : Conn :=
  { c with
    client := { c.client with
      connected := true
      connectedHost := url.host
      connectedPort := url.port
      connectedTls := url.tls } }.log (.connected t url.host url.port)

/-- The section of `StartRequest` that makes the client ready for a new response. -/
def beginRequest (c : Conn) (t : ℕ) : Conn :=
  { c with
    client := { c.client with
      parser := { c.client.parser.reset with onBody := true }
      parseFailed := false
      parseError := none
      closed := false
      response := {}
      pending := if c.client.streaming then [] else c.client.pending
      uploadChunked := false
      uploadActive := false }
    request := c.request + 1 }.log
      (.began t (c.request + 1) c.client.parser.isComplete)

/-- `Write` finds that the server has answered. -/
def answerEarly (c : Conn) : Conn :=
  let c' := { c with client := { c.client with uploadActive := false } }
  match c.client.transport with
  | none => c'
  | some t => c'.log (.answeredEarly t c.request)

/-- `EndBody` commits itself to the terminator. -/
def endUpload (c : Conn) : Conn := { c with client := { c.client with uploadActive := false } }

/-- The end of `BeginChunkedUpload`. -/
def armUpload (c : Conn) : Conn :=
  { c with client := { c.client with uploadChunked := true, uploadActive := true } }

end Conn

/-- `RequestState`. -/
structure RequestState where
  method : Bytes
  url : ParsedUrl
  body : Bytes
  headers : Fields
deriving DecidableEq, Repr

namespace World

variable [Target] (env : Env)

/-- A point at which the mutex is free. -/
def yield (w : World) : World :=
  { w with toConn := w.toConn.handleAll (env.events w.yields), yields := w.yields + 1 }

def dropTransport (w : World) : World := { w with toConn := w.toConn.dropTransport }

/-- `transport_->Send`. Events may arrive before it returns. -/
def send (t : ℕ) (part : Part) (bytes : Bytes) (w : World) : Result ℕ × World :=
  let outcome := env.send w.sends
  let w := { w with
    toConn := w.toConn.log (.sent t w.request part bytes outcome)
    sends := w.sends + 1 }
  (outcome, w.yield env)

/-- `EnsureConnected`; answers the transport. -/
def ensureConnected (url : ParsedUrl) (w : World) : Result ℕ × World :=
  let reused := if w.client.connected ∧ w.client.keepAlive ∧ url.host = w.client.connectedHost ∧
      url.port = w.client.connectedPort ∧ url.tls = w.client.connectedTls then
    w.client.transport else none
  match reused with
  | some t => (.ok t, w)
  | none =>
      let w := w.dropTransport
      let config := if url.tls then w.client.tls else {}
      match env.create w.creates with
      | .error e => (.error e, { w with creates := w.creates + 1 })
      | .ok () =>
          let t := w.transports
          let w := { w with toConn := w.toConn.attach url.tls config, creates := w.creates + 1 }
          let w := w.yield env
          match env.connect t with
          | .error e => (.error e, w.dropTransport)
          | .ok () => (.ok t, { w with toConn := w.toConn.markConnected t url })

/-- `FailedError`. -/
def failedError (w : World) : NetworkError :=
  w.client.parseError.getD ⟨.kProtocolError, 0, "HTTP request failed"⟩

def uploadOpenError : NetworkError :=
  ⟨.kInvalidArgument, 0,
    "a chunked request body is still open; call EndBody() to finish it or " ++
      "Close() to abandon it before starting another request"⟩

/-- What `StartRequest` passes to `BuildHttpRequest`. -/
def requestOptions (w : World) (request : RequestState) (chunked : Bool) : HttpRequestOptions where
  method := request.method
  headers := request.headers
  body := request.body
  keepAlive := w.client.keepAlive
  chunkedUpload := chunked

/-- `StartRequest`. -/
def startRequest (request : RequestState) (chunked : Bool) (w : World) : Result Unit × World :=
  if w.client.uploadActive then (.error uploadOpenError, w)
  else
    match w.ensureConnected env request.url with
    | (.error e, w) => (.error e, w)
    | (.ok t, w) =>
        let w := w.yield env
        let w := { w with toConn := w.toConn.beginRequest t }
        let w := w.yield env
        match w.send env t .head (buildHttpRequest request.url (w.requestOptions request chunked)) with
        | (.error e, w) => (.error e, w.dropTransport)
        | (.ok _, w) => (.ok (), w)

/-- `ApplyRedirect`: the next request, or `none` where the response is the answer. -/
def applyRedirect (response : HttpResponse) (hop : ℕ) (request : RequestState) (w : World) :
    Result (Option RequestState) × World :=
  if isRedirectStatus response.statusCode = false then (.ok none, w)
  else if w.client.followRedirects = false ∨ w.client.maxRedirects = 0 then (.ok none, w)
  else if redirectLocation response = [] then (.ok none, w)
  else if w.client.maxRedirects ≤ hop then
    (.error ⟨.kProtocolError, response.statusCode,
      "the request was redirected more than " ++ toString w.client.maxRedirects ++ " times"⟩, w)
  else
    match resolveRedirect request.url (redirectLocation response) with
    | .error e => (.error e, w)
    | .ok next =>
        let headers := if sameOrigin request.url next then request.headers
          else request.headers.filter fun h => !isCredentialHeader h.1
        let rewrite := response.statusCode = 303 ∨
          ((response.statusCode = 301 ∨ response.statusCode = 302) ∧
            request.method ≠ methodGet ∧ request.method ≠ methodHead)
        let next' : RequestState :=
          { method := if rewrite then methodGet else request.method
            url := next
            body := if rewrite then [] else request.body
            headers := headers }
        -- A streaming caller has not read the body of the response it leaves.
        (.ok (some next'), if w.client.streaming then w.dropTransport else w)

/-- `ExecuteOnce`. -/
def executeOnce (request : RequestState) (w : World) : Result HttpResponse × World :=
  let w := { w with client := { w.client with streaming := false } }
  match w.startRequest env request false with
  | (.error e, w) => (.error e, w)
  | (.ok (), w) =>
      let w := w.yield env
      if w.client.parseFailed then (.error w.failedError, (w.yield env).dropTransport)
      else if w.client.parser.isComplete = false then
        (.error (if w.client.closed then
            ⟨.kConnectionLost, 0, "connection closed before the response was complete"⟩
          else ⟨.kTimeout, 0, "timed out waiting for the HTTP response"⟩),
          (w.yield env).dropTransport)
      else
        let result := { w.client.response with
          statusCode := w.client.parser.statusCode
          headers := w.client.parser.headers.foldl (fun m h => m.set h.1 h.2)
            w.client.response.headers }
        let w := { w with client := { w.client with response := {} } }
        (.ok result, if w.client.keepAlive then w else (w.yield env).dropTransport)

def methodIsRepeatable (method : Bytes) : Bool :=
  method == methodGet || method == methodHead || method == methodOptions

/-- `ExecuteAttempt`. -/
def executeAttempt (request : RequestState) (w : World) : Result HttpResponse × World :=
  match w.executeOnce env request with
  | (.ok response, w) => (.ok response, w)
  | (.error e, w) =>
      if methodIsRepeatable request.method ∧ e.code = .kConnectionLost then
        w.executeOnce env request
      else (.error e, w)

/-- One pass of the loop of `Execute`: the response and the request to make next. -/
def executeHop (hop : ℕ) (request : RequestState) (w : World) :
    Result (HttpResponse × Option RequestState) × World :=
  match w.executeAttempt env request with
  | (.error e, w) => (.error e, w)
  | (.ok response, w) =>
      match w.applyRedirect response hop request with
      | (.error e, w) => (.error e, w)
      | (.ok next, w) => (.ok (response, next), w)

/-- The loop of `Execute`. `left` is how many hops `ApplyRedirect` still allows. -/
def executeHops : ℕ → ℕ → RequestState → World → Result HttpResponse × World
  | left, hop, request, w =>
      match w.executeHop env hop request, left with
      | (.error e, w), _ => (.error e, w)
      | (.ok (_, some next), w), left + 1 => executeHops left (hop + 1) next w
      | (.ok (response, _), w), _ => (.ok response, w)

/-- The request as the caller configured it. -/
def configured (w : World) (method : Bytes) (url : ParsedUrl) : RequestState where
  method := method
  url := url
  body := w.client.requestBody
  headers := w.client.headers

/-- `Execute`. -/
def execute (method url : Bytes) (w : World) : Result HttpResponse × World :=
  match parseUrl url with
  | .error e => (.error e, w)
  | .ok url => executeHops env w.client.maxRedirects 0 (w.configured method url) w

/-- `AwaitHeaders`. -/
def awaitHeaders (w : World) : Result HttpResponse × World :=
  let w := w.yield env
  if w.client.parseFailed then (.error w.failedError, w)
  else if w.client.parser.state = .kError then
    (.error ⟨.kProtocolError, 0, "malformed HTTP response"⟩, w)
  else if w.client.parser.state = .kStatusLine ∨ w.client.parser.state = .kHeaders then
    (.error (if w.client.closed then
        ⟨.kConnectionLost, 0, "connection closed before the HTTP response headers arrived"⟩
      else ⟨.kTimeout, 0, "timed out waiting for the HTTP response headers"⟩), w)
  else
    (.ok { statusCode := w.client.parser.statusCode, headers := w.client.parser.headers }, w)

def expectName : Bytes := ascii ['e', 'x', 'p', 'e', 'c', 't']

/-- `BeginChunkedUpload`. -/
def beginChunkedUpload (request : RequestState) (w : World) : Result Unit × World :=
  if request.body ≠ [] then
    (.error ⟨.kInvalidArgument, 0,
      "a body was set with SetBody() and chunked upload is on; a chunked " ++
        "body is written with Write(), not set in advance. SetBody(\"\") " ++
        "clears the one that is held"⟩, w)
  else if request.headers.any fun h => toLower h.1 == expectName then
    (.error ⟨.kInvalidArgument, 0,
      "Expect: 100-continue cannot be used with a chunked upload; the " ++
        "interim response is not handled"⟩, w)
  else
    match w.startRequest env request true with
    | (.error e, w) => (.error e, w)
    | (.ok (), w) => (.ok (), { w with toConn := w.toConn.armUpload })

/-- One pass of the loop of `Open`: the request to make next. -/
def openHop (hop : ℕ) (request : RequestState) (w : World) : Result (Option RequestState) × World :=
  match w.startRequest env request false with
  | (.error e, w) => (.error e, w)
  | (.ok (), w) =>
      match w.awaitHeaders env with
      | (.error e, w) => (.error e, w)
      | (.ok head, w) => (w.yield env).applyRedirect head hop request

/-- The loop of `Open`. -/
def openHops : ℕ → ℕ → RequestState → World → Result Unit × World
  | left, hop, request, w =>
      match w.openHop env hop request, left with
      | (.error e, w), _ => (.error e, w)
      | (.ok (some next), w), left + 1 => openHops left (hop + 1) next w
      | (.ok _, w), _ => (.ok (), w)

/-- `Open`. -/
def «open» (method url : Bytes) (w : World) : Result Unit × World :=
  match parseUrl url with
  | .error e => (.error e, w)
  | .ok url =>
      let request := w.configured method url
      let w := { w with client := { w.client with streaming := true } }
      if w.client.chunkedUpload then
        match w.beginChunkedUpload env request with
        | (.error e, w) => (.error e, { w with client := { w.client with streaming := false } })
        | (.ok (), w) => (.ok (), w)
      else openHops env w.client.maxRedirects 0 request w

/-- `Read` of at most `size` bytes; answers the bytes it copied. -/
def read (size : ℕ) (w : World) : Result Bytes × World :=
  let w := w.yield env
  if w.client.pending = [] then
    if w.client.parseFailed then (.error w.failedError, w)
    else if w.client.parser.isComplete then (.ok [], w)
    else if w.client.closed then
      (.error ⟨.kConnectionLost, 0, "connection closed before the response was complete"⟩, w)
    else (.error ⟨.kTimeout, 0, "timed out reading HTTP body"⟩, w)
  else
    (.ok (w.client.pending.take size),
      { w with client := { w.client with pending := w.client.pending.drop size } })

/-- `ChunkFrame`. -/
def chunkFrame (data : Bytes) : Bytes := toHexString data.length ++ crlf ++ data ++ crlf

/-- The buffer and size given to `Write`: a null pointer comes with a size of its own. -/
inductive Buffer where
  | null (size : ℕ)
  | bytes (data : Bytes)
deriving DecidableEq, Repr

def Buffer.size : Buffer → ℕ
  | .null size => size
  | .bytes data => data.length

def bodyEndedError : NetworkError :=
  ⟨.kInvalidArgument, 0,
    "the chunked request body is no longer being written - it was ended by " ++
      "EndBody(), or the server answered before it was finished"⟩

/-- `Write`. -/
def write (buffer : Buffer) (w : World) : Result ℕ × World :=
  if w.client.uploadChunked = false then
    if w.client.chunkedUpload = false then
      (.error ⟨.kNotSupported, 0,
        "streaming a request body requires SetChunkedUpload(true) before " ++
          "Open(); a body that is known up front belongs in SetBody()"⟩, w)
    else
      (.error ⟨.kNotConnected, 0, "no chunked request is open; call Open() before Write()"⟩, w)
  else if w.client.uploadActive = false then (.error bodyEndedError, w)
  else if w.client.closed then
    (.error ⟨.kNotConnected, 0,
      "the connection was closed while the chunked body was being written"⟩, w)
  else if w.client.parser.state ≠ .kStatusLine then
    let status := w.client.parser.statusCode
    (.error ⟨.kProtocolError, status,
      "the server answered with status " ++ toString status ++
        " before the request body was finished, so no more was sent; the " ++
        "response is readable"⟩, { w with toConn := w.toConn.answerEarly })
  else if buffer.size = 0 then (.ok 0, w)
  else
    match buffer with
    | .null _ => (.error ⟨.kInvalidArgument, 0, "Write() was given no buffer"⟩, w)
    | .bytes data =>
        if 2 ^ 31 - 1 < data.length then
          (.error ⟨.kInvalidArgument, 0,
            "a chunk larger than INT_MAX bytes cannot be reported as a length"⟩, w)
        else
          match w.client.transport with
          | none =>
              (.error ⟨.kNotConnected, 0,
                "the connection was dropped while the chunked body was being written"⟩, w)
          | some t =>
              match w.send env t .chunk (chunkFrame data) with
              | (.error e, w) => (.error e, w.dropTransport)
              | (.ok sent, w) =>
                  if sent ≠ (chunkFrame data).length then
                    (.error ⟨.kTransmitFailed, 0,
                      "the transport accepted only part of a chunk, so the framing no longer " ++
                        "matches the bytes on the wire"⟩, w.dropTransport)
                  else (.ok data.length, w)

/-- "0", CRLF, CRLF. -/
def kTerminator : Bytes := [48, 13, 10, 13, 10]

/-- `EndBody` behind the terminator. -/
def awaitAnswer (w : World) : Result Unit × World :=
  match w.awaitHeaders env with
  | (.error e, w) => (.error e, (w.yield env).dropTransport)
  | (.ok head, w) =>
      if w.client.followRedirects ∧ isRedirectStatus head.statusCode then
        (.error ⟨.kProtocolError, head.statusCode,
          "the server answered a streamed request body with a redirect, and a " ++
            "body that has already gone out cannot be sent again; read the status " ++
            "and the Location, or turn following off to treat it as an answer"⟩,
          (w.yield env).dropTransport)
      else (.ok (), w)

/-- `EndBody`. -/
def endBody (w : World) : Result Unit × World :=
  if w.client.uploadChunked = false then
    if w.client.chunkedUpload = false then
      (.error ⟨.kNotSupported, 0,
        "EndBody() ends a chunked request body, and none was asked for; " ++
          "SetChunkedUpload(true) before Open()"⟩, w)
    else
      (.error ⟨.kNotConnected, 0, "no chunked request is open; call Open() before EndBody()"⟩, w)
  else if w.client.uploadActive = false then (.error bodyEndedError, w)
  else
    let w := { w with toConn := w.toConn.endUpload }
    match w.client.transport with
    | none =>
        (.error ⟨.kNotConnected, 0,
          "the connection was dropped before the request body was ended"⟩, w)
    | some t =>
        match w.send env t .terminator kTerminator with
        | (.error e, w) => (.error e, w.dropTransport)
        | (.ok sent, w) =>
            if sent ≠ kTerminator.length then
              (.error ⟨.kTransmitFailed, 0,
                "the request body terminator could not be sent whole"⟩, w.dropTransport)
            else w.awaitAnswer env

omit [Target] in
/-- `Close`. -/
def close (w : World) : World :=
  let w := w.dropTransport
  { w with client := { w.client with pending := [], streaming := false } }

/-! ## Runs -/

/-- The calls of the driver thread. -/
inductive Call where
  | «open» (method url : Bytes)
  | execute (method url : Bytes)
  | read (size : ℕ)
  | write (buffer : Buffer)
  | endBody
  | close
  | setKeepAlive (enable : Bool)
  | setChunkedUpload (enable : Bool)
  | setHeader (key value : Bytes)
  | setBody (body : Bytes)
  | setFollowRedirects (enable : Bool)
  | setMaxRedirects (max : Int)
  | setTlsConfig (config : TlsConfig)

/-- The setters change what the next request is made of and nothing else. -/
def configure (call : Call) (client : SoftwareHttpClient) : SoftwareHttpClient :=
  match call with
  | .setKeepAlive enable => { client with keepAlive := enable }
  | .setChunkedUpload enable => { client with chunkedUpload := enable }
  | .setHeader key value => { client with headers := client.headers ++ [(key, value)] }
  | .setBody body => { client with requestBody := body }
  | .setFollowRedirects enable => { client with followRedirects := enable }
  | .setMaxRedirects max => { client with maxRedirects := max.toNat }
  | .setTlsConfig config => { client with tls := config }
  | _ => client

/-- One call, and the events before the next one. -/
def perform (w : World) (call : Call) : World :=
  let w := match call with
    | .open method url => (w.open env method url).2
    | .execute method url => (w.execute env method url).2
    | .read size => (w.read env size).2
    | .write buffer => (w.write env buffer).2
    | .endBody => (w.endBody env).2
    | .close => w.close
    | _ => { w with client := configure call w.client }
  w.yield env

/-- The run of a list of calls on a new client. -/
def run (calls : List Call) : World := calls.foldl (perform env) {}

end World

end EspModemLink.Http
