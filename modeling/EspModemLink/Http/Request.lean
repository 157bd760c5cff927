import EspModemLink.Http.Parser

/-!
# URLs, requests and redirects

`ParseUrl` and `BuildHttpRequest`, and the redirect helpers: which statuses
redirect, where a `Location` points, and what may travel there.
-/

namespace EspModemLink.Http

open Bytes AtParser

/-- `ParsedUrl`. -/
structure ParsedUrl where
  tls : Bool := false
  host : Bytes := []
  port : ℕ := 0
  path : Bytes := []
deriving DecidableEq, Repr

/-- A list of header fields in the order they are sent. -/
abbrev Fields := List (Bytes × Bytes)

def httpScheme : Bytes := ascii ['h', 't', 't', 'p', ':', '/', '/']
def httpsScheme : Bytes := ascii ['h', 't', 't', 'p', 's', ':', '/', '/']
def slash : UInt8 := 47
def question : UInt8 := 63
def colon : UInt8 := 58

def urlError (context : String) : Result ParsedUrl := .error ⟨.kInvalidArgument, 0, context⟩

def defaultPort (tls : Bool) : ℕ := if tls then 443 else 80

/-- `ParseUrl` behind the scheme. -/
def parseAuthority (tls : Bool) (rest : Bytes) : Result ParsedUrl :=
  let authorityEnd := findFirstOf slash question rest
  let authority := upTo rest authorityEnd
  let path := match authorityEnd with
    | none => [slash]
    | some e => if (rest.drop e).head? = some question then slash :: rest.drop e else rest.drop e
  if authority = [] then urlError "URL has no host"
  else
    -- Userinfo is dropped.
    let authority := match findByte 64 authority with
      | none => authority
      | some at' => authority.drop (at' + 1)
    match rfindByte colon authority with
    | none =>
        if authority = [] then urlError "URL has no host"
        else .ok ⟨tls, authority, defaultPort tls, path⟩
    | some c =>
        match parseInt (authority.drop (c + 1)) with
        | none => urlError "URL has an invalid port"
        | some port =>
            if port ≤ 0 ∨ 65535 < port then urlError "URL has an invalid port"
            else if authority.take c = [] then urlError "URL has no host"
            else .ok ⟨tls, authority.take c, port.toNat, path⟩

/-- `ParseUrl`. -/
def parseUrl (url : Bytes) : Result ParsedUrl :=
  if startsWith url httpScheme then parseAuthority false (url.drop 7)
  else if startsWith url httpsScheme then parseAuthority true (url.drop 8)
  else urlError "URL must start with http:// or https://"

/-! ## Requests -/

/-- "esp-modem-link/1.0". -/
def defaultUserAgent : Bytes :=
  ascii ['e', 's', 'p', '-', 'm', 'o', 'd', 'e', 'm', '-', 'l', 'i', 'n', 'k', '/', '1', '.', '0']

def methodGet : Bytes := ascii ['G', 'E', 'T']
def methodHead : Bytes := ascii ['H', 'E', 'A', 'D']
def methodOptions : Bytes := ascii ['O', 'P', 'T', 'I', 'O', 'N', 'S']

/-- `HttpRequestOptions`. -/
structure HttpRequestOptions where
  method : Bytes := methodGet
  headers : Fields := []
  body : Bytes := []
  keepAlive : Bool := false
  userAgent : Bytes := defaultUserAgent
  chunkedUpload : Bool := false
deriving DecidableEq, Repr

def hostName : Bytes := ascii ['H', 'o', 's', 't']
def userAgentName : Bytes := ascii ['U', 's', 'e', 'r', '-', 'A', 'g', 'e', 'n', 't']
def connectionName : Bytes := ascii ['C', 'o', 'n', 'n', 'e', 'c', 't', 'i', 'o', 'n']
def contentLengthField : Bytes :=
  ascii ['C', 'o', 'n', 't', 'e', 'n', 't', '-', 'L', 'e', 'n', 'g', 't', 'h']
def transferEncodingField : Bytes :=
  ascii ['T', 'r', 'a', 'n', 's', 'f', 'e', 'r', '-', 'E', 'n', 'c', 'o', 'd', 'i', 'n', 'g']
def keepAliveValue : Bytes := ascii ['k', 'e', 'e', 'p', '-', 'a', 'l', 'i', 'v', 'e']
def closeValue : Bytes := ascii ['c', 'l', 'o', 's', 'e']

/-- The `set_header` of `BuildHttpRequest`: a field of that name in any case keeps its place
and its spelling. -/
def setHeader (key value : Bytes) : Fields → Fields
  | [] => [(key, value)]
  | (k, v) :: fields =>
      if toLower k = toLower key then (k, value) :: fields
      else (k, v) :: setHeader key value fields

/-- The `remove_header` of `BuildHttpRequest`. -/
def removeHeader (key : Bytes) (fields : Fields) : Fields :=
  fields.filter fun f => toLower f.1 != toLower key

/-- The field that is set is there, under a name of that spelling up to case. -/
theorem exists_mem_setHeader (key value : Bytes) (fields : Fields) :
    ∃ f ∈ setHeader key value fields, toLower f.1 = toLower key ∧ f.2 = value := by
  induction fields with
  | nil => exact ⟨(key, value), by simp [setHeader], rfl, rfl⟩
  | cons f fields ih =>
      rw [setHeader]
      split
      · rename_i hname
        exact ⟨(f.1, value), List.mem_cons_self .., hname, rfl⟩
      · obtain ⟨g, hg, hname, hvalue⟩ := ih
        exact ⟨g, List.mem_cons_of_mem _ hg, hname, hvalue⟩

/-- Setting a field brings in no other name. -/
theorem name_of_mem_setHeader {key value : Bytes} {fields : Fields} {f : Bytes × Bytes}
    (h : f ∈ setHeader key value fields) :
    toLower f.1 = toLower key ∨ ∃ g ∈ fields, toLower g.1 = toLower f.1 := by
  induction fields with
  | nil =>
      obtain rfl := List.mem_singleton.mp h
      exact .inl rfl
  | cons g fields ih =>
      rw [setHeader] at h
      split at h
      · rename_i hname
        rcases List.mem_cons.mp h with rfl | h
        · exact .inl hname
        · exact .inr ⟨f, List.mem_cons_of_mem _ h, rfl⟩
      · rcases List.mem_cons.mp h with rfl | h
        · exact .inr ⟨_, List.mem_cons_self .., rfl⟩
        · exact (ih h).imp_right fun ⟨g', hg', hname⟩ => ⟨g', List.mem_cons_of_mem _ hg', hname⟩

theorem name_of_mem_foldl_setHeader {headers fields : Fields} {f : Bytes × Bytes}
    (h : f ∈ headers.foldl (fun fields h => setHeader h.1 h.2 fields) fields) :
    (∃ g ∈ headers, toLower g.1 = toLower f.1) ∨ ∃ g ∈ fields, toLower g.1 = toLower f.1 := by
  induction headers generalizing fields with
  | nil => exact .inr ⟨f, h, rfl⟩
  | cons k headers ih =>
      rcases ih h with ⟨g, hg, hname⟩ | ⟨g, hg, hname⟩
      · exact .inl ⟨g, List.mem_cons_of_mem _ hg, hname⟩
      · rcases name_of_mem_setHeader hg with hk | ⟨g', hg', hname'⟩
        · exact .inl ⟨k, List.mem_cons_self .., hk.symm.trans hname⟩
        · exact .inr ⟨g', hg', hname'.trans hname⟩

theorem name_of_mem_removeHeader {key : Bytes} {fields : Fields} {f : Bytes × Bytes}
    (h : f ∈ removeHeader key fields) : toLower f.1 ≠ toLower key := by
  simpa using (List.mem_filter.mp h).2

/-- The `Host` field, with the port where it is not the default one. -/
def hostHeader (url : ParsedUrl) : Bytes :=
  if url.port = defaultPort url.tls then url.host else url.host ++ colon :: decimal url.port

/-- The fields that are there before the caller's. -/
def generatedFields (url : ParsedUrl) (options : HttpRequestOptions) : Fields :=
  [(hostName, hostHeader url), (userAgentName, options.userAgent),
    (connectionName, if options.keepAlive then keepAliveValue else closeValue)]

/-- The fields with the caller's among them. -/
def mergedFields (url : ParsedUrl) (options : HttpRequestOptions) : Fields :=
  options.headers.foldl (fun fields h => setHeader h.1 h.2 fields) (generatedFields url options)

/-- The fields that `BuildHttpRequest` writes. -/
def requestFields (url : ParsedUrl) (options : HttpRequestOptions) : Fields :=
  if options.chunkedUpload then
    setHeader transferEncodingField ParserCore.chunkedCoding
      (removeHeader contentLengthField (mergedFields url options))
  else setHeader contentLengthField (decimal options.body.length) (mergedFields url options)

def fieldLine (f : Bytes × Bytes) : Bytes := f.1 ++ [colon, space] ++ f.2 ++ crlf

/-- "HTTP/1.1". -/
def httpVersion : Bytes := ascii ['H', 'T', 'T', 'P', '/', '1', '.', '1']

/-- A request message and the bytes it is written as. -/
structure RequestMessage where
  method : Bytes
  target : Bytes
  fields : Fields
  body : Bytes

def RequestMessage.bytes (m : RequestMessage) : Bytes :=
  m.method ++ space :: m.target ++ space :: httpVersion ++ crlf ++ m.fields.flatMap fieldLine ++
    crlf ++ m.body

/-- The message of `BuildHttpRequest`. A chunked body follows from `Write`. -/
def requestMessage (url : ParsedUrl) (options : HttpRequestOptions) : RequestMessage where
  method := options.method
  target := if url.path = [] then [slash] else url.path
  fields := requestFields url options
  body := if options.chunkedUpload then [] else options.body

/-- `BuildHttpRequest`. -/
def buildHttpRequest (url : ParsedUrl) (options : HttpRequestOptions) : Bytes :=
  (requestMessage url options).bytes

/-! ## Redirects -/

/-- `HttpResponse`. -/
structure HttpResponse where
  statusCode : Int := 0
  headers : HeaderMap := []
  body : Bytes := []
deriving DecidableEq, Repr

def isRedirectStatus (status : Int) : Bool :=
  status = 301 ∨ status = 302 ∨ status = 303 ∨ status = 307 ∨ status = 308

def equalsIgnoreCase (a b : Bytes) : Bool := toLower a == toLower b

def locationName : Bytes := ascii ['L', 'o', 'c', 'a', 't', 'i', 'o', 'n']

/-- `RedirectLocation`: empty when there is none. -/
def redirectLocation (response : HttpResponse) : Bytes :=
  ((response.headers.find? fun h => equalsIgnoreCase h.1 locationName).map Prod.snd).getD []

def dot : Bytes := [46]
def dotdot : Bytes := [46, 46]

/-- The segments of a path, split at every slash; `fuel` bounds the passes. -/
def splitPath : ℕ → Bytes → List Bytes
  | 0, _ => []
  | _ + 1, [] => []
  | n + 1, path =>
      let segment := path.takeWhile (· != slash)
      segment :: splitPath n (path.drop (segment.length + 1))

/-- One segment in the loop of `NormalizePath`, the kept ones in reverse. -/
def pushSegment (segments : List Bytes) (segment : Bytes) : List Bytes :=
  if segment = dotdot then segments.drop 1
  else if segment = dot ∨ segment = [] then segments
  else segment :: segments

def joinSegments : List Bytes → Bytes
  | [] => []
  | [s] => s
  | s :: rest => s ++ slash :: joinSegments rest

/-- `NormalizePath`. -/
def normalizePath (path : Bytes) : Bytes :=
  let queryAt := findByte question path
  let pathPart := upTo path queryAt
  let query := match queryAt with
    | none => []
    | some q => path.drop q
  let segments := ((splitPath (pathPart.length + 1) pathPart).foldl pushSegment []).reverse
  let out := slash :: joinSegments segments
  let directory := pathPart.getLast? == some slash || pathPart == dot || pathPart == dotdot ||
    endsWith pathPart (slash :: dot) || endsWith pathPart (slash :: dotdot)
  let out := if pathPart ≠ [] ∧ 1 < out.length ∧ directory = true then out ++ [slash] else out
  out ++ query

/-- `ResolvePath`. -/
def resolvePath (source : ParsedUrl) (location : Bytes) : Bytes :=
  let basePath := upTo source.path (findByte question source.path)
  if location.head? = some question then basePath ++ location
  else if location.head? = some slash then location
  else
    (match rfindByte slash basePath with
      | none => []
      | some lastSlash => basePath.take (lastSlash + 1)) ++ location

/-- `ResolveRedirect`. -/
def resolveRedirect (source : ParsedUrl) (location : Bytes) : Result ParsedUrl :=
  let location := upTo location (findByte 35 location)
  let scheme := if source.tls then httpsScheme else httpScheme
  if location = [] then .error ⟨.kProtocolError, 0, "the redirect has an empty Location"⟩
  else
    let resolved : Result Bytes :=
      if startsWith location httpScheme ∨ startsWith location httpsScheme then .ok location
      else if startsWith location [slash, slash] then .ok (scheme.dropLast.dropLast ++ location)
      else if colon ∈ upTo location (findFirstOf slash question location) then
        .error ⟨.kProtocolError, 0,
          "the redirect names a scheme this client cannot follow: " ++ text location⟩
      else
        let port := if source.port = defaultPort source.tls then [] else colon :: decimal source.port
        .ok (scheme ++ source.host ++ port ++ normalizePath (resolvePath source location))
    match resolved with
    | .error e => .error e
    | .ok resolved =>
        match parseUrl resolved with
        | .ok url => .ok url
        | .error _ => .error ⟨.kProtocolError, 0,
            "the redirect points somewhere this client cannot go: " ++ text resolved⟩

def sameOrigin (a b : ParsedUrl) : Bool :=
  a.tls == b.tls && a.port == b.port && equalsIgnoreCase a.host b.host

def isCredentialHeader (name : Bytes) : Bool :=
  let lower := toLower name
  lower == ascii ['a', 'u', 't', 'h', 'o', 'r', 'i', 'z', 'a', 't', 'i', 'o', 'n'] ||
    lower == ascii ['c', 'o', 'o', 'k', 'i', 'e'] ||
    lower == ascii ['p', 'r', 'o', 'x', 'y', '-', 'a', 'u', 't', 'h', 'o', 'r', 'i', 'z', 'a', 't',
      'i', 'o', 'n']

end EspModemLink.Http
