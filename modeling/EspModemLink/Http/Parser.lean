import EspModemLink.AtParser
import EspModemLink.NetworkError

/-!
# The incremental HTTP response parser

`HttpParser`: one function for each state, the loop of `Feed` over them, the bank
of unconsumed bytes, `Finish` and `Reset`.
-/

namespace EspModemLink

/-- The machine the library is built for, as far as the results depend on it: `size_t`
has at least the 32 bits of `int`. -/
class Target where
  sizeBits : ℕ
  wide : 32 ≤ sizeBits

/-- The ESP32, whose `size_t` has 32 bits. -/
@[reducible] def esp32 : Target := ⟨32, Nat.le_refl _⟩

/-- The `size_t` a number is stored as. -/
def toSize [Target] (n : ℕ) : ℕ := n % 2 ^ Target.sizeBits

/-- `static_cast<size_t>` of an `int`. -/
def intToSize [Target] (n : Int) : ℕ := (n % 2 ^ Target.sizeBits).toNat

namespace Http

open Bytes AtParser

/-- `HttpParser::State`. -/
inductive ParserState where
  | kStatusLine | kHeaders | kBody | kChunkSize | kChunkData | kChunkDataEnd | kChunkTrailer
  | kComplete | kError
deriving DecidableEq, Repr

/-- `std::map<std::string, std::string>`, kept in the order of its keys. -/
abbrev HeaderMap := List (Bytes × Bytes)

/-- `operator<` of two strings. -/
def bytesLt : Bytes → Bytes → Bool
  | _, [] => false
  | [], _ :: _ => true
  | c :: s, d :: t => c < d || (c == d && bytesLt s t)

/-- `headers_[name] = value`. -/
def HeaderMap.set (name value : Bytes) : HeaderMap → HeaderMap
  | [] => [(name, value)]
  | (k, v) :: m =>
      if k = name then (name, value) :: m
      else if bytesLt name k then (name, value) :: (k, v) :: m
      else (k, v) :: HeaderMap.set name value m

/-- The members of `HttpParser` that the state functions work on. `onBody` says whether a
callback takes the body; `delivered` is what that callback has been given since `Reset`. -/
structure ParserCore where
  state : ParserState := .kStatusLine
  httpMajor : Int := 0
  httpMinor : Int := 0
  statusCode : Int := 0
  reason : Bytes := []
  headers : HeaderMap := []
  body : Bytes := []
  onBody : Bool := false
  delivered : Bytes := []
  contentLength : ℕ := 0
  hasContentLength : Bool := false
  chunked : Bool := false
  bodyRemaining : ℕ := 0
  chunkRemaining : ℕ := 0
deriving DecidableEq, Repr

/-- `HttpParser`: only `Feed` and `Reset` touch the bank. -/
structure HttpParser extends ParserCore where
  buffer : Bytes := []
deriving DecidableEq, Repr

/-- The file-local `Trim`: blanks and tabs only. -/
def trim (s : Bytes) : Bytes := trimBy isBlank s

/-- `TakeLine`: the line and the number of bytes it takes with its ending. -/
def takeLine (data : Bytes) : Option (Bytes × ℕ) :=
  match find crlf data with
  | none => (findByte lf data).map fun pos => (data.take pos, pos + 1)
  | some pos => some (data.take pos, pos + 2)

namespace ParserCore

/-- What a state function answers: the bytes it consumed, or an error, and the parser
it leaves. -/
abbrev Step := Result ℕ × ParserCore

def protocolError (context : String) : Result ℕ := .error ⟨.kProtocolError, 0, context⟩

def emitBody (p : ParserCore) (data : Bytes) : ParserCore :=
  if p.onBody then { p with delivered := p.delivered ++ data } else { p with body := p.body ++ data }

@[simp, grind =] theorem emitBody_state (p : ParserCore) (s : Bytes) : (p.emitBody s).state = p.state := by
  cases h : p.onBody <;> simp [emitBody, h]

@[simp, grind =] theorem emitBody_onBody (p : ParserCore) (s : Bytes) :
    (p.emitBody s).onBody = p.onBody := by
  cases h : p.onBody <;> simp [emitBody, h]

@[simp, grind =] theorem emitBody_hasContentLength (p : ParserCore) (s : Bytes) :
    (p.emitBody s).hasContentLength = p.hasContentLength := by
  cases h : p.onBody <;> simp [emitBody, h]

@[simp, grind =] theorem emitBody_bodyRemaining (p : ParserCore) (s : Bytes) :
    (p.emitBody s).bodyRemaining = p.bodyRemaining := by
  cases h : p.onBody <;> simp [emitBody, h]

@[simp, grind =] theorem emitBody_chunkRemaining (p : ParserCore) (s : Bytes) :
    (p.emitBody s).chunkRemaining = p.chunkRemaining := by
  cases h : p.onBody <;> simp [emitBody, h]

@[simp, grind =] theorem emitBody_reason (p : ParserCore) (s : Bytes) :
    (p.emitBody s).reason = p.reason := by
  cases h : p.onBody <;> simp [emitBody, h]

theorem emitBody_append (p : ParserCore) (s t : Bytes) :
    (p.emitBody s).emitBody t = p.emitBody (s ++ t) := by
  cases h : p.onBody <;> simp [emitBody, h]

/-- `FeedStatusLine` behind `TakeLine`. -/
def readStatusLine (p : ParserCore) (line : Bytes) (consumed : ℕ) : Step :=
  if ¬ startsWith line (ascii ['H', 'T', 'T', 'P', '/']) then
    (protocolError "malformed HTTP status line", p)
  else
    let rest := line.drop 5
    match findByte 32 rest with
    | none => (protocolError "HTTP status line has no status code", p)
    | some sp =>
        let version := rest.take sp
        match findByte 46 version with
        | none => (protocolError "malformed HTTP version", p)
        | some dot =>
            match parseInt (version.take dot), parseInt (version.drop (dot + 1)) with
            | some major, some minor =>
                -- The version is stored before the status code is looked at.
                let p := { p with httpMajor := major, httpMinor := minor }
                let remainder := trim (rest.drop (sp + 1))
                let codeEnd := findByte 32 remainder
                match parseInt (upTo remainder codeEnd) with
                | none => (protocolError "malformed HTTP status code", p)
                | some code =>
                    let reason := match codeEnd with
                      | none => []
                      | some e => trim (remainder.drop (e + 1))
                    (.ok consumed,
                      { p with statusCode := code, reason := reason, state := .kHeaders })
            | _, _ => (protocolError "malformed HTTP version", p)

def feedStatusLine (p : ParserCore) (data : Bytes) : Step :=
  match takeLine data with
  | none => (.ok 0, p)
  | some (line, consumed) => readStatusLine p line consumed

/-- The blank line that ends the header block. -/
def endHeaders (p : ParserCore) : ParserCore :=
  if p.chunked then { p with state := .kChunkSize }
  else if p.hasContentLength then
    { p with
      bodyRemaining := p.contentLength
      state := if p.contentLength = 0 then .kComplete else .kBody }
  else { p with state := .kBody, bodyRemaining := 0 }

def contentLengthName : Bytes :=
  ascii ['c', 'o', 'n', 't', 'e', 'n', 't', '-', 'l', 'e', 'n', 'g', 't', 'h']

def transferEncodingName : Bytes :=
  ascii ['t', 'r', 'a', 'n', 's', 'f', 'e', 'r', '-', 'e', 'n', 'c', 'o', 'd', 'i', 'n', 'g']

def chunkedCoding : Bytes := ascii ['c', 'h', 'u', 'n', 'k', 'e', 'd']

/-- `FeedHeaders` behind `TakeLine`. -/
def readHeader [Target] (p : ParserCore) (line : Bytes) (consumed : ℕ) : Step :=
  if line = [] then (.ok consumed, p.endHeaders)
  else
    match findByte 58 line with
    | none => (protocolError "malformed HTTP header line", p)
    | some colon =>
        let name := toLower (trim (line.take colon))
        let value := trim (line.drop (colon + 1))
        if name = [] then (protocolError "empty HTTP header name", p)
        else if name = contentLengthName then
          match parseInt value with
          | none => (protocolError "malformed Content-Length", p)
          | some len =>
              (.ok consumed,
                { p with
                  contentLength := intToSize len
                  hasContentLength := true
                  headers := p.headers.set name value })
        else if name = transferEncodingName then
          (.ok consumed,
            { p with
              chunked := p.chunked || (find chunkedCoding (toLower value)).isSome
              headers := p.headers.set name value })
        else (.ok consumed, { p with headers := p.headers.set name value })

def feedHeaders [Target] (p : ParserCore) (data : Bytes) : Step :=
  match takeLine data with
  | none => (.ok 0, p)
  | some (line, consumed) => readHeader p line consumed

def feedBody (p : ParserCore) (data : Bytes) : Step :=
  if p.bodyRemaining = 0 ∧ p.hasContentLength = false then
    (.ok data.length, p.emitBody data)
  else
    let take := min data.length p.bodyRemaining
    let p := p.emitBody (data.take take)
    (.ok take,
      { p with
        bodyRemaining := p.bodyRemaining - take
        state := if p.bodyRemaining - take = 0 then .kComplete else p.state })

/-- The hex digits of a chunk size, reduced to a `size_t` at every digit. -/
def chunkSizeValue [Target] : ℕ → Bytes → Option ℕ
  | value, [] => some value
  | value, c :: s =>
      match hexCharToNibble c with
      | none => none
      | some digit => chunkSizeValue (toSize (value * 16 + digit)) s

/-- `FeedChunkSize` behind `TakeLine`. -/
def readChunkSize [Target] (p : ParserCore) (line : Bytes) (consumed : ℕ) : Step :=
  let sizeField := match findByte 59 (trim line) with
    | none => trim line
    | some semi => trim ((trim line).take semi)
  if sizeField = [] then (protocolError "empty chunk size", p)
  else
    match chunkSizeValue 0 sizeField with
    | none => (protocolError "malformed chunk size", p)
    | some 0 => (.ok consumed, { p with state := .kChunkTrailer })
    | some value => (.ok consumed, { p with chunkRemaining := value, state := .kChunkData })

def feedChunkSize [Target] (p : ParserCore) (data : Bytes) : Step :=
  match takeLine data with
  | none => (.ok 0, p)
  | some (line, consumed) => readChunkSize p line consumed

def feedChunkData (p : ParserCore) (data : Bytes) : Step :=
  let take := min data.length p.chunkRemaining
  let p := p.emitBody (data.take take)
  (.ok take,
    { p with
      chunkRemaining := p.chunkRemaining - take
      state := if p.chunkRemaining - take = 0 then .kChunkDataEnd else p.state })

def feedChunkDataEnd (p : ParserCore) : Bytes → Step
  | [] => (.ok 0, p)
  | [c] => if c = lf then (.ok 1, { p with state := .kChunkSize }) else (.ok 0, p)
  | c :: d :: _ =>
      if c = lf then (.ok 1, { p with state := .kChunkSize })
      else if c = cr ∧ d = lf then (.ok 2, { p with state := .kChunkSize })
      else (protocolError "chunk data not terminated by CRLF", p)

/-- `FeedChunkTrailer` behind `TakeLine`. -/
def readChunkTrailer (p : ParserCore) (line : Bytes) (consumed : ℕ) : Step :=
  (.ok consumed, if line = [] then { p with state := .kComplete } else p)

def feedChunkTrailer (p : ParserCore) (data : Bytes) : Step :=
  match takeLine data with
  | none => (.ok 0, p)
  | some (line, consumed) => readChunkTrailer p line consumed

/-- The `switch` of `Feed`. -/
def feedState [Target] (p : ParserCore) (rest : Bytes) : Step :=
  match p.state with
  | .kStatusLine => p.feedStatusLine rest
  | .kHeaders => p.feedHeaders rest
  | .kBody => p.feedBody rest
  | .kChunkSize => p.feedChunkSize rest
  | .kChunkData => p.feedChunkData rest
  | .kChunkDataEnd => p.feedChunkDataEnd rest
  | .kChunkTrailer => p.feedChunkTrailer rest
  | .kComplete => (.ok 0, p)
  | .kError => (.ok 0, p)

/-- The state is `kComplete` or `kError`. -/
def halted (p : ParserCore) : Bool := p.state = .kComplete ∨ p.state = .kError

/-- The loop of `Feed`: what it leaves unread, or the error. Every pass but the last
consumes, so the length of the data bounds the passes. -/
def feedLoop [Target] : ℕ → ParserCore → Bytes → Result Bytes × ParserCore
  | 0, p, rest => (.ok rest, p)
  | n + 1, p, rest =>
      if rest = [] ∨ p.halted = true then (.ok rest, p)
      else
        match p.feedState rest with
        | (.error e, p') => (.error e, { p' with state := .kError })
        | (.ok 0, p') => (.ok rest, p')
        | (.ok (k + 1), p') => feedLoop n p' (rest.drop (k + 1))

/-- `IsComplete`. -/
def isComplete (p : ParserCore) : Bool := p.state == .kComplete

/-- `Finish`. -/
def finish (p : ParserCore) : ParserCore :=
  if p.state = .kBody ∧ p.hasContentLength = false ∧ p.chunked = false then
    { p with state := .kComplete }
  else p

/-- `GetHeader`. -/
def getHeader (p : ParserCore) (name : Bytes) : Bytes :=
  ((p.headers.find? fun h => h.1 == toLower (trim name)).map Prod.snd).getD []

end ParserCore

namespace HttpParser

/-- `Feed`. -/
def feed [Target] (p : HttpParser) (incoming : Bytes) : Result ℕ × HttpParser :=
  if p.halted then (.ok 0, p)
  else
    let data := p.buffer ++ incoming
    match p.toParserCore.feedLoop data.length data with
    | (.error e, c) => (.error e, ⟨c, []⟩)
    | (.ok rest, c) =>
        -- Bytes that came out of the bank do not count.
        (.ok (data.length - rest.length - p.buffer.length),
          ⟨c, if c.halted then [] else rest⟩)

/-- `Reset`, which leaves the callback in place. -/
def reset (p : HttpParser) : HttpParser := ⟨{ onBody := p.onBody }, []⟩

/-- Several calls of `Feed` in a row, with what each returned. -/
def feedAll [Target] (p : HttpParser) : List Bytes → List (Result ℕ) × HttpParser
  | [] => ([], p)
  | piece :: pieces =>
      let r := p.feed piece
      let rs := feedAll r.2 pieces
      (r.1 :: rs.1, rs.2)

end HttpParser

end Http

end EspModemLink
