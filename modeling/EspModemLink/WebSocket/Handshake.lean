import EspModemLink.Http.Request

/-!
# The WebSocket handshake

The request that asks for the upgrade, the head that answers it, and the digest
that a server proves with that it read the key.
-/

namespace EspModemLink.WebSocket

open Bytes Http

/-! ## Base64 and SHA-1 -/

/-- "258EAFA5-E914-47DA-95CA-C5AB0DC85B11". -/
def kWebSocketGuid : Bytes :=
  ascii ['2', '5', '8', 'E', 'A', 'F', 'A', '5', '-', 'E', '9', '1', '4', '-', '4', '7', 'D', 'A',
    '-', '9', '5', 'C', 'A', '-', 'C', '5', 'A', 'B', '0', 'D', 'C', '8', '5', 'B', '1', '1']

def kBase64Alphabet : Bytes :=
  ascii ['A', 'B', 'C', 'D', 'E', 'F', 'G', 'H', 'I', 'J', 'K', 'L', 'M', 'N', 'O', 'P', 'Q', 'R',
    'S', 'T', 'U', 'V', 'W', 'X', 'Y', 'Z', 'a', 'b', 'c', 'd', 'e', 'f', 'g', 'h', 'i', 'j', 'k',
    'l', 'm', 'n', 'o', 'p', 'q', 'r', 's', 't', 'u', 'v', 'w', 'x', 'y', 'z', '0', '1', '2', '3',
    '4', '5', '6', '7', '8', '9', '+', '/']

/-- `kBase64Alphabet[(group >> shift) & 0x3F]`. -/
def sextet (group shift : ℕ) : UInt8 := kBase64Alphabet.getD ((group >>> shift) % 64) 0

/-- The padding character. -/
def pad : UInt8 := 61

/-- `Base64Encode`. -/
def base64Encode : Bytes → Bytes
  | [] => []
  | [a] =>
      let group := a.toNat <<< 16
      [sextet group 18, sextet group 12, pad, pad]
  | [a, b] =>
      let group := (a.toNat <<< 16) + (b.toNat <<< 8)
      [sextet group 18, sextet group 12, sextet group 6, pad]
  | a :: b :: c :: rest =>
      let group := (a.toNat <<< 16) + (b.toNat <<< 8) + c.toNat
      sextet group 18 :: sextet group 12 :: sextet group 6 :: sextet group 0 :: base64Encode rest

/-- `RotateLeft`. -/
def rotateLeft (value bits : UInt32) : UInt32 := (value <<< bits) ||| (value >>> (32 - bits))

/-- A big-endian word. -/
def wordOf (a b c d : UInt8) : UInt32 :=
  (a.toUInt32 <<< 24) ||| (b.toUInt32 <<< 16) ||| (c.toUInt32 <<< 8) ||| d.toUInt32

/-- The sixteen words of a block. -/
def blockWords : Bytes → List UInt32
  | a :: b :: c :: d :: rest => wordOf a b c d :: blockWords rest
  | _ => []

/-- `words[16]` to `words[79]`: `n` more words on a schedule kept with the last one first. -/
def extendWords : ℕ → List UInt32 → List UInt32
  | 0, words => words
  | n + 1, words =>
      extendWords n (rotateLeft (words.getD 2 0 ^^^ words.getD 7 0 ^^^ words.getD 13 0 ^^^
        words.getD 15 0) 1 :: words)

/-- The five words of the digest. -/
structure Digest where
  a : UInt32
  b : UInt32
  c : UInt32
  d : UInt32
  e : UInt32
deriving DecidableEq, Repr

def Digest.initial : Digest := ⟨0x67452301, 0xEFCDAB89, 0x98BADCFE, 0x10325476, 0xC3D2E1F0⟩

/-- The function and the constant of round `i`. -/
def roundTerms (i : ℕ) (b c d : UInt32) : UInt32 × UInt32 :=
  if i < 20 then ((b &&& c) ||| (~~~b &&& d), 0x5A827999)
  else if i < 40 then (b ^^^ c ^^^ d, 0x6ED9EBA1)
  else if i < 60 then ((b &&& c) ||| (b &&& d) ||| (c &&& d), 0x8F1BBCDC)
  else (b ^^^ c ^^^ d, 0xCA62C1D6)

def Digest.round (s : Digest) (i : ℕ) (word : UInt32) : Digest :=
  let (f, k) := roundTerms i s.b s.c s.d
  ⟨rotateLeft s.a 5 + f + s.e + k + word, s.a, rotateLeft s.b 30, s.c, s.d⟩

/-- The rounds from `i` on. -/
def Digest.rounds (s : Digest) : ℕ → List UInt32 → Digest
  | _, [] => s
  | i, word :: words => (s.round i word).rounds (i + 1) words

/-- The digest after one more block. -/
def Digest.addBlock (s : Digest) (block : Bytes) : Digest :=
  let r := s.rounds 0 (extendWords 64 (blockWords block).reverse).reverse
  ⟨s.a + r.a, s.b + r.b, s.c + r.c, s.d + r.d, s.e + r.e⟩

/-- The bytes of a message of `n` bytes behind the message itself. -/
def padding (n : ℕ) : Bytes :=
  (0x80 : UInt8) :: List.replicate ((119 - n % 64) % 64) (0x00 : UInt8) ++
    [56, 48, 40, 32, 24, 16, 8, 0].map (byteAt (n * 8))

/-- The blocks of a message, first to last. -/
def addBlocks : ℕ → Digest → Bytes → Digest
  | 0, s, _ => s
  | n + 1, s, message => addBlocks n (s.addBlock (message.take 64)) (message.drop 64)

def Digest.bytes (s : Digest) : Bytes :=
  [s.a, s.b, s.c, s.d, s.e].flatMap fun word => [24, 16, 8, 0].map (byteAt word.toNat)

/-- `Sha1`. -/
def sha1 (data : Bytes) : Bytes :=
  let message := data ++ padding data.length
  (addBlocks (message.length / 64) .initial message).bytes

/-! ## Key and answer -/

/-- `ComputeSecWebSocketAccept`. -/
def computeSecWebSocketAccept (key : Bytes) : Bytes := base64Encode (sha1 (key ++ kWebSocketGuid))

/-- `MakeSecWebSocketKey` with the four words that are drawn. -/
def makeSecWebSocketKey (words : List UInt32) : Bytes :=
  base64Encode (words.flatMap fun word => [24, 16, 8, 0].map (byteAt word.toNat))

/-- `WsHandshakeResponse`. -/
structure WsHandshakeResponse where
  status : Int := 0
  accept : Bytes := []
deriving DecidableEq, Repr

/-- "Sec-WebSocket-Accept". -/
def acceptName : Bytes :=
  ascii ['S', 'e', 'c', '-', 'W', 'e', 'b', 'S', 'o', 'c', 'k', 'e', 't', '-', 'A', 'c', 'c', 'e',
    'p', 't']

/-- "Sec-WebSocket-Key". -/
def keyName : Bytes :=
  ascii ['S', 'e', 'c', '-', 'W', 'e', 'b', 'S', 'o', 'c', 'k', 'e', 't', '-', 'K', 'e', 'y']

/-- `ParseHandshakeResponse`. -/
def parseHandshakeResponse [Target] (head : Bytes) : Result WsHandshakeResponse :=
  let (fed, parser) := HttpParser.feed {} head
  match fed with
  | .error e => .error e
  | .ok _ =>
      if parser.statusCode = 0 then
        .error ⟨.kProtocolError, 0, "the response has no status line"⟩
      else .ok ⟨parser.statusCode, parser.getHeader acceptName⟩

/-- The fields of the upgrade request that are there before the caller's. -/
def handshakeFields (url : ParsedUrl) (key : Bytes) : Fields :=
  [(hostName, hostHeader url),
    (ascii ['U', 'p', 'g', 'r', 'a', 'd', 'e'],
      ascii ['w', 'e', 'b', 's', 'o', 'c', 'k', 'e', 't']),
    (connectionName, ascii ['U', 'p', 'g', 'r', 'a', 'd', 'e']),
    (keyName, key),
    (ascii ['S', 'e', 'c', '-', 'W', 'e', 'b', 'S', 'o', 'c', 'k', 'e', 't', '-', 'V', 'e', 'r',
      's', 'i', 'o', 'n'], ascii ['1', '3'])]

/-- `BuildHandshakeRequest`. A caller's field takes the place of a generated one. -/
def buildHandshakeRequest (url : ParsedUrl) (key : Bytes) (headers : Fields) : Bytes :=
  let target := if url.path = [] then [slash] else url.path
  let fields := headers.foldl (fun fields h => setHeader h.1 h.2 fields) (handshakeFields url key)
  methodGet ++ space :: target ++ space :: httpVersion ++ crlf ++ fields.flatMap fieldLine ++ crlf

end EspModemLink.WebSocket
