import EspModemLink.Http.BodylessResponses
import EspModemLink.Http.RequestHead
import EspModemLink.WebSocket.UpgradeGate

/-!
# Client and server agree on the upgrade

A server reads the key off the request and answers with its digest. The client takes the answer,
whatever other fields it has, unless the caller put a key of their own in the place of the one that
was drawn.
-/

namespace EspModemLink.WebSocket

open Bytes Http AtParser MessageHead Cutting

/-! ## The request -/

def upgradeName : Bytes := ascii ['U', 'p', 'g', 'r', 'a', 'd', 'e']
def websocketValue : Bytes := ascii ['w', 'e', 'b', 's', 'o', 'c', 'k', 'e', 't']

/-- "Sec-WebSocket-Version". -/
def versionName : Bytes :=
  ascii ['S', 'e', 'c', '-', 'W', 'e', 'b', 'S', 'o', 'c', 'k', 'e', 't', '-', 'V', 'e', 'r', 's',
    'i', 'o', 'n']

/-- What `BuildHandshakeRequest` has of its own. -/
def handshakeMap (url : ParsedUrl) (key : Bytes) : FieldMap := fun n =>
  if n = toLower hostName then some (hostHeader url)
  else if n = toLower upgradeName then some websocketValue
  else if n = toLower connectionName then some upgradeName
  else if n = toLower keyName then some key
  else if n = toLower versionName then some (ascii ['1', '3'])
  else none

variable {url : ParsedUrl} {key : Bytes} {headers : Fields}

theorem valueOf_handshakeFields (n : Bytes) :
    valueOf n (handshakeFields url key) = handshakeMap url key n := by
  have hcons : ∀ (name value : Bytes) (fields : Fields), valueOf n ((name, value) :: fields) =
      if n = toLower name then some value else valueOf n fields := by
    intro name value fields
    rw [valueOf, Named.lookup_cons]
    simp only [eq_comm]
    rfl
  unfold handshakeFields
  rw [hcons, hcons, hcons, hcons, hcons]
  rfl

theorem setAll_headers (fields : Fields) :
    headers.foldl (fun fields h => setHeader h.1 h.2 fields) fields =
      Named.setAll toLower headers fields := by
  simp only [Named.setAll, setHeader_eq]

theorem nodup_handshakeFields : (fieldNames (handshakeFields url key)).Nodup := by
  have hnames : fieldNames (handshakeFields url key) =
      [toLower hostName, toLower upgradeName, toLower connectionName, toLower keyName,
        toLower versionName] := rfl
  rw [hnames]
  decide

/-- Whatever follows an upgrade request, its receiver reads the head as its map, if and only if
nothing in it ends a line or a name. -/
theorem buildHandshakeRequest_readsAs_iff (url : ParsedUrl) (key : Bytes) (headers : Fields) :
    ReadsAs (buildHandshakeRequest url key headers) (requestLineOf methodGet url.path)
        ((handshakeMap url key).overriddenBy headers) ↔
      Http.Unbroken (requestLineOf methodGet url.path)
        ((handshakeMap url key).overriddenBy headers) := by
  have hbuild : buildHandshakeRequest url key headers =
      marks.write ⟨requestLineOf methodGet url.path,
        Named.setAll toLower headers (handshakeFields url key)⟩ := by
    rw [write_eq, buildHandshakeRequest, setAll_headers]
    simp [requestLineOf]
  rw [hbuild]
  refine readsAs_iff (Named.nodup_setAll nodup_handshakeFields) fun n => ?_
  rw [valueOf, Named.lookup_setAll, FieldMap.overriddenBy, ← valueOf_handshakeFields]
  rfl

/-! ## The answer -/

/-- The last of the values under a name in lower case. -/
def lastValue (n : Bytes) (fields : List (Bytes × Bytes)) : Option Bytes :=
  (fields.reverse.find? fun f => f.1 = n).map Prod.snd

theorem find_mapOf (n : Bytes) (fields : List (Bytes × Bytes)) :
    ((mapOf fields).find? fun e => e.1 = n).map Prod.snd = lastValue n fields := by
  induction fields using List.reverseRecOn with
  | nil => rfl
  | append_singleton fields f ih =>
      rw [mapOf, List.foldl_append]
      change (((mapOf fields).set f.1 f.2).find? fun e => e.1 = n).map Prod.snd = _
      rw [HeaderMap.find_set, lastValue, List.reverse_append, List.reverse_singleton,
        List.singleton_append, List.find?_cons]
      by_cases hname : f.1 = n
      · rw [if_pos hname, decide_eq_true hname]
        rfl
      · rw [if_neg hname, decide_eq_false hname, ih]
        rfl

section

variable [Target]

/-- Every Content-Length of a head is an `int`. -/
def LengthsReadable (head : ResponseHead) : Prop :=
  ∀ f ∈ head.fields, saysLength f = true → (parseInt f.2).isSome = true

/-- A head is read for its status and, under each name, for its last value. -/
theorem parseHandshakeResponse_head {head : ResponseHead} (hlengths : LengthsReadable head)
    (hcode : head.code ≠ 0) :
    parseHandshakeResponse head.bytes =
      .ok ⟨head.code, (lastValue (toLower acceptName) head.fields).getD []⟩ := by
  obtain ⟨p', hbehind, q, r, hout, hend, hleads⟩ :=
    @leads_responseHead _ (fresh false).toParserCore [] head rfl
  obtain rfl : q = ((p'.withFields head.fields).endHeaders, []) :=
    hout.elim And.right fun h => absurd hlengths h.1
  have hdrain : (parserReader.drain ((fresh false).toParserCore, []) head.bytes).1 =
      ((p'.withFields head.fields).endHeaders, []) := by
    rw [hleads.drain]
    obtain hhalted | rfl := hend
    · rw [Reader.drain_of_halted hhalted]
    · rw [Reader.drain_nil]
  have hfeed : parserReader.feed (((fresh false).toParserCore, []), []) head.bytes = _ :=
    (feed_reader (fresh_settled false) head.bytes).1
  rw [Reader.feed, if_neg (by simp [parserReader, fresh, ParserCore.halted]), List.nil_append]
    at hfeed
  have hfst := congrArg Prod.fst hfeed
  rw [Reader.settle_fst, hdrain] at hfst
  obtain ⟨hparser, hreported⟩ := Prod.mk.inj hfst
  obtain ⟨-, hstatus, -, -, -, hheaders, -⟩ := withFields_spec p' head.fields
  have hend : ∀ p : ParserCore, p.endHeaders.statusCode = p.statusCode ∧
      p.endHeaders.headers = p.headers := by
    intro p
    unfold ParserCore.endHeaders
    split
    · exact ⟨rfl, rfl⟩
    · split <;> exact ⟨rfl, rfl⟩
  have hcoded : ((fresh false).feed head.bytes).2.statusCode = head.code := by
    rw [← hparser, (hend _).1, hstatus, hbehind.statusCode]
  have hkept : ((fresh false).feed head.bytes).2.headers = mapOf head.fields := by
    rw [← hparser, (hend _).2, hheaders, hbehind.headers]
    rfl
  unfold parseHandshakeResponse
  rw [show HttpParser.feed {} head.bytes = (fresh false).feed head.bytes from rfl]
  generalize (fresh false).feed head.bytes = out at hreported hcoded hkept
  obtain ⟨fed, parser⟩ := out
  have hname : trim acceptName = acceptName := by decide
  cases fed with
  | error e => cases hreported
  | ok n =>
      dsimp only at hcoded hkept ⊢
      rw [if_neg (by rw [hcoded]; exact hcode), hcoded, ParserCore.getHeader, hkept, hname,
        ← find_mapOf]
      simp only [beq_eq_decide]

/-- The head that a server answers a request with: 101, and the digest of the key that it read. What
else is in the head is up to the server. -/
structure AnswersRequest (request : Bytes) (head : ResponseHead) : Prop where
  code : head.code = 101
  lengths : LengthsReadable head
  digest : ∃ asked rest key, marks.read request = some (asked, rest) ∧
    valueOf (toLower keyName) asked.fields = some key ∧
    lastValue (toLower acceptName) head.fields = some (computeSecWebSocketAccept key)

/-! ## Agreement -/

omit [Target] in
/-- The key that a server reads off an upgrade request. -/
theorem key_of_read (hunbroken :
      Http.Unbroken (requestLineOf methodGet url.path) ((handshakeMap url key).overriddenBy headers))
    {asked : Head UInt8} {rest read : Bytes}
    (hread : marks.read (buildHandshakeRequest url key headers) = some (asked, rest))
    (hkey : valueOf (toLower keyName) asked.fields = some read) :
    read = trim ((valueOf (toLower keyName) headers.reverse).getD key) := by
  obtain ⟨fields, hfields, -, hvalues⟩ :=
    (buildHandshakeRequest_readsAs_iff url key headers).mpr hunbroken []
  rw [List.append_nil, hread] at hfields
  obtain ⟨rfl, rfl⟩ := Prod.mk.inj (Option.some.inj hfields)
  have hgenerated : handshakeMap url key (toLower keyName) = some key := by
    unfold handshakeMap
    rw [if_neg (by decide), if_neg (by decide), if_neg (by decide), if_pos rfl]
  rw [hvalues, FieldMap.overriddenBy, hgenerated] at hkey
  cases hcaller : valueOf (toLower keyName) headers.reverse with
  | none =>
      rw [hcaller] at hkey
      exact (Option.some.inj hkey).symm
  | some value =>
      rw [hcaller] at hkey
      exact (Option.some.inj hkey).symm

/-- The client takes what the server answers to its request exactly if the key in the request, which
the caller may have put there, has the digest of the key that was drawn. -/
theorem handshakeVerdict_eq_none_iff_key (hunbroken :
      Http.Unbroken (requestLineOf methodGet url.path) ((handshakeMap url key).overriddenBy headers))
    {head : ResponseHead} (hanswers : AnswersRequest (buildHandshakeRequest url key headers) head) :
    Conn.handshakeVerdict key head.bytes = none ↔
      computeSecWebSocketAccept (trim ((valueOf (toLower keyName) headers.reverse).getD key)) =
        computeSecWebSocketAccept key := by
  obtain ⟨asked, rest, read, hread, hkey, hdigest⟩ := hanswers.digest
  obtain rfl := key_of_read hunbroken hread hkey
  have hparsed := parseHandshakeResponse_head hanswers.lengths
    (show head.code ≠ 0 by rw [hanswers.code]; decide)
  rw [hdigest, Option.getD_some, hanswers.code] at hparsed
  rw [handshakeVerdict_eq_none, Accepted, hparsed]
  constructor
  · rintro ⟨response, hresponse, -, haccept⟩
    obtain rfl := Except.ok.inj hresponse
    exact haccept
  · intro h
    exact ⟨_, rfl, rfl, h⟩

omit [Target] in
/-- A key that is drawn has nothing in it that a line or a value could end at. -/
theorem key_plain (words : List UInt32) :
    ∀ c ∈ makeSecWebSocketKey words, isBlank c = false ∧ c ≠ lf := by
  have hsymbol : ∀ v < 64, isBlank (kBase64Alphabet.getD v 0) = false ∧
      kBase64Alphabet.getD v 0 ≠ lf := by decide
  have hsextet : ∀ group shift, isBlank (sextet group shift) = false ∧ sextet group shift ≠ lf :=
    fun group shift => hsymbol _ (Nat.mod_lt _ (by decide))
  have hpad : isBlank pad = false ∧ pad ≠ lf := by decide
  have hencode : ∀ data, ∀ c ∈ base64Encode data, isBlank c = false ∧ c ≠ lf := by
    intro data
    fun_induction base64Encode data with
    | case1 => exact fun c hc => absurd hc List.not_mem_nil
    | case2 a group =>
        simp only [List.forall_mem_cons]
        exact ⟨hsextet _ _, hsextet _ _, hpad, hpad, fun c hc => absurd hc List.not_mem_nil⟩
    | case3 a b group =>
        simp only [List.forall_mem_cons]
        exact ⟨hsextet _ _, hsextet _ _, hsextet _ _, hpad,
          fun c hc => absurd hc List.not_mem_nil⟩
    | case4 a b c rest group ih =>
        simp only [List.forall_mem_cons]
        exact ⟨hsextet _ _, hsextet _ _, hsextet _ _, hsextet _ _, ih⟩
  exact hencode _

omit [Target] in
theorem unbroken_handshakeMap (hhost : lf ∉ url.host) (hpath : lf ∉ url.path) (hkey : lf ∉ key) :
    Http.Unbroken (requestLineOf methodGet url.path) (handshakeMap url key) := by
  have hhostHeader : lf ∉ hostHeader url := mt (mem_hostHeader (by decide)).mp hhost
  refine (legible_iff_unbroken nodup_handshakeFields valueOf_handshakeFields).mp ⟨?_, ?_, ?_⟩
  · rw [show marks.lf = lf from rfl, lf_mem_requestLineOf, not_or]
    exact ⟨by decide, hpath⟩
  · unfold handshakeFields
    simp only [List.forall_mem_cons]
    exact ⟨by decide, by decide, by decide, by decide, by decide,
      fun f hf => absurd hf List.not_mem_nil⟩
  · unfold handshakeFields
    simp only [List.forall_mem_cons]
    exact ⟨hhostHeader, by decide, by decide, hkey, by decide,
      fun f hf => absurd hf List.not_mem_nil⟩

/-- Where the caller's fields end no line and none of them is a key, whatever else the server answers,
the client agrees. -/
theorem handshake_agrees (words : List UInt32) (hhost : lf ∉ url.host) (hpath : lf ∉ url.path)
    (hheaders : ∀ f ∈ headers, colon ∉ f.1 ∧ lf ∉ f.1 ∧ lf ∉ f.2)
    (hcaller : toLower keyName ∉ fieldNames headers) {head : ResponseHead}
    (hanswers : AnswersRequest (buildHandshakeRequest url (makeSecWebSocketKey words) headers) head) :
    Conn.handshakeVerdict (makeSecWebSocketKey words) head.bytes = none := by
  have hplain := key_plain words
  have hunbroken := (unbroken_handshakeMap hhost hpath fun h => (hplain lf h).2 rfl).overriddenBy
    hheaders
  have hnone : valueOf (toLower keyName) headers.reverse = none := by
    by_contra hsome
    obtain ⟨v, hv⟩ := Option.ne_none_iff_exists'.mp hsome
    obtain ⟨f, hf, hname, -⟩ := exists_of_valueOf hv
    exact hcaller (hname ▸ Named.name_mem_names (List.mem_reverse.mp hf))
  rw [handshakeVerdict_eq_none_iff_key hunbroken hanswers, hnone, Option.getD_none]
  exact congrArg computeSecWebSocketAccept (trimBy_eq_self fun c hc => (hplain c hc).1)

end

/-! ## An upgrade -/

/-- The answer to a request with the example key. -/
def exampleAnswer : ResponseHead where
  status := httpVersion ++ ascii [' ', '1', '0', '1', ' ', 'X']
  code := 101
  lines := [acceptName ++ [colon, space] ++ computeSecWebSocketAccept exampleKey]
  oneLine := by decide
  coded := by decide
  fieldLines := by
    refine List.forall_mem_singleton.mpr ⟨by decide, by decide +kernel, ?_⟩
    exact ⟨_, rfl, by decide +kernel⟩

/-- The root of a host that is one letter. -/
def exampleRoot : ParsedUrl := ⟨false, [104], 80, [slash]⟩

theorem exampleAnswer_answers :
    AnswersRequest (buildHandshakeRequest exampleRoot exampleKey []) exampleAnswer where
  code := rfl
  lengths := by
    have hnone : exampleAnswer.fields.any saysLength = false := by decide +kernel
    intro f hf hsays
    exact absurd hsays (by simpa using List.any_eq_false.mp hnone f hf)
  digest := by
    have hplain : lf ∉ exampleKey := fun h => (key_plain _ lf h).2 rfl
    have hunbroken := (unbroken_handshakeMap (show lf ∉ exampleRoot.host by decide)
      (show lf ∉ exampleRoot.path by decide) hplain).overriddenBy
        (fun f hf => absurd hf List.not_mem_nil)
    obtain ⟨fields, hread, -, hvalues⟩ :=
      (buildHandshakeRequest_readsAs_iff exampleRoot exampleKey []).mpr hunbroken []
    rw [List.append_nil] at hread
    refine ⟨_, _, exampleKey, hread, ?_, ?_⟩
    · rw [hvalues]
      decide +kernel
    · decide +kernel

/-- The client takes it. -/
theorem handshake_agrees_example :
    @Conn.handshakeVerdict esp32 exampleKey exampleAnswer.bytes = none := by
  refine @handshake_agrees exampleRoot [] esp32 [0, 0, 0, 0] (by decide) (by decide) ?_ (by decide) _
    exampleAnswer_answers
  exact fun f hf => absurd hf List.not_mem_nil

end EspModemLink.WebSocket
