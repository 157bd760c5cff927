import EspModemLink.Http.ClientSteps

/-!
# What a transport is sent

A transport carries request heads with measured bodies and chunked bodies, and nothing behind
a send that failed. The client keeps to that as long as every head goes out whole and
no request begins on a transport whose chunked body the server cut short with an
early answer.
-/

namespace EspModemLink.Http

open Bytes AtParser World

/-! ## The framing -/

/-- A head that announces the length of the body behind it. -/
def MeasuredHead (bytes : Bytes) : Prop :=
  ∃ m : RequestMessage, bytes = m.bytes ∧
    (∀ f ∈ m.fields, toLower f.1 ≠ ParserCore.transferEncodingName) ∧
    ∃ f ∈ m.fields, toLower f.1 = ParserCore.contentLengthName ∧ f.2 = decimal m.body.length

/-- A head that declares a chunked body. -/
def ChunkedHead (bytes : Bytes) : Prop :=
  ∃ m : RequestMessage, bytes = m.bytes ∧ m.body = [] ∧
    (∀ f ∈ m.fields, toLower f.1 ≠ ParserCore.contentLengthName) ∧
    ∃ f ∈ m.fields, toLower f.1 = ParserCore.transferEncodingName ∧ f.2 = ParserCore.chunkedCoding

/-- The number that hex digits stand for. -/
def hexValue : ℕ → Bytes → Option ℕ
  | value, [] => some value
  | value, c :: s => (hexCharToNibble c).bind fun digit => hexValue (value * 16 + digit) s

/-- A non-empty chunk: its size in hex, its bytes, and the two line endings. -/
def IsChunk (bytes : Bytes) : Prop :=
  ∃ size data, bytes = size ++ crlf ++ data ++ crlf ∧ data ≠ [] ∧ size ≠ [] ∧
    hexValue 0 size = some data.length

/-- Where a transport stands between two sends. -/
inductive Framing where
  | idle | body | spoiled
deriving DecidableEq

/-- The pieces that may be sent. -/
inductive Piece : Framing → Bytes → Framing → Prop
  | measured {bytes : Bytes} (h : MeasuredHead bytes) : Piece .idle bytes .idle
  | chunked {bytes : Bytes} (h : ChunkedHead bytes) : Piece .idle bytes .body
  | chunk {bytes : Bytes} (h : IsChunk bytes) : Piece .body bytes .body
  | terminator : Piece .body kTerminator .idle

/-- A sequence of sends with their outcomes. Nothing follows one that was not taken whole. -/
inductive Framed : List (Bytes × Result ℕ) → Framing → Prop
  | nil : Framed [] .idle
  | whole {sends : List (Bytes × Result ℕ)} {st st' : Framing} {bytes : Bytes}
      (h : Framed sends st) (hp : Piece st bytes st') :
      Framed (sends ++ [(bytes, .ok bytes.length)]) st'
  | lost {sends : List (Bytes × Result ℕ)} {st st' : Framing} {bytes : Bytes} {outcome : Result ℕ}
      (h : Framed sends st) (hp : Piece st bytes st') (ho : outcome ≠ .ok bytes.length) :
      Framed (sends ++ [(bytes, outcome)]) .spoiled

/-- The last send of a framed sequence was a piece where it was sent. -/
theorem Framed.snoc {sends : List (Bytes × Result ℕ)} {x : Bytes × Result ℕ} {st : Framing}
    (h : Framed (sends ++ [x]) st) : ∃ st₁ st₂, Framed sends st₁ ∧ Piece st₁ x.1 st₂ ∧
      (x.2 = .ok x.1.length ∧ st = st₂ ∨ x.2 ≠ .ok x.1.length ∧ st = .spoiled) := by
  generalize hall : sends ++ [x] = all at h
  cases h with
  | nil => exact absurd hall (by simp)
  | @whole _ st₁ _ _ h hp =>
      obtain ⟨rfl, rfl⟩ := List.append_singleton_inj.mp hall
      exact ⟨st₁, st, h, hp, .inl ⟨rfl, rfl⟩⟩
  | @lost _ st₁ st₂ _ _ h hp ho =>
      obtain ⟨rfl, rfl⟩ := List.append_singleton_inj.mp hall
      exact ⟨st₁, st₂, h, hp, .inr ⟨ho, rfl⟩⟩

/-- Framing looks back only. -/
theorem Framed.of_append {s s' : List (Bytes × Result ℕ)} {st : Framing} (h : Framed (s ++ s') st) :
    ∃ st', Framed s st' := by
  induction s' using List.reverseRecOn generalizing st with
  | nil => exact ⟨st, by simpa using h⟩
  | append_singleton s' x ih =>
      rw [← List.append_assoc] at h
      obtain ⟨st₁, -, h₁, -, -⟩ := h.snoc
      exact ih h₁

/-- What the trace says was sent on a transport. -/
def sendsOn (t : ℕ) (trace : List Action) : List (Bytes × Result ℕ) :=
  trace.filterMap fun a => match a with
    | .sent t' _ _ bytes outcome => if t' = t then some (bytes, outcome) else none
    | _ => none

/-- Every transport was sent a framed sequence. -/
def WellFramed (trace : List Action) : Prop := ∀ t, ∃ st, Framed (sendsOn t trace) st

/-! ## Chunk sizes -/

theorem hexCharToNibble_hexDigit {d : ℕ} (h : d < 16) : hexCharToNibble (hexDigit d) = some d := by
  have hall : ∀ d < 16, hexCharToNibble (hexDigit d) = some d := by decide
  exact hall d h

theorem hexValue_append (value : ℕ) (s t : Bytes) :
    hexValue value (s ++ t) = (hexValue value s).bind fun v => hexValue v t := by
  induction s generalizing value with
  | nil => rfl
  | cons c s ih =>
      rw [List.cons_append, hexValue, hexValue, Option.bind_assoc]
      exact Option.bind_congr fun d _ => ih _

theorem hexValue_hexDigitsRev {fuel n : ℕ} (h : n < 16 ^ fuel) :
    hexValue 0 (hexDigitsRev fuel n).reverse = some n := by
  induction fuel generalizing n with
  | zero =>
      obtain rfl : n = 0 := by simpa using h
      rfl
  | succ fuel ih =>
      rw [hexDigitsRev]
      split
      · rename_i hn
        rw [hn]
        rfl
      · have hdiv : n / 16 < 16 ^ fuel := by
          rw [Nat.div_lt_iff_lt_mul (by omega), ← Nat.pow_succ]
          exact h
        rw [List.reverse_cons, hexValue_append, ih hdiv, Option.bind_some, hexValue,
          hexCharToNibble_hexDigit (Nat.mod_lt _ (by omega)), Option.bind_some, hexValue]
        exact congrArg some (by omega)

/-- `ToHexString` of a 64-bit number reads back as that number. -/
theorem hexValue_toHexString {n : ℕ} (h : n < 2 ^ 64) : hexValue 0 (toHexString n) = some n := by
  unfold toHexString
  split
  · rename_i hn
    rw [hn]
    decide
  · exact hexValue_hexDigitsRev (by omega)

theorem toHexString_ne_nil (n : ℕ) : toHexString n ≠ [] := by
  unfold toHexString
  split
  · simp
  · rename_i hn
    simp [hexDigitsRev, hn]

theorem chunkFrame_isChunk {data : Bytes} (hne : data ≠ []) (hlen : data.length < 2 ^ 31) :
    IsChunk (chunkFrame data) :=
  ⟨toHexString data.length, data, rfl, hne, toHexString_ne_nil _, hexValue_toHexString (by omega)⟩

/-! ## Heads -/

/-- The generated fields and the caller's do not measure or frame the body by themselves. -/
theorem measuredHead_buildHttpRequest {url : ParsedUrl} {options : HttpRequestOptions}
    (hc : options.chunkedUpload = false)
    (hfields : ∀ h ∈ options.headers, toLower h.1 ≠ ParserCore.transferEncodingName) :
    MeasuredHead (buildHttpRequest url options) := by
  have hrequest : (requestMessage url options).fields =
      setHeader contentLengthField (decimal options.body.length) (mergedFields url options) := by
    simp [requestMessage, requestFields, hc]
  refine ⟨requestMessage url options, rfl, fun f hf hname => ?_, ?_⟩
  · rw [hrequest] at hf
    rcases name_of_mem_setHeader hf with hk | ⟨g, hg, hgname⟩
    · exact absurd (hk.symm.trans hname) (by decide)
    · rcases name_of_mem_foldl_setHeader hg with ⟨k, hk, hkname⟩ | ⟨k, hk, hkname⟩
      · exact hfields k hk (hkname.trans (hgname.trans hname))
      · have hmem : k.1 ∈ [hostName, userAgentName, connectionName] := by
          simpa [generatedFields] using List.mem_map_of_mem (f := Prod.fst) hk
        have hnames : ∀ name ∈ [hostName, userAgentName, connectionName],
            toLower name ≠ ParserCore.transferEncodingName := by decide
        exact hnames _ hmem (hkname.trans (hgname.trans hname))
  · obtain ⟨f, hf, hname, hvalue⟩ := exists_mem_setHeader contentLengthField
      (decimal options.body.length) (mergedFields url options)
    exact ⟨f, hrequest ▸ hf, hname.trans (by decide), by simpa [requestMessage, hc] using hvalue⟩

theorem chunkedHead_buildHttpRequest {url : ParsedUrl} {options : HttpRequestOptions}
    (hc : options.chunkedUpload = true) : ChunkedHead (buildHttpRequest url options) := by
  have hrequest : (requestMessage url options).fields =
      setHeader transferEncodingField ParserCore.chunkedCoding
        (removeHeader contentLengthField (mergedFields url options)) := by
    simp [requestMessage, requestFields, hc]
  refine ⟨requestMessage url options, rfl, by simp [requestMessage, hc], fun f hf hname => ?_, ?_⟩
  · rw [hrequest] at hf
    rcases name_of_mem_setHeader hf with hk | ⟨g, hg, hgname⟩
    · exact absurd (hk.symm.trans hname) (by decide)
    · exact name_of_mem_removeHeader hg (hgname.trans (hname.trans (by decide)))
  · obtain ⟨f, hf, hname, hvalue⟩ := exists_mem_setHeader transferEncodingField
      ParserCore.chunkedCoding (removeHeader contentLengthField (mergedFields url options))
    exact ⟨f, hrequest ▸ hf, hname.trans (by decide), hvalue⟩

/-! ## The trace -/

theorem sendsOn_append (t : ℕ) (s s' : List Action) :
    sendsOn t (s ++ s') = sendsOn t s ++ sendsOn t s' := by
  simp [sendsOn]

theorem sendsOn_inbound {t : ℕ} {more : List Action} (h : ∀ a ∈ more, a.inbound = true) :
    sendsOn t more = [] := by
  refine List.filterMap_eq_nil_iff.mpr fun a ha => ?_
  have hin := h a ha
  cases a <;> first | rfl | cases hin

/-- A head that was accepted was accepted whole. -/
def headWhole : Action → Bool
  | .sent _ _ .head bytes (.ok n) => n == bytes.length
  | _ => true

/-- A request begins on a transport behind an early answer. -/
def reopens : Action → Action → Bool
  | .answeredEarly t _, .began t' _ _ => t == t'
  | _, _ => false

/-- Every head that was accepted was accepted whole, and no request began on a transport behind
an early answer. -/
structure UploadCareful (trace : List Action) : Prop where
  whole : ∀ a ∈ trace, headWhole a = true
  closed : trace.Pairwise fun a b => reopens a b = false

theorem UploadCareful.of_append {s s' : List Action} (h : UploadCareful (s ++ s')) :
    UploadCareful s :=
  ⟨fun a ha => h.whole a (List.mem_append_left _ ha), (List.pairwise_append.mp h.closed).1⟩

/-! ## The invariant -/

/-- What holds between two steps of a careful run. -/
structure Uploading (c : Conn) : Prop where
  fresh : ∀ t, c.transports ≤ t → sendsOn t c.trace = []
  known : ∀ t, c.client.transport = some t → t < c.transports
  fields : ∀ h ∈ c.client.headers, toLower h.1 ≠ ParserCore.transferEncodingName
  framed : WellFramed c.trace
  current : ∀ t, c.client.transport = some t → ∃ st, Framed (sendsOn t c.trace) st ∧
    st ≠ .spoiled ∧ (c.client.uploadActive = true → st = .body) ∧
    (st = .body → c.client.uploadActive = true ∨ ∃ k, .answeredEarly t k ∈ c.trace)

/-- `Uploading` only reads the members of the driver thread and what was sent. -/
theorem Uploading.congr {c c' : Conn} (h : Uploading c) (hd : c.SameDriver c')
    {more : List Action} (htrace : c'.trace = c.trace ++ more)
    (hmore : ∀ t, sendsOn t more = []) : Uploading c' := by
  have hsends : ∀ t, sendsOn t c'.trace = sendsOn t c.trace := fun t => by
    rw [htrace, sendsOn_append, hmore, List.append_nil]
  refine ⟨fun t ht => hsends t ▸ h.fresh t (hd.transports ▸ ht),
    fun t ht => hd.transports ▸ h.known t (hd.transport ▸ ht), hd.headers ▸ h.fields,
    fun t => (h.framed t).imp fun st hst => hsends t ▸ hst, fun t ht => ?_⟩
  obtain ⟨st, hst, hne, hactive, hbody⟩ := h.current t (hd.transport ▸ ht)
  refine ⟨st, hsends t ▸ hst, hne, hd.uploadActive ▸ hactive, fun hb => ?_⟩
  refine (hbody hb).imp (fun ha => hd.uploadActive ▸ ha) fun ⟨k, hk⟩ => ⟨k, ?_⟩
  rw [htrace]
  exact List.mem_append_left _ hk

theorem Uploading.handleAll [Target] {c : Conn} (h : Uploading c) (es : List Event) :
    Uploading (c.handleAll es) := by
  obtain ⟨more, htrace, hin⟩ := c.handleAll_trace es
  exact h.congr (c.handleAll_sameDriver es) htrace fun t => sendsOn_inbound hin

/-- Without a transport nothing is asked of the one that was lost but that it was framed. -/
theorem Uploading.drop {c c' : Conn} (h : Uploading c) {more : List Action}
    (ht : c'.client.transport = none) (hh : c'.client.headers = c.client.headers)
    (hn : c'.transports = c.transports) (htrace : c'.trace = c.trace ++ more)
    (hfresh : ∀ t, c.transports ≤ t → sendsOn t more = [])
    (hframed : WellFramed (c.trace ++ more)) : Uploading c' := by
  refine ⟨fun t hle => ?_, fun t h' => absurd (ht.symm.trans h') (by simp), hh ▸ h.fields,
    htrace ▸ hframed, fun t h' => absurd (ht.symm.trans h') (by simp)⟩
  rw [htrace, sendsOn_append, h.fresh t (hn ▸ hle), hfresh t (hn ▸ hle), List.append_nil]

/-- One more send on a transport, and nothing else sent. -/
def SentOn (t : ℕ) (bytes : Bytes) (outcome : Result ℕ) (more : List Action) : Prop :=
  ∀ t', sendsOn t' more = if t' = t then [(bytes, outcome)] else []

theorem sentOn_of_inbound {t k : ℕ} {part : Part} {bytes : Bytes} {outcome : Result ℕ}
    {m m' : List Action} (h : ∀ t', sendsOn t' m = []) (h' : ∀ t', sendsOn t' m' = []) :
    SentOn t bytes outcome (m ++ .sent t k part bytes outcome :: m') := by
  intro t'
  have hone : sendsOn t' [.sent t k part bytes outcome] =
      if t' = t then [(bytes, outcome)] else [] := by
    by_cases ht : t' = t
    · simp [sendsOn, ht]
    · simp [sendsOn, ht, Ne.symm ht]
  rw [sendsOn_append, h, ← List.singleton_append, sendsOn_append, h', hone, List.nil_append,
    List.append_nil]

theorem sentOn_single (t k : ℕ) (part : Part) (bytes : Bytes) (outcome : Result ℕ) :
    SentOn t bytes outcome [.sent t k part bytes outcome] :=
  show SentOn t bytes outcome ([] ++ .sent t k part bytes outcome :: []) from
    sentOn_of_inbound (fun _ => rfl) fun _ => rfl

theorem wellFramed_append {trace more : List Action} {t : ℕ} {st st' : Framing} {bytes : Bytes}
    {outcome : Result ℕ} (h : WellFramed trace) (hst : Framed (sendsOn t trace) st)
    (hp : Piece st bytes st') (hmore : SentOn t bytes outcome more) :
    WellFramed (trace ++ more) := by
  intro t'
  rw [sendsOn_append, hmore]
  split
  · rename_i ht
    subst ht
    by_cases ho : outcome = .ok bytes.length
    · exact ⟨st', ho ▸ .whole hst hp⟩
    · exact ⟨.spoiled, .lost hst hp ho⟩
  · rw [List.append_nil]
    exact h t'

theorem Piece.ne_spoiled {st st' : Framing} {bytes : Bytes} (h : Piece st bytes st') :
    st' ≠ .spoiled := by
  cases h <;> simp

/-- A piece that was taken whole. -/
theorem Uploading.whole {c c' : Conn} (h : Uploading c) {t : ℕ} {st st' : Framing} {bytes : Bytes}
    {more : List Action} (ht : c.client.transport = some t)
    (ht' : c'.client.transport = some t) (hh : c'.client.headers = c.client.headers)
    (hn : c'.transports = c.transports) (hst : Framed (sendsOn t c.trace) st)
    (hp : Piece st bytes st') (htrace : c'.trace = c.trace ++ more)
    (hmore : SentOn t bytes (.ok bytes.length) more)
    (hactive : c'.client.uploadActive = true ↔ st' = .body) : Uploading c' := by
  refine ⟨fun t' hle => ?_, fun t' h' => ?_, hh ▸ h.fields,
    htrace ▸ wellFramed_append h.framed hst hp hmore, fun t' h' => ?_⟩
  · have hlt := h.known t ht
    rw [htrace, sendsOn_append, h.fresh t' (hn ▸ hle), hmore, if_neg (by omega), List.append_nil]
  · rw [hn]
    exact h.known t' (by rw [ht, ← ht', h'])
  · obtain rfl : t = t' := Option.some.inj (ht'.symm.trans h')
    refine ⟨st', ?_, hp.ne_spoiled, hactive.mp, fun hb => .inl (hactive.mpr hb)⟩
    rw [htrace, sendsOn_append, hmore, if_pos rfl]
    exact .whole hst hp

/-- A piece that was not taken whole, and the transport dropped behind it. -/
theorem Uploading.lost {c c' : Conn} (h : Uploading c) {t : ℕ} {st st' : Framing} {bytes : Bytes}
    {outcome : Result ℕ} {more : List Action} (ht : c.client.transport = some t)
    (ht' : c'.client.transport = none) (hh : c'.client.headers = c.client.headers)
    (hn : c'.transports = c.transports) (hst : Framed (sendsOn t c.trace) st)
    (hp : Piece st bytes st') (htrace : c'.trace = c.trace ++ more)
    (hmore : SentOn t bytes outcome more) : Uploading c' := by
  refine h.drop ht' hh hn htrace (fun t' hle => ?_) (wellFramed_append h.framed hst hp hmore)
  have hlt := h.known t ht
  rw [hmore, if_neg (by omega)]

/-- Before a request begins, the transport is not in the middle of a body. -/
theorem Uploading.idle {c : Conn} (h : Uploading c) {t : ℕ} (ht : c.client.transport = some t)
    (hup : c.client.uploadActive = false) (hearly : ∀ k, Action.answeredEarly t k ∉ c.trace) :
    Framed (sendsOn t c.trace) .idle := by
  obtain ⟨st, hst, hne, -, hbody⟩ := h.current t ht
  cases st with
  | idle => exact hst
  | spoiled => exact absurd rfl hne
  | body =>
      rcases hbody rfl with ha | ⟨k, hk⟩
      · exact absurd (hup.symm.trans ha) (by simp)
      · exact absurd hk (hearly k)

/-- While an upload is open, the transport is in the middle of its body. -/
theorem Uploading.body {c : Conn} (h : Uploading c) {t : ℕ} (ht : c.client.transport = some t)
    (hup : c.client.uploadActive = true) : Framed (sendsOn t c.trace) .body := by
  obtain ⟨st, hst, -, hactive, -⟩ := h.current t ht
  exact hactive hup ▸ hst

section

variable [Target]

omit [Target] in
theorem BodyPiece.piece {part : Part} {bytes : Bytes} (h : Conn.BodyPiece part bytes) :
    ∃ st, Piece .body bytes st := by
  cases h with
  | chunk data hne hlen => exact ⟨_, .chunk (chunkFrame_isChunk hne hlen)⟩
  | terminator => exact ⟨_, .terminator⟩

/-- What `StartRequest` sends. -/
theorem started_sentOn (c : Conn) (t : ℕ) (es : List Event) (bytes : Bytes) (outcome : Result ℕ)
    (es' : List Event) :
    ∃ more, (c.started t es bytes outcome es').trace = c.trace ++ more ∧
      SentOn t bytes outcome more ∧
      .sent t (c.request + 1) .head bytes outcome ∈ more ∧
      .began t (c.request + 1) c.client.parser.isComplete ∈ more := by
  obtain ⟨m, m', htrace, hin, hin'⟩ := c.started_trace t es bytes outcome es'
  refine ⟨_, htrace, ?_, by simp, by simp⟩
  refine sentOn_of_inbound (fun t' => ?_) fun t' => sendsOn_inbound hin'
  rw [← List.singleton_append, sendsOn_append, sendsOn_inbound hin]
  rfl

omit [Target] in
/-- The head of a request that begins on an idle transport. -/
theorem head_piece {c : Conn} {bytes : Bytes} (h : Uploading c) {b : Bool}
    (hb : c.RenderedHead b bytes) :
    Piece .idle bytes (if b then .body else .idle) := by
  obtain ⟨url, options, rfl, hc, hfields⟩ := hb.rendered
  cases b with
  | true => exact .chunked (chunkedHead_buildHttpRequest hc)
  | false => exact .measured (measuredHead_buildHttpRequest hc fun f hf => h.fields f (hfields f hf))

omit [Target] in
/-- Where the trace goes on with a new request, no early answer precedes it. -/
theorem UploadCareful.notMem {trace more : List Action} {t k : ℕ} {complete : Bool}
    (h : UploadCareful (trace ++ more)) (hbegan : .began t k complete ∈ more) (k' : ℕ) :
    Action.answeredEarly t k' ∉ trace := fun hm => by
  have hclash := (List.pairwise_append.mp h.closed).2.2 _ hm _ hbegan
  simp [reopens] at hclash

omit [Target] in
/-- Dropping the transport sends nothing. -/
theorem dropTransport_sends (c : Conn) :
    ∃ m, c.dropTransport.trace = c.trace ++ m ∧ ∀ t, sendsOn t m = [] := by
  obtain ⟨m, hm, hall⟩ := c.dropTransport_trace
  refine ⟨m, hm, fun t => List.filterMap_eq_nil_iff.mpr fun a ha => ?_⟩
  obtain ⟨t', rfl⟩ := hall a ha
  rfl

omit [Target] in
theorem SentOn.append {t : ℕ} {bytes : Bytes} {outcome : Result ℕ} {more m : List Action}
    (h : SentOn t bytes outcome more) (hm : ∀ t', sendsOn t' m = []) :
    SentOn t bytes outcome (more ++ m) := fun t' => by
  rw [sendsOn_append, hm, List.append_nil, h]

omit [Target] in
theorem Uploading.dropped {c : Conn} (h : Uploading c) : Uploading c.dropTransport := by
  obtain ⟨m, hm, hnone⟩ := dropTransport_sends c
  refine h.drop rfl rfl c.dropTransport_transports hm (fun t _ => hnone t) fun t => ?_
  rw [sendsOn_append, hnone, List.append_nil]
  exact h.framed t

omit [Target] in
theorem Uploading.attach {c : Conn} (h : Uploading c)
    (hup : c.client.uploadActive = false) (tls : Bool) (config : TlsConfig) :
    Uploading (c.attach tls config) := by
  have hsends : ∀ t, sendsOn t (c.attach tls config).trace = sendsOn t c.trace := fun t => by
    rw [Conn.attach, Conn.log_trace, sendsOn_append]
    exact List.append_nil _
  refine ⟨fun t hle => ?_, fun t ht' => ?_, h.fields, fun t => hsends t ▸ h.framed t,
    fun t ht' => ?_⟩
  · rw [hsends]
    exact h.fresh t (Nat.le_of_succ_le hle)
  · obtain rfl := Option.some.inj ht'
    exact Nat.lt_succ_self _
  · obtain rfl := Option.some.inj ht'
    rw [hsends, h.fresh _ (Nat.le_refl _)]
    exact ⟨.idle, .nil, by simp, fun ha => absurd (hup.symm.trans ha) (by simp), by simp⟩

omit [Target] in
theorem Uploading.answered {c : Conn} (h : Uploading c) (hup : c.client.uploadActive = true) :
    Uploading c.answerEarly := by
  unfold Conn.answerEarly
  split
  · rename_i ht
    exact h.drop ht rfl rfl (List.append_nil _).symm (fun _ _ => rfl)
      (by rw [List.append_nil]; exact h.framed)
  · rename_i t ht
    have hsends : ∀ t', sendsOn t' (c.trace ++ [Action.answeredEarly t c.request]) =
        sendsOn t' c.trace := fun t' => by
      rw [sendsOn_append]
      exact List.append_nil _
    refine ⟨fun t' hle => (hsends t').trans (h.fresh t' hle), h.known, h.fields,
      fun t' => (h.framed t').imp fun st hst => (hsends t').symm ▸ hst, fun t' ht' => ?_⟩
    obtain rfl := Option.some.inj (ht.symm.trans ht')
    exact ⟨.body, (hsends t).symm ▸ h.body ht hup, by simp, fun ha => absurd ha (by simp),
      fun _ => .inr ⟨c.request, by simp⟩⟩

omit [Target] in
/-- Configuring brings in no field but the caller's. -/
theorem Uploading.configure {c : Conn} (h : Uploading c) {call : Call}
    (hok : ∀ key value, call = .setHeader key value →
      toLower key ≠ ParserCore.transferEncodingName) :
    Uploading { c with client := configure call c.client } := by
  cases call with
  | setHeader key value =>
      refine ⟨h.fresh, h.known, fun f hf => ?_, h.framed, h.current⟩
      rcases List.mem_append.mp hf with hf | hf
      · exact h.fields f hf
      · obtain rfl := List.mem_singleton.mp hf
        exact hok key value rfl
  | _ => exact ⟨h.fresh, h.known, h.fields, h.framed, h.current⟩

/-- Every atomic step of a careful run keeps the invariant. -/
theorem Uploading.step {c c' : Conn} (hstep : c.Atomic c') (hgood : UploadCareful c'.trace)
    (h : Uploading c) : Uploading c' := by
  cases hstep with
  | event e => exact h.handleAll [e]
  | quiet hs => exact h.congr hs.toSameDriver (hs.trace.trans (List.append_nil _).symm) fun _ => rfl
  | drop => exact h.dropped
  | attach tls config ht hup => exact h.attach hup tls config
  | connected t url => exact h.congr ⟨rfl, rfl, rfl, rfl, rfl⟩ rfl fun _ => rfl
  | @plain t n bytes es es' ht hup hb =>
      obtain ⟨more, htrace, hmore, hsent, hbegan⟩ := started_sentOn c t es bytes (.ok n) es'
      have hdriver := c.started_driver t es bytes (.ok n) es'
      rw [htrace] at hgood
      obtain rfl : n = bytes.length := by
        simpa [headWhole] using hgood.whole _ (List.mem_append_right _ hsent)
      exact h.whole ht (hdriver.transport.trans ht) hdriver.headers hdriver.transports
        (h.idle ht hup (hgood.notMem hbegan)) (head_piece h hb) htrace hmore
        (by rw [hdriver.uploadActive]; simp [Conn.beginRequest])
  | @chunked t n bytes es es' ht hup hb =>
      obtain ⟨more, htrace, hmore, hsent, hbegan⟩ := started_sentOn c t es bytes (.ok n) es'
      have hdriver := c.started_driver t es bytes (.ok n) es'
      rw [show (c.started t es bytes (.ok n) es').armUpload.trace = _ from htrace] at hgood
      obtain rfl : n = bytes.length := by
        simpa [headWhole] using hgood.whole _ (List.mem_append_right _ hsent)
      exact h.whole ht (hdriver.transport.trans ht) hdriver.headers hdriver.transports
        (h.idle ht hup (hgood.notMem hbegan)) (head_piece h hb) htrace hmore
        (by simp [Conn.armUpload])
  | @headLost t bytes e b es es' ht hup hb =>
      obtain ⟨more, htrace, hmore, hsent, hbegan⟩ := started_sentOn c t es bytes (.error e) es'
      obtain ⟨m, hm, hnone⟩ := dropTransport_sends (c.started t es bytes (.error e) es')
      have hdriver := c.started_driver t es bytes (.error e) es'
      rw [htrace, List.append_assoc] at hm
      rw [hm] at hgood
      exact h.lost ht rfl hdriver.headers ((Conn.dropTransport_transports _).trans hdriver.transports)
        (h.idle ht hup (hgood.notMem (List.mem_append_left _ hbegan))) (head_piece h hb) hm
        (hmore.append hnone)
  | @chunk t data ht hup hne hlen =>
      exact h.whole ht ht rfl rfl (h.body ht hup) (.chunk (chunkFrame_isChunk hne hlen)) rfl
        (sentOn_single _ _ _ _ _) (by simpa using hup)
  | @terminator t ht hup =>
      exact h.whole ht ht rfl rfl (h.body ht hup) .terminator rfl
        (sentOn_single _ _ _ _ _)
        (by simp [Conn.endUpload])
  | @pieceLost t part bytes outcome active es ht hup hb hlost =>
      obtain ⟨st, hp⟩ := BodyPiece.piece hb
      have hsame : (if active then c else c.endUpload).trace = c.trace := by cases active <;> rfl
      have hheaders : (if active then c else c.endUpload).client.headers = c.client.headers := by
        cases active <;> rfl
      have htransports : (if active then c else c.endUpload).transports = c.transports := by
        cases active <;> rfl
      generalize (if active then c else c.endUpload) = c₁ at hgood hsame hheaders htransports ⊢
      have hdriver := (c₁.log (.sent t c.request part bytes outcome)).handleAll_sameDriver es
      obtain ⟨m, hm, hin⟩ := (c₁.log (.sent t c.request part bytes outcome)).handleAll_trace es
      obtain ⟨m', hm', hnone⟩ := dropTransport_sends
        ((c₁.log (.sent t c.request part bytes outcome)).handleAll es)
      rw [hm, Conn.log_trace, hsame, List.append_assoc, List.append_assoc] at hm'
      exact h.lost ht rfl (hdriver.headers.trans hheaders)
        ((Conn.dropTransport_transports _).trans (hdriver.transports.trans htransports))
        (h.body ht hup) hp hm'
        (sentOn_of_inbound (m := []) (fun _ => rfl) fun t' => by
          change sendsOn t' (m ++ m') = []
          rw [sendsOn_append, sendsOn_inbound hin, hnone, List.append_nil])
  | answered hup => exact h.answered hup
  | lost ht =>
      exact h.drop ht rfl rfl (List.append_nil _).symm (fun _ _ => rfl)
        (by rw [List.append_nil]; exact h.framed)

end

/-! ## Runs that are careful and runs that are not -/

/-- "http://h/". -/
def exampleUrl : Bytes := ascii ['h', 't', 't', 'p', ':', '/', '/', 'h', '/']

def methodPost : Bytes := ascii ['P', 'O', 'S', 'T']

/-- An environment whose sends accept so many bytes each, with the events of some points. -/
def scripted (accepted : List ℕ) (events : List (ℕ × Event)) : Env where
  create _ := .ok ()
  connect _ := .ok ()
  send n := .ok (accepted.getD n 0)
  events n := (events.filter fun e => e.1 == n).map Prod.snd

/-- The head of a chunked upload to it. -/
def exampleHead (keepAlive : Bool) : Bytes :=
  buildHttpRequest ⟨false, [104], 80, [slash]⟩
    { method := methodPost, keepAlive := keepAlive, chunkedUpload := true }

/-- An upload of one chunk, ended and closed. -/
def uploadCalls : List Call :=
  [.setChunkedUpload true, .open methodPost exampleUrl, .write (.bytes [65]), .endBody, .close]

/-- Nothing follows a send that was not taken whole. -/
theorem not_framed_behind_lost {x y : Bytes × Result ℕ} {st : Framing}
    (hlost : x.2 ≠ .ok x.1.length) : ¬Framed [x, y] st := by
  intro h
  obtain ⟨st₁, st₂, h₁, hp, -⟩ := Framed.snoc (show Framed ([x] ++ [y]) st from h)
  obtain ⟨-, -, -, -, ⟨hwhole, -⟩ | ⟨-, rfl⟩⟩ := Framed.snoc (show Framed ([] ++ [x]) st₁ from h₁)
  · exact hlost hwhole
  · cases hp

/-- An upload that the server answers before its first chunk, and a second one behind it on the
kept connection. -/
def reopenCalls : List Call :=
  [.setKeepAlive true, .setChunkedUpload true, .open methodPost exampleUrl, .write (.bytes [65]),
    .open methodPost exampleUrl]

/-- "HTTP/1.1 413 X", CRLF. -/
def earlyAnswer : Bytes :=
  ascii ['H', 'T', 'T', 'P', '/', '1', '.', '1', ' ', '4', '1', '3', ' ', 'X', '\r', '\n']

/-- `Write` refuses because of the answer, and the next head goes into the open body. -/
theorem earlyAnswer_reopens : ChunkedHead (exampleHead true) ∧
    sendsOn 0 (@run esp32 (scripted [112, 112] [(6, .data 1 earlyAnswer)]) reopenCalls).trace =
      [(exampleHead true, .ok (exampleHead true).length),
        (exampleHead true, .ok (exampleHead true).length)] :=
  ⟨chunkedHead_buildHttpRequest rfl, rfl⟩

end EspModemLink.Http
