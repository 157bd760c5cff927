import EspModemLink.Http.BodylessResponses
import EspModemLink.Http.RunHops

/-!
# The response that the server sent

A server sends a head and a body in the framing that the head announces: chunks, a number of bytes, or
everything up to its close. However the bytes are cut, `Execute` returns that response.
-/

namespace EspModemLink.Http

open Bytes AtParser Cutting

/-! ## Replies -/

/-- A size line that says a number, with any digits and any extensions. -/
structure SaysSize (line : Bytes) (n : ℕ) : Prop where
  oneLine : lf ∉ line
  nonempty : sizeField line ≠ []
  hex : (hexValues (sizeField line)).isSome = true
  said : sizeSaid line = n

/-- A chunk as a server sends it. -/
structure SentChunk [Target] where
  size : Bytes
  data : Bytes
  sized : SaysSize size data.length
  nonempty : data ≠ []
  fits : data.length < 2 ^ Target.sizeBits

/-- The lines behind the chunks: one that says zero, and the trailer. -/
structure ChunkEnd where
  last : Bytes
  trailer : List Bytes
  sized : SaysSize last 0
  nonblank : ∀ l ∈ trailer, l ≠ []
  oneLine : ∀ l ∈ trailer, lf ∉ l

/-- A body as a server sends it. -/
inductive ReplyBody [Target] where
  | chunked (chunks : List SentChunk) (last : ChunkEnd)
  | measured (bytes : Bytes)
  | untilClose (bytes : Bytes)

variable [Target]

def SentChunk.bytes (c : SentChunk) : Bytes := c.size ++ crlf ++ c.data ++ crlf

omit [Target] in
def ChunkEnd.bytes (e : ChunkEnd) : Bytes := e.last ++ crlf ++ headOf e.trailer

namespace ReplyBody

/-- The bytes on the wire. -/
def bytes : ReplyBody → Bytes
  | .chunked chunks last => chunks.flatMap SentChunk.bytes ++ last.bytes
  | .measured bytes => bytes
  | .untilClose bytes => bytes

/-- The bytes that they stand for. -/
def content : ReplyBody → Bytes
  | .chunked chunks _ => chunks.flatMap SentChunk.data
  | .measured bytes => bytes
  | .untilClose bytes => bytes

/-- The head announces the framing. Where it says a length more than once, the last one counts. -/
def AnnouncedBy (head : ResponseHead) : ReplyBody → Prop
  | .chunked _ _ => ∃ f ∈ head.fields, saysChunked f = true
  | .measured bytes => (∀ f ∈ head.fields, saysChunked f = false) ∧
      head.lengths.getLast?.bind parseInt = some (bytes.length : Int)
  | .untilClose _ => (∀ f ∈ head.fields, saysChunked f = false) ∧ head.lengths = []

/-- The end of the body can be told from its bytes. -/
def endsItself : ReplyBody → Bool
  | .chunked _ _ | .measured _ => true
  | .untilClose _ => false

end ReplyBody

/-- A response as a server sends it. -/
structure Reply where
  head : ResponseHead
  body : ReplyBody
  readable : ∀ v ∈ head.lengths, (parseInt v).isSome = true
  announced : body.AnnouncedBy head

namespace Reply

variable (reply : Reply)

def bytes : Bytes := reply.head.bytes ++ reply.body.bytes

/-- The response that it is. -/
def response : HttpResponse where
  statusCode := reply.head.code
  headers := mapOf reply.head.fields
  body := reply.body.content

end Reply

/-! ## The parts of a body -/

/-- What reading a part of a body leaves: the head as it was, and its bytes emitted. -/
structure Emits (p : ParserCore) (d : Bytes) (q : ParserCore) : Prop where
  statusCode : q.statusCode = p.statusCode
  headers : q.headers = p.headers
  onBody : q.onBody = p.onBody
  emitted : q.emitted = p.emitted ++ d

omit [Target] in
theorem Emits.refl (p : ParserCore) : Emits p [] p :=
  ⟨rfl, rfl, rfl, (List.append_nil _).symm⟩

omit [Target] in
theorem Emits.trans {p q r : ParserCore} {d d' : Bytes} (h : Emits p d q) (h' : Emits q d' r) :
    Emits p (d ++ d') r :=
  ⟨h'.statusCode.trans h.statusCode, h'.headers.trans h.headers, h'.onBody.trans h.onBody,
    by rw [h'.emitted, h.emitted, List.append_assoc]⟩

omit [Target] in
theorem emits_emitBody (p : ParserCore) (d : Bytes) : Emits p d (p.emitBody d) := by
  refine ⟨?_, emitBody_headers p d, p.emitBody_onBody d, p.emitBody_emitted d⟩
  cases hb : p.onBody <;> simp [ParserCore.emitBody, hb]

omit [Target] in
theorem emits_countBody (p : ParserCore) (d : Bytes) : Emits p d (p.countBody d) :=
  have h := emits_emitBody p d
  ⟨h.statusCode, h.headers, h.onBody, h.emitted⟩

omit [Target] in
theorem emits_countChunk (p : ParserCore) (d : Bytes) : Emits p d (p.countChunk d) :=
  have h := emits_emitBody p d
  ⟨h.statusCode, h.headers, h.onBody, h.emitted⟩

omit [Target] in
theorem emits_endHeaders (p : ParserCore) : Emits p [] p.endHeaders := by
  unfold ParserCore.endHeaders
  split
  · exact ⟨rfl, rfl, rfl, (List.append_nil _).symm⟩
  · split <;> exact ⟨rfl, rfl, rfl, (List.append_nil _).symm⟩

theorem sizeRead_of_says {line : Bytes} {n : ℕ} (h : SaysSize line n)
    (hfits : n < 2 ^ Target.sizeBits) : sizeRead line = some n := by
  obtain ⟨ds, hds⟩ := Option.isSome_iff_exists.mp h.hex
  have hsaid := h.said
  rw [sizeSaid, hds, Option.getD_some] at hsaid
  rw [sizeRead, if_neg h.nonempty, chunkSizeValue_eq, hds, Option.map_some,
    Numerals.foldl_mod_eq_value, hsaid, Nat.mod_eq_of_lt hfits]

section

variable {p : ParserCore} {es : List NetworkError}

/-- A size line leads to what its number calls for. -/
theorem leads_sizeLine {line : Bytes} {n : ℕ} (hs : p.state = .kChunkSize) (h : SaysSize line n)
    (hfits : n < 2 ^ Target.sizeBits) (t : Bytes) :
    parserReader.Leads BareFree (p, es) (line ++ crlf ++ t) (p.withSize n, es) t := by
  have hread := sizeRead_of_says h hfits
  refine leads_line (by simp [ParserCore.readsLine, hs]) h.oneLine (n := line.length + 2) ?_ t
  rw [ParserCore.readLine, hs]
  obtain ⟨hnone, -⟩ | ⟨v, hv, heq⟩ := p.readChunkSize_cases line (line.length + 2)
  · rw [hread] at hnone
    cases hnone
  · obtain rfl := Option.some.inj (hread.symm.trans hv)
    exact heq

/-- A chunk leads to the next size line. -/
theorem leads_sentChunk (hs : p.state = .kChunkSize) (c : SentChunk) :
    ∃ q, q.state = .kChunkSize ∧ Emits p c.data q ∧
      ∀ t, parserReader.Leads BareFree (p, es) (c.bytes ++ t) (q, es) t := by
  have hpos : c.data.length ≠ 0 := fun h => c.nonempty (List.eq_nil_of_length_eq_zero h)
  let p₁ : ParserCore := { p with chunkRemaining := c.data.length, state := .kChunkData }
  have hsized : p.withSize c.data.length = p₁ := if_neg hpos
  have hstate : (p₁.countChunk c.data).state = .kChunkDataEnd := by simp [p₁, ParserCore.countChunk]
  have hdata : ∀ t, parserReader.Leads BareFree (p₁, es) (c.data ++ (crlf ++ t))
      (p₁.countChunk c.data, es) (crlf ++ t) := by
    intro t
    have hstep : p₁.feedState (c.data ++ (crlf ++ t)) =
        (.ok c.data.length, p₁.countChunk c.data) := by
      change p₁.feedChunkData _ = _
      rw [ParserCore.feedChunkData_counted]
      simp [p₁]
    refine .of_take rfl (fun line hline => by cases hline) ?_
    rw [take_of_ok (by simp [crlf]) hpos hstep, List.drop_left]
  have hend : ∀ t, parserReader.Leads BareFree (p₁.countChunk c.data, es) (crlf ++ t)
      ({ p₁.countChunk c.data with state := .kChunkSize }, es) t := by
    intro t
    have hstep : (p₁.countChunk c.data).feedState (crlf ++ t) =
        (.ok 2, { p₁.countChunk c.data with state := .kChunkSize }) := by
      rw [ParserCore.feedState, hstate]
      rfl
    refine .of_take ?_ (fun line hline => ?_) ?_
    · change (p₁.countChunk c.data).halted = false
      simp [ParserCore.halted, hstate]
    · simp [ParserCore.lineAt, ParserCore.readsLine, hstate] at hline
    · rw [take_of_ok (by simp [crlf]) (by simp) hstep]
      rfl
  have hemits := emits_countChunk p₁ c.data
  refine ⟨{ p₁.countChunk c.data with state := .kChunkSize }, rfl,
    ⟨hemits.statusCode, hemits.headers, hemits.onBody, hemits.emitted⟩, fun t => ?_⟩
  have hbytes : c.bytes ++ t = c.size ++ crlf ++ (c.data ++ (crlf ++ t)) := by
    simp [SentChunk.bytes]
  rw [hbytes]
  exact ((hsized ▸ leads_sizeLine hs c.sized c.fits _).trans (hdata t)).trans (hend t)

theorem leads_sentChunks (hs : p.state = .kChunkSize) (chunks : List SentChunk) :
    ∃ q, q.state = .kChunkSize ∧ Emits p (chunks.flatMap SentChunk.data) q ∧
      ∀ t, parserReader.Leads BareFree (p, es) (chunks.flatMap SentChunk.bytes ++ t) (q, es) t := by
  induction chunks generalizing p with
  | nil => exact ⟨p, hs, .refl p, .refl _⟩
  | cons c chunks ih =>
      obtain ⟨q, hq, hfirst, hchunk⟩ := leads_sentChunk hs c
      obtain ⟨r, hr, hmore, hchunks⟩ := ih hq
      refine ⟨r, hr, List.flatMap_cons ▸ hfirst.trans hmore, fun t => ?_⟩
      rw [List.flatMap_cons, List.append_assoc]
      exact (hchunk _).trans (hchunks t)

/-- The trailer is skipped, up to the blank line behind it. -/
theorem leads_trailer {lines : List Bytes} (hs : p.state = .kChunkTrailer)
    (hne : ∀ l ∈ lines, l ≠ []) (hlf : ∀ l ∈ lines, lf ∉ l) (t : Bytes) :
    parserReader.Leads BareFree (p, es) (headOf lines ++ t) ({ p with state := .kComplete }, es) t := by
  have hreads : p.readsLine = true := by simp [ParserCore.readsLine, hs]
  have hread : ∀ l, p.readLine l (l.length + 2) =
      (.ok (l.length + 2), if l = [] then { p with state := .kComplete } else p) := by
    intro l
    rw [ParserCore.readLine, hs]
    rfl
  induction lines with
  | nil => exact leads_line (l := []) hreads (by simp) (hread []) t
  | cons l lines ih =>
      obtain ⟨hl, hne⟩ := List.forall_mem_cons.mp hne
      obtain ⟨hfree, hlf⟩ := List.forall_mem_cons.mp hlf
      have hhead : headOf (l :: lines) ++ t = l ++ crlf ++ (headOf lines ++ t) := by simp [headOf]
      have hline := hread l
      rw [if_neg hl] at hline
      rw [hhead]
      exact (leads_line hreads hfree hline _).trans (ih hne hlf)

theorem leads_chunkEnd (hs : p.state = .kChunkSize) (e : ChunkEnd) (t : Bytes) :
    parserReader.Leads BareFree (p, es) (e.bytes ++ t) ({ p with state := .kComplete }, es) t := by
  have hsize := @leads_sizeLine _ p es _ _ hs e.sized (Nat.two_pow_pos _) (headOf e.trailer ++ t)
  have htrailer := @leads_trailer _ (p.withSize 0) es _ rfl e.nonblank e.oneLine t
  rw [ChunkEnd.bytes, List.append_assoc]
  exact hsize.trans htrailer

/-! ## The head -/

theorem leads_fields {lines : List Bytes} (hs : p.state = .kHeaders)
    (hlines : ∀ l ∈ lines, IsFieldLine l)
    (hreadable : ∀ f ∈ lines.filterMap fieldOf, saysLength f = true → (parseInt f.2).isSome = true)
    (t : Bytes) : parserReader.Leads BareFree (p, es) (headOf lines ++ t)
      ((p.withFields (lines.filterMap fieldOf)).endHeaders, es) t := by
  have hreads : p.readsLine = true := by simp [ParserCore.readsLine, hs]
  induction lines generalizing p with
  | nil =>
      refine leads_line (l := []) hreads (by simp) (n := 2) ?_ t
      rw [ParserCore.readLine, hs]
      rfl
  | cons l lines ih =>
      obtain ⟨hl, hlines⟩ := List.forall_mem_cons.mp hlines
      obtain ⟨f, hf, hname⟩ := hl.named
      have hfields : (l :: lines).filterMap fieldOf = f :: lines.filterMap fieldOf :=
        List.filterMap_cons_some hf
      rw [hfields] at hreadable ⊢
      obtain ⟨hfirst, hreadable⟩ := List.forall_mem_cons.mp hreadable
      have hread : p.readLine l (l.length + 2) = (.ok (l.length + 2), p.withField f) := by
        rw [ParserCore.readLine, hs]
        change p.readHeader l (l.length + 2) = _
        rw [ParserCore.readHeader_eq p hl.nonblank, hf]
        dsimp only
        rw [if_neg hname, if_neg]
        rintro ⟨hsaid, hnone⟩
        have hsome := hfirst hsaid
        rw [hnone] at hsome
        cases hsome
      have hhead : headOf (l :: lines) ++ t = l ++ crlf ++ (headOf lines ++ t) := by simp [headOf]
      rw [hhead]
      exact (leads_line hreads hl.oneLine hread _).trans
        (ih (p := p.withField f) hs hlines hreadable hreads)

/-- A head leads to the end of its header block. -/
theorem leads_readableHead (head : ResponseHead) (hs : p.state = .kStatusLine)
    (hreadable : ∀ v ∈ head.lengths, (parseInt v).isSome = true) :
    ∃ p', BehindStatus head.code p p' ∧ p'.onBody = p.onBody ∧ p'.emitted = p.emitted ∧
      ∀ t, parserReader.Leads BareFree (p, es) (head.bytes ++ t)
        ((p'.withFields head.fields).endHeaders, es) t := by
  obtain ⟨major, minor, reason, hstatus⟩ :=
    readStatusLine_said head.coded p (head.status.length + 2)
  let p' : ParserCore := { p with
    httpMajor := major
    httpMinor := minor
    statusCode := head.code
    reason := reason
    state := .kHeaders }
  have hread : p.readLine head.status (head.status.length + 2) =
      (.ok (head.status.length + 2), p') := by
    rw [ParserCore.readLine, hs]
    exact hstatus
  refine ⟨p', ⟨⟨rfl, rfl, rfl, rfl⟩, rfl, rfl, rfl⟩, rfl, rfl, fun t => ?_⟩
  have hbytes : head.bytes ++ t = head.status ++ crlf ++ (headOf head.lines ++ t) := by
    simp [ResponseHead.bytes, headOf]
  rw [hbytes]
  refine (leads_line (by simp [ParserCore.readsLine, hs]) head.oneLine hread _).trans
    (leads_fields rfl head.fieldLines (fun f hf hsaid => hreadable f.2 ?_) t)
  exact List.mem_map.mpr ⟨f, List.mem_filter.mpr ⟨hf, hsaid⟩, rfl⟩

end

/-! ## The reply -/

omit [Target] in
/-- A number that is read is one that an `int` can hold. -/
theorem lt_of_parseInt {s : Bytes} {n : Int} (h : parseInt s = some n) : n < 2 ^ 31 := by
  unfold parseInt at h
  split at h
  · cases h
  · cases h
  · obtain ⟨m, -, hn⟩ := Option.bind_eq_some_iff.mp h
    split at hn
    · obtain rfl := Option.some.inj hn
      omega
    · cases hn
  · obtain ⟨m, -, hn⟩ := Option.bind_eq_some_iff.mp h
    split at hn
    · obtain rfl := Option.some.inj hn
      omega
    · cases hn

/-- What a parser says of a reply that it has read. -/
structure Says (onBody : Bool) (reply : Reply) (p : ParserCore) : Prop where
  onBody : p.onBody = onBody
  statusCode : p.statusCode = reply.head.code
  headers : p.headers = mapOf reply.head.fields
  emitted : p.emitted = reply.body.content
  finished : p.finish.state = .kComplete
  complete : reply.body.endsItself = true → p.state = .kComplete

/-- What a parser says of a head that it has read to its blank line. -/
structure HeadSaid (onBody : Bool) (head : ResponseHead) (q : ParserCore) : Prop where
  onBody : q.onBody = onBody
  statusCode : q.statusCode = head.code
  headers : q.headers = mapOf head.fields
  emitted : q.emitted = []
  chunked : q.chunked = head.fields.any saysChunked
  hasContentLength : q.hasContentLength = head.fields.any saysLength
  contentLength : ∀ v ∈ head.lengths.getLast?, q.contentLength = intToSize ((parseInt v).getD 0)

theorem withFields_emitted (p : ParserCore) (fields : List (Bytes × Bytes)) :
    (p.withFields fields).onBody = p.onBody ∧ (p.withFields fields).emitted = p.emitted := by
  induction fields generalizing p with
  | nil => exact ⟨rfl, rfl⟩
  | cons f fields ih => exact ih (p.withField f)

theorem headSaid_withFields {head : ResponseHead} {onBody : Bool} {p : ParserCore}
    (h : BehindStatus head.code (fresh onBody).toParserCore p) (honBody : p.onBody = onBody)
    (hemitted : p.emitted = []) : HeadSaid onBody head (p.withFields head.fields) := by
  obtain ⟨htakes, hnothing⟩ := withFields_emitted p head.fields
  obtain ⟨-, hcode, -, hchunked, hhas, hheaders, hlength⟩ := withFields_spec p head.fields
  refine ⟨htakes.trans honBody, hcode.trans h.statusCode, ?_, hnothing.trans hemitted, ?_, ?_, ?_⟩
  · rw [hheaders, h.headers]
    rfl
  · rw [hchunked, h.chunked]
    exact Bool.false_or _
  · rw [hhas, h.hasContentLength]
    exact Bool.false_or _
  · intro v hv
    rw [ResponseHead.lengths, List.getLast?_map] at hv
    obtain ⟨f, hf, rfl⟩ := Option.map_eq_some_iff.mp hv
    rw [hlength, hf]
    rfl

/-- What reading a body leaves of the parser that has read its head. -/
structure BodyRead (body : ReplyBody) (q r : ParserCore) : Prop where
  emits : Emits q body.content r
  finished : r.finish.state = .kComplete
  complete : body.endsItself = true → r.state = .kComplete
  leads : ∀ t, body.endsItself = true ∨ t = [] →
    parserReader.Leads BareFree (q.endHeaders, []) (body.bytes ++ t) (r, []) t

section

variable {onBody : Bool} {head : ResponseHead} {q : ParserCore}

omit [Target] in
theorem finish_complete {r : ParserCore} (h : r.state = .kComplete) :
    r.finish.state = .kComplete := by
  rw [ParserCore.finish, if_neg (by simp [h]), h]

theorem bodyRead_chunked {chunks : List SentChunk} {last : ChunkEnd} (hq : HeadSaid onBody head q)
    (ha : (ReplyBody.chunked chunks last).AnnouncedBy head) :
    ∃ r, BodyRead (.chunked chunks last) q r := by
  have hchunked : q.chunked = true := hq.chunked.trans (List.any_eq_true.mpr ha)
  have hend : q.endHeaders = { q with state := .kChunkSize } := if_pos hchunked
  obtain ⟨r, hr, hemits, hleads⟩ :=
    @leads_sentChunks _ { q with state := .kChunkSize } [] rfl chunks
  refine ⟨{ r with state := .kComplete }, ?_, rfl, fun _ => rfl, fun t _ => ?_⟩
  · exact ⟨hemits.statusCode, hemits.headers, hemits.onBody, hemits.emitted⟩
  · rw [hend, ReplyBody.bytes, List.append_assoc]
    exact (hleads _).trans (leads_chunkEnd hr last t)

theorem bodyRead_measured {bytes : Bytes} (hq : HeadSaid onBody head q)
    (ha : (ReplyBody.measured bytes).AnnouncedBy head) : ∃ r, BodyRead (.measured bytes) q r := by
  obtain ⟨hplain, hlength⟩ := ha
  obtain ⟨v, hv, hn⟩ := Option.bind_eq_some_iff.mp hlength
  have hchunked : q.chunked = false := hq.chunked.trans (by simpa using hplain)
  have hhas : q.hasContentLength = true := by
    obtain ⟨f, hf, -⟩ := List.mem_map.mp (List.mem_of_getLast? hv)
    obtain ⟨hmem, hsaid⟩ := List.mem_filter.mp hf
    exact hq.hasContentLength.trans (List.any_eq_true.mpr ⟨f, hmem, hsaid⟩)
  have hcount : q.contentLength = bytes.length := by
    rw [hq.contentLength v hv, hn, Option.getD_some]
    exact intToSize_natCast (by exact_mod_cast lt_of_parseInt hn)
  have hend : q.endHeaders = { q with
      bodyRemaining := bytes.length
      state := if bytes.length = 0 then .kComplete else .kBody } := by
    rw [ParserCore.endHeaders, if_neg (by simp [hchunked]), if_pos hhas, hcount]
  cases bytes with
  | nil =>
      have hdone : q.endHeaders.state = .kComplete := by
        rw [hend]
        rfl
      exact ⟨q.endHeaders, emits_endHeaders q, finish_complete hdone, fun _ => hdone,
        fun t _ => .refl _ _⟩
  | cons b bytes =>
      have hdone : (q.endHeaders.countBody (b :: bytes)).state = .kComplete := by
        rw [hend]
        simp [ParserCore.countBody]
      refine ⟨q.endHeaders.countBody (b :: bytes),
        (emits_endHeaders q).trans (emits_countBody _ _), finish_complete hdone, fun _ => hdone,
        fun t _ => ?_⟩
      have hstep : q.endHeaders.feedState (b :: bytes ++ t) =
          (.ok (b :: bytes).length, q.endHeaders.countBody (b :: bytes)) := by
        rw [hend]
        change ParserCore.feedBody _ _ = _
        rw [ParserCore.feedBody_counted (by simp)]
        simp
      refine .of_take ?_ (fun line hline => ?_) ?_
      · change q.endHeaders.halted = false
        rw [hend]
        rfl
      · rw [hend] at hline
        cases hline
      · rw [ReplyBody.bytes, take_of_ok (by simp) (by simp) hstep, List.drop_left]

theorem bodyRead_untilClose {bytes : Bytes} (hq : HeadSaid onBody head q)
    (ha : (ReplyBody.untilClose bytes).AnnouncedBy head) :
    ∃ r, BodyRead (.untilClose bytes) q r := by
  obtain ⟨hplain, hnone⟩ := ha
  have hchunked : q.chunked = false := hq.chunked.trans (by simpa using hplain)
  have hhas : q.hasContentLength = false := by
    rw [hq.hasContentLength]
    simpa [ResponseHead.lengths] using hnone
  have hend : q.endHeaders = { q with state := .kBody, bodyRemaining := 0 } := by
    rw [ParserCore.endHeaders, if_neg (by simp [hchunked]), if_neg (by simp [hhas])]
  have hfinish : (q.endHeaders.emitBody bytes).finish.state = .kComplete := by
    rw [ParserCore.finish, if_pos]
    rw [hend]
    simp [hhas, hchunked]
  refine ⟨q.endHeaders.emitBody bytes, (emits_endHeaders q).trans (emits_emitBody _ _), hfinish,
    (fun h => absurd h (by simp [ReplyBody.endsItself])), fun t ht => ?_⟩
  obtain rfl := ht.resolve_left (by simp [ReplyBody.endsItself])
  cases bytes with
  | nil =>
      have hnothing : q.endHeaders.emitBody [] = q.endHeaders := by
        unfold ParserCore.emitBody
        split <;> rw [List.append_nil]
      rw [hnothing]
      exact .refl _ _
  | cons b bytes =>
      have hstep : q.endHeaders.feedState (b :: bytes) =
          (.ok (b :: bytes).length, q.endHeaders.emitBody (b :: bytes)) := by
        have hopen : q.endHeaders.bodyRemaining = 0 ∧ q.endHeaders.hasContentLength = false := by
          rw [hend]
          exact ⟨rfl, hhas⟩
        have hs : q.endHeaders.state = .kBody := by rw [hend]
        rw [ParserCore.feedState, hs]
        exact ParserCore.feedBody_open hopen _
      refine .of_take ?_ (fun line hline => ?_) ?_
      · change q.endHeaders.halted = false
        rw [hend]
        rfl
      · rw [hend] at hline
        cases hline
      · rw [ReplyBody.bytes, List.append_nil, take_of_ok (by simp) (by simp) hstep, List.drop_length]

theorem bodyRead_of_announced {body : ReplyBody} (hq : HeadSaid onBody head q)
    (ha : body.AnnouncedBy head) : ∃ r, BodyRead body q r := by
  cases body with
  | chunked chunks last => exact bodyRead_chunked hq ha
  | measured bytes => exact bodyRead_measured hq ha
  | untilClose bytes => exact bodyRead_untilClose hq ha

end

/-- The parser reads a reply, and halts right behind one that ends itself. -/
theorem Reply.leads (reply : Reply) (onBody : Bool) : ∃ r : ParserCore, Says onBody reply r ∧
    ∀ t, reply.body.endsItself = true ∨ t = [] →
      parserReader.Leads BareFree ((fresh onBody).toParserCore, []) (reply.bytes ++ t) (r, []) t := by
  obtain ⟨p, hbehind, honBody, hemitted, hhead⟩ := 
    @leads_readableHead _ (fresh onBody).toParserCore [] reply.head rfl reply.readable
  have hempty : p.emitted = [] := hemitted.trans (by cases onBody <;> rfl)
  have hq := headSaid_withFields hbehind honBody hempty
  obtain ⟨r, hr⟩ := bodyRead_of_announced hq reply.announced
  refine ⟨r, ⟨?_, ?_, ?_, ?_, hr.finished, hr.complete⟩, fun t ht => ?_⟩
  · exact hr.emits.onBody.trans hq.onBody
  · exact hr.emits.statusCode.trans hq.statusCode
  · exact hr.emits.headers.trans hq.headers
  · rw [hr.emits.emitted, hq.emitted, List.nil_append]
  · rw [Reply.bytes, List.append_assoc]
    exact (hhead _).trans (hr.leads t ht)

theorem feedAll_core (onBody : Bool) (pieces : List Bytes) :
    parserReader.feedAll (((fresh onBody).toParserCore, []), []) pieces =
      ((((fresh onBody).feedAll pieces).2.toParserCore, reported ((fresh onBody).feedAll pieces).1),
        ((fresh onBody).feedAll pieces).2.buffer) :=
  feedAll_reader (fresh_settled onBody) pieces

/-- However a reply is cut, and whatever stands behind one that ends itself, the parser has read it. -/
theorem feedAll_reply (reply : Reply) {onBody : Bool} {pieces : List Bytes} {trailing : Bytes}
    (hcut : pieces.flatten = reply.bytes ++ trailing)
    (ht : reply.body.endsItself = true ∨ trailing = []) :
    reported ((fresh onBody).feedAll pieces).1 = [] ∧
      Says onBody reply ((fresh onBody).feedAll pieces).2.toParserCore := by
  obtain ⟨r, hr, hleads⟩ := reply.leads onBody
  have hread : parserReader.feedAll (((fresh onBody).toParserCore, []), []) pieces =
      ((r, []), []) := by
    cases hends : reply.body.endsItself with
    | true =>
        have hdone : r.state = .kComplete := hr.complete hends
        have hmessage : parserReader.Ends BareFree ((fresh onBody).toParserCore, []) reply.bytes
            (r, []) :=
          .of_leads (by simp [parserReader, ParserCore.halted, hdone])
            (fun t line hline => by simp [ParserCore.lineAt, ParserCore.readsLine, hdone] at hline)
            fun t => hleads t (.inl hends)
        exact hmessage.feedAll parserReader_resumes hcut
    | false =>
        obtain rfl := ht.resolve_left (by simp [hends])
        refine (hleads [] (.inr rfl)).feedAll parserReader_resumes (fun line hline => ?_) hcut
        have hnone : takeLine [] = none := rfl
        simp [ParserCore.lineAt, hnone] at hline
  rw [feedAll_core] at hread
  have hcore : ((fresh onBody).feedAll pieces).2.toParserCore = r := congrArg (·.1.1) hread
  exact ⟨congrArg (·.1.2) hread, hcore ▸ hr⟩

theorem Says.finish {onBody : Bool} {reply : Reply} {p : ParserCore} (h : Says onBody reply p) :
    Says onBody reply p.finish := by
  have hfinished := h.finished
  obtain ⟨-, -, -, heq⟩ | ⟨-, heq⟩ := finish_cases p <;> rw [heq] at hfinished ⊢
  · exact ⟨h.onBody, h.statusCode, h.headers, h.emitted, finish_complete rfl, fun _ => rfl⟩
  · exact h

/-! ## The client that receives it -/

def Event.isError : Event → Bool
  | .error _ => true
  | _ => false

/-- The events bring a reply: its bytes in any pieces and, behind a reply whose end can be told from
them, anything but an error; behind any other reply, the close. -/
inductive Brings (reply : Reply) : List Event → Prop
  | itself {pieces : List (ℕ × Bytes)} {trailing : Bytes} {more : List Event}
      (hends : reply.body.endsItself = true)
      (hcut : (pieces.map Prod.snd).flatten = reply.bytes ++ trailing)
      (hmore : ∀ e ∈ more, e.isError = false) : Brings reply (arrivals pieces ++ more)
  | closed {pieces : List (ℕ × Bytes)} {more : List Event}
      (hcut : (pieces.map Prod.snd).flatten = reply.bytes)
      (hmore : ∀ e ∈ more, e.isError = false) : Brings reply (arrivals pieces ++ .closed :: more)

/-- What the bytes of a reply leave of a client that was ready for a response. -/
structure Arrived (reply : Reply) (client : SoftwareHttpClient) : Prop where
  parser : Says true reply client.parser.toParserCore
  quiet : client.parseFailed = false
  body : client.streaming = false → client.response = { body := reply.body.content }

/-- The client has taken in a reply. -/
structure Taken (reply : Reply) (client : SoftwareHttpClient) : Prop extends
    Arrived reply client where
  complete : client.parser.isComplete = true

namespace Conn

/-- The client that an event leaves is decided by the client that it reaches. -/
theorem handle_client {c c' : Conn} (h : c.client = c'.client) (e : Event) :
    (c.handle e).client = (c'.handle e).client := by
  unfold handle
  rw [h]
  cases c'.client.transport with
  | none => exact h
  | some t =>
      cases e with
      | closed | error e => simp only [onTransportClosed, onTransportError, log_client, h]
      | data answers bytes =>
          simp only [onTransportData, h]
          split <;> simp only [log_client, h]

theorem handleAll_client {c c' : Conn} (h : c.client = c'.client) (es : List Event) :
    (c.handleAll es).client = (c'.handleAll es).client := by
  induction es generalizing c c' with
  | nil => exact h
  | cons e es ih => exact ih (handle_client h e)

theorem handleAll_append (c : Conn) (es es' : List Event) :
    c.handleAll (es ++ es') = (c.handleAll es).handleAll es' := List.foldl_append

/-- The send of the head lies between the events and changes no member. -/
theorem started_client (c : Conn) (t : ℕ) (es : List Event) (bytes : Bytes) (outcome : Result ℕ)
    (es' : List Event) :
    (c.started t es bytes outcome es').client =
      ((c.beginRequest t).handleAll (es ++ es')).client := by
  rw [handleAll_append, started]
  exact handleAll_client (log_client _ _) es'

variable {reply : Reply} {c : Conn}

/-- A client that has taken in a reply keeps it, whatever else arrives but an error. -/
theorem Taken.handle (h : Taken reply c.client) {e : Event} (he : e.isError = false) :
    Taken reply (c.handle e).client := by
  have hs : c.client.parser.state = .kComplete := by
    simpa [ParserCore.isComplete] using h.complete
  unfold Conn.handle
  cases c.client.transport with
  | none => exact h
  | some t =>
      cases e with
      | data answers bytes =>
          change Taken reply (c.onTransportData t answers bytes).client
          rw [onTransportData, if_pos h.complete]
          exact h
      | closed =>
          have hcore : c.client.parser.finish = c.client.parser.toParserCore := by
            rw [ParserCore.finish, if_neg (by simp [hs])]
          refine ⟨⟨?_, h.quiet, h.body⟩, ?_⟩
          · change Says true reply c.client.parser.finish
            rw [hcore]
            exact h.parser
          · change c.client.parser.finish.isComplete = true
            rw [hcore]
            exact h.complete
      | error e => cases he

theorem Taken.handleAll (h : Taken reply c.client) {es : List Event}
    (hes : ∀ e ∈ es, e.isError = false) : Taken reply (c.handleAll es).client := by
  induction es generalizing c with
  | nil => exact h
  | cons e es ih =>
      obtain ⟨he, hes⟩ := List.forall_mem_cons.mp hes
      exact ih (Taken.handle h he) hes

theorem arrived_of_receives {client client' : SoftwareHttpClient} {pieces : List Bytes}
    {trailing : Bytes} (h : Receives client pieces client') (hparser : client.parser = fresh true)
    (hquiet : client.parseFailed = false) (hresponse : client.response = {})
    (hcut : pieces.flatten = reply.bytes ++ trailing)
    (ht : reply.body.endsItself = true ∨ trailing = []) : Arrived reply client' := by
  obtain ⟨hnone, hread⟩ := @feedAll_reply _ reply true _ _ hcut ht
  obtain ⟨d, hd, -, hbody⟩ := h.body
  have hkept := h.quiet
  have hafter := h.parser
  rw [hparser] at hkept hafter hd
  rw [← hafter] at hread
  have hcontent : d = reply.body.content := by
    have hemitted := hread.emitted
    rw [ParserCore.emitted, if_pos hread.onBody, hd] at hemitted
    exact hemitted
  refine ⟨hread, (hkept hnone).1.trans hquiet, fun hplain => ?_⟩
  rw [hbody, hresponse, if_neg (by simp [h.streaming.symm.trans hplain]), hcontent]
  rfl

/-- A client that is ready for a response has taken in the reply that the events bring. -/
theorem taken_of_brings {t : ℕ} {es : List Event} (htransport : c.client.transport = some t)
    (hparser : c.client.parser = fresh true) (hquiet : c.client.parseFailed = false)
    (hresponse : c.client.response = {}) (h : Brings reply es) :
    Taken reply (c.handleAll es).client := by
  cases h with
  | @itself pieces trailing more hends hcut hmore =>
      have hreceives := receives_arrivals htransport pieces
      have harrived := arrived_of_receives hreceives hparser hquiet hresponse hcut (.inl hends)
      rw [handleAll_append]
      refine Taken.handleAll ⟨harrived, ?_⟩ hmore
      simp [ParserCore.isComplete, harrived.parser.complete hends]
  | @closed pieces more hcut hmore =>
      have hreceives := receives_arrivals htransport pieces
      have harrived := @arrived_of_receives _ reply _ _ _ [] hreceives hparser hquiet hresponse
        (by rw [hcut, List.append_nil]) (.inr rfl)
      rw [handleAll_append]
      change Taken reply (((c.handleAll (arrivals pieces)).handle .closed).handleAll more).client
      refine Taken.handleAll ?_ hmore
      rw [Conn.handle, hreceives.transport.trans htransport]
      refine ⟨⟨harrived.parser.finish, harrived.quiet, harrived.body⟩, ?_⟩
      change (c.handleAll (arrivals pieces)).client.parser.finish.isComplete = true
      simp [ParserCore.isComplete, harrived.parser.finished]

end Conn

/-! ## `Execute` -/

namespace World

variable (env : Env)

/-- The server answers a request of `Execute` with this reply, at any of the points from the reset of
the parser to the end of the wait. -/
structure AnswersReply (request : RequestState) (w : World) (reply : Reply) : Prop where
  started : ((w.withStreaming false).startRequest env request false).1 = .ok ()
  arrives : ∃ n, ((w.withStreaming false).startRequest env request false).2.yields = n + 2 ∧
    Brings reply (env.events n ++ env.events (n + 1) ++ env.events (n + 2))

/-- What the client has when `ExecuteOnce` stops waiting. -/
theorem waited_reply {request : RequestState} {w : World} {reply : Reply}
    (h : AnswersReply env request w reply) :
    ∃ w', (w.withStreaming false).startRequest env request false = (.ok (), w') ∧
      Taken reply (w'.yield env).client ∧ (w'.yield env).client.streaming = false := by
  obtain ⟨n, hyields, hbrings⟩ := h.arrives
  rcases hstart : (w.withStreaming false).startRequest env request false with ⟨e | _, w'⟩
  · have hstarted := h.started
    rw [hstart] at hstarted
    cases hstarted
  rw [hstart] at hyields
  obtain ⟨c, t, bytes, k, m, ht, hs, hconn, hm⟩ := startRequest_sent env hstart
  obtain rfl : m = n := Nat.add_right_cancel (hm.symm.trans hyields)
  have hclient : (w'.yield env).client = ((c.beginRequest t).handleAll
      (env.events m ++ env.events (m + 1) ++ env.events (m + 2))).client := by
    rw [Conn.handleAll_append, ← hyields]
    refine Conn.handleAll_client (c := w'.toConn) ?_ _
    rw [hconn, Conn.started_client]
  have hplain : c.client.streaming = false := hs
  refine ⟨w', rfl, ?_, ?_⟩
  · rw [hclient]
    exact Conn.taken_of_brings (c := c.beginRequest t) (t := t) ht rfl rfl rfl hbrings
  · rw [hclient, Conn.handleAll_streaming]
    exact hplain

/-- `ExecuteOnce` returns the reply. -/
theorem executeOnce_reply {request : RequestState} {w : World} {reply : Reply}
    (h : AnswersReply env request w reply) :
    (w.executeOnce env request).1 = .ok reply.response := by
  obtain ⟨w', hstart, htaken, hplain⟩ := waited_reply env h
  rw [executeOnce_waited env hstart, if_neg (by simp [htaken.quiet]),
    if_neg (by simp [htaken.complete]), htaken.body hplain, htaken.parser.statusCode,
    htaken.parser.headers]
  refine congrArg Except.ok ?_
  change ({ statusCode := _, headers := mapOf (mapOf reply.head.fields), body := _ } :
    HttpResponse) = _
  rw [mapOf_ascending (ascends_mapOf _)]
  rfl

theorem executeAttempt_reply {request : RequestState} {w v : World} {reply : Reply}
    (hbegins : Begins env request w v) (h : AnswersReply env request v reply) :
    (w.executeAttempt env request).1 = .ok reply.response := by
  have honce := executeOnce_reply env h
  unfold executeAttempt
  cases hbegins with
  | first =>
      rcases hout : w.executeOnce env request with ⟨e | response, w'⟩ <;> rw [hout] at honce
      · cases honce
      · exact honce
  | second hlost hagain =>
      rw [hlost]
      dsimp only
      rw [if_pos hagain]
      exact honce

/-- A hop that is answered with a reply that leads nowhere has that response. -/
theorem executeHop_reply {request : RequestState} {w v : World} {reply : Reply}
    (hbegins : Begins env request w v) (h : AnswersReply env request v reply)
    (hfinal : Final w.client reply.response) (hop : ℕ) :
    (w.executeHop env hop request).1 = .ok (reply.response, none) := by
  have hsettings := (executeAttempt_tries env request w).settings
  have hattempt := executeAttempt_reply env hbegins h
  unfold executeHop
  rcases hout : w.executeAttempt env request with ⟨e | response, w'⟩ <;>
    rw [hout] at hattempt hsettings
  · cases hattempt
  · obtain rfl := Except.ok.inj hattempt
    have hnext := applyRedirect_final (hfinal.of_same hsettings) hop request
    rcases hredirect : w'.applyRedirect reply.response hop request with ⟨e | next, w''⟩ <;>
      rw [hredirect] at hnext
    · cases hnext
    · obtain rfl := Except.ok.inj hnext
      dsimp only
      rw [hredirect]

/-- The loop of `Execute` comes to a hop of which an attempt is answered with this reply, which leads
nowhere. -/
structure AnswersExecute (method url : Bytes) (w : World) (reply : Reply) (u : ParsedUrl)
    (hops : List Hop) (hop : Hop) (v : World) : Prop where
  parsed : parseUrl url = .ok u
  loop : Rounds.Loop (executeRound env) 0 (w.configured method u) w hops (w.execute env method url)
  visited : hop ∈ hops
  begins : Begins env hop.request hop.before v
  answers : AnswersReply env hop.request v reply
  final : Final w.client reply.response

/-- `Execute` returns the response that the server sent: whatever happened on the client before, behind
any redirects and a first attempt that lost the connection, in any framing, cut into any arrivals
before, during and behind the `Send`, with anything behind a reply whose end can be told. -/
theorem execute_reply {method url : Bytes} {w : World} {reply : Reply} {u : ParsedUrl}
    {hops : List Hop} {hop : Hop} {v : World}
    (h : AnswersExecute env method url w reply u hops hop v) :
    (w.execute env method url).1 = .ok reply.response := by
  have hsettings : SameSettings w.client hop.before.client := by
    have hkeeps := h.loop.invariant (I := fun w' => SameSettings w.client w'.client)
      (fun n r w₁ result w₂ hround hw =>
        hw.trans ((executeRound_hopping env).tries _ _ _ _ _ hround).settings) .rfl
    exact (hkeeps.2 hop h.visited).1
  have hhop := executeHop_reply env h.begins h.answers (h.final.of_same hsettings)
  obtain ⟨m, hout⟩ := h.loop.ends_at h.visited fun m response next heq => by
    cases (hhop m).symm.trans heq
  rw [hout]
  change (hop.before.executeHop env m hop.request).1.map Prod.fst = _
  rw [hhop m]
  rfl

/-- The first request is answered at once. -/
theorem answersExecute_first {method url : Bytes} {w : World} {reply : Reply} {u : ParsedUrl}
    (hurl : parseUrl url = .ok u) (h : AnswersReply env (w.configured method u) w reply)
    (hfinal : Final w.client reply.response) :
    ∃ hops hop, AnswersExecute env method url w reply u hops hop w := by
  obtain ⟨e, herror, -⟩ | ⟨u', hops, hurl', hloop, -⟩ := execute_bounded env method url w
  · cases hurl.symm.trans herror
  · obtain rfl := Except.ok.inj (hurl.symm.trans hurl')
    obtain ⟨w', rest, rfl⟩ := hloop.head
    exact ⟨_, _, hurl, hloop, List.mem_cons_self, .first, h, hfinal⟩

end World

/-! ## A reply in chunks -/

open World

/-- "HTTP/1.1 200 K" with "Transfer-Encoding: chunked". -/
def trailerHead : ResponseHead :=
  { emptyHead with
    lines := [ascii ['T', 'r', 'a', 'n', 's', 'f', 'e', 'r', '-', 'E', 'n', 'c', 'o', 'd', 'i', 'n',
      'g', ':', ' ', 'c', 'h', 'u', 'n', 'k', 'e', 'd']]
    fieldLines := by
      intro l hl
      obtain rfl := List.mem_singleton.mp hl
      exact ⟨by decide, by decide, _, rfl, by decide⟩ }

/-- A chunk that holds a line ending, behind a size with a leading zero and an extension, and a trailer
of one field. -/
def trailerReply : @Reply esp32 :=
  letI := esp32
  { head := trailerHead
    body := .chunked
      [{ size := ascii ['0', '2', ';', 'q']
         data := crlf
         sized := ⟨by decide, by decide, by decide, by decide⟩
         nonempty := by decide
         fits := by decide }]
      { last := ascii ['0']
        trailer := [ascii ['A', ':', 'b']]
        sized := ⟨by decide, by decide, by decide, by decide⟩
        nonblank := by decide
        oneLine := by decide }
    readable := by decide
    announced := ⟨_, List.mem_singleton_self _, by decide⟩ }

/-- A server that sends it in two pieces, during the `Send` and in the wait, with a byte behind it. -/
def trailerEnv : Env :=
  letI := esp32
  scripted [100]
    [(3, .data 1 (trailerReply.bytes.take 46)), (4, .data 1 (trailerReply.bytes.drop 46 ++ [72]))]

omit [Target] in
theorem execute_reply_chunked :
    letI := esp32
    (({} : World).execute trailerEnv methodGet exampleUrl).1 = .ok trailerReply.response := by
  let := esp32
  have hanswers : AnswersReply trailerEnv
      (({} : World).configured methodGet ⟨false, [104], 80, [slash]⟩) {} trailerReply := by
    refine ⟨rfl, 2, rfl, ?_⟩
    have hevents : trailerEnv.events 2 ++ trailerEnv.events 3 ++ trailerEnv.events 4 =
        arrivals [(1, trailerReply.bytes.take 46), (1, trailerReply.bytes.drop 46 ++ [72])] ++ [] :=
      rfl
    rw [hevents]
    refine @Brings.itself esp32 trailerReply _ [72] _ rfl ?_ (by simp)
    change [_, _].flatten = _
    rw [List.flatten_cons, List.flatten_singleton, ← List.append_assoc, List.take_append_drop]
  obtain ⟨hops, hop, h⟩ := @answersExecute_first esp32 trailerEnv methodGet exampleUrl {} trailerReply
    ⟨false, [104], 80, [slash]⟩ (by decide) hanswers (by decide)
  exact execute_reply trailerEnv h

end EspModemLink.Http
