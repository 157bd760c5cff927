import EspModemLink.Http.ChunkedDecoding
import EspModemLink.Http.ContentLength
import EspModemLink.Http.ExecuteBound
import EspModemLink.Http.RefusedRequest
import EspModemLink.Http.RequestLine

/-!
# Responses that have no body

The answer to a HEAD, a 204 and a 304 end at their head. The parser frames them like any other
response, by their fields alone, and `Execute` gives the parser neither the method nor a rule for the
status.
-/

namespace EspModemLink.Http

open Bytes AtParser Cutting

/-! ## The map of the fields -/

theorem bytesLt_iff {a b : Bytes} : bytesLt a b = true ↔ a < b := by
  induction a generalizing b with
  | nil => cases b <;> simp [bytesLt]
  | cons c s ih =>
      cases b with
      | nil => simp [bytesLt]
      | cons d t => simp [bytesLt, ih, List.cons_lt_cons_iff]

/-- The names go up. -/
def Ascends (m : HeaderMap) : Prop := m.Pairwise fun e e' => e.1 < e'.1

theorem Ascends.set {m : HeaderMap} (h : Ascends m) (name value : Bytes) :
    Ascends (m.set name value) := by
  induction m with
  | nil => exact List.pairwise_singleton _ _
  | cons e m ih =>
      obtain ⟨hfirst, hrest⟩ := List.pairwise_cons.mp h
      rw [HeaderMap.set]
      split
      · rename_i hsame
        exact List.pairwise_cons.mpr ⟨fun e' he' => hsame ▸ hfirst e' he', hrest⟩
      · rename_i hne
        split
        · rename_i hlt
          have hlt := bytesLt_iff.mp hlt
          refine List.pairwise_cons.mpr ⟨fun e' he' => ?_, h⟩
          obtain rfl | he' := List.mem_cons.mp he'
          · exact hlt
          · exact List.lt_trans hlt (hfirst e' he')
        · rename_i hnlt
          have hlt : e.1 < name :=
            Std.lt_of_le_of_ne (fun hlt => hnlt (bytesLt_iff.mpr hlt)) hne
          refine List.pairwise_cons.mpr ⟨fun e' he' => ?_, ih hrest⟩
          obtain rfl | he' := HeaderMap.mem_set he'
          · exact hlt
          · exact hfirst e' he'

/-- A name above all others goes to the end. -/
theorem HeaderMap.set_last {m : HeaderMap} {name : Bytes} (h : ∀ e ∈ m, e.1 < name)
    (value : Bytes) : m.set name value = m ++ [(name, value)] := by
  induction m with
  | nil => rfl
  | cons e m ih =>
      obtain ⟨hfirst, hrest⟩ := List.forall_mem_cons.mp h
      have hne : e.1 ≠ name := fun heq => List.lt_irrefl _ (heq ▸ hfirst)
      have hnlt : bytesLt name e.1 ≠ true :=
        fun hlt => List.lt_irrefl _ (List.lt_trans hfirst (bytesLt_iff.mp hlt))
      rw [HeaderMap.set, if_neg hne, if_neg hnlt, ih hrest, List.cons_append]

/-- The map of some fields, each of which overwrites the ones before it. -/
def mapOf (fields : List (Bytes × Bytes)) : HeaderMap :=
  fields.foldl (fun m f => m.set f.1 f.2) []

theorem ascends_mapOf (fields : List (Bytes × Bytes)) : Ascends (mapOf fields) := by
  have hfold : ∀ m : HeaderMap, Ascends m →
      Ascends (fields.foldl (fun m f => m.set f.1 f.2) m) := by
    induction fields with
    | nil => exact fun m h => h
    | cons f fields ih => exact fun m h => ih _ (h.set f.1 f.2)
  exact hfold [] List.Pairwise.nil

/-- Copying a map into an empty one yields the map. -/
theorem mapOf_ascending {m : HeaderMap} (h : Ascends m) : mapOf m = m := by
  induction m using List.reverseRecOn with
  | nil => rfl
  | append_singleton m e ih =>
      obtain ⟨hfront, -, hlast⟩ := List.pairwise_append.mp h
      rw [mapOf, List.foldl_append]
      change (mapOf m).set e.1 e.2 = _
      rw [ih hfront, HeaderMap.set_last fun e' he' => hlast e' he' e (List.mem_singleton_self e)]

/-! ## Heads -/

/-- The status code that a status line says. -/
def statusSaid (line : Bytes) : Option Int :=
  match ({} : ParserCore).readStatusLine line 0 with
  | (.ok _, p) => some p.statusCode
  | (.error _, _) => none

/-- A line that says a field with a name. -/
structure IsFieldLine (l : Bytes) : Prop where
  nonblank : l ≠ []
  oneLine : lf ∉ l
  named : ∃ f, fieldOf l = some f ∧ f.1 ≠ []

/-- The head of a response: a status line and any field lines. -/
structure ResponseHead where
  status : Bytes
  code : Int
  lines : List Bytes
  oneLine : lf ∉ status
  coded : statusSaid status = some code
  fieldLines : ∀ l ∈ lines, IsFieldLine l

namespace ResponseHead

variable (head : ResponseHead)

def bytes : Bytes := headOf (head.status :: head.lines)

def fields : List (Bytes × Bytes) := head.lines.filterMap fieldOf

/-- The values of its Content-Length fields. -/
def lengths : List Bytes := (head.fields.filter saysLength).map Prod.snd

/-- The response that ends at this head. -/
def response : HttpResponse where
  statusCode := head.code
  headers := mapOf head.fields

/-- No field says that the body is chunked, every Content-Length is an `int`, and the last one is
zero. -/
structure EndsItself : Prop where
  plain : ∀ f ∈ head.fields, saysChunked f = false
  readable : ∀ v ∈ head.lengths, (parseInt v).isSome = true
  zero : head.lengths.getLast?.bind parseInt = some 0

end ResponseHead

/-- A status line is read the same in every parser. -/
theorem readStatusLine_said {line : Bytes} {code : Int} (h : statusSaid line = some code)
    (p : ParserCore) (n : ℕ) : ∃ major minor reason, p.readStatusLine line n =
      (.ok n, { p with
        httpMajor := major
        httpMinor := minor
        statusCode := code
        reason := reason
        state := .kHeaders }) := by
  unfold statusSaid at h
  obtain ⟨e, he, -⟩ | ⟨sp, dot, major, minor, code', hstart, hsp, hdot, hmajor, hminor, hcode, heq⟩ :=
    readStatusLine_cases {} line 0
  · split at h
    · rename_i heq
      rw [heq] at he
      cases he
    · cases h
  · rw [heq] at h
    obtain rfl := Option.some.inj h
    unfold ParserCore.readStatusLine
    rw [if_neg (not_not_intro hstart)]
    simp only [hsp, hdot, hmajor, hminor, hcode]
    exact ⟨_, _, _, rfl⟩

/-! ## What a head leaves -/

section

variable [Target]

/-- A number that is cast to zero is zero. -/
theorem intToSize_eq_zero {s : Bytes} {n : Int} (h : parseInt s = some n) :
    intToSize n = 0 ↔ n = 0 := by
  have hwide : (2 : Int) ^ 32 ≤ 2 ^ Target.sizeBits := by
    exact_mod_cast Nat.pow_le_pow_right (by omega) Target.wide
  have hrange : -2 ^ 31 ≤ n ∧ n < 2 ^ 31 := by
    unfold parseInt at h
    split at h
    · cases h
    · cases h
    · obtain ⟨m, -, hn⟩ := Option.bind_eq_some_iff.mp h
      split at hn
      · obtain rfl := Option.some.inj hn
        omega
      · cases hn
    · obtain ⟨m, -, hn⟩ := Option.bind_eq_some_iff.mp h
      split at hn
      · obtain rfl := Option.some.inj hn
        omega
      · cases hn
  have hpos : (0 : Int) < 2 ^ Target.sizeBits := by omega
  have hmod := Int.emod_nonneg n hpos.ne'
  rw [intToSize, Int.toNat_eq_zero, hmod.ge_iff_eq']
  constructor
  · intro hzero
    refine Int.eq_zero_of_abs_lt_dvd (Int.dvd_of_emod_eq_zero hzero) ?_
    rw [abs_lt]
    omega
  · rintro rfl
    exact Int.zero_emod _

/-- The parser behind some fields. -/
def ParserCore.withFields (p : ParserCore) (fields : List (Bytes × Bytes)) : ParserCore :=
  fields.foldl withField p

theorem withFields_spec (p : ParserCore) (fields : List (Bytes × Bytes)) :
    (p.withFields fields).state = p.state ∧ (p.withFields fields).statusCode = p.statusCode ∧
      (p.withFields fields).delivered = p.delivered ∧
      (p.withFields fields).chunked = (p.chunked || fields.any saysChunked) ∧
      (p.withFields fields).hasContentLength = (p.hasContentLength || fields.any saysLength) ∧
      (p.withFields fields).headers = fields.foldl (fun m f => HeaderMap.set f.1 f.2 m) p.headers ∧
      (p.withFields fields).contentLength =
        ((fields.filter saysLength).getLast?.map fun f => intToSize ((parseInt f.2).getD 0)).getD
          p.contentLength := by
  induction fields generalizing p with
  | nil => simp [ParserCore.withFields]
  | cons f fields ih =>
      obtain ⟨hstate, hcode, hdelivered, hchunked, hhas, hheaders, hlength⟩ := ih (p.withField f)
      refine ⟨hstate, hcode, hdelivered, ?_, ?_, hheaders, ?_⟩
      · rw [List.any_cons, ← Bool.or_assoc]
        exact hchunked
      · rw [List.any_cons, ← Bool.or_assoc]
        exact hhas
      · refine hlength.trans ?_
        cases hsaid : saysLength f with
        | false => simp [ParserCore.withField, hsaid]
        | true =>
            rw [List.filter_cons_of_pos hsaid, List.getLast?_cons]
            cases (fields.filter saysLength).getLast? <;> simp [ParserCore.withField, hsaid]

variable {p : ParserCore} {es : List NetworkError} {lines : List Bytes}

/-- What a head of these lines leads to: the end of its header block, or an error at a Content-Length
that is not an `int`. -/
def HeadOutcome (p : ParserCore) (es : List NetworkError) (fields : List (Bytes × Bytes))
    (q : ParserCore × List NetworkError) : Prop :=
  ((∀ f ∈ fields, saysLength f = true → (parseInt f.2).isSome = true) ∧
      q = ((p.withFields fields).endHeaders, es)) ∨
    ((¬∀ f ∈ fields, saysLength f = true → (parseInt f.2).isSome = true) ∧ q.1.state = .kError ∧
      ∃ e, e.code = .kProtocolError ∧ q.2 = es ++ [e])

theorem leads_fieldLines (hs : p.state = .kHeaders) (hlines : ∀ l ∈ lines, IsFieldLine l) :
    ∃ q r, HeadOutcome p es (lines.filterMap fieldOf) q ∧ (q.1.halted = true ∨ r = []) ∧
      parserReader.Leads BareFree (p, es) (headOf lines) q r := by
  induction lines generalizing p with
  | nil =>
      have hread : p.readLine [] 2 = (.ok 2, p.endHeaders) := by
        rw [ParserCore.readLine, hs]
        rfl
      refine ⟨_, [], .inl ⟨by simp, rfl⟩, .inr rfl, ?_⟩
      exact leads_line (by simp [ParserCore.readsLine, hs]) (by simp) hread []
  | cons l lines ih =>
      obtain ⟨hl, hlines⟩ := List.forall_mem_cons.mp hlines
      obtain ⟨f, hf, hname⟩ := hl.named
      have hreads : p.readsLine = true := by simp [ParserCore.readsLine, hs]
      have hhead : headOf (l :: lines) = l ++ crlf ++ headOf lines := by simp [headOf]
      have hfields : (l :: lines).filterMap fieldOf = f :: lines.filterMap fieldOf :=
        List.filterMap_cons_some hf
      have hread : p.readLine l (l.length + 2) = p.readHeader l (l.length + 2) := by
        rw [ParserCore.readLine, hs]
      rw [ParserCore.readHeader_eq p hl.nonblank, hf] at hread
      dsimp only at hread
      rw [if_neg hname] at hread
      rw [hhead, hfields]
      by_cases hbad : saysLength f = true ∧ parseInt f.2 = none
      · rw [if_pos hbad] at hread
        refine ⟨_, _, .inr ⟨fun hall => ?_, rfl, _, rfl, rfl⟩, .inl rfl,
          leads_line_error hreads hl.oneLine hread _⟩
        have hsome := hall f List.mem_cons_self hbad.1
        rw [hbad.2] at hsome
        cases hsome
      · rw [if_neg hbad] at hread
        obtain ⟨q, r, hout, hend, hrest⟩ := ih (p := p.withField f) hs hlines
        have hfirst : saysLength f = true → (parseInt f.2).isSome = true :=
          fun hsaid => Option.isSome_iff_ne_none.mpr fun hnone => hbad ⟨hsaid, hnone⟩
        refine ⟨q, r, ?_, hend, (leads_line hreads hl.oneLine hread _).trans hrest⟩
        obtain ⟨hall, heq⟩ | ⟨hnot, herror⟩ := hout
        · exact .inl ⟨List.forall_mem_cons.mpr ⟨hfirst, hall⟩, heq⟩
        · exact .inr ⟨fun hall => hnot (List.forall_mem_cons.mp hall).2, herror⟩

/-- What a status line leaves. -/
structure BehindStatus (code : Int) (p p' : ParserCore) : Prop extends SameFraming p p' where
  state : p'.state = .kHeaders
  statusCode : p'.statusCode = code
  delivered : p'.delivered = p.delivered

/-- Behind a status line the field lines are read. -/
theorem leads_responseHead (head : ResponseHead) (hs : p.state = .kStatusLine) :
    ∃ p', BehindStatus head.code p p' ∧ ∃ q r, HeadOutcome p' es head.fields q ∧
      (q.1.halted = true ∨ r = []) ∧ parserReader.Leads BareFree (p, es) head.bytes q r := by
  obtain ⟨major, minor, reason, hstatus⟩ :=
    readStatusLine_said head.coded p (head.status.length + 2)
  have hread : p.readLine head.status (head.status.length + 2) =
      p.readStatusLine head.status (head.status.length + 2) := by rw [ParserCore.readLine, hs]
  rw [hstatus] at hread
  have hbytes : head.bytes = head.status ++ crlf ++ headOf head.lines := by
    simp [ResponseHead.bytes, headOf]
  let p' : ParserCore := { p with
    httpMajor := major
    httpMinor := minor
    statusCode := head.code
    reason := reason
    state := .kHeaders }
  obtain ⟨q, r, hout, hend, hleads⟩ := leads_fieldLines (p := p') rfl head.fieldLines
  refine ⟨p', ⟨⟨rfl, rfl, rfl, rfl⟩, rfl, rfl, rfl⟩, q, r, hout, hend, ?_⟩
  rw [hbytes]
  exact (leads_line (by simp [ParserCore.readsLine, hs]) head.oneLine hread _).trans hleads

/-- What a parser has read of a head, in any pieces: its end, or an error. -/
theorem feedAll_responseHead (head : ResponseHead) {pieces : List Bytes}
    (hcut : pieces.flatten = head.bytes) :
    ∃ p', BehindStatus head.code (fresh true).toParserCore p' ∧
      HeadOutcome p' [] head.fields (((fresh true).feedAll pieces).2.toParserCore,
        reported ((fresh true).feedAll pieces).1) := by
  obtain ⟨p', hbehind, q, r, hout, hend, hleads⟩ :=
    @leads_responseHead _ (fresh true).toParserCore [] head rfl
  have hclean : parserReader.Clean BareFree q r := by
    obtain hhalted | rfl := hend
    · refine Reader.clean_of_halted hhalted fun line hline => ?_
      have hnot : q.1.readsLine = false := by
        have hcases : q.1.state = .kComplete ∨ q.1.state = .kError := by
          simpa [ParserCore.halted] using hhalted
        obtain h | h := hcases <;> simp [ParserCore.readsLine, h]
      simp [ParserCore.lineAt, hnot] at hline
    · intro v hv
      rw [Reader.visits_of_wait (Reader.take_nil q), List.mem_singleton] at hv
      rw [hv]
      have hnone : takeLine [] = none := rfl
      intro line hline
      simp [ParserCore.lineAt, hnone] at hline
  have hdrain : (parserReader.drain q r).1 = q := by
    obtain hhalted | rfl := hend
    · rw [Reader.drain_of_halted hhalted]
    · rw [Reader.drain_nil]
  have hall : parserReader.feedAll (((fresh true).toParserCore, []), []) pieces = _ :=
    feedAll_reader (fresh_settled true) pieces
  rw [Reader.feedAll_eq_feed parserReader_resumes _ pieces (hcut ▸ hleads.clean hclean), hcut,
    Reader.feed, if_neg (by simp [parserReader, fresh, ParserCore.halted]), List.nil_append] at hall
  have hfst := congrArg Prod.fst hall
  rw [Reader.settle_fst, hleads.drain, hdrain] at hfst
  rw [hfst] at hout
  exact ⟨p', hbehind, hout⟩

/-- The parser is done behind a head that ends itself, and behind no other. -/
theorem endHeaders_complete {head : ResponseHead} {p : ParserCore}
    (hbehind : BehindStatus head.code (fresh true).toParserCore p)
    (hall : ∀ f ∈ head.fields, saysLength f = true → (parseInt f.2).isSome = true) :
    (p.withFields head.fields).endHeaders.state = .kComplete ↔ head.EndsItself := by
  obtain ⟨-, -, -, hchunked, hhas, -, hlength⟩ := withFields_spec p head.fields
  rw [hbehind.chunked] at hchunked
  rw [hbehind.hasContentLength] at hhas
  have hplain : head.fields.any saysChunked = false ↔ ∀ f ∈ head.fields, saysChunked f = false := by
    simp
  have hreadable : ∀ v ∈ head.lengths, (parseInt v).isSome = true := by
    intro v hv
    obtain ⟨f, hf, rfl⟩ := List.mem_map.mp hv
    obtain ⟨hmem, hsaid⟩ := List.mem_filter.mp hf
    exact hall f hmem hsaid
  unfold ParserCore.endHeaders
  generalize p.withFields head.fields = q at hchunked hhas hlength
  by_cases hchunk : q.chunked = true
  · rw [if_pos hchunk]
    refine ⟨fun h => absurd h (by simp), fun h => ?_⟩
    have hnone : head.fields.any saysChunked = false := hplain.mpr h.plain
    rw [hnone] at hchunked
    exact absurd (hchunk.symm.trans hchunked) (by decide)
  have hnone : head.fields.any saysChunked = false := by
    rw [Bool.not_eq_true] at hchunk
    exact hchunked.symm.trans hchunk
  rw [if_neg hchunk]
  cases hlast : (head.fields.filter saysLength).getLast? with
  | none =>
      have hno : (head.fields.any saysLength) = false := by
        have hnil := List.getLast?_eq_none_iff.mp hlast
        simpa using hnil
      rw [hno] at hhas
      rw [if_neg (by rw [hhas]; decide)]
      refine ⟨fun h => absurd h (by simp), fun h => ?_⟩
      have hzero := h.zero
      rw [ResponseHead.lengths, List.getLast?_map, hlast] at hzero
      cases hzero
  | some f =>
      obtain ⟨hmem, hsaid⟩ := List.mem_filter.mp (List.mem_of_getLast? hlast)
      obtain ⟨n, hn⟩ := Option.isSome_iff_exists.mp (hall f hmem hsaid)
      have hyes : head.fields.any saysLength = true := List.any_eq_true.mpr ⟨f, hmem, hsaid⟩
      rw [hyes, Bool.or_true] at hhas
      have hannounced : q.contentLength = intToSize n := by
        rw [hlength, hlast, Option.map_some, Option.getD_some, hn, Option.getD_some]
      have hzero : head.lengths.getLast?.bind parseInt = some n := by
        rw [ResponseHead.lengths, List.getLast?_map, hlast]
        exact hn
      rw [if_pos hhas]
      dsimp only
      rw [hannounced]
      constructor
      · intro h
        have hn0 : n = 0 := by
          refine (intToSize_eq_zero hn).mp ?_
          by_contra hne
          rw [if_neg hne] at h
          cases h
        exact ⟨hplain.mp hnone, hreadable, hn0 ▸ hzero⟩
      · intro h
        exact if_pos ((intToSize_eq_zero hn).mpr (Option.some.inj (hzero.symm.trans h.zero)))

/-- What the parser says of a response of which only the head comes. -/
structure HeadTaken (head : ResponseHead) (p : ParserCore) : Prop where
  statusCode : p.statusCode = head.code
  headers : p.headers = mapOf head.fields
  delivered : p.delivered = []

/-- The parser reads the response of a head that ends itself. Behind any other head it waits, or it has
failed. -/
theorem feedAll_endsItself (head : ResponseHead) {pieces : List Bytes}
    (hcut : pieces.flatten = head.bytes) :
    (head.EndsItself ∧ reported ((fresh true).feedAll pieces).1 = [] ∧
        ((fresh true).feedAll pieces).2.state = .kComplete ∧
        HeadTaken head ((fresh true).feedAll pieces).2.toParserCore) ∨
      (¬head.EndsItself ∧ reported ((fresh true).feedAll pieces).1 = [] ∧
        ((fresh true).feedAll pieces).2.state ≠ .kComplete) ∨
      (¬head.EndsItself ∧
        ∃ e, e.code = .kProtocolError ∧ reported ((fresh true).feedAll pieces).1 = [e]) := by
  obtain ⟨p', hbehind, ⟨hall, heq⟩ | ⟨hnot, -, e, he, hes⟩⟩ := feedAll_responseHead head hcut
  · obtain ⟨hcore, hreported⟩ := Prod.mk.inj heq
    obtain ⟨-, hcode, hdelivered, -, -, hheaders, -⟩ := withFields_spec p' head.fields
    have hcomplete := endHeaders_complete hbehind hall
    have hsame : ∀ q : ParserCore, q.endHeaders.statusCode = q.statusCode ∧
        q.endHeaders.headers = q.headers ∧ q.endHeaders.delivered = q.delivered := by
      intro q
      unfold ParserCore.endHeaders
      split
      · exact ⟨rfl, rfl, rfl⟩
      · split <;> exact ⟨rfl, rfl, rfl⟩
    obtain ⟨hcode', hheaders', hdelivered'⟩ := hsame (p'.withFields head.fields)
    rw [← hcore] at hcomplete hcode' hheaders' hdelivered'
    by_cases hends : head.EndsItself
    · refine .inl ⟨hends, hreported, hcomplete.mpr hends, ?_, ?_, ?_⟩
      · rw [hcode', hcode, hbehind.statusCode]
      · rw [hheaders', hheaders, hbehind.headers]
        rfl
      · rw [hdelivered', hdelivered, hbehind.delivered]
        rfl
    · exact .inr (.inl ⟨hends, hreported, mt hcomplete.mp hends⟩)
  · refine .inr (.inr ⟨fun hends => hnot fun f hf hsaid => ?_, e, he, hes⟩)
    exact hends.readable f.2 (List.mem_map.mpr ⟨f, List.mem_filter.mpr ⟨hf, hsaid⟩, rfl⟩)

end

/-! ## The client that waits -/

namespace World

variable [Target] (env : Env)

theorem ensureConnected_streaming (url : ParsedUrl) (w : World) :
    (w.ensureConnected env url).2.client.streaming = w.client.streaming := by
  unfold ensureConnected
  dsimp only
  split
  · rfl
  · split
    · rfl
    · rename_i hcreate
      let w' : World := { w.dropTransport with
        toConn := w.dropTransport.toConn.attach url.tls (if url.tls then w.client.tls else {})
        creates := w.creates + 1 }
      have hyield : (w'.yield env).client.streaming = w.client.streaming :=
        Conn.handleAll_streaming w'.toConn (env.events w'.yields)
      split <;> exact hyield

/-- Where `StartRequest` has sent the head, what arrives behind the reset of the parser and during the
`Send` has been handed on. -/
theorem startRequest_sent {request : RequestState} {chunked : Bool} {w w' : World}
    (h : w.startRequest env request chunked = (.ok (), w')) :
    ∃ (c : Conn) (t : ℕ) (bytes : Bytes) (k n : ℕ), c.client.transport = some t ∧ c.client.streaming = w.client.streaming ∧
      w'.toConn = c.started t (env.events n) bytes (.ok k) (env.events (n + 1)) ∧
      w'.yields = n + 2 := by
  unfold startRequest at h
  split at h
  · cases h
  · obtain ⟨-, -, htransport⟩ := ensureConnected_path env request.url w
    have hstreaming := ensureConnected_streaming env request.url w
    split at h
    · cases h
    · rename_i t w₁ heq
      rw [heq] at htransport hstreaming
      dsimp only at h
      have hyield := yield_driver env w₁
      have ht := hyield.transport.trans (htransport t rfl)
      have hs : (w₁.yield env).client.streaming = w.client.streaming :=
        (Conn.handleAll_streaming w₁.toConn _).trans hstreaming
      split at h
      · cases h
      · rename_i k w' hsend
        obtain ⟨-, rfl⟩ := Prod.mk.inj h
        obtain ⟨hoc, rfl⟩ := Prod.mk.inj hsend
        let w₂ : World := ({ w₁.yield env with
          toConn := (w₁.yield env).toConn.beginRequest t } : World).yield env
        refine ⟨(w₁.yield env).toConn, t,
          buildHttpRequest request.url (w₂.requestOptions request chunked), k,
          (w₁.yield env).yields, ht, hs, ?_, rfl⟩
        rw [← hoc]
        rfl

/-- The server answers a request of `Execute` with this head and nothing else, in any pieces and from
any point behind the reset of the parser on, and keeps the connection open. -/
structure AnswersHead (request : RequestState) (w : World) (head : ResponseHead) : Prop where
  started : ((w.withStreaming false).startRequest env request false).1 = .ok ()
  arrives : ∃ a b c n,
    ((w.withStreaming false).startRequest env request false).2.yields = n + 2 ∧
      env.events n = arrivals a ∧ env.events (n + 1) = arrivals b ∧ env.events (n + 2) = arrivals c ∧
      ((a ++ b ++ c).map Prod.snd).flatten = head.bytes

/-- What the client has made of a head when `ExecuteOnce` stops waiting. -/
theorem receives_head {request : RequestState} {w : World} {head : ResponseHead}
    (h : AnswersHead env request w head) :
    ∃ pieces w', pieces.flatten = head.bytes ∧
      (w.withStreaming false).startRequest env request false = (.ok (), w') ∧
      ∃ client, Conn.Receives client pieces (w'.yield env).client ∧ client.parser = fresh true ∧
        client.streaming = false ∧ client.parseFailed = false ∧ client.closed = false ∧
        client.response = {} := by
  obtain ⟨a, b, c, n, hyields, ha, hb, hc, hcut⟩ := h.arrives
  rcases hstart : (w.withStreaming false).startRequest env request false with ⟨e | _, w'⟩
  · have hstarted := h.started
    rw [hstart] at hstarted
    cases hstarted
  rw [hstart] at hyields
  obtain ⟨c₀, t, bytes, k, m, ht, hs, hconn, hm⟩ := startRequest_sent env hstart
  obtain rfl : m = n := Nat.add_right_cancel (hm.symm.trans hyields)
  rw [ha, hb] at hconn
  have hsent := Conn.receives_started ht bytes (.ok k) a b
  rw [← hconn] at hsent
  have hwaits := Conn.receives_arrivals (hsent.transport.trans ht) c
  have hyield : (w'.yield env).toConn = w'.toConn.handleAll (arrivals c) := by
    rw [← hc, ← hyields]
    rfl
  rw [← hyield] at hwaits
  refine ⟨_, w', hcut, rfl, (c₀.beginRequest t).client, ?_, rfl, hs, rfl, rfl, rfl⟩
  rw [List.map_append]
  exact hsent.trans hwaits

/-- What `ExecuteOnce` returns once the head is sent and the wait is over. -/
theorem executeOnce_waited {request : RequestState} {w w' : World}
    (hstart : (w.withStreaming false).startRequest env request false = (.ok (), w')) :
    (w.executeOnce env request).1 =
      if (w'.yield env).client.parseFailed then .error (w'.yield env).failedError
      else if (w'.yield env).client.parser.isComplete = false then
        .error (if (w'.yield env).client.closed then
            ⟨.kConnectionLost, 0, "connection closed before the response was complete"⟩
          else ⟨.kTimeout, 0, "timed out waiting for the HTTP response"⟩)
      else
        .ok { (w'.yield env).client.response with
          statusCode := (w'.yield env).client.parser.statusCode
          headers := (w'.yield env).client.parser.headers.foldl (fun m h => m.set h.1 h.2)
            (w'.yield env).client.response.headers } := by
  have hstart' : ({ w with client := { w.client with streaming := false } } : World).startRequest env
      request false = (.ok (), w') := hstart
  unfold executeOnce
  dsimp only
  rw [hstart']
  dsimp only
  split
  · rfl
  · split <;> rfl

/-- `ExecuteOnce` returns the response of a head that ends itself. With any other head it fails, and not
as a lost connection does. -/
theorem executeOnce_head {request : RequestState} {w : World} {head : ResponseHead}
    (h : AnswersHead env request w head) :
    (head.EndsItself ∧ (w.executeOnce env request).1 = .ok head.response) ∨
      (¬head.EndsItself ∧
        ∃ e, (w.executeOnce env request).1 = .error e ∧ e.code ≠ .kConnectionLost) := by
  obtain ⟨pieces, w', hcut, hstart, client, hreceives, hparser, hs, hfailed, hclosed, hresponse⟩ :=
    receives_head env h
  rw [executeOnce_waited env hstart]
  generalize w'.yield env = v at hreceives
  obtain ⟨d, hdelivered, -, hbody⟩ := hreceives.body
  have hquiet := hreceives.quiet
  have herror := hreceives.failed
  have hafter := hreceives.parser
  have hopen : v.client.closed = false := hreceives.closed.trans hclosed
  rw [hparser] at hquiet herror hafter hdelivered
  obtain ⟨hends, hnone, hcomplete, htaken⟩ | ⟨hnot, hnone, hwaits⟩ | ⟨hnot, e, he, hone⟩ :=
    feedAll_endsItself head hcut
  · refine .inl ⟨hends, ?_⟩
    have hquiet := (hquiet hnone).1.trans hfailed
    rw [← hafter] at hcomplete htaken
    have hd : d = [] := hdelivered.symm.trans htaken.delivered
    have hdone : v.client.parser.isComplete = true := by simp [ParserCore.isComplete, hcomplete]
    have hresponse' : v.client.response = {} := by
      rw [hbody, hresponse, hs, hd]
      rfl
    have hmap : v.client.parser.headers.foldl (fun m h => HeaderMap.set h.1 h.2 m) [] =
        mapOf head.fields := by
      rw [htaken.headers]
      exact mapOf_ascending (ascends_mapOf head.fields)
    rw [if_neg (by simp [hquiet]), if_neg (by simp [hdone]), hresponse']
    exact congrArg Except.ok (by rw [hmap, htaken.statusCode]; rfl)
  · have hquiet := (hquiet hnone).1.trans hfailed
    have hwaiting : v.client.parser.isComplete = false := by
      rw [hafter]
      simpa [ParserCore.isComplete] using hwaits
    rw [if_neg (by simp [hquiet]), if_pos hwaiting, if_neg (by simp [hopen])]
    exact .inr ⟨hnot, _, rfl, by simp⟩
  · obtain ⟨hfailed, herror⟩ := herror e (by rw [hone]; rfl)
    rw [if_pos hfailed]
    refine .inr ⟨hnot, e, by rw [failedError, herror]; rfl, by rw [he]; simp⟩

/-- The response is the answer, because it leads nowhere or the client does not follow. -/
def Final (client : SoftwareHttpClient) (response : HttpResponse) : Prop :=
  isRedirectStatus response.statusCode = false ∨ client.followRedirects = false ∨
    client.maxRedirects = 0 ∨ redirectLocation response = []

instance (client : SoftwareHttpClient) (response : HttpResponse) :
    Decidable (Final client response) :=
  inferInstanceAs (Decidable (_ ∨ _))

omit [Target] in
theorem applyRedirect_final {response : HttpResponse} {w : World} (h : Final w.client response)
    (hop : ℕ) (request : RequestState) :
    (w.applyRedirect response hop request).1 = .ok none := by
  unfold applyRedirect
  split
  · rfl
  · split
    · rfl
    · rename_i hstatus hfollows
      obtain hstatus' | hoff | hzero | hnowhere := h
      · exact absurd hstatus' hstatus
      · exact absurd (.inl hoff) hfollows
      · exact absurd (.inr hzero) hfollows
      · rw [if_pos hnowhere]

/-- An attempt of a hop begins here: the first, or the second behind a first that has lost the
connection. -/
inductive Begins (request : RequestState) (w : World) : World → Prop
  | first : Begins request w w
  | second {e : NetworkError} {w' : World} (h : w.executeOnce env request = (.error e, w'))
      (hagain : methodIsRepeatable request.method = true ∧ e.code = .kConnectionLost) :
      Begins request w w'

theorem executeAttempt_head {request : RequestState} {w v : World} {head : ResponseHead}
    (hbegins : Begins env request w v) (h : AnswersHead env request v head) :
    (head.EndsItself ∧ (w.executeAttempt env request).1 = .ok head.response) ∨
      (¬head.EndsItself ∧ ∃ e, (w.executeAttempt env request).1 = .error e) := by
  have honce := executeOnce_head env h
  cases hbegins with
  | first =>
      unfold executeAttempt
      rcases hout : w.executeOnce env request with ⟨e | response, w'⟩ <;> rw [hout] at honce
      · obtain ⟨-, hok⟩ | ⟨hnot, e', heq, hcode⟩ := honce
        · cases hok
        · obtain rfl := Except.error.inj heq
          dsimp only
          rw [if_neg fun hagain => hcode hagain.2]
          exact .inr ⟨hnot, e, rfl⟩
      · obtain ⟨hends, hok⟩ | ⟨-, e, heq, -⟩ := honce
        · exact .inl ⟨hends, hok⟩
        · cases heq
  | second hlost hagain =>
      unfold executeAttempt
      rw [hlost]
      dsimp only
      rw [if_pos hagain]
      obtain hok | ⟨hnot, e, heq, -⟩ := honce
      · exact .inl hok
      · exact .inr ⟨hnot, e, heq⟩

omit [Target] in
theorem Final.of_same {c c' : SoftwareHttpClient} {response : HttpResponse} (h : SameSettings c c')
    (hfinal : Final c response) : Final c' response := by
  unfold Final at hfinal ⊢
  rwa [h.followRedirects, h.maxRedirects]

/-- A hop that is answered with a head has the response, or it fails. -/
theorem executeHop_head {request : RequestState} {w v : World} {head : ResponseHead}
    (hbegins : Begins env request w v) (h : AnswersHead env request v head)
    (hfinal : Final w.client head.response) (hop : ℕ) :
    (head.EndsItself ∧ (w.executeHop env hop request).1 = .ok (head.response, none)) ∨
      (¬head.EndsItself ∧ ∃ e, (w.executeHop env hop request).1 = .error e) := by
  have hsettings := (executeAttempt_tries env request w).settings
  have hattempt := executeAttempt_head env hbegins h
  unfold executeHop
  rcases hout : w.executeAttempt env request with ⟨e | response, w'⟩ <;>
    rw [hout] at hattempt hsettings
  · obtain ⟨-, hok⟩ | ⟨hnot, -⟩ := hattempt
    · cases hok
    · exact .inr ⟨hnot, e, rfl⟩
  · obtain ⟨hends, hok⟩ | ⟨-, e, heq⟩ := hattempt
    · obtain rfl := Except.ok.inj hok
      have hnext := applyRedirect_final (hfinal.of_same hsettings) hop request
      rcases hredirect : w'.applyRedirect head.response hop request with ⟨e | next, w''⟩ <;>
        rw [hredirect] at hnext
      · cases hnext
      · obtain rfl := Except.ok.inj hnext
        refine .inl ⟨hends, ?_⟩
        dsimp only
        rw [hredirect]
    · cases heq

/-- A request of `Execute` is a HEAD, or is answered with 204 or 304, and the server sends the head of
the answer and no body, and keeps the connection open. -/
structure AnswersBodyless (method url : Bytes) (w : World) (head : ResponseHead) (u : ParsedUrl)
    (hops : List Hop) (hop : Hop) (v : World) : Prop where
  parsed : parseUrl url = .ok u
  loop : Rounds.Loop (executeRound env) 0 (w.configured method u) w hops (w.execute env method url)
  visited : hop ∈ hops
  begins : Begins env hop.request hop.before v
  answers : AnswersHead env hop.request v head
  bodyless : hop.request.method = methodHead ∨ head.code = 204 ∨ head.code = 304
  final : Final w.client head.response

/-- `Execute` returns the response that has no body if and only if its head says a Content-Length of
zero and no chunked body. -/
theorem execute_bodyless_iff {method url : Bytes} {w : World} {head : ResponseHead} {u : ParsedUrl}
    {hops : List Hop} {hop : Hop} {v : World}
    (h : AnswersBodyless env method url w head u hops hop v) :
    (w.execute env method url).1 = .ok head.response ↔ head.EndsItself := by
  have hsettings : SameSettings w.client hop.before.client := by
    have hkeeps := h.loop.invariant (I := fun w' => SameSettings w.client w'.client)
      (fun n r w₁ result w₂ hround hw =>
        hw.trans ((executeRound_hopping env).tries _ _ _ _ _ hround).settings) .rfl
    exact (hkeeps.2 hop h.visited).1
  have hhop := executeHop_head env h.begins h.answers (h.final.of_same hsettings)
  obtain ⟨m, hout⟩ := h.loop.ends_at h.visited fun m response next heq => by
    obtain ⟨-, hok⟩ | ⟨-, e, herror⟩ := hhop m
    · cases heq.symm.trans hok
    · cases heq.symm.trans herror
  rw [hout]
  change (hop.before.executeHop env m hop.request).1.map Prod.fst = _ ↔ _
  obtain ⟨hends, hok⟩ | ⟨hnot, e, herror⟩ := hhop m
  · rw [hok]
    exact ⟨fun _ => hends, fun _ => rfl⟩
  · rw [herror]
    exact ⟨fun heq => absurd heq (by simp [Except.map]), fun hends => absurd hends hnot⟩

/-- The first request is answered at once. -/
theorem answersBodyless_first {method url : Bytes} {w : World} {head : ResponseHead} {u : ParsedUrl}
    (hurl : parseUrl url = .ok u) (h : AnswersHead env (w.configured method u) w head)
    (hbodyless : method = methodHead ∨ head.code = 204 ∨ head.code = 304)
    (hfinal : Final w.client head.response) :
    ∃ hops hop, AnswersBodyless env method url w head u hops hop w := by
  obtain ⟨e, herror, -⟩ | ⟨u', hops, hurl', hloop, -⟩ := execute_bounded env method url w
  · cases hurl.symm.trans herror
  · obtain rfl := Except.ok.inj (hurl.symm.trans hurl')
    obtain ⟨w', rest, rfl⟩ := hloop.head
    exact ⟨_, _, hurl, hloop, List.mem_cons_self, .first, h, hbodyless, hfinal⟩

end World

/-! ## Two answers -/

open World

/-- "HTTP/1.1 200 K" with a Content-Length of 0. -/
def emptyHead : ResponseHead where
  status := ascii ['H', 'T', 'T', 'P', '/', '1', '.', '1', ' ', '2', '0', '0', ' ', 'K']
  code := 200
  lines := [ascii ['C', 'o', 'n', 't', 'e', 'n', 't', '-', 'L', 'e', 'n', 'g', 't', 'h', ':', '0']]
  oneLine := by decide
  coded := by decide
  fieldLines := by
    intro l hl
    obtain rfl := List.mem_singleton.mp hl
    exact ⟨by decide, by decide, _, rfl, by decide⟩

/-- "HTTP/1.1 204 N" with no field. -/
def noContentHead : ResponseHead where
  status := ascii ['H', 'T', 'T', 'P', '/', '1', '.', '1', ' ', '2', '0', '4', ' ', 'N']
  code := 204
  lines := []
  oneLine := by decide
  coded := by decide
  fieldLines := by simp

/-- A server that sends a head behind the request. -/
def headEnv (head : ResponseHead) : Env := scripted [100] [(4, .data 1 head.bytes)]

theorem headEnv_answers [Target] (head : ResponseHead) (request : RequestState) :
    AnswersHead (headEnv head) request {} head where
  started := rfl
  arrives := ⟨[], [], [(1, head.bytes)], 2, rfl, rfl, rfl, rfl, by simp⟩

/-- A HEAD is answered with a Content-Length of zero. -/
theorem execute_bodyless_iff_head :
    letI := esp32
    (({} : World).execute (headEnv emptyHead) methodHead exampleUrl).1 = .ok emptyHead.response ↔
      emptyHead.EndsItself := by
  obtain ⟨hops, hop, h⟩ := @answersBodyless_first esp32 (headEnv emptyHead) methodHead exampleUrl {}
    emptyHead ⟨false, [104], 80, [slash]⟩ (by decide)
    (@headEnv_answers esp32 emptyHead _) (.inl rfl) (by decide)
  exact @execute_bodyless_iff esp32 _ _ _ _ _ _ _ _ _ h

/-- A GET is answered with a 204 that has no field, and `Execute` waits until it times out. -/
theorem noContent_times_out :
    letI := esp32
    (∃ hops hop, AnswersBodyless (headEnv noContentHead) methodGet exampleUrl {} noContentHead
        ⟨false, [104], 80, [slash]⟩ hops hop {}) ∧
      (({} : World).execute (headEnv noContentHead) methodGet exampleUrl).1 =
        .error ⟨.kTimeout, 0, "timed out waiting for the HTTP response"⟩ := by
  constructor
  · exact @answersBodyless_first esp32 (headEnv noContentHead) methodGet exampleUrl {} noContentHead
      ⟨false, [104], 80, [slash]⟩ (by decide) (@headEnv_answers esp32 noContentHead _)
      (.inr (.inl rfl)) (by decide)
  · decide +kernel

end EspModemLink.Http
