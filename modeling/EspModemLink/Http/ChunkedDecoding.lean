import EspModemLink.Http.ChunkedUpload
import EspModemLink.Http.ResponseLines

/-!
# Decoding what was chunked

A message is a chunked head, the chunks as `ChunkFrame` writes them, and the last chunk. Whatever
the chunks hold, whatever stands behind the message and however the whole is cut, the parser reads
the message, all of it and nothing more.
-/

namespace EspModemLink.Http

open Bytes AtParser Cutting

/-! ## Chunk sizes -/

theorem hexValue_eq (start : ℕ) (s : Bytes) :
    hexValue start s = (hexValues s).map fun ds => ds.foldl (fun n d => n * 16 + d) start := by
  induction s generalizing start with
  | nil => rfl
  | cons c s ih =>
      rw [hexValues_cons, hexValue]
      cases hc : hexCharToNibble c with
      | none => rfl
      | some d =>
          simp only [ih, Option.bind_some, Option.map_map]
          rfl

theorem hexValues_toHexString {n : ℕ} (h : n < 2 ^ 64) :
    ∃ ds, hexValues (toHexString n) = some ds ∧ Numerals.value 16 ds = n := by
  have hvalue := hexValue_toHexString h
  rw [hexValue_eq] at hvalue
  obtain ⟨ds, hds, hfold⟩ := Option.map_eq_some_iff.mp hvalue
  exact ⟨ds, hds, Numerals.foldl_eq_value ds ▸ hfold⟩

/-- What `ToHexString` writes are hex digits. -/
theorem isHex_toHexString {n : ℕ} (h : n < 2 ^ 64) {c : UInt8} (hc : c ∈ toHexString n) :
    (hexCharToNibble c).isSome = true := by
  obtain ⟨ds, hds, -⟩ := hexValues_toHexString h
  exact isSome_of_hexValues hds c hc

theorem lf_notMem_toHexString {n : ℕ} (h : n < 2 ^ 64) : lf ∉ toHexString n :=
  fun hm => absurd (isHex_toHexString h hm) (by decide)

theorem sizeField_toHexString {n : ℕ} (h : n < 2 ^ 64) :
    sizeField (toHexString n) = toHexString n := by
  have htrim : trim (toHexString n) = toHexString n := by
    refine trimBy_eq_self fun c hc => ?_
    by_contra hblank
    have hcases : c = space ∨ c = tab := by simpa [isBlank, or_iff_not_imp_left] using hblank
    have hhex := isHex_toHexString h hc
    obtain rfl | rfl := hcases <;> exact absurd hhex (by decide)
  have hsemi : findByte 59 (toHexString n) = none :=
    findByte_eq_none.mpr fun hm => absurd (isHex_toHexString h hm) (by decide)
  rw [sizeField, htrim, hsemi]

variable [Target]

/-- A `size_t` reads back as it was written. -/
theorem sizeRead_toHexString {n : ℕ} (h : n < 2 ^ 64) (hsize : n < 2 ^ Target.sizeBits) :
    sizeRead (toHexString n) = some n := by
  obtain ⟨ds, hds, hvalue⟩ := hexValues_toHexString h
  rw [sizeRead, sizeField_toHexString h, if_neg (toHexString_ne_nil n), chunkSizeValue_eq, hds,
    Option.map_some, Numerals.foldl_mod_eq_value, hvalue, Nat.mod_eq_of_lt hsize]

/-! ## Messages -/

/-- A byte string that a program can hold, with something in it. -/
structure Chunk where
  data : Bytes
  nonempty : data ≠ []
  fits : data.length < 2 ^ Target.sizeBits ∧ data.length < 2 ^ 64

/-- The lines of a head, with their endings, and the blank line. -/
def headOf (lines : List Bytes) : Bytes := lines.flatMap (· ++ crlf) ++ crlf

/-- A head whose lines end in CRLF and hold no bare LF, that the parser accepts, and that declares
its body chunked. -/
structure ReplyHead (onBody : Bool) where
  lines : List Bytes
  nonblank : ∀ l ∈ lines, l ≠ []
  noBareLf : ∀ l ∈ lines, lf ∉ l
  accepted : ((fresh onBody).feed (headOf lines)).1 = .ok (headOf lines).length
  declared : ((fresh onBody).feed (headOf lines)).2.chunked = true

/-- "0", CRLF, CRLF. -/
def lastChunk : Bytes := [48] ++ crlf ++ crlf

/-- The head, every chunk as `ChunkFrame` writes it, and the last chunk. -/
def chunkedMessage {onBody : Bool} (head : ReplyHead onBody) (chunks : List Chunk) : Bytes :=
  headOf head.lines ++ chunks.flatMap (fun c => World.chunkFrame c.data) ++ lastChunk

/-! ## One line, one chunk -/

variable {p p' : ParserCore} {es : List NetworkError} {l : Bytes} {n : ℕ}

/-- A line without an LF in it leads to what the state makes of it. -/
theorem leads_line (hreads : p.readsLine = true) (hl : lf ∉ l)
    (h : p.readLine l (l.length + 2) = (.ok n, p')) (t : Bytes) :
    parserReader.Leads BareFree (p, es) (l ++ crlf ++ t) (p', es) t := by
  have htake := takeLine_crlf hl t
  have hstep : p.feedState (l ++ crlf ++ t) = (.ok n, p') := by
    rw [ParserCore.feedState_of_readsLine hreads, htake]
    exact h
  obtain rfl := ParserCore.readLine_consumed h
  have hdrop : (l ++ crlf ++ t).drop (l.length + 2) = t := by
    rw [List.append_assoc, List.drop_append]
    simp [crlf]
  have hhalt : p.halted = false := by
    cases hs : p.state <;> simp [ParserCore.readsLine, ParserCore.halted, hs] at hreads ⊢
  refine .of_take hhalt ?_ ?_
  · intro line hline
    rw [ParserCore.lineAt, if_pos hreads, htake, Option.map_some] at hline
    rwa [← Option.some.inj hline]
  · rw [take_of_ok (by simp [crlf]) (by omega) hstep, hdrop]

/-- A line that is not accepted ends the reading with its error. -/
theorem leads_line_error {e : NetworkError} (hreads : p.readsLine = true) (hl : lf ∉ l)
    (h : p.readLine l (l.length + 2) = (.error e, p')) (t : Bytes) :
    parserReader.Leads BareFree (p, es) (l ++ crlf ++ t)
      ({ p' with state := .kError }, es ++ [e]) (l ++ crlf ++ t).tail := by
  have htake := takeLine_crlf hl t
  have hstep : p.feedState (l ++ crlf ++ t) = (.error e, p') := by
    rw [ParserCore.feedState_of_readsLine hreads, htake]
    exact h
  have hhalt : p.halted = false := by
    cases hs : p.state <;> simp [ParserCore.readsLine, ParserCore.halted, hs] at hreads ⊢
  refine .of_take hhalt ?_ (take_of_error (by simp [crlf]) hstep)
  intro line hline
  rw [ParserCore.lineAt, if_pos hreads, htake, Option.map_some] at hline
  rwa [← Option.some.inj hline]

theorem drain_line_error {e : NetworkError} (hreads : p.readsLine = true) (hl : lf ∉ l)
    (h : p.readLine l (l.length + 2) = (.error e, p')) (t : Bytes) :
    (parserReader.drain (p, es) (l ++ crlf ++ t)).1.2 = es ++ [e] := by
  rw [(leads_line_error hreads hl h t).drain, Reader.drain_of_halted rfl]

/-- A head that is read without an error leads to the end of its header block. -/
theorem leads_head {lines : List Bytes} (hs : p.state = .kStatusLine ∨ p.state = .kHeaders)
    (hne : ∀ l ∈ lines, l ≠ []) (hlf : ∀ l ∈ lines, lf ∉ l)
    (hok : (parserReader.drain (p, es) (headOf lines)).1.2 = es) :
    ∃ q : ParserCore, q.state = .kHeaders ∧ q.emitted = p.emitted ∧
      ∀ t, parserReader.Leads BareFree (p, es) (headOf lines ++ t) (q.endHeaders, es) t := by
  have hreads : p.readsLine = true := by obtain hs | hs := hs <;> simp [ParserCore.readsLine, hs]
  have hfailed : ∀ {e : NetworkError}, es ++ [e] ≠ es := by simp
  induction lines generalizing p with
  | nil =>
      have hhead : headOf [] = [] ++ crlf ++ [] := rfl
      obtain hs | hs := hs
      · -- A status line is not blank.
        have hread : p.readLine [] 2 = (ParserCore.protocolError "malformed HTTP status line", p) := by
          rw [ParserCore.readLine, hs]
          rfl
        rw [hhead, drain_line_error hreads (by simp) hread] at hok
        exact absurd hok hfailed
      · have hread : p.readLine [] 2 = (.ok 2, p.endHeaders) := by
          rw [ParserCore.readLine, hs]
          rfl
        exact ⟨p, hs, rfl, leads_line hreads (by simp) hread⟩
  | cons l lines ih =>
      obtain ⟨hl, hne⟩ := List.forall_mem_cons.mp hne
      obtain ⟨hfree, hlf⟩ := List.forall_mem_cons.mp hlf
      have hhead : ∀ t, headOf (l :: lines) ++ t = l ++ crlf ++ (headOf lines ++ t) := by
        simp [headOf]
      have hwhole := hhead []
      rw [List.append_nil, List.append_nil] at hwhole
      rcases hread : p.readLine l (l.length + 2) with ⟨e | n, p'⟩
      · rw [hwhole, drain_line_error hreads hfree hread] at hok
        exact absurd hok hfailed
      · have hnext : p'.state = .kHeaders := by
          have hdone := ParserCore.reads_of_readLine hreads hread
          obtain hs | hs := hs <;> rw [hs] at hdone
          · cases hdone
            rfl
          · cases hdone with
            | blank => exact absurd rfl hl
            | field hs => exact hs
        have hline : ∀ t, parserReader.Leads BareFree (p, es) (l ++ crlf ++ t) (p', es) t :=
          leads_line hreads hfree hread
        rw [hwhole, (hline _).drain] at hok
        obtain ⟨q, hq, hemitted, hleads⟩ := ih (.inr hnext) hne hlf hok
          (by simp [ParserCore.readsLine, hnext])
        refine ⟨q, hq, hemitted.trans (readLine_emitted hread), fun t => ?_⟩
        rw [hhead t]
        exact (hline _).trans (hleads t)

/-- A chunk that a program framed leads to the next size line, its bytes emitted. -/
theorem leads_chunk (es : List NetworkError) (hs : p.state = .kChunkSize) (c : Chunk) :
    ∃ q : ParserCore, q.state = .kChunkSize ∧ q.emitted = p.emitted ++ c.data ∧
      ∀ t, parserReader.Leads BareFree (p, es) (World.chunkFrame c.data ++ t) (q, es) t := by
  have hpos : c.data.length ≠ 0 := fun h => c.nonempty (List.eq_nil_of_length_eq_zero h)
  have hreads : p.readsLine = true := by simp [ParserCore.readsLine, hs]
  let p₁ : ParserCore := { p with chunkRemaining := c.data.length, state := .kChunkData }
  let p₂ : ParserCore := p₁.countChunk c.data
  have hstate : p₂.state = .kChunkDataEnd := by simp [p₂, p₁, ParserCore.countChunk]
  have hsize : p.readLine (toHexString c.data.length) ((toHexString c.data.length).length + 2) =
      (.ok ((toHexString c.data.length).length + 2), p₁) := by
    have hread := sizeRead_toHexString c.fits.2 c.fits.1
    obtain ⟨hnone, -⟩ | ⟨v, hv, heq⟩ := p.readChunkSize_cases (toHexString c.data.length)
      ((toHexString c.data.length).length + 2)
    · rw [hread] at hnone
      cases hnone
    · obtain rfl := Option.some.inj (hread.symm.trans hv)
      rw [ParserCore.readLine, hs]
      exact heq.trans (by rw [ParserCore.withSize, if_neg hpos])
  have hdata : ∀ t, parserReader.Leads BareFree (p₁, es) (c.data ++ (crlf ++ t)) (p₂, es)
      (crlf ++ t) := by
    intro t
    have hstep : p₁.feedState (c.data ++ (crlf ++ t)) = (.ok c.data.length, p₂) := by
      rw [ParserCore.feedState]
      change p₁.feedChunkData _ = _
      rw [ParserCore.feedChunkData_counted]
      simp [p₁, p₂]
    refine .of_take rfl (fun line hline => ?_) ?_
    · cases hline
    · rw [take_of_ok (by simp [crlf]) hpos hstep, List.drop_left]
  have hend : ∀ t, parserReader.Leads BareFree (p₂, es) (crlf ++ t)
      ({ p₂ with state := .kChunkSize }, es) t := by
    intro t
    have hstep : p₂.feedState (crlf ++ t) = (.ok 2, { p₂ with state := .kChunkSize }) := by
      rw [ParserCore.feedState, hstate]
      rfl
    refine .of_take ?_ (fun line hline => ?_) ?_
    · change p₂.halted = false
      simp [ParserCore.halted, hstate]
    · simp [ParserCore.lineAt, ParserCore.readsLine, hstate] at hline
    · rw [take_of_ok (by simp [crlf]) (by simp) hstep]
      rfl
  refine ⟨{ p₂ with state := .kChunkSize }, rfl, countChunk_emitted p₁ c.data, fun t => ?_⟩
  have hframe : World.chunkFrame c.data ++ t =
      toHexString c.data.length ++ crlf ++ (c.data ++ (crlf ++ t)) := by
    simp [World.chunkFrame]
  rw [hframe]
  exact ((leads_line hreads (lf_notMem_toHexString c.fits.2) hsize _).trans (hdata t)).trans (hend t)

theorem leads_chunks (es : List NetworkError) (hs : p.state = .kChunkSize) (chunks : List Chunk) :
    ∃ q : ParserCore, q.state = .kChunkSize ∧ q.emitted = p.emitted ++ chunks.flatMap Chunk.data ∧
      ∀ t, parserReader.Leads BareFree (p, es)
        (chunks.flatMap (fun c => World.chunkFrame c.data) ++ t) (q, es) t := by
  induction chunks generalizing p with
  | nil => exact ⟨p, hs, (List.append_nil _).symm, .refl _⟩
  | cons c chunks ih =>
      obtain ⟨q, hq, hemitted, hchunk⟩ := leads_chunk es hs c
      obtain ⟨r, hr, hmore, hchunks⟩ := ih hq
      refine ⟨r, hr, by rw [hmore, hemitted, List.flatMap_cons, List.append_assoc], fun t => ?_⟩
      rw [List.flatMap_cons, List.append_assoc]
      exact (hchunk _).trans (hchunks t)

/-- The last chunk leads to the end of the message. -/
theorem leads_lastChunk (hs : p.state = .kChunkSize) (t : Bytes) :
    parserReader.Leads BareFree (p, es) (lastChunk ++ t) ({ p with state := .kComplete }, es) t := by
  have hsize : p.readLine [48] 3 = (.ok 3, { p with state := .kChunkTrailer }) := by
    rw [ParserCore.readLine, hs]
    rfl
  have hblank : { p with state := .kChunkTrailer }.readLine [] 2 =
      (.ok 2, { p with state := .kComplete }) := rfl
  have hmessage : lastChunk ++ t = [48] ++ crlf ++ ([] ++ crlf ++ t) := by simp [lastChunk]
  rw [hmessage]
  exact (leads_line (by simp [ParserCore.readsLine, hs]) (by decide) hsize _).trans
    (leads_line rfl (by simp) hblank t)

/-! ## The whole message -/

/-- What an accepted head leads to. -/
theorem ReplyHead.leads {onBody : Bool} (head : ReplyHead onBody) :
    ∃ q : ParserCore, q.state = .kChunkSize ∧ q.emitted = [] ∧
      ∀ t, parserReader.Leads BareFree ((fresh onBody).toParserCore, []) (headOf head.lines ++ t)
        (q, []) t := by
  have hfeed : parserReader.feed (((fresh onBody).toParserCore, []), []) (headOf head.lines) = _ :=
    (feed_reader (fresh_settled onBody) (headOf head.lines)).1
  have hdrain : (parserReader.drain ((fresh onBody).toParserCore, []) (headOf head.lines)).1 =
      (((fresh onBody).feed (headOf head.lines)).2.toParserCore, []) := by
    have hfst := congrArg Prod.fst hfeed
    rw [head.accepted] at hfst
    rwa [Reader.feed, if_neg (by simp [parserReader, fresh, ParserCore.halted]), List.nil_append,
      Reader.settle_fst] at hfst
  have hok : (parserReader.drain ((fresh onBody).toParserCore, []) (headOf head.lines)).1.2 = [] :=
    congrArg Prod.snd hdrain
  obtain ⟨q, hq, hemitted, hleads⟩ := leads_head (.inl rfl) head.nonblank head.noBareLf hok
  have hend : q.endHeaders = ((fresh onBody).feed (headOf head.lines)).2.toParserCore := by
    have hsame := (hleads []).drain
    rw [List.append_nil, Reader.drain_nil] at hsame
    rw [hsame] at hdrain
    exact (Prod.mk.inj hdrain).1
  have hchunked : q.endHeaders.chunked = true := hend ▸ head.declared
  have hsize : q.endHeaders = { q with state := .kChunkSize } := by
    unfold ParserCore.endHeaders at hchunked ⊢
    split at hchunked
    · rename_i h
      rw [if_pos h]
    · rename_i h
      split at hchunked <;> exact absurd hchunked h
  refine ⟨q.endHeaders, by rw [hsize], ?_, hleads⟩
  have hstart : (fresh onBody).emitted = [] := by cases onBody <;> rfl
  rw [hsize]
  exact hemitted.trans hstart

/-- The parser halts right behind the message, and has emitted the chunks. -/
theorem ends_chunkedMessage {onBody : Bool} (head : ReplyHead onBody) (chunks : List Chunk) :
    ∃ q : ParserCore, q.state = .kComplete ∧ q.emitted = chunks.flatMap Chunk.data ∧
      parserReader.Ends BareFree ((fresh onBody).toParserCore, []) (chunkedMessage head chunks)
        (q, []) := by
  obtain ⟨q, hq, hnil, hhead⟩ := head.leads
  obtain ⟨r, hr, hemitted, hchunks⟩ := leads_chunks [] hq chunks
  refine ⟨{ r with state := .kComplete }, rfl, ?_, .of_leads rfl ?_ fun t => ?_⟩
  · rw [hnil] at hemitted
    exact hemitted
  · exact fun t line hline => by cases hline
  · rw [chunkedMessage, List.append_assoc, List.append_assoc]
    exact ((hhead _).trans (hchunks _)).trans (leads_lastChunk hr t)

/-- What the call of `Feed` returns that reads the end of a message. -/
theorem feed_consumed {q : HttpParser} (hq : Settled q) (hrun : q.halted = false) {piece rest : Bytes}
    (hdrain : parserReader.drain (q.toParserCore, es) (q.buffer ++ piece) = ((p, []), rest))
    (hle : rest.length ≤ piece.length) : (q.feed piece).1 = .ok (piece.length - rest.length) := by
  rw [Reader.drain] at hdrain
  obtain ⟨left, c, hloop, -, hreader⟩ | ⟨e, c, r, -, -, hreader⟩ :=
    feedLoop_drainFor (q.buffer ++ piece).length hq.counting
  · obtain ⟨-, rfl⟩ := Prod.mk.inj (hdrain.symm.trans hreader)
    rw [HttpParser.feed, if_neg (by simp [hrun])]
    dsimp only
    rw [hloop]
    refine congrArg Except.ok ?_
    rw [List.length_append]
    omega
  · have herrors := congrArg (fun x => x.1.2) (hdrain.symm.trans hreader)
    simp at herrors

/-- Decoding undoes encoding: however a chunked message and what stands behind it are cut, the
parser completes, it has emitted the concatenation of the chunks, and the call that completes
returns how many bytes of its piece belong to the message. -/
theorem chunked_roundTrip {onBody : Bool} (head : ReplyHead onBody) (chunks : List Chunk)
    {pieces : List Bytes} {trailing : Bytes}
    (hcut : pieces.flatten = chunkedMessage head chunks ++ trailing) :
    ((fresh onBody).feedAll pieces).2.state = .kComplete ∧
      reported ((fresh onBody).feedAll pieces).1 = [] ∧
      ((fresh onBody).feedAll pieces).2.emitted = chunks.flatMap Chunk.data ∧
      ∀ front piece back, pieces = front ++ piece :: back →
        let before := ((fresh onBody).feedAll front).2
        before.state ≠ .kComplete → (before.feed piece).2.state = .kComplete →
          ∃ n ≤ piece.length, (before.feed piece).1 = .ok n ∧
            front.flatten ++ piece.take n = chunkedMessage head chunks := by
  obtain ⟨q, hq, hemitted, hends⟩ := ends_chunkedMessage head chunks
  have hreader : ∀ pieces, parserReader.feedAll (((fresh onBody).toParserCore, []), []) pieces =
      ((((fresh onBody).feedAll pieces).2.toParserCore, reported ((fresh onBody).feedAll pieces).1),
        ((fresh onBody).feedAll pieces).2.buffer) :=
    feedAll_reader (fresh_settled onBody)
  have hall := hends.feedAll parserReader_resumes hcut
  rw [hreader] at hall
  have hcore : ((fresh onBody).feedAll pieces).2.toParserCore = q := congrArg (·.1.1) hall
  refine ⟨by rw [hcore, hq], congrArg (·.1.2) hall, by rw [hcore, hemitted], ?_⟩
  intro front piece back hpieces before hbefore hafter
  have hsettled : Settled before := feedAll_settled (fresh_settled onBody) front
  have hrun : before.halted = false := by
    by_contra hhalted
    have hhalted : before.halted = true := by simpa using hhalted
    rw [HttpParser.feed, if_pos hhalted] at hafter
    exact hbefore hafter
  have hstream : front.flatten ++ piece ++ back.flatten = chunkedMessage head chunks ++ trailing := by
    rw [← hcut, hpieces]
    simp
  have hpiece := (@feed_reader _ (reported ((fresh onBody).feedAll front).1) before hsettled piece).1
  obtain ⟨rest, hdrain, hle, hsplit⟩ := hends.completes parserReader_resumes hstream
    (by rw [hreader]; exact hrun)
    (by rw [hreader, hpiece]; simp [parserReader, ParserCore.halted, hafter])
  rw [hreader] at hdrain
  refine ⟨piece.length - rest.length, Nat.sub_le _ _, feed_consumed hsettled hrun hdrain hle, ?_⟩
  have hlength := congrArg List.length hsplit
  simp only [List.length_append] at hlength
  have htake : (front.flatten ++ piece).take (chunkedMessage head chunks).length =
      chunkedMessage head chunks := by rw [hsplit, List.take_left]
  rw [List.take_append, List.take_of_length_le (by omega)] at htake
  rw [← htake]
  congr 2
  omega

/-- "HTTP/1.1 200", "Transfer-Encoding: chunked". -/
def plainReplyHead : @ReplyHead esp32 false :=
  letI := esp32
  { lines :=
      [ascii ['H', 'T', 'T', 'P', '/', '1', '.', '1', ' ', '2', '0', '0'],
        ascii ['T', 'r', 'a', 'n', 's', 'f', 'e', 'r', '-', 'E', 'n', 'c', 'o', 'd', 'i', 'n', 'g',
          ':', ' ', 'c', 'h', 'u', 'n', 'k', 'e', 'd']]
    nonblank := by decide
    noBareLf := by decide
    accepted := by decide
    declared := by decide }

/-- A chunk that holds an ending line, and one of a single byte. -/
def framedLookalikes : List (@Chunk esp32) :=
  letI := esp32
  [⟨[13, 10, 48, 13, 10, 13, 10], by decide, by decide⟩, ⟨[65], by decide, by decide⟩]

omit [Target] in
/-- The message is cut inside the first chunk, and something stands behind it. -/
theorem chunked_roundTrip_lookalikes :
    letI := esp32
    let message := chunkedMessage plainReplyHead framedLookalikes
    ((fresh false).feedAll [message.take 50, message.drop 50 ++ [72, 84]]).2.state = .kComplete :=
  letI := esp32
  (chunked_roundTrip plainReplyHead framedLookalikes
    (show [(chunkedMessage plainReplyHead framedLookalikes).take 50,
        (chunkedMessage plainReplyHead framedLookalikes).drop 50 ++ [72, 84]].flatten =
      chunkedMessage plainReplyHead framedLookalikes ++ [72, 84] by decide)).1

end EspModemLink.Http
