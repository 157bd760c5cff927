import EspModemLink.Http.ClientSteps
import EspModemLink.Http.ParserCut

/-!
# What arrives of a response

Payload goes through the parser and from there to `Read` or into the response. Whatever the events of
several points are, the client ends as if the pieces had been fed one after another.
-/

namespace EspModemLink.Http

open Bytes AtParser

/-! ## What the parser hands out -/

namespace ParserCore
theorem emitBody_delivered (p : ParserCore) (d : Bytes) : p.delivered <+: (p.emitBody d).delivered := by
  cases hb : p.onBody <;> simp [emitBody, hb]

variable [Target]

theorem readLine_delivered (p : ParserCore) (line : Bytes) (consumed : ℕ) :
    (p.readLine line consumed).2.delivered = p.delivered := by
  unfold readLine
  split
  · unfold readStatusLine
    dsimp only
    repeat' split
    all_goals rfl
  · unfold readHeader endHeaders
    grind
  · unfold readChunkSize
    grind
  · unfold readChunkTrailer
    grind

theorem feedState_delivered (p : ParserCore) (data : Bytes) :
    p.delivered <+: (p.feedState data).2.delivered := by
  cases hline : p.readsLine with
  | true =>
      rw [feedState_of_readsLine hline]
      cases takeLine data with
      | none => exact List.prefix_refl _
      | some l => exact readLine_delivered p l.1 l.2 ▸ List.prefix_refl _
  | false =>
      cases hs : p.state <;> simp only [readsLine, hs, Bool.true_eq_false] at hline <;>
        simp only [feedState, hs]
      case kBody =>
        by_cases hopen : p.bodyRemaining = 0 ∧ p.hasContentLength = false
        · rw [feedBody_open hopen]
          exact emitBody_delivered p _
        · rw [feedBody_counted hopen]
          exact emitBody_delivered p _
      case kChunkData =>
        rw [feedChunkData_counted]
        exact emitBody_delivered p _
      case kChunkDataEnd =>
        unfold feedChunkDataEnd
        grind
      all_goals exact List.prefix_refl _

theorem feedLoop_delivered (n : ℕ) (p : ParserCore) (data : Bytes) :
    p.delivered <+: (p.feedLoop n data).2.delivered := by
  induction n generalizing p data with
  | zero => exact List.prefix_refl _
  | succ n ih =>
      have hstep := feedState_delivered p data
      rw [feedLoop]
      split
      · exact List.prefix_refl _
      · rcases hstate : p.feedState data with ⟨e | k, q⟩ <;> rw [hstate] at hstep
        · exact hstep
        · cases k with
          | zero => exact hstep
          | succ k => exact hstep.trans (ih q _)

end ParserCore

section

variable [Target]

/-- What was handed out stays handed out. -/
theorem HttpParser.feed_delivered (p : HttpParser) (piece : Bytes) :
    p.delivered <+: (p.feed piece).2.delivered := by
  rw [HttpParser.feed]
  split
  · exact List.prefix_refl _
  · have hloop := p.toParserCore.feedLoop_delivered (p.buffer ++ piece).length (p.buffer ++ piece)
    dsimp only
    split <;> rename_i heq <;> rw [heq] at hloop <;> exact hloop

/-- Pieces that are fed behind others. -/
theorem HttpParser.feedAll_append (p : HttpParser) (pieces more : List Bytes) :
    p.feedAll (pieces ++ more) = ((p.feedAll pieces).1 ++ ((p.feedAll pieces).2.feedAll more).1,
      ((p.feedAll pieces).2.feedAll more).2) := by
  induction pieces generalizing p with
  | nil => rfl
  | cons piece pieces ih =>
      rw [List.cons_append, HttpParser.feedAll, HttpParser.feedAll]
      dsimp only
      rw [ih, List.cons_append]

/-- A parser that is done reports nothing. -/
theorem HttpParser.feed_of_complete {p : HttpParser} (h : p.isComplete = true) (piece : Bytes) :
    p.feed piece = (.ok 0, p) := by
  have hs : p.state = .kComplete := by simpa [ParserCore.isComplete] using h
  rw [HttpParser.feed, if_pos (by simp [ParserCore.halted, hs])]

end

/-! ## What the client makes of it -/

/-- Payload in pieces, each with the request that the server answers. -/
def arrivals (pieces : List (ℕ × Bytes)) : List Event := pieces.map fun e => .data e.1 e.2

namespace Conn

variable [Target]

/-- What a client makes of pieces: they go through its parser, what that hands out goes to one side or
the other, and an error is kept. -/
structure Receives (client : SoftwareHttpClient) (pieces : List Bytes)
    (client' : SoftwareHttpClient) : Prop where
  transport : client'.transport = client.transport
  keepAlive : client'.keepAlive = client.keepAlive
  streaming : client'.streaming = client.streaming
  closed : client'.closed = client.closed
  parser : client'.parser = (client.parser.feedAll pieces).2
  body : ∃ d, client'.parser.delivered = client.parser.delivered ++ d ∧
    client'.pending = client.pending ++ (if client.streaming then d else []) ∧
    client'.response = { client.response with
      body := client.response.body ++ if client.streaming then [] else d }
  quiet : reported (client.parser.feedAll pieces).1 = [] →
    client'.parseFailed = client.parseFailed ∧ client'.parseError = client.parseError
  failed : ∀ e, (reported (client.parser.feedAll pieces).1).getLast? = some e →
    client'.parseFailed = true ∧ client'.parseError = some e

section

variable {client client' client'' : SoftwareHttpClient} {pieces more : List Bytes}

theorem Receives.refl (client : SoftwareHttpClient) : Receives client [] client :=
  ⟨rfl, rfl, rfl, rfl, rfl, ⟨[], by simp⟩, fun _ => ⟨rfl, rfl⟩,
    by simp [HttpParser.feedAll, reported]⟩

theorem Receives.trans (h : Receives client pieces client') (h' : Receives client' more client'') :
    Receives client (pieces ++ more) client'' := by
  obtain ⟨d, hd, hpending, hresponse⟩ := h.body
  obtain ⟨d', hd', hpending', hresponse'⟩ := h'.body
  have hquiet := h'.quiet
  have hfailed := h'.failed
  rw [h.parser] at hquiet hfailed
  have hreported : reported (client.parser.feedAll (pieces ++ more)).1 =
      reported (client.parser.feedAll pieces).1 ++
        reported ((client.parser.feedAll pieces).2.feedAll more).1 := by
    rw [HttpParser.feedAll_append]
    exact List.filterMap_append ..
  refine ⟨h'.transport.trans h.transport, h'.keepAlive.trans h.keepAlive,
    h'.streaming.trans h.streaming, h'.closed.trans h.closed, ?_, ⟨d ++ d', ?_, ?_, ?_⟩, ?_, ?_⟩
  · rw [h'.parser, h.parser, HttpParser.feedAll_append]
  · rw [hd', hd, List.append_assoc]
  · rw [hpending', hpending, h.streaming]
    cases client.streaming <;> simp
  · rw [hresponse', hresponse, h.streaming]
    cases client.streaming <;> simp
  · intro hnone
    rw [hreported, List.append_eq_nil_iff] at hnone
    obtain ⟨hfailed₁, herror₁⟩ := h.quiet hnone.1
    obtain ⟨hfailed₂, herror₂⟩ := hquiet hnone.2
    exact ⟨hfailed₂.trans hfailed₁, herror₂.trans herror₁⟩
  · intro e he
    rw [hreported] at he
    by_cases hmore : reported ((client.parser.feedAll pieces).2.feedAll more).1 = []
    · rw [hmore, List.append_nil] at he
      obtain ⟨hfailed₁, herror₁⟩ := h.failed e he
      obtain ⟨hfailed₂, herror₂⟩ := hquiet hmore
      exact ⟨hfailed₂.trans hfailed₁, herror₂.trans herror₁⟩
    · rw [List.getLast?_append_of_ne_nil _ hmore] at he
      exact hfailed e he

omit [Target] in
theorem handleBody_eq (client : SoftwareHttpClient) (d : Bytes) :
    handleBody client d = { client with
      pending := client.pending ++ (if client.streaming then d else [])
      response := { client.response with
        body := client.response.body ++ if client.streaming then [] else d } } := by
  unfold handleBody
  split <;> rw [List.append_nil]

theorem receives_feed (client : SoftwareHttpClient) (piece : Bytes) :
    Receives client [piece] (feedParser client piece) := by
  obtain ⟨d, hd⟩ := client.parser.feed_delivered piece
  have hall : client.parser.feedAll [piece] =
      ([(client.parser.feed piece).1], (client.parser.feed piece).2) := rfl
  unfold feedParser
  rcases hfeed : client.parser.feed piece with ⟨result, parser⟩
  rw [hfeed] at hall hd
  have hnew : parser.delivered.drop client.parser.delivered.length = d := by
    rw [← hd, List.drop_left]
  dsimp only
  rw [hnew, handleBody_eq]
  cases result with
  | ok n =>
      exact ⟨rfl, rfl, rfl, rfl, by rw [hall], ⟨d, hd.symm, rfl, rfl⟩, fun _ => ⟨rfl, rfl⟩,
        by simp [hall, reported]⟩
  | error e =>
      exact ⟨rfl, rfl, rfl, rfl, by rw [hall], ⟨d, hd.symm, rfl, rfl⟩, by simp [hall, reported],
        by simp [hall, reported]⟩

end

theorem receives_data {c : Conn} {t : ℕ} (ht : c.client.transport = some t) (k : ℕ)
    (piece : Bytes) : Receives c.client [piece] (c.handle (.data k piece)).client := by
  have hhandle : c.handle (.data k piece) = c.onTransportData t k piece := by rw [handle, ht]
  rw [hhandle, onTransportData]
  split
  · rename_i hcomplete
    have hall : c.client.parser.feedAll [piece] = ([.ok 0], c.client.parser) := by
      rw [HttpParser.feedAll, HttpParser.feed_of_complete hcomplete]
      rfl
    exact ⟨rfl, rfl, rfl, rfl, by rw [hall]; rfl, ⟨[], by simp⟩, fun _ => ⟨rfl, rfl⟩,
      by simp [hall, reported]⟩
  · exact receives_feed c.client piece

theorem handle_streaming (c : Conn) (e : Event) :
    (c.handle e).client.streaming = c.client.streaming := by
  cases ht : c.client.transport with
  | none => rw [handle, ht]
  | some t =>
      cases e with
      | data k bytes => exact (receives_data ht k bytes).streaming
      | closed | error e =>
          rw [handle, ht]
          rfl

theorem handleAll_streaming (c : Conn) (es : List Event) :
    (c.handleAll es).client.streaming = c.client.streaming := by
  induction es generalizing c with
  | nil => rfl
  | cons e es ih => exact (ih (c.handle e)).trans (handle_streaming c e)

theorem receives_arrivals {c : Conn} {t : ℕ} (ht : c.client.transport = some t)
    (pieces : List (ℕ × Bytes)) :
    Receives c.client (pieces.map Prod.snd) (c.handleAll (arrivals pieces)).client := by
  induction pieces generalizing c with
  | nil => exact .refl c.client
  | cons e pieces ih =>
      have hfirst := receives_data ht e.1 e.2
      exact hfirst.trans (ih (hfirst.transport.trans ht))

/-- A request makes the client ready for the pieces that arrive before and during its `Send`. -/
theorem receives_started {c : Conn} {t : ℕ} (ht : c.client.transport = some t) (bytes : Bytes)
    (outcome : Result ℕ) (before during : List (ℕ × Bytes)) :
    Receives (c.beginRequest t).client ((before ++ during).map Prod.snd)
      (c.started t (arrivals before) bytes outcome (arrivals during)).client := by
  have hbegan : (c.beginRequest t).client.transport = some t := ht
  have hfirst := receives_arrivals hbegan before
  rw [List.map_append]
  exact hfirst.trans (receives_arrivals (c := ((c.beginRequest t).handleAll (arrivals before)).log _)
    (hfirst.transport.trans hbegan) during)

end Conn

end EspModemLink.Http
