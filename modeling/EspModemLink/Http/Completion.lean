import EspModemLink.Http.ResponseLines

/-!
# When a response is complete

`kComplete` is reached behind the blank line of a chunked trailer, behind the last byte of an
announced length, or by a `Finish` behind the head of a response that announced neither.
-/

namespace EspModemLink.Http

open Bytes AtParser

/-- The blank line that ends the head. -/
def headEnd : Intake := .line .kHeaders []

/-- The blank line that ends the trailer. -/
def trailerEnd : Intake := .line .kChunkTrailer []

/-- A status line and the blank line behind it have been read. -/
def HeadRead (h : List Intake) : Prop := ∃ s, [.line .kStatusLine s, headEnd].Sublist h

section

variable [Target]

/-- The response is chunked, and behind its head a chunk-size line that evaluates to zero and the
blank line that ends the trailer were read. -/
def EndedByChunks (h : List Intake) (p : ParserCore) : Prop :=
  p.chunked = true ∧ ∃ s size, sizeRead size = some 0 ∧
    [.line .kStatusLine s, headEnd, .line .kChunkSize size, trailerEnd].Sublist h

/-- The response is not chunked, and behind its head as many bytes as it announced were emitted. -/
def EndedByLength (h : List Intake) (p : ParserCore) : Prop :=
  p.chunked = false ∧ p.hasContentLength = true ∧ HeadRead h ∧ p.emitted.length = p.contentLength

/-- The response announced nothing, and `Finish` was called behind its head. -/
def EndedByClose (h : List Intake) (p : ParserCore) : Prop :=
  p.chunked = false ∧ p.hasContentLength = false ∧
    ∃ s, [.line .kStatusLine s, headEnd, .finish].Sublist h

/-- How far a response has been read, state by state. -/
def ReadSoFar (h : List Intake) (p : ParserCore) : Prop :=
  match p.state with
  | .kStatusLine => p.emitted = []
  | .kHeaders => p.emitted = [] ∧ ∃ s, [.line .kStatusLine s].Sublist h
  | .kBody => HeadRead h ∧ p.chunked = false ∧
      (p.hasContentLength = true → p.emitted.length + p.bodyRemaining = p.contentLength) ∧
      (p.hasContentLength = false → p.bodyRemaining = 0)
  | .kChunkSize | .kChunkData | .kChunkDataEnd => HeadRead h ∧ p.chunked = true
  | .kChunkTrailer => p.chunked = true ∧ ∃ s size, sizeRead size = some 0 ∧
      [.line .kStatusLine s, headEnd, .line .kChunkSize size].Sublist h
  | .kComplete => EndedByChunks h p ∨ EndedByLength h p ∨ EndedByClose h p
  | .kError => True

omit [Target] in
/-- What was read stays read. -/
theorem sublist_snoc {front h : List Intake} {i : Intake} (hsub : front.Sublist h) :
    (front ++ [i]).Sublist (h ++ [i]) := hsub.append (List.Sublist.refl _)

omit [Target] in
theorem HeadRead.mono {h : List Intake} (hread : HeadRead h) (more : List Intake) :
    HeadRead (h ++ more) := by
  obtain ⟨s, hs⟩ := hread
  exact ⟨s, hs.trans (List.sublist_append_left h more)⟩

variable {h : List Intake} {p p' : ParserCore} {i : Intake} {s : ParserState} {l : Bytes}

/-- The end of the head decides how the body will end. -/
theorem readSoFar_endHeaders (hs : p.state = .kHeaders) (hread : ReadSoFar h p) :
    ReadSoFar (h ++ [headEnd]) p.endHeaders := by
  rw [ReadSoFar, hs] at hread
  obtain ⟨hnil, first, hfirst⟩ := hread
  have hhead : HeadRead (h ++ [headEnd]) := ⟨first, sublist_snoc hfirst⟩
  unfold ParserCore.endHeaders
  split
  · rename_i hchunked
    exact ⟨hhead, hchunked⟩
  · rename_i hchunked
    have hplain : p.chunked = false := by simpa using hchunked
    split
    · rename_i hlength
      by_cases hzero : p.contentLength = 0
      · rw [ReadSoFar]
        simp only [hzero, if_true]
        refine .inr (.inl ⟨hplain, hlength, hhead, ?_⟩)
        change p.emitted.length = 0
        rw [hnil, List.length_nil]
      · rw [ReadSoFar]
        simp only [hzero, if_false]
        refine ⟨hhead, hplain, fun _ => ?_, fun hnone => absurd (hlength.symm.trans hnone) (by simp)⟩
        change p.emitted.length + p.contentLength = p.contentLength
        rw [hnil, List.length_nil, Nat.zero_add]
    · rename_i hlength
      exact ⟨hhead, hplain, fun h => absurd h hlength, fun _ => rfl⟩

theorem readSoFar_line (hreads : p.Reads s l p') (hread : ReadSoFar h p) :
    ReadSoFar (h ++ [.line s l]) p' := by
  cases hreads with
  | status hs =>
      rw [ReadSoFar, hs] at hread
      exact ⟨hread, l, List.sublist_append_right h _⟩
  | blank hs => exact readSoFar_endHeaders hs hread
  | field hs hne hf hlength =>
      rename_i f
      rw [ReadSoFar, hs] at hread
      obtain ⟨hnil, first, hfirst⟩ := hread
      have hstate : (p.withField f).state = .kHeaders := hs
      rw [ReadSoFar, hstate]
      exact ⟨hnil, first, hfirst.trans (List.sublist_append_left h _)⟩
  | size hs hv =>
      rename_i v
      rw [ReadSoFar, hs] at hread
      obtain ⟨⟨first, hfirst⟩, hchunked⟩ := hread
      unfold ParserCore.withSize
      split
      · rename_i hzero
        exact ⟨hchunked, first, l, hzero ▸ hv, sublist_snoc hfirst⟩
      · exact ⟨⟨first, hfirst.trans (List.sublist_append_left h _)⟩, hchunked⟩
  | trailer hs =>
      rw [ReadSoFar, hs] at hread
      obtain ⟨hchunked, first, size, hsize, hsub⟩ := hread
      split
      · rename_i hblank
        exact .inl ⟨hchunked, first, size, hsize, hblank ▸ sublist_snoc hsub⟩
      · rw [ReadSoFar, hs]
        exact ⟨hchunked, first, size, hsize, hsub.trans (List.sublist_append_left h _)⟩

omit [Target] in
/-- A state that only grows its history. -/
theorem EndedByLength.of_countBody {d : Bytes} (hhead : HeadRead h) (hplain : p.chunked = false)
    (hlength : p.hasContentLength = true)
    (hcount : p.emitted.length + p.bodyRemaining = p.contentLength)
    (hlast : p.bodyRemaining = d.length) : EndedByLength h (p.countBody d) := by
  refine ⟨?_, ?_, hhead, ?_⟩
  · cases hb : p.onBody <;> simpa [ParserCore.countBody, ParserCore.emitBody, hb] using hplain
  · simpa [ParserCore.countBody] using hlength
  · have hemitted := congrArg List.length (countBody_emitted p d)
    have hannounced : (p.countBody d).contentLength = p.contentLength := by
      cases hb : p.onBody <;> simp [ParserCore.countBody, ParserCore.emitBody, hb]
    rw [List.length_append] at hemitted
    omega

omit [Target] in
@[simp] theorem emitBody_chunked (p : ParserCore) (d : Bytes) :
    (p.emitBody d).chunked = p.chunked := by
  cases hb : p.onBody <;> simp [ParserCore.emitBody, hb]

omit [Target] in
@[simp] theorem emitBody_contentLength (p : ParserCore) (d : Bytes) :
    (p.emitBody d).contentLength = p.contentLength := by
  cases hb : p.onBody <;> simp [ParserCore.emitBody, hb]

theorem readSoFar_countBody {d : Bytes} (hs : p.state = .kBody)
    (ho : ¬(p.bodyRemaining = 0 ∧ p.hasContentLength = false))
    (hle : d.length ≤ p.bodyRemaining) (hread : ReadSoFar h p) :
    ReadSoFar (h ++ [.bytes .kBody d]) (p.countBody d) := by
  rw [ReadSoFar, hs] at hread
  obtain ⟨hhead, hplain, hcount, hopen⟩ := hread
  have hlength : p.hasContentLength = true := by
    by_contra hnone
    have hfalse : p.hasContentLength = false := by simpa using hnone
    exact ho ⟨hopen hfalse, hfalse⟩
  by_cases hlast : p.bodyRemaining - d.length = 0
  · have hstate : (p.countBody d).state = .kComplete := by simp [ParserCore.countBody, hlast]
    rw [ReadSoFar, hstate]
    exact .inr (.inl (.of_countBody (hhead.mono _) hplain hlength (hcount hlength) (by omega)))
  · have hstate : (p.countBody d).state = .kBody := by simp [ParserCore.countBody, hlast, hs]
    have hkeeps : (p.countBody d).hasContentLength = true := by
      simpa [ParserCore.countBody] using hlength
    rw [ReadSoFar, hstate]
    refine ⟨hhead.mono _, ?_, fun _ => ?_, fun hnone => ?_⟩
    · simpa [ParserCore.countBody] using hplain
    · have hall := hcount hlength
      rw [countBody_emitted, List.length_append]
      simp only [ParserCore.countBody, emitBody_contentLength]
      omega
    · rw [hkeeps] at hnone
      cases hnone

/-- A longer history says no less. -/
theorem ReadSoFar.mono (hread : ReadSoFar h p) (more : List Intake) : ReadSoFar (h ++ more) p := by
  have hsub : ∀ {front : List Intake}, front.Sublist h → front.Sublist (h ++ more) :=
    fun hfront => hfront.trans (List.sublist_append_left h more)
  cases hs : p.state <;> rw [ReadSoFar, hs] at hread ⊢
  case kStatusLine => exact hread
  case kHeaders => exact hread.imp id fun ⟨s, hfirst⟩ => ⟨s, hsub hfirst⟩
  case kBody => exact ⟨hread.1.mono more, hread.2⟩
  case kChunkSize => exact ⟨hread.1.mono more, hread.2⟩
  case kChunkData => exact ⟨hread.1.mono more, hread.2⟩
  case kChunkDataEnd => exact ⟨hread.1.mono more, hread.2⟩
  case kChunkTrailer =>
    obtain ⟨hchunked, s, size, hsize, hlines⟩ := hread
    exact ⟨hchunked, s, size, hsize, hsub hlines⟩
  case kComplete =>
    obtain ⟨hchunked, s, size, hsize, hlines⟩ | ⟨hplain, hlength, hhead, hcount⟩ |
      ⟨hplain, hnone, s, hlines⟩ := hread
    · exact .inl ⟨hchunked, s, size, hsize, hsub hlines⟩
    · exact .inr (.inl ⟨hplain, hlength, hhead.mono more, hcount⟩)
    · exact .inr (.inr ⟨hplain, hnone, s, hsub hlines⟩)
  case kError => trivial

theorem readSoFar_pass (hread : ReadSoFar h p) (hpass : Pass p i p') : ReadSoFar (h ++ [i]) p' := by
  cases hpass with
  | line reads hline => exact readSoFar_line (ParserCore.reads_of_readLine reads hline) hread
  | openBody hs ho =>
      rename_i d
      rw [ReadSoFar, hs] at hread
      obtain ⟨hhead, hplain, -, -⟩ := hread
      have hstate : (p.emitBody d).state = .kBody := by simpa using hs
      rw [ReadSoFar, hstate]
      refine ⟨hhead.mono _, by simpa using hplain, fun hlength => ?_, fun _ => by simpa using ho.1⟩
      rw [ParserCore.emitBody_hasContentLength, ho.2] at hlength
      cases hlength
  | countedBody hs ho hle => exact readSoFar_countBody hs ho hle hread
  | chunk hs hle =>
      rename_i d
      rw [ReadSoFar, hs] at hread
      have hchunked : (p.countChunk d).chunked = true := by
        simpa [ParserCore.countChunk] using hread.2
      by_cases hlast : p.chunkRemaining - d.length = 0
      · have hstate : (p.countChunk d).state = .kChunkDataEnd := by
          simp [ParserCore.countChunk, hlast]
        rw [ReadSoFar, hstate]
        exact ⟨hread.1.mono _, hchunked⟩
      · have hstate : (p.countChunk d).state = .kChunkData := by
          simp [ParserCore.countChunk, hlast, hs]
        rw [ReadSoFar, hstate]
        exact ⟨hread.1.mono _, hchunked⟩
  | chunkEnd hs =>
      rw [ReadSoFar, hs] at hread
      exact ⟨hread.1.mono _, hread.2⟩
  | finish =>
      obtain ⟨hs, hnone, hplain, heq⟩ | ⟨-, heq⟩ := finish_cases p
      · rw [ReadSoFar, hs] at hread
        obtain ⟨⟨s, hlines⟩, -⟩ := hread
        rw [heq]
        exact .inr (.inr ⟨hplain, hnone, s, sublist_snoc hlines⟩)
      · rw [heq]
        exact hread.mono _

theorem readSoFar_after (onBody : Bool) (calls : List ParserCall) :
    ReadSoFar ((fresh onBody).history calls) ((fresh onBody).after calls).toParserCore := by
  have hstart : ReadSoFar [] (fresh onBody).toParserCore := by cases onBody <;> rfl
  refine history_induction (I := ReadSoFar) (fun _ _ _ _ => readSoFar_pass) ?_
    (fresh_settled onBody).counting hstart calls
  intro h p p' _ hfails
  rw [ReadSoFar, hfails.failed]
  trivial

/-- For every stream, every cut into calls of `Feed` and every position of calls of `Finish`: a
parser that is in `kComplete` ended in exactly one of the three ways, and once it is in `kComplete`
or `kError` no further call changes anything. -/
theorem complete_endedOnce (onBody : Bool) (calls : List ParserCall) :
    let h := (fresh onBody).history calls
    let p := (fresh onBody).after calls
    (p.state = .kComplete →
      HeadRead h ∧
      ((EndedByChunks h p.toParserCore ∧ ¬EndedByLength h p.toParserCore ∧
          ¬EndedByClose h p.toParserCore) ∨
        (¬EndedByChunks h p.toParserCore ∧ EndedByLength h p.toParserCore ∧
          ¬EndedByClose h p.toParserCore) ∨
        (¬EndedByChunks h p.toParserCore ∧ ¬EndedByLength h p.toParserCore ∧
          EndedByClose h p.toParserCore))) ∧
    (p.state = .kComplete ∨ p.state = .kError →
      ∀ more, (fresh onBody).after (calls ++ more) = p) := by
  intro h p
  constructor
  · intro hs
    have hread : ReadSoFar h p.toParserCore := readSoFar_after onBody calls
    rw [ReadSoFar, hs] at hread
    obtain hchunks | hlength | hclose := hread
    · refine ⟨?_, .inl ⟨hchunks, ?_, ?_⟩⟩
      · obtain ⟨-, s, size, -, hlines⟩ := hchunks
        exact ⟨s, List.Sublist.trans (by simp) hlines⟩
      · exact fun hother => absurd (hchunks.1.symm.trans hother.1) (by simp)
      · exact fun hother => absurd (hchunks.1.symm.trans hother.1) (by simp)
    · refine ⟨hlength.2.2.1, .inr (.inl ⟨?_, hlength, ?_⟩)⟩
      · exact fun hother => absurd (hother.1.symm.trans hlength.1) (by simp)
      · exact fun hother => absurd (hlength.2.1.symm.trans hother.2.1) (by simp)
    · refine ⟨?_, .inr (.inr ⟨?_, ?_, hclose⟩)⟩
      · obtain ⟨-, -, s, hlines⟩ := hclose
        exact ⟨s, List.Sublist.trans (by simp) hlines⟩
      · exact fun hother => absurd (hother.1.symm.trans hclose.1) (by simp)
      · exact fun hother => absurd (hother.2.1.symm.trans hclose.2.1) (by simp)
  · intro hs more
    have hhalted : p.halted = true := by simpa [ParserCore.halted] using hs
    rw [HttpParser.after_append, HttpParser.after_of_halted hhalted]

end

end EspModemLink.Http
