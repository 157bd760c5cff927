import EspModemLink.Http.ParserCut

/-!
# What a parser has read

Every pass of the loop of `Feed` takes a line or some bytes off the stream. The history of a parser
is the list of these, with the calls of `Finish` among them. Whatever a pass keeps holds of the
history and the parser however the stream was cut and whenever `Finish` was called.
-/

namespace EspModemLink.Http

open Bytes AtParser

/-! ## Histories -/

/-- What a pass of the loop of `Feed` took in a state: a line without its ending, or bytes. -/
inductive Intake where
  | line (state : ParserState) (line : Bytes)
  | bytes (state : ParserState) (data : Bytes)
  | finish
deriving DecidableEq

/-- The calls that read a response. -/
inductive ParserCall where
  | feed (piece : Bytes)
  | finish
deriving DecidableEq

namespace ParserCore

/-- What a pass takes that consumes `n` bytes. -/
def intake (p : ParserCore) (rest : Bytes) (n : ℕ) : Intake :=
  match p.lineAt rest with
  | some line => .line p.state line
  | none => .bytes p.state (rest.take n)

/-- What the passes of `feedLoop` take. -/
def intakes [Target] : ℕ → ParserCore → Bytes → List Intake
  | 0, _, _ => []
  | n + 1, p, rest =>
      if rest = [] ∨ p.halted = true then []
      else
        match p.feedState rest with
        | (.ok (k + 1), p') => p.intake rest (k + 1) :: intakes n p' (rest.drop (k + 1))
        | _ => []

/-- The bytes that have been handed out as the body. -/
def emitted (p : ParserCore) : Bytes := if p.onBody then p.delivered else p.body

@[simp] theorem emitBody_emitted (p : ParserCore) (d : Bytes) :
    (p.emitBody d).emitted = p.emitted ++ d := by
  cases h : p.onBody <;> simp [emitBody, emitted, h]

end ParserCore

namespace HttpParser

variable [Target]

/-- One call. -/
def call (p : HttpParser) : ParserCall → HttpParser
  | .feed piece => (p.feed piece).2
  | .finish => { p with toParserCore := p.finish }

/-- The parser behind a list of calls. -/
def after (p : HttpParser) (calls : List ParserCall) : HttpParser := calls.foldl call p

/-- What one call takes. -/
def taken (p : HttpParser) : ParserCall → List Intake
  | .feed piece =>
      if p.halted then []
      else p.toParserCore.intakes (p.buffer ++ piece).length (p.buffer ++ piece)
  | .finish => [.finish]

/-- What a list of calls takes. -/
def history : HttpParser → List ParserCall → List Intake
  | _, [] => []
  | p, c :: calls => p.taken c ++ (p.call c).history calls

theorem after_append (p : HttpParser) (calls more : List ParserCall) :
    p.after (calls ++ more) = (p.after calls).after more := List.foldl_append

theorem feed_core {p : HttpParser} (h : ¬p.halted = true) (piece : Bytes) :
    (p.feed piece).2.toParserCore =
      (p.feedLoop (p.buffer ++ piece).length (p.buffer ++ piece)).2 := by
  rw [feed, if_neg h]
  dsimp only
  split
  · rename_i hloop
    rw [hloop]
  · rename_i hloop
    rw [hloop]

/-- A parser that is done ignores further calls. -/
theorem call_of_halted {p : HttpParser} (h : p.halted = true) (c : ParserCall) : p.call c = p := by
  cases c with
  | feed piece => simp [call, feed, h]
  | finish =>
      have hbody : p.state ≠ .kBody := by
        rintro hs
        simp [ParserCore.halted, hs] at h
      rw [call, ParserCore.finish, if_neg fun hs => hbody hs.1]

theorem after_of_halted {p : HttpParser} (h : p.halted = true) (calls : List ParserCall) :
    p.after calls = p := by
  induction calls with
  | nil => rfl
  | cons c calls ih =>
      change (p.call c).after calls = p
      rw [call_of_halted h, ih]

end HttpParser

/-! ## One pass -/

/-- `Finish` ends a response only behind a head that announced nothing. -/
theorem finish_cases (p : ParserCore) :
    (p.state = .kBody ∧ p.hasContentLength = false ∧ p.chunked = false ∧
      p.finish = { p with state := .kComplete }) ∨
    (¬(p.state = .kBody ∧ p.hasContentLength = false ∧ p.chunked = false) ∧ p.finish = p) := by
  by_cases hclose : p.state = .kBody ∧ p.hasContentLength = false ∧ p.chunked = false
  · exact .inl ⟨hclose.1, hclose.2.1, hclose.2.2, if_pos hclose⟩
  · exact .inr ⟨hclose, if_neg hclose⟩

section

variable [Target]

/-- What a pass does that takes something, and what `Finish` does. -/
inductive Pass (p : ParserCore) : Intake → ParserCore → Prop
  | line {l : Bytes} {n : ℕ} {p' : ParserCore} (reads : p.readsLine = true)
      (h : p.readLine l n = (.ok n, p')) : Pass p (.line p.state l) p'
  | openBody {d : Bytes} (hs : p.state = .kBody)
      (ho : p.bodyRemaining = 0 ∧ p.hasContentLength = false) :
      Pass p (.bytes .kBody d) (p.emitBody d)
  | countedBody {d : Bytes} (hs : p.state = .kBody)
      (ho : ¬(p.bodyRemaining = 0 ∧ p.hasContentLength = false))
      (hle : d.length ≤ p.bodyRemaining) : Pass p (.bytes .kBody d) (p.countBody d)
  | chunk {d : Bytes} (hs : p.state = .kChunkData) (hle : d.length ≤ p.chunkRemaining) :
      Pass p (.bytes .kChunkData d) (p.countChunk d)
  | chunkEnd {d : Bytes} (hs : p.state = .kChunkDataEnd) :
      Pass p (.bytes .kChunkDataEnd d) { p with state := .kChunkSize }
  | finish : Pass p .finish p.finish

/-- What a pass does that ends in an error: nothing that was read of the message is touched, and no
byte is emitted. -/
structure Fails (p p' : ParserCore) : Prop where
  failed : p'.state = .kError
  fallible : p.state = .kStatusLine ∨ p.state = .kHeaders ∨ p.state = .kChunkSize ∨
    p.state = .kChunkDataEnd
  emitted : p'.emitted = p.emitted
  headers : p'.headers = p.headers
  contentLength : p'.contentLength = p.contentLength
  hasContentLength : p'.hasContentLength = p.hasContentLength
  chunked : p'.chunked = p.chunked
  statusCode : p'.statusCode = p.statusCode

namespace ParserCore

variable {p p' : ParserCore} {rest : Bytes} {n : ℕ}

omit [Target] in
/-- The states that do not read lines. -/
theorem state_of_not_readsLine (h : p.readsLine = false) :
    p.state = .kBody ∨ p.state = .kChunkData ∨ p.state = .kChunkDataEnd ∨ p.halted = true := by
  cases hs : p.state <;> simp [readsLine, halted, hs] at h ⊢

theorem pass_of_feedState (hh : p.halted = false) (h : p.feedState rest = (.ok (n + 1), p')) :
    Pass p (p.intake rest (n + 1)) p' := by
  cases hline : p.readsLine with
  | true =>
      rw [feedState_of_readsLine hline] at h
      split at h
      · cases h
      · rename_i l consumed htake
        have hintake : p.intake rest (n + 1) = .line p.state l := by
          simp [intake, lineAt, hline, htake]
        rw [hintake]
        obtain rfl := readLine_consumed h
        exact .line hline h
  | false =>
      have hintake : p.intake rest (n + 1) = .bytes p.state (rest.take (n + 1)) := by
        simp [intake, lineAt, hline]
      rw [hintake]
      obtain hs | hs | hs | hs := state_of_not_readsLine hline
      · rw [hs]
        simp only [feedState, hs] at h
        by_cases ho : p.bodyRemaining = 0 ∧ p.hasContentLength = false
        · rw [feedBody_open ho] at h
          obtain ⟨hn, rfl⟩ := Prod.mk.inj h
          rw [← Except.ok.inj hn, List.take_length]
          exact .openBody hs ho
        · rw [feedBody_counted ho] at h
          obtain ⟨hn, rfl⟩ := Prod.mk.inj h
          rw [← Except.ok.inj hn, Nat.min_comm, ← List.take_eq_take_min]
          exact .countedBody hs ho (List.length_take_le _ _)
      · rw [hs]
        simp only [feedState, hs] at h
        rw [feedChunkData_counted] at h
        obtain ⟨hn, rfl⟩ := Prod.mk.inj h
        rw [← Except.ok.inj hn, Nat.min_comm, ← List.take_eq_take_min]
        exact .chunk hs (List.length_take_le _ _)
      · rw [hs]
        simp only [feedState, hs] at h
        have hp' : p' = { p with state := .kChunkSize } := by
          unfold feedChunkDataEnd at h
          grind [protocolError]
        rw [hp']
        exact .chunkEnd hs
      · rw [hh] at hs
        cases hs

omit [Target] in
/-- Behind a status line that is not accepted. -/
theorem fails_statusLine {l : Bytes} {e : NetworkError} (hs : p.state = .kStatusLine)
    (h : p.readStatusLine l n = (.error e, p')) : Fails p { p' with state := .kError } := by
  unfold readStatusLine at h
  constructor <;> grind [protocolError, emitted]

theorem fails_of_feedState {e : NetworkError} (h : p.feedState rest = (.error e, p')) :
    Fails p { p' with state := .kError } := by
  cases hline : p.readsLine with
  | true =>
      rw [feedState_of_readsLine hline] at h
      split at h
      · cases h
      · rename_i l consumed htake
        unfold readLine at h
        split at h
        · rename_i hs
          exact fails_statusLine hs h
        · rename_i hs
          unfold readHeader at h
          constructor <;> grind [protocolError, emitted]
        · rename_i hs
          unfold readChunkSize at h
          constructor <;> grind [protocolError, emitted]
        · cases h
  | false =>
      obtain hs | hs | hs | hs := state_of_not_readsLine hline
      · simp only [feedState, hs] at h
        by_cases ho : p.bodyRemaining = 0 ∧ p.hasContentLength = false
        · rw [feedBody_open ho] at h
          cases h
        · rw [feedBody_counted ho] at h
          cases h
      · simp only [feedState, hs] at h
        rw [feedChunkData_counted] at h
        cases h
      · have hp : p' = p := by
          simp only [feedState, hs] at h
          unfold feedChunkDataEnd at h
          grind [protocolError]
        exact ⟨rfl, .inr (.inr (.inr hs)), by rw [hp]; rfl, by rw [hp], by rw [hp], by rw [hp], by rw [hp],
          by rw [hp]⟩
      · simp only [halted, Bool.decide_or, Bool.or_eq_true, decide_eq_true_eq] at hs
        obtain hs | hs := hs <;> simp [feedState, hs] at h

end ParserCore

/-! ## What all passes keep -/

variable {I : List Intake → ParserCore → Prop}

theorem intakes_induction (pass : ∀ h p i p', I h p → Pass p i p' → I (h ++ [i]) p')
    (fails : ∀ h p p', I h p → Fails p p' → I h p') (n : ℕ) {p : ParserCore} (hp : p.Counting)
    {h : List Intake} (hI : I h p) (rest : Bytes) :
    I (h ++ p.intakes n rest) (p.feedLoop n rest).2 ∧ (p.feedLoop n rest).2.Counting := by
  induction n generalizing p h rest with
  | zero =>
      rw [ParserCore.intakes, List.append_nil]
      exact ⟨hI, hp⟩
  | succ n ih =>
      by_cases hstop : rest = [] ∨ p.halted = true
      · rw [ParserCore.intakes, ParserCore.feedLoop, if_pos hstop, if_pos hstop, List.append_nil]
        exact ⟨hI, hp⟩
      · rw [ParserCore.intakes, ParserCore.feedLoop, if_neg hstop, if_neg hstop]
        obtain ⟨hne, hh⟩ := not_or.mp hstop
        rcases hstep : p.feedState rest with ⟨e | k, p'⟩
        · rw [List.append_nil]
          have hfails := ParserCore.fails_of_feedState hstep
          refine ⟨fails _ _ _ hI hfails, ?_, ?_⟩
          · exact fun hs => absurd (hfails.failed.symm.trans hs) (by simp)
          · exact fun hs => absurd (hfails.failed.symm.trans hs) (by simp)
        · cases k with
          | zero =>
              obtain rfl := ParserCore.feedState_zero hstep hp hne
              rw [List.append_nil]
              exact ⟨hI, hp⟩
          | succ k =>
              have hpass := ParserCore.pass_of_feedState (Bool.eq_false_iff.mpr hh) hstep
              have hnext := ih (ParserCore.feedState_counting hstep hp) (pass _ _ _ _ hI hpass)
                (rest.drop (k + 1))
              rwa [List.append_assoc, List.singleton_append] at hnext

omit [Target] in
theorem finish_counting {p : ParserCore} (hp : p.Counting) : p.finish.Counting := by
  unfold ParserCore.finish
  split
  · exact ⟨fun hs => absurd hs (by simp), fun hs => absurd hs (by simp)⟩
  · exact hp

/-- What a fresh parser has and every pass keeps holds behind all calls. -/
theorem history_induction (pass : ∀ h p i p', I h p → Pass p i p' → I (h ++ [i]) p')
    (fails : ∀ h p p', I h p → Fails p p' → I h p') {p : HttpParser} (hp : p.Counting)
    {h : List Intake} (hI : I h p.toParserCore) (calls : List ParserCall) :
    I (h ++ p.history calls) (p.after calls).toParserCore := by
  induction calls generalizing p h with
  | nil =>
      rw [HttpParser.history, List.append_nil]
      exact hI
  | cons c calls ih =>
      rw [HttpParser.history, ← List.append_assoc]
      have hcall : I (h ++ p.taken c) (p.call c).toParserCore ∧ (p.call c).Counting := by
        cases c with
        | finish => exact ⟨pass _ _ _ _ hI .finish, finish_counting hp⟩
        | feed piece =>
            by_cases hh : p.halted = true
            · rw [HttpParser.call_of_halted hh, HttpParser.taken, if_pos hh, List.append_nil]
              exact ⟨hI, hp⟩
            · have hloop := intakes_induction pass fails (p.buffer ++ piece).length hp hI
                (p.buffer ++ piece)
              rw [HttpParser.taken, if_neg hh]
              rw [HttpParser.call, HttpParser.feed_core hh]
              exact hloop
      exact ih hcall.2 hcall.1

end

/-! ## Bytes that are emitted -/

/-- The bytes that a pass emits. -/
def Intake.emits : Intake → Bytes
  | .bytes .kBody d => d
  | .bytes .kChunkData d => d
  | _ => []

theorem countBody_emitted (p : ParserCore) (d : Bytes) : (p.countBody d).emitted = p.emitted ++ d :=
  p.emitBody_emitted d

theorem countChunk_emitted (p : ParserCore) (d : Bytes) :
    (p.countChunk d).emitted = p.emitted ++ d := p.emitBody_emitted d

section

variable [Target]

theorem readLine_emitted {p p' : ParserCore} {l : Bytes} {m n : ℕ}
    (h : p.readLine l m = (.ok n, p')) : p'.emitted = p.emitted := by
  unfold ParserCore.readLine at h
  split at h
  · unfold ParserCore.readStatusLine at h
    grind [ParserCore.protocolError, ParserCore.emitted]
  · unfold ParserCore.readHeader ParserCore.endHeaders at h
    grind [ParserCore.protocolError, ParserCore.emitted]
  · unfold ParserCore.readChunkSize at h
    grind [ParserCore.protocolError, ParserCore.emitted]
  · unfold ParserCore.readChunkTrailer at h
    grind [ParserCore.emitted]

omit [Target] in
theorem finish_emitted (p : ParserCore) : p.finish.emitted = p.emitted := by
  unfold ParserCore.finish
  split <;> rfl

theorem Pass.emitted {p p' : ParserCore} {i : Intake} (h : Pass p i p') :
    p'.emitted = p.emitted ++ i.emits := by
  cases h with
  | line reads h => simpa [Intake.emits] using readLine_emitted h
  | openBody => exact p.emitBody_emitted _
  | countedBody => exact countBody_emitted p _
  | chunk => exact countChunk_emitted p _
  | chunkEnd => exact (List.append_nil _).symm
  | finish => simpa [Intake.emits] using finish_emitted p

/-- What a parser has emitted are the body bytes it took, in order. -/
theorem emitted_eq (onBody : Bool) (calls : List ParserCall) :
    ((fresh onBody).after calls).emitted = ((fresh onBody).history calls).flatMap Intake.emits := by
  have hstart : (fresh onBody).emitted = ([] : List Intake).flatMap Intake.emits := by
    cases onBody <;> rfl
  refine history_induction (I := fun h p => p.emitted = h.flatMap Intake.emits) ?_ ?_
    (fresh_settled onBody).counting hstart calls
  · intro h p i p' hI hpass
    rw [hpass.emitted, hI]
    simp
  · intro h p p' hI hfails
    rw [hfails.emitted, hI]

end

end EspModemLink.Http
