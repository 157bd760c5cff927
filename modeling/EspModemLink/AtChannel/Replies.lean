import EspModemLink.AtChannel.CommandOutcome

/-!
# Replies that end with `OK`

A command whose reply arrives in full leaves a parsed response. Its lines are those of the reply
behind the echo, and whoever takes the first of them takes the first line that arrived.
-/

namespace EspModemLink.AtChannel

open Bytes

/-- The parsed response behind lines that were followed by the final `OK`. -/
def response (lines : List Bytes) : ParsedAtResponse := parseResponse (joined (kept (lines ++ [okLine])))

/-- What a call and the receive task do when the lines and the final `OK` arrive in time. -/
def replyMoves (lines : List Bytes) : List Move :=
  [.go, .go, .go, .write true] ++ (lines ++ [okLine]).map .line ++ [.go, .go, .go]

/-- The first line of a parsed response. `first` says that the command may still be repeated. -/
def firstAnswer : (first : Bool) → List Bytes → Option Bytes
  | _, [] => none
  | first, raw :: rest =>
      let line := trimBy isSpace raw
      if line = [] then firstAnswer first rest
      else if first && isEcho line then firstAnswer false rest
      else
        match isStatusLine line with
        | some _ => none
        | none => some line

theorem isLine_snoc_okLine {lines : List Bytes} (h : ∀ l ∈ lines, IsLine l) :
    ∀ l ∈ lines ++ [okLine], IsLine l := by
  intro l hl
  obtain hl | hl := List.mem_append.mp hl
  · exact h l hl
  · rw [List.mem_singleton.mp hl]
    decide

/-! ## The response that a call leaves -/

section

variable {c : Call}

/-- Lines arrive one after the other. -/
theorem exec_lines {lines : List Bytes} (h : ∀ l ∈ lines, IsLine l) :
    Runs.exec Call.step c (lines.map .line) = some (lines.foldl Call.takeLine c) := by
  induction lines generalizing c with
  | nil => rfl
  | cons line lines ih =>
      have hstep : Call.step c (.line line) = some (c.takeLine line) :=
        if_pos (h line (List.mem_cons_self ..))
      rw [List.map_cons, Runs.exec_cons, hstep, Option.bind_some, List.foldl_cons]
      exact ih fun l hl => h l (List.mem_cons_of_mem _ hl)

/-- Lines that arrive in the window of a call gather in its buffer. -/
theorem takeLines_buffer (lines : List Bytes) (hprogress : c.uart.commandInProgress = true) :
    (lines.foldl Call.takeLine c).uart.responseBuffer =
        c.uart.responseBuffer ++ joined (kept lines) ∧
      (lines.foldl Call.takeLine c).uart.commandInProgress = true ∧
      (lines.foldl Call.takeLine c).phase = c.phase := by
  induction lines generalizing c with
  | nil => exact ⟨(List.append_nil _).symm, hprogress, rfl⟩
  | cons line lines ih =>
      have hprogress' : (c.takeLine line).uart.commandInProgress = true :=
        (takeLine_commandInProgress c line).trans hprogress
      obtain ⟨hbuffer, hinProgress, hphase⟩ := ih hprogress'
      refine ⟨?_, hinProgress, hphase⟩
      rw [List.foldl_cons, hbuffer]
      by_cases hblank : (dropCr line).all isBlank = true
      · simp [Call.takeLine, AtUart.processLine, kept, hblank]
      · simp [Call.takeLine, AtUart.processLine, AtUart.absorb, kept, joined, hblank, hprogress]

/-- The final `OK` has the whole buffer parsed. -/
theorem takeLine_okLine (hprogress : c.uart.commandInProgress = true) :
    (c.takeLine okLine).uart.parsedResponse = parseResponse (c.uart.responseBuffer ++ okLine ++ crlf) ∧
      (c.takeLine okLine).uart.responseDone = true := by
  have hends : endsCommand okLine = true := by decide
  have huart : (c.takeLine okLine).uart = c.uart.absorb okLine := by
    have hdrop : dropCr okLine = okLine := by decide
    have hblank : ¬okLine.all isBlank = true := by decide
    simp [Call.takeLine, AtUart.processLine, hdrop, hblank, hprogress]
  rw [huart]
  simp [AtUart.absorb, hends]

/-- `SendCommand` returns what the response says, and leaves the response for `GetResponseLines`. -/
theorem exec_sendCommand (uart : AtUart) (cmd : Bytes) {lines : List Bytes}
    (h : ∀ l ∈ lines, IsLine l) :
    ∃ c, Runs.exec Call.step (Call.begin uart (.sendCommand cmd)) (replyMoves lines) = some c ∧
      c.phase = .returned (response lines).result ∧ c.uart.parsedResponse = response lines := by
  -- the window is open, and nothing has arrived
  let opened : Call :=
    { uart := { uart.clearResponse with commandInProgress := true, responseDone := false }
      request := .sendCommand cmd
      phase := .awaitResponse
      written := cmd ++ crlf }
  have hopen : Runs.exec Call.step (Call.begin uart (.sendCommand cmd))
      [.go, .go, .go, .write true] = some opened := rfl
  have hall := isLine_snoc_okLine h
  obtain ⟨hbuffer, hprogress, hphase⟩ := takeLines_buffer (c := opened) lines rfl
  obtain ⟨hparsed, hdone⟩ := takeLine_okLine hprogress
  generalize hlast : (lines.foldl Call.takeLine opened).takeLine okLine = last at hparsed hdone
  have hwaits : last.phase = .awaitResponse := by
    rw [← hlast, takeLine_phase, hphase]
  have hresponse : last.uart.parsedResponse = response lines := by
    have hkept : kept (lines ++ [okLine]) = kept lines ++ [okLine] := kept_append lines okLine
    have hcleared : opened.uart.responseBuffer = [] := rfl
    rw [hparsed, hbuffer, response, hkept, joined_append, hcleared, List.nil_append,
      List.append_assoc]
    simp [joined]
  refine ⟨{ last with
    uart := { last.uart with responseDone := false, commandInProgress := false }
    phase := .returned last.uart.parsedResponse.result }, ?_, ?_, hresponse⟩
  · rw [replyMoves, Runs.exec_append, Runs.exec_append, hopen, Option.bind_some, exec_lines hall,
      Option.bind_some, List.foldl_append, List.foldl_cons, List.foldl_nil, hlast]
    simp [Call.step, hwaits, hdone]
  · rw [← hresponse]

end

/-! ## What the response says -/

theorem trimmed_nil_of_blank {line : Bytes} (h : (dropCr line).all isBlank = true) :
    trimBy isSpace line = [] := by
  rw [← trimBy_isSpace_dropCr]
  apply trimBy_eq_nil
  intro c hc
  exact isSpace_of_isBlank c (List.all_eq_true.mp h c hc)

/-- What `ProcessLine` drops is passed over anyway. -/
theorem firstAnswer_kept (first : Bool) (lines : List Bytes) :
    firstAnswer first (kept lines) = firstAnswer first lines := by
  induction lines generalizing first with
  | nil => rfl
  | cons line lines ih =>
      by_cases hblank : (dropCr line).all isBlank = true
      · have hkept : kept (line :: lines) = kept lines := by simp [kept, hblank]
        rw [hkept, ih, firstAnswer, if_pos (trimmed_nil_of_blank hblank)]
      · have hkept : kept (line :: lines) = dropCr line :: kept lines := by simp [kept, hblank]
        rw [hkept, firstAnswer, firstAnswer, trimBy_isSpace_dropCr, ih, ih]

/-- Lines that were read already stay in front. -/
theorem parseLines_lines (first : Bool) (lines : List Bytes) (p : ParsedAtResponse) :
    ∃ more, (parseLines first lines p).lines = p.lines ++ more ∧
      more.head? = firstAnswer first lines := by
  induction lines generalizing first p with
  | nil => exact ⟨[], (List.append_nil _).symm, rfl⟩
  | cons raw lines ih =>
      rw [parseLines, firstAnswer]
      split
      · exact ih first p
      · split
        · exact ih false p
        · cases isStatusLine (trimBy isSpace raw) with
          | some err => exact ⟨[], (List.append_nil _).symm, rfl⟩
          | none =>
              obtain ⟨more, hmore, -⟩ := ih false { p with lines := p.lines ++ [trimBy isSpace raw] }
              refine ⟨trimBy isSpace raw :: more, ?_, rfl⟩
              rw [hmore, List.append_assoc, List.singleton_append]

/-- The lines that a parsed response keeps of lines without a status. -/
def answers : (first : Bool) → List Bytes → List Bytes
  | _, [] => []
  | first, raw :: rest =>
      let line := trimBy isSpace raw
      if line = [] then answers first rest
      else if first && isEcho line then answers false rest
      else line :: answers false rest

/-- The response may still begin with a repeated command behind these lines. -/
def mayEcho : (first : Bool) → List Bytes → Bool
  | first, [] => first
  | first, raw :: rest => if trimBy isSpace raw = [] then mayEcho first rest else false

/-- Only the first line can be an echo. -/
@[simp] theorem mayEcho_false (lines : List Bytes) : mayEcho false lines = false := by
  induction lines with
  | nil => rfl
  | cons raw lines ih => rw [mayEcho, ih, ite_self]

theorem answers_append (first : Bool) (lines more : List Bytes) :
    answers first (lines ++ more) = answers first lines ++ answers (mayEcho first lines) more := by
  induction lines generalizing first with
  | nil => rfl
  | cons raw lines ih =>
      rw [List.cons_append, answers, answers, mayEcho]
      by_cases hempty : trimBy isSpace raw = []
      · simp only [if_pos hempty]
        exact ih first
      · simp only [if_neg hempty]
        split
        · rw [ih false, mayEcho_false]
        · rw [ih false, mayEcho_false, List.cons_append]

/-- A line that is neither blank nor an echo is kept. -/
theorem answers_cons {raw : Bytes} (hne : trimBy isSpace raw ≠ [])
    (hecho : isEcho (trimBy isSpace raw) = false) (first : Bool) (rest : List Bytes) :
    answers first (raw :: rest) = trimBy isSpace raw :: answers false rest := by
  rw [answers, if_neg hne, hecho, Bool.and_false, if_neg Bool.false_ne_true]

theorem answers_kept (first : Bool) (lines : List Bytes) :
    answers first (kept lines) = answers first lines := by
  induction lines generalizing first with
  | nil => rfl
  | cons line lines ih =>
      by_cases hblank : (dropCr line).all isBlank = true
      · have hkept : kept (line :: lines) = kept lines := by simp [kept, hblank]
        rw [hkept, ih, answers, if_pos (trimmed_nil_of_blank hblank)]
      · have hkept : kept (line :: lines) = dropCr line :: kept lines := by simp [kept, hblank]
        rw [hkept, answers, answers, trimBy_isSpace_dropCr, ih, ih]

/-- Lines without a status in front of the final `OK` are kept. -/
theorem parseLines_answers (first : Bool) {lines : List Bytes}
    (hstatus : ∀ l ∈ lines, isStatusLine (trimBy isSpace l) = none) (p : ParsedAtResponse) :
    (parseLines first (lines ++ [okLine]) p).lines = p.lines ++ answers first lines := by
  induction lines generalizing first p with
  | nil =>
      rw [answers, List.append_nil]
      cases first <;> rfl
  | cons raw lines ih =>
      have hraw := hstatus raw (List.mem_cons_self ..)
      have htail := fun first => ih first fun l hl => hstatus l (List.mem_cons_of_mem _ hl)
      rw [List.cons_append, parseLines, answers]
      split
      · exact htail first p
      · split
        · exact htail false p
        · rw [hraw]
          dsimp only
          rw [htail false, List.append_assoc, List.singleton_append]

/-- What a response keeps of a reply without a status in front of the final `OK`. -/
theorem response_lines {lines : List Bytes} (hlines : ∀ l ∈ lines, IsLine l)
    (hstatus : ∀ l ∈ lines, isStatusLine (trimBy isSpace l) = none) :
    (response lines).lines = answers true lines := by
  have hall := isLine_snoc_okLine hlines
  have hkept : kept (lines ++ [okLine]) = kept lines ++ [okLine] := kept_append lines okLine
  rw [response, parseResponse, rawLines_joined (isLine_of_mem_kept hall), hkept,
    parseLines_answers true, List.nil_append, answers_kept]
  intro l hl
  obtain ⟨raw, hraw, rfl⟩ := List.mem_map.mp (List.mem_filter.mp hl).1
  rw [trimBy_isSpace_dropCr]
  exact hstatus raw hraw

/-- The final `OK` is no answer. -/
theorem firstAnswer_append_okLine (first : Bool) (lines : List Bytes) :
    firstAnswer first (lines ++ [okLine]) = firstAnswer first lines := by
  induction lines generalizing first with
  | nil => cases first <;> decide
  | cons line lines ih =>
      rw [List.cons_append, firstAnswer, firstAnswer, ih, ih]

/-- What is no status line to `IsStatusLine` carries no final status. -/
theorem finalStatus_of_isStatusLine {line : Bytes} (h : isStatusLine (trimBy isSpace line) = none) :
    finalStatus line = none := by
  have hverdict : verdict line = none := verdict_of_isStatusLine_none h
  cases hprompt : isPrompt line with
  | true => exact finalStatus_of_isPrompt hprompt
  | false => rwa [verdict_of_not_isPrompt hprompt] at hverdict

/-- Where no line carries an error, the response is a success. -/
theorem response_result {lines : List Bytes} (hlines : ∀ l ∈ lines, IsLine l)
    (hstatus : ∀ l ∈ lines, finalStatus l = none) : (response lines).result = .ok () := by
  have hall := isLine_snoc_okLine hlines
  have hfirst : firstStatus (lines ++ [okLine]) = some (.ok ()) := by
    have hnone : firstStatus lines = none := List.findSome?_eq_none_iff.mpr hstatus
    rw [firstStatus, List.findSome?_append, ← firstStatus, hnone]
    rfl
  rw [response, parseResponse, rawLines_joined (isLine_of_mem_kept hall)]
  apply parseLines_result
  rw [findSome?_kept, findSome?_verdict, hfirst, ite_self]

/-- The first line of the response. -/
theorem response_head? {lines : List Bytes} (hlines : ∀ l ∈ lines, IsLine l) :
    (response lines).lines.head? = firstAnswer true lines := by
  have hall := isLine_snoc_okLine hlines
  rw [response, parseResponse, rawLines_joined (isLine_of_mem_kept hall)]
  obtain ⟨more, hmore, hhead⟩ := parseLines_lines true (kept (lines ++ [okLine])) {}
  rw [hmore]
  exact hhead.trans ((firstAnswer_kept _ _).trans (firstAnswer_append_okLine _ _))

end EspModemLink.AtChannel
