import EspModemLink.AtChannel.Uart

/-!
# The outcome of a command

`ProcessLine` notices the final status line, and `ParseResponse` reads the outcome off the whole
buffer. Both agree on the first final status line unless a prompt stands in front of it, which
`ParseResponse` takes for a success.
-/

namespace EspModemLink.AtChannel

open Bytes

/-! ## Status lines -/

/-- The outcome that a trimmed line carries as a final status. -/
def carried (trimmed : Bytes) : Option (AtResult Unit) :=
  if trimmed = okLine then some (.ok ())
  else if trimmed = errorLine then some (.error { code := .kCommandError })
  else if startsWith trimmed cmeErrorKey then some (.error (cmeError (trimmed.drop 11)))
  else if startsWith trimmed cmsErrorKey then some (.error (cmsError (trimmed.drop 11)))
  else none

/-- The outcome that a final status line carries. -/
def finalStatus (line : Bytes) : Option (AtResult Unit) := carried (trimBy isSpace line)

/-- The outcome that the first final status line carries. -/
def firstStatus (lines : List Bytes) : Option (AtResult Unit) := lines.findSome? finalStatus

/-- A line that is a prompt. -/
def isPrompt (line : Bytes) : Bool := trimBy isSpace line == promptLine

/-- A prompt stands in front of the first final status line. -/
def prompted (lines : List Bytes) : Bool :=
  (lines.takeWhile fun line => (finalStatus line).isNone).any isPrompt

/-- What `ParseResponse` makes of one line: a prompt is a success to it. -/
def verdict (line : Bytes) : Option (AtResult Unit) :=
  if isPrompt line then some (.ok ()) else finalStatus line

/-- A prompt is no final status line. -/
theorem finalStatus_of_isPrompt {line : Bytes} (h : isPrompt line = true) : finalStatus line = none := by
  have htrim : trimBy isSpace line = promptLine := beq_iff_eq.mp h
  rw [finalStatus, htrim]
  decide

theorem verdict_of_isPrompt {line : Bytes} (h : isPrompt line = true) : verdict line = some (.ok ()) :=
  if_pos h

theorem verdict_of_not_isPrompt {line : Bytes} (h : isPrompt line = false) :
    verdict line = finalStatus line := by
  rw [verdict, h]
  rfl

/-- What `ParseResponse` finds first is the first final status, but for a prompt before it. -/
theorem findSome?_verdict (lines : List Bytes) :
    lines.findSome? verdict = if prompted lines then some (.ok ()) else firstStatus lines := by
  induction lines with
  | nil => rfl
  | cons line lines ih =>
      by_cases hprompt : isPrompt line = true
      · have hnone := finalStatus_of_isPrompt hprompt
        simp [prompted, verdict_of_isPrompt hprompt, hnone, hprompt]
      · have hprompt : isPrompt line = false := Bool.eq_false_iff.mpr hprompt
        rw [List.findSome?_cons, verdict_of_not_isPrompt hprompt]
        cases hstatus : finalStatus line with
        | some r => simp [prompted, firstStatus, hstatus]
        | none =>
            have htail : prompted (line :: lines) = prompted lines := by
              simp [prompted, hstatus, hprompt]
            rw [htail, firstStatus, List.findSome?_cons, hstatus]
            exact ih

/-! ## What `ParseResponse` reads -/

/-- Trimming a line once more changes nothing. -/
theorem trimBy_isSpace_idem (s : Bytes) : trimBy isSpace (trimBy isSpace s) = trimBy isSpace s :=
  trimBy_trimBy (fun _ h => h) s

/-- An empty line carries nothing. -/
theorem verdict_of_trimmed_nil {raw : Bytes} (h : trimBy isSpace raw = []) : verdict raw = none := by
  rw [verdict, isPrompt, finalStatus, h]
  decide

/-- An error line begins with `+`. -/
theorem head_of_errorKey {line : Bytes}
    (h : startsWith line cmeErrorKey = true ∨ startsWith line cmsErrorKey = true) :
    ∃ rest, line = 43 :: rest := by
  cases line with
  | nil => obtain h | h := h <;> cases h
  | cons c line =>
      refine ⟨line, ?_⟩
      obtain h | h := h <;>
      · simp only [startsWith, cmeErrorKey, cmsErrorKey, ascii, List.map_cons,
          List.isPrefixOf_iff_prefix, List.cons_prefix_cons] at h
        rw [← h.1]
        rfl

/-- An echo carries nothing. -/
theorem verdict_of_isEcho {raw : Bytes} (h : isEcho (trimBy isSpace raw) = true) :
    verdict raw = none := by
  rw [verdict, isPrompt, finalStatus]
  generalize trimBy isSpace raw = line at h
  cases line with
  | nil => cases h
  | cons c line =>
      have hc : c = 65 ∨ c = 97 := by
        simp only [isEcho, startsWith, ascii, List.map_cons, List.map_nil, Bool.or_eq_true,
          List.isPrefixOf_iff_prefix, List.cons_prefix_cons] at h
        exact h.imp (fun h => h.1.symm) (fun h => h.1.symm)
      obtain rfl | rfl := hc <;>
        simp [carried, promptLine, okLine, errorLine, cmeErrorKey, cmsErrorKey, ascii, startsWith]

/-- A line that `IsStatusLine` passes over carries nothing. -/
theorem verdict_of_isStatusLine_none {raw : Bytes} (h : isStatusLine (trimBy isSpace raw) = none) :
    verdict raw = none := by
  rw [isStatusLine, trimBy_isSpace_idem] at h
  rw [verdict, isPrompt, finalStatus]
  generalize trimBy isSpace raw = line at h ⊢
  rw [statusError] at h
  rw [carried]
  grind

/-- A line that `IsStatusLine` takes carries what the parsed response reports. -/
theorem verdict_of_isStatusLine {raw : Bytes} {err : AtError}
    (h : isStatusLine (trimBy isSpace raw) = some err) :
    verdict raw = some (if startsWith (trimBy isSpace raw) okLine ||
      startsWith (trimBy isSpace raw) promptLine then .ok () else .error err) := by
  rw [isStatusLine, trimBy_isSpace_idem] at h
  rw [verdict, isPrompt, finalStatus]
  generalize trimBy isSpace raw = line at h ⊢
  by_cases hkey : startsWith line cmeErrorKey = true ∨ startsWith line cmsErrorKey = true
  · obtain ⟨rest, rfl⟩ := head_of_errorKey hkey
    have hstart : (startsWith (43 :: rest) okLine || startsWith (43 :: rest) promptLine) = false := by
      simp [startsWith, okLine, promptLine, ascii, List.isPrefixOf]
    have hprompt : ¬(43 :: rest : Bytes) = promptLine := by simp [promptLine, ascii]
    have hok : ¬(43 :: rest : Bytes) = okLine := by simp [okLine, ascii]
    have herror : ¬(43 :: rest : Bytes) = errorLine := by simp [errorLine, ascii]
    rw [hstart]
    simp only [statusError, carried, beq_iff_eq, hprompt, hok, herror, if_false] at h ⊢
    by_cases hcme : startsWith (43 :: rest) cmeErrorKey = true
    · rw [if_pos hcme] at h ⊢
      exact congrArg (some ∘ Except.error) (Option.some.inj h)
    · have hcms := hkey.resolve_left hcme
      rw [if_neg hcme, if_pos hcms] at h ⊢
      exact congrArg (some ∘ Except.error) (Option.some.inj h)
  · obtain ⟨hcme, hcms⟩ := not_or.mp hkey
    rw [statusError, if_neg hcme, if_neg hcms] at h
    by_cases hok : line = okLine
    · rw [hok]
      rfl
    · by_cases herror : line = errorLine
      · rw [if_neg hok, if_pos herror] at h
        obtain rfl := Option.some.inj h
        rw [herror]
        decide
      · by_cases hprompt : line = promptLine
        · rw [hprompt]
          rfl
        · rw [if_neg hok, if_neg herror, if_neg hprompt] at h
          cases h

/-- `ParseResponse` reports the first verdict. -/
theorem parseLines_result {lines : List Bytes} {v : AtResult Unit} (first : Bool)
    (p : ParsedAtResponse) (h : lines.findSome? verdict = some v) :
    (parseLines first lines p).result = v := by
  induction lines generalizing first p with
  | nil => cases h
  | cons raw lines ih =>
      rw [parseLines]
      split
      · rename_i hempty
        rw [List.findSome?_cons, verdict_of_trimmed_nil hempty] at h
        exact ih first p h
      · split
        · rename_i hecho
          obtain ⟨-, hecho⟩ := Bool.and_eq_true_iff.mp hecho
          rw [List.findSome?_cons, verdict_of_isEcho hecho] at h
          exact ih false p h
        · split
          · rename_i err hstatus
            rw [List.findSome?_cons, verdict_of_isStatusLine hstatus] at h
            obtain rfl := Option.some.inj h
            by_cases hok : (startsWith (trimBy isSpace raw) okLine ||
                startsWith (trimBy isSpace raw) promptLine) = true
            · simp [ParsedAtResponse.result, hok]
            · simp [ParsedAtResponse.result, Bool.eq_false_iff.mpr hok]
          · rename_i hstatus
            rw [List.findSome?_cons, verdict_of_isStatusLine_none hstatus] at h
            exact ih false _ h

/-! ## What `ProcessLine` keeps -/

/-- The lines that `ProcessLine` puts into the buffer. -/
def kept (lines : List Bytes) : List Bytes := (lines.map dropCr).filter fun line => !line.all isBlank

theorem kept_append (lines : List Bytes) (line : Bytes) :
    kept (lines ++ [line]) =
      kept lines ++ if (dropCr line).all isBlank then [] else [dropCr line] := by
  by_cases hblank : (dropCr line).all isBlank = true <;> simp [kept, hblank]

theorem isSpace_of_isBlank (c : UInt8) (h : isBlank c = true) : isSpace c = true := by
  obtain h | h := Bool.or_eq_true_iff.mp h
  · rw [beq_iff_eq.mp h]
    rfl
  · rw [beq_iff_eq.mp h]
    rfl

/-- A piece of a line is a line. -/
theorem IsLine.of_append {line rest : Bytes} (h : IsLine (line ++ rest)) : IsLine line := by
  cases hfind : find crlf line with
  | none => exact hfind
  | some i => rw [IsLine, find_append rest hfind] at h; cases h

theorem IsLine.dropCr {line : Bytes} (h : IsLine line) : IsLine (dropCr line) := by
  unfold AtChannel.dropCr
  split
  · rename_i hlast
    obtain ⟨hne, -⟩ := List.getLast?_eq_some_iff.mp hlast
    rw [List.getLast?_eq_some_iff] at hlast
    obtain ⟨ys, rfl⟩ := hlast
    have hline : IsLine ((ys ++ [cr]).dropLast ++ [cr]) := by simpa using h
    exact hline.of_append
  · exact h

/-- The `\r` that is dropped is a blank. -/
theorem trimBy_isSpace_dropCr (line : Bytes) :
    trimBy isSpace (dropCr line) = trimBy isSpace line := by
  unfold dropCr
  split
  · rename_i hlast
    obtain ⟨ys, rfl⟩ := List.getLast?_eq_some_iff.mp hlast
    rw [List.dropLast_concat, trimBy_append_singleton rfl]
  · rfl

theorem verdict_dropCr (line : Bytes) : verdict (dropCr line) = verdict line := by
  rw [verdict, verdict, isPrompt, isPrompt, finalStatus, finalStatus, trimBy_isSpace_dropCr]

theorem verdict_of_blank {line : Bytes} (h : line.all isBlank = true) : verdict line = none := by
  apply verdict_of_trimmed_nil
  apply trimBy_eq_nil
  intro c hc
  exact isSpace_of_isBlank c (List.all_eq_true.mp h c hc)

/-- Nothing that carries a verdict is dropped. -/
theorem findSome?_kept (lines : List Bytes) :
    (kept lines).findSome? verdict = lines.findSome? verdict := by
  induction lines with
  | nil => rfl
  | cons line lines ih =>
      have hcons : kept (line :: lines) =
          (if (dropCr line).all isBlank then [] else [dropCr line]) ++ kept lines := by
        by_cases hblank : (dropCr line).all isBlank = true <;> simp [kept, hblank]
      rw [hcons, List.findSome?_append, ih, List.findSome?_cons, ← verdict_dropCr line]
      by_cases hblank : (dropCr line).all isBlank = true
      · simp [hblank, verdict_of_blank hblank]
      · cases hverdict : verdict (dropCr line) <;> simp [hblank, hverdict]

theorem isLine_of_mem_kept {lines : List Bytes} (h : ∀ l ∈ lines, IsLine l) :
    ∀ l ∈ kept lines, IsLine l := by
  intro l hl
  obtain ⟨hl, -⟩ := List.mem_filter.mp hl
  obtain ⟨raw, hraw, rfl⟩ := List.mem_map.mp hl
  exact (h raw hraw).dropCr

/-- An error line carries a status. -/
theorem carried_of_errorKey {line : Bytes}
    (h : startsWith line cmeErrorKey = true ∨ startsWith line cmsErrorKey = true) :
    carried line ≠ none := by
  rw [carried]
  grind

theorem verdict_of_carried {line : Bytes} (h : carried (trimBy isSpace line) ≠ none) :
    verdict line ≠ none := by
  rw [verdict]
  split
  · exact nofun
  · exact h

/-- The line that ends a command carries a verdict. -/
theorem verdict_of_endsCommand {line : Bytes} (h : endsCommand line = true) : verdict line ≠ none := by
  have htrim : trimBy isSpace line = trimBy isSpace (trimBy isBlank line) :=
    (trimBy_trimBy isSpace_of_isBlank line).symm
  have hkey : ∀ {key : Bytes}, key.head? = some 43 → key.getLast? = some 58 →
      startsWith (trimBy isBlank line) key = true → startsWith (trimBy isSpace line) key = true := by
    intro key hhead hlast hstart
    obtain ⟨rest, hrest⟩ := List.isPrefixOf_iff_prefix.mp hstart
    rw [htrim, ← hrest, trimBy_append_of_keeps hhead rfl hlast rfl]
    exact List.isPrefixOf_iff_prefix.mpr (List.prefix_append _ _)
  apply verdict_of_carried
  simp only [endsCommand, Bool.or_eq_true, beq_iff_eq] at h
  obtain ((hok | herror) | hcme) | hcms := h
  · rw [htrim, hok]
    exact nofun
  · rw [htrim, herror]
    exact nofun
  · exact carried_of_errorKey (.inl (hkey rfl rfl hcme))
  · exact carried_of_errorKey (.inr (hkey rfl rfl hcms))

/-! ## The window of a call -/

/-- Some line of the window ends the command. -/
def Ended (lines : List Bytes) : Prop := ∃ l ∈ lines, endsCommand (dropCr l) = true

/-- The buffer holds the lines of the window, and once one of them ended the command, the parsed
response reports their first verdict. -/
structure Window (c : Call) : Prop where
  lines : ∀ l ∈ c.received, IsLine l
  buffer : c.uart.responseBuffer = joined (kept c.received)
  answered : Ended c.received →
    c.received.findSome? verdict = some c.uart.parsedResponse.result

/-- The window is open, and the event says that a line ended the command. -/
structure Waiting (c : Call) : Prop where
  inProgress : c.uart.commandInProgress = true
  window : Window c
  done : c.uart.responseDone = true → Ended c.received

/-- What holds of a call in each of its phases. -/
def Standing (c : Call) : Prop :=
  match c.phase with
  | .start => True
  | .clearResponse => c.uart.commandInProgress = true
  | .clearBits => c.uart.commandInProgress = true ∧ Window c
  | .write | .awaitPrompt | .writeData | .awaitResponse => Waiting c
  | .leave => c.uart.commandInProgress = true ∧ Window c ∧ Ended c.received
  | .read => c.uart.commandInProgress = false ∧ Window c ∧ Ended c.received
  | .returned r => c.uart.commandInProgress = false ∧
      ((∃ context, r = timedOut context) ∨ (∃ context, r = transmitFailed context) ∨
        c.received.findSome? verdict = some r)

section

variable {c c' : Call} {line : Bytes}

/-- What a line that ends nothing leaves of the answer. -/
theorem answered_append {lines : List Bytes} {p : ParsedAtResponse}
    (h : Ended lines → lines.findSome? verdict = some p.result)
    (hline : endsCommand (dropCr line) = false) :
    Ended (lines ++ [line]) → (lines ++ [line]).findSome? verdict = some p.result := by
  rintro ⟨l, hl, hends⟩
  obtain hl | hl := List.mem_append.mp hl
  · rw [List.findSome?_append, h ⟨l, hl, hends⟩]
    rfl
  · rw [List.mem_singleton.mp hl, hline] at hends
    cases hends

/-- A line that arrives in the window. -/
theorem Window.takeLine (hw : Window c) (hprogress : c.uart.commandInProgress = true)
    (hline : IsLine line) : Window (c.takeLine line) := by
  have hreceived : (c.takeLine line).received = c.received ++ [line] := by
    simp [Call.takeLine, hprogress]
  have hlines : ∀ l ∈ c.received ++ [line], IsLine l := by
    intro l hl
    obtain hl | hl := List.mem_append.mp hl
    · exact hw.lines l hl
    · exact List.mem_singleton.mp hl ▸ hline
  by_cases hblank : (dropCr line).all isBlank = true
  · have huart : (c.takeLine line).uart = c.uart := by
      simp [Call.takeLine, AtUart.processLine, hblank]
    have hends : endsCommand (dropCr line) = false := by
      apply Bool.eq_false_iff.mpr
      intro hends
      exact verdict_of_endsCommand hends (verdict_of_blank hblank)
    constructor
    · rw [hreceived]
      exact hlines
    · rw [hreceived, huart, kept_append, if_pos hblank, List.append_nil]
      exact hw.buffer
    · rw [hreceived, huart]
      exact answered_append hw.answered hends
  · have huart : (c.takeLine line).uart = c.uart.absorb (dropCr line) := by
      simp [Call.takeLine, AtUart.processLine, hblank, hprogress]
    have hbuffer : c.uart.responseBuffer ++ dropCr line ++ crlf =
        joined (kept (c.received ++ [line])) := by
      rw [kept_append, if_neg hblank, joined_append, hw.buffer, List.append_assoc]
      simp [joined]
    constructor
    · rw [hreceived]
      exact hlines
    · rw [hreceived, huart]
      exact hbuffer
    · rw [hreceived, huart]
      by_cases hends : endsCommand (dropCr line) = true
      · intro _
        -- The whole buffer is parsed again.
        have hverdict : (c.received ++ [line]).findSome? verdict ≠ none := by
          intro hnone
          apply verdict_of_endsCommand hends
          rw [verdict_dropCr]
          exact List.findSome?_eq_none_iff.mp hnone line (by simp)
        obtain ⟨v, hv⟩ := Option.ne_none_iff_exists'.mp hverdict
        have hparsed : (c.uart.absorb (dropCr line)).parsedResponse =
            parseResponse (joined (kept (c.received ++ [line]))) := by
          rw [← hbuffer]
          simp [AtUart.absorb, hends]
        rw [hparsed, parseResponse, rawLines_joined (isLine_of_mem_kept hlines), hv,
          parseLines_result (v := v)]
        rw [findSome?_kept]
        exact hv
      · have hparsed : (c.uart.absorb (dropCr line)).parsedResponse = c.uart.parsedResponse := by
          simp [AtUart.absorb, hends]
        rw [hparsed]
        exact answered_append hw.answered (Bool.eq_false_iff.mpr hends)

@[simp] theorem takeLine_phase (c : Call) (line : Bytes) : (c.takeLine line).phase = c.phase := rfl

@[simp] theorem takeLine_commandInProgress (c : Call) (line : Bytes) :
    (c.takeLine line).uart.commandInProgress = c.uart.commandInProgress := by
  simp only [Call.takeLine, AtUart.processLine]
  split
  · rfl
  · split <;> rfl

/-- Outside a window, lines leave the call alone. -/
theorem takeLine_of_idle (hidle : c.uart.commandInProgress = false) (line : Bytes) :
    c.takeLine line = c := by
  have huart : (c.uart.processLine line).1 = c.uart := by
    simp only [AtUart.processLine, hidle]
    split <;> rfl
  rw [Call.takeLine, huart, hidle]
  rfl

theorem takeLine_received (hprogress : c.uart.commandInProgress = true) (line : Bytes) :
    (c.takeLine line).received = c.received ++ [line] := by
  simp [Call.takeLine, hprogress]

theorem Ended.append {lines : List Bytes} (h : Ended lines) (line : Bytes) :
    Ended (lines ++ [line]) := by
  obtain ⟨l, hl, hends⟩ := h
  exact ⟨l, List.mem_append_left _ hl, hends⟩

/-- The event is raised by a line that ends the command. -/
theorem Waiting.takeLine (hw : Waiting c) (hline : IsLine line) : Waiting (c.takeLine line) := by
  refine ⟨(takeLine_commandInProgress c line).trans hw.inProgress,
    hw.window.takeLine hw.inProgress hline, ?_⟩
  intro h
  rw [takeLine_received hw.inProgress]
  simp only [Call.takeLine, AtUart.processLine, hw.inProgress, if_true] at h
  split at h
  · exact (hw.done h).append line
  · obtain h | h := Bool.or_eq_true_iff.mp h
    · exact (hw.done h).append line
    · exact ⟨line, by simp, h⟩

/-- A line keeps a call standing. -/
theorem Standing.takeLine (hs : Standing c) (hline : IsLine line) : Standing (c.takeLine line) := by
  cases hidle : c.uart.commandInProgress with
  | false => rwa [takeLine_of_idle hidle]
  | true =>
      unfold Standing at hs ⊢
      rw [takeLine_phase, takeLine_commandInProgress]
      split <;> rename_i hphase <;> simp only [hphase] at hs
      · exact hs
      · exact hs
      · exact ⟨hs.1, hs.2.takeLine hs.1 hline⟩
      · exact hs.takeLine hline
      · exact hs.takeLine hline
      · exact hs.takeLine hline
      · exact hs.takeLine hline
      · exact ⟨hs.1, hs.2.1.takeLine hs.1 hline, takeLine_received hs.1 line ▸ hs.2.2.append line⟩
      · exact absurd (hidle.symm.trans hs.1) nofun
      · exact absurd (hidle.symm.trans hs.1) nofun

/-- A call that gives up. -/
theorem standing_fail {r : AtResult Unit}
    (h : (∃ context, r = timedOut context) ∨ ∃ context, r = transmitFailed context) :
    Standing (c.fail r) :=
  ⟨rfl, h.imp_right .inl⟩

/-- What the call does to the other members leaves it waiting. -/
theorem Waiting.of_same {w : Call} (hw : Waiting w) (hreceived : c.received = w.received)
    (hprogress : c.uart.commandInProgress = w.uart.commandInProgress)
    (hbuffer : c.uart.responseBuffer = w.uart.responseBuffer)
    (hparsed : c.uart.parsedResponse = w.uart.parsedResponse)
    (hdone : c.uart.responseDone = true → w.uart.responseDone = true) : Waiting c := by
  refine ⟨hprogress.trans hw.inProgress, ⟨?_, ?_, ?_⟩, fun h => ?_⟩
  · exact hreceived ▸ hw.window.lines
  · exact hreceived ▸ hbuffer.trans hw.window.buffer
  · rw [hreceived, hparsed]
    exact hw.window.answered
  · exact hreceived ▸ hw.done (hdone h)

/-- What a step of the call itself does, by the phase it is in. -/
theorem Standing.advance {move : Move} (hs : Standing c) (hmove : ∀ l, move ≠ .line l)
    (hstep : Call.step c move = some c') : Standing c' := by
  unfold Call.step at hstep
  split at hstep
  · exact absurd rfl (hmove _)
  · unfold Standing at hs
    split at hstep
    any_goals (rename_i hphase _; simp only [hphase] at hs)
    -- start, clearResponse, clearBits
    · obtain rfl := Option.some.inj hstep
      rfl
    · obtain rfl := Option.some.inj hstep
      exact ⟨hs, nofun, rfl, fun ⟨l, hl, _⟩ => absurd hl List.not_mem_nil⟩
    · obtain rfl := Option.some.inj hstep
      exact ⟨hs.1, ⟨hs.2.lines, hs.2.buffer, hs.2.answered⟩, nofun⟩
    -- write
    · split at hstep
      · obtain rfl := Option.some.inj hstep
        by_cases hprompt : c.request.awaitsPrompt = true
        · simp only [Standing, Call.afterWrite, hprompt, if_true]
          exact hs.of_same rfl rfl rfl rfl id
        · simp only [Standing, Call.afterWrite, hprompt, if_false, Bool.false_eq_true]
          exact hs.of_same rfl rfl rfl rfl id
      · obtain rfl := Option.some.inj hstep
        exact standing_fail (.inr ⟨_, rfl⟩)
    -- awaitPrompt
    · split at hstep
      · obtain rfl := Option.some.inj hstep
        exact hs.of_same rfl rfl rfl rfl id
      · cases hstep
    · split at hstep
      · cases hstep
      · obtain rfl := Option.some.inj hstep
        exact standing_fail (.inl ⟨_, rfl⟩)
    -- writeData
    · split at hstep
      · obtain rfl := Option.some.inj hstep
        exact hs.of_same rfl rfl rfl rfl id
      · obtain rfl := Option.some.inj hstep
        exact standing_fail (.inr ⟨_, rfl⟩)
    -- awaitResponse
    · split at hstep
      · rename_i hdone
        obtain rfl := Option.some.inj hstep
        exact ⟨hs.inProgress, ⟨hs.window.lines, hs.window.buffer, hs.window.answered⟩,
          hs.done hdone⟩
      · cases hstep
    · split at hstep
      · cases hstep
      · obtain rfl := Option.some.inj hstep
        exact standing_fail (.inl ⟨_, rfl⟩)
    -- leave, read
    · obtain rfl := Option.some.inj hstep
      exact ⟨rfl, ⟨hs.2.1.lines, hs.2.1.buffer, hs.2.1.answered⟩, hs.2.2⟩
    · obtain rfl := Option.some.inj hstep
      exact ⟨hs.1, .inr (.inr (hs.2.1.answered hs.2.2))⟩
    · cases hstep

/-- Every step keeps a call standing. -/
theorem Standing.step {move : Move} (hs : Standing c) (hstep : Call.step c move = some c') :
    Standing c' := by
  cases move with
  | line l =>
      simp only [Call.step] at hstep
      split at hstep
      · rename_i hline
        obtain rfl := Option.some.inj hstep
        exact hs.takeLine hline
      · cases hstep
  | write | timeout | go => exact hs.advance (fun _ h => by cases h) hstep

/-! ## Runs -/

/-- The call failed because a write was short. -/
def WriteFailed (c : Call) : Prop := ∃ context, c.phase = .returned (transmitFailed context)

/-- A call that has returned takes no further step of its own. -/
theorem step_of_returned {r : AtResult Unit} {move : Move} (hphase : c.phase = .returned r)
    (hstep : Call.step c move = some c') : c'.phase = .returned r := by
  unfold Call.step at hstep
  split at hstep
  · split at hstep
    · obtain rfl := Option.some.inj hstep
      exact hphase
    · cases hstep
  · split at hstep
    any_goals (rename_i hother _; rw [hphase] at hother; cases hother)
    cases hstep

/-- A short write ends the call. -/
theorem writeFailed_of_step (hstep : Call.step c (.write false) = some c') : WriteFailed c' := by
  cases hphase : c.phase <;> simp [Call.step, hphase] at hstep
  · subst hstep
    exact ⟨_, rfl⟩
  · subst hstep
    exact ⟨_, rfl⟩

/-- Where a result comes from. -/
theorem result_cases {r : AtResult Unit} {move : Move} (hstep : Call.step c move = some c')
    (hreturned : c'.phase = .returned r) :
    c.phase = .returned r ∨ move = .write false ∨ (∃ context, r = timedOut context) ∨
      c.phase = .read ∧ r = c.uart.parsedResponse.result := by
  cases move with
  | line l =>
      simp only [Call.step] at hstep
      split at hstep
      · obtain rfl := Option.some.inj hstep
        exact .inl hreturned
      · cases hstep
  | write complete =>
      cases complete with
      | false => exact .inr (.inl rfl)
      | true =>
          cases hphase : c.phase <;> simp [Call.step, hphase] at hstep
          · rw [← hstep] at hreturned
            simp only [Call.afterWrite] at hreturned
            split at hreturned <;> cases hreturned
          · rw [← hstep] at hreturned
            cases hreturned
  | timeout =>
      cases hphase : c.phase <;> simp [Call.step, hphase] at hstep
      all_goals
        rw [← hstep.2] at hreturned
        cases hreturned
        exact .inr (.inr (.inl ⟨_, rfl⟩))
  | go =>
      cases hphase : c.phase <;> simp [Call.step, hphase] at hstep
      · rw [← hstep] at hreturned; cases hreturned
      · rw [← hstep] at hreturned; cases hreturned
      · rw [← hstep] at hreturned; cases hreturned
      · rw [← hstep.2] at hreturned; cases hreturned
      · rw [← hstep.2] at hreturned; cases hreturned
      · rw [← hstep] at hreturned; cases hreturned
      · rw [← hstep] at hreturned
        cases hreturned
        exact .inr (.inr (.inr ⟨rfl, rfl⟩))

/-- A run with a short write ends with its error. -/
theorem writeFailed_of_run {moves : List Move} (hrun : Runs.exec Call.step c moves = some c')
    (h : .write false ∈ moves ∨ WriteFailed c) : WriteFailed c' := by
  induction moves generalizing c with
  | nil =>
      obtain rfl := Option.some.inj hrun
      exact h.resolve_left List.not_mem_nil
  | cons move moves ih =>
      obtain ⟨mid, hstep, hrest⟩ := Option.bind_eq_some_iff.mp hrun
      apply ih hrest
      obtain h | ⟨context, hphase⟩ := h
      · obtain rfl | h := List.mem_cons.mp h
        · exact .inr (writeFailed_of_step hstep)
        · exact .inl h
      · exact .inr ⟨context, step_of_returned hphase hstep⟩

/-- A status line carries an error of the module. -/
theorem verdict_code {line : Bytes} {e : AtError} (h : verdict line = some (.error e)) :
    e.code ≠ .kTransmitFailed ∧ e.code ≠ .kTimeout := by
  rw [verdict, finalStatus, carried] at h
  split at h
  · cases h
  · split at h
    · cases h
    · split at h
      · cases h
        exact ⟨nofun, nofun⟩
      · split at h
        · cases h
          exact ⟨nofun, nofun⟩
        · split at h
          · cases h
            exact ⟨nofun, nofun⟩
          · cases h

/-- The first verdict is not the error of a short write. -/
theorem findSome?_verdict_ne {lines : List Bytes} {context : String} :
    lines.findSome? verdict ≠ some (transmitFailed context) := by
  intro h
  obtain ⟨line, -, hline⟩ := List.exists_of_findSome?_eq_some h
  exact (verdict_code hline).1 rfl

/-- Only a short write ends in its error. -/
theorem not_writeFailed_step {move : Move} (hs : Standing c) (hno : ¬WriteFailed c)
    (hmove : move ≠ .write false) (hstep : Call.step c move = some c') : ¬WriteFailed c' := by
  rintro ⟨context, hreturned⟩
  obtain hphase | hwrite | ⟨context', htimeout⟩ | ⟨hphase, hresult⟩ := result_cases hstep hreturned
  · exact hno ⟨context, hphase⟩
  · exact hmove hwrite
  · cases htimeout
  · simp only [Standing, hphase] at hs
    exact findSome?_verdict_ne (hresult ▸ hs.2.1.answered hs.2.2)

/-- The call ran out of time. -/
def TimedOut : AtResult Unit → Prop
  | .ok () => False
  | .error e => e.code = .kTimeout

instance : (r : AtResult Unit) → Decidable (TimedOut r)
  | .ok () => inferInstanceAs (Decidable False)
  | .error e => inferInstanceAs (Decidable (e.code = .kTimeout))

theorem standing_begin (uart : AtUart) (request : Request) : Standing (Call.begin uart request) :=
  trivial

theorem standing_of_run {uart : AtUart} {request : Request} {moves : List Move}
    (hrun : Runs.exec Call.step (Call.begin uart request) moves = some c) : Standing c :=
  Runs.Reachable.invariant (standing_begin uart request) (fun _ _ _ hs hstep => hs.step hstep)
    ⟨moves, hrun⟩

theorem not_writeFailed_of_run {uart : AtUart} {request : Request} {moves : List Move}
    (hwrites : .write false ∉ moves)
    (hrun : Runs.exec Call.step (Call.begin uart request) moves = some c) : ¬WriteFailed c := by
  have hnone : ∀ move ∈ moves, move ≠ .write false := fun move hmove heq => hwrites (heq ▸ hmove)
  have halong : Runs.Along Call.step (fun _ move _ => move ≠ .write false)
      (Call.begin uart request) moves := Runs.along_of_labels hnone _
  have hboth := halong.invariant (I := fun c => Standing c ∧ ¬WriteFailed c)
    (fun c move c' h hmove hstep => ⟨h.1.step hstep, not_writeFailed_step h.1 h.2 hmove hstep⟩)
    ⟨standing_begin uart request, nofun⟩ hrun
  exact hboth.2

/-! ## The outcome -/

/-- A call that did not time out returns what the first final status line carries exactly when
every write it checks was complete and no prompt stands in front of an error. -/
theorem returned_firstStatus_iff {uart : AtUart} {request : Request} {moves : List Move}
    {r : AtResult Unit}
    (hrun : Runs.exec Call.step (Call.begin uart request) moves = some c)
    (hreturned : c.phase = .returned r) (htime : ¬TimedOut r) :
    firstStatus c.received = some r ↔
      .write false ∉ moves ∧
        (prompted c.received = true → firstStatus c.received = some (.ok ())) := by
  have hs : Standing c := standing_of_run hrun
  simp only [Standing, hreturned] at hs
  have hverdict := findSome?_verdict c.received
  constructor
  · intro hfirst
    have hwritten : .write false ∉ moves := by
      intro hwrite
      obtain ⟨context, hphase⟩ := writeFailed_of_run hrun (.inl hwrite)
      cases hreturned.symm.trans hphase
      obtain ⟨line, -, hline⟩ := List.exists_of_findSome?_eq_some hfirst
      have hnotPrompt : isPrompt line = false := by
        apply Bool.eq_false_iff.mpr
        intro hprompt
        rw [finalStatus_of_isPrompt hprompt] at hline
        cases hline
      exact (verdict_code ((verdict_of_not_isPrompt hnotPrompt).trans hline)).1 rfl
    refine ⟨hwritten, fun hprompted => ?_⟩
    obtain ⟨context, rfl⟩ | ⟨context, rfl⟩ | hr := hs.2
    · exact absurd rfl htime
    · exact absurd ⟨context, hreturned⟩ (not_writeFailed_of_run hwritten hrun)
    · rw [hr, if_pos hprompted] at hverdict
      rw [hfirst, hverdict]
  · rintro ⟨hwritten, hprompt⟩
    obtain ⟨context, rfl⟩ | ⟨context, rfl⟩ | hr := hs.2
    · exact absurd rfl htime
    · exact absurd ⟨context, hreturned⟩ (not_writeFailed_of_run hwritten hrun)
    · rw [hr] at hverdict
      by_cases hprompted : prompted c.received = true
      · rw [hprompt hprompted, hverdict, if_pos hprompted]
      · rw [hverdict, if_neg hprompted]

end

/-- The call returned with success. -/
def Call.succeeded (c : Call) : Bool :=
  match c.phase with
  | .returned (.ok ()) => true
  | _ => false

theorem returned_of_succeeded {c : Call} (h : c.succeeded = true) : c.phase = .returned (.ok ()) := by
  unfold Call.succeeded at h
  split at h
  · assumption
  · cases h

/-- A payload behind a prompt, to which the module answers with `answer`. -/
def promptedMoves (answer : Bytes) : List Move :=
  [.go, .go, .go, .write true, .line promptLine, .go, .write true, .line answer, .go, .go, .go]

/-- A call whose payload is ended by Ctrl+Z. -/
def payloadCall : Call :=
  .begin {} (.sendCommandWithData (ascii ['A', 'T', '+', 'S']) (ascii ['x']) [26])

theorem returned_firstStatus_iff_ok :
    ∃ c, Runs.exec Call.step payloadCall (promptedMoves okLine) = some c ∧
      (firstStatus c.received = some (.ok ()) ↔ .write false ∉ promptedMoves okLine ∧
        (prompted c.received = true → firstStatus c.received = some (.ok ()))) := by
  have hrun : (Runs.exec Call.step payloadCall (promptedMoves okLine)).map Call.succeeded =
      some true := by decide +kernel
  obtain ⟨c, hc, hsucceeded⟩ := Option.map_eq_some_iff.mp hrun
  exact ⟨c, hc, returned_firstStatus_iff hc (returned_of_succeeded hsucceeded) (by decide)⟩

/-- A payload that the module refuses behind its prompt is reported as sent. -/
theorem success_behind_prompt :
    ¬ ∀ uart request moves c r, Runs.exec Call.step (Call.begin uart request) moves = some c →
      c.phase = .returned r → ¬TimedOut r → firstStatus c.received = some r := by
  intro h
  have hrun : (Runs.exec Call.step payloadCall (promptedMoves errorLine)).map
      (fun c => (c.succeeded, c.received)) =
        some (true, [promptLine, errorLine]) := by decide +kernel
  obtain ⟨c, hc, heq⟩ := Option.map_eq_some_iff.mp hrun
  obtain ⟨hsucceeded, hreceived⟩ := Prod.mk.inj heq
  have hfirst := h _ _ _ c (.ok ()) hc (returned_of_succeeded hsucceeded) (by decide)
  rw [hreceived] at hfirst
  cases hfirst

end EspModemLink.AtChannel
