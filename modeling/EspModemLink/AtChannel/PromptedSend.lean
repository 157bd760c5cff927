import EspModemLink.AtChannel.Uart

/-!
# A payload behind a data prompt

`SendDataAfterPrompt` beside the receive task, one access to what they share at a time. The event
that the call waits for may be raised for a prompt that came before its command was out, or behind
the refusal of it.
-/

namespace EspModemLink.AtChannel

open Bytes

/-- What the receive task has in hand: a line that it found a command in progress for, in front of
the response buffer and behind it, or a prompt that it found awaited. -/
inductive Held where
  | nothing
  | line (line : Bytes)
  | appended (line : Bytes)
  | prompt
deriving DecidableEq

/-- The event that the receive task is about to raise is the one for prompts. -/
def Held.raises : Held → Bool
  | .nothing => false
  | .line l | .appended l => l == promptLine
  | .prompt => true

/-- A prompt or a final status line, as the receive task hears it. -/
inductive Heard where
  | prompt
  | status
deriving DecidableEq

/-- What ended the wait, or kept the call from it. -/
inductive Woken where
  | prompt | response | timeout | unsent
deriving DecidableEq

/-- What the call does next. -/
inductive Stage where
  | start | clearResponse | clearBits | arm | write | await
  | disarm (woken : Woken)
  | writeData
  | leave (result : Option (AtResult Unit))
  | read
  | returned (result : AtResult Unit)

/-- A call beside the receive task. `heard` is what was heard since the last byte of the command was
written, and `payload` holds it as it was when the payload was. -/
structure PromptedSend where
  uart : AtUart
  cmdPrefix : Bytes
  stage : Stage := .start
  held : Held := .nothing
  heard : List Heard := []
  payload : Option (List Heard) := none

/-- The receive task comes to a complete line or to a prompt in the partial one, or it goes on with
what it has in hand; the call writes all it has or less, its wait ends without an event, or it does
anything else. -/
inductive Turn where
  | line (line : Bytes)
  | prompt
  | receive
  | write (complete : Bool)
  | timeout
  | go
deriving DecidableEq

/-- The events that `ProcessLine` raises for a line that is in the response buffer. -/
def AtUart.signal (u : AtUart) (line : Bytes) : AtUart :=
  { u with
    dataPrompt := u.dataPrompt || line == promptLine
    parsedResponse := if endsCommand line then parseResponse u.responseBuffer else u.parsedResponse
    responseDone := u.responseDone || endsCommand line }

def heardOf (line : Bytes) : List Heard :=
  if line = promptLine then [.prompt] else if endsCommand line then [.status] else []

namespace PromptedSend

/-- `ProcessLine` up to its look at `command_in_progress_`. -/
def takeLine (s : PromptedSend) (line : Bytes) : PromptedSend :=
  let line := dropCr line
  if line.all isBlank || !s.uart.commandInProgress then s
  else { s with held := .line line, heard := s.heard ++ heardOf line }

/-- The prompt is taken from the partial line, and `prompt_armed_` is exchanged. -/
def takePrompt (s : PromptedSend) : PromptedSend :=
  { s with
    uart := { s.uart with promptArmed := false }
    held := if s.uart.promptArmed then .prompt else .nothing
    heard := s.heard ++ [.prompt] }

/-- The receive task goes on with what it has in hand. -/
def receive (s : PromptedSend) : Option PromptedSend :=
  match s.held with
  | .nothing => none
  | .line line =>
      some { s with
        uart := { s.uart with responseBuffer := s.uart.responseBuffer ++ line ++ crlf }
        held := .appended line }
  | .appended line => some { s with uart := s.uart.signal line, held := .nothing }
  | .prompt => some { s with uart := { s.uart with dataPrompt := true }, held := .nothing }

/-- What follows the wait once the prompt is disarmed. -/
def afterWait (s : PromptedSend) : Woken → Stage
  | .prompt => .writeData
  | .response => .leave none
  | .timeout => .leave (some (timedOut ("data prompt timeout: " ++ text s.cmdPrefix)))
  | .unsent => .leave (some (transmitFailed "failed to send command prefix"))

/-- What a response without a prompt is reported as. -/
def refusal (p : ParsedAtResponse) : AtResult Unit :=
  if p.ok then timedOut "no data prompt after a successful command" else .error p.error

/-- A step of `SendDataAfterPrompt`. -/
def call (s : PromptedSend) (turn : Turn) : Option PromptedSend :=
  match s.stage, turn with
  | .start, .go =>
      some { s with uart := { s.uart with commandInProgress := true }, stage := .clearResponse }
  | .clearResponse, .go => some { s with uart := s.uart.clearResponse, stage := .clearBits }
  | .clearBits, .go =>
      some { s with uart := { s.uart with responseDone := false, dataPrompt := false }, stage := .arm }
  | .arm, .go => some { s with uart := { s.uart with promptArmed := true }, stage := .write }
  | .write, .write complete =>
      if complete then some { s with stage := .await, heard := [] }
      else some { s with stage := .disarm .unsent }
  | .await, .go =>
      if s.uart.dataPrompt || s.uart.responseDone then
        some { s with
          uart := { s.uart with responseDone := false, dataPrompt := false }
          stage := .disarm (if s.uart.dataPrompt then .prompt else .response) }
      else none
  | .await, .timeout =>
      if s.uart.dataPrompt || s.uart.responseDone then none
      else some { s with stage := .disarm .timeout }
  | .disarm woken, .go =>
      some { s with uart := { s.uart with promptArmed := false }, stage := s.afterWait woken }
  | .writeData, .write complete =>
      some { s with
        stage := .leave (some (if complete then .ok () else transmitFailed "failed to send data"))
        payload := some s.heard }
  | .leave result, .go =>
      some { s with
        uart := { s.uart with commandInProgress := false }
        stage := match result with
          | some result => .returned result
          | none => .read }
  | .read, .go => some { s with stage := .returned (refusal s.uart.parsedResponse) }
  | _, _ => none

/-- A step of the call or of the receive task. -/
def step : Runs.Step PromptedSend Turn
  | s, .line line => if s.held = .nothing ∧ IsLine line then some (s.takeLine line) else none
  | s, .prompt => if s.held = .nothing then some s.takePrompt else none
  | s, .receive => s.receive
  | s, turn => s.call turn

/-- A call that is about to begin, while the receive task has anything in hand. -/
def begin (uart : AtUart) (cmdPrefix : Bytes) (held : Held) : PromptedSend :=
  { uart := uart, cmdPrefix := cmdPrefix, held := held }

/-- A line that the call does not come between is a line of `ProcessLine`. -/
theorem exec_line (s : PromptedSend) {line : Bytes} (hline : IsLine line) (hheld : s.held = .nothing)
    (hprogress : s.uart.commandInProgress = true) (hblank : (dropCr line).all isBlank = false) :
    Runs.exec step s [.line line, .receive, .receive] = some
      { s with
        uart := (s.uart.processLine line).1
        held := .nothing
        heard := s.heard ++ heardOf (dropCr line) } := by
  have htake : step s (.line line) =
      some { s with held := .line (dropCr line), heard := s.heard ++ heardOf (dropCr line) } := by
    rw [step, if_pos ⟨hheld, hline⟩, takeLine, hblank, hprogress]
    rfl
  have hprocess : (s.uart.processLine line).1 = s.uart.absorb (dropCr line) := by
    rw [AtUart.processLine, hblank, hprogress]
    rfl
  rw [Runs.exec_cons, htake, hprocess]
  rfl

/-! ## A payload that was asked for -/

/-- A prompt was heard, and no final status line in front of it. -/
def Prompted (heard : List Heard) : Prop :=
  ∃ before after, heard = before ++ .prompt :: after ∧ .status ∉ before

/-- The payload was written to a module that had prompted for it. -/
def WritesPrompted (s : PromptedSend) : Prop := ∀ heard, s.payload = some heard → Prompted heard

theorem prompted_iff (heard : List Heard) : Prompted heard ↔ heard.head? = some .prompt := by
  constructor
  · rintro ⟨before, after, rfl, hbefore⟩
    cases before with
    | nil => rfl
    | cons h before =>
        cases h with
        | prompt => rfl
        | status => exact absurd List.mem_cons_self hbefore
  · intro h
    cases heard with
    | nil => cases h
    | cons first heard =>
        obtain rfl := Option.some.inj h
        exact ⟨[], heard, rfl, List.not_mem_nil⟩

/-! ## Prompts in time -/

/-- A turn that brings a prompt which the call is told of. -/
def Brings (s : PromptedSend) : Turn → Prop
  | .line line => s.uart.commandInProgress = true ∧ dropCr line = promptLine
  | .prompt => s.uart.promptArmed = true
  | _ => False

/-- No prompt is on its way to the event when it is cleared, none comes from then on to the last
byte of the command, and none comes behind a final status line that was heard first. -/
def Timely (s : PromptedSend) (turn : Turn) : Prop :=
  match s.stage with
  | .clearBits => turn = .go → s.held.raises = false
  | .arm | .write => ¬s.Brings turn
  | .await => s.Brings turn → s.heard.head? ≠ some .status
  | _ => True

instance Brings.decidable (s : PromptedSend) : (turn : Turn) → Decidable (s.Brings turn)
  | .line line =>
      inferInstanceAs (Decidable (s.uart.commandInProgress = true ∧ dropCr line = promptLine))
  | .prompt => inferInstanceAs (Decidable (s.uart.promptArmed = true))
  | .receive | .write _ | .timeout | .go => isFalse id

instance Timely.decidable : (s : PromptedSend) → (turn : Turn) → Decidable (s.Timely turn)
  | ⟨_, _, .clearBits, held, _, _⟩, turn =>
      inferInstanceAs (Decidable (turn = .go → held.raises = false))
  | ⟨uart, cmd, .arm, held, heard, payload⟩, turn =>
      inferInstanceAs (Decidable ¬Brings ⟨uart, cmd, .arm, held, heard, payload⟩ turn)
  | ⟨uart, cmd, .write, held, heard, payload⟩, turn =>
      inferInstanceAs (Decidable ¬Brings ⟨uart, cmd, .write, held, heard, payload⟩ turn)
  | ⟨uart, cmd, .await, held, heard, payload⟩, turn =>
      inferInstanceAs (Decidable
        (Brings ⟨uart, cmd, .await, held, heard, payload⟩ turn → heard.head? ≠ some .status))
  | ⟨_, _, .start, _, _, _⟩, _ | ⟨_, _, .clearResponse, _, _, _⟩, _
  | ⟨_, _, .disarm _, _, _, _⟩, _ | ⟨_, _, .writeData, _, _, _⟩, _ | ⟨_, _, .leave _, _, _, _⟩, _
  | ⟨_, _, .read, _, _, _⟩, _ | ⟨_, _, .returned _, _, _, _⟩, _ => isTrue trivial

/-- The event for prompts is up, or the receive task is about to raise it. -/
def raised (s : PromptedSend) : Bool := s.uart.dataPrompt || s.held.raises

/-- The event that is raised is for a prompt that came behind the command and in front of any
status. -/
def Stands (s : PromptedSend) : Prop :=
  match s.stage with
  | .arm | .write => s.raised = false
  | .await => s.raised = true → Prompted s.heard
  | .disarm .prompt | .writeData => Prompted s.heard
  | _ => True

/-- What timely turns keep. -/
structure Kept (s : PromptedSend) : Prop where
  writes : s.WritesPrompted
  stands : s.Stands

variable {s s' : PromptedSend}

theorem kept_begin (uart : AtUart) (cmdPrefix : Bytes) (held : Held) :
    Kept (begin uart cmdPrefix held) where
  writes := nofun
  stands := trivial

theorem prompted_append {heard : List Heard} (h : Prompted heard) (more : List Heard) :
    Prompted (heard ++ more) := by
  obtain ⟨before, after, rfl, hbefore⟩ := h
  exact ⟨before, after ++ more, by simp, hbefore⟩

/-- A prompt that is heard before any status was asked for. -/
theorem prompted_of_head {heard : List Heard} (h : heard.head? ≠ some .status) :
    Prompted (heard ++ [.prompt]) := by
  rw [prompted_iff]
  cases heard with
  | nil => rfl
  | cons first heard =>
      cases first with
      | prompt => rfl
      | status => exact absurd rfl h

/-! ## What the receive task does -/

/-- More is heard, and a prompt that is to be raised now was brought by a timely turn. -/
theorem Kept.hears (hk : Kept s) {turn : Turn} (ht : s.Timely turn) (hstage : s'.stage = s.stage)
    (hpayload : s'.payload = s.payload) {more : List Heard} (hheard : s'.heard = s.heard ++ more)
    (hraised : s'.raised = true → s.raised = true ∨ s.Brings turn ∧ more = [.prompt]) :
    Kept s' where
  writes heard h := hk.writes heard (hpayload ▸ h)
  stands := by
    have hs := hk.stands
    unfold Stands at hs ⊢
    rw [hstage, hheard]
    cases hst : s.stage with
    | arm =>
        rw [hst] at hs
        rw [Timely, hst] at ht
        refine Bool.eq_false_iff.mpr fun hup => ?_
        obtain hup | hup := hraised hup
        · exact Bool.eq_false_iff.mp hs hup
        · exact ht hup.1
    | write =>
        rw [hst] at hs
        rw [Timely, hst] at ht
        refine Bool.eq_false_iff.mpr fun hup => ?_
        obtain hup | hup := hraised hup
        · exact Bool.eq_false_iff.mp hs hup
        · exact ht hup.1
    | await =>
        rw [hst] at hs
        rw [Timely, hst] at ht
        intro hup
        obtain hup | ⟨hbrings, rfl⟩ := hraised hup
        · exact prompted_append (hs hup) more
        · exact prompted_of_head (ht hbrings)
    | disarm woken =>
        rw [hst] at hs
        cases woken with
        | prompt => exact prompted_append hs more
        | _ => trivial
    | writeData =>
        rw [hst] at hs
        exact prompted_append hs more
    | _ => trivial

theorem heardOf_promptLine : heardOf promptLine = [.prompt] := by decide

theorem Kept.takeLine (hk : Kept s) {line : Bytes} (ht : s.Timely (.line line)) :
    Kept (s.takeLine line) := by
  unfold PromptedSend.takeLine
  dsimp only
  split
  · exact hk
  · rename_i hopen
    obtain ⟨-, hprogress⟩ := Bool.or_eq_false_iff.mp (Bool.eq_false_iff.mpr hopen)
    refine hk.hears ht rfl rfl rfl fun hup => ?_
    obtain hup | hup := Bool.or_eq_true_iff.mp hup
    · exact .inl (Bool.or_eq_true_iff.mpr (.inl hup))
    · have hline : dropCr line = promptLine := beq_iff_eq.mp hup
      refine .inr ⟨⟨?_, hline⟩, ?_⟩
      · simpa using hprogress
      · rw [hline, heardOf_promptLine]

theorem Kept.takePrompt (hk : Kept s) (ht : s.Timely .prompt) : Kept s.takePrompt := by
  refine hk.hears ht rfl rfl rfl fun hup => ?_
  obtain hup | hup := Bool.or_eq_true_iff.mp hup
  · exact .inl (Bool.or_eq_true_iff.mpr (.inl hup))
  · refine .inr ⟨?_, rfl⟩
    by_contra harmed
    have hnothing : s.takePrompt.held = .nothing := if_neg harmed
    rw [hnothing] at hup
    cases hup

/-- The receive task goes on: what it was about to raise it is still about to raise, or it is up. -/
theorem of_receive (h : s.receive = some s') :
    s'.stage = s.stage ∧ s'.payload = s.payload ∧ s'.heard = s.heard ∧ s'.raised = s.raised := by
  unfold PromptedSend.receive at h
  split at h
  · cases h
  · rename_i hheld
    cases h
    rw [raised, raised, hheld]
    exact ⟨rfl, rfl, rfl, rfl⟩
  · rename_i hheld
    cases h
    rw [raised, raised, hheld]
    exact ⟨rfl, rfl, rfl, Bool.or_false _⟩
  · rename_i hheld
    cases h
    rw [raised, raised, hheld]
    exact ⟨rfl, rfl, rfl, (Bool.or_true _).symm⟩

theorem Kept.receive (hk : Kept s) (h : s.receive = some s') : Kept s' := by
  obtain ⟨hstage, hpayload, hheard, hraised⟩ := of_receive h
  constructor
  · intro heard hp
    exact hk.writes heard (hpayload ▸ hp)
  · have hs := hk.stands
    unfold Stands at hs ⊢
    rw [hstage, hheard, hraised]
    exact hs

/-! ## What the call does -/

theorem Kept.call (hk : Kept s) {turn : Turn} (ht : s.Timely turn) (h : s.call turn = some s') :
    Kept s' := by
  have hs := hk.stands
  unfold Stands at hs
  unfold PromptedSend.call at h
  split at h
  · cases h
    exact ⟨hk.writes, trivial⟩
  · cases h
    exact ⟨hk.writes, trivial⟩
  · rename_i hstage
    cases h
    rw [Timely, hstage] at ht
    exact ⟨hk.writes, ht rfl⟩
  · rename_i hstage
    cases h
    rw [hstage] at hs
    exact ⟨hk.writes, hs⟩
  · rename_i hstage
    rw [hstage] at hs
    split at h
    · cases h
      exact ⟨hk.writes, fun hup => absurd hup (Bool.eq_false_iff.mp hs)⟩
    · cases h
      exact ⟨hk.writes, trivial⟩
  · rename_i hstage
    rw [hstage] at hs
    split at h
    · cases h
      refine ⟨hk.writes, ?_⟩
      unfold Stands
      cases hup : s.uart.dataPrompt with
      | true => exact hs (Bool.or_eq_true_iff.mpr (.inl hup))
      | false => exact trivial
    · cases h
  · split at h
    · cases h
    · cases h
      exact ⟨hk.writes, trivial⟩
  · rename_i woken hstage
    cases h
    rw [hstage] at hs
    cases woken with
    | prompt => exact ⟨hk.writes, hs⟩
    | _ => exact ⟨hk.writes, trivial⟩
  · rename_i hstage
    cases h
    rw [hstage] at hs
    refine ⟨fun heard h => ?_, trivial⟩
    obtain rfl := Option.some.inj h
    exact hs
  · rename_i result hstage
    cases h
    cases result with
    | none => exact ⟨hk.writes, trivial⟩
    | some result => exact ⟨hk.writes, trivial⟩
  · cases h
    exact ⟨hk.writes, trivial⟩
  · cases h

/-- A timely turn keeps it. -/
theorem Kept.step (hk : Kept s) {turn : Turn} (ht : s.Timely turn) (h : step s turn = some s') :
    Kept s' := by
  unfold PromptedSend.step at h
  split at h
  · split at h
    · cases h
      exact hk.takeLine ht
    · cases h
  · split at h
    · cases h
      exact hk.takePrompt ht
    · cases h
  · exact hk.receive h
  · exact hk.call ht h

/-! ## Where an untimely turn leads -/

/-- The receive task raises the event for a line that is in the response buffer. -/
theorem exists_up_appended {l : Bytes} (hheld : s.held = .appended l) (h : s.raised = true) :
    ∃ turns t, Runs.exec step s turns = some t ∧ t.stage = s.stage ∧ t.heard = s.heard ∧
      t.uart.dataPrompt = true := by
  have hstep : step s .receive = some { s with uart := s.uart.signal l, held := .nothing } := by
    rw [step, PromptedSend.receive, hheld]
  rw [raised, hheld] at h
  refine ⟨[.receive], { s with uart := s.uart.signal l, held := .nothing }, ?_, rfl, rfl, h⟩
  rw [Runs.exec_cons, hstep]
  rfl

/-- The receive task raises the event that it is about to raise. -/
theorem exists_up (h : s.raised = true) :
    ∃ turns t, Runs.exec step s turns = some t ∧ t.stage = s.stage ∧ t.heard = s.heard ∧
      t.uart.dataPrompt = true := by
  cases hheld : s.held with
  | nothing =>
      rw [raised, hheld] at h
      exact ⟨[], s, rfl, rfl, rfl, (Bool.or_false _).symm.trans h⟩
  | line l =>
      have hstep : step s .receive = some { s with
          uart := { s.uart with responseBuffer := s.uart.responseBuffer ++ l ++ crlf }
          held := .appended l } := by
        rw [step, PromptedSend.receive, hheld]
      rw [raised, hheld] at h
      obtain ⟨turns, t, hrun, ht⟩ := exists_up_appended (s := { s with
        uart := { s.uart with responseBuffer := s.uart.responseBuffer ++ l ++ crlf }
        held := .appended l }) rfl h
      refine ⟨.receive :: turns, t, ?_, ht⟩
      rw [Runs.exec_cons, hstep]
      exact hrun
  | appended l => exact exists_up_appended hheld h
  | prompt =>
      have hstep : step s .receive = some { s with
          uart := { s.uart with dataPrompt := true }, held := .nothing } := by
        rw [step, PromptedSend.receive, hheld]
      refine ⟨[.receive], { s with uart := { s.uart with dataPrompt := true }, held := .nothing },
        ?_, rfl, rfl, rfl⟩
      rw [Runs.exec_cons, hstep]
      rfl

/-- A call that waits while the event is raised goes on to write its payload. -/
theorem exists_payload (hstage : s.stage = .await) (h : s.raised = true) :
    ∃ turns t, Runs.exec step s turns = some t ∧ t.payload = some s.heard := by
  obtain ⟨turns, t, hrun, ht, hheard, hup⟩ := exists_up h
  let woken : PromptedSend := { t with
    uart := { t.uart with responseDone := false, dataPrompt := false }, stage := .disarm .prompt }
  have hwake : step t .go = some woken := by
    change t.call .go = _
    unfold PromptedSend.call
    rw [ht, hstage]
    dsimp only
    rw [hup]
    rfl
  obtain ⟨t', hrest, hpayload⟩ : ∃ t', Runs.exec step woken [.go, .write true] = some t' ∧
      t'.payload = some t.heard := ⟨_, rfl, rfl⟩
  refine ⟨turns ++ [.go, .go, .write true], t', ?_, hpayload.trans (congrArg some hheard)⟩
  rw [Runs.exec_append, hrun, Option.bind_some, Runs.exec_cons, hwake]
  exact hrest

/-- A call that is yet to write its command then writes its payload at once. -/
theorem exists_payload_unsent (hstage : s.stage = .arm ∨ s.stage = .write) (h : s.raised = true) :
    ∃ turns t, Runs.exec step s turns = some t ∧ t.payload = some [] := by
  have hsent : ∀ s : PromptedSend, s.stage = .write → s.raised = true →
      ∃ turns t, Runs.exec step s turns = some t ∧ t.payload = some [] := by
    intro s hstage h
    have hwrite : step s (.write true) = some { s with stage := .await, heard := [] } := by
      change s.call (.write true) = _
      unfold PromptedSend.call
      rw [hstage]
      rfl
    obtain ⟨turns, t, hrun, hpayload⟩ :=
      exists_payload (s := { s with stage := .await, heard := [] }) rfl h
    refine ⟨.write true :: turns, t, ?_, hpayload⟩
    rw [Runs.exec_cons, hwrite]
    exact hrun
  obtain hstage | hstage := hstage
  · have harm : step s .go = some { s with
        uart := { s.uart with promptArmed := true }, stage := .write } := by
      change s.call .go = _
      unfold PromptedSend.call
      rw [hstage]
    obtain ⟨turns, t, hrun, hpayload⟩ := hsent
      { s with uart := { s.uart with promptArmed := true }, stage := .write } rfl h
    refine ⟨.go :: turns, t, ?_, hpayload⟩
    rw [Runs.exec_cons, harm]
    exact hrun
  · exact hsent s hstage h

/-- A turn that brings a prompt has it raised, and a prompt is what was heard last. -/
theorem of_brings {turn : Turn} (hbrings : s.Brings turn) (h : step s turn = some s') :
    s'.raised = true ∧ s'.stage = s.stage ∧ s'.heard = s.heard ++ [.prompt] := by
  cases turn with
  | line line =>
      obtain ⟨hprogress, hline⟩ := hbrings
      have htake : s.takeLine line =
          { s with held := .line promptLine, heard := s.heard ++ [.prompt] } := by
        rw [PromptedSend.takeLine, hline, hprogress]
        rfl
      rw [step] at h
      split at h
      · rw [htake] at h
        cases h
        exact ⟨Bool.or_true _, rfl, rfl⟩
      · cases h
  | prompt =>
      have htake : s.takePrompt.held = .prompt := if_pos hbrings
      rw [step] at h
      split at h
      · cases h
        rw [raised, htake]
        exact ⟨Bool.or_true _, rfl, rfl⟩
      · cases h
  | receive => exact hbrings.elim
  | write complete => exact hbrings.elim
  | timeout => exact hbrings.elim
  | go => exact hbrings.elim

/-- From a turn that is not timely on, the payload may be written to a module that has not
prompted. -/
theorem unprompted_of_not_timely {turn : Turn} (ht : ¬s.Timely turn) (h : step s turn = some s') :
    ∃ turns t, Runs.exec step s' turns = some t ∧ ¬t.WritesPrompted := by
  have hunsent : s'.stage = .arm ∨ s'.stage = .write → s'.raised = true →
      ∃ turns t, Runs.exec step s' turns = some t ∧ ¬t.WritesPrompted := by
    intro hstage hraised
    obtain ⟨turns, t, hrun, hpayload⟩ := exists_payload_unsent hstage hraised
    refine ⟨turns, t, hrun, fun hwrites => ?_⟩
    cases (prompted_iff []).mp (hwrites [] hpayload)
  cases hst : s.stage with
  | clearBits =>
      rw [Timely, hst] at ht
      obtain ⟨rfl, hheld⟩ := Classical.not_imp.mp ht
      change s.call .go = some s' at h
      unfold PromptedSend.call at h
      rw [hst] at h
      cases h
      exact hunsent (.inl rfl) ((Bool.not_eq_false _).mp hheld)
  | arm =>
      rw [Timely, hst] at ht
      obtain ⟨hraised, hstage, -⟩ := of_brings (not_not.mp ht) h
      exact hunsent (.inl (hstage.trans hst)) hraised
  | write =>
      rw [Timely, hst] at ht
      obtain ⟨hraised, hstage, -⟩ := of_brings (not_not.mp ht) h
      exact hunsent (.inr (hstage.trans hst)) hraised
  | await =>
      rw [Timely, hst] at ht
      obtain ⟨hbrings, hstatus⟩ := Classical.not_imp.mp ht
      obtain ⟨hraised, hstage, hheard⟩ := of_brings hbrings h
      obtain ⟨turns, t, hrun, hpayload⟩ := exists_payload (hstage.trans hst) hraised
      refine ⟨turns, t, hrun, fun hwrites => ?_⟩
      have hhead := (prompted_iff _).mp (hwrites _ hpayload)
      rw [hheard, List.head?_append, not_not.mp hstatus] at hhead
      cases hhead
  | _ =>
      rw [Timely, hst] at ht
      exact absurd trivial ht

/-! ## Runs -/

/-- In every run of timely turns the payload is written to a module that prompted for it. -/
theorem writesPrompted_of_timely (uart : AtUart) (cmdPrefix : Bytes) (held : Held)
    {turns : List Turn} (ht : Runs.Along step (fun s turn _ => s.Timely turn)
      (begin uart cmdPrefix held) turns)
    (hrun : Runs.exec step (begin uart cmdPrefix held) turns = some s') : s'.WritesPrompted :=
  (ht.invariant (fun _ _ _ hk ht h => hk.step ht h) (kept_begin uart cmdPrefix held) hrun).writes

/-- The turns of a call whose prompt comes behind its command. -/
def promptedTurns : List Turn :=
  [.go, .go, .go, .go, .write true, .prompt, .receive, .go, .go, .write true]

theorem writesPrompted_of_timely_bare :
    ∃ s', Runs.exec step (begin {} [65] .nothing) promptedTurns = some s' ∧
      s'.payload = some [.prompt] ∧ s'.WritesPrompted := by
  have ht : Runs.Along step (fun s turn _ => s.Timely turn) (begin {} [65] .nothing)
      promptedTurns := by decide
  exact ⟨_, rfl, rfl, writesPrompted_of_timely {} [65] .nothing ht rfl⟩

/-- A prompt that an earlier command left behind comes while this one is being written. -/
def staleTurns : List Turn :=
  [.go, .go, .go, .go, .prompt, .receive, .write true, .go, .go, .write true]

/-- The payload is written although the command has not been answered. -/
theorem stale_prompt_taken :
    ∃ s', Runs.exec step (begin {} [65] .nothing) staleTurns = some s' ∧ ¬s'.WritesPrompted := by
  refine ⟨_, rfl, fun hwrites => ?_⟩
  cases (prompted_iff []).mp (hwrites [] rfl)

end PromptedSend

end EspModemLink.AtChannel
