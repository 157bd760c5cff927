import EspModemLink.Air780e.State
import EspModemLink.AtChannel.Replies

/-!
# Queries and the events between their lines

Six queries of each HAL take the first line of a response for the answer. An event of a socket that
arrives in front of the answer is in the response as well, and is read instead of it.
-/

namespace EspModemLink.Hal.Query

open Bytes AtChannel AtParser

/-! ## The queries -/

inductive RegistrationState where
  | kNotRegistered | kRegisteredHome | kSearching | kRegistrationDenied | kUnknown
  | kRegisteredRoaming
deriving DecidableEq

structure SignalInfo where
  rssi : Int := 0
  ber : Int := 0
deriving DecidableEq

/-- `ReadSingleLineResponse` of either HAL, on what `SendCommand` and `GetResponseLines` answer. -/
def readSingleLineResponse (sent : AtResult Unit) (lines : List Bytes) : Result Bytes :=
  match sent with
  | .error e => .error e.toNetworkError
  | .ok () =>
      match lines with
      | [] => .error ⟨.kProtocolError, 0, "empty response"⟩
      | line :: _ => .ok line

/-- The fields of a line behind its key. -/
def fieldsOf (line : Bytes) : List Bytes := splitCsv (stripKeyPrefix line)

/-- The states that a HAL tells apart. -/
def registrationState : Int → RegistrationState
  | 0 => .kNotRegistered
  | 1 => .kRegisteredHome
  | 2 => .kSearching
  | 3 => .kRegistrationDenied
  | 5 => .kRegisteredRoaming
  | _ => .kUnknown

section

/-! The HALs differ in what they do with a field before they parse it. -/

variable (clean : Bytes → Bytes)

def getRegistrationStateBy (result : Result Bytes) : RegistrationState :=
  match result with
  | .error _ => .kUnknown
  | .ok line =>
      match fieldsOf line with
      | [] => .kUnknown
      | [stat] | _ :: stat :: _ => ((parseInt (clean stat)).map registrationState).getD .kUnknown

/-- The value that is returned is the one that `last_signal_` has then. -/
def getSignalInfoBy (last : SignalInfo) (result : Result Bytes) : SignalInfo :=
  match result with
  | .error _ => last
  | .ok line =>
      match fieldsOf line with
      | rssi :: ber :: _ =>
          { rssi := (parseInt (clean rssi)).getD 99, ber := (parseInt (clean ber)).getD 99 }
      | _ => last

def getCarrierBy (result : Result Bytes) : Result Bytes :=
  match result with
  | .error e => .error e
  | .ok line =>
      match fieldsOf line with
      | _ :: _ :: oper :: _ => .ok (stripQuotes (clean oper))
      | _ => .error ⟨.kProtocolError, 0, "failed to parse COPS"⟩

/-- The query in `ActivatePdp`: the context is up already. -/
def pdpActiveBy (result : Result Bytes) : Bool :=
  match result with
  | .error _ => false
  | .ok line =>
      match fieldsOf line with
      | _ :: state :: _ => parseInt (clean state) == some 1
      | _ => false

/-- `ActivatePdp` on the answer to its query and the outcome of the activation. -/
def activatePdpBy (result : Result Bytes) (activation : AtResult Unit) : Result Unit :=
  if pdpActiveBy clean result then .ok ()
  else
    match activation with
    | .error e => .error e.toNetworkError
    | .ok () => .ok ()

/-- What `GetImei` and `GetIccid` take out of the line. -/
def keyedText (result : Result Bytes) : Result Bytes :=
  result.map fun line => stripQuotes (stripKeyPrefix line)

end

namespace Air780eHal

def getRegistrationState : Result Bytes → RegistrationState := getRegistrationStateBy Air780e.trim
def getSignalInfo : SignalInfo → Result Bytes → SignalInfo := getSignalInfoBy Air780e.trim
def getCarrier : Result Bytes → Result Bytes := getCarrierBy Air780e.trim
def getImei : Result Bytes → Result Bytes := keyedText
def getIccid : Result Bytes → Result Bytes := keyedText
def pdpActive : Result Bytes → Bool := pdpActiveBy Air780e.trim
def activatePdp : Result Bytes → AtResult Unit → Result Unit := activatePdpBy Air780e.trim

end Air780eHal

namespace Ml307Hal

def getRegistrationState : Result Bytes → RegistrationState := getRegistrationStateBy id
def getSignalInfo : SignalInfo → Result Bytes → SignalInfo := getSignalInfoBy id
def getCarrier : Result Bytes → Result Bytes := getCarrierBy id
def getImei : Result Bytes → Result Bytes := keyedText
def getIccid : Result Bytes → Result Bytes := keyedText
def pdpActive : Result Bytes → Bool := pdpActiveBy id
def activatePdp : Result Bytes → AtResult Unit → Result Unit := activatePdpBy id

end Ml307Hal

inductive HalKind where
  | air780e | ml307
deriving DecidableEq

inductive Question where
  | registrationState | signalInfo | carrier | imei | iccid | pdpState
deriving DecidableEq

inductive Answer where
  | registrationState (state : RegistrationState)
  | signalInfo (info : SignalInfo)
  | text (result : Result Bytes)
  | pdpState (active : Bool)
deriving DecidableEq

/-- The command of a query. -/
def command : HalKind → Question → Bytes
  | _, .registrationState => ascii ['A', 'T', '+', 'C', 'E', 'R', 'E', 'G', '?']
  | _, .signalInfo => ascii ['A', 'T', '+', 'C', 'S', 'Q']
  | _, .carrier => ascii ['A', 'T', '+', 'C', 'O', 'P', 'S', '?']
  | _, .imei => ascii ['A', 'T', '+', 'C', 'G', 'S', 'N', '=', '1']
  | _, .iccid => ascii ['A', 'T', '+', 'I', 'C', 'C', 'I', 'D']
  | .air780e, .pdpState => ascii ['A', 'T', '+', 'C', 'G', 'A', 'C', 'T', '?']
  | .ml307, .pdpState => ascii ['A', 'T', '+', 'M', 'I', 'P', 'C', 'A', 'L', 'L', '?']

/-- What a query makes of the line. -/
def answer (last : SignalInfo) : HalKind → Question → Result Bytes → Answer
  | .air780e, .registrationState, r => .registrationState (Air780eHal.getRegistrationState r)
  | .air780e, .signalInfo, r => .signalInfo (Air780eHal.getSignalInfo last r)
  | .air780e, .carrier, r => .text (Air780eHal.getCarrier r)
  | .air780e, .imei, r => .text (Air780eHal.getImei r)
  | .air780e, .iccid, r => .text (Air780eHal.getIccid r)
  | .air780e, .pdpState, r => .pdpState (Air780eHal.pdpActive r)
  | .ml307, .registrationState, r => .registrationState (Ml307Hal.getRegistrationState r)
  | .ml307, .signalInfo, r => .signalInfo (Ml307Hal.getSignalInfo last r)
  | .ml307, .carrier, r => .text (Ml307Hal.getCarrier r)
  | .ml307, .imei, r => .text (Ml307Hal.getImei r)
  | .ml307, .iccid, r => .text (Ml307Hal.getIccid r)
  | .ml307, .pdpState, r => .pdpState (Ml307Hal.pdpActive r)

/-- What a query returns when the lines and then `OK` arrive. -/
def asked (last : SignalInfo) (hal : HalKind) (q : Question) (lines : List Bytes) : Answer :=
  answer last hal q (readSingleLineResponse (response lines).result (response lines).lines)

/-- A query over the channel returns what it makes of the response. -/
theorem exec_asked (uart : AtUart) (last : SignalInfo) (hal : HalKind) (q : Question)
    {lines : List Bytes} (h : ∀ l ∈ lines, IsLine l) :
    ∃ c sent, Runs.exec Call.step (Call.begin uart (.sendCommand (command hal q)))
        (replyMoves lines) = some c ∧ c.phase = .returned sent ∧
      answer last hal q (readSingleLineResponse sent c.uart.parsedResponse.lines) =
        asked last hal q lines := by
  obtain ⟨c, hrun, hphase, hresponse⟩ := exec_sendCommand uart (command hal q) h
  refine ⟨c, _, hrun, hphase, ?_⟩
  rw [hresponse]
  rfl

/-! ## Events -/

/-- The complete lines that tell of a socket. -/
def IsEvent : HalKind → Bytes → Prop
  | .air780e, line => ∃ id : ℕ,
      line = ascii ['+', 'C', 'I', 'P', 'R', 'X', 'G', 'E', 'T', ':', ' ', '1', ','] ++ decimal id ∨
      line = decimal id ++ ascii [',', ' ', 'C', 'L', 'O', 'S', 'E', 'D'] ∨
      line = decimal id ++ ascii [',', ' ', 'S', 'E', 'N', 'D', ' ', 'O', 'K']
  | .ml307, line =>
      (∃ rest, line = ascii ['+', 'M', 'I', 'P', 'U', 'R', 'C', ':', ' '] ++ rest) ∨
      (∃ id : ℕ, line = ascii ['+', 'M', 'I', 'P', 'C', 'L', 'O', 'S', 'E', ':', ' '] ++ decimal id) ∨
      ∃ id code : ℕ, line =
        ascii ['+', 'M', 'I', 'P', 'O', 'P', 'E', 'N', ':', ' '] ++ decimal id ++ [44] ++ decimal code

/-- A reply with the lines that were inserted marked. -/
abbrev Marked := List (Bool × Bytes)

/-- Every line that arrives. -/
def whole (marked : Marked) : List Bytes := marked.map Prod.snd

/-- The reply without the inserted lines. -/
def original (marked : Marked) : List Bytes := (marked.filter fun l => !l.1).map Prod.snd

/-- Lines between which events may have been inserted, in front of the final `OK`. -/
structure Well (hal : HalKind) (marked : Marked) : Prop where
  lines : ∀ l ∈ marked, IsLine l.2
  events : ∀ l ∈ marked, l.1 = true → IsEvent hal l.2
  final : ∀ l ∈ marked, l.1 = false → finalStatus l.2 = none

/-- The value is the one for the reply without the events. -/
def Survives (last : SignalInfo) (hal : HalKind) (q : Question) (marked : Marked) : Prop :=
  asked last hal q (whole marked) = asked last hal q (original marked)

/-- The inserted line that is in front of the first line of the reply, but for an echo. -/
def overtaking : (first : Bool) → Marked → Option Bytes
  | _, [] => none
  | first, (inserted, raw) :: rest =>
      let line := trimBy isSpace raw
      if line = [] then overtaking first rest
      else if first && isEcho line then overtaking false rest
      else if inserted then some line else none

/-- The first line, if there is one. -/
def firstLine : Option Bytes → Result Bytes
  | none => .error ⟨.kProtocolError, 0, "empty response"⟩
  | some line => .ok line

/-- By accident the event has the same fields for the query as the first line of the reply. -/
def Agrees (last : SignalInfo) (hal : HalKind) (q : Question) (event : Bytes) (line : Option Bytes) :
    Prop :=
  answer last hal q (.ok event) = answer last hal q (firstLine line)

/-! ## What events are not -/

/-- A line that is neither empty nor an echo nor a status line. -/
structure Plain (line : Bytes) : Prop where
  nonempty : trimBy isSpace line ≠ []
  echo : isEcho (trimBy isSpace line) = false
  status : isStatusLine (trimBy isSpace line) = none

/-- A line is plain when its first bytes tell it from an echo and from every status line. -/
theorem plain_of_front (front : Bytes) {rest : Bytes} {c d : UInt8} (hhead : front.head? = some c)
    (hc : isSpace c = false) (hlast : front.getLast? = some d) (hd : isSpace d = false)
    (hecho : ∀ t, isEcho (front ++ t) = false) (hstatus : ∀ t, statusError (front ++ t) = none) :
    Plain (front ++ rest) := by
  have htrim : trimBy isSpace (front ++ rest) = front ++ (rest.reverse.dropWhile isSpace).reverse :=
    trimBy_append_of_keeps hhead hc hlast hd rest
  constructor
  · rw [htrim]
    intro hnil
    rw [(List.append_eq_nil_iff.mp hnil).1] at hhead
    cases hhead
  · rw [htrim]
    exact hecho _
  · rw [isStatusLine, trimBy_isSpace_idem, htrim]
    exact hstatus _

theorem plain_of_digit {c : UInt8} (hc : isDigit c = true) (rest : Bytes) : Plain (c :: rest) := by
  have hbounds : 48 ≤ c ∧ c ≤ 57 := by
    simpa [isDigit] using hc
  have hspace : isSpace c = false := isSpace_of_isDigit hc
  have hne : ∀ b : UInt8, ¬(48 ≤ b ∧ b ≤ 57) → c ≠ b := by
    rintro b hb rfl
    exact hb hbounds
  apply plain_of_front [c] rfl hspace rfl hspace
  · intro t
    simp [isEcho, startsWith, ascii, List.isPrefixOf, (hne 65 (by decide)).symm, (hne 97 (by decide)).symm]
  · intro t
    simp [statusError, okLine, errorLine, promptLine, cmeErrorKey, cmsErrorKey, ascii, startsWith,
      List.isPrefixOf, hne 79 (by decide), hne 69 (by decide), hne 62 (by decide),
      (hne 43 (by decide)).symm]

/-- A number begins with a digit. -/
theorem decimal_eq_cons (n : ℕ) : ∃ c rest, decimal n = c :: rest ∧ isDigit c = true := by
  obtain ⟨c, rest, hcons⟩ := List.exists_cons_of_ne_nil (decimal_ne_nil n)
  refine ⟨c, rest, hcons, isDigit_of_mem_decimal n c ?_⟩
  rw [hcons]
  exact List.mem_cons_self ..

/-- Events are plain lines. -/
theorem IsEvent.plain {hal : HalKind} {line : Bytes} (h : IsEvent hal line) : Plain line := by
  cases hal with
  | air780e =>
      obtain ⟨id, rfl | rfl | rfl⟩ := h
      · exact plain_of_front [43, 67, 73] rfl rfl rfl rfl (fun t => rfl) (fun t => rfl)
      · obtain ⟨c, rest, hid, hc⟩ := decimal_eq_cons id
        rw [hid]
        exact plain_of_digit hc _
      · obtain ⟨c, rest, hid, hc⟩ := decimal_eq_cons id
        rw [hid]
        exact plain_of_digit hc _
  | ml307 =>
      have hkey : ∀ rest, Plain ([43, 77] ++ rest) := fun rest =>
        plain_of_front [43, 77] rfl rfl rfl rfl (fun t => rfl) (fun t => rfl)
      obtain ⟨rest, rfl⟩ | ⟨id, rfl⟩ | ⟨id, code, rfl⟩ := h
      · exact hkey _
      · exact hkey _
      · exact hkey _

theorem Plain.finalStatus_eq_none {line : Bytes} (h : Plain line) : finalStatus line = none :=
  finalStatus_of_isStatusLine h.status

/-! ## The line that is read -/

section

variable {last : SignalInfo} {hal : HalKind} {q : Question} {marked : Marked}

theorem original_cons_false (raw : Bytes) (marked : Marked) :
    original ((false, raw) :: marked) = raw :: original marked := rfl

/-- The first line of the response is an event in front of the reply, or the first one of the
reply. -/
theorem firstAnswer_whole (first : Bool)
    (hevents : ∀ l ∈ marked, l.1 = true → Plain l.2) :
    firstAnswer first (whole marked) =
      (overtaking first marked).or (firstAnswer first (original marked)) := by
  induction marked generalizing first with
  | nil => rfl
  | cons l marked ih =>
      have htail := fun first => ih first fun l hl => hevents l (List.mem_cons_of_mem _ hl)
      obtain ⟨inserted, raw⟩ := l
      change firstAnswer first (raw :: whole marked) = _
      cases inserted with
      | true =>
          -- an event is never passed over
          have hplain : Plain raw := hevents _ (List.mem_cons_self ..) rfl
          rw [firstAnswer, overtaking]
          simp [hplain.nonempty, hplain.echo, hplain.status]
      | false =>
          rw [original_cons_false, firstAnswer, firstAnswer, overtaking]
          by_cases hempty : trimBy isSpace raw = []
          · simp only [if_pos hempty]
            exact htail first
          · by_cases hecho : (first && isEcho (trimBy isSpace raw)) = true
            · simp only [if_neg hempty, if_pos hecho]
              exact htail false
            · simp [hempty, hecho]

/-- As soon as the reply has been answered, nothing overtakes the answer. -/
theorem overtaking_append {front : Marked} (back : Marked) (first : Bool)
    (hfront : ∀ l ∈ front, l.1 = false) (hanswer : firstAnswer first (whole front) ≠ none) :
    overtaking first (front ++ back) = none := by
  induction front generalizing first with
  | nil => exact absurd rfl hanswer
  | cons l front ih =>
      have htail := fun first => ih first fun l hl => hfront l (List.mem_cons_of_mem _ hl)
      obtain ⟨inserted, raw⟩ := l
      obtain rfl : inserted = false := hfront _ (List.mem_cons_self ..)
      change firstAnswer first (raw :: whole front) ≠ none at hanswer
      rw [firstAnswer] at hanswer
      rw [List.cons_append, overtaking]
      by_cases hempty : trimBy isSpace raw = []
      · simp only [if_pos hempty] at hanswer ⊢
        exact htail first hanswer
      · by_cases hecho : (first && isEcho (trimBy isSpace raw)) = true
        · simp only [if_neg hempty, if_pos hecho] at hanswer ⊢
          exact htail false hanswer
        · simp [hempty, hecho]

theorem readSingleLineResponse_ok (lines : List Bytes) :
    readSingleLineResponse (.ok ()) lines = firstLine lines.head? := by
  cases lines <;> rfl

/-- A query reads the first line of a reply without an error. -/
theorem asked_eq {lines : List Bytes} (hlines : ∀ l ∈ lines, IsLine l)
    (hfinal : ∀ l ∈ lines, finalStatus l = none) :
    asked last hal q lines = answer last hal q (firstLine (firstAnswer true lines)) := by
  rw [asked, response_result hlines hfinal, readSingleLineResponse_ok, response_head? hlines]

theorem mem_original {line : Bytes} (h : line ∈ original marked) : (false, line) ∈ marked := by
  obtain ⟨⟨inserted, raw⟩, hl, rfl⟩ := List.mem_map.mp h
  obtain ⟨hmem, hinserted⟩ := List.mem_filter.mp hl
  have : inserted = false := by simpa using hinserted
  exact this ▸ hmem

theorem Well.asked_whole (hw : Well hal marked) :
    asked last hal q (whole marked) =
      answer last hal q (firstLine ((overtaking true marked).or (firstAnswer true (original marked)))) := by
  have hplain : ∀ l ∈ marked, l.1 = true → Plain l.2 := fun l hl hi => (hw.events l hl hi).plain
  rw [← firstAnswer_whole true hplain]
  apply asked_eq
  · intro line hline
    obtain ⟨l, hl, rfl⟩ := List.mem_map.mp hline
    exact hw.lines l hl
  · intro line hline
    obtain ⟨l, hl, rfl⟩ := List.mem_map.mp hline
    cases hinserted : l.1 with
    | true => exact (hplain l hl hinserted).finalStatus_eq_none
    | false => exact hw.final l hl hinserted

theorem Well.asked_original (hw : Well hal marked) :
    asked last hal q (original marked) =
      answer last hal q (firstLine (firstAnswer true (original marked))) := by
  apply asked_eq
  · intro line hline
    exact hw.lines _ (mem_original hline)
  · intro line hline
    exact hw.final _ (mem_original hline) rfl

/-- A query survives the events in its reply exactly when none of them is in front of the first line of
the reply, but for events that happen to read like that line. -/
theorem survives_iff (hw : Well hal marked) :
    Survives last hal q marked ↔
      ∀ event, overtaking true marked = some event →
        Agrees last hal q event (firstAnswer true (original marked)) := by
  rw [Survives, hw.asked_whole, hw.asked_original]
  cases hovertaking : overtaking true marked with
  | none =>
      refine ⟨fun _ event hevent => ?_, fun _ => rfl⟩
      cases hevent
  | some event =>
      constructor
      · intro h event' hevent
        obtain rfl := Option.some.inj hevent
        exact h
      · intro h
        exact h event rfl

/-- Events behind the first line of the reply do no harm. -/
theorem survives_of_answered {front back : Marked} (hw : Well hal (front ++ back))
    (hfront : ∀ l ∈ front, l.1 = false) (hanswer : firstAnswer true (whole front) ≠ none) :
    Survives last hal q (front ++ back) := by
  rw [Survives, hw.asked_whole, hw.asked_original, overtaking_append back true hfront hanswer,
    Option.none_or]

end

/-! ## A close behind the answer, and one in front of it -/

/-- `+CSQ: 21,0`. -/
def csqLine : Bytes := ascii ['+', 'C', 'S', 'Q', ':', ' ', '2', '1', ',', '0']

/-- `0, CLOSED`. -/
def closedLine : Bytes := ascii ['0', ',', ' ', 'C', 'L', 'O', 'S', 'E', 'D']

theorem well_csq {marked : Marked} (h : ∀ l ∈ marked, l = (false, csqLine) ∨ l = (true, closedLine)) :
    Well .air780e marked := by
  constructor
  · intro l hl
    obtain rfl | rfl := h l hl <;> decide
  · intro l hl hinserted
    obtain rfl | rfl := h l hl
    · cases hinserted
    · exact ⟨0, .inr (.inl (by decide))⟩
  · intro l hl hinserted
    obtain rfl | rfl := h l hl
    · decide
    · cases hinserted

theorem survives_iff_behind :
    Survives {} .air780e .signalInfo [(false, csqLine), (true, closedLine)] := by
  apply (survives_iff (well_csq (by simp))).mpr
  intro event hevent
  have hnone : overtaking true [(false, csqLine), (true, closedLine)] = none := by decide
  rw [hnone] at hevent
  cases hevent

/-- The id of a socket that closed is read as the strength of the signal. -/
theorem closedSocket_signal :
    ¬ ∀ (last : SignalInfo) hal q (marked : Marked), Well hal marked → Survives last hal q marked := by
  intro h
  have hsurvives := h {} .air780e .signalInfo [(true, closedLine), (false, csqLine)]
    (well_csq (by simp))
  exact absurd hsurvives (by unfold Survives; decide +kernel)

end EspModemLink.Hal.Query
