import EspModemLink.WebSocket.Inbound

/-!
# Messages out of the inbound frames

What `HandleFrame` makes of the frames of an open connection is what the frames say: the messages
in order, and the failure at the first violation.
-/

namespace EspModemLink.WebSocket

open Bytes Http

/-! ## Sections that answer and report -/

/-- Sections that are executed for a frame and have no part in receiving: callbacks, the sends of
`SendFrame` and `Fail`, and the end of `Teardown`. -/
def light : Sect → Bool
  | .callback _ | .inCallback | .storeLastSent => true
  | .sendFrame .kPong _ _ .handler | .frameSent .handler _ => true
  | .transportSend _ _ (.sendFrame .handler) | .sending _ _ (.sendFrame .handler) => true
  | .transportSend _ _ (.sendCloseFrame .fail) | .sending _ _ (.sendCloseFrame .fail) => true
  | .closeFrameSent .fail => true
  | .transportDisconnect _ | .disconnecting _ | .notifyDisconnected .. => true
  | _ => false

/-- What a section is still to show. -/
def Sect.due : Sect → List Outcome
  | .callback c => (Event.callback c).outcome.toList
  | .transportSend _ bytes _ => ((closeCode bytes).map Outcome.closing).toList
  | .sendCloseFrame code _ _ => [.closing code]
  | .teardown code _ => [.tornDown code, .disconnected code]
  | .notifyDisconnected code _ => [.disconnected code]
  | _ => []

def due (sects : List Sect) : List Outcome := sects.flatMap Sect.due

theorem due_cons (s : Sect) (sects : List Sect) : due (s :: sects) = s.due ++ due sects := rfl

theorem due_append (front back : List Sect) : due (front ++ back) = due front ++ due back :=
  List.flatMap_append

/-- A section for a frame of connection `n` that leaves `sects` to do: the connection is as it was,
and what is shown and what is due add up to what they were. -/
structure Answers (n : ℕ) (s : Sect) (w w' : Conn) (ks : List Task) (sects : List Sect) : Prop where
  aside : Conn.Aside (.frame n) w w'
  state : w'.client.state = w.client.state
  transport : w'.client.transport = w.client.transport
  sections : ks.filter inbound = (Origin.frame n).tasks sects
  light : ∀ s ∈ sects, light s = true
  shown : ∃ new, outcomesOn n w'.trace = outcomesOn n w.trace ++ new ∧ new ++ due sects = s.due

theorem filter_frame (n : ℕ) (sects : List Sect) :
    ((Origin.frame n).tasks sects).filter inbound = (Origin.frame n).tasks sects := by
  rw [List.filter_eq_self]
  intro k hk
  obtain ⟨s, -, rfl⟩ := List.mem_map.mp hk
  rfl

section

variable {n : ℕ} {w w' v : Conn} {ks : List Task} {s : Sect} {sects : List Sect}

theorem Answers.of_push (h : some (v, (Origin.frame n).tasks sects) = some (w', ks))
    (haside : Conn.Aside (.frame n) w v) (hstate : v.client.state = w.client.state)
    (htransport : v.client.transport = w.client.transport)
    (hlight : sects.all EspModemLink.WebSocket.light = true)
    (hshown : ∃ new, outcomesOn n v.trace = outcomesOn n w.trace ++ new ∧ new ++ due sects = s.due) :
    Answers n s w w' ks sects := by
  obtain ⟨rfl, rfl⟩ := Prod.mk.inj (Option.some.inj h)
  exact ⟨haside, hstate, htransport, filter_frame n sects, List.all_eq_true.mp hlight, hshown⟩

/-- Nothing is logged. -/
theorem Answers.silent (h : some (v, (Origin.frame n).tasks sects) = some (w', ks))
    (haside : Conn.Aside (.frame n) w v) (hstate : v.client.state = w.client.state)
    (htransport : v.client.transport = w.client.transport) (htrace : v.trace = w.trace)
    (hlight : sects.all EspModemLink.WebSocket.light = true) (hdue : due sects = s.due) :
    Answers n s w w' ks sects :=
  .of_push h haside hstate htransport hlight ⟨[], by rw [htrace, List.append_nil], hdue⟩

/-- An event is logged that shows what was due. -/
theorem Answers.logs {e : Event} (h : some (w.log (.frame n) e, (Origin.frame n).tasks sects) =
    some (w', ks)) (hlight : sects.all EspModemLink.WebSocket.light = true)
    (hdue : e.outcome.toList ++ due sects = s.due) : Answers n s w w' ks sects := by
  refine .of_push h (.logged _ _ _) rfl rfl hlight ⟨e.outcome.toList, ?_, hdue⟩
  rw [Conn.log_trace, outcomesOn_append, outcomesOn_own]

/-- The transport reports or delivers out of the call. -/
theorem answers_deliverWithin {c : Choice} (hc : ∀ bytes, c ≠ .data bytes)
    (hlight : light s = true)
    (h : w.deliverWithin ⟨.frame n, s⟩ c = some (w', ks)) : Answers n s w w' ks [s] := by
  simp only [Conn.deliverWithin, Option.map_eq_some_iff, Prod.mk.injEq] at h
  obtain ⟨tasks, hdelivery, rfl, rfl⟩ := h
  cases c with
  | data bytes => exact absurd rfl (hc bytes)
  | closed =>
      obtain rfl := Option.some.inj hdelivery
      refine ⟨.rfl, rfl, rfl, ?_, by simpa using hlight, [], by simp, by simp [due]⟩
      rw [List.singleton_append, List.filter_cons_of_neg (by decide),
        List.filter_cons_of_pos rfl, List.filter_nil]
      rfl
  | _ => cases hdelivery

variable [Target]

/-- Every light section shows what it owes, or leaves it to light sections. -/
theorem answers_of_light {i : ℕ} {c : Choice} (hlight : light s = true)
    (hc : ∀ bytes, c ≠ .data bytes) (hcall : ∀ call, c ≠ .call call)
    (h : Conn.exec i ⟨.frame n, s⟩ c w = some (w', ks)) : ∃ sects, Answers n s w w' ks sects := by
  unfold light at hlight
  split at hlight
  · -- a callback begins
    cases c with
    | go => exact ⟨[.inCallback], .logs h rfl (by simp [due, Sect.due])⟩
    | _ => cases h
  · -- and ends
    cases c with
    | go => exact ⟨[], .silent h .rfl rfl rfl rfl rfl rfl⟩
    | call call => exact absurd rfl (hcall call)
    | _ => cases h
  · cases c with
    | now ms =>
        obtain ⟨v, hclock, h⟩ := Option.bind_eq_some_iff.mp h
        obtain rfl : { w with clock := ms } = v := by
          simp only [Conn.readClock] at hclock
          split at hclock
          · exact Option.some.inj hclock
          · cases hclock
        refine ⟨[], .silent h ⟨rfl, rfl, rfl, rfl, rfl, rfl, rfl, [], by simp⟩ rfl rfl rfl
          (by simp) rfl⟩
    | _ => cases h
  · -- a pong is framed
    rename_i payload fin
    obtain ⟨mask, rfl⟩ : ∃ mask, c = .random [mask] := by
      cases c with
      | random words =>
          rcases words with _ | ⟨mask, _ | ⟨_, _⟩⟩
          · cases h
          · exact ⟨mask, rfl⟩
          · cases h
      | _ => cases h
    change some ((w.sendFrame .kPong payload fin .handler mask).1,
      (Origin.frame n).tasks (w.sendFrame .kPong payload fin .handler mask).2) = some (w', ks) at h
    unfold Conn.sendFrame at h
    split at h
    · exact ⟨_, .silent h .rfl rfl rfl rfl rfl rfl⟩
    · rename_i encoded hencoded
      split at h
      · exact ⟨_, .silent h .rfl rfl rfl rfl rfl rfl⟩
      · refine ⟨_, .silent h .rfl rfl rfl rfl rfl ?_⟩
        have hnone := closeCode_of_other hencoded (by decide)
        simp [due, Sect.due, hnone]
  · cases c with
    | go => exact ⟨[], .silent h .rfl rfl rfl rfl rfl rfl⟩
    | _ => cases h
  · cases c with
    | go => exact ⟨_, .logs h rfl (by simp [due, Sect.due, Event.outcome])⟩
    | _ => cases h
  · rename_i t bytes
    cases c with
    | answer result =>
        cases result with
        | error e =>
            exact ⟨[.frameSent .handler (.error e)], .logs h rfl
              (by simp [due, Sect.due, Event.outcome])⟩
        | ok sent =>
            exact ⟨[.storeLastSent, .frameSent .handler (.ok ())], .logs h rfl
              (by simp [due, Sect.due, Event.outcome])⟩
    | closed | data => exact ⟨_, answers_deliverWithin hc rfl h⟩
    | _ => cases h
  · cases c with
    | go => exact ⟨_, .logs h rfl (by simp [due, Sect.due, Event.outcome])⟩
    | _ => cases h
  · cases c with
    | answer result =>
        exact ⟨[.storeLastSent, .closeFrameSent .fail], .logs h rfl
          (by simp [due, Sect.due, Event.outcome])⟩
    | closed | data => exact ⟨_, answers_deliverWithin hc rfl h⟩
    | _ => cases h
  · cases c with
    | go => exact ⟨[], .silent h .rfl rfl rfl rfl rfl rfl⟩
    | _ => cases h
  · cases c with
    | go =>
        exact ⟨_, .logs h rfl (by simp [due, Sect.due, Event.outcome])⟩
    | _ => cases h
  · cases c with
    | go => exact ⟨[], .silent h .rfl rfl rfl rfl rfl rfl⟩
    | closed | data => exact ⟨_, answers_deliverWithin hc rfl h⟩
    | _ => cases h
  · cases c with
    | go =>
        exact ⟨[_], .silent h (.client ⟨rfl, rfl, rfl, rfl, rfl⟩) rfl rfl rfl rfl rfl⟩
    | _ => cases h
  · cases hlight

end

/-! ## One frame -/

section

variable {s : Reassembled} (hs : s.violation = none)
include hs

theorem Reassembled.outcomes_deliver (payload : Bytes) (binary : Bool) :
    (s.deliver payload binary).outcomes = s.outcomes ++ [Outcome.message payload binary] := by
  simp [outcomes, deliver, hs]

theorem Reassembled.outcomes_under (binary : Bool) (payload : Bytes) :
    (s.under binary payload).outcomes = s.outcomes := by
  simp [outcomes, under, hs]

theorem Reassembled.outcomes_fail (v : Violation) :
    (s.fail v).outcomes = s.outcomes ++ v.outcomes := by
  simp [outcomes, fail, hs]

end

/-- The message under way as the client holds it. -/
def underWay (c : SoftwareWsClient) : Option (Bool × Bytes) :=
  if c.fragmentOpen then some (c.fragmentBinary, c.fragmentPayload) else none

/-- Everything but the message under way is as it was. -/
structure SameButMessage (w w' : Conn) : Prop where
  rxBuffer : w'.client.rxBuffer = w.client.rxBuffer
  state : w'.client.state = w.client.state
  transport : w'.client.transport = w.client.transport
  done : w'.client.handshakeDone = w.client.handshakeDone
  draining : w'.draining = w.draining
  connection : w'.connection = w.connection
  trace : w'.trace = w.trace

/-- What `HandleFrame` makes of a frame, by what the reassembler makes of it. -/
structure Handled (s s' : Reassembled) (w w' : Conn) (sects : List Sect) : Prop where
  same : SameButMessage w w'
  goes : s'.violation = none → underWay w'.client = s'.opened ∧ (∀ x ∈ sects, light x = true) ∧
    s.outcomes ++ due sects = s'.outcomes
  fails : ∀ v, s'.violation = some v → ∃ reason, sects = Conn.fail v.error v.code reason ∧
    s.outcomes ++ v.outcomes = s'.outcomes

section

variable {s : Reassembled} {w w' : Conn} {sects : List Sect}

/-- A frame that only answers or delivers. -/
theorem Handled.goesOn {s' : Reassembled} (hsame : SameButMessage w w') (hs' : s'.violation = none)
    (hway : underWay w'.client = s'.opened) (hlight : sects.all light = true)
    (hdue : s.outcomes ++ due sects = s'.outcomes) : Handled s s' w w' sects :=
  ⟨hsame, fun _ => ⟨hway, List.all_eq_true.mp hlight, hdue⟩, fun v hv => by rw [hs'] at hv; cases hv⟩

theorem Handled.failed (hsame : SameButMessage w w') (hs : s.violation = none) (v : Violation)
    (reason : Bytes) : Handled s (s.fail v) w w' (Conn.fail v.error v.code reason) := by
  constructor
  · exact hsame
  · intro h
    cases h
  · intro v' hv'
    obtain rfl : v = v' := Option.some.inj hv'
    exact ⟨reason, rfl, (s.outcomes_fail hs v).symm⟩

/-- A data frame with no message under way. -/
theorem handled_start {f : WsFrame} (hs : s.violation = none)
    (hopen : w.client.fragmentOpen = false) :
    Handled s (s.start f) w (w.handleDataFrame f).1 (w.handleDataFrame f).2 := by
  by_cases hcontinuation : f.opcode = .kContinuation
  · have hstart : s.start f = s.fail .nothingOpen := by rw [Reassembled.start, if_pos hcontinuation]
    have hhandle : w.handleDataFrame f = (w, Conn.fail Violation.nothingOpen.error
        Violation.nothingOpen.code
        (Conn.reasonBytes "a continuation frame arrived with no message to continue")) := by
      rw [Conn.handleDataFrame, if_pos ⟨hcontinuation, hopen⟩]
      rfl
    rw [hstart, hhandle]
    exact .failed ⟨rfl, rfl, rfl, rfl, rfl, rfl, rfl⟩ hs _ _
  · cases hfin : f.fin with
    | true =>
        have hstart : s.start f = s.deliver f.payload (f.opcode == .kBinary) := by
          rw [Reassembled.start, if_neg hcontinuation, if_pos hfin]
        have hhandle : w.handleDataFrame f =
            (w, [.callback (.message f.payload (f.opcode == .kBinary))]) := by
          simp [Conn.handleDataFrame, hcontinuation, hopen, hfin]
        rw [hstart, hhandle]
        refine .goesOn ⟨rfl, rfl, rfl, rfl, rfl, rfl, rfl⟩ hs ?_ ?_ ?_
        · rw [underWay, if_neg (by simp [hopen])]
          rfl
        · rfl
        · rw [s.outcomes_deliver hs]
          rfl
    | false =>
        have hstart : s.start f = s.under (f.opcode == .kBinary) f.payload := by
          rw [Reassembled.start, if_neg hcontinuation, if_neg (by simp [hfin])]
        have hhandle : w.handleDataFrame f = ({ w with client := { w.client with
            fragmentOpen := true, fragmentBinary := f.opcode == .kBinary,
            fragmentPayload := f.payload } }, []) := by
          simp [Conn.handleDataFrame, hcontinuation, hopen, hfin]
        rw [hstart, hhandle]
        refine .goesOn ⟨rfl, rfl, rfl, rfl, rfl, rfl, rfl⟩ hs ?_ ?_ ?_
        · rfl
        · rfl
        · rw [s.outcomes_under hs]
          exact List.append_nil _

/-- A data frame behind the beginning of a message. -/
theorem handled_resume {f : WsFrame} (hs : s.violation = none) (hopen : w.client.fragmentOpen = true) :
    Handled s (s.resume w.client.fragmentBinary w.client.fragmentPayload f) w
      (w.handleDataFrame f).1 (w.handleDataFrame f).2 := by
  set payload := w.client.fragmentPayload ++ f.payload with hpayload
  by_cases hcontinuation : f.opcode = .kContinuation
  · by_cases hbig : kMaxMessageBytes < payload.length
    · have hresume : s.resume w.client.fragmentBinary w.client.fragmentPayload f =
          s.fail .tooBig := by
        rw [Reassembled.resume, if_neg (not_not_intro hcontinuation), if_pos hbig]
      have hhandle : w.handleDataFrame f =
          ({ w with client := { w.client with fragmentPayload := payload } },
            Conn.fail Violation.tooBig.error Violation.tooBig.code Conn.tooBigReason) := by
        simp [Conn.handleDataFrame, hcontinuation, hopen, ← hpayload, hbig, Violation.error,
          Violation.code]
      rw [hresume, hhandle]
      refine .failed ?_ hs .tooBig Conn.tooBigReason
      exact ⟨rfl, rfl, rfl, rfl, rfl, rfl, rfl⟩
    · cases hfin : f.fin with
      | true =>
          have hresume : s.resume w.client.fragmentBinary w.client.fragmentPayload f =
              s.deliver payload w.client.fragmentBinary := by
            rw [Reassembled.resume, if_neg (not_not_intro hcontinuation), if_neg hbig, if_pos hfin]
          have hhandle : w.handleDataFrame f =
              ({ w with client := { w.client with fragmentPayload := [], fragmentOpen := false } },
                [.callback (.message payload w.client.fragmentBinary)]) := by
            simp [Conn.handleDataFrame, hcontinuation, hopen, ← hpayload, hbig, hfin]
          rw [hresume, hhandle]
          refine .goesOn ⟨rfl, rfl, rfl, rfl, rfl, rfl, rfl⟩ hs ?_ ?_ ?_
          · rfl
          · rfl
          · rw [s.outcomes_deliver hs]
            rfl
      | false =>
          have hresume : s.resume w.client.fragmentBinary w.client.fragmentPayload f =
              s.under w.client.fragmentBinary payload := by
            rw [Reassembled.resume, if_neg (not_not_intro hcontinuation), if_neg hbig,
              if_neg (by simp [hfin])]
          have hhandle : w.handleDataFrame f =
              ({ w with client := { w.client with fragmentPayload := payload } }, []) := by
            simp [Conn.handleDataFrame, hcontinuation, hopen, ← hpayload, hbig, hfin]
          rw [hresume, hhandle]
          refine .goesOn ⟨rfl, rfl, rfl, rfl, rfl, rfl, rfl⟩ hs ?_ ?_ ?_
          · rw [underWay, if_pos hopen]
            rfl
          · rfl
          · rw [s.outcomes_under hs]
            exact List.append_nil _
  · have hresume : s.resume w.client.fragmentBinary w.client.fragmentPayload f =
        s.fail .messageOpen := by
      rw [Reassembled.resume, if_pos hcontinuation]
    have hhandle : w.handleDataFrame f = (w, Conn.fail Violation.messageOpen.error
        Violation.messageOpen.code
        (Conn.reasonBytes "a new message started before the last one finished")) := by
      rw [Conn.handleDataFrame, if_neg (fun h => hcontinuation h.1), if_pos ⟨hcontinuation, hopen⟩]
      rfl
    rw [hresume, hhandle]
    exact .failed ⟨rfl, rfl, rfl, rfl, rfl, rfl, rfl⟩ hs _ _

/-- `HandleFrame` and the reassembler do the same. -/
theorem handled_frame {f : WsFrame} (hs : s.violation = none) (hway : underWay w.client = s.opened)
    (hclose : f.opcode ≠ .kClose) :
    Handled s (s.next f) w (w.handleFrame f).1 (w.handleFrame f).2 := by
  have hdata : isControlOpcode f.opcode = false → w.handleFrame f = w.handleDataFrame f →
      Handled s (s.next f) w (w.handleFrame f).1 (w.handleFrame f).2 := by
    intro hcontrol hhandle
    rw [hhandle]
    cases hopen : w.client.fragmentOpen with
    | false =>
        rw [underWay, if_neg (by simp [hopen])] at hway
        rw [Reassembled.next_start hs hcontrol hway.symm]
        exact handled_start hs hopen
    | true =>
        rw [underWay, if_pos hopen] at hway
        have hnext : s.next f =
            s.resume w.client.fragmentBinary w.client.fragmentPayload f := by
          rw [Reassembled.next, if_neg (by simp [hs, hcontrol])]
          simp only [← hway]
        rw [hnext]
        exact handled_resume hs hopen
  cases hopcode : f.opcode with
  | kPing =>
      have hnext : s.next f = s := s.next_of_control (by rw [hopcode]; rfl)
      rw [hnext, Conn.handleFrame, hopcode]
      exact .goesOn ⟨rfl, rfl, rfl, rfl, rfl, rfl, rfl⟩ hs hway rfl (List.append_nil _)
  | kPong =>
      have hnext : s.next f = s := s.next_of_control (by rw [hopcode]; rfl)
      rw [hnext, Conn.handleFrame, hopcode]
      exact .goesOn ⟨rfl, rfl, rfl, rfl, rfl, rfl, rfl⟩ hs hway rfl (List.append_nil _)
  | kClose => exact absurd hopcode hclose
  | kContinuation | kText | kBinary =>
      apply hdata
      · rw [hopcode]
        rfl
      · rw [Conn.handleFrame, hopcode]

end

/-! ## Steps on an open connection -/

/-- An open connection, and no delivery under way on it or left over from another one. -/
structure OnOpen (n : ℕ) (cfg : Config) : Prop where
  connection : cfg.shared.connection = n
  state : cfg.shared.client.state = .kOpen
  transport : cfg.shared.client.transport ≠ none
  upgraded : cfg.shared.client.handshakeDone = true
  nothingOpen : cfg.shared.client.fragmentOpen = false
  nothingQueued : cfg.shared.client.rxBuffer = []
  nobodyDrains : cfg.shared.draining = []
  idle : Sections.Free inbound cfg

/-- A step on open connection `n`. A delivery waits for the one before it and does not overflow the
buffer. A callback that is called for a frame does not call back. Sections that are not executed
for a frame of the connection leave its state and its transport alone, as long as there is no
other connection. -/
structure Undisturbed (n : ℕ) (cfg : Config) (l : Label) (cfg' : Config) : Prop where
  oneAtATime : bytesIn l ≠ none → Sections.Free inbound cfg
  onOpen : bytesIn l ≠ none → cfg.shared.connection = n ∧ cfg.shared.client.state = .kOpen
  fits : ∀ bytes, bytesIn l = some bytes →
    (cfg.shared.client.rxBuffer ++ bytes).length ≤ kMaxMessageBytes
  silent : ∀ i c k, l = .run i (.call c) → l.front cfg = some k → k.origin ≠ .frame n
  keeps : (∀ k, l.front cfg = some k → k.origin ≠ .frame n) →
    cfg'.shared.connection = cfg.shared.connection →
      cfg'.shared.client.state = cfg.shared.client.state ∧
        cfg'.shared.client.transport = cfg.shared.client.transport

/-- A step is executed for a frame of connection `n`. -/
def forFrame (n : ℕ) (cfg : Config) (l : Label) : Bool :=
  (l.front cfg).any fun k => k.origin == .frame n

/-- A callback calls back. -/
def callsBack : Label → Bool
  | .run _ (.call _) => true
  | _ => false

theorem forFrame_eq_false {n : ℕ} {cfg : Config} {l : Label} :
    forFrame n cfg l = false ↔ ∀ k, l.front cfg = some k → k.origin ≠ .frame n := by
  cases h : l.front cfg with
  | none => simp [forFrame, h]
  | some k => simp [forFrame, h]

/-- A step can be checked for being undisturbed. -/
instance Undisturbed.decidable (n : ℕ) (cfg : Config) (l : Label) (cfg' : Config) :
    Decidable (Undisturbed n cfg l cfg') :=
  decidable_of_iff
    ((bytesIn l ≠ none → Sections.Free inbound cfg) ∧
      (bytesIn l ≠ none → cfg.shared.connection = n ∧ cfg.shared.client.state = .kOpen) ∧
      (∀ bytes ∈ (bytesIn l).toList,
        (cfg.shared.client.rxBuffer ++ bytes).length ≤ kMaxMessageBytes) ∧
      (callsBack l = true → forFrame n cfg l = false) ∧
      (forFrame n cfg l = false → cfg'.shared.connection = cfg.shared.connection →
        cfg'.shared.client.state = cfg.shared.client.state ∧
          cfg'.shared.client.transport = cfg.shared.client.transport)) (by
    constructor
    · rintro ⟨hidle, hopen, hfits, hsilent, hkeeps⟩
      refine ⟨hidle, hopen, fun bytes hbytes => hfits bytes (by simp [hbytes]), ?_, ?_⟩
      · rintro i c k rfl
        exact forFrame_eq_false.mp (hsilent rfl) k
      · exact fun h => hkeeps (forFrame_eq_false.mpr h)
    · rintro ⟨hidle, hopen, hfits, hsilent, hkeeps⟩
      refine ⟨hidle, hopen, fun bytes hbytes => hfits bytes (by simpa using hbytes), ?_, ?_⟩
      · intro hcall
        rw [forFrame_eq_false]
        cases l with
        | start e => cases hcall
        | run i c =>
            cases c with
            | call c => exact fun k => hsilent i c k rfl
            | _ => cases hcall
      · exact fun h => hkeeps (forFrame_eq_false.mp h))

/-! ## Where a run stands -/

/-- The connection is open. -/
structure Unbroken (n : ℕ) (w : Conn) : Prop where
  connection : w.connection = n
  state : w.client.state = .kOpen
  transport : w.client.transport ≠ none

/-- What a section beside the delivery may do to the link. -/
def KeepsLink (w w' : Conn) : Prop :=
  w'.connection = w.connection →
    w'.client.state = w.client.state ∧ w'.client.transport = w.client.transport

/-- On an open connection, sections beside the delivery leave what was received alone. -/
theorem Unbroken.beside {n : ℕ} {o : Origin} {w w' : Conn} (h : Unbroken n w)
    (hb : Conn.Beside o w w') (hkeeps : KeepsLink w w') : Unbroken n w' ∧ Conn.Aside o w w' := by
  cases hb with
  | aside ha =>
      obtain ⟨hstate, htransport⟩ := hkeeps ha.connection
      exact ⟨⟨ha.connection.trans h.connection, hstate.trans h.state,
        by rw [htransport]; exact h.transport⟩, ha⟩
  | begins key hstate =>
      rw [h.state] at hstate
      cases hstate
  | tearsDown code reason =>
      have hstate := (hkeeps rfl).1
      rw [h.state] at hstate
      cases hstate

theorem draining_beside {o : Origin} {w w' : Conn} (hb : Conn.Beside o w w') :
    w'.draining = w.draining := by
  cases hb with
  | aside ha => exact ha.draining
  | begins key _ => rfl
  | tearsDown code reason => rfl

theorem outcomesOn_beside {n : ℕ} {o : Origin} {w w' : Conn} (ho : o.isFrame = false)
    (hb : Conn.Beside o w w') : outcomesOn n w'.trace = outcomesOn n w.trace := by
  have hother : o ≠ .frame n := by
    rintro rfl
    cases ho
  have hadded : ∃ es : List Event, w'.trace = w.trace ++ es.map (Prod.mk o) := by
    cases hb with
    | aside ha => exact ha.trace
    | begins key _ => exact ⟨[_], rfl⟩
    | tearsDown code reason => exact ⟨[_], rfl⟩
  obtain ⟨es, htrace⟩ := hadded
  rw [htrace, outcomesOn_append, outcomesOn_other hother, List.append_nil]

section

variable (n : ℕ) (sent : List InboundFrame)

/-- What the first `m` frames say. -/
def saidBy (m : ℕ) : Reassembled := reassemble ((framesOf sent).take m)

/-- The connection is open, `m` frames have been handled, and the message that they leave under way
is the client's. -/
structure Live (m : ℕ) (w : Conn) : Prop where
  unbroken : Unbroken n w
  upgraded : w.client.handshakeDone = true
  way : underWay w.client = (saidBy sent m).opened
  sound : (saidBy sent m).violation = none

/-- The connection was torn down over a violation. -/
structure Ended (m : ℕ) (w : Conn) : Prop where
  violated : (saidBy sent m).violation ≠ none
  behind : (w.connection = n ∧ w.client.state ≠ .kOpen) ∨ n < w.connection
  empty : w.client.rxBuffer = []

/-- What is shown and what is pending is what the first `m` frames say. -/
def Shows (before : List Outcome) (m : ℕ) (pending : List Outcome) (w : Conn) : Prop :=
  ∃ shown, outcomesOn n w.trace = before ++ shown ∧
    shown ++ pending = (saidBy sent m).outcomes

/-- The loop of `DrainFrames`, and what is behind it. -/
def drainLoop : List Task := Origin.delivery.tasks [.drainFrames, .leaveDrain]

/-- What `Fail` has left to do. -/
inductive FailsOn : List Sect → Prop
  | close (front : List Sect) (code : ℕ) (reason : Bytes) (hfront : ∀ s ∈ front, light s = true)
      (hcode : code < 65536) (hstatus : code ≠ kNoStatus) :
      FailsOn (front ++ [.sendCloseFrame code reason .fail, .teardown code reason])
  | teardown (front : List Sect) (code : ℕ) (reason : Bytes)
      (hfront : ∀ s ∈ front, light s = true) : FailsOn (front ++ [.teardown code reason])

/-- Where a run stands on which `arrived` has come in. -/
inductive Story (before : List Outcome) (arrived : Bytes) (cfg : Config) : Prop
  | waiting (m : ℕ) (live : Live n sent m cfg.shared) (idle : Sections.Free inbound cfg)
      (draining : cfg.shared.draining = [])
      (bytes : wire (sent.take m) ++ cfg.shared.client.rxBuffer = arrived)
      (dry : (takeFrame cfg.shared.client.rxBuffer).1 = .incomplete)
      (shows : Shows n sent before m [] cfg.shared)
  | arriving (m i : ℕ) (data : Bytes) (live : Live n sent m cfg.shared)
      (owns : Sections.Owns inbound i [⟨.delivery, .onTransportData data⟩] cfg)
      (draining : cfg.shared.draining = [])
      (bytes : wire (sent.take m) ++ (cfg.shared.client.rxBuffer ++ data) = arrived)
      (fits : (cfg.shared.client.rxBuffer ++ data).length ≤ kMaxMessageBytes)
      (shows : Shows n sent before m [] cfg.shared)
  | entering (m i : ℕ) (live : Live n sent m cfg.shared)
      (owns : Sections.Owns inbound i [⟨.delivery, .enterDrain⟩] cfg)
      (draining : cfg.shared.draining = [])
      (bytes : wire (sent.take m) ++ cfg.shared.client.rxBuffer = arrived)
      (shows : Shows n sent before m [] cfg.shared)
  | answering (m i : ℕ) (sects : List Sect) (answers : ∀ s ∈ sects, light s = true)
      (live : Live n sent m cfg.shared)
      (owns : Sections.Owns inbound i ((Origin.frame n).tasks sects ++ drainLoop) cfg)
      (draining : cfg.shared.draining = [i])
      (bytes : wire (sent.take m) ++ cfg.shared.client.rxBuffer = arrived)
      (shows : Shows n sent before m (due sects) cfg.shared)
  | handling (m i : ℕ) (f : InboundFrame) (next : sent[m]? = some f)
      (live : Live n sent m cfg.shared)
      (owns : Sections.Owns inbound i (⟨.frame n, .handleFrame f.frame⟩ :: drainLoop) cfg)
      (draining : cfg.shared.draining = [i])
      (bytes : wire (sent.take (m + 1)) ++ cfg.shared.client.rxBuffer = arrived)
      (shows : Shows n sent before m [] cfg.shared)
  | leaving (m i : ℕ) (live : Live n sent m cfg.shared)
      (owns : Sections.Owns inbound i [⟨.delivery, .leaveDrain⟩] cfg)
      (draining : cfg.shared.draining = [i])
      (bytes : wire (sent.take m) ++ cfg.shared.client.rxBuffer = arrived)
      (dry : (takeFrame cfg.shared.client.rxBuffer).1 = .incomplete)
      (shows : Shows n sent before m [] cfg.shared)
  | failing (m i : ℕ) (sects : List Sect) (fails : FailsOn sects)
      (violated : (saidBy sent m).violation ≠ none) (unbroken : Unbroken n cfg.shared)
      (owns : Sections.Owns inbound i ((Origin.frame n).tasks sects ++ drainLoop) cfg)
      (draining : cfg.shared.draining = [i])
      (shows : Shows n sent before m (due sects) cfg.shared)
  | ending (m i : ℕ) (sects : List Sect) (answers : ∀ s ∈ sects, light s = true)
      (ended : Ended n sent m cfg.shared)
      (owns : Sections.Owns inbound i ((Origin.frame n).tasks sects ++ drainLoop) cfg)
      (draining : cfg.shared.draining = [i])
      (shows : Shows n sent before m (due sects) cfg.shared)
  | endingLeave (m i : ℕ) (ended : Ended n sent m cfg.shared)
      (owns : Sections.Owns inbound i [⟨.delivery, .leaveDrain⟩] cfg)
      (draining : cfg.shared.draining = [i])
      (shows : Shows n sent before m [] cfg.shared)
  | finished (m : ℕ) (ended : Ended n sent m cfg.shared) (idle : Sections.Free inbound cfg)
      (shows : Shows n sent before m [] cfg.shared)

end

section

variable {n : ℕ} {sent : List InboundFrame} {before : List Outcome} {arrived : Bytes}
  {cfg cfg' : Config} {o : Origin} {w w' : Conn} {m : ℕ}

theorem Shows.congr {pending : List Outcome} (h : Shows n sent before m pending w)
    (htrace : outcomesOn n w'.trace = outcomesOn n w.trace) : Shows n sent before m pending w' := by
  rw [Shows, htrace]
  exact h

/-- What was pending is shown. -/
theorem Shows.log {new pending : List Outcome} (h : Shows n sent before m (new ++ pending) w)
    (htrace : outcomesOn n w'.trace = outcomesOn n w.trace ++ new) :
    Shows n sent before m pending w' := by
  obtain ⟨shown, hshown, hsaid⟩ := h
  refine ⟨shown ++ new, ?_, ?_⟩
  · rw [htrace, hshown, List.append_assoc]
  · rw [List.append_assoc, hsaid]

/-- More frames say more. -/
theorem Shows.more {m' : ℕ} {pending : List Outcome} (h : Shows n sent before m [] w)
    (htrace : w'.trace = w.trace)
    (hsaid : (saidBy sent m).outcomes ++ pending = (saidBy sent m').outcomes) :
    Shows n sent before m' pending w' := by
  obtain ⟨shown, hshown, hall⟩ := h
  rw [List.append_nil] at hall
  exact ⟨shown, by rw [htrace, hshown], by rw [hall, hsaid]⟩

theorem Live.beside (h : Live n sent m w) (hb : Conn.Beside o w w') (hkeeps : KeepsLink w w') :
    Live n sent m w' ∧ Conn.Aside o w w' := by
  obtain ⟨hunbroken, ha⟩ := h.unbroken.beside hb hkeeps
  refine ⟨⟨hunbroken, ha.done.trans h.upgraded, ?_, h.sound⟩, ha⟩
  rw [underWay, ha.fragmentOpen, ha.fragmentBinary, ha.fragmentPayload]
  exact h.way

theorem Ended.beside (h : Ended n sent m w) (hb : Conn.Beside o w w') (hkeeps : KeepsLink w w') :
    Ended n sent m w' := by
  obtain ⟨hviolated, hover, hempty⟩ := h
  cases hb with
  | aside ha =>
      refine ⟨hviolated, ?_, ha.rxBuffer.trans hempty⟩
      rw [ha.connection, (hkeeps ha.connection).1]
      exact hover
  | begins key _ =>
      refine ⟨hviolated, .inr ?_, rfl⟩
      have hconnection : (w.beginConnection o key).connection = w.connection + 1 := rfl
      rw [hconnection]
      obtain ⟨h, -⟩ | h := hover
      · omega
      · omega
  | tearsDown code reason =>
      refine ⟨hviolated, ?_, rfl⟩
      obtain ⟨h, -⟩ | h := hover
      · exact .inl ⟨h, by simp [Conn.dropTransport]⟩
      · exact .inr h

/-- What the sections beside a delivery do changes nothing about it. -/
theorem Story.beside (h : Story n sent before arrived cfg) (ho : o.isFrame = false)
    (hb : Conn.Beside o cfg.shared cfg'.shared) (hkeeps : KeepsLink cfg.shared cfg'.shared)
    (hfree : Sections.Free inbound cfg → Sections.Free inbound cfg')
    (howns : ∀ i owned, Sections.Owns inbound i owned cfg → Sections.Owns inbound i owned cfg') :
    Story n sent before arrived cfg' := by
  have hshows : ∀ m pending, Shows n sent before m pending cfg.shared →
      Shows n sent before m pending cfg'.shared :=
    fun _ _ h => h.congr (outcomesOn_beside ho hb)
  have hdraining := draining_beside hb
  cases h with
  | waiting m live idle draining bytes dry shows =>
      obtain ⟨live', ha⟩ := live.beside hb hkeeps
      rw [← ha.rxBuffer] at bytes dry
      exact .waiting m live' (hfree idle) (hdraining.trans draining) bytes dry (hshows _ _ shows)
  | arriving m i data live owns draining bytes fits shows =>
      obtain ⟨live', ha⟩ := live.beside hb hkeeps
      rw [← ha.rxBuffer] at bytes fits
      exact .arriving m i data live' (howns _ _ owns) (hdraining.trans draining) bytes fits
        (hshows _ _ shows)
  | entering m i live owns draining bytes shows =>
      obtain ⟨live', ha⟩ := live.beside hb hkeeps
      rw [← ha.rxBuffer] at bytes
      exact .entering m i live' (howns _ _ owns) (hdraining.trans draining) bytes (hshows _ _ shows)
  | answering m i sects answers live owns draining bytes shows =>
      obtain ⟨live', ha⟩ := live.beside hb hkeeps
      rw [← ha.rxBuffer] at bytes
      exact .answering m i sects answers live' (howns _ _ owns) (hdraining.trans draining) bytes
        (hshows _ _ shows)
  | handling m i f next live owns draining bytes shows =>
      obtain ⟨live', ha⟩ := live.beside hb hkeeps
      rw [← ha.rxBuffer] at bytes
      exact .handling m i f next live' (howns _ _ owns) (hdraining.trans draining) bytes
        (hshows _ _ shows)
  | leaving m i live owns draining bytes dry shows =>
      obtain ⟨live', ha⟩ := live.beside hb hkeeps
      rw [← ha.rxBuffer] at bytes dry
      exact .leaving m i live' (howns _ _ owns) (hdraining.trans draining) bytes dry
        (hshows _ _ shows)
  | failing m i sects fails violated unbroken owns draining shows =>
      exact .failing m i sects fails violated (unbroken.beside hb hkeeps).1 (howns _ _ owns)
        (hdraining.trans draining) (hshows _ _ shows)
  | ending m i sects answers ended owns draining shows =>
      exact .ending m i sects answers (ended.beside hb hkeeps) (howns _ _ owns)
        (hdraining.trans draining) (hshows _ _ shows)
  | endingLeave m i ended owns draining shows =>
      exact .endingLeave m i (ended.beside hb hkeeps) (howns _ _ owns) (hdraining.trans draining)
        (hshows _ _ shows)
  | finished m ended idle shows =>
      exact .finished m (ended.beside hb hkeeps) (hfree idle) (hshows _ _ shows)

/-- A delivery begins when there is none. -/
theorem Story.deliver (h : Story n sent before arrived cfg) {data : Bytes}
    (hidle : Sections.Free inbound cfg)
    (hopen : cfg.shared.connection = n ∧ cfg.shared.client.state = .kOpen)
    (hfits : (cfg.shared.client.rxBuffer ++ data).length ≤ kMaxMessageBytes)
    (hshared : cfg'.shared = cfg.shared) {i : ℕ}
    (howns : Sections.Owns inbound i [⟨.delivery, .onTransportData data⟩] cfg') :
    Story n sent before (arrived ++ data) cfg' := by
  cases h with
  | waiting m live _ draining bytes dry shows =>
      rw [← hshared] at live draining bytes hfits shows
      refine .arriving m i data live howns draining ?_ hfits shows
      rw [← bytes, List.append_assoc]
  | finished m ended _ _ =>
      obtain ⟨-, hstate⟩ | hlt := ended.behind
      · exact absurd hopen.2 hstate
      · omega
  | arriving _ _ _ _ owns | entering _ _ _ owns | leaving _ _ _ owns => exact absurd hidle owns.not_free
  | handling _ _ _ _ _ owns | endingLeave _ _ _ owns => exact absurd hidle owns.not_free
  | answering _ _ sects _ _ owns | failing _ _ sects _ _ _ owns | ending _ _ sects _ _ owns =>
      cases sects with
      | nil => exact absurd hidle owns.not_free
      | cons s rest => exact absurd hidle owns.not_free

/-- Before anything has arrived. -/
theorem Story.start (sent : List InboundFrame) (h : OnOpen n cfg) :
    Story n sent (outcomesOn n cfg.shared.trace) [] cfg := by
  refine .waiting 0 ⟨⟨h.connection, h.state, h.transport⟩, h.upgraded, ?_, rfl⟩ h.idle
    h.nobodyDrains ?_ ?_ ?_
  · rw [underWay, if_neg (by simp [h.nothingOpen])]
    rfl
  · rw [h.nothingQueued]
    rfl
  · rw [h.nothingQueued]
    rfl
  · exact ⟨[], (List.append_nil _).symm, rfl⟩

theorem prefix_saidBy (m : ℕ) :
    (saidBy sent m).outcomes <+: (reassemble (framesOf sent)).outcomes := by
  have h := outcomes_prefix ((framesOf sent).take m) ((framesOf sent).drop m)
  rw [List.take_append_drop] at h
  exact h

/-- Nothing is added behind a violation. -/
theorem saidBy_violated (h : (saidBy sent m).violation ≠ none) :
    (reassemble (framesOf sent)).outcomes = (saidBy sent m).outcomes := by
  have hsplit : reassemble (framesOf sent) =
      (saidBy sent m).feed ((framesOf sent).drop m) := by
    rw [saidBy, ← reassemble_append, List.take_append_drop]
  rw [hsplit, Reassembled.feed_of_violation h]

/-- What is shown at any moment is the beginning of what the frames say. -/
theorem Story.shown (h : Story n sent before arrived cfg) :
    ∃ shown, outcomesOn n cfg.shared.trace = before ++ shown ∧
      shown <+: (reassemble (framesOf sent)).outcomes := by
  have hshows : ∃ m pending, Shows n sent before m pending cfg.shared := by
    cases h with
    | waiting m _ _ _ _ _ shows => exact ⟨m, _, shows⟩
    | arriving m _ _ _ _ _ _ _ shows => exact ⟨m, _, shows⟩
    | entering m _ _ _ _ _ shows => exact ⟨m, _, shows⟩
    | answering m _ _ _ _ _ _ _ shows => exact ⟨m, _, shows⟩
    | handling m _ _ _ _ _ _ _ shows => exact ⟨m, _, shows⟩
    | leaving m _ _ _ _ _ _ shows => exact ⟨m, _, shows⟩
    | failing m _ _ _ _ _ _ _ shows => exact ⟨m, _, shows⟩
    | ending m _ _ _ _ _ _ shows => exact ⟨m, _, shows⟩
    | endingLeave m _ _ _ _ shows => exact ⟨m, _, shows⟩
    | finished m _ _ shows => exact ⟨m, _, shows⟩
  obtain ⟨m, pending, shown, hshown, hsaid⟩ := hshows
  exact ⟨shown, hshown, List.IsPrefix.trans ⟨pending, hsaid⟩ (prefix_saidBy m)⟩

/-- When everything has arrived and no delivery is under way, all that the frames say is shown. -/
theorem Story.shownAll (h : Story n sent before (wire sent) cfg)
    (hidle : Sections.Free inbound cfg) :
    outcomesOn n cfg.shared.trace = before ++ (reassemble (framesOf sent)).outcomes := by
  cases h with
  | waiting m live _ draining bytes dry shows =>
      have hrest : cfg.shared.client.rxBuffer = wire (sent.drop m) := by
        have hsplit : wire (sent.take m) ++ cfg.shared.client.rxBuffer =
            wire (sent.take m) ++ wire (sent.drop m) := by
          rw [bytes, wire, wire, wire, ← List.flatMap_append, List.take_append_drop]
        exact List.append_cancel_left hsplit
      cases hdrop : sent.drop m with
      | nil =>
          have hall : sent.take m = sent := by
            rw [← List.append_nil (sent.take m), ← hdrop, List.take_append_drop]
          have hsaid : saidBy sent m = reassemble (framesOf sent) := by
            rw [saidBy, framesOf, ← List.map_take, hall]
          obtain ⟨shown, hshown, hall⟩ := shows
          rw [hshown, ← hsaid, ← hall, List.append_nil]
      | cons f others =>
          rw [hrest, hdrop, wire, List.flatMap_cons, takeFrame_append f.reads (by simp)] at dry
          cases dry
  | finished m ended _ shows =>
      obtain ⟨shown, hshown, hall⟩ := shows
      rw [hshown, saidBy_violated ended.violated, ← hall, List.append_nil]
  | arriving _ _ _ _ owns | entering _ _ _ owns | leaving _ _ _ owns => exact absurd hidle owns.not_free
  | handling _ _ _ _ _ owns | endingLeave _ _ _ owns => exact absurd hidle owns.not_free
  | answering _ _ sects _ _ owns | failing _ _ sects _ _ _ owns | ending _ _ sects _ _ owns =>
      cases sects with
      | nil => exact absurd hidle owns.not_free
      | cons s rest => exact absurd hidle owns.not_free

/-! ## The sections of the delivery -/

variable {i : ℕ} {c : Choice} {ks : List Task} {later : Bytes}

theorem saidBy_succ {f : InboundFrame} (h : sent[m]? = some f) :
    saidBy sent (m + 1) = (saidBy sent m).next f.frame := by
  have hframe : (framesOf sent)[m]? = some f.frame := by rw [framesOf, List.getElem?_map, h]; rfl
  rw [saidBy, List.take_add_one, hframe, reassemble_append]
  rfl

theorem tasks_append (o : Origin) (front back : List Sect) :
    o.tasks (front ++ back) = o.tasks front ++ o.tasks back := List.map_append

/-- Nothing that counts has changed. -/
theorem Live.congr (h : Live n sent m w) (hconnection : w'.connection = w.connection)
    (hstate : w'.client.state = w.client.state) (htransport : w'.client.transport = w.client.transport)
    (hdone : w'.client.handshakeDone = w.client.handshakeDone)
    (hway : underWay w'.client = underWay w.client) : Live n sent m w' :=
  ⟨⟨hconnection.trans h.unbroken.connection, hstate.trans h.unbroken.state,
    by rw [htransport]; exact h.unbroken.transport⟩, hdone.trans h.upgraded, hway.trans h.way,
    h.sound⟩

theorem Shows.answers {s : Sect} {rest sects : List Sect} (h : Shows n sent before m (due (s :: rest)) w)
    (ha : Answers n s w w' ks sects) : Shows n sent before m (due (sects ++ rest)) w' := by
  obtain ⟨new, htrace, hdue⟩ := ha.shown
  rw [due_cons, ← hdue, List.append_assoc, ← due_append] at h
  exact h.log htrace

theorem Live.answers {s : Sect} {sects : List Sect} (h : Live n sent m w)
    (ha : Answers n s w w' ks sects) : Live n sent m w' := by
  apply h.congr ha.aside.connection ha.state ha.transport ha.aside.done
  rw [underWay, ha.aside.fragmentOpen, ha.aside.fragmentBinary, ha.aside.fragmentPayload]
  rfl

variable [Target]

theorem exec_enterDrain (h : Conn.exec i ⟨.delivery, .enterDrain⟩ c w = some (w', ks))
    (hidle : w.draining = []) :
    w' = { w with draining := [i] } ∧ ks = drainLoop := by
  cases c with
  | go =>
      have hpush : (if i ∈ w.draining then some (w, [])
          else some ({ w with draining := i :: w.draining }, drainLoop)) = some (w', ks) := h
      rw [hidle, if_neg List.not_mem_nil] at hpush
      obtain ⟨rfl, rfl⟩ := Prod.mk.inj (Option.some.inj hpush)
      exact ⟨rfl, rfl⟩
  | _ => cases h

theorem exec_leaveDrain (h : Conn.exec i ⟨.delivery, .leaveDrain⟩ c w = some (w', ks))
    (hown : w.draining = [i]) : w' = { w with draining := [] } ∧ ks = [] := by
  cases c with
  | go =>
      obtain ⟨rfl, rfl⟩ := Prod.mk.inj (Option.some.inj h)
      exact ⟨by simp [hown], rfl⟩
  | _ => cases h

/-- Bytes that the buffer has room for are queued. -/
theorem exec_onTransportData {data : Bytes}
    (h : Conn.exec i ⟨.delivery, .onTransportData data⟩ c w = some (w', ks))
    (hdone : w.client.handshakeDone = true)
    (hfits : (w.client.rxBuffer ++ data).length ≤ kMaxMessageBytes) :
    w' = { w with client := { w.client with rxBuffer := w.client.rxBuffer ++ data } } ∧
      ks = [⟨.delivery, .enterDrain⟩] := by
  cases c with
  | go =>
      rw [Conn.exec_queueInbound] at h
      simp only [Conn.queueInbound, if_neg (Nat.not_lt.mpr hfits)] at h
      rw [if_pos hdone] at h
      obtain ⟨rfl, rfl⟩ := Prod.mk.inj (Option.some.inj h)
      exact ⟨rfl, rfl⟩
  | _ => cases h

/-- One turn of the loop takes the next frame, or finds that it has not arrived. -/
theorem exec_nextFrame (h : Conn.exec i ⟨.delivery, .drainFrames⟩ c w = some (w', ks))
    (hdone : w.client.handshakeDone = true)
    (hstream : wire (sent.take m) ++ w.client.rxBuffer ++ later = wire sent) :
    ((takeFrame w.client.rxBuffer).1 = .incomplete ∧ w' = w ∧ ks = []) ∨
    ∃ f rest, sent[m]? = some f ∧ wire (sent.take (m + 1)) ++ rest =
        wire (sent.take m) ++ w.client.rxBuffer ∧
      w' = ({ w with client := { w.client with rxBuffer := rest } } : Conn).log
        (.frame w.connection) (.frame f.frame) ∧
      ks = ⟨.frame w.connection, .handleFrame f.frame⟩ :: Origin.delivery.tasks [.drainFrames] := by
  have hrest : w.client.rxBuffer ++ later = wire (sent.drop m) := by
    have hsplit : wire (sent.take m) ++ (w.client.rxBuffer ++ later) =
        wire (sent.take m) ++ wire (sent.drop m) := by
      rw [← List.append_assoc, hstream, wire, wire, wire, ← List.flatMap_append,
        List.take_append_drop]
    exact List.append_cancel_left hsplit
  obtain ⟨read, left, hread⟩ : ∃ read left, takeFrame w.client.rxBuffer = (read, left) :=
    ⟨_, _, rfl⟩
  by_cases hincomplete : read = .incomplete
  · subst hincomplete
    cases c with
    | go =>
        rw [Conn.exec_drainFrames] at h
        simp only [Conn.drainFrames, hdone, hread] at h
        obtain ⟨rfl, rfl⟩ := Prod.mk.inj (Option.some.inj h)
        exact .inl ⟨by rw [hread], rfl, rfl⟩
    | _ => cases h
  · right
    have hlonger := takeFrame_append hread hincomplete later
    rw [hrest] at hlonger
    cases hdrop : sent.drop m with
    | nil =>
        rw [hdrop] at hlonger
        exact absurd (Prod.mk.inj hlonger).1.symm hincomplete
    | cons f others =>
        have hf := takeFrame_append f.reads (by simp) (wire others)
        rw [hdrop, wire, List.flatMap_cons] at hlonger
        obtain ⟨rfl, hleft⟩ := Prod.mk.inj (hf.symm.trans hlonger)
        have hnext : sent[m]? = some f := by
          rw [← List.head?_drop, hdrop]
          rfl
        have hfirst : w.client.rxBuffer = f.bytes ++ left := by
          have hbehind : w.client.rxBuffer ++ later = f.bytes ++ left ++ later := by
            rw [hrest, hdrop, wire, List.flatMap_cons, List.append_assoc, ← hleft]
            rfl
          exact List.append_cancel_right hbehind
        refine ⟨f, left, hnext, ?_, ?_⟩
        · have hsnoc : sent.take (m + 1) = sent.take m ++ [f] := by
            rw [List.take_add, hdrop]
            rfl
          rw [hsnoc, hfirst, wire, wire, List.flatMap_append, List.append_assoc]
          simp
        · cases c with
          | go =>
              rw [Conn.exec_drainFrames] at h
              simp only [Conn.drainFrames, hread] at h
              rw [if_neg (by simp [hdone])] at h
              obtain ⟨rfl, rfl⟩ := Prod.mk.inj (Option.some.inj h)
              exact ⟨rfl, rfl⟩
          | _ => cases h

/-- Nothing is taken off an empty buffer. -/
theorem exec_drainFrames_empty (h : Conn.exec i ⟨.delivery, .drainFrames⟩ c w = some (w', ks))
    (hempty : w.client.rxBuffer = []) : w' = w ∧ ks = [] := by
  cases c with
  | go =>
      rw [Conn.exec_drainFrames] at h
      simp only [Conn.drainFrames, hempty] at h
      split at h
      · obtain ⟨rfl, rfl⟩ := Prod.mk.inj (Option.some.inj h)
        exact ⟨rfl, rfl⟩
      · obtain ⟨rfl, rfl⟩ := Prod.mk.inj (Option.some.inj h)
        exact ⟨rfl, rfl⟩
  | _ => cases h

/-- An open client hands its close frame to the transport. -/
theorem exec_sendCloseFrame {code t : ℕ} {reason : Bytes}
    (h : Conn.exec i ⟨.frame n, .sendCloseFrame code reason .fail⟩ c w = some (w', ks))
    (hstate : w.client.state = .kOpen) (ht : w.client.transport = some t) (hcode : code < 65536)
    (hstatus : code ≠ kNoStatus) :
    ∃ bytes, closeCode bytes = some code ∧
      w' = { w with client := { w.client with closeSent := true } } ∧
      ks = (Origin.frame n).tasks [.transportSend t bytes (.sendCloseFrame .fail)] := by
  obtain ⟨mask, rfl⟩ : ∃ mask, c = .random [mask] := by
    cases c with
    | random words =>
        match words with
        | [] => cases h
        | [mask] => exact ⟨mask, rfl⟩
        | _ :: _ :: _ => cases h
    | _ => cases h
  obtain ⟨bytes, hbytes, hcloses⟩ := closeCode_closeFrame hcode hstatus reason mask
  have hpush : some ((w.sendCloseFrame code reason .fail mask).1,
      (Origin.frame n).tasks (w.sendCloseFrame code reason .fail mask).2) = some (w', ks) := h
  simp only [Conn.sendCloseFrame] at hpush
  rw [if_neg (not_not_intro hstate)] at hpush
  split at hpush
  · rename_i hnone
    rw [ht] at hnone
    cases hnone
  · rename_i t' hsome
    obtain rfl : t = t' := Option.some.inj (ht.symm.trans hsome)
    split at hpush
    · rename_i herror
      rw [hbytes] at herror
      cases herror
    · rename_i encoded hencoded
      obtain rfl : bytes = encoded := Except.ok.inj (hbytes.symm.trans hencoded)
      obtain ⟨rfl, rfl⟩ := Prod.mk.inj (Option.some.inj hpush)
      exact ⟨bytes, hcloses, rfl, rfl⟩

section

variable {j : ℕ} {k : Task} {rest : List Task} (hget : cfg.threads[j]? = some (k :: rest))
  (hk : inbound k = true) (hexec : Conn.exec j k c cfg.shared = some (w', ks))
include hget hk hexec

theorem Story.own_arriving {data : Bytes} (live : Live n sent m cfg.shared)
    (owns : Sections.Owns inbound i [⟨.delivery, .onTransportData data⟩] cfg)
    (draining : cfg.shared.draining = [])
    (bytes : wire (sent.take m) ++ (cfg.shared.client.rxBuffer ++ data) = arrived)
    (fits : (cfg.shared.client.rxBuffer ++ data).length ≤ kMaxMessageBytes)
    (shows : Shows n sent before m [] cfg.shared) :
    Story n sent before arrived ⟨w', cfg.threads.set j (ks ++ rest)⟩ := by
  obtain ⟨rfl, howned⟩ := owns.front hget hk
  obtain ⟨rfl, -⟩ := List.cons.inj howned
  have howns := owns.own w' ks hget hk
  obtain ⟨rfl, rfl⟩ := exec_onTransportData hexec live.upgraded fits
  exact .entering m j (live.congr rfl rfl rfl rfl rfl) howns draining bytes shows

theorem Story.own_entering (live : Live n sent m cfg.shared)
    (owns : Sections.Owns inbound i [⟨.delivery, .enterDrain⟩] cfg)
    (draining : cfg.shared.draining = [])
    (bytes : wire (sent.take m) ++ cfg.shared.client.rxBuffer = arrived)
    (shows : Shows n sent before m [] cfg.shared) :
    Story n sent before arrived ⟨w', cfg.threads.set j (ks ++ rest)⟩ := by
  obtain ⟨rfl, howned⟩ := owns.front hget hk
  obtain ⟨rfl, -⟩ := List.cons.inj howned
  have howns := owns.own w' ks hget hk
  obtain ⟨rfl, rfl⟩ := exec_enterDrain hexec draining
  exact .answering m j [] (by simp) (live.congr rfl rfl rfl rfl rfl) howns rfl bytes shows

theorem Story.own_leaving (live : Live n sent m cfg.shared)
    (owns : Sections.Owns inbound i [⟨.delivery, .leaveDrain⟩] cfg)
    (draining : cfg.shared.draining = [i])
    (bytes : wire (sent.take m) ++ cfg.shared.client.rxBuffer = arrived)
    (dry : (takeFrame cfg.shared.client.rxBuffer).1 = .incomplete)
    (shows : Shows n sent before m [] cfg.shared) :
    Story n sent before arrived ⟨w', cfg.threads.set j (ks ++ rest)⟩ := by
  obtain ⟨rfl, howned⟩ := owns.front hget hk
  obtain ⟨rfl, -⟩ := List.cons.inj howned
  have howns := owns.own w' ks hget hk
  obtain ⟨rfl, rfl⟩ := exec_leaveDrain hexec draining
  exact .waiting m (live.congr rfl rfl rfl rfl rfl) howns.free rfl bytes dry shows

theorem Story.own_answering (hc : ∀ bytes, c ≠ .data bytes)
    (hcall : k.origin = .frame n → ∀ call, c ≠ .call call) (hstream : arrived ++ later = wire sent)
    {sects : List Sect} (answers : ∀ s ∈ sects, light s = true) (live : Live n sent m cfg.shared)
    (owns : Sections.Owns inbound i ((Origin.frame n).tasks sects ++ drainLoop) cfg)
    (draining : cfg.shared.draining = [i])
    (bytes : wire (sent.take m) ++ cfg.shared.client.rxBuffer = arrived)
    (shows : Shows n sent before m (due sects) cfg.shared) :
    Story n sent before arrived ⟨w', cfg.threads.set j (ks ++ rest)⟩ := by
  obtain ⟨rfl, howned⟩ := owns.front hget hk
  cases sects with
  | nil =>
      -- the answers are over, and the loop goes on
      obtain ⟨rfl, -⟩ := List.cons.inj howned
      have howns := owns.own w' ks hget hk
      rw [← bytes] at hstream
      obtain ⟨hdry, rfl, rfl⟩ | ⟨f, left, hnext, hbytes, rfl, rfl⟩ :=
        exec_nextFrame hexec live.upgraded hstream
      · exact .leaving m j live howns draining bytes hdry shows
      · obtain rfl := live.unbroken.connection
        refine .handling m j f hnext (live.congr rfl rfl rfl rfl rfl) howns draining
          (hbytes.trans bytes) ?_
        apply shows.congr
        have htrace := outcomesOn_append cfg.shared.connection cfg.shared.trace
          [(.frame cfg.shared.connection, .frame f.frame)]
        have hnone : outcomesOn cfg.shared.connection
            [(.frame cfg.shared.connection, .frame f.frame)] = [] := outcomesOn_own _ _
        rw [hnone, List.append_nil] at htrace
        exact htrace
  | cons s others =>
      obtain ⟨rfl, -⟩ := List.cons.inj howned
      have howns : Sections.Owns inbound j
          (ks.filter inbound ++ ((Origin.frame n).tasks others ++ drainLoop))
          ⟨w', cfg.threads.set j (ks ++ rest)⟩ := owns.own w' ks hget hk
      obtain ⟨sects, ha⟩ := answers_of_light (answers s List.mem_cons_self) hc (hcall rfl) hexec
      rw [ha.sections, ← List.append_assoc, ← tasks_append] at howns
      refine .answering m j (sects ++ others) ?_ (live.answers ha) howns
        (ha.aside.draining.trans draining) ?_ (shows.answers ha)
      · intro x hx
        obtain hx | hx := List.mem_append.mp hx
        · exact ha.light x hx
        · exact answers x (List.mem_cons_of_mem _ hx)
      · dsimp only
        rw [ha.aside.rxBuffer, bytes]

/-- A frame is handled: its answers are left to do, or the connection fails over it. -/
theorem Story.own_handling {f : InboundFrame} (next : sent[m]? = some f)
    (live : Live n sent m cfg.shared)
    (owns : Sections.Owns inbound i (⟨.frame n, .handleFrame f.frame⟩ :: drainLoop) cfg)
    (draining : cfg.shared.draining = [i])
    (bytes : wire (sent.take (m + 1)) ++ cfg.shared.client.rxBuffer = arrived)
    (shows : Shows n sent before m [] cfg.shared) :
    Story n sent before arrived ⟨w', cfg.threads.set j (ks ++ rest)⟩ := by
  obtain ⟨rfl, howned⟩ := owns.front hget hk
  obtain ⟨rfl, -⟩ := List.cons.inj howned
  have howns := owns.own w' ks hget hk
  have hhandled := handled_frame live.sound live.way f.notClose
  rw [← saidBy_succ next] at hhandled
  cases c with
  | go =>
      obtain ⟨rfl, rfl⟩ := Prod.mk.inj (Option.some.inj hexec)
      rw [filter_frame] at howns
      have hsame := hhandled.same
      cases hviolation : (saidBy sent (m + 1)).violation with
      | none =>
          obtain ⟨hway, hlight, hdue⟩ := hhandled.goes hviolation
          refine .answering (m + 1) j _ hlight ⟨⟨hsame.connection.trans live.unbroken.connection,
            hsame.state.trans live.unbroken.state, ?_⟩, hsame.done.trans live.upgraded, hway,
            hviolation⟩ howns (hsame.draining.trans draining) ?_ ?_
          · rw [hsame.transport]
            exact live.unbroken.transport
          · rw [hsame.rxBuffer, bytes]
          · exact shows.more hsame.trace hdue
      | some v =>
          obtain ⟨reason, hsects, hdue⟩ := hhandled.fails v hviolation
          rw [hsects] at howns ⊢
          refine .failing (m + 1) j _ (.close [.callback (.error v.error)] v.code reason ?_ ?_ ?_)
            (by simp [hviolation]) ⟨hsame.connection.trans live.unbroken.connection,
            hsame.state.trans live.unbroken.state, ?_⟩ howns (hsame.draining.trans draining) ?_
          · simp [light]
          · cases v <;> decide
          · cases v <;> decide
          · rw [hsame.transport]
            exact live.unbroken.transport
          · exact shows.more hsame.trace hdue
  | _ => cases hexec

/-- The connection is torn down. -/
theorem Story.own_failing (hc : ∀ bytes, c ≠ .data bytes)
    (hcall : k.origin = .frame n → ∀ call, c ≠ .call call) {sects : List Sect}
    (fails : FailsOn sects) (violated : (saidBy sent m).violation ≠ none)
    (unbroken : Unbroken n cfg.shared)
    (owns : Sections.Owns inbound i ((Origin.frame n).tasks sects ++ drainLoop) cfg)
    (draining : cfg.shared.draining = [i])
    (shows : Shows n sent before m (due sects) cfg.shared) :
    Story n sent before arrived ⟨w', cfg.threads.set j (ks ++ rest)⟩ := by
  obtain ⟨rfl, howned⟩ := owns.front hget hk
  have hanswers : ∀ (s : Sect) (others : List Sect), sects = s :: others → light s = true →
      (∀ answers : List Sect, (∀ x ∈ answers, light x = true) → FailsOn (answers ++ others)) →
      Story n sent before arrived ⟨w', cfg.threads.set j (ks ++ rest)⟩ := by
    rintro s others rfl hs hfails
    obtain ⟨rfl, -⟩ := List.cons.inj howned
    have howns : Sections.Owns inbound j
        (ks.filter inbound ++ ((Origin.frame n).tasks others ++ drainLoop))
        ⟨w', cfg.threads.set j (ks ++ rest)⟩ := owns.own w' ks hget hk
    obtain ⟨sects, ha⟩ := answers_of_light hs hc (hcall rfl) hexec
    rw [ha.sections, ← List.append_assoc, ← tasks_append] at howns
    refine .failing m j (sects ++ others) (hfails sects ha.light) violated
      ⟨ha.aside.connection.trans unbroken.connection, ha.state.trans unbroken.state, ?_⟩ howns
      (ha.aside.draining.trans draining) (shows.answers ha)
    rw [ha.transport]
    exact unbroken.transport
  obtain ⟨t, ht⟩ := Option.ne_none_iff_exists'.mp unbroken.transport
  cases fails with
  | close front code reason hfront hcode hstatus =>
      cases front with
      | cons s others =>
          apply hanswers s _ rfl (hfront s List.mem_cons_self)
          intro answers hlight
          have hfails := FailsOn.close (answers ++ others) code reason (fun x hx => ?_) hcode hstatus
          · rw [List.append_assoc] at hfails
            exact hfails
          obtain hx | hx := List.mem_append.mp hx
          · exact hlight x hx
          · exact hfront x (List.mem_cons_of_mem _ hx)
      | nil =>
          -- the close frame is framed, and shows its status code when it is sent
          obtain ⟨rfl, -⟩ := List.cons.inj howned
          have howns := owns.own w' ks hget hk
          obtain ⟨bytes, hcloses, rfl, rfl⟩ :=
            exec_sendCloseFrame hexec unbroken.state ht hcode hstatus
          refine .failing m j [.transportSend t bytes (.sendCloseFrame .fail), .teardown code reason]
            (.teardown [_] code reason (by simp [light])) violated
            ⟨unbroken.connection, unbroken.state, ?_⟩ howns draining ?_
          · exact unbroken.transport
          · have hdue : due [.transportSend t bytes (.sendCloseFrame .fail), .teardown code reason] =
                due [.sendCloseFrame code reason .fail, .teardown code reason] := by
              simp [due, Sect.due, hcloses]
            rw [hdue]
            exact shows
  | teardown front code reason hfront =>
      cases front with
      | cons s others =>
          apply hanswers s _ rfl (hfront s List.mem_cons_self)
          intro answers hlight
          have hfails := FailsOn.teardown (answers ++ others) code reason fun x hx => ?_
          · rw [List.append_assoc] at hfails
            exact hfails
          obtain hx | hx := List.mem_append.mp hx
          · exact hlight x hx
          · exact hfront x (List.mem_cons_of_mem _ hx)
      | nil =>
          obtain ⟨rfl, -⟩ := List.cons.inj howned
          have howns := owns.own w' ks hget hk
          cases c with
          | go =>
              have hsects : (cfg.shared.teardown (.frame n) code reason).2 =
                  [.transportDisconnect t, .notifyDisconnected code reason] := by
                simp [Conn.teardown, unbroken.state, ht]
              obtain ⟨rfl, rfl⟩ := Prod.mk.inj (Option.some.inj hexec)
              dsimp only at howns ⊢
              rw [hsects] at howns ⊢
              refine .ending m j [.transportDisconnect t, .notifyDisconnected code reason]
                (by simp [light]) ⟨violated, .inl ⟨unbroken.connection, ?_⟩, rfl⟩ howns draining ?_
              · intro h
                cases h
              · have htrace : (cfg.shared.teardown (.frame n) code reason).1.trace =
                    cfg.shared.trace ++ [(Origin.frame n, Event.tornDown code reason)] := rfl
                have hdue : Shows n sent before m ([Outcome.tornDown code] ++
                    due [.transportDisconnect t, .notifyDisconnected code reason]) cfg.shared := shows
                apply hdue.log
                rw [htrace, outcomesOn_append, outcomesOn_own]
                rfl
          | _ => cases hexec

theorem Story.own_ending (hc : ∀ bytes, c ≠ .data bytes)
    (hcall : k.origin = .frame n → ∀ call, c ≠ .call call) {sects : List Sect}
    (answers : ∀ s ∈ sects, light s = true) (ended : Ended n sent m cfg.shared)
    (owns : Sections.Owns inbound i ((Origin.frame n).tasks sects ++ drainLoop) cfg)
    (draining : cfg.shared.draining = [i])
    (shows : Shows n sent before m (due sects) cfg.shared) :
    Story n sent before arrived ⟨w', cfg.threads.set j (ks ++ rest)⟩ := by
  obtain ⟨rfl, howned⟩ := owns.front hget hk
  cases sects with
  | nil =>
      obtain ⟨rfl, -⟩ := List.cons.inj howned
      have howns := owns.own w' ks hget hk
      obtain ⟨rfl, rfl⟩ := exec_drainFrames_empty hexec ended.empty
      exact .endingLeave m j ended howns draining shows
  | cons s others =>
      obtain ⟨rfl, -⟩ := List.cons.inj howned
      have howns : Sections.Owns inbound j
          (ks.filter inbound ++ ((Origin.frame n).tasks others ++ drainLoop))
          ⟨w', cfg.threads.set j (ks ++ rest)⟩ := owns.own w' ks hget hk
      obtain ⟨sects, ha⟩ := answers_of_light (answers s List.mem_cons_self) hc (hcall rfl) hexec
      rw [ha.sections, ← List.append_assoc, ← tasks_append] at howns
      refine .ending m j (sects ++ others) ?_ ⟨ended.violated, ?_, ha.aside.rxBuffer.trans ended.empty⟩
        howns (ha.aside.draining.trans draining) (shows.answers ha)
      · intro x hx
        obtain hx | hx := List.mem_append.mp hx
        · exact ha.light x hx
        · exact answers x (List.mem_cons_of_mem _ hx)
      · dsimp only
        rw [ha.aside.connection, ha.state]
        exact ended.behind

theorem Story.own_endingLeave (ended : Ended n sent m cfg.shared)
    (owns : Sections.Owns inbound i [⟨.delivery, .leaveDrain⟩] cfg)
    (draining : cfg.shared.draining = [i])
    (shows : Shows n sent before m [] cfg.shared) :
    Story n sent before arrived ⟨w', cfg.threads.set j (ks ++ rest)⟩ := by
  obtain ⟨rfl, howned⟩ := owns.front hget hk
  obtain ⟨rfl, -⟩ := List.cons.inj howned
  have howns := owns.own w' ks hget hk
  obtain ⟨rfl, rfl⟩ := exec_leaveDrain hexec draining
  exact .finished m ⟨ended.violated, ended.behind, ended.empty⟩ howns.free shows

/-- A section of the delivery takes the run further. -/
theorem Story.own (h : Story n sent before arrived cfg) (hc : ∀ bytes, c ≠ .data bytes)
    (hcall : k.origin = .frame n → ∀ call, c ≠ .call call) (hstream : arrived ++ later = wire sent) :
    Story n sent before arrived ⟨w', cfg.threads.set j (ks ++ rest)⟩ := by
  cases h with
  | waiting m live idle =>
      rw [(idle.front hget).1] at hk
      cases hk
  | arriving m i data live owns draining bytes fits shows =>
      exact own_arriving hget hk hexec live owns draining bytes fits shows
  | entering m i live owns draining bytes shows =>
      exact own_entering hget hk hexec live owns draining bytes shows
  | answering m i sects answers live owns draining bytes shows =>
      exact own_answering hget hk hexec hc hcall hstream answers live owns draining bytes shows
  | handling m i f next live owns draining bytes shows =>
      exact own_handling hget hk hexec next live owns draining bytes shows
  | leaving m i live owns draining bytes dry shows =>
      exact own_leaving hget hk hexec live owns draining bytes dry shows
  | failing m i sects fails violated unbroken owns draining shows =>
      exact own_failing hget hk hexec hc hcall fails violated unbroken owns draining shows
  | ending m i sects answers ended owns draining shows =>
      exact own_ending hget hk hexec hc hcall answers ended owns draining shows
  | endingLeave m i ended owns draining shows =>
      exact own_endingLeave hget hk hexec ended owns draining shows
  | finished m ended idle =>
      rw [(idle.front hget).1] at hk
      cases hk

end

/-! ## Runs -/

theorem exec_data {j : ℕ} {k : Task} {data : Bytes}
    (h : Conn.exec j k (.data data) w = some (w', ks)) :
    w' = w ∧ ks = [⟨.delivery, .onTransportData data⟩, k] := by
  obtain ⟨o, s⟩ := k
  unfold Conn.exec at h
  dsimp only at h
  split at h
  -- the transport delivers out of three calls, and out of no other section
  all_goals first
    | (rename_i hc; cases hc)
    | (cases h; done)
    | skip
  all_goals
    obtain ⟨rfl, rfl⟩ := Prod.mk.inj (Option.some.inj h)
    exact ⟨rfl, rfl⟩

/-- A step that has no part in a delivery. -/
structure BesideDelivery (o : Origin) (cfg cfg' : Config) : Prop where
  notFrame : o.isFrame = false
  effect : Conn.Beside o cfg.shared cfg'.shared
  free : Sections.Free inbound cfg → Sections.Free inbound cfg'
  owns : ∀ i owned, Sections.Owns inbound i owned cfg → Sections.Owns inbound i owned cfg'

omit [Target] in
theorem beside_start {e : Entry} {q : List Task} (hsilent : bytesIn (.start e) = none)
    (hentry : Conn.entry e cfg.shared = some (w', q)) :
    ∃ o, BesideDelivery o cfg ⟨w', cfg.threads ++ [q]⟩ := by
  have hbeside : ∀ {o : Origin}, o.isFrame = false → Conn.Aside o cfg.shared w' →
      q.filter inbound = [] → BesideDelivery o cfg ⟨w', cfg.threads ++ [q]⟩ := fun ho ha hq =>
    ⟨ho, .aside ha, fun hfree => hfree.start w' hq, fun _ _ howns => howns.start w' hq⟩
  cases e with
  | call c =>
      obtain ⟨rfl, rfl⟩ := Prod.mk.inj (Option.some.inj hentry)
      exact ⟨.app, hbeside rfl .rfl rfl⟩
  | data t bytes => cases hsilent
  | closed t =>
      simp only [Conn.entry] at hentry
      split at hentry
      · obtain ⟨rfl, rfl⟩ := Prod.mk.inj (Option.some.inj hentry)
        exact ⟨.delivery, hbeside rfl .rfl rfl⟩
      · cases hentry
  | maintain =>
      simp only [Conn.entry] at hentry
      split at hentry
      · obtain ⟨rfl, rfl⟩ := Prod.mk.inj (Option.some.inj hentry)
        exact ⟨.maintain, hbeside rfl (.client ⟨rfl, rfl, rfl, rfl, rfl⟩) rfl⟩
      · cases hentry

/-- A step that brings nothing in is beside the delivery, or it is a section of it. -/
theorem silent_cases {l : Label} (hsilent : bytesIn l = none)
    (hstep : program.step cfg l = some cfg') :
    ((∃ o, BesideDelivery o cfg cfg') ∧ ∀ k, l.front cfg = some k → inbound k = false) ∨
      ∃ j c k rest w' ks, l = .run j c ∧ cfg.threads[j]? = some (k :: rest) ∧ inbound k = true ∧
        (∀ data, c ≠ .data data) ∧ Conn.exec j k c cfg.shared = some (w', ks) ∧
        cfg' = ⟨w', cfg.threads.set j (ks ++ rest)⟩ := by
  obtain ⟨e, w', q, rfl, hentry, rfl⟩ | ⟨j, c, k, rest, w', ks, rfl, hget, hexec, rfl⟩ :=
    Sections.Program.step_cases hstep
  · exact .inl ⟨beside_start hsilent hentry, by simp⟩
  · have hc : ∀ data, c ≠ .data data := by
      rintro data rfl
      cases hsilent
    cases hk : inbound k with
    | true => exact .inr ⟨j, c, k, rest, w', ks, rfl, hget, hk, hc, hexec, rfl⟩
    | false =>
        obtain ⟨heffect, hsections⟩ := Conn.exec_beside hk hc hexec
        have horigin : k.origin.isFrame = false := (Bool.or_eq_false_iff.mp hk).1
        refine .inl ⟨⟨k.origin, horigin, heffect, fun hfree => hfree.run w' hget hsections,
          fun _ _ howns => howns.other w' hget hk hsections⟩, ?_⟩
        rw [Sections.Label.front_run hget]
        rintro k' ⟨⟩
        exact hk

/-- A step that brings bytes in leaves the client alone, and its thread receives them. -/
theorem delivers_of_bytesIn {l : Label} {data : Bytes} (hbytes : bytesIn l = some data)
    (hidle : Sections.Free inbound cfg) (hstep : program.step cfg l = some cfg') :
    cfg'.shared = cfg.shared ∧
      ∃ i, Sections.Owns inbound i [⟨.delivery, .onTransportData data⟩] cfg' := by
  obtain ⟨e, w', q, rfl, hentry, rfl⟩ | ⟨j, c, k, rest, w', ks, rfl, hget, hexec, rfl⟩ :=
    Sections.Program.step_cases hstep
  · cases e with
    | data t bytes =>
        obtain rfl := Option.some.inj hbytes
        simp only [program, Conn.entry] at hentry
        split at hentry
        · obtain ⟨rfl, rfl⟩ := Prod.mk.inj (Option.some.inj hentry)
          exact ⟨rfl, _, hidle.owns_start cfg.shared [⟨.delivery, .onTransportData bytes⟩]⟩
        · cases hentry
    | _ => cases hbytes
  · cases c with
    | data bytes =>
        obtain rfl := Option.some.inj hbytes
        obtain ⟨rfl, rfl⟩ := exec_data hexec
        have howns := hidle.owns_run cfg.shared hget [⟨.delivery, .onTransportData bytes⟩, k]
        rw [List.filter_cons_of_pos rfl, List.filter_cons_of_neg (by simp [(hidle.front hget).1]),
          List.filter_nil] at howns
        exact ⟨rfl, j, howns⟩
    | _ => cases hbytes

theorem Story.step {l : Label} (h : Story n sent before arrived cfg)
    (hok : Undisturbed n cfg l cfg') (hstep : program.step cfg l = some cfg')
    (hstream : arrived ++ (bytesIn l).getD [] ++ later = wire sent) :
    Story n sent before (arrived ++ (bytesIn l).getD []) cfg' := by
  cases hbytes : bytesIn l with
  | some data =>
      have hidle := hok.oneAtATime (by simp [hbytes])
      obtain ⟨hshared, i, howns⟩ := delivers_of_bytesIn hbytes hidle hstep
      exact h.deliver hidle (hok.onOpen (by simp [hbytes])) (hok.fits data hbytes) hshared howns
  | none =>
      rw [hbytes, Option.getD_none, List.append_nil] at hstream
      rw [Option.getD_none, List.append_nil]
      obtain ⟨⟨o, hb⟩, hfront⟩ | ⟨j, c, k, rest, w', ks, rfl, hget, hk, hc, hexec, rfl⟩ :=
        silent_cases hbytes hstep
      · apply h.beside hb.notFrame hb.effect _ hb.free hb.owns
        apply hok.keeps
        intro k hk horigin
        have hbeside := hfront k hk
        rw [inbound, horigin] at hbeside
        cases hbeside
      · apply h.own hget hk hexec hc _ hstream
        rintro horigin call rfl
        exact hok.silent j call k rfl (Sections.Label.front_run hget _) horigin

theorem Story.run {ls : List Label} (h : Story n sent before arrived cfg)
    (hok : Runs.Along program.step (Undisturbed n) cfg ls)
    (hstream : arrived ++ arrivals ls ++ later = wire sent)
    (hrun : Runs.exec program.step cfg ls = some cfg') :
    Story n sent before (arrived ++ arrivals ls) cfg' := by
  induction ls generalizing cfg arrived with
  | nil =>
      obtain rfl := Option.some.inj hrun
      rw [arrivals, List.filterMap_nil, List.flatten_nil, List.append_nil]
      exact h
  | cons l ls ih =>
      obtain ⟨mid, hl, hrest⟩ := Option.bind_eq_some_iff.mp hrun
      obtain ⟨hthis, htail⟩ := hok mid hl
      have hcons : arrivals (l :: ls) = (bytesIn l).getD [] ++ arrivals ls := by
        cases hbytes : bytesIn l with
        | none => simp [arrivals, hbytes]
        | some bytes => simp [arrivals, hbytes]
      rw [hcons, ← List.append_assoc] at hstream ⊢
      rw [List.append_assoc _ (arrivals ls)] at hstream
      have hmid := h.step hthis hl hstream
      rw [← List.append_assoc] at hstream
      exact ih hmid htail hstream hrest

/-- On an open connection the client delivers exactly the messages that the inbound frames say, and
fails at the first violation as the violation demands, whatever else goes on beside the deliveries.
What is shown is never more than that, and it is all of it when every frame has been handled. -/
theorem messages_meet_spec {ls : List Label} (hopen : OnOpen n cfg)
    (hok : Runs.Along program.step (Undisturbed n) cfg ls)
    (hstream : arrivals ls ++ later = wire sent)
    (hrun : Runs.exec program.step cfg ls = some cfg') :
    Nonempty (Reading (framesOf sent)) ∧
      ∀ r : Reading (framesOf sent), ∃ shown,
        outcomesOn n cfg'.shared.trace = outcomesOn n cfg.shared.trace ++ shown ∧
        shown <+: r.outcomes ∧
        (later = [] → Sections.Free inbound cfg' → shown = r.outcomes) := by
  have hstory := (Story.start sent hopen).run hok hstream hrun
  refine ⟨exists_reading _, fun r => ?_⟩
  obtain ⟨shown, hshown, hprefix⟩ := hstory.shown
  rw [← r.outcomes_eq] at hprefix
  refine ⟨shown, hshown, hprefix, fun hlater hidle => ?_⟩
  have hwhole : [] ++ arrivals ls = wire sent := by
    rw [← hstream, hlater, List.append_nil, List.nil_append]
  rw [hwhole] at hstory
  have hall := hstory.shownAll hidle
  rw [hshown, ← r.outcomes_eq] at hall
  exact List.append_cancel_left hall

end

/-! ## A message in two frames -/

/-- Connection 1 is open. -/
def openConfig : Config :=
  ⟨{ client := { state := .kOpen, transport := some 0, handshakeDone := true }
     transports := 1, connection := 1 }, []⟩

/-- "h" and "i", with the header of the second frame cut in two. -/
def fragmentedFrames : List InboundFrame :=
  [⟨[0x01, 1, 104], ⟨false, .kText, [104]⟩, by decide, by decide⟩,
    ⟨[0x80, 1, 105], ⟨true, .kContinuation, [105]⟩, by decide, by decide⟩]

def fragmentedLabels : List Label :=
  [.start (.data 0 [0x01, 1, 104, 0x80]), .run 0 .go, .run 0 .go, .run 0 .go, .run 0 .go,
    .run 0 .go, .run 0 .go, .start (.data 0 [1, 105]), .run 1 .go, .run 1 .go, .run 1 .go,
    .run 1 .go, .run 1 .go, .run 1 .go, .run 1 .go, .run 1 .go]

theorem messages_meet_spec_fragmented :
    ∃ cfg', Runs.exec (@program esp32).step openConfig fragmentedLabels = some cfg' ∧
      Nonempty (Reading (framesOf fragmentedFrames)) ∧
      ∀ r : Reading (framesOf fragmentedFrames), ∃ shown,
        outcomesOn 1 cfg'.shared.trace = outcomesOn 1 openConfig.shared.trace ++ shown ∧
        shown <+: r.outcomes ∧
        (([] : Bytes) = [] → Sections.Free inbound cfg' → shown = r.outcomes) := by
  have hrun : (Runs.exec (@program esp32).step openConfig fragmentedLabels).isSome = true := by
    decide +kernel
  obtain ⟨cfg', hcfg'⟩ := Option.isSome_iff_exists.mp hrun
  have hok : Runs.Along (@program esp32).step (Undisturbed 1) openConfig fragmentedLabels := by
    decide +kernel
  have hopen : OnOpen 1 openConfig :=
    ⟨rfl, rfl, by decide, rfl, rfl, rfl, rfl, by decide⟩
  exact ⟨cfg', hcfg', @messages_meet_spec 1 fragmentedFrames openConfig cfg' [] esp32 _ hopen hok
    (by decide) hcfg'⟩

end EspModemLink.WebSocket
