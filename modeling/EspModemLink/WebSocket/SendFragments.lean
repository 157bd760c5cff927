import EspModemLink.Library.Fragmentation
import EspModemLink.WebSocket.ControlFlow

/-!
# The fragments that are sent

`SendFragment` sets `send_fragment_open_` for the next frame before its own has been sent. A frame
that fails then leaves the flag of a message that the peer has not seen begin, or not seen end.
-/

namespace EspModemLink.WebSocket

open Bytes Http Sections Fragmentation

/-! ## Data frames on the wire -/

/-- The part of a message that the bytes carry, if they are a data frame. -/
def fragmentOf (bytes : Bytes) : Option Fragment :=
  match bytes.head?, opcodeOf bytes with
  | some first, some opcode =>
      if opcode.isData then
        some ⟨opcode != .kContinuation, decide (first &&& kFinBit ≠ 0)⟩
      else none
  | _, _ => none

theorem fragmentOf_of_not_isMessage {bytes : Bytes} (h : isMessage bytes = false) :
    fragmentOf bytes = none := by
  rw [isMessage] at h
  unfold fragmentOf
  split
  · rename_i hopcode
    rw [hopcode] at h
    exact if_neg (by simpa using h)
  · rfl

theorem fragmentOf_encodeFrame {opcode : WsOpcode} {payload bytes : Bytes} {fin : Bool} {key : UInt32}
    (h : encodeFrame opcode payload fin (some key) = .ok bytes) (hdata : opcode.isData = true) :
    fragmentOf bytes = some ⟨opcode != .kContinuation, fin⟩ := by
  have hopcode := opcodeOf_encodeFrame h
  have hhead : bytes.head? = some (firstByte opcode fin) := by
    simp only [encodeFrame] at h
    split at h
    · cases h
    · split at h
      · cases h
      · rw [← Except.ok.inj h]
        rfl
  rw [fragmentOf, hhead, hopcode]
  dsimp only
  rw [if_pos hdata, firstByte_fin]

/-! ## The record -/

/-- A call of `SendFragment`: the flag that it found, and whether its frame is the last. -/
structure SendCall where
  before : Bool
  fin : Bool

/-- The data frames that were sent, and the call under way. -/
structure Outbox where
  fragments : List Fragment := []
  call : Option SendCall := none

def Outbox.after (m : Outbox) (client : SoftwareWsClient) (task : Task) (c : Choice) : Outbox :=
  match task.sect, c with
  | .call (.sendFragment _ _ fin), .go =>
      if client.state = .kOpen then { m with call := some ⟨client.sendFragmentOpen, fin⟩ } else m
  | .sending _ bytes _, .answer (.ok _) => { m with fragments := m.fragments ++ (fragmentOf bytes).toList }
  | .frameSent .sendFragment _, .go => { m with call := none }
  | _, _ => m

def Outbox.watch (m : Outbox) (cfg : Config) (l : Label) (_ : Config) : Outbox :=
  match l with
  | .run i c =>
      match cfg.threads[i]? with
      | some (task :: _) => m.after cfg.shared.client task c
      | _ => m
  | .start _ => m

/-- A section of `SendFragment` behind its first. -/
def Kind.forFragment : Kind → Bool
  | .sendFrame .sendFragment _ | .frameSent .sendFragment _ => true
  | .transportSend (.frame .sendFragment) _ | .sending (.frame .sendFragment) _ => true
  | _ => false

def Task.forFragment (task : Task) : Bool := task.sect.kind.forFragment

/-- A section that is not for `SendFragment` and has no part of a message. -/
def Kind.aside : Kind → Bool
  | .store _ data => !data
  | .sendFrame caller data => caller != .sendFragment && !data
  | .transportSend caller data | .sending caller data => caller != .frame .sendFragment && !data
  | .frameSent caller _ => caller != .sendFragment
  | _ => true

/-- The connection stays open. -/
def StaysOpen (cfg cfg' : Config) : Prop :=
  cfg'.shared.client.state = .kOpen ∧ cfg'.shared.client.transport = cfg.shared.client.transport

/-- `SendFragment` is called one call after the other, on a connection that stays open. -/
def InSequence (s : Outbox × Config) (l : Label) (s' : Outbox × Config) : Prop :=
  StaysOpen s.2 s'.2 ∧
    ∀ task ∈ l.front s.2, task.sect.kind = .callSendFragment → s.1.call = none

/-- A `SendFragment` whose frame could not be sent. -/
def failing (cfg : Config) (l : Label) : Prop :=
  ∃ task ∈ l.front cfg, task.sect.kind = .frameSent .sendFragment false

/-- The data frames that were sent are the beginning of a valid sequence, and a call that fails leaves
the flag as it found it. -/
def Uncorrupted (s : Outbox × Config) (l : Label) (s' : Outbox × Config) : Prop :=
  Begun s'.1.fragments ∧
    (failing s.2 l → ∀ call ∈ s.1.call, s'.2.shared.client.sendFragmentOpen = call.before)

/-- A call that fails had a whole message to send with none open, or the middle of an open one. -/
def Harmless (s : Outbox × Config) (l : Label) : Prop :=
  failing s.2 l → ∀ call ∈ s.1.call, call.before = !call.fin

/-- A connection that has just been opened. -/
structure Opened (cfg : Config) : Prop where
  state : cfg.shared.client.state = .kOpen
  closed : cfg.shared.client.sendFragmentOpen = false
  aside : ∀ q ∈ cfg.threads, ∀ task ∈ q, task.sect.kind.aside = true

/-! ## What a section does about fragments -/

theorem aside_next {k k' : Kind} (hk : k.aside = true) (hcall : k ≠ .callSendFragment)
    (hk' : k' ∈ k.next) : k'.aside = true := by
  have hall : k.next.all Kind.aside = true := by
    cases k with
    | callSendFragment => exact absurd rfl hcall
    | sendFrame caller data =>
        cases caller <;> cases data <;> first | rfl | cases hk
    | frameSent caller ok =>
        cases caller with
        | sendFragment => cases hk
        | handler | sendPing => cases ok <;> rfl
    | transportSend caller data | sending caller data =>
        cases data with
        | true => simp [Kind.aside] at hk
        | false =>
            cases caller with
            | frame caller => cases caller <;> first | rfl | cases hk
            | establish | close => rfl
    | store task data =>
        cases data with
        | true => cases hk
        | false => rfl
    | established task ok => cases task <;> cases ok <;> rfl
    | closeFrameSent waits => cases waits <;> rfl
    | _ => rfl
  exact List.all_eq_true.mp hall k' hk'

/-- The sections of a call write no member that others read, and leave their own. -/
theorem forFragment_next {k k' : Kind} (hk : k.forFragment = true) :
    k.writes = [] ∧ (k' ∈ k.next → k'.forFragment = true ∨ k'.aside = true) := by
  have hall : k.writes = [] ∧ k.next.all (fun k' => k'.forFragment || k'.aside) = true := by
    cases k with
    | sendFrame caller | frameSent caller => cases caller <;> first | exact ⟨rfl, rfl⟩ | cases hk
    | transportSend caller | sending caller =>
        cases caller with
        | frame caller => cases caller <;> first | exact ⟨rfl, rfl⟩ | cases hk
        | establish | close => cases hk
    | _ => cases hk
  refine ⟨hall.1, fun hk' => ?_⟩
  simpa using List.all_eq_true.mp hall.2 k' hk'

theorem not_forFragment_of_aside {k : Kind} (h : k.aside = true) : k.forFragment = false := by
  cases k with
  | sendFrame caller | frameSent caller => cases caller <;> first | rfl | cases h
  | transportSend caller | sending caller =>
      cases caller with
      | frame caller => cases caller <;> first | rfl | cases h
      | establish | close => rfl
  | _ => rfl

/-! ## Runs -/

/-- How far the call has come, whose section this is, with the flag as it is: what is still to be sent
fits what was sent, and the flag says what it will be behind it. -/
def Outbox.Doing (m : Outbox) (flag : Bool) : Sect → Prop
  | .sendFrame opcode _ fin _ =>
      m.call = some ⟨openAfter false m.fragments, fin⟩ ∧ flag = !fin ∧ opcode.isData = true ∧
        (opcode != .kContinuation) = !openAfter false m.fragments
  | .transportSend _ bytes _ | .sending _ bytes _ => ∃ fin,
      m.call = some ⟨openAfter false m.fragments, fin⟩ ∧ flag = !fin ∧
        fragmentOf bytes = some ⟨!openAfter false m.fragments, fin⟩
  | .frameSent _ (.error _) => ∃ fin,
      m.call = some ⟨openAfter false m.fragments, fin⟩ ∧ flag = !fin
  | .frameSent _ (.ok _) => (∃ call, m.call = some call) ∧ openAfter false m.fragments = flag
  | _ => False

/-- What a run keeps. -/
structure Outbox.Sound (s : Outbox × Config) : Prop where
  state : s.2.shared.client.state = .kOpen
  fragmented : Fragmented false s.1.fragments
  sections : ∀ q ∈ s.2.threads, ∀ task ∈ q,
    task.forFragment = true ∨ task.sect.kind.aside = true
  calls : (Free Task.forFragment s.2 ∧ s.1.call = none ∧
      openAfter false s.1.fragments = s.2.shared.client.sendFragmentOpen) ∨
    ∃ i task, Owns Task.forFragment i [task] s.2 ∧
      s.1.Doing s.2.shared.client.sendFragmentOpen task.sect

section

variable [Target] {m : Outbox} {cfg cfg' : Config} {i : ℕ} {task : Task} {c : Choice} {w' : Conn}
  {ks rest : List Task}

/-- The client with its data frames beside it. -/
def sendingFragments : Runs.Step (Outbox × Config) Label := Runs.monitored program.step Outbox.watch

omit [Target] in
/-- A section that has nothing to do with fragments leaves the record alone. -/
theorem after_aside (h : task.sect.kind.aside = true) (hcall : task.sect.kind ≠ .callSendFragment)
    (client : SoftwareWsClient) (c : Choice) : m.after client task c = m := by
  obtain ⟨o, s⟩ := task
  unfold Outbox.after
  dsimp only
  split
  · exact absurd rfl hcall
  · rename_i t bytes caller n
    have hboth : (caller.kind != .frame .sendFragment && !isMessage bytes) = true := h
    have hmessage : isMessage bytes = false := by
      simpa using (Bool.and_eq_true_iff.mp hboth).2
    rw [fragmentOf_of_not_isMessage hmessage, Option.toList_none, List.append_nil]
  · cases h
  · rfl

/-- On a connection that stays open, such a section leaves the flag alone. -/
theorem flag_aside (hcall : task.sect.kind ≠ .callSendFragment)
    (h : Conn.exec i task c cfg.shared = some (w', ks)) (hstate : cfg.shared.client.state = .kOpen)
    (hstate' : w'.client.state = .kOpen) :
    w'.client.sendFragmentOpen = cfg.shared.client.sendFragmentOpen := by
  obtain ⟨o, s⟩ := task
  have hkeeps := (exec_flows h).keeps
  cases s with
  | call cl =>
      cases cl with
      | sendFragment => exact absurd rfl hcall
      | _ => exact hkeeps.sendFragmentOpen (by simp [Sect.kind, Call.kind, Kind.writes])
  | establish caller url =>
      cases c with
      | random words =>
          have hpush : some ((cfg.shared.establish o caller url words).1,
              o.tasks (cfg.shared.establish o caller url words).2) = some (w', ks) := h
          obtain ⟨rfl, -⟩ := Prod.mk.inj (Option.some.inj hpush)
          simp only [Conn.establish]
          split
          · rfl
          · rw [if_pos (by rw [hstate]; decide)]
      | _ => cases h
  | teardown code reason =>
      cases c with
      | go =>
          obtain ⟨rfl, -⟩ := Prod.mk.inj (Option.some.inj h)
          cases hstate'
      | _ => cases h
  | established caller result =>
      apply hkeeps.sendFragmentOpen
      cases caller <;> cases result <;>
        simp [Sect.kind, Caller.isTask, Except.isOk, Except.toBool, Kind.writes]
  | callback cl => cases cl <;> exact hkeeps.sendFragmentOpen (by simp [Sect.kind, Callback.kind, Kind.writes])
  | _ => exact hkeeps.sendFragmentOpen (by simp [Sect.kind, Kind.writes])

omit [Target] in
/-- A call under way is on the record. -/
theorem Outbox.Doing.call {flag : Bool} {s : Sect} (h : m.Doing flag s) :
    ∃ call, m.call = some call := by
  cases s with
  | sendFrame => exact ⟨_, h.1⟩
  | transportSend | sending =>
      obtain ⟨fin, hcall, -⟩ := h
      exact ⟨_, hcall⟩
  | frameSent caller result =>
      cases result with
      | error e =>
          obtain ⟨fin, hcall, -⟩ := h
          exact ⟨_, hcall⟩
      | ok => exact h.1
  | _ => exact h.elim

/-- A section of a call goes on to the next one of the same call, or returns. -/
inductive Advances (m m' : Outbox) (flag : Bool) (task : Task) (ks : List Task) : Prop where
  | goes (task' : Task) (only : ks.filter Task.forFragment = [task'])
      (doing : m'.Doing flag task'.sect)
      (fragmented : Fragmented false m.fragments → Fragmented false m'.fragments)
  | returns (result : Result Unit) (sect : task.sect = .frameSent .sendFragment result)
      (ended : ks.filter Task.forFragment = []) (record : m' = { m with call := none })

omit [Target] in
theorem advances_sendFrame {o : Origin} {opcode : WsOpcode} {payload : Bytes} {fin : Bool}
    {mask : UInt32} {w : Conn} {flag : Bool}
    (hdoing : m.Doing flag (.sendFrame opcode payload fin .sendFragment))
    (h : some ((w.sendFrame opcode payload fin .sendFragment mask).1,
      o.tasks (w.sendFrame opcode payload fin .sendFragment mask).2) = some (w', ks)) :
    Advances m m flag ⟨o, .sendFrame opcode payload fin .sendFragment⟩ ks := by
  obtain ⟨hcall, hflag, hdata, hbegins⟩ := hdoing
  simp only [Conn.sendFrame] at h
  split at h
  · obtain ⟨rfl, rfl⟩ := Prod.mk.inj (Option.some.inj h)
    exact .goes _ rfl ⟨fin, hcall, hflag⟩ id
  · rename_i encoded hencoded
    split at h
    · obtain ⟨rfl, rfl⟩ := Prod.mk.inj (Option.some.inj h)
      exact .goes _ rfl ⟨fin, hcall, hflag⟩ id
    · obtain ⟨rfl, rfl⟩ := Prod.mk.inj (Option.some.inj h)
      refine .goes _ rfl ⟨fin, hcall, hflag, ?_⟩ id
      rw [fragmentOf_encodeFrame hencoded hdata, hbegins]

theorem advances_sending {o : Origin} {t : ℕ} {bytes : Bytes} {w : Conn} {flag : Bool}
    (hdoing : m.Doing flag (.sending t bytes (.sendFrame .sendFragment)))
    (h : Conn.exec i ⟨o, .sending t bytes (.sendFrame .sendFragment)⟩ c w = some (w', ks)) :
    Advances m (m.after w.client ⟨o, .sending t bytes (.sendFrame .sendFragment)⟩ c) flag
      ⟨o, .sending t bytes (.sendFrame .sendFragment)⟩ ks := by
  obtain ⟨fin, hcall, hflag, hfragment⟩ := hdoing
  cases c with
  | answer result =>
      cases result with
      | error e =>
          obtain ⟨rfl, rfl⟩ := Prod.mk.inj (Option.some.inj h)
          exact .goes _ rfl ⟨fin, hcall, hflag⟩ id
      | ok n =>
          obtain ⟨rfl, rfl⟩ := Prod.mk.inj (Option.some.inj h)
          refine .goes ⟨o, .frameSent .sendFragment (.ok ())⟩ rfl ⟨⟨_, hcall⟩, ?_⟩ ?_
          · change openAfter false (m.fragments ++ (fragmentOf bytes).toList) = flag
            rw [hfragment, Option.toList_some, openAfter_concat, hflag]
          · intro hfragmented
            change Fragmented false (m.fragments ++ (fragmentOf bytes).toList)
            rw [hfragment, Option.toList_some]
            exact hfragmented.concat rfl
  | data bytes' =>
      obtain ⟨rfl, rfl⟩ := Prod.mk.inj (Option.some.inj h)
      exact .goes _ rfl ⟨fin, hcall, hflag, hfragment⟩ id
  | closed =>
      obtain ⟨rfl, rfl⟩ := Prod.mk.inj (Option.some.inj h)
      exact .goes _ rfl ⟨fin, hcall, hflag, hfragment⟩ id
  | _ => cases h

theorem exec_advances {w : Conn} {flag : Bool} (hfor : task.forFragment = true)
    (hdoing : m.Doing flag task.sect) (h : Conn.exec i task c w = some (w', ks)) :
    Advances m (m.after w.client task c) flag task ks := by
  obtain ⟨o, s⟩ := task
  cases s with
  | sendFrame opcode payload fin caller =>
      cases caller with
      | sendFragment =>
          cases c with
          | random words =>
              match words, h with
              | [mask], h => exact advances_sendFrame hdoing h
          | _ => cases h
      | handler | sendPing => cases hfor
  | transportSend t bytes caller =>
      cases caller with
      | sendFrame caller =>
          cases caller with
          | sendFragment =>
              cases c with
              | go =>
                  obtain ⟨rfl, rfl⟩ := Prod.mk.inj (Option.some.inj h)
                  exact .goes _ rfl hdoing id
              | _ => cases h
          | handler | sendPing => cases hfor
      | establish | sendCloseFrame => cases hfor
  | sending t bytes caller =>
      cases caller with
      | sendFrame caller =>
          cases caller with
          | sendFragment => exact advances_sending hdoing h
          | handler | sendPing => cases hfor
      | establish | sendCloseFrame => cases hfor
  | frameSent caller result =>
      cases caller with
      | sendFragment =>
          cases c with
          | go =>
              obtain ⟨rfl, rfl⟩ := Prod.mk.inj (Option.some.inj h)
              exact .returns result rfl rfl rfl
          | _ => cases h
      | handler | sendPing => cases hfor
  | established caller result => cases caller <;> cases result <;> cases hfor
  | call cl => cases cl <;> cases hfor
  | callback cl => cases cl <;> cases hfor
  | _ => cases hfor

omit [Target] in
theorem filter_of_aside (h : ∀ t ∈ ks, t.sect.kind.aside = true) :
    ks.filter Task.forFragment = [] := by
  rw [List.filter_eq_nil_iff]
  intro t ht
  rw [Task.forFragment, not_forFragment_of_aside (h t ht)]
  exact Bool.false_ne_true

namespace Outbox

omit [Target] in
/-- A new thread. -/
theorem Sound.start (h : Sound (m, cfg)) {e : Entry} {q : List Task}
    (hentry : Conn.entry e cfg.shared = some (w', q)) : Sound (m, ⟨w', cfg.threads ++ [q]⟩) := by
  have hkeeps := entry_keeps hentry
  obtain ⟨task, rfl, hkind⟩ := entry_kind hentry
  have haside : task.sect.kind.aside = true := List.all_eq_true.mp (by rfl) _ hkind
  have hfilter : [task].filter Task.forFragment = [] :=
    filter_of_aside (by simpa using haside)
  have hflag := hkeeps.sendFragmentOpen (by simp)
  refine ⟨(hkeeps.state (by simp)).trans h.state, h.fragmented, ?_, ?_⟩
  · intro q hq task' htask'
    obtain hq | hq := List.mem_append.mp hq
    · exact h.sections q hq task' htask'
    · rw [List.mem_singleton.mp hq] at htask'
      exact .inr (List.mem_singleton.mp htask' ▸ haside)
  · change (_ ∧ _ ∧ _ = w'.client.sendFragmentOpen) ∨
      ∃ i task, _ ∧ m.Doing w'.client.sendFragmentOpen _
    rw [hflag]
    obtain ⟨hfree, hcall, hopen⟩ | ⟨i, task, howns, hdoing⟩ := h.calls
    · exact .inl ⟨hfree.start w' hfilter, hcall, hopen⟩
    · exact .inr ⟨i, task, howns.start w' hfilter, hdoing⟩

omit [Target] in
/-- The sections behind a step, where those that it leaves are for a fragment or aside. -/
theorem Sound.sections_run (h : Sound (m, cfg)) (hget : cfg.threads[i]? = some (task :: rest))
    (hks : ∀ t ∈ ks, t.forFragment = true ∨ t.sect.kind.aside = true) :
    ∀ q ∈ cfg.threads.set i (ks ++ rest), ∀ t ∈ q,
      t.forFragment = true ∨ t.sect.kind.aside = true := by
  intro q hq t ht
  obtain rfl | ⟨j, -, hj⟩ := mem_set_cases hq
  · obtain ht | ht := List.mem_append.mp ht
    · exact hks t ht
    · exact h.sections _ (List.mem_of_getElem? hget) t (List.mem_cons_of_mem _ ht)
  · exact h.sections q (List.mem_of_getElem? hj) t ht

/-- A section that has nothing to do with fragments. -/
theorem Sound.run_aside (h : Sound (m, cfg)) (hget : cfg.threads[i]? = some (task :: rest))
    (haside : task.sect.kind.aside = true) (hcall : task.sect.kind ≠ .callSendFragment)
    (hexec : Conn.exec i task c cfg.shared = some (w', ks)) (hstate : w'.client.state = .kOpen) :
    Sound (m, ⟨w', cfg.threads.set i (ks ++ rest)⟩) := by
  have hks : ∀ t ∈ ks, t.sect.kind.aside = true := fun t ht =>
    aside_next haside hcall ((exec_flows hexec).next t ht)
  have hflag := flag_aside hcall hexec h.state hstate
  refine ⟨hstate, h.fragmented, h.sections_run hget fun t ht => .inr (hks t ht), ?_⟩
  change (_ ∧ _ ∧ _ = w'.client.sendFragmentOpen) ∨
    ∃ i task, _ ∧ m.Doing w'.client.sendFragmentOpen _
  rw [hflag]
  obtain ⟨hfree, hnone, hopen⟩ | ⟨j, task', howns, hdoing⟩ := h.calls
  · exact .inl ⟨hfree.run w' hget (filter_of_aside hks), hnone, hopen⟩
  · refine .inr ⟨j, task', howns.other w' hget ?_ (filter_of_aside hks), hdoing⟩
    exact not_forFragment_of_aside haside

/-- A call of `SendFragment`, while none is under way. -/
theorem Sound.run_call (h : Sound (m, cfg)) {o : Origin} {data : Bytes} {binary fin : Bool}
    (hget : cfg.threads[i]? = some (⟨o, .call (.sendFragment data binary fin)⟩ :: rest))
    (hnone : m.call = none)
    (hexec : Conn.exec i ⟨o, .call (.sendFragment data binary fin)⟩ c cfg.shared = some (w', ks)) :
    Sound (m.after cfg.shared.client ⟨o, .call (.sendFragment data binary fin)⟩ c,
      ⟨w', cfg.threads.set i (ks ++ rest)⟩) := by
  have hstate : cfg.shared.client.state = .kOpen := h.state
  obtain ⟨hfree, -, hopen⟩ | ⟨j, task', howns, hdoing⟩ := h.calls
  · cases c with
    | go =>
        have hpush : some ((cfg.shared.sendFragment data binary fin).1,
            o.tasks (cfg.shared.sendFragment data binary fin).2) = some (w', ks) := hexec
        rw [Conn.sendFragment, if_neg (not_not_intro hstate)] at hpush
        obtain ⟨rfl, rfl⟩ := Prod.mk.inj (Option.some.inj hpush)
        have hrecord : m.after cfg.shared.client ⟨o, .call (.sendFragment data binary fin)⟩ .go =
            { m with call := some ⟨cfg.shared.client.sendFragmentOpen, fin⟩ } := if_pos hstate
        rw [hrecord]
        refine ⟨hstate, h.fragmented, ?_, .inr ⟨i, _, hfree.owns_run _ hget
          [⟨o, .sendFrame _ data fin .sendFragment⟩], ?_⟩⟩
        · refine h.sections_run hget fun t ht => .inl ?_
          rw [List.mem_singleton.mp ht]
          rfl
        · change openAfter false m.fragments = cfg.shared.client.sendFragmentOpen at hopen
          refine ⟨by rw [hopen], rfl, ?_, ?_⟩
          · split
            · rfl
            · split <;> rfl
          · rw [hopen]
            cases cfg.shared.client.sendFragmentOpen <;> cases binary <;> rfl
    | _ => cases hexec
  · obtain ⟨call, hcall⟩ := hdoing.call
    rw [hnone] at hcall
    cases hcall

/-- A section of the call under way. One that fails has left the flag as it was. -/
theorem Sound.run_fragment (h : Sound (m, cfg)) (hget : cfg.threads[i]? = some (task :: rest))
    (hfor : task.forFragment = true)
    (hrestored : task.sect.kind = .frameSent .sendFragment false →
      ∀ call ∈ m.call, w'.client.sendFragmentOpen = call.before)
    (hexec : Conn.exec i task c cfg.shared = some (w', ks)) :
    Sound (m.after cfg.shared.client task c, ⟨w', cfg.threads.set i (ks ++ rest)⟩) := by
  have hflows := exec_flows hexec
  have hwrites : task.sect.kind.writes = [] := (@forFragment_next _ .returned hfor).1
  have hkeeps : Keeps [] cfg.shared.client w'.client := hwrites ▸ hflows.keeps
  have hflag := hkeeps.sendFragmentOpen (List.not_mem_nil)
  have hsections := h.sections_run hget fun t ht =>
    (forFragment_next hfor).2 (hflows.next t ht)
  obtain ⟨hfree, -, -⟩ | ⟨j, task', howns, hdoing⟩ := h.calls
  · have hfront := (hfree.front hget).1
    rw [hfor] at hfront
    cases hfront
  · obtain ⟨rfl, hsame⟩ := howns.front hget hfor
    obtain ⟨rfl, hrest⟩ := List.cons.inj hsame
    have hnext := howns.own w' ks hget hfor
    have hstate := (hkeeps.state (List.not_mem_nil)).trans h.state
    cases exec_advances hfor hdoing hexec with
    | goes task'' only doing fragmented =>
        rw [only] at hnext
        refine ⟨hstate, fragmented h.fragmented, hsections, .inr ⟨_, task'', hnext, ?_⟩⟩
        change Doing _ w'.client.sendFragmentOpen _
        rw [hflag]
        exact doing
    | returns result sect ended record =>
        rw [ended] at hnext
        rw [record]
        refine ⟨hstate, h.fragmented, hsections, .inl ⟨hnext.free, rfl, ?_⟩⟩
        change openAfter false m.fragments = w'.client.sendFragmentOpen
        rw [sect] at hdoing hrestored
        cases result with
        | ok =>
            rw [hflag]
            exact hdoing.2
        | error e =>
            obtain ⟨fin, hcall, -⟩ := hdoing
            exact (hrestored rfl _ hcall).symm

/-- A step of a connection that stays open, with its calls one after the other. -/
theorem Sound.step {s s' : Outbox × Config} {l : Label} (h : Sound s) (hscope : InSequence s l s')
    (hrestored : failing s.2 l → ∀ call ∈ s.1.call,
      s'.2.shared.client.sendFragmentOpen = call.before)
    (hstep : sendingFragments s l = some s') : Sound s' := by
  obtain ⟨m, cfg⟩ := s
  obtain ⟨m', cfg'⟩ := s'
  obtain ⟨hprogram, hm⟩ := Runs.monitored_eq_some.mp hstep
  obtain ⟨⟨hstate, -⟩, hsequence⟩ := hscope
  simp only at hprogram hm hstate hsequence hrestored
  obtain ⟨e, w', q, rfl, hentry, rfl⟩ | ⟨i, c, task, rest, w', ks, rfl, hget, hexec, rfl⟩ :=
    Program.step_cases hprogram
  · subst hm
    exact h.start hentry
  · have hfront : (Label.run i c : Label).front cfg = some task := Label.front_run hget c
    have hrecord : m' = m.after cfg.shared.client task c := by
      rw [hm, watch]
      simp only [hget]
    rw [hrecord]
    obtain hfor | haside := h.sections _ (List.mem_of_getElem? hget) task (List.mem_cons_self ..)
    · exact h.run_fragment hget hfor (fun hkind => hrestored ⟨task, hfront, hkind⟩) hexec
    · by_cases hcall : task.sect.kind = .callSendFragment
      · obtain ⟨o, s⟩ := task
        have hnone := hsequence _ hfront hcall
        cases s with
        | call cl =>
            cases cl with
            | sendFragment data binary fin => exact h.run_call hget hnone hexec
            | _ => cases hcall
        | callback cl => cases cl <;> cases hcall
        | _ => cases hcall
      · rw [after_aside haside hcall]
        exact h.run_aside hget haside hcall hexec hstate

/-- What a call that fails leaves in the flag is right exactly where the call was harmless. -/
theorem Sound.restored_iff {s s' : Outbox × Config} {l : Label} (h : Sound s)
    (hstep : sendingFragments s l = some s') :
    (failing s.2 l → ∀ call ∈ s.1.call, s'.2.shared.client.sendFragmentOpen = call.before) ↔
      Harmless s l := by
  obtain ⟨m, cfg⟩ := s
  obtain ⟨m', cfg'⟩ := s'
  obtain ⟨hprogram, -⟩ := Runs.monitored_eq_some.mp hstep
  refine imp_congr_right ?_
  rintro ⟨task, hfront, hkind⟩
  obtain ⟨i, c, rest, rfl, hget⟩ := Label.of_front hfront
  obtain ⟨k, rest', w', ks, hget', hexec, rfl⟩ := Program.step_run.mp hprogram
  obtain ⟨rfl, rfl⟩ := List.cons.inj (Option.some.inj (hget.symm.trans hget'))
  have hfor : task.forFragment = true := congrArg Kind.forFragment hkind
  have hkeeps : Keeps task.sect.kind.writes cfg.shared.client w'.client := (exec_flows hexec).keeps
  rw [hkind] at hkeeps
  have hflag := hkeeps.sendFragmentOpen (List.not_mem_nil)
  obtain ⟨hfree, -, -⟩ | ⟨j, task', howns, hdoing⟩ := h.calls
  · have hnot := (hfree.front hget).1
    rw [hfor] at hnot
    cases hnot
  · obtain ⟨-, hsame⟩ := howns.front hget hfor
    obtain ⟨rfl, -⟩ := List.cons.inj hsame
    obtain ⟨fin, hcall, hopen⟩ : ∃ fin,
        m.call = some ⟨openAfter false m.fragments, fin⟩ ∧
          cfg.shared.client.sendFragmentOpen = !fin := by
      obtain ⟨o, s⟩ := task'
      cases s with
      | frameSent caller result =>
          cases result with
          | error e => exact hdoing
          | ok => cases caller <;> cases hkind
      | sendFrame | transportSend | sending => cases hkind
      | _ => exact hdoing.elim
    simp only [hcall, hflag, hopen, Option.mem_def, Option.some.injEq, forall_eq']
    exact eq_comm

end Outbox

open Outbox in
/-- On an open connection whose calls come one after the other, nothing is corrupted if and only if
every call that fails is harmless. -/
theorem uncorrupted_iff {cfg : Config} (hopened : Opened cfg) {ls : List Label}
    (hsequence : Runs.Along sendingFragments InSequence ({}, cfg) ls) :
    Runs.Along sendingFragments Uncorrupted ({}, cfg) ls ↔
      Runs.Along sendingFragments (fun s l _ => Harmless s l) ({}, cfg) ls := by
  have hboth : Runs.Along sendingFragments (fun s l s' => InSequence s l s' ∧ Uncorrupted s l s')
      ({}, cfg) ls ↔
      Runs.Along sendingFragments (fun s l s' => InSequence s l s' ∧ Harmless s l) ({}, cfg) ls := by
    apply Runs.Along.congr (I := Sound)
    · rintro s l s' hsound ⟨hscope, -, hrestored⟩ hstep
      exact hsound.step hscope hrestored hstep
    · intro s l s' hsound hstep
      refine and_congr_right fun hscope => ?_
      rw [Uncorrupted, hsound.restored_iff hstep]
      refine and_iff_right_of_imp fun hharmless => ?_
      have hrestored := (hsound.restored_iff hstep).mpr hharmless
      exact begun_iff.mpr (hsound.step hscope hrestored hstep).fragmented
    · refine ⟨hopened.state, trivial, fun q hq task htask => .inr (hopened.aside q hq task htask),
        .inl ⟨fun q hq => filter_of_aside (hopened.aside q hq), rfl, hopened.closed.symm⟩⟩
  rw [Runs.along_and, Runs.along_and] at hboth
  exact ⟨fun h => (hboth.mp ⟨hsequence, h⟩).2, fun h => (hboth.mpr ⟨hsequence, h⟩).2⟩

end

instance : (cfg : Config) → (l : Label) → Decidable (failing cfg l) := fun cfg l =>
  inferInstanceAs (Decidable (∃ task ∈ l.front cfg, _))

instance Uncorrupted.decidable (s : Outbox × Config) (l : Label) (s' : Outbox × Config) :
    Decidable (Uncorrupted s l s') :=
  inferInstanceAs (Decidable (_ ∧ (_ → ∀ call ∈ s.1.call, _)))

instance InSequence.decidable (s : Outbox × Config) (l : Label) (s' : Outbox × Config) :
    Decidable (InSequence s l s') :=
  inferInstanceAs (Decidable ((_ ∧ _) ∧ ∀ task ∈ l.front s.2, _))

instance Harmless.decidable (s : Outbox × Config) (l : Label) : Decidable (Harmless s l) :=
  inferInstanceAs (Decidable (_ → ∀ call ∈ s.1.call, _))

/-- A client whose connection has just been opened on transport 0. -/
def justOpened : Config :=
  ⟨{ client := { state := .kOpen, transport := some 0, handshakeDone := true, connected := true }
     transports := 1, connection := 1 }, []⟩

/-- A call of `SendFragment` up to what its transport answers. -/
def callSendFragment (i : ℕ) (data : Bytes) (fin : Bool) (result : Result ℕ) : List Label :=
  [.start (.call (.sendFragment data false fin)), .run i .go, .run i (.random [0]), .run i .go,
    .run i (.answer result)]

/-- A message in two fragments, and a whole message that fails. -/
def harmlessRun : List Label :=
  callSendFragment 0 [97] false (.ok 7) ++ [.run 0 (.now 0), .run 0 .go, .run 0 .go] ++
    callSendFragment 1 [98] true (.ok 7) ++ [.run 1 (.now 0), .run 1 .go, .run 1 .go] ++
    callSendFragment 2 [99] true (.error ⟨.kTimeout, 0, ""⟩) ++ [.run 2 .go, .run 2 .go]

theorem opened_justOpened : Opened justOpened := ⟨rfl, rfl, by simp [justOpened]⟩

theorem uncorrupted_harmless :
    Runs.Along (@sendingFragments esp32) Uncorrupted ({}, justOpened) harmlessRun :=
  ((@uncorrupted_iff esp32) opened_justOpened (by decide +kernel)).mpr (by decide +kernel)

/-- The first fragment of a message fails, and the next message begins with a continuation. -/
def failedFirstRun : List Label :=
  callSendFragment 0 [97] false (.error ⟨.kTimeout, 0, ""⟩) ++ [.run 0 .go, .run 0 .go] ++
    callSendFragment 1 [98] true (.ok 7)

theorem failed_fragment_corrupts :
    ¬∀ (cfg : Config) (ls : List Label), Opened cfg →
      Runs.Along (@sendingFragments esp32) InSequence ({}, cfg) ls →
      Runs.Along (@sendingFragments esp32) Uncorrupted ({}, cfg) ls := by
  intro h
  exact absurd (h justOpened failedFirstRun opened_justOpened (by decide +kernel))
    (by decide +kernel)

end EspModemLink.WebSocket
