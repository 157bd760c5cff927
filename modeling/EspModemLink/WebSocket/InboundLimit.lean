import EspModemLink.Library.Backlog
import EspModemLink.WebSocket.Reassembly

/-!
# The limit on what the WebSocket client buffers

`QueueInbound` holds the receive buffer to the size of the largest message before `DrainFrames` takes
the frames that have become complete with the bytes that arrived. Messages in single frames are all
delivered exactly if every arrival fits behind what the ones before it left of a frame.
-/

namespace EspModemLink.WebSocket

open Bytes Http

/-! ## Deliveries -/

def Sect.isData : Sect → Bool
  | .onTransportData _ => true
  | _ => false

def bufferOverflow : NetworkError :=
  ⟨.kBufferOverflow, 0, "the inbound stream exceeds the buffer limit"⟩

/-- The report of an overflow. -/
def Sect.isOverflow : Sect → Bool
  | .callback (.error e) => e == bufferOverflow
  | _ => false

theorem inbound_of_isData {k : Task} (h : k.sect.isData = true) : inbound k = true := by
  obtain ⟨o, s⟩ := k
  cases s <;> first | exact Bool.or_true _ | cases h

/-- The client answers the bytes of a delivery with the report of an overflow. -/
def Overflows (cfg : Config) (l : Label) (cfg' : Config) : Prop :=
  (l.front cfg).any (fun k => k.sect.isData) = true ∧
    (l.front cfg').any (fun k => k.sect.isOverflow) = true

instance (cfg : Config) (l : Label) (cfg' : Config) : Decidable (Overflows cfg l cfg') :=
  inferInstanceAs (Decidable (_ ∧ _))

theorem not_overflows {cfg cfg' : Config} {l : Label}
    (h : ∀ k, l.front cfg = some k → inbound k = false) : ¬Overflows cfg l cfg' := by
  rintro ⟨hdata, -⟩
  obtain ⟨k, hk, hdata⟩ := (Option.any_eq_true _ _).mp hdata
  have hbeside := h k hk
  rw [inbound_of_isData hdata] at hbeside
  cases hbeside

/-- A step on open connection `n` that is undisturbed but for what it does to the buffer. -/
structure Orderly (n : ℕ) (cfg : Config) (l : Label) (cfg' : Config) : Prop where
  oneAtATime : bytesIn l ≠ none → Sections.Free inbound cfg
  onOpen : bytesIn l ≠ none → cfg.shared.connection = n ∧ cfg.shared.client.state = .kOpen
  silent : ∀ i c k, l = .run i (.call c) → l.front cfg = some k → k.origin ≠ .frame n
  keeps : (∀ k, l.front cfg = some k → k.origin ≠ .frame n) →
    cfg'.shared.connection = cfg.shared.connection →
      cfg'.shared.client.state = cfg.shared.client.state ∧
        cfg'.shared.client.transport = cfg.shared.client.transport

theorem Orderly.undisturbed {n : ℕ} {cfg cfg' : Config} {l : Label} (h : Orderly n cfg l cfg')
    (hfits : ∀ bytes, bytesIn l = some bytes →
      (cfg.shared.client.rxBuffer ++ bytes).length ≤ kMaxMessageBytes) :
    Undisturbed n cfg l cfg' :=
  ⟨h.oneAtATime, h.onOpen, hfits, h.silent, h.keeps⟩

theorem Undisturbed.orderly {n : ℕ} {cfg cfg' : Config} {l : Label}
    (h : Undisturbed n cfg l cfg') : Orderly n cfg l cfg' :=
  ⟨h.oneAtATime, h.onOpen, h.silent, h.keeps⟩

/-- A message in a frame of its own. -/
structure SingleFrame (f : InboundFrame) : Prop where
  fin : f.frame.fin = true
  opens : f.frame.opcode = .kText ∨ f.frame.opcode = .kBinary

/-- What the application is to see of messages in single frames. -/
def messagesOf (sent : List InboundFrame) : List Outcome :=
  sent.map fun f => .message f.frame.payload (f.frame.opcode == .kBinary)

/-- A run on which bytes of these frames come in on connection `n`. -/
structure Delivers [Target] (n : ℕ) (sent : List InboundFrame) (cfg : Config) (ls : List Label)
    (cfg' : Config) : Prop where
  ready : OnOpen n cfg
  orderly : Runs.AlongUntil program.step Overflows (Orderly n) cfg ls
  stream : Backlog.unitsIn bytesIn ls <+: wire sent
  run : Runs.exec program.step cfg ls = some cfg'

/-- No arrival overflows, the messages are delivered in order, and all of them when everything has
arrived and no delivery is under way. -/
structure HandlesAll [Target] (n : ℕ) (sent : List InboundFrame) (cfg : Config) (ls : List Label)
    (cfg' : Config) : Prop where
  goes : Runs.Along program.step (fun cfg l cfg' => ¬Overflows cfg l cfg') cfg ls
  shown : ∃ shown,
    outcomesOn n cfg'.shared.trace = outcomesOn n cfg.shared.trace ++ shown ∧
    shown <+: messagesOf sent ∧
    (Backlog.unitsIn bytesIn ls = wire sent → Sections.Free inbound cfg' →
      shown = messagesOf sent)

/-- How long the frames are on the wire. -/
def wireSizes (sent : List InboundFrame) : List ℕ := sent.map fun f => f.bytes.length

/-- Every arrival finds room in the receive buffer behind what is left of the ones before it. -/
def FitsBuffer (sent : List InboundFrame) (ls : List Label) : Prop :=
  Backlog.Fits kMaxMessageBytes (wireSizes sent) 0 (Backlog.pieceSizes bytesIn ls)

/-! ## Messages in single frames -/

/-- A text message as the server puts it into a single frame. -/
def textFrame (payload : Bytes) (h : payload.length < 2 ^ 63) : InboundFrame where
  bytes := firstByte .kText true :: encodeLength 0x00 payload.length ++ payload
  frame := ⟨true, .kText, payload⟩
  reads := by
    have hframe : encodeFrame .kText payload true none =
        .ok (firstByte .kText true :: encodeLength 0x00 payload.length ++ payload) := rfl
    have hread := takeFrame_encodeFrame h hframe []
    rw [List.append_nil] at hread
    exact hread
  notClose := by simp

/-- The header of a frame counts with its payload. -/
theorem length_lt_wire_textFrame {payload : Bytes} (h : payload.length < 2 ^ 63) :
    payload.length < (wire [textFrame payload h]).length := by
  have hbytes : (textFrame payload h).bytes =
      firstByte .kText true :: encodeLength 0x00 payload.length ++ payload := rfl
  simp only [wire, List.flatMap_cons, List.flatMap_nil, List.append_nil, hbytes,
    List.cons_append, List.length_cons, List.length_append]
  omega

/-- The reassembler hands messages in single frames on one by one. -/
theorem feed_singleFrames {sent : List InboundFrame} (hsent : ∀ f ∈ sent, SingleFrame f)
    {s : Reassembled} (hs : s.violation = none) (hopened : s.opened = none) :
    (s.feed (framesOf sent)).outcomes = s.outcomes ++ messagesOf sent := by
  induction sent generalizing s with
  | nil => exact (List.append_nil _).symm
  | cons f sent ih =>
      obtain ⟨hfin, hopens⟩ := hsent f List.mem_cons_self
      have hcontrol : isControlOpcode f.frame.opcode = false := by
        obtain h | h := hopens <;> rw [h] <;> rfl
      have hnext : s.next f.frame = s.deliver f.frame.payload (f.frame.opcode == .kBinary) := by
        rw [Reassembled.next_start hs hcontrol hopened, Reassembled.start, if_neg, if_pos hfin]
        obtain h | h := hopens <;> rw [h] <;> decide
      have hrest := ih (fun g hg => hsent g (List.mem_cons_of_mem _ hg))
        (s := s.deliver f.frame.payload (f.frame.opcode == .kBinary)) hs rfl
      rw [framesOf, List.map_cons, Reassembled.feed_cons, hnext]
      exact hrest.trans (by rw [s.outcomes_deliver hs, List.append_assoc]; rfl)

theorem outcomes_singleFrames {sent : List InboundFrame} (hsent : ∀ f ∈ sent, SingleFrame f) :
    (reassemble (framesOf sent)).outcomes = messagesOf sent :=
  feed_singleFrames hsent rfl rfl

/-! ## Where a run stands -/

section

variable {n : ℕ} {sent : List InboundFrame} {before : List Outcome} {arrived : Bytes}
  {cfg cfg' : Config} {l : Label}

/-- Bytes are about to be received that the buffer has no room for. -/
def Doomed (n : ℕ) (cfg : Config) : Prop :=
  ∃ i data, Sections.Owns inbound i [⟨.delivery, .onTransportData data⟩] cfg ∧
    Unbroken n cfg.shared ∧ kMaxMessageBytes < (cfg.shared.client.rxBuffer ++ data).length

/-- Between two deliveries on an open connection, the buffer holds what has arrived of the next
frame. -/
theorem Story.remainder (h : Story n sent before arrived cfg) (hidle : Sections.Free inbound cfg)
    (hopen : cfg.shared.connection = n ∧ cfg.shared.client.state = .kOpen)
    (hstream : arrived <+: wire sent) :
    Unbroken n cfg.shared ∧
      Backlog.remainder (wireSizes sent) arrived.length = cfg.shared.client.rxBuffer.length := by
  cases h with
  | waiting m live _ _ bytes dry =>
      refine ⟨live.unbroken, ?_⟩
      obtain ⟨later, hlater⟩ := hstream
      apply Backlog.remainder_eq (m := m)
      · rw [← bytes, List.length_append, wireSizes, ← List.map_take, wire, List.length_flatMap]
      · intro size hsize
        obtain ⟨f, hf, rfl⟩ : ∃ f, sent[m]? = some f ∧ f.bytes.length = size := by
          simpa [wireSizes] using hsize
        by_contra hge
        rw [Nat.not_lt] at hge
        have hdrop : sent.drop m = f :: sent.drop (m + 1) := by
          obtain ⟨hm, hf⟩ := List.getElem?_eq_some_iff.mp hf
          rw [← hf, List.drop_eq_getElem_cons hm]
        have hrest : cfg.shared.client.rxBuffer ++ later = wire (sent.drop m) := by
          have hsplit : wire (sent.take m) ++ (cfg.shared.client.rxBuffer ++ later) =
              wire (sent.take m) ++ wire (sent.drop m) := by
            rw [← List.append_assoc, bytes, hlater, wire, wire, wire, ← List.flatMap_append,
              List.take_append_drop]
          exact List.append_cancel_left hsplit
        rw [hdrop, wire, List.flatMap_cons] at hrest
        -- the frame would be complete and at the front of the buffer
        have htake := congrArg (List.take f.bytes.length) hrest
        rw [List.take_append_of_le_length hge, List.take_left] at htake
        have hfront := List.take_append_drop f.bytes.length cfg.shared.client.rxBuffer
        rw [htake] at hfront
        rw [← hfront, takeFrame_append f.reads (by simp)] at dry
        cases dry
  | finished m ended =>
      obtain ⟨-, hstate⟩ | hlt := ended.behind
      · exact absurd hopen.2 hstate
      · omega
  | arriving _ _ _ _ owns | entering _ _ _ owns | leaving _ _ _ owns => exact absurd hidle owns.not_free
  | handling _ _ _ _ _ owns | endingLeave _ _ _ owns => exact absurd hidle owns.not_free
  | answering _ _ sects _ _ owns | failing _ _ sects _ _ _ owns | ending _ _ sects _ _ owns =>
      cases sects with
      | nil => exact absurd hidle owns.not_free
      | cons s rest => exact absurd hidle owns.not_free

theorem isData_of_light {s : Sect} (h : light s = true) : s.isData = false := by
  cases s <;> first | rfl | cases h

/-- Bytes that are received find room. -/
theorem Story.room {i : ℕ} {k : Task} {rest : List Task} (h : Story n sent before arrived cfg)
    (hget : cfg.threads[i]? = some (k :: rest)) (hk : k.sect.isData = true) :
    ∃ data, k = ⟨.delivery, .onTransportData data⟩ ∧
      cfg.shared.client.handshakeDone = true ∧
      (cfg.shared.client.rxBuffer ++ data).length ≤ kMaxMessageBytes := by
  have hinbound := inbound_of_isData hk
  have hnever : ∀ {j : ℕ} {k' : Task} {owned : List Task},
      Sections.Owns inbound j (k' :: owned) cfg → k'.sect.isData = false → False := by
    intro j k' owned owns hother
    obtain ⟨-, howned⟩ := owns.front hget hinbound
    obtain ⟨rfl, -⟩ := List.cons.inj howned
    rw [hk] at hother
    cases hother
  have hsects : ∀ {j : ℕ} {sects : List Sect},
      Sections.Owns inbound j ((Origin.frame n).tasks sects ++ drainLoop) cfg →
      (∀ s ∈ sects, s.isData = false) → False := by
    intro j sects owns hall
    cases sects with
    | nil => exact hnever owns rfl
    | cons s others => exact hnever owns (hall s List.mem_cons_self)
  cases h with
  | arriving m j data live owns _ _ fits =>
      obtain ⟨-, howned⟩ := owns.front hget hinbound
      obtain ⟨rfl, -⟩ := List.cons.inj howned
      exact ⟨data, rfl, live.upgraded, fits⟩
  | waiting _ _ idle | finished _ _ idle =>
      rw [(idle.front hget).1] at hinbound
      cases hinbound
  | entering _ _ _ owns | leaving _ _ _ owns | endingLeave _ _ _ owns =>
      exact (hnever owns rfl).elim
  | handling _ _ _ _ _ owns => exact (hnever owns rfl).elim
  | answering _ _ sects answers _ owns | ending _ _ sects answers _ owns =>
      exact (hsects owns fun s hs => isData_of_light (answers s hs)).elim
  | failing _ _ sects fails _ _ owns =>
      refine (hsects owns fun s hs => ?_).elim
      cases fails with
      | close front code reason hfront =>
          obtain hs | hs := List.mem_append.mp hs
          · exact isData_of_light (hfront s hs)
          · simp only [List.mem_cons, List.not_mem_nil, or_false] at hs
            obtain rfl | rfl := hs <;> rfl
      | teardown front code reason hfront =>
          obtain hs | hs := List.mem_append.mp hs
          · exact isData_of_light (hfront s hs)
          · rw [List.mem_singleton.mp hs]
            rfl

variable [Target]

/-- Nothing overflows as long as the story goes on. -/
theorem Story.goes (h : Story n sent before arrived cfg) (hstep : program.step cfg l = some cfg') :
    ¬Overflows cfg l cfg' := by
  rintro ⟨hfront, hreport⟩
  obtain ⟨k, hk, hdata⟩ := (Option.any_eq_true _ _).mp hfront
  obtain ⟨i, c, rest, rfl, hget⟩ := Sections.Label.of_front hk
  obtain ⟨k', rest', w', ks, hget', hexec, rfl⟩ := Sections.Program.step_run.mp hstep
  obtain ⟨rfl, rfl⟩ := List.cons.inj (Option.some.inj (hget.symm.trans hget'))
  obtain ⟨data, rfl, hdone, hfits⟩ := h.room hget hdata
  obtain ⟨rfl, rfl⟩ := exec_onTransportData hexec hdone hfits
  have hi : i < cfg.threads.length := (List.getElem?_eq_some_iff.mp hget).1
  simp [Sections.Label.front, List.getElem?_set_self hi, Sect.isOverflow] at hreport

/-- A delivery that there is no room for stays until the client reports it. -/
theorem Doomed.step (h : Doomed n cfg) (hok : Orderly n cfg l cfg')
    (hstep : program.step cfg l = some cfg') (hgoes : ¬Overflows cfg l cfg') : Doomed n cfg' := by
  obtain ⟨i, data, owns, unbroken, htooLong⟩ := h
  have hsilent : bytesIn l = none := by
    by_contra hbytes
    exact owns.not_free (hok.oneAtATime hbytes)
  obtain ⟨⟨o, hb⟩, hfront⟩ | ⟨j, c, k, rest, w', ks, rfl, hget, hk, -, hexec, rfl⟩ :=
    silent_cases hsilent hstep
  · have hkeeps : KeepsLink cfg.shared cfg'.shared := by
      apply hok.keeps
      intro k hk horigin
      have hbeside := hfront k hk
      rw [inbound, horigin] at hbeside
      cases hbeside
    obtain ⟨hunbroken, ha⟩ := unbroken.beside hb.effect hkeeps
    exact ⟨i, data, hb.owns _ _ owns, hunbroken, by rw [ha.rxBuffer]; exact htooLong⟩
  · obtain ⟨rfl, howned⟩ := owns.front hget hk
    obtain ⟨rfl, -⟩ := List.cons.inj howned
    exfalso
    apply hgoes
    have hj : j < cfg.threads.length := (List.getElem?_eq_some_iff.mp hget).1
    cases c with
    | go =>
        rw [Conn.exec_queueInbound] at hexec
        simp only [Conn.queueInbound, if_pos htooLong] at hexec
        obtain ⟨rfl, rfl⟩ := Prod.mk.inj (Option.some.inj hexec)
        constructor
        · rw [Sections.Label.front_run hget]
          rfl
        · simp [Sections.Label.front, List.getElem?_set_self hj, Origin.tasks, Conn.fail,
            Sect.isOverflow, bufferOverflow]
    | _ => cases hexec

/-! ## Runs -/

/-- The client is a receiver with a limit. -/
theorem limited : Backlog.Limited program.step Overflows (Orderly n) bytesIn (wire sent)
    kMaxMessageBytes (wireSizes sent) (Story n sent before) (Doomed n) where
  silent := by
    rintro arrived cfg l cfg' h ⟨later, hlater⟩ hbytes hok hstep
    have hwhole : arrived ++ (bytesIn l).getD [] ++ later = wire sent := by
      rw [hbytes, Option.getD_none, List.append_nil, hlater]
    have hnext := h.step (hok.undisturbed (by simp [hbytes])) hstep hwhole
    rw [hbytes, Option.getD_none, List.append_nil] at hnext
    exact ⟨hnext, h.goes hstep⟩
  fits := by
    intro arrived cfg l cfg' data h hstream hbytes hroom hok hstep
    obtain ⟨-, hremainder⟩ := h.remainder (hok.oneAtATime (by simp [hbytes]))
      (hok.onOpen (by simp [hbytes])) ((List.prefix_append _ _).trans hstream)
    rw [hremainder, ← List.length_append] at hroom
    have hundisturbed := hok.undisturbed (fun bytes hsome => by
      obtain rfl := Option.some.inj (hbytes.symm.trans hsome)
      exact hroom)
    obtain ⟨later, hlater⟩ := hstream
    have hwhole : arrived ++ (bytesIn l).getD [] ++ later = wire sent := by
      rw [hbytes, Option.getD_some, hlater]
    have hnext := h.step hundisturbed hstep hwhole
    rw [hbytes, Option.getD_some] at hnext
    exact ⟨hnext, h.goes hstep⟩
  exceeds := by
    intro arrived cfg l cfg' data h hstream hbytes htooLong hok hstep
    have hidle := hok.oneAtATime (by simp [hbytes])
    obtain ⟨hunbroken, hremainder⟩ := h.remainder hidle (hok.onOpen (by simp [hbytes]))
      ((List.prefix_append _ _).trans hstream)
    obtain ⟨hshared, i, howns⟩ := delivers_of_bytesIn hbytes hidle hstep
    rw [hremainder, ← List.length_append] at htooLong
    rw [← hshared] at hunbroken htooLong
    exact ⟨i, data, howns, hunbroken, htooLong⟩
  doomed h hok hstep hgoes := h.step hok hstep hgoes

/-- Messages in single frames are all delivered exactly if every arrival fits. -/
theorem handlesAll_iff_fits {ls : List Label} (hsent : ∀ f ∈ sent, SingleFrame f)
    (h : Delivers n sent cfg ls cfg') :
    (FitsBuffer sent ls → HandlesAll n sent cfg ls cfg') ∧
      (Sections.Free inbound cfg' → HandlesAll n sent cfg ls cfg' → FitsBuffer sent ls) := by
  have hstart := Story.start sent h.ready
  constructor
  · intro hfits
    obtain ⟨hgoes, hend⟩ := limited.run_fits hstart h.orderly h.stream hfits h.run
    rw [List.nil_append] at hend
    refine ⟨hgoes, ?_⟩
    obtain ⟨shown, hshown, hprefix⟩ := hend.shown
    rw [outcomes_singleFrames hsent] at hprefix
    refine ⟨shown, hshown, hprefix, fun hwhole hidle => ?_⟩
    rw [hwhole] at hend
    have hall := hend.shownAll hidle
    rw [hshown, outcomes_singleFrames hsent] at hall
    exact List.append_cancel_left hall
  · intro hidle hall
    obtain hfits | ⟨i, data, owns, -⟩ :=
      limited.run_goes hstart h.orderly h.stream hall.goes h.run
    · exact hfits
    · exact absurd hidle owns.not_free

/-! ## An arrival that is too long -/

omit [Target] in
theorem onOpen_openConfig : OnOpen 1 openConfig := ⟨rfl, rfl, by decide, rfl, rfl, rfl, rfl, by decide⟩

omit [Target] in
theorem unitsIn_arrival (data : Bytes) :
    Backlog.unitsIn bytesIn [.start (.data 0 data), .run 0 .go] = data := List.append_nil data

/-- Whatever it holds, an arrival beyond the limit overflows. -/
theorem overflows_arrival {data : Bytes} (hlong : kMaxMessageBytes < data.length) :
    ∃ cfg', Runs.exec program.step openConfig [.start (.data 0 data), .run 0 .go] = some cfg' ∧
      Runs.AlongUntil program.step Overflows (Orderly 1) openConfig
        [.start (.data 0 data), .run 0 .go] ∧
      ¬Runs.Along program.step (fun cfg l cfg' => ¬Overflows cfg l cfg') openConfig
        [.start (.data 0 data), .run 0 .go] := by
  have hstart : program.step openConfig (.start (.data 0 data)) =
      some ⟨openConfig.shared, [[⟨.delivery, .onTransportData data⟩]]⟩ := rfl
  obtain ⟨w', ks, hrun, hkeeps⟩ : ∃ w' ks, program.step
      ⟨openConfig.shared, [[⟨.delivery, .onTransportData data⟩]]⟩ (.run 0 .go) =
        some ⟨w', [⟨.delivery, .callback (.error bufferOverflow)⟩ :: ks]⟩ ∧
      w'.client.state = openConfig.shared.client.state ∧
      w'.client.transport = openConfig.shared.client.transport := by
    have hbuffer : kMaxMessageBytes < (openConfig.shared.client.rxBuffer ++ data).length := hlong
    rw [Sections.Program.step, List.getElem?_cons_zero]
    simp only [program, Conn.exec_queueInbound, Conn.queueInbound, if_pos hbuffer]
    exact ⟨_, _, rfl, rfl, rfl⟩
  refine ⟨_, by rw [Runs.exec_cons, hstart, Option.bind_some, Runs.exec_cons, hrun]; rfl, ?_, ?_⟩
  · intro mid hmid
    obtain rfl := Option.some.inj (hstart.symm.trans hmid)
    refine ⟨⟨fun _ => onOpen_openConfig.idle, fun _ => ⟨rfl, rfl⟩, by simp, fun _ _ => ⟨rfl, rfl⟩⟩,
      fun _ last hlast => ?_⟩
    obtain rfl := Option.some.inj (hrun.symm.trans hlast)
    refine ⟨⟨by simp [bytesIn], by simp [bytesIn], by simp, fun _ _ => hkeeps⟩, fun _ => trivial⟩
  · intro h
    apply ((h _ hstart).2 _ hrun).1
    exact ⟨rfl, by simp [Sections.Label.front, Sect.isOverflow]⟩

end

end EspModemLink.WebSocket
