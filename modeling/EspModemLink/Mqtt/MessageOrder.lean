import EspModemLink.Mqtt.InboundLimit

/-!
# The order of messages

A QoS 1 message is acknowledged before it is handed to the application. A packet that comes in out of
the `Send` of the acknowledgement is taken and handled at once, in front of the message that is still
to be handed over.
-/

namespace EspModemLink.Mqtt

open Bytes Sections

/-! ## Publications -/

/-- The message that a packet brings without a further exchange. -/
def messageOf (p : MqttPacket) : Option MqttPublishMessage :=
  if p.header.type = .kPublish ∧ p.header.qos < 2 then parsePublish p.header p.body else none

def messagesOf (ps : List MqttPacket) : List MqttPublishMessage := ps.filterMap messageOf

/-- Packets of a broker that publishes at QoS 0 and 1. -/
def Publications (packets : List (MqttFixedHeader × Bytes)) : Prop :=
  ∀ p ∈ packets, Encodable p.1 p.2 ∧ (messageOf (arriving p)).isSome = true

theorem messagesOf_append (ps qs : List MqttPacket) :
    messagesOf (ps ++ qs) = messagesOf ps ++ messagesOf qs := List.filterMap_append

theorem handled_publication (c : SoftwareMqttClient) {p : MqttPacket} {m : MqttPublishMessage}
    (h : messageOf p = some m) :
    Conn.handled c p = (c, (if p.header.qos = 1 then
      [.sendPacket (encodePacketIdAck .kPuback m.packetId) .handler] else []) ++
        [.callback (.message m)]) := by
  obtain ⟨⟨htype, hqos⟩, hparse⟩ := Option.ite_none_right_eq_some.mp h
  simp only [Conn.handled, htype, Conn.handlePublish, hparse]
  rw [if_neg (by omega), if_neg (by omega)]
  split <;> rfl

/-! ## The record -/

/-- The bytes that came in, the packets taken off them, and the messages handed over. -/
structure Inbox where
  arrived : Bytes := []
  taken : List MqttPacket := []
  delivered : List MqttPublishMessage := []

def Inbox.after (m : Inbox) (client : SoftwareMqttClient) (task : Task) (c : Choice) : Inbox :=
  match task.sect, c with
  | .onTransportData _ data, .go => { m with arrived := m.arrived ++ data }
  | .takePackets, .go =>
      { m with taken := m.taken ++ ((takePacket client.rxBuffer).map Prod.fst).toList }
  | .callback (.message message), .go => { m with delivered := m.delivered ++ [message] }
  | _, _ => m

def Inbox.watch (m : Inbox) (cfg : Config) (l : Label) (_ : Config) : Inbox :=
  match l with
  | .run i c =>
      match cfg.threads[i]? with
      | some (task :: _) => m.after cfg.shared.client task c
      | _ => m
  | .start _ => m

/-- The client with its messages beside it. -/
def delivering : Runs.Step (Inbox × Config) Label := Runs.monitored program.step Inbox.watch

/-- A section that a message is still to be handed over by. -/
def Sect.due : Sect → Bool
  | .handlePacket .. | .callback (.message _) => true
  | _ => false

def Task.due (task : Task) : Bool := task.sect.due

/-- The message. -/
def Sect.message? : Sect → Option MqttPublishMessage
  | .handlePacket _ p => messageOf p
  | .callback (.message m) => some m
  | _ => none

/-- A section that receives or hands over. -/
def Task.receives (task : Task) : Bool := inbound task || task.due

/-- A client that has accepted a connection and received nothing on it yet. -/
structure Accepted (cfg : Config) : Prop where
  empty : cfg.shared.client.rxBuffer = []
  idle : Free Task.receives cfg

/-- The connection goes on, and what comes in are these packets. -/
structure Receives (packets : List (MqttFixedHeader × Bytes)) (s : Inbox × Config) (l : Label)
    (s' : Inbox × Config) : Prop where
  stream : s'.1.arrived <+: encodePackets packets
  noAttempt : s'.2.shared.attempts = s.2.shared.attempts
  noTeardown : ∀ k ∈ l.front s.2, ∀ b, k.sect ≠ .teardown b

/-- A packet is taken while no message is still to be handed over. -/
def TakenAlone (cfg : Config) (l : Label) : Prop :=
  ∀ k ∈ l.front cfg, k.sect = .takePackets → (takePacket cfg.shared.client.rxBuffer).isSome = true →
    Free Task.due cfg

/-- What comes in finds room in the buffer. -/
def Fits (cfg : Config) (l : Label) : Prop :=
  match l.front cfg with
  | some ⟨_, .onTransportData _ data⟩ =>
      (cfg.shared.client.rxBuffer ++ data).length ≤ kMaxBufferedBytes
  | _ => True

/-- The messages are handed over in the order in which their packets came in, each of them once, and
all of them when everything has come in and nothing is under way. -/
def InOrder (packets : List (MqttFixedHeader × Bytes)) (s : Inbox × Config) : Prop :=
  s.1.delivered <+: messagesOf (packets.map arriving) ∧
    (s.1.arrived = encodePackets packets → Free Task.receives s.2 →
      s.1.delivered = messagesOf (packets.map arriving))

/-! ## What a run keeps -/

/-- The message that is due is the last one taken. A packet that can be taken will be. -/
structure Inbox.Sound (packets : List (MqttFixedHeader × Bytes)) (s : Inbox × Config) : Prop where
  stream : TakenSoFar packets s.1.arrived s.1.taken s.2.shared.client.rxBuffer
  order : (Free Task.due s.2 ∧ messagesOf s.1.taken = s.1.delivered) ∨
    ∃ i task message, Owns Task.due i [task] s.2 ∧ task.sect.message? = some message ∧
      messagesOf s.1.taken = s.1.delivered ++ [message]
  looping : takePacket s.2.shared.client.rxBuffer = none ∨
    Remains (fun k => k.sect = .takePackets) s.2

section

variable {packets : List (MqttFixedHeader × Bytes)} {m : Inbox} {cfg cfg' : Config} {i : ℕ}
  {task : Task} {c : Choice} {w' : Conn} {ks rest : List Task}

theorem due_of_plain {s : Sect} (h : s.plain = true) : s.due = false := by
  cases s with
  | callback c => cases c <;> first | rfl | cases h
  | handlePacket => cases h
  | _ => rfl

theorem filter_due_of_plain (h : ∀ k ∈ ks, k.sect.plain = true) : ks.filter Task.due = [] := by
  rw [List.filter_eq_nil_iff]
  intro k hk
  rw [Task.due, due_of_plain (h k hk)]
  exact Bool.false_ne_true

namespace Inbox

/-- What the record says of the messages, as it is read off the state behind a section that has none
to hand over and leaves none. -/
theorem Sound.order_other (h : Sound packets (m, cfg)) (hget : cfg.threads[i]? = some (task :: rest))
    (htask : task.due = false) (hks : ks.filter Task.due = []) (w' : Conn) :
    (Free Task.due (⟨w', cfg.threads.set i (ks ++ rest)⟩ : Config) ∧
        messagesOf m.taken = m.delivered) ∨
      ∃ j task message, Owns Task.due j [task] (⟨w', cfg.threads.set i (ks ++ rest)⟩ : Config) ∧
        task.sect.message? = some message ∧
        messagesOf m.taken = m.delivered ++ [message] := by
  obtain ⟨hfree, hdelivered⟩ | ⟨j, task', message, howns, hmessage, htaken⟩ := h.order
  · exact .inl ⟨hfree.run w' hget hks, hdelivered⟩
  · exact .inr ⟨j, task', message, howns.other w' hget htask hks, hmessage, htaken⟩

/-- A section other than the loop leaves the loop where it is. -/
theorem Sound.looping_other (h : Sound packets (m, cfg))
    (hget : cfg.threads[i]? = some (task :: rest)) (htask : task.sect ≠ .takePackets)
    (hbuffer : w'.client.rxBuffer = cfg.shared.client.rxBuffer) :
    takePacket w'.client.rxBuffer = none ∨ Remains (fun k => k.sect = .takePackets)
      (⟨w', cfg.threads.set i (ks ++ rest)⟩ : Config) := by
  rw [hbuffer]
  refine h.looping.imp_right fun hremains => ?_
  exact hremains.run w' hget (fun hk => absurd hk htask) fun _ hk => hk

/-- A section that neither receives nor hands over. -/
theorem Sound.run_aside (h : Sound packets (m, cfg)) (hget : cfg.threads[i]? = some (task :: rest))
    (htask : task.receives = false) (hks : ks.filter Task.due = [])
    (hbuffer : w'.client.rxBuffer = cfg.shared.client.rxBuffer) :
    Sound packets (m.after cfg.shared.client task c, ⟨w', cfg.threads.set i (ks ++ rest)⟩) := by
  obtain ⟨hinbound, hdue⟩ := Bool.or_eq_false_iff.mp htask
  have hrecord : m.after cfg.shared.client task c = m := by
    unfold after
    split
    · rename_i hsect
      rw [inbound, hsect] at hinbound
      cases hinbound
    · rename_i hsect
      rw [inbound, hsect] at hinbound
      cases hinbound
    · rename_i hsect
      rw [Task.due, hsect] at hdue
      cases hdue
    · rfl
  rw [hrecord]
  refine ⟨?_, h.order_other hget hdue hks w', h.looping_other hget ?_ hbuffer⟩
  · change TakenSoFar packets m.arrived m.taken w'.client.rxBuffer
    rw [hbuffer]
    exact h.stream
  · intro hsect
    rw [inbound, hsect] at hinbound
    cases hinbound

/-- Bytes come in, and the loop takes what they complete. -/
theorem Sound.run_arrival (h : Sound packets (m, cfg)) {o : Origin} {t : ℕ} {data : Bytes}
    (hget : cfg.threads[i]? = some (⟨o, .onTransportData t data⟩ :: rest))
    (hfits : (cfg.shared.client.rxBuffer ++ data).length ≤ kMaxBufferedBytes)
    (hexec : Conn.exec ⟨o, .onTransportData t data⟩ c cfg.shared = some (w', ks)) :
    Sound packets (m.after cfg.shared.client ⟨o, .onTransportData t data⟩ c,
      ⟨w', cfg.threads.set i (ks ++ rest)⟩) := by
  cases c with
  | go =>
      rw [Conn.exec_onTransportData, Conn.onTransportData] at hexec
      simp only [if_neg (Nat.not_lt.mpr hfits)] at hexec
      obtain ⟨rfl, rfl⟩ := Prod.mk.inj (Option.some.inj hexec)
      exact ⟨h.stream.arrive data, h.order_other hget rfl rfl _,
        .inr (Remains.of_mem hget _ (List.mem_singleton.mpr rfl) rfl)⟩
  | _ => cases hexec

/-- One turn of the loop. -/
theorem Sound.run_take (hpackets : Publications packets) (h : Sound packets (m, cfg)) {o : Origin}
    (hstream : m.arrived <+: encodePackets packets)
    (hget : cfg.threads[i]? = some (⟨o, .takePackets⟩ :: rest))
    (halone : (takePacket cfg.shared.client.rxBuffer).isSome = true → Free Task.due cfg)
    (hexec : Conn.exec ⟨o, .takePackets⟩ c cfg.shared = some (w', ks)) :
    Sound packets (m.after cfg.shared.client ⟨o, .takePackets⟩ c,
      ⟨w', cfg.threads.set i (ks ++ rest)⟩) := by
  cases c with
  | go =>
      rw [Conn.exec_takePackets] at hexec
      have hrecord : m.after cfg.shared.client ⟨o, .takePackets⟩ .go =
          { m with taken := m.taken ++
              ((takePacket cfg.shared.client.rxBuffer).map Prod.fst).toList } := rfl
      rw [hrecord]
      cases htake : takePacket cfg.shared.client.rxBuffer with
      | none =>
          simp only [Conn.takePackets, htake] at hexec
          obtain ⟨rfl, rfl⟩ := Prod.mk.inj (Option.some.inj hexec)
          rw [Option.map_none, Option.toList_none, List.append_nil]
          exact ⟨h.stream, h.order_other hget rfl rfl _, .inl htake⟩
      | some taken =>
          obtain ⟨p, left⟩ := taken
          simp only [Conn.takePackets, htake] at hexec
          obtain ⟨rfl, rfl⟩ := Prod.mk.inj (Option.some.inj hexec)
          rw [Option.map_some, Option.toList_some]
          have hfree := halone (by rw [htake]; rfl)
          obtain ⟨later, hlater⟩ := hstream
          have hnext := h.stream.take (fun p hp => (hpackets p hp).1) hlater htake
          -- the packet is one of those that come in
          obtain ⟨message, hmessage⟩ : ∃ message, messageOf p = some message := by
            obtain ⟨n, htaken, -⟩ := hnext
            have hp : p ∈ (packets.take n).map arriving := by
              rw [← htaken]
              exact List.mem_append_right _ (List.mem_singleton.mpr rfl)
            obtain ⟨q, hq, rfl⟩ := List.mem_map.mp hp
            exact Option.isSome_iff_exists.mp (hpackets q (List.mem_of_mem_take hq)).2
          obtain ⟨-, hdelivered⟩ | ⟨j, task, message', howns, -, -⟩ := h.order
          · refine ⟨hnext, .inr ⟨i, _, message, hfree.owns_run _ hget
              [⟨o, .handlePacket _ p⟩, ⟨o, .takePackets⟩], hmessage, ?_⟩, ?_⟩
            · change messagesOf (m.taken ++ [p]) = m.delivered ++ [message]
              rw [messagesOf_append, ← hdelivered]
              simp [messagesOf, hmessage]
            · exact .inr (Remains.of_mem hget _
                (List.mem_cons_of_mem _ (List.mem_singleton.mpr rfl)) rfl)
          · exact absurd hfree howns.not_free
  | _ => cases hexec

/-- The packet is handled, or its message handed over. -/
theorem Sound.run_due (h : Sound packets (m, cfg)) (hget : cfg.threads[i]? = some (task :: rest))
    (hdue : task.due = true) (hexec : Conn.exec task c cfg.shared = some (w', ks)) :
    Sound packets (m.after cfg.shared.client task c, ⟨w', cfg.threads.set i (ks ++ rest)⟩) := by
  obtain ⟨hfree, -⟩ | ⟨j, task', message, howns, hmessage, htaken⟩ := h.order
  · rw [(hfree.front hget).1] at hdue
    cases hdue
  · obtain ⟨rfl, hsame⟩ := howns.front hget hdue
    obtain ⟨rfl, -⟩ := List.cons.inj hsame
    have hnext := howns.own w' ks hget hdue
    obtain ⟨o, s⟩ := task'
    cases s with
    | handlePacket number p =>
        cases c with
        | go =>
            have hpush : some (cfg.shared.handlePacket number p) = some (w', ks) := hexec
            rw [Conn.handlePacket, handled_publication _ hmessage] at hpush
            obtain ⟨rfl, hks⟩ := Prod.mk.inj (Option.some.inj hpush)
            have hleft : ks.filter Task.due =
                [⟨.packet cfg.shared.received, .callback (.message message)⟩] := by
              rw [← hks]
              by_cases hqos : p.header.qos = 1
              · rw [if_pos hqos]
                rfl
              · rw [if_neg hqos]
                rfl
            rw [hleft] at hnext
            exact ⟨h.stream, .inr ⟨_, _, message, hnext, rfl, htaken⟩,
              h.looping_other hget nofun rfl⟩
        | _ => cases hexec
    | callback call =>
        cases call with
        | message message' =>
            obtain rfl := Option.some.inj hmessage
            cases c with
            | go =>
                obtain ⟨rfl, rfl⟩ := Prod.mk.inj (Option.some.inj hexec)
                exact ⟨h.stream, .inl ⟨hnext.free, htaken⟩, h.looping_other hget nofun rfl⟩
            | _ => cases hexec
        | _ => cases hdue
    | _ => cases hdue

/-- A new thread has nothing to hand over. -/
theorem Sound.start (h : Sound packets (m, cfg)) {e : Entry} {q : List Task}
    (hentry : Conn.entry e cfg.shared = some (w', q)) :
    Sound packets (m, ⟨w', cfg.threads ++ [q]⟩) := by
  obtain ⟨hquiet, hq⟩ := Conn.entry_quiet hentry
  have hbuffer := hquiet.session.rxBuffer
  have hfilter := filter_due_of_plain hq
  refine ⟨?_, ?_, ?_⟩
  · change TakenSoFar packets m.arrived m.taken w'.client.rxBuffer
    rw [hbuffer]
    exact h.stream
  · obtain ⟨hfree, hdelivered⟩ | ⟨j, task', message, howns, hmessage, htaken⟩ := h.order
    · exact .inl ⟨hfree.start w' hfilter, hdelivered⟩
    · exact .inr ⟨j, task', message, howns.start w' hfilter, hmessage, htaken⟩
  · change takePacket w'.client.rxBuffer = none ∨ _
    rw [hbuffer]
    exact h.looping.imp_right fun hremains => hremains.start w' q

/-- What a section beside the messages does on a connection that goes on. -/
theorem exec_aside (htask : task.receives = false)
    (hattempts : w'.attempts = cfg.shared.attempts) (hteardown : ∀ b, task.sect ≠ .teardown b)
    (hexec : Conn.exec task c cfg.shared = some (w', ks)) :
    ks.filter Task.due = [] ∧ w'.client.rxBuffer = cfg.shared.client.rxBuffer := by
  obtain ⟨hinbound, hdue⟩ := Bool.or_eq_false_iff.mp htask
  have hnot : ∀ {s}, task.sect = s → receiving s = false := by
    rintro s rfl
    exact hinbound
  cases Conn.exec_effect hexec with
  | quiet hplain hquiet hks => exact ⟨filter_due_of_plain hks, hquiet.session.rxBuffer⟩
  | begins =>
      simp only [Conn.log] at hattempts
      omega
  | stores t hplain hks => exact ⟨filter_due_of_plain hks, rfl⟩
  | forwards => exact ⟨rfl, rfl⟩
  | drops _ _ hks => exact ⟨filter_due_of_plain hks, rfl⟩
  | sends _ hks | notifies _ _ hks => exact ⟨filter_due_of_plain hks, rfl⟩
  | arrives hsect | overflows hsect | takes hsect | handles hsect => cases hnot hsect
  | tearsDown hsect => exact absurd hsect (hteardown _)

/-- A step of a connection that goes on. -/
theorem Sound.step (hpackets : Publications packets) {s s' : Inbox × Config} {l : Label}
    (h : Sound packets s) (hscope : Receives packets s l s') (halone : TakenAlone s.2 l)
    (hfits : Fits s.2 l) (hstep : delivering s l = some s') : Sound packets s' := by
  obtain ⟨m, cfg⟩ := s
  obtain ⟨m', cfg'⟩ := s'
  obtain ⟨hprogram, hm⟩ := Runs.monitored_eq_some.mp hstep
  obtain ⟨hstream, hattempts, hteardown⟩ := hscope
  simp only at hprogram hm hattempts hteardown
  obtain ⟨e, w', q, rfl, hentry, rfl⟩ | ⟨i, c, task, rest, w', ks, rfl, hget, hexec, rfl⟩ :=
    Program.step_cases hprogram
  · subst hm
    exact h.start hentry
  · have hfront : (Label.run i c : Label).front cfg = some task := Label.front_run hget c
    have hrecord : m' = m.after cfg.shared.client task c := by
      rw [hm, watch]
      simp only [hget]
    rw [hrecord]
    obtain ⟨o, s⟩ := task
    by_cases hdue : s.due = true
    · exact h.run_due hget hdue hexec
    · by_cases hinbound : receiving s = true
      · cases s with
        | onTransportData t data =>
            rw [Fits, hfront] at hfits
            exact h.run_arrival hget hfits hexec
        | takePackets =>
            have hbefore : m.arrived <+: encodePackets packets := by
              rw [hrecord] at hstream
              cases c with
              | go => exact hstream
              | _ => cases hexec
            exact h.run_take hpackets hbefore hget (halone _ hfront rfl) hexec
        | handlePacket => exact absurd rfl hdue
        | _ => cases hinbound
      · have haside : Task.receives ⟨o, s⟩ = false := by
          simp only [Task.receives, inbound, Task.due, Bool.or_eq_false_iff]
          exact ⟨Bool.eq_false_iff.mpr hinbound, Bool.eq_false_iff.mpr hdue⟩
        obtain ⟨hleft, hbuffer⟩ := exec_aside haside hattempts (hteardown _ hfront) hexec
        exact h.run_aside hget haside hleft hbuffer

/-- What has been handed over is in order, and complete in the end. -/
theorem Sound.inOrder (hpackets : Publications packets) {s : Inbox × Config}
    (h : Sound packets s) : InOrder packets s := by
  obtain ⟨n, htaken, -⟩ := h.stream
  have hprefix : messagesOf s.1.taken <+: messagesOf (packets.map arriving) := by
    rw [htaken]
    exact ((List.take_prefix n packets).map arriving).filterMap messageOf
  constructor
  · obtain ⟨-, hdelivered⟩ | ⟨-, -, message, -, -, hdelivered⟩ := h.order
    · exact hdelivered ▸ hprefix
    · rw [hdelivered] at hprefix
      exact (List.prefix_append _ _).trans hprefix
  · intro harrived hidle
    have hfree : Free Task.due s.2 := hidle.mono fun k hk => by
      rw [Task.receives, hk, Bool.or_true]
    have hdry : takePacket s.2.shared.client.rxBuffer = none := by
      refine h.looping.resolve_right ?_
      rintro ⟨q, hq, k, hk, hsect⟩
      have hnot := hidle.eq_false hq hk
      rw [Task.receives, inbound, hsect] at hnot
      cases hnot
    have hall := h.stream
    rw [harrived] at hall
    obtain ⟨-, hdelivered⟩ | ⟨j, task, message, howns, -⟩ := h.order
    · rw [← hdelivered, (hall.all (fun p hp => (hpackets p hp).1) hdry).1]
    · exact absurd hfree howns.not_free

end Inbox

open Inbox in
/-- On a connection that goes on, where no packet is taken while a message is still to be handed over
and nothing overflows the buffer, the messages are handed over in the order in which they came. -/
theorem messages_in_order {packets : List (MqttFixedHeader × Bytes)}
    (hpackets : Publications packets) {cfg : Config} (haccepted : Accepted cfg) {ls : List Label}
    (h : Runs.Along delivering
      (fun s l s' => Receives packets s l s' ∧ TakenAlone s.2 l ∧ Fits s.2 l) ({}, cfg) ls) :
    Runs.Along delivering (fun _ _ s' => InOrder packets s') ({}, cfg) ls := by
  apply h.mono (I := Sound packets)
  · rintro s l s' hsound ⟨hscope, halone, hfits⟩ hstep
    have hsound' := hsound.step hpackets hscope halone hfits hstep
    exact ⟨hsound', hsound'.inOrder hpackets⟩
  · refine ⟨⟨0, rfl, ?_⟩, .inl ⟨?_, rfl⟩, .inl ?_⟩
    · change encodePackets [] ++ cfg.shared.client.rxBuffer = []
      rw [haccepted.empty]
      rfl
    · exact haccepted.idle.mono fun k hk => by rw [Task.receives, hk, Bool.or_true]
    · change takePacket cfg.shared.client.rxBuffer = none
      rw [haccepted.empty]
      rfl

end

instance TakenAlone.decidable (cfg : Config) (l : Label) : Decidable (TakenAlone cfg l) :=
  inferInstanceAs (Decidable (∀ k ∈ l.front cfg, _ → _ → Free Task.due cfg))

instance Fits.decidable (cfg : Config) (l : Label) : Decidable (Fits cfg l) := by
  unfold Fits
  split <;> infer_instance

instance Receives.decidable (packets : List (MqttFixedHeader × Bytes)) (s : Inbox × Config) (l : Label)
    (s' : Inbox × Config) : Decidable (Receives packets s l s') :=
  decidable_of_iff
    (s'.1.arrived <+: encodePackets packets ∧ s'.2.shared.attempts = s.2.shared.attempts ∧
      ∀ k ∈ l.front s.2, ∀ b, k.sect ≠ .teardown b)
    ⟨fun ⟨hstream, hattempts, hteardown⟩ => ⟨hstream, hattempts, hteardown⟩,
      fun ⟨hstream, hattempts, hteardown⟩ => ⟨hstream, hattempts, hteardown⟩⟩

instance InOrder.decidable (packets : List (MqttFixedHeader × Bytes)) (s : Inbox × Config) :
    Decidable (InOrder packets s) :=
  inferInstanceAs (Decidable (_ <+: _ ∧ (_ → Free Task.receives s.2 → _)))

/-- A client whose session on transport 0 was accepted. -/
def acceptedSession : Config :=
  ⟨{ client := { transport := some 0, connected := true, connackReady := true }
     attempts := 1, transports := [0] }, []⟩

theorem accepted_acceptedSession : Accepted acceptedSession := ⟨rfl, by decide⟩

/-- A publication of one byte on the topic `t`. -/
def onTopic (qos packetId : ℕ) (payload : UInt8) : MqttFixedHeader × Bytes :=
  ({ type := .kPublish, qos := qos }, publishBody packetId [116] [payload] qos)

/-- A message at QoS 1, and one at QoS 0 behind it. -/
def twoPublications : List (MqttFixedHeader × Bytes) := [onTopic 1 7 97, onTopic 0 0 98]

theorem publications_twoPublications : Publications twoPublications := by
  simp only [Publications, twoPublications, List.forall_mem_cons, Encodable]
  decide +kernel

/-- The first packet comes in and is handled, up to the `Send` of its acknowledgement. -/
def acknowledgingLabels : List Label :=
  [.start (.data 0 (encodePackets [onTopic 1 7 97])), .run 0 .go, .run 0 .go, .run 0 .go,
    .run 0 .go, .run 0 .go]

/-- The bytes come in out of that `Send`. -/
def withinSendLabels (bytes : Bytes) : List Label := [.run 0 (.data 0 bytes), .run 0 .go, .run 0 .go]

/-- Only the first byte of the second packet comes in out of the `Send`, and the others behind the
callback. -/
def partlyWithinRun : List Label :=
  let bytes := encodePackets [onTopic 0 0 98]
  acknowledgingLabels ++ withinSendLabels (bytes.take 1) ++
    [.run 0 (.answer (.ok 4)), .run 0 (.now 0), .run 0 .go, .run 0 .go, .run 0 .go, .run 0 .go,
      .start (.data 0 (bytes.drop 1)), .run 1 .go, .run 1 .go, .run 1 .go, .run 1 .go, .run 1 .go,
      .run 1 .go]

theorem messages_in_order_partlyWithin :
    Runs.Along delivering (fun _ _ s' => InOrder twoPublications s') ({}, acceptedSession)
      partlyWithinRun :=
  messages_in_order publications_twoPublications accepted_acceptedSession (by decide +kernel)

/-- The whole second packet comes in out of the `Send` and overtakes the first message. -/
theorem nested_message_overtakes :
    ¬∀ (packets : List (MqttFixedHeader × Bytes)) (cfg : Config) (ls : List Label),
      Publications packets → Accepted cfg →
      Runs.Along delivering (fun s l s' => Receives packets s l s' ∧ Fits s.2 l) ({}, cfg) ls →
      Runs.Along delivering (fun _ _ s' => InOrder packets s') ({}, cfg) ls := by
  intro h
  exact absurd (h twoPublications acceptedSession
    (acknowledgingLabels ++ withinSendLabels (encodePackets [onTopic 0 0 98]) ++
      [.run 0 .go, .run 0 .go])
    publications_twoPublications accepted_acceptedSession (by decide +kernel)) (by decide +kernel)

end EspModemLink.Mqtt
