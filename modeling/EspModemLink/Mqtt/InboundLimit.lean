import EspModemLink.Library.Backlog
import EspModemLink.Mqtt.SessionGate

/-!
# The limit on what the MQTT client buffers

`OnTransportData` holds the receive buffer to its limit before it takes the packets that have become
complete with the bytes that arrived. The packets are all handled exactly if every arrival fits
behind what the ones before it left of a packet.
-/

namespace EspModemLink.Mqtt

open Bytes Http

/-! ## Deliveries -/

/-- The sections that receive bytes and take packets off them. -/
def receiving : Sect → Bool
  | .onTransportData .. | .takePackets | .handlePacket .. => true
  | _ => false

/-- What a delivery still has to execute. -/
def inbound (k : Task) : Bool := receiving k.sect

/-- The bytes that a step brings in. -/
def bytesIn : Label → Option Bytes
  | .start (.data _ bytes) => some bytes
  | .run _ (.data _ bytes) => some bytes
  | _ => none

def Sect.isData : Sect → Bool
  | .onTransportData .. => true
  | _ => false

theorem inbound_of_isData {k : Task} (h : k.sect.isData = true) : inbound k = true := by
  obtain ⟨o, s⟩ := k
  cases s <;> first | rfl | cases h

/-- The client answers the bytes of a delivery with the report of an overflow. -/
def Overflows (cfg : Config) (l : Label) (cfg' : Config) : Prop :=
  (l.front cfg).any (fun k => k.sect.isData) = true ∧
    (l.front cfg').any (fun k => k.sect == .callback (.error Conn.bufferOverflow)) = true

instance (cfg : Config) (l : Label) (cfg' : Config) : Decidable (Overflows cfg l cfg') :=
  inferInstanceAs (Decidable (_ ∧ _))

theorem not_overflows {cfg cfg' : Config} {l : Label}
    (h : ∀ k ∈ l.front cfg, inbound k = false) : ¬Overflows cfg l cfg' := by
  rintro ⟨hdata, -⟩
  obtain ⟨k, hk, hdata⟩ := (Option.any_eq_true _ _).mp hdata
  have hbeside := h k hk
  rw [inbound_of_isData hdata] at hbeside
  cases hbeside

def Event.packet : Event → Option MqttPacket
  | .received _ p => some p
  | _ => none

/-- The packets that were handled, in order. -/
def receivedIn (trace : List (Origin × Event)) : List MqttPacket :=
  trace.filterMap fun e => e.2.packet

theorem receivedIn_append (front back : List (Origin × Event)) :
    receivedIn (front ++ back) = receivedIn front ++ receivedIn back :=
  List.filterMap_append

theorem receivedIn_of_plain (trace : List (Origin × Event)) {es : List (Origin × Event)}
    (hes : ∀ e ∈ es, e.2.plain = true) : receivedIn (trace ++ es) = receivedIn trace := by
  have hnone : receivedIn es = [] := by
    rw [receivedIn, List.filterMap_eq_nil_iff]
    intro e he
    have hplain := hes e he
    obtain ⟨o, e⟩ := e
    cases e <;> first | rfl | cases hplain
  rw [receivedIn_append, hnone, List.append_nil]

theorem receivedIn_concat (trace : List (Origin × Event)) (o : Origin) (e : Event) :
    receivedIn (trace ++ [(o, e)]) = receivedIn trace ++ e.packet.toList := by
  rw [receivedIn_append]
  cases h : e.packet with
  | none => simp [receivedIn, h]
  | some p => simp [receivedIn, h]

/-- A step on a connection that nothing but an overflow ends. A delivery waits for the one before
it. -/
structure Undisturbed (cfg : Config) (l : Label) (cfg' : Config) : Prop where
  oneAtATime : bytesIn l ≠ none → Sections.Free inbound cfg
  noAttempt : cfg'.shared.attempts = cfg.shared.attempts
  noTeardown : ∀ k ∈ l.front cfg, ∀ b, k.sect ≠ .teardown b

/-- A step can be checked for being undisturbed. -/
instance Undisturbed.decidable (cfg : Config) (l : Label) (cfg' : Config) :
    Decidable (Undisturbed cfg l cfg') :=
  decidable_of_iff
    ((bytesIn l ≠ none → Sections.Free inbound cfg) ∧
      cfg'.shared.attempts = cfg.shared.attempts ∧
      ∀ k ∈ l.front cfg, ∀ b, k.sect ≠ .teardown b)
    ⟨fun ⟨hidle, hattempts, hteardown⟩ => ⟨hidle, hattempts, hteardown⟩,
      fun ⟨hidle, hattempts, hteardown⟩ => ⟨hidle, hattempts, hteardown⟩⟩

/-- Nothing of a packet has come in yet, and no delivery is under way. -/
structure Ready (cfg : Config) : Prop where
  nothingQueued : cfg.shared.client.rxBuffer = []
  idle : Sections.Free inbound cfg

/-- A run on which bytes of these packets come in. -/
structure Delivers (packets : List (MqttFixedHeader × Bytes)) (cfg : Config) (ls : List Label)
    (cfg' : Config) : Prop where
  ready : Ready cfg
  undisturbed : Runs.AlongUntil program.step Overflows Undisturbed cfg ls
  stream : Backlog.unitsIn bytesIn ls <+: encodePackets packets
  run : Runs.exec program.step cfg ls = some cfg'

/-- No arrival overflows, the packets are handled in order, and all of them when everything has
arrived and no delivery is under way. -/
structure HandlesAll (packets : List (MqttFixedHeader × Bytes)) (cfg : Config) (ls : List Label)
    (cfg' : Config) : Prop where
  goes : Runs.Along program.step (fun cfg l cfg' => ¬Overflows cfg l cfg') cfg ls
  handled : ∃ received,
    receivedIn cfg'.shared.trace = receivedIn cfg.shared.trace ++ received ∧
    received <+: packets.map arriving ∧
    (Backlog.unitsIn bytesIn ls = encodePackets packets → Sections.Free inbound cfg' →
      received = packets.map arriving)

/-- How long the packets are on the wire. -/
def wireSizes (packets : List (MqttFixedHeader × Bytes)) : List ℕ :=
  packets.map fun p => (encodePacket p.1 p.2).length

/-- Every arrival finds room in the receive buffer behind what is left of the ones before it. -/
def FitsBuffer (packets : List (MqttFixedHeader × Bytes)) (ls : List Label) : Prop :=
  Backlog.Fits kMaxBufferedBytes (wireSizes packets) 0 (Backlog.pieceSizes bytesIn ls)

/-! ## Sections beside a delivery -/

namespace Conn

variable {task : Task} {w w' v : Conn} {ks : List Task} {c : Choice}

/-- Bytes that the buffer has no room for. -/
theorem onTransportData_overflow {o : Origin} {t : ℕ} {data : Bytes}
    (h : kMaxBufferedBytes < (w.client.rxBuffer ++ data).length) :
    w.onTransportData o t data =
      (({ w.log o (.arrived t data) with client := { w.client with rxBuffer := [] } } : Conn).log o
        .overflowed, [.callback (.error bufferOverflow), .teardown false]) := by
  simp only [onTransportData, if_pos h]
  rfl

theorem filter_tasks {o : Origin} {sects : List Sect} (h : sects.any receiving = false) :
    (o.tasks sects).filter inbound = [] := by
  rw [List.filter_eq_nil_iff]
  intro k hk
  obtain ⟨s, hs, rfl⟩ := List.mem_map.mp hk
  exact List.any_eq_false.mp h s hs

theorem leaves_of_push {o : Origin} {sects : List Sect}
    (h : some (v, o.tasks sects) = some (w', ks)) (hsects : sects.any receiving = false) :
    ks.filter inbound = [] := by
  obtain ⟨-, rfl⟩ := Prod.mk.inj (Option.some.inj h)
  exact filter_tasks hsects

theorem leaves_of_clock {o : Origin} {ms : Int} {f : Conn → Conn} {sects : List Sect}
    (h : ((w.readClock ms).bind fun w => some (f w, o.tasks sects)) = some (w', ks))
    (hsects : sects.any receiving = false) : ks.filter inbound = [] := by
  obtain ⟨v, -, h⟩ := Option.bind_eq_some_iff.mp h
  exact leaves_of_push h hsects

theorem leaves_of_deliverWithin (hbeside : inbound task = false) (hc : ∀ t bytes, c ≠ .data t bytes)
    (h : w.deliverWithin task c = some (w', ks)) : ks.filter inbound = [] := by
  simp only [deliverWithin, Option.map_eq_some_iff, Prod.mk.injEq] at h
  obtain ⟨first, hfirst, -, rfl⟩ := h
  cases c with
  | data t bytes => exact absurd rfl (hc t bytes)
  | closed t =>
      simp only [delivery] at hfirst
      split at hfirst
      · obtain rfl := Option.some.inj hfirst
        rw [List.filter_cons_of_neg (by simp [inbound, receiving]),
          List.filter_cons_of_neg (by simp [hbeside]), List.filter_nil]
      · cases hfirst
  | go | now | answer | timeout | call => cases hfirst

theorem receiving_call (o : Origin) (c : Call) : (w.call o c).2.any receiving = false := by
  cases c with
  | connect | subscribe | unsubscribe =>
      simp only [call, connect, subscribe, unsubscribe]
      split <;> rfl
  | publish =>
      simp only [call, publish]
      split
      · rfl
      · split <;> rfl
  | setKeepAlive | setClientId | setCredentials | setWill | setTlsConfig | disconnect =>
      rfl

theorem receiving_packetSent (caller : SendCaller) (result : Result Unit) :
    (packetSent caller result).any receiving = false := by
  cases caller <;> cases result <;> rfl

theorem receiving_sent (caller : SendCaller) (result : Result ℕ) :
    (sent caller result).any receiving = false := by
  cases caller <;> cases result <;> rfl

theorem receiving_teardown (o : Origin) (b : Bool) :
    (w.teardown o b).2.any receiving = false := by
  cases ht : w.client.transport with
  | none => simp [teardown, ht, endTransport, receiving]
  | some t => cases b <;> simp [teardown, ht, endTransport, receiving]

/-- Handlers begin no delivery. -/
theorem receiving_handled (client : SoftwareMqttClient) (p : MqttPacket) :
    (handled client p).2.any receiving = false := by
  unfold handled
  split
  · rfl
  · simp only [handlePublish]
    split
    · rfl
    · split
      · rfl
      · split
        · rfl
        · split <;> rfl
  · simp only [handlePublishComplete]
    split <;> rfl
  · simp only [handlePublishComplete]
    split <;> rfl
  · simp only [handlePubrec]
    split <;> rfl
  · simp only [handlePubrel]
    split
    · rfl
    · rename_i packetId _
      cases lookup packetId client.pendingQos2 <;> rfl
  · simp only [handleSuback]
    split
    · rfl
    · split <;> rfl
  · simp only [handleUnsuback]
    split <;> rfl
  · rfl
  · rfl

/-- A section beside a delivery leaves none that has a part in one. -/
theorem exec_leaves (hbeside : inbound task = false) (hc : ∀ t bytes, c ≠ .data t bytes)
    (h : exec task c w = some (w', ks)) : ks.filter inbound = [] := by
  obtain ⟨o, s⟩ := task
  unfold exec at h
  dsimp only at h
  split at h
  -- calls and `Connect`
  · exact leaves_of_push h (receiving_call _ _)
  · rename_i result
    exact leaves_of_push h (by cases result <;> rfl)
  · split at h <;> exact leaves_of_push h rfl
  · exact leaves_of_deliverWithin hbeside hc h
  · exact leaves_of_push h rfl
  · split at h
    · refine leaves_of_push h ?_
      cases herror : w.client.connackError <;> simp [wake, herror, receiving]
    · cases h
  · split at h
    · cases h
    · exact leaves_of_push h rfl
  -- sending
  · refine leaves_of_push h ?_
    cases ht : w.client.transport <;> simp [sendPacket, ht, receiving]
  · exact leaves_of_push h rfl
  · exact leaves_of_push h (receiving_sent _ _)
  · exact leaves_of_deliverWithin hbeside hc h
  · exact leaves_of_clock h rfl
  · exact leaves_of_push h (receiving_packetSent _ _)
  · exact leaves_of_push h rfl
  -- receiving and ending
  · cases hbeside
  · cases hbeside
  · cases hbeside
  · exact leaves_of_push h (receiving_teardown _ _)
  · exact leaves_of_push h rfl
  · exact leaves_of_push h rfl
  · exact leaves_of_push h rfl
  · exact leaves_of_push h rfl
  · exact leaves_of_deliverWithin hbeside hc h
  -- the keep-alive task
  · refine leaves_of_push h ?_
    simp only [startKeepAlive]
    split <;> rfl
  · refine leaves_of_push h ?_
    split <;> rfl
  · obtain ⟨v, -, h⟩ := Option.bind_eq_some_iff.mp h
    exact leaves_of_push h rfl
  · exact leaves_of_push h rfl
  · obtain ⟨v, -, h⟩ := Option.bind_eq_some_iff.mp h
    exact leaves_of_push h rfl
  · refine leaves_of_push h ?_
    simp only [keepAliveBegin]
    split <;> rfl
  · refine leaves_of_push h ?_
    split <;> rfl
  · refine leaves_of_push h ?_
    split <;> rfl
  · exact leaves_of_clock h rfl
  · refine leaves_of_push h ?_
    simp only [keepAlivePing]
    split
    · rfl
    · split <;> rfl
  · refine leaves_of_push h ?_
    simp only [keepAliveIdle]
    split <;> rfl
  · exact leaves_of_push h rfl
  · exact leaves_of_push h rfl
  -- callbacks
  · exact leaves_of_push h rfl
  · exact leaves_of_push h rfl
  · obtain ⟨-, rfl⟩ := Prod.mk.inj (Option.some.inj h)
    rfl
  · exact leaves_of_push h rfl
  · cases h

/-- What a section beside a delivery leaves as it is. -/
structure StaysBeside (w w' : Conn) (ks : List Task) : Prop where
  rxBuffer : w'.client.rxBuffer = w.client.rxBuffer
  received : receivedIn w'.trace = receivedIn w.trace
  sections : ks.filter inbound = []

/-- Sections beside a delivery leave what was received alone, unless they begin an attempt or tear
the connection down. -/
theorem exec_beside (hbeside : inbound task = false) (hc : ∀ t bytes, c ≠ .data t bytes)
    (hattempts : w'.attempts = w.attempts) (hteardown : ∀ b, task.sect ≠ .teardown b)
    (h : exec task c w = some (w', ks)) : StaysBeside w w' ks := by
  have hsections := exec_leaves hbeside hc h
  have hnone : ∀ {o e}, Event.packet e = none →
      receivedIn (w.trace ++ [(o, e)]) = receivedIn w.trace := by
    intro o e he
    rw [receivedIn_concat, he, Option.toList_none, List.append_nil]
  have hother : ∀ {s}, task.sect = s → receiving s = true → StaysBeside w w' ks := by
    intro s hs hreceiving
    rw [inbound, hs, hreceiving] at hbeside
    cases hbeside
  cases exec_effect h with
  | quiet hplain hquiet _ =>
      obtain ⟨es, hes, htrace⟩ := hquiet.trace
      refine ⟨hquiet.session.rxBuffer, ?_, hsections⟩
      rw [htrace, receivedIn_of_plain _ hes]
  | begins =>
      simp only [log] at hattempts
      omega
  | stores t => exact ⟨rfl, hnone rfl, hsections⟩
  | forwards | drops => exact ⟨rfl, rfl, hsections⟩
  | sends | notifies => exact ⟨rfl, hnone rfl, hsections⟩
  | arrives hsect | overflows hsect | takes hsect | handles hsect => exact hother hsect rfl
  | tearsDown hsect => exact absurd hsect (hteardown _)

end Conn

/-! ## Where a run stands -/

section

variable (packets : List (MqttFixedHeader × Bytes)) (before : List MqttPacket)

/-- Where a run stands on which `arrived` has come in and nothing overflowed. -/
inductive Story (arrived : Bytes) (cfg : Config) : Prop
  | waiting (taken : List MqttPacket)
      (bytes : TakenSoFar packets arrived taken cfg.shared.client.rxBuffer)
      (dry : takePacket cfg.shared.client.rxBuffer = none) (idle : Sections.Free inbound cfg)
      (received : receivedIn cfg.shared.trace = before ++ taken)
  | delivering (taken : List MqttPacket) (i t : ℕ) (o : Origin) (data : Bytes)
      (bytes : TakenSoFar packets arrived taken (cfg.shared.client.rxBuffer ++ data))
      (fits : (cfg.shared.client.rxBuffer ++ data).length ≤ kMaxBufferedBytes)
      (owns : Sections.Owns inbound i [⟨o, .onTransportData t data⟩] cfg)
      (received : receivedIn cfg.shared.trace = before ++ taken)
  | taking (taken : List MqttPacket) (i : ℕ) (o : Origin)
      (bytes : TakenSoFar packets arrived taken cfg.shared.client.rxBuffer)
      (owns : Sections.Owns inbound i [⟨o, .takePackets⟩] cfg)
      (received : receivedIn cfg.shared.trace = before ++ taken)
  | handling (taken : List MqttPacket) (i number : ℕ) (o : Origin) (p : MqttPacket)
      (bytes : TakenSoFar packets arrived (taken ++ [p]) cfg.shared.client.rxBuffer)
      (owns : Sections.Owns inbound i [⟨o, .handlePacket number p⟩, ⟨o, .takePackets⟩] cfg)
      (received : receivedIn cfg.shared.trace = before ++ taken)

end

/-- Bytes are about to be received that the buffer has no room for. -/
def Doomed (cfg : Config) : Prop :=
  ∃ i t o data, Sections.Owns inbound i [⟨o, .onTransportData t data⟩] cfg ∧
    kMaxBufferedBytes < (cfg.shared.client.rxBuffer ++ data).length

section

variable {packets : List (MqttFixedHeader × Bytes)} {before : List MqttPacket} {arrived : Bytes}
  {cfg cfg' : Config} {l : Label}

/-- What is buffered between two deliveries is what has arrived of the next packet. -/
theorem remainder_rxBuffer {buffer : Bytes} {taken : List MqttPacket}
    (hpackets : ∀ p ∈ packets, Encodable p.1 p.2) (hstream : arrived <+: encodePackets packets)
    (h : TakenSoFar packets arrived taken buffer) (hdry : takePacket buffer = none) :
    Backlog.remainder (wireSizes packets) arrived.length = buffer.length := by
  obtain ⟨later, hlater⟩ := hstream
  obtain ⟨n, -, hbuffer, huntaken⟩ := h.untaken hlater
  apply Backlog.remainder_eq (m := n)
  · rw [← hbuffer, List.length_append, wireSizes, ← List.map_take, encodePackets,
      List.length_flatMap]
  · intro size hsize
    obtain ⟨p, hp, rfl⟩ : ∃ p, packets[n]? = some p ∧ (encodePacket p.1 p.2).length = size := by
      simpa [wireSizes] using hsize
    by_contra hge
    rw [Nat.not_lt] at hge
    have hdrop : packets.drop n = p :: packets.drop (n + 1) := by
      obtain ⟨hn, hp⟩ := List.getElem?_eq_some_iff.mp hp
      rw [← hp, List.drop_eq_getElem_cons hn]
    rw [hdrop, encodePackets_cons] at huntaken
    -- the packet would be complete and at the front of the buffer
    have hfront : buffer = encodePacket p.1 p.2 ++ buffer.drop (encodePacket p.1 p.2).length := by
      have htake := congrArg (List.take (encodePacket p.1 p.2).length) huntaken
      rw [List.take_append_of_le_length hge, List.take_left] at htake
      have hsplit := List.take_append_drop (encodePacket p.1 p.2).length buffer
      rw [htake] at hsplit
      exact hsplit.symm
    have hencodable := hpackets p (List.mem_of_getElem? hp)
    rw [hfront, takePacket_encodePacket hencodable] at hdry
    cases hdry

/-- Between two deliveries the buffer holds no packet. -/
theorem Story.waits (h : Story packets before arrived cfg) (hidle : Sections.Free inbound cfg) :
    ∃ taken, TakenSoFar packets arrived taken cfg.shared.client.rxBuffer ∧
      takePacket cfg.shared.client.rxBuffer = none ∧
      receivedIn cfg.shared.trace = before ++ taken := by
  cases h with
  | waiting taken bytes dry _ received => exact ⟨taken, bytes, dry, received⟩
  | delivering _ _ _ _ _ _ _ owns | taking _ _ _ _ owns | handling _ _ _ _ _ _ owns =>
      exact absurd hidle owns.not_free

/-- A section that is executed for a delivery takes it further. -/
theorem Story.own {i : ℕ} {k : Task} {rest ks : List Task} {c : Choice} {w' : Conn}
    (hpackets : ∀ p ∈ packets, Encodable p.1 p.2) (hstream : arrived <+: encodePackets packets)
    (hget : cfg.threads[i]? = some (k :: rest)) (hk : inbound k = true)
    (hexec : Conn.exec k c cfg.shared = some (w', ks)) (h : Story packets before arrived cfg) :
    Story packets before arrived ⟨w', cfg.threads.set i (ks ++ rest)⟩ ∧
      (k.sect.isData = true → ∃ o, ks = [⟨o, .takePackets⟩]) := by
  obtain ⟨later, hlater⟩ := hstream
  cases h with
  | waiting taken bytes dry idle received =>
      rw [(idle.front hget).1] at hk
      cases hk
  | delivering taken j t o data bytes fits owns received =>
      obtain ⟨rfl, howned⟩ := owns.front hget hk
      obtain ⟨rfl, -⟩ := List.cons.inj howned
      have howns := owns.own w' ks hget hk
      cases c with
      | go =>
          rw [Conn.exec_onTransportData] at hexec
          simp only [Conn.onTransportData, if_neg (Nat.not_lt.mpr fits)] at hexec
          obtain ⟨rfl, rfl⟩ := Prod.mk.inj (Option.some.inj hexec)
          refine ⟨.taking taken i o bytes howns ?_, fun _ => ⟨o, rfl⟩⟩
          dsimp only
          rw [Conn.log_trace, receivedIn_concat, received]
          exact List.append_nil _
      | now | answer | data | closed | timeout | call => cases hexec
  | taking taken j o bytes owns received =>
      obtain ⟨rfl, howned⟩ := owns.front hget hk
      obtain ⟨rfl, -⟩ := List.cons.inj howned
      have howns := owns.own w' ks hget hk
      refine ⟨?_, fun hdata => by cases hdata⟩
      cases c with
      | go =>
          cases htake : takePacket cfg.shared.client.rxBuffer with
          | none =>
              rw [Conn.exec_takePackets] at hexec
              simp only [Conn.takePackets, htake] at hexec
              obtain ⟨rfl, rfl⟩ := Prod.mk.inj (Option.some.inj hexec)
              exact .waiting taken bytes htake howns.free received
          | some q =>
              obtain ⟨p, left⟩ := q
              rw [Conn.exec_takePackets] at hexec
              simp only [Conn.takePackets, htake] at hexec
              obtain ⟨rfl, rfl⟩ := Prod.mk.inj (Option.some.inj hexec)
              refine .handling taken i cfg.shared.taken o p ?_ howns ?_
              · exact bytes.take hpackets hlater htake
              · dsimp only
                rw [Conn.log_trace, receivedIn_concat, received]
                exact List.append_nil _
      | now | answer | data | closed | timeout | call => cases hexec
  | handling taken j number o p bytes owns received =>
      obtain ⟨rfl, howned⟩ := owns.front hget hk
      obtain ⟨rfl, -⟩ := List.cons.inj howned
      have howns := owns.own w' ks hget hk
      refine ⟨?_, fun hdata => by cases hdata⟩
      cases c with
      | go =>
          obtain ⟨rfl, rfl⟩ := Prod.mk.inj (Option.some.inj hexec)
          rw [Conn.filter_tasks (Conn.receiving_handled _ _)] at howns
          refine .taking (taken ++ [p]) i o ?_ howns ?_
          · dsimp only
            rw [Conn.log_client, handled_rxBuffer]
            exact bytes
          · dsimp only
            rw [Conn.log_trace, receivedIn_concat, received, List.append_assoc]
            rfl
      | now | answer | data | closed | timeout | call => cases hexec

/-! ## Steps and runs -/

/-- The transport delivers out of a call into it. -/
theorem exec_data {k : Task} {t : ℕ} {data : Bytes} {w w' : Conn} {ks : List Task}
    (h : Conn.exec k (.data t data) w = some (w', ks)) :
    w' = w ∧ ks = [⟨.delivery t, .onTransportData t data⟩, k] := by
  have hwithin : ∀ {k : Task}, w.deliverWithin k (.data t data) = some (w', ks) →
      w' = w ∧ ks = [⟨.delivery t, .onTransportData t data⟩, k] := by
    intro k h
    simp only [Conn.deliverWithin, Conn.delivery] at h
    split at h
    · obtain ⟨rfl, rfl⟩ := Prod.mk.inj (Option.some.inj h)
      exact ⟨rfl, rfl⟩
    · cases h
  obtain ⟨o, s⟩ := k
  cases s with
  | transportConnect | sending | disconnecting => exact hwithin h
  | _ => cases h

/-- A step that brings bytes in leaves the client alone, and its thread receives them. -/
theorem delivers_of_bytesIn {data : Bytes} (hbytes : bytesIn l = some data)
    (hidle : Sections.Free inbound cfg) (hstep : program.step cfg l = some cfg') :
    cfg'.shared = cfg.shared ∧ ¬Overflows cfg l cfg' ∧
      ∃ i t o, Sections.Owns inbound i [⟨o, .onTransportData t data⟩] cfg' := by
  obtain ⟨e, w', q, rfl, hentry, rfl⟩ | ⟨j, c, k, rest, w', ks, rfl, hget, hexec, rfl⟩ :=
    Sections.Program.step_cases hstep
  · cases e with
    | data t bytes =>
        obtain rfl := Option.some.inj hbytes
        have hstart : cfg.shared = w' ∧ q = [⟨.delivery t, .onTransportData t bytes⟩] := by
          simp only [program, Conn.entry, Conn.delivery] at hentry
          split at hentry
          · obtain ⟨rfl, rfl⟩ := Prod.mk.inj (Option.some.inj hentry)
            exact ⟨rfl, rfl⟩
          · cases hentry
        obtain ⟨rfl, rfl⟩ := hstart
        have howns := hidle.owns_start cfg.shared [⟨.delivery t, .onTransportData t bytes⟩]
        exact ⟨rfl, not_overflows (by simp), _, t, .delivery t, howns⟩
    | call | closed | keepAlive => cases hbytes
  · cases c with
    | data t bytes =>
        obtain rfl := Option.some.inj hbytes
        obtain ⟨rfl, rfl⟩ := exec_data hexec
        have hk := (hidle.front hget).1
        refine ⟨rfl, not_overflows ?_, j, t, .delivery t, ?_⟩
        · rw [Sections.Label.front_run hget]
          rintro k' ⟨⟩
          exact hk
        · have howns := hidle.owns_run cfg.shared hget [⟨.delivery t, .onTransportData t bytes⟩, k]
          rw [List.filter_cons_of_pos rfl, List.filter_cons_of_neg (by simp [hk]),
            List.filter_nil] at howns
          exact howns
    | go | now | answer | closed | timeout | call => cases hbytes

/-- What a step beside a delivery keeps. -/
structure Beside (cfg cfg' : Config) : Prop where
  rxBuffer : cfg'.shared.client.rxBuffer = cfg.shared.client.rxBuffer
  received : receivedIn cfg'.shared.trace = receivedIn cfg.shared.trace
  free : Sections.Free inbound cfg → Sections.Free inbound cfg'
  owns : ∀ i owned, Sections.Owns inbound i owned cfg → Sections.Owns inbound i owned cfg'

theorem beside_start {e : Entry} {w' : Conn} {q : List Task} (hsilent : bytesIn (.start e) = none)
    (hentry : Conn.entry e cfg.shared = some (w', q)) : Beside cfg ⟨w', cfg.threads ++ [q]⟩ := by
  obtain ⟨hquiet, -⟩ := Conn.entry_quiet hentry
  obtain ⟨es, hes, htrace⟩ := hquiet.trace
  have hq : q.filter inbound = [] := by
    cases e with
    | call c =>
        obtain ⟨-, rfl⟩ := Prod.mk.inj (Option.some.inj hentry)
        rfl
    | data t bytes => cases hsilent
    | closed t =>
        simp only [Conn.entry, Conn.delivery] at hentry
        split at hentry
        · obtain ⟨-, rfl⟩ := Prod.mk.inj (Option.some.inj hentry)
          rfl
        · cases hentry
    | keepAlive =>
        simp only [Conn.entry] at hentry
        split at hentry
        · obtain ⟨-, rfl⟩ := Prod.mk.inj (Option.some.inj hentry)
          rfl
        · cases hentry
  refine ⟨hquiet.session.rxBuffer, ?_, fun h => h.start _ hq, fun _ _ h => h.start _ hq⟩
  dsimp only
  rw [htrace, receivedIn_of_plain _ hes]

/-- A step that brings nothing in is beside the delivery, or it is a section of it. -/
theorem silent_cases (hsilent : bytesIn l = none) (hok : Undisturbed cfg l cfg')
    (hstep : program.step cfg l = some cfg') :
    (Beside cfg cfg' ∧ ¬Overflows cfg l cfg') ∨
      ∃ i c k rest w' ks, l = .run i c ∧ cfg.threads[i]? = some (k :: rest) ∧ inbound k = true ∧
        Conn.exec k c cfg.shared = some (w', ks) ∧ cfg' = ⟨w', cfg.threads.set i (ks ++ rest)⟩ := by
  obtain ⟨e, w', q, rfl, hentry, rfl⟩ | ⟨j, c, k, rest, w', ks, rfl, hget, hexec, rfl⟩ :=
    Sections.Program.step_cases hstep
  · exact .inl ⟨beside_start hsilent hentry, not_overflows (by simp)⟩
  · cases hk : inbound k with
    | true => exact .inr ⟨j, c, k, rest, w', ks, rfl, hget, hk, hexec, rfl⟩
    | false =>
        left
        have hfront : (Sections.Label.run j c : Label).front cfg = some k :=
          Sections.Label.front_run hget c
        have hc : ∀ t bytes, c ≠ .data t bytes := by
          rintro t bytes rfl
          cases hsilent
        have hbeside := Conn.exec_beside hk hc hok.noAttempt (hok.noTeardown k hfront) hexec
        refine ⟨⟨hbeside.rxBuffer, hbeside.received, fun h => h.run _ hget hbeside.sections,
          fun _ _ h => h.other _ hget hk hbeside.sections⟩, not_overflows ?_⟩
        rw [hfront]
        rintro k' ⟨⟩
        exact hk

/-- What happens beside a delivery changes nothing about it. -/
theorem Story.beside (h : Story packets before arrived cfg) (hb : Beside cfg cfg') :
    Story packets before arrived cfg' := by
  obtain ⟨hbuffer, hreceived, hfree, howns⟩ := hb
  cases h with
  | waiting taken bytes dry idle received =>
      rw [← hbuffer] at bytes dry
      exact .waiting taken bytes dry (hfree idle) (hreceived.trans received)
  | delivering taken i t o data bytes fits owns received =>
      rw [← hbuffer] at bytes fits
      exact .delivering taken i t o data bytes fits (howns _ _ owns) (hreceived.trans received)
  | taking taken i o bytes owns received =>
      rw [← hbuffer] at bytes
      exact .taking taken i o bytes (howns _ _ owns) (hreceived.trans received)
  | handling taken i number o p bytes owns received =>
      rw [← hbuffer] at bytes
      exact .handling taken i number o p bytes (howns _ _ owns) (hreceived.trans received)

theorem Story.silent (hpackets : ∀ p ∈ packets, Encodable p.1 p.2)
    (hstream : arrived <+: encodePackets packets) (h : Story packets before arrived cfg)
    (hsilent : bytesIn l = none) (hok : Undisturbed cfg l cfg')
    (hstep : program.step cfg l = some cfg') :
    Story packets before arrived cfg' ∧ ¬Overflows cfg l cfg' := by
  obtain ⟨hbeside, hgoes⟩ | ⟨i, c, k, rest, w', ks, rfl, hget, hk, hexec, rfl⟩ :=
    silent_cases hsilent hok hstep
  · exact ⟨h.beside hbeside, hgoes⟩
  · obtain ⟨hnext, hdata⟩ := h.own hpackets hstream hget hk hexec
    refine ⟨hnext, ?_⟩
    rintro ⟨hfirst, hreport⟩
    rw [Sections.Label.front_run hget, Option.any_some] at hfirst
    obtain ⟨o, rfl⟩ := hdata hfirst
    have hi : i < cfg.threads.length := (List.getElem?_eq_some_iff.mp hget).1
    have hbehind : (⟨w', cfg.threads.set i ([⟨o, .takePackets⟩] ++ rest)⟩ : Config).threads[i]? =
        some (⟨o, .takePackets⟩ :: rest) := List.getElem?_set_self hi
    rw [Sections.Label.front_run hbehind] at hreport
    cases hreport

/-- A delivery that there is no room for stays until the client reports it. -/
theorem Doomed.step (h : Doomed cfg) (hok : Undisturbed cfg l cfg')
    (hstep : program.step cfg l = some cfg') (hgoes : ¬Overflows cfg l cfg') : Doomed cfg' := by
  obtain ⟨i, t, o, data, owns, htooLong⟩ := h
  have hsilent : bytesIn l = none := by
    by_contra hbytes
    exact owns.not_free (hok.oneAtATime hbytes)
  obtain ⟨hbeside, -⟩ | ⟨j, c, k, rest, w', ks, rfl, hget, hk, hexec, rfl⟩ :=
    silent_cases hsilent hok hstep
  · exact ⟨i, t, o, data, hbeside.owns _ _ owns, by rw [hbeside.rxBuffer]; exact htooLong⟩
  · obtain ⟨rfl, howned⟩ := owns.front hget hk
    obtain ⟨rfl, -⟩ := List.cons.inj howned
    exfalso
    apply hgoes
    have hj : j < cfg.threads.length := (List.getElem?_eq_some_iff.mp hget).1
    cases c with
    | go =>
        rw [Conn.exec_onTransportData, Conn.onTransportData_overflow htooLong] at hexec
        obtain ⟨rfl, rfl⟩ := Prod.mk.inj (Option.some.inj hexec)
        constructor
        · rw [Sections.Label.front_run hget]
          rfl
        · simp [Sections.Label.front, List.getElem?_set_self hj, Origin.tasks]
    | now | answer | data | closed | timeout | call => cases hexec

/-- The client is a receiver with a limit. -/
theorem limited (hpackets : ∀ p ∈ packets, Encodable p.1 p.2) :
    Backlog.Limited program.step Overflows Undisturbed bytesIn (encodePackets packets)
      kMaxBufferedBytes (wireSizes packets) (Story packets before) Doomed where
  silent h hstream hbytes hok hstep := h.silent hpackets hstream hbytes hok hstep
  fits := by
    intro arrived cfg l cfg' data h hstream hbytes hroom hok hstep
    have hidle := hok.oneAtATime (by simp [hbytes])
    obtain ⟨taken, bytes, hdry, hreceived⟩ := h.waits hidle
    obtain ⟨hshared, hgoes, i, t, o, howns⟩ := delivers_of_bytesIn hbytes hidle hstep
    have hfront : arrived <+: encodePackets packets := (List.prefix_append _ _).trans hstream
    rw [remainder_rxBuffer hpackets hfront bytes hdry, ← List.length_append] at hroom
    rw [← hshared] at bytes hroom hreceived
    exact ⟨.delivering taken i t o data (bytes.arrive data) hroom howns hreceived, hgoes⟩
  exceeds := by
    intro arrived cfg l cfg' data h hstream hbytes htooLong hok hstep
    have hidle := hok.oneAtATime (by simp [hbytes])
    obtain ⟨taken, bytes, hdry, -⟩ := h.waits hidle
    obtain ⟨hshared, -, i, t, o, howns⟩ := delivers_of_bytesIn hbytes hidle hstep
    have hfront : arrived <+: encodePackets packets := (List.prefix_append _ _).trans hstream
    rw [remainder_rxBuffer hpackets hfront bytes hdry, ← List.length_append] at htooLong
    rw [← hshared] at htooLong
    exact ⟨i, t, o, data, howns, htooLong⟩
  doomed h hok hstep hgoes := h.step hok hstep hgoes

/-- The packets of a story that are handled are the first ones, and all of them at its end. -/
theorem Story.handled (hpackets : ∀ p ∈ packets, Encodable p.1 p.2)
    (h : Story packets before arrived cfg) :
    ∃ received, receivedIn cfg.shared.trace = before ++ received ∧
      received <+: packets.map arriving ∧
      (arrived = encodePackets packets → Sections.Free inbound cfg →
        received = packets.map arriving) := by
  have hfront : ∀ {taken : List MqttPacket} {buffer : Bytes},
      TakenSoFar packets arrived taken buffer → taken <+: packets.map arriving := by
    rintro taken buffer ⟨n, rfl, -⟩
    exact (List.take_prefix n packets).map _
  cases h with
  | waiting taken bytes dry _ received =>
      refine ⟨taken, received, hfront bytes, ?_⟩
      rintro rfl -
      exact (bytes.all hpackets dry).1
  | delivering taken _ _ _ _ bytes _ owns received =>
      exact ⟨taken, received, hfront bytes, fun _ hidle => absurd hidle owns.not_free⟩
  | taking taken _ _ bytes owns received =>
      exact ⟨taken, received, hfront bytes, fun _ hidle => absurd hidle owns.not_free⟩
  | handling taken _ _ _ _ bytes owns received =>
      exact ⟨taken, received, (List.prefix_append _ _).trans (hfront bytes),
        fun _ hidle => absurd hidle owns.not_free⟩

/-- Packets that come in are all handled exactly if every arrival fits. -/
theorem handlesAll_iff_fits {ls : List Label} (hpackets : ∀ p ∈ packets, Encodable p.1 p.2)
    (h : Delivers packets cfg ls cfg') :
    (FitsBuffer packets ls → HandlesAll packets cfg ls cfg') ∧
      (Sections.Free inbound cfg' → HandlesAll packets cfg ls cfg' → FitsBuffer packets ls) := by
  have hstart : Story packets (receivedIn cfg.shared.trace) [] cfg := by
    refine .waiting [] ⟨0, rfl, ?_⟩ ?_ h.ready.idle (List.append_nil _).symm
    · rw [h.ready.nothingQueued]
      rfl
    · rw [h.ready.nothingQueued]
      rfl
  constructor
  · intro hfits
    obtain ⟨hgoes, hend⟩ := (limited hpackets).run_fits hstart h.undisturbed h.stream hfits h.run
    exact ⟨hgoes, hend.handled hpackets⟩
  · intro hidle hall
    obtain hfits | hdoomed := (limited hpackets).run_goes hstart h.undisturbed h.stream hall.goes h.run
    · exact hfits
    · obtain ⟨i, t, o, data, owns, -⟩ := hdoomed
      exact absurd hidle owns.not_free

end

/-! ## An arrival that is too long -/

/-- A connected client on transport 0. -/
def readyConfig : Config :=
  ⟨{ client := { transport := some 0, connected := true }, transports := [0] }, []⟩

theorem ready_readyConfig : Ready readyConfig := ⟨rfl, by simp [Sections.Free, readyConfig]⟩

theorem unitsIn_arrival (data : Bytes) :
    Backlog.unitsIn bytesIn [.start (.data 0 data), .run 0 .go] = data := List.append_nil data

/-- Whatever it holds, an arrival beyond the limit overflows. -/
theorem overflows_arrival {data : Bytes} (hlong : kMaxBufferedBytes < data.length) :
    ∃ cfg', Runs.exec program.step readyConfig [.start (.data 0 data), .run 0 .go] = some cfg' ∧
      Runs.AlongUntil program.step Overflows Undisturbed readyConfig
        [.start (.data 0 data), .run 0 .go] ∧
      ¬Runs.Along program.step (fun cfg l cfg' => ¬Overflows cfg l cfg') readyConfig
        [.start (.data 0 data), .run 0 .go] := by
  have hstart : program.step readyConfig (.start (.data 0 data)) =
      some ⟨readyConfig.shared, [[⟨.delivery 0, .onTransportData 0 data⟩]]⟩ := rfl
  obtain ⟨w', hrun, hattempts⟩ : ∃ w', program.step
      ⟨readyConfig.shared, [[⟨.delivery 0, .onTransportData 0 data⟩]]⟩ (.run 0 .go) =
        some ⟨w', [[⟨.delivery 0, .callback (.error Conn.bufferOverflow)⟩,
          ⟨.delivery 0, .teardown false⟩]]⟩ ∧ w'.attempts = 0 := by
    have hbuffer : kMaxBufferedBytes < (readyConfig.shared.client.rxBuffer ++ data).length := hlong
    rw [Sections.Program.step, List.getElem?_cons_zero]
    simp only [program, Conn.exec_onTransportData, Conn.onTransportData_overflow hbuffer]
    exact ⟨_, rfl, rfl⟩
  refine ⟨_, by rw [Runs.exec_cons, hstart, Option.bind_some, Runs.exec_cons, hrun]; rfl, ?_, ?_⟩
  · intro mid hmid
    obtain rfl := Option.some.inj (hstart.symm.trans hmid)
    refine ⟨⟨fun _ => ready_readyConfig.idle, rfl, by simp⟩, fun _ last hlast => ?_⟩
    obtain rfl := Option.some.inj (hrun.symm.trans hlast)
    refine ⟨⟨by simp [bytesIn], hattempts, ?_⟩, fun _ => trivial⟩
    rintro k ⟨⟩ b
    simp
  · intro h
    apply ((h _ hstart).2 _ hrun).1
    exact ⟨rfl, by simp [Sections.Label.front]⟩

theorem length_le_encodePacket (header : MqttFixedHeader) (body : Bytes) :
    body.length ≤ (encodePacket header body).length := by
  simp only [encodePacket, frame, List.cons_append, List.length_cons, List.length_append]
  omega

end EspModemLink.Mqtt
