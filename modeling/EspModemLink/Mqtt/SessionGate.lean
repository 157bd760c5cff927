import EspModemLink.Mqtt.ClientSteps
import EspModemLink.Mqtt.PacketStream

/-!
# What the MQTT client reacts to

No handler asks whether the session is open. Reactions stay behind an accepting CONNACK as long as
the broker sends nothing to react to ahead of one, and the transport delivers nothing of a
connection that has ended.
-/

namespace EspModemLink.Mqtt

open Bytes Http

/-! ## Sessions -/

/-- A handler of the packet acknowledges something or calls the application. -/
def reacts (p : MqttPacket) : Bool :=
  match p.header.type with
  | .kPublish => (parsePublish p.header p.body).isSome
  | .kPuback | .kPubcomp | .kPubrec | .kPubrel => (parsePacketId p.body).isSome
  | _ => false

def isConnack (p : MqttPacket) : Bool := p.header.type == .kConnack

/-- An accepting CONNACK. -/
def accepts (p : MqttPacket) : Bool := (parseConnack p.body).any fun c => c.code == .kAccepted

/-- The first CONNACK among the packets is there and accepts. -/
def accepted (packets : List MqttPacket) : Bool := (packets.find? isConnack).any accepts

/-- Whatever there is to react to comes behind an accepting CONNACK. -/
def Gated (packets : List MqttPacket) : Prop :=
  ∀ i, (h : i < packets.length) → reacts packets[i] = true → accepted (packets.take i) = true

instance (packets : List MqttPacket) : Decidable (Gated packets) :=
  inferInstanceAs (Decidable (∀ i, (h : i < packets.length) → _))

/-- The attempt that began last, unless it was torn down or overflowed, with the bytes that have
arrived in it and the packets that were taken. -/
structure Session where
  live : Option ℕ := none
  stream : Bytes := []
  packets : List MqttPacket := []

def Session.after (s : Session) : Event → Session
  | .began t => { live := some t }
  | .tornDown | .overflowed => {}
  | .arrived _ data => { s with stream := s.stream ++ data }
  | .taken p => { s with packets := s.packets ++ [p] }
  | _ => s

def sessionOf (trace : List (Origin × Event)) : Session :=
  trace.foldl (fun s e => s.after e.2) {}

@[simp] theorem sessionOf_snoc (trace : List (Origin × Event)) (e : Origin × Event) :
    sessionOf (trace ++ [e]) = (sessionOf trace).after e.2 := by
  simp [sessionOf]

def Event.isTaken : Event → Bool
  | .taken _ => true
  | _ => false

/-- How many packets were taken. -/
def takenCount (trace : List (Origin × Event)) : ℕ := trace.countP fun e => e.2.isTaken

@[simp] theorem takenCount_snoc (trace : List (Origin × Event)) (e : Origin × Event) :
    takenCount (trace ++ [e]) = takenCount trace + if e.2.isTaken then 1 else 0 := by
  simp [takenCount]

/-- The packet with number `n` of all that were taken is `p`. It was taken in a connection that had
not ended, behind the CONNACK that accepted it. -/
def TakenInSession (trace : List (Origin × Event)) (n : ℕ) (p : MqttPacket) : Prop :=
  ∃ before o later, trace = before ++ (o, .taken p) :: later ∧ takenCount before = n ∧
    (sessionOf before).live ≠ none ∧ accepted (sessionOf before).packets = true

/-- Every reaction is one to a packet of an accepted session. -/
def SessionGated (trace : List (Origin × Event)) : Prop :=
  ∀ o e, (o, e) ∈ trace → e.reaction = true →
    ∃ k n p, o = .packet k ∧ (.packet k, .received n p) ∈ trace ∧ TakenInSession trace n p

/-- The bytes that a step appends to the receive buffer, with the transport they are from. -/
def arrival (cfg : Config) : Label → Option (ℕ × Bytes)
  | .run i .go =>
      match cfg.threads[i]? with
      | some (⟨_, .onTransportData t data⟩ :: _) => some (t, data)
      | _ => none
  | _ => none

/-- Bytes arrive from the transport of the attempt that began last and has not ended, and what has
arrived in it has nothing to react to ahead of an accepting CONNACK. -/
def ArrivesGated (cfg : Config) (l : Label) : Prop :=
  ∀ a ∈ arrival cfg l, (sessionOf cfg.shared.trace).live = some a.1 ∧
    Gated (packetsOf ((sessionOf cfg.shared.trace).stream ++ a.2))

instance (cfg : Config) (l : Label) : Decidable (ArrivesGated cfg l) :=
  inferInstanceAs (Decidable (∀ a ∈ arrival cfg l, _))

/-! ## Reading the trace -/

theorem Session.after_of_plain {e : Event} (he : e.plain = true) (s : Session) : s.after e = s := by
  cases e <;> first | rfl | cases he

theorem Event.isTaken_of_plain {e : Event} (he : e.plain = true) : e.isTaken = false := by
  cases e <;> first | rfl | cases he

theorem sessionOf_of_plain (trace : List (Origin × Event)) {es : List (Origin × Event)}
    (hes : ∀ e ∈ es, e.2.plain = true) : sessionOf (trace ++ es) = sessionOf trace := by
  induction es using List.reverseRecOn with
  | nil => simp
  | append_singleton es e ih =>
      rw [← List.append_assoc, sessionOf_snoc, Session.after_of_plain (hes e (by simp)),
        ih fun e' he' => hes e' (List.mem_append_left _ he')]

theorem takenCount_of_plain (trace : List (Origin × Event)) {es : List (Origin × Event)}
    (hes : ∀ e ∈ es, e.2.plain = true) : takenCount (trace ++ es) = takenCount trace := by
  have hzero : es.countP (fun e => e.2.isTaken) = 0 := by
    rw [List.countP_eq_zero]
    intro e he
    simp [Event.isTaken_of_plain (hes e he)]
  simp only [takenCount, List.countP_append, hzero, Nat.add_zero]

theorem TakenInSession.append {trace : List (Origin × Event)} {n : ℕ} {p : MqttPacket}
    (h : TakenInSession trace n p) (es : List (Origin × Event)) :
    TakenInSession (trace ++ es) n p := by
  obtain ⟨before, o, later, rfl, hcount, hlive, haccepted⟩ := h
  exact ⟨before, o, later ++ es, by simp, hcount, hlive, haccepted⟩

/-- A reaction of `o` is one to a packet that was taken in an accepted session. -/
def ReactsInSession (trace : List (Origin × Event)) (o : Origin) : Prop :=
  ∃ k n p, o = .packet k ∧ (.packet k, .received n p) ∈ trace ∧ TakenInSession trace n p

theorem ReactsInSession.append {trace : List (Origin × Event)} {o : Origin}
    (h : ReactsInSession trace o) (es : List (Origin × Event)) :
    ReactsInSession (trace ++ es) o := by
  obtain ⟨k, n, p, ho, hreceived, htaken⟩ := h
  exact ⟨k, n, p, ho, List.mem_append_left _ hreceived, htaken.append es⟩

/-- Events that are no reactions, or are reactions in session, keep the trace gated. -/
theorem SessionGated.append {trace es : List (Origin × Event)} (h : SessionGated trace)
    (hes : ∀ e ∈ es, e.2.reaction = true → ReactsInSession trace e.1) :
    SessionGated (trace ++ es) := by
  intro o e he hreaction
  obtain he | he := List.mem_append.mp he
  · exact ReactsInSession.append (h o e he hreaction) es
  · exact ReactsInSession.append (hes (o, e) he hreaction) es

/-! ## The invariant -/

/-- What the connection keeps: the packets taken and the receive buffer are what the bytes of the
session were cut into, and those bytes are gated. -/
structure GateInv (w : Conn) : Prop where
  framing : packetReader.drain [] (sessionOf w.trace).stream =
    packetReader.drain (sessionOf w.trace).packets w.client.rxBuffer
  gated : Gated (packetsOf (sessionOf w.trace).stream)
  dead : (sessionOf w.trace).live = none → w.client.rxBuffer = []
  taken : w.taken = takenCount w.trace
  trace : SessionGated w.trace

/-- What a thread still has to do about packets: those that it is to handle and would react to were
taken in session, and so were those that it still reacts to. -/
def GateAssert (q : List Task) (w : Conn) : Prop :=
  ∀ task ∈ q,
    (∀ n p, task.sect = .handlePacket n p → reacts p = true → TakenInSession w.trace n p) ∧
      (task.sect.reaction = true → ReactsInSession w.trace task.origin)

theorem gateAssert_of_plain {q : List Task} (h : ∀ k ∈ q, k.sect.plain = true) (w : Conn) :
    GateAssert q w := by
  intro task htask
  have hplain := h task htask
  constructor
  · intro n p hsect
    rw [hsect] at hplain
    cases hplain
  · intro hreaction
    rw [Sect.reaction_of_plain hplain] at hreaction
    cases hreaction

theorem GateAssert.append {p q : List Task} {w : Conn} (hp : GateAssert p w) (hq : GateAssert q w) :
    GateAssert (p ++ q) w := by
  intro task htask
  obtain h | h := List.mem_append.mp htask
  · exact hp task h
  · exact hq task h

/-- Whatever else happens, the assertion of a thread stays. -/
theorem GateAssert.mono {q : List Task} {w w' : Conn} (h : GateAssert q w)
    (htrace : ∃ es, w'.trace = w.trace ++ es) : GateAssert q w' := by
  obtain ⟨es, htrace⟩ := htrace
  intro task htask
  obtain ⟨htaken, hreaction⟩ := h task htask
  rw [htrace]
  constructor
  · intro n p hsect hreacts
    exact (htaken n p hsect hreacts).append es
  · intro hr
    exact (hreaction hr).append es

/-- A handler only reacts to packets that there is a reaction to. -/
theorem handled_sections (c : SoftwareMqttClient) (p : MqttPacket) :
    ∀ s ∈ (Conn.handled c p).2, s.plain = true ∨ s.reaction = true ∧ reacts p = true := by
  intro s hs
  unfold Conn.handled at hs
  split at hs
  · simp at hs
  · rename_i htype
    unfold Conn.handlePublish at hs
    split at hs
    · left
      simp only [List.mem_cons, List.not_mem_nil, or_false] at hs
      obtain rfl | rfl := hs <;> rfl
    · split at hs
      · left
        rw [List.mem_singleton.mp hs]
        rfl
      · rename_i message hparse
        right
        refine ⟨?_, by simp [reacts, htype, hparse]⟩
        split at hs
        · rw [List.mem_singleton.mp hs]
          rfl
        · split at hs
          · simp only [List.mem_cons, List.not_mem_nil, or_false] at hs
            obtain rfl | rfl := hs <;> rfl
          · rw [List.mem_singleton.mp hs]
            rfl
  · rename_i htype
    simp only [Conn.handlePublishComplete] at hs
    split at hs
    · exact .inl (by rw [List.mem_singleton.mp hs]; rfl)
    · rename_i hparse
      exact .inr ⟨by rw [List.mem_singleton.mp hs]; rfl, by simp [reacts, htype, hparse]⟩
  · rename_i htype
    simp only [Conn.handlePublishComplete] at hs
    split at hs
    · exact .inl (by rw [List.mem_singleton.mp hs]; rfl)
    · rename_i hparse
      exact .inr ⟨by rw [List.mem_singleton.mp hs]; rfl, by simp [reacts, htype, hparse]⟩
  · rename_i htype
    simp only [Conn.handlePubrec] at hs
    split at hs
    · exact .inl (by rw [List.mem_singleton.mp hs]; rfl)
    · rename_i hparse
      exact .inr ⟨by rw [List.mem_singleton.mp hs]; rfl, by simp [reacts, htype, hparse]⟩
  · rename_i htype
    simp only [Conn.handlePubrel] at hs
    split at hs
    · exact .inl (by rw [List.mem_singleton.mp hs]; rfl)
    · rename_i packetId hparse
      refine .inr ⟨?_, by simp [reacts, htype, hparse]⟩
      obtain rfl | hs := List.mem_cons.mp hs
      · rfl
      · obtain ⟨m, -, rfl⟩ := Option.map_eq_some_iff.mp (Option.mem_toList.mp hs)
        rfl
  · simp only [Conn.handleSuback] at hs
    split at hs
    · exact .inl (by rw [List.mem_singleton.mp hs]; rfl)
    · split at hs
      · exact .inl (by rw [List.mem_singleton.mp hs]; rfl)
      · simp at hs
  · simp only [Conn.handleUnsuback] at hs
    split at hs
    · exact .inl (by rw [List.mem_singleton.mp hs]; rfl)
    · simp at hs
  · simp at hs
  · simp at hs

/-- The handlers leave the receive buffer alone. -/
theorem handled_rxBuffer (c : SoftwareMqttClient) (p : MqttPacket) :
    (Conn.handled c p).1.rxBuffer = c.rxBuffer := by
  unfold Conn.handled
  split
  · unfold Conn.handleConnack
    split
    · rfl
    · split
      · rfl
      · split <;> rfl
  · unfold Conn.handlePublish
    split
    · rfl
    · split
      · rfl
      · split
        · rfl
        · split <;> rfl
  · rfl
  · rfl
  · rfl
  · unfold Conn.handlePubrel
    split <;> rfl
  · unfold Conn.handleSuback
    split <;> rfl
  · unfold Conn.handleUnsuback
    split <;> rfl
  · rfl
  · rfl

/-! ## What sections keep -/

/-- An event that is not about the session leaves what is kept of it. -/
theorem GateInv.of_neutral {w w' : Conn} (h : GateInv w) {es : List (Origin × Event)}
    (htrace : w'.trace = w.trace ++ es) (hsession : sessionOf w'.trace = sessionOf w.trace)
    (hcount : takenCount w'.trace = takenCount w.trace) (htaken : w'.taken = w.taken)
    (hbuffer : w'.client.rxBuffer = w.client.rxBuffer)
    (hreactions : ∀ e ∈ es, e.2.reaction = true → ReactsInSession w.trace e.1) : GateInv w' where
  framing := by rw [hsession, hbuffer]; exact h.framing
  gated := by rw [hsession]; exact h.gated
  dead := by rw [hsession, hbuffer]; exact h.dead
  taken := by rw [htaken, hcount]; exact h.taken
  trace := by rw [htrace]; exact h.trace.append hreactions

/-- A session that begins or ends holds nothing. -/
theorem GateInv.of_reset {w w' : Conn} (h : GateInv w) {es : List (Origin × Event)}
    (htrace : w'.trace = w.trace ++ es) (hstream : (sessionOf w'.trace).stream = [])
    (hpackets : (sessionOf w'.trace).packets = [])
    (hcount : takenCount w'.trace = takenCount w.trace) (htaken : w'.taken = w.taken)
    (hbuffer : w'.client.rxBuffer = []) (hreactions : ∀ e ∈ es, e.2.reaction = false) :
    GateInv w' where
  framing := by rw [hstream, hpackets, hbuffer]
  gated := by
    rw [hstream]
    intro i hi
    simp [packetsOf] at hi
  dead := fun _ => hbuffer
  taken := by rw [htaken, hcount]; exact h.taken
  trace := by
    rw [htrace]
    apply h.trace.append
    intro e he hr
    rw [hreactions e he] at hr
    cases hr

/-- Bytes that arrive gated keep the framing. -/
theorem GateInv.arrives {w : Conn} (h : GateInv w) {o : Origin} {t : ℕ} {data : Bytes}
    (hlive : (sessionOf w.trace).live = some t)
    (hgated : Gated (packetsOf ((sessionOf w.trace).stream ++ data))) :
    GateInv { w.log o (.arrived t data) with
      client := { w.client with rxBuffer := w.client.rxBuffer ++ data } } := by
  have hsession : sessionOf (w.trace ++ [(o, .arrived t data)]) =
      { sessionOf w.trace with stream := (sessionOf w.trace).stream ++ data } :=
    sessionOf_snoc _ _
  have append : ∀ s b, packetReader.drain s (b ++ data) =
      packetReader.drain (packetReader.drain s b).1 ((packetReader.drain s b).2 ++ data) :=
    fun s b => (Cutting.Reader.drain_append packetReader_resumes s b data fun _ _ => trivial).1
  refine ⟨?_, ?_, ?_, ?_, ?_⟩
  · simp only [Conn.log_trace, hsession]
    rw [append, h.framing, ← append]
  · simp only [Conn.log_trace, hsession]
    exact hgated
  · simp only [Conn.log_trace, hsession, hlive]
    intro hdead
    cases hdead
  · simp only [Conn.log_trace, takenCount_snoc, Event.isTaken]
    exact h.taken
  · refine SessionGated.append h.trace ?_
    intro e he hr
    rw [List.mem_singleton.mp he] at hr
    cases hr

/-- The packet that is taken next is the next one of the stream. -/
theorem GateInv.takes {w : Conn} (h : GateInv w) {o : Origin} {p : MqttPacket} {rest : Bytes}
    (htake : takePacket w.client.rxBuffer = some (p, rest)) :
    GateInv (({ w with client := { w.client with rxBuffer := rest }, taken := w.taken + 1 } :
        Conn).log o (.taken p)) ∧
      (reacts p = true → TakenInSession (w.trace ++ [(o, .taken p)]) w.taken p) := by
  have hsession : sessionOf (w.trace ++ [(o, .taken p)]) =
      { sessionOf w.trace with packets := (sessionOf w.trace).packets ++ [p] } :=
    sessionOf_snoc _ _
  have hlive : (sessionOf w.trace).live ≠ none := by
    intro hdead
    rw [h.dead hdead] at htake
    cases htake
  have hdrain : packetReader.drain [] (sessionOf w.trace).stream =
      packetReader.drain ((sessionOf w.trace).packets ++ [p]) rest := by
    rw [h.framing, drain_of_takePacket htake]
  constructor
  · refine ⟨?_, ?_, ?_, ?_, ?_⟩
    · simp only [Conn.log_trace, hsession]
      exact hdrain
    · simp only [Conn.log_trace, hsession]
      exact h.gated
    · simp only [Conn.log_trace, hsession]
      intro hdead
      exact absurd hdead hlive
    · simp only [Conn.log_taken, Conn.log_trace, takenCount_snoc, Event.isTaken, if_true, h.taken]
    · refine SessionGated.append h.trace ?_
      intro e he hr
      rw [List.mem_singleton.mp he] at hr
      cases hr
  · intro hreacts
    refine ⟨w.trace, o, [], rfl, h.taken.symm, hlive, ?_⟩
    obtain ⟨more, hmore⟩ := prefix_drain ((sessionOf w.trace).packets ++ [p]) rest
    have hpackets : packetsOf (sessionOf w.trace).stream =
        (sessionOf w.trace).packets ++ (p :: more) := by
      rw [packetsOf, hdrain, ← hmore, List.append_assoc]
      rfl
    have hgated := h.gated
    rw [hpackets] at hgated
    have := hgated (sessionOf w.trace).packets.length (by simp) (by simpa using hreacts)
    simpa using this

/-- A single event that is not about the session. -/
theorem GateInv.logged {w w' : Conn} (h : GateInv w) {o : Origin} {e : Event}
    (htrace : w'.trace = w.trace ++ [(o, e)]) (hafter : ∀ s : Session, s.after e = s)
    (htakenEvent : e.isTaken = false) (htaken : w'.taken = w.taken)
    (hbuffer : w'.client.rxBuffer = w.client.rxBuffer)
    (hreaction : e.reaction = true → ReactsInSession w.trace o) : GateInv w' := by
  apply h.of_neutral htrace
  · rw [htrace, sessionOf_snoc, hafter]
  · rw [htrace, takenCount_snoc, htakenEvent]
    rfl
  · exact htaken
  · exact hbuffer
  · intro x hx hr
    rw [List.mem_singleton.mp hx] at hr ⊢
    exact hreaction hr

/-- What every section keeps. -/
theorem Effect.gate {task : Task} {w w' : Conn} {ks : List Task} (h : Conn.Effect task w w' ks)
    (hinv : GateInv w) (hassert : GateAssert [task] w)
    (hok : ∀ t data, task.sect = .onTransportData t data →
      (sessionOf w.trace).live = some t ∧ Gated (packetsOf ((sessionOf w.trace).stream ++ data))) :
    GateInv w' ∧ GateAssert ks w' := by
  obtain ⟨htaken, hreaction⟩ := hassert task (List.mem_singleton_self _)
  have hext := h.trace
  cases h with
  | quiet hplain hq hks =>
      obtain ⟨es, hes, htrace⟩ := hq.trace
      refine ⟨?_, gateAssert_of_plain hks _⟩
      apply hinv.of_neutral htrace
      · rw [htrace, sessionOf_of_plain _ hes]
      · rw [htrace, takenCount_of_plain _ hes]
      · exact hq.taken
      · exact hq.session.rxBuffer
      · intro e he hr
        rw [Event.reaction_of_plain (hes e he)] at hr
        cases hr
  | begins hplain hks =>
      refine ⟨hinv.of_reset rfl ?_ ?_ ?_ rfl rfl ?_, gateAssert_of_plain hks _⟩
      · simp [Session.after]
      · simp [Session.after]
      · simp [Event.isTaken]
      · simp [Event.reaction]
  | stores t hplain hks =>
      refine ⟨hinv.logged rfl (fun _ => rfl) rfl rfl rfl ?_, gateAssert_of_plain hks _⟩
      intro hr
      cases hr
  | forwards hsect ht =>
      refine ⟨hinv, ?_⟩
      intro k hk
      rw [List.mem_singleton.mp hk]
      exact ⟨fun _ _ hs => (by cases hs), fun _ => hreaction (by rw [hsect]; rfl)⟩
  | drops hsect ht hks => exact ⟨hinv, gateAssert_of_plain hks _⟩
  | sends hsect hks =>
      refine ⟨hinv.logged rfl (fun _ => rfl) rfl rfl rfl ?_, gateAssert_of_plain hks _⟩
      intro _
      exact hreaction (by rw [hsect]; rfl)
  | notifies hsect hr hks =>
      refine ⟨hinv.logged rfl (fun _ => rfl) rfl rfl rfl ?_, gateAssert_of_plain hks _⟩
      intro _
      exact hreaction hr
  | arrives hsect hks =>
      obtain ⟨hlive, hgated⟩ := hok _ _ hsect
      exact ⟨hinv.arrives hlive hgated, gateAssert_of_plain hks _⟩
  | overflows hsect hks =>
      have hsession : ∀ x y t data, sessionOf (w.trace ++ [(x, .arrived t data)] ++
          [(y, .overflowed)]) = {} := by
        intro x y t data
        rw [sessionOf_snoc]
        rfl
      have hcount : ∀ x y t data, takenCount (w.trace ++ [(x, .arrived t data)] ++
          [(y, .overflowed)]) = takenCount w.trace := by
        intro x y t data
        rw [takenCount_snoc, takenCount_snoc]
        rfl
      refine ⟨hinv.of_reset (List.append_assoc _ _ _) (congrArg Session.stream (hsession _ _ _ _))
        (congrArg Session.packets (hsession _ _ _ _)) (hcount _ _ _ _) rfl rfl ?_,
        gateAssert_of_plain hks _⟩
      simp [Event.reaction]
  | takes hsect htake =>
      obtain ⟨hinv', hnew⟩ := hinv.takes (o := task.origin) htake
      refine ⟨hinv', ?_⟩
      intro k hk
      simp only [Origin.tasks, List.map_cons, List.map_nil, List.mem_cons, List.not_mem_nil,
        or_false] at hk
      obtain rfl | rfl := hk
      · refine ⟨?_, fun hr => by cases hr⟩
        intro n p hs hreacts
        obtain ⟨rfl, rfl⟩ := Sect.handlePacket.inj hs
        exact hnew hreacts
      · exact ⟨fun _ _ hs => (by cases hs), fun hr => (by cases hr)⟩
  | @handles number packet hsect =>
      have hinv' : GateInv (w.handlePacket number packet).1 := by
        refine hinv.logged rfl (fun _ => rfl) rfl rfl (handled_rxBuffer _ _) ?_
        intro hr
        cases hr
      refine ⟨hinv', ?_⟩
      intro k hk
      obtain ⟨s, hs, rfl⟩ := List.mem_map.mp hk
      obtain hplain | ⟨hr, hreacts⟩ := handled_sections _ _ s hs
      · exact gateAssert_of_plain (q := [⟨.packet w.received, s⟩])
          (fun k hk => by rw [List.mem_singleton.mp hk]; exact hplain) _ _
          (List.mem_singleton_self _)
      · constructor
        · intro n p hsect'
          simp only at hsect'
          rw [hsect'] at hr
          cases hr
        · intro _
          refine ⟨w.received, number, packet, rfl, ?_, ?_⟩
          · exact List.mem_append_right _ (List.mem_singleton_self _)
          · exact (htaken number packet hsect hreacts).append _
  | tearsDown hsect hks =>
      refine ⟨hinv.of_reset rfl ?_ ?_ ?_ rfl rfl ?_, gateAssert_of_plain hks _⟩
      · simp [Session.after]
      · simp [Session.after]
      · simp [Event.isTaken]
      · simp [Event.reaction]

/-- The sections respect the gate on the steps that append gated bytes. -/
theorem respects_gate : Sections.Respects program ArrivesGated GateInv GateAssert where
  start := by
    intro cfg e w' q _ ho hentry
    obtain ⟨hq, hplain⟩ := Conn.entry_quiet hentry
    obtain ⟨es, hes, htrace⟩ := hq.trace
    refine ⟨?_, gateAssert_of_plain hplain _, ?_⟩
    · apply ho.shared.of_neutral htrace
      · rw [htrace, sessionOf_of_plain _ hes]
      · rw [htrace, takenCount_of_plain _ hes]
      · exact hq.taken
      · exact hq.session.rxBuffer
      · intro x hx hr
        rw [Event.reaction_of_plain (hes x hx)] at hr
        cases hr
    · intro p hp
      exact (ho.thread p hp).mono ⟨es, htrace⟩
  own := by
    intro cfg i c task ks w' ks' hok hget ho hexec
    have heffect := Conn.exec_effect hexec
    have hthread := ho.thread _ (List.mem_of_getElem? hget)
    have htask : GateAssert [task] cfg.shared := fun k hk =>
      hthread k (by rw [List.mem_singleton.mp hk]; exact List.mem_cons_self ..)
    have hrest : GateAssert ks cfg.shared := fun k hk => hthread k (List.mem_cons_of_mem _ hk)
    obtain ⟨hinv, hnew⟩ := Effect.gate heffect ho.shared htask (by
      intro t data hsect
      apply hok (t, data)
      cases c with
      | go =>
          obtain ⟨o, s⟩ := task
          simp only at hsect
          subst hsect
          simp [arrival, hget]
      | now | answer | data | closed | timeout | call =>
          obtain ⟨o, s⟩ := task
          simp only at hsect
          subst hsect
          cases hexec)
    exact ⟨hinv, hnew.append (hrest.mono heffect.trace)⟩
  others := by
    intro cfg i c task ks w' ks' j q _ _ ho hexec _ hj
    exact (ho.thread q (List.mem_of_getElem? hj)).mono (Conn.exec_effect hexec).trace

/-- Over every run in which only gated bytes arrive, every reaction is one to a packet that was
taken behind the accepting CONNACK of its connection and before its teardown. -/
theorem run_sessionGated {ls : List Label} {cfg : Config}
    (hgated : Runs.Along program.step (fun cfg l _ => ArrivesGated cfg l) initial ls)
    (hrun : Runs.exec program.step initial ls = some cfg) : SessionGated cfg.shared.trace := by
  have hstart : Sections.Outline GateInv GateAssert initial := by
    refine ⟨⟨rfl, ?_, fun _ => rfl, rfl, ?_⟩, ?_⟩
    · intro i hi
      simp [packetsOf, sessionOf, initial] at hi
    · intro o e he
      simp [initial] at he
    · intro q hq
      simp [initial] at hq
  exact (respects_gate.run hstart hgated hrun).shared.trace

/-! ## A message ahead of the CONNACK -/

/-- `Connect` on a fresh client up to the call of the transport's `Send`. -/
def connectLabels : List Label :=
  [.start (.call (.connect [104] 1883 true)), .run 0 .go, .run 0 (.answer (.ok 0)),
    .run 0 (.answer (.ok 0)), .run 0 .go, .run 0 .go, .run 0 .go]

/-- An accepting CONNACK. -/
def acceptingConnack : Bytes := frame .kConnack 0 [0, 0]

/-- A QoS 0 PUBLISH of "m" under the topic "t". -/
def examplePublish : Bytes := encodePublish 0 [116] [109] 0 false

/-- The first delivery of a transport, up to its first callback and behind it. -/
def deliverLabels (data : Bytes) : List Label :=
  [.start (.data 0 data), .run 1 .go, .run 1 .go, .run 1 .go, .run 1 .go, .run 1 .go, .run 1 .go]

/-- The accepting CONNACK and the PUBLISH arrive in one piece. -/
theorem run_sessionGated_accepted :
    ∃ cfg, Runs.exec program.step initial
        (connectLabels ++ deliverLabels (acceptingConnack ++ examplePublish)) = some cfg ∧
      cfg.shared.trace.any (fun e => e.2.reaction) = true ∧ SessionGated cfg.shared.trace := by
  have hrun : (Runs.exec program.step initial
      (connectLabels ++ deliverLabels (acceptingConnack ++ examplePublish))).map
      (fun cfg => cfg.shared.trace.any fun e => e.2.reaction) = some true := by decide +kernel
  obtain ⟨cfg, hcfg, hreaction⟩ := Option.map_eq_some_iff.mp hrun
  exact ⟨cfg, hcfg, hreaction, run_sessionGated (by decide +kernel) hcfg⟩

/-- A session that was accepted took a CONNACK. -/
theorem taken_connack_of_accepted {trace : List (Origin × Event)}
    (h : accepted (sessionOf trace).packets = true) :
    ∃ o p, (o, Event.taken p) ∈ trace ∧ isConnack p = true := by
  have hmem : ∀ p ∈ (sessionOf trace).packets, ∃ o, (o, Event.taken p) ∈ trace := by
    clear h
    induction trace using List.reverseRecOn with
    | nil => simp [sessionOf]
    | append_singleton trace e ih =>
        obtain ⟨o, e⟩ := e
        rw [sessionOf_snoc]
        intro p hp
        have hold : p ∈ (sessionOf trace).packets →
            ∃ o', (o', Event.taken p) ∈ trace ++ [(o, e)] := by
          intro hp
          obtain ⟨o', ho'⟩ := ih p hp
          exact ⟨o', List.mem_append_left _ ho'⟩
        cases e with
        | taken q =>
            obtain hp | hp := List.mem_append.mp hp
            · exact hold hp
            · obtain rfl := List.mem_singleton.mp hp
              exact ⟨o, List.mem_append_right _ (List.mem_singleton_self _)⟩
        | began | tornDown | overflowed => simp [Session.after] at hp
        | arrived | called | created | connecting | stored | sending | sent | received
        | disconnected | callback | returned => exact hold hp
  unfold accepted at h
  obtain ⟨p, hp, -⟩ := (Option.any_eq_true _ _).mp h
  obtain ⟨o, ho⟩ := hmem p (List.mem_of_find?_eq_some hp)
  exact ⟨o, p, ho, List.find?_some hp⟩

/-- A message can be delivered before any CONNACK has arrived. -/
theorem message_without_connack :
    ¬ ∀ cfg, Runs.Reachable program.step initial cfg → SessionGated cfg.shared.trace := by
  intro h
  have hrun : (Runs.exec program.step initial
      (connectLabels ++ deliverLabels examplePublish)).map
      (fun cfg => (cfg.shared.trace.any (fun e => e.2.reaction),
        cfg.shared.trace.all fun e => match e.2 with
          | .taken p => !isConnack p
          | _ => true)) = some (true, true) := by decide +kernel
  obtain ⟨cfg, hcfg, hevents⟩ := Option.map_eq_some_iff.mp hrun
  obtain ⟨hreaction, hnone⟩ := Prod.mk.inj hevents
  obtain ⟨⟨o, e⟩, hmem, he⟩ := List.any_eq_true.mp hreaction
  obtain ⟨k, n, p, -, -, before, o', later, htrace, -, -, haccepted⟩ := h cfg ⟨_, hcfg⟩ o e hmem he
  obtain ⟨o'', q, hq, hconnack⟩ := taken_connack_of_accepted haccepted
  have := List.all_eq_true.mp hnone (o'', .taken q) (by rw [htrace]; exact List.mem_append_left _ hq)
  simp [hconnack] at this

end EspModemLink.Mqtt
