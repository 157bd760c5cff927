import EspModemLink.Library.Pieces
import EspModemLink.Mqtt.ClientSteps

/-!
# Packets that a transport cuts short

What the transports accept of the packets that the MQTT client hands to them. `SendPacket` looks at
whether `Send` succeeded and not at how much it accepted.
-/

namespace EspModemLink.Mqtt

open Bytes Http Pieces

/-! ## What the transports accept -/

/-- The packets that the client encodes. -/
inductive IsPacket : Bytes → Prop
  | connect (options : MqttConnectOptions) : IsPacket (encodeConnect options)
  | publish (packetId : ℕ) (topic payload : Bytes) (qos : ℕ) (retain : Bool) :
      IsPacket (encodePublish packetId topic payload qos retain)
  | subscribe (packetId : ℕ) (topic : Bytes) (qos : ℕ) :
      IsPacket (encodeSubscribe packetId topic qos)
  | unsubscribe (packetId : ℕ) (topic : Bytes) : IsPacket (encodeUnsubscribe packetId topic)
  | ack (type : MqttPacketType) (packetId : ℕ) : IsPacket (encodePacketIdAck type packetId)
  | pingreq : IsPacket encodePingreq
  | disconnect : IsPacket encodeDisconnect

/-- What transport `t` accepts in an event. -/
def pieceOf (t : ℕ) : Event → Option (Piece UInt8)
  | .sent t' packet _ (.ok n) => if t' = t ∧ 0 < n then some ⟨packet, n⟩ else none
  | _ => none

/-- What transport `t` has accepted. -/
def pieces (t : ℕ) (trace : List (Origin × Event)) : List (Piece UInt8) :=
  trace.filterMap fun e => pieceOf t e.2

@[simp] theorem pieces_concat (t : ℕ) (trace : List (Origin × Event)) (o : Origin) (e : Event) :
    pieces t (trace ++ [(o, e)]) = pieces t trace ++ (pieceOf t e).toList := by
  cases h : pieceOf t e <;> simp [pieces, h]

/-- The stream of a connection holds whole packets, and behind them one at most that was cut
short. -/
structure Intact (t : ℕ) (trace : List (Origin × Event)) : Prop where
  packets : ∀ p ∈ pieces t trace, IsPacket p.unit
  framed : Framed (pieces t trace)
  bytes : ∃ part : Bytes,
    stream (pieces t trace) = ((pieces t trace).dropLast.map Piece.unit).flatten ++ part ∧
      (part = [] ∨ ∃ p ∈ pieces t trace, part = p.bytes)

/-! ## Operations whose packet was not accepted -/

/-- The operation whose packet the step leaves unaccepted, or accepted in part. -/
def unaccepted (cfg : Config) : Label → Option (Sections.Operation Task)
  | .run i (.answer result) =>
      match cfg.threads[i]?, result with
      | some (⟨_, .sending _ packet _⟩ :: ks), .ok n =>
          if n = packet.length then none else some ⟨i, ks⟩
      | some (⟨_, .sending ..⟩ :: ks), .error _ => some ⟨i, ks⟩
      | _, _ => none
  | _ => none

/-- The client with the operations under way whose packet was not wholly accepted. -/
def sendingStep : Runs.Step (List (Sections.Operation Task) × Config) Label :=
  Runs.monitored program.step fun ops cfg l cfg' =>
    (ops ++ (unaccepted cfg l).toList).filter fun op => op.isOpen cfg'

/-- One of these operations is about to return without an error. -/
def ReportsSuccess (s : List (Sections.Operation Task) × Config) : Prop :=
  ∃ op ∈ s.1, ∃ o x, s.2.threads[op.thread]? = some (⟨o, .returned (.ok x)⟩ :: op.beneath)

/-- A `Send` that succeeds, and how many bytes it accepts. -/
structure Acceptance where
  transport : ℕ
  packet : Bytes
  caller : SendCaller
  accepted : ℕ

/-- The `Send` that a step answers without an error. -/
def answered (cfg : Config) : Label → Option Acceptance
  | .run i (.answer (.ok n)) =>
      match cfg.threads[i]? with
      | some (⟨_, .sending t packet caller⟩ :: _) => some ⟨t, packet, caller, n⟩
      | _ => none
  | _ => none

/-- A `Send` accepts no more than it is given. -/
def AcceptsAtMost (cfg : Config) (l : Label) : Prop :=
  ∀ r ∈ answered cfg l, r.accepted ≤ r.packet.length

instance (cfg : Config) (l : Label) : Decidable (AcceptsAtMost cfg l) :=
  inferInstanceAs (Decidable (∀ r ∈ answered cfg l, _))

/-- A `Send` on the transport. -/
def sendsOn (t : ℕ) (task : Task) : ℕ :=
  match task.sect with
  | .transportSend t' .. | .sending t' .. => if t' = t then 1 else 0
  | _ => 0

/-- A `Send` that succeeds accepts the whole packet. The DISCONNECT of `Teardown` may be cut short
if no other thread is in a `Send` on its transport. -/
def AcceptsWhole (cfg : Config) (l : Label) : Prop :=
  ∀ r ∈ answered cfg l, r.accepted = r.packet.length ∨
    r.caller = .goodbye ∧ Sections.load (sendsOn r.transport) cfg = 1

instance (cfg : Config) (l : Label) : Decidable (AcceptsWhole cfg l) :=
  inferInstanceAs (Decidable (∀ r ∈ answered cfg l, _ ∨ _))

/-! ## What a section does about sending -/

/-- A sender whose caller reports the result. -/
def SendCaller.reports : SendCaller → Bool
  | .connect | .publish _ | .subscribe _ | .unsubscribe _ => true
  | .handler | .keepAlive .. | .goodbye => false

/-- A section that does not lead to a return without an error. -/
def Sect.fails : Sect → Bool
  | .call _ | .create .. | .transportConnect .. | .store .. | .await => false
  | .sendPacket _ caller | .transportSend _ _ caller | .sending _ _ caller => !caller.reports
  | .packetSent caller (.ok ()) => !caller.reports
  | .returned (.ok _) => false
  | _ => true

/-- A section of `Connect` ahead of `transport_ = t`, or the DISCONNECT of a `Teardown` that took
`t`. -/
def tied (t : ℕ) (task : Task) : ℕ :=
  match task.sect with
  | .create t' .. | .transportConnect t' .. | .store t' _ | .transportSend t' _ .goodbye
  | .sending t' _ .goodbye => if t' = t then 1 else 0
  | _ => 0

/-- `transport_` is `t`. -/
def holds (t : ℕ) (w : Conn) : ℕ := if w.client.transport = some t then 1 else 0

/-- What a section hands over is a packet, and only `Teardown` says goodbye. -/
def Sect.Sound : Sect → Prop
  | .sendPacket packet caller => IsPacket packet ∧ caller ≠ .goodbye
  | .transportSend _ packet _ | .sending _ packet _ => IsPacket packet
  | _ => True

/-- A section that has no transport of its own to send on. -/
def Sect.Landed : Sect → Prop
  | .create .. | .transportConnect .. | .store .. | .transportSend .. | .sending .. => False
  | s => s.Sound

/-- What transport `t` accepts in a section. -/
def pieceAt (t : ℕ) (task : Task) (c : Choice) : Option (Piece UInt8) :=
  match task.sect, c with
  | .sending t' packet _, .answer (.ok n) => if t' = t ∧ 0 < n then some ⟨packet, n⟩ else none
  | _, _ => none

variable {i : ℕ} {task : Task} {c : Choice} {w w' : Conn} {ks : List Task}

/-- What a section does about sending: to the transports that are tied up or held, to the sections
it leaves, and to what the transports have accepted. -/
structure Wires (task : Task) (c : Choice) (w w' : Conn) (ks : List Task) : Prop where
  attempts : w.attempts ≤ w'.attempts
  tied : ∀ t, Sections.weight (tied t) ks + holds t w' ≤
    tied t task + holds t w + if w.attempts ≤ t ∧ t < w'.attempts then 1 else 0
  sends : ∀ t, Sections.weight (sendsOn t) ks ≤ sendsOn t task + holds t w
  sound : task.sect.Sound → ∀ k ∈ ks, k.sect.Sound
  trace : ∀ t, pieces t w'.trace = pieces t w.trace ++ (pieceAt t task c).toList
  fails : task.sect.fails = true → ∀ last ∈ ks.getLast?, last.sect.fails = true

theorem Sect.Landed.sound {s : Sect} (h : s.Landed) : s.Sound := by
  cases s <;> first | exact h | exact h.elim

theorem tied_of_landed {t : ℕ} (h : task.sect.Landed) : tied t task = 0 := by
  obtain ⟨o, s⟩ := task
  cases s <;> first | rfl | exact h.elim

theorem sendsOn_of_landed {t : ℕ} (h : task.sect.Landed) : sendsOn t task = 0 := by
  obtain ⟨o, s⟩ := task
  cases s <;> first | rfl | exact h.elim

/-- A section that hands nothing over and does not lead to a return without an error. -/
def Sect.quits : Sect → Bool
  | .call _ | .create .. | .transportConnect .. | .store .. | .await | .sendPacket ..
  | .transportSend .. | .sending .. | .packetSent .. | .returned (.ok _) => false
  | _ => true

theorem landed_of_quits {s : Sect} (h : s.quits = true) : s.Landed ∧ s.fails = true := by
  cases s with
  | returned result =>
      cases result with
      | error e => exact ⟨trivial, rfl⟩
      | ok x => cases h
  | call | create | transportConnect | store | await | sendPacket | transportSend | sending
  | packetSent => cases h
  | _ => exact ⟨trivial, rfl⟩

theorem landed_all {sects : List Sect} (h : sects.all Sect.quits = true) :
    ∀ s ∈ sects, s.Landed ∧ s.fails = true :=
  fun s hs => landed_of_quits (List.all_eq_true.mp h s hs)

/-- Neither the transport nor what the transports have accepted changes. -/
structure Silent (w w' : Conn) : Prop where
  attempts : w'.attempts = w.attempts
  transport : w'.client.transport = w.client.transport
  pieces : ∀ t, pieces t w'.trace = pieces t w.trace

theorem Silent.of_eq (hattempts : w'.attempts = w.attempts)
    (htransport : w'.client.transport = w.client.transport) (htrace : w'.trace = w.trace) :
    Silent w w' := ⟨hattempts, htransport, fun _ => by rw [htrace]⟩

theorem Silent.log (h : Silent w w') (o : Origin) {e : Event} (he : ∀ t, pieceOf t e = none) :
    Silent w (w'.log o e) := by
  refine ⟨h.attempts, h.transport, fun t => ?_⟩
  rw [Conn.log_trace, pieces_concat, he t, h.pieces t]
  exact List.append_nil _

theorem silent_onTransportData (o : Origin) (t : ℕ) (data : Bytes) :
    Silent w (w.onTransportData o t data).1 := by
  have harrived : Silent w (w.log o (.arrived t data)) := .log (.of_eq rfl rfl rfl) o fun _ => rfl
  simp only [Conn.onTransportData]
  split
  · apply Silent.log _ o (fun _ => rfl)
    exact ⟨harrived.attempts, harrived.transport, harrived.pieces⟩
  · exact ⟨harrived.attempts, harrived.transport, harrived.pieces⟩

theorem silent_takePackets (o : Origin) : Silent w (w.takePackets o).1 := by
  simp only [Conn.takePackets]
  split
  · exact .of_eq rfl rfl rfl
  · apply Silent.log _ o (fun _ => rfl)
    exact .of_eq rfl rfl rfl

theorem Silent.holds (h : Silent w w') (t : ℕ) : holds t w' = holds t w := by
  rw [Mqtt.holds, h.transport, Mqtt.holds]

/-- A silent section that leaves nothing that has a transport of its own. -/
theorem Wires.landed (h : Silent w w') (hpiece : ∀ t, pieceAt t task c = none)
    (hks : ∀ k ∈ ks, k.sect.Landed ∧ (task.sect.fails = true → k.sect.fails = true)) :
    Wires task c w w' ks := by
  refine ⟨Nat.le_of_eq h.attempts.symm, ?_, ?_, ?_, ?_, ?_⟩
  · intro t
    rw [Sections.weight_eq_zero fun k hk => tied_of_landed (hks k hk).1, h.holds t]
    omega
  · intro t
    rw [Sections.weight_eq_zero fun k hk => sendsOn_of_landed (hks k hk).1]
    omega
  · intro _ k hk
    exact (hks k hk).1.sound
  · intro t
    rw [hpiece t, h.pieces t]
    exact (List.append_nil _).symm
  · intro hfails last hlast
    exact (hks last (List.mem_of_getLast? hlast)).2 hfails

/-- Of these sections none has a transport of its own, and none leads to a return without an error
unless `k` does. -/
def Sect.Lands (k : Sect) (sects : List Sect) : Prop :=
  ∀ s ∈ sects, s.Landed ∧ (k.fails = true → s.fails = true)

@[simp] theorem lands_nil {k : Sect} : k.Lands [] := List.forall_mem_nil _

@[simp] theorem lands_cons {k s : Sect} {sects : List Sect} :
    k.Lands (s :: sects) ↔ (s.Landed ∧ (k.fails = true → s.fails = true)) ∧ k.Lands sects :=
  List.forall_mem_cons

/-- The same for a section that leaves its own. -/
theorem Wires.of_push {v : Conn} {sects : List Sect}
    (h : some (v, task.origin.tasks sects) = some (w', ks)) (hsilent : Silent w v)
    (hpiece : ∀ t, pieceAt t task c = none) (hsects : task.sect.Lands sects) :
    Wires task c w w' ks := by
  obtain ⟨rfl, rfl⟩ := Prod.mk.inj (Option.some.inj h)
  apply Wires.landed hsilent hpiece
  intro k hk
  obtain ⟨s, hs, rfl⟩ := List.mem_map.mp hk
  exact hsects s hs

/-- The same for a section that leaves nothing to hand over and no success to return. -/
theorem Wires.of_quits {v : Conn} {sects : List Sect}
    (h : some (v, task.origin.tasks sects) = some (w', ks)) (hsilent : Silent w v)
    (hpiece : ∀ t, pieceAt t task c = none) (hsects : sects.all Sect.quits = true) :
    Wires task c w w' ks := by
  apply Wires.of_push h hsilent hpiece
  intro s hs
  obtain ⟨hlanded, hfails⟩ := landed_all hsects s hs
  exact ⟨hlanded, fun _ => hfails⟩

/-- The same for a section that reads the clock. -/
theorem Wires.of_clock {ms : Int} {f : Conn → Conn} {sects : List Sect}
    (h : ((w.readClock ms).bind fun w => some (f w, task.origin.tasks sects)) = some (w', ks))
    (hf : ∀ w, Silent w (f w)) (hpiece : ∀ t, pieceAt t task c = none)
    (hsects : sects.all Sect.quits = true) : Wires task c w w' ks := by
  obtain ⟨v, hclock, h⟩ := Option.bind_eq_some_iff.mp h
  simp only [Conn.readClock] at hclock
  split at hclock
  · obtain rfl := Option.some.inj hclock
    have hv := hf { w with clock := ms }
    exact .of_quits h ⟨hv.attempts, hv.transport, hv.pieces⟩ hpiece hsects
  · cases hclock

theorem landed_delivery {first : Task} (h : w.delivery c = some first) :
    first.sect.Landed ∧ ∀ t, pieceAt t task c = none := by
  cases c with
  | data | closed =>
      simp only [Conn.delivery] at h
      split at h
      · obtain rfl := Option.some.inj h
        refine ⟨trivial, fun t => ?_⟩
        unfold pieceAt
        split <;> first | rfl | contradiction
      · cases h
  | go | now | answer | timeout | call => cases h

/-- A delivery comes in front of the section that is under way. -/
theorem Wires.of_deliverWithin (h : w.deliverWithin task c = some (w', ks)) :
    Wires task c w w' ks := by
  simp only [Conn.deliverWithin, Option.map_eq_some_iff, Prod.mk.injEq] at h
  obtain ⟨first, hfirst, rfl, rfl⟩ := h
  obtain ⟨hlanded, hpiece⟩ : first.sect.Landed ∧ ∀ t, pieceAt t task c = none :=
    landed_delivery hfirst
  refine ⟨Nat.le_refl _, ?_, ?_, ?_, ?_, ?_⟩
  · intro t
    simp [tied_of_landed hlanded]
  · intro t
    simp [sendsOn_of_landed hlanded]
  · intro hsound k hk
    obtain rfl | rfl : k = first ∨ k = task := by simpa using hk
    · exact hlanded.sound
    · exact hsound
  · intro t
    rw [hpiece t]
    exact (List.append_nil _).symm
  · intro hfails last hlast
    obtain rfl : task = last := by simpa using hlast
    exact hfails

/-! ### The sections that send -/

/-- A call that fails at once, or that has one packet to send. -/
theorem landed_request {packet : Bytes} {caller : SendCaller} (hpacket : IsPacket packet)
    (hcaller : caller ≠ .goodbye) : ∀ s ∈ [Sect.sendPacket packet caller], s.Landed :=
  List.forall_mem_singleton.mpr ⟨hpacket, hcaller⟩

theorem silent_call (o : Origin) {cl : Call} (h : ∀ host port clean, cl ≠ .connect host port clean) :
    Silent w (w.call o cl).1 ∧ ∀ s ∈ (w.call o cl).2, s.Landed := by
  have hrefused : ∀ e : NetworkError, ∀ s ∈ [Sect.returned (.error e)], s.Landed :=
    fun e => List.forall_mem_singleton.mpr trivial
  cases cl with
  | connect host port cleanSession => exact absurd rfl (h host port cleanSession)
  | publish =>
      simp only [Conn.call, Conn.publish]
      split
      · exact ⟨.of_eq rfl rfl rfl, hrefused _⟩
      · split <;> exact ⟨.of_eq rfl rfl rfl, landed_request (.publish ..) (by rintro ⟨⟩)⟩
  | subscribe =>
      simp only [Conn.call, Conn.subscribe]
      split
      · exact ⟨.of_eq rfl rfl rfl, hrefused _⟩
      · exact ⟨.of_eq rfl rfl rfl, landed_request (.subscribe ..) (by rintro ⟨⟩)⟩
  | unsubscribe =>
      simp only [Conn.call, Conn.unsubscribe]
      split
      · exact ⟨.of_eq rfl rfl rfl, hrefused _⟩
      · exact ⟨.of_eq rfl rfl rfl, landed_request (.unsubscribe ..) (by rintro ⟨⟩)⟩
  | setKeepAlive | setClientId | setCredentials | setWill | setTlsConfig | disconnect =>
      exact ⟨.of_eq rfl rfl rfl, fun s hs => (landed_all rfl s hs).1⟩

/-- `Connect` ties up the transport of its attempt, which is a new one. -/
theorem wires_connect {o : Origin} {host : Bytes} {port : ℕ} {cleanSession : Bool}
    (h : some ((w.connect o host port cleanSession).1,
      o.tasks (w.connect o host port cleanSession).2) = some (w', ks)) :
    Wires ⟨o, .call (.connect host port cleanSession)⟩ .go w w' ks := by
  simp only [Conn.connect] at h
  split at h
  · exact .of_push h (.of_eq rfl rfl rfl) (fun _ => rfl)
      (by simp [Sect.Landed, Sect.Sound, Sect.fails])
  · obtain ⟨rfl, rfl⟩ := Prod.mk.inj (Option.some.inj h)
    refine ⟨Nat.le_succ _, ?_, ?_, ?_, ?_, ?_⟩
    · intro t
      have hheld : holds t (({ w with
          client := Conn.beginAttempt w.client, attempts := w.attempts + 1 } : Conn).log o
            (.began w.attempts)) = holds t w := rfl
      simp only [hheld]
      by_cases ht : w.attempts = t
      · simp [Origin.tasks, tied, ← ht, Conn.log]
        omega
      · simp [Origin.tasks, tied, ht]
    · intro t
      simp [Origin.tasks, sendsOn]
    · simp [Origin.tasks, Sect.Sound]
    · intro t
      simp [pieceOf, pieceAt]
    · simp [Sect.fails]

/-- A section of `Connect` that hands its transport on to the next one. -/
theorem wires_handsOn {o : Origin} {s : Sect} (s' : Sect) (h : Silent w w')
    (htied : ∀ t, tied t ⟨o, s'⟩ = tied t ⟨o, s⟩) (hsends : ∀ t, sendsOn t ⟨o, s'⟩ = 0)
    (hsound : s'.Sound) (hfails : s.fails = false) (hpiece : ∀ t, pieceAt t ⟨o, s⟩ c = none) :
    Wires ⟨o, s⟩ c w w' (o.tasks [s']) := by
  refine ⟨Nat.le_of_eq h.attempts.symm, ?_, ?_, ?_, ?_, ?_⟩
  · intro t
    simp only [Origin.tasks, List.map_cons, List.map_nil, Sections.weight_cons,
      Sections.weight_nil, htied t, h.holds t]
    omega
  · intro t
    simp [Origin.tasks, hsends t]
  · simp [Origin.tasks, hsound]
  · intro t
    rw [hpiece t, h.pieces t]
    exact (List.append_nil _).symm
  · intro hfails'
    rw [hfails] at hfails'
    cases hfails'

theorem wires_create {o : Origin} {t : ℕ} {tls : Bool} {config : TlsConfig} {host : Bytes}
    {port : ℕ} {options : MqttConnectOptions} {result : Result ℕ}
    (h : some ((w.create o t tls config host port options result).1,
      o.tasks (w.create o t tls config host port options result).2) = some (w', ks)) :
    Wires ⟨o, .create t tls config host port options⟩ (.answer result) w w' ks := by
  cases result with
  | error e =>
      exact .of_push h (.of_eq rfl rfl rfl) (fun _ => rfl)
        (by simp [Conn.create, Sect.Landed, Sect.Sound, Sect.fails])
  | ok n =>
      obtain ⟨rfl, rfl⟩ := Prod.mk.inj (Option.some.inj h)
      have hsilent : Silent w (w.create o t tls config host port options (.ok n)).1 := by
        apply Silent.log _ _ (fun _ => rfl)
        apply Silent.log _ _ (fun _ => rfl)
        exact .of_eq rfl rfl rfl
      exact wires_handsOn (.transportConnect t host port options) hsilent (fun _ => rfl)
        (fun _ => rfl) trivial rfl (fun _ => rfl)

/-- `transport_ = transport` takes over from the section that held it. -/
theorem wires_store {o : Origin} {t : ℕ} {options : MqttConnectOptions} :
    Wires ⟨o, .store t options⟩ .go w (w.store o t options).1
      (o.tasks (w.store o t options).2) := by
  refine ⟨Nat.le_refl _, ?_, ?_, ?_, ?_, ?_⟩
  · intro t'
    by_cases ht : t = t'
    · simp [Conn.store, Origin.tasks, tied, holds, ht]
      omega
    · simp [Conn.store, Origin.tasks, tied, holds, ht]
  · intro t'
    simp [Conn.store, Origin.tasks, sendsOn]
  · simp [Conn.store, Origin.tasks, Sect.Sound, IsPacket.connect]
  · intro t'
    simp [Conn.store, pieceOf, pieceAt]
  · simp [Sect.fails]

/-- `SendPacket` sends on the transport that is held. -/
theorem wires_sendPacket {o : Origin} {packet : Bytes} {caller : SendCaller} :
    caller ≠ .goodbye →
    Wires ⟨o, .sendPacket packet caller⟩ .go w w (o.tasks (w.sendPacket packet caller)) := by
  intro hcaller
  cases ht : w.client.transport with
  | none =>
      apply Wires.landed (.of_eq rfl rfl rfl) (fun _ => rfl)
      simp [Conn.sendPacket, ht, Origin.tasks, Sect.Landed, Sect.Sound, Sect.fails]
  | some t =>
      refine ⟨Nat.le_refl _, ?_, ?_, ?_, ?_, ?_⟩
      · intro t'
        cases caller <;> simp_all [Conn.sendPacket, Origin.tasks, tied]
      · intro t'
        simp [Conn.sendPacket, ht, Origin.tasks, sendsOn, holds]
      · rintro ⟨hpacket, -⟩
        simpa [Conn.sendPacket, ht, Origin.tasks, Sect.Sound] using hpacket
      · intro t'
        exact (List.append_nil _).symm
      · simp [Conn.sendPacket, ht, Origin.tasks, Sect.fails]

theorem wires_transportSend {o : Origin} {t : ℕ} {packet : Bytes} {caller : SendCaller} :
    Wires ⟨o, .transportSend t packet caller⟩ .go w (w.log o (.sending t packet caller))
      (o.tasks [.sending t packet caller]) := by
  refine ⟨Nat.le_refl _, ?_, ?_, ?_, ?_, ?_⟩
  · intro t'
    have hheld : holds t' (w.log o (.sending t packet caller)) = holds t' w := rfl
    rw [hheld]
    cases caller <;> simp [Origin.tasks, tied]
  · intro t'
    simp [Origin.tasks, sendsOn]
  · simp [Origin.tasks, Sect.Sound]
  · intro t'
    simp [pieceOf, pieceAt]
  · simp [Origin.tasks, Sect.fails]

/-- The transport answers: its sections hold no transport any more. -/
theorem landed_sent {caller : SendCaller} {result : Result ℕ} :
    ∀ s ∈ Conn.sent caller result, s.Landed ∧ (caller.reports = false → s.fails = true) := by
  have hpacketSent : ∀ result, Sect.Landed (.packetSent caller result) ∧
      (caller.reports = false → Sect.fails (.packetSent caller result) = true) := by
    intro result
    refine ⟨trivial, fun hreports => ?_⟩
    cases result with
    | error e => rfl
    | ok x => simp only [Sect.fails, hreports, Bool.not_false]
  have hstored : Sect.Landed .storeLastSent ∧
      (caller.reports = false → Sect.fails .storeLastSent = true) := ⟨trivial, fun _ => rfl⟩
  cases caller with
  | goodbye => cases result <;> exact List.forall_mem_nil _
  | connect | publish | subscribe | unsubscribe | handler | keepAlive =>
      cases result with
      | error e => exact List.forall_mem_singleton.mpr (hpacketSent _)
      | ok n =>
          exact List.forall_mem_cons.mpr ⟨hstored, List.forall_mem_singleton.mpr (hpacketSent _)⟩

/-- What a caller of `SendPacket` makes of the result has no transport, and no success without one. -/
theorem landed_packetSent (caller : SendCaller) (result : Result Unit) :
    (Sect.packetSent caller result).Lands (Conn.packetSent caller result) := by
  have hquits : ∀ {sects : List Sect}, sects.all Sect.quits = true →
      (Sect.packetSent caller result).Lands sects :=
    fun h s hs => ⟨(landed_all h s hs).1, fun _ => (landed_all h s hs).2⟩
  cases result with
  | error e => cases caller <;> exact hquits rfl
  | ok x =>
      cases caller with
      | connect | publish | subscribe | unsubscribe =>
          exact List.forall_mem_singleton.mpr ⟨trivial, nofun⟩
      | handler | keepAlive | goodbye => exact hquits rfl

theorem wires_sending {o : Origin} {t : ℕ} {packet : Bytes} {caller : SendCaller}
    {result : Result ℕ} :
    Wires ⟨o, .sending t packet caller⟩ (.answer result) w
      (w.log o (.sent t packet caller result)) (o.tasks (Conn.sent caller result)) := by
  have hks : ∀ k ∈ o.tasks (Conn.sent caller result),
      k.sect.Landed ∧ (caller.reports = false → k.sect.fails = true) := by
    intro k hk
    obtain ⟨s, hs, rfl⟩ := List.mem_map.mp hk
    exact landed_sent s hs
  refine ⟨Nat.le_refl _, ?_, ?_, ?_, ?_, ?_⟩
  · intro t'
    rw [Sections.weight_eq_zero fun k hk => tied_of_landed (hks k hk).1]
    have hheld : holds t' (w.log o (.sent t packet caller result)) = holds t' w := rfl
    omega
  · intro t'
    rw [Sections.weight_eq_zero fun k hk => sendsOn_of_landed (hks k hk).1]
    omega
  · intro _ k hk
    exact (hks k hk).1.sound
  · intro t'
    rw [Conn.log_trace, pieces_concat]
    cases result <;> rfl
  · intro hfails last hlast
    apply (hks last (List.mem_of_getLast? hlast)).2
    simpa [Sect.fails] using hfails

/-- `Teardown` lets go of the transport, and may say goodbye on it. -/
theorem wires_teardown {o : Origin} {b : Bool} :
    Wires ⟨o, .teardown b⟩ .go w (w.teardown o b).1 (o.tasks (w.teardown o b).2) := by
  refine ⟨Nat.le_refl _, ?_, ?_, ?_, ?_, ?_⟩
  · intro t
    cases ht : w.client.transport with
    | none =>
        simp [Conn.teardown, Conn.dropTransport, Conn.endTransport, ht, Origin.tasks, tied, holds]
    | some t' =>
        cases b <;>
          simp [Conn.teardown, Conn.dropTransport, Conn.endTransport, ht, Origin.tasks, tied, holds]
  · intro t
    cases ht : w.client.transport with
    | none => simp [Conn.teardown, Conn.endTransport, ht, Origin.tasks, sendsOn]
    | some t' =>
        cases b <;> simp [Conn.teardown, Conn.endTransport, ht, Origin.tasks, sendsOn, holds]
  · cases ht : w.client.transport with
    | none => simp [Conn.teardown, Conn.endTransport, ht, Origin.tasks, Sect.Sound]
    | some t' =>
        cases b <;>
          simp [Conn.teardown, Conn.endTransport, ht, Origin.tasks, Sect.Sound, IsPacket.disconnect]
  · intro t
    simp [Conn.teardown, pieceOf, pieceAt]
  · cases ht : w.client.transport with
    | none => simp [Conn.teardown, Conn.endTransport, ht, Origin.tasks, Sect.fails]
    | some t' => cases b <;> simp [Conn.teardown, Conn.endTransport, ht, Origin.tasks, Sect.fails]

/-- An acknowledgement, with what is left behind it. -/
theorem landed_ack (type : MqttPacketType) (packetId : ℕ) {sects : List Sect}
    (h : sects.all Sect.quits = true) :
    ∀ s ∈ .sendPacket (encodePacketIdAck type packetId) .handler :: sects,
      s.Landed ∧ s.fails = true :=
  List.forall_mem_cons.mpr ⟨⟨⟨.ack type packetId, nofun⟩, rfl⟩, landed_all h⟩

/-- A handler sends acknowledgements at most, and returns nothing. -/
theorem landed_handled (client : SoftwareMqttClient) (p : MqttPacket) :
    (Conn.handled client p).1.transport = client.transport ∧
      ∀ s ∈ (Conn.handled client p).2, s.Landed ∧ s.fails = true := by
  cases htype : p.header.type with
  | kConnack =>
      simp only [Conn.handled, htype, Conn.handleConnack]
      split
      · exact ⟨rfl, by simp⟩
      · split
        · exact ⟨rfl, by simp⟩
        · split <;> exact ⟨rfl, by simp⟩
  | kPublish =>
      simp only [Conn.handled, htype, Conn.handlePublish]
      split
      · exact ⟨rfl, landed_all rfl⟩
      · split
        · exact ⟨rfl, landed_all rfl⟩
        · split
          · exact ⟨rfl, landed_ack _ _ rfl⟩
          · split
            · exact ⟨rfl, landed_ack _ _ rfl⟩
            · exact ⟨rfl, landed_all rfl⟩
  | kPuback | kPubcomp =>
      simp only [Conn.handled, htype, Conn.handlePublishComplete]
      cases parsePacketId p.body <;>
        exact ⟨trivial, landed_all rfl⟩
  | kPubrec =>
      simp only [Conn.handled, htype, Conn.handlePubrec]
      cases parsePacketId p.body with
      | none => exact ⟨trivial, landed_all rfl⟩
      | some packetId => exact ⟨trivial, landed_ack _ _ rfl⟩
  | kPubrel =>
      simp only [Conn.handled, htype, Conn.handlePubrel]
      split
      · exact ⟨rfl, landed_all rfl⟩
      · rename_i packetId _
        refine ⟨rfl, ?_⟩
        cases lookup packetId client.pendingQos2 <;> exact landed_ack _ _ rfl
  | kSuback =>
      simp only [Conn.handled, htype, Conn.handleSuback]
      split
      · exact ⟨rfl, landed_all rfl⟩
      · refine ⟨rfl, ?_⟩
        split <;> exact landed_all rfl
  | kUnsuback =>
      simp only [Conn.handled, htype, Conn.handleUnsuback]
      split <;> exact ⟨rfl, landed_all rfl⟩
  | kPingresp | kReserved0 | kConnect | kSubscribe | kUnsubscribe | kPingreq | kDisconnect
  | kReserved15 =>
      simp only [Conn.handled, htype]
      exact ⟨trivial, by simp⟩

theorem wires_handlePacket {o : Origin} {number : ℕ} {p : MqttPacket} :
    Wires ⟨o, .handlePacket number p⟩ .go w (w.handlePacket number p).1
      (w.handlePacket number p).2 := by
  obtain ⟨htransport, hsects⟩ := landed_handled w.client p
  have hsilent : Silent w (w.handlePacket number p).1 := by
    apply Silent.log _ _ (fun _ => rfl)
    exact .of_eq rfl htransport rfl
  apply Wires.landed hsilent (fun _ => rfl)
  intro k hk
  obtain ⟨s, hs, rfl⟩ := List.mem_map.mp hk
  exact ⟨(hsects s hs).1, fun _ => (hsects s hs).2⟩

/-- A call out of a callback comes in front of the callback. -/
theorem wires_newCall {o : Origin} {cl : Call}
    (h : some ((w.newCall cl).1, [(w.newCall cl).2, ⟨o, .inCallback⟩]) = some (w', ks)) :
    Wires ⟨o, .inCallback⟩ (.call cl) w w' ks := by
  obtain ⟨rfl, rfl⟩ := Prod.mk.inj (Option.some.inj h)
  have hsilent : Silent w (w.newCall cl).1 := by
    refine ⟨rfl, rfl, fun t => ?_⟩
    simp [Conn.newCall, pieceOf]
  refine ⟨Nat.le_refl _, ?_, ?_, ?_, ?_, ?_⟩
  · intro t
    rw [hsilent.holds t]
    simp [Conn.newCall, tied]
  · intro t
    simp [Conn.newCall, sendsOn]
  · simp [Conn.newCall, Sect.Sound]
  · intro t
    rw [hsilent.pieces t]
    exact (List.append_nil _).symm
  · simp [Conn.newCall, Sect.fails]

/-- What every section does about sending. -/
theorem exec_wires (hsound : task.sect.Sound) (h : Conn.exec task c w = some (w', ks)) :
    Wires task c w w' ks := by
  obtain ⟨o, s⟩ := task
  unfold Conn.exec at h
  dsimp only at h
  split at h
  -- calls and `Connect`
  · rename_i cl
    by_cases hconnect : ∃ host port clean, cl = .connect host port clean
    · obtain ⟨host, port, clean, rfl⟩ := hconnect
      exact wires_connect h
    · obtain ⟨hsilent, hsects⟩ := silent_call o
        fun host port clean heq => hconnect ⟨host, port, clean, heq⟩
      exact .of_push h hsilent (fun _ => rfl) fun s hs => ⟨hsects s hs, by simp [Sect.fails]⟩
  · exact wires_create h
  · split at h
    · exact .of_quits h (.of_eq rfl rfl rfl) (fun _ => rfl) rfl
    · obtain ⟨rfl, rfl⟩ := Prod.mk.inj (Option.some.inj h)
      exact wires_handsOn _ (.of_eq rfl rfl rfl) (fun _ => rfl) (fun _ => rfl) trivial rfl
        (fun _ => rfl)
  · exact .of_deliverWithin h
  · obtain ⟨rfl, rfl⟩ := Prod.mk.inj (Option.some.inj h)
    exact wires_store
  · split at h
    · refine .of_push h (.of_eq rfl rfl rfl) (fun _ => rfl) ?_
      cases herror : w.client.connackError <;>
        simp [Conn.wake, herror, Sect.Landed, Sect.Sound, Sect.fails]
    · cases h
  · split at h
    · cases h
    · exact .of_push h (.of_eq rfl rfl rfl) (fun _ => rfl)
        (by simp [Sect.Landed, Sect.Sound, Sect.fails])
  -- sending
  · obtain ⟨rfl, rfl⟩ := Prod.mk.inj (Option.some.inj h)
    exact wires_sendPacket hsound.2
  · obtain ⟨rfl, rfl⟩ := Prod.mk.inj (Option.some.inj h)
    exact wires_transportSend
  · obtain ⟨rfl, rfl⟩ := Prod.mk.inj (Option.some.inj h)
    exact wires_sending
  · exact .of_deliverWithin h
  · exact .of_clock h (fun _ => .of_eq rfl rfl rfl) (fun _ => rfl) rfl
  · exact .of_push h (.of_eq rfl rfl rfl) (fun _ => rfl) (landed_packetSent _ _)
  · exact .of_quits h (.of_eq rfl rfl rfl) (fun _ => rfl) rfl
  -- receiving and ending
  · refine .of_quits h (silent_onTransportData _ _ _) (fun _ => rfl) ?_
    simp only [Conn.onTransportData]
    split <;> rfl
  · refine .of_quits h (silent_takePackets _) (fun _ => rfl) ?_
    simp only [Conn.takePackets]
    split <;> rfl
  · obtain ⟨rfl, rfl⟩ := Prod.mk.inj (Option.some.inj h)
    exact wires_handlePacket
  · obtain ⟨rfl, rfl⟩ := Prod.mk.inj (Option.some.inj h)
    exact wires_teardown
  · exact .of_quits h (.of_eq rfl rfl rfl) (fun _ => rfl) rfl
  · exact .of_quits h (.of_eq rfl rfl rfl) (fun _ => rfl) rfl
  · exact .of_quits h (.log (.of_eq rfl rfl rfl) _ (fun _ => rfl)) (fun _ => rfl) rfl
  · exact .of_quits h (.of_eq rfl rfl rfl) (fun _ => rfl) rfl
  · exact .of_deliverWithin h
  -- the keep-alive task
  · refine .of_quits h (.of_eq rfl rfl rfl) (fun _ => rfl) ?_
    simp only [Conn.startKeepAlive]
    split <;> rfl
  · refine .of_quits h (.of_eq rfl rfl rfl) (fun _ => rfl) ?_
    split <;> rfl
  · simp only [Conn.joining] at h
    split at h
    · exact .of_quits h (.of_eq rfl rfl rfl) (fun _ => rfl) rfl
    · cases h
  · exact .of_quits h (.of_eq rfl rfl rfl) (fun _ => rfl) rfl
  · simp only [Conn.createTask] at h
    split at h
    · exact .of_quits h (.of_eq rfl rfl rfl) (fun _ => rfl) rfl
    · cases h
  · refine .of_quits h (.of_eq rfl rfl rfl) (fun _ => rfl) ?_
    simp only [Conn.keepAliveBegin]
    split <;> rfl
  · refine .of_quits h (.of_eq rfl rfl rfl) (fun _ => rfl) ?_
    split <;> rfl
  · refine .of_quits h (.of_eq rfl rfl rfl) (fun _ => rfl) ?_
    split <;> rfl
  · exact .of_clock h (fun _ => .of_eq rfl rfl rfl) (fun _ => rfl) rfl
  · refine .of_quits h (.of_eq rfl rfl rfl) (fun _ => rfl) ?_
    simp only [Conn.keepAlivePing]
    split
    · rfl
    · split <;> rfl
  · refine .of_push h (.of_eq rfl rfl rfl) (fun _ => rfl) ?_
    simp only [Conn.keepAliveIdle]
    split <;> simp [Sect.Landed, Sect.Sound, Sect.fails, IsPacket.pingreq, SendCaller.reports]
  · exact .of_quits h (.of_eq rfl rfl rfl) (fun _ => rfl) rfl
  · exact .of_quits h (.of_eq rfl rfl rfl) (fun _ => rfl) rfl
  -- callbacks
  · exact .of_quits h (.log (.of_eq rfl rfl rfl) _ (fun _ => rfl)) (fun _ => rfl) rfl
  · exact .of_quits h (.of_eq rfl rfl rfl) (fun _ => rfl) rfl
  · exact wires_newCall h
  · exact .of_quits h (.log (.of_eq rfl rfl rfl) _ (fun _ => rfl)) (fun _ => rfl) rfl
  · cases h

/-! ## Runs -/

/-- Nothing was cut short on transport `t`, or a goodbye was, and nobody can send on `t` any more. -/
def Closed (t : ℕ) (cfg : Config) : Prop :=
  (∀ p ∈ pieces t cfg.shared.trace, p.Whole) ∨
    Framed (pieces t cfg.shared.trace) ∧ t < cfg.shared.attempts ∧
      Sections.load (tied t) cfg = 0 ∧ Sections.load (sendsOn t) cfg = 0 ∧ holds t cfg.shared = 0

/-- What a run keeps: sections that hand over packets, transports that are tied up or held once, and
streams that end behind a packet that was cut short. -/
structure Wired (cfg : Config) : Prop where
  sound : ∀ q ∈ cfg.threads, ∀ task ∈ q, task.sect.Sound
  tied : ∀ t, Sections.load (tied t) cfg + holds t cfg.shared ≤
    if t < cfg.shared.attempts then 1 else 0
  packets : ∀ t, ∀ p ∈ pieces t cfg.shared.trace, IsPacket p.unit
  closed : ∀ t, Closed t cfg

/-- A new thread is silent and ties up no transport. -/
theorem entry_silent {e : Entry} {q : List Task} (h : Conn.entry e w = some (w', q)) :
    Silent w w' ∧ ∀ k ∈ q, k.sect.Landed := by
  cases e with
  | call cl =>
      obtain ⟨rfl, rfl⟩ := Prod.mk.inj (Option.some.inj h)
      refine ⟨⟨rfl, rfl, fun t => ?_⟩, List.forall_mem_singleton.mpr trivial⟩
      simp [Conn.newCall, pieceOf]
  | data | closed =>
      simp only [Conn.entry, Option.map_eq_some_iff, Prod.mk.injEq] at h
      obtain ⟨first, hfirst, rfl, rfl⟩ := h
      refine ⟨.of_eq rfl rfl rfl, ?_⟩
      intro k hk
      rw [List.mem_singleton.mp hk]
      have hspec : first.sect.Landed ∧ ∀ t, pieceAt t first _ = none := landed_delivery hfirst
      exact hspec.1
  | keepAlive =>
      simp only [Conn.entry] at h
      split at h
      · obtain ⟨rfl, rfl⟩ := Prod.mk.inj (Option.some.inj h)
        exact ⟨.of_eq rfl rfl rfl, List.forall_mem_singleton.mpr trivial⟩
      · cases h

theorem Wired.start {cfg : Config} (h : Wired cfg) {e : Entry} {q : List Task}
    (hentry : Conn.entry e cfg.shared = some (w', q)) : Wired ⟨w', cfg.threads ++ [q]⟩ := by
  obtain ⟨hsilent, hlanded⟩ := entry_silent hentry
  have htied : ∀ t, Sections.load (Mqtt.tied t) (⟨w', cfg.threads ++ [q]⟩ : Config) =
      Sections.load (Mqtt.tied t) cfg := by
    intro t
    rw [Sections.load_start _ cfg.shared,
      Sections.weight_eq_zero fun k hk => tied_of_landed (hlanded k hk)]
    rfl
  have hsends : ∀ t, Sections.load (sendsOn t) (⟨w', cfg.threads ++ [q]⟩ : Config) =
      Sections.load (sendsOn t) cfg := by
    intro t
    rw [Sections.load_start _ cfg.shared,
      Sections.weight_eq_zero fun k hk => sendsOn_of_landed (hlanded k hk)]
    rfl
  refine ⟨?_, ?_, ?_, ?_⟩
  · intro p hp task htask
    obtain hp | hp := List.mem_append.mp hp
    · exact h.sound p hp task htask
    · rw [List.mem_singleton.mp hp] at htask
      exact (hlanded task htask).sound
  · intro t
    simp only [htied, hsilent.holds, hsilent.attempts]
    exact h.tied t
  · intro t
    simp only [hsilent.pieces]
    exact h.packets t
  · intro t
    simp only [Closed, htied, hsends, hsilent.holds, hsilent.attempts, hsilent.pieces]
    exact h.closed t

theorem pieceAt_eq_some {t : ℕ} {p : Piece UInt8} (h : pieceAt t task c = some p) :
    ∃ packet caller n, task.sect = .sending t packet caller ∧ c = .answer (.ok n) ∧
      p = ⟨packet, n⟩ := by
  obtain ⟨o, s⟩ := task
  unfold pieceAt at h
  split at h
  · rename_i t' packet caller n hsect
    split at h
    · rename_i ht
      obtain ⟨rfl, -⟩ := ht
      exact ⟨packet, caller, n, hsect, rfl, (Option.some.inj h).symm⟩
    · cases h
  · cases h

theorem exec_sending {t : ℕ} {packet : Bytes} {caller : SendCaller} {result : Result ℕ}
    (hsect : task.sect = .sending t packet caller)
    (h : Conn.exec task (.answer result) w = some (w', ks)) :
    w' = w.log task.origin (.sent t packet caller result) ∧
      ks = task.origin.tasks (Conn.sent caller result) := by
  obtain ⟨o, s⟩ := task
  simp only at hsect
  subst hsect
  obtain ⟨rfl, rfl⟩ := Prod.mk.inj (Option.some.inj h)
  exact ⟨rfl, rfl⟩

/-- Nobody can come to send on a transport that is neither tied up nor held. -/
theorem Closed.run {cfg : Config} {t : ℕ} (h : Closed t cfg)
    (hget : cfg.threads[i]? = some (task :: ks)) {ks' : List Task}
    (hwires : Wires task c cfg.shared w' ks') (hpiece : pieceAt t task c = none) :
    Closed t ⟨w', cfg.threads.set i (ks' ++ ks)⟩ := by
  have hpieces : pieces t w'.trace = pieces t cfg.shared.trace := by
    rw [hwires.trace t, hpiece]
    exact List.append_nil _
  have htied := Sections.load_run (tied t) hget w' ks'
  have hsends := Sections.load_run (sendsOn t) hget w' ks'
  have hle := hwires.tied t
  have hle' := hwires.sends t
  simp only [Closed, hpieces]
  obtain hwhole | ⟨hframed, hlt, htied₀, hsends₀, hholds₀⟩ := h
  · exact .inl hwhole
  · have hfresh : ¬(cfg.shared.attempts ≤ t ∧ t < w'.attempts) := by omega
    rw [if_neg hfresh] at hle
    have := hwires.attempts
    exact .inr ⟨hframed, by omega, by omega, by omega, by omega⟩

/-- A packet comes to its transport: whole, or as a goodbye that nobody can send behind. -/
theorem closed_sending {cfg : Config} (h : Wired cfg)
    (hget : cfg.threads[i]? = some (task :: ks)) {t : ℕ} {packet : Bytes} {caller : SendCaller}
    {n : ℕ} (hsect : task.sect = .sending t packet caller) {ks' : List Task}
    (hexec : Conn.exec task (.answer (.ok n)) cfg.shared = some (w', ks')) (hn : 0 < n)
    (haccepts : n = packet.length ∨ caller = .goodbye ∧ Sections.load (sendsOn t) cfg = 1) :
    Closed t ⟨w', cfg.threads.set i (ks' ++ ks)⟩ := by
  obtain ⟨hw', hks'⟩ := exec_sending hsect hexec
  have hpieces : pieces t w'.trace = pieces t cfg.shared.trace ++ [⟨packet, n⟩] := by
    rw [hw', Conn.log_trace, pieces_concat]
    simp [pieceOf, hn]
  have hsends : sendsOn t task = 1 := by simp [sendsOn, hsect]
  have hbusy : 1 ≤ Sections.load (sendsOn t) cfg := by
    rw [← hsends]
    exact Sections.le_load (sendsOn t) hget (List.mem_cons_self ..)
  -- somebody sends on `t`, so nothing was cut short on it before
  have hwhole : ∀ p ∈ pieces t cfg.shared.trace, p.Whole := by
    obtain hwhole | ⟨-, -, -, hnone, -⟩ := h.closed t
    · exact hwhole
    · omega
  obtain hn | ⟨hgoodbye, halone⟩ := haccepts
  · left
    simp only [hpieces]
    intro p hp
    obtain hp | hp := List.mem_append.mp hp
    · exact hwhole p hp
    · rw [List.mem_singleton.mp hp]
      exact hn
  · right
    subst hgoodbye
    have hnil : ks' = [] := hks'
    subst hnil
    have htask : tied t task = 1 := by simp [tied, hsect]
    have hone := Sections.le_load (tied t) hget (List.mem_cons_self ..)
    have hbudget := h.tied t
    have htied := Sections.load_run (tied t) hget w' []
    have hsends' := Sections.load_run (sendsOn t) hget w' []
    have hholds : holds t w' = holds t cfg.shared := by
      rw [hw']
      rfl
    have hattempts : w'.attempts = cfg.shared.attempts := by
      rw [hw']
      rfl
    rw [Sections.weight_nil] at htied hsends'
    rw [htask] at hone htied
    rw [hsends, halone] at hsends'
    simp only [hpieces, hattempts, hholds]
    refine ⟨framed_concat hwhole _, ?_, ?_, ?_, ?_⟩
    · by_contra hnot
      rw [if_neg hnot] at hbudget
      omega
    all_goals
      split at hbudget <;> omega

theorem Wired.run {cfg : Config} (h : Wired cfg) (hget : cfg.threads[i]? = some (task :: ks))
    {ks' : List Task} (hexec : Conn.exec task c cfg.shared = some (w', ks'))
    (haccepts : ∀ t packet caller n, task.sect = .sending t packet caller → c = .answer (.ok n) →
      n = packet.length ∨ caller = .goodbye ∧ Sections.load (sendsOn t) cfg = 1) :
    Wired ⟨w', cfg.threads.set i (ks' ++ ks)⟩ := by
  have hfront : task.sect.Sound :=
    h.sound _ (List.mem_of_getElem? hget) task (List.mem_cons_self ..)
  have hwires := exec_wires hfront hexec
  refine ⟨?_, ?_, ?_, ?_⟩
  · intro q hq k hk
    obtain rfl | ⟨j, -, hj⟩ := Sections.mem_set_cases hq
    · obtain hk | hk := List.mem_append.mp hk
      · exact hwires.sound hfront k hk
      · exact h.sound _ (List.mem_of_getElem? hget) k (List.mem_cons_of_mem _ hk)
    · exact h.sound q (List.mem_of_getElem? hj) k hk
  · intro t
    have hload := Sections.load_run (Mqtt.tied t) hget w' ks'
    have hle := hwires.tied t
    have hattempts := hwires.attempts
    have hbudget := h.tied t
    simp only
    split at hbudget <;> split at hle <;> split <;> omega
  · intro t p hp
    simp only [hwires.trace t] at hp
    obtain hp | hp := List.mem_append.mp hp
    · exact h.packets t p hp
    · obtain ⟨packet, caller, n, hsect, -, rfl⟩ := pieceAt_eq_some (Option.mem_toList.mp hp)
      rw [hsect] at hfront
      exact hfront
  · intro t
    cases hpiece : pieceAt t task c with
    | none => exact (h.closed t).run hget hwires hpiece
    | some p =>
        obtain ⟨packet, caller, n, hsect, rfl, rfl⟩ := pieceAt_eq_some hpiece
        have hn : 0 < n := by
          by_contra hn
          simp [pieceAt, hsect, hn] at hpiece
        exact closed_sending h hget hsect hexec hn (haccepts t packet caller n hsect rfl)

/-- A stream on which nothing follows a packet that was cut short is intact. -/
theorem Wired.intact {cfg : Config} (h : Wired cfg) (t : ℕ) : Intact t cfg.shared.trace := by
  have hframed : Framed (pieces t cfg.shared.trace) := by
    obtain hwhole | ⟨hframed, -⟩ := h.closed t
    · exact framed_of_whole hwhole
    · exact hframed
  exact ⟨h.packets t, hframed, hframed.stream_eq⟩

/-! ### Operations whose packet was not accepted -/

/-- What a run keeps of the client and of the operations under way whose packet was not accepted:
these end in sections that lead to no success. -/
structure Failing (s : List (Sections.Operation Task) × Config) : Prop where
  wired : Wired s.2
  fails : ∀ op ∈ s.1, op.EndsIn (fun task => task.sect.fails) s.2

theorem Wired.keepsLast {cfg : Config} (h : Wired cfg) :
    Sections.KeepsLast program (fun task => task.sect.fails) cfg := by
  intro i c task ks w' ks' hget hexec hfails
  have hsound : task.sect.Sound :=
    h.sound _ (List.mem_of_getElem? hget) task (List.mem_cons_self ..)
  exact (exec_wires hsound hexec).fails hfails

/-- A step that leaves a packet unaccepted. -/
theorem unaccepted_eq_some {cfg : Config} {l : Label} {op : Sections.Operation Task}
    (h : unaccepted cfg l = some op) :
    ∃ i result task ks t packet caller, l = .run i (.answer result) ∧
      cfg.threads[i]? = some (task :: ks) ∧ task.sect = .sending t packet caller ∧
      (∀ n, result = .ok n → n ≠ packet.length) ∧ op = ⟨i, ks⟩ := by
  cases l with
  | start e => cases h
  | run i c =>
      cases c with
      | answer result =>
          simp only [unaccepted] at h
          split at h
          · rename_i o t packet caller ks n hget
            split at h
            · cases h
            · rename_i hn
              refine ⟨i, _, _, ks, t, packet, caller, rfl, hget, rfl, ?_, (Option.some.inj h).symm⟩
              intro m hm
              rw [← Except.ok.inj hm]
              exact hn
          · rename_i o t packet caller ks e hget
            refine ⟨i, _, _, ks, t, packet, caller, rfl, hget, rfl, ?_, (Option.some.inj h).symm⟩
            intro m hm
            cases hm
          · cases h
      | go | now | data | closed | timeout | call => cases h

/-- A packet that is not accepted is reported to its sender, or is a goodbye. -/
theorem endsIn_unaccepted {cfg cfg' : Config} {l : Label} {op : Sections.Operation Task}
    (h : unaccepted cfg l = some op) (haccepts : AcceptsWhole cfg l)
    (hstep : program.step cfg l = some cfg') (hopen : op.isOpen cfg' = true) :
    op.EndsIn (fun task => task.sect.fails) cfg' := by
  obtain ⟨i, result, task, ks, t, packet, caller, rfl, hget, hsect, hresult, rfl⟩ :=
    unaccepted_eq_some h
  obtain ⟨task', ks₀, w', ks', hget', hexec, rfl⟩ := Sections.Program.step_run.mp hstep
  obtain ⟨rfl, rfl⟩ := List.cons.inj (Option.some.inj (hget.symm.trans hget'))
  obtain ⟨-, rfl⟩ := exec_sending hsect hexec
  have hi : i < cfg.threads.length := (List.getElem?_eq_some_iff.mp hget).1
  have hthread : (cfg.threads.set i (task.origin.tasks (Conn.sent caller result) ++ ks))[i]? =
      some (task.origin.tasks (Conn.sent caller result) ++ ks) := List.getElem?_set_self hi
  have hne : Conn.sent caller result ≠ [] := by
    intro hnil
    simp [Sections.Operation.isOpen, hnil, Origin.tasks, List.getElem?_set_self hi] at hopen
  cases result with
  | error e =>
      refine ⟨[], ⟨task.origin, .packetSent caller (.error e)⟩, ?_, rfl⟩
      rw [hthread]
      cases caller <;> first | rfl | exact absurd rfl hne
  | ok n =>
      have hanswered : answered cfg (.run i (.answer (.ok n))) = some ⟨t, packet, caller, n⟩ := by
        obtain ⟨o, s⟩ := task
        simp only at hsect
        simp [answered, hget, hsect]
      obtain hn | ⟨hgoodbye, -⟩ := haccepts _ hanswered
      · exact absurd hn (hresult n rfl)
      · simp only at hgoodbye
        subst hgoodbye
        exact absurd rfl hne

theorem Failing.step {s s' : List (Sections.Operation Task) × Config} {l : Label}
    (h : Failing s) (haccepts : AcceptsWhole s.2 l) (hstep : sendingStep s l = some s') :
    Failing s' := by
  obtain ⟨hprogram, hops⟩ := Runs.monitored_eq_some.mp hstep
  constructor
  · obtain ⟨e, w', q, rfl, hentry, hcfg⟩ | ⟨i, c, task, ks, w', ks', rfl, hget, hexec, hcfg⟩ :=
      Sections.Program.step_cases hprogram
    · rw [hcfg]
      exact h.wired.start hentry
    · rw [hcfg]
      apply h.wired.run hget hexec
      rintro t packet caller n hsect rfl
      apply haccepts ⟨t, packet, caller, n⟩
      obtain ⟨o, sect⟩ := task
      simp only at hsect
      subst hsect
      simp [answered, hget]
  · intro op hop
    rw [hops] at hop
    obtain ⟨hop, hopen⟩ := List.mem_filter.mp hop
    obtain hop | hop := List.mem_append.mp hop
    · exact (h.fails op hop).step h.wired.keepsLast hprogram hopen
    · exact endsIn_unaccepted (Option.mem_toList.mp hop) haccepts hprogram hopen

theorem Failing.not_reportsSuccess {s : List (Sections.Operation Task) × Config}
    (h : Failing s) : ¬ReportsSuccess s := by
  rintro ⟨op, hop, o, x, hget⟩
  have := (h.fails op hop).front hget
  cases this

theorem failing_initial : Failing ([], initial) := by
  refine ⟨⟨by simp [initial], ?_, ?_, ?_⟩, by simp⟩
  · intro t
    simp [initial, Sections.load, holds]
  · intro t p hp
    simp [initial, pieces] at hp
  · intro t
    left
    intro p hp
    simp [initial, pieces] at hp

/-- In the runs whose steps meet `ok`, every stream stays intact and no operation whose packet was
not wholly accepted returns without an error. -/
def KeepsStreams (ok : Config → Label → Prop) : Prop :=
  ∀ ls, Runs.Along sendingStep (fun s l _ => AcceptsAtMost s.2 l ∧ ok s.2 l) ([], initial) ls →
    Runs.Along sendingStep (fun _ _ s' => (∀ t, Intact t s'.2.shared.trace) ∧ ¬ReportsSuccess s')
      ([], initial) ls

theorem keepsStreams : KeepsStreams AcceptsWhole := by
  intro ls h
  apply h.mono (I := Failing) _ failing_initial
  intro s l s' hfailing hok hstep
  have hfailing' := hfailing.step hok.2 hstep
  exact ⟨hfailing', hfailing'.wired.intact, hfailing'.not_reportsSuccess⟩

end EspModemLink.Mqtt
