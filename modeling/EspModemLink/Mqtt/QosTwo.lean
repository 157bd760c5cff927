import EspModemLink.Mqtt.SessionGate
import Mathlib.Data.List.Count
import Mathlib.Data.List.Perm.Basic

/-!
# Messages of quality of service two

A QoS 2 message is held from its PUBLISH to its PUBREL. The reactions to every packet are accounted
for: those that have shown and those that threads still have to execute add up to what the packets
handled so far ask for.
-/

namespace EspModemLink.Mqtt

open Bytes Http

/-! ## What packets ask for -/

/-- A reaction to a packet. -/
inductive Reaction where
  | send (packet : Bytes)
  | callback (c : Callback)
deriving DecidableEq

def Reaction.isMessage : Reaction → Bool
  | .callback (.message _) => true
  | _ => false

/-- The QoS 2 message that a packet publishes. -/
def qosTwoMessage (p : MqttPacket) : Option MqttPublishMessage :=
  if p.header.type = .kPublish ∧ p.header.qos = 2 then parsePublish p.header p.body else none

/-- The packet id that a PUBREL releases. -/
def releasedId (p : MqttPacket) : Option ℕ :=
  if p.header.type = .kPubrel then parsePacketId p.body else none

/-- The packets behind the last PUBREL of an id. -/
def openCycle (history : List MqttPacket) (id : ℕ) : List MqttPacket :=
  (history.reverse.takeWhile fun p => releasedId p != some id).reverse

/-- The message of an id that is still to be released: the first one published under it behind its
last PUBREL. -/
def heldMessage (history : List MqttPacket) (id : ℕ) : Option MqttPublishMessage :=
  (openCycle history id).findSome? fun p => (qosTwoMessage p).filter fun m => m.packetId == id

/-- The reactions to a packet while messages are held. -/
def asked (held : ℕ → Option MqttPublishMessage) (p : MqttPacket) : List Reaction :=
  match p.header.type with
  | .kPublish =>
      match parsePublish p.header p.body with
      | none => []
      | some m =>
          if p.header.qos = 2 then [.send (encodePacketIdAck .kPubrec m.packetId)]
          else if p.header.qos = 1 then
            [.send (encodePacketIdAck .kPuback m.packetId), .callback (.message m)]
          else [.callback (.message m)]
  | .kPubrec =>
      ((parsePacketId p.body).map fun id => Reaction.send (encodePacketIdAck .kPubrel id)).toList
  | .kPubrel =>
      match parsePacketId p.body with
      | none => []
      | some id =>
          .send (encodePacketIdAck .kPubcomp id) ::
            ((held id).map fun m => Reaction.callback (.message m)).toList
  | .kPuback | .kPubcomp =>
      ((parsePacketId p.body).map fun id => Reaction.callback (.publishAck id)).toList
  | _ => []

/-- The packets handled since the last `Teardown`, and all packets handled, each with those that
were handled ahead of it since the `Teardown` before it. -/
structure History where
  connection : List MqttPacket := []
  packets : List (List MqttPacket × MqttPacket) := []

def History.after (h : History) : Event → History
  | .received _ p =>
      { connection := h.connection ++ [p], packets := h.packets ++ [(h.connection, p)] }
  | .tornDown => { h with connection := [] }
  | _ => h

def historyOf (trace : List (Origin × Event)) : History :=
  trace.foldl (fun h e => h.after e.2) {}

/-- The reactions to the packet with number `k` of a history. -/
def History.asked (h : History) (k : ℕ) : List Reaction :=
  match h.packets[k]? with
  | none => []
  | some (before, p) => Mqtt.asked (heldMessage before) p

/-! ## What has shown and what is still to come -/

def Event.reaction? : Event → Option Reaction
  | .sending _ packet .handler => some (.send packet)
  | .callback (.message m) => some (.callback (.message m))
  | .callback (.publishAck id) => some (.callback (.publishAck id))
  | _ => none

def Sect.reaction? : Sect → Option Reaction
  | .sendPacket packet .handler => some (.send packet)
  | .transportSend _ packet .handler => some (.send packet)
  | .callback (.message m) => some (.callback (.message m))
  | .callback (.publishAck id) => some (.callback (.publishAck id))
  | _ => none

/-- The reactions to packet `k` that have shown. -/
def reactionsTo (k : ℕ) (trace : List (Origin × Event)) : List Reaction :=
  trace.filterMap fun e => if e.1 = .packet k then e.2.reaction? else none

/-- Whether a section is still to show a reaction to packet `k`. -/
def owes (k : ℕ) (r : Reaction) (task : Task) : ℕ :=
  if task.origin = .packet k ∧ task.sect.reaction? = some r then 1 else 0

/-- No thread still has a reaction to packet `k` to show. -/
def Answered (k : ℕ) (cfg : Config) : Prop :=
  ∀ q ∈ cfg.threads, ∀ task ∈ q, task.origin = .packet k → task.sect.reaction? = none

instance (k : ℕ) (cfg : Config) : Decidable (Answered k cfg) :=
  inferInstanceAs (Decidable (∀ q ∈ cfg.threads, ∀ task ∈ q, _))

/-! ## Held messages -/

theorem heldMessage_snoc (history : List MqttPacket) (p : MqttPacket) (id : ℕ) :
    heldMessage (history ++ [p]) id =
      if releasedId p = some id then none
      else (heldMessage history id).or ((qosTwoMessage p).filter fun m => m.packetId == id) := by
  unfold heldMessage openCycle
  rw [List.reverse_append, List.reverse_singleton, List.singleton_append, List.takeWhile_cons]
  by_cases h : releasedId p = some id
  · simp [h]
  · simp only [h, bne_iff_ne, ne_eq, not_false_iff, if_true, if_false, List.reverse_cons,
      List.findSome?_append, List.findSome?_cons, List.findSome?_nil]
    cases (qosTwoMessage p).filter fun m => m.packetId == id <;> rfl

/-- The sections of a handler are the reactions that its packet asks for. -/
theorem handled_reactions (c : SoftwareMqttClient) (p : MqttPacket) :
    (Conn.handled c p).2.filterMap Sect.reaction? =
      asked (fun id => lookup id c.pendingQos2) p := by
  cases htype : p.header.type with
  | kPublish =>
      simp only [Conn.handled, asked, htype, Conn.handlePublish]
      split
      · rename_i hqos
        have hnone : parsePublish p.header p.body = none := by
          simp [parsePublish, hqos]
        rw [hnone]
        rfl
      · cases parsePublish p.header p.body with
        | none => rfl
        | some m =>
            dsimp only
            split
            · rfl
            · split <;> rfl
  | kPuback | kPubcomp =>
      simp only [Conn.handled, asked, htype, Conn.handlePublishComplete]
      cases parsePacketId p.body <;> rfl
  | kPubrec =>
      simp only [Conn.handled, asked, htype, Conn.handlePubrec]
      cases parsePacketId p.body <;> rfl
  | kPubrel =>
      simp only [Conn.handled, asked, htype, Conn.handlePubrel]
      cases parsePacketId p.body with
      | none => rfl
      | some id =>
          cases hheld : lookup id c.pendingQos2 <;> simp [hheld, Sect.reaction?]
  | kSuback =>
      simp only [Conn.handled, asked, htype, Conn.handleSuback]
      cases parseSuback p.body with
      | none => rfl
      | some suback =>
          dsimp only
          split <;> rfl
  | kUnsuback =>
      simp only [Conn.handled, asked, htype, Conn.handleUnsuback]
      cases parsePacketId p.body <;> rfl
  | kReserved0 | kConnect | kConnack | kSubscribe | kUnsubscribe | kPingreq | kPingresp
  | kDisconnect | kReserved15 =>
      simp [Conn.handled, asked, htype]

/-- What a handler makes of the messages held. -/
theorem lookup_handled (c : SoftwareMqttClient) (p : MqttPacket) (id : ℕ) :
    lookup id (Conn.handled c p).1.pendingQos2 =
      if releasedId p = some id then none
      else (lookup id c.pendingQos2).or ((qosTwoMessage p).filter fun m => m.packetId == id) := by
  cases htype : p.header.type with
  | kPublish =>
      simp only [Conn.handled, Conn.handlePublish, releasedId, qosTwoMessage, htype, true_and]
      split
      · rename_i hqos
        simp [show p.header.qos ≠ 2 by omega]
      · cases hparse : parsePublish p.header p.body with
        | none => simp
        | some m =>
            by_cases htwo : p.header.qos = 2
            · simp only [if_pos htwo, lookup_emplace]
              by_cases hid : id = m.packetId
              · simp [hid, Option.filter]
              · simp [hid, Ne.symm hid, Option.filter]
            · simp only [if_neg htwo]
              split <;> simp
  | kPubrel =>
      simp only [Conn.handled, Conn.handlePubrel, releasedId, qosTwoMessage, htype]
      cases hparse : parsePacketId p.body with
      | none => simp
      | some key =>
          simp only [lookup_erase]
          by_cases hid : id = key
          · simp [hid]
          · simp [hid, Ne.symm hid]
  | kConnack =>
      simp only [Conn.handled, Conn.handleConnack, releasedId, qosTwoMessage, htype]
      split
      · simp
      · split
        · simp
        · split <;> simp
  | kSuback =>
      simp only [Conn.handled, Conn.handleSuback, releasedId, qosTwoMessage, htype]
      split <;> simp
  | kUnsuback =>
      simp only [Conn.handled, Conn.handleUnsuback, releasedId, qosTwoMessage, htype]
      split <;> simp
  | kReserved0 | kConnect | kPuback | kPubrec | kPubcomp | kSubscribe | kUnsubscribe | kPingreq
  | kPingresp | kDisconnect | kReserved15 =>
      simp [Conn.handled, releasedId, qosTwoMessage, htype]

/-! ## Weights -/

theorem Sect.reaction?_of_plain {s : Sect} (h : s.plain = true) : s.reaction? = none := by
  cases s with
  | sendPacket packet caller => cases caller <;> first | rfl | cases h
  | transportSend t packet caller => cases caller <;> first | rfl | cases h
  | callback c => cases c <;> first | rfl | cases h
  | _ => rfl

theorem Event.reaction?_of_plain {e : Event} (h : e.plain = true) : e.reaction? = none := by
  cases e with
  | sending t packet caller => cases caller <;> first | rfl | cases h
  | callback c => cases c <;> first | rfl | cases h
  | _ => rfl

theorem owes_of_plain {task : Task} (h : task.sect.plain = true) (k : ℕ) (r : Reaction) :
    owes k r task = 0 := by
  simp [owes, Sect.reaction?_of_plain h]

theorem weight_of_plain {ks : List Task} (h : ∀ task ∈ ks, task.sect.plain = true) (k : ℕ)
    (r : Reaction) : Sections.weight (owes k r) ks = 0 :=
  Sections.weight_eq_zero fun task htask => owes_of_plain (h task htask) k r

/-- The weight of the sections of a handler. -/
theorem weight_tasks (k n : ℕ) (r : Reaction) (sects : List Sect) :
    Sections.weight (owes k r) ((Origin.packet n).tasks sects) =
      if k = n then (sects.filterMap Sect.reaction?).count r else 0 := by
  induction sects with
  | nil => simp [Origin.tasks]
  | cons s sects ih =>
      have hcons : (Origin.packet n).tasks (s :: sects) =
          ⟨.packet n, s⟩ :: (Origin.packet n).tasks sects := rfl
      rw [hcons, Sections.weight_cons, ih]
      by_cases hk : k = n
      · subst hk
        simp only [if_true, owes, true_and]
        cases hs : s.reaction? with
        | none => simp [hs]
        | some r' =>
            simp only [List.filterMap_cons, hs, List.count_cons, Option.some.injEq]
            by_cases hr : r' = r
            · subst hr
              simp
              omega
            · simp [hr]
      · simp [owes, hk, Ne.symm hk]

theorem reactionsTo_append (k : ℕ) (trace es : List (Origin × Event)) :
    reactionsTo k (trace ++ es) = reactionsTo k trace ++ reactionsTo k es := by
  simp [reactionsTo]

theorem reactionsTo_of_plain (k : ℕ) {es : List (Origin × Event)}
    (h : ∀ e ∈ es, e.2.plain = true) : reactionsTo k es = [] := by
  rw [reactionsTo, List.filterMap_eq_nil_iff]
  intro e he
  simp [Event.reaction?_of_plain (h e he)]

@[simp] theorem historyOf_snoc (trace : List (Origin × Event)) (e : Origin × Event) :
    historyOf (trace ++ [e]) = (historyOf trace).after e.2 := by
  simp [historyOf]

theorem historyOf_append (trace : List (Origin × Event)) {es : List (Origin × Event)}
    (h : ∀ e ∈ es, ∀ x : History, x.after e.2 = x) :
    historyOf (trace ++ es) = historyOf trace := by
  induction es using List.reverseRecOn with
  | nil => simp
  | append_singleton es e ih =>
      rw [← List.append_assoc, historyOf_snoc, h e (by simp),
        ih fun e' he' => h e' (List.mem_append_left _ he')]

theorem History.after_of_plain {e : Event} (he : e.plain = true) (h : History) : h.after e = h := by
  cases e <;> first | rfl | cases he

/-- A packet that is handled asks for reactions of its own only. -/
theorem History.asked_received (h : History) (n : ℕ) (p : MqttPacket) (k : ℕ) :
    (h.after (.received n p)).asked k =
      if k = h.packets.length then Mqtt.asked (heldMessage h.connection) p else h.asked k := by
  unfold History.asked History.after
  obtain hlt | heq | hgt := Nat.lt_trichotomy k h.packets.length
  · rw [List.getElem?_append_left hlt, if_neg (by omega)]
  · subst heq
    simp
  · have hnone : (h.packets ++ [(h.connection, p)])[k]? = none := by
      rw [List.getElem?_eq_none_iff]
      simp only [List.length_append, List.length_singleton]
      omega
    have hnone' : h.packets[k]? = none := by
      rw [List.getElem?_eq_none_iff]
      omega
    rw [hnone, hnone', if_neg (by omega)]

/-! ## The account -/

/-- What a run keeps: the messages held are those of the packets handled since the last `Teardown`,
and the reactions that `counted` picks have shown or are still to come. -/
structure Accounts (counted : Reaction → Prop) (cfg : Config) : Prop where
  received : cfg.shared.received = (historyOf cfg.shared.trace).packets.length
  held : ∀ id, lookup id cfg.shared.client.pendingQos2 =
    heldMessage (historyOf cfg.shared.trace).connection id
  balance : ∀ k r, counted r → (reactionsTo k cfg.shared.trace).count r +
    Sections.load (owes k r) cfg = ((historyOf cfg.shared.trace).asked k).count r

/-- The acknowledgement that a step of a handler passes to `SendPacket`. -/
def acknowledging (cfg : Config) : Label → Option Bytes
  | .run i .go =>
      match cfg.threads[i]? with
      | some (⟨_, .sendPacket packet .handler⟩ :: _) => some packet
      | _ => none
  | _ => none

/-- An acknowledgement that counts finds a transport. -/
def FindsTransport (counted : Reaction → Prop) (cfg : Config) (l : Label) : Prop :=
  ∀ packet ∈ acknowledging cfg l, counted (.send packet) → cfg.shared.client.transport ≠ none

instance (counted : Reaction → Prop) [DecidablePred counted] (cfg : Config) (l : Label) :
    Decidable (FindsTransport counted cfg l) :=
  inferInstanceAs (Decidable (∀ packet ∈ acknowledging cfg l, _))

variable {counted : Reaction → Prop}

/-- A step that trades what is owed for what has shown and leaves the history alone. -/
theorem Accounts.of_trade {cfg cfg' : Config} (h : Accounts counted cfg)
    {es : List (Origin × Event)} (htrace : cfg'.shared.trace = cfg.shared.trace ++ es)
    (hes : ∀ e ∈ es, ∀ x : History, x.after e.2 = x)
    (hreceived : cfg'.shared.received = cfg.shared.received)
    (hheld : cfg'.shared.client.pendingQos2 = cfg.shared.client.pendingQos2)
    (htrade : ∀ k r, counted r → (reactionsTo k es).count r + Sections.load (owes k r) cfg' =
      Sections.load (owes k r) cfg) : Accounts counted cfg' := by
  have hsame : historyOf cfg'.shared.trace = historyOf cfg.shared.trace := by
    rw [htrace, historyOf_append _ hes]
  refine ⟨?_, ?_, ?_⟩
  · rw [hsame, hreceived]
    exact h.received
  · intro id
    rw [hsame, hheld]
    exact h.held id
  · intro k r hr
    rw [hsame, ← h.balance k r hr, ← htrade k r hr, htrace, reactionsTo_append, List.count_append]
    omega

/-- A section that trades what it owes for what shows and what it leaves to show. -/
theorem Accounts.trades {cfg : Config} (h : Accounts counted cfg) {i : ℕ} {task : Task}
    {ks ks' : List Task} {w' : Conn} {es : List (Origin × Event)}
    (hget : cfg.threads[i]? = some (task :: ks)) (htrace : w'.trace = cfg.shared.trace ++ es)
    (hes : ∀ e ∈ es, ∀ x : History, x.after e.2 = x)
    (hreceived : w'.received = cfg.shared.received)
    (hheld : w'.client.pendingQos2 = cfg.shared.client.pendingQos2)
    (htrade : ∀ k r, counted r →
      (reactionsTo k es).count r + Sections.weight (owes k r) ks' = owes k r task) :
    Accounts counted ⟨w', cfg.threads.set i (ks' ++ ks)⟩ := by
  apply h.of_trade htrace hes hreceived hheld
  intro k r hr
  have hload := Sections.load_run (owes k r) hget w' ks'
  have := htrade k r hr
  omega

theorem reaction?_of_plain_tasks {ks : List Task} (h : ∀ k ∈ ks, k.sect.plain = true) :
    ∀ k ∈ ks, k.sect.reaction? = none :=
  fun k hk => Sect.reaction?_of_plain (h k hk)

/-- What neither shows, nor owes, nor leaves a reaction weighs nothing. -/
theorem trade_of_silent {task : Task} {ks : List Task} {es : List (Origin × Event)}
    (htask : task.sect.reaction? = none) (hks : ∀ k ∈ ks, k.sect.reaction? = none)
    (hes : ∀ e ∈ es, e.2.reaction? = none) (k : ℕ) (r : Reaction) :
    (reactionsTo k es).count r + Sections.weight (owes k r) ks = owes k r task := by
  have hshown : reactionsTo k es = [] := by
    rw [reactionsTo, List.filterMap_eq_nil_iff]
    intro e he
    simp [hes e he]
  have hleft : Sections.weight (owes k r) ks = 0 :=
    Sections.weight_eq_zero fun k' hk' => by simp [owes, hks k' hk']
  simp [hshown, hleft, owes, htask]

/-- A reaction that shows is one that was owed. -/
theorem trade_of_shown {task : Task} {ks : List Task} {e : Event}
    (hsame : e.reaction? = task.sect.reaction?) (hks : ∀ k ∈ ks, k.sect.plain = true) (k : ℕ)
    (r : Reaction) :
    (reactionsTo k [(task.origin, e)]).count r + Sections.weight (owes k r) ks =
      owes k r task := by
  rw [weight_of_plain hks, Nat.add_zero]
  unfold reactionsTo owes
  by_cases hk : task.origin = .packet k
  · cases hr : task.sect.reaction? with
    | none => simp [hk, hsame, hr]
    | some r' => simp [hk, hsame, hr, List.count_singleton]
  · simp [hk]

/-- A section that neither owes nor shows a reaction nor leaves one to show. -/
theorem Accounts.silent {cfg : Config} (h : Accounts counted cfg) {i : ℕ} {task : Task}
    {ks ks' : List Task} {w' : Conn} {es : List (Origin × Event)}
    (hget : cfg.threads[i]? = some (task :: ks)) (htrace : w'.trace = cfg.shared.trace ++ es)
    (hhistory : ∀ e ∈ es, ∀ x : History, x.after e.2 = x)
    (hreceived : w'.received = cfg.shared.received)
    (hheld : w'.client.pendingQos2 = cfg.shared.client.pendingQos2)
    (htask : task.sect.reaction? = none) (hks : ∀ k ∈ ks', k.sect.reaction? = none)
    (hes : ∀ e ∈ es, e.2.reaction? = none) :
    Accounts counted ⟨w', cfg.threads.set i (ks' ++ ks)⟩ := by
  apply h.trades hget htrace hhistory hreceived hheld
  intro k r _
  exact trade_of_silent htask hks hes k r

/-- A handler owes what its packet asks for. -/
theorem Accounts.handles {cfg : Config} (h : Accounts counted cfg) {i number : ℕ}
    {packet : MqttPacket} {task : Task} {ks : List Task}
    (hget : cfg.threads[i]? = some (task :: ks)) (hsect : task.sect = .handlePacket number packet) :
    Accounts counted ⟨(cfg.shared.handlePacket number packet).1,
      cfg.threads.set i ((cfg.shared.handlePacket number packet).2 ++ ks)⟩ := by
  have hhistory : historyOf (cfg.shared.handlePacket number packet).1.trace =
      (historyOf cfg.shared.trace).after (.received number packet) := by
    simp only [Conn.handlePacket, Conn.log_trace, historyOf_snoc]
  refine ⟨?_, ?_, ?_⟩
  · simp only [hhistory, History.after, List.length_append, List.length_singleton, ← h.received]
    rfl
  · intro id
    simp only [hhistory, History.after, heldMessage_snoc, ← h.held]
    exact lookup_handled _ _ id
  · intro k r hr
    have hload := Sections.load_run (owes k r) hget (cfg.shared.handlePacket number packet).1
      (cfg.shared.handlePacket number packet).2
    have hzero : owes k r task = 0 := by
      simp [owes, hsect, Sect.reaction?]
    have hweight : Sections.weight (owes k r) (cfg.shared.handlePacket number packet).2 =
        if k = cfg.shared.received then
          (asked (heldMessage (historyOf cfg.shared.trace).connection) packet).count r else 0 := by
      have hheld : (fun id => lookup id cfg.shared.client.pendingQos2) =
          heldMessage (historyOf cfg.shared.trace).connection := funext h.held
      simp only [Conn.handlePacket, weight_tasks, handled_reactions, hheld]
    have hreactions : reactionsTo k (cfg.shared.handlePacket number packet).1.trace =
        reactionsTo k cfg.shared.trace := by
      simp only [Conn.handlePacket, Conn.log_trace, reactionsTo_append]
      simp [reactionsTo, Event.reaction?]
    have hbalance := h.balance k r hr
    simp only [hhistory, hreactions, History.asked_received, ← h.received]
    by_cases hk : k = cfg.shared.received
    · have hnone : (historyOf cfg.shared.trace).asked k = [] := by
        have : (historyOf cfg.shared.trace).packets[k]? = none := by
          rw [List.getElem?_eq_none_iff, hk, h.received]
        simp only [History.asked, this]
      rw [if_pos hk] at hweight ⊢
      rw [hnone, List.count_nil] at hbalance
      omega
    · rw [if_neg hk] at hweight ⊢
      omega

/-- `Teardown` begins a new connection, in which nothing is held. -/
theorem Accounts.tearsDown {cfg : Config} (h : Accounts counted cfg) {i : ℕ} {b : Bool}
    {task : Task} {ks ks' : List Task} {w' : Conn} (hget : cfg.threads[i]? = some (task :: ks))
    (htrace : w'.trace = cfg.shared.trace ++ [(task.origin, .tornDown)])
    (hreceived : w'.received = cfg.shared.received) (hheld : w'.client.pendingQos2 = [])
    (hsect : task.sect = .teardown b) (hks : ∀ k ∈ ks', k.sect.plain = true) :
    Accounts counted ⟨w', cfg.threads.set i (ks' ++ ks)⟩ := by
  have hhistory : historyOf w'.trace = (historyOf cfg.shared.trace).after .tornDown := by
    rw [htrace, historyOf_snoc]
  refine ⟨?_, ?_, ?_⟩
  · rw [hhistory, hreceived]
    exact h.received
  · intro id
    rw [hhistory, hheld]
    rfl
  · intro k r hr
    have htask : task.sect.reaction? = none := by rw [hsect]; rfl
    have hload := Sections.load_run (owes k r) hget w' ks'
    have hsilent := trade_of_silent htask (reaction?_of_plain_tasks hks)
      (fun e (he : e ∈ [(task.origin, Event.tornDown)]) => by
        rw [List.mem_singleton.mp he]; rfl) k r
    have hbalance := h.balance k r hr
    have hasked : ((historyOf cfg.shared.trace).after .tornDown).asked k =
        (historyOf cfg.shared.trace).asked k := rfl
    simp only [hhistory, hasked]
    rw [htrace, reactionsTo_append, List.count_append]
    omega

/-- Every section keeps the account. -/
theorem Effect.accounts {cfg : Config} {i : ℕ} {task : Task} {ks ks' : List Task} {w' : Conn}
    (h : Conn.Effect task cfg.shared w' ks') (hget : cfg.threads[i]? = some (task :: ks))
    (hacc : Accounts counted cfg)
    (hsend : ∀ packet, task.sect = .sendPacket packet .handler → counted (.send packet) →
      cfg.shared.client.transport ≠ none) :
    Accounts counted ⟨w', cfg.threads.set i (ks' ++ ks)⟩ := by
  cases h with
  | quiet hplain hq hks =>
      obtain ⟨es, hes, htrace⟩ := hq.trace
      apply hacc.silent hget htrace _ hq.received hq.session.pendingQos2
      · exact Sect.reaction?_of_plain hplain
      · exact reaction?_of_plain_tasks hks
      · intro e he
        exact Event.reaction?_of_plain (hes e he)
      · intro e he
        exact History.after_of_plain (hes e he)
  | forwards hsect ht =>
      have htrace : cfg.shared.trace = cfg.shared.trace ++ [] := by simp
      refine hacc.trades hget htrace (by simp) rfl rfl ?_
      intro k r _
      simp [Origin.tasks, owes, hsect, Sect.reaction?, reactionsTo]
  | drops hsect ht hks =>
      have htrace : cfg.shared.trace = cfg.shared.trace ++ [] := by simp
      refine hacc.trades hget htrace (by simp) rfl rfl ?_
      intro k r hr
      have hnot : task.sect.reaction? ≠ some r := by
        intro hreaction
        rw [hsect] at hreaction
        obtain rfl := Option.some.inj hreaction
        exact hsend _ hsect hr ht
      rw [weight_of_plain hks]
      simp [reactionsTo, owes, hnot]
  | @sends t packet _ hsect hks =>
      have htrace : (cfg.shared.log task.origin (.sending t packet .handler)).trace =
          cfg.shared.trace ++ [(task.origin, .sending t packet .handler)] := rfl
      refine hacc.trades hget htrace (by simp [History.after]) rfl rfl ?_
      intro k r _
      apply trade_of_shown _ hks
      rw [hsect]
      rfl
  | @notifies c _ hsect hreaction hks =>
      have hsame : (Event.callback c).reaction? = task.sect.reaction? := by
        rw [hsect] at hreaction ⊢
        cases c with
        | message | publishAck => rfl
        | connected | disconnected | error => cases hreaction
      have htrace : (cfg.shared.log task.origin (.callback c)).trace =
          cfg.shared.trace ++ [(task.origin, .callback c)] := rfl
      refine hacc.trades hget htrace (by simp [History.after]) rfl rfl ?_
      intro k r _
      exact trade_of_shown hsame hks k r
  | begins hplain hks =>
      exact hacc.silent hget rfl (by simp [History.after]) rfl rfl (Sect.reaction?_of_plain hplain)
        (reaction?_of_plain_tasks hks) (by simp [Event.reaction?])
  | stores t hplain hks =>
      exact hacc.silent hget rfl (by simp [History.after]) rfl rfl (Sect.reaction?_of_plain hplain)
        (reaction?_of_plain_tasks hks) (by simp [Event.reaction?])
  | arrives hsect hks =>
      exact hacc.silent hget rfl (by simp [History.after]) rfl rfl (by rw [hsect]; rfl)
        (reaction?_of_plain_tasks hks) (by simp [Event.reaction?])
  | overflows hsect hks =>
      exact hacc.silent hget (List.append_assoc _ _ _) (by simp [History.after]) rfl rfl
        (by rw [hsect]; rfl) (reaction?_of_plain_tasks hks) (by simp [Event.reaction?])
  | takes hsect htake =>
      exact hacc.silent hget rfl (by simp [History.after]) rfl rfl (by rw [hsect]; rfl)
        (by simp [Origin.tasks, Sect.reaction?]) (by simp [Event.reaction?])
  | handles hsect => exact hacc.handles hget hsect
  | tearsDown hsect hks => exact hacc.tearsDown hget rfl rfl rfl hsect hks

/-- Every step keeps the account. -/
theorem Accounts.step {cfg cfg' : Config} {l : Label} (hacc : Accounts counted cfg)
    (hok : FindsTransport counted cfg l) (h : program.step cfg l = some cfg') :
    Accounts counted cfg' := by
  obtain ⟨e, w', q, rfl, hentry, rfl⟩ | ⟨i, c, task, ks, w', ks', rfl, hget, hexec, rfl⟩ :=
    Sections.Program.step_cases h
  · obtain ⟨hq, hplain⟩ := Conn.entry_quiet hentry
    obtain ⟨es, hes, htrace⟩ := hq.trace
    apply hacc.of_trade htrace _ hq.received hq.session.pendingQos2
    · intro k r _
      have hload := Sections.load_start (owes k r) cfg.shared w' cfg.threads q
      rw [weight_of_plain hplain] at hload
      rw [reactionsTo_of_plain k hes, hload]
      simp
    · intro e he
      exact History.after_of_plain (hes e he)
  · apply Effect.accounts (Conn.exec_effect hexec) hget hacc
    intro packet hsect
    apply hok packet
    obtain ⟨o, s⟩ := task
    simp only at hsect
    subst hsect
    cases c with
    | go => simp [acknowledging, hget]
    | now | answer | data | closed | timeout | call => cases hexec

theorem accounts_initial : Accounts counted initial :=
  ⟨rfl, fun _ => rfl, fun _ _ _ => by simp [initial, reactionsTo, historyOf, History.asked,
    Sections.load]⟩

/-- Every run in which the handlers whose reactions count find a transport keeps the account. -/
theorem accounts_run {ls : List Label} {cfg : Config}
    (h : Runs.Along program.step (fun cfg l _ => FindsTransport counted cfg l) initial ls)
    (hrun : Runs.exec program.step initial ls = some cfg) : Accounts counted cfg :=
  h.invariant (fun _ _ _ hacc hok hstep => hacc.step hok hstep) accounts_initial hrun

/-- Once nothing is owed for a packet, its counted reactions are those that it asked for. -/
theorem Accounts.count_eq {cfg : Config} (h : Accounts counted cfg) {k : ℕ}
    (hanswered : Answered k cfg) {r : Reaction} (hr : counted r) :
    (reactionsTo k cfg.shared.trace).count r =
      ((historyOf cfg.shared.trace).asked k).count r := by
  have hzero : Sections.load (owes k r) cfg = 0 := by
    apply Sections.weight_eq_zero
    intro q hq
    apply Sections.weight_eq_zero
    intro task htask
    unfold owes
    rw [if_neg]
    rintro ⟨ho, hreaction⟩
    rw [hanswered q hq task htask ho] at hreaction
    cases hreaction
  rw [← h.balance k r hr, hzero, Nat.add_zero]

/-! ## Within one connection -/

/-- In every run in which the acknowledgements find a transport, a packet that was handled shows
exactly the reactions that it asks for behind the packets of its connection. -/
theorem run_reactions {ls : List Label} {cfg : Config}
    (hfinds : Runs.Along program.step (fun cfg l _ => FindsTransport (fun _ => True) cfg l)
      initial ls)
    (hrun : Runs.exec program.step initial ls = some cfg) {k : ℕ} {before : List MqttPacket}
    {p : MqttPacket} (hk : (historyOf cfg.shared.trace).packets[k]? = some (before, p))
    (hanswered : Answered k cfg) :
    (reactionsTo k cfg.shared.trace).Perm (asked (heldMessage before) p) := by
  rw [List.perm_iff_count]
  intro r
  rw [(accounts_run hfinds hrun).count_eq hanswered trivial]
  simp only [History.asked, hk]

/-- A QoS 2 PUBLISH, its repetition and two PUBRELs: the message is delivered at the first PUBREL. -/
def qosTwoStream : Bytes :=
  acceptingConnack ++ encodePublish 1 [116] [109] 2 false ++ encodePublish 1 [117] [110] 2 false ++
    encodePacketIdAck .kPubrel 1 ++ encodePacketIdAck .kPubrel 1

/-- All sections of a delivery whose transport accepts everything. -/
def qosTwoLabels : List Label :=
  let handled : List Label := [.run 1 .go, .run 1 .go]
  let sends : List Label :=
    [.run 1 .go, .run 1 .go, .run 1 (.answer (.ok 4)), .run 1 (.now 1), .run 1 .go]
  let called : List Label := [.run 1 .go, .run 1 .go]
  [.start (.data 0 qosTwoStream), .run 1 .go] ++ handled ++ handled ++ sends ++ handled ++ sends ++
    handled ++ sends ++ called ++ handled ++ sends ++ [.run 1 .go]

theorem run_reactions_released :
    ∃ cfg before p, Runs.exec program.step initial (connectLabels ++ qosTwoLabels) = some cfg ∧
      (historyOf cfg.shared.trace).packets[3]? = some (before, p) ∧
      releasedId p = some 1 ∧
      (reactionsTo 3 cfg.shared.trace).Perm (asked (heldMessage before) p) ∧
      (reactionsTo 3 cfg.shared.trace).length = 2 := by
  have hrun : (Runs.exec program.step initial (connectLabels ++ qosTwoLabels)).map
      (fun cfg => (decide (Answered 3 cfg),
        (historyOf cfg.shared.trace).packets[3]?.map fun x => releasedId x.2,
        (reactionsTo 3 cfg.shared.trace).length)) = some (true, some (some 1), 2) := by
    decide +kernel
  obtain ⟨cfg, hcfg, hfacts⟩ := Option.map_eq_some_iff.mp hrun
  obtain ⟨hanswered, hfacts⟩ := Prod.mk.inj hfacts
  obtain ⟨hpacket, hlength⟩ := Prod.mk.inj hfacts
  obtain ⟨⟨before, p⟩, hk, hreleased⟩ := Option.map_eq_some_iff.mp hpacket
  exact ⟨cfg, before, p, hcfg, hk, hreleased,
    run_reactions (by decide +kernel) hcfg hk (of_decide_eq_true hanswered), hlength⟩

/-! ## Across connections -/

/-- Every message of the session shows where the packets handled on all its connections ask for
it. -/
def DeliversAcross (cfg : Config) : Prop :=
  ∀ k p, ((historyOf cfg.shared.trace).packets.map Prod.snd)[k]? = some p → Answered k cfg →
    ((reactionsTo k cfg.shared.trace).filter Reaction.isMessage).Perm
      ((asked (heldMessage (((historyOf cfg.shared.trace).packets.map Prod.snd).take k)) p).filter
        Reaction.isMessage)

/-- Whether a step is that of `Teardown`. -/
def tearing (cfg : Config) : Label → Bool
  | .run i .go =>
      match cfg.threads[i]? with
      | some (⟨_, .teardown _⟩ :: _) => true
      | _ => false
  | _ => false

/-- A `Teardown` finds no message held. -/
def TearsDownEmpty (cfg : Config) (l : Label) : Prop :=
  tearing cfg l = true → cfg.shared.client.pendingQos2 = []

instance (cfg : Config) (l : Label) : Decidable (TearsDownEmpty cfg l) :=
  inferInstanceAs (Decidable (_ → _))

/-- Every `Connect` asks the broker to keep the session. -/
def keepsSession : Label → Bool
  | .start (.call (.connect _ _ cleanSession)) => !cleanSession
  | .run _ (.call (.connect _ _ cleanSession)) => !cleanSession
  | _ => true

/-- The packets of the connection hold the messages that all packets hold, and did so whenever a
packet was handled. -/
structure Spans (h : History) : Prop where
  now : heldMessage h.connection = heldMessage (h.packets.map Prod.snd)
  before : ∀ k x, h.packets[k]? = some x →
    heldMessage x.1 = heldMessage ((h.packets.map Prod.snd).take k)

theorem Spans.received {h : History} (hspans : Spans h) (n : ℕ) (p : MqttPacket) :
    Spans (h.after (.received n p)) := by
  have hpackets : (h.after (.received n p)).packets = h.packets ++ [(h.connection, p)] := rfl
  constructor
  · funext id
    rw [hpackets, List.map_append]
    simp only [History.after, List.map_cons, List.map_nil, heldMessage_snoc, hspans.now]
  · intro k x hx
    rw [hpackets] at hx ⊢
    rw [List.map_append]
    obtain hlt | hge := Nat.lt_or_ge k h.packets.length
    · rw [List.getElem?_append_left hlt] at hx
      rw [List.take_append_of_le_length (by simpa using Nat.le_of_lt hlt)]
      exact hspans.before k x hx
    · have hk : k = h.packets.length := by
        have := (List.getElem?_eq_some_iff.mp hx).1
        rw [List.length_append, List.length_singleton] at this
        omega
      subst hk
      obtain rfl : (h.connection, p) = x := by simpa using hx
      rw [List.take_left' (by simp)]
      exact hspans.now

/-- A `Teardown` with nothing to hold breaks nothing off. -/
theorem Spans.tornDown {h : History} (hspans : Spans h)
    (hnone : ∀ id, heldMessage h.connection id = none) : Spans (h.after .tornDown) := by
  constructor
  · funext id
    have hnow := congrFun hspans.now id
    rw [hnone id] at hnow
    exact hnow
  · exact hspans.before

/-- What a section adds to the history: a packet, the end of a connection, or nothing. -/
theorem Effect.history {task : Task} {w w' : Conn} {ks : List Task}
    (h : Conn.Effect task w w' ks) :
    historyOf w'.trace = historyOf w.trace ∨
      (∃ n p, historyOf w'.trace = (historyOf w.trace).after (.received n p)) ∨
      (∃ b, task.sect = .teardown b ∧
        historyOf w'.trace = (historyOf w.trace).after .tornDown) := by
  cases h with
  | quiet _ hq _ =>
      obtain ⟨es, hes, htrace⟩ := hq.trace
      left
      rw [htrace, historyOf_append _ fun e he => History.after_of_plain (hes e he)]
  | forwards | drops => exact .inl rfl
  | begins | stores | sends | notifies | arrives | takes =>
      left
      exact historyOf_snoc _ _
  | overflows =>
      left
      rw [Conn.log_trace, historyOf_snoc]
      exact historyOf_snoc _ _
  | handles => exact .inr (.inl ⟨_, _, historyOf_snoc _ _⟩)
  | tearsDown hsect => exact .inr (.inr ⟨_, hsect, historyOf_snoc _ _⟩)

/-- A step that tears nothing off keeps every cycle in one piece. -/
theorem Spans.step {cfg cfg' : Config} {l : Label} (hacc : Accounts counted cfg)
    (hspans : Spans (historyOf cfg.shared.trace)) (hok : TearsDownEmpty cfg l)
    (h : program.step cfg l = some cfg') : Spans (historyOf cfg'.shared.trace) := by
  obtain ⟨e, w', q, rfl, hentry, rfl⟩ | ⟨i, c, task, ks, w', ks', rfl, hget, hexec, rfl⟩ :=
    Sections.Program.step_cases h
  · obtain ⟨es, hes, htrace⟩ := (Conn.entry_quiet hentry).1.trace
    rw [htrace, historyOf_append _ fun e he => History.after_of_plain (hes e he)]
    exact hspans
  · obtain hsame | ⟨n, p, hreceived⟩ | ⟨b, hsect, htorn⟩ :=
      Effect.history (Conn.exec_effect hexec)
    · rw [hsame]
      exact hspans
    · rw [hreceived]
      exact hspans.received n p
    · rw [htorn]
      apply hspans.tornDown
      have hempty : cfg.shared.client.pendingQos2 = [] := by
        apply hok
        obtain ⟨o, s⟩ := task
        simp only at hsect
        subst hsect
        cases c with
        | go => simp [tearing, hget]
        | now | answer | data | closed | timeout | call => cases hexec
      intro id
      rw [← hacc.held id, hempty]
      rfl

/-- Over every run whose `Teardown`s find no message held, a QoS 2 message is delivered exactly once
for its cycle, whatever connections the cycle spans. -/
theorem run_deliversAcross {ls : List Label} {cfg : Config}
    (hempty : Runs.Along program.step (fun cfg l _ => TearsDownEmpty cfg l) initial ls)
    (hrun : Runs.exec program.step initial ls = some cfg) : DeliversAcross cfg := by
  have hinv : Accounts (fun r => r.isMessage = true) cfg ∧ Spans (historyOf cfg.shared.trace) := by
    refine hempty.invariant (I := fun cfg => Accounts (fun r => r.isMessage = true) cfg ∧
      Spans (historyOf cfg.shared.trace)) ?_ ⟨accounts_initial, ?_⟩ hrun
    · rintro s l s' ⟨hacc, hspans⟩ hok hstep
      refine ⟨hacc.step ?_ hstep, hspans.step hacc hok hstep⟩
      intro packet _ hmessage
      cases hmessage
    · exact ⟨rfl, by simp [historyOf, initial]⟩
  obtain ⟨hacc, hspans⟩ := hinv
  intro k p hk hanswered
  rw [List.getElem?_map, Option.map_eq_some_iff] at hk
  obtain ⟨⟨before, p'⟩, hk, rfl⟩ := hk
  rw [← hspans.before k _ hk, List.perm_iff_count]
  intro r
  by_cases hr : r.isMessage = true
  · rw [List.count_filter hr, List.count_filter hr, hacc.count_eq hanswered hr]
    simp only [History.asked, hk]
  · have hnone : ∀ l : List Reaction, (l.filter Reaction.isMessage).count r = 0 := by
      intro l
      rw [List.count_eq_zero]
      intro hmem
      exact hr (List.mem_filter.mp hmem).2
    rw [hnone, hnone]

/-- A client without keep-alive connects with transport `t` and awaits the CONNACK in thread `i`. -/
def resumeLabels (i : ℕ) : List Label :=
  [.start (.call (.connect [104] 1883 false)), .run i .go, .run i (.answer (.ok 0)),
    .run i (.answer (.ok 0)), .run i .go, .run i .go, .run i .go, .run i (.answer (.ok 14)),
    .run i (.now 1), .run i .go]

/-- A CONNACK and a packet that is acknowledged arrive on transport `t`, are handled by thread `i`,
and the `Connect` of thread `j` returns. -/
def resumedLabels (t i j : ℕ) (connack packet : Bytes) : List Label :=
  [.start (.data t (connack ++ packet)), .run i .go, .run i .go, .run i .go, .run j .go, .run j .go,
    .run j .go, .run j .go, .run j .go, .run i .go, .run i .go, .run i .go, .run i .go,
    .run i (.answer (.ok 4)), .run i (.now 1), .run i .go, .run i .go]

/-- A QoS 2 PUBLISH is acknowledged, the link is lost, and the PUBREL arrives on the next
connection of the session. -/
def releasedLater : List Label :=
  [.start (.call (.setKeepAlive 0)), .run 0 .go] ++ resumeLabels 1 ++
    resumedLabels 0 2 1 (frame .kConnack 0 [0, 0]) (encodePublish 1 [116] [109] 2 false) ++
    [.start (.closed 0), .run 3 .go, .run 3 .go, .run 3 .go, .run 3 .go, .run 3 .go, .run 3 .go,
      .run 3 .go] ++
    resumeLabels 4 ++
    resumedLabels 1 5 4 (frame .kConnack 0 [1, 0]) (encodePacketIdAck .kPubrel 1)

theorem run_deliversAcross_connection :
    ∃ cfg, Runs.exec program.step initial (connectLabels ++ qosTwoLabels) = some cfg ∧
      (reactionsTo 3 cfg.shared.trace).any Reaction.isMessage = true ∧ DeliversAcross cfg := by
  have hrun : (Runs.exec program.step initial (connectLabels ++ qosTwoLabels)).map
      (fun cfg => (reactionsTo 3 cfg.shared.trace).any Reaction.isMessage) = some true := by
    decide +kernel
  obtain ⟨cfg, hcfg, hmessage⟩ := Option.map_eq_some_iff.mp hrun
  exact ⟨cfg, hcfg, hmessage, run_deliversAcross (by decide +kernel) hcfg⟩

/-- The message that is released on a later connection is lost. -/
theorem releasedLater_lost :
    ¬ ∀ ls cfg, (∀ l ∈ ls, keepsSession l = true) →
      Runs.exec program.step initial ls = some cfg → DeliversAcross cfg := by
  intro h
  have hrun : (Runs.exec program.step initial releasedLater).map
      (fun cfg => (decide (Answered 3 cfg),
        ((historyOf cfg.shared.trace).packets.map Prod.snd)[3]?.map fun p =>
          ((asked (heldMessage (((historyOf cfg.shared.trace).packets.map Prod.snd).take 3))
            p).filter Reaction.isMessage).length,
        ((reactionsTo 3 cfg.shared.trace).filter Reaction.isMessage).length)) =
      some (true, some 1, 0) := by decide +kernel
  obtain ⟨cfg, hcfg, hfacts⟩ := Option.map_eq_some_iff.mp hrun
  obtain ⟨hanswered, hfacts⟩ := Prod.mk.inj hfacts
  obtain ⟨hasked, hshown⟩ := Prod.mk.inj hfacts
  obtain ⟨p, hk, hasked⟩ := Option.map_eq_some_iff.mp hasked
  have hperm := h releasedLater cfg (by decide) hcfg 3 p hk (of_decide_eq_true hanswered)
  have hlength := hperm.length_eq
  rw [hasked, hshown] at hlength
  cases hlength

end EspModemLink.Mqtt
