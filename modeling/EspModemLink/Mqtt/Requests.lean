import EspModemLink.Mqtt.ClientSteps
import EspModemLink.Mqtt.Encoding

/-!
# What a request hands to the transport

A call of `Connect`, `Publish`, `Subscribe` or `Unsubscribe`, followed section by section through
any interleaving with other threads: it hands over its packet at most once, and returns an error if
it does not.
-/

namespace EspModemLink.Mqtt

open Bytes Http

/-! ## What was asked and what was done -/

/-- The request that a call makes of its arguments and the members it finds. -/
def requested (client : SoftwareMqttClient) : Call → Option Request
  | .connect _ _ cleanSession => some (.connect (Conn.connectOptions client cleanSession))
  | .publish topic payload qos retain =>
      some (.publish (if 0 < qos.toNat then Conn.nextPacketId client.lastPacketId else 0) topic
        payload qos retain)
  | .subscribe topic qos => some (.subscribe (Conn.nextPacketId client.lastPacketId) topic qos)
  | .unsubscribe topic => some (.unsubscribe (Conn.nextPacketId client.lastPacketId) topic)
  | _ => none

/-- The events of one origin. -/
def eventsOf (o : Origin) (trace : List (Origin × Event)) : List Event :=
  (trace.filter fun e => e.1 == o).map Prod.snd

/-- The packets handed to transports. -/
def handed (events : List Event) : List Bytes :=
  events.filterMap fun e => match e with
    | .sending _ packet _ => some packet
    | _ => none

/-- What was returned. -/
def results (events : List Event) : List Returned :=
  events.filterMap fun e => match e with
    | .returned result => some result
    | _ => none

/-- What a call may return for a request: the packet id of a PUBLISH or SUBSCRIBE, or an error. -/
def Reports (r : Request) (x : Returned) : Prop :=
  (∃ e, x = .error e) ∨ x = .ok (match r with
    | .publish packetId .. => some packetId
    | .subscribe packetId .. => some packetId
    | .connect _ | .unsubscribe .. => none)

/-- The call failed with nothing handed over, or handed over one packet that the broker reads back
as the request. `Teardown` says goodbye behind a CONNECT that was not answered in time. -/
def Encoded (r : Request) (packets : List Bytes) (x : Returned) : Prop :=
  Reports r x ∧ (packets = [] ∧ (∃ e, x = .error e) ∨
    ∃ packet, Recovers packet r ∧
      (packets = [packet] ∨ packets = [packet, encodeDisconnect] ∧ x = .error Conn.connackTimeout))

/-! ## Sections that end a call -/

/-- A section behind the packet of the call. -/
def Sect.closes : Sect → Bool
  | .teardown _ | .stopLoop | .clearPing | .transportDisconnect _ | .disconnecting _
  | .startKeepAlive | .stopKeepAlive | .joining | .storeLastSent | .setRunning | .createTask
  | .callback _ | .inCallback | .dropTopic _ => true
  | .transportSend _ packet .goodbye => packet == encodeDisconnect
  | .sending _ _ .goodbye => true
  | _ => false

/-- The DISCONNECT packets that a section may still hand over. -/
def goodbyes : Sect → ℕ
  | .teardown true => 1
  | .transportSend .. => 1
  | _ => 0

/-- The caller of `SendPacket` for a request. -/
def Asks : SendCaller → Request → Prop
  | .connect, .connect _ => True
  | .publish packetId, .publish packetId' .. => packetId = packetId'
  | .subscribe packetId, .subscribe packetId' .. => packetId = packetId'
  | .unsubscribe packetId, .unsubscribe packetId' .. => packetId = packetId'
  | _, _ => False

/-- How far a call has come: the sections it has left, the packets it has handed over and what it
has returned. -/
inductive Progress (r : Request) : List Sect → List Bytes → List Returned → Prop
  | creating {t : ℕ} {tls : Bool} {config : TlsConfig} {host : Bytes} {port : ℕ}
      {options : MqttConnectOptions} (hr : r = .connect options) :
      Progress r [.create t tls config host port options] [] []
  | connecting {t : ℕ} {host : Bytes} {port : ℕ} {options : MqttConnectOptions}
      (hr : r = .connect options) : Progress r [.transportConnect t host port options] [] []
  | storing {t : ℕ} {options : MqttConnectOptions} (hr : r = .connect options) :
      Progress r [.store t options] [] []
  | asking {caller : SendCaller} (h : Asks caller r) :
      Progress r [.sendPacket r.encode caller] [] []
  | handing {t : ℕ} {caller : SendCaller} (h : Asks caller r) :
      Progress r [.transportSend t r.encode caller] [] []
  | sending {t : ℕ} {caller : SendCaller} (h : Asks caller r) :
      Progress r [.sending t r.encode caller] [r.encode] []
  | stamping {caller : SendCaller} (h : Asks caller r) :
      Progress r [.storeLastSent, .packetSent caller (.ok ())] [r.encode] []
  | sent {caller : SendCaller} (h : Asks caller r) :
      Progress r [.packetSent caller (.ok ())] [r.encode] []
  | failed {caller : SendCaller} {e : NetworkError} {packets : List Bytes} (h : Asks caller r)
      (hpackets : packets = [] ∨ packets = [r.encode]) :
      Progress r [.packetSent caller (.error e)] packets []
  | awaiting {options : MqttConnectOptions} (hr : r = .connect options) :
      Progress r [.await] [r.encode] []
  | closing {sects : List Sect} {packets : List Bytes} {n : ℕ} {x : Returned}
      (hsects : ∀ s ∈ sects, s.closes = true) (hx : Reports r x)
      (hpackets : packets = [] ∧ (∃ e, x = .error e) ∨ packets = [r.encode])
      (hone : n + Sections.weight goodbyes sects ≤ 1)
      (hbye : 0 < n + Sections.weight goodbyes sects →
        packets = [r.encode] ∧ x = .error Conn.connackTimeout) :
      Progress r (sects ++ [.returned x]) (packets ++ List.replicate n encodeDisconnect) []
  | done {packets : List Bytes} {n : ℕ} {x : Returned} (hx : Reports r x)
      (hpackets : packets = [] ∧ (∃ e, x = .error e) ∨ packets = [r.encode]) (hone : n ≤ 1)
      (hbye : 0 < n → packets = [r.encode] ∧ x = .error Conn.connackTimeout) :
      Progress r [] (packets ++ List.replicate n encodeDisconnect) [x]

/-- What a call that has returned handed over. -/
theorem Progress.encoded_iff {r : Request} {sects : List Sect} {packets : List Bytes}
    {results : List Returned} (h : Progress r sects packets results) (hformed : r.Formed)
    {x : Returned} (hx : x ∈ results) :
    (packets = [] → Encoded r packets x) ∧ (packets ≠ [] → (Encoded r packets x ↔ r.Fits)) := by
  cases h with
  | @done packets n x' hreports hpackets hone hbye =>
      obtain rfl := List.mem_singleton.mp hx
      obtain ⟨rfl, herror⟩ | rfl := hpackets
      · obtain rfl | hpos := Nat.eq_zero_or_pos n
        · exact ⟨fun _ => ⟨hreports, .inl ⟨rfl, herror⟩⟩, fun h => absurd rfl h⟩
        · exact absurd (hbye hpos).1 (by simp)
      · refine ⟨fun h => by simp at h, fun _ => ?_⟩
        rw [← recovers_encode_iff hformed]
        constructor
        · rintro ⟨-, ⟨hnone, -⟩ | ⟨packet, hrecovers, hsame | ⟨hsame, -⟩⟩⟩
          · simp at hnone
          · obtain rfl : r.encode = packet := by simpa using congrArg List.head? hsame
            exact hrecovers
          · obtain rfl : r.encode = packet := by simpa using congrArg List.head? hsame
            exact hrecovers
        · intro hrecovers
          refine ⟨hreports, .inr ⟨r.encode, hrecovers, ?_⟩⟩
          obtain rfl | rfl : n = 0 ∨ n = 1 := by omega
          · exact .inl rfl
          · exact .inr ⟨rfl, (hbye Nat.one_pos).2⟩
  | creating | connecting | storing | asking | handing | sending | stamping | sent | failed
  | awaiting | closing => simp at hx

/-! ## One section of a call -/

/-- A section leaves `sects` in its place and adds `es` to what has happened. -/
structure Does (o : Origin) (w w' : Conn) (ks : List Task) (sects : List Sect)
    (es : List Event) : Prop where
  calls : w'.calls = w.calls
  trace : w'.trace = w.trace ++ es.map (Prod.mk o)
  tasks : ks = o.tasks sects

theorem Does.of_push {o : Origin} {w v w' : Conn} {sects : List Sect} {ks : List Task}
    (h : some (v, o.tasks sects) = some (w', ks)) (es : List Event) (hcalls : v.calls = w.calls)
    (htrace : v.trace = w.trace ++ es.map (Prod.mk o)) : Does o w w' ks sects es := by
  obtain ⟨rfl, rfl⟩ := Prod.mk.inj (Option.some.inj h)
  exact ⟨hcalls, htrace, rfl⟩

/-- A section stays behind the first section of a delivery or of another call. -/
def Stays (task : Task) (w w' : Conn) (ks : List Task) : Prop :=
  ∃ first, ks = [first, task] ∧ (w' = w ∧ (∃ t, first.origin = .delivery t) ∨
    ∃ c, w' = (w.newCall c).1 ∧ first = (w.newCall c).2)

theorem stays_of_deliverWithin {task : Task} {w w' : Conn} {c : Choice} {ks : List Task}
    (h : w.deliverWithin task c = some (w', ks)) : Stays task w w' ks := by
  simp only [Conn.deliverWithin, Option.map_eq_some_iff, Prod.mk.injEq] at h
  obtain ⟨first, hfirst, rfl, rfl⟩ := h
  exact ⟨first, rfl, .inl ⟨rfl, Conn.delivery_origin hfirst⟩⟩

/-- What a section behind the packet of a call leaves and adds. -/
structure Closes (s : Sect) (sects : List Sect) (es : List Event) : Prop where
  closing : ∀ k ∈ sects, k.closes = true
  silent : results es = []
  goodbye : ∃ m, handed es = List.replicate m encodeDisconnect ∧
    m + Sections.weight goodbyes sects ≤ goodbyes s

/-- A section that hands nothing over. -/
theorem Closes.quiet {s : Sect} {sects : List Sect} {es : List Event}
    (hsects : ∀ k ∈ sects, k.closes = true) (hresults : results es = [])
    (hhanded : handed es = []) (hweight : Sections.weight goodbyes sects ≤ goodbyes s) :
    Closes s sects es := ⟨hsects, hresults, 0, hhanded, by simpa using hweight⟩

theorem closes_endTransport (b : Bool) (transport : Option ℕ) :
    (∀ k ∈ Conn.endTransport b transport, k.closes = true) ∧
      Sections.weight goodbyes (Conn.endTransport b transport) ≤ goodbyes (.teardown b) := by
  cases transport with
  | none => simp [Conn.endTransport]
  | some t => cases b <;> simp [Conn.endTransport, Sect.closes, goodbyes]

/-- A section behind the packet of a call stays so. -/
theorem closes_step {o : Origin} {s : Sect} {c : Choice} {w w' : Conn} {ks : List Task}
    (hs : s.closes = true) (h : Conn.exec ⟨o, s⟩ c w = some (w', ks)) :
    Stays ⟨o, s⟩ w w' ks ∨ ∃ sects es, Does o w w' ks sects es ∧ Closes s sects es := by
  cases s with
  | teardown b =>
      cases c with
      | go =>
          right
          obtain ⟨hsects, hweight⟩ := closes_endTransport b w.client.transport
          refine ⟨_, [.tornDown], .of_push h _ rfl rfl, .quiet ?_ rfl rfl ?_⟩
          · intro k hk
            simp only [Conn.teardown, List.mem_append, List.mem_cons, List.not_mem_nil,
              or_false] at hk
            obtain (rfl | rfl) | hk := hk
            · rfl
            · rfl
            · exact hsects k hk
          · simpa [Conn.teardown, goodbyes] using hweight
      | now | answer | data | closed | timeout | call => cases h
  | stopLoop | clearPing | startKeepAlive | stopKeepAlive | setRunning | dropTopic =>
      cases c with
      | go =>
          right
          refine ⟨_, [], .of_push h _ rfl (by simp), .quiet ?_ rfl rfl ?_⟩ <;>
            simp only [Conn.startKeepAlive] <;> (try split) <;> simp [Sect.closes, goodbyes]
      | now | answer | data | closed | timeout | call => cases h
  | joining | createTask =>
      cases c with
      | go =>
          right
          obtain ⟨v, hv, hpush⟩ := Option.bind_eq_some_iff.mp h
          simp only [Conn.joining, Conn.createTask] at hv
          split at hv
          · obtain rfl := Option.some.inj hv
            exact ⟨_, [], .of_push hpush _ rfl (by simp), .quiet (by simp) rfl rfl (by simp)⟩
          · cases hv
      | now | answer | data | closed | timeout | call => cases h
  | storeLastSent =>
      cases c with
      | now ms =>
          right
          obtain ⟨v, hclock, h⟩ := Option.bind_eq_some_iff.mp h
          simp only [Conn.readClock] at hclock
          split at hclock
          · obtain rfl := Option.some.inj hclock
            exact ⟨_, [], .of_push h _ rfl (by simp), .quiet (by simp) rfl rfl (by simp)⟩
          · cases hclock
      | go | answer | data | closed | timeout | call => cases h
  | transportDisconnect t =>
      cases c with
      | go =>
          exact .inr ⟨_, [.disconnected t], .of_push h _ rfl rfl,
            .quiet (by simp [Sect.closes]) rfl rfl (by simp [goodbyes])⟩
      | now | answer | data | closed | timeout | call => cases h
  | disconnecting t =>
      cases c with
      | go => exact .inr ⟨_, [], .of_push h _ rfl (by simp), .quiet (by simp) rfl rfl (by simp)⟩
      | data | closed => exact .inl (stays_of_deliverWithin h)
      | now | answer | timeout | call => cases h
  | callback call =>
      cases c with
      | go =>
          exact .inr ⟨_, [.callback call], .of_push h _ rfl rfl,
            .quiet (by simp [Sect.closes]) rfl rfl (by simp [goodbyes])⟩
      | now | answer | data | closed | timeout | call => cases h
  | inCallback =>
      cases c with
      | go => exact .inr ⟨_, [], .of_push h _ rfl (by simp), .quiet (by simp) rfl rfl (by simp)⟩
      | call c =>
          obtain ⟨rfl, rfl⟩ := Prod.mk.inj (Option.some.inj h)
          exact .inl ⟨_, rfl, .inr ⟨c, rfl, rfl⟩⟩
      | now | answer | data | closed | timeout => cases h
  | transportSend t packet caller =>
      cases caller with
      | goodbye =>
          obtain rfl : packet = encodeDisconnect := by simpa [Sect.closes] using hs
          cases c with
          | go =>
              right
              exact ⟨_, [.sending t encodeDisconnect .goodbye], .of_push h _ rfl rfl,
                by simp [Sect.closes], rfl, 1, rfl, by simp [goodbyes]⟩
          | now | answer | data | closed | timeout | call => cases h
      | connect | publish | subscribe | unsubscribe | handler | keepAlive => cases hs
  | sending t packet caller =>
      cases caller with
      | goodbye =>
          cases c with
          | answer result =>
              have hsent : Conn.sent .goodbye result = [] := by cases result <;> rfl
              refine .inr ⟨_, [.sent t packet .goodbye result], .of_push h _ rfl rfl,
                .quiet ?_ rfl rfl ?_⟩ <;> simp [hsent]
          | data | closed => exact .inl (stays_of_deliverWithin h)
          | go | now | timeout | call => cases h
      | connect | publish | subscribe | unsubscribe | handler | keepAlive => cases hs
  | call | create | transportConnect | store | await | sendPacket | packetSent | onTransportData
  | takePackets | handlePacket | keepAliveBegin | keepAliveLoop | keepAliveTick | keepAliveNow
  | keepAlivePing | keepAliveIdle | storePing | keepAliveEnd | returned => cases hs

/-- The end of a call that handed nothing over, or only its packet. -/
theorem Progress.ends {r : Request} (sects : List Sect) {packets : List Bytes} {x : Returned}
    (hsects : ∀ s ∈ sects, s.closes = true) (hx : Reports r x)
    (hpackets : packets = [] ∧ (∃ e, x = .error e) ∨ packets = [r.encode])
    (hbye : Sections.weight goodbyes sects = 0) :
    Progress r (sects ++ [Sect.returned x]) packets [] := by
  have h := Progress.closing (n := 0) hsects hx hpackets (by omega) (by omega)
  simpa using h

/-- The error of a call that handed nothing over or its packet. -/
theorem Progress.fails {r : Request} (sects : List Sect) {packets : List Bytes} (e : NetworkError)
    (hsects : ∀ s ∈ sects, s.closes = true) (hbye : Sections.weight goodbyes sects = 0)
    (hpackets : packets = [] ∨ packets = [r.encode]) :
    Progress r (sects ++ [.returned (.error e)]) packets [] := by
  apply Progress.ends sects hsects (.inl ⟨e, rfl⟩) _ hbye
  obtain h | h := hpackets
  · exact .inl ⟨h, e, rfl⟩
  · exact .inr h

/-- What the caller of `SendPacket` makes of its result. -/
theorem progress_packetSent {r : Request} {caller : SendCaller} (h : Asks caller r) :
    Progress r (Conn.packetSent caller (.ok ())) [r.encode] [] ∧
      ∀ e packets, packets = [] ∨ packets = [r.encode] →
        Progress r (Conn.packetSent caller (.error e)) packets [] := by
  cases r with
  | connect options =>
      cases caller with
      | connect =>
          exact ⟨.awaiting rfl, fun e packets hpackets =>
            .fails [.teardown false] e (by simp [Sect.closes]) rfl hpackets⟩
      | publish | subscribe | unsubscribe | handler | keepAlive | goodbye => cases h
  | publish packetId =>
      cases caller with
      | publish id =>
          obtain rfl : id = packetId := h
          exact ⟨.ends [] (by simp) (.inr rfl) (.inr rfl) rfl,
            fun e packets hpackets => .fails [] e (by simp) rfl hpackets⟩
      | connect | subscribe | unsubscribe | handler | keepAlive | goodbye => cases h
  | subscribe packetId =>
      cases caller with
      | subscribe id =>
          obtain rfl : id = packetId := h
          exact ⟨.ends [] (by simp) (.inr rfl) (.inr rfl) rfl,
            fun e packets hpackets =>
              .fails [.dropTopic id] e (by simp [Sect.closes]) rfl hpackets⟩
      | connect | publish | unsubscribe | handler | keepAlive | goodbye => cases h
  | unsubscribe packetId =>
      cases caller with
      | unsubscribe id =>
          obtain rfl : id = packetId := h
          exact ⟨.ends [] (by simp) (.inr rfl) (.inr rfl) rfl,
            fun e packets hpackets =>
              .fails [.dropTopic id] e (by simp [Sect.closes]) rfl hpackets⟩
      | connect | publish | subscribe | handler | keepAlive | goodbye => cases h

theorem Asks.not_goodbye {r : Request} (h : Asks .goodbye r) : False := by
  cases r <;> exact h

theorem closes_goodbye : ∀ s ∈ [Sect.teardown true], s.closes = true := by simp [Sect.closes]

/-- One section of a call, of a delivery within it, or of a call out of it. -/
theorem Progress.step {r : Request} {s : Sect} {rest : List Sect} {packets : List Bytes}
    {rs : List Returned} (h : Progress r (s :: rest) packets rs) {o : Origin} {c : Choice}
    {w w' : Conn} {ks : List Task} (hexec : Conn.exec ⟨o, s⟩ c w = some (w', ks)) :
    Stays ⟨o, s⟩ w w' ks ∨ ∃ sects es, Does o w w' ks sects es ∧
      Progress r (sects ++ rest) (packets ++ handed es) (rs ++ results es) := by
  generalize hl : s :: rest = l at h
  cases h with
  | @creating t tls config host port options hr =>
      obtain ⟨rfl, rfl⟩ := List.cons.inj hl
      cases c with
      | answer result =>
          right
          cases result with
          | error e =>
              exact ⟨_, [], .of_push hexec _ rfl (by simp [Conn.create]),
                .fails [] e (by simp) rfl (.inl rfl)⟩
          | ok n =>
              exact ⟨_, [.created t tls config, .connecting t host port], .of_push hexec _ rfl
                (by simp [Conn.create]), .connecting hr⟩
      | go | now | data | closed | timeout | call => cases hexec
  | connecting hr =>
      obtain ⟨rfl, rfl⟩ := List.cons.inj hl
      cases c with
      | answer result =>
          right
          cases result with
          | error e =>
              exact ⟨_, [], .of_push hexec _ rfl (by simp),
                .fails [] e (by simp) rfl (.inl rfl)⟩
          | ok n => exact ⟨_, [], .of_push hexec _ rfl (by simp), .storing hr⟩
      | data | closed => exact .inl (stays_of_deliverWithin hexec)
      | go | now | timeout | call => cases hexec
  | storing hr =>
      obtain ⟨rfl, rfl⟩ := List.cons.inj hl
      cases c with
      | go =>
          right
          refine ⟨_, [.stored _], .of_push hexec _ rfl rfl, ?_⟩
          subst hr
          exact .asking trivial
      | now | answer | data | closed | timeout | call => cases hexec
  | @asking caller hasks =>
      obtain ⟨rfl, rfl⟩ := List.cons.inj hl
      cases c with
      | go =>
          right
          refine ⟨_, [], .of_push hexec _ rfl (by simp), ?_⟩
          cases ht : w.client.transport with
          | none =>
              simp only [Conn.sendPacket, ht]
              exact .failed hasks (.inl rfl)
          | some t =>
              simp only [Conn.sendPacket, ht]
              exact .handing hasks
      | now | answer | data | closed | timeout | call => cases hexec
  | @handing t caller hasks =>
      obtain ⟨rfl, rfl⟩ := List.cons.inj hl
      cases c with
      | go => exact .inr ⟨_, [.sending t r.encode caller], .of_push hexec _ rfl rfl, .sending hasks⟩
      | now | answer | data | closed | timeout | call => cases hexec
  | @sending t caller hasks =>
      obtain ⟨rfl, rfl⟩ := List.cons.inj hl
      cases c with
      | answer result =>
          right
          refine ⟨_, [.sent t r.encode caller result], .of_push hexec _ rfl rfl, ?_⟩
          cases caller with
          | goodbye => exact hasks.not_goodbye.elim
          | connect | publish | subscribe | unsubscribe | handler | keepAlive =>
              cases result with
              | error e => exact .failed hasks (.inr rfl)
              | ok n => exact .stamping hasks
      | data | closed => exact .inl (stays_of_deliverWithin hexec)
      | go | now | timeout | call => cases hexec
  | @stamping caller hasks =>
      obtain ⟨rfl, rfl⟩ := List.cons.inj hl
      cases c with
      | now ms =>
          right
          obtain ⟨v, hclock, hexec⟩ := Option.bind_eq_some_iff.mp hexec
          simp only [Conn.readClock] at hclock
          split at hclock
          · obtain rfl := Option.some.inj hclock
            exact ⟨_, [], .of_push hexec _ rfl (by simp), .sent hasks⟩
          · cases hclock
      | go | answer | data | closed | timeout | call => cases hexec
  | @sent caller hasks =>
      obtain ⟨rfl, rfl⟩ := List.cons.inj hl
      cases c with
      | go =>
          right
          refine ⟨_, [], .of_push hexec _ rfl (by simp), ?_⟩
          simpa [handed, results] using (progress_packetSent hasks).1
      | now | answer | data | closed | timeout | call => cases hexec
  | @failed caller e packets hasks hpackets =>
      obtain ⟨rfl, rfl⟩ := List.cons.inj hl
      cases c with
      | go =>
          right
          refine ⟨_, [], .of_push hexec _ rfl (by simp), ?_⟩
          simpa [handed, results] using (progress_packetSent hasks).2 e packets hpackets
      | now | answer | data | closed | timeout | call => cases hexec
  | @awaiting options hr =>
      obtain ⟨rfl, rfl⟩ := List.cons.inj hl
      subst hr
      cases c with
      | go =>
          right
          have hwakes : (if w.client.connackReady then some (w, o.tasks w.wake) else none) =
              some (w', ks) := hexec
          split at hwakes
          · refine ⟨_, [], .of_push hwakes _ rfl (by simp), ?_⟩
            cases herror : w.client.connackError with
            | none =>
                simp only [Conn.wake, herror]
                exact .ends [.startKeepAlive, .callback .connected]
                  (by simp [Sect.closes]) (.inr rfl) (.inr rfl) rfl
            | some e =>
                simp only [Conn.wake, herror]
                exact .fails [.teardown false] e (by simp [Sect.closes]) rfl (.inr rfl)
          · cases hwakes
      | timeout =>
          right
          have hgivesUp : (if w.client.connackReady then none
              else some (w, o.tasks [.teardown true, .returned (.error Conn.connackTimeout)])) =
              some (w', ks) := hexec
          split at hgivesUp
          · cases hgivesUp
          · refine ⟨_, [], .of_push hgivesUp _ rfl (by simp), ?_⟩
            have h := Progress.closing (r := .connect options) (n := 0) closes_goodbye
              (.inl ⟨Conn.connackTimeout, rfl⟩) (.inr rfl)
              (by simp [goodbyes]) (fun _ => ⟨rfl, rfl⟩)
            simpa [handed, results] using h
      | now | answer | data | closed | call => cases hexec
  | @closing sects packets n x hsects hx hpackets hone hbye =>
      cases sects with
      | nil =>
          obtain ⟨rfl, rfl⟩ := List.cons.inj hl
          cases c with
          | go =>
              right
              refine ⟨_, [.returned x], .of_push hexec _ rfl rfl, ?_⟩
              simpa [handed, results] using
                Progress.done hx hpackets (by simpa using hone) (by simpa using hbye)
          | now | answer | data | closed | timeout | call => cases hexec
      | cons k sects =>
          obtain ⟨rfl, rfl⟩ := List.cons.inj hl
          obtain hstays | ⟨sects', es, hdoes, hcloses⟩ :=
            closes_step (hsects s (List.mem_cons_self ..)) hexec
          · exact .inl hstays
          · refine .inr ⟨sects', es, hdoes, ?_⟩
            obtain ⟨m, hhanded, hm⟩ := hcloses.goodbye
            rw [Sections.weight_cons] at hone hbye
            have hleft : sects' ++ (sects ++ [.returned x]) = (sects' ++ sects) ++ [.returned x] :=
              (List.append_assoc ..).symm
            rw [hcloses.silent, hhanded, List.append_nil, List.append_assoc, ← List.replicate_add]
            change Progress r (sects' ++ (sects ++ [.returned x])) _ _
            rw [hleft]
            apply Progress.closing _ hx hpackets
            · rw [Sections.weight_append]
              omega
            · intro hpos
              rw [Sections.weight_append] at hpos
              exact hbye (by omega)
            · intro k hk
              obtain hk | hk := List.mem_append.mp hk
              · exact hcloses.closing k hk
              · exact hsects k (List.mem_cons_of_mem _ hk)
  | done => cases hl

/-! ## A call among other threads -/

theorem eventsOf_append (o : Origin) (trace es : List (Origin × Event)) :
    eventsOf o (trace ++ es) = eventsOf o trace ++ eventsOf o es := by
  simp [eventsOf]

theorem eventsOf_same (o : Origin) (es : List Event) : eventsOf o (es.map (Prod.mk o)) = es := by
  induction es with
  | nil => rfl
  | cons e es ih => simpa [eventsOf] using ih

theorem eventsOf_other {o o' : Origin} (h : o' ≠ o) (es : List Event) :
    eventsOf o (es.map (Prod.mk o')) = [] := by
  rw [eventsOf, List.map_eq_nil_iff, List.filter_eq_nil_iff]
  intro e he
  obtain ⟨x, -, rfl⟩ := List.mem_map.mp he
  simpa using h

theorem eventsOf_concat_other {o o' : Origin} (h : o' ≠ o) (trace : List (Origin × Event))
    (e : Event) : eventsOf o (trace ++ [(o', e)]) = eventsOf o trace := by
  have hnone : eventsOf o [(o', e)] = [] := eventsOf_other h [e]
  rw [eventsOf_append, hnone, List.append_nil]

/-- Whether a section is one of call `k`. -/
def ofCall (k : ℕ) (task : Task) : Bool := task.origin == .call k

theorem filter_tasks_same (k : ℕ) (sects : List Sect) :
    ((Origin.call k).tasks sects).filter (ofCall k) = (Origin.call k).tasks sects := by
  rw [List.filter_eq_self]
  intro task htask
  obtain ⟨s, -, rfl⟩ := List.mem_map.mp htask
  simp [ofCall]

theorem filter_tasks_other {k : ℕ} {o : Origin} (h : o ≠ .call k) (sects : List Sect) :
    (o.tasks sects).filter (ofCall k) = [] := by
  rw [List.filter_eq_nil_iff]
  intro task htask
  obtain ⟨s, -, rfl⟩ := List.mem_map.mp htask
  simpa [ofCall] using h

/-- A section that is not one of call `k` leaves none of its sections and adds none of its events,
once the call has its number. -/
theorem other_step {k : ℕ} {task : Task} {c : Choice} {w w' : Conn} {ks : List Task}
    (hk : k < w.calls) (htask : ofCall k task = false)
    (h : Conn.exec task c w = some (w', ks)) :
    ks.filter (ofCall k) = [] ∧ eventsOf (.call k) w'.trace = eventsOf (.call k) w.trace ∧
      w.calls ≤ w'.calls := by
  have horigin : task.origin ≠ .call k := by simpa [ofCall] using htask
  cases Conn.exec_form h with
  | own hlogs hsects =>
      obtain ⟨es, htrace⟩ := hlogs.trace
      refine ⟨filter_tasks_other horigin _, ?_, Nat.le_of_eq hlogs.calls.symm⟩
      rw [htrace, eventsOf_append, eventsOf_other horigin, List.append_nil]
  | within hfirst =>
      refine ⟨?_, rfl, Nat.le_refl _⟩
      simp [ofCall, hfirst, horigin]
  | calls c =>
      refine ⟨?_, ?_, Nat.le_succ _⟩
      · simp [ofCall, Conn.newCall, horigin]
        omega
      · apply eventsOf_concat_other
        simp
        omega
  | handles number packet hsect =>
      refine ⟨filter_tasks_other (by simp) _, ?_, Nat.le_refl _⟩
      exact eventsOf_concat_other (by simp) _ _

/-- Call `k` has its sections left in thread `i` and has come as far as it has for request `r`. -/
structure Follows (r : Request) (k i : ℕ) (cfg : Config) : Prop where
  number : k < cfg.shared.calls
  progress : ∃ sects, Sections.Owns (ofCall k) i ((Origin.call k).tasks sects) cfg ∧
    Progress r sects (handed (eventsOf (.call k) cfg.shared.trace))
      (results (eventsOf (.call k) cfg.shared.trace))

/-- A new thread begins with a section of another call, of a delivery or of the keep-alive task. -/
theorem other_entry {k : ℕ} {e : Entry} {w w' : Conn} {q : List Task} (hk : k < w.calls)
    (h : Conn.entry e w = some (w', q)) :
    q.filter (ofCall k) = [] ∧ eventsOf (.call k) w'.trace = eventsOf (.call k) w.trace ∧
      w.calls ≤ w'.calls := by
  cases e with
  | call c =>
      obtain ⟨rfl, rfl⟩ := Prod.mk.inj (Option.some.inj h)
      refine ⟨?_, ?_, Nat.le_succ _⟩
      · simp [ofCall, Conn.newCall]
        omega
      · apply eventsOf_concat_other
        simp
        omega
  | data | closed =>
      simp only [Conn.entry, Option.map_eq_some_iff, Prod.mk.injEq] at h
      obtain ⟨first, hfirst, rfl, rfl⟩ := h
      obtain ⟨t, ht⟩ := Conn.delivery_origin hfirst
      exact ⟨by simp [ofCall, ht], rfl, Nat.le_refl _⟩
  | keepAlive =>
      simp only [Conn.entry] at h
      split at h
      · obtain ⟨rfl, rfl⟩ := Prod.mk.inj (Option.some.inj h)
        exact ⟨by simp [ofCall], rfl, Nat.le_refl _⟩
      · cases h

theorem Follows.step {r : Request} {k i : ℕ} {cfg cfg' : Config} {l : Label}
    (hf : Follows r k i cfg) (h : program.step cfg l = some cfg') : Follows r k i cfg' := by
  obtain ⟨hk, sects, howns, hprogress⟩ := hf
  obtain ⟨e, w', q, rfl, hentry, rfl⟩ | ⟨j, c, task, ks, w', ks', rfl, hget, hexec, rfl⟩ :=
    Sections.Program.step_cases h
  · obtain ⟨hq, hevents, hcalls⟩ := other_entry hk hentry
    refine ⟨Nat.lt_of_lt_of_le hk hcalls, sects, howns.start w' hq, ?_⟩
    simp only [hevents]
    exact hprogress
  · by_cases htask : ofCall k task = true
    · obtain ⟨rfl, howned⟩ := howns.front hget htask
      cases sects with
      | nil => cases howned
      | cons s rest =>
          obtain ⟨rfl, -⟩ := List.cons.inj howned
          obtain ⟨first, rfl, hstays⟩ | ⟨sects', es, hdoes, hprogress'⟩ := hprogress.step hexec
          · have hfirst : ofCall k first = false ∧
                eventsOf (.call k) w'.trace = eventsOf (.call k) cfg.shared.trace ∧
                cfg.shared.calls ≤ w'.calls := by
              obtain ⟨rfl, t, ht⟩ | ⟨call, rfl, rfl⟩ := hstays
              · exact ⟨by simp [ofCall, ht], rfl, Nat.le_refl _⟩
              · obtain ⟨hq, hevents, hcalls⟩ := other_entry (e := .call call) hk rfl
                exact ⟨by simpa using hq, hevents, hcalls⟩
            obtain ⟨hnot, hevents, hcalls⟩ := hfirst
            refine ⟨Nat.lt_of_lt_of_le hk hcalls, s :: rest, ?_, ?_⟩
            · have := howns.own w' [first, ⟨.call k, s⟩] hget htask
              rw [List.filter_cons_of_neg (by simpa using hnot), List.filter_cons_of_pos htask] at this
              exact this
            · simp only [hevents]
              exact hprogress
          · refine ⟨by simpa [hdoes.calls] using hk, sects' ++ rest, ?_, ?_⟩
            · have := howns.own w' ks' hget htask
              rw [hdoes.tasks, filter_tasks_same] at this
              rw [hdoes.tasks, Origin.tasks, List.map_append]
              exact this
            · have hevents : eventsOf (.call k) w'.trace =
                  eventsOf (.call k) cfg.shared.trace ++ es := by
                rw [hdoes.trace, eventsOf_append, eventsOf_same]
              simp only [hevents]
              simpa [handed, results] using hprogress'
    · rw [Bool.not_eq_true] at htask
      obtain ⟨hks, hevents, hcalls⟩ := other_step hk htask hexec
      refine ⟨Nat.lt_of_lt_of_le hk hcalls, sects, howns.other w' hget htask hks, ?_⟩
      simp only [hevents]
      exact hprogress

/-! ## The members that a request is made of -/

/-- Packet ids have sixteen bits, and a will and credentials are empty until they are set. -/
structure Members (c : SoftwareMqttClient) : Prop where
  packetId : c.lastPacketId < 65536
  will : c.hasWill = false → c.will = {}
  username : c.hasCredentials = false → c.username = []
  password : c.hasCredentials = false → c.password = []

theorem nextPacketId_lt {last : ℕ} (h : last < 65536) : Conn.nextPacketId last < 65536 := by
  unfold Conn.nextPacketId
  split <;> omega

/-- What the client puts into a request by itself is well formed. -/
theorem Members.formed {c : SoftwareMqttClient} (h : Members c) {call : Call} {r : Request}
    (hr : requested c call = some r) : r.Formed := by
  cases call with
  | connect host port cleanSession =>
      obtain rfl := Option.some.inj hr
      refine ⟨?_, h.will, h.username, h.password⟩
      simp only [Conn.connectOptions]
      split <;> omega
  | publish topic payload qos retain =>
      obtain rfl := Option.some.inj hr
      constructor
      · split
        · exact nextPacketId_lt h.packetId
        · omega
      · rintro rfl
        rfl
  | subscribe topic qos =>
      obtain rfl := Option.some.inj hr
      exact nextPacketId_lt h.packetId
  | unsubscribe topic =>
      obtain rfl := Option.some.inj hr
      exact nextPacketId_lt h.packetId
  | setKeepAlive | setClientId | setCredentials | setWill | setTlsConfig | disconnect => cases hr

theorem Members.call {w : Conn} (h : Members w.client) (o : Origin) (c : Call) :
    Members (w.call o c).1.client := by
  have hnext : Members { w.client with lastPacketId := Conn.nextPacketId w.client.lastPacketId } :=
    ⟨nextPacketId_lt h.packetId, h.will, h.username, h.password⟩
  cases c with
  | setCredentials =>
      exact ⟨h.packetId, h.will, fun hfalse => (by cases hfalse), fun hfalse => (by cases hfalse)⟩
  | setWill => exact ⟨h.packetId, fun hfalse => (by cases hfalse), h.username, h.password⟩
  | setKeepAlive | setClientId | setTlsConfig | disconnect =>
      exact ⟨h.packetId, h.will, h.username, h.password⟩
  | connect =>
      simp only [Conn.call, Conn.connect]
      split <;> exact ⟨h.packetId, h.will, h.username, h.password⟩
  | publish =>
      simp only [Conn.call, Conn.publish]
      split
      · exact h
      · split
        · exact hnext
        · exact h
  | subscribe | unsubscribe =>
      simp only [Conn.call, Conn.subscribe, Conn.unsubscribe]
      split
      · exact h
      · exact ⟨hnext.packetId, h.will, h.username, h.password⟩

/-- The members that requests are made of stay as they are. -/
def SameMembers (c c' : SoftwareMqttClient) : Prop :=
  c'.lastPacketId = c.lastPacketId ∧ c'.hasWill = c.hasWill ∧ c'.will = c.will ∧
    c'.hasCredentials = c.hasCredentials ∧ c'.username = c.username ∧ c'.password = c.password

theorem Members.same {c c' : SoftwareMqttClient} (h : Members c) (hsame : SameMembers c c') :
    Members c' := by
  obtain ⟨hid, hhasWill, hwill, hhasCredentials, husername, hpassword⟩ := hsame
  refine ⟨?_, ?_, ?_, ?_⟩
  · rw [hid]
    exact h.packetId
  · rw [hhasWill, hwill]
    exact h.will
  · rw [hhasCredentials, husername]
    exact h.username
  · rw [hhasCredentials, hpassword]
    exact h.password

/-- The members that calls alone set, with the others as a new client has them. -/
def SoftwareMqttClient.settings (c : SoftwareMqttClient) : SoftwareMqttClient :=
  { clientId := c.clientId
    username := c.username
    password := c.password
    hasCredentials := c.hasCredentials
    keepAliveSeconds := c.keepAliveSeconds
    hasWill := c.hasWill
    will := c.will
    tlsEnabled := c.tlsEnabled
    tls := c.tls
    lastPacketId := c.lastPacketId }

theorem SameMembers.of_settings {c c' : SoftwareMqttClient} (h : c'.settings = c.settings) :
    SameMembers c c' := by
  simp only [SoftwareMqttClient.settings, SoftwareMqttClient.mk.injEq, true_and, and_true] at h
  obtain ⟨-, husername, hpassword, hhasCredentials, -, hhasWill, hwill, -, -, hid⟩ := h
  exact ⟨hid, hhasWill, hwill, hhasCredentials, husername, hpassword⟩

theorem settings_handled (c : SoftwareMqttClient) (p : MqttPacket) :
    (Conn.handled c p).1.settings = c.settings := by
  unfold Conn.handled
  split
  · unfold Conn.handleConnack
    split
    · rfl
    · split
      · rfl
      · split <;> rfl
  · unfold Conn.handlePublish
    split
    · rfl
    · split
      · rfl
      · split
        · rfl
        · split <;> rfl
  · rfl
  · rfl
  · rfl
  · unfold Conn.handlePubrel
    split <;> rfl
  · unfold Conn.handleSuback
    split <;> rfl
  · unfold Conn.handleUnsuback
    split <;> rfl
  · rfl
  · rfl

theorem settings_of_push {o : Origin} {w v w' : Conn} {sects : List Sect} {ks : List Task}
    (h : some (v, o.tasks sects) = some (w', ks)) (hsame : v.client.settings = w.client.settings) :
    w'.client.settings = w.client.settings := by
  obtain ⟨rfl, rfl⟩ := Prod.mk.inj (Option.some.inj h)
  exact hsame

theorem settings_of_deliverWithin {task : Task} {c : Choice} {w w' : Conn} {ks : List Task}
    (h : w.deliverWithin task c = some (w', ks)) : w'.client.settings = w.client.settings := by
  obtain ⟨first, -, ⟨hw, -⟩ | ⟨c, hw, -⟩⟩ := stays_of_deliverWithin h
  · rw [hw]
  · rw [hw]
    rfl

theorem settings_of_clock {ms : Int} {o : Origin} {f : Conn → Conn} {sects : List Sect}
    {w w' : Conn} {ks : List Task}
    (h : ((w.readClock ms).bind fun w => some (f w, o.tasks sects)) = some (w', ks))
    (hsame : ∀ w, (f w).client.settings = w.client.settings) :
    w'.client.settings = w.client.settings := by
  obtain ⟨v, hclock, h⟩ := Option.bind_eq_some_iff.mp h
  obtain ⟨rfl, rfl⟩ := Prod.mk.inj (Option.some.inj h)
  simp only [Conn.readClock] at hclock
  split at hclock
  · obtain rfl := Option.some.inj hclock
    exact hsame _
  · cases hclock

/-- A section leaves the settings alone, or is the first one of a call. -/
theorem exec_settings {task : Task} {c : Choice} {w w' : Conn} {ks : List Task}
    (h : Conn.exec task c w = some (w', ks)) :
    w'.client.settings = w.client.settings ∨
      ∃ call, task.sect = .call call ∧ w' = (w.call task.origin call).1 := by
  obtain ⟨o, s⟩ := task
  unfold Conn.exec at h
  dsimp only at h
  split at h
  -- calls and `Connect`
  · obtain ⟨rfl, rfl⟩ := Prod.mk.inj (Option.some.inj h)
    exact .inr ⟨_, rfl, rfl⟩
  · rename_i result
    cases result <;> exact .inl (settings_of_push h rfl)
  · split at h <;> exact .inl (settings_of_push h rfl)
  · exact .inl (settings_of_deliverWithin h)
  · exact .inl (settings_of_push h rfl)
  · split at h
    · exact .inl (settings_of_push h rfl)
    · cases h
  · split at h
    · cases h
    · exact .inl (settings_of_push h rfl)
  -- sending
  · exact .inl (settings_of_push h rfl)
  · exact .inl (settings_of_push h rfl)
  · exact .inl (settings_of_push h rfl)
  · exact .inl (settings_of_deliverWithin h)
  · exact .inl (settings_of_clock h fun _ => rfl)
  · exact .inl (settings_of_push h rfl)
  · exact .inl (settings_of_push h rfl)
  -- receiving and ending
  · refine .inl (settings_of_push h ?_)
    simp only [Conn.onTransportData]
    split <;> rfl
  · refine .inl (settings_of_push h ?_)
    simp only [Conn.takePackets]
    split <;> rfl
  · obtain ⟨rfl, rfl⟩ := Prod.mk.inj (Option.some.inj h)
    exact .inl (settings_handled _ _)
  · exact .inl (settings_of_push h rfl)
  · exact .inl (settings_of_push h rfl)
  · exact .inl (settings_of_push h rfl)
  · exact .inl (settings_of_push h rfl)
  · exact .inl (settings_of_push h rfl)
  · exact .inl (settings_of_deliverWithin h)
  -- the keep-alive task
  · exact .inl (settings_of_push h rfl)
  · exact .inl (settings_of_push h rfl)
  · simp only [Conn.joining] at h
    split at h
    · exact .inl (settings_of_push h rfl)
    · cases h
  · exact .inl (settings_of_push h rfl)
  · simp only [Conn.createTask] at h
    split at h
    · exact .inl (settings_of_push h rfl)
    · cases h
  · exact .inl (settings_of_push h rfl)
  · exact .inl (settings_of_push h rfl)
  · exact .inl (settings_of_push h rfl)
  · exact .inl (settings_of_clock h fun _ => rfl)
  · exact .inl (settings_of_push h rfl)
  · exact .inl (settings_of_push h rfl)
  · exact .inl (settings_of_push h rfl)
  · exact .inl (settings_of_push h rfl)
  -- callbacks
  · exact .inl (settings_of_push h rfl)
  · exact .inl (settings_of_push h rfl)
  · obtain ⟨rfl, rfl⟩ := Prod.mk.inj (Option.some.inj h)
    exact .inl rfl
  · exact .inl (settings_of_push h rfl)
  · cases h

/-- Only calls set the members that requests are made of. -/
theorem exec_members {task : Task} {c : Choice} {w w' : Conn} {ks : List Task}
    (h : Conn.exec task c w = some (w', ks)) :
    SameMembers w.client w'.client ∨
      ∃ call, task.sect = .call call ∧ w' = (w.call task.origin call).1 :=
  (exec_settings h).imp_left .of_settings

theorem Members.step {cfg cfg' : Config} {l : Label} (hm : Members cfg.shared.client)
    (h : program.step cfg l = some cfg') : Members cfg'.shared.client := by
  obtain ⟨e, w', q, rfl, hentry, rfl⟩ | ⟨j, c, task, ks, w', ks', rfl, hget, hexec, rfl⟩ :=
    Sections.Program.step_cases h
  · cases e with
    | call c =>
        obtain ⟨rfl, rfl⟩ := Prod.mk.inj (Option.some.inj hentry)
        exact hm
    | data | closed =>
        simp only [program, Conn.entry, Option.map_eq_some_iff, Prod.mk.injEq] at hentry
        obtain ⟨first, -, rfl, rfl⟩ := hentry
        exact hm
    | keepAlive =>
        simp only [program, Conn.entry] at hentry
        split at hentry
        · obtain ⟨rfl, rfl⟩ := Prod.mk.inj (Option.some.inj hentry)
          exact hm.same ⟨rfl, rfl, rfl, rfl, rfl, rfl⟩
        · cases hentry
  · obtain hsame | ⟨call, -, rfl⟩ := exec_members hexec
    · exact hm.same hsame
    · exact hm.call _ _

/-! ## A call that has not begun -/

/-- Call `k` is still to come, or waits for its first section and has done nothing yet, or is past
it. -/
inductive Waits (k : ℕ) (cfg : Config) : Prop
  | ahead (hk : cfg.shared.calls ≤ k)
      (hnone : ∀ q ∈ cfg.threads, q.filter (ofCall k) = [])
      (hevents : eventsOf (.call k) cfg.shared.trace = [])
  | waiting (hk : k < cfg.shared.calls) {i : ℕ} {c : Call}
      (howns : Sections.Owns (ofCall k) i [⟨.call k, .call c⟩] cfg)
      (hhanded : handed (eventsOf (.call k) cfg.shared.trace) = [])
      (hresults : results (eventsOf (.call k) cfg.shared.trace) = [])
  | begun (hk : k < cfg.shared.calls)
      (hnone : ∀ q ∈ cfg.threads, ∀ task ∈ q, ofCall k task = true → task.sect.isCall = false)

/-- A section that is executed for a call that has begun. -/
theorem begun_step {k : ℕ} {task : Task} {c : Choice} {w w' : Conn} {ks : List Task}
    (hk : k < w.calls) (h : Conn.exec task c w = some (w', ks))
    (htask : ofCall k task = true → task.sect.isCall = false) :
    w.calls ≤ w'.calls ∧ ∀ t ∈ ks, ofCall k t = true → t.sect.isCall = false := by
  cases Conn.exec_form h with
  | own hlogs hsects =>
      refine ⟨Nat.le_of_eq hlogs.calls.symm, ?_⟩
      intro t ht _
      obtain ⟨s, hs, rfl⟩ := List.mem_map.mp ht
      exact hsects s hs
  | within hfirst =>
      refine ⟨Nat.le_refl _, ?_⟩
      intro t ht hmine
      obtain rfl | rfl : t = _ ∨ t = task := by simpa using ht
      · simp [ofCall, hfirst] at hmine
      · exact htask hmine
  | calls c =>
      refine ⟨Nat.le_succ _, ?_⟩
      intro t ht hmine
      obtain rfl | rfl : t = (w.newCall c).2 ∨ t = task := by simpa using ht
      · simp only [ofCall, Conn.newCall, beq_iff_eq, Origin.call.injEq] at hmine
        omega
      · exact htask hmine
  | handles number packet hsect =>
      refine ⟨Nat.le_refl _, ?_⟩
      intro t ht hmine
      obtain ⟨s, hs, rfl⟩ := List.mem_map.mp ht
      simp [ofCall] at hmine

/-- What comes with the number `k` still to be given: it is given now, to a call that waits for its
first section, or it is not. -/
def Numbers (k : ℕ) (w w' : Conn) (ks : List Task) : Prop :=
  w'.calls ≤ k ∧ ks.filter (ofCall k) = [] ∧
      eventsOf (.call k) w'.trace = eventsOf (.call k) w.trace ∨
    k < w'.calls ∧ ∃ c, ks.filter (ofCall k) = [⟨.call k, .call c⟩] ∧
      eventsOf (.call k) w'.trace = eventsOf (.call k) w.trace ++ [.called c]

theorem numbers_newCall {k : ℕ} {w : Conn} (hk : w.calls ≤ k) (c : Call) {ks : List Task}
    (hks : ks.filter (ofCall k) = []) : Numbers k w (w.newCall c).1 ((w.newCall c).2 :: ks) := by
  have htrace : (w.newCall c).1.trace = w.trace ++ [Event.called c].map (Prod.mk (.call w.calls)) :=
    rfl
  obtain rfl | hlt := Nat.eq_or_lt_of_le hk
  · refine .inr ⟨Nat.lt_succ_self _, c, ?_, ?_⟩
    · rw [List.filter_cons_of_pos (by simp [ofCall, Conn.newCall]), hks]
      rfl
    · rw [htrace, eventsOf_append, eventsOf_same]
  · refine .inl ⟨hlt, ?_, ?_⟩
    · rw [List.filter_cons_of_neg (by simp [ofCall, Conn.newCall]; omega), hks]
    · rw [htrace, eventsOf_append, eventsOf_other (by simp; omega), List.append_nil]

theorem numbers_exec {k : ℕ} {task : Task} {c : Choice} {w w' : Conn} {ks : List Task}
    (hk : w.calls ≤ k) (htask : ofCall k task = false) (h : Conn.exec task c w = some (w', ks)) :
    Numbers k w w' ks := by
  have horigin : task.origin ≠ .call k := by simpa [ofCall] using htask
  cases Conn.exec_form h with
  | own hlogs hsects =>
      obtain ⟨es, htrace⟩ := hlogs.trace
      refine .inl ⟨by rw [hlogs.calls]; exact hk, filter_tasks_other horigin _, ?_⟩
      rw [htrace, eventsOf_append, eventsOf_other horigin, List.append_nil]
  | within hfirst => exact .inl ⟨hk, by simp [ofCall, hfirst, horigin], rfl⟩
  | calls c => exact numbers_newCall hk c (by simp [htask])
  | handles number packet hsect =>
      refine .inl ⟨hk, filter_tasks_other (by simp) _, ?_⟩
      exact eventsOf_concat_other (by simp) _ _

theorem numbers_entry {k : ℕ} {e : Entry} {w w' : Conn} {q : List Task} (hk : w.calls ≤ k)
    (h : Conn.entry e w = some (w', q)) : Numbers k w w' q := by
  cases e with
  | call c =>
      obtain ⟨rfl, rfl⟩ := Prod.mk.inj (Option.some.inj h)
      exact numbers_newCall hk c (by simp)
  | data | closed =>
      simp only [Conn.entry, Option.map_eq_some_iff, Prod.mk.injEq] at h
      obtain ⟨first, hfirst, rfl, rfl⟩ := h
      obtain ⟨t, ht⟩ := Conn.delivery_origin hfirst
      exact .inl ⟨hk, by simp [ofCall, ht], rfl⟩
  | keepAlive =>
      simp only [Conn.entry] at h
      split at h
      · obtain ⟨rfl, rfl⟩ := Prod.mk.inj (Option.some.inj h)
        exact .inl ⟨hk, by simp [ofCall], rfl⟩
      · cases h

theorem notMine_of_filter {k : ℕ} {q : List Task} (h : q.filter (ofCall k) = []) {task : Task}
    (htask : task ∈ q) : ofCall k task = false := by
  have := List.filter_eq_nil_iff.mp h task htask
  simpa using this

theorem Waits.step {k : ℕ} {cfg cfg' : Config} {l : Label} (hw : Waits k cfg)
    (h : program.step cfg l = some cfg') : Waits k cfg' := by
  obtain ⟨e, w', q, rfl, hentry, rfl⟩ | ⟨j, c, task, ks, w', ks', rfl, hget, hexec, rfl⟩ :=
    Sections.Program.step_cases h
  · cases hw with
    | ahead hk hnone hevents =>
        obtain ⟨hk', hq, hsame⟩ | ⟨hk', c, hq, hsame⟩ := numbers_entry hk hentry
        · refine .ahead hk' ?_ (hsame.trans hevents)
          intro p hp
          obtain hp | hp := List.mem_append.mp hp
          · exact hnone p hp
          · exact List.mem_singleton.mp hp ▸ hq
        · have hone : eventsOf (.call k) w'.trace = [.called c] := by rw [hsame, hevents]; rfl
          refine .waiting hk' (i := cfg.threads.length) (c := c) ⟨by simp, ?_⟩ ?_ ?_
          · intro j p hj
            obtain hlt | hge := Nat.lt_or_ge j cfg.threads.length
            · rw [List.getElem?_append_left hlt] at hj
              rw [if_neg (by omega)]
              exact hnone p (List.mem_of_getElem? hj)
            · rw [List.getElem?_append_right hge] at hj
              have hj0 : j - cfg.threads.length = 0 := by
                have := (List.getElem?_eq_some_iff.mp hj).1
                simp only [List.length_singleton] at this
                omega
              rw [hj0] at hj
              obtain rfl := Option.some.inj hj
              rw [if_pos (by omega), hq]
          · simp only [hone]
            rfl
          · simp only [hone]
            rfl
    | waiting hk howns hhanded hresults =>
        obtain ⟨hq, hevents, hcalls⟩ := other_entry hk hentry
        refine .waiting (Nat.lt_of_lt_of_le hk hcalls) (howns.start w' hq) ?_ ?_
        · simp only [hevents]
          exact hhanded
        · simp only [hevents]
          exact hresults
    | begun hk hnone =>
        obtain ⟨hq, -, hcalls⟩ := other_entry hk hentry
        refine .begun (Nat.lt_of_lt_of_le hk hcalls) ?_
        intro p hp t ht hmine
        obtain hp | hp := List.mem_append.mp hp
        · exact hnone p hp t ht hmine
        · obtain rfl := List.mem_singleton.mp hp
          rw [notMine_of_filter hq ht] at hmine
          cases hmine
  · cases hw with
    | ahead hk hnone hevents =>
        have hthread := hnone _ (List.mem_of_getElem? hget)
        have htask := notMine_of_filter hthread (List.mem_cons_self ..)
        have hks : ks.filter (ofCall k) = [] := by
          rw [List.filter_cons_of_neg (by simp [htask])] at hthread
          exact hthread
        obtain ⟨hk', hq, hsame⟩ | ⟨hk', c, hq, hsame⟩ := numbers_exec hk htask hexec
        · refine .ahead hk' ?_ (hsame.trans hevents)
          intro p hp
          obtain rfl | ⟨l, -, hl⟩ := Sections.mem_set_cases hp
          · rw [List.filter_append, hq, hks]
            rfl
          · exact hnone p (List.mem_of_getElem? hl)
        · have hone : eventsOf (.call k) w'.trace = [.called c] := by rw [hsame, hevents]; rfl
          have hj : j < cfg.threads.length := (List.getElem?_eq_some_iff.mp hget).1
          refine .waiting hk' (i := j) (c := c) ⟨by simpa using hj, ?_⟩ ?_ ?_
          · intro l p hl
            by_cases hjl : j = l
            · subst hjl
              rw [List.getElem?_set_self hj] at hl
              obtain rfl := Option.some.inj hl
              rw [if_pos rfl, List.filter_append, hq, hks]
              rfl
            · rw [List.getElem?_set_ne hjl] at hl
              rw [if_neg (Ne.symm hjl)]
              exact hnone p (List.mem_of_getElem? hl)
          · simp only [hone]
            rfl
          · simp only [hone]
            rfl
    | @waiting hk i call howns hhanded hresults =>
        by_cases htask : ofCall k task = true
        · obtain ⟨rfl, howned⟩ := howns.front hget htask
          obtain ⟨rfl, hks⟩ := List.cons.inj howned
          cases c with
          | go =>
              obtain ⟨rfl, rfl⟩ := Prod.mk.inj (Option.some.inj hexec)
              refine .begun (by rw [(Conn.logs_call _ _).calls]; exact hk) ?_
              intro p hp t ht hmine
              obtain rfl | ⟨l, hlj, hl⟩ := Sections.mem_set_cases hp
              · obtain ht | ht := List.mem_append.mp ht
                · obtain ⟨s, hs, rfl⟩ := List.mem_map.mp ht
                  exact Bool.eq_false_iff.mpr (List.any_eq_false.mp (Conn.isCall_call _ _) s hs)
                · rw [notMine_of_filter hks.symm ht] at hmine
                  cases hmine
              · have hnone := howns.sections l p hl
                rw [if_neg hlj] at hnone
                rw [notMine_of_filter hnone ht] at hmine
                cases hmine
          | now | answer | data | closed | timeout | call => cases hexec
        · rw [Bool.not_eq_true] at htask
          obtain ⟨hks, hevents, hcalls⟩ := other_step hk htask hexec
          refine .waiting (Nat.lt_of_lt_of_le hk hcalls) (howns.other w' hget htask hks) ?_ ?_
          · simp only [hevents]
            exact hhanded
          · simp only [hevents]
            exact hresults
    | begun hk hnone =>
        have hthread := hnone _ (List.mem_of_getElem? hget)
        obtain ⟨hcalls, hks⟩ := begun_step hk hexec (hthread task (List.mem_cons_self ..))
        refine .begun (Nat.lt_of_lt_of_le hk hcalls) ?_
        intro p hp t ht hmine
        obtain rfl | ⟨l, -, hl⟩ := Sections.mem_set_cases hp
        · obtain ht | ht := List.mem_append.mp ht
          · exact hks t ht hmine
          · exact hthread t (List.mem_cons_of_mem _ ht) hmine
        · exact hnone p (List.mem_of_getElem? hl) t ht hmine

theorem waits_initial (k : ℕ) : Waits k initial :=
  .ahead (Nat.zero_le _) (by simp [initial]) rfl

/-- The first section of a request. -/
theorem progress_call {w : Conn} {o : Origin} {c : Call} {r : Request}
    (hr : requested w.client c = some r) :
    ∃ es, (w.call o c).1.trace = w.trace ++ es.map (Prod.mk o) ∧ handed es = [] ∧
      results es = [] ∧ Progress r (w.call o c).2 [] [] := by
  have hrefused : ∀ (r : Request) (e : NetworkError), Progress r [.returned (.error e)] [] [] :=
    fun r e => .fails [] e (by simp) rfl (.inl rfl)
  cases c with
  | connect host port cleanSession =>
      obtain rfl := Option.some.inj hr
      simp only [Conn.call, Conn.connect]
      split
      · exact ⟨[], by simp, rfl, rfl, hrefused _ _⟩
      · exact ⟨[.began w.attempts], rfl, rfl, rfl, .creating rfl⟩
  | publish topic payload qos retain =>
      obtain rfl := Option.some.inj hr
      simp only [Conn.call, Conn.publish]
      split
      · exact ⟨[], by simp, rfl, rfl, hrefused _ _⟩
      · split
        · exact ⟨[], by simp, rfl, rfl, .asking rfl⟩
        · exact ⟨[], by simp, rfl, rfl, .asking rfl⟩
  | subscribe topic qos =>
      obtain rfl := Option.some.inj hr
      simp only [Conn.call, Conn.subscribe]
      split
      · exact ⟨[], by simp, rfl, rfl, hrefused _ _⟩
      · exact ⟨[], by simp [Conn.noteTopic], rfl, rfl, .asking rfl⟩
  | unsubscribe topic =>
      obtain rfl := Option.some.inj hr
      simp only [Conn.call, Conn.unsubscribe]
      split
      · exact ⟨[], by simp, rfl, rfl, hrefused _ _⟩
      · exact ⟨[], by simp [Conn.noteTopic], rfl, rfl, .asking rfl⟩
  | setKeepAlive | setClientId | setCredentials | setWill | setTlsConfig | disconnect => cases hr

/-- A call that executes its first section is followed from there. -/
theorem follows_call {cfg cfg' : Config} {k i : ℕ} {c : Call} {ks : List Task} {r : Request}
    (hw : Waits k cfg) (hget : cfg.threads[i]? = some (⟨.call k, .call c⟩ :: ks))
    (hr : requested cfg.shared.client c = some r)
    (h : program.step cfg (.run i .go) = some cfg') : Follows r k i cfg' := by
  have hmine : ofCall k ⟨.call k, .call c⟩ = true := by simp [ofCall]
  cases hw with
  | ahead hk hnone hevents =>
      have := notMine_of_filter (hnone _ (List.mem_of_getElem? hget)) (List.mem_cons_self ..)
      rw [hmine] at this
      cases this
  | begun hk hnone =>
      have := hnone _ (List.mem_of_getElem? hget) _ (List.mem_cons_self ..) hmine
      cases this
  | @waiting hk _ call howns hhanded hresults =>
      obtain ⟨rfl, howned⟩ := howns.front hget hmine
      obtain ⟨hsame, -⟩ := List.cons.inj howned
      obtain rfl : c = call := (Sect.call.inj (Task.mk.inj hsame).2).symm
      obtain ⟨k', ks₂, w', ks', hget', hexec, rfl⟩ := Sections.Program.step_run.mp h
      obtain ⟨rfl, rfl⟩ := List.cons.inj (Option.some.inj (hget.symm.trans hget'))
      obtain ⟨rfl, rfl⟩ := Prod.mk.inj (Option.some.inj hexec)
      obtain ⟨es, htrace, hes, hes', hprogress⟩ := progress_call (o := .call k) hr
      have hevents : eventsOf (.call k) (cfg.shared.call (.call k) c).1.trace =
          eventsOf (.call k) cfg.shared.trace ++ es := by
        rw [htrace, eventsOf_append, eventsOf_same]
      refine ⟨by rw [(Conn.logs_call _ _).calls]; exact hk, (cfg.shared.call (.call k) c).2, ?_, ?_⟩
      · have := howns.own (cfg.shared.call (.call k) c).1
          ((Origin.call k).tasks (cfg.shared.call (.call k) c).2) hget hmine
        rw [filter_tasks_same, List.append_nil] at this
        exact this
      · have hhanded' : handed (eventsOf (.call k) (cfg.shared.call (.call k) c).1.trace) = [] := by
          rw [hevents, handed, List.filterMap_append]
          simp only [handed] at hhanded hes
          rw [hhanded, hes]
          rfl
        have hresults' :
            results (eventsOf (.call k) (cfg.shared.call (.call k) c).1.trace) = [] := by
          rw [hevents, results, List.filterMap_append]
          simp only [results] at hresults hes'
          rw [hresults, hes']
          rfl
        simp only [hhanded', hresults']
        exact hprogress

theorem follows_run {r : Request} {k i : ℕ} {cfg cfg' : Config} {ls : List Label}
    (hf : Follows r k i cfg) (hrun : Runs.exec program.step cfg ls = some cfg') :
    Follows r k i cfg' :=
  Runs.Reachable.invariant hf (fun _ _ _ h hstep => h.step hstep) ⟨ls, hrun⟩

/-- A client that is connected and publishes `payload` under `topic` at quality of service 0, up to
the first section of the call. -/
def publishingLabels (topic payload : Bytes) : List Label :=
  [.start (.call (.setKeepAlive 0)), .run 0 .go, .start (.call (.connect [104] 1883 true)),
    .run 1 .go, .run 1 (.answer (.ok 0)), .run 1 (.answer (.ok 0)), .run 1 .go, .run 1 .go,
    .run 1 .go, .run 1 (.answer (.ok 14)), .run 1 (.now 1), .run 1 .go,
    .start (.data 0 (frame .kConnack 0 [0, 0])), .run 2 .go, .run 2 .go, .run 2 .go,
    .start (.call (.publish topic payload .kQoS0 false))]

/-- The rest of the call, which the transport accepts. -/
def publishedLabels : List Label :=
  [.run 3 .go, .run 3 .go, .run 3 .go, .run 3 (.answer (.ok 5)), .run 3 (.now 2), .run 3 .go,
    .run 3 .go]

/-- The run of a call of `Publish` that is connected, whatever it publishes. -/
theorem publishing_run (topic payload : Bytes) :
    ∃ cfg₁ cfg, Runs.exec program.step initial (publishingLabels topic payload) = some cfg₁ ∧
      cfg₁.threads[3]? = some [⟨.call 2, .call (.publish topic payload .kQoS0 false)⟩] ∧
      requested cfg₁.shared.client (.publish topic payload .kQoS0 false) =
        some (.publish 0 topic payload .kQoS0 false) ∧
      Runs.exec program.step cfg₁ publishedLabels = some cfg ∧
      handed (eventsOf (.call 2) cfg.shared.trace) = [encodePublish 0 topic payload 0 false] ∧
      results (eventsOf (.call 2) cfg.shared.trace) = [.ok (some 0)] :=
  ⟨_, _, rfl, rfl, rfl, rfl, rfl, rfl⟩

end EspModemLink.Mqtt
