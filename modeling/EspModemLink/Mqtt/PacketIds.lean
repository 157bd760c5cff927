import EspModemLink.Library.Wrapping
import EspModemLink.Mqtt.Requests

/-!
# The packet ids of requests

The client takes its packet ids from a counter of sixteen bits and does not look at the requests that
still wait for their acknowledgement. An id comes again when the counter has gone round.
-/

namespace EspModemLink.Mqtt

/-! ## Requests that wait for their acknowledgement -/

/-- A request: the how-manieth id it got, the id, and the type of the packet that acknowledges it. -/
structure Outstanding where
  nth : ℕ
  packetId : ℕ
  awaits : MqttPacketType
deriving DecidableEq

/-- The acknowledgement of the request that a section takes a packet id for. -/
def issues (client : SoftwareMqttClient) : Sect → Option MqttPacketType
  | .call (.publish _ _ qos _) =>
      if client.connected = false then none
      else
        match qos with
        | .kQoS0 => none
        | .kQoS1 => some .kPuback
        | .kQoS2 => some .kPubcomp
  | .call (.subscribe ..) => if client.connected = false then none else some .kSuback
  | .call (.unsubscribe ..) => if client.connected = false then none else some .kUnsuback
  | _ => none

/-- The packet id of an acknowledgement. -/
def acknowledgedId (packet : MqttPacket) : Option ℕ :=
  if packet.header.type = .kSuback then (parseSuback packet.body).map (·.packetId)
  else parsePacketId packet.body

/-- A section handles the acknowledgement of a request. -/
def acknowledges (r : Outstanding) : Sect → Bool
  | .handlePacket _ packet =>
      packet.header.type == r.awaits && acknowledgedId packet == some r.packetId
  | _ => false

/-- The ids that have been issued, and the requests that are outstanding. -/
structure Requests where
  issued : ℕ := 0
  outstanding : List Outstanding := []
deriving DecidableEq

/-- The request that a step takes a packet id for. -/
def stepIssues (cfg : Config) (l : Label) : Option MqttPacketType :=
  (l.front cfg).bind fun task => issues cfg.shared.client task.sect

/-- A step handles the acknowledgement of a request. -/
def stepAcknowledges (cfg : Config) (l : Label) (r : Outstanding) : Bool :=
  (l.front cfg).any fun task => acknowledges r task.sect

/-- What ends a request beside its acknowledgement: nothing, or that it could not be sent, or that the
connection is gone, as one sees it. -/
abbrev Ending := Config → Label → Outstanding → Bool

/-- The requests that a step does not end. -/
def Requests.left (ends : Ending) (requests : Requests) (cfg : Config) (l : Label) :
    List Outstanding :=
  requests.outstanding.filter fun r => !(stepAcknowledges cfg l r || ends cfg l r)

/-- The requests behind a step. -/
def Requests.after (ends : Ending) (requests : Requests) (cfg : Config) (l : Label) (cfg' : Config) :
    Requests :=
  match stepIssues cfg l with
  | none => { requests with outstanding := requests.left ends cfg l }
  | some awaits =>
      { issued := requests.issued + 1
        outstanding := requests.left ends cfg l ++
          [⟨requests.issued + 1, cfg'.shared.client.lastPacketId, awaits⟩] }

/-- The client with its requests beside it. -/
def counted (ends : Ending) : Runs.Step (Requests × Config) Label :=
  Runs.monitored program.step (Requests.after ends)

/-- A packet id that a step issues is not zero, and no outstanding request has it. -/
def Fresh (s : Requests × Config) (l : Label) (s' : Requests × Config) : Prop :=
  stepIssues s.2 l ≠ none →
    s'.2.shared.client.lastPacketId ≠ 0 ∧
      ∀ r ∈ s.1.outstanding, r.packetId ≠ s'.2.shared.client.lastPacketId

/-- When a step issues a packet id, no outstanding request got its own a multiple of 65535 ids
before. -/
def Spaced (s : Requests × Config) (l : Label) (_ : Requests × Config) : Prop :=
  stepIssues s.2 l ≠ none → ∀ r ∈ s.1.outstanding, ¬65535 ∣ s.1.issued + 1 - r.nth

/-! ## The counter -/

/-- `NextPacketIdLocked` counts from 1 to 65535 and begins again. -/
theorem nextPacketId_nth (n : ℕ) :
    Conn.nextPacketId (Wrapping.nth 65535 n) = Wrapping.nth 65535 (n + 1) :=
  Wrapping.next_nth (by decide) n

/-- A step that issues an id moves the counter on, and no other step does. -/
def Counts (cfg : Config) (l : Label) (cfg' : Config) : Prop :=
  cfg'.shared.client.lastPacketId =
    if stepIssues cfg l = none then cfg.shared.client.lastPacketId
    else Conn.nextPacketId cfg.shared.client.lastPacketId

theorem call_lastPacketId (w : Conn) (o : Origin) (c : Call) :
    (w.call o c).1.client.lastPacketId =
      if issues w.client (.call c) = none then w.client.lastPacketId
      else Conn.nextPacketId w.client.lastPacketId := by
  cases c with
  | publish topic payload qos retain =>
      cases hconnected : w.client.connected <;> cases qos <;>
        simp [Conn.call, Conn.publish, issues, hconnected, MqttQoS.toNat]
  | subscribe topic qos =>
      cases hconnected : w.client.connected <;>
        simp [Conn.call, Conn.subscribe, Conn.noteTopic, issues, hconnected]
  | unsubscribe topic =>
      cases hconnected : w.client.connected <;>
        simp [Conn.call, Conn.unsubscribe, Conn.noteTopic, issues, hconnected]
  | connect host port cleanSession =>
      simp only [Conn.call, Conn.connect, issues, if_true]
      split <;> rfl
  | setKeepAlive | setClientId | setCredentials | setWill | setTlsConfig | disconnect => rfl

/-- Only calls take packet ids. -/
theorem call_of_issues {client : SoftwareMqttClient} {sect : Sect}
    (h : issues client sect ≠ none) : ∃ call, sect = .call call := by
  cases sect with
  | call c => exact ⟨c, rfl⟩
  | _ => exact absurd rfl h

theorem exec_call {task : Task} {c : Choice} {w w' : Conn} {ks : List Task} {call : Call}
    (hsect : task.sect = .call call) (h : Conn.exec task c w = some (w', ks)) :
    w' = (w.call task.origin call).1 := by
  obtain ⟨o, sect⟩ := task
  obtain rfl : sect = .call call := hsect
  cases c with
  | go => exact (Prod.mk.inj (Option.some.inj h)).1.symm
  | _ => cases h

theorem step_counts {cfg cfg' : Config} {l : Label} (h : program.step cfg l = some cfg') :
    Counts cfg l cfg' := by
  obtain ⟨e, w', q, rfl, hentry, rfl⟩ | ⟨i, c, task, ks, w', ks', rfl, hget, hexec, rfl⟩ :=
    Sections.Program.step_cases h
  · change w'.client.lastPacketId = cfg.shared.client.lastPacketId
    cases e with
    | call c =>
        obtain ⟨rfl, rfl⟩ := Prod.mk.inj (Option.some.inj hentry)
        rfl
    | data | closed =>
        simp only [program, Conn.entry, Option.map_eq_some_iff, Prod.mk.injEq] at hentry
        obtain ⟨first, -, rfl, rfl⟩ := hentry
        rfl
    | keepAlive =>
        simp only [program, Conn.entry] at hentry
        split at hentry
        · obtain ⟨rfl, rfl⟩ := Prod.mk.inj (Option.some.inj hentry)
          rfl
        · cases hentry
  · rw [Counts, stepIssues, Sections.Label.front_run hget, Option.bind_some]
    by_cases hnone : issues cfg.shared.client task.sect = none
    · rw [if_pos hnone]
      obtain hsame | ⟨call, hsect, rfl⟩ := exec_members hexec
      · exact hsame.1
      · rw [hsect] at hnone
        exact (call_lastPacketId _ _ call).trans (if_pos hnone)
    · obtain ⟨call, hsect⟩ := call_of_issues hnone
      obtain rfl := exec_call hsect hexec
      rw [if_neg hnone]
      rw [hsect] at hnone
      exact (call_lastPacketId _ _ call).trans (if_neg hnone)

/-! ## Ids by their turns -/

/-- The counter stands at the last id, and every outstanding request has the id of its turn. -/
structure Numbered (s : Requests × Config) : Prop where
  counter : s.2.shared.client.lastPacketId = Wrapping.nth 65535 s.1.issued
  turn : ∀ r ∈ s.1.outstanding, 0 < r.nth ∧ r.nth ≤ s.1.issued
  packetId : ∀ r ∈ s.1.outstanding, r.packetId = Wrapping.nth 65535 r.nth

variable {ends : Ending} {s s' : Requests × Config} {l : Label}

theorem numbered_initial : Numbered ({}, initial) := by
  constructor
  · rfl
  · simp
  · simp

/-- The next id is that of the next turn. -/
theorem Numbered.next (h : Numbered s) (hstep : program.step s.2 l = some s'.2)
    (hissues : stepIssues s.2 l ≠ none) :
    s'.2.shared.client.lastPacketId = Wrapping.nth 65535 (s.1.issued + 1) := by
  rw [step_counts hstep, if_neg hissues, h.counter, nextPacketId_nth]

theorem Numbered.step (h : Numbered s) (hstep : counted ends s l = some s') : Numbered s' := by
  obtain ⟨hprogram, hafter⟩ := Runs.monitored_eq_some.mp hstep
  have hleft : ∀ r ∈ s.1.left ends s.2 l, r ∈ s.1.outstanding := by
    intro r hr
    exact List.mem_of_mem_filter hr
  cases hissues : stepIssues s.2 l with
  | none =>
      have hrequests : s'.1 = { s.1 with outstanding := s.1.left ends s.2 l } := by
        rw [hafter, Requests.after, hissues]
      constructor
      · rw [step_counts hprogram, if_pos hissues, hrequests]
        exact h.counter
      · rw [hrequests]
        exact fun r hr => h.turn r (hleft r hr)
      · rw [hrequests]
        exact fun r hr => h.packetId r (hleft r hr)
  | some awaits =>
      have hnext := h.next hprogram (by simp [hissues])
      have hissued : s'.1.issued = s.1.issued + 1 := by
        rw [hafter, Requests.after, hissues]
      have hcases : ∀ r ∈ s'.1.outstanding, r ∈ s.1.outstanding ∨
          r = ⟨s.1.issued + 1, s'.2.shared.client.lastPacketId, awaits⟩ := by
        intro r hr
        rw [hafter, Requests.after, hissues] at hr
        obtain hr | hr := List.mem_append.mp hr
        · exact .inl (hleft r hr)
        · exact .inr (List.mem_singleton.mp hr)
      constructor
      · rw [hissued, hnext]
      · intro r hr
        rw [hissued]
        obtain hr | rfl := hcases r hr
        · obtain ⟨hpos, hle⟩ := h.turn r hr
          exact ⟨hpos, by omega⟩
        · exact ⟨Nat.succ_pos _, Nat.le_refl _⟩
      · intro r hr
        obtain hr | rfl := hcases r hr
        · exact h.packetId r hr
        · exact hnext

/-- An id is fresh when the requests that had it before are not outstanding any more. -/
theorem Numbered.fresh_iff (h : Numbered s) (hstep : counted ends s l = some s') :
    Fresh s l s' ↔ Spaced s l s' := by
  obtain ⟨hprogram, -⟩ := Runs.monitored_eq_some.mp hstep
  unfold Fresh Spaced
  by_cases hissues : stepIssues s.2 l = none
  · simp [hissues]
  · have hnext := h.next hprogram hissues
    have hpos : s'.2.shared.client.lastPacketId ≠ 0 := by
      rw [hnext]
      exact (Wrapping.nth_pos (Nat.succ_pos _)).ne'
    have hsame : ∀ r ∈ s.1.outstanding,
        (r.packetId = s'.2.shared.client.lastPacketId ↔ 65535 ∣ s.1.issued + 1 - r.nth) := by
      intro r hr
      obtain ⟨hturn, hle⟩ := h.turn r hr
      rw [h.packetId r hr, hnext, eq_comm]
      exact Wrapping.nth_eq_iff hturn (by omega)
    constructor
    · intro hfresh _ r hr hdvd
      exact (hfresh hissues).2 r hr ((hsame r hr).mpr hdvd)
    · intro hspaced _
      exact ⟨hpos, fun r hr heq => hspaced hissues r hr ((hsame r hr).mp heq)⟩

/-- Over every run, the packet ids that are issued are fresh if and only if at no issue an outstanding
request got its own a multiple of 65535 ids before. -/
theorem fresh_iff_spaced (ends : Ending) (ls : List Label) :
    Runs.Along (counted ends) Fresh ({}, initial) ls ↔
      Runs.Along (counted ends) Spaced ({}, initial) ls := by
  apply Runs.Along.congr (I := Numbered)
  · exact fun _ _ _ h _ hstep => h.step hstep
  · exact fun _ _ _ h hstep => h.fresh_iff hstep
  · exact numbered_initial

/-- Requests that are acknowledged within 65534 further ids keep the ids fresh. -/
theorem fresh_of_timely (ends : Ending) {ls : List Label}
    (h : Runs.Along (counted ends)
      (fun s _ _ => ∀ r ∈ s.1.outstanding, s.1.issued + 1 < r.nth + 65535) ({}, initial) ls) :
    Runs.Along (counted ends) Fresh ({}, initial) ls := by
  rw [fresh_iff_spaced]
  apply h.mono (I := Numbered) _ numbered_initial
  intro s l s' hnumbered htimely hstep
  refine ⟨hnumbered.step hstep, fun _ r hr hdvd => ?_⟩
  have hturn := hnumbered.turn r hr
  have hlt := htimely r hr
  have hle := Nat.le_of_dvd (by omega) hdvd
  omega

/-! ## A counter that goes round -/

/-- Only its acknowledgement ends a request. -/
def onlyAcknowledged : Ending := fun _ _ _ => false

/-- A publication that asks for an acknowledgement. -/
def publication : Call := .publish [116] [] .kQoS1 false

/-- What a call of `Publish` does behind its first section, as thread `i` at time `ms`. -/
def sendAlone (i : ℕ) (ms : Int) : List Label :=
  [.run i .go, .run i .go, .run i (.answer (.ok 6)), .run i (.now ms), .run i .go, .run i .go]

/-- A call of `Publish` with nothing between its sections. -/
def publishAlone (i : ℕ) (ms : Int) : List Label :=
  [.start (.call publication), .run i .go] ++ sendAlone i ms

/-- A client that connects, without a keep-alive. -/
def connectAlone : List Label :=
  [.start (.call (.setKeepAlive 0)), .run 0 .go, .start (.call (.connect [104] 1883 true)),
    .run 1 .go, .run 1 (.answer (.ok 0)), .run 1 (.answer (.ok 0)), .run 1 .go, .run 1 .go,
    .run 1 .go, .run 1 (.answer (.ok 14)), .run 1 (.now 1), .run 1 .go,
    .start (.data 0 (frame .kConnack 0 [0, 0])), .run 2 .go, .run 2 .go, .run 2 .go, .run 2 .go,
    .run 1 .go, .run 1 .go, .run 1 .go, .run 1 .go, .run 1 .go]

section

variable {requests : Requests} {w w' : Conn} {threads : List (List Task)} {task : Task}
  {ks ks' : List Task} {c : Choice} {t : ℕ}

theorem left_onlyAcknowledged {cfg : Config} {l : Label}
    (h : ∀ r, stepAcknowledges cfg l r = false) :
    requests.left onlyAcknowledged cfg l = requests.outstanding := by
  apply List.filter_eq_self.mpr
  intro r _
  simp [h r, onlyAcknowledged]

theorem stepIssues_last (w : Conn) (threads : List (List Task)) (task : Task) (ks : List Task)
    (c : Choice) :
    stepIssues ⟨w, threads ++ [task :: ks]⟩ (.run threads.length c) = issues w.client task.sect := by
  have hget : (threads ++ [task :: ks])[threads.length]? = some (task :: ks) := by simp
  rw [stepIssues, Sections.Label.front_run hget, Option.bind_some]

/-- A step of the last thread that acknowledges nothing. -/
theorem counted_last (hexec : Conn.exec task c w = some (w', ks'))
    (hack : ∀ r, acknowledges r task.sect = false) :
    counted onlyAcknowledged (requests, ⟨w, threads ++ [task :: ks]⟩) (.run threads.length c) =
      some (match issues w.client task.sect with
        | none => requests
        | some awaits => ⟨requests.issued + 1,
            requests.outstanding ++ [⟨requests.issued + 1, w'.client.lastPacketId, awaits⟩]⟩,
        ⟨w', threads ++ [ks' ++ ks]⟩) := by
  have hstep : program.step ⟨w, threads ++ [task :: ks]⟩ (.run threads.length c) =
      some ⟨w', threads ++ [ks' ++ ks]⟩ := by
    rw [Sections.Program.step_last]
    exact congrArg (Option.map _) hexec
  have hget : (threads ++ [task :: ks])[threads.length]? = some (task :: ks) := by simp
  have hleft : requests.left onlyAcknowledged ⟨w, threads ++ [task :: ks]⟩
      (.run threads.length c) = requests.outstanding := by
    apply left_onlyAcknowledged
    intro r
    rw [stepAcknowledges, Sections.Label.front_run hget]
    exact hack r
  apply Runs.monitored_eq_some.mpr
  refine ⟨hstep, ?_⟩
  rw [Requests.after, stepIssues_last, hleft]

/-- A publication whose packet goes out returns, and its client stays connected. -/
theorem exec_sendAlone (requests : Requests) (threads : List (List Task)) (o : Origin) (packet : Bytes)
    (packetId : ℕ) (hconnected : w.client.connected = true) (ht : w.client.transport = some t) :
    ∃ w', Runs.exec (counted onlyAcknowledged)
        (requests, ⟨w, threads ++ [[⟨o, .sendPacket packet (.publish packetId)⟩]]⟩)
        (sendAlone threads.length w.clock) = some (requests, ⟨w', threads ++ [[]]⟩) ∧
      w'.client.connected = true ∧ w'.client.transport = some t := by
  let sending : Conn := w.log o (.sending t packet (.publish packetId))
  let sent : Conn := sending.log o (.sent t packet (.publish packetId) (.ok 6))
  let noted : Conn := { sent with client := { sent.client with lastSentMs := w.clock } }
  have hforwards : Conn.exec ⟨o, .sendPacket packet (.publish packetId)⟩ .go w =
      some (w, [⟨o, .transportSend t packet (.publish packetId)⟩]) := by
    change some (w, o.tasks (w.sendPacket packet _)) = _
    rw [Conn.sendPacket, ht]
    rfl
  have hnotes : Conn.exec ⟨o, .storeLastSent⟩ (.now w.clock) sent = some (noted, []) := by
    have hclock : sent.readClock w.clock = some sent := if_pos (Int.le_refl w.clock)
    change (sent.readClock w.clock).bind _ = _
    rw [hclock]
    rfl
  refine ⟨noted.log o (.returned (.ok (some packetId))), ?_, hconnected, ht⟩
  refine Option.bind_eq_some_iff.mpr ⟨_, counted_last hforwards fun _ => rfl, ?_⟩
  refine Option.bind_eq_some_iff.mpr ⟨_, @counted_last requests w sending threads
    ⟨o, .transportSend t packet (.publish packetId)⟩ [] _ .go rfl fun _ => rfl, ?_⟩
  refine Option.bind_eq_some_iff.mpr ⟨_, @counted_last requests sending sent threads
    ⟨o, .sending t packet (.publish packetId)⟩ [] _ (.answer (.ok 6)) rfl fun _ => rfl, ?_⟩
  refine Option.bind_eq_some_iff.mpr ⟨_, counted_last hnotes fun _ => rfl, ?_⟩
  refine Option.bind_eq_some_iff.mpr ⟨_, @counted_last requests noted noted threads
    ⟨o, .packetSent (.publish packetId) (.ok ())⟩ [] _ .go rfl fun _ => rfl, ?_⟩
  exact Option.bind_eq_some_iff.mpr ⟨_, @counted_last requests noted _ threads
    ⟨o, .returned (.ok (some packetId))⟩ [] _ .go rfl fun _ => rfl, rfl⟩

/-- A call begins. -/
theorem counted_start (requests : Requests) (w : Conn) (threads : List (List Task)) (call : Call) :
    counted onlyAcknowledged (requests, ⟨w, threads⟩) (.start (.call call)) =
      some (requests, ⟨(w.newCall call).1, threads ++ [[⟨.call w.calls, .call call⟩]]⟩) := by
  apply Runs.monitored_eq_some.mpr
  refine ⟨rfl, ?_⟩
  have hleft : requests.left onlyAcknowledged ⟨w, threads⟩ (.start (.call call)) =
      requests.outstanding := left_onlyAcknowledged fun _ => rfl
  rw [Requests.after, hleft]
  rfl

theorem issues_publication (hconnected : w.client.connected = true) :
    issues w.client (.call publication) = some .kPuback := by
  change (if w.client.connected = false then none else some MqttPacketType.kPuback) = _
  rw [hconnected]
  rfl

theorem call_publication (hconnected : w.client.connected = true) (o : Origin) :
    w.call o publication =
      ({ w with client := { w.client with
          lastPacketId := Conn.nextPacketId w.client.lastPacketId } },
        [.sendPacket (encodePublish (Conn.nextPacketId w.client.lastPacketId) [116] [] 1 false)
          (.publish (Conn.nextPacketId w.client.lastPacketId))]) := by
  have hnot : ¬w.client.connected = false := by
    rw [hconnected]
    exact nofun
  exact (if_neg hnot).trans (if_pos (by decide))

/-- It takes the next id, and waits for its PUBACK. -/
theorem counted_publication (requests : Requests) (threads : List (List Task)) (o : Origin)
    (hconnected : w.client.connected = true) :
    counted onlyAcknowledged (requests, ⟨w, threads ++ [[⟨o, .call publication⟩]]⟩)
        (.run threads.length .go) =
      some (⟨requests.issued + 1, requests.outstanding ++
          [⟨requests.issued + 1, Conn.nextPacketId w.client.lastPacketId, .kPuback⟩]⟩,
        ⟨(w.call o publication).1, threads ++ [o.tasks (w.call o publication).2 ++ []]⟩) := by
  rw [counted_last (c := .go) rfl fun _ => rfl, issues_publication hconnected]
  rw [call_publication hconnected]

/-- A publication from its call to its return. -/
theorem exec_publishAlone (requests : Requests) (threads : List (List Task))
    (hconnected : w.client.connected = true) (ht : w.client.transport = some t) :
    ∃ w' r, Runs.exec (counted onlyAcknowledged) (requests, ⟨w, threads⟩)
        (publishAlone threads.length w.clock) =
          some (⟨requests.issued + 1, requests.outstanding ++ [r]⟩, ⟨w', threads ++ [[]]⟩) ∧
      r.nth = requests.issued + 1 ∧ w'.client.connected = true ∧ w'.client.transport = some t := by
  let packetId := Conn.nextPacketId w.client.lastPacketId
  let r : Outstanding := ⟨requests.issued + 1, packetId, .kPuback⟩
  let called : Conn := (w.newCall publication).1
  let taken : Conn := { called with client := { called.client with lastPacketId := packetId } }
  obtain ⟨w', hsends, hconnected', ht'⟩ :=
    @exec_sendAlone taken t ⟨requests.issued + 1, requests.outstanding ++ [r]⟩ threads
      (.call w.calls) (encodePublish packetId [116] [] 1 false) packetId hconnected ht
  refine ⟨w', r, ?_, rfl, hconnected', ht'⟩
  rw [publishAlone, Runs.exec_append]
  refine Option.bind_eq_some_iff.mpr ⟨_, ?_, hsends⟩
  have hcalled : called.client.connected = true := hconnected
  rw [Runs.exec_cons, counted_start, Option.bind_some, Runs.exec_cons,
    counted_publication _ _ _ hcalled, call_publication hcalled]
  rfl

/-- One publication after the other, without an acknowledgement. -/
theorem exec_publications (n : ℕ) (requests : Requests) (threads : List (List Task))
    (hconnected : w.client.connected = true) (ht : w.client.transport = some t) :
    ∃ ls requests' w' threads', Runs.exec (counted onlyAcknowledged) (requests, ⟨w, threads⟩) ls =
        some (requests', ⟨w', threads'⟩) ∧ requests'.issued = requests.issued + n ∧
      (∀ r ∈ requests.outstanding, r ∈ requests'.outstanding) ∧ w'.client.connected = true := by
  induction n generalizing requests w threads with
  | zero => exact ⟨[], _, _, _, rfl, rfl, fun _ hr => hr, hconnected⟩
  | succ n ih =>
      obtain ⟨w₁, r₁, hfirst, -, hconnected₁, ht₁⟩ :=
        exec_publishAlone requests threads hconnected ht
      obtain ⟨ls, requests', w', threads', hrest, hissued, hkept, hconnected'⟩ :=
        ih ⟨requests.issued + 1, requests.outstanding ++ [r₁]⟩ (threads ++ [[]]) hconnected₁ ht₁
      refine ⟨publishAlone threads.length w.clock ++ ls, requests', w', threads', ?_, ?_, ?_,
        hconnected'⟩
      · rw [Runs.exec_append, hfirst]
        exact hrest
      · have hsum : requests'.issued = requests.issued + 1 + n := hissued
        omega
      · intro r hr
        exact hkept r (List.mem_append_left _ hr)

end

/-- The 65536th publication gets the id of the first one, which still waits for its PUBACK. -/
theorem packetId_reused :
    ¬ ∀ ls : List Label, Runs.Along (counted onlyAcknowledged) Fresh ({}, initial) ls := by
  intro h
  obtain ⟨w, threads, hconnects, hconnected, ht⟩ : ∃ w threads,
      Runs.exec (counted onlyAcknowledged) ({}, initial) connectAlone = some ({}, ⟨w, threads⟩) ∧
        w.client.connected = true ∧ w.client.transport = some 0 := ⟨_, _, rfl, rfl, rfl⟩
  obtain ⟨w₁, r, hfirst, hnth, hconnected₁, ht₁⟩ := exec_publishAlone {} threads hconnected ht
  obtain ⟨ls, requests, w₂, threads₂, hrest, hissued, hkept, hconnected₂⟩ :=
    exec_publications 65534 ⟨0 + 1, [] ++ [r]⟩ (threads ++ [[]]) hconnected₁ ht₁
  have hruns : Runs.exec (counted onlyAcknowledged) ({}, initial)
      (connectAlone ++ (publishAlone threads.length w.clock ++ ls)) =
        some (requests, ⟨w₂, threads₂⟩) := by
    rw [Runs.exec_append, hconnects, Option.bind_some, Runs.exec_append, hfirst]
    exact hrest
  -- the next publication is the one that the counter comes round for
  have hspaced := ((fresh_iff_spaced _ _).mp
    (h (_ ++ [.start (.call publication), .run threads₂.length .go]))).behind hruns
  obtain ⟨-, hlast⟩ := hspaced _ (counted_start _ _ _ _)
  obtain ⟨hlast, -⟩ := hlast _ (counted_publication _ _ _ hconnected₂)
  have hissues := (stepIssues_last (w₂.newCall publication).1 threads₂
    ⟨.call w₂.calls, .call publication⟩ [] .go).trans (issues_publication hconnected₂)
  have hmem : r ∈ requests.outstanding := hkept r (by simp)
  apply hlast (by rw [hissues]; exact nofun) r hmem
  have hcount : requests.issued = 0 + 1 + 65534 := hissued
  have hturn : r.nth = 0 + 1 := hnth
  change 65535 ∣ requests.issued + 1 - r.nth
  rw [hcount, hturn]

end EspModemLink.Mqtt
