import EspModemLink.Mqtt.KeepAlive
import EspModemLink.Mqtt.Requests

/-!
# The keep-alive that is advertised and the one that is kept

`Connect` writes the interval into a field of sixteen bits, and the keep-alive task takes it as it
was set. The two are the same if and only if the field can hold it.
-/

namespace EspModemLink.Mqtt

open Bytes

/-! ## The two intervals -/

/-- The keep-alive field of a CONNECT, in seconds, as the broker reads it. It lies behind the name
and the level of the protocol and the flags. -/
def advertised (packet : Bytes) : Option ℕ :=
  match takePacket packet with
  | none => none
  | some (p, _) =>
      if p.header.type = .kConnect ∧ 10 ≤ p.body.length then some (readUint16 p.body 8) else none

/-- The interval of a section of `KeepAliveLoop`, with the `SendPacket` of its PINGREQ. -/
def Sect.interval : Sect → Option Int
  | .keepAliveLoop interval | .keepAliveTick interval | .keepAliveNow interval
  | .keepAlivePing interval _ | .keepAliveIdle interval _
  | .sendPacket _ (.keepAlive interval _) | .transportSend _ _ (.keepAlive interval _)
  | .sending _ _ (.keepAlive interval _) | .packetSent (.keepAlive interval _) _ => some interval
  | _ => none

/-- The interval of the pings, in milliseconds, that a section settles on. It is zero where
`StartKeepAlive` makes no task or `KeepAliveLoop` ends at its begin. -/
def Conn.settles (w : Conn) : Sect → Option Int
  | .startKeepAlive => if w.startKeepAlive = [] then some 0 else none
  | .keepAliveBegin => some ((w.keepAliveBegin.head?.bind Sect.interval).getD 0)
  | _ => none

/-- The interval that a step settles on. -/
def settles (cfg : Config) (l : Label) : Option Int :=
  (l.front cfg).bind fun task => cfg.shared.settles task.sect

/-- The interval of the loop that a step goes on with, unless one of the first `n` threads is in
it. -/
def loopInterval (n : ℕ) (cfg : Config) : Label → Option Int
  | .start _ => none
  | .run j c =>
      if j < n then none
      else ((Sections.Label.run j c : Label).front cfg).bind fun task => task.sect.interval

/-- The keep-alive of a step is the one that is advertised as `a` seconds: a step settles on nothing
else, and a loop has that interval, which is not zero. -/
def AsAdvertised (a n : ℕ) (cfg : Config) (l : Label) : Prop :=
  (∀ v ∈ settles cfg l, v = a * 1000) ∧ ∀ v ∈ loopInterval n cfg l, 0 < v ∧ v = a * 1000

def Sect.setsKeepAlive : Sect → Bool
  | .call (.setKeepAlive _) => true
  | _ => false

/-- A step executes `SetKeepAlive`. -/
def setsKeepAlive (cfg : Config) (l : Label) : Bool :=
  (l.front cfg).any fun task => task.sect.setsKeepAlive

/-- No step of a run executes `SetKeepAlive`. -/
abbrev Untouched (cfg : Config) (ls : List Label) : Prop :=
  Runs.Along program.step (fun c l _ => setsKeepAlive c l = false) cfg ls

/-- A run that a `Connect`, call `k`, begins with `seconds` set, and that executes no
`SetKeepAlive`. -/
structure ConnectRun (seconds : Int) (k : ℕ) (cfg₁ : Config) (ls : List Label) (cfg : Config) :
    Prop where
  reached : Runs.Reachable program.step initial cfg₁
  given : cfg₁.shared.client.keepAliveSeconds = seconds
  begins : ∃ i host port cleanSession ks ls', ls = .run i .go :: ls' ∧
    cfg₁.threads[i]? = some (⟨.call k, .call (.connect host port cleanSession)⟩ :: ks)
  runs : Runs.exec program.step cfg₁ ls = some cfg
  untouched : Untouched cfg₁ ls

/-- Where a `Connect` finds `seconds` set, the interval that its CONNECT advertises is the one of
every loop behind it, and zero is advertised where there is none. -/
def KeptAsAdvertised (seconds : Int) : Prop :=
  ∀ k cfg₁ ls cfg, ConnectRun seconds k cfg₁ ls cfg →
    ∀ packet ∈ handed (eventsOf (.call k) cfg.shared.trace), ∀ a ∈ advertised packet,
      Runs.Along program.step (fun c l _ => AsAdvertised a cfg₁.threads.length c l) cfg₁ ls

/-! ## What is advertised -/

theorem connectOptions_keepAliveSeconds_lt (client : SoftwareMqttClient) (cleanSession : Bool) :
    (Conn.connectOptions client cleanSession).keepAliveSeconds < 65536 := by
  simp only [Conn.connectOptions]
  split <;> omega

/-- The field of a CONNECT that can be framed. -/
theorem advertised_connect {options : MqttConnectOptions}
    (hseconds : options.keepAliveSeconds < 65536)
    (hbody : (connectBody options).length ≤ kMaxRemainingLength) :
    advertised (encodeConnect options) = some options.keepAliveSeconds := by
  have hdrop : (connectBody options).drop 8 =
      uint16 options.keepAliveSeconds ++ connectFields options := by
    rw [connectBody_eq]
    rfl
  have hlength : 10 ≤ (connectBody options).length := by
    have hrest := congrArg List.length hdrop
    rw [List.length_drop, List.length_append, uint16_length] at hrest
    omega
  have hfield : readUint16 (connectBody options) 8 = options.keepAliveSeconds :=
    readUint16_of_drop hdrop hseconds
  rw [advertised, encodeConnect, takePacket_frame (by decide) hbody]
  simp only [frameHeader, hlength, and_self, if_true, hfield]

/-- A CONNECT that is too long for its frame is read as one with an empty body. -/
theorem advertised_connect_of_lt {options : MqttConnectOptions}
    (hbody : kMaxRemainingLength < (connectBody options).length) :
    advertised (encodeConnect options) = none := by
  have hframe : ∃ rest, encodeConnect options = 0x10 :: 0 :: rest := by
    refine ⟨(connectBody options).drop 1, ?_⟩
    rw [encodeConnect, frame, encodeRemainingLength, if_pos hbody, connectBody_eq]
    rfl
  obtain ⟨rest, hframe⟩ := hframe
  rw [hframe]
  rfl

theorem eq_of_advertised {options : MqttConnectOptions} {a : ℕ}
    (hseconds : options.keepAliveSeconds < 65536) (ha : a ∈ advertised (encodeConnect options)) :
    a = options.keepAliveSeconds := by
  obtain hbody | hbody := Nat.lt_or_ge kMaxRemainingLength (connectBody options).length
  · rw [advertised_connect_of_lt hbody] at ha
    cases ha
  · rw [advertised_connect hseconds hbody] at ha
    exact (Option.some.inj ha).symm

/-- A call hands over its packet, and at most a DISCONNECT beside it. -/
theorem Progress.packets {r : Request} {sects : List Sect} {packets : List Bytes}
    {results : List Returned} (h : Progress r sects packets results) :
    ∀ packet ∈ packets, packet = r.encode ∨ packet = encodeDisconnect := by
  have hends : ∀ (packets : List Bytes) (n : ℕ), packets = [] ∨ packets = [r.encode] →
      ∀ packet ∈ packets ++ List.replicate n encodeDisconnect,
        packet = r.encode ∨ packet = encodeDisconnect := by
    intro packets n hpackets packet hpacket
    obtain hpacket | hpacket := List.mem_append.mp hpacket
    · obtain rfl | rfl := hpackets
      · cases hpacket
      · exact .inl (List.mem_singleton.mp hpacket)
    · exact .inr (List.eq_of_mem_replicate hpacket)
  cases h with
  | creating | connecting | storing | asking | handing => simp
  | sending | stamping | sent | awaiting => simp
  | failed h hpackets => simpa using hends _ 0 hpackets
  | closing hsects hx hpackets => exact hends _ _ (hpackets.imp_left And.left)
  | done hx hpackets => exact hends _ _ (hpackets.imp_left And.left)

variable {seconds : Int} {k : ℕ} {cfg₁ cfg : Config} {ls : List Label}

/-- What a `Connect` advertises is the interval that was set, with sixteen bits of it kept. -/
theorem ConnectRun.advertises (h : ConnectRun seconds k cfg₁ ls cfg) {packet : Bytes} {a : ℕ}
    (hpacket : packet ∈ handed (eventsOf (.call k) cfg.shared.trace))
    (ha : a ∈ advertised packet) :
    (a : Int) = (if seconds < 0 then 0 else seconds) % 65536 := by
  obtain ⟨i, host, port, cleanSession, ks, ls', rfl, hget⟩ := h.begins
  have hwaits : Waits k cfg₁ :=
    Runs.Reachable.invariant (waits_initial k) (fun _ _ _ h hstep => h.step hstep) h.reached
  obtain ⟨mid, hstep, hrest⟩ := Option.bind_eq_some_iff.mp h.runs
  obtain ⟨-, sects, -, hprogress⟩ := follows_run (follows_call hwaits hget rfl hstep) hrest
  obtain rfl | rfl := hprogress.packets packet hpacket
  · rw [eq_of_advertised (connectOptions_keepAliveSeconds_lt _ _) ha]
    simp only [Conn.connectOptions, h.given]
    split <;> omega
  · cases ha

/-! ## What is kept -/

/-- `SetKeepAlive` sets the interval, and no other call does. -/
theorem call_keepAliveSeconds (w : Conn) (o : Origin) (c : Call)
    (h : (Sect.call c).setsKeepAlive = false) :
    (w.call o c).1.client.keepAliveSeconds = w.client.keepAliveSeconds := by
  cases c with
  | setKeepAlive => cases h
  | connect | subscribe | unsubscribe =>
      simp only [Conn.call, Conn.connect, Conn.subscribe, Conn.unsubscribe]
      split <;> rfl
  | publish =>
      simp only [Conn.call, Conn.publish]
      split
      · rfl
      · split <;> rfl
  | setClientId | setCredentials | setWill | setTlsConfig | disconnect => rfl

variable {task : Task} {c : Choice} {w w' : Conn} {ks : List Task}

theorem exec_keepAliveSeconds (hexec : Conn.exec task c w = some (w', ks))
    (h : task.sect.setsKeepAlive = false) :
    w'.client.keepAliveSeconds = w.client.keepAliveSeconds := by
  obtain hsame | ⟨call, hsect, rfl⟩ := exec_settings hexec
  · exact congrArg (·.keepAliveSeconds) hsame
  · exact call_keepAliveSeconds w task.origin call (hsect ▸ h)

theorem inLoop_of_interval {v : Int} (h : task.sect.interval = some v) : inLoop task = 1 := by
  unfold Sect.interval at h
  split at h
  case h_10 => cases h
  all_goals
    rename_i hsect
    simp only [inLoop, hsect]

/-- The loop has its interval behind its begin and up to its end. -/
theorem loop_cases (task : Task) :
    inLoop task = 0 ∨ (∃ u, task.sect.interval = some u) ∨ task.sect = .keepAliveBegin ∨
      task.sect = .keepAliveEnd := by
  unfold inLoop
  split
  case h_1 hsect => exact .inr (.inr (.inl hsect))
  case h_7 hsect => exact .inr (.inr (.inr hsect))
  case h_12 => exact .inl rfl
  all_goals
    rename_i hsect
    exact .inr (.inl ⟨_, by rw [hsect]; rfl⟩)

/-- A delivery begins apart from the loop. -/
theorem interval_of_delivery {first : Task} {v : Int} (h : w.delivery c = some first) :
    first.sect.interval ≠ some v := by
  intro hv
  obtain ⟨-, hapart⟩ : beatOf 0 first c = .quiet ∧ first.sect.apart = true := beatOf_delivery h
  have hzero := inLoop_of_apart hapart
  rw [inLoop_of_interval hv] at hzero
  cases hzero

/-- Sections whose interval is `u`, if they have one. -/
def AllAt (u : Int) (sects : List Sect) : Prop := ∀ s ∈ sects, ∀ v, s.interval = some v → v = u

theorem allAt_of_push {o : Origin} {v' : Conn} {sects : List Sect} {u v : Int}
    (hall : AllAt u sects) (h : some (v', o.tasks sects) = some (w', ks)) {x : Task} (hx : x ∈ ks)
    (hv : x.sect.interval = some v) : v = u := by
  obtain ⟨rfl, rfl⟩ := Prod.mk.inj (Option.some.inj h)
  obtain ⟨s, hs, rfl⟩ := List.mem_map.mp hx
  exact hall s hs v hv

/-- A section of the loop that has an interval. -/
theorem exec_loop {u : Int} (hu : task.sect.interval = some u)
    (hexec : Conn.exec task c w = some (w', ks)) :
    ∀ x ∈ ks, ∀ v, x.sect.interval = some v → v = u := by
  obtain ⟨o, s⟩ := task
  intro x hx v hv
  have hpush : ∀ {v' : Conn} {sects : List Sect}, some (v', o.tasks sects) = some (w', ks) →
      AllAt u sects → v = u := fun h hall => allAt_of_push hall h hx hv
  cases s with
  | keepAliveLoop interval | keepAliveTick interval =>
      obtain rfl := Option.some.inj hu
      cases c with
      | go =>
          apply hpush hexec
          split <;> simp [AllAt, Sect.interval]
      | now | answer | data | closed | timeout | call => cases hexec
  | keepAliveNow interval =>
      obtain rfl := Option.some.inj hu
      cases c with
      | now ms =>
          obtain ⟨w₁, -, hexec⟩ := Option.bind_eq_some_iff.mp hexec
          exact hpush hexec (by simp [AllAt, Sect.interval])
      | go | answer | data | closed | timeout | call => cases hexec
  | keepAlivePing interval now =>
      obtain rfl := Option.some.inj hu
      cases c with
      | go =>
          apply hpush hexec
          unfold Conn.keepAlivePing
          split
          · simp [AllAt, Sect.interval]
          · split <;> simp [AllAt, Sect.interval]
      | now | answer | data | closed | timeout | call => cases hexec
  | keepAliveIdle interval now =>
      obtain rfl := Option.some.inj hu
      cases c with
      | go =>
          apply hpush hexec
          unfold Conn.keepAliveIdle
          split <;> simp [AllAt, Sect.interval]
      | now | answer | data | closed | timeout | call => cases hexec
  | sendPacket packet caller =>
      cases caller with
      | keepAlive interval now =>
          obtain rfl := Option.some.inj hu
          cases c with
          | go =>
              apply hpush hexec
              unfold Conn.sendPacket
              split <;> simp [AllAt, Sect.interval]
          | now | answer | data | closed | timeout | call => cases hexec
      | connect | publish | subscribe | unsubscribe | handler | goodbye => cases hu
  | transportSend t packet caller =>
      cases caller with
      | keepAlive interval now =>
          obtain rfl := Option.some.inj hu
          cases c with
          | go => exact hpush hexec (by simp [AllAt, Sect.interval])
          | now | answer | data | closed | timeout | call => cases hexec
      | connect | publish | subscribe | unsubscribe | handler | goodbye => cases hu
  | sending t packet caller =>
      cases caller with
      | keepAlive interval now =>
          obtain rfl := Option.some.inj hu
          cases c with
          | answer result =>
              apply hpush hexec
              cases result <;> simp [AllAt, Conn.sent, Sect.interval]
          | data | closed =>
              -- a delivery comes in front of the section
              obtain ⟨first, hfirst, hout⟩ := Option.map_eq_some_iff.mp hexec
              obtain ⟨rfl, rfl⟩ := Prod.mk.inj hout
              obtain rfl | hx := List.mem_cons.mp hx
              · exact absurd hv (interval_of_delivery hfirst)
              · obtain rfl := List.mem_singleton.mp hx
                exact (Option.some.inj hv).symm
          | go | now | timeout | call => cases hexec
      | connect | publish | subscribe | unsubscribe | handler | goodbye => cases hu
  | packetSent caller result =>
      cases caller with
      | keepAlive interval now =>
          obtain rfl := Option.some.inj hu
          cases c with
          | go =>
              apply hpush hexec
              cases result <;> simp [AllAt, Conn.packetSent, Sect.interval]
          | now | answer | data | closed | timeout | call => cases hexec
      | connect | publish | subscribe | unsubscribe | handler | goodbye => cases hu
  | _ => cases hu

/-- `KeepAliveLoop` takes its interval at its begin. -/
theorem exec_keepAliveBegin (hsect : task.sect = .keepAliveBegin)
    (hexec : Conn.exec task c w = some (w', ks)) :
    ∀ x ∈ ks, ∀ v, x.sect.interval = some v →
      0 < w.client.keepAliveSeconds ∧ v = w.client.keepAliveSeconds * 1000 := by
  obtain ⟨o, s⟩ := task
  obtain rfl : s = .keepAliveBegin := hsect
  intro x hx v hv
  cases c with
  | go =>
      obtain hnone | hpos := Int.lt_or_le 0 w.client.keepAliveSeconds |>.symm
      · have hends : w.keepAliveBegin = [.stopLoop, .keepAliveEnd] := if_pos hnone
        obtain ⟨rfl, rfl⟩ := Prod.mk.inj (Option.some.inj hexec)
        obtain ⟨s, hs, rfl⟩ := List.mem_map.mp hx
        rw [hends] at hs
        obtain rfl | rfl : s = .stopLoop ∨ s = .keepAliveEnd := by simpa using hs
        · cases hv
        · cases hv
      · have hloop : w.keepAliveBegin = [.keepAliveLoop (w.client.keepAliveSeconds * 1000)] :=
          if_neg (Int.not_le.mpr hpos)
        refine ⟨hpos, allAt_of_push ?_ hexec hx hv⟩
        rw [hloop]
        simp [AllAt, Sect.interval]
  | now | answer | data | closed | timeout | call => cases hexec

/-- A section of `KeepAliveLoop` leaves sections with the interval it has, and the loop takes its
interval at its begin. -/
theorem exec_interval (hexec : Conn.exec task c w = some (w', ks)) {x : Task} (hx : x ∈ ks)
    {v : Int} (hv : x.sect.interval = some v) :
    task.sect.interval = some v ∨
      0 < w.client.keepAliveSeconds ∧ v = w.client.keepAliveSeconds * 1000 := by
  obtain hapart | ⟨u, hu⟩ | hbegin | hend := loop_cases task
  · -- a section apart from the loop leaves none of its sections
    have hnone : Sections.weight inLoop ks = 0 := by
      cases (exec_beats (i := 0) hexec).loop with
      | stays _ hloop => rw [hloop, hapart]
      | ends _ _ hloop => exact hloop
      | swaps _ _ _ hloop => exact hloop
    have hle := Sections.le_weight (f := inLoop) hx
    rw [inLoop_of_interval hv] at hle
    omega
  · exact .inl (by rw [exec_loop hu hexec x hx v hv, hu])
  · exact .inr (exec_keepAliveBegin hbegin hexec x hx v hv)
  · obtain ⟨o, s⟩ := task
    obtain rfl : s = .keepAliveEnd := hend
    cases c with
    | go =>
        obtain ⟨-, rfl⟩ := Prod.mk.inj (Option.some.inj hexec)
        cases hx
    | now | answer | data | closed | timeout | call => cases hexec

/-- A new thread begins in front of the loop or apart from it. -/
theorem interval_of_entry {e : Entry} {q : List Task} (h : Conn.entry e w = some (w', q)) :
    w'.client.keepAliveSeconds = w.client.keepAliveSeconds ∧ ∀ x ∈ q, x.sect.interval = none := by
  cases e with
  | call call =>
      obtain ⟨rfl, rfl⟩ := Prod.mk.inj (Option.some.inj h)
      exact ⟨rfl, by simp [Conn.newCall, Sect.interval]⟩
  | data | closed =>
      obtain ⟨first, hfirst, hout⟩ := Option.map_eq_some_iff.mp h
      obtain ⟨rfl, rfl⟩ := Prod.mk.inj hout
      refine ⟨rfl, fun x hx => ?_⟩
      rw [List.mem_singleton.mp hx]
      exact Option.eq_none_iff_forall_ne_some.mpr fun v => interval_of_delivery hfirst
  | keepAlive =>
      simp only [Conn.entry] at h
      split at h
      · obtain ⟨rfl, rfl⟩ := Prod.mk.inj (Option.some.inj h)
        exact ⟨rfl, by simp [Sect.interval]⟩
      · cases h

/-- The interval stays as it was set, and every loop in a thread from `n` on has it. -/
structure Paced (seconds : Int) (n : ℕ) (cfg : Config) : Prop where
  given : cfg.shared.client.keepAliveSeconds = seconds
  loops : ∀ j q, n ≤ j → cfg.threads[j]? = some q → ∀ x ∈ q, ∀ v, x.sect.interval = some v →
    0 < seconds ∧ v = seconds * 1000

theorem Paced.step {n : ℕ} {cfg cfg' : Config} {l : Label} (h : Paced seconds n cfg)
    (hsets : setsKeepAlive cfg l = false) (hstep : program.step cfg l = some cfg') :
    Paced seconds n cfg' := by
  obtain ⟨e, w', q, rfl, hentry, rfl⟩ | ⟨i, c, task, ks, w', ks', rfl, hget, hexec, rfl⟩ :=
    Sections.Program.step_cases hstep
  · obtain ⟨hsame, hnone⟩ := interval_of_entry hentry
    refine ⟨hsame.trans h.given, ?_⟩
    intro j p hj hp x hx v hv
    obtain hlt | hge := Nat.lt_or_ge j cfg.threads.length
    · rw [List.getElem?_append_left hlt] at hp
      exact h.loops j p hj hp x hx v hv
    · rw [List.getElem?_append_right hge] at hp
      rw [hnone x (List.mem_singleton.mp (List.mem_of_getElem? hp) ▸ hx)] at hv
      cases hv
  · have htask : task.sect.setsKeepAlive = false := by
      simpa [setsKeepAlive, Sections.Label.front_run hget] using hsets
    refine ⟨(exec_keepAliveSeconds hexec htask).trans h.given, ?_⟩
    intro j p hj hp x hx v hv
    obtain rfl | hij := eq_or_ne i j
    · have hi : i < cfg.threads.length := (List.getElem?_eq_some_iff.mp hget).1
      rw [List.getElem?_set_self hi] at hp
      obtain rfl := Option.some.inj hp
      obtain hx | hx := List.mem_append.mp hx
      · obtain hu | hbegin := exec_interval hexec hx hv
        · exact h.loops i _ hj hget task (List.mem_cons_self ..) v hu
        · rw [h.given] at hbegin
          exact hbegin
      · exact h.loops i _ hj hget x (List.mem_cons_of_mem _ hx) v hv
    · rw [List.getElem?_set_ne hij] at hp
      exact h.loops j p hj hp x hx v hv

/-- `StartKeepAlive` and `KeepAliveLoop` settle on the interval that is set, or on no pings. -/
theorem settles_eq {sect : Sect} {v : Int} (hv : w.settles sect = some v) :
    v = (if w.client.keepAliveSeconds < 0 then 0 else w.client.keepAliveSeconds) * 1000 := by
  unfold Conn.settles at hv
  split at hv
  · split at hv
    · rename_i hstart
      have hle : w.client.keepAliveSeconds ≤ 0 := by
        by_contra hpos
        rw [Conn.startKeepAlive, if_neg hpos] at hstart
        cases hstart
      obtain rfl := Option.some.inj hv
      split <;> omega
    · cases hv
  · unfold Conn.keepAliveBegin at hv
    split at hv
    · obtain rfl : 0 = v := Option.some.inj hv
      split <;> omega
    · obtain rfl : w.client.keepAliveSeconds * 1000 = v := Option.some.inj hv
      split <;> omega
  · cases hv

theorem Paced.settles_eq {n : ℕ} {cfg : Config} {l : Label} (h : Paced seconds n cfg) {v : Int}
    (hv : v ∈ settles cfg l) : v = (if seconds < 0 then 0 else seconds) * 1000 := by
  obtain ⟨task, -, hv⟩ := Option.bind_eq_some_iff.mp hv
  rw [← h.given]
  exact Mqtt.settles_eq hv

theorem Paced.loopInterval_eq {n : ℕ} {cfg : Config} {l : Label} (h : Paced seconds n cfg) {v : Int}
    (hv : v ∈ loopInterval n cfg l) : 0 < seconds ∧ v = seconds * 1000 := by
  cases l with
  | start => cases hv
  | run j c =>
      simp only [loopInterval, Option.mem_def] at hv
      split at hv
      · cases hv
      · rename_i hj
        obtain ⟨task, hfront, hv⟩ := Option.bind_eq_some_iff.mp hv
        obtain ⟨i, c', ks, hl, hget⟩ := Sections.Label.of_front hfront
        obtain ⟨rfl, rfl⟩ := Sections.Label.run.inj hl
        exact h.loops j _ (Nat.not_lt.mp hj) hget task (List.mem_cons_self ..) v hv

/-- An interval that the field can hold is kept as it is advertised. -/
theorem keptAsAdvertised (hfits : seconds ≤ 65535) : KeptAsAdvertised seconds := by
  intro k cfg₁ ls cfg h packet hpacket a ha
  have hadvertised := h.advertises hpacket ha
  apply h.untouched.mono (I := Paced seconds cfg₁.threads.length)
  · intro c l c' hpaced hsets hstep
    refine ⟨hpaced.step hsets hstep, fun v hv => ?_, fun v hv => ?_⟩
    · rw [hpaced.settles_eq hv, hadvertised]
      split <;> omega
    · obtain ⟨hpos, rfl⟩ := hpaced.loopInterval_eq hv
      rw [if_neg (by omega)] at hadvertised
      omega
  · refine ⟨h.given, ?_⟩
    intro j q hj hq
    have hlt := (List.getElem?_eq_some_iff.mp hq).1
    omega

/-! ## An interval that the field cannot hold -/

/-- `SetKeepAlive` with `seconds`, and a `Connect` before its first section. -/
def settingLabels (seconds : Int) : List Label :=
  [.start (.call (.setKeepAlive seconds)), .run 0 .go, .start (.call (.connect [104] 1883 true))]

/-- The `Connect` up to its wait for the CONNACK. -/
def connectingLabels : List Label :=
  [.run 1 .go, .run 1 (.answer (.ok 0)), .run 1 (.answer (.ok 0)), .run 1 .go, .run 1 .go,
    .run 1 .go, .run 1 (.answer (.ok 14)), .run 1 (.now 1), .run 1 .go]

/-- The CONNACK arrives, and the wait ends. -/
def connackLabels : List Label :=
  [.start (.data 0 (frame .kConnack 0 [0, 0])), .run 2 .go, .run 2 .go, .run 2 .go, .run 1 .go]

/-- `StartKeepAlive`, and the begin of the task that it makes. -/
def startedLabels : List Label :=
  [.run 1 .go, .run 1 .go, .run 1 (.now 2), .run 1 .go, .run 1 .go, .run 1 .go, .start .keepAlive]

theorem connecting_run (seconds : Int) :
    ∃ cfg₁ w, Runs.exec program.step initial (settingLabels seconds) = some cfg₁ ∧
      cfg₁.shared.client.keepAliveSeconds = seconds ∧
      cfg₁.threads = [[], [⟨.call 1, .call (.connect [104] 1883 true)⟩]] ∧
      Runs.exec program.step cfg₁ connectingLabels = some ⟨w, [[], [⟨.call 1, .await⟩]]⟩ ∧
      Untouched cfg₁ connectingLabels ∧ w.client.rxBuffer = [] ∧ w.client.connecting = true ∧
      w.client.connackError = none ∧ w.client.keepAliveTask = none ∧
      w.client.keepAliveSeconds = seconds ∧ w.transports = [0] ∧ w.clock = 1 ∧
      handed (eventsOf (.call 1) w.trace) =
        [encodeConnect (Conn.connectOptions { keepAliveSeconds := seconds } true)] :=
  ⟨_, _, rfl, rfl, rfl, rfl, of_decide_eq_true rfl, rfl, rfl, rfl, rfl, rfl, rfl, rfl, rfl⟩

/-- The threads behind the CONNACK. -/
def connackThreads (sects : List Sect) : List (List Task) :=
  [[], (Origin.call 1).tasks (sects ++ [.callback .connected, .returned (.ok none)]),
    [⟨.delivery 0, .takePackets⟩]]

theorem connack_run (hbuffer : w.client.rxBuffer = []) (hconnecting : w.client.connecting = true)
    (herror : w.client.connackError = none) (ht : w.transports = [0]) :
    ∃ w', Runs.exec program.step ⟨w, [[], [⟨.call 1, .await⟩]]⟩ connackLabels =
        some ⟨w', connackThreads [.startKeepAlive]⟩ ∧
      Untouched ⟨w, [[], [⟨.call 1, .await⟩]]⟩ connackLabels ∧
      w'.client.settings = w.client.settings ∧
      w'.client.keepAliveTask = w.client.keepAliveTask ∧ w'.clock = w.clock := by
  obtain ⟨⟨⟩⟩ := w
  simp only at hbuffer hconnecting herror ht
  subst hbuffer hconnecting herror ht
  exact ⟨_, rfl, of_decide_eq_true rfl, rfl, rfl, rfl⟩

theorem started_run {n : ℕ} (hseconds : w.client.keepAliveSeconds = (n + 1 : ℕ))
    (htask : w.client.keepAliveTask = none) (hclock : w.clock = 1) :
    ∃ w', Runs.exec program.step ⟨w, connackThreads [.startKeepAlive]⟩ startedLabels =
        some ⟨w', connackThreads [] ++ [[⟨.keepAlive, .keepAliveBegin⟩]]⟩ ∧
      Untouched ⟨w, connackThreads [.startKeepAlive]⟩ startedLabels ∧
      w'.client.settings = w.client.settings := by
  obtain ⟨⟨⟩⟩ := w
  simp only at hseconds htask hclock
  subst hseconds htask hclock
  exact ⟨_, rfl, of_decide_eq_true rfl, rfl⟩

/-- What has been handed over stays so. -/
theorem handed_step {o : Origin} {l : Label} {packet : Bytes}
    (hstep : program.step cfg₁ l = some cfg)
    (hpacket : packet ∈ handed (eventsOf o cfg₁.shared.trace)) :
    packet ∈ handed (eventsOf o cfg.shared.trace) := by
  obtain ⟨es, htrace⟩ : ∃ es, cfg.shared.trace = cfg₁.shared.trace ++ es := by
    obtain ⟨e, w', q, rfl, hentry, rfl⟩ | ⟨i, c, task, ks, w', ks', rfl, hget, hexec, rfl⟩ :=
      Sections.Program.step_cases hstep
    · obtain ⟨es, -, htrace⟩ := (Conn.entry_quiet hentry).1.trace
      exact ⟨es, htrace⟩
    · exact (Conn.exec_effect hexec).trace
  rw [htrace, eventsOf_append, handed, List.filterMap_append]
  exact List.mem_append_left _ hpacket

theorem handed_run {o : Origin} {packet : Bytes} (hrun : Runs.exec program.step cfg₁ ls = some cfg)
    (hpacket : packet ∈ handed (eventsOf o cfg₁.shared.trace)) :
    packet ∈ handed (eventsOf o cfg.shared.trace) :=
  Runs.Reachable.invariant (I := fun c => packet ∈ handed (eventsOf o c.shared.trace)) hpacket
    (fun _ _ _ h hstep => handed_step hstep h) ⟨ls, hrun⟩

/-- A `Connect` with a positive interval set, up to the begin of `KeepAliveLoop`. -/
theorem positive_run {n : ℕ} (hn : seconds = (n + 1 : ℕ)) :
    ∃ cfg₁ ls w,
      ConnectRun seconds 1 cfg₁ ls ⟨w, connackThreads [] ++ [[⟨.keepAlive, .keepAliveBegin⟩]]⟩ ∧
      w.client.keepAliveSeconds = seconds ∧
      encodeConnect (Conn.connectOptions { keepAliveSeconds := seconds } true) ∈
        handed (eventsOf (.call 1) w.trace) := by
  obtain ⟨cfg₁, w₁, hset, hgiven, hthreads, hconnecting, huntouched₁, hbuffer, hwaits, herror,
    htask, hseconds₁, htransports, hclock, hhanded⟩ := connecting_run seconds
  obtain ⟨w₂, hconnack, huntouched₂, hsame₂, htask₂, hclock₂⟩ :=
    connack_run hbuffer hwaits herror htransports
  have hseconds₂ : w₂.client.keepAliveSeconds = seconds :=
    (congrArg (·.keepAliveSeconds) hsame₂).trans hseconds₁
  obtain ⟨w₃, hstarted, huntouched₃, hsame₃⟩ :=
    started_run (hseconds₂.trans hn) (htask₂.trans htask) (hclock₂.trans hclock)
  refine ⟨cfg₁, connectingLabels ++ (connackLabels ++ startedLabels), w₃, ?_, ?_, ?_⟩
  · refine ⟨⟨_, hset⟩, hgiven, ⟨1, [104], 1883, true, [], _, rfl, ?_⟩, ?_, ?_⟩
    · rw [hthreads]
      rfl
    · rw [Runs.exec_append, hconnecting, Option.bind_some, Runs.exec_append, hconnack]
      exact hstarted
    · exact huntouched₁.append hconnecting (huntouched₂.append hconnack huntouched₃)
  · exact (congrArg (·.keepAliveSeconds) hsame₃).trans hseconds₂
  · apply handed_run hstarted
    apply handed_run hconnack
    rw [hhanded]
    exact List.mem_singleton_self _

/-- The field keeps sixteen bits of a larger interval, and the loop pings at the whole of it. -/
theorem not_keptAsAdvertised (hlarge : 65535 < seconds) : ¬KeptAsAdvertised seconds := by
  intro hkept
  obtain ⟨n, hn⟩ : ∃ n : ℕ, seconds = (n + 1 : ℕ) := ⟨seconds.toNat - 1, by omega⟩
  obtain ⟨cfg₁, ls, w, hrun, hseconds, hhanded⟩ := positive_run hn
  let options := Conn.connectOptions { keepAliveSeconds := seconds } true
  have hlt : options.keepAliveSeconds < 65536 := connectOptions_keepAliveSeconds_lt _ _
  have hbody : (connectBody options).length = 12 := rfl
  have hfield : advertised (encodeConnect options) = some options.keepAliveSeconds :=
    advertised_connect hlt (by rw [hbody]; decide)
  -- the step in which the loop takes its interval
  let begins : Label := .run 3 .go
  obtain ⟨cfg, hstep⟩ : ∃ cfg, program.step
      ⟨w, connackThreads [] ++ [[⟨.keepAlive, .keepAliveBegin⟩]]⟩ begins = some cfg := ⟨_, rfl⟩
  have hwhole : ConnectRun seconds 1 cfg₁ (ls ++ [begins]) cfg := by
    obtain ⟨i, host, port, cleanSession, ks, ls', hls, hget⟩ := hrun.begins
    refine ⟨hrun.reached, hrun.given, ⟨i, host, port, cleanSession, ks, ls' ++ [begins], ?_, hget⟩,
      ?_, ?_⟩
    · rw [hls]
      rfl
    · rw [Runs.exec_append, hrun.runs, Option.bind_some, Runs.exec_cons, hstep]
      rfl
    · exact hrun.untouched.append hrun.runs fun s' _ => ⟨rfl, trivial⟩
  have halong := (hkept 1 cfg₁ _ cfg hwhole _ (handed_step hstep hhanded) _ hfield).behind hrun.runs
  obtain ⟨⟨hsettles, -⟩, -⟩ := halong cfg hstep
  have hbegins : w.keepAliveBegin = [.keepAliveLoop (seconds * 1000)] := by
    rw [Conn.keepAliveBegin, hseconds, if_neg (by omega)]
  have hsame : seconds * 1000 = (options.keepAliveSeconds : ℕ) * 1000 := by
    apply hsettles
    change w.settles .keepAliveBegin = some (seconds * 1000)
    rw [Conn.settles, hbegins]
    rfl
  omega

end EspModemLink.Mqtt
