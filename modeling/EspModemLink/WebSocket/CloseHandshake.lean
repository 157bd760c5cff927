import EspModemLink.WebSocket.FrameCodec
import EspModemLink.WebSocket.OpenState
import EspModemLink.WebSocket.PartialSend

/-!
# The close handshake

`Close`, `Fail` and `HandleCloseFrame` send close frames. Only the last of them asks whether one has
been sent, and `SendFragment` does not ask either.
-/

namespace EspModemLink.WebSocket

open Bytes Http

/-! ## The frames of a connection -/

/-- The opcode in the first byte of what a transport is given. A handshake request has none. -/
def opcodeOf (bytes : Bytes) : Option WsOpcode :=
  bytes.head?.bind fun first => opcodeFromRaw (first &&& kOpcodeMask)

/-- The kinds of frames that carry a message. -/
def WsOpcode.isData (opcode : WsOpcode) : Bool := !isControlOpcode opcode

/-- The frame that an event hands to transport `t`. -/
def frameOn (t : ℕ) : Event → Option WsOpcode
  | .sending t' bytes => if t' = t then opcodeOf bytes else none
  | _ => none

/-- The frames that were sent on transport `t`, in order. -/
def framesOn (t : ℕ) (trace : List (Origin × Event)) : List WsOpcode :=
  trace.filterMap fun e => frameOn t e.2

@[simp] theorem framesOn_concat (t : ℕ) (trace : List (Origin × Event)) (o : Origin) (e : Event) :
    framesOn t (trace ++ [(o, e)]) = framesOn t trace ++ (frameOn t e).toList := by
  cases h : frameOn t e <;> simp [framesOn, h]

/-- Nothing but pings and pongs is sent behind a close frame. -/
def ClosedOnce (frames : List WsOpcode) : Prop :=
  ∀ front back, frames = front ++ .kClose :: back →
    ∀ opcode ∈ back, opcode ≠ .kClose ∧ opcode.isData = false

/-- A frame may follow as long as it is a ping or a pong or no close frame was sent. -/
theorem ClosedOnce.concat {frames : List WsOpcode} (h : ClosedOnce frames) {opcode : WsOpcode}
    (hopcode : opcode = .kClose ∨ opcode.isData = true → frames.count .kClose = 0) :
    ClosedOnce (frames ++ [opcode]) := by
  intro front back heq later hlater
  obtain rfl | ⟨back, last, rfl⟩ := List.eq_nil_or_concat back
  · cases hlater
  · have hsame : frames = front ++ .kClose :: back ∧ opcode = last := by
      rw [List.concat_eq_append, ← List.cons_append, ← List.append_assoc] at heq
      exact List.append_singleton_inj.mp heq
    obtain ⟨rfl, rfl⟩ := hsame
    rw [List.concat_eq_append] at hlater
    obtain hback | hlast := List.mem_append.mp hlater
    · exact h front back rfl later hback
    · obtain rfl := List.mem_singleton.mp hlast
      have hclose : 0 < (front ++ WsOpcode.kClose :: back).count .kClose := by
        apply List.count_pos_iff.mpr
        simp
      constructor
      · intro hop
        have := hopcode (.inl hop)
        omega
      · rw [Bool.eq_false_iff]
        intro hdata
        have := hopcode (.inr hdata)
        omega

/-- So there is one close frame at most. -/
theorem ClosedOnce.count_le_one {frames : List WsOpcode} (h : ClosedOnce frames) :
    frames.count .kClose ≤ 1 := by
  by_cases hmem : WsOpcode.kClose ∈ frames
  · obtain ⟨front, back, hsplit, hfront⟩ := List.eq_append_cons_of_mem hmem
    have hback : WsOpcode.kClose ∉ back := fun hback => (h front back hsplit _ hback).1 rfl
    rw [hsplit, List.count_append, List.count_cons_self, List.count_eq_zero.mpr hfront,
      List.count_eq_zero.mpr hback]
  · rw [List.count_eq_zero.mpr hmem]
    omega

theorem opcodeOf_encodeFrame {opcode : WsOpcode} {payload bytes : Bytes} {fin : Bool}
    {key : UInt32} (h : encodeFrame opcode payload fin (some key) = .ok bytes) :
    opcodeOf bytes = some opcode := by
  simp only [encodeFrame] at h
  split at h
  · cases h
  · split at h
    · cases h
    · rw [← Except.ok.inj h, opcodeOf]
      exact (congrArg opcodeFromRaw (firstByte_opcode opcode fin)).trans (opcodeFromRaw_raw opcode)

/-- A request begins with a letter, which is the first byte of no frame. -/
theorem opcodeOf_request {bytes : Bytes} (h : IsRequest bytes) : opcodeOf bytes = none := by
  obtain ⟨url, key, headers, rfl⟩ := h
  rfl

/-! ## Sections that are about to send -/

/-- A section of `Establish` that has transport `t` and has not stored it. -/
def connecting (t : ℕ) (task : Task) : ℕ :=
  match task.sect with
  | .transportConnect _ t' .. | .store _ t' _ => if t' = t then 1 else 0
  | _ => 0

/-- An answer to the peer's close frame that has no transport yet. -/
def answering (task : Task) : ℕ :=
  match task.sect with
  | .sendFrame opcode .. => if opcode = .kClose then 1 else 0
  | _ => 0

/-- A close frame on its way to transport `t`. -/
def closingOn (t : ℕ) (task : Task) : ℕ :=
  match task.sect with
  | .transportSend t' bytes _ => if t' = t ∧ opcodeOf bytes = some .kClose then 1 else 0
  | _ => 0

/-- Bytes that carry a part of a message. -/
def isMessage (bytes : Bytes) : Bool := (opcodeOf bytes).any WsOpcode.isData

/-- A part of a message that is still to be sent. -/
def messaging (task : Task) : ℕ :=
  match task.sect with
  | .sendFrame opcode .. => if opcode.isData then 1 else 0
  | .transportSend _ bytes _ => if isMessage bytes then 1 else 0
  | _ => 0

/-- A part of a message on its way to transport `t`. -/
def messagingOn (t : ℕ) (task : Task) : ℕ :=
  match task.sect with
  | .transportSend t' bytes _ => if t' = t ∧ isMessage bytes then 1 else 0
  | _ => 0

theorem messagingOn_le (t : ℕ) (task : Task) : messagingOn t task ≤ messaging task := by
  obtain ⟨o, s⟩ := task
  cases s with
  | transportSend t' bytes caller =>
      by_cases h : isMessage bytes <;> simp [messagingOn, messaging, h]
      split <;> omega
  | _ => exact Nat.zero_le _

/-- The close frames of transport `t`, sent or on their way. -/
def closes (t : ℕ) (cfg : Config) : ℕ :=
  (framesOn t cfg.shared.trace).count .kClose + Sections.load (closingOn t) cfg

/-! ## The condition -/

/-- A section that takes it on itself to send a close frame. -/
def Sect.claims (client : SoftwareWsClient) : Sect → Bool
  | .sendCloseFrame .. => client.state = .kOpen
  | .answerClose .. => !client.closeSent
  | _ => false

/-- A section that lets a part of a message through. -/
def Sect.admits (client : SoftwareWsClient) : Sect → Bool
  | .call (.sendFragment ..) => client.state = .kOpen
  | _ => false

/-- A section of `Establish` that resets `close_sent_`. -/
def Sect.resets (client : SoftwareWsClient) : Sect → Bool
  | .establish .. => client.state = .kDisconnected
  | _ => false

/-- The section of `Establish` that stores the transport. -/
def Sect.stores : Sect → Bool
  | .store .. => true
  | _ => false

/-- What the step of a section does not meet: a second claim to the close frame, one beside a message
that is still to be sent, a message behind the claim, and a connection that comes upon a claim. -/
structure Sect.Decent (cfg : Config) (s : Sect) : Prop where
  claim : s.claims cfg.shared.client = true →
    cfg.shared.client.closeSent = false ∧ Sections.load messaging cfg = 0
  admits : s.admits cfg.shared.client = true → cfg.shared.client.closeSent = false
  reset : s.resets cfg.shared.client = true → cfg.shared.client.closeSent = true →
    cfg.shared.client.transport = none
  store : s.stores = true → Sections.load answering cfg = 0

instance (cfg : Config) (s : Sect) : Decidable (s.Decent cfg) :=
  decidable_of_iff
    ((s.claims cfg.shared.client = true →
        cfg.shared.client.closeSent = false ∧ Sections.load messaging cfg = 0) ∧
      (s.admits cfg.shared.client = true → cfg.shared.client.closeSent = false) ∧
      (s.resets cfg.shared.client = true → cfg.shared.client.closeSent = true →
        cfg.shared.client.transport = none) ∧
      (s.stores = true → Sections.load answering cfg = 0))
    ⟨fun h => ⟨h.1, h.2.1, h.2.2.1, h.2.2.2⟩, fun h => ⟨h.claim, h.admits, h.reset, h.store⟩⟩

/-- The section that a step executes is decent. -/
def Decent (cfg : Config) (l : Label) : Prop := ∀ task ∈ l.front cfg, task.sect.Decent cfg

instance (cfg : Config) (l : Label) : Decidable (Decent cfg l) :=
  inferInstanceAs (Decidable (∀ task ∈ l.front cfg, _))

/-! ## What a section does about closing -/

/-- A section that sends no close frame and no message, and has no new transport. -/
def Sect.Idle : Sect → Prop
  | .transportConnect .. | .store .. | .transportSend .. => False
  | .sendFrame opcode .. => opcode = .kPing ∨ opcode = .kPong
  | _ => True

/-- The same as a test, which a list of sections is put to. -/
def Sect.isIdle : Sect → Bool
  | .transportConnect .. | .store .. | .transportSend .. => false
  | .sendFrame opcode .. => opcode == .kPing || opcode == .kPong
  | _ => true

theorem Sect.idle_of_isIdle {s : Sect} (h : s.isIdle = true) : s.Idle := by
  cases s with
  | transportConnect | store | transportSend => cases h
  | sendFrame opcode => simpa [Sect.isIdle, Sect.Idle] using h
  | _ => trivial

theorem idle_all {sects : List Sect} (h : sects.all Sect.isIdle = true) : ∀ s ∈ sects, s.Idle :=
  fun s hs => Sect.idle_of_isIdle (List.all_eq_true.mp h s hs)

variable {i : ℕ} {task : Task} {c : Choice} {w w' : Conn} {ks : List Task}

/-- Sections that weigh no more than the one that leaves them. -/
structure Shrinks (task : Task) (ks : List Task) : Prop where
  connecting : ∀ t, Sections.weight (connecting t) ks ≤ connecting t task
  answering : Sections.weight answering ks ≤ answering task
  closing : ∀ t, Sections.weight (closingOn t) ks ≤ closingOn t task
  messaging : Sections.weight messaging ks ≤ messaging task
  messagingOn : ∀ t, Sections.weight (messagingOn t) ks ≤ messagingOn t task

theorem weightless_of_idle {task : Task} (h : task.sect.Idle) :
    (∀ t, connecting t task = 0) ∧ answering task = 0 ∧ (∀ t, closingOn t task = 0) ∧
      messaging task = 0 ∧ ∀ t, messagingOn t task = 0 := by
  obtain ⟨o, s⟩ := task
  cases s with
  | transportConnect | store | transportSend => exact h.elim
  | sendFrame opcode payload fin caller =>
      obtain rfl | rfl := h <;> exact ⟨fun _ => rfl, rfl, fun _ => rfl, rfl, fun _ => rfl⟩
  | _ => exact ⟨fun _ => rfl, rfl, fun _ => rfl, rfl, fun _ => rfl⟩

theorem weight_of_idle (h : ∀ k ∈ ks, k.sect.Idle) :
    (∀ t, Sections.weight (connecting t) ks = 0) ∧ Sections.weight answering ks = 0 ∧
      (∀ t, Sections.weight (closingOn t) ks = 0) ∧ Sections.weight messaging ks = 0 ∧
      ∀ t, Sections.weight (messagingOn t) ks = 0 := by
  refine ⟨fun t => ?_, ?_, fun t => ?_, ?_, fun t => ?_⟩
  · exact Sections.weight_eq_zero fun k hk => (weightless_of_idle (h k hk)).1 t
  · exact Sections.weight_eq_zero fun k hk => (weightless_of_idle (h k hk)).2.1
  · exact Sections.weight_eq_zero fun k hk => (weightless_of_idle (h k hk)).2.2.1 t
  · exact Sections.weight_eq_zero fun k hk => (weightless_of_idle (h k hk)).2.2.2.1
  · exact Sections.weight_eq_zero fun k hk => (weightless_of_idle (h k hk)).2.2.2.2 t

theorem Shrinks.of_idle (h : ∀ k ∈ ks, k.sect.Idle) : Shrinks task ks := by
  obtain ⟨hconnecting, hanswering, hclosing, hmessaging, hmessagingOn⟩ := weight_of_idle h
  exact ⟨fun t => (hconnecting t).le.trans (Nat.zero_le _), hanswering.le.trans (Nat.zero_le _),
    fun t => (hclosing t).le.trans (Nat.zero_le _), hmessaging.le.trans (Nat.zero_le _),
    fun t => (hmessagingOn t).le.trans (Nat.zero_le _)⟩

/-- A delivery comes in front of the section that is under way. -/
theorem Shrinks.in_front (h : ∀ k ∈ ks, k.sect.Idle) : Shrinks task (ks ++ [task]) := by
  obtain ⟨hconnecting, hanswering, hclosing, hmessaging, hmessagingOn⟩ := weight_of_idle h
  constructor <;> intros <;> simp [*]

/-- Neither the link nor what was sent on it changes. -/
structure Still (w w' : Conn) : Prop where
  closeSent : w'.client.closeSent = w.client.closeSent
  transport : w'.client.transport = w.client.transport
  transports : w'.transports = w.transports
  frames : ∀ t, framesOn t w'.trace = framesOn t w.trace

theorem Still.of_eq (hcloseSent : w'.client.closeSent = w.client.closeSent)
    (htransport : w'.client.transport = w.client.transport)
    (htransports : w'.transports = w.transports) (htrace : w'.trace = w.trace) : Still w w' :=
  ⟨hcloseSent, htransport, htransports, fun _ => by rw [htrace]⟩

theorem Still.log (h : Still w w') (o : Origin) {e : Event} (he : ∀ t, frameOn t e = none) :
    Still w (w'.log o e) := by
  refine ⟨h.closeSent, h.transport, h.transports, fun t => ?_⟩
  rw [Conn.log_trace, framesOn_concat, he t, h.frames t]
  exact List.append_nil _

/-- What executing `task` in `w` does to the close handshake. -/
inductive Shuts (task : Task) (w : Conn) : Conn → List Task → Prop
  | still {w' : Conn} {ks : List Task} (h : Still w w') (hks : Shrinks task ks) : Shuts task w w' ks
  -- `SendFragment` lets a part of a message through
  | admits {w' : Conn} {opcode : WsOpcode} {data : Bytes} {fin : Bool}
      (hadmits : task.sect.admits w.client = true) (hopcode : opcode.isData = true)
      (h : Still w w') :
      Shuts task w w' [⟨task.origin, .sendFrame opcode data fin .sendFragment⟩]
  -- `SendFrame` takes the transport that is held
  | takes {opcode : WsOpcode} {payload bytes : Bytes} {fin : Bool} {caller : FrameCaller} {t : ℕ}
      (hsect : task.sect = .sendFrame opcode payload fin caller)
      (hbytes : opcodeOf bytes = some opcode) (htransport : w.client.transport = some t) :
      Shuts task w w [⟨task.origin, .transportSend t bytes (.sendFrame caller)⟩]
  -- `SendCloseFrame` and `HandleCloseFrame` set `close_sent_`
  | closes {ks : List Task} (hclaims : task.sect.claims w.client = true)
      (hks : (∀ k ∈ ks, k.sect.Idle) ∨ ∃ t bytes caller, w.client.transport = some t ∧
        opcodeOf bytes = some .kClose ∧ ks = [⟨task.origin, .transportSend t bytes caller⟩]) :
      Shuts task w { w with client := { w.client with closeSent := true } } ks
  | answers {code : ℕ} {reason payload : Bytes}
      (hsect : task.sect = .answerClose code reason payload) (hclaims : w.client.closeSent = false) :
      Shuts task w { w with client := { w.client with closeSent := true } }
        [⟨task.origin, .sendFrame .kClose payload true .handler⟩,
          ⟨task.origin, .teardown code reason⟩]
  -- the transport is given the bytes
  | sends {t : ℕ} {bytes : Bytes} {caller : SendCaller}
      (hsect : task.sect = .transportSend t bytes caller) :
      Shuts task w (w.log task.origin (.sending t bytes)) [⟨task.origin, .sending t bytes caller⟩]
  -- `Establish`
  | resets {w' : Conn} {ks : List Task} (hresets : task.sect.resets w.client = true)
      (hcloseSent : w'.client.closeSent = false) (htransport : w'.client.transport = w.client.transport)
      (htransports : w'.transports = w.transports)
      (hframes : ∀ t, framesOn t w'.trace = framesOn t w.trace) (hks : ∀ k ∈ ks, k.sect.Idle) :
      Shuts task w w' ks
  | creates {w' : Conn} {caller : Caller} {url : ParsedUrl} {key : Bytes} {headers : Fields}
      (hclient : w'.client = w.client) (htransports : w'.transports = w.transports + 1)
      (hframes : ∀ t, framesOn t w'.trace = framesOn t w.trace) :
      Shuts task w w' [⟨task.origin, .transportConnect caller w.transports url key headers⟩]
  | connects {caller : Caller} {t : ℕ} {url : ParsedUrl} {key request : Bytes} {headers : Fields}
      (hsect : task.sect = .transportConnect caller t url key headers) :
      Shuts task w w [⟨task.origin, .store caller t request⟩]
  | stores {w' : Conn} {caller : Caller} {t : ℕ} {request : Bytes}
      (hsect : task.sect = .store caller t request)
      (hcloseSent : w'.client.closeSent = w.client.closeSent)
      (htransport : w'.client.transport = some t) (htransports : w'.transports = w.transports)
      (hframes : ∀ t, framesOn t w'.trace = framesOn t w.trace) :
      Shuts task w w' [⟨task.origin, .transportSend t request (.establish caller)⟩]
  -- `Teardown`
  | tearsDown {w' : Conn} {ks : List Task} (hcloseSent : w'.client.closeSent = false)
      (htransport : w'.client.transport = none) (htransports : w'.transports = w.transports)
      (hframes : ∀ t, framesOn t w'.trace = framesOn t w.trace) (hks : ∀ k ∈ ks, k.sect.Idle) :
      Shuts task w w' ks

theorem idle_tasks {o : Origin} {sects : List Sect} (h : ∀ s ∈ sects, s.Idle) :
    ∀ k ∈ o.tasks sects, k.sect.Idle := by
  intro k hk
  obtain ⟨s, hs, rfl⟩ := List.mem_map.mp hk
  exact h s hs

/-- A still section that leaves idle ones. -/
theorem Shuts.of_push {v : Conn} {sects : List Sect}
    (h : some (v, task.origin.tasks sects) = some (w', ks)) (hstill : Still w v)
    (hidle : ∀ s ∈ sects, s.Idle) : Shuts task w w' ks := by
  obtain ⟨rfl, rfl⟩ := Prod.mk.inj (Option.some.inj h)
  exact .still hstill (.of_idle (idle_tasks hidle))

/-- The same behind a reading of the clock. -/
theorem Shuts.of_clock {ms : Int} {f : Conn → Conn} {sects : Conn → List Sect}
    (h : ((w.readClock ms).bind fun w => some (f w, task.origin.tasks (sects w))) = some (w', ks))
    (hf : ∀ w, Still w (f w)) (hidle : ∀ w, ∀ s ∈ sects w, s.Idle) : Shuts task w w' ks := by
  obtain ⟨v, hclock, h⟩ := Option.bind_eq_some_iff.mp h
  simp only [Conn.readClock] at hclock
  split at hclock
  · obtain rfl := Option.some.inj hclock
    have hv := hf { w with clock := ms }
    exact .of_push h ⟨hv.closeSent, hv.transport, hv.transports, hv.frames⟩ (hidle _)
  · cases hclock

theorem Shuts.of_deliverWithin (h : w.deliverWithin task c = some (w', ks)) :
    Shuts task w w' ks := by
  simp only [Conn.deliverWithin, Option.map_eq_some_iff, Prod.mk.injEq] at h
  obtain ⟨tasks, hdelivery, rfl, rfl⟩ := h
  apply Shuts.still (.of_eq rfl rfl rfl rfl)
  apply Shrinks.in_front
  cases c <;> simp [Conn.delivery] at hdelivery <;> subst hdelivery <;> simp [Sect.Idle]

/-! ### The sections that close -/

theorem shuts_call {o : Origin} {cl : Call}
    (h : some ((w.call cl).1, o.tasks (w.call cl).2) = some (w', ks)) :
    Shuts ⟨o, .call cl⟩ w w' ks := by
  cases cl with
  | connect url =>
      simp only [Conn.call, Conn.connect] at h
      split at h <;> exact .of_push h (.of_eq rfl rfl rfl rfl) (idle_all rfl)
  | sendFragment data binary fin =>
      simp only [Conn.call, Conn.sendFragment] at h
      split at h
      · exact .of_push h (.of_eq rfl rfl rfl rfl) (idle_all rfl)
      · rename_i hopen
        obtain ⟨rfl, rfl⟩ := Prod.mk.inj (Option.some.inj h)
        apply Shuts.admits
        · simpa [Sect.admits] using hopen
        · split
          · rfl
          · split <;> rfl
        · exact .of_eq rfl rfl rfl rfl
  | ping payload =>
      simp only [Conn.call, Conn.ping] at h
      split at h <;> exact .of_push h (.of_eq rfl rfl rfl rfl) (idle_all rfl)
  | setHeader | setTlsConfig | setHeartbeat | setAutoReconnect | close =>
      exact .of_push h (.of_eq rfl rfl rfl rfl) (idle_all rfl)

theorem shuts_establish {o : Origin} {caller : Caller} {url : Bytes} {words : List UInt32}
    (h : some ((w.establish o caller url words).1, o.tasks (w.establish o caller url words).2) =
      some (w', ks)) : Shuts ⟨o, .establish caller url⟩ w w' ks := by
  simp only [Conn.establish] at h
  split at h
  · exact .of_push h (.of_eq rfl rfl rfl rfl) (idle_all rfl)
  · split at h
    · exact .of_push h (.of_eq rfl rfl rfl rfl) (idle_all rfl)
    · rename_i hdisconnected
      obtain ⟨rfl, rfl⟩ := Prod.mk.inj (Option.some.inj h)
      apply Shuts.resets
      · simpa [Sect.resets] using hdisconnected
      · rfl
      · rfl
      · rfl
      · intro t
        rw [Conn.beginConnection_trace, framesOn_concat]
        exact List.append_nil _
      · exact idle_tasks (idle_all rfl)

theorem shuts_create {o : Origin} {caller : Caller} {url : ParsedUrl} {key : Bytes}
    {config : TlsConfig} {headers : Fields} {result : Result ℕ}
    (h : some ((w.create o caller url key config headers result).1,
      o.tasks (w.create o caller url key config headers result).2) = some (w', ks)) :
    Shuts ⟨o, .create caller url key config headers⟩ w w' ks := by
  cases result with
  | error e => exact .of_push h (.of_eq rfl rfl rfl rfl) (idle_all rfl)
  | ok n =>
      obtain ⟨rfl, rfl⟩ := Prod.mk.inj (Option.some.inj h)
      refine Shuts.creates rfl rfl fun t => ?_
      rw [Conn.create, Conn.log_trace, framesOn_concat, Conn.log_trace, framesOn_concat]
      simp [frameOn]

theorem shuts_sendFrame {o : Origin} {opcode : WsOpcode} {payload : Bytes} {fin : Bool}
    {caller : FrameCaller} {mask : UInt32}
    (h : some ((w.sendFrame opcode payload fin caller mask).1,
      o.tasks (w.sendFrame opcode payload fin caller mask).2) = some (w', ks)) :
    Shuts ⟨o, .sendFrame opcode payload fin caller⟩ w w' ks := by
  simp only [Conn.sendFrame] at h
  split at h
  · exact .of_push h (.of_eq rfl rfl rfl rfl) (idle_all rfl)
  · rename_i encoded hencoded
    split at h
    · exact .of_push h (.of_eq rfl rfl rfl rfl) (idle_all rfl)
    · rename_i t htransport
      obtain ⟨rfl, rfl⟩ := Prod.mk.inj (Option.some.inj h)
      exact .takes rfl (opcodeOf_encodeFrame hencoded) htransport

theorem shuts_sendCloseFrame {o : Origin} {code : ℕ} {reason : Bytes} {caller : CloseCaller}
    {mask : UInt32}
    (h : some ((w.sendCloseFrame code reason caller mask).1,
      o.tasks (w.sendCloseFrame code reason caller mask).2) = some (w', ks)) :
    Shuts ⟨o, .sendCloseFrame code reason caller⟩ w w' ks := by
  simp only [Conn.sendCloseFrame] at h
  split at h
  · exact .of_push h (.of_eq rfl rfl rfl rfl) (by simp)
  · rename_i hopen
    have hclaims : (Sect.sendCloseFrame code reason caller).claims w.client = true := by
      simpa [Sect.claims] using hopen
    split at h
    · obtain ⟨rfl, rfl⟩ := Prod.mk.inj (Option.some.inj h)
      exact .closes hclaims (.inl (idle_tasks (by simp)))
    · rename_i t htransport
      split at h
      · obtain ⟨rfl, rfl⟩ := Prod.mk.inj (Option.some.inj h)
        exact .closes hclaims (.inl (idle_tasks (idle_all rfl)))
      · rename_i encoded hencoded
        obtain ⟨rfl, rfl⟩ := Prod.mk.inj (Option.some.inj h)
        exact .closes hclaims
          (.inr ⟨t, encoded, _, htransport, opcodeOf_encodeFrame hencoded, rfl⟩)

theorem shuts_answerClose {o : Origin} {code : ℕ} {reason payload : Bytes}
    (h : some ((w.answerClose code reason payload).1,
      o.tasks (w.answerClose code reason payload).2) = some (w', ks)) :
    Shuts ⟨o, .answerClose code reason payload⟩ w w' ks := by
  obtain ⟨rfl, rfl⟩ := Prod.mk.inj (Option.some.inj h)
  cases hclosed : w.client.closeSent with
  | true =>
      apply Shuts.still
      · exact .of_eq hclosed.symm rfl rfl rfl
      · exact .of_idle (idle_tasks (by simp [Conn.answerClose, hclosed, Sect.Idle]))
  | false => simpa [Conn.answerClose, hclosed, Origin.tasks] using Shuts.answers rfl hclosed

theorem shuts_teardown {o : Origin} {code : ℕ} {reason : Bytes}
    (h : some ((w.teardown o code reason).1, o.tasks (w.teardown o code reason).2) =
      some (w', ks)) : Shuts ⟨o, .teardown code reason⟩ w w' ks := by
  obtain ⟨rfl, rfl⟩ := Prod.mk.inj (Option.some.inj h)
  apply Shuts.tearsDown
  · rfl
  · rfl
  · rfl
  · intro t
    simp only [Conn.teardown, Conn.log_trace, framesOn_concat]
    exact List.append_nil _
  · apply idle_tasks
    simp only [Conn.teardown]
    cases w.client.transport <;> split <;> exact idle_all rfl

theorem idle_fail (e : NetworkError) (code : ℕ) (reason : Bytes) :
    ∀ s ∈ Conn.fail e code reason, s.Idle := by
  exact idle_all rfl

theorem still_handleDataFrame (frame : WsFrame) :
    Still w (w.handleDataFrame frame).1 ∧ ∀ s ∈ (w.handleDataFrame frame).2, s.Idle := by
  simp only [Conn.handleDataFrame]
  split
  · exact ⟨.of_eq rfl rfl rfl rfl, idle_fail _ _ _⟩
  · split
    · exact ⟨.of_eq rfl rfl rfl rfl, idle_fail _ _ _⟩
    · split
      · split
        · exact ⟨.of_eq rfl rfl rfl rfl, idle_fail _ _ _⟩
        · split <;> exact ⟨.of_eq rfl rfl rfl rfl, idle_all rfl⟩
      · split <;> exact ⟨.of_eq rfl rfl rfl rfl, idle_all rfl⟩

theorem still_handleFrame (frame : WsFrame) :
    Still w (w.handleFrame frame).1 ∧ ∀ s ∈ (w.handleFrame frame).2, s.Idle := by
  cases hopcode : frame.opcode with
  | kPing | kPong =>
      simp only [Conn.handleFrame, hopcode]
      exact ⟨.of_eq rfl rfl rfl rfl, idle_all rfl⟩
  | kClose =>
      simp only [Conn.handleFrame, hopcode, Conn.handleCloseFrame]
      split
      · exact ⟨.of_eq rfl rfl rfl rfl, idle_all rfl⟩
      · exact ⟨.of_eq rfl rfl rfl rfl, idle_fail _ _ _⟩
      · exact ⟨.of_eq rfl rfl rfl rfl, idle_all rfl⟩
  | kContinuation | kText | kBinary =>
      simp only [Conn.handleFrame, hopcode]
      exact still_handleDataFrame frame

theorem shuts_drainFrames {o : Origin} :
    Shuts ⟨o, .drainFrames⟩ w (w.drainFrames o).1 (w.drainFrames o).2 := by
  simp only [Conn.drainFrames]
  split
  · exact .still (.of_eq rfl rfl rfl rfl) (.of_idle (by simp))
  · split
    · exact .still (.of_eq rfl rfl rfl rfl) (.of_idle (by simp))
    · apply Shuts.still
      · exact .log (.of_eq rfl rfl rfl rfl) _ (fun _ => rfl)
      · exact .of_idle (idle_tasks (idle_fail _ _ _))
    · apply Shuts.still
      · apply Still.log _ _ (fun _ => rfl)
        exact .of_eq rfl rfl rfl rfl
      · exact .of_idle (by simp [Origin.tasks, Sect.Idle])

theorem still_queueInbound [Target] (o : Origin) (data : Bytes) :
    Still w (w.queueInbound o data).1 ∧ ∀ s ∈ (w.queueInbound o data).2, s.Idle := by
  simp only [Conn.queueInbound]
  split
  · exact ⟨.of_eq rfl rfl rfl rfl, idle_fail _ _ _⟩
  · refine ⟨?_, idle_all rfl⟩
    split
    · exact .of_eq rfl rfl rfl rfl
    · simp only [Conn.consumeHandshake]
      split
      · exact .of_eq rfl rfl rfl rfl
      · apply Still.log _ o (fun _ => rfl)
        exact .of_eq rfl rfl rfl rfl

/-- A call out of a callback comes in front of the callback. -/
theorem shuts_callWithin {o : Origin} {cl : Call}
    (h : some (w, [⟨.app, .call cl⟩, ⟨o, .inCallback⟩]) = some (w', ks)) :
    Shuts ⟨o, .inCallback⟩ w w' ks := by
  obtain ⟨rfl, rfl⟩ := Prod.mk.inj (Option.some.inj h)
  exact .still (.of_eq rfl rfl rfl rfl) (.of_idle (by simp [Sect.Idle]))

/-! ### All sections -/

variable [Target]

/-- Everything that a section can do to the close handshake. -/
theorem exec_shuts (h : Conn.exec i task c w = some (w', ks)) : Shuts task w w' ks := by
  obtain ⟨o, s⟩ := task
  unfold Conn.exec at h
  dsimp only at h
  split at h
  -- calls and `Establish`
  · exact shuts_call h
  · exact shuts_establish h
  · exact shuts_create h
  · exact .of_push h (.of_eq rfl rfl rfl rfl) (idle_all rfl)
  · split at h
    · exact .of_push h (.of_eq rfl rfl rfl rfl) (idle_all rfl)
    · obtain ⟨rfl, rfl⟩ := Prod.mk.inj (Option.some.inj h)
      exact .connects rfl
  · exact .of_deliverWithin h
  · obtain ⟨rfl, rfl⟩ := Prod.mk.inj (Option.some.inj h)
    refine Shuts.stores rfl rfl rfl rfl fun t => ?_
    simp only [Conn.store, Conn.log_trace, framesOn_concat]
    exact List.append_nil _
  · split at h
    · refine .of_clock h ?_ ?_ <;> intro v <;> simp only [Conn.wake] <;> split
      · exact .of_eq rfl rfl rfl rfl
      · exact .of_eq rfl rfl rfl rfl
      · exact idle_all rfl
      · exact idle_all rfl
    · cases h
  · split at h
    · cases h
    · exact .of_push h (.of_eq rfl rfl rfl rfl) (idle_all rfl)
  · rename_i caller result
    cases caller <;> cases result <;>
      exact .of_push h (.of_eq rfl rfl rfl rfl) (idle_all rfl)
  -- `Close` and sending
  · simp only [Conn.closing] at h
    split at h <;> exact .of_push h (.of_eq rfl rfl rfl rfl) (idle_all rfl)
  · split at h
    · exact .of_push h (.of_eq rfl rfl rfl rfl) (idle_all rfl)
    · cases h
  · exact .of_push h (.of_eq rfl rfl rfl rfl) (idle_all rfl)
  · exact shuts_sendFrame h
  · rename_i caller result
    cases caller <;> cases result <;>
      exact .of_push h (.of_eq rfl rfl rfl rfl) (idle_all rfl)
  · exact shuts_sendCloseFrame h
  · rename_i caller
    cases caller <;>
      exact .of_push h (.of_eq rfl rfl rfl rfl) (idle_all rfl)
  · obtain ⟨rfl, rfl⟩ := Prod.mk.inj (Option.some.inj h)
    exact .sends rfl
  · rename_i t bytes caller result
    have hstill : Still w (w.log o (.sent t bytes result)) :=
      .log (.of_eq rfl rfl rfl rfl) _ fun _ => rfl
    cases caller <;> cases result <;> exact .of_push h hstill (idle_all rfl)
  · exact .of_deliverWithin h
  · exact .of_clock h (fun _ => .of_eq rfl rfl rfl rfl) (by simp)
  · exact .of_clock h (fun _ => .of_eq rfl rfl rfl rfl) fun _ => idle_all rfl
  · exact .of_push h (.of_eq rfl rfl rfl rfl) (by simp)
  -- receiving
  · obtain ⟨hstill, hidle⟩ := still_queueInbound (w := w) o _
    exact .of_push h hstill hidle
  · split at h <;> exact .of_push h (.of_eq rfl rfl rfl rfl) (idle_all rfl)
  · have hshuts := shuts_drainFrames (w := w) (o := o)
    rw [Option.some.inj h] at hshuts
    exact hshuts
  · exact .of_push h (.of_eq rfl rfl rfl rfl) (by simp)
  · obtain ⟨hstill, hidle⟩ := still_handleFrame (w := w) _
    exact .of_push h hstill hidle
  · exact shuts_answerClose h
  -- ending
  · exact shuts_teardown h
  · exact .of_push h (.log (.of_eq rfl rfl rfl rfl) _ fun _ => rfl) (idle_all rfl)
  · exact .of_push h (.of_eq rfl rfl rfl rfl) (by simp)
  · exact .of_deliverWithin h
  · exact .of_push h (.of_eq rfl rfl rfl rfl) (idle_all rfl)
  · refine .of_push h (.of_eq rfl rfl rfl rfl) ?_
    split <;> exact idle_all rfl
  -- the maintenance task
  · simp only [Conn.joinMaintain] at h
    split at h <;> exact .of_push h (.of_eq rfl rfl rfl rfl) (idle_all rfl)
  · simp only [Conn.joining] at h
    split at h
    · exact .of_push h (.of_eq rfl rfl rfl rfl) (by simp)
    · cases h
  · exact .of_push h (.of_eq rfl rfl rfl rfl) (by simp)
  · simp only [Conn.createTask] at h
    split at h
    · exact .of_push h (.of_eq rfl rfl rfl rfl) (by simp)
    · cases h
  · exact .of_push h (.of_eq rfl rfl rfl rfl) (idle_all rfl)
  · refine .of_push h (.of_eq rfl rfl rfl rfl) ?_
    split <;> exact idle_all rfl
  · refine .of_push h (.of_eq rfl rfl rfl rfl) ?_
    split <;> exact idle_all rfl
  · simp only [Conn.maintainRead] at h
    split at h
    · exact .of_push h (.of_eq rfl rfl rfl rfl) (idle_all rfl)
    · split at h
      · exact .of_push h (.of_eq rfl rfl rfl rfl) (idle_all rfl)
      · split at h <;> exact .of_push h (.of_eq rfl rfl rfl rfl) (idle_all rfl)
  · refine .of_push h (.of_eq rfl rfl rfl rfl) ?_
    simp only [Conn.maintainOpen]
    split <;> exact idle_all rfl
  · exact .of_clock h (fun _ => .of_eq rfl rfl rfl rfl) fun _ => idle_all rfl
  · simp only [Conn.heartbeatPing] at h
    split at h
    · exact .of_push h (.of_eq rfl rfl rfl rfl) (idle_all rfl)
    · split at h <;> exact .of_push h (.of_eq rfl rfl rfl rfl) (idle_all rfl)
  · simp only [Conn.heartbeatIdle] at h
    split at h <;> exact .of_push h (.of_eq rfl rfl rfl rfl) (idle_all rfl)
  · simp only [Conn.giveUp] at h
    split at h <;> exact .of_push h (.of_eq rfl rfl rfl rfl) (idle_all rfl)
  · exact .of_push h (.of_eq rfl rfl rfl rfl) (by simp)
  · split at h
    · exact .of_push h (.of_eq rfl rfl rfl rfl) (idle_all rfl)
    · cases h
  · exact .of_push h (.of_eq rfl rfl rfl rfl) (idle_all rfl)
  · refine .of_push h (.of_eq rfl rfl rfl rfl) ?_
    split <;> exact idle_all rfl
  · exact .of_push h (.of_eq rfl rfl rfl rfl) (by simp)
  -- callbacks
  · exact .of_push h (.log (.of_eq rfl rfl rfl rfl) _ fun _ => rfl) (idle_all rfl)
  · exact .of_push h (.of_eq rfl rfl rfl rfl) (by simp)
  · exact shuts_callWithin h
  · exact .of_push h (.log (.of_eq rfl rfl rfl rfl) _ fun _ => rfl) (by simp)
  · cases h

/-! ## Runs -/

omit [Target] in
/-- A transport is connected once, and carries no close frame before it is stored. -/
structure Fresh (cfg : Config) : Prop where
  once : ∀ t, Sections.load (connecting t) cfg ≤ if t < cfg.shared.transports then 1 else 0
  untouched : ∀ t, cfg.shared.transports ≤ t ∨ 0 < Sections.load (connecting t) cfg →
    cfg.shared.client.transport ≠ some t ∧ closes t cfg = 0

omit [Target] in
/-- The transport that is held has as many close frames as `close_sent_` admits, and no message goes
beside or behind a close frame. -/
structure Shutting (cfg : Config) : Prop where
  fresh : Fresh cfg
  once : ∀ t, closes t cfg ≤ 1
  held : ∀ t, cfg.shared.client.transport = some t →
    closes t cfg + Sections.load answering cfg ≤ if cfg.shared.client.closeSent then 1 else 0
  beside : cfg.shared.client.closeSent = true → Sections.load messaging cfg = 0
  behind : ∀ t, 0 < closes t cfg → Sections.load (messagingOn t) cfg = 0
  frames : ∀ t, ClosedOnce (framesOn t cfg.shared.trace)

omit [Target] in
/-- What a section makes of the weights. -/
structure Loads (task : Task) (ks : List Task) (cfg cfg' : Config) : Prop where
  connecting : ∀ t, Sections.load (connecting t) cfg' + connecting t task =
    Sections.load (connecting t) cfg + Sections.weight (connecting t) ks
  answering : Sections.load answering cfg' + answering task =
    Sections.load answering cfg + Sections.weight answering ks
  closing : ∀ t, Sections.load (closingOn t) cfg' + closingOn t task =
    Sections.load (closingOn t) cfg + Sections.weight (closingOn t) ks
  messaging : Sections.load messaging cfg' + messaging task =
    Sections.load messaging cfg + Sections.weight messaging ks
  messagingOn : ∀ t, Sections.load (messagingOn t) cfg' + messagingOn t task =
    Sections.load (messagingOn t) cfg + Sections.weight (messagingOn t) ks

omit [Target]

theorem loads_run {cfg : Config} (hget : cfg.threads[i]? = some (task :: ks)) (w' : Conn)
    (ks' : List Task) : Loads task ks' cfg ⟨w', cfg.threads.set i (ks' ++ ks)⟩ :=
  ⟨fun t => Sections.load_run (connecting t) hget w' ks', Sections.load_run answering hget w' ks',
    fun t => Sections.load_run (closingOn t) hget w' ks', Sections.load_run messaging hget w' ks',
    fun t => Sections.load_run (messagingOn t) hget w' ks'⟩

theorem load_messagingOn_le (t : ℕ) (cfg : Config) :
    Sections.load (messagingOn t) cfg ≤ Sections.load messaging cfg :=
  Sections.load_le (messagingOn_le t) cfg

variable {cfg cfg' : Config}

theorem Loads.closes (hl : Loads task ks cfg cfg')
    (hframes : ∀ t, framesOn t cfg'.shared.trace = framesOn t cfg.shared.trace) (t : ℕ) :
    closes t cfg' + closingOn t task = closes t cfg + Sections.weight (closingOn t) ks := by
  have := hl.closing t
  simp only [EspModemLink.WebSocket.closes, hframes t]
  omega

/-- Only the transport that is held comes to another close frame. -/
theorem Fresh.of_held (h : Fresh cfg) (htransports : cfg'.shared.transports = cfg.shared.transports)
    (htransport : ∀ t, cfg'.shared.client.transport = some t → cfg.shared.client.transport = some t)
    (hconnecting : ∀ t, Sections.load (connecting t) cfg' ≤ Sections.load (connecting t) cfg)
    (hcloses : ∀ t, cfg.shared.client.transport ≠ some t → closes t cfg' ≤ closes t cfg) :
    Fresh cfg' := by
  constructor
  · intro t
    rw [htransports]
    exact (hconnecting t).trans (h.once t)
  · intro t ht
    rw [htransports] at ht
    obtain ⟨hne, hzero⟩ := h.untouched t (ht.imp_right fun ht => ht.trans_le (hconnecting t))
    exact ⟨fun hheld => hne (htransport t hheld), Nat.le_zero.mp (hzero ▸ hcloses t hne)⟩

/-! ### One lemma for each effect -/

/-- Where nothing is added the invariant stays. -/
theorem Shutting.of_le (h : Shutting cfg) (hstill : Still cfg.shared cfg'.shared)
    (hconnecting : ∀ t, Sections.load (connecting t) cfg' ≤ Sections.load (connecting t) cfg)
    (hanswering : Sections.load answering cfg' ≤ Sections.load answering cfg)
    (hclosing : ∀ t, Sections.load (closingOn t) cfg' ≤ Sections.load (closingOn t) cfg)
    (hmessaging : Sections.load messaging cfg' ≤ Sections.load messaging cfg)
    (hmessagingOn : ∀ t, Sections.load (messagingOn t) cfg' ≤ Sections.load (messagingOn t) cfg) :
    Shutting cfg' := by
  have hcloses : ∀ t, closes t cfg' ≤ closes t cfg := by
    intro t
    rw [closes, hstill.frames t]
    exact Nat.add_le_add_left (hclosing t) _
  refine ⟨?_, fun t => ?_, fun t ht => ?_, fun hsent => ?_, fun t ht => ?_, fun t => ?_⟩
  · exact h.fresh.of_held hstill.transports (fun t ht => hstill.transport ▸ ht) hconnecting
      fun t _ => hcloses t
  · exact (hcloses t).trans (h.once t)
  · rw [hstill.closeSent]
    rw [hstill.transport] at ht
    exact (Nat.add_le_add (hcloses t) hanswering).trans (h.held t ht)
  · rw [hstill.closeSent] at hsent
    exact Nat.le_zero.mp (h.beside hsent ▸ hmessaging)
  · exact Nat.le_zero.mp (h.behind t (ht.trans_le (hcloses t)) ▸ hmessagingOn t)
  · rw [hstill.frames t]
    exact h.frames t

theorem Shutting.still (h : Shutting cfg) (hstill : Still cfg.shared cfg'.shared)
    (hks : Shrinks task ks) (hl : Loads task ks cfg cfg') : Shutting cfg' := by
  apply h.of_le hstill
  · intro t
    have := hl.connecting t
    have := hks.connecting t
    omega
  · have := hl.answering
    have := hks.answering
    omega
  · intro t
    have := hl.closing t
    have := hks.closing t
    omega
  · have := hl.messaging
    have := hks.messaging
    omega
  · intro t
    have := hl.messagingOn t
    have := hks.messagingOn t
    omega

/-- `SendFragment` lets a part of a message through while `close_sent_` is not set. -/
theorem Shutting.admits (h : Shutting cfg) (hstill : Still cfg.shared cfg'.shared)
    {o : Origin} {opcode : WsOpcode} {data : Bytes} {fin : Bool} (hopcode : opcode.isData = true)
    (hopen : cfg.shared.client.closeSent = false)
    (hl : Loads task [⟨o, .sendFrame opcode data fin .sendFragment⟩] cfg cfg') : Shutting cfg' := by
  have hclose : answering ⟨o, .sendFrame opcode data fin .sendFragment⟩ = 0 := by
    cases opcode <;> first | rfl | cases hopcode
  have hconnecting := hl.connecting
  have hanswering := hl.answering
  have hcloses := hl.closes hstill.frames
  have hmessagingOn := hl.messagingOn
  simp only [Sections.weight_cons, Sections.weight_nil, connecting, closingOn, hclose,
    messagingOn] at hconnecting hanswering hcloses hmessagingOn
  refine ⟨?_, fun t => ?_, fun t ht => ?_, fun hsent => ?_, fun t ht => ?_, fun t => ?_⟩
  · apply h.fresh.of_held hstill.transports (fun t ht => hstill.transport ▸ ht)
    · intro t
      have := hconnecting t
      omega
    · intro t _
      have := hcloses t
      omega
  · have := hcloses t
    have := h.once t
    omega
  · have := hcloses t
    have := h.held t (hstill.transport ▸ ht)
    rw [hstill.closeSent]
    omega
  · rw [hstill.closeSent, hopen] at hsent
    cases hsent
  · have := hcloses t
    have := hmessagingOn t
    have := h.behind t (by omega)
    omega
  · rw [hstill.frames t]
    exact h.frames t

/-- `SendFrame` takes the transport that is held. -/
theorem Shutting.takes (h : Shutting cfg) {o : Origin} {opcode : WsOpcode} {payload bytes : Bytes}
    {fin : Bool} {caller : FrameCaller} {t : ℕ} (hbytes : opcodeOf bytes = some opcode)
    (htransport : cfg.shared.client.transport = some t) (hshared : cfg'.shared = cfg.shared)
    (hfront : ∀ f : Task → ℕ, f ⟨o, .sendFrame opcode payload fin caller⟩ ≤ Sections.load f cfg)
    (hl : Loads ⟨o, .sendFrame opcode payload fin caller⟩
      [⟨o, .transportSend t bytes (.sendFrame caller)⟩] cfg cfg') : Shutting cfg' := by
  have hconnecting := hl.connecting
  have hanswering := hl.answering
  have hcloses := hl.closes fun _ => by rw [hshared]
  have hmessaging := hl.messaging
  have hmessagingOn := hl.messagingOn
  simp only [Sections.weight_cons, Sections.weight_nil, connecting, closingOn, hbytes, answering,
    isMessage, Option.any_some, Option.some.injEq, messaging,
    messagingOn] at hconnecting hanswering hcloses hmessaging hmessagingOn
  have hheld := h.held t htransport
  -- an answer has set `close_sent_`, and no message was let through since
  have hanswer : opcode = .kClose → closes t cfg = 0 ∧ Sections.load messaging cfg = 0 := by
    intro hop
    have hone := hfront answering
    simp only [answering, hop, if_true] at hone
    have hsent : cfg.shared.client.closeSent = true := by
      by_contra hsent
      rw [if_neg hsent] at hheld
      omega
    rw [if_pos hsent] at hheld
    exact ⟨by omega, h.beside hsent⟩
  -- a message was let through before `close_sent_` was set
  have hmessage : opcode.isData = true → closes t cfg = 0 := by
    intro hop
    have hone := hfront messaging
    simp only [messaging, hop, if_true] at hone
    have hsent : ¬cfg.shared.client.closeSent = true := by
      intro hsent
      have := h.beside hsent
      omega
    rw [if_neg hsent] at hheld
    omega
  refine ⟨?_, fun t' => ?_, fun t' ht' => ?_, fun hsent => ?_, fun t' ht' => ?_, fun t' => ?_⟩
  · apply h.fresh.of_held (by rw [hshared]) (fun t' ht' => hshared ▸ ht')
    · intro t'
      have := hconnecting t'
      omega
    · intro t' hne
      have := hcloses t'
      rw [if_neg fun heq : t = t' ∧ opcode = .kClose => hne (heq.1 ▸ htransport)] at this
      omega
  · have := hcloses t'
    split at this
    · rename_i heq
      obtain ⟨rfl, hop⟩ := heq
      have := (hanswer hop).1
      omega
    · have := h.once t'
      omega
  · rw [hshared] at ht' ⊢
    obtain rfl : t = t' := Option.some.inj (htransport.symm.trans ht')
    have hmoved := hcloses t
    by_cases hop : opcode = .kClose
    · rw [if_pos hop] at hanswering
      rw [if_pos ⟨rfl, hop⟩] at hmoved
      omega
    · rw [if_neg hop] at hanswering
      rw [if_neg fun heq : t = t ∧ opcode = .kClose => hop heq.2] at hmoved
      omega
  · rw [hshared] at hsent
    have := h.beside hsent
    omega
  · have hmoved := hcloses t'
    have hadded := hmessagingOn t'
    by_cases hclose : t = t' ∧ opcode = .kClose
    · have hle := load_messagingOn_le t' cfg
      rw [(hanswer hclose.2).2] at hle
      rw [hclose.2, if_neg (by simp [WsOpcode.isData, isControlOpcode])] at hadded
      omega
    · rw [if_neg hclose] at hmoved
      have hnone := h.behind t' (by omega)
      have hother : ¬(t = t' ∧ opcode.isData = true) := by
        rintro ⟨rfl, hop⟩
        have := hmessage hop
        omega
      rw [if_neg hother] at hadded
      omega
  · rw [hshared]
    exact h.frames t'

/-- `close_sent_` is set by the only one to send a close frame, while no message is half sent. -/
theorem Shutting.claims (h : Shutting cfg)
    (hshared : cfg'.shared =
      { cfg.shared with client := { cfg.shared.client with closeSent := true } })
    (hclaim : cfg.shared.client.closeSent = false ∧ Sections.load messaging cfg = 0)
    (hks : (∀ k ∈ ks, k.sect.Idle) ∨ ∃ o t bytes caller, cfg.shared.client.transport = some t ∧
      opcodeOf bytes = some .kClose ∧ ks = [⟨o, .transportSend t bytes caller⟩])
    (hl : Loads task ks cfg cfg') : Shutting cfg' := by
  have hframes : ∀ t, framesOn t cfg'.shared.trace = framesOn t cfg.shared.trace := by
    intro t
    rw [hshared]
  -- the only new close frame is for the transport that is held
  have hweights : (∀ t, Sections.weight (connecting t) ks = 0) ∧ Sections.weight answering ks = 0 ∧
      (∀ t, Sections.weight (closingOn t) ks ≤
        if cfg.shared.client.transport = some t then 1 else 0) ∧
      Sections.weight messaging ks = 0 ∧ ∀ t, Sections.weight (messagingOn t) ks = 0 := by
    obtain hidle | ⟨o, t, bytes, caller, htransport, hbytes, rfl⟩ := hks
    · obtain ⟨hconnecting, hanswering, hclosing, hmessaging, hmessagingOn⟩ := weight_of_idle hidle
      exact ⟨hconnecting, hanswering, fun t => (hclosing t).le.trans (Nat.zero_le _), hmessaging,
        hmessagingOn⟩
    · simp [connecting, answering, closingOn, messaging, messagingOn, isMessage, hbytes, htransport,
        WsOpcode.isData, isControlOpcode]
  obtain ⟨hconnecting, hanswering, hclosing, hmessaging, hmessagingOn⟩ := hweights
  have hnone : Sections.load messaging cfg' = 0 := by
    have := hl.messaging
    omega
  refine ⟨?_, fun t => ?_, fun t ht => ?_, fun _ => hnone, fun t _ => ?_, fun t => ?_⟩
  · apply h.fresh.of_held (by rw [hshared]) (fun t ht => by rw [hshared] at ht; exact ht)
    · intro t
      have := hl.connecting t
      have := hconnecting t
      omega
    · intro t hne
      have := hl.closes hframes t
      have := hclosing t
      rw [if_neg hne] at this
      omega
  · have hmoved := hl.closes hframes t
    have hadded := hclosing t
    by_cases ht : cfg.shared.client.transport = some t
    · have hheld := h.held t ht
      rw [if_neg (by simp [hclaim.1])] at hheld
      rw [if_pos ht] at hadded
      omega
    · have := h.once t
      rw [if_neg ht] at hadded
      omega
  · rw [hshared] at ht ⊢
    have hheld := h.held t ht
    have hmoved := hl.closes hframes t
    have hadded := hclosing t
    have := hl.answering
    rw [if_pos ht] at hadded
    rw [if_neg (by simp [hclaim.1])] at hheld
    simp only [if_true]
    omega
  · have := load_messagingOn_le t cfg'
    omega
  · rw [hframes t]
    exact h.frames t

/-- The same for the answer to the peer's close frame, which has no transport yet. -/
theorem Shutting.answers (h : Shutting cfg) {o : Origin} {code : ℕ} {reason payload : Bytes}
    (hshared : cfg'.shared =
      { cfg.shared with client := { cfg.shared.client with closeSent := true } })
    (hclaim : cfg.shared.client.closeSent = false ∧ Sections.load messaging cfg = 0)
    (hl : Loads task [⟨o, .sendFrame .kClose payload true .handler⟩, ⟨o, .teardown code reason⟩]
      cfg cfg') : Shutting cfg' := by
  have hframes : ∀ t, framesOn t cfg'.shared.trace = framesOn t cfg.shared.trace := by
    intro t
    rw [hshared]
  have hconnecting := hl.connecting
  have hanswering := hl.answering
  have hcloses := hl.closes hframes
  have hmessaging := hl.messaging
  have hdata : WsOpcode.kClose.isData = false := rfl
  simp only [Sections.weight_cons, Sections.weight_nil, connecting, closingOn, answering,
    messaging, hdata, Bool.false_eq_true, if_true, if_false]
    at hconnecting hanswering hcloses hmessaging
  have hnone : Sections.load messaging cfg' = 0 := by omega
  refine ⟨?_, fun t => ?_, fun t ht => ?_, fun _ => hnone, fun t _ => ?_, fun t => ?_⟩
  · apply h.fresh.of_held (by rw [hshared]) (fun t ht => by rw [hshared] at ht; exact ht)
    · intro t
      have := hconnecting t
      omega
    · intro t _
      have := hcloses t
      omega
  · have := hcloses t
    have := h.once t
    omega
  · rw [hshared] at ht ⊢
    have hheld := h.held t ht
    have := hcloses t
    rw [if_neg (by simp [hclaim.1])] at hheld
    simp only [if_true]
    omega
  · have := load_messagingOn_le t cfg'
    omega
  · rw [hframes t]
    exact h.frames t

/-- The transport is given the bytes: a close frame is the first, and a message comes before it. -/
theorem Shutting.sends (h : Shutting cfg) {o : Origin} {t : ℕ} {bytes : Bytes} {caller : SendCaller}
    (hshared : cfg'.shared = cfg.shared.log o (.sending t bytes))
    (hfront : ∀ f : Task → ℕ, f ⟨o, .transportSend t bytes caller⟩ ≤ Sections.load f cfg)
    (hl : Loads ⟨o, .transportSend t bytes caller⟩ [⟨o, .sending t bytes caller⟩] cfg cfg') :
    Shutting cfg' := by
  have hframes : ∀ t', framesOn t' cfg'.shared.trace = framesOn t' cfg.shared.trace ++
      (if t = t' then opcodeOf bytes else none).toList := by
    intro t'
    rw [hshared, Conn.log_trace, framesOn_concat]
    rfl
  have hcloses : ∀ t', closes t' cfg' = closes t' cfg := by
    intro t'
    have hmoved := hl.closing t'
    simp only [Sections.weight_cons, Sections.weight_nil, closingOn] at hmoved
    simp only [closes, hframes, List.count_append]
    by_cases ht : t = t'
    · cases hop : opcodeOf bytes with
      | none =>
          simp only [hop, ht, reduceCtorEq, and_false, if_false] at hmoved
          simp
          omega
      | some opcode =>
          by_cases hclose : opcode = .kClose
          · simp only [hop, ht, hclose, and_self, if_true] at hmoved
            simp [ht, hclose]
            omega
          · simp only [hop, ht, Option.some.injEq, hclose, and_false, if_false] at hmoved
            simp [ht, hclose]
            omega
    · simp only [ht, false_and, if_false] at hmoved
      simp [ht]
      omega
  have hconnecting := hl.connecting
  have hanswering := hl.answering
  have hmessaging := hl.messaging
  have hmessagingOn := hl.messagingOn
  simp only [Sections.weight_cons, Sections.weight_nil, connecting, answering,
    messaging, messagingOn] at hconnecting hanswering hmessaging hmessagingOn
  refine ⟨?_, fun t' => ?_, fun t' ht' => ?_, fun hsent => ?_, fun t' ht' => ?_, fun t' => ?_⟩
  · apply h.fresh.of_held (by rw [hshared]; rfl) (fun t ht => by rw [hshared] at ht; exact ht)
    · intro t
      have := hconnecting t
      omega
    · intro t' _
      exact (hcloses t').le
  · rw [hcloses t']
    exact h.once t'
  · rw [hshared] at ht' ⊢
    have := h.held t' ht'
    rw [hcloses t', Conn.log_client]
    omega
  · rw [hshared] at hsent
    have := h.beside hsent
    omega
  · have := h.behind t' (hcloses t' ▸ ht')
    have := hmessagingOn t'
    omega
  · rw [hframes t']
    by_cases ht : t = t'
    · subst ht
      cases hop : opcodeOf bytes with
      | none => simpa using h.frames t
      | some opcode =>
          rw [if_pos rfl]
          apply (h.frames t).concat
          rintro (rfl | hdata)
          · have hone := hfront (closingOn t)
            have honce := h.once t
            simp only [closingOn, hop, and_self, if_true] at hone
            rw [closes] at honce
            omega
          · have hone := hfront (messagingOn t)
            simp only [messagingOn, isMessage, hop, Option.any_some, hdata, and_self,
              if_true] at hone
            by_contra hclosed
            have := h.behind t (by rw [closes]; omega)
            omega
    · rw [if_neg ht]
      simpa using h.frames t'

/-- `Establish` and `Teardown` reset `close_sent_` where no transport is held that it was set for. -/
theorem Shutting.resets (h : Shutting cfg) (hcloseSent : cfg'.shared.client.closeSent = false)
    (htransport : ∀ t, cfg'.shared.client.transport = some t →
      cfg.shared.client.transport = some t ∧ cfg.shared.client.closeSent = false)
    (htransports : cfg'.shared.transports = cfg.shared.transports)
    (hframes : ∀ t, framesOn t cfg'.shared.trace = framesOn t cfg.shared.trace)
    (hks : ∀ k ∈ ks, k.sect.Idle) (hl : Loads task ks cfg cfg') : Shutting cfg' := by
  obtain ⟨hconnecting, hanswering, hclosing, hmessaging, hmessagingOn⟩ := weight_of_idle hks
  have hcloses : ∀ t, closes t cfg' ≤ closes t cfg := by
    intro t
    have := hl.closes hframes t
    have := hclosing t
    omega
  refine ⟨?_, fun t => ?_, fun t ht => ?_, fun hsent => ?_, fun t ht => ?_, fun t => ?_⟩
  · apply h.fresh.of_held htransports (fun t ht => (htransport t ht).1)
    · intro t
      have := hl.connecting t
      have := hconnecting t
      omega
    · intro t _
      exact hcloses t
  · exact (hcloses t).trans (h.once t)
  · obtain ⟨hheld, hopen⟩ := htransport t ht
    have hnone := h.held t hheld
    have := hl.answering
    have := hcloses t
    rw [if_neg (by simp [hopen])] at hnone
    omega
  · rw [hcloseSent] at hsent
    cases hsent
  · have := h.behind t (ht.trans_le (hcloses t))
    have := hl.messagingOn t
    have := hmessagingOn t
    omega
  · rw [hframes t]
    exact h.frames t

/-- The factory makes a new transport. -/
theorem Shutting.creates (h : Shutting cfg) {o : Origin} {caller : Caller} {url : ParsedUrl}
    {key : Bytes} {headers : Fields} (hclient : cfg'.shared.client = cfg.shared.client)
    (htransports : cfg'.shared.transports = cfg.shared.transports + 1)
    (hframes : ∀ t, framesOn t cfg'.shared.trace = framesOn t cfg.shared.trace)
    (hl : Loads task [⟨o, .transportConnect caller cfg.shared.transports url key headers⟩]
      cfg cfg') : Shutting cfg' := by
  have hconnecting : ∀ t, Sections.load (connecting t) cfg' ≤ Sections.load (connecting t) cfg +
      if cfg.shared.transports = t then 1 else 0 := by
    intro t
    have := hl.connecting t
    simp only [Sections.weight_cons, Sections.weight_nil, connecting] at this
    omega
  have hanswering := hl.answering
  have hcloses := hl.closes hframes
  have hmessaging := hl.messaging
  have hmessagingOn := hl.messagingOn
  simp only [Sections.weight_cons, Sections.weight_nil, answering, closingOn, messaging,
    messagingOn] at hanswering hcloses hmessaging hmessagingOn
  refine ⟨⟨fun t => ?_, fun t ht => ?_⟩, fun t => ?_, fun t ht => ?_, fun hsent => ?_,
    fun t ht => ?_, fun t => ?_⟩
  · have hadded := hconnecting t
    have honce := h.fresh.once t
    rw [htransports]
    by_cases hnew : cfg.shared.transports = t
    · rw [if_pos hnew] at hadded
      rw [if_neg (by omega)] at honce
      rw [if_pos (by omega)]
      omega
    · rw [if_neg hnew] at hadded
      split at honce <;> split <;> omega
  · have hadded := hconnecting t
    have hfresh : cfg.shared.transports ≤ t ∨ 0 < Sections.load (connecting t) cfg := by
      rw [htransports] at ht
      by_cases hnew : cfg.shared.transports = t
      · exact .inl hnew.le
      · rw [if_neg hnew] at hadded
        omega
    obtain ⟨hne, hzero⟩ := h.fresh.untouched t hfresh
    have := hcloses t
    exact ⟨hclient ▸ hne, by omega⟩
  · have := hcloses t
    have := h.once t
    omega
  · rw [hclient] at ht ⊢
    have := hcloses t
    have := h.held t ht
    omega
  · have := h.beside (hclient ▸ hsent)
    omega
  · have := hcloses t
    have := h.behind t (by omega)
    have := hmessagingOn t
    omega
  · rw [hframes t]
    exact h.frames t

/-- `Establish` stores its transport while no answer is left from another connection. -/
theorem Shutting.stores (h : Shutting cfg) {o : Origin} {caller : Caller} {t : ℕ} {request : Bytes}
    (hrequest : opcodeOf request = none)
    (hcloseSent : cfg'.shared.client.closeSent = cfg.shared.client.closeSent)
    (htransport : cfg'.shared.client.transport = some t)
    (htransports : cfg'.shared.transports = cfg.shared.transports)
    (hframes : ∀ t, framesOn t cfg'.shared.trace = framesOn t cfg.shared.trace)
    (hnone : Sections.load answering cfg = 0)
    (hfront : ∀ f : Task → ℕ, f ⟨o, .store caller t request⟩ ≤ Sections.load f cfg)
    (hl : Loads ⟨o, .store caller t request⟩ [⟨o, .transportSend t request (.establish caller)⟩]
      cfg cfg') : Shutting cfg' := by
  have hconnecting := hl.connecting
  have hanswering := hl.answering
  have hcloses := hl.closes hframes
  have hmessaging := hl.messaging
  have hmessagingOn := hl.messagingOn
  simp only [Sections.weight_cons, Sections.weight_nil, connecting, answering, closingOn, isMessage,
    hrequest, reduceCtorEq, and_false, if_false, Option.any_none, Bool.false_eq_true,
    messaging, messagingOn]
    at hconnecting hanswering hcloses hmessaging hmessagingOn
  have hone := hfront (connecting t)
  simp only [connecting, if_true] at hone
  have hzero := (h.fresh.untouched t (.inr hone)).2
  refine ⟨⟨fun t' => ?_, fun t' ht' => ?_⟩, fun t' => ?_, fun t' ht' => ?_, fun hsent => ?_,
    fun t' ht' => ?_, fun t' => ?_⟩
  · have := hconnecting t'
    have := h.fresh.once t'
    rw [htransports]
    omega
  · rw [htransports] at ht'
    have hmoved := hconnecting t'
    obtain ⟨-, hzero'⟩ := h.fresh.untouched t' (ht'.imp_right fun ht' => by omega)
    have := hcloses t'
    refine ⟨?_, by omega⟩
    rw [htransport]
    rintro heq
    -- the transport that is stored is connected no longer
    obtain rfl := Option.some.inj heq
    have honce := h.fresh.once t
    rw [if_pos rfl] at hmoved
    split at honce <;> omega
  · have := hcloses t'
    have := h.once t'
    omega
  · obtain rfl := Option.some.inj (htransport.symm.trans ht')
    have := hcloses t
    omega
  · have := h.beside (hcloseSent ▸ hsent)
    omega
  · have := hcloses t'
    have := h.behind t' (by omega)
    have := hmessagingOn t'
    omega
  · rw [hframes t']
    exact h.frames t'

/-! ### All effects -/

/-- A decent section keeps the invariant. -/
theorem Shutting.of_shuts (h : Shutting cfg) (hsound : task.sect.Sound)
    (hdecent : task.sect.Decent cfg) (hfront : ∀ f : Task → ℕ, f task ≤ Sections.load f cfg)
    (hshuts : Shuts task cfg.shared cfg'.shared ks) (hl : Loads task ks cfg cfg') :
    Shutting cfg' := by
  obtain ⟨o, s⟩ := task
  obtain ⟨w', threads⟩ := cfg'
  cases hshuts with
  | still hstill hks => exact h.still hstill hks hl
  | admits hadmits hopcode hstill => exact h.admits hstill hopcode (hdecent.admits hadmits) hl
  | takes hsect hbytes htransport =>
      obtain rfl : s = _ := hsect
      exact h.takes hbytes htransport rfl hfront hl
  | closes hclaims hks =>
      apply h.claims rfl (hdecent.claim hclaims) _ hl
      exact hks.imp_right fun ⟨t, bytes, caller, hks⟩ => ⟨o, t, bytes, caller, hks⟩
  | answers hsect hunset =>
      obtain rfl : s = _ := hsect
      exact h.answers rfl (hdecent.claim (by simp [Sect.claims, hunset])) hl
  | sends hsect =>
      obtain rfl : s = _ := hsect
      exact h.sends rfl hfront hl
  | resets hresets hcloseSent htransport htransports hframes hks =>
      apply h.resets hcloseSent _ htransports hframes hks hl
      intro t ht
      have hheld : cfg.shared.client.transport = some t := htransport.symm.trans ht
      refine ⟨hheld, Bool.eq_false_iff.mpr fun hsent => ?_⟩
      rw [hdecent.reset hresets hsent] at hheld
      cases hheld
  | creates hclient htransports hframes => exact h.creates hclient htransports hframes hl
  | connects hsect =>
      obtain rfl : s = _ := hsect
      have hstill : Still cfg.shared cfg.shared := .of_eq rfl rfl rfl rfl
      refine h.still hstill ?_ hl
      constructor <;> intros <;> simp [connecting, answering, closingOn, messaging, messagingOn]
  | stores hsect hcloseSent htransport htransports hframes =>
      obtain rfl : s = _ := hsect
      exact h.stores (opcodeOf_request hsound) hcloseSent htransport htransports hframes
        (hdecent.store rfl) hfront hl
  | tearsDown hcloseSent htransport htransports hframes hks =>
      apply h.resets hcloseSent _ htransports hframes hks hl
      intro t ht
      rw [htransport] at ht
      cases ht

/-- A new thread is still and idle. -/
theorem entry_still {e : Entry} {q : List Task} (h : Conn.entry e w = some (w', q)) :
    Still w w' ∧ ∀ k ∈ q, k.sect.Idle := by
  cases e with
  | call cl =>
      obtain ⟨rfl, rfl⟩ := Prod.mk.inj (Option.some.inj h)
      exact ⟨.of_eq rfl rfl rfl rfl, by simp [Sect.Idle]⟩
  | data | closed | maintain =>
      simp only [Conn.entry] at h
      split at h
      · obtain ⟨rfl, rfl⟩ := Prod.mk.inj (Option.some.inj h)
        exact ⟨.of_eq rfl rfl rfl rfl, by simp [Sect.Idle]⟩
      · cases h

theorem Shutting.start (h : Shutting cfg) {e : Entry} {q : List Task}
    (hentry : Conn.entry e cfg.shared = some (w', q)) : Shutting ⟨w', cfg.threads ++ [q]⟩ := by
  obtain ⟨hstill, hidle⟩ := entry_still hentry
  obtain ⟨hconnecting, hanswering, hclosing, hmessaging, hmessagingOn⟩ := weight_of_idle hidle
  have hload : ∀ f : Task → ℕ, Sections.weight f q = 0 →
      Sections.load f (⟨w', cfg.threads ++ [q]⟩ : Config) ≤ Sections.load f cfg := by
    intro f hf
    rw [Sections.load_start _ cfg.shared, hf]
    exact Nat.le_refl _
  exact h.of_le hstill (fun t => hload _ (hconnecting t)) (hload _ hanswering)
    (fun t => hload _ (hclosing t)) (hload _ hmessaging) (fun t => hload _ (hmessagingOn t))

/-- Every section that is left hands over what its caller says it does. -/
def AllSound (cfg : Config) : Prop := ∀ q ∈ cfg.threads, ∀ task ∈ q, task.sect.Sound

theorem AllSound.step [Target] (h : AllSound cfg) {l : Label} (hstep : program.step cfg l = some cfg') :
    AllSound cfg' := by
  intro q hq task htask
  obtain ⟨e, w', p, rfl, hentry, rfl⟩ | ⟨i, c, front, ks, w', ks', rfl, hget, hexec, rfl⟩ :=
    Sections.Program.step_cases hstep
  · obtain hq | hq := List.mem_append.mp hq
    · exact h q hq task htask
    · rw [List.mem_singleton.mp hq] at htask
      exact ((entry_silent hentry).2 task htask).sound
  · obtain rfl | ⟨j, -, hj⟩ := Sections.mem_set_cases hq
    · obtain htask | htask := List.mem_append.mp htask
      · have hfront := h _ (List.mem_of_getElem? hget) front (List.mem_cons_self ..)
        exact (exec_wires hexec).sound hfront task htask
      · exact h _ (List.mem_of_getElem? hget) task (List.mem_cons_of_mem _ htask)
    · exact h q (List.mem_of_getElem? hj) task htask

/-- A decent step keeps the invariant. -/
theorem Shutting.step [Target] (h : Shutting cfg) (hsound : AllSound cfg) {l : Label}
    (hdecent : Decent cfg l) (hstep : program.step cfg l = some cfg') : Shutting cfg' := by
  obtain ⟨e, w', q, rfl, hentry, rfl⟩ | ⟨i, c, task, ks, w', ks', rfl, hget, hexec, rfl⟩ :=
    Sections.Program.step_cases hstep
  · exact h.start hentry
  · have hshuts : Shuts task cfg.shared w' ks' := exec_shuts hexec
    apply h.of_shuts _ _ _ hshuts (loads_run hget w' ks')
    · exact hsound _ (List.mem_of_getElem? hget) task (List.mem_cons_self ..)
    · exact hdecent task (Sections.Label.front_run hget c)
    · intro f
      exact Sections.le_load f hget (List.mem_cons_self ..)

theorem shutting_initial : Shutting initial := by
  have hload : ∀ f : Task → ℕ, Sections.load f initial = 0 := fun _ => rfl
  have hcloses : ∀ t, closes t initial = 0 := fun _ => rfl
  refine ⟨⟨fun t => ?_, fun t ht => ⟨?_, hcloses t⟩⟩, fun t => ?_, fun t ht => ?_, fun _ => hload _,
    fun t _ => hload _, fun t front back heq => ?_⟩
  · rw [hload]
    exact Nat.zero_le _
  · intro ht
    cases ht
  · rw [hcloses]
    exact Nat.zero_le _
  · cases ht
  · exact absurd heq.symm (by simp [framesOn, initial])

/-- In a run of decent steps one close frame at most is sent on a connection, and no message behind
it. -/
theorem run_closedOnce [Target] (ls : List Label)
    (h : Runs.Along program.step (fun cfg l _ => Decent cfg l) initial ls) :
    Runs.Along program.step (fun _ _ cfg' => ∀ t, ClosedOnce (framesOn t cfg'.shared.trace))
      initial ls := by
  apply h.mono (I := fun cfg => AllSound cfg ∧ Shutting cfg)
  · intro cfg l cfg' ⟨hsound, hshutting⟩ hdecent hstep
    have hshutting' := hshutting.step hsound hdecent hstep
    exact ⟨⟨hsound.step hstep, hshutting'⟩, hshutting'.frames⟩
  · exact ⟨by simp [AllSound, initial], shutting_initial⟩

/-! ## Close frames and messages behind a close frame -/

/-- The client is open on transport 0. -/
def openLabels : List Label :=
  connectLabels ++ [.start (.data 0 (acceptingHead exampleKey)), .run 1 .go, .run 0 (.now 0)]

/-- `Close` up to its wait: its close frame has gone out. -/
def closeLabels : List Label :=
  [.start (.call (.close kNormal [])), .run 2 .go, .run 2 .go, .run 2 .go, .run 2 (.random [0]),
    .run 2 .go, .run 2 (.answer (.ok 0))]

/-- A text is sent and the peer's next frame is malformed, both during the wait. -/
def closedTwiceLabels : List Label :=
  openLabels ++ closeLabels ++
    [.start (.call (.sendFragment (ascii ['x']) false true)), .run 3 .go, .run 3 (.random [0]),
      .run 3 .go, .start (.data 0 [0xFF, 0x00]), .run 4 .go, .run 4 .go, .run 4 .go, .run 4 .go,
      .run 4 .go, .run 4 (.random [0]), .run 4 .go]

/-- A message and a second close frame can be sent behind a close frame. -/
theorem closed_twice :
    ¬ ∀ cfg, Runs.Reachable (@program esp32).step initial cfg →
      ∀ t, ClosedOnce (framesOn t cfg.shared.trace) := by
  intro h
  have hrun : (Runs.exec (@program esp32).step initial closedTwiceLabels).map
      (fun cfg => framesOn 0 cfg.shared.trace) = some [.kClose, .kText, .kClose] := by
    decide +kernel
  obtain ⟨cfg, hcfg, hframes⟩ := Option.map_eq_some_iff.mp hrun
  have honce := h cfg ⟨_, hcfg⟩ 0
  rw [hframes] at honce
  exact absurd (honce [] _ rfl .kClose (by simp)).1 (by simp)

/-- A text is sent, then `Close` sends its frame and the peer answers it. -/
def closedLabels : List Label :=
  openLabels ++
    [.start (.call (.sendFragment (ascii ['x']) false true)), .run 2 .go, .run 2 (.random [0]),
      .run 2 .go, .start (.call (.close kNormal [])), .run 3 .go, .run 3 .go, .run 3 .go,
      .run 3 (.random [0]), .run 3 .go, .run 3 (.answer (.ok 0)), .start (.data 0 [0x88, 0x00]),
      .run 4 .go, .run 4 .go, .run 4 .go, .run 4 .go, .run 4 .go]

theorem run_closedOnce_closed :
    Runs.Along (@program esp32).step
      (fun _ _ cfg' => ∀ t, ClosedOnce (framesOn t cfg'.shared.trace)) initial closedLabels :=
  @run_closedOnce esp32 closedLabels (by decide +kernel)

end EspModemLink.WebSocket
