import EspModemLink.WebSocket.ClientSteps
import EspModemLink.WebSocket.FrameCodec
import EspModemLink.WebSocket.Messages

/-!
# Inbound frames from outside

What the application and the peer see of the frames of a connection, the sections by which a
delivery is received, and what the sections beside them can do.
-/

namespace EspModemLink.WebSocket

open Bytes Http

/-! ## What is seen from outside -/

/-- What the application and the peer see of the inbound frames. -/
inductive Outcome where
  | message (data : Bytes) (binary : Bool)
  | error (e : NetworkError)
  | closing (code : ℕ)
  | tornDown (code : ℕ)
  | disconnected (code : ℕ)
deriving DecidableEq

/-- The status code in a masked close frame with a short payload. -/
def closeCode : Bytes → Option ℕ
  | first :: _ :: m0 :: m1 :: _ :: _ :: high :: low :: _ =>
      if first = 0x88 then some ((high ^^^ m0).toNat * 256 + (low ^^^ m1).toNat) else none
  | _ => none

def Event.outcome : Event → Option Outcome
  | .callback (.message data binary) => some (.message data binary)
  | .callback (.error e) => some (.error e)
  | .callback (.disconnected code _) => some (.disconnected code)
  | .sending _ bytes => (closeCode bytes).map .closing
  | .tornDown code _ => some (.tornDown code)
  | _ => none

/-- What was done for the frames of connection `n`, in order. -/
def outcomesOn (n : ℕ) (trace : List (Origin × Event)) : List Outcome :=
  trace.filterMap fun p => if p.1 = .frame n then p.2.outcome else none

/-- A failed connection: the application is told why, the peer gets a close frame, the connection
goes down, and the application is told so. -/
def Violation.outcomes (v : Violation) : List Outcome :=
  [.error v.error, .closing v.code, .tornDown v.code, .disconnected v.code]

def Reassembled.outcomes (s : Reassembled) : List Outcome :=
  s.messages.map (fun m => .message m.1 m.2) ++ (s.violation.map Violation.outcomes).getD []

/-- The messages that a sequence of frames says, and the failure that its violation leads to. -/
def Reading.outcomes {frames : List WsFrame} (r : Reading frames) : List Outcome :=
  r.messages.map (fun m => .message m.payload m.binary) ++
    (r.violation.map Violation.outcomes).getD []

theorem Reading.outcomes_eq {frames : List WsFrame} (r : Reading frames) :
    r.outcomes = (reassemble frames).outcomes := by
  obtain ⟨hmessages, hviolation⟩ := r.reassembled
  rw [Reassembled.outcomes, hmessages, hviolation, List.map_map]
  rfl

theorem outcomesOn_append (n : ℕ) (front back : List (Origin × Event)) :
    outcomesOn n (front ++ back) = outcomesOn n front ++ outcomesOn n back :=
  List.filterMap_append

theorem outcomesOn_other {n : ℕ} {o : Origin} (ho : o ≠ .frame n) (es : List Event) :
    outcomesOn n (es.map (Prod.mk o)) = [] := by
  induction es with
  | nil => rfl
  | cons e es ih => simp [outcomesOn, ho]

theorem outcomesOn_own (n : ℕ) (e : Event) :
    outcomesOn n [(.frame n, e)] = e.outcome.toList := by
  cases h : e.outcome with
  | none => simp [outcomesOn, h]
  | some out => simp [outcomesOn, h]

/-- More frames only add to what is seen. -/
theorem outcomes_prefix (front back : List WsFrame) :
    (reassemble front).outcomes <+: (reassemble (front ++ back)).outcomes := by
  rw [reassemble_append]
  by_cases hv : (reassemble front).violation = none
  · have hshown : (reassemble front).outcomes =
        (reassemble front).messages.map fun m => .message m.1 m.2 := by
      rw [Reassembled.outcomes, hv]
      exact List.append_nil _
    rw [hshown, Reassembled.outcomes]
    exact ((Reassembled.messages_prefix _ back).map _).trans (List.prefix_append _ _)
  · rw [Reassembled.feed_of_violation hv]

/-! ## Close frames and others -/

theorem fitEnd_le (reason : Bytes) (n : ℕ) : fitEnd reason n ≤ n := by
  induction n with
  | zero => exact Nat.le_refl _
  | succ n ih =>
      unfold fitEnd
      split
      · exact Nat.le_succ_of_le ih
      · exact Nat.le_refl _

theorem fitReason_length (reason : Bytes) : (fitReason reason).length ≤ kMaxCloseReason := by
  unfold fitReason
  split
  · assumption
  · have hend := fitEnd_le reason kMaxCloseReason
    rw [List.length_take]
    omega

/-- Only a close frame shows a status code. -/
theorem closeCode_of_other {opcode : WsOpcode} {payload bytes : Bytes} {fin : Bool} {key : UInt32}
    (h : encodeFrame opcode payload fin (some key) = .ok bytes) (hopcode : opcode ≠ .kClose) :
    closeCode bytes = none := by
  have hfirst : ∃ rest, bytes = (opcode.raw ||| (if fin then kFinBit else 0x00)) :: rest := by
    unfold encodeFrame at h
    split at h
    · cases h
    · split at h
      · cases h
      · exact ⟨_, (Except.ok.inj h).symm⟩
  obtain ⟨rest, rfl⟩ := hfirst
  have hraw : (opcode.raw ||| (if fin then kFinBit else 0x00)) ≠ 0x88 := by
    cases opcode <;> cases fin <;> first | decide | exact absurd rfl hopcode
  unfold closeCode
  split
  · rename_i hbytes
    rw [(List.cons.inj hbytes).1] at hraw
    rw [if_neg hraw]
  · rfl

/-- The close frame that the client makes shows its status code. -/
theorem closeCode_closeFrame {code : ℕ} (hcode : code < 65536) (hstatus : code ≠ kNoStatus)
    (reason : Bytes) (key : UInt32) :
    ∃ bytes, encodeFrame .kClose (closePayload code reason) true (some key) = .ok bytes ∧
      closeCode bytes = some code := by
  have hpayload : closePayload code reason =
      byteAt code 8 :: byteAt code 0 :: fitReason reason := by
    rw [closePayload, if_neg hstatus]
  have hlength := fitReason_length reason
  have hfits : ¬(isControlOpcode .kClose ∧
      kMaxControlPayload < (closePayload code reason).length) := by
    rw [hpayload]
    simp only [kMaxCloseReason, kMaxControlPayload, List.length_cons] at hlength ⊢
    omega
  have hshort : (closePayload code reason).length < kLengthIs16Bit := by
    rw [hpayload]
    simp only [kMaxCloseReason, kMaxControlPayload, kLengthIs16Bit, List.length_cons] at hlength ⊢
    omega
  refine ⟨_, by rw [encodeFrame, if_neg (by simp), if_neg hfits], ?_⟩
  rw [encodeLength, if_pos hshort, hpayload]
  have hmasked : ∃ rest, masked (byteAt code 8 :: byteAt code 0 :: fitReason reason) key =
      (byteAt code 8 ^^^ byteAt key.toNat 24) :: (byteAt code 0 ^^^ byteAt key.toNat 16) :: rest := by
    simp [masked, maskOctets, List.mapIdx_cons]
  obtain ⟨rest, hmasked⟩ := hmasked
  have hundone : ∀ a b : UInt8, a ^^^ b ^^^ b = a := by
    intro a b
    rw [UInt8.xor_assoc, UInt8.xor_self, UInt8.xor_zero]
  have hfirst : WsOpcode.kClose.raw ||| (if true then kFinBit else 0x00) = 0x88 := by decide
  rw [hmasked, hfirst]
  simp only [maskOctets, List.cons_append, List.nil_append, closeCode, if_true, hundone]
  have hhigh : (byteAt code 8).toNat = code / 256 % 256 := toNat_byteAt code 8
  have hlow : (byteAt code 0).toNat = code % 256 := by
    have h := toNat_byteAt code 0
    rw [Nat.pow_zero, Nat.div_one] at h
    exact h
  rw [hhigh, hlow]
  congr 1
  omega

/-! ## Frames on the wire -/

/-- A frame that arrives: bytes that are read as a frame, which is a data frame, a ping or a
pong. -/
structure InboundFrame where
  bytes : Bytes
  frame : WsFrame
  reads : takeFrame bytes = (.ready frame, [])
  notClose : frame.opcode ≠ .kClose

def wire (inbound : List InboundFrame) : Bytes := inbound.flatMap InboundFrame.bytes

def framesOf (inbound : List InboundFrame) : List WsFrame := inbound.map InboundFrame.frame

/-- The bytes that a step brings in. -/
def bytesIn : Label → Option Bytes
  | .start (.data _ bytes) => some bytes
  | .run _ (.data bytes) => some bytes
  | _ => none

/-- The bytes that a run brings in, as they are cut into deliveries. -/
def arrivals (ls : List Label) : Bytes := (ls.filterMap bytesIn).flatten

/-! ## The sections of a delivery -/

/-- The sections that receive bytes and take frames off them. -/
def receiving : Sect → Bool
  | .onTransportData _ | .enterDrain | .drainFrames | .leaveDrain => true
  | .handleFrame _ | .answerClose .. => true
  | _ => false

def Origin.isFrame : Origin → Bool
  | .frame _ => true
  | _ => false

/-- What a delivery and the frames in it still have to execute. -/
def inbound (k : Task) : Bool := k.origin.isFrame || receiving k.sect

/-! ## Sections beside a delivery -/

namespace Conn

/-- A section for `o` that has no part in receiving. -/
structure Aside (o : Origin) (w w' : Conn) : Prop where
  rxBuffer : w'.client.rxBuffer = w.client.rxBuffer
  fragmentOpen : w'.client.fragmentOpen = w.client.fragmentOpen
  fragmentBinary : w'.client.fragmentBinary = w.client.fragmentBinary
  fragmentPayload : w'.client.fragmentPayload = w.client.fragmentPayload
  done : w'.client.handshakeDone = w.client.handshakeDone
  draining : w'.draining = w.draining
  connection : w'.connection = w.connection
  trace : ∃ es : List Event, w'.trace = w.trace ++ es.map (Prod.mk o)

theorem Aside.rfl {o : Origin} {w : Conn} : Aside o w w :=
  ⟨.refl _, .refl _, .refl _, .refl _, .refl _, .refl _, .refl _, [], by simp⟩

theorem Aside.logged (o : Origin) (w : Conn) (e : Event) : Aside o w (w.log o e) :=
  ⟨.refl _, .refl _, .refl _, .refl _, .refl _, .refl _, .refl _, [e], by simp⟩

theorem Aside.trans {o : Origin} {w w' w'' : Conn} (h : Aside o w w') (h' : Aside o w' w'') :
    Aside o w w'' := by
  obtain ⟨es, htrace⟩ := h.trace
  obtain ⟨es', htrace'⟩ := h'.trace
  refine ⟨h'.rxBuffer.trans h.rxBuffer, h'.fragmentOpen.trans h.fragmentOpen,
    h'.fragmentBinary.trans h.fragmentBinary, h'.fragmentPayload.trans h.fragmentPayload,
    h'.done.trans h.done, h'.draining.trans h.draining, h'.connection.trans h.connection,
    es ++ es', ?_⟩
  rw [htrace', htrace, List.map_append, List.append_assoc]

/-- Members that have to do with receiving. -/
structure SameInbound (c c' : SoftwareWsClient) : Prop where
  rxBuffer : c'.rxBuffer = c.rxBuffer
  fragmentOpen : c'.fragmentOpen = c.fragmentOpen
  fragmentBinary : c'.fragmentBinary = c.fragmentBinary
  fragmentPayload : c'.fragmentPayload = c.fragmentPayload
  done : c'.handshakeDone = c.handshakeDone

theorem Aside.client {o : Origin} {w : Conn} {c : SoftwareWsClient} (h : SameInbound w.client c) :
    Aside o w { w with client := c } :=
  ⟨h.rxBuffer, h.fragmentOpen, h.fragmentBinary, h.fragmentPayload, h.done, .refl _, .refl _, [],
    by simp⟩

theorem readClock_aside {o : Origin} {w w' : Conn} {ms : Int} (h : w.readClock ms = some w') :
    Aside o w w' := by
  simp only [readClock] at h
  split at h
  · obtain rfl := Option.some.inj h
    exact ⟨rfl, rfl, rfl, rfl, rfl, rfl, rfl, [], by simp⟩
  · cases h

/-- What sections that have no part in a delivery do: begin a connection, tear one down, or leave
what was received alone. -/
inductive Beside (o : Origin) (w : Conn) : Conn → Prop
  | aside {w' : Conn} (h : Aside o w w') : Beside o w w'
  | begins (key : Bytes) (h : w.client.state = .kDisconnected) :
      Beside o w (w.beginConnection o key)
  | tearsDown (code : ℕ) (reason : Bytes) :
      Beside o w (({ w with client := dropTransport w.client } : Conn).log o
        (.tornDown code reason))

/-- Such a section leaves none that has a part in a delivery. -/
structure StaysBeside (o : Origin) (w w' : Conn) (ks : List Task) : Prop where
  effect : Beside o w w'
  sections : ks.filter inbound = []

variable {o : Origin} {w w' : Conn} {ks : List Task}

theorem filter_tasks (ho : o.isFrame = false) {sects : List Sect}
    (hsects : sects.filter receiving = []) : (o.tasks sects).filter inbound = [] := by
  rw [List.filter_eq_nil_iff] at hsects ⊢
  intro k hk
  obtain ⟨s, hs, rfl⟩ := List.mem_map.mp hk
  simpa [inbound, ho] using hsects s hs

theorem StaysBeside.of_push {v : Conn} {sects : List Sect} (ho : o.isFrame = false)
    (h : some (v, o.tasks sects) = some (w', ks)) (hv : Aside o w v)
    (hsects : sects.filter receiving = []) : StaysBeside o w w' ks := by
  obtain ⟨rfl, rfl⟩ := Prod.mk.inj (Option.some.inj h)
  exact ⟨.aside hv, filter_tasks ho hsects⟩

theorem StaysBeside.of_clock {ms : Int} {f : Conn → Conn} {sects : Conn → List Sect}
    (ho : o.isFrame = false)
    (h : ((w.readClock ms).bind fun w => some (f w, o.tasks (sects w))) = some (w', ks))
    (hf : ∀ w, Aside o w (f w)) (hsects : ∀ w, (sects w).filter receiving = []) :
    StaysBeside o w w' ks := by
  obtain ⟨v, hclock, h⟩ := Option.bind_eq_some_iff.mp h
  exact .of_push ho h ((readClock_aside hclock).trans (hf v)) (hsects v)

theorem beside_call (o : Origin) (w : Conn) (c : Call) :
    Aside o w (w.call c).1 ∧ (w.call c).2.filter receiving = [] := by
  cases c with
  | connect url =>
      simp only [call, connect]
      split
      · exact ⟨.rfl, rfl⟩
      · exact ⟨.client ⟨rfl, rfl, rfl, rfl, rfl⟩, rfl⟩
  | sendFragment data binary fin =>
      simp only [call, sendFragment]
      split
      · exact ⟨.rfl, rfl⟩
      · exact ⟨.client ⟨rfl, rfl, rfl, rfl, rfl⟩, rfl⟩
  | ping payload =>
      simp only [call, ping]
      split <;> exact ⟨.rfl, rfl⟩
  | setHeader | setTlsConfig | setHeartbeat | setAutoReconnect | close =>
      exact ⟨.client ⟨rfl, rfl, rfl, rfl, rfl⟩, rfl⟩

theorem beside_sendFrame (o : Origin) (w : Conn) (opcode : WsOpcode) (payload : Bytes) (fin : Bool)
    (caller : FrameCaller) (mask : UInt32) :
    Aside o w (w.sendFrame opcode payload fin caller mask).1 ∧
      (w.sendFrame opcode payload fin caller mask).2.filter receiving = [] := by
  simp only [sendFrame]
  split
  · exact ⟨.rfl, rfl⟩
  · split <;> exact ⟨.rfl, rfl⟩

theorem beside_sendCloseFrame (o : Origin) (w : Conn) (code : ℕ) (reason : Bytes)
    (caller : CloseCaller) (mask : UInt32) :
    Aside o w (w.sendCloseFrame code reason caller mask).1 ∧
      (w.sendCloseFrame code reason caller mask).2.filter receiving = [] := by
  simp only [sendCloseFrame]
  split
  · exact ⟨.rfl, rfl⟩
  · split
    · exact ⟨.client ⟨rfl, rfl, rfl, rfl, rfl⟩, rfl⟩
    · split <;> exact ⟨.client ⟨rfl, rfl, rfl, rfl, rfl⟩, rfl⟩

theorem beside_maintainRead (w : Conn) :
    w.maintainRead.1 = w ∧ w.maintainRead.2.filter receiving = [] := by
  simp only [maintainRead]
  split
  · exact ⟨rfl, rfl⟩
  · split
    · exact ⟨rfl, rfl⟩
    · split <;> exact ⟨rfl, rfl⟩

theorem beside_establish (o : Origin) (w : Conn) (ho : o.isFrame = false) (caller : Caller)
    (url : Bytes) (words : List UInt32) :
    StaysBeside o w (w.establish o caller url words).1
      (o.tasks (w.establish o caller url words).2) := by
  simp only [establish]
  split
  · exact ⟨.aside .rfl, filter_tasks ho rfl⟩
  · split
    · exact ⟨.aside .rfl, filter_tasks ho rfl⟩
    · rename_i hstate
      exact ⟨.begins _ (not_not.mp hstate), filter_tasks ho rfl⟩

theorem beside_teardown (o : Origin) (w : Conn) (ho : o.isFrame = false) (code : ℕ)
    (reason : Bytes) :
    StaysBeside o w (w.teardown o code reason).1
      (o.tasks (w.teardown o code reason).2) := by
  refine ⟨.tearsDown code reason, filter_tasks ho ?_⟩
  simp only [teardown]
  cases w.client.transport with
  | none => split <;> rfl
  | some t => split <;> rfl

variable [Target]

/-- Everything that a section beside a delivery can do. -/
theorem exec_beside {i : ℕ} {task : Task} {c : Choice} (hbeside : inbound task = false)
    (hc : ∀ bytes, c ≠ .data bytes) (h : exec i task c w = some (w', ks)) :
    StaysBeside task.origin w w' ks := by
  obtain ⟨o, s⟩ := task
  rw [inbound, Bool.or_eq_false_iff] at hbeside
  obtain ⟨ho, hs⟩ := hbeside
  dsimp only at ho hs
  have hdeliver : ∀ {s : Sect}, receiving s = false →
      w.deliverWithin ⟨o, s⟩ c = some (w', ks) → StaysBeside o w w' ks := by
    intro s hs h
    simp only [deliverWithin, Option.map_eq_some_iff, Prod.mk.injEq] at h
    obtain ⟨tasks, hdelivery, rfl, rfl⟩ := h
    refine ⟨.aside .rfl, ?_⟩
    cases c with
    | data bytes => exact absurd rfl (hc bytes)
    | closed =>
        obtain rfl := Option.some.inj hdelivery
        have hself : inbound ⟨o, s⟩ = false := by rw [inbound, ho, hs]; rfl
        rw [List.singleton_append, List.filter_cons_of_neg (by decide),
          List.filter_cons_of_neg (by simp [hself]), List.filter_nil]
    | _ => cases hdelivery
  unfold exec at h
  dsimp only at h
  split at h
  -- calls and `Establish`
  · exact .of_push ho h (beside_call _ _ _).1 (beside_call o _ _).2
  · obtain ⟨rfl, rfl⟩ := Prod.mk.inj (Option.some.inj h)
    exact beside_establish _ _ ho _ _ _
  · rename_i result
    cases result with
    | error e => exact .of_push ho h .rfl rfl
    | ok t =>
        refine .of_push ho h ?_ rfl
        have hcreated : Aside o w { w with transports := w.transports + 1 } :=
          ⟨rfl, rfl, rfl, rfl, rfl, rfl, rfl, [], by simp⟩
        exact hcreated.trans ((Aside.logged _ _ _).trans (.logged _ _ _))
  · exact .of_push ho h (.client ⟨rfl, rfl, rfl, rfl, rfl⟩) rfl
  · split at h <;> exact .of_push ho h .rfl rfl
  · exact hdeliver rfl h
  · refine .of_push ho h ?_ rfl
    exact ⟨rfl, rfl, rfl, rfl, rfl, rfl, rfl, [_], rfl⟩
  · split at h
    · obtain ⟨v, hclock, h⟩ := Option.bind_eq_some_iff.mp h
      have hv : Aside o w v := readClock_aside hclock
      simp only [wake] at h
      split at h
      · exact .of_push ho h hv rfl
      · exact .of_push ho h (hv.trans (.client ⟨rfl, rfl, rfl, rfl, rfl⟩)) rfl
    · cases h
  · split at h
    · cases h
    · exact .of_push ho h .rfl rfl
  · rename_i caller result
    cases caller <;> cases result <;>
      exact .of_push ho h (.client ⟨rfl, rfl, rfl, rfl, rfl⟩) rfl
  -- `Close` and sending
  · simp only [closing] at h
    split at h <;> exact .of_push ho h .rfl rfl
  · split at h
    · exact .of_push ho h .rfl rfl
    · cases h
  · exact .of_push ho h .rfl rfl
  · exact .of_push ho h (beside_sendFrame _ _ _ _ _ _ _).1 (beside_sendFrame o _ _ _ _ _ _).2
  · rename_i caller result
    cases caller <;> cases result <;> exact .of_push ho h .rfl rfl
  · exact .of_push ho h (beside_sendCloseFrame _ _ _ _ _ _).1 (beside_sendCloseFrame o _ _ _ _ _).2
  · rename_i caller
    cases caller <;> exact .of_push ho h .rfl rfl
  · exact .of_push ho h (.logged _ _ _) rfl
  · rename_i t bytes caller result
    cases caller <;> cases result <;> exact .of_push ho h (.logged _ _ _) rfl
  · exact hdeliver rfl h
  · exact .of_clock ho h (fun _ => .client ⟨rfl, rfl, rfl, rfl, rfl⟩) fun _ => rfl
  · exact .of_clock ho h (fun _ => .rfl) fun _ => rfl
  · exact .of_push ho h (.client ⟨rfl, rfl, rfl, rfl, rfl⟩) rfl
  -- receiving
  · cases hs
  · cases hs
  · cases hs
  · cases hs
  · cases hs
  · cases hs
  -- ending
  · obtain ⟨rfl, rfl⟩ := Prod.mk.inj (Option.some.inj h)
    exact beside_teardown _ _ ho _ _
  · exact .of_push ho h (.logged _ _ _) rfl
  · exact .of_push ho h .rfl rfl
  · exact hdeliver rfl h
  · exact .of_push ho h (.client ⟨rfl, rfl, rfl, rfl, rfl⟩) rfl
  · apply StaysBeside.of_push ho h (.client ⟨rfl, rfl, rfl, rfl, rfl⟩)
    split <;> rfl
  -- the maintenance task
  · simp only [joinMaintain] at h
    split at h <;> exact .of_push ho h .rfl rfl
  · simp only [joining] at h
    split at h
    · exact .of_push ho h (.client ⟨rfl, rfl, rfl, rfl, rfl⟩) rfl
    · cases h
  · exact .of_push ho h (.client ⟨rfl, rfl, rfl, rfl, rfl⟩) rfl
  · simp only [createTask] at h
    split at h
    · exact .of_push ho h (.client ⟨rfl, rfl, rfl, rfl, rfl⟩) rfl
    · cases h
  · exact .of_push ho h (.client ⟨rfl, rfl, rfl, rfl, rfl⟩) rfl
  · apply StaysBeside.of_push ho h .rfl
    split <;> rfl
  · apply StaysBeside.of_push ho h .rfl
    split <;> rfl
  · obtain ⟨hsame, hsects⟩ := beside_maintainRead w
    exact .of_push ho h (by rw [hsame]; exact .rfl) hsects
  · simp only [maintainOpen] at h
    split at h <;> exact .of_push ho h (.client ⟨rfl, rfl, rfl, rfl, rfl⟩) rfl
  · exact .of_clock ho h (fun _ => .rfl) fun _ => rfl
  · simp only [heartbeatPing] at h
    split at h
    · exact .of_push ho h .rfl rfl
    · split at h <;> exact .of_push ho h .rfl rfl
  · simp only [heartbeatIdle] at h
    split at h <;> exact .of_push ho h .rfl rfl
  · simp only [giveUp] at h
    split at h <;> exact .of_push ho h .rfl rfl
  · exact .of_push ho h (.client ⟨rfl, rfl, rfl, rfl, rfl⟩) rfl
  · split at h
    · exact .of_push ho h .rfl rfl
    · cases h
  · exact .of_push ho h .rfl rfl
  · apply StaysBeside.of_push ho h .rfl
    split <;> rfl
  · exact .of_push ho h (.client ⟨rfl, rfl, rfl, rfl, rfl⟩) rfl
  · exact .of_push ho h (.logged _ _ _) rfl
  · exact .of_push ho h .rfl rfl
  · obtain ⟨rfl, rfl⟩ := Prod.mk.inj (Option.some.inj h)
    refine ⟨.aside .rfl, ?_⟩
    have hself : inbound ⟨o, .inCallback⟩ = false := by rw [inbound, ho]; rfl
    rw [List.filter_cons_of_neg (by simp [inbound, Origin.isFrame, receiving]),
      List.filter_cons_of_neg (by simp [hself]), List.filter_nil]
  · exact .of_push ho h (.logged _ _ _) rfl
  · cases h

end Conn

end EspModemLink.WebSocket
