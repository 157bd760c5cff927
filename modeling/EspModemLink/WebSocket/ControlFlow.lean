import EspModemLink.WebSocket.CloseHandshake
import EspModemLink.WebSocket.Heartbeat

/-!
# The control flow of the WebSocket client

Which sections a section can leave, and which sections write which members. Both are read off the
kind of a section, so what follows from them can be computed.
-/

namespace EspModemLink.WebSocket

open Bytes Http

/-- The caller of `Send`, as far as the control flow depends on it. -/
inductive SendKind where
  | establish (task : Bool) | frame (caller : FrameCaller) | close (waits : Bool)
deriving DecidableEq, Repr

/-- What a section does next depends on its kind. `task` tells the attempts of the maintenance task
from `Connect`, `ok` how a call went, and `data` whether the bytes are a part of a message. -/
inductive Kind where
  | callSet | callSetAutoReconnect | callConnect | callClose | callSendFragment | callPing
  | establish (task : Bool)
  | create (task : Bool)
  | abandon (task : Bool)
  | transportConnect (task : Bool)
  | store (task data : Bool)
  | await (task : Bool)
  | established (task ok : Bool)
  | closing | awaitClosed
  | sendFrame (caller : FrameCaller) (data : Bool)
  | frameSent (caller : FrameCaller) (ok : Bool)
  | sendCloseFrame (waits : Bool)
  | closeFrameSent (waits : Bool)
  | transportSend (caller : SendKind) (data : Bool)
  | sending (caller : SendKind) (data : Bool)
  | storeLastSent | readPingSent | storePingSent
  | onTransportData | enterDrain | drainFrames | leaveDrain | handleFrame | answerClose
  | teardown | transportDisconnect | disconnecting | notifyDisconnected
  | stopMaintain | joinMaintain | joining | setRunning | createTask
  | maintainBegin | maintainLoop | maintainTick | maintainRead | maintainOpen
  | heartbeatNow | heartbeatPing | heartbeatIdle
  | giveUp | setExhausted | backoff | backoffOver | maintainEnd
  | onConnected | onDisconnected | callback
  | inCallback | returned
deriving DecidableEq, Repr

def Caller.isTask : Caller → Bool
  | .connect => false
  | .maintain _ => true

def CloseCaller.waits : CloseCaller → Bool
  | .close .. => true
  | .fail => false

def SendCaller.kind : SendCaller → SendKind
  | .establish caller => .establish caller.isTask
  | .sendFrame caller => .frame caller
  | .sendCloseFrame caller => .close caller.waits

def Call.kind : Call → Kind
  | .setHeader .. | .setTlsConfig _ | .setHeartbeat _ => .callSet
  | .setAutoReconnect _ => .callSetAutoReconnect
  | .connect _ => .callConnect
  | .close .. => .callClose
  | .sendFragment .. => .callSendFragment
  | .ping _ => .callPing

def Callback.kind : Callback → Kind
  | .connected => .onConnected
  | .disconnected .. => .onDisconnected
  | .message .. | .pong _ | .error _ => .callback

def Sect.kind : Sect → Kind
  | .call c => c.kind
  | .establish caller _ => .establish caller.isTask
  | .create caller .. => .create caller.isTask
  | .abandon caller _ => .abandon caller.isTask
  | .transportConnect caller .. => .transportConnect caller.isTask
  | .store caller _ request => .store caller.isTask (isMessage request)
  | .await caller => .await caller.isTask
  | .established caller result => .established caller.isTask result.isOk
  | .closing .. => .closing
  | .awaitClosed .. => .awaitClosed
  | .sendFrame opcode _ _ caller => .sendFrame caller opcode.isData
  | .frameSent caller result => .frameSent caller result.isOk
  | .sendCloseFrame _ _ caller => .sendCloseFrame caller.waits
  | .closeFrameSent caller => .closeFrameSent caller.waits
  | .transportSend _ bytes caller => .transportSend caller.kind (isMessage bytes)
  | .sending _ bytes caller => .sending caller.kind (isMessage bytes)
  | .storeLastSent => .storeLastSent
  | .readPingSent => .readPingSent
  | .storePingSent _ => .storePingSent
  | .onTransportData _ => .onTransportData
  | .enterDrain => .enterDrain
  | .drainFrames => .drainFrames
  | .leaveDrain => .leaveDrain
  | .handleFrame _ => .handleFrame
  | .answerClose .. => .answerClose
  | .teardown .. => .teardown
  | .transportDisconnect _ => .transportDisconnect
  | .disconnecting _ => .disconnecting
  | .notifyDisconnected .. => .notifyDisconnected
  | .stopMaintain => .stopMaintain
  | .joinMaintain => .joinMaintain
  | .joining => .joining
  | .setRunning => .setRunning
  | .createTask => .createTask
  | .maintainBegin => .maintainBegin
  | .maintainLoop => .maintainLoop
  | .maintainTick => .maintainTick
  | .maintainRead => .maintainRead
  | .maintainOpen _ => .maintainOpen
  | .heartbeatNow _ => .heartbeatNow
  | .heartbeatPing .. => .heartbeatPing
  | .heartbeatIdle .. => .heartbeatIdle
  | .giveUp _ => .giveUp
  | .setExhausted => .setExhausted
  | .backoff .. => .backoff
  | .backoffOver .. => .backoffOver
  | .maintainEnd => .maintainEnd
  | .callback c => c.kind
  | .inCallback => .inCallback
  | .returned _ => .returned

/-! ## Successors -/

/-- What a delivery out of a call into the transport begins with. -/
def Kind.delivered : List Kind := [.onTransportData, .teardown]

def Kind.calls : List Kind :=
  [.callSet, .callSetAutoReconnect, .callConnect, .callClose, .callSendFragment, .callPing]

/-- `Fail`. -/
def Kind.fails : List Kind := [.callback, .sendCloseFrame false, .teardown]

/-- What a section of a kind can leave. -/
def Kind.next : Kind → List Kind
  | .callSet | .callSetAutoReconnect => []
  | .callConnect => [.returned, .establish false]
  | .callClose => [.stopMaintain, .closing]
  | .callSendFragment => [.returned, .sendFrame .sendFragment true]
  | .callPing => [.callback, .sendFrame .sendPing false]
  | .establish task => [.established task false, .create task]
  | .create task => [.abandon task, .transportConnect task]
  | .abandon task => [.established task false]
  | .transportConnect task => .abandon task :: .store task false :: .transportConnect task :: delivered
  | .store task data => [.transportSend (.establish task) data]
  | .await task => [.teardown, .established task false, .established task true]
  | .established false false => [.returned]
  | .established false true => [.stopMaintain, .setRunning, .createTask, .onConnected, .returned]
  | .established true false => [.callback, .maintainLoop]
  | .established true true => [.onConnected, .maintainLoop]
  | .closing => [.callback, .teardown, .sendCloseFrame true]
  | .awaitClosed => [.teardown]
  | .sendFrame caller data => [.frameSent caller false, .transportSend (.frame caller) data]
  | .frameSent .handler _ => []
  | .frameSent .sendFragment _ => [.returned]
  | .frameSent .sendPing true => [.readPingSent]
  | .frameSent .sendPing false => [.callback]
  | .sendCloseFrame waits => [.closeFrameSent waits, .transportSend (.close waits) false]
  | .closeFrameSent true => [.awaitClosed]
  | .closeFrameSent false => []
  | .transportSend caller data => [.sending caller data]
  | .sending (.establish task) data =>
      .established task false :: .await task :: .sending (.establish task) data :: delivered
  | .sending (.frame caller) data =>
      .frameSent caller false :: .frameSent caller true :: .storeLastSent ::
        .sending (.frame caller) data :: delivered
  | .sending (.close waits) data =>
      .closeFrameSent waits :: .storeLastSent :: .sending (.close waits) data :: delivered
  | .storeLastSent => []
  | .readPingSent => [.storePingSent]
  | .storePingSent => []
  | .onTransportData => .enterDrain :: fails
  | .enterDrain => [.drainFrames, .leaveDrain]
  | .drainFrames => .handleFrame :: .drainFrames :: fails
  | .leaveDrain => []
  | .handleFrame => .sendFrame .handler false :: .answerClose :: fails
  | .answerClose => [.sendFrame .handler false, .teardown]
  | .teardown => [.transportDisconnect, .notifyDisconnected]
  | .transportDisconnect => [.disconnecting]
  | .disconnecting => .disconnecting :: delivered
  | .notifyDisconnected => [.onDisconnected]
  | .stopMaintain => [.joinMaintain]
  | .joinMaintain => [.joining]
  | .joining | .setRunning | .createTask => []
  | .maintainBegin => [.maintainLoop]
  | .maintainLoop => [.maintainTick, .maintainEnd]
  | .maintainTick => [.maintainRead, .maintainEnd]
  | .maintainRead => [.maintainOpen, .maintainLoop, .giveUp, .backoff]
  | .maintainOpen => [.maintainLoop, .heartbeatNow]
  | .heartbeatNow => [.heartbeatPing]
  | .heartbeatPing => [.heartbeatIdle, .callback, .teardown, .maintainLoop]
  | .heartbeatIdle => [.sendFrame .sendPing false, .maintainLoop]
  | .giveUp => [.maintainLoop, .setExhausted, .callback]
  | .setExhausted => []
  | .backoff => [.backoff, .backoffOver]
  | .backoffOver => [.establish true, .maintainEnd]
  | .maintainEnd => []
  | .onConnected | .onDisconnected | .callback => [.inCallback]
  | .inCallback => .inCallback :: calls
  | .returned => []

/-! ## Writers -/

/-- Members that other sections read. -/
inductive Member where
  | state | transport | sendFragmentOpen | connected | reconnect | reconnectAttempt
  | reconnectExhausted | userClosed | maintainRunning | maintainTask | maintainThread
  | rxBuffer | handshakeDone
deriving DecidableEq, Repr

/-- The members that a section of a kind writes. -/
def Kind.writes : Kind → List Member
  | .callSetAutoReconnect => [.reconnect, .reconnectAttempt, .reconnectExhausted]
  | .callConnect => [.userClosed, .reconnectAttempt, .reconnectExhausted]
  | .callClose => [.userClosed]
  | .callSendFragment => [.sendFragmentOpen]
  | .establish _ => [.state, .sendFragmentOpen, .rxBuffer, .handshakeDone]
  | .abandon _ => [.state]
  | .store .. => [.transport]
  | .await _ => [.state, .connected]
  | .established true false => [.reconnectAttempt]
  | .established true true => [.reconnectAttempt, .reconnectExhausted]
  | .onTransportData => [.rxBuffer, .handshakeDone]
  | .drainFrames => [.rxBuffer]
  | .teardown => [.state, .transport, .sendFragmentOpen, .rxBuffer]
  | .notifyDisconnected => [.connected]
  | .stopMaintain | .setRunning => [.maintainRunning]
  | .joining | .createTask | .maintainEnd => [.maintainTask]
  | .maintainBegin => [.maintainThread]
  | .maintainOpen => [.reconnectAttempt]
  | .setExhausted => [.reconnectExhausted]
  | _ => []

/-- All members but those of `written` are as they were. -/
structure Keeps (written : List Member) (c c' : SoftwareWsClient) : Prop where
  state : .state ∉ written → c'.state = c.state
  transport : .transport ∉ written → c'.transport = c.transport
  sendFragmentOpen : .sendFragmentOpen ∉ written → c'.sendFragmentOpen = c.sendFragmentOpen
  connected : .connected ∉ written → c'.connected = c.connected
  reconnect : .reconnect ∉ written → c'.reconnect = c.reconnect
  reconnectAttempt : .reconnectAttempt ∉ written → c'.reconnectAttempt = c.reconnectAttempt
  reconnectExhausted : .reconnectExhausted ∉ written → c'.reconnectExhausted = c.reconnectExhausted
  userClosed : .userClosed ∉ written → c'.userClosed = c.userClosed
  maintainRunning : .maintainRunning ∉ written → c'.maintainRunning = c.maintainRunning
  maintainTask : .maintainTask ∉ written → c'.maintainTask = c.maintainTask
  maintainThread : .maintainThread ∉ written → c'.maintainThread = c.maintainThread
  rxBuffer : .rxBuffer ∉ written → c'.rxBuffer = c.rxBuffer
  handshakeDone : .handshakeDone ∉ written → c'.handshakeDone = c.handshakeDone

theorem Keeps.rfl {written : List Member} {c : SoftwareWsClient} : Keeps written c c := by
  constructor <;> intro _ <;> exact Eq.refl _

/-- A section of a kind: what it leaves, and what it writes. -/
structure Flows (k : Kind) (w w' : Conn) (ks : List Task) : Prop where
  next : ∀ task ∈ ks, task.sect.kind ∈ k.next
  keeps : Keeps k.writes w.client w'.client

section

variable {i : ℕ} {task : Task} {c : Choice} {w w' v : Conn} {ks : List Task} {sects : List Sect}
  {k : Kind}

-- The kind of a section, what it can leave and what it can write are computed.
attribute [local simp] Sect.kind Call.kind Callback.kind SendCaller.kind Caller.isTask
  CloseCaller.waits Kind.next Kind.writes Kind.delivered Kind.fails Kind.calls

/-- A section of a kind can leave all of these. -/
def Kind.Leaves (k : Kind) (sects : List Sect) : Prop := ∀ s ∈ sects, s.kind ∈ k.next

@[simp] theorem leaves_nil : k.Leaves [] := List.forall_mem_nil _

@[simp] theorem leaves_cons {s : Sect} : k.Leaves (s :: sects) ↔ s.kind ∈ k.next ∧ k.Leaves sects :=
  List.forall_mem_cons

theorem next_tasks (o : Origin) (h : k.Leaves sects) :
    ∀ t ∈ o.tasks sects, t.sect.kind ∈ k.next := by
  intro t ht
  obtain ⟨s, hs, rfl⟩ := List.mem_map.mp ht
  exact h s hs

theorem Flows.of_push {o : Origin} (h : some (v, o.tasks sects) = some (w', ks))
    (hkeeps : Keeps k.writes w.client v.client) (hnext : k.Leaves sects) :
    Flows k w w' ks := by
  obtain ⟨rfl, rfl⟩ := Prod.mk.inj (Option.some.inj h)
  exact ⟨next_tasks o hnext, hkeeps⟩

theorem Flows.of_clock {o : Origin} {ms : Int} {f : Conn → Conn} {sects : Conn → List Sect}
    (h : ((w.readClock ms).bind fun w => some (f w, o.tasks (sects w))) = some (w', ks))
    (hkeeps : ∀ v, v.client = w.client → Keeps k.writes w.client (f v).client)
    (hnext : ∀ v, k.Leaves (sects v)) : Flows k w w' ks := by
  obtain ⟨v, hv, h⟩ := Option.bind_eq_some_iff.mp h
  obtain ⟨-, rfl⟩ := readClock_eq hv
  exact .of_push h (hkeeps _ rfl) (hnext _)

/-- A delivery comes in front of a section that may stay. -/
theorem Flows.of_deliverWithin (h : w.deliverWithin task c = some (w', ks))
    (hstays : task.sect.kind ∈ k.next) (hdelivered : Kind.delivered ⊆ k.next) :
    Flows k w w' ks := by
  simp only [Conn.deliverWithin, Option.map_eq_some_iff, Prod.mk.injEq] at h
  obtain ⟨tasks, hdelivery, rfl, rfl⟩ := h
  refine ⟨?_, .rfl⟩
  intro t ht
  obtain ht | ht := List.mem_append.mp ht
  · apply hdelivered
    cases c <;> simp [Conn.delivery] at hdelivery <;> subst hdelivery <;>
      rw [List.mem_singleton.mp ht] <;> simp
  · rw [List.mem_singleton.mp ht]
    exact hstays

theorem next_fail (e : NetworkError) (code : ℕ) (reason : Bytes) :
    ∀ s ∈ Conn.fail e code reason, s.kind ∈ Kind.fails := by
  simp [Conn.fail]

/-! ### Sending -/

theorem isMessage_request (url : ParsedUrl) (key : Bytes) (headers : Fields) :
    isMessage (buildHandshakeRequest url key headers) = false := by
  rw [isMessage, opcodeOf_request ⟨url, key, headers, rfl⟩]
  rfl

theorem isMessage_encodeFrame {opcode : WsOpcode} {payload bytes : Bytes} {fin : Bool} {key : UInt32}
    (h : encodeFrame opcode payload fin (some key) = .ok bytes) : isMessage bytes = opcode.isData := by
  rw [isMessage, opcodeOf_encodeFrame h]
  rfl

theorem flows_call {o : Origin} (cl : Call)
    (h : some ((w.call cl).1, o.tasks (w.call cl).2) = some (w', ks)) : Flows cl.kind w w' ks := by
  cases cl with
  | connect url =>
      simp only [Conn.call, Conn.connect] at h
      split at h
      · exact .of_push h .rfl (by simp)
      · refine .of_push h ?_ (by simp)
        constructor <;> simp
  | sendFragment data binary fin =>
      simp only [Conn.call, Conn.sendFragment] at h
      split at h
      · exact .of_push h .rfl (by simp)
      · refine .of_push h (by constructor <;> simp) ?_
        intro s hs
        obtain rfl := List.mem_singleton.mp hs
        simp only [Sect.kind, Call.kind, Kind.next]
        split
        · simp [WsOpcode.isData, isControlOpcode]
        · split <;> simp [WsOpcode.isData, isControlOpcode]
  | ping payload =>
      simp only [Conn.call, Conn.ping] at h
      split at h
      · exact .of_push h .rfl (by simp)
      · refine .of_push h .rfl ?_
        simp [WsOpcode.isData, isControlOpcode]
  | setHeader | setTlsConfig | setHeartbeat | setAutoReconnect | close =>
      refine .of_push h ?_ (by simp [Conn.call])
      constructor <;> simp [Conn.call]

theorem flows_establish {o : Origin} (caller : Caller) (url : Bytes) (words : List UInt32)
    (h : some ((w.establish o caller url words).1, o.tasks (w.establish o caller url words).2) =
      some (w', ks)) : Flows (.establish caller.isTask) w w' ks := by
  simp only [Conn.establish] at h
  split at h
  · exact .of_push h .rfl (by simp [Except.isOk, Except.toBool])
  · split at h
    · exact .of_push h .rfl (by simp [Except.isOk, Except.toBool])
    · refine .of_push h ?_ (by simp)
      constructor <;> simp [Conn.beginConnection, Conn.log, Conn.beginHandshake]

theorem flows_established {o : Origin} (caller : Caller) (result : Result Unit)
    (h : some ((w.established caller result).1, o.tasks (w.established caller result).2) =
      some (w', ks)) : Flows (.established caller.isTask result.isOk) w w' ks := by
  cases caller <;> cases result <;>
    refine .of_push h ?_ (by simp [Conn.established, Except.isOk, Except.toBool]) <;>
    constructor <;>
    simp [Conn.established, Except.isOk, Except.toBool]

theorem flows_sendFrame {o : Origin} (opcode : WsOpcode) (payload : Bytes) (fin : Bool)
    (caller : FrameCaller) (mask : UInt32)
    (h : some ((w.sendFrame opcode payload fin caller mask).1,
      o.tasks (w.sendFrame opcode payload fin caller mask).2) = some (w', ks)) :
    Flows (.sendFrame caller opcode.isData) w w' ks := by
  simp only [Conn.sendFrame] at h
  split at h
  · exact .of_push h .rfl (by simp [Except.isOk, Except.toBool])
  · rename_i hencoded
    split at h
    · exact .of_push h .rfl (by simp [Except.isOk, Except.toBool])
    · exact .of_push h .rfl
        (by simp [isMessage_encodeFrame hencoded])

theorem flows_sendCloseFrame {o : Origin} (code : ℕ) (reason : Bytes) (caller : CloseCaller)
    (mask : UInt32)
    (h : some ((w.sendCloseFrame code reason caller mask).1,
      o.tasks (w.sendCloseFrame code reason caller mask).2) = some (w', ks)) :
    Flows (.sendCloseFrame caller.waits) w w' ks := by
  simp only [Conn.sendCloseFrame] at h
  split at h
  · exact .of_push h .rfl (by simp)
  · split at h
    · exact .of_push h (by constructor <;> exact fun _ => rfl) (by simp)
    · split at h
      · exact .of_push h (by constructor <;> exact fun _ => rfl) (by simp)
      · rename_i hencoded
        refine .of_push h (by constructor <;> exact fun _ => rfl) ?_
        simp [isMessage_encodeFrame hencoded, WsOpcode.isData, isControlOpcode]

theorem flows_sent {o : Origin} (t : ℕ) (bytes : Bytes) (result : Result ℕ) (caller : SendCaller)
    (h : some ((v.sent result caller).1, o.tasks (v.sent result caller).2) = some (w', ks))
    (hclient : v.client = w.client) : Flows (Sect.sending t bytes caller).kind w w' ks := by
  cases caller with
  | establish caller =>
      cases result <;> refine .of_push h (hclient ▸ .rfl) ?_ <;>
        simp [Conn.sent, Except.isOk, Except.toBool]
  | sendFrame caller =>
      cases result <;> refine .of_push h (hclient ▸ .rfl) ?_ <;>
        simp [Conn.sent, Except.isOk, Except.toBool]
  | sendCloseFrame caller =>
      refine .of_push h (hclient ▸ .rfl) ?_
      simp [Conn.sent]

/-! ### Receiving -/

theorem keeps_handleDataFrame (frame : WsFrame) :
    Keeps [] w.client (w.handleDataFrame frame).1.client ∧
      Kind.handleFrame.Leaves (w.handleDataFrame frame).2 := by
  have hfail : ∀ (e : NetworkError) (code : ℕ) (reason : Bytes),
      Kind.handleFrame.Leaves (Conn.fail e code reason) := by
    intro e code reason s hs
    exact List.mem_cons_of_mem _ (List.mem_cons_of_mem _ (next_fail e code reason s hs))
  simp only [Conn.handleDataFrame]
  split
  · exact ⟨.rfl, hfail _ _ _⟩
  · split
    · exact ⟨.rfl, hfail _ _ _⟩
    · split
      · split
        · exact ⟨by constructor <;> exact fun _ => rfl, hfail _ _ _⟩
        · split <;> refine ⟨by constructor <;> exact fun _ => rfl, ?_⟩ <;>
            simp
      · split <;> refine ⟨by constructor <;> exact fun _ => rfl, ?_⟩ <;>
          simp

theorem keeps_handleFrame (frame : WsFrame) :
    Keeps [] w.client (w.handleFrame frame).1.client ∧
      Kind.handleFrame.Leaves (w.handleFrame frame).2 := by
  simp only [Conn.handleFrame]
  split
  · exact ⟨.rfl, by simp [WsOpcode.isData, isControlOpcode]⟩
  · refine ⟨by constructor <;> exact fun _ => rfl, ?_⟩
    simp
  · unfold Conn.handleCloseFrame
    split
    · exact ⟨.rfl, by simp⟩
    · refine ⟨.rfl, fun s hs => ?_⟩
      exact List.mem_cons_of_mem _ (List.mem_cons_of_mem _ (next_fail _ _ _ s hs))
    · exact ⟨.rfl, by simp⟩
  · exact keeps_handleDataFrame frame

theorem flows_drainFrames {o : Origin} (h : some (w.drainFrames o) = some (w', ks)) :
    Flows .drainFrames w w' ks := by
  simp only [Conn.drainFrames] at h
  split at h
  · obtain ⟨rfl, rfl⟩ := Prod.mk.inj (Option.some.inj h)
    exact ⟨List.forall_mem_nil _, .rfl⟩
  · split at h
    · obtain ⟨rfl, rfl⟩ := Prod.mk.inj (Option.some.inj h)
      exact ⟨List.forall_mem_nil _, .rfl⟩
    · obtain ⟨rfl, rfl⟩ := Prod.mk.inj (Option.some.inj h)
      refine ⟨next_tasks _ fun s hs => ?_, .rfl⟩
      exact List.mem_cons_of_mem _ (List.mem_cons_of_mem _ (next_fail _ _ _ s hs))
    · obtain ⟨rfl, rfl⟩ := Prod.mk.inj (Option.some.inj h)
      refine ⟨?_, by constructor <;> simp [Conn.log]⟩
      simp [Origin.tasks]

/-! ### Ending -/

theorem flows_teardown {o : Origin} (code : ℕ) (reason : Bytes)
    (h : some ((w.teardown o code reason).1, o.tasks (w.teardown o code reason).2) =
      some (w', ks)) : Flows .teardown w w' ks := by
  refine .of_push h (by constructor <;> simp [Conn.teardown, Conn.log, Conn.dropTransport]) ?_
  simp only [Conn.teardown]
  cases w.client.transport <;> split <;> simp

theorem flows_maintainRead {o : Origin}
    (h : some (w.maintainRead.1, o.tasks w.maintainRead.2) = some (w', ks)) :
    Flows .maintainRead w w' ks := by
  simp only [Conn.maintainRead] at h
  split at h
  · exact .of_push h .rfl (by simp)
  · split at h
    · exact .of_push h .rfl (by simp)
    · split at h <;> exact .of_push h .rfl (by simp)

theorem flows_heartbeatPing {o : Origin} (config : HeartbeatConfig) (now : Int)
    (h : some ((w.heartbeatPing config now).1, o.tasks (w.heartbeatPing config now).2) =
      some (w', ks)) : Flows .heartbeatPing w w' ks := by
  simp only [Conn.heartbeatPing] at h
  split at h
  · exact .of_push h .rfl (by simp)
  · split at h <;> exact .of_push h .rfl (by simp)

/-! ### All sections -/

variable [Target]

/-- Everything that a section can leave, and everything that it can write. -/
theorem exec_flows (h : Conn.exec i task c w = some (w', ks)) : Flows task.sect.kind w w' ks := by
  obtain ⟨o, s⟩ := task
  unfold Conn.exec at h
  dsimp only at h
  split at h
  -- calls and `Establish`
  · exact flows_call _ h
  · exact flows_establish _ _ _ h
  · rename_i result
    cases result <;> refine .of_push h (by constructor <;> exact fun _ => rfl) ?_ <;>
      simp [Conn.create]
  · refine .of_push h (by constructor <;> simp [Conn.abandon]) ?_
    simp [Conn.abandon, Except.isOk, Except.toBool]
  · split at h
    · exact .of_push h .rfl (by simp)
    · exact .of_push h .rfl (by simp [isMessage_request])
  · exact .of_deliverWithin h (by simp)
      (by simp)
  · refine .of_push h ?_ (by simp [Conn.store])
    constructor <;> simp [Conn.store]
  · split at h
    · refine .of_clock h ?_ ?_
      · intro v hv
        simp only [Conn.wake]
        split
        · rw [hv]
          exact .rfl
        · constructor <;> simp [Conn.openConnection, hv]
      · intro v
        simp only [Conn.wake]
        split <;> simp [Except.isOk, Except.toBool]
    · cases h
  · split at h
    · cases h
    · exact .of_push h .rfl (by simp [Except.isOk, Except.toBool])
  · exact flows_established _ _ h
  -- `Close` and sending
  · simp only [Conn.closing] at h
    split at h
    · exact .of_push h .rfl (by simp)
    · exact .of_push h .rfl (by simp)
  · split at h
    · exact .of_push h .rfl (by simp)
    · cases h
  · exact .of_push h .rfl (by simp)
  · exact flows_sendFrame _ _ _ _ _ h
  · rename_i caller result
    cases caller <;> cases result <;> refine .of_push h .rfl ?_ <;>
      simp [Conn.frameSent, Except.isOk, Except.toBool]
  · exact flows_sendCloseFrame _ _ _ _ h
  · rename_i caller
    cases caller <;> refine .of_push h .rfl ?_ <;>
      simp [Conn.closeFrameSent]
  · exact .of_push h .rfl (by simp)
  · exact flows_sent _ _ _ _ h rfl
  · rename_i caller _
    cases caller <;> exact .of_deliverWithin h (by simp)
      (by simp)
  · exact .of_clock h (fun v hv => by rw [← hv]; constructor <;> exact fun _ => rfl) (by simp)
  · exact .of_clock h (fun v hv => hv ▸ .rfl) (by simp)
  · exact .of_push h (by constructor <;> exact fun _ => rfl) (by simp)
  -- receiving
  · simp only [Conn.queueInbound] at h
    split at h
    · refine .of_push h (by constructor <;> simp) fun s hs => ?_
      exact List.mem_cons_of_mem _ (next_fail _ _ _ s hs)
    · split at h
      · refine .of_push h (by constructor <;> simp) ?_
        simp
      · simp only [Conn.consumeHandshake] at h
        split at h
        · refine .of_push h (by constructor <;> simp) ?_
          simp
        · refine .of_push h ?_ (by simp)
          constructor <;> simp [Conn.readHead, Conn.log]
  · split at h
    · exact .of_push h .rfl (by simp)
    · exact .of_push h .rfl (by simp)
  · exact flows_drainFrames h
  · exact .of_push h .rfl (by simp)
  · obtain ⟨hkeeps, hnext⟩ := keeps_handleFrame (w := w) _
    exact .of_push h hkeeps hnext
  · refine .of_push h (by constructor <;> exact fun _ => rfl) ?_
    simp only [Conn.answerClose]
    split <;> simp [WsOpcode.isData, isControlOpcode]
  -- ending
  · exact flows_teardown _ _ h
  · exact .of_push h .rfl (by simp)
  · exact .of_push h .rfl (by simp)
  · exact .of_deliverWithin h (by simp)
      (by simp)
  · refine .of_push h ?_ (by simp)
    constructor <;> simp
  · refine .of_push h (by constructor <;> simp) ?_
    split <;> simp
  -- the maintenance task
  · simp only [Conn.joinMaintain] at h
    split at h <;> exact .of_push h .rfl (by simp)
  · simp only [Conn.joining] at h
    split at h
    · exact .of_push h (by constructor <;> simp) (by simp)
    · cases h
  · exact .of_push h (by constructor <;> simp) (by simp)
  · simp only [Conn.createTask] at h
    split at h
    · exact .of_push h (by constructor <;> simp) (by simp)
    · cases h
  · refine .of_push h ?_ (by simp)
    constructor <;> simp
  · refine .of_push h .rfl ?_
    split <;> simp
  · refine .of_push h .rfl ?_
    split <;> simp
  · exact flows_maintainRead h
  · refine .of_push h (by constructor <;> simp [Conn.maintainOpen]) ?_
    simp only [Conn.maintainOpen]
    split <;> simp
  · exact .of_clock h (fun v hv => hv ▸ .rfl) (by simp)
  · exact flows_heartbeatPing _ _ h
  · simp only [Conn.heartbeatIdle] at h
    split at h <;> refine .of_push h .rfl ?_ <;>
      simp [WsOpcode.isData, isControlOpcode]
  · simp only [Conn.giveUp] at h
    split at h <;> exact .of_push h .rfl (by simp)
  · exact .of_push h (by constructor <;> simp) (by simp)
  · split at h
    · exact .of_push h .rfl (by simp)
    · cases h
  · exact .of_push h .rfl (by simp)
  · refine .of_push h .rfl ?_
    split <;> simp
  · exact .of_push h (by constructor <;> simp) (by simp)
  -- callbacks
  · rename_i call
    refine .of_push h .rfl ?_
    cases call <;> simp
  · exact .of_push h .rfl (by simp)
  · rename_i call
    obtain ⟨rfl, rfl⟩ := Prod.mk.inj (Option.some.inj h)
    refine ⟨List.forall_mem_cons.mpr ⟨?_, List.forall_mem_singleton.mpr (by simp)⟩, .rfl⟩
    cases call <;> simp
  · exact .of_push h .rfl (by simp)
  · cases h

end

/-- A new thread writes at most what becomes of the task. -/
theorem entry_keeps {e : Entry} {w w' : Conn} {q : List Task}
    (h : Conn.entry e w = some (w', q)) : Keeps [.maintainTask] w.client w'.client := by
  cases e with
  | call cl =>
      obtain ⟨rfl, -⟩ := Prod.mk.inj (Option.some.inj h)
      exact .rfl
  | data | closed =>
      simp only [Conn.entry] at h
      split at h
      · obtain ⟨rfl, -⟩ := Prod.mk.inj (Option.some.inj h)
        exact .rfl
      · cases h
  | maintain =>
      simp only [Conn.entry] at h
      split at h
      · obtain ⟨rfl, -⟩ := Prod.mk.inj (Option.some.inj h)
        constructor <;> simp
      · cases h

/-- What a thread can begin with. -/
def Kind.entries : List Kind := .onTransportData :: .teardown :: .maintainBegin :: calls

theorem entry_kind {e : Entry} {w w' : Conn} {q : List Task}
    (h : Conn.entry e w = some (w', q)) : ∃ task, q = [task] ∧ task.sect.kind ∈ Kind.entries := by
  cases e with
  | call cl =>
      obtain ⟨-, rfl⟩ := Prod.mk.inj (Option.some.inj h)
      refine ⟨_, rfl, ?_⟩
      cases cl <;> simp [Sect.kind, Call.kind, Kind.entries, Kind.calls]
  | data | closed | maintain =>
      simp only [Conn.entry] at h
      split at h
      · obtain ⟨-, rfl⟩ := Prod.mk.inj (Option.some.inj h)
        exact ⟨_, rfl, by simp [Sect.kind, Kind.entries]⟩
      · cases h

end EspModemLink.WebSocket
