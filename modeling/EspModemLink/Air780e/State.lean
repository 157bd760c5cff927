import EspModemLink.AtParser
import EspModemLink.NetworkError
import EspModemLink.Hal.Routing
import Mathlib.Data.Fintype.Basic

/-!
# The state of the AIR780E module driver

The members of `Air780eHal`, one record for each mutex, with the operations that run under it, and
what the driver reads out of the lines of a response.
-/

namespace EspModemLink.Air780e

open Bytes AtParser

def kMaxConnections : ℕ := 6

/-- A connection id in range. -/
abbrev Cid := Fin kMaxConnections

/-- The range check of a connection id. -/
def cid? (id : Int) : Option Cid :=
  if h : 0 ≤ id ∧ id.toNat < kMaxConnections then some ⟨id.toNat, h.2⟩ else none

/-- A connection id as the `int` it is elsewhere. -/
def Cid.int (id : Cid) : Int := (id.val : Int)

def kMaxDrainPerWake : ℕ := 8 * 1024

def kAlreadyConnectedCode : Int := 65535

/-! ## The pool -/

/-- `SocketSlot`. -/
structure SocketSlot where
  used : Bool := false
  udp : Bool := false
  ssl : Bool := false
  holdsMode : Bool := false
  serial : ℕ := 0
deriving DecidableEq

/-- The members under `pool_mutex_`. -/
structure Pool where
  slots : Cid → SocketSlot := fun _ => {}
  nextSerial : ℕ := 1

namespace Pool

def setSlot (p : Pool) (id : Cid) (slot : SocketSlot) : Pool :=
  { p with slots := Function.update p.slots id slot }

/-- The first free slot that is not to be avoided. -/
def firstFree (p : Pool) (avoid : List Cid) : Option Cid :=
  (List.finRange kMaxConnections).find? fun id => !(p.slots id).used && !avoid.contains id

/-- The section of `AllocateConnectionId`. The serial is a `uint32_t`. -/
def allocate (p : Pool) (avoid : List Cid) : Option (Cid × Pool) :=
  (p.firstFree avoid).map fun id =>
    (id, { slots := Function.update p.slots id { used := true, serial := p.nextSerial }
           nextSerial := (p.nextSerial + 1) % 2 ^ 32 })

/-- The section of `RetireSlot`: the mode whose reservation the slot was holding. Nothing happens
to a slot that is not used. -/
def retire (p : Pool) (id : Cid) : Option (Option Bool × Pool) :=
  let slot := p.slots id
  if slot.used then some (if slot.holdsMode then some slot.ssl else none, p.setSlot id {}) else none

/-- `slots_[id].udp = udp`. -/
def setUdp (p : Pool) (id : Cid) (udp : Bool) : Pool := p.setSlot id { p.slots id with udp := udp }

/-- The reservation passes to the slot. -/
def keep (p : Pool) (id : Cid) (ssl : Bool) : Pool :=
  p.setSlot id { p.slots id with ssl := ssl, holdsMode := true }

/-- `OwnsSerial`. -/
def owns (p : Pool) (id : Cid) (serial : ℕ) : Bool :=
  serial != 0 && (p.slots id).used && (p.slots id).serial == serial

end Pool

/-! ## The mode of the module -/

/-- The members under `ssl_mutex_`. -/
structure Modes where
  sslSocketsOpen : ℕ := 0
  plainSocketsOpen : ℕ := 0
  sslSwitchInProgress : Bool := false
deriving DecidableEq

namespace Modes

/-- The counter of a mode. -/
def count (m : Modes) (ssl : Bool) : ℕ := if ssl then m.sslSocketsOpen else m.plainSocketsOpen

def setCount (m : Modes) (ssl : Bool) (n : ℕ) : Modes :=
  if ssl then { m with sslSocketsOpen := n } else { m with plainSocketsOpen := n }

/-- The section of `ReleaseSocketForMode`. -/
def release (m : Modes) (ssl : Bool) : Modes :=
  if 0 < m.count ssl then m.setCount ssl (m.count ssl - 1) else m

/-- The counter of a mode goes up by one. -/
def take (m : Modes) (ssl : Bool) : Modes := m.setCount ssl (m.count ssl + 1)

/-- The switch is under way, or is not. -/
def setSwitching (m : Modes) (b : Bool) : Modes := { m with sslSwitchInProgress := b }

@[simp] theorem count_setSwitching (m : Modes) (b mode : Bool) :
    (m.setSwitching b).count mode = m.count mode := rfl

@[simp] theorem setSwitching_inProgress (m : Modes) (b : Bool) :
    (m.setSwitching b).sslSwitchInProgress = b := rfl

theorem count_setCount (m : Modes) (ssl mode : Bool) (n : ℕ) :
    (m.setCount ssl n).count mode = if ssl = mode then n else m.count mode := by
  cases ssl <;> cases mode <;> rfl

theorem count_take (m : Modes) (ssl mode : Bool) :
    (m.take ssl).count mode = m.count mode + if ssl = mode then 1 else 0 := by
  rw [take, count_setCount]
  split
  · rename_i h
    rw [h]
  · rfl

/-- A counter does not fall below zero. -/
theorem count_release (m : Modes) (ssl mode : Bool) :
    (m.release ssl).count mode = m.count mode - if ssl = mode then 1 else 0 := by
  unfold release
  by_cases hssl : ssl = mode
  · subst hssl
    rw [if_pos rfl]
    split
    · rw [count_setCount, if_pos rfl]
    · omega
  · rw [if_neg hssl]
    split
    · rw [count_setCount, if_neg hssl]
      rfl
    · rfl

@[simp] theorem take_inProgress (m : Modes) (ssl : Bool) :
    (m.take ssl).sslSwitchInProgress = m.sslSwitchInProgress := by
  cases ssl <;> rfl

@[simp] theorem release_inProgress (m : Modes) (ssl : Bool) :
    (m.release ssl).sslSwitchInProgress = m.sslSwitchInProgress := by
  unfold release
  split
  · cases ssl <;> rfl
  · rfl

end Modes

/-! ## Rendezvous -/

inductive OpenOutcome where
  | kConnected | kFailed | kAlreadyConnected
deriving DecidableEq

/-- `OpenWait`. -/
structure OpenWait where
  id : Int := -1
  outcome : OpenOutcome := .kFailed
  done : Bool := false
deriving DecidableEq

/-- `SendWait`. -/
structure SendWait where
  pending : ℕ := 0
  failed : Bool := false
deriving DecidableEq

/-- The members under `event_mutex_`. -/
structure Events where
  shutOk : Bool := false
  closeOk : Bool := false
  closePendingId : Int := -1
deriving DecidableEq

/-- The members under `rx_mutex_`. -/
structure Receiver where
  peer : Cid → Bytes := fun _ => []
  pending : Cid → Bool := fun _ => false
  closeSerial : Cid → ℕ := fun _ => 0

namespace Receiver

/-- The part of `RetireSlot` under `rx_mutex_`. -/
def clear (r : Receiver) (id : Cid) : Receiver :=
  { peer := Function.update r.peer id []
    pending := Function.update r.pending id false
    closeSerial := Function.update r.closeSerial id 0 }

def setPending (r : Receiver) (id : Cid) : Receiver :=
  { r with pending := Function.update r.pending id true }

def setCloseSerial (r : Receiver) (id : Cid) (serial : ℕ) : Receiver :=
  { r with closeSerial := Function.update r.closeSerial id serial }

/-- The ids that a pass of the receive loop takes, and the flags cleared. -/
def collect (r : Receiver) : List Cid × Receiver :=
  ((List.finRange kMaxConnections).filter r.pending, { r with pending := fun _ => false })

end Receiver

/-! ## Reading a response -/

/-- The file-local `Trim`. -/
def trim (s : Bytes) : Bytes := trimBy isBlank s

/-- The loop of `ApplySslSwitch` over the lines that answer `AT+CIPSSL?`. -/
def reportsSwitch (enable : Bool) (lines : List Bytes) : Bool :=
  lines.any fun line =>
    match parseInt (trim (stripKeyPrefix line)) with
    | some value => (value == 1) == enable
    | none => false

/-- What the loop of `DrainOneCid` takes out of the lines. -/
structure Reply where
  returned : Int
  hex : Bytes
  source : Bytes
deriving DecidableEq

/-- A line that answers a read of `id`, and the line behind it. -/
def replyAt (id : Cid) (line : Bytes) (next : Bytes) : Option Reply :=
  match splitCsv (stripKeyPrefix line) with
  | which :: found :: length :: more =>
      if parseInt (trim which) = some 3 ∧ parseInt (trim found) = some id.int then
        (parseInt (trim length)).map fun returned =>
          { returned := returned, hex := next, source := (more[1]?.map trim).getD [] }
      else none
  | _ => none

/-- The loop of `DrainOneCid` over the lines. -/
def findReply (id : Cid) : List Bytes → Option Reply
  | [] => none
  | line :: rest => (replyAt id line (rest.headD [])).or (findReply id rest)

/-- The bytes that a response carries for `id`, and their sender. -/
def readPayload (id : Cid) (lines : List Bytes) : Option (Bytes × Bytes) :=
  match findReply id lines with
  | none => none
  | some reply =>
      if reply.returned ≤ 0 then none
      else if parseHex reply.hex = [] then none
      else some (parseHex reply.hex, reply.source)

/-- The address and the port of a sender, cut at the last colon. The port is a `uint16_t`. -/
def splitPeer (peer : Bytes) : Option (Bytes × ℕ) :=
  (rfindByte 58 peer).map fun colon =>
    (peer.take colon, match parseInt (peer.drop (colon + 1)) with
      | some port => (port % 2 ^ 16).toNat
      | none => 0)

/-- The line that `ReadSingleLineResponse` answers. -/
def singleLine : List Bytes → Result Bytes
  | [] => .error ⟨.kProtocolError, 0, "empty response"⟩
  | line :: _ => .ok line

end EspModemLink.Air780e
