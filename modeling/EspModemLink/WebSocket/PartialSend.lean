import EspModemLink.Library.Pieces
import EspModemLink.WebSocket.ClientSteps

/-!
# Frames that a transport cuts short

What the transports accept of the handshake requests and frames that the WebSocket client hands to
them. No caller of `Send` looks at how much it accepted, and `Ping` does not ask whether the
handshake request has gone out.
-/

namespace EspModemLink.WebSocket

open Bytes Http Pieces

/-! ## What the transports accept -/

def IsRequest (bytes : Bytes) : Prop :=
  ∃ url key headers, bytes = buildHandshakeRequest url key headers

def IsFrame (bytes : Bytes) : Prop :=
  ∃ opcode payload fin mask, encodeFrame opcode payload fin (some mask) = .ok bytes

/-- What transport `t` accepts in an event. -/
def pieceOf (t : ℕ) : Event → Option (Piece UInt8)
  | .sent t' bytes (.ok n) => if t' = t ∧ 0 < n then some ⟨bytes, n⟩ else none
  | _ => none

/-- What transport `t` has accepted. -/
def pieces (t : ℕ) (trace : List (Origin × Event)) : List (Piece UInt8) :=
  trace.filterMap fun e => pieceOf t e.2

@[simp] theorem pieces_concat (t : ℕ) (trace : List (Origin × Event)) (o : Origin) (e : Event) :
    pieces t (trace ++ [(o, e)]) = pieces t trace ++ (pieceOf t e).toList := by
  cases h : pieceOf t e <;> simp [pieces, h]

/-- A handshake request, and frames behind it. -/
def Upgrading (ps : List (Piece UInt8)) : Prop :=
  ∀ p rest, ps = p :: rest → IsRequest p.unit ∧ ∀ q ∈ rest, IsFrame q.unit

/-- A frame may follow what has begun with a handshake request. -/
theorem Upgrading.concat {ps : List (Piece UInt8)} (h : Upgrading ps) (hne : ps ≠ [])
    {p : Piece UInt8} (hp : IsFrame p.unit) : Upgrading (ps ++ [p]) := by
  cases ps with
  | nil => exact absurd rfl hne
  | cons first rest =>
      rintro first' rest' heq
      obtain ⟨rfl, rfl⟩ := List.cons.inj heq
      obtain ⟨hfirst, hrest⟩ := h first rest rfl
      refine ⟨hfirst, fun q hq => ?_⟩
      obtain hq | hq := List.mem_append.mp hq
      · exact hrest q hq
      · rw [List.mem_singleton.mp hq]
        exact hp

theorem upgrading_singleton {p : Piece UInt8} (h : IsRequest p.unit) : Upgrading [p] := by
  rintro first rest heq
  obtain ⟨rfl, rfl⟩ := List.cons.inj heq
  exact ⟨h, by simp⟩

/-- The stream of a connection holds the whole handshake request and whole frames behind it, and at
its end one of these at most that was cut short. -/
structure Intact (t : ℕ) (trace : List (Origin × Event)) : Prop where
  upgrading : Upgrading (pieces t trace)
  framed : Framed (pieces t trace)
  bytes : ∃ part : Bytes,
    stream (pieces t trace) = ((pieces t trace).dropLast.map Piece.unit).flatten ++ part ∧
      (part = [] ∨ ∃ p ∈ pieces t trace, part = p.bytes)

/-! ## Operations whose bytes were not accepted -/

/-- The operation whose bytes the step leaves unaccepted, or accepted in part. -/
def unaccepted (cfg : Config) : Label → Option (Sections.Operation Task)
  | .run i (.answer result) =>
      match cfg.threads[i]?, result with
      | some (⟨_, .sending _ bytes _⟩ :: ks), .ok n =>
          if n = bytes.length then none else some ⟨i, ks⟩
      | some (⟨_, .sending ..⟩ :: ks), .error _ => some ⟨i, ks⟩
      | _, _ => none
  | _ => none

/-- A `Send` that succeeds, and how many bytes it accepts. -/
structure Acceptance where
  transport : ℕ
  bytes : Bytes
  caller : SendCaller
  accepted : ℕ

/-- The `Send` that a step answers without an error. -/
def answered (cfg : Config) : Label → Option Acceptance
  | .run i (.answer (.ok n)) =>
      match cfg.threads[i]? with
      | some (⟨_, .sending t bytes caller⟩ :: _) => some ⟨t, bytes, caller, n⟩
      | _ => none
  | _ => none

/-- Bytes that are a frame and no handshake request. -/
def SendCaller.sendsFrame : SendCaller → Bool
  | .establish _ => false
  | .sendFrame _ | .sendCloseFrame _ => true

/-- The transport that a step hands a frame to. -/
def handsFrame (cfg : Config) : Label → Option ℕ
  | .run i .go =>
      match cfg.threads[i]? with
      | some (⟨_, .transportSend t _ caller⟩ :: _) => if caller.sendsFrame then some t else none
      | _ => none
  | _ => none

/-- The operations under way whose bytes were not wholly accepted, and the transports whose
handshake request a `Send` succeeded with. -/
structure Sends where
  failing : List (Sections.Operation Task) := []
  requested : List ℕ := []

/-- The transport whose handshake request a section has sent without an error. -/
def requestAt (task : Task) (c : Choice) : Option ℕ :=
  match task.sect, c with
  | .sending t _ caller, .answer (.ok _) => if caller.sendsFrame then none else some t
  | _, _ => none

/-- The transport whose handshake request a step has sent. -/
def requestOf (cfg : Config) : Label → Option ℕ
  | .start _ => none
  | .run i c =>
      match cfg.threads[i]? with
      | some (task :: _) => requestAt task c
      | _ => none

/-- The client with its sends beside it. -/
def sendingStep [Target] : Runs.Step (Sends × Config) Label :=
  Runs.monitored program.step fun sends cfg l cfg' =>
    { failing := (sends.failing ++ (unaccepted cfg l).toList).filter fun op => op.isOpen cfg'
      requested := (requestOf cfg l).toList ++ sends.requested }

/-- An operation whose bytes were not accepted is about to return without an error. -/
def ReportsSuccess (s : Sends × Config) : Prop :=
  ∃ op ∈ s.1.failing, ∃ o x,
    s.2.threads[op.thread]? = some (⟨o, .returned (.ok x)⟩ :: op.beneath)

/-- A `Send` accepts no more than it is given. -/
def AcceptsAtMost (cfg : Config) (l : Label) : Prop :=
  ∀ r ∈ answered cfg l, r.accepted ≤ r.bytes.length

instance (cfg : Config) (l : Label) : Decidable (AcceptsAtMost cfg l) :=
  inferInstanceAs (Decidable (∀ r ∈ answered cfg l, _))

/-- A `Send` that succeeds accepts everything that it is given. -/
def AcceptsWhole (cfg : Config) (l : Label) : Prop :=
  ∀ r ∈ answered cfg l, r.accepted = r.bytes.length

instance (cfg : Config) (l : Label) : Decidable (AcceptsWhole cfg l) :=
  inferInstanceAs (Decidable (∀ r ∈ answered cfg l, _))

/-- A frame is handed to a transport only behind the handshake request that opens its connection. -/
def BehindRequest (s : Sends × Config) (l : Label) : Prop := ∀ t ∈ handsFrame s.2 l, t ∈ s.1.requested

instance (s : Sends × Config) (l : Label) : Decidable (BehindRequest s l) :=
  inferInstanceAs (Decidable (∀ t ∈ handsFrame s.2 l, _))

/-! ## What a section does about sending -/

/-- A caller that reports the result of an attempt to a caller of its own. -/
def Caller.reports : Caller → Bool
  | .connect => true
  | .maintain _ => false

def FrameCaller.reports : FrameCaller → Bool
  | .sendFragment => true
  | .handler | .sendPing => false

def SendCaller.reports : SendCaller → Bool
  | .establish caller => caller.reports
  | .sendFrame caller => caller.reports
  | .sendCloseFrame _ => false

/-- A section that does not lead to a return without an error. -/
def Sect.fails : Sect → Bool
  | .call _ => false
  | .establish caller _ | .create caller .. | .transportConnect caller .. | .store caller ..
  | .await caller | .established caller (.ok ()) => !caller.reports
  | .sendFrame _ _ _ caller | .frameSent caller (.ok ()) => !caller.reports
  | .transportSend _ _ caller | .sending _ _ caller => !caller.reports
  | .returned (.ok _) => false
  | _ => true

/-- A section of `Establish` that has a transport whose handshake request is still to be accepted. -/
def requesting (t : ℕ) (task : Task) : ℕ :=
  match task.sect with
  | .transportConnect _ t' .. | .store _ t' _ | .transportSend t' _ (.establish _)
  | .sending t' _ (.establish _) => if t' = t then 1 else 0
  | _ => 0

/-- What a section hands over is a handshake request or a frame, as its caller has it. -/
def Sect.Sound : Sect → Prop
  | .store _ _ request => IsRequest request
  | .transportSend _ bytes caller | .sending _ bytes caller =>
      if caller.sendsFrame then IsFrame bytes else IsRequest bytes
  | _ => True

/-- A section that has no transport of its own. -/
def Sect.Landed : Sect → Prop
  | .transportConnect .. | .store .. | .transportSend .. | .sending .. => False
  | _ => True

/-- What transport `t` accepts in a section. -/
def pieceAt (t : ℕ) (task : Task) (c : Choice) : Option (Piece UInt8) :=
  match task.sect, c with
  | .sending t' bytes _, .answer (.ok n) => if t' = t ∧ 0 < n then some ⟨bytes, n⟩ else none
  | _, _ => none

variable {i : ℕ} {task : Task} {c : Choice} {w w' : Conn} {ks : List Task}

/-- What a section does about sending: to the requests that are still to be accepted, to the
sections it leaves, and to what the transports have accepted. -/
structure Wires (task : Task) (c : Choice) (w w' : Conn) (ks : List Task) : Prop where
  transports : w.transports ≤ w'.transports
  requesting : ∀ t, Sections.weight (requesting t) ks ≤
    requesting t task + if w.transports ≤ t ∧ t < w'.transports then 1 else 0
  sendings : ∀ k ∈ ks, ∀ t bytes caller, k.sect = .sending t bytes caller →
    task.sect = .sending t bytes caller ∨ task.sect = .transportSend t bytes caller ∧ c = .go
  sound : task.sect.Sound → ∀ k ∈ ks, k.sect.Sound
  trace : ∀ t, pieces t w'.trace = pieces t w.trace ++ (pieceAt t task c).toList
  fails : task.sect.fails = true → ∀ last ∈ ks.getLast?, last.sect.fails = true

theorem Sect.Landed.sound {s : Sect} (h : s.Landed) : s.Sound := by
  cases s <;> trivial

theorem requesting_of_landed {t : ℕ} (h : task.sect.Landed) : requesting t task = 0 := by
  obtain ⟨o, s⟩ := task
  cases s <;> first | rfl | exact h.elim

/-- A section that has no transport of its own and does not lead to a return without an error. -/
def Sect.quits : Sect → Bool
  | .transportConnect .. | .store .. | .transportSend .. | .sending .. => false
  | s => s.fails

theorem landed_of_quits {s : Sect} (h : s.quits = true) : s.Landed ∧ s.fails = true := by
  cases s with
  | transportConnect | store | transportSend | sending => cases h
  | _ => exact ⟨trivial, h⟩

theorem landed_all {sects : List Sect} (h : sects.all Sect.quits = true) :
    ∀ s ∈ sects, s.Landed ∧ s.fails = true :=
  fun s hs => landed_of_quits (List.all_eq_true.mp h s hs)

/-- Neither the number of transports nor what they have accepted changes. -/
structure Silent (w w' : Conn) : Prop where
  transports : w'.transports = w.transports
  pieces : ∀ t, pieces t w'.trace = pieces t w.trace

theorem Silent.of_eq (htransports : w'.transports = w.transports) (htrace : w'.trace = w.trace) :
    Silent w w' := ⟨htransports, fun _ => by rw [htrace]⟩

theorem Silent.log (h : Silent w w') (o : Origin) {e : Event} (he : ∀ t, pieceOf t e = none) :
    Silent w (w'.log o e) := by
  refine ⟨h.transports, fun t => ?_⟩
  rw [Conn.log_trace, pieces_concat, he t, h.pieces t]
  exact List.append_nil _

/-- A silent section that leaves nothing that has a transport of its own. -/
theorem Wires.landed (h : Silent w w') (hpiece : ∀ t, pieceAt t task c = none)
    (hks : ∀ k ∈ ks, k.sect.Landed ∧ (task.sect.fails = true → k.sect.fails = true)) :
    Wires task c w w' ks := by
  refine ⟨Nat.le_of_eq h.transports.symm, ?_, ?_, ?_, ?_, ?_⟩
  · intro t
    rw [Sections.weight_eq_zero fun k hk => requesting_of_landed (hks k hk).1]
    omega
  · intro k hk t bytes caller hsect
    have hlanded := (hks k hk).1
    rw [hsect] at hlanded
    exact hlanded.elim
  · intro _ k hk
    exact (hks k hk).1.sound
  · intro t
    rw [hpiece t, h.pieces t]
    exact (List.append_nil _).symm
  · intro hfails last hlast
    exact (hks last (List.mem_of_getLast? hlast)).2 hfails

/-- Of these sections none has a transport of its own, and none leads to a return without an error
unless `k` does. -/
def Sect.Lands (k : Sect) (sects : List Sect) : Prop :=
  ∀ s ∈ sects, s.Landed ∧ (k.fails = true → s.fails = true)

@[simp] theorem lands_nil {k : Sect} : k.Lands [] := List.forall_mem_nil _

@[simp] theorem lands_cons {k s : Sect} {sects : List Sect} :
    k.Lands (s :: sects) ↔ (s.Landed ∧ (k.fails = true → s.fails = true)) ∧ k.Lands sects :=
  List.forall_mem_cons

/-- The same for a section that leaves its own. -/
theorem Wires.of_push {v : Conn} {sects : List Sect}
    (h : some (v, task.origin.tasks sects) = some (w', ks)) (hsilent : Silent w v)
    (hpiece : ∀ t, pieceAt t task c = none) (hsects : task.sect.Lands sects) :
    Wires task c w w' ks := by
  obtain ⟨rfl, rfl⟩ := Prod.mk.inj (Option.some.inj h)
  apply Wires.landed hsilent hpiece
  intro k hk
  obtain ⟨s, hs, rfl⟩ := List.mem_map.mp hk
  exact hsects s hs

/-- The same for a section that leaves no transport and no success to return. -/
theorem Wires.of_quits {v : Conn} {sects : List Sect}
    (h : some (v, task.origin.tasks sects) = some (w', ks)) (hsilent : Silent w v)
    (hpiece : ∀ t, pieceAt t task c = none) (hsects : sects.all Sect.quits = true) :
    Wires task c w w' ks := by
  apply Wires.of_push h hsilent hpiece
  intro s hs
  obtain ⟨hlanded, hfails⟩ := landed_all hsects s hs
  exact ⟨hlanded, fun _ => hfails⟩

/-- The same for a section that reads the clock. -/
theorem Wires.of_clock {ms : Int} {f : Conn → Conn} {sects : Conn → List Sect}
    (h : ((w.readClock ms).bind fun w => some (f w, task.origin.tasks (sects w))) = some (w', ks))
    (hf : ∀ w, Silent w (f w)) (hpiece : ∀ t, pieceAt t task c = none)
    (hsects : ∀ w, task.sect.Lands (sects w)) :
    Wires task c w w' ks := by
  obtain ⟨v, hclock, h⟩ := Option.bind_eq_some_iff.mp h
  simp only [Conn.readClock] at hclock
  split at hclock
  · obtain rfl := Option.some.inj hclock
    have hv := hf { w with clock := ms }
    exact .of_push h ⟨hv.transports, hv.pieces⟩ hpiece (hsects _)
  · cases hclock

/-- A delivery comes in front of the section that is under way. -/
theorem Wires.of_deliverWithin (h : w.deliverWithin task c = some (w', ks)) :
    Wires task c w w' ks := by
  simp only [Conn.deliverWithin, Option.map_eq_some_iff, Prod.mk.injEq] at h
  obtain ⟨tasks, hdelivery, rfl, rfl⟩ := h
  have hpiece : ∀ t, pieceAt t task c = none := by
    intro t
    unfold pieceAt
    cases c <;> simp [Conn.delivery] at hdelivery <;> split <;> first | rfl | contradiction
  have hlanded : ∀ k ∈ tasks, k.sect.Landed := by
    cases c <;> simp [Conn.delivery] at hdelivery <;> subst hdelivery <;> simp [Sect.Landed]
  refine ⟨Nat.le_refl _, ?_, ?_, ?_, ?_, ?_⟩
  · intro t
    rw [Sections.weight_append, Sections.weight_eq_zero fun k hk => requesting_of_landed (hlanded k hk)]
    simp
  · intro k hk t bytes caller hsect
    obtain hk | hk := List.mem_append.mp hk
    · have := hlanded k hk
      rw [hsect] at this
      exact this.elim
    · rw [List.mem_singleton.mp hk] at hsect
      exact .inl hsect
  · intro hsound k hk
    obtain hk | hk := List.mem_append.mp hk
    · exact (hlanded k hk).sound
    · rw [List.mem_singleton.mp hk]
      exact hsound
  · intro t
    rw [hpiece t]
    exact (List.append_nil _).symm
  · intro hfails last hlast
    obtain rfl : task = last := by simpa using hlast
    exact hfails

/-! ### The sections that send -/

/-- The factory makes a new transport, which no request is under way for yet. -/
theorem wires_create {o : Origin} {caller : Caller} {url : ParsedUrl} {key : Bytes}
    {config : TlsConfig} {headers : Fields} {result : Result ℕ}
    (h : some ((w.create o caller url key config headers result).1,
      o.tasks (w.create o caller url key config headers result).2) = some (w', ks)) :
    Wires ⟨o, .create caller url key config headers⟩ (.answer result) w w' ks := by
  cases result with
  | error e =>
      exact .of_quits h (.of_eq rfl rfl) (fun _ => rfl) rfl
  | ok n =>
      obtain ⟨rfl, rfl⟩ := Prod.mk.inj (Option.some.inj h)
      refine ⟨Nat.le_succ _, ?_, ?_, ?_, ?_, ?_⟩
      · intro t
        by_cases ht : w.transports = t
        · simp [Conn.create, Conn.log, Origin.tasks, requesting, ← ht]
        · simp [Conn.create, Origin.tasks, requesting, ht]
      · simp [Conn.create, Origin.tasks]
      · simp [Conn.create, Origin.tasks, Sect.Sound]
      · intro t
        rw [Conn.create, Conn.log_trace, pieces_concat, Conn.log_trace, pieces_concat]
        simp [pieceOf, pieceAt]
      · simp [Conn.create, Origin.tasks, Sect.fails]

/-- A section of `Establish` that hands its transport on to the next one. -/
theorem wires_handsOn {o : Origin} {s : Sect} (s' : Sect) (h : Silent w w')
    (hrequesting : ∀ t, requesting t ⟨o, s'⟩ = requesting t ⟨o, s⟩)
    (hsending : ∀ t bytes caller, s' ≠ .sending t bytes caller)
    (hsound : s.Sound → s'.Sound) (hfails : s'.fails = s.fails)
    (hpiece : ∀ t, pieceAt t ⟨o, s⟩ c = none) : Wires ⟨o, s⟩ c w w' (o.tasks [s']) := by
  refine ⟨Nat.le_of_eq h.transports.symm, ?_, ?_, ?_, ?_, ?_⟩
  · intro t
    simp only [Origin.tasks, List.map_cons, List.map_nil, Sections.weight_cons,
      Sections.weight_nil, hrequesting t]
    omega
  · intro k hk t bytes caller hsect
    rw [List.mem_singleton.mp hk] at hsect
    exact absurd hsect (hsending t bytes caller)
  · intro hs k hk
    rw [List.mem_singleton.mp hk]
    exact hsound hs
  · intro t
    rw [hpiece t, h.pieces t]
    exact (List.append_nil _).symm
  · intro hs last hlast
    obtain rfl : _ = last := Option.some.inj hlast
    exact hfails.trans hs

theorem wires_transportConnect {o : Origin} {caller : Caller} {t : ℕ} {url : ParsedUrl}
    {key : Bytes} {headers : Fields} {n : ℕ} :
    Wires ⟨o, .transportConnect caller t url key headers⟩ (.answer (.ok n)) w w
      (o.tasks [.store caller t (buildHandshakeRequest url key headers)]) := by
  exact wires_handsOn _ (.of_eq rfl rfl) (fun _ => rfl) (by simp)
    (fun _ => ⟨url, key, headers, rfl⟩) rfl (fun _ => rfl)

theorem wires_store {o : Origin} {caller : Caller} {t : ℕ} {request : Bytes} :
    Wires ⟨o, .store caller t request⟩ .go w (w.store o caller t request).1
      (o.tasks (w.store o caller t request).2) := by
  have hsilent : Silent w (w.store o caller t request).1 := by
    apply Silent.log _ o (fun _ => rfl)
    exact .of_eq rfl rfl
  exact wires_handsOn (.transportSend t request (.establish caller)) hsilent (fun _ => rfl)
    (by simp) id rfl (fun _ => rfl)

/-- A frame that is encoded goes to the transport that is held. -/
theorem wires_frame {o : Origin} {s : Sect} {v : Conn} {t : ℕ} {bytes : Bytes}
    {caller : SendCaller} (h : Silent w v) (hframe : IsFrame bytes)
    (hcaller : caller.sendsFrame = true)
    (hfails : s.fails = true → caller.reports = false)
    (hpiece : ∀ t, pieceAt t ⟨o, s⟩ c = none) :
    Wires ⟨o, s⟩ c w v (o.tasks [.transportSend t bytes caller]) := by
  refine ⟨Nat.le_of_eq h.transports.symm, ?_, ?_, ?_, ?_, ?_⟩
  · intro t'
    cases caller with
    | establish => cases hcaller
    | sendFrame | sendCloseFrame => simp [Origin.tasks, requesting]
  · simp [Origin.tasks]
  · intro _ k hk
    rw [List.mem_singleton.mp hk]
    simp only [Sect.Sound, hcaller]
    exact hframe
  · intro t'
    rw [hpiece t', h.pieces t']
    exact (List.append_nil _).symm
  · intro hs last hlast
    obtain rfl : _ = last := Option.some.inj hlast
    simp [Sect.fails, hfails hs]

theorem wires_sendFrame {o : Origin} {opcode : WsOpcode} {payload : Bytes} {fin : Bool}
    {caller : FrameCaller} {mask : UInt32}
    (h : some ((w.sendFrame opcode payload fin caller mask).1,
      o.tasks (w.sendFrame opcode payload fin caller mask).2) = some (w', ks)) :
    Wires ⟨o, .sendFrame opcode payload fin caller⟩ (.random [mask]) w w' ks := by
  simp only [Conn.sendFrame] at h
  split at h
  · exact .of_quits h (.of_eq rfl rfl) (fun _ => rfl) rfl
  · rename_i encoded hencoded
    split at h
    · exact .of_quits h (.of_eq rfl rfl) (fun _ => rfl) rfl
    · obtain ⟨rfl, rfl⟩ := Prod.mk.inj (Option.some.inj h)
      apply wires_frame (.of_eq rfl rfl) ⟨opcode, payload, fin, mask, hencoded⟩ rfl _ (fun _ => rfl)
      intro hfails
      simpa [Sect.fails, SendCaller.reports] using hfails

theorem wires_sendCloseFrame {o : Origin} {code : ℕ} {reason : Bytes} {caller : CloseCaller}
    {mask : UInt32}
    (h : some ((w.sendCloseFrame code reason caller mask).1,
      o.tasks (w.sendCloseFrame code reason caller mask).2) = some (w', ks)) :
    Wires ⟨o, .sendCloseFrame code reason caller⟩ (.random [mask]) w w' ks := by
  simp only [Conn.sendCloseFrame] at h
  split at h
  · exact .of_push h (.of_eq rfl rfl) (fun _ => rfl) (by simp)
  · split at h
    · exact .of_push h (.of_eq rfl rfl) (fun _ => rfl) (by simp)
    · split at h
      · exact .of_quits h (.of_eq rfl rfl) (fun _ => rfl) rfl
      · rename_i encoded hencoded
        obtain ⟨rfl, rfl⟩ := Prod.mk.inj (Option.some.inj h)
        exact wires_frame (.of_eq rfl rfl) ⟨_, _, _, mask, hencoded⟩ rfl (fun _ => rfl)
          (fun _ => rfl)

theorem wires_transportSend {o : Origin} {t : ℕ} {bytes : Bytes} {caller : SendCaller} :
    Wires ⟨o, .transportSend t bytes caller⟩ .go w (w.log o (.sending t bytes))
      (o.tasks [.sending t bytes caller]) := by
  refine ⟨Nat.le_refl _, ?_, ?_, ?_, ?_, ?_⟩
  · intro t'
    cases caller <;> simp [Origin.tasks, requesting]
  · intro k hk t' bytes' caller' hsect
    rw [List.mem_singleton.mp hk] at hsect
    obtain ⟨rfl, rfl, rfl⟩ := Sect.sending.inj hsect
    exact .inr ⟨rfl, rfl⟩
  · intro hsound k hk
    rw [List.mem_singleton.mp hk]
    exact hsound
  · intro t'
    simp [pieceOf, pieceAt]
  · simp [Origin.tasks, Sect.fails]

/-- The transport answers: what is left has no transport of its own. -/
theorem lands_sent (w : Conn) (t : ℕ) (bytes : Bytes) (result : Result ℕ) (caller : SendCaller) :
    (w.sent result caller).1 = w ∧
      (Sect.sending t bytes caller).Lands (w.sent result caller).2 := by
  cases caller with
  | establish caller =>
      cases result <;> simp [Conn.sent, Sect.Landed, Sect.fails, SendCaller.reports]
  | sendFrame caller =>
      cases result <;> simp [Conn.sent, Sect.Landed, Sect.fails, SendCaller.reports]
  | sendCloseFrame caller => cases result <;> simp [Conn.sent, Sect.Landed, Sect.fails]

theorem wires_sending {o : Origin} {t : ℕ} {bytes : Bytes} {caller : SendCaller}
    {result : Result ℕ} :
    Wires ⟨o, .sending t bytes caller⟩ (.answer result) w
      ((w.log o (.sent t bytes result)).sent result caller).1
      (o.tasks ((w.log o (.sent t bytes result)).sent result caller).2) := by
  obtain ⟨hsent, hsects⟩ := lands_sent (w.log o (.sent t bytes result)) t bytes result caller
  have hks : ∀ k ∈ o.tasks ((w.log o (.sent t bytes result)).sent result caller).2,
      k.sect.Landed ∧ ((Sect.sending t bytes caller).fails = true → k.sect.fails = true) := by
    intro k hk
    obtain ⟨s, hs, rfl⟩ := List.mem_map.mp hk
    exact hsects s hs
  rw [hsent]
  refine ⟨Nat.le_refl _, ?_, ?_, ?_, ?_, ?_⟩
  · intro t'
    rw [Sections.weight_eq_zero fun k hk => requesting_of_landed (hks k hk).1]
    omega
  · intro k hk t' bytes' caller' hsect
    have hlanded := (hks k hk).1
    rw [hsect] at hlanded
    exact hlanded.elim
  · intro _ k hk
    exact (hks k hk).1.sound
  · intro t'
    rw [Conn.log_trace, pieces_concat]
    cases result <;> rfl
  · intro hfails last hlast
    exact (hks last (List.mem_of_getLast? hlast)).2 hfails

/-! ### The other sections -/

theorem landed_call (cl : Call) :
    Silent w (w.call cl).1 ∧ ∀ s ∈ (w.call cl).2, s.Landed := by
  cases cl with
  | connect url =>
      simp only [Conn.call, Conn.connect]
      split <;> exact ⟨.of_eq rfl rfl, List.forall_mem_singleton.mpr trivial⟩
  | sendFragment data binary fin =>
      simp only [Conn.call, Conn.sendFragment]
      split <;> exact ⟨.of_eq rfl rfl, List.forall_mem_singleton.mpr trivial⟩
  | ping payload =>
      simp only [Conn.call, Conn.ping]
      split <;> exact ⟨.of_eq rfl rfl, List.forall_mem_singleton.mpr trivial⟩
  | setHeader | setTlsConfig | setHeartbeat | setAutoReconnect | close =>
      exact ⟨.of_eq rfl rfl, fun s hs => (landed_all rfl s hs).1⟩

theorem landed_fail (e : NetworkError) (code : ℕ) (reason : Bytes) :
    ∀ s ∈ Conn.fail e code reason, s.Landed ∧ s.fails = true := landed_all rfl

theorem landed_handleDataFrame (frame : WsFrame) :
    Silent w (w.handleDataFrame frame).1 ∧
      ∀ s ∈ (w.handleDataFrame frame).2, s.Landed ∧ s.fails = true := by
  simp only [Conn.handleDataFrame]
  split
  · exact ⟨.of_eq rfl rfl, landed_fail _ _ _⟩
  · split
    · exact ⟨.of_eq rfl rfl, landed_fail _ _ _⟩
    · split
      · split
        · exact ⟨.of_eq rfl rfl, landed_fail _ _ _⟩
        · split <;> exact ⟨.of_eq rfl rfl, landed_all rfl⟩
      · split <;> exact ⟨.of_eq rfl rfl, landed_all rfl⟩

/-- A handler answers with frames at most, and returns nothing. -/
theorem landed_handleFrame (frame : WsFrame) :
    Silent w (w.handleFrame frame).1 ∧
      ∀ s ∈ (w.handleFrame frame).2, s.Landed ∧ s.fails = true := by
  cases hopcode : frame.opcode with
  | kPing | kPong =>
      simp only [Conn.handleFrame, hopcode]
      exact ⟨.of_eq rfl rfl, landed_all rfl⟩
  | kClose =>
      simp only [Conn.handleFrame, hopcode, Conn.handleCloseFrame]
      split
      · exact ⟨.of_eq rfl rfl, landed_all rfl⟩
      · exact ⟨.of_eq rfl rfl, landed_fail _ _ _⟩
      · exact ⟨.of_eq rfl rfl, landed_all rfl⟩
  | kContinuation | kText | kBinary =>
      simp only [Conn.handleFrame, hopcode]
      exact landed_handleDataFrame frame

theorem wires_drainFrames {o : Origin} :
    Wires ⟨o, .drainFrames⟩ .go w (w.drainFrames o).1 (w.drainFrames o).2 := by
  simp only [Conn.drainFrames]
  split
  · exact .landed (.of_eq rfl rfl) (fun _ => rfl) (by simp)
  · split
    · exact .landed (.of_eq rfl rfl) (fun _ => rfl) (by simp)
    · apply Wires.landed _ (fun _ => rfl)
      · intro k hk
        obtain ⟨s, hs, rfl⟩ := List.mem_map.mp hk
        exact ⟨(landed_fail _ _ _ s hs).1, fun _ => (landed_fail _ _ _ s hs).2⟩
      · exact .log (.of_eq rfl rfl) _ (fun _ => rfl)
    · apply Wires.landed _ (fun _ => rfl)
      · exact List.forall_mem_cons.mpr
          ⟨⟨trivial, fun _ => rfl⟩, List.forall_mem_singleton.mpr ⟨trivial, fun _ => rfl⟩⟩
      · apply Silent.log _ _ (fun _ => rfl)
        exact .of_eq rfl rfl

theorem silent_queueInbound [Target] (o : Origin) (data : Bytes) :
    Silent w (w.queueInbound o data).1 ∧
      ∀ s ∈ (w.queueInbound o data).2, s.Landed ∧ s.fails = true := by
  simp only [Conn.queueInbound]
  split
  · exact ⟨.of_eq rfl rfl, landed_fail _ _ _⟩
  · refine ⟨?_, landed_all rfl⟩
    split
    · exact .of_eq rfl rfl
    · simp only [Conn.consumeHandshake]
      split
      · exact .of_eq rfl rfl
      · apply Silent.log _ o (fun _ => rfl)
        exact .of_eq rfl rfl

/-- A call out of a callback comes in front of the callback. -/
theorem wires_callWithin {o : Origin} {cl : Call}
    (h : some (w, [⟨.app, .call cl⟩, ⟨o, .inCallback⟩]) = some (w', ks)) :
    Wires ⟨o, .inCallback⟩ (.call cl) w w' ks := by
  obtain ⟨rfl, rfl⟩ := Prod.mk.inj (Option.some.inj h)
  refine ⟨Nat.le_refl _, ?_, ?_, ?_, ?_, ?_⟩
  · intro t
    simp [requesting]
  · simp
  · simp [Sect.Sound]
  · intro t
    exact (List.append_nil _).symm
  · simp [Sect.fails]

variable [Target]

/-- What every section does about sending. -/
theorem exec_wires (h : Conn.exec i task c w = some (w', ks)) : Wires task c w w' ks := by
  obtain ⟨o, s⟩ := task
  unfold Conn.exec at h
  dsimp only at h
  split at h
  -- calls and `Establish`
  · obtain ⟨hsilent, hsects⟩ := landed_call (w := w) _
    exact .of_push h hsilent (fun _ => rfl) fun s hs => ⟨hsects s hs, by simp [Sect.fails]⟩
  · simp only [Conn.establish] at h
    split at h
    · exact .of_quits h (.of_eq rfl rfl) (fun _ => rfl) rfl
    · split at h
      · exact .of_quits h (.of_eq rfl rfl) (fun _ => rfl) rfl
      · refine .of_push h ?_ (fun _ => rfl) (by simp [Sect.Landed, Sect.fails])
        apply Silent.log _ o (fun _ => rfl)
        exact .of_eq rfl rfl
  · exact wires_create h
  · exact .of_quits h (.of_eq rfl rfl) (fun _ => rfl) rfl
  · split at h
    · exact .of_quits h (.of_eq rfl rfl) (fun _ => rfl) rfl
    · obtain ⟨rfl, rfl⟩ := Prod.mk.inj (Option.some.inj h)
      exact wires_transportConnect
  · exact .of_deliverWithin h
  · obtain ⟨rfl, rfl⟩ := Prod.mk.inj (Option.some.inj h)
    exact wires_store
  · split at h
    · refine .of_clock h ?_ (fun _ => rfl) ?_ <;> intro v <;> simp only [Conn.wake] <;> split
      · exact .of_eq rfl rfl
      · exact .of_eq rfl rfl
      · simp [Sect.Landed, Sect.fails]
      · simp [Sect.Landed, Sect.fails]
    · cases h
  · split at h
    · cases h
    · exact .of_quits h (.of_eq rfl rfl) (fun _ => rfl) rfl
  · rename_i caller result
    cases caller <;> cases result <;> exact .of_push h (.of_eq rfl rfl) (fun _ => rfl)
      (by simp [Conn.established, Sect.Landed, Sect.fails, Caller.reports])
  -- `Close` and sending
  · simp only [Conn.closing] at h
    split at h <;>
      exact .of_quits h (.of_eq rfl rfl) (fun _ => rfl) rfl
  · split at h
    · exact .of_quits h (.of_eq rfl rfl) (fun _ => rfl) rfl
    · cases h
  · exact .of_quits h (.of_eq rfl rfl) (fun _ => rfl) rfl
  · exact wires_sendFrame h
  · rename_i caller result
    cases caller <;> cases result <;> exact .of_push h (.of_eq rfl rfl) (fun _ => rfl)
      (by simp [Conn.frameSent, Sect.Landed, Sect.fails, FrameCaller.reports])
  · exact wires_sendCloseFrame h
  · rename_i caller
    cases caller <;> exact .of_quits h (.of_eq rfl rfl) (fun _ => rfl) rfl
  · obtain ⟨rfl, rfl⟩ := Prod.mk.inj (Option.some.inj h)
    exact wires_transportSend
  · obtain ⟨rfl, rfl⟩ := Prod.mk.inj (Option.some.inj h)
    exact wires_sending
  · exact .of_deliverWithin h
  · exact .of_clock h (fun _ => .of_eq rfl rfl) (fun _ => rfl) (by simp)
  · exact .of_clock h (fun _ => .of_eq rfl rfl) (fun _ => rfl) (by simp [Sect.Landed, Sect.fails])
  · exact .of_quits h (.of_eq rfl rfl) (fun _ => rfl) rfl
  -- receiving
  · obtain ⟨hsilent, hsects⟩ := silent_queueInbound (w := w) o _
    exact .of_push h hsilent (fun _ => rfl) fun s hs => ⟨(hsects s hs).1, fun _ => (hsects s hs).2⟩
  · split at h <;>
      exact .of_quits h (.of_eq rfl rfl) (fun _ => rfl) rfl
  · have hwires := wires_drainFrames (w := w) (o := o)
    rw [Option.some.inj h] at hwires
    exact hwires
  · exact .of_quits h (.of_eq rfl rfl) (fun _ => rfl) rfl
  · obtain ⟨hsilent, hsects⟩ := landed_handleFrame (w := w) _
    exact .of_push h hsilent (fun _ => rfl) fun s hs => ⟨(hsects s hs).1, fun _ => (hsects s hs).2⟩
  · refine .of_quits h (.of_eq rfl rfl) (fun _ => rfl) ?_
    simp only [Conn.answerClose]
    split <;> rfl
  -- ending
  · refine .of_quits h ?_ (fun _ => rfl) ?_ <;> simp only [Conn.teardown]
    · apply Silent.log _ _ (fun _ => rfl)
      exact .of_eq rfl rfl
    · cases w.client.transport <;> split <;> rfl
  · exact .of_quits h (.log (.of_eq rfl rfl) _ (fun _ => rfl)) (fun _ => rfl) rfl
  · exact .of_quits h (.of_eq rfl rfl) (fun _ => rfl) rfl
  · exact .of_deliverWithin h
  · exact .of_quits h (.of_eq rfl rfl) (fun _ => rfl) rfl
  · refine .of_quits h (.of_eq rfl rfl) (fun _ => rfl) ?_
    split <;> rfl
  -- the maintenance task
  · simp only [Conn.joinMaintain] at h
    split at h <;>
      exact .of_quits h (.of_eq rfl rfl) (fun _ => rfl) rfl
  · simp only [Conn.joining] at h
    split at h
    · exact .of_quits h (.of_eq rfl rfl) (fun _ => rfl) rfl
    · cases h
  · exact .of_quits h (.of_eq rfl rfl) (fun _ => rfl) rfl
  · simp only [Conn.createTask] at h
    split at h
    · exact .of_quits h (.of_eq rfl rfl) (fun _ => rfl) rfl
    · cases h
  · exact .of_quits h (.of_eq rfl rfl) (fun _ => rfl) rfl
  · refine .of_quits h (.of_eq rfl rfl) (fun _ => rfl) ?_
    split <;> rfl
  · refine .of_quits h (.of_eq rfl rfl) (fun _ => rfl) ?_
    split <;> rfl
  · simp only [Conn.maintainRead] at h
    split at h
    · exact .of_quits h (.of_eq rfl rfl) (fun _ => rfl) rfl
    · split at h
      · exact .of_quits h (.of_eq rfl rfl) (fun _ => rfl) rfl
      · split at h <;>
          exact .of_quits h (.of_eq rfl rfl) (fun _ => rfl) rfl
  · refine .of_quits h (.of_eq rfl rfl) (fun _ => rfl) ?_
    simp only [Conn.maintainOpen]
    split <;> rfl
  · exact .of_clock h (fun _ => .of_eq rfl rfl) (fun _ => rfl) (by simp [Sect.Landed, Sect.fails])
  · simp only [Conn.heartbeatPing] at h
    split at h
    · exact .of_quits h (.of_eq rfl rfl) (fun _ => rfl) rfl
    · split at h <;>
        exact .of_quits h (.of_eq rfl rfl) (fun _ => rfl) rfl
  · simp only [Conn.heartbeatIdle] at h
    split at h <;> exact .of_quits h (.of_eq rfl rfl) (fun _ => rfl) rfl
  · simp only [Conn.giveUp] at h
    split at h <;>
      exact .of_quits h (.of_eq rfl rfl) (fun _ => rfl) rfl
  · exact .of_quits h (.of_eq rfl rfl) (fun _ => rfl) rfl
  · split at h
    · exact .of_quits h (.of_eq rfl rfl) (fun _ => rfl) rfl
    · cases h
  · exact .of_quits h (.of_eq rfl rfl) (fun _ => rfl) rfl
  · refine .of_push h (.of_eq rfl rfl) (fun _ => rfl) ?_
    split <;> simp [Sect.Landed, Sect.fails, Caller.reports]
  · exact .of_quits h (.of_eq rfl rfl) (fun _ => rfl) rfl
  -- callbacks
  · exact .of_quits h (.log (.of_eq rfl rfl) _ (fun _ => rfl)) (fun _ => rfl) rfl
  · exact .of_quits h (.of_eq rfl rfl) (fun _ => rfl) rfl
  · exact wires_callWithin h
  · exact .of_quits h (.log (.of_eq rfl rfl) _ (fun _ => rfl)) (fun _ => rfl) rfl
  · cases h

/-! ## Runs -/

omit [Target] in
/-- What a run keeps: sections that hand over requests and frames, frames behind the request of their
connection, one request for each transport, and whole requests and frames in every stream. -/
structure Wired (requested : List ℕ) (cfg : Config) : Prop where
  sound : ∀ q ∈ cfg.threads, ∀ task ∈ q, task.sect.Sound
  behind : ∀ q ∈ cfg.threads, ∀ task ∈ q, ∀ t bytes caller, task.sect = .sending t bytes caller →
    caller.sendsFrame = true → t ∈ requested
  requests : ∀ t, Sections.load (requesting t) cfg + (if t ∈ requested then 1 else 0) ≤
    if t < cfg.shared.transports then 1 else 0
  asked : ∀ t, t ∈ requested ↔ pieces t cfg.shared.trace ≠ []
  upgrading : ∀ t, Upgrading (pieces t cfg.shared.trace)
  whole : ∀ t, ∀ p ∈ pieces t cfg.shared.trace, p.Whole

omit [Target] in
/-- A new thread is silent and has no transport. -/
theorem entry_silent {e : Entry} {q : List Task} (h : Conn.entry e w = some (w', q)) :
    Silent w w' ∧ ∀ k ∈ q, k.sect.Landed := by
  cases e with
  | call cl =>
      obtain ⟨rfl, rfl⟩ := Prod.mk.inj (Option.some.inj h)
      exact ⟨.of_eq rfl rfl, List.forall_mem_singleton.mpr trivial⟩
  | data | closed | maintain =>
      simp only [Conn.entry] at h
      split at h
      · obtain ⟨rfl, rfl⟩ := Prod.mk.inj (Option.some.inj h)
        exact ⟨.of_eq rfl rfl, List.forall_mem_singleton.mpr trivial⟩
      · cases h

omit [Target] in
theorem Wired.start {requested : List ℕ} {cfg : Config} (h : Wired requested cfg) {e : Entry}
    {q : List Task} (hentry : Conn.entry e cfg.shared = some (w', q)) :
    Wired requested ⟨w', cfg.threads ++ [q]⟩ := by
  obtain ⟨hsilent, hlanded⟩ := entry_silent hentry
  have hload : ∀ t, Sections.load (requesting t) (⟨w', cfg.threads ++ [q]⟩ : Config) =
      Sections.load (requesting t) cfg := by
    intro t
    rw [Sections.load_start _ cfg.shared,
      Sections.weight_eq_zero fun k hk => requesting_of_landed (hlanded k hk)]
    rfl
  refine ⟨?_, ?_, ?_, ?_, ?_, ?_⟩
  · intro p hp task htask
    obtain hp | hp := List.mem_append.mp hp
    · exact h.sound p hp task htask
    · rw [List.mem_singleton.mp hp] at htask
      exact (hlanded task htask).sound
  · intro p hp task htask t bytes caller hsect
    obtain hp | hp := List.mem_append.mp hp
    · exact h.behind p hp task htask t bytes caller hsect
    · rw [List.mem_singleton.mp hp] at htask
      have := hlanded task htask
      rw [hsect] at this
      exact this.elim
  · intro t
    simp only [hload, hsilent.transports]
    exact h.requests t
  · simpa only [hsilent.pieces] using h.asked
  · simpa only [hsilent.pieces] using h.upgrading
  · simpa only [hsilent.pieces] using h.whole

omit [Target] in
theorem pieceAt_eq_some {t : ℕ} {p : Piece UInt8} (h : pieceAt t task c = some p) :
    ∃ bytes caller n, task.sect = .sending t bytes caller ∧ c = .answer (.ok n) ∧ 0 < n ∧
      p = ⟨bytes, n⟩ := by
  obtain ⟨o, s⟩ := task
  unfold pieceAt at h
  split at h
  · rename_i t' bytes caller n hsect
    split at h
    · rename_i ht
      obtain ⟨rfl, hn⟩ := ht
      exact ⟨bytes, caller, n, hsect, rfl, hn, (Option.some.inj h).symm⟩
    · cases h
  · cases h

theorem exec_sending {t : ℕ} {bytes : Bytes} {caller : SendCaller} {result : Result ℕ}
    (hsect : task.sect = .sending t bytes caller)
    (h : Conn.exec i task (.answer result) w = some (w', ks)) :
    w' = w.log task.origin (.sent t bytes result) ∧
      ks = task.origin.tasks (w.sent result caller).2 := by
  obtain ⟨o, s⟩ := task
  simp only at hsect
  subst hsect
  obtain ⟨rfl, rfl⟩ := Prod.mk.inj (Option.some.inj h)
  refine ⟨(lands_sent _ t bytes _ _).1, ?_⟩
  cases caller <;> cases result <;> rfl

omit [Target] in
theorem IsRequest.ne_nil {bytes : Bytes} (h : IsRequest bytes) : bytes ≠ [] := by
  obtain ⟨url, key, headers, rfl⟩ := h
  simp [buildHandshakeRequest]

omit [Target] in
theorem requestAt_eq_some {t : ℕ} (h : requestAt task c = some t) :
    ∃ bytes caller n, task.sect = .sending t bytes (.establish caller) ∧
      c = .answer (.ok n) := by
  obtain ⟨o, s⟩ := task
  unfold requestAt at h
  split at h
  · rename_i t' bytes caller n hsect
    cases caller with
    | establish caller =>
        obtain rfl := Option.some.inj h
        exact ⟨bytes, caller, n, hsect, rfl⟩
    | sendFrame | sendCloseFrame => cases h
  · cases h

/-- The requests that are still to be accepted and those that have been. -/
theorem Wired.requests_run {requested : List ℕ} {cfg : Config} (h : Wired requested cfg)
    (hget : cfg.threads[i]? = some (task :: ks)) {ks' : List Task}
    (hexec : Conn.exec i task c cfg.shared = some (w', ks')) (t : ℕ) :
    Sections.load (requesting t) (⟨w', cfg.threads.set i (ks' ++ ks)⟩ : Config) +
        (if t ∈ (requestAt task c).toList ++ requested then 1 else 0) ≤
      if t < w'.transports then 1 else 0 := by
  have hload := Sections.load_run (requesting t) hget w' ks'
  have hbudget := h.requests t
  cases hrequest : requestAt task c with
  | none =>
      have hwires := exec_wires hexec
      have hle := hwires.requesting t
      have htransports := hwires.transports
      by_cases ht : t ∈ requested
      · rw [if_pos ht] at hbudget
        rw [if_pos (List.mem_append_right _ ht)]
        split at hbudget <;> split at hle <;> split <;> omega
      · rw [if_neg ht] at hbudget
        rw [if_neg (by simpa using ht)]
        split at hbudget <;> split at hle <;> split <;> omega
  | some t₀ =>
      -- the request is accepted, and the section of its `Send` is over
      obtain ⟨bytes, caller, n, hsect, rfl⟩ := requestAt_eq_some hrequest
      obtain ⟨rfl, rfl⟩ := exec_sending hsect hexec
      have htask : requesting t task = if t₀ = t then 1 else 0 := by simp [requesting, hsect]
      have hks : Sections.weight (requesting t)
          (task.origin.tasks (cfg.shared.sent (.ok n) (.establish caller)).2) = 0 := rfl
      rw [hks, htask] at hload
      by_cases ht : t₀ = t
      · subst ht
        rw [if_pos (by simp)]
        rw [if_pos rfl] at hload
        have hbound : Sections.load (requesting t₀) cfg ≤ if t₀ < cfg.shared.transports then 1 else 0 :=
          Nat.le_trans (Nat.le_add_right _ _) hbudget
        exact Nat.le_trans (Nat.le_of_eq hload) hbound
      · rw [if_neg ht] at hload
        by_cases hmem : t ∈ requested
        · rw [if_pos hmem] at hbudget
          rw [if_pos (List.mem_append_right _ hmem)]
          exact Nat.le_trans (Nat.add_le_add_right (Nat.le_of_eq hload) 1) hbudget
        · rw [if_neg hmem] at hbudget
          rw [if_neg (by simpa [Ne.symm ht] using hmem)]
          exact Nat.le_trans (Nat.le_of_eq hload) hbudget

omit [Target] in
/-- Bytes come to a transport: its handshake request first, and frames behind it. -/
theorem Wired.pieces_run {requested : List ℕ} {cfg : Config} (h : Wired requested cfg)
    (hget : cfg.threads[i]? = some (task :: ks)) {t : ℕ} {bytes : Bytes} {caller : SendCaller}
    (hsect : task.sect = .sending t bytes caller) :
    (caller.sendsFrame = true → pieces t cfg.shared.trace ≠ [] ∧ IsFrame bytes) ∧
      (caller.sendsFrame = false → pieces t cfg.shared.trace = [] ∧ IsRequest bytes) := by
  have hfront := List.mem_of_getElem? hget
  have hsound := h.sound _ hfront task (List.mem_cons_self ..)
  rw [hsect] at hsound
  constructor
  · intro hcaller
    simp only [Sect.Sound, hcaller, if_true] at hsound
    have hmem := h.behind _ hfront task (List.mem_cons_self ..) t bytes caller hsect hcaller
    exact ⟨(h.asked t).mp hmem, hsound⟩
  · intro hcaller
    simp only [Sect.Sound, hcaller] at hsound
    refine ⟨?_, hsound⟩
    have htask : requesting t task = 1 := by
      cases caller with
      | establish => simp [requesting, hsect]
      | sendFrame | sendCloseFrame => cases hcaller
    have hone := Sections.le_load (requesting t) hget (List.mem_cons_self ..)
    have hbudget := h.requests t
    by_contra hne
    rw [if_pos ((h.asked t).mpr hne)] at hbudget
    split at hbudget <;> omega

theorem Wired.run {requested : List ℕ} {cfg : Config} (h : Wired requested cfg)
    (hget : cfg.threads[i]? = some (task :: ks)) {ks' : List Task}
    (hexec : Conn.exec i task c cfg.shared = some (w', ks'))
    (hwhole : ∀ t bytes caller n, task.sect = .sending t bytes caller → c = .answer (.ok n) →
      n = bytes.length)
    (hbehind : ∀ t bytes caller, task.sect = .transportSend t bytes caller → c = .go →
      caller.sendsFrame = true → t ∈ requested) :
    Wired ((requestAt task c).toList ++ requested) ⟨w', cfg.threads.set i (ks' ++ ks)⟩ := by
  have hwires := exec_wires hexec
  have hfront : task.sect.Sound :=
    h.sound _ (List.mem_of_getElem? hget) task (List.mem_cons_self ..)
  refine ⟨?_, ?_, h.requests_run hget hexec, ?_, ?_, ?_⟩
  · intro q hq k hk
    obtain rfl | ⟨j, -, hj⟩ := Sections.mem_set_cases hq
    · obtain hk | hk := List.mem_append.mp hk
      · exact hwires.sound hfront k hk
      · exact h.sound _ (List.mem_of_getElem? hget) k (List.mem_cons_of_mem _ hk)
    · exact h.sound q (List.mem_of_getElem? hj) k hk
  · intro q hq k hk t bytes caller hsect hcaller
    apply List.mem_append_right
    obtain rfl | ⟨j, -, hj⟩ := Sections.mem_set_cases hq
    · obtain hk | hk := List.mem_append.mp hk
      · obtain hsame | ⟨hsend, hgo⟩ := hwires.sendings k hk t bytes caller hsect
        · exact h.behind _ (List.mem_of_getElem? hget) task (List.mem_cons_self ..) t bytes caller
            hsame hcaller
        · exact hbehind t bytes caller hsend hgo hcaller
      · exact h.behind _ (List.mem_of_getElem? hget) k (List.mem_cons_of_mem _ hk) t bytes caller
          hsect hcaller
    · exact h.behind q (List.mem_of_getElem? hj) k hk t bytes caller hsect hcaller
  · intro t
    simp only [hwires.trace t]
    cases hpiece : pieceAt t task c with
    | none =>
        have hmem : t ∈ (requestAt task c).toList ++ requested ↔ t ∈ requested := by
          cases hrequest : requestAt task c with
          | none => simp
          | some t₀ =>
              -- a request is not empty, so its transport has accepted something
              obtain ⟨bytes, caller, n, hsect, rfl⟩ := requestAt_eq_some hrequest
              have hn : n = bytes.length := hwhole t₀ bytes _ n hsect rfl
              have hbytes : bytes ≠ [] := ((h.pieces_run hget hsect).2 rfl).2.ne_nil
              have hpos : 0 < n := by
                rw [hn]
                exact List.length_pos_iff.mpr hbytes
              have ht : t₀ ≠ t := by
                rintro rfl
                simp [pieceAt, hsect, hpos] at hpiece
              simp [Ne.symm ht]
        rw [hmem, h.asked t]
        simp
    | some p =>
        obtain ⟨bytes, caller, n, hsect, rfl, -, rfl⟩ := pieceAt_eq_some hpiece
        simp only [Option.toList_some, ne_eq, List.append_eq_nil_iff, List.cons_ne_nil, and_false,
          not_false_eq_true, iff_true]
        cases hcaller : caller.sendsFrame with
        | true =>
            apply List.mem_append_right
            exact (h.asked t).mpr ((h.pieces_run hget hsect).1 hcaller).1
        | false =>
            apply List.mem_append_left
            simp [requestAt, hsect, hcaller]
  · intro t
    simp only [hwires.trace t]
    cases hpiece : pieceAt t task c with
    | none => simpa using h.upgrading t
    | some p =>
        obtain ⟨bytes, caller, n, hsect, rfl, -, rfl⟩ := pieceAt_eq_some hpiece
        obtain ⟨hframe, hrequest⟩ := h.pieces_run hget hsect
        cases hcaller : caller.sendsFrame with
        | true =>
            obtain ⟨hne, hbytes⟩ := hframe hcaller
            exact (h.upgrading t).concat hne hbytes
        | false =>
            obtain ⟨hnil, hbytes⟩ := hrequest hcaller
            rw [hnil]
            exact upgrading_singleton hbytes
  · intro t p hp
    simp only [hwires.trace t] at hp
    obtain hp | hp := List.mem_append.mp hp
    · exact h.whole t p hp
    · obtain ⟨bytes, caller, n, hsect, rfl, -, rfl⟩ := pieceAt_eq_some (Option.mem_toList.mp hp)
      exact hwhole t bytes caller n hsect rfl

omit [Target] in
/-- A stream of whole requests and frames is intact. -/
theorem Wired.intact {requested : List ℕ} {cfg : Config} (h : Wired requested cfg) (t : ℕ) :
    Intact t cfg.shared.trace := by
  have hframed : Framed (pieces t cfg.shared.trace) := framed_of_whole (h.whole t)
  exact ⟨h.upgrading t, hframed, hframed.stream_eq⟩

/-! ### Operations whose bytes were not accepted -/

omit [Target] in
/-- What a run keeps of the client and of the operations under way whose bytes were not accepted:
these end in sections that lead to no success. -/
structure Failing (s : Sends × Config) : Prop where
  wired : Wired s.1.requested s.2
  fails : ∀ op ∈ s.1.failing, op.EndsIn (fun task => task.sect.fails) s.2

theorem keepsLast (cfg : Config) :
    Sections.KeepsLast program (fun task => task.sect.fails) cfg := by
  intro i c task ks w' ks' hget hexec hfails
  exact (exec_wires hexec).fails hfails

omit [Target] in
/-- A step that leaves bytes unaccepted. -/
theorem unaccepted_eq_some {cfg : Config} {l : Label} {op : Sections.Operation Task}
    (h : unaccepted cfg l = some op) :
    ∃ i result task ks t bytes caller, l = .run i (.answer result) ∧
      cfg.threads[i]? = some (task :: ks) ∧ task.sect = .sending t bytes caller ∧
      (∀ n, result = .ok n → n ≠ bytes.length) ∧ op = ⟨i, ks⟩ := by
  cases l with
  | start e => cases h
  | run i c =>
      cases c with
      | answer result =>
          simp only [unaccepted] at h
          split at h
          · rename_i o t bytes caller ks n hget
            split at h
            · cases h
            · rename_i hn
              refine ⟨i, _, _, ks, t, bytes, caller, rfl, hget, rfl, ?_, (Option.some.inj h).symm⟩
              intro m hm
              rw [← Except.ok.inj hm]
              exact hn
          · rename_i o t bytes caller ks e hget
            refine ⟨i, _, _, ks, t, bytes, caller, rfl, hget, rfl, ?_, (Option.some.inj h).symm⟩
            intro m hm
            cases hm
          · cases h
      | go | random | now | data | closed | timeout | again | call => cases h

omit [Target] in
/-- A `Send` that fails is reported to its caller. -/
theorem sent_error (w : Conn) (e : NetworkError) (caller : SendCaller) :
    ∃ pre last, (w.sent (.error e) caller).2 = pre ++ [last] ∧ last.fails = true := by
  cases caller with
  | establish caller => exact ⟨[.teardown kAbnormalClosure []], .established caller (.error e), rfl, rfl⟩
  | sendFrame caller => exact ⟨[], .frameSent caller (.error e), rfl, rfl⟩
  | sendCloseFrame caller => exact ⟨[.storeLastSent], .closeFrameSent caller, rfl, rfl⟩

theorem endsIn_unaccepted {cfg cfg' : Config} {l : Label} {op : Sections.Operation Task}
    (h : unaccepted cfg l = some op) (haccepts : AcceptsWhole cfg l)
    (hstep : program.step cfg l = some cfg') : op.EndsIn (fun task => task.sect.fails) cfg' := by
  obtain ⟨i, result, task, ks, t, bytes, caller, rfl, hget, hsect, hresult, rfl⟩ :=
    unaccepted_eq_some h
  obtain ⟨task', ks₀, w', ks', hget', hexec, rfl⟩ := Sections.Program.step_run.mp hstep
  obtain ⟨rfl, rfl⟩ := List.cons.inj (Option.some.inj (hget.symm.trans hget'))
  obtain ⟨-, rfl⟩ := exec_sending hsect hexec
  cases result with
  | error e =>
      obtain ⟨pre, last, hsects, hlast⟩ := sent_error cfg.shared e caller
      refine ⟨task.origin.tasks pre, ⟨task.origin, last⟩, ?_, hlast⟩
      rw [hsects]
      simp [Origin.tasks, List.getElem?_set_self (List.getElem?_eq_some_iff.mp hget).1]
  | ok n =>
      have hanswered : answered cfg (.run i (.answer (.ok n))) = some ⟨t, bytes, caller, n⟩ := by
        obtain ⟨o, s⟩ := task
        simp only at hsect
        simp [answered, hget, hsect]
      exact absurd (haccepts _ hanswered) (hresult n rfl)

theorem Failing.step {s s' : Sends × Config} {l : Label} (h : Failing s)
    (haccepts : AcceptsWhole s.2 l) (hbehind : BehindRequest s l)
    (hstep : sendingStep s l = some s') : Failing s' := by
  obtain ⟨hprogram, hsends⟩ := Runs.monitored_eq_some.mp hstep
  obtain ⟨sends', cfg'⟩ := s'
  simp only at hprogram hsends
  subst hsends
  constructor
  · obtain ⟨e, w', q, rfl, hentry, hcfg⟩ | ⟨i, c, task, ks, w', ks', rfl, hget, hexec, hcfg⟩ :=
      Sections.Program.step_cases hprogram
    · rw [hcfg]
      exact h.wired.start hentry
    · have hrequest : requestOf s.2 (.run i c) = requestAt task c := by simp [requestOf, hget]
      rw [hcfg]
      simp only [hrequest]
      apply h.wired.run hget hexec
      · rintro t bytes caller n hsect rfl
        apply haccepts ⟨t, bytes, caller, n⟩
        obtain ⟨o, sect⟩ := task
        simp only at hsect
        subst hsect
        simp [answered, hget]
      · rintro t bytes caller hsect rfl hcaller
        apply hbehind
        obtain ⟨o, sect⟩ := task
        simp only at hsect
        subst hsect
        simp [handsFrame, hget, hcaller]
  · intro op hop
    obtain ⟨hop, hopen⟩ := List.mem_filter.mp hop
    obtain hop | hop := List.mem_append.mp hop
    · exact (h.fails op hop).step (keepsLast s.2) hprogram hopen
    · exact endsIn_unaccepted (Option.mem_toList.mp hop) haccepts hprogram

omit [Target] in
theorem Failing.not_reportsSuccess {s : Sends × Config} (h : Failing s) : ¬ReportsSuccess s := by
  rintro ⟨op, hop, o, x, hget⟩
  have := (h.fails op hop).front hget
  cases this

omit [Target] in
theorem failing_initial : Failing ({}, initial) := by
  refine ⟨⟨by simp [initial], by simp [initial], ?_, ?_, ?_, ?_⟩, by simp⟩
  · intro t
    simp [initial, Sections.load]
  · intro t
    simp [initial, pieces]
  · intro t p rest heq
    cases heq
  · intro t p hp
    cases hp

/-- In the runs whose steps meet `ok`, every stream stays intact and no operation whose bytes were
not wholly accepted returns without an error. -/
def KeepsStreams (ok : Sends × Config → Label → Prop) : Prop :=
  ∀ ls, Runs.Along sendingStep (fun s l _ => AcceptsAtMost s.2 l ∧ ok s l) ({}, initial) ls →
    Runs.Along sendingStep (fun _ _ s' => (∀ t, Intact t s'.2.shared.trace) ∧ ¬ReportsSuccess s')
      ({}, initial) ls

theorem keepsStreams : KeepsStreams fun s l => AcceptsWhole s.2 l ∧ BehindRequest s l := by
  intro ls h
  apply h.mono (I := Failing) _ failing_initial
  intro s l s' hfailing hok hstep
  have hfailing' := hfailing.step hok.2.1 hok.2.2 hstep
  exact ⟨hfailing', hfailing'.wired.intact, hfailing'.not_reportsSuccess⟩

end EspModemLink.WebSocket
