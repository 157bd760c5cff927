import EspModemLink.Air780e.Hal
import Mathlib.Algebra.BigOperators.Group.Finset.Basic

/-!
# What the sections do to the modes

Every reservation of a mode is held by an open that is under way, by a slot, or by a release that is
still to come. `ModeStep` says once what a section can do to the two counters, to the switch and to
these reservations.
-/

namespace EspModemLink.Air780e

open Sections Hal

/-- The mode that an open has reserved, between its reservation and its end. -/
def Sect.opens : Sect → Option Bool
  | .allocate o | .claim o .. | .setType o .. | .armOpenWait o .. | .cipStart o .. => some o.ssl
  | .waitForOpenResult o .. | .keep o .. => some o.ssl
  | .releaseMode ssl => some ssl
  | _ => none

/-- The reservation that a slot was holding and that is about to be given back. -/
def Sect.releases : Sect → Option Bool
  | .releaseOwned ssl => some ssl
  | _ => none

/-- The one who moves the switch. -/
def Sect.switching : Sect → Bool
  | .sslVersion _ | .sslSwitch _ | .sslQuery _ | .sslReadBack _ | .endSwitch .. => true
  | _ => false

/-- The mode that the switch was confirmed for. -/
def Sect.switchedTo : Sect → Option Bool
  | .sslQuery o | .sslReadBack o | .endSwitch o (.ok ()) => some o.ssl
  | _ => none

/-- A section of a call that has nothing to do with modes. -/
def Sect.idle (k : Sect) : Bool :=
  k.opens.isNone && k.releases.isNone && !k.switching && k.switchedTo.isNone

/-- A mode counts once. -/
def one (mode : Bool) (m : Option Bool) : ℕ := if m = some mode then 1 else 0

/-- The opens that hold a reservation of a mode. -/
def opensOf (mode : Bool) (k : Sect) : ℕ := one mode k.opens

/-- The reservations of a mode that are on their way back from a slot. -/
def releasesOf (mode : Bool) (k : Sect) : ℕ := one mode k.releases

def switches (k : Sect) : ℕ := if k.switching then 1 else 0

@[simp] theorem one_none (mode : Bool) : one mode none = 0 := rfl

@[simp] theorem one_self (mode : Bool) : one mode (some mode) = 1 := if_pos rfl

/-! ## Reservations in the pool -/

/-- A used slot holds the reservation of a mode. -/
def SocketSlot.holds (mode : Bool) (slot : SocketSlot) : ℕ :=
  if slot.used ∧ slot.holdsMode ∧ slot.ssl = mode then 1 else 0

/-- The reservations that slots hold. -/
def Pool.held (p : Pool) (mode : Bool) : ℕ := ∑ id, (p.slots id).holds mode

theorem Pool.held_setSlot (p : Pool) (id : Cid) (slot : SocketSlot) (mode : Bool) :
    (p.setSlot id slot).held mode + (p.slots id).holds mode = p.held mode + slot.holds mode := by
  have hrest : ∑ i ∈ Finset.univ.erase id, ((p.setSlot id slot).slots i).holds mode =
      ∑ i ∈ Finset.univ.erase id, (p.slots i).holds mode := by
    apply Finset.sum_congr rfl
    intro i hi
    have hi' : (p.setSlot id slot).slots i = p.slots i :=
      Function.update_of_ne (Finset.ne_of_mem_erase hi) _ _
    rw [hi']
  have hid : (p.setSlot id slot).slots id = slot := Function.update_self ..
  rw [Pool.held, Pool.held, ← Finset.add_sum_erase _ _ (Finset.mem_univ id),
    ← Finset.add_sum_erase _ (fun i => (p.slots i).holds mode) (Finset.mem_univ id), hrest, hid]
  omega

/-- A slot that is taken was holding nothing, and holds nothing. -/
theorem Pool.held_allocate {p p' : Pool} {avoid : List Cid} {id : Cid}
    (h : p.allocate avoid = some (id, p')) (mode : Bool) : p'.held mode = p.held mode := by
  obtain ⟨i, hfree, hi⟩ := Option.map_eq_some_iff.mp h
  obtain ⟨rfl, rfl⟩ := Prod.mk.inj hi
  have hset := p.held_setSlot i { used := true, serial := p.nextSerial } mode
  have hunused : (p.slots i).used = false := by
    have := List.find?_some hfree
    simp only [Bool.and_eq_true, Bool.not_eq_true'] at this
    exact this.1
  have hbefore : (p.slots i).holds mode = 0 := by simp [SocketSlot.holds, hunused]
  have hafter : ({ used := true, serial := p.nextSerial } : SocketSlot).holds mode = 0 := by
    simp [SocketSlot.holds]
  have hslots : Pool.held { slots := Function.update p.slots i { used := true, serial := p.nextSerial }
                            nextSerial := (p.nextSerial + 1) % 2 ^ 32 } mode =
      (p.setSlot i { used := true, serial := p.nextSerial }).held mode := rfl
  omega

theorem Pool.held_setUdp (p : Pool) (id : Cid) (udp mode : Bool) :
    (p.setUdp id udp).held mode = p.held mode := by
  have hset := p.held_setSlot id { p.slots id with udp := udp } mode
  have hsame : ({ p.slots id with udp := udp } : SocketSlot).holds mode = (p.slots id).holds mode := rfl
  rw [setUdp]
  omega

/-- A used slot that is kept holds the reservation that is handed to it, and no other. -/
theorem Pool.held_keep (p : Pool) (id : Cid) (ssl mode : Bool) :
    (p.keep id ssl).held mode + (p.slots id).holds mode =
      p.held mode + if (p.slots id).used ∧ ssl = mode then 1 else 0 := by
  have hset := p.held_setSlot id { p.slots id with ssl := ssl, holdsMode := true } mode
  have hkept : ({ p.slots id with ssl := ssl, holdsMode := true } : SocketSlot).holds mode =
      if (p.slots id).used ∧ ssl = mode then 1 else 0 := by
    simp [SocketSlot.holds]
  rw [keep]
  omega

/-- A slot that is retired gives up what it was holding. -/
theorem Pool.held_retire {p p' : Pool} {id : Cid} {owned : Option Bool}
    (h : p.retire id = some (owned, p')) (mode : Bool) :
    p'.held mode + (p.slots id).holds mode = p.held mode ∧
      (p.slots id).holds mode = one mode owned := by
  rw [retire] at h
  split at h
  · rename_i hused
    obtain ⟨rfl, rfl⟩ := Prod.mk.inj (Option.some.inj h)
    have hset := p.held_setSlot id {} mode
    have hempty : ({} : SocketSlot).holds mode = 0 := by simp [SocketSlot.holds]
    constructor
    · omega
    · unfold SocketSlot.holds one
      cases (p.slots id).holdsMode <;> simp [hused]
  · cases h

/-! ## What a section does to the modes -/

/-- The reservations of a mode that are not in a slot. -/
def reservedOf (mode : Bool) (k : Sect) : ℕ := opensOf mode k + releasesOf mode k

/-- A reservation that a section lets go without giving it back: the slot it is handed to is not
used any more or has another one, or the slot that an open retires has come to hold one. -/
def Sect.lost (mode : Bool) (s : Air780eHal) : Sect → ℕ
  | .keep o id _ =>
      one mode (some o.ssl) + (s.pool.slots id).holds mode -
        if (s.pool.slots id).used ∧ o.ssl = mode then 1 else 0
  | .retire id false => (s.pool.slots id).holds mode
  | _ => 0

/-- Everything that a section can do to the modes and to the reservations. -/
inductive ModeStep (s s' : Air780eHal) : Sect → List Sect → Prop where
  | quiet {k : Sect} {ks : List Sect} (modes : s'.modes = s.modes)
      (confirmed : s'.history.confirmedSsl = s.history.confirmedSsl)
      (reserved : ∀ m, weight (reservedOf m) ks + s'.pool.held m + k.lost m s =
        reservedOf m k + s.pool.held m)
      (switches : weight switches ks = switches k)
      (switchedTo : ∀ k' ∈ ks, ∀ m, k'.switchedTo = some m → k.switchedTo = some m) :
      ModeStep s s' k ks
  | join (o : Opening) (idle : s.modes.sslSwitchInProgress = false)
      (opposite : s.modes.count (!o.ssl) = 0) (same : 0 < s.modes.count o.ssl)
      (state : s' = { s with modes := s.modes.take o.ssl }) : ModeStep s s' (.reserve o) [.allocate o]
  | begin (o : Opening) (idle : s.modes.sslSwitchInProgress = false) (none : ∀ m, s.modes.count m = 0)
      (state : s' = { s with modes := s.modes.setSwitching true }) :
      ModeStep s s' (.reserve o) [if o.ssl then .sslVersion o else .sslSwitch o]
  | confirm (o : Opening) (modes : s'.modes = s.modes) (pool : s'.pool = s.pool)
      (confirmed : s'.history.confirmedSsl = some o.ssl) : ModeStep s s' (.sslSwitch o) [.sslQuery o]
  | done (o : Opening)
      (state : s' = { s with modes := (s.modes.setSwitching false).take o.ssl }) :
      ModeStep s s' (.endSwitch o (.ok ())) [.allocate o]
  | failed (o : Opening) (e : NetworkError)
      (state : s' = { s with modes := s.modes.setSwitching false }) :
      ModeStep s s' (.endSwitch o (.error e)) [.returned (.opened o (.error e))]
  | release (k : Sect) (ssl : Bool) (reserved : ∀ m, reservedOf m k = one m (some ssl))
      (notSwitching : k.switching = false) (notLost : ∀ m, k.lost m s = 0)
      (state : s' = { s with modes := s.modes.release ssl }) : ModeStep s s' k []

/-- The sections that the modes or the pool depend on. -/
def Sect.forModes : Sect → Bool
  | .reserve _ | .retire .. => true
  | k => k.opens.isSome || k.releases.isSome || k.switching

theorem reservedOf_of_idle {k : Sect} (h : k.idle = true) (m : Bool) : reservedOf m k = 0 := by
  simp only [Sect.idle, Bool.and_eq_true, Option.isNone_iff_eq_none] at h
  simp [reservedOf, opensOf, releasesOf, h]

theorem switches_of_idle {k : Sect} (h : k.idle = true) : switches k = 0 := by
  simp only [Sect.idle, Bool.and_eq_true, Bool.not_eq_true'] at h
  simp [switches, h]

theorem switchedTo_of_idle {k : Sect} (h : k.idle = true) : k.switchedTo = none := by
  simp only [Sect.idle, Bool.and_eq_true, Option.isNone_iff_eq_none] at h
  exact h.2

theorem Sect.idle_of_forModes {k : Sect} (h : k.forModes = false) : k.idle = true := by
  cases k <;> first | rfl | cases h

/-- A section of a pass of the receive loop, of a dispatch or of a close. -/
def Sect.passes : Sect → Bool
  | .drain .. | .forgetClose _ | .readType .. | .cipRxGet .. | .readReply .. | .readPeer .. => true
  | .rearm _ | .finish _ | .checkOwner .. | .notePeerClosed .. | .recordClose .. => true
  | .checkUsed _ | .dispatchTcpData .. | .dispatchTcpClose .. | .dispatchUdpData .. => true
  | .onData .. | .onClose .. | .onUdpData .. => true
  | _ => false

section

variable (s : Air780eHal) (id : Cid)

theorem passes_dispatchFrom (drained gen : ℕ) (peer data : Bytes) :
    (Air780eHal.dispatchFrom id drained gen peer data).all Sect.passes = true := by
  unfold Air780eHal.dispatchFrom
  split <;> rfl

theorem passes_drain (drained : ℕ) : (s.drain id drained).all Sect.passes = true := by
  unfold Air780eHal.drain
  split
  · split <;> rfl
  · rfl

theorem passes_readReply (drained : ℕ) (udp : Bool) :
    (s.readReply id drained udp).all Sect.passes = true := by
  unfold Air780eHal.readReply
  split
  · rfl
  · split
    · split
      · rfl
      · exact passes_dispatchFrom id drained _ _ _
    · rfl

theorem passes_finish : (s.finish id).2.all Sect.passes = true := by
  unfold Air780eHal.finish
  dsimp only
  split <;> rfl

theorem passes_closeOk (gen : ℕ) : (s.closeOk id gen).2.all Sect.passes = true := by
  unfold Air780eHal.closeOk
  dsimp only
  split <;> rfl

theorem passes_notePeerClosed (gen : ℕ) : (s.notePeerClosed id gen).all Sect.passes = true := by
  unfold Air780eHal.notePeerClosed
  by_cases hserial : (if (s.pool.slots id).used then (s.pool.slots id).serial else 0) = 0
  · simp [hserial]
  · rw [if_neg hserial]
    rfl

theorem passes_map {α : Type} (f : α → Sect) (hf : ∀ a, (f a).passes = true) (l : List α) :
    (l.map f).all Sect.passes = true := by
  rw [List.all_map, List.all_eq_true]
  exact fun a _ => hf a

theorem passes_subscribeTcp (gen : ℕ) : (s.subscribeTcp id gen).2.all Sect.passes = true := by
  simp only [Air780eHal.subscribeTcp, List.all_append, Bool.and_eq_true]
  constructor
  · split <;> rfl
  · split
    · rfl
    · split <;> rfl

end

/-- A section that a line begins with. -/
def Sect.ofLine : Sect → Bool
  | .arrival .. | .shutOk | .openResult .. | .closeOk .. | .sendOk _ | .sendFail _ => true
  | .notePeerClosed .. => true
  | _ => false

theorem ofLine_cidEvent (id : Cid) (gen : ℕ) (what : Bytes) :
    ∀ k ∈ cidEvent id gen what, k.ofLine = true := by
  unfold cidEvent
  repeat' split
  all_goals simp [Sect.ofLine]

theorem ofLine_onUnsolicitedLine (line : Bytes) (gen : ℕ) :
    ∀ k ∈ onUnsolicitedLine line gen, k.ofLine = true := by
  unfold onUnsolicitedLine
  split
  · exact List.forall_mem_nil _
  · split
    · simp [Sect.ofLine]
    · split
      · exact List.forall_mem_nil _
      · split
        · exact List.forall_mem_nil _
        · exact ofLine_cidEvent _ _ _

theorem ofLine_onCiprxgetUrc (args : Bytes) : ∀ k ∈ onCiprxgetUrc args, k.ofLine = true := by
  intro k hk
  unfold onCiprxgetUrc at hk
  split at hk
  · split at hk
    · obtain ⟨id, -, rfl⟩ := Option.map_eq_some_iff.mp (Option.mem_toList.mp hk)
      rfl
    · cases hk
  · cases hk

theorem ofLine_dispatchLine (line : Bytes) (gen : ℕ) : ∀ k ∈ dispatchLine line gen, k.ofLine = true := by
  intro k hk
  obtain hk | hk := List.mem_append.mp hk
  · split at hk
    · exact ofLine_onCiprxgetUrc _ k hk
    · cases hk
  · split at hk
    · cases hk
    · exact ofLine_onUnsolicitedLine _ _ k hk

theorem idle_of_passes {ks : List Sect} (h : ks.all Sect.passes = true) :
    ks.all Sect.idle = true := by
  rw [List.all_eq_true] at h ⊢
  intro k hk
  have hpasses := h k hk
  cases k <;> first | rfl | cases hpasses

/-- A call that has returned leaves the HAL as it is, and an open one subscribes. -/
theorem exec_returned {i : ℕ} {r : Returned} {c : Choice} {s s' : Air780eHal} {ks : List Sect}
    (h : Air780eHal.exec i (.returned r) c s = some (s', ks)) :
    s' = s ∧ (ks = [] ∨ ∃ id gen, ks = [.subscribeUdp id gen] ∨ ks = [.subscribeTcp id gen]) := by
  cases c with
  | go =>
      cases r with
      | opened o result =>
          cases result with
          | ok socket =>
              obtain ⟨rfl, rfl⟩ := Prod.mk.inj (Option.some.inj h)
              refine ⟨rfl, .inr ⟨socket.1, socket.2, ?_⟩⟩
              cases o.udp with
              | true => exact .inl rfl
              | false => exact .inr rfl
          | error e =>
              obtain ⟨rfl, rfl⟩ := Prod.mk.inj (Option.some.inj h)
              exact ⟨rfl, .inl rfl⟩
      | done | line =>
          obtain ⟨rfl, rfl⟩ := Prod.mk.inj (Option.some.inj h)
          exact ⟨rfl, .inl rfl⟩
  | _ => cases r with
    | opened o result => cases result <;> cases h
    | _ => cases h

/-- A section that is not for the modes leaves them, the pool and the reservations alone. -/
theorem exec_idle {i : ℕ} {k : Sect} {c : Choice} {s s' : Air780eHal} {ks : List Sect}
    (hk : k.forModes = false) (h : Air780eHal.exec i k c s = some (s', ks)) :
    s'.pool = s.pool ∧ s'.modes = s.modes ∧
      s'.history.confirmedSsl = s.history.confirmedSsl ∧ ks.all Sect.idle = true := by
  cases k with
  | returned r =>
      obtain ⟨rfl, rfl | ⟨id, gen, rfl | rfl⟩⟩ := exec_returned h <;> exact ⟨rfl, rfl, rfl, rfl⟩
  | _ =>
      first
        | (cases hk; done)
        | cases c
      all_goals first
        | (cases h; done)
        | (obtain ⟨rfl, rfl⟩ := Prod.mk.inj (Option.some.inj h); refine ⟨rfl, rfl, rfl, ?_⟩)
        -- the sections that wait, and those that call the routes in some order
        | (obtain ⟨-, h⟩ := Option.ite_none_right_eq_some.mp h
           obtain ⟨rfl, rfl⟩ := Prod.mk.inj (Option.some.inj h); refine ⟨rfl, rfl, rfl, ?_⟩)
        | (obtain ⟨-, h⟩ := Option.ite_none_left_eq_some.mp h
           obtain ⟨rfl, rfl⟩ := Prod.mk.inj (Option.some.inj h); refine ⟨rfl, rfl, rfl, ?_⟩)
        -- the command that closes
        | (rename_i r
           cases r <;>
             (obtain ⟨rfl, rfl⟩ := Prod.mk.inj (Option.some.inj h); refine ⟨rfl, rfl, rfl, ?_⟩))
      all_goals first
        | rfl
        | exact idle_of_passes (passes_drain s _ _)
        | exact idle_of_passes (passes_readReply s _ _ _)
        | exact idle_of_passes (passes_dispatchFrom _ _ _ _ _)
        | exact idle_of_passes (passes_finish s _)
        | exact idle_of_passes (passes_closeOk s _ _)
        | exact idle_of_passes (passes_notePeerClosed s _ _)
        | exact idle_of_passes (passes_subscribeTcp s _ 0)
        | exact idle_of_passes (passes_map _ (fun _ => rfl) _)
        | (split <;> rfl)

theorem weight_reservedOf_of_idle {ks : List Sect} (h : ks.all Sect.idle = true) (m : Bool) :
    weight (reservedOf m) ks = 0 :=
  weight_eq_zero fun k hk => reservedOf_of_idle (List.all_eq_true.mp h k hk) m

theorem weight_switches_of_idle {ks : List Sect} (h : ks.all Sect.idle = true) :
    weight switches ks = 0 :=
  weight_eq_zero fun k hk => switches_of_idle (List.all_eq_true.mp h k hk)

/-- A section of an open that goes on with the reservation it has. -/
theorem ModeStep.goesOn {s s' : Air780eHal} {k : Sect} {ks : List Sect}
    (modes : s'.modes = s.modes)
    (confirmed : s'.history.confirmedSsl = s.history.confirmedSsl)
    (held : ∀ m, s'.pool.held m = s.pool.held m)
    (weights : ∀ m, weight (reservedOf m) ks = reservedOf m k) (lost : ∀ m, k.lost m s = 0)
    (switches : weight switches ks = switches k)
    (switchedTo : ∀ k' ∈ ks, k'.switchedTo = none ∨ k'.switchedTo = k.switchedTo) :
    ModeStep s s' k ks := by
  apply ModeStep.quiet modes confirmed _ switches
  · intro k' hk' m hm
    obtain hnone | hsame := switchedTo k' hk'
    · rw [hnone] at hm
      cases hm
    · rw [← hsame, hm]
  · intro m
    rw [weights, held, lost]
    rfl

section

variable {i : ℕ} {c : Choice} {s s' : Air780eHal} {ks : List Sect}

theorem modeStep_reserve {o : Opening} (h : s.reserve o = some (s', ks)) :
    ModeStep s s' (.reserve o) ks := by
  unfold Air780eHal.reserve at h
  split at h
  · cases h
  · rename_i hidle
    have hidle : s.modes.sslSwitchInProgress = false := Bool.eq_false_iff.mpr hidle
    split at h
    · obtain ⟨rfl, rfl⟩ := Prod.mk.inj (Option.some.inj h)
      exact .goesOn rfl rfl (fun _ => rfl) (fun _ => rfl) (fun _ => rfl) rfl (by simp [Sect.switchedTo])
    · rename_i hopposite
      split at h
      · rename_i hsame
        obtain ⟨rfl, rfl⟩ := Prod.mk.inj (Option.some.inj h)
        exact .join o hidle (by omega) hsame rfl
      · rename_i hnone
        obtain ⟨rfl, rfl⟩ := Prod.mk.inj (Option.some.inj h)
        apply ModeStep.begin o hidle _ rfl
        intro m
        cases hm : o.ssl <;> cases m <;> simp_all

/-- The commands of `ApplySslSwitch` but the switch itself. -/
theorem modeStep_sslCommand {o : Opening} {k next : Sect} {r : AtResult Unit} {lines : List Bytes}
    {gen : ℕ} (hk : k = .sslVersion o ∧ next = .sslSwitch o ∨ k = .sslQuery o ∧ next = .sslReadBack o)
    (h : s.sslCommand o next r lines gen = (s', ks)) : ModeStep s s' k ks := by
  obtain ⟨rfl, rfl⟩ := Prod.mk.inj h
  obtain ⟨rfl, rfl⟩ | ⟨rfl, rfl⟩ := hk <;>
  · cases r <;>
      exact .goesOn rfl rfl (fun _ => rfl) (fun _ => rfl) (fun _ => rfl) rfl
        (by simp [Sect.switchedTo])

theorem modeStep_sslSwitch {o : Opening} {r : AtResult Unit} {lines : List Bytes} {gen : ℕ}
    (h : s.sslSwitch o r lines gen = (s', ks)) : ModeStep s s' (.sslSwitch o) ks := by
  cases r with
  | ok _ =>
      obtain ⟨rfl, rfl⟩ := Prod.mk.inj h
      exact .confirm o rfl rfl rfl
  | error e =>
      obtain ⟨rfl, rfl⟩ := Prod.mk.inj h
      exact .goesOn rfl rfl (fun _ => rfl) (fun _ => rfl) (fun _ => rfl) rfl
        (by simp [Sect.switchedTo])

theorem modeStep_endSwitch {o : Opening} {r : Result Unit} (h : s.endSwitch o r = (s', ks)) :
    ModeStep s s' (.endSwitch o r) ks := by
  cases r with
  | ok _ =>
      obtain ⟨rfl, rfl⟩ := Prod.mk.inj h
      exact .done o rfl
  | error e =>
      obtain ⟨rfl, rfl⟩ := Prod.mk.inj h
      exact .failed o e rfl

theorem modeStep_allocate {o : Opening} (h : s.allocate o = (s', ks)) :
    ModeStep s s' (.allocate o) ks := by
  unfold Air780eHal.allocate at h
  split at h
  · obtain ⟨rfl, rfl⟩ := Prod.mk.inj h
    exact .goesOn rfl rfl (fun _ => rfl) (fun _ => rfl) (fun _ => rfl) rfl (by simp [Sect.switchedTo])
  · split at h
    · obtain ⟨rfl, rfl⟩ := Prod.mk.inj h
      exact .goesOn rfl rfl (fun _ => rfl) (fun _ => rfl) (fun _ => rfl) rfl
        (by simp [Sect.switchedTo])
    · rename_i id pool halloc
      obtain ⟨rfl, rfl⟩ := Prod.mk.inj h
      exact .goesOn rfl rfl (Pool.held_allocate halloc) (fun _ => rfl) (fun _ => rfl) rfl
        (by simp [Sect.switchedTo])

/-- An attempt that gives up retires its slot and then gives the reservation back. -/
theorem modeStep_giveUp {o : Opening} {id : Cid} {gen : ℕ} {k : Sect} (e : NetworkError)
    (hk : k = .cipStart o id gen ∨ k = .waitForOpenResult o id gen) (w : OpenWait) :
    ModeStep s { s with openWait := w } k (Air780eHal.giveUp o id e) := by
  obtain rfl | rfl := hk <;>
  · refine .goesOn rfl rfl (fun _ => rfl) (fun m => ?_) (fun _ => rfl) rfl
      (by simp [Sect.switchedTo, Air780eHal.giveUp])
    simp [Air780eHal.giveUp, reservedOf, opensOf, releasesOf, Sect.opens, Sect.releases]

theorem modeStep_openResult {o : Opening} {id : Cid} {gen : ℕ} {k : Sect} (outcome : OpenOutcome)
    (hk : k = .waitForOpenResult o id gen) (hks : ks = Air780eHal.openResult o id gen outcome)
    (hs : s' = { s with openWait := {} }) : ModeStep s s' k ks := by
  subst hk hks hs
  refine .goesOn rfl rfl (fun _ => rfl) ?_ (fun _ => rfl) ?_ ?_
  · intro m
    cases outcome <;> simp [Air780eHal.openResult, Air780eHal.giveUp, reservedOf, opensOf, releasesOf,
      Sect.opens, Sect.releases]
  · cases outcome <;> rfl
  · cases outcome <;> simp [Sect.switchedTo, Air780eHal.openResult, Air780eHal.giveUp]

theorem modeStep_keep {o : Opening} {id : Cid} {gen : ℕ}
    (hs : s' = { s with pool := s.pool.keep id o.ssl }) :
    ModeStep s s' (.keep o id gen) [.returned (.opened o (.ok (id, gen)))] := by
  subst hs
  refine .quiet rfl rfl ?_ rfl (by simp [Sect.switchedTo])
  intro m
  have hkeep := s.pool.held_keep id o.ssl m
  have hle : (if (s.pool.slots id).used ∧ o.ssl = m then 1 else 0) ≤ one m (some o.ssl) := by
    unfold one
    by_cases hm : o.ssl = m <;> simp [hm]
    split <;> omega
  simp only [weight_cons, weight_nil, reservedOf, opensOf, releasesOf, Sect.opens, Sect.releases,
    one_none, Sect.lost]
  omega

theorem modeStep_retire {id : Cid} {releases : Bool} (h : s.retire id releases = (s', ks)) :
    ModeStep s s' (.retire id releases) ks := by
  unfold Air780eHal.retire at h
  split at h
  · rename_i hnone
    obtain ⟨rfl, rfl⟩ := Prod.mk.inj h
    have hunused : (s.pool.slots id).used = false := by
      by_contra hused
      simp [Pool.retire, hused] at hnone
    refine .quiet rfl rfl ?_ rfl (by simp)
    intro m
    cases releases <;> simp [Sect.lost, SocketSlot.holds, hunused, reservedOf, opensOf, releasesOf,
      Sect.opens, Sect.releases]
  · rename_i owned pool hretire
    obtain ⟨rfl, rfl⟩ := Prod.mk.inj h
    refine .quiet rfl rfl ?_ ?_ ?_
    · intro m
      obtain ⟨hheld, howned⟩ := Pool.held_retire hretire m
      cases releases <;> cases owned <;>
        simp [Sect.lost, reservedOf, opensOf, releasesOf, Sect.opens, Sect.releases] at howned ⊢ <;>
        omega
    · cases releases <;> cases owned <;> rfl
    · intro k' hk' m hm
      cases releases <;> cases owned <;> simp at hk' <;>
        obtain rfl | rfl | rfl | rfl := hk' <;> cases hm

theorem modeStep_release {k : Sect} {ssl : Bool}
    (hk : k = .releaseMode ssl ∨ k = .releaseOwned ssl)
    (hs : s' = { s with modes := s.modes.release ssl }) : ModeStep s s' k [] := by
  obtain rfl | rfl := hk
  · exact .release _ ssl (fun _ => rfl) rfl (fun _ => rfl) hs
  · refine .release _ ssl (fun m => ?_) rfl (fun _ => rfl) hs
    simp [reservedOf, opensOf, releasesOf, Sect.opens, Sect.releases]

/-- A section that the modes do not depend on. -/
theorem modeStep_idle {k : Sect} (hk : k.forModes = false)
    (h : Air780eHal.exec i k c s = some (s', ks)) : ModeStep s s' k ks := by
  obtain ⟨hpool, hmodes, hconfirmed, hidle⟩ := exec_idle hk h
  refine .quiet hmodes hconfirmed ?_ ?_ ?_
  · intro m
    have hlost : k.lost m s = 0 := by
      cases k <;> first | rfl | cases hk
    rw [weight_reservedOf_of_idle hidle, reservedOf_of_idle (Sect.idle_of_forModes hk), hpool, hlost]
    rfl
  · rw [weight_switches_of_idle hidle, switches_of_idle (Sect.idle_of_forModes hk)]
  · intro k' hk' m hm
    rw [switchedTo_of_idle (List.all_eq_true.mp hidle k' hk')] at hm
    cases hm

theorem exec_modeStep {k : Sect} (h : Air780eHal.exec i k c s = some (s', ks)) :
    ModeStep s s' k ks := by
  by_cases hk : k.forModes = false
  · exact modeStep_idle hk h
  · cases k with
    | reserve o =>
        cases c with
        | go => exact modeStep_reserve h
        | _ => cases h
    | sslVersion o =>
        cases c with
        | answer r lines gen => exact modeStep_sslCommand (.inl ⟨rfl, rfl⟩) (Option.some.inj h)
        | _ => cases h
    | sslSwitch o =>
        cases c with
        | answer r lines gen => exact modeStep_sslSwitch (Option.some.inj h)
        | _ => cases h
    | sslQuery o =>
        cases c with
        | answer r lines gen => exact modeStep_sslCommand (.inr ⟨rfl, rfl⟩) (Option.some.inj h)
        | _ => cases h
    | sslReadBack o =>
        cases c with
        | go =>
            obtain ⟨rfl, rfl⟩ := Prod.mk.inj (Option.some.inj h)
            refine .goesOn rfl rfl (fun _ => rfl) (fun _ => rfl) (fun _ => rfl) rfl ?_
            split <;> simp [Sect.switchedTo]
        | _ => cases h
    | endSwitch o r =>
        cases c with
        | go => exact modeStep_endSwitch (Option.some.inj h)
        | _ => cases h
    | releaseMode ssl =>
        cases c with
        | go =>
            obtain ⟨rfl, rfl⟩ := Prod.mk.inj (Option.some.inj h)
            exact modeStep_release (.inl rfl) rfl
        | _ => cases h
    | releaseOwned ssl =>
        cases c with
        | go =>
            obtain ⟨rfl, rfl⟩ := Prod.mk.inj (Option.some.inj h)
            exact modeStep_release (.inr rfl) rfl
        | _ => cases h
    | allocate o =>
        cases c with
        | go => exact modeStep_allocate (Option.some.inj h)
        | _ => cases h
    | claim o id gen =>
        cases c with
        | go =>
            obtain ⟨rfl, rfl⟩ := Prod.mk.inj (Option.some.inj h)
            exact .goesOn rfl rfl (fun _ => rfl) (fun _ => rfl) (fun _ => rfl) rfl
              (by simp [Sect.switchedTo])
        | _ => cases h
    | setType o id gen =>
        cases c with
        | go =>
            obtain ⟨rfl, rfl⟩ := Prod.mk.inj (Option.some.inj h)
            exact .goesOn rfl rfl (s.pool.held_setUdp id o.udp) (fun _ => rfl) (fun _ => rfl) rfl
              (by simp [Sect.switchedTo])
        | _ => cases h
    | armOpenWait o id gen =>
        cases c with
        | go =>
            obtain ⟨rfl, rfl⟩ := Prod.mk.inj (Option.some.inj h)
            exact .goesOn rfl rfl (fun _ => rfl) (fun _ => rfl) (fun _ => rfl) rfl
              (by simp [Sect.switchedTo])
        | _ => cases h
    | cipStart o id gen =>
        cases c with
        | wrote r =>
            cases r with
            | ok _ =>
                obtain ⟨rfl, rfl⟩ := Prod.mk.inj (Option.some.inj h)
                exact .goesOn rfl rfl (fun _ => rfl) (fun _ => rfl) (fun _ => rfl) rfl
                  (by simp [Sect.switchedTo])
            | error e =>
                obtain ⟨rfl, rfl⟩ := Prod.mk.inj (Option.some.inj h)
                exact modeStep_giveUp _ (.inl rfl) s.openWait
        | _ => cases h
    | waitForOpenResult o id gen =>
        cases c with
        | go =>
            obtain ⟨-, h⟩ := Option.ite_none_right_eq_some.mp h
            obtain ⟨rfl, rfl⟩ := Prod.mk.inj (Option.some.inj h)
            exact modeStep_openResult _ rfl rfl rfl
        | timeout =>
            obtain ⟨-, h⟩ := Option.ite_none_left_eq_some.mp h
            obtain ⟨rfl, rfl⟩ := Prod.mk.inj (Option.some.inj h)
            exact modeStep_giveUp _ (.inr rfl) {}
        | _ => cases h
    | keep o id gen =>
        cases c with
        | go =>
            obtain ⟨rfl, rfl⟩ := Prod.mk.inj (Option.some.inj h)
            exact modeStep_keep rfl
        | _ => cases h
    | retire id releases =>
        cases c with
        | go => exact modeStep_retire (Option.some.inj h)
        | _ => cases h
    | _ => exact absurd rfl hk

end

end EspModemLink.Air780e
