import EspModemLink.Air780e.ModeExclusion

/-!
# Reservations do not leak

The counter of a mode is the number of its reservations as long as an open hands its reservation
over to a slot that is still its own. A close that retires the slot before that leaves a
reservation behind that nobody gives back.
-/

namespace EspModemLink.Air780e

open Sections Hal

/-- Each counter is the number of opens under way that hold a reservation of its mode and of used
slots that hold one, but for what a release is just giving back. So when nothing is open or being
opened, either mode can be opened again. -/
structure Accounted (cfg : Config) : Prop where
  counted : ∀ m, cfg.shared.modes.count m =
    load (opensOf m) cfg + cfg.shared.pool.held m + load (releasesOf m) cfg
  reopens : (∀ m, load (opensOf m) cfg = 0) → (∀ m, load (releasesOf m) cfg = 0) →
    (∀ id, (cfg.shared.pool.slots id).used = false) →
      (∀ m, cfg.shared.modes.count m = 0) ∧
        ∀ o, cfg.shared.modes.sslSwitchInProgress = false → cfg.shared.reserve o =
          some ({ cfg.shared with modes := cfg.shared.modes.setSwitching true },
            [if o.ssl then .sslVersion o else .sslSwitch o])

/-- An open hands its reservation to a slot that is still used and holds none, and an attempt that
failed retires no slot that holds one. -/
structure KeepsReservation (cfg : Config) (l : Label) : Prop where
  kept : ∀ o id gen, l.front cfg = some (.keep o id gen) →
    (cfg.shared.pool.slots id).used = true ∧ (cfg.shared.pool.slots id).holdsMode = false
  retired : ∀ id, l.front cfg = some (.retire id false) →
    ((cfg.shared.pool.slots id).used && (cfg.shared.pool.slots id).holdsMode) = false

/-! ## Counting -/

variable {cfg cfg' : Config} {l : Label}

theorem tally_eq (m : Bool) (cfg : Config) :
    tally m cfg = load (opensOf m) cfg + cfg.shared.pool.held m + load (releasesOf m) cfg := by
  have hadd := load_add (opensOf m) (releasesOf m) cfg
  have hreserved : load (reservedOf m) cfg = load (opensOf m) cfg + load (releasesOf m) cfg := hadd
  rw [tally, hreserved]
  omega

theorem Pool.held_eq_zero {p : Pool} (h : ∀ id, (p.slots id).used = false) (m : Bool) :
    p.held m = 0 := by
  apply Finset.sum_eq_zero
  intro id _
  simp [SocketSlot.holds, h id]

/-- Counters that are all zero refuse no mode. -/
theorem reserve_of_zero {s : Air780eHal} (h : ∀ m, s.modes.count m = 0)
    (hidle : s.modes.sslSwitchInProgress = false) (o : Opening) :
    s.reserve o = some ({ s with modes := s.modes.setSwitching true },
      [if o.ssl then .sslVersion o else .sslSwitch o]) := by
  simp [Air780eHal.reserve, hidle, h]

/-- The counters say it all. -/
theorem accounted_iff : Accounted cfg ↔ ∀ m, cfg.shared.modes.count m = tally m cfg := by
  constructor
  · intro h m
    rw [tally_eq, h.counted]
  · intro h
    have hcounted : ∀ m, cfg.shared.modes.count m =
        load (opensOf m) cfg + cfg.shared.pool.held m + load (releasesOf m) cfg := by
      intro m
      rw [h, tally_eq]
    refine ⟨hcounted, ?_⟩
    intro hopens hreleases hunused
    have hzero : ∀ m, cfg.shared.modes.count m = 0 := by
      intro m
      rw [hcounted, hopens, hreleases, Pool.held_eq_zero hunused]
    exact ⟨hzero, fun o hidle => reserve_of_zero hzero hidle o⟩

/-- A used slot that holds a mode holds that one. -/
theorem SocketSlot.holds_self {slot : SocketSlot} (h : (slot.used && slot.holdsMode) = true) :
    slot.holds slot.ssl = 1 := by
  obtain ⟨hused, hholds⟩ := Bool.and_eq_true_iff.mp h
  simp [holds, hused, hholds]

theorem SocketSlot.holds_eq_zero {slot : SocketSlot} (h : (slot.used && slot.holdsMode) = false)
    (m : Bool) : slot.holds m = 0 := by
  unfold holds
  rw [if_neg]
  rintro ⟨hused, hholds, -⟩
  rw [hused, hholds] at h
  cases h

theorem SocketSlot.forall_holds {slot : SocketSlot} :
    (∀ m, slot.holds m = 0) ↔ (slot.used && slot.holdsMode) = false := by
  constructor
  · intro h
    by_contra hne
    have hself := slot.holds_self (Bool.not_eq_false _ ▸ hne)
    rw [h] at hself
    cases hself
  · exact fun h m => slot.holds_eq_zero h m

/-- A section loses nothing exactly where a reservation is kept. -/
theorem lost_eq_zero_iff {i : ℕ} {c : Choice} {k : Sect} {ks : List Sect}
    (hget : cfg.threads[i]? = some (k :: ks)) :
    (∀ m, k.lost m cfg.shared = 0) ↔ KeepsReservation cfg (.run i c) := by
  have hfront : (Label.run i c : Label).front cfg = some k := Label.front_run hget c
  constructor
  · intro hlost
    constructor
    · intro o id gen hkeep
      obtain rfl := Option.some.inj (hfront.symm.trans hkeep)
      have hown := hlost o.ssl
      simp only [Sect.lost, one_self, and_true] at hown
      have hused : (cfg.shared.pool.slots id).used = true := by
        by_contra hne
        rw [if_neg hne] at hown
        omega
      have hholds : ∀ m, (cfg.shared.pool.slots id).holds m = 0 := by
        intro m
        have hm := hlost m
        simp only [Sect.lost, one, hused, true_and, Option.some.injEq] at hm
        omega
      have hnone := SocketSlot.forall_holds.mp hholds
      rw [hused, Bool.true_and] at hnone
      exact ⟨hused, hnone⟩
    · intro id hretire
      obtain rfl := Option.some.inj (hfront.symm.trans hretire)
      exact SocketSlot.forall_holds.mp hlost
  · intro hkeeps m
    cases k with
    | keep o id gen =>
        obtain ⟨hused, hnone⟩ := hkeeps.kept o id gen hfront
        have hholds : (cfg.shared.pool.slots id).holds m = 0 :=
          SocketSlot.holds_eq_zero (by rw [hnone, Bool.and_false]) m
        simp only [Sect.lost, one, hholds, hused, true_and, Option.some.injEq]
        omega
    | retire id releases =>
        cases releases with
        | true => rfl
        | false => exact SocketSlot.holds_eq_zero (hkeeps.retired id hfront) m
    | _ => rfl

theorem tally_start (e : Entry) (m : Bool) :
    tally m ⟨cfg.shared, cfg.threads ++ [e.sections]⟩ = tally m cfg := by
  have hload : load (reservedOf m) ⟨cfg.shared, cfg.threads ++ [e.sections]⟩ =
      load (reservedOf m) cfg + weight (reservedOf m) e.sections :=
    load_start (reservedOf m) cfg.shared cfg.shared cfg.threads e.sections
  rw [weight_reservedOf_of_idle e.sections_idle] at hload
  rw [tally, hload]
  rfl

/-- A step from counters that are right leads to counters that are right exactly where a
reservation is kept. -/
theorem accounted_step_iff (hg : SwitchGuarded cfg) (ha : Accounted cfg)
    (h : program.step cfg l = some cfg') : Accounted cfg' ↔ KeepsReservation cfg l := by
  rw [accounted_iff] at ha ⊢
  obtain ⟨e, s', q, rfl, hentry, rfl⟩ | ⟨i, c, k, rest, s', ks, rfl, hget, hexec, rfl⟩ :=
    Program.step_cases h
  · obtain ⟨rfl, rfl⟩ := Prod.mk.inj (Option.some.inj hentry)
    constructor
    · intro _
      refine ⟨fun _ _ _ hfront => ?_, fun _ hfront => ?_⟩ <;> cases hfront
    · intro _ m
      rw [tally_start, ← ha m]
  · rw [← lost_eq_zero_iff (c := c) hget]
    apply forall_congr'
    intro m
    have htally := (exec_modeStep (i := i) hexec).tally_step hg hget m
    have hbefore := ha m
    dsimp only
    constructor <;> intro <;> omega

theorem accounted_initial : Accounted initial := by
  rw [accounted_iff]
  intro m
  have hcovered := switchGuarded_initial.covered m
  have hzero : initial.shared.modes.count m = 0 := by
    cases m <;> rfl
  omega

/-- The counters are right in every state of a run exactly if every open hands its reservation to a
slot that is still its own. -/
theorem accounted_iff_keepsReservation (ls : List Label) :
    Runs.Along program.step (fun _ _ cfg' => Accounted cfg') initial ls ↔
      Runs.Along program.step (fun cfg l _ => KeepsReservation cfg l) initial ls := by
  apply Runs.Along.congr (I := fun cfg => SwitchGuarded cfg ∧ Accounted cfg)
  · intro cfg l cfg' hI hP hstep
    exact ⟨hI.1.step hstep, hP⟩
  · intro cfg l cfg' hI hstep
    exact accounted_step_iff hI.1 hI.2 hstep
  · exact ⟨switchGuarded_initial, accounted_initial⟩

/-- A TLS socket opens, and its peer closes it before the open has handed its reservation over. -/
def closedBeforeKept : List Label :=
  let ok (lines : List Bytes) : Choice := .answer (.ok ()) lines 0
  [.start (.openSocket false true [] 443), .run 0 .go, .run 0 (ok []), .run 0 (ok []),
    .run 0 (ok [ascii ['+', 'C', 'I', 'P', 'S', 'S', 'L', ':', ' ', '1']]), .run 0 .go, .run 0 .go,
    .run 0 .go, .run 0 .go, .run 0 .go, .run 0 .go, .run 0 (.wrote (.ok ())),
    .start (.line (ascii ['0', ',', ' ', 'C', 'O', 'N', 'N', 'E', 'C', 'T', ' ', 'O', 'K']) 1),
    .run 1 .go, .run 0 .go,
    .start (.line (ascii ['0', ',', ' ', 'C', 'L', 'O', 'S', 'E', 'D']) 1), .run 2 .go, .run 2 .go,
    .start .receive, .run 3 .go, .run 3 .go, .run 3 .go,
    .run 3 (.answer (.error { code := .kCmeError, cme := 3 }) [] 0), .run 3 .go, .run 3 .go,
    .run 3 .go, .run 3 .go, .run 3 .go, .run 3 .go, .run 3 (.tcpOrder []),
    .run 0 .go, .run 0 .go, .run 0 .go, .run 0 (.tcpOrder [(1, ⟨0, some 1, some 1⟩)]), .run 0 .go]

/-- No call is under way and no slot is used, and yet the counter is one and a plaintext open is
refused. -/
theorem leaked_closedBeforeKept :
    ∃ cfg, Runs.exec program.step initial closedBeforeKept = some cfg ∧
      (∀ q ∈ cfg.threads, q = []) ∧ (∀ id, (cfg.shared.pool.slots id).used = false) ∧
      cfg.shared.modes.sslSocketsOpen = 1 ∧ ¬Accounted cfg ∧
      cfg.shared.reserve { udp := false, ssl := false, host := [], port := 80 } =
        some (cfg.shared, [.returned (.opened { udp := false, ssl := false, host := [], port := 80 }
          (.error (modeInUse false)))]) := by
  have hrun : (Runs.exec program.step initial closedBeforeKept).map (fun cfg =>
      (decide (∀ q ∈ cfg.threads, q = []), decide (∀ id, (cfg.shared.pool.slots id).used = false),
        cfg.shared.modes)) = some (true, true, ⟨1, 0, false⟩) := by decide +kernel
  obtain ⟨cfg, hexec, hproj⟩ := Option.map_eq_some_iff.mp hrun
  simp only [Prod.mk.injEq, decide_eq_true_eq] at hproj
  obtain ⟨hthreads, hunused, hmodes⟩ := hproj
  have hload : ∀ f, load f cfg = 0 := by
    intro f
    apply weight_eq_zero
    intro q hq
    rw [hthreads q hq, weight_nil]
  refine ⟨cfg, hexec, hthreads, hunused, by rw [hmodes], ?_, ?_⟩
  · intro h
    have hcount := h.counted true
    rw [hload, hload, Pool.held_eq_zero hunused, hmodes] at hcount
    cases hcount
  · simp [Air780eHal.reserve, hmodes, Modes.count]

end EspModemLink.Air780e
