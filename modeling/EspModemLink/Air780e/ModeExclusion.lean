import EspModemLink.Air780e.ModeSteps

/-!
# TLS and plaintext sockets exclude each other

`AT+CIPSSL` is one switch for the whole module. The counter of a mode covers every reservation of
it, so the switch moves only while nobody holds one.
-/

namespace EspModemLink.Air780e

open Sections Hal

/-- What holds of a step: the two counters are never both positive, `AT+CIPSTART` is sent while the
confirmed switch is that of the open, and `AT+CIPSSL` while no open has a reservation. -/
structure ModesExclude (cfg : Config) (l : Label) (cfg' : Config) : Prop where
  apart : ¬(0 < cfg'.shared.modes.sslSocketsOpen ∧ 0 < cfg'.shared.modes.plainSocketsOpen)
  start : ∀ o id gen, l.front cfg = some (.cipStart o id gen) →
    cfg.shared.history.confirmedSsl = some o.ssl
  quiet : ∀ o, l.front cfg = some (.sslSwitch o) → ∀ q ∈ cfg.threads, ∀ k ∈ q, k.opens = none

/-! ## The invariant of the switch -/

/-- The reservations of a mode: those of opens, those on their way back, and those in slots. -/
def tally (mode : Bool) (cfg : Config) : ℕ :=
  load (reservedOf mode) cfg + cfg.shared.pool.held mode

/-- Each counter covers the reservations of its mode, at most one of them is positive and then the
switch was confirmed for it, and whoever moves the switch is alone and finds both at zero. -/
structure SwitchGuarded (cfg : Config) : Prop where
  covered : ∀ m, tally m cfg ≤ cfg.shared.modes.count m
  confirmed : ∀ m, 0 < cfg.shared.modes.count m → cfg.shared.history.confirmedSsl = some m
  flag : load switches cfg = if cfg.shared.modes.sslSwitchInProgress then 1 else 0
  closed : cfg.shared.modes.sslSwitchInProgress = true → ∀ m, cfg.shared.modes.count m = 0
  switched : ∀ q ∈ cfg.threads, ∀ k ∈ q, ∀ m, k.switchedTo = some m →
    cfg.shared.history.confirmedSsl = some m

variable {cfg cfg' : Config} {l : Label}

theorem SwitchGuarded.apart (h : SwitchGuarded cfg) :
    ¬(0 < cfg.shared.modes.sslSocketsOpen ∧ 0 < cfg.shared.modes.plainSocketsOpen) := by
  rintro ⟨hssl, hplain⟩
  have hsslMode := h.confirmed true hssl
  have hplainMode := h.confirmed false hplain
  rw [hsslMode] at hplainMode
  cases hplainMode

theorem switchGuarded_initial : SwitchGuarded initial := by
  have hcount : ∀ m, initial.shared.modes.count m = 0 := by
    intro m
    cases m <;> rfl
  refine ⟨fun m => ?_, fun m hm => ?_, rfl, fun _ => hcount, ?_⟩
  · have htally : tally m initial = 0 := by
      simp [tally, load, initial, Pool.held, SocketSlot.holds]
    omega
  · rw [hcount] at hm
    cases hm
  · intro q hq
    cases hq

/-- What a step adds to the reservations and to the counter of a mode, up to what gets lost. -/
theorem ModeStep.tally_step {i : ℕ} {k : Sect} {rest ks : List Sect} {s' : Air780eHal}
    (hg : SwitchGuarded cfg) (hget : cfg.threads[i]? = some (k :: rest))
    (h : ModeStep cfg.shared s' k ks) (m : Bool) :
    s'.modes.count m + tally m cfg =
      cfg.shared.modes.count m + tally m ⟨s', cfg.threads.set i (ks ++ rest)⟩ +
        k.lost m cfg.shared := by
  have hload := load_run (reservedOf m) hget s' ks
  have hcovered := hg.covered m
  have hle := le_load (reservedOf m) hget (List.mem_cons_self ..)
  simp only [tally] at hcovered ⊢
  cases h with
  | quiet modes confirmed reserved switches switchedTo =>
      have hreserved := reserved m
      rw [modes]
      omega
  | join o idle opposite same state =>
      subst state
      have hcount := Modes.count_take cfg.shared.modes o.ssl m
      have hnew : weight (reservedOf m) [.allocate o] = if o.ssl = m then 1 else 0 := by
        simp [reservedOf, opensOf, releasesOf, Sect.opens, Sect.releases, one]
      have hold : reservedOf m (.reserve o) = 0 := rfl
      simp only [Sect.lost]
      omega
  | begin o idle none state =>
      subst state
      have hnew : weight (reservedOf m) [if o.ssl then .sslVersion o else .sslSwitch o] = 0 := by
        cases o.ssl <;> rfl
      have hold : reservedOf m (.reserve o) = 0 := rfl
      have hcount := cfg.shared.modes.count_setSwitching true m
      simp only [Sect.lost]
      omega
  | confirm o modes pool confirmed =>
      have hnew : weight (reservedOf m) [.sslQuery o] = 0 := rfl
      have hold : reservedOf m (.sslSwitch o) = 0 := rfl
      rw [modes, pool]
      simp only [Sect.lost]
      omega
  | done o state =>
      subst state
      have hcount := Modes.count_take (cfg.shared.modes.setSwitching false) o.ssl m
      have hsame := cfg.shared.modes.count_setSwitching false m
      have hnew : weight (reservedOf m) [.allocate o] = if o.ssl = m then 1 else 0 := by
        simp [reservedOf, opensOf, releasesOf, Sect.opens, Sect.releases, one]
      have hold : reservedOf m (.endSwitch o (.ok ())) = 0 := rfl
      simp only [Sect.lost]
      omega
  | failed o e state =>
      subst state
      have hsame := cfg.shared.modes.count_setSwitching false m
      have hnew : weight (reservedOf m) [.returned (.opened o (.error e))] = 0 := rfl
      have hold : reservedOf m (.endSwitch o (.error e)) = 0 := rfl
      simp only [Sect.lost]
      omega
  | release k ssl reserved notSwitching notLost state =>
      subst state
      have hcount := Modes.count_release cfg.shared.modes ssl m
      have hold : reservedOf m k = if ssl = m then 1 else 0 := by
        rw [reserved, one]
        simp
      have hnew : weight (reservedOf m) [] = 0 := rfl
      rw [notLost]
      dsimp only
      by_cases hm : ssl = m
      · rw [if_pos hm] at hcount hold
        omega
      · rw [if_neg hm] at hcount hold
        omega

/-- The flag follows the one who moves the switch. -/
theorem ModeStep.flag_step {i : ℕ} {k : Sect} {rest ks : List Sect} {s' : Air780eHal}
    (hg : SwitchGuarded cfg) (hget : cfg.threads[i]? = some (k :: rest))
    (h : ModeStep cfg.shared s' k ks) :
    load switches ⟨s', cfg.threads.set i (ks ++ rest)⟩ =
      if s'.modes.sslSwitchInProgress then 1 else 0 := by
  have hload := load_run switches hget s' ks
  have hflag := hg.flag
  have hle := le_load switches hget (List.mem_cons_self ..)
  cases h with
  | quiet modes confirmed reserved switches switchedTo =>
      rw [modes, ← hflag]
      omega
  | join o idle opposite same state =>
      subst state
      have hnew : weight switches [.allocate o] = 0 := rfl
      have hold : switches (.reserve o) = 0 := rfl
      simp only [Modes.take_inProgress]
      omega
  | begin o idle none state =>
      subst state
      have hnew : weight switches [if o.ssl then .sslVersion o else .sslSwitch o] = 1 := by
        cases o.ssl <;> rfl
      have hold : switches (.reserve o) = 0 := rfl
      rw [idle] at hflag
      simp only [Modes.setSwitching_inProgress, Bool.false_eq_true, if_false, if_true] at hflag ⊢
      omega
  | confirm o modes pool confirmed =>
      have hnew : weight switches [.sslQuery o] = 1 := rfl
      have hold : switches (.sslSwitch o) = 1 := rfl
      rw [modes, ← hflag]
      omega
  | done o state =>
      subst state
      have hnew : weight switches [.allocate o] = 0 := rfl
      have hold : switches (.endSwitch o (.ok ())) = 1 := rfl
      simp only [Modes.take_inProgress, Modes.setSwitching_inProgress, Bool.false_eq_true, if_false]
      split at hflag <;> omega
  | failed o e state =>
      subst state
      have hnew : weight switches [.returned (.opened o (.error e))] = 0 := rfl
      have hold : switches (.endSwitch o (.error e)) = 1 := rfl
      simp only [Modes.setSwitching_inProgress, Bool.false_eq_true, if_false]
      split at hflag <;> omega
  | release k ssl reserved notSwitching notLost state =>
      subst state
      have hold : switches k = 0 := by simp [switches, notSwitching]
      have hnew : weight switches [] = 0 := rfl
      simp only [Modes.release_inProgress]
      omega

/-- Whoever moves the switch finds it under way and both counters at zero. -/
theorem SwitchGuarded.switching {i : ℕ} {k : Sect} {q : List Sect} (hg : SwitchGuarded cfg)
    (hget : cfg.threads[i]? = some q) (hk : k ∈ q) (hswitching : k.switching = true) :
    cfg.shared.modes.sslSwitchInProgress = true ∧ ∀ m, cfg.shared.modes.count m = 0 := by
  have hle := le_load switches hget hk
  have hone : switches k = 1 := by simp [switches, hswitching]
  have hflag := hg.flag
  have hprogress : cfg.shared.modes.sslSwitchInProgress = true := by
    by_contra hne
    rw [if_neg hne] at hflag
    omega
  exact ⟨hprogress, hg.closed hprogress⟩

/-- A section that was confirmed by the switch is one of those that move it. -/
theorem Sect.switching_of_switchedTo {k : Sect} {m : Bool} (h : k.switchedTo = some m) :
    k.switching = true := by
  cases k with
  | sslQuery | sslReadBack | endSwitch => rfl
  | _ => cases h

/-- A step to a state in which nobody else moves the switch. -/
theorem ModeStep.closed_step {i : ℕ} {k : Sect} {rest ks : List Sect} {s' : Air780eHal}
    (hg : SwitchGuarded cfg) (hget : cfg.threads[i]? = some (k :: rest))
    (h : ModeStep cfg.shared s' k ks) (hprogress : s'.modes.sslSwitchInProgress = true) (m : Bool) :
    s'.modes.count m = 0 := by
  cases h with
  | quiet modes confirmed reserved switches switchedTo =>
      rw [modes] at hprogress ⊢
      exact hg.closed hprogress m
  | join o idle opposite same state =>
      subst state
      rw [Modes.take_inProgress, idle] at hprogress
      cases hprogress
  | begin o idle none state =>
      subst state
      exact none m
  | confirm o modes pool confirmed =>
      rw [modes] at hprogress ⊢
      exact hg.closed hprogress m
  | done o state =>
      subst state
      rw [Modes.take_inProgress] at hprogress
      cases hprogress
  | failed o e state =>
      subst state
      cases hprogress
  | release k ssl reserved notSwitching notLost state =>
      subst state
      rw [Modes.release_inProgress] at hprogress
      have hzero := hg.closed hprogress m
      have hcount := Modes.count_release cfg.shared.modes ssl m
      rw [hzero, Nat.zero_sub] at hcount
      exact hcount

theorem ModeStep.confirmed_step {i : ℕ} {k : Sect} {rest ks : List Sect} {s' : Air780eHal}
    (hg : SwitchGuarded cfg) (hget : cfg.threads[i]? = some (k :: rest))
    (h : ModeStep cfg.shared s' k ks) {m : Bool} (hm : 0 < s'.modes.count m) :
    s'.history.confirmedSsl = some m := by
  have hfront : k ∈ k :: rest := List.mem_cons_self ..
  cases h with
  | quiet modes confirmed reserved switches switchedTo =>
      rw [modes] at hm
      rw [confirmed]
      exact hg.confirmed m hm
  | join o idle opposite same state =>
      subst state
      simp only [Modes.count_take] at hm
      by_cases hssl : o.ssl = m
      · exact hg.confirmed m (hssl ▸ same)
      · rw [if_neg hssl] at hm
        exact hg.confirmed m hm
  | begin o idle none state =>
      subst state
      simp only [Modes.count_setSwitching, none m] at hm
      cases hm
  | confirm o modes pool confirmed =>
      rw [modes, (hg.switching hget hfront rfl).2 m] at hm
      cases hm
  | done o state =>
      subst state
      simp only [Modes.count_take, Modes.count_setSwitching, (hg.switching hget hfront rfl).2 m] at hm
      have hssl : o.ssl = m := by
        by_contra hne
        rw [if_neg hne] at hm
        cases hm
      exact hg.switched _ (List.mem_of_getElem? hget) _ hfront m (by rw [← hssl]; rfl)
  | failed o e state =>
      subst state
      simp only [Modes.count_setSwitching, (hg.switching hget hfront rfl).2 m] at hm
      cases hm
  | release k ssl reserved notSwitching notLost state =>
      subst state
      simp only [Modes.count_release] at hm
      exact hg.confirmed m (by omega)

theorem ModeStep.switched_step {i : ℕ} {k : Sect} {rest ks : List Sect} {s' : Air780eHal}
    (hg : SwitchGuarded cfg) (hget : cfg.threads[i]? = some (k :: rest))
    (h : ModeStep cfg.shared s' k ks) {q : List Sect} (hq : q ∈ cfg.threads.set i (ks ++ rest))
    {x : Sect} (hx : x ∈ q) {m : Bool} (hm : x.switchedTo = some m) :
    s'.history.confirmedSsl = some m := by
  have hfront : k ∈ k :: rest := List.mem_cons_self ..
  have hmem := List.mem_of_getElem? hget
  -- a section that stays where it was
  have hstays : (∃ (j : ℕ) (p : List Sect), (cfg.threads.set i rest)[j]? = some p ∧ x ∈ p) →
      cfg.shared.history.confirmedSsl = some m ∧ k.switching = false := by
    rintro ⟨j, p, hj, hx'⟩
    obtain ⟨q'', hq'', hx''⟩ := mem_threads_of_set hget hj hx'
    refine ⟨hg.switched q'' hq'' x hx'' m hm, ?_⟩
    by_contra hk
    have htwo := add_le_load switches hget hj hx'
    have hflag := hg.flag
    simp only [switches, Sect.switching_of_switchedTo hm, Bool.not_eq_false] at htwo hk
    rw [hk] at htwo
    split at hflag <;> simp only [if_true] at htwo <;> omega
  obtain hks | hrest := mem_threads_cases hget hq hx
  · cases h with
    | quiet modes confirmed reserved switches switchedTo =>
        rw [confirmed]
        exact hg.switched _ hmem k hfront m (switchedTo x hks m hm)
    | confirm o modes pool confirmed =>
        obtain rfl := List.mem_singleton.mp hks
        rw [confirmed]
        exact hm
    | begin o idle none state =>
        obtain rfl := List.mem_singleton.mp hks
        cases hssl : o.ssl <;> rw [hssl] at hm <;> cases hm
    | release k ssl reserved notSwitching notLost state => cases hks
    | join | done | failed =>
        obtain rfl := List.mem_singleton.mp hks
        cases hm
  · obtain ⟨hconfirmed, hnot⟩ := hstays hrest
    cases h with
    | quiet modes confirmed reserved switches switchedTo => rw [confirmed, hconfirmed]
    | confirm => cases hnot
    | join o idle opposite same state => rw [state, ← hconfirmed]
    | begin o idle none state => rw [state, ← hconfirmed]
    | done => cases hnot
    | failed => cases hnot
    | release k ssl reserved notSwitching notLost state => rw [state, ← hconfirmed]

theorem idle_onCiprxgetUrc (args : Bytes) : (onCiprxgetUrc args).all Sect.idle = true := by
  unfold onCiprxgetUrc
  split
  · split
    · rename_i kind id rest hfields hkind
      cases (AtParser.parseInt (trim id)).bind cid? <;> rfl
    · rfl
  · rfl

theorem idle_cidEvent (id : Cid) (gen : ℕ) (what : Bytes) :
    (cidEvent id gen what).all Sect.idle = true := by
  unfold cidEvent
  repeat' split
  all_goals rfl

theorem idle_onUnsolicitedLine (line : Bytes) (gen : ℕ) :
    (onUnsolicitedLine line gen).all Sect.idle = true := by
  unfold onUnsolicitedLine
  split
  · rfl
  · split
    · rfl
    · split
      · rfl
      · split
        · rfl
        · exact idle_cidEvent _ _ _

theorem idle_dispatchLine (line : Bytes) (gen : ℕ) : (dispatchLine line gen).all Sect.idle = true := by
  simp only [dispatchLine, List.all_append, Bool.and_eq_true]
  constructor
  · split
    · exact idle_onCiprxgetUrc _
    · rfl
  · split
    · rfl
    · exact idle_onUnsolicitedLine _ _

/-- A thread begins with nothing reserved. -/
theorem Entry.sections_idle (e : Entry) : e.sections.all Sect.idle = true := by
  cases e with
  | line l gen => exact idle_dispatchLine l gen
  | closeConnection id | sendPayload id =>
      simp only [Entry.sections]
      split <;> rfl
  | _ => rfl

theorem SwitchGuarded.step (hg : SwitchGuarded cfg) (h : program.step cfg l = some cfg') :
    SwitchGuarded cfg' := by
  obtain ⟨e, s', q, rfl, hentry, rfl⟩ | ⟨i, c, k, rest, s', ks, rfl, hget, hexec, rfl⟩ :=
    Program.step_cases h
  · obtain ⟨rfl, rfl⟩ := Prod.mk.inj (Option.some.inj hentry)
    have hidle := e.sections_idle
    refine ⟨fun m => ?_, hg.confirmed, ?_, hg.closed, ?_⟩
    · have hload : load (reservedOf m) ⟨cfg.shared, cfg.threads ++ [e.sections]⟩ =
          load (reservedOf m) cfg + weight (reservedOf m) e.sections :=
        load_start (reservedOf m) cfg.shared cfg.shared cfg.threads e.sections
      rw [weight_reservedOf_of_idle hidle] at hload
      have hcovered := hg.covered m
      simp only [tally] at hcovered ⊢
      omega
    · have hload := load_start switches cfg.shared cfg.shared cfg.threads e.sections
      rw [weight_switches_of_idle hidle] at hload
      exact hload.trans hg.flag
    · intro q hq k hk m hm
      obtain hq | hq := List.mem_append.mp hq
      · exact hg.switched q hq k hk m hm
      · obtain rfl := List.mem_singleton.mp hq
        rw [switchedTo_of_idle (List.all_eq_true.mp hidle k hk)] at hm
        cases hm
  · have hstep := exec_modeStep (i := i) hexec
    refine ⟨fun m => ?_, fun m hm => hstep.confirmed_step hg hget hm, hstep.flag_step hg hget,
      fun hprogress m => hstep.closed_step hg hget hprogress m,
      fun q hq k hk m hm => hstep.switched_step hg hget hq hk hm⟩
    have htally := hstep.tally_step hg hget m
    have hcovered := hg.covered m
    dsimp only
    omega

theorem switchGuarded_run (ls : List Label) :
    Runs.Along program.step (fun cfg _ cfg' => SwitchGuarded cfg ∧ SwitchGuarded cfg') initial ls := by
  have hany : Runs.Along program.step (fun _ _ _ => True) initial ls :=
    Runs.along_of_labels (Q := fun _ => True) (fun _ _ => trivial) initial
  apply hany.mono (I := SwitchGuarded) _ switchGuarded_initial
  intro cfg l cfg' hg _ hstep
  exact ⟨hg.step hstep, hg, hg.step hstep⟩

/-! ## Exclusion -/

/-- A reservation of an open is in the tally of its mode. -/
theorem one_le_tally {i : ℕ} {k : Sect} {q : List Sect} {m : Bool}
    (hget : cfg.threads[i]? = some q) (hk : k ∈ q) (hopens : k.opens = some m) : 1 ≤ tally m cfg := by
  have hle := le_load (reservedOf m) hget hk
  have hone : opensOf m k = 1 := by rw [opensOf, hopens, one_self]
  simp only [reservedOf] at hle
  rw [tally]
  omega

theorem SwitchGuarded.modesExclude (hg : SwitchGuarded cfg) (hg' : SwitchGuarded cfg') :
    ModesExclude cfg l cfg' := by
  refine ⟨hg'.apart, ?_, ?_⟩
  · intro o id gen hfront
    obtain ⟨i, c, ks, rfl, hget⟩ := Label.of_front hfront
    have htally := one_le_tally (m := o.ssl) hget (List.mem_cons_self ..) rfl
    have hcovered := hg.covered o.ssl
    exact hg.confirmed o.ssl (by omega)
  · intro o hfront q hq k hk
    obtain ⟨i, c, ks, rfl, hget⟩ := Label.of_front hfront
    obtain ⟨-, hzero⟩ := hg.switching hget (List.mem_cons_self ..) rfl
    obtain ⟨j, hj⟩ := List.mem_iff_getElem?.mp hq
    cases hopens : k.opens with
    | none => rfl
    | some m =>
        have htally := one_le_tally hj hk hopens
        have hcovered := hg.covered m
        rw [hzero m] at hcovered
        omega

/-- In every interleaving TLS and plaintext sockets exclude each other. -/
theorem modes_exclude (ls : List Label) : Runs.Along program.step ModesExclude initial ls := by
  have hrun := switchGuarded_run ls
  apply hrun.mono (I := fun _ => True) _ trivial
  intro cfg l cfg' _ hg hstep
  exact ⟨trivial, hg.1.modesExclude hg.2⟩

end EspModemLink.Air780e
