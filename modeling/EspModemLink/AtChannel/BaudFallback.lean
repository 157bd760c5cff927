import EspModemLink.AtChannel.BaudAlignment

/-!
# Falling back to the rate of the start

A change that was applied and never confirmed is taken back, and the search behind it looks for the
module from the desired rate on. The rate that the pair came from is none of its candidates unless
it is built in.
-/

namespace EspModemLink.AtChannel

open Bytes

/-- A call ends with both ends at a rate, and says so. -/
def LandsAt (rate : Int) (o : AtResult Int × Link) : Prop :=
  o.1 = .ok rate ∧ o.2.host = rate ∧ o.2.live = rate

theorem foundRate_of_reportsRate {lines : List Bytes} {rate : Int}
    (h : reportsRate lines rate = true) (hpos : 0 < rate) : foundRate lines rate = rate := by
  unfold reportsRate at h
  cases hline : findIprLine lines with
  | none => simp [hline] at h
  | some now =>
      have hparse : parseRate now = some rate := by simpa [hline] using h
      simp [foundRate, hline, hparse, hpos]

/-- The rate of the start is searched if and only if it is one of the two built in. -/
theorem mem_baudRateCandidates_iff {current desired : Int} (hpos : 0 < current)
    (hne : current ≠ desired) :
    current ∈ baudRateCandidates desired ↔
      current = kHighestKnownRate ∨ current = kFactoryRate := by
  rw [baudRateCandidates, mem_addCandidates]
  simp [hpos, hne]

namespace Module

variable (m : Module)

/-- At `current` an honest module lists `desired`, applies the write of it, loses the probes behind
it, applies the write that takes it back, and reports its rate where it is then asked. The host can
be moved to either rate. -/
structure Unconfirmed (current desired : Int) : Prop where
  rates : 0 < current ∧ 0 < desired ∧ current ≠ desired
  follows : m.follows current = true ∧ m.follows desired = true
  lists : (m.react 0 Command.listRates.text).result = .ok () ∧
    accepts (m.react 0 Command.listRates.text).lines desired = true
  applies : (m.react 1 (Command.setRate desired).text).applies = true
  deaf : ∀ k < kConfirmAttempts, (m.react (2 + k) Command.queryRate.text).result ≠ .ok ()
  reverts : (m.react 6 (Command.setRate current).text).applies = true
  reports : (m.react 7 Command.queryRate.text).result = .ok () ∧
    reportsRate (m.react 7 Command.queryRate.text).lines current = true

variable {m} {current desired : Int}

/-- None of the probes confirms the desired rate. -/
theorem Unconfirmed.confirm_eq (h : m.Unconfirmed current desired) {l : Link}
    (halign : l.host = l.live) (hheard : l.heard = 2) :
    ∃ lines, m.confirm desired kConfirmAttempts l = (false, { l with heard := 6, lines := lines }) := by
  obtain ⟨⟨k, hk, hconfirms⟩, -⟩ | ⟨-, lines, heq⟩ :=
    m.confirm_heard halign desired kConfirmAttempts
  · rw [hheard] at hconfirms
    exact absurd hconfirms.1 (h.deaf k hk)
  · rw [hheard] at heq
    exact ⟨lines, heq⟩

/-- A write that the module applies moves it to the rate written. -/
theorem sendCommand_applied {l : Link} (halign : l.host = l.live) {rate : Int}
    (happlies : (m.reaction l (.setRate rate)).applies = true) :
    m.sendCommand (.setRate rate) l =
      (.ok (), { l with
        live := rate, heard := l.heard + 1, lines := (m.reaction l (.setRate rate)).lines }) := by
  have hanswer : (m.reaction l (.setRate rate)).answer (.setRate rate) = .ok () := by
    simp [Reaction.answer, happlies]
  rw [sendCommand, if_pos halign]
  simp only [hanswer]
  simp [Link.hear, Reaction.liveAfter, happlies]

/-- From the write on the call comes to the revert with both ends at the desired rate. -/
theorem Unconfirmed.writeRate_eq (h : m.Unconfirmed current desired) {l : Link}
    (halign : l.host = l.live) (hheard : l.heard = 1) :
    ∃ l' : Link, l'.host = desired ∧ l'.live = desired ∧ l'.heard = 6 ∧
      m.writeRate current desired l = m.searchAgain current desired l' := by
  have happlies : (m.reaction l (.setRate desired)).applies = true := by
    rw [reaction, hheard]
    exact h.applies
  let moved : Link :=
    { host := desired, live := desired, heard := l.heard + 1
      lines := (m.reaction l (.setRate desired)).lines }
  obtain ⟨lines, hconfirm⟩ := h.confirm_eq (l := moved) rfl (congrArg (· + 1) hheard)
  refine ⟨{ moved with heard := 6, lines := lines }, rfl, rfl, rfl, ?_⟩
  simp only [writeRate, sendCommand_applied halign happlies, setBaudRate, h.follows.2, if_true,
    confirmOrSearch]
  rw [hconfirm]

theorem Unconfirmed.setModuleBaudRate_eq (h : m.Unconfirmed current desired) (lines : List Bytes) :
    ∃ l : Link, l.host = desired ∧ l.live = desired ∧ l.heard = 6 ∧
      m.setModuleBaudRate desired (aligned current lines) = m.searchAgain current desired l := by
  obtain ⟨hcurrent, hdesired, hne⟩ := h.rates
  have hguard : ¬(desired ≤ 0 ∨ (aligned current lines).host ≤ 0) := by
    change ¬(desired ≤ 0 ∨ current ≤ 0)
    omega
  have hlist := m.queryLines_ok (l := aligned current lines) rfl (c := .listRates) h.lists.1
  have haccepts : accepts (m.reaction (aligned current lines) .listRates).lines desired = true :=
    h.lists.2
  have hdiffer : ¬(aligned current lines).host = desired := hne
  rw [setModuleBaudRate]
  simp only [if_neg hguard, if_neg hdiffer, hlist, haccepts, if_true]
  exact h.writeRate_eq rfl rfl

/-- The search finds the module where it went back to, if it looks there. -/
theorem Unconfirmed.searchAgain_landsAt_iff (h : m.Unconfirmed current desired) {l : Link}
    (hhost : l.host = desired) (hlive : l.live = desired) (hheard : l.heard = 6) :
    LandsAt current (m.searchAgain current desired l) ↔
      current = kHighestKnownRate ∨ current = kFactoryRate := by
  obtain ⟨hcurrent, hdesired, hne⟩ := h.rates
  have happlies : (m.reaction l (.setRate current)).applies = true := by
    rw [reaction, hheard]
    exact h.reverts
  -- the module is back, and the host is not
  obtain ⟨back, hrevert, hbackHost, hbackLive, hbackHeard⟩ : ∃ back : Link,
      (m.sendCommand (.setRate current) l).2 = back ∧ back.host = desired ∧ back.live = current ∧
        back.heard = 7 := by
    rw [sendCommand_applied (hhost.trans hlive.symm) happlies]
    exact ⟨_, rfl, hhost, rfl, congrArg (· + 1) hheard⟩
  have hentry : ¬back.host ≤ 0 := by omega
  rw [← mem_baudRateCandidates_iff hcurrent hne, searchAgain, hrevert]
  simp only [findModuleBaudRate, if_neg hentry]
  rw [hbackHost]
  by_cases hmem : current ∈ baudRateCandidates desired
  · refine iff_of_true ?_ hmem
    have hfound : foundRate (m.reaction back .queryRate).lines back.live = current := by
      rw [reaction, hbackHeard, hbackLive]
      exact foundRate_of_reportsRate h.reports.2 hcurrent
    obtain ⟨-, l', heq, hhost', hlive'⟩ | ⟨hdeaf, -⟩ :=
      m.probeCandidates_met [] (l := back) (baudRateCandidates_nodup desired)
        (hbackLive ▸ hcurrent) (by simp) (hbackLive ▸ hmem)
        (fun hsame => absurd (hbackLive.symm.trans (hsame.symm.trans hbackHost)) hne)
    · rw [hfound] at heq
      rw [hbackLive] at hhost' hlive'
      simp only [heq, moveHostTo, if_pos hhost']
      exact ⟨rfl, hhost', hlive'⟩
    · refine absurd ⟨.inr ?_, ?_⟩ hdeaf
      · rw [hbackLive]
        exact h.follows.1
      · rw [reaction, hbackHeard]
        exact h.reports.1
  · refine iff_of_false ?_ hmem
    obtain ⟨tried, l', heq⟩ := m.probeCandidates_missed [] (l := back) (hbackLive ▸ hmem)
    simp only [heq]
    intro hlands
    exact absurd hlands.1 (by simp)

/-- The call falls back to the rate of the start if and only if that rate is one of the two built
in. -/
theorem fallsBack_iff (h : m.Unconfirmed current desired) (lines : List Bytes) :
    LandsAt current (m.setModuleBaudRate desired (aligned current lines)) ↔
      current = kHighestKnownRate ∨ current = kFactoryRate := by
  obtain ⟨l, hhost, hlive, hheard, heq⟩ := h.setModuleBaudRate_eq lines
  rw [heq]
  exact h.searchAgain_landsAt_iff hhost hlive hheard

/-- A module that applies every write it hears, loses the four probes behind the first one, and
reports `rate` afterwards. -/
def losesProbes (rate : Int) : Module where
  react n _ :=
    match n with
    | 0 => { lines := [iprKey ++ ascii [':', ' ', '('] ++ decimalInt 57600 ++ ascii [','] ++
        decimalInt 115200 ++ ascii [','] ++ decimalInt 921600 ++ ascii [')']] }
    | 1 | 6 => { applies := true }
    | 7 => { lines := [iprKey ++ ascii [':', ' '] ++ decimalInt rate] }
    | _ => { result := timedOut "" }
  follows _ := true

theorem losesProbes_deaf (rate : Int) (k : ℕ) (hk : k < kConfirmAttempts) :
    ((losesProbes rate).react (2 + k) Command.queryRate.text).result ≠ .ok () := by
  have hcases : k = 0 ∨ k = 1 ∨ k = 2 ∨ k = 3 := by
    unfold kConfirmAttempts at hk
    omega
  rcases hcases with rfl | rfl | rfl | rfl
  all_goals exact nofun

theorem fallsBack_iff_factory :
    LandsAt 115200 ((losesProbes 115200).setModuleBaudRate 921600 (aligned 115200 [])) :=
  have h : (losesProbes 115200).Unconfirmed 115200 921600 :=
    { rates := by decide
      follows := ⟨rfl, rfl⟩
      lists := ⟨rfl, by decide⟩
      applies := rfl
      deaf := losesProbes_deaf 115200
      reverts := rfl
      reports := ⟨rfl, by decide⟩ }
  (fallsBack_iff h []).mpr (.inr rfl)

/-- A module that came from 57600 is not found again, and the call returns an error. -/
theorem lost_behind_revert :
    ¬∀ (m : Module) (current desired : Int) (lines : List Bytes), m.Unconfirmed current desired →
      LandsAt current (m.setModuleBaudRate desired (aligned current lines)) := by
  intro h
  have hunconfirmed : (losesProbes 57600).Unconfirmed 57600 921600 :=
    { rates := by decide
      follows := ⟨rfl, rfl⟩
      lists := ⟨rfl, by decide⟩
      applies := rfl
      deaf := losesProbes_deaf 57600
      reverts := rfl
      reports := ⟨rfl, by decide⟩ }
  have hhost := (h _ _ _ [] hunconfirmed).2.1
  exact absurd hhost (by decide +kernel)

end Module

end EspModemLink.AtChannel
