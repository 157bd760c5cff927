import EspModemLink.Air780e.ModeSteps

/-!
# Sends and their acknowledgements

An acknowledgement names a connection id and no chunk, so `SendWait` keeps a count. A call that finds
the count at zero takes its chunk for acknowledged. That is right as long as every chunk that is
still to be acknowledged is counted.
-/

namespace EspModemLink.Air780e

open Sections Hal

/-! ## Counting what is outstanding -/

/-- Every outstanding call is counted, unless a failure has yet to be read. -/
def Counted (w : SendWait) (outstanding : List ℕ) : Prop :=
  w.failed = true ∨ outstanding.length ≤ w.pending

section

variable {w : SendWait} {outstanding : List ℕ} {call : ℕ}

/-- A call that begins is counted. It also clears a failure that was not read. -/
theorem Counted.arm (h : Counted w outstanding) (hfailed : w.failed = true → outstanding = []) :
    Counted { pending := w.pending + 1 } (call :: outstanding) := by
  right
  obtain hread | hle := h
  · rw [hfailed hread]
    exact Nat.succ_le_succ (Nat.zero_le _)
  · exact Nat.succ_le_succ hle

/-- The count goes down for a call that was outstanding, or where none is. -/
theorem Counted.answer (h : Counted w outstanding) (hcall : call ∈ outstanding ∨ outstanding = []) :
    Counted { w with pending := w.pending - 1 } (outstanding.filter (· ≠ call)) := by
  obtain hread | hle := h
  · exact .inl hread
  · right
    obtain hmem | rfl := hcall
    · have hlt : (outstanding.filter (· ≠ call)).length < outstanding.length :=
        List.length_filter_lt_length_iff_exists.mpr ⟨call, hmem, by simp⟩
      dsimp only
      omega
    · exact Nat.zero_le _

/-- The count is given up where nothing else is outstanding. -/
theorem Counted.reset (h : ∀ c ∈ outstanding, c = call) :
    Counted {} (outstanding.filter (· ≠ call)) := by
  right
  rw [List.filter_eq_nil_iff.mpr fun c hc => by simp [h c hc]]
  exact Nat.zero_le _

/-- At zero nothing is outstanding. -/
theorem Counted.eq_nil (h : Counted w outstanding) (hpending : w.pending = 0)
    (hfailed : ¬w.failed = true) : outstanding = [] := by
  obtain hread | hle := h
  · exact absurd hread hfailed
  · exact List.length_eq_zero_iff.mp (by omega)

end

/-! ## What the sections do to the counts -/

/-- The connection that a call is sending on, between its section that counts and its end. -/
def Sect.sends : Sect → Option Cid
  | .cipSend id _ | .refused id _ | .awaitSend id _ => some id
  | _ => none

/-- The acknowledgement that a line has yet to count. -/
def Sect.acknowledges : Sect → Option Cid
  | .sendOk id => some id
  | _ => none

/-- The sections that the counts depend on. -/
def Sect.forSends : Sect → Bool
  | .armSend .. | .clearSendWait _ | .sendFail _ => true
  | k => k.sends.isSome || k.acknowledges.isSome

/-- A section that neither sends nor acknowledges. -/
def Sect.silent (k : Sect) : Bool := k.sends.isNone && k.acknowledges.isNone

/-- Everything that a section can do to the counts. -/
inductive SendStep (s s' : Air780eHal) : Sect → List Sect → Prop where
  | quiet {k : Sect} {ks : List Sect} (forSends : k.forSends = false)
      (same : s'.sendWait = s.sendWait) (silent : ∀ k' ∈ ks, k'.silent = true) : SendStep s s' k ks
  | arm (id : Cid) (len : ℕ)
      (state : s' = s.setSendWait id { pending := (s.sendWait id).pending + 1 }) :
      SendStep s s' (.armSend id len) [.cipSend id len]
  | command (id : Cid) (len : ℕ) (k : Sect) (same : s'.sendWait = s.sendWait)
      (next : k.sends = some id ∧ k.acknowledges = none) : SendStep s s' (.cipSend id len) [k]
  | refuse (id : Cid) (e : AtError) (e' : NetworkError)
      (state : s' = s.setSendWait id
        { s.sendWait id with pending := (s.sendWait id).pending - 1 }) :
      SendStep s s' (.refused id e) [.returned (.done (.error e'))]
  | succeed (id : Cid) (len : ℕ) (n : Int) (pending : (s.sendWait id).pending = 0)
      (failed : ¬(s.sendWait id).failed = true) (state : s' = s.setSendWait id {}) :
      SendStep s s' (.awaitSend id len) [.returned (.done (.ok n))]
  | giveUp (id : Cid) (len : ℕ) (e : NetworkError)
      (failed : (s.sendWait id).failed = true ∨ (s.sendWait id).pending ≠ 0)
      (state : s' = s.setSendWait id {}) :
      SendStep s s' (.awaitSend id len) [.returned (.done (.error e))]
  | clear (id : Cid) (state : s' = s.setSendWait id {}) : SendStep s s' (.clearSendWait id) []
  | acknowledge (id : Cid)
      (state : s' = s.setSendWait id
        { s.sendWait id with pending := (s.sendWait id).pending - 1 }) :
      SendStep s s' (.sendOk id) []
  | fail (id : Cid) (state : s' = s.setSendWait id { pending := 0, failed := true }) :
      SendStep s s' (.sendFail id) []

section

variable {i : ℕ} {k : Sect} {c : Choice} {s s' : Air780eHal} {ks : List Sect}

theorem silent_of_passes (h : ks.all Sect.passes = true) : ks.all Sect.silent = true := by
  rw [List.all_eq_true] at h ⊢
  intro k hk
  have hpasses := h k hk
  cases k <;> first | rfl | cases hpasses

theorem silent_reserve {o : Opening} (h : s.reserve o = some (s', ks)) :
    s'.sendWait = s.sendWait ∧ ks.all Sect.silent = true := by
  unfold Air780eHal.reserve at h
  split at h
  · cases h
  · split at h
    · obtain ⟨rfl, rfl⟩ := Prod.mk.inj (Option.some.inj h)
      exact ⟨rfl, rfl⟩
    · split at h
      · obtain ⟨rfl, rfl⟩ := Prod.mk.inj (Option.some.inj h)
        exact ⟨rfl, rfl⟩
      · obtain ⟨rfl, rfl⟩ := Prod.mk.inj (Option.some.inj h)
        refine ⟨rfl, ?_⟩
        split <;> rfl

theorem silent_allocate {o : Opening} (h : s.allocate o = (s', ks)) :
    s'.sendWait = s.sendWait ∧ ks.all Sect.silent = true := by
  unfold Air780eHal.allocate at h
  split at h
  · obtain ⟨rfl, rfl⟩ := Prod.mk.inj h
    exact ⟨rfl, rfl⟩
  · split at h
    · obtain ⟨rfl, rfl⟩ := Prod.mk.inj h
      exact ⟨rfl, rfl⟩
    · obtain ⟨rfl, rfl⟩ := Prod.mk.inj h
      exact ⟨rfl, rfl⟩

theorem silent_retire {id : Cid} {releases : Bool} (h : s.retire id releases = (s', ks)) :
    s'.sendWait = s.sendWait ∧ ks.all Sect.silent = true := by
  unfold Air780eHal.retire at h
  split at h
  · obtain ⟨rfl, rfl⟩ := Prod.mk.inj h
    exact ⟨rfl, rfl⟩
  · rename_i owned pool hretire
    obtain ⟨rfl, rfl⟩ := Prod.mk.inj h
    refine ⟨rfl, ?_⟩
    cases releases <;> cases owned <;> rfl

theorem silent_sslSwitch {o : Opening} {r : AtResult Unit} {lines : List Bytes} {gen : ℕ}
    (h : s.sslSwitch o r lines gen = (s', ks)) :
    s'.sendWait = s.sendWait ∧ ks.all Sect.silent = true := by
  cases r <;>
  · obtain ⟨rfl, rfl⟩ := Prod.mk.inj h
    exact ⟨rfl, rfl⟩

theorem silent_endSwitch {o : Opening} {r : Result Unit} (h : s.endSwitch o r = (s', ks)) :
    s'.sendWait = s.sendWait ∧ ks.all Sect.silent = true := by
  cases r <;>
  · obtain ⟨rfl, rfl⟩ := Prod.mk.inj h
    exact ⟨rfl, rfl⟩

theorem silent_openResult (o : Opening) (id : Cid) (gen : ℕ) (outcome : OpenOutcome) :
    (Air780eHal.openResult o id gen outcome).all Sect.silent = true := by
  cases outcome <;> rfl

/-- A section that is not for sends leaves the counts alone, and leaves nothing that is. -/
theorem exec_silent (hk : k.forSends = false) (h : Air780eHal.exec i k c s = some (s', ks)) :
    s'.sendWait = s.sendWait ∧ ks.all Sect.silent = true := by
  cases k with
  | returned r =>
      obtain ⟨rfl, rfl | ⟨id, gen, rfl | rfl⟩⟩ := exec_returned h <;> exact ⟨rfl, rfl⟩
  | reserve o =>
      cases c with
      | go => exact silent_reserve h
      | _ => cases h
  | allocate o =>
      cases c with
      | go => exact silent_allocate (Option.some.inj h)
      | _ => cases h
  | retire id releases =>
      cases c with
      | go => exact silent_retire (Option.some.inj h)
      | _ => cases h
  | sslSwitch o =>
      cases c with
      | answer r lines gen => exact silent_sslSwitch (Option.some.inj h)
      | _ => cases h
  | endSwitch o r =>
      cases c with
      | go => exact silent_endSwitch (Option.some.inj h)
      | _ => cases h
  | _ =>
      first
        | (cases hk; done)
        | cases c
      all_goals first
        | (cases h; done)
        | (obtain ⟨rfl, rfl⟩ := Prod.mk.inj (Option.some.inj h); refine ⟨rfl, ?_⟩)
        -- the sections that wait, and those that call the routes in some order
        | (obtain ⟨-, h⟩ := Option.ite_none_right_eq_some.mp h
           obtain ⟨rfl, rfl⟩ := Prod.mk.inj (Option.some.inj h); refine ⟨rfl, ?_⟩)
        | (obtain ⟨-, h⟩ := Option.ite_none_left_eq_some.mp h
           obtain ⟨rfl, rfl⟩ := Prod.mk.inj (Option.some.inj h); refine ⟨rfl, ?_⟩)
        -- the commands that open and close
        | (rename_i r
           cases r <;> (obtain ⟨rfl, rfl⟩ := Prod.mk.inj (Option.some.inj h); refine ⟨rfl, ?_⟩))
      all_goals first
        | rfl
        | exact silent_openResult _ _ _ _
        | exact silent_of_passes (passes_drain s _ _)
        | exact silent_of_passes (passes_readReply s _ _ _)
        | exact silent_of_passes (passes_dispatchFrom _ _ _ _ _)
        | exact silent_of_passes (passes_finish s _)
        | exact silent_of_passes (passes_closeOk s _ _)
        | exact silent_of_passes (passes_notePeerClosed s _ _)
        | exact silent_of_passes (passes_subscribeTcp s _ 0)
        | exact silent_of_passes (passes_map _ (fun _ => rfl) _)
        | (split <;> rfl)

theorem exec_sendStep (h : Air780eHal.exec i k c s = some (s', ks)) : SendStep s s' k ks := by
  by_cases hk : k.forSends = false
  · obtain ⟨hsame, hsilent⟩ := exec_silent hk h
    exact .quiet hk hsame (List.all_eq_true.mp hsilent)
  · cases k with
    | armSend id len =>
        cases c with
        | go =>
            obtain ⟨rfl, rfl⟩ := Prod.mk.inj (Option.some.inj h)
            exact .arm id len rfl
        | _ => cases h
    | cipSend id len =>
        cases c with
        | answer r lines gen =>
            cases r <;>
            · obtain ⟨rfl, rfl⟩ := Prod.mk.inj (Option.some.inj h)
              exact .command id len _ rfl ⟨rfl, rfl⟩
        | _ => cases h
    | refused id e =>
        cases c with
        | go =>
            obtain ⟨rfl, rfl⟩ := Prod.mk.inj (Option.some.inj h)
            exact .refuse id e _ rfl
        | _ => cases h
    | awaitSend id len =>
        cases c with
        | go =>
            obtain ⟨hends, h⟩ := Option.ite_none_right_eq_some.mp h
            obtain ⟨rfl, rfl⟩ := Prod.mk.inj (Option.some.inj h)
            rw [Air780eHal.sendResult]
            by_cases hfailed : (s.sendWait id).failed = true
            · rw [if_pos hfailed]
              exact .giveUp id len _ (.inl hfailed) rfl
            · have hpending := hends.resolve_right hfailed
              rw [if_neg hfailed, if_pos hpending]
              exact .succeed id len _ hpending hfailed rfl
        | timeout =>
            obtain ⟨hends, h⟩ := Option.ite_none_left_eq_some.mp h
            obtain ⟨rfl, rfl⟩ := Prod.mk.inj (Option.some.inj h)
            obtain ⟨hpending, hfailed⟩ := not_or.mp hends
            rw [Air780eHal.sendResult, if_neg hfailed, if_neg hpending]
            exact .giveUp id len _ (.inr hpending) rfl
        | _ => cases h
    | clearSendWait id =>
        cases c with
        | go =>
            obtain ⟨rfl, rfl⟩ := Prod.mk.inj (Option.some.inj h)
            exact .clear id rfl
        | _ => cases h
    | sendOk id =>
        cases c with
        | go =>
            obtain ⟨rfl, rfl⟩ := Prod.mk.inj (Option.some.inj h)
            exact .acknowledge id rfl
        | _ => cases h
    | sendFail id =>
        cases c with
        | go =>
            obtain ⟨rfl, rfl⟩ := Prod.mk.inj (Option.some.inj h)
            exact .fail id rfl
        | _ => cases h
    | _ => exact absurd rfl hk

end

/-! ## The calls and the lines that answer them -/

/-- What a run records. A call is known by its thread, and a line that acknowledges carries the call
whose `AT+CIPSEND` it answers: for each thread of a line that call, the acknowledgements that the
module has emitted, and for each connection the counted calls that are not acknowledged yet. -/
structure Ledger where
  answering : ℕ → ℕ := fun _ => 0
  emitted : List (Cid × ℕ) := []
  outstanding : Cid → List ℕ := fun _ => []

namespace Ledger

def emit (m : Ledger) (thread call : ℕ) (line : Bytes) : Ledger :=
  { m with
    answering := Function.update m.answering thread call
    emitted := m.emitted ++
      (dispatchLine line call).filterMap fun k => k.acknowledges.map fun id => (id, call) }

def begin (m : Ledger) (id : Cid) (call : ℕ) : Ledger :=
  { m with outstanding := Function.update m.outstanding id (call :: m.outstanding id) }

/-- A call is acknowledged, or over. -/
def settle (m : Ledger) (id : Cid) (call : ℕ) : Ledger :=
  { m with
    outstanding := Function.update m.outstanding id ((m.outstanding id).filter (· ≠ call)) }

theorem settle_self (m : Ledger) (id : Cid) (call : ℕ) :
    (m.settle id call).outstanding id = (m.outstanding id).filter (· ≠ call) :=
  Function.update_self ..

theorem settle_of_ne (m : Ledger) {id id' : Cid} (h : id ≠ id') (call : ℕ) :
    (m.settle id' call).outstanding id = m.outstanding id :=
  Function.update_of_ne h _ _

/-- The record behind a section of thread `i`. -/
def after (m : Ledger) (i : ℕ) : Sect → Ledger
  | .armSend id _ => m.begin id i
  | .sendOk id => m.settle id (m.answering i)
  | .refused id _ | .awaitSend id _ => m.settle id i
  | _ => m

def watch (m : Ledger) (cfg : Config) (l : Label) (_ : Config) : Ledger :=
  match l with
  | .start (.line line call) => m.emit cfg.threads.length call line
  | .start _ => m
  | .run i c =>
      match (Label.run i c : Label).front cfg with
      | some k => m.after i k
      | none => m

/-- A section of thread `i` takes a count down only for the call that it is about, unless no call is
left that would miss it. -/
def Spares (m : Ledger) (s : Air780eHal) (i : ℕ) : Sect → Prop
  | .armSend id _ => (s.sendWait id).failed = true → m.outstanding id = []
  | .sendOk id => m.answering i ∈ m.outstanding id ∨ m.outstanding id = []
  | .refused id _ => i ∈ m.outstanding id ∨ m.outstanding id = []
  | .awaitSend id _ =>
      (s.sendWait id).failed = true ∨ (s.sendWait id).pending ≠ 0 → ∀ c ∈ m.outstanding id, c = i
  | .clearSendWait id => m.outstanding id = []
  | _ => True

def Orderly (m : Ledger) (cfg : Config) : Label → Prop
  | .start _ => True
  | .run i c => ∀ k ∈ (Label.run i c : Label).front cfg, m.Spares cfg.shared i k

instance (m : Ledger) (s : Air780eHal) (i : ℕ) (k : Sect) : Decidable (m.Spares s i k) := by
  unfold Spares
  split <;> infer_instance

instance (m : Ledger) (cfg : Config) (l : Label) : Decidable (m.Orderly cfg l) := by
  unfold Orderly
  split <;> infer_instance

/-- The call that a step returns `Ok` from, with its connection. -/
def sentBy (cfg : Config) (l : Label) (cfg' : Config) : Option (Cid × ℕ) :=
  match l with
  | .start _ => none
  | .run i c =>
      match (Label.run i c : Label).front cfg, (Label.run i c : Label).front cfg' with
      | some (.awaitSend id _), some (.returned (.done (.ok _))) => some (id, i)
      | _, _ => none

/-- A call that returns `Ok` was acknowledged by a line of its own. -/
def Earned (m : Ledger) (cfg : Config) (l : Label) (cfg' : Config) : Prop :=
  ∀ call ∈ sentBy cfg l cfg', call ∈ m.emitted

instance (m : Ledger) (cfg : Config) (l : Label) (cfg' : Config) :
    Decidable (m.Earned cfg l cfg') :=
  inferInstanceAs (Decidable (∀ call ∈ sentBy cfg l cfg', call ∈ m.emitted))

/-- Every call that is under way is outstanding or acknowledged, and the outstanding ones are
counted. -/
structure Sound (m : Ledger) (cfg : Config) : Prop where
  counted : ∀ id, Counted (cfg.shared.sendWait id) (m.outstanding id)
  front : ∀ (i : ℕ) (q : List Sect), cfg.threads[i]? = some q → ∀ k ∈ q.tail, k.sends = none
  sending : ∀ (i : ℕ) (q : List Sect), cfg.threads[i]? = some q → ∀ k ∈ q, ∀ id ∈ k.sends,
    i ∈ m.outstanding id ∨ (id, i) ∈ m.emitted
  acknowledging : ∀ (i : ℕ) (q : List Sect), cfg.threads[i]? = some q → ∀ k ∈ q,
    ∀ id ∈ k.acknowledges, (id, m.answering i) ∈ m.emitted

end Ledger

/-! ## New threads -/

/-- Nobody begins in the middle of a send. -/
theorem Entry.sends_sections (e : Entry) : ∀ k ∈ e.sections, k.sends = none := by
  cases e with
  | line l gen =>
      intro k hk
      have hline := ofLine_dispatchLine l gen k hk
      cases k <;> first | rfl | cases hline
  | closeConnection id | sendPayload id len =>
      cases hid : cid? id <;> simp [Entry.sections, hid, Sect.sends]
  | _ => simp [Entry.sections, Sect.sends]

/-- Only lines acknowledge. -/
theorem Entry.acknowledges_sections (e : Entry) :
    (∃ line call, e = .line line call) ∨ ∀ k ∈ e.sections, k.acknowledges = none := by
  cases e with
  | line l gen => exact .inl ⟨l, gen, rfl⟩
  | closeConnection id | sendPayload id len =>
      right
      cases hid : cid? id <;> simp [Entry.sections, hid, Sect.acknowledges]
  | _ => exact .inr (by simp [Entry.sections, Sect.acknowledges])

namespace Ledger

section

variable {m : Ledger} {cfg : Config} {e : Entry}

/-- A thread that begins with a line records what the line acknowledges, and any other changes
nothing. -/
theorem watch_start (m : Ledger) (cfg cfg' : Config) (e : Entry) :
    (m.watch cfg (.start e) cfg').outstanding = m.outstanding ∧
      m.emitted ⊆ (m.watch cfg (.start e) cfg').emitted ∧
      (∀ i < cfg.threads.length, (m.watch cfg (.start e) cfg').answering i = m.answering i) ∧
      ∀ k ∈ e.sections, ∀ id ∈ k.acknowledges,
        (id, (m.watch cfg (.start e) cfg').answering cfg.threads.length) ∈
          (m.watch cfg (.start e) cfg').emitted := by
  obtain ⟨line, call, rfl⟩ | hnone := e.acknowledges_sections
  · refine ⟨rfl, List.subset_append_left _ _, ?_, ?_⟩
    · intro i hi
      exact Function.update_of_ne (Nat.ne_of_lt hi) _ _
    · intro k hk id hid
      apply List.mem_append_right
      refine List.mem_filterMap.mpr ⟨k, hk, ?_⟩
      have hcall : Function.update m.answering cfg.threads.length call cfg.threads.length = call :=
        Function.update_self ..
      rw [Option.mem_def.mp hid, Option.map_some]
      exact congrArg some (Prod.ext rfl hcall.symm)
  · have hno : ∀ k ∈ e.sections, ∀ id ∈ k.acknowledges, False := by
      intro k hk id hid
      rw [hnone k hk] at hid
      cases hid
    cases e with
    | line line call =>
        refine ⟨rfl, List.subset_append_left _ _, fun i hi => ?_, fun k hk id hid => (hno k hk id hid).elim⟩
        exact Function.update_of_ne (Nat.ne_of_lt hi) _ _
    | _ => exact ⟨rfl, List.Subset.refl _, fun _ _ => rfl, fun k hk id hid => (hno k hk id hid).elim⟩

/-- A new thread is not in the middle of a send, and its acknowledgements have been emitted. -/
theorem Sound.start (h : m.Sound cfg) (e : Entry) (cfg' : Config) :
    (m.watch cfg (.start e) cfg').Sound ⟨cfg.shared, cfg.threads ++ [e.sections]⟩ := by
  obtain ⟨houtstanding, hemitted, hanswering, hnew⟩ := watch_start m cfg cfg' e
  have hthread : ∀ {i : ℕ} {q : List Sect}, (cfg.threads ++ [e.sections])[i]? = some q →
      (i < cfg.threads.length ∧ cfg.threads[i]? = some q) ∨
        (i = cfg.threads.length ∧ q = e.sections) := by
    intro i q hq
    obtain hlt | hge := Nat.lt_or_ge i cfg.threads.length
    · rw [List.getElem?_append_left hlt] at hq
      exact .inl ⟨hlt, hq⟩
    · rw [List.getElem?_append_right hge] at hq
      obtain ⟨hi, rfl⟩ := List.getElem?_eq_some_iff.mp hq
      rw [List.length_singleton] at hi
      exact .inr ⟨by omega, List.getElem_singleton ..⟩
  constructor
  · rw [houtstanding]
    exact h.counted
  · intro i q hq
    obtain ⟨-, hq⟩ | ⟨-, rfl⟩ := hthread hq
    · exact h.front i q hq
    · exact fun k hk => e.sends_sections k (List.mem_of_mem_tail hk)
  · intro i q hq k hk id hid
    obtain ⟨-, hq⟩ | ⟨-, rfl⟩ := hthread hq
    · rw [houtstanding]
      exact (h.sending i q hq k hk id hid).imp_right fun hmem => hemitted hmem
    · rw [e.sends_sections k hk] at hid
      cases hid
  · intro i q hq k hk id hid
    obtain ⟨hi, hq⟩ | ⟨rfl, rfl⟩ := hthread hq
    · rw [hanswering i hi]
      exact hemitted (h.acknowledging i q hq k hk id hid)
    · exact hnew k hk id hid

/-! ## Sections -/

variable {i : ℕ} {k : Sect} {s s' : Air780eHal} {ks rest : List Sect}

@[simp] theorem emitted_after (m : Ledger) (i : ℕ) (k : Sect) : (m.after i k).emitted = m.emitted := by
  cases k <;> rfl

@[simp] theorem answering_after (m : Ledger) (i : ℕ) (k : Sect) :
    (m.after i k).answering = m.answering := by
  cases k <;> rfl

/-- What is left behind a section sends only as a continuation, and acknowledges nothing. -/
theorem sends_of_step (h : SendStep s s' k ks) : ∀ k' ∈ ks, k'.acknowledges = none ∧
    ∀ id ∈ k'.sends, (∃ len, k = .armSend id len) ∨ k.sends = some id ∧ ∀ m i, after m i k = m := by
  cases h with
  | quiet forSends same silent =>
      intro k' hk'
      have hsilent := silent k' hk'
      simp only [Sect.silent, Bool.and_eq_true, Option.isNone_iff_eq_none] at hsilent
      rw [hsilent.1]
      exact ⟨hsilent.2, nofun⟩
  | arm id len state =>
      simp only [List.mem_singleton, forall_eq]
      refine ⟨rfl, fun id' hid => .inl ⟨len, ?_⟩⟩
      rw [Option.some.inj hid]
  | command id len k' same next =>
      simp only [List.mem_singleton, forall_eq]
      refine ⟨next.2, fun id' hid => .inr ⟨?_, fun _ _ => rfl⟩⟩
      rw [next.1] at hid
      exact hid
  | refuse id e e' state => simp [Sect.acknowledges, Sect.sends]
  | succeed id len n pending failed state => simp [Sect.acknowledges, Sect.sends]
  | giveUp id len e failed state => simp [Sect.acknowledges, Sect.sends]
  | clear id state => simp
  | acknowledge id state => simp
  | fail id state => simp

theorem sends_tail_of_step (h : SendStep s s' k ks) : ∀ k' ∈ ks.tail, k'.sends = none := by
  cases h with
  | quiet forSends same silent =>
      intro k' hk'
      have hsilent := silent k' (List.mem_of_mem_tail hk')
      simp only [Sect.silent, Bool.and_eq_true, Option.isNone_iff_eq_none] at hsilent
      exact hsilent.1
  | _ => simp

/-- A call stays outstanding until it is over or acknowledged. -/
theorem mem_outstanding_after {id : Cid} {call : ℕ} (h : call ∈ m.outstanding id) :
    call ∈ (m.after i k).outstanding id ∨ call = i ∨
      (k.acknowledges = some id ∧ call = m.answering i) := by
  have hsettle : ∀ (id' : Cid) (c : ℕ),
      call ∈ (m.settle id' c).outstanding id ∨ (id = id' ∧ call = c) := by
    intro id' c
    by_cases hid : id = id'
    · subst hid
      by_cases hc : call = c
      · exact .inr ⟨rfl, hc⟩
      · left
        rw [settle_self]
        exact List.mem_filter.mpr ⟨h, by simpa using hc⟩
    · left
      rw [settle_of_ne m hid]
      exact h
  cases k with
  | armSend id' len =>
      left
      change call ∈ Function.update m.outstanding id' (i :: m.outstanding id') id
      by_cases hid : id = id'
      · subst hid
        rw [Function.update_self]
        exact List.mem_cons_of_mem _ h
      · rw [Function.update_of_ne hid]
        exact h
  | sendOk id' =>
      obtain hmem | ⟨rfl, hc⟩ := hsettle id' (m.answering i)
      · exact .inl hmem
      · exact .inr (.inr ⟨rfl, hc⟩)
  | refused id' e =>
      obtain hmem | ⟨-, hc⟩ := hsettle id' i
      · exact .inl hmem
      · exact .inr (.inl hc)
  | awaitSend id' len =>
      obtain hmem | ⟨-, hc⟩ := hsettle id' i
      · exact .inl hmem
      · exact .inr (.inl hc)
  | _ => exact .inl h

/-- What changes for one connection leaves the others alone. -/
theorem counted_update (h : ∀ id, Counted (s.sendWait id) (m.outstanding id)) {id : Cid}
    {w : SendWait} {outstanding : List ℕ} (hid : Counted w outstanding) :
    ∀ id', Counted ((s.setSendWait id w).sendWait id')
      (Function.update m.outstanding id outstanding id') := by
  intro id'
  change Counted (Function.update s.sendWait id w id') _
  by_cases hsame : id' = id
  · subst hsame
    rw [Function.update_self, Function.update_self]
    exact hid
  · rw [Function.update_of_ne hsame, Function.update_of_ne hsame]
    exact h id'

/-- The outstanding calls stay counted. -/
theorem counted_after (h : ∀ id, Counted (s.sendWait id) (m.outstanding id))
    (hspares : m.Spares s i k) (hstep : SendStep s s' k ks) :
    ∀ id, Counted (s'.sendWait id) ((m.after i k).outstanding id) := by
  cases hstep with
  | quiet forSends same silent =>
      have hafter : m.after i k = m := by
        cases k <;> first | rfl | cases forSends
      rw [hafter, same]
      exact h
  | arm id len state => exact state ▸ counted_update h ((h id).arm hspares)
  | command id len k' same next =>
      rw [same]
      exact h
  | refuse id e e' state => exact state ▸ counted_update h ((h id).answer hspares)
  | succeed id len n pending failed state =>
      have hnone := (h id).eq_nil pending failed
      have hreset : Counted {} ((m.outstanding id).filter (· ≠ i)) :=
        Counted.reset (by rw [hnone]; simp)
      exact state ▸ counted_update h hreset
  | giveUp id len e failed state =>
      exact state ▸ counted_update h (Counted.reset (hspares failed))
  | clear id state =>
      have hnone : m.outstanding id = [] := hspares
      have hsame : Function.update m.outstanding id (m.outstanding id) = m.outstanding :=
        Function.update_eq_self id m.outstanding
      rw [state]
      change ∀ id', Counted ((s.setSendWait id {}).sendWait id') (m.outstanding id')
      rw [← hsame]
      exact counted_update h (.inr (by rw [hnone]; exact Nat.le_refl 0))
  | acknowledge id state => exact state ▸ counted_update h ((h id).answer hspares)
  | fail id state =>
      have hsame : Function.update m.outstanding id (m.outstanding id) = m.outstanding :=
        Function.update_eq_self id m.outstanding
      rw [state]
      change ∀ id', Counted ((s.setSendWait id _).sendWait id') (m.outstanding id')
      rw [← hsame]
      exact counted_update h (.inl rfl)

/-- A section that spares the other calls keeps the record sound. -/
theorem Sound.run (h : m.Sound cfg) (hget : cfg.threads[i]? = some (k :: rest))
    (hspares : m.Spares cfg.shared i k) (hstep : SendStep cfg.shared s' k ks) :
    (m.after i k).Sound ⟨s', cfg.threads.set i (ks ++ rest)⟩ := by
  have hi : i < cfg.threads.length := (List.getElem?_eq_some_iff.mp hget).1
  have hrest : ∀ k' ∈ rest, k'.sends = none := h.front i _ hget
  have hthread : ∀ {j : ℕ} {q : List Sect}, (cfg.threads.set i (ks ++ rest))[j]? = some q →
      (j = i ∧ q = ks ++ rest) ∨ (j ≠ i ∧ cfg.threads[j]? = some q) := by
    intro j q hq
    by_cases hji : i = j
    · subst hji
      rw [List.getElem?_set_self hi] at hq
      exact .inl ⟨rfl, (Option.some.inj hq).symm⟩
    · rw [List.getElem?_set_ne hji] at hq
      exact .inr ⟨fun hj => hji hj.symm, hq⟩
  constructor
  · exact counted_after h.counted hspares hstep
  · intro j q hq k' hk'
    obtain ⟨rfl, rfl⟩ | ⟨-, hq⟩ := hthread hq
    · cases ks with
      | nil => exact hrest k' (List.mem_of_mem_tail hk')
      | cons x ks =>
          obtain hk' | hk' := List.mem_append.mp hk'
          · exact sends_tail_of_step hstep k' hk'
          · exact hrest k' hk'
    · exact h.front j q hq k' hk'
  · intro j q hq k' hk' id hid
    rw [emitted_after]
    obtain ⟨rfl, rfl⟩ | ⟨hji, hq⟩ := hthread hq
    · obtain hk' | hk' := List.mem_append.mp hk'
      · obtain ⟨len, rfl⟩ | ⟨hsends, hafter⟩ := (sends_of_step hstep k' hk').2 id hid
        · left
          change j ∈ Function.update m.outstanding id (j :: m.outstanding id) id
          rw [Function.update_self]
          exact List.mem_cons_self ..
        · rw [hafter]
          exact h.sending j _ hget k (List.mem_cons_self ..) id hsends
      · rw [hrest k' hk'] at hid
        cases hid
    · obtain hcall | hcall := h.sending j q hq k' hk' id hid
      · obtain hmem | rfl | ⟨hacknowledges, rfl⟩ := mem_outstanding_after (i := i) (k := k) hcall
        · exact .inl hmem
        · exact absurd rfl hji
        · exact .inr (h.acknowledging i _ hget k (List.mem_cons_self ..) id hacknowledges)
      · exact .inr hcall
  · intro j q hq k' hk' id hid
    rw [emitted_after, answering_after]
    obtain ⟨rfl, rfl⟩ | ⟨-, hq⟩ := hthread hq
    · obtain hk' | hk' := List.mem_append.mp hk'
      · rw [(sends_of_step hstep k' hk').1] at hid
        cases hid
      · exact h.acknowledging j _ hget k' (List.mem_cons_of_mem _ hk') id hid
    · exact h.acknowledging j q hq k' hk' id hid

/-- Where the count is zero, the call that ends has been acknowledged. -/
theorem Sound.earned (h : m.Sound cfg) (hget : cfg.threads[i]? = some (k :: rest))
    (hstep : SendStep cfg.shared s' k ks) (c : Choice) :
    m.Earned cfg (.run i c) ⟨s', cfg.threads.set i (ks ++ rest)⟩ := by
  have hi : i < cfg.threads.length := (List.getElem?_eq_some_iff.mp hget).1
  have hfront : (Label.run i c : Label).front cfg = some k := Label.front_run hget c
  have hfront' : (Label.run i c : Label).front
      (⟨s', cfg.threads.set i (ks ++ rest)⟩ : Config) = (ks ++ rest).head? := by
    simp [Label.front, List.getElem?_set_self hi]
  intro call hcall
  rw [sentBy, hfront, hfront'] at hcall
  cases hstep with
  | succeed id len n pending failed state =>
      obtain rfl := Option.some.inj hcall
      have hnone := (h.counted id).eq_nil pending failed
      obtain hmem | hemitted := h.sending i _ hget _ (List.mem_cons_self ..) id rfl
      · rw [hnone] at hmem
        cases hmem
      · exact hemitted
  | giveUp id len e failed state => cases hcall
  | quiet forSends same silent =>
      cases k <;> first | cases hcall | cases forSends
  | _ => cases hcall

/-- A sound record keeps sound, and the call that returns `Ok` was acknowledged. -/
theorem Sound.step (h : m.Sound cfg) {l : Label} {cfg' : Config} (horderly : m.Orderly cfg l)
    (hstep : program.step cfg l = some cfg') :
    (m.watch cfg l cfg').Sound cfg' ∧ m.Earned cfg l cfg' := by
  obtain ⟨e, s', q, rfl, hentry, rfl⟩ | ⟨i, c, k, rest, s', ks, rfl, hget, hexec, rfl⟩ :=
    Program.step_cases hstep
  · obtain ⟨rfl, rfl⟩ := Prod.mk.inj (Option.some.inj hentry)
    exact ⟨h.start e _, nofun⟩
  · have hfront : (Label.run i c : Label).front cfg = some k := Label.front_run hget c
    have hsend : SendStep cfg.shared s' k ks := exec_sendStep (i := i) hexec
    have hspares : m.Spares cfg.shared i k := horderly k hfront
    constructor
    · rw [watch, hfront]
      exact h.run hget hspares hsend
    · exact h.earned hget hsend c

end

end Ledger

open Ledger in
/-- In a run whose sections spare the calls that are still to be acknowledged, every send that
returns `Ok` was acknowledged by a line of its own. -/
theorem ok_acknowledged {ls : List Label}
    (h : Runs.Along (Runs.monitored program.step watch) (fun ms l _ => ms.1.Orderly ms.2 l)
      ({}, initial) ls) :
    Runs.Along (Runs.monitored program.step watch) (fun ms l ms' => ms.1.Earned ms.2 l ms'.2)
      ({}, initial) ls := by
  apply h.mono (I := fun ms => ms.1.Sound ms.2)
  · intro ms l ms' hsound horderly hstep
    obtain ⟨hstep, hwatch⟩ := Runs.monitored_eq_some.mp hstep
    rw [hwatch]
    exact hsound.step horderly hstep
  · exact ⟨fun _ => .inr (Nat.le_refl 0), nofun, nofun, nofun⟩

/-- A chunk for connection 0, and the line that acknowledges it. -/
def acknowledgedRun : List Label :=
  [.start (.sendPayload 0 5), .run 0 .go, .run 0 (.answer (.ok ()) [] 0),
    .start (.line (ascii ['0', ',', ' ', 'S', 'E', 'N', 'D', ' ', 'O', 'K']) 0), .run 1 .go,
    .run 0 .go]

theorem ok_acknowledged_once :
    Runs.Along (Runs.monitored program.step Ledger.watch)
      (fun ms l ms' => ms.1.Earned ms.2 l ms'.2) ({}, initial) acknowledgedRun :=
  ok_acknowledged (by decide +kernel)

/-- The acknowledgement of a chunk that timed out comes while the next chunk is waiting for its own. -/
def lateRun : List Label :=
  [.start (.sendPayload 0 5), .run 0 .go, .run 0 (.answer (.ok ()) [] 0), .run 0 .timeout,
    .start (.sendPayload 0 7), .run 1 .go, .run 1 (.answer (.ok ()) [] 0),
    .start (.line (ascii ['0', ',', ' ', 'S', 'E', 'N', 'D', ' ', 'O', 'K']) 0), .run 2 .go,
    .run 1 .go]

theorem late_acknowledgement_counts :
    ¬∀ ls : List Label, Runs.Along (Runs.monitored program.step Ledger.watch)
      (fun ms l ms' => ms.1.Earned ms.2 l ms'.2) ({}, initial) ls := by
  intro h
  exact absurd (h lateRun) (by decide +kernel)

end EspModemLink.Air780e
