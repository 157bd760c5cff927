import EspModemLink.AtChannel.RateChange
import EspModemLink.Device.Registry

/-!
# Bringing a device up

`Detect` and `Create` of `CellularDevice` over a channel that is open: the rate is settled, the module
is identified, the rate is settled again, and the driver initializes it. Until a module has named
itself as one of the registered ones, `Detect` writes nothing.
-/

namespace EspModemLink.Device

open AtChannel Bytes Transcript

/-- `CellularDevice`, which has its driver and the network over it. -/
structure CellularDevice (σ : Type) where
  hal : ModuleHal σ

section

variable {σ : Type} (port : Port σ)

def alignBeforeIdentify : StateM σ Int := do
  let requested := port.getBaudRate (← get)
  if 0 < requested then
    let _ ← port.findModuleBaudRate (baudRateCandidates requested)
    return requested
  else return requested

def alignAfterIdentify (requested : Int) : HalM σ Unit :=
  if requested ≤ 0 then return ()
  else do
    match ← port.setModuleBaudRate requested with
    | .error e => throw e.toNetworkError
    | .ok _ => return ()

def assemble (hal : ModuleHal σ) : HalM σ (CellularDevice σ) := do
  hal.initializeHal
  return ⟨hal⟩

def bringUp (identify : HalM σ (ModuleHal σ)) : HalM σ (CellularDevice σ) := do
  let requested ← alignBeforeIdentify port
  let hal ← identify
  alignAfterIdentify port requested
  assemble hal

def detect (drivers : List Driver) : HalM σ (CellularDevice σ) :=
  bringUp port (detectModule (registry port drivers))

def create (type : ModuleType) (drivers : List Driver) : HalM σ (CellularDevice σ) :=
  bringUp port fun s => (createModule type (registry port drivers), s)

end

/-! ## Probing -/

/-- What a probe for a mark leaves on the transcript, and whether it recognised the module. -/
inductive Probe (mark : Bytes) : Bool → List Exchange → Prop
  | silent {rate : Int} {e : AtError} {lines : List Bytes} :
      Probe mark false [.command rate atLine kProbeTimeout (.error e) lines]
  | unnamed {rate : Int} {lines : List Bytes} {rate' : Int} {e : AtError} {lines' : List Bytes} :
      Probe mark false [.command rate atLine kProbeTimeout (.ok ()) lines,
        .command rate' cgmrLine kProbeTimeout (.error e) lines']
  | named {rate : Int} {lines : List Bytes} {rate' : Int} {lines' : List Bytes} :
      Probe mark (carries mark lines') [.command rate atLine kProbeTimeout (.ok ()) lines,
        .command rate' cgmrLine kProbeTimeout (.ok ()) lines']

/-- The probes for some drivers, up to the one that recognised the module. -/
inductive Probes : List Driver → Option Driver → List Exchange → Prop
  | none : Probes [] none []
  | recognised {driver : Driver} {rest : List Driver} {es : List Exchange}
      (h : Probe driver.mark true es) : Probes (driver :: rest) (some driver) es
  | next {driver : Driver} {rest : List Driver} {es more : List Exchange} {found : Option Driver}
      (h : Probe driver.mark false es) (hrest : Probes rest found more) :
      Probes (driver :: rest) found (es ++ more)

variable {σ : Type} (port : Port σ)

theorem adds_detectBy (mark : Bytes) (s : σ) :
    Adds (detectBy port.transcribed mark) s fun found _ es => Probe mark found es := by
  refine (port.adds_sendCommand _ _ s).bind ?_
  rintro sent s₁ _ ⟨-, rfl⟩
  cases sent with
  | error e => exact .pure .silent
  | ok =>
      refine (port.adds_sendCommand _ _ s₁).bind ?_
      rintro sent s₂ _ ⟨-, rfl⟩
      cases sent with
      | error e => exact .pure .unnamed
      | ok =>
          refine (adds_get s₂).bind ?_
          rintro ⟨s₃, log⟩ s' _ ⟨hs, -, rfl⟩
          obtain rfl : s₂ = s₃ := hs.symm
          exact .pure .named

/-- What a caller learns of a device: which module it is. -/
def typeOf (result : Result (CellularDevice σ)) : Result ModuleType :=
  result.map fun device => device.hal.moduleType

def noneDetected : NetworkError := ⟨.kNotSupported, 0, "no compatible module detected"⟩

/-- The drivers' probes decide, in the order of the registry. -/
theorem adds_detectModule (drivers : List Driver) (s : σ) :
    Adds (detectModule (registry port.transcribed drivers)) s fun r _ es =>
      (r = .error noneDetected ∧ Probes drivers none es) ∨
        ∃ driver, r = .ok (driver.hal port.transcribed) ∧ Probes drivers (some driver) es := by
  induction drivers generalizing s with
  | nil => exact .pure (.inl ⟨rfl, .none⟩)
  | cons driver rest ih =>
      rw [registry, List.map_cons, detectModule, driver.entry_eq]
      refine (adds_detectBy port driver.mark s).lift.andThen ?_ ?_
      · rintro e s' es ⟨found, he, -⟩
        cases he
      · rintro found s' es ⟨a, ha, hprobe⟩
        obtain rfl := Except.ok.inj ha
        refine .ite (fun hfound => ?_) fun hfound => ?_
        · subst hfound
          refine .pure (.inr ⟨driver, rfl, ?_⟩)
          rw [List.append_nil]
          exact .recognised hprobe
        · obtain rfl : found = false := by simpa using hfound
          refine (ih s').mono ?_
          rintro r s'' more (⟨rfl, hprobes⟩ | ⟨driver', rfl, hprobes⟩)
          · exact .inl ⟨rfl, .next hprobe hprobes⟩
          · exact .inr ⟨driver', rfl, .next hprobe hprobes⟩

/-- What follows once the driver is known: the change of the rate, and the script of the driver. -/
inductive Settled (requested : Int) (driver : Driver) :
    Result ModuleType → List Exchange → Prop
  | adrift {s s' : σ} {e : AtError} {change : List Exchange} (hpos : 0 < requested)
      (h : port.CarefulChange requested s (.error e) s' change) :
      Settled requested driver (.error e.toNetworkError) change
  | scripted {s s' : σ} {rate : Int} {change script : List Exchange} {r : Result Unit}
      (hpos : 0 < requested) (h : port.CarefulChange requested s (.ok rate) s' change)
      (hscript : FollowsScript driver.script r script) :
      Settled requested driver (r.map fun _ => driver.type) (change ++ script)
  | unaligned {script : List Exchange} {r : Result Unit} (hpos : requested ≤ 0)
      (hscript : FollowsScript driver.script r script) :
      Settled requested driver (r.map fun _ => driver.type) script

theorem adds_assemble (driver : Driver) (s : σ) :
    Adds (assemble (driver.hal port.transcribed)) s fun result _ es =>
      ∃ r, typeOf result = r.map (fun _ => driver.type) ∧ FollowsScript driver.script r es := by
  refine (driver.adds_initializeHal port s).andThen ?_ ?_
  · rintro e s' es hfollows
    exact ⟨.error e, rfl, hfollows⟩
  · rintro ⟨⟩ s' es hfollows
    refine .pure ⟨.ok (), ?_, by rwa [List.append_nil]⟩
    exact congrArg Except.ok (driver.hal_moduleType _)

theorem adds_settle (requested : Int) (driver : Driver) (s : σ) :
    Adds (alignAfterIdentify port.transcribed requested >>= fun _ =>
        assemble (driver.hal port.transcribed) : HalM _ _) s fun result _ es =>
      Settled port requested driver (typeOf result) es := by
  unfold alignAfterIdentify
  by_cases hpos : requested ≤ 0
  · rw [if_pos hpos]
    refine (adds_assemble port driver s).mono ?_
    rintro result s' es ⟨r, hr, hscript⟩
    rw [hr]
    exact .unaligned hpos hscript
  · rw [if_neg hpos, bind_assoc]
    refine (port.adds_setModuleBaudRate requested s).lift.andThen ?_ ?_
    · rintro e s' es ⟨a, ha, -⟩
      cases ha
    · rintro aligned s' change ⟨a, ha, hchange⟩
      obtain rfl := Except.ok.inj ha
      cases aligned with
      | error e =>
          refine .pure ?_
          rw [List.append_nil]
          exact .adrift (by omega) hchange
      | ok rate =>
          refine (adds_assemble port driver s').mono ?_
          rintro result s'' es ⟨r, hr, hscript⟩
          rw [hr]
          exact .scripted (by omega) hchange hscript

/-- What `Detect` leaves: the search for the rate, the probes, and what follows once a driver
recognised the module. -/
inductive Detected (requested : Int) (drivers : List Driver) :
    Result ModuleType → List Exchange → Prop
  | unknown {scan probes : List Exchange} (hscan : writesOf scan = [])
      (hprobes : Probes drivers none probes) :
      Detected requested drivers (.error noneDetected) (scan ++ probes)
  | recognised {scan probes more : List Exchange} {driver : Driver} {result : Result ModuleType}
      (hscan : writesOf scan = []) (hprobes : Probes drivers (some driver) probes)
      (hmore : Settled port requested driver result more) :
      Detected requested drivers result (scan ++ (probes ++ more))

theorem adds_alignBeforeIdentify (s : σ) :
    Adds (alignBeforeIdentify port.transcribed) s fun requested _ es =>
      requested = port.getBaudRate s ∧ writesOf es = [] := by
  refine (adds_get s).bind ?_
  rintro ⟨s₀, log⟩ s' _ ⟨hs, hs', rfl⟩
  obtain rfl : s = s₀ := hs.symm
  obtain rfl : s = s' := hs'.symm
  refine .ite (fun _ => ?_) fun _ => .pure ⟨rfl, rfl⟩
  refine (port.adds_findModuleBaudRate _ s).bind ?_
  rintro found s₁ scan ⟨hscan, -⟩
  exact .pure ⟨rfl, by simpa using hscan⟩

theorem adds_detect (drivers : List Driver) (s : σ) :
    Adds (detect port.transcribed drivers) s fun result _ es =>
      Detected port (port.getBaudRate s) drivers (typeOf result) es := by
  refine (adds_alignBeforeIdentify port s).lift.andThen ?_ ?_
  · rintro e s' es ⟨a, ha, -⟩
    cases ha
  · rintro requested s₁ scan ⟨a, ha, rfl, hscan⟩
    obtain rfl := Except.ok.inj ha
    refine (adds_detectModule port drivers s₁).andThen ?_ ?_
    · rintro e s₂ probes (⟨he, hprobes⟩ | ⟨driver, hdriver, -⟩)
      · cases he
        exact .unknown hscan hprobes
      · cases hdriver
    · rintro hal s₂ probes (⟨he, -⟩ | ⟨driver, hdriver, hprobes⟩)
      · cases he
      · obtain rfl := Except.ok.inj hdriver
        refine (adds_settle port _ driver s₂).mono ?_
        rintro result s₃ more hmore
        exact .recognised hscan hprobes hmore

/-! ## What is written before a module is known -/

/-- An exchange that changes nothing in the module: a query of its rate, or a part of a probe. -/
def isReading (x : Exchange) : Bool :=
  x.isRateQuery || match x with
    | .command _ cmd _ _ _ => cmd == atLine || cmd == cgmrLine
    | .moved _ _ | .line _ _ | .shut _ _ => false

/-- The module named itself: it answered `AT+CGMR` with a line that carries the mark. -/
def Named (mark : Bytes) (es : List Exchange) : Prop :=
  ∃ rate lines, .command rate cgmrLine kProbeTimeout (.ok ()) lines ∈ es ∧ carries mark lines = true

theorem Named.mono {mark : Bytes} {es more : List Exchange} (h : Named mark es) (hsub : es ⊆ more) :
    Named mark more := by
  obtain ⟨rate, lines, hmem, hcarries⟩ := h
  exact ⟨rate, lines, hsub hmem, hcarries⟩

theorem Probe.reading {mark : Bytes} {found : Bool} {es : List Exchange} (h : Probe mark found es) :
    ∀ x ∈ es, isReading x = true := by
  cases h <;> simp [isReading]

theorem Probe.iff_named {mark : Bytes} {found : Bool} {es : List Exchange}
    (h : Probe mark found es) : found = true ↔ Named mark es := by
  have hat : atLine ≠ cgmrLine := by decide
  cases h <;> simp [Named, hat.symm]

theorem Probes.reading {drivers : List Driver} {found : Option Driver} {es : List Exchange}
    (h : Probes drivers found es) : ∀ x ∈ es, isReading x = true := by
  induction h with
  | none => simp
  | recognised h => exact h.reading
  | next h _ ih =>
      intro x hx
      obtain hx | hx := List.mem_append.mp hx
      · exact h.reading x hx
      · exact ih x hx

theorem Probes.named {drivers : List Driver} {driver : Driver} {es : List Exchange}
    (h : Probes drivers (some driver) es) : driver ∈ drivers ∧ Named driver.mark es := by
  generalize hfound : some driver = found at h
  induction h with
  | none => cases hfound
  | recognised h =>
      obtain rfl := Option.some.inj hfound
      exact ⟨List.mem_cons_self, h.iff_named.mp rfl⟩
  | next _ _ ih =>
      obtain ⟨hmem, hnamed⟩ := ih hfound
      exact ⟨List.mem_cons_of_mem _ hmem, hnamed.mono (List.subset_append_right _ _)⟩

theorem reading_of_quiet {es : List Exchange} (h : writesOf es = []) :
    ∀ x ∈ es, isReading x = true := by
  intro x hx
  have hquery := List.filter_eq_nil_iff.mp h x hx
  have hquery' : x.isRateQuery = true := by simpa using hquery
  unfold isReading
  rw [hquery', Bool.true_or]

/-- What does not read stands behind whatever only reads. -/
theorem prefix_of_reading {front more before after : List Exchange} {x : Exchange}
    (hfront : ∀ y ∈ front, isReading y = true) (hx : isReading x = false)
    (h : front ++ more = before ++ x :: after) : front <+: before := by
  obtain ⟨rest, rfl, -⟩ | ⟨rest, rfl, hrest⟩ := List.append_eq_append_iff.mp h
  · exact List.prefix_append _ _
  · cases rest with
    | nil => exact ⟨[], by simp⟩
    | cons y rest =>
        obtain ⟨rfl, -⟩ := List.cons.inj hrest
        have hread := hfront x (by simp)
        rw [hx] at hread
        cases hread

/-- What is promised of `Detect` on a channel at `requested`. -/
structure DetectsFirst (requested : Int) (drivers : List Driver) (result : Result ModuleType)
    (es : List Exchange) : Prop where
  behindName : ∀ before x after, es = before ++ x :: after → isReading x = false →
    ∃ driver ∈ drivers, Named driver.mark before
  unknown : (∀ driver ∈ drivers, ¬Named driver.mark es) → result = .error noneDetected
  device : ∀ type, result = .ok type → ∃ driver scan probes change script,
    driver.type = type ∧ es = scan ++ (probes ++ (change ++ script)) ∧
      writesOf scan = [] ∧ Probes drivers (some driver) probes ∧
      (∃ current, Port.WritesRate current requested (writesOf change)) ∧
      List.Forall₂ (fun step x => step.outcome x = some (.ok ())) driver.script script

/-- Whatever the module and the channel do, `Detect` writes nothing before a registered module has
named itself, and a device that it hands out is the first one that did, with its script gone through
to the end. -/
theorem detect_detectsFirst (drivers : List Driver) (s : σ) :
    DetectsFirst (port.getBaudRate s) drivers
      (typeOf (detect port.transcribed drivers (s, [])).1)
      (detect port.transcribed drivers (s, [])).2.2 := by
  have hdetected := (adds_detect port drivers s).run
  revert hdetected
  generalize typeOf (detect port.transcribed drivers (s, [])).1 = result
  generalize (detect port.transcribed drivers (s, [])).2.2 = es
  intro hdetected
  cases hdetected with
  | @unknown scan probes hscan hprobes =>
      have hreading : ∀ x ∈ scan ++ probes, isReading x = true := by
        intro x hx
        obtain hx | hx := List.mem_append.mp hx
        · exact reading_of_quiet hscan x hx
        · exact hprobes.reading x hx
      refine ⟨fun before x after hes hx => ?_, fun _ => rfl, ?_⟩
      · have hread := hreading x (hes ▸ by simp)
        rw [hx] at hread
        cases hread
      · rintro type ⟨⟩
  | @recognised scan probes more driver _ hscan hprobes hmore =>
      obtain ⟨hmem, hnamed⟩ := hprobes.named
      have hreading : ∀ x ∈ scan ++ probes, isReading x = true := by
        intro x hx
        obtain hx | hx := List.mem_append.mp hx
        · exact reading_of_quiet hscan x hx
        · exact hprobes.reading x hx
      refine ⟨fun before x after hes hx => ⟨driver, hmem, ?_⟩, fun hnone => ?_, fun type htype => ?_⟩
      · rw [← List.append_assoc] at hes
        have hprefix := prefix_of_reading hreading hx hes
        exact hnamed.mono fun y hy => hprefix.subset (List.mem_append_right _ hy)
      · refine absurd ?_ (hnone driver hmem)
        exact hnamed.mono fun y hy =>
          List.mem_append_right _ (List.mem_append_left _ hy)
      · cases hmore with
        | adrift => cases htype
        | @scripted s s' rate change script r hpos h hscript =>
            cases r with
            | error e => cases htype
            | ok =>
                refine ⟨driver, scan, probes, change, script, Except.ok.inj htype, rfl, hscan, hprobes,
                  ⟨_, h.writes⟩, hscript.complete rfl⟩
        | @unaligned script r hpos hscript =>
            cases r with
            | error e => cases htype
            | ok =>
                exact ⟨driver, scan, probes, [], _, Except.ok.inj htype, rfl, hscan, hprobes,
                  ⟨0, .nothing⟩, hscript.complete rfl⟩

end EspModemLink.Device
