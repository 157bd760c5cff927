import Mathlib.Data.List.Basic

/-!
# Runs of a partial step function

A step is a partial function on states and labels. A run executes a list of
labels. The predicate `Along` reads a property at every step a run takes, so
that a condition on the steps of a run and a property of those steps are the
same kind of statement.
-/

namespace Runs

variable {σ ι μ : Type*}

/-- A step that is not enabled in a state answers `none`. -/
abbrev Step (σ ι : Type*) := σ → ι → Option σ

/-- Execute the labels in order. -/
def exec (step : Step σ ι) : σ → List ι → Option σ
  | s, [] => some s
  | s, l :: ls => (step s l).bind fun s' => exec step s' ls

/-- `Along step P s ls`: every step that the run of `ls` from `s` takes satisfies `P`. -/
def Along (step : Step σ ι) (P : σ → ι → σ → Prop) : σ → List ι → Prop
  | _, [] => True
  | s, l :: ls => ∀ s', step s l = some s' → P s l s' ∧ Along step P s' ls

/-- `AlongUntil step stop P s ls`: the steps of the run satisfy `P` up to the first one that `stop`
holds of, and with it. -/
def AlongUntil (step : Step σ ι) (stop P : σ → ι → σ → Prop) : σ → List ι → Prop
  | _, [] => True
  | s, l :: ls =>
      ∀ s', step s l = some s' → P s l s' ∧ (¬stop s l s' → AlongUntil step stop P s' ls)

/-- A state that some run from `s₀` ends in. -/
def Reachable (step : Step σ ι) (s₀ s : σ) : Prop := ∃ ls, exec step s₀ ls = some s

variable {step : Step σ ι} {P Q : σ → ι → σ → Prop}

@[simp] theorem exec_nil (s : σ) : exec step s [] = some s := rfl

@[simp] theorem exec_cons (s : σ) (l : ι) (ls : List ι) :
    exec step s (l :: ls) = (step s l).bind fun s' => exec step s' ls := rfl

theorem exec_append (s : σ) (ls ms : List ι) :
    exec step s (ls ++ ms) = (exec step s ls).bind fun s' => exec step s' ms := by
  induction ls generalizing s with
  | nil => rfl
  | cons l ls ih =>
      cases h : step s l with
      | none => simp [h]
      | some s' => simpa [h] using ih s'

@[simp] theorem along_nil (s : σ) : Along step P s [] := trivial

@[simp] theorem along_cons (s : σ) (l : ι) (ls : List ι) :
    Along step P s (l :: ls) ↔
      ∀ s', step s l = some s' → P s l s' ∧ Along step P s' ls := Iff.rfl

/-- A run can be checked step by step. -/
instance Along.decidable [∀ s l s', Decidable (P s l s')] :
    (s : σ) → (ls : List ι) → Decidable (Along step P s ls)
  | _, [] => isTrue trivial
  | s, l :: ls =>
      match hl : step s l with
      | none => isTrue fun s' hs' => by rw [hl] at hs'; cases hs'
      | some mid =>
          have : Decidable (Along step P mid ls) := Along.decidable mid ls
          decidable_of_iff (P s l mid ∧ Along step P mid ls)
            ⟨fun h s' hs' => Option.some.inj (hl.symm.trans hs') ▸ h, fun h => h mid hl⟩

/-- An invariant of the steps that satisfy `P` holds wherever a run of such steps ends. -/
theorem Along.invariant {I : σ → Prop} {s s' : σ} {ls : List ι}
    (hP : Along step P s ls) (hstep : ∀ s l s', I s → P s l s' → step s l = some s' → I s')
    (hs : I s) (hrun : exec step s ls = some s') : I s' := by
  induction ls generalizing s with
  | nil => exact Option.some.inj hrun ▸ hs
  | cons l ls ih =>
      obtain ⟨mid, hl, hrest⟩ := Option.bind_eq_some_iff.mp hrun
      obtain ⟨hp, htail⟩ := hP mid hl
      exact ih htail (hstep s l mid hs hp hl) hrest

/-- A property of the labels holds along every run of labels that have it. -/
theorem along_of_labels {Q : ι → Prop} {ls : List ι} (h : ∀ l ∈ ls, Q l) (s : σ) :
    Along step (fun _ l _ => Q l) s ls := by
  induction ls generalizing s with
  | nil => trivial
  | cons l ls ih =>
      exact fun s' _ => ⟨h l (List.mem_cons_self ..), ih (fun m hm => h m (List.mem_cons_of_mem _ hm)) s'⟩

/-- What holds along a run holds along what comes behind its first part. -/
theorem Along.behind {s s' : σ} {ls ms : List ι} (hP : Along step P s (ls ++ ms))
    (hrun : exec step s ls = some s') : Along step P s' ms := by
  induction ls generalizing s with
  | nil => exact Option.some.inj hrun ▸ hP
  | cons l ls ih =>
      obtain ⟨mid, hl, hrest⟩ := Option.bind_eq_some_iff.mp hrun
      exact ih (hP mid hl).2 hrest

/-- What holds along two parts of a run holds along the whole of it. -/
theorem Along.append {s s' : σ} {ls ms : List ι} (hrun : exec step s ls = some s')
    (hfirst : Along step P s ls) (hrest : Along step P s' ms) : Along step P s (ls ++ ms) := by
  induction ls generalizing s with
  | nil => exact Option.some.inj hrun ▸ hrest
  | cons l ls ih =>
      obtain ⟨mid, hl, hrun⟩ := Option.bind_eq_some_iff.mp hrun
      intro t ht
      obtain rfl := Option.some.inj (hl.symm.trans ht)
      exact ⟨(hfirst mid hl).1, ih hrun (hfirst mid hl).2⟩

theorem along_and {s : σ} {ls : List ι} :
    Along step (fun s l s' => P s l s' ∧ Q s l s') s ls ↔ Along step P s ls ∧ Along step Q s ls := by
  induction ls generalizing s with
  | nil => exact (and_self_iff).symm
  | cons l ls ih =>
      constructor
      · intro h
        exact ⟨fun s' hl => ⟨(h s' hl).1.1, (ih.mp (h s' hl).2).1⟩,
          fun s' hl => ⟨(h s' hl).1.2, (ih.mp (h s' hl).2).2⟩⟩
      · rintro ⟨hp, hq⟩ s' hl
        exact ⟨⟨(hp s' hl).1, (hq s' hl).1⟩, ih.mpr ⟨(hp s' hl).2, (hq s' hl).2⟩⟩

/-- Under an invariant, steps that satisfy `P` satisfy everything `P` implies. -/
theorem Along.mono {I : σ → Prop} {s : σ} {ls : List ι}
    (hP : Along step P s ls)
    (hstep : ∀ s l s', I s → P s l s' → step s l = some s' → I s' ∧ Q s l s')
    (hs : I s) : Along step Q s ls := by
  induction ls generalizing s with
  | nil => trivial
  | cons l ls ih =>
      intro s' hl
      obtain ⟨hp, htail⟩ := hP s' hl
      obtain ⟨hi, hq⟩ := hstep s l s' hs hp hl
      exact ⟨hq, ih htail hi⟩

/-- A property of all steps holds of those in front of the first one that stops the run, too. -/
theorem AlongUntil.of_along {stop : σ → ι → σ → Prop} {s : σ} {ls : List ι}
    (h : Along step P s ls) (hPQ : ∀ s l s', P s l s' → Q s l s') :
    AlongUntil step stop Q s ls := by
  induction ls generalizing s with
  | nil => trivial
  | cons l ls ih =>
      intro s' hl
      obtain ⟨hp, htail⟩ := h s' hl
      exact ⟨hPQ s l s' hp, fun _ => ih htail⟩

/-- Two properties of steps that agree under an invariant which the first one carries hold along
the same runs. -/
theorem Along.congr {I : σ → Prop}
    (hinv : ∀ s l s', I s → P s l s' → step s l = some s' → I s')
    (hiff : ∀ s l s', I s → step s l = some s' → (P s l s' ↔ Q s l s'))
    {s : σ} {ls : List ι} (hs : I s) : Along step P s ls ↔ Along step Q s ls := by
  induction ls generalizing s with
  | nil => exact Iff.rfl
  | cons l ls ih =>
      constructor
      · intro h s' hl
        obtain ⟨hp, htail⟩ := h s' hl
        exact ⟨(hiff s l s' hs hl).mp hp, (ih (hinv s l s' hs hp hl)).mp htail⟩
      · intro h s' hl
        obtain ⟨hq, htail⟩ := h s' hl
        have hp : P s l s' := (hiff s l s' hs hl).mpr hq
        exact ⟨hp, (ih (hinv s l s' hs hp hl)).mpr htail⟩

/-- An invariant of all steps holds in every state reached. -/
theorem Reachable.invariant {I : σ → Prop} {s₀ s : σ} (hinit : I s₀)
    (hstep : ∀ s l s', I s → step s l = some s' → I s') (h : Reachable step s₀ s) : I s := by
  obtain ⟨ls, hrun⟩ := h
  have hall : Along step (fun _ _ _ => True) s₀ ls := by
    clear hrun hinit
    induction ls generalizing s₀ with
    | nil => trivial
    | cons l ls ih => exact fun s' _ => ⟨trivial, ih⟩
  exact hall.invariant (fun s l s' hi _ => hstep s l s' hi) hinit hrun

/-! ## Monitors -/

/-- Run a monitor beside the steps. It reads every step and never blocks one. -/
def monitored (step : Step σ ι) (watch : μ → σ → ι → σ → μ) : Step (μ × σ) ι := fun ms l =>
  (step ms.2 l).map fun s' => (watch ms.1 ms.2 l s', s')

variable {watch : μ → σ → ι → σ → μ}

theorem monitored_eq_some {ms ms' : μ × σ} {l : ι} :
    monitored step watch ms l = some ms' ↔
      step ms.2 l = some ms'.2 ∧ ms'.1 = watch ms.1 ms.2 l ms'.2 := by
  obtain ⟨m', s'⟩ := ms'
  simp only [monitored, Option.map_eq_some_iff, Prod.mk.injEq]
  constructor
  · rintro ⟨t, ht, hm, rfl⟩
    exact ⟨ht, hm.symm⟩
  · rintro ⟨ht, rfl⟩
    exact ⟨s', ht, rfl, rfl⟩

end Runs
