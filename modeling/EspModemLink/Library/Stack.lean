import EspModemLink.Library.Runs

/-!
# A stack of calls

One thread of calls that call back. The frame on top of the stack runs, and puts the frames of what it
calls in front of what is left of itself. With no call on the stack, the outside begins one.
-/

namespace Stack

/-- The shared state and the calls under way, the innermost first. -/
structure Config (σ κ : Type*) where
  shared : σ
  stack : List κ
deriving DecidableEq

/-- What the outside may begin, and what a frame does under an outside choice `χ`. What is not
enabled answers `none`. -/
structure Program (σ κ χ : Type*) where
  enter : χ → σ → Option (σ × List κ)
  exec : κ → χ → σ → Option (σ × List κ)

variable {σ κ χ : Type*}

namespace Program

/-- One step. -/
def step (P : Program σ κ χ) : Runs.Step (Config σ κ) χ := fun cfg c =>
  match cfg.stack with
  | [] => (P.enter c cfg.shared).map fun out => ⟨out.1, out.2⟩
  | k :: ks => (P.exec k c cfg.shared).map fun out => ⟨out.1, out.2 ++ ks⟩

/-- Everything a step can do. -/
theorem step_cases {P : Program σ κ χ} {cfg cfg' : Config σ κ} {c : χ}
    (h : P.step cfg c = some cfg') :
    (∃ s' ks', cfg.stack = [] ∧ P.enter c cfg.shared = some (s', ks') ∧ cfg' = ⟨s', ks'⟩) ∨
    (∃ k ks s' ks', cfg.stack = k :: ks ∧ P.exec k c cfg.shared = some (s', ks') ∧
      cfg' = ⟨s', ks' ++ ks⟩) := by
  unfold step at h
  split at h
  · rename_i hstack
    obtain ⟨⟨s', ks'⟩, henter, rfl⟩ := Option.map_eq_some_iff.mp h
    exact .inl ⟨s', ks', hstack, henter, rfl⟩
  · rename_i k ks hstack
    obtain ⟨⟨s', ks'⟩, hexec, rfl⟩ := Option.map_eq_some_iff.mp h
    exact .inr ⟨k, ks, s', ks', hstack, hexec, rfl⟩

/-- A property of the state and the stack that a call begun from outside brings about, and that every
frame keeps, holds wherever a run ends. -/
theorem invariant {P : Program σ κ χ} {ok : Config σ κ → χ → Prop} {I : σ → List κ → Prop}
    (henter : ∀ s c s' ks', ok ⟨s, []⟩ c → I s [] → P.enter c s = some (s', ks') → I s' ks')
    (hexec : ∀ s k ks c s' ks', ok ⟨s, k :: ks⟩ c → I s (k :: ks) →
      P.exec k c s = some (s', ks') → I s' (ks' ++ ks))
    {cfg cfg' : Config σ κ} {cs : List χ} (hok : Runs.Along P.step (fun cfg c _ => ok cfg c) cfg cs)
    (hinit : I cfg.shared cfg.stack) (hrun : Runs.exec P.step cfg cs = some cfg') :
    I cfg'.shared cfg'.stack := by
  apply hok.invariant (I := fun cfg => I cfg.shared cfg.stack) _ hinit hrun
  intro cfg c cfg' hI hok hstep
  obtain ⟨s', ks', hstack, henter', rfl⟩ | ⟨k, ks, s', ks', hstack, hexec', rfl⟩ := step_cases hstep
  · obtain ⟨s, stack⟩ := cfg
    obtain rfl : stack = [] := hstack
    exact henter s c s' ks' hok hI henter'
  · obtain ⟨s, stack⟩ := cfg
    obtain rfl : stack = k :: ks := hstack
    exact hexec s k ks c s' ks' hok hI hexec'

end Program

end Stack
