import Mathlib.Data.List.Basic

/-!
# Things that are held one at a time

A thing is taken, used while it is held, and given back. Every take is of a new thing and comes when
nothing is held, so that at any time one thing at most is held and nothing that was given back is
touched again.
-/

namespace Leases

variable {ι : Type*}

/-- What an action does to the things. -/
inductive Act (ι : Type*) where
  | takes (t : ι)
  | uses (t : ι)
  | gives (t : ι)
  | other
deriving DecidableEq

/-- The thing was taken and has not been given back. -/
def Held (past : List (Act ι)) (t : ι) : Prop := .takes t ∈ past ∧ .gives t ∉ past

/-- What an action may be behind others. -/
def Allowed (past : List (Act ι)) : Act ι → Prop
  | .takes t => .takes t ∉ past ∧ ∀ t', ¬Held past t'
  | .uses t => Held past t
  | .gives t => Held past t
  | .other => True

/-- Every action is allowed behind those before it, and this is what is held at their end. -/
structure OneAtATime (acts : List (Act ι)) (held : Option ι) : Prop where
  allowed : ∀ past a, past ++ [a] <+: acts → Allowed past a
  held : ∀ t, held = some t ↔ Held acts t

theorem oneAtATime_nil : OneAtATime ([] : List (Act ι)) none :=
  ⟨fun past a h => by simp at h, by simp [Held]⟩

variable {acts : List (Act ι)} {held : Option ι} {t : ι}

theorem held_concat_takes {t t' : ι} :
    Held (acts ++ [.takes t']) t ↔ (.takes t ∈ acts ∨ t = t') ∧ .gives t ∉ acts := by
  simp [Held]

theorem held_concat_gives {t t' : ι} : Held (acts ++ [.gives t']) t ↔ Held acts t ∧ t ≠ t' := by
  simp [Held, and_assoc]

theorem allowed_concat {a : Act ι} (h : ∀ past b, past ++ [b] <+: acts → Allowed past b)
    (ha : Allowed acts a) : ∀ past b, past ++ [b] <+: acts ++ [a] → Allowed past b := by
  intro past b hprefix
  rw [List.prefix_concat_iff] at hprefix
  obtain heq | hbefore := hprefix
  · obtain ⟨rfl, hlast⟩ := List.append_inj' heq rfl
    obtain rfl := List.singleton_inj.mp hlast
    exact ha
  · exact h past b hbefore

/-- Nothing was given back that was not taken. -/
theorem OneAtATime.given (h : OneAtATime acts held) (hgives : .gives t ∈ acts) : .takes t ∈ acts := by
  obtain ⟨front, back, rfl⟩ := List.append_of_mem hgives
  have hheld : Held front t := h.allowed front (.gives t) ⟨back, by simp⟩
  exact List.mem_append_left _ hheld.1

theorem OneAtATime.takes (h : OneAtATime acts none) (hnew : .takes t ∉ acts) :
    OneAtATime (acts ++ [.takes t]) (some t) := by
  have hnone : ∀ t', ¬Held acts t' := fun t' hheld => absurd ((h.held t').mpr hheld) (by simp)
  refine ⟨allowed_concat h.allowed ⟨hnew, hnone⟩, fun t' => ?_⟩
  rw [held_concat_takes]
  constructor
  · rintro heq
    obtain rfl := Option.some.inj heq
    exact ⟨.inr rfl, fun hgives => hnew (h.given hgives)⟩
  · rintro ⟨htaken | rfl, hkept⟩
    · exact absurd ⟨htaken, hkept⟩ (hnone t')
    · rfl

theorem OneAtATime.uses (h : OneAtATime acts (some t)) :
    OneAtATime (acts ++ [.uses t]) (some t) := by
  refine ⟨allowed_concat h.allowed ((h.held t).mp rfl), fun t' => (h.held t').trans ?_⟩
  simp [Held]

theorem OneAtATime.gives (h : OneAtATime acts (some t)) : OneAtATime (acts ++ [.gives t]) none := by
  refine ⟨allowed_concat h.allowed ((h.held t).mp rfl), fun t' => ?_⟩
  rw [held_concat_gives, ← h.held]
  simp +contextual [eq_comm]

theorem OneAtATime.other (h : OneAtATime acts held) : OneAtATime (acts ++ [.other]) held := by
  refine ⟨allowed_concat h.allowed trivial, fun t' => (h.held t').trans ?_⟩
  simp [Held]

end Leases
