import Mathlib.Data.List.Basic

/-!
# Programs that keep a transcript

A program over a world beside which a list is kept of what passed. What a program adds to the list
is put together from what its parts add.
-/

namespace Transcript

variable {σ ε α β η : Type}

theorem bind_apply {τ : Type} (p : StateM τ α) (f : α → StateM τ β) (t : τ) :
    (p >>= f) t = f (p t).1 (p t).2 := rfl

/-- Run from `s`, a program only adds to the transcript. What it returns, where it ends and what it
adds are as `Q` says. -/
def Adds (p : StateM (σ × List ε) α) (s : σ) (Q : α → σ → List ε → Prop) : Prop :=
  ∀ log, ∃ a s' es, p (s, log) = (a, s', log ++ es) ∧ Q a s' es

variable {p : StateM (σ × List ε) α} {s : σ} {Q Q' : α → σ → List ε → Prop}

/-- A program that is begun with nothing on the transcript. -/
theorem Adds.run (h : Adds p s Q) : Q (p (s, [])).1 (p (s, [])).2.1 (p (s, [])).2.2 := by
  obtain ⟨a, s', es, hp, hQ⟩ := h []
  rw [hp]
  exact hQ

/-- What a program does behind what was added before it. -/
theorem Adds.behind {es : List ε} (h : Adds p s fun a s' more => Q a s' (es ++ more))
    (log : List ε) : ∃ a s' more, p (s, log ++ es) = (a, s', log ++ more) ∧ Q a s' more := by
  obtain ⟨a, s', more, hp, hQ⟩ := h (log ++ es)
  exact ⟨a, s', es ++ more, by rw [← List.append_assoc]; exact hp, hQ⟩

theorem Adds.mono (h : Adds p s Q) (himp : ∀ a s' es, Q a s' es → Q' a s' es) : Adds p s Q' := by
  intro log
  obtain ⟨a, s', es, hp, hQ⟩ := h log
  exact ⟨a, s', es, hp, himp a s' es hQ⟩

theorem Adds.pure {a : α} (h : Q a s []) : Adds (pure a) s Q := fun log =>
  ⟨a, s, [], by rw [List.append_nil]; rfl, h⟩

/-- Reading the state adds nothing. -/
theorem adds_get (s : σ) :
    Adds (get : StateM (σ × List ε) _) s fun t s' es => t.1 = s ∧ s' = s ∧ es = [] := fun log =>
  ⟨(s, log), s, [], by rw [List.append_nil]; rfl, rfl, rfl, rfl⟩

/-- What the second part adds stands behind what the first one added. -/
theorem Adds.bind {f : α → StateM (σ × List ε) β} {R : β → σ → List ε → Prop} (h : Adds p s Q)
    (hnext : ∀ a s' es, Q a s' es → Adds (f a) s' fun b s'' more => R b s'' (es ++ more)) :
    Adds (p >>= f) s R := by
  intro log
  obtain ⟨a, s', es, hp, hQ⟩ := h log
  obtain ⟨b, s'', more, hf, hR⟩ := hnext a s' es hQ (log ++ es)
  refine ⟨b, s'', es ++ more, ?_, hR⟩
  rw [← List.append_assoc, ← hf]
  exact congrArg (fun r => f r.1 r.2) hp

theorem Adds.ite {c : Prop} [Decidable c] {q : StateM (σ × List ε) α} (hthen : c → Adds p s Q)
    (helse : ¬c → Adds q s Q) : Adds (if c then p else q) s Q := by
  split
  · exact hthen ‹_›
  · exact helse ‹_›

/-- A program that cannot fail, within one that can. -/
theorem Adds.lift (h : Adds p s Q) :
    Adds (liftM p : ExceptT η (StateM (σ × List ε)) α) s fun r s' es =>
      ∃ a, r = .ok a ∧ Q a s' es := by
  intro log
  obtain ⟨a, s', es, hp, hQ⟩ := h log
  exact ⟨.ok a, s', es, congrArg (Prod.map Except.ok id) hp, a, rfl, hQ⟩

/-- A program that can fail goes on where its first part succeeded. -/
theorem Adds.andThen {p : ExceptT η (StateM (σ × List ε)) α}
    {f : α → ExceptT η (StateM (σ × List ε)) β} {Q : Except η α → σ → List ε → Prop}
    {R : Except η β → σ → List ε → Prop} (h : Adds p s Q)
    (hfail : ∀ e s' es, Q (.error e) s' es → R (.error e) s' es)
    (hnext : ∀ a s' es, Q (.ok a) s' es → Adds (f a) s' fun b s'' more => R b s'' (es ++ more)) :
    Adds (p >>= f : ExceptT η (StateM (σ × List ε)) β) s R := by
  refine Adds.bind (f := ExceptT.bindCont f) h fun a s' es hQ => ?_
  cases a with
  | error e => exact .pure (by rw [List.append_nil]; exact hfail e s' es hQ)
  | ok a => exact hnext a s' es hQ

/-! ## Scripts -/

/-- The steps of a script are gone through up to the first that fails. `outcome` is what a step comes
to with what passed, if it was that step that passed. -/
inductive Follows {ι : Type} (outcome : ι → ε → Option (Except η Unit)) :
    List ι → Except η Unit → List ε → Prop
  | done : Follows outcome [] (.ok ()) []
  | fails {step : ι} {rest : List ι} {x : ε} {e : η} (h : outcome step x = some (.error e)) :
      Follows outcome (step :: rest) (.error e) [x]
  | passes {step : ι} {rest : List ι} {x : ε} {result : Except η Unit} {es : List ε}
      (h : outcome step x = some (.ok ())) (hrest : Follows outcome rest result es) :
      Follows outcome (step :: rest) result (x :: es)

section Follows

variable {ι : Type} {outcome : ι → ε → Option (Except η Unit)} {steps more : List ι}
  {result : Except η Unit} {es : List ε}

/-- A script that succeeded is gone through to its end. -/
theorem Follows.complete (h : Follows outcome steps result es) (hok : result = .ok ()) :
    List.Forall₂ (fun step x => outcome step x = some (.ok ())) steps es := by
  induction h with
  | done => exact .nil
  | fails => cases hok
  | passes hstep _ ih => exact .cons hstep (ih hok)

/-- What passed are the first steps of the script. -/
theorem Follows.isPrefix (h : Follows outcome steps result es) :
    ∃ front, front <+: steps ∧ List.Forall₂ (fun step x => (outcome step x).isSome) front es := by
  induction h with
  | done => exact ⟨[], List.nil_prefix, .nil⟩
  | @fails step rest x e hstep =>
      exact ⟨[step], by simp, .cons (by rw [hstep]; rfl) .nil⟩
  | @passes step rest x result es hstep _ ih =>
      obtain ⟨front, hfront, hall⟩ := ih
      exact ⟨step :: front, List.cons_prefix_cons.mpr ⟨rfl, hfront⟩,
        .cons (by rw [hstep]; rfl) hall⟩

/-- A step in front of a script. -/
theorem Adds.follows {p : ExceptT η (StateM (σ × List ε)) Unit}
    {q : ExceptT η (StateM (σ × List ε)) Unit} {step : ι}
    (hstep : Adds p s fun r _ es => ∃ x, es = [x] ∧ outcome step x = some r)
    (hrest : ∀ s', Adds q s' fun r _ es => Follows outcome steps r es) :
    Adds (p >>= fun _ => q : ExceptT η (StateM (σ × List ε)) Unit) s fun r _ es =>
      Follows outcome (step :: steps) r es := by
  refine hstep.andThen ?_ ?_
  · rintro e s' _ ⟨x, rfl, hx⟩
    exact .fails hx
  · rintro ⟨⟩ s' _ ⟨x, rfl, hx⟩
    exact (hrest s').mono fun _ _ _ hfollows => .passes hx hfollows

/-- A step that ends a script. -/
theorem Adds.followsLast {p : ExceptT η (StateM (σ × List ε)) Unit} {step : ι}
    (hstep : Adds p s fun r _ es => ∃ x, es = [x] ∧ outcome step x = some r) :
    Adds p s fun r _ es => Follows outcome [step] r es := by
  refine hstep.mono ?_
  rintro r s' _ ⟨x, rfl, hx⟩
  cases r with
  | error e => exact .fails hx
  | ok => exact .passes hx .done

end Follows

end Transcript
