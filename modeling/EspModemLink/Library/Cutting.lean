import Mathlib.Data.List.Basic

/-!
# Readers that are fed a stream in pieces

A reader takes elements off the front of what is pending and waits when they
are not enough. What it leaves is banked and put in front of the next piece.
The results here say when the way a stream was cut cannot be told from the
state the reader ends in.
-/

namespace Cutting

/-- A reader. `take` answers `none` when it needs more than is pending. -/
structure Reader (σ α : Type*) where
  halted : σ → Bool
  take : σ → List α → Option (σ × List α)
  shorter : ∀ {s b s' r}, take s b = some (s', r) → r.length < b.length

namespace Reader

variable {σ α : Type*} (R : Reader σ α)

/-- At most `n` takes in a row. -/
def drainFor : ℕ → σ → List α → σ × List α
  | 0, s, b => (s, b)
  | n + 1, s, b =>
      if R.halted s then (s, b)
      else
        match R.take s b with
        | none => (s, b)
        | some (s', r) => drainFor n s' r

/-- Take until the reader halts or waits. Every take shortens what is pending. -/
def drain (s : σ) (b : List α) : σ × List α := R.drainFor b.length s b

/-- The states and pending elements that `drainFor` passes through. -/
def visitsFor : ℕ → σ → List α → List (σ × List α)
  | 0, s, b => [(s, b)]
  | n + 1, s, b =>
      (s, b) ::
        if R.halted s then []
        else
          match R.take s b with
          | none => []
          | some (s', r) => visitsFor n s' r

/-- The states and pending elements that `drain` passes through. -/
def visits (s : σ) (b : List α) : List (σ × List α) := R.visitsFor b.length s b

/-- A halted reader keeps nothing. -/
def settle (p : σ × List α) : σ × List α := if R.halted p.1 then (p.1, []) else p

/-- Feed one piece behind the bank. -/
def feed (p : σ × List α) (piece : List α) : σ × List α :=
  if R.halted p.1 then (p.1, []) else R.settle (R.drain p.1 (p.2 ++ piece))

/-- Feed the pieces in order. -/
def feedAll (p : σ × List α) (pieces : List (List α)) : σ × List α := pieces.foldl R.feed p

variable {R}

theorem take_nil (s : σ) : R.take s [] = none := by
  cases h : R.take s [] with
  | none => rfl
  | some p => exact absurd (R.shorter h) (Nat.not_lt_zero _)

theorem drainFor_of_halted (n : ℕ) {s : σ} {b : List α} (h : R.halted s = true) :
    R.drainFor n s b = (s, b) := by
  cases n <;> simp [drainFor, h]

theorem drainFor_of_wait (n : ℕ) {s : σ} {b : List α} (h : R.take s b = none) :
    R.drainFor n s b = (s, b) := by
  cases n <;> simp [drainFor, h]

theorem drainFor_of_take (n : ℕ) {s s' : σ} {b r : List α} (hh : R.halted s = false)
    (h : R.take s b = some (s', r)) : R.drainFor (n + 1) s b = R.drainFor n s' r := by
  simp [drainFor, hh, h]

theorem drainFor_of_length_le {n m : ℕ} {s : σ} {b : List α} (hn : b.length ≤ n)
    (hm : b.length ≤ m) : R.drainFor n s b = R.drainFor m s b := by
  induction n generalizing m s b with
  | zero =>
      obtain rfl : b = [] := List.eq_nil_of_length_eq_zero (Nat.le_zero.mp hn)
      cases m with
      | zero => rfl
      | succ m => simp [drainFor, take_nil]
  | succ n ih =>
      cases m with
      | zero =>
          obtain rfl : b = [] := List.eq_nil_of_length_eq_zero (Nat.le_zero.mp hm)
          simp [drainFor, take_nil]
      | succ m =>
          simp only [drainFor]
          cases h : R.take s b with
          | none => rfl
          | some p =>
              have hlt := R.shorter h
              simp only [ih (m := m) (s := p.1) (b := p.2) (by omega) (by omega)]

theorem visitsFor_of_length_le {n m : ℕ} {s : σ} {b : List α} (hn : b.length ≤ n)
    (hm : b.length ≤ m) : R.visitsFor n s b = R.visitsFor m s b := by
  induction n generalizing m s b with
  | zero =>
      obtain rfl : b = [] := List.eq_nil_of_length_eq_zero (Nat.le_zero.mp hn)
      cases m with
      | zero => rfl
      | succ m => simp [visitsFor, take_nil]
  | succ n ih =>
      cases m with
      | zero =>
          obtain rfl : b = [] := List.eq_nil_of_length_eq_zero (Nat.le_zero.mp hm)
          simp [visitsFor, take_nil]
      | succ m =>
          simp only [visitsFor]
          cases h : R.take s b with
          | none => rfl
          | some p =>
              have hlt := R.shorter h
              simp only [ih (m := m) (s := p.1) (b := p.2) (by omega) (by omega)]

theorem drain_of_halted {s : σ} {b : List α} (h : R.halted s = true) : R.drain s b = (s, b) :=
  drainFor_of_halted _ h

theorem drain_of_wait {s : σ} {b : List α} (h : R.take s b = none) : R.drain s b = (s, b) :=
  drainFor_of_wait _ h

@[simp] theorem drain_nil (s : σ) : R.drain s [] = (s, []) := rfl

theorem drain_of_take {s s' : σ} {b r : List α} (hh : R.halted s = false)
    (h : R.take s b = some (s', r)) : R.drain s b = R.drain s' r := by
  have hlt := R.shorter h
  obtain ⟨n, hn⟩ : ∃ n, b.length = n + 1 := ⟨b.length - 1, by omega⟩
  rw [drain, hn, drainFor_of_take n hh h]
  exact drainFor_of_length_le (by omega) (Nat.le_refl _)

theorem visits_of_take {s s' : σ} {b r : List α} (hh : R.halted s = false)
    (h : R.take s b = some (s', r)) : R.visits s b = (s, b) :: R.visits s' r := by
  have hlt := R.shorter h
  obtain ⟨n, hn⟩ : ∃ n, b.length = n + 1 := ⟨b.length - 1, by omega⟩
  rw [visits, hn, visitsFor, h, hh]
  simp only [Bool.false_eq_true, if_false]
  rw [visits, visitsFor_of_length_le (m := r.length) (by omega) (Nat.le_refl _)]

theorem visits_of_wait {s : σ} {b : List α} (h : R.take s b = none) : R.visits s b = [(s, b)] := by
  cases b <;> simp [visits, visitsFor, h]

theorem mem_visits_self (s : σ) (b : List α) : (s, b) ∈ R.visits s b := by
  cases b <;> simp [visits, visitsFor]

/-- A reader that stopped draining either halted or waits for more. -/
theorem drain_stops (s : σ) (b : List α) :
    R.halted (R.drain s b).1 = true ∨ R.take (R.drain s b).1 (R.drain s b).2 = none := by
  induction hn : b.length using Nat.strongRecOn generalizing s b with
  | _ n ih =>
      cases hh : R.halted s with
      | true => exact .inl (by rw [drain_of_halted hh]; exact hh)
      | false =>
          cases h : R.take s b with
          | none => exact .inr (by rw [drain_of_wait h]; exact h)
          | some p =>
              rw [drain_of_take hh h]
              exact ih _ (hn ▸ R.shorter h) p.1 p.2 rfl

/-! ## Extending what is pending -/

/-- What a take may not depend on: elements behind the pending ones. Either the same
take happens with more behind it, or the take used up everything pending and
the longer take is the one the next piece would have been given. -/
def Resumes (R : Reader σ α) (P : σ → List α → Prop) : Prop :=
  ∀ ⦃s s' b r⦄ (c : List α), R.halted s = false → P s (b ++ c) → R.take s b = some (s', r) →
    R.take s (b ++ c) = some (s', r ++ c) ∨
      (r = [] ∧ (c ≠ [] → R.halted s' = false ∧ P s' c ∧
        ∃ q, R.take s' c = some q ∧ R.take s (b ++ c) = some q))

/-- `P` holds at every point the one-shot drain passes through. -/
def Clean (R : Reader σ α) (P : σ → List α → Prop) (s : σ) (b : List α) : Prop :=
  ∀ v ∈ R.visits s b, P v.1 v.2

variable {P : σ → List α → Prop}

theorem Clean.head {s : σ} {b : List α} (h : R.Clean P s b) : P s b := h _ (mem_visits_self s b)

theorem Clean.tail {s s' : σ} {b r : List α} (h : R.Clean P s b) (hh : R.halted s = false)
    (ht : R.take s b = some (s', r)) : R.Clean P s' r := fun v hv =>
  h v (by rw [visits_of_take hh ht]; exact List.mem_cons_of_mem _ hv)

/-- Draining a prefix first and the rest afterwards ends where draining it all ends. -/
theorem drain_append (hR : R.Resumes P) (s : σ) (b c : List α) (hc : R.Clean P s (b ++ c)) :
    R.drain s (b ++ c) = R.drain (R.drain s b).1 ((R.drain s b).2 ++ c) ∧
      R.Clean P (R.drain s b).1 ((R.drain s b).2 ++ c) := by
  induction hn : b.length using Nat.strongRecOn generalizing s b with
  | _ n ih =>
      cases hh : R.halted s with
      | true => simpa only [drain_of_halted hh, true_and] using hc
      | false =>
          cases h : R.take s b with
          | none => simpa only [drain_of_wait h, true_and] using hc
          | some p =>
              obtain ⟨s', r⟩ := p
              have hdrain := drain_of_take hh h
              rcases hR c hh hc.head h with hsame | ⟨rfl, hmore⟩
              · rw [hdrain, drain_of_take hh hsame]
                exact ih _ (hn ▸ R.shorter h) s' r (hc.tail hh hsame) rfl
              · simp only [hdrain, drain_nil, List.nil_append]
                rcases eq_or_ne c [] with rfl | hne
                · rw [List.append_nil] at hc ⊢
                  exact ⟨hdrain, hc.tail hh h⟩
                · obtain ⟨hh', hP, q, ht, htb⟩ := hmore hne
                  refine ⟨by rw [drain_of_take hh htb, drain_of_take hh' ht], fun v hv => ?_⟩
                  rw [visits_of_take hh' ht] at hv
                  rcases List.mem_cons.mp hv with rfl | hv
                  · exact hP
                  · exact hc.tail hh htb v hv

/-! ## Feeding pieces -/

theorem settle_of_halted {s : σ} {b : List α} (h : R.halted s = true) :
    R.settle (s, b) = (s, []) := by
  simp [settle, h]

theorem settle_of_running {s : σ} {b : List α} (h : R.halted s = false) :
    R.settle (s, b) = (s, b) := by
  simp [settle, h]

theorem settle_fst (p : σ × List α) : (R.settle p).1 = p.1 := by
  unfold settle
  split <;> rfl

theorem feedAll_of_halted {s : σ} (h : R.halted s = true) (pieces : List (List α)) :
    R.feedAll (s, []) pieces = (s, []) := by
  induction pieces with
  | nil => rfl
  | cons x xs ih => simpa [feedAll, feed, h] using ih

/-- Pieces that are fed behind a bank the reader waits on lead to a point that draining the bank, the
pieces and what comes later passes through as well. -/
theorem feedAll_then (hR : R.Resumes P) {s : σ} {bank : List α} (pieces : List (List α))
    (later : List α) (hh : R.halted s = false) (hw : R.take s bank = none)
    (hc : R.Clean P s (bank ++ pieces.flatten ++ later)) :
    ∃ p, R.feedAll (s, bank) pieces = R.settle p ∧
      R.drain s (bank ++ pieces.flatten ++ later) = R.drain p.1 (p.2 ++ later) ∧
      R.Clean P p.1 (p.2 ++ later) ∧ (R.halted p.1 = true ∨ R.take p.1 p.2 = none) := by
  induction pieces generalizing s bank with
  | nil =>
      refine ⟨(s, bank), (settle_of_running hh).symm, ?_, ?_, .inr hw⟩
      · rw [List.flatten_nil, List.append_nil]
      · rwa [List.flatten_nil, List.append_nil] at hc
  | cons x xs ih =>
      have hflat : bank ++ (x :: xs).flatten ++ later = (bank ++ x) ++ (xs.flatten ++ later) := by
        simp
      rw [hflat] at hc ⊢
      obtain ⟨hdrain, hclean⟩ := drain_append hR s (bank ++ x) (xs.flatten ++ later) hc
      have hfeed : R.feed (s, bank) x = R.settle (R.drain s (bank ++ x)) := by simp [feed, hh]
      have hall : R.feedAll (s, bank) (x :: xs) = R.feedAll (R.feed (s, bank) x) xs := rfl
      rw [hall, hfeed, hdrain]
      have hstop := drain_stops (R := R) s (bank ++ x)
      generalize R.drain s (bank ++ x) = p at hclean hstop ⊢
      obtain ⟨s', r⟩ := p
      rw [← List.append_assoc] at hclean ⊢
      cases hh' : R.halted s' with
      | true =>
          refine ⟨(s', r ++ xs.flatten), ?_, rfl, hclean, .inl hh'⟩
          rw [settle_of_halted hh', feedAll_of_halted hh', settle_of_halted hh']
      | false =>
          rw [settle_of_running hh']
          exact ih hh' (hstop.resolve_left (by simp [hh'])) hclean

/-- Feeding pieces behind a bank the reader waits on is draining the bank and all of them. -/
theorem feedAll_of_wait (hR : R.Resumes P) {s : σ} {bank : List α} (pieces : List (List α))
    (hh : R.halted s = false) (hw : R.take s bank = none)
    (hc : R.Clean P s (bank ++ pieces.flatten)) :
    R.feedAll (s, bank) pieces = R.settle (R.drain s (bank ++ pieces.flatten)) := by
  obtain ⟨p, hfeed, hdrain, -, hstop⟩ :=
    feedAll_then hR pieces [] hh hw (by rwa [List.append_nil])
  rw [List.append_nil, List.append_nil] at hdrain
  rw [hfeed, hdrain]
  obtain hhalted | hwait := hstop
  · rw [drain_of_halted hhalted]
  · rw [drain_of_wait hwait]

/-- Where the one-shot drain is clean, every cut of the stream ends in the same state. -/
theorem feedAll_eq_feed (hR : R.Resumes P) (s : σ) (pieces : List (List α))
    (hc : R.Clean P s pieces.flatten) :
    R.feedAll (s, []) pieces = R.feed (s, []) pieces.flatten := by
  cases hh : R.halted s with
  | true => rw [feedAll_of_halted hh]; simp [feed, hh]
  | false =>
      rw [feedAll_of_wait hR pieces hh (take_nil s) hc]
      simp [feed, hh]

/-! ## Messages -/

/-- Draining from one point leads to another, and passes clean points only. -/
structure Leads (R : Reader σ α) (P : σ → List α → Prop) (s : σ) (b : List α) (s' : σ)
    (r : List α) : Prop where
  drain : R.drain s b = R.drain s' r
  clean : R.Clean P s' r → R.Clean P s b

theorem Leads.refl (s : σ) (b : List α) : R.Leads P s b s b := ⟨rfl, id⟩

theorem Leads.trans {s s' s'' : σ} {b r r' : List α} (h : R.Leads P s b s' r)
    (h' : R.Leads P s' r s'' r') : R.Leads P s b s'' r' :=
  ⟨h.drain.trans h'.drain, fun hc => h.clean (h'.clean hc)⟩

theorem Leads.of_take {s s' : σ} {b r : List α} (hh : R.halted s = false) (hP : P s b)
    (h : R.take s b = some (s', r)) : R.Leads P s b s' r := by
  refine ⟨drain_of_take hh h, fun hc v hv => ?_⟩
  rw [visits_of_take hh h] at hv
  obtain rfl | hv := List.mem_cons.mp hv
  · exact hP
  · exact hc v hv

/-- Draining that leads to the end of what is pending comes to the same in pieces. -/
theorem Leads.feedAll (hR : R.Resumes P) {s s' : σ} {b : List α} (h : R.Leads P s b s' [])
    (hP : P s' []) {pieces : List (List α)} (hcut : pieces.flatten = b) :
    R.feedAll (s, []) pieces = (s', []) := by
  have hclean : R.Clean P s b := h.clean fun v hv => by
    rw [visits_of_wait (take_nil s'), List.mem_singleton] at hv
    rw [hv]
    exact hP
  have hdrain := h.drain
  rw [drain_nil] at hdrain
  have hsettle : R.settle (s', []) = (s', []) := by
    unfold settle
    split <;> rfl
  rw [feedAll_eq_feed hR s pieces (hcut ▸ hclean), hcut, feed]
  cases hh : R.halted s with
  | true =>
      rw [drain_of_halted hh] at hdrain
      rw [if_pos rfl, (Prod.mk.inj hdrain).1]
  | false => rw [if_neg (by simp), List.nil_append, hdrain, hsettle]

/-- A message: whatever stands behind it, the reader halts right behind it. -/
structure Ends (R : Reader σ α) (P : σ → List α → Prop) (s : σ) (b : List α) (s' : σ) : Prop where
  halted : R.halted s' = true
  drain : ∀ t, R.drain s (b ++ t) = (s', t)
  clean : ∀ t, R.Clean P s (b ++ t)

theorem clean_of_halted {s : σ} {b : List α} (hh : R.halted s = true) (hP : P s b) :
    R.Clean P s b := by
  intro v hv
  have hself : R.visits s b = [(s, b)] := by cases b <;> simp [visits, visitsFor, hh]
  rw [hself, List.mem_singleton] at hv
  rw [hv]
  exact hP

theorem Ends.of_leads {s s' : σ} {b : List α} (hh : R.halted s' = true) (hP : ∀ t, P s' t)
    (h : ∀ t, R.Leads P s (b ++ t) s' t) : R.Ends P s b s' :=
  ⟨hh, fun t => (h t).drain.trans (drain_of_halted hh),
    fun t => (h t).clean (clean_of_halted hh (hP t))⟩

section

variable {s s' : σ} {b t : List α} {pieces : List (List α)}

/-- A message that is cut anywhere, with anything behind it, is read to its end. -/
theorem Ends.feedAll (hR : R.Resumes P) (h : R.Ends P s b s') (hcut : pieces.flatten = b ++ t) :
    R.feedAll (s, []) pieces = (s', []) := by
  rw [feedAll_eq_feed hR s pieces (hcut ▸ h.clean t), feed]
  cases hh : R.halted s with
  | true =>
      have hdrain := h.drain t
      rw [drain_of_halted hh] at hdrain
      rw [if_pos rfl, (Prod.mk.inj hdrain).1]
  | false =>
      rw [if_neg (by simp), List.nil_append, hcut, h.drain t, settle_of_halted h.halted]

/-- The piece with which the reader halts holds the last element of the message, and what stands
behind the message is left of the piece. -/
theorem Ends.completes (hR : R.Resumes P) (h : R.Ends P s b s') {front : List (List α)}
    {piece more : List α} (hcut : front.flatten ++ piece ++ more = b ++ t)
    (hbefore : R.halted (R.feedAll (s, []) front).1 = false)
    (hafter : R.halted (R.feed (R.feedAll (s, []) front) piece).1 = true) :
    ∃ rest, R.drain (R.feedAll (s, []) front).1 ((R.feedAll (s, []) front).2 ++ piece) = (s', rest) ∧
      rest.length ≤ piece.length ∧ front.flatten ++ piece = b ++ rest := by
  have hh : R.halted s = false := by
    by_contra hhalted
    rw [feedAll_of_halted (by simpa using hhalted)] at hbefore
    exact hhalted hbefore
  -- The pieces in front of it do not hold the whole message.
  have hshort : front.flatten.length < b.length := by
    by_contra hlong
    have hprefix : b <+: front.flatten := by
      refine List.prefix_of_prefix_length_le (List.prefix_append b t) ?_ (by omega)
      rw [← hcut, List.append_assoc]
      exact List.prefix_append _ _
    obtain ⟨t', ht'⟩ := hprefix
    rw [h.feedAll hR ht'.symm, h.halted] at hbefore
    cases hbefore
  obtain ⟨p, hfeed, hdrain, hclean, -⟩ := feedAll_then hR front (piece ++ more) hh (take_nil s)
    (by rw [List.nil_append, ← List.append_assoc, hcut]; exact h.clean t)
  rw [List.nil_append, ← List.append_assoc, hcut, h.drain t] at hdrain
  rw [hfeed, settle_fst] at hbefore
  rw [hfeed, settle, if_neg (by simp [hbefore])] at hafter ⊢
  rw [← List.append_assoc] at hdrain hclean
  obtain ⟨htwo, -⟩ := drain_append hR p.1 (p.2 ++ piece) more hclean
  have hstop : R.halted (R.drain p.1 (p.2 ++ piece)).1 = true := by
    rwa [feed, if_neg (by simp [hbefore]), settle_fst] at hafter
  rw [htwo, drain_of_halted hstop] at hdrain
  obtain ⟨hs', ht⟩ := Prod.mk.inj hdrain
  refine ⟨(R.drain p.1 (p.2 ++ piece)).2, by rw [hs'], ?_, ?_⟩
  · have hlength := congrArg List.length hcut
    have hrest := congrArg List.length ht
    simp only [List.length_append] at hlength hrest
    omega
  · rw [ht, ← List.append_assoc] at hcut
    exact List.append_cancel_right hcut

end

/-! ## What every take keeps -/

theorem drain_invariant {I : σ → Prop} (h : ∀ s b s' r, R.take s b = some (s', r) → I s → I s')
    {s : σ} {b : List α} (hs : I s) : I (R.drain s b).1 := by
  induction hn : b.length using Nat.strongRecOn generalizing s b with
  | _ n ih =>
      cases hh : R.halted s with
      | true => rwa [drain_of_halted hh]
      | false =>
          cases ht : R.take s b with
          | none => rwa [drain_of_wait ht]
          | some p =>
              rw [drain_of_take hh ht]
              exact ih _ (hn ▸ R.shorter ht) (h s b p.1 p.2 ht hs) rfl

theorem visits_invariant {I : σ → List α → Prop}
    (h : ∀ s b s' r, R.take s b = some (s', r) → I s b → I s' r) {s : σ} {b : List α} (hs : I s b) :
    ∀ v ∈ R.visits s b, I v.1 v.2 := by
  induction hn : b.length using Nat.strongRecOn generalizing s b with
  | _ n ih =>
      intro v hv
      cases hh : R.halted s with
      | true =>
          have hself : R.visits s b = [(s, b)] := by cases b <;> simp [visits, visitsFor, hh]
          rw [hself, List.mem_singleton] at hv
          rw [hv]
          exact hs
      | false =>
          cases ht : R.take s b with
          | none =>
              rw [visits_of_wait ht, List.mem_singleton] at hv
              rw [hv]
              exact hs
          | some p =>
              rw [visits_of_take hh ht] at hv
              obtain rfl | hv := List.mem_cons.mp hv
              · exact hs
              · exact ih _ (hn ▸ R.shorter ht) (h s b p.1 p.2 ht hs) rfl v hv

/-- Where a drain ends it has been. -/
theorem drain_mem_visits (s : σ) (b : List α) : R.drain s b ∈ R.visits s b := by
  induction hn : b.length using Nat.strongRecOn generalizing s b with
  | _ n ih =>
      cases hh : R.halted s with
      | true =>
          rw [drain_of_halted hh]
          exact mem_visits_self s b
      | false =>
          cases ht : R.take s b with
          | none =>
              rw [drain_of_wait ht]
              exact mem_visits_self s b
          | some p =>
              rw [drain_of_take hh ht, visits_of_take hh ht]
              exact List.mem_cons_of_mem _ (ih _ (hn ▸ R.shorter ht) p.1 p.2 rfl)

theorem feed_invariant {I : σ → Prop} (h : ∀ s b s' r, R.take s b = some (s', r) → I s → I s')
    {p : σ × List α} (piece : List α) (hs : I p.1) : I (R.feed p piece).1 := by
  unfold feed
  split
  · exact hs
  · rw [settle_fst]
    exact drain_invariant h hs

theorem feedAll_invariant {I : σ → Prop}
    (h : ∀ s b s' r, R.take s b = some (s', r) → I s → I s') {p : σ × List α}
    (pieces : List (List α)) (hs : I p.1) : I (R.feedAll p pieces).1 := by
  induction pieces generalizing p with
  | nil => exact hs
  | cons x xs ih => exact ih (feed_invariant h x hs)

/-- A piece from which something is taken at once leaves what that take leaves. -/
theorem feed_of_take {I : σ → Prop} (h : ∀ s b s' r, R.take s b = some (s', r) → I s → I s')
    {s s' : σ} {piece r : List α} (hh : R.halted s = false) (ht : R.take s piece = some (s', r))
    (hs : I s') : I (R.feed (s, []) piece).1 := by
  have hfeed : R.feed (s, []) piece = R.settle (R.drain s' r) := by
    simp [feed, hh, drain_of_take hh ht]
  rw [hfeed, settle_fst]
  exact drain_invariant h hs

end Reader

end Cutting
