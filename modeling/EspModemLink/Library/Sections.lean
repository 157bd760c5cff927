import EspModemLink.Library.Runs
import Mathlib.Algebra.GroupWithZero.Nat
import Mathlib.Data.List.Basic

/-!
# Threads of atomic sections

A thread is the list of atomic sections it still has to execute. Executing one
changes the shared state and may put further sections in front of the thread,
which is how a call, a loop or a callback appears here. Any number of threads
share one state, and a run interleaves their sections in any order.
-/

namespace Sections

/-- The shared state and what each thread still has to execute. -/
structure Config (σ κ : Type*) where
  shared : σ
  threads : List (List κ)
deriving DecidableEq

/-- A step starts a thread at an entry or executes the next section of one. -/
inductive Label (ε χ : Type*) where
  | start (e : ε)
  | run (i : ℕ) (c : χ)
deriving DecidableEq

/-- What a new thread starts with, and what a section does when thread `i` executes it under an
outside choice `χ`. A section that is not enabled answers `none`. -/
structure Program (σ κ ε χ : Type*) where
  entry : ε → σ → Option (σ × List κ)
  exec : ℕ → κ → χ → σ → Option (σ × List κ)

variable {σ κ ε χ : Type*}

namespace Program

/-- One step of the interleaving. A finished or unknown thread is not enabled. -/
def step (P : Program σ κ ε χ) : Runs.Step (Config σ κ) (Label ε χ)
  | cfg, .start e =>
      (P.entry e cfg.shared).map fun out => ⟨out.1, cfg.threads ++ [out.2]⟩
  | cfg, .run i c =>
      match cfg.threads[i]? with
      | some (k :: ks) =>
          (P.exec i k c cfg.shared).map fun out => ⟨out.1, cfg.threads.set i (out.2 ++ ks)⟩
      | _ => none

variable {P : Program σ κ ε χ}

/-- A new thread begins with the sections of its entry. -/
theorem step_start {cfg cfg' : Config σ κ} {e : ε} :
    P.step cfg (.start e) = some cfg' ↔
      ∃ s' q, P.entry e cfg.shared = some (s', q) ∧ cfg' = ⟨s', cfg.threads ++ [q]⟩ := by
  simp only [step, Option.map_eq_some_iff, Prod.exists]
  constructor
  · rintro ⟨s', q, hentry, rfl⟩
    exact ⟨s', q, hentry, rfl⟩
  · rintro ⟨s', q, hentry, rfl⟩
    exact ⟨s', q, hentry, rfl⟩

/-- A thread's step executes the section in front and keeps the rest of the thread behind it. -/
theorem step_run {cfg cfg' : Config σ κ} {i : ℕ} {c : χ} :
    P.step cfg (.run i c) = some cfg' ↔
      ∃ k ks s' ks', cfg.threads[i]? = some (k :: ks) ∧ P.exec i k c cfg.shared = some (s', ks') ∧
        cfg' = ⟨s', cfg.threads.set i (ks' ++ ks)⟩ := by
  simp only [step]
  constructor
  · intro h
    split at h
    · rename_i k ks hget
      obtain ⟨⟨s', ks'⟩, hexec, rfl⟩ := Option.map_eq_some_iff.mp h
      exact ⟨k, ks, s', ks', hget, hexec, rfl⟩
    · cases h
  · rintro ⟨k, ks, s', ks', hget, hexec, rfl⟩
    simp [hget, hexec]

/-- A step of the thread that was started last. -/
theorem step_last (s : σ) (threads : List (List κ)) (k : κ) (ks : List κ) (c : χ) :
    P.step ⟨s, threads ++ [k :: ks]⟩ (.run threads.length c) =
      (P.exec threads.length k c s).map fun out => ⟨out.1, threads ++ [out.2 ++ ks]⟩ := by
  simp [step]

/-- Everything a step can do. -/
theorem step_cases {cfg cfg' : Config σ κ} {l : Label ε χ} (h : P.step cfg l = some cfg') :
    (∃ e s' q, l = .start e ∧ P.entry e cfg.shared = some (s', q) ∧
      cfg' = ⟨s', cfg.threads ++ [q]⟩) ∨
    (∃ i c k ks s' ks', l = .run i c ∧ cfg.threads[i]? = some (k :: ks) ∧
      P.exec i k c cfg.shared = some (s', ks') ∧ cfg' = ⟨s', cfg.threads.set i (ks' ++ ks)⟩) := by
  cases l with
  | start e =>
      obtain ⟨s', q, hentry, hcfg⟩ := step_start.mp h
      exact .inl ⟨e, s', q, rfl, hentry, hcfg⟩
  | run i c =>
      obtain ⟨k, ks, s', ks', hget, hexec, hcfg⟩ := step_run.mp h
      exact .inr ⟨i, c, k, ks, s', ks', rfl, hget, hexec, hcfg⟩

end Program

/-- The section that a step executes. -/
def Label.front (l : Label ε χ) (cfg : Config σ κ) : Option κ :=
  match l with
  | .start _ => none
  | .run i _ => cfg.threads[i]?.bind List.head?

@[simp] theorem Label.front_start (e : ε) (cfg : Config σ κ) :
    (Label.start e : Label ε χ).front cfg = none := rfl

theorem Label.front_run {cfg : Config σ κ} {i : ℕ} {k : κ} {ks : List κ}
    (hget : cfg.threads[i]? = some (k :: ks)) (c : χ) :
    (Label.run i c : Label ε χ).front cfg = some k := by
  simp [front, hget]

theorem Label.of_front {cfg : Config σ κ} {l : Label ε χ} {k : κ} (h : l.front cfg = some k) :
    ∃ i c ks, l = .run i c ∧ cfg.threads[i]? = some (k :: ks) := by
  cases l with
  | start e => cases h
  | run i c =>
      obtain ⟨q, hget, hhead⟩ := Option.bind_eq_some_iff.mp h
      obtain ⟨ks, rfl⟩ : ∃ ks, q = k :: ks := by
        cases q with
        | nil => cases hhead
        | cons x ks => exact ⟨ks, by rw [Option.some.inj hhead]⟩
      exact ⟨i, c, ks, rfl, hget⟩

/-! ## Proof outlines

An outline gives the shared state an invariant and every thread an assertion
about what it still has to execute. A section has to establish the assertion
of its own thread and leave the assertions of all the others standing. -/

/-- The invariant of the shared state together with the assertion of every thread. -/
structure Outline (I : σ → Prop) (A : List κ → σ → Prop) (cfg : Config σ κ) : Prop where
  shared : I cfg.shared
  thread : ∀ q ∈ cfg.threads, A q cfg.shared

/-- Sections that respect an outline, on the steps that meet `ok`. -/
structure Respects (P : Program σ κ ε χ) (ok : Config σ κ → Label ε χ → Prop)
    (I : σ → Prop) (A : List κ → σ → Prop) : Prop where
  start : ∀ cfg e s' q, ok cfg (.start e) → Outline I A cfg →
    P.entry e cfg.shared = some (s', q) → I s' ∧ A q s' ∧ ∀ p ∈ cfg.threads, A p s'
  own : ∀ cfg i c k ks s' ks', ok cfg (.run i c) → cfg.threads[i]? = some (k :: ks) →
    Outline I A cfg → P.exec i k c cfg.shared = some (s', ks') → I s' ∧ A (ks' ++ ks) s'
  others : ∀ cfg i c k ks s' ks' j q, ok cfg (.run i c) → cfg.threads[i]? = some (k :: ks) →
    Outline I A cfg → P.exec i k c cfg.shared = some (s', ks') → j ≠ i →
    cfg.threads[j]? = some q → A q s'

variable {P : Program σ κ ε χ} {ok : Config σ κ → Label ε χ → Prop}
  {I : σ → Prop} {A : List κ → σ → Prop}

theorem mem_set_cases {α : Type*} {l : List α} {i : ℕ} {a b : α} (h : b ∈ l.set i a) :
    b = a ∨ ∃ j, j ≠ i ∧ l[j]? = some b := by
  obtain ⟨j, hj⟩ := List.mem_iff_getElem?.mp h
  by_cases hji : i = j
  · subst hji
    rw [List.getElem?_set_self'] at hj
    obtain ⟨_, _, hb⟩ := Option.map_eq_some_iff.mp hj
    exact .inl hb.symm
  · rw [List.getElem?_set_ne hji] at hj
    exact .inr ⟨j, fun h => hji h.symm, hj⟩

/-- A section that is left after a step came in front with it or was left before. -/
theorem mem_threads_cases {threads : List (List κ)} {i : ℕ} {k x : κ} {rest ks q : List κ}
    (hget : threads[i]? = some (k :: rest)) (hq : q ∈ threads.set i (ks ++ rest)) (hx : x ∈ q) :
    x ∈ ks ∨ ∃ (j : ℕ) (p : List κ), (threads.set i rest)[j]? = some p ∧ x ∈ p := by
  have hi : i < threads.length := (List.getElem?_eq_some_iff.mp hget).1
  obtain rfl | ⟨j, hji, hj⟩ := mem_set_cases hq
  · obtain hks | hrest := List.mem_append.mp hx
    · exact .inl hks
    · exact .inr ⟨i, rest, List.getElem?_set_self hi, hrest⟩
  · exact .inr ⟨j, q, by rw [List.getElem?_set_ne (Ne.symm hji)]; exact hj, hx⟩

/-- What is left beside the section in front was left with it. -/
theorem mem_threads_of_set {threads : List (List κ)} {i j : ℕ} {k x : κ} {rest p : List κ}
    (hget : threads[i]? = some (k :: rest)) (hj : (threads.set i rest)[j]? = some p) (hx : x ∈ p) :
    ∃ q ∈ threads, x ∈ q := by
  obtain rfl | ⟨j', -, hj'⟩ := mem_set_cases (List.mem_of_getElem? hj)
  · exact ⟨_, List.mem_of_getElem? hget, List.mem_cons_of_mem _ hx⟩
  · exact ⟨p, List.mem_of_getElem? hj', hx⟩

/-- Sections that respect an outline keep it in one step. -/
theorem Respects.step (hr : Respects P ok I A) {cfg cfg' : Config σ κ} {l : Label ε χ}
    (ho : Outline I A cfg) (hok : ok cfg l) (h : P.step cfg l = some cfg') :
    Outline I A cfg' := by
  obtain ⟨e, s', q, rfl, hentry, rfl⟩ | ⟨i, c, k, ks, s', ks', rfl, hget, hexec, rfl⟩ :=
    Program.step_cases h
  · obtain ⟨hI, hA, hothers⟩ := hr.start cfg e s' q hok ho hentry
    refine ⟨hI, fun p hp => ?_⟩
    obtain hp | hp := List.mem_append.mp hp
    · exact hothers p hp
    · exact List.mem_singleton.mp hp ▸ hA
  · obtain ⟨hI, hA⟩ := hr.own cfg i c k ks s' ks' hok hget ho hexec
    refine ⟨hI, fun q hq => ?_⟩
    obtain rfl | ⟨j, hji, hj⟩ := mem_set_cases hq
    · exact hA
    · exact hr.others cfg i c k ks s' ks' j q hok hget ho hexec hji hj

/-- Sections that respect an outline keep it over every run whose steps meet `ok`. -/
theorem Respects.run (hr : Respects P ok I A) {cfg cfg' : Config σ κ} {ls : List (Label ε χ)}
    (ho : Outline I A cfg) (hok : Runs.Along P.step (fun c l _ => ok c l) cfg ls)
    (h : Runs.exec P.step cfg ls = some cfg') : Outline I A cfg' :=
  hok.invariant (fun _ _ _ hi hp hs => hr.step hi hp hs) ho h

/-! ## Weighing what is left to do

A weight on sections is added up over everything that the threads still have to execute. A step
takes the weight of the section it executes away and adds the weight of the sections that come in
front. -/

/-- The weight of a thread. -/
def weight (f : κ → ℕ) (q : List κ) : ℕ := (q.map f).sum

/-- The weight of all threads. -/
def load (f : κ → ℕ) (cfg : Config σ κ) : ℕ := weight (weight f) cfg.threads

@[simp] theorem weight_nil (f : κ → ℕ) : weight f [] = 0 := rfl

@[simp] theorem weight_cons (f : κ → ℕ) (k : κ) (q : List κ) :
    weight f (k :: q) = f k + weight f q := by
  simp [weight]

@[simp] theorem weight_append (f : κ → ℕ) (p q : List κ) :
    weight f (p ++ q) = weight f p + weight f q := by
  simp [weight]

theorem le_weight {f : κ → ℕ} {q : List κ} {k : κ} (h : k ∈ q) : f k ≤ weight f q := by
  induction q with
  | nil => simp at h
  | cons x q ih =>
      rw [weight_cons]
      obtain rfl | h := List.mem_cons.mp h
      · omega
      · have := ih h
        omega

theorem weight_eq_zero {f : κ → ℕ} {q : List κ} (h : ∀ k ∈ q, f k = 0) : weight f q = 0 := by
  induction q with
  | nil => rfl
  | cons x q ih =>
      rw [weight_cons, h x (List.mem_cons_self ..),
        ih fun k hk => h k (List.mem_cons_of_mem _ hk)]

theorem weight_set {f : κ → ℕ} {q : List κ} {i : ℕ} {a b : κ} (h : q[i]? = some b) :
    weight f (q.set i a) + f b = weight f q + f a := by
  induction q generalizing i with
  | nil => simp at h
  | cons x q ih =>
      cases i with
      | zero =>
          obtain rfl : x = b := by simpa using h
          simp only [List.set_cons_zero, weight_cons]
          omega
      | succ i =>
          have := ih (i := i) (by simpa using h)
          simp only [List.set_cons_succ, weight_cons]
          omega

theorem weight_add (f g : κ → ℕ) (q : List κ) :
    weight (fun k => f k + g k) q = weight f q + weight g q := by
  induction q with
  | nil => rfl
  | cons k q ih =>
      simp only [weight_cons, ih]
      omega

theorem weight_le {f g : κ → ℕ} (h : ∀ k, f k ≤ g k) (q : List κ) : weight f q ≤ weight g q := by
  induction q with
  | nil => exact Nat.le_refl 0
  | cons k q ih =>
      rw [weight_cons, weight_cons]
      exact Nat.add_le_add (h k) ih

/-- A lighter weight adds up to less. -/
theorem load_le {f g : κ → ℕ} (h : ∀ k, f k ≤ g k) (cfg : Config σ κ) : load f cfg ≤ load g cfg :=
  weight_le (weight_le h) cfg.threads

/-- Weights add up. -/
theorem load_add (f g : κ → ℕ) (cfg : Config σ κ) :
    load (fun k => f k + g k) cfg = load f cfg + load g cfg := by
  have hthread : weight (fun k => f k + g k) = fun q => weight f q + weight g q :=
    funext (weight_add f g)
  rw [load, hthread, weight_add]
  rfl

/-- A new thread adds its weight. -/
theorem load_start (f : κ → ℕ) (s s' : σ) (threads : List (List κ)) (q : List κ) :
    load f ⟨s', threads ++ [q]⟩ = load f ⟨s, threads⟩ + weight f q := by
  simp [load]

/-- A section gives its weight up for the weight of what it leaves in front. -/
theorem load_run (f : κ → ℕ) {cfg : Config σ κ} {i : ℕ} {k : κ} {ks : List κ}
    (hget : cfg.threads[i]? = some (k :: ks)) (s' : σ) (ks' : List κ) :
    load f ⟨s', cfg.threads.set i (ks' ++ ks)⟩ + f k = load f cfg + weight f ks' := by
  have hset := weight_set (f := weight f) (a := ks' ++ ks) hget
  rw [weight_append, weight_cons] at hset
  simp only [load]
  omega

/-- Whatever a thread still has to execute weighs in. -/
theorem le_load (f : κ → ℕ) {cfg : Config σ κ} {i : ℕ} {q : List κ} {k : κ}
    (hget : cfg.threads[i]? = some q) (hk : k ∈ q) : f k ≤ load f cfg := by
  exact Nat.le_trans (le_weight hk) (le_weight (f := weight f) (List.mem_of_getElem? hget))

/-- A section in front and any other one weigh in both. -/
theorem add_le_load (f : κ → ℕ) {cfg : Config σ κ} {i j : ℕ} {k k' : κ} {ks q : List κ}
    (hget : cfg.threads[i]? = some (k :: ks)) (hget' : (cfg.threads.set i ks)[j]? = some q)
    (hk' : k' ∈ q) : f k + f k' ≤ load f cfg := by
  have hload := load_run f hget cfg.shared []
  have hle : f k' ≤ load f ⟨cfg.shared, cfg.threads.set i ks⟩ := le_load f hget' hk'
  rw [List.nil_append, weight_nil] at hload
  omega

/-! ## The sections of one owner -/

/-- Thread `i` holds the sections `owned` among those that `mine` picks, and no other thread holds
one. -/
structure Owns (mine : κ → Bool) (i : ℕ) (owned : List κ) (cfg : Config σ κ) : Prop where
  here : i < cfg.threads.length
  sections : ∀ j q, cfg.threads[j]? = some q → q.filter mine = if j = i then owned else []

variable {mine : κ → Bool} {i : ℕ} {owned : List κ} {cfg : Config σ κ}

/-- A section of the owner that comes up in front is the first that the owner holds. -/
theorem Owns.front (h : Owns mine i owned cfg) {j : ℕ} {k : κ} {ks : List κ}
    (hget : cfg.threads[j]? = some (k :: ks)) (hk : mine k = true) :
    j = i ∧ owned = k :: ks.filter mine := by
  have hsections := h.sections j _ hget
  rw [List.filter_cons_of_pos hk] at hsections
  by_cases hji : j = i
  · rw [if_pos hji] at hsections
    exact ⟨hji, hsections.symm⟩
  · rw [if_neg hji] at hsections
    cases hsections

/-- A new thread of somebody else. -/
theorem Owns.start (h : Owns mine i owned cfg) (s' : σ) {q : List κ} (hq : q.filter mine = []) :
    Owns mine i owned ⟨s', cfg.threads ++ [q]⟩ := by
  constructor
  · have := h.here
    simp only [List.length_append]
    omega
  · intro j q' hj
    obtain hlt | hge := Nat.lt_or_ge j cfg.threads.length
    · rw [List.getElem?_append_left hlt] at hj
      exact h.sections j q' hj
    · have hnew : q' = q := by
        rw [List.getElem?_append_right hge] at hj
        exact List.mem_singleton.mp (List.mem_of_getElem? hj)
      have := h.here
      rw [hnew, hq, if_neg (by omega)]

/-- A section of somebody else that leaves none of the owner's. -/
theorem Owns.other (h : Owns mine i owned cfg) (s' : σ) {j : ℕ} {k : κ} {ks ks' : List κ}
    (hget : cfg.threads[j]? = some (k :: ks)) (hk : mine k = false) (hks : ks'.filter mine = []) :
    Owns mine i owned ⟨s', cfg.threads.set j (ks' ++ ks)⟩ := by
  constructor
  · simpa using h.here
  · intro l q hl
    by_cases hjl : j = l
    · subst hjl
      rw [List.getElem?_set_self (List.getElem?_eq_some_iff.mp hget).1] at hl
      obtain rfl := Option.some.inj hl
      have hsections := h.sections j _ hget
      rw [List.filter_cons_of_neg (by simpa using hk)] at hsections
      rw [List.filter_append, hks, List.nil_append]
      exact hsections
    · rw [List.getElem?_set_ne hjl] at hl
      exact h.sections l q hl

/-- A section of the owner gives way to the sections that it leaves to the owner. -/
theorem Owns.own {k : κ} {rest : List κ} (h : Owns mine i (k :: rest) cfg) (s' : σ)
    (ks' : List κ) {ks : List κ} (hget : cfg.threads[i]? = some (k :: ks)) (hk : mine k = true) :
    Owns mine i (ks'.filter mine ++ rest) ⟨s', cfg.threads.set i (ks' ++ ks)⟩ := by
  obtain ⟨-, hrest⟩ := h.front hget hk
  constructor
  · simpa using h.here
  · intro l q hl
    by_cases hil : i = l
    · subst hil
      rw [List.getElem?_set_self h.here] at hl
      obtain rfl := Option.some.inj hl
      rw [if_pos rfl, List.filter_append, (List.cons.inj hrest).2]
    · rw [List.getElem?_set_ne hil] at hl
      have := h.sections l q hl
      rw [if_neg (Ne.symm hil)] at this ⊢
      exact this

/-- No thread holds a section that `mine` picks. -/
def Free (mine : κ → Bool) (cfg : Config σ κ) : Prop := ∀ q ∈ cfg.threads, q.filter mine = []

instance Free.decidable : Decidable (Free mine cfg) :=
  decidable_of_iff (∀ q ∈ cfg.threads, (q.filter mine).isEmpty = true) (by simp [Free])

theorem Free.front (h : Free mine cfg) {j : ℕ} {k : κ} {ks : List κ}
    (hget : cfg.threads[j]? = some (k :: ks)) : mine k = false ∧ ks.filter mine = [] := by
  have hq := h _ (List.mem_of_getElem? hget)
  cases hk : mine k with
  | true =>
      rw [List.filter_cons_of_pos hk] at hq
      cases hq
  | false =>
      rw [List.filter_cons_of_neg (by simp [hk])] at hq
      exact ⟨rfl, hq⟩

theorem Free.eq_false (h : Free mine cfg) {q : List κ} (hq : q ∈ cfg.threads) {k : κ} (hk : k ∈ q) :
    mine k = false :=
  Bool.eq_false_iff.mpr (List.filter_eq_nil_iff.mp (h q hq) k hk)

theorem Free.mono {yours : κ → Bool} (h : Free mine cfg)
    (hyours : ∀ k, yours k = true → mine k = true) : Free yours cfg := by
  intro q hq
  rw [List.filter_eq_nil_iff]
  intro k hk hyour
  have hmine := h.eq_false hq hk
  rw [hyours k hyour] at hmine
  cases hmine

theorem Free.load_eq_zero (h : Free mine cfg) : load (fun k => (mine k).toNat) cfg = 0 := by
  apply weight_eq_zero
  intro q hq
  apply weight_eq_zero
  intro k hk
  rw [h.eq_false hq hk, Bool.toNat_false]

theorem Free.start (h : Free mine cfg) (s' : σ) {q : List κ} (hq : q.filter mine = []) :
    Free mine ⟨s', cfg.threads ++ [q]⟩ := by
  intro p hp
  obtain hp | hp := List.mem_append.mp hp
  · exact h p hp
  · rw [List.mem_singleton.mp hp, hq]

theorem Free.run (h : Free mine cfg) (s' : σ) {j : ℕ} {k : κ} {ks ks' : List κ}
    (hget : cfg.threads[j]? = some (k :: ks)) (hks : ks'.filter mine = []) :
    Free mine ⟨s', cfg.threads.set j (ks' ++ ks)⟩ := by
  intro p hp
  obtain rfl | ⟨j', -, hj'⟩ := mem_set_cases hp
  · rw [List.filter_append, hks, (h.front hget).2]
    rfl
  · exact h p (List.mem_of_getElem? hj')

/-- The first thread that holds one owns it. -/
theorem Free.owns_start (h : Free mine cfg) (s' : σ) (q : List κ) :
    Owns mine cfg.threads.length (q.filter mine) ⟨s', cfg.threads ++ [q]⟩ := by
  constructor
  · simp
  · intro j p hj
    obtain hlt | hge := Nat.lt_or_ge j cfg.threads.length
    · rw [List.getElem?_append_left hlt] at hj
      rw [h p (List.mem_of_getElem? hj), if_neg (by omega)]
    · have hlength := (List.getElem?_eq_some_iff.mp hj).1
      rw [List.length_append, List.length_singleton] at hlength
      obtain rfl : j = cfg.threads.length := by omega
      rw [List.getElem?_append_right (Nat.le_refl _), Nat.sub_self] at hj
      rw [if_pos rfl, ← Option.some.inj hj]

theorem Free.owns_run (h : Free mine cfg) (s' : σ) {j : ℕ} {k : κ} {ks : List κ}
    (hget : cfg.threads[j]? = some (k :: ks)) (ks' : List κ) :
    Owns mine j (ks'.filter mine) ⟨s', cfg.threads.set j (ks' ++ ks)⟩ := by
  have hj : j < cfg.threads.length := (List.getElem?_eq_some_iff.mp hget).1
  constructor
  · simpa using hj
  · intro l q hl
    by_cases hlj : l = j
    · subst hlj
      rw [List.getElem?_set_self hj] at hl
      rw [if_pos rfl, ← Option.some.inj hl, List.filter_append, (h.front hget).2, List.append_nil]
    · rw [List.getElem?_set_ne (Ne.symm hlj)] at hl
      rw [h q (List.mem_of_getElem? hl), if_neg hlj]

/-- An owner that is left with nothing. -/
theorem Owns.free (h : Owns mine i [] cfg) : Free mine cfg := by
  intro q hq
  obtain ⟨j, hj⟩ := List.mem_iff_getElem?.mp hq
  rw [h.sections j q hj, ite_self]

theorem Owns.not_free {k : κ} {rest : List κ} (h : Owns mine i (k :: rest) cfg) :
    ¬Free mine cfg := by
  intro hfree
  obtain ⟨q, hget⟩ : ∃ q, cfg.threads[i]? = some q := ⟨_, List.getElem?_eq_getElem h.here⟩
  have hsections := h.sections i q hget
  rw [hfree _ (List.mem_of_getElem? hget), if_pos rfl] at hsections
  cases hsections

/-! ## Sections that are still to come -/

/-- Some thread still has a section that `p` picks. -/
def Remains (p : κ → Prop) (cfg : Config σ κ) : Prop := ∃ q ∈ cfg.threads, ∃ k ∈ q, p k

theorem Remains.start {p : κ → Prop} (h : Remains p cfg) (s' : σ) (q : List κ) :
    Remains p ⟨s', cfg.threads ++ [q]⟩ := by
  obtain ⟨q', hq', k, hk, hp⟩ := h
  exact ⟨q', List.mem_append_left _ hq', k, hk, hp⟩

/-- What a section leaves in front remains. -/
theorem Remains.of_mem {p : κ → Prop} {j : ℕ} {k k' : κ} {ks ks' : List κ}
    (hget : cfg.threads[j]? = some (k :: ks)) (s' : σ) (hk' : k' ∈ ks') (hp : p k') :
    Remains p ⟨s', cfg.threads.set j (ks' ++ ks)⟩ :=
  ⟨ks' ++ ks, List.mem_set (List.getElem?_eq_some_iff.mp hget).1 _, k', List.mem_append_left _ hk', hp⟩

/-- A section stays, unless it is the one that is executed. -/
theorem Remains.run {p p' : κ → Prop} (h : Remains p cfg) (s' : σ) {j : ℕ} {k : κ}
    {ks ks' : List κ} (hget : cfg.threads[j]? = some (k :: ks)) (hfront : p k → ∃ k' ∈ ks', p' k')
    (hothers : ∀ k', p k' → p' k') : Remains p' ⟨s', cfg.threads.set j (ks' ++ ks)⟩ := by
  obtain ⟨q, hq, x, hx, hp⟩ := h
  obtain ⟨l, hl⟩ := List.mem_iff_getElem?.mp hq
  have hj : j < cfg.threads.length := (List.getElem?_eq_some_iff.mp hget).1
  by_cases hjl : j = l
  · subst hjl
    obtain rfl := Option.some.inj (hget.symm.trans hl)
    obtain rfl | hx := List.mem_cons.mp hx
    · obtain ⟨k', hk', hp'⟩ := hfront hp
      exact Remains.of_mem hget s' hk' hp'
    · exact ⟨ks' ++ ks, List.mem_set hj _, x, List.mem_append_right _ hx, hothers x hp⟩
  · refine ⟨q, ?_, x, hx, hothers x hp⟩
    exact List.mem_iff_getElem?.mpr ⟨l, by rw [List.getElem?_set_ne hjl, hl]⟩

/-! ## Operations under way

A thread is a stack: what an operation still has to execute lies on top of what was there when it
began, and the operation is over once the thread has come back to that. -/

/-- An operation that a thread is in, with what lies beneath it there. -/
structure Operation (κ : Type*) where
  thread : ℕ
  beneath : List κ
deriving DecidableEq

/-- The operation is not over yet. -/
def Operation.isOpen (op : Operation κ) (cfg : Config σ κ) : Bool :=
  match cfg.threads[op.thread]? with
  | some q => op.beneath.length < q.length
  | none => false

/-- The last section that is left of the operation is one that `p` picks. -/
def Operation.EndsIn (p : κ → Bool) (op : Operation κ) (cfg : Config σ κ) : Prop :=
  ∃ pre k, cfg.threads[op.thread]? = some (pre ++ k :: op.beneath) ∧ p k = true

variable {p : κ → Bool} {op : Operation κ}

/-- A section that `p` picks leaves the last place to one that `p` picks. -/
def KeepsLast (P : Program σ κ ε χ) (p : κ → Bool) (cfg : Config σ κ) : Prop :=
  ∀ i c k ks s' ks', cfg.threads[i]? = some (k :: ks) → P.exec i k c cfg.shared = some (s', ks') →
    p k = true → ∀ last ∈ ks'.getLast?, p last = true

/-- A section of the operation that has nothing above it and nothing else beneath is the last. -/
theorem Operation.EndsIn.front (h : op.EndsIn p cfg) {k : κ}
    (hget : cfg.threads[op.thread]? = some (k :: op.beneath)) : p k = true := by
  obtain ⟨pre, last, hthread, hlast⟩ := h
  have hsame : k :: op.beneath = pre ++ last :: op.beneath := Option.some.inj (hget.symm.trans hthread)
  have hpre : pre = [] := by
    have hlength := congrArg List.length hsame
    simp only [List.length_cons, List.length_append] at hlength
    exact List.length_eq_zero_iff.mp (by omega)
  subst hpre
  obtain ⟨rfl, -⟩ := List.cons.inj hsame
  exact hlast

/-- An operation ends in sections that `p` picks as long as it is not over. -/
theorem Operation.EndsIn.step {cfg' : Config σ κ} {l : Label ε χ} (hp : KeepsLast P p cfg)
    (h : op.EndsIn p cfg) (hstep : P.step cfg l = some cfg') (hopen : op.isOpen cfg' = true) :
    op.EndsIn p cfg' := by
  obtain ⟨pre, last, hthread, hlast⟩ := h
  have hlt : op.thread < cfg.threads.length := (List.getElem?_eq_some_iff.mp hthread).1
  obtain ⟨e, s', q, rfl, -, rfl⟩ | ⟨i, c, k, ks, s', ks', rfl, hget, hexec, rfl⟩ :=
    Program.step_cases hstep
  · refine ⟨pre, last, ?_, hlast⟩
    simpa [List.getElem?_append_left hlt] using hthread
  · have hi : i < cfg.threads.length := (List.getElem?_eq_some_iff.mp hget).1
    by_cases hthis : i = op.thread
    · subst hthis
      cases pre with
      | nil =>
          -- the last section itself is executed, and leaves something as the operation goes on
          obtain ⟨rfl, rfl⟩ := List.cons.inj (Option.some.inj (hget.symm.trans hthread))
          have hlonger : op.beneath.length < (ks' ++ op.beneath).length := by
            simpa [isOpen, List.getElem?_set_self hi] using hopen
          have hne : ks' ≠ [] := by
            rintro rfl
            simp at hlonger
          obtain ⟨ys, last', rfl⟩ := List.eq_nil_or_concat ks' |>.resolve_left hne
          refine ⟨ys, last', ?_, hp _ _ _ _ _ _ hget hexec hlast last' (by simp)⟩
          simp [List.getElem?_set_self hi]
      | cons x pre =>
          obtain ⟨rfl, rfl⟩ := List.cons.inj (Option.some.inj (hget.symm.trans hthread))
          refine ⟨ks' ++ pre, last, ?_, hlast⟩
          simp [List.getElem?_set_self hi]
    · refine ⟨pre, last, ?_, hlast⟩
      simpa [List.getElem?_set_ne hthis] using hthread

end Sections
