import EspModemLink.Ml307.Hal
import Mathlib.Order.Fin.Basic

/-!
# The search for a connection id

`OpenSocket` resumes behind the id that it tried last, and `AllocateConnectionId` may have taken that
id in front of lower ones that were released a moment ago. Those are passed over.
-/

namespace EspModemLink.Ml307

/-! ## The turn of an id -/

/-- The free id that a pass comes to first. -/
structure LowestFree (pool : Pool) (first : ℕ) (id : Cid) : Prop where
  free : (pool id).used = false
  ahead : first ≤ id.val
  lowest : ∀ i : Cid, first ≤ i.val → i < id → (pool i).used = true

/-- No free id among these is rather taken than `id`. -/
def Yields (pool : Pool) (clock : Cid → ℕ) (l : List Cid) (id : Cid) : Prop :=
  ∀ k ∈ l, (pool k).used = false →
    (pool k).settled (clock k) = false ∧ (pool id).releasedAt ≤ (pool k).releasedAt

/-- The lowest free id of a pass has settled, or no free id above it has settled or was released
before it. -/
def InTurn (pool : Pool) (clock : Cid → ℕ) (first : ℕ) : Prop :=
  ∀ id, LowestFree pool first id → (pool id).settled (clock id) = true ∨
    ∀ k > id, (pool k).used = false →
      (pool k).settled (clock k) = false ∧ (pool id).releasedAt ≤ (pool k).releasedAt

/-! ## What the loop picks -/

variable {pool : Pool} {clock : Cid → ℕ}

theorem pickSlot_cons (i : Cid) (l : List Cid) (oldest : Option Cid) :
    pickSlot pool clock (i :: l) oldest =
      if (pool i).used then pickSlot pool clock l oldest
      else if (pool i).settled (clock i) then some i
      else
        match oldest with
        | none => pickSlot pool clock l (some i)
        | some o =>
            if (pool i).releasedAt < (pool o).releasedAt then pickSlot pool clock l (some i)
            else pickSlot pool clock l oldest := by
  cases oldest with
  | none => rfl
  | some o => rfl

/-- An id is picked from the list, or it is the oldest so far. -/
theorem mem_of_pickSlot {l : List Cid} {oldest : Option Cid} {id : Cid}
    (h : pickSlot pool clock l oldest = some id) :
    (id ∈ l ∧ (pool id).used = false) ∨ oldest = some id := by
  induction l generalizing oldest with
  | nil => exact .inr h
  | cons i l ih =>
      have hbehind : (id ∈ l ∧ (pool id).used = false) → (id ∈ i :: l ∧ (pool id).used = false) :=
        fun h => ⟨List.mem_cons_of_mem i h.1, h.2⟩
      rw [pickSlot_cons] at h
      split at h
      · exact (ih h).imp_left hbehind
      · rename_i hfree
        have hhere : i = id → (id ∈ i :: l ∧ (pool id).used = false) := by
          rintro rfl
          exact ⟨List.mem_cons_self, Bool.eq_false_iff.mpr hfree⟩
        split at h
        · exact .inl (hhere (Option.some.inj h))
        · split at h
          · exact .inl ((ih h).elim hbehind fun ho => hhere (Option.some.inj ho))
          · split at h
            · exact .inl ((ih h).elim hbehind fun ho => hhere (Option.some.inj ho))
            · exact (ih h).imp_left hbehind

/-- Nothing is picked only where nothing is free. -/
theorem used_of_pickSlot_none {l : List Cid} {oldest : Option Cid}
    (h : pickSlot pool clock l oldest = none) :
    oldest = none ∧ ∀ i ∈ l, (pool i).used = true := by
  induction l generalizing oldest with
  | nil => exact ⟨h, fun _ h => absurd h List.not_mem_nil⟩
  | cons i l ih =>
      rw [pickSlot_cons] at h
      split at h
      · rename_i hused
        obtain ⟨hnone, hrest⟩ := ih h
        exact ⟨hnone, List.forall_mem_cons.mpr ⟨hused, hrest⟩⟩
      · split at h
        · cases h
        · split at h
          · cases (ih h).1
          · split at h
            · cases (ih h).1
            · cases (ih h).1

/-- A free id that is not taken at once stays the oldest if all that follow yield to it. -/
theorem pickSlot_some_iff {l : List Cid} {id : Cid} (hid : id ∉ l) :
    pickSlot pool clock l (some id) = some id ↔ Yields pool clock l id := by
  induction l with
  | nil => exact iff_of_true rfl fun _ h => absurd h List.not_mem_nil
  | cons i l ih =>
      obtain ⟨hne, hid⟩ := List.ne_and_not_mem_of_not_mem_cons hid
      have hcons : Yields pool clock (i :: l) id ↔ ((pool i).used = false →
          (pool i).settled (clock i) = false ∧ (pool id).releasedAt ≤ (pool i).releasedAt) ∧
          Yields pool clock l id := List.forall_mem_cons
      rw [pickSlot_cons, hcons]
      split
      · rename_i hused
        rw [ih hid]
        exact (and_iff_right fun hfree => absurd (hused.symm.trans hfree) (by decide)).symm
      · rename_i hfree
        have hfree := Bool.eq_false_iff.mpr hfree
        split
        · rename_i hsettled
          refine iff_of_false (fun h => hne (Option.some.inj h).symm) ?_
          rintro ⟨h, -⟩
          exact absurd (hsettled.symm.trans (h hfree).1) (by decide)
        · rename_i hunsettled
          have hunsettled := Bool.eq_false_iff.mpr hunsettled
          dsimp only
          split
          · rename_i holder
            refine iff_of_false ?_ fun h => absurd (h.1 hfree).2 (Nat.not_le_of_lt holder)
            intro h
            obtain h | h := mem_of_pickSlot h
            · exact hid h.1
            · exact hne (Option.some.inj h).symm
          · rename_i hyounger
            rw [ih hid]
            exact (and_iff_right fun _ => ⟨hunsettled, Nat.le_of_not_lt hyounger⟩).symm

/-- The lowest free id of an ascending list is picked if it has settled, or all above yield to it. -/
theorem pickSlot_iff {l : List Cid} (hsorted : l.Pairwise (· < ·)) {id : Cid} (hid : id ∈ l)
    (hfree : (pool id).used = false) (hlowest : ∀ i ∈ l, i < id → (pool i).used = true) :
    pickSlot pool clock l none = some id ↔
      (pool id).settled (clock id) = true ∨
        ∀ k ∈ l, id < k → (pool k).used = false →
          (pool k).settled (clock k) = false ∧ (pool id).releasedAt ≤ (pool k).releasedAt := by
  induction l with
  | nil => exact absurd hid List.not_mem_nil
  | cons i l ih =>
      obtain ⟨habove, hsorted⟩ := List.pairwise_cons.mp hsorted
      obtain ⟨hfirst, hlowest⟩ := List.forall_mem_cons.mp hlowest
      rw [List.forall_mem_cons, pickSlot_cons]
      obtain rfl | hid := List.mem_cons.mp hid
      · rw [if_neg (Bool.eq_false_iff.mp hfree)]
        by_cases hsettled : (pool id).settled (clock id) = true
        · rw [if_pos hsettled]
          exact iff_of_true rfl (.inl hsettled)
        · rw [if_neg hsettled, or_iff_right hsettled,
            and_iff_right fun h => absurd h (lt_irrefl id)]
          dsimp only
          rw [pickSlot_some_iff fun h => lt_irrefl id (habove id h)]
          exact forall₂_congr fun k hk => ⟨fun h _ => h, fun h => h (habove k hk)⟩
      · have hlt := habove id hid
        rw [if_pos (hfirst hlt), ih hsorted hid hlowest,
          and_iff_right fun h => absurd h (lt_asymm hlt)]

/-! ## What a pass takes -/

/-- The ids that a pass looks at. -/
abbrev behind (first : ℕ) : List Cid := (List.finRange kMaxConnections).drop first

theorem mem_behind {first : ℕ} {id : Cid} : id ∈ behind first ↔ first ≤ id.val := by
  rw [List.mem_iff_getElem]
  constructor
  · rintro ⟨n, hn, rfl⟩
    rw [List.getElem_drop, List.getElem_finRange]
    exact Nat.le_add_right first n
  · intro h
    have hlt : id.val - first < (behind first).length := by
      rw [List.length_drop, List.length_finRange]
      omega
    refine ⟨id.val - first, hlt, ?_⟩
    rw [List.getElem_drop, List.getElem_finRange]
    exact Fin.ext (Nat.add_sub_of_le h)

theorem pairwise_behind (first : ℕ) : (behind first).Pairwise (· < ·) :=
  (List.pairwise_lt_finRange _).sublist (List.drop_sublist _ _)

/-- What a pass takes is free and not yet passed. -/
theorem of_allocate {pool taken : Pool} {first : ℕ} {id : Cid}
    (h : allocateConnectionId pool clock first = some (id, taken)) :
    pickSlot pool clock (behind first) none = some id ∧ first ≤ id.val ∧
      (pool id).used = false ∧ taken = Function.update pool id { pool id with used := true } := by
  obtain ⟨picked, hpicked, heq⟩ := Option.map_eq_some_iff.mp h
  obtain ⟨rfl, rfl⟩ := Prod.mk.inj heq
  obtain ⟨hmem, hfree⟩ := (mem_of_pickSlot hpicked).resolve_right nofun
  exact ⟨hpicked, mem_behind.mp hmem, hfree, rfl⟩

/-- A pass that takes nothing finds nothing free. -/
theorem used_of_allocate_none {pool : Pool} {first : ℕ}
    (h : allocateConnectionId pool clock first = none) (id : Cid) (hid : first ≤ id.val) :
    (pool id).used = true :=
  (used_of_pickSlot_none (Option.map_eq_none_iff.mp h)).2 id (mem_behind.mpr hid)

theorem exists_lowestFree {pool : Pool} {first : ℕ} (id : Cid) (hahead : first ≤ id.val)
    (hfree : (pool id).used = false) : ∃ j ≤ id, LowestFree pool first j := by
  induction id using WellFoundedLT.induction with
  | ind id ih =>
      by_cases hlower : ∃ i < id, first ≤ i.val ∧ (pool i).used = false
      · obtain ⟨i, hlt, hi, hused⟩ := hlower
        obtain ⟨j, hj, hlowest⟩ := ih i hlt hi hused
        exact ⟨j, hj.trans hlt.le, hlowest⟩
      · refine ⟨id, le_refl id, hfree, hahead, fun i hi hlt => ?_⟩
        exact Bool.eq_true_of_not_eq_false fun h => hlower ⟨i, hlt, hi, h⟩

/-- The lowest free id in its turn is picked. -/
theorem inTurn_iff_picked {pool : Pool} {first : ℕ} :
    InTurn pool clock first ↔ ∀ id, LowestFree pool first id →
      pickSlot pool clock (behind first) none = some id := by
  refine forall₂_congr fun id hid => ?_
  rw [pickSlot_iff (pairwise_behind first) (mem_behind.mpr hid.ahead) hid.free
    fun i hi => hid.lowest i (mem_behind.mp hi)]
  refine or_congr_right (forall_congr' fun k => ?_)
  exact ⟨fun h _ hlt => h hlt, fun h hlt => h (mem_behind.mpr (hid.ahead.trans hlt.le)) hlt⟩

/-- A pass is in turn if and only if it takes the lowest free id. -/
theorem inTurn_iff {pool taken : Pool} {first : ℕ} {id : Cid}
    (h : allocateConnectionId pool clock first = some (id, taken)) :
    InTurn pool clock first ↔ ∀ i : Cid, first ≤ i.val → i < id → (pool i).used = true := by
  obtain ⟨hpicked, hahead, hfree, -⟩ := of_allocate h
  rw [inTurn_iff_picked]
  constructor
  · intro hpick i hi hlt
    by_contra hused
    obtain ⟨j, hj, hlowest⟩ := exists_lowestFree i hi (Bool.eq_false_iff.mpr hused)
    obtain rfl := Option.some.inj ((hpick j hlowest).symm.trans hpicked)
    exact absurd hlt (not_lt.mpr hj)
  · intro hlowest j hj
    obtain hlt | rfl | hlt := lt_trichotomy j id
    · exact absurd ((hlowest j hj.ahead hlt).symm.trans hj.free) (by decide)
    · exact hpicked
    · exact absurd ((hj.lowest id hahead hlt).symm.trans hfree) (by decide)

/-! ## Searches that fail for lack of an id -/

/-- A result that is no lack of ids. -/
def NoLack {α : Type} (r : Result α) : Prop := ∀ e, r = .error e → e.code ≠ .kNoResources

theorem noLack_ok {α : Type} (a : α) : NoLack (.ok a : Result α) := nofun

theorem noLack_error {α : Type} {e : NetworkError} (h : e.code ≠ .kNoResources) :
    NoLack (.error e : Result α) := by
  intro e' he
  cases he
  exact h

theorem noLack_toNetworkError {α : Type} (e : AtError) :
    NoLack (.error e.toNetworkError : Result α) := by
  refine noLack_error ?_
  unfold AtError.toNetworkError
  cases e.code <;> nofun

/-- An error that is handed on. -/
theorem NoLack.code {α : Type} {σ : Type*} {o : Result α × σ} (h : NoLack o.1) {e : NetworkError} {s : σ}
    (heq : o = (.error e, s)) : e.code ≠ .kNoResources :=
  h e (congrArg Prod.fst heq)

namespace World

variable {σ : Type*} (w : World σ)

theorem noLack_command (cmd : Bytes) (timeout : ℕ) (s : σ) : NoLack (w.command cmd timeout s).1 := by
  unfold command
  split
  · exact noLack_ok ()
  · exact noLack_toNetworkError _

theorem noLack_querySocketActive (id : Cid) (s : σ) : NoLack (w.querySocketActive id s).1 := by
  unfold querySocketActive
  split
  · exact noLack_ok _
  · split
    · exact noLack_ok _
    · exact noLack_toNetworkError _

theorem noLack_awaitClosed (id : Cid) (attempts : ℕ) (s : σ) :
    NoLack (w.awaitClosed id attempts s).1 := by
  induction attempts generalizing s with
  | zero => exact noLack_ok _
  | succ attempts ih =>
      rw [awaitClosed]
      split
      · exact noLack_error ((w.noLack_querySocketActive _ _).code ‹_›)
      · exact noLack_ok _
      · exact ih _

theorem noLack_ensureSocketFree (id : Cid) (s : σ) : NoLack (w.ensureSocketFree id s).1 := by
  unfold ensureSocketFree
  split
  · exact noLack_error ((w.noLack_querySocketActive _ _).code ‹_›)
  · exact noLack_ok _
  · split
    · exact w.noLack_awaitClosed id _ _
    · split
      · exact w.noLack_awaitClosed id _ _
      · exact noLack_toNetworkError _

theorem noLack_sslAuthMode (config : TlsConfig) : NoLack (sslAuthMode config) := by
  unfold sslAuthMode
  split
  · exact noLack_error nofun
  · split
    · exact noLack_error nofun
    · split
      · exact noLack_error nofun
      · exact noLack_ok _

theorem noLack_configureSsl (id : Cid) (enable : Bool) (config : TlsConfig) (s : σ) :
    NoLack (w.configureSsl id enable config s).1 := by
  unfold configureSsl
  split
  · split
    · exact noLack_error nofun
    · exact w.noLack_command _ _ _
  · split
    · exact noLack_error (noLack_sslAuthMode config _ ‹_›)
    · split
      · exact noLack_error ((w.noLack_command _ _ _).code ‹_›)
      · split
        · exact noLack_error ((w.noLack_command _ _ _).code ‹_›)
        · exact w.noLack_command _ _ _

theorem noLack_openOnId (id : Cid) (type : SocketType) (host : Bytes) (port : UInt16)
    (timeout : ℕ) (s : σ) : NoLack (w.openOnId id type host port timeout s).1 := by
  unfold openOnId
  split
  · exact noLack_error ((w.noLack_command _ _ _).code ‹_›)
  · unfold waitForOpenResult
    split
    · exact noLack_error nofun
    · split
      · exact noLack_ok ()
      · exact noLack_error nofun

theorem code_describeOpenFailure (ssl : Bool) {e : NetworkError} (h : e.code ≠ .kNoResources) :
    (describeOpenFailure ssl e).code ≠ .kNoResources := by
  unfold describeOpenFailure
  split
  · nofun
  · exact h

/-- An attempt that ends the call does not end it for lack of an id. -/
theorem noLack_attempt (id : Cid) (target : Target) (s : σ) {result : Result Unit}
    (h : (w.attempt id target s).1 = .ends result) : NoLack result := by
  unfold attempt at h
  split at h
  · cases h
    exact noLack_error ((w.noLack_ensureSocketFree _ _).code ‹_›)
  · cases h
  · split at h
    · cases h
      exact noLack_error ((w.noLack_configureSsl _ _ _ _).code ‹_›)
    · split at h
      · cases h
        exact noLack_error ((w.noLack_command _ _ _).code ‹_›)
      · split at h
        · cases h
          exact noLack_ok ()
        · split at h
          · cases h
          · cases h
            exact noLack_error
              (code_describeOpenFailure _ ((w.noLack_openOnId _ _ _ _ _ _).code ‹_›))

end World

/-! ## The search -/

/-- The search failed for lack of an id. -/
def Search.Lacks {σ : Type*} (search : Search σ) : Prop :=
  ∃ e, search.result = .error e ∧ e.code = .kNoResources

/-- What a search from `first` on leaves behind. -/
structure Searched {σ : Type*} (pool : Pool) (first : ℕ) (search : Search σ) : Prop where
  ahead : ∀ v ∈ search.visits, first ≤ v.id.val
  busy : search.Lacks → ∀ v ∈ search.visits, v.attempt.busy = true
  tried : search.Lacks → ((∀ v ∈ search.visits, InTurn v.pool v.clock v.first) ↔
    ∀ id : Cid, first ≤ id.val → (pool id).used = false → ∃ v ∈ search.visits, v.id = id)

/-- With nothing free, nothing is visited. -/
theorem Searched.nothing {σ : Type*} {first : ℕ} (hused : ∀ id : Cid, first ≤ id.val →
    (pool id).used = true) (result : Result Cid) (s : σ) :
    Searched pool first ⟨result, pool, s, []⟩ where
  ahead _ h := absurd h List.not_mem_nil
  busy _ _ h := absurd h List.not_mem_nil
  tried _ := iff_of_true (fun _ h => absurd h List.not_mem_nil) fun id hid hfree =>
    absurd ((hused id hid).symm.trans hfree) (by decide)

/-- An attempt that ends the call is the last. -/
theorem Searched.last {σ : Type*} {first : ℕ} {search : Search σ} {v : Visit}
    (hvisits : search.visits = [v]) (hahead : first ≤ v.id.val) (hlack : ¬search.Lacks) :
    Searched pool first search where
  ahead := by
    rw [hvisits]
    exact List.forall_mem_singleton.mpr hahead
  busy h := absurd h hlack
  tried h := absurd h hlack

/-- A pass whose id is busy goes in front of what the search finds behind that id. -/
theorem Searched.resumed {σ : Type*} {first : ℕ} {taken after : Pool} {id : Cid} {attempt : Attempt}
    {search : Search σ} (halloc : allocateConnectionId pool clock first = some (id, taken))
    (hafter : ∀ k, k ≠ id → after k = pool k) (hbusy : attempt.busy = true)
    (h : Searched after (id.val + 1) search) :
    Searched pool first
      { search with visits := ⟨first, pool, clock, id, attempt⟩ :: search.visits } where
  ahead := by
    refine List.forall_mem_cons.mpr ⟨(of_allocate halloc).2.1, fun v hv => ?_⟩
    have hid := h.ahead v hv
    have hfirst := (of_allocate halloc).2.1
    omega
  busy hlack := List.forall_mem_cons.mpr ⟨hbusy, h.busy hlack⟩
  tried hlack := by
    have hrest := h.tried hlack
    dsimp only
    rw [List.forall_mem_cons, inTurn_iff halloc, hrest]
    constructor
    · rintro ⟨hlowest, hbehind⟩ k hk hfree
      obtain hlt | rfl | hlt := lt_trichotomy k id
      · exact absurd ((hlowest k hk hlt).symm.trans hfree) (by decide)
      · exact ⟨_, List.mem_cons_self, rfl⟩
      · rw [← hafter k hlt.ne'] at hfree
        obtain ⟨v, hv, hid⟩ := hbehind k hlt hfree
        exact ⟨v, List.mem_cons_of_mem _ hv, hid⟩
    · intro hall
      have hothers : ∀ k : Cid, first ≤ k.val → (pool k).used = false → k ≠ id →
          ∃ v ∈ search.visits, v.id = k := by
        intro k hk hfree hne
        obtain ⟨v, hv, hid⟩ := hall k hk hfree
        obtain rfl | hv := List.mem_cons.mp hv
        · exact absurd hid.symm hne
        · exact ⟨v, hv, hid⟩
      constructor
      · intro i hi hlt
        by_contra hused
        obtain ⟨v, hv, rfl⟩ := hothers i hi (Bool.eq_false_iff.mpr hused) hlt.ne
        exact absurd (h.ahead v hv) (Nat.not_le_of_lt (Nat.lt_succ_of_lt hlt))
      · intro k hk hfree
        have hne : k ≠ id := fun heq => absurd hk (by rw [heq]; exact Nat.not_succ_le_self _)
        rw [hafter k hne] at hfree
        exact hothers k ((of_allocate halloc).2.1.trans (Nat.le_of_succ_le hk)) hfree hne

namespace World

variable {σ : Type*} (w : World σ)

/-- The search leaves nothing behind an id that is busy, as long as there is fuel for what is left. -/
theorem openFrom_searched (target : Target) {fuel first : ℕ} (hfuel : kMaxConnections ≤ first + fuel)
    (pool : Pool) (s : σ) : Searched pool first (w.openFrom target fuel first pool s) := by
  have hnone : ∀ {first : ℕ} {pool : Pool}, kMaxConnections ≤ first →
      ∀ id : Cid, first ≤ id.val → (pool id).used = true := fun hle id hid =>
    absurd (Nat.lt_of_lt_of_le id.isLt hle) (Nat.not_lt_of_le hid)
  induction fuel generalizing first pool s with
  | zero => exact .nothing (hnone hfuel) _ _
  | succ fuel ih =>
      rw [openFrom]
      split
      · rename_i hlast
        exact .nothing (hnone hlast) _ _
      · dsimp only
        split
        · rename_i halloc
          exact .nothing (used_of_allocate_none halloc) _ _
        · rename_i id taken halloc
          obtain ⟨-, hahead, -, htaken⟩ := of_allocate halloc
          have hafter : ∀ now, ∀ k, k ≠ id → releaseConnectionId taken id now k = pool k := by
            intro now k hk
            rw [releaseConnectionId, Function.update_of_ne hk, htaken, Function.update_of_ne hk]
          have hresumed : kMaxConnections ≤ id.val + 1 + fuel := by omega
          have hlack : ∀ result, (w.attempt id target (w.slotClock s).2).1 = .ends result →
              NoLack result := fun _ h => w.noLack_attempt id target _ h
          split
          · exact .last rfl hahead (by rintro ⟨e, he, -⟩; cases he)
          · rename_i e hattempt
            refine .last rfl hahead ?_
            rintro ⟨_, he, hcode⟩
            cases he
            exact hlack _ hattempt e rfl hcode
          · rename_i hattempt
            exact .resumed halloc (hafter _) (by rw [hattempt]; rfl) (ih hresumed _ _)
          · rename_i hattempt
            exact .resumed halloc (hafter _) (by rw [hattempt]; rfl) (ih hresumed _ _)

/-! ## What a failed search has tried -/

/-- A search that fails for lack of an id has tried every id that was free, each in vain. -/
def Complete (pool : Pool) (search : Search σ) : Prop :=
  search.Lacks → ∀ id, (pool id).used = false →
    ∃ v ∈ search.visits, v.id = id ∧ v.attempt.busy = true

/-- No id is passed over if and only if every pass takes the lowest free id that is left. -/
theorem openSocket_complete_iff (target : Target) (pool : Pool) (s : σ) :
    Complete pool (w.openSocket target pool s) ↔
      ((w.openSocket target pool s).Lacks →
        ∀ v ∈ (w.openSocket target pool s).visits, InTurn v.pool v.clock v.first) := by
  have h : Searched pool 0 (w.openSocket target pool s) :=
    w.openFrom_searched target (Nat.le_add_left _ _) pool s
  refine forall_congr' fun hlack => ?_
  rw [h.tried hlack]
  constructor
  · intro hall id _ hfree
    obtain ⟨v, hv, hid, -⟩ := hall id hfree
    exact ⟨v, hv, hid⟩
  · intro hall id hfree
    obtain ⟨v, hv, hid⟩ := hall id (Nat.zero_le _) hfree
    exact ⟨v, hv, hid, h.busy hlack v hv⟩

/-- A module that holds every id but 0, half a second after 0 was released. -/
def holdsAllButZero : World Bytes where
  sendCommand cmd _ _ := (.ok (), cmd)
  getResponseLines cmd :=
    if cmd = mipstateLine ⟨0, by decide⟩ then
      [mipstateKey ++ ascii [':', ' ', '0', ',', ',', ',', ','] ++
        inQuotes (ascii ['I', 'N', 'I', 'T', 'I', 'A', 'L'])]
    else
      [mipstateKey ++ ascii [':', ' ', '1', ',', ',', ',', ','] ++
        inQuotes (ascii ['C', 'O', 'N', 'N', 'E', 'C', 'T', 'E', 'D'])]
  getBaudRate _ := 115200
  setBaudRate _ s := (.error { code := .kTimeout }, s)
  stays _ _ _ := rfl
  follows _ _ h := nomatch h
  slotClock s := (fun _ => 1500, s)
  now s := (1500, s)
  sleepFor _ s := s
  awaitOpen _ _ s := (some 0, s)

def zeroSettling : Pool := fun id =>
  if id.val = 0 then { released := true, releasedAt := 1000 } else {}

def exampleTarget : Target := ⟨.tcp, ascii ['h'], 80, false, {}⟩

/-- Ids 1 to 5 are taken in front of 0, and 0 is never tried. -/
theorem zero_passed_over :
    ¬Complete zeroSettling (holdsAllButZero.openSocket exampleTarget zeroSettling []) := by
  intro h
  have hvisits : (holdsAllButZero.openSocket exampleTarget zeroSettling []).visits.map
      (fun v => v.id.val) = [1, 2, 3, 4, 5] := by
    decide +kernel
  have hresult : (holdsAllButZero.openSocket exampleTarget zeroSettling []).result =
      .error (noResources 6) := by
    decide +kernel
  obtain ⟨v, hv, hid, -⟩ := h ⟨_, hresult, rfl⟩ ⟨0, by decide⟩ rfl
  have hmem : v.id.val ∈ [1, 2, 3, 4, 5] := hvisits ▸ List.mem_map_of_mem hv
  rw [hid] at hmem
  exact absurd hmem (by decide)

end World

end EspModemLink.Ml307
