import EspModemLink.AtChannel.UrcDispatcher
import EspModemLink.Library.Buckets
import Mathlib.Data.List.Nodup

/-!
# Who hears of an unsolicited line

`UrcDispatcher` with its table of handlers, through any history of `Subscribe` and `Unsubscribe`.
The buckets of the table may come in any order at any time. Handles are drawn from a 64-bit counter,
and a line of white space is nobody's.
-/

namespace EspModemLink.AtChannel

open Bytes Buckets

/-- `HandlerEntry`, whose handler may be an empty `std::function`. -/
structure Subscription (η : Type*) where
  handle : UInt64
  key : Bytes
  handler : Option η

/-- `UrcDispatcher`, with the buckets of its map in the order they come in. -/
structure Subscriptions (η : Type*) where
  handlers : List (Bytes × List (Subscription η)) := []
  nextHandle : UInt64 := 1

namespace Subscriptions

variable {η : Type*}

def subscribe (d : Subscriptions η) (key : Bytes) (handler : Option η) :
    UInt64 × Subscriptions η :=
  (d.nextHandle,
    { handlers := push key ⟨d.nextHandle, key, handler⟩ d.handlers
      nextHandle := d.nextHandle + 1 })

def unsubscribe (d : Subscriptions η) (handle : UInt64) : Subscriptions η :=
  { d with handlers := removeFirst (fun e => e.handle == handle) d.handlers }

/-- `Dispatch`: the handlers that are called, with the command and the arguments. -/
def dispatch (d : Subscriptions η) (line : Bytes) : List (η × Bytes × Bytes) :=
  let line := trimBy isSpace line
  if line = [] then []
  else
    let command := UrcDispatcher.command line
    let matching := d.handlers.filter fun b => startsWith command b.1
    (matching.flatMap fun b => b.2.filterMap (·.handler)).map fun handler =>
      (handler, command, UrcDispatcher.arguments line)

/-- A call of a history, with the handle that `Subscribe` returned. -/
inductive Event (η : Type*) where
  | subscribed (e : Subscription η)
  | unsubscribed (handle : UInt64)

/-- The states that a history can come to. -/
inductive Reaches : List (Event η) → Subscriptions η → Prop
  | start : Reaches [] {}
  | subscribe {es d} (key : Bytes) (handler : Option η) (h : Reaches es d) :
      Reaches (es ++ [.subscribed ⟨(d.subscribe key handler).1, key, handler⟩])
        (d.subscribe key handler).2
  | unsubscribe {es d} (handle : UInt64) (h : Reaches es d) :
      Reaches (es ++ [.unsubscribed handle]) (d.unsubscribe handle)
  | rehash {es d} (order : List (Bytes × List (Subscription η))) (hperm : order.Perm d.handlers)
      (h : Reaches es d) : Reaches es { d with handlers := order }

/-! ## What a history has left alive -/

def Event.after (live : List (Subscription η)) : Event η → List (Subscription η)
  | .subscribed e => live ++ [e]
  | .unsubscribed handle => live.filter fun e => e.handle ≠ handle

/-- The subscriptions whose handle was returned and not withdrawn since. -/
def live (es : List (Event η)) : List (Subscription η) := es.foldl Event.after []

def subscribed (es : List (Event η)) : List (Subscription η) :=
  es.filterMap fun
    | .subscribed e => some e
    | .unsubscribed _ => none

@[simp] theorem live_concat (es : List (Event η)) (event : Event η) :
    live (es ++ [event]) = event.after (live es) := by
  simp [live]

/-- An event in front of the last one, or the last one itself. -/
theorem concat_eq_append_cons {α : Type*} {es before after : List α} {last x : α} :
    es ++ [last] = before ++ x :: after ↔
      (es = before ∧ last = x ∧ after = []) ∨
        ∃ middle, es = before ++ x :: middle ∧ after = middle ++ [last] := by
  rcases List.eq_nil_or_concat after with rfl | ⟨middle, y, rfl⟩
  · constructor
    · intro h
      obtain ⟨rfl, hlast⟩ := List.append_inj' h rfl
      exact .inl ⟨rfl, (List.cons.inj hlast).1, rfl⟩
    · rintro (⟨rfl, rfl, -⟩ | ⟨middle, -, hmiddle⟩)
      · rfl
      · simp at hmiddle
  · rw [List.concat_eq_append, ← List.cons_append, ← List.append_assoc]
    constructor
    · intro h
      obtain ⟨hes, hlast⟩ := List.append_inj' h rfl
      obtain rfl := (List.cons.inj hlast).1
      exact .inr ⟨middle, hes, rfl⟩
    · rintro (⟨-, -, hafter⟩ | ⟨middle', hes, hafter⟩)
      · simp at hafter
      · obtain ⟨rfl, hlast⟩ := List.append_inj' hafter rfl
        rw [hes, hlast]

theorem mem_live_iff (es : List (Event η)) (e : Subscription η) :
    e ∈ live es ↔ ∃ before after, es = before ++ .subscribed e :: after ∧
      .unsubscribed e.handle ∉ after := by
  induction es using List.reverseRecOn with
  | nil => simp [live]
  | append_singleton es event ih =>
      simp only [live_concat, concat_eq_append_cons]
      cases event with
      | subscribed e' =>
          simp only [Event.after, List.mem_append, List.mem_singleton, ih]
          constructor
          · rintro (⟨before, after, rfl, hkept⟩ | rfl)
            · exact ⟨before, after ++ [.subscribed e'], .inr ⟨after, rfl, rfl⟩, by simpa using hkept⟩
            · exact ⟨es, [], .inl ⟨rfl, rfl, rfl⟩, List.not_mem_nil⟩
          · rintro ⟨before, after, ⟨rfl, hsame, rfl⟩ | ⟨middle, rfl, rfl⟩, hkept⟩
            · exact .inr (Event.subscribed.inj hsame).symm
            · exact .inl ⟨before, middle, rfl, fun h => hkept (List.mem_append_left _ h)⟩
      | unsubscribed handle =>
          simp only [Event.after, List.mem_filter, decide_eq_true_eq, ih]
          constructor
          · rintro ⟨⟨before, after, rfl, hkept⟩, hother⟩
            refine ⟨before, after ++ [.unsubscribed handle], .inr ⟨after, rfl, rfl⟩, ?_⟩
            simpa [hkept] using hother
          · rintro ⟨before, after, ⟨rfl, hsame, rfl⟩ | ⟨middle, rfl, rfl⟩, hkept⟩
            · cases hsame
            · refine ⟨⟨before, middle, rfl, fun h => hkept (List.mem_append_left _ h)⟩, ?_⟩
              rintro rfl
              exact hkept (by simp)

/-! ## What the table holds -/

/-- The handle of the `k`-th call of `Subscribe`, counted from 0. -/
def handleAt (k : ℕ) : UInt64 := UInt64.ofNat (k + 1)

/-- What holds between a history and the state it came to, while no handle is drawn twice. -/
structure Kept (es : List (Event η)) (d : Subscriptions η) : Prop where
  next : d.nextHandle = handleAt (subscribed es).length
  drawn : (subscribed es).map (·.handle) = (List.range (subscribed es).length).map handleAt
  held : (entries d.handlers).Perm (live es)
  filed : Filed (·.key) d.handlers
  returned : ((live es).map (·.handle)).Sublist ((subscribed es).map (·.handle))

theorem handleAt_injOn {j k : ℕ} (hj : j < 2 ^ 64) (hk : k < 2 ^ 64)
    (h : handleAt j = handleAt k) : j = k := by
  have hnat := congrArg UInt64.toNat h
  simp only [handleAt, UInt64.toNat_ofNat'] at hnat
  omega

theorem nodup_handles {n : ℕ} (h : n ≤ 2 ^ 64) : ((List.range n).map handleAt).Nodup := by
  refine List.Nodup.map_on (fun j hj k hk heq => ?_) List.nodup_range
  rw [List.mem_range] at hj hk
  exact handleAt_injOn (by omega) (by omega) heq

variable {es : List (Event η)} {d : Subscriptions η}

/-- A handle stands for one live subscription at most. -/
theorem Kept.countP_le (h : Kept es d) (hfew : (subscribed es).length ≤ 2 ^ 64) (handle : UInt64) :
    (entries d.handlers).countP (fun e => e.handle == handle) ≤ 1 := by
  have hnodup : ((live es).map (·.handle)).Nodup :=
    h.returned.nodup (h.drawn ▸ nodup_handles hfew)
  calc (entries d.handlers).countP (fun e => e.handle == handle)
      = ((live es).map (·.handle)).count handle := by
        rw [h.held.countP_eq, List.count, List.countP_map]
        rfl
    _ ≤ 1 := List.nodup_iff_count_le_one.mp hnodup handle

/-- `Unsubscribe` takes the subscription of the handle, and no other. -/
theorem Kept.entries_unsubscribe (h : Kept es d) (hfew : (subscribed es).length ≤ 2 ^ 64)
    (handle : UInt64) :
    entries (d.unsubscribe handle).handlers =
      (entries d.handlers).filter fun e => e.handle ≠ handle := by
  rw [unsubscribe, entries_removeFirst (h.countP_le hfew handle)]
  apply List.filter_congr
  intro e _
  rw [Bool.beq_eq_decide_eq, decide_not]

theorem kept_start : Kept ([] : List (Event η)) {} where
  next := rfl
  drawn := rfl
  held := List.Perm.refl _
  filed := fun _ h => absurd h List.not_mem_nil
  returned := List.Sublist.refl _

@[simp] theorem subscribed_concat_subscribed (es : List (Event η)) (e : Subscription η) :
    subscribed (es ++ [.subscribed e]) = subscribed es ++ [e] := by
  simp [subscribed]

@[simp] theorem subscribed_concat_unsubscribed (es : List (Event η)) (handle : UInt64) :
    subscribed (es ++ [.unsubscribed handle]) = subscribed es := by
  simp [subscribed]

theorem Kept.subscribe (h : Kept es d) (key : Bytes) (handler : Option η) :
    Kept (es ++ [.subscribed ⟨(d.subscribe key handler).1, key, handler⟩])
      (d.subscribe key handler).2 where
  next := by
    change d.nextHandle + 1 = _
    rw [h.next, subscribed_concat_subscribed, List.length_append, List.length_singleton]
    simp [handleAt]
  drawn := by
    rw [subscribed_concat_subscribed, List.map_append, List.length_append, List.length_singleton,
      List.range_succ, List.map_append, h.drawn, List.map_singleton, List.map_singleton, ← h.next]
    rfl
  held := by
    rw [live_concat]
    exact (entries_push key _ d.handlers).trans (h.held.append_right _)
  filed := h.filed.push ⟨d.nextHandle, key, handler⟩
  returned := by
    rw [live_concat, subscribed_concat_subscribed, Event.after, List.map_append, List.map_append]
    exact h.returned.append_right _

theorem Kept.unsubscribe (h : Kept es d) (hfew : (subscribed es).length ≤ 2 ^ 64)
    (handle : UInt64) : Kept (es ++ [.unsubscribed handle]) (d.unsubscribe handle) where
  next := by
    rw [subscribed_concat_unsubscribed]
    exact h.next
  drawn := by
    rw [subscribed_concat_unsubscribed]
    exact h.drawn
  held := by
    rw [live_concat, h.entries_unsubscribe hfew]
    exact h.held.filter _
  filed := h.filed.removeFirst
  returned := by
    rw [live_concat, subscribed_concat_unsubscribed]
    exact (List.filter_sublist.map _).trans h.returned

theorem Reaches.kept (h : Reaches es d) (hfew : (subscribed es).length ≤ 2 ^ 64) : Kept es d := by
  induction h with
  | start => exact kept_start
  | subscribe key handler _ ih =>
      rw [subscribed_concat_subscribed, List.length_append] at hfew
      exact (ih (by omega)).subscribe key handler
  | unsubscribe handle _ ih =>
      rw [subscribed_concat_unsubscribed] at hfew
      exact (ih hfew).unsubscribe hfew handle
  | rehash order hperm _ ih =>
      have hkept := ih hfew
      exact ⟨hkept.next, hkept.drawn, (entries_perm hperm).trans hkept.held,
        hkept.filed.perm hperm.symm, hkept.returned⟩

/-! ## Who is called -/

/-- The calls for a line, by the subscriptions that are alive. -/
def due (subscriptions : List (Subscription η)) (line : Bytes) : List (η × Bytes × Bytes) :=
  let line := trimBy isSpace line
  ((subscriptions.filter fun e => startsWith (UrcDispatcher.command line) e.key).filterMap
    (·.handler)).map fun handler =>
      (handler, UrcDispatcher.command line, UrcDispatcher.arguments line)

/-- Handlers that only answer are called as by the dispatcher that is given a plain list. -/
theorem due_eq_dispatch {α : Type*} (subscriptions : List (Subscription (Bytes → Bytes → α)))
    {line : Bytes} (hline : trimBy isSpace line ≠ []) :
    (due subscriptions line).map (fun call => call.1 call.2.1 call.2.2) =
      UrcDispatcher.dispatch
        (subscriptions.filterMap fun e => e.handler.map fun handler => ⟨e.key, handler⟩) line := by
  simp only [due, UrcDispatcher.dispatch, if_neg hline, List.map_map]
  induction subscriptions with
  | nil => rfl
  | cons e rest ih =>
      obtain ⟨handle, key, handler⟩ := e
      cases hmatch : startsWith (UrcDispatcher.command (trimBy isSpace line)) key with
      | false => cases handler <;> simp_all
      | true => cases handler <;> simp_all

theorem filterMap_entries (buckets : List (Bytes × List (Subscription η))) :
    (buckets.flatMap fun b => b.2.filterMap (·.handler)) =
      (entries buckets).filterMap (·.handler) := by
  rw [entries, List.filterMap_flatMap]

theorem Kept.dispatch (h : Kept es d) {line : Bytes} (hline : trimBy isSpace line ≠ []) :
    (d.dispatch line).Perm (due (live es) line) := by
  rw [Subscriptions.dispatch, if_neg hline, due]
  dsimp only
  rw [filterMap_entries,
    entries_filter h.filed fun key => startsWith (UrcDispatcher.command (trimBy isSpace line)) key]
  exact (((h.held.filter _).filterMap _).map _)

theorem dispatch_blank {line : Bytes} (hline : trimBy isSpace line = []) :
    d.dispatch line = [] := by
  rw [Subscriptions.dispatch, if_pos hline]

/-- What is promised of a state that a history came to. -/
structure Exact (es : List (Event η)) (d : Subscriptions η) : Prop where
  called : ∀ line, trimBy isSpace line ≠ [] → (d.dispatch line).Perm (due (live es) line)
  blank : ∀ line, trimBy isSpace line = [] → d.dispatch line = []
  withdrawn : ∀ handle, (entries (d.unsubscribe handle).handlers).Perm
    ((entries d.handlers).filter fun e => e.handle ≠ handle)
  alone : ∀ e ∈ entries d.handlers, ∀ e' ∈ entries d.handlers, e.handle = e'.handle → e = e'
  fresh : ((subscribed es).map (·.handle)).Nodup

/-- As long as no handle is drawn twice, the live subscriptions that match are called, each once. -/
theorem dispatches_to_live {es : List (Event η)} {d : Subscriptions η} (h : Reaches es d)
    (hfew : (subscribed es).length ≤ 2 ^ 64) : Exact es d := by
  have hkept := h.kept hfew
  refine ⟨fun line hline => hkept.dispatch hline, fun line hline => dispatch_blank hline,
    fun handle => ?_, fun e he e' he' hsame => ?_, ?_⟩
  · rw [hkept.entries_unsubscribe hfew]
  · have hnodup : ((live es).map (·.handle)).Nodup :=
      hkept.returned.nodup (hkept.drawn ▸ nodup_handles hfew)
    exact List.inj_on_of_nodup_map hnodup (hkept.held.mem_iff.mp he) (hkept.held.mem_iff.mp he') hsame
  · rw [hkept.drawn]
    exact nodup_handles hfew

/-- Two handlers on one prefix, of which the first is withdrawn. -/
theorem dispatches_to_live_second :
    Exact [.subscribed ⟨1, [43], some false⟩, .subscribed ⟨2, [43], some true⟩, .unsubscribed 1]
      { handlers := [([43], [⟨2, [43], some true⟩])], nextHandle := 3 } :=
  dispatches_to_live
    (((Reaches.start.subscribe [43] (some false)).subscribe [43] (some true)).unsubscribe 1)
    (by decide)

theorem exists_subscribed (key : Bytes) (handler : Option η) (n : ℕ) :
    ∃ (es : List (Event η)) (d : Subscriptions η),
      Reaches es d ∧ Kept es d ∧ (subscribed es).length = n := by
  induction n with
  | zero => exact ⟨[], {}, .start, kept_start, rfl⟩
  | succ n ih =>
      obtain ⟨es, d, hreaches, hkept, hlength⟩ := ih
      refine ⟨_, _, hreaches.subscribe key handler, hkept.subscribe key handler, ?_⟩
      rw [subscribed_concat_subscribed, List.length_append, hlength]
      rfl

/-- Nobody is called for a blank line, not even a handler on the empty prefix; and the counter comes
round after 2⁶⁴ handles. -/
theorem blank_line_and_drawn_twice :
    (¬∀ (es : List (Event Unit)) (d : Subscriptions Unit), Reaches es d →
      ∀ line, (d.dispatch line).Perm (due (live es) line)) ∧
    ¬∀ (es : List (Event Unit)) (d : Subscriptions Unit), Reaches es d →
      ((subscribed es).map (·.handle)).Nodup := by
  constructor
  · intro h
    have hcalled := (h _ _ (Reaches.start.subscribe [] (some ())) []).length_eq
    exact absurd hcalled (by decide)
  · intro h
    obtain ⟨es, d, hreaches, hkept, hlength⟩ := exists_subscribed [] (some ()) (2 ^ 64 + 1)
    have hnodup := h es d hreaches
    rw [hkept.drawn, hlength] at hnodup
    have hcomes : handleAt 0 = handleAt (2 ^ 64) := by decide
    have hsame := List.inj_on_of_nodup_map hnodup (List.mem_range.mpr (by omega))
      (List.mem_range.mpr (by omega)) hcomes
    omega

end Subscriptions

end EspModemLink.AtChannel
