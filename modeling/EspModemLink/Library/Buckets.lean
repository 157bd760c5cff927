import Mathlib.Data.List.Basic
import Mathlib.Data.List.Perm.Basic

/-!
# Entries in buckets

A map from keys to lists of entries, as the list of its buckets in some order. A new entry goes to
the end of the bucket of its key. Taking entries out stops at the first bucket that had one, which
makes no difference as long as there is one at most.
-/

namespace Buckets

variable {κ ε : Type*}

/-- Every entry, bucket by bucket. -/
def entries (buckets : List (κ × List ε)) : List ε := buckets.flatMap Prod.snd

/-- Put an entry into the bucket of a key, which may be a new one. -/
def push [DecidableEq κ] (key : κ) (e : ε) : List (κ × List ε) → List (κ × List ε)
  | [] => [(key, [e])]
  | (k, es) :: buckets =>
      if k = key then (k, es ++ [e]) :: buckets else (k, es) :: push key e buckets

/-- Take the entries that `p` holds for out of the first bucket that has one. -/
def removeFirst (p : ε → Bool) : List (κ × List ε) → List (κ × List ε)
  | [] => []
  | (k, es) :: buckets =>
      if es.any p then (k, es.filter fun e => !p e) :: buckets
      else (k, es) :: removeFirst p buckets

/-- Every entry is in the bucket of its own key. -/
def Filed (key : ε → κ) (buckets : List (κ × List ε)) : Prop :=
  ∀ b ∈ buckets, ∀ e ∈ b.2, key e = b.1

@[simp] theorem entries_nil : entries ([] : List (κ × List ε)) = [] := rfl

@[simp] theorem entries_cons (b : κ × List ε) (buckets : List (κ × List ε)) :
    entries (b :: buckets) = b.2 ++ entries buckets := rfl

variable {buckets more : List (κ × List ε)} {key : ε → κ} {p : ε → Bool}

theorem entries_perm (h : buckets.Perm more) : (entries buckets).Perm (entries more) :=
  h.flatMap_right Prod.snd

theorem Filed.perm (h : Filed key buckets) (hperm : buckets.Perm more) : Filed key more :=
  fun b hb => h b (hperm.mem_iff.mpr hb)

section Push

variable [DecidableEq κ]

theorem entries_push (k : κ) (e : ε) (buckets : List (κ × List ε)) :
    (entries (push k e buckets)).Perm (entries buckets ++ [e]) := by
  induction buckets with
  | nil => exact List.Perm.refl _
  | cons b buckets ih =>
      obtain ⟨k', es⟩ := b
      rw [push]
      split
      · rw [entries_cons, entries_cons, List.append_assoc, List.append_assoc]
        exact (List.perm_append_comm).append_left es
      · rw [entries_cons, entries_cons, List.append_assoc]
        exact ih.append_left es

theorem Filed.push (h : Filed key buckets) (e : ε) : Filed key (push (key e) e buckets) := by
  induction buckets with
  | nil =>
      intro b hb e' he'
      obtain rfl := List.mem_singleton.mp hb
      rw [List.mem_singleton.mp he']
  | cons b buckets ih =>
      obtain ⟨k, es⟩ := b
      obtain ⟨hhead, htail⟩ := List.forall_mem_cons.mp h
      rw [Buckets.push]
      split
      · rename_i hkey
        refine List.forall_mem_cons.mpr ⟨fun e' he' => ?_, htail⟩
        obtain he' | he' := List.mem_append.mp he'
        · exact hhead e' he'
        · rw [List.mem_singleton.mp he']
          exact hkey.symm
      · exact List.forall_mem_cons.mpr ⟨hhead, ih htail⟩

end Push

theorem Filed.removeFirst (h : Filed key buckets) : Filed key (removeFirst p buckets) := by
  induction buckets with
  | nil => exact h
  | cons b buckets ih =>
      obtain ⟨k, es⟩ := b
      obtain ⟨hhead, htail⟩ := List.forall_mem_cons.mp h
      rw [Buckets.removeFirst]
      split
      · exact List.forall_mem_cons.mpr
          ⟨fun e he => hhead e (List.mem_of_mem_filter he), htail⟩
      · exact List.forall_mem_cons.mpr ⟨hhead, ih htail⟩

/-- With one such entry at most, no other bucket has to be looked at. -/
theorem entries_removeFirst (h : (entries buckets).countP p ≤ 1) :
    entries (removeFirst p buckets) = (entries buckets).filter fun e => !p e := by
  induction buckets with
  | nil => rfl
  | cons b buckets ih =>
      obtain ⟨k, es⟩ := b
      rw [entries_cons, List.countP_append] at h
      dsimp only at h
      rw [removeFirst, entries_cons, List.filter_append]
      split
      · rename_i hany
        obtain ⟨e, he, hp⟩ := List.any_eq_true.mp hany
        have hpositive : 0 < es.countP p := List.countP_pos_iff.mpr ⟨e, he, hp⟩
        have hnone : (entries buckets).countP p = 0 := by omega
        have hrest : (entries buckets).filter (fun e => !p e) = entries buckets := by
          apply List.filter_eq_self.mpr
          intro e' he'
          simpa using List.countP_eq_zero.mp hnone e' he'
        rw [hrest]
        rfl
      · rename_i hany
        have hkeep : es.filter (fun e => !p e) = es := by
          apply List.filter_eq_self.mpr
          intro e' he'
          simpa using fun hp => hany (List.any_eq_true.mpr ⟨e', he', hp⟩)
        rw [entries_cons, hkeep, ih (by omega)]

/-- The entries of the buckets whose key satisfies a predicate are those whose own key does. -/
theorem entries_filter (h : Filed key buckets) (q : κ → Bool) :
    entries (buckets.filter fun b => q b.1) = (entries buckets).filter fun e => q (key e) := by
  induction buckets with
  | nil => rfl
  | cons b buckets ih =>
      obtain ⟨hhead, htail⟩ := List.forall_mem_cons.mp h
      have hsame : b.2.filter (fun e => q (key e)) = b.2.filter fun _ => q b.1 :=
        List.filter_congr fun e he => by rw [hhead e he]
      rw [List.filter_cons, entries_cons, List.filter_append, ← ih htail, hsame]
      cases hq : q b.1 with
      | false => simp
      | true => simp

end Buckets
