import EspModemLink.AtChannel.BaudAlignment

/-!
# The rates an answer lists

`ListsRate` goes on behind every occurrence it rejects. A number that stands alone is not passed by
that: an occurrence that reached into it would hold the byte in front of it, which is no digit.
-/

namespace EspModemLink.AtChannel

open Bytes

/-- A run of digits that no digit stands next to. -/
structure MaximalRun (s run : Bytes) (before after : Bytes) : Prop where
  digits : run ≠ [] ∧ ∀ c ∈ run, isDigit c = true
  stands : s = before ++ (run ++ after)
  starts : ∀ c ∈ before.getLast?, isDigit c = false
  ends : ∀ c ∈ after.head?, isDigit c = false

/-- What the loop of `ListsRate` accepts at an index. -/
def WholeAt (s needle : Bytes) (i : ℕ) : Prop :=
  needle <+: s.drop i ∧ (i = 0 ∨ noDigitAt s (i - 1) = true) ∧
    noDigitAt s (i + needle.length) = true

theorem noDigitAt_iff {s : Bytes} {i : ℕ} :
    noDigitAt s i = true ↔ ∀ c ∈ s[i]?, isDigit c = false := by
  unfold noDigitAt
  cases s[i]? with
  | none => simp
  | some c => simp

variable {s needle : Bytes}

/-- An occurrence that is found first does not reach into a whole number behind it. -/
theorem WholeAt.behind {i pos : ℕ} (h : WholeAt s needle i) (hdigits : ∀ c ∈ needle, isDigit c = true)
    (hpos : needle <+: s.drop pos) (hlt : pos < i) : pos + needle.length ≤ i := by
  by_contra hreach
  obtain hzero | hbefore := h.2.1
  · omega
  have hoffset : i - 1 - pos < needle.length := by omega
  have hget : s[i - 1]? = some needle[i - 1 - pos] := by
    obtain ⟨after, hafter⟩ := hpos
    calc s[i - 1]? = (s.drop pos)[i - 1 - pos]? := by
          rw [List.getElem?_drop, Nat.add_sub_cancel' (by omega)]
      _ = some needle[i - 1 - pos] := by
          rw [← hafter, List.getElem?_append_left hoffset, List.getElem?_eq_getElem hoffset]
  have hdigit := hdigits _ (List.getElem_mem hoffset)
  rw [noDigitAt_iff.mp hbefore _ hget] at hdigit
  cases hdigit

/-- The loop answers whether a whole number stands at its index or behind. -/
theorem listsNumberFrom_iff (hne : needle ≠ []) (hdigits : ∀ c ∈ needle, isDigit c = true)
    {fuel start : ℕ} (hfuel : s.length < start + fuel) :
    listsNumberFrom s needle fuel start = true ↔ ∃ i, start ≤ i ∧ WholeAt s needle i := by
  induction fuel generalizing start with
  | zero =>
      constructor
      · intro h
        cases h
      · rintro ⟨i, hi, hwhole⟩
        have hnil : s.drop i = [] := List.drop_eq_nil_of_le (by omega)
        exact absurd (List.prefix_nil.mp (hnil ▸ hwhole.1)) hne
  | succ fuel ih =>
      have hpositive : 0 < needle.length := List.length_pos_iff.mpr hne
      rw [listsNumberFrom]
      cases hfind : find needle (s.drop start) with
      | none =>
          constructor
          · intro h
            cases h
          · rintro ⟨i, hi, hwhole⟩
            have hdrop : needle <+: (s.drop start).drop (i - start) := by
              rw [List.drop_drop, Nat.add_sub_cancel' hi]
              exact hwhole.1
            exact absurd hfind (find_ne_none_of_prefix_drop hdrop)
      | some offset =>
          have hpos : needle <+: s.drop (start + offset) := by
            rw [← List.drop_drop]
            exact prefix_drop_of_find hfind
          have haccepts : ((start + offset == 0 || noDigitAt s (start + offset - 1)) &&
              noDigitAt s (start + offset + needle.length)) = true ↔
              WholeAt s needle (start + offset) := by
            simp [WholeAt, hpos]
          dsimp only
          split
          · rename_i haccept
            exact iff_of_true rfl ⟨start + offset, Nat.le_add_right _ _, haccepts.mp haccept⟩
          · rename_i hreject
            rw [ih (by omega)]
            constructor
            · rintro ⟨i, hi, hwhole⟩
              exact ⟨i, by omega, hwhole⟩
            · rintro ⟨i, hi, hwhole⟩
              refine ⟨i, ?_, hwhole⟩
              have hdrop : needle <+: (s.drop start).drop (i - start) := by
                rw [List.drop_drop, Nat.add_sub_cancel' hi]
                exact hwhole.1
              obtain ⟨j, hj, hfirst⟩ := find_of_prefix_drop hdrop
              obtain rfl := Option.some.inj (hfind.symm.trans hfirst)
              have hne' : start + offset ≠ i := by
                rintro rfl
                exact hreject (haccepts.mpr hwhole)
              exact hwhole.behind hdigits hpos (by omega)

/-- A whole number at an index is a run of digits with its neighbours cut off. -/
theorem maximalRun_of_wholeAt (hdigits : needle ≠ [] ∧ ∀ c ∈ needle, isDigit c = true) {i : ℕ}
    (h : WholeAt s needle i) :
    MaximalRun s needle (s.take i) (s.drop (i + needle.length)) := by
  obtain ⟨⟨after, hafter⟩, hstarts, hends⟩ := h
  have hbehind : s.drop (i + needle.length) = after := by
    rw [← List.drop_drop, ← hafter, List.drop_left]
  refine ⟨hdigits, ?_, ?_, ?_⟩
  · rw [hbehind, hafter, List.take_append_drop]
  · intro c hc
    rw [List.getLast?_take] at hc
    obtain rfl | hbefore := hstarts
    · cases hc
    · split at hc
      · cases hc
      · have hlt : i - 1 < s.length := by
          have hlength := congrArg List.length hafter
          have hpositive := List.length_pos_iff.mpr hdigits.1
          rw [List.length_append, List.length_drop] at hlength
          omega
        rw [List.getElem?_eq_getElem hlt, Option.some_or] at hc
        exact noDigitAt_iff.mp hbefore c (by rwa [List.getElem?_eq_getElem hlt])
  · intro c hc
    rw [List.head?_drop] at hc
    exact noDigitAt_iff.mp hends c hc

theorem MaximalRun.wholeAt {before after : Bytes} (h : MaximalRun s needle before after) :
    WholeAt s needle before.length := by
  refine ⟨?_, ?_, ?_⟩
  · rw [h.stands, List.drop_left]
    exact List.prefix_append _ _
  · rcases List.eq_nil_or_concat before with rfl | ⟨front, c, rfl⟩
    · exact .inl rfl
    · rw [List.concat_eq_append] at h ⊢
      refine .inr (noDigitAt_iff.mpr fun d hd => h.starts d ?_)
      rw [h.stands, List.length_append, List.length_singleton, Nat.add_sub_cancel,
        List.append_assoc, List.getElem?_append_right le_rfl, Nat.sub_self] at hd
      rw [List.getLast?_append]
      exact hd
  · refine noDigitAt_iff.mpr fun c hc => h.ends c ?_
    rw [h.stands, ← List.append_assoc, ← List.length_append,
      List.getElem?_append_right le_rfl, Nat.sub_self] at hc
    rwa [List.head?_eq_getElem?]

theorem decimalInt_of_pos {rate : Int} (h : 0 < rate) : decimalInt rate = decimal rate.toNat := by
  obtain ⟨n, rfl⟩ := Int.eq_ofNat_of_zero_le (Int.le_of_lt h)
  rw [decimalInt, if_neg (by omega)]
  rfl

/-- An answer lists a rate if and only if its digits stand there with no digit next to them. -/
theorem listsRate_iff (supported : Bytes) (rate : Int) (h : 0 < rate) :
    listsRate supported rate = true ↔
      ∃ before after, MaximalRun supported (decimal rate.toNat) before after := by
  have hne := decimal_ne_nil rate.toNat
  have hdigits := isDigit_of_mem_decimal rate.toNat
  rw [listsRate, decimalInt_of_pos h, listsNumberFrom_iff hne hdigits (by omega)]
  constructor
  · rintro ⟨i, -, hwhole⟩
    exact ⟨_, _, maximalRun_of_wholeAt ⟨hne, hdigits⟩ hwhole⟩
  · rintro ⟨before, after, hrun⟩
    exact ⟨before.length, Nat.zero_le _, hrun.wholeAt⟩

/-- 1152000 does not list 115200. -/
theorem listsRate_iff_longer :
    ¬∃ before after, MaximalRun (decimal 1152000) (decimal 115200) before after :=
  mt (listsRate_iff (decimal 1152000) 115200 (by decide)).mpr (by decide)

end EspModemLink.AtChannel
