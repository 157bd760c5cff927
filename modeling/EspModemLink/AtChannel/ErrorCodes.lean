import EspModemLink.AtChannel.ResponseParser
import EspModemLink.AtParser
import EspModemLink.Library.Numerals

/-!
# The numbers of CME and CMS errors

`IsStatusLine` adds up the digits behind `+CME ERROR:` and `+CMS ERROR:` in an `int` and stops at no
limit. What `ParseResponse` reports is the number that the digits write exactly when an `int` can
hold it.
-/

namespace EspModemLink.AtChannel

open Bytes

/-- What the digit loop of `IsStatusLine` computes from `code` on, as exact integers: the product
and the sum of each pass. -/
def codeSteps : Int → Bytes → List Int
  | _, [] => []
  | code, c :: rest =>
      if isDigit c then
        code * 10 :: (code * 10 + digitValue c) :: codeSteps (code * 10 + digitValue c) rest
      else []

/-- A value that an `int` holds. -/
def IsInt (v : Int) : Prop := -2 ^ 31 ≤ v ∧ v < 2 ^ 31

instance (v : Int) : Decidable (IsInt v) := inferInstanceAs (Decidable (_ ∧ _))

/-- The decimal digits in front of a text. -/
def leadingDigits (field : Bytes) : List ℕ := (field.takeWhile isDigit).map digitValue

/-- The digits of `2 ^ 31`. -/
def intLimit : List ℕ := [2, 1, 4, 7, 4, 8, 3, 6, 4, 8]

/-- Behind its zeros the number in front of the text has fewer digits than `2 ^ 31`, or as many and
comes before it in the dictionary. -/
def CodeFits (field : Bytes) : Prop :=
  ((leadingDigits field).dropWhile (· == 0)).length < 10 ∨
    ((leadingDigits field).dropWhile (· == 0)).length = 10 ∧
      (leadingDigits field).dropWhile (· == 0) < intLimit

instance (field : Bytes) : Decidable (CodeFits field) := inferInstanceAs (Decidable (_ ∨ _))

/-- `ParseResponse` reports an error line that has this text behind `+CME ERROR:` or
`+CMS ERROR:`. -/
structure Reports (raw field : Bytes) : Prop where
  code : (parseResponse raw).error.code ∈ [AtErrc.kCmeError, AtErrc.kCmsError]
  context : (parseResponse raw).error.context = text field

/-- No step of the digit loop leaves the range of `int`, and the code is the number that the
leading digits write. -/
structure ReportsNumber (raw field : Bytes) : Prop where
  inRange : ∀ v ∈ codeSteps 0 field, IsInt v
  code : (parseResponse raw).error.toNetworkError.native = Numerals.value 10 (leadingDigits field)

/-! ## What is reported -/

theorem text_injective {s t : Bytes} (h : text s = text t) : s = t := by
  have hmap : s.map (fun c => Char.ofNat c.toNat) = t.map fun c => Char.ofNat c.toNat :=
    String.ofList_injective h
  have hinj : Function.Injective fun c : UInt8 => Char.ofNat c.toNat := by
    intro c d hcd
    have hc : ∀ e : UInt8, (Char.ofNat e.toNat).toNat = e.toNat := by
      intro e
      have hlt : e.toNat < 256 := e.toNat_lt
      have hvalid : e.toNat.isValidChar := .inl (by omega)
      rw [Char.ofNat, dif_pos hvalid]
      rfl
    have hnat : c.toNat = d.toNat := by rw [← hc c, ← hc d]; exact congrArg Char.toNat hcd
    exact UInt8.toNat_inj.mp hnat
  exact List.map_injective_iff.mpr hinj hmap

/-- An error is reported as a status line left it. -/
theorem parseLines_error (firstLine : Bool) (raws : List Bytes) (result : ParsedAtResponse) :
    (parseLines firstLine raws result).error = result.error ∨
      ∃ line, isStatusLine line = some (parseLines firstLine raws result).error := by
  induction raws generalizing firstLine result with
  | nil => exact .inl rfl
  | cons raw rest ih =>
      simp only [parseLines]
      split
      · exact ih firstLine result
      · split
        · exact ih false result
        · cases hstatus : isStatusLine (trimBy isSpace raw) with
          | some err =>
              dsimp only
              split
              · exact .inl rfl
              · exact .inr ⟨_, hstatus⟩
          | none => exact ih false _

theorem statusError_code {line : Bytes} {err : AtError} (h : statusError line = some err) :
    err.code = .kCommandError ∨ err = cmeError (line.drop 11) ∨ err = cmsError (line.drop 11) := by
  unfold statusError at h
  split at h
  · exact .inl (congrArg AtError.code (Option.some.inj h).symm)
  · split at h
    · exact .inl (congrArg AtError.code (Option.some.inj h).symm)
    · split at h
      · exact .inr (.inl (Option.some.inj h).symm)
      · split at h
        · exact .inr (.inr (Option.some.inj h).symm)
        · split at h
          · exact .inl (congrArg AtError.code (Option.some.inj h).symm)
          · cases h

theorem error_of_code {raw : Bytes}
    (h : (parseResponse raw).error.code ∈ [AtErrc.kCmeError, AtErrc.kCmsError]) :
    ∃ rest, (parseResponse raw).error = cmeError rest ∨
      (parseResponse raw).error = cmsError rest := by
  obtain herror | ⟨line, hline⟩ := parseLines_error true (rawLines raw) {}
  · rw [parseResponse, herror] at h
    simp at h
  · obtain hcode | hcode := statusError_code hline
    · rw [parseResponse, hcode] at h
      simp at h
    · exact ⟨_, hcode⟩

/-- Each CME or CMS error has a text. -/
theorem exists_reports {raw : Bytes}
    (h : (parseResponse raw).error.code ∈ [AtErrc.kCmeError, AtErrc.kCmsError]) :
    ∃ field, Reports raw field := by
  obtain ⟨rest, herror | herror⟩ := error_of_code h
  · exact ⟨trimBy isSpace rest, h, by rw [herror, cmeError]⟩
  · exact ⟨trimBy isSpace rest, h, by rw [herror, cmsError]⟩

/-- The code of a reported line is what the digit loop makes of its text. -/
theorem Reports.native_eq {raw field : Bytes} (h : Reports raw field) :
    (parseResponse raw).error.toNetworkError.native = errorCode field := by
  have hcontext := h.context
  obtain ⟨rest, herror | herror⟩ := error_of_code h.code
  · rw [herror] at hcontext ⊢
    rw [← text_injective hcontext, AtError.toNetworkError, cmeError]
  · rw [herror] at hcontext ⊢
    rw [← text_injective hcontext, AtError.toNetworkError, cmsError]

/-! ## The digit loop -/

/-- The number that the loop would reach from `n` without a limit. -/
def reached (n : ℕ) (field : Bytes) : ℕ := (leadingDigits field).foldl (fun n d => n * 10 + d) n

theorem reached_cons {c : UInt8} (hc : isDigit c = true) (n : ℕ) (rest : Bytes) :
    reached n (c :: rest) = reached (n * 10 + digitValue c) rest := by
  simp [reached, leadingDigits, hc]

theorem reached_of_not_digit {c : UInt8} (hc : ¬isDigit c = true) (n : ℕ) (rest : Bytes) :
    reached n (c :: rest) = n := by
  simp [reached, leadingDigits, hc]

theorem le_reached (n : ℕ) (field : Bytes) : n ≤ reached n field := by
  induction field generalizing n with
  | nil => exact Nat.le_refl n
  | cons c rest ih =>
      by_cases hc : isDigit c = true
      · rw [reached_cons hc]
        have hstep := ih (n * 10 + digitValue c)
        omega
      · exact Nat.le_of_eq (reached_of_not_digit hc n rest).symm

/-- The steps grow, so no step passes where the loop ends. -/
theorem codeSteps_le (n : ℕ) (field : Bytes) :
    ∀ v ∈ codeSteps n field, 0 ≤ v ∧ v ≤ reached n field := by
  induction field generalizing n with
  | nil => simp [codeSteps]
  | cons c rest ih =>
      intro v hv
      rw [codeSteps] at hv
      split at hv
      · rename_i hc
        have hlast := le_reached (n * 10 + digitValue c) rest
        rw [reached_cons hc]
        obtain rfl | hv := List.mem_cons.mp hv
        · omega
        · obtain rfl | hv := List.mem_cons.mp hv
          · omega
          · exact ih (n * 10 + digitValue c) v (by exact_mod_cast hv)
      · cases hv

/-- The loop ends where it began, or with its last step. -/
theorem reached_mem (n : ℕ) (field : Bytes) :
    reached n field = n ∨ (reached n field : Int) ∈ codeSteps n field := by
  induction field generalizing n with
  | nil => exact .inl rfl
  | cons c rest ih =>
      by_cases hc : isDigit c = true
      · right
        rw [codeSteps, if_pos hc, reached_cons hc]
        obtain hend | hmem := ih (n * 10 + digitValue c)
        · rw [hend]
          push_cast
          simp
        · push_cast at hmem
          exact List.mem_cons_of_mem _ (List.mem_cons_of_mem _ hmem)
      · exact .inl (reached_of_not_digit hc n rest)

theorem codeSteps_isInt_iff (field : Bytes) :
    (∀ v ∈ codeSteps 0 field, IsInt v) ↔ reached 0 field < 2 ^ 31 := by
  constructor
  · intro h
    obtain hzero | hmem := reached_mem 0 field
    · rw [hzero]
      decide
    · have hlast := (h _ hmem).2
      exact_mod_cast hlast
  · intro h v hv
    obtain ⟨hlow, hhigh⟩ := codeSteps_le 0 field v hv
    have hlimit : (reached 0 field : Int) < 2 ^ 31 := by exact_mod_cast h
    exact ⟨by omega, by omega⟩

theorem reached_zero (field : Bytes) : reached 0 field = Numerals.value 10 (leadingDigits field) :=
  Numerals.foldl_eq_value _

theorem errorCode_eq {field : Bytes} (h : reached 0 field < 2 ^ 31) :
    errorCode field = reached 0 field := by
  have hsum : (field.takeWhile isDigit).foldl (fun n c => n * 10 + digitValue c) 0 =
      reached 0 field := by
    rw [reached, leadingDigits, List.foldl_map]
  unfold errorCode
  rw [hsum]
  exact Int.bmod_eq_of_le (by omega) (by omega)

/-! ## What an int holds -/

theorem leadingDigits_lt (field : Bytes) : ∀ d ∈ leadingDigits field, d < 10 := by
  intro d hd
  obtain ⟨c, hc, rfl⟩ := List.mem_map.mp hd
  have hdigit : isDigit c = true := List.mem_takeWhile_imp hc
  simp only [isDigit, Bool.and_eq_true, decide_eq_true_eq, UInt8.le_iff_toNat_le] at hdigit
  have hhigh : c.toNat ≤ 57 := hdigit.2
  rw [digitValue]
  omega

theorem value_lt_iff_codeFits (field : Bytes) :
    Numerals.value 10 (leadingDigits field) < 2 ^ 31 ↔ CodeFits field := by
  have hlimit : Numerals.value 10 intLimit = 2 ^ 31 := by decide
  have hdigits : ∀ d ∈ (leadingDigits field).dropWhile (· == 0), d < 10 := by
    intro d hd
    exact leadingDigits_lt field d ((List.dropWhile_sublist _).subset hd)
  have hfront : ((leadingDigits field).dropWhile (· == 0)).head? ≠ some 0 := by
    intro hzero
    have hkept := List.head?_dropWhile_not (· == 0) (leadingDigits field)
    rw [hzero] at hkept
    simp at hkept
  rw [← Numerals.value_dropWhile_zero, ← hlimit]
  exact Numerals.value_lt_iff hdigits (by decide) hfront (by decide)

/-- `ParseInt` reads a numeral exactly where the digit loop stays inside `int`. -/
theorem parseInt_isSome_iff {s : Bytes} (hne : s ≠ []) (hall : ∀ c ∈ s, isDigit c = true) :
    (AtParser.parseInt s).isSome ↔ CodeFits s := by
  have hwhole : s.takeWhile isDigit = s := List.takeWhile_eq_self_iff.mpr hall
  have hdigits : AtParser.digits s = some (reached 0 s) := by
    rw [AtParser.digits, if_pos (List.all_eq_true.mpr hall), reached, leadingDigits, hwhole,
      List.foldl_map]
  rw [AtParser.parseInt_of_digits hne hall, hdigits, Option.bind_some, ← value_lt_iff_codeFits,
    ← reached_zero]
  by_cases hlimit : reached 0 s < 2 ^ 31
  · rw [if_pos hlimit]
    exact iff_of_true rfl hlimit
  · rw [if_neg hlimit]
    exact iff_of_false (by decide) hlimit

/-- The code of a CME or CMS error is computed inside `int` and is the number in front of its text
if and only if that number is below `2 ^ 31`. -/
theorem reportsNumber_iff {raw field : Bytes} (h : Reports raw field) :
    ReportsNumber raw field ↔ CodeFits field := by
  rw [← value_lt_iff_codeFits, ← reached_zero]
  constructor
  · intro hnumber
    exact (codeSteps_isInt_iff field).mp hnumber.inRange
  · intro hlimit
    refine ⟨(codeSteps_isInt_iff field).mpr hlimit, ?_⟩
    rw [h.native_eq, errorCode_eq hlimit, reached_zero]

/-- "552", the code of a connection id that is taken. -/
theorem reportsNumber_busy :
    ReportsNumber (cmeErrorKey ++ space :: ascii ['5', '5', '2']) (ascii ['5', '5', '2']) :=
  (reportsNumber_iff ⟨by decide, by decide⟩).mpr (by decide)

/-- "4294967848" is `2 ^ 32 + 552`: the loop leaves `int`, and where the sum wraps around the
caller sees a connection id that is taken. -/
theorem wrapped_code_is_busy :
    let field := ascii ['4', '2', '9', '4', '9', '6', '7', '8', '4', '8']
    let raw := cmeErrorKey ++ space :: field
    Reports raw field ∧ (parseResponse raw).error.toNetworkError.native = 552 ∧
      ¬ReportsNumber raw field := by
  refine ⟨⟨by decide, by decide⟩, by decide, ?_⟩
  intro h
  have hlast : IsInt 4294967848 := h.inRange 4294967848 (by decide)
  exact absurd hlast (by decide)

end EspModemLink.AtChannel
