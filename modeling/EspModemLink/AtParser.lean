import EspModemLink.Bytes

/-!
# The AT text helpers

`at_parser`: fields, key prefixes, decimal and hexadecimal numbers.
-/

namespace EspModemLink.AtParser

open Bytes

/-- The decimal digits of a field, most significant first; `none` at any other byte. -/
def digits (s : Bytes) : Option ℕ :=
  if s.all isDigit then some (s.foldl (fun n c => n * 10 + digitValue c) 0) else none

/-- `std::from_chars` over the whole field, for a 32-bit `int`. -/
def parseInt : Bytes → Option Int
  | [] => none
  | [45] => none
  | 45 :: s => (digits s).bind fun n => if n ≤ 2 ^ 31 then some (-(n : Int)) else none
  | s => (digits s).bind fun n => if n < 2 ^ 31 then some (n : Int) else none

/-- A field that is a number holds digits and a minus sign. -/
theorem mem_of_parseInt {s : Bytes} {n : Int} (h : parseInt s = some n) {c : UInt8} (hc : c ∈ s) :
    isDigit c = true ∨ c = 45 := by
  have hdigits : ∀ {t : Bytes} {m : ℕ}, digits t = some m → c ∈ t → isDigit c = true := by
    intro t m ht hct
    unfold digits at ht
    split at ht
    · rename_i hall
      exact List.all_eq_true.mp hall c hct
    · exact absurd ht (by simp)
  unfold parseInt at h
  split at h
  · exact absurd hc (by simp)
  · exact absurd h (by simp)
  · obtain ⟨m, hm, -⟩ := Option.bind_eq_some_iff.mp h
    rcases List.mem_cons.mp hc with rfl | hct
    · exact .inr rfl
    · exact .inl (hdigits hm hct)
  · obtain ⟨m, hm, -⟩ := Option.bind_eq_some_iff.mp h
    exact .inl (hdigits hm hc)

/-- `std::to_string` writes digits that say the number. -/
theorem digits_decimal (n : ℕ) : digits (decimal n) = some n := by
  have hall : (decimal n).all isDigit = true :=
    List.all_eq_true.mpr fun c hc => isDigit_of_mem_decimal n c hc
  have hvalue : ∀ ch ∈ Nat.toDigits 10 n, digitValue ch.toNat.toUInt8 = ch.toNat - 48 := by
    intro ch hch
    have hdigit := Nat.isDigit_of_mem_toDigits (by decide) (by decide) hch
    simp only [Char.isDigit, Bool.and_eq_true, decide_eq_true_eq] at hdigit
    have hhigh : ch.toNat ≤ 57 := hdigit.2
    rw [digitValue]
    congr 1
    exact Nat.mod_eq_of_lt (by omega)
  have hfold : ∀ (cs : List Char) (m : ℕ), (∀ ch ∈ cs, digitValue ch.toNat.toUInt8 = ch.toNat - 48) →
      (cs.map fun ch => ch.toNat.toUInt8).foldl (fun n c => n * 10 + digitValue c) m =
        Nat.ofDigitChars 10 cs m := by
    intro cs
    induction cs with
    | nil => intro m _; simp
    | cons ch cs ih =>
        intro m hcs
        obtain ⟨hch, hcs⟩ := List.forall_mem_cons.mp hcs
        rw [List.map_cons, List.foldl_cons, hch, ih _ hcs, Nat.ofDigitChars_cons, Nat.mul_comm 10 m]
        rfl
  rw [digits, if_pos hall, decimal, hfold _ _ hvalue, Nat.ofDigitChars_ten_toDigits]

theorem parseInt_of_digits {s : Bytes} (hne : s ≠ []) (hall : ∀ c ∈ s, isDigit c = true) :
    parseInt s = (digits s).bind fun n => if n < 2 ^ 31 then some (n : Int) else none := by
  unfold parseInt
  split
  · exact absurd rfl hne
  · exact absurd (hall 45 (by simp)) (by decide)
  · exact absurd (hall 45 (by simp)) (by decide)
  · rfl

/-- A number that is written down is read back. -/
theorem parseInt_decimal {n : ℕ} (h : n < 2 ^ 31) : parseInt (decimal n) = some (n : Int) := by
  rw [parseInt_of_digits (decimal_ne_nil n) (isDigit_of_mem_decimal n), digits_decimal,
    Option.bind_some, if_pos h]

/-- `SplitCsv`. A quoted field ends at its closing quote, and whatever stands between that
quote and anything but a comma ends the list. `fuel` bounds the passes of the index loop. -/
def splitCsvFor : ℕ → Bytes → List Bytes
  | 0, _ => []
  | n + 1, 34 :: s =>
      let field := s.takeWhile (· != 34)
      match (s.drop field.length).drop 1 with
      | 44 :: rest => field :: splitCsvFor n rest
      | _ => [field]
  | n + 1, s =>
      let field := s.takeWhile (· != 44)
      match s.drop field.length with
      | [] => [field]
      | _ :: rest => field :: splitCsvFor n rest

def splitCsv (line : Bytes) : List Bytes := splitCsvFor (line.length + 1) line

/-- More fuel than bytes makes no difference. -/
theorem splitCsvFor_eq {n : ℕ} {s : Bytes} (h : s.length < n) : splitCsvFor n s = splitCsv s := by
  have hfuel : ∀ (n m : ℕ) (s : Bytes), s.length < n → s.length < m →
      splitCsvFor n s = splitCsvFor m s := by
    intro n
    induction n with
    | zero => intro m s hn; exact absurd hn (Nat.not_lt_zero _)
    | succ n ih =>
        intro m s hn hm
        obtain ⟨m, rfl⟩ : ∃ k, m = k + 1 := ⟨m - 1, by omega⟩
        by_cases hquote : ∃ t, s = 34 :: t
        · obtain ⟨t, rfl⟩ := hquote
          rw [splitCsvFor, splitCsvFor]
          split
          · rename_i rest hrest
            have hlength := congrArg List.length hrest
            simp only [List.length_drop, List.length_cons] at hlength hn hm
            rw [ih m rest (by omega) (by omega)]
          · rfl
        · have hhead : ∀ t, s ≠ 34 :: t := fun t ht => hquote ⟨t, ht⟩
          rw [splitCsvFor, splitCsvFor]
          · split
            · rfl
            · rename_i c rest hrest
              have hlength := congrArg List.length hrest
              simp only [List.length_drop, List.length_cons] at hlength
              rw [ih m rest (by omega) (by omega)]
          · exact hhead
          · exact hhead
  exact hfuel n (s.length + 1) s h (Nat.lt_succ_self _)

/-- A bare field ends at the comma. -/
theorem splitCsv_bare_append {field : Bytes} (hcomma : 44 ∉ field) (hquote : field.head? ≠ some 34)
    (rest : Bytes) : splitCsv (field ++ 44 :: rest) = field :: splitCsv rest := by
  have hkeep : ∀ c ∈ field, (c != 44) = true := fun c hc =>
    bne_iff_ne.mpr fun h => hcomma (h ▸ hc)
  have htake : (field ++ 44 :: rest).takeWhile (· != 44) = field := by
    rw [List.takeWhile_append_of_pos hkeep, List.takeWhile_cons_of_neg (by simp), List.append_nil]
  have hhead : ∀ t, field ++ 44 :: rest ≠ 34 :: t := by
    intro t h
    cases field with
    | nil => cases h
    | cons c field => exact hquote (congrArg some (List.cons.inj h).1)
  rw [splitCsv, splitCsvFor]
  · rw [htake, List.drop_left' rfl]
    dsimp only
    rw [splitCsvFor_eq (by simp; omega)]
  · exact hhead

/-- A bare field that nothing follows is the last. -/
theorem splitCsv_bare {field : Bytes} (hcomma : 44 ∉ field) (hquote : field.head? ≠ some 34) :
    splitCsv field = [field] := by
  have hkeep : ∀ c ∈ field, (c != 44) = true := fun c hc =>
    bne_iff_ne.mpr fun h => hcomma (h ▸ hc)
  have htake : field.takeWhile (· != 44) = field := List.takeWhile_eq_self_iff.mpr hkeep
  have hhead : ∀ t, field ≠ 34 :: t := by
    rintro t rfl
    exact hquote rfl
  rw [splitCsv, splitCsvFor]
  · rw [htake, List.drop_length]
  · exact hhead

/-- Between its quotes a field may hold anything but a quote. -/
theorem takeWhile_quoted {field : Bytes} (hquote : 34 ∉ field) (rest : Bytes) :
    (field ++ 34 :: rest).takeWhile (· != 34) = field := by
  have hkeep : ∀ c ∈ field, (c != 34) = true := fun c hc =>
    bne_iff_ne.mpr fun h => hquote (h ▸ hc)
  rw [List.takeWhile_append_of_pos hkeep, List.takeWhile_cons_of_neg (by simp), List.append_nil]

/-- A quoted field ends at its closing quote. -/
theorem splitCsv_quoted_append {field : Bytes} (hquote : 34 ∉ field) (rest : Bytes) :
    splitCsv (34 :: field ++ 34 :: 44 :: rest) = field :: splitCsv rest := by
  have hfuel : rest.length < (34 :: (field ++ 34 :: 44 :: rest)).length := by
    simp only [List.length_cons, List.length_append]
    omega
  rw [List.cons_append, splitCsv, splitCsvFor, takeWhile_quoted hquote, List.drop_left' rfl]
  exact congrArg (field :: ·) (splitCsvFor_eq hfuel)

/-- A quoted field that nothing follows is the last. -/
theorem splitCsv_quoted {field : Bytes} (hquote : 34 ∉ field) :
    splitCsv (34 :: field ++ [34]) = [field] := by
  rw [List.cons_append, splitCsv, splitCsvFor, takeWhile_quoted hquote, List.drop_left' rfl]
  rfl

/-- A field that stands bare as it is. -/
theorem bare_of_plain {field : Bytes} (hfield : ∀ c ∈ field, c ≠ 44 ∧ c ≠ 34) :
    44 ∉ field ∧ field.head? ≠ some 34 :=
  ⟨fun h => (hfield _ h).1 rfl, fun h => (hfield _ (List.mem_of_mem_head? h)).2 rfl⟩

/-- Digits are neither a comma nor a quote. -/
theorem decimal_comma_quote (n : ℕ) : ∀ c ∈ decimal n, c ≠ 44 ∧ c ≠ 34 := by
  intro c hc
  have hlt := lt_of_isDigit (isDigit_of_mem_decimal n c hc)
  constructor
  · rintro rfl
    exact absurd hlt (by decide)
  · rintro rfl
    exact absurd hlt (by decide)

/-- A field without a quote ends at the comma. -/
theorem splitCsv_append {field : Bytes} (hfield : ∀ c ∈ field, c ≠ 44 ∧ c ≠ 34) (rest : Bytes) :
    splitCsv (field ++ 44 :: rest) = field :: splitCsv rest :=
  splitCsv_bare_append (bare_of_plain hfield).1 (bare_of_plain hfield).2 rest

/-- A field without a quote that nothing follows is the last. -/
theorem splitCsv_self {field : Bytes} (hfield : ∀ c ∈ field, c ≠ 44 ∧ c ≠ 34) :
    splitCsv field = [field] :=
  splitCsv_bare (bare_of_plain hfield).1 (bare_of_plain hfield).2

def stripQuotes (s : Bytes) : Bytes :=
  if 2 ≤ s.length ∧ s.head? = some 34 ∧ s.getLast? = some 34 then (s.drop 1).dropLast else s

def stripKeyPrefix (line : Bytes) : Bytes :=
  match findByte 58 line with
  | none => line
  | some colon => trimBy isBlank (line.drop (colon + 1))

def hexCharToNibble (c : UInt8) : Option ℕ :=
  if 48 ≤ c ∧ c ≤ 57 then some (c.toNat - 48)
  else if 97 ≤ c ∧ c ≤ 102 then some (c.toNat - 97 + 10)
  else if 65 ≤ c ∧ c ≤ 70 then some (c.toNat - 65 + 10)
  else none

/-- `ParseHex`: a pair that is not two hex digits moves the window on by one byte. -/
def parseHex : Bytes → Bytes
  | a :: b :: s =>
      match hexCharToNibble a, hexCharToNibble b with
      | some hi, some lo => (hi * 16 + lo).toUInt8 :: parseHex s
      | _, _ => parseHex (b :: s)
  | _ => []

def hexDigit (n : ℕ) : UInt8 := if n < 10 then (48 + n).toUInt8 else (97 + (n - 10)).toUInt8

def encodeHex (data : Bytes) : Bytes :=
  data.flatMap fun byte => [hexDigit (byte.toNat / 16), hexDigit (byte.toNat % 16)]

theorem hexCharToNibble_hexDigit {n : ℕ} (h : n < 16) : hexCharToNibble (hexDigit n) = some n := by
  have hall : ∀ n < 16, hexCharToNibble (hexDigit n) = some n := by decide
  exact hall n h

/-- Bytes that are written in hexadecimal are read back. -/
theorem parseHex_encodeHex (data : Bytes) : parseHex (encodeHex data) = data := by
  induction data with
  | nil => rfl
  | cons byte data ih =>
      have hhigh : byte.toNat / 16 < 16 := by
        have hlt := byte.toNat_lt
        omega
      have hlow : byte.toNat % 16 < 16 := Nat.mod_lt _ (by decide)
      have hbyte : (byte.toNat / 16 * 16 + byte.toNat % 16).toUInt8 = byte := by
        rw [Nat.div_add_mod']
        exact UInt8.ofNat_toNat
      rw [encodeHex, List.flatMap_cons, List.cons_append, List.cons_append, List.nil_append, parseHex,
        hexCharToNibble_hexDigit hhigh, hexCharToNibble_hexDigit hlow]
      dsimp only
      rw [hbyte]
      exact congrArg (byte :: ·) ih

/-- The loop of `ToHexString`, least significant digit first. -/
def hexDigitsRev : ℕ → ℕ → Bytes
  | 0, _ => []
  | fuel + 1, value => if value = 0 then [] else hexDigit (value % 16) :: hexDigitsRev fuel (value / 16)

/-- `ToHexString` of a `uint64_t`. -/
def toHexString (value : ℕ) : Bytes := if value = 0 then [48] else (hexDigitsRev 16 value).reverse

end EspModemLink.AtParser
