import Mathlib.Algebra.Group.Int.Defs
import Mathlib.Algebra.Group.Nat.Defs
import Mathlib.Data.List.Basic
import Mathlib.Data.List.Infix
import Mathlib.Data.List.TakeWhile

/-!
# Byte strings

The string operations the library uses, on lists of bytes. Searches answer an
index as `std::string_view` does, with `none` for `npos`.
-/

namespace EspModemLink

abbrev Bytes := List UInt8

/-- The bytes of a text given by its ASCII characters. -/
def ascii (cs : List Char) : Bytes := cs.map fun c => c.toNat.toUInt8

namespace Bytes

/-- Text of a message given as bytes. -/
def text (s : Bytes) : String := String.ofList (s.map fun c => Char.ofNat c.toNat)

def cr : UInt8 := 13
def lf : UInt8 := 10
def space : UInt8 := 32
def tab : UInt8 := 9
def crlf : Bytes := [cr, lf]

/-- `std::tolower` in the C locale. -/
def toLowerByte (c : UInt8) : UInt8 := if 65 ≤ c ∧ c ≤ 90 then c + 32 else c

/-- The file-local `ToLower`. -/
def toLower (s : Bytes) : Bytes := s.map toLowerByte

def isDigit (c : UInt8) : Bool := 48 ≤ c && c ≤ 57

def digitValue (c : UInt8) : ℕ := c.toNat - 48

/-- The first index at which `needle` occurs. -/
def find (needle : Bytes) : Bytes → Option ℕ
  | [] => if needle = [] then some 0 else none
  | c :: s => if needle.isPrefixOf (c :: s) then some 0 else (find needle s).map (· + 1)

/-- The first index of a byte. -/
def findByte (c : UInt8) (s : Bytes) : Option ℕ := s.findIdx? (· == c)

/-- The last index of a byte. -/
def rfindByte (c : UInt8) (s : Bytes) : Option ℕ :=
  (findByte c s.reverse).map fun i => s.length - 1 - i

/-- The first index of one of two bytes. -/
def findFirstOf (c d : UInt8) (s : Bytes) : Option ℕ := s.findIdx? fun b => b == c || b == d

/-- `s.substr(0, pos)`, the whole string for `npos`. -/
def upTo (s : Bytes) : Option ℕ → Bytes
  | none => s
  | some n => s.take n

/-- `s.rfind(prefix, 0) == 0`. -/
def startsWith (s pre : Bytes) : Bool := pre.isPrefixOf s

def endsWith (s suf : Bytes) : Bool := suf.isSuffixOf s

/-- Drop bytes that satisfy `p` from both ends. -/
def trimBy (p : UInt8 → Bool) (s : Bytes) : Bytes :=
  ((s.dropWhile p).reverse.dropWhile p).reverse

def isBlank (c : UInt8) : Bool := c == space || c == tab

/-- `std::isspace` in the C locale. -/
def isSpace (c : UInt8) : Bool := c == 32 || (9 ≤ c && c ≤ 13)

/-- The decimal digits of a number, as `std::to_string` writes them. -/
def decimal (n : ℕ) : Bytes := (Nat.toDigits 10 n).map fun c => c.toNat.toUInt8

/-- The lowest byte of `n >> shift`. -/
def byteAt (n shift : ℕ) : UInt8 := ((n >>> shift) % 256).toUInt8

/-! ## Searching -/

theorem find_cons (needle : Bytes) (c : UInt8) (s : Bytes) :
    find needle (c :: s) =
      if needle.isPrefixOf (c :: s) then some 0 else (find needle s).map (· + 1) := rfl

/-- An occurrence begins where `find` says. -/
theorem prefix_drop_of_find {needle s : Bytes} {i : ℕ} (h : find needle s = some i) :
    needle <+: s.drop i := by
  induction s generalizing i with
  | nil =>
      have hn : needle = [] := by
        by_contra hne
        simp [find, hne] at h
      simp [hn]
  | cons c s ih =>
      rw [find_cons] at h
      split at h
      · rename_i hp
        obtain rfl := Option.some.inj h
        exact List.isPrefixOf_iff_prefix.mp hp
      · obtain ⟨j, hj, rfl⟩ := Option.map_eq_some_iff.mp h
        exact ih hj

theorem find_le {needle s : Bytes} {i : ℕ} (h : find needle s = some i) :
    needle.length ≤ s.length := by
  have hlen := (prefix_drop_of_find h).length_le
  rw [List.length_drop] at hlen
  omega

/-- What begins somewhere is found there or before. -/
theorem find_of_prefix_drop {needle s : Bytes} {i : ℕ} (h : needle <+: s.drop i) :
    ∃ j ≤ i, find needle s = some j := by
  induction s generalizing i with
  | nil =>
      have hn : needle = [] := by simpa using h
      exact ⟨0, Nat.zero_le i, by simp [find, hn]⟩
  | cons c s ih =>
      rw [find_cons]
      split
      · exact ⟨0, Nat.zero_le i, rfl⟩
      · rename_i hp
        cases i with
        | zero => exact absurd (List.isPrefixOf_iff_prefix.mpr h) hp
        | succ i =>
            obtain ⟨j, hj, hfind⟩ := ih h
            exact ⟨j + 1, Nat.succ_le_succ hj, by rw [hfind, Option.map_some]⟩

theorem find_ne_none_of_prefix_drop {needle s : Bytes} {i : ℕ} (h : needle <+: s.drop i) :
    find needle s ≠ none := by
  obtain ⟨j, -, hfind⟩ := find_of_prefix_drop h
  rw [hfind]
  exact Option.some_ne_none j

/-- An occurrence stays the first one when the text grows behind it. -/
theorem find_append {needle s : Bytes} {i : ℕ} (t : Bytes) (h : find needle s = some i) :
    find needle (s ++ t) = some i := by
  induction s generalizing i with
  | nil =>
      have hn : needle = [] := by
        by_contra hne
        simp [find, hne] at h
      subst hn
      cases t <;> simpa [find] using h
  | cons c s ih =>
      have hgrow : needle.isPrefixOf (c :: (s ++ t)) = true ↔ needle.isPrefixOf (c :: s) = true := by
        rw [List.isPrefixOf_iff_prefix, List.isPrefixOf_iff_prefix, ← List.cons_append]
        exact ⟨fun hp => List.prefix_of_prefix_length_le hp (List.prefix_append _ _) (find_le h),
          fun hp => hp.trans (List.prefix_append _ _)⟩
      rw [find_cons] at h
      rw [List.cons_append, find_cons]
      by_cases hp : needle.isPrefixOf (c :: s) = true
      · rw [if_pos hp] at h
        rw [if_pos (hgrow.mpr hp), h]
      · rw [if_neg hp] at h
        obtain ⟨j, hj, rfl⟩ := Option.map_eq_some_iff.mp h
        rw [if_neg (mt hgrow.mp hp), ih hj, Option.map_some]

theorem findByte_append {c : UInt8} {s : Bytes} (t : Bytes) (h : c ∉ s) :
    findByte c (s ++ c :: t) = some s.length := by
  induction s with
  | nil => simp [findByte, List.findIdx?_cons]
  | cons d s ih =>
      have hd : (d == c) = false := by
        simpa using fun hdc => h (by simp [hdc])
      have ht : c ∉ s := fun hm => h (List.mem_cons_of_mem _ hm)
      have ih' := ih ht
      rw [findByte] at ih'
      simp [findByte, List.findIdx?_cons, hd, ih']

theorem getElem?_of_findByte {c : UInt8} {s : Bytes} {i : ℕ} (h : findByte c s = some i) :
    s[i]? = some c := by
  obtain ⟨hi, hc, -⟩ := List.findIdx?_eq_some_iff_getElem.mp h
  rw [List.getElem?_eq_getElem hi, beq_iff_eq.mp hc]

theorem findByte_append_left {c : UInt8} {s : Bytes} {i : ℕ} (t : Bytes)
    (h : findByte c s = some i) : findByte c (s ++ t) = some i := by
  rw [findByte, List.findIdx?_append, ← findByte, h, Option.some_or]

theorem findByte_eq_none {c : UInt8} {s : Bytes} : findByte c s = none ↔ c ∉ s := by
  rw [findByte, List.findIdx?_eq_none_iff]
  constructor
  · intro h hc
    simpa using h c hc
  · intro h x hx
    simpa using fun hxc : x = c => h (hxc ▸ hx)

/-- A byte is found where the part in front is free of it. -/
theorem findByte_eq_some_iff {c : UInt8} {s : Bytes} {i : ℕ} :
    findByte c s = some i ↔
      ∃ before after, s = before ++ c :: after ∧ c ∉ before ∧ before.length = i := by
  constructor
  · intro h
    obtain ⟨hi, hc, hbefore⟩ := List.findIdx?_eq_some_iff_getElem.mp h
    refine ⟨s.take i, s.drop (i + 1), ?_, ?_, List.length_take_of_le hi.le⟩
    · calc s = s.take i ++ s.drop i := (List.take_append_drop i s).symm
        _ = s.take i ++ c :: s.drop (i + 1) := by
          rw [List.drop_eq_getElem_cons hi, beq_iff_eq.mp hc]
    · intro hmem
      obtain ⟨j, hj, hjc⟩ := List.mem_take_iff_getElem.mp hmem
      exact hbefore j (by omega) (beq_iff_eq.mpr hjc)
  · rintro ⟨before, after, rfl, hc, rfl⟩
    exact findByte_append after hc

/-- The bytes other than the one looked for stand before or behind it. -/
theorem mem_of_findByte {c d : UInt8} {s : Bytes} {i : ℕ} (h : findByte c s = some i)
    (hd : d ∈ s) (hdc : d ≠ c) : d ∈ s.take i ∨ d ∈ s.drop (i + 1) := by
  have hi := getElem?_of_findByte h
  rw [← List.take_append_drop i s, List.mem_append] at hd
  rcases hd with hd | hd
  · exact .inl hd
  · obtain ⟨hlt, hc⟩ := List.getElem?_eq_some_iff.mp hi
    rw [List.drop_eq_getElem_cons hlt, hc, List.mem_cons] at hd
    exact .inr (hd.resolve_left hdc)

/-! ## Numbers -/

/-- `std::to_string` writes digits only. -/
theorem isDigit_of_mem_decimal (n : ℕ) (c : UInt8) (hc : c ∈ decimal n) : isDigit c = true := by
  obtain ⟨ch, hch, rfl⟩ := List.mem_map.mp hc
  have hdigit := Nat.isDigit_of_mem_toDigits (by decide) (by decide) hch
  simp only [Char.isDigit, Bool.and_eq_true, decide_eq_true_eq] at hdigit
  have hlow : 48 ≤ ch.toNat := hdigit.1
  have hhigh : ch.toNat ≤ 57 := hdigit.2
  generalize ch.toNat = k at hlow hhigh
  have hall : ∀ k ≤ 57, 48 ≤ k → isDigit (Nat.toUInt8 k) = true := by decide
  exact hall k hhigh hlow

/-- White space is at the bottom of the code. -/
theorem isSpace_of_lt {c : UInt8} (h : 32 < c) : isSpace c = false := by
  have hlt : 32 < c.toNat := h
  have hne : c ≠ 32 := by
    rintro rfl
    exact absurd hlt (by decide)
  have hgt : ¬c ≤ 13 := fun hle => by
    have hle' : c.toNat ≤ 13 := hle
    omega
  simp [isSpace, hne, hgt]

theorem lt_of_isDigit {c : UInt8} (h : isDigit c = true) : 47 < c := by
  simp only [isDigit, Bool.and_eq_true, decide_eq_true_eq] at h
  have hle : 48 ≤ c.toNat := h.1
  show 47 < c.toNat
  omega

theorem isSpace_of_isDigit {c : UInt8} (h : isDigit c = true) : isSpace c = false := by
  apply isSpace_of_lt
  have hlt : 47 < c.toNat := lt_of_isDigit h
  show 32 < c.toNat
  omega

theorem decimal_ne_nil (n : ℕ) : decimal n ≠ [] := by
  simp [decimal]

/-! ## Trimming -/

theorem mem_dropWhile {p : UInt8 → Bool} {c : UInt8} (hc : p c = false) {s : Bytes} (h : c ∈ s) :
    c ∈ s.dropWhile p := by
  induction s with
  | nil => exact h
  | cons d s ih =>
      rw [List.dropWhile_cons]
      split
      · rename_i hd
        refine ih ((List.mem_cons.mp h).resolve_left ?_)
        rintro rfl
        exact absurd hd (by simp [hc])
      · exact h

theorem mem_trimBy {p : UInt8 → Bool} {c : UInt8} (hc : p c = false) {s : Bytes} (h : c ∈ s) :
    c ∈ trimBy p s :=
  List.mem_reverse.mpr (mem_dropWhile hc (List.mem_reverse.mpr (mem_dropWhile hc h)))

theorem mem_of_mem_trimBy {p : UInt8 → Bool} {c : UInt8} {s : Bytes} (h : c ∈ trimBy p s) :
    c ∈ s :=
  (List.dropWhile_sublist p).subset
    (List.mem_reverse.mp ((List.dropWhile_sublist p).subset (List.mem_reverse.mp h)))

/-- What both ends lose already is lost. -/
theorem trimBy_eq_nil {p : UInt8 → Bool} {s : Bytes} (h : ∀ c ∈ s, p c = true) : trimBy p s = [] := by
  have hdrop : s.dropWhile p = [] := List.dropWhile_eq_nil_iff.mpr h
  rw [trimBy, hdrop]
  rfl

theorem trimBy_eq_self {p : UInt8 → Bool} {s : Bytes} (h : ∀ c ∈ s, p c = false) :
    trimBy p s = s := by
  have hself : ∀ t : Bytes, (∀ c ∈ t, p c = false) → t.dropWhile p = t := by
    intro t ht
    cases t with
    | nil => rfl
    | cons c t => rw [List.dropWhile_cons_of_neg (by simp [ht])]
  rw [trimBy, hself s h, hself s.reverse fun c hc => h c (List.mem_reverse.mp hc),
    List.reverse_reverse]

/-- A byte that is trimmed may stand behind the text. -/
theorem trimBy_append_singleton {p : UInt8 → Bool} {c : UInt8} (hc : p c = true) (s : Bytes) :
    trimBy p (s ++ [c]) = trimBy p s := by
  by_cases hall : ∀ d ∈ s, p d = true
  · rw [trimBy_eq_nil hall, trimBy_eq_nil]
    intro d hd
    obtain hd | hd := List.mem_append.mp hd
    · exact hall d hd
    · exact List.mem_singleton.mp hd ▸ hc
  · have hne : s.dropWhile p ≠ [] := fun h => hall (List.dropWhile_eq_nil_iff.mp h)
    have hdrop : (s ++ [c]).dropWhile p = s.dropWhile p ++ [c] := by
      rw [List.dropWhile_append, if_neg]
      simpa using hne
    rw [trimBy, trimBy, hdrop, List.reverse_append, List.reverse_singleton, List.singleton_append,
      List.dropWhile_cons_of_pos hc]

/-- A byte that is trimmed may stand in front of the text. -/
theorem trimBy_cons {p : UInt8 → Bool} {c : UInt8} (hc : p c = true) (s : Bytes) :
    trimBy p (c :: s) = trimBy p s := by
  rw [trimBy, List.dropWhile_cons_of_pos hc, trimBy]

/-- What a weaker trim takes away first makes no difference. -/
theorem trimBy_trimBy {p q : UInt8 → Bool} (hqp : ∀ c, q c = true → p c = true) (s : Bytes) :
    trimBy p (trimBy q s) = trimBy p s := by
  have hfront : ∀ t : Bytes, trimBy p (t.dropWhile q) = trimBy p t := by
    intro t
    induction t with
    | nil => rfl
    | cons c t ih =>
        by_cases hc : q c = true
        · rw [List.dropWhile_cons_of_pos hc, ih, trimBy_cons (hqp c hc)]
        · rw [List.dropWhile_cons_of_neg hc]
  have hback : ∀ t : Bytes, trimBy p (t.reverse.dropWhile q).reverse = trimBy p t := by
    intro t
    induction t using List.reverseRecOn with
    | nil => rfl
    | append_singleton t c ih =>
        rw [List.reverse_append, List.reverse_singleton, List.singleton_append]
        by_cases hc : q c = true
        · rw [List.dropWhile_cons_of_pos hc, ih, trimBy_append_singleton (hqp c hc)]
        · rw [List.dropWhile_cons_of_neg hc, List.reverse_cons, List.reverse_reverse]
  calc trimBy p (trimBy q s) = trimBy p (s.dropWhile q) := hback (s.dropWhile q)
    _ = trimBy p s := hfront s

/-- A text that begins and ends with bytes that stay is not trimmed in front of other text. -/
theorem trimBy_append_of_keeps {p : UInt8 → Bool} {c d : UInt8} {key : Bytes}
    (hhead : key.head? = some c) (hc : p c = false) (hlast : key.getLast? = some d)
    (hd : p d = false) (r : Bytes) :
    trimBy p (key ++ r) = key ++ (r.reverse.dropWhile p).reverse := by
  have hfront : (key ++ r).dropWhile p = key ++ r := by
    cases key with
    | nil => cases hhead
    | cons b key =>
        obtain rfl := Option.some.inj hhead
        rw [List.cons_append, List.dropWhile_cons_of_neg (by simp [hc])]
  have hback : key.reverse.dropWhile p = key.reverse := by
    rw [← List.head?_reverse] at hlast
    cases hrev : key.reverse with
    | nil => rfl
    | cons b rest =>
        rw [hrev] at hlast
        obtain rfl := Option.some.inj hlast
        rw [List.dropWhile_cons_of_neg (by simp [hd])]
  rw [trimBy, hfront, List.reverse_append, List.dropWhile_append]
  split
  · rename_i hnil
    rw [hback, List.reverse_reverse, List.isEmpty_iff.mp hnil]
    simp
  · rw [List.reverse_append, List.reverse_reverse]

end Bytes

end EspModemLink
