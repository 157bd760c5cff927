import Mathlib.Data.List.GetD

/-!
# UTF-8 texts cut short

A byte string is a text if it encodes a list of characters. A cut keeps a text one where it does not
fall in front of a byte that goes on with a character, and a search for the longest text that fits
backs off over those bytes.
-/

namespace Utf8

/-- The bytes are a text. -/
def IsText (s : List UInt8) : Prop := s.toByteArray.IsValidUTF8

/-- The byte goes on with a character that began before it. -/
def Continues (b : UInt8) : Prop := b &&& 0xC0 = 0x80

instance (b : UInt8) : Decidable (Continues b) := inferInstanceAs (Decidable (_ = _))

variable {b : UInt8} {c : Char} {s : List UInt8} {n : ℕ}

theorem not_continues_of_first (h : b.IsUTF8FirstByte) : ¬Continues b := by
  intro hb
  -- the masks of the longer first bytes cover both bits
  have hcover : ∀ m v : UInt8, m &&& 0xC0 = 0xC0 → v &&& 0xC0 = 0xC0 → b &&& m ≠ v := by
    intro m v hm hv hbv
    have heq : b &&& 0xC0 = 0xC0 := by
      calc b &&& 0xC0 = b &&& m &&& 0xC0 := by rw [UInt8.and_assoc, hm]
        _ = 0xC0 := by rw [hbv, hv]
    rw [Continues, heq] at hb
    exact absurd hb (by decide)
  obtain hone | hmore | hmore | hmore := h
  · have heq : b &&& 0x80 = 0x80 := by
      calc b &&& 0x80 = b &&& 0xC0 &&& 0x80 := by rw [UInt8.and_assoc]; rfl
        _ = 0x80 := by rw [hb]; rfl
    rw [heq] at hone
    exact absurd hone (by decide)
  · exact hcover _ _ (by decide) (by decide) hmore
  · exact hcover _ _ (by decide) (by decide) hmore
  · exact hcover _ _ (by decide) (by decide) hmore

theorem continues_ofNat (v : ℕ) : Continues (UInt8.ofNat (v % 0x40 + 0x80)) := by
  have hall : ∀ d : Fin 64, Continues (UInt8.ofNat (d.val + 0x80)) := by decide
  exact hall ⟨v % 0x40, Nat.mod_lt _ (by decide)⟩

theorem continues_of_mem_tail (h : b ∈ (String.utf8EncodeChar c).tail) : Continues b := by
  unfold String.utf8EncodeChar at h
  dsimp only at h
  split at h
  · cases h
  · split at h
    · obtain rfl := List.mem_singleton.mp h
      exact continues_ofNat _
    · split at h <;> simp only [List.tail_cons, List.mem_cons, List.not_mem_nil, or_false] at h
      · obtain rfl | rfl := h <;> exact continues_ofNat _
      · obtain rfl | rfl | rfl := h <;> exact continues_ofNat _

theorem first_or_continues (hs : IsText s) (hb : b ∈ s) : b.IsUTF8FirstByte ∨ Continues b := by
  obtain ⟨cs, hcs⟩ := hs
  have hflat : s = cs.flatMap String.utf8EncodeChar := by
    rw [← List.toList_data_toByteArray (l := s), hcs, List.utf8Encode,
      List.toList_data_toByteArray]
  rw [hflat] at hb
  obtain ⟨c, -, hc⟩ := List.mem_flatMap.mp hb
  obtain ⟨i, hi, rfl⟩ := List.getElem_of_mem hc
  cases i with
  | zero => exact .inl (UInt8.isUTF8FirstByte_getElem_utf8EncodeChar.mpr rfl)
  | succ i =>
      right
      apply continues_of_mem_tail (c := c)
      rw [← List.getElem_tail (by rw [List.length_tail]; omega)]
      exact List.getElem_mem _

/-- A text that is cut stays a text if and only if the cut is in front of a first byte. -/
theorem isText_take_iff (hs : IsText s) (hn : n < s.length) :
    IsText (s.take n) ↔ ¬Continues s[n] := by
  let text : String := ⟨s.toByteArray, hs⟩
  have hend : (⟨n⟩ : String.Pos.Raw) < text.rawEndPos := by
    rw [String.Pos.Raw.lt_iff, String.byteIdx_rawEndPos, ← String.size_toByteArray]
    simpa [text] using hn
  have hne : (⟨n⟩ : String.Pos.Raw) ≠ text.rawEndPos := by
    intro he
    rw [← he] at hend
    exact Nat.lt_irrefl _ hend
  have hbyte : text.getUTF8Byte ⟨n⟩ hend = s[n] := List.getElem_toByteArray
  have hcut : (s.toByteArray.extract 0 n) = (s.take n).toByteArray := by
    apply ByteArray.ext
    simp
  have hvalid : IsText (s.take n) ↔ s[n].IsUTF8FirstByte := by
    calc IsText (s.take n) ↔ String.Pos.Raw.IsValid text ⟨n⟩ := by
          rw [String.Pos.Raw.isValid_iff_isValidUTF8_extract_zero, IsText, ← hcut]
          exact (and_iff_right (Nat.le_of_lt hend)).symm
      _ ↔ s[n].IsUTF8FirstByte := by
          rw [String.Pos.Raw.isValid_iff_isUTF8FirstByte, ← hbyte]
          exact (or_iff_right hne).trans (exists_prop_of_true hend)
  rw [hvalid]
  constructor
  · exact not_continues_of_first
  · intro hb
    exact (first_or_continues hs (List.getElem_mem hn)).resolve_right hb

/-! ## Cutting a text short -/

/-- The longest text of at most `bound` bytes that `s` begins with. -/
structure IsLongest (bound : ℕ) (s p : List UInt8) : Prop where
  isPrefix : p <+: s
  isText : IsText p
  fits : p.length ≤ bound
  longest : ∀ q, q <+: s → IsText q → q.length ≤ bound → q.length ≤ p.length

/-- A text that fits is not cut. -/
theorem IsLongest.refl {bound : ℕ} (hs : IsText s) (hlength : s.length ≤ bound) :
    IsLongest bound s s :=
  ⟨List.prefix_rfl, hs, hlength, fun _ hq _ _ => hq.length_le⟩

/-- A cut that backed off from `bound` over bytes that go on with a character. -/
theorem IsLongest.of_backOff {bound : ℕ} (hs : IsText s) (hlength : bound < s.length)
    (hn : n ≤ bound) (hcut : n = 0 ∨ ¬Continues (s.getD n 0))
    (hpassed : ∀ k, n < k → k ≤ bound → Continues (s.getD k 0)) : IsLongest bound s (s.take n) := by
  have hget : ∀ k, k ≤ bound → (hk : k < s.length) → s.getD k 0 = s[k] := by
    intro k _ hk
    exact List.getD_eq_getElem s 0 hk
  refine ⟨List.take_prefix n s, ?_, ?_, ?_⟩
  · obtain rfl | hbyte := hcut
    · exact ⟨[], by simp⟩
    · rw [hget n hn (Nat.lt_of_le_of_lt hn hlength)] at hbyte
      exact (isText_take_iff hs _).mpr hbyte
  · exact Nat.le_trans (List.length_take_le n s) hn
  · intro q hq htext hfits
    apply Nat.le_of_not_lt
    intro hlonger
    rw [List.length_take, Nat.min_eq_left (Nat.le_trans hn (Nat.le_of_lt hlength))] at hlonger
    have hk : q.length < s.length := Nat.lt_of_le_of_lt hfits hlength
    rw [List.prefix_iff_eq_take.mp hq] at htext
    have hfirst := (isText_take_iff hs hk).mp htext
    rw [← hget q.length hfits hk] at hfirst
    exact hfirst (hpassed q.length hlonger hfits)

end Utf8
