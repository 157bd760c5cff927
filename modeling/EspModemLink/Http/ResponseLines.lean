import EspModemLink.Http.ParserHistory
import EspModemLink.Library.Numerals

/-!
# What the lines of a response say

A header line says a field, a chunk-size line a number. A line that is accepted changes the parser
by what it says and by nothing else.
-/

namespace EspModemLink.Http

open Bytes AtParser

/-! ## Header lines -/

/-- The field that a header line says: its name in lower case and its value, trimmed. -/
def fieldOf (line : Bytes) : Option (Bytes × Bytes) :=
  (findByte 58 line).map fun colon =>
    (toLower (trim (line.take colon)), trim (line.drop (colon + 1)))

/-- The field says that the body is chunked. -/
def saysChunked (f : Bytes × Bytes) : Bool :=
  f.1 = ParserCore.transferEncodingName ∧ (find ParserCore.chunkedCoding (toLower f.2)).isSome

/-- The field says how long the body is. -/
def saysLength (f : Bytes × Bytes) : Bool := f.1 = ParserCore.contentLengthName

/-! ## Chunk-size lines -/

/-- The digits on a chunk-size line, without its extensions. -/
def sizeField (line : Bytes) : Bytes :=
  match findByte 59 (trim line) with
  | none => trim line
  | some semi => trim ((trim line).take semi)

/-- The values of the digits. -/
def hexValues (s : Bytes) : Option (List ℕ) := s.mapM hexCharToNibble

/-- The number that the digits on a chunk-size line say. -/
def sizeSaid (line : Bytes) : ℕ := Numerals.value 16 ((hexValues (sizeField line)).getD [])

/-- The number that `FeedChunkSize` reads off the line. -/
def sizeRead [Target] (line : Bytes) : Option ℕ :=
  if sizeField line = [] then none else ParserCore.chunkSizeValue 0 (sizeField line)

theorem hexValues_cons (c : UInt8) (s : Bytes) :
    hexValues (c :: s) = (hexCharToNibble c).bind fun d => (hexValues s).map (d :: ·) := by
  cases hc : hexCharToNibble c with
  | none => simp [hexValues, List.mapM_cons, hc]
  | some d =>
      rw [Option.bind_some, Option.map_eq_bind]
      simp [hexValues, List.mapM_cons, hc, Function.comp_def]

theorem isSome_of_hexValues {s : Bytes} {ds : List ℕ} (h : hexValues s = some ds) :
    ∀ c ∈ s, (hexCharToNibble c).isSome = true := by
  induction s generalizing ds with
  | nil => simp
  | cons c s ih =>
      rw [hexValues_cons] at h
      obtain ⟨d, hc, h⟩ := Option.bind_eq_some_iff.mp h
      obtain ⟨es, hs, -⟩ := Option.map_eq_some_iff.mp h
      exact List.forall_mem_cons.mpr ⟨by simp [hc], ih hs⟩

section

variable [Target]

theorem chunkSizeValue_eq (start : ℕ) (s : Bytes) : ParserCore.chunkSizeValue start s =
    (hexValues s).map fun ds => ds.foldl (fun n d => (n * 16 + d) % 2 ^ Target.sizeBits) start := by
  induction s generalizing start with
  | nil => rfl
  | cons c s ih =>
      rw [hexValues_cons, ParserCore.chunkSizeValue]
      cases hc : hexCharToNibble c with
      | none => rfl
      | some d =>
          simp only [ih, Option.bind_some, Option.map_map]
          rfl

/-- The size that is read is the size that is said, as far as a `size_t` can hold it. -/
theorem sizeRead_eq {line : Bytes} {v : ℕ} (h : sizeRead line = some v) :
    v = sizeSaid line % 2 ^ Target.sizeBits := by
  rw [sizeRead] at h
  split at h
  · cases h
  · rw [chunkSizeValue_eq] at h
    obtain ⟨ds, hds, rfl⟩ := Option.map_eq_some_iff.mp h
    rw [Numerals.foldl_mod_eq_value, sizeSaid, hds, Option.getD_some]

end

theorem hexCharToNibble_eq_zero {c : UInt8} : hexCharToNibble c = some 0 ↔ c = 48 := by
  constructor
  · intro h
    unfold hexCharToNibble at h
    split at h
    · rename_i hc
      have hle : c.toNat ≤ 48 := Nat.sub_eq_zero_iff_le.mp (Option.some.inj h)
      have hge : (48 : UInt8).toNat ≤ c.toNat := hc.1
      exact UInt8.toNat_inj.mp (Nat.le_antisymm hle hge)
    · split at h
      · exact absurd (Option.some.inj h) (by omega)
      · split at h
        · exact absurd (Option.some.inj h) (by omega)
        · cases h
  · rintro rfl
    rfl

theorem hexValues_zero {s : Bytes} {ds : List ℕ} (h : hexValues s = some ds) :
    (∀ d ∈ ds, d = 0) ↔ ∀ c ∈ s, c = 48 := by
  induction s generalizing ds with
  | nil =>
      obtain rfl : [] = ds := Option.some.inj h
      simp
  | cons c s ih =>
      rw [hexValues_cons] at h
      obtain ⟨d, hc, h⟩ := Option.bind_eq_some_iff.mp h
      obtain ⟨es, hs, rfl⟩ := Option.map_eq_some_iff.mp h
      have hzero : d = 0 ↔ c = 48 := by rw [← hexCharToNibble_eq_zero, hc, Option.some.injEq]
      simp only [List.forall_mem_cons, hzero, ih hs]

/-- A size line says zero if and only if all its digits are zero. -/
theorem sizeSaid_eq_zero [Target] {line : Bytes} {v : ℕ} (h : sizeRead line = some v) :
    sizeSaid line = 0 ↔ ∀ c ∈ sizeField line, c = 48 := by
  rw [sizeRead] at h
  split at h
  · cases h
  · rw [chunkSizeValue_eq] at h
    obtain ⟨ds, hds, -⟩ := Option.map_eq_some_iff.mp h
    rw [sizeSaid, hds, Option.getD_some, Numerals.value_eq_zero (by omega), hexValues_zero hds]

/-! ## Accepted lines -/

namespace ParserCore

variable [Target]

/-- What a header line leaves. -/
def withField (p : ParserCore) (f : Bytes × Bytes) : ParserCore :=
  { p with
    contentLength := if saysLength f then intToSize ((parseInt f.2).getD 0) else p.contentLength
    hasContentLength := p.hasContentLength || saysLength f
    chunked := p.chunked || saysChunked f
    headers := p.headers.set f.1 f.2 }

/-- What a chunk-size line leaves. -/
def withSize (p : ParserCore) (size : ℕ) : ParserCore :=
  if size = 0 then { p with state := .kChunkTrailer }
  else { p with chunkRemaining := size, state := .kChunkData }

/-- What a line that is accepted does, state by state. -/
inductive Reads (p : ParserCore) : ParserState → Bytes → ParserCore → Prop
  | status {l : Bytes} (hs : p.state = .kStatusLine) (major minor code : Int) (reason : Bytes) :
      Reads p .kStatusLine l
        { p with
          httpMajor := major
          httpMinor := minor
          statusCode := code
          reason := reason
          state := .kHeaders }
  | blank (hs : p.state = .kHeaders) : Reads p .kHeaders [] p.endHeaders
  | field {l : Bytes} {f : Bytes × Bytes} (hs : p.state = .kHeaders) (hne : l ≠ [])
      (hf : fieldOf l = some f) (hlength : saysLength f = true → (parseInt f.2).isSome) :
      Reads p .kHeaders l (p.withField f)
  | size {l : Bytes} {v : ℕ} (hs : p.state = .kChunkSize) (hv : sizeRead l = some v) :
      Reads p .kChunkSize l (p.withSize v)
  | trailer {l : Bytes} (hs : p.state = .kChunkTrailer) :
      Reads p .kChunkTrailer l (if l = [] then { p with state := .kComplete } else p)

variable {p p' : ParserCore} {l : Bytes} {m n : ℕ}

/-- A header line is read as a field, or answered with an error. -/
theorem readHeader_eq (p : ParserCore) (hne : l ≠ []) (m : ℕ) : p.readHeader l m =
    match fieldOf l with
    | none => (protocolError "malformed HTTP header line", p)
    | some f =>
        if f.1 = [] then (protocolError "empty HTTP header name", p)
        else if saysLength f = true ∧ parseInt f.2 = none then
          (protocolError "malformed Content-Length", p)
        else (.ok m, p.withField f) := by
  unfold readHeader fieldOf
  rw [if_neg hne]
  cases findByte 58 l with
  | none => rfl
  | some colon =>
      dsimp only [Option.map_some]
      generalize toLower (trim (l.take colon)) = name
      generalize trim (l.drop (colon + 1)) = value
      by_cases hname : name = []
      · rw [if_pos hname, if_pos hname]
      rw [if_neg hname, if_neg hname]
      by_cases hlength : name = contentLengthName
      · have hsaid : saysLength (name, value) = true := decide_eq_true hlength
        have hne' : contentLengthName ≠ transferEncodingName := by decide
        rw [if_pos hlength, hsaid]
        cases hv : parseInt value with
        | none => rw [if_pos ⟨rfl, rfl⟩]
        | some len =>
            rw [if_neg (by simp)]
            simp [withField, saysLength, saysChunked, hlength, hv, hne']
      · have hsaid : saysLength (name, value) = false := decide_eq_false hlength
        have hparsed : ¬(saysLength (name, value) = true ∧ parseInt value = none) := by
          rw [hsaid]
          exact fun h => absurd h.1 (by simp)
        rw [if_neg hlength, if_neg hparsed]
        by_cases hte : name = transferEncodingName
        · subst hte
          have hchunked : saysChunked (transferEncodingName, value) =
              (find chunkedCoding (toLower value)).isSome := by simp [saysChunked]
          rw [if_pos rfl, withField, hsaid, hchunked, Bool.or_false]
          rfl
        · have hchunked : saysChunked (name, value) = false := by simp [saysChunked, hte]
          rw [if_neg hte, withField, hsaid, hchunked, Bool.or_false, Bool.or_false]
          rfl

theorem reads_header (hs : p.state = .kHeaders) (h : p.readHeader l m = (.ok n, p')) :
    p.Reads .kHeaders l p' := by
  by_cases hne : l = []
  · subst hne
    obtain ⟨-, rfl⟩ := Prod.mk.inj h
    exact .blank hs
  · rw [readHeader_eq p hne] at h
    split at h
    · cases h
    · rename_i f hf
      split at h
      · cases h
      · split at h
        · cases h
        · rename_i hlength
          obtain ⟨-, rfl⟩ := Prod.mk.inj h
          exact .field hs hne hf fun hsaid =>
            Option.isSome_iff_ne_none.mpr fun hnone => hlength ⟨hsaid, hnone⟩

/-- A chunk-size line is read as a number, or answered with an error. -/
theorem readChunkSize_cases (p : ParserCore) (l : Bytes) (m : ℕ) :
    (sizeRead l = none ∧ ∃ e, p.readChunkSize l m = (.error e, p)) ∨
      ∃ v, sizeRead l = some v ∧ p.readChunkSize l m = (.ok m, p.withSize v) := by
  unfold readChunkSize
  extract_lets field
  have hfield : sizeField l = field := rfl
  rw [sizeRead, hfield]
  clear_value field
  split
  · exact .inl ⟨rfl, _, rfl⟩
  · split
    · rename_i hv
      exact .inl ⟨hv, _, rfl⟩
    · rename_i hv
      exact .inr ⟨0, hv, rfl⟩
    · rename_i v hv0 hv
      refine .inr ⟨v, hv, ?_⟩
      rw [withSize, if_neg]
      exact hv0

theorem reads_chunkSize (hs : p.state = .kChunkSize) (h : p.readChunkSize l m = (.ok n, p')) :
    p.Reads .kChunkSize l p' := by
  obtain ⟨-, e, heq⟩ | ⟨v, hv, heq⟩ := readChunkSize_cases p l m
  · rw [h] at heq
    cases heq
  · obtain ⟨-, rfl⟩ := Prod.mk.inj (h.symm.trans heq)
    exact .size hs hv

/-- Everything that an accepted line can do. -/
theorem reads_of_readLine (hreads : p.readsLine = true) (h : p.readLine l m = (.ok n, p')) :
    p.Reads p.state l p' := by
  unfold readLine at h
  split at h
  · rename_i hs
    rw [hs]
    obtain ⟨e, he, -⟩ | ⟨_, _, major, minor, code, -, -, -, -, -, -, heq⟩ :=
      readStatusLine_cases p l m
    · rw [h] at he
      cases he
    · obtain ⟨-, rfl⟩ := Prod.mk.inj (h.symm.trans heq)
      exact .status hs _ _ _ _
  · rename_i hs
    rw [hs]
    exact reads_header hs h
  · rename_i hs
    rw [hs]
    exact reads_chunkSize hs h
  · rename_i h1 h2 h3
    have hs : p.state = .kChunkTrailer := by
      cases hs : p.state <;> simp_all [readsLine]
    rw [hs]
    obtain ⟨-, rfl⟩ := Prod.mk.inj h
    exact .trailer hs

end ParserCore

end EspModemLink.Http
