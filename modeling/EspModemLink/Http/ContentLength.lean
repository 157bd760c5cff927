import EspModemLink.Http.Completion

/-!
# The length that a head announces

A Content-Length goes through `ParseInt`, which also reads negative numbers, and is then cast to a
`size_t`. Without a minus sign the parser waits for exactly the number that was written.
-/

namespace EspModemLink.Http

open Bytes AtParser

/-! ## Decimal numerals -/

/-- Digits and nothing else. -/
def IsNumeral (s : Bytes) : Prop := s ≠ [] ∧ ∀ c ∈ s, isDigit c = true

instance (s : Bytes) : Decidable (IsNumeral s) := inferInstanceAs (Decidable (_ ∧ _))

/-- The number that decimal digits say. -/
def decimalSaid (s : Bytes) : ℕ := Numerals.value 10 (s.map digitValue)

/-- "-". -/
def minus : UInt8 := 45

theorem digits_eq_some {s : Bytes} {n : ℕ} :
    digits s = some n ↔ (∀ c ∈ s, isDigit c = true) ∧ n = decimalSaid s := by
  have hfold : s.foldl (fun n c => n * 10 + digitValue c) 0 = decimalSaid s := by
    rw [decimalSaid, ← Numerals.foldl_eq_value, List.foldl_map]
  rw [digits, hfold]
  by_cases hall : s.all isDigit = true
  · rw [if_pos hall, Option.some.injEq]
    exact ⟨fun h => ⟨List.all_eq_true.mp hall, h.symm⟩, fun h => h.2.symm⟩
  · rw [if_neg hall]
    exact ⟨fun h => absurd h (by simp), fun h => absurd (List.all_eq_true.mpr h.1) hall⟩

/-- A number without a sign is a numeral that an `int` can hold. -/
theorem numeral_of_parseInt {s : Bytes} {n : Int} (h : parseInt s = some n)
    (hsign : s.head? ≠ some minus) : IsNumeral s ∧ n = decimalSaid s ∧ decimalSaid s < 2 ^ 31 := by
  unfold parseInt at h
  split at h
  · cases h
  · exact absurd rfl hsign
  · exact absurd rfl hsign
  · rename_i hne _ _
    obtain ⟨m, hm, hn⟩ := Option.bind_eq_some_iff.mp h
    obtain ⟨hall, rfl⟩ := digits_eq_some.mp hm
    split at hn
    · rename_i hlt
      exact ⟨⟨hne, hall⟩, (Option.some.inj hn).symm, hlt⟩
    · cases hn

/-- The cast keeps a number that is not negative. -/
theorem intToSize_natCast [Target] {n : ℕ} (h : n < 2 ^ 31) : intToSize (n : Int) = n := by
  have hwide : 2 ^ 32 ≤ 2 ^ Target.sizeBits := Nat.pow_le_pow_right (by omega) Target.wide
  have hlt : n < 2 ^ Target.sizeBits := by omega
  rw [intToSize]
  have hcast : ((n : Int) % 2 ^ Target.sizeBits) = ((n % 2 ^ Target.sizeBits : ℕ) : Int) := by
    push_cast
    rfl
  rw [hcast, Int.toNat_natCast, Nat.mod_eq_of_lt hlt]

/-! ## The fields of a head -/

/-- The field that a line of the head says. -/
def Intake.field : Intake → Option (Bytes × Bytes)
  | .line .kHeaders l => fieldOf l
  | _ => none

/-- The fields that were read. -/
def fieldsRead (h : List Intake) : List (Bytes × Bytes) := h.filterMap Intake.field

/-- The values of the Content-Length fields that were read. -/
def lengthsRead (h : List Intake) : List Bytes :=
  ((fieldsRead h).filter saysLength).map Prod.snd

theorem fieldsRead_snoc (h : List Intake) (i : Intake) :
    fieldsRead (h ++ [i]) = fieldsRead h ++ i.field.toList := by
  rw [fieldsRead, List.filterMap_append, fieldsRead]
  cases hi : i.field <;> simp [hi]

section

variable [Target] {h : List Intake} {p p' : ParserCore} {i : Intake}

/-- The members that the fields decide. -/
structure SameFraming (p p' : ParserCore) : Prop where
  contentLength : p'.contentLength = p.contentLength
  hasContentLength : p'.hasContentLength = p.hasContentLength
  chunked : p'.chunked = p.chunked
  headers : p'.headers = p.headers

omit [Target] in
@[simp] theorem emitBody_headers (p : ParserCore) (d : Bytes) :
    (p.emitBody d).headers = p.headers := by
  cases hb : p.onBody <;> simp [ParserCore.emitBody, hb]

omit [Target] in
theorem sameFraming_emitBody (p : ParserCore) (d : Bytes) : SameFraming p (p.emitBody d) :=
  ⟨emitBody_contentLength p d, p.emitBody_hasContentLength d, emitBody_chunked p d,
    emitBody_headers p d⟩

/-- What a pass does with these members. -/
def Frames (p : ParserCore) (i : Intake) (p' : ParserCore) : Prop :=
  (i.field = none ∧ SameFraming p p') ∨
    ∃ f, i.field = some f ∧ (saysLength f = true → (parseInt f.2).isSome) ∧
      SameFraming (p.withField f) p'

theorem frames_line {s : ParserState} {l : Bytes} (hreads : p.Reads s l p') :
    Frames p (.line s l) p' := by
  cases hreads with
  | status hs => exact .inl ⟨rfl, rfl, rfl, rfl, rfl⟩
  | blank hs =>
      refine .inl ⟨rfl, ?_⟩
      unfold ParserCore.endHeaders
      split
      · exact ⟨rfl, rfl, rfl, rfl⟩
      · split <;> exact ⟨rfl, rfl, rfl, rfl⟩
  | field hs hne hf hlength => exact .inr ⟨_, hf, hlength, rfl, rfl, rfl, rfl⟩
  | size hs hv =>
      refine .inl ⟨rfl, ?_⟩
      unfold ParserCore.withSize
      split <;> exact ⟨rfl, rfl, rfl, rfl⟩
  | trailer hs =>
      refine .inl ⟨rfl, ?_⟩
      split <;> exact ⟨rfl, rfl, rfl, rfl⟩

/-- A line of the head changes these members by its field, and no other pass touches them. -/
theorem frames_pass (hpass : Pass p i p') : Frames p i p' := by
  cases hpass with
  | line reads hline => exact frames_line (ParserCore.reads_of_readLine reads hline)
  | openBody => exact .inl ⟨rfl, sameFraming_emitBody p _⟩
  | countedBody =>
      exact .inl ⟨rfl, emitBody_contentLength p _, p.emitBody_hasContentLength _,
        emitBody_chunked p _, emitBody_headers p _⟩
  | chunk =>
      exact .inl ⟨rfl, emitBody_contentLength p _, p.emitBody_hasContentLength _,
        emitBody_chunked p _, emitBody_headers p _⟩
  | chunkEnd => exact .inl ⟨rfl, rfl, rfl, rfl, rfl⟩
  | finish =>
      refine .inl ⟨rfl, ?_⟩
      obtain ⟨-, -, -, heq⟩ | ⟨-, heq⟩ := finish_cases p <;> rw [heq] <;>
        exact ⟨rfl, rfl, rfl, rfl⟩

/-- The members say what the fields say: whether there is a length, which one was written last, and
whether the body is chunked. -/
structure FieldsKept (h : List Intake) (p : ParserCore) : Prop where
  hasLength : p.hasContentLength = true ↔ lengthsRead h ≠ []
  readable : ∀ v ∈ lengthsRead h, (parseInt v).isSome
  last : ∀ v, (lengthsRead h).getLast? = some v →
    p.contentLength = intToSize ((parseInt v).getD 0)
  chunked : p.chunked = true ↔ ∃ f ∈ fieldsRead h, saysChunked f = true

theorem FieldsKept.same (hkept : FieldsKept h p) (hi : i.field = none) (hsame : SameFraming p p') :
    FieldsKept (h ++ [i]) p' := by
  have hfields : fieldsRead (h ++ [i]) = fieldsRead h := by
    rw [fieldsRead_snoc, hi]
    exact List.append_nil _
  have hlengths : lengthsRead (h ++ [i]) = lengthsRead h := by
    rw [lengthsRead, hfields, lengthsRead]
  refine ⟨?_, ?_, ?_, ?_⟩
  · rw [hsame.hasContentLength, hlengths]
    exact hkept.hasLength
  · rw [hlengths]
    exact hkept.readable
  · rw [hsame.contentLength, hlengths]
    exact hkept.last
  · rw [hsame.chunked, hfields]
    exact hkept.chunked

theorem FieldsKept.field {f : Bytes × Bytes} (hkept : FieldsKept h p) (hi : i.field = some f)
    (hlength : saysLength f = true → (parseInt f.2).isSome)
    (hsame : SameFraming (p.withField f) p') : FieldsKept (h ++ [i]) p' := by
  have hfields : fieldsRead (h ++ [i]) = fieldsRead h ++ [f] := by
    rw [fieldsRead_snoc, hi]
    rfl
  have hchunked : p'.chunked = true ↔ ∃ g ∈ fieldsRead (h ++ [i]), saysChunked g = true := by
    rw [hsame.chunked, hfields]
    simp only [ParserCore.withField, Bool.or_eq_true, hkept.chunked, List.mem_append,
      List.mem_singleton]
    constructor
    · rintro (⟨g, hg, hsays⟩ | hsays)
      · exact ⟨g, .inl hg, hsays⟩
      · exact ⟨f, .inr rfl, hsays⟩
    · rintro ⟨g, hg | rfl, hsays⟩
      · exact .inl ⟨g, hg, hsays⟩
      · exact .inr hsays
  cases hsays : saysLength f with
  | false =>
      have hlengths : lengthsRead (h ++ [i]) = lengthsRead h := by
        simp [lengthsRead, hfields, hsays]
      refine ⟨?_, ?_, ?_, hchunked⟩
      · rw [hsame.hasContentLength, hlengths, ← hkept.hasLength]
        simp [ParserCore.withField, hsays]
      · rw [hlengths]
        exact hkept.readable
      · intro v hv
        rw [hlengths] at hv
        rw [hsame.contentLength, ← hkept.last v hv]
        simp [ParserCore.withField, hsays]
  | true =>
      have hlengths : lengthsRead (h ++ [i]) = lengthsRead h ++ [f.2] := by
        simp [lengthsRead, hfields, hsays]
      refine ⟨?_, ?_, ?_, hchunked⟩
      · rw [hsame.hasContentLength, hlengths]
        simp [ParserCore.withField, hsays]
      · rw [hlengths]
        intro v hv
        obtain hv | hv := List.mem_append.mp hv
        · exact hkept.readable v hv
        · rw [List.mem_singleton.mp hv]
          exact hlength hsays
      · intro v hv
        rw [hlengths, List.getLast?_concat] at hv
        rw [hsame.contentLength, ← Option.some.inj hv]
        simp [ParserCore.withField, hsays]

theorem fieldsKept_after (onBody : Bool) (calls : List ParserCall) :
    FieldsKept ((fresh onBody).history calls) ((fresh onBody).after calls).toParserCore := by
  have hstart : FieldsKept [] (fresh onBody).toParserCore :=
    ⟨by simp [fresh, lengthsRead, fieldsRead], by simp [lengthsRead, fieldsRead],
      by simp [lengthsRead, fieldsRead], by simp [fresh, fieldsRead]⟩
  refine history_induction (I := FieldsKept) ?_ ?_ (fresh_settled onBody).counting hstart calls
  · intro h p i p' hkept hpass
    obtain ⟨hi, hsame⟩ | ⟨f, hi, hlength, hsame⟩ := frames_pass hpass
    · exact hkept.same hi hsame
    · exact hkept.field hi hlength hsame
  · intro h p p' hkept hfails
    refine ⟨?_, hkept.readable, ?_, ?_⟩
    · rw [hfails.hasContentLength]
      exact hkept.hasLength
    · rw [hfails.contentLength]
      exact hkept.last
    · rw [hfails.chunked]
      exact hkept.chunked

/-- Behind the head of a response that is not chunked there is only its body. -/
def PastHead (h : List Intake) (p : ParserCore) : Prop :=
  headEnd ∈ h → p.state ≠ .kStatusLine ∧ p.state ≠ .kHeaders ∧
    (p.chunked = false → p.state = .kBody ∨ p.state = .kComplete)

theorem pastHead_line {s : ParserState} {l : Bytes} (hreads : p.Reads s l p') (hpast : PastHead h p) :
    PastHead (h ++ [.line s l]) p' := by
  have hbefore : ∀ {i : Intake}, i ≠ headEnd → headEnd ∈ h ++ [i] → headEnd ∈ h := by
    intro i hi hmem
    obtain hmem | hmem := List.mem_append.mp hmem
    · exact hmem
    · exact absurd (List.mem_singleton.mp hmem).symm hi
  cases hreads with
  | status hs => exact fun hmem => absurd hs (hpast (hbefore (by simp [headEnd]) hmem)).1
  | blank hs =>
      intro _
      unfold ParserCore.endHeaders
      split
      · rename_i hchunked
        exact ⟨by simp, by simp, fun hplain => absurd (hchunked.symm.trans hplain) (by simp)⟩
      · split
        · by_cases hzero : p.contentLength = 0 <;> simp [hzero]
        · simp
  | field hs hne =>
      exact fun hmem => absurd hs (hpast (hbefore (by simpa [headEnd] using hne) hmem)).2.1
  | size hs hv =>
      intro hmem
      obtain ⟨-, -, hplain⟩ := hpast (hbefore (by simp [headEnd]) hmem)
      unfold ParserCore.withSize
      split
      · exact ⟨by simp, by simp, fun h => by simpa [hs] using hplain h⟩
      · exact ⟨by simp, by simp, fun h => by simpa [hs] using hplain h⟩
  | trailer hs =>
      intro hmem
      obtain ⟨-, -, hplain⟩ := hpast (hbefore (by simp [headEnd]) hmem)
      split
      · simp
      · exact ⟨by simp [hs], by simp [hs], hplain⟩

theorem pastHead_pass (hpast : PastHead h p) (hpass : Pass p i p') : PastHead (h ++ [i]) p' := by
  have hbefore : i ≠ headEnd → headEnd ∈ h ++ [i] → headEnd ∈ h := by
    intro hi hmem
    obtain hmem | hmem := List.mem_append.mp hmem
    · exact hmem
    · exact absurd (List.mem_singleton.mp hmem).symm hi
  cases hpass with
  | line reads hline => exact pastHead_line (ParserCore.reads_of_readLine reads hline) hpast
  | openBody hs ho => exact fun _ => by simp [hs]
  | countedBody hs ho hle =>
      rename_i d
      intro _
      by_cases hlast : p.bodyRemaining - d.length = 0 <;> simp [ParserCore.countBody, hs, hlast]
  | chunk hs hle =>
      rename_i d
      intro hmem
      obtain ⟨-, -, hplain⟩ := hpast (hbefore (by simp [headEnd]) hmem)
      have hkeeps : (p.countChunk d).chunked = p.chunked := emitBody_chunked p d
      have hchunked : p.chunked ≠ false := fun h => by simpa [hs] using hplain h
      rw [hkeeps]
      by_cases hlast : p.chunkRemaining - d.length = 0 <;>
        simp [ParserCore.countChunk, hs, hlast, hchunked]
  | chunkEnd hs =>
      intro hmem
      obtain ⟨-, -, hplain⟩ := hpast (hbefore (by simp [headEnd]) hmem)
      exact ⟨by simp, by simp, fun h => by simpa [hs] using hplain h⟩
  | finish =>
      intro hmem
      obtain ⟨hs, -, -, heq⟩ | ⟨-, heq⟩ := finish_cases p
      · rw [heq]
        simp
      · rw [heq]
        exact hpast (hbefore (by simp [headEnd]) hmem)

theorem pastHead_after (onBody : Bool) (calls : List ParserCall) :
    PastHead ((fresh onBody).history calls) ((fresh onBody).after calls).toParserCore := by
  have hstart : PastHead [] (fresh onBody).toParserCore := fun hmem => absurd hmem (by simp)
  refine history_induction (I := PastHead) (fun _ _ _ _ => pastHead_pass) ?_
    (fresh_settled onBody).counting hstart calls
  intro h p p' hpast hfails hmem
  obtain ⟨hstatus, hheaders, hplain⟩ := hpast hmem
  rw [hfails.failed, hfails.chunked]
  refine ⟨by simp, by simp, fun hnone => ?_⟩
  have hfallible := hfails.fallible
  obtain hs | hs := hplain hnone <;> simp [hs] at hfallible

/-! ## Exactly the length that was written -/

/-- Every Content-Length that was accepted is a decimal numeral, and the parser waits for as many
body bytes as the last one says. -/
structure LengthExact (h : List Intake) (p : ParserCore) : Prop where
  numerals : ∀ v ∈ lengthsRead h, IsNumeral v
  last : ∃ v, (lengthsRead h).getLast? = some v ∧ p.contentLength = decimalSaid v ∧
    (p.state = .kBody ∧ p.emitted.length + p.bodyRemaining = decimalSaid v ∨
      p.state = .kComplete ∧ p.emitted.length = decimalSaid v)

/-- A response whose head was accepted, that is not chunked and has a Content-Length, is read to
exactly the length that was written if and only if no Content-Length begins with a minus sign. -/
theorem contentLength_exact_iff {onBody : Bool} {calls : List ParserCall}
    (hhead : headEnd ∈ (fresh onBody).history calls)
    (hplain : ((fresh onBody).after calls).chunked = false)
    (hlength : ((fresh onBody).after calls).hasContentLength = true) :
    LengthExact ((fresh onBody).history calls) ((fresh onBody).after calls).toParserCore ↔
      ∀ v ∈ lengthsRead ((fresh onBody).history calls), v.head? ≠ some minus := by
  have hkept := fieldsKept_after onBody calls
  have hread := readSoFar_after onBody calls
  have hstate := (pastHead_after onBody calls hhead).2.2 hplain
  generalize (fresh onBody).history calls = h at *
  generalize ((fresh onBody).after calls).toParserCore = p at *
  constructor
  · intro hexact v hv hsign
    obtain ⟨hne, hall⟩ := hexact.numerals v hv
    have hminus := hall minus (List.mem_of_head? hsign)
    exact absurd hminus (by decide)
  · intro hsigns
    have hparsed : ∀ v ∈ lengthsRead h, ∃ n : Int, parseInt v = some n ∧ IsNumeral v ∧
        n = decimalSaid v ∧ decimalSaid v < 2 ^ 31 := by
      intro v hv
      obtain ⟨n, hn⟩ := Option.isSome_iff_exists.mp (hkept.readable v hv)
      exact ⟨n, hn, numeral_of_parseInt hn (hsigns v hv)⟩
    refine ⟨fun v hv => ?_, ?_⟩
    · obtain ⟨n, -, hnumeral, -⟩ := hparsed v hv
      exact hnumeral
    · obtain ⟨v, hv⟩ : ∃ v, (lengthsRead h).getLast? = some v :=
        Option.ne_none_iff_exists'.mp (by simpa using hkept.hasLength.mp hlength)
      obtain ⟨n, hn, -, rfl, hrange⟩ := hparsed v (List.mem_of_getLast? hv)
      have hannounced : p.contentLength = decimalSaid v := by
        rw [hkept.last v hv, hn, Option.getD_some, intToSize_natCast hrange]
      refine ⟨v, hv, hannounced, ?_⟩
      rw [← hannounced]
      obtain hs | hs := hstate
      · rw [ReadSoFar, hs] at hread
        exact .inl ⟨hs, hread.2.2.1 hlength⟩
      · rw [ReadSoFar, hs] at hread
        obtain hchunks | hended | hclose := hread
        · exact absurd (hchunks.1.symm.trans hplain) (by simp)
        · exact .inr ⟨hs, hended.2.2.2⟩
        · exact absurd (hlength.symm.trans hclose.2.1) (by simp)

end

/-- "HTTP/1.1 200", CRLF, "Content-Length: ", the value, CRLF, CRLF. -/
def announcing (value : Bytes) : Bytes :=
  ascii ['H', 'T', 'T', 'P', '/', '1', '.', '1', ' ', '2', '0', '0', '\r', '\n',
    'C', 'o', 'n', 't', 'e', 'n', 't', '-', 'L', 'e', 'n', 'g', 't', 'h', ':', ' '] ++ value ++
    crlf ++ crlf

/-- A length of 42 is waited for. -/
theorem contentLength_exact_iff_numeral :
    letI := esp32
    LengthExact ((fresh false).history [.feed (announcing [52, 50])])
        ((fresh false).after [.feed (announcing [52, 50])]).toParserCore ↔
      ∀ v ∈ lengthsRead ((fresh false).history [.feed (announcing [52, 50])]),
        v.head? ≠ some minus :=
  letI := esp32
  contentLength_exact_iff (by decide) (by decide) (by decide)

/-- A length of -1 is accepted, and the parser waits for 4294967295 bytes. -/
theorem negative_length_accepted :
    letI := esp32
    let p := (fresh false).after [.feed (announcing [45, 49])]
    p.state = .kBody ∧ p.bodyRemaining = 4294967295 ∧
      ¬LengthExact ((fresh false).history [.feed (announcing [45, 49])]) p.toParserCore := by
  refine ⟨by decide, by decide, fun h => ?_⟩
  exact absurd (h.numerals [45, 49] (by decide)) (by decide)

end EspModemLink.Http
