import EspModemLink.Http.ResponseLines

/-!
# The size of a chunk

A chunk-size line says a number in any number of hex digits. The parser reads the number into a
`size_t`, and what it then emits as the chunk is what that `size_t` holds: the number itself only
if it fits.
-/

namespace EspModemLink.Http

open Bytes AtParser

/-! ## What stands behind a chunk-size line -/

/-- The data of a chunk. -/
def Intake.isChunkData : Intake → Bool
  | .bytes .kChunkData _ => true
  | _ => false

/-- The state a pass started in. -/
def Intake.state? : Intake → Option ParserState
  | .line s _ => some s
  | .bytes s _ => some s
  | .finish => none

/-- What the parser took, without the calls of `Finish`. -/
def passes (h : List Intake) : List Intake := h.filter (· ≠ .finish)

/-- The bytes emitted for the chunk at the front of the passes. -/
def chunkData (back : List Intake) : Bytes := (back.takeWhile Intake.isChunkData).flatMap Intake.emits

/-- The state that the first of the passes found, or the state the parser is in where there is
none. -/
def foundState (back : List Intake) (p : ParserCore) : ParserState :=
  (back.head?.bind Intake.state?).getD p.state

/-- The bytes that the parser still waits for in the chunk at the front of the passes. -/
def chunkOwed (back : List Intake) (p : ParserCore) : ℕ :=
  if back.all Intake.isChunkData = true ∧ p.state = .kChunkData then p.chunkRemaining else 0

/-- A chunk-size line is honoured: as many bytes are emitted as its chunk, those still waited for
included, as its digits say, and the line ends the body if and only if its digits are all zero. -/
structure ChunkExact (line : Bytes) (back : List Intake) (p : ParserCore) : Prop where
  data : (chunkData back).length + chunkOwed back p = sizeSaid line
  ends : foundState back p = .kChunkTrailer ↔ ∀ c ∈ sizeField line, c = 48

theorem passes_snoc (h : List Intake) (i : Intake) :
    passes (h ++ [i]) = if i = .finish then passes h else passes h ++ [i] := by
  by_cases hi : i = .finish <;> simp [passes, hi]

/-! ## What a size that was read leads to -/

/-- How far the chunk is read whose size line was read as `v`. -/
inductive ChunkRead (v : ℕ) (back : List Intake) (p : ParserCore) : Prop
  | last (hzero : v = 0) (hnil : back = []) (hs : p.state = .kChunkTrailer)
  | inside (hpos : v ≠ 0) (hdata : back.all Intake.isChunkData = true) (hs : p.state = .kChunkData)
      (hcount : (chunkData back).length + p.chunkRemaining = v)
  | whole (hpos : v ≠ 0) (hne : back ≠ []) (hdata : back.all Intake.isChunkData = true)
      (hs : p.state ≠ .kChunkData) (hcount : (chunkData back).length = v)
  | past (hother : back.all Intake.isChunkData = false) (hcount : (chunkData back).length = v)
      (hends : foundState back p = .kChunkTrailer ↔ v = 0)

section

variable {v : ℕ} {back : List Intake} {p p' : ParserCore} {i : Intake}

theorem chunkData_snoc_of_data (hdata : back.all Intake.isChunkData = true) :
    chunkData (back ++ [i]) = chunkData back ++ if i.isChunkData then i.emits else [] := by
  have hall : ∀ j ∈ back, j.isChunkData = true := List.all_eq_true.mp hdata
  rw [chunkData, List.takeWhile_append_of_pos hall, chunkData, List.takeWhile_eq_self_iff.mpr hall]
  cases hi : i.isChunkData <;> simp [hi]

theorem chunkData_snoc_of_other (hother : back.all Intake.isChunkData = false) :
    chunkData (back ++ [i]) = chunkData back := by
  rw [chunkData, List.takeWhile_append, chunkData, if_neg]
  intro hlength
  have hself := (List.takeWhile_sublist Intake.isChunkData (l := back)).eq_of_length hlength
  have hall := List.all_eq_true.mpr (List.takeWhile_eq_self_iff.mp hself)
  exact absurd (hall.symm.trans hother) (by simp)

/-- What the first pass found does not depend on the parser behind them. -/
theorem foundState_append (hne : back ≠ []) (hfinish : .finish ∉ back) (more : List Intake)
    (p' : ParserCore) : foundState (back ++ more) p' = foundState back p := by
  cases back with
  | nil => exact absurd rfl hne
  | cons i back =>
      cases i with
      | line | bytes => rfl
      | finish => exact absurd (List.mem_cons_self) hfinish

/-- The first of several passes over chunk data found the parser in that state. -/
theorem foundState_of_data (hne : back ≠ []) (hdata : back.all Intake.isChunkData = true) :
    foundState back p = .kChunkData := by
  cases back with
  | nil => exact absurd rfl hne
  | cons i back =>
      have hi : i.isChunkData = true := List.all_eq_true.mp hdata i List.mem_cons_self
      unfold Intake.isChunkData at hi
      split at hi
      · rfl
      · cases hi

/-- A line whose chunk is read no further than this is honoured if the size that was read is the
size that it says. -/
theorem ChunkRead.exact_iff {l : Bytes} (hread : ChunkRead v back p)
    (hzero : sizeSaid l = 0 ↔ ∀ c ∈ sizeField l, c = 48) :
    ChunkExact l back p ↔ v = sizeSaid l := by
  have hcount : (chunkData back).length + chunkOwed back p = v ∧
      (foundState back p = .kChunkTrailer ↔ v = 0) := by
    cases hread with
    | last hv hnil hs =>
        subst hnil
        refine ⟨?_, by simp [foundState, hs, hv]⟩
        simp [chunkData, chunkOwed, hs, hv]
    | inside hpos hdata hs hcount =>
        refine ⟨by rw [chunkOwed, if_pos ⟨hdata, hs⟩, hcount], ?_⟩
        have hfound : foundState back p = .kChunkData := by
          by_cases hne : back = []
          · simp [foundState, hne, hs]
          · exact foundState_of_data hne hdata
        simp [hfound, hpos]
    | whole hpos hne hdata hs hcount =>
        refine ⟨by rw [chunkOwed, if_neg fun h => hs h.2, Nat.add_zero, hcount], ?_⟩
        simp [foundState_of_data hne hdata, hpos]
    | past hother hcount hends =>
        exact ⟨by rw [chunkOwed, if_neg (by simp [hother]), Nat.add_zero, hcount], hends⟩
  obtain ⟨hdata, hends⟩ := hcount
  constructor
  · exact fun hexact => hdata.symm.trans hexact.data
  · rintro rfl
    exact ⟨hdata, hends.trans hzero⟩

/-! ## Every size line of a run -/

variable [Target]

/-- One more pass behind a chunk-size line. -/
theorem ChunkRead.pass (hread : ChunkRead v back p) (hfinish : .finish ∉ back) (hpass : Pass p i p')
    (hi : i ≠ .finish) : ChunkRead v (back ++ [i]) p' := by
  have hother : ∀ {s : ParserState}, p.state = s → s ≠ .kChunkData → i.isChunkData = false := by
    intro s hs hne
    cases hpass <;> simp_all [Intake.isChunkData]
  cases hread with
  | last hzero hnil hs =>
      subst hnil
      have hdata := hother hs (by simp)
      refine .past (by simp [hdata]) (by simp [chunkData, hdata, hzero]) ?_
      cases hpass with
      | line reads hline => simp [foundState, Intake.state?, hs, hzero]
      | openBody hs' => simp [hs] at hs'
      | countedBody hs' => simp [hs] at hs'
      | chunk hs' => simp [hs] at hs'
      | chunkEnd hs' => simp [hs] at hs'
      | finish => exact absurd rfl hi
  | inside hpos hdata hs hcount =>
      cases hpass with
      | line reads hline => simp [ParserCore.readsLine, hs] at reads
      | openBody hs' => simp [hs] at hs'
      | countedBody hs' => simp [hs] at hs'
      | chunkEnd hs' => simp [hs] at hs'
      | finish => exact absurd rfl hi
      | chunk hs' hle =>
          rename_i d
          have hmore : (back ++ [Intake.bytes .kChunkData d]).all Intake.isChunkData = true := by
            rw [List.all_append, hdata]
            rfl
          have hlength : (chunkData (back ++ [.bytes .kChunkData d])).length =
              (chunkData back).length + d.length := by
            rw [chunkData_snoc_of_data hdata, List.length_append]
            rfl
          by_cases hlast : p.chunkRemaining - d.length = 0
          · refine .whole hpos (by simp) hmore (by simp [ParserCore.countChunk, hlast]) ?_
            rw [hlength]
            omega
          · refine .inside hpos hmore (by simp [ParserCore.countChunk, hlast, hs]) ?_
            rw [hlength]
            simp only [ParserCore.countChunk]
            omega
  | whole hpos hne hdata hs hcount =>
      have hend := hother rfl hs
      refine .past (by simp [hend]) ?_ ?_
      · rw [chunkData_snoc_of_data hdata, hend]
        simpa using hcount
      · rw [foundState_append (p := p) hne hfinish, foundState_of_data hne hdata]
        simp [hpos]
  | past hbefore hcount hends =>
      have hne : back ≠ [] := by
        rintro rfl
        simp at hbefore
      refine .past (by simp [hbefore]) ?_ ?_
      · rw [chunkData_snoc_of_other hbefore, hcount]
      · rwa [foundState_append (p := p) hne hfinish]

omit [Target] in
/-- A parser that stops in an error, or is told that the connection closed, is no further. -/
theorem ChunkRead.stop (hread : ChunkRead v back p) (hfinish : .finish ∉ back)
    (htrailer : p.state = .kChunkTrailer → p' = p) (hdata : p.state = .kChunkData → p' = p)
    (hnext : p.state ≠ .kChunkData → p'.state ≠ .kChunkData) : ChunkRead v back p' := by
  cases hread with
  | last hzero hnil hs =>
      rw [htrailer hs]
      exact .last hzero hnil hs
  | inside hpos hall hs hcount =>
      rw [hdata hs]
      exact .inside hpos hall hs hcount
  | whole hpos hne hall hs hcount => exact .whole hpos hne hall (hnext hs) hcount
  | past hother hcount hends =>
      have hne : back ≠ [] := by
        rintro rfl
        simp at hother
      refine .past hother hcount ?_
      have hsame := foundState_append (p := p) hne hfinish [] p'
      rw [List.append_nil] at hsame
      rwa [hsame]

omit [Target] in
/-- A size line that was read leads into its chunk, or into the trailer. -/
theorem chunkRead_withSize (p : ParserCore) (v : ℕ) : ChunkRead v [] (p.withSize v) := by
  unfold ParserCore.withSize
  split
  · rename_i hzero
    exact .last hzero rfl rfl
  · rename_i hpos
    exact .inside hpos rfl rfl (Nat.zero_add v)

/-- Every chunk-size line was read as some number, and its chunk is read that far. -/
def SizesRead (h : List Intake) (p : ParserCore) : Prop :=
  ∀ front l back, passes h = front ++ .line .kChunkSize l :: back →
    ∃ v, sizeRead l = some v ∧ ChunkRead v back p

omit [Target] in
theorem finish_notMem {h front back : List Intake} {i : Intake}
    (hsplit : passes h = front ++ i :: back) : .finish ∉ back := by
  intro hmem
  have hpasses : Intake.finish ∈ passes h := by
    rw [hsplit]
    simp [hmem]
  simp [passes] at hpasses

theorem sizesRead_pass {h : List Intake} (hread : SizesRead h p) (hpass : Pass p i p') :
    SizesRead (h ++ [i]) p' := by
  intro front l back hsplit
  rw [passes_snoc] at hsplit
  split at hsplit
  · rename_i hi
    obtain ⟨v, hv, hchunk⟩ := hread front l back hsplit
    refine ⟨v, hv, ?_⟩
    cases hpass <;> try cases hi
    obtain ⟨hs, -, -, heq⟩ | ⟨-, heq⟩ := finish_cases p
    · exact hchunk.stop (finish_notMem hsplit) (by simp [hs]) (by simp [hs]) (by simp [heq])
    · rwa [heq]
  · rename_i hi
    obtain rfl | ⟨back, j, rfl⟩ := List.eq_nil_or_concat back
    · obtain ⟨-, hlast⟩ := List.append_inj' hsplit rfl
      obtain rfl := List.singleton_inj.mp hlast
      generalize hk : (Intake.line .kChunkSize l) = k at hpass
      cases hpass <;> try cases hk
      rename_i reads hline
      obtain ⟨hs, rfl⟩ := Intake.line.inj hk
      have hreads := ParserCore.reads_of_readLine reads hline
      rw [← hs] at hreads
      cases hreads with
      | size hs hv => exact ⟨_, hv, chunkRead_withSize p _⟩
    · rw [List.concat_eq_append, ← List.cons_append, ← List.append_assoc] at hsplit
      rw [List.concat_eq_append]
      obtain ⟨hfront, hlast⟩ := List.append_inj' hsplit rfl
      obtain rfl := List.singleton_inj.mp hlast
      obtain ⟨v, hv, hchunk⟩ := hread front l back hfront
      exact ⟨v, hv, hchunk.pass (finish_notMem hfront) hpass hi⟩

theorem sizesRead_after (onBody : Bool) (calls : List ParserCall) :
    SizesRead ((fresh onBody).history calls) ((fresh onBody).after calls).toParserCore := by
  have hstart : SizesRead [] (fresh onBody).toParserCore :=
    fun front l back hsplit => absurd hsplit (by simp [passes])
  refine history_induction (I := SizesRead) (fun _ _ _ _ => sizesRead_pass) ?_
    (fresh_settled onBody).counting hstart calls
  intro h p p' hread hfails front l back hsplit
  obtain ⟨v, hv, hchunk⟩ := hread front l back hsplit
  have hfallible := hfails.fallible
  refine ⟨v, hv, hchunk.stop (finish_notMem hsplit) ?_ ?_ (by simp [hfails.failed])⟩
  · intro hs
    simp [hs] at hfallible
  · intro hs
    simp [hs] at hfallible

/-- Every chunk-size line that a parser accepts, in any stream cut in any way, is honoured if and
only if a `size_t` can hold the number that its digits say. -/
theorem chunkSize_exact_iff {onBody : Bool} {calls : List ParserCall} {front back : List Intake}
    {line : Bytes}
    (hline : passes ((fresh onBody).history calls) = front ++ .line .kChunkSize line :: back) :
    ChunkExact line back ((fresh onBody).after calls).toParserCore ↔
      sizeSaid line < 2 ^ Target.sizeBits := by
  obtain ⟨v, hv, hread⟩ := sizesRead_after onBody calls front line back hline
  have hbound : 0 < 2 ^ Target.sizeBits := by positivity
  rw [hread.exact_iff (sizeSaid_eq_zero hv), sizeRead_eq hv]
  exact Nat.mod_eq_iff_lt hbound.ne'

end

/-- "HTTP/1.1 200", CRLF, "Transfer-Encoding: chunked", CRLF, CRLF, and the rest. -/
def chunkedReply (rest : Bytes) : Bytes :=
  ascii ['H', 'T', 'T', 'P', '/', '1', '.', '1', ' ', '2', '0', '0', '\r', '\n',
    'T', 'r', 'a', 'n', 's', 'f', 'e', 'r', '-', 'E', 'n', 'c', 'o', 'd', 'i', 'n', 'g', ':', ' ',
    'c', 'h', 'u', 'n', 'k', 'e', 'd', '\r', '\n', '\r', '\n'] ++ rest

/-- What the head of `chunkedReply` is read as. -/
def chunkedHead : List Intake :=
  [.line .kStatusLine (ascii ['H', 'T', 'T', 'P', '/', '1', '.', '1', ' ', '2', '0', '0']),
    .line .kHeaders (ascii ['T', 'r', 'a', 'n', 's', 'f', 'e', 'r', '-', 'E', 'n', 'c', 'o', 'd', 'i',
      'n', 'g', ':', ' ', 'c', 'h', 'u', 'n', 'k', 'e', 'd']),
    .line .kHeaders []]

/-- A chunk of three bytes, of which two have come. -/
theorem chunkSize_exact_iff_three :
    letI := esp32
    ChunkExact [51] [.bytes .kChunkData [97, 98]]
        ((fresh false).after [.feed (chunkedReply ([51] ++ crlf ++ [97, 98]))]).toParserCore ↔
      sizeSaid [51] < 2 ^ Target.sizeBits := by
  let := esp32
  have hline : passes ((fresh false).history [.feed (chunkedReply ([51] ++ crlf ++ [97, 98]))]) =
      chunkedHead ++ .line .kChunkSize [51] :: [.bytes .kChunkData [97, 98]] := by decide
  exact chunkSize_exact_iff hline

/-- A chunk of 4294967296 bytes is accepted and ends the body. -/
theorem huge_chunk_ends_body :
    letI := esp32
    let line := ascii ['1', '0', '0', '0', '0', '0', '0', '0', '0']
    let calls := [ParserCall.feed (chunkedReply (line ++ crlf))]
    let p := (fresh false).after calls
    passes ((fresh false).history calls) = chunkedHead ++ [.line .kChunkSize line] ∧
      sizeSaid line = 4294967296 ∧ p.state = .kChunkTrailer ∧
      ¬ChunkExact line [] p.toParserCore := by
  refine ⟨by decide, by decide, by decide, fun h => ?_⟩
  exact absurd (h.ends.mp (by decide)) (by decide)

end EspModemLink.Http
