import EspModemLink.Http.Parser
import EspModemLink.Library.Cutting

/-!
# Feeding a response in pieces

`TakeLine` looks for CRLF first and falls back to a bare LF, so a line that ends
in a bare LF is longer when a CRLF is already behind it. Where no line that one `Feed` of
the whole stream takes contains a bare LF, every cut of the stream ends in the
same parser; a status line that contains one is told apart by a cut behind it.
-/

namespace EspModemLink.Http

open Bytes AtParser Cutting

/-! ## Lines -/

theorem takeLine_le {data line : Bytes} {n : ℕ} (h : takeLine data = some (line, n)) :
    0 < n ∧ n ≤ data.length := by
  unfold takeLine at h
  split at h
  · obtain ⟨pos, hpos, heq⟩ := Option.map_eq_some_iff.mp h
    obtain ⟨rfl, rfl⟩ := Prod.mk.inj heq
    have hlt := (List.findIdx?_eq_some_iff_getElem.mp hpos).1
    omega
  · rename_i pos hpos
    obtain ⟨rfl, rfl⟩ := Prod.mk.inj (Option.some.inj h)
    have hlen := (prefix_drop_of_find hpos).length_le
    simp only [crlf, List.length_cons, List.length_nil, List.length_drop] at hlen
    omega

/-- Where a CRLF begins in `data ++ more` but not in `data`, it ends behind `data`. -/
theorem length_le_of_find_append {data more : Bytes} {pos : ℕ} (hnone : find crlf data = none)
    (h : find crlf (data ++ more) = some pos) : data.length ≤ pos + 1 := by
  by_contra hlt
  have hp := prefix_drop_of_find h
  rw [List.drop_append_of_le_length (by omega)] at hp
  have hshort : crlf <+: data.drop pos :=
    List.prefix_of_prefix_length_le hp (List.prefix_append _ _)
      (by simp only [crlf, List.length_cons, List.length_nil, List.length_drop]; omega)
  exact find_ne_none_of_prefix_drop hshort hnone

/-- A line stays the line that is taken when the data grows behind it, unless a line with a
bare LF in it is taken then. -/
theorem takeLine_append {data line : Bytes} {n : ℕ} (more : Bytes)
    (h : takeLine data = some (line, n))
    (hbare : ∀ line' n', takeLine (data ++ more) = some (line', n') → lf ∉ line') :
    takeLine (data ++ more) = some (line, n) := by
  unfold takeLine at h
  split at h
  · rename_i hnone
    obtain ⟨pos, hpos, heq⟩ := Option.map_eq_some_iff.mp h
    obtain ⟨rfl, rfl⟩ := Prod.mk.inj heq
    cases hmore : find crlf (data ++ more) with
    | none =>
        have hlt := (List.findIdx?_eq_some_iff_getElem.mp hpos).1
        simp only [takeLine, hmore, findByte_append_left more hpos, Option.map_some]
        rw [List.take_append_of_le_length (by omega)]
    | some pos' =>
        -- The longer line would hold the LF this one ends in.
        have hlf : (data ++ more)[pos]? = some lf :=
          getElem?_of_findByte (findByte_append_left more hpos)
        have hlt := (List.findIdx?_eq_some_iff_getElem.mp hpos).1
        have hfar := length_le_of_find_append hnone hmore
        have hline : takeLine (data ++ more) = some ((data ++ more).take pos', pos' + 2) := by
          simp only [takeLine, hmore]
        have hle : pos' ≤ pos := by
          by_contra hgt
          refine hbare _ _ hline (List.mem_of_getElem? (i := pos) ?_)
          rw [List.getElem?_take_of_lt (by omega), hlf]
        obtain rfl : pos' = pos := by omega
        obtain ⟨t, ht⟩ := prefix_drop_of_find hmore
        have hcr : (data ++ more)[pos']? = some cr := by
          have h0 : ((data ++ more).drop pos')[0]? = some cr := by rw [← ht]; rfl
          simpa using h0
        rw [hlf] at hcr
        exact absurd hcr (by decide)
  · rename_i pos hpos
    obtain ⟨rfl, rfl⟩ := Prod.mk.inj (Option.some.inj h)
    have hlen := (prefix_drop_of_find hpos).length_le
    simp only [crlf, List.length_cons, List.length_nil, List.length_drop] at hlen
    simp only [takeLine, find_append more hpos]
    rw [List.take_append_of_le_length (by omega)]

theorem mem_of_takeLine {data line : Bytes} {n : ℕ} {c : UInt8}
    (h : takeLine data = some (line, n)) (hc : c ∈ line) : c ∈ data := by
  unfold takeLine at h
  split at h
  · obtain ⟨pos, -, heq⟩ := Option.map_eq_some_iff.mp h
    exact List.mem_of_mem_take ((Prod.mk.inj heq).1 ▸ hc)
  · exact List.mem_of_mem_take ((Prod.mk.inj (Option.some.inj h)).1 ▸ hc)

/-- Data that ends in its first LF is a line without one. -/
theorem takeLine_firstLine {s : Bytes} (h : lf ∉ s) :
    ∃ line n, takeLine (s ++ [lf]) = some (line, n) ∧ lf ∉ line := by
  cases hfind : find crlf (s ++ [lf]) with
  | none =>
      refine ⟨s, s.length + 1, ?_, h⟩
      simp [takeLine, hfind, findByte_append [] h]
  | some pos =>
      refine ⟨(s ++ [lf]).take pos, pos + 2, by simp only [takeLine, hfind], fun hm => h ?_⟩
      have hlen := (prefix_drop_of_find hfind).length_le
      simp only [crlf, List.length_cons, List.length_nil, List.length_drop,
        List.length_append] at hlen
      rw [List.take_append_of_le_length (by omega)] at hm
      exact List.mem_of_mem_take hm

theorem find_crlf {l : Bytes} (h : lf ∉ l) : find crlf (l ++ crlf) = some l.length := by
  induction l with
  | nil => rfl
  | cons c l ih =>
      have hfirst : crlf.isPrefixOf (c :: (l ++ crlf)) = false := by
        cases l with
        | nil => simp [crlf, List.isPrefixOf, cr, lf]
        | cons d l =>
            have hd : ¬lf = d := fun hd => h (by simp [hd])
            simp [crlf, List.isPrefixOf, hd]
      rw [List.cons_append, find_cons, hfirst, ih fun hm => h (List.mem_cons_of_mem _ hm)]
      rfl

/-- A line without an LF in it is taken up to its CRLF. -/
theorem takeLine_crlf {l : Bytes} (h : lf ∉ l) (t : Bytes) :
    takeLine (l ++ crlf ++ t) = some (l, l.length + 2) := by
  rw [takeLine, find_append t (find_crlf h)]
  simp [List.append_assoc]

/-! ## Status lines -/

section

variable {p p' : ParserCore} {line : Bytes} {consumed n : ℕ}

/-- The reason phrase behind the status code. -/
def reasonOf (remainder : Bytes) : Bytes :=
  match findByte 32 remainder with
  | none => []
  | some e => trim (remainder.drop (e + 1))

theorem readStatusLine_cases (p : ParserCore) (line : Bytes) (consumed : ℕ) :
    (∃ e, (p.readStatusLine line consumed).1 = .error e ∧
      (p.readStatusLine line consumed).2.reason = p.reason) ∨
    ∃ sp dot major minor code, startsWith line (ascii ['H', 'T', 'T', 'P', '/']) = true ∧
      findByte 32 (line.drop 5) = some sp ∧
      findByte 46 ((line.drop 5).take sp) = some dot ∧
      parseInt (((line.drop 5).take sp).take dot) = some major ∧
      parseInt (((line.drop 5).take sp).drop (dot + 1)) = some minor ∧
      parseInt (upTo (trim ((line.drop 5).drop (sp + 1)))
        (findByte 32 (trim ((line.drop 5).drop (sp + 1))))) = some code ∧
      p.readStatusLine line consumed = (.ok consumed,
        { p with
          httpMajor := major
          httpMinor := minor
          statusCode := code
          reason := reasonOf (trim ((line.drop 5).drop (sp + 1)))
          state := .kHeaders }) := by
  unfold ParserCore.readStatusLine
  split
  · exact .inl ⟨_, rfl, rfl⟩
  · rename_i hstart
    dsimp only
    split
    · exact .inl ⟨_, rfl, rfl⟩
    · rename_i sp hsp
      split
      · exact .inl ⟨_, rfl, rfl⟩
      · rename_i dot hdot
        split
        · rename_i major minor hmajor hminor
          split
          · exact .inl ⟨_, rfl, rfl⟩
          · rename_i code hcode
            exact .inr ⟨sp, dot, major, minor, code, by simpa using hstart, hsp, hdot, hmajor,
              hminor, hcode, rfl⟩
        · exact .inl ⟨_, rfl, rfl⟩

theorem lf_notMem_of_parseInt {s : Bytes} {n : Int} (h : parseInt s = some n) : lf ∉ s :=
  fun hm => absurd (mem_of_parseInt h hm) (by decide)

/-- An accepted status line with a bare LF in it leaves that LF in the reason phrase. -/
theorem lf_mem_reason
    (h : p.readStatusLine line consumed = (.ok n, p')) (hlf : lf ∈ line) : lf ∈ p'.reason := by
  rcases readStatusLine_cases p line consumed with
    ⟨e, he, -⟩ | ⟨sp, dot, major, minor, code, hstart, hsp, hdot, hmajor, hminor, hcode, heq⟩
  · rw [h] at he
    exact absurd he (by simp)
  · obtain ⟨-, rfl⟩ := Prod.mk.inj (h.symm.trans heq)
    have hrest : lf ∈ line.drop 5 := by
      have hsplit : line.take 5 = ascii ['H', 'T', 'T', 'P', '/'] :=
        (List.prefix_iff_eq_take.mp (List.isPrefixOf_iff_prefix.mp hstart)).symm
      rw [← List.take_append_drop 5 line, List.mem_append] at hlf
      exact hlf.resolve_left (by rw [hsplit]; decide)
    have hversion : lf ∉ (line.drop 5).take sp := fun hm => by
      rcases mem_of_findByte hdot hm (by decide) with hm | hm
      · exact lf_notMem_of_parseInt hmajor hm
      · exact lf_notMem_of_parseInt hminor hm
    have hremainder : lf ∈ trim ((line.drop 5).drop (sp + 1)) :=
      mem_trimBy (by decide) ((mem_of_findByte hsp hrest (by decide)).resolve_left hversion)
    have hcode' := lf_notMem_of_parseInt hcode
    simp only [reasonOf]
    split
    · rename_i hnone
      rw [hnone] at hcode'
      exact absurd hremainder hcode'
    · rename_i e he
      rw [he] at hcode'
      exact mem_trimBy (by decide) ((mem_of_findByte he hremainder (by decide)).resolve_left hcode')

theorem state_of_readStatusLine (h : p.readStatusLine line consumed = (.ok n, p')) :
    p'.state = .kHeaders := by
  rcases readStatusLine_cases p line consumed with
    ⟨e, he, -⟩ | ⟨_, _, _, _, _, -, -, -, -, -, -, heq⟩
  · rw [h] at he
    exact absurd he (by simp)
  · rw [h] at heq
    obtain ⟨-, rfl⟩ := Prod.mk.inj heq
    rfl

/-- The reason phrase is part of the line. -/
theorem mem_of_mem_reasonOf {s : Bytes} {c : UInt8} (h : c ∈ reasonOf s) : c ∈ s := by
  unfold reasonOf at h
  split at h
  · exact absurd h (by simp)
  · exact List.mem_of_mem_drop (mem_of_mem_trimBy h)

end

/-! ## The state functions on longer data -/

namespace ParserCore

/-- The states that work a line at a time. -/
def readsLine (p : ParserCore) : Bool :=
  match p.state with
  | .kStatusLine | .kHeaders | .kChunkSize | .kChunkTrailer => true
  | _ => false

/-- The line that the state takes off the front of the data, if it works on lines. -/
def lineAt (p : ParserCore) (data : Bytes) : Option Bytes :=
  if p.readsLine then (takeLine data).map Prod.fst else none

/-- What a line state does with its line. -/
def readLine [Target] (p : ParserCore) (line : Bytes) (consumed : ℕ) : Step :=
  match p.state with
  | .kStatusLine => p.readStatusLine line consumed
  | .kHeaders => p.readHeader line consumed
  | .kChunkSize => p.readChunkSize line consumed
  | _ => p.readChunkTrailer line consumed

variable [Target]

theorem feedState_of_readsLine {p : ParserCore} (h : p.readsLine = true) (data : Bytes) :
    p.feedState data = match takeLine data with
      | none => (.ok 0, p)
      | some (line, consumed) => p.readLine line consumed := by
  cases hs : p.state <;> cases htake : takeLine data <;>
    simp_all [readsLine, feedState, readLine, feedStatusLine, feedHeaders, feedChunkSize,
      feedChunkTrailer]

/-- A line is consumed whole or answered with an error. -/
theorem readLine_consumed {p p' : ParserCore} {line : Bytes} {consumed n : ℕ}
    (h : p.readLine line consumed = (.ok n, p')) : n = consumed := by
  unfold readLine at h
  split at h
  · unfold readStatusLine at h
    grind [protocolError]
  · unfold readHeader at h
    grind [protocolError]
  · unfold readChunkSize at h
    grind [protocolError]
  · unfold readChunkTrailer at h
    grind

theorem feedState_le {p p' : ParserCore} {data : Bytes} {n : ℕ}
    (h : p.feedState data = (.ok n, p')) : n ≤ data.length := by
  cases hline : p.readsLine with
  | true =>
      rw [feedState_of_readsLine hline] at h
      split at h
      · obtain ⟨hn, -⟩ := Prod.mk.inj h
        obtain rfl := Except.ok.inj hn
        exact Nat.zero_le _
      · rename_i line consumed htake
        exact readLine_consumed h ▸ (takeLine_le htake).2
  | false =>
      cases hs : p.state <;> simp only [readsLine, hs, Bool.true_eq_false] at hline <;>
        simp only [feedState, hs] at h
      case kBody => grind [feedBody]
      case kChunkData => grind [feedChunkData]
      case kChunkDataEnd =>
        unfold feedChunkDataEnd at h
        grind [protocolError]
      all_goals grind

/-- The states that take whatever is there. -/
def greedy (p : ParserCore) : Bool := p.state = .kBody ∨ p.state = .kChunkData

/-- Outside the greedy states, what a state does with the data does not depend on what is
behind it. -/
theorem feedState_append {p : ParserCore} {data : Bytes} (more : Bytes) (hg : p.greedy = false)
    (hlines : ∀ line, p.lineAt (data ++ more) = some line → lf ∉ line)
    (hstep : ∀ p', p.feedState data ≠ (.ok 0, p')) :
    p.feedState (data ++ more) = p.feedState data := by
  cases hline : p.readsLine with
  | true =>
      have hdata := hstep p
      simp only [feedState_of_readsLine hline] at hdata ⊢
      cases htake : takeLine data with
      | none => exact absurd (by rw [htake]) hdata
      | some l =>
          rw [takeLine_append more htake fun line' n' hl =>
            hlines line' (by simp [lineAt, hline, hl])]
  | false =>
      cases hs : p.state <;> simp [readsLine, greedy, hs] at hline hg
      case kChunkDataEnd =>
        simp only [feedState, hs] at hstep ⊢
        match data with
        | [] => exact absurd rfl (hstep p)
        | [c] =>
            by_cases hc : c = lf
            · cases more <;> simp [feedChunkDataEnd, hc]
            · exact absurd (by simp [feedChunkDataEnd, hc]) (hstep p)
        | c :: d :: data => rfl
      all_goals simp only [feedState, hs]

/-- What `FeedBody` does with body bytes of an announced length. -/
def countBody (p : ParserCore) (d : Bytes) : ParserCore :=
  { p.emitBody d with
    bodyRemaining := p.bodyRemaining - d.length
    state := if p.bodyRemaining - d.length = 0 then .kComplete else p.state }

/-- What `FeedChunkData` does with chunk bytes. -/
def countChunk (p : ParserCore) (d : Bytes) : ParserCore :=
  { p.emitBody d with
    chunkRemaining := p.chunkRemaining - d.length
    state := if p.chunkRemaining - d.length = 0 then .kChunkDataEnd else p.state }

omit [Target] in
theorem feedBody_open {p : ParserCore} (h : p.bodyRemaining = 0 ∧ p.hasContentLength = false)
    (d : Bytes) : p.feedBody d = (.ok d.length, p.emitBody d) := by
  rw [feedBody, if_pos h]

omit [Target] in
theorem feedBody_counted {p : ParserCore} (h : ¬(p.bodyRemaining = 0 ∧ p.hasContentLength = false))
    (d : Bytes) :
    p.feedBody d = (.ok (min d.length p.bodyRemaining), p.countBody (d.take p.bodyRemaining)) := by
  rw [feedBody, if_neg h]
  simp [countBody, List.take_eq_take_min, Nat.min_comm]

omit [Target] in
theorem feedChunkData_counted (p : ParserCore) (d : Bytes) :
    p.feedChunkData d =
      (.ok (min d.length p.chunkRemaining), p.countChunk (d.take p.chunkRemaining)) := by
  rw [feedChunkData]
  simp [countChunk, List.take_eq_take_min, Nat.min_comm]

omit [Target] in
theorem countBody_append {p : ParserCore} {d : Bytes} (h : d.length < p.bodyRemaining)
    (d' : Bytes) : (p.countBody d).countBody d' = p.countBody (d ++ d') := by
  have hleft : p.bodyRemaining - d.length ≠ 0 := by omega
  cases hb : p.onBody <;>
    simp [countBody, emitBody, hb, hleft, Nat.sub_sub, List.append_assoc]

omit [Target] in
theorem countChunk_append {p : ParserCore} {d : Bytes} (h : d.length < p.chunkRemaining)
    (d' : Bytes) : (p.countChunk d).countChunk d' = p.countChunk (d ++ d') := by
  have hleft : p.chunkRemaining - d.length ≠ 0 := by omega
  cases hb : p.onBody <;>
    simp [countChunk, emitBody, hb, hleft, Nat.sub_sub, List.append_assoc]

/-- A state that waits leaves the parser as it was, once there is something to count down. -/
def Counting (p : ParserCore) : Prop :=
  (p.state = .kChunkData → p.chunkRemaining ≠ 0) ∧
    (p.state = .kBody → p.hasContentLength = true → p.bodyRemaining ≠ 0)

omit [Target] in
theorem endHeaders_counting (p : ParserCore) : p.endHeaders.Counting := by
  unfold endHeaders Counting
  grind

theorem readLine_counting {p p' : ParserCore} {line : Bytes} {consumed n : ℕ}
    (h : p.readLine line consumed = (.ok n, p')) (hp : p.Counting) : p'.Counting := by
  have hend := p.endHeaders_counting
  unfold Counting at hp hend ⊢
  unfold readLine at h
  split at h
  · unfold readStatusLine at h
    grind [protocolError]
  · unfold readHeader at h
    grind [protocolError]
  · unfold readChunkSize at h
    grind [protocolError]
  · unfold readChunkTrailer at h
    grind

theorem feedState_counting {p p' : ParserCore} {data : Bytes} {n : ℕ}
    (h : p.feedState data = (.ok n, p')) (hp : p.Counting) : p'.Counting := by
  cases hline : p.readsLine with
  | true =>
      rw [feedState_of_readsLine hline] at h
      split at h
      · exact (Prod.mk.inj h).2 ▸ hp
      · exact readLine_counting h hp
  | false =>
      unfold Counting at hp ⊢
      cases hs : p.state <;> simp only [readsLine, hs, Bool.true_eq_false] at hline <;>
        simp only [feedState, hs] at h
      case kBody =>
        by_cases hopen : p.bodyRemaining = 0 ∧ p.hasContentLength = false
        · rw [feedBody_open hopen] at h
          grind
        · rw [feedBody_counted hopen, countBody] at h
          grind
      case kChunkData =>
        rw [feedChunkData_counted, countChunk] at h
        grind
      case kChunkDataEnd =>
        unfold feedChunkDataEnd at h
        grind [protocolError]
      all_goals grind

/-- A state that asks for more has not touched the parser. -/
theorem feedState_zero {p p' : ParserCore} {data : Bytes} (h : p.feedState data = (.ok 0, p'))
    (hp : p.Counting) (hne : data ≠ []) : p' = p := by
  have hpos := List.length_pos_of_ne_nil hne
  cases hline : p.readsLine with
  | true =>
      rw [feedState_of_readsLine hline] at h
      split at h
      · exact (Prod.mk.inj h).2.symm
      · rename_i line consumed htake
        exact absurd (takeLine_le htake).1 (by rw [← readLine_consumed h]; omega)
  | false =>
      unfold Counting at hp
      cases hs : p.state <;> simp only [readsLine, hs, Bool.true_eq_false] at hline <;>
        simp only [feedState, hs] at h
      case kBody =>
        by_cases hopen : p.bodyRemaining = 0 ∧ p.hasContentLength = false
        · rw [feedBody_open hopen] at h
          grind
        · rw [feedBody_counted hopen] at h
          grind
      case kChunkData =>
        rw [feedChunkData_counted] at h
        grind
      case kChunkDataEnd =>
        unfold feedChunkDataEnd at h
        grind [protocolError]
      all_goals exact (Prod.mk.inj h).2.symm

end ParserCore

/-! ## The parser as a reader -/

/-- The state functions as a reader that collects the errors they report. -/
def parserReader [Target] : Reader (ParserCore × List NetworkError) UInt8 where
  halted s := s.1.halted
  take s data :=
    if data = [] then none
    else
      match s.1.feedState data with
      | (.error e, p) => some (({ p with state := .kError }, s.2 ++ [e]), data.tail)
      | (.ok 0, _) => none
      | (.ok (k + 1), p) => some ((p, s.2), data.drop (k + 1))
  shorter := by
    intro s data s' r h
    split at h
    · exact absurd h (by simp)
    · rename_i hne
      have hpos := List.length_pos_of_ne_nil hne
      split at h
      · obtain ⟨-, rfl⟩ := Prod.mk.inj (Option.some.inj h)
        rw [List.length_tail]
        omega
      · exact absurd h (by simp)
      · obtain ⟨-, rfl⟩ := Prod.mk.inj (Option.some.inj h)
        rw [List.length_drop]
        omega

/-- No line with a bare LF in it is taken off the front of the data. -/
def BareFree (s : ParserCore × List NetworkError) (data : Bytes) : Prop :=
  ∀ line, s.1.lineAt data = some line → lf ∉ line

section

variable [Target] {p p' : ParserCore} {es : List NetworkError} {data : Bytes}

theorem take_of_ok {n : ℕ} (hne : data ≠ []) (hn : n ≠ 0)
    (h : p.feedState data = (.ok n, p')) :
    parserReader.take (p, es) data = some ((p', es), data.drop n) := by
  obtain ⟨k, rfl⟩ := Nat.exists_eq_succ_of_ne_zero hn
  simp [parserReader, hne, h]

theorem take_of_error {e : NetworkError} (hne : data ≠ [])
    (h : p.feedState data = (.error e, p')) :
    parserReader.take (p, es) data =
      some (({ p' with state := .kError }, es ++ [e]), data.tail) := by
  simp [parserReader, hne, h]

theorem take_of_zero (h : p.feedState data = (.ok 0, p')) :
    parserReader.take (p, es) data = none := by
  simp [parserReader, h]

theorem take_nonempty {s s' : ParserCore × List NetworkError} {r : Bytes}
    (h : parserReader.take s data = some (s', r)) : data ≠ [] := by
  rintro rfl
  rw [Reader.take_nil] at h
  exact absurd h (by simp)

/-- Outside the greedy states the same take happens with more data behind it. -/
theorem take_append {s s' : ParserCore × List NetworkError} {r : Bytes} (more : Bytes)
    (hg : s.1.greedy = false) (hlines : BareFree s (data ++ more))
    (h : parserReader.take s data = some (s', r)) :
    parserReader.take s (data ++ more) = some (s', r ++ more) := by
  obtain ⟨p, es⟩ := s
  have hne := take_nonempty h
  have hne' : data ++ more ≠ [] := by simp [hne]
  have hsame : p.feedState (data ++ more) = p.feedState data :=
    p.feedState_append more hg hlines fun p' hz => by
      rw [take_of_zero hz] at h
      exact absurd h (by simp)
  rcases hstep : p.feedState data with ⟨e | n, p'⟩
  · rw [take_of_error hne hstep] at h
    rw [hstep] at hsame
    obtain ⟨rfl, rfl⟩ := Prod.mk.inj (Option.some.inj h)
    rw [take_of_error hne' hsame, List.tail_append_of_ne_nil hne]
  · have hle := ParserCore.feedState_le hstep
    rcases Nat.eq_zero_or_pos n with rfl | hpos
    · rw [take_of_zero hstep] at h
      exact absurd h (by simp)
    · rw [take_of_ok hne (by omega) hstep] at h
      rw [hstep] at hsame
      obtain ⟨rfl, rfl⟩ := Prod.mk.inj (Option.some.inj h)
      rw [take_of_ok hne' (by omega) hsame, List.drop_append_of_le_length hle]

/-- A state that takes at most `limit` bytes takes them in one piece or in two. -/
theorem take_limited {s s' : ParserCore × List NetworkError} {r : Bytes} (more : Bytes)
    {limit : ℕ} {after : Bytes → ParserCore}
    (hstep : ∀ d ∈ [data, data ++ more],
      s.1.feedState d = (.ok (min d.length limit), after (d.take limit)))
    (hrest : data.length < limit → (after data).greedy = true ∧
      (after data).feedState more = (.ok (min more.length (limit - data.length)),
        after (data ++ more.take (limit - data.length))))
    (h : parserReader.take s data = some (s', r)) :
    parserReader.take s (data ++ more) = some (s', r ++ more) ∨
      (r = [] ∧ (more ≠ [] → s'.1.halted = false ∧ BareFree s' more ∧
        ∃ q, parserReader.take s' more = some q ∧ parserReader.take s (data ++ more) = some q)) := by
  obtain ⟨p, es⟩ := s
  have hne := take_nonempty h
  have hpos := List.length_pos_of_ne_nil hne
  have hlimit : limit ≠ 0 := by
    rintro rfl
    rw [take_of_zero (by simpa using hstep data (by simp))] at h
    exact absurd h (by simp)
  rw [take_of_ok hne (by omega) (hstep data (by simp))] at h
  obtain ⟨rfl, rfl⟩ := Prod.mk.inj (Option.some.inj h)
  have hlong : parserReader.take (p, es) (data ++ more) = _ := take_of_ok (by simp [hne])
    (by rw [List.length_append]; omega) (hstep (data ++ more) (by simp))
  rcases Nat.lt_or_ge data.length limit with hlt | hge
  · right
    have htake : data.take limit = data := List.take_of_length_le (by omega)
    simp only [htake]
    refine ⟨List.drop_eq_nil_of_le (by omega), fun hmore => ?_⟩
    obtain ⟨hg, hnext⟩ := hrest hlt
    have hcount := List.length_pos_of_ne_nil hmore
    have hstate : (after data).state = .kBody ∨ (after data).state = .kChunkData := by
      simpa [ParserCore.greedy] using hg
    refine ⟨?_, ?_, _, take_of_ok hmore (by omega) hnext, ?_⟩
    · rcases hstate with hs | hs <;> simp [ParserCore.halted, hs]
    · rcases hstate with hs | hs <;> simp [BareFree, ParserCore.lineAt, ParserCore.readsLine, hs]
    · have hnil : data.drop (min (data ++ more).length limit) = [] :=
        List.drop_eq_nil_of_le (by rw [List.length_append]; omega)
      have hleft : min (data ++ more).length limit - data.length =
          min more.length (limit - data.length) := by
        rw [List.length_append]
        omega
      rw [hlong, List.take_append, htake, List.drop_append, hnil, hleft, List.nil_append]
  · left
    rw [hlong, List.take_append_of_le_length hge, List.length_append,
      Nat.min_eq_right hge, Nat.min_eq_right (by omega), List.drop_append_of_le_length hge]

/-- What the parser takes does not depend on what is behind it, unless it is a line that ends
in a bare LF. -/
theorem parserReader_resumes : parserReader.Resumes BareFree := by
  intro s s' data r more hhalt hlines h
  cases hg : s.1.greedy with
  | false => exact .inl (take_append more hg hlines h)
  | true =>
      have hstate : s.1.state = .kBody ∨ s.1.state = .kChunkData := by
        simpa [ParserCore.greedy] using hg
      rcases hstate with hs | hs
      · by_cases hopen : s.1.bodyRemaining = 0 ∧ s.1.hasContentLength = false
        · have hlen := @List.length_append _ data more
          have hstep : ∀ d ∈ [data, data ++ more], s.1.feedState d =
              (.ok (min d.length (data ++ more).length),
                s.1.emitBody (d.take (data ++ more).length)) := fun d hd => by
            have hle : d.length ≤ (data ++ more).length := by
              rcases List.mem_pair.mp hd with rfl | rfl <;> omega
            simp only [ParserCore.feedState, hs, ParserCore.feedBody_open hopen,
              List.take_of_length_le hle, Nat.min_eq_left hle]
          refine take_limited more hstep (fun _ => ?_) h
          have hnext : (s.1.emitBody data).state = .kBody := by simp [hs]
          refine ⟨by simp [ParserCore.greedy, hs], ?_⟩
          rw [ParserCore.feedState, hnext]
          simp only
          rw [ParserCore.feedBody_open (by simpa using hopen), ParserCore.emitBody_append,
            List.take_of_length_le (by omega), Nat.min_eq_left (by omega)]
        · have hstep : ∀ d, s.1.feedState d = (.ok (min d.length s.1.bodyRemaining),
              s.1.countBody (d.take s.1.bodyRemaining)) := fun d => by
            simp only [ParserCore.feedState, hs, ParserCore.feedBody_counted hopen]
          refine take_limited more (fun d _ => hstep d) (fun hlt => ?_) h
          have hleft : s.1.bodyRemaining - data.length ≠ 0 := by omega
          have hnext : (s.1.countBody data).state = .kBody := by
            simp [ParserCore.countBody, hleft, hs]
          refine ⟨by simp [ParserCore.greedy, hnext], ?_⟩
          rw [ParserCore.feedState, hnext]
          simp only
          rw [ParserCore.feedBody_counted (by simp [ParserCore.countBody, hleft]),
            ParserCore.countBody_append hlt]
          rfl
      · have hstep : ∀ d, s.1.feedState d = (.ok (min d.length s.1.chunkRemaining),
            s.1.countChunk (d.take s.1.chunkRemaining)) := fun d => by
          simp only [ParserCore.feedState, hs, ParserCore.feedChunkData_counted]
        refine take_limited more (fun d _ => hstep d) (fun hlt => ?_) h
        have hleft : s.1.chunkRemaining - data.length ≠ 0 := by omega
        have hnext : (s.1.countChunk data).state = .kChunkData := by
          simp [ParserCore.countChunk, hleft, hs]
        refine ⟨by simp [ParserCore.greedy, hnext], ?_⟩
        rw [ParserCore.feedState, hnext]
        simp only
        rw [ParserCore.feedChunkData_counted, ParserCore.countChunk_append hlt]
        rfl

/-! ## `Feed` is the reader -/

/-- The errors among the results of calls of `Feed`. -/
def reported (results : List (Result ℕ)) : List NetworkError :=
  results.filterMap fun r => match r with
    | .ok _ => none
    | .error e => some e

omit [Target] in
theorem reported_cons (r : Result ℕ) (rs : List (Result ℕ)) :
    reported (r :: rs) = reported [r] ++ reported rs := by
  rw [reported, ← List.singleton_append, List.filterMap_append]
  rfl

/-- The loop and the reader stop at the same place. -/
theorem feedLoop_drainFor (n : ℕ) (hp : p.Counting) :
    (∃ rest c, p.feedLoop n data = (.ok rest, c) ∧ c.Counting ∧
      parserReader.drainFor n (p, es) data = ((c, es), rest)) ∨
    (∃ e c r, p.feedLoop n data = (.error e, c) ∧ c.state = .kError ∧
      parserReader.drainFor n (p, es) data = ((c, es ++ [e]), r)) := by
  induction n generalizing p data with
  | zero => exact .inl ⟨data, p, rfl, hp, rfl⟩
  | succ n ih =>
      cases hh : p.halted with
      | true =>
          exact .inl ⟨data, p, by simp [ParserCore.feedLoop, hh], hp,
            Reader.drainFor_of_halted _ hh⟩
      | false =>
          rcases eq_or_ne data [] with rfl | hne
          · exact .inl ⟨[], p, by simp [ParserCore.feedLoop], hp,
              Reader.drainFor_of_wait _ (Reader.take_nil _)⟩
          · rcases hstep : p.feedState data with ⟨e | k, p'⟩
            · refine .inr ⟨e, { p' with state := .kError }, data.tail, ?_, rfl, ?_⟩
              · simp [ParserCore.feedLoop, hne, hh, hstep]
              · rw [Reader.drainFor_of_take n hh (take_of_error hne hstep)]
                exact Reader.drainFor_of_halted n rfl
            · cases k with
              | zero =>
                  obtain rfl := ParserCore.feedState_zero hstep hp hne
                  refine .inl ⟨data, p', ?_, hp, Reader.drainFor_of_wait _ (take_of_zero hstep)⟩
                  simp [ParserCore.feedLoop, hne, hh, hstep]
              | succ k =>
                  have hloop : p.feedLoop (n + 1) data = p'.feedLoop n (data.drop (k + 1)) := by
                    simp [ParserCore.feedLoop, hne, hh, hstep]
                  rw [hloop,
                    Reader.drainFor_of_take n hh (take_of_ok hne (Nat.succ_ne_zero k) hstep)]
                  exact ih (ParserCore.feedState_counting hstep hp)

/-- What holds of a parser between two calls of `Feed`. -/
structure Settled (p : HttpParser) : Prop where
  counting : p.Counting
  empty : p.halted = true → p.buffer = []

/-- One `Feed` is one piece fed to the reader. -/
theorem feed_reader {p : HttpParser} (hp : Settled p) (piece : Bytes) :
    parserReader.feed ((p.toParserCore, es), p.buffer) piece =
        (((p.feed piece).2.toParserCore, es ++ reported [(p.feed piece).1]),
          (p.feed piece).2.buffer) ∧
      Settled (p.feed piece).2 := by
  cases hh : p.halted with
  | true =>
      have hfeed : p.feed piece = (.ok 0, p) := by simp [HttpParser.feed, hh]
      rw [hfeed]
      exact ⟨by simp [Reader.feed, parserReader, hh, reported, hp.empty hh], hp⟩
  | false =>
      have hread : parserReader.feed ((p.toParserCore, es), p.buffer) piece =
          parserReader.settle (parserReader.drain (p.toParserCore, es) (p.buffer ++ piece)) := by
        simp [Reader.feed, parserReader, hh]
      rw [hread, Reader.drain]
      rcases feedLoop_drainFor (p.buffer ++ piece).length
        hp.counting with ⟨rest, c, hloop, hc, hdrain⟩ | ⟨e, c, r, hloop, hc, hdrain⟩
      · rw [hdrain]
        simp only [HttpParser.feed, hh, hloop]
        cases hch : c.halted with
        | true => exact ⟨by simp [Reader.settle, parserReader, hch, reported], ⟨hc, fun _ => rfl⟩⟩
        | false => exact ⟨by simp [Reader.settle, parserReader, hch, reported],
            ⟨hc, fun h => absurd (hch.symm.trans h) (by simp)⟩⟩
      · rw [hdrain]
        simp only [HttpParser.feed, hh, hloop]
        have hch : c.halted = true := by simp [ParserCore.halted, hc]
        exact ⟨by simp [Reader.settle, parserReader, hch, reported],
          ⟨⟨fun h => absurd (hc.symm.trans h) (by simp), fun h => absurd (hc.symm.trans h) (by simp)⟩,
            fun _ => rfl⟩⟩

/-- Several calls of `Feed` are several pieces fed to the reader. -/
theorem feedAll_reader {p : HttpParser} (hp : Settled p) (pieces : List Bytes) :
    parserReader.feedAll ((p.toParserCore, es), p.buffer) pieces =
      (((p.feedAll pieces).2.toParserCore, es ++ reported (p.feedAll pieces).1),
        (p.feedAll pieces).2.buffer) := by
  induction pieces generalizing p es with
  | nil => simp [Reader.feedAll, HttpParser.feedAll, reported]
  | cons piece pieces ih =>
      obtain ⟨hfeed, hsettled⟩ := feed_reader hp piece
      have hall : parserReader.feedAll ((p.toParserCore, es), p.buffer) (piece :: pieces) =
          parserReader.feedAll (parserReader.feed ((p.toParserCore, es), p.buffer) piece) pieces :=
        rfl
      rw [hall, hfeed, ih hsettled]
      rw [List.append_assoc, ← reported_cons]
      rfl

theorem feedAll_settled {p : HttpParser} (hp : Settled p) (pieces : List Bytes) :
    Settled (p.feedAll pieces).2 := by
  induction pieces generalizing p with
  | nil => exact hp
  | cons piece pieces ih => exact ih (@feed_reader _ [] p hp piece).2

/-- A fresh parser, with or without a body callback. -/
def fresh (onBody : Bool) : HttpParser := ⟨{ onBody := onBody }, []⟩

omit [Target] in
theorem fresh_settled (onBody : Bool) : Settled (fresh onBody) :=
  ⟨⟨fun h => absurd h (by simp [fresh]), fun h => absurd h (by simp [fresh])⟩, fun _ => rfl⟩

/-- The lines that one `Feed` of the whole stream takes. -/
def linesRead (onBody : Bool) (stream : Bytes) : List Bytes :=
  (parserReader.visits ((fresh onBody).toParserCore, []) stream).filterMap fun v =>
    v.1.1.lineAt v.2

/-- What a caller can see of a parser at the end of a stream. -/
structure SameOutcome (p q : HttpParser) : Prop where
  state : p.state = q.state
  statusCode : p.statusCode = q.statusCode
  reason : p.reason = q.reason
  headers : p.headers = q.headers
  body : p.body = q.body
  delivered : p.delivered = q.delivered

/-- Every cut of the stream into pieces ends as one `Feed` of it does, with an error if and
only if that reports one. -/
def CutIndependent (onBody : Bool) (stream : Bytes) : Prop :=
  ∀ pieces : List Bytes, (∀ piece ∈ pieces, piece ≠ []) → pieces.flatten = stream →
    SameOutcome ((fresh onBody).feedAll pieces).2 ((fresh onBody).feed stream).2 ∧
      (reported ((fresh onBody).feedAll pieces).1 = [] ↔
        reported [((fresh onBody).feed stream).1] = [])

/-- Where no line that one `Feed` takes holds a bare LF, every cut ends in the same
parser, members that no caller sees included, and reports the same errors. -/
theorem feedAll_eq_feed {onBody : Bool} {pieces : List Bytes}
    (hlines : ∀ line ∈ linesRead onBody pieces.flatten, lf ∉ line) :
    ((fresh onBody).feedAll pieces).2 = ((fresh onBody).feed pieces.flatten).2 ∧
      reported ((fresh onBody).feedAll pieces).1 =
        reported [((fresh onBody).feed pieces.flatten).1] := by
  have hclean : parserReader.Clean BareFree ((fresh onBody).toParserCore, []) pieces.flatten :=
    fun v hv line hline => hlines line (List.mem_filterMap.mpr ⟨v, hv, hline⟩)
  have hsame := Reader.feedAll_eq_feed parserReader_resumes _ pieces hclean
  have hall : parserReader.feedAll (((fresh onBody).toParserCore, []), []) pieces = _ :=
    feedAll_reader (fresh_settled onBody) pieces
  have hone : parserReader.feed (((fresh onBody).toParserCore, []), []) pieces.flatten = _ :=
    (feed_reader (fresh_settled onBody) pieces.flatten).1
  rw [hall, hone] at hsame
  obtain ⟨hfst, hbuffer⟩ := Prod.mk.inj hsame
  obtain ⟨hcore, herrors⟩ := Prod.mk.inj hfst
  refine ⟨?_, by simpa using herrors⟩
  cases hp : ((fresh onBody).feedAll pieces).2
  cases hq : ((fresh onBody).feed pieces.flatten).2
  simp_all

/-! ## Status lines with a bare LF -/

/-- Behind the status line the reason phrase is `r`. -/
def Later (r : Bytes) (s : ParserCore × List NetworkError) : Prop :=
  s.1.state ≠ .kStatusLine ∧ s.1.reason = r

/-- No other state touches the reason phrase or returns to the status line. -/
theorem feedState_later (h : p.state ≠ .kStatusLine) (data : Bytes) :
    (p.feedState data).2.state ≠ .kStatusLine ∧ (p.feedState data).2.reason = p.reason := by
  cases hs : p.state <;> simp only [ParserCore.feedState, hs]
  case kStatusLine => exact absurd hs h
  case kHeaders =>
    unfold ParserCore.feedHeaders ParserCore.readHeader ParserCore.endHeaders
    grind
  case kBody =>
    by_cases hopen : p.bodyRemaining = 0 ∧ p.hasContentLength = false
    · rw [ParserCore.feedBody_open hopen]
      grind
    · rw [ParserCore.feedBody_counted hopen, ParserCore.countBody]
      grind
  case kChunkSize =>
    unfold ParserCore.feedChunkSize ParserCore.readChunkSize
    grind
  case kChunkData =>
    rw [ParserCore.feedChunkData_counted, ParserCore.countChunk]
    grind
  case kChunkDataEnd =>
    unfold ParserCore.feedChunkDataEnd
    grind
  case kChunkTrailer =>
    unfold ParserCore.feedChunkTrailer ParserCore.readChunkTrailer
    grind
  all_goals exact ⟨by simp, trivial⟩

theorem take_later {r : Bytes} (s : ParserCore × List NetworkError) (data : Bytes)
    (s' : ParserCore × List NetworkError) (rest : Bytes)
    (h : parserReader.take s data = some (s', rest)) (hs : Later r s) : Later r s' := by
  obtain ⟨p, es⟩ := s
  have hlater := feedState_later hs.1 data
  have hne := take_nonempty h
  rcases hstep : p.feedState data with ⟨e | n, p'⟩
  · rw [take_of_error hne hstep] at h
    obtain ⟨rfl, -⟩ := Prod.mk.inj (Option.some.inj h)
    exact ⟨by simp, (by simpa [hstep] using hlater.2 : p'.reason = p.reason).trans hs.2⟩
  · rcases Nat.eq_zero_or_pos n with rfl | hpos
    · rw [take_of_zero hstep] at h
      exact absurd h (by simp)
    · rw [take_of_ok hne (by omega) hstep] at h
      obtain ⟨rfl, -⟩ := Prod.mk.inj (Option.some.inj h)
      rw [hstep] at hlater
      exact ⟨hlater.1, hlater.2.trans hs.2⟩

/-- A piece that ends in its first LF ends the status line. -/
theorem take_firstLine {s : Bytes} (onBody : Bool) (h : lf ∉ s) :
    ∃ r s' rest, lf ∉ r ∧ Later r s' ∧
      parserReader.take ((fresh onBody).toParserCore, []) (s ++ [lf]) = some (s', rest) := by
  obtain ⟨line, n, htake, hline⟩ := takeLine_firstLine h
  have hne : s ++ [lf] ≠ [] := by simp
  have hstep : (fresh onBody).feedState (s ++ [lf]) =
      (fresh onBody).readStatusLine line n := by
    simp [ParserCore.feedState, fresh, ParserCore.feedStatusLine, htake]
  rcases readStatusLine_cases (fresh onBody).toParserCore line n with
    ⟨e, he, hreason⟩ | ⟨sp, dot, major, minor, code, -, -, -, -, -, -, heq⟩
  · refine ⟨[], _, _, by simp, ?_, take_of_error hne (hstep.trans (Prod.ext he rfl))⟩
    exact ⟨by simp, hreason⟩
  · refine ⟨_, _, _, fun hm => hline ?_, ⟨by simp, rfl⟩,
      take_of_ok hne (takeLine_le htake).1.ne' (hstep.trans heq)⟩
    exact List.mem_of_mem_drop (List.mem_of_mem_drop
      (mem_of_mem_trimBy (mem_of_mem_reasonOf hm)))

/-- A stream whose accepted status line holds a bare LF is told apart by a cut behind that LF. -/
theorem lf_notMem_of_cutIndependent {onBody : Bool} {stream line : Bytes} {n : ℕ}
    (h : CutIndependent onBody stream) (hline : takeLine stream = some (line, n))
    (hok : (fresh onBody).readStatusLine line n = (.ok n, p)) : lf ∉ line := by
  intro hlf
  have hmem : lf ∈ stream := mem_of_takeLine hline hlf
  obtain ⟨s, rest, rfl, hs⟩ := List.eq_append_cons_of_mem hmem
  -- The whole stream in one piece.
  have hwhole : ((fresh onBody).feed (s ++ lf :: rest)).2.reason = p.reason := by
    have hstep : (fresh onBody).feedState (s ++ lf :: rest) = (.ok n, p) := by
      simpa [ParserCore.feedState, fresh, ParserCore.feedStatusLine, hline] using hok
    have hlater := Reader.feed_of_take (I := Later p.reason) take_later
      (s := ((fresh onBody).toParserCore, [])) rfl
      (take_of_ok (by simp) (takeLine_le hline).1.ne' hstep)
      ⟨by simp [state_of_readStatusLine hok], rfl⟩
    have hfeed : parserReader.feed (((fresh onBody).toParserCore, []), []) (s ++ lf :: rest) = _ :=
      (feed_reader (fresh_settled onBody) (s ++ lf :: rest)).1
    rw [hfeed] at hlater
    exact hlater.2
  -- The same stream cut behind its first LF.
  let pieces : List Bytes := (s ++ [lf]) :: if rest = [] then [] else [rest]
  have hpieces : pieces.flatten = s ++ lf :: rest := by
    by_cases hr : rest = [] <;> simp [pieces, hr]
  have hne : ∀ piece ∈ pieces, piece ≠ [] := by
    intro piece hp
    by_cases hr : rest = [] <;> simp [pieces, hr] at hp
    · simp [hp]
    · rcases hp with rfl | rfl
      · simp
      · exact hr
  obtain ⟨r, s', left, hr, hlater, htake⟩ := take_firstLine onBody hs
  have hfirst := Reader.feed_of_take (I := Later r) take_later rfl htake hlater
  have hcut : Later r (parserReader.feedAll (((fresh onBody).toParserCore, []), []) pieces).1 :=
    Reader.feedAll_invariant (I := Later r) take_later pieces.tail hfirst
  have hall : parserReader.feedAll (((fresh onBody).toParserCore, []), []) pieces = _ :=
    feedAll_reader (fresh_settled onBody) pieces
  have hreason : ((fresh onBody).feedAll pieces).2.reason = r := by
    rw [hall] at hcut
    exact hcut.2
  have hsame := (h pieces hne hpieces).1.reason
  rw [hreason, hwhole] at hsame
  exact hr (hsame ▸ lf_mem_reason hok hlf)

/-- Where no line that one `Feed` takes holds a bare LF, the parser does not depend on how the
stream is cut; where it does not, no accepted status line holds one. -/
theorem feed_cutIndependent (onBody : Bool) (stream : Bytes) :
    ((∀ line ∈ linesRead onBody stream, lf ∉ line) → CutIndependent onBody stream) ∧
      (CutIndependent onBody stream → ∀ line n p, takeLine stream = some (line, n) →
        (fresh onBody).readStatusLine line n = (.ok n, p) → lf ∉ line) := by
  constructor
  · rintro hlines pieces - rfl
    obtain ⟨hparser, hreported⟩ := feedAll_eq_feed hlines
    rw [hparser, hreported]
    exact ⟨⟨rfl, rfl, rfl, rfl, rfl, rfl⟩, Iff.rfl⟩
  · exact fun h line n p hline hok => lf_notMem_of_cutIndependent h hline hok

end

/-- A response with CRLF endings and a bare LF in its body, which is no line. -/
def lfInBody : Bytes :=
  ascii ['H', 'T', 'T', 'P', '/', '1', '.', '1', ' ', '2', '0', '0', ' ', 'O', 'K', '\r', '\n',
    'A', ':', 'b', '\r', '\n', '\r', '\n', 'x', '\n', 'y', '\r', '\n']

theorem lfInBody_cutIndependent : @CutIndependent esp32 false lfInBody :=
  letI := esp32
  (feed_cutIndependent false lfInBody).1 (by decide)

/-- "HTTP/1.1 200 OK", LF, "A: b", CRLF, CRLF. -/
def mixedEndings : Bytes :=
  ascii ['H', 'T', 'T', 'P', '/', '1', '.', '1', ' ', '2', '0', '0', ' ', 'O', 'K', '\n',
    'A', ':', ' ', 'b', '\r', '\n', '\r', '\n']

/-- Cut behind its LF, the response has the reason phrase "OK"; in one piece it has the header
line in it. -/
theorem mixedEndings_depends_on_cut : ¬@CutIndependent esp32 false mixedEndings := by
  intro h
  have hsame := (h [mixedEndings.take 16, mixedEndings.drop 16] (by decide) (by decide)).1.reason
  exact absurd hsame (by decide)

end EspModemLink.Http
