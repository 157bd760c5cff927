import EspModemLink.AtParser.JoinedFields
import EspModemLink.Ml307.Hal

/-!
# What a payload becomes in commands

`SendHexPayload` cuts a payload into chunks and sends each in a command of its own. Read back in
order, the commands are the payload, or the front of it that the module took.
-/

namespace EspModemLink.Ml307

open Bytes AtParser AtChannel

namespace World

variable {σ : Type*} (w : World σ)

/-- The world with a record of the calls of its channel. -/
def recorded : World (σ × List Called) where
  toIAtChannel := w.toIAtChannel.recorded
  slotClock s := ((w.slotClock s.1).1, (w.slotClock s.1).2, s.2)
  now s := ((w.now s.1).1, (w.now s.1).2, s.2)
  sleepFor ms s := (w.sleepFor ms s.1, s.2)
  awaitOpen id timeout s := ((w.awaitOpen id timeout s.1).1, (w.awaitOpen id timeout s.1).2, s.2)

/-- A command is recorded once, with the result that decides what the caller gets. -/
theorem recorded_command (cmd : Bytes) (timeout : ℕ) (t : σ × List Called) :
    ∃ rate result, (w.recorded.command cmd timeout t).2.2 =
        t.2 ++ [.command rate cmd timeout result] ∧
      (w.recorded.command cmd timeout t).1 = result.mapError AtError.toNetworkError := by
  refine ⟨w.getBaudRate t.1, (w.sendCommand cmd timeout t.1).1, ?_, ?_⟩
  · unfold command
    split
    · rename_i hsend
      exact congrArg (fun o => o.2.2) hsend.symm
    · rename_i hsend
      exact congrArg (fun o => o.2.2) hsend.symm
  · unfold command
    split
    · rename_i hsend
      rw [show (w.sendCommand cmd timeout t.1).1 = .ok () from congrArg Prod.fst hsend]
      rfl
    · rename_i e _ hsend
      rw [show (w.sendCommand cmd timeout t.1).1 = .error e from congrArg Prod.fst hsend]
      rfl

end World

/-! ## A command and what it says -/

/-- The length that an `AT+MIPSEND` declares. -/
def declaredLength (cmd : Bytes) : Option Int := (commandFields cmd)[1]?.bind parseInt

/-- The bytes that an `AT+MIPSEND` carries. -/
def carried (cmd : Bytes) : Bytes := parseHex ((commandFields cmd)[2]?.getD [])

theorem hexDigit_comma_quote {n : ℕ} (h : n < 16) : hexDigit n ≠ 44 ∧ hexDigit n ≠ 34 := by
  have hall : ∀ n < 16, hexDigit n ≠ 44 ∧ hexDigit n ≠ 34 := by decide
  exact hall n h

theorem encodeHex_comma_quote (data : Bytes) : ∀ c ∈ encodeHex data, c ≠ 44 ∧ c ≠ 34 := by
  intro c hc
  obtain ⟨byte, -, hc⟩ := List.mem_flatMap.mp hc
  have hlt := byte.toNat_lt
  obtain rfl | hc := List.mem_cons.mp hc
  · exact hexDigit_comma_quote (by omega)
  · obtain rfl := List.mem_singleton.mp hc
    exact hexDigit_comma_quote (Nat.mod_lt _ (by decide))

theorem decimalInt_comma_quote (n : Int) : ∀ c ∈ decimalInt n, c ≠ 44 ∧ c ≠ 34 := by
  intro c hc
  unfold decimalInt at hc
  split at hc
  · obtain rfl | hc := List.mem_cons.mp hc
    · decide
    · exact decimal_comma_quote _ c hc
  · exact decimal_comma_quote _ c hc

theorem commandFields_mipsendLine (id : Int) (chunk : Bytes) :
    commandFields (mipsendLine id chunk) =
      [decimalInt id, decimal chunk.length, encodeHex chunk] := by
  have hcut : mipsendLine id chunk =
      ascii ['A', 'T', '+', 'M', 'I', 'P', 'S', 'E', 'N', 'D'] ++
        61 :: (decimalInt id ++ 44 :: (decimal chunk.length ++ 44 :: encodeHex chunk)) := by
    simp [mipsendLine, ascii]
  rw [hcut, commandFields_append (by decide), splitCsv_append (decimalInt_comma_quote id),
    splitCsv_append (decimal_comma_quote _), splitCsv_self (encodeHex_comma_quote chunk)]

theorem carried_mipsendLine (id : Int) (chunk : Bytes) : carried (mipsendLine id chunk) = chunk := by
  rw [carried, commandFields_mipsendLine]
  exact parseHex_encodeHex chunk

theorem declaredLength_mipsendLine (id : Int) {chunk : Bytes} (h : chunk.length < 2 ^ 31) :
    declaredLength (mipsendLine id chunk) = some (chunk.length : Int) := by
  rw [declaredLength, commandFields_mipsendLine]
  exact parseInt_decimal h

/-! ## The chunks of a payload -/

/-- The texts of the commands of a record. -/
def textsOf (calls : List Called) : List Bytes := (commandsOf calls).map Prod.snd

/-- The module took every command of a record. -/
def Accepted (calls : List Called) : Prop :=
  ∀ rate cmd timeout result, .command rate cmd timeout result ∈ calls → result = .ok ()

/-- What the loop makes of a payload: its chunks are sent in order, up to one that is refused. -/
structure Chunked (id : Int) (left : Bytes) (calls : List Called) (result : Result Unit)
    (chunks : List Bytes) : Prop where
  texts : textsOf calls = chunks.map (mipsendLine id)
  sizes : ∀ chunk ∈ chunks, 1 ≤ chunk.length ∧ chunk.length ≤ kMaxChunk
  front : chunks.flatten <+: left
  accepted : Accepted calls → result = .ok () ∧ chunks.flatten = left
  refused : ∀ rate cmd timeout e, .command rate cmd timeout (.error e) ∈ calls →
    result = .error e.toNetworkError

/-- A chunk that is taken goes in front of the chunks of the rest. -/
theorem Chunked.behind {id : Int} {left : Bytes} {calls : List Called} {result : Result Unit}
    {chunks : List Bytes} (hleft : left ≠ [])
    (h : Chunked id (left.drop kMaxChunk) calls result chunks) (rate : Int) (timeout : ℕ) :
    Chunked id left
      ([.command rate (mipsendLine id (left.take kMaxChunk)) timeout (.ok ())] ++ calls) result
      (left.take kMaxChunk :: chunks) where
  texts := by
    rw [textsOf, commandsOf_append, List.map_append, List.map_cons, ← h.texts]
    rfl
  sizes := by
    refine List.forall_mem_cons.mpr ⟨?_, h.sizes⟩
    have hpositive := List.length_pos_iff.mpr hleft
    rw [List.length_take, kMaxChunk]
    omega
  front := by
    rw [List.flatten_cons]
    conv_rhs => rw [← List.take_append_drop kMaxChunk left]
    exact (List.prefix_append_right_inj _).mpr h.front
  accepted haccepted := by
    obtain ⟨hresult, hflatten⟩ := h.accepted fun rate cmd timeout r hr =>
      haccepted rate cmd timeout r (List.mem_append_right _ hr)
    exact ⟨hresult, by rw [List.flatten_cons, hflatten, List.take_append_drop]⟩
  refused rate' cmd timeout' e he := by
    obtain he | he := List.mem_append.mp he
    · cases List.mem_singleton.mp he
    · exact h.refused rate' cmd timeout' e he

namespace World

variable {σ : Type*} (w : World σ)

theorem sendChunks_chunked (id : Int) {fuel : ℕ} {left : Bytes} (hfuel : left.length ≤ fuel)
    (t : σ × List Called) :
    ∃ calls chunks, (w.recorded.sendChunks id fuel left t).2.2 = t.2 ++ calls ∧
      Chunked id left calls (w.recorded.sendChunks id fuel left t).1 chunks := by
  have hnone : ∀ t : σ × List Called, ∃ calls chunks, t.2 = t.2 ++ calls ∧
      Chunked id [] calls (.ok ()) chunks := fun t =>
    ⟨[], [], (List.append_nil _).symm, rfl, fun _ h => absurd h List.not_mem_nil,
      List.nil_prefix, fun _ => ⟨rfl, rfl⟩, fun _ _ _ _ h => absurd h List.not_mem_nil⟩
  induction fuel generalizing left t with
  | zero =>
      obtain rfl := List.eq_nil_of_length_eq_zero (Nat.le_zero.mp hfuel)
      exact hnone t
  | succ fuel ih =>
      rw [sendChunks]
      split
      · rename_i hleft
        subst hleft
        exact hnone t
      · rename_i hleft
        obtain ⟨rate, result, hrecord, hresult⟩ :=
          w.recorded_command (mipsendLine id (left.take kMaxChunk)) kLongTimeout t
        cases hsend : w.recorded.command (mipsendLine id (left.take kMaxChunk)) kLongTimeout t with
        | mk r t' =>
            rw [hsend] at hrecord hresult
            cases result with
            | error e =>
                obtain rfl : r = .error e.toNetworkError := hresult
                refine ⟨_, [left.take kMaxChunk], hrecord, rfl, ?_, ?_, ?_, ?_⟩
                · rw [List.forall_mem_singleton, List.length_take, kMaxChunk]
                  have hpositive := List.length_pos_iff.mpr hleft
                  omega
                · rw [List.flatten_singleton]
                  exact List.take_prefix _ _
                · intro haccepted
                  cases haccepted _ _ _ _ (List.mem_singleton_self _)
                · intro rate' cmd timeout e' he
                  cases List.mem_singleton.mp he
                  rfl
            | ok =>
                obtain rfl : r = .ok () := hresult
                have hrest : (left.drop kMaxChunk).length ≤ fuel := by
                  have hpositive := List.length_pos_iff.mpr hleft
                  rw [List.length_drop, kMaxChunk]
                  omega
                obtain ⟨calls, chunks, hcalls, hchunked⟩ := ih hrest t'
                refine ⟨_, _, ?_, hchunked.behind hleft rate kLongTimeout⟩
                rw [← List.append_assoc, ← hrecord]
                exact hcalls

/-- A pass takes a byte at least, so the length of the payload is fuel enough. -/
theorem sendChunks_ends (id : Int) {fuel more : ℕ} {left : Bytes} (hfuel : left.length ≤ fuel)
    (hmore : left.length ≤ more) (s : σ) :
    w.sendChunks id more left s = w.sendChunks id fuel left s := by
  induction fuel generalizing more left s with
  | zero =>
      obtain rfl := List.eq_nil_of_length_eq_zero (Nat.le_zero.mp hfuel)
      cases more with
      | zero => rfl
      | succ more => rfl
  | succ fuel ih =>
      cases more with
      | zero =>
          obtain rfl := List.eq_nil_of_length_eq_zero (Nat.le_zero.mp hmore)
          rfl
      | succ more =>
          rw [sendChunks, sendChunks]
          split
          · rfl
          · rename_i hleft
            have hpositive := List.length_pos_iff.mpr hleft
            have hdrop : (left.drop kMaxChunk).length = left.length - 730 := List.length_drop
            split
            · rfl
            · exact ih (by omega) (by omega) _

end World

/-! ## What the caller is told -/

theorem carried_chunked {id : Int} {left : Bytes} {calls : List Called} {result : Result Unit}
    {chunks : List Bytes} (h : Chunked id left calls result chunks) :
    (textsOf calls).map carried = chunks := by
  rw [h.texts, List.map_map]
  exact (List.map_congr_left fun chunk _ => carried_mipsendLine id chunk).trans chunks.map_id

theorem toInt32_eq_iff (n : ℕ) : toInt32 n = n ↔ n < 2 ^ 31 := by
  have hupper : toInt32 n < (2 ^ 32 + 1) / 2 := Int.bmod_lt (by decide)
  constructor
  · intro h
    omega
  · intro h
    exact Int.bmod_eq_of_le (by omega) (by omega)

namespace World

variable {σ : Type*} (w : World σ)

/-- A payload that is sent is in the commands and in the result as it is: the loop ends, every
command declares what it carries, and what they carry is the payload or the front of it that was
sent before a refusal, which the caller gets. -/
structure LosesNothing (id : Int) (data : Bytes) (s : σ) : Prop where
  ends : ∀ fuel ≥ data.length,
    w.sendChunks id fuel data s = w.sendChunks id data.length data s
  declares : ∀ cmd ∈ textsOf (w.recorded.sendHexPayload id data (s, [])).2.2,
    declaredLength cmd = some ((carried cmd).length : Int) ∧
      1 ≤ (carried cmd).length ∧ (carried cmd).length ≤ 730
  whole : Accepted (w.recorded.sendHexPayload id data (s, [])).2.2 →
    (w.recorded.sendHexPayload id data (s, [])).1 = .ok data.length ∧
      ((textsOf (w.recorded.sendHexPayload id data (s, [])).2.2).map carried).flatten = data
  refused : ∀ rate cmd timeout e,
    .command rate cmd timeout (.error e) ∈ (w.recorded.sendHexPayload id data (s, [])).2.2 →
    (w.recorded.sendHexPayload id data (s, [])).1 = .error e.toNetworkError ∧
      ((textsOf (w.recorded.sendHexPayload id data (s, [])).2.2).map carried).flatten <+: data

theorem snd_sendHexPayload (id : Int) (data : Bytes) (s : σ) :
    (w.sendHexPayload id data s).2 = (w.sendChunks id data.length data s).2 := by
  unfold sendHexPayload
  split <;> rename_i h <;> rw [h]

theorem fst_sendHexPayload (id : Int) (data : Bytes) (s : σ) :
    (w.sendHexPayload id data s).1 =
      (w.sendChunks id data.length data s).1.map fun _ => toInt32 data.length := by
  unfold sendHexPayload
  split <;> rename_i h <;> rw [h] <;> rfl

theorem losesNothing_of_lt (id : Int) {data : Bytes} (h : data.length < 2 ^ 31) (s : σ) :
    w.LosesNothing id data s := by
  obtain ⟨calls, chunks, hcalls, hchunked⟩ :=
    w.sendChunks_chunked id (Nat.le_refl data.length) (s, [])
  have hrecord : (w.recorded.sendHexPayload id data (s, [])).2.2 = calls := by
    rw [snd_sendHexPayload, hcalls]
    rfl
  have hresult := w.recorded.fst_sendHexPayload id data (s, [])
  have hcarried := carried_chunked hchunked
  constructor
  · exact fun fuel hfuel => w.sendChunks_ends id (Nat.le_refl _) hfuel s
  · intro cmd hcmd
    rw [hrecord, hchunked.texts] at hcmd
    obtain ⟨chunk, hchunk, rfl⟩ := List.mem_map.mp hcmd
    have hsize := hchunked.sizes chunk hchunk
    have hlt : chunk.length < 2 ^ 31 := hsize.2.trans_lt (by decide)
    rw [carried_mipsendLine, declaredLength_mipsendLine id hlt]
    exact ⟨rfl, hsize⟩
  · intro haccepted
    rw [hrecord] at haccepted ⊢
    obtain ⟨hok, hflatten⟩ := hchunked.accepted haccepted
    rw [hresult, hok, hcarried]
    exact ⟨congrArg Except.ok ((toInt32_eq_iff _).mpr h), hflatten⟩
  · intro rate cmd timeout e he
    rw [hrecord] at he ⊢
    rw [hresult, hchunked.refused rate cmd timeout e he, hcarried]
    exact ⟨rfl, hchunked.front⟩

/-- A module that takes every command. -/
def accepting : World Unit where
  sendCommand _ _ s := (.ok (), s)
  getResponseLines _ := []
  getBaudRate _ := 115200
  setBaudRate baud s :=
    (if baud = 115200 then .ok () else .error { code := .kTimeout, context := "" }, s)
  stays _ _ _ := rfl
  follows baud s h := by
    by_cases hbaud : baud = 115200
    · exact hbaud.symm
    · rw [if_neg hbaud] at h
      cases h
  slotClock s := (fun _ => 0, s)
  now s := (0, s)
  sleepFor _ s := s
  awaitOpen _ _ s := (some 0, s)

theorem accepting_sendChunks (id : Int) (fuel : ℕ) (left : Bytes) (t : Unit × List Called)
    (h : Accepted t.2) :
    (accepting.recorded.sendChunks id fuel left t).1 = .ok () ∧
      Accepted (accepting.recorded.sendChunks id fuel left t).2.2 := by
  induction fuel generalizing left t with
  | zero => exact ⟨rfl, h⟩
  | succ fuel ih =>
      rw [sendChunks]
      split
      · exact ⟨rfl, h⟩
      · refine ih (left.drop kMaxChunk) _ ?_
        intro rate cmd timeout result hmem
        obtain hmem | hmem := List.mem_append.mp hmem
        · exact h rate cmd timeout result hmem
        · cases List.mem_singleton.mp hmem
          rfl

/-- A length from `2 ^ 31` on does not come back as it was, even if everything was taken. -/
theorem accepting_not_losesNothing (id : Int) {data : Bytes} (h : ¬data.length < 2 ^ 31) :
    ¬accepting.LosesNothing id data () := by
  intro hloses
  obtain ⟨hok, haccepted⟩ := accepting_sendChunks id data.length data ((), [])
    fun _ _ _ _ hmem => absurd hmem List.not_mem_nil
  have hresult := accepting.recorded.fst_sendHexPayload id data ((), [])
  rw [← snd_sendHexPayload] at haccepted
  rw [hok, (hloses.whole haccepted).1] at hresult
  exact h ((toInt32_eq_iff _).mp (Except.ok.inj hresult).symm)

/-- The result counts the payload in an `int`, and nothing refuses a payload that is too long for
one. -/
theorem losesNothing_iff (id : Int) (data : Bytes) :
    (∀ {σ : Type} (w : World σ) (s : σ), w.LosesNothing id data s) ↔ data.length < 2 ^ 31 :=
  ⟨fun h => Decidable.byContradiction fun hlong =>
      accepting_not_losesNothing id hlong (h accepting ()),
    fun h _ w s => w.losesNothing_of_lt id h s⟩

/-- 2 GiB do not come back as a length. -/
theorem long_payload_miscounted :
    ¬accepting.LosesNothing 0 (List.replicate (2 ^ 31) 0) () := by
  refine accepting_not_losesNothing 0 ?_
  rw [List.length_replicate]
  exact Nat.lt_irrefl _

end World

end EspModemLink.Ml307
