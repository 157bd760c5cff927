import EspModemLink.Air780e.Hal
import EspModemLink.Hal.AbsorbedEvents

/-!
# Replies to a read

`DrainOneCid` takes the first line that reads as the header of a read of its connection, whatever
its key, and the line behind it for the payload. An unsolicited line that arrives in front of either
is read instead.
-/

namespace EspModemLink.Air780e

open Bytes AtParser AtChannel Hal.Query

/-! ## Replies as they arrive -/

/-- A line that is the hex of some bytes, with digits of either case. -/
inductive HexOf : Bytes → Bytes → Prop
  | nil : HexOf [] []
  | cons {a b : UInt8} {hi lo : ℕ} {line data : Bytes} (ha : hexCharToNibble a = some hi)
      (hb : hexCharToNibble b = some lo) (hline : HexOf line data) :
      HexOf (a :: b :: line) ((hi * 16 + lo).toUInt8 :: data)

instance HexOf.decidable : (line data : Bytes) → Decidable (HexOf line data)
  | [], [] => isTrue .nil
  | a :: b :: line, x :: data =>
      match ha : hexCharToNibble a, hb : hexCharToNibble b with
      | some hi, some lo =>
          have := HexOf.decidable line data
          decidable_of_iff (x = (hi * 16 + lo).toUInt8 ∧ HexOf line data)
            ⟨fun h => h.1 ▸ .cons ha hb h.2, fun h => by
              cases h with
              | cons ha' hb' hline =>
                  rw [Option.some.inj (ha.symm.trans ha'), Option.some.inj (hb.symm.trans hb')]
                  exact ⟨rfl, hline⟩⟩
      | none, _ => isFalse fun h => by cases h with | cons ha' => rw [ha] at ha'; cases ha'
      | some _, none => isFalse fun h => by cases h with | cons _ hb' => rw [hb] at hb'; cases hb'
  | [], _ :: _ | [_], _ | _ :: _ :: _, [] => isFalse fun h => by cases h

/-- `+CIPRXGET: 3,<id>,<length>` and what may follow behind a further comma. -/
structure Header where
  length : ℕ
  more : Option Bytes := none
deriving DecidableEq

/-- The fields of a header. -/
def Header.fields (h : Header) (id : Cid) : Bytes :=
  51 :: 44 :: (decimal id.val ++ 44 :: decimal h.length)

def Header.rest (h : Header) : Bytes :=
  match h.more with
  | none => []
  | some more => 44 :: more

def Header.line (h : Header) (id : Cid) : Bytes :=
  ascii ['+', 'C', 'I', 'P', 'R', 'X', 'G', 'E', 'T', ':', ' '] ++ h.fields id ++ h.rest

/-- What arrives for a read in front of the final `OK`: a header, and the payload as hex unless it
does not follow, with unsolicited lines in front, between and behind. -/
structure Arrived where
  before : List Bytes
  header : Header
  between : List Bytes
  payload : Option Bytes
  after : List Bytes

def Arrived.lines (a : Arrived) (id : Cid) : List Bytes :=
  a.before ++ a.header.line id :: (a.between ++ (a.payload.toList ++ a.after))

/-- A completed line that is no final status and no prompt. -/
structure Unsolicited (line : Bytes) : Prop where
  complete : IsLine line
  status : isStatusLine (trimBy isSpace line) = none

/-- The reply is well formed and brings `data`: nothing, where no payload follows the header. -/
structure Arrived.Brings (a : Arrived) (id : Cid) (data : Bytes) : Prop where
  before : ∀ l ∈ a.before, Unsolicited l
  between : ∀ l ∈ a.between, Unsolicited l
  after : ∀ l ∈ a.after, Unsolicited l
  header : IsLine (a.header.line id)
  length : a.header.length < 2 ^ 31
  payload : match a.payload with
    | some hex => HexOf hex data ∧ data.length = a.header.length ∧ data ≠ []
    | none => data = [] ∧ a.after = []

/-! ## What is dispatched -/

/-- The bytes that a section hands up. -/
def payloadOf : Sect → Option Bytes
  | .dispatchTcpData _ _ data => some data
  | .dispatchUdpData _ _ _ _ data => some data
  | _ => none

/-- What the pass is left with once it has looked at a reply. -/
def readOnce (s : Air780eHal) (id : Cid) (drained : ℕ) (udp : Bool) : List Sect :=
  match s.readReply id drained udp with
  | [.readPeer id drained gen data] =>
      Air780eHal.dispatchFrom id drained gen (s.receiver.peer id) data
  | q => q

/-- The payloads that a read hands up when the lines and then `OK` answer it. -/
def dispatched (s : Air780eHal) (id : Cid) (drained : ℕ) (udp : Bool) (gen : ℕ) (lines : List Bytes) :
    List Bytes :=
  (readOnce (s.respond (response lines).lines gen) id drained udp).filterMap payloadOf

/-- The command of a read. -/
def readCommand (id : Cid) : Bytes :=
  ascii ['A', 'T', '+', 'C', 'I', 'P', 'R', 'X', 'G', 'E', 'T', '=', '3', ','] ++ decimal id.val ++
    ascii [',', '7', '2', '0']

/-- The field that names the sender of a datagram. -/
def sourceOf (line : Bytes) : Bytes := ((splitCsv (stripKeyPrefix line))[4]?.map trim).getD []

/-- The bytes that a reply carries. -/
def carriedBy (r : Reply) : Bytes := if r.returned ≤ 0 then [] else parseHex r.hex

/-- A datagram is handed up: the header names its sender, or else the arrival did. -/
def SenderKnown (s : Air780eHal) (id : Cid) (udp : Bool) (source : Bytes) : Prop :=
  udp = true → (splitPeer (if source = [] then s.receiver.peer id else source)).isSome = true

instance (s : Air780eHal) (id : Cid) (udp : Bool) (source : Bytes) :
    Decidable (SenderKnown s id udp source) := inferInstanceAs (Decidable (_ → _))

/-- The header as it is in the response. -/
def Arrived.head (a : Arrived) (id : Cid) : Bytes := trimBy isSpace (a.header.line id)

/-- What is read in place of the reply: the first inserted line in front of the header that reads
as a header of the same connection, with the line behind it, or else the header with the first line
inserted behind it. -/
def Arrived.stray (a : Arrived) (id : Cid) : Option Reply :=
  if (findReply id (answers true a.before)).isSome then
    findReply id (answers true a.before ++ [a.head id])
  else
    (answers false a.between).head?.map fun line =>
      { returned := a.header.length, hex := line, source := sourceOf (a.head id) }

/-- What the reply itself is read as. -/
def Arrived.reply (a : Arrived) (id : Cid) : Reply :=
  { returned := a.header.length, hex := a.payload.getD []
    source := sourceOf (a.head id) }

/-! ## Reading a header -/

theorem Header.fields_keeps (h : Header) (id : Cid) :
    (h.fields id).head? = some 51 ∧ ∃ d, (h.fields id).getLast? = some d ∧ isDigit d = true := by
  refine ⟨rfl, ?_⟩
  obtain ⟨ds, d, hlast⟩ := List.eq_nil_or_concat (decimal h.length) |>.resolve_left (decimal_ne_nil _)
  refine ⟨d, ?_, isDigit_of_mem_decimal h.length d (by rw [hlast]; simp)⟩
  rw [fields, hlast, ← List.cons_append, ← List.cons_append, List.concat_eq_append,
    ← List.cons_append, ← List.append_assoc, List.getLast?_concat]

/-- A header without the white space behind it. -/
def Header.trimmed (h : Header) (p : UInt8 → Bool) : Header :=
  { h with more := h.more.map fun more => (more.reverse.dropWhile p).reverse }

theorem Header.rest_trimmed (h : Header) {p : UInt8 → Bool} (hp : p 44 = false) :
    (h.trimmed p).rest = (h.rest.reverse.dropWhile p).reverse := by
  unfold rest trimmed
  cases h.more with
  | none => rfl
  | some more =>
      change 44 :: (more.reverse.dropWhile p).reverse = _
      rw [List.reverse_cons, List.dropWhile_append]
      by_cases hnil : (more.reverse.dropWhile p).isEmpty = true
      · rw [if_pos hnil, List.isEmpty_iff.mp hnil, List.dropWhile_cons_of_neg (by simp [hp])]
        rfl
      · rw [if_neg hnil, List.reverse_append]
        rfl

/-- A header keeps its key and its numbers when it is trimmed. -/
theorem Header.trimBy_line (h : Header) (id : Cid) :
    trimBy isSpace (h.line id) = (h.trimmed isSpace).line id := by
  obtain ⟨-, d, hlast, hd⟩ := h.fields_keeps id
  have hkey : (ascii ['+', 'C', 'I', 'P', 'R', 'X', 'G', 'E', 'T', ':', ' '] ++ h.fields id).getLast? =
      some d := by
    rw [List.getLast?_append, hlast]
    rfl
  rw [line, trimBy_append_of_keeps rfl (by decide) hkey (isSpace_of_isDigit hd), line,
    rest_trimmed h (by decide)]
  rfl

theorem Header.stripKeyPrefix_line (h : Header) (id : Cid) :
    stripKeyPrefix (h.line id) = h.fields id ++ (h.trimmed isBlank).rest := by
  obtain ⟨hhead, d, hlast, hd⟩ := h.fields_keeps id
  have hblank : isBlank d = false := by
    cases hb : isBlank d with
    | false => rfl
    | true => exact absurd (isSpace_of_isBlank d hb) (by rw [isSpace_of_isDigit hd]; decide)
  have hfind : findByte 58 (h.line id) = some 9 := by
    have hkey : (58 : UInt8) ∉ ascii ['+', 'C', 'I', 'P', 'R', 'X', 'G', 'E', 'T'] := by decide
    exact findByte_append (32 :: (h.fields id ++ h.rest)) hkey
  have hdrop : (h.line id).drop (9 + 1) = 32 :: (h.fields id ++ h.rest) := rfl
  rw [stripKeyPrefix, hfind]
  dsimp only
  rw [hdrop, trimBy_cons (by decide), trimBy_append_of_keeps hhead (by decide) hlast hblank,
    rest_trimmed h (by decide)]

/-- Digits are neither commas nor quotes nor blanks. -/
theorem decimal_plain (n : ℕ) : (∀ c ∈ decimal n, c ≠ 44 ∧ c ≠ 34) ∧ trim (decimal n) = decimal n := by
  refine ⟨decimal_comma_quote n, trimBy_eq_self fun c hc => ?_⟩
  cases hb : isBlank c with
  | false => rfl
  | true =>
      have hspace := isSpace_of_isDigit (isDigit_of_mem_decimal n c hc)
      rw [isSpace_of_isBlank c hb] at hspace
      cases hspace

/-- The numbers of a header are its first fields. -/
theorem Header.splitCsv_fields (h : Header) (id : Cid) :
    ∃ more, splitCsv (h.fields id ++ h.rest) =
      [51] :: decimal id.val :: decimal h.length :: more := by
  have hkind : ∀ c ∈ [(51 : UInt8)], c ≠ 44 ∧ c ≠ 34 :=
    List.forall_mem_singleton.mpr ⟨by decide, by decide⟩
  have hid := (decimal_plain id.val).1
  have hlength := (decimal_plain h.length).1
  have hcut : h.fields id ++ h.rest =
      [51] ++ 44 :: (decimal id.val ++ 44 :: (decimal h.length ++ h.rest)) := by
    simp [fields]
  rw [hcut, splitCsv_append hkind, splitCsv_append hid, rest]
  cases h.more with
  | none =>
      rw [List.append_nil, splitCsv_self hlength]
      exact ⟨[], rfl⟩
  | some more =>
      rw [splitCsv_append hlength]
      exact ⟨splitCsv more, rfl⟩

/-- A header reads as one. -/
theorem Header.replyAt_line (h : Header) (id : Cid) (hlength : h.length < 2 ^ 31) (next : Bytes) :
    replyAt id (h.line id) next =
      some { returned := h.length, hex := next, source := sourceOf (h.line id) } := by
  obtain ⟨more, hmore⟩ := (h.trimmed isBlank).splitCsv_fields id
  have hfields : splitCsv (stripKeyPrefix (h.line id)) =
      [51] :: decimal id.val :: decimal h.length :: more := by
    rw [h.stripKeyPrefix_line]
    exact hmore
  have hid : id.val < 2 ^ 31 := Nat.lt_trans id.isLt (by decide)
  rw [replyAt, sourceOf, hfields]
  dsimp only
  rw [(decimal_plain _).2, (decimal_plain _).2, parseInt_decimal hid, parseInt_decimal hlength,
    if_pos ⟨by decide, rfl⟩]
  rfl

/-! ## Reading the payload -/

theorem HexOf.isSome {hex data : Bytes} (h : HexOf hex data) :
    ∀ c ∈ hex, (hexCharToNibble c).isSome = true := by
  induction h with
  | nil => exact nofun
  | cons ha hb hline ih =>
      intro c hc
      simp only [List.mem_cons] at hc
      obtain rfl | rfl | hc := hc
      · rw [ha]; rfl
      · rw [hb]; rfl
      · exact ih c hc

theorem HexOf.parseHex_eq {hex data : Bytes} (h : HexOf hex data) : parseHex hex = data := by
  induction h with
  | nil => rfl
  | cons ha hb hline ih =>
      rw [parseHex, ha, hb]
      exact congrArg _ ih

theorem lt_of_hexChar {c : UInt8} (h : (hexCharToNibble c).isSome = true) : 47 < c := by
  unfold hexCharToNibble at h
  show 47 < c.toNat
  split at h
  · rename_i hc
    have hle : 48 ≤ c.toNat := hc.1
    omega
  · split at h
    · rename_i hc
      have hle : 97 ≤ c.toNat := hc.1
      omega
    · split at h
      · rename_i hc
        have hle : 65 ≤ c.toNat := hc.1
        omega
      · cases h

/-- The line with the payload is kept by the response as it is. -/
theorem HexOf.plain {hex data : Bytes} (h : HexOf hex data) (hne : data ≠ []) :
    IsLine hex ∧ trimBy isSpace hex = hex ∧ Plain hex := by
  have hno : ∀ c : UInt8, hexCharToNibble c = none → c ∉ hex := by
    intro c hc hmem
    have hsome := h.isSome c hmem
    rw [hc] at hsome
    cases hsome
  have htrim : trimBy isSpace hex = hex := by
    apply trimBy_eq_self
    intro c hc
    have hlt : 47 < c.toNat := lt_of_hexChar (h.isSome c hc)
    apply isSpace_of_lt
    show 32 < c.toNat
    omega
  have hstart : ∀ key : Bytes, startsWith hex key = true → key ⊆ hex := by
    intro key hkey
    exact (List.isPrefixOf_iff_prefix.mp hkey).subset
  refine ⟨?_, htrim, ⟨?_, ?_, ?_⟩⟩
  · cases hfind : find crlf hex with
    | none => exact hfind
    | some i =>
        have hcr : cr ∈ hex.drop i := (prefix_drop_of_find hfind).subset (by decide)
        exact absurd (List.mem_of_mem_drop hcr) (hno cr (by decide))
  · rw [htrim]
    rintro rfl
    cases h
    exact hne rfl
  · rw [htrim, isEcho, Bool.or_eq_false_iff]
    constructor
    · rw [Bool.eq_false_iff]
      exact fun hkey => hno 84 (by decide) (hstart _ hkey (by decide))
    · rw [Bool.eq_false_iff]
      exact fun hkey => hno 116 (by decide) (hstart _ hkey (by decide))
  · rw [isStatusLine, htrim, htrim, statusError, if_neg, if_neg, if_neg, if_neg, if_neg]
    · rintro rfl
      exact hno 62 (by decide) (by decide)
    · exact fun hkey => hno 43 (by decide) (hstart _ hkey (by decide))
    · exact fun hkey => hno 43 (by decide) (hstart _ hkey (by decide))
    · rintro rfl
      exact hno 82 (by decide) (by decide)
    · rintro rfl
      exact hno 79 (by decide) (by decide)

theorem Header.plain (h : Header) (id : Cid) : Plain (h.line id) :=
  plain_of_front [43, 67, 73] rfl rfl rfl rfl (fun _ => rfl) (fun _ => rfl)

/-! ## The reply that is read -/

/-- Whether a line reads as a header does not depend on the line behind it. -/
theorem replyAt_eq_map (id : Cid) (line next : Bytes) :
    replyAt id line next = (replyAt id line []).map fun r => { r with hex := next } := by
  unfold replyAt
  split
  · split
    · rw [Option.map_map]
      rfl
    · rfl
  · rfl

theorem isSome_replyAt (id : Cid) (line next next' : Bytes) :
    (replyAt id line next).isSome = (replyAt id line next').isSome := by
  rw [replyAt_eq_map id line next, replyAt_eq_map id line next', Option.isSome_map, Option.isSome_map]

theorem isSome_findReply {id : Cid} {lines : List Bytes} :
    (findReply id lines).isSome = true ↔ ∃ l ∈ lines, (replyAt id l []).isSome = true := by
  induction lines with
  | nil => simp [findReply]
  | cons line lines ih =>
      rw [findReply, Option.isSome_or, Bool.or_eq_true, isSome_replyAt id line _ [], ih]
      simp only [List.mem_cons, exists_eq_or_imp]

/-- Lines that do not read as a header are passed over. -/
theorem findReply_append_of_none {id : Cid} {front : List Bytes} (h : findReply id front = none)
    (l : Bytes) (rest : List Bytes) :
    findReply id (front ++ l :: rest) = (replyAt id l (rest.headD [])).or (findReply id rest) := by
  induction front with
  | nil => rfl
  | cons line front ih =>
      obtain ⟨hline, hfront⟩ := Option.or_eq_none_iff.mp h
      have hnone : replyAt id line ((front ++ l :: rest).headD []) = none := by
        rw [← Option.not_isSome_iff_eq_none, isSome_replyAt id line _ (front.headD []), hline]
        exact Bool.false_ne_true
      rw [List.cons_append, findReply, hnone, Option.none_or, ih hfront]

/-- A header among the first lines is read with the line behind it. -/
theorem findReply_append_of_isSome {id : Cid} {front : List Bytes}
    (h : (findReply id front).isSome = true) (l : Bytes) (rest : List Bytes) :
    findReply id (front ++ l :: rest) = findReply id (front ++ [l]) := by
  induction front with
  | nil => cases h
  | cons line front ih =>
      have hnext : (front ++ l :: rest).headD [] = (front ++ [l]).headD [] := by
        cases front <;> rfl
      rw [List.cons_append, List.cons_append, findReply, findReply, hnext]
      cases hline : replyAt id line ((front ++ [l]).headD []) with
      | some r => rw [Option.some_or, Option.some_or]
      | none =>
          rw [Option.none_or, Option.none_or]
          refine ih ?_
          have hnone : replyAt id line (front.headD []) = none := by
            rw [← Option.not_isSome_iff_eq_none, isSome_replyAt id line _ ((front ++ [l]).headD []),
              hline]
            exact Bool.false_ne_true
          rwa [findReply, hnone, Option.none_or] at h

section

variable {a : Arrived} {id : Cid} {data : Bytes}

theorem Arrived.Brings.payload_plain (h : a.Brings id data) {hex : Bytes}
    (hhex : hex ∈ a.payload.toList) : IsLine hex ∧ trimBy isSpace hex = hex ∧ Plain hex := by
  have hpayload := h.payload
  rw [Option.mem_toList] at hhex
  rw [hhex] at hpayload
  exact hpayload.1.plain hpayload.2.2

theorem Arrived.Brings.unsolicited (h : a.Brings id data) : ∀ l ∈ a.lines id, Unsolicited l := by
  intro l hl
  simp only [lines, List.mem_append, List.mem_cons] at hl
  obtain hl | rfl | hl | hl | hl := hl
  · exact h.before l hl
  · exact ⟨h.header, (a.header.plain id).status⟩
  · exact h.between l hl
  · exact ⟨(h.payload_plain hl).1, (h.payload_plain hl).2.2.status⟩
  · exact h.after l hl

/-- The lines of the response. -/
theorem Arrived.Brings.response_lines (h : a.Brings id data) :
    (response (a.lines id)).lines = answers true a.before ++ a.head id ::
      (answers false a.between ++ (a.payload.toList ++ answers false a.after)) := by
  have hplain := a.header.plain id
  have hpayload : answers false (a.payload.toList ++ a.after) =
      a.payload.toList ++ answers false a.after := by
    cases hhex : a.payload with
    | none => rfl
    | some hex =>
        have hmem : hex ∈ a.payload.toList := by rw [hhex]; simp
        obtain ⟨-, htrim, hne, hecho, -⟩ := h.payload_plain hmem
        rw [Option.toList_some, List.singleton_append, answers_cons hne hecho, htrim]
        rfl
  rw [AtChannel.response_lines (fun l hl => (h.unsolicited l hl).complete)
    (fun l hl => (h.unsolicited l hl).status), lines, answers_append,
    answers_cons hplain.nonempty hplain.echo, answers_append, mayEcho_false, hpayload]
  rfl

/-- What is read is what strayed into the reply, or else the reply itself. -/
theorem Arrived.Brings.findReply_eq (h : a.Brings id data) :
    findReply id (response (a.lines id)).lines = some ((a.stray id).getD (a.reply id)) := by
  have hhead : ∀ next, replyAt id (a.head id) next =
      some { returned := a.header.length, hex := next, source := sourceOf (a.head id) } := by
    intro next
    rw [head, a.header.trimBy_line]
    exact (a.header.trimmed isSpace).replyAt_line id h.length next
  rw [h.response_lines, stray]
  by_cases hfront : (findReply id (answers true a.before)).isSome = true
  · have hsome : (findReply id (answers true a.before ++ [a.head id])).isSome = true := by
      obtain ⟨l, hl, hreads⟩ := isSome_findReply.mp hfront
      exact isSome_findReply.mpr ⟨l, List.mem_append_left _ hl, hreads⟩
    obtain ⟨r, hr⟩ := Option.isSome_iff_exists.mp hsome
    rw [if_pos hfront, findReply_append_of_isSome hfront, hr]
    rfl
  · rw [if_neg hfront, findReply_append_of_none (Option.not_isSome_iff_eq_none.mp hfront), hhead,
      Option.some_or]
    cases hbetween : answers false a.between with
    | cons line lines => rfl
    | nil =>
        have hpayload := h.payload
        rw [reply]
        cases hhex : a.payload with
        | none =>
            rw [hhex] at hpayload
            rw [hpayload.2]
            rfl
        | some hex => rfl

end

/-! ## The payload that is dispatched -/

section

variable {s : Air780eHal} {id : Cid} {udp : Bool}

theorem readPayload_eq {lines : List Bytes} {r : Reply} (h : findReply id lines = some r) :
    readPayload id lines = if carriedBy r = [] then none else some (carriedBy r, r.source) := by
  rw [readPayload, h]
  dsimp only
  unfold carriedBy
  by_cases hlength : r.returned ≤ 0
  · rw [if_pos hlength, if_pos hlength, if_pos rfl]
  · rw [if_neg hlength, if_neg hlength]

/-- A datagram is handed up with its sender or not at all. -/
theorem payloads_dispatchFrom (drained gen : ℕ) (peer data : Bytes) :
    (Air780eHal.dispatchFrom id drained gen peer data).filterMap payloadOf =
      if (splitPeer peer).isSome then [data] else [] := by
  rw [Air780eHal.dispatchFrom]
  cases splitPeer peer with
  | none => rfl
  | some sender => rfl

/-- A reply is handed up if it carries something, and if the sender of a datagram is known. -/
theorem dispatched_eq {lines : List Bytes} {r : Reply}
    (h : findReply id (response lines).lines = some r) (drained gen : ℕ) :
    dispatched s id drained udp gen lines =
      if carriedBy r ≠ [] ∧ SenderKnown s id udp r.source then [carriedBy r] else [] := by
  have hreply : (s.respond (response lines).lines gen).readReply id drained udp =
      if carriedBy r = [] then [.finish id]
      else if udp then
        if r.source = [] then [.readPeer id drained gen (carriedBy r)]
        else Air780eHal.dispatchFrom id drained gen r.source (carriedBy r)
      else
        [.dispatchTcpData id [gen] (carriedBy r), .drain id (drained + (carriedBy r).length)] := by
    have hlines : (s.respond (response lines).lines gen).responseLines = (response lines).lines := rfl
    rw [Air780eHal.readReply, hlines, readPayload_eq h]
    by_cases hcarried : carriedBy r = []
    · rw [if_pos hcarried, if_pos hcarried]
    · rw [if_neg hcarried, if_neg hcarried]
      rfl
  rw [dispatched, readOnce, hreply]
  by_cases hcarried : carriedBy r = []
  · rw [if_pos hcarried, if_neg fun hboth => hboth.1 hcarried]
    rfl
  · rw [if_neg hcarried]
    cases udp with
    | false =>
        have hknown : carriedBy r ≠ [] ∧ SenderKnown s id false r.source := ⟨hcarried, nofun⟩
        rw [if_neg Bool.false_ne_true, if_pos hknown]
        rfl
    | true =>
        rw [if_pos rfl]
        have hknown : (carriedBy r ≠ [] ∧ SenderKnown s id true r.source) ↔
            (splitPeer (if r.source = [] then s.receiver.peer id else r.source)).isSome = true :=
          ⟨fun hboth => hboth.2 rfl, fun hsome => ⟨hcarried, fun _ => hsome⟩⟩
        rw [if_congr hknown rfl rfl]
        by_cases hsource : r.source = []
        · rw [if_pos hsource, if_pos hsource]
          exact payloads_dispatchFrom drained gen (s.receiver.peer id) (carriedBy r)
        · rw [if_neg hsource, if_neg hsource,
            ← payloads_dispatchFrom drained gen r.source (carriedBy r),
            Air780eHal.dispatchFrom]
          cases splitPeer r.source <;> rfl

end

/-- A read over the channel leaves the response that the pass looks at. -/
theorem exec_read (uart : AtUart) {a : Arrived} {id : Cid} {data : Bytes} (h : a.Brings id data) :
    ∃ c, Runs.exec Call.step (Call.begin uart (.sendCommand (readCommand id)))
        (replyMoves (a.lines id)) = some c ∧
      c.phase = .returned (.ok ()) ∧ c.uart.parsedResponse = response (a.lines id) := by
  have hlines : ∀ l ∈ a.lines id, IsLine l := fun l hl => (h.unsolicited l hl).complete
  have hstatus : ∀ l ∈ a.lines id, finalStatus l = none := fun l hl =>
    finalStatus_of_isStatusLine (h.unsolicited l hl).status
  obtain ⟨c, hrun, hphase, hresponse⟩ := exec_sendCommand uart (readCommand id) hlines
  exact ⟨c, hrun, hphase.trans (congrArg Phase.returned (response_result hlines hstatus)), hresponse⟩

/-- A pass that is answered goes on with what it made of the reply. -/
theorem exec_readOnce (s : Air780eHal) (id : Cid) (drained : ℕ) (udp : Bool) (gen : ℕ)
    (lines : List Bytes) :
    ∃ cs : List Choice, Runs.exec program.step ⟨s, [[.cipRxGet id drained udp]]⟩
        (cs.map (.run 0)) =
      some ⟨s.respond lines gen, [readOnce (s.respond lines gen) id drained udp]⟩ := by
  have hanswered : program.step ⟨s, [[.cipRxGet id drained udp]]⟩
      (.run 0 (.answer (.ok ()) lines gen)) =
      some ⟨s.respond lines gen, [[.readReply id drained udp lines]]⟩ := rfl
  have hread : program.step ⟨s.respond lines gen, [[.readReply id drained udp lines]]⟩ (.run 0 .go) =
      some ⟨s.respond lines gen, [(s.respond lines gen).readReply id drained udp]⟩ := by
    rw [← List.append_nil ((s.respond lines gen).readReply id drained udp)]
    rfl
  rw [readOnce]
  split
  · rename_i id' drained' gen' data hpeer
    refine ⟨[.answer (.ok ()) lines gen, .go, .go], ?_⟩
    simp only [List.map_cons, List.map_nil, Runs.exec_cons, hanswered, hread, hpeer,
      Option.bind_some]
    rw [← List.append_nil (Air780eHal.dispatchFrom id' drained' gen' _ data)]
    rfl
  · refine ⟨[.answer (.ok ()) lines gen, .go], ?_⟩
    simp only [List.map_cons, List.map_nil, Runs.exec_cons, hanswered, hread, Option.bind_some]
    rfl

/-- Nothing that carries other bytes is read in place of the reply, and the sender of a datagram
that is to be handed up is known. -/
def Arrived.Undisturbed (s : Air780eHal) (id : Cid) (udp : Bool) (a : Arrived) (data : Bytes) : Prop :=
  match a.stray id with
  | none => data ≠ [] → SenderKnown s id udp (sourceOf (a.head id))
  | some r =>
      if data = [] then carriedBy r ≠ [] → ¬SenderKnown s id udp r.source
      else carriedBy r = data ∧ SenderKnown s id udp r.source

/-- The bytes that a reply carries without anything in between. -/
theorem Arrived.Brings.carriedBy_reply {a : Arrived} {id : Cid} {data : Bytes}
    (h : a.Brings id data) : carriedBy (a.reply id) = data := by
  have hpayload := h.payload
  rw [carriedBy, reply]
  dsimp only
  cases hhex : a.payload with
  | none =>
      rw [hhex] at hpayload
      rw [hpayload.1]
      exact ite_self _
  | some hex =>
      rw [hhex] at hpayload
      obtain ⟨hdata, hlength, hne⟩ := hpayload
      have hpos : 0 < data.length := List.length_pos_iff.mpr hne
      rw [if_neg (by omega)]
      exact hdata.parseHex_eq

/-- A read hands up exactly the bytes that its reply brought if and only if nothing that carries
other bytes strayed into the reply. -/
theorem dispatched_iff {a : Arrived} {id : Cid} {data : Bytes} (h : a.Brings id data)
    (s : Air780eHal) (drained : ℕ) (udp : Bool) (gen : ℕ) :
    dispatched s id drained udp gen (a.lines id) = (if data = [] then [] else [data]) ↔
      a.Undisturbed s id udp data := by
  rw [dispatched_eq h.findReply_eq, Arrived.Undisturbed]
  cases a.stray id with
  | none =>
      rw [Option.getD_none, h.carriedBy_reply]
      by_cases hdata : data = []
      · simp [hdata]
      · simp [hdata, Arrived.reply]
  | some r =>
      rw [Option.getD_some]
      by_cases hdata : data = []
      · simp [hdata]
      · by_cases hknown : carriedBy r ≠ [] ∧ SenderKnown s id udp r.source
        · simp [hdata, hknown]
        · rw [if_neg hknown, if_neg hdata]
          simp only [hdata, if_false]
          refine iff_of_false (by simp) ?_
          rintro ⟨rfl, hsender⟩
          exact hknown ⟨hdata, hsender⟩

/-- The module answers `AB` to a read of connection 0, in the way that the header promises. -/
def arrivedAB (between : List Bytes) : Arrived :=
  { before := [], header := { length := 2, more := some (ascii ['0']) }, between := between
    payload := some (ascii ['4', '1', '4', '2']), after := [] }

theorem brings_arrivedAB (between : List Bytes) (h : ∀ l ∈ between, Unsolicited l) :
    (arrivedAB between).Brings ⟨0, by decide⟩ (ascii ['A', 'B']) where
  before := nofun
  between := h
  after := nofun
  header := by
    change IsLine (Header.line { length := 2, more := some (ascii ['0']) } _)
    decide
  length := by
    change 2 < 2 ^ 31
    decide
  payload := by
    refine ⟨?_, rfl, by decide⟩
    have hhigh : hexCharToNibble 52 = some 4 := rfl
    have hone : hexCharToNibble 49 = some 1 := rfl
    have htwo : hexCharToNibble 50 = some 2 := rfl
    exact .cons hhigh hone (.cons hhigh htwo .nil)

theorem dispatched_iff_alone :
    dispatched {} ⟨0, by decide⟩ 0 false 0 ((arrivedAB []).lines ⟨0, by decide⟩) =
      [ascii ['A', 'B']] :=
  (dispatched_iff (brings_arrivedAB [] nofun) {} 0 false 0).mpr fun _ => nofun

/-- `1, CLOSED` between the header and the payload is read as the byte 0xED. -/
theorem closed_read_as_payload :
    ¬∀ (a : Arrived) (id : Cid) (data : Bytes), a.Brings id data →
      dispatched {} id 0 false 0 (a.lines id) = if data = [] then [] else [data] := by
  intro hall
  have hclosed : Unsolicited (ascii ['1', ',', ' ', 'C', 'L', 'O', 'S', 'E', 'D']) :=
    ⟨by decide, by decide⟩
  have hsame := hall _ _ _ (brings_arrivedAB
    [ascii ['1', ',', ' ', 'C', 'L', 'O', 'S', 'E', 'D']] (by simpa using hclosed))
  exact absurd hsame (by decide +kernel)

end EspModemLink.Air780e
