import EspModemLink.Air780e.Hal
import EspModemLink.AtChannel.UrcDispatcher

/-!
# Keyed lines and the events without a key

The handler for the empty prefix takes every line that has no colon for an event. The dispatcher
has cut the line at its first colon by then, so that the handler never sees one: a keyed line whose
key reads as an event is taken for that event.
-/

namespace EspModemLink.Air780e

open Bytes AtParser AtChannel

/-! ## The handlers -/

/-- What `RegisterUrcHandlers` subscribes, in the order in which the sections are left here. -/
def urcHandlers (gen : ℕ) : List (HandlerEntry (List Sect)) :=
  [⟨ascii ['+', 'C', 'I', 'P', 'R', 'X', 'G', 'E', 'T'], fun _ arguments => onCiprxgetUrc arguments⟩,
    ⟨[], fun command _ => onUnsolicitedLine command gen⟩]

/-- What the handler for the empty prefix does with a completed line. -/
def unkeyedSections (line : Bytes) (gen : ℕ) : List Sect :=
  (UrcDispatcher.dispatch [⟨[], fun command _ => onUnsolicitedLine command gen⟩] line).flatten

/-- A line is handled as the dispatcher passes it on. -/
theorem dispatchLine_eq (line : Bytes) (gen : ℕ) :
    dispatchLine line gen = (UrcDispatcher.dispatch (urcHandlers gen) line).flatten := by
  by_cases hblank : trimBy isSpace line = []
  · rw [dispatchLine, UrcDispatcher.dispatch, hblank]
    rfl
  · have hnil : startsWith (UrcDispatcher.command (trimBy isSpace line)) [] = true := rfl
    rw [UrcDispatcher.dispatch, if_neg hblank, urcHandlers, List.filter_cons, List.filter_cons,
      if_pos hnil, List.filter_nil, dispatchLine]
    dsimp only
    rw [if_neg hblank]
    change (if startsWith (UrcDispatcher.command (trimBy isSpace line)) _ = true then
        onCiprxgetUrc (UrcDispatcher.arguments (trimBy isSpace line)) else []) ++ _ = _
    split
    · rw [List.map_cons, List.map_singleton, List.flatten_cons, List.flatten_singleton]
      rfl
    · rw [List.map_singleton, List.flatten_singleton]
      rfl

/-! ## Events without a key -/

/-- What can have become of a connection. -/
def connectionEvents : List Bytes :=
  [ascii ['C', 'O', 'N', 'N', 'E', 'C', 'T', ' ', 'O', 'K'],
    ascii ['C', 'O', 'N', 'N', 'E', 'C', 'T', ' ', 'F', 'A', 'I', 'L'],
    ascii ['A', 'L', 'R', 'E', 'A', 'D', 'Y', ' ', 'C', 'O', 'N', 'N', 'E', 'C', 'T'],
    ascii ['C', 'L', 'O', 'S', 'E', ' ', 'O', 'K'],
    ascii ['S', 'E', 'N', 'D', ' ', 'O', 'K'],
    ascii ['S', 'E', 'N', 'D', ' ', 'F', 'A', 'I', 'L'],
    ascii ['C', 'L', 'O', 'S', 'E', 'D']]

/-- A text that is an event of this module: `SHUT OK`, or a connection id, a comma and what became
of the connection. -/
def KeylessEvent (text : Bytes) : Prop :=
  text = ascii ['S', 'H', 'U', 'T', ' ', 'O', 'K'] ∨
    ∃ before after, text = before ++ 44 :: after ∧ (44 : UInt8) ∉ before ∧
      (∃ id : Cid, parseInt (trim before) = some id.int) ∧ trim after ∈ connectionEvents

/-- The text in front of the first colon of a completed line. -/
def keyOf (line : Bytes) : Bytes := (trimBy isSpace line).takeWhile (· != 58)

/-- Whatever is left of the handler runs without any change to the driver. -/
def Silent (q : List Sect) : Prop :=
  ∀ (s : Air780eHal) (cs : List Choice) (cfg : Config),
    Runs.exec program.step ⟨s, [q]⟩ (cs.map (.run 0)) = some cfg → cfg.shared = s

theorem silent_nil : Silent [] := by
  intro s cs cfg hrun
  cases cs with
  | nil => exact Option.some.inj hrun ▸ rfl
  | cons c cs => cases hrun

theorem cid?_int (id : Cid) : cid? id.int = some id := by
  have hid : (id.int).toNat = id.val := Int.toNat_natCast id.val
  have hlt : id.val < kMaxConnections := id.isLt
  rw [cid?, dif_pos ⟨Int.natCast_nonneg _, hid ▸ hlt⟩]
  exact congrArg some (Fin.ext hid)

theorem int_of_cid? {n : Int} {id : Cid} (h : cid? n = some id) : n = id.int := by
  unfold cid? at h
  split at h
  · rename_i hrange
    rw [← Option.some.inj h]
    exact (Int.toNat_of_nonneg hrange.1).symm
  · cases h

/-- What becomes of a connection is recorded, and nothing else is. -/
theorem cidEvent_eq_nil_iff (id : Cid) (gen : ℕ) (what : Bytes) :
    cidEvent id gen what = [] ↔ what ∉ connectionEvents := by
  unfold cidEvent
  repeat' split
  all_goals simp_all [connectionEvents]

/-- Each event is recorded in some state. -/
theorem cidEvent_not_silent (id : Cid) (gen : ℕ) {what : Bytes} (h : what ∈ connectionEvents) :
    ¬Silent (cidEvent id gen what) := by
  -- an open waits for its result, a close for its answer, a send for its acknowledgement
  let opening : Air780eHal := { openWait := { id := id.int } }
  let closing : Air780eHal := { events := { closePendingId := id.int } }
  let sending : Air780eHal := { sendWait := fun _ => { pending := 1 } }
  let inUse : Air780eHal := { pool := { slots := fun _ => { used := true, serial := 1 } } }
  have hopened : ∀ outcome, opening.recordOpenResult id outcome ≠ opening := by
    intro outcome hsame
    have hdone := congrArg (fun s : Air780eHal => s.openWait.done) hsame
    simp [opening, Air780eHal.recordOpenResult] at hdone
  have hclosed : (closing.closeOk id gen).1 ≠ closing := by
    intro hsame
    have hclose := congrArg (fun s : Air780eHal => s.events.closeOk) hsame
    simp [closing, Air780eHal.closeOk] at hclose
  intro hsilent
  simp only [connectionEvents, List.mem_cons, List.not_mem_nil, or_false] at h
  obtain rfl | rfl | rfl | rfl | rfl | rfl | rfl := h
  · have hsame : opening.recordOpenResult id .kConnected = opening := hsilent opening [.go] _ rfl
    exact hopened .kConnected hsame
  · have hsame : opening.recordOpenResult id .kFailed = opening := hsilent opening [.go] _ rfl
    exact hopened .kFailed hsame
  · have hsame : opening.recordOpenResult id .kAlreadyConnected = opening := hsilent opening [.go] _ rfl
    exact hopened .kAlreadyConnected hsame
  · have hsame : (closing.closeOk id gen).1 = closing := hsilent closing [.go] _ rfl
    exact hclosed hsame
  · have hsame := hsilent sending [.go] _ rfl
    have hpending := congrArg (fun s : Air780eHal => (s.sendWait id).pending) hsame
    simp [Air780eHal.setSendWait, sending] at hpending
  · have hsame := hsilent sending [.go] _ rfl
    have hpending := congrArg (fun s : Air780eHal => (s.sendWait id).pending) hsame
    simp [Air780eHal.setSendWait, sending] at hpending
  · have hsame := hsilent inUse [.go, .go] _ rfl
    have hpending := congrArg (fun s : Air780eHal => s.receiver.pending id) hsame
    simp [Air780eHal.recordClose, Receiver.setPending, inUse] at hpending

theorem keylessEvent_append_iff {before after : Bytes}
    (hshut : before ++ 44 :: after ≠ ascii ['S', 'H', 'U', 'T', ' ', 'O', 'K'])
    (hbefore : (44 : UInt8) ∉ before) :
    KeylessEvent (before ++ 44 :: after) ↔
      (∃ id : Cid, parseInt (trim before) = some id.int) ∧ trim after ∈ connectionEvents := by
  constructor
  · rintro (h | ⟨before', after', hsame, hbefore', hevent⟩)
    · exact absurd h hshut
    · have hlength : before.length = before'.length := by
        have hfind := findByte_append after hbefore
        rw [hsame, findByte_append after' hbefore'] at hfind
        exact (Option.some.inj hfind).symm
      obtain ⟨rfl, hrest⟩ := List.append_inj hsame hlength
      exact (List.cons.inj hrest).2 ▸ hevent
  · intro h
    exact .inr ⟨before, after, rfl, hbefore, h⟩

/-- `OnUnsolicitedLine` does something with the events only. -/
theorem onUnsolicitedLine_silent_iff {text : Bytes} (hcolon : (58 : UInt8) ∉ text) (gen : ℕ) :
    Silent (onUnsolicitedLine text gen) ↔ ¬KeylessEvent text := by
  have hfind : (findByte 58 text).isSome = false := by
    rw [findByte_eq_none.mpr hcolon]
    rfl
  unfold onUnsolicitedLine
  rw [hfind, if_neg Bool.false_ne_true]
  split
  · rename_i hshut
    refine iff_of_false ?_ (not_not.mpr (.inl hshut))
    intro hsilent
    have hsame := hsilent {} [.go] _ rfl
    have hshutOk := congrArg (fun s : Air780eHal => s.events.shutOk) hsame
    simp at hshutOk
  · rename_i hshut
    cases hcomma : findByte 44 text with
    | none =>
        refine iff_of_true silent_nil ?_
        rintro (h | ⟨before, after, rfl, -, -⟩)
        · exact hshut h
        · exact findByte_eq_none.mp hcomma (by simp)
    | some comma =>
        obtain ⟨before, after, rfl, hbefore, rfl⟩ := findByte_eq_some_iff.mp hcomma
        have htake : (before ++ 44 :: after).take before.length = before := List.take_left' rfl
        have hdrop : (before ++ 44 :: after).drop (before.length + 1) = after := by
          rw [← List.drop_drop, List.drop_left' rfl, List.drop_one, List.tail_cons]
        dsimp only
        rw [htake, hdrop, keylessEvent_append_iff hshut hbefore]
        cases hid : (parseInt (trim before)).bind cid? with
        | none =>
            refine iff_of_true silent_nil ?_
            rintro ⟨⟨id, hint⟩, -⟩
            rw [hint, Option.bind_some, cid?_int] at hid
            cases hid
        | some id =>
            obtain ⟨n, hn, hcid⟩ := Option.bind_eq_some_iff.mp hid
            rw [int_of_cid? hcid] at hn
            dsimp only
            by_cases hwhat : trim after ∈ connectionEvents
            · exact iff_of_false (cidEvent_not_silent id gen hwhat) (not_not.mpr ⟨⟨id, hn⟩, hwhat⟩)
            · rw [(cidEvent_eq_nil_iff id gen _).mpr hwhat]
              exact iff_of_true silent_nil fun h => hwhat h.2

/-- A keyed line changes nothing unless its key is an event of this module. -/
theorem keyed_line_silent_iff (line : Bytes) (hkeyed : (58 : UInt8) ∈ line) (gen : ℕ) :
    Silent (unkeyedSections line gen) ↔ ¬KeylessEvent (keyOf line) := by
  have hline : trimBy isSpace line ≠ [] :=
    List.ne_nil_of_mem (mem_trimBy (by decide) hkeyed)
  rw [unkeyedSections, UrcDispatcher.dispatch_singleton_nil _ hline, List.flatten_singleton, keyOf,
    ← UrcDispatcher.command_eq_takeWhile]
  exact onUnsolicitedLine_silent_iff (UrcDispatcher.colon_notMem_command _) gen

/-- `+CME ERROR: 3`. -/
theorem cmeError_line_silent :
    Silent (unkeyedSections
      (ascii ['+', 'C', 'M', 'E', ' ', 'E', 'R', 'R', 'O', 'R', ':', ' ', '3']) 0) := by
  refine (keyed_line_silent_iff _ (by decide) 0).mpr ?_
  rintro (h | ⟨before, after, h, -, -⟩)
  · exact absurd h (by decide)
  · have hcomma : (44 : UInt8) ∈
        keyOf (ascii ['+', 'C', 'M', 'E', ' ', 'E', 'R', 'R', 'O', 'R', ':', ' ', '3']) := by
      rw [h]
      simp
    exact absurd hcomma (by decide)

/-- `0, SEND OK: 5` acknowledges a chunk of connection 0. -/
theorem sendOk_key_acknowledges :
    ¬∀ (line : Bytes) (gen : ℕ), (58 : UInt8) ∈ line → Silent (unkeyedSections line gen) := by
  intro hall
  have hsilent := hall (ascii ['0', ',', ' ', 'S', 'E', 'N', 'D', ' ', 'O', 'K', ':', ' ', '5']) 0
    (by decide)
  let sending : Air780eHal := { sendWait := fun _ => { pending := 1 } }
  let id : Cid := ⟨0, by decide⟩
  have hsame : sending.setSendWait id { sending.sendWait id with pending := 0 } = sending :=
    hsilent sending [.go] _ rfl
  have hpending := congrArg (fun s : Air780eHal => (s.sendWait id).pending) hsame
  simp [Air780eHal.setSendWait, sending] at hpending

end EspModemLink.Air780e
