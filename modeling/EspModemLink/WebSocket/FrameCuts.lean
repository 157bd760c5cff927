import EspModemLink.Library.Cutting
import EspModemLink.WebSocket.Frame

/-!
# Frames out of a stream in pieces

What `TakeFrame` says about a buffer stands whatever arrives behind it, so the way a stream was cut
cannot be told from the frames, the last answer or the bytes that are left.
-/

namespace EspModemLink.WebSocket

open Bytes

/-! ## Answers that stand -/

/-- The length that was found stands, and its bytes were there. -/
theorem takeLength_append {second : UInt8} {rest : Bytes} {found : Except String (ℕ × ℕ)}
    (h : takeLength second rest = some found) (t : Bytes) :
    takeLength second (rest ++ t) = some found := by
  unfold takeLength at h ⊢
  dsimp only at h ⊢
  split at h
  · rename_i h16
    rw [if_pos h16]
    split at h
    · cases h
    · rename_i hlength
      rw [if_neg (by rw [List.length_append]; omega), List.take_append_of_le_length (by omega)]
      exact h
  · rename_i h16
    rw [if_neg h16]
    split at h
    · rename_i h64
      rw [if_pos h64]
      split at h
      · cases h
      · rename_i hlength
        rw [if_neg (by rw [List.length_append]; omega), List.take_append_of_le_length (by omega)]
        exact h
    · rename_i h64
      rw [if_neg h64]
      exact h

/-- The length is read out of the header alone. -/
theorem takeLength_take {second : UInt8} {rest : Bytes} {length offset n : ℕ}
    (h : takeLength second rest = some (.ok (length, offset))) (hn : offset ≤ n + 2) :
    takeLength second (rest.take n) = some (.ok (length, offset)) := by
  unfold takeLength at h ⊢
  dsimp only at h ⊢
  split at h
  · rename_i h16
    rw [if_pos h16]
    split at h
    · cases h
    · have hoffset : offset = 4 := (Prod.mk.inj (Except.ok.inj (Option.some.inj h))).2.symm
      rw [if_neg (by rw [List.length_take]; omega), List.take_take, Nat.min_eq_left (by omega)]
      exact h
  · rename_i h16
    rw [if_neg h16]
    split at h
    · rename_i h64
      rw [if_pos h64]
      split at h
      · cases h
      · split at h
        · cases h
        · rename_i hbit
          have hoffset : offset = 10 := (Prod.mk.inj (Except.ok.inj (Option.some.inj h))).2.symm
          rw [if_neg (by rw [List.length_take]; omega), List.take_take, Nat.min_eq_left (by omega),
            if_neg hbit]
          exact h
    · rename_i h64
      rw [if_neg h64]
      exact h

/-- The header is in the buffer. -/
theorem takeLength_le {second : UInt8} {rest : Bytes} {length offset : ℕ}
    (h : takeLength second rest = some (.ok (length, offset))) :
    2 ≤ offset ∧ offset ≤ rest.length + 2 := by
  unfold takeLength at h
  dsimp only at h
  split at h
  · split at h
    · cases h
    · rename_i hlength
      obtain ⟨-, rfl⟩ := Prod.mk.inj (Except.ok.inj (Option.some.inj h))
      omega
  · split at h
    · split at h
      · cases h
      · split at h
        · cases h
        · rename_i hlength _
          obtain ⟨-, rfl⟩ := Prod.mk.inj (Except.ok.inj (Option.some.inj h))
          omega
    · obtain ⟨-, rfl⟩ := Prod.mk.inj (Except.ok.inj (Option.some.inj h))
      omega

/-- What a frame header says, and how long it is. -/
structure Header where
  fin : Bool
  opcode : WsOpcode
  length : ℕ
  offset : ℕ
deriving DecidableEq

/-- The rules for control frames. -/
def checkControl (fin : Bool) (opcode : WsOpcode) (length offset : ℕ) : Except String Header :=
  if isControlOpcode opcode ∧ fin = false then .error "a control frame arrived fragmented"
  else if isControlOpcode opcode ∧ kMaxControlPayload < length then
    .error "a control frame carries more than 125 bytes"
  else .ok ⟨fin, opcode, length, offset⟩

/-- The header of a frame, `none` while the extended length is not there. -/
def readHeader (first second : UInt8) (rest : Bytes) : Option (Except String Header) :=
  if first &&& kRsvBits ≠ 0 then some (.error "a reserved bit is set in the frame header")
  else
    match opcodeFromRaw (first &&& kOpcodeMask) with
    | none => some (.error "the frame header carries a reserved opcode")
    | some opcode =>
        if second &&& kMaskBit ≠ 0 then some (.error "a frame from the server is masked")
        else (takeLength second rest).map fun found =>
          found.bind fun p => checkControl (first &&& kFinBit ≠ 0) opcode p.1 p.2

/-- What a header and the bytes behind it amount to. -/
def frameOf (buffer : Bytes) : Option (Except String Header) → WsFrameRead × Bytes
  | none => (.incomplete, buffer)
  | some (.error reason) => (.invalid reason, buffer)
  | some (.ok header) =>
      if buffer.length < header.offset + header.length then (.incomplete, buffer)
      else
        (.ready ⟨header.fin, header.opcode, (buffer.drop header.offset).take header.length⟩,
          buffer.drop (header.offset + header.length))

/-- `TakeFrame` reads the header first. -/
theorem takeFrame_cons (first second : UInt8) (rest : Bytes) :
    takeFrame (first :: second :: rest) =
      frameOf (first :: second :: rest) (readHeader first second rest) := by
  rw [takeFrame, readHeader]
  by_cases hrsv : first &&& kRsvBits ≠ 0
  · rw [if_pos hrsv, if_pos hrsv]
    rfl
  · rw [if_neg hrsv, if_neg hrsv]
    cases opcodeFromRaw (first &&& kOpcodeMask) with
    | none => rfl
    | some opcode =>
        dsimp only
        by_cases hmask : second &&& kMaskBit ≠ 0
        · rw [if_pos hmask, if_pos hmask]
          rfl
        · rw [if_neg hmask, if_neg hmask]
          cases takeLength second rest with
          | none => rfl
          | some found =>
              cases found with
              | error reason => rfl
              | ok p =>
                  simp only [Option.map_some, Except.bind, checkControl]
                  split
                  · rfl
                  · split <;> rfl

/-- A header that was read stands. -/
theorem readHeader_append {first second : UInt8} {rest : Bytes} {found : Except String Header}
    (h : readHeader first second rest = some found) (t : Bytes) :
    readHeader first second (rest ++ t) = some found := by
  unfold readHeader at h ⊢
  split
  · rename_i hrsv
    rw [if_pos hrsv] at h
    exact h
  · rename_i hrsv
    rw [if_neg hrsv] at h
    cases hopcode : opcodeFromRaw (first &&& kOpcodeMask) with
    | none =>
        rw [hopcode] at h
        exact h
    | some opcode =>
        rw [hopcode] at h
        dsimp only at h ⊢
        split
        · rename_i hmask
          rw [if_pos hmask] at h
          exact h
        · rename_i hmask
          rw [if_neg hmask] at h
          obtain ⟨p, hp, hfound⟩ := Option.map_eq_some_iff.mp h
          rw [takeLength_append hp, ← hfound]
          rfl

/-- The rules for control frames change nothing about a header they let through. -/
theorem checkControl_ok {fin : Bool} {opcode : WsOpcode} {length offset : ℕ} {header : Header}
    (h : checkControl fin opcode length offset = .ok header) :
    header = ⟨fin, opcode, length, offset⟩ := by
  unfold checkControl at h
  split at h
  · cases h
  · split at h
    · cases h
    · exact (Except.ok.inj h).symm

/-- The header is two bytes and its extended length, and it is read out of these alone. -/
theorem readHeader_ok {first second : UInt8} {rest : Bytes} {header : Header}
    (h : readHeader first second rest = some (.ok header)) :
    2 ≤ header.offset ∧ header.offset ≤ rest.length + 2 ∧
      ∀ n, header.offset ≤ n + 2 → readHeader first second (rest.take n) = some (.ok header) := by
  unfold readHeader at h ⊢
  split at h
  · cases h
  · rename_i hrsv
    split at h
    · cases h
    · rename_i opcode hopcode
      split at h
      · cases h
      · rename_i hmask
        obtain ⟨found, hfound, hheader⟩ := Option.map_eq_some_iff.mp h
        cases found with
        | error reason => cases hheader
        | ok p =>
            have hp : header.offset = p.2 := by rw [checkControl_ok hheader]
            obtain ⟨htwo, hle⟩ := takeLength_le hfound
            refine ⟨by omega, by omega, fun n hn => ?_⟩
            rw [if_neg hrsv, if_neg hmask, takeLength_take hfound (by omega)]
            exact congrArg some hheader

/-- An answer other than "incomplete" stands, and what arrives behind it stays behind it. -/
theorem takeFrame_append {buffer rest : Bytes} {read : WsFrameRead}
    (h : takeFrame buffer = (read, rest)) (hread : read ≠ .incomplete) (t : Bytes) :
    takeFrame (buffer ++ t) = (read, rest ++ t) := by
  match buffer with
  | [] => exact absurd (Prod.mk.inj h).1.symm hread
  | [_] => exact absurd (Prod.mk.inj h).1.symm hread
  | first :: second :: tail =>
      rw [List.cons_append, List.cons_append, takeFrame_cons]
      rw [takeFrame_cons] at h
      cases hheader : readHeader first second tail with
      | none =>
          rw [hheader] at h
          exact absurd (Prod.mk.inj h).1.symm hread
      | some found =>
          rw [readHeader_append hheader]
          rw [hheader] at h
          cases found with
          | error reason =>
              obtain ⟨rfl, rfl⟩ := Prod.mk.inj h
              rfl
          | ok header =>
              simp only [frameOf] at h ⊢
              split at h
              · exact absurd (Prod.mk.inj h).1.symm hread
              · rename_i hfits
                obtain ⟨rfl, rfl⟩ := Prod.mk.inj h
                have hlength : (first :: second :: (tail ++ t)).length =
                    (first :: second :: tail).length + t.length := by
                  simp only [List.length_cons, List.length_append]
                  omega
                rw [if_neg (by omega), ← List.cons_append, ← List.cons_append,
                  List.drop_append_of_le_length (by omega),
                  List.take_append_of_le_length (by rw [List.length_drop]; omega),
                  List.drop_append_of_le_length (by omega)]

/-- Only a frame that is ready is taken off the buffer. -/
theorem takeFrame_keeps {buffer rest : Bytes} {read : WsFrameRead}
    (h : takeFrame buffer = (read, rest)) (hread : ∀ frame, read ≠ .ready frame) :
    rest = buffer := by
  match buffer with
  | [] => exact (Prod.mk.inj h).2.symm
  | [_] => exact (Prod.mk.inj h).2.symm
  | first :: second :: tail =>
      rw [takeFrame_cons] at h
      unfold frameOf at h
      split at h
      · exact (Prod.mk.inj h).2.symm
      · exact (Prod.mk.inj h).2.symm
      · split at h
        · exact (Prod.mk.inj h).2.symm
        · exact absurd (Prod.mk.inj h).1.symm (hread _)

/-- A frame that is ready is a header and the payload behind it, and these are taken. -/
theorem takeFrame_ready {buffer rest : Bytes} {frame : WsFrame}
    (h : takeFrame buffer = (.ready frame, rest)) :
    ∃ header, 2 ≤ header.length ∧ buffer = header ++ frame.payload ++ rest ∧
      takeFrame (header ++ frame.payload) = (.ready frame, []) := by
  match buffer with
  | [] => cases (Prod.mk.inj h).1
  | [_] => cases (Prod.mk.inj h).1
  | first :: second :: tail =>
      rw [takeFrame_cons] at h
      cases hheader : readHeader first second tail with
      | none =>
          rw [hheader] at h
          cases (Prod.mk.inj h).1
      | some found =>
          rw [hheader] at h
          cases found with
          | error reason => cases (Prod.mk.inj h).1
          | ok header =>
              obtain ⟨htwo, hle, htake⟩ := readHeader_ok hheader
              simp only [frameOf] at h
              split at h
              · cases (Prod.mk.inj h).1
              · rename_i hfits
                obtain ⟨hframe, rfl⟩ := Prod.mk.inj h
                obtain rfl := WsFrameRead.ready.inj hframe
                simp only [List.length_cons] at hfits
                set buffer := first :: second :: tail with hbuffer
                have hlength : buffer.length = tail.length + 2 := rfl
                have hbytes : buffer.take header.offset ++
                    (buffer.drop header.offset).take header.length =
                      buffer.take (header.offset + header.length) := (List.take_add ..).symm
                refine ⟨buffer.take header.offset, by rw [List.length_take]; omega, ?_, ?_⟩
                · rw [hbytes, List.take_append_drop]
                · obtain ⟨n, hn⟩ : ∃ n, header.offset + header.length = n + 2 :=
                    ⟨header.offset + header.length - 2, by omega⟩
                  have hcut : buffer.take (header.offset + header.length) =
                      first :: second :: tail.take n := by rw [hn]; rfl
                  have hcutLength : (first :: second :: tail.take n).length =
                      header.offset + header.length := by
                    rw [← hcut, List.length_take]
                    omega
                  rw [hbytes, hcut, takeFrame_cons, htake n (by omega)]
                  simp only [frameOf]
                  rw [if_neg (by omega), ← hcut, List.drop_take, List.drop_take, Nat.sub_self,
                    Nat.add_sub_cancel_left, List.take_zero, List.take_take, Nat.min_self]

theorem takeFrame_shorter {buffer rest : Bytes} {frame : WsFrame}
    (h : takeFrame buffer = (.ready frame, rest)) : rest.length < buffer.length := by
  obtain ⟨header, htwo, hbuffer, -⟩ := takeFrame_ready h
  rw [hbuffer, List.length_append, List.length_append]
  omega

/-- In front of its last byte no frame is ready, and nothing is wrong with it. -/
theorem takeFrame_of_cut {frame : WsFrame} {bytes front back : Bytes}
    (h : takeFrame bytes = (.ready frame, [])) (hcut : bytes = front ++ back) (hback : back ≠ []) :
    takeFrame front = (.incomplete, front) := by
  obtain ⟨read, rest, hfront⟩ : ∃ read rest, takeFrame front = (read, rest) := ⟨_, _, rfl⟩
  by_cases hread : read = .incomplete
  · subst hread
    rw [hfront, takeFrame_keeps hfront (by simp)]
  · have hwhole := takeFrame_append hfront hread back
    rw [← hcut, h] at hwhole
    have hempty := (Prod.mk.inj hwhole).2.symm
    exact absurd (List.append_eq_nil_iff.mp hempty).2 hback

/-! ## A stream in pieces -/

/-- `TakeFrame` as a reader. Its state is the frames so far. -/
def frameReader : Cutting.Reader (List WsFrame) UInt8 where
  halted _ := false
  take frames buffer :=
    match takeFrame buffer with
    | (.ready frame, rest) => some (frames ++ [frame], rest)
    | _ => none
  shorter := by
    intro frames buffer frames' rest h
    split at h
    · rename_i frame rest' htake
      obtain ⟨-, rfl⟩ := Prod.mk.inj (Option.some.inj h)
      exact takeFrame_shorter htake
    · cases h

/-- What has come out of a stream: the frames, the last answer, and the bytes that are left. -/
structure Received where
  frames : List WsFrame
  status : WsFrameRead
  buffer : Bytes
deriving DecidableEq

/-- Append the pieces one after the other, and call `TakeFrame` behind each until no frame is
ready. -/
def receivePieces (pieces : List Bytes) : Received :=
  let out := frameReader.feedAll ([], []) pieces
  ⟨out.1, (takeFrame out.2).1, out.2⟩

/-- A frame that is taken is taken whatever follows. -/
theorem frameReader_resumes : frameReader.Resumes fun _ _ => True := by
  intro frames frames' buffer rest c _ _ htake
  left
  simp only [frameReader] at htake ⊢
  split at htake
  · rename_i frame rest' hframe
    obtain ⟨rfl, rfl⟩ := Prod.mk.inj (Option.some.inj htake)
    rw [takeFrame_append hframe (by simp)]
  · cases htake

/-- The way a stream was cut cannot be told from what came out of it. A frame that is ready is taken
off with exactly its bytes and nothing else is, and no answer but "incomplete" depends on what
arrives behind it. -/
theorem receivePieces_flatten :
    (∀ pieces : List Bytes, receivePieces pieces = receivePieces [pieces.flatten]) ∧
    (∀ buffer frame rest, takeFrame buffer = (.ready frame, rest) →
      ∃ bytes, buffer = bytes ++ rest ∧ takeFrame bytes = (.ready frame, []) ∧
        ∀ front back, bytes = front ++ back → back ≠ [] → takeFrame front = (.incomplete, front)) ∧
    (∀ buffer read rest, takeFrame buffer = (read, rest) → (∀ frame, read ≠ .ready frame) →
      rest = buffer) ∧
    ∀ buffer read rest, takeFrame buffer = (read, rest) → read ≠ .incomplete →
      ∀ t, takeFrame (buffer ++ t) = (read, rest ++ t) := by
  refine ⟨?_, ?_, fun _ _ _ => takeFrame_keeps, fun _ _ _ => takeFrame_append⟩
  · intro pieces
    have hpieces := Cutting.Reader.feedAll_eq_feed frameReader_resumes [] pieces
      (fun _ _ => trivial)
    have hwhole : frameReader.feedAll ([], []) [pieces.flatten] =
        frameReader.feed ([], []) pieces.flatten := rfl
    rw [receivePieces, receivePieces, hpieces, hwhole]
  · intro buffer frame rest h
    obtain ⟨header, -, hbuffer, hready⟩ := takeFrame_ready h
    exact ⟨header ++ frame.payload, hbuffer, hready, fun _ _ => takeFrame_of_cut hready⟩

end EspModemLink.WebSocket
