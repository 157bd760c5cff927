import EspModemLink.WebSocket.FrameCuts

/-!
# Frames written and read

`TakeFrame` reads back what `EncodeFrame` writes, in the shortest form of the length, and masking
changes the mask bit, the key in front of the payload and the payload.
-/

namespace EspModemLink.WebSocket

open Bytes

/-! ## Header bytes -/

/-- The first byte of a frame. -/
def firstByte (opcode : WsOpcode) (fin : Bool) : UInt8 :=
  opcode.raw ||| (if fin then kFinBit else 0x00)

theorem firstByte_rsv (opcode : WsOpcode) (fin : Bool) : firstByte opcode fin &&& kRsvBits = 0 := by
  cases opcode <;> cases fin <;> rfl

theorem firstByte_opcode (opcode : WsOpcode) (fin : Bool) :
    firstByte opcode fin &&& kOpcodeMask = opcode.raw := by
  cases opcode <;> cases fin <;> rfl

theorem firstByte_fin (opcode : WsOpcode) (fin : Bool) :
    decide (firstByte opcode fin &&& kFinBit ≠ 0) = fin := by
  cases opcode <;> cases fin <;> rfl

/-- A short length is a byte without the mask bit. -/
theorem shortLength {n : ℕ} (h : n < 126) :
    (0x00 ||| n.toUInt8) &&& kMaskBit = 0 ∧ (((0x00 : UInt8) ||| n.toUInt8) &&& 0x7F).toNat = n := by
  have hall : ∀ m : Fin 126, (0x00 ||| m.val.toUInt8) &&& kMaskBit = 0 ∧
      (((0x00 : UInt8) ||| m.val.toUInt8) &&& 0x7F).toNat = m.val := by decide
  exact hall ⟨n, h⟩

theorem toNat_byteAt (n shift : ℕ) : (byteAt n shift).toNat = n / 2 ^ shift % 256 := by
  rw [byteAt, Nat.shiftRight_eq_div_pow]
  simp

/-- Two bytes hold a number below 2¹⁶. -/
theorem bigEndian_two {n : ℕ} (h : n < 2 ^ 16) : bigEndian [byteAt n 8, byteAt n 0] = n := by
  simp only [bigEndian, List.foldl_cons, List.foldl_nil, toNat_byteAt]
  omega

/-- One more byte of a number. -/
theorem shift_in (n k : ℕ) : n / 2 ^ (k + 8) * 256 + n / 2 ^ k % 256 = n / 2 ^ k := by
  rw [Nat.pow_add, ← Nat.div_div_eq_div_mul]
  omega

/-- Eight bytes hold a number below 2⁶⁴. -/
theorem bigEndian_eight {n : ℕ} (h : n < 2 ^ 64) :
    bigEndian ([56, 48, 40, 32, 24, 16, 8, 0].map (byteAt n)) = n := by
  have htop : n / 2 ^ 56 % 256 = n / 2 ^ 56 := Nat.mod_eq_of_lt (by omega)
  simp only [bigEndian, List.map_cons, List.map_nil, List.foldl_cons, List.foldl_nil, toNat_byteAt]
  rw [Nat.zero_mul, Nat.zero_add, htop, shift_in n 48, shift_in n 40, shift_in n 32, shift_in n 24,
    shift_in n 16, shift_in n 8, shift_in n 0, Nat.pow_zero, Nat.div_one]

/-! ## The length -/

/-- The size of a header whose length is in the shortest form. -/
def shortestOffset (length : ℕ) : ℕ :=
  if length < kLengthIs16Bit then 2 else if length ≤ 0xFFFF then 4 else 10

/-- A written length is read back, whatever follows, and the mask bit is all that masking changes
about it. -/
theorem encodeLength_spec {length : ℕ} (h : length < 2 ^ 63) :
    ∃ second ext, encodeLength 0x00 length = second :: ext ∧
      encodeLength kMaskBit length = (second ||| kMaskBit) :: ext ∧
      second &&& kMaskBit = 0 ∧ ext.length + 2 = shortestOffset length ∧
      ∀ t, takeLength second (ext ++ t) = some (.ok (length, shortestOffset length)) := by
  unfold encodeLength shortestOffset
  by_cases hshort : length < kLengthIs16Bit
  · obtain ⟨hmask, hvalue⟩ := shortLength hshort
    have h16 : length ≠ kLengthIs16Bit := Nat.ne_of_lt hshort
    have h64 : length ≠ kLengthIs64Bit := by
      unfold kLengthIs16Bit at hshort
      unfold kLengthIs64Bit
      omega
    simp only [if_pos hshort]
    refine ⟨_, [], rfl, ?_, hmask, rfl, fun t => ?_⟩
    · rw [UInt8.or_comm, UInt8.zero_or]
    · unfold takeLength
      rw [hvalue]
      dsimp only
      rw [if_neg h16, if_neg h64]
  · simp only [if_neg hshort]
    by_cases hmiddle : length ≤ 0xFFFF
    · simp only [if_pos hmiddle]
      refine ⟨_, _, rfl, rfl, rfl, rfl, fun t => ?_⟩
      have hlength := bigEndian_two (n := length) (by omega)
      unfold takeLength
      simp only [List.cons_append, List.nil_append, List.length_cons, List.take_succ_cons,
        List.take_zero, hlength]
      rfl
    · simp only [if_neg hmiddle]
      refine ⟨_, _, rfl, rfl, rfl, rfl, fun t => ?_⟩
      have hlength := bigEndian_eight (n := length) (by omega)
      have htake : (([56, 48, 40, 32, 24, 16, 8, 0].map (byteAt length)) ++ t).take 8 =
          [56, 48, 40, 32, 24, 16, 8, 0].map (byteAt length) := by
        rw [List.take_append_of_le_length (by simp), List.take_of_length_le (by simp)]
      have hlong : ¬(([56, 48, 40, 32, 24, 16, 8, 0].map (byteAt length)) ++ t).length < 8 := by
        simp
      unfold takeLength
      dsimp only
      rw [if_neg (by decide), if_pos (by decide), if_neg hlong, htake, hlength, if_neg (by omega)]

theorem shortestOffset_le_four {length : ℕ} (h : length ≤ 0xFFFF) : shortestOffset length ≤ 4 := by
  unfold shortestOffset
  rw [if_pos h]
  split <;> omega

theorem shortestOffset_le_ten (length : ℕ) : shortestOffset length ≤ 10 := by
  unfold shortestOffset
  split
  · omega
  · split <;> omega

/-- A length is read only from a header that is long enough for it. -/
theorem shortestOffset_le {second : UInt8} {rest : Bytes} {length offset : ℕ}
    (h : takeLength second rest = some (.ok (length, offset))) : shortestOffset length ≤ offset := by
  have hbyte : ∀ b : UInt8, b.toNat < 256 := UInt8.toNat_lt
  unfold takeLength at h
  dsimp only at h
  split at h
  · split at h
    · cases h
    · rename_i hlength
      obtain ⟨rfl, rfl⟩ := Prod.mk.inj (Except.ok.inj (Option.some.inj h))
      apply shortestOffset_le_four
      match rest, hlength with
      | a :: b :: rest, _ =>
          have ha := hbyte a
          have hb := hbyte b
          simp only [List.take_succ_cons, List.take_zero, bigEndian, List.foldl_cons, List.foldl_nil]
          omega
      | [_], hlength => simp at hlength
      | [], hlength => simp at hlength
  · rename_i h16
    split at h
    · split at h
      · cases h
      · split at h
        · cases h
        · obtain ⟨-, rfl⟩ := Prod.mk.inj (Except.ok.inj (Option.some.inj h))
          exact shortestOffset_le_ten _
    · rename_i h64
      obtain ⟨rfl, rfl⟩ := Prod.mk.inj (Except.ok.inj (Option.some.inj h))
      have hseven : (second &&& 0x7F).toNat < 128 := by
        rw [UInt8.toNat_and]
        exact Nat.lt_of_le_of_lt Nat.and_le_right (by decide)
      unfold kLengthIs16Bit at h16
      unfold kLengthIs64Bit at h64
      unfold shortestOffset kLengthIs16Bit
      rw [if_pos (by omega)]

/-- So a header is long enough for the length it gives. -/
theorem shortestOffset_header {first second : UInt8} {rest : Bytes} {header : Header}
    (h : readHeader first second rest = some (.ok header)) :
    shortestOffset header.length ≤ header.offset := by
  unfold readHeader at h
  split at h
  · cases h
  · split at h
    · cases h
    · split at h
      · cases h
      · obtain ⟨found, hfound, hheader⟩ := Option.map_eq_some_iff.mp h
        cases found with
        | error reason => cases hheader
        | ok p =>
            rw [checkControl_ok hheader]
            exact shortestOffset_le hfound

/-! ## Masking -/

theorem length_masked (payload : Bytes) (key : UInt32) :
    (masked payload key).length = payload.length := by
  simp [masked]

theorem getElem?_masked (payload : Bytes) (key : UInt32) (i : ℕ) :
    (masked payload key)[i]? =
      payload[i]?.map fun b => b ^^^ (maskOctets key).getD (i % 4) 0 := by
  simp [masked, List.getElem?_mapIdx]

/-- Masking twice with one key is no masking. -/
theorem masked_masked (payload : Bytes) (key : UInt32) : masked (masked payload key) key = payload := by
  apply List.ext_getElem?
  intro i
  rw [getElem?_masked, getElem?_masked, Option.map_map]
  cases payload[i]? with
  | none => rfl
  | some b =>
      simp only [Option.map_some, Function.comp_apply, UInt8.xor_assoc, UInt8.xor_self, UInt8.xor_zero]

/-! ## Frames -/

/-- What an accepted frame looks like, without a mask and with one. -/
theorem encodeFrame_spec {opcode : WsOpcode} {payload bytes : Bytes} {fin : Bool}
    (h : encodeFrame opcode payload fin none = .ok bytes) :
    ¬(isControlOpcode opcode ∧ fin = false) ∧
      ¬(isControlOpcode opcode ∧ kMaxControlPayload < payload.length) ∧
      bytes = firstByte opcode fin :: encodeLength 0x00 payload.length ++ payload ∧
      ∀ key, encodeFrame opcode payload fin (some key) =
        .ok (firstByte opcode fin :: encodeLength kMaskBit payload.length ++ maskOctets key ++
          masked payload key) := by
  unfold encodeFrame at h
  split at h
  · cases h
  · rename_i hfin
    split at h
    · cases h
    · rename_i hlength
      refine ⟨hfin, hlength, (Except.ok.inj h).symm, fun key => ?_⟩
      rw [encodeFrame, if_neg hfin, if_neg hlength]
      rfl

/-- The rules for control frames let an accepted frame through. -/
theorem readHeader_encoded {opcode : WsOpcode} {fin : Bool} {second : UInt8} {rest : Bytes}
    {length offset : ℕ} (hfin : ¬(isControlOpcode opcode ∧ fin = false))
    (hcontrol : ¬(isControlOpcode opcode ∧ kMaxControlPayload < length))
    (hmask : second &&& kMaskBit = 0) (hlength : takeLength second rest = some (.ok (length, offset))) :
    readHeader (firstByte opcode fin) second rest = some (.ok ⟨fin, opcode, length, offset⟩) := by
  rw [readHeader, if_neg (not_not_intro (firstByte_rsv opcode fin)), firstByte_opcode,
    opcodeFromRaw_raw]
  dsimp only
  rw [if_neg (not_not_intro hmask), hlength, firstByte_fin]
  simp only [Option.map_some, Except.bind, checkControl]
  rw [if_neg hfin, if_neg hcontrol]

/-- `TakeFrame` reads back what `EncodeFrame` wrote. -/
theorem takeFrame_encodeFrame {opcode : WsOpcode} {payload bytes : Bytes} {fin : Bool}
    (hlength : payload.length < 2 ^ 63) (h : encodeFrame opcode payload fin none = .ok bytes)
    (rest : Bytes) : takeFrame (bytes ++ rest) = (.ready ⟨fin, opcode, payload⟩, rest) := by
  obtain ⟨hfin, hcontrol, rfl, -⟩ := encodeFrame_spec h
  obtain ⟨second, ext, hencoded, -, hmask, hoffset, htake⟩ := encodeLength_spec hlength
  have hheader := readHeader_encoded hfin hcontrol hmask (htake (payload ++ rest))
  have hbytes : firstByte opcode fin :: encodeLength 0x00 payload.length ++ payload ++ rest =
      firstByte opcode fin :: second :: (ext ++ (payload ++ rest)) := by
    rw [hencoded]
    simp
  have hsplit : firstByte opcode fin :: second :: (ext ++ (payload ++ rest)) =
      (firstByte opcode fin :: second :: ext) ++ (payload ++ rest) := rfl
  have hfront : (firstByte opcode fin :: second :: ext).length = shortestOffset payload.length := by
    simp only [List.length_cons]
    omega
  rw [hbytes, takeFrame_cons, hheader]
  simp only [frameOf]
  rw [hsplit, if_neg (by rw [List.length_append, hfront, List.length_append]; omega), ← hfront,
    List.drop_left, List.take_left, List.drop_append, List.drop_of_length_le (by omega),
    List.nil_append, Nat.add_sub_cancel_left, List.drop_left]

/-- Nothing that is read as the same frame is shorter. -/
theorem encodeFrame_shortest {opcode : WsOpcode} {payload bytes other : Bytes} {fin : Bool}
    (hlength : payload.length < 2 ^ 63) (h : encodeFrame opcode payload fin none = .ok bytes)
    (hother : takeFrame other = (.ready ⟨fin, opcode, payload⟩, [])) :
    bytes.length = shortestOffset payload.length + payload.length ∧ bytes.length ≤ other.length := by
  obtain ⟨-, -, rfl, -⟩ := encodeFrame_spec h
  obtain ⟨second, ext, hencoded, -, -, hoffset, -⟩ := encodeLength_spec hlength
  have hbytes : (firstByte opcode fin :: encodeLength 0x00 payload.length ++ payload).length =
      shortestOffset payload.length + payload.length := by
    rw [hencoded]
    simp only [List.cons_append, List.length_cons, List.length_append]
    omega
  refine ⟨hbytes, ?_⟩
  rw [hbytes]
  match other with
  | [] => cases (Prod.mk.inj hother).1
  | [_] => cases (Prod.mk.inj hother).1
  | a :: b :: tail =>
      rw [takeFrame_cons] at hother
      cases hheader : readHeader a b tail with
      | none =>
          rw [hheader] at hother
          cases (Prod.mk.inj hother).1
      | some found =>
          rw [hheader] at hother
          cases found with
          | error reason => cases (Prod.mk.inj hother).1
          | ok header =>
              simp only [frameOf] at hother
              split at hother
              · cases (Prod.mk.inj hother).1
              · rename_i hfits
                have hpayload := congrArg WsFrame.payload
                  (WsFrameRead.ready.inj (Prod.mk.inj hother).1)
                dsimp only at hpayload
                have hsame : header.length = payload.length := by
                  rw [← hpayload, List.length_take, List.length_drop]
                  omega
                have hle := shortestOffset_header hheader
                rw [hsame] at hle hfits
                omega

/-- An accepted frame is read back whatever follows it, nothing that is read as the same frame is
shorter, and masking sets the mask bit, puts the key in front of the payload and masks the payload
with it, which masking once more undoes. -/
theorem frame_roundTrip {opcode : WsOpcode} {payload bytes : Bytes} {fin : Bool}
    (hlength : payload.length < 2 ^ 63) (h : encodeFrame opcode payload fin none = .ok bytes) :
    (∀ rest, takeFrame (bytes ++ rest) = (.ready ⟨fin, opcode, payload⟩, rest)) ∧
    (bytes.length = shortestOffset payload.length + payload.length ∧
      ∀ other, takeFrame other = (.ready ⟨fin, opcode, payload⟩, []) →
        bytes.length ≤ other.length) ∧
    ∀ key, ∃ first second ext, bytes = first :: second :: ext ++ payload ∧
      second &&& kMaskBit = 0 ∧
      encodeFrame opcode payload fin (some key) =
        .ok (first :: (second ||| kMaskBit) :: ext ++ maskOctets key ++ masked payload key) ∧
      (masked payload key).length = payload.length ∧
      (∀ i, (masked payload key)[i]? =
        payload[i]?.map fun b => b ^^^ (maskOctets key).getD (i % 4) 0) ∧
      masked (masked payload key) key = payload := by
  have hread := takeFrame_encodeFrame hlength h
  have hself : takeFrame bytes = (.ready ⟨fin, opcode, payload⟩, []) := by simpa using hread []
  refine ⟨hread, ⟨(encodeFrame_shortest hlength h hself).1,
    fun other hother => (encodeFrame_shortest hlength h hother).2⟩, fun key => ?_⟩
  obtain ⟨-, -, rfl, hmasked⟩ := encodeFrame_spec h
  obtain ⟨second, ext, hencoded, hencodedMasked, hmask, -, -⟩ := encodeLength_spec hlength
  refine ⟨firstByte opcode fin, second, ext, by rw [hencoded], hmask, ?_, length_masked _ _,
    getElem?_masked _ _, masked_masked _ _⟩
  rw [hmasked key, hencodedMasked]

/-- "hi", with the first byte of another frame behind it. -/
theorem frame_roundTrip_text :
    takeFrame ([0x81, 2, 104, 105] ++ [0x89]) = (.ready ⟨true, .kText, [104, 105]⟩, [0x89]) :=
  (@frame_roundTrip .kText [104, 105] [0x81, 2, 104, 105] true (by decide) rfl).1 [0x89]

end EspModemLink.WebSocket
