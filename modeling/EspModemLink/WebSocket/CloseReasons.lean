import EspModemLink.Library.Utf8
import EspModemLink.WebSocket.Inbound

/-!
# The reasons of close frames

`FitReason` cuts a reason to what a control frame can hold. A reason that was a text still is one,
and no longer text would have fitted.
-/

namespace EspModemLink.WebSocket

open Bytes Utf8

/-- The loop of `FitReason` stops at the front or at a byte that begins a character. -/
theorem fitEnd_stops (reason : Bytes) (n : ℕ) :
    fitEnd reason n = 0 ∨ ¬Continues (reason.getD (fitEnd reason n) 0) := by
  induction n with
  | zero => exact .inl rfl
  | succ n ih =>
      rw [fitEnd]
      split
      · exact ih
      · rename_i hbyte
        exact .inr hbyte

/-- The loop of `FitReason` passes only bytes that go on with a character. -/
theorem fitEnd_passed {reason : Bytes} {n k : ℕ} (hlow : fitEnd reason n < k) (hhigh : k ≤ n) :
    Continues (reason.getD k 0) := by
  induction n with
  | zero => omega
  | succ n ih =>
      rw [fitEnd] at hlow
      split at hlow
      · rename_i hbyte
        obtain rfl | hk := Nat.eq_or_lt_of_le hhigh
        · exact hbyte
        · exact ih hlow (Nat.le_of_lt_succ hk)
      · omega

/-- `FitReason` keeps as much of a text as fits. -/
theorem fitReason_isLongest {reason : Bytes} (h : IsText reason) :
    IsLongest kMaxCloseReason reason (fitReason reason) := by
  unfold fitReason
  split
  · rename_i hfits
    exact .refl h hfits
  · rename_i hlong
    exact .of_backOff h (Nat.lt_of_not_le hlong) (fitEnd_le reason kMaxCloseReason)
      (fitEnd_stops reason kMaxCloseReason) fun k => fitEnd_passed

/-- The payload of a close frame holds the code and as much of the reason as fits. -/
theorem closePayload_eq {code : UInt16} (hcode : code.toNat ≠ kNoStatus) (reason : Bytes) :
    closePayload code.toNat reason =
      (code >>> 8).toUInt8 :: code.toUInt8 :: fitReason reason := by
  have hhigh : byteAt code.toNat 8 = (code >>> 8).toUInt8 := by
    apply UInt8.toNat_inj.mp
    simp [toNat_byteAt, Nat.shiftRight_eq_div_pow]
  have hlow : byteAt code.toNat 0 = code.toUInt8 := by
    apply UInt8.toNat_inj.mp
    simp [toNat_byteAt]
  rw [closePayload, if_neg hcode, hhigh, hlow]

theorem closePayload_length (code : ℕ) (reason : Bytes) :
    (closePayload code reason).length ≤ kMaxControlPayload := by
  have hfits := fitReason_length reason
  unfold closePayload
  split
  · exact Nat.zero_le _
  · simp only [kMaxCloseReason, kMaxControlPayload, List.length_cons] at hfits ⊢
    omega

/-- A payload that fits is encoded as a whole close frame. -/
theorem encodeFrame_close {payload : Bytes} (h : payload.length ≤ kMaxControlPayload)
    (key : Option UInt32) : ∃ rest, encodeFrame .kClose payload true key = .ok (0x88 :: rest) := by
  have hfirst : WsOpcode.kClose.raw ||| (if true then kFinBit else 0x00) = 0x88 := by decide
  unfold encodeFrame
  rw [if_neg (by simp), if_neg (by omega), hfirst]
  cases key with
  | none => exact ⟨_, rfl⟩
  | some key => exact ⟨_, rfl⟩

/-- The payload of a close frame with a code other than 1005 is the code and the longest text of at
most 123 bytes in front of the reason, and it is encoded as a close frame. -/
theorem closePayload_fits {code : UInt16} (hcode : code.toNat ≠ kNoStatus) {reason : Bytes}
    (h : IsText reason) :
    (∃ shown, IsLongest 123 reason shown ∧
      closePayload code.toNat reason = (code >>> 8).toUInt8 :: code.toUInt8 :: shown) ∧
    (closePayload code.toNat reason).length ≤ 125 ∧
    ∀ key, ∃ rest, encodeFrame .kClose (closePayload code.toNat reason) true key =
      .ok (0x88 :: rest) := by
  have hlength := closePayload_length code.toNat reason
  exact ⟨⟨fitReason reason, fitReason_isLongest h, closePayload_eq hcode reason⟩, hlength,
    encodeFrame_close hlength⟩

/-- A reason of 124 bytes that ends with "é" loses the whole of it. -/
theorem closePayload_fits_behind_cut :
    let reason : Bytes := List.replicate 122 97 ++ [0xC3, 0xA9]
    closePayload 1000 reason = 0x03 :: 0xE8 :: List.replicate 122 97 ∧
      IsLongest 123 reason (List.replicate 122 97) := by
  have htext : IsText (List.replicate 122 97 ++ [0xC3, 0xA9]) :=
    ⟨List.replicate 122 'a' ++ ['é'], by decide +kernel⟩
  have hpayload : closePayload 1000 (List.replicate 122 97 ++ [0xC3, 0xA9]) =
      0x03 :: 0xE8 :: List.replicate 122 97 := by decide +kernel
  obtain ⟨⟨shown, hshown, heq⟩, -⟩ := @closePayload_fits 1000 (by decide) _ htext
  have hcut : shown = List.replicate 122 97 := by
    have hboth := heq.symm.trans hpayload
    exact (List.cons.inj (List.cons.inj hboth).2).2
  exact ⟨hpayload, hcut ▸ hshown⟩

end EspModemLink.WebSocket
