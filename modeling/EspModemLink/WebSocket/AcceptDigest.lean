import EspModemLink.Library.Base64
import EspModemLink.Library.Sha1
import EspModemLink.WebSocket.FrameCodec
import EspModemLink.WebSocket.Handshake
import Mathlib.Data.List.GetD

/-!
# The digest of the handshake

`Base64Encode` and `Sha1` compute what their standards say, for data of every length, and so
`ComputeSecWebSocketAccept` is the digest that a server has to answer with.
-/

namespace EspModemLink.WebSocket

open Bytes BitStrings

/-! ## Base64 -/

theorem getD_kBase64Alphabet {v : ℕ} (hv : v < 64) :
    kBase64Alphabet.getD v 0 = (Base64.symbol v).toNat.toUInt8 := by
  have hall : ∀ v : Fin 64, kBase64Alphabet.getD v 0 = (Base64.symbol v).toNat.toUInt8 := by decide
  exact hall ⟨v, hv⟩

/-- A character of a group that has `d` characters of filling behind it. -/
theorem sextet_eq (y d i : ℕ) :
    sextet (y * 64 ^ d) (6 * (i + d)) = (Base64.symbol (y / 64 ^ i % 64)).toNat.toUInt8 := by
  have hcut : y * 64 ^ d / 2 ^ (6 * (i + d)) = y / 64 ^ i := by
    calc y * 64 ^ d / 2 ^ (6 * (i + d)) = y * 64 ^ d / (64 ^ i * 64 ^ d) := by
          rw [Nat.pow_mul, Nat.pow_add]
      _ = y / 64 ^ i := Nat.mul_div_mul_right _ _ (Nat.pow_pos (by decide))
  rw [sextet, Nat.shiftRight_eq_div_pow, hcut, getD_kBase64Alphabet (Nat.mod_lt _ (by decide))]

/-- `Base64Encode` is the encoding of RFC 4648. -/
theorem base64Encode_eq (data : Bytes) : base64Encode data = ascii (Base64.encode data) := by
  fun_induction base64Encode data with
  | case1 => rfl
  | case2 a group =>
      have hgroup : group = a.toNat * 2 ^ 4 * 64 ^ 2 := by
        simp only [group, Nat.shiftLeft_eq]
        omega
      rw [Base64.encode_of_le (by simp) (by simp), octetBits_cons, octetBits_nil, List.append_nil,
        Base64.encodeGroup_bits (z := 4) (k := 2) (by decide) (by decide), hgroup]
      change [sextet _ (6 * (1 + 2)), sextet _ (6 * (0 + 2)), pad, pad] = _
      rw [sextet_eq, sextet_eq]
      rfl
  | case3 a b group =>
      have hgroup : group = (a.toNat * 2 ^ 8 + b.toNat) * 2 ^ 2 * 64 ^ 1 := by
        simp only [group, Nat.shiftLeft_eq]
        omega
      rw [Base64.encode_of_le (by simp) (by simp), octetBits_cons, octetBits_cons, octetBits_nil,
        List.append_nil, bits_append _ _ b.toNat_lt,
        Base64.encodeGroup_bits (z := 2) (k := 3) (by decide) (by decide), hgroup]
      change [sextet _ (6 * (2 + 1)), sextet _ (6 * (1 + 1)), sextet _ (6 * (0 + 1)), pad] = _
      rw [sextet_eq, sextet_eq, sextet_eq]
      rfl
  | case4 a b c rest group ih =>
      have hgroup : group =
          (a.toNat * 2 ^ (8 + 8) + (b.toNat * 2 ^ 8 + c.toNat)) * 2 ^ 0 * 64 ^ 0 := by
        simp only [group, Nat.shiftLeft_eq]
        omega
      have hbits : octetBits [a, b, c] =
          bits 24 (a.toNat * 2 ^ (8 + 8) + (b.toNat * 2 ^ 8 + c.toNat)) := by
        have hb := b.toNat_lt
        have hc := c.toNat_lt
        rw [octetBits_cons, octetBits_cons, octetBits_cons, octetBits_nil, List.append_nil,
          bits_append _ _ hc, bits_append _ _ (by omega)]
      have hfront : a :: b :: c :: rest = [a, b, c] ++ rest := rfl
      rw [hfront, Base64.encode_append rfl, hbits, Base64.encodeGroup_bits (z := 0) (k := 4)
        (by decide) (by decide), hgroup, ih]
      change sextet _ (6 * (3 + 0)) :: sextet _ (6 * (2 + 0)) :: sextet _ (6 * (1 + 0)) ::
        sextet _ (6 * (0 + 0)) :: _ = _
      rw [sextet_eq, sextet_eq, sextet_eq, sextet_eq]
      rfl

/-! ## Words -/

theorem toBitVec_rotateLeft_one (v : UInt32) :
    (rotateLeft v 1).toBitVec = v.toBitVec.rotateLeft 1 := rfl

theorem toBitVec_rotateLeft_five (v : UInt32) :
    (rotateLeft v 5).toBitVec = v.toBitVec.rotateLeft 5 := rfl

theorem toBitVec_rotateLeft_thirty (v : UInt32) :
    (rotateLeft v 30).toBitVec = v.toBitVec.rotateLeft 30 := rfl

theorem toNat_wordOf (a b c d : UInt8) :
    (wordOf a b c d).toNat = a.toNat * 2 ^ 24 + (b.toNat * 2 ^ 16 + (c.toNat * 2 ^ 8 + d.toNat)) := by
  have ha := a.toNat_lt
  have hb := b.toNat_lt
  have hc := c.toNat_lt
  have hd := d.toNat_lt
  have hshift : ∀ (o : UInt8) (n : UInt32), n.toNat ≤ 24 →
      (o.toUInt32 <<< n).toNat = o.toNat <<< n.toNat := by
    intro o n hn
    have ho := o.toNat_lt
    have hpow : 2 ^ n.toNat ≤ 2 ^ 24 := Nat.pow_le_pow_right (by decide) hn
    have hbound : o.toNat * 2 ^ n.toNat < 2 ^ 32 := by
      calc o.toNat * 2 ^ n.toNat ≤ o.toNat * 2 ^ 24 := Nat.mul_le_mul_left _ hpow
        _ < 2 ^ 32 := by omega
    rw [UInt32.toNat_shiftLeft, UInt8.toNat_toUInt32, Nat.mod_eq_of_lt (a := n.toNat) (by omega),
      Nat.mod_eq_of_lt]
    rwa [Nat.shiftLeft_eq]
  rw [wordOf, UInt32.toNat_or, UInt32.toNat_or, UInt32.toNat_or, hshift a 24 (by decide),
    hshift b 16 (by decide), hshift c 8 (by decide), UInt8.toNat_toUInt32, Nat.or_assoc,
    Nat.or_assoc]
  have hlow : c.toNat <<< 8 ||| d.toNat = c.toNat * 2 ^ 8 + d.toNat := by
    rw [← Nat.shiftLeft_add_eq_or_of_lt hd, Nat.shiftLeft_eq]
  have hmiddle : b.toNat <<< 16 ||| (c.toNat * 2 ^ 8 + d.toNat) =
      b.toNat * 2 ^ 16 + (c.toNat * 2 ^ 8 + d.toNat) := by
    rw [← Nat.shiftLeft_add_eq_or_of_lt (by omega), Nat.shiftLeft_eq]
  change a.toNat <<< 24 ||| (b.toNat <<< 16 ||| (c.toNat <<< 8 ||| d.toNat)) = _
  rw [hlow, hmiddle, ← Nat.shiftLeft_add_eq_or_of_lt (by omega), Nat.shiftLeft_eq]

/-- The four octets of a word are its bits. -/
theorem octetBits_word (a b c d : UInt8) :
    octetBits [a, b, c, d] = bits 32 (wordOf a b c d).toNat := by
  have hb := b.toNat_lt
  have hc := c.toNat_lt
  have hd := d.toNat_lt
  rw [octetBits_cons, octetBits_cons, octetBits_cons, octetBits_cons, octetBits_nil,
    List.append_nil, bits_append _ _ hd, bits_append _ _ (by omega), bits_append _ _ (by omega),
    toNat_wordOf]

theorem wordOf_octetBits (a b c d : UInt8) :
    Sha1.wordOf (octetBits [a, b, c, d]) = (wordOf a b c d).toBitVec := by
  rw [octetBits_word, Sha1.wordOf, value_bits]
  apply BitVec.eq_of_toNat_eq
  simp

/-- The words of a block are those of its bits. -/
theorem blockWords_eq {k : ℕ} {block : Bytes} (h : block.length = 4 * k) :
    (blockWords block).map UInt32.toBitVec = Sha1.wordsOf (octetBits block) := by
  induction k generalizing block with
  | zero =>
      obtain rfl := List.length_eq_zero_iff.mp h
      rfl
  | succ k ih =>
      match block, h with
      | a :: b :: c :: d :: rest, h =>
          have hrest : rest.length = 4 * k := by
            simp only [List.length_cons] at h
            omega
          have hfour : a :: b :: c :: d :: rest = [a, b, c, d] ++ rest := rfl
          rw [blockWords, List.map_cons, ih hrest, hfour, octetBits_append,
            Sha1.wordsOf_append (by simp), wordOf_octetBits]

/-! ## The schedule -/

/-- Each pass adds the next word of the schedule. -/
theorem extendWords_eq {block : List Sha1.Word} {words : List UInt32} {n k : ℕ} (hk : 16 ≤ k)
    (h : words.map UInt32.toBitVec = ((List.range k).map (Sha1.W block)).reverse) :
    (extendWords n words).map UInt32.toBitVec =
      ((List.range (k + n)).map (Sha1.W block)).reverse := by
  induction n generalizing words k with
  | zero => exact h
  | succ n ih =>
      have hword : ∀ i j, i + j + 1 = k → (words.getD j 0).toBitVec = Sha1.W block i := by
        intro i j hij
        have hj : j < ((List.range k).map (Sha1.W block)).reverse.length := by
          simp only [List.length_reverse, List.length_map, List.length_range]
          omega
        have hback : k - 1 - j = i := by omega
        have hmap : (words.map UInt32.toBitVec).getD j 0 = (words.getD j 0).toBitVec :=
          List.getD_map words 0 UInt32.toBitVec
        rw [← hmap, h, List.getD_eq_getElem _ _ hj]
        simp only [List.getElem_reverse, List.getElem_map, List.getElem_range, List.length_map,
          List.length_range, hback]
      have hnext : (rotateLeft (words.getD 2 0 ^^^ words.getD 7 0 ^^^ words.getD 13 0 ^^^
          words.getD 15 0) 1).toBitVec = Sha1.W block k := by
        rw [toBitVec_rotateLeft_one, UInt32.toBitVec_xor, UInt32.toBitVec_xor, UInt32.toBitVec_xor,
          hword (k - 3) 2 (by omega), hword (k - 8) 7 (by omega), hword (k - 14) 13 (by omega),
          hword (k - 16) 15 (by omega), Sha1.W_of_le hk]
      have hsucc : k + (n + 1) = k + 1 + n := by omega
      rw [extendWords, hsucc]
      apply ih (Nat.le_succ_of_le hk)
      rw [List.map_cons, h, hnext, List.range_succ, List.map_append, List.reverse_append]
      rfl

/-- The eighty words of a block. -/
theorem schedule_eq {block : Bytes} (h : block.length = 64) :
    (extendWords 64 (blockWords block).reverse).reverse.map UInt32.toBitVec =
      (List.range' 0 80).map (Sha1.W (Sha1.wordsOf (octetBits block))) := by
  have hwords := blockWords_eq (k := 16) h
  have hcount : (Sha1.wordsOf (octetBits block)).length = 16 := by
    rw [Sha1.wordsOf, List.length_map, groups_length, octetBits_length, h]
  have hfirst : (blockWords block).reverse.map UInt32.toBitVec =
      ((List.range 16).map (Sha1.W (Sha1.wordsOf (octetBits block)))).reverse := by
    rw [List.map_reverse, hwords]
    congr 1
    apply List.ext_getElem
    · simp [hcount]
    · intro t ht _
      rw [List.getElem_map, List.getElem_range, Sha1.W_of_lt (by omega),
        List.getD_eq_getElem _ _ ht]
  have hall := extendWords_eq (n := 64) (Nat.le_refl 16) hfirst
  rw [List.map_reverse, hall, List.reverse_reverse, List.range_eq_range']

/-! ## Rounds and blocks -/

/-- The words of a digest as registers of the standard. -/
def Digest.registers (s : Digest) : Sha1.Registers :=
  ⟨s.a.toBitVec, s.b.toBitVec, s.c.toBitVec, s.d.toBitVec, s.e.toBitVec⟩

theorem roundTerms_eq (t : ℕ) (b c d : UInt32) :
    (roundTerms t b c d).1.toBitVec = Sha1.f t b.toBitVec c.toBitVec d.toBitVec ∧
      (roundTerms t b c d).2.toBitVec = Sha1.K t := by
  unfold roundTerms Sha1.f Sha1.K
  by_cases h20 : t < 20
  · have h19 : t ≤ 19 := by omega
    simp only [if_pos h20, if_pos h19]
    exact ⟨Sha1.or_eq_ch _ _ _, rfl⟩
  · have h19 : ¬t ≤ 19 := by omega
    simp only [if_neg h20, if_neg h19]
    by_cases h40 : t < 40
    · have h39 : t ≤ 39 := by omega
      simp only [if_pos h40, if_pos h39]
      exact ⟨rfl, rfl⟩
    · have h39 : ¬t ≤ 39 := by omega
      simp only [if_neg h40, if_neg h39]
      by_cases h60 : t < 60
      · have h59 : t ≤ 59 := by omega
        simp only [if_pos h60, if_pos h59]
        exact ⟨Sha1.or_eq_maj _ _ _, rfl⟩
      · have h59 : ¬t ≤ 59 := by omega
        simp only [if_neg h60, if_neg h59]
        exact ⟨rfl, rfl⟩

theorem registers_round (s : Digest) (t : ℕ) {word : UInt32} {W : ℕ → Sha1.Word}
    (h : word.toBitVec = W t) : (s.round t word).registers = Sha1.round W s.registers t := by
  obtain ⟨hf, hk⟩ := roundTerms_eq t s.b s.c s.d
  have hround : s.round t word =
      ⟨rotateLeft s.a 5 + (roundTerms t s.b s.c s.d).1 + s.e + (roundTerms t s.b s.c s.d).2 + word,
        s.a, rotateLeft s.b 30, s.c, s.d⟩ := rfl
  rw [hround, Sha1.round, ← h]
  simp only [Digest.registers, UInt32.toBitVec_add, toBitVec_rotateLeft_five,
    toBitVec_rotateLeft_thirty, hf, hk]

theorem registers_rounds {W : ℕ → Sha1.Word} {words : List UInt32} {t : ℕ} (s : Digest)
    (h : words.map UInt32.toBitVec = (List.range' t words.length).map W) :
    (s.rounds t words).registers = (List.range' t words.length).foldl (Sha1.round W) s.registers := by
  induction words generalizing s t with
  | nil => rfl
  | cons word words ih =>
      rw [List.length_cons, List.range'_succ, List.map_cons, List.map_cons] at h
      obtain ⟨hword, hrest⟩ := List.cons.inj h
      rw [Digest.rounds, ih _ hrest, List.length_cons, List.range'_succ, List.foldl_cons,
        registers_round s t hword]

/-- A block of 64 bytes is compressed as the standard says. -/
theorem registers_addBlock {block : Bytes} (h : block.length = 64) (s : Digest) :
    (s.addBlock block).registers =
      Sha1.compress s.registers (Sha1.wordsOf (octetBits block)) := by
  have hschedule := schedule_eq h
  have hcount : (extendWords 64 (blockWords block).reverse).reverse.length = 80 := by
    simpa using congrArg List.length hschedule
  have hrounds := registers_rounds (t := 0) s (by rw [hcount]; exact hschedule)
  rw [hcount, ← List.range_eq_range'] at hrounds
  rw [Sha1.compress, ← hrounds]
  simp only [Digest.addBlock, Digest.registers, UInt32.toBitVec_add, BitVec.add_comm]

theorem registers_addBlocks {n : ℕ} {message : Bytes} (h : message.length = 64 * n) (s : Digest) :
    (addBlocks n s message).registers =
      ((groups 512 (octetBits message)).map Sha1.wordsOf).foldl Sha1.compress s.registers := by
  induction n generalizing s message with
  | zero =>
      obtain rfl := List.length_eq_zero_iff.mp h
      rfl
  | succ n ih =>
      have hblock : (message.take 64).length = 64 := List.length_take_of_le (by omega)
      have hrest : (message.drop 64).length = 64 * n := by
        rw [List.length_drop]
        omega
      have hbits : octetBits message = octetBits (message.take 64) ++ octetBits (message.drop 64) := by
        rw [← octetBits_append, List.take_append_drop]
      have hwhole : (octetBits (message.take 64)).length = 512 := by rw [octetBits_length, hblock]
      rw [addBlocks, ih hrest, registers_addBlock hblock, hbits, groups_append (by decide) hwhole,
        List.map_cons, List.foldl_cons]

/-! ## Padding and digest -/

/-- The bytes of a number, the highest first, as the shifts of a loop give them. -/
theorem octetBits_byteAt (shifts : List ℕ) (x : ℕ) :
    octetBits (shifts.map (byteAt x)) = shifts.flatMap fun shift => bits 8 (x / 2 ^ shift) := by
  rw [octetBits, List.flatMap_map]
  congr 1
  ext1 shift
  have hbyte : 256 = 2 ^ 8 := rfl
  rw [toNat_byteAt, hbyte, bits_mod 8 _ (Nat.le_refl 8)]

/-- The loop `while (message.size() % 64 != 56)` of `Sha1`, for at most `fuel` passes. -/
def pushZeros : ℕ → Bytes → Bytes
  | 0, message => message
  | fuel + 1, message =>
      if message.length % 64 ≠ 56 then pushZeros fuel (message ++ [0x00]) else message

theorem pushZeros_eq {fuel : ℕ} {message : Bytes} (h : (120 - message.length % 64) % 64 ≤ fuel) :
    pushZeros fuel message =
      message ++ List.replicate ((120 - message.length % 64) % 64) 0x00 := by
  induction fuel generalizing message with
  | zero => rw [Nat.le_zero.mp h, List.replicate_zero, List.append_nil, pushZeros]
  | succ fuel ih =>
      rw [pushZeros]
      split
      · rename_i hopen
        have hlength : (message ++ [(0x00 : UInt8)]).length = message.length + 1 := by
          rw [List.length_append, List.length_singleton]
        have hcount : (120 - message.length % 64) % 64 =
            (120 - (message.length + 1) % 64) % 64 + 1 := by omega
        rw [ih (by rw [hlength]; omega), hlength, hcount, List.replicate_succ, List.append_assoc,
          List.singleton_append]
      · have hnone : (120 - message.length % 64) % 64 = 0 := by omega
        rw [hnone, List.replicate_zero, List.append_nil]

/-- The padded message is what the loop of `Sha1` builds. -/
theorem append_padding (data : Bytes) :
    data ++ padding data.length = pushZeros 64 (data ++ [0x80]) ++
      [56, 48, 40, 32, 24, 16, 8, 0].map (byteAt (data.length * 8)) := by
  have hlength : (data ++ [(0x80 : UInt8)]).length = data.length + 1 := by
    rw [List.length_append, List.length_singleton]
  have hcount : (119 - data.length % 64) % 64 = (120 - (data.length + 1) % 64) % 64 := by omega
  rw [pushZeros_eq (by omega), hlength, padding, hcount]
  simp

theorem octetBits_padding (n : ℕ) :
    octetBits (padding n) =
      true :: List.replicate (Sha1.zeros (8 * n)) false ++ bits 64 (8 * n) := by
  have hfirst : bits 8 (0x80 : UInt8).toNat = true :: List.replicate 7 false := by decide
  have hshifts : [56, 48, 40, 32, 24, 16, 8, 0] = (List.range 8).reverse.map (8 * ·) := by decide
  have hlength : octetBits ([56, 48, 40, 32, 24, 16, 8, 0].map (byteAt (n * 8))) =
      bits 64 (8 * n) := by
    rw [octetBits_byteAt, hshifts, List.flatMap_map, flatMap_bits 8 8, Nat.mul_comm n 8]
  rw [padding, octetBits_append, octetBits_cons, octetBits_replicate_zero, hfirst, hlength,
    Sha1.zeros_octets, List.cons_append, ← List.replicate_add]

/-- The message with its padding is that of the standard. -/
theorem octetBits_message (data : Bytes) :
    octetBits (data ++ padding data.length) = Sha1.pad (octetBits data) := by
  rw [octetBits_append, octetBits_padding, Sha1.pad, octetBits_length, List.append_assoc]

theorem message_length (data : Bytes) :
    (data ++ padding data.length).length =
      64 * ((data ++ padding data.length).length / 64) := by
  simp only [padding, List.length_append, List.length_cons, List.length_replicate, List.length_map,
    List.length_nil]
  omega

theorem octetBits_bytes (s : Digest) : octetBits s.bytes = s.registers.bits := by
  have hword : ∀ w : UInt32, octetBits ([24, 16, 8, 0].map (byteAt w.toNat)) = bits 32 w.toNat := by
    intro w
    have hshifts : [24, 16, 8, 0] = (List.range 4).reverse.map (8 * ·) := by decide
    rw [octetBits_byteAt, hshifts, List.flatMap_map, flatMap_bits 8 4]
  simp only [Digest.bytes, Sha1.Registers.bits, Digest.registers, List.flatMap_cons,
    List.flatMap_nil, octetBits_append, octetBits_nil, hword, UInt32.toNat_toBitVec]

/-- `Sha1` is the hash of FIPS 180-4. -/
theorem sha1_eq (data : Bytes) : sha1 data = Sha1.digest data := by
  have hhash : octetBits (sha1 data) = Sha1.hash (octetBits data) := by
    rw [sha1, octetBits_bytes, registers_addBlocks (message_length data), octetBits_message,
      Sha1.hash]
    rfl
  calc sha1 data = (groups 8 (octetBits (sha1 data))).map (fun bs => UInt8.ofNat (value bs)) :=
        (octets_octetBits _).symm
    _ = Sha1.digest data := by rw [hhash, Sha1.digest]

/-! ## The answer -/

/-- The GUID of RFC 6455, section 1.3. -/
def guid : String := "258EAFA5-E914-47DA-95CA-C5AB0DC85B11"

theorem kWebSocketGuid_eq : kWebSocketGuid = ascii guid.toList := by
  decide

/-- The answer to a key is the Base64 encoding of the SHA-1 hash of the key and the GUID behind it.
Both functions are the standard ones on data of every length. -/
theorem accept_standard :
    (∀ data, sha1 data = Sha1.digest data) ∧
    (∀ data, base64Encode data = ascii (Base64.encode data)) ∧
    ∀ key, computeSecWebSocketAccept key =
      ascii (Base64.encode (Sha1.digest (key ++ ascii guid.toList))) := by
  refine ⟨sha1_eq, base64Encode_eq, ?_⟩
  intro key
  rw [computeSecWebSocketAccept, base64Encode_eq, sha1_eq, kWebSocketGuid_eq]

example : computeSecWebSocketAccept (ascii "dGhlIHNhbXBsZSBub25jZQ==".toList) =
    ascii "s3pPLMBiTxaQ9kYGzzhZRbK+xOo=".toList := by
  decide +kernel

end EspModemLink.WebSocket
