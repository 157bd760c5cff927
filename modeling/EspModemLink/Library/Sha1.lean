import EspModemLink.Library.BitStrings
import Mathlib.Data.Nat.Find

/-!
# SHA-1

The hash of FIPS 180-4 over strings of bits, with the standard's names. The standard knows messages
of fewer than `2 ^ 64` bits; of a longer one the padding here shows the lowest bits of the length.
-/

namespace Sha1

open BitStrings

/-- A word of 32 bits. -/
abbrev Word := BitVec 32

/-! ## Padding and parsing, section 5 -/

theorem exists_zeros (l : ℕ) : ∃ k, (l + 1 + k) % 512 = 448 := ⟨(959 - l % 512) % 512, by omega⟩

/-- The smallest `k` that solves `l + 1 + k = 448` modulo 512. -/
def zeros (l : ℕ) : ℕ := Nat.find (exists_zeros l)

def pad (message : List Bool) : List Bool :=
  message ++ true :: List.replicate (zeros message.length) false ++ bits 64 message.length

def wordOf (bs : List Bool) : Word := BitVec.ofNat 32 (value bs)

/-- The words of a block of 512 bits. -/
def wordsOf (block : List Bool) : List Word := (groups 32 block).map wordOf

/-! ## Functions and constants, section 4 -/

def ch (x y z : Word) : Word := (x &&& y) ^^^ (~~~x &&& z)

def parity (x y z : Word) : Word := x ^^^ y ^^^ z

def maj (x y z : Word) : Word := (x &&& y) ^^^ (x &&& z) ^^^ (y &&& z)

def f (t : ℕ) : Word → Word → Word → Word :=
  if t ≤ 19 then ch
  else if t ≤ 39 then parity
  else if t ≤ 59 then maj
  else parity

def K (t : ℕ) : Word :=
  if t ≤ 19 then 0x5a827999
  else if t ≤ 39 then 0x6ed9eba1
  else if t ≤ 59 then 0x8f1bbcdc
  else 0xca62c1d6

/-! ## The hash, section 6.1 -/

/-- The five working variables, and the five words of a hash value. -/
structure Registers where
  a : Word
  b : Word
  c : Word
  d : Word
  e : Word
deriving DecidableEq

def initial : Registers := ⟨0x67452301, 0xefcdab89, 0x98badcfe, 0x10325476, 0xc3d2e1f0⟩

/-- The message schedule. -/
def W (block : List Word) (t : ℕ) : Word :=
  if t < 16 then block.getD t 0
  else (W block (t - 3) ^^^ W block (t - 8) ^^^ W block (t - 14) ^^^ W block (t - 16)).rotateLeft 1
termination_by t

def round (schedule : ℕ → Word) (r : Registers) (t : ℕ) : Registers :=
  ⟨r.a.rotateLeft 5 + f t r.b r.c r.d + r.e + K t + schedule t, r.a, r.b.rotateLeft 30, r.c, r.d⟩

/-- The hash value behind one more block. -/
def compress (h : Registers) (block : List Word) : Registers :=
  let r := (List.range 80).foldl (round (W block)) h
  ⟨r.a + h.a, r.b + h.b, r.c + h.c, r.d + h.d, r.e + h.e⟩

def Registers.bits (h : Registers) : List Bool :=
  [h.a, h.b, h.c, h.d, h.e].flatMap fun w => BitStrings.bits 32 w.toNat

def hash (message : List Bool) : List Bool :=
  (((groups 512 (pad message)).map wordsOf).foldl compress initial).bits

/-- The hash of octets as octets. -/
def digest (octets : List UInt8) : List UInt8 :=
  (groups 8 (hash (octetBits octets))).map fun bs => UInt8.ofNat (value bs)

/-! ## Forms for an implementation -/

theorem zeros_octets (n : ℕ) : zeros (8 * n) = 7 + 8 * ((119 - n % 64) % 64) := by
  rw [zeros, Nat.find_eq_iff]
  constructor
  · omega
  · intro k hk
    omega

/-- A whole word in front is the first one. -/
theorem wordsOf_append {bs : List Bool} (h : bs.length = 32) (more : List Bool) :
    wordsOf (bs ++ more) = wordOf bs :: wordsOf more := by
  rw [wordsOf, groups_append (by decide) h, List.map_cons, wordsOf]

theorem W_of_lt {block : List Word} {t : ℕ} (h : t < 16) : W block t = block.getD t 0 := by
  rw [W, if_pos h]

theorem W_of_le {block : List Word} {t : ℕ} (h : 16 ≤ t) :
    W block t = (W block (t - 3) ^^^ W block (t - 8) ^^^ W block (t - 14) ^^^
      W block (t - 16)).rotateLeft 1 := by
  rw [W, if_neg (by omega)]

/-- The two parts of `ch` have no bit in common. -/
theorem or_eq_ch (x y z : Word) : (x &&& y) ||| (~~~x &&& z) = ch x y z := by
  ext i
  simp only [ch, BitVec.getElem_or, BitVec.getElem_xor, BitVec.getElem_and, BitVec.getElem_not]
  cases x[i] <;> simp

theorem or_eq_maj (x y z : Word) : (x &&& y) ||| (x &&& z) ||| (y &&& z) = maj x y z := by
  ext i
  simp only [maj, BitVec.getElem_or, BitVec.getElem_xor, BitVec.getElem_and]
  cases x[i] <;> cases y[i] <;> simp

end Sha1
