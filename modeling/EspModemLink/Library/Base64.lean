import EspModemLink.Library.BitStrings

/-!
# Base64

The encoding of RFC 4648, section 4: the bits of the octets in groups of 24, each group as four
characters of six bits.
-/

namespace Base64

open BitStrings

/-- Table 1 of the RFC. -/
def symbol (v : ℕ) : Char :=
  if v < 26 then Char.ofNat (65 + v)
  else if v < 52 then Char.ofNat (97 + (v - 26))
  else if v < 62 then Char.ofNat (48 + (v - 52))
  else if v = 62 then '+'
  else '/'

/-- Zero bits that make a group a whole number of characters. -/
def fill (group : List Bool) : List Bool :=
  group ++ List.replicate ((6 - group.length % 6) % 6) false

/-- The characters of a group, with `=` in place of those that the last group has no bits for. -/
def encodeGroup (group : List Bool) : List Char :=
  let symbols := (groups 6 (fill group)).map fun bits => symbol (value bits)
  symbols ++ List.replicate (4 - symbols.length) '='

def encode (octets : List UInt8) : List Char := (groups 24 (octetBits octets)).flatMap encodeGroup

/-- The characters of `k` times six bits, with zeros behind them where there were less. -/
theorem encodeGroup_bits {w k x z : ℕ} (hfill : (6 - w % 6) % 6 = z)
    (hw : w + z = 6 * k) :
    encodeGroup (bits w x) =
      ((List.range k).reverse.map fun i => symbol (x * 2 ^ z / 64 ^ i % 64)) ++
        List.replicate (4 - k) '=' := by
  have hbits : fill (bits w x) = bits (6 * k) (x * 2 ^ z) := by
    rw [fill, bits_length, hfill, ← bits_zero, bits_append _ _ (Nat.two_pow_pos z), hw,
      Nat.add_zero]
  have hsymbols : (groups 6 (fill (bits w x))).map (fun bits => symbol (value bits)) =
      (List.range k).reverse.map fun i => symbol (x * 2 ^ z / 64 ^ i % 64) := by
    rw [hbits, groups_bits (by decide), List.map_map]
    apply List.map_congr_left
    intro i _
    rw [Function.comp_apply, value_bits, Nat.pow_mul]
    rfl
  rw [encodeGroup, hsymbols]
  simp

/-- Three octets in front are encoded on their own. -/
theorem encode_append {octets : List UInt8} (h : octets.length = 3) (more : List UInt8) :
    encode (octets ++ more) = encodeGroup (octetBits octets) ++ encode more := by
  have hlength : (octetBits octets).length = 24 := by rw [octetBits_length, h]
  rw [encode, octetBits_append, groups_append (by decide) hlength, List.flatMap_cons, encode]

/-- Fewer octets are one group. -/
theorem encode_of_le {octets : List UInt8} (hpos : 0 < octets.length) (h : octets.length ≤ 3) :
    encode octets = encodeGroup (octetBits octets) := by
  have hlength := octetBits_length octets
  rw [encode, groups_singleton (by omega) (by omega), List.flatMap_singleton]

end Base64
