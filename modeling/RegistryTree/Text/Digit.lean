/-!
# Digits

The decimal digits of Unicode come in runs of ten, from a zero to a nine; `digit?` reads the value
of a character of any of these runs. Hexadecimal numerals are of ASCII digits and letters; those of
a fixed width stand in the escapes of quoted text.

> `hexNumeral`, `hexRead?`: writing and reading hexadecimal numerals.
-/

namespace RegistryTree.Text

/-- The zeros of the runs of decimal digits, in ascending order. -/
def digitZeros : List Nat := [
  0x30, 0x660, 0x6F0, 0x7C0, 0x966, 0x9E6, 0xA66, 0xAE6, 0xB66, 0xBE6, 0xC66, 0xCE6, 0xD66, 0xDE6,
  0xE50, 0xED0, 0xF20, 0x1040, 0x1090, 0x17E0, 0x1810, 0x1946, 0x19D0, 0x1A80, 0x1A90, 0x1B50,
  0x1BB0, 0x1C40, 0x1C50, 0xA620, 0xA8D0, 0xA900, 0xA9D0, 0xA9F0, 0xAA50, 0xABF0, 0xFF10, 0x104A0,
  0x10D30, 0x11066, 0x110F0, 0x11136, 0x111D0, 0x112F0, 0x11450, 0x114D0, 0x11650, 0x116C0,
  0x11730, 0x118E0, 0x11950, 0x11C50, 0x11D50, 0x11DA0, 0x16A60, 0x16AC0, 0x16B50, 0x1D7CE,
  0x1D7D8, 0x1D7E2, 0x1D7EC, 0x1D7F6, 0x1E140, 0x1E2F0, 0x1E950, 0x1FBF0]

/-- The number that a decimal digit stands for. -/
def digit? (c : Char) : Option Nat :=
  (digitZeros.find? fun z => z ≤ c.toNat && c.toNat < z + 10).map (c.toNat - ·)

/-- Whether a character is a decimal digit. -/
def isDigit (c : Char) : Bool := (digit? c).isSome

/-- The value of a run of digits, most significant first; a character that is no digit counts as
nothing. -/
def digitsValue (s : List Char) : Nat :=
  s.foldl (fun n c => 10 * n + (digit? c).getD 0) 0

/-! ## Hexadecimal numerals -/

/-- The letters after the nine may be written large or small. -/
inductive LetterCase where
  | lower
  | upper
  deriving DecidableEq

/-- The hexadecimal digit of a number below sixteen. -/
def hexDigit (letters : LetterCase) (n : Nat) : Char :=
  if n < 10 then Char.ofNat (0x30 + n)
  else match letters with
    | .lower => Char.ofNat (0x57 + n)
    | .upper => Char.ofNat (0x37 + n)

/-- The last `width` hexadecimal digits of a number. -/
def hexNumeral (letters : LetterCase) : Nat → Nat → List Char
  | 0, _ => []
  | width + 1, n => hexNumeral letters width (n / 16) ++ [hexDigit letters (n % 16)]

/-- The value of a hexadecimal digit of either letter case. -/
def hexValue? (c : Char) : Option Nat :=
  let n := c.toNat
  if 0x30 ≤ n ∧ n ≤ 0x39 then some (n - 0x30)
  else if 0x41 ≤ n ∧ n ≤ 0x46 then some (n - 0x37)
  else if 0x61 ≤ n ∧ n ≤ 0x66 then some (n - 0x57)
  else none

/-- The value of a run of hexadecimal digits, or `none` if some character is no such digit. -/
def hexRead? (s : List Char) : Option Nat :=
  s.foldlM (fun n c => (hexValue? c).map (16 * n + ·)) 0

end RegistryTree.Text
