/-!
# Binary floating-point numbers

A number of the 64-bit binary format, kept as its bits, so that two numbers are the same exactly
when they are written alike. A finite number is `m · 2 ^ q` for naturals `m` and integers `q`, up to
its sign; `ofRatio` goes the other way and rounds a quotient of naturals to the nearest number, a
tie to the even one.
-/

namespace RegistryTree.Number

/-- A number of the 64-bit binary format. -/
structure Binary64 where
  bits : UInt64
  deriving DecidableEq, Repr

namespace Binary64

/-- The bit of the sign, `2 ^ 63`. -/
def signBit : Nat := 0x8000000000000000

/-- The bit that a normal number has in front of its fraction, `2 ^ 52`. -/
def leadBit : Nat := 0x10000000000000

/-- Whether the sign bit is set. -/
def negative (x : Binary64) : Bool := x.bits.toNat / signBit = 1

/-- The exponent field. -/
def exponentField (x : Binary64) : Nat := x.bits.toNat / leadBit % 2048

/-- The fraction field. -/
def fraction (x : Binary64) : Nat := x.bits.toNat % leadBit

/-- Whether the number is one of those that are not a number. -/
def isNaN (x : Binary64) : Bool := x.exponentField = 2047 && x.fraction ≠ 0

/-- Whether the number is an infinity. -/
def isInfinite (x : Binary64) : Bool := x.exponentField = 2047 && x.fraction = 0

/-- Whether the number is a zero. -/
def isZero (x : Binary64) : Bool := x.exponentField = 0 && x.fraction = 0

/-- The `m` of the value `m · 2 ^ q` of a finite number without its sign. -/
def significand (x : Binary64) : Nat :=
  if x.exponentField = 0 then x.fraction else x.fraction + leadBit

/-- The `q` of the value `m · 2 ^ q` of a finite number. -/
def exponent (x : Binary64) : Int :=
  if x.exponentField = 0 then -1074 else (x.exponentField : Int) - 1075

/-- The number with the given fields. -/
def ofFields (negative : Bool) (exponentField fraction : Nat) : Binary64 :=
  ⟨UInt64.ofNat ((if negative then signBit else 0) + exponentField * leadBit + fraction)⟩

/-- The infinity of a sign. -/
def infinity (negative : Bool) : Binary64 := ofFields negative 2047 0

/-- The zero of a sign. -/
def zero (negative : Bool) : Binary64 := ofFields negative 0 0

/-- A number that stands for no number. -/
def nan : Binary64 := ofFields false 2047 (leadBit / 2)

/-- The number that stands for no number and bears a mark by which it is known again. -/
def markedNaN (mark : Nat) : Binary64 := ofFields false 2047 (leadBit / 2 + 1 + mark)

/-- The mark of a number that stands for no number, if it bears one. -/
def mark? (x : Binary64) : Option Nat :=
  if x.isNaN ∧ leadBit / 2 < x.fraction then some (x.fraction - leadBit / 2 - 1) else none

/-- The number with the other sign. -/
def neg (x : Binary64) : Binary64 := ofFields (!x.negative) x.exponentField x.fraction

/-- The quotient of naturals rounded to a natural, a tie to the even one. -/
def roundDiv (num den : Nat) : Nat :=
  let q := num / den
  let r := num % den
  if 2 * r < den then q else if den < 2 * r then q + 1 else if q % 2 = 0 then q else q + 1

/-- `num / den` times `2 ^ shift` as a quotient of naturals. -/
def scaled (num den : Nat) (shift : Int) : Nat × Nat :=
  if shift < 0 then (num, den * Nat.pow 2 (-shift).toNat) else (num * Nat.pow 2 shift.toNat, den)

/-- The power of two in front of a quotient that leaves it a significand of 53 bits; never below
the least exponent of the format. -/
def ratioExponent (num den : Nat) : Int :=
  let guess : Int := (num.log2 : Int) - (den.log2 : Int) - 53
  let (n, d) := scaled num den (-guess)
  max (-1074) (if n / d < 2 * leadBit then guess else guess + 1)

/-- The number nearest to `num / den`, a tie going to the even one. -/
def ofRatio (negative : Bool) (num den : Nat) : Binary64 :=
  if num = 0 then zero negative
  else
    let q := ratioExponent num den
    let (n, d) := scaled num den (-q)
    let m := roundDiv n d
    -- rounding up can carry into a bit more
    let (m, q) := if m = 2 * leadBit then (leadBit, q + 1) else (m, q)
    if m < leadBit then ofFields negative 0 m
    else if q > 971 then infinity negative
    else ofFields negative (q + 1075).toNat (m - leadBit)

/-- The number nearest to `digits · 10 ^ power`. Powers far outside the format's range are settled
without computing them. -/
def ofDecimal (negative : Bool) (digits : Nat) (power : Int) : Binary64 :=
  if digits = 0 then zero negative
  else
    -- ten to the `3 / 10` is less than two, so the digits are worth at least this power of ten
    let top : Int := (digits.log2 * 3 / 10 : Nat) + power
    if top > 400 then infinity negative
    else if (digits.log2 : Int) + power < -400 then zero negative
    else if power < 0 then ofRatio negative digits (Nat.pow 10 (-power).toNat)
    else ofRatio negative (digits * Nat.pow 10 power.toNat) 1

/-- The sum, rounded as the format's arithmetic rounds. -/
def add (x y : Binary64) : Binary64 :=
  ⟨(Float.ofBits x.bits + Float.ofBits y.bits).toBits⟩

/-- The product, rounded as the format's arithmetic rounds. -/
def mul (x y : Binary64) : Binary64 :=
  ⟨(Float.ofBits x.bits * Float.ofBits y.bits).toBits⟩

/-- The whole part of a finite number without its sign. -/
def whole (x : Binary64) : Nat :=
  if x.exponent < 0 then x.significand / Nat.pow 2 (-x.exponent).toNat
  else x.significand * Nat.pow 2 x.exponent.toNat

/-- How many times the least positive number goes into one. -/
def scale : Nat := Nat.pow 2 1074

/-- The value of a finite number, times `scale`: an integer that orders the finite numbers. -/
def scaledValue (x : Binary64) : Int :=
  let m : Int := x.significand * Nat.pow 2 (x.exponent + 1074).toNat
  if x.negative then -m else m

end Binary64

end RegistryTree.Number
