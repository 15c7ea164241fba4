import RegistryTree.Number.Binary64

/-!
# The shortest decimal

The text of a finite number has the fewest digits that read back as the number; of several
decimals of that length the nearest is taken, and of two equally near ones the even one. The point
is written in place for the exponents from `-4` to `15` and the decimal is written with an exponent
of at least two digits otherwise. A whole number keeps the digit zero after its point.
-/

namespace RegistryTree.Number.Binary64

/-- A decimal `digits · 10 ^ power`. -/
structure Decimal where
  digits : Nat
  power : Int
  deriving DecidableEq, Repr

/-- Twice the value of a number and the ends of the interval that rounds to it, as multiples of
`2 ^ (exponent - 2)`; the ends count exactly when the significand is even. -/
def interval (x : Binary64) : Nat × Nat × Nat :=
  let m := 4 * x.significand
  -- the number below a power of two is only half as far away as the one above
  let below := if x.fraction = 0 ∧ 1 < x.exponentField then 1 else 2
  (m - below, m, m + 2)

/-- `n · 2 ^ q` and `10 ^ p` over a common unit: the first is `a / b` of the second. -/
def overPower (n : Nat) (q p : Int) : Nat × Nat :=
  (n * Nat.pow 2 q.toNat * Nat.pow 10 (-p).toNat, Nat.pow 2 (-q).toNat * Nat.pow 10 p.toNat)

/-- Whether `k · 10 ^ p` lies in the interval of the number. -/
def holds (x : Binary64) (k : Nat) (p : Int) : Bool :=
  let (low, _, high) := x.interval
  let q := x.exponent - 2
  let (ln, ld) := overPower low q p
  let (hn, hd) := overPower high q p
  if x.significand % 2 = 0 then ln ≤ k * ld && k * hd ≤ hn
  else ln < k * ld && k * hd < hn

/-- The decimal with unit `10 ^ p` that reads back as the number and is nearest to it, if any. -/
def onGrid? (x : Binary64) (p : Int) : Option Decimal :=
  let (n, d) := overPower x.interval.2.1 (x.exponent - 2) p
  let k := n / d
  let r := n % d
  -- a point of the grid can only read back when one of the two neighbours of the number does
  let down := 0 < k && x.holds k p
  let up := x.holds (k + 1) p
  if down && up then
    some (if 2 * r < d then ⟨k, p⟩
      else if d < 2 * r then ⟨k + 1, p⟩
      else if k % 2 = 0 then ⟨k, p⟩ else ⟨k + 1, p⟩)
  else if down then some ⟨k, p⟩
  else if up then some ⟨k + 1, p⟩
  else none

/-- The number of decimal digits. -/
def countDigits (n : Nat) : Nat := (Nat.toDigits 10 n).length

/-- The exponent of the first decimal digit of a finite number other than zero. -/
def leading (x : Binary64) : Int :=
  let (n, d) := overPower x.significand x.exponent 0
  if d ≤ n then countDigits (n / d) - 1
  else
    let k := countDigits (d / n) - 1
    if d ≤ n * Nat.pow 10 k then -k else -(k + 1)

/-- The shortest decimal of a finite number other than zero: the coarsest grid that has a point in
the number's interval. Seventeen digits always do. -/
def shortest (x : Binary64) : Decimal :=
  let top := x.leading
  ((List.range 17).findSome? fun n : Nat => x.onGrid? (top - (n : Int))).getD ⟨0, 0⟩

/-- The digits of a decimal without the zeros at its end, and the exponent of its first digit. -/
def Decimal.normal (d : Decimal) : List Char × Int :=
  let cs := Nat.toDigits 10 d.digits
  let kept := (cs.reverse.dropWhile (· = '0')).reverse
  (kept, d.power + cs.length - 1)

/-- An exponent, with its sign and at least two digits. -/
def exponentText (e : Int) : List Char :=
  let ds := Nat.toDigits 10 e.natAbs
  (if e < 0 then '-' else '+') :: (if ds.length < 2 then '0' :: ds else ds)

/-- The text of a finite number other than zero without its sign. -/
def positiveText (x : Binary64) : List Char :=
  let (ds, e) := x.shortest.normal
  if -4 ≤ e ∧ e < 0 then
    ['0', '.'] ++ List.replicate (-e - 1).toNat '0' ++ ds
  else if 0 ≤ e ∧ e < 16 then
    let whole := e.toNat + 1
    if ds.length ≤ whole then ds ++ List.replicate (whole - ds.length) '0' ++ ['.', '0']
    else ds.take whole ++ '.' :: ds.drop whole
  else
    match ds with
    | [] => []
    | [d] => d :: 'e' :: exponentText e
    | d :: more => d :: '.' :: more ++ 'e' :: exponentText e

/-- The text of a number. -/
def toText (x : Binary64) : List Char :=
  if x.isNaN then "nan".toList
  else
    let body := if x.isInfinite then "inf".toList
      else if x.isZero then "0.0".toList
      else x.positiveText
    if x.negative then '-' :: body else body

end RegistryTree.Number.Binary64
