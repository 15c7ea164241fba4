import RegistryTree.Number.Binary64
import RegistryTree.Text.Blank
import RegistryTree.Text.Case
import RegistryTree.Text.Digit
import RegistryTree.Text.Quoted

/-!
# Numerals

Reading a number from a text that should hold nothing else. White space around the numeral, a sign
in front and decimal digits of every script are admitted; everything else, the control characters
that separate fields included, is a fault that says what could not be read.

> `NumeralFault.message`: the words a fault is reported with.
-/

namespace RegistryTree.Number

open RegistryTree.Text

/-- Why a text is no numeral. -/
inductive NumeralFault where
  /-- The text is no whole number in the given base. -/
  | notInteger (base : Nat) (text : List Char)
  /-- The numeral has more decimal digits than are converted. -/
  | tooLong (digits : Nat)
  /-- The text is no decimal number. -/
  | notDecimal (text : List Char)
  deriving DecidableEq, Repr

/-- The largest number of decimal digits that is converted to or from a whole number. -/
def digitLimit : Nat := 4300

/-- The characters of a text that a message about a whole number shows. -/
def shownLength : Nat := 200

/-- The words that tell that a number has too many digits; the count is given where it is known. -/
def digitLimitMessage (digits : Option Nat) : String :=
  let count := match digits with
    | some n => ": value has " ++ toString n ++ " digits"
    | none => ""
  "Exceeds the limit (" ++ toString digitLimit ++ " digits) for integer string conversion" ++
    count ++ "; use sys.set_int_max_str_digits() to increase the limit"

/-- The words a fault is reported with. -/
def NumeralFault.message : NumeralFault → String
  | .notInteger base text =>
    "invalid literal for int() with base " ++ toString base ++ ": " ++
      String.ofList ((quoteChars text).take shownLength)
  | .tooLong digits => digitLimitMessage (some digits)
  | .notDecimal text => "could not convert string to float: " ++ String.ofList (quoteChars text)

/-- Whether a character may stand around a numeral: white space, but for the separators of
fields. -/
def surroundsNumeral (c : Char) : Bool :=
  isBlank c && !(0x1C ≤ c.toNat && c.toNat ≤ 0x1F)

/-- A character as it counts in a numeral: a decimal digit of any script as the ASCII digit. -/
def plainDigit (c : Char) : Char :=
  match digit? c with
  | some d => Char.ofNat (0x30 + d)
  | none => c

/-- A text as it counts as a numeral: without the white space around it, and in ASCII digits. -/
def plainNumeral (text : List Char) : List Char :=
  (trimWith surroundsNumeral text).map plainDigit

/-- A sign at the front of a text: whether it is a minus, and the text after it. -/
def splitSign : List Char → Bool × List Char
  | '-' :: rest => (true, rest)
  | '+' :: rest => (false, rest)
  | rest => (false, rest)

/-- The value of a digit of any base up to sixteen. -/
def baseDigit? (base : Nat) (c : Char) : Option Nat := (hexValue? c).filter (· < base)

/-- The letter that announces a base. -/
def baseLetter? : Nat → Option Char
  | 2 => some 'b'
  | 8 => some 'o'
  | 16 => some 'x'
  | _ => none

/-- The text after the announcement of a base, where there is one. -/
def dropBase (base : Nat) : List Char → List Char
  | '0' :: c :: rest =>
    if (baseLetter? base).any (fun l => l = c || l.toUpper = c) then rest else '0' :: c :: rest
  | s => s

/-- Reads a whole number in a base. -/
def readInteger (base : Nat) (text : List Char) : Except NumeralFault Int :=
  let (minus, rest) := splitSign (plainNumeral text)
  let body := dropBase base rest
  let digits := body.takeWhile fun c => (baseDigit? base c).isSome
  if base = 10 ∧ digitLimit < digits.length then .error (.tooLong digits.length)
  else if digits = [] ∨ digits.length < body.length then .error (.notInteger base text)
  else
    let n : Nat := digits.foldl (fun n c => base * n + (baseDigit? base c).getD 0) 0
    .ok (if minus then -n else n)

/-- A run of decimal digits at the front of a text, and the text after it. -/
def spanDigits (s : List Char) : List Char × List Char := s.span isDigit

/-- The exponent at the front of a text, which must then be at its end. -/
def exponent? : List Char → Option Int
  | [] => some 0
  | c :: rest =>
    if c = 'e' ∨ c = 'E' then
      let (minus, rest) := splitSign rest
      let (ds, rest) := spanDigits rest
      if ds ≠ [] ∧ rest = [] then
        some (if minus then -(digitsValue ds : Int) else digitsValue ds)
      else none
    else none

/-- Reads a decimal without its sign. -/
def unsignedDecimal? (minus : Bool) (s : List Char) : Option Binary64 :=
  let (whole, rest) := spanDigits s
  let (places, rest) := match rest with
    | '.' :: more => spanDigits more
    | _ => ([], rest)
  if whole = [] ∧ places = [] then none
  else (exponent? rest).map fun e =>
    Binary64.ofDecimal minus (digitsValue (whole ++ places)) (e - places.length)

/-- Reads a decimal number, an infinity or the sign for no number. -/
def readDecimal (text : List Char) : Except NumeralFault Binary64 :=
  let (minus, rest) := splitSign (plainNumeral text)
  let word := String.ofList (lower rest)
  if word = "inf" ∨ word = "infinity" then .ok (Binary64.infinity minus)
  else if word = "nan" then .ok Binary64.nan
  else match unsignedDecimal? minus rest with
    | some x => .ok x
    | none => .error (.notDecimal text)

/-- The decimal numeral of a whole number, unless it would have too many digits. -/
def integerText? (n : Int) : Option (List Char) :=
  let digits := Nat.toDigits 10 n.natAbs
  if digitLimit < digits.length then none
  else some (if n < 0 then '-' :: digits else digits)

end RegistryTree.Number
