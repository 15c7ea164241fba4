import RegistryTree.Yaml.Character
import RegistryTree.Yaml.Tag

/-!
# The types of untagged scalars

A plain scalar without a tag has the type that its form shows: the words for truth values and for
nothing, whole numbers in four notations and in groups of sixty, decimal numbers with a point, days
and moments, and three signs with a meaning of their own. Everything else is text.

The forms are given by recognisers: a `Form` takes the part of a text that it can and leaves the
rest in every way in which it can be left, so that forms can be put in a row.

> `Form.mem_seq`: what is left behind two forms in a row is what the second leaves behind the first.
> `Form.tagOf_empty`: the empty scalar stands for nothing.
-/

namespace RegistryTree.Yaml

/-- What is left of a text behind each of its beginnings that has the form. -/
abbrev Form := List Char → List (List Char)

namespace Form

/-- One character of a class. -/
def one (p : Char → Bool) : Form
  | c :: rest => if p c then [rest] else []
  | [] => []

/-- Any number of characters of a class, as many as there are first. -/
def many (p : Char → Bool) : Form
  | [] => [[]]
  | c :: rest => if p c then many p rest ++ [c :: rest] else [c :: rest]

/-- One form and then another. -/
def seq (f g : Form) : Form := fun s => (f s).flatMap g

/-- Forms in a row. -/
def row (fs : List Form) : Form := fs.foldr seq fun s => [s]

/-- One form or nothing. -/
def opt (f : Form) : Form := fun s => f s ++ [s]

/-- One of several forms. -/
def alt (fs : List Form) : Form := fun s => fs.flatMap fun f => f s

theorem mem_seq {f g : Form} {s rest : List Char} :
    rest ∈ seq f g s ↔ ∃ between ∈ f s, rest ∈ g between := List.mem_flatMap

theorem mem_opt {f : Form} {s rest : List Char} : rest ∈ opt f s ↔ rest ∈ f s ∨ rest = s := by
  simp [opt]

theorem mem_alt {fs : List Form} {s rest : List Char} :
    rest ∈ alt fs s ↔ ∃ f ∈ fs, rest ∈ f s := List.mem_flatMap

/-- At least one character of a class. -/
def some1 (p : Char → Bool) : Form := seq (one p) (many p)

/-- Any number of occurrences of a form that takes at least one character. -/
def star (f : Form) : Form := fun s =>
  let rec go : Nat → List Char → List (List Char)
    | 0, s => [s]
    | fuel + 1, s => (f s).flatMap (go fuel) ++ [s]
  go s.length s

/-- A given text. -/
def lit (t : String) : Form := fun s =>
  if t.toList.isPrefixOf s then [s.drop t.toList.length] else []

/-- Whether a whole text has a form; a line feed may be left at its end. -/
def accepts (f : Form) (s : List Char) : Bool :=
  (f s).any fun rest => rest = [] || rest = ['\n']

/-- The decimal digits. -/
def digit : Char → Bool := Char.isDigit

/-- A digit or the sign that groups digits. -/
def digitOrBar (c : Char) : Bool := digit c || c = '_'

/-- A sign in front of a number. -/
def sign : Form := opt (one fun c => c = '-' || c = '+')

/-- Between one and so many digits. -/
def upTo : Nat → Form
  | 0 => fun s => [s]
  | n + 1 => seq (one digit) (if n = 0 then fun s => [s] else opt (upTo n))

/-- The words for truth values. -/
def boolWords : List String := [
  "yes", "Yes", "YES", "no", "No", "NO", "true", "True", "TRUE", "false", "False", "FALSE",
  "on", "On", "ON", "off", "Off", "OFF"]

/-- The words for nothing. -/
def nullWords : List String := ["~", "null", "Null", "NULL", ""]

/-- The exponent of a decimal number, which must have a sign. -/
def exponent : Form :=
  row [one fun c => c = 'e' || c = 'E', one fun c => c = '-' || c = '+', some1 digit]

/-- One more group of a number in groups of sixty. -/
def sixtyGroup : Form :=
  row [one (· = ':'), opt (one fun c => '0' ≤ c && c ≤ '5'), one digit]

/-- A decimal number. -/
def float : Form := alt [
  row [sign, one digit, many digitOrBar, one (· = '.'), many digitOrBar, opt exponent],
  row [one (· = '.'), one digit, many digitOrBar, opt exponent],
  row [sign, one digit, many digitOrBar, sixtyGroup, star sixtyGroup, one (· = '.'),
    many digitOrBar],
  row [sign, one (· = '.'), alt [lit "inf", lit "Inf", lit "INF"]],
  row [one (· = '.'), alt [lit "nan", lit "NaN", lit "NAN"]]]

/-- A whole number. -/
def int : Form := alt [
  row [sign, lit "0b", some1 fun c => c = '0' || c = '1' || c = '_'],
  row [sign, lit "0", some1 fun c => ('0' ≤ c && c ≤ '7') || c = '_'],
  row [sign, alt [lit "0", seq (one fun c => '1' ≤ c && c ≤ '9') (many digitOrBar)]],
  row [sign, lit "0x", some1 fun c =>
    digitOrBar c || ('a' ≤ c && c ≤ 'f') || ('A' ≤ c && c ≤ 'F')],
  row [sign, one fun c => '1' ≤ c && c ≤ '9', many digitOrBar, sixtyGroup, star sixtyGroup]]

/-- A day: a year of four digits, a month and a day of at most two. -/
def looseDay : Form :=
  row [one digit, one digit, one digit, one digit, one (· = '-'), upTo 2, one (· = '-'), upTo 2]

/-- A day with all its digits. -/
def fullDay : Form :=
  row [one digit, one digit, one digit, one digit, one (· = '-'), one digit, one digit,
    one (· = '-'), one digit, one digit]

/-- The time behind a day, with what separates the two. -/
def timeOfDay : Form :=
  row [alt [one fun c => c = 'T' || c = 't', some1 isTabOrSpace], upTo 2, one (· = ':'),
    one digit, one digit, one (· = ':'), one digit, one digit,
    opt (row [one (· = '.'), many digit])]

/-- The offset from universal time. -/
def offset : Form :=
  row [many isTabOrSpace,
    alt [lit "Z", row [one fun c => c = '-' || c = '+', upTo 2,
      opt (row [one (· = ':'), one digit, one digit])]]]

/-- A day or a moment. -/
def timestamp : Form := alt [fullDay, row [looseDay, timeOfDay, opt offset]]

/-- The type that the form of an untagged plain scalar shows. -/
def tagOf (s : List Char) : Tag :=
  if s = ['\n'] then .str
  else if (alt (boolWords.map lit)).accepts s then .bool
  else if float.accepts s then .float
  else if int.accepts s then .int
  else if (lit "<<").accepts s then .merge
  else if (alt (nullWords.map lit)).accepts s then .null
  else if timestamp.accepts s then .timestamp
  else if (lit "=").accepts s then .value
  else if (alt [lit "!", lit "&", lit "*"]).accepts s then .yaml
  else .str

theorem tagOf_empty : tagOf [] = .null := by decide

end Form

end RegistryTree.Yaml
