import RegistryTree.Calendar
import RegistryTree.Number.Numeral
import RegistryTree.Text.Utf8

/-!
# What can be wrong with a YAML text

Most faults are faults of form, and which of them a text has is not told. The others are octets that
are no text, and scalars whose form is in order: a number, a time of day or an escape that stands
for no value, each with words of its own.

Two faults are only faults here. A text may have an escape for half of a surrogate pair, and a node
that is part of itself; both stand for something, but for no text and no value of this library.

> `Fault.message`: the words a fault is reported with.
-/

namespace RegistryTree.Yaml

open RegistryTree.Number

/-- What is wrong with a YAML text. -/
inductive Fault where
  /-- The octets of a text are not UTF-8. -/
  | encoding (fault : Text.Utf8.Fault)
  /-- The text is not well formed, or a node does not have the form that its tag demands. -/
  | malformed
  /-- An escape names a character number that is too large. -/
  | characterNumber
  /-- An escape names a character number of more than thirty-one bits. -/
  | wideCharacterNumber
  /-- An escape names half of a surrogate pair, which is no character. -/
  | surrogate
  /-- A node is named inside itself, and no value is part of itself. -/
  | selfReference
  /-- A scalar is no numeral of the kind that its tag demands. -/
  | numeral (fault : NumeralFault)
  /-- A number in groups of sixty has a group whose weight is beyond all numbers. -/
  | heavyGroup
  /-- A scalar names a day or a time that does not exist. -/
  | calendar (fault : CalendarFault)
  /-- A scalar marked as a number holds nothing but a sign. -/
  | noDigits
  /-- A scalar marked as a truth value is none; its text in small letters. -/
  | notTruthValue (text : List Char)
  /-- A scalar marked as a time has another form. -/
  | notTimestamp
  /-- A mapping stands where the form of a time is looked for. -/
  | timestampMapping
  deriving DecidableEq, Repr

/-- The words that stand for the details of a fault of form. -/
def formDetail : String := "<yaml>"

/-- The words a fault is reported with. -/
def Fault.message : Fault → String
  | .encoding fault => fault.message
  | .malformed => formDetail
  | .characterNumber => "chr() arg not in range(0x110000)"
  | .wideCharacterNumber => "Python int too large to convert to C int"
  | .surrogate => "an escape names half of a surrogate pair"
  | .selfReference => "a node is named inside itself"
  | .numeral fault => fault.message
  | .heavyGroup => "int too large to convert to float"
  | .calendar fault => fault.message
  | .noDigits => "string index out of range"
  | .notTruthValue text => String.ofList text
  | .notTimestamp => "'NoneType' object has no attribute 'groupdict'"
  | .timestampMapping => "expected string or bytes-like object, got 'list'"

end RegistryTree.Yaml
