import RegistryTree.Text.Digit

/-!
# UTF-8

Text is stored as UTF-8. `decodeUtf8` reads stored octets back: it checks every octet against what
may stand there, and the first octet that may not stand where it does ends the reading with a fault
that names the octets of the broken character.

> `Utf8.Fault.message`: the words a fault is reported with.
-/

namespace RegistryTree.Text

/-- The octets of a text. -/
def encodeUtf8 (s : List Char) : List UInt8 :=
  s.flatMap String.utf8EncodeChar

namespace Utf8

/-- Why a sequence of octets is not UTF-8. -/
inductive FaultKind where
  /-- No character begins with this octet. -/
  | invalidStart
  /-- An octet that should carry on a character does not. -/
  | invalidContinuation
  /-- The octets end inside a character. -/
  | unexpectedEnd
  deriving DecidableEq, Repr

/-- The octets of a broken character: how many there are, where they begin and the first of
them. -/
structure Fault where
  kind : FaultKind
  position : Nat
  first : UInt8
  length : Nat
  deriving DecidableEq, Repr

/-- The words for a kind of fault. -/
def FaultKind.message : FaultKind → String
  | .invalidStart => "invalid start byte"
  | .invalidContinuation => "invalid continuation byte"
  | .unexpectedEnd => "unexpected end of data"

/-- The words a fault is reported with. -/
def Fault.message (f : Fault) : String :=
  let place :=
    if f.length = 1 then
      "byte 0x" ++ String.ofList (hexNumeral .lower 2 f.first.toNat) ++ " in position " ++
        toString f.position
    else
      "bytes in position " ++ toString f.position ++ "-" ++ toString (f.position + f.length - 1)
  "'utf-8' codec can't decode " ++ place ++ ": " ++ f.kind.message

/-- What the first octet of a character tells: the bits it contributes, how many octets follow, and
the range that the next one must be in. -/
structure Lead where
  bits : Nat
  owed : Nat
  low : UInt8
  high : UInt8

/-- Reads the first octet of a character of more than one octet. -/
def lead? (b : UInt8) : Option Lead :=
  if 0xC2 ≤ b ∧ b ≤ 0xDF then some ⟨b.toNat - 0xC0, 1, 0x80, 0xBF⟩
  else if b = 0xE0 then some ⟨0, 2, 0xA0, 0xBF⟩
  else if b = 0xED then some ⟨0x0D, 2, 0x80, 0x9F⟩
  else if 0xE1 ≤ b ∧ b ≤ 0xEF then some ⟨b.toNat - 0xE0, 2, 0x80, 0xBF⟩
  else if b = 0xF0 then some ⟨0, 3, 0x90, 0xBF⟩
  else if 0xF1 ≤ b ∧ b ≤ 0xF3 then some ⟨b.toNat - 0xF0, 3, 0x80, 0xBF⟩
  else if b = 0xF4 then some ⟨4, 3, 0x80, 0x8F⟩
  else none

/-- A character that has begun: its first octet, its place, the octets seen, the bits so far, and
what is owed. -/
structure Pending where
  first : UInt8
  position : Nat
  seen : Nat
  bits : Nat
  owed : Nat
  low : UInt8
  high : UInt8

/-- Reads octets, of which the first is at `position`; `pending` is a character begun before. The
characters come back in order, with a character begun and not ended. -/
def read : Nat → Option Pending → List UInt8 → Except Fault (List Char × Option Pending)
  | _, pending, [] => .ok ([], pending)
  | position, none, b :: rest =>
    if b < 0x80 then do
      let (cs, left) ← read (position + 1) none rest
      return (Char.ofNat b.toNat :: cs, left)
    else match lead? b with
      | none => .error ⟨.invalidStart, position, b, 1⟩
      | some l => read (position + 1) (some ⟨b, position, 1, l.bits, l.owed, l.low, l.high⟩) rest
  | position, some p, b :: rest =>
    if p.low ≤ b ∧ b ≤ p.high then
      let bits := 64 * p.bits + (b.toNat - 0x80)
      if p.owed ≤ 1 then do
        let (cs, left) ← read (position + 1) none rest
        return (Char.ofNat bits :: cs, left)
      else
        read (position + 1)
          (some { p with seen := p.seen + 1, bits, owed := p.owed - 1, low := 0x80, high := 0xBF })
          rest
    else .error ⟨.invalidContinuation, p.position, p.first, p.seen⟩

/-- Whether octets begin a number that is set aside for pairs, and end before it does. -/
def beginsReserved : List UInt8 → Bool
  | [a, b] => a = 0xED && 0xA0 ≤ b && b ≤ 0xBF
  | _ => false

/-- Reads octets that others may follow; those of a character that is not complete are given back.
A number that is set aside for pairs is refused only when it is complete. -/
def readPart (octets : List UInt8) : Except Fault (List Char × List UInt8) :=
  match read 0 none octets with
  | .ok (s, none) => .ok (s, [])
  | .ok (s, some p) => .ok (s, octets.drop p.position)
  | .error fault =>
    if beginsReserved (octets.drop fault.position) then do
      let (s, _) ← read 0 none (octets.take fault.position)
      return (s, octets.drop fault.position)
    else .error fault

end Utf8

/-- Reads octets as UTF-8. -/
def decodeUtf8 (octets : List UInt8) : Except Utf8.Fault (List Char) := do
  let (s, left) ← Utf8.read 0 none octets
  match left with
  | none => return s
  | some p => .error ⟨.unexpectedEnd, p.position, p.first, p.seen⟩

/-- Every way to end a line, the carriage return included, read as the line feed. -/
def unifyLineEnds : List Char → List Char
  | [] => []
  | '\r' :: '\n' :: rest => '\n' :: unifyLineEnds rest
  | c :: rest => (if c = '\r' then '\n' else c) :: unifyLineEnds rest

theorem unifyLineEnds_of_no_return {s : List Char} (h : '\r' ∉ s) : unifyLineEnds s = s := by
  fun_induction unifyLineEnds s with
  | case1 => rfl
  | case2 r => simp at h
  | case3 c r _ ih =>
    simp only [List.mem_cons, not_or] at h
    rw [if_neg (fun hc => h.1 hc.symm), ih h.2]

end RegistryTree.Text
