/-!
# Base 64

Octets written with sixty-four letters, six bits a letter, and filled up with the equals sign to a
multiple of four letters. Reading passes over every other character, and stops at the sign that
completes a group.
-/

namespace RegistryTree.Text.Base64

/-- The sixty-four letters. -/
def letters : List Char :=
  "ABCDEFGHIJKLMNOPQRSTUVWXYZabcdefghijklmnopqrstuvwxyz0123456789+/".toList

/-- The letter of six bits. -/
def letter (n : Nat) : Char := letters.getD n '='

/-- The six bits of a letter. -/
def bits? (c : Char) : Option Nat :=
  let i := letters.idxOf c
  if i < letters.length then some i else none

/-- The letters of octets, three octets at a time. -/
def encodeGroups : List UInt8 → List Char
  | [] => []
  | [a] =>
    let n := a.toNat * 16
    [letter (n / 64), letter (n % 64), '=', '=']
  | [a, b] =>
    let n := (a.toNat * 256 + b.toNat) * 4
    [letter (n / 4096), letter (n / 64 % 64), letter (n % 64), '=']
  | a :: b :: c :: rest =>
    let n := (a.toNat * 256 + b.toNat) * 256 + c.toNat
    letter (n / 262144) :: letter (n / 4096 % 64) :: letter (n / 64 % 64) :: letter (n % 64) ::
      encodeGroups rest

/-- The number of octets in a line. -/
def lineOctets : Nat := 57

/-- The lines in which octets are written; `fuel` bounds their number. -/
def lines : Nat → List UInt8 → List (List Char)
  | 0, _ => []
  | _ + 1, [] => []
  | fuel + 1, octets =>
    encodeGroups (octets.take lineOctets) :: lines fuel (octets.drop lineOctets)

/-- The lines in which octets are written. -/
def encodeLines (octets : List UInt8) : List (List Char) := lines octets.length octets

/-- Reads letters, `place` of which have been seen in the present group; `left` are the bits of it
that make no whole octet yet, and `pads` is the number of signs seen behind its last letter. -/
def decodeFrom (place left pads : Nat) : List Char → Option (List UInt8)
  | [] => if place = 0 then some [] else none
  | c :: rest =>
    if c = '=' then
      if 2 ≤ place ∧ 4 ≤ place + (pads + 1) then some []
      else decodeFrom place left (if 2 ≤ place then pads + 1 else pads) rest
    else
      match bits? c with
      | none => decodeFrom place left pads rest
      | some b =>
        match place with
        | 0 => decodeFrom 1 b 0 rest
        | 1 => (decodeFrom 2 (b % 16) 0 rest).map (UInt8.ofNat (left * 4 + b / 16) :: ·)
        | 2 => (decodeFrom 3 (b % 4) 0 rest).map (UInt8.ofNat (left * 16 + b / 4) :: ·)
        | _ => (decodeFrom 0 0 0 rest).map (UInt8.ofNat (left * 64 + b) :: ·)

/-- The octets of a text in base 64; `none` when the text breaks off inside a group. -/
def decode? (s : List Char) : Option (List UInt8) := decodeFrom 0 0 0 s

end RegistryTree.Text.Base64
