/-!
# Paths

A path is where it starts and the names that lead on from there. Texts of paths are taken apart at
their slashes; empty names and single points fall away, names of two points stay. A path that starts
at the top keeps whether it was written with one slash or with exactly two.

> `join_of_leads`: a name without a slash, neither empty nor a single point, is added to a path as
> it is.
-/

namespace RegistryTree

/-- Where a path starts. -/
inductive Start where
  /-- In the directory that one is in. -/
  | here
  /-- At the top. -/
  | top
  /-- At the top, written with two slashes. -/
  | doubleTop
  deriving DecidableEq, Repr

/-- A path. -/
structure Path where
  start : Start
  parts : List String
  deriving DecidableEq, Repr

/-- The slashes that a path begins with. -/
def Start.slashes : Start → String
  | .here => ""
  | .top => "/"
  | .doubleTop => "//"

namespace Path

/-- The pieces of a text between its slashes. -/
def pieces : List Char → List (List Char)
  | [] => [[]]
  | c :: rest =>
    if c = '/' then [] :: pieces rest
    else match pieces rest with
      | [] => [[c]]
      | p :: more => (c :: p) :: more

/-- Whether a piece of a path leads anywhere. -/
def leads (piece : List Char) : Bool := piece ≠ [] && piece ≠ ['.']

/-- Where a text starts. -/
def startOf : List Char → Start
  | '/' :: '/' :: '/' :: _ => .top
  | '/' :: '/' :: _ => .doubleTop
  | '/' :: _ => .top
  | _ => .here

/-- The names in a text. -/
def partsOf (text : List Char) : List String := ((pieces text).filter leads).map String.ofList

/-- Takes the text of a path apart. -/
def ofText (text : String) : Path := ⟨startOf text.toList, partsOf text.toList⟩

/-- The text of a path. -/
def toText (p : Path) : String :=
  if p.start = .here ∧ p.parts = [] then "." else p.start.slashes ++ "/".intercalate p.parts

/-- The path that a text leads to from another path. -/
def join (p : Path) (text : String) : Path :=
  let q := ofText text
  if q.start = .here then ⟨p.start, p.parts ++ q.parts⟩ else q

/-- The last name of a path. -/
def name (p : Path) : String := p.parts.getLast?.getD ""

/-- The path without its last name. -/
def parent (p : Path) : Path := ⟨p.start, p.parts.dropLast⟩

theorem pieces_of_no_slash {s : List Char} (h : '/' ∉ s) : pieces s = [s] := by
  induction s with
  | nil => rfl
  | cons c rest ih =>
    simp only [List.mem_cons, not_or] at h
    rw [pieces, if_neg (Ne.symm h.1), ih h.2]

theorem startOf_of_no_slash {s : List Char} (h : '/' ∉ s) : startOf s = .here := by
  unfold startOf
  split <;> simp_all

/-- What a name that leads on and has no slash adds to a path is itself. -/
theorem join_of_leads {p : Path} {text : String} (h : leads text.toList = true)
    (hs : '/' ∉ text.toList) : p.join text = ⟨p.start, p.parts ++ [text]⟩ := by
  simp [join, ofText, startOf_of_no_slash hs, partsOf, pieces_of_no_slash hs, h]

@[simp] theorem parent_child (start : Start) (parts : List String) (last : String) :
    parent ⟨start, parts ++ [last]⟩ = ⟨start, parts⟩ := by
  simp [parent]

@[simp] theorem name_child (start : Start) (parts : List String) (last : String) :
    name ⟨start, parts ++ [last]⟩ = last := by
  simp [name]

end Path

end RegistryTree
