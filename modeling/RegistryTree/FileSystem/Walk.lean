import RegistryTree.FileSystem
import RegistryTree.FileSystem.Error
import RegistryTree.Path

/-!
# Where a path leads

A path is walked name by name. Every name is looked up in a directory; a link is replaced by the
names in its target, and only so many links may be followed on one way. The names of entries and
the texts of paths have limited length.

Some operations are about what a path leads to in the end, others about the entry that its last name
stands for: `follow` walks to the end, `slot` walks to the directory that the last name belongs to.
-/

namespace RegistryTree

namespace FileSystem

/-- The number of links that are followed on one way. -/
def linkLimit : Nat := 40

/-- The number of octets that a name may have. -/
def nameLimit : Nat := 255

/-- Whether what stands at a place is a directory. -/
def isDirectoryAt (files : FileSystem) (place : Place) : Bool :=
  (files.get? place).any Entry.isDirectory

/-- Whether a name is longer than names may be. -/
def isTooLong (name : String) : Bool := nameLimit < name.utf8ByteSize

/-- The number of octets that the text of a path must stay below. -/
def pathLimit : Nat := 4096

/-- Whether the text of a path is longer than such texts may be. -/
def isOverlong (p : Path) : Bool := pathLimit ≤ p.toText.utf8ByteSize

/-- The names in the target of a link. A slash at its end leads on as a single point would. -/
def targetNames (target : String) : List String :=
  let pieces := Path.pieces target.toList
  let names := (pieces.filter (· ≠ [])).map String.ofList
  if pieces.getLast? = some [] then names ++ ["."] else names

/-- Where the target of a link starts, when the link stands in the given directory. -/
def targetStart (directory : Place) (target : String) : Place :=
  if target.toList.head? = some '/' then [] else directory

/-- Walks names from a place; `onLink` carries on where a link was met. -/
def walkWith (files : FileSystem) (onLink : Place → List String → Except ErrorCode Place) :
    Place → List String → Except ErrorCode Place
  | place, [] => .ok place
  | place, name :: rest =>
    if !files.isDirectoryAt place then .error .notDirectory
    else if name = "." then walkWith files onLink place rest
    else if name = ".." then walkWith files onLink place.dropLast rest
    else if isTooLong name then .error .nameTooLong
    else match files.get? (place ++ [name]) with
      | none => .error .missing
      | some (.link target) => onLink (targetStart place target) (targetNames target ++ rest)
      | some _ => walkWith files onLink (place ++ [name]) rest

/-- Walks names from a place and follows at most the given number of links. -/
def walk (files : FileSystem) : Nat → Place → List String → Except ErrorCode Place
  | 0 => walkWith files fun _ _ => .error .linkLoop
  | links + 1 => walkWith files (walk files links)

/-- The place that a path starts from. -/
def startOf (files : FileSystem) (p : Path) : Place :=
  if p.start = .here then files.current else []

/-- The place that names lead to in the end. -/
def followFrom (files : FileSystem) (place : Place) (names : List String) :
    Except ErrorCode Place :=
  files.walk linkLimit place names

/-- The place that a path leads to in the end. -/
def follow (files : FileSystem) (p : Path) : Except ErrorCode Place :=
  if isOverlong p then .error .nameTooLong else files.followFrom (files.startOf p) p.parts

/-- The place of the entry that the last of some names stands for, whether there is one or not; an
empty list of names, and one that ends in two points, stands for no entry. -/
def slotFrom (files : FileSystem) (place : Place) (names : List String) :
    Except ErrorCode (Option Place) :=
  match names.getLast? with
  | none => .ok none
  | some last => do
    let directory ← files.followFrom place names.dropLast
    if !files.isDirectoryAt directory then .error .notDirectory
    else if last = ".." then .ok none
    else if isTooLong last then .error .nameTooLong
    else .ok (some (directory ++ [last]))

/-- The place of the entry that the last name of a path stands for. -/
def slot (files : FileSystem) (p : Path) : Except ErrorCode (Option Place) :=
  if isOverlong p then .error .nameTooLong else files.slotFrom (files.startOf p) p.parts

/-- The place that a path names when its points are taken at their word, without a look at what
stands on the way. -/
def written (files : FileSystem) (p : Path) : Place :=
  p.parts.foldl (fun place name => if name = ".." then place.dropLast else place ++ [name])
    (files.startOf p)

/-- The path that leads to a place from the top. -/
def fromTop (place : Place) : Path := ⟨.top, place⟩

/-- How a place is shown: from the current directory if it is in it, from the top otherwise. -/
def shown (files : FileSystem) (place : Place) : String :=
  if files.current.isPrefixOf place then
    Path.toText ⟨.here, place.drop files.current.length⟩
  else (fromTop place).toText

end FileSystem

end RegistryTree
