import RegistryTree.FileSystem.Walk

/-!
# Operations on a file system

Each operation either gives the file system that it leaves or fails, and then nothing has changed;
only the removal of a directory may fail when what was in it is gone. Errors name the paths as they
were given; a temporary file, which nobody named, is shown from the current directory.

> `makeDirectory_ok`: what a made directory changes.
-/

namespace RegistryTree

namespace FileSystem

/-- Fails about one path. -/
def failAt {α : Type} (p : Path) (code : ErrorCode) : Except SystemError α :=
  .error (.numbered code [p.toText])

/-! ## Looking -/

/-- The place that a path leads to. -/
def find (files : FileSystem) (p : Path) : Except SystemError Place :=
  match files.follow p with
  | .ok place => .ok place
  | .error code => failAt p code

/-- Whether a path leads to a directory. A path that leads nowhere does not; one that is too long,
or has a name that is, cannot be asked about. -/
def leadsToDirectory (files : FileSystem) (p : Path) : Except SystemError Bool :=
  match files.follow p with
  | .ok place => .ok (files.isDirectoryAt place)
  | .error code => if code = .nameTooLong then failAt p code else .ok false

/-- The content of a file. -/
def readFile (files : FileSystem) (p : Path) : Except SystemError (List UInt8) := do
  let place ← files.find p
  match files.get? place with
  | some (.file _ content) => .ok content
  | some (.directory _) => failAt p .isDirectory
  | _ => failAt p .missing

/-- The names in the directory that a path leads to. -/
def listing (files : FileSystem) (p : Path) : Except SystemError (List String) := do
  let place ← files.find p
  if files.isDirectoryAt place then .ok (files.names place) else failAt p .notDirectory

/-! ## Changing -/

/-- Makes a directory where nothing stands. -/
def makeDirectory (files : FileSystem) (p : Path) (mode : Nat) : Except SystemError FileSystem :=
  match files.slot p with
  | .error code => failAt p code
  | .ok none => failAt p .exists_
  | .ok (some place) =>
    if (files.get? place).isSome then failAt p .exists_
    else .ok (files.put place (.directory mode))

/-- A file for the time of writing: where it stands and how it is shown. -/
structure Temporary where
  place : Place
  shown : String
  deriving DecidableEq, Repr

/-- The permissions that a temporary file is made with. -/
def temporaryMode : Nat := 0o600

/-- The error when every name for a temporary file is taken. -/
def noTemporaryName : ErrorCode := ⟨17, "No usable temporary file name found"⟩

/-- The eight characters that tell temporary files with one name apart: the number of the attempt
behind filling signs; the first attempt has no number. -/
def stamp (attempt : Nat) : String :=
  let digits := if attempt = 0 then "" else toString attempt
  String.ofList (List.replicate (8 - digits.length) '#') ++ digits

/-- The name of the temporary file for a name. -/
def temporaryName (name : String) (attempt : Nat) : String :=
  "." ++ name ++ "." ++ stamp attempt ++ ".tmp"

/-- Makes an empty file under the first of some names that is free in a directory. -/
def createFirst (files : FileSystem) (directory : Place) :
    List String → Except SystemError (Temporary × FileSystem)
  | [] => .error (.numbered noTemporaryName [])
  | name :: rest =>
    let shown := files.shown (directory ++ [name])
    match files.slot (fromTop (directory ++ [name])) with
    | .error code => .error (.numbered code [shown])
    | .ok none => createFirst files directory rest
    | .ok (some place) =>
      if (files.get? place).isSome then createFirst files directory rest
      else .ok (⟨place, shown⟩, files.put place (.file temporaryMode []))

/-- Makes an empty temporary file beside a path. -/
def createTemporary (files : FileSystem) (p : Path) : Except SystemError (Temporary × FileSystem) :=
  files.createFirst (files.written p.parent)
    ((List.range (files.entries.length + 1)).map (temporaryName p.name))

/-- Moves a temporary file to a path; a file or link that stands there goes. -/
def moveTo (files : FileSystem) (t : Temporary) (p : Path) : Except SystemError FileSystem :=
  let fail := fun code => .error (.numbered code [t.shown, p.toText])
  match files.slot p with
  | .error code => fail code
  | .ok none => fail .busy
  | .ok (some place) =>
    match files.get? t.place with
    | none => fail .missing
    | some entry =>
      -- a link to a directory is no directory: it goes, and what it leads to stays
      if files.isDirectoryAt place then fail .isDirectory
      else .ok ((files.erase t.place).put place entry)

/-- Removes a directory with all that is below it; gives the file system that is left and whether
the directory is gone. A link is refused wherever it leads. -/
def removeDirectory (files : FileSystem) (p : Path) : Except SystemError Unit × FileSystem :=
  match files.slot p with
  | .error code => (failAt p code, files)
  | .ok none => (failAt p .busy, files)
  | .ok (some place) =>
    match files.get? place with
    | none => (failAt p .missing, files)
    | some (.directory _) =>
      -- what is in it goes first; a path that leads through it then leads nowhere, and it stays
      let emptied := files.eraseWithin place
      match emptied.slot p with
      | .error code => (failAt p code, emptied)
      | .ok _ => (.ok (), emptied.erase place)
    | some (.file ..) => (failAt p .notDirectory, files)
    | some (.link _) =>
      -- a link that leads nowhere is noticed by where it should lead
      match files.follow p with
      | .error code => (failAt p code, files)
      | .ok _ => (.error .linkInPlace, files)

/-! ## Setting up -/

/-- Makes a directory and all that lead to it, as far as they are not there. -/
def makeDirectories (files : FileSystem) (p : Path) (mode : Nat) : FileSystem :=
  (List.range p.parts.length).foldl (fun files n =>
    (files.makeDirectory ⟨p.start, p.parts.take (n + 1)⟩ mode).toOption.getD files) files

/-- Stores a file where a path leads to. -/
def store (files : FileSystem) (p : Path) (mode : Nat) (content : List UInt8) : FileSystem :=
  match files.follow p, files.slot p with
  | .ok place, _ => files.put place (.file mode content)
  | .error _, .ok (some place) => files.put place (.file mode content)
  | .error _, _ => files

/-- Removes what the last name of a path stands for, with all that is below it. -/
def remove (files : FileSystem) (p : Path) : FileSystem :=
  match files.slot p with
  | .ok (some place) => files.eraseBelow place
  | _ => files

/-- Makes a link where nothing stands. -/
def makeLink (files : FileSystem) (p : Path) (target : String) : FileSystem :=
  match files.slot p with
  | .ok (some place) =>
    if (files.get? place).isSome then files else files.put place (.link target)
  | _ => files

theorem makeDirectory_ok {files after : FileSystem} {p : Path} {mode : Nat}
    (h : files.makeDirectory p mode = .ok after) :
    ∃ place, files.slot p = .ok (some place) ∧ files.get? place = none ∧
      after = files.put place (.directory mode) := by
  unfold makeDirectory failAt at h
  split at h
  · cases h
  · cases h
  · next place hs =>
    split at h
    · cases h
    · next hn =>
      refine ⟨place, hs, by simpa using hn, (Except.ok.inj h).symm⟩

end FileSystem

end RegistryTree
