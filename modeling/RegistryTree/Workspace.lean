import RegistryTree.Failure
import RegistryTree.FileSystem.Change
import RegistryTree.Yaml.Render

/-!
# Workspaces and actions

A workspace is a file system and the journal of what was done with it. An action runs on a
workspace; it gives a result or a failure, and in both cases the workspace that it leaves.

Documents are written in one piece: the text is made first, then it goes into a temporary file
beside the destination, and that file is moved into place.

> `Action.bind_run`: how actions follow each other.
-/

namespace RegistryTree

/-- How much a record of the journal matters. -/
inductive Severity where
  | debug
  | info
  deriving DecidableEq, Repr

/-- The number of a severity; the more it matters, the larger. -/
def Severity.number : Severity → Nat
  | debug => 10
  | info => 20

/-- The name of a severity. -/
def Severity.name : Severity → String
  | debug => "DEBUG"
  | info => "INFO"

/-- A record of the journal. -/
inductive Record where
  /-- A note: how much it matters, what part of the work it is about, and the words. -/
  | note (severity : Severity) (source words : String)
  /-- An error that is told in any case. -/
  | complaint (words : String)
  deriving DecidableEq, Repr

/-- A record as a line. -/
def Record.toText : Record → String
  | note severity source words => severity.name ++ " " ++ source ++ ": " ++ words
  | complaint words => "error: " ++ words

/-- Whether a record is shown where notes below a threshold are not. -/
def Record.isShown (threshold : Nat) : Record → Bool
  | note severity .. => threshold ≤ severity.number
  | complaint _ => true

/-- A file system and the journal of what was done with it, the latest record last. -/
structure Workspace where
  files : FileSystem
  journal : List Record
  deriving DecidableEq, Repr

/-- Something that is done with a workspace. -/
abbrev Action (α : Type) := ExceptT Failure (StateM Workspace) α

/-- Whether a path has a character that ends paths. -/
def Path.hasNull (p : Path) : Bool := p.parts.any (·.toList.contains '\x00')

namespace Action

/-- How actions follow each other: a failure ends them where it arises. -/
theorem bind_run {α β : Type} (x : Action α) (f : α → Action β) (w : Workspace) :
    (x >>= f : Action β) w =
      match x w with
      | (.ok a, w') => f a w'
      | (.error e, w') => (.error e, w') := by
  show ExceptT.bindCont f (x w).1 (x w).2 = _
  rcases x w with ⟨_ | _, _⟩ <;> rfl

/-- Does what may fail without a workspace. -/
def ofExcept {ε α : Type} (failure : ε → Failure) : Except ε α → Action α
  | .ok a => pure a
  | .error e => throw (failure e)

/-- The file system as it is. -/
def files : Action FileSystem := return (← get).files

/-- Puts a file system in place of the one there is. -/
def setFiles (files : FileSystem) : Action Unit := modify fun w => { w with files }

/-- Adds a note to the journal. -/
def note (severity : Severity) (source words : String) : Action Unit :=
  modify fun w => { w with journal := w.journal ++ [.note severity source words] }

/-- Looks at the file system. -/
def look {α : Type} (f : FileSystem → Except Failure α) : Action α := do
  ofExcept id (f (← files))

/-- Changes the file system. -/
def change (f : FileSystem → Except SystemError FileSystem) : Action Unit := do
  setFiles (← ofExcept .system (f (← files)))

/-- An action on a path, whose errors of the file system say what it was to do. -/
def onPath {α : Type} (operation : String) (p : Path) (act : Action α) : Action α :=
  tryCatch act fun
    | .system cause => throw (.manifest (.ofFault (.io operation p.toText cause)))
    | e => throw e

/-- Fails on a path that cannot be handed to the system. -/
def requireUsable (p : Path) : Action Unit := if p.hasNull then throw .nullInPath else pure ()

end Action

/-! ## Directories and documents -/

/-- What the journal names for work on single files. -/
def fileSource : String := "opmanifest.bundle.fs"

open RegistryTree.Action

/-- Makes one directory, for its owner alone. -/
def createDirectory (p : Path) : Action Path := do
  requireUsable p
  onPath "create directory" p (change (·.makeDirectory p Layout.directoryMode))
  note .debug fileSource ("created directory " ++ p.toText)
  return p

/-- The text of a value as a document. -/
def renderDocument (v : Value) : Except Failure (List Char) :=
  (Yaml.render v).mapError (Failure.ofWriteFault v.typeName)

/-- Fills a temporary file and moves it to a path; when it cannot be moved, it is removed. -/
def fillAndMove (t : FileSystem.Temporary) (content : List UInt8) (p : Path) : Action Unit := do
  change fun files => .ok (files.put t.place (.file FileSystem.temporaryMode content))
  -- the permissions are set before the file gets its name and can be met under it
  change fun files => .ok (files.put t.place (.file Layout.fileMode content))
  tryCatch (change (·.moveTo t p)) fun e => do
    change fun files => .ok (files.erase t.place)
    throw e

/-- Stores content as the whole of a file, through a temporary file beside it. -/
def replaceFile (p : Path) (content : List UInt8) : Action Unit := do
  let (t, made) ← ofExcept .system ((← files).createTemporary p)
  setFiles made
  fillAndMove t content p

/-- Writes a value as the document in a file. -/
def writeDocument (v : Value) (p : Path) : Action Path := do
  let text ← ofExcept id (renderDocument v)
  requireUsable p
  onPath "write file" p (replaceFile p (Text.encodeUtf8 text))
  note .debug fileSource ("wrote " ++ p.toText)
  return p

/-- The content of the file that a path leads to. -/
def readContent (files : FileSystem) (p : Path) : Except Failure (List UInt8) :=
  if p.hasNull then .error .nullInPath else (files.readFile p).mapError .system

/-- The value of the document in a file. -/
def readDocument (files : FileSystem) (p : Path) : Except Failure Value := do
  let content ← readContent files p
  (Yaml.readOctets content).mapError .yaml

end RegistryTree
