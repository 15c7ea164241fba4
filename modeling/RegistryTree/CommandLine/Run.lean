import RegistryTree.Catalog
import RegistryTree.CommandLine.Request
import RegistryTree.Manifest
import RegistryTree.Manifest.Tree

/-!
# Running commands

A command runs on a workspace. It ends well, with output; it ends with complaints in the journal; it
refuses a parameter; or something that no command expects ends it. Where a document stands for no
value of this library, a command stops and how it would go on is not told.

> `check_files`: checking changes no file.
-/

namespace RegistryTree.CommandLine

/-- How a command ended. -/
inductive Outcome where
  /-- With a status and lines of output. -/
  | finished (status : Nat) (output : List String)
  /-- With the refusal of a parameter. -/
  | badParameter (parameter words : String)
  /-- Without anything done: the words of the command line are wrong. -/
  | usage (error : UsageError)
  /-- With a failure that no command expects. -/
  | escaped (failure : Failure)
  /-- Not told here: a document that was read stands for no value. -/
  | untold (failure : Failure)

/-- The version of the program. -/
def programVersion : String := "0.1.0"

/-- How to use the program. -/
def helpLines : List String := [
  "opmanifest [--log-level LEVEL] COMMAND",
  "  build METADATA_PATH --package ID [--out-dir DIRECTORY] [--keep-on-error]",
  "    writes the manifest of a package into a registry",
  "  check --path DIRECTORY",
  "    checks the manifest in the directory of a package",
  "  version",
  "    tells the version"]

/-- What the journal names for the command `build`. -/
def buildSource : String := "opmanifest.cli.commands.build"

/-- Adds a record to the journal. -/
def tell (r : Record) : StateM Workspace Unit :=
  modify fun w => { w with journal := w.journal ++ [r] }

/-- Removes what was written of a manifest; an error in doing so is only told. -/
def cleanUp (m : Manifest) : StateM Workspace (Except Failure Unit) := do
  tell (.note .info buildSource ("removing partial manifest for " ++ m.package.id))
  match ← m.delete.run with
  | .error (.manifest error) =>
    tell (.complaint ("cleanup failed: " ++ error.toText))
    return .ok ()
  | result => return result

/-- Writes a package into a registry. What was written of a package that cannot be written whole is
removed, unless it is to be kept. -/
def buildPackage (package : Package) (registry : Path) (keep : Bool) :
    StateM Workspace Outcome := do
  match ← (Manifest.new package registry).create with
  | (_, .ok ()) => return .finished 0 [(registry.join package.id).toText]
  | (m, .error (.manifest error)) =>
    tell (.complaint error.toText)
    if keep then return .finished 1 []
    else match ← cleanUp m with
      | .ok () => return .finished 1 []
      | .error e => return .escaped e
  | (_, .error e) => return .escaped e

/-- Writes a package from a file of metadata into a registry. -/
def build (metadata package registry : String) (keep : Bool) : StateM Workspace Outcome := do
  match ← (Catalog.readPackage (.ofText metadata) package).run with
  | .ok p => buildPackage p (.ofText registry) keep
  | .error e =>
    match e.failureClass with
    | .lookup => return .badParameter "--package" e.message
    | .input => return .badParameter "METADATA_PATH" e.message
    | .untold => return .untold e
    | _ => return .escaped e

/-- Whether a release could be written: it has a version, and all that it owns is served. -/
def checkRelease (index : List (ResourceKey × Definition)) (r : Release) :
    Except ManifestFault Unit :=
  if r.version.isNone then .error (.missingVersion r.name)
  else
    match Resolution.resolve r index with
    | .ok _ => .ok ()
    | .error what => .error (.unresolved what)

/-- Whether all releases of a package could be written. -/
def checkPackage (package : Package) : Except ManifestFault Unit :=
  package.releases.forM (checkRelease (Manifest.indexOf package))

/-- Reads the manifest in a directory and checks it. -/
def examine (files : FileSystem) (p : Path) : Except Failure (Except ManifestFault Unit) := do
  return checkPackage (← Manifest.read files p)

/-- Checks the manifest in a directory. -/
def check (path : String) : StateM Workspace Outcome := do
  match examine (← get).files (.ofText path) with
  | .ok (.ok ()) => return .finished 0 ["OK"]
  | .ok (.error fault) =>
    tell (.complaint (ManifestError.ofFault fault).toText)
    return .finished 1 []
  | .error e =>
    match e.failureClass with
    | .input => return .badParameter "--path" e.message
    | .untold => return .untold e
    | _ => return .escaped e

/-- Does what is asked for. -/
def perform : Request → StateM Workspace Outcome
  | .help => return .finished 0 helpLines
  | .version => return .finished 0 [programVersion]
  | .build metadata package registry keep => build metadata package registry keep
  | .check path => check path

/-- What a command tells: how it ended, and the lines of the journal that are shown. -/
structure Report where
  outcome : Outcome
  told : List String

/-- Runs a command line. -/
def run (environment : Environment) (words : List String) (files : FileSystem) :
    Report × FileSystem :=
  match request environment words with
  | .error (.usage error) => (⟨.usage error, []⟩, files)
  | .error (.unknownLevel name) =>
    (⟨.badParameter "--log-level" ("unknown log level " ++ Text.quote name), []⟩, files)
  | .ok (threshold, asked) =>
    let (outcome, w) := (perform asked).run ⟨files, []⟩
    (⟨outcome, (w.journal.filter (·.isShown threshold)).map Record.toText⟩, w.files)

/-- Checking changes no file. -/
theorem check_files (path : String) (w : Workspace) : ((check path).run w).2.files = w.files := by
  unfold check
  simp only [StateT.run, bind, StateT.bind, get, getThe, MonadStateOf.get, StateT.get, pure]
  rcases examine w.files (.ofText path) with e | r
  · dsimp only
    cases e.failureClass <;> rfl
  · cases r <;> rfl

end RegistryTree.CommandLine
