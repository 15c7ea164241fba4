import RegistryTree.FileSystem.Error
import RegistryTree.Layout
import RegistryTree.Package.Resolution
import RegistryTree.Text.Quoted

/-!
# Errors of writing a manifest

What can go wrong while a manifest is written. An error carries the release that was being written,
when there was one; its text then says so, unless the release occurs in the words already.
-/

namespace RegistryTree

/-- What went wrong while a manifest was written. -/
inductive ManifestFault where
  /-- An error with nothing but words. -/
  | plain (words : String)
  /-- A value that cannot be written as YAML. -/
  | unwritable (words : String)
  /-- An operation on a path failed. -/
  | io (operation path : String) (cause : SystemError)
  /-- The directory of the package cannot be made where it should be. -/
  | configuration (operation path : String) (cause : SystemError)
  /-- A release lacks the version that names its bundle. -/
  | missingVersion (release : String)
  /-- A release owns a key that no definition serves. -/
  | unresolved (what : Unresolved)
  /-- A text from a document is not the name of an entry. -/
  | unsafeName (name : UnsafeName)
  deriving DecidableEq, Repr

/-- An error of writing a manifest, with the release that was being written. -/
structure ManifestError where
  fault : ManifestFault
  release : Option String
  deriving DecidableEq, Repr

namespace ManifestFault

/-- The words for an operation that failed. -/
def ioMessage (operation path : String) (cause : SystemError) : String :=
  "error " ++ cause.message ++ " while trying to " ++ operation ++ " " ++ path

/-- The words for a fault. -/
def message : ManifestFault → String
  | plain words => words
  | unwritable words => words
  | io operation path cause => ioMessage operation path cause
  | configuration operation path cause => ioMessage operation path cause
  | missingVersion release =>
    "unable to create bundle directory: CSV " ++ release ++ " is missing spec.version"
  | unresolved what =>
    "owned CRD " ++ what.key.toText ++ " for CSV " ++ what.release ++ " not found"
  | unsafeName name => name.message

/-- What is said of a value that has no form in YAML. -/
def unwritableReason : String := "('cannot represent an object', <object object at 0x7f>)"

/-- The words for a value that cannot be written. -/
def unwritableWords (typeName : String) : String :=
  "error " ++ unwritableReason ++ " marshaling " ++ typeName ++ " into YAML"

end ManifestFault

namespace ManifestError

/-- The error of a fault, with the release that the fault itself knows. -/
def ofFault (fault : ManifestFault) : ManifestError :=
  match fault with
  | .missingVersion release => ⟨fault, some release⟩
  | .unresolved what => ⟨fault, some what.release⟩
  | _ => ⟨fault, none⟩

/-- The error with the release that was being written, if it has none yet. -/
def within (e : ManifestError) (release : String) : ManifestError :=
  ⟨e.fault, some (e.release.getD release)⟩

/-- The words an error is reported with. -/
def toText (e : ManifestError) : String :=
  match e.release with
  | none => e.fault.message
  | some release =>
    if release = "" ∨ Text.occursIn release.toList e.fault.message.toList then e.fault.message
    else "release " ++ release ++ ": " ++ e.fault.message

end ManifestError

end RegistryTree
