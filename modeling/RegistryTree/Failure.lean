import RegistryTree.Manifest.Error
import RegistryTree.Package
import RegistryTree.Yaml.Node.OfValue
import RegistryTree.Yaml.Read

/-!
# Failures

Everything that can end an action early. A failure is expected when it is about the input: the
files, what they hold and the form of the documents. A command reports those in its own words; any
other failure ends the command. Of a document that no value here stands for, nothing is told.

> `Failure.message`: the words a failure is reported with.
-/

namespace RegistryTree

/-- What is wrong with the metadata of operators. -/
inductive CatalogFault where
  /-- The metadata, or the value of a section, is not of the type it should be. -/
  | notMapping (place got : String)
  | notList (place got : String)
  /-- The file, or the text of a section, is not well formed. -/
  | malformedFile (place : String)
  | malformedSection (place : String)
  /-- Two releases have one name. -/
  | duplicateRelease (place name : String)
  /-- Two packages have one identifier. -/
  | duplicatePackage (place id : String)
  /-- A channel is headed by a release that there is not. -/
  | unknownHead (package channel head : String)
  deriving DecidableEq, Repr

/-- What is wrong with a manifest as it was found. -/
inductive TreeFault where
  /-- The path of a manifest does not lead to a directory. -/
  | notDirectory (path : String)
  /-- A directory does not hold exactly one file of a kind. -/
  | wrongCount (path suffix : String) (found : Nat)
  deriving DecidableEq, Repr

/-- What ends an action early. -/
inductive Failure where
  | manifest (error : ManifestError)
  | system (error : SystemError)
  /-- A path has a character that ends paths. -/
  | nullInPath
  | yaml (fault : Yaml.Fault)
  | field (fault : FieldFault)
  | catalog (fault : CatalogFault)
  /-- A file of metadata does not describe a package. -/
  | unknownPackage (id file : String)
  | tree (fault : TreeFault)
  | numeral (fault : Number.NumeralFault)
  /-- A whole number has too many digits to be written. -/
  | wideInteger
  deriving DecidableEq, Repr

/-- The words a fault of metadata is reported with. -/
def CatalogFault.message : CatalogFault → String
  | notMapping place got => place ++ ": expected mapping, got " ++ got
  | notList place got => place ++ ": expected list, got " ++ got
  | malformedFile place => place ++ ": invalid YAML: " ++ Yaml.formDetail
  | malformedSection place => place ++ ": invalid embedded YAML: " ++ Yaml.formDetail
  | duplicateRelease place name => place ++ ": duplicate CSV " ++ name
  | duplicatePackage place id => place ++ ": duplicate package " ++ id
  | unknownHead package channel head =>
    "package " ++ package ++ ": channel " ++ channel ++ " currentCSV " ++ head ++ " not found"

/-- The words a fault of a manifest is reported with. -/
def TreeFault.message : TreeFault → String
  | notDirectory path => path ++ ": not a directory"
  | wrongCount path suffix found =>
    path ++ ": expected exactly one *" ++ suffix ++ " file, found " ++ toString found

/-- How a command takes a failure. -/
inductive FailureClass where
  /-- The input is not as it should be. -/
  | input
  /-- Something was looked up that there is not. -/
  | lookup
  /-- An error of writing a manifest. -/
  | writing
  /-- A document stands for no value of this library: what a command does with it is not told. -/
  | untold
  /-- Anything else. -/
  | unexpected
  deriving DecidableEq, Repr

namespace Failure

/-- The words a failure is reported with. -/
def message : Failure → String
  | manifest error => error.toText
  | system error => error.message
  | nullInPath => "embedded null byte"
  | yaml fault => fault.message
  | field fault => fault.message
  | catalog fault => fault.message
  | unknownPackage id file => "package " ++ id ++ " not found in " ++ file
  | tree fault => fault.message
  | numeral fault => fault.message
  | wideInteger => Number.digitLimitMessage none

/-- The class of a failure. -/
def failureClass : Failure → FailureClass
  | manifest _ => .writing
  | unknownPackage .. => .lookup
  | yaml fault =>
    match fault with
    | .encoding _ | .characterNumber | .numeral _ | .calendar _ => .input
    | .notTruthValue _ => .lookup
    | .surrogate | .selfReference => .untold
    | .malformed | .wideCharacterNumber | .heavyGroup | .noDigits | .notTimestamp
    | .timestampMapping => .unexpected
  | _ => .input

/-- The failure of writing a value of the given type. -/
def ofWriteFault (typeName : String) : Yaml.WriteFault → Failure
  | .unwritable => manifest (.ofFault (.unwritable (ManifestFault.unwritableWords typeName)))
  | .wideInteger => wideInteger

end Failure

end RegistryTree
