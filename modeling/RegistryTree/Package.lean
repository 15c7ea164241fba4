import RegistryTree.Package.Definition
import RegistryTree.Package.Release

/-!
# Packages

A package is a descriptor document with the releases and the definitions that belong to it. The
descriptor gives the identifier of the package and, through its channels, the releases that are
offered; the channels are only read when they are asked for.
-/

namespace RegistryTree

/-- A package. -/
structure Package where
  document : Entries
  id : String
  releases : List Release
  definitions : List Definition

/-- Why something could not be taken in as a package. -/
inductive PackageFault where
  | field (fault : FieldFault)
  /-- Among the releases there is something else. -/
  | notRelease (package got : String)
  /-- Among the definitions there is something else. -/
  | notDefinition (package got : String)
  /-- Something else stands where a package is needed. -/
  | notPackage (got : String)
  deriving DecidableEq, Repr

/-- The words a fault is reported with. -/
def PackageFault.message : PackageFault → String
  | .field fault => fault.message
  | .notRelease package got =>
    "package " ++ package ++ ": releases must be " ++ Role.typeName .release ++ ", got " ++ got
  | .notDefinition package got =>
    "package " ++ package ++ ": resource_definitions must be " ++ Role.typeName .definition ++
      ", got " ++ got
  | .notPackage got =>
    "DirectoryManifest: package must be " ++ Role.typeName .package ++ ", got " ++ got

namespace Package

/-- The identifier in a descriptor. -/
def identifier (value : Value) : Except FieldFault (Entries × String) := do
  let document ← Field.asMapping "package" value
  let id ← Field.requiredText "package.packageName" (Entries.get? document "packageName")
  return (document, id)

/-- Takes a package from its descriptor, its releases and its definitions. -/
def ofParts (value : Value) (releases : List Release) (definitions : List Definition) :
    Except FieldFault Package := do
  let (document, id) ← identifier value
  return { document, id, releases, definitions }

/-- The release that a value holds. -/
def releaseOf (package : String) (value : Value) : Except PackageFault Release :=
  match value with
  | .checked .release document => (Release.ofDocument document).mapError .field
  | v => .error (.notRelease package v.typeName)

/-- The definition that a value holds. -/
def definitionOf (package : String) (value : Value) : Except PackageFault Definition :=
  match value with
  | .checked .definition document => (Definition.ofDocument document).mapError .field
  | v => .error (.notDefinition package v.typeName)

/-- Takes a package from its descriptor and from values that should hold its releases and its
definitions. -/
def ofValues (value : Value) (releases definitions : List Value) : Except PackageFault Package := do
  let (document, id) ← (identifier value).mapError .field
  let releases ← releases.mapM (releaseOf id)
  let definitions ← definitions.mapM (definitionOf id)
  return { document, id, releases, definitions }

/-- The package that a value holds; it has neither releases nor definitions. -/
def ofValue (value : Value) : Except PackageFault Package :=
  match value with
  | .checked .package document => (ofParts document [] []).mapError .field
  | v => .error (.notPackage v.typeName)

/-- How messages name a package. -/
def label (p : Package) : String := "package " ++ p.id

/-- The channels of a package with the release that heads each. A name that comes again keeps its
place and takes the later head. -/
def channels (p : Package) : Except FieldFault (List (String × Option String)) := do
  let field := p.label ++ ".channels"
  let items ← Field.list field (Entries.get? p.document "channels")
  let found ← items.zipIdx.mapM fun (v, i) => do
    let here := Field.item field i
    let entries ← Field.asMapping here v
    let name ← Field.requiredText (here ++ ".name") (Entries.get? entries "name")
    let head ← Field.optionalText (here ++ ".currentCSV") (Entries.get? entries "currentCSV")
    return (name, head)
  return found.foldl place []
where
  /-- Sets the head of a channel. -/
  place (channels : List (String × Option String)) (c : String × Option String) :
      List (String × Option String) :=
    if channels.any (·.1 = c.1) then channels.map fun d => if d.1 = c.1 then c else d
    else channels ++ [c]

/-- The channel that is used when none is asked for. -/
def defaultChannel (p : Package) : Except FieldFault (Option String) :=
  Field.optionalText (p.label ++ ".defaultChannel") (Entries.get? p.document "defaultChannel")

/-- The document of a package as a value. -/
def toValue (p : Package) : Value := .checked .package (.mapping none p.document)

end Package

end RegistryTree
