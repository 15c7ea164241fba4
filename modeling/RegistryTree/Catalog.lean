import RegistryTree.Workspace

/-!
# Catalogs

Metadata of operators come as one document with three sections: descriptors of packages, releases
and definitions. A section is a list, or a text that holds one; the three may stand below a field of
their own.

Each descriptor makes a package. Its releases are those that the heads of its channels lead to, each
followed by the release that it replaces, as far as there is one. Its definitions are those that
serve what these releases own or require. Both keep the order of the document.

> `assemble_definitions`: which definitions a package gets.
-/

namespace RegistryTree

/-- What the journal names for work on metadata. -/
def catalogSource : String := "opmanifest.io.metadata"

/-- The sections of metadata: descriptors, not looked at yet, releases and definitions. -/
structure Catalog where
  place : String
  descriptors : List Value
  releases : List Release
  definitions : List Definition

namespace Catalog

/-! ## Sections -/

/-- Reads the text of a section. -/
def readSection (place text : String) : Except Failure Value :=
  (Yaml.read text.toList).mapError fun
    | .malformed => .catalog (.malformedSection place)
    | fault => .yaml fault

/-- The items of a section whose value is not a text. -/
def sectionItems (place : String) : Value → Except Failure (List Value)
  | .null => .ok []
  | .list _ items => .ok items
  | v => .error (.catalog (.notList place v.typeName))

/-- The items of a section. -/
def sectionOf (place : String) (data : Entries) (key : String) : Except Failure (List Value) :=
  let here := place ++ "." ++ key
  match Entries.get? data key with
  | none => .ok []
  | some (.text s) => do sectionItems here (← readSection here s)
  | some v => sectionItems here v

/-- The entries that hold the sections, and where they are. -/
def wrapped (place : String) (data : Entries) : String × Entries :=
  match Entries.get? data "data" with
  | some (.mapping _ entries) => (place ++ ".data", entries)
  | _ => (place, data)

/-- Fails on the first release whose name a release before it has. -/
def requireDistinct (place : String) : List String → List Release → Except Failure Unit
  | _, [] => .ok ()
  | seen, r :: rest =>
    if r.name ∈ seen then .error (.catalog (.duplicateRelease place r.name))
    else requireDistinct place (r.name :: seen) rest

/-- Takes the sections of metadata apart. -/
def ofValue (place : String) (data : Value) : Except Failure Catalog :=
  match data with
  | .mapping _ entries => do
    let (place, entries) := wrapped place entries
    let descriptors ← sectionOf place entries "packages"
    let releaseItems ← sectionOf place entries "clusterServiceVersions"
    let definitionItems ← sectionOf place entries "customResourceDefinitions"
    let releases ← (releaseItems.mapM Release.ofDocument).mapError .field
    let definitions ← (definitionItems.mapM Definition.ofDocument).mapError .field
    requireDistinct (place ++ ".clusterServiceVersions") [] releases
    return { place, descriptors, releases, definitions }
  | v => .error (.catalog (.notMapping place v.typeName))

/-! ## Packages -/

/-- The release of a name. -/
def release? (releases : List Release) (name : String) : Option Release :=
  releases.find? (·.name = name)

/-- Adds the names of a release and of what it replaces, one after the other, until there is no
release of the name or the name was found before. `fuel` bounds the number of names that are
added. -/
def follow (releases : List Release) : Nat → List String → Option String → List String
  | 0, found, _ => found
  | _ + 1, found, none => found
  | fuel + 1, found, some name =>
    match release? releases name with
    | none => found
    | some r => if name ∈ found then found else follow releases fuel (found ++ [name]) r.replaces

/-- Adds what the head of a channel leads to. -/
def addChannel (releases : List Release) (package : String) (found : List String)
    (channel : String × Option String) : Except Failure (List String) :=
  match channel.2 with
  | none => .ok found
  | some head =>
    if (release? releases head).isNone then
      .error (.catalog (.unknownHead package channel.1 head))
    else .ok (follow releases releases.length found (some head))

/-- The names of the releases that the channels of a package lead to. -/
def reachable (releases : List Release) (package : String)
    (channels : List (String × Option String)) : Except Failure (List String) :=
  channels.foldlM (addChannel releases package) []

/-- The keys that releases own or require. -/
def wanted (releases : List Release) : List ResourceKey :=
  releases.flatMap fun r => r.owned ++ r.required

/-- Whether a definition serves one of some keys. -/
def serves (keys : List ResourceKey) (d : Definition) : Bool := d.keys.any fun k => k ∈ keys

/-- The package of a descriptor; `taken` are the identifiers of the packages before it. -/
def assemble (c : Catalog) (taken : List String) (descriptor : Value) : Except Failure Package := do
  let shell ← (Package.ofParts descriptor [] []).mapError .field
  if shell.id ∈ taken then
    .error (.catalog (.duplicatePackage (c.place ++ ".packages") shell.id))
  else
    let channels ← shell.channels.mapError .field
    let names ← reachable c.releases shell.id channels
    let releases := c.releases.filter fun r => r.name ∈ names
    let definitions := c.definitions.filter (serves (wanted releases))
    return { shell with releases, definitions }

/-- Makes packages of descriptors, until one fails: the packages, and the failure. -/
def assembleAll (c : Catalog) (made : List Package) : List Value → List Package × Option Failure
  | [] => (made, none)
  | d :: rest =>
    match c.assemble (made.map (·.id)) d with
    | .ok p => assembleAll c (made ++ [p]) rest
    | .error e => (made, some e)

/-- The packages of a catalog. -/
def packages (c : Catalog) : Except Failure (List Package) :=
  match c.assembleAll [] c.descriptors with
  | (made, none) => .ok made
  | (_, some e) => .error e

/-- The packages that metadata describe. -/
def packagesOf (place : String) (data : Value) : Except Failure (List Package) := do
  (← ofValue place data).packages

/-! ## Files -/

/-- The words that tell that a package was made. -/
def madeWords (p : Package) : String :=
  "loaded package " ++ p.id ++ ": " ++ toString p.releases.length ++ " CSVs, " ++
    toString p.definitions.length ++ " CRDs"

/-- Makes the packages that metadata describe, and tells of each of them. -/
def load (place : String) (data : Value) : Action (List Package) := do
  let c ← Action.ofExcept id (ofValue place data)
  let (made, failed) := c.assembleAll [] c.descriptors
  -- the packages before a faulty descriptor have been told of when it is met
  made.forM fun p => Action.note .debug catalogSource (madeWords p)
  match failed with
  | none => return made
  | some e => throw e

/-- The metadata in a file. -/
def readData (files : FileSystem) (p : Path) : Except Failure Value :=
  (readDocument files p).mapError fun
    | .yaml .malformed => .catalog (.malformedFile p.name)
    | e => e

/-- Makes the packages that a file of metadata describes. -/
def readPackages (p : Path) : Action (List Package) := do
  load p.name (← Action.look (readData · p))

/-- Makes one of the packages that a file of metadata describes. -/
def readPackage (p : Path) (id : String) : Action Package := do
  match (← readPackages p).find? (·.id = id) with
  | some package => return package
  | none => throw (.unknownPackage id p.name)

/-- Which definitions a package gets: those of the catalog that serve a key of its releases. -/
theorem assemble_definitions {c : Catalog} {taken : List String} {descriptor : Value} {p : Package}
    (h : c.assemble taken descriptor = .ok p) :
    p.definitions = c.definitions.filter (serves (wanted p.releases)) := by
  unfold assemble at h
  delta Except.mapError at h
  cases hs : Package.ofParts descriptor [] [] with
  | error e => simp [hs, bind, Except.bind] at h
  | ok shell =>
    simp only [hs, bind, Except.bind] at h
    split at h
    · cases h
    · cases hc : shell.channels with
      | error e => simp [hc] at h
      | ok channels =>
        simp only [hc] at h
        cases hr : reachable c.releases shell.id channels with
        | error e => simp [hr] at h
        | ok names =>
          simp only [hr, pure, Except.pure, Except.ok.injEq] at h
          subst h
          rfl

end Catalog

end RegistryTree
