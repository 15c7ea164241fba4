import RegistryTree.Workspace

/-!
# Manifests

A manifest is a package written into a registry as a tree of directories and files: the descriptor,
and a bundle for each release. Writing stops at the first thing that goes wrong and leaves what has
been written; `delete` removes it.

A manifest remembers where it was written, and what the keys of its definitions lead to, from one
call to the next.

> `create_root`: where a manifest remembers it was written.
> `delete_of_no_root`: a manifest that was never written is deleted by doing nothing.
-/

namespace RegistryTree

open RegistryTree.Action

/-- What the journal names for work on manifests. -/
def manifestSource : String := "opmanifest.bundle.manifest"

/-- A package that is to be written into a registry. -/
structure Manifest where
  package : Package
  registry : Path
  root : Option Path
  index : Option (List (ResourceKey × Definition))

namespace Manifest

/-- The manifest of a package in a registry, not yet written. -/
def new (package : Package) (registry : Path) : Manifest := ⟨package, registry, none, none⟩

/-- What the keys of the definitions of a package lead to. -/
def indexOf (package : Package) : List (ResourceKey × Definition) :=
  Resolution.index Definition.keys package.definitions

/-- What the keys of the definitions lead to, as it is remembered or made now. -/
def keyIndex (m : Manifest) : List (ResourceKey × Definition) := m.index.getD (indexOf m.package)

/-- The failure of a fault. -/
def failure (fault : ManifestFault) : Failure := .manifest (.ofFault fault)

/-- A path in the layout of a registry. -/
def named (path : Except UnsafeName Path) : Action Path :=
  ofExcept (fun name => failure (.unsafeName name)) path

/-- Whether an error in making the directory of a package tells that the registry is unusable. -/
def isConfiguration (cause : SystemError) : Bool :=
  match cause.errorClass with
  | .missing | .notDirectory | .permission => true
  | _ => false

/-- An error in making the directory of a package, as what it tells about the registry. -/
def asConfiguration (e : Failure) : Failure :=
  match e with
  | .manifest ⟨.io operation path cause, release⟩ =>
    if isConfiguration cause then failure (.configuration operation path cause)
    else .manifest ⟨.io operation path cause, release⟩
  | e => e

/-- Makes the directory of a package. -/
def createRoot (root : Path) : Action Path :=
  tryCatch (createDirectory root) fun e => throw (asConfiguration e)

/-- A failure while a release was being written. -/
def within (release : String) (e : Failure) : Failure :=
  match e with
  | .manifest error => .manifest (error.within release)
  | e => e

/-- Makes the directory of a bundle, which is named for the version. -/
def createBundleDirectory (root : Path) (release : Release) : Action Path :=
  match release.version with
  | none => throw (failure (.missingVersion release.name))
  | some version => do createDirectory (← named (Layout.bundleDirectory root version))

/-- Writes a definition into a bundle. -/
def writeDefinition (bundle : Path) (d : Definition) : Action Unit := do
  let p ← named (Layout.definitionFile bundle d.name)
  discard (writeDocument d.toValue p)

/-- Writes the directory and the files of a bundle. All that the release owns is resolved before the
first file is written, and the file of the release is the last. -/
def writeBundle (root : Path) (index : List (ResourceKey × Definition)) (release : Release) :
    Action Unit := do
  let bundle ← createBundleDirectory root release
  let file ← named (Layout.releaseFile bundle release.name)
  let owned ← ofExcept (fun what => failure (.unresolved what)) (Resolution.resolve release index)
  owned.forM (writeDefinition bundle)
  discard (writeDocument release.toValue file)

/-- Writes a bundle; an error tells the release that was being written. -/
def createBundle (root : Path) (index : List (ResourceKey × Definition)) (release : Release) :
    Action Unit := do
  tryCatch (writeBundle root index release) fun e => throw (within release.name e)
  note .debug manifestSource
    ("created bundle " ++ release.version.getD "" ++ " for CSV " ++ release.name)

/-- Writes a package below its directory. -/
def write (package : Package) (index : List (ResourceKey × Definition)) (root : Path) :
    Action Unit := do
  let root ← createRoot root
  let file ← named (Layout.packageFile root package.id)
  discard (writeDocument package.toValue file)
  package.releases.forM (createBundle root index)
  note .info manifestSource
    ("created manifest for package " ++ package.id ++ " at " ++ root.toText)

/-- Writes a manifest. The directory is remembered before anything is made. -/
def create (m : Manifest) : StateM Workspace (Manifest × Except Failure Unit) :=
  match Layout.packageRoot m.registry m.package.id with
  | .error name => return (m, .error (failure (.unsafeName name)))
  | .ok root => do
    -- whatever goes wrong from here on, the manifest knows what to delete
    let result ← (write m.package m.keyIndex root).run
    return ({ m with root := some root, index := some m.keyIndex }, result)

/-- Removes the directory of a package with all that is in it. What is not there, or is no
directory, need not be removed. -/
def deleteAt (package : Package) (root : Path) : Action Unit := do
  requireUsable root
  let (result, left) := (← files).removeDirectory root
  setFiles left
  match result with
  | .ok () =>
    note .info manifestSource
      ("deleted manifest for package " ++ package.id ++ " at " ++ root.toText)
  | .error cause =>
    match cause.errorClass with
    | .missing | .notDirectory => return
    | _ => throw (failure (.io "remove directory" root.toText cause))

/-- Removes what was written. -/
def delete (m : Manifest) : Action Unit :=
  match m.root with
  | none => return
  | some root => deleteAt m.package root

/-- Where a manifest remembers it was written. -/
theorem create_root (m : Manifest) (w : Workspace) :
    (m.create w).1.1.root =
      match Layout.packageRoot m.registry m.package.id with
      | .ok root => some root
      | .error _ => m.root := by
  unfold create
  cases Layout.packageRoot m.registry m.package.id <;> rfl

/-- A manifest that was never written is deleted by doing nothing. -/
theorem delete_of_no_root {m : Manifest} (h : m.root = none) (w : Workspace) :
    m.delete w = (.ok (), w) := by
  unfold delete
  rw [h]
  rfl

end Manifest

end RegistryTree
