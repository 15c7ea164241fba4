import RegistryTree.VersionOrder
import RegistryTree.Workspace

/-!
# Reading a manifest back

A manifest is read from the directory of its package: the one descriptor in it, and the bundles,
which are its subdirectories in the order of their versions. A bundle has one release and any number
of definitions; of definitions with one name the first that is met counts.

Nothing but the entries of the directories is asked for, and what a bundle holds is looked up by the
ends of names.

> `keepFirst_names`: no two definitions that are kept have one name.
-/

namespace RegistryTree.Manifest

/-- Whether a name ends in a suffix. -/
def hasSuffix (suffix name : String) : Bool := suffix.toList.isSuffixOf name.toList

/-- The names in a directory that end in a suffix, in ascending order. -/
def matching (names : List String) (suffix : String) : List String :=
  (names.filter (hasSuffix suffix)).mergeSort fun a b => !(b < a)

/-- The path of an entry of a directory. -/
def entryPath (directory : Path) (name : String) : Path :=
  ⟨directory.start, directory.parts ++ [name]⟩

/-- The one name in a directory that ends in a suffix. -/
def only (directory : Path) (names : List String) (suffix : String) : Except Failure String :=
  match matching names suffix with
  | [name] => .ok name
  | found => .error (.tree (.wrongCount directory.toText suffix found.length))

/-- The names in a directory. -/
def namesIn (files : FileSystem) (p : Path) : Except Failure (List String) :=
  (files.listing p).mapError .system

/-- What a bundle holds. -/
structure Bundle where
  release : Release
  definitions : List Definition

/-- Reads a bundle. -/
def readBundle (files : FileSystem) (p : Path) : Except Failure Bundle := do
  let names ← namesIn files p
  let file ← only p names Layout.releaseSuffix
  let document ← readDocument files (entryPath p file)
  let release ← (Release.ofDocument document).mapError .field
  let definitions ← (matching names Layout.definitionSuffix).mapM fun name => do
    let document ← readDocument files (entryPath p name)
    (Definition.ofDocument document).mapError .field
  return { release, definitions }

/-- Adds a definition, unless one of its name is there. -/
def keep (kept : List Definition) (d : Definition) : List Definition :=
  if kept.any (·.name = d.name) then kept else kept ++ [d]

/-- The definitions of a list, of each name the first. -/
def keepFirst (definitions : List Definition) : List Definition := definitions.foldl keep []

/-- The names of the subdirectories of a directory, in the order of versions. -/
def bundleNames (files : FileSystem) (p : Path) (names : List String) :
    Except Failure (List String) := do
  let found ← names.filterM fun name =>
    (files.leadsToDirectory (entryPath p name)).mapError .system
  (VersionKey.sortNames found).mapError .numeral

/-- Reads the package that a directory holds. -/
def read (files : FileSystem) (p : Path) : Except Failure Package := do
  let isDirectory ←
    if p.hasNull then .ok false else (files.leadsToDirectory p).mapError .system
  if !isDirectory then .error (.tree (.notDirectory p.toText))
  else
    let names ← namesIn files p
    let file ← only p names Layout.packageSuffix
    let document ← readDocument files (entryPath p file)
    let bundles ← (← bundleNames files p names).mapM fun name => readBundle files (entryPath p name)
    let definitions := keepFirst (bundles.flatMap (·.definitions))
    (Package.ofParts document (bundles.map (·.release)) definitions).mapError .field

theorem keep_names {kept : List Definition} (d : Definition) (h : (kept.map (·.name)).Nodup) :
    ((keep kept d).map (·.name)).Nodup := by
  unfold keep
  split
  · exact h
  · next hn =>
    rw [List.map_append, List.nodup_append]
    refine ⟨h, by simp, ?_⟩
    intro a ha b hb hab
    obtain ⟨c, hc, rfl⟩ := List.mem_map.1 ha
    rw [List.map_cons, List.map_nil, List.mem_singleton] at hb
    exact hn (List.any_eq_true.2 ⟨c, hc, by simpa [hb] using hab⟩)

/-- No two definitions that are kept have one name. -/
theorem keepFirst_names (definitions : List Definition) :
    ((keepFirst definitions).map (·.name)).Nodup := by
  suffices h : ∀ kept : List Definition, (kept.map (·.name)).Nodup →
      ((definitions.foldl keep kept).map (·.name)).Nodup from h [] List.nodup_nil
  induction definitions with
  | nil => exact fun _ h => h
  | cons d rest ih => exact fun kept h => ih _ (keep_names d h)

end RegistryTree.Manifest
