import RegistryTree.Manifest
import RegistryTree.Proofs.Workspace

/-!
# What a package is written as

The directories and files that a package is written as, as a list of places below its directory in
the order in which they are made; of two files for one place the later stands. The list says what is
to be written; that it is what is written is shown elsewhere.

> `resolve_eq_ok_iff_served`: a release resolves when each key that it owns is served.
> `resolve_eq_error_iff_find`: otherwise the first key that is not served is told.
> `standing_part_of_not_taken`: below the directory of a package nothing stands but at the names of
> the descriptor and of the versions that have been written.
-/

namespace RegistryTree.Manifest

open FileSystem

/-- Whether some definition of a package serves a key. -/
def serves (package : Package) (k : ResourceKey) : Bool := package.definitions.any fun d => k ∈ d.keys

/-- The definitions that a release owns, in the order of its keys: of those that serve a key, the
first. -/
def ownedDefinitions (package : Package) (r : Release) : List Definition :=
  r.owned.filterMap fun k => package.definitions.find? fun d => k ∈ d.keys

theorem isSome_get?_indexOf (package : Package) (k : ResourceKey) :
    (Resolution.get? (indexOf package) k).isSome = serves package k := by
  rw [indexOf, Resolution.get?_index, serves, List.isSome_find?]

theorem resolve_eq_ok_iff_served {package : Package} {r : Release} {ds : List Definition} :
    Resolution.resolve r (indexOf package) = .ok ds ↔
      (∀ k ∈ r.owned, serves package k = true) ∧ ds = ownedDefinitions package r := by
  have hfound : r.owned.filterMap (Resolution.get? (indexOf package)) =
      ownedDefinitions package r := by
    rw [ownedDefinitions]
    congr 1
    funext k
    rw [indexOf, Resolution.get?_index]
  rw [Resolution.resolve_eq_ok_iff, hfound]
  simp only [isSome_get?_indexOf]

theorem resolve_eq_error_iff_find {package : Package} {r : Release} {u : Unresolved} :
    Resolution.resolve r (indexOf package) = .error u ↔
      u.release = r.name ∧ r.owned.find? (fun k => !serves package k) = some u.key := by
  rw [Resolution.resolve_eq_error_iff]
  simp only [← isSome_get?_indexOf, Option.not_isSome]

theorem named_run (path : Except UnsafeName Path) (w : Workspace) :
    named path w = (path.mapError fun name => failure (.unsafeName name), w) :=
  Action.ofExcept_run ..

/-! ## Names -/

/-- The name of the file of a descriptor. -/
def descriptorName (package : Package) : String := package.id ++ Layout.packageSuffix

/-- The name of the file of a release. -/
def releaseName (r : Release) : String := r.name ++ Layout.releaseSuffix

/-- The name of the file of a definition. -/
def definitionName (d : Definition) : String := d.name ++ Layout.definitionSuffix

/-! ## Entries -/

/-- The directory of a package with its descriptor. -/
def start (package : Package) : List (Place × Entry) :=
  [([], .directory Layout.directoryMode), ([descriptorName package], documentOf package.toValue)]

/-- The file of a definition in the bundle of a version. -/
def definitionEntry (version : String) (d : Definition) : Place × Entry :=
  ([version, definitionName d], documentOf d.toValue)

/-- The directory of a bundle with some definitions. -/
def bundleStart (version : String) (ds : List Definition) : List (Place × Entry) :=
  ([version], .directory Layout.directoryMode) :: ds.map (definitionEntry version)

/-- The file of a release in the bundle of its version. -/
def releaseEntry (version : String) (r : Release) : Place × Entry :=
  ([version, releaseName r], documentOf r.toValue)

/-- The bundle of a release: its directory, the definitions that it owns, and the release last. A
release without a version has none. -/
def bundle (package : Package) (r : Release) : List (Place × Entry) :=
  match r.version with
  | none => []
  | some version => bundleStart version (ownedDefinitions package r) ++ [releaseEntry version r]

/-- What is there of a package when some of its releases have been written. -/
def part (package : Package) (done : List Release) : List (Place × Entry) :=
  start package ++ done.flatMap (bundle package)

/-- The whole of a package. -/
def entries (package : Package) : List (Place × Entry) := part package package.releases

/-! ## Names that are taken -/

/-- The names that are taken in the directory of a package when some of its releases have been
written: that of the descriptor, and the versions. -/
def taken (package : Package) (done : List Release) : List String :=
  descriptorName package :: done.filterMap (·.version)

theorem part_nil (package : Package) : part package [] = start package := by
  simp [part]

theorem part_concat (package : Package) (done : List Release) (r : Release) :
    part package (done ++ [r]) = part package done ++ bundle package r := by
  simp [part]

theorem taken_concat (package : Package) (done : List Release) {r : Release} {version : String}
    (h : r.version = some version) :
    taken package (done ++ [r]) = taken package done ++ [version] := by
  simp [taken, h]

/-- All that is in a bundle stands at the version or below it. -/
theorem mem_bundle {package : Package} {r : Release} {x : Place × Entry}
    (h : x ∈ bundle package r) : ∃ version rel, r.version = some version ∧ x.1 = version :: rel := by
  unfold bundle at h
  split at h
  next => cases h
  next version hv =>
    refine ⟨version, ?_⟩
    simp only [bundleStart, List.cons_append, List.mem_cons, List.mem_append, List.mem_map] at h
    rcases h with rfl | ⟨d, -, rfl⟩ | rfl | h
    · exact ⟨_, hv, rfl⟩
    · exact ⟨_, hv, rfl⟩
    · exact ⟨_, hv, rfl⟩
    · cases h

/-- Below the directory of a package nothing stands but at names that are taken. -/
theorem standing_part_of_not_taken {package : Package} {done : List Release} {name : String}
    (h : name ∉ taken package done) (rel : Place) :
    standing (part package done) (name :: rel) = none := by
  rw [standing_eq_none_iff]
  intro x hx heq
  rw [part, List.mem_append, List.mem_flatMap] at hx
  rcases hx with hx | ⟨r, hr, hx⟩
  · simp only [start, List.mem_cons, List.not_mem_nil, or_false] at hx
    rcases hx with rfl | rfl
    · cases heq
    · cases heq
      exact h List.mem_cons_self
  · obtain ⟨version, more, hv, hplace⟩ := mem_bundle hx
    rw [hplace] at heq
    cases heq
    exact h (List.mem_cons_of_mem _ (List.mem_filterMap.2 ⟨r, hr, hv⟩))

/-- A name that is taken is taken by an entry. -/
theorem standing_part_of_taken {package : Package} {done : List Release} {name : String}
    (h : name ∈ taken package done) : standing (part package done) [name] ≠ none := by
  rw [Ne, standing_eq_none_iff]
  intro hall
  rcases List.mem_cons.1 h with rfl | hversion
  · exact hall ([descriptorName package], documentOf package.toValue)
      (by simp [part, start]) rfl
  · obtain ⟨r, hr, hv⟩ := List.mem_filterMap.1 hversion
    refine hall ([name], .directory Layout.directoryMode) ?_ rfl
    rw [part, List.mem_append, List.mem_flatMap]
    exact Or.inr ⟨r, hr, by rw [bundle, hv]; simp [bundleStart]⟩

/-- Behind a new name stands what has been put there last. -/
theorem standing_append_of_not_taken {package : Package} {done : List Release} {name : String}
    (h : name ∉ taken package done) (left : List (Place × Entry)) (rel : Place) :
    standing (part package done ++ left) (name :: rel) = standing left (name :: rel) := by
  rw [standing_append, standing_part_of_not_taken h, Option.or_none]

/-! ## The files of a bundle -/

theorem getLast?_temporaryName (name : String) (attempt : Nat) :
    (temporaryName name attempt).toList.getLast? = some 'p' := by
  rw [temporaryName, String.toList_append, List.getLast?_append]
  rfl

theorem getLast?_definitionName (d : Definition) :
    (definitionName d).toList.getLast? = some 'l' := by
  rw [definitionName, String.toList_append, List.getLast?_append]
  rfl

end RegistryTree.Manifest
