import RegistryTree.Proofs.Manifest.Creation
import RegistryTree.Proofs.Manifest.Names

/-!
# What an error leaves

Writing a manifest stops at the first error. An error from before the descriptor was in place tells
of no release, and there is at most an empty directory. Any later error tells the release that was
being written, and then everything up to that release is there, and nothing behind it.

> `create_interrupted`: what is there after an error, and which release the error tells.
-/

namespace RegistryTree.Manifest

open FileSystem

/-- What is there of the bundle of a release when its writing was ended by a fault. -/
inductive Remains (package : Package) (root : Path) (done : List Release) (r : Release) :
    ManifestFault → List (Place × Entry) → Prop
  /-- Nothing: there is no version, or no new directory can be named for it. -/
  | nothing (fault : ManifestFault) : (∀ what, fault ≠ .unresolved what) →
      (∀ version, r.version = some version → Layout.isComponent version = true →
        isTooLong version = false → isOverlong (root.child version) = false →
        version ∈ taken package done) →
      Remains package root done r fault []
  /-- An empty directory: there is a first key that no definition serves. -/
  | unresolved (version : String) (what : Unresolved) : r.version = some version →
      version ∉ taken package done →
      r.owned.find? (fun k => !serves package k) = some what.key →
      Remains package root done r (.unresolved what) (bundleStart version [])
  /-- A directory with the first of the definitions that the release resolves to, each of them
  whole. -/
  | begun (version : String) (fault : ManifestFault) (ds : List Definition) :
      r.version = some version → version ∉ taken package done →
      (∀ what, fault ≠ .unresolved what) →
      (ds = [] ∨ ∃ all, Resolution.resolve r (indexOf package) = .ok all ∧ ds <+: all) →
      (∀ d ∈ ds, ∃ text, Yaml.render d.toValue = .ok text) →
      Remains package root done r fault (bundleStart version ds)

/-- What is there after an error in writing a manifest. -/
inductive Interrupted (package : Package) (registry : Path) (before : FileSystem)
    (error : ManifestError) (after : FileSystem) : Prop
  /-- The descriptor was not in place: nothing has changed, or there is an empty directory. -/
  | early : error.release = none →
      (after = before ∨ ∃ directory, Rooted before registry package.id directory ∧
        after = before.put (directory ++ [package.id]) (.directory Layout.directoryMode)) →
      Interrupted package registry before error after
  /-- The release of a number was being written: the descriptor and the bundles before it are there
  whole, of its own bundle no file of a release, and nothing else. -/
  | during (directory : Place) (i : Nat) (r : Release) (left : List (Place × Entry)) :
      Rooted before registry package.id directory →
      package.releases[i]? = some r → error.release = some r.name →
      (∃ text, Yaml.render package.toValue = .ok text) →
      AllBundled before (registry.child package.id) package (package.releases.take i) →
      Remains package (registry.child package.id) (package.releases.take i) r error.fault left →
      (∀ rel, after.get? (directory ++ [package.id] ++ rel) =
        standing (part package (package.releases.take i) ++ left) rel) →
      (∀ version name, r.version = some version →
        version ∉ taken package (package.releases.take i) →
        hasSuffix Layout.releaseSuffix name = true →
        after.get? (directory ++ [package.id] ++ [version, name]) = none) →
      (∀ place, ¬ directory ++ [package.id] <+: place → after.get? place = before.get? place) →
      Interrupted package registry before error after

/-! ## From the failure to what remains -/

theorem within_eq_manifest {name : String} {e : Failure} {error : ManifestError}
    (h : within name e = .manifest error) :
    ∃ inner : ManifestError, e = .manifest inner ∧ error = inner.within name := by
  cases e with
  | manifest inner =>
    cases h
    exact ⟨inner, rfl, rfl⟩
  | _ => cases h

/-- A release that is halted is told, and what is left of its bundle is what `Remains` says. -/
theorem Halted.remains {package : Package} {root : Path} {done : List Release} {r : Release}
    {inner : ManifestError} {left : List (Place × Entry)}
    (h : Halted package root done r (.manifest inner) left) :
    (inner.within r.name).release = some r.name ∧
      Remains package root done r inner.fault left := by
  generalize he : Failure.manifest inner = e at h
  cases h with
  | missingVersion hv =>
    cases he
    refine ⟨rfl, .nothing _ (fun _ h => by cases h) fun version hv' => ?_⟩
    rw [hv] at hv'
    cases hv'
  | unsafeVersion version hv hc =>
    cases he
    refine ⟨rfl, .nothing _ (fun _ h => by cases h) fun version' hv' hc' => ?_⟩
    cases Option.some.inj (hv.symm.trans hv')
    rw [hc] at hc'
    cases hc'
  | noDirectory version cause hv hwhy =>
    cases he
    refine ⟨rfl, .nothing _ (fun _ h => by cases h) fun version' hv' _ hshort hlong => ?_⟩
    cases Option.some.inj (hv.symm.trans hv')
    simpa [hshort, hlong] using hwhy
  -- From here on the directory of the bundle stands, with the definitions before the one that is
  -- halted at.
  | unsafeRelease version hv hnew hc =>
    cases he
    exact ⟨rfl, .begun version _ [] hv hnew (fun _ h => by cases h) (Or.inl rfl)
      (fun _ hd => by cases hd)⟩
  | unresolved version what hv hnew hres =>
    cases he
    obtain ⟨hname, hfind⟩ := resolve_eq_error_iff_find.1 hres
    refine ⟨?_, .unresolved version what hv hnew hfind⟩
    show some what.release = some r.name
    rw [hname]
  | definition version before d more e hv hnew hres hsplit hrendered hstep =>
    cases he
    obtain ⟨hnone, hne⟩ := hstep.manifest_eq
    refine ⟨by rw [ManifestError.within, hnone]; rfl, .begun version _ before hv hnew hne ?_ hrendered⟩
    exact Or.inr ⟨_, hres, hsplit ▸ List.prefix_append ..⟩
  | release version e hv hnew hres hrendered hstep =>
    cases he
    obtain ⟨hnone, hne⟩ := hstep.manifest_eq
    refine ⟨by rw [ManifestError.within, hnone]; rfl, .begun version _ _ hv hnew hne ?_ hrendered⟩
    exact Or.inr ⟨_, hres, List.prefix_refl _⟩

/-- Of a bundle that was not finished there is no file of a release. -/
theorem Remains.no_release {package : Package} {root : Path} {done : List Release} {r : Release}
    {fault : ManifestFault} {left : List (Place × Entry)}
    (h : Remains package root done r fault left) {version name : String}
    (hs : hasSuffix Layout.releaseSuffix name = true) : standing left [version, name] = none := by
  -- a bundle that was begun has files of definitions alone
  have hbegun : ∀ (version' : String) (ds : List Definition),
      standing (bundleStart version' ds) [version, name] = none := by
    intro version' ds
    rw [standing_eq_none_iff]
    intro x hx heq
    rcases List.mem_cons.1 hx with rfl | hx
    · cases heq
    · obtain ⟨d, -, rfl⟩ := List.mem_map.1 hx
      have hname : definitionName d = name := by
        simpa [definitionEntry] using (List.cons.inj heq).2
      rw [← hname, (hasSuffix_definitionName d).2] at hs
      cases hs
  cases h with
  | nothing => rfl
  | unresolved version' what => exact hbegun version' []
  | begun version' _ ds => exact hbegun version' ds

/-! ## The files after an error -/

/-- After an error everything is there that was to be written before it, and nothing else; the error
tells the release that was being written, if the descriptor was in place. -/
theorem create_interrupted (package : Package) (registry : Path) {w : Workspace}
    {error : ManifestError} (ht : w.files.IsTree)
    (h : ((Manifest.new package registry).create w).1.2 = .error (.manifest error)) :
    Interrupted package registry w.files error
      ((Manifest.new package registry).create w).2.files := by
  have hc := created_create package registry ht
  rw [h] at hc
  generalize ((Manifest.new package registry).create w).2.files = after at hc ⊢
  generalize he : Except.error (Failure.manifest error) = result at hc
  cases hc with
  | unsafeId hid =>
    cases he
    exact .early rfl (Or.inl rfl)
  | noDirectory e hroot =>
    cases he
    cases hroot with
    | manifest fault => exact .early rfl (Or.inl rfl)
  | noDescriptor directory e hr hstep =>
    cases he
    refine .early hstep.manifest_eq.1 (Or.inr ⟨directory, hr, ?_⟩)
    simp [putAll]
  | halted directory done r more e left hr hrec hsplit hall hhalt =>
    obtain ⟨inner, rfl, rfl⟩ := within_eq_manifest (Except.error.inj he).symm
    obtain ⟨hname, hremains⟩ := hhalt.remains
    -- the releases before the one that was halted are told by its number
    have hdone : package.releases.take done.length = done := by
      rw [hsplit, List.take_left]
    refine .during directory done.length r left hr ?_ hname hrec.renders ?_ ?_ ?_ ?_ ?_
    · rw [hsplit, List.getElem?_append_right (Nat.le_refl _), Nat.sub_self, List.getElem?_cons_zero]
    · rwa [hdone]
    · rwa [hdone]
    · intro rel
      rw [hdone]
      exact ht.get?_putAll_eq hr.free _ rel
    · intro version name _ hnew hs
      rw [hdone] at hnew
      rw [ht.get?_putAll_eq hr.free, standing_append_of_not_taken hnew, hremains.no_release hs]
    · intro place hplace
      exact get?_putAll_outside (by simp) _ hplace
  | finished => cases he

/-- A release without a version ends the writing behind the release before it. -/
theorem create_interrupted_missingVersion :
    Interrupted (barePackage "demo" [bareRelease "a" (some "1.0"), bareRelease "b" none])
      ⟨.here, ["reg"]⟩ emptyRegistry (.ofFault (.missingVersion "b"))
      ((Manifest.new (barePackage "demo" [bareRelease "a" (some "1.0"), bareRelease "b" none])
        ⟨.here, ["reg"]⟩).create ⟨emptyRegistry, []⟩).2.files :=
  create_interrupted _ _ (w := ⟨emptyRegistry, []⟩) isTree_emptyRegistry (by decide +kernel)

end RegistryTree.Manifest
