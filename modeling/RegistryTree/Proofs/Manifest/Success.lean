import RegistryTree.Proofs.Manifest.Creation

/-!
# When a package is written, and as what

Whether a package can be written depends on the package alone, as long as no path grows too long:
`Sound` says what the package must be like, and `PathsFit` that the paths stay within their limit.
What it is written as is told by `treeOf`, place by place.

> `standing_entries`: the list of all that is written holds what `treeOf` tells.
> `create_eq_ok_iff`: a package is written exactly when it is sound and its paths fit, and what is
> then below its directory is exactly what `treeOf` tells.
-/

namespace RegistryTree.Manifest

open FileSystem

/-! ## The tree of a package -/

/-- The file of a name in the bundle of a release. Of definitions with one name the last counts. -/
def fileOf (package : Package) (r : Release) (name : String) : Option Entry :=
  if name = releaseName r then some (documentOf r.toValue)
  else ((ownedDefinitions package r).reverse.find? (definitionName · = name)).map
    (documentOf ·.toValue)

/-- What a package is written as: the entry at a place below its directory. -/
def treeOf (package : Package) : Place → Option Entry
  | [] => some (.directory Layout.directoryMode)
  | [name] =>
    if name = descriptorName package then some (documentOf package.toValue)
    else (package.releases.find? (·.version = some name)).map fun _ =>
      .directory Layout.directoryMode
  | [version, name] =>
    (package.releases.find? (·.version = some version)).bind (fileOf package · name)
  | _ => none

theorem lookup_definitionEntry (version name : String) (ds : List Definition) :
    (ds.map (definitionEntry version)).lookup [version, name] =
      (ds.find? (definitionName · = name)).map (documentOf ·.toValue) := by
  induction ds with
  | nil => rfl
  | cons d rest ih =>
    rw [List.map_cons, definitionEntry, List.lookup_cons, List.find?_cons]
    by_cases h : definitionName d = name
    · simp [h]
    · have hne : ([version, name] == [version, definitionName d]) = false := by
        simpa using fun e => h e.symm
      rw [hne, decide_eq_false h]
      exact ih

section

variable {package : Package} {r : Release} {version : String}

/-- The bundle of a release holds its files, and nothing below them. -/
theorem standing_bundle (h : r.version = some version) (rel : Place) :
    standing (bundle package r) (version :: rel) =
      match rel with
      | [] => some (.directory Layout.directoryMode)
      | [name] => fileOf package r name
      | _ => none := by
  rw [bundle, h]
  show standing (bundleStart version _ ++ [([version, releaseName r], documentOf r.toValue)]) _ = _
  rw [standing_concat]
  cases rel with
  | nil =>
    rw [if_neg (by simp), standing, bundleStart, List.reverse_cons, List.lookup_append,
      ← List.map_reverse]
    have hnone : ((ownedDefinitions package r).reverse.map (definitionEntry version)).lookup
        [version] = none := by
      rw [List.lookup_eq_none_iff]
      intro x hx
      obtain ⟨d, -, rfl⟩ := List.mem_map.1 hx
      simp [definitionEntry]
    rw [hnone]
    simp
  | cons name more =>
    cases more with
    | nil =>
      simp only [List.cons.injEq, true_and, and_true, fileOf]
      split
      next => rfl
      next =>
        rw [standing, bundleStart, List.reverse_cons, List.lookup_append, ← List.map_reverse,
          lookup_definitionEntry]
        -- behind the definitions there is only the directory itself
        have hlast : List.lookup [version, name]
            [([version], Entry.directory Layout.directoryMode)] = none := by
          simp [List.lookup_cons]
        rw [hlast, Option.or_none]
    | cons next rest =>
      rw [if_neg (by simp), standing_eq_none_iff]
      intro x hx heq
      rcases List.mem_cons.1 hx with rfl | hx
      · cases heq
      · obtain ⟨d, -, rfl⟩ := List.mem_map.1 hx
        simp [definitionEntry] at heq

/-- When no two releases have one version, below a version stands the bundle of its release. -/
theorem standing_flatMap_bundle {releases : List Release}
    (h : (releases.filterMap (·.version)).Nodup) (rel : Place) :
    standing (releases.flatMap (bundle package)) (version :: rel) =
      (releases.find? (·.version = some version)).bind fun r =>
        standing (bundle package r) (version :: rel) := by
  induction releases with
  | nil => rfl
  | cons r rest ih =>
    rw [List.flatMap_cons, standing_append, List.find?_cons]
    by_cases hv : r.version = some version
    · rw [List.filterMap_cons_some hv, List.nodup_cons] at h
      -- no release behind this one has its version
      have hnot : rest.find? (·.version = some version) = none := by
        rw [List.find?_eq_none]
        intro r' hr' hv'
        exact h.1 (List.mem_filterMap.2 ⟨r', hr', by simpa using hv'⟩)
      rw [ih h.2, hnot, decide_eq_true hv]
      rfl
    · have hrest : (rest.filterMap (·.version)).Nodup := by
        cases hr : r.version with
        | none => rwa [List.filterMap_cons_none hr] at h
        | some v =>
          rw [List.filterMap_cons_some hr, List.nodup_cons] at h
          exact h.2
      have hnone : standing (bundle package r) (version :: rel) = none := by
        rw [standing_eq_none_iff]
        intro x hx heq
        obtain ⟨v, more, hv', hplace⟩ := mem_bundle hx
        rw [hplace] at heq
        cases heq
        exact hv hv'
      rw [ih hrest, hnone, Option.or_none, decide_eq_false hv]

/-- All that is written of a package stands as its tree tells. -/
theorem standing_entries (h : (taken package package.releases).Nodup) (rel : Place) :
    standing (entries package) rel = treeOf package rel := by
  obtain ⟨hdescriptor, hversions⟩ := List.nodup_cons.1 h
  rw [entries, part, standing_append]
  cases rel with
  | nil =>
    have hnone : standing (package.releases.flatMap (bundle package)) [] = none := by
      rw [standing_eq_none_iff]
      intro x hx heq
      obtain ⟨r, -, hx⟩ := List.mem_flatMap.1 hx
      obtain ⟨v, more, -, hplace⟩ := mem_bundle hx
      rw [hplace] at heq
      cases heq
    rw [hnone]
    rfl
  | cons name more =>
    -- below a name stands the bundle of the release that has this version, or the descriptor
    rw [standing_flatMap_bundle hversions]
    cases hfind : package.releases.find? (·.version = some name) with
    | none =>
      show standing (start package) (name :: more) = _
      cases more with
      | nil =>
        rw [treeOf, hfind, show start package =
          [([], .directory Layout.directoryMode)] ++ [([descriptorName package],
            documentOf package.toValue)] from rfl, standing_concat]
        simp [standing, List.lookup_cons]
      | cons next rest =>
        have hnone : standing (start package) (name :: next :: rest) = none := by
          rw [standing_eq_none_iff]
          simp [start]
        rw [hnone]
        cases rest with
        | nil => rw [treeOf, hfind]; rfl
        | cons _ _ => rfl
    | some r =>
      have hv : r.version = some name := by simpa using List.find?_some hfind
      have hmem := List.mem_of_find?_eq_some hfind
      show (standing (bundle package r) (name :: more)).or _ = _
      rw [standing_bundle hv]
      cases more with
      | nil =>
        have hne : name ≠ descriptorName package := by
          intro heq
          subst heq
          exact hdescriptor (List.mem_filterMap.2 ⟨r, hmem, hv⟩)
        rw [treeOf, if_neg hne, hfind]
        rfl
      | cons next rest =>
        have hnone : standing (start package) (name :: next :: rest) = none := by
          rw [standing_eq_none_iff]
          simp [start]
        rw [hnone, Option.or_none]
        cases rest with
        | nil => rw [treeOf, hfind]; rfl
        | cons _ _ => rfl

end

/-! ## What a package must be like -/

/-- What there must be to a document and the name of its file: a text, and room for the name of the
temporary file. -/
def IsStorable (name : String) (v : Value) : Prop :=
  name.utf8ByteSize + 14 ≤ nameLimit ∧ ∃ text, Yaml.render v = .ok text

/-- A release that a bundle can be made of: what it owns is served, it is named for an entry like all
that it owns, and all of this is storable. -/
structure SoundRelease (package : Package) (r : Release) : Prop where
  version : ∃ version, r.version = some version ∧ Layout.isComponent version = true ∧
    isTooLong version = false
  served : ∀ k ∈ r.owned, serves package k = true
  name : Layout.isComponent r.name = true
  release : IsStorable (releaseName r) r.toValue
  definitions : ∀ d ∈ ownedDefinitions package r, Layout.isComponent d.name = true ∧
    IsStorable (definitionName d) d.toValue

/-- A package that can be written: the identifier and the releases are sound, the descriptor is
storable, and the versions differ from each other and from the name of the descriptor. -/
structure Sound (package : Package) : Prop where
  id : Layout.isComponent package.id = true
  short : isTooLong package.id = false
  descriptor : IsStorable (descriptorName package) package.toValue
  fresh : (taken package package.releases).Nodup
  releases : ∀ r ∈ package.releases, SoundRelease package r

/-- The paths to all that is written of a package are shorter than paths may be. -/
structure PathsFit (files : FileSystem) (registry : Path) (package : Package) : Prop where
  root : isOverlong (registry.child package.id) = false
  descriptor : PathFits files (registry.child package.id) (descriptorName package)
  bundles : ∀ r ∈ package.releases, ∀ version, r.version = some version →
    isOverlong ((registry.child package.id).child version) = false ∧
    PathFits files ((registry.child package.id).child version) (releaseName r) ∧
    ∀ d ∈ ownedDefinitions package r,
      PathFits files ((registry.child package.id).child version) (definitionName d)

theorem recordable_iff {files : FileSystem} {p : Path} {name : String} {v : Value} :
    Recordable files p name v ↔ IsStorable name v ∧ PathFits files p name :=
  ⟨fun h => ⟨⟨h.fits.room, h.renders⟩, h.fits.toPathFits⟩, fun h => ⟨h.1.2, ⟨h.2, h.1.1⟩⟩⟩

/-- What a bundle takes is that its release is sound and its paths fit. -/
theorem exists_bundled_iff {files : FileSystem} {root : Path} {package : Package} {r : Release} :
    (∃ version, Bundled files root package r version) ↔
      SoundRelease package r ∧ ∀ version, r.version = some version →
        isOverlong (root.child version) = false ∧
        PathFits files (root.child version) (releaseName r) ∧
        ∀ d ∈ ownedDefinitions package r, PathFits files (root.child version) (definitionName d) := by
  constructor
  · intro hgiven
    obtain ⟨version, h⟩ := hgiven
    refine ⟨⟨⟨version, h.named, h.component, h.short⟩, h.served, h.name,
      (recordable_iff.1 h.release).1, fun d hd => ?_⟩, fun version' hv => ?_⟩
    · obtain ⟨hc, hrec⟩ := h.definitions d hd
      exact ⟨hc, (recordable_iff.1 hrec).1⟩
    · cases Option.some.inj (h.named.symm.trans hv)
      exact ⟨h.path, (recordable_iff.1 h.release).2,
        fun d hd => (recordable_iff.1 (h.definitions d hd).2).2⟩
  · intro hgiven
    obtain ⟨h, hfits⟩ := hgiven
    obtain ⟨version, hv, hc, hshort⟩ := h.version
    obtain ⟨hlong, hrelease, hdefinitions⟩ := hfits version hv
    refine ⟨version, ⟨h.served, fun d hd => ?_, h.name, ?_⟩, hv, hc, hshort, hlong⟩
    · obtain ⟨hc', hs⟩ := h.definitions d hd
      exact ⟨hc', recordable_iff.2 ⟨hs, hdefinitions d hd⟩⟩
    · exact recordable_iff.2 ⟨h.release, hrelease⟩

/-! ## When a package is written -/

/-- In a directory of a tree where nothing stands under its identifier, a package has a place. -/
theorem rooted_of_leadsTo {files : FileSystem} {registry : Path} {id : String} {directory : Place}
    (ht : files.IsTree) (hl : files.LeadsTo registry directory)
    (hfree : files.get? (directory ++ [id]) = none) (hid : Layout.isComponent id = true)
    (hshort : isTooLong id = false) (hlong : isOverlong (registry.child id) = false) :
    Rooted files registry id directory := by
  obtain ⟨-, -, hup, -, -⟩ := Layout.isComponent_iff.1 hid
  exact ⟨hid, Path.hasNull_child (hl.usable ht.toIsRegular) hid, hl.slot_child_of_component hup hshort hlong,
    hfree⟩

theorem sound_of_finished {files : FileSystem} {registry : Path} {package : Package}
    {directory : Place} (hr : Rooted files registry package.id directory)
    (hrec : Recordable files (registry.child package.id) (descriptorName package) package.toValue)
    (hall : AllBundled files (registry.child package.id) package package.releases) :
    Sound package ∧ PathsFit files registry package := by
  obtain ⟨-, -, -, -, -, hlong⟩ := leadsTo_of_slot_child hr.slot
  obtain ⟨hstorable, hfits⟩ := recordable_iff.1 hrec
  refine ⟨⟨hr.component, hr.short, hstorable, hall.fresh, fun r hmem => ?_⟩,
    ⟨hlong, hfits, fun r hmem => ?_⟩⟩
  · exact (exists_bundled_iff.1 (hall.bundled r hmem)).1
  · exact (exists_bundled_iff.1 (hall.bundled r hmem)).2

theorem pathsFit_of_create {package : Package} {registry : Path} {w : Workspace}
    (ht : w.files.IsTree) (h : ((Manifest.new package registry).create w).1.2 = .ok ()) :
    PathsFit w.files registry package := by
  have hc := created_create package registry ht
  rw [h] at hc
  generalize ((Manifest.new package registry).create w).2.files = after at hc
  generalize hresult : (Except.ok () : Except Failure Unit) = result at hc
  cases hc with
  | finished directory hr hrec hall => exact (sound_of_finished hr hrec hall).2
  | _ => cases hresult

/-- A release of a sound package has a bundle whose version is not taken by a release before it. -/
theorem Sound.bundled {files : FileSystem} {registry : Path} {package : Package} (h : Sound package)
    (hfits : PathsFit files registry package) {done more : List Release} {r : Release}
    (hsplit : package.releases = done ++ r :: more) :
    ∃ version, Bundled files (registry.child package.id) package r version ∧
      version ∉ taken package done := by
  have hmem : r ∈ package.releases := by simp [hsplit]
  obtain ⟨version, hb⟩ := exists_bundled_iff.2 ⟨h.releases r hmem, hfits.bundles r hmem⟩
  refine ⟨version, hb, fun hin => ?_⟩
  have hfresh := h.fresh
  rw [hsplit, taken, List.filterMap_append, List.filterMap_cons_some hb.named,
    ← List.cons_append] at hfresh
  exact (List.nodup_append.1 hfresh).2.2 version hin version List.mem_cons_self rfl

/-- A package is written exactly when it is sound and its paths fit, and then its tree stands below
its directory, and nothing else does. -/
theorem create_eq_ok_iff (package : Package) (registry : Path) {w : Workspace} (directory : Place)
    (ht : w.files.IsTree) (hfollow : w.files.follow registry = .ok directory)
    (hdirectory : w.files.isDirectoryAt directory = true)
    (hfree : w.files.get? (directory ++ [package.id]) = none)
    (hdirect : w.files.Direct registry directory) :
    (((Manifest.new package registry).create w).1.2 = .ok () ↔
      Sound package ∧ PathsFit w.files registry package) ∧
    (((Manifest.new package registry).create w).1.2 = .ok () → ∀ rel,
      ((Manifest.new package registry).create w).2.files.get? (directory ++ [package.id] ++ rel) =
        treeOf package rel) := by
  have hl : w.files.LeadsTo registry directory := .of_follow hfollow hdirectory
  have hc := created_create package registry ht
  generalize ((Manifest.new package registry).create w).2.files = after at hc ⊢
  generalize ((Manifest.new package registry).create w).1.2 = result at hc ⊢
  -- what the package must be like is enough for its directory
  have hrooted : Sound package → PathsFit w.files registry package →
      Rooted w.files registry package.id directory := fun hsound hfits =>
    rooted_of_leadsTo ht hl hfree hsound.id hsound.short hfits.root
  have herror : ∀ e : Failure, ¬ (Sound package ∧ PathsFit w.files registry package) →
      ((Except.error e : Except Failure Unit) = .ok () ↔
        Sound package ∧ PathsFit w.files registry package) := by
    intro e hnot
    exact ⟨(fun he => by cases he), fun h => absurd h hnot⟩
  cases hc with
  | unsafeId hid =>
    refine ⟨herror _ fun h => ?_, fun he => by cases he⟩
    rw [h.1.id] at hid
    cases hid
  | noDirectory e _ hnot =>
    exact ⟨herror _ fun h => hnot directory (hrooted h.1 h.2), fun he => by cases he⟩
  | noDescriptor directory' e hr _ hstop =>
    refine ⟨herror _ fun h => ?_, fun he => by cases he⟩
    rw [hr.leads.unique hl] at hstop
    exact hstop hdirect (recordable_iff.2 ⟨h.1.descriptor, h.2.descriptor⟩)
  | halted directory' done r more e left hr _ hsplit _ _ hstop =>
    refine ⟨herror _ fun h => ?_, fun he => by cases he⟩
    rw [hr.leads.unique hl] at hstop
    exact hstop hdirect (h.1.bundled h.2 hsplit)
  | finished directory' hr hrec hall =>
    obtain ⟨hsound, hfits⟩ := sound_of_finished hr hrec hall
    refine ⟨⟨fun _ => ⟨hsound, hfits⟩, fun _ => rfl⟩, fun _ rel => ?_⟩
    rw [hr.leads.unique hl, ht.get?_putAll_eq hfree, standing_entries hsound.fresh]

/-- A package with one release is written as a descriptor and a bundle. -/
theorem create_eq_ok_iff_bare :
    ((Manifest.new (barePackage "demo" [bareRelease "a" (some "1.0")]) ⟨.here, ["reg"]⟩).create
      ⟨emptyRegistry, []⟩).1.2 = .ok () ∧
    Sound (barePackage "demo" [bareRelease "a" (some "1.0")]) ∧
    PathsFit emptyRegistry ⟨.here, ["reg"]⟩ (barePackage "demo" [bareRelease "a" (some "1.0")]) ∧
    ∀ rel, ((Manifest.new (barePackage "demo" [bareRelease "a" (some "1.0")])
        ⟨.here, ["reg"]⟩).create ⟨emptyRegistry, []⟩).2.files.get? (["reg"] ++ ["demo"] ++ rel) =
      treeOf (barePackage "demo" [bareRelease "a" (some "1.0")]) rel := by
  have hdone : ((Manifest.new (barePackage "demo" [bareRelease "a" (some "1.0")])
      ⟨.here, ["reg"]⟩).create ⟨emptyRegistry, []⟩).1.2 = .ok () := by decide +kernel
  obtain ⟨hiff, htree⟩ := create_eq_ok_iff (barePackage "demo" [bareRelease "a" (some "1.0")])
    ⟨.here, ["reg"]⟩ (w := ⟨emptyRegistry, []⟩) ["reg"] isTree_emptyRegistry
    (by decide +kernel) (by decide) (by decide)
    (isTree_emptyRegistry.direct ⟨by decide +kernel, by decide⟩ (by decide))
  exact ⟨hdone, (hiff.1 hdone).1, (hiff.1 hdone).2, htree hdone⟩

/-! ## Paths that do not fit -/

/-- A package without releases. -/
theorem sound_barePackage : Sound (barePackage "etcd" []) := by
  refine ⟨by decide, by decide, ⟨by decide, ?_⟩, by decide, fun r hr => by cases hr⟩
  exact ⟨(Yaml.render (barePackage "etcd" []).toValue).toOption.getD [], by decide +kernel⟩

/-- A registry whose path, taken at its word, leads to another directory. -/
def linkedRegistry : FileSystem :=
  ⟨[(["a"], .directory 0o755), (["a", "b"], .directory 0o755), (["a", "reg"], .directory 0o755),
    (["link"], .link "a/b")], []⟩

/-- The path of a directory by many steps back and forth. -/
def windingPath : Path := ⟨.here, (List.replicate 818 ["d", ".."]).flatten ++ ["d"]⟩

theorem walkWith_winding (onLink : Place → List String → Except ErrorCode Place) (count : Nat) :
    walkWith ⟨[(["d"], .directory 0o755)], []⟩ onLink []
      ((List.replicate count ["d", ".."]).flatten ++ ["d"]) = .ok ["d"] := by
  induction count with
  | zero => rfl
  | succ count ih =>
    -- two points lead back to where the walk began
    rw [List.replicate_succ, List.flatten_cons, List.append_assoc]
    exact ih

/-- Each step back and forth takes five octets of the text of a path. -/
theorem utf8ByteSize_winding (count : Nat) (more : List String) :
    (Path.toText ⟨.here, (List.replicate count ["d", ".."]).flatten ++ "d" :: more⟩).utf8ByteSize =
      5 * count + ("/".intercalate ("d" :: more)).utf8ByteSize := by
  have hname : "d".utf8ByteSize = 1 := by decide
  have hup : "..".utf8ByteSize = 2 := by decide
  have hslash : "/".utf8ByteSize = 1 := by decide
  have hempty : "".utf8ByteSize = 0 := by decide
  rw [Path.toText, if_neg (by simp), Start.slashes, String.utf8ByteSize_append, hempty, Nat.zero_add]
  induction count with
  | zero => simp
  | succ count ih =>
    obtain ⟨name, rest, hrest⟩ : ∃ name rest,
        (List.replicate count ["d", ".."]).flatten ++ "d" :: more = name :: rest :=
      List.exists_cons_of_ne_nil (by simp)
    rw [List.replicate_succ, List.flatten_cons, List.append_assoc, List.cons_append,
      List.cons_append, List.nil_append, String.intercalate_cons_cons, hrest,
      String.intercalate_cons_cons, ← hrest]
    simp only [String.utf8ByteSize_append, ih, hname, hup, hslash]
    omega

/-- The text of the winding path is short enough, with one name more it is not. -/
theorem isOverlong_windingPath :
    isOverlong windingPath = false ∧ isOverlong (windingPath.child "etcd") = true := by
  constructor
  · rw [isOverlong, windingPath, utf8ByteSize_winding]
    decide
  · rw [isOverlong, windingPath, Path.child, List.append_assoc, List.singleton_append,
      utf8ByteSize_winding]
    decide

/-- A sound package is not always written: the way to the registry may lead up behind a link, or be
too long. -/
theorem sound_not_written :
    (Sound (barePackage "etcd" []) ∧
      linkedRegistry.follow ⟨.here, ["link", "..", "reg"]⟩ = .ok ["a", "reg"] ∧
      linkedRegistry.isDirectoryAt ["a", "reg"] = true ∧
      linkedRegistry.get? ["a", "reg", "etcd"] = none ∧
      ((Manifest.new (barePackage "etcd" []) ⟨.here, ["link", "..", "reg"]⟩).create
        ⟨linkedRegistry, []⟩).1.2 ≠ .ok ()) ∧
    (Sound (barePackage "etcd" []) ∧
      FileSystem.follow ⟨[(["d"], .directory 0o755)], []⟩ windingPath = .ok ["d"] ∧
      FileSystem.isDirectoryAt ⟨[(["d"], .directory 0o755)], []⟩ ["d"] = true ∧
      FileSystem.get? ⟨[(["d"], .directory 0o755)], []⟩ ["d", "etcd"] = none ∧
      ((Manifest.new (barePackage "etcd" []) windingPath).create
        ⟨⟨[(["d"], .directory 0o755)], []⟩, []⟩).1.2 ≠ .ok ()) := by
  obtain ⟨hshort, hlong⟩ := isOverlong_windingPath
  refine ⟨⟨sound_barePackage, by decide +kernel, by decide, by decide, by decide +kernel⟩,
    ⟨sound_barePackage, ?_, by decide, by decide, fun hok => ?_⟩⟩
  · rw [FileSystem.follow, hshort, if_neg (by simp), followFrom, linkLimit, walk]
    exact walkWith_winding _ 818
  · have htree : FileSystem.IsTree ⟨[(["d"], .directory 0o755)], []⟩ :=
      ⟨⟨by decide, by decide, by decide, by decide, by decide⟩, by decide⟩
    have hfits := (pathsFit_of_create htree hok).root
    rw [show (barePackage "etcd" []).id = "etcd" from rfl, hlong] at hfits
    cases hfits

end RegistryTree.Manifest
