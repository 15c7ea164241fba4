import RegistryTree.Proofs.FileSystem.Tree
import RegistryTree.Proofs.Manifest.Bundle

/-!
# Writing a package

A package is written below its directory: the descriptor, then a bundle for each release. `Underway`
is what holds between two bundles; it carries the loop over the releases.

All that can come of it is in `Created`: the result together with the files that are left. Whatever
else is said of a manifest that was written follows from there.

> `created_create`: writing a manifest into a tree ends in one of the ways of `Created`.
-/

namespace RegistryTree.Manifest

open FileSystem RegistryTree.Action

/-- Some releases have bundles of their own, and each of these is whole. -/
structure AllBundled (files : FileSystem) (root : Path) (package : Package) (done : List Release) :
    Prop where
  fresh : (taken package done).Nodup
  bundled : ∀ r ∈ done, ∃ version, Bundled files root package r version

/-- What holds while releases are written: `base` are the files from before, `done` the releases that
have been written. -/
structure Underway (base : FileSystem) (root : Path) (place : Place) (package : Package)
    (done : List Release) (w : Workspace) : Prop extends AllBundled base root package done where
  site : Site w.files root place
  keeps : Keeps base w.files
  files : w.files = base.putAll place (part package done)

/-! ## Between two bundles -/

theorem createBundle_run (root : Path) (index : List (ResourceKey × Definition)) (r : Release)
    (w : Workspace) :
    createBundle root index r w =
      match writeBundle root index r w with
      | (.error e, w') => (.error (within r.name e), w')
      | (.ok (), w') =>
        (.ok (), { w' with journal := w'.journal ++ [.note .debug manifestSource
          ("created bundle " ++ r.version.getD "" ++ " for CSV " ++ r.name)] }) := by
  rw [createBundle, bind_run, tryCatch_run]
  rcases writeBundle root index r w with ⟨_ | _, _⟩ <;> rfl

namespace Underway

variable {base : FileSystem} {registry : Path} {directory : Place} {package : Package}
  {done : List Release} {w : Workspace}

theorem get?_below {root : Path} {place : Place} (h : Underway base root place package done w)
    (hfree : ∀ rel, base.get? (place ++ rel) = none) (rel : Place) :
    w.files.get? (place ++ rel) = standing (part package done) rel := by
  rw [h.files, get?_putAll h.site.proper, hfree, Option.or_none]

/-- The directory of a package is found in either reading when that of the registry is. -/
theorem direct
    (h : Underway base (registry.child package.id) (directory ++ [package.id]) package done w)
    (hid : Layout.isComponent package.id = true) (hshort : isTooLong package.id = false)
    (hdirect : base.Direct registry directory) :
    w.files.Direct (registry.child package.id) (directory ++ [package.id]) := by
  obtain ⟨-, hdot, hup, -, -⟩ := Layout.isComponent_iff.1 hid
  exact (hdirect.of_keeps h.keeps).child h.site.leads.directory hdot hup hshort

/-- One bundle more, or the release is halted. -/
theorem createBundle_cases {root : Path} {place : Place}
    (h : Underway base root place package done w)
    (hfree : ∀ rel, base.get? (place ++ rel) = none) (r : Release) :
    (∃ w', createBundle root (indexOf package) r w = (.ok (), w') ∧
      Underway base root place package (done ++ [r]) w') ∨
    ∃ e left w', createBundle root (indexOf package) r w = (.error (within r.name e), w') ∧
      Halted package root done r e left ∧ w'.files = base.putAll place (part package done ++ left) ∧
      (w.files.Direct root place →
        ¬ ∃ version, Bundled base root package r version ∧ version ∉ taken package done) := by
  rw [createBundle_run]
  -- below the directory stands just what the loop has written so far
  rcases writeBundle_cases (r := r) h.site (fun name rel => h.get?_below hfree (name :: rel)) with
    ⟨version, w', hb, hnew, hrun, hsite, hkeeps, hfiles⟩ | ⟨e, left, w', he, hrun, hfiles, hstop⟩
  · have hbundled := (bundled_of_keeps h.keeps).1 hb
    rw [hrun]
    refine Or.inl ⟨_, rfl, ⟨?_, ?_⟩, hsite, h.keeps.trans hkeeps, ?_⟩
    · rw [taken_concat package done hb.named]
      refine List.nodup_append.2 ⟨h.fresh, by simp, fun a ha b hb' heq => hnew ?_⟩
      rwa [← List.mem_singleton.1 hb', ← heq]
    · intro r' hr'
      rcases List.mem_append.1 hr' with hr' | hr'
      · exact h.bundled r' hr'
      · cases List.mem_singleton.1 hr'
        exact ⟨version, hbundled⟩
    · show w'.files = _
      rw [hfiles, h.files, part_concat, putAll_append]
  · rw [hrun]
    refine Or.inr ⟨e, left, w', rfl, he, ?_, fun hdirect => ?_⟩
    · rw [hfiles, h.files, putAll_append]
    · intro hgiven
      obtain ⟨version, hb, hnew⟩ := hgiven
      exact hstop hdirect ⟨version, (bundled_of_keeps h.keeps).2 hb, hnew⟩

/-- The bundles are written one after the other, up to the first release that is halted. -/
theorem forM_createBundle_cases {root : Path} {place : Place}
    (h : Underway base root place package [] w)
    (hfree : ∀ rel, base.get? (place ++ rel) = none) :
    (∃ w', package.releases.forM (createBundle root (indexOf package)) w = (.ok (), w') ∧
      Underway base root place package package.releases w') ∨
    ∃ done r more e left w', package.releases = done ++ r :: more ∧
      package.releases.forM (createBundle root (indexOf package)) w =
        (.error (within r.name e), w') ∧
      AllBundled base root package done ∧ Halted package root done r e left ∧
      w'.files = base.putAll place (part package done ++ left) ∧
      ((∀ done w, Underway base root place package done w → w.files.Direct root place) →
        ¬ ∃ version, Bundled base root package r version ∧ version ∉ taken package done) := by
  have hrun := forM_cases (createBundle root (indexOf package)) package.releases
    (Underway base root place package)
    (fun done r failure w' => ∃ e left, failure = within r.name e ∧
      AllBundled base root package done ∧ Halted package root done r e left ∧
      w'.files = base.putAll place (part package done ++ left) ∧
      ((∀ done w, Underway base root place package done w → w.files.Direct root place) →
        ¬ ∃ version, Bundled base root package r version ∧ version ∉ taken package done))
    ?_ h
  · rcases hrun with hok | ⟨done, r, more, _, w', hsplit, hrun, e, left, rfl, hall, he, hfiles, hstop⟩
    · exact Or.inl hok
    · exact Or.inr ⟨done, r, more, e, left, w', hsplit, hrun, hall, he, hfiles, hstop⟩
  · intro done r more _ w hw
    rcases hw.createBundle_cases hfree r with ⟨w', hrun, hw'⟩ | ⟨e, left, w', hrun, he, hfiles, hstop⟩
    · exact Or.inl ⟨w', hrun, hw'⟩
    · exact Or.inr ⟨_, w', hrun, e, left, rfl, hw.toAllBundled, he, hfiles,
        fun hdirect => hstop (hdirect done w hw)⟩

end Underway

/-! ## The directory of a package -/

/-- A registry in which the directory of a package can be made: the identifier is the name of an
entry, the path stands for a place in a directory, and nothing stands there. -/
structure Rooted (files : FileSystem) (registry : Path) (id : String) (directory : Place) : Prop where
  component : Layout.isComponent id = true
  usable : (registry.child id).hasNull = false
  slot : files.slot (registry.child id) = .ok (some (directory ++ [id]))
  free : files.get? (directory ++ [id]) = none

theorem Rooted.short {files : FileSystem} {registry : Path} {id : String} {directory : Place}
    (h : Rooted files registry id directory) : isTooLong id = false := by
  obtain ⟨-, -, -, -, hshort, -⟩ := leadsTo_of_slot_child h.slot
  exact hshort

theorem Rooted.leads {files : FileSystem} {registry : Path} {id : String} {directory : Place}
    (h : Rooted files registry id directory) : files.LeadsTo registry directory := by
  obtain ⟨found, hl, hplace, -⟩ := leadsTo_of_slot_child h.slot
  rwa [(List.append_inj' hplace rfl).1]

/-- The failures of making the directory of a package: an error that knows no release, or a path that
cannot be handed to the system. -/
inductive RootFailure (root : Path) : Failure → Prop
  | manifest (fault : ManifestFault) : RootFailure root (.manifest ⟨fault, none⟩)
  | null : root.hasNull = true → RootFailure root .nullInPath

theorem asConfiguration_io (root : Path) (operation path : String) (cause : SystemError) :
    RootFailure root (asConfiguration (.manifest (.ofFault (.io operation path cause)))) := by
  show RootFailure root (if isConfiguration cause then
    failure (.configuration operation path cause) else .manifest ⟨.io operation path cause, none⟩)
  split
  next => exact .manifest _
  next => exact .manifest _

/-- The directory of a package is made, or nothing has changed. -/
theorem createRoot_cases (registry : Path) {id : String} (hid : Layout.isComponent id = true)
    (w : Workspace) :
    (∃ directory journal, Rooted w.files registry id directory ∧
      createRoot (registry.child id) w = (.ok (registry.child id),
        ⟨w.files.put (directory ++ [id]) (.directory Layout.directoryMode), journal⟩)) ∨
    ∃ e, createRoot (registry.child id) w = (.error e, w) ∧ RootFailure (registry.child id) e ∧
      ∀ directory, ¬ Rooted w.files registry id directory := by
  rw [createRoot, tryCatch_run, createDirectory_run]
  cases hnull : (registry.child id).hasNull with
  | true =>
    refine Or.inr ⟨.nullInPath, rfl, .null hnull, fun directory h => ?_⟩
    rw [h.usable] at hnull
    cases hnull
  | false =>
    simp only [Bool.false_eq_true, if_false]
    -- A directory is made only at a place that the path stands for and where nothing stood, which
    -- is what it is to be rooted there.
    cases hm : w.files.makeDirectory (registry.child id) Layout.directoryMode with
    | error cause =>
      refine Or.inr ⟨_, rfl, asConfiguration_io .., fun directory h => ?_⟩
      rw [makeDirectory, h.slot] at hm
      simp [h.free] at hm
    | ok after =>
      obtain ⟨place, hs, hnone, rfl⟩ := makeDirectory_ok hm
      obtain ⟨directory, -, rfl, -⟩ := leadsTo_of_slot_child hs
      exact Or.inl ⟨directory, _, ⟨hid, hnull, hs, hnone⟩, rfl⟩

/-- In a regular file system, the new directory is a site. -/
theorem Rooted.site {files : FileSystem} {registry : Path} {id : String} {directory : Place}
    (h : Rooted files registry id directory) (ht : files.IsRegular) :
    Site (files.put (directory ++ [id]) (.directory Layout.directoryMode)) (registry.child id)
      (directory ++ [id]) := by
  obtain ⟨-, hdot, hup, -, -⟩ := Layout.isComponent_iff.1 h.component
  have hne : directory ++ [id] ≠ [] := by simp
  have hkeeps : Keeps files (files.put (directory ++ [id]) (.directory Layout.directoryMode)) :=
    keeps_put_of_none hne h.free
  refine ⟨(h.leads.of_keeps hkeeps).child ?_ hdot hup h.short, hne, fun rel target => ?_, h.usable⟩
  · exact isDirectoryAt_iff.2 ⟨_, by rw [get?_put _ _ _ hne, if_pos rfl]⟩
  · rw [get?_put _ _ _ hne, ht.get?_below h.free]
    split
    next => simp
    next => simp

/-! ## The whole of a package -/

/-- All that can come of writing a manifest: the result, and the files that are left. -/
inductive Created (package : Package) (registry : Path) (before : FileSystem) :
    Except Failure Unit → FileSystem → Prop
  | unsafeId : Layout.isComponent package.id = false →
      Created package registry before
        (.error (failure (.unsafeName ⟨"package id", package.id⟩))) before
  | noDirectory (e : Failure) : RootFailure (registry.child package.id) e →
      (∀ directory, ¬ Rooted before registry package.id directory) →
      Created package registry before (.error e) before
  | noDescriptor (directory : Place) (e : Failure) :
      Rooted before registry package.id directory → StepFailure e →
      (before.Direct registry directory →
        ¬ Recordable before (registry.child package.id) (descriptorName package) package.toValue) →
      Created package registry before (.error e)
        (before.putAll (directory ++ [package.id]) [([], .directory Layout.directoryMode)])
  | halted (directory : Place) (done : List Release) (r : Release) (more : List Release)
      (e : Failure) (left : List (Place × Entry)) :
      Rooted before registry package.id directory →
      Recordable before (registry.child package.id) (descriptorName package) package.toValue →
      package.releases = done ++ r :: more →
      AllBundled before (registry.child package.id) package done →
      Halted package (registry.child package.id) done r e left →
      (before.Direct registry directory →
        ¬ ∃ version, Bundled before (registry.child package.id) package r version ∧
          version ∉ taken package done) →
      Created package registry before (.error (within r.name e))
        (before.putAll (directory ++ [package.id]) (part package done ++ left))
  | finished (directory : Place) :
      Rooted before registry package.id directory →
      Recordable before (registry.child package.id) (descriptorName package) package.toValue →
      AllBundled before (registry.child package.id) package package.releases →
      Created package registry before (.ok ())
        (before.putAll (directory ++ [package.id]) (entries package))

/-- The descriptor is written into the new directory, or the directory is left empty. -/
theorem Rooted.writeDescriptor_cases {w : Workspace} {registry : Path} {package : Package}
    {directory : Place} (h : Rooted w.files registry package.id directory)
    (journal : List Record) (ht : w.files.IsRegular) :
    (∃ e, StepFailure e ∧
      writeDocument package.toValue ((registry.child package.id).child (descriptorName package))
        ⟨w.files.put (directory ++ [package.id]) (.directory Layout.directoryMode), journal⟩ =
        (.error e, ⟨w.files.put (directory ++ [package.id]) (.directory Layout.directoryMode),
          journal⟩) ∧
      (w.files.Direct registry directory →
        ¬ Recordable w.files (registry.child package.id) (descriptorName package)
          package.toValue)) ∨
    ∃ w', Recordable w.files (registry.child package.id) (descriptorName package)
        package.toValue ∧
      writeDocument package.toValue ((registry.child package.id).child (descriptorName package))
        ⟨w.files.put (directory ++ [package.id]) (.directory Layout.directoryMode), journal⟩ =
        (.ok ((registry.child package.id).child (descriptorName package)), w') ∧
      Underway w.files (registry.child package.id) (directory ++ [package.id]) package [] w' := by
  have hne : directory ++ [package.id] ≠ [] := by simp
  have hsite := h.site ht
  have hkeeps : Keeps w.files (w.files.put (directory ++ [package.id])
      (.directory Layout.directoryMode)) := keeps_put_of_none hne h.free
  have hempty : ∀ name, (w.files.put (directory ++ [package.id])
      (.directory Layout.directoryMode)).get? (directory ++ [package.id] ++ [name]) = none := by
    intro name
    rw [get?_put _ _ _ hne, if_neg (by simp), ht.get?_below h.free]
  have hnodir : (w.files.put (directory ++ [package.id]) (.directory Layout.directoryMode)).isDirectoryAt
      (directory ++ [package.id] ++ [descriptorName package]) = false := by
    rw [isDirectoryAt, hempty]
    rfl
  have hname : Layout.isComponent (descriptorName package) = true :=
    Layout.isComponent_append h.component Layout.isSuffix_package
  rcases Site.writeDocument_cases
      (w := ⟨w.files.put (directory ++ [package.id]) (.directory Layout.directoryMode), journal⟩)
      hsite package.toValue hname with ⟨e, he, hrun, hstop⟩ | ⟨journal', hr, hd, hrun⟩
  · refine Or.inl ⟨e, he, hrun, fun hdirect hrec => ?_⟩
    obtain ⟨-, hdot, hup, -, -⟩ := Layout.isComponent_iff.1 h.component
    -- in the new directory nothing is in the way of the descriptor
    have hinner := (hdirect.of_keeps hkeeps).child hsite.leads.directory hdot hup h.short
    exact hstop hinner hnodir (hempty _) ((recordable_of_keeps hkeeps).2 hrec)
  · refine Or.inr ⟨_, (recordable_of_keeps hkeeps).1 hr, hrun, ⟨?_, ?_⟩, ?_, ?_, ?_⟩
    · simp [taken]
    · exact fun _ hr => by cases hr
    · exact hsite.put_document _ _ hd
    · exact hkeeps.trans (hsite.keeps_put hd)
    · rw [part_nil, start]
      simp [putAll]

/-- The package is written below its new directory in one of the ways of `Created`. -/
theorem Rooted.write_created {w : Workspace} {registry : Path} {package : Package}
    {directory : Place} {journal : List Record}
    (h : Rooted w.files registry package.id directory) (ht : w.files.IsRegular)
    (hroot : createRoot (registry.child package.id) w = (.ok (registry.child package.id),
      ⟨w.files.put (directory ++ [package.id]) (.directory Layout.directoryMode), journal⟩)) :
    Created package registry w.files (write package (indexOf package) (registry.child package.id) w).1
      (write package (indexOf package) (registry.child package.id) w).2.files := by
  have hfree := ht.get?_below h.free
  rw [write, bind_run, hroot]
  simp only
  rw [bind_run, named_run, Layout.packageFile_eq, if_pos h.component,
    show package.id ++ Layout.packageSuffix = descriptorName package from rfl]
  simp only [mapError_ok]
  rw [bind_run, discard_run]
  -- first the descriptor, then the bundles
  rcases h.writeDescriptor_cases journal ht with
    ⟨e, he, hrun, hstop⟩ | ⟨w₁, hrec, hrun, h₁⟩
  · have hleft : w.files.putAll (directory ++ [package.id]) [([], .directory Layout.directoryMode)] =
        w.files.put (directory ++ [package.id]) (.directory Layout.directoryMode) := by
      simp [putAll]
    have hend := Created.noDescriptor directory e h he hstop
    rw [hleft] at hend
    rw [hrun]
    exact hend
  · rw [hrun]
    simp only
    rw [bind_run]
    rcases h₁.forM_createBundle_cases hfree with
      ⟨w₂, hrun, h₂⟩ | ⟨done, r, more, e, left, w₂, hsplit, hrun, hall, he, hfiles, hstop⟩
    · rw [hrun]
      show Created package registry w.files (.ok ()) w₂.files
      rw [h₂.files]
      exact Created.finished directory h hrec h₂.toAllBundled
    · rw [hrun]
      show Created package registry w.files (.error (within r.name e)) w₂.files
      rw [hfiles]
      refine Created.halted directory done r more e left h hrec hsplit hall he fun hdirect => ?_
      exact hstop fun done w hw => hw.direct h.component h.short hdirect

/-- Writing a manifest ends in one of the ways of `Created`. -/
theorem created_of_regular (package : Package) (registry : Path) {w : Workspace} (ht : w.files.IsRegular) :
    Created package registry w.files ((Manifest.new package registry).create w).1.2
      ((Manifest.new package registry).create w).2.files := by
  unfold create
  simp only [Manifest.new, Layout.packageRoot_eq]
  cases hid : Layout.isComponent package.id with
  | false =>
    simp only [Bool.false_eq_true, if_false]
    exact Created.unsafeId hid
  | true =>
    simp only [if_true]
    show Created package registry w.files
      (write package (indexOf package) (registry.child package.id) w).1
      (write package (indexOf package) (registry.child package.id) w).2.files
    rcases createRoot_cases registry hid w with
      ⟨directory, journal, h, hroot⟩ | ⟨e, hroot, he, hnot⟩
    · exact h.write_created ht hroot
    · rw [write, bind_run, hroot]
      exact Created.noDirectory e he hnot

/-- Writing a manifest into a tree ends in one of the ways of `Created`. -/
theorem created_create (package : Package) (registry : Path) {w : Workspace} (ht : w.files.IsTree) :
    Created package registry w.files ((Manifest.new package registry).create w).1.2
      ((Manifest.new package registry).create w).2.files :=
  created_of_regular package registry ht.toIsRegular

/-! ## Small packages -/

/-- A release with a name and perhaps a version, and nothing that it owns. -/
def bareRelease (name : String) (version : Option String) : Release where
  document := [(.text "metadata", .mapping none [(.text "name", .text name)]),
    (.text "spec", .mapping none (version.toList.map fun v => (.text "version", .text v)))]
  name := name
  version := version
  replaces := none
  owned := []
  required := []

/-- A package with releases and no definitions. -/
def barePackage (id : String) (releases : List Release) : Package :=
  ⟨[(.text "packageName", .text id)], id, releases, []⟩

/-- A file system with nothing in it but an empty directory for packages. -/
def emptyRegistry : FileSystem := ⟨[(["reg"], .directory 0o755)], []⟩

theorem isTree_emptyRegistry : emptyRegistry.IsTree :=
  ⟨⟨by decide, by decide, by decide, by decide, by decide⟩, by decide⟩

end RegistryTree.Manifest
