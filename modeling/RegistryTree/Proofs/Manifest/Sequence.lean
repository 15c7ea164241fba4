import RegistryTree.Proofs.Journal
import RegistryTree.Proofs.Manifest.Deletion

/-!
# Writing and removing, again and again

One manifest may be written and removed any number of times, whatever each call comes to. Between
two calls the files are in one of two stages: there is nothing of the manifest, or there is a
directory that the manifest made, in the place of the package, with what was written into it; and
then the manifest remembers where. What the files are like in the first stage, the *ground*, is left
open here: `Ground.perform` asks only that removing keeps it.

Two grounds are of interest. A ground that never differs from the first files but in the place of
the package and below tells what calls can reach; and where nothing stood in that place, the ground
is the first files themselves.

> `calls_confined`: no call changes what is not in the place of the package or below, and writing
> changes nothing where something stands already.
> `calls_delete_restore`: removing leaves the first files, and writing then does what it did first.
-/

namespace RegistryTree.Manifest

open FileSystem RegistryTree.Action

/-- What can be done with a manifest. -/
inductive Call where
  | create
  | delete
  deriving DecidableEq, Repr

/-- The manifest and the workspace behind a call, whatever it came to. -/
def Call.perform (call : Call) (m : Manifest) (w : Workspace) : Manifest × Workspace :=
  match call with
  | .create => ((m.create w).1.1, (m.create w).2)
  | .delete => (m, (m.delete w).2)

/-- The manifest and the workspace behind calls, one after the other. -/
def performAll : List Call → Manifest → Workspace → Manifest × Workspace
  | [], m, w => (m, w)
  | call :: calls, m, w => performAll calls (call.perform m w).1 (call.perform m w).2

theorem performAll_concat (calls : List Call) (call : Call) (m : Manifest) (w : Workspace) :
    performAll (calls ++ [call]) m w =
      call.perform (performAll calls m w).1 (performAll calls m w).2 := by
  induction calls generalizing m w with
  | nil => rfl
  | cons first rest ih => exact ih _ _

/-! ## What a manifest remembers -/

/-- A manifest as it was made, but for what it remembers: the place of the package, if it may have
one, and what the keys of its definitions lead to. -/
structure Remembers (package : Package) (registry : Path) (m : Manifest) : Prop where
  ofPackage : m.package = package
  inRegistry : m.registry = registry
  index : m.keyIndex = indexOf package
  root : m.root = none ∨
    Layout.isComponent package.id = true ∧ m.root = some (registry.child package.id)

variable {package : Package} {registry : Path} {m : Manifest}

theorem remembers_new (package : Package) (registry : Path) :
    Remembers package registry (.new package registry) := ⟨rfl, rfl, rfl, Or.inl rfl⟩

/-- Writing a manifest depends on the package and the registry, not on what the manifest
remembers. -/
theorem Remembers.create_eq (h : Remembers package registry m) (w : Workspace) :
    (m.create w).1.2 = ((Manifest.new package registry).create w).1.2 ∧
      (m.create w).2 = ((Manifest.new package registry).create w).2 := by
  obtain ⟨rfl, rfl, hindex, -⟩ := h
  unfold create
  rw [hindex]
  simp only [Manifest.new]
  cases Layout.packageRoot m.registry m.package.id with
  | error name => exact ⟨rfl, rfl⟩
  | ok root => exact ⟨rfl, rfl⟩

theorem Remembers.create (h : Remembers package registry m) (w : Workspace) :
    Remembers package registry (m.create w).1.1 ∧
      (Layout.isComponent package.id = true →
        (m.create w).1.1.root = some (registry.child package.id)) := by
  obtain ⟨rfl, rfl, hindex, hroot⟩ := h
  unfold Manifest.create
  rw [Layout.packageRoot_eq]
  cases hid : Layout.isComponent m.package.id with
  | false => exact ⟨⟨rfl, rfl, hindex, hroot⟩, fun h => by cases h⟩
  | true => exact ⟨⟨rfl, rfl, hindex, Or.inr ⟨hid, rfl⟩⟩, fun _ => rfl⟩

/-! ## Where a manifest writes -/

/-- Where no directory can be made for a package, writing changes nothing. -/
theorem create_of_unrooted {w : Workspace}
    (hnot : ∀ directory, ¬ Rooted w.files m.registry m.package.id directory) :
    (m.create w).2 = w := by
  unfold create
  rw [Layout.packageRoot_eq]
  cases hid : Layout.isComponent m.package.id with
  | false => rfl
  | true =>
    simp only [if_true]
    show (write m.package m.keyIndex (m.registry.child m.package.id) w).2 = w
    rcases createRoot_cases m.registry hid w with ⟨directory, journal, hr, -⟩ | ⟨e, hroot, -, -⟩
    · exact absurd hr (hnot directory)
    · rw [write, bind_run, hroot]

/-- No directory is made in a place that is taken. -/
theorem unrooted_of_get? {files : FileSystem} {id : String} {place : Place}
    (hs : files.slot (registry.child id) = .ok (some place)) (htaken : files.get? place ≠ none)
    (directory : Place) : ¬ Rooted files registry id directory := by
  intro hr
  rw [hr.slot] at hs
  cases hs
  exact htaken hr.free

/-! ## From call to call -/

/-- What the ground must be like: regular, and left a ground when the directory of the package is
removed. -/
structure Ground (package : Package) (registry : Path) (ground : FileSystem → Prop) : Prop where
  regular : ∀ files, ground files → files.IsRegular
  deleteAt : ∀ w : Workspace, ground w.files → Layout.isComponent package.id = true →
    ground (deleteAt package (registry.child package.id) w).2.files

/-- The files between two calls, by where the manifest remembers it was written: a ground, or a
directory in the place of the package with what was written into it. -/
inductive Stage (package : Package) (registry : Path) (ground : FileSystem → Prop) :
    Option Path → FileSystem → Prop
  | bare (root : Option Path) {files : FileSystem} : ground files →
      Stage package registry ground root files
  | written {files : FileSystem} (directory : Place) (entries : List (Place × Entry)) :
      ground files → Rooted files registry package.id directory →
      standing entries [] = some (.directory Layout.directoryMode) →
      Stage package registry ground (some (registry.child package.id))
        (files.putAll (directory ++ [package.id]) entries)

variable {ground : FileSystem → Prop} {w : Workspace}

/-- In the place of the package stands the directory that was written, so nothing is written over
it. -/
theorem unrooted_written {files : FileSystem} {directory : Place} {entries : List (Place × Entry)}
    (ht : files.IsRegular) (hr : Rooted files registry package.id directory)
    (hroot : standing entries [] = some (.directory Layout.directoryMode)) (other : Place) :
    ¬ Rooted (files.putAll (directory ++ [package.id]) entries) registry package.id other := by
  refine unrooted_of_get? (slot_of_keeps (ht.keeps_putAll hr.free entries) hr.slot) ?_ other
  have hget := ht.get?_putAll_eq hr.free entries []
  rw [List.append_nil, hroot] at hget
  simp [hget]

theorem Ground.create (hg : Ground package registry ground) (hm : Remembers package registry m)
    (hs : Stage package registry ground m.root w.files) :
    Stage package registry ground (m.create w).1.1.root (m.create w).2.files := by
  generalize hroot : m.root = root at hs
  generalize hw : w.files = files at hs
  cases hs with
  | bare _ hground =>
    subst hw
    rw [(hm.create_eq w).2]
    rcases (created_of_regular package registry (hg.regular _ hground)).left_cases with
      hsame | ⟨directory, entries, hr, hstanding, hleft⟩
    · rw [hsame]
      exact .bare _ hground
    · rw [hleft, (hm.create w).2 hr.component]
      exact .written directory entries hground hr hstanding
  | @written files directory entries hground hr hstanding =>
    -- the directory of the earlier call is in the way
    have hnot := unrooted_written (hg.regular _ hground) hr hstanding
    rw [← hw] at hnot
    rw [create_of_unrooted (by rw [hm.inRegistry, hm.ofPackage]; exact hnot), hw,
      (hm.create w).2 hr.component]
    exact .written directory entries hground hr hstanding

/-- Removing leaves a ground: what was written goes, and else the ground is kept. -/
theorem Ground.delete (hg : Ground package registry ground) (hm : Remembers package registry m)
    (hs : Stage package registry ground m.root w.files) : ground (m.delete w).2.files := by
  generalize hroot : m.root = root at hs
  generalize hw : w.files = files at hs
  cases hs with
  | bare _ hground =>
    subst hw
    rcases hm.root with hnone | ⟨hid, hsome⟩
    · rw [delete_of_no_root hnone]
      exact hground
    · rw [Manifest.delete, hsome, hm.ofPackage]
      exact hg.deleteAt w hground hid
  | written directory entries hground hr hstanding =>
    rw [Manifest.delete, hroot, hm.ofPackage]
    show ground (Manifest.deleteAt package (registry.child package.id) w).2.files
    rw [deleteAt_putAll (hg.regular _ hground) hr hstanding hw]
    exact hground

/-- A call takes one stage into another. -/
theorem Ground.perform (hg : Ground package registry ground) (call : Call)
    (hm : Remembers package registry m) (hs : Stage package registry ground m.root w.files) :
    Remembers package registry (call.perform m w).1 ∧
      Stage package registry ground (call.perform m w).1.root (call.perform m w).2.files := by
  cases call with
  | create => exact ⟨(hm.create w).1, hg.create hm hs⟩
  | delete => exact ⟨hm, .bare _ (hg.delete hm hs)⟩

theorem Ground.performAll (hg : Ground package registry ground) (calls : List Call) :
    ∀ {m : Manifest} {w : Workspace}, Remembers package registry m →
      Stage package registry ground m.root w.files →
      Remembers package registry (performAll calls m w).1 ∧
        Stage package registry ground (performAll calls m w).1.root
          (performAll calls m w).2.files := by
  induction calls with
  | nil => exact fun hm hs => ⟨hm, hs⟩
  | cons call rest ih =>
    intro m w hm hs
    obtain ⟨hm', hs'⟩ := hg.perform call hm hs
    exact ih hm' hs'

/-! ## Confinement -/

/-- The places that are neither that of a package nor below it. -/
def Elsewhere (files : FileSystem) (registry : Path) (id : String) (q : Place) : Prop :=
  ∀ root place, Layout.packageRoot registry id = .ok root → files.slot root = .ok (some place) →
    ¬ place <+: q

theorem packageRoot_of_component {id : String} (registry : Path)
    (hid : Layout.isComponent id = true) :
    Layout.packageRoot registry id = .ok (registry.child id) := by
  rw [Layout.packageRoot_eq, if_pos hid]

/-- What is in the place of a package stands below the directory that the registry leads to. -/
theorem below_of_not_elsewhere {files : FileSystem} {id : String} {q : Place}
    (h : ¬ Elsewhere files registry id q) :
    ∃ directory, files.LeadsTo registry directory ∧ directory ++ [id] <+: q := by
  unfold Elsewhere at h
  push Not at h
  obtain ⟨root, place, hroot, hslot, hbelow⟩ := h
  rw [Layout.packageRoot_eq] at hroot
  split at hroot
  next =>
    cases hroot
    obtain ⟨directory, hl, rfl, -⟩ := leadsTo_of_slot_child hslot
    exact ⟨directory, hl, hbelow⟩
  next => cases hroot

/-- A place with no more names than the directory that a registry leads to is not in the place of a
package. -/
theorem elsewhere_of_length {files : FileSystem} {id : String} {directory q : Place}
    (hl : files.LeadsTo registry directory) (h : q.length ≤ directory.length) :
    Elsewhere files registry id q := by
  by_contra hnot
  obtain ⟨found, hfound, hbelow⟩ := below_of_not_elsewhere hnot
  have hlength := hbelow.length_le
  rw [hfound.unique hl, List.length_append, List.length_singleton] at hlength
  omega

/-- The directory that a registry leads to is not in the place of a package. -/
theorem elsewhere_of_leadsTo {files : FileSystem} {id : String} {directory : Place}
    (h : files.LeadsTo registry directory) : Elsewhere files registry id directory :=
  elsewhere_of_length h (Nat.le_refl _)

/-- Files that are those from before, less some of what was in the place of a package. -/
structure Spared (base : FileSystem) (registry : Path) (id : String) (files : FileSystem) : Prop where
  regular : files.IsRegular
  keeps : Keeps files base
  same : ∀ q, Elsewhere base registry id q → files.get? q = base.get? q

theorem ground_spared (package : Package) (registry : Path) (base : FileSystem) :
    Ground package registry (Spared base registry package.id) := by
  refine ⟨fun files h => h.regular, fun w h hid => ?_⟩
  rcases deleteAt_cases registry h.regular hid with ⟨place, hs, -, hleft⟩ | ⟨-, hleft⟩
  · have hbase := slot_of_keeps h.keeps hs
    have hnot : ∀ q, Elsewhere base registry package.id q → ¬ place <+: q :=
      fun q hq => hq _ _ (packageRoot_of_component registry hid) hbase
    obtain ⟨directory, -, rfl, -⟩ := leadsTo_of_slot_child hs
    have hne : directory ++ [package.id] ≠ [] := by simp
    rcases hleft with hleft | ⟨-, hleft⟩
    · rw [hleft]
      refine ⟨h.regular.eraseBelow hne, (eraseBelow_keeps hne).trans h.keeps, fun q hq => ?_⟩
      rw [get?_eraseBelow _ _ hne, if_neg (hnot q hq), h.same q hq]
    · rw [hleft]
      refine ⟨h.regular.eraseWithin, (eraseWithin_keeps _ _).trans h.keeps, fun q hq => ?_⟩
      rw [get?_eraseWithin, if_neg fun hin => hnot q hq hin.1, h.same q hq]
  · rw [hleft]
    exact h

/-- Whatever is done with a manifest, however it ends and whatever stood where: nothing changes but
in the place of the package and below, the directory that the registry leads to included; and
writing changes nothing at all where something stands in that place. -/
theorem calls_confined {w : Workspace} (package : Package) (registry : Path)
    (ht : w.files.IsRegular) (calls : List Call) :
    (∀ q, Elsewhere w.files registry package.id q →
      (performAll calls (.new package registry) w).2.files.get? q = w.files.get? q) ∧
    (∀ directory, w.files.LeadsTo registry directory →
      (performAll calls (.new package registry) w).2.files.get? directory =
        w.files.get? directory) ∧
    ∀ m after, performAll calls (.new package registry) w = (m, after) →
      ∀ root place, Layout.packageRoot registry package.id = .ok root →
        after.files.slot root = .ok (some place) → after.files.get? place ≠ none →
        (m.create after).2.files = after.files := by
  have hstart : Spared w.files registry package.id w.files :=
    ⟨ht, keeps_of_get?_eq (fun _ => rfl) rfl, fun _ _ => rfl⟩
  obtain ⟨hm, hs⟩ := (ground_spared package registry w.files).performAll calls
    (remembers_new package registry) (.bare _ hstart)
  have hsame : ∀ q, Elsewhere w.files registry package.id q →
      (performAll calls (.new package registry) w).2.files.get? q = w.files.get? q := by
    intro q hq
    generalize (performAll calls (.new package registry) w).1.root = remembered at hs
    generalize (performAll calls (.new package registry) w).2.files = files at hs ⊢
    -- Nothing was written that remained, or all of it stands below the place of the package.
    cases hs with
    | bare _ hground => exact hground.same q hq
    | written directory entries hground hr =>
      have hbelow := hq _ _ (packageRoot_of_component registry hr.component)
        (slot_of_keeps hground.keeps hr.slot)
      rw [get?_putAll_outside (by simp) entries hbelow, hground.same q hq]
  refine ⟨hsame, fun directory hl => hsame directory (elsewhere_of_leadsTo hl), ?_⟩
  intro m after hafter root place hroot hslot htaken
  rw [hafter] at hm
  rw [Layout.packageRoot_eq] at hroot
  split at hroot
  next =>
    cases hroot
    have hnot := unrooted_of_get? hslot htaken
    rw [create_of_unrooted (by rw [hm.inRegistry, hm.ofPackage]; exact hnot)]
  next => cases hroot

/-- A registry with a link in the place of a package. -/
def takenByLink : FileSystem :=
  ⟨[(["reg"], .directory 0o755), (["reg", "demo"], .link "../kept"), (["kept"], .directory 0o755),
    (["kept", "note"], .file 0o644 [])], []⟩

/-- Writing and removing do not follow the link. -/
theorem calls_confined_linked :
    takenByLink.IsRegular ∧
    (performAll [.create, .delete, .create] (.new (barePackage "demo" []) (.ofText "reg"))
      ⟨takenByLink, []⟩).2.files.get? ["kept", "note"] = some (.file 0o644 []) := by
  have ht : takenByLink.IsRegular :=
    ⟨by decide, by decide, by decide, by decide, by decide⟩
  have hroot : Layout.packageRoot (.ofText "reg") "demo" = .ok (.ofText "reg/demo") := by
    decide +kernel
  have hslot : takenByLink.slot (.ofText "reg/demo") = .ok (some ["reg", "demo"]) := by
    decide +kernel
  have helse : Elsewhere takenByLink (.ofText "reg") "demo" ["kept", "note"] := by
    intro root place hr hs
    rw [hroot] at hr
    cases hr
    rw [hslot] at hs
    cases hs
    decide
  refine ⟨ht, ?_⟩
  exact (calls_confined (w := ⟨takenByLink, []⟩) (barePackage "demo" []) (.ofText "reg") ht
    [.create, .delete, .create]).1 _ helse

/-! ## Removing restores -/

/-- Where nothing stands in the place of a package, the files as they are are a ground. -/
theorem ground_eq {base : FileSystem} (ht : base.IsRegular)
    (hfree : ∀ root place, Layout.packageRoot registry package.id = .ok root →
      base.slot root = .ok (some place) → base.get? place = none) :
    Ground package registry (· = base) := by
  refine ⟨fun files h => h ▸ ht, fun w h hid => ?_⟩
  subst h
  rcases deleteAt_cases registry ht hid with ⟨place, hs, hd, -⟩ | ⟨-, hleft⟩
  · obtain ⟨mode, hmode⟩ := isDirectoryAt_iff.1 hd
    rw [hfree _ _ (packageRoot_of_component registry hid) hs] at hmode
    cases hmode
  · exact hleft

/-- Writing a manifest does the same on equal files, whatever was done with it before. -/
theorem Remembers.create_again (h : Remembers package registry m) {w w' : Workspace}
    (hfiles : w'.files = w.files) :
    (m.create w').1.2 = ((Manifest.new package registry).create w).1.2 ∧
      (m.create w').2.files = ((Manifest.new package registry).create w).2.files := by
  rw [(h.create_eq w').1, (h.create_eq w').2]
  obtain ⟨files, journal⟩ := w
  obtain ⟨_, journal'⟩ := w'
  cases hfiles
  unfold Manifest.create
  simp only [Manifest.new]
  cases Layout.packageRoot registry package.id with
  | error name => exact ⟨rfl, rfl⟩
  | ok root => exact write_ignoresJournal package (indexOf package) root files journal' journal

/-- Where nothing stood in the place of the package, removing leaves the files as they were, whatever
was done with the manifest before; and writing it then comes to what it came to at first, and leaves
the same files. -/
theorem calls_delete_restore {w : Workspace} (package : Package) (registry : Path)
    (ht : w.files.IsRegular)
    (hfree : ∀ root place, Layout.packageRoot registry package.id = .ok root →
      w.files.slot root = .ok (some place) → w.files.get? place = none) (calls : List Call)
    {m : Manifest} {after : Workspace}
    (hcalls : performAll (calls ++ [.delete]) (.new package registry) w = (m, after)) :
    after.files = w.files ∧
      (m.create after).1.2 = ((Manifest.new package registry).create w).1.2 ∧
      (m.create after).2.files = ((Manifest.new package registry).create w).2.files := by
  have hg : Ground package registry (· = w.files) := ground_eq ht hfree
  obtain ⟨hm, hs⟩ := hg.performAll calls (remembers_new package registry) (.bare _ rfl)
  have hrestored := hg.delete hm hs
  rw [performAll_concat] at hcalls
  cases hcalls
  exact ⟨hrestored, hm.create_again hrestored⟩

/-- A package with a release that has no version is written in part; that part goes, and writing
stops at the same release again. -/
theorem calls_delete_restore_missingVersion :
    (performAll [.create, .delete] (.new (barePackage "demo" [bareRelease "demo.v1" none])
      (.ofText "reg")) ⟨emptyRegistry, []⟩).2.files = emptyRegistry := by
  have hfree : ∀ root place, Layout.packageRoot (.ofText "reg") "demo" = .ok root →
      emptyRegistry.slot root = .ok (some place) → emptyRegistry.get? place = none := by
    have hroot : Layout.packageRoot (.ofText "reg") "demo" = .ok (.ofText "reg/demo") := by
      decide +kernel
    have hslot : emptyRegistry.slot (.ofText "reg/demo") = .ok (some ["reg", "demo"]) := by
      decide +kernel
    intro root place hr hs
    rw [hroot] at hr
    cases hr
    rw [hslot] at hs
    cases hs
    decide
  exact (calls_delete_restore (w := ⟨emptyRegistry, []⟩)
    (barePackage "demo" [bareRelease "demo.v1" none]) (.ofText "reg")
    isTree_emptyRegistry.toIsRegular hfree [.create] (Prod.eta _).symm).1

end RegistryTree.Manifest
