import RegistryTree.Proofs.Catalog
import RegistryTree.Proofs.CommandLine.Run
import RegistryTree.Proofs.Manifest.Deletion

/-!
# What a failed build leaves

A build that fails removes what it has written. In most cases the files are then as they were, but
not in all: the directory that is removed is remembered before it is made, so that one which stood
there before goes too, and a failure that no command expects ends the build before anything is
removed. What is left is told of all metadata but those that stand for no value here.

> `failed_build_files`: when a failed build leaves the files as they were.
-/

namespace RegistryTree.CommandLine

open FileSystem

/-- What is left after removing what a manifest remembers is what its removal leaves; and when a
failure escapes, it is one of the removal. -/
theorem cleanUp_cases (m : Manifest) (w : Workspace) :
    ∃ journal, (cleanUp m w).2.files = (m.delete ⟨w.files, journal⟩).2.files ∧
      ∀ e, (cleanUp m w).1 = .error e → (m.delete ⟨w.files, journal⟩).1 = .error e := by
  refine ⟨w.journal ++ [.note .info buildSource
    ("removing partial manifest for " ++ m.package.id)], ?_⟩
  rw [cleanUp, bind_state, bind_state]
  rcases hd : m.delete ⟨w.files, w.journal ++ [.note .info buildSource
    ("removing partial manifest for " ++ m.package.id)]⟩ with ⟨result, w'⟩
  have hrun : m.delete.run (tell (.note .info buildSource
    ("removing partial manifest for " ++ m.package.id)) w).2 = (result, w') := hd
  rw [hrun]
  rw [hd]
  cases result with
  | ok u => exact ⟨rfl, fun e he => by cases he⟩
  | error e =>
    cases e with
    | manifest error => exact ⟨rfl, fun e he => by cases he⟩
    | _ => exact ⟨rfl, fun e he => he⟩

/-- The ways in which a package is built: it is written whole; or an error ends the writing and what
was written is removed; or a failure that is not expected ends the build. -/
theorem buildPackage_cases (p : Package) (registry : Path) (w : Workspace) :
    (((Manifest.new p registry).create w).1.2 = .ok () ∧
      (buildPackage p registry false w).1.status = 0) ∨
    (∃ error journal, ((Manifest.new p registry).create w).1.2 = .error (.manifest error) ∧
      (∀ e, (buildPackage p registry false w).1 = .escaped e →
        (((Manifest.new p registry).create w).1.1.delete
          ⟨((Manifest.new p registry).create w).2.files, journal⟩).1 = .error e) ∧
      (buildPackage p registry false w).2.files =
        (((Manifest.new p registry).create w).1.1.delete
          ⟨((Manifest.new p registry).create w).2.files, journal⟩).2.files) ∨
    ∃ e, ((Manifest.new p registry).create w).1.2 = .error e ∧ (∀ error, e ≠ .manifest error) ∧
      buildPackage p registry false w = (.escaped e, ((Manifest.new p registry).create w).2) := by
  rw [buildPackage, bind_state]
  rcases (Manifest.new p registry).create w with ⟨⟨m, result⟩, w'⟩
  cases result with
  | ok u => exact Or.inl ⟨rfl, rfl⟩
  | error e =>
    cases e with
    | manifest error =>
      obtain ⟨journal, hfiles, herror⟩ :=
        cleanUp_cases m ⟨w'.files, w'.journal ++ [.complaint error.toText]⟩
      refine Or.inr (Or.inl ⟨error, journal, rfl, ?_⟩)
      simp only [Bool.false_eq_true, if_false]
      rw [bind_state, bind_state]
      rcases hclean : cleanUp m ⟨w'.files, w'.journal ++ [.complaint error.toText]⟩ with
        ⟨cleaned, w''⟩
      have hrun : cleanUp m (tell (.complaint error.toText) w').2 = (cleaned, w'') := hclean
      rw [hclean] at hfiles herror
      rw [hrun]
      cases cleaned with
      | ok u => exact ⟨(fun e he => by cases he), hfiles⟩
      | error e =>
        refine ⟨fun e' he => herror e' ?_, hfiles⟩
        cases he
        rfl
    | _ => exact Or.inr (Or.inr ⟨_, rfl, (fun _ h => by cases h), rfl⟩)

/-- A package is built when it can be made from the metadata; otherwise no file has changed. -/
theorem build_cases (metadata package registry : String) (keep : Bool) (w : Workspace) :
    (∃ p w', Catalog.readPackage (.ofText metadata) package w = (.ok p, w') ∧
      w'.files = w.files ∧ p.id = package ∧
      build metadata package registry keep w = buildPackage p (.ofText registry) keep w') ∨
    ∃ e, (Catalog.readPackage (.ofText metadata) package w).1 = .error e ∧
      (build metadata package registry keep w).1 ≠ .escaped .wideInteger ∧
      (build metadata package registry keep w).2.files = w.files := by
  have hfiles := Catalog.readPackage_leavesFiles (.ofText metadata) package w
  rw [build, bind_state]
  rcases hr : Catalog.readPackage (.ofText metadata) package w with ⟨e | p, w'⟩
  · rw [hr] at hfiles
    have hrun : (Catalog.readPackage (.ofText metadata) package).run w = (.error e, w') := hr
    rw [hrun]
    refine Or.inr ⟨e, rfl, ?_⟩
    dsimp only
    -- reading changes no file, so only the outcome depends on the class of the failure
    cases hclass : e.failureClass with
    | input | lookup | untold => exact ⟨(fun he => by cases he), hfiles⟩
    | writing | unexpected =>
      refine ⟨fun he => ?_, hfiles⟩
      cases he
      cases hclass
  · rw [hr] at hfiles
    have hrun : (Catalog.readPackage (.ofText metadata) package).run w = (.ok p, w') := hr
    rw [hrun]
    exact Or.inl ⟨p, w', rfl, hfiles, Catalog.readPackage_id hr, rfl⟩

/-! ## What is left -/

/-- Whether a directory stands where a package would be written. -/
def IsOccupied (files : FileSystem) (registry : Path) (id : String) : Prop :=
  ∃ root place, Layout.packageRoot registry id = .ok root ∧ files.slot root = .ok (some place) ∧
    files.isDirectoryAt place = true

theorem not_isOccupied_of_unsafe {files : FileSystem} {registry : Path} {id : String}
    (hid : Layout.isComponent id = false) : ¬ IsOccupied files registry id := by
  intro hgiven
  obtain ⟨root, place, hroot, -⟩ := hgiven
  rw [Layout.packageRoot_eq, hid] at hroot
  cases hroot

theorem isOccupied_iff {files : FileSystem} {registry : Path} {id : String}
    (hid : Layout.isComponent id = true) :
    IsOccupied files registry id ↔
      ∃ place, files.slot (registry.child id) = .ok (some place) ∧
        files.isDirectoryAt place = true := by
  simp only [IsOccupied, Layout.packageRoot_eq, if_pos hid, Except.ok.injEq]
  constructor
  · intro hgiven
    obtain ⟨root, place, rfl, hs, hd⟩ := hgiven
    exact ⟨place, hs, hd⟩
  · intro hgiven
    obtain ⟨place, hs, hd⟩ := hgiven
    exact ⟨_, place, rfl, hs, hd⟩

theorem not_isOccupied_of_rooted {files : FileSystem} {registry : Path} {id : String}
    {directory : Place} (h : Manifest.Rooted files registry id directory) :
    ¬ IsOccupied files registry id := by
  rw [isOccupied_iff h.component]
  intro hgiven
  obtain ⟨place, hs, hd⟩ := hgiven
  rw [h.slot] at hs
  cases hs
  obtain ⟨mode, hm⟩ := isDirectoryAt_iff.1 hd
  rw [h.free] at hm
  cases hm

/-- What is left when an error ended the writing: the files as they were, unless a directory stood
where the package was to be written. -/
theorem delete_files {p : Package} {registry : Path} {w : Workspace} {error : ManifestError}
    {journal : List Record} (ht : w.files.IsTree)
    (h : ((Manifest.new p registry).create w).1.2 = .error (.manifest error)) :
    (∀ place, (((Manifest.new p registry).create w).1.1.delete
        ⟨((Manifest.new p registry).create w).2.files, journal⟩).2.files.get? place =
          w.files.get? place) ↔ ¬ IsOccupied w.files registry p.id := by
  have hc := Manifest.created_create p registry ht
  have hroot := Manifest.create_root (Manifest.new p registry) w
  have hpackage := Manifest.create_package (w := w) (Manifest.new p registry)
  rw [h] at hc
  generalize ((Manifest.new p registry).create w).2.files = after at hc ⊢
  generalize ((Manifest.new p registry).create w).1.1 = m at hroot hpackage ⊢
  rw [show (Manifest.new p registry).package = p from rfl] at hroot hpackage
  rw [show (Manifest.new p registry).registry = registry from rfl, Layout.packageRoot_eq] at hroot
  cases hid : Layout.isComponent p.id with
  | false =>
    have hsame := hc.of_unrooted fun directory hr => by
      rw [hr.component] at hid
      cases hid
    rw [hid] at hroot
    rw [Manifest.delete_of_no_root hroot, hsame]
    exact ⟨fun _ => not_isOccupied_of_unsafe hid, fun _ _ => rfl⟩
  | true =>
    rw [hid] at hroot
    have hdelete : m.delete ⟨after, journal⟩ =
        Manifest.deleteAt p (registry.child p.id) ⟨after, journal⟩ := by
      rw [Manifest.delete, hroot, hpackage]
      rfl
    rw [hdelete]
    -- the directory was made by this run, or it could not be made
    by_cases hrooted : ∃ directory, Manifest.Rooted w.files registry p.id directory
    · obtain ⟨directory, hr⟩ := hrooted
      rw [Manifest.deleteAt_of_error (w := ⟨after, journal⟩) ht.toIsRegular hc hr]
      exact ⟨fun _ => not_isOccupied_of_rooted hr, fun _ _ => rfl⟩
    · have hsame := hc.of_unrooted fun directory hr => hrooted ⟨directory, hr⟩
      subst hsame
      rw [isOccupied_iff hid]
      rcases Manifest.deleteAt_cases (w := ⟨w.files, journal⟩) registry ht.toIsRegular hid with
        ⟨place, hs, hd, hfiles⟩ | ⟨hnone, hfiles⟩
      -- a directory that stood there before is taken for one that was made
      · refine ⟨fun hall => ?_, fun hnot => absurd ⟨place, hs, hd⟩ hnot⟩
        obtain ⟨directory, -, hplace, -⟩ := leadsTo_of_slot_child hs
        obtain ⟨mode, hm⟩ := isDirectoryAt_iff.1 hd
        rcases hfiles with hfiles | ⟨⟨code, herror⟩, hfiles⟩
        · have hgone := hall place
          rw [hfiles, get?_eraseBelow _ _ (by simp [hplace]), if_pos (List.prefix_refl _)] at hgone
          exact absurd (hgone.trans hm) (by simp)
        -- it is only kept when its path led through what was in it
        · rw [hfiles] at hall
          rw [slot_of_keeps (keeps_of_get?_eq hall rfl) hs] at herror
          cases herror
      · rw [hfiles]
        refine ⟨fun _ => ?_, fun _ _ => rfl⟩
        intro hgiven
        obtain ⟨place, hs, hd⟩ := hgiven
        rw [hnone place hs] at hd
        cases hd

/-- When a package could not be built, the files are as they were, unless a directory stood where it
was to be written or a number was too wide. -/
theorem failed_buildPackage_files {p : Package} {registry : Path} {w : Workspace}
    (ht : w.files.IsTree) (hfail : (buildPackage p registry false w).1.status ≠ 0) :
    (∀ place, (buildPackage p registry false w).2.files.get? place = w.files.get? place) ↔
      ¬ (IsOccupied w.files registry p.id ∨
        (buildPackage p registry false w).1 = .escaped .wideInteger) := by
  rcases buildPackage_cases p registry w with
    ⟨-, hok⟩ | ⟨error, journal, herror, hescaped, hfiles⟩ | ⟨e, herror, hne, hrun⟩
  · exact absurd hok hfail
  · have hnever : (buildPackage p registry false w).1 ≠ .escaped .wideInteger :=
      fun h => Manifest.delete_error (hescaped _ h) rfl
    rw [hfiles, delete_files ht herror, not_or]
    exact ⟨fun h => ⟨h, hnever⟩, fun h => h.1⟩
  · have hc := Manifest.created_create p registry ht
    rw [herror] at hc
    rw [hrun]
    -- nothing is removed behind a failure that is not expected
    rcases hc.of_unexpected ht.toIsRegular hne with ⟨rfl, place, hplace⟩ | ⟨hsame, hwide, hnull⟩
    · exact ⟨fun h => absurd (h place) hplace, fun h => absurd (Or.inr rfl) h⟩
    · refine ⟨fun _ => not_or.2 ⟨?_, fun h => hwide (by cases h; rfl)⟩, fun _ _ => by rw [hsame]⟩
      intro hgiven
      obtain ⟨root, place, hroot, hs, -⟩ := hgiven
      rw [Layout.packageRoot_eq] at hroot
      split at hroot
      next hid =>
        cases hroot
        obtain ⟨directory, hl, -⟩ := leadsTo_of_slot_child hs
        rw [Path.hasNull_child (hl.usable ht.toIsRegular) hid] at hnull
        cases hnull
      next => cases hroot

/-- When a build that is not to keep what it wrote fails, every entry is as it was before, unless a
package could be made from the metadata and a directory stood in its place already, or a number was
too wide to be written. This is told of all metadata without an escape for half of a surrogate pair
and without a node that is named inside itself. -/
theorem failed_build_files {environment : Environment} {words : List String} {files : FileSystem}
    {threshold : Nat} {metadata package registry : String}
    (hrequest : request environment words =
      .ok (threshold, .build metadata package registry false))
    (ht : files.IsTree) (htold : ¬ Untold files (.build metadata package registry false))
    (hfail : (run environment words files).1.outcome.status ≠ 0) :
    (∀ e, (run environment words files).1.outcome ≠ .untold e) ∧
      ((∀ place, (run environment words files).2.get? place = files.get? place) ↔
        ¬ ((∃ p, (Catalog.readPackage (.ofText metadata) package ⟨files, []⟩).1 = .ok p) ∧
            IsOccupied files (.ofText registry) package ∨
          (run environment words files).1.outcome = .escaped .wideInteger)) := by
  obtain ⟨houtcome, hleft⟩ := run_perform files hrequest
  rw [← perform_untold_iff] at htold
  rw [perform] at houtcome hleft htold
  rw [houtcome] at hfail
  rw [houtcome, hleft]
  refine ⟨not_exists.1 htold, ?_⟩
  rcases build_cases metadata package registry false ⟨files, []⟩ with
    ⟨p, w, hread, hsame, rfl, hrun⟩ | ⟨e, hread, hnever, hsame⟩
  · have hsame : w.files = files := hsame
    subst hsame
    rw [hrun] at hfail ⊢
    rw [failed_buildPackage_files ht hfail, hread]
    simp
  · rw [hsame, hread]
    simp [hnever]

/-- A file of metadata, and a registry with a directory that an earlier build may have left. -/
def builtBefore : FileSystem :=
  ⟨[(["meta.yaml"], .file 0o644 (Text.encodeUtf8 "packages:\n- packageName: demo\n".toList)),
    (["reg"], .directory 0o755), (["reg", "demo"], .directory 0o700)], []⟩

/-- A second build of a package fails, and takes away what was there. -/
theorem failed_build_files_again :
    (run [] ["build", "meta.yaml", "--package", "demo", "--out-dir", "reg"]
      builtBefore).1.outcome.status ≠ 0 ∧
    ¬ ∀ place, (run [] ["build", "meta.yaml", "--package", "demo", "--out-dir", "reg"]
      builtBefore).2.get? place = builtBefore.get? place := by
  have hfail : (run [] ["build", "meta.yaml", "--package", "demo", "--out-dir", "reg"]
      builtBefore).1.outcome.status ≠ 0 := by decide +kernel
  have hread : (Catalog.readPackage (.ofText "meta.yaml") "demo" ⟨builtBefore, []⟩).1.isOk =
      true := by decide +kernel
  have htree : builtBefore.IsTree :=
    ⟨⟨by decide, by decide, by decide, by decide, by decide⟩, by decide⟩
  refine ⟨hfail, fun hsame => ?_⟩
  have hrequest : request [] ["build", "meta.yaml", "--package", "demo", "--out-dir", "reg"] =
      .ok (30, .build "meta.yaml" "demo" "reg" false) := rfl
  have htold : ¬ Untold builtBefore (.build "meta.yaml" "demo" "reg" false) := by
    rintro (_ | ⟨fault, -, herror⟩)
    rw [herror] at hread
    cases hread
  obtain ⟨-, hleft⟩ := failed_build_files hrequest htree htold hfail
  refine hleft.1 hsame (Or.inl ⟨?_, ?_⟩)
  · cases hp : (Catalog.readPackage (.ofText "meta.yaml") "demo" ⟨builtBefore, []⟩).1 with
    | ok p => exact ⟨p, rfl⟩
    | error e =>
      rw [hp] at hread
      cases hread
  · exact ⟨.ofText "reg/demo", ["reg", "demo"], by decide +kernel, by decide +kernel,
      by decide +kernel⟩

end RegistryTree.CommandLine
