import RegistryTree.Proofs.FileSystem.Listing
import RegistryTree.Proofs.FileSystem.Trail
import RegistryTree.Proofs.Lockstep
import RegistryTree.Proofs.Manifest.Creation

/-!
# Writing a package into two file systems

The same package is written into two file systems that are the same in some places, those of the
package among them. It comes to the same in both, and in these places they are the same afterwards:
writing reads nothing else, whatever it comes to.

`Twin` is what holds of the two while the package is written. `TwinBundle` adds what holds while one
bundle is, and carries the loop over the definitions.

> `write_inStep`: writing a package keeps step on two file systems that are the same in its place.
-/

namespace RegistryTree.Manifest

open FileSystem RegistryTree.Action

variable {P : Place → Prop} {p : Path} {place : Place} {name : String} {files files' : FileSystem}

/-- A directory of a regular file system that is written into, and that its path leads to in either
reading. -/
structure Workplace (files : FileSystem) (p : Path) (place : Place) : Prop
    extends Site files p place where
  regular : files.IsRegular
  direct : files.Direct p place

namespace Workplace

theorem put (h : Workplace files p place) (rel : Place)
    (hd : files.isDirectoryAt (place ++ rel) = true) (hname : Layout.isComponent name = true)
    (hshort : isTooLong name = false)
    (hfree : files.isDirectoryAt (place ++ rel ++ [name]) = false) {e : Entry}
    (he : ∀ target, e ≠ .link target) : Workplace (files.put (place ++ rel ++ [name]) e) p place := by
  have hregular := h.regular.put hd hname hshort hfree e
  rw [List.append_assoc] at hfree hregular ⊢
  exact ⟨h.toSite.put hfree he, hregular, h.direct.of_keeps (h.keeps_put hfree)⟩

theorem child (h : Workplace files p place) (hd : files.isDirectoryAt (place ++ [name]) = true)
    (hname : Layout.isComponent name = true) (hshort : isTooLong name = false) :
    Workplace files (p.child name) (place ++ [name]) := by
  obtain ⟨-, hdot, hup, -, -⟩ := Layout.isComponent_iff.1 hname
  exact ⟨h.toSite.child hd hname hshort, h.regular, h.direct.child hd hdot hup hshort⟩

end Workplace

/-- Two regular file systems that are the same in some places. -/
structure Alongside (P : Place → Prop) (files files' : FileSystem) : Prop
    extends SameOn P files files' where
  left : files.IsRegular
  right : files'.IsRegular

/-- Two file systems into which a package is written below one place: they are the same in some
places, that place and all below it among them. -/
structure Twin (P : Place → Prop) (p : Path) (place : Place) (files files' : FileSystem) : Prop
    extends SameOn P files files' where
  below : ∀ rel, P (place ++ rel)
  left : Workplace files p place
  right : Workplace files' p place

namespace Twin

theorem alongside (h : Twin P p place files files') : Alongside P files files' :=
  ⟨h.toSameOn, h.left.regular, h.right.regular⟩

theorem get?_below (h : Twin P p place files files') (rel : Place) :
    files'.get? (place ++ rel) = files.get? (place ++ rel) := h.same _ (h.below rel)

theorem isDirectoryAt_below (h : Twin P p place files files') (rel : Place) :
    files'.isDirectoryAt (place ++ rel) = files.isDirectoryAt (place ++ rel) :=
  h.isDirectoryAt (h.below rel)

/-- What is put into both leaves them alike. -/
theorem put (h : Twin P p place files files') (rel : Place)
    (hd : files.isDirectoryAt (place ++ rel) = true) (hname : Layout.isComponent name = true)
    (hshort : isTooLong name = false)
    (hfree : files.isDirectoryAt (place ++ rel ++ [name]) = false) {e : Entry}
    (he : ∀ target, e ≠ .link target) :
    Twin P p place (files.put (place ++ rel ++ [name]) e)
      (files'.put (place ++ rel ++ [name]) e) := by
  have hfree' : files'.isDirectoryAt (place ++ rel ++ [name]) = false := by
    rw [List.append_assoc] at hfree ⊢
    rw [h.isDirectoryAt_below, hfree]
  refine ⟨h.toSameOn.put (by simp) e, h.below, h.left.put rel hd hname hshort hfree he, ?_⟩
  exact h.right.put rel (by rw [h.isDirectoryAt_below, hd]) hname hshort hfree' he

theorem child (h : Twin P p place files files') (hd : files.isDirectoryAt (place ++ [name]) = true)
    (hname : Layout.isComponent name = true) (hshort : isTooLong name = false) :
    Twin P (p.child name) (place ++ [name]) files files' := by
  refine ⟨h.toSameOn, fun rel => ?_, h.left.child hd hname hshort, ?_⟩
  · rw [List.append_assoc]
    exact h.below _
  · exact h.right.child (by rw [h.isDirectoryAt_below, hd]) hname hshort

/-- The same is in the way of a file in both. -/
theorem refusal_eq (h : Twin P p place files files') (name : String) (blocked : Bool) :
    files'.refusal p name blocked = files.refusal p name blocked := by
  unfold refusal
  rw [h.written]
  simp only [h.shown]

/-- A document is written into both, or into neither for the same reason. -/
theorem writeDocument {w w' : Workspace} (h : Twin P p place w.files w'.files) (v : Value)
    (hname : Layout.isComponent name = true)
    (hfree : w.files.get? (place ++ [temporaryName name 0]) = none) :
    Alike (fun _ files files' => isTooLong name = false ∧
        w.files.isDirectoryAt (place ++ [name]) = false ∧
        files = w.files.put (place ++ [name]) (documentOf v) ∧
        files' = w'.files.put (place ++ [name]) (documentOf v))
      (fun files files' => files = w.files ∧ files' = w'.files)
      (writeDocument v (p.child name) w) (writeDocument v (p.child name) w') := by
  obtain ⟨-, -, hup, -, -⟩ := Layout.isComponent_iff.1 hname
  rw [writeDocument_run, writeDocument_run]
  cases hr : renderDocument v with
  | error e => exact .error e ⟨rfl, rfl⟩
  | ok text =>
    simp only [Path.hasNull_child h.left.usable hname, Bool.false_eq_true, if_false]
    -- What could refuse the file is asked of the names and of what stands below the place, and both
    -- file systems have the same there.
    rw [onPath_run, onPath_run, replaceFile_child h.left.leads h.left.direct hup hfree,
      replaceFile_child h.right.leads h.right.direct hup (by rw [h.get?_below, hfree]),
      h.refusal_eq, h.isDirectoryAt_below]
    cases hrefusal : w.files.refusal p name (w.files.isDirectoryAt (place ++ [name])) with
    | some cause => exact .error _ ⟨rfl, rfl⟩
    | none =>
      obtain ⟨hshort, hd⟩ := not_of_refusal_eq_none hrefusal
      exact .ok _ ⟨hshort, hd, by rw [documentOf_rendered hr], by rw [documentOf_rendered hr]⟩

end Twin

theorem documentOf_ne_link (v : Value) (target : String) : documentOf v ≠ .link target := nofun

/-- A document of its own is written into the directory of a package, where its temporary name is
free. -/
theorem writeDocument_inStep (v : Value) (hname : Layout.isComponent name = true) :
    InStep (fun files files' => Twin P p place files files' ∧
        files.get? (place ++ [temporaryName name 0]) = none)
      (fun _ => Twin P p place) (Twin P p place) (writeDocument v (p.child name)) := by
  intro w w' hw
  obtain ⟨h, hfree⟩ := hw
  refine (h.writeDocument v hname hfree).mono ?_ ?_
  · intro _ files files' hafter
    obtain ⟨hshort, hd, rfl, rfl⟩ := hafter
    have hput := h.put [] (e := documentOf v) (by simpa using h.left.leads.directory) hname
      hshort (by simpa using hd) (documentOf_ne_link v)
    simpa using hput
  · intro files files' hfailed
    obtain ⟨rfl, rfl⟩ := hfailed
    exact h

/-! ## A bundle -/

/-- What holds of two file systems while a bundle is written: it has a directory in both, in which
nothing has the name of a temporary file. -/
structure TwinBundle (P : Place → Prop) (p : Path) (place : Place) (version : String)
    (files files' : FileSystem) : Prop extends Twin P p place files files' where
  component : Layout.isComponent version = true
  short : isTooLong version = false
  made : files.isDirectoryAt (place ++ [version]) = true
  clean : ∀ other, files.get? (place ++ [version] ++ [temporaryName other 0]) = none

variable {version : String}

theorem TwinBundle.inner (h : TwinBundle P p place version files files') :
    Twin P (p.child version) (place ++ [version]) files files' :=
  h.toTwin.child h.made h.component h.short

/-- A directory for a bundle is made in both, or in neither. -/
theorem createDirectory_inStep (hname : Layout.isComponent version = true) :
    InStep (Twin P p place)
      (fun bundle files files' => bundle = p.child version ∧
        TwinBundle P p place version files files')
      (Twin P p place) (createDirectory (p.child version)) := by
  intro w w' h
  obtain ⟨-, -, hup, -, -⟩ := Layout.isComponent_iff.1 hname
  rw [createDirectory_run, createDirectory_run, Path.hasNull_child h.left.usable hname,
    h.left.leads.makeDirectory_child hup, h.right.leads.makeDirectory_child hup, h.get?_below]
  simp only [Bool.false_eq_true, if_false]
  cases hlong : isOverlong (p.child version) || isTooLong version with
  | true => exact .error _ h
  | false =>
    cases hentry : w.files.get? (place ++ [version]) with
    | some e => exact .error _ h
    | none =>
      have hshort : isTooLong version = false := (Bool.or_eq_false_iff.1 hlong).2
      have hne : place ++ [version] ≠ [] := by simp
      have hput := h.put [] (e := .directory Layout.directoryMode)
        (by simpa using h.left.leads.directory) hname hshort
        (by simp [isDirectoryAt, hentry]) (fun _ => nofun)
      refine .ok _ ⟨rfl, ⟨by simpa using hput, hname, hshort, ?_, fun other => ?_⟩⟩
      · exact isDirectoryAt_iff.2 ⟨_, by rw [get?_put _ _ _ hne, if_pos rfl]⟩
      · rw [get?_put _ _ _ hne, if_neg (by simp), h.left.regular.get?_below hentry]

/-- A document whose name is not that of a temporary file is written into the bundle of both, or of
neither. -/
theorem carries_writeDocument (v : Value) (hname : Layout.isComponent name = true)
    (hother : ∀ other, temporaryName other 0 ≠ name) :
    Carries (TwinBundle P p place version) (writeDocument v ((p.child version).child name)) := by
  intro w w' h
  refine (h.inner.writeDocument v hname (h.clean name)).mono ?_ ?_
  · intro _ files files' hafter
    obtain ⟨hshort, hd, rfl, rfl⟩ := hafter
    refine ⟨h.toTwin.put [version] h.made hname hshort hd (documentOf_ne_link v), h.component, h.short,
      ?_, fun other => ?_⟩
    · obtain ⟨mode, hmode⟩ := isDirectoryAt_iff.1 h.made
      exact isDirectoryAt_iff.2 ⟨mode, by rw [get?_put _ _ _ (by simp), if_neg (by simp), hmode]⟩
    · rw [get?_put _ _ _ (by simp), if_neg (by simpa using hother other), h.clean other]
  · intro files files' hfailed
    obtain ⟨rfl, rfl⟩ := hfailed
    exact h

theorem temporaryName_ne_of_getLast? {other : String} (h : name.toList.getLast? = some 'l') :
    temporaryName other 0 ≠ name := by
  intro heq
  have hlast := getLast?_temporaryName other 0
  rw [heq, h] at hlast
  cases hlast

theorem getLast?_releaseName (r : Release) : (releaseName r).toList.getLast? = some 'l' := by
  rw [releaseName, String.toList_append, List.getLast?_append]
  rfl

theorem carries_writeDefinition (d : Definition) :
    Carries (TwinBundle P p place version) (writeDefinition (p.child version) d) := by
  refine InStep.bind_ofExcept (fun _ _ h => h) fun file hfile => ?_
  rw [Layout.definitionFile_eq] at hfile
  split at hfile
  next hname =>
    cases hfile
    have hcomponent := Layout.isComponent_append hname Layout.isSuffix_definition
    exact InStep.discard (carries_writeDocument d.toValue hcomponent fun other =>
      temporaryName_ne_of_getLast? (getLast?_definitionName d))
  next => cases hfile

/-- The directory for the bundle of a release is made in both, or in neither. -/
theorem createBundleDirectory_inStep (release : Release) :
    InStep (Twin P p place)
      (fun bundle files files' => ∃ version, bundle = p.child version ∧
        TwinBundle P p place version files files')
      (Twin P p place) (createBundleDirectory p release) := by
  unfold createBundleDirectory
  split
  next => exact InStep.of_throw fun _ _ h => h
  next version _ =>
    refine InStep.bind_ofExcept (fun _ _ h => h) fun path hpath => ?_
    rw [Layout.bundleDirectory_eq] at hpath
    split at hpath
    next hname =>
      cases hpath
      exact (createDirectory_inStep hname).mono (fun _ _ h => h) (fun _ _ _ h => ⟨version, h⟩)
        fun _ _ h => h
    next => cases hpath

/-- What is written into the directory of a bundle, once it is made, is written into both to the same
end. -/
theorem carries_fillBundle (index : List (ResourceKey × Definition)) (release : Release) :
    Carries (TwinBundle P p place version) (do
      let file ← named (Layout.releaseFile (p.child version) release.name)
      let owned ← ofExcept (fun what => failure (.unresolved what)) (Resolution.resolve release index)
      owned.forM (writeDefinition (p.child version))
      discard (writeDocument release.toValue file)) := by
  refine InStep.bind_ofExcept (fun _ _ h => h) fun file hfile => ?_
  rw [Layout.releaseFile_eq] at hfile
  split at hfile
  next hname =>
    cases hfile
    have hcomponent := Layout.isComponent_append hname Layout.isSuffix_release
    refine InStep.bind_ofExcept (fun _ _ h => h) fun owned _ => ?_
    refine InStep.bind (Carries.forM owned carries_writeDefinition) fun _ => ?_
    exact InStep.discard (carries_writeDocument release.toValue hcomponent fun other =>
      temporaryName_ne_of_getLast? (getLast?_releaseName release))
  next => cases hfile

/-- A bundle is written into both to the same end. -/
theorem carries_writeBundle (index : List (ResourceKey × Definition)) (release : Release) :
    Carries (Twin P p place) (writeBundle p index release) := by
  refine InStep.bind (createBundleDirectory_inStep release) fun bundle =>
    InStep.of_exists fun version => InStep.of_and fun hbundle => ?_
  subst hbundle
  exact (carries_fillBundle index release).mono (fun _ _ h => h) (fun _ _ _ h => h.toTwin)
    fun _ _ h => h.toTwin

theorem carries_createBundle (index : List (ResourceKey × Definition)) (release : Release) :
    Carries (Twin P p place) (createBundle p index release) :=
  InStep.bind
    (InStep.tryCatch (carries_writeBundle index release) fun _ => InStep.of_throw fun _ _ h => h)
    fun _ => InStep.of_note _ _ _

/-! ## The whole of a package -/

/-- In a regular file system, the new directory of a package can be written into. -/
theorem Rooted.workplace {registry : Path} {id : String} {directory : Place}
    (h : Rooted files registry id directory) (ht : files.IsRegular)
    (hdirect : files.Direct registry directory) :
    Workplace (files.put (directory ++ [id]) (.directory Layout.directoryMode)) (registry.child id)
      (directory ++ [id]) := by
  obtain ⟨-, hdot, hup, -, -⟩ := Layout.isComponent_iff.1 h.component
  have hsite := h.site ht
  have hkeeps : Keeps files (files.put (directory ++ [id]) (.directory Layout.directoryMode)) :=
    keeps_put_of_none (by simp) h.free
  have hfree : files.isDirectoryAt (directory ++ [id]) = false := by simp [isDirectoryAt, h.free]
  exact ⟨hsite, ht.put h.leads.directory h.component h.short hfree _,
    (hdirect.of_keeps hkeeps).child hsite.leads.directory hdot hup h.short⟩

/-- Two file systems into whose registries a package is to be written: the path of its directory
stands for the same place in both, and they are the same in that place and below it. -/
structure Ready (P : Place → Prop) (registry : Path) (id : String) (files files' : FileSystem) : Prop
    extends Alongside P files files' where
  slot : files'.slot (registry.child id) = files.slot (registry.child id)
  below : ∀ directory, files.LeadsTo registry directory → ∀ rel, P (directory ++ [id] ++ rel)
  direct : ∀ directory, files.LeadsTo registry directory →
    files.Direct registry directory ∧ files'.Direct registry directory

/-- The directory of a package is made in both, or in neither. -/
theorem createRoot_inStep {registry : Path} {id : String} (hid : Layout.isComponent id = true) :
    InStep (Ready P registry id)
      (fun root files files' => root = registry.child id ∧
        ∃ directory, Twin P (registry.child id) (directory ++ [id]) files files' ∧
          ∀ name, files.get? (directory ++ [id] ++ [name]) = none)
      (Alongside P) (createRoot (registry.child id)) := by
  refine InStep.tryCatch ?_ fun _ => InStep.of_throw fun _ _ h => h
  intro w w' h
  rw [createDirectory_run, createDirectory_run]
  cases hnull : (registry.child id).hasNull with
  | true => exact .error _ h.toAlongside
  | false =>
    simp only [Bool.false_eq_true, if_false]
    rw [makeDirectory, makeDirectory, h.slot]
    cases hs : w.files.slot (registry.child id) with
    | error code => exact .error _ h.toAlongside
    | ok found =>
      cases found with
      | none => exact .error _ h.toAlongside
      | some place =>
        obtain ⟨directory, hl, rfl, -⟩ := leadsTo_of_slot_child hs
        have hplace : P (directory ++ [id]) := by simpa using h.below directory hl []
        dsimp only
        rw [h.same _ hplace]
        cases hentry : w.files.get? (directory ++ [id]) with
        | some e => exact .error _ h.toAlongside
        | none =>
          have hr : Rooted w.files registry id directory := ⟨hid, hnull, hs, hentry⟩
          have hr' : Rooted w'.files registry id directory :=
            ⟨hid, hnull, h.slot.trans hs, (h.same _ hplace).trans hentry⟩
          -- Nothing stood below a place at which nothing stood, so the new directory is empty in
          -- both.
          obtain ⟨hdirect, hdirect'⟩ := h.direct directory hl
          refine .ok _ ⟨rfl, directory, ?_, fun name => ?_⟩
          · exact ⟨h.toSameOn.put (by simp) _, h.below directory hl, hr.workplace h.left hdirect,
              hr'.workplace h.right hdirect'⟩
          · rw [get?_put _ _ _ (by simp), if_neg (by simp), h.left.get?_below hentry]

/-- What is written into the directory of a package, once it is made, is written into both to the same
end: the descriptor, which finds the directory empty, and then the bundles. -/
theorem fillRoot_inStep {package : Package} (index : List (ResourceKey × Definition))
    (hid : Layout.isComponent package.id = true) :
    InStep (fun files files' => Twin P p place files files' ∧
        ∀ name, files.get? (place ++ [name]) = none)
      (fun _ => Twin P p place) (Twin P p place) (do
        let file ← named (Layout.packageFile p package.id)
        discard (writeDocument package.toValue file)
        package.releases.forM (createBundle p index)
        note .info manifestSource
          ("created manifest for package " ++ package.id ++ " at " ++ p.toText)) := by
  have hname := Layout.isComponent_append hid Layout.isSuffix_package
  refine InStep.bind_ofExcept (fun _ _ h => h.1) fun file hfile => ?_
  rw [Layout.packageFile_eq, if_pos hid] at hfile
  cases hfile
  refine InStep.bind (InStep.discard ((writeDocument_inStep package.toValue hname).mono
    (fun _ _ h => ⟨h.1, h.2 _⟩) (fun _ _ _ h => h) fun _ _ h => h)) fun _ => ?_
  exact InStep.bind (Carries.forM package.releases (carries_createBundle index)) fun _ =>
    InStep.of_note _ _ _

/-- Writing a package keeps step on two file systems that are the same in its place: it comes to the
same, and they are the same afterwards. -/
theorem write_inStep {package : Package} {registry : Path} (index : List (ResourceKey × Definition))
    (hid : Layout.isComponent package.id = true) :
    InStep (Ready P registry package.id) (fun _ => Alongside P) (Alongside P)
      (write package index (registry.child package.id)) := by
  refine InStep.bind (createRoot_inStep hid) fun root => InStep.of_and fun hroot =>
    InStep.of_exists fun directory => ?_
  subst hroot
  exact (fillRoot_inStep index hid).mono (fun _ _ h => h) (fun _ _ _ h => h.alongside)
    fun _ _ h => h.alongside

end RegistryTree.Manifest
