import RegistryTree.Proofs.Manifest.Creation

/-!
# Removing what was written

A manifest removes the directory that it remembers, with all that is in it. Where it made the
directory itself, nothing had been there, and in a tree the files are then as they were before. But
the directory is remembered before it is made: where one stood already, writing fails, and the
directory that is removed is the one that stood there.

> `deleteAt_of_error`: what was written is removed without a trace.
> `deleteAt_cases`: a directory that stands in the place of the package is removed, whoever made it.
-/

namespace RegistryTree.Manifest

open FileSystem RegistryTree.Action

/-- What removing a directory leaves: the files without it; or the files without what was in it, when
its path led through there; or the files as they were, when no directory stood there. -/
theorem removeDirectory_cases (files : FileSystem) (p : Path) :
    (∃ place, files.slot p = .ok (some place) ∧ files.isDirectoryAt place = true ∧
      ((∃ found, (files.eraseWithin place).slot p = .ok found) ∧
          (files.removeDirectory p).2 = files.eraseBelow place ∨
        (∃ code, (files.eraseWithin place).slot p = .error code) ∧
          (files.removeDirectory p).2 = files.eraseWithin place)) ∨
    ((∀ place, files.slot p = .ok (some place) → files.isDirectoryAt place = false) ∧
      (files.removeDirectory p).2 = files) := by
  rw [removeDirectory]
  cases hs : files.slot p with
  | error code => exact Or.inr ⟨(fun place he => by cases he), rfl⟩
  | ok found =>
    cases found with
    | none => exact Or.inr ⟨(fun place he => by cases he), rfl⟩
    | some place =>
      have hnone : files.isDirectoryAt place = false → ∀ place', (Except.ok (some place) :
          Except ErrorCode (Option Place)) = .ok (some place') →
          files.isDirectoryAt place' = false := by
        intro h place' he
        cases he
        exact h
      dsimp only
      cases he : files.get? place with
      | none => exact Or.inr ⟨hnone (by simp [isDirectoryAt, he]), rfl⟩
      | some e =>
        cases e with
        | directory mode =>
          refine Or.inl ⟨place, rfl, isDirectoryAt_iff.2 ⟨mode, he⟩, ?_⟩
          cases hslot : (files.eraseWithin place).slot p with
          | error code => exact Or.inr ⟨⟨code, rfl⟩, rfl⟩
          | ok found => exact Or.inl ⟨⟨found, rfl⟩, erase_eraseWithin files place⟩
        | file mode content =>
          exact Or.inr ⟨hnone (by simp [isDirectoryAt, he, Entry.isDirectory]), rfl⟩
        -- a link is refused, wherever it leads
        | link target =>
          refine Or.inr ⟨hnone (by simp [isDirectoryAt, he, Entry.isDirectory]), ?_⟩
          cases files.follow p <;> rfl

/-- Whether an error in removing a directory tells that there is nothing to remove. -/
def isForgiven (cause : SystemError) : Bool :=
  match cause.errorClass with
  | .missing | .notDirectory => true
  | _ => false

/-- Removing the directory of a package is removing it on the file system; where there is nothing to
remove, that is no error. -/
theorem deleteAt_run (package : Package) (root : Path) (w : Workspace) :
    deleteAt package root w =
      if root.hasNull then (.error .nullInPath, w)
      else
        match w.files.removeDirectory root with
        | (.ok (), left) => (.ok (), ⟨left, w.journal ++ [.note .info manifestSource
            ("deleted manifest for package " ++ package.id ++ " at " ++ root.toText)]⟩)
        | (.error cause, left) =>
          (if isForgiven cause then .ok ()
            else .error (failure (.io "remove directory" root.toText cause)), { w with files := left }) := by
  rw [deleteAt, bind_run, requireUsable_run]
  cases root.hasNull with
  | true => rfl
  | false =>
    simp only [Bool.false_eq_true, if_false]
    rw [bind_run]
    show (setFiles (w.files.removeDirectory root).2 >>= fun _ => _ : Action Unit) w = _
    rw [bind_run, setFiles_run]
    rcases w.files.removeDirectory root with ⟨cause | u, left⟩
    · unfold isForgiven
      dsimp only
      cases cause.errorClass <;> rfl
    · rfl

/-- What is left when the directory of a package is removed. -/
theorem deleteAt_files (package : Package) (root : Path) (w : Workspace) :
    (deleteAt package root w).2.files =
      if root.hasNull then w.files else (w.files.removeDirectory root).2 := by
  rw [deleteAt_run]
  cases root.hasNull with
  | true => rfl
  | false => rcases w.files.removeDirectory root with ⟨_ | _, _⟩ <;> rfl

variable {package : Package} {registry : Path} {directory : Place} {w : Workspace}

/-- What was written below a new directory is removed without a trace. -/
theorem deleteAt_putAll {base : FileSystem} (ht : base.IsRegular)
    (hr : Rooted base registry package.id directory) {entries : List (Place × Entry)}
    (hroot : standing entries [] = some (.directory Layout.directoryMode))
    (hw : w.files = base.putAll (directory ++ [package.id]) entries) :
    (deleteAt package (registry.child package.id) w).2.files = base := by
  have hslot := slot_of_keeps (ht.keeps_putAll hr.free entries) hr.slot
  have hget := ht.get?_putAll_eq hr.free entries []
  rw [List.append_nil, hroot] at hget
  rw [deleteAt_files, hr.usable, hw]
  simp only [Bool.false_eq_true, if_false]
  -- the way to the directory does not lead through what was written into it
  have hemptied := slot_of_keeps (ht.keeps_eraseWithin_putAll hr.free entries) hr.slot
  rcases removeDirectory_cases (base.putAll (directory ++ [package.id]) entries)
      (registry.child package.id) with ⟨place, hs, -, hleft⟩ | ⟨hnone, -⟩
  · rw [hslot] at hs
    cases hs
    rcases hleft with ⟨-, hleft⟩ | ⟨⟨code, herror⟩, -⟩
    · rw [hleft]
      exact ht.eraseBelow_putAll_eq hr.free entries
    · rw [hemptied] at herror
      cases herror
  · have hdirectory := isDirectoryAt_iff.2 ⟨_, hget⟩
    rw [hnone _ hslot] at hdirectory
    cases hdirectory

/-- What is left of a bundle stands at the version or below it. -/
theorem Halted.mem_left {root : Path} {done : List Release} {r : Release} {e : Failure}
    {left : List (Place × Entry)} (h : Halted package root done r e left) {x : Place × Entry}
    (hx : x ∈ left) : x.1 ≠ [] := by
  have hstart : ∀ version ds, x ∈ bundleStart version ds → x.1 ≠ [] := by
    intro version ds hx
    rcases List.mem_cons.1 hx with rfl | hx
    · simp
    · obtain ⟨d, -, rfl⟩ := List.mem_map.1 hx
      simp [definitionEntry]
  cases h with
  | missingVersion => cases hx
  | unsafeVersion => cases hx
  | noDirectory => cases hx
  | unsafeRelease => exact hstart _ _ hx
  | unresolved => exact hstart _ _ hx
  | definition => exact hstart _ _ hx
  | release => exact hstart _ _ hx

/-- The directory of a package stands as long as nothing else is put in its place. -/
theorem standing_start_append {rest : List (Place × Entry)} (h : ∀ x ∈ rest, x.1 ≠ []) :
    standing (start package ++ rest) [] = some (.directory Layout.directoryMode) := by
  rw [standing_append, standing_eq_none_iff.2 h]
  rfl

/-- What is written into the directory of a package is not put in its place. -/
theorem mem_bundles {done : List Release} {x : Place × Entry}
    (hx : x ∈ done.flatMap (bundle package)) : x.1 ≠ [] := by
  obtain ⟨r, -, hx⟩ := List.mem_flatMap.1 hx
  obtain ⟨version, rel, -, hplace⟩ := mem_bundle hx
  simp [hplace]

theorem standing_part (done : List Release) :
    standing (part package done) [] = some (.directory Layout.directoryMode) :=
  standing_start_append fun _ hx => mem_bundles hx

theorem Halted.standing_root {root : Path} {done : List Release} {r : Release} {e : Failure}
    {left : List (Place × Entry)} (h : Halted package root done r e left) :
    standing (part package done ++ left) [] = some (.directory Layout.directoryMode) := by
  rw [part, List.append_assoc]
  refine standing_start_append fun x hx => ?_
  rcases List.mem_append.1 hx with hx | hx
  · exact mem_bundles hx
  · exact h.mem_left hx

/-- A release is only halted by an error or by a number that is too wide. -/
theorem Halted.wideInteger_of_unexpected {root : Path} {done : List Release} {r : Release}
    {e : Failure} {left : List (Place × Entry)} (h : Halted package root done r e left)
    (he : ∀ error, within r.name e ≠ .manifest error) : within r.name e = .wideInteger := by
  cases h with
  | definition version before d after e _ _ _ _ _ hstep =>
    cases hstep with
    | manifest fault hne => exact absurd rfl (he _)
    | wideInteger => rfl
  | release version e _ _ _ _ hstep =>
    cases hstep with
    | manifest fault hne => exact absurd rfl (he _)
    | wideInteger => rfl
  | _ => exact absurd rfl (he _)

/-- Whatever ends the writing behind a new directory, that directory is there to be removed. -/
theorem deleteAt_of_error {base : FileSystem} {e : Failure} (ht : base.IsRegular)
    (h : Created package registry base (.error e) w.files)
    (hr : Rooted base registry package.id directory) :
    (deleteAt package (registry.child package.id) w).2.files = base := by
  generalize he : (Except.error e : Except Failure Unit) = result at h
  generalize hw : w.files = after at h
  cases h with
  | unsafeId hid =>
    rw [hr.component] at hid
    cases hid
  | noDirectory e' _ hnot => exact absurd hr (hnot directory)
  | noDescriptor directory' e' hr' => exact deleteAt_putAll ht hr' rfl hw
  | halted directory' done r more e' left hr' _ _ _ hhalt =>
    exact deleteAt_putAll ht hr' hhalt.standing_root hw
  | finished => cases he

/-- Writing leaves the files as they were, or it has made a directory in the place of the package, and
all that it wrote is in there. -/
theorem Created.left_cases {before after : FileSystem} {result : Except Failure Unit}
    (h : Created package registry before result after) :
    after = before ∨ ∃ directory entries, Rooted before registry package.id directory ∧
      standing entries [] = some (.directory Layout.directoryMode) ∧
      after = before.putAll (directory ++ [package.id]) entries := by
  cases h with
  | unsafeId => exact Or.inl rfl
  | noDirectory => exact Or.inl rfl
  | noDescriptor directory e hr => exact Or.inr ⟨directory, _, hr, rfl, rfl⟩
  | halted directory done r more e left hr _ _ _ hhalt =>
    exact Or.inr ⟨directory, _, hr, hhalt.standing_root, rfl⟩
  | finished directory hr => exact Or.inr ⟨directory, _, hr, standing_part _, rfl⟩

/-- Where no directory can be made for a package, nothing is written. -/
theorem Created.of_unrooted {before after : FileSystem} {result : Except Failure Unit}
    (h : Created package registry before result after)
    (hnot : ∀ directory, ¬ Rooted before registry package.id directory) : after = before := by
  rcases h.left_cases with hsame | ⟨directory, entries, hr, -⟩
  · exact hsame
  · exact absurd hr (hnot directory)

/-- Where a directory stands it is removed, or at least what is in it, whoever made it; elsewhere
nothing is. -/
theorem deleteAt_cases (registry : Path) (ht : w.files.IsRegular)
    (hid : Layout.isComponent package.id = true) :
    (∃ place, w.files.slot (registry.child package.id) = .ok (some place) ∧
      w.files.isDirectoryAt place = true ∧
      ((deleteAt package (registry.child package.id) w).2.files = w.files.eraseBelow place ∨
        (∃ code, (w.files.eraseWithin place).slot (registry.child package.id) = .error code) ∧
          (deleteAt package (registry.child package.id) w).2.files =
            w.files.eraseWithin place)) ∨
    ((∀ place, w.files.slot (registry.child package.id) = .ok (some place) →
        w.files.isDirectoryAt place = false) ∧
      (deleteAt package (registry.child package.id) w).2.files = w.files) := by
  rw [deleteAt_files]
  rcases removeDirectory_cases w.files (registry.child package.id) with
    ⟨place, hs, hd, hleft⟩ | ⟨hnone, hleft⟩
  · obtain ⟨inside, hl, -⟩ := leadsTo_of_slot_child hs
    rw [Path.hasNull_child (hl.usable ht) hid]
    simp only [Bool.false_eq_true, if_false]
    exact Or.inl ⟨place, hs, hd, hleft.imp And.right id⟩
  · refine Or.inr ⟨hnone, ?_⟩
    rw [hleft, ite_self]

/-- A failure that is not an error of writing: a number too wide, and then there is a directory that
was not there before; or a path that cannot be handed to the system, and then nothing is written. -/
theorem Created.of_unexpected {before after : FileSystem} {e : Failure} (ht : before.IsRegular)
    (h : Created package registry before (.error e) after) (he : ∀ error, e ≠ .manifest error) :
    (e = .wideInteger ∧ ∃ place, after.get? place ≠ before.get? place) ∨
      (after = before ∧ e ≠ .wideInteger ∧ (registry.child package.id).hasNull = true) := by
  -- behind a new directory the files are not as they were
  have hmade : ∀ {directory : Place} {entries : List (Place × Entry)},
      Rooted before registry package.id directory →
      standing entries [] = some (.directory Layout.directoryMode) →
      ∃ place, (before.putAll (directory ++ [package.id]) entries).get? place ≠
        before.get? place := by
    intro directory entries hr hroot
    have hget := ht.get?_putAll_eq hr.free entries []
    rw [List.append_nil, hroot] at hget
    exact ⟨directory ++ [package.id], by simp [hget, hr.free]⟩
  generalize hresult : (Except.error e : Except Failure Unit) = result at h
  cases h with
  | unsafeId => cases hresult; exact absurd rfl (he _)
  | noDirectory e' hroot =>
    cases hresult
    cases hroot with
    | manifest fault => exact absurd rfl (he _)
    | null hnull => exact Or.inr ⟨rfl, nofun, hnull⟩
  | noDescriptor directory e' hr hstep =>
    cases hresult
    cases hstep with
    | manifest fault hne => exact absurd rfl (he _)
    | wideInteger => exact Or.inl ⟨rfl, hmade hr rfl⟩
  | halted directory done r more e' left hr _ _ _ hhalt =>
    cases hresult
    refine Or.inl ⟨hhalt.wideInteger_of_unexpected he, hmade hr ?_⟩
    exact hhalt.standing_root
  | finished => cases hresult

theorem deleteAt_error {root : Path} {e : Failure} (h : (deleteAt package root w).1 = .error e) :
    e ≠ .wideInteger := by
  rw [deleteAt_run] at h
  split at h
  next =>
    cases h
    exact nofun
  next =>
    split at h
    next => cases h
    next =>
      split at h
      next => cases h
      next =>
        cases h
        exact nofun

theorem delete_error {m : Manifest} {e : Failure} (h : (m.delete w).1 = .error e) :
    e ≠ .wideInteger := by
  cases hroot : m.root with
  | none =>
    rw [delete, hroot] at h
    cases h
  | some root =>
    rw [delete, hroot] at h
    exact deleteAt_error h

/-- The manifest after writing is about the same package. -/
theorem create_package (m : Manifest) : (m.create w).1.1.package = m.package := by
  unfold create
  cases Layout.packageRoot m.registry m.package.id <;> rfl

end RegistryTree.Manifest
