import RegistryTree.Proofs.Failure
import RegistryTree.Proofs.FileSystem.Nowhere
import RegistryTree.Proofs.Manifest.Sequence

/-!
# A directory that was never made

The first thing that writing a manifest makes is the directory of the package. When the registry is
no directory, this fails, and the error tells so: it is an error of configuration. No other error of
writing is one.

A manifest remembers where it writes before the directory is made. When making it fails, deleting is
asked to remove what never was there. A path with nothing at its end is forgiven: deleting does
nothing then, any number of times. A path that meets a limit is not: the removal meets the same
limit, and is an error each time. In no case do the files or the journal change.

> `create_configuration`: an error of configuration tells that the registry is no directory.
> `deletions_unmade`: what deleting comes to after the directory could not be made.
-/

namespace RegistryTree

/-- Whether a failure is an error of configuration. -/
def Failure.IsConfiguration : Failure → Prop
  | .manifest ⟨.configuration .., _⟩ => True
  | _ => False

namespace Manifest

open FileSystem RegistryTree.Action

variable {m : Manifest} {w : Workspace} {root p : Path} {name : String} {code : ErrorCode}

/-! ## Making the directory of a package -/

/-- Writing a manifest is writing its package where the layout has its place, which is remembered. -/
theorem create_run (hroot : Layout.packageRoot m.registry m.package.id = .ok root) (w : Workspace) :
    m.create w = (({ m with root := some root, index := some m.keyIndex },
      (write m.package m.keyIndex root w).1), (write m.package m.keyIndex root w).2) := by
  unfold create
  rw [hroot]
  rfl

/-- What writing comes to when the directory of the package is not made. -/
theorem create_of_createRoot_error {after : Workspace} {e : Failure}
    (hroot : Layout.packageRoot m.registry m.package.id = .ok root)
    (h : createRoot root w = (.error e, after)) :
    m.create w = (({ m with root := some root, index := some m.keyIndex }, .error e), after) := by
  rw [create_run hroot, write, bind_run, h]

/-- Making the directory of a package is making it on the file system, but that an error may tell of
the configuration. -/
theorem createRoot_run (root : Path) (w : Workspace) :
    createRoot root w =
      if root.hasNull then (.error .nullInPath, w)
      else
        match w.files.makeDirectory root Layout.directoryMode with
        | .error cause =>
          (.error (asConfiguration (failure (.io "create directory" root.toText cause))), w)
        | .ok files => (.ok root, ⟨files, w.journal ++
            [.note .debug fileSource ("created directory " ++ root.toText)]⟩) := by
  rw [createRoot, tryCatch_run, createDirectory_run]
  cases root.hasNull with
  | true => rfl
  | false => cases w.files.makeDirectory root Layout.directoryMode <;> rfl

/-- A directory whose path leads nowhere is not made. -/
theorem createRoot_nowhere (husable : root.hasNull = false)
    (hslot : w.files.slot root = .error code) :
    createRoot root w = (.error (asConfiguration
      (failure (.io "create directory" root.toText (.numbered code [root.toText])))), w) := by
  rw [createRoot_run, husable, makeDirectory, hslot]
  rfl

/-- When there is nothing at the end of the path, the error is one of configuration. -/
theorem asConfiguration_absence (h : IsAbsence code) (operation path : String)
    (paths : List String) :
    asConfiguration (failure (.io operation path (.numbered code paths))) =
      failure (.configuration operation path (.numbered code paths)) := by
  rcases h with rfl | rfl <;> rfl

/-! ## Errors of configuration -/

/-- The limits within which a path can be asked about: it can be handed to the system, the names on
its way are short, its text is not too long, and it takes no more links than are followed. -/
structure WithinLimits (files : FileSystem) (registry : Path) (id : String) : Prop where
  usable : registry.hasNull = false
  names : files.HasShortNames (registry.child id)
  text : isOverlong (registry.child id) = false
  links : files.followFrom (files.startOf registry) registry.parts ≠ .error .linkLoop

theorem createDirectory_failsIn (p : Path) :
    FailsIn (¬ Failure.IsConfiguration ·) (createDirectory p) := by
  intro w e he
  rw [createDirectory_run] at he
  split at he
  next =>
    cases he
    exact id
  next =>
    split at he
    next =>
      cases he
      exact id
    next => cases he

theorem writeDocument_failsIn (v : Value) (p : Path) :
    FailsIn (¬ Failure.IsConfiguration ·) (writeDocument v p) := by
  intro w e he
  rcases writeDocument_cases v p w with ⟨e', he', hrun⟩ | ⟨text, place, -, -, -, -, hrun⟩
  · rw [hrun] at he
    cases he
    cases he' <;> exact id
  · rw [hrun] at he
    cases he

theorem named_failsIn (path : Except UnsafeName Path) :
    FailsIn (¬ Failure.IsConfiguration ·) (named path) :=
  .of_ofExcept fun _ _ => id

theorem within_configuration {e : Failure} (h : ¬ e.IsConfiguration) (release : String) :
    ¬ (within release e).IsConfiguration := by
  cases e with
  | manifest error =>
    obtain ⟨fault, known⟩ := error
    cases fault with
    | configuration operation path cause => exact absurd trivial h
    | _ => exact id
  | _ => exact id

theorem createBundleDirectory_failsIn (root : Path) (r : Release) :
    FailsIn (¬ Failure.IsConfiguration ·) (createBundleDirectory root r) := by
  unfold createBundleDirectory
  cases r.version with
  | none => exact .of_throw id
  | some version => exact .bind (named_failsIn _) fun p => createDirectory_failsIn p

theorem writeDefinition_failsIn (bundle : Path) (d : Definition) :
    FailsIn (¬ Failure.IsConfiguration ·) (writeDefinition bundle d) :=
  .bind (named_failsIn _) fun p => .of_discard (writeDocument_failsIn _ p)

/-- Nothing in a bundle fails with an error of configuration. -/
theorem createBundle_failsIn (root : Path) (index : List (ResourceKey × Definition))
    (r : Release) : FailsIn (¬ Failure.IsConfiguration ·) (createBundle root index r) := by
  have hwrite : FailsIn (¬ Failure.IsConfiguration ·) (writeBundle root index r) := by
    refine .bind (createBundleDirectory_failsIn root r) fun bundle => ?_
    refine .bind (named_failsIn _) fun file => ?_
    refine .bind (.of_ofExcept fun _ _ => id) fun owned => ?_
    refine .bind (.forM (writeDefinition_failsIn bundle) owned) fun _ => ?_
    exact .of_discard (writeDocument_failsIn _ file)
  refine .bind (.of_tryCatch hwrite fun e he => ?_) fun _ => .of_note _ _ _
  exact .of_throw (within_configuration he r.name)

/-- In a directory, the directory of a package is only not made for reasons that are no matter of
configuration: its name or its path is too long, or something stands in its place. -/
theorem createRoot_error_of_leadsTo {place : Place} {e : Failure}
    (h : w.files.LeadsTo p place) (hup : name ≠ "..")
    (he : (createRoot (p.child name) w).1 = .error e) : ¬ e.IsConfiguration := by
  rw [createRoot_run, h.makeDirectory_child hup] at he
  -- What is told here is that a name is too long or that something exists, and neither is an
  -- absence.
  split at he
  next =>
    cases he
    exact id
  next =>
    split at he
    next cause hmade =>
      cases he
      split at hmade
      next =>
        cases hmade
        exact id
      next =>
        split at hmade
        next =>
          cases hmade
          exact id
        next => cases hmade
    next => cases he

/-- Below the directory of a package nothing fails with an error of configuration. -/
theorem write_failsIn {package : Package} {index : List (ResourceKey × Definition)}
    (h : ErrorsIn (¬ Failure.IsConfiguration ·) (createRoot root w).1) :
    ErrorsIn (¬ Failure.IsConfiguration ·) (write package index root w).1 := by
  refine FailsIn.bind_run h fun root => ?_
  refine .bind (named_failsIn _) fun file => ?_
  refine .bind (.of_discard (writeDocument_failsIn _ file)) fun _ => ?_
  exact .bind (.forM (createBundle_failsIn root index) _) fun _ => .of_note _ _ _

theorem emptyRegistry_no_link (q : Place) (target : String) :
    emptyRegistry.get? q ≠ some (.link target) := by
  intro h
  cases q with
  | nil => cases h
  | cons name rest =>
    have hmem := mem_of_get? (List.cons_ne_nil name rest) h
    simp [emptyRegistry] at hmem

/-- Deletes a number of times, one after the other: what each time comes to, and the workspace
behind the last. -/
def deletions (m : Manifest) : Nat → Workspace → List (Except Failure Unit) × Workspace
  | 0, w => ([], w)
  | n + 1, w =>
    let (result, after) := m.delete w
    let (results, last) := m.deletions n after
    (result :: results, last)

/-- What removing a directory comes to when its path meets an error: nothing is to be done if there
is nothing, and a limit is an error. -/
def unmadeRemoval (root : Path) (code : ErrorCode) : Except Failure Unit :=
  if IsLimit code then
    .error (failure (.io "remove directory" root.toText (.numbered code [root.toText])))
  else .ok ()

/-- Deleting that changes nothing comes to the same each time. -/
theorem deletions_of_still {result : Except Failure Unit} (h : m.delete w = (result, w)) (n : Nat) :
    m.deletions n w = (List.replicate n result, w) := by
  induction n with
  | zero => rfl
  | succ n ih =>
    rw [deletions, h]
    simp only [ih, List.replicate_succ]

/-- Of the errors that a walk ends in, those are forgiven that tell of no limit. -/
theorem isForgiven_numbered (h : IsAbsence code ∨ IsLimit code) (paths : List String) :
    isForgiven (.numbered code paths) = !decide (IsLimit code) := by
  rcases h with (rfl | rfl) | rfl | rfl <;> rfl

/-- Removing by a path whose last name stands for no entry changes nothing. -/
theorem deleteAt_nowhere (package : Package) (husable : (p.child name).hasNull = false)
    (hslot : w.files.slot (p.child name) = .error code) :
    deleteAt package (p.child name) w = (unmadeRemoval (p.child name) code, w) := by
  rw [deleteAt_run, husable, removeDirectory, hslot, unmadeRemoval]
  simp only [Bool.false_eq_true, if_false, failAt, isForgiven_numbered (slot_child_error hslot)]
  by_cases hlimit : IsLimit code
  · simp [hlimit]
  · simp [hlimit]

/-- Where nothing stands in its place, a directory is only not made when its path leads nowhere. -/
theorem slot_of_createRoot_error {e : Failure} (husable : (p.child name).hasNull = false)
    (hup : name ≠ "..")
    (hfree : ∀ place, w.files.slot (p.child name) = .ok (some place) → w.files.get? place = none)
    (h : (createRoot (p.child name) w).1 = .error e) :
    ∃ code, w.files.slot (p.child name) = .error code := by
  cases hslot : w.files.slot (p.child name) with
  | error code => exact ⟨code, rfl⟩
  | ok found =>
    cases found with
    | none => exact absurd hslot (slot_child_ne_none hup)
    | some place =>
      rw [createRoot_run, husable, makeDirectory, hslot] at h
      simp [hfree place hslot] at h

/-- After the directory of a package could not be made, for whatever reason, deleting never changes
anything. It is quiet unless the path of the directory meets a limit, and then it is an error each
time. -/
theorem deletions_unmade {e : Failure} (husable : m.registry.hasNull = false)
    (hroot : Layout.packageRoot m.registry m.package.id = .ok root)
    (hfree : ∀ place, w.files.slot root = .ok (some place) → w.files.get? place = none)
    (hmake : (createRoot root w).1 = .error e) :
    (m.create w).1.2 = .error e ∧ (m.create w).2 = w ∧
      ∃ code, w.files.slot root = .error code ∧ (IsAbsence code ∨ IsLimit code) ∧
        e = asConfiguration
          (failure (.io "create directory" root.toText (.numbered code [root.toText]))) ∧
        ∀ n, (m.create w).1.1.deletions n w =
          (List.replicate n (unmadeRemoval root code), w) := by
  rw [Layout.packageRoot_eq] at hroot
  split at hroot
  next hid =>
    cases hroot
    have hnull := Path.hasNull_child husable hid
    obtain ⟨-, -, hup, -, -⟩ := Layout.isComponent_iff.1 hid
    obtain ⟨code, hslot⟩ := slot_of_createRoot_error hnull hup hfree hmake
    have hrun := createRoot_nowhere hnull hslot
    rw [hrun] at hmake
    cases hmake
    rw [create_of_createRoot_error (packageRoot_of_component _ hid) hrun]
    refine ⟨rfl, rfl, code, hslot, slot_child_error hslot, rfl, deletions_of_still ?_⟩
    exact deleteAt_nowhere m.package hnull hslot
  next => cases hroot

/-- A registry that is a link to itself. -/
def loopedRegistry : FileSystem := ⟨[(["reg"], .link "reg")], []⟩

/-- In a registry that is a link to itself each deletion is an error, in one that is missing each is
quiet. -/
theorem deletions_unmade_looped :
    (((Manifest.new (barePackage "demo" []) (.ofText "reg")).create
        ⟨loopedRegistry, []⟩).1.1.deletions 2 ⟨loopedRegistry, []⟩).1 =
      List.replicate 2 (.error (failure (.io "remove directory" "reg/demo"
        (.numbered .linkLoop ["reg/demo"])))) ∧
    (((Manifest.new (barePackage "demo" []) (.ofText "reg")).create
        ⟨⟨[], []⟩, []⟩).1.1.deletions 2 ⟨⟨[], []⟩, []⟩).1 = [.ok (), .ok ()] := by
  have hroot : Layout.packageRoot (.ofText "reg") "demo" = .ok ((Path.ofText "reg").child "demo") :=
    packageRoot_of_component _ (by decide)
  have hunmade : ∀ {files : FileSystem} {code : ErrorCode},
      files.slot ((Path.ofText "reg").child "demo") = .error code →
      (((Manifest.new (barePackage "demo" []) (.ofText "reg")).create
          ⟨files, []⟩).1.1.deletions 2 ⟨files, []⟩).1 =
        List.replicate 2 (unmadeRemoval ((Path.ofText "reg").child "demo") code) := by
    intro files code hslot
    have hmake := createRoot_nowhere (w := ⟨files, []⟩) (by decide +kernel) hslot
    obtain ⟨-, -, code', hcode, -, -, hall⟩ :=
      deletions_unmade (m := .new (barePackage "demo" []) (.ofText "reg")) (by decide +kernel) hroot
        (fun place h => by cases hslot.symm.trans h) (congrArg Prod.fst hmake)
    cases hslot.symm.trans hcode
    rw [hall 2]
  constructor
  · have hslot : loopedRegistry.slot ((Path.ofText "reg").child "demo") = .error .linkLoop := by
      decide +kernel
    rw [hunmade hslot]
    rfl
  · have hslot : FileSystem.slot ⟨[], []⟩ ((Path.ofText "reg").child "demo") = .error .missing := by
      decide +kernel
    rw [hunmade hslot]
    rfl

end Manifest

end RegistryTree
