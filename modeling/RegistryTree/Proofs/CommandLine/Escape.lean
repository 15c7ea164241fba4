import RegistryTree.Proofs.Catalog.Refusal
import RegistryTree.Proofs.CommandLine.Build
import RegistryTree.Proofs.Path

/-!
# What no command expects

A command reports what is wrong with its input as a parameter that it refuses. Some failures escape
it. There are faults of a YAML text that neither command expects. A check takes a text that is not
well formed for unexpected too, and so a scalar that is marked as a truth value and is none, while a
build refuses both. And a build that comes upon a number too wide to be written ends with that.

Nothing else escapes: reading fails in no other way, writing fails as a manifest else, and the
removal of what was written does not fail for a reason that is not told. How a command ends is left
open for a text that stands for no value here, and for no other.

> `escaped_iff`: when a failure escapes, when it is not told how a command ends, and how it ends else.
-/

namespace RegistryTree.CommandLine

open FileSystem RegistryTree.Action

/-- The faults of a YAML text that no command expects. -/
def unexpectedFaults : List Yaml.Fault :=
  [.wideCharacterNumber, .heavyGroup, .noDigits, .notTimestamp, .timestampMapping]

/-- Whether a check does not expect a fault. -/
def EscapesCheck (fault : Yaml.Fault) : Prop :=
  fault = .malformed ∨ (∃ text, fault = .notTruthValue text) ∨ fault ∈ unexpectedFaults

/-- What is wrong when a check cannot read a manifest. -/
def CheckFailure (e : Failure) : Prop :=
  e.failureClass = .input ∨ e.failureClass = .untold ∨ ∃ fault, e = .yaml fault ∧ EscapesCheck fault

/-- What is wrong when a build cannot make a package of its metadata. -/
def BuildFailure (e : Failure) : Prop :=
  e.failureClass = .input ∨ e.failureClass = .untold ∨ e.failureClass = .lookup ∨
    ∃ fault ∈ unexpectedFaults, e = .yaml fault

theorem checkFailure_of_input {e : Failure} (h : e.failureClass = .input) : CheckFailure e := .inl h

theorem buildFailure_of_input {e : Failure} (h : e.failureClass = .input) : BuildFailure e := .inl h

theorem buildFailure_of_refusal {e : Failure} (h : e.IsRefusal) : BuildFailure e := by
  cases e with
  | catalog | field => exact .inl rfl
  | _ => cases h

theorem checkFailure_yaml (fault : Yaml.Fault) : CheckFailure (.yaml fault) := by
  unfold CheckFailure EscapesCheck unexpectedFaults
  cases fault <;> simp [Failure.failureClass]

/-- A build does not expect a fault but for those that no command expects, unless the text is not
well formed. -/
theorem buildFailure_yaml {fault : Yaml.Fault} (h : fault ≠ .malformed) :
    BuildFailure (.yaml fault) := by
  unfold BuildFailure unexpectedFaults
  cases fault <;> simp [Failure.failureClass] at h ⊢

/-- The faults that escape a check are of no class that it expects. -/
theorem failureClass_of_escapesCheck {fault : Yaml.Fault} (h : EscapesCheck fault) :
    (Failure.yaml fault).failureClass ≠ .input ∧ (Failure.yaml fault).failureClass ≠ .untold := by
  unfold EscapesCheck unexpectedFaults at h
  rcases h with rfl | ⟨text, rfl⟩ | h
  · simp [Failure.failureClass]
  · simp [Failure.failureClass]
  · cases fault <;> simp [Failure.failureClass] at h ⊢

theorem failureClass_of_mem {fault : Yaml.Fault} (h : fault ∈ unexpectedFaults) :
    (Failure.yaml fault).failureClass = .unexpected := by
  unfold unexpectedFaults at h
  cases fault <;> simp [Failure.failureClass] at h ⊢

/-! ## Reading a manifest -/

theorem readContent_errorsIn {kind : Failure → Prop} (h : ∀ e, e.failureClass = .input → kind e)
    (files : FileSystem) (p : Path) : ErrorsIn kind (readContent files p) := by
  unfold readContent
  split
  next => exact .of_error (h _ rfl)
  next => exact .mapError fun e _ => h _ rfl

theorem readDocument_errorsIn (files : FileSystem) (p : Path) :
    ErrorsIn CheckFailure (readDocument files p) :=
  .bind (readContent_errorsIn (fun _ => checkFailure_of_input) files p) fun _ =>
    .mapError fun fault _ => checkFailure_yaml fault

theorem only_errorsIn (p : Path) (names : List String) (suffix : String) :
    ErrorsIn CheckFailure (Manifest.only p names suffix) := by
  unfold Manifest.only
  split
  next => exact .of_ok _
  next => exact .of_error (.inl rfl)

theorem namesIn_errorsIn (files : FileSystem) (p : Path) :
    ErrorsIn CheckFailure (Manifest.namesIn files p) := .mapError fun _ _ => .inl rfl

theorem readBundle_errorsIn (files : FileSystem) (p : Path) :
    ErrorsIn CheckFailure (Manifest.readBundle files p) := by
  refine .bind (namesIn_errorsIn files p) fun names => .bind (only_errorsIn p names _) fun file => ?_
  refine .bind (readDocument_errorsIn files _) fun document => ?_
  refine .bind (.mapError fun _ _ => .inl rfl) fun release => .bind (.mapM (fun name => ?_) _) fun _ =>
    .of_ok _
  exact .bind (readDocument_errorsIn files _) fun _ => .mapError fun _ _ => .inl rfl

theorem bundleNames_errorsIn (files : FileSystem) (p : Path) (names : List String) :
    ErrorsIn CheckFailure (Manifest.bundleNames files p names) :=
  .bind (.filterM (fun _ => .mapError fun _ _ => .inl rfl) names) fun _ =>
    .mapError fun _ _ => .inl rfl

/-- A check cannot read a manifest for what it expects, or for one of the faults that it does not
expect. -/
theorem read_errorsIn (files : FileSystem) (p : Path) :
    ErrorsIn CheckFailure (Manifest.read files p) := by
  unfold Manifest.read
  split
  next => exact .of_error (.inl rfl)
  next =>
    refine .bind (.mapError fun _ _ => .inl rfl) fun isDirectory => ?_
    cases isDirectory with
    | false => exact .of_error (.inl rfl)
    | true =>
      refine .bind (namesIn_errorsIn files p) fun names => ?_
      refine .bind (only_errorsIn p names _) fun file => ?_
      refine .bind (readDocument_errorsIn files _) fun document => ?_
      refine .bind (bundleNames_errorsIn files p names) fun found => ?_
      exact .bind (.mapM (fun _ => readBundle_errorsIn files _) _) fun _ =>
        .mapError fun _ _ => .inl rfl

/-! ## Reading metadata -/

section

open Catalog

theorem readSection_errorsIn (place text : String) :
    ErrorsIn BuildFailure (readSection place text) := by
  refine .mapError fun fault _ => ?_
  dsimp only
  split
  next => exact .inl rfl
  next hne => exact buildFailure_yaml hne

theorem sectionOf_errorsIn (place : String) (data : Entries) (key : String) :
    ErrorsIn BuildFailure (sectionOf place data key) := by
  unfold sectionOf
  split
  next => exact .of_ok _
  next =>
    refine .bind (readSection_errorsIn _ _) fun _ => ?_
    exact (sectionItems_errorsIn _ _).mono fun _ => buildFailure_of_refusal
  next => exact (sectionItems_errorsIn _ _).mono fun _ => buildFailure_of_refusal

theorem ofValue_errorsIn (place : String) (data : Value) :
    ErrorsIn BuildFailure (ofValue place data) := by
  unfold ofValue
  split
  next =>
    refine .bind (sectionOf_errorsIn _ _ _) fun _ => .bind (sectionOf_errorsIn _ _ _) fun _ => ?_
    refine .bind (sectionOf_errorsIn _ _ _) fun _ => .bind (.mapError fun _ _ => .inl rfl) fun _ => ?_
    refine .bind (.mapError fun _ _ => .inl rfl) fun _ => ?_
    refine .bind ?_ fun _ => .of_ok _
    exact (requireDistinct_errorsIn _ _ _).mono fun _ => buildFailure_of_refusal
  next => exact .of_error (.inl rfl)

theorem readData_errorsIn (files : FileSystem) (p : Path) :
    ErrorsIn BuildFailure (readData files p) := by
  refine .mapError fun e he => ?_
  dsimp only
  split
  next => exact .inl rfl
  next hne =>
    rw [readDocument] at he
    cases hc : readContent files p with
    | error e' =>
      rw [hc] at he
      cases he
      exact readContent_errorsIn (fun _ => buildFailure_of_input) files p e hc
    | ok content =>
      rw [hc] at he
      cases hy : Yaml.readOctets content with
      | ok v =>
        simp only [bind, Except.bind, hy, mapError_ok] at he
        cases he
      | error fault =>
        simp only [bind, Except.bind, hy, mapError_error] at he
        cases he
        exact buildFailure_yaml fun heq => hne (by rw [heq])

/-- A build cannot make a package of its metadata for what it expects, or for one of the faults that
no command expects. -/
theorem readPackage_failsIn (p : Path) (id : String) : FailsIn BuildFailure (readPackage p id) := by
  unfold readPackage readPackages
  refine .bind (.bind (.of_look fun files => readData_errorsIn files p) fun data => ?_)
    fun packages => ?_
  · unfold load
    refine .bind (.of_ofExcept (ofValue_errorsIn _ _)) fun c => ?_
    rcases hall : c.assembleAll [] c.descriptors with ⟨made, failed⟩
    refine .bind (.forM (fun p => .of_note _ _ _) _) fun _ => ?_
    cases failed with
    | none => exact .of_pure _
    | some e => exact .of_throw (buildFailure_of_refusal (assembleAll_failure hall))
  · split
    next => exact .of_pure _
    next => exact .of_throw (.inr (.inr (.inl rfl)))

end

/-! ## Writing and removing -/

section

open Manifest

variable {p : Package} {registry : Path} {w : Workspace}

/-- What is removed is refused only by an error that is told. -/
theorem deleteAt_failsIn {root : Path} (hnull : root.hasNull = false) (p : Package) :
    FailsIn (fun e => ∃ error, e = .manifest error) (deleteAt p root) := by
  refine .bind (fun w => ?_) fun _ => .bind (fun w => .of_ok _) fun files => ?_
  · rw [requireUsable_run, hnull]
    exact .of_ok ()
  · refine .bind (fun w => .of_ok ()) fun _ => ?_
    split
    next => exact .of_note _ _ _
    next =>
      split
      next => exact .of_pure ()
      next => exact .of_pure ()
      next => exact .of_throw ⟨_, rfl⟩

/-- The cleaning up behind an error ends well. -/
theorem cleanUp_eq_ok {m : Manifest} (h : ∀ root, m.root = some root → root.hasNull = false)
    (w : Workspace) : (cleanUp m w).1 = .ok () := by
  -- A removal fails as a manifest does and in no other way, which is what the clean-up catches.
  have hkind : FailsIn (fun e => ∃ error, e = .manifest error) m.delete := by
    unfold delete
    split
    next => exact .of_pure ()
    next root hroot => exact deleteAt_failsIn (h root hroot) m.package
  rw [cleanUp, bind_state, bind_state]
  generalize (tell (.note .info buildSource ("removing partial manifest for " ++ m.package.id)) w).2 =
    started
  have herror := hkind started
  rcases hd : m.delete started with ⟨e | u, left⟩
  · rw [hd] at herror
    obtain ⟨error, rfl⟩ := herror e rfl
    have hrun : m.delete.run started = (.error (.manifest error), left) := hd
    rw [hrun]
    rfl
  · have hrun : m.delete.run started = (.ok u, left) := hd
    rw [hrun]
    rfl

/-- The directory that a manifest remembers can be handed to the system when its registry can. -/
theorem no_null_of_create (hnull : registry.hasNull = false) {root : Path}
    (h : ((Manifest.new p registry).create w).1.1.root = some root) : root.hasNull = false := by
  rw [create_root] at h
  simp only [Manifest.new, Layout.packageRoot_eq] at h
  cases hid : Layout.isComponent p.id with
  | false => simp [hid] at h
  | true =>
    simp only [hid, if_true, Option.some.injEq] at h
    rw [← h]
    exact Path.hasNull_child hnull hid

/-- A package cannot be written for an error of writing, or for a number that is too wide. -/
theorem create_failure (ht : w.files.IsRegular) (hnull : registry.hasNull = false) {e : Failure}
    (h : ((Manifest.new p registry).create w).1.2 = .error e) :
    (∃ error, e = .manifest error) ∨ e = .wideInteger := by
  by_contra hnot
  rw [not_or] at hnot
  have hc := created_of_regular p registry ht
  rw [h] at hc
  rcases hc.of_unexpected ht fun error he => hnot.1 ⟨error, he⟩ with ⟨hwide, -⟩ | ⟨-, -, hroot⟩
  · exact hnot.2 hwide
  · cases hid : Layout.isComponent p.id with
    | false =>
      -- an identifier that names no entry is refused before its path is used
      have hrefused : ((Manifest.new p registry).create w).1.2 =
          .error (failure (.unsafeName ⟨"package id", p.id⟩)) := by
        unfold create
        simp only [Manifest.new, Layout.packageRoot_eq, hid]
        rfl
      rw [hrefused] at h
      cases h
      exact hnot.1 ⟨_, rfl⟩
    | true =>
      rw [Path.hasNull_child hnull hid] at hroot
      cases hroot

/-- How the building of a package ends. -/
theorem buildPackage_outcome (hnull : registry.hasNull = false) (keep : Bool) :
    (buildPackage p registry keep w).1 =
      match ((Manifest.new p registry).create w).1.2 with
      | .ok () => .finished 0 [(registry.join p.id).toText]
      | .error (.manifest _) => .finished 1 []
      | .error e => .escaped e := by
  have hroot : ∀ root, ((Manifest.new p registry).create w).1.1.root = some root →
      root.hasNull = false := fun root => no_null_of_create hnull
  rw [buildPackage, bind_state]
  generalize (Manifest.new p registry).create w = made at hroot ⊢
  obtain ⟨⟨m, result⟩, w'⟩ := made
  cases result with
  | ok u => rfl
  | error e =>
    cases e with
    | manifest error =>
      dsimp only
      rw [bind_state]
      cases keep with
      | true => rfl
      | false =>
        have hclean := cleanUp_eq_ok hroot (tell (.complaint error.toText) w').2
        simp only [Bool.false_eq_true, if_false]
        rw [bind_state, hclean]
        rfl
    | _ => rfl

end

/-! ## How a command ends -/

/-- Whether a command comes upon something that it does not expect. -/
inductive Slips (files : FileSystem) : Request → Prop
  | check {path : String} (fault : Yaml.Fault) : EscapesCheck fault →
      Manifest.read files (.ofText path) = .error (.yaml fault) → Slips files (.check path)
  | metadata {metadata package registry : String} {keep : Bool} (fault : Yaml.Fault) :
      fault ∈ unexpectedFaults →
      (Catalog.readPackage (.ofText metadata) package ⟨files, []⟩).1 = .error (.yaml fault) →
      Slips files (.build metadata package registry keep)
  | wideInteger {metadata package registry : String} {keep : Bool} (p : Package) (w : Workspace) :
      Catalog.readPackage (.ofText metadata) package ⟨files, []⟩ = (.ok p, w) →
      ((Manifest.new p (.ofText registry)).create w).1.2 = .error .wideInteger →
      Slips files (.build metadata package registry keep)

/-- How a command ends that comes upon nothing that it does not expect: what cannot be read is
refused as a parameter, a package that fails its check or cannot be written is told by the status
one. -/
inductive Reported (files : FileSystem) : Request → Outcome → Prop
  | help : Reported files .help (.finished 0 helpLines)
  | version : Reported files .version (.finished 0 [programVersion])
  | unreadManifest {path : String} {e : Failure} :
      Manifest.read files (.ofText path) = .error e →
      Reported files (.check path) (.badParameter "--path" e.message)
  | unsound {path : String} {p : Package} {fault : ManifestFault} :
      Manifest.read files (.ofText path) = .ok p → checkPackage p = .error fault →
      Reported files (.check path) (.finished 1 [])
  | sound {path : String} {p : Package} :
      Manifest.read files (.ofText path) = .ok p → checkPackage p = .ok () →
      Reported files (.check path) (.finished 0 ["OK"])
  | unreadMetadata {metadata package registry : String} {keep : Bool} {e : Failure} :
      (Catalog.readPackage (.ofText metadata) package ⟨files, []⟩).1 = .error e →
      Reported files (.build metadata package registry keep)
        (.badParameter (if e.failureClass = .lookup then "--package" else "METADATA_PATH") e.message)
  | unwritten {metadata package registry : String} {keep : Bool} {p : Package} {w : Workspace}
      {e : Failure} : Catalog.readPackage (.ofText metadata) package ⟨files, []⟩ = (.ok p, w) →
      ((Manifest.new p (.ofText registry)).create w).1.2 = .error e →
      Reported files (.build metadata package registry keep) (.finished 1 [])
  | written {metadata package registry : String} {keep : Bool} {p : Package} {w : Workspace} :
      Catalog.readPackage (.ofText metadata) package ⟨files, []⟩ = (.ok p, w) →
      ((Manifest.new p (.ofText registry)).create w).1.2 = .ok () →
      Reported files (.build metadata package registry keep)
        (.finished 0 [((Path.ofText registry).join p.id).toText])

/-- A command that reports how it ended did not end with a failure that escaped. -/
theorem Reported.ne_escaped {files : FileSystem} {asked : Request} {outcome : Outcome}
    (h : Reported files asked outcome) (e : Failure) : outcome ≠ .escaped e := by
  intro heq
  subst heq
  cases h

/-- A check that slips ends with a failure that escapes; any other ends as it is to, when that is
told. -/
theorem check_ends (path : String) (files : FileSystem) :
    (Slips files (.check path) → ∃ e, (check path ⟨files, []⟩).1 = .escaped e) ∧
      (¬ Slips files (.check path) → ¬ Untold files (.check path) →
        Reported files (.check path) (check path ⟨files, []⟩).1) := by
  rw [check_run]
  cases hread : Manifest.read files (.ofText path) with
  | error e =>
    simp only [examine_of_error hread]
    constructor
    · intro hslips
      cases hslips with
      | check fault hfault heq =>
        rw [hread] at heq
        cases heq
        obtain ⟨hinput, huntold⟩ := failureClass_of_escapesCheck hfault
        cases hclass : (Failure.yaml fault).failureClass with
        | input => exact absurd hclass hinput
        | untold => exact absurd hclass huntold
        | _ => exact ⟨_, rfl⟩
    · intro hnot htold
      -- what is neither of the class of the input nor untold is a fault that escapes
      rcases read_errorsIn files _ e hread with hinput | huntold | ⟨fault, rfl, hfault⟩
      · rw [hinput]
        exact .unreadManifest hread
      · obtain ⟨fault, hfault, rfl⟩ := failureClass_eq_untold_iff.1 huntold
        exact absurd (.check fault hfault hread) htold
      · exact absurd (.check fault hfault hread) hnot
  | ok p =>
    simp only [examine_of_ok hread]
    refine ⟨fun hslips => ?_, fun _ _ => ?_⟩
    · cases hslips with
      | check fault hfault heq =>
        rw [hread] at heq
        cases heq
    · cases hcheck : checkPackage p with
      | error fault => exact .unsound hread hcheck
      | ok u => exact .sound hread hcheck

/-- A build that cannot read its metadata ends with one of the faults that no command expects, or
refuses them, when its end is told. -/
theorem build_ends_unread {metadata package : String} (registry : String) (keep : Bool)
    {files : FileSystem} {e : Failure} {w : Workspace}
    (hread : Catalog.readPackage (.ofText metadata) package ⟨files, []⟩ = (.error e, w)) :
    (Slips files (.build metadata package registry keep) →
        ∃ e, (build metadata package registry keep ⟨files, []⟩).1 = .escaped e) ∧
      (¬ Slips files (.build metadata package registry keep) →
        ¬ Untold files (.build metadata package registry keep) →
        Reported files (.build metadata package registry keep)
          (build metadata package registry keep ⟨files, []⟩).1) := by
  have hresult : (Catalog.readPackage (.ofText metadata) package ⟨files, []⟩).1 = .error e := by
    rw [hread]
  rw [build_outcome, hread]
  dsimp only
  constructor
  · intro hslips
    cases hslips with
    | metadata fault hfault heq =>
      rw [hresult] at heq
      cases heq
      rw [failureClass_of_mem hfault]
      exact ⟨_, rfl⟩
    | wideInteger p w' heq =>
      rw [hread] at heq
      cases heq
  · intro hnot htold
    have hreported : Reported files (.build metadata package registry keep) _ :=
      .unreadMetadata hresult
    rcases readPackage_failsIn (.ofText metadata) package ⟨files, []⟩ e hresult with
      hinput | huntold | hlookup | ⟨fault, hfault, rfl⟩
    · rw [hinput] at hreported ⊢
      exact hreported
    · obtain ⟨fault, hfault, rfl⟩ := failureClass_eq_untold_iff.1 huntold
      exact absurd (.build fault hfault hresult) htold
    · rw [hlookup] at hreported ⊢
      exact hreported
    · exact absurd (.metadata fault hfault hresult) hnot

/-- A build that has a package to write ends with a number that is too wide, or tells whether the
package was written. -/
theorem build_ends_read {metadata package registry : String} (keep : Bool) {files : FileSystem}
    {p : Package} {w : Workspace} (ht : files.IsRegular) (hnull : '\x00' ∉ registry.toList)
    (hread : Catalog.readPackage (.ofText metadata) package ⟨files, []⟩ = (.ok p, w)) :
    (Slips files (.build metadata package registry keep) →
        ∃ e, (build metadata package registry keep ⟨files, []⟩).1 = .escaped e) ∧
      (¬ Slips files (.build metadata package registry keep) →
        ¬ Untold files (.build metadata package registry keep) →
        Reported files (.build metadata package registry keep)
          (build metadata package registry keep ⟨files, []⟩).1) := by
  have hregistry : (Path.ofText registry).hasNull = false := by
    rw [Path.hasNull, List.any_eq_false]
    intro part hpart
    simpa using fun hmem => hnull (Path.mem_of_mem_parts hpart hmem)
  have hfiles : w.files = files := by
    have hleaves := Catalog.readPackage_leavesFiles (.ofText metadata) package ⟨files, []⟩
    rwa [hread] at hleaves
  rw [build_outcome, hread]
  dsimp only
  rw [buildPackage_outcome hregistry]
  have hslips : Slips files (.build metadata package registry keep) →
      ((Manifest.new p (.ofText registry)).create w).1.2 = .error .wideInteger := by
    intro h
    cases h with
    | metadata fault hfault heq =>
      rw [hread] at heq
      cases heq
    | wideInteger p' w' heq hwide =>
      rw [hread] at heq
      cases heq
      exact hwide
  cases hcreate : ((Manifest.new p (.ofText registry)).create w).1.2 with
  | ok u =>
    refine ⟨fun h => ?_, fun _ _ => .written hread hcreate⟩
    rw [hslips h] at hcreate
    cases hcreate
  | error e =>
    rcases create_failure (by rwa [hfiles]) hregistry hcreate with ⟨error, rfl⟩ | rfl
    · refine ⟨fun h => ?_, fun _ _ => .unwritten hread hcreate⟩
      rw [hslips h] at hcreate
      cases hcreate
    · exact ⟨fun _ => ⟨_, rfl⟩, fun hnot _ => absurd (.wideInteger p w hread hcreate) hnot⟩

/-- A failure escapes a command exactly when it comes upon something that it does not expect: for a
check a text that is not well formed, a truth value that is none, or one of five faults that no
command expects; for a build one of the five, or a number that is too wide to be written. It is not
told how a command ends exactly when it comes upon an escape for half of a surrogate pair or a node
that is named inside itself. Every other command tells how it ended: it refuses what it cannot read
as a parameter, and tells by the status whether a package could be written or could have been. -/
theorem escaped_iff {environment : Environment} {words : List String} {threshold : Nat}
    {asked : Request} {files : FileSystem} (h : request environment words = .ok (threshold, asked))
    (ht : files.IsRegular)
    (hnull : ∀ metadata package registry keep,
      asked = .build metadata package registry keep → '\x00' ∉ registry.toList) :
    ((∃ e, (run environment words files).1.outcome = .escaped e) ↔ Slips files asked) ∧
      ((∃ e, (run environment words files).1.outcome = .untold e) ↔ Untold files asked) ∧
      (¬ Slips files asked → ¬ Untold files asked →
        Reported files asked (run environment words files).1.outcome) := by
  obtain ⟨houtcome, -⟩ := run_perform files h
  rw [houtcome]
  have huntold := perform_untold_iff asked files
  have hends : (Slips files asked → ∃ e, (perform asked ⟨files, []⟩).1 = .escaped e) ∧
      (¬ Slips files asked → ¬ Untold files asked →
        Reported files asked (perform asked ⟨files, []⟩).1) := by
    cases asked with
    | help => exact ⟨nofun, fun _ _ => .help⟩
    | version => exact ⟨nofun, fun _ _ => .version⟩
    | check path => exact check_ends path files
    | build metadata package registry keep =>
      rcases hread : Catalog.readPackage (.ofText metadata) package ⟨files, []⟩ with ⟨e | p, w⟩
      · exact build_ends_unread registry keep hread
      · exact build_ends_read keep ht (hnull _ _ _ _ rfl) hread
  refine ⟨⟨fun hescaped => ?_, hends.1⟩, huntold, hends.2⟩
  by_contra hnot
  obtain ⟨e, he⟩ := hescaped
  -- an end that is not told is not one with a failure that escapes
  by_cases hmet : Untold files asked
  · obtain ⟨e', he'⟩ := huntold.2 hmet
    rw [he] at he'
    cases he'
  · exact (hends.2 hnot hmet).ne_escaped e he

/-- A file whose text is not well formed, as metadata and as the descriptor of a manifest. -/
def malformedTree : FileSystem :=
  ⟨[(["demo"], .directory 0o755),
    (["demo", "demo.package.yaml"], .file 0o644 (Text.encodeUtf8 "a: b: c".toList))], []⟩

/-- The failure that a result is. -/
def failureOf {α : Type} : Except Failure α → Option Failure
  | .error e => some e
  | .ok _ => none

theorem failureOf_eq_some_iff {α : Type} {x : Except Failure α} {e : Failure} :
    failureOf x = some e ↔ x = .error e := by
  cases x <;> simp [failureOf]

/-- A text that is not well formed escapes a check, and is refused by a build. -/
theorem escaped_iff_malformed :
    (∃ e, (run [] ["check", "--path", "demo"] malformedTree).1.outcome = .escaped e) ∧
      ∃ words, (run [] ["build", "demo/demo.package.yaml", "--package", "demo"]
        malformedTree).1.outcome = .badParameter "METADATA_PATH" words := by
  have htree : malformedTree.IsRegular := ⟨by decide, by decide, by decide, by decide, by decide⟩
  have hbuild : request [] ["build", "demo/demo.package.yaml", "--package", "demo"] =
      .ok (30, .build "demo/demo.package.yaml" "demo" "." false) := rfl
  have hread : Manifest.read malformedTree (.ofText "demo") = .error (.yaml .malformed) :=
    failureOf_eq_some_iff.1 (by decide +kernel)
  have hmetadata : (Catalog.readPackage (.ofText "demo/demo.package.yaml") "demo"
      ⟨malformedTree, []⟩).1 = .error (.catalog (.malformedFile "demo.package.yaml")) :=
    failureOf_eq_some_iff.1 (by decide +kernel)
  constructor
  · obtain ⟨hescaped, -⟩ := escaped_iff (request_check "demo") htree fun _ _ _ _ heq => by cases heq
    exact hescaped.2 (.check .malformed (Or.inl rfl) hread)
  · obtain ⟨-, -, hreported⟩ := escaped_iff hbuild htree fun _ _ _ _ heq => by
      cases heq
      decide
    have hnot : ¬ Slips malformedTree (.build "demo/demo.package.yaml" "demo" "." false) := by
      intro h
      cases h with
      | metadata fault hfault heq =>
        rw [hmetadata] at heq
        cases heq
      | wideInteger p w heq =>
        rw [heq] at hmetadata
        cases hmetadata
    have htold : ¬ Untold malformedTree (.build "demo/demo.package.yaml" "demo" "." false) := by
      rintro (_ | ⟨fault, -, heq⟩)
      rw [hmetadata] at heq
      cases heq
    have hend := hreported hnot htold
    generalize (run [] ["build", "demo/demo.package.yaml", "--package", "demo"]
      malformedTree).1.outcome = outcome at hend ⊢
    cases hend with
    | unreadMetadata heq =>
      rw [hmetadata] at heq
      cases heq
      exact ⟨_, rfl⟩
    | unwritten heq =>
      rw [heq] at hmetadata
      cases hmetadata
    | written heq =>
      rw [heq] at hmetadata
      cases hmetadata

end RegistryTree.CommandLine
