import RegistryTree.CommandLine.Run
import RegistryTree.Proofs.Except

/-!
# How a command line is run

A command line is understood first; then what it asks for is done on the files that there are. How
it ends is told, unless a text that it reads has one of two faults: an escape for half of a surrogate
pair, or a node that is named inside itself. Such a text may well be in order, but stands for no
value here.

> `run_perform`: what a command line comes to when it is understood.
> `request_check`: how a check is asked for, whatever the path looks like.
> `check_run`, `build_outcome`: how a check ends, and what it leaves; and how a build ends.
> `perform_untold_iff`: when it is not told how a command ends.
-/

namespace RegistryTree.CommandLine

/-- The status that a command ends with. An end that is not told counts as a failure. -/
def Outcome.status : Outcome → Nat
  | finished status _ => status
  | badParameter .. => 2
  | usage _ => 2
  | escaped _ | untold _ => 1

theorem bind_state {σ α β : Type} (x : StateM σ α) (f : α → StateM σ β) (s : σ) :
    (x >>= f : StateM σ β) s = f (x s).1 (x s).2 := rfl

/-- What a command line comes to when it is understood. -/
theorem run_perform {environment : Environment} {words : List String} (files : FileSystem)
    {threshold : Nat} {asked : Request} (h : request environment words = .ok (threshold, asked)) :
    (run environment words files).1.outcome = (perform asked ⟨files, []⟩).1 ∧
      (run environment words files).2 = (perform asked ⟨files, []⟩).2.files := by
  unfold run
  rw [h]
  exact ⟨rfl, rfl⟩

/-- How a check is asked for. -/
theorem request_check (path : String) :
    request [] ["check", "--path", path] = .ok (30, .check path) := by
  have hgeneral : Arguments.parse generalForms false ["check", "--path", path] =
      .ok ⟨[], ["check", "--path", path]⟩ := rfl
  have hpath : Arguments.parse checkForms true ["--path", path] = .ok ⟨[("--path", path)], []⟩ :=
    Arguments.parse_value (by decide) (by decide) (by decide) (by decide)
  have hcommand : Command.check.request [] ["--path", path] = .ok (.check path) := by
    rw [Command.request, hpath]
    rfl
  have hname : Command.ofName? "check" = some .check := by decide
  have hlevel : threshold? (valueOf [] ⟨[], ["check", "--path", path]⟩ "--log-level"
      "OPMANIFEST_LOG_LEVEL" "WARNING") = some 30 := by
    show threshold? "WARNING" = some 30
    decide +kernel
  simp only [request, hgeneral, mapError_ok, bind, Except.bind, Arguments.has, List.any_nil,
    Bool.false_eq_true, if_false, hname, hlevel, hcommand]
  rfl

/-- How a check ends, and what it leaves: nothing has changed but the journal, and this only when
the manifest was read and is not as it should be. -/
theorem check_run (path : String) (w : Workspace) :
    check path w =
      match examine w.files (.ofText path) with
      | .ok (.ok ()) => (.finished 0 ["OK"], w)
      | .ok (.error fault) =>
        (.finished 1 [],
          { w with journal := w.journal ++ [.complaint (ManifestError.ofFault fault).toText] })
      | .error e =>
        (match e.failureClass with
          | .input => .badParameter "--path" e.message
          | .untold => .untold e
          | _ => .escaped e, w) := by
  unfold check
  simp only [bind, StateT.bind, get, getThe, MonadStateOf.get, StateT.get, pure]
  rcases examine w.files (.ofText path) with e | ⟨fault | u⟩
  · dsimp only
    cases e.failureClass <;> rfl
  · rfl
  · rfl

theorem examine_of_error {files : FileSystem} {p : Path} {e : Failure}
    (h : Manifest.read files p = .error e) : examine files p = .error e := by
  rw [examine, h]
  rfl

theorem examine_of_ok {files : FileSystem} {p : Path} {package : Package}
    (h : Manifest.read files p = .ok package) : examine files p = .ok (checkPackage package) := by
  rw [examine, h]
  rfl

/-- How a build ends, by the package that is read. -/
theorem build_outcome (metadata package registry : String) (keep : Bool) (w : Workspace) :
    (build metadata package registry keep w).1 =
      match Catalog.readPackage (.ofText metadata) package w with
      | (.ok p, w') => (buildPackage p (.ofText registry) keep w').1
      | (.error e, _) =>
        match e.failureClass with
        | .lookup => .badParameter "--package" e.message
        | .input => .badParameter "METADATA_PATH" e.message
        | .untold => .untold e
        | _ => .escaped e := by
  rw [build, bind_state]
  rcases hr : Catalog.readPackage (.ofText metadata) package w with ⟨e | p, w'⟩
  · have hrun : (Catalog.readPackage (.ofText metadata) package).run w = (.error e, w') := hr
    rw [hrun]
    dsimp only
    cases e.failureClass <;> rfl
  · have hrun : (Catalog.readPackage (.ofText metadata) package).run w = (.ok p, w') := hr
    rw [hrun]

/-! ## What is not told -/

/-- The faults of a text that stands for no value here, although it may be in order. -/
def untoldFaults : List Yaml.Fault := [.surrogate, .selfReference]

theorem failureClass_eq_untold_iff {e : Failure} :
    e.failureClass = .untold ↔ ∃ fault ∈ untoldFaults, e = .yaml fault := by
  unfold untoldFaults
  constructor
  · intro h
    cases e with
    | yaml fault => exact ⟨fault, by cases fault <;> simp [Failure.failureClass] at h ⊢, rfl⟩
    | _ => cases h
  · rintro ⟨fault, hfault, rfl⟩
    cases fault <;> simp [Failure.failureClass] at hfault ⊢

/-- Whether a command comes upon a text that stands for no value here. -/
inductive Untold (files : FileSystem) : Request → Prop
  | check {path : String} (fault : Yaml.Fault) : fault ∈ untoldFaults →
      Manifest.read files (.ofText path) = .error (.yaml fault) → Untold files (.check path)
  | build {metadata package registry : String} {keep : Bool} (fault : Yaml.Fault) :
      fault ∈ untoldFaults →
      (Catalog.readPackage (.ofText metadata) package ⟨files, []⟩).1 = .error (.yaml fault) →
      Untold files (.build metadata package registry keep)

theorem check_untold_iff (path : String) (files : FileSystem) :
    (∃ e, (check path ⟨files, []⟩).1 = .untold e) ↔
      ∃ e, Manifest.read files (.ofText path) = .error e ∧ e.failureClass = .untold := by
  rw [check_run]
  cases hread : Manifest.read files (.ofText path) with
  | error e =>
    simp only [examine_of_error hread]
    cases hclass : e.failureClass <;> simp [hclass]
  | ok p =>
    simp only [examine_of_ok hread]
    cases checkPackage p <;> simp

/-- How a build ends is told once there is a package to write. -/
theorem buildPackage_ne_untold (p : Package) (registry : Path) (keep : Bool) (w : Workspace)
    (e : Failure) : (buildPackage p registry keep w).1 ≠ .untold e := by
  rw [buildPackage, bind_state]
  rcases (Manifest.new p registry).create w with ⟨⟨m, failure | u⟩, w'⟩
  · cases failure with
    | manifest error =>
      dsimp only
      rw [bind_state]
      cases keep with
      | true => nofun
      | false =>
        simp only [Bool.false_eq_true, if_false]
        rw [bind_state]
        generalize cleanUp m (tell (.complaint error.toText) w').2 = cleaned
        rcases cleaned with ⟨_ | _, w''⟩ <;> nofun
    | _ => nofun
  · nofun

theorem build_untold_iff (metadata package registry : String) (keep : Bool) (files : FileSystem) :
    (∃ e, (build metadata package registry keep ⟨files, []⟩).1 = .untold e) ↔
      ∃ e, (Catalog.readPackage (.ofText metadata) package ⟨files, []⟩).1 = .error e ∧
        e.failureClass = .untold := by
  rw [build_outcome]
  rcases hread : Catalog.readPackage (.ofText metadata) package ⟨files, []⟩ with ⟨e | p, w⟩
  · dsimp only
    cases hclass : e.failureClass <;> simp [hclass]
  · simp [buildPackage_ne_untold]

/-- It is not told how a command ends exactly when it comes upon a text that stands for no value
here. -/
theorem perform_untold_iff (asked : Request) (files : FileSystem) :
    (∃ e, (perform asked ⟨files, []⟩).1 = .untold e) ↔ Untold files asked := by
  cases asked with
  | help => exact ⟨nofun, nofun⟩
  | version => exact ⟨nofun, nofun⟩
  | check path =>
    rw [perform, check_untold_iff]
    constructor
    · rintro ⟨e, hread, hclass⟩
      obtain ⟨fault, hfault, rfl⟩ := failureClass_eq_untold_iff.1 hclass
      exact .check fault hfault hread
    · rintro (⟨fault, hfault, hread⟩)
      exact ⟨_, hread, failureClass_eq_untold_iff.2 ⟨fault, hfault, rfl⟩⟩
  | build metadata package registry keep =>
    rw [perform, build_untold_iff]
    constructor
    · rintro ⟨e, hread, hclass⟩
      obtain ⟨fault, hfault, rfl⟩ := failureClass_eq_untold_iff.1 hclass
      exact .build fault hfault hread
    · rintro (_ | ⟨fault, hfault, hread⟩)
      exact ⟨_, hread, failureClass_eq_untold_iff.2 ⟨fault, hfault, rfl⟩⟩

end RegistryTree.CommandLine
