import RegistryTree.Manifest
import RegistryTree.Proofs.Lockstep
import RegistryTree.Proofs.Workspace

/-!
# Work does not read the journal

The journal is only added to. What an action results in, and the files that it leaves, depend on the
files that it finds and on nothing else of a workspace: an action keeps step on equal files, so it
does the same on them a second time.

> `Manifest.write_ignoresJournal`: writing a package does the same whatever was done before.
-/

namespace RegistryTree

open RegistryTree.Action

/-- Whether the result of an action and the files that it leaves depend on the files alone. -/
def IgnoresJournal {α : Type} (x : Action α) : Prop :=
  ∀ files journal journal', (x ⟨files, journal⟩).1 = (x ⟨files, journal'⟩).1 ∧
    (x ⟨files, journal⟩).2.files = (x ⟨files, journal'⟩).2.files

namespace IgnoresJournal

variable {α β : Type}

theorem of_pure (a : α) : IgnoresJournal (pure a : Action α) := fun _ _ _ => ⟨rfl, rfl⟩

theorem of_throw (e : Failure) : IgnoresJournal (throw e : Action α) := fun _ _ _ => ⟨rfl, rfl⟩

theorem of_note (severity : Severity) (source words : String) :
    IgnoresJournal (note severity source words) := fun _ _ _ => ⟨rfl, rfl⟩

theorem of_files : IgnoresJournal files := fun _ _ _ => ⟨rfl, rfl⟩

theorem of_setFiles (files : FileSystem) : IgnoresJournal (setFiles files) := fun _ _ _ => ⟨rfl, rfl⟩

theorem of_ofExcept {ε : Type} (failure : ε → Failure) (x : Except ε α) :
    IgnoresJournal (ofExcept failure x) := by
  intro files journal journal'
  rw [ofExcept_run, ofExcept_run]
  exact ⟨rfl, rfl⟩

/-- Not to read the journal is to keep step on equal files. -/
theorem iff_carries_eq {x : Action α} : IgnoresJournal x ↔ Carries (· = ·) x := by
  constructor
  · rintro h ⟨files, journal⟩ ⟨files', journal'⟩ rfl
    obtain ⟨hresult, hleft⟩ := h files journal journal'
    generalize x ⟨files, journal⟩ = run at hresult hleft ⊢
    generalize x ⟨files, journal'⟩ = run' at hresult hleft ⊢
    obtain ⟨result, left⟩ := run
    obtain ⟨result', left'⟩ := run'
    cases hresult
    cases result with
    | error e => exact .error e hleft
    | ok a => exact .ok a hleft
  · intro h files journal journal'
    have hrun := h ⟨files, journal⟩ ⟨files, journal'⟩ rfl
    exact ⟨hrun.result, hrun.left fun _ _ _ => id⟩

theorem bind {x : Action α} {f : α → Action β} (hx : IgnoresJournal x)
    (hf : ∀ a, IgnoresJournal (f a)) : IgnoresJournal (x >>= f) :=
  iff_carries_eq.2 (InStep.bind (iff_carries_eq.1 hx) fun a => iff_carries_eq.1 (hf a))

theorem tryCatch {x : Action α} {handle : Failure → Action α} (hx : IgnoresJournal x)
    (hhandle : ∀ e, IgnoresJournal (handle e)) :
    IgnoresJournal (MonadExcept.tryCatch x handle : Action α) :=
  iff_carries_eq.2 (InStep.tryCatch (iff_carries_eq.1 hx) fun e => iff_carries_eq.1 (hhandle e))

theorem discard {x : Action α} (hx : IgnoresJournal x) :
    IgnoresJournal (Functor.discard x : Action Unit) :=
  iff_carries_eq.2 (iff_carries_eq.1 hx).discard

theorem forM {f : α → Action Unit} (hf : ∀ a, IgnoresJournal (f a)) (xs : List α) :
    IgnoresJournal (xs.forM f) :=
  iff_carries_eq.2 (.forM xs fun a => iff_carries_eq.1 (hf a))

theorem of_change (f : FileSystem → Except SystemError FileSystem) : IgnoresJournal (change f) :=
  bind of_files fun _ => bind (of_ofExcept _ _) fun _ => of_setFiles _

theorem onPath (operation : String) (p : Path) {x : Action α} (hx : IgnoresJournal x) :
    IgnoresJournal (Action.onPath operation p x) := by
  refine tryCatch hx fun e => ?_
  split
  next => exact of_throw _
  next => exact of_throw _

theorem of_requireUsable (p : Path) : IgnoresJournal (requireUsable p) := by
  unfold requireUsable
  split
  next => exact of_throw _
  next => exact of_pure _

end IgnoresJournal

open IgnoresJournal

theorem createDirectory_ignoresJournal (p : Path) : IgnoresJournal (createDirectory p) :=
  bind (of_requireUsable p) fun _ => bind (onPath _ p (of_change _)) fun _ =>
    bind (of_note _ _ _) fun _ => of_pure _

theorem replaceFile_ignoresJournal (p : Path) (content : List UInt8) :
    IgnoresJournal (replaceFile p content) := by
  refine bind of_files fun files => bind (of_ofExcept _ _) fun made => ?_
  refine bind (of_setFiles _) fun _ => bind (of_change _) fun _ => bind (of_change _) fun _ => ?_
  exact tryCatch (of_change _) fun e => bind (of_change _) fun _ => of_throw e

theorem writeDocument_ignoresJournal (v : Value) (p : Path) : IgnoresJournal (writeDocument v p) :=
  bind (of_ofExcept _ _) fun _ => bind (of_requireUsable p) fun _ =>
    bind (onPath _ p (replaceFile_ignoresJournal p _)) fun _ =>
      bind (of_note _ _ _) fun _ => of_pure _

namespace Manifest

theorem writeBundle_ignoresJournal (root : Path) (index : List (ResourceKey × Definition))
    (release : Release) : IgnoresJournal (writeBundle root index release) := by
  have hdirectory : IgnoresJournal (createBundleDirectory root release) := by
    unfold createBundleDirectory
    split
    next => exact of_throw _
    next => exact bind (of_ofExcept _ _) fun _ => createDirectory_ignoresJournal _
  have hdefinition (bundle : Path) (d : Definition) : IgnoresJournal (writeDefinition bundle d) :=
    bind (of_ofExcept _ _) fun _ => discard (writeDocument_ignoresJournal _ _)
  refine bind hdirectory fun bundle => bind (of_ofExcept _ _) fun file => ?_
  refine bind (of_ofExcept _ _) fun owned => bind (forM (hdefinition bundle) owned) fun _ => ?_
  exact discard (writeDocument_ignoresJournal _ _)

/-- Writing a package does the same on equal files. -/
theorem write_ignoresJournal (package : Package) (index : List (ResourceKey × Definition))
    (root : Path) : IgnoresJournal (write package index root) := by
  have hroot : IgnoresJournal (createRoot root) :=
    tryCatch (createDirectory_ignoresJournal root) fun _ => of_throw _
  have hbundle (root : Path) (release : Release) : IgnoresJournal (createBundle root index release) :=
    bind (tryCatch (writeBundle_ignoresJournal root index release) fun _ => of_throw _) fun _ =>
      of_note _ _ _
  refine bind hroot fun root => bind (of_ofExcept _ _) fun file => ?_
  refine bind (discard (writeDocument_ignoresJournal _ _)) fun _ => ?_
  exact bind (forM (hbundle root) _) fun _ => of_note _ _ _

end Manifest

end RegistryTree
