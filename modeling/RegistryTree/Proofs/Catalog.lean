import RegistryTree.Catalog
import RegistryTree.Proofs.Workspace

/-!
# Reading metadata

Metadata are read without a change to any file; only the journal grows. An action that leaves the
files alone is known by what it is made of.

> `readPackage_leavesFiles`: making a package from a file of metadata changes no file.
-/

namespace RegistryTree

open RegistryTree.Action

/-- Whether an action leaves the files as they are. -/
def LeavesFiles {α : Type} (x : Action α) : Prop := ∀ w, (x w).2.files = w.files

namespace LeavesFiles

variable {α β : Type}

theorem of_pure (a : α) : LeavesFiles (pure a : Action α) := fun _ => rfl

theorem of_throw (e : Failure) : LeavesFiles (throw e : Action α) := fun _ => rfl

theorem of_note (severity : Severity) (source words : String) :
    LeavesFiles (note severity source words) := fun _ => rfl

theorem of_ofExcept {ε : Type} (failure : ε → Failure) (x : Except ε α) :
    LeavesFiles (ofExcept failure x) := by
  intro w
  rw [ofExcept_run]

theorem bind {x : Action α} {f : α → Action β} (hx : LeavesFiles x) (hf : ∀ a, LeavesFiles (f a)) :
    LeavesFiles (x >>= f) := by
  intro w
  rw [bind_run]
  have hw := hx w
  rcases hr : x w with ⟨e | a, w'⟩
  · rw [hr] at hw
    exact hw
  · rw [hr] at hw
    exact (hf a w').trans hw

theorem of_look (f : FileSystem → Except Failure α) : LeavesFiles (look f) := by
  refine bind (fun _ => rfl) fun files => ?_
  exact of_ofExcept _ _

theorem forM {f : α → Action Unit} (hf : ∀ a, LeavesFiles (f a)) (xs : List α) :
    LeavesFiles (xs.forM f) := by
  induction xs with
  | nil => exact of_pure ()
  | cons x rest ih => exact bind (hf x) fun _ => ih

end LeavesFiles

namespace Catalog

theorem load_leavesFiles (place : String) (data : Value) : LeavesFiles (load place data) := by
  unfold load
  refine .bind (.of_ofExcept _ _) fun c => ?_
  refine .bind (.forM (fun p => .of_note _ _ _) _) fun _ => ?_
  split
  next => exact .of_pure _
  next => exact .of_throw _

/-- Making a package from a file of metadata changes no file. -/
theorem readPackage_leavesFiles (p : Path) (id : String) : LeavesFiles (readPackage p id) := by
  unfold readPackage readPackages
  refine .bind (.bind (.of_look _) fun data => load_leavesFiles _ data) fun packages => ?_
  split
  next => exact .of_pure _
  next => exact .of_throw _

/-- The package that is made is the one that was asked for. -/
theorem readPackage_id {p : Path} {id : String} {package : Package} {w w' : Workspace}
    (h : readPackage p id w = (.ok package, w')) : package.id = id := by
  rw [readPackage, bind_run] at h
  rcases hr : readPackages p w with ⟨e | packages, w₁⟩
  · rw [hr] at h
    cases h
  · rw [hr] at h
    cases hf : packages.find? (·.id = id) with
    | none =>
      simp only [hf] at h
      cases h
    | some found =>
      simp only [hf] at h
      cases h
      simpa using List.find?_some hf

end Catalog

end RegistryTree
