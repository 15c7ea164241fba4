import RegistryTree.Proofs.Workspace

/-!
# How work can fail

What can go wrong in a piece of work is known by what it is made of: it fails as one of its parts
fails, and a part whose errors are taken for others fails as those.

> `ErrorsIn`, `FailsIn`: every error of a result, every failure of an action is of some kind.
-/

namespace RegistryTree

open RegistryTree.Action

/-- Whether the error of a result, if it is one, is of a kind. -/
def ErrorsIn {ε α : Type} (kind : ε → Prop) (x : Except ε α) : Prop := ∀ e, x = .error e → kind e

namespace ErrorsIn

variable {ε ε' α β : Type} {kind : ε → Prop}

theorem of_ok (a : α) : ErrorsIn kind (.ok a) := fun _ h => by cases h

theorem of_error {e : ε} (h : kind e) : ErrorsIn kind (.error e : Except ε α) := by
  intro e' he
  cases he
  exact h

theorem mono {kind' : ε → Prop} {x : Except ε α} (h : ErrorsIn kind x)
    (himp : ∀ e, kind e → kind' e) : ErrorsIn kind' x := fun e he => himp e (h e he)

theorem bind {x : Except ε α} {f : α → Except ε β} (hx : ErrorsIn kind x)
    (hf : ∀ a, ErrorsIn kind (f a)) : ErrorsIn kind (x >>= f) := by
  cases x with
  | error e => exact of_error (hx e rfl)
  | ok a => exact hf a

/-- Errors that are taken for others of the kind. -/
theorem mapError {x : Except ε' α} {f : ε' → ε} (h : ErrorsIn (fun e => kind (f e)) x) :
    ErrorsIn kind (x.mapError f) := by
  cases x with
  | error e => exact of_error (h e rfl)
  | ok a => exact of_ok a

theorem mapM {f : α → Except ε β} (hf : ∀ a, ErrorsIn kind (f a)) (xs : List α) :
    ErrorsIn kind (xs.mapM f) := by
  induction xs with
  | nil => exact of_ok []
  | cons x rest ih =>
    rw [List.mapM_cons]
    exact bind (hf x) fun y => bind ih fun ys => of_ok _

theorem filterAuxM {f : α → Except ε Bool} (hf : ∀ a, ErrorsIn kind (f a)) (xs kept : List α) :
    ErrorsIn kind (xs.filterAuxM f kept) := by
  induction xs generalizing kept with
  | nil => exact of_ok _
  | cons x rest ih => exact bind (hf x) fun b => ih _

theorem filterM {f : α → Except ε Bool} (hf : ∀ a, ErrorsIn kind (f a)) (xs : List α) :
    ErrorsIn kind (xs.filterM f) :=
  bind (filterAuxM hf xs []) fun _ => of_ok _

end ErrorsIn

/-- Whether every failure of an action is of a kind. -/
def FailsIn {α : Type} (kind : Failure → Prop) (x : Action α) : Prop := ∀ w, ErrorsIn kind (x w).1

namespace FailsIn

variable {α β : Type} {kind : Failure → Prop}

theorem of_pure (a : α) : FailsIn kind (pure a : Action α) := fun _ => .of_ok a

theorem of_throw {e : Failure} (h : kind e) : FailsIn kind (throw e : Action α) :=
  fun _ => .of_error h

theorem of_note (severity : Severity) (source words : String) :
    FailsIn kind (note severity source words) := fun _ => .of_ok ()

theorem of_ofExcept {ε : Type} {failure : ε → Failure} {x : Except ε α}
    (h : ErrorsIn (fun e => kind (failure e)) x) : FailsIn kind (ofExcept failure x) := by
  intro w
  rw [ofExcept_run]
  exact h.mapError

/-- What follows an action fails in a kind in every workspace, so the whole fails in that kind where
the action does. -/
theorem bind_run {x : Action α} {f : α → Action β} {w : Workspace} (hx : ErrorsIn kind (x w).1)
    (hf : ∀ a, FailsIn kind (f a)) : ErrorsIn kind ((x >>= f : Action β) w).1 := by
  rw [Action.bind_run]
  rcases hr : x w with ⟨e | a, w'⟩
  · rw [hr] at hx
    exact .of_error (hx e rfl)
  · exact hf a w'

theorem bind {x : Action α} {f : α → Action β} (hx : FailsIn kind x)
    (hf : ∀ a, FailsIn kind (f a)) : FailsIn kind (x >>= f) :=
  fun w => bind_run (hx w) hf

theorem of_look {f : FileSystem → Except Failure α} (h : ∀ files, ErrorsIn kind (f files)) :
    FailsIn kind (look f) :=
  bind (fun _ => .of_ok _) fun files => of_ofExcept (h files)

theorem of_discard {x : Action α} (h : FailsIn kind x) : FailsIn kind (discard x) :=
  bind h fun _ => of_pure ()

/-- An action whose failures are handled fails as the handler does on them. -/
theorem of_tryCatch {kind' : Failure → Prop} {x : Action α} {handle : Failure → Action α}
    (hx : FailsIn kind' x) (hhandle : ∀ e, kind' e → FailsIn kind (handle e)) :
    FailsIn kind (tryCatch x handle) := by
  intro w
  rw [tryCatch_run]
  have hfirst := hx w
  rcases hr : x w with ⟨e | a, w'⟩
  · rw [hr] at hfirst
    exact hhandle e (hfirst e rfl) w'
  · exact .of_ok a

theorem forM {f : α → Action Unit} (hf : ∀ a, FailsIn kind (f a)) (xs : List α) :
    FailsIn kind (xs.forM f) := by
  induction xs with
  | nil => exact of_pure ()
  | cons x rest ih => exact bind (hf x) fun _ => ih

end FailsIn

end RegistryTree
