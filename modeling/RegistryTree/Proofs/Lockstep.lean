import RegistryTree.Proofs.Workspace

/-!
# Actions in step on two workspaces

An action keeps step on two workspaces when it comes to the same on both, value or failure, and
leaves files that are related again. Steps that keep step make up actions that do: a relation
between the files is carried through an action as an invariant is, from one step to the next.

> `InStep.bind`, `InStep.tryCatch`, `Carries.forM`: what the parts of an action carry on, the action
> does.
> `InStep.mono`: less may be asked before, and more be known afterwards, than is needed.
-/

namespace RegistryTree

open RegistryTree.Action

/-- A relation between the files of two workspaces. -/
abbrev Pairing := FileSystem → FileSystem → Prop

/-- Two runs that came to the same and left related files: by `after` the value, or by `failed`. -/
inductive Alike {α : Type} (after : α → Pairing) (failed : Pairing) :
    Except Failure α × Workspace → Except Failure α × Workspace → Prop
  | ok (a : α) {w w' : Workspace} : after a w.files w'.files →
      Alike after failed (.ok a, w) (.ok a, w')
  | error (e : Failure) {w w' : Workspace} : failed w.files w'.files →
      Alike after failed (.error e, w) (.error e, w')

/-- Whether an action comes to the same on any two workspaces with related files, and leaves related
files. -/
def InStep {α : Type} (before : Pairing) (after : α → Pairing) (failed : Pairing)
    (x : Action α) : Prop :=
  ∀ w w', before w.files w'.files → Alike after failed (x w) (x w')

/-- Whether an action comes to the same on any two workspaces whose files are in a relation, and leaves
them in that relation. -/
abbrev Carries {α : Type} (kept : Pairing) (x : Action α) : Prop := InStep kept (fun _ => kept) kept x

namespace Alike

variable {α : Type} {after after' : α → Pairing} {failed failed' : Pairing}
  {r r' : Except Failure α × Workspace}

theorem result (h : Alike after failed r r') : r.1 = r'.1 := by
  cases h <;> rfl

theorem mono (h : Alike after failed r r')
    (hafter : ∀ a files files', after a files files' → after' a files files')
    (hfailed : ∀ files files', failed files files' → failed' files files') :
    Alike after' failed' r r' := by
  cases h with
  | ok a h => exact .ok a (hafter a _ _ h)
  | error e h => exact .error e (hfailed _ _ h)

/-- What is left is related in any case when it is after every value and after a failure. -/
theorem left (h : Alike after failed r r')
    (hafter : ∀ a files files', after a files files' → failed files files') :
    failed r.2.files r'.2.files := by
  cases h with
  | ok a h => exact hafter a _ _ h
  | error e h => exact h

end Alike

namespace InStep

variable {α β : Type} {before failed : Pairing} {after : α → Pairing}

theorem of_pure {a : α} (h : ∀ files files', before files files' → after a files files') :
    InStep before after failed (pure a : Action α) :=
  fun _ _ hw => .ok a (h _ _ hw)

theorem of_throw {e : Failure} (h : ∀ files files', before files files' → failed files files') :
    InStep before after failed (throw e : Action α) :=
  fun _ _ hw => .error e (h _ _ hw)

theorem of_note (severity : Severity) (source words : String) :
    InStep before (fun _ => before) failed (note severity source words) :=
  fun _ _ hw => .ok () hw

theorem mono {before' failed' : Pairing} {after' : α → Pairing} {x : Action α}
    (h : InStep before after failed x)
    (hbefore : ∀ files files', before' files files' → before files files')
    (hafter : ∀ a files files', after a files files' → after' a files files')
    (hfailed : ∀ files files', failed files files' → failed' files files') :
    InStep before' after' failed' x :=
  fun w w' hw => (h w w' (hbefore _ _ hw)).mono hafter hfailed

theorem of_and {known : Prop} {x : Action α} (h : known → InStep before after failed x) :
    InStep (fun files files' => known ∧ before files files') after failed x :=
  fun w w' hw => h hw.1 w w' hw.2

theorem of_exists {ι : Type} {before : ι → Pairing} {x : Action α}
    (h : ∀ i, InStep (before i) after failed x) :
    InStep (fun files files' => ∃ i, before i files files') after failed x := by
  intro w w' hw
  obtain ⟨i, hi⟩ := hw
  exact h i w w' hi

theorem bind {middle : α → Pairing} {after : β → Pairing} {x : Action α} {f : α → Action β}
    (hx : InStep before middle failed x) (hf : ∀ a, InStep (middle a) after failed (f a)) :
    InStep before after failed (x >>= f) := by
  intro w w' hw
  have h := hx w w' hw
  rw [bind_run, bind_run]
  generalize x w = r at h ⊢
  generalize x w' = r' at h ⊢
  cases h with
  | ok a h => exact hf a _ _ h
  | error e h => exact .error e h

/-- What may fail without a workspace keeps step with what follows. -/
theorem bind_ofExcept {ε : Type} {failure : ε → Failure} {x : Except ε α} {after : β → Pairing}
    {f : α → Action β} (hfailed : ∀ files files', before files files' → failed files files')
    (hf : ∀ a, x = .ok a → InStep before after failed (f a)) :
    InStep before after failed (ofExcept failure x >>= f) := by
  cases x with
  | ok a => exact hf a rfl
  | error e => exact fun w w' hw => .error _ (hfailed _ _ hw)

theorem tryCatch {middle : Pairing} {x : Action α} {handle : Failure → Action α}
    (hx : InStep before after middle x) (hhandle : ∀ e, InStep middle after failed (handle e)) :
    InStep before after failed (MonadExcept.tryCatch x handle : Action α) := by
  intro w w' hw
  have h := hx w w' hw
  rw [tryCatch_run, tryCatch_run]
  generalize x w = r at h ⊢
  generalize x w' = r' at h ⊢
  cases h with
  | ok a h => exact .ok a h
  | error e h => exact hhandle e _ _ h

theorem discard {kept : Pairing} {x : Action α}
    (hx : InStep before (fun _ => kept) failed x) :
    InStep before (fun _ => kept) failed (Functor.discard x : Action Unit) :=
  bind hx fun _ => of_pure fun _ _ h => h

end InStep

/-- A traversal carries a relation when each of its steps does. -/
theorem Carries.forM {α : Type} {kept : Pairing} {f : α → Action Unit} (xs : List α)
    (hf : ∀ x, Carries kept (f x)) : Carries kept (xs.forM f) := by
  induction xs with
  | nil => exact InStep.of_pure fun _ _ h => h
  | cons x rest ih => exact InStep.bind (hf x) fun _ => ih

end RegistryTree
