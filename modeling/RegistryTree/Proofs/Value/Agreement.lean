import RegistryTree.Proofs.Value

/-!
# Values that agree

A value may come from one source or another. Two values agree when they are the same part by part,
whatever is one object in either of them, or when each is equal to the other. What stands for no
number is equal to nothing, but a value agrees with itself in any case.

> `likeness_agrees`: values that agree are alike, and so are read alike in documents.
-/

namespace RegistryTree.Value

/-! ## Ways of being alike -/

section

variable {R S : Value → Value → Prop} {x y : Option Value}

theorem rel_imp (himp : ∀ a b, R a b → S a b) (h : Option.Rel R x y) : Option.Rel S x y := by
  cases h with
  | none => exact .none
  | some h => exact .some (himp _ _ h)

theorem rel_both (h : Option.Rel R x y) (hback : Option.Rel R y x) :
    Option.Rel (fun a b => R a b ∧ R b a) x y := by
  cases h with
  | none => exact .none
  | some h =>
    cases hback with
    | some hback => exact .some ⟨h, hback⟩

/-- Values are alike when they are so in one of two ways. -/
theorem Likeness.or (hR : Likeness R) (hS : Likeness S) : Likeness fun a b => R a b ∨ S a b where
  text h := h.elim hR.text hS.text
  null h := h.elim hR.null hS.null
  list h := by
    rcases h with h | h
    · obtain ⟨share, ys, hb, hitems⟩ := hR.list h
      exact ⟨share, ys, hb, hitems.imp fun _ _ => Or.inl⟩
    · obtain ⟨share, ys, hb, hitems⟩ := hS.list h
      exact ⟨share, ys, hb, hitems.imp fun _ _ => Or.inr⟩
  mapping h := by
    rcases h with h | h
    · obtain ⟨share, ys, hb, hentries⟩ := hR.mapping h
      exact ⟨share, ys, hb, fun key => rel_imp (fun _ _ => Or.inl) (hentries key)⟩
    · obtain ⟨share, ys, hb, hentries⟩ := hS.mapping h
      exact ⟨share, ys, hb, fun key => rel_imp (fun _ _ => Or.inr) (hentries key)⟩

/-- Values are alike when each is like the other. -/
theorem Likeness.both (hR : Likeness R) : Likeness fun a b => R a b ∧ R b a where
  text h := hR.text h.1
  null h := hR.null h.1
  list h := by
    obtain ⟨share, ys, rfl, hitems⟩ := hR.list h.1
    obtain ⟨_, _, heq, hback⟩ := hR.list h.2
    cases heq
    exact ⟨share, ys, rfl, hitems.mp (fun _ _ => And.intro) hback.flip⟩
  mapping h := by
    obtain ⟨share, ys, rfl, hentries⟩ := hR.mapping h.1
    obtain ⟨_, _, heq, hback⟩ := hR.mapping h.2
    cases heq
    exact ⟨share, ys, rfl, fun key => rel_both (hentries key) (hback key)⟩

end

/-! ## Values without their share numbers -/

section

variable {share : Share} {xs : List Value} {entries : Entries} {b : Value}

theorem forall₂_of_unsharedItems {ys : List Value} (h : unsharedItems xs = unsharedItems ys) :
    List.Forall₂ (fun a b => a.unshared = b.unshared) xs ys := by
  induction xs generalizing ys with
  | nil =>
    cases ys with
    | nil => exact .nil
    | cons y ys => simp [unsharedItems] at h
  | cons x xs ih =>
    cases ys with
    | nil => simp [unsharedItems] at h
    | cons y ys =>
      rw [unsharedItems, unsharedItems, List.cons.injEq] at h
      exact .cons h.1 (ih h.2)

theorem unshared_eq_text_iff {s : String} : b.unshared = text s ↔ b = text s := by
  cases b <;> simp [unshared]

/-- Under a text there stands the same with share numbers and without. -/
theorem get?_unsharedEntries (entries : Entries) (key : String) :
    Entries.get? (unsharedEntries entries) key = (Entries.get? entries key).map unshared := by
  induction entries with
  | nil => rfl
  | cons e rest ih =>
    obtain ⟨k, v⟩ := e
    rw [unsharedEntries, get?_eq_find?, get?_eq_find?, List.find?_cons, List.find?_cons]
    rw [get?_eq_find?, get?_eq_find?] at ih
    have hkey : (text key).sameKey k.unshared = (text key).sameKey k := by
      rw [Bool.eq_iff_iff, text_sameKey, text_sameKey, unshared_eq_text_iff]
    rw [hkey]
    cases (text key).sameKey k with
    | true => rfl
    | false => exact ih

/-- Values that are the same but for their share numbers are alike. -/
theorem likeness_unshared : Likeness fun a b => a.unshared = b.unshared where
  text {s _} h := by
    rw [show (text s).unshared = text s from rfl, eq_comm, unshared_eq_text_iff] at h
    exact h
  null {b} h := by cases b <;> simp [unshared] at h ⊢
  list {share xs b} h := by
    cases b with
    | list share ys =>
      refine ⟨share, ys, rfl, forall₂_of_unsharedItems ?_⟩
      simpa [unshared] using h
    | _ => simp [unshared] at h
  mapping {share xs b} h := by
    cases b with
    | mapping share ys =>
      refine ⟨share, ys, rfl, fun key => ?_⟩
      have hentries : unsharedEntries xs = unsharedEntries ys := by simpa [unshared] using h
      have hkey := congrArg (Entries.get? · key) hentries
      simp only [get?_unsharedEntries] at hkey
      cases hx : Entries.get? xs key <;> cases hy : Entries.get? ys key <;>
        simp only [hx, hy, Option.map_none, Option.map_some, reduceCtorEq, Option.some.injEq] at hkey
      · exact .none
      · exact .some hkey
    | _ => simp [unshared] at h

end

/-! ## Agreement -/

/-- Whether two values agree: they are the same but for what is one object in them, or each is equal
to the other. -/
def Agrees (a b : Value) : Prop :=
  a.unshared = b.unshared ∨ a.equal b = true ∧ b.equal a = true

theorem likeness_agrees : Likeness Agrees := likeness_unshared.or likeness_equal.both

namespace Agrees

variable {a b : Value}

theorem refl (a : Value) : a.Agrees a := Or.inl rfl

theorem symm (h : a.Agrees b) : b.Agrees a := h.imp Eq.symm And.symm

theorem rel_symm {x y : Option Value} (h : Option.Rel Agrees x y) : Option.Rel Agrees y x := by
  cases h with
  | none => exact .none
  | some h => exact .some h.symm

/-- Whether mappings agree is a matter of their entries. -/
theorem of_mapping {s t : Share} {xs ys : Entries} (h : (mapping s xs).Agrees (mapping t ys)) :
    (mapping none xs).Agrees (mapping none ys) := by
  simpa only [Agrees, unshared, equal] using h

end Agrees

end RegistryTree.Value
