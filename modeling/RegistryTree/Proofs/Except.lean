import Mathlib.Data.List.Forall2

/-!
# Results that may be errors

When a computation made of steps gives a result, so has each of its steps.

> `bind_eq_ok_iff`, `map_eq_ok_iff`, `mapError_eq_ok_iff`, `mapM_eq_ok_iff`, `forM_eq_ok_iff`: what a
> result tells about the steps.
> `exists_mapM_eq_ok`, `exists_mapM_of_forall₂`, `filterM_eq`: what steps that give results come to.
> `filterM_eq_ok_iff`: what a list that was filtered tells about the steps.
> `map_eq_map_iff`, `mapM_map_eq`: when two results come to the same.
> `mem_of_forall₂`, `map_eq_of_forall₂`, `rel_find?`: what holds along lists of related elements.
-/

namespace RegistryTree

variable {ε ε' α β : Type}

theorem bind_eq_ok_iff {x : Except ε α} {f : α → Except ε β} {b : β} :
    x >>= f = .ok b ↔ ∃ a, x = .ok a ∧ f a = .ok b := by
  cases x with
  | error e => simp [bind, Except.bind]
  | ok a => simp [bind, Except.bind]

theorem map_eq_ok_iff {x : Except ε α} {f : α → β} {b : β} :
    x.map f = .ok b ↔ ∃ a, x = .ok a ∧ f a = b := by
  cases x <;> simp [Except.map]

theorem exists_map_iff {f : α → β} {x : Except ε α} :
    (∃ y, x.map f = .ok y) ↔ ∃ a, x = .ok a := by
  cases x <;> simp [Except.map]

/-- Two results come to the same when both are one error, or both are something that comes to the
same. -/
theorem map_eq_map_iff {γ δ η : Type} {p : γ → η} {q : δ → η} {x : Except ε γ} {y : Except ε δ} :
    x.map p = y.map q ↔
      (∃ e, x = .error e ∧ y = .error e) ∨ ∃ a b, x = .ok a ∧ y = .ok b ∧ p a = q b := by
  cases x <;> cases y <;> simp [Except.map, eq_comm]

@[simp] theorem mapError_ok (f : ε → ε') (a : α) :
    (.ok a : Except ε α).mapError f = .ok a := rfl

@[simp] theorem mapError_error (f : ε → ε') (e : ε) :
    (.error e : Except ε α).mapError f = .error (f e) := rfl

theorem mapError_eq_ok_iff {x : Except ε α} {f : ε → ε'} {a : α} :
    x.mapError f = .ok a ↔ x = .ok a := by
  cases x <;> simp

/-- A list is gone through without an error when each of its elements gives a result. -/
theorem mapM_eq_ok_iff {f : α → Except ε β} {xs : List α} {ys : List β} :
    xs.mapM f = .ok ys ↔ List.Forall₂ (fun x y => f x = .ok y) xs ys := by
  induction xs generalizing ys with
  | nil =>
    cases ys with
    | nil => exact ⟨fun _ => .nil, fun _ => rfl⟩
    | cons y ys => exact ⟨(fun h => by cases h), fun h => by cases h⟩
  | cons x xs ih =>
    simp only [List.mapM_cons, bind_eq_ok_iff, ih]
    constructor
    · intro hgiven
      obtain ⟨y, hy, rest, hrest, heq⟩ := hgiven
      cases heq
      exact .cons hy hrest
    · intro hgiven
      rcases hgiven with _ | ⟨hy, hrest⟩
      exact ⟨_, hy, _, hrest, rfl⟩

/-- Nothing is wrong with a list when nothing is wrong with its elements. -/
theorem forM_eq_ok_iff {f : α → Except ε Unit} {xs : List α} :
    xs.forM f = .ok () ↔ ∀ x ∈ xs, f x = .ok () := by
  induction xs with
  | nil => exact ⟨(fun _ _ hx => by cases hx), fun _ => rfl⟩
  | cons x xs ih =>
    rw [List.forM, bind_eq_ok_iff, List.forall_mem_cons, ← ih]
    exact ⟨fun ⟨_, hx, hrest⟩ => ⟨hx, hrest⟩, fun ⟨hx, hrest⟩ => ⟨(), hx, hrest⟩⟩

/-- A list is gone through when each element gives a result, and what holds of each element and its
result holds along the lists. -/
theorem exists_mapM_eq_ok {f : α → Except ε β} {R : α → β → Prop} {xs : List α}
    (h : ∀ x ∈ xs, ∃ y, f x = .ok y ∧ R x y) : ∃ ys, xs.mapM f = .ok ys ∧ List.Forall₂ R xs ys := by
  induction xs with
  | nil => exact ⟨[], rfl, .nil⟩
  | cons x xs ih =>
    rw [List.forall_mem_cons] at h
    obtain ⟨⟨y, hy, hxy⟩, hmore⟩ := h
    obtain ⟨ys, hys, hrest⟩ := ih hmore
    refine ⟨y :: ys, ?_, .cons hxy hrest⟩
    simp only [List.mapM_cons, bind_eq_ok_iff]
    exact ⟨y, hy, ys, hys, rfl⟩

/-- What is related to elements that give results is related to the results. -/
theorem exists_mapM_of_forall₂ {γ : Type} {f : β → Except ε γ} {R : α → β → Prop} {Q : α → γ → Prop}
    {xs : List α} {ys : List β} (h : List.Forall₂ R xs ys)
    (hstep : ∀ x ∈ xs, ∀ y ∈ ys, R x y → ∃ z, f y = .ok z ∧ Q x z) :
    ∃ zs, ys.mapM f = .ok zs ∧ List.Forall₂ Q xs zs := by
  induction h with
  | nil => exact ⟨[], rfl, .nil⟩
  | @cons x y xs ys hxy _ ih =>
    obtain ⟨z, hz, hxz⟩ := hstep x List.mem_cons_self y List.mem_cons_self hxy
    obtain ⟨zs, hzs, hrest⟩ := ih fun x hx y hy =>
      hstep x (List.mem_cons_of_mem _ hx) y (List.mem_cons_of_mem _ hy)
    refine ⟨z :: zs, ?_, .cons hxz hrest⟩
    simp only [List.mapM_cons, bind_eq_ok_iff]
    exact ⟨z, hz, zs, hzs, rfl⟩

theorem filterAuxM_eq {f : α → Except ε Bool} {g : α → Bool} {xs : List α}
    (h : ∀ x ∈ xs, f x = .ok (g x)) (kept : List α) :
    xs.filterAuxM f kept = .ok ((xs.filter g).reverse ++ kept) := by
  induction xs generalizing kept with
  | nil => rfl
  | cons x xs ih =>
    rw [List.forall_mem_cons] at h
    rw [List.filterAuxM, h.1]
    show xs.filterAuxM f (bif g x then x :: kept else kept) = _
    rw [ih h.2, List.filter_cons]
    cases g x <;> simp

/-- A list is filtered when each element can be looked at. -/
theorem filterM_eq {f : α → Except ε Bool} {g : α → Bool} {xs : List α}
    (h : ∀ x ∈ xs, f x = .ok (g x)) : xs.filterM f = .ok (xs.filter g) := by
  rw [List.filterM, filterAuxM_eq h]
  simp [bind, Except.bind, pure, Except.pure]

theorem exists_of_filterAuxM {f : α → Except ε Bool} {xs kept ys : List α}
    (h : xs.filterAuxM f kept = .ok ys) : ∀ x ∈ xs, ∃ b, f x = .ok b := by
  induction xs generalizing kept with
  | nil =>
    intro x hx
    cases hx
  | cons x xs ih =>
    rw [List.filterAuxM, bind_eq_ok_iff] at h
    obtain ⟨b, hb, hrest⟩ := h
    exact List.forall_mem_cons.2 ⟨⟨b, hb⟩, ih hrest⟩

/-- A list that was filtered is one of whose elements each could be looked at. -/
theorem filterM_eq_ok_iff {f : α → Except ε Bool} {xs ys : List α} :
    xs.filterM f = .ok ys ↔ ∃ g : α → Bool, (∀ x ∈ xs, f x = .ok (g x)) ∧ xs.filter g = ys := by
  constructor
  · intro h
    have hall : ∀ x ∈ xs, f x = .ok ((f x).toOption.getD false) := by
      rw [List.filterM, bind_eq_ok_iff] at h
      obtain ⟨kept, hkept, -⟩ := h
      intro x hx
      obtain ⟨b, hb⟩ := exists_of_filterAuxM hkept x hx
      rw [hb]
      rfl
    exact ⟨_, hall, Except.ok.inj ((filterM_eq hall).symm.trans h)⟩
  · rintro ⟨g, hall, rfl⟩
    exact filterM_eq hall

/-- What follows for the elements of the first list follows along the lists. -/
theorem forall₂_imp_of_mem {R S : α → β → Prop} {xs : List α} {ys : List β}
    (h : List.Forall₂ R xs ys) (himp : ∀ x ∈ xs, ∀ y, R x y → S x y) : List.Forall₂ S xs ys := by
  induction h with
  | nil => exact .nil
  | @cons x y xs ys hxy _ ih =>
    rw [List.forall_mem_cons] at himp
    exact .cons (himp.1 y hxy) (ih himp.2)

/-- What related elements have in common they have in common along the lists. -/
theorem map_eq_of_forall₂ {γ : Type} {R : α → β → Prop} {f : α → γ} {g : β → γ}
    (hsame : ∀ x y, R x y → g y = f x) {xs : List α} {ys : List β} (h : List.Forall₂ R xs ys) :
    ys.map g = xs.map f := by
  induction h with
  | nil => rfl
  | cons hxy _ ih => rw [List.map_cons, List.map_cons, hsame _ _ hxy, ih]

/-- What is so of all elements of one list is so of all of the other, when it is so of related elements
together. -/
theorem forall_mem_iff_of_forall₂ {R : α → β → Prop} {P : α → Prop} {Q : β → Prop}
    (hsame : ∀ x y, R x y → (Q y ↔ P x)) {xs : List α} {ys : List β} (h : List.Forall₂ R xs ys) :
    (∀ y ∈ ys, Q y) ↔ ∀ x ∈ xs, P x := by
  induction h with
  | nil => simp
  | cons hxy _ ih => rw [List.forall_mem_cons, List.forall_mem_cons, hsame _ _ hxy, ih]

/-- What is found first in lists of related elements is related, when of related elements both are
looked for or neither is. -/
theorem rel_find? {R : α → β → Prop} {f : α → Bool} {g : β → Bool}
    (hsame : ∀ x y, R x y → g y = f x) {xs : List α} {ys : List β} (h : List.Forall₂ R xs ys) :
    Option.Rel R (xs.find? f) (ys.find? g) := by
  induction h with
  | nil => exact .none
  | @cons x y xs ys hxy _ ih =>
    rw [List.find?_cons, List.find?_cons, hsame x y hxy]
    cases f x with
    | true => exact .some hxy
    | false => exact ih

/-- What related results have in common they have in common when there may be none. -/
theorem map_eq_of_rel {γ : Type} {R : α → β → Prop} {f : α → γ} {g : β → γ}
    (hsame : ∀ x y, R x y → g y = f x) {x : Option α} {y : Option β} (h : Option.Rel R x y) :
    y.map g = x.map f := by
  cases h with
  | none => rfl
  | some hxy => exact congrArg some (hsame _ _ hxy)

theorem mem_of_forall₂ {R : α → β → Prop} {xs : List α} {ys : List β} (h : List.Forall₂ R xs ys)
    {y : β} (hy : y ∈ ys) : ∃ x ∈ xs, R x y := by
  induction h with
  | nil => cases hy
  | cons hxy _ ih =>
    rcases List.mem_cons.1 hy with rfl | hy
    · exact ⟨_, List.mem_cons_self, hxy⟩
    · obtain ⟨x, hx, hxy⟩ := ih hy
      exact ⟨x, List.mem_cons_of_mem _ hx, hxy⟩

/-- A list is gone through without an error exactly when each of its elements gives a result. -/
theorem exists_mapM_iff {f : α → Except ε β} {xs : List α} :
    (∃ ys, xs.mapM f = .ok ys) ↔ ∀ x ∈ xs, ∃ y, f x = .ok y := by
  constructor
  · rintro ⟨ys, hys⟩ x hx
    obtain ⟨y, -, hxy⟩ := mem_of_forall₂ (mapM_eq_ok_iff.1 hys).flip hx
    exact ⟨y, hxy⟩
  · intro hall
    obtain ⟨ys, hys, -⟩ := exists_mapM_eq_ok (R := fun _ _ => True) fun x hx =>
      (hall x hx).imp fun y hy => ⟨hy, trivial⟩
    exact ⟨ys, hys⟩

/-- Lists whose elements give results that come to the same give lists that come to the same. -/
theorem mapM_map_eq {γ δ η : Type} {f : α → Except ε γ} {f' : β → Except ε δ} {p : γ → η}
    {q : δ → η} {xs : List α} {ys : List β}
    (hR : List.Forall₂ (fun x y => (f x).map p = (f' y).map q) xs ys) :
    (xs.mapM f).map (List.map p) = (ys.mapM f').map (List.map q) := by
  induction hR with
  | nil => rfl
  | cons hxy _ ih =>
    rw [List.mapM_cons, List.mapM_cons]
    rcases map_eq_map_iff.1 hxy with ⟨e, hx, hy⟩ | ⟨a, b, hx, hy, hab⟩
    · rw [hx, hy]
      rfl
    · rw [hx, hy]
      rcases map_eq_map_iff.1 ih with ⟨e, hxs, hys⟩ | ⟨as, bs, hxs, hys, habs⟩
      · rw [hxs, hys]
        rfl
      · rw [hxs, hys]
        exact congrArg Except.ok (congrArg₂ List.cons hab habs)

end RegistryTree
