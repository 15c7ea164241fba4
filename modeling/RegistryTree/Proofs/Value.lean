import Mathlib.Data.List.Forall2
import RegistryTree.Value

/-!
# Equal values

Values are compared by what they hold. Mappings are equal when they have the same keys with equal
values, in whatever order their entries come, and sets when they have the same members; lists and
tuples are compared item by item. What is no container is equal when it is the same key.

A text is equal to nothing but itself, so that what a mapping has under a text can be told from any
mapping that is equal to it.

Equality is one of several ways in which values can be alike. `Likeness` is what all of them have in
common, as far as documents are read: what a look at a value tells is told by any value like it.

> `equal_mapping`: equal mappings have equal values, or none, under every text.
> `equal_list`: a list is equal to lists with equal items alone.
> `likeness_equal`: equal values are alike.
-/

namespace RegistryTree

namespace Value

mutual

/-- Whether two values are equal. -/
def equal (a b : Value) : Bool :=
  match a, b with
  | list _ xs, list _ ys => equalItems xs ys
  | tuple _ xs, tuple _ ys => equalItems xs ys
  | set _ xs, set _ ys =>
    (xs.all fun x => ys.any x.sameKey) && ys.all fun y => xs.any (·.sameKey y)
  | mapping _ xs, mapping _ ys =>
    equalEntries xs ys && ys.all fun e => xs.any (·.1.sameKey e.1)
  | a, b => sameKey a b

/-- Whether two lists of values have equal items. -/
def equalItems : List Value → List Value → Bool
  | [], [] => true
  | x :: xs, y :: ys => equal x y && equalItems xs ys
  | _, _ => false

/-- Whether the keys of entries have equal values among other entries. -/
def equalEntries : Entries → Entries → Bool
  | [], _ => true
  | (k, v) :: rest, ys =>
    (match ys.find? fun e => k.sameKey e.1 with
      | some e => equal v e.2
      | none => false) && equalEntries rest ys

end

theorem equal_text {s : String} {b : Value} (h : (text s).equal b = true) : b = text s := by
  rw [equal] at h
  · exact text_sameKey.1 h
  all_goals intros; simp_all

theorem equal_null {b : Value} (h : null.equal b = true) : b = null := by
  rw [equal] at h
  · cases b <;> simp [sameKey, magnitude?] at h ⊢
  all_goals intros; simp_all

theorem equalItems_iff {xs ys : List Value} :
    equalItems xs ys = true ↔ List.Forall₂ (fun a b => a.equal b = true) xs ys := by
  induction xs generalizing ys with
  | nil => cases ys <;> simp [equalItems]
  | cons x xs ih =>
    cases ys with
    | nil => simp [equalItems]
    | cons y ys => rw [equalItems, Bool.and_eq_true, ih, List.forall₂_cons]

/-- A list is equal to lists with equal items alone. -/
theorem equal_list {share : Share} {xs : List Value} {b : Value}
    (h : (list share xs).equal b = true) :
    ∃ share ys, b = list share ys ∧ List.Forall₂ (fun a b => a.equal b = true) xs ys := by
  cases b with
  | list share ys => exact ⟨share, ys, rfl, equalItems_iff.1 (by simpa [equal] using h)⟩
  | _ => simp [equal, sameKey, magnitude?] at h

/-- What stands under a text in entries is what stands under any key that is the same. -/
theorem get?_eq_find? (entries : Entries) (key : String) :
    Entries.get? entries key = (entries.find? fun e => (text key).sameKey e.1).map (·.2) := by
  rw [Entries.get?]
  induction entries with
  | nil => rfl
  | cons e rest ih =>
    rw [List.findSome?_cons, List.find?_cons, ih]
    by_cases h : e.1 = text key
    · simp [h, text_sameKey.2 rfl]
    -- Another key is passed over by both: by one since the keys differ, by the other since it looks
    -- only for texts, and this is another text or none.
    · have hne : (text key).sameKey e.1 = false := by
        rw [← Bool.not_eq_true, text_sameKey]
        exact h
      rw [hne]
      split
      next v hv =>
        split at hv
        next s hs =>
          have hs' : s ≠ key := fun he => h (he ▸ hs)
          simp [hs'] at hv
        next => cases hv
      next => rfl

/-- What entries have under a text is found, as an equal value, in entries that they are equal to. -/
theorem get?_of_equalEntries {xs ys : Entries} (h : equalEntries xs ys = true) {key : String}
    {v : Value} (hv : Entries.get? xs key = some v) :
    ∃ v', Entries.get? ys key = some v' ∧ v.equal v' = true := by
  induction xs with
  | nil => simp [Entries.get?] at hv
  | cons e rest ih =>
    obtain ⟨k, u⟩ := e
    rw [equalEntries, Bool.and_eq_true] at h
    obtain ⟨hfound, hrest⟩ := h
    rw [get?_eq_find?, List.find?_cons] at hv
    -- Equality of entries has looked for every key of the first in the second, so the answer is
    -- there for the key that is found first.
    cases hk : (text key).sameKey k with
    | true =>
      rw [hk] at hv
      cases text_sameKey.1 hk
      cases hv
      split at hfound
      next e he => exact ⟨e.2, by rw [get?_eq_find?, he]; rfl, hfound⟩
      next => cases hfound
    | false =>
      rw [hk, ← get?_eq_find?] at hv
      exact ih hrest hv

/-- Equal mappings have equal values, or none, under every text. -/
theorem equal_mapping {share : Share} {xs : Entries} {b : Value}
    (h : (mapping share xs).equal b = true) :
    ∃ share ys, b = mapping share ys ∧
      ∀ key, Option.Rel (fun a b => a.equal b = true) (Entries.get? xs key)
        (Entries.get? ys key) := by
  cases b with
  | mapping share ys =>
    rw [equal, Bool.and_eq_true] at h
    obtain ⟨hentries, hback⟩ := h
    refine ⟨share, ys, rfl, fun key => ?_⟩
    cases hx : Entries.get? xs key with
    | some v =>
      obtain ⟨v', hv', hequal⟩ := get?_of_equalEntries hentries hx
      rw [hv']
      exact .some hequal
    | none =>
      -- every key of the other mapping is a key of this one
      have hy : Entries.get? ys key = none := by
        rw [get?_eq_find?, Option.map_eq_none_iff, List.find?_eq_none] at hx ⊢
        intro e he hkey
        rw [text_sameKey] at hkey
        obtain ⟨d, hd, hsame⟩ := List.any_eq_true.1 (List.all_eq_true.1 hback e he)
        rw [hkey, sameKey_text] at hsame
        exact hx d hd (text_sameKey.2 hsame)
      rw [hy]
      exact .none
  | _ => simp [equal, sameKey, magnitude?] at h

/-! ## Likeness -/

/-- What values must be like for documents to be read alike: texts, and what is null, are the same;
lists have like items, and mappings have like values, or none, under every text. -/
structure Likeness (R : Value → Value → Prop) : Prop where
  text : ∀ {s : String} {b : Value}, R (text s) b → b = text s
  null : ∀ {b : Value}, R null b → b = null
  list : ∀ {share : Share} {xs : List Value} {b : Value}, R (list share xs) b →
    ∃ share ys, b = list share ys ∧ List.Forall₂ R xs ys
  mapping : ∀ {share : Share} {xs : Entries} {b : Value}, R (mapping share xs) b →
    ∃ share ys, b = mapping share ys ∧
      ∀ key, Option.Rel R (Entries.get? xs key) (Entries.get? ys key)

/-- Equal values are alike. -/
theorem likeness_equal : Likeness fun a b => a.equal b = true :=
  ⟨equal_text, equal_null, equal_list, equal_mapping⟩

namespace Likeness

variable {R : Value → Value → Prop} {y : Option Value}

theorem eq_none (h : Option.Rel R none y) : y = none := by
  cases h
  rfl

theorem eq_null (hR : Likeness R) (h : Option.Rel R (some Value.null) y) :
    y = some Value.null := by
  cases h with
  | some h => rw [hR.null h]

theorem eq_text (hR : Likeness R) {s : String} (h : Option.Rel R (some (Value.text s)) y) :
    y = some (Value.text s) := by
  cases h with
  | some h => rw [hR.text h]

end Likeness

end Value

end RegistryTree
