import RegistryTree.Package.Resolution
import RegistryTree.Proofs.Except

/-!
# What references resolve to

Of the definitions in a list the first that serves a key is the one that the key stands for. That
does not change when further definitions come behind the list, so a release that resolves goes on
resolving to the same definitions. A release that does not resolve is stopped by the first of its
keys that nothing serves, and has no definition at all.

> `get?_index_eq_some_iff`, `get?_index_eq_none_iff`: what a key leads to in the index of a list.
> `resolve_index_eq_ok_iff`, `resolve_index_eq_error_iff`: what a release resolves to in it.
> `resolve_index`: the two together, and what further definitions change.
-/

namespace RegistryTree.Resolution

/-- Whether a definition stands in a list as the first that serves a key. -/
def FirstServing (ds : List Definition) (k : ResourceKey) (d : Definition) : Prop :=
  ∃ front back, ds = front ++ d :: back ∧ k ∈ d.keys ∧ ∀ e ∈ front, k ∉ e.keys

/-- Whether no definition of a list serves a key. -/
def Unserved (ds : List Definition) (k : ResourceKey) : Prop := ∀ d ∈ ds, k ∉ d.keys

/-- Whether a key stands in a list as the first that no definition serves. -/
def FirstUnserved (ds : List Definition) (keys : List ResourceKey) (k : ResourceKey) : Prop :=
  ∃ front back, keys = front ++ k :: back ∧ Unserved ds k ∧ ∀ l ∈ front, ¬Unserved ds l

variable {ds : List Definition} {k : ResourceKey} {d : Definition} {r : Release}

/-! ## Keys -/

theorem get?_index_eq_some_iff : get? (index Definition.keys ds) k = some d ↔ FirstServing ds k d := by
  rw [get?_index, List.find?_eq_some_iff_append, FirstServing]
  simp only [decide_eq_true_eq, Bool.not_eq_true', decide_eq_false_iff_not]
  constructor
  · rintro ⟨hk, front, back, heq, hfront⟩
    exact ⟨front, back, heq, hk, hfront⟩
  · rintro ⟨front, back, heq, hk, hfront⟩
    exact ⟨hk, front, back, heq, hfront⟩

theorem get?_index_eq_none_iff : get? (index Definition.keys ds) k = none ↔ Unserved ds k := by
  rw [get?_index, List.find?_eq_none, Unserved]
  simp only [decide_eq_true_eq]

/-- Definitions behind the first that serves a key make no difference to it. -/
theorem FirstServing.append (h : FirstServing ds k d) (more : List Definition) :
    FirstServing (ds ++ more) k d := by
  obtain ⟨front, back, rfl, hk, hfront⟩ := h
  exact ⟨front, back ++ more, by rw [List.append_assoc, List.cons_append], hk, hfront⟩

/-! ## Releases -/

theorem resolveKey_eq_ok_iff {α : Type} {name : String} {found : List (ResourceKey × α)} {x : α} :
    resolveKey name found k = .ok x ↔ get? found k = some x := by
  unfold resolveKey
  cases get? found k <;> simp

/-- A release resolves to the first definitions that serve its keys, one for each of them. -/
theorem resolve_index_eq_ok_iff {found : List Definition} :
    resolve r (index Definition.keys ds) = .ok found ↔
      List.Forall₂ (FirstServing ds) r.owned found := by
  rw [resolve, mapM_eq_ok_iff]
  simp only [resolveKey_eq_ok_iff, get?_index_eq_some_iff]

/-- A release is stopped by the first of its keys that nothing serves. -/
theorem resolve_index_eq_error_iff {u : Unresolved} :
    resolve r (index Definition.keys ds) = .error u ↔
      u.release = r.name ∧ FirstUnserved ds r.owned u.key := by
  have hnone : ∀ l, (get? (index Definition.keys ds) l).isNone = true ↔ Unserved ds l := fun l => by
    rw [Option.isNone_iff_eq_none, get?_index_eq_none_iff]
  rw [resolve_eq_error_iff, List.find?_eq_some_iff_append, FirstUnserved, hnone]
  simp only [Bool.not_eq_true', ← Bool.not_eq_true, hnone]
  constructor
  · rintro ⟨hname, hk, front, back, heq, hfront⟩
    exact ⟨hname, front, back, heq, hk, hfront⟩
  · rintro ⟨hname, front, back, heq, hk, hfront⟩
    exact ⟨hname, hk, front, back, heq, hfront⟩

/-- A release does not resolve when it owns a key that nothing serves, and only then. -/
theorem exists_resolve_error_iff :
    (∃ u, resolve r (index Definition.keys ds) = .error u) ↔ ∃ k ∈ r.owned, Unserved ds k := by
  constructor
  · intro h
    obtain ⟨u, hu⟩ := h
    obtain ⟨-, front, back, heq, hk, -⟩ := resolve_index_eq_error_iff.1 hu
    exact ⟨u.key, by rw [heq]; simp, hk⟩
  · intro h
    obtain ⟨k, hk, hunserved⟩ := h
    cases hresolve : resolve r (index Definition.keys ds) with
    | error u => exact ⟨u, rfl⟩
    | ok found =>
      obtain ⟨d, -, front, back, rfl, hserves, -⟩ :=
        mem_of_forall₂ (resolve_index_eq_ok_iff.1 hresolve).flip hk
      exact absurd hserves (hunserved d (by simp))

/-- The index of a list leads from each key to the first definition that serves it, and from no other.
A release resolves to the first definitions that serve its keys, in their order, or is stopped by the
first of its keys that nothing serves, and it is when there is such a key. Definitions that come
behind the list change neither what a key leads to nor what a release resolves to. -/
theorem resolve_index (ds : List Definition) :
    (∀ k, (∀ d, get? (index Definition.keys ds) k = some d ↔ FirstServing ds k d) ∧
      (get? (index Definition.keys ds) k = none ↔ Unserved ds k)) ∧
    (∀ r : Release,
      ((∃ found, resolve r (index Definition.keys ds) = .ok found ∧
          List.Forall₂ (FirstServing ds) r.owned found) ∨
        ∃ key, resolve r (index Definition.keys ds) = .error ⟨key, r.name⟩ ∧
          FirstUnserved ds r.owned key) ∧
      ((∃ u, resolve r (index Definition.keys ds) = .error u) ↔ ∃ k ∈ r.owned, Unserved ds k)) ∧
    ∀ more : List Definition,
      (∀ k d, get? (index Definition.keys ds) k = some d →
        get? (index Definition.keys (ds ++ more)) k = some d) ∧
      ∀ r found, resolve r (index Definition.keys ds) = .ok found →
        resolve r (index Definition.keys (ds ++ more)) = .ok found := by
  refine ⟨fun k => ⟨fun d => get?_index_eq_some_iff, get?_index_eq_none_iff⟩,
    fun r => ⟨?_, exists_resolve_error_iff⟩, fun more => ⟨fun k d h => ?_, fun r found h => ?_⟩⟩
  · cases h : resolve r (index Definition.keys ds) with
    | ok found => exact .inl ⟨found, rfl, resolve_index_eq_ok_iff.1 h⟩
    | error u =>
      obtain ⟨hname, hfirst⟩ := resolve_index_eq_error_iff.1 h
      exact .inr ⟨u.key, by rw [← hname], hfirst⟩
  · rw [get?_index_eq_some_iff] at h ⊢
    exact h.append more
  · rw [resolve_index_eq_ok_iff] at h ⊢
    exact h.imp fun _ _ hfirst => hfirst.append more

/-- A definition that serves two versions of a kind. -/
def widgets : Definition :=
  ⟨[], "widgets.demo.io", "demo.io", "Widget", ["v1", "v2"], by decide, by decide⟩

/-- Another that serves one of them too. -/
def otherWidgets : Definition :=
  ⟨[], "other.demo.io", "demo.io", "Widget", ["v2", "v3"], by decide, by decide⟩

/-- A release that owns the two versions, the later one first. -/
def widgetOwner : Release :=
  ⟨[], "demo.v1", none, none, [⟨"demo.io", "v2", "Widget"⟩, ⟨"demo.io", "v1", "Widget"⟩], []⟩

/-- It resolves to the first definition twice, and goes on doing so when the other comes behind. -/
theorem resolve_index_widgets :
    resolve widgetOwner (index Definition.keys [widgets]) = .ok [widgets, widgets] ∧
      resolve widgetOwner (index Definition.keys ([widgets] ++ [otherWidgets])) =
        .ok [widgets, widgets] := by
  have hresolve : resolve widgetOwner (index Definition.keys [widgets]) = .ok [widgets, widgets] := rfl
  obtain ⟨-, -, hmore⟩ := resolve_index [widgets]
  exact ⟨hresolve, (hmore [otherWidgets]).2 _ _ hresolve⟩

end RegistryTree.Resolution
