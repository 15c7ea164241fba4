import RegistryTree.Package

/-!
# From references to definitions

The definitions of a package are looked up by key; when several serve one key, the first of them
counts. A release resolves when each key that it owns is served, and then has a definition for each
of them, in the order in which they are listed.

> `get?_index`: the index leads from a key to the first definition that serves it.
> `resolve_eq_ok_iff`, `resolve_eq_error_iff`: when a release resolves, and which key is missing
> when it does not.
-/

namespace RegistryTree

/-- A key that a release owns and no definition serves. -/
structure Unresolved where
  key : ResourceKey
  release : String
  deriving DecidableEq, Repr

namespace Resolution

variable {α : Type}

/-- What a key leads to. -/
def get? (index : List (ResourceKey × α)) (key : ResourceKey) : Option α := index.lookup key

/-- Adds what a key leads to, unless it leads somewhere already. -/
def add (index : List (ResourceKey × α)) (key : ResourceKey) (x : α) : List (ResourceKey × α) :=
  if (get? index key).isSome then index else index ++ [(key, x)]

/-- What the keys of a list lead to, in the order in which the keys first come. -/
def index (keysOf : α → List ResourceKey) (xs : List α) : List (ResourceKey × α) :=
  xs.foldl (fun found x => (keysOf x).foldl (fun found key => add found key x) found) []

/-- What a key that a release owns leads to. -/
def resolveKey (name : String) (index : List (ResourceKey × α)) (key : ResourceKey) :
    Except Unresolved α :=
  match get? index key with
  | some x => .ok x
  | none => .error ⟨key, name⟩

/-- What the keys that a release owns lead to. -/
def resolve (release : Release) (index : List (ResourceKey × α)) : Except Unresolved (List α) :=
  release.owned.mapM (resolveKey release.name index)

theorem get?_add (found : List (ResourceKey × α)) (key k : ResourceKey) (x : α) :
    get? (add found key x) k = (get? found k).or (if k = key then some x else none) := by
  unfold add
  split
  · next h =>
    obtain ⟨y, hy⟩ := Option.isSome_iff_exists.1 h
    by_cases hk : k = key
    · subst hk
      simp [hy]
    · simp [hk]
  · rw [get?, List.lookup_append, List.lookup_cons, List.lookup_nil, get?]
    by_cases hk : k = key
    · simp [hk]
    · simp [hk, beq_eq_false_iff_ne.2 hk]

theorem get?_addAll (keys : List ResourceKey) (found : List (ResourceKey × α)) (k : ResourceKey)
    (x : α) :
    get? (keys.foldl (fun found key => add found key x) found) k =
      (get? found k).or (if k ∈ keys then some x else none) := by
  induction keys generalizing found with
  | nil => simp
  | cons key rest ih =>
    rw [List.foldl_cons, ih, get?_add]
    by_cases hk : k = key <;> by_cases hr : k ∈ rest <;> simp [hk, hr]

/-- The index leads from a key to the first definition that serves it. -/
theorem get?_index (keysOf : α → List ResourceKey) (xs : List α) (k : ResourceKey) :
    get? (index keysOf xs) k = xs.find? fun x => k ∈ keysOf x := by
  suffices h : ∀ found : List (ResourceKey × α),
      get? (xs.foldl (fun found x => (keysOf x).foldl (fun found key => add found key x) found)
        found) k = (get? found k).or (xs.find? fun x => k ∈ keysOf x) by
    exact (h []).trans (by simp [get?])
  induction xs with
  | nil => simp
  | cons x rest ih =>
    intro found
    rw [List.foldl_cons, ih, get?_addAll, List.find?_cons]
    by_cases hk : k ∈ keysOf x <;> simp [hk]

/-- What keys resolve to depends on the first of them that leads nowhere. -/
theorem mapM_resolveKey (name : String) (index : List (ResourceKey × α))
    (keys : List ResourceKey) :
    keys.mapM (resolveKey name index) =
      match keys.find? fun k => (get? index k).isNone with
      | some key => .error ⟨key, name⟩
      | none => .ok (keys.filterMap (get? index)) := by
  induction keys with
  | nil => rfl
  | cons key rest ih =>
    rw [List.mapM_cons, ih, List.find?_cons, resolveKey]
    cases hk : get? index key with
    | none => rfl
    | some x =>
      cases hr : rest.find? fun k => (get? index k).isNone with
      | none => simp [bind, Except.bind, pure, Except.pure, hk]
      | some k => rfl

/-- A release resolves to what its keys lead to when each of them leads somewhere. -/
theorem resolve_eq_ok_iff {release : Release} {index : List (ResourceKey × α)} {found : List α} :
    resolve release index = .ok found ↔
      (∀ k ∈ release.owned, (get? index k).isSome) ∧
        found = release.owned.filterMap (get? index) := by
  rw [resolve, mapM_resolveKey]
  cases h : release.owned.find? fun k => (get? index k).isNone with
  | some key =>
    simp only [reduceCtorEq, false_iff, not_and]
    intro hall
    have hn := List.find?_some h
    have hs := hall key (List.mem_of_find?_eq_some h)
    rw [Option.isNone_iff_eq_none] at hn
    rw [hn] at hs
    cases hs
  | none =>
    rw [List.find?_eq_none] at h
    simp only [Except.ok.injEq]
    refine ⟨fun he => ⟨fun k hk => ?_, he.symm⟩, fun hf => hf.2.symm⟩
    simpa [Option.isSome_iff_ne_none] using h k hk

/-- A release that does not resolve is stopped by the first of its keys that leads nowhere. -/
theorem resolve_eq_error_iff {release : Release} {index : List (ResourceKey × α)}
    {u : Unresolved} :
    resolve release index = .error u ↔
      u.release = release.name ∧
        release.owned.find? (fun k => (get? index k).isNone) = some u.key := by
  obtain ⟨key, name⟩ := u
  rw [resolve, mapM_resolveKey]
  cases h : release.owned.find? fun k => (get? index k).isNone with
  | some k => simp [eq_comm, and_comm]
  | none => simp

end Resolution

end RegistryTree
