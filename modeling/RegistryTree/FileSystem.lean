/-!
# File systems

A file system is what stands at each of its places, and the place that relative paths start from. A
place is the list of names that lead to it from the top, through no link. Entries are kept in the
order in which a directory lists them.

Operations are described by what `get?` gives afterwards.

> `get?_put`, `get?_eraseBelow`, `get?_eraseWithin`: what stands where after an entry was put, removed
> with all that is below it, or emptied.
-/

namespace RegistryTree

/-- What stands at a place. -/
inductive Entry where
  | directory (mode : Nat)
  | file (mode : Nat) (content : List UInt8)
  | link (target : String)
  deriving DecidableEq, Repr

/-- The names that lead to a place from the top. -/
abbrev Place := List String

/-- A file system. -/
structure FileSystem where
  entries : List (Place × Entry)
  current : Place
  deriving DecidableEq, Repr

/-- Whether an entry is a directory. -/
def Entry.isDirectory : Entry → Bool
  | directory _ => true
  | _ => false

namespace FileSystem

/-- The permissions of the directory at the top. -/
def topMode : Nat := 0o755

/-- What stands at a place. -/
def get? (files : FileSystem) (place : Place) : Option Entry :=
  if place = [] then some (.directory topMode)
  else (files.entries.find? fun e => e.1 = place).map (·.2)

/-- The file system with an entry at a place, in place of any that was there. -/
def put (files : FileSystem) (place : Place) (entry : Entry) : FileSystem :=
  { files with entries := files.entries.filter (·.1 ≠ place) ++ [(place, entry)] }

/-- The file system without the entry at a place. -/
def erase (files : FileSystem) (place : Place) : FileSystem :=
  { files with entries := files.entries.filter (·.1 ≠ place) }

/-- The file system without the entry at a place and all entries below it. -/
def eraseBelow (files : FileSystem) (place : Place) : FileSystem :=
  { files with entries := files.entries.filter fun e => !place.isPrefixOf e.1 }

/-- The file system without the entries below a place; what stands at the place stays. -/
def eraseWithin (files : FileSystem) (place : Place) : FileSystem :=
  { files with entries := files.entries.filter fun e => !(place.isPrefixOf e.1 && e.1 ≠ place) }

/-- The names of the entries of a directory, as it lists them. -/
def names (files : FileSystem) (place : Place) : List String :=
  files.entries.filterMap fun e =>
    if e.1 ≠ [] ∧ e.1.dropLast = place then e.1.getLast? else none

@[simp] theorem get?_top (files : FileSystem) : files.get? [] = some (.directory topMode) := rfl

theorem find?_filter_ne (entries : List (Place × Entry)) {p q : Place} (h : p ≠ q) :
    (entries.filter (·.1 ≠ p)).find? (·.1 = q) = entries.find? (·.1 = q) := by
  rw [List.find?_filter]
  congr 1
  funext e
  by_cases he : e.1 = q
  · simp [he, Ne.symm h]
  · simp [he]

theorem find?_filter_self (entries : List (Place × Entry)) (p : Place) :
    (entries.filter (·.1 ≠ p)).find? (·.1 = p) = none := by
  rw [List.find?_eq_none]
  intro e he
  simpa using (List.mem_filter.1 he).2

theorem get?_put (files : FileSystem) {p : Place} (q : Place) (entry : Entry) (hp : p ≠ []) :
    (files.put p entry).get? q = if q = p then some entry else files.get? q := by
  unfold get? put
  by_cases hq : q = []
  · simp [hq, Ne.symm hp]
  · by_cases h : q = p
    · subst h
      simp only [hq, if_false, if_true, List.find?_append, find?_filter_self]
      simp
    · simp only [hq, h, if_false, List.find?_append, find?_filter_ne _ (Ne.symm h)]
      simp [Ne.symm h]

theorem get?_eraseBelow (files : FileSystem) {p : Place} (q : Place) (hp : p ≠ []) :
    (files.eraseBelow p).get? q = if p <+: q then none else files.get? q := by
  unfold get? eraseBelow
  by_cases hq : q = []
  · have : ¬ p <+: q := by
      rw [hq, List.prefix_nil]
      exact hp
    simp [hq, List.prefix_nil, hp]
  · by_cases h : p <+: q
    · simp only [hq, h, if_false, if_true, Option.map_eq_none_iff, List.find?_eq_none]
      intro e he
      have hn := (List.mem_filter.1 he).2
      simp only [Bool.not_eq_true', ← Bool.not_eq_true, List.isPrefixOf_iff_prefix] at hn
      simp only [decide_eq_true_eq]
      exact fun e' => hn (e' ▸ h)
    · simp only [hq, h, if_false, List.find?_filter]
      congr 2
      funext e
      by_cases he : e.1 = q
      · have : p.isPrefixOf q = false := by
          rw [← Bool.not_eq_true, List.isPrefixOf_iff_prefix]
          exact h
        simp [he, this]
      · simp [he]

theorem get?_eraseWithin (files : FileSystem) (p q : Place) :
    (files.eraseWithin p).get? q = if p <+: q ∧ q ≠ p then none else files.get? q := by
  unfold get? eraseWithin
  by_cases h : p <+: q ∧ q ≠ p
  · have hq : q ≠ [] := by
      intro he
      subst he
      exact h.2 (List.prefix_nil.1 h.1).symm
    rw [if_pos h, if_neg hq, Option.map_eq_none_iff, List.find?_eq_none]
    intro e he heq
    have hn := (List.mem_filter.1 he).2
    rw [decide_eq_true_eq] at heq
    rw [heq, List.isPrefixOf_iff_prefix.2 h.1] at hn
    simp [h.2] at hn
  · rw [if_neg h, List.find?_filter]
    congr 3
    funext e
    by_cases he : e.1 = q
    · have hkept : (p.isPrefixOf q && decide (q ≠ p)) = false := by
        rw [← Bool.not_eq_true, Bool.and_eq_true, List.isPrefixOf_iff_prefix, decide_eq_true_eq]
        exact h
      rw [he, hkept]
      simp
    · simp [he]

end FileSystem

end RegistryTree
