import RegistryTree.Value

/-!
# The order of keys

Texts are ordered by their characters, octet strings by their octets, numbers of all types by their
values, days and moments by time, and tuples by the first place where they differ. Values of
different kinds have no order, nor have two moments of which only one has a known offset. What
stands for no number is neither less nor more than any number, so that where it goes depends on how
the sorting is done.

`sortByKey?` puts entries into ascending order of their keys: it takes the run that they begin with
and puts each further entry into it at a place found by halving. It gives up when two keys that have
no order meet.

> `sortByKey?_perm`: sorting only changes the order of the entries.
-/

namespace RegistryTree.Value

mutual

/-- Whether the first value comes before the second, or `none` when they have no order. -/
def less? (a b : Value) : Option Bool :=
  match a, b with
  | text s, text t => some (s < t)
  | bytes s, bytes t => some (s < t)
  | date _ s, date _ t => some (s.ordinal < t.ordinal)
  | moment _ s, moment _ t =>
    if s.offset.isSome == t.offset.isSome then some (s.instant < t.instant) else none
  | tuple _ s, tuple _ t => lessItems? s t
  | list _ s, list _ t => lessItems? s t
  | a, b => do
    let x ← a.magnitude?
    let y ← b.magnitude?
    return x.less y

/-- Whether the first list of values comes before the second, by the first place where they
differ. -/
def lessItems? : List Value → List Value → Option Bool
  | [], [] => some false
  | [], _ :: _ => some true
  | _ :: _, [] => some false
  | a :: s, b :: t => if sameKey a b then lessItems? s t else less? a b

end

variable {α : Type}

/-- The entries at the front that go on with a run behind the given key, and the entries behind
them: a run up goes on while no key is less than the one before it, a run down while each is. -/
def runFrom? (down : Bool) (last : Value) :
    List (Value × α) → Option (List (Value × α) × List (Value × α))
  | [] => some ([], [])
  | e :: rest => do
    if (← less? e.1 last) = down then
      let (run, left) ← runFrom? down e.1 rest
      return (e :: run, left)
    else return ([], e :: rest)

/-- The run that entries begin with, in ascending order, and the entries behind it. -/
def firstRun? : List (Value × α) → Option (List (Value × α) × List (Value × α))
  | e :: f :: rest => do
    let down ← less? f.1 e.1
    let (more, left) ← runFrom? down f.1 rest
    return (if down then (e :: f :: more).reverse else e :: f :: more, left)
  | entries => some (entries, [])

/-- How many of the entries of a sorted list from `low` to before `high` a key goes behind, found by
halving: those whose keys are not greater. -/
def place? (key : Value) (sorted : List (Value × α)) (low high : Nat) : Option Nat :=
  if low < high then
    let middle := low + (high - low) / 2
    match sorted[middle]? with
    | none => none
    | some e =>
      match less? key e.1 with
      | none => none
      | some true => place? key sorted low middle
      | some false => place? key sorted (middle + 1) high
  else some low
termination_by high - low
decreasing_by all_goals omega

/-- Puts an entry into a sorted list, behind the entries whose keys are not greater. -/
def insertSorted? (e : Value × α) (sorted : List (Value × α)) : Option (List (Value × α)) :=
  (place? e.1 sorted 0 sorted.length).map fun n => sorted.take n ++ e :: sorted.drop n

/-- The entries in ascending order of their keys, or `none` when two keys have no order. The run
that the entries begin with is kept, and the others are put into it one by one. -/
def sortByKey? (entries : List (Value × α)) : Option (List (Value × α)) := do
  let (run, left) ← firstRun? entries
  left.foldlM (fun sorted e => insertSorted? e sorted) run

theorem runFrom?_append {down : Bool} : ∀ {entries run left : List (Value × α)} {last : Value},
    runFrom? down last entries = some (run, left) → run ++ left = entries
  | [], run, left, last, h => by
    cases h
    rfl
  | e :: rest, run, left, last, h => by
    rw [runFrom?] at h
    cases hl : less? e.1 last with
    | none => simp [hl] at h
    | some b =>
      simp only [hl, Option.bind_eq_bind, Option.bind_some] at h
      split at h
      · cases hr : runFrom? down e.1 rest with
        | none => simp [hr] at h
        | some r =>
          simp only [hr, Option.bind_some, Option.pure_def, Option.some.injEq,
            Prod.mk.injEq] at h
          obtain ⟨rfl, rfl⟩ := h
          rw [List.cons_append, runFrom?_append hr]
      · cases h
        rfl

theorem firstRun?_perm {entries run left : List (Value × α)}
    (h : firstRun? entries = some (run, left)) : (run ++ left).Perm entries := by
  unfold firstRun? at h
  split at h
  · next e f rest =>
    cases hd : less? f.1 e.1 with
    | none => simp [hd] at h
    | some down =>
      cases hr : runFrom? down f.1 rest with
      | none => simp [hd, hr] at h
      | some r =>
        simp only [hd, hr, Option.bind_eq_bind, Option.bind_some, Option.pure_def,
          Option.some.injEq, Prod.mk.injEq] at h
        obtain ⟨rfl, rfl⟩ := h
        have happ : (e :: f :: r.1) ++ r.2 = e :: f :: rest := by
          rw [List.cons_append, List.cons_append, runFrom?_append hr]
        cases down with
        | true =>
          rw [if_pos rfl, ← happ]
          exact (List.reverse_perm _).append_right _
        | false => rw [if_neg (by simp), happ]
  · cases h
    rw [List.append_nil]

theorem insertSorted?_perm {e : Value × α} {entries sorted : List (Value × α)}
    (h : insertSorted? e entries = some sorted) : sorted.Perm (e :: entries) := by
  obtain ⟨n, -, rfl⟩ := Option.map_eq_some_iff.1 h
  refine List.perm_middle.trans ?_
  rw [List.take_append_drop]

theorem foldlM_insertSorted?_perm {entries : List (Value × α)} :
    ∀ {start sorted : List (Value × α)},
      entries.foldlM (fun sorted e => insertSorted? e sorted) start = some sorted →
      sorted.Perm (start ++ entries) := by
  induction entries with
  | nil =>
    intro start sorted h
    cases h
    rw [List.append_nil]
  | cons e rest ih =>
    intro start sorted h
    rw [List.foldlM_cons] at h
    cases hi : insertSorted? e start with
    | none => simp [hi] at h
    | some next =>
      simp only [hi, Option.bind_eq_bind, Option.bind_some] at h
      exact ((ih h).trans ((insertSorted?_perm hi).append_right rest)).trans List.perm_middle.symm

theorem sortByKey?_perm {entries sorted : List (Value × α)} (h : sortByKey? entries = some sorted) :
    sorted.Perm entries := by
  rw [sortByKey?] at h
  cases hr : firstRun? entries with
  | none => simp [hr] at h
  | some r =>
    simp only [hr, Option.bind_eq_bind, Option.bind_some] at h
    exact (foldlM_insertSorted?_perm h).trans (firstRun?_perm hr)

end RegistryTree.Value
