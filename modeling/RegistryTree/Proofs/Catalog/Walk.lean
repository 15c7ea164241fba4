import Mathlib.Logic.Relation
import RegistryTree.Catalog

/-!
# Following what releases replace

From the head of a channel a walk goes on to the release that is replaced, and from there to the one
that this replaces. It ends where nothing is replaced, where there is no release of the name, and
where it comes to a name that was met before, on this walk or on one from another head. So a walk
ends also when releases replace each other in a circle.

`Walk` has a rule for each of these ends and one for a step. A step meets a name that was not met
before, and so no walk is longer than the list of releases: the number of steps that `follow` is
given is never used up.

> `walk_iff`: every walk ends, and leaves what `follow` gives.
> `Walk.followed`: when a walk has ended, nothing leads out of the names that have been met, provided
> that nothing but its start led out of them before.
> `Walk.origin`: a walk meets no name but those that its start leads to.
-/

namespace RegistryTree.Catalog

variable {releases : List Release} {found left : List String} {next : Option String}

/-- Whether there is a release of a name. -/
def Known (releases : List Release) (name : String) : Prop := (release? releases name).isSome = true

/-- Whether the release of a name replaces one that there is. -/
def Replaces (releases : List Release) (name next : String) : Prop :=
  ∃ r, release? releases name = some r ∧ r.replaces = some next ∧ Known releases next

theorem release?_eq_some {name : String} {r : Release} (h : release? releases name = some r) :
    r ∈ releases ∧ r.name = name := by
  refine ⟨List.mem_of_find?_eq_some h, ?_⟩
  simpa using List.find?_some h

theorem known_of_eq_some {name : String} {r : Release} (h : release? releases name = some r) :
    Known releases name := by
  rw [Known, h]
  rfl

theorem Replaces.known {name next : String} (h : Replaces releases name next) :
    Known releases next := by
  obtain ⟨_, _, _, hknown⟩ := h
  exact hknown

/-- A walk from a name, or from none, when some names have been met before, and the names that have
been met at its end. -/
inductive Walk (releases : List Release) : List String → Option String → List String → Prop where
  /-- The last release replaces nothing. -/
  | ended {found : List String} : Walk releases found none found
  /-- There is no release of the name. -/
  | unknown {found : List String} {name : String} (h : release? releases name = none) :
      Walk releases found (some name) found
  /-- The name was met before. -/
  | met {found : List String} {name : String} (h : name ∈ found) :
      Walk releases found (some name) found
  /-- The name is met, and the walk goes on with what the release replaces. -/
  | step {found left : List String} {name : String} {r : Release}
      (hr : release? releases name = some r) (hnew : name ∉ found)
      (h : Walk releases (found ++ [name]) r.replaces left) : Walk releases found (some name) left

/-! ## Every walk ends -/

/-- The releases whose names have not been met. -/
def unmet (releases : List Release) (found : List String) : List Release :=
  releases.filter (·.name ∉ found)

/-- A release that is met is one less that has not been met. -/
theorem length_unmet_lt {name : String} {r : Release} (hr : release? releases name = some r)
    (hnew : name ∉ found) :
    (unmet releases (found ++ [name])).length < (unmet releases found).length := by
  obtain ⟨hmem, hname⟩ := release?_eq_some hr
  have hfilter : unmet releases (found ++ [name]) =
      (unmet releases found).filter (·.name ≠ name) := by
    rw [unmet, unmet, List.filter_filter]
    refine List.filter_congr fun r' _ => ?_
    simp [and_comm]
  rw [hfilter]
  refine List.length_filter_lt_length_iff_exists.2 ⟨r, ?_, by simpa using hname⟩
  exact List.mem_filter.2 ⟨hmem, by simpa [hname] using hnew⟩

/-- What `follow` gives is what a walk leaves, if it may meet all that has not been met. -/
theorem walk_follow {fuel : Nat} (h : (unmet releases found).length ≤ fuel) :
    Walk releases found next (follow releases fuel found next) := by
  induction fuel generalizing found next with
  | zero =>
    -- all names have been met, and so the walk ends where it begins
    have hall : ∀ r ∈ releases, r.name ∈ found := by
      have hnone := List.filter_eq_nil_iff.1 (List.length_eq_zero_iff.1 (Nat.le_zero.1 h))
      intro r hr
      simpa using hnone r hr
    rw [follow]
    cases next with
    | none => exact .ended
    | some name =>
      cases hr : release? releases name with
      | none => exact .unknown hr
      | some r =>
        obtain ⟨hmem, hname⟩ := release?_eq_some hr
        exact .met (hname ▸ hall r hmem)
  | succ fuel ih =>
    cases next with
    | none => exact .ended
    | some name =>
      rw [follow]
      cases hr : release? releases name with
      | none => exact .unknown hr
      | some r =>
        by_cases hmet : name ∈ found
        · simp only [if_pos hmet]
          exact .met hmet
        · simp only [if_neg hmet]
          refine .step hr hmet (ih ?_)
          have hless := length_unmet_lt hr hmet
          omega

/-- Where a walk comes to does not depend on how it is told. -/
theorem Walk.unique {left' : List String} (h : Walk releases found next left)
    (h' : Walk releases found next left') : left = left' := by
  induction h with
  | ended =>
    cases h'
    rfl
  | unknown hnone =>
    -- Two rules may apply to one name, an unknown one and one met before, and both stop there.
    cases h' with
    | unknown => rfl
    | met => rfl
    | step hr => rw [hnone] at hr; cases hr
  | met hmet =>
    cases h' with
    | unknown => rfl
    | met => rfl
    | step _ hnew => exact absurd hmet hnew
  | step hr hnew _ ih =>
    cases h' with
    | unknown hnone => rw [hnone] at hr; cases hr
    | met hmet => exact absurd hmet hnew
    | step hr' _ hrest =>
      rw [hr] at hr'
      cases hr'
      exact ih hrest

/-- Every walk ends, whatever replaces what, and leaves what `follow` gives. -/
theorem walk_iff :
    Walk releases found next left ↔ left = follow releases releases.length found next := by
  have hwalk : Walk releases found next (follow releases releases.length found next) :=
    walk_follow (List.length_filter_le ..)
  constructor
  · intro h
    exact h.unique hwalk
  · rintro rfl
    exact hwalk

/-! ## What a walk meets -/

/-- Names that have been met are those of releases, and nothing leads out of them but to where the
walk goes on. -/
structure Followed (releases : List Release) (found : List String) (next : Option String) : Prop where
  known : ∀ name ∈ found, Known releases name
  closed : ∀ name ∈ found, ∀ target, Replaces releases name target →
    target ∈ found ∨ next = some target

namespace Walk

theorem subset (h : Walk releases found next left) : found ⊆ left := by
  induction h with
  | step _ _ _ ih => exact fun name hname => ih (List.mem_append_left _ hname)
  | _ => exact List.Subset.refl _

/-- The start of a walk is met. -/
theorem start_mem {start : String} (h : Walk releases found (some start) left)
    (hknown : Known releases start) : start ∈ left := by
  cases h with
  | unknown hnone =>
    rw [Known, hnone] at hknown
    cases hknown
  | met hmet => exact hmet
  | step _ _ hrest => exact hrest.subset (by simp)

/-- When a walk has ended, nothing leads out of what has been met. -/
theorem followed (h : Walk releases found next left) (hfound : Followed releases found next) :
    Followed releases left none := by
  induction h with
  | ended => exact hfound
  | unknown hnone =>
    refine ⟨hfound.known, fun name hname target htarget => ?_⟩
    rcases hfound.closed name hname target htarget with hin | heq
    · exact Or.inl hin
    · -- a release that is replaced is known
      cases heq
      have hknown := htarget.known
      rw [Known, hnone] at hknown
      cases hknown
  | met hmet =>
    refine ⟨hfound.known, fun name hname target htarget => ?_⟩
    rcases hfound.closed name hname target htarget with hin | heq
    · exact Or.inl hin
    · cases heq
      exact Or.inl hmet
  | @step found left start r hr _ _ ih =>
    refine ih ⟨fun name hname => ?_, fun name hname target htarget => ?_⟩
    · rcases List.mem_append.1 hname with hold | hlast
      · exact hfound.known name hold
      · cases List.mem_singleton.1 hlast
        exact known_of_eq_some hr
    · rcases List.mem_append.1 hname with hold | hlast
      · -- what led out of the names before led to the one that is met now
        rcases hfound.closed name hold target htarget with hin | heq
        · exact Or.inl (List.mem_append_left _ hin)
        · cases heq
          exact Or.inl (by simp)
      · cases List.mem_singleton.1 hlast
        obtain ⟨r', hr', hreplaces, -⟩ := htarget
        rw [hr] at hr'
        cases hr'
        exact Or.inr hreplaces

/-- A walk meets no name but those that its start leads to. -/
theorem origin (h : Walk releases found next left) :
    ∀ name ∈ left, name ∈ found ∨
      ∃ start, next = some start ∧ Relation.ReflTransGen (Replaces releases) start name := by
  induction h with
  | @step found left start r hr _ hrest ih =>
    intro name hname
    have hhere : name ∈ found ++ [start] → name ∈ found ∨
        ∃ start', some start = some start' ∧
          Relation.ReflTransGen (Replaces releases) start' name := by
      intro hin
      rcases List.mem_append.1 hin with hold | hlast
      · exact Or.inl hold
      · cases List.mem_singleton.1 hlast
        exact Or.inr ⟨start, rfl, .refl⟩
    rcases ih name hname with hin | ⟨target, hreplaces, hleads⟩
    · exact hhere hin
    · by_cases hknown : Known releases target
      · exact Or.inr ⟨start, rfl, .head ⟨r, hr, hreplaces, hknown⟩ hleads⟩
      · -- a walk goes no further than a name without a release
        rw [hreplaces] at hrest
        cases hrest with
        | unknown => exact hhere hname
        | met => exact hhere hname
        | step hr' => exact absurd (known_of_eq_some hr') hknown
  | _ => exact fun name hname => Or.inl hname

end Walk

end RegistryTree.Catalog
