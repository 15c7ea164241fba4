import RegistryTree.Proofs.Catalog.Assembly
import RegistryTree.Proofs.Failure

/-!
# How metadata are refused

Once the texts of its sections have been read, metadata are refused for what they are like, and for
nothing else: a section that is no list, a document with a field that is missing or of another type,
two releases of one name, two packages of one identifier, or a channel whose head is unknown.

> `assemble_errorsIn`, `assembleAll_failure`: a descriptor of which no package is made is refused.
-/

namespace RegistryTree

/-- Whether a failure tells that metadata, or documents in them, are not as they should be. -/
def Failure.IsRefusal : Failure → Prop
  | .catalog _ | .field _ => True
  | _ => False

namespace Catalog

theorem sectionItems_errorsIn (place : String) (v : Value) :
    ErrorsIn Failure.IsRefusal (sectionItems place v) := by
  unfold sectionItems
  split
  next => exact .of_ok _
  next => exact .of_ok _
  next => exact .of_error trivial

theorem requireDistinct_errorsIn (place : String) (seen : List String) (releases : List Release) :
    ErrorsIn Failure.IsRefusal (requireDistinct place seen releases) := by
  induction releases generalizing seen with
  | nil => exact .of_ok ()
  | cons r rest ih =>
    rw [requireDistinct]
    split
    next => exact .of_error trivial
    next => exact ih _

theorem assemble_errorsIn (c : Catalog) (taken : List String) (descriptor : Value) :
    ErrorsIn Failure.IsRefusal (c.assemble taken descriptor) := by
  refine .bind (.mapError fun _ _ => trivial) fun shell => ?_
  split
  next => exact .of_error trivial
  next =>
    refine .bind (.mapError fun _ _ => trivial) fun channels => .bind ?_ fun _ => .of_ok _
    intro e he
    rcases reachable_cases c.releases shell.id channels with
      ⟨names, hnames, -⟩ | ⟨channel, head, -, -, herror⟩
    · rw [hnames] at he
      cases he
    · rw [herror] at he
      cases he
      exact trivial

theorem assembleAll_failure {c : Catalog} {descriptors : List Value} {made left : List Package}
    {e : Failure} (h : c.assembleAll made descriptors = (left, some e)) : e.IsRefusal := by
  induction descriptors generalizing made with
  | nil => cases h
  | cons d rest ih =>
    rw [assembleAll] at h
    split at h
    next => exact ih h
    next e' he =>
      cases h
      exact assemble_errorsIn c _ d e he

end Catalog

end RegistryTree
