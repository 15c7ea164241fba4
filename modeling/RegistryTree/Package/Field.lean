import RegistryTree.Text.Blank
import RegistryTree.Value

/-!
# Fields of documents

The parts of a document that are looked at: texts that must hold something, texts that may be left
out, and mappings and lists that count as empty when they are left out. A field that is left out and
one that holds nothing are alike. Every fault names the field by its way down from the document.

> `requiredText_ok_iff`: a required text is a text with a character that is not blank, and counts
> without the white space around it.
-/

namespace RegistryTree

open RegistryTree.Text

/-- What is wrong with a field of a document; `field` is the way to it and `got` the type of what
stands there. -/
inductive FieldFault where
  | notText (field got : String)
  | blank (field : String)
  | notMapping (field got : String)
  | notList (field got : String)
  /-- A definition serves no version at all. -/
  | noVersion (definition : String)
  deriving DecidableEq, Repr

/-- The words a fault is reported with. -/
def FieldFault.message : FieldFault → String
  | .notText field got => field ++ ": expected str, got " ++ got
  | .blank field => field ++ ": must be a non-empty string"
  | .notMapping field got => field ++ ": expected mapping, got " ++ got
  | .notList field got => field ++ ": expected list, got " ++ got
  | .noVersion definition => definition ++ ": spec.version or spec.versions is required"

namespace Field

/-- The place of an item of a list. -/
def item (field : String) (i : Nat) : String := field ++ "[" ++ toString i ++ "]"

/-- A text that must hold a character that is not blank. -/
def requiredText (field : String) (value : Option Value) : Except FieldFault String :=
  match value with
  | some (.text s) => if trim s = "" then .error (.blank field) else .ok (trim s)
  | some v => .error (.notText field v.typeName)
  | none => .error (.notText field Value.null.typeName)

/-- A text that may be left out; one of white space alone counts as left out. -/
def optionalText (field : String) (value : Option Value) : Except FieldFault (Option String) :=
  match value with
  | none | some .null => .ok none
  | some (.text s) => .ok (if trim s = "" then none else some (trim s))
  | some v => .error (.notText field v.typeName)

/-- The entries of a value that must be a mapping. -/
def asMapping (field : String) (value : Value) : Except FieldFault Entries :=
  match value with
  | .mapping _ entries => .ok entries
  | v => .error (.notMapping field v.typeName)

/-- The entries of a mapping that may be left out. -/
def mapping (field : String) (value : Option Value) : Except FieldFault Entries :=
  match value with
  | none | some .null => .ok []
  | some v => asMapping field v

/-- The items of a list that may be left out. -/
def list (field : String) (value : Option Value) : Except FieldFault (List Value) :=
  match value with
  | none | some .null => .ok []
  | some (.list _ items) => .ok items
  | some v => .error (.notList field v.typeName)

/-- The name of a document of the given kind. -/
def metadataName (kind : String) (document : Entries) : Except FieldFault String := do
  let metadata ← mapping (kind ++ ".metadata") (Entries.get? document "metadata")
  requiredText (kind ++ ".metadata.name") (Entries.get? metadata "name")

theorem requiredText_ok_iff {field s : String} {value : Option Value} :
    requiredText field value = .ok s ↔
      ∃ t, value = some (.text t) ∧ trim t = s ∧ s ≠ "" := by
  unfold requiredText
  split
  · next t =>
    by_cases h : trim t = ""
    · simp only [h, if_true, reduceCtorEq, false_iff]
      rintro ⟨u, hu, rfl, hne⟩
      cases hu
      exact hne h
    · simp only [h, if_false, Except.ok.injEq]
      constructor
      · rintro rfl
        exact ⟨t, rfl, rfl, h⟩
      · rintro ⟨u, hu, rfl, -⟩
        cases hu
        rfl
  · next v hv =>
    simp only [reduceCtorEq, false_iff]
    rintro ⟨u, hu, -, -⟩
    exact hv u (Option.some.inj hu)
  · simp

end Field

end RegistryTree
