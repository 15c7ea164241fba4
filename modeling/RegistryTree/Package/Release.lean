import RegistryTree.Package.Field
import RegistryTree.Package.Key

/-!
# Releases

A release document describes one version of an operator: its name, its version, the release that it
replaces, and the definitions that it owns and requires. The last two are lists of references; a
reference names a definition by its full name, whose part behind the first point is the group, and
by version and kind.

A release may lack its version. That shows only when the version is needed for a name of a
directory.

> `groupOf_append`: the group of a full name is what follows its first point.
-/

namespace RegistryTree

/-- A release, with the document that it was read from. -/
structure Release where
  document : Entries
  name : String
  version : Option String
  replaces : Option String
  owned : List ResourceKey
  required : List ResourceKey

namespace Release

/-- The part of a full name behind its first point. -/
def groupChars (name : List Char) : List Char := (name.dropWhile (· ≠ '.')).drop 1

/-- The group in the full name of a definition. -/
def groupOf (name : String) : String := String.ofList (groupChars name.toList)

/-- The key that a reference names. -/
def reference (field : String) (value : Value) : Except FieldFault ResourceKey := do
  let entries ← Field.asMapping field value
  let name ← Field.requiredText (field ++ ".name") (Entries.get? entries "name")
  let version ← Field.requiredText (field ++ ".version") (Entries.get? entries "version")
  let kind ← Field.requiredText (field ++ ".kind") (Entries.get? entries "kind")
  return ⟨groupOf name, version, kind⟩

/-- The keys that a list of references names. -/
def references (field : String) (items : List Value) : Except FieldFault (List ResourceKey) :=
  items.zipIdx.mapM fun (v, i) => reference (Field.item field i) v

/-- Takes a release from a document. -/
def ofDocument (value : Value) : Except FieldFault Release := do
  let document ← Field.asMapping "csv" value
  let name ← Field.metadataName "csv" document
  let here := "csv " ++ name
  let spec ← Field.mapping (here ++ ".spec") (Entries.get? document "spec")
  let inner := here ++ ".spec.customresourcedefinitions"
  let definitions ← Field.mapping inner (Entries.get? spec "customresourcedefinitions")
  let version ← Field.optionalText (here ++ ".spec.version") (Entries.get? spec "version")
  let replaces ← Field.optionalText (here ++ ".spec.replaces") (Entries.get? spec "replaces")
  let ownedItems ← Field.list (inner ++ ".owned") (Entries.get? definitions "owned")
  let owned ← references (inner ++ ".owned") ownedItems
  let requiredItems ← Field.list (inner ++ ".required") (Entries.get? definitions "required")
  let required ← references (inner ++ ".required") requiredItems
  return { document, name, version, replaces, owned, required }

/-- The document of a release as a value. -/
def toValue (r : Release) : Value := .checked .release (.mapping none r.document)

theorem groupChars_append {front rest : List Char} (h : '.' ∉ front) :
    groupChars (front ++ '.' :: rest) = rest := by
  have hd : (front ++ '.' :: rest).dropWhile (· ≠ '.') = '.' :: rest := by
    induction front with
    | nil => simp
    | cons c r ih =>
      simp only [List.mem_cons, not_or] at h
      rw [List.cons_append, List.dropWhile_cons, if_pos (by simpa using fun e => h.1 e.symm),
        ih h.2]
  rw [groupChars, hd]
  rfl

/-- The group of a full name is what follows its first point. -/
theorem groupOf_append {front : String} (rest : String) (h : '.' ∉ front.toList) :
    groupOf (front ++ "." ++ rest) = rest := by
  have : (front ++ "." ++ rest).toList = front.toList ++ '.' :: rest.toList := by simp
  rw [groupOf, this, groupChars_append h, String.ofList_toList]

end Release

end RegistryTree
