import RegistryTree.Package.Field
import RegistryTree.Package.Key

/-!
# Definitions

A definition document names the group and the kind of the objects that it defines and the versions
in which it serves them: one version, a list of versions, or both. The definition has a key for
every version that it serves, the single version first and none of them twice.

> `Definition.nodup_keys`: no key occurs twice.
-/

namespace RegistryTree

/-- A definition, with the document that it was read from. -/
structure Definition where
  document : Entries
  name : String
  group : String
  kind : String
  versions : List String
  versions_ne_nil : versions ≠ []
  nodup_versions : versions.Nodup

namespace Definition

/-- Elements in order, each once, where it occurs first. -/
def distinct (xs : List String) : List String :=
  xs.foldl (fun kept x => if x ∈ kept then kept else kept ++ [x]) []

theorem nodup_distinct (xs : List String) : (distinct xs).Nodup := by
  suffices h : ∀ kept : List String, kept.Nodup →
      (xs.foldl (fun kept x => if x ∈ kept then kept else kept ++ [x]) kept).Nodup from
    h [] List.nodup_nil
  induction xs with
  | nil => exact fun _ h => h
  | cons x rest ih =>
    intro kept h
    rw [List.foldl_cons]
    refine ih _ ?_
    split
    · exact h
    · next hx =>
      rw [List.nodup_append]
      refine ⟨h, by simp, ?_⟩
      intro a ha b hb hab
      rw [List.mem_singleton] at hb
      exact hx (hb ▸ hab ▸ ha)

/-- The versions of the list in a definition, and where they stand. -/
def listedVersions (field : String) (items : List Value) : Except FieldFault (List String) :=
  items.zipIdx.mapM fun (v, i) => do
    let entries ← Field.asMapping (Field.item field i) v
    Field.requiredText (Field.item field i ++ ".name") (Entries.get? entries "name")

/-- Takes a definition from a document. -/
def ofDocument (value : Value) : Except FieldFault Definition := do
  let document ← Field.asMapping "crd" value
  let name ← Field.metadataName "crd" document
  let here := "crd " ++ name
  let spec ← Field.mapping (here ++ ".spec") (Entries.get? document "spec")
  let group ← Field.requiredText (here ++ ".spec.group") (Entries.get? spec "group")
  let names ← Field.mapping (here ++ ".spec.names") (Entries.get? spec "names")
  let kind ← Field.requiredText (here ++ ".spec.names.kind") (Entries.get? names "kind")
  let single ← Field.optionalText (here ++ ".spec.version") (Entries.get? spec "version")
  let items ← Field.list (here ++ ".spec.versions") (Entries.get? spec "versions")
  let listed ← listedVersions (here ++ ".spec.versions") items
  let versions := distinct (single.toList ++ listed)
  if h : versions = [] then .error (.noVersion here)
  else .ok ⟨document, name, group, kind, versions, h, nodup_distinct _⟩

/-- The keys that a definition serves. -/
def keys (d : Definition) : List ResourceKey := d.versions.map fun v => ⟨d.group, v, d.kind⟩

/-- The first key that a definition serves. -/
def key (d : Definition) : ResourceKey := ⟨d.group, d.versions.head d.versions_ne_nil, d.kind⟩

/-- The document of a definition as a value. -/
def toValue (d : Definition) : Value := .checked .definition (.mapping none d.document)

theorem nodup_keys (d : Definition) : d.keys.Nodup := by
  refine List.Pairwise.map _ ?_ d.nodup_versions
  intro a b hab h
  exact hab (ResourceKey.mk.inj h).2.1

end Definition

end RegistryTree
