import RegistryTree.Proofs.CommandLine.Check
import RegistryTree.Proofs.Manifest.Sequence
import RegistryTree.Proofs.Text.Utf8

/-!
# Whether a bundle has all that its release owns

A release owns keys, and each of them leads to a definition. The file of a definition is named for the
definition and not for the key, and a file that is there is replaced. So of definitions with one name
the last that is written is there, and one before it is there only if it has the same text.

> `contains_iff`: which definitions have their text in a bundle.
> `create_contained`: when a package was written, a bundle has the definition of a key that its
> release owns exactly when it was not lost like this.
-/

namespace RegistryTree.Manifest

open FileSystem

/-- Whether a bundle has a file of a definition with the text of the given one. -/
def Contains (files : FileSystem) (bundle : Place) (d : Definition) : Prop :=
  ∃ name text, hasSuffix Layout.definitionSuffix name = true ∧ Yaml.render d.toValue = .ok text ∧
    files.get? (bundle ++ [name]) = some (.file Layout.fileMode (Text.encodeUtf8 text))

/-- Whether a release owns a definition with the text of the given one behind which there is no other
of the same name. -/
def Kept (package : Package) (r : Release) (d : Definition) : Prop :=
  ∃ e, heldDefinition package r e.name = some e ∧ Yaml.render e.toValue = Yaml.render d.toValue

section

variable {package : Package} {registry : Path} {r : Release} {d : Definition}

/-- The definition that a key leads to is one that its release owns. -/
theorem mem_ownedDefinitions {k : ResourceKey} (hk : k ∈ r.owned)
    (h : Resolution.get? (indexOf package) k = some d) : d ∈ ownedDefinitions package r := by
  rw [indexOf, Resolution.get?_index] at h
  exact List.mem_filterMap.2 ⟨k, hk, h⟩

/-- Under the name of a definition that a release owns its bundle holds one. -/
theorem exists_heldDefinition (h : d ∈ ownedDefinitions package r) :
    ∃ e, heldDefinition package r d.name = some e := by
  rw [← Option.isSome_iff_exists, heldDefinition, List.isSome_find?, List.any_eq_true]
  exact ⟨d, List.mem_reverse.2 h, by simp⟩

/-- Where definitions with one name have one text, none is lost. -/
theorem kept_of_owned (h : d ∈ ownedDefinitions package r)
    (hsame : ∀ e ∈ ownedDefinitions package r, e.name = d.name →
      Yaml.render e.toValue = Yaml.render d.toValue) : Kept package r d := by
  obtain ⟨e, he⟩ := exists_heldDefinition h
  obtain ⟨howned, hname⟩ := heldDefinition_mem he
  rw [← hname] at he
  exact ⟨e, he, hsame e howned hname⟩

/-- A bundle has the text of a definition exactly when the definition is kept. -/
theorem contains_iff {files : FileSystem} {place : Place}
    (hfiles : ∀ name, files.get? (place ++ [name]) = fileOf package r name)
    (hrenders : ∀ e ∈ ownedDefinitions package r, ∃ text, Yaml.render e.toValue = .ok text) :
    Contains files place d ↔ Kept package r d := by
  constructor
  · intro h
    obtain ⟨name, text, hsuffix, htext, hfile⟩ := h
    rw [hfiles] at hfile
    rcases fileOf_ne_none (by rw [hfile]; exact Option.some_ne_none _) with rfl | ⟨e, he, rfl⟩
    · rw [(hasSuffix_releaseName r).2] at hsuffix
      cases hsuffix
    -- The file holds the definition that comes last among those of its name, and two texts with the
    -- same octets are one.
    · obtain ⟨text', htext'⟩ := hrenders e (heldDefinition_mem he).1
      rw [definitionName, fileOf_definition, he, Option.map_some, documentOf, htext'] at hfile
      have hoctets : Text.encodeUtf8 text' = Text.encodeUtf8 text := by
        injection hfile with hentry
        injection hentry
      refine ⟨e, he, ?_⟩
      rw [htext', htext, Text.encodeUtf8_injective hoctets]
  · intro h
    obtain ⟨e, he, hsame⟩ := h
    obtain ⟨text, htext⟩ := hrenders e (heldDefinition_mem he).1
    refine ⟨definitionName e, text, (hasSuffix_definitionName e).1, hsame.symm.trans htext, ?_⟩
    rw [hfiles, definitionName, fileOf_definition, he, Option.map_some, documentOf, htext]
    rfl

end

/-- When a package was written, every key that a release owns leads to a definition, and the bundle of
the release has the text of this definition exactly when it was not lost to another of the same name.
When definitions with one name have one text, none is lost. -/
theorem create_contained {package : Package} {registry : Path} {m : Manifest} {w : Workspace}
    (ht : w.files.IsRegular) (hm : Remembers package registry m)
    (hcreate : (m.create w).1.2 = .ok ()) :
    ∃ directory, w.files.LeadsTo registry directory ∧ ∀ r ∈ package.releases,
      ∃ version, r.version = some version ∧
        (∀ k ∈ r.owned, ∃ d, Resolution.get? (indexOf package) k = some d ∧
          (Contains (m.create w).2.files (directory ++ [package.id, version]) d ↔
            Kept package r d)) ∧
        ((∀ d ∈ ownedDefinitions package r, ∀ e ∈ ownedDefinitions package r, e.name = d.name →
            Yaml.render e.toValue = Yaml.render d.toValue) →
          ∀ k ∈ r.owned, ∃ d, Resolution.get? (indexOf package) k = some d ∧
            Contains (m.create w).2.files (directory ++ [package.id, version]) d) := by
  rw [(hm.create_eq w).1] at hcreate
  rw [(hm.create_eq w).2]
  have hc := created_of_regular package registry ht
  rw [hcreate] at hc
  generalize ((Manifest.new package registry).create w).2.files = after at hc ⊢
  generalize hresult : (Except.ok () : Except Failure Unit) = result at hc
  cases hc with
  | finished directory hr hrec hall =>
    refine ⟨directory, hr.leads, fun r hmem => ?_⟩
    obtain ⟨version, hb⟩ := hall.bundled r hmem
    have hcontains : ∀ d, Contains (w.files.putAll (directory ++ [package.id]) (entries package))
        (directory ++ [package.id, version]) d ↔ Kept package r d := by
      intro d
      refine contains_iff (fun name => ?_) fun e he => (hb.definitions e he).2.renders
      have hplace : directory ++ [package.id, version] ++ [name] =
          directory ++ [package.id] ++ [version, name] := by simp
      rw [hplace, ht.get?_putAll_eq hr.free, standing_entries hall.fresh,
        treeOf_file hall.fresh hmem hb.named]
    have hresolved : ∀ k ∈ r.owned, ∃ d, Resolution.get? (indexOf package) k = some d := by
      intro k hk
      rw [← Option.isSome_iff_exists, isSome_get?_indexOf]
      exact hb.served k hk
    refine ⟨version, hb.named, fun k hk => ?_, fun hsame k hk => ?_⟩
    · obtain ⟨d, hd⟩ := hresolved k hk
      exact ⟨d, hd, hcontains d⟩
    · obtain ⟨d, hd⟩ := hresolved k hk
      have howned := mem_ownedDefinitions hk hd
      exact ⟨d, hd, (hcontains d).2 (kept_of_owned howned (hsame d howned))⟩
  | _ => cases hresult

open CommandLine

/-- The key of widgets in one version. -/
def widgetKey (version : String) : ResourceKey := ⟨"demo.io", version, "Widget"⟩

/-- The text of a definition that serves widgets in one version. -/
def widgetText (version : String) : List Char :=
  ("metadata:\n  name: widgets.demo.io\nspec:\n  group: demo.io\n  names:\n    kind: Widget\n" ++
    "  version: " ++ version ++ "\n").toList

/-- What was written of the widgets. -/
def widgetFiles : FileSystem :=
  ((Manifest.new widgetPackage (.ofText "reg")).create ⟨emptyRegistry, []⟩).2.files

/-- Of the definitions of widgets, which have one name, that of the second version is kept. -/
theorem kept_widgets {r : Release} (hr : r ∈ widgetPackage.releases) {d : Definition} :
    Kept widgetPackage r d ↔ Yaml.render d.toValue = .ok (widgetText "v2") := by
  have hnames : ∀ r ∈ widgetPackage.releases, ∀ e ∈ ownedDefinitions widgetPackage r,
      e.name = "widgets.demo.io" := by decide +kernel
  have hheld : ∀ r ∈ widgetPackage.releases,
      (heldDefinition widgetPackage r "widgets.demo.io").map (fun e => Yaml.render e.toValue) =
        some (.ok (widgetText "v2")) := by decide +kernel
  obtain ⟨last, hlast, htext⟩ := Option.map_eq_some_iff.1 (hheld r hr)
  obtain ⟨-, hname⟩ := heldDefinition_mem hlast
  constructor
  · intro h
    obtain ⟨e, he, hsame⟩ := h
    rw [hnames r hr e (heldDefinition_mem he).1, hlast] at he
    cases he
    exact hsame.symm.trans htext
  · intro h
    rw [← hname] at hlast
    exact ⟨last, hlast, htext.trans h.symm⟩

/-- Of two definitions with one name that a release owns, its bundle has the last. -/
theorem create_contained_widgets :
    ((Manifest.new widgetPackage (.ofText "reg")).create ⟨emptyRegistry, []⟩).1.2 = .ok () ∧
    ∃ r ∈ widgetPackage.releases, widgetKey "v1" ∈ r.owned ∧ widgetKey "v2" ∈ r.owned ∧
    ∃ lost kept, Resolution.get? (indexOf widgetPackage) (widgetKey "v1") = some lost ∧
      Resolution.get? (indexOf widgetPackage) (widgetKey "v2") = some kept ∧
      ¬ Contains widgetFiles ["reg", "demo", "1.0"] lost ∧
      Contains widgetFiles ["reg", "demo", "1.0"] kept := by
  have hcreate : ((Manifest.new widgetPackage (.ofText "reg")).create
      ⟨emptyRegistry, []⟩).1.2 = .ok () := by decide +kernel
  have hreleases : ∃ r ∈ widgetPackage.releases, r.version = some "1.0" ∧
      widgetKey "v1" ∈ r.owned ∧ widgetKey "v2" ∈ r.owned := by decide +kernel
  have htexts : ∀ version ∈ ["v1", "v2"],
      (Resolution.get? (indexOf widgetPackage) (widgetKey version)).map
        (fun d => Yaml.render d.toValue) = some (.ok (widgetText version)) := by decide +kernel
  have hid : widgetPackage.id = "demo" := by decide +kernel
  have hregistry : emptyRegistry.LeadsTo (.ofText "reg") ["reg"] := ⟨by decide +kernel, by decide⟩
  have hdiffer : widgetText "v1" ≠ widgetText "v2" := by decide +kernel
  obtain ⟨directory, hleads, hall⟩ := create_contained (w := ⟨emptyRegistry, []⟩)
    isTree_emptyRegistry.toIsRegular (remembers_new widgetPackage (.ofText "reg")) hcreate
  rw [← widgetFiles, hid, hleads.unique hregistry] at hall
  obtain ⟨r, hr, hversion, hfirst, hsecond⟩ := hreleases
  obtain ⟨version, hv, hkeys, -⟩ := hall r hr
  cases hversion.symm.trans hv
  obtain ⟨lost, hlost, hiff⟩ := hkeys _ hfirst
  obtain ⟨kept, hkept, hiff'⟩ := hkeys _ hsecond
  have htext := htexts "v1" (by decide)
  have htext' := htexts "v2" (by decide)
  rw [hlost, Option.map_some, Option.some.injEq] at htext
  rw [hkept, Option.map_some, Option.some.injEq] at htext'
  refine ⟨hcreate, r, hr, hfirst, hsecond, lost, kept, hlost, hkept, fun h => ?_, ?_⟩
  · have hsame := (kept_widgets hr).1 (hiff.1 h)
    rw [htext] at hsame
    exact hdiffer (Except.ok.inj hsame)
  · exact hiff'.2 ((kept_widgets hr).2 htext')

end RegistryTree.Manifest
