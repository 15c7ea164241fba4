import RegistryTree.Proofs.Manifest.Reading

/-!
# From a package to its directory and back

What is read from the directory that a package was written to is the package again, as far as the
directory can tell: the descriptor, the releases, now in the order of their versions, and of the
definitions with one name that which stands in the first bundle to have the name. Equality of
documents is that of values, so that the order of entries does not count.

> `read_created`: what is read of a package that was written.
-/

namespace RegistryTree.Manifest

open FileSystem

/-- What a package is read back as: the descriptor is the same, the releases are those of the package
in some order, and of the definitions there is for each name that which the first of the releases in
this order to have one holds, and nothing else. -/
structure RereadAs (package : Package) (ordered : List Release) (p : Package) : Prop where
  id : p.id = package.id
  document : package.document.Equal p.document
  releases : List.Forall₂ Release.Twin ordered p.releases
  names : (p.definitions.map (·.name)).Nodup
  definitions : ∀ name, Option.Rel Definition.Twin
    (ordered.findSome? (heldDefinition package · name)) (p.definitions.find? (·.name = name))

/-- What is read of a package, part by part, is the package again as far as the directory can
tell. -/
theorem PartsReadAs.rereadAs {package p : Package} (h : PartsReadAs package p)
    (hgenuine : package.Genuine) (hback : AllReadBack package) :
    RereadAs package (inOrder package) p := by
  obtain ⟨value, hvalue, hidentifier⟩ := h.descriptor
  obtain ⟨document, hid, hdocument⟩ :=
    Package.exists_identifier (hback.descriptor.equal hvalue) hgenuine.descriptor
  obtain ⟨hsame, hid'⟩ := Prod.mk.inj (Except.ok.inj (hidentifier.symm.trans hid))
  have hsub : keepFirst ((inOrder package).flatMap (heldDefinitions package)) ⊆
      package.definitions := by
    intro d hd
    obtain ⟨r, -, hheld⟩ := List.mem_flatMap.1 (List.mem_of_find?_eq_some (mem_keepFirst.1 hd))
    exact heldDefinitions_subset hheld
  have htwins := forall₂_twin hgenuine hback hsub h.definitions
  refine ⟨hid', hsame ▸ hdocument, ?_, ?_, fun name => ?_⟩
  · refine forall₂_imp_of_mem h.releases fun r hr r' hread => ?_
    have hmem := (VersionKey.sort_perm _ _).mem_iff.1 hr
    exact hread.twin (hback.releases r hmem) (hgenuine.releases r hmem)
  · rw [map_eq_of_forall₂ (fun _ _ htwin => htwin.name_eq) htwins]
    exact keepFirst_names _
  · have hfound := rel_find? (f := (·.name = name)) (g := (·.name = name))
      (fun d d' htwin => by rw [htwin.name_eq]) htwins
    rw [find?_keepFirst, List.find?_flatMap] at hfound
    simpa only [find?_heldDefinitions] using hfound

theorem Stands.rereadAs {base files : FileSystem} {root : Path} {place : Place} {package : Package}
    (h : Stands base files root place package) (hgenuine : package.Genuine)
    (hback : AllReadBack package)
    (hversions : ∀ r ∈ package.releases, ∀ version, r.version = some version →
      hasSuffix Layout.packageSuffix version = false) :
    ∃ p, read files root = .ok p ∧ RereadAs package (inOrder package) p := by
  obtain ⟨p, hread, hparts⟩ := h.read_parts hgenuine hback hversions
  exact ⟨p, hread, hparts.rereadAs hgenuine hback⟩

/-- A package that was written is read back, with its releases in the order of their versions, when
its documents are and no version ends as the name of a descriptor does. What a bundle holds under a
name is the definition whose document stands in the file for this name. -/
theorem read_created {package : Package} {registry : Path} {w : Workspace} (ht : w.files.IsTree)
    (hgenuine : package.Genuine) (hback : AllReadBack package)
    (hversions : ∀ r ∈ package.releases, ∀ version, r.version = some version →
      hasSuffix Layout.packageSuffix version = false)
    (hcreate : ((Manifest.new package registry).create w).1.2 = .ok ()) :
    ∃ p ordered,
      read ((Manifest.new package registry).create w).2.files (registry.child package.id) = .ok p ∧
      VersionKey.sortOn (·.version.getD "") package.releases = .ok ordered ∧
      ordered.Perm package.releases ∧
      ordered.Pairwise (fun r r' => (VersionKey.keyOf (r'.version.getD "")).less
        (VersionKey.keyOf (r.version.getD "")) = false) ∧
      RereadAs package ordered p ∧
      ∃ directory, w.files.LeadsTo registry directory ∧
        ∀ r ∈ package.releases, ∃ version, r.version = some version ∧
          ∀ name, ((Manifest.new package registry).create w).2.files.get?
              (directory ++ [package.id, version, name ++ Layout.definitionSuffix]) =
            (heldDefinition package r name).map (documentOf ·.toValue) := by
  have hc := created_create package registry ht
  rw [hcreate] at hc
  generalize ((Manifest.new package registry).create w).2.files = after at hc ⊢
  generalize hresult : (Except.ok () : Except Failure Unit) = result at hc
  cases hc with
  | finished directory hr hrec hall =>
    have h := stands_of_finished ht hr hrec hall
    obtain ⟨p, hread, hreread⟩ := h.rereadAs hgenuine hback hversions
    refine ⟨p, inOrder package, hread, VersionKey.sortOn_eq fun r hmem => h.ofName_version hmem,
      VersionKey.sort_perm _ _, VersionKey.sort_pairwise _ _, hreread, directory, hr.leads, ?_⟩
    intro r hmem
    obtain ⟨version, hb⟩ := hall.bundled r hmem
    refine ⟨version, hb.named, fun name => ?_⟩
    have hfile := h.get?_file hmem hb (name ++ Layout.definitionSuffix)
    rw [fileOf_definition] at hfile
    simpa using hfile
  | _ => cases hresult

/-- The document of a definition that serves widgets in some versions. -/
def servingWidgets (name : String) (versions : List String) : Value :=
  .mapping none [(.text "metadata", .mapping none [(.text "name", .text name)]),
    (.text "spec", .mapping none [(.text "group", .text "demo.io"),
      (.text "names", .mapping none [(.text "kind", .text "Widget")]),
      (.text "versions", .list none
        (versions.map fun v => .mapping none [(.text "name", .text v)]))])]

/-- The document of a release that owns widgets in one version. -/
def owningWidgets (name version owned : String) : Value :=
  .mapping none [(.text "metadata", .mapping none [(.text "name", .text name)]),
    (.text "spec", .mapping none [(.text "version", .text version),
      (.text "customresourcedefinitions", .mapping none [(.text "owned",
        .list none [.mapping none [(.text "name", .text "widgets.demo.io"),
          (.text "version", .text owned), (.text "kind", .text "Widget")]])])])]

/-- A package with two releases, the later one first. Each owns widgets in a version of its own, and
the two definitions that serve them have one name. -/
def widgetReleases : Package :=
  (Package.ofValues (.mapping none [(.text "packageName", .text "demo")])
    [.checked .release (owningWidgets "demo.v2" "0.10.0" "v2"),
      .checked .release (owningWidgets "demo.v1" "0.9.0" "v1")]
    [.checked .definition (servingWidgets "widgets.demo.io" ["v2"]),
      .checked .definition (servingWidgets "widgets.demo.io" ["v1"])]).toOption.getD (barePackage "" [])

/-- Two releases come back in the order of their versions, and of two definitions with one name that
which the earlier release owns. -/
theorem read_created_two :
    ∃ p, read ((Manifest.new widgetReleases (.ofText "reg")).create ⟨emptyRegistry, []⟩).2.files
        ((Path.ofText "reg").child widgetReleases.id) = .ok p ∧ p.id = "demo" ∧
      p.releases.map (·.name) = ["demo.v1", "demo.v2"] ∧
      (p.definitions.map (·.name)).Nodup ∧
      ∃ d, p.definitions.find? (·.name = "widgets.demo.io") = some d ∧ d.versions = ["v1"] := by
  have hgenuine : widgetReleases.Genuine := Package.genuine_getD (by decide +kernel) _
  have hback : AllReadBack widgetReleases :=
    ⟨by decide +kernel, by decide +kernel, by decide +kernel⟩
  have hcreate : ((Manifest.new widgetReleases (.ofText "reg")).create
      ⟨emptyRegistry, []⟩).1.2 = .ok () := by decide +kernel
  obtain ⟨p, ordered, hread, -, hperm, hpairwise, hreread, -⟩ := read_created
    (w := ⟨emptyRegistry, []⟩) isTree_emptyRegistry hgenuine hback (by decide +kernel) hcreate
  have horder : ordered = widgetReleases.releases.reverse := by
    have hdiffer : ∀ r ∈ widgetReleases.releases, ∀ r' ∈ widgetReleases.releases,
        (VersionKey.keyOf (r'.version.getD "")).less (VersionKey.keyOf (r.version.getD "")) = false →
        (VersionKey.keyOf (r.version.getD "")).less (VersionKey.keyOf (r'.version.getD "")) = false →
        r.name = r'.name := by decide +kernel
    have hnames : (widgetReleases.releases.map (·.name)).Nodup := by decide +kernel
    refine List.Perm.eq_of_pairwise (fun r r' hr hr' h h' => ?_) hpairwise (by decide +kernel)
      (hperm.trans (List.reverse_perm _).symm)
    have hmem := hperm.mem_iff.1 hr
    have hmem' := List.mem_reverse.1 hr'
    exact List.inj_on_of_nodup_map hnames hmem hmem' (hdiffer r hmem r' hmem' h h')
  subst horder
  have hheld : (widgetReleases.releases.reverse.findSome? (heldDefinition widgetReleases ·
      "widgets.demo.io")).map (·.versions) = some ["v1"] := by decide +kernel
  refine ⟨p, hread, hreread.id, ?_, hreread.names, ?_⟩
  · rw [map_eq_of_forall₂ (fun r r' htwin => by rw [htwin.rest]) hreread.releases]
    decide +kernel
  · have hfound := hreread.definitions "widgets.demo.io"
    generalize widgetReleases.releases.reverse.findSome? (heldDefinition widgetReleases ·
      "widgets.demo.io") = held at hheld hfound
    generalize p.definitions.find? (·.name = "widgets.demo.io") = found at hfound ⊢
    cases hfound with
    | none => cases hheld
    | some htwin => exact ⟨_, rfl, by rw [htwin.rest]; exact Option.some.inj hheld⟩

end RegistryTree.Manifest
