import RegistryTree.Proofs.Manifest.Reading
import RegistryTree.Proofs.Yaml.Node.Graph

/-!
# Copies

Equal documents need not be written as one text, for the whole number one is equal to the decimal
number one and to the truth value. A document is restored when what is read from its text is not only
equal to it but has its graph, so that each part has its type and what was shared still is. A copy of
a package is made of such documents. It is written as the package is, place by place.

> `treeOf_copy`: a copy of a package has its tree.
> `Sound.copy`, `pathsFit_copy_iff`: a copy of a package can be written where the package can.
> `PartsReadAs.copy`: what is read of a package whose documents are restored is a copy.
-/

namespace RegistryTree

open FileSystem

/-! ## Documents that are restored -/

namespace Manifest

/-- Whether what is read from the text that a document is written as is the document again: equal to
it, and with its graph. -/
def IsRestored (role : Role) (document : Entries) : Prop :=
  ∀ text, Yaml.render (.checked role (.mapping none document)) = .ok text →
    ∃ share entries, Yaml.readOctets (Text.encodeUtf8 text) = .ok (.mapping share entries) ∧
      document.Equal entries ∧
      Yaml.graphOf (.mapping none entries) = Yaml.graphOf (.mapping none document)

/-- Whether a document is restored, found out by writing and reading it. -/
def isRestored (role : Role) (document : Entries) : Bool :=
  match Yaml.render (.checked role (.mapping none document)) with
  | .error _ => true
  | .ok text =>
    match Yaml.readOctets (Text.encodeUtf8 text) with
    | .ok (.mapping _ entries) =>
      (Value.mapping none document).equal (.mapping none entries) &&
        decide (Yaml.graphOf (.mapping none entries) = Yaml.graphOf (.mapping none document))
    | _ => false

theorem isRestored_iff {role : Role} {document : Entries} :
    isRestored role document = true ↔ IsRestored role document := by
  unfold isRestored IsRestored
  cases hr : Yaml.render (.checked role (.mapping none document)) with
  | error fault => simp
  | ok text =>
    dsimp only
    split
    next share entries hread => simp [hread, Entries.Equal]
    next hne =>
      constructor
      · intro h
        cases h
      · intro h
        obtain ⟨share, entries, hread, -⟩ := h text rfl
        exact absurd hread (hne share entries)

instance (role : Role) (document : Entries) : Decidable (IsRestored role document) :=
  decidable_of_iff _ isRestored_iff

/-- Whether all documents of a package are restored. -/
structure AllRestored (package : Package) : Prop where
  descriptor : IsRestored .package package.document
  releases : ∀ r ∈ package.releases, IsRestored .release r.document
  definitions : ∀ d ∈ package.definitions, IsRestored .definition d.document

theorem IsRestored.readsBack {role : Role} {document : Entries} (h : IsRestored role document) :
    ReadsBack role document := by
  intro text htext
  obtain ⟨share, entries, hread, hequal, -⟩ := h text htext
  refine ⟨_, hread, ?_⟩
  rw [Entries.Equal, Value.equal] at hequal
  rwa [Value.equal]

theorem AllRestored.readBack {package : Package} (h : AllRestored package) : AllReadBack package :=
  ⟨h.descriptor.readsBack, fun r hr => (h.releases r hr).readsBack,
    fun d hd => (h.definitions d hd).readsBack⟩

/-- What is read for a document that is restored is written as the document is. -/
theorem IsRestored.render_eq {role : Role} {document entries : Entries} {share : Share}
    (h : IsRestored role document)
    (hread : ReadAs (.checked role (.mapping none document)) (.mapping share entries)) :
    Yaml.render (.checked role (.mapping none entries)) =
      Yaml.render (.checked role (.mapping none document)) := by
  obtain ⟨text, htext, hvalue⟩ := hread
  obtain ⟨share', entries', hread', -, hgraph⟩ := h text htext
  rw [hvalue] at hread'
  cases hread'
  exact Yaml.render_eq_of_graph hgraph

end Manifest

/-! ## Copies -/

/-- Whether a release is a twin of another and is written as it is. -/
structure Release.Copy (r r' : Release) : Prop extends r.Twin r' where
  written : Yaml.render r'.toValue = Yaml.render r.toValue

/-- Whether a definition is a twin of another and is written as it is. -/
structure Definition.Copy (d d' : Definition) : Prop extends d.Twin d' where
  written : Yaml.render d'.toValue = Yaml.render d.toValue

/-- Whether a package has the identifier of another and is made of copies of all its parts. -/
structure Package.Copy (p p' : Package) : Prop where
  id : p'.id = p.id
  written : Yaml.render p'.toValue = Yaml.render p.toValue
  releases : List.Forall₂ Release.Copy p.releases p'.releases
  definitions : List.Forall₂ Definition.Copy p.definitions p'.definitions

/-- What is read for a release whose document is restored is a copy. -/
theorem Release.ReadAs.copy {r r' : Release} (h : r.ReadAs r')
    (hrestored : Manifest.IsRestored .release r.document)
    (hgenuine : ofDocument (.mapping none r.document) = .ok r) : r.Copy r' := by
  refine ⟨h.twin hrestored.readsBack hgenuine, ?_⟩
  obtain ⟨value, hread, htaken⟩ := h
  obtain ⟨share, rfl⟩ := ofDocument_mapping htaken
  exact hrestored.render_eq hread

/-- What is read for a definition whose document is restored is a copy. -/
theorem Definition.ReadAs.copy {d d' : Definition} (h : d.ReadAs d')
    (hrestored : Manifest.IsRestored .definition d.document)
    (hgenuine : ofDocument (.mapping none d.document) = .ok d) : d.Copy d' := by
  refine ⟨h.twin hrestored.readsBack hgenuine, ?_⟩
  obtain ⟨value, hread, htaken⟩ := h
  obtain ⟨share, rfl⟩ := ofDocument_mapping htaken
  exact hrestored.render_eq hread

namespace Manifest

theorem documentOf_eq {v v' : Value} (h : Yaml.render v' = Yaml.render v) :
    documentOf v' = documentOf v := by
  rw [documentOf, documentOf, h]

section

variable {p p' : Package} {r r' : Release}

/-- What a copy of a release owns is copies of what the release owns. -/
theorem ownedDefinitions_copy (h : p.Copy p') (hr : r.Copy r') :
    List.Forall₂ Definition.Copy (ownedDefinitions p r) (ownedDefinitions p' r') := by
  have howned : r'.owned = r.owned := by rw [hr.rest]
  rw [ownedDefinitions, ownedDefinitions, howned]
  refine List.rel_filterMap (R := Eq) ?_ (List.forall₂_same.2 fun _ _ => rfl)
  rintro k _ rfl
  exact rel_find? (fun d d' hd => by rw [hd.keys_eq]) h.definitions

theorem serves_copy (h : p.Copy p') (k : ResourceKey) : serves p' k = serves p k := by
  have hrel := rel_find? (f := fun d => decide (k ∈ d.keys)) (g := fun d => decide (k ∈ d.keys))
    (fun d d' hd => by rw [hd.keys_eq]) h.definitions
  have hfound := congrArg Option.isSome
    (map_eq_of_rel (f := fun _ => ()) (g := fun _ => ()) (fun _ _ _ => rfl) hrel)
  rwa [Option.isSome_map, Option.isSome_map, List.isSome_find?, List.isSome_find?] at hfound

theorem version_copy (hr : r.Copy r') : r'.version = r.version := by rw [hr.rest]

theorem releaseName_copy (hr : r.Copy r') : releaseName r' = releaseName r := by
  rw [releaseName, releaseName, hr.rest]

theorem definitionName_copy {d d' : Definition} (hd : d.Copy d') :
    definitionName d' = definitionName d := by
  rw [definitionName, definitionName, hd.name_eq]

/-- The bundle of a copy of a release has the files of that of the release. -/
theorem fileOf_copy (h : p.Copy p') (hr : r.Copy r') (name : String) :
    fileOf p' r' name = fileOf p r name := by
  unfold fileOf
  rw [releaseName_copy hr, documentOf_eq hr.written]
  congr 1
  refine map_eq_of_rel (fun d d' hd => documentOf_eq hd.written) (rel_find? (fun d d' hd => ?_)
    (List.forall₂_reverse_iff.2 (ownedDefinitions_copy h hr)))
  rw [definitionName_copy hd]

/-- Trees are equal that have the same at their root and in their directories: below that there is
nothing. -/
theorem treeOf_eq_of (hroot : ∀ name, treeOf p' [name] = treeOf p [name])
    (hdeep : ∀ version name, treeOf p' [version, name] = treeOf p [version, name]) :
    treeOf p' = treeOf p := by
  funext rel
  match rel with
  | [] => rfl
  | [name] => exact hroot name
  | [version, name] => exact hdeep version name
  | _ :: _ :: _ :: _ => rfl

/-- A copy of a package has its tree. -/
theorem treeOf_copy (h : p.Copy p') : treeOf p' = treeOf p := by
  have hfind : ∀ version : String, Option.Rel Release.Copy
      (p.releases.find? (·.version = some version))
      (p'.releases.find? (·.version = some version)) := fun version =>
    rel_find? (fun r r' hr => by rw [version_copy hr]) h.releases
  have hname : descriptorName p' = descriptorName p := by
    rw [descriptorName, descriptorName, h.id]
  refine treeOf_eq_of (fun name => ?_) fun version name => ?_
  · rw [treeOf, treeOf, hname, documentOf_eq h.written]
    congr 1
    exact map_eq_of_rel (fun _ _ _ => rfl) (hfind name)
  · have hversion := hfind version
    rw [treeOf, treeOf]
    generalize p.releases.find? (·.version = some version) = found at hversion ⊢
    generalize p'.releases.find? (·.version = some version) = found' at hversion ⊢
    cases hversion with
    | none => rfl
    | some hr => exact fileOf_copy h hr name

/-- What can be stored is told by the name and the text. -/
theorem IsStorable.copy {name : String} {v v' : Value} (h : IsStorable name v)
    (hwritten : Yaml.render v' = Yaml.render v) : IsStorable name v' := by
  obtain ⟨hroom, text, htext⟩ := h
  exact ⟨hroom, text, hwritten.trans htext⟩

theorem SoundRelease.copy (hsound : SoundRelease p r) (h : p.Copy p') (hr : r.Copy r') :
    SoundRelease p' r' := by
  refine ⟨?_, fun k hk => ?_, ?_, ?_, fun d' hd' => ?_⟩
  · rw [version_copy hr]
    exact hsound.version
  · rw [serves_copy h]
    refine hsound.served k ?_
    rwa [hr.rest] at hk
  · rw [hr.rest]
    exact hsound.name
  · rw [releaseName_copy hr]
    exact hsound.release.copy hr.written
  · obtain ⟨d, hd, hcopy⟩ := mem_of_forall₂ (ownedDefinitions_copy h hr) hd'
    obtain ⟨hcomponent, hstorable⟩ := hsound.definitions d hd
    rw [hcopy.name_eq, definitionName_copy hcopy]
    exact ⟨hcomponent, hstorable.copy hcopy.written⟩

/-- A copy of a package that can be written can be written. -/
theorem Sound.copy (hsound : Sound p) (h : p.Copy p') : Sound p' := by
  have hname : descriptorName p' = descriptorName p := by
    rw [descriptorName, descriptorName, h.id]
  refine ⟨?_, ?_, ?_, ?_, fun r' hr' => ?_⟩
  · rw [h.id]
    exact hsound.id
  · rw [h.id]
    exact hsound.short
  · rw [hname]
    exact hsound.descriptor.copy h.written
  · have hversions : p'.releases.filterMap (·.version) = p.releases.filterMap (·.version) := by
      have hmap := map_eq_of_forall₂ (fun _ _ hr => version_copy hr) h.releases
      have hall := congrArg (List.filterMap fun version => version) hmap
      rw [List.filterMap_map, List.filterMap_map] at hall
      exact hall
    rw [taken, hname, hversions]
    exact hsound.fresh
  · obtain ⟨r, hr, hcopy⟩ := mem_of_forall₂ h.releases hr'
    exact (hsound.releases r hr).copy h hcopy

/-- The paths to a copy of a package are those to the package. -/
theorem pathsFit_copy_iff {files : FileSystem} {registry : Path} (h : p.Copy p') :
    PathsFit files registry p' ↔ PathsFit files registry p := by
  have hname : descriptorName p' = descriptorName p := by
    rw [descriptorName, descriptorName, h.id]
  have hparts : ∀ x : Package, PathsFit files registry x ↔
      isOverlong (registry.child x.id) = false ∧
      PathFits files (registry.child x.id) (descriptorName x) ∧
      ∀ r ∈ x.releases, ∀ version, r.version = some version →
        isOverlong ((registry.child x.id).child version) = false ∧
        PathFits files ((registry.child x.id).child version) (releaseName r) ∧
        ∀ d ∈ ownedDefinitions x r,
          PathFits files ((registry.child x.id).child version) (definitionName d) := fun x =>
    ⟨fun hfits => ⟨hfits.root, hfits.descriptor, hfits.bundles⟩,
      fun hall => ⟨hall.1, hall.2.1, hall.2.2⟩⟩
  rw [hparts, hparts, h.id, hname]
  refine and_congr_right fun _ => and_congr_right fun _ =>
    forall_mem_iff_of_forall₂ (fun r r' hr => ?_) h.releases
  rw [version_copy hr, releaseName_copy hr]
  refine forall_congr' fun version => imp_congr_right fun _ => and_congr_right fun _ =>
    and_congr_right fun _ => ?_
  exact forall_mem_iff_of_forall₂ (fun d d' hd => by rw [definitionName_copy hd])
    (ownedDefinitions_copy h hr)

end

end Manifest

end RegistryTree
