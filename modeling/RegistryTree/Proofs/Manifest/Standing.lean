import RegistryTree.Proofs.FileSystem.Listing
import RegistryTree.Proofs.Manifest.Names
import RegistryTree.Proofs.Manifest.Success
import RegistryTree.Proofs.Package
import RegistryTree.Proofs.Value

/-!
# What stands when a package was written

What a directory lists and what its files hold is known when a package was written there: `Stands`
says it in the form in which a reader asks for it. Of definitions with one name a bundle holds the
last.

> `readDocument_eq`: a document that was written is read as what its text stands for.
> `Release.ReadAs.twin`, `Definition.ReadAs.twin`: when this is an equal document, it is taken in as
> the same but for the document itself.
> `stands_of_finished`: when a package was written, it stands below its directory.
-/

namespace RegistryTree

open FileSystem

namespace Manifest

/-- Whether the text that a document is written as is read as an equal document. -/
def ReadsBack (role : Role) (document : Entries) : Prop :=
  ∀ text, Yaml.render (.checked role (.mapping none document)) = .ok text →
    ∃ value, Yaml.readOctets (Text.encodeUtf8 text) = .ok value ∧
      (Value.mapping none document).equal value = true

/-- Whether a document is read back, found out by writing and reading it. -/
def readsBack (role : Role) (document : Entries) : Bool :=
  match Yaml.render (.checked role (.mapping none document)) with
  | .error _ => true
  | .ok text =>
    match Yaml.readOctets (Text.encodeUtf8 text) with
    | .error _ => false
    | .ok value => (Value.mapping none document).equal value

theorem readsBack_iff {role : Role} {document : Entries} :
    readsBack role document = true ↔ ReadsBack role document := by
  unfold readsBack ReadsBack
  cases hr : Yaml.render (.checked role (.mapping none document)) with
  | error fault => simp
  | ok text =>
    cases hread : Yaml.readOctets (Text.encodeUtf8 text) with
    | error fault => simp [hread]
    | ok value => simp [hread]

instance (role : Role) (document : Entries) : Decidable (ReadsBack role document) :=
  decidable_of_iff _ readsBack_iff

/-- Whether all documents of a package are read back. -/
structure AllReadBack (package : Package) : Prop where
  descriptor : ReadsBack .package package.document
  releases : ∀ r ∈ package.releases, ReadsBack .release r.document
  definitions : ∀ d ∈ package.definitions, ReadsBack .definition d.document

/-- Whether a value is what is read from the text that another is written as. -/
def ReadAs (v value : Value) : Prop :=
  ∃ text, Yaml.render v = .ok text ∧ Yaml.readOctets (Text.encodeUtf8 text) = .ok value

section

variable {role : Role} {document : Entries}

theorem ReadsBack.exists_readAs (h : ReadsBack role document)
    (hrenders : ∃ text, Yaml.render (.checked role (.mapping none document)) = .ok text) :
    ∃ value, ReadAs (.checked role (.mapping none document)) value := by
  obtain ⟨text, htext⟩ := hrenders
  obtain ⟨value, hvalue, -⟩ := h text htext
  exact ⟨value, text, htext, hvalue⟩

theorem ReadsBack.equal (h : ReadsBack role document) {value : Value}
    (hread : ReadAs (.checked role (.mapping none document)) value) :
    (Value.mapping none document).equal value = true := by
  obtain ⟨text, htext, hvalue⟩ := hread
  obtain ⟨value', hvalue', hequal⟩ := h text htext
  rw [hvalue] at hvalue'
  cases hvalue'
  exact hequal

end

end Manifest

/-- Whether a release is taken in from what is read for another. -/
def Release.ReadAs (r r' : Release) : Prop :=
  ∃ value, Manifest.ReadAs r.toValue value ∧ ofDocument value = .ok r'

/-- Whether a definition is taken in from what is read for another. -/
def Definition.ReadAs (d d' : Definition) : Prop :=
  ∃ value, Manifest.ReadAs d.toValue value ∧ ofDocument value = .ok d'

/-- Whether the descriptor of a package is taken in from what is read for that of another. -/
def Package.DescriptorReadAs (package p : Package) : Prop :=
  ∃ value, Manifest.ReadAs package.toValue value ∧ identifier value = .ok (p.document, p.id)

/-- A release whose document is read back is taken in from what is read as its twin. -/
theorem Release.ReadAs.twin {r r' : Release} (h : r.ReadAs r')
    (hback : Manifest.ReadsBack .release r.document)
    (hgenuine : ofDocument (.mapping none r.document) = .ok r) : r.Twin r' := by
  obtain ⟨value, hread, htaken⟩ := h
  obtain ⟨r'', hr'', htwin⟩ := exists_twin (hback.equal hread) hgenuine
  rw [htaken] at hr''
  cases hr''
  exact htwin

/-- A definition whose document is read back is taken in from what is read as its twin. -/
theorem Definition.ReadAs.twin {d d' : Definition} (h : d.ReadAs d')
    (hback : Manifest.ReadsBack .definition d.document)
    (hgenuine : ofDocument (.mapping none d.document) = .ok d) : d.Twin d' := by
  obtain ⟨value, hread, htaken⟩ := h
  obtain ⟨d'', hd'', htwin⟩ := exists_twin (hback.equal hread) hgenuine
  rw [htaken] at hd''
  cases hd''
  exact htwin

namespace Manifest

/-! ## Directories and their files -/

section

variable {files base : FileSystem} {p : Path} {place : Place}

/-- The names in the directory that a path leads to. -/
theorem namesIn_eq (hl : files.LeadsTo p place) (hlong : isOverlong p = false) :
    namesIn files p = .ok (files.names place) := by
  unfold namesIn listing find
  rw [hl.follow hlong]
  simp [hl.directory, bind, Except.bind, mapError_ok]

/-- What is read of the directory that a path leads to. -/
theorem read_of_leadsTo (hl : files.LeadsTo p place) (hlong : isOverlong p = false)
    (husable : p.hasNull = false) :
    read files p = (do
      let file ← only p (files.names place) Layout.packageSuffix
      let document ← readDocument files (entryPath p file)
      let bundles ← (← bundleNames files p (files.names place)).mapM fun name =>
        readBundle files (entryPath p name)
      (Package.ofParts document (bundles.map (·.release))
        (keepFirst (bundles.flatMap (·.definitions)))).mapError .field) := by
  have hdirectory : files.leadsToDirectory p = .ok true := by
    rw [leadsToDirectory, hl.follow hlong]
    exact congrArg Except.ok hl.directory
  unfold read
  rw [husable, hdirectory, namesIn_eq hl hlong]
  rfl

/-- A document that was written to a directory is read from there as what its text stands for. -/
theorem readDocument_eq {name : String} {v value : Value} (hl : files.LeadsTo p place)
    (husable : p.hasNull = false) (hname : Layout.isComponent name = true)
    (hrec : Recordable base p name v) (hfile : files.get? (place ++ [name]) = some (documentOf v))
    (hread : ReadAs v value) : readDocument files (p.child name) = .ok value := by
  obtain ⟨text, hr, hvalue⟩ := hread
  obtain ⟨-, hdot, hup, -, -⟩ := Layout.isComponent_iff.1 hname
  have hfollow := hl.follow_child hfile (fun _ he => by cases he) hdot hup hrec.fits.short
    hrec.fits.path
  have hcontent : readContent files (p.child name) = .ok (Text.encodeUtf8 text) := by
    unfold readContent readFile find
    rw [Path.hasNull_child husable hname, hfollow]
    simp [bind, Except.bind, hfile, documentOf, hr, Except.toOption, mapError_ok]
  unfold readDocument
  rw [hcontent]
  show (Yaml.readOctets (Text.encodeUtf8 text)).mapError Failure.yaml = .ok value
  rw [hvalue]
  rfl

end

/-! ## The files of a bundle -/

/-- The definition of a name in the bundle of a release: of those that the release owns, the last. -/
def heldDefinition (package : Package) (r : Release) (name : String) : Option Definition :=
  (ownedDefinitions package r).reverse.find? (·.name = name)

section

variable {package : Package} {r : Release}

theorem definitionName_eq_iff {d : Definition} {name : String} :
    definitionName d = name ++ Layout.definitionSuffix ↔ d.name = name := by
  rw [definitionName, String.append_left_inj]

theorem heldDefinition_mem {name : String} {d : Definition}
    (h : heldDefinition package r name = some d) :
    d ∈ ownedDefinitions package r ∧ d.name = name := by
  refine ⟨List.mem_reverse.1 (List.mem_of_find?_eq_some h), ?_⟩
  simpa using List.find?_some h

theorem mem_definitions_of_owned {d : Definition} (h : d ∈ ownedDefinitions package r) :
    d ∈ package.definitions := by
  obtain ⟨k, -, hk⟩ := List.mem_filterMap.1 h
  exact List.mem_of_find?_eq_some hk

/-- Under the name of a definition stands the one of this name that the bundle holds. -/
theorem fileOf_definition (name : String) :
    fileOf package r (name ++ Layout.definitionSuffix) =
      (heldDefinition package r name).map (documentOf ·.toValue) := by
  have hne : name ++ Layout.definitionSuffix ≠ releaseName r := by
    intro heq
    have hsuffix := (hasSuffix_releaseName r).2
    rw [← heq, hasSuffix_append] at hsuffix
    cases hsuffix
  rw [fileOf, if_neg hne, heldDefinition]
  simp only [definitionName_eq_iff]

theorem fileOf_release : fileOf package r (releaseName r) = some (documentOf r.toValue) := by
  rw [fileOf, if_pos rfl]

/-- In a bundle stand the file of the release and those of the definitions that it holds. -/
theorem fileOf_ne_none {name : String} (h : fileOf package r name ≠ none) :
    name = releaseName r ∨
      ∃ d, heldDefinition package r d.name = some d ∧ name = definitionName d := by
  by_cases hname : name = releaseName r
  · exact Or.inl hname
  · rw [fileOf, if_neg hname, Ne, Option.map_eq_none_iff] at h
    obtain ⟨d, hd⟩ := Option.ne_none_iff_exists'.1 h
    have hsame : definitionName d = name := by simpa using List.find?_some hd
    refine Or.inr ⟨d, ?_, hsame.symm⟩
    have hfind : (ownedDefinitions package r).reverse.find?
        (definitionName · = d.name ++ Layout.definitionSuffix) = some d := by
      rw [← hsame] at hd
      exact hd
    simp only [definitionName_eq_iff] at hfind
    exact hfind

end

/-! ## What stands when a package was written -/

/-- What the files are like when a package was written below a new directory: the names in it come
in the order of the releases, and its tree stands there. -/
structure Stands (base files : FileSystem) (root : Path) (place : Place) (package : Package) : Prop
    extends AllBundled base root package package.releases where
  id : Layout.isComponent package.id = true
  descriptor : Recordable base root (descriptorName package) package.toValue
  leads : files.LeadsTo root place
  path : isOverlong root = false
  usable : root.hasNull = false
  distinct : (files.entries.map (·.1)).Nodup
  names : files.names place = taken package package.releases
  tree : ∀ rel, files.get? (place ++ rel) = treeOf package rel

/-- What stands in a directory below is no entry of the directory itself. -/
theorem nameIn_pair (version name : String) : nameIn [] [version, name] = none := by
  rw [Option.eq_none_iff_forall_ne_some]
  intro found hfound
  rw [nameIn_eq_some_iff] at hfound
  cases hfound

theorem nameIn_bundle (package : Package) (r : Release) :
    (bundle package r).filterMap (nameIn [] ·.1) = r.version.toList := by
  rw [bundle]
  cases r.version with
  | none => rfl
  | some version =>
    have hfiles : (ownedDefinitions package r).filterMap
        (fun d => nameIn [] (definitionEntry version d).1) = [] := by
      rw [List.filterMap_eq_nil_iff]
      exact fun d _ => nameIn_pair version (definitionName d)
    have hversion : nameIn [] [version] = some version := nameIn_eq_some_iff.2 rfl
    simp [bundleStart, releaseEntry, List.filterMap_append, List.filterMap_map, hfiles,
      nameIn_pair, hversion]

/-- The names that are put into the directory of a package are those that are taken, in order. -/
theorem nameIn_entries (package : Package) :
    (entries package).filterMap (nameIn [] ·.1) = taken package package.releases := by
  have hdescriptor : nameIn [] [descriptorName package] = some (descriptorName package) :=
    nameIn_eq_some_iff.2 rfl
  have hroot : nameIn [] [] = none := by decide
  have hversions : ∀ releases : List Release, (releases.flatMap (bundle package)).filterMap
      (nameIn [] ·.1) = releases.filterMap (·.version) := by
    intro releases
    induction releases with
    | nil => rfl
    | cons r rest ih =>
      rw [List.flatMap_cons, List.filterMap_append, nameIn_bundle, ih, List.filterMap_cons]
      cases r.version <;> rfl
  rw [entries, part, List.filterMap_append, hversions, taken, start]
  simp [hdescriptor, hroot]

/-- When a package was written, it stands below its directory. -/
theorem stands_of_finished {base : FileSystem} {registry : Path} {package : Package}
    {directory : Place} (ht : base.IsTree) (hr : Rooted base registry package.id directory)
    (hrec : Recordable base (registry.child package.id) (descriptorName package) package.toValue)
    (hall : AllBundled base (registry.child package.id) package package.releases) :
    Stands base (base.putAll (directory ++ [package.id]) (entries package))
      (registry.child package.id) (directory ++ [package.id]) package := by
  have hne : directory ++ [package.id] ≠ [] := by simp
  have htree : ∀ rel, (base.putAll (directory ++ [package.id]) (entries package)).get?
      (directory ++ [package.id] ++ rel) = treeOf package rel := by
    intro rel
    rw [ht.get?_putAll_eq hr.free, standing_entries hall.fresh]
  have hdirectory : (base.putAll (directory ++ [package.id]) (entries package)).isDirectoryAt
      (directory ++ [package.id]) = true := by
    have hroot := htree []
    rw [List.append_nil] at hroot
    exact isDirectoryAt_iff.2 ⟨_, hroot⟩
  have hempty : base.names (directory ++ [package.id]) = [] := by
    rw [List.eq_nil_iff_forall_not_mem]
    intro name hname
    exact mem_names_iff.1 hname (ht.get?_below hr.free [name])
  have hnames : (base.putAll (directory ++ [package.id]) (entries package)).names
      (directory ++ [package.id]) = taken package package.releases := by
    have hnodup : (base.names (directory ++ [package.id]) ++
        (entries package).filterMap (nameIn [] ·.1)).Nodup := by
      rw [hempty, nameIn_entries, List.nil_append]
      exact hall.fresh
    rw [names_putAll hnodup, hempty, nameIn_entries, List.nil_append]
  obtain ⟨-, -, -, -, hshort, hlong⟩ := leadsTo_of_slot_child hr.slot
  obtain ⟨-, hdot, hup, -, -⟩ := Layout.isComponent_iff.1 hr.component
  -- the way to the registry is the same as before
  have hregistry := hr.leads.of_keeps (ht.keeps_putAll hr.free (entries package))
  exact ⟨hall, hr.component, hrec, hregistry.child hdirectory hdot hup hshort, hlong, hr.usable,
    nodup_putAll ht.distinct _ _, hnames, htree⟩

/-- When a package was written, it is sound and its paths fit, and it stands below its directory. -/
theorem stands_of_created {base files : FileSystem} {registry : Path} {package : Package}
    (ht : base.IsTree) (hc : Created package registry base (.ok ()) files) :
    Sound package ∧ PathsFit base registry package ∧
      ∃ directory, base.LeadsTo registry directory ∧
        Stands base files (registry.child package.id) (directory ++ [package.id]) package := by
  generalize hresult : (Except.ok () : Except Failure Unit) = result at hc
  cases hc with
  | finished directory hr hrec hall =>
    obtain ⟨hsound, hfits⟩ := sound_of_finished hr hrec hall
    exact ⟨hsound, hfits, directory, hr.leads, stands_of_finished ht hr hrec hall⟩
  | _ => cases hresult

/-- A sound package whose paths fit is written in a directory where nothing stands in its place. -/
theorem Created.eq_ok {base files : FileSystem} {registry : Path} {package : Package}
    {directory : Place} {result : Except Failure Unit} (ht : base.IsTree)
    (hc : Created package registry base result files) (hl : base.LeadsTo registry directory)
    (hfree : base.get? (directory ++ [package.id]) = none) (hdirect : base.Direct registry directory)
    (hsound : Sound package) (hfits : PathsFit base registry package) : result = .ok () := by
  have hr := rooted_of_leadsTo ht hl hfree hsound.id hsound.short hfits.root
  cases hc with
  | unsafeId hid =>
    rw [hsound.id] at hid
    cases hid
  | noDirectory e _ hnot => exact absurd hr (hnot directory)
  | noDescriptor directory' e hr' _ hstop =>
    rw [hr'.leads.unique hl] at hstop
    exact absurd (recordable_iff.2 ⟨hsound.descriptor, hfits.descriptor⟩) (hstop hdirect)
  | halted directory' done r more e left hr' _ hsplit _ _ hstop =>
    rw [hr'.leads.unique hl] at hstop
    exact absurd (hsound.bundled hfits hsplit) (hstop hdirect)
  | finished directory' _ _ _ => rfl

end Manifest

end RegistryTree
