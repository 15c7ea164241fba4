import RegistryTree.Proofs.Catalog.Agreement
import RegistryTree.Proofs.Catalog.Refusal

/-!
# Ways of presenting metadata

Metadata have three sections, and each of them can stand in the metadata as it is, or as a text that
is read as it. The three stand below a field of their own or, if there is no such field, at the top.
All of these are ways of presenting the same: they describe packages that agree, one by one, or they
are all refused.

> `ofValue_presented`: metadata are taken apart as the values of their sections are.
> `packagesOf_presented`: metadata come to the same however they are presented.
-/

namespace RegistryTree.Catalog

/-! ## Sections -/

/-- The fields that hold the sections. -/
def sectionKeys : List String :=
  ["packages", "clusterServiceVersions", "customResourceDefinitions"]

/-- Whether a field presents a section: it holds the value of the section, or a text that is read as
a value that agrees with it. A section that is left out is presented by no field. -/
inductive PresentsSection : Option Value → Option Value → Prop
  | plain (s : Option Value) : PresentsSection s s
  | embedded {v v' : Value} {text : String} : Yaml.read text.toList = .ok v' → v.Agrees v' →
      PresentsSection (some v) (some (.text text))

/-- Whether a text presents a section is found out by reading it. -/
theorem presentsSection_of_read {v : Value} {text : String}
    (h : (Yaml.read text.toList).toOption.any (fun w => v.equal w && w.equal v) = true) :
    PresentsSection (some v) (some (.text text)) := by
  cases hread : Yaml.read text.toList with
  | ok w =>
    rw [hread] at h
    exact .embedded hread (.inr (by simpa [Except.toOption] using h))
  | error fault =>
    rw [hread] at h
    cases h

/-- Whether metadata present sections: below the field for all of them, or at the top when this field
does not hold a mapping. -/
inductive Presents (sections : String → Option Value) : Value → Prop
  | wrapped (share share' : Share) (outer inner : Entries) :
      Entries.get? outer "data" = some (.mapping share' inner) →
      (∀ key ∈ sectionKeys, PresentsSection (sections key) (Entries.get? inner key)) →
      Presents sections (.mapping share outer)
  | bare (share : Share) (entries : Entries) :
      (∀ share' inner, Entries.get? entries "data" ≠ some (.mapping share' inner)) →
      (∀ key ∈ sectionKeys, PresentsSection (sections key) (Entries.get? entries key)) →
      Presents sections (.mapping share entries)

/-- The value of a section in a field: what a text is read as, or else what the field holds. -/
def sectionValue : Option Value → Option Value
  | some (.text text) => (Yaml.read text.toList).toOption
  | x => x

/-- The items of the value of a section. -/
def itemsOf (place : String) : Option Value → Except Failure (List Value)
  | none => .ok []
  | some v => sectionItems place v

/-- Takes the values of sections apart. -/
def ofSections (place : String) (sections : String → Option Value) : Except Failure Catalog := do
  let descriptors ← itemsOf (place ++ "." ++ "packages") (sections "packages")
  let releaseItems ←
    itemsOf (place ++ "." ++ "clusterServiceVersions") (sections "clusterServiceVersions")
  let definitionItems ←
    itemsOf (place ++ "." ++ "customResourceDefinitions") (sections "customResourceDefinitions")
  let releases ← (releaseItems.mapM Release.ofDocument).mapError .field
  let definitions ← (definitionItems.mapM Definition.ofDocument).mapError .field
  requireDistinct (place ++ ".clusterServiceVersions") [] releases
  return { place, descriptors, releases, definitions }

variable {sections sections' : String → Option Value} {place place' : String} {entries : Entries}
  {s s' : Option Value} {key : String}

theorem sectionValue_of_no_text (h : ∀ t, s ≠ some (.text t)) : sectionValue s = s := by
  unfold sectionValue
  split
  next t => exact absurd rfl (h t)
  next => rfl

/-- The items of a section that is presented are those of its value, as it is read. -/
theorem sectionOf_presented (htext : ∀ t, s ≠ some (.text t))
    (h : PresentsSection s (Entries.get? entries key)) :
    sectionOf place entries key =
      itemsOf (place ++ "." ++ key) (sectionValue (Entries.get? entries key)) := by
  unfold sectionOf
  generalize Entries.get? entries key = x at h ⊢
  cases h with
  | plain =>
    rw [sectionValue_of_no_text htext]
    split
    next => rfl
    next t => exact absurd rfl (htext t)
    next => rfl
  | embedded hread =>
    simp only [readSection, sectionValue, hread, Except.toOption]
    rfl

/-- What a section is read as agrees with its value. -/
theorem sectionValue_agrees {x : Option Value} (htext : ∀ t, s ≠ some (.text t))
    (h : PresentsSection s x) : Option.Rel Value.Agrees s (sectionValue x) := by
  cases h with
  | plain =>
    rw [sectionValue_of_no_text htext]
    cases s with
    | none => exact .none
    | some v => exact .some (.refl v)
  | embedded hread hagrees =>
    simp only [sectionValue, hread, Except.toOption]
    exact .some hagrees

/-- Metadata are taken apart as the values of their sections are. -/
theorem ofValue_presented {data : Value}
    (htext : ∀ key ∈ sectionKeys, ∀ t, sections key ≠ some (.text t))
    (h : Presents sections data) (place : String) :
    ∃ place' sections', ofValue place data = ofSections place' sections' ∧
      ∀ key ∈ sectionKeys, Option.Rel Value.Agrees (sections key) (sections' key) := by
  -- wherever the sections stand, they are taken from entries of their own
  have hentries : ∃ place' entries, (∀ key ∈ sectionKeys,
        PresentsSection (sections key) (Entries.get? entries key)) ∧
      ofValue place data = (do
        let descriptors ← sectionOf place' entries "packages"
        let releaseItems ← sectionOf place' entries "clusterServiceVersions"
        let definitionItems ← sectionOf place' entries "customResourceDefinitions"
        let releases ← (releaseItems.mapM Release.ofDocument).mapError .field
        let definitions ← (definitionItems.mapM Definition.ofDocument).mapError .field
        requireDistinct (place' ++ ".clusterServiceVersions") [] releases
        return ⟨place', descriptors, releases, definitions⟩) := by
    cases h with
    | wrapped share share' outer inner hdata hsections =>
      refine ⟨place ++ ".data", inner, hsections, ?_⟩
      rw [ofValue, show wrapped place outer = (place ++ ".data", inner) by rw [wrapped, hdata]]
    | bare share entries hdata hsections =>
      refine ⟨place, entries, hsections, ?_⟩
      have hbare : wrapped place entries = (place, entries) := by
        unfold wrapped
        split
        next share' inner hinner => exact absurd hinner (hdata share' inner)
        next => rfl
      rw [ofValue, hbare]
  obtain ⟨place', entries, hsections, hrun⟩ := hentries
  refine ⟨place', fun key => sectionValue (Entries.get? entries key), ?_, fun key hkey => ?_⟩
  · rw [hrun, ofSections]
    rw [sectionOf_presented (htext _ (by decide)) (hsections _ (by decide)),
      sectionOf_presented (htext _ (by decide)) (hsections _ (by decide)),
      sectionOf_presented (htext _ (by decide)) (hsections _ (by decide))]
  · exact sectionValue_agrees (htext key hkey) (hsections key hkey)

/-! ## Sections that agree -/

theorem itemsOf_agrees {items : List Value} (h : Option.Rel Value.Agrees s s')
    (hs : itemsOf place s = .ok items) :
    ∃ items', itemsOf place' s' = .ok items' ∧ List.Forall₂ Value.Agrees items items' := by
  cases h with
  | none =>
    cases hs
    exact ⟨[], rfl, .nil⟩
  | @some v w h =>
    rw [itemsOf] at hs
    cases v with
    | null =>
      cases hs
      cases Value.likeness_agrees.null h
      exact ⟨[], rfl, .nil⟩
    | list share _ =>
      cases hs
      obtain ⟨share', items', rfl, hitems⟩ := Value.likeness_agrees.list h
      exact ⟨items', rfl, hitems⟩
    | _ => cases hs

/-- What is taken in from documents is taken in from documents that agree with them. -/
theorem mapM_agree {α : Type} {read : Value → Except FieldFault α} {Q : α → α → Prop}
    (hread : ∀ {v w : Value} {a : α}, v.Agrees w → read v = .ok a → ∃ b, read w = .ok b ∧ Q a b)
    {items items' : List Value} (h : List.Forall₂ Value.Agrees items items') :
    ∀ {found : List α}, items.mapM read = .ok found →
      ∃ found', items'.mapM read = .ok found' ∧ List.Forall₂ Q found found' := by
  induction h with
  | nil =>
    intro found hfound
    cases hfound
    exact ⟨[], rfl, .nil⟩
  | cons hvw _ ih =>
    intro found hfound
    simp only [List.mapM_cons, bind_eq_ok_iff] at hfound ⊢
    obtain ⟨a, ha, more, hmore, heq⟩ := hfound
    cases heq
    obtain ⟨b, hb, hab⟩ := hread hvw ha
    obtain ⟨more', hmore', hall⟩ := ih hmore
    exact ⟨b :: more', ⟨b, hb, more', hmore', rfl⟩, .cons hab hall⟩

/-- Sections that agree are taken apart into catalogs that agree. -/
theorem ofSections_agrees {c : Catalog}
    (h : ∀ key ∈ sectionKeys, Option.Rel Value.Agrees (sections key) (sections' key))
    (hc : ofSections place sections = .ok c) (place' : String) :
    ∃ c', ofSections place' sections' = .ok c' ∧ c.Agrees c' := by
  simp only [ofSections, bind_eq_ok_iff, mapError_eq_ok_iff] at hc ⊢
  obtain ⟨descriptors, hdescriptors, releaseItems, hreleaseItems, definitionItems, hdefinitionItems,
    releases, hreleases, definitions, hdefinitions, _, hdistinct, heq⟩ := hc
  cases heq
  obtain ⟨descriptors', hdescriptors', hd⟩ := itemsOf_agrees (h _ (by decide)) hdescriptors
  obtain ⟨releaseItems', hreleaseItems', hr⟩ := itemsOf_agrees (h _ (by decide)) hreleaseItems
  obtain ⟨definitionItems', hdefinitionItems', hi⟩ :=
    itemsOf_agrees (h _ (by decide)) hdefinitionItems
  obtain ⟨releases', hreleases', hrs⟩ := mapM_agree Release.ofDocument_agrees hr hreleases
  obtain ⟨definitions', hdefinitions', hds⟩ :=
    mapM_agree Definition.ofDocument_agrees hi hdefinitions
  -- That no name occurs twice is a matter of the names alone, and those are the same.
  have hnodup : (releases'.map (·.name)).Nodup := by
    rw [names_agree hrs]
    exact (nodup_of_requireDistinct hdistinct).1
  have hdistinct' : requireDistinct (place' ++ ".clusterServiceVersions") [] releases' = .ok () :=
    requireDistinct_of_nodup _ hnodup fun _ _ => List.not_mem_nil
  exact ⟨⟨place', descriptors', releases', definitions'⟩, ⟨descriptors', hdescriptors',
    releaseItems', hreleaseItems', definitionItems', hdefinitionItems', releases', hreleases',
    definitions', hdefinitions', (), hdistinct', rfl⟩, hd, hrs, hds⟩

theorem ofSections_errorsIn (place : String) (sections : String → Option Value) :
    ErrorsIn Failure.IsRefusal (ofSections place sections) := by
  have hitems : ∀ place s, ErrorsIn Failure.IsRefusal (itemsOf place s) := by
    intro place s
    cases s with
    | none => exact .of_ok _
    | some v => exact sectionItems_errorsIn place v
  refine .bind (hitems _ _) fun _ => .bind (hitems _ _) fun _ => .bind (hitems _ _) fun _ => ?_
  refine .bind (.mapError fun _ _ => trivial) fun _ => ?_
  refine .bind (.mapError fun _ _ => trivial) fun _ => ?_
  exact .bind (requireDistinct_errorsIn _ _ _) fun _ => .of_ok _

/-! ## Outcomes -/

/-- The packages that the values of sections describe. -/
def packagesOfSections (place : String) (sections : String → Option Value) :
    Except Failure (List Package) := do
  (← ofSections place sections).packages

theorem packagesOfSections_agree {packages : List Package}
    (h : ∀ key ∈ sectionKeys, Option.Rel Value.Agrees (sections key) (sections' key))
    (hp : packagesOfSections place sections = .ok packages) (place' : String) :
    ∃ packages', packagesOfSections place' sections' = .ok packages' ∧
      List.Forall₂ Package.Agrees packages packages' := by
  simp only [packagesOfSections, bind_eq_ok_iff] at hp ⊢
  obtain ⟨c, hc, hpackages⟩ := hp
  obtain ⟨c', hc', hagrees⟩ := ofSections_agrees h hc place'
  obtain ⟨packages', hpackages', hall⟩ := packages_agree hagrees hpackages
  exact ⟨packages', ⟨c', hc', hpackages'⟩, hall⟩

theorem packagesOfSections_errorsIn (place : String) (sections : String → Option Value) :
    ErrorsIn Failure.IsRefusal (packagesOfSections place sections) := by
  refine .bind (ofSections_errorsIn place sections) fun c e he => ?_
  unfold Catalog.packages at he
  split at he
  next => cases he
  next _ e' hall =>
    cases he
    exact assembleAll_failure hall

/-- What metadata can come to: packages that agree with given ones, or a refusal when none are
given. -/
inductive Gives : Option (List Package) → Except Failure (List Package) → Prop
  | packages {packages packages' : List Package} : List.Forall₂ Package.Agrees packages packages' →
      Gives (some packages) (.ok packages')
  | refused {e : Failure} : e.IsRefusal → Gives none (.error e)

/-- Sections that agree come to the same: packages that agree, or a refusal. -/
theorem packagesOfSections_gives
    (h : ∀ key ∈ sectionKeys, Option.Rel Value.Agrees (sections key) (sections' key))
    (place place' : String) :
    Gives (packagesOfSections place sections).toOption (packagesOfSections place' sections') := by
  cases hp : packagesOfSections place sections with
  | ok packages =>
    obtain ⟨packages', hpackages', hall⟩ := packagesOfSections_agree h hp place'
    rw [hpackages']
    exact .packages hall
  | error e =>
    cases hp' : packagesOfSections place' sections' with
    | ok packages' =>
      -- packages could be made of the first sections as well
      obtain ⟨packages, hpackages, -⟩ :=
        packagesOfSections_agree (fun key hkey => Value.Agrees.rel_symm (h key hkey)) hp' place
      rw [hp] at hpackages
      cases hpackages
    | error e' => exact .refused (packagesOfSections_errorsIn _ _ e' hp')

/-- Metadata come to what their sections come to, however these are presented: to packages that
agree, one by one, or to a refusal. -/
theorem packagesOf_presented (sections : String → Option Value)
    (htext : ∀ key ∈ sectionKeys, ∀ t, sections key ≠ some (.text t)) :
    ∀ place data, Presents sections data →
      Gives (packagesOfSections "" sections).toOption (packagesOf place data) := by
  intro place data h
  obtain ⟨place', sections', hdata, hagrees⟩ := ofValue_presented htext h place
  rw [packagesOf, hdata]
  exact packagesOfSections_gives hagrees "" place'

/-- A descriptor whose channel is headed by a release. -/
def demoDescriptor : Value :=
  .mapping none [(.text "packageName", .text "demo"),
    (.text "channels", .list none [.mapping none [(.text "name", .text "alpha"),
      (.text "currentCSV", .text "demo.v1")]])]

/-- A release that owns widgets. -/
def demoRelease : Value :=
  .mapping none [(.text "metadata", .mapping none [(.text "name", .text "demo.v1")]),
    (.text "spec", .mapping none [(.text "customresourcedefinitions", .mapping none [(.text "owned",
      .list none [.mapping none [(.text "name", .text "widgets.demo.io"),
        (.text "version", .text "v1"), (.text "kind", .text "Widget")]])])])]

/-- A definition of widgets. -/
def demoDefinition : Value :=
  .mapping none [(.text "metadata", .mapping none [(.text "name", .text "widgets.demo.io")]),
    (.text "spec", .mapping none [(.text "group", .text "demo.io"), (.text "version", .text "v1"),
      (.text "names", .mapping none [(.text "kind", .text "Widget")])])]

/-- A descriptor, the release that it leads to, and the definition that this owns. -/
def demoSections : String → Option Value
  | "packages" => some (.list none [demoDescriptor])
  | "clusterServiceVersions" => some (.list none [demoRelease])
  | "customResourceDefinitions" => some (.list none [demoDefinition])
  | _ => none

/-- Metadata that have these sections as they are. -/
def demoPlain : Value :=
  .mapping none [(.text "packages", .list none [demoDescriptor]),
    (.text "clusterServiceVersions", .list none [demoRelease]),
    (.text "customResourceDefinitions", .list none [demoDefinition])]

/-- Metadata that have two of these sections as texts, below the field for all of them. -/
def demoEmbedded : Value :=
  .mapping none [(.text "data", .mapping none [
    (.text "packages", .text ("- packageName: demo\n  channels:\n" ++
      "  - currentCSV: demo.v1\n    name: alpha\n")),
    (.text "clusterServiceVersions", .list none [demoRelease]),
    (.text "customResourceDefinitions", .text ("- metadata:\n    name: widgets.demo.io\n" ++
      "  spec:\n    group: demo.io\n    version: v1\n    names: \x7bkind: Widget\x7d\n"))])]

/-- The identifier of a package with the names of its releases and definitions. -/
def namesOf (p : Package) : String × List String × List String :=
  (p.id, p.releases.map (·.name), p.definitions.map (·.name))

theorem namesOf_agrees {p q : Package} (h : p.Agrees q) : namesOf q = namesOf p := by
  have hdefinitions : q.definitions.map (·.name) = p.definitions.map (·.name) :=
    map_eq_of_forall₂ (fun d d' hd => by rw [hd.rest]) h.definitions
  rw [namesOf, namesOf, h.id, names_agree h.releases, hdefinitions]

/-- Of the sections as they are, and of texts that are read as them, one package is made, with its
release and its definition. -/
theorem packagesOf_presented_demo :
    (∃ packages, packagesOf "plain" demoPlain = .ok packages ∧
        packages.map namesOf = [("demo", ["demo.v1"], ["widgets.demo.io"])]) ∧
      ∃ packages, packagesOf "embedded" demoEmbedded = .ok packages ∧
        packages.map namesOf = [("demo", ["demo.v1"], ["widgets.demo.io"])] := by
  have hnames : (packagesOfSections "" demoSections).toOption.map (List.map namesOf) =
      some [("demo", ["demo.v1"], ["widgets.demo.io"])] := by decide +kernel
  obtain ⟨packages, hpackages, hnames⟩ := Option.map_eq_some_iff.1 hnames
  have hmade : ∀ place data, Presents demoSections data →
      ∃ packages, packagesOf place data = .ok packages ∧
        packages.map namesOf = [("demo", ["demo.v1"], ["widgets.demo.io"])] := by
    intro place data h
    have hgives :=
      packagesOf_presented demoSections (by simp [sectionKeys, demoSections]) place data h
    rw [hpackages] at hgives
    generalize packagesOf place data = run at hgives ⊢
    obtain ⟨hall⟩ | _ := hgives
    have hsame := map_eq_of_forall₂ (f := namesOf) (g := namesOf) (fun _ _ => namesOf_agrees) hall
    exact ⟨_, rfl, hsame.trans hnames⟩
  have hplain : Presents demoSections demoPlain := by
    refine .bare none _ (fun _ _ h => by cases h) ?_
    simp only [sectionKeys, List.forall_mem_cons]
    exact ⟨.plain _, .plain _, .plain _, by simp⟩
  have hembedded : Presents demoSections demoEmbedded := by
    refine .wrapped none none _ _ rfl ?_
    simp only [sectionKeys, List.forall_mem_cons]
    exact ⟨presentsSection_of_read (by decide +kernel), .plain _,
      presentsSection_of_read (by decide +kernel), by simp⟩
  exact ⟨hmade _ _ hplain, hmade _ _ hembedded⟩

end RegistryTree.Catalog
