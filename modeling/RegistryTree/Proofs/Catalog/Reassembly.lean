import RegistryTree.Proofs.Catalog.Selection
import RegistryTree.Proofs.Package

/-!
# A package from its own documents

A package has of its metadata what its channels lead to. Metadata that are made of nothing but the
documents of the package hold all of this, and so the package is made of them once more.

> `reached_releasesOf_iff`: what the channels lead to is the same when all that they do not lead to
> is left out.
> `packagesOf_metadata`: the metadata made of the documents of a package describe this package and
> no other.
-/

namespace RegistryTree

/-- The metadata that are made of the documents of a package alone. -/
def Package.metadata (p : Package) : Value :=
  .mapping none [
    (.text "packages", .list none [.mapping none p.document]),
    (.text "clusterServiceVersions",
      .list none (p.releases.map fun r => .mapping none r.document)),
    (.text "customResourceDefinitions",
      .list none (p.definitions.map fun d => .mapping none d.document))]

namespace Catalog

/-! ## Leaving out what is not reached -/

section

variable {c : Catalog} {channels : List (String × Option String)} {names : List String}

/-- A name that is kept has the release that it had. -/
theorem release?_releasesOf {name : String} (h : name ∈ names) :
    release? (c.releasesOf names) name = release? c.releases name := by
  rw [release?, releasesOf, List.find?_filter, release?]
  refine List.find?_congr fun r _ => ?_
  by_cases hr : r.name = name
  · simp [hr, h]
  · simp [hr]

theorem known_releasesOf_iff {name : String} (h : name ∈ names) :
    Known (c.releasesOf names) name ↔ Known c.releases name := by
  rw [Known, Known, release?_releasesOf h]

/-- Among the names that are kept, each leads on to the one that it led to. -/
theorem replaces_releasesOf_iff {name next : String} (hname : name ∈ names)
    (hnext : next ∈ names) :
    Replaces (c.releasesOf names) name next ↔ Replaces c.releases name next := by
  simp only [Replaces, release?_releasesOf hname, known_releasesOf_iff hnext]

/-- What the channels lead to is the same when all that they do not lead to is left out. -/
theorem reached_releasesOf_iff (h : Gathered c.releases channels names) {name : String} :
    Reached (c.releasesOf names) channels name ↔ Reached c.releases channels name := by
  constructor
  · intro hgiven
    obtain ⟨channel, head, hmem, hleads⟩ := hgiven
    -- along the way every name is reached in the whole, and so one that is kept
    induction hleads with
    | refl => exact ⟨channel, head, hmem, .refl⟩
    | @tail name next _ hstep ih =>
      obtain ⟨r, hr, hreplaces, hknown⟩ := hstep
      obtain ⟨s, hs⟩ := Option.isSome_iff_exists.1 hknown
      obtain ⟨hkept, rfl⟩ := release?_eq_some hs
      have hnext : s.name ∈ names := by simpa using (List.mem_filter.1 hkept).2
      exact h.mem_iff.1 hnext
  · intro hgiven
    obtain ⟨channel, head, hmem, hleads⟩ := hgiven
    refine ⟨channel, head, hmem, ?_⟩
    induction hleads with
    | refl => exact .refl
    | @tail name next hbefore hstep ih =>
      have hname : name ∈ names := h.mem_iff.2 ⟨channel, head, hmem, hbefore⟩
      have hnext : next ∈ names := h.mem_iff.2 ⟨channel, head, hmem, hbefore.tail hstep⟩
      exact ih.tail ((replaces_releasesOf_iff hname hnext).2 hstep)

/-- Among the releases that are kept all are reached again. -/
theorem reachable_releasesOf (h : Gathered c.releases channels names) (package : String) :
    ∃ again, reachable (c.releasesOf names) package channels = .ok again ∧
      ∀ name, name ∈ again ↔ name ∈ names := by
  rcases reachable_cases (c.releasesOf names) package channels with
    ⟨again, hagain, hgathered, -⟩ | ⟨channel, head, hmem, hunknown, -⟩
  · refine ⟨again, hagain, fun name => ?_⟩
    rw [hgathered.mem_iff, reached_releasesOf_iff h, h.mem_iff]
  · have hhead : head ∈ names := h.heads channel head hmem
    exact absurd ((known_releasesOf_iff hhead).2 (h.followed.known head hhead)) hunknown

end

/-! ## The metadata of a package -/

theorem requireDistinct_of_nodup (place : String) {seen : List String} {releases : List Release}
    (hnodup : (releases.map (·.name)).Nodup) (hnew : ∀ r ∈ releases, r.name ∉ seen) :
    requireDistinct place seen releases = .ok () := by
  induction releases generalizing seen with
  | nil => rfl
  | cons r rest ih =>
    rw [List.forall_mem_cons] at hnew
    rw [List.map_cons, List.nodup_cons] at hnodup
    rw [requireDistinct, if_neg hnew.1]
    refine ih hnodup.2 fun r' hr' hin => ?_
    rcases List.mem_cons.1 hin with heq | hold
    · exact hnodup.1 (List.mem_map.2 ⟨r', hr', heq⟩)
    · exact hnew.2 r' hr' hold

/-- What is taken in from each of some documents is taken in from all of them in turn. -/
theorem mapM_documents {α : Type} {read : Value → Except FieldFault α} {document : α → Value}
    {xs : List α} (h : ∀ x ∈ xs, read (document x) = .ok x) :
    (xs.map document).mapM read = .ok xs := by
  rw [mapM_eq_ok_iff, List.forall₂_map_left_iff]
  exact List.forall₂_same.2 h

/-- The metadata of a package are taken apart into its descriptor, its releases and its
definitions. -/
theorem ofValue_metadata {p : Package} (place : String) (h : p.Genuine)
    (hnodup : (p.releases.map (·.name)).Nodup) :
    ofValue place p.metadata =
      .ok ⟨place, [.mapping none p.document], p.releases, p.definitions⟩ := by
  have hreleases := mapM_documents h.releases
  have hdefinitions := mapM_documents h.definitions
  have hdistinct : requireDistinct (place ++ ".clusterServiceVersions") [] p.releases = .ok () :=
    requireDistinct_of_nodup _ hnodup fun _ _ => List.not_mem_nil
  -- The sections are lists by their making, so what is left of the reading is the taking in of the
  -- documents.
  have hitems : ofValue place p.metadata = (do
      let releases ← ((p.releases.map fun r => Value.mapping none r.document).mapM
        Release.ofDocument).mapError .field
      let definitions ← ((p.definitions.map fun d => Value.mapping none d.document).mapM
        Definition.ofDocument).mapError .field
      requireDistinct (place ++ ".clusterServiceVersions") [] releases
      return ⟨place, [.mapping none p.document], releases, definitions⟩) := rfl
  rw [hitems, hreleases, hdefinitions]
  show (requireDistinct _ [] p.releases >>= fun _ => _) = _
  rw [hdistinct]
  rfl

/-- The releases and the definitions of a catalog are what their documents are taken in as. -/
theorem genuine_of_ofValue {place : String} {data : Value} {c : Catalog}
    (h : ofValue place data = .ok c) :
    (∀ r ∈ c.releases, Release.ofDocument (.mapping none r.document) = .ok r) ∧
      ∀ d ∈ c.definitions, Definition.ofDocument (.mapping none d.document) = .ok d := by
  unfold ofValue at h
  split at h
  next =>
    simp only [bind_eq_ok_iff, mapError_eq_ok_iff, mapM_eq_ok_iff] at h
    obtain ⟨_, _, _, _, _, _, releases, hreleases, definitions, hdefinitions, _, _, heq⟩ := h
    cases heq
    refine ⟨fun r hr => ?_, fun d hd => ?_⟩
    · obtain ⟨v, -, hv⟩ := mem_of_forall₂ hreleases hr
      exact Release.ofDocument_document hv
    · obtain ⟨v, -, hv⟩ := mem_of_forall₂ hdefinitions hd
      exact Definition.ofDocument_document hv
  next => cases h

/-- A package of metadata is genuine, and no two of its releases have one name. -/
theorem MadeOf.genuine {place : String} {data descriptor : Value} {c : Catalog} {p : Package}
    (h : c.MadeOf descriptor p) (hc : ofValue place data = .ok c) :
    p.Genuine ∧ (p.releases.map (·.name)).Nodup := by
  obtain ⟨taken, hassemble⟩ := h
  obtain ⟨shell, channels, names, hshell, -, -, -, rfl⟩ := assemble_eq_ok_iff.1 hassemble
  obtain ⟨hreleases, hdefinitions⟩ := genuine_of_ofValue hc
  refine ⟨⟨?_, fun r hr => ?_, fun d hd => ?_⟩, ?_⟩
  · simp only [Package.ofParts, bind_eq_ok_iff] at hshell
    obtain ⟨⟨document, id⟩, hid, heq⟩ := hshell
    cases heq
    exact Package.identifier_document hid
  · exact hreleases r (List.mem_filter.1 hr).1
  · exact hdefinitions d (List.mem_filter.1 hd).1
  · exact (nodup_of_ofValue hc).sublist (List.filter_sublist.map _)

/-- Of what it has and its own descriptor a package is made once more. -/
theorem MadeOf.assemble_again {c : Catalog} {descriptor : Value} {p : Package}
    (h : c.MadeOf descriptor p) (hgenuine : p.Genuine) (place : String) :
    assemble ⟨place, [.mapping none p.document], p.releases, p.definitions⟩ []
      (.mapping none p.document) = .ok p := by
  obtain ⟨taken, hassemble⟩ := h
  obtain ⟨shell, channels, names, -, -, hchannels, hnames, rfl⟩ := assemble_eq_ok_iff.1 hassemble
  obtain ⟨again, hagain, hsame⟩ := reachable_releasesOf (gathered_of_reachable hnames) shell.id
  have hshell : Package.ofParts (.mapping none shell.document) [] [] =
      .ok { shell with releases := [], definitions := [] } := by
    simp only [Package.ofParts, bind_eq_ok_iff]
    exact ⟨_, hgenuine.descriptor, rfl⟩
  -- The catalog of the package alone: from it nothing is left out, since all of it was kept before
  -- for the same reasons.
  let own : Catalog := ⟨place, [.mapping none shell.document], c.releasesOf names,
    c.definitions.filter (serves (wanted (c.releasesOf names)))⟩
  have hreleases : own.releasesOf again = c.releasesOf names := by
    refine List.filter_eq_self.2 fun r hr => ?_
    simpa [hsame] using (List.mem_filter.1 hr).2
  have hdefinitions : own.definitions.filter (serves (wanted (c.releasesOf names))) =
      own.definitions := by
    refine List.filter_eq_self.2 fun d hd => ?_
    exact (List.mem_filter.1 hd).2
  refine assemble_eq_ok_iff.2 ⟨_, channels, again, hshell, List.not_mem_nil, hchannels, hagain, ?_⟩
  show Package.mk _ _ own.releases own.definitions =
    ⟨_, _, own.releasesOf again, own.definitions.filter (serves (wanted (own.releasesOf again)))⟩
  rw [hreleases, hdefinitions]

/-- The metadata made of the documents of a package describe this package and no other. -/
theorem packagesOf_metadata {place : String} {data : Value} {packages : List Package}
    (h : packagesOf place data = .ok packages) {p : Package} (hp : p ∈ packages)
    (elsewhere : String) : packagesOf elsewhere p.metadata = .ok [p] := by
  obtain ⟨c, hc, hall⟩ := exists_madeOf h
  obtain ⟨descriptor, hmade⟩ := hall p hp
  obtain ⟨hgenuine, hnodup⟩ := hmade.genuine hc
  have hagain := hmade.assemble_again hgenuine elsewhere
  rw [packagesOf, ofValue_metadata elsewhere hgenuine hnodup]
  show Catalog.packages _ = _
  rw [Catalog.packages, assembleAll, List.map_nil, hagain]
  rfl

/-- A package whose channels lead into a circle, and that leaves out a release and a definition, is
described by its own documents. -/
theorem packagesOf_metadata_ring :
    ∃ p, packagesOf "meta" ring = .ok [p] ∧
      p.releases.map (·.name) = ["demo.v1", "demo.v2"] ∧
      p.definitions.map (·.name) = ["widgets.demo.io", "gadgets.demo.io"] ∧
      packagesOf "own" p.metadata = .ok [p] := by
  obtain ⟨p, hp, hreleases, hdefinitions⟩ : ∃ p, packagesOf "meta" ring = .ok [p] ∧
      p.releases.map (·.name) = ["demo.v1", "demo.v2"] ∧
      p.definitions.map (·.name) = ["widgets.demo.io", "gadgets.demo.io"] := ⟨_, rfl, rfl, rfl⟩
  exact ⟨p, hp, hreleases, hdefinitions, packagesOf_metadata hp List.mem_cons_self "own"⟩

end Catalog

end RegistryTree
