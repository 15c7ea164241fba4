import RegistryTree.Proofs.Catalog.Reassembly
import RegistryTree.Proofs.Value.Agreement

/-!
# Metadata that agree

Metadata may be put together in other ways and still say the same. When their descriptors, releases
and definitions agree, one by one, the same names are met on the way from the channels, and so
packages are made of both that agree, or of neither.

> `packages_agree`: of catalogs that agree packages are made that agree.
-/

namespace RegistryTree

/-! ## Documents that agree -/

/-- Whether two releases have documents that agree and are the same else. -/
structure Release.Agrees (r r' : Release) : Prop where
  document : (Value.mapping none r.document).Agrees (.mapping none r'.document)
  rest : r' = { r with document := r'.document }

/-- Whether two definitions have documents that agree and are the same else. -/
structure Definition.Agrees (d d' : Definition) : Prop where
  document : (Value.mapping none d.document).Agrees (.mapping none d'.document)
  rest : d' = { d with document := d'.document }

/-- Whether two packages have one identifier, descriptors that agree, and, one by one, releases and
definitions that agree. -/
structure Package.Agrees (p q : Package) : Prop where
  descriptor : (Value.mapping none p.document).Agrees (.mapping none q.document)
  id : q.id = p.id
  releases : List.Forall₂ Release.Agrees p.releases q.releases
  definitions : List.Forall₂ Definition.Agrees p.definitions q.definitions

section

variable {v w : Value}

/-- A release is taken in from a document that agrees with another, if it is from the other. -/
theorem Release.ofDocument_agrees {r : Release} (h : v.Agrees w) (hv : ofDocument v = .ok r) :
    ∃ r', ofDocument w = .ok r' ∧ r.Agrees r' := by
  obtain ⟨document, hdocument⟩ := ofDocument_of_like Value.likeness_agrees h hv
  obtain ⟨s, rfl⟩ := ofDocument_mapping hv
  obtain ⟨t, rfl⟩ := ofDocument_mapping hdocument
  exact ⟨_, hdocument, h.of_mapping, rfl⟩

/-- A definition is taken in from a document that agrees with another, if it is from the other. -/
theorem Definition.ofDocument_agrees {d : Definition} (h : v.Agrees w)
    (hv : ofDocument v = .ok d) : ∃ d', ofDocument w = .ok d' ∧ d.Agrees d' := by
  obtain ⟨document, hdocument⟩ := ofDocument_of_like Value.likeness_agrees h hv
  obtain ⟨s, rfl⟩ := ofDocument_mapping hv
  obtain ⟨t, rfl⟩ := ofDocument_mapping hdocument
  exact ⟨_, hdocument, h.of_mapping, rfl⟩

/-- A descriptor that agrees with another gives the identifier and the channels of the other. -/
theorem Package.ofParts_agrees {p : Package} {channels : List (String × Option String)}
    (h : v.Agrees w) (hv : ofParts v [] [] = .ok p) (hchannels : p.channels = .ok channels) :
    ∃ q, ofParts w [] [] = .ok q ∧ q.channels = .ok channels ∧ p.Agrees q := by
  simp only [ofParts, bind_eq_ok_iff] at hv ⊢
  obtain ⟨⟨document, id⟩, hid, heq⟩ := hv
  cases heq
  obtain ⟨document', hid', hlike⟩ := identifier_of_like Value.likeness_agrees h hid
  obtain ⟨s, rfl⟩ := identifier_mapping hid
  obtain ⟨t, rfl⟩ := identifier_mapping hid'
  refine ⟨_, ⟨_, hid', rfl⟩, ?_, h.of_mapping, rfl, .nil, .nil⟩
  exact channels_of_like (p := ⟨document, id, [], []⟩) Value.likeness_agrees hlike rfl hchannels

end

namespace Catalog

/-- Whether two catalogs have, one by one, descriptors, releases and definitions that agree. -/
structure Agrees (c c' : Catalog) : Prop where
  descriptors : List.Forall₂ Value.Agrees c.descriptors c'.descriptors
  releases : List.Forall₂ Release.Agrees c.releases c'.releases
  definitions : List.Forall₂ Definition.Agrees c.definitions c'.definitions

/-! ## Releases that agree -/

section

variable {releases releases' : List Release} (h : List.Forall₂ Release.Agrees releases releases')

include h

theorem names_agree : releases'.map (·.name) = releases.map (·.name) :=
  map_eq_of_forall₂ (fun r r' hr => by rw [hr.rest]) h

/-- Under a name there are releases that agree, or none. -/
theorem release?_agrees (name : String) :
    Option.Rel Release.Agrees (release? releases name) (release? releases' name) :=
  rel_find? (fun r r' hr => by rw [hr.rest]) h

/-- The same names are met on the way from a release. -/
theorem follow_agrees (fuel : Nat) (found : List String) (next : Option String) :
    follow releases' fuel found next = follow releases fuel found next := by
  induction fuel generalizing found next with
  | zero => rfl
  | succ fuel ih =>
    cases next with
    | none => rfl
    | some name =>
      rw [follow, follow]
      have hrel := release?_agrees h name
      generalize release? releases name = x at hrel ⊢
      generalize release? releases' name = y at hrel ⊢
      cases hrel with
      | none => rfl
      | some hr =>
        rw [hr.rest]
        simp only [ih]

/-- Channels lead to the same names. -/
theorem reachable_agrees (package : String) (channels : List (String × Option String)) :
    reachable releases' package channels = reachable releases package channels := by
  have hadd : addChannel releases' package = addChannel releases package := by
    funext found channel
    rw [addChannel, addChannel]
    cases channel.2 with
    | none => rfl
    | some head =>
      have hrel := release?_agrees h head
      have hnone : (release? releases' head).isNone = (release? releases head).isNone := by
        generalize release? releases head = x at hrel ⊢
        generalize release? releases' head = y at hrel ⊢
        cases hrel <;> rfl
      simp only [hnone, h.length_eq, follow_agrees h]
  rw [reachable, reachable, hadd]

theorem wanted_agrees : wanted releases' = wanted releases := by
  have hkeys : ∀ r r' : Release, r.Agrees r' → r'.owned ++ r'.required = r.owned ++ r.required :=
    fun r r' hr => by rw [hr.rest]
  rw [wanted, wanted, List.flatMap_def, List.flatMap_def, map_eq_of_forall₂ hkeys h]

end

/-! ## Packages that agree -/

section

variable {c c' : Catalog} (hc : c.Agrees c')

include hc

theorem releasesOf_agrees (names : List String) :
    List.Forall₂ Release.Agrees (c.releasesOf names) (c'.releasesOf names) := by
  refine List.rel_filter (fun r r' hr => ?_) hc.releases
  rw [hr.rest]

theorem definitionsFor_agrees (keys : List ResourceKey) :
    List.Forall₂ Definition.Agrees (c.definitions.filter (serves keys))
      (c'.definitions.filter (serves keys)) := by
  refine List.rel_filter (fun d d' hd => ?_) hc.definitions
  rw [hd.rest]
  rfl

/-- Of descriptors that agree packages are made that agree. -/
theorem assemble_agrees {taken : List String} {d d' : Value} {p : Package} (hd : d.Agrees d')
    (h : c.assemble taken d = .ok p) : ∃ q, c'.assemble taken d' = .ok q ∧ p.Agrees q := by
  obtain ⟨shell, channels, names, hshell, hnew, hchannels, hnames, rfl⟩ := assemble_eq_ok_iff.1 h
  obtain ⟨shell', hshell', hchannels', hagrees⟩ := Package.ofParts_agrees hd hshell hchannels
  have hreleases := releasesOf_agrees hc names
  refine ⟨_, assemble_eq_ok_iff.2 ⟨shell', channels, names, hshell', ?_, hchannels', ?_, rfl⟩,
    hagrees.descriptor, hagrees.id, hreleases, ?_⟩
  · rwa [hagrees.id]
  · rwa [hagrees.id, reachable_agrees hc.releases]
  · simp only [wanted_agrees hreleases]
    exact definitionsFor_agrees hc _

theorem assembleAll_agrees {descriptors descriptors' : List Value}
    (hd : List.Forall₂ Value.Agrees descriptors descriptors') :
    ∀ {made made' packages : List Package}, List.Forall₂ Package.Agrees made made' →
      c.assembleAll made descriptors = (packages, none) →
      ∃ packages', c'.assembleAll made' descriptors' = (packages', none) ∧
        List.Forall₂ Package.Agrees packages packages' := by
  induction hd with
  | nil =>
    intro made made' packages hmade h
    cases h
    exact ⟨made', rfl, hmade⟩
  | @cons d d' rest rest' hd _ ih =>
    intro made made' packages hmade h
    -- Whether an identifier is taken is asked of the packages made so far, which agree and so have
    -- the same identifiers.
    have hids : made'.map (·.id) = made.map (·.id) :=
      map_eq_of_forall₂ (fun p q hp => hp.id) hmade
    rw [assembleAll] at h ⊢
    split at h
    next p hp =>
      obtain ⟨q, hq, hagrees⟩ := assemble_agrees hc hd hp
      rw [hids, hq]
      exact ih (List.rel_append hmade (.cons hagrees .nil)) h
    next => cases h

/-- Of catalogs that agree packages are made that agree. -/
theorem packages_agree {packages : List Package} (h : c.packages = .ok packages) :
    ∃ packages', c'.packages = .ok packages' ∧ List.Forall₂ Package.Agrees packages packages' := by
  rw [Catalog.packages] at h ⊢
  split at h
  next made hmade =>
    cases h
    obtain ⟨packages', hpackages', hall⟩ := assembleAll_agrees hc hc.descriptors .nil hmade
    rw [hpackages']
    exact ⟨packages', rfl, hall⟩
  next => cases h

end

end Catalog

end RegistryTree
