import RegistryTree.Package
import RegistryTree.Proofs.Except
import RegistryTree.Proofs.Value

/-!
# Packages and their documents

What is taken from a document depends only on what the document holds, so that a document that is
like it gives the same but for the document itself. A package is genuine when each of its parts is
what its document is taken in as; every package that is made of documents is.

> `Release.ofDocument_of_like`, `Definition.ofDocument_of_like`, `Package.identifier_of_like`,
> `Package.channels_of_like`: documents that are alike are taken in as the same.
> `Package.genuine_of_ofValues`: a package that is taken from values is genuine.
> `Release.exists_twin`, `Definition.exists_twin`: what is taken in from an equal document is a twin.
-/

namespace RegistryTree

open Value

/-- Whether entries have like values, or none, under every text. -/
def Entries.Like (R : Value → Value → Prop) (xs ys : Entries) : Prop :=
  ∀ key, Option.Rel R (Entries.get? xs key) (Entries.get? ys key)

variable {R : Value → Value → Prop}

/-! ## Fields -/

namespace Field

variable {field : String} {x y : Option Value}

theorem requiredText_of_like {s : String} (hR : Likeness R) (h : Option.Rel R x y)
    (hx : requiredText field x = .ok s) : requiredText field y = .ok s := by
  obtain ⟨t, rfl, ht⟩ := requiredText_ok_iff.1 hx
  exact requiredText_ok_iff.2 ⟨t, hR.eq_text h, ht⟩

theorem optionalText_of_like {s : Option String} (hR : Likeness R) (h : Option.Rel R x y)
    (hx : optionalText field x = .ok s) : optionalText field y = .ok s := by
  unfold optionalText at hx
  split at hx
  next => rw [Likeness.eq_none h]; exact hx
  next => rw [hR.eq_null h]; exact hx
  next => rw [hR.eq_text h]; exact hx
  next => cases hx

theorem asMapping_eq_ok_iff {v : Value} {es : Entries} :
    asMapping field v = .ok es ↔ ∃ share, v = .mapping share es := by
  unfold asMapping
  split
  next share entries => simp
  next hne =>
    simp only [reduceCtorEq, false_iff]
    intro hgiven
    obtain ⟨share, rfl⟩ := hgiven
    exact hne _ _ rfl

theorem asMapping_of_like {v w : Value} {es : Entries} (hR : Likeness R) (h : R v w)
    (hv : asMapping field v = .ok es) : ∃ es', asMapping field w = .ok es' ∧ es.Like R es' := by
  obtain ⟨share, rfl⟩ := asMapping_eq_ok_iff.1 hv
  obtain ⟨share', es', rfl, hlike⟩ := hR.mapping h
  exact ⟨es', rfl, hlike⟩

theorem mapping_of_like {es : Entries} (hR : Likeness R) (h : Option.Rel R x y)
    (hx : mapping field x = .ok es) : ∃ es', mapping field y = .ok es' ∧ es.Like R es' := by
  unfold mapping at hx
  split at hx
  next =>
    cases hx
    rw [Likeness.eq_none h]
    exact ⟨[], rfl, fun key => .none⟩
  next =>
    cases hx
    rw [hR.eq_null h]
    exact ⟨[], rfl, fun key => .none⟩
  next v hnull =>
    cases h with
    | @some _ w hvw =>
      obtain ⟨es', hes, hlike⟩ := asMapping_of_like hR hvw hx
      have hw : mapping field (some w) = asMapping field w := by
        cases w with
        | null => cases hes
        | _ => rfl
      exact ⟨es', hw.trans hes, hlike⟩

theorem list_of_like {items : List Value} (hR : Likeness R) (h : Option.Rel R x y)
    (hx : list field x = .ok items) :
    ∃ items', list field y = .ok items' ∧ List.Forall₂ R items items' := by
  unfold list at hx
  split at hx
  next =>
    cases hx
    rw [Likeness.eq_none h]
    exact ⟨[], rfl, .nil⟩
  next =>
    cases hx
    rw [hR.eq_null h]
    exact ⟨[], rfl, .nil⟩
  next =>
    cases hx
    cases h with
    | some hvw =>
      obtain ⟨share, items', rfl, hitems⟩ := hR.list hvw
      exact ⟨items', rfl, hitems⟩
  next => cases hx

theorem metadataName_of_like {kind name : String} {es es' : Entries} (hR : Likeness R)
    (h : es.Like R es') (hes : metadataName kind es = .ok name) :
    metadataName kind es' = .ok name := by
  simp only [metadataName, bind_eq_ok_iff] at hes ⊢
  obtain ⟨metadata, hmetadata, hname⟩ := hes
  obtain ⟨metadata', hmetadata', hlike⟩ := mapping_of_like hR (h _) hmetadata
  exact ⟨metadata', hmetadata', requiredText_of_like hR (hlike _) hname⟩

/-- What is made of the items of a list in turn is made of like items. -/
theorem mapM_zipIdx_of_like {ε α : Type} {f : Value × Nat → Except ε α}
    (hf : ∀ {v w : Value} {i : Nat} {a : α}, R v w → f (v, i) = .ok a → f (w, i) = .ok a)
    {items items' : List Value} (h : List.Forall₂ R items items') :
    ∀ {n : Nat} {found : List α}, (items.zipIdx n).mapM f = .ok found →
      (items'.zipIdx n).mapM f = .ok found := by
  induction h with
  | nil => exact fun hfound => hfound
  | cons hvw _ ih =>
    intro n found hfound
    simp only [List.zipIdx_cons, List.mapM_cons, bind_eq_ok_iff] at hfound ⊢
    obtain ⟨a, ha, more, hmore, heq⟩ := hfound
    exact ⟨a, hf hvw ha, more, ih hmore, heq⟩

end Field

/-! ## Documents -/

theorem Release.reference_of_like {field : String} {v w : Value} {k : ResourceKey}
    (hR : Likeness R) (h : R v w) (hv : reference field v = .ok k) :
    reference field w = .ok k := by
  simp only [reference, bind_eq_ok_iff] at hv ⊢
  obtain ⟨es, hes, name, hname, version, hversion, kind, hkind, heq⟩ := hv
  obtain ⟨es', hes', hlike⟩ := Field.asMapping_of_like hR h hes
  exact ⟨es', hes', name, Field.requiredText_of_like hR (hlike _) hname, version,
    Field.requiredText_of_like hR (hlike _) hversion, kind,
    Field.requiredText_of_like hR (hlike _) hkind, heq⟩

theorem Release.references_of_like {field : String} {items items' : List Value}
    {keys : List ResourceKey} (hR : Likeness R) (h : List.Forall₂ R items items')
    (hitems : references field items = .ok keys) : references field items' = .ok keys :=
  Field.mapM_zipIdx_of_like (fun h hv => reference_of_like hR h hv) h hitems

/-- A release is taken in from a like document as the same. -/
theorem Release.ofDocument_of_like {v w : Value} {r : Release} (hR : Likeness R) (h : R v w)
    (hv : ofDocument v = .ok r) : ∃ document, ofDocument w = .ok { r with document } := by
  simp only [ofDocument, bind_eq_ok_iff] at hv
  obtain ⟨document, hdocument, name, hname, spec, hspec, definitions, hdefinitions, version,
    hversion, replaces, hreplaces, ownedItems, hownedItems, owned, howned, requiredItems,
    hrequiredItems, required, hrequired, heq⟩ := hv
  cases heq
  -- Each field of the other document is like the field of this one, so the readers go through it in
  -- the same order; only the document kept beside the fields is another.
  obtain ⟨document', hdocument', hlike⟩ := Field.asMapping_of_like hR h hdocument
  obtain ⟨spec', hspec', hsame⟩ := Field.mapping_of_like hR (hlike _) hspec
  obtain ⟨definitions', hdefinitions', hinner⟩ := Field.mapping_of_like hR (hsame _) hdefinitions
  obtain ⟨ownedItems', hownedItems', howned'⟩ := Field.list_of_like hR (hinner _) hownedItems
  obtain ⟨requiredItems', hrequiredItems', hrequired'⟩ :=
    Field.list_of_like hR (hinner _) hrequiredItems
  refine ⟨document', ?_⟩
  simp only [ofDocument, bind_eq_ok_iff]
  exact ⟨document', hdocument', name, Field.metadataName_of_like hR hlike hname, spec', hspec',
    definitions', hdefinitions', version, Field.optionalText_of_like hR (hsame _) hversion,
    replaces, Field.optionalText_of_like hR (hsame _) hreplaces, ownedItems', hownedItems', owned,
    references_of_like hR howned' howned, requiredItems', hrequiredItems', required,
    references_of_like hR hrequired' hrequired, rfl⟩

theorem Definition.listedVersions_of_like {field : String} {items items' : List Value}
    {versions : List String} (hR : Likeness R) (h : List.Forall₂ R items items')
    (hitems : listedVersions field items = .ok versions) :
    listedVersions field items' = .ok versions := by
  refine Field.mapM_zipIdx_of_like (fun h hv => ?_) h hitems
  simp only [bind_eq_ok_iff] at hv ⊢
  obtain ⟨es, hes, hname⟩ := hv
  obtain ⟨es', hes', hlike⟩ := Field.asMapping_of_like hR h hes
  exact ⟨es', hes', Field.requiredText_of_like hR (hlike _) hname⟩

/-- A definition is taken in from a like document as the same. -/
theorem Definition.ofDocument_of_like {v w : Value} {d : Definition} (hR : Likeness R) (h : R v w)
    (hv : ofDocument v = .ok d) : ∃ document, ofDocument w = .ok { d with document } := by
  simp only [ofDocument, bind_eq_ok_iff] at hv
  obtain ⟨document, hdocument, name, hname, spec, hspec, group, hgroup, names, hnames, kind, hkind,
    single, hsingle, items, hitems, listed, hlisted, heq⟩ := hv
  obtain ⟨document', hdocument', hlike⟩ := Field.asMapping_of_like hR h hdocument
  obtain ⟨spec', hspec', hsame⟩ := Field.mapping_of_like hR (hlike _) hspec
  obtain ⟨names', hnames', hinner⟩ := Field.mapping_of_like hR (hsame _) hnames
  obtain ⟨items', hitems', hlist⟩ := Field.list_of_like hR (hsame _) hitems
  split at heq
  next => cases heq
  next hne =>
    cases heq
    refine ⟨document', ?_⟩
    simp only [ofDocument, bind_eq_ok_iff]
    refine ⟨document', hdocument', name, Field.metadataName_of_like hR hlike hname, spec', hspec',
      group, Field.requiredText_of_like hR (hsame _) hgroup, names', hnames', kind,
      Field.requiredText_of_like hR (hinner _) hkind, single,
      Field.optionalText_of_like hR (hsame _) hsingle, items', hitems', listed,
      listedVersions_of_like hR hlist hlisted, ?_⟩
    rw [dif_neg hne]

/-- A descriptor that is like another has the same identifier. -/
theorem Package.identifier_of_like {v w : Value} {document : Entries} {id : String}
    (hR : Likeness R) (h : R v w) (hv : identifier v = .ok (document, id)) :
    ∃ document', identifier w = .ok (document', id) ∧ document.Like R document' := by
  simp only [identifier, bind_eq_ok_iff] at hv ⊢
  obtain ⟨es, hes, name, hname, heq⟩ := hv
  cases heq
  obtain ⟨es', hes', hlike⟩ := Field.asMapping_of_like hR h hes
  exact ⟨es', ⟨es', hes', id, Field.requiredText_of_like hR (hlike _) hname, rfl⟩, hlike⟩

/-- A package with a like descriptor and the same identifier has the same channels. -/
theorem Package.channels_of_like {p q : Package} {channels : List (String × Option String)}
    (hR : Likeness R) (hdocument : p.document.Like R q.document) (hid : q.id = p.id)
    (hp : p.channels = .ok channels) : q.channels = .ok channels := by
  simp only [Package.channels, label, hid, bind_eq_ok_iff] at hp ⊢
  obtain ⟨items, hitems, found, hfound, heq⟩ := hp
  obtain ⟨items', hitems', hlike⟩ := Field.list_of_like hR (hdocument _) hitems
  refine ⟨items', hitems', found, Field.mapM_zipIdx_of_like (fun h hv => ?_) hlike hfound, heq⟩
  simp only [bind_eq_ok_iff] at hv ⊢
  obtain ⟨es, hes, name, hname, head, hhead, heq⟩ := hv
  obtain ⟨es', hes', hentries⟩ := Field.asMapping_of_like hR h hes
  exact ⟨es', hes', name, Field.requiredText_of_like hR (hentries _) hname, head,
    Field.optionalText_of_like hR (hentries _) hhead, heq⟩

/-! ## Genuine packages -/

/-- What a release is taken in from is a mapping with the entries that it keeps. -/
theorem Release.ofDocument_mapping {v : Value} {r : Release} (h : ofDocument v = .ok r) :
    ∃ share, v = .mapping share r.document := by
  simp only [ofDocument, bind_eq_ok_iff] at h
  obtain ⟨document, hdocument, _, _, _, _, _, _, _, _, _, _, _, _, _, _, _, _, _, _, heq⟩ := h
  cases heq
  exact Field.asMapping_eq_ok_iff.1 hdocument

theorem Release.ofDocument_document {v : Value} {r : Release} (h : ofDocument v = .ok r) :
    ofDocument (.mapping none r.document) = .ok r := by
  obtain ⟨share, rfl⟩ := ofDocument_mapping h
  exact h

/-- What a definition is taken in from is a mapping with the entries that it keeps. -/
theorem Definition.ofDocument_mapping {v : Value} {d : Definition} (h : ofDocument v = .ok d) :
    ∃ share, v = .mapping share d.document := by
  simp only [ofDocument, bind_eq_ok_iff] at h
  obtain ⟨document, hdocument, _, _, _, _, _, _, _, _, _, _, _, _, _, _, _, _, heq⟩ := h
  split at heq
  next => cases heq
  next =>
    cases heq
    exact Field.asMapping_eq_ok_iff.1 hdocument

theorem Definition.ofDocument_document {v : Value} {d : Definition} (h : ofDocument v = .ok d) :
    ofDocument (.mapping none d.document) = .ok d := by
  obtain ⟨share, rfl⟩ := ofDocument_mapping h
  exact h

namespace Package

/-- A package each part of which is what its document is taken in as. -/
structure Genuine (p : Package) : Prop where
  descriptor : identifier (.mapping none p.document) = .ok (p.document, p.id)
  releases : ∀ r ∈ p.releases, Release.ofDocument (.mapping none r.document) = .ok r
  definitions : ∀ d ∈ p.definitions, Definition.ofDocument (.mapping none d.document) = .ok d

/-- What a descriptor is taken in from is a mapping with the entries that are kept. -/
theorem identifier_mapping {v : Value} {document : Entries} {id : String}
    (h : identifier v = .ok (document, id)) : ∃ share, v = .mapping share document := by
  simp only [identifier, bind_eq_ok_iff] at h
  obtain ⟨es, hdocument, _, _, heq⟩ := h
  cases heq
  exact Field.asMapping_eq_ok_iff.1 hdocument

theorem identifier_document {v : Value} {document : Entries} {id : String}
    (h : identifier v = .ok (document, id)) :
    identifier (.mapping none document) = .ok (document, id) := by
  obtain ⟨share, rfl⟩ := identifier_mapping h
  exact h

/-- A package that is taken from values is genuine. -/
theorem genuine_of_ofValues {v : Value} {releases definitions : List Value} {p : Package}
    (h : ofValues v releases definitions = .ok p) : p.Genuine := by
  simp only [ofValues, bind_eq_ok_iff, mapError_eq_ok_iff, mapM_eq_ok_iff] at h
  obtain ⟨⟨document, id⟩, hid, rs, hrs, ds, hds, heq⟩ := h
  cases heq
  refine ⟨identifier_document hid, fun r hr => ?_, fun d hd => ?_⟩
  · obtain ⟨w, -, hw⟩ := mem_of_forall₂ hrs hr
    unfold releaseOf at hw
    split at hw
    next => exact Release.ofDocument_document (mapError_eq_ok_iff.1 hw)
    next => cases hw
  · obtain ⟨w, -, hw⟩ := mem_of_forall₂ hds hd
    unfold definitionOf at hw
    split at hw
    next => exact Definition.ofDocument_document (mapError_eq_ok_iff.1 hw)
    next => cases hw

/-- What is taken from values is genuine, when they hold a package. -/
theorem genuine_getD {v : Value} {releases definitions : List Value}
    (h : (ofValues v releases definitions).isOk = true) (other : Package) :
    ((ofValues v releases definitions).toOption.getD other).Genuine := by
  cases hp : ofValues v releases definitions with
  | error fault =>
    rw [hp] at h
    cases h
  | ok p => exact genuine_of_ofValues hp

end Package

/-! ## Twins -/

/-- Whether entries are equal as those of mappings. -/
def Entries.Equal (xs ys : Entries) : Prop := (mapping none xs).equal (mapping none ys) = true

theorem Entries.equal_of_mapping {xs ys : Entries} {share : Share}
    (h : (mapping none xs).equal (mapping share ys) = true) : xs.Equal ys := by
  rw [Entries.Equal]
  rw [equal] at h ⊢
  exact h

/-- Whether two releases have equal documents and are the same else. -/
structure Release.Twin (r r' : Release) : Prop where
  document : r.document.Equal r'.document
  rest : r' = { r with document := r'.document }

/-- Whether two definitions have equal documents and are the same else. -/
structure Definition.Twin (d d' : Definition) : Prop where
  document : d.document.Equal d'.document
  rest : d' = { d with document := d'.document }

/-- A document that is equal to that of a release is taken in as its twin. -/
theorem Release.exists_twin {r : Release} {v : Value}
    (h : (mapping none r.document).equal v = true)
    (hr : ofDocument (mapping none r.document) = .ok r) :
    ∃ r', ofDocument v = .ok r' ∧ r.Twin r' := by
  obtain ⟨document, hdocument⟩ := ofDocument_of_like likeness_equal h hr
  obtain ⟨share, rfl⟩ := ofDocument_mapping hdocument
  exact ⟨_, hdocument, Entries.equal_of_mapping h, rfl⟩

/-- A document that is equal to that of a definition is taken in as its twin. -/
theorem Definition.exists_twin {d : Definition} {v : Value}
    (h : (mapping none d.document).equal v = true)
    (hd : ofDocument (mapping none d.document) = .ok d) :
    ∃ d', ofDocument v = .ok d' ∧ d.Twin d' := by
  obtain ⟨document, hdocument⟩ := ofDocument_of_like likeness_equal h hd
  obtain ⟨share, rfl⟩ := ofDocument_mapping hdocument
  exact ⟨_, hdocument, Entries.equal_of_mapping h, rfl⟩

/-- A descriptor that is equal to that of a package gives the identifier and an equal document. -/
theorem Package.exists_identifier {p : Package} {v : Value}
    (h : (mapping none p.document).equal v = true)
    (hp : identifier (mapping none p.document) = .ok (p.document, p.id)) :
    ∃ document, identifier v = .ok (document, p.id) ∧ p.document.Equal document := by
  obtain ⟨document, hdocument, -⟩ := identifier_of_like likeness_equal h hp
  obtain ⟨share, rfl⟩ := identifier_mapping hdocument
  exact ⟨document, hdocument, Entries.equal_of_mapping h⟩

theorem Definition.Twin.name_eq {d d' : Definition} (h : d.Twin d') : d'.name = d.name := by
  rw [h.rest]

theorem Definition.Twin.keys_eq {d d' : Definition} (h : d.Twin d') : d'.keys = d.keys := by
  rw [h.rest]
  rfl

end RegistryTree
