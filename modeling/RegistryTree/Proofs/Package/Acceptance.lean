import RegistryTree.Proofs.Package.Content

/-!
# Which documents are taken in, and as what

A document is taken in when its few fields are as they should be, whatever else it holds. Some fields
must hold a text with a character that is not blank. Others may be left out, and then hold nothing or
are missing altogether; where they stand below a mapping, that may be left out with them. All lists
that are looked at are looked at to the end.

What is taken in is what the fields say: a text counts without the white space around it, and one
that is blank counts as left out.

> `Definition.ofDocument_eq_ok_iff`, `Release.ofDocument_eq_ok_iff`: a document is taken in as what it
> says, when its fields are as they should be.
> `Definition.mem_keys_iff`, `Release.mem_owned_iff`, `Release.version_eq_some_iff`: so its keys and its
> version are those that the document says.
> `definition_ofDocument_cases`, `release_ofDocument_cases`: every document is taken in or refused.
-/

namespace RegistryTree

open Value

/-- Along a list there is something related to each element when each element has something. -/
theorem exists_forall₂_iff {α β : Type} {R : α → β → Prop} {xs : List α} :
    (∃ ys, List.Forall₂ R xs ys) ↔ ∀ x ∈ xs, ∃ y, R x y := by
  induction xs with
  | nil => simp
  | cons x xs ih =>
    rw [List.forall_mem_cons, ← ih]
    constructor
    · rintro ⟨_, hall⟩
      cases hall with
      | cons hx hrest => exact ⟨⟨_, hx⟩, _, hrest⟩
    · rintro ⟨⟨_, hx⟩, _, hrest⟩
      exact ⟨_, .cons hx hrest⟩

/-- Along related lists, of elements that are each related to one thing only, the second holds what
is related to an element of the first. -/
theorem mem_iff_of_forall₂ {α β : Type} {R : α → β → Prop} {xs : List α} {ys : List β}
    (h : List.Forall₂ R xs ys) (hR : ∀ x y z, R x y → R x z → y = z) {y : β} :
    y ∈ ys ↔ ∃ x ∈ xs, R x y := by
  refine ⟨mem_of_forall₂ h, ?_⟩
  rintro ⟨x, hx, hxy⟩
  obtain ⟨z, hz, hxz⟩ := mem_of_forall₂ h.flip hx
  rwa [hR x y z hxy hxz]

/-! ## Definitions -/

namespace Definition

/-- Whether a document is one of a definition. -/
structure WellFormed (v : Value) : Prop where
  document : v.IsMapping
  name : v.HoldsText ["metadata", "name"]
  group : v.HoldsText ["spec", "group"]
  kind : v.HoldsText ["spec", "names", "kind"]
  version : v.MayHold ["spec", "version"] IsText
  versions : v.MayHold ["spec", "versions"] IsList
  named : ∀ item ∈ v.itemsAt ["spec", "versions"], item.HoldsText ["name"]
  served : v.HoldsText ["spec", "version"] ∨ v.itemsAt ["spec", "versions"] ≠ []

/-- Whether a definition is what a document says: of the single version and the listed ones each
once, in the order in which they first come. -/
structure ReadFrom (v : Value) (d : Definition) : Prop where
  document : ∃ share, v = .mapping share d.document
  name : v.Says ["metadata", "name"] d.name
  group : v.Says ["spec", "group"] d.group
  kind : v.Says ["spec", "names", "kind"] d.kind
  versions : ∃ listed,
    List.Forall₂ (fun item s => item.Says ["name"] s) (v.itemsAt ["spec", "versions"]) listed ∧
      d.versions = ((v.said? ["spec", "version"]).toList ++ listed).eraseDups

/-- Whether a definition document says that a key is served. -/
def Serves (document : Value) (k : ResourceKey) : Prop :=
  document.Says ["spec", "group"] k.group ∧ document.Says ["spec", "names", "kind"] k.kind ∧
    (document.Says ["spec", "version"] k.version ∨
      ∃ item, document.Lists ["spec", "versions"] item ∧ item.Says ["name"] k.version)

theorem distinct_eq_eraseDups (xs : List String) : distinct xs = xs.eraseDups := by
  suffices hall : ∀ kept : List String, kept.eraseDups = kept →
      xs.foldl (fun kept x => if x ∈ kept then kept else kept ++ [x]) kept =
        (kept ++ xs).eraseDups from hall [] rfl
  induction xs with
  | nil =>
    intro kept hkept
    rw [List.foldl_nil, List.append_nil, hkept]
  | cons x rest ih =>
    intro kept hkept
    rw [List.foldl_cons]
    by_cases hx : x ∈ kept
    · rw [if_pos hx, ih kept hkept, List.eraseDups_append, List.eraseDups_append,
        List.cons_removeAll, if_neg (by simpa using hx)]
    · have hone : [x].removeAll kept = [x] := by
        rw [List.cons_removeAll, if_pos (by simpa using hx), List.nil_removeAll]
      rw [if_neg hx, ih _ (by rw [List.eraseDups_append, hone, hkept]; rfl), List.append_assoc,
        List.singleton_append]

theorem listedVersions_eq_ok_iff {field : String} {items : List Value} {listed : List String} :
    listedVersions field items = .ok listed ↔
      List.Forall₂ (fun item s => item.Says ["name"] s) items listed := by
  refine Field.mapM_zipIdx_eq_ok_iff fun item i s => ?_
  simp only [bind_eq_ok_iff, Field.asMapping_entries_iff]
  constructor
  · rintro ⟨_, ⟨-, rfl⟩, hname⟩
    rwa [get?_entriesAt, Field.requiredText_down_iff] at hname
  · intro h
    refine ⟨_, ⟨Says.isMapping h, rfl⟩, ?_⟩
    rwa [get?_entriesAt, Field.requiredText_down_iff]

theorem ofDocument_eq_ok_iff {v : Value} {d : Definition} :
    ofDocument v = .ok d ↔ WellFormed v ∧ ReadFrom v d := by
  simp only [ofDocument, bind_eq_ok_iff, Field.asMapping_entries_iff, and_assoc, exists_and_left,
    exists_eq_left, get?_entriesAt, List.nil_append, List.cons_append, Field.metadataName_iff,
    Field.mapping_down_iff, Field.requiredText_down_iff, Field.optionalText_down_iff,
    Field.list_down_iff, listedVersions_eq_ok_iff]
  constructor
  · rintro ⟨⟨share, entries, rfl⟩, name, hname, -, group, hgroup, -, kind, hkind, hversion, hversions,
      listed, hlisted, heq⟩
    split at heq
    next => cases heq
    next hne =>
      cases heq
      refine ⟨⟨⟨share, entries, rfl⟩, holdsText_iff.2 ⟨_, hname⟩, holdsText_iff.2 ⟨_, hgroup⟩,
        holdsText_iff.2 ⟨_, hkind⟩, hversion, hversions, fun item hitem => ?_, ?_⟩, ⟨share, rfl⟩, hname,
        hgroup, hkind, listed, hlisted, distinct_eq_eraseDups _⟩
      · obtain ⟨s, -, hs⟩ := mem_of_forall₂ hlisted.flip hitem
        exact holdsText_iff.2 ⟨s, hs⟩
      · cases hsingle : (Value.mapping share entries).said? ["spec", "version"] with
        | some s => exact .inl (holdsText_iff.2 ⟨s, said?_eq_some_iff.1 hsingle⟩)
        | none =>
          -- with neither there would be no version
          refine .inr fun hnone => hne ?_
          rw [hnone, List.forall₂_nil_left_iff] at hlisted
          rw [hsingle, hlisted]
          rfl
  · rintro ⟨h, ⟨share, rfl⟩, hname, hgroup, hkind, listed, hlisted, heq⟩
    refine ⟨h.document, d.name, hname, Says.mayHold ["spec"] hgroup, d.group, hgroup,
      Says.mayHold ["spec", "names"] hkind, d.kind, hkind, h.version, h.versions, listed,
      hlisted, ?_⟩
    rw [← distinct_eq_eraseDups] at heq
    obtain ⟨document, name, group, kind, versions, hne, hnodup⟩ := d
    dsimp only at heq
    rw [dif_neg (fun hnil => hne (heq.trans hnil)), Except.ok.injEq, Definition.mk.injEq]
    exact ⟨rfl, rfl, rfl, rfl, heq.symm⟩

/-- A document of a definition says one. -/
theorem WellFormed.exists_readFrom {v : Value} (h : WellFormed v) : ∃ d, ReadFrom v d := by
  obtain ⟨share, entries, rfl⟩ := h.document
  obtain ⟨name, hname⟩ := holdsText_iff.1 h.name
  obtain ⟨group, hgroup⟩ := holdsText_iff.1 h.group
  obtain ⟨kind, hkind⟩ := holdsText_iff.1 h.kind
  obtain ⟨listed, hlisted⟩ := exists_forall₂_iff.2 fun item hitem =>
    holdsText_iff.1 (h.named item hitem)
  have hne : ((Value.mapping share entries).said? ["spec", "version"]).toList ++ listed ≠ [] := by
    intro hnil
    obtain ⟨hsingle, rfl⟩ := List.append_eq_nil_iff.1 hnil
    rcases h.served with hheld | hitems
    · obtain ⟨s, hs⟩ := holdsText_iff.1 hheld
      rw [said?_eq_some_iff.2 hs] at hsingle
      cases hsingle
    · exact hitems (List.forall₂_nil_right_iff.1 hlisted)
  refine ⟨⟨entries, name, group, kind, distinct _, fun hnil => hne ?_, nodup_distinct _⟩, ⟨share, rfl⟩,
    hname, hgroup, hkind, listed, hlisted, distinct_eq_eraseDups _⟩
  rw [List.eq_nil_iff_forall_not_mem] at hnil ⊢
  exact fun x hx => hnil x (by rwa [distinct_eq_eraseDups, List.mem_eraseDups])

/-- The keys that a definition serves are those that its document says. -/
theorem mem_keys_iff {v : Value} {d : Definition} {k : ResourceKey} (h : ofDocument v = .ok d) :
    k ∈ d.keys ↔ Serves v k := by
  obtain ⟨-, hread⟩ := ofDocument_eq_ok_iff.1 h
  obtain ⟨listed, hlisted, hversions⟩ := hread.versions
  have hversion : k.version ∈ d.versions ↔ v.Says ["spec", "version"] k.version ∨
      ∃ item, v.Lists ["spec", "versions"] item ∧ item.Says ["name"] k.version := by
    simp only [hversions, List.mem_eraseDups, List.mem_append, Option.mem_toList,
      mem_iff_of_forall₂ hlisted fun _ _ _ => Says.inj, lists_iff]
    exact or_congr_left said?_eq_some_iff
  rw [Serves, ← hversion, keys, List.mem_map]
  constructor
  · rintro ⟨version, hmem, rfl⟩
    exact ⟨hread.group, hread.kind, hmem⟩
  · rintro ⟨hgroup, hkind, hmem⟩
    exact ⟨k.version, hmem, by rw [hread.group.inj hgroup, hread.kind.inj hkind]⟩

end Definition

/-! ## Releases -/

namespace Release

/-- Whether a value is a reference to a definition. -/
structure IsReference (item : Value) : Prop where
  name : item.HoldsText ["name"]
  version : item.HoldsText ["version"]
  kind : item.HoldsText ["kind"]

/-- Whether a text is what follows the first point of a full name, or is empty and there is none. -/
def IsGroupOf (name group : String) : Prop :=
  (∃ front : String, '.' ∉ front.toList ∧ name = front ++ "." ++ group) ∨
    ('.' ∉ name.toList ∧ group = "")

/-- Whether a reference names a key by a full name, a version and a kind. -/
def Names (item : Value) (k : ResourceKey) : Prop :=
  ∃ name, item.Says ["name"] name ∧ IsGroupOf name k.group ∧ item.Says ["version"] k.version ∧
    item.Says ["kind"] k.kind

/-- Whether a document is one of a release. -/
structure WellFormed (v : Value) : Prop where
  document : v.IsMapping
  name : v.HoldsText ["metadata", "name"]
  spec : v.MayHold ["spec"] IsMapping
  version : v.MayHold ["spec", "version"] IsText
  replaces : v.MayHold ["spec", "replaces"] IsText
  definitions : v.MayHold ["spec", "customresourcedefinitions"] IsMapping
  owned : v.MayHold ["spec", "customresourcedefinitions", "owned"] IsList
  ownedItems : ∀ item ∈ v.itemsAt ["spec", "customresourcedefinitions", "owned"], IsReference item
  required : v.MayHold ["spec", "customresourcedefinitions", "required"] IsList
  requiredItems :
    ∀ item ∈ v.itemsAt ["spec", "customresourcedefinitions", "required"], IsReference item

/-- Whether a release is what a document says: it has a key for each reference, in the order of the
references. -/
structure ReadFrom (v : Value) (r : Release) : Prop where
  document : ∃ share, v = .mapping share r.document
  name : v.Says ["metadata", "name"] r.name
  version : r.version = v.said? ["spec", "version"]
  replaces : r.replaces = v.said? ["spec", "replaces"]
  owned : List.Forall₂ Names (v.itemsAt ["spec", "customresourcedefinitions", "owned"]) r.owned
  required :
    List.Forall₂ Names (v.itemsAt ["spec", "customresourcedefinitions", "required"]) r.required

theorem groupOf_eq_iff {name group : String} : groupOf name = group ↔ IsGroupOf name group := by
  have hempty : ∀ {name : String}, '.' ∉ name.toList → groupOf name = "" := by
    intro name hpoint
    have hdrop : name.toList.dropWhile (· ≠ '.') = [] := by
      rw [List.dropWhile_eq_nil_iff]
      intro c hc
      exact decide_eq_true fun heq => hpoint (heq ▸ hc)
    rw [groupOf, groupChars, hdrop]
    rfl
  constructor
  · rintro rfl
    by_cases hpoint : '.' ∈ name.toList
    · obtain ⟨front, back, hchars, hfront⟩ := List.eq_append_cons_of_mem hpoint
      have hname : name = String.ofList front ++ "." ++ String.ofList back := by
        rw [← String.toList_inj, hchars]
        simp
      have hfirst : '.' ∉ (String.ofList front).toList := by rwa [String.toList_ofList]
      rw [hname, groupOf_append _ hfirst]
      exact .inl ⟨_, hfirst, rfl⟩
    · exact .inr ⟨hpoint, hempty hpoint⟩
  · rintro (⟨front, hfront, rfl⟩ | ⟨hpoint, rfl⟩)
    · exact groupOf_append group hfront
    · exact hempty hpoint

theorem reference_eq_ok_iff {field : String} {item : Value} {k : ResourceKey} :
    reference field item = .ok k ↔ Names item k := by
  simp only [reference, bind_eq_ok_iff, Field.asMapping_entries_iff, and_assoc, exists_and_left,
    exists_eq_left, get?_entriesAt, List.nil_append, Field.requiredText_down_iff, Names,
    ← groupOf_eq_iff]
  constructor
  · rintro ⟨-, name, hname, version, hversion, kind, hkind, heq⟩
    cases heq
    exact ⟨name, hname, rfl, hversion, hkind⟩
  · rintro ⟨name, hname, hgroup, hversion, hkind⟩
    refine ⟨Says.isMapping hname, name, hname, k.version, hversion, k.kind, hkind, ?_⟩
    rw [hgroup]
    rfl

theorem references_eq_ok_iff {field : String} {items : List Value} {keys : List ResourceKey} :
    references field items = .ok keys ↔ List.Forall₂ Names items keys :=
  Field.mapM_zipIdx_eq_ok_iff fun _ _ _ => reference_eq_ok_iff

theorem isReference_iff {item : Value} : IsReference item ↔ ∃ k, Names item k := by
  constructor
  · intro h
    obtain ⟨name, hname⟩ := holdsText_iff.1 h.name
    obtain ⟨version, hversion⟩ := holdsText_iff.1 h.version
    obtain ⟨kind, hkind⟩ := holdsText_iff.1 h.kind
    exact ⟨⟨groupOf name, version, kind⟩, name, hname, groupOf_eq_iff.1 rfl, hversion, hkind⟩
  · rintro ⟨k, name, hname, -, hversion, hkind⟩
    exact ⟨holdsText_iff.2 ⟨_, hname⟩, holdsText_iff.2 ⟨_, hversion⟩, holdsText_iff.2 ⟨_, hkind⟩⟩

theorem ofDocument_eq_ok_iff {v : Value} {r : Release} :
    ofDocument v = .ok r ↔ WellFormed v ∧ ReadFrom v r := by
  simp only [ofDocument, bind_eq_ok_iff, Field.asMapping_entries_iff, and_assoc, exists_and_left,
    exists_eq_left, get?_entriesAt, List.nil_append, List.cons_append, Field.metadataName_iff,
    Field.mapping_down_iff, Field.optionalText_down_iff, Field.list_down_iff, references_eq_ok_iff]
  constructor
  · rintro ⟨⟨share, entries, rfl⟩, name, hname, hspec, hdefinitions, hversion, hreplaces, howned, owned,
      hkeys, hrequired, required, hmore, heq⟩
    cases heq
    refine ⟨⟨⟨share, entries, rfl⟩, holdsText_iff.2 ⟨_, hname⟩, hspec, hversion, hreplaces, hdefinitions,
      howned, fun item hitem => ?_, hrequired, fun item hitem => ?_⟩, ⟨share, rfl⟩, hname, rfl, rfl,
      hkeys, hmore⟩
    · obtain ⟨k, -, hk⟩ := mem_of_forall₂ hkeys.flip hitem
      exact isReference_iff.2 ⟨k, hk⟩
    · obtain ⟨k, -, hk⟩ := mem_of_forall₂ hmore.flip hitem
      exact isReference_iff.2 ⟨k, hk⟩
  · rintro ⟨h, ⟨share, rfl⟩, hname, hversion, hreplaces, hkeys, hmore⟩
    refine ⟨h.document, r.name, hname, h.spec, h.definitions, h.version, h.replaces, h.owned, r.owned,
      hkeys, h.required, r.required, hmore, ?_⟩
    rw [← hversion, ← hreplaces]
    rfl

/-- A document of a release says one. -/
theorem WellFormed.exists_readFrom {v : Value} (h : WellFormed v) : ∃ r, ReadFrom v r := by
  obtain ⟨share, entries, rfl⟩ := h.document
  obtain ⟨name, hname⟩ := holdsText_iff.1 h.name
  obtain ⟨owned, howned⟩ := exists_forall₂_iff.2 fun item hitem =>
    isReference_iff.1 (h.ownedItems item hitem)
  obtain ⟨required, hrequired⟩ := exists_forall₂_iff.2 fun item hitem =>
    isReference_iff.1 (h.requiredItems item hitem)
  exact ⟨⟨entries, name, _, _, owned, required⟩, ⟨share, rfl⟩, hname, rfl, rfl, howned, hrequired⟩

/-- Whether a release document lists a key among those that the release owns. -/
def Owns (document : Value) (k : ResourceKey) : Prop :=
  ∃ item, document.Lists ["spec", "customresourcedefinitions", "owned"] item ∧ Names item k

/-- A reference names one key. -/
theorem Names.inj {item : Value} {k l : ResourceKey} (h : Names item k) (h' : Names item l) :
    k = l := by
  have hread : reference "" item = .ok k := reference_eq_ok_iff.2 h
  rw [reference_eq_ok_iff.2 h'] at hread
  exact (Except.ok.inj hread).symm

variable {document : Value} {r : Release}

/-- The keys that a release owns are those that its document lists. -/
theorem mem_owned_iff {k : ResourceKey} (h : ofDocument document = .ok r) :
    k ∈ r.owned ↔ Owns document k := by
  obtain ⟨-, hread⟩ := ofDocument_eq_ok_iff.1 h
  simp only [Owns, lists_iff]
  exact mem_iff_of_forall₂ hread.owned fun _ _ _ => Names.inj

/-- The version of a release is the one that its document says. -/
theorem version_eq_some_iff {version : String} (h : ofDocument document = .ok r) :
    r.version = some version ↔ document.Says ["spec", "version"] version := by
  obtain ⟨-, hread⟩ := ofDocument_eq_ok_iff.1 h
  rw [hread.version, said?_eq_some_iff]

end Release

/-! ## What is taken in -/

/-- Either a document is one of a definition, and is taken in as the definition that it says, which
serves each of its versions under one key and none of them twice; or it is none, and is refused. -/
theorem definition_ofDocument_cases (v : Value) :
    (Definition.WellFormed v ∧ ∃ d, Definition.ofDocument v = .ok d ∧ Definition.ReadFrom v d ∧
      d.versions ≠ [] ∧ d.versions.Nodup ∧
      d.keys = d.versions.map (fun version => ⟨d.group, version, d.kind⟩) ∧ d.keys.Nodup) ∨
    (¬Definition.WellFormed v ∧ ∃ fault, Definition.ofDocument v = .error fault) := by
  by_cases h : Definition.WellFormed v
  · obtain ⟨d, hd⟩ := h.exists_readFrom
    exact .inl ⟨h, d, Definition.ofDocument_eq_ok_iff.2 ⟨h, hd⟩, hd, d.versions_ne_nil,
      d.nodup_versions, rfl, d.nodup_keys⟩
  · refine .inr ⟨h, ?_⟩
    cases hd : Definition.ofDocument v with
    | ok d => exact absurd (Definition.ofDocument_eq_ok_iff.1 hd).1 h
    | error fault => exact ⟨fault, rfl⟩

/-- The single version comes first and is not listed again; a full name that has no point has no
group. -/
example :
    ((Definition.ofDocument (.mapping none [
        (.text "metadata", .mapping none [(.text "name", .text "widgets.demo.io")]),
        (.text "spec", .mapping none [(.text "group", .text "demo.io"), (.text "version", .text " v2 "),
          (.text "names", .mapping none [(.text "kind", .text "Widget")]),
          (.text "versions", .list none [.mapping none [(.text "name", .text "v1")],
            .mapping none [(.text "name", .text "v2")]])])])).toOption.map (·.versions)) =
      some ["v2", "v1"] ∧ Release.groupOf "widgets" = "" := by
  decide +kernel

/-- Either a document is one of a release, and is taken in as the release that it says; or it is none,
and is refused. -/
theorem release_ofDocument_cases (v : Value) :
    (Release.WellFormed v ∧ ∃ r, Release.ofDocument v = .ok r ∧ Release.ReadFrom v r) ∨
    (¬Release.WellFormed v ∧ ∃ fault, Release.ofDocument v = .error fault) := by
  by_cases h : Release.WellFormed v
  · obtain ⟨r, hr⟩ := h.exists_readFrom
    exact .inl ⟨h, r, Release.ofDocument_eq_ok_iff.2 ⟨h, hr⟩, hr⟩
  · refine .inr ⟨h, ?_⟩
    cases hr : Release.ofDocument v with
    | ok r => exact absurd (Release.ofDocument_eq_ok_iff.1 hr).1 h
    | error fault => exact ⟨fault, rfl⟩

end RegistryTree
