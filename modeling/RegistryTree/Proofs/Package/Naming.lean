import RegistryTree.Proofs.Package.Acceptance
import RegistryTree.Proofs.Package.Resolution
import RegistryTree.Proofs.Text.Blank

/-!
# References that follow the rule for names

A definition is named by the rule when its name is a word, a point and its group. A reference to a
version of such a definition gives the name, the version and the kind, with white space around them
or without. The two documents then agree on the key, although one has the group in a field of its own
and the other in what follows the first point of the name: the word has no point, whatever points the
group has.

So a release that refers to definitions of a list in this way resolves in the list.

> `Release.RefersTo.names`: what a reference names is a key of the definition.
> `resolve_referred`: a release resolves to definitions that serve the keys it refers to.
-/

namespace RegistryTree

open Text Value

/-! ## Texts that documents say -/

/-- Whether down a way of keys there stands a text with white space around it. -/
def Value.HoldsPadded (v : Value) (way : List String) (s : String) : Prop :=
  ∃ t, v.down? way = some (.text t) ∧ IsPadded t.toList s.toList

/-- What is said anywhere is said by each text that has white space around it. -/
theorem Value.Says.of_padded {v w : Value} {way way' : List String} {s : String}
    (h : v.Says way s) (hw : w.HoldsPadded way' s) : w.Says way' s := by
  obtain ⟨t, -, rfl, hne⟩ := h
  obtain ⟨u, hu, hpadded⟩ := hw
  exact ⟨u, hu, (trim_of_padded hpadded).trans (trim_trim t), hne⟩

/-! ## Definitions and references to them -/

/-- The key under which a definition serves a version. -/
def Definition.keyOf (d : Definition) (version : String) : ResourceKey := ⟨d.group, version, d.kind⟩

/-- Whether a definition is named by the rule: a word without a point, a point, and the group. -/
def Definition.IsNamedByRule (d : Definition) : Prop :=
  ∃ word : String, word ≠ "" ∧ '.' ∉ word.toList ∧ d.name = word ++ "." ++ d.group

theorem Definition.keyOf_mem_keys_iff {d : Definition} {version : String} :
    d.keyOf version ∈ d.keys ↔ version ∈ d.versions := by
  simp [keyOf, keys]

/-- Whether a value refers to a version of a definition. -/
structure Release.RefersTo (item : Value) (d : Definition) (version : String) : Prop where
  name : item.HoldsPadded ["name"] d.name
  version : item.HoldsPadded ["version"] version
  kind : item.HoldsPadded ["kind"] d.kind

/-- What a reference names is the key of the version of the definition. -/
theorem Release.RefersTo.names {item v : Value} {d : Definition} {version : String}
    (h : RefersTo item d version) (hd : Definition.ofDocument v = .ok d) (hrule : d.IsNamedByRule)
    (hversion : version ∈ d.versions) : Names item (d.keyOf version) := by
  obtain ⟨-, hread⟩ := Definition.ofDocument_eq_ok_iff.1 hd
  -- the document of the definition says that the key is served
  obtain ⟨-, hkind, hserved⟩ :=
    (Definition.mem_keys_iff hd).1 (Definition.keyOf_mem_keys_iff.2 hversion)
  have hsaid : item.Says ["version"] version := by
    rcases hserved with hsingle | ⟨listed, -, hlisted⟩
    · exact hsingle.of_padded h.version
    · exact hlisted.of_padded h.version
  obtain ⟨word, -, hpoint, hname⟩ := hrule
  have hgroup : IsGroupOf d.name d.group := Or.inl ⟨word, hpoint, hname⟩
  exact ⟨d.name, hread.name.of_padded h.name, hgroup, hsaid, hkind.of_padded h.kind⟩

/-- Values name no more than one key each. -/
theorem Release.eq_of_forall₂_names {items : List Value} {ks ls : List ResourceKey}
    (hks : List.Forall₂ Names items ks) (hls : List.Forall₂ Names items ls) : ks = ls := by
  have hread : references "" items = .ok ks := references_eq_ok_iff.2 hks
  rw [references_eq_ok_iff.2 hls] at hread
  exact (Except.ok.inj hread).symm

namespace Resolution

variable {ds : List Definition} {k : ResourceKey} {d e : Definition}

/-- Only one definition is the first that serves a key. -/
theorem FirstServing.unique (hd : FirstServing ds k d) (he : FirstServing ds k e) : d = e := by
  rw [← get?_index_eq_some_iff] at hd he
  exact Option.some.inj (hd.symm.trans he)

/-- A key that some definition serves is served by one first. -/
theorem exists_firstServing (hd : d ∈ ds) (hk : k ∈ d.keys) : ∃ e, FirstServing ds k e := by
  cases hfound : get? (index Definition.keys ds) k with
  | some e => exact ⟨e, get?_index_eq_some_iff.1 hfound⟩
  | none => exact absurd hk (get?_index_eq_none_iff.1 hfound d hd)

/-- Whether a value refers by the rule to a version of a definition of a list. -/
structure Referred (ds : List Definition) (item : Value) (c : Definition × String) : Prop where
  listed : c.1 ∈ ds
  rule : c.1.IsNamedByRule
  served : c.2 ∈ c.1.versions
  refers : Release.RefersTo item c.1 c.2

/-- A release whose references follow the rule, each to a definition of a list, is taken in with the
keys of these definitions and resolves in the list. For each reference it has a definition that
serves just the key of the reference, the first of the list that does; which is the definition that
the reference is to, when no definition before it serves the key. -/
theorem resolve_referred {ds : List Definition} {document : Value}
    {referred : List (Definition × String)}
    (hds : ∀ d ∈ ds, ∃ v, Definition.ofDocument v = .ok d) (hdocument : Release.WellFormed document)
    (howned : List.Forall₂ (Referred ds)
      (document.itemsAt ["spec", "customresourcedefinitions", "owned"]) referred) :
    ∃ r found, Release.ofDocument document = .ok r ∧
      r.owned = referred.map (fun c => c.1.keyOf c.2) ∧
      resolve r (index Definition.keys ds) = .ok found ∧
      List.Forall₂ (fun c d => FirstServing ds (c.1.keyOf c.2) d ∧
        ∀ front back, ds = front ++ c.1 :: back → (∀ e ∈ front, c.1.keyOf c.2 ∉ e.keys) →
          d = c.1) referred found := by
  obtain ⟨r, hr⟩ := hdocument.exists_readFrom
  have hnames : List.Forall₂ Release.Names
      (document.itemsAt ["spec", "customresourcedefinitions", "owned"])
      (referred.map fun c => c.1.keyOf c.2) := by
    rw [List.forall₂_map_right_iff]
    refine howned.imp fun item c h => ?_
    obtain ⟨v, hv⟩ := hds c.1 h.listed
    exact h.refers.names hv h.rule h.served
  have hkeys := Release.eq_of_forall₂_names hr.owned hnames
  -- Each key is served at least by the definition that it was made of; another one may come before
  -- it.
  have hserved : ∀ c ∈ referred, ∃ d, FirstServing ds (c.1.keyOf c.2) d := by
    intro c hc
    obtain ⟨item, -, h⟩ := mem_of_forall₂ howned hc
    exact exists_firstServing h.listed (Definition.keyOf_mem_keys_iff.2 h.served)
  obtain ⟨found, hfound⟩ := exists_forall₂_iff.2 hserved
  refine ⟨r, found, Release.ofDocument_eq_ok_iff.2 ⟨hdocument, hr⟩, hkeys, ?_, ?_⟩
  · rw [resolve_index_eq_ok_iff, hkeys, List.forall₂_map_left_iff]
    exact hfound
  · refine forall₂_imp_of_mem hfound fun c hc d hd => ⟨hd, fun front back hsplit hfront => ?_⟩
    obtain ⟨item, -, h⟩ := mem_of_forall₂ howned hc
    exact hd.unique ⟨front, back, hsplit, Definition.keyOf_mem_keys_iff.2 h.served, hfront⟩

/-- The document of a definition that serves some versions of a kind. -/
def definitionDocument (name group kind : String) (versions : List String) : Value :=
  .mapping none [
    (.text "metadata", .mapping none [(.text "name", .text name)]),
    (.text "spec", .mapping none [
      (.text "group", .text group),
      (.text "names", .mapping none [(.text "kind", .text kind)]),
      (.text "versions", .list none (versions.map fun version =>
        .mapping none [(.text "name", .text version)]))])]

/-- A reference with white space in it, and a field that nobody asks for. -/
def gadgetReference : Value :=
  .mapping none [(.text "displayName", .text "Gadget"), (.text "kind", .text "Gadget "),
    (.text "name", .text "\tgadgets.apps.demo.io\n"), (.text "version", .text " v2")]

/-- The document of a release that owns what the reference is to. -/
def gadgetRelease : Value :=
  .mapping none [
    (.text "metadata", .mapping none [(.text "name", .text "demo.v1")]),
    (.text "spec", .mapping none [(.text "customresourcedefinitions",
      .mapping none [(.text "owned", .list none [gadgetReference])])])]

/-- The group has points, an earlier definition serves another version, and what the reference is to
is found. -/
theorem resolve_referred_gadgets : ∃ old new r,
    Definition.ofDocument (definitionDocument "old.apps.demo.io" "apps.demo.io" "Gadget" ["v1"]) =
      .ok old ∧
    Definition.ofDocument
      (definitionDocument "gadgets.apps.demo.io" "apps.demo.io" "Gadget" ["v1", "v2"]) = .ok new ∧
    Release.ofDocument gadgetRelease = .ok r ∧
    resolve r (index Definition.keys [old, new]) = .ok [new] := by
  obtain ⟨old, hold, hkeys⟩ : ∃ old, Definition.ofDocument
      (definitionDocument "old.apps.demo.io" "apps.demo.io" "Gadget" ["v1"]) = .ok old ∧
      old.keys = [⟨"apps.demo.io", "v1", "Gadget"⟩] := ⟨_, rfl, rfl⟩
  obtain ⟨new, hnew, hname, hgroup, hkind, hversions⟩ : ∃ new, Definition.ofDocument
      (definitionDocument "gadgets.apps.demo.io" "apps.demo.io" "Gadget" ["v1", "v2"]) = .ok new ∧
      new.name = "gadgets.apps.demo.io" ∧ new.group = "apps.demo.io" ∧ new.kind = "Gadget" ∧
      new.versions = ["v1", "v2"] := ⟨_, rfl, rfl, rfl, rfl, rfl⟩
  obtain ⟨given, hgiven⟩ : ∃ r, Release.ofDocument gadgetRelease = .ok r := ⟨_, rfl⟩
  have hrefers : Release.RefersTo gadgetReference new "v2" := by
    have hblank : ∀ c, Text.isBlank c = true → ∀ d ∈ [c], Text.isBlank d = true := by
      intro c hc
      exact List.forall_mem_singleton.2 hc
    refine ⟨⟨_, rfl, ['\t'], ['\n'], hblank _ rfl, hblank _ rfl, ?_⟩,
      ⟨_, rfl, [' '], [], hblank _ rfl, by simp, rfl⟩,
      ⟨_, rfl, [], [' '], by simp, hblank _ rfl, ?_⟩⟩
    · rw [hname]
      rfl
    · rw [hkind]
      rfl
  have hreferred : Referred [old, new] gadgetReference (new, "v2") := by
    refine ⟨by simp, ⟨"gadgets", by decide, by decide, ?_⟩, ?_, hrefers⟩
    · rw [hname, hgroup]
      rfl
    · rw [hversions]
      simp
  have hds : ∀ d ∈ [old, new], ∃ v, Definition.ofDocument v = .ok d := by
    simp only [List.forall_mem_cons]
    exact ⟨⟨_, hold⟩, ⟨_, hnew⟩, by simp⟩
  have howned : List.Forall₂ (Referred [old, new])
      (gadgetRelease.itemsAt ["spec", "customresourcedefinitions", "owned"]) [(new, "v2")] :=
    .cons hreferred .nil
  obtain ⟨r, found, hr, -, hresolve, hfound⟩ :=
    resolve_referred hds (Release.ofDocument_eq_ok_iff.1 hgiven).1 howned
  obtain ⟨d, hd, rfl⟩ : ∃ d, d = new ∧ found = [d] := by
    rcases hfound with _ | ⟨⟨-, hown⟩, _ | _⟩
    refine ⟨_, hown [old] [] rfl fun e he => ?_, rfl⟩
    rw [List.mem_singleton.1 he, hkeys, Definition.keyOf, hgroup, hkind]
    simp
  rw [hd] at hresolve
  exact ⟨old, new, r, hold, hnew, hr, hresolve⟩

end Resolution

end RegistryTree
