import Mathlib.Data.List.Find
import Mathlib.Order.Bounds.Basic
import RegistryTree.Proofs.Catalog.Assembly

/-!
# What a package gets of a catalog

A package gets the releases that its channels lead to, and the definitions that these releases have
to do with; of both it keeps the order of the catalog.

The releases are told apart from all others by a closure: the least set of names that has the heads
of the channels and, with a release, the one that it replaces, as far as there is one. The
definitions are chosen by their keys, one at a time, while a key leads to the first definition that
serves it. Since no definition that serves a wanted key is left out, the first of them is the same
among those that are chosen as among all.

> `packagesOf_reached`: which releases the packages of metadata have, that looking for them ends, and
> when an unknown head is told.
> `packagesOf_resolve`: a release resolves in its package as it does in the whole catalog.
-/

namespace RegistryTree.Catalog

/-! ## Releases -/

/-- A set of names that has the heads of some channels and that nothing leads out of. -/
structure Closed (releases : List Release) (channels : List (String × Option String))
    (names : Set String) : Prop where
  heads : ∀ channel head, (channel, some head) ∈ channels → head ∈ names
  replaced : ∀ name next, name ∈ names → Replaces releases name next → next ∈ names

/-- What the channels reach is the least closed set. -/
theorem isLeast_reached (releases : List Release) (channels : List (String × Option String)) :
    IsLeast {names | Closed releases channels names} {name | Reached releases channels name} := by
  constructor
  · refine ⟨fun channel head hmem => ⟨channel, head, hmem, .refl⟩, fun name next hname hstep => ?_⟩
    obtain ⟨channel, head, hmem, hleads⟩ := hname
    exact ⟨channel, head, hmem, hleads.tail hstep⟩
  · intro names hclosed name hname
    obtain ⟨channel, head, hmem, hleads⟩ := hname
    induction hleads with
    | refl => exact hclosed.heads channel head hmem
    | tail _ hstep ih => exact hclosed.replaced _ _ ih hstep

/-- The names of the releases that have been chosen are those that were gathered. -/
theorem mem_releasesOf_iff {c : Catalog} {channels : List (String × Option String)}
    {names : List String} (h : Gathered c.releases channels names) (name : String) :
    (∃ r ∈ c.releasesOf names, r.name = name) ↔ Reached c.releases channels name := by
  rw [← h.mem_iff]
  constructor
  · intro hgiven
    obtain ⟨r, hr, rfl⟩ := hgiven
    simpa using (List.mem_filter.1 hr).2
  · intro hname
    obtain ⟨r, hr⟩ := Option.isSome_iff_exists.1 (h.followed.known name hname)
    obtain ⟨hmem, rfl⟩ := release?_eq_some hr
    exact ⟨r, List.mem_filter.2 ⟨hmem, by simpa using hname⟩, rfl⟩

/-- The releases of the packages of metadata are those that their channels lead to, in the order of
the catalog and each once. The way to them ends whatever replaces what. Metadata in which nothing
else is wrong are refused exactly when a channel is headed by a release that there is not. -/
theorem packagesOf_reached (place : String) (data : Value) :
    (∀ packages, packagesOf place data = .ok packages → ∃ c, ofValue place data = .ok c ∧
      ∀ p ∈ packages, ∃ channels, p.channels = .ok channels ∧
        IsLeast {names | Closed c.releases channels names} {name | ∃ r ∈ p.releases, r.name = name} ∧
        p.releases.Sublist c.releases ∧ (p.releases.map (·.name)).Nodup) ∧
    (∀ (releases : List Release) (found : List String) (head : Option String) (left : List String),
      Walk releases found head left ↔ left = follow releases releases.length found head) ∧
    (∀ c shells, ofValue place data = .ok c → Described c.descriptors shells →
      ((∃ package channel head,
          packagesOf place data = .error (.catalog (.unknownHead package channel head))) ↔
        ∃ shell ∈ shells, HeadMissing c shell)) := by
  refine ⟨fun packages hpackages => ?_, fun _ _ _ _ => walk_iff, fun c shells hc hshells => ?_⟩
  · obtain ⟨c, hc, hmade⟩ := exists_madeOf hpackages
    refine ⟨c, hc, fun p hp => ?_⟩
    obtain ⟨descriptor, taken, hassemble⟩ := hmade p hp
    obtain ⟨channels, names, hchannels, hgathered, hreleases⟩ := assemble_releases hassemble
    have hsublist : p.releases.Sublist c.releases := by
      rw [hreleases]
      exact List.filter_sublist
    refine ⟨channels, hchannels, ?_, hsublist,
      (nodup_of_ofValue hc).sublist (hsublist.map (·.name))⟩
    have hnames : {name | ∃ r ∈ p.releases, r.name = name} =
        {name | Reached c.releases channels name} := by
      ext name
      rw [hreleases]
      exact mem_releasesOf_iff hgathered name
    rw [hnames]
    exact isLeast_reached c.releases channels
  · have hrun : packagesOf place data = c.packages := by
      rw [packagesOf, hc]
      rfl
    rw [hrun]
    rcases packages_cases hshells with ⟨⟨packages, hok⟩, hall⟩ | ⟨hmissing, htold⟩
    · constructor
      · intro hgiven
        obtain ⟨package, channel, head, herror⟩ := hgiven
        rw [hok] at herror
        cases herror
      · intro hgiven
        obtain ⟨shell, hmem, hmissing⟩ := hgiven
        exact absurd hmissing (hall shell hmem)
    · exact ⟨fun _ => hmissing, fun _ => htold⟩

/-- The document of a release that replaces another and owns widgets in one version. -/
def linkedRelease (name replaces version : String) : Value :=
  .mapping none [(.text "metadata", .mapping none [(.text "name", .text name)]),
    (.text "spec", .mapping none [(.text "replaces", .text replaces),
      (.text "customresourcedefinitions", .mapping none [(.text "owned", .list none [
        .mapping none [(.text "name", .text "widgets.demo.io"), (.text "version", .text version),
          (.text "kind", .text "Widget")]])])])]

/-- The document of a definition that serves widgets in some versions. -/
def widgetsIn (name : String) (versions : List String) : Value :=
  .mapping none [(.text "metadata", .mapping none [(.text "name", .text name)]),
    (.text "spec", .mapping none [(.text "group", .text "demo.io"),
      (.text "names", .mapping none [(.text "kind", .text "Widget")]),
      (.text "versions", .list none
        (versions.map fun v => .mapping none [(.text "name", .text v)]))])]

/-- A channel with its head. -/
def channelEntry (name head : String) : Value :=
  .mapping none [(.text "name", .text name), (.text "currentCSV", .text head)]

/-- The descriptor of a package with some channels. -/
def ringDescriptor (channels : List (String × String)) : Value :=
  .mapping none [(.text "packageName", .text "demo"),
    (.text "channels", .list none (channels.map fun e => channelEntry e.1 e.2))]

/-- Metadata in which two releases replace each other, and a third replaces one of them. -/
def ringMetadata (channels : List (String × String)) : Value :=
  .mapping none [
    (.text "packages", .list none [ringDescriptor channels]),
    (.text "clusterServiceVersions", .list none [linkedRelease "demo.v1" "demo.v2" "v1",
      linkedRelease "demo.v2" "demo.v1" "v2", linkedRelease "demo.v3" "demo.v2" "v3"]),
    (.text "customResourceDefinitions", .list none [widgetsIn "early.demo.io" ["v3"],
      widgetsIn "widgets.demo.io" ["v1", "v3"], widgetsIn "gadgets.demo.io" ["v1", "v2"]])]

/-- Metadata with a package whose two channels lead to the two that replace each other. -/
def ring : Value := ringMetadata [("stable", "demo.v2"), ("beta", "demo.v1")]

/-- From either of the two that replace each other both are found, and not the third; a head that
there is not is told. -/
theorem packagesOf_reached_ring :
    (∃ p channels c, packagesOf "meta" ring = .ok [p] ∧
      p.releases.map (·.name) = ["demo.v1", "demo.v2"] ∧ p.channels = .ok channels ∧
      ofValue "meta" ring = .ok c ∧
      IsLeast {names | Closed c.releases channels names} {name | ∃ r ∈ p.releases, r.name = name}) ∧
    ∃ c shells, ofValue "meta" (ringMetadata [("stable", "demo.v9")]) = .ok c ∧
      Described c.descriptors shells ∧ ∃ package channel head,
        packagesOf "meta" (ringMetadata [("stable", "demo.v9")]) =
          .error (.catalog (.unknownHead package channel head)) := by
  constructor
  · obtain ⟨p, hp, hnames⟩ : ∃ p, packagesOf "meta" ring = .ok [p] ∧
        p.releases.map (·.name) = ["demo.v1", "demo.v2"] := ⟨_, rfl, rfl⟩
    obtain ⟨hreached, -, -⟩ := packagesOf_reached "meta" ring
    obtain ⟨c, hc, hall⟩ := hreached [p] hp
    obtain ⟨channels, hchannels, hleast, -, -⟩ := hall p List.mem_cons_self
    exact ⟨p, channels, c, hp, hnames, hchannels, hc, hleast⟩
  · obtain ⟨c, hc, hdescriptors, hnone⟩ : ∃ c,
        ofValue "meta" (ringMetadata [("stable", "demo.v9")]) = .ok c ∧
          c.descriptors = [ringDescriptor [("stable", "demo.v9")]] ∧
            release? c.releases "demo.v9" = none :=
      ⟨_, rfl, rfl, rfl⟩
    obtain ⟨shell, hshell, hchannels⟩ : ∃ shell,
        Package.ofParts (ringDescriptor [("stable", "demo.v9")]) [] [] = .ok shell ∧
          shell.channels = .ok [("stable", some "demo.v9")] :=
      ⟨_, rfl, rfl⟩
    have hdescribed : Described c.descriptors [shell] := by
      rw [hdescriptors]
      refine ⟨.cons hshell .nil, by simp, fun s hs => ?_⟩
      cases List.mem_singleton.1 hs
      exact ⟨_, hchannels⟩
    have hmissing : HeadMissing c shell :=
      ⟨_, "stable", "demo.v9", hchannels, List.mem_cons_self, by rw [Known, hnone]; simp⟩
    obtain ⟨-, -, herror⟩ := packagesOf_reached "meta" (ringMetadata [("stable", "demo.v9")])
    exact ⟨c, [shell], hc, hdescribed,
      (herror c [shell] hc hdescribed).2 ⟨shell, List.mem_cons_self, hmissing⟩⟩

/-! ## Definitions -/

theorem mem_wanted {releases : List Release} {k : ResourceKey} :
    k ∈ wanted releases ↔ ∃ r ∈ releases, k ∈ r.owned ++ r.required :=
  List.mem_flatMap

theorem serves_iff {keys : List ResourceKey} {d : Definition} :
    serves keys d = true ↔ ∃ k ∈ keys, k ∈ d.keys := by
  rw [serves, List.any_eq_true]
  constructor
  · rintro ⟨k, hk, hin⟩
    exact ⟨k, by simpa using hin, hk⟩
  · rintro ⟨k, hk, hin⟩
    exact ⟨k, hin, by simpa using hk⟩

/-- A wanted key leads to the same definition when those that serve nothing wanted are left out. -/
theorem get?_index_filter {keys : List ResourceKey} {k : ResourceKey} (hk : k ∈ keys)
    (definitions : List Definition) :
    Resolution.get? (Resolution.index Definition.keys (definitions.filter (serves keys))) k =
      Resolution.get? (Resolution.index Definition.keys definitions) k := by
  rw [Resolution.get?_index, Resolution.get?_index, List.find?_filter]
  refine List.find?_congr fun d _ => ?_
  by_cases hd : k ∈ d.keys
  · have hserves : serves keys d = true := serves_iff.2 ⟨k, hk, hd⟩
    simp [hserves]
  · simp [hd]

/-- A release resolves alike where each key that it owns leads to the same. -/
theorem resolve_congr {α : Type} {r : Release} {index index' : List (ResourceKey × α)}
    (h : ∀ k ∈ r.owned, Resolution.get? index k = Resolution.get? index' k) :
    Resolution.resolve r index = Resolution.resolve r index' := by
  unfold Resolution.resolve
  generalize r.owned = keys at h
  induction keys with
  | nil => rfl
  | cons k rest ih =>
    rw [List.forall_mem_cons] at h
    have hhere : Resolution.resolveKey r.name index k = Resolution.resolveKey r.name index' k := by
      rw [Resolution.resolveKey, Resolution.resolveKey, h.1]
    rw [List.mapM_cons, List.mapM_cons, hhere, ih h.2]

/-- What a release of a package owns and requires leads to the same definitions, or fails with the
same key, in the package as in the whole catalog; and the package has, in the order of the catalog,
the definitions that serve a key that one of its releases owns or requires, and no others. -/
theorem packagesOf_resolve {place : String} {data : Value} {packages : List Package}
    (h : packagesOf place data = .ok packages) :
    ∃ c, ofValue place data = .ok c ∧ ∀ p ∈ packages,
      (∀ r ∈ p.releases,
        Resolution.resolve r (Resolution.index Definition.keys p.definitions) =
          Resolution.resolve r (Resolution.index Definition.keys c.definitions) ∧
        ∀ k ∈ r.required,
          Resolution.get? (Resolution.index Definition.keys p.definitions) k =
            Resolution.get? (Resolution.index Definition.keys c.definitions) k) ∧
      p.definitions = c.definitions.filter fun d =>
        ∃ r ∈ p.releases, ∃ k ∈ r.owned ++ r.required, k ∈ d.keys := by
  obtain ⟨c, hc, hmade⟩ := exists_madeOf h
  refine ⟨c, hc, fun p hp => ?_⟩
  obtain ⟨descriptor, taken, hassemble⟩ := hmade p hp
  have hdefinitions := assemble_definitions hassemble
  -- A definition is kept when it serves any of the keys, and the index is asked for no others.
  have hsame : ∀ r ∈ p.releases, ∀ k ∈ r.owned ++ r.required,
      Resolution.get? (Resolution.index Definition.keys p.definitions) k =
        Resolution.get? (Resolution.index Definition.keys c.definitions) k := by
    intro r hr k hk
    rw [hdefinitions]
    exact get?_index_filter (mem_wanted.2 ⟨r, hr, hk⟩) c.definitions
  refine ⟨fun r hr => ⟨resolve_congr fun k hk => ?_, fun k hk => ?_⟩, ?_⟩
  · exact hsame r hr k (List.mem_append_left _ hk)
  · exact hsame r hr k (List.mem_append_right _ hk)
  · rw [hdefinitions]
    refine List.filter_congr fun d _ => ?_
    rw [Bool.eq_iff_iff, serves_iff, decide_eq_true_iff]
    constructor
    · rintro ⟨k, hk, hin⟩
      obtain ⟨r, hr, hkey⟩ := mem_wanted.1 hk
      exact ⟨r, hr, k, hkey, hin⟩
    · rintro ⟨r, hr, k, hkey, hin⟩
      exact ⟨k, mem_wanted.2 ⟨r, hr, hkey⟩, hin⟩

/-- What the releases of a package own is served by the second definition of the catalog and the
third; the first, which serves what a release outside of the package owns, is left out. -/
theorem packagesOf_resolve_ring :
    ∃ p c, packagesOf "meta" ring = .ok [p] ∧
      ofValue "meta" ring = .ok c ∧
      p.definitions.map (·.name) = ["widgets.demo.io", "gadgets.demo.io"] ∧
      ∀ r ∈ p.releases, Resolution.resolve r (Resolution.index Definition.keys p.definitions) =
        Resolution.resolve r (Resolution.index Definition.keys c.definitions) := by
  obtain ⟨p, hp, hnames⟩ : ∃ p, packagesOf "meta" ring = .ok [p] ∧
      p.definitions.map (·.name) = ["widgets.demo.io", "gadgets.demo.io"] := ⟨_, rfl, rfl⟩
  obtain ⟨c, hc, hall⟩ := packagesOf_resolve hp
  obtain ⟨hresolve, -⟩ := hall p List.mem_cons_self
  exact ⟨p, c, hp, hc, hnames, fun r hr => (hresolve r hr).1⟩

end RegistryTree.Catalog
