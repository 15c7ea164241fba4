import RegistryTree.Proofs.CommandLine.Run
import RegistryTree.Proofs.Manifest.Reading
import RegistryTree.Proofs.Path

/-!
# Checking what was written

Writing a package and checking it ask for the same: that releases have versions and that what they
own is served. They ask it of different definitions. The one looks at all definitions of the package,
the other at those that are found in the bundles, where of two with one name only one is left. So a
package that was written may fail its check.

> `checkPackage_eq_ok_iff`: what is asked of a package.
> `check_created`: when the check of a package that was written ends well.
-/

namespace RegistryTree.CommandLine

open FileSystem Manifest

/-- A release could be written when it has a version and all that it owns is served. -/
theorem checkRelease_eq_ok_iff {package : Package} {r : Release} :
    checkRelease (indexOf package) r = .ok () ↔
      r.version ≠ none ∧ ∀ k ∈ r.owned, serves package k = true := by
  unfold checkRelease
  cases hv : r.version with
  | none => simp
  | some version =>
    cases hresolve : Resolution.resolve r (indexOf package) with
    | ok ds =>
      have hserved := (resolve_eq_ok_iff_served.1 hresolve).1
      simpa using hserved
    | error u =>
      -- the key that is told is not served
      obtain ⟨-, hfind⟩ := resolve_eq_error_iff_find.1 hresolve
      have hkey := List.find?_some hfind
      have hmem := List.mem_of_find?_eq_some hfind
      have hnot : ¬ ∀ k ∈ r.owned, serves package k = true := by
        intro hall
        rw [hall _ hmem] at hkey
        cases hkey
      simpa using hnot

/-- A package could be written when all its releases could. -/
theorem checkPackage_eq_ok_iff {package : Package} :
    checkPackage package = .ok () ↔
      ∀ r ∈ package.releases, r.version ≠ none ∧ ∀ k ∈ r.owned, serves package k = true := by
  unfold checkPackage
  rw [forM_eq_ok_iff]
  exact forall₂_congr fun r _ => checkRelease_eq_ok_iff

/-- A check ends well when a package is read and could be written. -/
theorem check_finished_iff (path : String) (w : Workspace) :
    (check path w).1 = .finished 0 ["OK"] ↔
      ∃ p, Manifest.read w.files (.ofText path) = .ok p ∧ checkPackage p = .ok () := by
  have hexamine : examine w.files (.ofText path) = .ok (.ok ()) ↔
      ∃ p, Manifest.read w.files (.ofText path) = .ok p ∧ checkPackage p = .ok () := by
    rw [examine, bind_eq_ok_iff]
    refine exists_congr fun p => and_congr_right fun _ => ?_
    show (Except.ok (checkPackage p) : Except Failure _) = .ok (.ok ()) ↔ _
    rw [Except.ok.injEq]
  rw [← hexamine, check_run]
  rcases examine w.files (.ofText path) with e | ⟨fault | u⟩
  · dsimp only
    cases e.failureClass <;> simp
  · simp
  · exact iff_of_true rfl rfl

/-- What was read could be written when every key that a release owns comes back. -/
theorem checkPackage_reread {package p : Package} {bundles : List Bundle}
    (hversions : ∀ r ∈ package.releases, r.version ≠ none)
    (hreleases : p.releases = bundles.map (·.release))
    (hdefinitions : p.definitions = keepFirst (bundles.flatMap (·.definitions)))
    (hall : List.Forall₂ (Reread package) (inOrder package) bundles) :
    checkPackage p = .ok () ↔
      ∀ r ∈ package.releases, ∀ k ∈ r.owned, ∃ name d,
        (inOrder package).findSome? (heldDefinition package · name) = some d ∧ k ∈ d.keys := by
  have hserves : ∀ k, serves p k = true ↔ ∃ name d,
      (inOrder package).findSome? (heldDefinition package · name) = some d ∧ k ∈ d.keys := by
    intro k
    rw [← served_reread_iff hall k, serves, hdefinitions, List.any_eq_true]
    simp only [decide_eq_true_eq]
  -- the order of the versions does not matter for what is asked of each release
  have horder : ∀ r, r ∈ inOrder package ↔ r ∈ package.releases := fun r =>
    (VersionKey.sort_perm _ _).mem_iff
  rw [checkPackage_eq_ok_iff, hreleases]
  simp only [hserves]
  constructor
  · intro hcheck r hr k hk
    obtain ⟨b, hb, hreread⟩ := mem_of_forall₂ hall.flip ((horder r).2 hr)
    exact (hcheck b.release (List.mem_map_of_mem hb)).2 k (by rwa [hreread.owned])
  · intro hcheck r' hr'
    obtain ⟨b, hb, rfl⟩ := List.mem_map.1 hr'
    obtain ⟨r, hr, hreread⟩ := mem_of_forall₂ hall hb
    have hmem := (horder r).1 hr
    refine ⟨by rw [hreread.version]; exact hversions r hmem, fun k hk => ?_⟩
    exact hcheck r hmem k (by rwa [← hreread.owned])

/-- The check of a package that was written ends well exactly when no version ends as the name of a
descriptor does, and each key that a release owns is served by a definition that is found again: of
those with one name the one that the first release to hold the name, by the order of the versions,
wrote last. -/
theorem check_created {environment : Environment} {words : List String} {threshold : Nat}
    {package : Package} {registry : String} {w : Workspace} (ht : w.files.IsTree)
    (hgenuine : package.Genuine) (hback : AllReadBack package)
    (hcreate : ((Manifest.new package (.ofText registry)).create w).1.2 = .ok ())
    (hrequest : request environment words =
      .ok (threshold, .check ((Path.ofText registry).child package.id).toText)) :
    ∃ ordered, VersionKey.sortOn (·.version.getD "") package.releases = .ok ordered ∧
      ((run environment words ((Manifest.new package (.ofText registry)).create w).2.files).1.outcome =
          .finished 0 ["OK"] ↔
        (∀ r ∈ package.releases, ∀ version, r.version = some version →
          hasSuffix Layout.packageSuffix version = false) ∧
        ∀ r ∈ package.releases, ∀ k ∈ r.owned, ∃ name d,
          ordered.findSome? (heldDefinition package · name) = some d ∧ k ∈ d.keys) := by
  have hc := created_create package (.ofText registry) ht
  rw [hcreate] at hc
  rw [(run_perform _ hrequest).1, perform, check_finished_iff]
  generalize ((Manifest.new package (.ofText registry)).create w).2.files = after at hc ⊢
  generalize hresult : (Except.ok () : Except Failure Unit) = result at hc
  cases hc with
  | finished directory hr hrec hall =>
    have h := stands_of_finished ht hr hrec hall
    -- the text of the path is understood as the path that was written to
    have hroot : Path.ofText ((Path.ofText registry).child package.id).toText =
        (Path.ofText registry).child package.id :=
      Path.ofText_toText ((Path.isPlain_ofText registry).child h.id)
    have hversions : ∀ r ∈ package.releases, r.version ≠ none := by
      intro r hmem
      obtain ⟨version, hb⟩ := hall.bundled r hmem
      rw [hb.named]
      exact Option.some_ne_none _
    refine ⟨inOrder package, VersionKey.sortOn_eq fun r hmem => h.ofName_version hmem, ?_⟩
    rw [hroot]
    by_cases hsuffix : ∀ r ∈ package.releases, ∀ version, r.version = some version →
        hasSuffix Layout.packageSuffix version = false
    · obtain ⟨p, bundles, hread, hreleases, hdefinitions, hreread⟩ :=
        h.read_eq hgenuine hback hsuffix
      have hcheck := checkPackage_reread hversions hreleases hdefinitions hreread
      rw [← hcheck, hread]
      constructor
      · intro hgiven
        obtain ⟨p', hp', hok⟩ := hgiven
        cases hp'
        exact ⟨hsuffix, hok⟩
      · intro hgiven
        obtain ⟨-, hok⟩ := hgiven
        exact ⟨p, rfl, hok⟩
    · -- the directory of that release is taken for a descriptor, and nothing can be read
      push Not at hsuffix
      obtain ⟨r, hmem, version, hv, hdescriptor⟩ := hsuffix
      obtain ⟨e, hread⟩ := h.read_error hmem hv (by simpa using hdescriptor)
      rw [hread]
      constructor
      · intro hgiven
        obtain ⟨p, hp, -⟩ := hgiven
        cases hp
      · intro hgiven
        obtain ⟨hnone, -⟩ := hgiven
        exact absurd (hnone r hmem version hv) hdescriptor
  | _ => cases hresult

/-! ## Definitions with one name -/

/-- The document of a definition that serves widgets in one version. -/
def widgetDefinition (version : String) : Value :=
  .mapping none [(.text "metadata", .mapping none [(.text "name", .text "widgets.demo.io")]),
    (.text "spec", .mapping none [(.text "group", .text "demo.io"),
      (.text "names", .mapping none [(.text "kind", .text "Widget")]),
      (.text "version", .text version)])]

/-- A reference to widgets in one version. -/
def widgetReference (version : String) : Value :=
  .mapping none [(.text "name", .text "widgets.demo.io"), (.text "version", .text version),
    (.text "kind", .text "Widget")]

/-- The document of a release that owns widgets in two versions. -/
def widgetRelease : Value :=
  .mapping none [(.text "metadata", .mapping none [(.text "name", .text "demo.v1")]),
    (.text "spec", .mapping none [(.text "version", .text "1.0"),
      (.text "customresourcedefinitions", .mapping none [(.text "owned",
        .list none [widgetReference "v1", widgetReference "v2"])])])]

/-- A package whose release owns widgets in two versions, each served by a definition of its own;
the two definitions have one name. -/
def widgetPackage : Package :=
  (Package.ofValues (.mapping none [(.text "packageName", .text "demo")])
    [.checked .release widgetRelease]
    [.checked .definition (widgetDefinition "v1"),
      .checked .definition (widgetDefinition "v2")]).toOption.getD (barePackage "" [])

theorem genuine_widgetPackage : widgetPackage.Genuine :=
  Package.genuine_getD (by decide +kernel) _

/-- Of the definitions of widgets, which have one name, the bundle holds that of the second version,
and so none that serves the first. -/
theorem not_held_widgets {r : Release} (hr : r ∈ widgetPackage.releases) {name : String}
    {d : Definition} (h : heldDefinition widgetPackage r name = some d) :
    ⟨"demo.io", "v1", "Widget"⟩ ∉ d.keys := by
  have hnames : ∀ r ∈ widgetPackage.releases, ∀ e ∈ ownedDefinitions widgetPackage r,
      e.name = "widgets.demo.io" := by decide +kernel
  have hkeys : ∀ r ∈ widgetPackage.releases,
      (heldDefinition widgetPackage r "widgets.demo.io").map (·.keys) =
        some [⟨"demo.io", "v2", "Widget"⟩] := by decide +kernel
  obtain ⟨howned, rfl⟩ := heldDefinition_mem h
  have hkey := hkeys r hr
  rw [← hnames r hr d howned, h, Option.map_some, Option.some.injEq] at hkey
  rw [hkey]
  decide

/-- A package that was written may fail its check: of two definitions with one name that a release
owns, one is not found again. -/
theorem check_created_widgets :
    ((Manifest.new widgetPackage (.ofText "reg")).create ⟨emptyRegistry, []⟩).1.2 = .ok () ∧
      (run [] ["check", "--path", "reg/demo"]
        ((Manifest.new widgetPackage (.ofText "reg")).create ⟨emptyRegistry, []⟩).2.files).1.outcome ≠
          .finished 0 ["OK"] ∧
      ∃ ordered, VersionKey.sortOn (·.version.getD "") widgetPackage.releases = .ok ordered ∧
        ¬ ((∀ r ∈ widgetPackage.releases, ∀ version, r.version = some version →
            hasSuffix Layout.packageSuffix version = false) ∧
          ∀ r ∈ widgetPackage.releases, ∀ k ∈ r.owned, ∃ name d,
            ordered.findSome? (heldDefinition widgetPackage · name) = some d ∧ k ∈ d.keys) := by
  have hcreate : ((Manifest.new widgetPackage (.ofText "reg")).create
      ⟨emptyRegistry, []⟩).1.2 = .ok () := by decide +kernel
  have hback : AllReadBack widgetPackage :=
    ⟨by decide +kernel, by decide +kernel, by decide +kernel⟩
  have hroot : ((Path.ofText "reg").child widgetPackage.id).toText = "reg/demo" := by
    decide +kernel
  have howned : ∃ r ∈ widgetPackage.releases, ⟨"demo.io", "v1", "Widget"⟩ ∈ r.owned := by
    decide +kernel
  obtain ⟨ordered, hordered, hiff⟩ := check_created (w := ⟨emptyRegistry, []⟩)
    isTree_emptyRegistry genuine_widgetPackage hback hcreate (request_check _)
  rw [hroot] at hiff
  have hlost : ¬ ∀ r ∈ widgetPackage.releases, ∀ k ∈ r.owned, ∃ name d,
      ordered.findSome? (heldDefinition widgetPackage · name) = some d ∧ k ∈ d.keys := by
    intro hall
    obtain ⟨r, hr, hk⟩ := howned
    obtain ⟨name, d, hfirst, hkey⟩ := hall r hr _ hk
    obtain ⟨holder, hholder, hheld⟩ := List.exists_of_findSome?_eq_some hfirst
    exact not_held_widgets ((VersionKey.sortOn_perm hordered).mem_iff.1 hholder) hheld hkey
  exact ⟨hcreate, fun hgood => hlost (hiff.1 hgood).2, ordered, hordered, fun h => hlost h.2⟩

end RegistryTree.CommandLine
