import RegistryTree.Proofs.Manifest.Plan
import RegistryTree.Proofs.Manifest.Site

/-!
# Writing a bundle

A bundle is written into the directory of a package, where its version is the name of a new
directory. The definitions go in one after the other, and then the release. `InBundle` is what holds
between two of these documents; it carries the loop over the definitions.

When something goes wrong the bundle is left as it is: nothing of it, or its directory with the
definitions that were written before. `Halted` lists the places where that can happen, each with the
failure and with what is left.

> `writeBundle_cases`: a bundle is written whole, or it is halted; and it is only halted when
> something is amiss with what `Bundled` asks for.
-/

namespace RegistryTree.Manifest

open FileSystem RegistryTree.Action

/-- What the files of a bundle take: keys that are served, names that are names of entries, and
documents that can be written. -/
structure Filled (files : FileSystem) (root : Path) (package : Package) (r : Release)
    (version : String) : Prop where
  served : ∀ k ∈ r.owned, serves package k = true
  definitions : ∀ d ∈ ownedDefinitions package r, Layout.isComponent d.name = true ∧
    Recordable files (root.child version) (definitionName d) d.toValue
  name : Layout.isComponent r.name = true
  release : Recordable files (root.child version) (releaseName r) r.toValue

/-- What the bundle of a release takes: a version that is the name of an entry and not too long, and
what its files take. -/
structure Bundled (files : FileSystem) (root : Path) (package : Package) (r : Release)
    (version : String) : Prop extends Filled files root package r version where
  named : r.version = some version
  component : Layout.isComponent version = true
  short : isTooLong version = false
  path : isOverlong (root.child version) = false

theorem filled_of_keeps {files after : FileSystem} {root : Path} {package : Package} {r : Release}
    {version : String} (hk : Keeps files after) :
    Filled after root package r version ↔ Filled files root package r version := by
  constructor
  · intro h
    exact ⟨h.served, fun d hd => (h.definitions d hd).imp_right (recordable_of_keeps hk).1, h.name,
      (recordable_of_keeps hk).1 h.release⟩
  · intro h
    exact ⟨h.served, fun d hd => (h.definitions d hd).imp_right (recordable_of_keeps hk).2, h.name,
      (recordable_of_keeps hk).2 h.release⟩

theorem bundled_of_keeps {files after : FileSystem} {root : Path} {package : Package} {r : Release}
    {version : String} (hk : Keeps files after) :
    Bundled after root package r version ↔ Bundled files root package r version :=
  ⟨fun h => ⟨(filled_of_keeps hk).1 h.toFilled, h.named, h.component, h.short, h.path⟩,
    fun h => ⟨(filled_of_keeps hk).2 h.toFilled, h.named, h.component, h.short, h.path⟩⟩

/-- How the bundle of a release can be halted when some releases have been written before it: the
failure, and what is left of the bundle. -/
inductive Halted (package : Package) (root : Path) (done : List Release) (r : Release) :
    Failure → List (Place × Entry) → Prop
  | missingVersion : r.version = none →
      Halted package root done r (failure (.missingVersion r.name)) []
  | unsafeVersion (version : String) : r.version = some version →
      Layout.isComponent version = false →
      Halted package root done r (failure (.unsafeName ⟨"CSV version", version⟩)) []
  | noDirectory (version : String) (cause : SystemError) : r.version = some version →
      (isTooLong version = true ∨ isOverlong (root.child version) = true ∨
        version ∈ taken package done) →
      Halted package root done r
        (failure (.io "create directory" (root.child version).toText cause)) []
  | unsafeRelease (version : String) : r.version = some version → version ∉ taken package done →
      Layout.isComponent r.name = false →
      Halted package root done r (failure (.unsafeName ⟨"CSV name", r.name⟩))
        (bundleStart version [])
  | unresolved (version : String) (what : Unresolved) : r.version = some version →
      version ∉ taken package done → Resolution.resolve r (indexOf package) = .error what →
      Halted package root done r (failure (.unresolved what)) (bundleStart version [])
  | definition (version : String) (before : List Definition) (d : Definition)
      (after : List Definition) (e : Failure) : r.version = some version →
      version ∉ taken package done →
      Resolution.resolve r (indexOf package) = .ok (ownedDefinitions package r) →
      ownedDefinitions package r = before ++ d :: after →
      (∀ d ∈ before, ∃ text, Yaml.render d.toValue = .ok text) → StepFailure e →
      Halted package root done r e (bundleStart version before)
  | release (version : String) (e : Failure) : r.version = some version →
      version ∉ taken package done →
      Resolution.resolve r (indexOf package) = .ok (ownedDefinitions package r) →
      (∀ d ∈ ownedDefinitions package r, ∃ text, Yaml.render d.toValue = .ok text) →
      StepFailure e →
      Halted package root done r e (bundleStart version (ownedDefinitions package r))

/-! ## The definitions of a bundle -/

/-- What holds while definitions are written into the bundle of a version: `base` are the files when
there was only its directory, `ds` the definitions that have been written. -/
structure InBundle (base : FileSystem) (root : Path) (place : Place) (version : String)
    (ds : List Definition) (w : Workspace) : Prop where
  site : Site w.files root place
  inner : Site w.files (root.child version) (place ++ [version])
  keeps : Keeps base w.files
  files : w.files = base.putAll place (ds.map (definitionEntry version))
  recorded : ∀ d ∈ ds, Layout.isComponent d.name = true ∧
    Recordable base (root.child version) (definitionName d) d.toValue

/-- A file named for a definition that is to be written. -/
theorem mem_definitionEntries {version : String} {ds : List Definition} {rel : Place} {e : Entry}
    (h : standing (ds.map (definitionEntry version)) rel = some e) :
    ∃ d ∈ ds, rel = [version, definitionName d] ∧ e = documentOf d.toValue := by
  obtain ⟨d, hd, heq⟩ := List.mem_map.1 (mem_of_standing h)
  cases heq
  exact ⟨d, hd, rfl, rfl⟩

namespace InBundle

variable {base : FileSystem} {root : Path} {place : Place} {version : String}
  {ds : List Definition} {w : Workspace}

/-- In the bundle stand the definitions that have been written. -/
theorem get?_name (h : InBundle base root place version ds w)
    (hempty : ∀ name, base.get? (place ++ [version] ++ [name]) = none) (name : String) :
    w.files.get? (place ++ [version] ++ [name]) =
      standing (ds.map (definitionEntry version)) [version, name] := by
  have hnone := hempty name
  rw [List.append_assoc, List.singleton_append] at hnone ⊢
  rw [h.files, get?_putAll h.site.proper, hnone, Option.or_none]

/-- No directory stands in the bundle. -/
theorem no_directory (h : InBundle base root place version ds w)
    (hempty : ∀ name, base.get? (place ++ [version] ++ [name]) = none) (name : String) :
    w.files.isDirectoryAt (place ++ [version] ++ [name]) = false := by
  unfold isDirectoryAt
  rw [h.get?_name hempty]
  cases hs : standing (ds.map (definitionEntry version)) [version, name] with
  | none => rfl
  | some e =>
    obtain ⟨d, -, -, rfl⟩ := mem_definitionEntries hs
    rfl

/-- No definition has the name of a temporary file. -/
theorem temporary_free (h : InBundle base root place version ds w)
    (hempty : ∀ name, base.get? (place ++ [version] ++ [name]) = none) (name : String) :
    w.files.get? (place ++ [version] ++ [temporaryName name 0]) = none := by
  rw [h.get?_name hempty]
  by_contra hne
  obtain ⟨e, he⟩ := Option.ne_none_iff_exists'.1 hne
  obtain ⟨d, -, hrel, -⟩ := mem_definitionEntries he
  have hname : temporaryName name 0 = definitionName d := by
    simpa using hrel
  have hlast := getLast?_temporaryName name 0
  rw [hname, getLast?_definitionName] at hlast
  cases hlast

/-- A document is written into the bundle, or nothing has changed; and it is written when it can
be. -/
theorem writeDocument_cases (h : InBundle base root place version ds w)
    (hempty : ∀ name, base.get? (place ++ [version] ++ [name]) = none) (v : Value) {name : String}
    (hname : Layout.isComponent name = true) :
    (∃ e, StepFailure e ∧ writeDocument v ((root.child version).child name) w = (.error e, w) ∧
      (base.Direct (root.child version) (place ++ [version]) →
        ¬ Recordable base (root.child version) name v)) ∨
    ∃ journal, Recordable base (root.child version) name v ∧
      writeDocument v ((root.child version).child name) w =
        (.ok ((root.child version).child name),
          ⟨w.files.put (place ++ [version, name]) (documentOf v), journal⟩) := by
  have happend : place ++ [version] ++ [name] = place ++ [version, name] := by simp
  rcases h.inner.writeDocument_cases v hname with ⟨e, he, hrun, hstop⟩ | ⟨journal, hr, -, hrun⟩
  · refine Or.inl ⟨e, he, hrun, fun hdirect hrec => ?_⟩
    exact hstop (hdirect.of_keeps h.keeps) (h.no_directory hempty name)
      (h.temporary_free hempty name) ((recordable_of_keeps h.keeps).2 hrec)
  · exact Or.inr ⟨journal, (recordable_of_keeps h.keeps).1 hr, by rw [hrun, happend]⟩

/-- One definition more, or nothing has changed. -/
theorem writeDefinition_cases (h : InBundle base root place version ds w)
    (hempty : ∀ name, base.get? (place ++ [version] ++ [name]) = none) (d : Definition) :
    (∃ w', writeDefinition (root.child version) d w = (.ok (), w') ∧
      InBundle base root place version (ds ++ [d]) w') ∨
    ∃ e, writeDefinition (root.child version) d w = (.error e, w) ∧ StepFailure e ∧
      (base.Direct (root.child version) (place ++ [version]) →
        ¬ (Layout.isComponent d.name = true ∧
          Recordable base (root.child version) (definitionName d) d.toValue)) := by
  rw [writeDefinition, bind_run, named_run, Layout.definitionFile_eq,
    show d.name ++ Layout.definitionSuffix = definitionName d from rfl]
  cases hc : Layout.isComponent d.name with
  | false =>
    simp only [Bool.false_eq_true, if_false, mapError_error]
    refine Or.inr ⟨failure (.unsafeName ⟨"CRD name", d.name⟩), rfl, ?_, fun _ hall => ?_⟩
    · exact .manifest _ (fun _ heq => by cases heq)
    · cases hall.1
  | true =>
    have hname : Layout.isComponent (definitionName d) = true :=
      Layout.isComponent_append hc Layout.isSuffix_definition
    simp only [if_true, mapError_ok]
    rw [discard_run]
    rcases h.writeDocument_cases hempty d.toValue hname with
      ⟨e, he, hrun, hstop⟩ | ⟨journal, hr, hrun⟩
    · refine Or.inr ⟨e, by rw [hrun], he, fun hdirect hall => hstop hdirect hall.2⟩
    -- the document is in place: the invariant holds with one definition more
    · have hfree := h.no_directory hempty (definitionName d)
      refine Or.inl ⟨_, by rw [hrun], ?_, ?_, ?_, ?_, ?_⟩
      · exact h.site.put_document d.toValue _ (by simpa using hfree)
      · have hsite := h.inner.put_document d.toValue [definitionName d] hfree
        simpa using hsite
      · exact h.keeps.trans (h.site.keeps_put (by simpa using hfree))
      · simp only [List.map_append, List.map_cons, List.map_nil, putAll_concat, h.files,
          definitionEntry]
      · intro d' hd'
        rcases List.mem_append.1 hd' with hd' | hd'
        · exact h.recorded d' hd'
        · cases List.mem_singleton.1 hd'
          exact ⟨hc, hr⟩

/-- The definitions of a bundle are written one after the other, up to the first that cannot be. -/
theorem forM_writeDefinition_cases (h : InBundle base root place version [] w)
    (hempty : ∀ name, base.get? (place ++ [version] ++ [name]) = none) (all : List Definition) :
    (∃ w', all.forM (writeDefinition (root.child version)) w = (.ok (), w') ∧
      InBundle base root place version all w') ∨
    ∃ before d after e w', all = before ++ d :: after ∧
      all.forM (writeDefinition (root.child version)) w = (.error e, w') ∧
      InBundle base root place version before w' ∧ StepFailure e ∧
      (base.Direct (root.child version) (place ++ [version]) →
        ¬ (Layout.isComponent d.name = true ∧
          Recordable base (root.child version) (definitionName d) d.toValue)) := by
  refine forM_cases (writeDefinition (root.child version)) all (InBundle base root place version)
    (fun before d e w' => InBundle base root place version before w' ∧ StepFailure e ∧
      (base.Direct (root.child version) (place ++ [version]) →
        ¬ (Layout.isComponent d.name = true ∧
          Recordable base (root.child version) (definitionName d) d.toValue))) ?_ h
  intro before d after _ w hw
  rcases hw.writeDefinition_cases hempty d with ⟨w', hrun, hw'⟩ | ⟨e, hrun, he, hstop⟩
  · exact Or.inl ⟨w', hrun, hw'⟩
  · exact Or.inr ⟨e, w, hrun, hw, he, hstop⟩

end InBundle

/-! ## The whole of a bundle -/

section

variable {package : Package} {root : Path} {place : Place} {done : List Release} {r : Release}
  {w : Workspace}

/-- The directory of a bundle is made where the version is not taken, or nothing has changed and no
bundle could be written. -/
theorem createBundleDirectory_cases (hsite : Site w.files root place)
    (hbelow : ∀ name rel, w.files.get? (place ++ name :: rel) =
      standing (part package done) (name :: rel)) :
    (∃ version journal, r.version = some version ∧ version ∉ taken package done ∧
      Layout.isComponent version = true ∧ isTooLong version = false ∧
      isOverlong (root.child version) = false ∧
      createBundleDirectory root r w = (.ok (root.child version),
        ⟨w.files.put (place ++ [version]) (.directory Layout.directoryMode), journal⟩)) ∨
    ∃ e, Halted package root done r e [] ∧ createBundleDirectory root r w = (.error e, w) ∧
      ¬ ∃ version, Bundled w.files root package r version ∧ version ∉ taken package done := by
  unfold createBundleDirectory
  cases hv : r.version with
  | none =>
    refine Or.inr ⟨_, .missingVersion hv, rfl, ?_⟩
    intro hgiven
    obtain ⟨version, hb, -⟩ := hgiven
    rw [hb.named] at hv
    cases hv
  | some version =>
    -- a bundle of this release can only have its version
    have honly : ∀ version', Bundled w.files root package r version' → version' = version := by
      intro version' hb
      exact Option.some.inj (hb.named.symm.trans hv)
    simp only
    rw [bind_run, named_run, Layout.bundleDirectory_eq]
    cases hc : Layout.isComponent version with
    | false =>
      simp only [Bool.false_eq_true, if_false, mapError_error]
      refine Or.inr ⟨_, .unsafeVersion version hv hc, rfl, ?_⟩
      intro hgiven
      obtain ⟨version', hb, -⟩ := hgiven
      have hyes := hb.component
      rw [honly version' hb, hc] at hyes
      cases hyes
    | true =>
      simp only [if_true, mapError_ok]
      have hplace := hbelow version []
      rcases hsite.createDirectory_cases hc with
        ⟨cause, hrun, hwhy⟩ | ⟨journal, hnone, hshort, hlong, hrun⟩
      -- what stands in the way stands there because the version is taken
      · have htaken : isTooLong version = true ∨ isOverlong (root.child version) = true ∨
            version ∈ taken package done := by
          refine hwhy.imp_right (Or.imp_right fun hne => ?_)
          by_contra hfree
          rw [hplace] at hne
          exact hne (standing_part_of_not_taken hfree [])
        refine Or.inr ⟨_, .noDirectory version cause hv htaken, hrun, ?_⟩
        intro hgiven
        obtain ⟨version', hb, hfree⟩ := hgiven
        cases honly version' hb
        rcases htaken with hlong | hlong | hmem
        · rw [hb.short] at hlong
          cases hlong
        · rw [hb.path] at hlong
          cases hlong
        · exact hfree hmem
      · refine Or.inl ⟨version, journal, rfl, fun hmem => ?_, hc, hshort, hlong, hrun⟩
        rw [hplace] at hnone
        exact standing_part_of_taken hmem hnone

/-- When its directory is there, a bundle is written into it whole, or it is left with the
definitions that were written before something was amiss. -/
theorem writeBundle_of_directory {w₀ : Workspace} {base : FileSystem} {version : String}
    (hdir : createBundleDirectory root r w₀ = (.ok (root.child version), w))
    (h : InBundle base root place version [] w)
    (hempty : ∀ name, base.get? (place ++ [version] ++ [name]) = none)
    (hv : r.version = some version) (hfree : version ∉ taken package done) :
    (∃ w', Filled base root package r version ∧
      writeBundle root (indexOf package) r w₀ = (.ok (), w') ∧
      Site w'.files root place ∧ Keeps base w'.files ∧
      w'.files = base.putAll place ((ownedDefinitions package r).map (definitionEntry version) ++
        [releaseEntry version r])) ∨
    ∃ e before w', Halted package root done r e (bundleStart version before) ∧
      writeBundle root (indexOf package) r w₀ = (.error e, w') ∧
      w'.files = base.putAll place (before.map (definitionEntry version)) ∧
      (base.Direct (root.child version) (place ++ [version]) →
        ¬ Filled base root package r version) := by
  rw [writeBundle, bind_run, hdir]
  simp only
  rw [bind_run, named_run, Layout.releaseFile_eq,
    show r.name ++ Layout.releaseSuffix = releaseName r from rfl]
  cases hc : Layout.isComponent r.name with
  | false =>
    simp only [Bool.false_eq_true, if_false, mapError_error]
    refine Or.inr ⟨_, [], w, .unsafeRelease version hv hfree hc, rfl, h.files, fun _ hb => ?_⟩
    have hyes := hb.name
    rw [hc] at hyes
    cases hyes
  | true =>
    have hname : Layout.isComponent (releaseName r) = true :=
      Layout.isComponent_append hc Layout.isSuffix_release
    simp only [if_true, mapError_ok]
    rw [bind_run, ofExcept_run]
    cases hres : Resolution.resolve r (indexOf package) with
    | error what =>
      simp only [mapError_error]
      refine Or.inr ⟨_, [], w, .unresolved version what hv hfree hres, rfl, h.files, fun _ hb => ?_⟩
      obtain ⟨-, hfind⟩ := resolve_eq_error_iff_find.1 hres
      have hserved := hb.served _ (List.mem_of_find?_eq_some hfind)
      have hnot := List.find?_some hfind
      simp [hserved] at hnot
    | ok ds =>
      obtain ⟨hserved, rfl⟩ := resolve_eq_ok_iff_served.1 hres
      simp only [mapError_ok]
      rw [bind_run]
      -- the release resolves; its definitions come first, and then it
      rcases h.forM_writeDefinition_cases hempty (ownedDefinitions package r) with
        ⟨w₁, hrun, h₁⟩ | ⟨before, d, after, e, w₁, hsplit, hrun, h₁, he, hstop⟩
      · rw [hrun]
        simp only
        rw [discard_run]
        have hrendered : ∀ d ∈ ownedDefinitions package r, ∃ text, Yaml.render d.toValue = .ok text :=
          fun d hd => (h₁.recorded d hd).2.renders
        rcases h₁.writeDocument_cases hempty r.toValue hname with
          ⟨e, he, hlast, hstop⟩ | ⟨journal, hr, hlast⟩
        · rw [hlast]
          exact Or.inr ⟨e, ownedDefinitions package r, w₁, .release version e hv hfree hres hrendered he,
            rfl, h₁.files, fun hdirect hb => hstop hdirect hb.release⟩
        · have hd : w₁.files.isDirectoryAt (place ++ [version, releaseName r]) = false := by
            simpa using h₁.no_directory hempty (releaseName r)
          rw [hlast]
          refine Or.inl ⟨_, ⟨hserved, h₁.recorded, hc, hr⟩, rfl, h₁.site.put_document _ _ hd,
            h₁.keeps.trans (h₁.site.keeps_put hd), ?_⟩
          rw [h₁.files, releaseEntry, putAll_concat]
      · rw [hrun]
        have hrendered : ∀ d ∈ before, ∃ text, Yaml.render d.toValue = .ok text :=
          fun d hd => (h₁.recorded d hd).2.renders
        refine Or.inr ⟨e, before, w₁, .definition version before d after e hv hfree hres hsplit hrendered he,
          rfl, h₁.files, fun hdirect hb => ?_⟩
        exact hstop hdirect (hb.definitions d (by rw [hsplit]; simp))

/-- A bundle is written whole, or it is halted; where paths lead to one directory in either reading,
it is only halted when something is amiss with what a bundle takes, or its version is taken. -/
theorem writeBundle_cases (hsite : Site w.files root place)
    (hbelow : ∀ name rel, w.files.get? (place ++ name :: rel) =
      standing (part package done) (name :: rel)) :
    (∃ version w', Bundled w.files root package r version ∧ version ∉ taken package done ∧
      writeBundle root (indexOf package) r w = (.ok (), w') ∧
      Site w'.files root place ∧ Keeps w.files w'.files ∧
      w'.files = w.files.putAll place (bundle package r)) ∨
    ∃ e left w', Halted package root done r e left ∧
      writeBundle root (indexOf package) r w = (.error e, w') ∧
      w'.files = w.files.putAll place left ∧
      (w.files.Direct root place →
        ¬ ∃ version, Bundled w.files root package r version ∧ version ∉ taken package done) := by
  rcases createBundleDirectory_cases hsite hbelow with
    ⟨version, journal, hv, hfree, hc, hshort, hlong, hdir⟩ | ⟨e, he, hdir, hstop⟩
  · have hnone : w.files.get? (place ++ [version]) = none := by
      rw [hbelow]
      exact standing_part_of_not_taken hfree []
    have hkeeps : Keeps w.files (w.files.put (place ++ [version])
        (.directory Layout.directoryMode)) := keeps_put_of_none (by simp) hnone
    obtain ⟨hstay, hinner⟩ := hsite.made hc hnone hshort Layout.directoryMode
    -- the loop over the definitions starts from an empty directory
    have hempty : ∀ name, (w.files.put (place ++ [version])
        (.directory Layout.directoryMode)).get? (place ++ [version] ++ [name]) = none := by
      intro name
      rw [get?_put _ _ _ (by simp), if_neg (by simp), List.append_assoc, List.singleton_append,
        hbelow]
      exact standing_part_of_not_taken hfree [name]
    have hin : InBundle _ root place version []
        ⟨w.files.put (place ++ [version]) (.directory Layout.directoryMode), journal⟩ :=
      ⟨hstay, hinner, Keeps.refl _, rfl, fun _ hd => by cases hd⟩
    rcases writeBundle_of_directory hdir hin hempty hv hfree with
      ⟨w', hfilled, hrun, hsite', hkeeps', hfiles⟩ | ⟨e, before, w', he, hrun, hfiles, hstop⟩
    · refine Or.inl ⟨version, w', ⟨(filled_of_keeps hkeeps).1 hfilled, hv, hc, hshort, hlong⟩, hfree,
        hrun, hsite', hkeeps.trans hkeeps', ?_⟩
      rw [hfiles, bundle, hv]
      rfl
    · refine Or.inr ⟨e, _, w', he, hrun, hfiles, fun hdirect => ?_⟩
      intro hgiven
      obtain ⟨version', hb, -⟩ := hgiven
      cases Option.some.inj (hb.named.symm.trans hv)
      obtain ⟨-, hdot, hup, -, -⟩ := Layout.isComponent_iff.1 hc
      refine hstop (Direct.child (hdirect.of_keeps hkeeps) hinner.leads.directory hdot hup hshort) ?_
      exact (filled_of_keeps hkeeps).2 hb.toFilled
  · refine Or.inr ⟨e, [], w, he, ?_, rfl, fun _ => hstop⟩
    rw [writeBundle, bind_run, hdir]

end

end RegistryTree.Manifest
