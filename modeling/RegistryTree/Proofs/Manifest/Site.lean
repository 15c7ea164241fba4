import RegistryTree.Proofs.Layout
import RegistryTree.Proofs.Workspace

/-!
# The directory that is written into

A site is a directory that a manifest is written into: its path leads to it and can be handed to the
system, and no link stands in it. Whatever is made in a site leaves it a site, and what a path into
it stands for is its place with one name more.

> `Site.createDirectory_cases`: a directory is made in a site where nothing stands, and it is a site
> of its own, or nothing has changed.
> `Site.writeDocument_cases`: a document is written to its place in a site, or nothing has changed.
-/

namespace RegistryTree

open FileSystem

/-- A directory that is written into, with the path that it is known by. -/
structure Site (files : FileSystem) (p : Path) (place : Place) : Prop where
  leads : files.LeadsTo p place
  proper : place ≠ []
  noLink : ∀ rel target, files.get? (place ++ rel) ≠ some (.link target)
  usable : p.hasNull = false

theorem Path.hasNull_child {p : Path} {name : String} (hp : p.hasNull = false)
    (h : Layout.isComponent name = true) : (p.child name).hasNull = false := by
  obtain ⟨-, -, -, hnull, -⟩ := Layout.isComponent_iff.1 h
  simp only [hasNull, child, List.any_append, Bool.or_eq_false_iff] at hp ⊢
  exact ⟨hp, by simpa using hnull⟩

/-- A path that leads to a directory of a tree can be handed to the system. -/
theorem FileSystem.LeadsTo.usable {files : FileSystem} {p : Path} {place : Place}
    (h : files.LeadsTo p place) (ht : files.IsRegular) : p.hasNull = false := by
  rw [Path.hasNull, List.any_eq_false]
  intro name hname
  simpa using ht.no_null_of_walk h.way name hname

/-- The failures of a single step: an error that knows no release yet and is not about a reference,
or a number too wide to be written. -/
inductive StepFailure : Failure → Prop
  | manifest (fault : ManifestFault) (h : ∀ what, fault ≠ .unresolved what) :
      StepFailure (.manifest ⟨fault, none⟩)
  | wideInteger : StepFailure .wideInteger

/-- A step that failed with an error fails with one that tells of no release. -/
theorem StepFailure.manifest_eq {error : ManifestError} (h : StepFailure (.manifest error)) :
    error.release = none ∧ ∀ what, error.fault ≠ .unresolved what := by
  cases h with
  | manifest fault hne => exact ⟨rfl, hne⟩

theorem WriteFailure.step {v : Value} {p : Path} {e : Failure} (h : WriteFailure v p e)
    (hp : p.hasNull = false) : StepFailure e := by
  cases h with
  | unwritable _ => exact .manifest _ (fun _ h => by cases h)
  | wideInteger _ => exact .wideInteger
  | null hnull =>
    rw [hp] at hnull
    cases hnull
  | io cause => exact .manifest _ (fun _ h => by cases h)

/-- What writing a document to a file of a directory takes: a text, and a place within the
limits. -/
structure Recordable (files : FileSystem) (p : Path) (name : String) (v : Value) : Prop where
  renders : ∃ text, Yaml.render v = .ok text
  fits : FileFits files p name

theorem recordable_of_keeps {files after : FileSystem} {p : Path} {name : String} {v : Value}
    (hk : Keeps files after) : Recordable after p name v ↔ Recordable files p name v :=
  ⟨fun h => ⟨h.renders, (fileFits_of_keeps hk).1 h.fits⟩,
    fun h => ⟨h.renders, (fileFits_of_keeps hk).2 h.fits⟩⟩

namespace Site

variable {files : FileSystem} {p : Path} {place : Place} {name : String}

/-- The place that a path into a site stands for. -/
theorem slot_eq (h : Site files p place) {q : Place}
    (hs : files.slot (p.child name) = .ok (some q)) : q = place ++ [name] := by
  obtain ⟨directory, hl, rfl, -⟩ := leadsTo_of_slot_child hs
  rw [hl.unique h.leads]

/-- What is put into a site, where no directory stands, leaves all ways as they are. -/
theorem keeps_put (h : Site files p place) {rel : Place} {e : Entry}
    (hd : files.isDirectoryAt (place ++ rel) = false) : Keeps files (files.put (place ++ rel) e) :=
  FileSystem.keeps_put (by simp [h.proper]) hd (h.noLink rel)

/-- A site stays a site when something else than a link is put where no directory stands. -/
theorem put (h : Site files p place) {rel : Place} {e : Entry}
    (hd : files.isDirectoryAt (place ++ rel) = false) (he : ∀ target, e ≠ .link target) :
    Site (files.put (place ++ rel) e) p place := by
  have hne : place ++ rel ≠ [] := by simp [h.proper]
  refine ⟨h.leads.of_keeps (h.keeps_put hd), h.proper, fun q target hq => ?_,
    h.usable⟩
  rw [get?_put _ _ _ hne] at hq
  split at hq
  next => exact he target (Option.some.inj hq)
  next => exact h.noLink q target hq

theorem put_directory (h : Site files p place) {rel : Place} (mode : Nat)
    (hnone : files.get? (place ++ rel) = none) :
    Site (files.put (place ++ rel) (.directory mode)) p place :=
  h.put (by simp [isDirectoryAt, hnone]) (fun _ he => by cases he)

/-- A directory in a site is a site. -/
theorem child (h : Site files p place) (hd : files.isDirectoryAt (place ++ [name]) = true)
    (hname : Layout.isComponent name = true) (hshort : isTooLong name = false) :
    Site files (p.child name) (place ++ [name]) := by
  obtain ⟨-, hdot, hup, -, -⟩ := Layout.isComponent_iff.1 hname
  refine ⟨h.leads.child hd hdot hup hshort, by simp, fun rel target => ?_,
    Path.hasNull_child h.usable hname⟩
  rw [List.append_assoc]
  exact h.noLink _ target

/-- A directory is made in a site where nothing stands, and then it is a site of its own, or
nothing has changed. -/
theorem createDirectory_cases {w : Workspace} (h : Site w.files p place)
    (hname : Layout.isComponent name = true) :
    (∃ cause, createDirectory (p.child name) w =
        (.error (.manifest (.ofFault (.io "create directory" (p.child name).toText cause))), w) ∧
      (isTooLong name = true ∨ isOverlong (p.child name) = true ∨
        w.files.get? (place ++ [name]) ≠ none)) ∨
    ∃ journal, w.files.get? (place ++ [name]) = none ∧
      isTooLong name = false ∧ isOverlong (p.child name) = false ∧
      createDirectory (p.child name) w = (.ok (p.child name),
        ⟨w.files.put (place ++ [name]) (.directory Layout.directoryMode), journal⟩) := by
  rw [createDirectory_run, Path.hasNull_child h.usable hname]
  simp only [Bool.false_eq_true, if_false]
  cases hm : w.files.makeDirectory (p.child name) Layout.directoryMode with
  | error cause =>
    refine Or.inl ⟨cause, rfl, ?_⟩
    -- Nothing else could stand in the way, for the directory itself is there.
    by_contra hfits
    simp only [not_or, Bool.not_eq_true, not_not] at hfits
    obtain ⟨hshort, hlong, hnone⟩ := hfits
    obtain ⟨-, -, hup, -, -⟩ := Layout.isComponent_iff.1 hname
    rw [makeDirectory, h.leads.slot_child_of_component hup hshort hlong] at hm
    simp [hnone] at hm
  | ok after =>
    obtain ⟨q, hs, hnone, rfl⟩ := makeDirectory_ok hm
    obtain ⟨-, -, -, -, hshort, hlong⟩ := leadsTo_of_slot_child hs
    rw [h.slot_eq hs] at hnone
    exact Or.inr ⟨_, hnone, hshort, hlong, by rw [h.slot_eq hs]⟩

/-- The new directory is a site, and the old one stays one. -/
theorem made (h : Site files p place) (hname : Layout.isComponent name = true)
    (hnone : files.get? (place ++ [name]) = none) (hshort : isTooLong name = false) (mode : Nat) :
    Site (files.put (place ++ [name]) (.directory mode)) p place ∧
      Site (files.put (place ++ [name]) (.directory mode)) (p.child name) (place ++ [name]) := by
  have hstay := h.put_directory mode hnone
  refine ⟨hstay, hstay.child ?_ hname hshort⟩
  exact isDirectoryAt_iff.2 ⟨mode, by rw [get?_put _ _ _ (by simp), if_pos rfl]⟩

/-- A document is written to its place in a site, or nothing has changed. Where it could be written,
with no directory in its place and the name of the temporary file free, it has been. -/
theorem writeDocument_cases {w : Workspace} (h : Site w.files p place) (v : Value)
    (hname : Layout.isComponent name = true) :
    (∃ e, StepFailure e ∧ writeDocument v (p.child name) w = (.error e, w) ∧
      (w.files.Direct p place → w.files.isDirectoryAt (place ++ [name]) = false →
        w.files.get? (place ++ [temporaryName name 0]) = none →
        ¬ Recordable w.files p name v)) ∨
    ∃ journal, Recordable w.files p name v ∧
      w.files.isDirectoryAt (place ++ [name]) = false ∧
      writeDocument v (p.child name) w =
        (.ok (p.child name), ⟨w.files.put (place ++ [name]) (documentOf v), journal⟩) := by
  have husable := Path.hasNull_child h.usable hname
  obtain ⟨-, -, hup, -, -⟩ := Layout.isComponent_iff.1 hname
  rcases RegistryTree.writeDocument_cases v (p.child name) w with
    ⟨e, he, heq⟩ | ⟨text, q, hr, -, hs, hd, heq⟩
  · refine Or.inl ⟨e, he.step husable, heq, fun hdirect hd hfree hall => ?_⟩
    obtain ⟨text, hr⟩ := hall.renders
    obtain ⟨journal, hok⟩ :=
      writeDocument_eq hr husable h.leads hdirect hall.fits hup hd hfree
    rw [heq] at hok
    cases hok
  · have hfits := writeDocument_fits heq
    rw [h.slot_eq hs] at hd heq
    exact Or.inr ⟨_, ⟨⟨text, hr⟩, hfits⟩, hd, heq⟩

/-- A site stays a site when a document is written into it. -/
theorem put_document (h : Site files p place) (v : Value) (rel : Place)
    (hd : files.isDirectoryAt (place ++ rel) = false) :
    Site (files.put (place ++ rel) (documentOf v)) p place :=
  h.put hd (fun _ he => by cases he)

end Site

end RegistryTree
