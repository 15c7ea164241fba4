import Mathlib.Data.List.Basic
import Mathlib.Data.List.Nodup
import RegistryTree.Proofs.FileSystem.Tree

/-!
# What a directory lists

A directory lists the names of its entries, none of them twice, in the order in which they were put
there. What is put elsewhere does not show in its list.

> `mem_names_iff`: a name is listed when something stands under it.
> `nodup_names`: no name is listed twice.
> `IsRegular.put`: what is put into a directory leaves a file system regular.
> `SameFiles.of_get?`: what stands where determines all but the order in which it is listed.
> `SameFiles.of_perm`: that order may be any.
> `names_putAll`: a new directory lists the names that were put into it, in their order.
-/

namespace RegistryTree

namespace FileSystem

variable {files : FileSystem} {place : Place} {name : String}

/-- The name of an entry, when it stands in the given directory. -/
def nameIn (place p : Place) : Option String :=
  if p ≠ [] ∧ p.dropLast = place then p.getLast? else none

theorem nameIn_eq_some_iff {p : Place} : nameIn place p = some name ↔ p = place ++ [name] := by
  unfold nameIn
  constructor
  · intro h
    split at h
    next hp => rw [← hp.2, List.dropLast_append_getLast? _ h]
    next => cases h
  · intro heq
    subst heq
    simp

theorem names_eq (files : FileSystem) (place : Place) :
    files.names place = files.entries.filterMap (nameIn place ·.1) := rfl

/-- A name is listed when something stands under it. -/
theorem mem_names_iff : name ∈ files.names place ↔ files.get? (place ++ [name]) ≠ none := by
  rw [Ne, get?_eq_none_iff (by simp), names_eq, List.mem_filterMap]
  simp only [nameIn_eq_some_iff]
  push Not
  rfl

/-- Where every place is taken once, no name is listed twice. -/
theorem nodup_names (h : (files.entries.map (·.1)).Nodup) (place : Place) :
    (files.names place).Nodup := by
  have hnames : files.names place = (files.entries.map (·.1)).filterMap (nameIn place) := by
    rw [List.filterMap_map]
    rfl
  rw [hnames]
  refine List.Nodup.filterMap (fun p q n hp hq => ?_) h
  rw [Option.mem_def, nameIn_eq_some_iff] at hp hq
  rw [hp, hq]

theorem nodup_put (h : (files.entries.map (·.1)).Nodup) (p : Place) (e : Entry) :
    ((files.put p e).entries.map (·.1)).Nodup := by
  rw [put, List.map_append, List.nodup_append]
  refine ⟨h.sublist (List.filter_sublist.map _), by simp, ?_⟩
  intro q hq q' hq' heq
  obtain ⟨x, hx, rfl⟩ := List.mem_map.1 hq
  rw [List.map_singleton, List.mem_singleton] at hq'
  have hne := (List.mem_filter.1 hx).2
  rw [heq, hq'] at hne
  simp at hne

/-- A file system stays regular when something is put into a directory, under the name of an entry,
where no directory stands. -/
theorem IsRegular.put (ht : files.IsRegular) (hd : files.isDirectoryAt place = true)
    (hname : Layout.isComponent name = true) (hshort : isTooLong name = false)
    (hfree : files.isDirectoryAt (place ++ [name]) = false) (e : Entry) :
    (files.put (place ++ [name]) e).IsRegular := by
  have hmem : ∀ x ∈ (files.put (place ++ [name]) e).entries,
      x ∈ files.entries ∨ x = (place ++ [name], e) := by
    intro x hx
    rcases List.mem_append.1 hx with hx | hx
    · exact Or.inl (List.mem_filter.1 hx).1
    · exact Or.inr (List.mem_singleton.1 hx)
  have hkept : ∀ q, files.isDirectoryAt q = true →
      (files.put (place ++ [name]) e).isDirectoryAt q = true := by
    intro q hq
    have hne : q ≠ place ++ [name] := by
      intro heq
      rw [heq, hfree] at hq
      cases hq
    rwa [isDirectoryAt, get?_put _ _ _ (by simp), if_neg hne]
  -- the names on the way to the directory are those of its own entry
  have hnames : ∀ n ∈ place, Layout.isComponent n = true ∧ isTooLong n = false := by
    intro n hn
    obtain ⟨mode, hmode⟩ := isDirectoryAt_iff.1 hd
    have hin := mem_of_get? (List.ne_nil_of_mem hn) hmode
    exact ⟨ht.component _ hin n hn, ht.short _ hin n hn⟩
  refine ⟨nodup_put ht.distinct _ _, fun x hx => ?_, fun x hx => ?_, fun x hx n hn => ?_,
    fun x hx n hn => ?_⟩
  · rcases hmem x hx with hx | rfl
    · exact ht.proper x hx
    · simp
  · rcases hmem x hx with hx | rfl
    · exact hkept _ (ht.parent x hx)
    · rw [List.dropLast_concat]
      exact hkept _ hd
  · rcases hmem x hx with hx | rfl
    · exact ht.component x hx n hn
    · rcases List.mem_append.1 hn with hn | hn
      · exact (hnames n hn).1
      · rwa [List.mem_singleton.1 hn]
  · rcases hmem x hx with hx | rfl
    · exact ht.short x hx n hn
    · rcases List.mem_append.1 hn with hn | hn
      · exact (hnames n hn).2
      · rwa [List.mem_singleton.1 hn]

theorem nodup_putAll (h : (files.entries.map (·.1)).Nodup) (place : Place)
    (entries : List (Place × Entry)) :
    ((files.putAll place entries).entries.map (·.1)).Nodup := by
  induction entries generalizing files with
  | nil => exact h
  | cons e rest ih => exact ih (nodup_put h ..)

/-! ## The order of a list -/

/-- A new entry is listed behind all that were there. -/
theorem names_put_child (e : Entry) (h : name ∉ files.names place) :
    (files.put (place ++ [name]) e).names place = files.names place ++ [name] := by
  have hall : files.entries.filter (·.1 ≠ place ++ [name]) = files.entries := by
    rw [mem_names_iff, not_not, get?_eq_none_iff (by simp)] at h
    exact List.filter_eq_self.2 fun x hx => by simpa using h x hx
  have hname : nameIn place (place ++ [name]) = some name := nameIn_eq_some_iff.2 rfl
  rw [names_eq, put, hall, List.filterMap_append, ← names_eq]
  simp [hname]

/-- What is put elsewhere is not listed. -/
theorem names_put_of_none {p : Place} (e : Entry) (h : nameIn place p = none) :
    (files.put p e).names place = files.names place := by
  have hlast : [(p, e)].filterMap (nameIn place ·.1) = [] := by simp [h]
  rw [names_eq, put, List.filterMap_append, List.filterMap_filter, hlast, List.append_nil, names_eq]
  refine List.filterMap_congr fun x _ => ?_
  by_cases hx : x.1 = p
  · simp [hx, h]
  · simp [hx]

/-- A name below a place is the name of an entry in it when nothing comes behind the name. -/
theorem nameIn_append (place rel : Place) : nameIn place (place ++ rel) = nameIn [] rel := by
  ext name
  rw [nameIn_eq_some_iff, nameIn_eq_some_iff, List.nil_append, List.append_cancel_left_eq]

/-- A directory lists the names that are put into it in their order, behind those that it had. -/
theorem names_putAll {entries : List (Place × Entry)}
    (h : (files.names place ++ entries.filterMap (nameIn [] ·.1)).Nodup) :
    (files.putAll place entries).names place =
      files.names place ++ entries.filterMap (nameIn [] ·.1) := by
  induction entries generalizing files with
  | nil => simp
  | cons x rest ih =>
    show ((files.put (place ++ x.1) x.2).putAll place rest).names place = _
    cases hx : nameIn [] x.1 with
    | none =>
      have hkept : (files.put (place ++ x.1) x.2).names place = files.names place :=
        names_put_of_none _ (by rw [nameIn_append, hx])
      rw [List.filterMap_cons_none (by rw [hx])] at h ⊢
      rw [ih (by rwa [hkept]), hkept]
    | some name =>
      rw [List.filterMap_cons_some (by rw [hx])] at h ⊢
      -- no name is put twice, so each goes to the end
      have hnew : name ∉ files.names place := fun hm =>
        (List.nodup_append.1 h).2.2 name hm name List.mem_cons_self rfl
      have hput : (files.put (place ++ x.1) x.2).names place = files.names place ++ [name] := by
        rw [nameIn_eq_some_iff.1 hx, List.nil_append, names_put_child _ hnew]
      rw [ih (by rwa [hput, List.append_assoc]), hput, List.append_assoc, List.singleton_append]

/-! ## The same files -/

/-- Whether two file systems have the same entries, in whatever order these are listed. -/
structure SameFiles (files files' : FileSystem) : Prop where
  current : files'.current = files.current
  get? : ∀ q, files'.get? q = files.get? q
  entries : files'.entries.Perm files.entries

/-- Where every place is taken once, the entry of a place is the one that stands there. -/
theorem get?_eq_some_iff_mem (h : (files.entries.map (·.1)).Nodup) {q : Place} (hq : q ≠ [])
    {e : Entry} : files.get? q = some e ↔ (q, e) ∈ files.entries := by
  constructor
  · exact mem_of_get? hq
  · intro hmem
    obtain ⟨e', he'⟩ := Option.ne_none_iff_exists'.1 fun hnone =>
      (get?_eq_none_iff hq).1 hnone _ hmem rfl
    cases List.inj_on_of_nodup_map h (mem_of_get? hq he') hmem rfl
    exact he'

/-- In a regular file system the entries are those that stand somewhere. -/
theorem IsRegular.mem_entries_iff (ht : files.IsRegular) {x : Place × Entry} :
    x ∈ files.entries ↔ x.1 ≠ [] ∧ files.get? x.1 = some x.2 := by
  constructor
  · intro hx
    exact ⟨ht.proper x hx, (get?_eq_some_iff_mem ht.distinct (ht.proper x hx)).2 hx⟩
  · intro h
    exact mem_of_get? h.1 h.2

/-- Where every place is taken once, the entries may be listed in any order. -/
theorem SameFiles.of_perm {files' : FileSystem} (h : (files.entries.map (·.1)).Nodup)
    (hcurrent : files'.current = files.current) (hperm : files'.entries.Perm files.entries) :
    SameFiles files files' := by
  have h' : (files'.entries.map (·.1)).Nodup := (hperm.map _).nodup_iff.2 h
  refine ⟨hcurrent, fun q => ?_, hperm⟩
  by_cases hq : q = []
  · rw [hq, get?_top, get?_top]
  · ext e
    rw [get?_eq_some_iff_mem h' hq, get?_eq_some_iff_mem h hq, hperm.mem_iff]

/-- The file system with all directories listed from behind. -/
def fromBehind (files : FileSystem) : FileSystem := { files with entries := files.entries.reverse }

theorem sameFiles_fromBehind (h : (files.entries.map (·.1)).Nodup) :
    SameFiles files files.fromBehind := .of_perm h rfl (List.reverse_perm _)

theorem names_fromBehind (files : FileSystem) (place : Place) :
    files.fromBehind.names place = (files.names place).reverse := by
  rw [names_eq, names_eq, fromBehind, List.filterMap_reverse]

/-- What stands where determines the entries of a regular file system but for their order. -/
theorem SameFiles.of_get? {files' : FileSystem} (ht : files.IsRegular) (ht' : files'.IsRegular)
    (hcurrent : files'.current = files.current) (h : ∀ q, files'.get? q = files.get? q) :
    SameFiles files files' := by
  refine ⟨hcurrent, h, (List.perm_ext_iff_of_nodup ht'.distinct.of_map ht.distinct.of_map).2 ?_⟩
  intro x
  rw [ht'.mem_entries_iff, ht.mem_entries_iff, h]

end FileSystem

end RegistryTree
