import Mathlib.Data.List.Induction
import RegistryTree.Proofs.Layout

/-!
# Trees of entries

A file system is regular when every place is taken once, every entry stands in a directory and bears
the name of a single entry; it is a tree when there is the directory that relative paths start from
besides. In a regular file system nothing stands below a place where nothing stands, so that what is
put below such a place can be taken away again without a trace.

What a run puts below a place is written as a list of relative places with their entries; of two for
one place the later stands.

> `get?_putAll`: what stands where after all of a list was put below a place.
> `eraseBelow_putAll`: taking away what stands at a place takes away all that was put below it.
> `IsRegular.eraseBelow_eq`: where nothing stands, nothing is taken away.
> `IsRegular.no_null_of_walk`: a path that leads somewhere can be handed to the system.
-/

namespace RegistryTree

namespace FileSystem

/-! ## Putting and erasing -/

theorem get?_eq_none_iff {files : FileSystem} {p : Place} (hp : p ≠ []) :
    files.get? p = none ↔ ∀ e ∈ files.entries, e.1 ≠ p := by
  unfold get?
  rw [if_neg hp, Option.map_eq_none_iff, List.find?_eq_none]
  simp

theorem erase_of_none {files : FileSystem} {p : Place} (hp : p ≠ []) (h : files.get? p = none) :
    files.erase p = files := by
  have hall : files.entries.filter (·.1 ≠ p) = files.entries :=
    List.filter_eq_self.2 fun e he => by simpa using (get?_eq_none_iff hp).1 h e he
  rw [erase, hall]

/-- Of two entries put at one place the later stands. -/
theorem put_put (files : FileSystem) (p : Place) (e e' : Entry) :
    (files.put p e).put p e' = files.put p e' := by
  simp [put, List.filter_append]

/-- An entry that was put and erased was never there. -/
theorem erase_put (files : FileSystem) (p : Place) (e : Entry) :
    (files.put p e).erase p = files.erase p := by
  simp [put, erase, List.filter_append]

/-- What stands at a place and below it is taken away with whatever was put there. -/
theorem eraseBelow_put {files : FileSystem} {p q : Place} (e : Entry) (h : p <+: q) :
    (files.put q e).eraseBelow p = files.eraseBelow p := by
  have hq : p.isPrefixOf q = true := List.isPrefixOf_iff_prefix.2 h
  have hsame : ∀ x ∈ files.entries, (!p.isPrefixOf x.1 && decide (x.1 ≠ q)) = !p.isPrefixOf x.1 := by
    intro x _
    by_cases hx : x.1 = q
    · simp [hx, hq]
    · simp [hx]
  simp only [put, eraseBelow, List.filter_append, List.filter_filter]
  rw [List.filter_congr hsame]
  simp [hq]

/-- A directory that was emptied and then erased is gone with all that was in it. -/
theorem erase_eraseWithin (files : FileSystem) (p : Place) :
    (files.eraseWithin p).erase p = files.eraseBelow p := by
  have hsame : ∀ x ∈ files.entries,
      (decide (x.1 ≠ p) && !(p.isPrefixOf x.1 && decide (x.1 ≠ p))) = !p.isPrefixOf x.1 := by
    intro x _
    by_cases hx : x.1 = p
    · simp [hx]
    · simp [hx]
  simp only [eraseWithin, erase, eraseBelow, List.filter_filter]
  rw [List.filter_congr hsame]

/-- What is left when entries are taken away stood there before. -/
theorem keeps_of_filter {files : FileSystem} {after : FileSystem}
    (h : ∀ p e, after.get? p = some e → files.get? p = some e)
    (hc : after.current = files.current) : Keeps after files := by
  refine ⟨fun p hp => ?_, fun p target hp => h p _ hp, hc.symm⟩
  obtain ⟨mode, hm⟩ := isDirectoryAt_iff.1 hp
  exact isDirectoryAt_iff.2 ⟨mode, h p _ hm⟩

theorem eraseBelow_keeps {files : FileSystem} {place : Place} (hp : place ≠ []) :
    Keeps (files.eraseBelow place) files := by
  refine keeps_of_filter (fun q e hq => ?_) rfl
  rw [get?_eraseBelow _ _ hp] at hq
  split at hq
  next => cases hq
  next => exact hq

theorem eraseWithin_keeps (files : FileSystem) (place : Place) :
    Keeps (files.eraseWithin place) files := by
  refine keeps_of_filter (fun q e hq => ?_) rfl
  rw [get?_eraseWithin] at hq
  split at hq
  next => cases hq
  next => exact hq

/-! ## Lists of entries below a place -/

/-- Puts all of a list of entries below a place, one after the other. -/
def putAll (files : FileSystem) (place : Place) (entries : List (Place × Entry)) : FileSystem :=
  entries.foldl (fun files e => files.put (place ++ e.1) e.2) files

/-- What stands at a relative place after all of a list of entries was put: the last of those for
the place. -/
def standing (entries : List (Place × Entry)) (rel : Place) : Option Entry :=
  entries.reverse.lookup rel

variable {files : FileSystem} {place : Place}

@[simp] theorem putAll_nil : files.putAll place [] = files := rfl

theorem putAll_append (xs ys : List (Place × Entry)) :
    files.putAll place (xs ++ ys) = (files.putAll place xs).putAll place ys := by
  simp [putAll]

theorem putAll_concat (xs : List (Place × Entry)) (rel : Place) (e : Entry) :
    files.putAll place (xs ++ [(rel, e)]) = (files.putAll place xs).put (place ++ rel) e := by
  simp [putAll]

@[simp] theorem putAll_current (entries : List (Place × Entry)) :
    (files.putAll place entries).current = files.current := by
  induction entries generalizing files with
  | nil => rfl
  | cons e rest ih => exact ih

theorem standing_append (xs ys : List (Place × Entry)) (rel : Place) :
    standing (xs ++ ys) rel = (standing ys rel).or (standing xs rel) := by
  rw [standing, List.reverse_append, List.lookup_append]
  rfl

theorem standing_concat (xs : List (Place × Entry)) (p rel : Place) (e : Entry) :
    standing (xs ++ [(p, e)]) rel = if rel = p then some e else standing xs rel := by
  rw [standing, List.reverse_append, List.reverse_singleton, List.singleton_append,
    List.lookup_cons]
  by_cases h : rel = p
  · rw [if_pos h, beq_iff_eq.2 h]
  · rw [if_neg h, beq_eq_false_iff_ne.2 h]
    rfl

theorem standing_eq_none_iff {entries : List (Place × Entry)} {rel : Place} :
    standing entries rel = none ↔ ∀ e ∈ entries, e.1 ≠ rel := by
  rw [standing, List.lookup_eq_none_iff]
  simp only [List.mem_reverse, bne_iff_ne, ne_eq]
  exact ⟨fun h e he heq => by simpa [heq] using h e he, fun h e he => by simpa [eq_comm] using h e he⟩

theorem mem_of_standing {entries : List (Place × Entry)} {rel : Place} {e : Entry}
    (h : standing entries rel = some e) : (rel, e) ∈ entries := by
  rw [standing, List.lookup_eq_some_iff] at h
  obtain ⟨front, back, heq, -⟩ := h
  have hm : (rel, e) ∈ entries.reverse := by rw [heq]; simp
  exact List.mem_reverse.1 hm

/-- What stands below a place after entries were put there: the last of them, else what stood
before. -/
theorem get?_putAll (hp : place ≠ []) (entries : List (Place × Entry)) (rel : Place) :
    (files.putAll place entries).get? (place ++ rel) =
      (standing entries rel).or (files.get? (place ++ rel)) := by
  induction entries using List.reverseRecOn with
  | nil => rfl
  | append_singleton xs e ih =>
    rw [putAll_concat, get?_put _ _ _ (by simp [hp]), standing_concat, ih]
    by_cases h : rel = e.1
    · simp [h]
    · rw [if_neg h, if_neg (fun he => h (List.append_cancel_left he))]

/-- Elsewhere nothing has changed. -/
theorem get?_putAll_outside (hp : place ≠ []) (entries : List (Place × Entry)) {q : Place}
    (h : ¬ place <+: q) : (files.putAll place entries).get? q = files.get? q := by
  induction entries using List.reverseRecOn with
  | nil => rfl
  | append_singleton xs e ih =>
    have hne : q ≠ place ++ e.1 := fun heq => h (heq ▸ List.prefix_append ..)
    rw [putAll_concat, get?_put _ _ _ (by simp [hp]), if_neg hne, ih]

/-- Taking away what stands at a place takes away all that was put below it. -/
theorem eraseBelow_putAll (entries : List (Place × Entry)) :
    (files.putAll place entries).eraseBelow place = files.eraseBelow place := by
  induction entries using List.reverseRecOn with
  | nil => rfl
  | append_singleton xs e ih =>
    rw [putAll_concat, eraseBelow_put _ (List.prefix_append ..), ih]

/-! ## Trees -/

/-- Every place is taken once, every entry stands in a directory, and every name on the way to it
is the name of a single entry, and short enough. -/
structure IsRegular (files : FileSystem) : Prop where
  distinct : (files.entries.map (·.1)).Nodup
  proper : ∀ e ∈ files.entries, e.1 ≠ []
  parent : ∀ e ∈ files.entries, files.isDirectoryAt e.1.dropLast = true
  component : ∀ e ∈ files.entries, ∀ name ∈ e.1, Layout.isComponent name = true
  short : ∀ e ∈ files.entries, ∀ name ∈ e.1, isTooLong name = false

/-- A regular file system with the directory that relative paths start from. -/
structure IsTree (files : FileSystem) : Prop extends IsRegular files where
  current : files.isDirectoryAt files.current = true

theorem mem_of_get? {p : Place} {e : Entry} (hp : p ≠ []) (h : files.get? p = some e) :
    (p, e) ∈ files.entries := by
  unfold get? at h
  rw [if_neg hp, Option.map_eq_some_iff] at h
  obtain ⟨x, hx, rfl⟩ := h
  have hm := List.mem_of_find?_eq_some hx
  have he : x.1 = p := by simpa using List.find?_some hx
  rwa [← he]

namespace IsRegular

/-- What stands below a place stands in a directory at that place. -/
theorem directory_of_below (ht : files.IsRegular) {name : String} {rel : Place}
    (h : files.get? (place ++ name :: rel) ≠ none) : files.isDirectoryAt place = true := by
  induction rel using List.reverseRecOn with
  | nil =>
    obtain ⟨e, he⟩ := Option.ne_none_iff_exists'.1 h
    have hparent := ht.parent _ (mem_of_get? (by simp) he)
    simpa using hparent
  | append_singleton rel last ih =>
    obtain ⟨e, he⟩ := Option.ne_none_iff_exists'.1 h
    have hparent := ht.parent _ (mem_of_get? (by simp) he)
    have hdrop : (place ++ name :: (rel ++ [last])).dropLast = place ++ name :: rel := by
      rw [← List.cons_append, ← List.append_assoc, List.dropLast_concat]
    rw [hdrop] at hparent
    obtain ⟨mode, hm⟩ := isDirectoryAt_iff.1 hparent
    exact ih (by simp [hm])

/-- Nothing stands below a place where nothing stands. -/
theorem get?_below (ht : files.IsRegular) (h : files.get? place = none) (rel : Place) :
    files.get? (place ++ rel) = none := by
  cases rel with
  | nil => simpa using h
  | cons name rest =>
    by_contra hne
    obtain ⟨mode, hm⟩ := isDirectoryAt_iff.1 (ht.directory_of_below hne)
    rw [h] at hm
    cases hm

/-- Where nothing stands, nothing is taken away. -/
theorem eraseBelow_eq (ht : files.IsRegular) (h : files.get? place = none) :
    files.eraseBelow place = files := by
  have hall : files.entries.filter (fun e => !place.isPrefixOf e.1) = files.entries := by
    refine List.filter_eq_self.2 fun e he => ?_
    rw [Bool.not_eq_true', ← Bool.not_eq_true, List.isPrefixOf_iff_prefix]
    intro hgiven
    obtain ⟨rel, hrel⟩ := hgiven
    have hnone := ht.get?_below h rel
    rw [hrel] at hnone
    exact (get?_eq_none_iff (ht.proper e he)).1 hnone e he rfl
  rw [eraseBelow, hall]

/-- All that was put below a place where nothing stood can be taken away without a trace. -/
theorem eraseBelow_putAll_eq (ht : files.IsRegular) (h : files.get? place = none)
    (entries : List (Place × Entry)) : (files.putAll place entries).eraseBelow place = files := by
  rw [eraseBelow_putAll, ht.eraseBelow_eq h]

/-- What stands below a place where nothing stood is what was put there. -/
theorem get?_putAll_eq (ht : files.IsRegular) (h : files.get? place = none)
    (entries : List (Place × Entry)) (rel : Place) :
    (files.putAll place entries).get? (place ++ rel) = standing entries rel := by
  have hp : place ≠ [] := by
    intro heq
    subst heq
    simp at h
  rw [get?_putAll hp, ht.get?_below h, Option.or_none]

/-- Below a place where nothing stood, directories and links are only added. -/
theorem keeps_putAll (ht : files.IsRegular) (hfree : files.get? place = none)
    (entries : List (Place × Entry)) : Keeps files (files.putAll place entries) := by
  have hne : place ≠ [] := by
    intro heq
    subst heq
    simp at hfree
  -- what stood somewhere did not stand below the place
  have hsame : ∀ q, files.get? q ≠ none → (files.putAll place entries).get? q = files.get? q := by
    intro q hq
    refine get?_putAll_outside hne entries ?_
    intro hgiven
    obtain ⟨rel, rfl⟩ := hgiven
    exact hq (ht.get?_below hfree rel)
  refine ⟨fun q hq => ?_, fun q target hq => ?_, putAll_current entries⟩
  · obtain ⟨mode, hm⟩ := isDirectoryAt_iff.1 hq
    exact isDirectoryAt_iff.2 ⟨mode, by rw [hsame q (by simp [hm]), hm]⟩
  · rw [hsame q (by simp [hq]), hq]

/-- When all that was put below a place where nothing stood is taken away again but for what stands
at the place, the directories and links from before are still there. -/
theorem keeps_eraseWithin_putAll (ht : files.IsRegular) (hfree : files.get? place = none)
    (entries : List (Place × Entry)) :
    Keeps files ((files.putAll place entries).eraseWithin place) := by
  have hkeeps := ht.keeps_putAll hfree entries
  have hsame : ∀ q, files.get? q ≠ none →
      ((files.putAll place entries).eraseWithin place).get? q =
        (files.putAll place entries).get? q := by
    intro q hq
    rw [get?_eraseWithin, if_neg]
    intro hgiven
    obtain ⟨⟨rel, rfl⟩, -⟩ := hgiven
    exact hq (ht.get?_below hfree rel)
  refine ⟨fun q hq => ?_, fun q target hq => ?_, hkeeps.current⟩
  · obtain ⟨mode, hm⟩ := isDirectoryAt_iff.1 hq
    rw [isDirectoryAt, hsame q (by simp [hm])]
    exact hkeeps.directory q hq
  · rw [hsame q (by simp [hq])]
    exact hkeeps.link q target hq

/-- What is left when a directory is taken away with all that is below it is regular. -/
theorem eraseBelow (ht : files.IsRegular) (hp : place ≠ []) : (files.eraseBelow place).IsRegular := by
  have hsub : (files.eraseBelow place).entries.Sublist files.entries := List.filter_sublist
  refine ⟨ht.distinct.sublist (hsub.map _), fun e he => ht.proper e (hsub.mem he), fun e he => ?_,
    fun e he => ht.component e (hsub.mem he), fun e he => ht.short e (hsub.mem he)⟩
  have hnot : ¬ place <+: e.1 := by
    have hn := (List.mem_filter.1 he).2
    rwa [Bool.not_eq_true', ← Bool.not_eq_true, List.isPrefixOf_iff_prefix] at hn
  rw [isDirectoryAt, get?_eraseBelow _ _ hp, if_neg]
  · exact ht.parent e (hsub.mem he)
  · exact fun hgiven => hnot (hgiven.trans (List.dropLast_prefix e.1))

/-- What is left when a directory is emptied is regular. -/
theorem eraseWithin (ht : files.IsRegular) : (files.eraseWithin place).IsRegular := by
  have hsub : (files.eraseWithin place).entries.Sublist files.entries := List.filter_sublist
  refine ⟨ht.distinct.sublist (hsub.map _), fun e he => ht.proper e (hsub.mem he), fun e he => ?_,
    fun e he => ht.component e (hsub.mem he), fun e he => ht.short e (hsub.mem he)⟩
  have hnot : ¬ (place <+: e.1 ∧ e.1 ≠ place) := by
    have hn := (List.mem_filter.1 he).2
    rwa [Bool.not_eq_true', ← Bool.not_eq_true, Bool.and_eq_true, List.isPrefixOf_iff_prefix,
      decide_eq_true_eq] at hn
  rw [isDirectoryAt, get?_eraseWithin, if_neg]
  · exact ht.parent e (hsub.mem he)
  · intro hgiven
    obtain ⟨hbelow, -⟩ := hgiven
    refine hnot ⟨hbelow.trans (List.dropLast_prefix e.1), fun heq => ?_⟩
    -- a place is longer than the directory that it belongs to
    have hlength := hbelow.length_le
    have hpos := List.length_pos_iff.2 (ht.proper e (hsub.mem he))
    rw [List.length_dropLast, heq] at hlength
    rw [heq] at hpos
    omega

/-- On a walk the name of a directory leads there. -/
theorem turn_directory (ht : files.IsRegular) {name : String}
    (hd : files.isDirectoryAt (place ++ [name]) = true) :
    files.isDirectoryAt place = true ∧ files.turn place name = .on (place ++ [name]) := by
  obtain ⟨mode, hm⟩ := isDirectoryAt_iff.1 hd
  have hin := mem_of_get? (by simp) hm
  have hparent : files.isDirectoryAt place = true := by
    simpa using ht.parent _ hin
  obtain ⟨-, hdot, hup, -, -⟩ := Layout.isComponent_iff.1 (ht.component _ hin name (by simp))
  have hshort := ht.short _ hin name (by simp)
  exact ⟨hparent, by simp [turn, hparent, hdot, hup, hshort, hm]⟩

/-- A directory is reached from the top by the names of its place. -/
theorem walkWith_directory (ht : files.IsRegular)
    {onLink : Place → List String → Except ErrorCode Place} {names : List String}
    (hd : files.isDirectoryAt place = true) :
    walkWith files onLink [] (place ++ names) = walkWith files onLink place names := by
  induction place using List.reverseRecOn generalizing names with
  | nil => rfl
  | append_singleton place name ih =>
    obtain ⟨hparent, hturn⟩ := ht.turn_directory hd
    rw [List.append_assoc, ih hparent, List.singleton_append, walkWith_cons, hturn]

theorem followFrom_directory (ht : files.IsRegular) {names : List String}
    (hd : files.isDirectoryAt place = true) :
    files.followFrom [] (place ++ names) = files.followFrom place names := by
  show files.walk (_ + 1) [] _ = files.walk (_ + 1) place _
  exact ht.walkWith_directory hd

/-- No name that is walked over has the character that ends paths. -/
theorem no_null_of_walkWith (ht : files.IsRegular)
    {onLink : Place → List String → Except ErrorCode Place} {goal : Place}
    (hlink : ∀ p names, onLink p names = .ok goal → ∀ name ∈ names, '\x00' ∉ name.toList) :
    ∀ {names : List String} {place : Place}, walkWith files onLink place names = .ok goal →
      ∀ name ∈ names, '\x00' ∉ name.toList := by
  intro names
  induction names with
  | nil =>
    intro place _ name hmem
    cases hmem
  | cons name rest ih =>
    intro place hw
    rw [walkWith_cons] at hw
    rw [List.forall_mem_cons]
    -- what has an entry has the name of one
    have hentry : files.get? (place ++ [name]) ≠ none → '\x00' ∉ name.toList := by
      intro hne
      obtain ⟨e, he⟩ := Option.ne_none_iff_exists'.1 hne
      have hc := ht.component _ (mem_of_get? (by simp) he) name (by simp)
      exact (Layout.isComponent_iff.1 hc).2.2.2.1
    cases hturn : files.turn place name with
    | stop code missed => simp [hturn] at hw
    | on next =>
      rw [hturn] at hw
      refine ⟨?_, ih hw⟩
      rcases turn_on hturn with ⟨rfl, -⟩ | ⟨rfl, -⟩ | ⟨hne, -⟩
      · decide
      · decide
      · exact hentry hne
    | link target =>
      rw [hturn] at hw
      refine ⟨hentry (by simp [turn_link hturn]), fun other hm => ?_⟩
      exact hlink _ _ hw other (List.mem_append_right _ hm)

theorem no_null_of_walk (ht : files.IsRegular) {goal : Place} :
    ∀ {links : Nat} {place : Place} {names : List String}, walk files links place names = .ok goal →
      ∀ name ∈ names, '\x00' ∉ name.toList := by
  intro links
  induction links with
  | zero => exact fun hw => ht.no_null_of_walkWith (fun _ _ he => by cases he) hw
  | succ n ih => exact fun hw => ht.no_null_of_walkWith (fun _ _ he => ih he) hw

end IsRegular

end FileSystem

end RegistryTree
