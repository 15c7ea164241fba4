import RegistryTree.Layout
import RegistryTree.Path
import RegistryTree.Proofs.Layout

/-!
# The text of a path

A path that was taken from a text is shown by a text that it is taken from again. That holds of every
path whose names lead on and have no slash: `IsPlain` says so, and the names of the layout are of
that kind.

> `ofText_toText`: a plain path is taken from its own text.
> `toText_child_inj`: with one name more, a path has a text for each name.
-/

namespace RegistryTree

namespace Path

/-- Whether all names of a path lead on and have no slash. -/
def IsPlain (p : Path) : Prop :=
  ∀ part ∈ p.parts, leads part.toList = true ∧ '/' ∉ part.toList

/-! ## Pieces -/

theorem pieces_append_slash {s : List Char} (h : '/' ∉ s) (rest : List Char) :
    pieces (s ++ '/' :: rest) = s :: pieces rest := by
  induction s with
  | nil => rw [List.nil_append, pieces, if_pos rfl]
  | cons c s ih =>
    rw [List.mem_cons, not_or] at h
    rw [List.cons_append, pieces, if_neg (Ne.symm h.1), ih h.2]

theorem no_slash_of_mem_pieces {s : List Char} : ∀ piece ∈ pieces s, '/' ∉ piece := by
  induction s with
  | nil =>
    intro piece hp
    rw [pieces, List.mem_singleton] at hp
    simp [hp]
  | cons c rest ih =>
    rw [pieces]
    split
    next => exact List.forall_mem_cons.2 ⟨List.not_mem_nil, ih⟩
    next hc =>
      -- A character that is no slash goes to the front of the first piece of the rest, so that
      -- piece is looked at apart from the others.
      cases hr : pieces rest with
      | nil =>
        intro piece hp
        rw [List.mem_singleton] at hp
        simpa [hp] using Ne.symm hc
      | cons p more =>
        rw [hr, List.forall_mem_cons] at ih
        refine List.forall_mem_cons.2 ⟨?_, ih.2⟩
        rw [List.mem_cons, not_or]
        exact ⟨Ne.symm hc, ih.1⟩

theorem pieces_intercalate {part : String} {parts : List String}
    (h : ∀ p ∈ part :: parts, '/' ∉ p.toList) :
    pieces ("/".intercalate (part :: parts)).toList = (part :: parts).map String.toList := by
  induction parts generalizing part with
  | nil =>
    rw [String.intercalate_singleton, pieces_of_no_slash (h part List.mem_cons_self)]
    rfl
  | cons next rest ih =>
    rw [List.forall_mem_cons] at h
    rw [String.intercalate_cons_cons, String.toList_append, String.toList_append,
      List.append_assoc]
    show pieces (part.toList ++ '/' :: ("/".intercalate (next :: rest)).toList) = _
    rw [pieces_append_slash h.1, ih h.2, List.map_cons (l := next :: rest)]

theorem mem_of_mem_pieces {s : List Char} : ∀ piece ∈ pieces s, ∀ c ∈ piece, c ∈ s := by
  induction s with
  | nil =>
    intro piece hp
    rw [pieces, List.mem_singleton] at hp
    simp [hp]
  | cons c rest ih =>
    rw [pieces]
    split
    next =>
      refine List.forall_mem_cons.2 ⟨fun _ h => (List.not_mem_nil h).elim, fun piece hp d hd => ?_⟩
      exact List.mem_cons_of_mem _ (ih piece hp d hd)
    next =>
      cases hr : pieces rest with
      | nil => simp
      | cons p more =>
        rw [hr, List.forall_mem_cons] at ih
        refine List.forall_mem_cons.2 ⟨fun d hd => ?_, fun piece hp d hd => ?_⟩
        · rcases List.mem_cons.1 hd with rfl | hd
          · exact List.mem_cons_self
          · exact List.mem_cons_of_mem _ (ih.1 d hd)
        · exact List.mem_cons_of_mem _ (ih.2 piece hp d hd)

/-- The names in a text are made of its characters. -/
theorem mem_of_mem_parts {text part : String} (h : part ∈ (ofText text).parts) {c : Char}
    (hc : c ∈ part.toList) : c ∈ text.toList := by
  obtain ⟨piece, hpiece, rfl⟩ := List.mem_map.1 h
  rw [String.toList_ofList] at hc
  exact mem_of_mem_pieces piece (List.mem_filter.1 hpiece).1 c hc

/-! ## Texts of plain paths -/

theorem isPlain_ofText (text : String) : (ofText text).IsPlain := by
  intro part hp
  obtain ⟨piece, hpiece, rfl⟩ := List.mem_map.1 hp
  obtain ⟨hmem, hleads⟩ := List.mem_filter.1 hpiece
  rw [String.toList_ofList]
  exact ⟨hleads, no_slash_of_mem_pieces piece hmem⟩

theorem IsPlain.child {p : Path} (h : p.IsPlain) {name : String}
    (hname : Layout.isComponent name = true) : (p.child name).IsPlain := by
  intro part hp
  rcases List.mem_append.1 hp with hp | hp
  · exact h part hp
  · obtain ⟨hne, hdot, -, -, hslash⟩ := Layout.isComponent_iff.1 hname
    rw [List.mem_singleton.1 hp]
    refine ⟨?_, hslash⟩
    simp only [leads, Bool.and_eq_true, decide_eq_true_eq, ne_eq, String.toList_eq_nil_iff]
    exact ⟨hne, fun e => hdot (String.toList_inj.1 e)⟩

/-- The names in the text of names are these names. -/
theorem partsOf_intercalate {p : Path} (h : p.IsPlain) :
    partsOf ("/".intercalate p.parts).toList = p.parts := by
  cases hp : p.parts with
  | nil => decide
  | cons part parts =>
    have hplain := h
    unfold IsPlain at hplain
    rw [hp] at hplain
    rw [partsOf, pieces_intercalate fun q hq => (hplain q hq).2]
    have hall : ((part :: parts).map String.toList).filter leads = (part :: parts).map String.toList := by
      refine List.filter_eq_self.2 fun piece hm => ?_
      obtain ⟨q, hq, rfl⟩ := List.mem_map.1 hm
      exact (hplain q hq).1
    rw [hall, List.map_map]
    simp [Function.comp_def]

/-- The text of names begins with no slash. -/
theorem head?_intercalate {p : Path} (h : p.IsPlain) :
    ("/".intercalate p.parts).toList.head? ≠ some '/' := by
  cases hp : p.parts with
  | nil => decide
  | cons part parts =>
    obtain ⟨hleads, hslash⟩ := h part (by simp [hp])
    -- The text begins as its first part does, which has a character and no slash in it.
    have hhead : ∀ rest, (part.toList ++ rest).head? ≠ some '/' := by
      intro rest
      cases hc : part.toList with
      | nil => simp [hc, leads] at hleads
      | cons c s =>
        rw [hc, List.mem_cons, not_or] at hslash
        simpa using Ne.symm hslash.1
    cases parts with
    | nil => simpa using hhead []
    | cons next rest =>
      rw [String.intercalate_cons_cons, String.toList_append, String.toList_append,
        List.append_assoc]
      exact hhead _

theorem startOf_of_head {s : List Char} (h : s.head? ≠ some '/') :
    startOf s = .here ∧ startOf ('/' :: s) = .top ∧ startOf ('/' :: '/' :: s) = .doubleTop := by
  cases s with
  | nil => exact ⟨rfl, rfl, rfl⟩
  | cons c rest =>
    have hc : c ≠ '/' := fun e => h (by rw [e]; rfl)
    refine ⟨?_, ?_, ?_⟩
    · unfold startOf
      split <;> simp_all
    · unfold startOf
      split <;> simp_all
    · unfold startOf
      split
      next heq => simp_all
      next => rfl
      next hne heq =>
        cases heq
        exact absurd rfl (hne _)
      next => simp_all

/-- A slash in front adds no name. -/
theorem partsOf_slash (s : List Char) : partsOf ('/' :: s) = partsOf s := by
  rw [partsOf, pieces, if_pos rfl]
  rfl

/-- A plain path is taken from its own text. -/
theorem ofText_toText {p : Path} (h : p.IsPlain) : ofText p.toText = p := by
  have hparts := partsOf_intercalate h
  have hhead := head?_intercalate h
  -- the names begin with no slash, so the slashes in front tell the start
  obtain ⟨hhere, htop, hdouble⟩ := startOf_of_head hhead
  obtain ⟨start, parts⟩ := p
  simp only at hparts hhere htop hdouble
  rw [toText]
  cases start with
  | here =>
    by_cases hnil : parts = []
    · subst hnil
      decide
    · rw [if_neg (by simp [hnil])]
      show ofText ("" ++ _) = _
      rw [String.empty_append, ofText, hparts, hhere]
  | top =>
    rw [if_neg (by simp)]
    show ofText ("/" ++ _) = _
    have hlist : ("/" ++ "/".intercalate parts).toList = '/' :: ("/".intercalate parts).toList := by
      simp
    rw [ofText, hlist, htop, partsOf_slash, hparts]
  | doubleTop =>
    rw [if_neg (by simp)]
    show ofText ("//" ++ _) = _
    have hlist : ("//" ++ "/".intercalate parts).toList =
        '/' :: '/' :: ("/".intercalate parts).toList := by
      simp
    rw [ofText, hlist, hdouble, partsOf_slash, partsOf_slash, hparts]

/-! ## Paths with one name more -/

/-- A path with one name more is told by what it has above and by the name at its end. -/
theorem eq_child_iff {p directory : Path} {name : String} (h : name ≠ "") :
    p = directory.child name ↔ p.parent = directory ∧ p.name = name := by
  constructor
  · rintro rfl
    exact ⟨parent_of_child .., name_of_child ..⟩
  · rintro ⟨rfl, rfl⟩
    obtain ⟨start, parts⟩ := p
    rcases List.eq_nil_or_concat parts with rfl | ⟨front, last, rfl⟩
    · exact absurd rfl h
    · simp [child]

/-- The text of a path with one name more ends in the name, behind a text that does not hang on it. -/
theorem exists_toText_child (p : Path) : ∃ lead, ∀ name, (p.child name).toText = lead ++ name := by
  have htext : ∀ name,
      (p.child name).toText = p.start.slashes ++ "/".intercalate (p.parts ++ [name]) := by
    intro name
    rw [toText, if_neg (by simp [child])]
    rfl
  by_cases hparts : p.parts = []
  · refine ⟨p.start.slashes, fun name => ?_⟩
    rw [htext, hparts, List.nil_append, String.intercalate_singleton]
  · refine ⟨p.start.slashes ++ ("/".intercalate p.parts ++ "/"), fun name => ?_⟩
    rw [htext, String.intercalate_append_of_ne_nil hparts (by simp), String.intercalate_singleton,
      ← String.append_assoc]

/-- Two names behind a path make texts that differ, unless the names are the same. -/
theorem toText_child_inj {p : Path} {name other : String} :
    (p.child name).toText = (p.child other).toText ↔ name = other := by
  obtain ⟨lead, hlead⟩ := exists_toText_child p
  rw [hlead, hlead, String.append_right_inj]

end Path

end RegistryTree
