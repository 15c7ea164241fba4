import Mathlib.Data.List.TakeWhile
import RegistryTree.Proofs.Package

/-!
# What documents say

What is taken in from a document is said by the document itself: down a way of keys there stands a
text, or a list with an item. A text says what is left of it without the white space around it, and
a blank one says nothing.

The fields of a document are read along such ways, and a field gives exactly what stands there.

> `Field.requiredText_down_iff`, `Field.optionalText_down_iff`, `Field.mapping_down_iff`,
> `Field.list_down_iff`: when a field is as it should be, and what it gives then.
-/

namespace RegistryTree

open Text

/-! ## Ways through a document -/

namespace Value

/-- What stands down a way of keys. -/
def down? : Value → List String → Option Value
  | v, [] => some v
  | .mapping _ entries, key :: way => (Entries.get? entries key).bind fun v => down? v way
  | _, _ :: _ => none

/-- Whether down a way of keys there stands a text that says something. -/
def Says (v : Value) (way : List String) (s : String) : Prop :=
  ∃ t, v.down? way = some (.text t) ∧ trim t = s ∧ s ≠ ""

/-- Whether down a way of keys there stands a list with an item. -/
def Lists (v : Value) (way : List String) (item : Value) : Prop :=
  ∃ share items, v.down? way = some (.list share items) ∧ item ∈ items

/-- Whether a value is a mapping. -/
def IsMapping (v : Value) : Prop := ∃ share entries, v = .mapping share entries

/-- Whether a value is a list. -/
def IsList (v : Value) : Prop := ∃ share items, v = .list share items

/-- Whether a value is a text. -/
def IsText (v : Value) : Prop := ∃ t, v = .text t

/-- Whether down a way of keys there stands a text with a character that is not blank. -/
def HoldsText (v : Value) (way : List String) : Prop :=
  ∃ t, v.down? way = some (.text t) ∧ ∃ c ∈ t.toList, isBlank c = false

/-- Whether what stands down a way of keys, if anything does but nothing, is as it should be. -/
def MayHold (v : Value) (way : List String) (P : Value → Prop) : Prop :=
  ∀ w, v.down? way = some w → w = .null ∨ P w

/-- What the text down a way of keys says, if there is one that says something. -/
def said? (v : Value) (way : List String) : Option String :=
  match v.down? way with
  | some (.text t) => if trim t = "" then none else some (trim t)
  | _ => none

/-- The items of the list down a way of keys, if there is one. -/
def itemsAt (v : Value) (way : List String) : List Value :=
  match v.down? way with
  | some (.list _ items) => items
  | _ => []

/-- The entries of the mapping down a way of keys, if there is one. -/
def entriesAt (v : Value) (way : List String) : Entries :=
  match v.down? way with
  | some (.mapping _ entries) => entries
  | _ => []

theorem down?_entry (share : Share) (entries : Entries) (key : String) :
    (mapping share entries).down? [key] = Entries.get? entries key := by
  rw [down?]
  cases Entries.get? entries key with
  | none => rfl
  | some v => rw [Option.bind_some, down?]

theorem down?_append (v : Value) (way more : List String) :
    v.down? (way ++ more) = (v.down? way).bind fun w => w.down? more := by
  induction way generalizing v with
  | nil => rw [List.nil_append, down?, Option.bind_some]
  | cons key way ih =>
    rw [List.cons_append]
    cases v with
    | mapping share entries =>
      rw [down?, down?, Option.bind_assoc]
      exact Option.bind_congr fun w _ => ih w
    | _ => rfl

variable {v : Value} {way : List String} {s : String}

theorem trim_eq_empty_iff {t : String} : trim t = "" ↔ ∀ c ∈ t.toList, isBlank c = true := by
  have hchars : trim t = "" ↔ trimChars t.toList = [] := by
    rw [trim, ← String.toList_inj, String.toList_ofList]
    rfl
  rw [hchars]
  constructor
  · intro h
    rw [trimChars, trimWith, List.reverse_eq_nil_iff, List.dropWhile_eq_nil_iff] at h
    -- a character that is not blank would stop the first cut and be left for the second
    rw [← List.dropWhile_eq_nil_iff]
    by_contra hne
    have hhead := List.head_dropWhile_not isBlank hne
    rw [h _ (List.mem_reverse.2 (List.head_mem hne))] at hhead
    cases hhead
  · exact trimChars_of_blank

theorem holdsText_iff : v.HoldsText way ↔ ∃ s, v.Says way s := by
  have hblank : ∀ t : String, (∃ c ∈ t.toList, isBlank c = false) ↔ trim t ≠ "" := fun t => by
    rw [Ne, trim_eq_empty_iff]
    push Not
    simp only [ne_eq, Bool.not_eq_true]
  simp only [HoldsText, Says, hblank]
  constructor
  · rintro ⟨t, ht, hne⟩
    exact ⟨_, t, ht, rfl, hne⟩
  · rintro ⟨_, t, ht, rfl, hne⟩
    exact ⟨t, ht, hne⟩

/-- A text says what is left of it without the blanks around it, if anything is. -/
theorem nonblank_eq_some_iff {t : String} :
    (if trim t = "" then none else some (trim t)) = some s ↔
      ∃ u, some (text t) = some (.text u) ∧ trim u = s ∧ s ≠ "" := by
  simp only [Option.some.injEq, Value.text.injEq, exists_eq_left']
  by_cases hblank : trim t = ""
  · simp only [hblank, if_true, reduceCtorEq, false_iff]
    rintro ⟨rfl, hne⟩
    exact hne rfl
  · rw [if_neg hblank, Option.some.injEq]
    exact ⟨fun h => ⟨h, h ▸ hblank⟩, fun h => h.1⟩

theorem said?_eq_some_iff : v.said? way = some s ↔ v.Says way s := by
  unfold said? Says
  split
  next t ht =>
    rw [ht]
    exact nonblank_eq_some_iff
  next hne =>
    simp only [reduceCtorEq, false_iff]
    rintro ⟨u, hu, -⟩
    exact hne u hu

/-- No two texts are said in one place. -/
theorem Says.inj {t : String} (h : v.Says way s) (h' : v.Says way t) : s = t := by
  rw [← said?_eq_some_iff] at h h'
  exact Option.some.inj (h.symm.trans h')

theorem lists_iff {item : Value} : v.Lists way item ↔ item ∈ v.itemsAt way := by
  unfold Lists itemsAt
  split
  next share items h => simp [h]
  next hne =>
    simp only [List.not_mem_nil, iff_false]
    rintro ⟨share, items, h, -⟩
    exact hne share items h

/-- Under a key of the entries down a way there stands what stands down the way and the key. -/
theorem get?_entriesAt (v : Value) (way : List String) (key : String) :
    Entries.get? (v.entriesAt way) key = v.down? (way ++ [key]) := by
  rw [down?_append, entriesAt]
  split
  next share entries h => rw [h, Option.bind_some, down?_entry]
  next hne =>
    cases h : v.down? way with
    | none => rfl
    | some w =>
      rw [Option.bind_some]
      cases w with
      | mapping share entries => exact absurd h (hne share entries)
      | _ => rfl

/-- Where a text says something, there are mappings all the way down to it. -/
theorem Says.mayHold (way : List String) {key : String} (h : v.Says (way ++ [key]) s) :
    v.MayHold way IsMapping := by
  obtain ⟨t, ht, -⟩ := h
  intro w hw
  rw [down?_append, hw, Option.bind_some] at ht
  cases w with
  | mapping share entries => exact .inr ⟨share, entries, rfl⟩
  | _ => cases ht

theorem Says.isMapping {key : String} (h : v.Says (key :: way) s) : v.IsMapping := by
  obtain ⟨t, ht, -⟩ := h
  cases v with
  | mapping share entries => exact ⟨share, entries, rfl⟩
  | _ => cases ht

end Value

open Value

/-! ## Fields -/

namespace Field

variable {field kind : String} {v : Value} {way : List String}

theorem requiredText_down_iff {s : String} :
    requiredText field (v.down? way) = .ok s ↔ v.Says way s := requiredText_ok_iff

theorem optionalText_down_iff {found : Option String} :
    optionalText field (v.down? way) = .ok found ↔ v.MayHold way IsText ∧ found = v.said? way := by
  unfold optionalText MayHold said?
  split
  next h => simp [h, eq_comm]
  next h => simp [h, eq_comm]
  next t h =>
    rw [Except.ok.injEq, h, eq_comm]
    refine (and_iff_right fun w hw => .inr ⟨t, ?_⟩).symm
    exact (Option.some.inj hw).symm
  next w hnull htext h =>
    simp only [h, reduceCtorEq, false_iff]
    rintro ⟨hall, -⟩
    rcases hall w rfl with rfl | ⟨t, rfl⟩
    · exact hnull rfl
    · exact htext t rfl

theorem asMapping_entries_iff {es : Entries} :
    asMapping field v = .ok es ↔ v.IsMapping ∧ es = v.entriesAt [] := by
  rw [asMapping_eq_ok_iff, IsMapping, entriesAt, down?]
  constructor
  · rintro ⟨share, rfl⟩
    exact ⟨⟨share, es, rfl⟩, rfl⟩
  · rintro ⟨⟨share, entries, rfl⟩, rfl⟩
    exact ⟨share, rfl⟩

theorem mapping_down_iff {es : Entries} :
    mapping field (v.down? way) = .ok es ↔ v.MayHold way IsMapping ∧ es = v.entriesAt way := by
  unfold mapping MayHold entriesAt
  split
  next h => simp [h, eq_comm]
  next h => simp [h, eq_comm]
  next w hnull h =>
    rw [asMapping_entries_iff, h]
    simp only [Option.some.injEq, forall_eq', entriesAt, down?]
    exact and_congr_left' ⟨.inr, fun hw => hw.resolve_left hnull⟩

theorem list_down_iff {items : List Value} :
    list field (v.down? way) = .ok items ↔ v.MayHold way IsList ∧ items = v.itemsAt way := by
  unfold list MayHold itemsAt
  split
  next h => simp [h, eq_comm]
  next h => simp [h, eq_comm]
  next share found h => simp [h, IsList, eq_comm]
  next w hnull hlist h =>
    simp only [h, reduceCtorEq, false_iff]
    rintro ⟨hall, -⟩
    rcases hall w rfl with rfl | ⟨share, found, rfl⟩
    · exact hnull rfl
    · exact hlist share found rfl

theorem metadataName_iff {name : String} :
    metadataName kind (v.entriesAt []) = .ok name ↔ v.Says ["metadata", "name"] name := by
  simp only [metadataName, bind_eq_ok_iff, get?_entriesAt, List.nil_append, mapping_down_iff]
  constructor
  · rintro ⟨_, ⟨-, rfl⟩, hname⟩
    rwa [get?_entriesAt, requiredText_down_iff] at hname
  · intro h
    refine ⟨_, ⟨Says.mayHold ["metadata"] h, rfl⟩, ?_⟩
    rwa [get?_entriesAt, requiredText_down_iff]

/-- What is made of the items of a list one by one. -/
theorem mapM_zipIdx_eq_ok_iff {ε α β : Type} {f : α × Nat → Except ε β} {R : α → β → Prop}
    (hf : ∀ x i b, f (x, i) = .ok b ↔ R x b) {items : List α} {found : List β} :
    items.zipIdx.mapM f = .ok found ↔ List.Forall₂ R items found := by
  suffices hall : ∀ n, (items.zipIdx n).mapM f = .ok found ↔ List.Forall₂ R items found from hall 0
  intro n
  rw [mapM_eq_ok_iff]
  induction items generalizing n found with
  | nil => simp
  | cons x rest ih =>
    cases found with
    | nil => simp
    | cons b more => rw [List.zipIdx_cons, List.forall₂_cons, List.forall₂_cons, hf, ih]

end Field

/-- The identifier of a package is what its descriptor says. -/
theorem Package.identifier_says {document : Value} {entries : Entries} {id : String}
    (h : identifier document = .ok (entries, id)) : document.Says ["packageName"] id := by
  simp only [identifier, bind_eq_ok_iff, Field.asMapping_entries_iff] at h
  obtain ⟨es, ⟨-, rfl⟩, name, hname, heq⟩ := h
  cases heq
  rwa [get?_entriesAt, Field.requiredText_down_iff] at hname

end RegistryTree
