import Mathlib.Data.List.Forall2
import Mathlib.Data.List.Nodup
import RegistryTree.Proofs.Value.Order

/-!
# Presentations of a document

One document can be presented in many ways: the entries of a mapping and the members of a set may
have come in any order, and equal parts may be one object that is reached in several places, or
several objects. `Presented` relates two presentations and what they say about sharing at
corresponding places; `Same` leaves that open, and `SharesAlike` asks that the same places be one
object.

A document is orderly when its keys tell in which order they stand, whichever order they came in.

> `Presented.ranksAs`: keys of two presentations compare alike.
> `Same.sharesAlike`: documents of which nothing is reached twice are shared alike.
-/

namespace RegistryTree.Value

open RegistryTree.Number

/-- Two values are one document without models. The entries of mappings and the members of sets may
stand in another order, and share numbers at corresponding places are related by `ρ`. -/
inductive Presented (ρ : Share → Share → Prop) : Value → Value → Prop
  | null : Presented ρ null null
  | bool (b : Bool) : Presented ρ (bool b) (bool b)
  | int (n : Int) : Presented ρ (int n) (int n)
  /-- All that stands for no number is one value. -/
  | float {x y : Binary64} (h : x = y ∨ x.isNaN = true ∧ y.isNaN = true) :
    Presented ρ (float x) (float y)
  | text (s : String) : Presented ρ (text s) (text s)
  | bytes (b : List UInt8) : Presented ρ (bytes b) (bytes b)
  | date {s t : Share} (hshare : ρ s t) (d : Date) : Presented ρ (date s d) (date t d)
  | moment {s t : Share} (hshare : ρ s t) (m : Moment) : Presented ρ (moment s m) (moment t m)
  | list {s t : Share} {xs ys : List Value} (hshare : ρ s t) (hlength : xs.length = ys.length)
    (h : ∀ p ∈ xs.zip ys, Presented ρ p.1 p.2) : Presented ρ (list s xs) (list t ys)
  | tuple {s t : Share} {xs ys : List Value} (hshare : ρ s t) (hlength : xs.length = ys.length)
    (h : ∀ p ∈ xs.zip ys, Presented ρ p.1 p.2) : Presented ρ (tuple s xs) (tuple t ys)
  | set {s t : Share} {xs xs' ys : List Value} (hshare : ρ s t) (hperm : xs.Perm xs')
    (hlength : xs'.length = ys.length) (h : ∀ p ∈ xs'.zip ys, Presented ρ p.1 p.2) :
    Presented ρ (set s xs) (set t ys)
  | mapping {s t : Share} {es es' fs : Entries} (hshare : ρ s t) (hperm : es.Perm es')
    (hlength : es'.length = fs.length) (hkeys : ∀ p ∈ es'.zip fs, Presented ρ p.1.1 p.2.1)
    (hvalues : ∀ p ∈ es'.zip fs, Presented ρ p.1.2 p.2.2) :
    Presented ρ (mapping s es) (mapping t fs)

/-- Two values are one document, up to the order of entries and up to sharing. -/
def Same (u v : Value) : Prop := Presented (fun _ _ => True) u v

/-! ## Parts -/

/-- The share number of a value itself. The empty tuple has none. -/
def share : Value → Share
  | date share _ => share
  | moment share _ => share
  | list share _ => share
  | tuple share items => if items.isEmpty then none else share
  | set share _ => share
  | mapping share _ => share
  | _ => none

/-- The keys of a mapping, or the members of a set. -/
def keys : Value → List Value
  | set _ items => items
  | mapping _ entries => entries.map Prod.fst
  | _ => []

/-- The values right below a value. -/
def children : Value → List Value
  | list _ items => items
  | tuple _ items => items
  | set _ items => items
  | mapping _ entries => entries.flatMap fun e => [e.1, e.2]
  | checked _ document => [document]
  | _ => []

mutual

/-- A value and all that is below it. -/
def parts : Value → List Value
  | list share items => list share items :: itemParts items
  | tuple share items => tuple share items :: itemParts items
  | set share items => set share items :: itemParts items
  | mapping share entries => mapping share entries :: entryParts entries
  | checked role document => checked role document :: parts document
  | v => [v]

/-- Values and all that is below them. -/
def itemParts : List Value → List Value
  | [] => []
  | v :: rest => parts v ++ itemParts rest

/-- Keys and values and all that is below them. -/
def entryParts : Entries → List Value
  | [] => []
  | (k, v) :: rest => parts k ++ (parts v ++ entryParts rest)

end

/-- Whether a value is something that a document can hold. -/
def isData : Value → Bool
  | checked .. | foreign => false
  | _ => true

/-- A value is data down to its last part. -/
def Plain (v : Value) : Prop := ∀ p ∈ v.parts, p.isData = true

/-- The share numbers in a value. -/
def shares (v : Value) : List Nat := v.parts.flatMap fun p => p.share.toList

/-- In every mapping and set below a value the keys are scalars of which any two have an order. -/
def Orderly (v : Value) : Prop := ∀ p ∈ v.parts, Comparable p.keys

instance (v : Value) : Decidable v.Orderly :=
  inferInstanceAs (Decidable (∀ p ∈ v.parts, Comparable p.keys))

variable {ρ : Share → Share → Prop} {a b v : Value} {items : List Value} {entries : Entries}

theorem itemParts_eq_flatMap (items : List Value) : itemParts items = items.flatMap parts := by
  induction items with
  | nil => rfl
  | cons v rest ih => rw [itemParts, ih, List.flatMap_cons]

theorem entryParts_eq_flatMap (entries : Entries) :
    entryParts entries = entries.flatMap fun e => e.1.parts ++ e.2.parts := by
  induction entries with
  | nil => rfl
  | cons e rest ih => rw [entryParts, ih, List.flatMap_cons, List.append_assoc]

theorem parts_eq (v : Value) : v.parts = v :: v.children.flatMap parts := by
  cases v with
  | list | tuple | set => rw [parts, itemParts_eq_flatMap, children]
  | mapping share entries =>
    rw [parts, entryParts_eq_flatMap, children, List.flatMap_assoc]
    simp
  | checked role document => rw [parts, children, List.flatMap_singleton]
  | _ => rfl

theorem sizeOf_lt_of_mem_children (h : a ∈ v.children) : sizeOf a < sizeOf v := by
  cases v with
  | list | tuple | set =>
    rw [children] at h
    have hsize := List.sizeOf_lt_of_mem h
    simp only [list.sizeOf_spec, tuple.sizeOf_spec, set.sizeOf_spec]
    omega
  | mapping share entries =>
    obtain ⟨⟨k, w⟩, he, hpair⟩ := List.mem_flatMap.1 h
    have hsize := List.sizeOf_lt_of_mem he
    rw [Prod.mk.sizeOf_spec] at hsize
    rw [mapping.sizeOf_spec]
    rcases List.mem_pair.1 hpair with rfl | rfl
    · omega
    · omega
  | checked role document =>
    rw [List.mem_singleton.1 h, checked.sizeOf_spec]
    omega
  | _ => cases h

/-- What holds of a value when it holds of all values right below it holds of all values. -/
theorem induction {P : Value → Prop} (h : ∀ v, (∀ c ∈ v.children, P c) → P v) (v : Value) : P v :=
  h v fun c hc => by
    have hsize := sizeOf_lt_of_mem_children hc
    exact induction h c
termination_by sizeOf v

/-- What holds of all parts of a value holds of the value itself and of the parts of those right
below it. -/
theorem forall_parts_iff {P : Value → Prop} :
    (∀ p ∈ v.parts, P p) ↔ P v ∧ ∀ c ∈ v.children, ∀ p ∈ c.parts, P p := by
  rw [parts_eq, List.forall_mem_cons]
  simp only [List.mem_flatMap, forall_exists_index, and_imp]
  exact and_congr_right fun _ => ⟨fun h c hc p hp => h p c hc hp, fun h p c hc hp => h c hc p hp⟩

theorem Orderly.of_child (h : v.Orderly) (ha : a ∈ v.children) : a.Orderly :=
  (forall_parts_iff.1 h).2 a ha

theorem Orderly.comparable (h : v.Orderly) : Comparable v.keys := (forall_parts_iff.1 h).1

theorem Plain.of_child (h : v.Plain) (ha : a ∈ v.children) : a.Plain :=
  (forall_parts_iff.1 h).2 a ha

theorem shares_eq (v : Value) : v.shares = v.share.toList ++ v.children.flatMap shares := by
  rw [shares, parts_eq, List.flatMap_cons, List.flatMap_assoc]
  rfl

/-! ## Sharing -/

/-- New numbers for the share numbers in a list: no two become one, and what gets none occurs
once. -/
structure Renames (g : Nat → Option Nat) (shares : List Nat) : Prop where
  injective : ∀ a b c, g a = some c → g b = some c → a = b
  once : ∀ a, g a = none → shares.count a ≤ 1

theorem Renames.mono {g : Nat → Option Nat} {numbers more : List Nat} (h : Renames g numbers)
    (hle : ∀ a, more.count a ≤ numbers.count a) : Renames g more where
  injective := h.injective
  once a ha := Nat.le_trans (hle a) (h.once a ha)

/-- Where no number occurs twice, all may go. -/
theorem Renames.of_nodup {numbers : List Nat} (h : numbers.Nodup) :
    Renames (fun _ => none) numbers where
  injective _ _ _ ha := by cases ha
  once a _ := List.nodup_iff_count_le_one.1 h a

/-- Two values are one document, up to the order of entries, and what is one object in several
places of one of them is one object in the corresponding places of the other. A number that occurs
once says nothing. -/
def SharesAlike (u v : Value) : Prop :=
  ∃ g h : Nat → Option Nat, Renames g u.shares ∧ Renames h v.shares ∧
    Presented (fun s t => s.bind g = t.bind h) u v

theorem Presented.mono {σ : Share → Share → Prop} (hρσ : ∀ s t, ρ s t → σ s t)
    (h : Presented ρ a b) : Presented σ a b := by
  induction h with
  | null => exact .null
  | bool b => exact .bool b
  | int n => exact .int n
  | float h => exact .float h
  | text s => exact .text s
  | bytes b => exact .bytes b
  | date hshare d => exact .date (hρσ _ _ hshare) d
  | moment hshare m => exact .moment (hρσ _ _ hshare) m
  | list hshare hlength _ ih => exact .list (hρσ _ _ hshare) hlength ih
  | tuple hshare hlength _ ih => exact .tuple (hρσ _ _ hshare) hlength ih
  | set hshare hperm hlength _ ih => exact .set (hρσ _ _ hshare) hperm hlength ih
  | mapping hshare hperm hlength _ _ ihkeys ihvalues =>
    exact .mapping (hρσ _ _ hshare) hperm hlength ihkeys ihvalues

theorem exists_mem_zip {α β : Type} {xs : List α} {ys : List β} (hlength : xs.length = ys.length)
    {x : α} (hx : x ∈ xs) : ∃ y, (x, y) ∈ xs.zip ys := by
  have hmap : x ∈ (xs.zip ys).map Prod.fst := by
    rwa [List.map_fst_zip (Nat.le_of_eq hlength)]
  obtain ⟨p, hp, rfl⟩ := List.mem_map.1 hmap
  exact ⟨p.2, hp⟩

/-- A document is data. -/
theorem Presented.plain (h : Presented ρ a b) : a.Plain := by
  induction h with
  | list hshare hlength _ ih | tuple hshare hlength _ ih =>
    refine forall_parts_iff.2 ⟨rfl, fun c hc => ?_⟩
    obtain ⟨y, hy⟩ := exists_mem_zip hlength hc
    exact ih _ hy
  | set hshare hperm hlength _ ih =>
    refine forall_parts_iff.2 ⟨rfl, fun c hc => ?_⟩
    obtain ⟨y, hy⟩ := exists_mem_zip hlength (hperm.mem_iff.1 hc)
    exact ih _ hy
  | mapping hshare hperm hlength _ _ ihkeys ihvalues =>
    refine forall_parts_iff.2 ⟨rfl, fun c hc => ?_⟩
    obtain ⟨e, he, hpair⟩ := List.mem_flatMap.1 hc
    obtain ⟨f, hef⟩ := exists_mem_zip hlength (hperm.mem_iff.1 he)
    rcases List.mem_pair.1 hpair with rfl | rfl
    · exact ihkeys _ hef
    · exact ihvalues _ hef
  | _ => exact forall_parts_iff.2 ⟨rfl, by simp [children]⟩

/-- Documents in which no object is reached twice are shared alike. -/
theorem Same.sharesAlike (h : a.Same b) (ha : a.shares.Nodup) (hb : b.shares.Nodup) :
    a.SharesAlike b :=
  ⟨fun _ => none, fun _ => none, .of_nodup ha, .of_nodup hb,
    h.mono fun s t _ => by cases s <;> cases t <;> rfl⟩

/-! ## Comparing keys -/

/-- What stands for no number compares with nothing. -/
theorem RanksAs.of_isNaN {x y : Binary64} (hx : x.isNaN = true) (hy : y.isNaN = true) :
    RanksAs (float x) (float y) := by
  have hless : ∀ (m : Magnitude) (mark : Option Nat), m.less (.notANumber mark) = false := by
    intro m mark
    cases m <;> rfl
  constructor <;> intro c
  · cases c <;> simp [less?, magnitude?, hx, hy, Magnitude.less]
  · cases c <;> simp [less?, magnitude?, hx, hy, hless]

/-- Scalars compare alike in two presentations. -/
theorem Presented.ranksAs (h : Presented ρ a b) (ha : a.isScalar = true) : RanksAs a b := by
  cases h with
  | float h =>
    rcases h with rfl | ⟨hx, hy⟩
    · exact .refl _
    · exact .of_isNaN hx hy
  | date hshare d => exact ⟨fun c => by cases c <;> rfl, fun c => by cases c <;> rfl⟩
  | moment hshare m => exact ⟨fun c => by cases c <;> rfl, fun c => by cases c <;> rfl⟩
  | list | tuple | set | mapping => cases ha
  | _ => exact .refl _

end RegistryTree.Value
