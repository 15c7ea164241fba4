import Mathlib.Data.List.Flatten
import RegistryTree.Proofs.Yaml.Node.Presentation

/-!
# Stable texts

The text of a document shows neither the order in which its entries came nor, where no object is
reached twice, which of its parts were one object. Two things are asked for that. The keys of each
mapping have an order, since entries whose keys have none are left as they came. And what is shared
is shared alike, since a model keeps what is shared, while a document that is no model is written
with its lists, tuples and mappings made anew.

> `render_checked`: when a model and its document have the same text.
> `render_stable`: when two presentations of a document have the same text.
-/

namespace RegistryTree.Yaml

open Value (Comparable Orderly Plain Presented RanksAs Renames)

variable {g h : Nat → Option Nat} {ρ : Share → Share → Prop} {u v : Value}

/-! ## Containers made anew -/

theorem rebuiltItems_eq_map (items : List Value) : rebuiltItems items = items.map rebuilt := by
  induction items with
  | nil => rfl
  | cons v rest ih => rw [rebuiltItems, ih, List.map_cons]

/-- Whether a value is one of those that are made anew. -/
def isContainer : Value → Bool
  | .list .. | .tuple .. | .mapping .. => true
  | _ => false

/-- When the containers have no numbers a document has the same node as with its containers made
anew. -/
theorem ofValue_rebuilt (hplain : v.Plain)
    (hdrop : ∀ p ∈ v.parts, isContainer p = true → p.share.bind g = none) :
    (Node.ofValue (rebuilt v)).map (Node.relabel g) = (Node.ofValue v).map (Node.relabel g) := by
  induction v using Value.induction with
  | h v ih =>
    obtain ⟨hself, hbelow⟩ := Value.forall_parts_iff.1 hdrop
    -- A container made anew has no number, and the one that it had is dropped.
    have hitems : ∀ items : List Value, (∀ c ∈ items, c ∈ v.children) →
        (Node.ofValues (rebuiltItems items)).map (Node.relabelItems g) =
          (Node.ofValues items).map (Node.relabelItems g) := by
      intro items hsub
      rw [rebuiltItems_eq_map]
      refine ofValues_relabel (List.forall₂_map_left_iff.2 (List.forall₂_same.2 fun c hc => ?_))
      exact ih c (hsub c hc) (hplain.of_child (hsub c hc)) (hbelow c (hsub c hc))
    cases v with
    | list share items =>
      rw [rebuilt, Node.ofValue, Node.ofValue, map_relabel_sequence, map_relabel_sequence,
        hitems items fun _ hc => hc, show share.bind g = none from hself rfl]
      rfl
    | tuple share items =>
      rw [rebuilt, Node.ofValue, Node.ofValue, map_relabel_sequence, map_relabel_sequence,
        hitems items fun _ hc => hc,
        show (if items.isEmpty then none else share).bind g = none from hself rfl]
      rfl
    | mapping share entries =>
      rw [rebuilt, Node.ofValue, Node.ofValue, map_relabel_mapping, map_relabel_mapping,
        show share.bind g = none from hself rfl, rebuiltEntries_eq_map, entryNodes_eq_map,
        entryNodes_eq_map, List.map_map]
      congr 1
      refine orderedNodes_relabel (List.forall₂_map_left_iff.2 (List.forall₂_map_right_iff.2
        (List.forall₂_same.2 fun e he => ⟨.refl _, rfl, ?_⟩)))
      have hchild : e.2 ∈ (Value.mapping share entries).children :=
        List.mem_flatMap.2 ⟨e, he, by simp⟩
      exact ih e.2 hchild (hplain.of_child hchild) (hbelow e.2 hchild)
    | checked role document => cases (Value.forall_parts_iff.1 hplain).1
    | _ => rfl

theorem rebuilt_children {share : Share} {entries : Entries} :
    (Value.mapping share (rebuiltEntries entries)).children =
      entries.flatMap fun e => [e.1, rebuilt e.2] := by
  rw [Value.children, rebuiltEntries_eq_map, List.flatMap_map]

/-- Containers that are made anew bring no new share numbers. -/
theorem shares_rebuilt (v : Value) : (rebuilt v).shares.Sublist v.shares := by
  induction v using Value.induction with
  | h v ih =>
    cases v with
    | list share items | tuple share items =>
      rw [rebuilt, Value.shares_eq, Value.shares_eq, Value.children, rebuiltItems_eq_map,
        List.flatMap_map]
      exact (List.Sublist.flatMap_right items ih).trans (List.sublist_append_right ..)
    | mapping share entries =>
      rw [rebuilt, Value.shares_eq, Value.shares_eq, rebuilt_children, Value.children,
        List.flatMap_assoc, List.flatMap_assoc]
      refine (List.Sublist.flatMap_right entries fun e he => ?_).trans (List.sublist_append_right ..)
      have hvalue := ih e.2 (List.mem_flatMap.2 ⟨e, he, by simp⟩)
      simpa using hvalue
    | checked role document =>
      rw [rebuilt, Value.shares_eq (.checked role document)]
      simp [Value.share, Value.children]
    | _ => exact .refl _

/-- A document whose containers are made anew is as orderly. -/
theorem orderly_rebuilt (horderly : v.Orderly) : (rebuilt v).Orderly := by
  induction v using Value.induction with
  | h v ih =>
    have hchildren : ∀ c ∈ v.children, (rebuilt c).Orderly := fun c hc =>
      ih c hc (horderly.of_child hc)
    cases v with
    | list share items | tuple share items =>
      rw [rebuilt, rebuiltItems_eq_map]
      refine Value.forall_parts_iff.2 ⟨⟨by simp [Value.keys], .nil⟩, fun c hc => ?_⟩
      obtain ⟨d, hd, rfl⟩ := List.mem_map.1 hc
      exact hchildren d hd
    | mapping share entries =>
      have hkeys : Comparable (entries.map Prod.fst) := horderly.comparable
      refine Value.forall_parts_iff.2 ⟨?_, fun c hc => ?_⟩
      · rw [rebuilt, Value.keys, rebuiltEntries_eq_map, List.map_map]
        exact hkeys
      · rw [rebuilt, rebuilt_children] at hc
        obtain ⟨e, he, hpair⟩ := List.mem_flatMap.1 hc
        rcases List.mem_pair.1 hpair with rfl | rfl
        · exact horderly.of_child (List.mem_flatMap.2 ⟨e, he, by simp⟩)
        · exact hchildren e.2 (List.mem_flatMap.2 ⟨e, he, by simp⟩)
    | checked role document => exact horderly.of_child (List.mem_singleton_self _)
    | _ => exact horderly

/-- Two presentations remain so when their containers are made anew. -/
theorem presented_rebuilt (hsame : Presented ρ u v) (hρ : ρ none none) :
    Presented ρ (rebuilt u) (rebuilt v) := by
  induction hsame with
  | list hshare hlength _ ih | tuple hshare hlength _ ih =>
    rw [rebuilt, rebuilt, rebuiltItems_eq_map, rebuiltItems_eq_map]
    refine .list hρ (by simpa using hlength) fun p hp => ?_
    rw [List.zip_map] at hp
    obtain ⟨q, hq, rfl⟩ := List.mem_map.1 hp
    exact ih q hq
  | @mapping s t es es' fs hshare hperm hlength hkeys _ _ ih =>
    rw [rebuilt, rebuilt, rebuiltEntries_eq_map, rebuiltEntries_eq_map]
    refine .mapping hρ (hperm.map _) (by simpa using hlength) (fun p hp => ?_) fun p hp => ?_
    · rw [List.zip_map] at hp
      obtain ⟨q, hq, rfl⟩ := List.mem_map.1 hp
      exact hkeys q hq
    · rw [List.zip_map] at hp
      obtain ⟨q, hq, rfl⟩ := List.mem_map.1 hp
      exact ih q hq
  | null => exact .null
  | bool b => exact .bool b
  | int n => exact .int n
  | float h => exact .float h
  | text s => exact .text s
  | bytes b => exact .bytes b
  | date hshare d => exact .date hshare d
  | moment hshare m => exact .moment hshare m
  | set hshare hperm hlength h => exact .set hshare hperm hlength h

/-! ## Texts -/

/-- The text of a document is that of its node under new numbers. -/
theorem map_write_relabel (hg : Renames g v.shares) :
    ((Node.ofValue v).map (Node.relabel g)).map Node.write = (Node.ofValue v).map Node.write := by
  cases hn : Node.ofValue v with
  | error e => rfl
  | ok n =>
    have hcount := fun a => Nat.le_of_eq ((shares_ofValue hn).count_eq a)
    exact congrArg Except.ok (write_relabel (hg.mono hcount))

/-- Orderly documents that are shared alike are written alike. -/
theorem map_write_eq (hg : Renames g u.shares) (hh : Renames h v.shares)
    (hsame : Presented (fun s t => s.bind g = t.bind h) u v) (horderly : u.Orderly) :
    (Node.ofValue u).map Node.write = (Node.ofValue v).map Node.write := by
  rw [← map_write_relabel hg, ← map_write_relabel hh,
    ofValue_relabel hsame (fun _ _ hst => hst) horderly]

theorem render_eq_of_presented (hg : Renames g u.shares) (hh : Renames h v.shares)
    (hsame : Presented (fun s t => s.bind g = t.bind h) u v) (horderly : u.Orderly) :
    render u = render v := by
  have hcount : ∀ (v : Value) a, (rebuilt v).shares.count a ≤ v.shares.count a :=
    fun v a => (shares_rebuilt v).count_le a
  exact map_write_eq (hg.mono (hcount u)) (hh.mono (hcount v)) (presented_rebuilt hsame rfl)
    (orderly_rebuilt horderly)

/-- The share numbers of the lists, tuples and mappings in a value. -/
def containerShares (v : Value) : List Nat :=
  (v.parts.filter isContainer).flatMap fun p => p.share.toList

/-- Where no container is reached in several places, a document is written as its model is. -/
theorem render_checked (hplain : v.Plain) (honce : ∀ a ∈ containerShares v, v.shares.count a ≤ 1)
    (role : Role) : render (.checked role v) = render v := by
  let g : Nat → Option Nat := fun a => if a ∈ containerShares v then none else some a
  have hsome : ∀ a c, g a = some c → a = c := by
    intro a c hac
    by_cases ha : a ∈ containerShares v <;> simp [g, ha] at hac
    exact hac
  have hg : Renames g v.shares := by
    refine ⟨fun a b c hac hbc => (hsome a c hac).trans (hsome b c hbc).symm, fun a ha => ?_⟩
    by_cases hmem : a ∈ containerShares v
    · exact honce a hmem
    · simp [g, hmem] at ha
  have hdrop : ∀ p ∈ v.parts, isContainer p = true → p.share.bind g = none := by
    intro p hp hcontainer
    cases hshare : p.share with
    | none => rfl
    | some a =>
      have hmem : a ∈ containerShares v :=
        List.mem_flatMap.2 ⟨p, List.mem_filter.2 ⟨hp, hcontainer⟩, by simp [hshare]⟩
      exact if_pos hmem
  have hcount := fun a => (shares_rebuilt v).count_le a
  show (Node.ofValue v).map Node.write = (Node.ofValue (rebuilt v)).map Node.write
  rw [← map_write_relabel hg, ← map_write_relabel (hg.mono hcount), ofValue_rebuilt hplain hdrop]

/-- No whole number in a value has more digits than can be written. -/
def AllNarrow (v : Value) : Prop :=
  ∀ n, .int n ∈ v.parts → (Number.integerText? n).isSome = true

/-- A document and its models have texts when no whole number in the document has too many digits. -/
theorem exists_render_iff (hplain : v.Plain) : ((∃ text, render v = .ok text) ↔ AllNarrow v) ∧
    ∀ role, (∃ text, render (.checked role v) = .ok text) ↔ AllNarrow v := by
  have hwritable : (∀ p ∈ v.parts, isWritable p = true) ↔ AllNarrow v := by
    refine ⟨fun hall n hn => hall _ hn, fun hall p hp => ?_⟩
    cases p with
    | int n => exact hall n hp
    | _ => exact hplain _ hp
  have hrebuilt : (∃ n, Node.ofValue (rebuilt v) = .ok n) ↔ ∃ n, Node.ofValue v = .ok n := by
    rw [← exists_map_iff (f := Node.relabel fun _ => none), ofValue_rebuilt hplain, exists_map_iff]
    intro p _ _
    exact Option.bind_fun_none _
  refine ⟨?_, fun role => ?_⟩
  · rw [render, exists_map_iff, hrebuilt, exists_ofValue_iff, hwritable]
  · rw [render, rebuilt, exists_map_iff, exists_ofValue_iff, hwritable]

/-- A package with one channel. -/
def packageDocument : Value :=
  .mapping (some 7) [
    (.text "packageName", .text "demo"),
    (.text "channels", .list none [
      .mapping (some 3) [(.text "name", .text "alpha"), (.text "currentCSV", .text "demo.v1")]])]

/-- The same package with its entries in another order. -/
def rearrangedPackage : Value :=
  .mapping none [
    (.text "channels", .list (some 1) [
      .mapping none [(.text "currentCSV", .text "demo.v1"), (.text "name", .text "alpha")]]),
    (.text "packageName", .text "demo")]

theorem packageDocument_same : packageDocument.Same rearrangedPackage := by
  have hchannel : Value.Same
      (.mapping (some 3) [(.text "name", .text "alpha"), (.text "currentCSV", .text "demo.v1")])
      (.mapping none [(.text "currentCSV", .text "demo.v1"), (.text "name", .text "alpha")]) := by
    refine .mapping trivial (.swap ..) rfl ?_ ?_
    · simp [Presented.text]
    · simp [Presented.text]
  refine .mapping trivial (.swap ..) rfl ?_ ?_
  · simp [Presented.text]
  · simp only [List.zip_cons_cons, List.zip_nil_left, List.forall_mem_cons, List.not_mem_nil,
      false_implies, implies_true, and_true]
    refine ⟨.list trivial rfl ?_, .text _⟩
    simpa [Value.Same] using hchannel

/-- A model keeps a list that is reached twice, and it is written once. -/
example : render (.checked .package (.mapping none [
      (.text "a", .list (some 0) [.int 1]), (.text "b", .list (some 0) [.int 1])])) =
    .ok "a: &id001\n- 1\nb: *id001\n".toList := by
  decide +kernel

/-- A text and a number have no order, and stay in the order in which they came. -/
example : render (.mapping none [(.text "b", .int 1), (.int 1, .int 2)]) =
    .ok "b: 1\n1: 2\n".toList := by
  decide +kernel

end RegistryTree.Yaml
