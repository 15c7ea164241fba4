import Mathlib.Data.List.Perm.Basic
import RegistryTree.Proofs.Value.Ordinary
import RegistryTree.Proofs.Yaml.Node.Ordinary
import RegistryTree.Proofs.Yaml.Tag.Form
import RegistryTree.Yaml.Render

/-!
# The nodes of ordinary values

An ordinary value without too wide numbers has a node, and the node is ordinary. The entries of a
mapping may have changed their order in it.

> `ofValue_ordinary`: the node of an ordinary value.
> `orderedNodes_perm`: the nodes of entries, in some order.
-/

namespace RegistryTree.Yaml

open RegistryTree.Number

variable {v : Value} {items : List Value} {entries : Entries} {nodes : List Node}

theorem rebuiltEntries_eq_map (entries : Entries) :
    rebuiltEntries entries = entries.map fun e => (e.1, rebuilt e.2) := by
  induction entries with
  | nil => rfl
  | cons e rest ih => rw [rebuiltEntries, ih, List.map_cons]

theorem ofValues_rebuiltItems (items : List Value) :
    Node.ofValues (rebuiltItems items) = items.mapM fun v => Node.ofValue (rebuilt v) := by
  induction items with
  | nil => rfl
  | cons v rest ih => rw [rebuiltItems, Node.ofValues, ih, List.mapM_cons]

theorem entryNodes_eq_map (entries : Entries) :
    entryNodes entries = entries.map fun e => (e.1, Node.ofValue e.1, Node.ofValue e.2) := by
  induction entries with
  | nil => rfl
  | cons e rest ih => rw [entryNodes, ih, List.map_cons]

theorem ordered_perm {α : Type} (entries : List (Value × α)) : (ordered entries).Perm entries := by
  rw [ordered]
  cases h : Value.sortByKey? entries with
  | none => exact List.Perm.refl _
  | some sorted => exact Value.sortByKey?_perm h

/-- The nodes of an entry. -/
def EntryNodes (e : Value × Value) (n : Node × Node) : Prop :=
  Node.ofValue e.1 = .ok n.1 ∧ Node.ofValue (rebuilt e.2) = .ok n.2

/-- The entries of a mapping with their nodes, in the order in which they are written. -/
theorem ordered_entryNodes (entries : Entries) :
    ∃ sorted : Entries, sorted.Perm entries ∧ ordered (entryNodes (rebuiltEntries entries)) =
      sorted.map fun e => (e.1, Node.ofValue e.1, Node.ofValue (rebuilt e.2)) := by
  have hperm := ordered_perm (entryNodes (rebuiltEntries entries))
  have hall : entryNodes (rebuiltEntries entries) =
      entries.map fun e => (e.1, Node.ofValue e.1, Node.ofValue (rebuilt e.2)) := by
    rw [entryNodes_eq_map, rebuiltEntries_eq_map, List.map_map]
    rfl
  have hsame : List.Forall₂ (fun x e => x = (e.1, Node.ofValue e.1, Node.ofValue (rebuilt e.2)))
      (entryNodes (rebuiltEntries entries)) entries := by
    rw [← List.forall₂_map_right_iff (R := Eq), List.forall₂_eq_eq_eq]
    exact hall
  obtain ⟨sorted, hsorted, hperm⟩ := List.perm_comp_forall₂ hperm hsame
  rw [← List.forall₂_map_right_iff (R := Eq), List.forall₂_eq_eq_eq] at hsorted
  exact ⟨sorted, hperm, hsorted⟩

/-- The nodes of entries, in some order. -/
theorem orderedNodes_perm {nodes : List (Node × Node)}
    (h : orderedNodes (entryNodes (rebuiltEntries entries)) = .ok nodes) :
    ∃ sorted : Entries, sorted.Perm entries ∧ List.Forall₂ EntryNodes sorted nodes := by
  obtain ⟨sorted, hperm, hsorted⟩ := ordered_entryNodes entries
  refine ⟨sorted, hperm, ?_⟩
  rw [orderedNodes, hsorted, mapM_eq_ok_iff, List.forall₂_map_left_iff] at h
  refine h.imp fun e n hn => ?_
  obtain ⟨k, hk, hn⟩ := bind_eq_ok_iff.1 hn
  obtain ⟨v, hv, hn⟩ := bind_eq_ok_iff.1 hn
  cases hn
  exact ⟨hk, hv⟩

/-- Entries have nodes when their keys and values have. -/
theorem exists_orderedNodes
    (h : ∀ e ∈ entries, ∃ n, EntryNodes e n) :
    ∃ nodes, orderedNodes (entryNodes (rebuiltEntries entries)) = .ok nodes := by
  obtain ⟨sorted, hperm, hsorted⟩ := ordered_entryNodes entries
  have hall : ∀ e ∈ sorted.map fun e => (e.1, Node.ofValue e.1, Node.ofValue (rebuilt e.2)),
      ∃ n, (do return (← e.2.1, ← e.2.2) : Except WriteFault (Node × Node)) = .ok n ∧ True := by
    intro e he
    obtain ⟨d, hd, rfl⟩ := List.mem_map.1 he
    obtain ⟨n, hk, hv⟩ := h d (hperm.mem_iff.1 hd)
    exact ⟨n, by rw [hk, hv]; rfl, trivial⟩
  obtain ⟨nodes, hnodes, -⟩ := exists_mapM_eq_ok hall
  exact ⟨nodes, by rw [orderedNodes, hsorted, hnodes]⟩

/-- An ordinary value without too wide numbers has an ordinary node. -/
theorem ofValue_ordinary (h : v.Ordinary) (hnarrow : v.narrow = true) :
    ∃ n, Node.ofValue (rebuilt v) = .ok n ∧ n.Ordinary := by
  induction h with
  | null =>
    exact ⟨_, rfl, .word (by decide) Form.tagOf_null (by decide) (by decide)⟩
  | bool b =>
    exact ⟨_, rfl, .word (by simp) (Form.tagOf_bool b) (by cases b <;> decide)
      (by cases b <;> decide)⟩
  | int k =>
    rw [Value.narrow, Option.isSome_iff_exists] at hnarrow
    obtain ⟨s, hs⟩ := hnarrow
    obtain ⟨ds, -, hne, -, hparts⟩ := Form.integerText?_parts hs
    refine ⟨.scalar none .int s, ?_, .word (by simp) (Form.tagOf_integerText hs)
      (Scalar.plain_integerText hs) (by rcases hparts with rfl | rfl <;> simp [hne])⟩
    rw [rebuilt, Node.ofValue, hs]
    all_goals simp
  | text s => exact ⟨_, rfl, .text _⟩
  | @list share items h ih =>
    rw [Value.narrow, Value.narrowItems_iff] at hnarrow
    obtain ⟨nodes, hnodes, hall⟩ := exists_mapM_eq_ok fun v hv => ih v hv (hnarrow v hv)
    refine ⟨.sequence none .seq nodes, ?_, .sequence fun n hn => ?_⟩
    · rw [rebuilt, Node.ofValue, ofValues_rebuiltItems, hnodes]
      rfl
    · obtain ⟨-, -, hn⟩ := mem_of_forall₂ hall hn
      exact hn
  | @mapping share entries hkeys hdistinct h ih =>
    rw [Value.narrow, Value.narrowEntries_iff] at hnarrow
    have hentry : ∀ e ∈ entries, ∃ n, EntryNodes e n := by
      intro e he
      obtain ⟨s, hs⟩ := hkeys e he
      obtain ⟨n, hn, -⟩ := ih e he (hnarrow e he)
      exact ⟨(.scalar none .str s.toList, n), by rw [hs]; rfl, hn⟩
    obtain ⟨nodes, hnodes⟩ := exists_orderedNodes hentry
    -- The entries are written in the order of their keys; what is asked of each does not depend on
    -- the order.
    obtain ⟨sorted, hperm, hall⟩ := orderedNodes_perm hnodes
    have hordinary : ∀ n ∈ nodes, (∃ s, n.1 = .scalar none .str s) ∧ n.2.Ordinary := by
      rintro ⟨k, n⟩ hn
      obtain ⟨e, he, hk, hv⟩ := mem_of_forall₂ hall hn
      have he := hperm.mem_iff.1 he
      obtain ⟨s, hs⟩ := hkeys e he
      obtain ⟨m, hm, hordinary⟩ := ih e he (hnarrow e he)
      rw [hs] at hk
      rw [hm] at hv
      cases hk
      cases hv
      exact ⟨⟨s.toList, rfl⟩, hordinary⟩
    refine ⟨.mapping none .map nodes, ?_, .mapping (fun n hn => (hordinary n hn).1) fun n hn =>
      (hordinary n hn).2⟩
    rw [rebuilt, Node.ofValue, hnodes]
    rfl

end RegistryTree.Yaml
