import RegistryTree.Number.Numeral
import RegistryTree.Proofs.Except
import RegistryTree.Proofs.Value

/-!
# Ordinary values

The values that every format for documents knows: nothing, truth values, whole numbers, texts, lists,
and mappings with texts as keys. Two such values agree when they have the same type and content; in
a mapping the order of the entries does not matter, and nowhere does what is shared.

> `agrees_list`, `agrees_mapping`: collections agree when their parts do.
> `ofList_of_distinct`: entries with different keys stay as they are.
-/

namespace RegistryTree.Value

/-- A value that every format for documents knows. -/
inductive Ordinary : Value → Prop
  | null : Ordinary null
  | bool (b : Bool) : Ordinary (bool b)
  | int (n : Int) : Ordinary (int n)
  | text (s : String) : Ordinary (text s)
  | list (share : Share) {items : List Value} (h : ∀ v ∈ items, Ordinary v) :
      Ordinary (list share items)
  | mapping (share : Share) {entries : Entries} (hkeys : ∀ e ∈ entries, ∃ s, e.1 = Value.text s)
      (hdistinct : (entries.map Prod.fst).Nodup) (h : ∀ e ∈ entries, Ordinary e.2) :
      Ordinary (mapping share entries)

mutual

/-- Whether no whole number in a value has more digits than can be written. -/
def narrow : Value → Bool
  | int n => (Number.integerText? n).isSome
  | list _ items => narrowItems items
  | mapping _ entries => narrowEntries entries
  | _ => true

/-- Whether no whole number in values has more digits than can be written. -/
def narrowItems : List Value → Bool
  | [] => true
  | v :: rest => narrow v && narrowItems rest

/-- Whether no whole number in the values of entries has more digits than can be written. -/
def narrowEntries : Entries → Bool
  | [] => true
  | (_, v) :: rest => narrow v && narrowEntries rest

end

mutual

/-- Whether two values have the same type and content. -/
def agrees : Value → Value → Bool
  | null, null => true
  | bool a, bool b => a == b
  | int m, int n => m == n
  | text s, text t => s == t
  | list _ xs, list _ ys => agreesItems xs ys
  | mapping _ xs, mapping _ ys => xs.length == ys.length && agreesEntries xs ys
  | _, _ => false

/-- Whether two lists of values have the same items in the same order. -/
def agreesItems : List Value → List Value → Bool
  | [], [] => true
  | x :: xs, y :: ys => agrees x y && agreesItems xs ys
  | _, _ => false

/-- Whether other entries have the same values under the keys of entries. -/
def agreesEntries : Entries → Entries → Bool
  | [], _ => true
  | (text key, x) :: rest, ys =>
    (match Entries.get? ys key with
      | some y => agrees x y
      | none => false) && agreesEntries rest ys
  | _, _ => false

end

variable {share share' : Share} {v : Value} {xs ys : List Value} {es fs : Entries}

theorem narrowItems_iff : narrowItems xs = true ↔ ∀ v ∈ xs, narrow v = true := by
  induction xs with
  | nil => simp [narrowItems]
  | cons v xs ih => simp [narrowItems, ih]

theorem narrowEntries_iff : narrowEntries es = true ↔ ∀ e ∈ es, narrow e.2 = true := by
  induction es with
  | nil => simp [narrowEntries]
  | cons e es ih =>
    obtain ⟨k, v⟩ := e
    simp [narrowEntries, ih]

/-- Lists agree when their items do. -/
theorem agrees_list (h : List.Forall₂ (fun x y => agrees x y = true) xs ys) :
    agrees (list share xs) (list share' ys) = true := by
  rw [agrees]
  induction h with
  | nil => rfl
  | cons hxy _ ih => rw [agreesItems, hxy, ih, Bool.and_self]

/-- Under a text entries have what the first of them with that key has. -/
theorem get?_of_mem {key : String} (hdistinct : (es.map Prod.fst).Nodup) (h : (text key, v) ∈ es) :
    Entries.get? es key = some v := by
  induction es with
  | nil => cases h
  | cons e es ih =>
    rw [List.map_cons, List.nodup_cons] at hdistinct
    rw [Entries.get?, List.findSome?_cons]
    rcases List.mem_cons.1 h with rfl | h
    · simp
    · have hne : e.1 ≠ text key := fun heq =>
        hdistinct.1 (heq ▸ List.mem_map_of_mem (f := Prod.fst) h)
      have hrest := ih hdistinct.2 h
      rw [Entries.get?] at hrest
      rw [hrest]
      obtain ⟨k, x⟩ := e
      cases k with
      | text s =>
        have hs : s ≠ key := fun heq => hne (by rw [heq])
        simp [hs]
      | _ => rfl

/-- Entries with different texts as keys are set one after the other. -/
theorem ofList_of_distinct (hkeys : ∀ e ∈ es, ∃ s, e.1 = text s)
    (hdistinct : (es.map Prod.fst).Nodup) : Entries.ofList es = es := by
  suffices hall : ∀ rest front : Entries, (∀ e ∈ rest, ∃ s, e.1 = text s) →
      ((front ++ rest).map Prod.fst).Nodup →
      rest.foldl (fun es e => Entries.insert es e.1 e.2) front = front ++ rest from
    hall es [] hkeys hdistinct
  intro rest
  induction rest with
  | nil => intro front _ _; rw [List.append_nil]; rfl
  | cons e rest ih =>
    intro front hkeys hdistinct
    rw [List.forall_mem_cons] at hkeys
    obtain ⟨s, hs⟩ := hkeys.1
    have hnew : ∀ d ∈ front, d.1.sameKey e.1 = false := by
      intro d hd
      rw [Bool.eq_false_iff, hs]
      intro hsame
      rw [List.map_append, List.nodup_append] at hdistinct
      refine hdistinct.2.2 d.1 (List.mem_map_of_mem hd) e.1 (by simp) ?_
      rw [hs]
      exact sameKey_text.1 hsame
    rw [List.foldl_cons, Entries.insert_of_new hnew, ih _ hkeys.2 (by simpa using hdistinct)]
    simp

/-- Entries with the same keys in some order. -/
theorem keys_perm {sorted : Entries} (hperm : sorted.Perm es)
    (h : List.Forall₂ (fun x y => x.1 = y.1 ∧ agrees x.2 y.2 = true) sorted fs) :
    (fs.map Prod.fst).Perm (es.map Prod.fst) := by
  have hkey : sorted.map Prod.fst = fs.map Prod.fst := by
    clear hperm
    induction h with
    | nil => rfl
    | cons hxy _ ih => rw [List.map_cons, List.map_cons, hxy.1, ih]
  rw [← hkey]
  exact hperm.map Prod.fst

/-- Mappings agree when the entries of one are those of the other in some order. -/
theorem agrees_mapping {sorted : Entries} (hperm : sorted.Perm es)
    (hkeys : ∀ e ∈ es, ∃ s, e.1 = text s) (hdistinct : (es.map Prod.fst).Nodup)
    (h : List.Forall₂ (fun x y => x.1 = y.1 ∧ agrees x.2 y.2 = true) sorted fs) :
    agrees (mapping share es) (mapping share' fs) = true := by
  have hnodup : (fs.map Prod.fst).Nodup := (keys_perm hperm h).nodup_iff.2 hdistinct
  have hfound : ∀ e ∈ es, ∃ y, (e.1, y) ∈ fs ∧ agrees e.2 y = true := by
    intro e he
    obtain ⟨y, hy, hkey, hagrees⟩ := mem_of_forall₂ h.flip (hperm.mem_iff.2 he)
    exact ⟨y.2, by rwa [hkey], hagrees⟩
  have hentries : ∀ rest : Entries, (∀ e ∈ rest, e ∈ es) → agreesEntries rest fs = true := by
    intro rest hrest
    induction rest with
    | nil => rfl
    | cons e rest ih =>
      rw [List.forall_mem_cons] at hrest
      obtain ⟨k, x⟩ := e
      obtain ⟨s, hs⟩ := hkeys _ hrest.1
      obtain ⟨y, hy, hagrees⟩ := hfound _ hrest.1
      dsimp only at hs hy hagrees
      subst hs
      rw [agreesEntries, get?_of_mem hnodup hy, ih hrest.2]
      simpa using hagrees
  rw [agrees, hentries es fun _ he => he, Bool.and_true, beq_iff_eq, ← hperm.length_eq, h.length_eq]

end RegistryTree.Value
