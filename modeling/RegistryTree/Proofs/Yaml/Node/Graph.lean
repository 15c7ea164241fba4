import Mathlib.Data.List.Basic
import RegistryTree.Proofs.Except
import RegistryTree.Yaml.Render

/-!
# The graph of a value

Share numbers tell which nodes of a tree are one node that is reached in several places. Which
numbers they are makes no difference, and the number of a node that is reached once tells nothing.
In the graph of a node no other node is numbered than those that are reached again, and they are
numbered in the order in which that shows.

The text of a node shows no more than its graph. Writing passes the nodes in the order in which they
were met when the shared ones were looked for, so that what has been written is at each point what
had been met there, and a node that is found written is one that is reached again.

> `write_graph`: a node is written as its graph is.
> `render_eq_of_graph`: documents whose contents have one graph are written as one text.
-/

namespace RegistryTree.Yaml

/-! ## Nodes -/

/-- What holds of a node when it holds of all nodes right below it holds of all nodes. -/
theorem Node.induction {P : Node → Prop} (scalar : ∀ share tag text, P (.scalar share tag text))
    (sequence : ∀ share tag items, (∀ n ∈ items, P n) → P (.sequence share tag items))
    (mapping : ∀ share tag entries, (∀ e ∈ entries, P e.1 ∧ P e.2) →
      P (.mapping share tag entries)) : ∀ n, P n
  | .scalar share tag text => scalar share tag text
  | .sequence share tag items => by
    refine sequence share tag items fun n hn => ?_
    have hsize := List.sizeOf_lt_of_mem hn
    exact Node.induction scalar sequence mapping n
  | .mapping share tag entries => by
    refine mapping share tag entries fun e he => ?_
    obtain ⟨k, v⟩ := e
    have hsize := List.sizeOf_lt_of_mem he
    have hpair : sizeOf (k, v) = 1 + sizeOf k + sizeOf v := Prod.mk.sizeOf_spec k v
    exact ⟨Node.induction scalar sequence mapping k, Node.induction scalar sequence mapping v⟩
  termination_by n => sizeOf n

mutual

/-- Whether two nodes are the same. -/
def Node.same : Node → Node → Bool
  | .scalar s t x, .scalar s' t' x' => s = s' && t = t' && x = x'
  | .sequence s t xs, .sequence s' t' xs' => s = s' && t = t' && sameItems xs xs'
  | .mapping s t xs, .mapping s' t' xs' => s = s' && t = t' && sameEntries xs xs'
  | _, _ => false

/-- Whether two lists of nodes are the same. -/
def sameItems : List Node → List Node → Bool
  | [], [] => true
  | n :: rest, m :: more => n.same m && sameItems rest more
  | _, _ => false

/-- Whether two lists of pairs of nodes are the same. -/
def sameEntries : List (Node × Node) → List (Node × Node) → Bool
  | [], [] => true
  | (k, v) :: rest, (l, w) :: more => k.same l && v.same w && sameEntries rest more
  | _, _ => false

end

theorem Node.same_iff {n m : Node} : n.same m = true ↔ n = m := by
  induction n using Node.induction generalizing m with
  | scalar share tag text => cases m <;> simp [Node.same, and_assoc]
  | sequence share tag items ih =>
    cases m with
    | sequence share' tag' items' =>
      -- The lists have a test of their own, so what holds of each member is carried along them by a
      -- second induction.
      have hitems : sameItems items items' = true ↔ items = items' := by
        induction items generalizing items' with
        | nil => cases items' <;> simp [sameItems]
        | cons n rest ihrest =>
          rw [List.forall_mem_cons] at ih
          cases items' with
          | nil => simp [sameItems]
          | cons m more => simp [sameItems, ih.1, ihrest ih.2]
      simp [Node.same, hitems, and_assoc]
    | _ => simp [Node.same]
  | mapping share tag entries ih =>
    cases m with
    | mapping share' tag' entries' =>
      have hentries : sameEntries entries entries' = true ↔ entries = entries' := by
        induction entries generalizing entries' with
        | nil => cases entries' <;> simp [sameEntries]
        | cons e rest ihrest =>
          rw [List.forall_mem_cons] at ih
          cases entries' with
          | nil => simp [sameEntries]
          | cons d more =>
            obtain ⟨k, v⟩ := e
            obtain ⟨l, w⟩ := d
            simp [sameEntries, ih.1.1, ih.1.2, ihrest ih.2]
      simp [Node.same, hentries, and_assoc]
    | _ => simp [Node.same]

instance : DecidableEq Node := fun _ _ => decidable_of_iff _ Node.same_iff

/-! ## Graphs -/

/-- The number that a node gets among those that are reached again. -/
def settle (repeated : List Nat) : Share → Share
  | some n => if n ∈ repeated then some (repeated.idxOf n) else none
  | none => none

mutual

/-- A node with the numbers that its nodes get among those that are reached again. -/
def Node.settled (repeated : List Nat) : Node → Node
  | .scalar share tag text => .scalar (settle repeated share) tag text
  | .sequence share tag items => .sequence (settle repeated share) tag (settledItems repeated items)
  | .mapping share tag entries =>
    .mapping (settle repeated share) tag (settledEntries repeated entries)

/-- Nodes with the numbers that they get among those that are reached again. -/
def settledItems (repeated : List Nat) : List Node → List Node
  | [] => []
  | n :: rest => n.settled repeated :: settledItems repeated rest

/-- Keys and values with the numbers that they get among the nodes that are reached again. -/
def settledEntries (repeated : List Nat) : List (Node × Node) → List (Node × Node)
  | [] => []
  | (k, v) :: rest => (k.settled repeated, v.settled repeated) :: settledEntries repeated rest

end

/-- A node of which only those nodes below it that are reached again have numbers. -/
structure Graph where
  /-- How many nodes are reached again. -/
  shared : Nat
  root : Node
  deriving DecidableEq

/-- The graph of a node. -/
def Node.graph (n : Node) : Graph :=
  let repeated := (encounter n {}).repeated
  ⟨repeated.length, n.settled repeated⟩

/-- The graph of a value. -/
def graphOf (v : Value) : Except WriteFault Graph := (Node.ofValue v).map Node.graph

section

variable {repeated : List Nat} {share : Share}

theorem settled_share (n : Node) : (n.settled repeated).share = settle repeated n.share := by
  cases n <;> rw [Node.settled] <;> rfl

theorem settled_tag (n : Node) : (n.settled repeated).tag = n.tag := by
  cases n <;> rw [Node.settled] <;> rfl

theorem isEmpty_settledItems (items : List Node) :
    (settledItems repeated items).isEmpty = items.isEmpty := by
  cases items with
  | nil => rfl
  | cons _ _ => rfl

theorem isEmpty_settledEntries (entries : List (Node × Node)) :
    (settledEntries repeated entries).isEmpty = entries.isEmpty := by
  cases entries with
  | nil => rfl
  | cons _ _ => rfl

/-- A node has the same anchor under the number that it gets. -/
theorem anchorOf?_settle :
    anchorOf? (List.range repeated.length) (settle repeated share) = anchorOf? repeated share := by
  cases share with
  | none => rfl
  | some n =>
    by_cases h : n ∈ repeated
    · have hlt := List.idxOf_lt_length_of_mem h
      have hidx : (List.range repeated.length).idxOf (repeated.idxOf n) = repeated.idxOf n := by
        have := List.nodup_range.idxOf_getElem (repeated.idxOf n) (by simpa using hlt)
        simpa using this
      simp only [settle, if_pos h, anchorOf?, hidx, List.length_range]
    · simp [settle, h, anchorOf?]

/-! ## What is met -/

theorem repeated_subset_meet (share : Share) (e : Encounters) :
    e.repeated ⊆ (e.meet share).2.repeated := by
  unfold Encounters.meet
  cases share with
  | none => exact List.Subset.refl _
  | some n =>
    dsimp only
    split
    · split
      · exact List.Subset.refl _
      · exact List.subset_append_left ..
    · exact List.Subset.refl _

theorem repeated_subset_items {items : List Node}
    (h : ∀ n ∈ items, ∀ e, e.repeated ⊆ (encounter n e).repeated) (e : Encounters) :
    e.repeated ⊆ (encounterItems items e).repeated := by
  induction items generalizing e with
  | nil => exact List.Subset.refl _
  | cons n rest ih =>
    rw [List.forall_mem_cons] at h
    rw [encounterItems]
    exact List.Subset.trans (h.1 e) (ih h.2 _)

theorem repeated_subset_entries {entries : List (Node × Node)}
    (h : ∀ d ∈ entries, (∀ e, e.repeated ⊆ (encounter d.1 e).repeated) ∧
      ∀ e, e.repeated ⊆ (encounter d.2 e).repeated) (e : Encounters) :
    e.repeated ⊆ (encounterEntries entries e).repeated := by
  induction entries generalizing e with
  | nil => exact List.Subset.refl _
  | cons d rest ih =>
    obtain ⟨k, v⟩ := d
    rw [List.forall_mem_cons] at h
    rw [encounterEntries]
    exact List.Subset.trans (List.Subset.trans (h.1.1 e) (h.1.2 _)) (ih h.2 _)

/-- What is reached again stays so. -/
theorem repeated_subset_encounter (n : Node) (e : Encounters) :
    e.repeated ⊆ (encounter n e).repeated := by
  induction n using Node.induction generalizing e with
  | scalar share tag text =>
    rw [encounter]
    exact repeated_subset_meet share e
  | sequence share tag items ih =>
    have hmeet := repeated_subset_meet share e
    rw [encounter]
    split
    next e' heq =>
      rw [heq] at hmeet
      exact List.Subset.trans hmeet (repeated_subset_items ih e')
    next e' heq => rwa [heq] at hmeet
  | mapping share tag entries ih =>
    have hmeet := repeated_subset_meet share e
    rw [encounter]
    split
    next e' heq =>
      rw [heq] at hmeet
      exact List.Subset.trans hmeet (repeated_subset_entries ih e')
    next e' heq => rwa [heq] at hmeet

/-- What is reached again on meeting a node itself is so when all below it has been met. -/
theorem meet_subset_encounter (n : Node) (e : Encounters) :
    (e.meet n.share).2.repeated ⊆ (encounter n e).repeated := by
  cases n with
  | scalar share tag text => exact List.Subset.refl _
  | sequence share tag items =>
    rw [encounter]
    show (e.meet share).2.repeated ⊆ _
    split
    next e' heq =>
      rw [heq]
      exact repeated_subset_items (fun n _ => repeated_subset_encounter n) e'
    next e' heq =>
      rw [heq]
      exact List.Subset.refl _
  | mapping share tag entries =>
    rw [encounter]
    show (e.meet share).2.repeated ⊆ _
    split
    next e' heq =>
      rw [heq]
      exact repeated_subset_entries
        (fun d _ => ⟨repeated_subset_encounter d.1, repeated_subset_encounter d.2⟩) e'
    next e' heq =>
      rw [heq]
      exact List.Subset.refl _

end

/-! ## What is written -/

/-- Two writings of a node, under its own numbers and under those that are settled, at a point where
some nodes have been met: the sheets are the same, and what has been written is what had been
met. -/
structure Mirrors (repeated : List Nat) (e : Encounters) (w w' : Writing) : Prop where
  written : w.written = e.met
  sheet : w'.sheet = w.sheet
  openEnded : w'.openEnded = w.openEnded
  had : ∀ n ∈ repeated, repeated.idxOf n ∈ w'.written ↔ n ∈ w.written

namespace Mirrors

variable {repeated : List Nat} {e : Encounters} {w w' : Writing} {share : Share}

theorem draw (h : Mirrors repeated e w w') (f : Sheet → Sheet) :
    Mirrors repeated e (w.draw f) (w'.draw f) :=
  ⟨h.written, congrArg f h.sheet, rfl, h.had⟩

theorem indicator (h : Mirrors repeated e w w') (s : List Char) (apart spaced block : Bool) :
    Mirrors repeated e (w.indicator s apart spaced block) (w'.indicator s apart spaced block) :=
  h.draw _

theorem toColumn (h : Mirrors repeated e w w') (indent : Option Nat) :
    Mirrors repeated e (w.toColumn indent) (w'.toColumn indent) :=
  ⟨h.written, congrArg (·.toColumn (indent.getD 0)) h.sheet, h.openEnded, h.had⟩

theorem anchor (h : Mirrors repeated e w w') (name : Option (List Char)) :
    Mirrors repeated e (w.anchor name) (w'.anchor name) := by
  cases name with
  | none => exact h
  | some name => exact h.indicator ..

/-- A tag is written in both, or in neither. -/
theorem tag (h : Mirrors repeated e w w') (shows : Prop) [Decidable shows] (s : List Char) :
    Mirrors repeated e (if shows then w else w.indicator s true false false)
      (if shows then w' else w'.indicator s true false false) := by
  by_cases hshows : shows
  · rwa [if_pos hshows, if_pos hshows]
  · rw [if_neg hshows, if_neg hshows]
    exact h.indicator ..

theorem scalar (h : Mirrors repeated e w w') (place : Place) (indent : Option Nat)
    (name : Option (List Char)) (tag : Tag) (s : List Char) :
    Mirrors repeated e (w.scalar place indent name tag s) (w'.scalar place indent name tag s) := by
  have hhead := (h.anchor name).tag (tagShows (chooseStyle place tag s) tag s) (tagText tag)
  exact ⟨hhead.written,
    congrArg (Scalar.writeScalar (chooseStyle place tag s) (place ≠ .key) _ s) hhead.sheet, rfl,
    hhead.had⟩

/-- A node has been written in both or in neither, and in neither when it is met for the first
time. -/
theorem has_eq (h : Mirrors repeated e w w') (share : Share)
    (hsub : (e.meet share).2.repeated ⊆ repeated) :
    w'.has (settle repeated share) = w.has share ∧ (e.meet share).1 = !w.has share := by
  cases share with
  | none => exact ⟨rfl, rfl⟩
  | some n =>
    rw [Bool.eq_iff_iff]
    by_cases hmet : n ∈ e.met
    · -- what is met again is among those that are reached again
      have hin : n ∈ repeated := by
        apply hsub
        by_cases hr : n ∈ e.repeated <;> simp [Encounters.meet, hmet, hr]
      have hwritten : n ∈ w.written := by rwa [h.written]
      simp [settle, hin, Writing.has, h.had n hin, Encounters.meet, hmet, hwritten]
    · have hwritten : n ∉ w.written := by rwa [h.written]
      by_cases hin : n ∈ repeated
      · simp [settle, hin, Writing.has, h.had n hin, Encounters.meet, hmet, hwritten]
      · simp [settle, hin, Writing.has, Encounters.meet, hmet, hwritten]

/-- Meeting a node that has been written changes nothing but what is reached again. -/
theorem again (h : Mirrors repeated e w w') (hhas : w.has share = true) :
    Mirrors repeated (e.meet share).2 w w' := by
  cases share with
  | none => cases hhas
  | some n =>
    have hmet : n ∈ e.met := by
      rw [← h.written]
      simpa [Writing.has] using hhas
    refine ⟨?_, h.sheet, h.openEnded, h.had⟩
    rw [h.written]
    by_cases hr : n ∈ e.repeated <;> simp [Encounters.meet, hmet, hr]

/-- A node that is met for the first time is remembered in both. -/
theorem remember (h : Mirrors repeated e w w') (hhas : w.has share = false) :
    Mirrors repeated (e.meet share).2 (w.remember share)
      (w'.remember (settle repeated share)) := by
  cases share with
  | none => exact h
  | some n =>
    have hmet : n ∉ e.met := by
      rw [← h.written]
      simpa [Writing.has] using hhas
    have hmeet : (e.meet (some n)).2 = { e with met := n :: e.met } := by
      simp [Encounters.meet, hmet]
    rw [hmeet]
    by_cases hin : n ∈ repeated
    · rw [settle, if_pos hin]
      refine ⟨congrArg (n :: ·) h.written, h.sheet, h.openEnded, fun m hm => ?_⟩
      show repeated.idxOf m ∈ repeated.idxOf n :: w'.written ↔ m ∈ n :: w.written
      rw [List.mem_cons, List.mem_cons, h.had m hm, List.idxOf_inj hm]
    · rw [settle, if_neg hin]
      refine ⟨congrArg (n :: ·) h.written, h.sheet, h.openEnded, fun m hm => ?_⟩
      have hne : m ≠ n := fun heq => hin (heq ▸ hm)
      show repeated.idxOf m ∈ w'.written ↔ m ∈ n :: w.written
      rw [List.mem_cons, h.had m hm]
      simp [hne]

/-- A node is found written in both, or is met for the first time and remembered in both. -/
theorem meet_cases (h : Mirrors repeated e w w') (share : Share)
    (hsub : (e.meet share).2.repeated ⊆ repeated) :
    (∃ e', e.meet share = (false, e') ∧ w.has share = true ∧
      w'.has (settle repeated share) = true ∧ Mirrors repeated e' w w') ∨
    ∃ e', e.meet share = (true, e') ∧ w.has share = false ∧
      w'.has (settle repeated share) = false ∧
      Mirrors repeated e' (w.remember share) (w'.remember (settle repeated share)) := by
  obtain ⟨hhas, hnew⟩ := h.has_eq share hsub
  cases hw : w.has share with
  | true =>
    rw [hw] at hhas hnew
    exact .inl ⟨_, Prod.ext hnew rfl, rfl, hhas, h.again hw⟩
  | false =>
    rw [hw] at hhas hnew
    exact .inr ⟨_, Prod.ext hnew rfl, rfl, hhas, h.remember hw⟩

/-- A key needs a question mark in both, or in neither. -/
theorem isSimpleKey_eq (h : Mirrors repeated e w w') {k : Node}
    (hsub : (encounter k e).repeated ⊆ repeated) :
    isSimpleKey w' (List.range repeated.length) (k.settled repeated) =
      isSimpleKey w repeated k := by
  obtain ⟨hhas, -⟩ := h.has_eq k.share (List.Subset.trans (meet_subset_encounter k e) hsub)
  unfold isSimpleKey
  rw [settled_share, settled_tag, hhas, anchorOf?_settle]
  cases k with
  | scalar share tag text => rfl
  | sequence share tag items => simp only [Node.settled, isEmpty_settledItems]
  | mapping share tag entries => simp only [Node.settled, isEmpty_settledEntries]

end Mirrors

/-- Whether writing a node under its own numbers and under those that are settled goes on in the
same way, wherever that is. -/
def Mirrored (repeated : List Nat) (n : Node) : Prop :=
  ∀ place indent e w w', Mirrors repeated e w w' → (encounter n e).repeated ⊆ repeated →
    Mirrors repeated (encounter n e) (writeNode repeated place indent n w)
      (writeNode (List.range repeated.length) place indent (n.settled repeated) w')

section

variable {repeated : List Nat} {e : Encounters} {w w' : Writing}

theorem mirrors_items {items : List Node} (hitems : ∀ n ∈ items, Mirrored repeated n)
    (indent : Option Nat) (h : Mirrors repeated e w w')
    (hsub : (encounterItems items e).repeated ⊆ repeated) :
    Mirrors repeated (encounterItems items e) (writeItems repeated indent items w)
      (writeItems (List.range repeated.length) indent (settledItems repeated items) w') := by
  induction items generalizing e w w' with
  | nil => exact h
  | cons n rest ih =>
    rw [List.forall_mem_cons] at hitems
    rw [encounterItems] at hsub ⊢
    have hfirst : (encounter n e).repeated ⊆ repeated :=
      List.Subset.trans (repeated_subset_items (fun n _ => repeated_subset_encounter n) _) hsub
    rw [settledItems, writeItems, writeItems]
    exact ih hitems.2 (hitems.1 _ _ _ _ _ ((h.toColumn indent).indicator ..) hfirst) hsub

theorem mirrors_entries {entries : List (Node × Node)}
    (hentries : ∀ d ∈ entries, Mirrored repeated d.1 ∧ Mirrored repeated d.2)
    (indent : Option Nat) (h : Mirrors repeated e w w')
    (hsub : (encounterEntries entries e).repeated ⊆ repeated) :
    Mirrors repeated (encounterEntries entries e) (writeEntries repeated indent entries w)
      (writeEntries (List.range repeated.length) indent (settledEntries repeated entries) w') := by
  induction entries generalizing e w w' with
  | nil => exact h
  | cons d rest ih =>
    obtain ⟨k, v⟩ := d
    rw [List.forall_mem_cons] at hentries
    obtain ⟨⟨hk, hv⟩, hrest⟩ := hentries
    rw [encounterEntries] at hsub ⊢
    have hvalue : (encounter v (encounter k e)).repeated ⊆ repeated :=
      List.Subset.trans (repeated_subset_entries
        (fun d _ => ⟨repeated_subset_encounter d.1, repeated_subset_encounter d.2⟩) _) hsub
    have hkey : (encounter k e).repeated ⊆ repeated :=
      List.Subset.trans (repeated_subset_encounter v _) hvalue
    have hcolumn := h.toColumn indent
    rw [settledEntries, writeEntries, writeEntries, hcolumn.isSimpleKey_eq hkey]
    refine ih hrest (hv _ _ _ _ _ ?_ hvalue) hsub
    split
    next => exact (hk _ _ _ _ _ hcolumn hkey).indicator ..
    next =>
      exact ((hk _ _ _ _ _ (hcolumn.indicator ..) hkey).toColumn indent).indicator ..

/-- Every node is written in the same way under its own numbers and under those that are settled. -/
theorem mirrored (n : Node) : Mirrored repeated n := by
  induction n using Node.induction with
  | scalar share tag s =>
    intro place indent e w w' h hsub
    rw [encounter] at hsub ⊢
    rw [Node.settled, writeNode, writeNode, anchorOf?_settle]
    obtain ⟨e', hmeet, hw, hw', hagain⟩ | ⟨e', hmeet, hw, hw', hstart⟩ := h.meet_cases share hsub
    · rw [hmeet, hw, hw']
      exact hagain.indicator ..
    · rw [hmeet, hw, hw']
      exact hstart.scalar ..
  | sequence share tag items ih =>
    intro place indent e w w' h hsub
    have hmet := List.Subset.trans (meet_subset_encounter (.sequence share tag items) e) hsub
    rw [encounter] at hsub ⊢
    rw [Node.settled, writeNode, writeNode, anchorOf?_settle, isEmpty_settledItems]
    obtain ⟨e', hmeet, hw, hw', hagain⟩ | ⟨e', hmeet, hw, hw', hstart⟩ := h.meet_cases share hmet
    · rw [hmeet, hw, hw']
      exact hagain.indicator ..
    · rw [hmeet] at hsub ⊢
      rw [hw, hw']
      have hhead := (hstart.anchor (anchorOf? repeated share)).tag (tag = .seq) (tagText tag)
      cases items with
      | nil => exact (hhead.indicator ..).indicator ..
      | cons n rest =>
        -- the column of the dashes depends on the sheet
        dsimp only
        rw [hhead.sheet]
        exact mirrors_items ih _ hhead hsub
  | mapping share tag entries ih =>
    intro place indent e w w' h hsub
    have hmet := List.Subset.trans (meet_subset_encounter (.mapping share tag entries) e) hsub
    rw [encounter] at hsub ⊢
    rw [Node.settled, writeNode, writeNode, anchorOf?_settle, isEmpty_settledEntries]
    obtain ⟨e', hmeet, hw, hw', hagain⟩ | ⟨e', hmeet, hw, hw', hstart⟩ := h.meet_cases share hmet
    · rw [hmeet, hw, hw']
      exact hagain.indicator ..
    · rw [hmeet] at hsub ⊢
      rw [hw, hw']
      have hhead := (hstart.anchor (anchorOf? repeated share)).tag (tag = .map) (tagText tag)
      cases entries with
      | nil => exact (hhead.indicator ..).indicator ..
      | cons d rest => exact mirrors_entries ih _ hhead hsub

end

/-! ## Texts -/

/-- The text of a graph as a document of its own. -/
def Graph.write (g : Graph) : List Char :=
  let w := (writeNode (List.range g.shared) .root none g.root {}).toColumn none
  let w := if w.openEnded then (w.indicator "...".toList true false false).toColumn none else w
  w.sheet.text

/-- A node is written as its graph is. -/
theorem write_graph (n : Node) : n.graph.write = n.write := by
  have hstart : Mirrors (encounter n {}).repeated {} {} {} := ⟨rfl, rfl, rfl, fun _ _ => by simp⟩
  have hend := ((mirrored n) .root none _ _ _ hstart (List.Subset.refl _)).toColumn none
  unfold Graph.write Node.write Node.graph
  dsimp only
  rw [hend.openEnded]
  split
  next => exact congrArg Sheet.text ((hend.indicator ..).toColumn none).sheet
  next => exact congrArg Sheet.text hend.sheet

/-- Documents whose contents have one graph are written as one text. -/
theorem render_eq_of_graph {role : Role} {u v : Value} (h : graphOf u = graphOf v) :
    render (.checked role u) = render (.checked role v) := by
  have hwrite : ∀ x : Value, render (.checked role x) = (graphOf x).map Graph.write := by
    intro x
    show (Node.ofValue x).map Node.write = ((Node.ofValue x).map Node.graph).map Graph.write
    cases Node.ofValue x with
    | error fault => rfl
    | ok n => exact congrArg Except.ok (write_graph n).symm
  rw [hwrite, hwrite, h]

end RegistryTree.Yaml
