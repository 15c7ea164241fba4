import RegistryTree.Proofs.Value.Presentation
import RegistryTree.Proofs.Yaml.Node.Graph

/-!
# Other share numbers

The share numbers of a node may be exchanged for others, as long as no two become one, and the
numbers that occur once may go. The graph of the node stays the same, and so does its text.

`Tracks` goes along with the search for what is reached again: where the numbers are exchanged, what
has been met is what had been met, under its new numbers.

> `graph_relabel`: the graph of a node is that of the node with other numbers.
> `write_relabel`: and it is written in the same way.
-/

namespace RegistryTree.Yaml

open Value (Renames)

namespace Node

mutual

/-- A node with new share numbers. -/
def relabel (g : Nat → Option Nat) : Node → Node
  | scalar share tag text => scalar (share.bind g) tag text
  | sequence share tag items => sequence (share.bind g) tag (relabelItems g items)
  | mapping share tag entries => mapping (share.bind g) tag (relabelEntries g entries)

/-- Nodes with new share numbers. -/
def relabelItems (g : Nat → Option Nat) : List Node → List Node
  | [] => []
  | n :: rest => relabel g n :: relabelItems g rest

/-- Keys and values with new share numbers. -/
def relabelEntries (g : Nat → Option Nat) : List (Node × Node) → List (Node × Node)
  | [] => []
  | (k, v) :: rest => (relabel g k, relabel g v) :: relabelEntries g rest

end

mutual

/-- The share numbers in a node. -/
def shares : Node → List Nat
  | scalar share _ _ => share.toList
  | sequence share _ items => share.toList ++ itemShares items
  | mapping share _ entries => share.toList ++ entryShares entries

/-- The share numbers in nodes. -/
def itemShares : List Node → List Nat
  | [] => []
  | n :: rest => shares n ++ itemShares rest

/-- The share numbers in keys and values. -/
def entryShares : List (Node × Node) → List Nat
  | [] => []
  | (k, v) :: rest => shares k ++ (shares v ++ entryShares rest)

end

end Node

variable {g : Nat → Option Nat} {shares more repeated : List Nat}

/-! ## What is met -/

/-- What has been met, under new numbers. -/
def Encounters.relabel (g : Nat → Option Nat) (e : Encounters) : Encounters :=
  ⟨e.met.filterMap g, e.repeated.filterMap g⟩

/-- One walk through some shares comes under new numbers to what another comes to under the old
ones. -/
def Tracks (g : Nat → Option Nat) (shares : List Nat) (walk walk' : Encounters → Encounters) : Prop :=
  ∀ e, Renames g (e.met ++ shares) → (∀ a ∈ e.repeated, (g a).isSome = true) →
    walk' (e.relabel g) = (walk e).relabel g ∧ (∀ a ∈ (walk e).repeated, (g a).isSome = true) ∧
      ∀ a, (walk e).met.count a ≤ (e.met ++ shares).count a

theorem Tracks.refl (g : Nat → Option Nat) : Tracks g [] id id :=
  fun e _ hrepeated => ⟨rfl, hrepeated, fun a => by rw [List.append_nil]; exact Nat.le_refl _⟩

/-- Walks that go on with others. -/
theorem Tracks.comp {first first' second second' : Encounters → Encounters}
    (h : Tracks g shares first first') (h' : Tracks g more second second') :
    Tracks g (shares ++ more) (fun e => second (first e)) fun e => second' (first' e) := by
  intro e hrenames hrepeated
  obtain ⟨heq, hfirst, hcount⟩ := h e (hrenames.mono fun a => by simp) hrepeated
  have hle : ∀ a, ((first e).met ++ more).count a ≤ (e.met ++ (shares ++ more)).count a := by
    intro a
    have := hcount a
    simp only [List.count_append] at this ⊢
    omega
  obtain ⟨heq', hsecond, hcount'⟩ := h' (first e) (hrenames.mono hle) hfirst
  exact ⟨(congrArg second' heq).trans heq', hsecond, fun a => Nat.le_trans (hcount' a) (hle a)⟩

theorem mem_filterMap_iff {a c : Nat} (h : Renames g shares) (hac : g a = some c) :
    c ∈ more.filterMap g ↔ a ∈ more := by
  rw [List.mem_filterMap]
  exact ⟨fun ⟨b, hb, hbc⟩ => h.injective a b c hac hbc ▸ hb, fun ha => ⟨a, ha, hac⟩⟩

/-- Meeting a node, and going on below it when it is new. -/
def Encounters.enter (share : Share) (walk : Encounters → Encounters) (e : Encounters) : Encounters :=
  match e.meet share with
  | (true, e) => walk e
  | (false, e) => e

theorem enter_of_mem {walk : Encounters → Encounters} {n : Nat} {e : Encounters} (h : n ∈ e.met) :
    e.enter (some n) walk =
      { e with repeated := if n ∈ e.repeated then e.repeated else e.repeated ++ [n] } := by
  by_cases hr : n ∈ e.repeated <;> simp [Encounters.enter, Encounters.meet, h, hr]

theorem enter_of_new {walk : Encounters → Encounters} {n : Nat} {e : Encounters} (h : n ∉ e.met) :
    e.enter (some n) walk = walk { e with met := n :: e.met } := by
  simp [Encounters.enter, Encounters.meet, h]

/-- The walk below a node that is met. -/
theorem Tracks.enter {walk walk' : Encounters → Encounters} (h : Tracks g shares walk walk')
    (share : Share) :
    Tracks g (share.toList ++ shares) (.enter share walk) (.enter (share.bind g) walk') := by
  intro e hrenames hrepeated
  cases share with
  | none => exact h e hrenames hrepeated
  | some n =>
    by_cases hmet : n ∈ e.met
    · -- what is met twice has a new number
      obtain ⟨c, hc⟩ : ∃ c, g n = some c := by
        rw [← Option.ne_none_iff_exists']
        intro hnone
        -- A number that is dropped is met once at most, and this one is met again.
        have hle := hrenames.once n hnone
        have hcount := List.one_le_count_iff.2 hmet
        simp only [Option.toList_some, List.count_append, List.count_singleton_self] at hle
        omega
      have hmet' : c ∈ (e.relabel g).met := (mem_filterMap_iff hrenames hc).2 hmet
      have hagain : c ∈ (e.relabel g).repeated ↔ n ∈ e.repeated := mem_filterMap_iff hrenames hc
      rw [Option.bind_some, hc, enter_of_mem hmet, enter_of_mem hmet']
      refine ⟨?_, fun a ha => ?_, fun a => ?_⟩
      · by_cases hr : n ∈ e.repeated
        · rw [if_pos hr, if_pos (hagain.2 hr)]
        · rw [if_neg hr, if_neg (mt hagain.1 hr)]
          simp [Encounters.relabel, hc]
      · split at ha
        · exact hrepeated a ha
        · rcases List.mem_append.1 ha with ha | ha
          · exact hrepeated a ha
          · rw [List.mem_singleton.1 ha, hc]
            rfl
      · simp only [List.count_append]
        omega
    · have hcount : ∀ a, (n :: e.met ++ shares).count a =
          (e.met ++ ((some n).toList ++ shares)).count a := fun a => by
        simp only [Option.toList_some, List.count_append, List.cons_append, List.count_cons,
          List.count_nil]
        omega
      have hbelow := h { e with met := n :: e.met }
        (hrenames.mono fun a => Nat.le_of_eq (hcount a)) hrepeated
      simp only [hcount] at hbelow
      rw [enter_of_new hmet]
      refine ⟨?_, hbelow.2⟩
      rw [← hbelow.1, Option.bind_some]
      cases hc : g n with
      | none =>
        show walk' (e.relabel g) = _
        simp [Encounters.relabel, hc]
      | some c =>
        have hmet' : c ∉ (e.relabel g).met := mt (mem_filterMap_iff hrenames hc).1 hmet
        rw [enter_of_new hmet']
        simp [Encounters.relabel, hc]

theorem encounter_scalar (share : Share) (tag : Tag) (text : List Char) :
    encounter (.scalar share tag text) = .enter share id := by
  funext e
  rw [encounter, Encounters.enter]
  split
  next h => rw [h]; rfl
  next h => rw [h]

theorem encounter_sequence (share : Share) (tag : Tag) (items : List Node) :
    encounter (.sequence share tag items) = .enter share (encounterItems items) := by
  funext e
  rw [encounter]
  rfl

theorem encounter_mapping (share : Share) (tag : Tag) (entries : List (Node × Node)) :
    encounter (.mapping share tag entries) = .enter share (encounterEntries entries) := by
  funext e
  rw [encounter]
  rfl

theorem tracks_items {items : List Node}
    (h : ∀ n ∈ items, Tracks g n.shares (encounter n) (encounter (n.relabel g))) :
    Tracks g (Node.itemShares items) (encounterItems items)
      (encounterItems (Node.relabelItems g items)) := by
  induction items with
  | nil => exact Tracks.refl g
  | cons n rest ih =>
    rw [List.forall_mem_cons] at h
    exact h.1.comp (ih h.2)

theorem tracks_entries {entries : List (Node × Node)}
    (h : ∀ d ∈ entries, Tracks g d.1.shares (encounter d.1) (encounter (d.1.relabel g)) ∧
      Tracks g d.2.shares (encounter d.2) (encounter (d.2.relabel g))) :
    Tracks g (Node.entryShares entries) (encounterEntries entries)
      (encounterEntries (Node.relabelEntries g entries)) := by
  induction entries with
  | nil => exact Tracks.refl g
  | cons d rest ih =>
    obtain ⟨k, v⟩ := d
    rw [List.forall_mem_cons] at h
    exact h.1.1.comp (h.1.2.comp (ih h.2))

/-- What is met in a node is met in it under new numbers. -/
theorem tracks_encounter (g : Nat → Option Nat) (n : Node) :
    Tracks g n.shares (encounter n) (encounter (n.relabel g)) := by
  induction n using Node.induction with
  | scalar share tag text =>
    rw [Node.relabel, encounter_scalar, encounter_scalar, Node.shares,
      ← List.append_nil share.toList]
    exact (Tracks.refl g).enter share
  | sequence share tag items ih =>
    rw [Node.relabel, encounter_sequence, encounter_sequence, Node.shares]
    exact (tracks_items ih).enter share
  | mapping share tag entries ih =>
    rw [Node.relabel, encounter_mapping, encounter_mapping, Node.shares]
    exact (tracks_entries ih).enter share

/-! ## The graph -/

theorem idxOf_filterMap (h : Renames g shares) (hrepeated : ∀ a ∈ repeated, (g a).isSome = true)
    {a c : Nat} (hac : g a = some c) : (repeated.filterMap g).idxOf c = repeated.idxOf a := by
  induction repeated with
  | nil => rfl
  | cons b rest ih =>
    rw [List.forall_mem_cons, Option.isSome_iff_exists] at hrepeated
    obtain ⟨⟨d, hd⟩, hrest⟩ := hrepeated
    have heq : (d == c) = (b == a) := by
      rw [Bool.eq_iff_iff, beq_iff_eq, beq_iff_eq]
      refine ⟨fun hdc => h.injective b a c (hdc ▸ hd) hac, fun hba => ?_⟩
      rw [hba, hac] at hd
      exact (Option.some.inj hd).symm
    rw [List.filterMap_cons_some hd, List.idxOf_cons, List.idxOf_cons, ih hrest, heq]

/-- A node gets the same number among those that are reached again. -/
theorem settle_bind (h : Renames g shares) (hrepeated : ∀ a ∈ repeated, (g a).isSome = true)
    (share : Share) : settle (repeated.filterMap g) (share.bind g) = settle repeated share := by
  cases share with
  | none => rfl
  | some a =>
    cases hac : g a with
    | none =>
      have ha : a ∉ repeated := fun ha => by simpa [hac] using hrepeated a ha
      simp [settle, ha, hac]
    | some c =>
      have hmem : c ∈ repeated.filterMap g ↔ a ∈ repeated := mem_filterMap_iff h hac
      rw [Option.bind_some, hac, settle, settle, idxOf_filterMap h hrepeated hac]
      simp only [hmem]

theorem settled_relabel (h : Renames g shares) (hrepeated : ∀ a ∈ repeated, (g a).isSome = true)
    (n : Node) : (n.relabel g).settled (repeated.filterMap g) = n.settled repeated := by
  induction n using Node.induction with
  | scalar share tag text =>
    rw [Node.relabel, Node.settled, Node.settled, settle_bind h hrepeated]
  | sequence share tag items ih =>
    rw [Node.relabel, Node.settled, Node.settled, settle_bind h hrepeated]
    congr 1
    induction items with
    | nil => rfl
    | cons n rest ihrest =>
      rw [List.forall_mem_cons] at ih
      rw [Node.relabelItems, settledItems, settledItems, ih.1, ihrest ih.2]
  | mapping share tag entries ih =>
    rw [Node.relabel, Node.settled, Node.settled, settle_bind h hrepeated]
    congr 1
    induction entries with
    | nil => rfl
    | cons d rest ihrest =>
      obtain ⟨k, v⟩ := d
      rw [List.forall_mem_cons] at ih
      rw [Node.relabelEntries, settledEntries, settledEntries, ih.1.1, ih.1.2, ihrest ih.2]

/-- The graph of a node is that of the node under new numbers. -/
theorem graph_relabel {n : Node} (h : Renames g n.shares) : (n.relabel g).graph = n.graph := by
  obtain ⟨heq, hrepeated, -⟩ := tracks_encounter g n {} (by simpa using h) (by simp)
  have hmet : encounter (n.relabel g) {} = (encounter n {}).relabel g := heq
  have hlength : ((encounter n {}).repeated.filterMap g).length = (encounter n {}).repeated.length := by
    rw [List.filterMap_length_eq_length]
    exact hrepeated
  unfold Node.graph
  rw [hmet]
  dsimp only [Encounters.relabel]
  rw [hlength, settled_relabel h hrepeated]

/-- Under new numbers a node is written in the same way. -/
theorem write_relabel {n : Node} (h : Renames g n.shares) : (n.relabel g).write = n.write := by
  rw [← write_graph, graph_relabel h, write_graph]

end RegistryTree.Yaml
