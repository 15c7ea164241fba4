import RegistryTree.Proofs.Yaml.Node.OfValue
import RegistryTree.Proofs.Yaml.Node.Relabel

/-!
# The nodes of two presentations

Two presentations of an orderly document have the same node, up to the share numbers: the keys tell
in which order the entries stand.

> `ofValue_relabel`: the nodes of two presentations, under new share numbers.
> `shares_ofValue`: the share numbers of a node are those of its value.
-/

namespace RegistryTree.Yaml

open Value (Comparable Orderly Presented RanksAs)

variable {g h : Nat → Option Nat} {ρ : Share → Share → Prop} {u v : Value}

/-! ## Ordering -/

section

variable {α β : Type} {es es' : List (Value × α)} {fs : List (Value × β)}

/-- Comparable keys are ordered in one way. -/
theorem ordered_eq_of_perm (hkeys : Comparable (es.map Prod.fst)) (hperm : es.Perm es') :
    ordered es = ordered es' := by
  obtain ⟨sorted, hsorted, -⟩ := Value.exists_sortByKey? hkeys
  rw [ordered, ordered, ← Value.sortByKey?_eq_of_perm hkeys hperm, hsorted]
  rfl

/-- Entries whose keys compare alike are ordered alike. -/
theorem ordered_rel {R : Value × α → Value × β → Prop} (hrank : ∀ e f, R e f → RanksAs e.1 f.1)
    (hR : List.Forall₂ R es fs) : List.Forall₂ R (ordered es) (ordered fs) := by
  have hsorted := Value.sortByKey?_rel hrank hR
  rw [ordered, ordered]
  generalize Value.sortByKey? es = x at hsorted
  generalize Value.sortByKey? fs = y at hsorted
  cases hsorted with
  | none => exact hR
  | some hsorted => exact hsorted

end

/-! ## Under new numbers -/

theorem relabelItems_eq_map (items : List Node) :
    Node.relabelItems g items = items.map (Node.relabel g) := by
  induction items with
  | nil => rfl
  | cons n rest ih => rw [Node.relabelItems, ih, List.map_cons]

theorem relabelEntries_eq_map (entries : List (Node × Node)) :
    Node.relabelEntries g entries = entries.map fun e => (e.1.relabel g, e.2.relabel g) := by
  induction entries with
  | nil => rfl
  | cons e rest ih => rw [Node.relabelEntries, ih, List.map_cons]

theorem ofValues_eq_mapM (items : List Value) :
    Node.ofValues items = items.mapM Node.ofValue := by
  induction items with
  | nil => rfl
  | cons v rest ih => rw [Node.ofValues, ih, List.mapM_cons]

theorem memberNodes_eq_map (items : List Value) : memberNodes items =
    items.map fun v => (v, Node.ofValue v, .ok (.scalar none .null "null".toList)) := by
  induction items with
  | nil => rfl
  | cons v rest ih => rw [memberNodes, ih, List.map_cons]

/-- Two entries with their nodes: the keys compare alike, and the nodes are the same under new
numbers. -/
structure RowsAlike (g h : Nat → Option Nat)
    (x y : Value × Except WriteFault Node × Except WriteFault Node) : Prop where
  rank : RanksAs x.1 y.1
  key : x.2.1.map (Node.relabel g) = y.2.1.map (Node.relabel h)
  value : x.2.2.map (Node.relabel g) = y.2.2.map (Node.relabel h)

theorem orderedNodes_relabel
    {rows rows' : List (Value × Except WriteFault Node × Except WriteFault Node)}
    (hrows : List.Forall₂ (RowsAlike g h) rows rows') :
    (orderedNodes rows).map (Node.relabelEntries g) =
      (orderedNodes rows').map (Node.relabelEntries h) := by
  have hfun : ∀ g, Node.relabelEntries g = List.map fun e => (e.1.relabel g, e.2.relabel g) :=
    fun g => funext relabelEntries_eq_map
  rw [hfun, hfun, orderedNodes, orderedNodes]
  refine mapM_map_eq ((ordered_rel (fun x y hxy => hxy.rank) hrows).imp fun x y hxy => ?_)
  rcases map_eq_map_iff.1 hxy.key with ⟨e, hx, hy⟩ | ⟨a, b, hx, hy, hab⟩
  · rw [hx, hy]
    rfl
  · rw [hx, hy]
    rcases map_eq_map_iff.1 hxy.value with ⟨e, hx', hy'⟩ | ⟨a', b', hx', hy', hab'⟩
    · rw [hx', hy']
      rfl
    · rw [hx', hy']
      exact congrArg Except.ok (congrArg₂ Prod.mk hab hab')

theorem orderedNodes_eq_of_perm
    {rows rows' : List (Value × Except WriteFault Node × Except WriteFault Node)}
    (hkeys : Comparable (rows.map Prod.fst)) (hperm : rows.Perm rows') :
    orderedNodes rows = orderedNodes rows' := by
  rw [orderedNodes, orderedNodes, ordered_eq_of_perm hkeys hperm]

theorem ofValues_relabel {xs ys : List Value}
    (hR : List.Forall₂ (fun x y => (Node.ofValue x).map (Node.relabel g) =
      (Node.ofValue y).map (Node.relabel h)) xs ys) :
    (Node.ofValues xs).map (Node.relabelItems g) = (Node.ofValues ys).map (Node.relabelItems h) := by
  have hfun : ∀ g, Node.relabelItems g = List.map (Node.relabel g) :=
    fun g => funext relabelItems_eq_map
  rw [hfun, hfun, ofValues_eq_mapM, ofValues_eq_mapM]
  exact mapM_map_eq hR

theorem map_relabel_sequence (x : Except WriteFault (List Node)) (share : Share) (tag : Tag) :
    (x.map (.sequence share tag)).map (Node.relabel g) =
      (x.map (Node.relabelItems g)).map (.sequence (share.bind g) tag) := by
  cases x <;> rfl

theorem map_relabel_mapping (x : Except WriteFault (List (Node × Node))) (share : Share) (tag : Tag) :
    (x.map (.mapping share tag)).map (Node.relabel g) =
      (x.map (Node.relabelEntries g)).map (.mapping (share.bind g) tag) := by
  cases x <;> rfl

/-- Two presentations of an orderly document have the same node, under share numbers that agree at
corresponding places. -/
theorem ofValue_relabel (hsame : Presented ρ u v) (hρ : ∀ s t, ρ s t → s.bind g = t.bind h)
    (horderly : u.Orderly) :
    (Node.ofValue u).map (Node.relabel g) = (Node.ofValue v).map (Node.relabel h) := by
  induction hsame with
  | null => rfl
  | bool b => rfl
  | int n =>
    rw [Node.ofValue]
    cases Number.integerText? n <;> rfl
  | @float x y hxy =>
    rcases hxy with rfl | ⟨hx, hy⟩
    · rfl
    · rw [Node.ofValue, Node.ofValue, floatText, floatText, if_pos hx, if_pos hy]
      rfl
  | text s => rfl
  | bytes b => rfl
  | date hshare d => exact congrArg (fun s => Except.ok (Node.scalar s _ _)) (hρ _ _ hshare)
  | moment hshare m => exact congrArg (fun s => Except.ok (Node.scalar s _ _)) (hρ _ _ hshare)
  | @list s t xs ys hshare hlength _ ih =>
    rw [Node.ofValue, Node.ofValue, map_relabel_sequence, map_relabel_sequence, hρ s t hshare]
    congr 1
    refine ofValues_relabel (List.forall₂_iff_zip.2 ⟨hlength, fun {x y} hxy => ?_⟩)
    exact ih _ hxy (horderly.of_child (List.of_mem_zip hxy).1)
  | @tuple s t xs ys hshare hlength _ ih =>
    -- An empty tuple is one thing wherever it stands, so its number says nothing.
    have hempty : xs.isEmpty = ys.isEmpty := by
      rw [Bool.eq_iff_iff, List.isEmpty_iff_length_eq_zero, List.isEmpty_iff_length_eq_zero, hlength]
    have hbind : (if xs.isEmpty then none else s).bind g = (if ys.isEmpty then none else t).bind h := by
      rw [hempty]
      split
      · rfl
      · exact hρ s t hshare
    rw [Node.ofValue, Node.ofValue, map_relabel_sequence, map_relabel_sequence, hbind]
    congr 1
    refine ofValues_relabel (List.forall₂_iff_zip.2 ⟨hlength, fun {x y} hxy => ?_⟩)
    exact ih _ hxy (horderly.of_child (List.of_mem_zip hxy).1)
  | @set s t xs xs' ys hshare hperm hlength hmembers ih =>
    -- The keys have an order, so the rows come out in it whatever order they were given in.
    have hkeys : Comparable xs := horderly.comparable
    have hrows := orderedNodes_eq_of_perm (by simpa [Function.comp_def] using hkeys) (hperm.map
      fun v => (v, Node.ofValue v, .ok (.scalar none .null "null".toList)))
    rw [Node.ofValue, Node.ofValue, map_relabel_mapping, map_relabel_mapping, hρ s t hshare,
      memberNodes_eq_map, memberNodes_eq_map, hrows]
    congr 1
    refine orderedNodes_relabel ?_
    rw [List.forall₂_map_left_iff, List.forall₂_map_right_iff]
    refine List.forall₂_iff_zip.2 ⟨hlength, fun {x y} hxy => ?_⟩
    have hx : x ∈ xs := hperm.mem_iff.2 (List.of_mem_zip hxy).1
    exact ⟨(hmembers _ hxy).ranksAs (hkeys.scalar x hx), ih _ hxy (horderly.of_child hx), rfl⟩
  | @mapping s t es es' fs hshare hperm hlength hkeys _ ihkeys ihvalues =>
    have hcomparable : Comparable (es.map Prod.fst) := horderly.comparable
    have hrows := orderedNodes_eq_of_perm (by rw [List.map_map]; exact hcomparable)
      (hperm.map fun e => (e.1, Node.ofValue e.1, Node.ofValue e.2))
    rw [Node.ofValue, Node.ofValue, map_relabel_mapping, map_relabel_mapping, hρ s t hshare,
      entryNodes_eq_map, entryNodes_eq_map, hrows]
    congr 1
    refine orderedNodes_relabel ?_
    rw [List.forall₂_map_left_iff, List.forall₂_map_right_iff]
    refine List.forall₂_iff_zip.2 ⟨hlength, fun {e f} hef => ?_⟩
    have he : e ∈ es := hperm.mem_iff.2 (List.of_mem_zip hef).1
    exact ⟨(hkeys _ hef).ranksAs (hcomparable.scalar e.1 (List.mem_map_of_mem he)),
      ihkeys _ hef (horderly.of_child (List.mem_flatMap.2 ⟨e, he, by simp⟩)),
      ihvalues _ hef (horderly.of_child (List.mem_flatMap.2 ⟨e, he, by simp⟩))⟩

/-! ## Share numbers -/

theorem itemShares_eq_flatMap (items : List Node) :
    Node.itemShares items = items.flatMap Node.shares := by
  induction items with
  | nil => rfl
  | cons n rest ih => rw [Node.itemShares, ih, List.flatMap_cons]

theorem entryShares_eq_flatMap (entries : List (Node × Node)) :
    Node.entryShares entries = entries.flatMap fun e => e.1.shares ++ e.2.shares := by
  induction entries with
  | nil => rfl
  | cons e rest ih => rw [Node.entryShares, ih, List.flatMap_cons, List.append_assoc]

theorem flatMap_perm_of_forall₂ {α β γ : Type} {f : α → List γ} {f' : β → List γ} {xs : List α}
    {ys : List β} (hR : List.Forall₂ (fun x y => (f' y).Perm (f x)) xs ys) :
    (ys.flatMap f').Perm (xs.flatMap f) := by
  induction hR with
  | nil => exact .refl _
  | cons hxy _ ih =>
    rw [List.flatMap_cons, List.flatMap_cons]
    exact hxy.append ih

/-- The nodes of entries are those of their keys and values, in some order. -/
theorem exists_perm_of_orderedNodes {α : Type}
    {f : α → Value × Except WriteFault Node × Except WriteFault Node} {xs : List α}
    {nodes : List (Node × Node)} (hnodes : orderedNodes (xs.map f) = .ok nodes) :
    ∃ sorted : List α, sorted.Perm xs ∧
      List.Forall₂ (fun x n => (f x).2.1 = .ok n.1 ∧ (f x).2.2 = .ok n.2) sorted nodes := by
  have hrows : List.Forall₂ (fun r x => r = f x) (xs.map f) xs :=
    List.forall₂_map_left_iff.2 (List.forall₂_same.2 fun _ _ => rfl)
  obtain ⟨sorted, hsorted, hperm⟩ := List.perm_comp_forall₂ (ordered_perm _) hrows
  rw [← List.forall₂_map_right_iff (R := Eq), List.forall₂_eq_eq_eq] at hsorted
  rw [orderedNodes, hsorted, mapM_eq_ok_iff, List.forall₂_map_left_iff] at hnodes
  refine ⟨sorted, hperm, hnodes.imp fun x n hn => ?_⟩
  obtain ⟨k, hk, hn⟩ := bind_eq_ok_iff.1 hn
  obtain ⟨w, hw, hn⟩ := bind_eq_ok_iff.1 hn
  cases hn
  exact ⟨hk, hw⟩

/-- The share numbers of nodes are those of the values, in some order. -/
theorem itemShares_ofValues {items : List Value} {nodes : List Node}
    (ih : ∀ v ∈ items, ∀ n, Node.ofValue v = .ok n → n.shares.Perm v.shares)
    (hnodes : Node.ofValues items = .ok nodes) :
    (Node.itemShares nodes).Perm (items.flatMap Value.shares) := by
  rw [ofValues_eq_mapM, mapM_eq_ok_iff] at hnodes
  rw [itemShares_eq_flatMap]
  exact flatMap_perm_of_forall₂ (forall₂_imp_of_mem hnodes ih)

/-- The share numbers of the nodes of entries are those of their keys and values, in some order. -/
theorem entryShares_orderedNodes {α : Type}
    {f : α → Value × Except WriteFault Node × Except WriteFault Node} {numbers : α → List Nat}
    {xs : List α} {nodes : List (Node × Node)}
    (ih : ∀ x ∈ xs, ∀ k w, (f x).2.1 = .ok k → (f x).2.2 = .ok w →
      (k.shares ++ w.shares).Perm (numbers x))
    (hnodes : orderedNodes (xs.map f) = .ok nodes) :
    (Node.entryShares nodes).Perm (xs.flatMap numbers) := by
  obtain ⟨sorted, hperm, hrows⟩ := exists_perm_of_orderedNodes hnodes
  rw [entryShares_eq_flatMap]
  have hsorted : (nodes.flatMap fun e => e.1.shares ++ e.2.shares).Perm (sorted.flatMap numbers) :=
    flatMap_perm_of_forall₂ (forall₂_imp_of_mem hrows fun x hx n hn =>
      ih x (hperm.mem_iff.1 hx) n.1 n.2 hn.1 hn.2)
  exact hsorted.trans (hperm.flatMap_right _)

/-- The share numbers of a node are those of its value, in some order. -/
theorem shares_ofValue {n : Node} (hn : Node.ofValue v = .ok n) : n.shares.Perm v.shares := by
  induction v using Value.induction generalizing n with
  | h v ih =>
    -- The value has its own number and those of its children, and so has the node; only the order
    -- of entries may be another.
    rw [Value.shares_eq]
    cases v with
    | list share items =>
      obtain ⟨nodes, hnodes, rfl⟩ := map_eq_ok_iff.1 hn
      exact (itemShares_ofValues (fun v hv n hn => ih v hv hn) hnodes).append_left _
    | tuple share items =>
      obtain ⟨nodes, hnodes, rfl⟩ := map_eq_ok_iff.1 hn
      exact (itemShares_ofValues (fun v hv n hn => ih v hv hn) hnodes).append_left _
    | set share items =>
      obtain ⟨nodes, hnodes, rfl⟩ := map_eq_ok_iff.1 hn
      rw [memberNodes_eq_map] at hnodes
      refine (entryShares_orderedNodes (fun v hv k w hk hw => ?_) hnodes).append_left _
      cases hw
      rw [Node.shares, Option.toList_none, List.append_nil]
      exact ih v hv hk
    | mapping share entries =>
      obtain ⟨nodes, hnodes, rfl⟩ := map_eq_ok_iff.1 hn
      rw [entryNodes_eq_map] at hnodes
      rw [Value.children, List.flatMap_assoc]
      refine (entryShares_orderedNodes (fun e he k w hk hw => ?_) hnodes).append_left _
      have hkey := ih e.1 (List.mem_flatMap.2 ⟨e, he, by simp⟩) hk
      have hvalue := ih e.2 (List.mem_flatMap.2 ⟨e, he, by simp⟩) hw
      simpa using hkey.append hvalue
    | int k =>
      rw [Node.ofValue] at hn
      split at hn
      · cases hn
        exact .refl _
      · cases hn
    | checked | foreign => cases hn
    | _ =>
      cases hn
      simp [Node.shares, Value.share, Value.children]

/-! ## What can be written -/

theorem exists_orderedNodes_iff {α : Type}
    {f : α → Value × Except WriteFault Node × Except WriteFault Node} {xs : List α} :
    (∃ nodes, orderedNodes (xs.map f) = .ok nodes) ↔
      ∀ x ∈ xs, (∃ k, (f x).2.1 = .ok k) ∧ ∃ w, (f x).2.2 = .ok w := by
  have hrow : ∀ r : Value × Except WriteFault Node × Except WriteFault Node,
      (∃ n, (do return (← r.2.1, ← r.2.2) : Except WriteFault (Node × Node)) = .ok n) ↔
        (∃ k, r.2.1 = .ok k) ∧ ∃ w, r.2.2 = .ok w := by
    rintro ⟨k, x, y⟩
    cases x <;> cases y <;> simp [bind, Except.bind, pure, Except.pure]
  rw [orderedNodes, exists_mapM_iff]
  simp only [hrow, (ordered_perm _).mem_iff, List.forall_mem_map]

/-- Whether a value itself can be written: it is data and no whole number with too many digits. -/
def isWritable : Value → Bool
  | .int n => (Number.integerText? n).isSome
  | v => v.isData

/-- A value has a node when all its parts can be written. -/
theorem exists_ofValue_iff :
    (∃ n, Node.ofValue v = .ok n) ↔ ∀ p ∈ v.parts, isWritable p = true := by
  induction v using Value.induction with
  | h v ih =>
    rw [Value.forall_parts_iff, ← forall₂_congr ih]
    cases v with
    | int n =>
      rw [Node.ofValue]
      cases hn : Number.integerText? n <;> simp [isWritable, hn, Value.children]
    | list share items | tuple share items =>
      rw [Node.ofValue, exists_map_iff, ofValues_eq_mapM, exists_mapM_iff]
      simp [isWritable, Value.isData, Value.children]
    | set share items =>
      rw [Node.ofValue, exists_map_iff, memberNodes_eq_map, exists_orderedNodes_iff]
      simp [isWritable, Value.isData, Value.children]
    | mapping share entries =>
      rw [Node.ofValue, exists_map_iff, entryNodes_eq_map, exists_orderedNodes_iff]
      simp only [isWritable, Value.isData, Value.children, true_and, List.forall_mem_flatMap]
      simp
    | checked | foreign => simp [Node.ofValue, isWritable, Value.isData]
    | _ => simp [Node.ofValue, isWritable, Value.isData, Value.children]

end RegistryTree.Yaml
