import RegistryTree.Proofs.Yaml.Node.OfValue
import RegistryTree.Proofs.Yaml.Node.Parser
import RegistryTree.Yaml.Node.ToValue

/-!
# The values of ordinary nodes

A node that an ordinary value is written through stands for a value that agrees with it, whatever
share numbers its parts have got. Nothing is merged into its mappings, and none of them stands for a
scalar, so that looking into the tree level by level changes nothing that counts.

> `lookInto_legible`: nothing is wrong with the tree.
> `restores_written`: the value of the tree.
> `toValue_written`: both together.
-/

namespace RegistryTree.Yaml.Node

open RegistryTree.Number

/-! ## Whole numbers -/

variable {k : Int} {s : List Char}

theorem naturalOfText_toDigits {n : Nat} (h : (Nat.toDigits 10 n).length ≤ digitLimit) :
    naturalOfText (Nat.toDigits 10 n) = .ok (n : Int) := by
  have hdigits : ∀ c ∈ Nat.toDigits 10 n, c.isDigit = true := fun c hc =>
    Nat.isDigit_of_mem_toDigits (by decide) (by decide) hc
  have hread := readInteger_toDigits h
  have hzero := head?_toDigits (n := n)
  have hcolon : (Nat.toDigits 10 n).contains ':' = false := by
    refine Bool.eq_false_iff.2 fun hmem => ?_
    exact absurd (hdigits ':' (by simpa using hmem)) (by decide)
  by_cases hn : n = 0
  · rw [hn]
    rfl
  · obtain ⟨c, ds, hds⟩ := List.exists_cons_of_ne_nil (Nat.toDigits_ne_nil (b := 10) (n := n))
    rw [hds] at hread hzero hcolon ⊢
    have hne : c ≠ '0' := fun heq => hn (hzero (by rw [heq]; rfl))
    rw [naturalOfText]
    · rw [if_neg (Bool.eq_false_iff.1 hcolon), hread]
      rfl
    all_goals simp [hne]

/-- The numeral of a whole number is read as the number. -/
theorem intOfText_integerText (h : integerText? k = some s) : intOfText s = .ok k := by
  obtain ⟨hlength, hs⟩ := integerText?_eq_some_iff.1 h
  have hread := naturalOfText_toDigits hlength
  have hdigits : ∀ c ∈ Nat.toDigits 10 k.natAbs, c.isDigit = true := fun c hc =>
    Nat.isDigit_of_mem_toDigits (by decide) (by decide) hc
  have hbar : ∀ c ∈ Nat.toDigits 10 k.natAbs, c ≠ '_' := fun c hc =>
    forall_isDigit (p := fun c => c ≠ '_') (by decide) (hdigits c hc)
  have hdense : ∀ t : List Char, (∀ c ∈ t, c ≠ '_') → ungrouped t = t := fun t ht =>
    List.filter_eq_self.2 fun c hc => by simpa using ht c hc
  by_cases hneg : k < 0
  · rw [if_pos hneg] at hs
    rw [hs, intOfText, hdense _ (List.forall_mem_cons.2 ⟨by decide, hbar⟩)]
    show (naturalOfText (Nat.toDigits 10 k.natAbs)).map (- ·) = _
    rw [hread]
    exact congrArg Except.ok (show -(k.natAbs : Int) = k by omega)
  · rw [if_neg hneg] at hs
    rw [hs, intOfText, hdense _ hbar]
    obtain ⟨c, ds, hds⟩ := List.exists_cons_of_ne_nil
      (Nat.toDigits_ne_nil (b := 10) (n := k.natAbs))
    -- A digit is no sign, so without a minus the whole text is read as the number.
    have hsign := ne_sign_of_isDigit (hdigits c (by simp [hds]))
    rw [hds] at hread ⊢
    split
    next heq => cases heq
    next rest heq => cases heq; exact absurd rfl hsign.1
    next rest heq => cases heq; exact absurd rfl hsign.2
    next => rw [hread, Int.natAbs_of_nonneg (by omega)]

/-! ## Nodes that are read -/

/-- A node of scalars that are read and of plain collections, with share numbers or without. -/
inductive Legible : Node → Prop
  | scalar (share : Share) {tag : Tag} {s : List Char} {v : Value}
      (htag : tag ∈ [Tag.null, .bool, .int, .str]) (hvalue : ∀ share, valueOfText share tag s = .ok v) :
      Legible (.scalar share tag s)
  | sequence (share : Share) {items : List Node} (h : ∀ n ∈ items, Legible n) :
      Legible (.sequence share .seq items)
  | mapping (share : Share) {entries : List (Node × Node)}
      (hkeys : ∀ e ∈ entries, ∃ share s, e.1 = .scalar share .str s)
      (h : ∀ e ∈ entries, Legible e.2) : Legible (.mapping share .map entries)

variable {n : Node} {p : Progress}

theorem tag_cases {tag : Tag} (h : tag ∈ [Tag.null, .bool, .int, .str]) :
    tag = .null ∨ tag = .bool ∨ tag = .int ∨ tag = .str := by
  simpa using h

theorem legible_text (share : Share) (s : List Char) : Legible (.scalar share .str s) :=
  .scalar share (by decide) fun _ => rfl

theorem Legible.tag_ne_value (h : Legible n) : n.tag ≠ .value := by
  cases h with
  | scalar share htag hvalue => rintro rfl; simp at htag
  | sequence share h => simp [tag]
  | mapping share hkeys h => simp [tag]

/-- A node that is met leaves everything as it is. -/
theorem meet_legible (h : Legible n) (hknown : p.known = []) : (meet n).run p = .ok ((), p) := by
  have htag : p.tagOf n = n.tag := by rw [Progress.tagOf, if_neg (by simp [h.tag_ne_value])]
  have hnone : n.isAmong (p.known.map (·.1)) = false := by
    rw [hknown]
    cases hs : n.share <;> simp [isAmong, hs]
  show (if (isCollectionTag (p.tagOf n) || n.isAmong (p.known.map (·.1))) = true then
    (pure () : Reading Unit) else _).run p = _
  rw [htag, hnone, Bool.or_false]
  cases h with
  | @scalar share tag s v hscalar hvalue =>
    have hread : scalarValue p (.scalar share tag s) = .ok v := by
      rw [scalarValue, htag, ← hvalue share]
      rcases tag_cases hscalar with rfl | rfl | rfl | rfl <;> rfl
    have hplain : ¬isCollectionTag tag = true := by
      rcases tag_cases hscalar with rfl | rfl | rfl | rfl <;> decide
    rw [Node.tag, if_neg hplain, StateT.run_bind, hread]
    rfl
  | sequence share h => rfl
  | mapping share hkeys h => rfl

/-- Nodes that leave everything as it is are met one after the other. -/
theorem forM_run {α : Type} {f : α → Reading Unit} {xs : List α}
    (h : ∀ x ∈ xs, (f x).run p = .ok ((), p)) : (xs.forM f).run p = .ok ((), p) := by
  induction xs with
  | nil => rfl
  | cons x xs ih =>
    rw [List.forall_mem_cons] at h
    show (f x >>= fun _ => xs.forM f).run p = _
    rw [StateT.run_bind, h.1]
    exact ih h.2

theorem meetKey_text (share : Share) (s : List Char) (hknown : p.known = []) :
    (meetKey (.scalar share .str s)).run p = .ok ((), p) := by
  rw [meetKey, StateT.run_bind, meet_legible (legible_text share s) hknown]
  rfl

/-- Where no key merges, a mapping has just its own entries. -/
theorem flatEntries_texts {entries : List (Node × Node)} (fuel : Nat)
    (hkeys : ∀ e ∈ entries, ∃ share s, e.1 = .scalar share .str s) :
    flatEntries (fuel + 1) entries = .ok entries := by
  have htag : ∀ e ∈ entries, e.1.tag = .str := by
    intro e he
    obtain ⟨share, s, hs⟩ := hkeys e he
    rw [hs, tag]
  have hnone : entries.filter (fun e => e.1.tag = .merge) = [] :=
    List.filter_eq_nil_iff.2 fun e he => by simp [htag e he]
  have hall : entries.filter (fun e => e.1.tag ≠ .merge) = entries :=
    List.filter_eq_self.2 fun e he => by simp [htag e he]
  rw [flatEntries, hnone, hall]
  rfl

theorem allEntries_texts {entries : List (Node × Node)} (share : Share)
    (hkeys : ∀ e ∈ entries, ∃ share s, e.1 = .scalar share .str s) :
    allEntries (.mapping share .map entries) = .ok entries := flatEntries_texts _ hkeys

/-- The parts of a legible collection are legible, and nothing gets known by them. -/
theorem parts_legible (h : Legible n) (hcollection : isCollectionTag n.tag = true)
    (hknown : p.known = []) :
    ∃ below p', (parts n).run p = .ok (below, p') ∧ p'.known = [] ∧ ∀ m ∈ below, Legible m := by
  cases h with
  | scalar share htag hvalue =>
    rcases tag_cases htag with rfl | rfl | rfl | rfl <;> cases hcollection
  | @sequence share items h =>
    refine ⟨items, p, ?_, hknown, h⟩
    show (do items.forM meet; return items : Reading (List Node)).run p = _
    rw [StateT.run_bind, forM_run fun m hm => meet_legible (h m hm) hknown]
    rfl
  | @mapping share entries hkeys h =>
    obtain ⟨p', hcomplete, hknown'⟩ : ∃ p', (completeMapping (.mapping share .map entries)).run p =
        .ok (entries, p') ∧ p'.known = [] := by
      refine ⟨{ p with
        complete := mergedShares (2 * (Node.mapping share .map entries).depth + 2)
          (.mapping share .map entries) ++ p.complete
        texts := ((entries.filter fun e => e.1.tag = .value).flatMap fun e => e.1.share.toList) ++
          p.texts }, ?_, hknown⟩
      rw [completeMapping, StateT.run_bind, allEntries_texts share hkeys]
      rfl
    -- No key is merged in and none is a value of its own, so meeting the entries leaves the places
    -- as they are.
    have hmeet : ∀ e ∈ entries, (do meetKey e.1; meet e.2 : Reading Unit).run p' = .ok ((), p') := by
      intro e he
      obtain ⟨share, s, hs⟩ := hkeys e he
      rw [StateT.run_bind, hs, meetKey_text share s hknown']
      exact meet_legible (h e he) hknown'
    refine ⟨entries.map (·.2), p', ?_, hknown', List.forall_mem_map.2 h⟩
    show (do
      let entries ← completeMapping (.mapping share .map entries)
      entries.forM fun e => do
        meetKey e.1
        meet e.2
      return entries.map (·.2) : Reading (List Node)).run p = _
    rw [StateT.run_bind, hcomplete]
    show (do
      entries.forM fun e => do
        meetKey e.1
        meet e.2
      return entries.map (·.2) : Reading (List Node)).run p' = _
    rw [StateT.run_bind, forM_run hmeet]
    rfl

/-- The parts of several collections. -/
theorem mapM_parts_legible {nodes : List Node}
    (h : ∀ n ∈ nodes, Legible n ∧ isCollectionTag n.tag = true) (hknown : p.known = []) :
    ∃ below p', (nodes.mapM parts).run p = .ok (below, p') ∧ p'.known = [] ∧
      ∀ ms ∈ below, ∀ m ∈ ms, Legible m := by
  induction nodes generalizing p with
  | nil => exact ⟨[], p, rfl, hknown, by simp⟩
  | cons n nodes ih =>
    rw [List.forall_mem_cons] at h
    obtain ⟨ms, p₁, hparts, hknown₁, hms⟩ := parts_legible h.1.1 h.1.2 hknown
    obtain ⟨below, p₂, hrest, hknown₂, hbelow⟩ := ih h.2 hknown₁
    refine ⟨ms :: below, p₂, ?_, hknown₂, List.forall_mem_cons.2 ⟨hms, hbelow⟩⟩
    rw [List.mapM_cons, StateT.run_bind, hparts]
    show (do let more ← nodes.mapM parts; return ms :: more : Reading (List (List Node))).run p₁ = _
    rw [StateT.run_bind, hrest]
    rfl

/-- Nothing is wrong with a legible tree, level by level. -/
theorem lookInto_legible (fuel : Nat) {nodes : List Node} (h : ∀ n ∈ nodes, Legible n)
    (hknown : p.known = []) : ∃ p', (lookInto fuel nodes).run p = .ok ((), p') := by
  induction fuel generalizing nodes p with
  | zero => exact ⟨p, rfl⟩
  | succ fuel ih =>
    rw [lookInto]
    split
    next => exact ⟨p, rfl⟩
    next hcollections =>
      have hall : ∀ n ∈ nodes.filter fun n => isCollectionTag n.tag,
          Legible n ∧ isCollectionTag n.tag = true := fun n hn =>
        ⟨h n (List.mem_of_mem_filter hn), (List.mem_filter.1 hn).2⟩
      obtain ⟨below, p', hparts, hknown', hbelow⟩ := mapM_parts_legible hall hknown
      rw [StateT.run_bind, hparts]
      refine ih ?_ hknown'
      intro m hm
      obtain ⟨ms, hms, hm⟩ := List.mem_flatten.1 hm
      exact hbelow ms hms m hm

/-! ## Values -/

variable {m : Node} {tag : Tag} {known : List (Nat × Value)} {fuel : Nat}

theorem exists_of_unshared_scalar (h : m.unshared = .scalar none tag s) :
    ∃ share, m = .scalar share tag s := by
  cases m with
  | scalar share tag s => rw [unshared] at h; cases h; exact ⟨share, rfl⟩
  | _ => rw [unshared] at h; cases h

theorem exists_of_unshared_sequence {nodes : List Node} (h : m.unshared = .sequence none tag nodes) :
    ∃ share ms, m = .sequence share tag ms ∧ ms.map unshared = nodes := by
  cases m with
  | sequence share tag ms =>
    rw [unshared, unsharedItems_eq_map] at h
    cases h
    exact ⟨share, ms, rfl, rfl⟩
  | _ => rw [unshared] at h; cases h

theorem exists_of_unshared_mapping {nodes : List (Node × Node)}
    (h : m.unshared = .mapping none tag nodes) :
    ∃ share es, m = .mapping share tag es ∧ es.map (fun e => (e.1.unshared, e.2.unshared)) = nodes := by
  cases m with
  | mapping share tag es =>
    rw [unshared, unsharedEntries_eq_map] at h
    cases h
    exact ⟨share, es, rfl, rfl⟩
  | _ => rw [unshared] at h; cases h

theorem depth_le_depthItems {items : List Node} (h : n ∈ items) : n.depth ≤ depthItems items := by
  induction items with
  | nil => cases h
  | cons m items ih =>
    rw [depthItems]
    rcases List.mem_cons.1 h with rfl | h
    · exact Nat.le_max_left ..
    · exact (ih h).trans (Nat.le_max_right ..)

theorem depth_le_depthEntries {entries : List (Node × Node)} {e : Node × Node} (h : e ∈ entries) :
    e.1.depth ≤ depthEntries entries ∧ e.2.depth ≤ depthEntries entries := by
  induction entries with
  | nil => cases h
  | cons d entries ih =>
    obtain ⟨k, v⟩ := d
    rw [depthEntries]
    rcases List.mem_cons.1 h with rfl | h
    · dsimp only
      omega
    · have := ih h
      omega

/-- What is to be shown of a value and a node that it is written through, up to share numbers. -/
def Restores (v : Value) (m : Node) : Prop :=
  m.Legible ∧ ∀ known fuel, m.depth ≤ fuel → ∃ v', build known fuel m = .ok v' ∧ v.agrees v' = true

/-- A scalar is read whatever its share number. -/
theorem restores_scalar {v : Value} (htag : tag ∈ [Tag.null, .bool, .int, .str])
    (hvalue : ∀ share, valueOfText share tag s = .ok v) (hagrees : v.agrees v = true) (share : Share) :
    Restores v (.scalar share tag s) := by
  refine ⟨.scalar share htag hvalue, fun known fuel hfuel => ⟨v, ?_, hagrees⟩⟩
  rw [depth] at hfuel
  obtain ⟨fuel, rfl⟩ : ∃ l, fuel = l + 1 := ⟨fuel - 1, by omega⟩
  rw [← hvalue share]
  rcases tag_cases htag with rfl | rfl | rfl | rfl <;> rfl

theorem build_text (share : Share) (s : String) (hfuel : 0 < fuel) :
    build known fuel (.scalar share .str s.toList) = .ok (.text s) := by
  obtain ⟨fuel, rfl⟩ : ∃ l, fuel = l + 1 := ⟨fuel - 1, by omega⟩
  show valueOfText share .str s.toList = _
  rw [valueOfText, String.ofList_toList]

/-- A list is restored when each of its items is. -/
theorem restores_list {share : Share} {items : List Value}
    (hitems : ∀ v ∈ items, ∀ m : Node, Node.ofValue (rebuilt v) = .ok m.unshared → Restores v m)
    (hm : Node.ofValue (rebuilt (.list share items)) = .ok m.unshared) :
    Restores (.list share items) m := by
  rw [rebuilt, Node.ofValue, ofValues_rebuiltItems] at hm
  obtain ⟨nodes, hnodes, hm⟩ := map_eq_ok_iff.1 hm
  obtain ⟨share', ms, rfl, rfl⟩ := exists_of_unshared_sequence hm.symm
  have hall := List.forall₂_map_right_iff.1 (mapM_eq_ok_iff.1 hnodes)
  have hlegible : ∀ m ∈ ms, Legible m := by
    intro m hm
    obtain ⟨v, hv, hvm⟩ := mem_of_forall₂ hall hm
    exact (hitems v hv m hvm).1
  refine ⟨.sequence share' hlegible, fun known fuel hfuel => ?_⟩
  rw [depth] at hfuel
  obtain ⟨fuel, rfl⟩ : ∃ l, fuel = l + 1 := ⟨fuel - 1, by omega⟩
  obtain ⟨vs, hvs, hagrees⟩ := exists_mapM_of_forall₂ (f := build known fuel) hall
    fun v hv m hm hvm => (hitems v hv m hvm).2 known fuel
      ((depth_le_depthItems hm).trans (by omega))
  exact ⟨.list share' vs, bind_eq_ok_iff.2 ⟨vs, hvs, rfl⟩, Value.agrees_list hagrees⟩

/-- The nodes of an entry are those of its key and of a value that is restored. -/
theorem restores_entry {x : Value × Value} {e : Node × Node} (hkey : ∃ s, x.1 = .text s)
    (hvalue : ∀ m : Node, Node.ofValue (rebuilt x.2) = .ok m.unshared → Restores x.2 m)
    (h : EntryNodes x (e.1.unshared, e.2.unshared)) :
    (∃ share s, x.1 = .text s ∧ e.1 = .scalar share .str s.toList) ∧ Restores x.2 e.2 := by
  obtain ⟨s, hs⟩ := hkey
  obtain ⟨hnode, hnode'⟩ := h
  rw [hs] at hnode
  obtain ⟨share, hshare⟩ := exists_of_unshared_scalar (Except.ok.inj hnode).symm
  exact ⟨⟨share, s, hs, hshare⟩, hvalue _ hnode'⟩

/-- What is built of the nodes of an entry. -/
theorem build_entry (known : List (Nat × Value)) (fuel : Nat) {x : Value × Value} {e : Node × Node}
    (h : (∃ share s, x.1 = .text s ∧ e.1 = .scalar share .str s.toList) ∧ Restores x.2 e.2)
    (hdepth : e.1.depth ≤ fuel ∧ e.2.depth ≤ fuel) :
    ∃ y, (do return (← build known fuel e.1, ← build known fuel e.2) :
      Except Fault (Value × Value)) = .ok y ∧ x.1 = y.1 ∧ x.2.agrees y.2 = true := by
  obtain ⟨⟨share, s, hkey, hs⟩, hrestores⟩ := h
  obtain ⟨v', hv', hagrees⟩ := hrestores.2 known fuel hdepth.2
  rw [hs, depth] at hdepth
  refine ⟨(.text s, v'), ?_, hkey, hagrees⟩
  rw [hs, build_text share s (by omega), hv']
  rfl

/-- A mapping is restored when the values of its entries are: it has the order of what is written,
and no key stands for two entries. -/
theorem restores_mapping {share : Share} {entries : Entries}
    (hkeys : ∀ e ∈ entries, ∃ s, e.1 = .text s) (hdistinct : (entries.map (·.1)).Nodup)
    (hvalues : ∀ e ∈ entries, ∀ m : Node, Node.ofValue (rebuilt e.2) = .ok m.unshared →
      Restores e.2 m)
    (hm : Node.ofValue (rebuilt (.mapping share entries)) = .ok m.unshared) :
    Restores (.mapping share entries) m := by
  rw [rebuilt, Node.ofValue] at hm
  obtain ⟨nodes, hnodes, hm⟩ := map_eq_ok_iff.1 hm
  obtain ⟨share', es, rfl, rfl⟩ := exists_of_unshared_mapping hm.symm
  obtain ⟨sorted, hperm, hall⟩ := orderedNodes_perm hnodes
  rw [List.forall₂_map_right_iff] at hall
  have hentry : ∀ x ∈ sorted, ∀ e ∈ es, EntryNodes x (e.1.unshared, e.2.unshared) →
      (∃ share s, x.1 = .text s ∧ e.1 = .scalar share .str s.toList) ∧ Restores x.2 e.2 :=
    fun x hx e _ hnode =>
      restores_entry (hkeys x (hperm.mem_iff.1 hx)) (hvalues x (hperm.mem_iff.1 hx)) hnode
  have hread : ∀ e ∈ es, (∃ share s, e.1 = .scalar share .str s) ∧ Legible e.2 := by
    intro e he
    obtain ⟨x, hx, hnode⟩ := mem_of_forall₂ hall he
    obtain ⟨⟨share, s, -, hs⟩, hrestores⟩ := hentry x hx e he hnode
    exact ⟨⟨share, s.toList, hs⟩, hrestores.1⟩
  have htexts : ∀ e ∈ es, ∃ share s, e.1 = .scalar share .str s := fun e he => (hread e he).1
  refine ⟨.mapping share' htexts fun e he => (hread e he).2, fun known fuel hfuel => ?_⟩
  rw [depth] at hfuel
  obtain ⟨fuel, rfl⟩ : ∃ l, fuel = l + 1 := ⟨fuel - 1, by omega⟩
  obtain ⟨ys, hys, hagrees⟩ := exists_mapM_of_forall₂ (Q := fun x y : Value × Value =>
    x.1 = y.1 ∧ x.2.agrees y.2 = true) hall fun x hx e he hnode => by
      have hdepth := depth_le_depthEntries he
      exact build_entry known fuel (hentry x hx e he hnode) ⟨by omega, by omega⟩
  -- No two keys are the same, so none of the entries takes the place of another.
  have hlist : Entries.ofList ys = ys := by
    have hsame := Value.keys_perm hperm hagrees
    refine Value.ofList_of_distinct (fun y hy => ?_) (hsame.nodup_iff.2 hdistinct)
    obtain ⟨x, hx, heq⟩ := List.mem_map.1 (hsame.mem_iff.1 (List.mem_map_of_mem hy))
    rw [← heq]
    exact hkeys x hx
  refine ⟨.mapping share' ys, bind_eq_ok_iff.2 ⟨es, allEntries_texts share' htexts,
    bind_eq_ok_iff.2 ⟨ys, hys, ?_⟩⟩, Value.agrees_mapping hperm hkeys hdistinct hagrees⟩
  rw [hlist]
  rfl

/-- A node that an ordinary value is written through stands for a value that agrees with it. -/
theorem restores_written {v : Value} (h : v.Ordinary)
    (hm : Node.ofValue (rebuilt v) = .ok m.unshared) : Restores v m := by
  induction h generalizing m with
  | null =>
    obtain ⟨share, rfl⟩ := exists_of_unshared_scalar (Except.ok.inj hm).symm
    exact restores_scalar (by decide) (fun _ => rfl) rfl share
  | bool b =>
    obtain ⟨share, rfl⟩ := exists_of_unshared_scalar (Except.ok.inj hm).symm
    exact restores_scalar (by decide) (fun _ => by cases b <;> rfl) (by simp [Value.agrees]) share
  | int k =>
    cases hs : integerText? k with
    | none =>
      rw [rebuilt, Node.ofValue, hs] at hm
      · cases hm
      all_goals simp
    | some s =>
      have hnode : Node.ofValue (rebuilt (.int k)) = .ok (.scalar none .int s) := by
        rw [rebuilt, Node.ofValue, hs]
        all_goals simp
      obtain ⟨share, rfl⟩ := exists_of_unshared_scalar (Except.ok.inj (hnode.symm.trans hm)).symm
      refine restores_scalar (by decide) (fun _ => ?_) (by simp [Value.agrees]) share
      rw [valueOfText, intOfText_integerText hs]
      rfl
  | text s =>
    obtain ⟨share, rfl⟩ := exists_of_unshared_scalar (Except.ok.inj hm).symm
    exact restores_scalar (by decide) (fun _ => by rw [valueOfText, String.ofList_toList])
      (by simp [Value.agrees]) share
  | list share h ih => exact restores_list (fun v hv m hvm => ih v hv hvm) hm
  | mapping share hkeys hdistinct h ih =>
    exact restores_mapping hkeys hdistinct (fun e he m hem => ih e he hem) hm

/-- The tree that an ordinary value is written through is read without a fault. -/
theorem toValue_written {v : Value} (h : v.Ordinary)
    (hm : Node.ofValue (rebuilt v) = .ok m.unshared) :
    ∃ v', m.toValue = .ok v' ∧ v.agrees v' = true := by
  obtain ⟨hlegible, hbuild⟩ := restores_written h hm
  have hroot : ∀ n ∈ [m], Legible n := by simpa using hlegible
  obtain ⟨p, hlook⟩ := lookInto_legible (m.depth + 1) hroot (p := {}) rfl
  obtain ⟨v', hv', hagrees⟩ := hbuild p.known (m.depth + 1) (Nat.le_succ _)
  refine ⟨v', ?_, hagrees⟩
  have hlevels : (do meet m; lookInto (m.depth + 1) [m] : Reading Unit).run {} = .ok ((), p) := by
    rw [StateT.run_bind, meet_legible hlegible rfl]
    exact hlook
  rw [toValue, hlevels]
  exact hv'

end RegistryTree.Yaml.Node
