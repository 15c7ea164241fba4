import Mathlib.Data.List.Perm.Basic
import RegistryTree.Value.Order

/-!
# Sorting keys

Among scalars the order of keys is a strict one: of two scalars that have an order only one comes
before the other, and what comes before something comes before all that comes behind that. So keys
of which any two have an order can be put into ascending order in one way only, and sorting finds it
from whatever order they had.

> `Before.less?_eq`, `Before.trans`: the order of scalars is strict.
> `exists_sortByKey?`: comparable keys are put into ascending order.
> `sortByKey?_eq_of_perm`: there is one such order.
-/

namespace RegistryTree.Value

/-- One value comes before another. -/
def Before (a b : Value) : Prop := less? a b = some true

instance (a b : Value) : Decidable (Before a b) := inferInstanceAs (Decidable (less? a b = some true))

/-! ## The order of scalars -/

/-- Whether a value has no parts. -/
def isScalar : Value → Bool
  | null | bool _ | int _ | float _ | text _ | bytes _ | date .. | moment .. => true
  | _ => false

/-- How two scalars are compared, and whether the first comes before the second. -/
inductive Compared : Value → Value → Bool → Prop
  | text (s t : String) : Compared (text s) (text t) (s < t)
  | bytes (s t : List UInt8) : Compared (bytes s) (bytes t) (s < t)
  | date (p q : Share) (s t : Date) : Compared (date p s) (date q t) (s.ordinal < t.ordinal)
  | moment (p q : Share) (s t : Moment) (h : s.offset.isSome = t.offset.isSome) :
    Compared (moment p s) (moment q t) (s.instant < t.instant)
  | number {a b : Value} {x y : Magnitude} (ha : a.magnitude? = some x) (hb : b.magnitude? = some y) :
    Compared a b (x.less y)

variable {a b c : Value} {r : Bool}

theorem compared_of_less? (ha : a.isScalar = true) (h : less? a b = some r) : Compared a b r := by
  unfold less? at h
  split at h
  next s t => cases h; exact .text s t
  next s t => cases h; exact .bytes s t
  next p s q t => cases h; exact .date p q s t
  next p s q t =>
    split at h
    next hoffset => cases h; exact .moment p q s t (by simpa using hoffset)
    next => cases h
  next => cases ha
  next => cases ha
  next =>
    cases hx : a.magnitude? with
    | none => simp [hx] at h
    | some x =>
      cases hy : b.magnitude? with
      | none => simp [hx, hy] at h
      | some y =>
        simp only [hx, hy, Option.bind_eq_bind, Option.bind_some, Option.pure_def,
          Option.some.injEq] at h
        subst h
        exact .number hx hy

theorem less?_of_magnitude {x y : Magnitude} (ha : a.magnitude? = some x)
    (hb : b.magnitude? = some y) : less? a b = some (x.less y) := by
  cases a <;> cases b <;> simp_all [less?, magnitude?]

theorem Magnitude.less_asymm {x y : Magnitude} (h : x.less y = true) : y.less x = false := by
  cases x <;> cases y <;> simp_all [Magnitude.less]
  all_goals omega

theorem Magnitude.less_trans {x y z : Magnitude} (h : x.less y = true) (h' : y.less z = true) :
    x.less z = true := by
  cases x <;> cases y <;> cases z <;> simp_all [Magnitude.less]
  all_goals omega

/-- Of two scalars that have an order only one comes before the other. -/
theorem Before.less?_eq (h : Before a b) (ha : a.isScalar = true) : less? b a = some false := by
  obtain ⟨r, hr, h⟩ : ∃ r, true = r ∧ less? a b = some r := ⟨_, rfl, h⟩
  cases compared_of_less? ha h with
  | text s t =>
    have hst := of_decide_eq_true hr.symm
    simp [less?, String.lt_asymm hst]
  | bytes s t =>
    have hst := of_decide_eq_true hr.symm
    simp [less?, List.lt_asymm hst]
  | date p q s t =>
    have hst := of_decide_eq_true hr.symm
    simp [less?, Nat.le_of_lt hst]
  | moment p q s t hoffset =>
    have hst := of_decide_eq_true hr.symm
    simp [less?, hoffset, Int.le_of_lt hst]
  | number hx hy => rw [less?_of_magnitude hy hx, Magnitude.less_asymm hr.symm]

theorem Before.asymm (h : Before a b) (ha : a.isScalar = true) : ¬Before b a := by
  intro h'
  rw [Before, h.less?_eq ha] at h'
  cases h'

/-- What comes before a scalar comes before all that comes behind it. -/
theorem Before.trans (h : Before a b) (h' : Before b c) (ha : a.isScalar = true)
    (hb : b.isScalar = true) : Before a c := by
  unfold Before
  obtain ⟨r, hr, h⟩ : ∃ r, true = r ∧ less? a b = some r := ⟨_, rfl, h⟩
  obtain ⟨r', hr', h'⟩ : ∃ r', true = r' ∧ less? b c = some r' := ⟨_, rfl, h'⟩
  -- Two scalars that come one before the other are of one sort, so the middle one settles the sort
  -- of all three.
  cases compared_of_less? ha h with
  | text s t =>
    cases compared_of_less? hb h' with
    | text _ u =>
      have hsu := String.lt_trans (of_decide_eq_true hr.symm) (of_decide_eq_true hr'.symm)
      rw [less?, decide_eq_true hsu]
    | number hx => cases hx
  | bytes s t =>
    cases compared_of_less? hb h' with
    | bytes _ u =>
      have hsu := List.lt_trans (of_decide_eq_true hr.symm) (of_decide_eq_true hr'.symm)
      rw [less?, decide_eq_true hsu]
    | number hx => cases hx
  | date p q s t =>
    cases compared_of_less? hb h' with
    | date _ _ _ u =>
      have hsu := Nat.lt_trans (of_decide_eq_true hr.symm) (of_decide_eq_true hr'.symm)
      rw [less?, decide_eq_true hsu]
    | number hx => cases hx
  | moment p q s t hoffset =>
    cases compared_of_less? hb h' with
    | moment _ _ _ u hoffset' =>
      have hsu := Int.lt_trans (of_decide_eq_true hr.symm) (of_decide_eq_true hr'.symm)
      rw [less?, hoffset, hoffset', if_pos (by simp), decide_eq_true hsu]
    | number hx => cases hx
  | number hx hy =>
    cases compared_of_less? hb h' with
    | number hy' hz =>
      rw [hy] at hy'
      cases hy'
      rw [less?_of_magnitude hx hz, Magnitude.less_trans hr.symm hr'.symm]
    | _ => cases hy

/-! ## Sorted entries -/

section

variable {α : Type}

/-- Keys are scalars of which any two have an order. -/
structure Comparable (keys : List Value) : Prop where
  scalar : ∀ k ∈ keys, k.isScalar = true
  pairwise : keys.Pairwise fun a b => Before a b ∨ Before b a

instance (keys : List Value) : Decidable (Comparable keys) :=
  decidable_of_iff ((∀ k ∈ keys, k.isScalar = true) ∧ keys.Pairwise fun a b => Before a b ∨ Before b a)
    ⟨fun h => ⟨h.1, h.2⟩, fun h => ⟨h.scalar, h.pairwise⟩⟩

/-- Entries stand in ascending order of their keys. -/
def Ascending (entries : List (Value × α)) : Prop := entries.Pairwise fun e d => Before e.1 d.1

namespace Comparable

variable {keys others : List Value}

theorem of_perm (h : Comparable keys) (hperm : keys.Perm others) : Comparable others where
  scalar k hk := h.scalar k (hperm.mem_iff.2 hk)
  pairwise := (hperm.pairwise_iff fun hab => hab.symm).1 h.pairwise

theorem of_sublist (h : Comparable keys) (hsub : others.Sublist keys) : Comparable others where
  scalar k hk := h.scalar k (hsub.subset hk)
  pairwise := h.pairwise.sublist hsub

theorem tail {k : Value} (h : Comparable (k :: keys)) : Comparable keys :=
  h.of_sublist (List.sublist_cons_self ..)

theorem head {k l : Value} (h : Comparable (k :: keys)) (hl : l ∈ keys) : Before k l ∨ Before l k :=
  List.rel_of_pairwise_cons h.pairwise hl

end Comparable

/-- A key goes on with a run up or with a run down. -/
def Onward (down : Bool) (a b : Value) : Prop := if down then Before b a else Before a b

theorem exists_onward (h : Before a b ∨ Before b a) (ha : a.isScalar = true) :
    ∃ down, less? b a = some down ∧ Onward down a b := by
  rcases h with h | h
  · exact ⟨false, h.less?_eq ha, h⟩
  · exact ⟨true, h, h⟩

theorem Onward.trans {down : Bool} (h : Onward down a b) (h' : Onward down b c)
    (ha : a.isScalar = true) (hb : b.isScalar = true) (hc : c.isScalar = true) :
    Onward down a c := by
  cases down with
  | false => exact Before.trans h h' ha hb
  | true => exact Before.trans h' h hc hb

/-- A run goes on to where the keys turn. -/
theorem exists_runFrom? (down : Bool) {entries : List (Value × α)} {d : Value × α}
    (h : Comparable ((d :: entries).map Prod.fst)) :
    ∃ run left, runFrom? down d.1 entries = some (run, left) ∧
      (d :: run).Pairwise fun e f => Onward down e.1 f.1 := by
  induction entries generalizing d with
  | nil => exact ⟨[], [], rfl, List.pairwise_singleton ..⟩
  | cons e rest ih =>
    obtain ⟨run, left, hrun, hsorted⟩ := ih h.tail
    have hd := h.scalar d.1 (by simp)
    have he := h.scalar e.1 (by simp)
    obtain ⟨turn, hless, honward⟩ :=
      exists_onward (h.head (List.mem_cons_self ..)) hd
    -- The run goes on as it began, or ends where the next key turns.
    by_cases hturn : turn = down
    · subst hturn
      refine ⟨e :: run, left, by simp [runFrom?, hless, hrun], List.pairwise_cons.2 ⟨?_, hsorted⟩⟩
      intro f hf
      rcases List.mem_cons.1 hf with rfl | hf
      · exact honward
      · have hmem : f ∈ e :: rest := by
          rw [← runFrom?_append hrun]
          simp [hf]
        exact honward.trans (List.rel_of_pairwise_cons hsorted hf) hd he
          (h.tail.scalar f.1 (List.mem_map_of_mem hmem))
    · exact ⟨[], e :: rest, by simp [runFrom?, hless, hturn], List.pairwise_singleton ..⟩

/-- The run that comparable entries begin with is ascending. -/
theorem exists_firstRun? {entries : List (Value × α)} (h : Comparable (entries.map Prod.fst)) :
    ∃ run left, firstRun? entries = some (run, left) ∧ Ascending run := by
  unfold firstRun?
  split
  next e f rest =>
    obtain ⟨down, hless, honward⟩ :=
      exists_onward (h.head (List.mem_cons_self ..)) (h.scalar e.1 (by simp))
    -- the second entry goes on with the run, whichever way that is
    obtain ⟨run, left, hrun, hsorted⟩ := exists_runFrom? down h
    rw [runFrom?, hless] at hrun
    cases hmore : runFrom? down f.1 rest with
    | none => simp [hmore] at hrun
    | some r =>
      simp only [hmore, Option.bind_eq_bind, Option.bind_some, if_pos, Option.pure_def,
        Option.some.injEq, Prod.mk.injEq] at hrun
      obtain ⟨rfl, rfl⟩ := hrun
      refine ⟨_, _, by rw [hless, Option.bind_eq_bind, Option.bind_some, hmore]; rfl, ?_⟩
      cases down with
      | false => exact hsorted
      | true => exact List.pairwise_reverse.2 hsorted
  next hshort =>
    refine ⟨entries, [], rfl, ?_⟩
    cases entries with
    | nil => exact List.Pairwise.nil
    | cons e rest =>
      cases rest with
      | nil => exact List.pairwise_singleton ..
      | cons f rest => exact absurd rfl (hshort e f rest)

/-- Ascending entries are those before, at and behind a place. -/
theorem Ascending.at {sorted : List (Value × α)} (h : Ascending sorted) {n : Nat} {e : Value × α}
    (he : sorted[n]? = some e) : (∀ d ∈ sorted.take n, Before d.1 e.1) ∧
      ∀ d ∈ sorted.drop (n + 1), Before e.1 d.1 := by
  obtain ⟨hlt, rfl⟩ := List.getElem?_eq_some_iff.1 he
  rw [Ascending, ← List.take_append_drop n sorted, List.drop_eq_getElem_cons hlt,
    List.pairwise_append, List.pairwise_cons] at h
  exact ⟨fun d hd => h.2.2 d hd _ (List.mem_cons_self ..), h.2.1.1⟩

/-- Halving finds the place of a key: what stands before it comes before the key, and what stands
behind it comes behind. -/
theorem exists_place? {key : Value} {sorted : List (Value × α)} (low high : Nat)
    (h : Comparable (key :: sorted.map Prod.fst)) (hsorted : Ascending sorted)
    (hlow : ∀ e ∈ sorted.take low, Before e.1 key) (hhigh : ∀ e ∈ sorted.drop high, Before key e.1)
    (hle : low ≤ high) (hlength : high ≤ sorted.length) :
    ∃ n, place? key sorted low high = some n ∧ (∀ e ∈ sorted.take n, Before e.1 key) ∧
      ∀ e ∈ sorted.drop n, Before key e.1 := by
  have hkey := h.scalar key (List.mem_cons_self ..)
  have hscalar : ∀ e ∈ sorted, e.1.isScalar = true := fun e he =>
    h.tail.scalar e.1 (List.mem_map_of_mem he)
  fun_induction place? key sorted low high with
  | case1 low high hlt middle hnone =>
    rw [List.getElem?_eq_none_iff] at hnone
    omega
  | case2 low high hlt middle e he hless =>
    have hmem := List.mem_of_getElem? he
    obtain ⟨r, hr, -⟩ := exists_onward (h.head (List.mem_map_of_mem hmem)).symm (hscalar e hmem)
    rw [hless] at hr
    cases hr
  -- The middle one comes behind the key, and with it all that stands behind the middle.
  | case3 low high hlt middle e he hless ih =>
    refine ih hlow (fun d hd => ?_) (by omega) (by omega)
    obtain ⟨hmiddle, rfl⟩ := List.getElem?_eq_some_iff.1 he
    rw [List.drop_eq_getElem_cons hmiddle] at hd
    rcases List.mem_cons.1 hd with rfl | hd
    · exact hless
    · exact Before.trans hless ((hsorted.at he).2 d hd) hkey (hscalar _ (List.getElem_mem hmiddle))
  -- Now the middle one comes before the key, for keys that are compared are not the same.
  | case4 low high hlt middle e he hless ih =>
    refine ih (fun d hd => ?_) hhigh (by omega) (by omega)
    have hmem := List.mem_of_getElem? he
    have hbefore : Before e.1 key := (h.head (List.mem_map_of_mem hmem)).resolve_left fun hkey => by
      rw [hkey] at hless
      cases hless
    obtain ⟨hmiddle, rfl⟩ := List.getElem?_eq_some_iff.1 he
    rw [List.take_add_one, he, List.mem_append] at hd
    rcases hd with hd | hd
    · exact ((hsorted.at he).1 d hd).trans hbefore (hscalar d (List.mem_of_mem_take hd))
        (hscalar _ hmem)
    · obtain rfl : d = sorted[middle] := by simpa using hd
      exact hbefore
  | case5 low high hge =>
    obtain rfl : low = high := by omega
    exact ⟨low, rfl, hlow, hhigh⟩

/-- An entry is put into ascending entries so that they stay so. -/
theorem exists_insertSorted? {e : Value × α} {sorted : List (Value × α)}
    (h : Comparable ((e :: sorted).map Prod.fst)) (hsorted : Ascending sorted) :
    ∃ more, insertSorted? e sorted = some more ∧ Ascending more := by
  obtain ⟨n, hn, hfront, hback⟩ := exists_place? 0 sorted.length h hsorted (by simp) (by simp)
    (Nat.zero_le _) (Nat.le_refl _)
  refine ⟨sorted.take n ++ e :: sorted.drop n, by rw [insertSorted?, hn]; rfl, ?_⟩
  rw [Ascending, ← List.take_append_drop n sorted, List.pairwise_append] at hsorted
  rw [Ascending, List.pairwise_append, List.pairwise_cons]
  refine ⟨hsorted.1, ⟨hback, hsorted.2.1⟩, fun d hd f hf => ?_⟩
  rcases List.mem_cons.1 hf with rfl | hf
  · exact hfront d hd
  · exact hsorted.2.2 d hd f hf

/-- Comparable keys are put into ascending order. -/
theorem exists_sortByKey? {entries : List (Value × α)} (h : Comparable (entries.map Prod.fst)) :
    ∃ sorted, sortByKey? entries = some sorted ∧ Ascending sorted := by
  suffices hfold : ∀ left run : List (Value × α), Comparable ((run ++ left).map Prod.fst) →
      Ascending run → ∃ sorted, left.foldlM (fun sorted e => insertSorted? e sorted) run = some sorted ∧
        Ascending sorted by
    obtain ⟨run, left, hrun, hsorted⟩ := exists_firstRun? h
    rw [sortByKey?, hrun]
    exact hfold left run (h.of_perm ((firstRun?_perm hrun).symm.map _)) hsorted
  intro left
  induction left with
  | nil => exact fun run _ hsorted => ⟨run, rfl, hsorted⟩
  | cons e left ih =>
    intro run h hsorted
    have hnext : Comparable ((e :: run ++ left).map Prod.fst) := h.of_perm (List.perm_middle.map _)
    obtain ⟨more, hmore, hsorted'⟩ := exists_insertSorted?
      (hnext.of_sublist ((List.sublist_append_left ..).map _)) hsorted
    rw [List.foldlM_cons, hmore]
    exact ih more (hnext.of_perm (((insertSorted?_perm hmore).symm.append_right left).map _)) hsorted'

/-- Comparable keys have one ascending order. -/
theorem sortByKey?_eq_of_perm {entries others : List (Value × α)}
    (h : Comparable (entries.map Prod.fst)) (hperm : entries.Perm others) :
    sortByKey? entries = sortByKey? others := by
  obtain ⟨sorted, hs, hsorted⟩ := exists_sortByKey? h
  obtain ⟨sorted', hs', hsorted'⟩ := exists_sortByKey? (h.of_perm (hperm.map _))
  have hsame : sorted.Perm sorted' :=
    (sortByKey?_perm hs).trans (hperm.trans (sortByKey?_perm hs').symm)
  rw [hs, hs', hsame.eq_of_pairwise (fun e d he _ hed hde => ?_) hsorted hsorted']
  exact absurd hde (hed.asymm (h.scalar e.1 (List.mem_map_of_mem ((sortByKey?_perm hs).mem_iff.1 he))))

end

/-! ## What sorting sees -/

/-- Two keys compare with all others in the same way. -/
structure RanksAs (a b : Value) : Prop where
  left : ∀ c, less? a c = less? b c
  right : ∀ c, less? c a = less? c b

theorem RanksAs.refl (a : Value) : RanksAs a a := ⟨fun _ => rfl, fun _ => rfl⟩

theorem RanksAs.less?_eq {d : Value} (h : RanksAs a b) (h' : RanksAs c d) : less? a c = less? b d :=
  (h.left c).trans (h'.right b)

section

variable {α β : Type} {R : Value × α → Value × β → Prop} {es : List (Value × α)}
  {fs : List (Value × β)}

/-- The parts of two lists are related. -/
def RelParts (R : Value × α → Value × β → Prop) (x : List (Value × α) × List (Value × α))
    (y : List (Value × β) × List (Value × β)) : Prop :=
  List.Forall₂ R x.1 y.1 ∧ List.Forall₂ R x.2 y.2

theorem runFrom?_rel (hrank : ∀ e f, R e f → RanksAs e.1 f.1) (h : List.Forall₂ R es fs)
    (down : Bool) (hlast : RanksAs a b) :
    Option.Rel (RelParts R) (runFrom? down a es) (runFrom? down b fs) := by
  induction h generalizing a b with
  | nil => exact .some ⟨.nil, .nil⟩
  | @cons e f es fs hef hrest ih =>
    have hparts := ih (hrank e f hef)
    rw [runFrom?, runFrom?, (hrank e f hef).less?_eq hlast]
    cases less? f.1 b with
    | none => exact .none
    | some r =>
      simp only [Option.bind_eq_bind, Option.bind_some]
      split
      · generalize runFrom? down e.1 es = x at hparts
        generalize runFrom? down f.1 fs = y at hparts
        cases hparts with
        | none => exact .none
        | some hparts => exact .some ⟨.cons hef hparts.1, hparts.2⟩
      · exact .some ⟨.nil, .cons hef hrest⟩

theorem firstRun?_rel (hrank : ∀ e f, R e f → RanksAs e.1 f.1) (h : List.Forall₂ R es fs) :
    Option.Rel (RelParts R) (firstRun? es) (firstRun? fs) := by
  cases h with
  | nil => exact .some ⟨.nil, .nil⟩
  | @cons e f es fs hef hrest =>
    cases hrest with
    | nil => exact .some ⟨.cons hef .nil, .nil⟩
    | @cons e' f' es fs hef' hrest =>
      rw [firstRun?, firstRun?, (hrank e' f' hef').less?_eq (hrank e f hef)]
      -- Keys of one rank are compared alike, so both runs go up or both go down.
      cases less? f'.1 f.1 with
      | none => exact .none
      | some down =>
        have hparts := runFrom?_rel hrank hrest down (hrank e' f' hef')
        simp only [Option.bind_eq_bind, Option.bind_some]
        generalize runFrom? down e'.1 es = x at hparts
        generalize runFrom? down f'.1 fs = y at hparts
        cases hparts with
        | none => exact .none
        | some hparts =>
          have hrun := List.Forall₂.cons hef (.cons hef' hparts.1)
          refine .some ⟨?_, hparts.2⟩
          cases down with
          | false => exact hrun
          | true => exact List.rel_reverse hrun

theorem rel_getElem? (h : List.Forall₂ R es fs) (n : Nat) : Option.Rel R es[n]? fs[n]? := by
  induction h generalizing n with
  | nil => exact .none
  | cons hef _ ih =>
    cases n with
    | zero => exact .some hef
    | succ n => exact ih n

theorem place?_eq (hrank : ∀ e f, R e f → RanksAs e.1 f.1) (h : List.Forall₂ R es fs)
    (hkey : RanksAs a b) (low high : Nat) : place? a es low high = place? b fs low high := by
  induction hn : high - low using Nat.strongRecOn generalizing low high with
  | ind n ih =>
    rw [place?, place?]
    split
    · have hmiddle := rel_getElem? h (low + (high - low) / 2)
      dsimp only
      generalize es[low + (high - low) / 2]? = x at hmiddle
      generalize fs[low + (high - low) / 2]? = y at hmiddle
      cases hmiddle with
      | none => rfl
      | some hef =>
        dsimp only
        rw [hkey.less?_eq (hrank _ _ hef)]
        split
        · rfl
        · exact ih _ (by omega) _ _ rfl
        · exact ih _ (by omega) _ _ rfl
    · rfl

theorem insertSorted?_rel (hrank : ∀ e f, R e f → RanksAs e.1 f.1) (h : List.Forall₂ R es fs)
    {e : Value × α} {f : Value × β} (hef : R e f) :
    Option.Rel (List.Forall₂ R) (insertSorted? e es) (insertSorted? f fs) := by
  rw [insertSorted?, insertSorted?, place?_eq hrank h (hrank e f hef), h.length_eq]
  cases place? f.1 fs 0 fs.length with
  | none => exact .none
  | some n =>
    exact .some (List.rel_append (List.forall₂_take n h) (.cons hef (List.forall₂_drop n h)))

theorem foldlM_insertSorted?_rel (hrank : ∀ e f, R e f → RanksAs e.1 f.1)
    (h : List.Forall₂ R es fs) {run : List (Value × α)} {run' : List (Value × β)}
    (hrun : List.Forall₂ R run run') :
    Option.Rel (List.Forall₂ R) (es.foldlM (fun sorted e => insertSorted? e sorted) run)
      (fs.foldlM (fun sorted f => insertSorted? f sorted) run') := by
  induction h generalizing run run' with
  | nil => exact .some hrun
  | @cons e f es fs hef _ ih =>
    have hmore := insertSorted?_rel hrank hrun hef
    rw [List.foldlM_cons, List.foldlM_cons]
    generalize insertSorted? e run = x at hmore
    generalize insertSorted? f run' = y at hmore
    cases hmore with
    | none => exact .none
    | some hmore => exact ih hmore

/-- Entries whose keys compare alike are sorted alike. -/
theorem sortByKey?_rel (hrank : ∀ e f, R e f → RanksAs e.1 f.1) (h : List.Forall₂ R es fs) :
    Option.Rel (List.Forall₂ R) (sortByKey? es) (sortByKey? fs) := by
  have hparts := firstRun?_rel hrank h
  rw [sortByKey?, sortByKey?]
  generalize firstRun? es = x at hparts
  generalize firstRun? fs = y at hparts
  cases hparts with
  | none => exact .none
  | some hparts => exact foldlM_insertSorted?_rel hrank hparts.2 hparts.1

end

end RegistryTree.Value
