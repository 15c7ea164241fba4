import Mathlib.Algebra.Group.Nat.Defs
import RegistryTree.FileSystem.Walk
import RegistryTree.Proofs.VersionOrder.Split

/-!
# Names in the order of their numbers

The key of a name is a sequence of items: a text, then numbers and texts in turn. Of two sequences the
first items that differ decide, and a text is never compared with a number, since each has places of
its own. So all names are comparable, and standing no later is a total preorder on them.

Names that end in numbers with points between them, behind a text without digits, stand in the order
of the lists of these numbers: the numbers are compared one after the other, and a list comes before
those that go on behind it.

> `itemsLess?_items`: comparing the items of two keys compares the keys.
> `restLess_dottedRest`: the rests of such names are compared as the lists of numbers are.
> `dotted_ordered`: names have keys, keys are comparable, and names that end in numbers stand in the
> order of the numbers.
-/

namespace RegistryTree

namespace VersionKey

open RegistryTree.Number RegistryTree.Text

/-! ## The items of a key -/

/-- An item of what a name is ordered by. -/
inductive Item where
  | text (s : List Char)
  | number (n : Nat)
  deriving DecidableEq, Repr

/-- Whether an item is a number. -/
def Item.isNumber : Item → Bool
  | .text _ => false
  | .number _ => true

/-- Whether one item is less than another: texts compare as texts and numbers as numbers, and nothing
else can be compared. -/
def Item.less? : Item → Item → Option Bool
  | .text s, .text t => some (textLess s t)
  | .number m, .number n => some (m < n)
  | _, _ => none

/-- Whether one sequence of items comes before another: the first items that differ decide, and a
sequence comes before those that go on behind it. -/
def itemsLess? : List Item → List Item → Option Bool
  | _, [] => some false
  | [], _ :: _ => some true
  | x :: xs, y :: ys => if x = y then itemsLess? xs ys else x.less? y

/-- The items of numbers with the texts behind them. -/
def restItems (rest : List (Nat × List Char)) : List Item :=
  rest.flatMap fun e => [.number e.1, .text e.2]

/-- The items of a key, as one sequence. -/
def items (key : VersionKey) : List Item := .text key.lead :: restItems key.rest

/-- Behind the text in front, numbers and texts come in turn. -/
theorem isNumber_restItems (rest : List (Nat × List Char)) :
    ∀ {i : Nat} {item : Item}, (restItems rest)[i]? = some item →
      (item.isNumber = true ↔ i % 2 = 0) := by
  induction rest with
  | nil =>
    intro i item h
    simp [restItems] at h
  | cons e rest ih =>
    intro i item h
    rw [restItems, List.flatMap_cons] at h
    rcases i with _ | _ | i
    · simp only [List.cons_append, List.getElem?_cons_zero, Option.some.injEq] at h
      simp [← h, Item.isNumber]
    · simp only [List.cons_append, List.getElem?_cons_succ, List.getElem?_cons_zero,
        Option.some.injEq] at h
      simp [← h, Item.isNumber]
    · have hrest : (restItems rest)[i]? = some item := h
      rw [ih hrest]
      omega

/-- A key has texts at its even places and numbers at its odd ones. -/
theorem isNumber_items (key : VersionKey) {i : Nat} {item : Item} (h : key.items[i]? = some item) :
    item.isNumber = true ↔ i % 2 = 1 := by
  rw [items] at h
  cases i with
  | zero =>
    simp only [List.getElem?_cons_zero, Option.some.injEq] at h
    simp [← h, Item.isNumber]
  | succ i =>
    rw [List.getElem?_cons_succ] at h
    rw [isNumber_restItems key.rest h]
    omega

theorem itemsLess?_restItems (xs ys : List (Nat × List Char)) :
    itemsLess? (restItems xs) (restItems ys) = some (restLess xs ys) := by
  induction xs generalizing ys with
  | nil => cases ys <;> rfl
  | cons x xs ih =>
    cases ys with
    | nil => rfl
    | cons y ys =>
      obtain ⟨m, s⟩ := x
      obtain ⟨n, t⟩ := y
      show itemsLess? (.number m :: .text s :: restItems xs) (.number n :: .text t :: restItems ys) = _
      by_cases hnumber : m = n
      · subst hnumber
        by_cases htext : s = t
        · subst htext
          simp [itemsLess?, restLess, textLess_irrefl, ih]
        · simp [itemsLess?, restLess, Item.less?, htext]
      · simp [itemsLess?, restLess, Item.less?, hnumber]

/-- Comparing the items of two keys compares the keys, and never a text with a number. -/
theorem itemsLess?_items (a b : VersionKey) : itemsLess? a.items b.items = some (a.less b) := by
  rw [items, items, less, itemsLess?]
  by_cases hlead : a.lead = b.lead
  · simp [hlead, textLess_irrefl, itemsLess?_restItems]
  · simp [hlead, Item.less?]

/-! ## Standing no later -/

/-- Whether one name may stand in front of another: both have keys, and that of the other is not
less. -/
def NotAfter (a b : String) : Prop :=
  ∃ ka kb, ofName a = .ok ka ∧ ofName b = .ok kb ∧ kb.less ka = false

theorem less_eq_false_iff {a b : VersionKey} : a.less b = false ↔ b.parts ≤ a.parts := by
  rw [← not_less_iff, Bool.not_eq_true']

theorem NotAfter.trans {a b c : String} (hab : NotAfter a b) (hbc : NotAfter b c) : NotAfter a c := by
  obtain ⟨ka, kb, ha, hb, hle⟩ := hab
  obtain ⟨kb', kc, hb', hc, hle'⟩ := hbc
  cases Except.ok.inj (hb.symm.trans hb')
  rw [less_eq_false_iff] at hle hle'
  exact ⟨ka, kc, ha, hc, less_eq_false_iff.2 (hle.trans hle')⟩

/-- Of two names with keys, one may stand in front of the other. -/
theorem notAfter_total {a b : String} {ka kb : VersionKey} (ha : ofName a = .ok ka)
    (hb : ofName b = .ok kb) : NotAfter a b ∨ NotAfter b a := by
  rcases le_total ka.parts kb.parts with hle | hle
  · exact Or.inl ⟨ka, kb, ha, hb, less_eq_false_iff.2 hle⟩
  · exact Or.inr ⟨kb, ka, hb, ha, less_eq_false_iff.2 hle⟩

/-- A name that an entry can have is short enough to have a key. -/
theorem exists_ofName {name : String} (h : FileSystem.isTooLong name = false) :
    ∃ key, ofName name = .ok key := by
  have hshort : name.utf8ByteSize ≤ FileSystem.nameLimit := by simpa [FileSystem.isTooLong] using h
  have hlength := length_toList_le name
  have hlimit : FileSystem.nameLimit ≤ digitLimit := by decide
  exact ⟨_, ofName_eq (by omega)⟩

/-! ## Names that end in numbers -/

/-- A name made of a text and numbers with points between them. -/
def dotted (text : String) (ns : List Nat) : String := text ++ ".".intercalate (ns.map toString)

/-- Numbers with points between them, each with the text behind it. -/
def dottedRest : List Nat → List (Nat × List Char)
  | [] => []
  | [n] => [(n, [])]
  | n :: m :: ns => (n, ['.']) :: dottedRest (m :: ns)

theorem map_fst_dottedRest (ns : List Nat) : (dottedRest ns).map (·.1) = ns := by
  fun_induction dottedRest ns with
  | case1 => rfl
  | case2 n => rfl
  | case3 n m ns ih => rw [List.map_cons, ih]

/-- The rests of names that end in numbers are compared as the lists of numbers are. -/
theorem restLess_dottedRest (xs ys : List Nat) :
    restLess (dottedRest xs) (dottedRest ys) = true ↔ xs < ys := by
  induction xs generalizing ys with
  | nil => rcases ys with _ | ⟨y, _ | ⟨y', ys⟩⟩ <;> simp [dottedRest, restLess]
  | cons x xs ih =>
    -- the text behind a number tells whether another number follows
    rcases ys with _ | ⟨y, _ | ⟨y', ys⟩⟩
    · simp [restLess, dottedRest]
    · rw [List.cons_lt_cons_iff]
      cases xs <;> simp [dottedRest, restLess, textLess]
    · rw [List.cons_lt_cons_iff, ← ih]
      cases xs with
      | nil => cases ys <;> simp [dottedRest, restLess, textLess]
      | cons x' xs => simp [dottedRest, restLess, textLess]

theorem runsInTurn_dottedRest (ns : List Nat) : RunsInTurn (numerals (dottedRest ns)) := by
  have hdigits : ∀ n, Nat.toDigits 10 n ≠ [] ∧ ∀ c ∈ Nat.toDigits 10 n, isDigit c = true := fun n =>
    ⟨Nat.toDigits_ne_nil, fun c hc => isDigit_of_mem_toDigits hc⟩
  fun_induction dottedRest ns with
  | case1 => trivial
  | case2 n => exact ⟨hdigits n, List.forall_mem_nil _, fun _ => rfl, trivial⟩
  | case3 n m ns ih =>
    have hpoint : ∀ c ∈ ['.'], isDigit c = false := List.forall_mem_singleton.2 (by decide)
    exact ⟨hdigits n, hpoint, fun h => absurd h (List.cons_ne_nil _ _), ih⟩

/-- The characters of numbers with points between them. -/
theorem intercalate_toDigits (ns : List Nat) : ['.'].intercalate (ns.map (Nat.toDigits 10)) =
    (numerals (dottedRest ns)).flatMap fun e => e.1 ++ e.2 := by
  fun_induction dottedRest ns with
  | case1 => rfl
  | case2 n => simp [numerals]
  | case3 n m ns ih =>
    rw [List.map_cons, List.map_cons, List.intercalate_cons_cons, ← List.map_cons, ih]
    simp [numerals]

theorem split_dotted {text : String} (h : ∀ c ∈ text.toList, isDigit c = false) (ns : List Nat) :
    split (dotted text ns).toList = (text.toList, numerals (dottedRest ns)) := by
  have hlist : (dotted text ns).toList = joined (text.toList, numerals (dottedRest ns)) := by
    have hnumerals : (ns.map toString).map String.toList = ns.map (Nat.toDigits 10) := by
      rw [List.map_map]
      exact List.map_congr_left fun n _ => Nat.toList_repr
    rw [dotted, String.toList_append, String.toList_intercalate, hnumerals, joined,
      ← intercalate_toDigits]
    rfl
  rw [hlist]
  exact split_joined ⟨h, runsInTurn_dottedRest ns⟩

/-- A name that ends in numbers has the text and the numbers for a key. -/
theorem ofName_dotted {text : String} {ns : List Nat} (htext : ∀ c ∈ text.toList, isDigit c = false)
    (hlimit : ∀ n ∈ ns, n < 10 ^ digitLimit) :
    ofName (dotted text ns) = .ok ⟨text.toList, dottedRest ns⟩ := by
  have hvalues : (numerals (dottedRest ns)).map (fun e => (digitsValue e.1, e.2)) = dottedRest ns := by
    rw [numerals, List.map_map, List.map_congr_left (g := id) fun e _ => ?_, List.map_id]
    exact Prod.ext (digitsValue_toDigits e.1) rfl
  rw [ofName_eq_ok_iff, split_dotted htext, hvalues]
  refine ⟨fun e he => ?_, rfl⟩
  obtain ⟨r, hr, rfl⟩ := List.mem_map.1 he
  have hmem : r.1 ∈ ns := by
    rw [← map_fst_dottedRest ns]
    exact List.mem_map_of_mem hr
  exact (Nat.length_toDigits_le_iff (by decide) (by decide)).2 (hlimit _ hmem)

theorem less_dotted (lead : List Char) (xs ys : List Nat) :
    less ⟨lead, dottedRest xs⟩ ⟨lead, dottedRest ys⟩ = true ↔ xs < ys := by
  rw [less, ← restLess_dottedRest]
  simp [textLess_irrefl]

/-- Every name that an entry can have has a key. A key has texts at its even places and numbers at its
odd ones, so that any two keys can be compared, and standing no later is a total preorder on the
names. Behind a text without digits, names that end in numbers stand in the order of the lists of the
numbers, however many these are, as long as they can be read. -/
theorem dotted_ordered {text : String} {xs ys : List Nat}
    (htext : ∀ c ∈ text.toList, isDigit c = false) (hlimit : ∀ n ∈ xs ++ ys, n < 10 ^ digitLimit) :
    (∀ name, FileSystem.isTooLong name = false → ∃ key, ofName name = .ok key) ∧
    (∀ name key, ofName name = .ok key → ∀ i item, key.items[i]? = some item →
      (item.isNumber = true ↔ i % 2 = 1)) ∧
    (∀ a b ka kb, ofName a = .ok ka → ofName b = .ok kb →
      itemsLess? ka.items kb.items = some (ka.less kb)) ∧
    (∀ a b ka kb, ofName a = .ok ka → ofName b = .ok kb → NotAfter a b ∨ NotAfter b a) ∧
    (∀ a b c, NotAfter a b → NotAfter b c → NotAfter a c) ∧
    ∃ kx ky, ofName (dotted text xs) = .ok kx ∧ ofName (dotted text ys) = .ok ky ∧
      (kx.less ky = true ↔ xs < ys) ∧ (kx = ky ↔ xs = ys) ∧ (ky.less kx = true ↔ ys < xs) := by
  refine ⟨fun _ => exists_ofName, fun _ key _ i item => isNumber_items key,
    fun _ _ ka kb _ _ => itemsLess?_items ka kb, fun _ _ _ _ => notAfter_total,
    fun _ _ _ => NotAfter.trans, ?_⟩
  rw [List.forall_mem_append] at hlimit
  refine ⟨_, _, ofName_dotted htext hlimit.1, ofName_dotted htext hlimit.2, less_dotted _ _ _, ?_,
    less_dotted _ _ _⟩
  constructor
  · intro heq
    have hrest := congrArg (List.map (·.1)) (VersionKey.mk.inj heq).2
    rwa [map_fst_dottedRest, map_fst_dottedRest] at hrest
  · intro heq
    rw [heq]

/-- The ninth minor version stands before the tenth. -/
theorem dotted_ordered_minor : ∃ kx ky, ofName "v0.9.0" = .ok kx ∧ ofName "v0.10.0" = .ok ky ∧
    kx.less ky = true ∧ kx ≠ ky ∧ ky.less kx = false := by
  have hlimit : ∀ n ∈ [0, 9, 0] ++ [0, 10, 0], n < 10 ^ digitLimit := by
    intro n hn
    have hsmall : n < 10 ^ 2 := by
      simp only [List.mem_append, List.mem_cons, List.not_mem_nil, or_false] at hn
      omega
    exact hsmall.trans_le (Nat.pow_le_pow_right (by decide) (by decide))
  have htext : ∀ c ∈ "v".toList, isDigit c = false := by
    have hchars : "v".toList = ['v'] := by decide
    rw [hchars, List.forall_mem_singleton]
    decide
  obtain ⟨-, -, -, -, -, kx, ky, hx, hy, hless, heq, hgreater⟩ :=
    @dotted_ordered "v" [0, 9, 0] [0, 10, 0] htext hlimit
  have hnames : dotted "v" [0, 9, 0] = "v0.9.0" ∧ dotted "v" [0, 10, 0] = "v0.10.0" := by decide
  rw [hnames.1] at hx
  rw [hnames.2] at hy
  refine ⟨kx, ky, hx, hy, hless.2 (by decide), fun h => absurd (heq.1 h) (by decide), ?_⟩
  rw [← Bool.not_eq_true, hgreater]
  decide

end VersionKey

end RegistryTree
