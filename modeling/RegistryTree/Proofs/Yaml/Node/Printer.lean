import RegistryTree.Proofs.Yaml.Node.Ordinary
import RegistryTree.Proofs.Yaml.Token.Layout

/-!
# What is written for a node

The text that is written for an ordinary node, when all its texts come back, gives the tokens of the
node. The proof goes along the structure of the node; the layout of blocks puts the texts of the
parts together, and this module says that they are written where the layout wants them.

> `writeNode_prints`: a node inside a collection.
> `write_tokens`: a node as a document of its own.
-/

namespace RegistryTree.Yaml

open Scalar Found

namespace Node

/-- A sheet goes on as another by a piece of text that has a property. -/
def Prints (p q : Sheet) (holds : List Char → Prop) : Prop :=
  ∃ t, q.text = p.text ++ t ∧ q.indenting = false ∧ (∀ c ∈ t, isClean c = true) ∧ holds t

/-- A sheet at the start of a collection or of a row. -/
structure AtColumn (d : Nat) (p : Sheet) : Prop where
  column : p.column = d
  spaced : p.spaced = true
  indenting : p.indenting = true

/-- A sheet where a node is written inside a collection of the given indentation: at the start of the
text, behind an indicator, or behind a key. -/
inductive Placed : Option Nat → Bool → Sheet → Prop
  | start {p : Sheet} (h : AtColumn 0 p) : Placed none true p
  | apart {p : Sheet} {d : Nat} (hcolumn : p.column = d + 1) (hspaced : p.spaced = false)
      (hindenting : p.indenting = true) : Placed (some d) true p
  | behindKey {p : Sheet} {d : Nat} (hspaced : p.spaced = false) (hindenting : p.indenting = false) :
      Placed (some d) false p

/-- The column of the collection that a node stands in, `-1` outside of all. -/
def outerOf : Option Nat → Int
  | some d => d
  | none => -1

variable {p q : Sheet} {d : Nat} {indent : Option Nat} {apart : Bool}

theorem atColumn_newLine : AtColumn d (p.newLine d) := ⟨by simp, rfl, rfl⟩

theorem AtColumn.gap_eq (h : AtColumn d p) : gap p = 0 := by
  rw [gap, h.spaced]
  rfl

/-- Inside a collection a space stands in front of what is written. -/
theorem Placed.gap_eq (h : Placed (some d) apart p) : gap p = 1 := by
  rw [gap]
  cases h with
  | apart hcolumn hspaced hindenting => rw [hspaced]; rfl
  | behindKey hspaced hindenting => rw [hspaced]; rfl

/-- Behind what is written, the next row begins on a new line. -/
theorem Prints.atColumn {holds : List Char → Prop} (h : Prints p q holds) (d : Nat) :
    AtColumn d (q.toColumn d) := by
  obtain ⟨t, -, hline, -⟩ := h
  rw [Sheet.toColumn_of_content hline]
  exact atColumn_newLine

/-- A collection goes deeper on the line of its indicator. -/
theorem toColumn_apart (h : Placed indent true p) : ∃ m e, deeper indent = some e ∧
    outerOf indent + 1 + (m : Nat) = (e : Nat) ∧ (p.toColumn e).text = p.text ++ List.replicate m ' ' ∧
      AtColumn e (p.toColumn e) ∧ (indent ≠ none → 0 < m) := by
  cases h with
  | start h =>
    have hstay : p.toColumn 0 = p := by
      simp [Sheet.toColumn, h.column, h.spaced, h.indenting]
    refine ⟨0, 0, rfl, rfl, ?_, ?_, fun hne => absurd rfl hne⟩
    · rw [hstay, List.replicate_zero, List.append_nil]
    · rw [hstay]
      exact h
  | @apart p d hcolumn hspaced hindenting =>
    have hnext : p.toColumn (d + 2) = (p.put [' ']).mark true true :=
      Sheet.toColumn_next hindenting (by omega)
    refine ⟨1, d + 2, rfl, by simp only [outerOf]; omega, ?_, ?_, fun _ => Nat.one_pos⟩
    · rw [hnext, Sheet.text_mark, Sheet.text_put]
      rfl
    · rw [hnext]
      exact ⟨by simp [Sheet.mark, hcolumn], rfl, rfl⟩

/-- A collection behind a key begins on a new line. -/
theorem toColumn_behindKey (h : Placed indent false p) (d : Nat) :
    (p.toColumn d).text = p.text ++ '\n' :: List.replicate d ' ' ∧ AtColumn d (p.toColumn d) := by
  cases h with
  | behindKey hspaced hindenting =>
    rw [Sheet.toColumn_of_content hindenting]
    exact ⟨Sheet.text_newLine _ _, atColumn_newLine⟩

/-! ## Scalars and empty collections -/

variable {place : Place} {tag : Tag} {s : List Char} {w : Writing}

/-- A scalar whose tag shows is written in its style. -/
theorem sheet_scalar (hshows : tagShows (chooseStyle place tag s) tag s = true) :
    (writeNode [] place indent (.scalar none tag s) w).sheet =
      writeScalar (chooseStyle place tag s) (place ≠ .key) (columnIn indent) s w.sheet := by
  rw [writeNode, if_neg (by simp [Writing.has])]
  show (Writing.draw (writeScalar _ _ (columnIn indent) s)
    (if tagShows (chooseStyle place tag s) tag s = true then w else _)).sheet = _
  rw [if_pos hshows]
  rfl

theorem tagShows_text : tagShows (chooseStyle place .str s) .str s = true := by
  rw [tagShows]
  split
  next hplain => simpa using (chooseStyle_plain (by simp) hplain).1
  next => rfl

/-- What is written for a scalar of an ordinary node that comes back. -/
theorem scalar_writes (h : Ordinary (.scalar none tag s)) (hplace : place ≠ .key)
    (hfaithful : faithful apart indent (.scalar none tag s) = true) :
    ∃ t plain, (writeNode [] place indent (.scalar none tag s) w).sheet.text =
        w.sheet.text ++ (List.replicate (gap w.sheet) ' ' ++ t) ∧
      (writeNode [] place indent (.scalar none tag s) w).sheet.indenting = false ∧
      Writes (columnIn indent) plain s t ∧ [Token.scalar s plain] = tokens apart (.scalar none tag s) := by
  rw [tokens, scalarToken, ← chooseStyle_of_ne_key hplace]
  cases h with
  | text s =>
    have hhere : faithfulText place indent s = true := by
      rw [faithfulText_of_ne_key hplace]
      simpa [faithful] using hfaithful
    rw [sheet_scalar tagShows_text]
    obtain ⟨t, plain, htext, hline, hplain, hwrites⟩ := writeScalar_faithful (p := w.sheet) hhere
    exact ⟨t, plain, htext, hline, hwrites, by rw [hplain]⟩
  | word htag hform hshape hne =>
    have hbinary : tag ≠ .binary := by
      rintro rfl
      simp at htag
    have hstyle : chooseStyle place tag s = .plain := by
      rw [chooseStyle_eq hbinary, if_pos ⟨hform, hshape, Or.inl hplace⟩]
    rw [sheet_scalar (by rw [tagShows, if_pos hstyle]; simpa using hform), hstyle]
    obtain ⟨t, htext, hline, hwrites⟩ := writeScalar_plain (place ≠ .key)
      (columnIn indent) w.sheet hshape hne
    exact ⟨t, true, htext, hline, hwrites, by simp⟩

/-- A scalar inside a collection. -/
theorem scalar_prints (h : Ordinary (.scalar none tag s)) (hplace : place ≠ .key)
    (hplaced : Placed (some d) apart w.sheet)
    (hfaithful : faithful apart (some d) (.scalar none tag s) = true) :
    Prints w.sheet (writeNode [] place (some d) (.scalar none tag s) w).sheet fun t =>
      Reads d apart t (tokens apart (.scalar none tag s)) ∧ Led t := by
  obtain ⟨t, plain, htext, hline, hwrites, htokens⟩ := scalar_writes (w := w) h hplace hfaithful
  rw [hplaced.gap_eq] at htext
  refine ⟨_, htext, hline, List.forall_mem_append.2 ⟨isClean_replicate 1, hwrites.clean⟩, ?_, ?_⟩
  · rw [← htokens]
    exact reads_scalar hwrites (columnIn_pos _) (by simp only [columnIn]; omega) fun _ => by omega
  · intro c hc
    cases hc
    rfl

/-- An empty collection is written in brackets. -/
theorem empty_prints {o e : Char} {t u : Token} (h : Brackets o e t u)
    (hplaced : Placed indent apart p) :
    Prints p ((p.indicator [o] true true false).indicator [e] false false false) fun w =>
      Reads (outerOf indent) apart w [t, u] ∧ (indent ≠ none → Led w) := by
  have hclean : isClean o = true ∧ isClean e = true := by cases h <;> decide
  refine ⟨List.replicate (gap p) ' ' ++ [o, e], ?_, by simp [Sheet.indicator, Sheet.mark],
    List.forall_mem_append.2 ⟨isClean_replicate _, by simpa using hclean⟩, reads_empty h, ?_⟩
  · rw [text_indicator_close, text_indicator]
    simp
  · intro hne
    obtain ⟨d, rfl⟩ := Option.ne_none_iff_exists'.1 hne
    rw [hplaced.gap_eq]
    intro c hc
    cases hc
    rfl

/-! ## Rows -/

/-- What is to be shown of a node: what is written for it inside a collection gives its tokens. -/
def Printed (n : Node) : Prop :=
  ∀ (place : Place) (indent : Option Nat) (apart : Bool) (w : Writing), place ≠ .key →
    (apart = false → place = .value) → Placed indent apart w.sheet →
    (indent = none → ∀ tag s, n ≠ .scalar none tag s) → n.faithful apart indent = true →
    Prints w.sheet (writeNode [] place indent n w).sheet fun t =>
      Reads (outerOf indent) apart t (n.tokens apart) ∧ (indent ≠ none → Led t)

/-- Rows of a collection at a column. -/
def Rows (t : Token) (d : Nat) (ts : List Token) (w : List Char) : Prop :=
  ReadsRow t d w ts ∧ ∀ rest, Fresh (w ++ rest)

/-- Rows one after the other, each from the column of the collection. -/
theorem Prints.append {r : Sheet} {t : Token} {ts us : List Token} (h : Prints p q (Rows t d ts))
    (h' : Prints (q.toColumn d) r (Rows t d us)) : Prints p r (Rows t d (ts ++ us)) := by
  obtain ⟨v, hv, hline, hclean, hreads, hfresh⟩ := h
  obtain ⟨w, hw, hline', hclean', hreads', hfresh'⟩ := h'
  rw [Sheet.toColumn_of_content hline, Sheet.text_newLine, hv] at hw
  refine ⟨v ++ '\n' :: (List.replicate d ' ' ++ w), by rw [hw]; simp, hline', ?_,
    readsRow_append hreads hreads' hfresh', fun rest => by rw [List.append_assoc]; exact hfresh _⟩
  exact List.forall_mem_append.2 ⟨hclean, List.forall_mem_cons.2
    ⟨by decide, List.forall_mem_append.2 ⟨isClean_replicate _, hclean'⟩⟩⟩

/-- Where a node begins behind an indicator that is set apart. -/
theorem placed_indicator (h : AtColumn d p) (x : Char) :
    (p.indicator [x] true false true).text = p.text ++ [x] ∧
      Placed (some d) true (p.indicator [x] true false true) := by
  refine ⟨by rw [text_indicator, h.gap_eq]; simp, .apart ?_ rfl ?_⟩
  · simp [Sheet.indicator, Sheet.mark, h.spaced, h.column]
  · simp [Sheet.indicator, Sheet.mark, h.indenting]

/-- An item behind its dash. -/
theorem item_prints {n : Node} (hprinted : Printed n) (hcolumn : AtColumn d (w.sheet.toColumn d))
    (hfaithful : n.faithful true (some d) = true) :
    Prints (w.sheet.toColumn d)
      (writeNode [] .item (some d) n ((w.toColumn (some d)).indicator ['-'] true false true)).sheet
      (Rows .blockSequenceStart d (.blockEntry :: n.tokens true)) := by
  obtain ⟨htext, hplaced⟩ := placed_indicator hcolumn '-'
  obtain ⟨t, ht, hline, hclean, hreads, hled⟩ :=
    hprinted .item (some d) true ((w.toColumn (some d)).indicator ['-'] true false true) (by simp)
      (by simp) hplaced (by simp) hfaithful
  refine ⟨'-' :: t, ?_, hline, List.forall_mem_cons.2 ⟨by decide, hclean⟩,
    readsRow_dash hreads (hled (by simp)), fun rest c hc => by cases hc; decide⟩
  rw [ht]
  show ((w.sheet.toColumn d).indicator ['-'] true false true).text ++ t = _
  rw [htext, List.append_assoc]
  rfl

/-- Items, from the column of their sequence. -/
theorem items_prints {items : List Node} (hprinted : ∀ n ∈ items, Printed n) (hne : items ≠ [])
    (hcolumn : AtColumn d (w.sheet.toColumn d)) (hfaithful : faithfulItems (some d) items = true) :
    Prints (w.sheet.toColumn d) (writeItems [] (some d) items w).sheet
      (Rows .blockSequenceStart d (itemTokens items)) := by
  induction items generalizing w with
  | nil => exact absurd rfl hne
  | cons n rest ih =>
    rw [faithfulItems, Bool.and_eq_true] at hfaithful
    obtain ⟨hn, hrest⟩ := List.forall_mem_cons.1 hprinted
    have hitem := item_prints hn hcolumn hfaithful.1
    rw [writeItems, itemTokens]
    cases rest with
    | nil =>
      rw [writeItems, itemTokens, List.append_nil]
      exact hitem
    | cons m rest =>
      exact hitem.append (ih hrest (by simp) (hitem.atColumn d) hfaithful.2)

theorem isSimpleKey_eq (w : Writing) (s : List Char) : isSimpleKey w [] (.scalar none .str s) =
    (5 + s.length < keyWidth && s ≠ [] && !(Shape.ofText s).breaks) := by
  have htag : (tagText .str).length = 5 := by decide
  simp [isSimpleKey, anchorOf?, Writing.has, Node.share, Node.tag, htag]

/-- Where a value begins behind its key. -/
theorem placed_colon (d : Nat) (p : Sheet) :
    (p.indicator [':'] false false false).text = p.text ++ [':'] ∧
      Placed (some d) false (p.indicator [':'] false false false) :=
  ⟨text_indicator_close .., .behindKey rfl (by simp [Sheet.indicator, Sheet.mark])⟩

/-- A key that is not announced, with its value. -/
theorem short_entry_prints {v : Node} (hprinted : Printed v)
    (hcolumn : AtColumn d (w.sheet.toColumn d)) (hshort : isShort (.scalar none .str s) = true)
    (hkey : faithfulText .key (some d) s = true) (hfaithful : v.faithful false (some d) = true) :
    Prints (w.sheet.toColumn d)
      (writeNode [] .value (some d) v ((writeNode [] .key (some d) (.scalar none .str s)
        (w.toColumn (some d))).indicator [':'] false false false)).sheet
      (Rows .blockMappingStart d
        (.key :: tokens true (.scalar none .str s) ++ .value :: v.tokens false)) := by
  rw [isShort, isSimpleKey_eq] at hshort
  simp only [Bool.and_eq_true, decide_eq_true_eq, Bool.not_eq_true'] at hshort
  obtain ⟨⟨hlength, hne⟩, hbreaks⟩ := hshort
  -- the key
  obtain ⟨u, plain, hu, -, hplain, hwrites⟩ := writeScalar_faithful (p := w.sheet.toColumn d) hkey
  obtain ⟨hinline, hreach⟩ := writeScalar_line hkey hlength hbreaks hu
  have hsheet : (writeNode [] .key (some d) (.scalar none .str s) (w.toColumn (some d))).sheet =
      writeScalar (chooseStyle .key .str s) (Place.key ≠ .key) (columnIn (some d)) s
        (w.sheet.toColumn d) := sheet_scalar tagShows_text
  rw [← hsheet] at hu
  -- the value
  obtain ⟨hcolon, hplaced⟩ := placed_colon d
    (writeNode [] .key (some d) (.scalar none .str s) (w.toColumn (some d))).sheet
  obtain ⟨t, ht, hline', hclean, hreads, hled⟩ := hprinted .value (some d) false
    ((writeNode [] .key (some d) (.scalar none .str s) (w.toColumn (some d))).indicator [':'] false
      false false) (by simp) (fun _ => rfl) hplaced (by simp) hfaithful
  refine ⟨u ++ ':' :: t, ?_, hline', List.forall_mem_append.2
    ⟨hwrites.clean, List.forall_mem_cons.2 ⟨by decide, hclean⟩⟩, ?_, fun rest => ?_⟩
  · rw [ht]
    show ((writeNode [] .key (some d) (.scalar none .str s) (w.toColumn (some d))).sheet.indicator
      [':'] false false false).text ++ t = _
    rw [hcolon, hu, hcolumn.gap_eq]
    simp
  · have htokens : tokens true (.scalar none .str s) = [.scalar s plain] := by
      rw [tokens, scalarToken, hplain, chooseStyle_key hne hbreaks]
    rw [htokens]
    exact readsRow_key hwrites hinline hreach (by simp only [columnIn]; omega) hreads (hled (by simp))
  · rw [List.append_assoc]
    exact fresh_of_writes hwrites _

/-- A key behind a question mark, with its value behind a colon. -/
theorem long_entry_prints {k v : Node} (hkey : Printed k) (hprinted : Printed v)
    (hcolumn : AtColumn d (w.sheet.toColumn d)) (hfaithful : k.faithful true (some d) = true)
    (hfaithful' : v.faithful true (some d) = true) :
    Prints (w.sheet.toColumn d)
      (writeNode [] .value (some d) v (((writeNode [] .value (some d) k
        ((w.toColumn (some d)).indicator ['?'] true false true)).toColumn (some d)).indicator [':']
          true false true)).sheet
      (Rows .blockMappingStart d (.key :: k.tokens true ++ .value :: v.tokens true)) := by
  -- the key
  obtain ⟨hquestion, hplaced⟩ := placed_indicator hcolumn '?'
  obtain ⟨u, hu, hline, hclean, hreads, hled⟩ :=
    hkey .value (some d) true ((w.toColumn (some d)).indicator ['?'] true false true) (by simp)
      (by simp) hplaced (by simp) hfaithful
  -- the value, on a line of its own
  have hnext : (writeNode [] .value (some d) k
      ((w.toColumn (some d)).indicator ['?'] true false true)).sheet.toColumn d =
        (writeNode [] .value (some d) k
          ((w.toColumn (some d)).indicator ['?'] true false true)).sheet.newLine d :=
    Sheet.toColumn_of_content hline
  obtain ⟨hcolon, hplaced'⟩ := placed_indicator (p := (writeNode [] .value (some d) k
    ((w.toColumn (some d)).indicator ['?'] true false true)).sheet.toColumn d)
    (by rw [hnext]; exact atColumn_newLine) ':'
  obtain ⟨t, ht, hline', hclean', hreads', hled'⟩ :=
    hprinted .value (some d) true (((writeNode [] .value (some d) k
      ((w.toColumn (some d)).indicator ['?'] true false true)).toColumn (some d)).indicator [':']
        true false true) (by simp) (by simp) hplaced' (by simp) hfaithful'
  refine ⟨'?' :: u ++ '\n' :: (List.replicate d ' ' ++ ':' :: t), ?_, hline', ?_,
    readsRow_question hreads (hled (by simp)) hreads' (hled' (by simp)),
    fun rest c hc => by cases hc; decide⟩
  · rw [ht]
    show (((writeNode [] .value (some d) k
      ((w.toColumn (some d)).indicator ['?'] true false true)).sheet.toColumn d).indicator [':']
        true false true).text ++ t = _
    rw [hcolon, hnext, Sheet.text_newLine, hu]
    show ((w.sheet.toColumn d).indicator ['?'] true false true).text ++ _ ++ _ ++ _ ++ t = _
    rw [hquestion]
    simp
  · exact List.forall_mem_append.2 ⟨List.forall_mem_cons.2 ⟨by decide, hclean⟩,
      List.forall_mem_cons.2 ⟨by decide, List.forall_mem_append.2
        ⟨isClean_replicate _, List.forall_mem_cons.2 ⟨by decide, hclean'⟩⟩⟩⟩

/-- Entries, from the column of their mapping. -/
theorem entries_prints {entries : List (Node × Node)}
    (hkeys : ∀ e ∈ entries, ∃ s, e.1 = .scalar none .str s)
    (hprinted : ∀ e ∈ entries, Printed e.1 ∧ Printed e.2) (hne : entries ≠ [])
    (hcolumn : AtColumn d (w.sheet.toColumn d))
    (hfaithful : faithfulEntries (some d) entries = true) :
    Prints (w.sheet.toColumn d) (writeEntries [] (some d) entries w).sheet
      (Rows .blockMappingStart d (entryTokens entries)) := by
  induction entries generalizing w with
  | nil => exact absurd rfl hne
  | cons e rest ih =>
    obtain ⟨k, v⟩ := e
    obtain ⟨⟨s, hs⟩, hkeys'⟩ := List.forall_mem_cons.1 hkeys
    obtain ⟨⟨hk, hv⟩, hprinted'⟩ := List.forall_mem_cons.1 hprinted
    dsimp only at hs hk hv
    subst hs
    rw [faithfulEntries, Bool.and_eq_true] at hfaithful
    obtain ⟨hfirst, hrest⟩ := hfaithful
    rw [writeEntries, entryTokens]
    dsimp only
    have hsimple : isSimpleKey (w.toColumn (some d)) [] (.scalar none .str s) =
        isShort (.scalar none .str s) := by
      rw [isShort, isSimpleKey_eq, isSimpleKey_eq]
    rw [hsimple]
    -- the sheet behind the first entry
    have hentry : ∀ q : Writing, Prints (w.sheet.toColumn d) q.sheet (Rows .blockMappingStart d
          (.key :: tokens true (.scalar none .str s) ++
            .value :: v.tokens (!isShort (.scalar none .str s)))) →
        Prints (w.sheet.toColumn d) (writeEntries [] (some d) rest q).sheet
          (Rows .blockMappingStart d (.key :: tokens true (.scalar none .str s) ++
            .value :: v.tokens (!isShort (.scalar none .str s)) ++ entryTokens rest)) := by
      intro q hq
      cases rest with
      | nil =>
        rw [writeEntries, entryTokens, List.append_nil]
        exact hq
      | cons e rest =>
        exact hq.append (ih hkeys' hprinted' (by simp) (hq.atColumn d) hrest)
    apply hentry
    cases hshort : isShort (.scalar none .str s) with
    | true =>
      rw [hshort, if_pos rfl, Bool.and_eq_true] at hfirst
      rw [if_pos rfl]
      exact short_entry_prints hv hcolumn hshort hfirst.1 hfirst.2
    | false =>
      rw [hshort, if_neg (by simp), Bool.and_eq_true] at hfirst
      rw [if_neg (by simp)]
      exact long_entry_prints hk hv hcolumn hfirst.1 hfirst.2

/-! ## Nodes -/

/-- A collection is written from the column that is deeper than that of the collection it stands
in. -/
theorem block_prints (hplaced : Placed indent apart p) :
    ∃ e, deeper indent = some e ∧ AtColumn e (p.toColumn e) ∧
      ∀ (q : Sheet) (t : Token) (ts : List Token), Prints (p.toColumn e) q (Rows t e ts) →
        Prints p q fun w => Reads (outerOf indent) apart w (t :: ts ++ [.blockEnd]) ∧
          (indent ≠ none → Led w) := by
  have houter : -1 ≤ outerOf indent := by
    cases indent with
    | none => exact Int.le_refl _
    | some d => simp only [outerOf]; omega
  cases apart with
  | true =>
    -- Apart from what stands before it, the block begins on the line where the sheet is.
    obtain ⟨m, e, hdeeper, hm, htext, hcolumn, hpos⟩ := toColumn_apart hplaced
    refine ⟨e, hdeeper, hcolumn, fun q t ts hprints => ?_⟩
    obtain ⟨w, hw, hline, hclean, hreads, hfresh⟩ := hprints
    refine ⟨List.replicate m ' ' ++ w, by rw [hw, htext, List.append_assoc], hline,
      List.forall_mem_append.2 ⟨isClean_replicate m, hclean⟩, reads_block hreads houter hm hfresh,
      fun hne => ?_⟩
    obtain ⟨m, rfl⟩ : ∃ l, m = l + 1 := ⟨m - 1, by have := hpos hne; omega⟩
    intro c hc
    cases hc
    rfl
  | false =>
    -- Behind a key it begins on a line of its own.
    obtain ⟨d, rfl⟩ : ∃ d, indent = some d := by cases hplaced; exact ⟨_, rfl⟩
    obtain ⟨htext, hcolumn⟩ := toColumn_behindKey hplaced (d + 2)
    refine ⟨d + 2, rfl, hcolumn, fun q t ts hprints => ?_⟩
    obtain ⟨w, hw, hline, hclean, hreads, hfresh⟩ := hprints
    refine ⟨'\n' :: (List.replicate (d + 2) ' ' ++ w), by rw [hw, htext]; simp, hline,
      List.forall_mem_cons.2 ⟨by decide, List.forall_mem_append.2 ⟨isClean_replicate _, hclean⟩⟩,
      reads_block_below hreads houter (by simp only [outerOf]; omega) hfresh, fun _ c hc => ?_⟩
    cases hc
    rfl

/-- Items on the lines below their key, from its column. -/
theorem items_print_below {items : List Node} (hprinted : ∀ n ∈ items, Printed n) (hne : items ≠ [])
    (hplaced : Placed (some d) false w.sheet) (hfaithful : faithfulItems (some d) items = true) :
    Prints w.sheet (writeItems [] (some d) items w).sheet fun t =>
      Reads d false t (itemTokens items) ∧ Led t := by
  obtain ⟨htext, hcolumn⟩ := toColumn_behindKey hplaced d
  obtain ⟨t, ht, hline, hclean, hreads, hfresh⟩ := items_prints hprinted hne hcolumn hfaithful
  refine ⟨'\n' :: (List.replicate d ' ' ++ t), by rw [ht, htext]; simp, hline,
    List.forall_mem_cons.2 ⟨by decide, List.forall_mem_append.2 ⟨isClean_replicate _, hclean⟩⟩,
    reads_items_below hreads hfresh, ?_⟩
  intro c hc
  cases hc
  rfl

theorem sequence_prints {items : List Node} (hprinted : ∀ n ∈ items, Printed n) :
    Printed (.sequence none .seq items) := by
  intro place indent apart w hplace hvalue hplaced hinside hfaithful
  rw [faithful] at hfaithful
  rw [writeNode, if_neg (by simp [Writing.has]), tokens]
  show Prints w.sheet (if items.isEmpty = true then (w.indicator ['['] true true false).indicator
    [']'] false false false else writeItems [] (if (place = .value && !w.sheet.indenting) = true
      then indent else deeper indent) items w).sheet _
  by_cases hempty : items = []
  · subst hempty
    exact empty_prints .sequence hplaced
  · have hsome : ¬items.isEmpty = true := by simpa using hempty
    rw [if_neg hsome, if_neg hsome]
    cases apart with
    | true =>
      have hindenting : w.sheet.indenting = true := by
        cases hplaced with
        | start h => exact h.indenting
        | apart hcolumn hspaced hindenting => exact hindenting
      rw [if_neg (by simp [hindenting]), if_pos rfl]
      obtain ⟨e, hdeeper, hcolumn, hblock⟩ := block_prints hplaced
      rw [if_pos rfl, hdeeper] at hfaithful
      rw [hdeeper]
      exact hblock _ _ _ (items_prints hprinted hempty hcolumn hfaithful)
    | false =>
      -- Behind a key the items stand below the key itself, at the same column, and are not
      -- announced.
      obtain ⟨d, rfl⟩ : ∃ d, indent = some d := by cases hplaced; exact ⟨_, rfl⟩
      have hindenting : w.sheet.indenting = false := by
        cases hplaced with
        | behindKey hspaced hindenting => exact hindenting
      rw [if_pos (by simp [hvalue rfl, hindenting]), if_neg (by simp)]
      rw [if_neg (by simp)] at hfaithful
      obtain ⟨t, ht, hline, hclean, hreads, hled⟩ :=
        items_print_below hprinted hempty hplaced hfaithful
      exact ⟨t, ht, hline, hclean, hreads, fun _ => hled⟩

theorem mapping_prints {entries : List (Node × Node)}
    (hkeys : ∀ e ∈ entries, ∃ s, e.1 = .scalar none .str s)
    (hprinted : ∀ e ∈ entries, Printed e.1 ∧ Printed e.2) : Printed (.mapping none .map entries) := by
  intro place indent apart w hplace hvalue hplaced hinside hfaithful
  rw [faithful] at hfaithful
  rw [writeNode, if_neg (by simp [Writing.has]), tokens]
  show Prints w.sheet (if entries.isEmpty = true then (w.indicator ['\x7b'] true true false).indicator
    ['\x7d'] false false false else writeEntries [] (deeper indent) entries w).sheet _
  by_cases hempty : entries = []
  · subst hempty
    exact empty_prints .mapping hplaced
  · have hsome : ¬entries.isEmpty = true := by simpa using hempty
    rw [if_neg hsome, if_neg hsome]
    obtain ⟨e, hdeeper, hcolumn, hblock⟩ := block_prints hplaced
    rw [hdeeper] at hfaithful
    rw [hdeeper]
    exact hblock _ _ _ (entries_prints hkeys hprinted hempty hcolumn hfaithful)

/-- What is written for a node inside a collection gives its tokens. -/
theorem writeNode_prints {n : Node} (h : Ordinary n) : Printed n := by
  have htext : ∀ tag s, Ordinary (.scalar none tag s) → Printed (.scalar none tag s) := by
    intro tag s h place indent apart w hplace hvalue hplaced hinside hfaithful
    cases indent with
    | none => exact absurd rfl (hinside rfl tag s)
    | some d =>
      obtain ⟨t, ht, hline, hclean, hreads, hled⟩ := scalar_prints h hplace hplaced hfaithful
      exact ⟨t, ht, hline, hclean, hreads, fun _ => hled⟩
  induction h with
  | text s => exact htext _ _ (.text s)
  | word htag hform hshape hne => exact htext _ _ (.word htag hform hshape hne)
  | sequence h ih => exact sequence_prints ih
  | mapping hkeys h ih =>
    refine mapping_prints hkeys fun e he => ⟨?_, ih e he⟩
    obtain ⟨s, hs⟩ := hkeys e he
    rw [hs]
    exact htext _ _ (.text s)

/-! ## Documents -/

/-- Where nothing is shared, nothing is met twice. -/
theorem encounter_ordinary {n : Node} (h : Ordinary n) (e : Encounters) : encounter n e = e := by
  induction h generalizing e with
  | text s => rfl
  | word htag hform hshape hne => rfl
  | @sequence items h ih =>
    show encounterItems items e = e
    induction items with
    | nil => rfl
    | cons n rest ihrest =>
      rw [List.forall_mem_cons] at h ih
      rw [encounterItems, ih.1]
      exact ihrest h.2 ih.2
  | @mapping entries hkeys h ih =>
    show encounterEntries entries e = e
    induction entries with
    | nil => rfl
    | cons d rest ihrest =>
      obtain ⟨k, v⟩ := d
      rw [List.forall_mem_cons] at hkeys h ih
      obtain ⟨s, hs⟩ := hkeys.1
      dsimp only at hs
      subst hs
      -- A key is a text, and a text is never counted.
      rw [encounterEntries]
      show encounterEntries rest (encounter v e) = e
      rw [ih.1]
      exact ihrest hkeys.2 h.2 ih.2

theorem openEnded_items {items : List Node} (hw : w.openEnded = false)
    (h : ∀ n ∈ items, ∀ w : Writing, w.openEnded = false →
      (writeNode [] .item indent n w).openEnded = false) :
    (writeItems [] indent items w).openEnded = false := by
  induction items generalizing w with
  | nil => exact hw
  | cons n rest ih =>
    rw [List.forall_mem_cons] at h
    rw [writeItems]
    exact ih (h.1 _ rfl) h.2

theorem openEnded_entries {entries : List (Node × Node)} (hw : w.openEnded = false)
    (h : ∀ e ∈ entries, ∀ w : Writing, w.openEnded = false →
      (writeNode [] .value indent e.2 w).openEnded = false) :
    (writeEntries [] indent entries w).openEnded = false := by
  induction entries generalizing w with
  | nil => exact hw
  | cons e rest ih =>
    obtain ⟨k, v⟩ := e
    rw [List.forall_mem_cons] at h
    rw [writeEntries]
    refine ih (h.1 _ ?_) h.2
    dsimp only
    split <;> rfl

/-- Only a scalar on its own can be left open. -/
theorem openEnded_writeNode {n : Node} (h : Ordinary n) (hw : w.openEnded = false)
    (hinside : place = .root → ∀ tag s, n ≠ .scalar none tag s) :
    (writeNode [] place indent n w).openEnded = false := by
  have htext : ∀ (place : Place) (indent : Option Nat) (tag s) (w : Writing), place ≠ .root →
      (writeNode [] place indent (.scalar none tag s) w).openEnded = false := by
    intro place indent tag s w hplace
    rw [writeNode, if_neg (by simp [Writing.has])]
    simp [Writing.scalar, hplace]
  induction h generalizing place indent w with
  | text s => exact htext _ _ _ _ _ fun hroot => hinside hroot _ _ rfl
  | word htag hform hshape hne => exact htext _ _ _ _ _ fun hroot => hinside hroot _ _ rfl
  | @sequence items h ih =>
    rw [writeNode, if_neg (by simp [Writing.has])]
    show (if items.isEmpty = true then (w.indicator ['['] true true false).indicator
      [']'] false false false else writeItems [] (if (place = .value && !w.sheet.indenting) = true
        then indent else deeper indent) items w).openEnded = false
    split
    · rfl
    · exact openEnded_items hw fun n hn w hw => ih n hn hw (by simp)
  | @mapping entries hkeys h ih =>
    rw [writeNode, if_neg (by simp [Writing.has])]
    show (if entries.isEmpty = true then (w.indicator ['\x7b'] true true false).indicator ['\x7d'] false
      false false else writeEntries [] (deeper indent) entries w).openEnded = false
    split
    · rfl
    · exact openEnded_entries hw fun e he w hw => ih e he hw (by simp)

theorem atColumn_start : AtColumn 0 {} := ⟨rfl, rfl, rfl⟩

/-- The text of a node that no mark ends. -/
theorem write_of_closed {n : Node} {t : List Char} (h : Ordinary n)
    (htext : (writeNode [] .root none n {}).sheet.text = t)
    (hline : (writeNode [] .root none n {}).sheet.indenting = false)
    (hclosed : (writeNode [] .root none n {}).openEnded = false) : n.write = t ++ ['\n'] := by
  rw [Node.write, encounter_ordinary h]
  have hstay : ((writeNode [] .root none n {}).toColumn none).openEnded = false := hclosed
  dsimp only
  rw [if_neg (by simp [hstay])]
  show ((writeNode [] .root none n {}).sheet.toColumn 0).text = _
  rw [Sheet.toColumn_of_content hline, Sheet.text_newLine, htext]
  rfl

/-- The text of a scalar with the mark that ends it. -/
theorem write_of_open {n : Node} {t : List Char} (h : Ordinary n)
    (htext : (writeNode [] .root none n {}).sheet.text = t)
    (hline : (writeNode [] .root none n {}).sheet.indenting = false)
    (hopen : (writeNode [] .root none n {}).openEnded = true) :
    n.write = t ++ '\n' :: "...\n".toList := by
  rw [Node.write, encounter_ordinary h]
  have hstay : ((writeNode [] .root none n {}).toColumn none).openEnded = true := hopen
  dsimp only
  rw [if_pos hstay]
  show (((((writeNode [] .root none n {}).sheet.toColumn 0).indicator "...".toList true false
    false)).toColumn 0).text = _
  rw [Sheet.toColumn_of_content (by simp [Sheet.indicator, Sheet.mark]), Sheet.text_newLine,
    text_indicator, Sheet.toColumn_of_content hline, Sheet.text_newLine, htext]
  simp [gap]

theorem closed_tokens {n : Node} {t : List Char} {ts : List Token} (h : Ordinary n)
    (htext : (writeNode [] .root none n {}).sheet.text = t)
    (hline : (writeNode [] .root none n {}).sheet.indenting = false)
    (hclosed : (writeNode [] .root none n {}).openEnded = false)
    (hclean : ∀ c ∈ t, isClean c = true) (hreads : Reads (-1) true t ts) :
    Tokens.ofText n.write none = ⟨ts ++ [.streamEnd], none⟩ ∧ ∀ c ∈ n.write, isClean c = true := by
  rw [write_of_closed h htext hline hclosed]
  exact ⟨tokens_of_reads hreads, List.forall_mem_append.2 ⟨hclean, List.all_eq_true.1 rfl⟩⟩

/-- What is written for a collection as a document gives its tokens. -/
theorem collection_tokens {n : Node} (h : Ordinary n) (hfaithful : n.faithful true none = true)
    (hinside : ∀ tag s, n ≠ .scalar none tag s) :
    Tokens.ofText n.write none = ⟨n.tokens true ++ [.streamEnd], none⟩ ∧
      ∀ c ∈ n.write, isClean c = true := by
  obtain ⟨t, htext, hline, hclean, hreads, -⟩ := writeNode_prints h .root none true {} (by simp)
    (by simp) (.start atColumn_start) (fun _ => hinside) hfaithful
  exact closed_tokens h htext hline (openEnded_writeNode h rfl fun _ => hinside) hclean hreads

/-- What is written for a scalar as a document gives its token; a mark follows one without quotes. -/
theorem scalar_tokens (h : Ordinary (.scalar none tag s))
    (hfaithful : faithful true none (.scalar none tag s) = true) :
    Tokens.ofText (write (.scalar none tag s)) none = ⟨documentTokens (.scalar none tag s), none⟩ ∧
      ∀ c ∈ write (.scalar none tag s), isClean c = true := by
  obtain ⟨t, plain, htext, hline, hwrites, htokens⟩ := scalar_writes (w := {}) h
    (show Place.root ≠ .key by simp) hfaithful
  have hstyle : plain = decide (chooseStyle .value tag s = .plain) := by
    simpa [tokens, scalarToken] using htokens
  have hopen : (writeNode [] .root none (.scalar none tag s) {}).openEnded = plain := by
    rw [writeNode, if_neg (by simp [Writing.has]), hstyle,
      ← chooseStyle_of_ne_key (show Place.root ≠ .key by simp)]
    simp [Writing.scalar]
  -- Quotes close a scalar; without them only the mark behind it says that it goes no further.
  cases plain with
  | false =>
    have hquoted : documentTokens (.scalar none tag s) = [.scalar s false] ++ [.streamEnd] := by
      rw [documentTokens, endMarks, ← htokens, if_neg (by simpa using hstyle)]
      rfl
    rw [hquoted]
    exact closed_tokens h htext hline hopen hwrites.clean
      (reads_scalar (m := 0) hwrites (columnIn_pos _) (by simp only [columnIn]; omega) (by simp))
  | true =>
    have hplain : documentTokens (.scalar none tag s) =
        [.scalar s true, .documentEnd, .streamEnd] := by
      rw [documentTokens, endMarks, ← htokens, if_pos (by simpa using hstyle)]
      rfl
    rw [hplain, write_of_open h htext hline hopen]
    refine ⟨?_, List.forall_mem_append.2 ⟨hwrites.clean, List.all_eq_true.1 rfl⟩⟩
    cases hwrites with
    | plain hflows hstart => exact tokens_of_flows hflows hstart (columnIn_pos _)

/-- What is written for a node as a document of its own gives the tokens of the document. -/
theorem write_tokens {n : Node} (h : Ordinary n) (hfaithful : n.faithful true none = true) :
    Tokens.ofText n.write none = ⟨n.documentTokens, none⟩ ∧ ∀ c ∈ n.write, isClean c = true := by
  cases h with
  | text s => exact scalar_tokens (.text s) hfaithful
  | word htag hform hshape hne => exact scalar_tokens (.word htag hform hshape hne) hfaithful
  | sequence h =>
    simpa [documentTokens, endMarks] using collection_tokens (.sequence h) hfaithful (by simp)
  | mapping hkeys h =>
    simpa [documentTokens, endMarks] using collection_tokens (.mapping hkeys h) hfaithful (by simp)

end Node

end RegistryTree.Yaml
