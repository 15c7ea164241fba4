import RegistryTree.Proofs.Except
import RegistryTree.Proofs.Yaml.Node.Ordinary
import RegistryTree.Yaml.Node.Parser

/-!
# What is read from the tokens of a node

The grammar gives back an ordinary node from its tokens, but with share numbers: every node that is
read gets one. A collection is read behind the token that opens it, up to the token that closes it;
the items of a sequence behind a key have neither, and end in front of a token that is no dash.

> `node_tokens`: a node inside a collection.
> `ofTokens_documentTokens`: a document.
-/

namespace RegistryTree.Yaml

namespace Node

mutual

/-- A node without its share numbers. -/
def unshared : Node → Node
  | scalar _ tag s => scalar none tag s
  | sequence _ tag items => sequence none tag (unsharedItems items)
  | mapping _ tag entries => mapping none tag (unsharedEntries entries)

/-- Items without their share numbers. -/
def unsharedItems : List Node → List Node
  | [] => []
  | n :: rest => unshared n :: unsharedItems rest

/-- Entries without their share numbers. -/
def unsharedEntries : List (Node × Node) → List (Node × Node)
  | [] => []
  | (k, v) :: rest => (unshared k, unshared v) :: unsharedEntries rest

end

theorem unsharedItems_eq_map (items : List Node) : unsharedItems items = items.map unshared := by
  induction items with
  | nil => rfl
  | cons n rest ih => rw [unsharedItems, ih, List.map_cons]

theorem unsharedEntries_eq_map (entries : List (Node × Node)) :
    unsharedEntries entries = entries.map fun e => (e.1.unshared, e.2.unshared) := by
  induction entries with
  | nil => rfl
  | cons e rest ih => rw [unsharedEntries, ih, List.map_cons]

end Node

namespace Parser

open Node

/-- The parser where other tokens are left. -/
def left (tokens : List Token) (count : Nat) (s : Parser) : Parser := { s with tokens, count }

variable {s : Parser} {t : Token} {rest ts : List Token} {count count' fuel : Nat}
  {apart block indentless : Bool}

theorem peek_left : (s.left (t :: rest) count).peek = .ok t := rfl

/-- The tokens that what stands for a node begins with, items without an announcement apart. -/
inductive Opens : Token → Prop
  | scalar (text : List Char) (plain : Bool) : Opens (.scalar text plain)
  | flowSequence : Opens .flowSequenceStart
  | flowMapping : Opens .flowMappingStart
  | blockSequence : Opens .blockSequenceStart
  | blockMapping : Opens .blockMappingStart

/-- A node has no properties. -/
theorem node_left (h : Opens t ∨ t = .blockEntry) :
    node block indentless (fuel + 1) (s.left (t :: rest) count) =
      content block indentless (some count) {} none fuel (s.left (t :: rest) (count + 1)) := by
  have hfinish : ∀ r : Except Fault (Node × Parser),
      (r >>= fun x => .ok (x.1, x.2.finish none x.1)) = r := by
    rintro (e | ⟨n, s⟩) <;> rfl
  rw [← hfinish (content ..), node, peek_left]
  rcases h with h | rfl
  · cases h <;> rfl
  · rfl

variable {s₁ s₂ : Parser} {k n : Node} {more : List Node}

/-- An item behind its dash. -/
theorem blockItems_cons (h : Opens t)
    (hitem : node true false fuel (s.left (t :: rest) count) = .ok (n, s₁))
    (hmore : blockItems fuel s₁ = .ok (more, s₂)) :
    blockItems (fuel + 1) (s.left (.blockEntry :: t :: rest) count) = .ok (n :: more, s₂) := by
  rw [blockItems, peek_left]
  refine bind_eq_ok_iff.2 ⟨_, rfl, bind_eq_ok_iff.2 ⟨t, rfl, ?_⟩⟩
  cases h <;> exact bind_eq_ok_iff.2 ⟨_, hitem, bind_eq_ok_iff.2 ⟨_, hmore, rfl⟩⟩

theorem blockItems_end :
    blockItems (fuel + 1) (s.left (.blockEnd :: rest) count) = .ok ([], s.left rest count) := by
  rw [blockItems, peek_left]
  rfl

/-- An item behind its dash, in a sequence behind a key. -/
theorem indentlessItems_cons (h : Opens t)
    (hitem : node true false fuel (s.left (t :: rest) count) = .ok (n, s₁))
    (hmore : indentlessItems fuel s₁ = .ok (more, s₂)) :
    indentlessItems (fuel + 1) (s.left (.blockEntry :: t :: rest) count) = .ok (n :: more, s₂) := by
  rw [indentlessItems, peek_left]
  refine bind_eq_ok_iff.2 ⟨_, rfl, bind_eq_ok_iff.2 ⟨t, rfl, ?_⟩⟩
  cases h <;> exact bind_eq_ok_iff.2 ⟨_, hitem, bind_eq_ok_iff.2 ⟨_, hmore, rfl⟩⟩

theorem indentlessItems_end (h : t ≠ .blockEntry) :
    indentlessItems (fuel + 1) (s.left (t :: rest) count) = .ok ([], s.left (t :: rest) count) := by
  rw [indentlessItems, peek_left]
  cases t <;> first | exact absurd rfl h | rfl

/-- Where a node begins, it has not been left out. -/
theorem not_endsBlockNode (h : Opens t ∨ t = .blockEntry) : ¬endsBlockNode t = true := by
  rcases h with h | rfl
  · cases h <;> simp [endsBlockNode]
  · simp [endsBlockNode]

/-- A value behind its key. -/
theorem blockEntries_cons {u : Token} {v : Node} {s₃ : Parser} {entries : List (Node × Node)}
    (ht : Opens t) (hu : Opens u ∨ u = .blockEntry)
    (hkey : node true true fuel (s.left (t :: rest) count) =
      .ok (k, s₁.left (.value :: u :: ts) count'))
    (hvalue : node true true fuel (s₁.left (u :: ts) count') = .ok (v, s₂))
    (hmore : blockEntries fuel s₂ = .ok (entries, s₃)) :
    blockEntries (fuel + 1) (s.left (.key :: t :: rest) count) = .ok ((k, v) :: entries, s₃) := by
  rw [blockEntries, peek_left]
  refine bind_eq_ok_iff.2 ⟨_, rfl, bind_eq_ok_iff.2 ⟨t, rfl, ?_⟩⟩
  rw [if_neg (not_endsBlockNode (Or.inl ht))]
  refine bind_eq_ok_iff.2 ⟨_, hkey, bind_eq_ok_iff.2 ⟨.value, rfl, bind_eq_ok_iff.2 ⟨u, rfl, ?_⟩⟩⟩
  rw [if_neg (not_endsBlockNode hu)]
  exact bind_eq_ok_iff.2 ⟨_, hvalue, bind_eq_ok_iff.2 ⟨_, hmore, rfl⟩⟩

theorem blockEntries_end :
    blockEntries (fuel + 1) (s.left (.blockEnd :: rest) count) = .ok ([], s.left rest count) := by
  rw [blockEntries, peek_left]
  rfl

/-! ## Nodes -/

theorem node_scalar {text : List Char} {plain : Bool} :
    node block indentless (fuel + 2) (s.left (.scalar text plain :: rest) count) =
      .ok (.scalar (some count) (scalarTag none plain text) text, s.left rest (count + 1)) := by
  rw [node_left (Or.inl (.scalar text plain)), content, peek_left]
  rfl

theorem node_blockItems (h : blockItems fuel (s.left rest (count + 1)) = .ok (more, s₁)) :
    node true indentless (fuel + 2) (s.left (.blockSequenceStart :: rest) count) =
      .ok (.sequence (some count) .seq more, s₁) := by
  rw [node_left (Or.inl .blockSequence), content, peek_left]
  show (fun r : List Node × Parser => (Node.sequence (some count) .seq r.1, r.2)) <$>
    blockItems fuel (s.left rest (count + 1)) = _
  rw [h]
  rfl

theorem node_indentlessItems
    (h : indentlessItems fuel (s.left (.blockEntry :: rest) (count + 1)) = .ok (more, s₁)) :
    node block true (fuel + 2) (s.left (.blockEntry :: rest) count) =
      .ok (.sequence (some count) .seq more, s₁) := by
  rw [node_left (Or.inr rfl), content, peek_left]
  show (fun r : List Node × Parser => (Node.sequence (some count) .seq r.1, r.2)) <$>
    indentlessItems fuel (s.left (.blockEntry :: rest) (count + 1)) = _
  rw [h]
  rfl

theorem node_blockEntries {entries : List (Node × Node)}
    (h : blockEntries fuel (s.left rest (count + 1)) = .ok (entries, s₁)) :
    node true indentless (fuel + 2) (s.left (.blockMappingStart :: rest) count) =
      .ok (.mapping (some count) .map entries, s₁) := by
  rw [node_left (Or.inl .blockMapping), content, peek_left]
  show (fun r : List (Node × Node) × Parser => (Node.mapping (some count) .map r.1, r.2)) <$>
    blockEntries fuel (s.left rest (count + 1)) = _
  rw [h]
  rfl

theorem node_noItems :
    node block indentless (fuel + 3) (s.left (.flowSequenceStart :: .flowSequenceEnd :: rest) count) =
      .ok (.sequence (some count) .seq [], s.left rest (count + 1)) := by
  rw [node_left (Or.inl .flowSequence), content, peek_left]
  show (fun r : List Node × Parser => (Node.sequence (some count) .seq r.1, r.2)) <$>
    flowItems true (fuel + 1) (s.left (.flowSequenceEnd :: rest) (count + 1)) = _
  rw [flowItems, peek_left]
  rfl

theorem node_noEntries :
    node block indentless (fuel + 3) (s.left (.flowMappingStart :: .flowMappingEnd :: rest) count) =
      .ok (.mapping (some count) .map [], s.left rest (count + 1)) := by
  rw [node_left (Or.inl .flowMapping), content, peek_left]
  show (fun r : List (Node × Node) × Parser => (Node.mapping (some count) .map r.1, r.2)) <$>
    flowEntries true (fuel + 1) (s.left (.flowMappingEnd :: rest) (count + 1)) = _
  rw [flowEntries, peek_left]
  rfl

/-- What stands apart begins with a token that opens a node. -/
theorem tokens_apart (n : Node) : ∃ t ts, n.tokens true = t :: ts ∧ Opens t := by
  cases n with
  | scalar share tag s => exact ⟨_, _, by rw [Node.tokens, scalarToken], .scalar ..⟩
  | sequence share tag items =>
    rw [Node.tokens, if_pos rfl]
    split
    · exact ⟨_, _, rfl, .flowSequence⟩
    · exact ⟨_, _, rfl, .blockSequence⟩
  | mapping share tag entries =>
    rw [Node.tokens]
    split
    · exact ⟨_, _, rfl, .flowMapping⟩
    · exact ⟨_, _, rfl, .blockMapping⟩

theorem tokens_head (n : Node) (apart : Bool) :
    ∃ t ts, n.tokens apart = t :: ts ∧ (Opens t ∨ t = .blockEntry) := by
  cases apart with
  | true =>
    obtain ⟨t, ts, hts, ht⟩ := tokens_apart n
    exact ⟨t, ts, hts, Or.inl ht⟩
  | false =>
    cases n with
    | sequence share tag items =>
      rw [Node.tokens]
      cases items with
      | nil => exact ⟨_, _, rfl, Or.inl .flowSequence⟩
      | cons n rest => exact ⟨_, _, by rw [itemTokens]; rfl, Or.inr rfl⟩
    | scalar share tag s => exact ⟨_, _, by rw [Node.tokens, scalarToken], Or.inl (.scalar ..)⟩
    | mapping share tag entries =>
      obtain ⟨t, ts, hts, ht⟩ := tokens_apart (.mapping share tag entries)
      exact ⟨t, ts, by rw [← hts, Node.tokens, Node.tokens], Or.inl ht⟩

/-- What is to be shown of a node: it is read from its tokens. The items of a sequence behind a key
must be followed by a token that is no dash. -/
def Parsed (n : Node) : Prop :=
  ∀ (apart indentless : Bool) (fuel count : Nat) (s : Parser) (rest : List Token),
    3 * (n.tokens apart).length ≤ fuel →
    (apart = false → indentless = true ∧ ∃ t more, rest = t :: more ∧ t ≠ .blockEntry) →
    ∃ m count', node true indentless fuel (s.left (n.tokens apart ++ rest) count) =
      .ok (m, s.left rest count') ∧ m.unshared = n

theorem blockItems_tokens (s : Parser) (rest : List Token) (fuel count : Nat) {items : List Node} (h : ∀ n ∈ items, Parsed n)
    (hfuel : 3 * (itemTokens items).length < fuel) :
    ∃ ms count', blockItems fuel (s.left (itemTokens items ++ .blockEnd :: rest) count) =
      .ok (ms, s.left rest count') ∧ unsharedItems ms = items := by
  obtain ⟨fuel, rfl⟩ : ∃ m, fuel = m + 1 := ⟨fuel - 1, by omega⟩
  induction items generalizing fuel count with
  | nil => exact ⟨[], count, by rw [itemTokens]; exact blockItems_end, rfl⟩
  | cons n items ih =>
    obtain ⟨hn, hitems⟩ := List.forall_mem_cons.1 h
    rw [itemTokens, List.length_append, List.length_cons] at hfuel
    obtain ⟨m, count₁, hm, hsame⟩ := hn true false fuel count s
      (itemTokens items ++ .blockEnd :: rest) (by omega) (by simp)
    obtain ⟨fuel', hfuel'⟩ : ∃ l, fuel = l + 1 := ⟨fuel - 1, by omega⟩
    subst hfuel'
    obtain ⟨ms, count₂, hms, hsames⟩ := ih count₁ hitems fuel' (by omega)
    obtain ⟨t, ts, hts, ht⟩ := tokens_apart n
    refine ⟨m :: ms, count₂, ?_, by rw [unsharedItems, hsame, hsames]⟩
    rw [hts] at hm
    have hall : itemTokens (n :: items) ++ .blockEnd :: rest =
        .blockEntry :: t :: (ts ++ (itemTokens items ++ .blockEnd :: rest)) := by
      rw [itemTokens, hts]
      simp
    rw [hall]
    exact blockItems_cons ht hm hms

theorem indentlessItems_tokens (s : Parser) (rest : List Token) (fuel count : Nat) {items : List Node} (h : ∀ n ∈ items, Parsed n)
    (hfuel : 3 * (itemTokens items).length ≤ fuel + 3) (ht : t ≠ .blockEntry) :
    ∃ ms count', indentlessItems (fuel + 1) (s.left (itemTokens items ++ t :: rest) count) =
      .ok (ms, s.left (t :: rest) count') ∧ unsharedItems ms = items := by
  induction items generalizing fuel count with
  | nil => exact ⟨[], count, by rw [itemTokens]; exact indentlessItems_end ht, rfl⟩
  | cons n items ih =>
    obtain ⟨hn, hitems⟩ := List.forall_mem_cons.1 h
    obtain ⟨u, us, hus, hu⟩ := tokens_apart n
    have hpos : (n.tokens true).length = us.length + 1 := by rw [hus]; rfl
    rw [itemTokens, List.length_append, List.length_cons] at hfuel
    obtain ⟨m, count₁, hm, hsame⟩ := hn true false fuel count s
      (itemTokens items ++ t :: rest) (by omega) (by simp)
    obtain ⟨fuel, rfl⟩ : ∃ l, fuel = l + 1 := ⟨fuel - 1, by omega⟩
    obtain ⟨ms, count₂, hms, hsames⟩ := ih fuel count₁ hitems (by omega)
    refine ⟨m :: ms, count₂, ?_, by rw [unsharedItems, hsame, hsames]⟩
    rw [hus] at hm
    have hall : itemTokens (n :: items) ++ t :: rest =
        .blockEntry :: u :: (us ++ (itemTokens items ++ t :: rest)) := by
      rw [itemTokens, hus]
      simp
    rw [hall]
    exact indentlessItems_cons hu hm hms

theorem blockEntries_tokens (s : Parser) (rest : List Token) (fuel count : Nat)
    {entries : List (Node × Node)}
    (h : ∀ e ∈ entries, Parsed e.1 ∧ Parsed e.2)
    (hfuel : 3 * (entryTokens entries).length ≤ fuel) :
    ∃ es count', blockEntries (fuel + 1) (s.left (entryTokens entries ++ .blockEnd :: rest) count) =
      .ok (es, s.left rest count') ∧ unsharedEntries es = entries := by
  induction entries generalizing fuel count with
  | nil => exact ⟨[], count, by rw [entryTokens]; exact blockEntries_end, rfl⟩
  | cons e entries ih =>
    obtain ⟨k, v⟩ := e
    obtain ⟨⟨hk, hv⟩, hentries⟩ := List.forall_mem_cons.1 h
    dsimp only at hk hv
    rw [entryTokens] at hfuel
    simp only [List.length_append, List.length_cons] at hfuel
    -- what stands behind the value is a key or the end
    have hbehind : ∃ t more, entryTokens entries ++ .blockEnd :: rest = t :: more ∧
        t ≠ .blockEntry := by
      cases entries with
      | nil => exact ⟨_, _, by rw [entryTokens]; rfl, by simp⟩
      | cons e entries => exact ⟨_, _, by rw [entryTokens]; rfl, by simp⟩
    obtain ⟨m, count₁, hm, hsame⟩ := hk true true fuel count s
      (.value :: v.tokens (!k.isShort) ++ (entryTokens entries ++ .blockEnd :: rest)) (by omega)
      (by simp)
    obtain ⟨m', count₂, hm', hsame'⟩ := hv (!k.isShort) true fuel count₁ s
      (entryTokens entries ++ .blockEnd :: rest) (by omega) fun _ => ⟨rfl, hbehind⟩
    obtain ⟨fuel, rfl⟩ : ∃ l, fuel = l + 1 := ⟨fuel - 1, by omega⟩
    obtain ⟨es, count₃, hes, hsames⟩ := ih fuel count₂ hentries (by omega)
    refine ⟨(m, m') :: es, count₃, ?_, by rw [unsharedEntries, hsame, hsame', hsames]⟩
    obtain ⟨t, ts, hts, ht⟩ := tokens_apart k
    obtain ⟨u, us, hus, hu⟩ := tokens_head v (!k.isShort)
    rw [hts, hus] at hm
    rw [hus] at hm'
    have hall : entryTokens ((k, v) :: entries) ++ .blockEnd :: rest = .key :: t ::
        (ts ++ (.value :: u :: us ++ (entryTokens entries ++ .blockEnd :: rest))) := by
      rw [entryTokens, hts, hus]
      simp
    rw [hall]
    exact blockEntries_cons ht hu hm hm' hes

/-- The token of a scalar shows its tag. -/
theorem scalarTag_scalarToken {tag : Tag} {text : List Char} (h : Ordinary (.scalar none tag text)) :
    scalarTag none (chooseStyle .value tag text = .plain) text = tag := by
  have hform : chooseStyle .value tag text = .plain → Form.tagOf text = tag := by
    intro hstyle
    refine (Scalar.chooseStyle_plain ?_ hstyle).1
    cases h with
    | text s => simp
    | word htag => rintro rfl; simp at htag
  rw [scalarTag]
  split
  next hstyle => exact hform (by simpa using hstyle)
  next hstyle =>
    cases h with
    | text s => rfl
    | word htag hform hshape hne =>
      have hbinary : tag ≠ .binary := by
        rintro rfl
        simp at htag
      rw [Scalar.chooseStyle_eq hbinary, if_pos ⟨hform, hshape, Or.inl (by simp)⟩] at hstyle
      exact absurd rfl (of_decide_eq_false (Bool.eq_false_iff.2 hstyle))

/-- A scalar is read from its token. -/
theorem parsed_scalar {tag : Tag} {text : List Char} (h : Ordinary (.scalar none tag text)) :
    Parsed (.scalar none tag text) := by
  intro apart indentless fuel count p rest hfuel hbehind
  rw [Node.tokens] at hfuel ⊢
  obtain ⟨fuel, rfl⟩ : ∃ l, fuel = l + 2 := ⟨fuel - 2, by simp at hfuel; omega⟩
  exact ⟨_, _, node_scalar, congrArg (Node.scalar none · text) (scalarTag_scalarToken h)⟩

/-- A sequence is read from its tokens, with an announcement or behind its key without one. -/
theorem parsed_sequence {items : List Node} (h : ∀ n ∈ items, Parsed n) :
    Parsed (.sequence none .seq items) := by
  intro apart indentless fuel count s rest hfuel hbehind
  rw [Node.tokens] at hfuel ⊢
  by_cases hempty : items = []
  · subst hempty
    obtain ⟨fuel, rfl⟩ : ∃ l, fuel = l + 3 := ⟨fuel - 3, by simp at hfuel; omega⟩
    exact ⟨_, _, node_noItems, rfl⟩
  · have hsome : ¬items.isEmpty = true := by simpa using hempty
    rw [if_neg hsome] at hfuel ⊢
    cases apart with
    | true =>
      rw [if_pos rfl, List.length_append, List.length_cons] at hfuel
      rw [if_pos rfl, List.append_assoc]
      obtain ⟨fuel, rfl⟩ : ∃ l, fuel = l + 2 := ⟨fuel - 2, by omega⟩
      obtain ⟨ms, count', hms, hsame⟩ := blockItems_tokens s rest fuel (count + 1) h
        (by simp at hfuel; omega)
      exact ⟨.sequence (some count) .seq ms, count', node_blockItems hms,
        congrArg (Node.sequence none .seq) hsame⟩
    | false =>
      -- Without an announcement nothing tells where the items end but the token behind them.
      obtain ⟨rfl, t, more, rfl, ht⟩ := hbehind rfl
      rw [if_neg (by simp)] at hfuel ⊢
      obtain ⟨n, items, rfl⟩ := List.exists_cons_of_ne_nil hempty
      have hdash : ∃ ts, itemTokens (n :: items) = .blockEntry :: ts := ⟨_, by rw [itemTokens]; rfl⟩
      obtain ⟨ts, hts⟩ := hdash
      have hlength : (itemTokens (n :: items)).length = ts.length + 1 := by rw [hts]; rfl
      obtain ⟨fuel, rfl⟩ : ∃ l, fuel = l + 3 := ⟨fuel - 3, by omega⟩
      obtain ⟨ms, count', hms, hsame⟩ := indentlessItems_tokens s more fuel (count + 1) h hfuel ht
      rw [hts] at hms ⊢
      exact ⟨.sequence (some count) .seq ms, count', node_indentlessItems hms,
        congrArg (Node.sequence none .seq) hsame⟩

/-- A mapping is read from its tokens. -/
theorem parsed_mapping {entries : List (Node × Node)}
    (h : ∀ e ∈ entries, Parsed e.1 ∧ Parsed e.2) : Parsed (.mapping none .map entries) := by
  intro apart indentless fuel count s rest hfuel hbehind
  rw [Node.tokens] at hfuel ⊢
  by_cases hempty : entries = []
  · subst hempty
    obtain ⟨fuel, rfl⟩ : ∃ l, fuel = l + 3 := ⟨fuel - 3, by simp at hfuel; omega⟩
    exact ⟨_, _, node_noEntries, rfl⟩
  · have hsome : ¬entries.isEmpty = true := by simpa using hempty
    rw [if_neg hsome] at hfuel ⊢
    rw [List.length_append, List.length_cons] at hfuel
    rw [List.append_assoc]
    obtain ⟨fuel, rfl⟩ : ∃ l, fuel = l + 3 := ⟨fuel - 3, by omega⟩
    obtain ⟨es, count', hes, hsame⟩ := blockEntries_tokens s rest fuel (count + 1) h
      (by simp at hfuel; omega)
    exact ⟨.mapping (some count) .map es, count', node_blockEntries hes,
      congrArg (Node.mapping none .map) hsame⟩

/-- A node is read from its tokens. -/
theorem node_tokens {n : Node} (h : Ordinary n) : Parsed n := by
  induction h with
  | text s => exact parsed_scalar (.text s)
  | word htag hform hshape hne => exact parsed_scalar (.word htag hform hshape hne)
  | sequence h ih => exact parsed_sequence ih
  | mapping hkeys h ih =>
    refine parsed_mapping fun e he => ⟨?_, ih e he⟩
    obtain ⟨s, hs⟩ := hkeys e he
    rw [hs]
    exact parsed_scalar (.text s)

/-! ## Documents -/

/-- A document is read from its tokens. -/
theorem ofTokens_documentTokens {n : Node} (h : Ordinary n) :
    ∃ m, Node.ofTokens ⟨n.documentTokens, none⟩ = .ok (some m) ∧ m.unshared = n := by
  obtain ⟨t, ts, hts, ht⟩ := tokens_apart n
  -- the parser in front of the document
  have hstart : ({ tokens := n.documentTokens, fault := .malformed } : Parser) =
      ({ tokens := [], fault := .malformed } : Parser).left n.documentTokens 0 := rfl
  obtain ⟨m, count, hm, hsame⟩ := node_tokens h true false (3 * n.documentTokens.length + 8) 0
    { tokens := [], fault := .malformed } (n.endMarks ++ [.streamEnd])
    (by rw [documentTokens]; simp; omega) (by simp)
  rw [← documentTokens, ← hstart] at hm
  have hfirst : firstDocument { tokens := n.documentTokens, fault := .malformed } =
      .ok (some m, ({ tokens := [], fault := .malformed } : Parser).left
        (n.endMarks ++ [.streamEnd]) count) := by
    rw [documentTokens, hts] at hm ⊢
    rw [firstDocument]
    refine bind_eq_ok_iff.2 ⟨t, rfl, ?_⟩
    cases ht <;> exact bind_eq_ok_iff.2 ⟨_, hm, rfl⟩
  -- the marks behind it
  have hend : ∀ s : Parser, (s.left (n.endMarks ++ [Token.streamEnd]) count).skipDocumentEnds =
      s.left [.streamEnd] count := by
    intro s
    have hdrop : (n.endMarks ++ [Token.streamEnd]).dropWhile (· = Token.documentEnd) =
        [.streamEnd] := by
      rw [List.dropWhile_append_of_pos fun t ht => by simpa using eq_of_mem_endMarks ht]
      rfl
    show s.left ((n.endMarks ++ [Token.streamEnd]).dropWhile (· = Token.documentEnd)) count = _
    rw [hdrop]
  refine ⟨m, ?_, hsame⟩
  rw [Node.ofTokens]
  refine bind_eq_ok_iff.2 ⟨_, hfirst, bind_eq_ok_iff.2 ⟨.streamEnd, ?_, rfl⟩⟩
  rw [hend]
  rfl

end Parser

end RegistryTree.Yaml
