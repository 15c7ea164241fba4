import Mathlib.Data.List.Induction
import RegistryTree.Proofs.Catalog.Selection

/-!
# Channels with one name

The list of channels in a descriptor may have several entries with one name, also where the names
differ in the white space around them. A name keeps one head, that of its last entry, and the heads
of the entries before it count as little as if they were not there: no release is looked for by
them, and it is not told when there is none.

> `mem_channels_iff`: the channels of a package are the entries that are the last of their names.
> `packagesOf_heads`: the head of an entry that is the last of its name is among the releases; any
> other head is so only where one of these leads to it.
-/

namespace RegistryTree

namespace Package

/-- The entries of the list of channels with their heads, as they stand in the descriptor. -/
def channelEntries (p : Package) : Except FieldFault (List (String × Option String)) := do
  let field := p.label ++ ".channels"
  let items ← Field.list field (Entries.get? p.document "channels")
  items.zipIdx.mapM fun (v, i) => do
    let here := Field.item field i
    let entries ← Field.asMapping here v
    let name ← Field.requiredText (here ++ ".name") (Entries.get? entries "name")
    let head ← Field.optionalText (here ++ ".currentCSV") (Entries.get? entries "currentCSV")
    return (name, head)

/-- The channels are the entries set one after the other. -/
theorem channels_eq_ok_iff {p : Package} {channels : List (String × Option String)} :
    p.channels = .ok channels ↔
      ∃ listed, p.channelEntries = .ok listed ∧
        listed.foldl Package.channels.place [] = channels := by
  simp only [Package.channels, channelEntries, bind_eq_ok_iff]
  constructor
  · intro h
    obtain ⟨items, hitems, listed, hlisted, heq⟩ := h
    exact ⟨listed, ⟨items, hitems, hlisted⟩, Except.ok.inj heq⟩
  · intro h
    obtain ⟨listed, ⟨items, hitems, hlisted⟩, rfl⟩ := h
    exact ⟨items, hitems, listed, hlisted, rfl⟩

/-- Whether an entry of a list is the last with its name. -/
def Latest (listed : List (String × Option String)) (e : String × Option String) : Prop :=
  ∃ front back, listed = front ++ e :: back ∧ ∀ later ∈ back, later.1 ≠ e.1

theorem latest_concat_iff {listed : List (String × Option String)}
    {last e : String × Option String} :
    Latest (listed ++ [last]) e ↔ e = last ∨ e.1 ≠ last.1 ∧ Latest listed e := by
  constructor
  · rintro ⟨front, back, hsplit, hback⟩
    -- Either the entry is the added one, or the added one stands last among those behind it.
    rcases List.eq_nil_or_concat back with rfl | ⟨more, b, rfl⟩
    · obtain ⟨-, heq⟩ := List.append_inj' hsplit rfl
      exact Or.inl (List.cons.inj heq).1.symm
    · rw [List.concat_eq_append] at hsplit hback
      rw [← List.cons_append, ← List.append_assoc] at hsplit
      obtain ⟨hlisted, heq⟩ := List.append_inj' hsplit rfl
      obtain rfl := (List.cons.inj heq).1
      refine Or.inr ⟨fun h => hback last (by simp) h.symm, front, more, hlisted, fun later hl => ?_⟩
      exact hback later (List.mem_append_left _ hl)
  · rintro (rfl | ⟨hne, front, back, rfl, hback⟩)
    · exact ⟨listed, [], rfl, by simp⟩
    · refine ⟨front, back ++ [last], by simp, fun later hl => ?_⟩
      rcases List.mem_append.1 hl with hold | hlast
      · exact hback later hold
      · cases List.mem_singleton.1 hlast
        exact fun heq => hne heq.symm

/-- An entry takes the place of all that has its name. -/
theorem mem_place_iff {placed : List (String × Option String)} {last e : String × Option String} :
    e ∈ channels.place placed last ↔ e = last ∨ e.1 ≠ last.1 ∧ e ∈ placed := by
  unfold channels.place
  split
  next hany =>
    obtain ⟨d, hd, hname⟩ := List.any_eq_true.1 hany
    rw [List.mem_map]
    constructor
    · rintro ⟨d', hd', rfl⟩
      by_cases hsame : d'.1 = last.1
      · exact Or.inl (if_pos hsame)
      · rw [if_neg hsame]
        exact Or.inr ⟨hsame, hd'⟩
    · rintro (rfl | ⟨hne, hmem⟩)
      · exact ⟨d, hd, if_pos (by simpa using hname)⟩
      · exact ⟨e, hmem, if_neg hne⟩
  next hnone =>
    have hfree : ∀ d ∈ placed, d.1 ≠ last.1 := by
      intro d hd heq
      exact hnone (List.any_eq_true.2 ⟨d, hd, by simpa using heq⟩)
    rw [List.mem_append, List.mem_singleton, or_comm]
    exact or_congr_right ⟨fun hmem => ⟨hfree e hmem, hmem⟩, fun h => h.2⟩

/-- The entries that are left are those that are the last of their names. -/
theorem mem_foldl_place_iff {listed : List (String × Option String)}
    {e : String × Option String} : e ∈ listed.foldl channels.place [] ↔ Latest listed e := by
  induction listed using List.reverseRecOn with
  | nil =>
    constructor
    · intro h
      cases h
    · intro h
      obtain ⟨front, back, hsplit, -⟩ := h
      simp at hsplit
  | append_singleton listed last ih =>
    rw [List.foldl_concat, mem_place_iff, latest_concat_iff, ih]

/-- The channels of a package are the entries that are the last of their names. -/
theorem mem_channels_iff {p : Package} {listed channels : List (String × Option String)}
    (hlisted : p.channelEntries = .ok listed) (hchannels : p.channels = .ok channels)
    {e : String × Option String} : e ∈ channels ↔ Latest listed e := by
  obtain ⟨listed', hlisted', rfl⟩ := channels_eq_ok_iff.1 hchannels
  rw [hlisted] at hlisted'
  cases hlisted'
  exact mem_foldl_place_iff

end Package

namespace Catalog

open Package

/-- Each descriptor makes a package, in which the head of an entry for a channel is found among the
releases when no entry behind it has the same name; and a head is found there exactly when an entry
that is the last of its name leads to it. -/
theorem packagesOf_heads {place : String} {data : Value} {packages : List Package}
    (h : packagesOf place data = .ok packages) :
    ∃ c, ofValue place data = .ok c ∧ List.Forall₂ (fun descriptor p =>
      ∃ shell listed, Package.ofParts descriptor [] [] = .ok shell ∧
        shell.channelEntries = .ok listed ∧ ∀ front channel head back,
        listed = front ++ (channel, some head) :: back →
          ((∀ later ∈ back, later.1 ≠ channel) → ∃ r ∈ p.releases, r.name = head) ∧
          ((∃ r ∈ p.releases, r.name = head) ↔ ∃ channel' head',
            Latest listed (channel', some head') ∧
            Relation.ReflTransGen (Replaces c.releases) head' head)) c.descriptors packages := by
  obtain ⟨c, hc, hall⟩ := forall₂_of_packagesOf h
  refine ⟨c, hc, hall.imp fun descriptor p hmade => ?_⟩
  obtain ⟨taken, hassemble⟩ := hmade
  obtain ⟨shell, channels, names, hshell, -, hchannels, hnames, rfl⟩ :=
    assemble_eq_ok_iff.1 hassemble
  obtain ⟨listed, hlisted, -⟩ := channels_eq_ok_iff.1 hchannels
  have hreached : ∀ name, (∃ r ∈ c.releasesOf names, r.name = name) ↔ ∃ channel' head',
      Latest listed (channel', some head') ∧
      Relation.ReflTransGen (Replaces c.releases) head' name := by
    intro name
    rw [mem_releasesOf_iff (gathered_of_reachable hnames)]
    simp only [Reached, mem_channels_iff hlisted hchannels]
  refine ⟨shell, listed, hshell, hlisted, fun front channel head back hsplit => ⟨fun hlast => ?_,
    hreached head⟩⟩
  exact (hreached head).2 ⟨channel, head, ⟨front, back, hsplit, hlast⟩, .refl⟩

/-- Of two entries with one name the first is not looked at, though there is no release of the name
that it gives. -/
theorem packagesOf_heads_twice :
    ∃ p,
      packagesOf "meta" (ringMetadata [("stable", "demo.v9"), (" stable", "demo.v1")]) = .ok [p] ∧
      (∃ r ∈ p.releases, r.name = "demo.v1") ∧ ¬ ∃ r ∈ p.releases, r.name = "demo.v9" := by
  obtain ⟨p, hp, hnames⟩ : ∃ p,
      packagesOf "meta" (ringMetadata [("stable", "demo.v9"), (" stable", "demo.v1")]) = .ok [p] ∧
        p.releases.map (·.name) = ["demo.v1", "demo.v2"] := ⟨_, rfl, rfl⟩
  obtain ⟨c, hc, hall⟩ := packagesOf_heads hp
  obtain ⟨descriptor, hd, shell, listed, hshell, hlisted, hheads⟩ :=
    mem_of_forall₂ hall List.mem_cons_self
  have hdescriptors : c.descriptors =
      [ringDescriptor [("stable", "demo.v9"), (" stable", "demo.v1")]] := by
    have hcatalog : (ofValue "meta" (ringMetadata [("stable", "demo.v9"),
        (" stable", "demo.v1")])).map (·.descriptors) = .ok
          [ringDescriptor [("stable", "demo.v9"), (" stable", "demo.v1")]] := rfl
    rw [hc] at hcatalog
    exact Except.ok.inj hcatalog
  rw [hdescriptors, List.mem_singleton] at hd
  subst hd
  have hentries : listed = [("stable", some "demo.v9"), ("stable", some "demo.v1")] := by
    have hshown : (Package.ofParts (ringDescriptor [("stable", "demo.v9"), (" stable", "demo.v1")])
        [] []).bind channelEntries =
          .ok [("stable", some "demo.v9"), ("stable", some "demo.v1")] := rfl
    rw [hshell] at hshown
    exact Except.ok.inj (hlisted.symm.trans hshown)
  refine ⟨p, hp, ?_, fun hgiven => ?_⟩
  · exact (hheads [("stable", some "demo.v9")] "stable" "demo.v1" [] (by simp [hentries])).1
      (by simp)
  · obtain ⟨r, hr, hname⟩ := hgiven
    have hmem : r.name ∈ p.releases.map (·.name) := List.mem_map_of_mem hr
    rw [hnames, hname] at hmem
    revert hmem
    decide

end Catalog

end RegistryTree
