import RegistryTree.Proofs.FileSystem.Tree

/-!
# The places that a walk passes

A walk looks at what stands in some places and nowhere else. `passes` lists these places, beside the
walk itself: those that it comes to, and those where it finds a link or nothing. In every file
system with the same entries in these places the walk goes the same way, to the same end or to the
same error.

> `walk_of_sameOn`: a walk depends on the places that it passes.
> `slot_child_of_sameOn`: so does what one more name behind a path stands for.
-/

namespace RegistryTree

namespace FileSystem

/-! ## The same entries in some places -/

/-- The same entries stand in the places with a property, and relative paths start from the same
place. -/
structure SameOn (P : Place → Prop) (files after : FileSystem) : Prop where
  current : after.current = files.current
  same : ∀ q, P q → after.get? q = files.get? q

namespace SameOn

variable {P Q : Place → Prop} {a b c : FileSystem}

theorem refl (P : Place → Prop) (a : FileSystem) : SameOn P a a := ⟨rfl, fun _ _ => rfl⟩

theorem trans (h : SameOn P a b) (h' : SameOn P b c) : SameOn P a c :=
  ⟨h'.current.trans h.current, fun q hq => (h'.same q hq).trans (h.same q hq)⟩

theorem mono (h : SameOn P a b) (hQ : ∀ q, Q q → P q) : SameOn Q a b :=
  ⟨h.current, fun q hq => h.same q (hQ q hq)⟩

theorem isDirectoryAt (h : SameOn P a b) {q : Place} (hq : P q) :
    b.isDirectoryAt q = a.isDirectoryAt q := by
  unfold FileSystem.isDirectoryAt
  rw [h.same q hq]

theorem startOf (h : SameOn P a b) (p : Path) : b.startOf p = a.startOf p := by
  unfold FileSystem.startOf
  rw [h.current]

theorem written (h : SameOn P a b) (p : Path) : b.written p = a.written p := by
  unfold FileSystem.written
  rw [h.startOf]

theorem shown (h : SameOn P a b) (q : Place) : b.shown q = a.shown q := by
  unfold FileSystem.shown
  rw [h.current]

/-- What is put into both is the same. -/
theorem put (h : SameOn P a b) {p : Place} (hp : p ≠ []) (e : Entry) :
    SameOn P (a.put p e) (b.put p e) := by
  refine ⟨h.current, fun q hq => ?_⟩
  rw [get?_put _ _ _ hp, get?_put _ _ _ hp, h.same q hq]

/-- What is taken away from both is the same. -/
theorem eraseBelow (h : SameOn P a b) {p : Place} (hp : p ≠ []) :
    SameOn P (a.eraseBelow p) (b.eraseBelow p) := by
  refine ⟨h.current, fun q hq => ?_⟩
  rw [get?_eraseBelow _ _ hp, get?_eraseBelow _ _ hp, h.same q hq]

end SameOn

theorem sameOn_eraseBelow {files : FileSystem} {p : Place} (hp : p ≠ []) :
    SameOn (¬ p <+: ·) files (files.eraseBelow p) :=
  ⟨rfl, fun q hq => by rw [get?_eraseBelow _ _ hp, if_neg hq]⟩

theorem sameOn_eraseWithin (files : FileSystem) (p : Place) :
    SameOn (¬ p <+: ·) files (files.eraseWithin p) :=
  ⟨rfl, fun q hq => by rw [get?_eraseWithin, if_neg fun h => hq h.1]⟩

/-! ## The places of a walk -/

/-- The places that a walk over names passes; `onLink` gives those behind a link. -/
def trailWith (files : FileSystem) (onLink : Place → List String → List Place) :
    Place → List String → List Place
  | place, [] => [place]
  | place, name :: rest =>
    place ::
      match files.turn place name with
      | .stop _ missed => missed
      | .on next => trailWith files onLink next rest
      | .link target =>
        (place ++ [name]) :: onLink (targetStart place target) (targetNames target ++ rest)

/-- The places that a walk passes when it follows at most the given number of links. -/
def trail (files : FileSystem) : Nat → Place → List String → List Place
  | 0 => trailWith files fun _ _ => []
  | links + 1 => trailWith files (trail files links)

/-- The places that are passed on the way that a path leads. -/
def passes (files : FileSystem) (p : Path) : List Place :=
  files.trail linkLimit (files.startOf p) p.parts

variable {P : Place → Prop} {files after : FileSystem}

theorem mem_trailWith_self (files : FileSystem) (onLink : Place → List String → List Place)
    (place : Place) (names : List String) : place ∈ trailWith files onLink place names := by
  cases names with
  | nil => exact List.mem_singleton_self _
  | cons name rest => exact List.mem_cons_self

/-- What comes of a name depends on the places that are passed there. -/
theorem turn_of_sameOn (h : SameOn P files after) {onTrail : Place → List String → List Place}
    {place : Place} {name : String} {rest : List String}
    (hpassed : ∀ q ∈ trailWith files onTrail place (name :: rest), P q) :
    after.turn place name = files.turn place name := by
  rw [trailWith, List.forall_mem_cons] at hpassed
  obtain ⟨hplace, hpassed⟩ := hpassed
  by_cases hlook : files.isDirectoryAt place = true ∧ name ≠ "." ∧ name ≠ ".." ∧
      isTooLong name = false
  · obtain ⟨hd, hdot, hup, hshort⟩ := hlook
    have hentry : P (place ++ [name]) := by
      cases he : files.get? (place ++ [name]) with
      | none =>
        rw [show files.turn place name = .stop .missing [place ++ [name]] by
          simp [turn, hd, hdot, hup, hshort, he]] at hpassed
        exact hpassed _ (List.mem_singleton_self _)
      | some e =>
        cases e with
        | link target =>
          rw [show files.turn place name = .link target by
            simp [turn, hd, hdot, hup, hshort, he]] at hpassed
          exact hpassed _ List.mem_cons_self
        | directory mode =>
          rw [show files.turn place name = .on (place ++ [name]) by
            simp [turn, hd, hdot, hup, hshort, he]] at hpassed
          exact hpassed _ (mem_trailWith_self ..)
        | file mode content =>
          rw [show files.turn place name = .on (place ++ [name]) by
            simp [turn, hd, hdot, hup, hshort, he]] at hpassed
          exact hpassed _ (mem_trailWith_self ..)
    unfold turn
    rw [h.isDirectoryAt hplace, h.same _ hentry]
  -- otherwise no entry is looked at
  · unfold turn
    rw [h.isDirectoryAt hplace]
    grind

/-- A walk depends on the places that it passes, if what carries on behind a link does. -/
theorem walkWith_of_sameOn (h : SameOn P files after)
    {onLink onLink' : Place → List String → Except ErrorCode Place}
    {onTrail : Place → List String → List Place}
    (hlink : ∀ p names, (∀ q ∈ onTrail p names, P q) → onLink' p names = onLink p names) :
    ∀ {names : List String} {place : Place}, (∀ q ∈ trailWith files onTrail place names, P q) →
      walkWith after onLink' place names = walkWith files onLink place names := by
  intro names
  induction names with
  | nil => exact fun _ => rfl
  | cons name rest ih =>
    intro place hpassed
    -- One turn looks at its own place and at the entry of the name, and the walk passes both.
    rw [walkWith_cons, walkWith_cons, turn_of_sameOn h hpassed]
    rw [trailWith, List.forall_mem_cons] at hpassed
    obtain ⟨-, hpassed⟩ := hpassed
    cases ht : files.turn place name with
    | stop code missed => rfl
    | on next =>
      rw [ht] at hpassed
      exact ih hpassed
    | link target =>
      rw [ht] at hpassed
      exact hlink _ _ fun q hq => hpassed q (List.mem_cons_of_mem _ hq)

/-- A walk goes the same way wherever the same stands in the places that it passes. -/
theorem walk_of_sameOn (h : SameOn P files after) :
    ∀ {links : Nat} {place : Place} {names : List String},
      (∀ q ∈ files.trail links place names, P q) →
      after.walk links place names = files.walk links place names := by
  intro links
  induction links with
  | zero => exact fun hpassed => walkWith_of_sameOn h (fun _ _ _ => rfl) hpassed
  | succ n ih => exact fun hpassed => walkWith_of_sameOn h (fun _ _ he => ih he) hpassed

/-- The place where a walk ends is passed. -/
theorem mem_trailWith_of_walkWith {onLink : Place → List String → Except ErrorCode Place}
    {onTrail : Place → List String → List Place} {goal : Place}
    (hlink : ∀ p names, onLink p names = .ok goal → goal ∈ onTrail p names) :
    ∀ {names : List String} {place : Place}, walkWith files onLink place names = .ok goal →
      goal ∈ trailWith files onTrail place names := by
  intro names
  induction names with
  | nil =>
    intro place hw
    cases hw
    exact List.mem_singleton_self _
  | cons name rest ih =>
    intro place hw
    rw [walkWith_cons] at hw
    rw [trailWith]
    refine List.mem_cons_of_mem _ ?_
    cases ht : files.turn place name with
    | stop code missed => simp [ht] at hw
    | on next =>
      rw [ht] at hw
      exact ih hw
    | link target =>
      rw [ht] at hw
      exact List.mem_cons_of_mem _ (hlink _ _ hw)

theorem mem_trail_of_walk {goal : Place} :
    ∀ {links : Nat} {place : Place} {names : List String},
      files.walk links place names = .ok goal → goal ∈ files.trail links place names := by
  intro links
  induction links with
  | zero => exact fun hw => mem_trailWith_of_walkWith (fun _ _ he => by cases he) hw
  | succ n ih => exact fun hw => mem_trailWith_of_walkWith (fun _ _ he => ih he) hw

/-! ## Paths -/

variable {p : Path} {place : Place}

theorem startOf_mem_passes (files : FileSystem) (p : Path) : files.startOf p ∈ files.passes p :=
  mem_trailWith_self ..

theorem followFrom_of_sameOn (h : SameOn P files after) (hpassed : ∀ q ∈ files.passes p, P q) :
    after.followFrom (after.startOf p) p.parts = files.followFrom (files.startOf p) p.parts := by
  rw [h.startOf]
  exact walk_of_sameOn h hpassed

/-- A path leads to the same place, or fails in the same way, wherever the same stands in the places
that it passes. -/
theorem follow_of_sameOn (h : SameOn P files after) (hpassed : ∀ q ∈ files.passes p, P q) :
    after.follow p = files.follow p := by
  unfold follow
  rw [followFrom_of_sameOn h hpassed]

theorem leadsTo_iff_of_sameOn (h : SameOn P files after) (hpassed : ∀ q ∈ files.passes p, P q) :
    after.LeadsTo p place ↔ files.LeadsTo p place := by
  have hway := followFrom_of_sameOn h hpassed
  have hdirectory (hw : files.followFrom (files.startOf p) p.parts = .ok place) :
      after.isDirectoryAt place = files.isDirectoryAt place :=
    h.isDirectoryAt (hpassed _ (mem_trail_of_walk hw))
  constructor
  · intro hl
    have hw := hway.symm.trans hl.way
    exact ⟨hw, (hdirectory hw).symm.trans hl.directory⟩
  · intro hl
    exact ⟨hway.trans hl.way, (hdirectory hl.way).trans hl.directory⟩

/-- One name more behind a path stands for the same wherever the same stands in the places that the
path passes. -/
theorem slot_child_of_sameOn (h : SameOn P files after) (hpassed : ∀ q ∈ files.passes p, P q)
    (name : String) : after.slot (p.child name) = files.slot (p.child name) := by
  have hway := followFrom_of_sameOn h hpassed
  unfold slot slotFrom
  simp only [Path.child, List.getLast?_concat, List.dropLast_concat]
  rw [show after.startOf ⟨p.start, p.parts ++ [name]⟩ = after.startOf p from rfl,
    show files.startOf ⟨p.start, p.parts ++ [name]⟩ = files.startOf p from rfl, hway]
  cases hf : files.followFrom (files.startOf p) p.parts with
  | error code => rfl
  | ok directory =>
    simp only [bind, Except.bind]
    rw [h.isDirectoryAt (hpassed _ (mem_trail_of_walk hf))]

/-! ## One name more, and the way from the top -/

variable {name : String}

/-- With one name more a walk passes what it passed before, and the entry of the name, if no link
stands there. -/
theorem mem_trailWith_append {onLink : Place → List String → Except ErrorCode Place}
    {onTrail : Place → List String → List Place}
    (hlink : ∀ p names,
      (∀ goal, onLink p names = .ok goal → ∀ target, files.get? (goal ++ [name]) ≠ some (.link target)) →
      ∀ q ∈ onTrail p (names ++ [name]), (∃ passed ∈ onTrail p names, q <+: passed) ∨
        ∃ goal, onLink p names = .ok goal ∧ q = goal ++ [name]) :
    ∀ {names : List String} {place : Place},
      (∀ goal, walkWith files onLink place names = .ok goal →
        ∀ target, files.get? (goal ++ [name]) ≠ some (.link target)) →
      ∀ q ∈ trailWith files onTrail place (names ++ [name]),
        (∃ passed ∈ trailWith files onTrail place names, q <+: passed) ∨
          ∃ goal, walkWith files onLink place names = .ok goal ∧ q = goal ++ [name] := by
  intro names
  induction names with
  | nil =>
    intro place hnone q hq
    -- Only the added name is left: it stays, leads up, or passes its own entry.
    suffices hpassed : q <+: place ∨ q = place ++ [name] from
      hpassed.imp (fun h => ⟨place, List.mem_singleton_self _, h⟩) fun h => ⟨place, rfl, h⟩
    rw [List.nil_append, trailWith, List.mem_cons] at hq
    rcases hq with rfl | hq
    · exact Or.inl List.prefix_rfl
    cases ht : files.turn place name with
    | stop code missed =>
      rw [ht] at hq
      rcases turn_stop ht with rfl | rfl
      · cases hq
      · exact Or.inr (List.mem_singleton.1 hq)
    | on next =>
      rw [ht] at hq
      rw [List.mem_singleton.1 hq]
      rcases turn_on ht with ⟨-, rfl⟩ | ⟨-, rfl⟩ | ⟨-, rfl⟩
      · exact Or.inl List.prefix_rfl
      · exact Or.inl (List.dropLast_prefix place)
      · exact Or.inr rfl
    | link target => exact absurd (turn_link ht) (hnone place rfl target)
  | cons first rest ih =>
    intro place hnone q hq
    -- Another name comes before it, and the walk goes on from wherever that leads.
    rw [walkWith_cons] at hnone
    rw [walkWith_cons]
    rw [List.cons_append, trailWith, List.mem_cons] at hq
    rcases hq with rfl | hq
    · exact Or.inl ⟨q, mem_trailWith_self .., List.prefix_rfl⟩
    rw [trailWith]
    cases ht : files.turn place first with
    | stop code missed =>
      rw [ht] at hq
      exact Or.inl ⟨q, List.mem_cons_of_mem _ hq, List.prefix_rfl⟩
    | on next =>
      rw [ht] at hq hnone
      refine (ih hnone q hq).imp_left fun h => h.imp fun passed hp => ?_
      exact ⟨List.mem_cons_of_mem _ hp.1, hp.2⟩
    | link target =>
      rw [ht] at hq hnone
      rw [List.mem_cons] at hq
      rcases hq with rfl | hq
      · exact Or.inl ⟨_, List.mem_cons_of_mem _ List.mem_cons_self, List.prefix_rfl⟩
      · rw [← List.append_assoc] at hq
        refine (hlink _ _ hnone q hq).imp_left fun h => h.imp fun passed hp => ?_
        exact ⟨List.mem_cons_of_mem _ (List.mem_cons_of_mem _ hp.1), hp.2⟩

theorem mem_trail_append :
    ∀ {links : Nat} {place : Place} {names : List String},
      (∀ goal, files.walk links place names = .ok goal →
        ∀ target, files.get? (goal ++ [name]) ≠ some (.link target)) →
      ∀ q ∈ files.trail links place (names ++ [name]),
        (∃ passed ∈ files.trail links place names, q <+: passed) ∨
          ∃ goal, files.walk links place names = .ok goal ∧ q = goal ++ [name] := by
  intro links
  induction links with
  | zero => exact fun h => mem_trailWith_append (fun _ _ _ _ hq => by cases hq) h
  | succ n ih => exact fun h => mem_trailWith_append (fun _ _ hn => ih hn) h

/-- On the way to a directory by the names of its place a walk passes the places above it. -/
theorem IsRegular.mem_trailWith_directory (ht : files.IsRegular)
    {onLink : Place → List String → List Place} {names : List String} {q : Place}
    (hd : files.isDirectoryAt place = true)
    (hq : q ∈ trailWith files onLink [] (place ++ names)) :
    q <+: place ∨ q ∈ trailWith files onLink place names := by
  induction place using List.reverseRecOn generalizing names with
  | nil => exact Or.inr hq
  | append_singleton place name ih =>
    obtain ⟨hparent, hturn⟩ := ht.turn_directory hd
    rw [List.append_assoc] at hq
    rcases ih hparent hq with habove | hbelow
    · exact Or.inl (habove.trans (List.prefix_append ..))
    · rw [List.singleton_append, trailWith, hturn, List.mem_cons] at hbelow
      rcases hbelow with rfl | hbelow
      · exact Or.inl (List.prefix_append ..)
      · exact Or.inr hbelow

theorem IsRegular.mem_trail_directory (ht : files.IsRegular) {names : List String} {q : Place}
    (hd : files.isDirectoryAt place = true)
    (hq : q ∈ files.trail linkLimit [] (place ++ names)) :
    q <+: place ∨ q ∈ files.trail linkLimit place names := by
  change q ∈ files.trail (_ + 1) _ _ at hq
  exact ht.mem_trailWith_directory hd hq

end FileSystem

end RegistryTree
