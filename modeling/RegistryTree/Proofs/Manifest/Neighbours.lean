import RegistryTree.Proofs.Manifest.Sequence
import RegistryTree.Proofs.Manifest.Twin

/-!
# Packages side by side

Two packages stand in one registry, under names of their own. Each is written into its own place and
removed from there; `Apart` says what keeps them from each other: that no way to one of them leads
through the other. Then a call on one manifest reads nothing that the other manifest can change, and
changes nothing that the other can read.

> `Apart.call`: a call comes to the same beside another package as it does alone, and leaves the same.
> `call_frame`: a call changes nothing but the directory of its own package.
-/

namespace RegistryTree.Manifest

open FileSystem RegistryTree.Action

/-- One of two manifests. -/
inductive Side where
  | first
  | second
  deriving DecidableEq, Repr

/-- The other of two manifests. -/
def Side.other : Side → Side
  | first => second
  | second => first

@[simp] theorem Side.other_other (s : Side) : s.other.other = s := by cases s <;> rfl

theorem Side.eq_other_of_ne {s t : Side} (h : s ≠ t) : s = t.other := by
  cases s <;> cases t <;> first | rfl | exact absurd rfl h

/-- What keeps two packages of a registry apart: they have names of their own; neither the path of
the registry, in either reading, nor that of one package leads through the place of the other; and
both readings of the registry lead to one directory. -/
structure Apart (files : FileSystem) (registry : Path) (ids : Side → String) : Prop where
  distinct : ids .first ≠ ids .second
  way : ∀ s, ∀ q ∈ files.passes registry, Elsewhere files registry (ids s) q
  writtenWay : ∀ s, ∀ q ∈ files.passes (fromTop (files.written registry)),
    Elsewhere files registry (ids s) q
  direct : ∀ directory, files.LeadsTo registry directory → files.Direct registry directory
  packageWay : ∀ s, ∀ q ∈ files.passes (registry.child (ids s)),
    Elsewhere files registry (ids s.other) q

variable {base : FileSystem} {registry : Path} {ids : Side → String} {directory : Place} {s : Side}

theorem Apart.ne (h : Apart base registry ids) (s : Side) : ids s ≠ ids s.other := by
  cases s with
  | first => exact h.distinct
  | second => exact h.distinct.symm

/-- What is in the directory of one package is not in that of the other. -/
theorem Apart.below (h : Apart base registry ids) (hl : base.LeadsTo registry directory) (s : Side)
    (rel : Place) : Elsewhere base registry (ids s.other) (directory ++ [ids s] ++ rel) := by
  by_contra hnot
  obtain ⟨found, hfound, hbelow⟩ := below_of_not_elsewhere hnot
  rw [hfound.unique hl, List.append_assoc, List.prefix_append_right_inj, List.singleton_append,
    List.cons_prefix_cons] at hbelow
  exact h.ne s hbelow.1.symm

/-- No place is in the directories of both packages. -/
theorem Apart.elsewhere_or (h : Apart base registry ids) (q : Place) :
    ∃ s, Elsewhere base registry (ids s) q := by
  by_contra hnone
  simp only [not_exists] at hnone
  obtain ⟨directory, hl, hfirst⟩ := below_of_not_elsewhere (hnone .first)
  obtain ⟨directory', hl', hsecond⟩ := below_of_not_elsewhere (hnone .second)
  rw [← hl.unique hl'] at hsecond
  have heq : directory ++ [ids .first] = directory ++ [ids .second] :=
    List.IsPrefix.eq_of_length (List.prefix_of_prefix_length_le hfirst hsecond (by simp)) (by simp)
  exact h.distinct (by simpa using heq)

/-- What stands above a place outside the directory of a package is outside it, too. -/
theorem Elsewhere.of_above {files : FileSystem} {id : String} {p q : Place}
    (h : Elsewhere files registry id q) (hp : p <+: q) : Elsewhere files registry id p :=
  fun root place hroot hslot hbelow => h root place hroot hslot (hbelow.trans hp)

/-- In a tree, two packages with names of their own are apart when the path of the registry never
leads back up nor through one of their places, and no link stands there. -/
theorem Apart.of_no_link (ht : base.IsTree) (hne : ids .first ≠ ids .second)
    (hup : ".." ∉ registry.parts)
    (hway : ∀ s, ∀ q ∈ base.passes registry, Elsewhere base registry (ids s) q)
    (hlink : ∀ s directory target, base.LeadsTo registry directory →
      base.get? (directory ++ [ids s]) ≠ some (.link target)) : Apart base registry ids := by
  refine ⟨hne, hway, fun s q hq => ?_, fun directory hl => ht.direct hl hup, fun s q hq => ?_⟩
  · -- the two readings part only above the place where the path starts
    have hq' : q ∈ base.trail linkLimit [] (base.startOf registry ++ registry.parts) := by
      rw [← written_of_no_up hup]
      exact hq
    rcases ht.mem_trail_directory (ht.startOf registry) hq' with habove | hbelow
    · exact (hway s _ (startOf_mem_passes ..)).of_above habove
    · exact hway s q hbelow
  -- A link at the end of the way would let the walk pass what it leads to; there is none.
  · have hnone : ∀ goal, base.followFrom (base.startOf registry) registry.parts = .ok goal →
        ∀ target, base.get? (goal ++ [ids s]) ≠ some (.link target) := by
      intro goal hgoal target hentry
      have hstands : base.get? (goal ++ ids s :: []) ≠ none := by simp [hentry]
      exact hlink s goal target ⟨hgoal, ht.directory_of_below hstands⟩ hentry
    rcases mem_trail_append hnone q hq with ⟨passed, hpassed, habove⟩ | ⟨goal, hgoal, rfl⟩
    · exact (hway s.other passed hpassed).of_above habove
    · by_contra hnot
      obtain ⟨found, hfound, hbelow⟩ := below_of_not_elsewhere hnot
      have heq : goal = found := Except.ok.inj (hgoal.symm.trans hfound.way)
      rw [heq, List.prefix_append_right_inj, List.cons_prefix_cons] at hbelow
      have hids : ids s.other = ids s := hbelow.1
      cases s with
      | first => exact hne hids.symm
      | second => exact hne hids

/-! ## Beside another package -/

/-- Files that differ from those before in nothing but the directories of two packages. -/
structure Between (base : FileSystem) (registry : Path) (ids : Side → String)
    (files : FileSystem) : Prop where
  regular : files.IsRegular
  same : SameOn (fun q => ∀ s, Elsewhere base registry (ids s) q) base files

variable {files files' : FileSystem}

namespace Between

theorem slot (h : Between base registry ids files) (ha : Apart base registry ids) (name : String) :
    files.slot (registry.child name) = base.slot (registry.child name) :=
  slot_child_of_sameOn h.same (fun q hq s => ha.way s q hq) name

theorem leadsTo_iff (h : Between base registry ids files) (ha : Apart base registry ids) :
    files.LeadsTo registry directory ↔ base.LeadsTo registry directory :=
  leadsTo_iff_of_sameOn h.same fun q hq s => ha.way s q hq

theorem direct (h : Between base registry ids files) (ha : Apart base registry ids)
    (hl : base.LeadsTo registry directory) : files.Direct registry directory := by
  unfold Direct
  rw [h.same.written]
  exact (leadsTo_iff_of_sameOn h.same fun q hq s => ha.writtenWay s q hq).2 (ha.direct directory hl)

/-- A package can be written into both of two file systems in which nothing else has changed than
the other package. -/
theorem ready (h : Between base registry ids files) (h' : Between base registry ids files')
    (ha : Apart base registry ids) (s : Side)
    (hsame : SameOn (Elsewhere base registry (ids s.other)) files files') :
    Ready (Elsewhere base registry (ids s.other)) registry (ids s) files files' := by
  refine ⟨⟨hsame, h.regular, h'.regular⟩, (h'.slot ha _).trans (h.slot ha _).symm, ?_, ?_⟩
  · exact fun directory hl rel => ha.below ((h.leadsTo_iff ha).1 hl) s rel
  · intro directory hl
    have hbase := (h.leadsTo_iff ha).1 hl
    exact ⟨h.direct ha hbase, h'.direct ha hbase⟩

/-- A directory of a package that was emptied is still found. -/
theorem slot_eraseWithin (h : Between base registry ids files) (ha : Apart base registry ids)
    {place : Place} (hs : files.slot (registry.child (ids s)) = .ok (some place))
    (hid : Layout.isComponent (ids s) = true) :
    (files.eraseWithin place).slot (registry.child (ids s)) = .ok (some place) := by
  rw [h.slot ha] at hs
  have hnot : ∀ q, Elsewhere base registry (ids s) q → ¬ place <+: q :=
    fun q hq => hq _ _ (packageRoot_of_component registry hid) hs
  have hemptied := (h.same.mono (Q := fun q => ∀ s, Elsewhere base registry (ids s) q)
    fun _ hq => hq).trans ((sameOn_eraseWithin files place).mono fun q hq => hnot q (hq s))
  rw [slot_child_of_sameOn hemptied (fun q hq s => ha.way s q hq), hs]

end Between

/-! ## Removing -/

/-- What removing the directory of a package comes to, by what came of removing a directory. -/
def removal (root : Path) : Except SystemError Unit → Except Failure Unit
  | .ok () => .ok ()
  | .error cause =>
    match cause.errorClass with
    | .missing | .notDirectory => .ok ()
    | _ => .error (failure (.io "remove directory" root.toText cause))

theorem deleteAt_result (package : Package) (root : Path) (w : Workspace) :
    (deleteAt package root w).1 =
      if root.hasNull then .error .nullInPath else removal root (w.files.removeDirectory root).1 := by
  rw [deleteAt, bind_run, requireUsable_run]
  cases root.hasNull with
  | true => rfl
  | false =>
    simp only [Bool.false_eq_true, if_false]
    rw [bind_run]
    show (Prod.fst ((setFiles (w.files.removeDirectory root).2 >>= fun _ => _ : Action Unit) w)) = _
    rw [bind_run, setFiles_run]
    cases (w.files.removeDirectory root).1 with
    | ok u => rfl
    | error cause =>
      dsimp only [removal]
      cases cause.errorClass <;> rfl

/-- A directory is removed in both of two file systems that are the same in its place, or in neither
for the same reason. -/
theorem removeDirectory_alongside {P : Place → Prop} {p : Path} (h : Alongside P files files')
    (hslot : files'.slot p = files.slot p)
    (hplace : ∀ place, files.slot p = .ok (some place) → P place ∧ place ≠ [])
    (hfollow : ∀ place target, files.slot p = .ok (some place) →
      files.get? place = some (.link target) → files'.follow p = files.follow p)
    (hemptied : ∀ place, files.slot p = .ok (some place) →
      (files.eraseWithin place).slot p = .ok (some place) ∧
        (files'.eraseWithin place).slot p = .ok (some place)) :
    (files'.removeDirectory p).1 = (files.removeDirectory p).1 ∧
      Alongside P (files.removeDirectory p).2 (files'.removeDirectory p).2 := by
  rw [removeDirectory, removeDirectory, hslot]
  cases hs : files.slot p with
  | error code => exact ⟨rfl, h⟩
  | ok found =>
    cases found with
    | none => exact ⟨rfl, h⟩
    | some place =>
      obtain ⟨hP, hne⟩ := hplace place hs
      dsimp only
      rw [h.same place hP]
      cases he : files.get? place with
      | none => exact ⟨rfl, h⟩
      | some e =>
        cases e with
        -- What was below is gone first, and the path leads still to the place that is then taken
        -- away.
        | directory mode =>
          obtain ⟨hleft, hright⟩ := hemptied place hs
          dsimp only
          rw [hleft, hright]
          refine ⟨rfl, ?_⟩
          dsimp only
          rw [erase_eraseWithin, erase_eraseWithin]
          exact ⟨h.toSameOn.eraseBelow hne, h.left.eraseBelow hne, h.right.eraseBelow hne⟩
        | file mode content => exact ⟨rfl, h⟩
        | link target =>
          dsimp only
          rw [hfollow place target hs he]
          cases files.follow p <;> exact ⟨rfl, h⟩

/-! ## One call -/

/-- What a call comes to. -/
def Call.answer (call : Call) (m : Manifest) (w : Workspace) : Except Failure Unit :=
  match call with
  | .create => (m.create w).1.2
  | .delete => (m.delete w).1

variable {package : Package} {m : Manifest}

/-- What a call may change: the directory of the package is made or removed, and in its place stands
no link afterwards. -/
structure Reworked (registry : Path) (id : String) (place : Place) (before after : FileSystem) :
    Prop where
  component : Layout.isComponent id = true
  slot : before.slot (registry.child id) = .ok (some place)
  same : SameOn (¬ place <+: ·) before after
  noLink : ∀ target, after.get? place ≠ some (.link target)

/-- Writing leaves the files as they are, or has made the directory of the package. -/
theorem create_frame (package : Package) (registry : Path) {w : Workspace} (ht : w.files.IsRegular) :
    ((Manifest.new package registry).create w).2.files = w.files ∨
      ∃ place, Reworked registry package.id place w.files
        ((Manifest.new package registry).create w).2.files := by
  rcases (created_of_regular package registry ht).left_cases with
    hsame | ⟨directory, entries, hr, hstanding, hleft⟩
  · exact Or.inl hsame
  · have hget := ht.get?_putAll_eq hr.free entries []
    rw [List.append_nil, hstanding] at hget
    rw [hleft]
    refine Or.inr ⟨_, hr.component, hr.slot, ⟨putAll_current entries, fun q hq => ?_⟩, ?_⟩
    · exact get?_putAll_outside (by simp) entries hq
    · simp [hget]

/-- Removing leaves the files as they are, or has removed the directory of the package, or at least
what was in it. -/
theorem deleteAt_frame (registry : Path) {w : Workspace} (ht : w.files.IsRegular)
    (hid : Layout.isComponent package.id = true) :
    (deleteAt package (registry.child package.id) w).2.files = w.files ∨
      ∃ place, Reworked registry package.id place w.files
        (deleteAt package (registry.child package.id) w).2.files := by
  rcases deleteAt_cases registry ht hid with ⟨place, hs, hd, hleft⟩ | ⟨-, hsame⟩
  · obtain ⟨mode, hmode⟩ := isDirectoryAt_iff.1 hd
    obtain ⟨directory, -, rfl, -⟩ := leadsTo_of_slot_child hs
    refine Or.inr ⟨_, hid, hs, ?_, ?_⟩
    · rcases hleft with hleft | ⟨-, hleft⟩
      · rw [hleft]
        exact sameOn_eraseBelow (by simp)
      · rw [hleft]
        exact sameOn_eraseWithin _ _
    · rcases hleft with hleft | ⟨-, hleft⟩
      · rw [hleft, get?_eraseBelow _ _ (by simp), if_pos List.prefix_rfl]
        simp
      · rw [hleft, get?_eraseWithin, if_neg fun hin => hin.2 rfl, hmode]
        simp
  · exact Or.inl hsame

/-- A call leaves the files as they are, or it changes the directory of the package. -/
theorem call_frame (call : Call) {w : Workspace} (hm : Remembers package registry m)
    (ht : w.files.IsRegular) :
    (call.perform m w).2.files = w.files ∨
      ∃ place, Reworked registry package.id place w.files (call.perform m w).2.files := by
  cases call with
  | create =>
    unfold Call.perform
    dsimp only
    rw [(hm.create_eq w).2]
    exact create_frame package registry ht
  | delete =>
    unfold Call.perform
    dsimp only
    rcases hm.root with hnone | ⟨hid, hsome⟩
    · rw [delete_of_no_root hnone]
      exact Or.inl rfl
    · rw [Manifest.delete, hsome, hm.ofPackage]
      exact deleteAt_frame registry ht hid

/-- Files that one package alone was written into and removed from: regular, as before but in its
directory, and as before everywhere when a link stands in its place. -/
structure Alone (base : FileSystem) (registry : Path) (id : String) (files : FileSystem) : Prop where
  regular : files.IsRegular
  same : SameOn (Elsewhere base registry id) base files
  link : files = base ∨ ∀ place target, base.slot (registry.child id) = .ok (some place) →
    files.get? place ≠ some (.link target)

theorem Alone.between (h : Alone base registry (ids s) files) : Between base registry ids files :=
  ⟨h.regular, h.same.mono fun _ hq => hq s⟩

/-- Beside files that one package alone has changed stand files that the other may have changed
besides. -/
theorem Alone.between_right (h : Alone base registry (ids s) files)
    (hbeside : Alongside (Elsewhere base registry (ids s.other)) files files') :
    Between base registry ids files' :=
  ⟨hbeside.right, (h.same.mono fun _ hq => hq s).trans (hbeside.toSameOn.mono fun _ hq => hq s.other)⟩

/-- What a call changes is in the directory of its package. -/
theorem Between.call_sameOn (h : Between base registry ids files) (ha : Apart base registry ids)
    (call : Call) {w : Workspace} (hw : w.files = files) (hid : package.id = ids s)
    (hm : Remembers package registry m) :
    SameOn (Elsewhere base registry (ids s)) files (call.perform m w).2.files := by
  subst hw
  rcases call_frame call hm h.regular with hsame | ⟨place, hr⟩
  · rw [hsame]
    exact SameOn.refl _ _
  · have hcomponent := hr.component
    have hs := hr.slot
    rw [hid] at hcomponent hs
    rw [h.slot ha] at hs
    exact hr.same.mono fun q hq => hq _ _ (packageRoot_of_component registry hcomponent) hs

/-- Writing comes to the same beside another package as alone. -/
theorem create_alongside {w w' : Workspace} {id : String} (hm : Remembers package registry m)
    {P : Place → Prop} (hid : package.id = id) (h : Ready P registry id w.files w'.files) :
    (m.create w').1 = (m.create w).1 ∧ Alongside P (m.create w).2.files (m.create w').2.files := by
  subst hid
  obtain ⟨rfl, rfl, -, -⟩ := hm
  unfold Manifest.create
  rw [Layout.packageRoot_eq]
  cases hcomponent : Layout.isComponent m.package.id with
  | false => exact ⟨rfl, h.toAlongside⟩
  | true =>
    have hwrite := write_inStep m.keyIndex hcomponent w w' h
    have hresult := hwrite.result
    refine ⟨?_, hwrite.left fun _ _ _ h => h⟩
    simp only [if_true]
    exact congrArg (Prod.mk _) hresult.symm

/-- Removing comes to the same beside another package as alone. -/
theorem Apart.deleteAt_alongside (ha : Apart base registry ids) (package : Package)
    {w w' : Workspace} (h : Alone base registry (ids s) w.files)
    (hid : Layout.isComponent (ids s) = true)
    (hbeside : Alongside (Elsewhere base registry (ids s.other)) w.files w'.files) :
    (deleteAt package (registry.child (ids s)) w').1 =
        (deleteAt package (registry.child (ids s)) w).1 ∧
      Alongside (Elsewhere base registry (ids s.other))
        (deleteAt package (registry.child (ids s)) w).2.files
        (deleteAt package (registry.child (ids s)) w').2.files := by
  have hb := h.between
  have hb' := h.between_right hbeside
  have hremoved := removeDirectory_alongside (p := registry.child (ids s)) hbeside
    ((hb'.slot ha _).trans (hb.slot ha _).symm) ?_ ?_ ?_
  · rw [deleteAt_result, deleteAt_result, deleteAt_files, deleteAt_files, hremoved.1]
    refine ⟨rfl, ?_⟩
    split
    next => exact hbeside
    next => exact hremoved.2
  · intro place hs
    obtain ⟨directory, hl, rfl, -⟩ := leadsTo_of_slot_child hs
    have hbelow := ha.below ((hb.leadsTo_iff ha).1 hl) s []
    rw [List.append_nil] at hbelow
    exact ⟨hbelow, by simp⟩
  · intro place target hs hlink
    rw [hb.slot ha] at hs
    -- where a link stands nothing has ever been written, and the link leads past the other package
    rcases h.link with hsame | hnone
    · rw [hsame] at hbeside ⊢
      exact follow_of_sameOn hbeside.toSameOn (ha.packageWay s)
    · exact absurd hlink (hnone place target hs)
  · intro place hs
    refine ⟨hb.slot_eraseWithin ha hs hid, hb'.slot_eraseWithin ha ?_ hid⟩
    rw [hb'.slot ha, ← hb.slot ha, hs]

/-- A call comes to the same beside another package as it does alone: the same answer, the same
manifest, and the same files but in the directory of the other package. -/
theorem Apart.call (ha : Apart base registry ids) {w w' : Workspace}
    (h : Alone base registry (ids s) w.files) (call : Call) (hid : package.id = ids s)
    (hm : Remembers package registry m)
    (hbeside : Alongside (Elsewhere base registry (ids s.other)) w.files w'.files) :
    call.answer m w' = call.answer m w ∧ (call.perform m w').1 = (call.perform m w).1 ∧
      Alongside (Elsewhere base registry (ids s.other)) (call.perform m w).2.files
        (call.perform m w').2.files := by
  cases call with
  | create =>
    have hready := h.between.ready (h.between_right hbeside) ha s hbeside.toSameOn
    obtain ⟨hresult, hleft⟩ := create_alongside hm hid hready
    show (m.create w').1.2 = (m.create w).1.2 ∧ (m.create w').1.1 = (m.create w).1.1 ∧
      Alongside _ (m.create w).2.files (m.create w').2.files
    rw [hresult]
    exact ⟨rfl, rfl, hleft⟩
  | delete =>
    show (m.delete w').1 = (m.delete w).1 ∧ m = m ∧
      Alongside _ (m.delete w).2.files (m.delete w').2.files
    rcases hm.root with hnone | ⟨hcomponent, hsome⟩
    · rw [delete_of_no_root hnone, delete_of_no_root hnone]
      exact ⟨rfl, rfl, hbeside⟩
    · rw [hid] at hcomponent hsome
      obtain ⟨hresult, hleft⟩ := ha.deleteAt_alongside m.package h hcomponent hbeside
      unfold Manifest.delete
      rw [hsome]
      exact ⟨hresult, rfl, hleft⟩

/-- What one package alone leaves, it leaves so after every call. -/
theorem Apart.perform (ha : Apart base registry ids) {w : Workspace}
    (h : Alone base registry (ids s) w.files) (call : Call) (hid : package.id = ids s)
    (hm : Remembers package registry m) :
    Alone base registry (ids s) (call.perform m w).2.files := by
  have hself : Alongside (Elsewhere base registry (ids s.other)) w.files w.files :=
    ⟨SameOn.refl _ _, h.regular, h.regular⟩
  obtain ⟨-, -, hleft⟩ := ha.call h call hid hm hself
  refine ⟨hleft.left, h.same.trans (h.between.call_sameOn ha call rfl hid hm), ?_⟩
  rcases call_frame call hm h.regular with hsame | ⟨place, hr⟩
  · rw [hsame]
    exact h.link
  · have hs := hr.slot
    rw [hid, h.between.slot ha] at hs
    refine Or.inr fun place' target hs' => ?_
    rw [hs] at hs'
    cases hs'
    exact hr.noLink target

end RegistryTree.Manifest
