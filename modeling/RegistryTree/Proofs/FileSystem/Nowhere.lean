import RegistryTree.Proofs.FileSystem.Walk

/-!
# Ways that lead nowhere

A walk that leads nowhere ends in one of four errors. Two of them tell of what stands on the way:
there is no entry, or one that is no directory. The other two are limits: a name is too long, or
there are too many links to follow. A limit tells nothing about what is at the end.

> `walk_error`: what the errors of a walk have in common, from what stops it at a name.
> `slot_child_eq`: what the last name of a path stands for, wherever the rest of it leads.
> `slot_child_absent`: a path that leads to no directory has nothing behind it, up to the limits.
-/

namespace RegistryTree

namespace FileSystem

/-- Whether an error tells that there is nothing at the end of a path. -/
def IsAbsence (code : ErrorCode) : Prop := code = .missing ∨ code = .notDirectory

/-- Whether an error tells of a limit that a path has met. -/
def IsLimit (code : ErrorCode) : Prop := code = .nameTooLong ∨ code = .linkLoop

instance (code : ErrorCode) : Decidable (IsLimit code) :=
  inferInstanceAs (Decidable (code = .nameTooLong ∨ code = .linkLoop))

variable {files : FileSystem} {p : Path} {place : Place} {name : String} {code : ErrorCode}

/-! ## The errors of a walk -/

theorem turn_stop_code {missed : List Place} (h : files.turn place name = .stop code missed) :
    IsAbsence code ∨ code = .nameTooLong ∧ isTooLong name = true := by
  unfold turn at h
  unfold IsAbsence
  grind

/-- The errors of a walk over some names are of a kind if those are that stop it at one of these
names, and those behind a link; the targets of links have names of the same sort. -/
theorem walkWith_error {onLink : Place → List String → Except ErrorCode Place}
    {kind : ErrorCode → Prop} {sort : String → Prop}
    (hstop : ∀ place name code missed, sort name → files.turn place name = .stop code missed →
      kind code)
    (htarget : ∀ q target, files.get? q = some (.link target) →
      ∀ name ∈ targetNames target, sort name)
    (hlink : ∀ q names code, (∀ name ∈ names, sort name) → onLink q names = .error code →
      kind code) :
    ∀ {names : List String} {place : Place}, (∀ name ∈ names, sort name) →
      walkWith files onLink place names = .error code → kind code := by
  intro names
  induction names with
  | nil =>
    intro place _ hw
    cases hw
  | cons name rest ih =>
    intro place hnames hw
    rw [List.forall_mem_cons] at hnames
    obtain ⟨hname, hrest⟩ := hnames
    rw [walkWith_cons] at hw
    cases hturn : files.turn place name with
    | stop code' missed =>
      rw [hturn] at hw
      cases hw
      exact hstop place name code missed hname hturn
    | on next =>
      rw [hturn] at hw
      exact ih hrest hw
    | link target =>
      rw [hturn] at hw
      -- Behind a link the names of its target come before the others, and they are of the same
      -- sort.
      refine hlink _ _ _ (fun name hmem => ?_) hw
      rcases List.mem_append.1 hmem with hmem | hmem
      · exact htarget _ target (turn_link hturn) name hmem
      · exact hrest name hmem

theorem walk_error {kind : ErrorCode → Prop} {sort : String → Prop}
    (hstop : ∀ place name code missed, sort name → files.turn place name = .stop code missed →
      kind code)
    (htarget : ∀ q target, files.get? q = some (.link target) →
      ∀ name ∈ targetNames target, sort name)
    (hloop : kind .linkLoop) :
    ∀ {links : Nat} {place : Place} {names : List String} {code : ErrorCode},
      (∀ name ∈ names, sort name) → files.walk links place names = .error code → kind code := by
  intro links
  induction links with
  | zero =>
    intro place names code hnames hw
    refine walkWith_error hstop htarget (fun q names code _ he => ?_) hnames hw
    cases he
    exact hloop
  | succ n ih =>
    intro place names code hnames hw
    exact walkWith_error hstop htarget (fun q names code hnames he => ih hnames he) hnames hw

/-- A walk that leads nowhere tells that there is nothing, or it has met a limit. -/
theorem followFrom_error {names : List String} (h : files.followFrom place names = .error code) :
    IsAbsence code ∨ IsLimit code := by
  let kind := fun code => IsAbsence code ∨ IsLimit code
  have hstop : ∀ place name code missed, True → files.turn place name = .stop code missed →
      kind code :=
    fun _ _ _ _ _ hturn => (turn_stop_code hturn).imp_right fun hlong => Or.inl hlong.1
  exact walk_error hstop (fun _ _ _ _ _ => trivial) (Or.inr (Or.inr rfl)) (fun _ _ => trivial) h

/-- Whether all names that can come up on the way of a path are short enough: those of the path and
those in the targets of links. -/
structure HasShortNames (files : FileSystem) (p : Path) : Prop where
  path : ∀ name ∈ p.parts, isTooLong name = false
  target : ∀ q target, files.get? q = some (.link target) →
    ∀ name ∈ targetNames target, isTooLong name = false

/-- Where all names are short, no walk ends at one that is too long. -/
theorem HasShortNames.followFrom_ne (h : files.HasShortNames p) {names : List String}
    (hnames : ∀ name ∈ names, name ∈ p.parts) :
    files.followFrom place names ≠ .error .nameTooLong := by
  intro he
  have hstop : ∀ place name code missed, isTooLong name = false →
      files.turn place name = .stop code missed → code ≠ .nameTooLong := by
    intro place name code missed hshort hturn
    rcases turn_stop_code hturn with (rfl | rfl) | ⟨-, hlong⟩
    · decide
    · decide
    · rw [hshort] at hlong
      cases hlong
  exact walk_error hstop h.target (by decide)
    (fun name hmem => h.path name (hnames name hmem)) he rfl

/-! ## The last name of a path -/

/-- What the last name of a path stands for, wherever the rest of the path leads. -/
theorem slot_child_eq (files : FileSystem) (p : Path) (name : String) :
    files.slot (p.child name) =
      if isOverlong (p.child name) then .error .nameTooLong
      else
        match files.followFrom (files.startOf p) p.parts with
        | .error code => .error code
        | .ok place =>
          if files.isDirectoryAt place then
            if name = ".." then .ok none
            else if isTooLong name then .error .nameTooLong
            else .ok (some (place ++ [name]))
          else .error .notDirectory := by
  rw [slot, slotFrom]
  simp only [Path.child, List.getLast?_concat, List.dropLast_concat]
  rw [show files.startOf ⟨p.start, p.parts ++ [name]⟩ = files.startOf p from rfl]
  cases files.followFrom (files.startOf p) p.parts with
  | error code => rfl
  | ok place => cases hd : files.isDirectoryAt place <;> simp [bind, Except.bind, hd]

/-- When the last name of a path stands for no entry, there is nothing, or a limit was met. -/
theorem slot_child_error (h : files.slot (p.child name) = .error code) :
    IsAbsence code ∨ IsLimit code := by
  rw [slot_child_eq] at h
  split at h
  next =>
    cases h
    exact Or.inr (Or.inl rfl)
  next =>
    split at h
    next hway =>
      cases h
      exact followFrom_error hway
    next =>
      split at h
      next =>
        split at h
        next => cases h
        next =>
          split at h
          next =>
            cases h
            exact Or.inr (Or.inl rfl)
          next => cases h
      next =>
        cases h
        exact Or.inl (Or.inr rfl)

/-- Only two points stand for no entry at all. -/
theorem slot_child_ne_none (hup : name ≠ "..") : files.slot (p.child name) ≠ .ok none := by
  intro h
  rw [slot_child_eq] at h
  simp only [if_neg hup] at h
  split at h
  next => cases h
  next =>
    split at h
    next => cases h
    next => grind

/-- Behind a path that leads to no directory there is nothing, where all names are short, the path
is not too long and the links are not too many. -/
theorem slot_child_absent (h : ∀ place, ¬ files.LeadsTo p place)
    (hnames : files.HasShortNames (p.child name)) (hlong : isOverlong (p.child name) = false)
    (hlinks : files.followFrom (files.startOf p) p.parts ≠ .error .linkLoop) :
    ∃ code, files.slot (p.child name) = .error code ∧ IsAbsence code := by
  rw [slot_child_eq, hlong, if_neg (by simp)]
  cases hway : files.followFrom (files.startOf p) p.parts with
  | error code =>
    refine ⟨code, rfl, (followFrom_error hway).resolve_right ?_⟩
    intro hlimit
    rcases hlimit with rfl | rfl
    · exact hnames.followFrom_ne (fun name hmem => List.mem_append_left _ hmem) hway
    · exact hlinks hway
  | ok place =>
    have hd : files.isDirectoryAt place = false := by
      rw [← Bool.not_eq_true]
      exact fun hd => h place ⟨hway, hd⟩
    exact ⟨.notDirectory, by simp [hd], Or.inr rfl⟩

end FileSystem

end RegistryTree
