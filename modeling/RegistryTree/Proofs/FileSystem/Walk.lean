import RegistryTree.FileSystem.Change

/-!
# What a walk depends on

A walk that ends in a directory passes through directories and links alone. It goes the same way in
every file system that keeps those, whatever happens to files and to places where nothing stood:
making a directory, a temporary file that comes and goes, a document moved into place.

> `slot_of_keeps`: a path leads to the same directory, and its last name stands for the same entry,
> wherever directories and links are kept.
> `walk_append`: a walk over names goes on from where the first of them lead.
> `LeadsTo.slot_child`: what one more name behind the path of a directory stands for.
-/

namespace RegistryTree

/-- The path with one name more. -/
def Path.child (p : Path) (name : String) : Path := ⟨p.start, p.parts ++ [name]⟩

@[simp] theorem Path.parent_of_child (p : Path) (name : String) : (p.child name).parent = p :=
  Path.parent_child p.start p.parts name

@[simp] theorem Path.name_of_child (p : Path) (name : String) : (p.child name).name = name :=
  Path.name_child p.start p.parts name

namespace FileSystem

/-! ## One name -/

/-- What comes of one name on a walk: the walk stops, and the place of an entry that it missed is told;
or it goes on from a place; or it has met a link. -/
inductive Turn where
  | stop (code : ErrorCode) (missed : List Place)
  | on (next : Place)
  | link (target : String)

/-- What comes of a name in a place. -/
def turn (files : FileSystem) (place : Place) (name : String) : Turn :=
  if !files.isDirectoryAt place then .stop .notDirectory []
  else if name = "." then .on place
  else if name = ".." then .on place.dropLast
  else if isTooLong name then .stop .nameTooLong []
  else match files.get? (place ++ [name]) with
    | none => .stop .missing [place ++ [name]]
    | some (.link target) => .link target
    | some _ => .on (place ++ [name])

section

variable {files : FileSystem} {place next : Place} {name : String}

/-- A walk goes on from the same place or the one above, or from the entry of the name. -/
theorem turn_on (h : files.turn place name = .on next) :
    name = "." ∧ next = place ∨ name = ".." ∧ next = place.dropLast ∨
      files.get? (place ++ [name]) ≠ none ∧ next = place ++ [name] := by
  unfold turn at h
  grind

/-- A walk that stops has missed the entry of the name, or has not looked for it. -/
theorem turn_stop {code : ErrorCode} {missed : List Place}
    (h : files.turn place name = .stop code missed) : missed = [] ∨ missed = [place ++ [name]] := by
  unfold turn at h
  grind

theorem turn_link {target : String} (h : files.turn place name = .link target) :
    files.get? (place ++ [name]) = some (.link target) := by
  unfold turn at h
  grind

end

/-- A walk takes one name after the other. -/
theorem walkWith_cons (files : FileSystem)
    (onLink : Place → List String → Except ErrorCode Place) (place : Place) (name : String)
    (rest : List String) :
    walkWith files onLink place (name :: rest) =
      match files.turn place name with
      | .stop code _ => .error code
      | .on next => walkWith files onLink next rest
      | .link target => onLink (targetStart place target) (targetNames target ++ rest) := by
  rw [walkWith, turn]
  grind

/-! ## What is kept -/

/-- The directories and links of one file system stand in another, as they are. -/
structure Keeps (files after : FileSystem) : Prop where
  directory : ∀ p, files.isDirectoryAt p = true → after.isDirectoryAt p = true
  link : ∀ p target, files.get? p = some (.link target) → after.get? p = some (.link target)
  current : after.current = files.current

theorem Keeps.refl (files : FileSystem) : Keeps files files :=
  ⟨fun _ h => h, fun _ _ h => h, rfl⟩

theorem Keeps.trans {a b c : FileSystem} (h : Keeps a b) (h' : Keeps b c) : Keeps a c :=
  ⟨fun p hp => h'.directory p (h.directory p hp), fun p t hp => h'.link p t (h.link p t hp),
    h'.current.trans h.current⟩

theorem isDirectoryAt_iff {files : FileSystem} {p : Place} :
    files.isDirectoryAt p = true ↔ ∃ mode, files.get? p = some (.directory mode) := by
  unfold isDirectoryAt
  cases files.get? p with
  | none => simp
  | some e => cases e <;> simp [Entry.isDirectory]

/-- An entry that was neither a directory nor a link can be put anew, as anything. -/
theorem keeps_put {files : FileSystem} {p : Place} {e : Entry} (hp : p ≠ [])
    (hd : files.isDirectoryAt p = false) (hl : ∀ target, files.get? p ≠ some (.link target)) :
    Keeps files (files.put p e) := by
  refine ⟨fun q hq => ?_, fun q target hq => ?_, rfl⟩
  · obtain ⟨mode, hm⟩ := isDirectoryAt_iff.1 hq
    have hne : q ≠ p := by
      intro he
      rw [he] at hq
      rw [hq] at hd
      cases hd
    exact isDirectoryAt_iff.2 ⟨mode, by rw [get?_put _ _ _ hp, if_neg hne, hm]⟩
  · have hne : q ≠ p := fun he => hl target (he ▸ hq)
    rw [get?_put _ _ _ hp, if_neg hne, hq]

theorem keeps_put_of_none {files : FileSystem} {p : Place} {e : Entry} (hp : p ≠ [])
    (h : files.get? p = none) : Keeps files (files.put p e) :=
  keeps_put hp (by simp [isDirectoryAt, h]) (by simp [h])

/-- Where nothing stood, a file can come and go. -/
theorem put_file_keeps {files : FileSystem} {p : Place} {mode : Nat} {content : List UInt8}
    (hp : p ≠ []) : Keeps (files.put p (.file mode content)) files := by
  refine ⟨fun q hq => ?_, fun q target hq => ?_, rfl⟩
  · obtain ⟨m, hm⟩ := isDirectoryAt_iff.1 hq
    rw [get?_put _ _ _ hp] at hm
    split at hm
    · cases hm
    · exact isDirectoryAt_iff.2 ⟨m, hm⟩
  · rw [get?_put _ _ _ hp] at hq
    split at hq
    · cases hq
    · exact hq

theorem keeps_of_get?_eq {files after : FileSystem} (h : ∀ p, after.get? p = files.get? p)
    (hc : after.current = files.current) : Keeps files after := by
  refine ⟨fun p hp => ?_, fun p target hp => by rw [h, hp], hc⟩
  rwa [isDirectoryAt, h]

/-! ## Walks that end in a directory -/

theorem walkWith_of_keeps {files after : FileSystem} (h : Keeps files after)
    {onLink onLink' : Place → List String → Except ErrorCode Place} {goal : Place}
    (hgoal : files.isDirectoryAt goal = true)
    (hlink : ∀ p names, onLink p names = .ok goal → onLink' p names = .ok goal) :
    ∀ {names : List String} {place : Place}, walkWith files onLink place names = .ok goal →
      walkWith after onLink' place names = .ok goal := by
  intro names
  induction names with
  | nil => exact fun hw => hw
  | cons name rest ih =>
    intro place hw
    rw [walkWith] at hw ⊢
    cases hd : files.isDirectoryAt place with
    | false => simp [hd] at hw
    | true =>
      rw [h.directory place hd]
      simp only [hd, Bool.not_true, Bool.false_eq_true, if_false] at hw ⊢
      split
      next hdot =>
        rw [if_pos hdot] at hw
        exact ih hw
      next hdot =>
        rw [if_neg hdot] at hw
        split
        next hup =>
          rw [if_pos hup] at hw
          exact ih hw
        next hup =>
          rw [if_neg hup] at hw
          split
          next hlong => simp [hlong] at hw
          next hlong =>
            rw [if_neg hlong] at hw
            cases he : files.get? (place ++ [name]) with
            | none => simp [he] at hw
            | some e =>
              rw [he] at hw
              cases e with
              | link target =>
                rw [h.link _ _ he]
                exact hlink _ _ hw
              | directory mode =>
                obtain ⟨m, hm⟩ :=
                  isDirectoryAt_iff.1 (h.directory _ (isDirectoryAt_iff.2 ⟨mode, he⟩))
                rw [hm]
                exact ih hw
              | file mode content =>
                -- a walk can only end at a file, and this one ends in a directory
                exfalso
                have hnd : files.isDirectoryAt (place ++ [name]) = false := by
                  simp [isDirectoryAt, he, Entry.isDirectory]
                cases rest with
                | nil =>
                  rw [walkWith] at hw
                  cases hw
                  rw [hgoal] at hnd
                  cases hnd
                | cons next more => simp [walkWith, hnd] at hw

theorem walk_of_keeps {files after : FileSystem} (h : Keeps files after) {goal : Place}
    (hgoal : files.isDirectoryAt goal = true) :
    ∀ {links : Nat} {place : Place} {names : List String},
      walk files links place names = .ok goal → walk after links place names = .ok goal := by
  intro links
  induction links with
  | zero => exact fun hw => walkWith_of_keeps h hgoal (fun _ _ he => by cases he) hw
  | succ n ih => exact fun hw => walkWith_of_keeps h hgoal (fun _ _ he => ih he) hw

theorem startOf_of_keeps {files after : FileSystem} (h : Keeps files after) (p : Path) :
    after.startOf p = files.startOf p := by
  unfold startOf
  rw [h.current]

theorem written_of_keeps {files after : FileSystem} (h : Keeps files after) (p : Path) :
    after.written p = files.written p := by
  unfold written
  rw [startOf_of_keeps h]

theorem slotFrom_of_keeps {files after : FileSystem} (h : Keeps files after) {place : Place}
    {names : List String} {found : Option Place} (hs : files.slotFrom place names = .ok found) :
    after.slotFrom place names = .ok found := by
  unfold slotFrom at hs ⊢
  cases hl : names.getLast? with
  | none =>
    rw [hl] at hs
    exact hs
  | some last =>
    rw [hl] at hs
    cases hf : files.followFrom place names.dropLast with
    | error code => simp [hf, bind, Except.bind] at hs
    | ok directory =>
      simp only [hf, bind, Except.bind] at hs
      cases hd : files.isDirectoryAt directory with
      | false => simp [hd] at hs
      | true =>
        have hf' : after.followFrom place names.dropLast = .ok directory :=
          walk_of_keeps h hd hf
        simp only [hf', bind, Except.bind, h.directory _ hd]
        simpa only [hd] using hs

/-- The last name of a path stands for the same entry as long as directories and links are kept. -/
theorem slot_of_keeps {files after : FileSystem} (h : Keeps files after) {p : Path}
    {found : Option Place} (hs : files.slot p = .ok found) : after.slot p = .ok found := by
  unfold slot at hs ⊢
  split at hs
  next => cases hs
  next hlong =>
    rw [if_neg hlong, startOf_of_keeps h]
    exact slotFrom_of_keeps h hs

/-! ## One name more -/

/-- A walk over names goes on from where the first of them lead, if what carries on behind a link
does. -/
theorem walkWith_append {files : FileSystem}
    {onLink : Place → List String → Except ErrorCode Place} {goal : Place}
    (hlink : ∀ p names, onLink p names = .ok goal →
      ∃ onLink', ∀ more, onLink p (names ++ more) = walkWith files onLink' goal more) :
    ∀ {names : List String} {place : Place}, walkWith files onLink place names = .ok goal →
      ∃ onLink', ∀ more,
        walkWith files onLink place (names ++ more) = walkWith files onLink' goal more := by
  -- The names still to come are carried along unchanged until a link; what carries on there gets
  -- them behind the names of the target.
  intro names
  induction names with
  | nil =>
    intro place hw
    rw [walkWith] at hw
    cases hw
    exact ⟨onLink, fun more => rfl⟩
  | cons name rest ih =>
    intro place hw
    rw [walkWith_cons] at hw
    simp only [List.cons_append, walkWith_cons]
    cases ht : files.turn place name with
    | stop code missed => simp [ht] at hw
    | on next =>
      rw [ht] at hw
      exact ih hw
    | link target =>
      rw [ht] at hw
      obtain ⟨onLink', hmore⟩ := hlink _ _ hw
      exact ⟨onLink', fun more => by rw [← hmore more, List.append_assoc]⟩

/-- A walk over names goes on from where the first of them lead, with the links that are left. -/
theorem walk_append {files : FileSystem} {goal : Place} :
    ∀ {links : Nat} {place : Place} {names : List String}, walk files links place names = .ok goal →
      ∃ onLink, ∀ more, walk files links place (names ++ more) =
        walkWith files onLink goal more := by
  intro links
  induction links with
  | zero => exact fun hw => walkWith_append (fun _ _ he => by cases he) hw
  | succ n ih => exact fun hw => walkWith_append (fun _ _ he => ih he) hw

/-- One step to an entry of a directory that is no link. -/
theorem walkWith_entry {files : FileSystem}
    {onLink : Place → List String → Except ErrorCode Place} {place : Place} {name : String}
    {e : Entry} (hd : files.isDirectoryAt place = true) (he : files.get? (place ++ [name]) = some e)
    (hl : ∀ target, e ≠ .link target) (hdot : name ≠ ".") (hup : name ≠ "..")
    (hlong : isTooLong name = false) :
    walkWith files onLink place [name] = .ok (place ++ [name]) := by
  rw [walkWith]
  simp only [hd, Bool.not_true, Bool.false_eq_true, if_false, if_neg hdot, if_neg hup, hlong, he]
  cases e with
  | link target => exact absurd rfl (hl target)
  | directory mode => rw [walkWith]
  | file mode content => rw [walkWith]

/-! ## The entries of a directory that a path leads to -/

/-- Whether a path leads to a directory, however long its text is. -/
structure LeadsTo (files : FileSystem) (p : Path) (place : Place) : Prop where
  way : files.followFrom (files.startOf p) p.parts = .ok place
  directory : files.isDirectoryAt place = true

namespace LeadsTo

variable {files after : FileSystem} {p : Path} {place : Place} {name : String}

theorem of_follow (h : files.follow p = .ok place) (hd : files.isDirectoryAt place = true) :
    files.LeadsTo p place := by
  unfold follow at h
  split at h
  next => cases h
  next => exact ⟨h, hd⟩

theorem follow (h : files.LeadsTo p place) (hlong : isOverlong p = false) :
    files.follow p = .ok place := by
  rw [FileSystem.follow, hlong, if_neg (by simp), h.way]

theorem unique (h : files.LeadsTo p place) {q : Place} (h' : files.LeadsTo p q) : place = q :=
  Except.ok.inj (h.way.symm.trans h'.way)

theorem of_keeps (h : files.LeadsTo p place) (hk : Keeps files after) : after.LeadsTo p place := by
  refine ⟨?_, hk.directory _ h.directory⟩
  rw [startOf_of_keeps hk]
  exact walk_of_keeps hk h.directory h.way

/-- What one more name behind the path of a directory stands for. -/
theorem slot_child (h : files.LeadsTo p place) (name : String) :
    files.slot (p.child name) =
      if isOverlong (p.child name) then .error .nameTooLong
      else if name = ".." then .ok none
      else if isTooLong name then .error .nameTooLong
      else .ok (some (place ++ [name])) := by
  have hway := h.way
  rw [slot, slotFrom]
  simp only [Path.child, List.getLast?_concat, List.dropLast_concat]
  rw [show files.startOf ⟨p.start, p.parts ++ [name]⟩ = files.startOf p from rfl, hway]
  simp only [bind, Except.bind, h.directory, Bool.not_true, Bool.false_eq_true, if_false]
  rfl

theorem slot_child_of_component (h : files.LeadsTo p place) (hup : name ≠ "..")
    (hshort : isTooLong name = false) (hlong : isOverlong (p.child name) = false) :
    files.slot (p.child name) = .ok (some (place ++ [name])) := by
  rw [h.slot_child, hlong, hshort, if_neg hup]
  simp

/-- Making a directory behind the path of another: it is made where nothing stands, within the
limits. -/
theorem makeDirectory_child (h : files.LeadsTo p place) (hup : name ≠ "..") (mode : Nat) :
    files.makeDirectory (p.child name) mode =
      if isOverlong (p.child name) || isTooLong name then failAt (p.child name) .nameTooLong
      else if (files.get? (place ++ [name])).isSome then failAt (p.child name) .exists_
      else .ok (files.put (place ++ [name]) (.directory mode)) := by
  rw [makeDirectory, h.slot_child, if_neg hup]
  cases isOverlong (p.child name) <;> cases isTooLong name <;> rfl

/-- A path leads on to what stands in its directory, unless that is a link. -/
theorem way_child (h : files.LeadsTo p place) {e : Entry}
    (he : files.get? (place ++ [name]) = some e) (hl : ∀ target, e ≠ .link target)
    (hdot : name ≠ ".") (hup : name ≠ "..") (hshort : isTooLong name = false) :
    files.followFrom (files.startOf p) (p.child name).parts = .ok (place ++ [name]) := by
  obtain ⟨onLink, hmore⟩ := walk_append h.way
  rw [followFrom, Path.child, hmore]
  exact walkWith_entry h.directory he hl hdot hup hshort

theorem follow_child (h : files.LeadsTo p place) {e : Entry}
    (he : files.get? (place ++ [name]) = some e) (hl : ∀ target, e ≠ .link target)
    (hdot : name ≠ ".") (hup : name ≠ "..") (hshort : isTooLong name = false)
    (hlong : isOverlong (p.child name) = false) :
    files.follow (p.child name) = .ok (place ++ [name]) := by
  unfold FileSystem.follow
  rw [hlong]
  exact h.way_child he hl hdot hup hshort

theorem child (h : files.LeadsTo p place) (hd : files.isDirectoryAt (place ++ [name]) = true)
    (hdot : name ≠ ".") (hup : name ≠ "..") (hshort : isTooLong name = false) :
    files.LeadsTo (p.child name) (place ++ [name]) := by
  obtain ⟨mode, hm⟩ := isDirectoryAt_iff.1 hd
  exact ⟨h.way_child hm (fun _ he => by cases he) hdot hup hshort, hd⟩

end LeadsTo

/-- When the last name of a path stands for an entry, the path without it leads to the directory
that the entry belongs to. -/
theorem leadsTo_of_slot_child {files : FileSystem} {p : Path} {name : String} {place : Place}
    (h : files.slot (p.child name) = .ok (some place)) :
    ∃ directory, files.LeadsTo p directory ∧ place = directory ++ [name] ∧ name ≠ ".." ∧
      isTooLong name = false ∧ isOverlong (p.child name) = false := by
  have hlong : isOverlong (p.child name) = false := by
    rw [slot] at h
    split at h
    next => cases h
    next hl => simpa using hl
  -- The way to the directory comes first, so the last name is only looked at when that has been
  -- walked.
  cases hf : files.followFrom (files.startOf p) p.parts with
  | error code =>
    rw [slot, hlong, slotFrom] at h
    simp only [Path.child, List.getLast?_concat, List.dropLast_concat] at h
    rw [show files.startOf ⟨p.start, p.parts ++ [name]⟩ = files.startOf p from rfl, hf] at h
    cases h
  | ok directory =>
    cases hd : files.isDirectoryAt directory with
    | false =>
      rw [slot, hlong, slotFrom] at h
      simp only [Path.child, List.getLast?_concat, List.dropLast_concat] at h
      rw [show files.startOf ⟨p.start, p.parts ++ [name]⟩ = files.startOf p from rfl, hf] at h
      simp [bind, Except.bind, hd] at h
    | true =>
      have hl : files.LeadsTo p directory := ⟨hf, hd⟩
      rw [hl.slot_child, hlong] at h
      simp only [Bool.false_eq_true, if_false] at h
      split at h
      next => cases h
      next hup =>
        split at h
        next => cases h
        next hshort =>
          cases h
          exact ⟨directory, hl, rfl, hup, by simpa using hshort, hlong⟩

end FileSystem

end RegistryTree
