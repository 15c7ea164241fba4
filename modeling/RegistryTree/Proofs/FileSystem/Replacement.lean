import RegistryTree.Proofs.FileSystem.Tree

/-!
# Replacing a file through a temporary one

A document goes into a temporary file beside its destination, and that file is moved into place. The
temporary file stands where nothing stood, so walks do not notice it, and what is left of it after
the move, or after it was removed again, is nothing.

> `moveTo_ok`: a move that succeeds leaves the files as they were before the temporary one, with the
> document in place.
> `createTemporary_ok`: a temporary file is new.
> `createTemporary_eq`: the first name for a temporary file is taken when it is free.
> `createTemporary_child`, `moveTo_child`: for a file of a directory both are decided by what stands
> in the directory and by the limits.
> `createTemporary_fits`: no temporary file is made beyond the limits on names and paths.
-/

namespace RegistryTree

namespace FileSystem

variable {files : FileSystem}

/-- The first name for a temporary file has fourteen octets more than the name it is made for. -/
theorem utf8ByteSize_temporaryName (name : String) :
    (temporaryName name 0).utf8ByteSize = name.utf8ByteSize + 14 := by
  have hstamp : (stamp 0).utf8ByteSize = 8 := by decide
  simp only [temporaryName, String.utf8ByteSize_append, hstamp]
  rw [show (".".utf8ByteSize) = 1 from rfl, show (".tmp".utf8ByteSize) = 4 from rfl]
  omega

/-- A temporary file is made where nothing stood, and nothing else changes. -/
theorem createFirst_ok {directory : Place} {names : List String} {t : Temporary}
    {made : FileSystem} (h : files.createFirst directory names = .ok (t, made)) :
    t.place ≠ [] ∧ files.get? t.place = none ∧
      made = files.put t.place (.file temporaryMode []) := by
  induction names with
  | nil =>
    rw [createFirst] at h
    cases h
  | cons name rest ih =>
    rw [createFirst] at h
    cases hs : files.slot (fromTop (directory ++ [name])) with
    | error code => simp [hs] at h
    | ok found =>
      cases found with
      -- A name that leads nowhere is passed over, as one at which something stands.
      | none =>
        simp only [hs] at h
        exact ih h
      | some place =>
        simp only [hs] at h
        split at h
        next => exact ih h
        next hfree =>
          cases h
          have hslot : files.slot ((fromTop directory).child name) = .ok (some place) := hs
          obtain ⟨inside, -, hplace, -⟩ := leadsTo_of_slot_child hslot
          exact ⟨by simp [hplace], by simpa using hfree, rfl⟩

theorem createTemporary_ok {p : Path} {t : Temporary} {made : FileSystem}
    (h : files.createTemporary p = .ok (t, made)) :
    t.place ≠ [] ∧ files.get? t.place = none ∧
      made = files.put t.place (.file temporaryMode []) :=
  createFirst_ok h

/-- The names that are tried for a temporary file begin with the one without a number. -/
theorem temporaryNames_eq (name : String) (n : Nat) :
    (List.range (n + 1)).map (temporaryName name) =
      temporaryName name 0 :: ((List.range n).map Nat.succ).map (temporaryName name) := by
  rw [List.range_succ_eq_map, List.map_cons]

/-- The first name for a temporary file is taken when nothing has it. -/
theorem createTemporary_eq {p : Path} {place : Place}
    (hs : files.slot (fromTop (files.written p.parent ++ [temporaryName p.name 0])) =
      .ok (some place)) (hfree : files.get? place = none) :
    ∃ shown, files.createTemporary p =
      .ok (⟨place, shown⟩, files.put place (.file temporaryMode [])) := by
  rw [createTemporary, temporaryNames_eq, createFirst, hs]
  simp only [hfree, Option.isSome_none, Bool.false_eq_true, if_false]
  exact ⟨_, rfl⟩

/-! ## What a file needs -/

/-- The limits on the texts of paths to a file: on that of the file itself, and on that of the
temporary file, which is written from the top. -/
structure PathFits (files : FileSystem) (p : Path) (name : String) : Prop where
  path : isOverlong (p.child name) = false
  temporary : isOverlong (fromTop (files.written p ++ [temporaryName name 0])) = false

/-- The limits for a file: there must be room for the name of the temporary file, and for the texts
of the paths. -/
structure FileFits (files : FileSystem) (p : Path) (name : String) : Prop
    extends PathFits files p name where
  room : name.utf8ByteSize + 14 ≤ nameLimit

/-- Whether a path leads to a directory also when its points are taken at their word, as the path to
a temporary file takes them. -/
def Direct (files : FileSystem) (p : Path) (place : Place) : Prop :=
  files.LeadsTo (fromTop (files.written p)) place

theorem temporaryName_ne_up (name : String) : temporaryName name 0 ≠ ".." := by
  intro h
  have hsize := utf8ByteSize_temporaryName name
  rw [h] at hsize
  have htwo : "..".utf8ByteSize = 2 := by decide
  omega

theorem isTooLong_temporaryName {name : String} :
    isTooLong (temporaryName name 0) = false ↔ name.utf8ByteSize + 14 ≤ nameLimit := by
  rw [isTooLong, utf8ByteSize_temporaryName]
  simp

theorem FileFits.short {p : Path} {name : String} (h : FileFits files p name) :
    isTooLong name = false := by
  have hroom := h.room
  simp only [isTooLong, decide_eq_false_iff_not, Nat.not_lt]
  omega

theorem pathFits_of_keeps {after : FileSystem} {p : Path} {name : String} (hk : Keeps files after) :
    PathFits after p name ↔ PathFits files p name := by
  have hwritten := written_of_keeps hk p
  constructor
  · intro h
    exact ⟨h.path, by rw [← hwritten]; exact h.temporary⟩
  · intro h
    exact ⟨h.path, by rw [hwritten]; exact h.temporary⟩

theorem fileFits_of_keeps {after : FileSystem} {p : Path} {name : String} (hk : Keeps files after) :
    FileFits after p name ↔ FileFits files p name :=
  ⟨fun h => ⟨(pathFits_of_keeps hk).1 h.toPathFits, h.room⟩,
    fun h => ⟨(pathFits_of_keeps hk).2 h.toPathFits, h.room⟩⟩

theorem written_child {p : Path} {name : String} (hup : name ≠ "..") :
    files.written (p.child name) = files.written p ++ [name] := by
  simp only [written, Path.child, List.foldl_append, List.foldl_cons, List.foldl_nil, if_neg hup]
  rfl

theorem Direct.of_keeps {after : FileSystem} {p : Path} {place : Place} (hk : Keeps files after)
    (h : files.Direct p place) : after.Direct p place := by
  unfold Direct at h ⊢
  rw [written_of_keeps hk]
  exact LeadsTo.of_keeps h hk

theorem Direct.child {p : Path} {place : Place} {name : String} (h : files.Direct p place)
    (hd : files.isDirectoryAt (place ++ [name]) = true) (hdot : name ≠ ".") (hup : name ≠ "..")
    (hshort : isTooLong name = false) : files.Direct (p.child name) (place ++ [name]) := by
  unfold Direct
  rw [written_child hup]
  exact LeadsTo.child h hd hdot hup hshort

/-- A path that never leads back up names its place by the names in it. -/
theorem written_of_no_up {p : Path} (hup : ".." ∉ p.parts) :
    files.written p = files.startOf p ++ p.parts := by
  rw [FileSystem.written]
  generalize files.startOf p = start
  generalize p.parts = names at hup
  induction names generalizing start with
  | nil => simp
  | cons name rest ih =>
    rw [List.mem_cons, not_or] at hup
    rw [List.foldl_cons, if_neg (Ne.symm hup.1), ih _ hup.2, List.append_assoc,
      List.singleton_append]

/-- In a tree, every path starts in a directory. -/
theorem IsTree.startOf (ht : files.IsTree) (p : Path) :
    files.isDirectoryAt (files.startOf p) = true := by
  unfold FileSystem.startOf
  split
  next => exact ht.current
  next => rfl

/-- In a tree, a path is direct when it never leads back up. -/
theorem IsTree.direct (ht : files.IsTree) {p : Path} {place : Place} (h : files.LeadsTo p place)
    (hup : ".." ∉ p.parts) : files.Direct p place := by
  refine ⟨?_, h.directory⟩
  show files.followFrom [] (files.written p) = _
  rw [written_of_no_up hup, ht.followFrom_directory (ht.startOf p), h.way]

/-- A temporary file is only made when its first name and the path to it are short enough. -/
theorem createTemporary_fits {p : Path} {name : String} {r : Temporary × FileSystem}
    (h : files.createTemporary (p.child name) = .ok r) :
    isTooLong (temporaryName name 0) = false ∧
      isOverlong (fromTop (files.written p ++ [temporaryName name 0])) = false := by
  rw [createTemporary, Path.parent_of_child, Path.name_of_child, temporaryNames_eq,
    createFirst] at h
  cases hs : files.slot (fromTop (files.written p ++ [temporaryName name 0])) with
  | error code => simp [hs] at h
  | ok found =>
    cases found with
    | none =>
      -- Only a way back stands for no entry, and a temporary name is none.
      exfalso
      have hup := temporaryName_ne_up name
      have hslot : files.slot ((fromTop (files.written p)).child (temporaryName name 0)) =
          .ok none := hs
      unfold slot slotFrom at hslot
      simp only [Path.child, List.getLast?_concat, List.dropLast_concat, bind, Except.bind] at hslot
      repeat (split at hslot <;> try cases hslot)
    | some place =>
      obtain ⟨-, -, -, -, hshort, hlong⟩ :=
        leadsTo_of_slot_child (p := fromTop (files.written p)) hs
      exact ⟨hshort, hlong⟩

section

variable {t : Temporary} {p : Path} {mode : Nat} {content : List UInt8}

/-- Where nothing stood, a file is not taken for a directory. -/
theorem isDirectoryAt_put_file {q : Place} (ht : t.place ≠ []) (hnone : files.get? t.place = none) :
    (files.put t.place (.file mode content)).isDirectoryAt q = files.isDirectoryAt q := by
  unfold isDirectoryAt
  rw [get?_put _ _ _ ht]
  by_cases hq : q = t.place
  · rw [if_pos hq, hq, hnone]
    rfl
  · rw [if_neg hq]

/-- A move that succeeds leaves the files as they were before the temporary file, with its content
in place. -/
theorem moveTo_ok {after : FileSystem} (ht : t.place ≠ []) (hnone : files.get? t.place = none)
    (h : (files.put t.place (.file mode content)).moveTo t p = .ok after) :
    ∃ place, files.slot p = .ok (some place) ∧ files.isDirectoryAt place = false ∧
      after = files.put place (.file mode content) := by
  unfold moveTo at h
  cases hs : (files.put t.place (.file mode content)).slot p with
  | error code => simp [hs] at h
  | ok found =>
    cases found with
    | none => simp [hs] at h
    | some place =>
      have hslot := slot_of_keeps (put_file_keeps ht) hs
      simp only [hs, get?_put _ _ _ ht, if_true, isDirectoryAt_put_file ht hnone] at h
      split at h
      next => cases h
      next hd =>
        cases h
        exact ⟨place, hslot, by simpa using hd, by rw [erase_put, erase_of_none ht hnone]⟩

/-- A temporary file can be moved to where no directory stands. -/
theorem moveTo_eq {place : Place} (ht : t.place ≠ []) (hnone : files.get? t.place = none)
    (hs : files.slot p = .ok (some place)) (hd : files.isDirectoryAt place = false) :
    (files.put t.place (.file mode content)).moveTo t p =
      .ok (files.put place (.file mode content)) := by
  have hslot : (files.put t.place (.file mode content)).slot p = .ok (some place) :=
    slot_of_keeps (keeps_put_of_none ht hnone) hs
  unfold moveTo
  simp only [hslot, get?_put _ _ _ ht, if_true, isDirectoryAt_put_file ht hnone, hd,
    Bool.false_eq_true, if_false]
  rw [erase_put, erase_of_none ht hnone]

end

/-! ## What is in the way of a file -/

/-- Why a file of a directory cannot be replaced, if it cannot: the name or the path of the temporary
file is too long, or the path of the file is, or a directory stands in its place. -/
def refusal (files : FileSystem) (p : Path) (name : String) (blocked : Bool) : Option SystemError :=
  let temporary := files.written p ++ [temporaryName name 0]
  if isOverlong (fromTop temporary) || isTooLong (temporaryName name 0) then
    some (.numbered .nameTooLong [files.shown temporary])
  else if isOverlong (p.child name) || isTooLong name then
    some (.numbered .nameTooLong [files.shown temporary, (p.child name).toText])
  else if blocked then
    some (.numbered .isDirectory [files.shown temporary, (p.child name).toText])
  else none

theorem not_of_refusal_eq_none {p : Path} {name : String} {blocked : Bool}
    (h : files.refusal p name blocked = none) : isTooLong name = false ∧ blocked = false := by
  unfold refusal at h
  dsimp only at h
  split at h
  next => cases h
  next =>
    split at h
    next => cases h
    next hlong =>
      split at h
      next => cases h
      next hblocked =>
        rw [Bool.not_eq_true, Bool.or_eq_false_iff] at hlong
        exact ⟨hlong.2, by simpa using hblocked⟩

section

variable {p : Path} {place : Place} {name : String}

/-- A temporary file is made beside a file of a directory when its first name is free. -/
theorem createTemporary_child (hdirect : files.Direct p place)
    (hfree : files.get? (place ++ [temporaryName name 0]) = none) :
    files.createTemporary (p.child name) =
      let temporary := files.written p ++ [temporaryName name 0]
      if isOverlong (fromTop temporary) || isTooLong (temporaryName name 0) then
        .error (.numbered .nameTooLong [files.shown temporary])
      else .ok (⟨place ++ [temporaryName name 0], files.shown temporary⟩,
        files.put (place ++ [temporaryName name 0]) (.file temporaryMode [])) := by
  have hslot : files.slot (fromTop (files.written p ++ [temporaryName name 0])) =
      if isOverlong (fromTop (files.written p ++ [temporaryName name 0])) then .error .nameTooLong
      else if temporaryName name 0 = ".." then .ok none
      else if isTooLong (temporaryName name 0) then .error .nameTooLong
      else .ok (some (place ++ [temporaryName name 0])) :=
    LeadsTo.slot_child hdirect (temporaryName name 0)
  rw [if_neg (temporaryName_ne_up name)] at hslot
  rw [createTemporary, temporaryNames_eq, createFirst, Path.parent_of_child, Path.name_of_child,
    hslot]
  dsimp only
  cases isOverlong (fromTop (files.written p ++ [temporaryName name 0])) with
  | true => rfl
  | false =>
    cases isTooLong (temporaryName name 0) with
    | true => rfl
    | false =>
      simp only [Bool.false_eq_true, if_false, hfree, Option.isSome_none, Bool.or_self]

/-- A temporary file is moved to a file of a directory unless a directory stands there, within the
limits. -/
theorem moveTo_child {t : Temporary} {mode : Nat} {content : List UInt8}
    (hl : files.LeadsTo p place) (hup : name ≠ "..") (ht : t.place ≠ [])
    (hnone : files.get? t.place = none) :
    (files.put t.place (.file mode content)).moveTo t (p.child name) =
      if isOverlong (p.child name) || isTooLong name then
        .error (.numbered .nameTooLong [t.shown, (p.child name).toText])
      else if files.isDirectoryAt (place ++ [name]) then
        .error (.numbered .isDirectory [t.shown, (p.child name).toText])
      else .ok (files.put (place ++ [name]) (.file mode content)) := by
  have hl' := hl.of_keeps (keeps_put_of_none (e := .file mode content) ht hnone)
  rw [moveTo, hl'.slot_child, if_neg hup]
  cases isOverlong (p.child name) with
  | true => rfl
  | false =>
    cases isTooLong name with
    | true => rfl
    | false =>
      simp only [Bool.false_eq_true, if_false, Bool.or_self, get?_put _ _ _ ht, if_true,
        isDirectoryAt_put_file ht hnone, erase_put, erase_of_none ht hnone]

end

end FileSystem

end RegistryTree
