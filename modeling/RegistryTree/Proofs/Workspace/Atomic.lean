import RegistryTree.Proofs.Workspace

/-!
# Documents are written whole or not at all

To write a document takes four operations of the system: a temporary file is made, filled, given its
permissions, and moved into place. Each of them changes the files, and the system may refuse each of
them, whatever the files are: a file may be filled in part and then no more. Here a document is written
while such refusals are given, and where none is given this is how documents are written.

What carries the proof is that up to the move the files are those from before but for the temporary
file. So they are those from before again when it is taken away, whichever operation was refused; and
after the move there is nothing to be taken away.

> `fill_cases`: up to the move only the temporary file has changed.
> `replaceFileUnder_cases`: a file is replaced when nothing is refused, or nothing has changed.
> `writeDocument_atomic`: so is a document written whole, or no file has changed.
-/

namespace RegistryTree

open RegistryTree.Action RegistryTree.FileSystem

/-! ## What may be refused -/

/-- The operations that the system refuses while a file is replaced, each with its error. -/
structure Refusals where
  creation : Option SystemError
  /-- Also what was stored before no more could be. -/
  filling : Option (SystemError × List UInt8)
  permission : Option SystemError
  move : Option SystemError
  deriving DecidableEq, Repr

/-- Nothing is refused. -/
def Refusals.nothing : Refusals := ⟨none, none, none, none⟩

theorem Refusals.eq_nothing_iff {r : Refusals} : r = .nothing ↔
    r.creation = none ∧ r.filling = none ∧ r.permission = none ∧ r.move = none := by
  obtain ⟨creation, filling, permission, move⟩ := r
  simp [nothing]

/-- Fails when there is an error. -/
def refuse : Option SystemError → Action Unit
  | none => pure ()
  | some cause => throw (.system cause)

/-- Takes a temporary file away when an action fails. -/
def withCleanup (t : Temporary) (act : Action Unit) : Action Unit :=
  tryCatch act fun e => do
    change fun files => .ok (files.erase t.place)
    throw e

/-- Fills a temporary file and gives it its permissions, up to the move. -/
def fill (r : Refusals) (t : Temporary) (content : List UInt8) : Action Unit := do
  let stored := (r.filling.map (·.2)).getD content
  change fun files => .ok (files.put t.place (.file temporaryMode stored))
  refuse (r.filling.map (·.1))
  refuse r.permission
  change fun files => .ok (files.put t.place (.file Layout.fileMode content))
  refuse r.move

/-- Stores content as the whole of a file, while some operations are refused. -/
def replaceFileUnder (r : Refusals) (p : Path) (content : List UInt8) : Action Unit := do
  refuse r.creation
  let (t, made) ← ofExcept .system ((← files).createTemporary p)
  setFiles made
  withCleanup t do
    fill r t content
    change (·.moveTo t p)

/-- Writes a value as the document in a file, while some operations are refused. -/
def writeDocumentUnder (r : Refusals) (v : Value) (p : Path) : Action Path :=
  writeThrough (replaceFileUnder r p) v p

/-! ## Up to the move -/

theorem refuse_run (refused : Option SystemError) (w : Workspace) :
    refuse refused w =
      match refused with
      | none => (.ok (), w)
      | some cause => (.error (.system cause), w) := by
  cases refused <;> rfl

variable {r : Refusals} {t : Temporary} {content : List UInt8} {p : Path} {base : FileSystem}
  {journal : List Record}

/-- Up to the move only the temporary file has changed, and it has the content when nothing was
refused. -/
theorem fill_cases (r : Refusals) (t : Temporary) (content : List UInt8) (base : FileSystem)
    (e : Entry) (journal : List Record) :
    (¬ (r.filling = none ∧ r.permission = none ∧ r.move = none) ∧
        ∃ cause e', fill r t content ⟨base.put t.place e, journal⟩ =
          (.error (.system cause), ⟨base.put t.place e', journal⟩)) ∨
      (r.filling = none ∧ r.permission = none ∧ r.move = none) ∧
        fill r t content ⟨base.put t.place e, journal⟩ =
          (.ok (), ⟨base.put t.place (.file Layout.fileMode content), journal⟩) := by
  unfold fill
  simp only [bind_run, change_run, refuse_run, put_put]
  cases hfilling : r.filling with
  | some refused => exact Or.inl ⟨by simp, refused.1, _, rfl⟩
  | none =>
    cases hpermission : r.permission with
    | some cause => exact Or.inl ⟨by simp, cause, _, rfl⟩
    | none =>
      simp only [Option.map_none, put_put]
      cases hmove : r.move with
      | some cause => exact Or.inl ⟨by simp, cause, _, rfl⟩
      | none => exact Or.inr ⟨⟨trivial, trivial, rfl⟩, rfl⟩

/-- A temporary file is moved when the path stands for an entry that is no directory. -/
theorem moveTo_cases (p : Path) (mode : Nat) (content : List UInt8) (ht : t.place ≠ [])
    (hnone : base.get? t.place = none) :
    ((¬ ∃ place, base.slot p = .ok (some place) ∧ base.isDirectoryAt place = false) ∧
        ∃ cause, (base.put t.place (.file mode content)).moveTo t p = .error cause) ∨
      ∃ place, (base.slot p = .ok (some place) ∧ base.isDirectoryAt place = false) ∧
        (base.put t.place (.file mode content)).moveTo t p =
          .ok (base.put place (.file mode content)) := by
  cases hmoved : (base.put t.place (.file mode content)).moveTo t p with
  | error cause =>
    refine Or.inl ⟨fun h => ?_, cause, rfl⟩
    obtain ⟨place, hslot, hd⟩ := h
    rw [moveTo_eq ht hnone hslot hd] at hmoved
    cases hmoved
  | ok after =>
    obtain ⟨place, hslot, hd, rfl⟩ := moveTo_ok ht hnone hmoved
    exact Or.inr ⟨place, ⟨hslot, hd⟩, rfl⟩

/-- Where only the temporary file has changed, taking it away leaves the files as they were. -/
theorem withCleanup_error {act : Action Unit} {w : Workspace} {failure : Failure} {e : Entry}
    (ht : t.place ≠ []) (hnone : base.get? t.place = none)
    (h : act w = (.error failure, ⟨base.put t.place e, journal⟩)) :
    withCleanup t act w = (.error failure, ⟨base, journal⟩) := by
  rw [withCleanup, tryCatch_run, h]
  show (change _ >>= fun _ => throw _ : Action Unit) _ = _
  rw [bind_run, change_run]
  simp only [erase_put, erase_of_none ht hnone, throw_run]

theorem withCleanup_ok {act : Action Unit} {w w' : Workspace} (h : act w = (.ok (), w')) :
    withCleanup t act w = (.ok (), w') := by
  rw [withCleanup, tryCatch_run, h]

/-- What was filled is moved. -/
theorem fill_moveTo_run {w w' : Workspace} (p : Path) (h : fill r t content w = (.ok (), w')) :
    (do fill r t content; change (·.moveTo t p) : Action Unit) w =
      match w'.files.moveTo t p with
      | .ok files => (.ok (), { w' with files })
      | .error cause => (.error (.system cause), w') := by
  rw [bind_run, h]
  exact change_run ..

/-! ## The whole of it -/

theorem replaceFileUnder_run (r : Refusals) (p : Path) (content : List UInt8) (w : Workspace) :
    replaceFileUnder r p content w =
      match r.creation with
      | some cause => (.error (.system cause), w)
      | none =>
        match w.files.createTemporary p with
        | .error cause => (.error (.system cause), w)
        | .ok (t, made) =>
          withCleanup t (do fill r t content; change (·.moveTo t p)) { w with files := made } := by
  unfold replaceFileUnder
  rw [bind_run, refuse_run]
  cases r.creation with
  | some cause => rfl
  | none =>
    show (ofExcept Failure.system (w.files.createTemporary p) >>= fun _ => _ : Action Unit) w = _
    rw [bind_run, ofExcept_run]
    cases w.files.createTemporary p <;> rfl

/-- Whether a file can be replaced: a temporary file can be made for it, and its path stands for an
entry that is no directory. -/
structure Replaceable (files : FileSystem) (p : Path) : Prop where
  temporary : ∃ t made, files.createTemporary p = .ok (t, made)
  slot : ∃ place, files.slot p = .ok (some place) ∧ files.isDirectoryAt place = false

/-- From a temporary file that was made, either the file is replaced, or nothing has changed. -/
theorem withCleanup_fill_cases (r : Refusals) (p : Path) (content : List UInt8) (e : Entry)
    (journal : List Record) (ht : t.place ≠ []) (hnone : base.get? t.place = none) :
    (¬ ((∃ place, base.slot p = .ok (some place) ∧ base.isDirectoryAt place = false) ∧
          r.filling = none ∧ r.permission = none ∧ r.move = none) ∧
        ∃ cause, withCleanup t (do fill r t content; change (·.moveTo t p))
          ⟨base.put t.place e, journal⟩ = (.error (.system cause), ⟨base, journal⟩)) ∨
      ∃ place, (base.slot p = .ok (some place) ∧ base.isDirectoryAt place = false) ∧
        (r.filling = none ∧ r.permission = none ∧ r.move = none) ∧
        withCleanup t (do fill r t content; change (·.moveTo t p)) ⟨base.put t.place e, journal⟩ =
          (.ok (), ⟨base.put place (.file Layout.fileMode content), journal⟩) := by
  rcases fill_cases r t content base e journal with ⟨hrefused, cause, e', hfill⟩ | ⟨hgiven, hfill⟩
  · have hact : (do fill r t content; change (·.moveTo t p) : Action Unit)
        ⟨base.put t.place e, journal⟩ = (.error (.system cause), ⟨base.put t.place e', journal⟩) := by
      rw [bind_run, hfill]
    exact Or.inl ⟨fun h => hrefused h.2, cause, withCleanup_error ht hnone hact⟩
  · have hact := fill_moveTo_run p hfill
    rcases moveTo_cases p Layout.fileMode content ht hnone with
      ⟨hblocked, cause, hmoved⟩ | ⟨place, hslot, hmoved⟩
    · rw [hmoved] at hact
      exact Or.inl ⟨fun h => hblocked h.1, cause, withCleanup_error ht hnone hact⟩
    · rw [hmoved] at hact
      exact Or.inr ⟨place, hslot, hgiven, withCleanup_ok hact⟩

/-- A file is replaced as a whole when it can be and nothing is refused; otherwise nothing has
changed. -/
theorem replaceFileUnder_cases (r : Refusals) (p : Path) (content : List UInt8) (w : Workspace) :
    (¬ (Replaceable w.files p ∧ r = .nothing) ∧
        ∃ cause, replaceFileUnder r p content w = (.error (.system cause), w)) ∨
      (Replaceable w.files p ∧ r = .nothing) ∧ ∃ place, w.files.slot p = .ok (some place) ∧
        replaceFileUnder r p content w =
          (.ok (), { w with files := w.files.put place (.file Layout.fileMode content) }) := by
  rw [replaceFileUnder_run, Refusals.eq_nothing_iff]
  cases hcreation : r.creation with
  | some cause => exact Or.inl ⟨by simp, cause, rfl⟩
  | none =>
    cases hmade : w.files.createTemporary p with
    | error cause =>
      refine Or.inl ⟨fun h => ?_, cause, rfl⟩
      obtain ⟨t, made, hok⟩ := h.1.temporary
      rw [hmade] at hok
      cases hok
    | ok made =>
      obtain ⟨t, made⟩ := made
      obtain ⟨ht, hnone, rfl⟩ := createTemporary_ok hmade
      rcases withCleanup_fill_cases r p content (.file temporaryMode []) w.journal ht hnone with
        ⟨hblocked, hrun⟩ | ⟨place, hslot, hgiven, hrun⟩
      · exact Or.inl ⟨fun h => hblocked ⟨h.1.slot, h.2.2⟩, hrun⟩
      · exact Or.inr ⟨⟨⟨⟨t, _, hmade⟩, place, hslot⟩, rfl, hgiven⟩, place, hslot.1, hrun⟩

/-- While nothing is refused, a file is replaced as files are. -/
theorem replaceFileUnder_nothing (p : Path) (content : List UInt8) :
    replaceFileUnder .nothing p content = replaceFile p content := by
  funext w
  rw [replaceFileUnder_run]
  cases hmade : w.files.createTemporary p with
  | error cause => exact (replaceFile_error content hmade).symm
  | ok made =>
    obtain ⟨t, made⟩ := made
    obtain ⟨ht, hnone, rfl⟩ := createTemporary_ok hmade
    rw [replaceFile_run content hmade]
    rcases fill_cases .nothing t content w.files (.file temporaryMode []) w.journal with
      ⟨hrefused, -⟩ | ⟨-, hfill⟩
    · exact absurd ⟨rfl, rfl, rfl⟩ hrefused
    · have hact := fill_moveTo_run p hfill
      dsimp only at hact ⊢
      cases hmoved : (w.files.put t.place (.file Layout.fileMode content)).moveTo t p with
      | ok after =>
        rw [hmoved] at hact
        exact withCleanup_ok hact
      | error cause =>
        rw [hmoved] at hact
        exact withCleanup_error ht hnone hact

theorem writeDocumentUnder_nothing (v : Value) (p : Path) :
    writeDocumentUnder .nothing v p = writeDocument v p := by
  have hreplace : replaceFileUnder .nothing p = replaceFile p := funext (replaceFileUnder_nothing p)
  rw [writeDocumentUnder, writeDocument_eq_writeThrough, hreplace]

/-! ## What is in the way -/

/-- What keeps a file from being replaced whatever the system does. -/
inductive Obstacle (files : FileSystem) (p : Path) : Prop
  /-- What the file would be in is not there, or is no directory. -/
  | parent : (∀ place, ¬ files.LeadsTo p.parent place) → Obstacle files p
  /-- The name of the temporary file is too long. -/
  | name : isTooLong (temporaryName p.name 0) = true → Obstacle files p
  /-- There is a directory. -/
  | directory (place : Place) : files.slot p = .ok (some place) →
      files.isDirectoryAt place = true → Obstacle files p

/-- A path that stands for an entry has a last name. -/
theorem eq_child_of_slot {files : FileSystem} {place : Place} (h : files.slot p = .ok (some place)) :
    p = p.parent.child p.name := by
  obtain ⟨start, parts⟩ := p
  rcases List.eq_nil_or_concat parts with rfl | ⟨parts, name, rfl⟩
  · unfold slot slotFrom at h
    split at h <;> cases h
  · rw [List.concat_eq_append, Path.parent_child, Path.name_child]
    rfl

/-- A path does not stand for the top. -/
theorem ne_nil_of_slot {files : FileSystem} {place : Place} (h : files.slot p = .ok (some place)) :
    place ≠ [] := by
  rw [eq_child_of_slot h] at h
  obtain ⟨inside, -, rfl, -⟩ := leadsTo_of_slot_child h
  simp

theorem Obstacle.not_replaceable {files : FileSystem} (h : Obstacle files p) :
    ¬ Replaceable files p := by
  intro hr
  obtain ⟨⟨t, made, hmade⟩, place, hslot, hd⟩ := hr
  have hchild := eq_child_of_slot hslot
  cases h with
  | parent hnone =>
    rw [hchild] at hslot
    obtain ⟨inside, hl, -⟩ := leadsTo_of_slot_child hslot
    exact hnone inside hl
  | name hlong =>
    rw [hchild] at hmade
    rw [(createTemporary_fits hmade).1] at hlong
    cases hlong
  | directory place' hslot' hd' =>
    rw [hslot] at hslot'
    cases hslot'
    rw [hd] at hd'
    cases hd'

/-- A document is written whole, or no file has changed, whatever is refused. When the value has no
text, nothing is written, and the error is the one of the value. Otherwise the document is in place
when the file can be replaced and nothing is refused: the path stands for a file with the text of the
value, everywhere else stands what stood there, and so no temporary file is left. When something is
refused or in the way, the error says that the path was to be written. -/
theorem writeDocument_atomic (v : Value) {p : Path} (w : Workspace) (r : Refusals)
    (hnull : p.hasNull = false) :
    writeDocumentUnder .nothing v p = writeDocument v p ∧
    (Obstacle w.files p → ¬ Replaceable w.files p) ∧
    (∀ fault, Yaml.render v = .error fault →
      writeDocumentUnder r v p w = (.error (.ofWriteFault v.typeName fault), w)) ∧
    ∀ text, Yaml.render v = .ok text →
      (Replaceable w.files p ∧ r = .nothing → ∃ place after journal,
        w.files.slot p = .ok (some place) ∧
        writeDocumentUnder r v p w = (.ok p, ⟨after, journal⟩) ∧
        after.current = w.files.current ∧
        ∀ q, after.get? q =
          if q = place then some (.file Layout.fileMode (Text.encodeUtf8 text))
          else w.files.get? q) ∧
      (¬ (Replaceable w.files p ∧ r = .nothing) → ∃ cause, writeDocumentUnder r v p w =
        (.error (.manifest (.ofFault (.io "write file" p.toText cause))), w)) := by
  refine ⟨writeDocumentUnder_nothing v p, Obstacle.not_replaceable, fun fault hfault => ?_,
    fun text htext => ?_⟩
  · rw [writeDocumentUnder, writeThrough_run, renderDocument, hfault]
    rfl
  · have hrendered := renderDocument_of_render htext
    rcases replaceFileUnder_cases r p (Text.encodeUtf8 text) w with
      ⟨hblocked, cause, hreplace⟩ | ⟨hgiven, place, hslot, hreplace⟩
    · exact ⟨fun h => absurd h hblocked,
        fun _ => ⟨cause, writeThrough_of_error hrendered hnull hreplace⟩⟩
    · have hrun := writeThrough_of_ok hrendered hnull hreplace
      refine ⟨fun _ => ⟨place, _, _, hslot, hrun, rfl, fun q => ?_⟩, fun h => absurd hgiven h⟩
      exact get?_put _ _ _ (ne_nil_of_slot hslot)

/-- A link under the name of a document. -/
def linkedDocument : FileSystem :=
  ⟨[(["reg"], .directory 0o755), (["reg", "a.yaml"], .link "elsewhere")], []⟩

/-- No more than three octets can be stored. -/
def fullDisk : Refusals :=
  ⟨none, some (.numbered ⟨28, "No space left on device"⟩ [], [110, 117, 108]), none, none⟩

/-- A document takes the place of a link, of which nothing is lost when the document does not fit. -/
theorem writeDocument_atomic_link :
    (∃ after journal, writeDocument .null (.ofText "reg/a.yaml") ⟨linkedDocument, []⟩ =
        (.ok (.ofText "reg/a.yaml"), ⟨after, journal⟩) ∧
      after.get? ["reg", "a.yaml"] = some (.file 0o644 (Text.encodeUtf8 "null\n...\n".toList))) ∧
    ∃ cause, writeDocumentUnder fullDisk .null (.ofText "reg/a.yaml") ⟨linkedDocument, []⟩ =
      (.error (.manifest (.ofFault (.io "write file" "reg/a.yaml" cause))), ⟨linkedDocument, []⟩) := by
  have htext : Yaml.render .null = .ok "null\n...\n".toList := by decide +kernel
  have hslot : linkedDocument.slot (.ofText "reg/a.yaml") = .ok (some ["reg", "a.yaml"]) := by
    decide +kernel
  have hwritable : Replaceable linkedDocument (.ofText "reg/a.yaml") :=
    ⟨⟨_, _, rfl⟩, _, hslot, by decide +kernel⟩
  obtain ⟨hnothing, -, -, hgiven⟩ := writeDocument_atomic .null (p := .ofText "reg/a.yaml")
    ⟨linkedDocument, []⟩ .nothing (by decide +kernel)
  obtain ⟨-, -, -, hfull⟩ := writeDocument_atomic .null (p := .ofText "reg/a.yaml")
    ⟨linkedDocument, []⟩ fullDisk (by decide +kernel)
  constructor
  · obtain ⟨place, after, journal, hplace, hrun, -, hafter⟩ := (hgiven _ htext).1 ⟨hwritable, rfl⟩
    rw [hslot] at hplace
    cases hplace
    rw [hnothing] at hrun
    exact ⟨after, journal, hrun, by rw [hafter, if_pos rfl]; rfl⟩
  · obtain ⟨cause, hrun⟩ := (hfull _ htext).2 fun h => absurd h.2 (by decide)
    exact ⟨cause, hrun⟩

end RegistryTree
