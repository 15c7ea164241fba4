import RegistryTree.Proofs.Except
import RegistryTree.Proofs.FileSystem.Replacement
import RegistryTree.Workspace

/-!
# What actions do

Each action on a workspace as an equation: its result and the workspace that it leaves. Making a
directory and writing a document either do all of it or leave the files as they were.

> `Action.forM_cases`: what every step of a traversal keeps is kept up to the step that fails.
> `createDirectory_run`: making a directory is making it on the file system.
> `replaceFile_child`: a file is replaced unless something is in its way.
> `writeDocument_cases`: a document is written whole, or no file has changed.
> `writeDocument_eq`: what is enough for a document to be written.
-/

namespace RegistryTree

namespace Action

variable {α : Type}

@[simp] theorem throw_run (e : Failure) (w : Workspace) :
    (throw e : Action α) w = (.error e, w) := rfl

/-- A handler sees the failure and the workspace as the action left it. -/
theorem tryCatch_run (x : Action α) (handle : Failure → Action α) (w : Workspace) :
    (tryCatch x handle : Action α) w =
      match x w with
      | (.ok a, w') => (.ok a, w')
      | (.error e, w') => handle e w' := by
  show ExceptT.tryCatch x handle w = _
  unfold ExceptT.tryCatch ExceptT.mk
  simp only [bind, StateT.bind]
  rcases x w with ⟨_ | _, _⟩ <;> rfl

theorem ofExcept_run {ε : Type} (failure : ε → Failure) (x : Except ε α) (w : Workspace) :
    ofExcept failure x w = (x.mapError failure, w) := by
  cases x <;> rfl

@[simp] theorem setFiles_run (files : FileSystem) (w : Workspace) :
    setFiles files w = (.ok (), { w with files }) := rfl

theorem change_run (f : FileSystem → Except SystemError FileSystem) (w : Workspace) :
    change f w =
      match f w.files with
      | .ok files => (.ok (), { w with files })
      | .error cause => (.error (.system cause), w) := by
  rw [change, bind_run]
  show (ofExcept Failure.system (f w.files) >>= setFiles : Action Unit) w = _
  rw [bind_run, ofExcept_run]
  cases f w.files <;> rfl

theorem onPath_run (operation : String) (p : Path) (act : Action α) (w : Workspace) :
    onPath operation p act w =
      match act w with
      | (.error (.system cause), w') =>
        (.error (.manifest (.ofFault (.io operation p.toText cause))), w')
      | r => r := by
  rw [onPath, tryCatch_run]
  rcases act w with ⟨e | a, w'⟩
  · cases e <;> rfl
  · rfl

theorem discard_run (x : Action α) (w : Workspace) :
    (discard x : Action Unit) w =
      match x w with
      | (.ok _, w') => (.ok (), w')
      | (.error e, w') => (.error e, w') := by
  show (x >>= fun _ => pure () : Action Unit) w = _
  rw [bind_run]
  rcases x w with ⟨_ | _, _⟩ <;> rfl

theorem requireUsable_run (p : Path) (w : Workspace) :
    requireUsable p w = (if p.hasNull then .error .nullInPath else .ok (), w) := by
  unfold requireUsable
  split <;> rfl

/-- A traversal keeps what each of its steps keeps, and stops at the first step that fails. -/
theorem forM_cases (f : α → Action Unit) (xs : List α) (kept : List α → Workspace → Prop)
    (halted : List α → α → Failure → Workspace → Prop)
    (step : ∀ done x more, xs = done ++ x :: more → ∀ w, kept done w →
      (∃ w', f x w = (.ok (), w') ∧ kept (done ++ [x]) w') ∨
        ∃ e w', f x w = (.error e, w') ∧ halted done x e w')
    {w : Workspace} (h : kept [] w) :
    (∃ w', xs.forM f w = (.ok (), w') ∧ kept xs w') ∨
      ∃ done x more e w', xs = done ++ x :: more ∧ xs.forM f w = (.error e, w') ∧
        halted done x e w' := by
  -- What is kept speaks of the elements already passed, so the induction is on those still to come,
  -- whatever stands before them.
  suffices hall : ∀ rest done, xs = done ++ rest → ∀ w, kept done w →
      (∃ w', rest.forM f w = (.ok (), w') ∧ kept xs w') ∨
        ∃ done x more e w', xs = done ++ x :: more ∧ rest.forM f w = (.error e, w') ∧
          halted done x e w' from hall xs [] rfl w h
  intro rest
  induction rest with
  | nil =>
    intro done hxs w hw
    rw [List.append_nil] at hxs
    exact Or.inl ⟨w, rfl, hxs ▸ hw⟩
  | cons x rest ih =>
    intro done hxs w hw
    have hcons : (x :: rest).forM f w = (f x >>= fun _ => rest.forM f : Action Unit) w := rfl
    rw [hcons, bind_run]
    rcases step done x rest hxs w hw with ⟨w', hx, hw'⟩ | ⟨e, w', hx, he⟩
    · rw [hx]
      exact ih (done ++ [x]) (by rw [hxs, List.append_assoc, List.singleton_append]) w' hw'
    · rw [hx]
      exact Or.inr ⟨done, x, rest, e, w', hxs, rfl, he⟩

end Action

open RegistryTree.Action

/-- Making a directory is making it on the file system, and a note of it. -/
theorem createDirectory_run (p : Path) (w : Workspace) :
    createDirectory p w =
      if p.hasNull then (.error .nullInPath, w)
      else
        match w.files.makeDirectory p Layout.directoryMode with
        | .error cause =>
          (.error (.manifest (.ofFault (.io "create directory" p.toText cause))), w)
        | .ok files =>
          (.ok p, ⟨files, w.journal ++ [.note .debug fileSource ("created directory " ++ p.toText)]⟩) := by
  rw [createDirectory, bind_run, requireUsable_run]
  cases p.hasNull with
  | true => rfl
  | false =>
    simp only [Bool.false_eq_true, if_false]
    rw [bind_run, onPath_run, change_run]
    cases w.files.makeDirectory p Layout.directoryMode <;> rfl

/-- Filling a temporary file and moving it changes the files as the move does; when it cannot be
moved, the files are as they were before it was made. -/
theorem fillAndMove_run {t : FileSystem.Temporary} {files : FileSystem} {journal : List Record}
    (content : List UInt8) (p : Path) (ht : t.place ≠ []) (hnone : files.get? t.place = none) :
    fillAndMove t content p
        ⟨files.put t.place (.file FileSystem.temporaryMode []), journal⟩ =
      match (files.put t.place (.file Layout.fileMode content)).moveTo t p with
      | .ok after => (.ok (), ⟨after, journal⟩)
      | .error cause => (.error (.system cause), ⟨files, journal⟩) := by
  rw [fillAndMove, bind_run, change_run]
  show (change _ >>= fun _ => tryCatch _ _ : Action Unit) _ = _
  rw [bind_run, change_run]
  show (tryCatch _ _ : Action Unit) _ = _
  rw [tryCatch_run, change_run]
  simp only [FileSystem.put_put]
  cases (files.put t.place (.file Layout.fileMode content)).moveTo t p with
  | ok after => rfl
  | error cause =>
    -- The clean-up takes away what was made where nothing stood, which is as if it had not been
    -- made.
    show (change _ >>= fun _ => throw _ : Action Unit) _ = _
    rw [bind_run, change_run]
    simp only [FileSystem.erase_put, FileSystem.erase_of_none ht hnone, throw_run]

/-- What replacing a file does when there is a temporary file for it. -/
theorem replaceFile_run {p : Path} {w : Workspace} {t : FileSystem.Temporary} {made : FileSystem}
    (content : List UInt8) (h : w.files.createTemporary p = .ok (t, made)) :
    replaceFile p content w =
      match (w.files.put t.place (.file Layout.fileMode content)).moveTo t p with
      | .ok after => (.ok (), { w with files := after })
      | .error cause => (.error (.system cause), w) := by
  obtain ⟨ht, hnone, rfl⟩ := FileSystem.createTemporary_ok h
  rw [replaceFile, bind_run]
  show (ofExcept Failure.system (w.files.createTemporary p) >>= fun r => _ : Action Unit) w = _
  rw [bind_run, ofExcept_run, h]
  show (setFiles _ >>= fun _ => fillAndMove t content p : Action Unit) w = _
  rw [bind_run, setFiles_run]
  show fillAndMove t content p ⟨_, w.journal⟩ = _
  rw [fillAndMove_run content p ht hnone]

theorem replaceFile_error {p : Path} {w : Workspace} {cause : SystemError} (content : List UInt8)
    (h : w.files.createTemporary p = .error cause) :
    replaceFile p content w = (.error (.system cause), w) := by
  rw [replaceFile, bind_run]
  show (ofExcept Failure.system (w.files.createTemporary p) >>= fun r => _ : Action Unit) w = _
  rw [bind_run, ofExcept_run, h]
  rfl

/-- A file is replaced as a whole, or nothing has changed. -/
theorem replaceFile_cases (p : Path) (content : List UInt8) (w : Workspace) :
    (∃ cause, replaceFile p content w = (.error (.system cause), w)) ∨
      ∃ place, w.files.slot p = .ok (some place) ∧ w.files.isDirectoryAt place = false ∧
        replaceFile p content w =
          (.ok (), { w with files := w.files.put place (.file Layout.fileMode content) }) := by
  cases hc : w.files.createTemporary p with
  | error cause => exact Or.inl ⟨cause, replaceFile_error content hc⟩
  | ok r =>
    obtain ⟨t, made⟩ := r
    obtain ⟨ht, hnone, -⟩ := FileSystem.createTemporary_ok hc
    rw [replaceFile_run content hc]
    cases hm : (w.files.put t.place (.file Layout.fileMode content)).moveTo t p with
    | error cause => exact Or.inl ⟨cause, rfl⟩
    | ok after =>
      obtain ⟨place, hs, hd, rfl⟩ := FileSystem.moveTo_ok ht hnone hm
      exact Or.inr ⟨place, hs, hd, rfl⟩

/-- A file is only replaced within the limits for files. -/
theorem replaceFile_fits {p : Path} {name : String} {content : List UInt8} {w w' : Workspace}
    (h : replaceFile (p.child name) content w = (.ok (), w')) : FileSystem.FileFits w.files p name := by
  cases hc : w.files.createTemporary (p.child name) with
  | error cause =>
    rw [replaceFile_error content hc] at h
    cases h
  | ok r =>
    obtain ⟨t, made⟩ := r
    obtain ⟨ht, hnone, -⟩ := FileSystem.createTemporary_ok hc
    obtain ⟨hshort, hlong⟩ := FileSystem.createTemporary_fits hc
    rw [replaceFile_run content hc] at h
    cases hm : (w.files.put t.place (.file Layout.fileMode content)).moveTo t (p.child name) with
    | error cause =>
      rw [hm] at h
      cases h
    | ok after =>
      obtain ⟨place, hs, -⟩ := FileSystem.moveTo_ok ht hnone hm
      obtain ⟨-, -, -, -, -, hpath⟩ := FileSystem.leadsTo_of_slot_child hs
      exact ⟨⟨hpath, hlong⟩, FileSystem.isTooLong_temporaryName.1 hshort⟩

/-- A file is replaced when it is within the limits, its path leads to one directory in either
reading, no directory stands in its place, and its temporary name is free. -/
theorem replaceFile_eq {p : Path} {place : Place} {name : String} {content : List UInt8}
    {w : Workspace} (hl : w.files.LeadsTo p place) (hdirect : w.files.Direct p place)
    (hf : FileSystem.FileFits w.files p name) (hup : name ≠ "..")
    (hd : w.files.isDirectoryAt (place ++ [name]) = false)
    (hfree : w.files.get? (place ++ [FileSystem.temporaryName name 0]) = none) :
    replaceFile (p.child name) content w =
      (.ok (), { w with
        files := w.files.put (place ++ [name]) (.file Layout.fileMode content) }) := by
  have htemporary := FileSystem.LeadsTo.slot_child_of_component hdirect (FileSystem.temporaryName_ne_up name)
    (FileSystem.isTooLong_temporaryName.2 hf.room) hf.temporary
  obtain ⟨shown, hc⟩ := FileSystem.createTemporary_eq (p := p.child name)
    (by rw [Path.parent_of_child, Path.name_of_child]; exact htemporary) hfree
  have hs := hl.slot_child_of_component hup hf.short hf.path
  rw [replaceFile_run content hc, FileSystem.moveTo_eq (by simp) hfree hs hd]

/-- A file of a directory is replaced unless something is in its way; then nothing has changed. -/
theorem replaceFile_child {p : Path} {place : Place} {name : String} {content : List UInt8}
    {w : Workspace} (hl : w.files.LeadsTo p place) (hdirect : w.files.Direct p place)
    (hup : name ≠ "..") (hfree : w.files.get? (place ++ [FileSystem.temporaryName name 0]) = none) :
    replaceFile (p.child name) content w =
      match w.files.refusal p name (w.files.isDirectoryAt (place ++ [name])) with
      | some cause => (.error (.system cause), w)
      | none => (.ok (), { w with
          files := w.files.put (place ++ [name]) (.file Layout.fileMode content) }) := by
  have hmade := FileSystem.createTemporary_child hdirect hfree
  dsimp only at hmade
  rw [FileSystem.refusal]
  -- A name is too long for its temporary file before it is too long for the file itself, so that
  -- refusal comes first.
  split at hmade
  next htemporary =>
    rw [replaceFile_error content hmade, if_pos htemporary]
  next htemporary =>
    rw [replaceFile_run content hmade, FileSystem.moveTo_child hl hup (by simp) hfree,
      if_neg htemporary]
    cases FileSystem.isOverlong (p.child name) || FileSystem.isTooLong name with
    | true => rfl
    | false => cases w.files.isDirectoryAt (place ++ [name]) <;> rfl

/-- Writes a value as the document in a file that is replaced in a given way. -/
def writeThrough (replace : List UInt8 → Action Unit) (v : Value) (p : Path) : Action Path := do
  let text ← ofExcept id (renderDocument v)
  requireUsable p
  onPath "write file" p (replace (Text.encodeUtf8 text))
  note .debug fileSource ("wrote " ++ p.toText)
  return p

theorem writeDocument_eq_writeThrough (v : Value) (p : Path) :
    writeDocument v p = writeThrough (replaceFile p) v p := rfl

/-- Writing a document is replacing a file by the text of the value, and a note of it. -/
theorem writeThrough_run (replace : List UInt8 → Action Unit) (v : Value) (p : Path) (w : Workspace) :
    writeThrough replace v p w =
      match renderDocument v with
      | .error e => (.error e, w)
      | .ok text =>
        if p.hasNull then (.error .nullInPath, w)
        else
          match onPath "write file" p (replace (Text.encodeUtf8 text)) w with
          | (.error e, w') => (.error e, w')
          | (.ok (), w') =>
            (.ok p, { w' with
              journal := w'.journal ++ [.note .debug fileSource ("wrote " ++ p.toText)] }) := by
  rw [writeThrough, bind_run, ofExcept_run]
  cases renderDocument v with
  | error e => rfl
  | ok text =>
    show (requireUsable p >>= fun _ => _ : Action Path) w = _
    rw [bind_run, requireUsable_run]
    cases p.hasNull with
    | true => rfl
    | false =>
      simp only [Bool.false_eq_true, if_false]
      rw [bind_run]
      rcases onPath "write file" p (replace (Text.encodeUtf8 text)) w with ⟨_ | _, _⟩ <;> rfl

section

variable {replace : List UInt8 → Action Unit} {v : Value} {p : Path} {text : List Char}
  {w w' : Workspace}

theorem renderDocument_of_render (h : Yaml.render v = .ok text) : renderDocument v = .ok text := by
  rw [renderDocument, h]
  rfl

/-- A document is written when its file is replaced by the text of the value. -/
theorem writeThrough_of_ok (hrendered : renderDocument v = .ok text) (hnull : p.hasNull = false)
    (h : replace (Text.encodeUtf8 text) w = (.ok (), w')) :
    writeThrough replace v p w = (.ok p, { w' with
      journal := w'.journal ++ [.note .debug fileSource ("wrote " ++ p.toText)] }) := by
  rw [writeThrough_run, hrendered, hnull]
  simp only [Bool.false_eq_true, if_false]
  rw [onPath_run, h]

/-- When its file cannot be replaced, the error names the path. -/
theorem writeThrough_of_error {cause : SystemError} (hrendered : renderDocument v = .ok text)
    (hnull : p.hasNull = false)
    (h : replace (Text.encodeUtf8 text) w = (.error (.system cause), w')) :
    writeThrough replace v p w =
      (.error (.manifest (.ofFault (.io "write file" p.toText cause))), w') := by
  rw [writeThrough_run, hrendered, hnull]
  simp only [Bool.false_eq_true, if_false]
  rw [onPath_run, h]

end

theorem writeDocument_run (v : Value) (p : Path) (w : Workspace) :
    writeDocument v p w =
      match renderDocument v with
      | .error e => (.error e, w)
      | .ok text =>
        if p.hasNull then (.error .nullInPath, w)
        else
          match onPath "write file" p (replaceFile p (Text.encodeUtf8 text)) w with
          | (.error e, w') => (.error e, w')
          | (.ok (), w') =>
            (.ok p, { w' with
              journal := w'.journal ++ [.note .debug fileSource ("wrote " ++ p.toText)] }) :=
  writeThrough_run (replaceFile p) v p w

/-- The file that a value is written to. -/
def documentOf (v : Value) : Entry :=
  .file Layout.fileMode (Text.encodeUtf8 ((Yaml.render v).toOption.getD []))

theorem documentOf_rendered {v : Value} {text : List Char} (h : renderDocument v = .ok text) :
    documentOf v = .file Layout.fileMode (Text.encodeUtf8 text) := by
  rw [documentOf]
  rw [renderDocument] at h
  cases hr : Yaml.render v with
  | error fault =>
    rw [hr] at h
    cases h
  | ok text' =>
    rw [hr] at h
    cases h
    rfl

/-- The ways in which writing a document can fail. -/
inductive WriteFailure (v : Value) (p : Path) : Failure → Prop
  | unwritable : Yaml.render v = .error .unwritable →
      WriteFailure v p (.ofWriteFault v.typeName .unwritable)
  | wideInteger : Yaml.render v = .error .wideInteger → WriteFailure v p .wideInteger
  | null : p.hasNull = true → WriteFailure v p .nullInPath
  | io (cause : SystemError) :
      WriteFailure v p (.manifest (.ofFault (.io "write file" p.toText cause)))

/-- A document is written whole to the entry that its path stands for, or no file has changed. -/
theorem writeDocument_cases (v : Value) (p : Path) (w : Workspace) :
    (∃ e, WriteFailure v p e ∧ writeDocument v p w = (.error e, w)) ∨
      ∃ text place, Yaml.render v = .ok text ∧ p.hasNull = false ∧
        w.files.slot p = .ok (some place) ∧ w.files.isDirectoryAt place = false ∧
        writeDocument v p w =
          (.ok p, ⟨w.files.put place (documentOf v),
            w.journal ++ [.note .debug fileSource ("wrote " ++ p.toText)]⟩) := by
  cases hr : Yaml.render v with
  | error fault =>
    -- a document that has no text is not written at all
    rw [writeDocument_run, renderDocument, hr]
    left
    cases fault with
    | unwritable => exact ⟨_, .unwritable hr, rfl⟩
    | wideInteger => exact ⟨_, .wideInteger hr, rfl⟩
  | ok text =>
    have hrendered := renderDocument_of_render hr
    cases hn : p.hasNull with
    | true =>
      rw [writeDocument_run, hrendered, hn]
      exact Or.inl ⟨_, .null hn, rfl⟩
    | false =>
      rw [writeDocument_eq_writeThrough, documentOf_rendered hrendered]
      rcases replaceFile_cases p (Text.encodeUtf8 text) w with ⟨cause, he⟩ | ⟨place, hs, hd, ho⟩
      · exact Or.inl ⟨_, .io cause, writeThrough_of_error hrendered hn he⟩
      · exact Or.inr ⟨text, place, rfl, rfl, hs, hd, writeThrough_of_ok hrendered hn ho⟩

theorem writeDocument_fits {v : Value} {p q : Path} {name : String} {w w' : Workspace}
    (h : writeDocument v (p.child name) w = (.ok q, w')) : FileSystem.FileFits w.files p name := by
  rw [writeDocument_run] at h
  cases hr : renderDocument v with
  | error e =>
    rw [hr] at h
    cases h
  | ok text =>
    rw [hr] at h
    simp only at h
    split at h
    next => cases h
    next =>
      rw [onPath_run] at h
      cases hrun : replaceFile (p.child name) (Text.encodeUtf8 text) w with
      | mk result w'' =>
        cases result with
        | ok u => exact replaceFile_fits hrun
        | error e =>
          rw [hrun] at h
          cases e <;> cases h

/-- A document is written when it has a text and its file can be replaced. -/
theorem writeDocument_eq {v : Value} {p : Path} {place : Place} {name : String} {text : List Char}
    {w : Workspace} (hr : Yaml.render v = .ok text) (hnull : (p.child name).hasNull = false)
    (hl : w.files.LeadsTo p place) (hdirect : w.files.Direct p place)
    (hf : FileSystem.FileFits w.files p name) (hup : name ≠ "..")
    (hd : w.files.isDirectoryAt (place ++ [name]) = false)
    (hfree : w.files.get? (place ++ [FileSystem.temporaryName name 0]) = none) :
    ∃ journal, writeDocument v (p.child name) w =
      (.ok (p.child name), ⟨w.files.put (place ++ [name]) (documentOf v), journal⟩) := by
  have hrendered := renderDocument_of_render hr
  rw [documentOf_rendered hrendered]
  exact ⟨_, writeThrough_of_ok hrendered hnull (replaceFile_eq hl hdirect hf hup hd hfree)⟩

end RegistryTree
