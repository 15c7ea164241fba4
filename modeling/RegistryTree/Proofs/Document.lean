import RegistryTree.Proofs.Workspace
import RegistryTree.Proofs.Yaml.RoundTrip

/-!
# Documents in files

A value that was written to a file is read from the file again, through whatever path leads there.
The path that it was written to does, unless a link stood in its place that the path itself leads
through.

> `read_written`: what is read of a document that was written.
-/

namespace RegistryTree

open FileSystem

/-- No name in a path leads nowhere. -/
theorem Path.ne_dot_of_mem_ofText {text name : String} (h : name ∈ (Path.ofText text).parts) :
    name ≠ "." := by
  rintro rfl
  obtain ⟨piece, hpiece, heq⟩ := List.mem_map.1 h
  have hleads := (List.mem_filter.1 hpiece).2
  have hdot : piece = ['.'] := by
    have := congrArg String.toList heq
    simpa using this
  rw [hdot] at hleads
  exact absurd hleads (by decide)

/-- A path that ends in an entry has a last name. -/
theorem exists_child_of_slot {files : FileSystem} {p : Path} {place : Place}
    (h : files.slot p = .ok (some place)) : ∃ (parent : Path) (name : String), p = parent.child name := by
  obtain ⟨start, parts⟩ := p
  rcases List.eq_nil_or_concat parts with rfl | ⟨front, name, rfl⟩
  · rw [slot] at h
    split at h <;> cases h
  · exact ⟨⟨start, front⟩, name, by rw [Path.child, List.concat_eq_append]⟩

/-- A path leads to the file that was put at its end, unless a link stood there. -/
theorem follow_put {files : FileSystem} {p : Path} {place : Place} {mode : Nat} {content : List UInt8}
    (hslot : files.slot p = .ok (some place)) (hdirectory : files.isDirectoryAt place = false)
    (hdots : ∀ name ∈ p.parts, name ≠ ".") (hlink : ∀ target, files.get? place ≠ some (.link target)) :
    (files.put place (.file mode content)).follow p = .ok place := by
  obtain ⟨parent, name, rfl⟩ := exists_child_of_slot hslot
  obtain ⟨directory, hleads, rfl, hup, hshort, hlong⟩ := leadsTo_of_slot_child hslot
  have hplace : directory ++ [name] ≠ [] := by simp
  have hkeeps : Keeps files (files.put (directory ++ [name]) (.file mode content)) :=
    keeps_put hplace hdirectory hlink
  have hput : (files.put (directory ++ [name]) (.file mode content)).get? (directory ++ [name]) =
      some (.file mode content) := by
    rw [get?_put _ _ _ hplace, if_pos rfl]
  exact (hleads.of_keeps hkeeps).follow_child hput (fun target heq => by cases heq)
    (hdots name (by simp [Path.child])) hup hshort hlong

/-- What is read of a file through a path that leads to it. -/
theorem readDocument_of_follow {files : FileSystem} {p : Path} {place : Place} {mode : Nat}
    {content : List UInt8} (husable : p.hasNull = false) (hfollow : files.follow p = .ok place)
    (hfile : files.get? place = some (.file mode content)) :
    readDocument files p = (Yaml.readOctets content).mapError .yaml := by
  have hread : readContent files p = .ok content := by
    have hfile' : readFile files p = .ok content := by
      rw [readFile, find, hfollow]
      refine bind_eq_ok_iff.2 ⟨place, rfl, ?_⟩
      rw [hfile]
    rw [readContent, husable, if_neg (by simp), hfile']
    rfl
  rw [readDocument, hread]
  rfl

/-- An ordinary value is read as it was written when its texts come back: it has a text, and when
that has been stored in a file, a value of the same type and content is read through every path that
leads to the file. -/
theorem read_written {v : Value} (h : v.Ordinary) (hnarrow : v.narrow = true)
    (hfaithful : Yaml.faithfulValue v = true) :
    (∃ text, Yaml.render v = .ok text) ∧
      ∀ (path : String) (w w' : Workspace) (q : Path),
        writeDocument v (.ofText path) w = (.ok q, w') →
        ∃ place, w.files.slot (.ofText path) = .ok (some place) ∧
          ((∀ target, w.files.get? place ≠ some (.link target)) →
            w'.files.follow (.ofText path) = .ok place) ∧
          ∀ p : Path, p.hasNull = false → w'.files.follow p = .ok place →
            ∃ v', readDocument w'.files p = .ok v' ∧ v.agrees v' = true := by
  obtain ⟨text, htext, v', hread, hagrees⟩ := Yaml.readOctets_render h hnarrow hfaithful
  refine ⟨⟨text, htext⟩, fun path w w' q hwrite => ?_⟩
  -- A write that succeeds has put the document of the value at the place that the path leads to.
  rcases writeDocument_cases v (.ofText path) w with
    ⟨e, -, he⟩ | ⟨text', place, htext', -, hslot, hdirectory, hwritten⟩
  · rw [he] at hwrite
    cases hwrite
  · rw [hwritten] at hwrite
    obtain rfl : (⟨w.files.put place (documentOf v), _⟩ : Workspace) = w' := congrArg Prod.snd hwrite
    have hdocument : documentOf v = .file Layout.fileMode (Text.encodeUtf8 text) := by
      rw [documentOf, htext]
      rfl
    obtain ⟨parent, name, hparent⟩ := exists_child_of_slot hslot
    have hplace : place ≠ [] := by
      rw [hparent] at hslot
      obtain ⟨directory, -, rfl, -⟩ := leadsTo_of_slot_child hslot
      simp
    rw [hdocument]
    refine ⟨place, hslot, follow_put hslot hdirectory fun name hname => Path.ne_dot_of_mem_ofText hname,
      fun p husable hfollow => ⟨v', ?_, hagrees⟩⟩
    -- Whatever path leads to the place reads the file that now stands there, and the text in it is
    -- the text that was read back above.
    have hfile : (w.files.put place (.file Layout.fileMode (Text.encodeUtf8 text))).get? place =
        some (.file Layout.fileMode (Text.encodeUtf8 text)) := by
      rw [get?_put _ _ _ hplace, if_pos rfl]
    rw [readDocument_of_follow husable hfollow hfile, hread]
    rfl

/-- A mapping of texts that look like something else, of numbers and of collections. -/
def sampleDocument : Value :=
  .mapping none [
    (.text "enabled", .bool true),
    (.text "replicas", .int (-3)),
    (.text "yes", .text "no: \t\u2028é"),
    (.text "items", .list none [.null, .list none [], .text "0x10", .mapping none []]),
    (.text "", .text "first\n\n second ")]

/-- It is read from the file that it was written to. -/
theorem read_written_sample : ∃ v',
    readDocument (writeDocument sampleDocument (.ofText "sample.yaml") ⟨⟨[], []⟩, []⟩).2.files
      (.ofText "sample.yaml") = .ok v' ∧ sampleDocument.agrees v' = true := by
  have hordinary : sampleDocument.Ordinary := by
    refine .mapping none (by simp) (by simp) ?_
    simp only [List.forall_mem_cons, List.not_mem_nil, false_implies, implies_true, and_true]
    refine ⟨.bool _, .int _, .text _, .list none ?_, .text _⟩
    simp only [List.forall_mem_cons, List.not_mem_nil, false_implies, implies_true, and_true]
    exact ⟨.null, .list none (by simp), .text _, .mapping none (by simp) (by simp) (by simp)⟩
  obtain ⟨-, hread⟩ := read_written hordinary (by decide +kernel) (by decide +kernel)
  obtain ⟨q, hq⟩ : ∃ q,
      (writeDocument sampleDocument (.ofText "sample.yaml") ⟨⟨[], []⟩, []⟩).1 = .ok q := by
    have hok : (writeDocument sampleDocument (.ofText "sample.yaml") ⟨⟨[], []⟩, []⟩).1.isOk = true := by
      decide +kernel
    cases hrun : (writeDocument sampleDocument (.ofText "sample.yaml") ⟨⟨[], []⟩, []⟩).1 with
    | ok q => exact ⟨q, rfl⟩
    | error e => rw [hrun] at hok; cases hok
  obtain ⟨place, hslot, hfollow, hback⟩ := hread "sample.yaml" ⟨⟨[], []⟩, []⟩ _ q (Prod.ext hq rfl)
  refine hback _ (by decide) (hfollow fun target => ?_)
  rw [get?]
  split <;> simp

/-- Between apostrophes the control character that ends a line is not escaped, and it is read as a
space. -/
example : ((Yaml.render (.text "a\u0085b")).toOption.bind fun text =>
    (Yaml.readOctets (Text.encodeUtf8 text)).toOption).any (Value.text "a b").agrees = true := by
  decide +kernel

end RegistryTree
