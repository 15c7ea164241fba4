import Mathlib.Logic.Function.Basic
import RegistryTree.Proofs.Manifest.Neighbours

/-!
# Two manifests in turns

Calls on two manifests of one registry follow each other in any order. A joint run takes them as they
come; `answers` and `performAll` are what the calls of one manifest come to and leave when there is
no other. Where the two packages are apart, each call of a joint run comes to what it comes to alone,
and so the order between the two manifests does not matter.

`Joined` relates a joint run to the two runs alone. One call keeps it, and so does a whole run.

> `Joined.run`: in a joint run each manifest has the answers that it has alone.
> `calls_interleave`: every order of calls on two manifests comes to the same.
-/

namespace RegistryTree.Manifest

open FileSystem

/-- What calls come to, one after the other. -/
def answers : List Call → Manifest → Workspace → List (Except Failure Unit)
  | [], _, _ => []
  | call :: calls, m, w =>
    call.answer m w :: answers calls (call.perform m w).1 (call.perform m w).2

/-- What is of one side in a list of both. -/
def ofSide {α : Type} (s : Side) (xs : List (Side × α)) : List α :=
  xs.filterMap fun x => if x.1 = s then some x.2 else none

/-- All that is of one side, and then all that is of the other. -/
def inTurn {α : Type} (leader : Side) (xs : List (Side × α)) : List (Side × α) :=
  (ofSide leader xs).map (leader, ·) ++ (ofSide leader.other xs).map (leader.other, ·)

/-- Two manifests and the workspace that they share. -/
structure Joint where
  manifests : Side → Manifest
  workspace : Workspace

/-- The manifests and the workspace behind a call on one manifest. -/
def Joint.perform (j : Joint) (s : Side) (call : Call) : Joint :=
  ⟨Function.update j.manifests s (call.perform (j.manifests s) j.workspace).1,
    (call.perform (j.manifests s) j.workspace).2⟩

/-- What calls on two manifests come to, one after the other, and what they leave. -/
def Joint.run : List (Side × Call) → Joint → List (Side × Except Failure Unit) × Joint
  | [], j => ([], j)
  | (s, call) :: calls, j =>
    let (rest, left) := run calls (j.perform s call)
    ((s, call.answer (j.manifests s) j.workspace) :: rest, left)

/-- Two manifests that were never written, on a workspace. -/
def Joint.new (packages : Side → Package) (registry : Path) (w : Workspace) : Joint :=
  ⟨fun s => .new (packages s) registry, w⟩

/-! ## Sides of a list -/

variable {α : Type}

theorem ofSide_cons_self (s : Side) (x : α) (xs : List (Side × α)) :
    ofSide s ((s, x) :: xs) = x :: ofSide s xs := by
  simp [ofSide]

theorem ofSide_cons_of_ne {s t : Side} (h : t ≠ s) (x : α) (xs : List (Side × α)) :
    ofSide s ((t, x) :: xs) = ofSide s xs := by
  simp [ofSide, h]

theorem ofSide_map_self (s : Side) (xs : List α) : ofSide s (xs.map (s, ·)) = xs := by
  induction xs with
  | nil => rfl
  | cons x rest ih => rw [List.map_cons, ofSide_cons_self, ih]

theorem ofSide_map_of_ne {s t : Side} (h : t ≠ s) (xs : List α) :
    ofSide s (xs.map (t, ·)) = [] := by
  induction xs with
  | nil => rfl
  | cons x rest ih => rw [List.map_cons, ofSide_cons_of_ne h, ih]

/-- Taking turns changes nothing for either side. -/
theorem ofSide_inTurn (s leader : Side) (xs : List (Side × α)) :
    ofSide s (inTurn leader xs) = ofSide s xs := by
  have happend : ∀ ys zs : List (Side × α), ofSide s (ys ++ zs) = ofSide s ys ++ ofSide s zs :=
    fun ys zs => List.filterMap_append
  rw [inTurn, happend]
  by_cases hs : s = leader
  · subst hs
    rw [ofSide_map_self, ofSide_map_of_ne (by cases s <;> exact nofun), List.append_nil]
  · have hother := Side.eq_other_of_ne hs
    subst hother
    rw [ofSide_map_self, ofSide_map_of_ne (Ne.symm hs), List.nil_append]

/-! ## A joint run beside two runs alone -/

variable {base : FileSystem} {registry : Path} {packages : Side → Package}

/-- What holds of one manifest between two calls of a joint run: it is what it is alone, and the files
are what it leaves alone, but for the directory of the other package. -/
structure Beside (base : FileSystem) (registry : Path) (packages : Side → Package) (s : Side)
    (m : Manifest) (files : FileSystem) (solo : Manifest × Workspace) : Prop where
  manifest : m = solo.1
  remembers : Remembers (packages s) registry solo.1
  alone : Alone base registry (packages s).id solo.2.files
  alongside : Alongside (Elsewhere base registry (packages s.other).id) solo.2.files files

/-- What holds between two calls of a joint run, of both manifests. -/
def Joined (base : FileSystem) (registry : Path) (packages : Side → Package) (j : Joint)
    (solo : Side → Manifest × Workspace) : Prop :=
  ∀ s, Beside base registry packages s (j.manifests s) j.workspace.files (solo s)

namespace Joined

variable {j : Joint} {solo : Side → Manifest × Workspace}

/-- A call of a joint run comes to what it comes to alone, and the other manifest does not notice. -/
theorem perform (h : Joined base registry packages j solo)
    (ha : Apart base registry fun s => (packages s).id) (s : Side) (call : Call) :
    call.answer (j.manifests s) j.workspace = call.answer (solo s).1 (solo s).2 ∧
      Joined base registry packages (j.perform s call)
        (Function.update solo s (call.perform (solo s).1 (solo s).2)) := by
  have hs := h s
  obtain ⟨hanswer, hmanifest, hleft⟩ :=
    ha.call hs.alone call rfl hs.remembers hs.alongside
  rw [hs.manifest]
  refine ⟨hanswer, fun t => ?_⟩
  unfold Joint.perform
  rw [hs.manifest]
  by_cases ht : t = s
  · subst ht
    simp only [Function.update_self]
    refine ⟨hmanifest, ?_, ?_, hleft⟩
    · cases call with
      | create => exact (hs.remembers.create _).1
      | delete => exact hs.remembers
    · exact ha.perform hs.alone call rfl hs.remembers
  -- the call was on the other manifest and changed nothing but the directory of its package
  · have hother := Side.eq_other_of_ne ht
    subst hother
    have ht' := h s.other
    have hbeside := ht'.alongside
    have hbetween : Between base registry (fun s => (packages s).id) j.workspace.files :=
      hs.alone.between_right hs.alongside
    have hframe := hbetween.call_sameOn ha call rfl (s := s) rfl hs.remembers
    simp only [Function.update_of_ne ht]
    refine ⟨ht'.manifest, ht'.remembers, ht'.alone, ?_⟩
    rw [Side.other_other] at hbeside ⊢
    exact ⟨hbeside.toSameOn.trans hframe, hbeside.left, hleft.right⟩

/-- In a joint run each manifest has the answers that it has alone, and the files are afterwards what
it leaves alone, but for the directory of the other package. -/
theorem run (ha : Apart base registry fun s => (packages s).id) (calls : List (Side × Call)) :
    ∀ {j : Joint} {solo : Side → Manifest × Workspace}, Joined base registry packages j solo →
      (∀ s, ofSide s (j.run calls).1 = answers (ofSide s calls) (solo s).1 (solo s).2) ∧
        Joined base registry packages (j.run calls).2
          fun s => performAll (ofSide s calls) (solo s).1 (solo s).2 := by
  induction calls with
  | nil => exact fun h => ⟨fun s => rfl, h⟩
  | cons first rest ih =>
    intro j solo h
    obtain ⟨t, call⟩ := first
    obtain ⟨hanswer, hnext⟩ := h.perform ha t call
    obtain ⟨hanswers, hleft⟩ := ih hnext
    have hrun : j.run ((t, call) :: rest) =
        ((t, call.answer (j.manifests t) j.workspace) :: ((j.perform t call).run rest).1,
          ((j.perform t call).run rest).2) := rfl
    rw [hrun, hanswer]
    refine ⟨fun s => ?_, ?_⟩
    · by_cases hs : t = s
      · subst hs
        rw [ofSide_cons_self, ofSide_cons_self, answers, hanswers, Function.update_self]
      · rw [ofSide_cons_of_ne hs, ofSide_cons_of_ne hs, hanswers,
          Function.update_of_ne (Ne.symm hs)]
    · have hsolo : (fun s => performAll (ofSide s ((t, call) :: rest)) (solo s).1 (solo s).2) =
          fun s => performAll (ofSide s rest)
            (Function.update solo t (call.perform (solo t).1 (solo t).2) s).1
            (Function.update solo t (call.perform (solo t).1 (solo t).2) s).2 := by
        funext s
        by_cases hs : t = s
        · subst hs
          rw [ofSide_cons_self, performAll, Function.update_self]
        · rw [ofSide_cons_of_ne hs, Function.update_of_ne (Ne.symm hs)]
      rw [hsolo]
      exact hleft

/-- Two joint runs beside the same runs alone have left the same. -/
theorem same_files (h : Joined base registry packages j solo) {j' : Joint}
    (h' : Joined base registry packages j' solo)
    (ha : Apart base registry fun s => (packages s).id) :
    SameFiles j.workspace.files j'.workspace.files := by
  refine SameFiles.of_get? (h .first).alongside.right (h' .first).alongside.right ?_ fun q => ?_
  · exact (h' .first).alongside.current.trans (h .first).alongside.current.symm
  · obtain ⟨s, hs⟩ := ha.elsewhere_or q
    have hsame := (h s.other).alongside
    have hsame' := (h' s.other).alongside
    rw [Side.other_other] at hsame hsame'
    exact (hsame'.same q hs).trans (hsame.same q hs).symm

end Joined

theorem joined_new {w : Workspace} (packages : Side → Package) (registry : Path)
    (ht : w.files.IsRegular) :
    Joined w.files registry packages (.new packages registry w)
      fun s => (.new (packages s) registry, w) :=
  fun s => ⟨rfl, remembers_new (packages s) registry, ⟨ht, SameOn.refl _ _, Or.inl rfl⟩,
    ⟨SameOn.refl _ _, ht, ht⟩⟩

/-- Two packages that are apart do not interfere: whatever is done with their manifests, in whatever
order, each call comes to what it comes to when all calls on one manifest go before all calls on the
other, whichever goes first, and the same is left. -/
theorem calls_interleave {w : Workspace} (packages : Side → Package) (registry : Path)
    (ht : w.files.IsRegular) (ha : Apart w.files registry fun s => (packages s).id)
    (calls : List (Side × Call)) (leader : Side) :
    let start := Joint.new packages registry w
    (∀ s, ofSide s (start.run calls).1 = ofSide s (start.run (inTurn leader calls)).1) ∧
      SameFiles (start.run calls).2.workspace.files
        (start.run (inTurn leader calls)).2.workspace.files := by
  intro start
  have hstart := joined_new packages registry ht
  obtain ⟨hanswers, hleft⟩ := hstart.run ha calls
  obtain ⟨hanswers', hleft'⟩ := hstart.run ha (inTurn leader calls)
  simp only [ofSide_inTurn] at hanswers' hleft'
  exact ⟨fun s => (hanswers s).trans (hanswers' s).symm, hleft.same_files hleft' ha⟩

/-- A package that can be written whole, and one that cannot because its release has no version. -/
def unevenPair : Side → Package
  | .first => barePackage "a" [bareRelease "a.v1" (some "1.0")]
  | .second => barePackage "b" [bareRelease "b.v1" none]

/-- Calls that fail are among them: writing over what is there, and writing in part. -/
theorem calls_interleave_uneven :
    emptyRegistry.IsRegular ∧ Apart emptyRegistry (.ofText "reg") (fun s => (unevenPair s).id) ∧
      let start := Joint.new unevenPair (.ofText "reg") ⟨emptyRegistry, []⟩
      let calls := [(Side.second, Call.create), (.first, .create), (.second, .create),
        (.second, .delete), (.first, .create), (.first, .delete), (.second, .create)]
      (∀ s, ofSide s (start.run calls).1 = ofSide s (start.run (inTurn .first calls)).1) ∧
        SameFiles (start.run calls).2.workspace.files
          (start.run (inTurn .first calls)).2.workspace.files := by
  have ht := isTree_emptyRegistry
  have hreg : emptyRegistry.LeadsTo (.ofText "reg") ["reg"] := ⟨by decide +kernel, by decide⟩
  have hall : ∀ q ∈ emptyRegistry.passes (.ofText "reg"), q.length ≤ 1 := by decide +kernel
  have hapart : Apart emptyRegistry (.ofText "reg") (fun s => (unevenPair s).id) := by
    refine Apart.of_no_link ht (by decide) (by decide +kernel)
      (fun s q hq => elsewhere_of_length hreg (hall q hq)) fun s directory target hl => ?_
    rw [hl.unique hreg]
    cases s <;> exact nofun
  exact ⟨ht.toIsRegular, hapart,
    calls_interleave unevenPair (.ofText "reg") ht.toIsRegular hapart _ .first⟩

/-! ## Packages that interfere -/

/-- Two packages with nothing in them. -/
def emptyPair : Side → Package
  | .first => barePackage "a" []
  | .second => barePackage "b" []

/-- A registry where a link to the place of one package stands in the place of the other. -/
def linkToNeighbour : FileSystem := ⟨[(["reg"], .directory 0o755), (["reg", "a"], .link "b")], []⟩

/-- A tree where the path `l/../r` leads to a directory, and to another one when its points are taken
at their word; and there a link stands in the place of one package, to that of the other. -/
def turnedRegistry : FileSystem :=
  ⟨[(["q"], .directory 0o755), (["q", "w"], .directory 0o755), (["q", "r"], .directory 0o755),
    (["l"], .link "q/w"), (["r"], .directory 0o755), (["r", "a"], .link "../q/r/b")], []⟩

/-- It is not enough that the path of the registry passes neither package. A link in the place of a
package is refused when it leads somewhere and passed over when it leads nowhere; and a temporary
file may be made, by the other reading of the path, in the directory of the other package. -/
theorem calls_interfere :
    (linkToNeighbour.IsRegular ∧ (emptyPair .first).id ≠ (emptyPair .second).id ∧
      (∀ s, ∀ q ∈ linkToNeighbour.passes (.ofText "reg"),
        Elsewhere linkToNeighbour (.ofText "reg") (emptyPair s).id q) ∧
      let start := Joint.new emptyPair (.ofText "reg") ⟨linkToNeighbour, []⟩
      let calls := [(Side.first, Call.create), (.second, .create), (.first, .delete)]
      ofSide .first (start.run calls).1 ≠ ofSide .first (start.run (inTurn .first calls)).1) ∧
    (turnedRegistry.IsRegular ∧
      (∀ s, ∀ q ∈ turnedRegistry.passes (.ofText "l/../r"),
        Elsewhere turnedRegistry (.ofText "l/../r") (emptyPair s).id q) ∧
      let start := Joint.new emptyPair (.ofText "l/../r") ⟨turnedRegistry, []⟩
      let calls := [(Side.second, Call.create), (.first, .create)]
      ofSide .first (start.run calls).1 ≠ ofSide .first (start.run (inTurn .first calls)).1) := by
  refine ⟨⟨⟨by decide, by decide, by decide, by decide, by decide⟩, by decide, ?_, by decide +kernel⟩,
    ⟨by decide, by decide, by decide, by decide, by decide⟩, ?_, by decide +kernel⟩
  · have hl : linkToNeighbour.LeadsTo (.ofText "reg") ["reg"] := ⟨by decide +kernel, by decide⟩
    have hall : ∀ q ∈ linkToNeighbour.passes (.ofText "reg"), q.length ≤ 1 := by decide +kernel
    exact fun s q hq => elsewhere_of_length hl (hall q hq)
  · have hl : turnedRegistry.LeadsTo (.ofText "l/../r") ["q", "r"] :=
      ⟨by decide +kernel, by decide⟩
    have hall : ∀ q ∈ turnedRegistry.passes (.ofText "l/../r"), q.length ≤ 2 := by decide +kernel
    exact fun s q hq => elsewhere_of_length hl (hall q hq)

end RegistryTree.Manifest
