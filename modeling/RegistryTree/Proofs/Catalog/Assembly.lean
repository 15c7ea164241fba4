import RegistryTree.Proofs.Catalog.Walk
import RegistryTree.Proofs.Except

/-!
# How packages are made of a catalog

The names of the releases of a package are gathered channel by channel. `Gathered` says of some
channels what the names are like that have been met: all that the heads of these channels lead to,
and nothing else. It holds before the first channel, one more channel keeps it, and a channel whose
head is unknown stops the work.

A catalog is worked off descriptor by descriptor in the same way. Each package is made of a
descriptor of its own, and the first that cannot be made a package of stops the work.

> `reachable_cases`: either the names are gathered or an unknown head is told.
> `assemble_eq_ok_iff`: what a package is made of.
> `packages_cases`: when nothing is wrong with the descriptors themselves, only an unknown head can
> stop the work.
-/

namespace RegistryTree.Catalog

/-! ## Releases with names of their own -/

theorem nodup_of_requireDistinct {place : String} {seen : List String} {releases : List Release}
    (h : requireDistinct place seen releases = .ok ()) :
    (releases.map (·.name)).Nodup ∧ ∀ r ∈ releases, r.name ∉ seen := by
  induction releases generalizing seen with
  | nil => simp
  | cons r rest ih =>
    rw [requireDistinct] at h
    split at h
    next => cases h
    next hnew =>
      -- No name of the rest has been seen, and the name of the first has by now.
      obtain ⟨hnodup, hseen⟩ := ih h
      refine ⟨?_, List.forall_mem_cons.2 ⟨hnew, fun r' hr' hin => ?_⟩⟩
      · rw [List.map_cons, List.nodup_cons]
        refine ⟨fun hin => ?_, hnodup⟩
        obtain ⟨r', hr', hname⟩ := List.mem_map.1 hin
        exact hseen r' hr' (hname ▸ List.mem_cons_self)
      · exact hseen r' hr' (List.mem_cons_of_mem _ hin)

/-- No two releases of a catalog have one name. -/
theorem nodup_of_ofValue {place : String} {data : Value} {c : Catalog}
    (h : ofValue place data = .ok c) : (c.releases.map (·.name)).Nodup := by
  unfold ofValue at h
  split at h
  next =>
    simp only [bind_eq_ok_iff] at h
    obtain ⟨_, _, _, _, _, _, releases, _, definitions, _, _, hdistinct, heq⟩ := h
    cases heq
    exact (nodup_of_requireDistinct hdistinct).1
  next => cases h

/-! ## The channels of a package -/

/-- Whether the head of some channel leads to a name. -/
def Reached (releases : List Release) (channels : List (String × Option String))
    (name : String) : Prop :=
  ∃ channel head, (channel, some head) ∈ channels ∧
    Relation.ReflTransGen (Replaces releases) head name

/-- The names that have been met for some channels: what their heads lead to. -/
structure Gathered (releases : List Release) (channels : List (String × Option String))
    (names : List String) : Prop where
  followed : Followed releases names none
  heads : ∀ channel head, (channel, some head) ∈ channels → head ∈ names
  origin : ∀ name ∈ names, Reached releases channels name

section

variable {releases : List Release} {package channel head : String}
  {channels done : List (String × Option String)} {found names : List String}

theorem gathered_nil : Gathered releases [] [] := by
  refine ⟨⟨?_, ?_⟩, ?_, ?_⟩
  all_goals simp

/-- What is reached is among the names that have been gathered. -/
theorem Gathered.mem_iff (h : Gathered releases channels names) {name : String} :
    name ∈ names ↔ Reached releases channels name := by
  refine ⟨h.origin name, fun hreached => ?_⟩
  obtain ⟨channel, head, hmem, hleads⟩ := hreached
  induction hleads with
  | refl => exact h.heads channel head hmem
  | tail _ hstep ih =>
    rcases h.followed.closed _ ih _ hstep with hin | hnone
    · exact hin
    · cases hnone

/-- A channel without a head adds nothing. -/
theorem Gathered.headless (h : Gathered releases done found) (channel : String) :
    Gathered releases (done ++ [(channel, none)]) found := by
  refine ⟨h.followed, fun channel' head' hmem => ?_, fun name hname => ?_⟩
  · rcases List.mem_append.1 hmem with hold | hlast
    · exact h.heads channel' head' hold
    · cases List.mem_singleton.1 hlast
  · obtain ⟨channel', head', hmem, hleads⟩ := h.origin name hname
    exact ⟨channel', head', List.mem_append_left _ hmem, hleads⟩

/-- The walk from a head that is known adds what the head leads to. -/
theorem Gathered.headed (h : Gathered releases done found) (channel : String)
    (hknown : Known releases head) :
    Gathered releases (done ++ [(channel, some head)])
      (follow releases releases.length found (some head)) := by
  -- There are as many steps as releases, which is enough for the walk to come to its end.
  have hwalk : Walk releases found (some head)
      (follow releases releases.length found (some head)) := walk_iff.2 rfl
  -- What was found up to now is closed, so the only name that waits to be followed is the new head.
  have hbefore : Followed releases found (some head) := by
    refine ⟨h.followed.known, fun name hname target htarget => ?_⟩
    rcases h.followed.closed name hname target htarget with hin | hnone
    · exact Or.inl hin
    · cases hnone
  refine ⟨hwalk.followed hbefore, fun channel' head' hmem => ?_, fun name hname => ?_⟩
  · rcases List.mem_append.1 hmem with hold | hlast
    · exact hwalk.subset (h.heads channel' head' hold)
    · cases List.mem_singleton.1 hlast
      exact hwalk.start_mem hknown
  · rcases hwalk.origin name hname with hold | ⟨start, hstart, hleads⟩
    · obtain ⟨channel', head', hmem, hleads⟩ := h.origin name hold
      exact ⟨channel', head', List.mem_append_left _ hmem, hleads⟩
    · cases hstart
      exact ⟨channel, head, by simp, hleads⟩

/-- Channel by channel the names are gathered, or an unknown head is told. -/
theorem foldlM_addChannel_cases (h : Gathered releases done found) :
    (∃ names, channels.foldlM (addChannel releases package) found = .ok names ∧
      Gathered releases (done ++ channels) names ∧
      ∀ channel head, (channel, some head) ∈ channels → Known releases head) ∨
    ∃ channel head, (channel, some head) ∈ channels ∧ ¬ Known releases head ∧
      channels.foldlM (addChannel releases package) found =
        .error (.catalog (.unknownHead package channel head)) := by
  induction channels generalizing done found with
  | nil => exact Or.inl ⟨found, rfl, by simpa using h, fun _ _ hmem => by cases hmem⟩
  | cons c rest ih =>
    obtain ⟨channel, _ | head⟩ := c
    -- A channel without a head adds nothing; one with a head is stopped at when the head is
    -- unknown.
    · rcases ih (h.headless channel) with
        ⟨names, hnames, hgathered, hknown⟩ | ⟨channel', head', hmem, hunknown, herror⟩
      · refine Or.inl ⟨names, hnames, by simpa using hgathered, fun channel' head' hmem => ?_⟩
        rcases List.mem_cons.1 hmem with heq | hrest
        · cases heq
        · exact hknown channel' head' hrest
      · exact Or.inr ⟨channel', head', List.mem_cons_of_mem _ hmem, hunknown, herror⟩
    · by_cases hhead : Known releases head
      · have hadd : addChannel releases package found (channel, some head) =
            .ok (follow releases releases.length found (some head)) := by
          have hsome : (release? releases head).isNone = false := by
            rw [← Option.not_isSome, hhead]
            rfl
          simp only [addChannel, hsome, Bool.false_eq_true, if_false]
        rw [List.foldlM_cons, hadd]
        rcases ih (h.headed channel hhead) with
          ⟨names, hnames, hgathered, hknown⟩ | ⟨channel', head', hmem, hunknown, herror⟩
        · refine Or.inl ⟨names, hnames, by simpa using hgathered, fun channel' head' hmem => ?_⟩
          rcases List.mem_cons.1 hmem with heq | hrest
          · cases heq
            exact hhead
          · exact hknown channel' head' hrest
        · exact Or.inr ⟨channel', head', List.mem_cons_of_mem _ hmem, hunknown, herror⟩
      · have hadd : addChannel releases package found (channel, some head) =
            .error (.catalog (.unknownHead package channel head)) := by
          have hnone : (release? releases head).isNone = true := by
            rw [← Option.not_isSome]
            simpa [Known] using hhead
          simp only [addChannel, hnone, if_true]
        exact Or.inr ⟨channel, head, List.mem_cons_self, hhead, by rw [List.foldlM_cons, hadd]; rfl⟩

/-- Either the names are gathered and every head is known, or an unknown head is told. -/
theorem reachable_cases (releases : List Release) (package : String)
    (channels : List (String × Option String)) :
    (∃ names, reachable releases package channels = .ok names ∧
      Gathered releases channels names ∧
      ∀ channel head, (channel, some head) ∈ channels → Known releases head) ∨
    ∃ channel head, (channel, some head) ∈ channels ∧ ¬ Known releases head ∧
      reachable releases package channels =
        .error (.catalog (.unknownHead package channel head)) :=
  foldlM_addChannel_cases gathered_nil

theorem gathered_of_reachable (h : reachable releases package channels = .ok names) :
    Gathered releases channels names := by
  rcases reachable_cases releases package channels with
    ⟨names', hnames', hgathered, -⟩ | ⟨_, _, -, -, herror⟩
  · rw [h] at hnames'
    cases hnames'
    exact hgathered
  · rw [h] at herror
    cases herror

end

/-! ## Packages -/

section

variable {c : Catalog} {taken : List String} {descriptor : Value} {p : Package}

/-- The releases of a catalog with some names. -/
def releasesOf (c : Catalog) (names : List String) : List Release :=
  c.releases.filter fun r => r.name ∈ names

/-- What a package is made of. -/
theorem assemble_eq_ok_iff :
    c.assemble taken descriptor = .ok p ↔
      ∃ shell channels names, Package.ofParts descriptor [] [] = .ok shell ∧ shell.id ∉ taken ∧
        shell.channels = .ok channels ∧ reachable c.releases shell.id channels = .ok names ∧
        p = { shell with
          releases := c.releasesOf names
          definitions := c.definitions.filter (serves (wanted (c.releasesOf names))) } := by
  simp only [assemble, bind_eq_ok_iff, mapError_eq_ok_iff]
  constructor
  · intro h
    obtain ⟨shell, hshell, h⟩ := h
    split at h
    next => cases h
    next hnew =>
      simp only [bind_eq_ok_iff, mapError_eq_ok_iff] at h
      obtain ⟨channels, hchannels, names, hnames, heq⟩ := h
      cases heq
      exact ⟨shell, channels, names, hshell, hnew, hchannels, hnames, rfl⟩
  · intro h
    obtain ⟨shell, channels, names, hshell, hnew, hchannels, hnames, rfl⟩ := h
    refine ⟨shell, hshell, ?_⟩
    rw [if_neg hnew]
    simp only [bind_eq_ok_iff, mapError_eq_ok_iff]
    exact ⟨channels, hchannels, names, hnames, rfl⟩

/-- The releases of a package are those whose names its channels gather. -/
theorem assemble_releases (h : c.assemble taken descriptor = .ok p) :
    ∃ channels names, p.channels = .ok channels ∧ Gathered c.releases channels names ∧
      p.releases = c.releasesOf names := by
  obtain ⟨shell, channels, names, -, -, hchannels, hnames, rfl⟩ := assemble_eq_ok_iff.1 h
  exact ⟨channels, names, hchannels, gathered_of_reachable hnames, rfl⟩

/-- Whether a package is made of a descriptor, whatever packages there are before it. -/
def MadeOf (c : Catalog) (descriptor : Value) (p : Package) : Prop :=
  ∃ taken, c.assemble taken descriptor = .ok p

theorem forall₂_of_assembleAll {descriptors : List Value} {made packages : List Package}
    (h : c.assembleAll made descriptors = (packages, none)) :
    ∃ more, packages = made ++ more ∧ List.Forall₂ c.MadeOf descriptors more := by
  induction descriptors generalizing made with
  | nil =>
    rw [assembleAll] at h
    cases h
    exact ⟨[], (List.append_nil _).symm, .nil⟩
  | cons d rest ih =>
    rw [assembleAll] at h
    split at h
    next p hp =>
      obtain ⟨more, rfl, hmore⟩ := ih h
      exact ⟨p :: more, by simp, .cons ⟨_, hp⟩ hmore⟩
    next => cases h

/-- The packages of metadata are made of the descriptors of their catalog, one of each. -/
theorem forall₂_of_packagesOf {place : String} {data : Value} {packages : List Package}
    (h : packagesOf place data = .ok packages) :
    ∃ c, ofValue place data = .ok c ∧ List.Forall₂ c.MadeOf c.descriptors packages := by
  obtain ⟨c, hc, hpackages⟩ := bind_eq_ok_iff.1 h
  refine ⟨c, hc, ?_⟩
  unfold Catalog.packages at hpackages
  split at hpackages
  next made hmade =>
    cases hpackages
    obtain ⟨more, hmore, hall⟩ := forall₂_of_assembleAll hmade
    rw [List.nil_append] at hmore
    rwa [hmore]
  next => cases hpackages

/-- Every package that metadata describe is made of a descriptor of their catalog. -/
theorem exists_madeOf {place : String} {data : Value} {packages : List Package}
    (h : packagesOf place data = .ok packages) :
    ∃ c, ofValue place data = .ok c ∧ ∀ p ∈ packages, ∃ descriptor, c.MadeOf descriptor p := by
  obtain ⟨c, hc, hall⟩ := forall₂_of_packagesOf h
  refine ⟨c, hc, fun p hp => ?_⟩
  obtain ⟨descriptor, -, hmade⟩ := mem_of_forall₂ hall hp
  exact ⟨descriptor, hmade⟩

end

/-! ## Descriptors with nothing wrong -/

/-- What descriptors are taken in as when nothing is wrong with any of them: packages without
releases, no two with one identifier, whose channels can be read. -/
structure Described (descriptors : List Value) (shells : List Package) : Prop where
  taken : List.Forall₂ (fun d shell => Package.ofParts d [] [] = .ok shell) descriptors shells
  distinct : (shells.map (·.id)).Nodup
  channels : ∀ shell ∈ shells, ∃ channels, shell.channels = .ok channels

/-- Whether a channel of a package is headed by a release that there is not. -/
def HeadMissing (c : Catalog) (shell : Package) : Prop :=
  ∃ channels channel head, shell.channels = .ok channels ∧ (channel, some head) ∈ channels ∧
    ¬ Known c.releases head

/-- A descriptor with nothing wrong makes a package, or an unknown head is told. -/
theorem assemble_cases {c : Catalog} {taken : List String} {descriptor : Value} {shell : Package}
    {channels : List (String × Option String)}
    (hshell : Package.ofParts descriptor [] [] = .ok shell) (hnew : shell.id ∉ taken)
    (hchannels : shell.channels = .ok channels) :
    (∃ p, c.assemble taken descriptor = .ok p ∧ p.id = shell.id ∧ ¬ HeadMissing c shell) ∨
    HeadMissing c shell ∧ ∃ package channel head,
      c.assemble taken descriptor = .error (.catalog (.unknownHead package channel head)) := by
  rcases reachable_cases c.releases shell.id channels with
    ⟨names, hnames, -, hknown⟩ | ⟨channel, head, hmem, hunknown, herror⟩
  · refine Or.inl ⟨_, assemble_eq_ok_iff.2 ⟨shell, channels, names, hshell, hnew, hchannels, hnames,
      rfl⟩, rfl, fun hmissing => ?_⟩
    obtain ⟨channels', channel, head, hchannels', hmem, hunknown⟩ := hmissing
    rw [hchannels] at hchannels'
    cases hchannels'
    exact hunknown (hknown channel head hmem)
  · refine Or.inr
      ⟨⟨channels, channel, head, hchannels, hmem, hunknown⟩, shell.id, channel, head, ?_⟩
    unfold assemble
    rw [hshell]
    show (if shell.id ∈ taken then _ else _) = _
    rw [if_neg hnew, hchannels]
    show (reachable c.releases shell.id channels >>= _) = _
    rw [herror]
    rfl

/-- Of descriptors with nothing wrong all make packages, or an unknown head is told. -/
theorem assembleAll_cases {c : Catalog} {descriptors : List Value} {shells made : List Package}
    (h : List.Forall₂ (fun d shell => Package.ofParts d [] [] = .ok shell) descriptors shells)
    (hdistinct : (made.map (·.id) ++ shells.map (·.id)).Nodup)
    (hchannels : ∀ shell ∈ shells, ∃ channels, shell.channels = .ok channels) :
    (∃ packages, c.assembleAll made descriptors = (packages, none) ∧
      ∀ shell ∈ shells, ¬ HeadMissing c shell) ∨
    (∃ shell ∈ shells, HeadMissing c shell) ∧ ∃ packages package channel head,
      c.assembleAll made descriptors =
        (packages, some (.catalog (.unknownHead package channel head))) := by
  induction h generalizing made with
  | nil => exact Or.inl ⟨made, rfl, fun _ hmem => by cases hmem⟩
  | @cons d shell rest shells hshell _ ih =>
    rw [List.forall_mem_cons] at hchannels
    obtain ⟨⟨channels, hhere⟩, hrest⟩ := hchannels
    -- The identifiers of all the shells are distinct, so none of those made before stands in the
    -- way of the next.
    have hnew : shell.id ∉ made.map (·.id) := by
      intro hin
      exact (List.nodup_append.1 hdistinct).2.2 _ hin _ (by simp) rfl
    rcases assemble_cases (c := c) hshell hnew hhere with
      ⟨p, hp, hid, hfound⟩ | ⟨hmissing, package, channel, head, herror⟩
    · have hmore : ((made ++ [p]).map (·.id) ++ shells.map (·.id)).Nodup := by
        simpa [hid] using hdistinct
      simp only [assembleAll, hp]
      rcases ih hmore hrest with ⟨packages, hpackages, hall⟩ | ⟨⟨shell', hmem, hmissing⟩, htold⟩
      · exact Or.inl ⟨packages, hpackages, List.forall_mem_cons.2 ⟨hfound, hall⟩⟩
      · exact Or.inr ⟨⟨shell', List.mem_cons_of_mem _ hmem, hmissing⟩, htold⟩
    · refine Or.inr ⟨⟨shell, List.mem_cons_self, hmissing⟩, made, package, channel, head, ?_⟩
      simp only [assembleAll, herror]

/-- When nothing is wrong with the descriptors themselves, only an unknown head stops the work, and
an unknown head does. -/
theorem packages_cases {c : Catalog} {shells : List Package} (h : Described c.descriptors shells) :
    (∃ packages, c.packages = .ok packages) ∧ (∀ shell ∈ shells, ¬ HeadMissing c shell) ∨
    (∃ shell ∈ shells, HeadMissing c shell) ∧ ∃ package channel head,
      c.packages = .error (.catalog (.unknownHead package channel head)) := by
  have hdistinct : (([] : List Package).map (·.id) ++ shells.map (·.id)).Nodup := by
    simpa using h.distinct
  rcases assembleAll_cases (c := c) h.taken hdistinct h.channels with
    ⟨packages, hpackages, hall⟩ | ⟨hmissing, packages, package, channel, head, herror⟩
  · exact Or.inl ⟨⟨packages, by rw [Catalog.packages, hpackages]⟩, hall⟩
  · exact Or.inr ⟨hmissing, package, channel, head, by rw [Catalog.packages, herror]⟩

end RegistryTree.Catalog
