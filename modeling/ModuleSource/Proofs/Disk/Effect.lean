import ModuleSource.Proofs.Disk.Place

/-!
What the operations on a disk change. Writing and publishing put files below one directory, and
making directories adds some along one path; neither touches anything else, and no directory goes
away. The relations here compose, so what a sequence of operations changes follows from what each of
them does.
-/

namespace ModuleSource

namespace Disk

variable {disk before after : Disk} {path directory : Path} {name : String} {bytes : ByteArray}
  {location dir : Location}

/-- The file at a location, if there is one: its contents, and whether it is not to be written. -/
def file? (disk : Disk) (location : Location) : Option (ByteArray × Bool) :=
  match disk.get? location with
  | some (.file bytes readOnly) => some (bytes, readOnly)
  | _ => none

theorem file?_congr (h : after.get? location = before.get? location) :
    after.file? location = before.file? location := by
  rw [file?, file?, h]

theorem ne_nil_of_get?_ne (h : disk.get? location ≠ some .directory) : location ≠ [] := by
  rintro rfl
  exact h (get?_nil disk)

/-- Files with certain names were written below a path, and nothing else was done. -/
structure WritesIn (directory : Path) (names : List String) (before after : Disk) : Prop where
  here : after.here = before.here
  changed : ∀ location, after.get? location = before.get? location ∨
    before.get? location ≠ some .directory ∧
      (∃ bytes readOnly, after.get? location = some (.file bytes readOnly)) ∧
      ∃ dir name, name ∈ names ∧ before.Opens directory dir ∧ location = dir ++ [name]

namespace WritesIn

variable {names : List String}

theorem refl (directory : Path) (names : List String) (disk : Disk) :
    WritesIn directory names disk disk :=
  ⟨rfl, fun _ => Or.inl rfl⟩

theorem mono {more : List String} (h : WritesIn directory names before after)
    (hsub : names ⊆ more) : WritesIn directory more before after := by
  refine ⟨h.here, fun location => ?_⟩
  rcases h.changed location with hsame | ⟨hfree, hfile, dir, name, hname, hopens⟩
  · exact Or.inl hsame
  · exact Or.inr ⟨hfree, hfile, dir, name, hsub hname, hopens⟩

theorem get?_eq_directory_iff (h : WritesIn directory names before after) (location : Location) :
    after.get? location = some .directory ↔ before.get? location = some .directory := by
  rcases h.changed location with hsame | ⟨hfree, ⟨bytes, readOnly, hfile⟩, -⟩
  · rw [hsame]
  · rw [hfile]
    exact ⟨fun hdir => (nomatch hdir), fun hdir => absurd hdir hfree⟩

theorem grows (h : WritesIn directory names before after) : Grows before after :=
  ⟨h.here, fun location => (h.get?_eq_directory_iff location).mpr⟩

theorem grows_back (h : WritesIn directory names before after) : Grows after before :=
  ⟨h.here.symm, fun location => (h.get?_eq_directory_iff location).mp⟩

theorem trans {last : Disk} (h : WritesIn directory names before after)
    (h' : WritesIn directory names after last) : WritesIn directory names before last := by
  refine ⟨h'.here.trans h.here, fun location => ?_⟩
  rcases h'.changed location with hsame | ⟨hfree, hfile, dir, name, hname, hopens, hlocation⟩
  · rw [hsame]
    exact h.changed location
  · refine Or.inr ⟨?_, hfile, dir, name, hname, h.grows_back.opens hopens, hlocation⟩
    rwa [Ne, ← h.get?_eq_directory_iff]

/-- What has another name is as it was. -/
theorem get?_concat_eq (h : WritesIn directory names before after) (hother : name ∉ names)
    (dir : Location) : after.get? (dir ++ [name]) = before.get? (dir ++ [name]) := by
  rcases h.changed (dir ++ [name]) with hsame | ⟨-, -, dir', name', hname', -, hlocation⟩
  · exact hsame
  · obtain ⟨-, hnames⟩ := List.append_inj' hlocation rfl
    obtain rfl := List.singleton_inj.mp hnames
    exact absurd hname' hother

theorem find_join_eq_ok {found : Location × Entry} (h : WritesIn directory names before after)
    (hname : IsName name) (hother : name ∉ names)
    (hfind : before.find (path.join name) = .ok found) :
    after.find (path.join name) = .ok found := by
  obtain ⟨-, hreach, -⟩ := find_eq_ok_iff.mp hfind
  obtain ⟨dir, -, hlocation⟩ := (reach_join_eq_ok_iff hname).mp hreach
  refine h.grows.find hfind ?_
  rw [hlocation]
  exact h.get?_concat_eq hother dir

theorem of_insert (hopens : before.Opens directory dir) (hname : name ∈ names)
    (hfree : before.get? (dir ++ [name]) ≠ some .directory) (bytes : ByteArray)
    (readOnly : Bool) :
    WritesIn directory names before (before.insert (dir ++ [name]) (.file bytes readOnly)) := by
  refine ⟨rfl, fun location => ?_⟩
  by_cases hlocation : location = dir ++ [name]
  · subst hlocation
    exact Or.inr ⟨hfree, ⟨bytes, readOnly, get?_insert_self before (ne_nil_of_get?_ne hfree) _⟩,
      dir, name, hname, hopens, rfl⟩
  · exact Or.inl (get?_insert_of_ne before (ne_nil_of_get?_ne hfree) _ hlocation)

end WritesIn

/-- A file that was written was no directory, and not one that is not to be written. -/
theorem write_eq_ok {readOnly : Bool} (h : disk.write path bytes readOnly = .ok after) :
    ∃ location, disk.locate path = .ok location ∧ disk.get? location ≠ some .directory ∧
      (∀ old, disk.get? location ≠ some (.file old true)) ∧
      after = disk.insert location (.file bytes readOnly) := by
  unfold write at h
  split at h
  · cases h
  next location hlocate =>
  split at h
  · cases h
  · cases h
  · next hfree hwritable => exact ⟨location, hlocate, hfree, hwritable, (Except.ok.inj h).symm⟩

/-- A name copied below a path is a file of the directory that the path opens. -/
theorem copy_join {origin : Location} {readOnly : Bool} (hname : IsName name)
    (h : disk.copy origin bytes readOnly (directory.join name) = .ok after) :
    ∃ dir, disk.Opens directory dir ∧ (directory.join name).accept = .ok () ∧
      disk.get? (dir ++ [name]) ≠ some .directory ∧
      (∀ old, disk.get? (dir ++ [name]) ≠ some (.file old true)) ∧
      after = disk.insert (dir ++ [name])
        (.file (if dir ++ [name] = origin then .empty else bytes) readOnly) := by
  obtain ⟨location, hlocate, hfree, hwritable, rfl⟩ := write_eq_ok h
  obtain ⟨haccept, hreach⟩ := locate_eq_ok_iff.mp hlocate
  obtain ⟨dir, hopens, rfl⟩ := (reach_join_eq_ok_iff hname).mp hreach
  refine ⟨dir, hopens, haccept, hfree, hwritable, ?_⟩
  rw [hlocate]
  simp only [Except.toOption, Option.some.injEq]

theorem replace_eq_ok (h : disk.replace path bytes = .ok after) :
    ∃ location, disk.locate path = .ok location ∧ disk.get? location ≠ some .directory ∧
      after = disk.insert location (.file bytes) := by
  unfold replace at h
  split at h
  · cases h
  next location hlocate =>
  split at h
  · cases h
  · next hfree => exact ⟨location, hlocate, hfree, (Except.ok.inj h).symm⟩

/-- A file that was published has come into the place of what was at the end of its path. -/
theorem replace_of_publish {mishaps : Mishaps}
    (h : disk.publish directory name bytes mishaps = .ok after) :
    disk.replace (directory.join name) bytes = .ok after := by
  unfold publish at h
  split at h
  · cases h
  · cases h
  · cases h
  · cases h
  · cases h
  · exact h

theorem publish_eq_ok {mishaps : Mishaps} (hname : IsName name)
    (h : disk.publish directory name bytes mishaps = .ok after) :
    ∃ dir, disk.Opens directory dir ∧ disk.get? (dir ++ [name]) ≠ some .directory ∧
      after = disk.insert (dir ++ [name]) (.file bytes) := by
  obtain ⟨location, hlocate, hfree, rfl⟩ := replace_eq_ok (replace_of_publish h)
  obtain ⟨dir, hopens, rfl⟩ := (reach_join_eq_ok_iff hname).mp (locate_eq_ok_iff.mp hlocate).2
  exact ⟨dir, hopens, hfree, rfl⟩

/-- A file is published only under a path that the system takes. -/
theorem accept_of_publish {mishaps : Mishaps}
    (h : disk.publish directory name bytes mishaps = .ok after) :
    (directory.join name).accept = .ok () := by
  obtain ⟨location, hlocate, -⟩ := replace_eq_ok (replace_of_publish h)
  exact (locate_eq_ok_iff.mp hlocate).1

/-- A published file is at the end of its path, and nothing else has changed. -/
theorem find_of_publish {mishaps : Mishaps} (hname : IsName name)
    (h : disk.publish directory name bytes mishaps = .ok after) :
    ∃ place, after.find (directory.join name) = .ok (place, .file bytes) ∧
      after.here = disk.here ∧ ∀ other, other ≠ place → after.get? other = disk.get? other := by
  have haccept := accept_of_publish h
  obtain ⟨dir, hopens, hfree, rfl⟩ := publish_eq_ok hname h
  have hplace := ne_nil_of_get?_ne hfree
  have hgrows := (WritesIn.of_insert hopens (List.mem_singleton_self name) hfree bytes false).grows
  have hreach := (reach_join_eq_ok_iff hname).mpr ⟨dir, hgrows.opens hopens, rfl⟩
  refine ⟨dir ++ [name], ?_, rfl, fun other hother => get?_insert_of_ne disk hplace _ hother⟩
  exact find_eq_ok_iff.mpr ⟨haccept, hreach, get?_insert_self disk hplace _⟩

theorem read_of_find {readOnly : Bool} (h : disk.find path = .ok (location, .file bytes readOnly)) :
    disk.read path = .ok bytes := by
  simp only [read, h]

/-- A file of a directory is read by its name below any path that opens the directory. -/
theorem read_join (hname : IsName name) (haccept : (directory.join name).accept = .ok ())
    (hopens : disk.Opens directory dir)
    (hentry : disk.get? (dir ++ [name]) = some (.file bytes)) :
    disk.read (directory.join name) = .ok bytes := by
  have hreach := (reach_join_eq_ok_iff hname).mpr ⟨dir, hopens, rfl⟩
  exact read_of_find (find_eq_ok_iff.mpr ⟨haccept, hreach, hentry⟩)

theorem isName_passingName : IsName passingName := by decide

/-- Why a file cannot be published in a directory that is there: something goes wrong with it, one
of the two paths is not taken by the system, or a directory is in the way. -/
def refusal? (disk : Disk) (directory : Path) (dir : Location) (name : String)
    (mishaps : Mishaps := {}) : Option AccessFailure :=
  match mishaps.create, ((disk.fromRoot directory).join passingName).accept, mishaps.fill,
    mishaps.rename, (directory.join name).accept with
  | some e, _, _, _, _ => some e
  | none, .error e, _, _, _ => some e
  | none, .ok (), some (e, _), _, _ => some e
  | none, .ok (), none, some e, _ => some e
  | none, .ok (), none, none, .error e => some e
  | none, .ok (), none, none, .ok () =>
    if disk.get? (dir ++ [name]) = some .directory then some .isADirectory else none

theorem publish_of_opens (hopens : disk.Opens directory dir) (hname : IsName name)
    (bytes : ByteArray) (mishaps : Mishaps) :
    disk.publish directory name bytes mishaps =
      match disk.refusal? directory dir name mishaps with
      | some e => .error e
      | none => .ok (disk.insert (dir ++ [name]) (.file bytes)) := by
  obtain ⟨create, fill, rename⟩ := mishaps
  have hpassing : disk.reach (directory.join passingName) = .ok (dir ++ [passingName]) :=
    (reach_join_eq_ok_iff isName_passingName).mpr ⟨dir, hopens, rfl⟩
  have hreach : disk.reach (directory.join name) = .ok (dir ++ [name]) :=
    (reach_join_eq_ok_iff hname).mpr ⟨dir, hopens, rfl⟩
  unfold publish refusal? replace locate
  rw [hpassing, hreach]
  rcases create with _ | e
  · rcases ((disk.fromRoot directory).join passingName).accept with e | ⟨⟩
    · rfl
    rcases fill with _ | ⟨e, got⟩
    · rcases rename with _ | e
      · rcases (directory.join name).accept with e | ⟨⟩
        · rfl
        · dsimp only
          split <;> rfl
      · rfl
    · rfl
  · rfl

/-- Whether a file can be published does not depend on the files written before. -/
theorem WritesIn.refusal?_eq {names : List String} (h : WritesIn directory names before after)
    (dir : Location) (name : String) (mishaps : Mishaps) :
    after.refusal? directory dir name mishaps = before.refusal? directory dir name mishaps := by
  have hroot : after.fromRoot directory = before.fromRoot directory := by
    rw [fromRoot, fromRoot, h.here]
  unfold refusal?
  rw [hroot, if_congr (h.get?_eq_directory_iff (dir ++ [name])) rfl rfl]

/-- A directory was made where nothing was. -/
def MadeAt (before after : Disk) (location : Location) : Prop :=
  before.get? location = none ∧ after.get? location = some .directory

/-- Directories were made where nothing was, each at the end of one of certain walks from a start,
and nothing else was done. -/
structure MakesAlong (start : Location) (along : List String → Prop) (before after : Disk) :
    Prop where
  here : after.here = before.here
  changed : ∀ location, after.get? location = before.get? location ∨
    before.get? location = none ∧ after.get? location = some .directory ∧
      ∃ segments, along segments ∧ after.walk start segments = .ok location

namespace MakesAlong

variable {start : Location} {along : List String → Prop} {segments : List String}

theorem refl (start : Location) (along : List String → Prop) (disk : Disk) :
    MakesAlong start along disk disk :=
  ⟨rfl, fun _ => Or.inl rfl⟩

theorem mono {more : List String → Prop} (h : MakesAlong start along before after)
    (hmore : ∀ segments, along segments → more segments) : MakesAlong start more before after := by
  refine ⟨h.here, fun location => ?_⟩
  rcases h.changed location with hsame | ⟨hnone, hdir, segments, hsegments, hwalk⟩
  · exact Or.inl hsame
  · exact Or.inr ⟨hnone, hdir, segments, hmore segments hsegments, hwalk⟩

theorem grows (h : MakesAlong start along before after) : Grows before after := by
  refine ⟨h.here, fun location hdir => ?_⟩
  rcases h.changed location with hsame | ⟨-, hmade, -⟩
  · rw [hsame, hdir]
  · exact hmade

theorem trans {last : Disk} (h : MakesAlong start along before after)
    (h' : MakesAlong start along after last) : MakesAlong start along before last := by
  refine ⟨h'.here.trans h.here, fun location => ?_⟩
  rcases h'.changed location with hsame | ⟨hnone, hdir, hwalk⟩
  · rw [hsame]
    rcases h.changed location with hfirst | ⟨hnone, hdir, segments, hsegments, hwalk⟩
    · exact Or.inl hfirst
    · exact Or.inr ⟨hnone, hdir, segments, hsegments, h'.grows.walk hwalk⟩
  · rcases h.changed location with hfirst | ⟨-, hmade, -⟩
    · exact Or.inr ⟨hfirst ▸ hnone, hdir, hwalk⟩
    · cases hmade.symm.trans hnone

/-- No file is made, changed or lost. -/
theorem file?_eq (h : MakesAlong start along before after) (location : Location) :
    after.file? location = before.file? location := by
  rcases h.changed location with hsame | ⟨hnone, hmade, -⟩
  · exact file?_congr hsame
  · rw [file?, file?, hnone, hmade]

theorem of_makeDirectory (halong : along segments)
    (h : disk.makeDirectory start segments = .ok after) : MakesAlong start along disk after := by
  unfold makeDirectory at h
  cases hwalk : disk.walk start segments with
  | error e =>
    rw [hwalk] at h
    cases h
  | ok location =>
    rw [hwalk] at h
    dsimp only at h
    split at h
    · cases h
    split at h
    · cases h
    next hfree =>
    obtain rfl := Except.ok.inj h
    have hnone : disk.get? location = none := by simpa using hfree
    have hne : location ≠ [] := by
      rintro rfl
      cases hnone
    have hgrows : Grows disk (disk.insert location .directory) := by
      refine ⟨rfl, fun other hdir => ?_⟩
      rw [get?_insert disk hne, hdir, ite_self]
    refine ⟨rfl, fun other => ?_⟩
    by_cases hother : other = location
    · subst hother
      exact Or.inr ⟨hnone, get?_insert_self disk hne _, segments, halong, hgrows.walk hwalk⟩
    · exact Or.inl (get?_insert_of_ne disk hne _ hother)

private theorem of_attempt (halong : along segments) :
    MakesAlong start along disk (makeWithParents.attempt start segments disk).2 := by
  unfold makeWithParents.attempt
  cases h : disk.makeDirectory start segments with
  | ok after => exact of_makeDirectory halong h
  | error e =>
    dsimp only
    split <;> exact refl start along disk

/-- The parents are made first, so directories appear along the path itself and along the fronts of
what comes before its last component. -/
theorem of_makeWithParents (disk : Disk) (start : Location) (segments before : List String) :
    MakesAlong start (fun names => names = segments ∨ names <+: before.reverse) disk
      (disk.makeWithParents start segments before).2 := by
  induction before generalizing segments with
  | nil => exact of_attempt (Or.inl rfl)
  | cons last before ih =>
    unfold makeWithParents
    split
    · have hparents : MakesAlong start (fun names => names = segments ∨
          names <+: (last :: before).reverse) disk
          (disk.makeWithParents start (last :: before).reverse before).2 := by
        refine (ih _).mono fun names hnames => Or.inr ?_
        rcases hnames with rfl | hnames
        · exact List.prefix_refl _
        · rw [List.reverse_cons]
          exact hnames.trans (List.prefix_append _ _)
      split
      · next e made hmade =>
        rw [hmade] at hparents
        exact hparents
      · next made hmade =>
        rw [hmade] at hparents
        exact hparents.trans (of_attempt (Or.inl rfl))
    · exact of_attempt (Or.inl rfl)

/-- What was found is found as before, since directories are made only where nothing was. -/
theorem find_eq_ok {found : Location × Entry} (h : MakesAlong start along before after)
    (hfind : before.find path = .ok found) : after.find path = .ok found := by
  refine h.grows.find hfind ?_
  rcases h.changed found.1 with hsame | ⟨hnone, -⟩
  · exact hsame
  · cases hnone.symm.trans (find_eq_ok_iff.mp hfind).2.2

end MakesAlong

end Disk

/-- The ways along which a path is made: as it is written, and each front of the components before
its last one, which are the directories it lies in. -/
def Path.MadeAlong (path : Path) (segments : List String) : Prop :=
  segments = path.segments ∨ segments <+: path.components.dropLast

theorem Disk.MakesAlong.of_makeDirectories (disk : Disk) (path : Path) :
    MakesAlong (disk.start path) path.MadeAlong disk (disk.makeDirectories path).2 := by
  unfold makeDirectories
  split
  · exact refl _ _ disk
  split
  · exact refl _ _ disk
  · have hmade := of_makeWithParents disk (disk.start path) path.segments
      path.components.reverse.tail
    rw [List.tail_reverse, List.reverse_reverse] at hmade
    rw [List.tail_reverse]
    exact hmade

end ModuleSource
