import ModuleSource.Proofs.Disk.Effect

/-!
What is done on a disk a second time. To write what is there already changes nothing, and
directories that were made are there. What could not be made cannot be made again, and nothing more
is made on the way; only the reason can be another one, if a parent was made the first time: the
walk then goes on, up to a file that was in the way.
-/

namespace ModuleSource

namespace Disk

variable {disk before after : Disk} {path : Path} {start location dir : Location} {entry : Entry}
  {segments names : List String} {name : String} {bytes : ByteArray} {e x : AccessFailure}

theorem walk_append (disk : Disk) (start : Location) (xs ys : List String) :
    disk.walk start (xs ++ ys) = disk.walk start xs >>= (disk.walk · ys) := by
  simp [walk]

theorem walk_cons (disk : Disk) (start : Location) (segment : String) (segments : List String) :
    disk.walk start (segment :: segments) =
      disk.step start segment >>= (disk.walk · segments) := by
  simp [walk]

theorem walk_singleton (disk : Disk) (start : Location) (segment : String) :
    disk.walk start [segment] = disk.step start segment := by
  simp [walk]

theorem walk_cons_of_ok {segment : String} (h : disk.step start segment = .ok location)
    (segments : List String) :
    disk.walk start (segment :: segments) = disk.walk location segments := by
  rw [walk_cons, h]
  rfl

theorem walk_cons_of_error {segment : String} (h : disk.step start segment = .error x)
    (segments : List String) : disk.walk start (segment :: segments) = .error x := by
  rw [walk_cons, h]
  rfl

theorem walk_append_of_error (h : disk.walk start names = .error x) (rest : List String) :
    disk.walk start (names ++ rest) = .error x := by
  rw [walk_append, h]
  rfl

/-- A step that does not find a directory fails whatever it looks for there. -/
theorem step_of_step_dot (h : disk.step location "." = .error x) (segment : String) :
    disk.step location segment = .error x := by
  unfold step at h ⊢
  rcases hentry : disk.get? location with _ | _ | _
  · rw [hentry] at h
    exact h
  · rw [hentry] at h
    exact h
  · rw [hentry] at h
    cases h

theorem step_dot_eq_ok_iff : disk.step location "." = .ok dir ↔
    disk.get? location = some .directory ∧ dir = location := by
  unfold step
  rcases disk.get? location with _ | _ | _ <;> simp [eq_comm]

theorem walk_dot_eq_ok_iff : disk.walk start (segments ++ ["."]) = .ok location ↔
    disk.walk start segments = .ok location ∧ disk.get? location = some .directory := by
  rw [walk_append]
  rcases disk.walk start segments with e | place
  · exact ⟨nofun, fun h => nomatch h.1⟩
  · change disk.walk place ["."] = _ ↔ _
    rw [walk_singleton, step_dot_eq_ok_iff, Except.ok.injEq]
    constructor
    · rintro ⟨hentry, rfl⟩
      exact ⟨rfl, hentry⟩
    · rintro ⟨rfl, hentry⟩
      exact ⟨hentry, rfl⟩

private theorem insertEntry_of_lookup {entries : List (Location × Entry)}
    (h : entries.lookup location = some entry) : insertEntry location entry entries = entries := by
  induction entries with
  | nil => cases h
  | cons first entries ih =>
    obtain ⟨place, found⟩ := first
    unfold insertEntry
    by_cases hplace : place = location
    · subst hplace
      rw [List.lookup_cons_self] at h
      rw [if_pos rfl, Option.some.inj h]
    · have hbeq : (location == place) = false := by simpa using Ne.symm hplace
      rw [List.lookup_cons, hbeq] at h
      rw [if_neg hplace, ih h]

/-- To put an entry where it is already changes nothing. -/
theorem insert_of_get? (hne : location ≠ []) (h : disk.get? location = some entry) :
    disk.insert location entry = disk := by
  rw [get?_of_ne_nil disk hne] at h
  rw [insert, insertEntry_of_lookup h]

theorem opens_of_find (h : disk.find path = .ok (dir, .directory)) : disk.Opens path dir := by
  obtain ⟨-, hreach, hentry⟩ := find_eq_ok_iff.mp h
  refine ⟨?_, hentry⟩
  unfold reach at hreach
  split at hreach
  · cases hreach
  split at hreach
  · exact (walk_dot_eq_ok_iff.mp hreach).1
  · rwa [List.append_nil] at hreach

theorem isFile_of_isDirectory (h : disk.isDirectory path = true) : disk.isFile path = false := by
  obtain ⟨location, hfind⟩ := isDirectory_iff.mp h
  rw [isFile, hfind]

theorem Grows.isDirectory (h : Grows before after) (hdirectory : before.isDirectory path = true) :
    after.isDirectory path = true := by
  obtain ⟨location, hfind⟩ := isDirectory_iff.mp hdirectory
  have hentry := (find_eq_ok_iff.mp hfind).2.2
  exact isDirectory_iff.mpr
    ⟨location, h.find hfind ((h.directory location hentry).trans hentry.symm)⟩

/-- What a name below a path leads to, if the path opens a directory. -/
theorem find_join_of_opens (hname : IsName name) (hopens : disk.Opens path dir) :
    disk.find (path.join name) =
      match (path.join name).accept, disk.get? (dir ++ [name]) with
      | .error e, _ => .error e
      | .ok (), none => .error .notFound
      | .ok (), some entry => .ok (dir ++ [name], entry) := by
  have hreach := (reach_join_eq_ok_iff hname).mpr ⟨dir, hopens, rfl⟩
  unfold find locate
  rw [hreach]
  rcases (path.join name).accept with e | ⟨⟩
  · rfl
  · dsimp only
    rcases disk.get? (dir ++ [name]) with _ | entry <;> rfl

theorem find_join_congr (hname : IsName name) (hbefore : before.Opens path dir)
    (hafter : after.Opens path dir)
    (h : after.get? (dir ++ [name]) = before.get? (dir ++ [name])) :
    after.find (path.join name) = before.find (path.join name) := by
  rw [find_join_of_opens hname hbefore, find_join_of_opens hname hafter, h]

theorem isFile_join_congr (hname : IsName name) (hbefore : before.Opens path dir)
    (hafter : after.Opens path dir)
    (h : after.file? (dir ++ [name]) = before.file? (dir ++ [name])) :
    after.isFile (path.join name) = before.isFile (path.join name) := by
  have hisFile {disk : Disk} (hopens : disk.Opens path dir) : disk.isFile (path.join name) =
      ((path.join name).accept.isOk && (disk.file? (dir ++ [name])).isSome) := by
    unfold isFile file?
    rw [find_join_of_opens hname hopens]
    rcases (path.join name).accept with e | ⟨⟩
    · rfl
    · rcases disk.get? (dir ++ [name]) with _ | _ | _ <;> rfl
  rw [hisFile hbefore, hisFile hafter, h]

/-- To write what is there already changes nothing, if it may be written. -/
theorem write_of_get? (hlocate : disk.locate path = .ok location)
    (h : disk.get? location = some (.file bytes)) : disk.write path bytes = .ok disk := by
  have hne : location ≠ [] := by
    rintro rfl
    cases h
  unfold write
  rw [hlocate]
  dsimp only
  rw [h]
  exact congrArg _ (insert_of_get? hne h)

/-- A file that is not to be written is not written. -/
theorem write_of_readOnly {old : ByteArray} {readOnly : Bool}
    (hlocate : disk.locate path = .ok location)
    (h : disk.get? location = some (.file old true)) :
    disk.write path bytes readOnly = .error .permissionDenied := by
  unfold write
  rw [hlocate]
  dsimp only
  rw [h]

theorem publish_of_get? {mishaps : Mishaps} (hname : IsName name) (hopens : disk.Opens path dir)
    (hrefusal : disk.refusal? path dir name mishaps = none)
    (h : disk.get? (dir ++ [name]) = some (.file bytes)) :
    disk.publish path name bytes mishaps = .ok disk := by
  rw [publish_of_opens hopens hname, hrefusal]
  exact congrArg _ (insert_of_get? (by simp) h)

theorem refusal?_eq_none_of_publish {mishaps : Mishaps} (hname : IsName name)
    (hopens : disk.Opens path dir) (h : disk.publish path name bytes mishaps = .ok after) :
    disk.refusal? path dir name mishaps = none := by
  rw [publish_of_opens hopens hname] at h
  rcases hrefusal : disk.refusal? path dir name mishaps with _ | e
  · rfl
  · rw [hrefusal] at h
    cases h

/-- A place on the way that is no directory stops the walk, as it stops the walk that ends there. -/
theorem walk_of_walk_dot (names : List String) {last : String} {rest : List String}
    (h : disk.walk start (names ++ ["."]) = .error x) :
    disk.walk start (names ++ last :: rest) = .error x := by
  rw [walk_append] at h ⊢
  rcases hwalk : disk.walk start names with e | place
  · rw [hwalk] at h
    exact h
  · rw [hwalk] at h
    change disk.walk place ["."] = .error x at h
    have hdot : disk.step place "." = .error x := by rwa [walk_singleton] at h
    exact walk_cons_of_error (step_of_step_dot hdot last) rest

theorem walk_of_front {front : List String} {last : String} (hfront : names <+: front)
    (h : disk.walk start (names ++ ["."]) = .error x) :
    disk.walk start (front ++ [last]) = .error x := by
  obtain ⟨rest, rfl⟩ := hfront
  rw [List.append_assoc]
  cases rest with
  | nil => exact walk_of_walk_dot names h
  | cons name rest => exact walk_of_walk_dot names h

/-- Single dots on the way do not matter for this. -/
theorem walk_of_walk_filter {last : String}
    (hfront : names ++ [last] <+: segments.filter (· ≠ "."))
    (h : disk.walk start (names ++ ["."]) = .error x) : disk.walk start segments = .error x := by
  induction segments generalizing start names with
  | nil => simp at hfront
  | cons segment segments ih =>
    by_cases hdot : segment = "."
    · subst hdot
      rw [List.filter_cons_of_neg (by simp)] at hfront
      cases hstep : disk.step start "." with
      | error y =>
        -- The walk to the place fails at its first step too.
        have hfirst : disk.walk start (names ++ ["."]) = .error y := by
          cases names with
          | nil => exact walk_cons_of_error hstep []
          | cons name names => exact walk_cons_of_error (step_of_step_dot hstep name) _
        rw [walk_cons_of_error hstep, ← hfirst, h]
      | ok place =>
        obtain ⟨-, rfl⟩ := step_dot_eq_ok_iff.mp hstep
        rw [walk_cons_of_ok hstep]
        exact ih hfront h
    · rw [List.filter_cons_of_pos (by simpa using hdot)] at hfront
      cases names with
      | nil => exact walk_of_walk_dot [] h
      | cons name names =>
        obtain ⟨rfl, hrest⟩ := List.cons_prefix_cons.mp hfront
        rw [List.cons_append] at h
        cases hstep : disk.step start name with
        | error y =>
          rw [walk_cons_of_error hstep] at h ⊢
          exact h
        | ok place =>
          rw [walk_cons_of_ok hstep] at h ⊢
          exact ih hrest h

/-- The directories that a path lies in are on the way of the path as it is written. -/
theorem walk_segments_of_components {path : Path} {last : String}
    (hfront : names ++ [last] <+: path.components)
    (h : disk.walk start (names ++ ["."]) = .error x) :
    disk.walk start path.segments = .error x := by
  unfold Path.components at hfront
  cases hsegments : path.segments with
  | nil =>
    rw [hsegments] at hfront
    simp at hfront
  | cons first rest =>
    rw [hsegments] at hfront
    dsimp only at hfront
    by_cases hdot : first = "."
    · subst hdot
      by_cases habsolute : path.isAbsolute = true
      · rw [if_pos ⟨rfl, habsolute⟩, List.nil_append] at hfront
        rw [← List.filter_cons_of_neg (a := ".") (by simp)] at hfront
        exact walk_of_walk_filter hfront h
      · rw [if_neg (fun hboth => habsolute hboth.2), List.singleton_append] at hfront
        -- The dot at the start counts, so it may be the first step of the walk to the place.
        cases names with
        | nil => exact walk_of_walk_dot [] h
        | cons name names =>
          obtain ⟨rfl, hrest⟩ := List.cons_prefix_cons.mp hfront
          rw [List.cons_append] at h
          cases hstep : disk.step start "." with
          | error y =>
            rw [walk_cons_of_error hstep] at h ⊢
            exact h
          | ok place =>
            rw [walk_cons_of_ok hstep] at h ⊢
            exact walk_of_walk_filter hrest h
    · rw [if_neg (fun hboth => hdot hboth.1), List.singleton_append] at hfront
      rw [← List.filter_cons_of_pos (by simpa using hdot)] at hfront
      exact walk_of_walk_filter hfront h

theorem makeDirectory_of_walk_error (h : disk.walk start segments = .error e) :
    disk.makeDirectory start segments = .error e := by
  rw [makeDirectory, h]

theorem makeDirectory_eq_ok (h : disk.makeDirectory start segments = .ok after) :
    ∃ location, disk.walk start segments = .ok location ∧ disk.get? location = none ∧
      after = disk.insert location .directory := by
  unfold makeDirectory at h
  split at h
  · cases h
  next location hwalk =>
  split at h
  · cases h
  split at h
  · cases h
  next hfree => exact ⟨location, hwalk, by simpa using hfree, (Except.ok.inj h).symm⟩

/-- A directory that could not be made is the end of a walk that fails, or something is there. -/
theorem makeDirectory_eq_error (h : disk.makeDirectory start segments = .error e) :
    disk.walk start segments = .error e ∨
      e = .alreadyExists ∧ ∃ location, disk.walk start segments = .ok location := by
  unfold makeDirectory at h
  cases hwalk : disk.walk start segments with
  | error y =>
    rw [hwalk] at h
    exact Or.inl (congrArg _ (Except.error.inj h))
  | ok location =>
    rw [hwalk] at h
    dsimp only at h
    refine Or.inr ⟨?_, location, rfl⟩
    split at h
    · exact (Except.error.inj h).symm
    split at h
    · exact (Except.error.inj h).symm
    · cases h

theorem walk_of_makeDirectory_notFound (h : disk.makeDirectory start segments = .error .notFound) :
    disk.walk start segments = .error .notFound := by
  rcases makeDirectory_eq_error h with hwalk | ⟨hexists, -⟩
  · exact hwalk
  · cases hexists

theorem attempt_eq_error
    (h : makeWithParents.attempt start segments disk = (.error e, after)) :
    after = disk ∧ disk.makeDirectory start segments = .error e ∧
      ∃ y, disk.walk start (segments ++ ["."]) = .error y := by
  unfold makeWithParents.attempt at h
  split at h
  · cases h
  · next y hmake =>
    split at h
    · cases h
    · next z hdot =>
      obtain ⟨he, rfl⟩ := Prod.mk.inj h
      obtain rfl := Except.error.inj he
      exact ⟨rfl, hmake, z, hdot⟩

theorem attempt_of_walk_error (h : disk.walk start segments = .error e) :
    makeWithParents.attempt start segments disk = (.error e, disk) := by
  unfold makeWithParents.attempt
  rw [makeDirectory_of_walk_error h, walk_append_of_error h]

/-- A directory that is there is not made again. -/
theorem attempt_of_walk_dot (h : disk.walk start (segments ++ ["."]) = .ok location) :
    makeWithParents.attempt start segments disk = (.ok (), disk) := by
  obtain ⟨hwalk, hentry⟩ := walk_dot_eq_ok_iff.mp h
  have hmake : disk.makeDirectory start segments = .error .alreadyExists := by
    simp [makeDirectory, hwalk, hentry]
  unfold makeWithParents.attempt
  rw [hmake, h]

theorem makeWithParents_of_walk_dot (h : disk.walk start (segments ++ ["."]) = .ok location)
    (before : List String) : disk.makeWithParents start segments before = (.ok (), disk) := by
  obtain ⟨hwalk, hentry⟩ := walk_dot_eq_ok_iff.mp h
  cases before with
  | nil => exact attempt_of_walk_dot h
  | cons last before =>
    unfold makeWithParents
    split
    · next hmissing => cases hwalk.symm.trans (walk_of_makeDirectory_notFound hmissing)
    · exact attempt_of_walk_dot h

private theorem walk_dot_of_attempt
    (h : makeWithParents.attempt start segments disk = (.ok (), after)) :
    ∃ location, after.walk start (segments ++ ["."]) = .ok location := by
  unfold makeWithParents.attempt at h
  split at h
  · next made hmake =>
    obtain ⟨-, rfl⟩ := Prod.mk.inj h
    have hmade : MakesAlong start (fun _ => True) disk made := .of_makeDirectory trivial hmake
    obtain ⟨location, hwalk, hnone, rfl⟩ := makeDirectory_eq_ok hmake
    have hne : location ≠ [] := by
      rintro rfl
      cases hnone
    exact ⟨location, walk_dot_eq_ok_iff.mpr
      ⟨hmade.grows.walk hwalk, get?_insert_self disk hne .directory⟩⟩
  · split at h
    · next location hdot =>
      obtain ⟨-, rfl⟩ := Prod.mk.inj h
      exact ⟨location, hdot⟩
    · cases h

/-- What was made is there. -/
theorem walk_dot_of_makeWithParents {before : List String}
    (h : disk.makeWithParents start segments before = (.ok (), after)) :
    ∃ location, after.walk start (segments ++ ["."]) = .ok location := by
  cases before with
  | nil => exact walk_dot_of_attempt h
  | cons last before =>
    unfold makeWithParents at h
    split at h
    · split at h
      · cases h
      · exact walk_dot_of_attempt h
    · exact walk_dot_of_attempt h

private theorem front_of_parents {last : String} {before : List String}
    (h : names = (last :: before).reverse ∨ names <+: before.reverse) :
    names <+: (last :: before).reverse := by
  rcases h with rfl | h
  · exact List.prefix_refl _
  · rw [List.reverse_cons]
    exact h.trans (List.prefix_append _ _)

/-- What stopped the making: some directory, the one asked for or one that it lies in, is not there
at the end and cannot be made. -/
theorem makeWithParents_eq_error {before : List String}
    (h : disk.makeWithParents start segments before = (.error e, after)) :
    ∃ names, (names = segments ∨ names <+: before.reverse) ∧
      after.makeDirectory start names = .error e ∧
      ∃ y, after.walk start (names ++ ["."]) = .error y := by
  induction before generalizing segments with
  | nil =>
    obtain ⟨rfl, hmake, hdot⟩ := attempt_eq_error h
    exact ⟨segments, Or.inl rfl, hmake, hdot⟩
  | cons last before ih =>
    unfold makeWithParents at h
    split at h
    · split at h
      · next y made hparents =>
        obtain ⟨he, rfl⟩ := Prod.mk.inj h
        obtain rfl := Except.error.inj he
        obtain ⟨names, hnames, hstop⟩ := ih hparents
        exact ⟨names, Or.inr (front_of_parents hnames), hstop⟩
      · next made _ =>
        obtain ⟨rfl, hmake, hdot⟩ := attempt_eq_error h
        exact ⟨segments, Or.inl rfl, hmake, hdot⟩
    · obtain ⟨rfl, hmake, hdot⟩ := attempt_eq_error h
      exact ⟨segments, Or.inl rfl, hmake, hdot⟩

/-- The two reasons that one place can give: as long as the walk ends at it, it exists, and the walk
that goes on finds no directory. -/
theorem stop_reasons {y : AccessFailure} (hmake : disk.makeDirectory start names = .error e)
    (hdot : disk.walk start (names ++ ["."]) = .error y) :
    y = e ∨ y = .notFound ∨ e = .alreadyExists ∧ y = .notADirectory := by
  rcases makeDirectory_eq_error hmake with hwalk | ⟨rfl, location, hwalk⟩
  · rw [walk_append_of_error hwalk] at hdot
    exact Or.inl (Except.error.inj hdot).symm
  · rw [walk_append, hwalk] at hdot
    change disk.walk location ["."] = .error y at hdot
    rw [walk_singleton, step] at hdot
    rcases hentry : disk.get? location with _ | _ | _
    · rw [hentry] at hdot
      exact Or.inr (Or.inl (Except.error.inj hdot).symm)
    · rw [hentry] at hdot
      exact Or.inr (Or.inr ⟨rfl, (Except.error.inj hdot).symm⟩)
    · rw [hentry] at hdot
      cases hdot

/-- A walk that ended at something missing goes on, since that was made, and ends at a file. -/
def Uncovers (start : Location) (along : List String → Prop) (before after : Disk) : Prop :=
  ∃ names, along names ∧ before.walk start names = .error .notFound ∧
    after.walk start names = .error .notADirectory

/-- A failure comes again, on the disk that it left. The parents that were made are there, so the
first place that cannot be made is the same; it is on the way (`hways`), so the walk to the whole
path ends there. -/
theorem makeWithParents_again {before : List String}
    (hways : ∀ names y, before ≠ [] → names <+: before.reverse →
      after.walk start (names ++ ["."]) = .error y → after.walk start segments = .error y)
    (h : disk.makeWithParents start segments before = (.error e, after)) :
    ∃ e', after.makeWithParents start segments before = (.error e', after) ∧
      (e' = e ∨ e = .alreadyExists ∧ e' = .notADirectory ∧
        Uncovers start (fun names => names = segments ∨ names <+: before.reverse) disk after) := by
  induction before generalizing segments with
  | nil =>
    obtain ⟨rfl, -, -⟩ := attempt_eq_error h
    exact ⟨e, h, Or.inl rfl⟩
  | cons last before ih =>
    have hfirst := h
    unfold makeWithParents at h
    split at h
    · next hmissing =>
      split at h
      · next y made hparents =>
        obtain ⟨he, rfl⟩ := Prod.mk.inj h
        obtain rfl := Except.error.inj he
        obtain ⟨names, hnames, hmake, z, hdot⟩ := makeWithParents_eq_error hparents
        have hwalk := hways names z (List.cons_ne_nil last before) (front_of_parents hnames) hdot
        by_cases hagain : z = .notFound
        · -- The path is still missing, so its parents are tried first, as before.
          subst hagain
          obtain ⟨e', hparents', hreason⟩ := ih (fun names y _ hfront hdot => by
            rw [List.reverse_cons]
            exact walk_of_front hfront hdot) hparents
          refine ⟨e', ?_, ?_⟩
          · unfold makeWithParents
            rw [makeDirectory_of_walk_error hwalk, hparents']
          · rcases hreason with rfl | ⟨hexists, hreason, way, hway, hwalks⟩
            · exact Or.inl rfl
            · exact Or.inr ⟨hexists, hreason, way, Or.inr (front_of_parents hway), hwalks⟩
        · refine ⟨z, ?_, ?_⟩
          · unfold makeWithParents
            rw [makeDirectory_of_walk_error hwalk]
            split
            · next hmissing => exact absurd (Except.error.inj hmissing) hagain
            · exact attempt_of_walk_error hwalk
          · rcases stop_reasons hmake hdot with rfl | hnone | ⟨hexists, rfl⟩
            · exact Or.inl rfl
            · exact absurd hnone hagain
            · exact Or.inr ⟨hexists, rfl, segments, Or.inl rfl,
                walk_of_makeDirectory_notFound hmissing, hwalk⟩
      · next made hparents =>
        obtain ⟨rfl, hmake, -⟩ := attempt_eq_error h
        obtain ⟨location, hdot⟩ := walk_dot_of_makeWithParents hparents
        refine ⟨e, ?_, Or.inl rfl⟩
        unfold makeWithParents
        rw [makeWithParents_of_walk_dot hdot]
        split <;> exact h
    · obtain ⟨rfl, -, -⟩ := attempt_eq_error h
      exact ⟨e, hfirst, Or.inl rfl⟩

/-- Whatever is on the disk lies in a directory of the disk. -/
def IsTree (disk : Disk) : Prop :=
  ∀ dir name, disk.get? (dir ++ [name]) ≠ none → disk.get? dir = some .directory

theorem walk_congr (h : ∀ location, after.get? location = before.get? location)
    (start : Location) (segments : List String) :
    after.walk start segments = before.walk start segments := by
  have hstep : after.step = before.step := by
    funext location segment
    rw [step, step, h]
  rw [walk, walk, hstep]

theorem Uncovers.exists_get?_ne {along : List String → Prop}
    (h : Uncovers start along before after) :
    ∃ location, after.get? location ≠ before.get? location := by
  obtain ⟨names, -, hbefore, hafter⟩ := h
  by_contra hsame
  push Not at hsame
  rw [walk_congr hsame, hbefore] at hafter
  cases hafter

theorem get?_eq_file_iff {bytes : ByteArray} {readOnly : Bool} :
    disk.get? location = some (.file bytes readOnly) ↔
      disk.file? location = some (bytes, readOnly) := by
  unfold file?
  rcases disk.get? location with _ | _ | _ <;> simp

theorem MakesAlong.get?_eq_directory_of_ne_none {root : Location} {along : List String → Prop}
    (h : MakesAlong root along before after) (hthere : before.get? location ≠ none)
    (hentry : after.get? location = some .directory) :
    before.get? location = some .directory := by
  rcases h.changed location with hsame | ⟨hnone, -⟩
  · rw [← hsame, hentry]
  · exact absurd hnone hthere

theorem step_ne_notADirectory (h : disk.get? location = some .directory) (segment : String) :
    disk.step location segment ≠ .error .notADirectory := by
  unfold step
  rw [h]
  dsimp only
  split_ifs <;> simp

theorem eq_of_step {segment : String} (hdown : segment ≠ "..")
    (h : disk.step location segment = .ok dir) : dir = location ∨ dir = location ++ [segment] := by
  unfold step at h
  split at h
  · cases h
  · cases h
  · rw [if_neg hdown] at h
    split_ifs at h
    · exact Or.inl (Except.ok.inj h).symm
    · exact Or.inr (Except.ok.inj h).symm

/-- A walk down a tree that ends at a file did so before directories were made, since those are not
above a file that was there. -/
theorem MakesAlong.walk_notADirectory {root : Location} {along : List String → Prop}
    (h : MakesAlong root along before after) (htree : before.IsTree) (hdown : ".." ∉ names)
    (hwalk : after.walk start names = .error .notADirectory) :
    before.walk start names = .error .notADirectory ∧ before.get? start ≠ none := by
  induction names generalizing start with
  | nil => cases hwalk
  | cons name names ih =>
    rcases hentry : after.get? start with _ | ⟨bytes, readOnly⟩ | _
    · have hstep : after.step start name = .error .notFound := by rw [step, hentry]
      rw [walk_cons_of_error hstep] at hwalk
      cases hwalk
    · have hbefore : before.get? start = some (.file bytes readOnly) := by
        rw [get?_eq_file_iff, ← h.file?_eq, ← get?_eq_file_iff]
        exact hentry
      have hstep : before.step start name = .error .notADirectory := by rw [step, hbefore]
      exact ⟨walk_cons_of_error hstep names, by simp [hbefore]⟩
    · cases hstep : after.step start name with
      | error e =>
        rw [walk_cons_of_error hstep] at hwalk
        obtain rfl := Except.error.inj hwalk
        exact absurd hstep (step_ne_notADirectory hentry name)
      | ok place =>
        rw [walk_cons_of_ok hstep] at hwalk
        obtain ⟨hrest, hplace⟩ := ih (fun hmem => hdown (List.mem_cons_of_mem name hmem)) hwalk
        have hbefore : before.get? start = some .directory := by
          rcases eq_of_step (fun hup => hdown (hup ▸ List.mem_cons_self)) hstep with rfl | rfl
          · exact h.get?_eq_directory_of_ne_none hplace hentry
          · exact htree start name hplace
        have hagain : before.step start name = .ok place := by
          rw [← hstep, step, step, hbefore, hentry]
        rw [walk_cons_of_ok hagain]
        exact ⟨hrest, by simp [hbefore]⟩

private theorem exists_front_of_dropLast {components : List String} (hne : components ≠ [])
    (h : names <+: components.dropLast) : ∃ last, names ++ [last] <+: components := by
  obtain ⟨rest, hrest⟩ := h
  rw [← List.dropLast_append_getLast hne, ← hrest, List.append_assoc]
  cases rest with
  | nil => exact ⟨components.getLast hne, List.prefix_refl _⟩
  | cons name rest =>
    refine ⟨name, ?_⟩
    rw [List.prefix_append_right_inj, List.cons_append, List.cons_prefix_cons]
    exact ⟨rfl, List.nil_prefix⟩

theorem mem_segments_of_mem_components {path : Path} (h : name ∈ path.components) :
    name ∈ path.segments := by
  unfold Path.components at h
  split at h
  · cases h
  · next first rest hsegments =>
    rw [hsegments]
    rcases List.mem_append.mp h with hfirst | hrest
    · split at hfirst
      · cases hfirst
      · exact List.mem_cons.mpr (Or.inl (List.mem_singleton.mp hfirst))
    · exact List.mem_cons_of_mem first (List.mem_of_mem_filter hrest)

theorem mem_segments_of_madeAlong {path : Path} (h : path.MadeAlong names) (hname : name ∈ names) :
    name ∈ path.segments := by
  rcases h with rfl | hfront
  · exact hname
  · exact mem_segments_of_mem_components (List.dropLast_subset _ (hfront.subset hname))

/-- Directories that were made are not made again, whatever is put on the disk meanwhile. -/
theorem makeDirectories_of_ok {path : Path} {made : Disk}
    (h : disk.makeDirectories path = (.ok (), made)) (hgrows : Grows made after) :
    after.makeDirectories path = (.ok (), after) := by
  have hmade : Grows disk made := by
    have hmakes := MakesAlong.of_makeDirectories disk path
    rw [h] at hmakes
    exact hmakes.grows
  unfold makeDirectories at h ⊢
  split at h
  · next hempty => rw [if_pos hempty]
  · next hempty =>
    rw [if_neg hempty]
    split at h
    · cases h
    · obtain ⟨location, hdot⟩ := walk_dot_of_makeWithParents h
      rw [hgrows.start_eq, hmade.start_eq]
      exact makeWithParents_of_walk_dot (hgrows.walk hdot) _

theorem makeDirectories_of_find {path : Path} (h : disk.find path = .ok (dir, .directory)) :
    disk.makeDirectories path = (.ok (), disk) := by
  obtain ⟨haccept, -, hentry⟩ := find_eq_ok_iff.mp h
  have hdot := walk_dot_eq_ok_iff.mpr ⟨(opens_of_find h).1, hentry⟩
  unfold makeDirectories
  split
  · rfl
  · rw [haccept]
    exact makeWithParents_of_walk_dot hdot _

/-- Directories that could not be made cannot be made on the disk that this left, and nothing more
changes. The reason is another one only if some parent was made before the failure, and on a tree
only if the path leads up again from there. -/
theorem makeDirectories_of_error {path : Path} {made : Disk}
    (h : disk.makeDirectories path = (.error e, made)) :
    ∃ e', made.makeDirectories path = (.error e', made) ∧
      (e' = e ∨ e = .alreadyExists ∧ e' = .notADirectory ∧
        (∃ location, made.get? location ≠ disk.get? location) ∧
        (disk.IsTree → ".." ∈ path.segments)) := by
  have hmade : MakesAlong (disk.start path) path.MadeAlong disk made := by
    have hmakes := MakesAlong.of_makeDirectories disk path
    rwa [h] at hmakes
  unfold makeDirectories at h ⊢
  split at h
  · cases h
  next hempty =>
  rw [if_neg hempty]
  split at h
  · next y haccept =>
    obtain ⟨he, -⟩ := Prod.mk.inj h
    exact ⟨y, rfl, Or.inl (Except.error.inj he)⟩
  · rw [List.tail_reverse] at h ⊢
    rw [hmade.grows.start_eq]
    obtain ⟨e', hagain, hreason⟩ := makeWithParents_again (fun names y hne hfront hdot => by
      rw [List.reverse_reverse] at hfront
      have hcomponents : path.components ≠ [] := by
        rintro hnil
        rw [hnil] at hne
        exact hne rfl
      obtain ⟨last, hlast⟩ := exists_front_of_dropLast hcomponents hfront
      exact walk_segments_of_components hlast hdot) h
    refine ⟨e', hagain, ?_⟩
    rcases hreason with rfl | ⟨hexists, hreason, huncovers⟩
    · exact Or.inl rfl
    · refine Or.inr ⟨hexists, hreason, huncovers.exists_get?_ne, fun htree => ?_⟩
      obtain ⟨names, halong, hmissing, hfile⟩ := huncovers
      rw [List.reverse_reverse] at halong
      by_contra hdown
      have hsame := (hmade.walk_notADirectory htree
        (fun hup => hdown (mem_segments_of_madeAlong halong hup)) hfile).1
      cases hmissing.symm.trans hsame

end Disk

end ModuleSource
