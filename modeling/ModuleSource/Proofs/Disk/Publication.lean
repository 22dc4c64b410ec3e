import ModuleSource.Proofs.Disk.Effect

/-!
Publishing step by step. A file comes to its place by way of another one: an empty file of a passing
name is made in the directory, filled, and renamed, and where a step fails it is taken away again.
Whatever goes wrong, the steps end as publishing at once does: on the disk as it was, or with the
whole file in its place.
-/

namespace ModuleSource

namespace Disk

variable {disk : Disk} {directory : Path} {name passing : String} {location dir : Location}
  {bytes : ByteArray} {entry : Entry}

/-- The disk without what is at a location. -/
def remove (disk : Disk) (location : Location) : Disk :=
  { disk with entries := disk.entries.filter (·.1 ≠ location) }

/-- Moves the file at a location to the end of a path, in the place of a file that is there. -/
def rename (disk : Disk) (location : Location) (path : Path) : Except AccessFailure Disk :=
  match disk.locate path with
  | .error e => .error e
  | .ok target =>
    match disk.get? location, disk.get? target with
    | none, _ => .error .notFound
    | some _, some .directory => .error .isADirectory
    | some entry, _ => .ok ((disk.remove location).insert target entry)

/-- The steps of publishing a file. -/
def publishInSteps (disk : Disk) (mishaps : Mishaps) (passing : String) (directory : Path)
    (name : String) (bytes : ByteArray) : Except AccessFailure Unit × Disk :=
  match mishaps.create, ((disk.fromRoot directory).join passing).accept,
    disk.reach (directory.join passing) with
  | some e, _, _ => (.error e, disk)
  | none, .error e, _ => (.error e, disk)
  | none, .ok (), .error e => (.error e, disk)
  | none, .ok (), .ok place =>
    let made := disk.insert place (.file .empty)
    match mishaps.fill with
    | some (e, got) => (.error e, (made.insert place (.file got)).remove place)
    | none =>
      let filled := made.insert place (.file bytes)
      match mishaps.rename, filled.rename place (directory.join name) with
      | some e, _ => (.error e, filled.remove place)
      | none, .error e => (.error e, filled.remove place)
      | none, .ok renamed => (.ok (), renamed)

theorem insert_insert (disk : Disk) (location : Location) (entry entry' : Entry) :
    (disk.insert location entry).insert location entry' = disk.insert location entry' := by
  have loop (entries : List (Location × Entry)) :
      insertEntry location entry' (insertEntry location entry entries) =
        insertEntry location entry' entries := by
    induction entries with
    | nil => simp [insertEntry]
    | cons first entries ih =>
      obtain ⟨place, found⟩ := first
      by_cases hplace : place = location
      · simp [insertEntry, hplace]
      · simp [insertEntry, hplace, ih]
  simp only [insert, loop]

/-- What was put where nothing was can be taken away without a trace. -/
theorem remove_insert (hne : location ≠ []) (hfree : disk.get? location = none) (entry : Entry) :
    (disk.insert location entry).remove location = disk := by
  have loop (entries : List (Location × Entry)) (h : entries.lookup location = none) :
      (insertEntry location entry entries).filter (·.1 ≠ location) = entries := by
    induction entries with
    | nil => simp [insertEntry]
    | cons first entries ih =>
      obtain ⟨place, found⟩ := first
      have hplace : place ≠ location := by
        rintro rfl
        rw [List.lookup_cons_self] at h
        cases h
      have hbeq : (location == place) = false := by simpa using hplace.symm
      rw [List.lookup_cons, hbeq] at h
      rw [insertEntry, if_neg hplace, List.filter_cons_of_pos (by simpa using hplace), ih h]
  rw [get?_of_ne_nil disk hne] at hfree
  simp only [remove, insert, loop disk.entries hfree]

/-- A name that a file can have in passing, in place of the usual one. -/
structure IsPassing (name : String) : Prop where
  isName : IsName name
  bytes : name.utf8ByteSize = passingName.utf8ByteSize
  noNul : '\x00' ∉ name.toList

/-- Such a name, which nothing has in the directory. -/
structure Spare (disk : Disk) (directory : Path) (name : String) : Prop where
  isPassing : IsPassing name
  free : ∀ dir, disk.Opens directory dir → disk.get? (dir ++ [name]) = none

theorem IsPassing.accept_join (h : IsPassing passing) (path : Path) :
    (path.join passing).accept = (path.join passingName).accept := by
  obtain ⟨front, hfront⟩ : ∃ front, ∀ name, path.join name = ⟨front ++ name⟩ := by
    unfold Path.join
    split
    · exact ⟨"", fun name => by simp⟩
    split
    · exact ⟨path.text, fun name => rfl⟩
    · exact ⟨path.text ++ "/", fun name => rfl⟩
  have hnul : passing.toList.contains '\x00' = passingName.toList.contains '\x00' := by
    rw [List.contains_eq_mem, decide_eq_false h.noNul]
    decide
  simp only [Path.accept, hfront, String.toList_append, List.contains_append,
    String.utf8ByteSize_append, h.bytes, hnul]

/-- Names are looked up in vain for the same reason. -/
theorem reach_join_eq_error {a b : String} {e : AccessFailure} (ha : IsName a) (hb : IsName b)
    (h : disk.reach (directory.join a) = .error e) :
    disk.reach (directory.join b) = .error e := by
  rw [reach_join disk directory ha] at h
  rw [reach_join disk directory hb]
  cases hfolder : disk.folder directory with
  | error x =>
    rw [hfolder] at h
    exact h
  | ok place =>
    rw [hfolder] at h
    change disk.step place a = .error e at h
    change disk.step place b = .error e
    cases hentry : disk.get? place with
    | none => simpa only [step, hentry] using h
    | some entry =>
      cases entry with
      | file bytes => simpa only [step, hentry] using h
      | directory =>
        have hstep := (step_name_eq_ok_iff ha).mpr ⟨hentry, rfl⟩
        cases h.symm.trans hstep

/-- A filled file is renamed unless the system does not take the path or a directory is there. -/
theorem rename_passing (hopens : disk.Opens directory dir) (hname : IsName name)
    (hne : passing ≠ name) (hfree : disk.get? (dir ++ [passing]) = none) (bytes : ByteArray) :
    (disk.insert (dir ++ [passing]) (.file bytes)).rename (dir ++ [passing])
        (directory.join name) =
      match (directory.join name).accept with
      | .error e => .error e
      | .ok () =>
        if disk.get? (dir ++ [name]) = some .directory then .error .isADirectory
        else .ok (disk.insert (dir ++ [name]) (.file bytes)) := by
  have hplace : dir ++ [passing] ≠ [] := by simp
  have hother : dir ++ [name] ≠ dir ++ [passing] := by simpa using hne.symm
  have hgrows := (WritesIn.of_insert hopens (List.mem_singleton_self passing)
    (by simp [hfree]) bytes false).grows
  have hreach := (reach_join_eq_ok_iff hname).mpr ⟨dir, hgrows.opens hopens, rfl⟩
  unfold rename locate
  rw [hreach]
  cases (directory.join name).accept with
  | error e => rfl
  | ok _ =>
    dsimp only
    rw [get?_insert_self disk hplace, get?_insert_of_ne disk hplace _ hother,
      remove_insert hplace hfree]
    rcases disk.get? (dir ++ [name]) with _ | _ | _ <;> rfl

/-- The steps come to what publishing at once comes to. Where they fail, nothing is left of them. -/
theorem publishInSteps_eq (mishaps : Mishaps) (hspare : disk.Spare directory passing)
    (hname : IsName name) (hne : passing ≠ name) (bytes : ByteArray) :
    disk.publishInSteps mishaps passing directory name bytes =
      match disk.publish directory name bytes mishaps with
      | .error e => (.error e, disk)
      | .ok after => (.ok (), after) := by
  obtain ⟨create, fill, move⟩ := mishaps
  unfold publishInSteps
  rw [hspare.isPassing.accept_join]
  cases create with
  | some e => rfl
  | none =>
  cases haccept : ((disk.fromRoot directory).join passingName).accept with
  | error e =>
    unfold publish
    rw [haccept]
  | ok _ =>
  cases hreach : disk.reach (directory.join passing) with
  | error e =>
    unfold publish
    rw [haccept, reach_join_eq_error hspare.isPassing.isName isName_passingName hreach]
  | ok place =>
  obtain ⟨dir, hopens, rfl⟩ := (reach_join_eq_ok_iff hspare.isPassing.isName).mp hreach
  have hfree := hspare.free dir hopens
  have hplace : dir ++ [passing] ≠ [] := by simp
  dsimp only
  simp only [insert_insert, remove_insert hplace hfree, rename_passing hopens hname hne hfree]
  rw [publish_of_opens hopens hname]
  unfold refusal?
  rw [haccept]
  cases fill with
  | some failed => rfl
  | none =>
  cases move with
  | some e => rfl
  | none =>
  cases (directory.join name).accept with
  | error e => rfl
  | ok _ =>
  by_cases hdirectory : disk.get? (dir ++ [name]) = some .directory
  · simp only [if_pos hdirectory]
  · simp only [if_neg hdirectory]

end Disk

end ModuleSource
