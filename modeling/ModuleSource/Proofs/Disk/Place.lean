import Mathlib.Tactic.Common
import ModuleSource.Disk.Basic
import ModuleSource.Proofs.Text.Encoding

/-!
Where paths lead. A name below a path is looked up in one directory, the one that the path opens,
and what a path leads to stays where it is as long as no directory goes away. Entries are told apart
by their locations, so everything said here of a disk is said of `get?`.
-/

namespace ModuleSource

open Text

/-- A name that a step of a path takes as it is. -/
def IsName (name : String) : Prop :=
  name.toList ≠ [] ∧ '/' ∉ name.toList ∧ name ≠ "." ∧ name ≠ ".." ∧
    name.utf8ByteSize ≤ maxNameBytes

instance : DecidablePred IsName := fun name =>
  inferInstanceAs (Decidable (name.toList ≠ [] ∧ '/' ∉ name.toList ∧ name ≠ "." ∧ name ≠ ".." ∧
    name.utf8ByteSize ≤ maxNameBytes))

namespace Path

/-- A slash ends one piece of a path and starts another. -/
private theorem pieces_append (xs ys : List Char) :
    (breakAt (· == '/') (xs ++ '/' :: ys)).filter (!·.isEmpty) =
      (breakAt (· == '/') xs).filter (!·.isEmpty) ++
        (breakAt (· == '/') ys).filter (!·.isEmpty) := by
  have go (piece : List Char) :
      (breakAt.go (· == '/') piece (xs ++ '/' :: ys)).filter (!·.isEmpty) =
      (breakAt.go (· == '/') piece xs).filter (!·.isEmpty) ++
        (breakAt (· == '/') ys).filter (!·.isEmpty) := by
    induction xs generalizing piece with
    | nil =>
      cases piece with
      | nil => simp [breakAt.go, breakAt]
      | cons a piece => simp [breakAt.go, breakAt]
    | cons x xs ih =>
      by_cases hx : (x == '/') = true
      · rw [List.cons_append, breakAt.go, breakAt.go, if_pos hx, if_pos hx, List.filter_cons,
          List.filter_cons, ih]
        split <;> rfl
      · rw [List.cons_append, breakAt.go, breakAt.go, if_neg hx, if_neg hx, ih]
  exact go []

private theorem breakAt_name {name : String} (h : IsName name) :
    breakAt (· == '/') name.toList = [name.toList] := by
  have hall : ∀ c ∈ name.toList, (!(c == '/')) = true := by
    intro c hc
    have hne : c ≠ '/' := fun heq => h.2.1 (heq ▸ hc)
    simp [hne]
  rw [breakAt_of_ne_nil h.1, List.takeWhile_eq_self_iff.mpr hall,
    List.dropWhile_eq_nil_iff.mpr hall]
  rfl

theorem segments_join (path : Path) {name : String} (h : IsName name) :
    (path.join name).segments = path.segments ++ [name] := by
  have hlast :
      ((breakAt (· == '/') name.toList).filter (!·.isEmpty)).map String.ofList = [name] := by
    simp [breakAt_name h, h.1]
  unfold join
  split
  · next hempty =>
    have htext : path.text = "" := by simpa using hempty
    rw [segments, segments, htext, hlast]
    rfl
  split
  · next hends =>
    -- The slash at the end of the path is the break between the two.
    obtain ⟨front, hfront⟩ : ∃ front, path.text.toList = front ++ ['/'] :=
      List.getLast?_eq_some_iff.mp (by simpa [endsInSlash] using hends)
    rw [segments, segments, String.toList_append, hfront, List.append_assoc, List.singleton_append,
      pieces_append, pieces_append, List.map_append, hlast]
    simp
  · rw [segments, segments, String.toList_append, String.toList_append]
    simp only [String.reduceToList, List.append_assoc, List.singleton_append]
    rw [pieces_append, List.map_append, hlast]

theorem join_inj {path : Path} {name other : String} (h : path.join name = path.join other) :
    name = other := by
  unfold join at h
  split at h
  · exact congrArg text h
  split at h <;> simpa [← String.toList_inj] using congrArg text h

theorem isAbsolute_join (path : Path) {name : String} (h : IsName name) :
    (path.join name).isAbsolute = path.isAbsolute := by
  unfold join
  split
  · next hempty =>
    have htext : path.text = "" := by simpa using hempty
    cases hname : name.toList with
    | nil => exact absurd hname h.1
    | cons c cs =>
      have hc : c ≠ '/' := fun heq => h.2.1 (by simp [hname, heq])
      simp [isAbsolute, htext, hname, hc]
  · next hempty =>
    have htext : path.text.toList ≠ [] := by simpa using hempty
    obtain ⟨c, cs, hcs⟩ := List.exists_cons_of_ne_nil htext
    split <;> simp [isAbsolute, hcs]

theorem text_join_ne_empty (path : Path) {name : String} (h : IsName name) :
    (path.join name).text.isEmpty = false := by
  have hname : name ≠ "" := fun heq => h.1 (by simp [heq])
  unfold join
  split <;> [skip; split] <;> simp [hname]

theorem endsInSlash_join (path : Path) {name : String} (h : IsName name) :
    (path.join name).endsInSlash = false := by
  obtain ⟨c, hc⟩ : ∃ c, name.toList.getLast? = some c :=
    Option.ne_none_iff_exists'.mp fun hnone => h.1 (List.getLast?_eq_none_iff.mp hnone)
  have hne : c ≠ '/' := fun heq => h.2.1 (heq ▸ List.mem_of_getLast? hc)
  unfold join
  split <;> [skip; split] <;> simp [endsInSlash, List.getLast?_append, List.getLast?_cons, hc, hne]

end Path

namespace Disk

variable {disk : Disk} {path : Path} {name : String} {location other dir : Location} {entry : Entry}

@[simp]
theorem get?_nil (disk : Disk) : disk.get? [] = some .directory := rfl

theorem get?_of_ne_nil (disk : Disk) (h : location ≠ []) :
    disk.get? location = disk.entries.lookup location := by
  rw [get?, if_neg (by simpa using h)]

private theorem lookup_insertEntry (entries : List (Location × Entry)) :
    (insertEntry location entry entries).lookup other =
      if other = location then some entry else entries.lookup other := by
  have lookup_cons (place : Location) (found : Entry) (rest : List (Location × Entry)) :
      ((place, found) :: rest).lookup other =
        if other = place then some found else rest.lookup other := by
    by_cases h : other = place
    · simp [h]
    · have hbeq : (other == place) = false := by simpa using h
      rw [List.lookup_cons, hbeq, if_neg h]
  induction entries with
  | nil => exact lookup_cons location entry []
  | cons first entries ih =>
    obtain ⟨place, found⟩ := first
    unfold insertEntry
    by_cases hplace : place = location
    · rw [if_pos hplace, lookup_cons, lookup_cons, hplace]
      split <;> rfl
    · rw [if_neg hplace, lookup_cons, lookup_cons, ih]
      by_cases h : other = place
      · rw [if_pos h, if_pos h, if_neg (h ▸ hplace)]
      · rw [if_neg h, if_neg h]

theorem get?_insert (disk : Disk) (h : location ≠ []) (entry : Entry) (other : Location) :
    (disk.insert location entry).get? other =
      if other = location then some entry else disk.get? other := by
  by_cases hother : other = []
  · rw [hother, get?_nil, get?_nil, if_neg h.symm]
  · rw [get?_of_ne_nil _ hother, get?_of_ne_nil _ hother]
    exact lookup_insertEntry disk.entries

theorem get?_insert_self (disk : Disk) (h : location ≠ []) (entry : Entry) :
    (disk.insert location entry).get? location = some entry := by
  rw [get?_insert disk h, if_pos rfl]

theorem get?_insert_of_ne (disk : Disk) (h : location ≠ []) (entry : Entry)
    (hother : other ≠ location) : (disk.insert location entry).get? other = disk.get? other := by
  rw [get?_insert disk h, if_neg hother]

/-- Where the names below a path are looked up. The empty path stands for the working directory. -/
def folder (disk : Disk) (path : Path) : Except AccessFailure Location :=
  disk.walk (disk.start path) path.segments

/-- The names below a path are those of the directory at a location. -/
def Opens (disk : Disk) (path : Path) (dir : Location) : Prop :=
  disk.folder path = .ok dir ∧ disk.get? dir = some .directory

theorem Opens.unique {dir' : Location} (h : disk.Opens path dir) (h' : disk.Opens path dir') :
    dir = dir' :=
  Except.ok.inj (h.1.symm.trans h'.1)

/-- A name is looked up only in a directory, and then found below it. -/
theorem step_name_eq_ok_iff (h : IsName name) : disk.step dir name = .ok location ↔
    disk.get? dir = some .directory ∧ location = dir ++ [name] := by
  obtain ⟨-, -, hdot, hdots, hshort⟩ := h
  have hlong : ¬ maxNameBytes < name.utf8ByteSize := Nat.not_lt.mpr hshort
  unfold step
  rcases disk.get? dir with _ | _ | _ <;> simp [hdot, hdots, hlong, eq_comm]

theorem reach_join (disk : Disk) (path : Path) (h : IsName name) : disk.reach (path.join name) =
    (disk.folder path >>= fun place => disk.step place name) := by
  have hstart : disk.start (path.join name) = disk.start path := by
    rw [start, start, path.isAbsolute_join h]
  rw [reach, if_neg (by simp [path.text_join_ne_empty h]), path.endsInSlash_join h,
    path.segments_join h, hstart]
  simp [folder, walk]

theorem reach_join_eq_ok_iff (h : IsName name) : disk.reach (path.join name) = .ok location ↔
    ∃ dir, disk.Opens path dir ∧ location = dir ++ [name] := by
  rw [reach_join disk path h]
  constructor
  · intro hreach
    obtain ⟨place, hfolder, hstep⟩ : ∃ place, disk.folder path = .ok place ∧
        disk.step place name = .ok location := by
      cases hfolder : disk.folder path with
      | error e =>
        rw [hfolder] at hreach
        cases hreach
      | ok place =>
        rw [hfolder] at hreach
        exact ⟨place, rfl, hreach⟩
    obtain ⟨hdirectory, rfl⟩ := (step_name_eq_ok_iff h).mp hstep
    exact ⟨place, ⟨hfolder, hdirectory⟩, rfl⟩
  · rintro ⟨dir, ⟨hfolder, hdirectory⟩, rfl⟩
    rw [hfolder]
    exact (step_name_eq_ok_iff h).mpr ⟨hdirectory, rfl⟩

/-- A walk along which every step is resolved is a walk. -/
theorem walk_of_foldlM_resolveStep {segments : List String}
    (h : segments.foldlM disk.resolveStep location = .ok other) :
    disk.walk location segments = .ok other := by
  induction segments generalizing location with
  | nil => exact h
  | cons segment segments ih =>
    unfold walk
    rw [List.foldlM_cons] at h ⊢
    unfold resolveStep at h
    cases hstep : disk.step location segment with
    | error e =>
      rw [hstep] at h
      cases h
    | ok next =>
      rw [hstep] at h
      dsimp only at h
      split at h
      · cases h
      · exact ih h

/-- A path that can be resolved leads where it is resolved to. -/
theorem reach_of_resolve (h : disk.resolve path = .ok location) :
    disk.reach path = .ok location := by
  unfold resolve at h
  unfold reach
  split at h
  · cases h
  · next hempty =>
    rw [if_neg hempty]
    exact walk_of_foldlM_resolveStep h

/-- A path can be followed to its end by paths from the root. -/
def Resolves (disk : Disk) (path : Path) : Prop := ∃ location, disk.resolve path = .ok location

theorem same_eq_true_iff {a b : Path} : disk.same a b = true ↔
    ∃ location, disk.resolve a = .ok location ∧ disk.resolve b = .ok location ∧
      disk.get? location ≠ none := by
  unfold same
  rcases disk.resolve a with e | x
  · simp
  rcases disk.resolve b with e | y
  · simp
  · simp only [Bool.and_eq_true, beq_iff_eq, Except.ok.injEq, ← Option.isSome_iff_ne_none]
    constructor
    · rintro ⟨rfl, hthere⟩
      exact ⟨x, rfl, rfl, hthere⟩
    · rintro ⟨location, rfl, rfl, hthere⟩
      exact ⟨rfl, hthere⟩

/-- Two paths that lead to one thing are seen to do so, if they can be resolved. -/
theorem same_of_resolves {a b : Path} (ha : disk.Resolves a) (hb : disk.Resolves b)
    (hreach : disk.reach a = .ok location) (hreach' : disk.reach b = .ok location)
    (hthere : disk.get? location ≠ none) : disk.same a b = true := by
  obtain ⟨x, hx⟩ := ha
  obtain ⟨y, hy⟩ := hb
  obtain rfl : x = location := Except.ok.inj ((reach_of_resolve hx).symm.trans hreach)
  obtain rfl : y = x := Except.ok.inj ((reach_of_resolve hy).symm.trans hreach')
  exact same_eq_true_iff.mpr ⟨y, hx, hy, hthere⟩

/-- A name cannot be resolved if it has no path from the root that the system takes. -/
theorem not_resolves_join (h : IsName name) (hopens : disk.Opens path dir)
    (hlong : maxPathBytes < (Path.ofLocation (dir ++ [name])).text.utf8ByteSize) :
    ¬ disk.Resolves (path.join name) := by
  rintro ⟨location, hresolve⟩
  have hstart : disk.start (path.join name) = disk.start path := by
    rw [start, start, path.isAbsolute_join h]
  unfold resolve at hresolve
  rw [if_neg (by simp [path.text_join_ne_empty h]), path.endsInSlash_join h, path.segments_join h,
    if_neg Bool.false_ne_true, List.append_nil, hstart, List.foldlM_append] at hresolve
  rcases hfold : path.segments.foldlM disk.resolveStep (disk.start path) with e | place
  · rw [hfold] at hresolve
    cases hresolve
  obtain rfl : place = dir :=
    Except.ok.inj ((walk_of_foldlM_resolveStep hfold).symm.trans hopens.1)
  have hstep := (step_name_eq_ok_iff h).mpr ⟨hopens.2, rfl⟩
  have hlast : disk.resolveStep place name = .error .nameTooLong := by
    unfold resolveStep
    rw [hstep]
    exact if_pos ⟨by simp, hlong⟩
  rw [hfold] at hresolve
  change (List.foldlM disk.resolveStep place [name] : Except AccessFailure Location) = _ at hresolve
  rw [List.foldlM_cons, hlast] at hresolve
  cases hresolve

theorem locate_eq_ok_iff : disk.locate path = .ok location ↔
    path.accept = .ok () ∧ disk.reach path = .ok location := by
  unfold locate
  rcases path.accept with e | ⟨⟩ <;> simp

theorem find_eq_ok_iff : disk.find path = .ok (location, entry) ↔
    path.accept = .ok () ∧ disk.reach path = .ok location ∧ disk.get? location = some entry := by
  rw [← and_assoc, ← locate_eq_ok_iff]
  unfold find
  rcases disk.locate path with e | place
  · simp
  · dsimp only
    split
    · next found hfound =>
      simp only [Except.ok.injEq, Prod.mk.injEq]
      constructor
      · rintro ⟨rfl, rfl⟩
        exact ⟨rfl, hfound⟩
      · rintro ⟨rfl, hentry⟩
        exact ⟨rfl, Option.some.inj (hfound.symm.trans hentry)⟩
    · next hnone =>
      simp only [reduceCtorEq, false_iff, Except.ok.injEq, not_and]
      rintro rfl hentry
      exact absurd (hnone.symm.trans hentry) (by simp)

theorem isFile_iff : disk.isFile path = true ↔
    ∃ location bytes readOnly, disk.find path = .ok (location, .file bytes readOnly) := by
  unfold isFile
  rcases disk.find path with e | ⟨place, ⟨bytes, readOnly⟩ | _⟩ <;> simp

theorem isDirectory_iff : disk.isDirectory path = true ↔
    ∃ location, disk.find path = .ok (location, .directory) := by
  unfold isDirectory
  rcases disk.find path with e | ⟨place, ⟨bytes, readOnly⟩ | _⟩ <;> simp

/-- A disk on which every directory of another one is still there. -/
structure Grows (before after : Disk) : Prop where
  here : after.here = before.here
  directory : ∀ location, before.get? location = some .directory →
    after.get? location = some .directory

namespace Grows

variable {before after : Disk}

theorem trans {last : Disk} (h : Grows before after) (h' : Grows after last) :
    Grows before last :=
  ⟨h'.here.trans h.here, fun location hdir => h'.directory location (h.directory location hdir)⟩

theorem step (h : Grows before after) {segment : String}
    (hstep : before.step location segment = .ok other) :
    after.step location segment = .ok other := by
  unfold Disk.step at hstep ⊢
  rcases hplace : before.get? location with _ | _ | _
  · simp [hplace] at hstep
  · simp [hplace] at hstep
  · rw [hplace] at hstep
    rw [h.directory location hplace]
    exact hstep

theorem walk (h : Grows before after) {segments : List String}
    (hwalk : before.walk location segments = .ok other) :
    after.walk location segments = .ok other := by
  induction segments generalizing location with
  | nil => exact hwalk
  | cons segment segments ih =>
    unfold Disk.walk at hwalk ⊢
    rw [List.foldlM_cons] at hwalk ⊢
    cases hstep : before.step location segment with
    | error e =>
      rw [hstep] at hwalk
      cases hwalk
    | ok place =>
      rw [hstep] at hwalk
      rw [h.step hstep]
      exact ih hwalk

theorem start_eq (h : Grows before after) (path : Path) : after.start path = before.start path := by
  rw [start, start, h.here]

theorem opens (h : Grows before after) (hopens : before.Opens path dir) : after.Opens path dir := by
  refine ⟨?_, h.directory dir hopens.2⟩
  rw [folder, h.start_eq]
  exact h.walk hopens.1

theorem reach (h : Grows before after) (hreach : before.reach path = .ok location) :
    after.reach path = .ok location := by
  unfold Disk.reach at hreach ⊢
  split at hreach
  · cases hreach
  · next hempty =>
    rw [if_neg hempty, h.start_eq]
    exact h.walk hreach

/-- A path that leads somewhere is resolved on both disks or on none, since only the lengths of the
places on its way matter then. -/
theorem resolve_eq (h : Grows before after) (hreach : before.reach path = .ok location) :
    after.resolve path = before.resolve path := by
  have hfold (segments : List String) (start : Location)
      (hwalk : before.walk start segments = .ok location) :
      segments.foldlM after.resolveStep start = segments.foldlM before.resolveStep start := by
    induction segments generalizing start with
    | nil => rfl
    | cons segment segments ih =>
      unfold Disk.walk at hwalk
      rw [List.foldlM_cons] at hwalk ⊢
      rw [List.foldlM_cons]
      cases hstep : before.step start segment with
      | error e =>
        rw [hstep] at hwalk
        cases hwalk
      | ok next =>
        rw [hstep] at hwalk
        have hsame : after.resolveStep start segment = before.resolveStep start segment := by
          rw [resolveStep, resolveStep, hstep, h.step hstep]
        rw [hsame]
        cases hresolve : before.resolveStep start segment with
        | error e => rfl
        | ok place =>
          have hplace : place = next := by
            unfold resolveStep at hresolve
            rw [hstep] at hresolve
            dsimp only at hresolve
            split at hresolve
            · cases hresolve
            · exact (Except.ok.inj hresolve).symm
          rw [hplace]
          exact ih next hwalk
  unfold Disk.reach at hreach
  unfold Disk.resolve
  rw [h.start_eq]
  split at hreach
  · cases hreach
  · next hempty =>
    rw [if_neg hempty, if_neg hempty]
    exact hfold _ _ hreach

theorem resolves_iff (h : Grows before after) (hreach : before.reach path = .ok location) :
    after.Resolves path ↔ before.Resolves path := by
  rw [Resolves, Resolves, h.resolve_eq hreach]

theorem find (h : Grows before after) {found : Location × Entry}
    (hfind : before.find path = .ok found) (hsame : after.get? found.1 = before.get? found.1) :
    after.find path = .ok found := by
  obtain ⟨haccept, hreach, hentry⟩ := find_eq_ok_iff.mp hfind
  exact find_eq_ok_iff.mpr ⟨haccept, h.reach hreach, hsame.trans hentry⟩

end Grows

end Disk

end ModuleSource
