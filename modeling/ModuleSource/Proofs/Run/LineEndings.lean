import ModuleSource.Proofs.Run.Effect
import ModuleSource.Proofs.Text.LineEndings

/-!
Files in two forms. A file whose text is written with a byte order mark and carriage returns gives
the names and the module that it gives without them, and fails as it fails without them: with the
same signature, or at the same line and record and with the same token.
-/

namespace ModuleSource

open Text

namespace NameRule

theorem namesIn_withReturns (rule : NameRule) {cs : List Char} (h : '\r' ∉ cs) :
    rule.namesIn (withReturns cs) = rule.namesIn cs := by
  cases rule with
  | lines => exact lines_withReturns h
  | tagged tag => rw [namesIn, words_withReturns h, namesIn]
  | leading => rw [namesIn, lines_withReturns h, namesIn]
  | scripts => rfl

theorem names_marked (rule : NameRule) {text : String} (h : Unmarked text) :
    rule.names (marked text).toUTF8 = rule.names text.toUTF8 := by
  have hdecoded (text : String) : decode? text.toUTF8.toList = some text.toList := by
    rw [toList_toUTF8, decode?_utf8]
  have hnames : rule.namesIn (dropMark (marked text).toList) =
      rule.namesIn (dropMark text.toList) := by
    rw [marked, String.toList_ofList, dropMark_mark, dropMark_of_head? h.noMark,
      rule.namesIn_withReturns h.noReturn]
  cases rule with
  | scripts => rw [names, names, Source.ofBytes_marked h]
  | lines => simp only [names, hdecoded, hnames]
  | tagged tag => simp only [names, hdecoded, hnames]
  | leading => simp only [names, hdecoded, hnames]

end NameRule

theorem moduleOfBytes_marked (context : Context) (signal : StopSignal) (input : Path)
    {text : String} (h : Unmarked text) :
    moduleOfBytes context signal input (marked text).toUTF8 =
      moduleOfBytes context signal input text.toUTF8 := by
  unfold moduleOfBytes openFile
  rw [Source.ofBytes_marked h]

namespace Disk

variable {disk after : Disk} {place : Location} {directory : Path} {name : String}
  {bytes bytes' : ByteArray} {readOnly : Bool} {mishaps : Mishaps}

/-- A file is read as it was published. -/
theorem read_of_publish (hname : IsName name)
    (h : disk.publish directory name bytes mishaps = .ok after) :
    after.read (directory.join name) = .ok bytes := by
  obtain ⟨place, hfind, -⟩ := find_of_publish hname h
  exact read_of_find hfind

section OtherContents

variable (h : disk.get? place = some (.file bytes readOnly))
include h

theorem ne_nil_of_get?_file : place ≠ [] := by
  rintro rfl
  cases h

/-- What a file contains makes no difference to where paths lead. -/
theorem reach_insert_file (bytes' : ByteArray) (path : Path) :
    (disk.insert place (.file bytes' readOnly)).reach path = disk.reach path := by
  have hstep : (disk.insert place (.file bytes' readOnly)).step = disk.step := by
    funext location segment
    unfold step
    by_cases hlocation : location = place
    · rw [hlocation, get?_insert_self disk (ne_nil_of_get?_file h), h]
    · rw [get?_insert_of_ne disk (ne_nil_of_get?_file h) _ hlocation]
  unfold reach walk
  rw [hstep]
  rfl

theorem get?_insert_file_eq_directory_iff (bytes' : ByteArray) (location : Location) :
    (disk.insert place (.file bytes' readOnly)).get? location = some .directory ↔
      disk.get? location = some .directory := by
  by_cases hlocation : location = place
  · rw [hlocation, get?_insert_self disk (ne_nil_of_get?_file h), h]
    exact ⟨nofun, nofun⟩
  · rw [get?_insert_of_ne disk (ne_nil_of_get?_file h) _ hlocation]

/-- Nor to what can be published, and where. -/
theorem publish_insert_file (bytes' : ByteArray) (directory : Path) (name : String)
    (written : ByteArray) (mishaps : Mishaps) :
    (∃ e, disk.publish directory name written mishaps = .error e ∧
        (disk.insert place (.file bytes' readOnly)).publish directory name written mishaps =
          .error e) ∨
      ∃ location,
        disk.publish directory name written mishaps =
          .ok (disk.insert location (.file written)) ∧
        (disk.insert place (.file bytes' readOnly)).publish directory name written mishaps =
          .ok ((disk.insert place (.file bytes' readOnly)).insert location (.file written)) := by
  obtain ⟨create, fill, rename⟩ := mishaps
  have hroot : (disk.insert place (.file bytes' readOnly)).fromRoot directory =
      disk.fromRoot directory := rfl
  unfold publish replace locate
  rw [hroot, reach_insert_file h, reach_insert_file h]
  rcases create with _ | e
  swap
  · exact Or.inl ⟨e, rfl, rfl⟩
  rcases ((disk.fromRoot directory).join passingName).accept with e | ⟨⟩
  · exact Or.inl ⟨e, rfl, rfl⟩
  rcases disk.reach (directory.join passingName) with e | _
  · exact Or.inl ⟨e, rfl, rfl⟩
  rcases fill with _ | ⟨e, got⟩
  swap
  · exact Or.inl ⟨e, rfl, rfl⟩
  rcases rename with _ | e
  swap
  · exact Or.inl ⟨e, rfl, rfl⟩
  rcases (directory.join name).accept with e | ⟨⟩
  · exact Or.inl ⟨e, rfl, rfl⟩
  rcases disk.reach (directory.join name) with e | location
  · exact Or.inl ⟨e, rfl, rfl⟩
  dsimp only
  rw [if_congr (get?_insert_file_eq_directory_iff h bytes' location) rfl rfl]
  by_cases hdirectory : disk.get? location = some .directory
  · rw [if_pos hdirectory, if_pos hdirectory]
    exact Or.inl ⟨.isADirectory, rfl, rfl⟩
  · rw [if_neg hdirectory, if_neg hdirectory]
    exact Or.inr ⟨location, rfl, rfl⟩

end OtherContents

end Disk

/-- A file gives the same names in both forms by every rule, and becomes the same module, written to
the same place, or fails in the same way. -/
theorem reading_ignores_mark_and_returns {text : String} (htext : Unmarked text) {disk : Disk}
    {input : Path} {place : Location} {readOnly : Bool}
    (hfind : disk.find input = .ok (place, .file text.toUTF8 readOnly)) :
    let disk' := disk.insert place (.file (marked text).toUTF8 readOnly)
    disk'.find input = .ok (place, .file (marked text).toUTF8 readOnly) ∧
    (∀ rule : NameRule, rule.namesAt disk' input = rule.namesAt disk input) ∧
    ∀ (context : Context) (signal : StopSignal) (output : Path) (mishaps : Disk.Mishaps),
      (∃ e, produceModule context signal input output disk mishaps = (.error e, disk) ∧
        produceModule context signal input output disk' mishaps = (.error e, disk')) ∨
      ∃ (format : Format) (target : Path) (location : Location) (written : ByteArray),
        produceModule context signal input output disk mishaps =
          (.ok (format, target), disk.insert location (.file written)) ∧
        produceModule context signal input output disk' mishaps =
          (.ok (format, target), disk'.insert location (.file written)) ∧
        target = output.join format.moduleFile ∧
        (disk.insert location (.file written)).read target = .ok written ∧
        (disk'.insert location (.file written)).read target = .ok written := by
  intro disk'
  obtain ⟨haccept, hreach, hentry⟩ := Disk.find_eq_ok_iff.mp hfind
  have hfind' : disk'.find input = .ok (place, .file (marked text).toUTF8 readOnly) := by
    refine Disk.find_eq_ok_iff.mpr ⟨haccept, ?_, ?_⟩
    · rw [Disk.reach_insert_file hentry, hreach]
    · exact Disk.get?_insert_self disk (Disk.ne_nil_of_get?_file hentry) _
  refine ⟨hfind', fun rule => ?_, fun context signal output mishaps => ?_⟩
  · rw [NameRule.namesAt, NameRule.namesAt, Disk.read_of_find hfind, Disk.read_of_find hfind']
    exact rule.names_marked htext
  · unfold produceModule
    rw [hfind, hfind']
    by_cases hstop : signal 0 0 = true
    · rw [if_pos hstop, if_pos hstop]
      exact Or.inl ⟨_, rfl, rfl⟩
    rw [if_neg hstop, if_neg hstop]
    dsimp only
    rw [moduleOfBytes_marked context signal input htext]
    rcases moduleOfBytes context signal input text.toUTF8 with e | ⟨format, generated⟩
    · exact Or.inl ⟨e, rfl, rfl⟩
    dsimp only
    rcases Disk.publish_insert_file hentry (marked text).toUTF8 output format.moduleFile
      generated.toUTF8 mishaps with ⟨e, hfailed, hfailed'⟩ | ⟨location, hpublish, hpublish'⟩
    · rw [hfailed, hfailed']
      exact Or.inl ⟨_, rfl, rfl⟩
    · rw [hpublish, hpublish']
      exact Or.inr ⟨format, _, location, _, rfl, rfl, rfl,
        Disk.read_of_publish format.isName_moduleFile hpublish,
        Disk.read_of_publish format.isName_moduleFile hpublish'⟩

/-- A script file with an empty line, whose last line has no ending and a word for an operand: in
the other form the same token is at fault, in the same line and record. -/
theorem reading_ignores_mark_and_returns_malformed :
    let text := "scriptsfile version 1\n\n1\na -1 1\n1 1 x"
    let disk : Disk := ⟨[(["in", "scripts.txt"], .file text.toUTF8), (["in"], .directory)], []⟩
    let disk' := disk.insert ["in", "scripts.txt"] (.file (marked text).toUTF8)
    let input : Path := ⟨"in/scripts.txt"⟩
    Unmarked text ∧ disk.find input = .ok (["in", "scripts.txt"], .file text.toUTF8) ∧
      disk'.find input = .ok (["in", "scripts.txt"], .file (marked text).toUTF8) ∧
      produceModule ⟨⟨.vanilla, []⟩, .empty⟩ .never input ⟨"in"⟩ disk' =
        (.error (.decode input (.malformedStatement 0 (.malformed 5 "x" .int))), disk') := by
  intro text disk disk' input
  have htext : Unmarked text := by decide +kernel
  have hfind : disk.find input = .ok (["in", "scripts.txt"], .file text.toUTF8) := by
    decide +kernel
  have hfailed : produceModule ⟨⟨.vanilla, []⟩, .empty⟩ .never input ⟨"in"⟩ disk =
      (.error (.decode input (.malformedStatement 0 (.malformed 5 "x" .int))), disk) := by
    decide +kernel
  obtain ⟨hfind', -, halike⟩ := reading_ignores_mark_and_returns htext hfind
  refine ⟨htext, hfind, hfind', ?_⟩
  rcases halike ⟨⟨.vanilla, []⟩, .empty⟩ .never ⟨"in"⟩ {} with
    ⟨e, hplain, hmarked⟩ | ⟨format, target, location, written, hplain, -⟩
  · obtain rfl := Except.error.inj (Prod.mk.inj (hfailed.symm.trans hplain)).1
    exact hmarked
  · cases hfailed.symm.trans hplain

end ModuleSource
