import ModuleSource.Proofs.Decoder.SelfDelimiting
import ModuleSource.Proofs.Statement.Legible

/-!
No script is lost in the module generated from a script file. The name of a script ends at the blank
after its comma, and this blank is the end of the line only if the script has no flags; a record
starts with a blank where the bracket after the last of them does not. So two files with the same
module hold the same scripts, spelt in any two ways.
-/

namespace ModuleSource

open Text Layout

namespace Layout.Script

/-- No operand of any statement stands in a slot for floating-point numbers. -/
def Integral (script : Script) : Prop := ∀ s ∈ script.body, s.Integral

instance (script : Script) : Decidable script.Integral :=
  inferInstanceAs (Decidable (∀ s ∈ script.body, s.Integral))

/-- A script of words and of statements that can be told from their lines. -/
structure Plain (table : OperatorSet) (script : Script) : Prop where
  name : IsWord script.name.toList
  flags : IsWord script.flags.toList
  body : ∀ s ∈ script.body, s.Plain table

variable {table : OperatorSet}

theorem Compiled.plain {ws : List (List Char)} {script : Script} (h : script.Compiled table ws)
    (htable : table.Readable) (hintegral : script.Integral) : script.Plain table := by
  obtain ⟨isName, isFlags, listed⟩ := h
  refine ⟨by rwa [String.toList_ofList], by rwa [String.toList_ofList], fun s hs => ?_⟩
  obtain ⟨ws, hcompiled⟩ := listed.of_mem hs
  exact hcompiled.plain htable (hintegral s hs)

/-- What is written of a script below the line with its name. -/
def belowName (lexicon : Lexicon) (script : Script) (r : List Char) : List Char :=
  "    ".toList ++ ((script.body.render lexicon "    ").toList ++ ("),\n\n".toList ++ r))

theorem render_append (lexicon : Lexicon) (script : Script) (r : List Char) :
    (script.render lexicon).toList ++ r = "  (\"".toList ++ ((script.name.toList ++ ['"', ',']) ++
      if script.flags = unflagged then '\n' :: script.belowName lexicon r
      else ' ' :: ((script.flags.toList ++ [',']) ++ '\n' :: script.belowName lexicon r)) := by
  unfold render
  split <;> simp [quoted, belowName]

theorem legible_render {lexicon : Lexicon} (hlexicon : lexicon.Distinct) (htable : table.Readable) :
    Legible (Plain table) fun script => (script.render lexicon).toList := by
  have hname {script : Script} (h : script.Plain table) :
      ∀ c ∈ script.name.toList ++ ['"', ','], isBlank c = false :=
    List.forall_mem_append.mpr ⟨h.name.2, solid_of_all rfl⟩
  have hflags {script : Script} (h : script.Plain table) :
      ∀ c ∈ script.flags.toList ++ [','], isBlank c = false :=
    List.forall_mem_append.mpr ⟨h.flags.2, solid_of_all rfl⟩
  intro a b ha hb r s h
  have hbody (h : a.belowName lexicon r = b.belowName lexicon s) : a.body = b.body ∧ r = s := by
    obtain ⟨hbody, hrest⟩ :=
      Block.legible_render hlexicon htable "    " ha.body hb.body (List.append_cancel_left h)
    exact ⟨hbody, List.append_cancel_left hrest⟩
  rw [render_append, render_append, List.append_cancel_left_eq] at h
  suffices a.name = b.name ∧ a.flags = b.flags ∧ a.body = b.body ∧ r = s by
    obtain ⟨name, flags, body⟩ := a
    obtain ⟨name', flags', body'⟩ := b
    obtain ⟨rfl, rfl, rfl, hrest⟩ := this
    exact ⟨rfl, hrest⟩
  -- Without flags the line ends after the name, with them a space stands there.
  by_cases hf : a.flags = unflagged
  · by_cases hf' : b.flags = unflagged
    · rw [if_pos hf, if_pos hf'] at h
      obtain ⟨heq, -, hrest⟩ :=
        append_cons_inj (hname ha) (hname hb) not_solid_feed not_solid_feed h
      exact ⟨String.toList_inj.mp (List.append_cancel_right heq), hf.trans hf'.symm, hbody hrest⟩
    · rw [if_pos hf, if_neg hf'] at h
      have hne := (append_cons_inj (hname ha) (hname hb) not_solid_feed not_solid_space h).2.1
      exact absurd hne (by decide)
  · by_cases hf' : b.flags = unflagged
    · rw [if_neg hf, if_pos hf'] at h
      have hne := (append_cons_inj (hname ha) (hname hb) not_solid_space not_solid_feed h).2.1
      exact absurd hne (by decide)
    · rw [if_neg hf, if_neg hf'] at h
      obtain ⟨heq, -, hrest⟩ :=
        append_cons_inj (hname ha) (hname hb) not_solid_space not_solid_space h
      obtain ⟨heq', -, hrest⟩ :=
        append_cons_inj (hflags ha) (hflags hb) not_solid_feed not_solid_feed hrest
      exact ⟨String.toList_inj.mp (List.append_cancel_right heq),
        String.toList_inj.mp (List.append_cancel_right heq'), hbody hrest⟩

end Layout.Script

namespace Format

theorem toList_render_scripts (lexicon : Lexicon) (records : List Script) :
    (scripts.render lexicon records).toList = (heading ++ "\nscripts = [\n").toList ++
      (records.flatMap (fun script => (script.render lexicon).toList) ++ "]\n".toList) := by
  change (frame [] "scripts" (records.map (Script.render lexicon))).toList = _
  simp only [frame, List.map_nil, String.join_nil, String.toList_append, String.toList_join,
    List.flatMap_map, List.append_assoc]
  rfl

theorem render_scripts_inj {table : OperatorSet} {lexicon : Lexicon} (hlexicon : lexicon.Distinct)
    (htable : table.Readable) {records records' : List Script}
    (hrecords : ∀ script ∈ records, script.Plain table)
    (hrecords' : ∀ script ∈ records', script.Plain table)
    (h : scripts.render lexicon records = scripts.render lexicon records') :
    records = records' := by
  have hstop (script : Script) (_ : script.Plain table) (r s : List Char) :
      (script.render lexicon).toList ++ r ≠ "]\n".toList ++ s := by
    simp [Script.render_append]
  have hlegible := (Script.legible_render hlexicon htable).flatMap _ hstop
  rw [← String.toList_inj, toList_render_scripts, toList_render_scripts,
    List.append_cancel_left_eq] at h
  exact (hlegible hrecords hrecords' (congrArg (· ++ []) h)).1

/-- Two script files with the same generated module hold the same scripts: their words, up to where
the decoder stops, are compiled from one list of records. The engine build is any of those there
are; no two names of a kind may be equal, and no operand may be a floating-point number. -/
theorem generate_scripts_lossless {engine : Engine} {lexicon : Lexicon}
    (hlexicon : lexicon.Distinct) {looks looks' : Nat} {s s' t t' : Source}
    {records records' : List Script}
    (hrun : (scripts.decoder (.ofEngine engine)).run .never looks s = (.ok records, s'))
    (hrun' : (scripts.decoder (.ofEngine engine)).run .never looks' t = (.ok records', t'))
    (hintegral : ∀ script ∈ records, script.Integral)
    (hintegral' : ∀ script ∈ records', script.Integral)
    (htext : (scripts.generate ⟨.ofEngine engine, lexicon⟩ .never looks s).1 =
      (scripts.generate ⟨.ofEngine engine, lexicon⟩ .never looks' t).1) :
    records = records' ∧ ∃ ws ws', s.tokens = ws ++ s'.tokens ∧ t.tokens = ws' ++ t'.tokens ∧
      Decoder.Counted (fun _ => Script.Compiled (.ofEngine engine)) ws records ∧
      Decoder.Counted (fun _ => Script.Compiled (.ofEngine engine)) ws' records := by
  have htable := OperatorSet.readable_ofEngine engine
  obtain ⟨ws, htokens, hcounted⟩ := (scripts_decoder_reads (.ofEngine engine)).of_run hrun
  obtain ⟨ws', htokens', hcounted'⟩ := (scripts_decoder_reads (.ofEngine engine)).of_run hrun'
  have hplain {ws : List (List Char)} {records : List Script}
      (hcounted : Decoder.Counted (fun _ => Script.Compiled (.ofEngine engine)) ws records)
      (hintegral : ∀ script ∈ records, script.Integral) :
      ∀ script ∈ records, script.Plain (.ofEngine engine) := by
    intro script hscript
    obtain ⟨ws, hcompiled⟩ := hcounted.of_mem hscript
    exact hcompiled.plain htable (hintegral script hscript)
  have hgenerate {looks : Nat} {s s' : Source} {records : List Script}
      (hrun : (scripts.decoder (.ofEngine engine)).run .never looks s = (.ok records, s')) :
      scripts.generate ⟨.ofEngine engine, lexicon⟩ .never looks s =
        (.ok (scripts.render lexicon records), s') := generate_eq_ok.mpr ⟨_, hrun, rfl⟩
  rw [hgenerate hrun, hgenerate hrun'] at htext
  obtain rfl := render_scripts_inj hlexicon htable (hplain hcounted hintegral)
    (hplain hcounted' hintegral') (Except.ok.inj htext)
  exact ⟨rfl, ws, ws', htokens, htokens', hcounted, hcounted'⟩

/-- Two spellings of a script with a named operand and a negated operator, and of an empty script.
-/
theorem generate_scripts_lossless_respelt :
    let lexicon := Lexicon.empty.insert .troop #["player", "hero"]
    let context : Context := ⟨.ofEngine .warband, lexicon⟩
    let s := Source.ofBytes "2\na -1 2 47 1 1 -30 2 5 -7\nb 0 0\n".toUTF8
    let t := Source.ofBytes "+2 a -1\n2\n+47 1 01\n-030 2 +5 -7 b\n0 -4".toUTF8
    ∃ records s' t', lexicon.Distinct ∧ (∀ script ∈ records, script.Integral) ∧
      (scripts.decoder (.ofEngine .warband)).run .never 0 s = (.ok records, s') ∧
      (scripts.decoder (.ofEngine .warband)).run .never 0 t = (.ok records, t') ∧
      (scripts.generate context .never 0 s).1 = (scripts.generate context .never 0 t).1 ∧
      ∃ ws ws', s.tokens = ws ++ s'.tokens ∧ t.tokens = ws' ++ t'.tokens ∧
        Decoder.Counted (fun _ => Script.Compiled (.ofEngine .warband)) ws records ∧
        Decoder.Counted (fun _ => Script.Compiled (.ofEngine .warband)) ws' records := by
  intro lexicon context s t
  let records : List Script :=
    [⟨"a", "-1",
      [⟨47, some ⟨47, "set_player_troop", .exactly 1, [.entity .troop]⟩, [.entity .troop 1]⟩,
        ⟨-30, some ⟨30, "ge", .exactly 2, [.int, .int]⟩, [.int 5, .int (-7)]⟩]⟩,
      ⟨"b", "0", []⟩]
  have hs : (scripts.decoder (.ofEngine .warband)).run .never 0 s =
      (.ok records, { pending := [], fetched := 3, line := 3, text := "b 0 0".toList }) := by
    decide +kernel
  have ht : (scripts.decoder (.ofEngine .warband)).run .never 0 t =
      (.ok records, { pending := [], fetched := 5, line := 5, text := "0 -4".toList }) := by
    decide +kernel
  have hintegral : ∀ script ∈ records, script.Integral := by decide
  have hsolid (kind : Entity) : ∀ name ∈ lexicon.table kind, name.toList.all isSolid = true := by
    cases kind <;> decide
  have hlexicon : lexicon.Distinct :=
    ⟨fun kind => by cases kind <;> decide,
      fun kind name hname => solid_of_all (hsolid kind name hname)⟩
  have htext :
      (scripts.generate context .never 0 s).1 = (scripts.generate context .never 0 t).1 := by
    rw [generate_eq_ok.mpr ⟨_, hs, rfl⟩, generate_eq_ok.mpr ⟨_, ht, rfl⟩]
  exact ⟨records, _, _, hlexicon, hintegral, hs, ht, htext,
    (generate_scripts_lossless hlexicon hs ht hintegral hintegral htext).2⟩

end Format

end ModuleSource
