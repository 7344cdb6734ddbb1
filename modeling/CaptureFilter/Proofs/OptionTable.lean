import CaptureFilter.Proofs.CheckedCommand
import Mathlib.Data.List.DropRight

/-!
# The options of a command as a table

A command keeps its options in a list that is searched and changed in place. This module says what
is in the list without a search: everything is a function of the settings that were written, in
order, since the options were last replaced. The list has each flag once, where it was first
written, with what was written for it last, be that a value or none.

Results:
* `Setting.insert_table`: one more setting changes the table as it changes the list.
* `Command.options_attemptAll`: the options of a command are the table of what was written.
* `Command.attemptAll_table`: what follows for commands under any changes.
-/

namespace CaptureFilter.Capture

/-! ## Tables -/

namespace Setting

/-- What was written last for a flag. -/
def lastValue (ws : List Setting) (f : String) : Option String :=
  (ws.reverse.find? (·.flag = f)).bind value

/-- The table of settings that were written in order: each flag once, in the order in which the
flags occur first, with what was written for it last. -/
def table (ws : List Setting) : List Setting :=
  (ws.map flag).eraseDups.map fun f => ⟨f, lastValue ws f⟩

theorem eraseDups_concat (fs : List String) (f : String) :
    (fs ++ [f]).eraseDups = if f ∈ fs then fs.eraseDups else fs.eraseDups ++ [f] := by
  rw [List.eraseDups_append]
  split_ifs with h <;> simp [List.removeAll, List.eraseDups_cons, h]

theorem nodup_eraseDups (fs : List String) : fs.eraseDups.Nodup := by
  induction fs using List.reverseRecOn with
  | nil => simp
  | append_singleton fs f ih =>
    rw [eraseDups_concat]
    split_ifs with h
    · exact ih
    · simpa using List.Nodup.concat (by rwa [List.mem_eraseDups]) ih

theorem lastValue_concat (ws : List Setting) (s : Setting) :
    lastValue (ws ++ [s]) = Function.update (lastValue ws) s.flag s.value := by
  funext f
  by_cases h : s.flag = f
  · subst h
    simp [lastValue]
  · rw [Function.update_of_ne (Ne.symm h)]
    simp [lastValue, h]

/-- Where the flags are all different, setting an option changes what belongs to its flag. -/
theorem insert_map {fs : List String} (h : fs.Nodup) (v : String → Option String) (s : Setting) :
    insert s (fs.map fun f => ⟨f, v f⟩) =
      (if s.flag ∈ fs then fs else fs ++ [s.flag]).map
        fun f => ⟨f, Function.update v s.flag s.value f⟩ := by
  induction fs with
  | nil => simp [insert]
  | cons f fs ih =>
    rw [List.nodup_cons] at h
    rw [List.map_cons, insert]
    by_cases hf : f = s.flag
    · subst hf
      have hrest : ∀ g ∈ fs, Function.update v s.flag s.value g = v g := by
        intro g hg
        refine Function.update_of_ne ?_ _ _
        rintro rfl
        exact h.1 hg
      rw [if_pos rfl, if_pos List.mem_cons_self, List.map_cons, Function.update_self]
      exact congrArg (s :: ·) (List.map_congr_left fun g hg => by rw [hrest g hg])
    · have hf' : s.flag ≠ f := Ne.symm hf
      rw [if_neg hf, ih h.2]
      split_ifs <;> simp_all

/-- One more setting changes the table as it changes the list. -/
theorem insert_table (ws : List Setting) (s : Setting) :
    insert s (table ws) = table (ws ++ [s]) := by
  rw [table, table, insert_map (nodup_eraseDups _), lastValue_concat, List.map_append,
    List.map_singleton, eraseDups_concat]
  simp only [List.mem_eraseDups]

theorem insertAll_eq_table (ws : List Setting) : insertAll [] ws = table ws := by
  induction ws using List.reverseRecOn with
  | nil => rfl
  | append_singleton ws s ih => rw [← insert_table, ← ih, insertAll, insertAll, List.foldl_concat]

@[simp] theorem map_flag_table (ws : List Setting) :
    (table ws).map flag = (ws.map flag).eraseDups := by
  simp [table, Function.comp_def]

theorem mem_table {ws : List Setting} {s : Setting} :
    s ∈ table ws ↔ s.flag ∈ ws.map flag ∧ lastValue ws s.flag = s.value := by
  rw [table, List.mem_map]
  constructor
  · rintro ⟨f, hf, rfl⟩
    exact ⟨List.mem_eraseDups.mp hf, rfl⟩
  · rintro ⟨hflag, hvalue⟩
    exact ⟨s.flag, List.mem_eraseDups.mpr hflag, by rw [hvalue]⟩

/-- A setting is in the table if it was written and its flag was not written again. -/
theorem mem_table_iff_last {ws : List Setting} {s : Setting} :
    s ∈ table ws ↔ ∃ before after, ws = before ++ s :: after ∧ s.flag ∉ after.map flag := by
  have hlast : s ∈ table ws ↔ ws.reverse.find? (·.flag = s.flag) = some s := by
    rw [mem_table, lastValue]
    cases hfind : ws.reverse.find? (·.flag = s.flag) with
    | none =>
      have hnone : s.flag ∉ ws.map flag := by simpa using hfind
      simp [hnone]
    | some t =>
      have hmem : t ∈ ws := by simpa using List.mem_of_find?_eq_some hfind
      have hflag : t.flag = s.flag := by simpa using List.find?_some hfind
      have hoccurs : s.flag ∈ ws.map flag := List.mem_map.mpr ⟨t, hmem, hflag⟩
      rw [Option.bind_some, Option.some_inj]
      exact ⟨fun h => by cases s; cases t; simp_all, fun h => ⟨hoccurs, by rw [h]⟩⟩
  rw [hlast, List.find?_eq_some_iff_append]
  constructor
  · rintro ⟨-, as, bs, hws, hnone⟩
    refine ⟨bs.reverse, as.reverse, ?_, by simpa using hnone⟩
    rw [← List.reverse_reverse ws, hws]
    simp
  · rintro ⟨before, after, rfl, hnone⟩
    exact ⟨by simp, after.reverse, before.reverse, by simp, by simpa using hnone⟩

end Setting

/-! ## What was written -/

/-- The settings that a row of changes has written since the options were last replaced: those that
took their place, then those of the checked changes behind that were made. Where the options were
never replaced, all changes count. -/
def Change.written (chs : List Change) : List Setting :=
  (chs.rdropWhile isChecked).getLast?.elim [] settings ++
    ((chs.rtakeWhile isChecked).filter isSound).flatMap settings

namespace Change

theorem written_concat_options (chs : List Change) (ss : List Setting) :
    written (chs ++ [.options ss]) = ss := by
  have hopen : ¬ (options ss).isChecked = true := by simp [isChecked]
  rw [written, List.rdropWhile_concat_neg _ _ _ hopen, List.rtakeWhile_concat_neg _ _ _ hopen]
  simp [settings]

theorem written_concat {ch : Change} (h : ch.isChecked = true) (chs : List Change) :
    written (chs ++ [ch]) = written chs ++ if ch.isSound then ch.settings else [] := by
  rw [written, written, List.rdropWhile_concat_pos _ _ _ h, List.rtakeWhile_concat_pos _ _ _ h,
    List.filter_append, List.flatMap_append, List.append_assoc]
  cases hsound : ch.isSound <;> simp [hsound]

end Change

namespace Command

theorem options_attemptAll {c : Command} (hc : c.options = []) (chs : List Change) :
    (c.attemptAll chs).options = Setting.table (Change.written chs) := by
  induction chs using List.reverseRecOn with
  | nil => exact hc
  | append_singleton chs ch ih =>
    rw [attemptAll_concat]
    cases hchecked : ch.isChecked with
    | false =>
      cases ch with
      | options ss =>
        -- what was written before is forgotten on both sides
        rw [attempt_of_isSound _ rfl, Change.written_concat_options]
        exact Setting.insertAll_eq_table ss
      | _ => cases hchecked
    | true =>
      rw [Change.written_concat hchecked]
      cases hsound : ch.isSound with
      | false =>
        obtain ⟨e, he⟩ := attempt_of_not_isSound (c.attemptAll chs) hsound
        simp [he, ih]
      | true =>
        rw [attempt_of_isSound _ hsound, if_pos rfl]
        rcases change_of_isChecked hchecked (c.attemptAll chs) with
          ⟨text, rfl, hchange⟩ | ⟨s, hs, hchange⟩
        · simp [hchange, Change.settings, ih]
        · rw [hchange, hs, ← Setting.insert_table, ih]

/-- A command whose flags are all different keeps its options when they are put in their own
place. -/
theorem attempt_options_self {c : Command} (h : (c.options.map Setting.flag).Nodup) :
    (c.attempt (.options c.options)).1 = c := by
  have hself : Setting.insertAll [] c.options = [] ++ c.options := Setting.insertAll_eq_append h
  rw [attempt_of_isSound c rfl, change, hself, List.nil_append]

/-- Take a new command and any row of changes, some of which may fail and some of which may replace
all options. Its options are the table of what was written since the last replacement: each flag
that occurs there stands once, in the order of first occurrence, with the value, or without one, of
its last occurrence. So the command takes its own options without a change, and its words are the
flags of the table, each with its value, and the filter. -/
theorem attemptAll_table (config : Config) (chs : List Change) :
    let c := (ofConfig config).attemptAll chs
    let ws := Change.written chs
    (∀ (d : Command) ch, (d.attempt ch).2 = .ok () ↔ ch.isSound = true) ∧
    c.options = Setting.table ws ∧
    (c.options.map Setting.flag).Nodup ∧
    c.options.map Setting.flag = (ws.map Setting.flag).eraseDups ∧
    (∀ s, s ∈ c.options ↔
      ∃ before after, ws = before ++ s :: after ∧ s.flag ∉ after.map Setting.flag) ∧
    (c.attempt (.options c.options)).1 = c ∧
    c.words =
      if c.filter = "" then .error .emptyFilter
      else .ok ((Setting.table ws).flatMap (fun s => s.flag :: s.value.toList) ++ [c.filter]) := by
  intro c ws
  have hoptions : c.options = Setting.table ws := options_attemptAll rfl chs
  have hflags : c.options.map Setting.flag = (ws.map Setting.flag).eraseDups := by
    rw [hoptions, Setting.map_flag_table]
  have hnodup : (c.options.map Setting.flag).Nodup := hflags ▸ Setting.nodup_eraseDups _
  refine ⟨fun d ch => attempt_eq_ok_iff, hoptions, hnodup, hflags, fun s => ?_,
    attempt_options_self hnodup, ?_⟩
  · rw [hoptions, Setting.mem_table_iff_last]
  · rw [words, hoptions]
    rfl

/-- A flag that is replaced twice loses and gets its value in its first place, and a setter changes
what a replacement has put there. -/
example :
    ((ofConfig .default).attemptAll
      [.fileSize "1", .options [⟨"-n", some "x"⟩, ⟨"-s", none⟩, ⟨"-n", none⟩], .snapLength "96",
        .snapLength "9x"]).options = [⟨"-n", none⟩, ⟨"-s", some "96"⟩] := by
  decide

end Command

end CaptureFilter.Capture
