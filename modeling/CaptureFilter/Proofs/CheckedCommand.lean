import CaptureFilter.Proofs.Changes
import CaptureFilter.Proofs.Patterns
import Mathlib.Control.Monad.Basic
import Mathlib.Data.List.Induction

/-!
# Commands under checked changes

All changes but one check what they set. A command that only checked changes have reached keeps
that: whatever texts were given, and whether or not the changes were made, its options are of five
kinds, at most one of each, and each value has the form that its kind asks for. The last change that
was made for a flag explains the option, so what holds of an option is what that change has checked.

A change is answered from the command it was asked of, so that answer alone does not say what would
be left of a change that fails half way. Here every change is also carried out in place, where what
was written stays written when a check fails. The two accounts agree.

The rule for capture files is not followed for all paths: a file whose name is one character is
refused unless it is in the root.

Results:
* `Command.attempt_eq_inPlace`: the two accounts of a change agree.
* `Registry.exists_contains_eq`: registries give every answer that a look at a name can have.
* `Command.exists_setBy`: an option was set by the last change that was made for its flag.
* `Command.attemptAll_checked`: what holds of a command under checked changes.
* `Command.attempt_file_iff`: which capture files are taken, and for which the rule is followed.
-/

namespace CaptureFilter.Capture

/-! ## Changes in place -/

/-- Work on a command. -/
abbrev Work := InPlace Error Command

namespace Work

/-- Stops with an error unless a check holds. -/
def require (check : Bool) (e : Error) : Work Unit :=
  if check then pure () else throw e

/-- Writes an option into the list of options. -/
def put (s : Setting) : Work Unit :=
  modify fun c => { c with options := Setting.insert s c.options }

/-- Writes options in order. -/
def putAll : List Setting → Work Unit
  | [] => pure ()
  | s :: ss => do
    put s
    putAll ss

/-- Carries out a change. -/
def change : Change → Work Unit
  | .options settings => do
    modify fun c => { c with options := [] }
    putAll settings
  | .interface registry name => do
    require (isInterfaceName name) (.invalidInterface name)
    require (registry.contains name) (.unknownInterface name)
    put ⟨"-i", some name⟩
  | .outputFile path => do
    require (isPath path) (.invalidPath path)
    put ⟨"-w", some path⟩
  | .inputFile path => do
    require (isPath path) (.invalidPath path)
    put ⟨"-r", some path⟩
  | .fileSize value => do
    require (Text.isDigits value) (.invalidNumber "file size" value)
    put ⟨"-C", some value⟩
  | .snapLength value => do
    require (Text.isDigits value) (.invalidNumber "snap length" value)
    put ⟨"-s", some value⟩
  | .filter text => do
    require (text ≠ "") .emptyFilter
    modify fun c => { c with filter := text }

theorem on_require_bind (check : Bool) (e : Error) (w : Work Unit) (c : Command) :
    (do require check e; w : Work Unit).on c = if check then w.on c else (c, .error e) := by
  cases check <;> rfl

theorem on_putAll (ss : List Setting) (c : Command) :
    (putAll ss).on c = ({ c with options := Setting.insertAll c.options ss }, .ok ()) := by
  induction ss generalizing c with
  | nil => rfl
  | cons s ss ih => exact ih { c with options := Setting.insert s c.options }

end Work

namespace Command

/-- Carried out in place, a change leaves the command and the answer that it has. -/
theorem attempt_eq_inPlace (c : Command) (ch : Change) : c.attempt ch = (Work.change ch).on c := by
  cases ch with
  | options settings => exact (Work.on_putAll settings { c with options := [] }).symm
  | interface registry name =>
    rw [Work.change, Work.on_require_bind, Work.on_require_bind, attempt, apply]
    cases isInterfaceName name <;> cases registry.contains name <;> rfl
  | outputFile path | inputFile path =>
    rw [Work.change, Work.on_require_bind, attempt, apply, setPath]
    cases isPath path <;> rfl
  | fileSize value | snapLength value =>
    rw [Work.change, Work.on_require_bind, attempt, apply, setNumber]
    cases Text.isDigits value <;> rfl
  | filter text =>
    rw [Work.change, Work.on_require_bind, attempt, apply]
    by_cases h : text = ""
    · simp [h]
    · simp only [h, ne_eq, not_false_eq_true, decide_true, if_true, if_false]
      rfl

end Command

/-! ## Rows of changes -/

/-- Whether what a change sets is checked. -/
def Change.isChecked : Change → Bool
  | options _ => false
  | _ => true

/-- Whatever may tell which names exist answers the look at one name as some list of names does. -/
theorem Registry.exists_contains_eq (knows : String → Bool) (name : String) :
    ∃ registry : Registry, registry.contains name = knows name := by
  cases h : knows name with
  | true => exact ⟨.listed [name], by simp [contains]⟩
  | false => exact ⟨.listed [], by simp [contains]⟩

namespace Command

/-- A checked change sets the filter, or one option. -/
theorem change_of_isChecked {ch : Change} (h : ch.isChecked = true) (c : Command) :
    (∃ text, ch = .filter text ∧ c.change ch = { c with filter := text }) ∨
    ∃ s, ch.settings = [s] ∧ c.change ch = { c with options := Setting.insert s c.options } := by
  cases ch with
  | options settings => cases h
  | filter text => exact .inl ⟨text, rfl, rfl⟩
  | _ => exact .inr ⟨_, rfl, rfl⟩

/-- A change in a row was made and set an option, and none that was made later set the same flag. -/
structure SetBy (chs : List Change) (ch : Change) (s : Setting) : Prop where
  isSound : ch.isSound = true
  settings : ch.settings = [s]
  last : ∃ before after, chs = before ++ ch :: after ∧
    ∀ later ∈ after, later.isSound = true → ∀ t ∈ later.settings, t.flag ≠ s.flag

theorem SetBy.mem {chs : List Change} {ch : Change} {s : Setting} (h : SetBy chs ch s) :
    ch ∈ chs := by
  obtain ⟨before, after, rfl, -⟩ := h.last
  simp

theorem SetBy.concat {chs : List Change} {ch later : Change} {s : Setting} (h : SetBy chs ch s)
    (hlater : later.isSound = true → ∀ t ∈ later.settings, t.flag ≠ s.flag) :
    SetBy (chs ++ [later]) ch s := by
  obtain ⟨before, after, rfl, hafter⟩ := h.last
  refine ⟨h.isSound, h.settings, before, after ++ [later], by simp, fun ch' hch' => ?_⟩
  rcases List.mem_append.mp hch' with hch' | hch'
  · exact hafter ch' hch'
  · rw [List.mem_singleton.mp hch']
    exact hlater

/-- Checked changes from a command without options leave no flag twice, and each option they leave
was set by one of them. -/
theorem exists_setBy {c : Command} (hc : c.options = []) {chs : List Change}
    (h : ∀ ch ∈ chs, ch.isChecked = true) :
    ((c.attemptAll chs).options.map Setting.flag).Nodup ∧
      ∀ s ∈ (c.attemptAll chs).options, ∃ ch, SetBy chs ch s := by
  -- on the last change, since that one explains the option whatever was set for its flag before
  induction chs using List.reverseRecOn with
  | nil => simp [hc]
  | append_singleton chs ch ih =>
    obtain ⟨hnodup, hset⟩ := ih fun d hd => h d (by simp [hd])
    rw [attemptAll_concat]
    cases hsound : ch.isSound with
    | false =>
      obtain ⟨e, he⟩ := attempt_of_not_isSound (c.attemptAll chs) hsound
      rw [he]
      refine ⟨hnodup, fun s hs => ?_⟩
      obtain ⟨d, hd⟩ := hset s hs
      exact ⟨d, hd.concat fun hmade => by simp [hsound] at hmade⟩
    | true =>
      rw [attempt_of_isSound _ hsound]
      rcases change_of_isChecked (h ch (by simp)) (c.attemptAll chs) with
        ⟨text, rfl, hchange⟩ | ⟨t, ht, hchange⟩
      · rw [hchange]
        refine ⟨hnodup, fun s hs => ?_⟩
        obtain ⟨d, hd⟩ := hset s hs
        exact ⟨d, hd.concat fun _ u hu => by cases hu⟩
      · rw [hchange]
        refine ⟨Setting.nodup_map_flag_insert hnodup t, fun s hs => ?_⟩
        rcases (Setting.mem_insert_iff hnodup).mp hs with rfl | ⟨hs, hne⟩
        · exact ⟨ch, hsound, ht, chs, [], rfl, by simp⟩
        · obtain ⟨d, hd⟩ := hset s hs
          refine ⟨d, hd.concat fun _ u hu => ?_⟩
          rw [ht, List.mem_singleton] at hu
          rw [hu]
          exact Ne.symm hne

end Command

/-! ## The form of options -/

/-- The form of an option that a checked change sets: which flags there are, and what stands behind
each of them. -/
inductive Setting.Form : Setting → Prop
  | interface {name : String} : HasNameForm name.toList → Form ⟨"-i", some name⟩
  | outputFile {path : String} : WellFormedPath path → Form ⟨"-w", some path⟩
  | inputFile {path : String} : WellFormedPath path → Form ⟨"-r", some path⟩
  | fileSize {value : String} : value ≠ "" → (∀ d ∈ value.toList, d.isDigit = true) →
    Form ⟨"-C", some value⟩
  | snapLength {value : String} : value ≠ "" → (∀ d ∈ value.toList, d.isDigit = true) →
    Form ⟨"-s", some value⟩

namespace Command

theorem SetBy.form {chs : List Change} {ch : Change} {s : Setting} (h : SetBy chs ch s)
    (hch : ch.isChecked = true) : s.Form := by
  have hsound := h.isSound
  have hs := h.settings
  cases ch with
  | options settings => cases hch
  | filter text => cases hs
  | interface registry name =>
    obtain rfl := List.singleton_inj.mp hs
    rw [Change.isSound, Bool.and_eq_true] at hsound
    exact .interface (isInterfaceName_iff.mp hsound.1)
  | outputFile path =>
    obtain rfl := List.singleton_inj.mp hs
    exact .outputFile (isPath_iff.mp hsound).1
  | inputFile path =>
    obtain rfl := List.singleton_inj.mp hs
    exact .inputFile (isPath_iff.mp hsound).1
  | fileSize value =>
    obtain rfl := List.singleton_inj.mp hs
    obtain ⟨hne, hdigits⟩ := Text.isDigits_iff.mp hsound
    exact .fileSize hne hdigits
  | snapLength value =>
    obtain rfl := List.singleton_inj.mp hs
    obtain ⟨hne, hdigits⟩ := Text.isDigits_iff.mp hsound
    exact .snapLength hne hdigits

theorem SetBy.exists_registry {chs : List Change} {ch : Change} {v : String}
    (h : SetBy chs ch ⟨"-i", some v⟩) (hch : ch.isChecked = true) :
    ∃ registry, registry.contains v = true ∧
      SetBy chs (.interface registry v) ⟨"-i", some v⟩ := by
  have hsound := h.isSound
  have hs := h.settings
  cases ch with
  | options settings => cases hch
  | interface registry name =>
    obtain rfl : name = v := by simpa [Change.settings] using hs
    rw [Change.isSound, Bool.and_eq_true] at hsound
    exact ⟨registry, hsound.2, h⟩
  | _ => simp [Change.settings] at hs

/-! ## The filter -/

/-- A change gives a command a filter, or leaves it with the one it has. -/
theorem filter_attempt_ne (c : Command) (ch : Change) :
    (c.attempt ch).1.filter ≠ "" ↔
      c.filter ≠ "" ∨ ∃ text, ch = .filter text ∧ (Change.filter text).isSound = true := by
  cases hsound : ch.isSound with
  | false =>
    obtain ⟨e, he⟩ := attempt_of_not_isSound c hsound
    have hnone : ¬ ∃ text, ch = .filter text ∧ (Change.filter text).isSound = true := by
      rintro ⟨text, rfl, htext⟩
      simp [hsound] at htext
    simp [he, hnone]
  | true =>
    rw [attempt_of_isSound c hsound]
    cases ch with
    | filter text =>
      have hne : text ≠ "" := by simpa [Change.isSound] using hsound
      simp [change, hsound, hne]
    | _ => simp [change]

theorem filter_attemptAll_ne {c : Command} (hc : c.filter = "") (chs : List Change) :
    (c.attemptAll chs).filter ≠ "" ↔
      ∃ text, .filter text ∈ chs ∧ (Change.filter text).isSound = true := by
  induction chs using List.reverseRecOn with
  | nil => simp [hc]
  | append_singleton chs ch ih =>
    rw [attemptAll_concat, filter_attempt_ne, ih]
    simp only [List.mem_append, List.mem_singleton, or_and_right, exists_or, eq_comm]

theorem eq_error_of_filter_eq {c : Command} (h : c.filter = "") :
    c.words = .error .emptyFilter ∧ c.shellLine = .error .emptyFilter ∧
      c.invocation = .error .emptyFilter := by
  have hwords : c.words = .error .emptyFilter := filtered_of_eq h _
  refine ⟨hwords, filtered_of_eq h _, ?_⟩
  rw [invocation, hwords]
  rfl

theorem exists_eq_ok_of_filter_ne {c : Command} (h : c.filter ≠ "") :
    (∃ ws, c.words = .ok ws) ∧ (∃ line, c.shellLine = .ok line) ∧ ∃ i, c.invocation = .ok i := by
  have hwords : c.words = .ok _ := filtered_of_ne h _
  refine ⟨⟨_, hwords⟩, ⟨_, filtered_of_ne h _⟩, ?_⟩
  rw [invocation, hwords]
  exact ⟨_, rfl⟩

/-! ## Commands under checked changes -/

/-- Take a new command and any row of checked changes with any texts and registries, some of which
may fail. No flag stands twice among the options it leaves, each option has a value of the form that
its flag asks for, and the interface was looked up in a registry that knows it. A change that fails
leaves the command as it was, also when it is carried out in place. Nothing can be made of the
command until a filter was set, and everything from then on. -/
theorem attemptAll_checked (config : Config) {chs : List Change}
    (h : ∀ ch ∈ chs, ch.isChecked = true) :
    let c := (ofConfig config).attemptAll chs
    let filtered := ∃ text, .filter text ∈ chs ∧ (Change.filter text).isSound = true
    (c.options.map Setting.flag).Nodup ∧
    (∀ s ∈ c.options, s.Form) ∧
    (∀ v, ⟨"-i", some v⟩ ∈ c.options → ∃ registry, registry.contains v = true ∧
      SetBy chs (.interface registry v) ⟨"-i", some v⟩) ∧
    (∀ (d : Command) ch, d.attempt ch = (Work.change ch).on d ∧
      ((d.attempt ch).2 = .ok () ↔ ch.isSound = true) ∧
      ∀ e, (d.attempt ch).2 = .error e → (d.attempt ch).1 = d) ∧
    (¬ filtered → c.words = .error .emptyFilter ∧ c.shellLine = .error .emptyFilter ∧
      c.invocation = .error .emptyFilter) ∧
    (filtered → c.filter ≠ "" ∧ (∃ ws, c.words = .ok ws) ∧ (∃ line, c.shellLine = .ok line) ∧
      ∃ i, c.invocation = .ok i) := by
  intro c filtered
  obtain ⟨hnodup, hset⟩ := exists_setBy (c := ofConfig config) rfl h
  have hfiltered : c.filter ≠ "" ↔ filtered := filter_attemptAll_ne rfl chs
  refine ⟨hnodup, fun s hs => ?_, fun v hv => ?_, fun d ch => ⟨?_, attempt_eq_ok_iff, ?_⟩,
    fun hnone => ?_, fun hsome => ?_⟩
  · obtain ⟨ch, hch⟩ := hset s hs
    exact hch.form (h ch hch.mem)
  · obtain ⟨ch, hch⟩ := hset _ hv
    exact hch.exists_registry (h ch hch.mem)
  · exact d.attempt_eq_inPlace ch
  · intro e he
    cases hsound : ch.isSound with
    | true => simp [attempt_of_isSound d hsound] at he
    | false =>
      obtain ⟨e', he'⟩ := attempt_of_not_isSound d hsound
      rw [he']
  · exact eq_error_of_filter_eq (not_not.mp (mt hfiltered.mp hnone))
  · have hne := hfiltered.mpr hsome
    exact ⟨hne, exists_eq_ok_of_filter_ne hne⟩

/-- Changes that fail before, between and behind those that are made, and an interface that is set
twice, with a registry of its own each time. -/
theorem attemptAll_checked_of_two_registries :
    let chs : List Change :=
      [.filter "", .interface (.machine []) "any", .outputFile "relative", .filter "port 80",
        .interface (.listed ["lo", "eth0.100"]) "eth0.100", .interface (.listed ["lo"]) "eth1",
        .inputFile "/tmp/in.pcap"]
    let c := (ofConfig .default).attemptAll chs
    (∀ ch ∈ chs, ch.isChecked = true) ∧
      c.options = [⟨"-i", some "eth0.100"⟩, ⟨"-r", some "/tmp/in.pcap"⟩] ∧
      (∀ s ∈ c.options, s.Form) ∧
      (∃ registry, registry.contains "eth0.100" = true ∧
        SetBy chs (.interface registry "eth0.100") ⟨"-i", some "eth0.100"⟩) ∧
      c.filter ≠ "" ∧ ∃ ws, c.words = .ok ws := by
  intro chs c
  have hchecked : ∀ ch ∈ chs, ch.isChecked = true := List.forall_iff_forall_mem.mp (by decide)
  have hoptions : c.options = [⟨"-i", some "eth0.100"⟩, ⟨"-r", some "/tmp/in.pcap"⟩] := by decide
  obtain ⟨-, hform, hregistry, -, -, hfilter⟩ := attemptAll_checked .default hchecked
  obtain ⟨hne, hwords, -⟩ := hfilter ⟨"port 80", by decide, by decide⟩
  exact ⟨hchecked, hoptions, hform, hregistry _ (by rw [hoptions]; decide), hne, hwords⟩

/-! ## Capture files -/

/-- What the rule for capture files asks of the answer to a change that names one: it is made if and
only if the path is well formed, and otherwise refuses the path and changes nothing. -/
def FollowsRule (c : Command) (path : String) (r : Command × Except Error Unit) : Prop :=
  (r.2 = .ok () ↔ WellFormedPath path) ∧
    (¬ WellFormedPath path → r = (c, .error (.invalidPath path)))

/-- A change that names a capture file is made, or refuses the path and changes nothing. -/
theorem attempt_file_cases (c : Command) {path : String} {ch : Change}
    (h : ch ∈ [Change.outputFile path, .inputFile path]) :
    (isPath path = true ∧ (c.attempt ch).2 = .ok ()) ∨
      (isPath path = false ∧ c.attempt ch = (c, .error (.invalidPath path))) := by
  rw [List.mem_pair] at h
  rcases h with rfl | rfl
  · rw [attempt, apply, setPath]
    cases isPath path <;> simp
  · rw [attempt, apply, setPath]
    cases isPath path <;> simp

/-- The check of a capture file is the match of its pattern. It takes the well-formed paths but for
those of several components whose last one is a single character; any other path is refused and
leaves the command as it was. So the rule is followed for all paths but those. -/
theorem attempt_file_iff (c : Command) (path : String) :
    (isPath path = true ↔ path.toList ∈ pathPattern) ∧
    ∀ ch ∈ [Change.outputFile path, .inputFile path],
      ((c.attempt ch).2 = .ok () ↔ WellFormedPath path ∧ ¬ EndsShort path) ∧
      ((c.attempt ch).2 ≠ .ok () → c.attempt ch = (c, .error (.invalidPath path)) ∧
        (Work.change ch).on c = (c, .error (.invalidPath path))) ∧
      (FollowsRule c path (c.attempt ch) ↔ ¬ (WellFormedPath path ∧ EndsShort path)) := by
  refine ⟨isPath_iff_mem, fun ch hch => ?_⟩
  have hpath : isPath path = true ↔ WellFormedPath path ∧ ¬ EndsShort path := isPath_iff
  rw [← attempt_eq_inPlace, FollowsRule]
  rcases attempt_file_cases c hch with ⟨htaken, hok⟩ | ⟨hrefused, herror⟩
  · obtain ⟨hrule, hlong⟩ := hpath.mp htaken
    simp [hok, hrule, hlong]
  · have hnot : ¬ (WellFormedPath path ∧ ¬ EndsShort path) := by
      rw [← hpath, hrefused]
      decide
    have hshort : WellFormedPath path → EndsShort path :=
      fun hrule => not_not.mp fun hlong => hnot ⟨hrule, hlong⟩
    rw [herror]
    refine ⟨⟨nofun, fun h => absurd h hnot⟩, fun _ => ⟨rfl, rfl⟩, ?_⟩
    constructor
    · rintro ⟨hiff, -⟩ ⟨hrule, -⟩
      exact nomatch hiff.mpr hrule
    · intro h
      exact ⟨⟨nofun, fun hrule => absurd ⟨hrule, hshort hrule⟩ h⟩, fun _ => rfl⟩

/-- A file with a name of one character, in a directory, is refused. -/
theorem attempt_file_of_short_end :
    let c := ofConfig .default
    WellFormedPath "/a/b" ∧ c.attempt (.outputFile "/a/b") = (c, .error (.invalidPath "/a/b")) ∧
      ¬ FollowsRule c "/a/b" (c.attempt (.outputFile "/a/b")) := by
  intro c
  have hrefused : c.attempt (.outputFile "/a/b") = (c, .error (.invalidPath "/a/b")) := by decide
  have hrule : WellFormedPath "/a/b" :=
    ⟨by decide, by simp [List.infix_cons_iff], fun _ => by decide⟩
  refine ⟨hrule, hrefused, fun hfollows => ?_⟩
  have hok := hfollows.1.mpr hrule
  rw [hrefused] at hok
  cases hok

end Command

end CaptureFilter.Capture
