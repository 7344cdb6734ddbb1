import CaptureFilter.CommandLine.Run
import CaptureFilter.Proofs.Alphabet
import CaptureFilter.Proofs.Arguments
import CaptureFilter.Proofs.Changes
import CaptureFilter.Proofs.ShellLine

/-!
# The command that a run prints

A run prints a line for a shell, made of the arguments, the recipe and what the machine has. Read by
a shell, the line is the program, each option that was given with the very text that it was given,
and the filter of the recipe. No text can pass for an option: the values are names, paths and
numbers that begin with no dash, and a filter begins with a letter or a parenthesis.

Results:
* `Request.changes_eq`: the changes of a run are one for each option given, then the filter.
* `Request.shellLine_eq_ok`: the line of a run and what is known of its parts.
* `split_output`: the words that a shell reads from what a run prints.
-/

namespace CaptureFilter

/-- The filter of a recipe that compiles is that of the draft it is compiled to. -/
theorem Draft.eq_render_of_compile {d draft : Draft} {steps : List Step} {filter : String}
    (h : d.compile steps = (draft, .ok filter)) :
    draft = (d.reset.run steps).1 ∧ filter = draft.render := by
  unfold Draft.compile at h
  rcases hrun : d.reset.run steps with ⟨d', e | _⟩
  · simp [hrun, Except.map] at h
  · simp only [hrun, Except.map, Prod.mk.injEq, Except.ok.injEq] at h
    obtain ⟨rfl, rfl⟩ := h
    exact ⟨rfl, rfl⟩

namespace CommandLine

open CaptureFilter.Capture (Change Command Config Setting isDashed isDashed_of_first)

/-! ## What was given -/

/-- The options of a capture and their flags, in the order in which a command gets them. -/
def captureFlags : List (Key × String) :=
  [(.interface, "-i"), (.write, "-w"), (.read, "-r"), (.snaplen, "-s"), (.fileSize, "-C")]

namespace Request

variable {r : Request} {m : Machine} {filter line : String}

/-- The options of a capture that are given, each as its flag with the text that it is given. -/
def given (r : Request) : List Setting :=
  captureFlags.flatMap fun p => (r.value? p.1).toList.map fun v => ⟨p.2, some v⟩

theorem map_flag_given_sublist (r : Request) :
    (r.given.map Setting.flag).Sublist (captureFlags.map Prod.snd) := by
  unfold given
  induction captureFlags with
  | nil => exact .slnil
  | cons p ps ih =>
    cases hp : r.value? p.1 with
    | none => simpa [hp] using ih.cons p.2
    | some v => simpa [hp] using ih.cons_cons p.2

theorem nodup_map_flag_given (r : Request) : (r.given.map Setting.flag).Nodup :=
  r.map_flag_given_sublist.nodup (by decide)

theorem flag_given {s : Setting} (hs : s ∈ r.given) :
    Shell.isFlag s.flag = true ∧ isDashed s.flag = true := by
  have hall : (captureFlags.map Prod.snd).all fun f => Shell.isFlag f && isDashed f := by decide
  have hflag := r.map_flag_given_sublist.subset (List.mem_map_of_mem hs)
  simpa using List.all_eq_true.mp hall _ hflag

/-- The changes that a run makes are one for each option given, in order, then the filter. -/
theorem changes_eq (r : Request) (m : Machine) (filter : String) :
    ∃ chs, r.changes m filter = chs ++ [.filter filter] ∧
      (∀ ch ∈ chs, ch.isSetter = true) ∧ chs.flatMap Change.settings = r.given := by
  refine ⟨_, rfl, ?_, ?_⟩
  · intro ch hch
    simp only [List.mem_append, Option.mem_toList, Option.map_eq_some_iff] at hch
    rcases hch with (((⟨v, -, rfl⟩ | ⟨v, -, rfl⟩) | ⟨v, -, rfl⟩) | ⟨v, -, rfl⟩) | ⟨v, -, rfl⟩
    all_goals rfl
  · simp only [List.flatMap_append, List.append_assoc, given, captureFlags, List.flatMap_cons,
      List.flatMap_nil, List.append_nil]
    rw [Change.flatMap_settings (fun _ => rfl), Change.flatMap_settings (fun _ => rfl),
      Change.flatMap_settings (fun _ => rfl), Change.flatMap_settings (fun _ => rfl),
      Change.flatMap_settings (fun _ => rfl)]

theorem executable_of_config {config : Config} (h : r.config m = .ok config) :
    config.executable = (r.value? .tcpdump).getD Config.defaultExecutable := by
  unfold Request.config at h
  cases hpath : r.value? .tcpdump with
  | none =>
    rw [hpath] at h
    rw [← Except.ok.inj h]
    rfl
  | some path =>
    simp only [hpath, Config.ofExecutable] at h
    split at h
    · rw [← Except.ok.inj h]
      rfl
    · cases h

/-- The line of a run is that of the program, the options given and the filter, which is there; no
value of an option begins with a dash. -/
theorem shellLine_eq_ok (h : r.shellLine m filter = .ok line) :
    filter ≠ "" ∧ (∀ s ∈ r.given, ∀ v ∈ s.value, isDashed v = false) ∧
      (⟨(r.value? .tcpdump).getD Config.defaultExecutable, r.given, filter⟩ : Command).shellLine =
        .ok line := by
  obtain ⟨config, hconfig, h⟩ := bind_eq_ok_iff.mp (show (r.config m >>= fun config =>
      (Command.ofConfig config).applyAll (r.changes m filter) >>= Command.shellLine) =
    .ok line from h)
  obtain ⟨c, happly, hline⟩ := bind_eq_ok_iff.mp h
  have hexecutable := executable_of_config hconfig
  obtain ⟨chs, hchs, hsetter, hsettings⟩ := r.changes_eq m filter
  obtain ⟨hsound, rfl⟩ := Command.applyAll_eq_ok_iff.mp happly
  rw [hchs] at hsound hline
  have hgiven : Setting.insertAll [] r.given = r.given :=
    Setting.insertAll_eq_append r.nodup_map_flag_given
  have hcommand : (chs ++ [Change.filter filter]).foldl Command.change (Command.ofConfig config) =
      ⟨config.executable, r.given, filter⟩ := by
    rw [List.foldl_append, Command.foldl_change_of_isSetter hsetter, hsettings]
    show (⟨config.executable, Setting.insertAll [] r.given, filter⟩ : Command) = _
    rw [hgiven]
  refine ⟨?_, fun s hs v hv => ?_, ?_⟩
  · simpa [Change.isSound] using hsound (.filter filter) (by simp)
  · rw [← hsettings] at hs
    obtain ⟨ch, hch, hs⟩ := List.mem_flatMap.mp hs
    exact Change.isDashed_eq_false (hsound ch (by simp [hch])) (hsetter ch hch) hs hv
  · rw [← hexecutable, ← hcommand]
    exact hline

/-! ## What is printed -/

theorem loadRecipe_eq_ok {recipe : Recipe} (h : r.loadRecipe m = .ok recipe) :
    ∃ text, m.read r.recipe = some text ∧ Recipe.ofText text = .ok recipe := by
  unfold loadRecipe at h
  split at h
  · cases h
  · rename_i text hread
    exact ⟨text, hread, mapError_eq_ok_iff.mp h⟩

/-- Where a command is asked for, a run has made its line of the filter of the recipe. -/
theorem product_eq_ok {recipe : Recipe} {p : Product} (hcommand : r.has .command = true)
    (h : r.product m recipe = .ok p) :
    ∃ draft filter line, Draft.empty.compile recipe.steps = (draft, .ok filter) ∧
      r.shellLine m filter = .ok line ∧ p = ⟨draft, filter, some line⟩ := by
  simp only [product, hcommand, if_true] at h
  split at h
  · cases h
  · rename_i draft filter hcompile
    split at h
    · rename_i line hline
      exact ⟨draft, filter, line, hcompile, hline, (Except.ok.inj h).symm⟩
    · cases h

/-- A run that ends well and prints a command alone has read a recipe, compiled it and made a line
of its filter. -/
theorem run_of_code_eq_zero (hcommand : r.has .command = true) (hjson : r.has .json = false)
    (hcode : (r.run m).code = 0) :
    ∃ text recipe draft filter line, m.read r.recipe = some text ∧ Recipe.ofText text = .ok recipe ∧
      Draft.empty.compile recipe.steps = (draft, .ok filter) ∧ r.shellLine m filter = .ok line ∧
      (r.run m).output = line ++ "\n" := by
  cases hload : r.loadRecipe m with
  | error f => simp [run, hload] at hcode
  | ok recipe =>
    cases hproduct : r.product m recipe with
    | error f => simp [run, hload, hproduct] at hcode
    | ok p =>
      obtain ⟨text, hread, htext⟩ := loadRecipe_eq_ok hload
      obtain ⟨draft, filter, line, hcompile, hline, rfl⟩ := product_eq_ok hcommand hproduct
      refine ⟨text, recipe, draft, filter, line, hread, htext, hcompile, hline, ?_⟩
      simp [run, hload, hproduct, Product.output, hjson]

end Request

theorem isDashed_of_compile {steps : List Step} {draft : Draft} {filter : String}
    (h : Draft.empty.compile steps = (draft, .ok filter)) (hne : filter ≠ "") :
    isDashed filter = false := by
  obtain ⟨hdraft, rfl⟩ := Draft.eq_render_of_compile h
  have hwritten : draft.WellWritten := hdraft ▸ Draft.performAll_wellWritten [.compile steps]
  obtain ⟨c, cs, hcs, hc⟩ := Draft.render_cons hwritten hne
  refine isDashed_of_first (p := fun c => c.isAlpha || c == '(') (by decide) fun d hd => ?_
  rw [hcs, List.head?_cons, Option.mem_some_iff] at hd
  simpa [← hd] using hc

/-- What a run prints that ends well, where a command is asked for and no JSON: the arguments spell
the request, and a shell reads the line as the program, the options that were given, each with the
text that it was given, and the filter of the recipe. The words that a program would take for
options are the flags. -/
theorem split_output (m : Machine) {arguments : List String} {r : Request}
    (harguments : Request.ofArguments arguments = .ok r) (hcommand : r.has .command = true)
    (hjson : r.has .json = false) (hcode : (execute m arguments).code = 0) :
    (∃ is, Item.AreWritten is arguments ∧ is.filterMap Item.source? = [r.recipe] ∧
      (∀ f, r.has f = true ↔ .flag f ∈ is) ∧ ∀ k v, r.value? k = some v ↔ .value k v ∈ is) ∧
    ∃ text recipe filter line,
      m.read r.recipe = some text ∧ Recipe.ofText text = .ok recipe ∧
      (∀ d : Draft, (d.compile recipe.steps).2 = .ok filter) ∧
      (execute m arguments).output = line ++ "\n" ∧
      Shell.split line = some ((r.value? .tcpdump).getD Config.defaultExecutable ::
        (r.given.flatMap Setting.words ++ [filter])) ∧
      (r.given.flatMap Setting.words ++ [filter]).filter isDashed = r.given.map Setting.flag := by
  refine ⟨Request.exists_items harguments, ?_⟩
  have hexecute : execute m arguments = r.run m := by rw [execute, harguments]
  rw [hexecute] at hcode ⊢
  obtain ⟨text, recipe, draft, filter, line, hread, htext, hcompile, hline, houtput⟩ :=
    Request.run_of_code_eq_zero hcommand hjson hcode
  obtain ⟨hne, hvalue, hcommandLine⟩ := Request.shellLine_eq_ok hline
  refine ⟨text, recipe, filter, line, hread, htext, fun d => congrArg Prod.snd hcompile, houtput,
    ?_, ?_⟩
  · exact Command.split_of_shellLine (fun s hs => (Request.flag_given hs).1) hcommandLine
  · have hfilter : isDashed filter = false := isDashed_of_compile hcompile hne
    rw [List.filter_append, Setting.filter_isDashed_words
      (fun s hs => (Request.flag_given hs).2) hvalue]
    simp [hfilter]

/-- A program with an apostrophe and a blank in its path, a file with what a shell would expand, and
values that are arguments of their own, behind an equals sign and right behind a letter. -/
theorem split_output_of_apostrophe :
    let text := "[\x7b\"op\":\"port\",\"port\":80\x7d,\x7b\"op\":\"group\",\"operator\":\"!\"\x7d]"
    let m : Machine := ⟨fun source => if source = "-" then some text else none,
      (· = "/opt/it's tcpdump"), [some "eth0"]⟩
    let arguments := ["-", "--command", "-w", "/tmp/a $b", "--interface=eth0", "-s96", "--tcpdump",
      "/opt/it's tcpdump"]
    let r : Request := ⟨"-", [.command], [(.write, "/tmp/a $b"), (.interface, "eth0"),
      (.snaplen, "96"), (.tcpdump, "/opt/it's tcpdump")]⟩
    Request.ofArguments arguments = .ok r ∧ r.has .command = true ∧ r.has .json = false ∧
      (execute m arguments).code = 0 ∧
      ∃ line, (execute m arguments).output = line ++ "\n" ∧
        Shell.split line = some ["/opt/it's tcpdump", "-i", "eth0", "-w", "/tmp/a $b", "-s", "96",
          "not (port 80)"] := by
  intro text m arguments r
  have harguments : Request.ofArguments arguments = .ok r := by decide +kernel
  have hcode : (execute m arguments).code = 0 := by decide +kernel
  refine ⟨harguments, rfl, rfl, hcode, ?_⟩
  obtain ⟨-, _, recipe, filter, line, hread, htext, hcompile, houtput, hsplit, -⟩ :=
    split_output m harguments rfl rfl hcode
  obtain rfl := Option.some.inj hread
  have hrecipe : Recipe.ofText text =
      .ok ⟨[.port ⟨80, by decide⟩ .any .any, .group (some "!")]⟩ := by decide +kernel
  obtain rfl := Except.ok.inj (htext.symm.trans hrecipe)
  have hfilter : (Draft.empty.compile [.port ⟨80, by decide⟩ .any .any, .group (some "!")]).2 =
      .ok "not (port 80)" := by decide +kernel
  obtain rfl := Except.ok.inj ((hcompile Draft.empty).symm.trans hfilter)
  exact ⟨line, houtput, hsplit⟩

end CommandLine

end CaptureFilter
