import CaptureFilter.Proofs.CheckedCommand
import CaptureFilter.Proofs.Failure
import CaptureFilter.Proofs.Meaning
import CaptureFilter.Proofs.Parentheses
import CaptureFilter.Proofs.PrintedCommand

/-!
# How a run ends

Much can be wrong with a run at once: the recipe, its hosts, each option of the command, and the
filter. One of these is reported, the first in a fixed order, and nothing is printed then. What is
wrong with the options of a command stays unnoticed where no command is asked for.

The filter is empty when nothing was committed. No entry of the stack is blank, so this is when each
commit and each group behind the last reset met an empty fragment.

Results:
* `FirstOf.unique`, `FirstOf.bind`: conditions in order, and computations that stop at the first.
* `Draft.stack_run_eq_nil_iff`, `Draft.render_run_eq_empty_iff`: when a recipe makes no filter.
* `Request.firstOf_shellLine`, `Request.firstOf_product`: what a command, and a run, stop at.
* `execute_verdict`: the report, the code and the output of a run.
-/

namespace CaptureFilter

/-! ## The first that applies -/

/-- Of conditions in order, the first that anything meets. What meets it, and nothing else does, is
the result; where nothing meets any condition there is none. -/
inductive FirstOf {α : Type} : List (α → Prop) → Option α → Prop
  | nil : FirstOf [] none
  | here {P : α → Prop} {Ps : List (α → Prop)} {a : α} :
    (∀ b, P b ↔ b = a) → FirstOf (P :: Ps) (some a)
  | later {P : α → Prop} {Ps : List (α → Prop)} {o : Option α} :
    (∀ a, ¬ P a) → FirstOf Ps o → FirstOf (P :: Ps) o

/-- What is reported of a computation, if it fails. -/
def failing {ε α ρ : Type} (report : ε → ρ) : Except ε α → Option ρ
  | .ok _ => none
  | .error e => some (report e)

namespace FirstOf

variable {ε α β ρ : Type} {Ps Qs : List (ρ → Prop)} {o o' : Option ρ} {p : ρ}

theorem unique (h : FirstOf Ps o) (h' : FirstOf Ps o') : o = o' := by
  induction h with
  | nil =>
    cases h'
    rfl
  | here hP =>
    cases h' with
    | here hP' => exact congrArg some ((hP' _).mp ((hP _).mpr rfl))
    | later hnone _ => exact absurd ((hP _).mpr rfl) (hnone _)
  | later hnone _ ih =>
    cases h' with
    | here hP' => exact absurd ((hP' _).mpr rfl) (hnone _)
    | later _ h' => exact ih h'

theorem append_some (h : FirstOf Ps (some p)) (Qs : List (ρ → Prop)) :
    FirstOf (Ps ++ Qs) (some p) := by
  generalize ho : some p = o at h
  induction h with
  | nil => cases ho
  | here hP => exact .here hP
  | later hnone _ ih => exact .later hnone (ih ho)

theorem append_none (h : FirstOf Ps none) (hQ : FirstOf Qs o) : FirstOf (Ps ++ Qs) o := by
  generalize hnone : none = o' at h
  induction h with
  | nil => exact hQ
  | here _ => cases hnone
  | later hP _ ih => exact .later hP (ih hnone)

/-- What a computation stops at, then what the one behind it stops at. -/
theorem bind {report : ε → ρ} {x : Except ε α} {f : α → Except ε β}
    (hx : FirstOf Ps (failing report x))
    (hf : ∀ a, x = .ok a → FirstOf Qs (failing report (f a))) :
    FirstOf (Ps ++ Qs) (failing report (x >>= f)) := by
  cases x with
  | error e => exact hx.append_some Qs
  | ok a => exact hx.append_none (hf a rfl)

end FirstOf

/-! ## Recipes that make no filter -/

namespace Draft

/-- Each commit and each group among the steps behind the last reset meets an empty fragment. -/
def CommitsNothing (steps : List Step) : Prop :=
  ∀ before s after, steps = before ++ s :: after → .reset ∉ after → s.commits = true →
    (empty.run before).1.fragment = ""

/-- A step leaves nothing on the stack just when it drops what is there, or nothing is there and it
has nothing to commit. -/
theorem stack_apply_eq_nil_iff {d d' : Draft} {s : Step} (h : d.apply s = .ok d') :
    d'.stack = [] ↔ s = .reset ∨ d.stack = [] ∧ (s.commits = true → d.fragment = "") := by
  cases s with
  | reset =>
    obtain rfl := Except.ok.inj h
    simp [reset, empty]
  | discard | port | portRange | join =>
    obtain rfl := Except.ok.inj h
    simp [discard, add, Draft.join]
  | host a dir =>
    simp only [apply, addHost] at h
    cases ha : Address.ofText? a with
    | none => simp [ha] at h
    | some b =>
      obtain rfl : d.add (.host b dir) = d' := by simpa [ha] using h
      simp [add]
  | group op =>
    obtain rfl := Except.ok.inj h
    by_cases hf : d.fragment = ""
    · simp [group_of_fragment_eq hf, hf]
    · simp [group_of_fragment_ne hf, hf]
  | commit =>
    obtain rfl := Except.ok.inj h
    by_cases hf : d.fragment = ""
    · simp [commit_of_fragment_eq hf, hf]
    · simp [commit_of_fragment_ne hf, hf]

theorem commitsNothing_nil : CommitsNothing [] := by
  intro before s after h
  simp at h

/-- One more step: it drops what came before it, or it commits nothing as they did. -/
theorem commitsNothing_append_iff {steps : List Step} {s : Step} :
    CommitsNothing (steps ++ [s]) ↔
      s = .reset ∨
        CommitsNothing steps ∧ (s.commits = true → (empty.run steps).1.fragment = "") := by
  constructor
  · intro h
    by_cases hs : s = .reset
    · exact .inl hs
    · refine .inr ⟨fun before t after heq hafter => ?_, h steps s [] rfl (by simp)⟩
      refine h before t (after ++ [s]) (by simp [heq]) ?_
      simp [hafter, Ne.symm hs]
  · intro h before t after heq hafter ht
    -- the step is the last one, or one of those before
    obtain rfl | ⟨after, u, rfl⟩ := after.eq_nil_or_concat'
    · obtain ⟨rfl, hlast⟩ := List.append_inj' heq rfl
      obtain rfl := List.singleton_inj.mp hlast
      rcases h with rfl | ⟨-, h⟩
      · cases ht
      · exact h ht
    · rw [← List.cons_append, ← List.append_assoc] at heq
      obtain ⟨rfl, hlast⟩ := List.append_inj' heq rfl
      obtain rfl := List.singleton_inj.mp hlast
      rcases h with rfl | ⟨h, -⟩
      · simp at hafter
      · exact h before t after rfl (fun hmem => hafter (by simp [hmem])) ht

/-- A run whose hosts are all addresses leaves nothing on the stack just when it commits nothing. -/
theorem stack_run_eq_nil_iff {steps : List Step}
    (h : ∀ a dir, .host a dir ∈ steps → Address.isLiteral a = true) :
    (empty.run steps).1.stack = [] ↔ CommitsNothing steps := by
  induction steps using List.reverseRecOn with
  | nil => simp [commitsNothing_nil, empty]
  | append_singleton steps s ih =>
    have hsteps : ∀ a dir, .host a dir ∈ steps → Address.isLiteral a = true :=
      fun a dir hmem => h a dir (by simp [hmem])
    have hrun : empty.run steps = ((empty.run steps).1, .ok ()) :=
      Prod.ext rfl (run_of_literal hsteps empty)
    have hok := run_of_literal h empty
    rw [run_append, hrun] at hok ⊢
    simp only [run] at hok ⊢
    cases happly : (empty.run steps).1.apply s with
    | error e => simp [happly] at hok
    | ok d =>
      show d.stack = [] ↔ _
      rw [stack_apply_eq_nil_iff happly, ih hsteps, commitsNothing_append_iff]

/-- A recipe whose hosts are all addresses makes the empty filter just when it commits nothing. -/
theorem render_run_eq_empty_iff {steps : List Step}
    (h : ∀ a dir, .host a dir ∈ steps → Address.isLiteral a = true) :
    (empty.run steps).1.render = "" ↔ CommitsNothing steps := by
  have hshaped : (empty.run steps).1.Shaped := performAll_shaped [.compile steps]
  rw [hshaped.render_eq_empty_iff, stack_run_eq_nil_iff h]

end Draft

/-- The first host of a recipe that is no address. -/
def Recipe.IsFirstUnfit (recipe : Recipe) (a : String) : Prop :=
  ∃ before dir after, recipe.steps = before ++ .host a dir :: after ∧
    (∀ b dir', .host b dir' ∈ before → Address.isLiteral b = true) ∧ Address.isLiteral a = false

/-- A compilation stops at the first host that is no address, and at nothing else. -/
theorem Recipe.isFirstUnfit_iff {recipe : Recipe} {a : String} :
    recipe.IsFirstUnfit a ↔ (Draft.empty.compile recipe.steps).2 = .error (.address a) := by
  constructor
  · rintro ⟨before, dir, after, hsteps, hbefore, ha⟩
    rw [hsteps, Draft.compile_of_not_literal hbefore ha]
  · intro h
    rcases Draft.literal_or_first recipe.steps with hall | ⟨before, b, dir, after, hunfit⟩
    · simp [Draft.compile_of_literal hall] at h
    · obtain ⟨hsteps, hbefore, hb⟩ := hunfit
      rw [hsteps, Draft.compile_of_not_literal hbefore hb] at h
      obtain rfl : b = a := by simpa using h
      exact ⟨before, dir, after, hsteps, hbefore, hb⟩

namespace CommandLine

open CaptureFilter.Capture (Change Command Config Registry HasNameForm WellFormedPath EndsShort
  isInterfaceName_iff isPath_iff)

/-! ## What a run stops at -/

/-- What is said of a run that fails: why it fails, and in which sentence. -/
abbrev Report := Failure × String

/-- What a run reports, if it fails. -/
def Outcome.report (o : Outcome) : Option Report :=
  o.failure.map fun f => (f, f.message)

/-- The report of a part of a command that cannot be used. -/
def reportError (e : Capture.Error) : Report := (.command e, e.message)

/-- The names of interfaces that a machine knows: `any`, and those of a report that does not break
off. -/
def Machine.Knows (m : Machine) (name : String) : Prop :=
  name = "any" ∨ none ∉ m.interfaces ∧ some name ∈ m.interfaces

namespace Request

/-- An option is given with a value that is not good. -/
def Refuses (r : Request) (k : Key) (good : String → Prop) (error : String → Capture.Error)
    (sentence : String → String) (p : Report) : Prop :=
  ∃ v, r.value? k = some v ∧ ¬ good v ∧ p = (.command (error v), sentence v)

/-- The rule for the path of a capture file, as far as it is followed. -/
def IsCaptureFile (path : String) : Prop := WellFormedPath path ∧ ¬ EndsShort path

/-- A number is written with digits alone. -/
def IsNumber (value : String) : Prop := value ≠ "" ∧ ∀ d ∈ value.toList, d.isDigit = true

/-- What can be wrong with the options of a command, in the order in which it is looked at. -/
def refusals (r : Request) (m : Machine) : List (Report → Prop) :=
  [r.Refuses .tcpdump (fun v => m.isFile v = true) .noExecutable ("no such executable: " ++ ·),
    r.Refuses .interface (fun v => HasNameForm v.toList) .invalidInterface
      ("invalid interface name " ++ ·),
    r.Refuses .interface m.Knows .unknownInterface
      (fun v => "interface " ++ v ++ " does not exist"),
    r.Refuses .write IsCaptureFile .invalidPath ("invalid file path: " ++ ·),
    r.Refuses .read IsCaptureFile .invalidPath ("invalid file path: " ++ ·),
    r.Refuses .snaplen IsNumber (.invalidNumber "snap length") ("invalid snap length value " ++ ·),
    r.Refuses .fileSize IsNumber (.invalidNumber "file size") ("invalid file size value " ++ ·)]

/-- What can be wrong with a run on a text, in the order in which it is looked at. The options of a
command and the filter are looked at where a command is asked for. -/
def causes (r : Request) (m : Machine) (text : String) : List (Report → Prop) :=
  [fun p => ∃ e, Recipe.ofText text = .error e ∧
      p = (.recipe "-" e, "Failed to parse recipe -"),
    fun p => ∃ recipe, Recipe.ofText text = .ok recipe ∧ ∃ a, recipe.IsFirstUnfit a ∧
      p = (.rejected (.address a), "Failed to compile filter expression")] ++
  if r.has .command then
    r.refusals m ++
      [fun p => ∃ recipe, Recipe.ofText text = .ok recipe ∧ Draft.CommitsNothing recipe.steps ∧
        p = (.command .emptyFilter, "pcap filter expression cannot be empty")]
  else []

variable {r : Request} {m : Machine} {k : Key} {good : String → Prop}
  {error : String → Capture.Error} {sentence : String → String} {Ps : List (Report → Prop)}
  {o : Option Report}

theorem firstOf_absent (hnone : r.value? k = none) (hrest : FirstOf Ps o) :
    FirstOf (r.Refuses k good error sentence :: Ps) o := by
  refine .later ?_ hrest
  rintro p ⟨v, hv, -⟩
  simp [hnone] at hv

theorem firstOf_good {v : String} (hv : r.value? k = some v) (hgood : good v)
    (hrest : FirstOf Ps o) : FirstOf (r.Refuses k good error sentence :: Ps) o := by
  refine .later ?_ hrest
  rintro p ⟨w, hw, hbad, -⟩
  obtain rfl := Option.some.inj (hv.symm.trans hw)
  exact hbad hgood

theorem firstOf_bad {v : String} (hv : r.value? k = some v) (hbad : ¬ good v)
    (hsentence : (error v).message = sentence v) (Ps : List (Report → Prop)) :
    FirstOf (r.Refuses k good error sentence :: Ps) (some (reportError (error v))) := by
  refine .here fun p => ?_
  rw [reportError, hsentence]
  constructor
  · rintro ⟨v', hv', -, rfl⟩
    obtain rfl := Option.some.inj (hv.symm.trans hv')
    rfl
  · rintro rfl
    exact ⟨v, hv, hbad, rfl⟩

/-- An option with one rule for its value: the change for it is made just when the rule holds. -/
theorem firstOf_option {C : String → Change} {c : Command}
    (hsound : ∀ v, (C v).isSound = true ↔ good v)
    (hunsound : ∀ v, (C v).isSound = false → c.apply (C v) = .error (error v))
    (hsentence : ∀ v, (error v).message = sentence v) :
    FirstOf [r.Refuses k good error sentence]
      (failing reportError (c.applyAll ((r.value? k).map C).toList)) := by
  cases hv : r.value? k with
  | none => exact firstOf_absent hv .nil
  | some v =>
    rw [Option.map_some, Option.toList_some, Command.applyAll_singleton]
    cases hmade : (C v).isSound with
    | true =>
      rw [Command.apply_eq_ok_iff.mpr ⟨hmade, rfl⟩]
      exact firstOf_good hv ((hsound v).mp hmade) .nil
    | false =>
      rw [hunsound v hmade]
      exact firstOf_bad hv (fun hgood => by simp [(hsound v).mpr hgood] at hmade) (hsentence v) []

theorem firstOf_file {c : Command} {C : String → Change} (hC : C = .outputFile ∨ C = .inputFile) :
    FirstOf [r.Refuses k IsCaptureFile .invalidPath ("invalid file path: " ++ ·)]
      (failing reportError (c.applyAll ((r.value? k).map C).toList)) := by
  rcases hC with rfl | rfl
  all_goals
    refine firstOf_option (fun v => isPath_iff) (fun v hv => ?_) fun v => rfl
    exact if_neg (by simpa [Change.isSound] using hv)

/-- The numbers of a command, each with what it is called. -/
theorem firstOf_number {c : Command} {C : String → Change} {title : String} {start : String}
    (hC : (C, title) ∈ [(.snapLength, "snap length"), (.fileSize, "file size")])
    (hstart : "invalid " ++ title ++ " value " = start) :
    FirstOf [r.Refuses k IsNumber (.invalidNumber title) (start ++ ·)]
      (failing reportError (c.applyAll ((r.value? k).map C).toList)) := by
  have hmessage (v : String) : (Capture.Error.invalidNumber title v).message = start ++ v :=
    congrArg (· ++ v) hstart
  rcases List.mem_pair.mp hC with hC | hC
  all_goals
    obtain ⟨rfl, rfl⟩ := Prod.mk.inj hC
    refine firstOf_option (fun v => Text.isDigits_iff) (fun v hv => ?_) hmessage
    exact if_neg (by simpa [Change.isSound] using hv)

/-- The program is looked at first. -/
theorem firstOf_config :
    FirstOf [r.Refuses .tcpdump (fun v => m.isFile v = true) .noExecutable
      ("no such executable: " ++ ·)] (failing reportError (r.config m)) := by
  unfold config
  cases hv : r.value? .tcpdump with
  | none => exact firstOf_absent hv .nil
  | some v =>
    simp only [Config.ofExecutable]
    cases hfile : m.isFile v with
    | true => exact firstOf_good hv hfile .nil
    | false => exact firstOf_bad hv (by simp [hfile]) rfl []

/-- The form of an interface name is looked at before the name is looked up. -/
theorem firstOf_interface {c : Command} :
    FirstOf [r.Refuses .interface (fun v => HasNameForm v.toList) .invalidInterface
        ("invalid interface name " ++ ·),
      r.Refuses .interface m.Knows .unknownInterface
        (fun v => "interface " ++ v ++ " does not exist")]
      (failing reportError
        (c.applyAll ((r.value? .interface).map (.interface (.machine m.interfaces))).toList)) := by
  cases hv : r.value? .interface with
  | none => exact firstOf_absent hv (firstOf_absent hv .nil)
  | some v =>
    rw [Option.map_some, Option.toList_some, Command.applyAll_singleton, Command.apply]
    split_ifs with hform hknown
    · exact firstOf_good hv (isInterfaceName_iff.mp hform)
        (firstOf_good hv (Registry.contains_machine_iff.mp hknown) .nil)
    · exact firstOf_good hv (isInterfaceName_iff.mp hform)
        (firstOf_bad hv (fun h => hknown (Registry.contains_machine_iff.mpr h)) rfl [])
    · exact firstOf_bad hv (fun h => hform (isInterfaceName_iff.mpr h)) rfl _

/-- The filter is looked at last. A command that has one has a line. -/
theorem firstOf_filter {c : Command} {filter : String} :
    FirstOf [fun p => filter = "" ∧
        p = (.command .emptyFilter, "pcap filter expression cannot be empty")]
      (failing reportError (c.applyAll [.filter filter] >>= Command.shellLine)) := by
  rw [Command.applyAll_singleton, Command.apply]
  by_cases h : filter = ""
  · rw [if_pos h]
    exact .here fun p => ⟨And.right, fun hp => ⟨h, hp⟩⟩
  · have hline : ∃ line, ({ c with filter } : Command).shellLine = .ok line :=
      (Command.exists_eq_ok_of_filter_ne h).2.1
    obtain ⟨line, hline⟩ := hline
    rw [if_neg h]
    show FirstOf _ (failing reportError ({ c with filter } : Command).shellLine)
    rw [hline]
    exact .later (fun p hp => h hp.1) .nil

/-- Making the line of a command stops at the first option that cannot be used, and behind all of
them at an empty filter. -/
theorem firstOf_shellLine (r : Request) (m : Machine) (filter : String) :
    FirstOf (r.refusals m ++ [fun p => filter = "" ∧
        p = (.command .emptyFilter, "pcap filter expression cannot be empty")])
      (failing reportError (r.shellLine m filter)) := by
  have hline : r.shellLine m filter = r.config m >>= fun config =>
      (Command.ofConfig config).applyAll (r.changes m filter) >>= Command.shellLine := rfl
  simp only [hline, changes, List.append_assoc, Command.applyAll_append, bind_assoc]
  refine firstOf_config.bind fun config _ => ?_
  refine firstOf_interface.bind fun c _ => ?_
  refine (firstOf_file (.inl rfl)).bind fun c _ => ?_
  refine (firstOf_file (.inr rfl)).bind fun c _ => ?_
  refine (firstOf_number (by simp) (by decide)).bind fun c _ => ?_
  exact (firstOf_number (by simp) (by decide)).bind fun c _ => firstOf_filter

/-! ## The end of a run -/

/-- A product is stopped by the first host that is no address. Behind the hosts, and only where a
command is asked for, it is stopped as its line is, and the filter is empty where nothing is
committed. -/
theorem firstOf_product (r : Request) (m : Machine) (recipe : Recipe) :
    FirstOf ((fun p => ∃ a, recipe.IsFirstUnfit a ∧
        p = (.rejected (.address a), "Failed to compile filter expression")) ::
      if r.has .command then
        r.refusals m ++ [fun p => Draft.CommitsNothing recipe.steps ∧
          p = (.command .emptyFilter, "pcap filter expression cannot be empty")]
      else [])
      (failing (fun f => (f, f.message)) (r.product m recipe)) := by
  rcases Draft.literal_or_first recipe.steps with hhosts | ⟨before, a, dir, after, hunfit⟩
  · have hcompile := Draft.compile_of_literal hhosts Draft.empty
    have hfit : ∀ p, ¬ ∃ a, recipe.IsFirstUnfit a ∧
        p = (Failure.rejected (.address a), "Failed to compile filter expression") := by
      rintro p ⟨a, ha, -⟩
      simp [Recipe.isFirstUnfit_iff, hcompile] at ha
    refine .later hfit ?_
    simp only [product, hcompile, ← Draft.render_run_eq_empty_iff hhosts]
    split_ifs with hcommand
    · have hline := r.firstOf_shellLine m (Draft.empty.run recipe.steps).1.render
      cases h : r.shellLine m (Draft.empty.run recipe.steps).1.render <;> rwa [h] at hline
    · exact .nil
  · obtain ha : recipe.IsFirstUnfit a := ⟨before, dir, after, hunfit⟩
    have herror := Recipe.isFirstUnfit_iff.mp ha
    have hproduct : r.product m recipe = .error (.rejected (.address a)) := by
      rcases hcompile : Draft.empty.compile recipe.steps with ⟨draft, e | filter⟩
      · simp_all [product]
      · simp [hcompile] at herror
    rw [hproduct]
    refine .here fun p => ⟨?_, fun hp => ⟨a, ha, hp⟩⟩
    rintro ⟨b, hb, rfl⟩
    obtain rfl : b = a := by simpa [Recipe.isFirstUnfit_iff.mp hb] using herror
    rfl

theorem report_run {recipe : Recipe} (h : r.loadRecipe m = .ok recipe) :
    (r.run m).report = failing (fun f => (f, f.message)) (r.product m recipe) := by
  simp only [run, h]
  cases r.product m recipe <;> rfl

theorem code_run (r : Request) (m : Machine) :
    (r.run m).code = if (r.run m).report.isSome then 1 else 0 := by
  unfold run
  cases r.loadRecipe m with
  | error f => rfl
  | ok recipe => cases hproduct : r.product m recipe <;> simp only [hproduct] <;> rfl

/-- What is printed ends with a line break, so that it is not empty. -/
theorem output_run_eq_empty_iff (r : Request) (m : Machine) :
    (r.run m).output = "" ↔ (r.run m).code = 1 := by
  unfold run
  cases r.loadRecipe m with
  | error f => simp
  | ok recipe => cases hproduct : r.product m recipe <;> simp [hproduct, Product.output]

theorem loadRecipe_of_source {text : String} (hsource : r.recipe = "-")
    (htext : m.read "-" = some text) :
    r.loadRecipe m = (Recipe.ofText text).mapError (.recipe "-") := by
  simp only [loadRecipe, hsource, htext]

theorem firstOf_run {text : String} (hsource : r.recipe = "-") (htext : m.read "-" = some text) :
    FirstOf (r.causes m text) (r.run m).report := by
  have hload := loadRecipe_of_source hsource htext
  unfold causes
  cases hrecipe : Recipe.ofText text with
  | error e =>
    rw [hrecipe] at hload
    have hreport : (r.run m).report = some (.recipe "-" e, "Failed to parse recipe -") := by
      rw [run, hload]
      rfl
    rw [hreport]
    refine .here fun p => ?_
    simp
  | ok recipe =>
    rw [hrecipe] at hload
    rw [report_run hload]
    refine .later (by simp) ?_
    simpa using r.firstOf_product m recipe

/-- Where no command is asked for, a run depends on its recipe and on how it prints, and on nothing
else of what was asked for or of the machine. -/
theorem run_congr {r' : Request} {m' : Machine} (hload : r'.loadRecipe m' = r.loadRecipe m)
    (hcommand : r.has .command = false) (hcommand' : r'.has .command = false)
    (hjson : r'.has .json = r.has .json) :
    (r'.run m').report = (r.run m).report ∧ (r'.run m').code = (r.run m).code ∧
      (r'.run m').output = (r.run m).output := by
  have hproduct (recipe : Recipe) : r'.product m' recipe = r.product m recipe := by
    simp only [product, hcommand, hcommand']
    rfl
  simp only [run, hload, hjson]
  cases r.loadRecipe m with
  | error f => exact ⟨rfl, rfl, rfl⟩
  | ok recipe =>
    simp only [hproduct]
    cases r.product m recipe <;> exact ⟨rfl, rfl, rfl⟩

end Request

/-- How a run ends that takes its recipe from the standard input. It reports the first thing that is
wrong, in its sentence, and nothing if there is none: the text of the recipe, a host in it, and,
where a command is asked for, the program, the interface, the file to write, the file to read, the
snap length, the file size and a filter for which nothing was committed. The code is 1 if something
is reported and 0 otherwise, and nothing is printed just when the code is 1. Where no command is
asked for, every other run without a command ends in the same way that has the same recipe and
prints in the same form, whatever other options it has and whatever machine it runs on. -/
theorem execute_verdict (m : Machine) {arguments : List String} {r : Request} {text : String}
    (harguments : Request.ofArguments arguments = .ok r) (hsource : r.recipe = "-")
    (htext : m.read "-" = some text) :
    let outcome := execute m arguments
    (∀ o, outcome.report = o ↔ FirstOf (r.causes m text) o) ∧
    outcome.code = (if outcome.report.isSome then 1 else 0) ∧
    (outcome.output = "" ↔ outcome.code = 1) ∧
    (r.has .command = false → ∀ m' arguments' r', Request.ofArguments arguments' = .ok r' →
      r'.recipe = "-" → m'.read "-" = some text → r'.has .command = false →
      r'.has .json = r.has .json →
      let other := execute m' arguments'
      other.report = outcome.report ∧ other.code = outcome.code ∧
        other.output = outcome.output) := by
  have hexecute : execute m arguments = r.run m := by rw [execute, harguments]
  have hfirst := Request.firstOf_run hsource htext
  rw [hexecute]
  refine ⟨fun o => ⟨fun ho => ho ▸ hfirst, fun ho => hfirst.unique ho⟩, r.code_run m,
    r.output_run_eq_empty_iff m, ?_⟩
  intro hcommand m' arguments' r' harguments' hsource' htext' hcommand' hjson
  have hexecute' : execute m' arguments' = r'.run m' := by rw [execute, harguments']
  have hload : r'.loadRecipe m' = r.loadRecipe m := by
    rw [Request.loadRecipe_of_source hsource htext, Request.loadRecipe_of_source hsource' htext']
  simp only [hexecute']
  exact Request.run_congr hload hcommand hcommand' hjson

/-- A file that is named from no root, a snap length that is no number and a recipe that drops what
it committed: the file is what is reported. -/
theorem execute_verdict_of_three_faults :
    let text := "[\x7b\"op\":\"port\",\"port\":80\x7d,\x7b\"op\":\"end\"\x7d," ++
      "\x7b\"op\":\"init\"\x7d]"
    let m : Machine := ⟨fun source => if source = "-" then some text else none, fun _ => false, []⟩
    let arguments := ["--command", "-s", "9x", "-", "--interface", "any", "-wout.pcap"]
    let r : Request :=
      ⟨"-", [.command], [(.snaplen, "9x"), (.interface, "any"), (.write, "out.pcap")]⟩
    let report := some (.command (.invalidPath "out.pcap"), "invalid file path: out.pcap")
    Request.ofArguments arguments = .ok r ∧ r.recipe = "-" ∧ m.read "-" = some text ∧
      (execute m arguments).report = report ∧ FirstOf (r.causes m text) report ∧
      (execute m arguments).code = 1 ∧ (execute m arguments).output = "" := by
  intro text m arguments r report
  have harguments : Request.ofArguments arguments = .ok r := by decide +kernel
  have hreport : (execute m arguments).report = report := by decide +kernel
  obtain ⟨hfirst, hcode, houtput, -⟩ := execute_verdict m harguments rfl rfl
  have hone : (execute m arguments).code = 1 := by rw [hcode, hreport]; rfl
  exact ⟨harguments, rfl, rfl, hreport, (hfirst report).mp hreport, hone, houtput.mpr hone⟩

end CommandLine

end CaptureFilter
