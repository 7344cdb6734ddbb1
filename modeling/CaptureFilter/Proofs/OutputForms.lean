import CaptureFilter.Proofs.Arguments
import CaptureFilter.Proofs.JsonIndented
import CaptureFilter.Proofs.PrintedCommand
import CaptureFilter.Proofs.Words

/-!
# Both forms of the output

A run prints a filter or a command as it stands, or a JSON object that holds them. The option that
asks for the object may be put wherever an option is looked for, once; the arguments around it are
read as they are read without it. So for every run there is one in the other form, and the two
agree: they fail for the same reason, or what the one prints can be told from what the other prints.

Results:
* `Scan.takeAll_agree`: arguments are read in the same way behind a request for JSON.
* `Request.has_json_iff`: JSON is asked for just where the option stands.
* `Request.exists_plain`, `Request.exists_json`: the arguments of both runs are accepted together.
* `Request.run_agree`: the two runs fail for the same reason, or make the same product.
* `execute_forms`: what both forms of the output say.
-/

namespace CaptureFilter.CommandLine

open CaptureFilter.Json (Value maxDepth)

/-! ## Arguments behind a request for JSON -/

namespace Scan

/-- What has been read without a request for JSON, and the same with one. -/
structure Beside (s s' : Scan) : Prop where
  recipe : s'.recipe = s.recipe
  values : s'.values = s.values
  pending : s'.pending = s.pending
  positional : s'.positional = s.positional
  not_mem : .json ∉ s.flags
  mem_iff : ∀ f, f ∈ s'.flags ↔ f = .json ∨ f ∈ s.flags

/-- Two readings agree that come to the same, with a request for JSON before the second. Such a
request in what they read is fine to the first and a repetition to the second. -/
structure Agree (x x' : Except Stop Scan) : Prop where
  of_json : ∀ t', x' = .ok t' → ∃ t, x = .ok t ∧ t.Beside t'
  of_plain : ∀ t, x = .ok t → .json ∉ t.flags → ∃ t', x' = .ok t' ∧ t.Beside t'

theorem Agree.ok {t t' : Scan} (h : t.Beside t') : Agree (.ok t) (.ok t') where
  of_json _ h' := ⟨t, rfl, Except.ok.inj h' ▸ h⟩
  of_plain _ h' _ := ⟨t', rfl, Except.ok.inj h' ▸ h⟩

theorem Agree.error (e e' : Stop) : Agree (.error e) (.error e') where
  of_json _ h := by cases h
  of_plain _ h _ := by cases h

variable {s s' : Scan}

theorem takeValue_agree (h : s.Beside s') (k : Key) (v a : String) :
    Agree (s.takeValue k v a) (s'.takeValue k v a) := by
  unfold takeValue
  rw [h.values]
  split_ifs
  · exact .error _ _
  · exact .error _ _
  · exact .ok ⟨h.recipe, rfl, rfl, h.positional, h.not_mem, h.mem_iff⟩

theorem takeRecipe_agree (h : s.Beside s') (a : String) :
    Agree (s.takeRecipe a) (s'.takeRecipe a) := by
  unfold takeRecipe
  rw [h.recipe]
  cases s.recipe with
  | none => exact .ok ⟨rfl, h.values, h.pending, h.positional, h.not_mem, h.mem_iff⟩
  | some r => exact .error _ _

theorem takeFlag_agree (h : s.Beside s') (f : Flag) (a : String) :
    Agree (s.takeSwitch (.flag f) none a) (s'.takeSwitch (.flag f) none a) := by
  simp only [takeSwitch, List.contains_iff_mem, h.mem_iff]
  by_cases hjson : f = .json
  · subst hjson
    rw [if_neg h.not_mem, if_pos (.inl rfl)]
    refine ⟨fun t' ht' => (by cases ht'), fun t ht hnot => ?_⟩
    rw [← Except.ok.inj ht] at hnot
    simp at hnot
  · simp only [hjson, false_or]
    split_ifs
    · exact .error _ _
    · refine .ok ⟨h.recipe, h.values, h.pending, h.positional, ?_, fun g => ?_⟩
      · simp [h.not_mem, Ne.symm hjson]
      · simp [h.mem_iff, or_assoc]

theorem takeSwitch_agree (h : s.Beside s') (sw : Switch) (value : Option String) (a : String) :
    Agree (s.takeSwitch sw value a) (s'.takeSwitch sw value a) := by
  cases sw with
  | about b =>
    cases value with
    | none => exact .error _ _
    | some v => exact .error _ _
  | flag f =>
    cases value with
    | none => exact takeFlag_agree h f a
    | some v => exact .error _ _
  | key k =>
    cases value with
    | none => exact .ok ⟨h.recipe, h.values, rfl, h.positional, h.not_mem, h.mem_iff⟩
    | some v => exact takeValue_agree h k v a

theorem takeLong_agree (h : s.Beside s') (body : List Char) (a : String) :
    Agree (s.takeLong body a) (s'.takeLong body a) := by
  simp only [takeLong]
  cases longNames.lookup (String.ofList (body.takeWhile (· ≠ '='))) with
  | none => exact .error _ _
  | some sw => exact takeSwitch_agree h sw _ a

theorem takeLetter_agree (h : s.Beside s') (c : Char) (rest : List Char) (a : String) :
    Agree (s.takeLetter c rest a) (s'.takeLetter c rest a) := by
  unfold takeLetter
  cases letters.lookup c with
  | none => exact .error _ _
  | some sw => cases sw <;> exact takeSwitch_agree h _ _ a

/-- One argument is taken in the same way behind a request for JSON. -/
theorem take_agree (h : s.Beside s') (a : String) : Agree (s.take a) (s'.take a) := by
  unfold take
  rw [h.pending, h.positional]
  cases s.pending with
  | some k =>
    dsimp only
    split_ifs
    · exact .error _ _
    · exact takeValue_agree h k a a
  | none =>
    dsimp only
    split_ifs
    · exact takeRecipe_agree h a
    · split
      · exact .ok ⟨h.recipe, h.values, rfl, rfl, h.not_mem, h.mem_iff⟩
      · exact takeLong_agree h _ a
      · exact takeLetter_agree h _ _ a
      · exact takeRecipe_agree h a

theorem flags_subset_of_take {a : String} (h : s.take a = .ok s') : s.flags ⊆ s'.flags := by
  have hadds {i : Item} (h : s.Adds i s') : s.flags ⊆ s'.flags := by
    rw [h.gains.flags]
    exact List.subset_append_left _ _
  rcases take_cases h with ⟨k, -, -, h⟩ | ⟨-, -, h⟩ | ⟨-, -, ⟨-, rfl⟩ | ⟨i, -, h⟩ | ⟨k, -, rfl⟩⟩
  · exact hadds h
  · exact hadds h
  · exact List.Subset.refl _
  · exact hadds h
  · exact List.Subset.refl _

theorem flags_subset_of_takeAll {as : List String} (h : s.takeAll as = .ok s') :
    s.flags ⊆ s'.flags := by
  induction as generalizing s with
  | nil =>
    rw [Except.ok.inj h]
    exact List.Subset.refl _
  | cons a as ih =>
    rw [takeAll, bind_eq_ok_iff] at h
    obtain ⟨u, htake, hrest⟩ := h
    exact List.Subset.trans (flags_subset_of_take htake) (ih hrest)

/-- Arguments are read in the same way behind a request for JSON. -/
theorem takeAll_agree (h : s.Beside s') (as : List String) :
    Agree (s.takeAll as) (s'.takeAll as) := by
  induction as generalizing s s' with
  | nil => exact .ok h
  | cons a as ih =>
    have hstep := take_agree h a
    rw [takeAll, takeAll]
    constructor
    · intro t' ht'
      obtain ⟨u', htake', hrest'⟩ := bind_eq_ok_iff.mp ht'
      obtain ⟨u, htake, hu⟩ := hstep.of_json u' htake'
      obtain ⟨t, hrest, ht⟩ := (ih hu).of_json t' hrest'
      exact ⟨t, bind_eq_ok_iff.mpr ⟨u, htake, hrest⟩, ht⟩
    · intro t ht hnot
      obtain ⟨u, htake, hrest⟩ := bind_eq_ok_iff.mp ht
      have hnotu : .json ∉ u.flags := fun hmem => hnot (flags_subset_of_takeAll hrest hmem)
      obtain ⟨u', htake', hu⟩ := hstep.of_plain u htake hnotu
      obtain ⟨t', hrest', ht'⟩ := (ih hu).of_plain t hrest hnot
      exact ⟨t', bind_eq_ok_iff.mpr ⟨u', htake', hrest'⟩, ht'⟩

/-- Where an option is looked for, a request for JSON is taken, unless one was taken before. -/
theorem take_json (hpending : s.pending = none) (hpositional : s.positional = false) :
    s.take "--json" = if .json ∈ s.flags then .error (.misuse (.repeated "--json"))
      else .ok { s with flags := s.flags ++ [.json] } := by
  have hname : "--json".toList = ['-', '-', 'j', 's', 'o', 'n'] := by decide
  simp [take, hpending, hpositional, hname, takeLong, longNames, List.lookup, takeSwitch]

theorem beside_take_json (h : .json ∉ s.flags) :
    s.Beside { s with flags := s.flags ++ [.json] } :=
  ⟨rfl, rfl, rfl, rfl, h, fun f => by simp [or_comm]⟩

/-- Behind these arguments an option is looked for. -/
def TakesOption (before : List String) : Prop :=
  ∃ s, empty.takeAll before = .ok s ∧ s.pending = none ∧ s.positional = false

/-- Arguments with a request for JSON among them agree with those without it. -/
theorem takeAll_json_agree {before : List String} (h : TakesOption before) (after : List String) :
    Agree (empty.takeAll (before ++ after)) (empty.takeAll (before ++ "--json" :: after)) := by
  obtain ⟨s, hbefore, hpending, hpositional⟩ := h
  rw [takeAll_append, takeAll_append, hbefore]
  show Agree (s.takeAll after) (s.take "--json" >>= fun t => t.takeAll after)
  rw [take_json hpending hpositional]
  split_ifs with hjson
  · exact ⟨fun t' ht' => (by cases ht'), fun t ht hnot =>
      absurd (flags_subset_of_takeAll ht hjson) hnot⟩
  · exact takeAll_agree (beside_take_json hjson) after

theorem eq_json_of_take {a : String} (h : s.take a = .ok s') (hnot : .json ∉ s.flags)
    (hjson : .json ∈ s'.flags) : a = "--json" ∧ s.pending = none ∧ s.positional = false := by
  have hflags {i : Item} (h : s.Adds i s') : i = .flag .json := by
    have hmem := hjson
    rw [h.gains.flags, List.mem_append] at hmem
    have hi := hmem.resolve_left hnot
    cases i <;> simp_all [Item.flag?]
  rcases take_cases h with ⟨k, -, -, h⟩ | ⟨-, -, h⟩ | ⟨hpending, hpositional, h⟩
  · cases hflags h
  · cases hflags h
  · refine ⟨?_, hpending, hpositional⟩
    rcases h with ⟨-, rfl⟩ | ⟨i, hwritten, h⟩ | ⟨k, -, rfl⟩
    · exact absurd hjson hnot
    · obtain rfl := hflags h
      -- of the ways to write an option, one alone is left for a flag
      generalize has : [a] = as at hwritten
      cases hwritten with
      | @flag name _ hname =>
        obtain rfl := List.singleton_inj.mp has
        obtain ⟨before, after, heq, -⟩ := List.lookup_eq_some_iff.mp hname
        have hmem : (name, Switch.flag .json) ∈ longNames := by simp [heq]
        have hjson : name = "json" := by simpa [longNames] using hmem
        rw [hjson]
        decide
    · exact absurd hjson hnot

/-- Where JSON was asked for, the option stands where an option was looked for. -/
theorem exists_json_of_takeAll {as : List String} (h : s.takeAll as = .ok s')
    (hnot : .json ∉ s.flags) (hjson : .json ∈ s'.flags) :
    ∃ before after u, as = before ++ "--json" :: after ∧ s.takeAll before = .ok u ∧
      u.pending = none ∧ u.positional = false := by
  induction as generalizing s with
  | nil => exact absurd (Except.ok.inj h ▸ hjson) hnot
  | cons a as ih =>
    rw [takeAll, bind_eq_ok_iff] at h
    obtain ⟨u, htake, hrest⟩ := h
    by_cases hu : .json ∈ u.flags
    · obtain ⟨rfl, hpending, hpositional⟩ := eq_json_of_take htake hnot hu
      exact ⟨[], as, s, rfl, rfl, hpending, hpositional⟩
    · obtain ⟨before, after, v, rfl, hbefore, hv⟩ := ih hrest hu
      exact ⟨a :: before, after, v, rfl, bind_eq_ok_iff.mpr ⟨u, htake, hbefore⟩, hv⟩

end Scan

/-! ## Requests that differ in the form of the output -/

namespace Request

open Scan (TakesOption)

/-- A request for the plain form, and the same for JSON. -/
structure DifferInForm (r r' : Request) : Prop where
  recipe : r'.recipe = r.recipe
  values : r'.values = r.values
  command : r'.has .command = r.has .command
  plain : r.has .json = false
  json : r'.has .json = true

theorem finish_eq_ok_iff {s : Scan} {r : Request} :
    s.finish = .ok r ↔ s.pending = none ∧ s.recipe = some r.recipe ∧ s.flags = r.flags ∧
      s.values = r.values := by
  obtain ⟨recipe, flags, values, pending, positional⟩ := s
  obtain ⟨source, flags', values'⟩ := r
  cases pending <;> cases recipe <;> simp [Scan.finish]

/-- What is read without JSON makes a request when what is read with it does, and these differ in
the form of the output. -/
theorem finish_beside {s s' : Scan} (h : s.Beside s') :
    (∀ r', s'.finish = .ok r' → ∃ r, s.finish = .ok r ∧ DifferInForm r r') ∧
      ∀ r, s.finish = .ok r → ∃ r', s'.finish = .ok r' ∧ DifferInForm r r' := by
  -- the difference is that of what was read, from whichever side the requests are found
  have hdiffer {r r' : Request} (hr : s.finish = .ok r) (hr' : s'.finish = .ok r') :
      DifferInForm r r' := by
    obtain ⟨-, hrecipe, hflags, hvalues⟩ := finish_eq_ok_iff.mp hr
    obtain ⟨-, hrecipe', hflags', hvalues'⟩ := finish_eq_ok_iff.mp hr'
    have hhas (f : Flag) : r'.has f = true ↔ f = .json ∨ r.has f = true := by
      simp only [has, List.contains_iff_mem, ← hflags, ← hflags', h.mem_iff]
    refine ⟨?_, ?_, ?_, ?_, (hhas .json).mpr (.inl rfl)⟩
    · rw [h.recipe, hrecipe] at hrecipe'
      exact (Option.some.inj hrecipe').symm
    · rw [← hvalues', h.values, hvalues]
    · rw [Bool.eq_iff_iff, hhas]
      simp
    · simpa [has, ← hflags] using h.not_mem
  refine ⟨fun r' hr' => ?_, fun r hr => ?_⟩
  · obtain ⟨hpending, hrecipe, -⟩ := finish_eq_ok_iff.mp hr'
    have hr : s.finish = .ok ⟨r'.recipe, s.flags, s.values⟩ :=
      finish_eq_ok_iff.mpr ⟨h.pending ▸ hpending, h.recipe ▸ hrecipe, rfl, rfl⟩
    exact ⟨_, hr, hdiffer hr hr'⟩
  · obtain ⟨hpending, hrecipe, -⟩ := finish_eq_ok_iff.mp hr
    have hr' : s'.finish = .ok ⟨r.recipe, s'.flags, s'.values⟩ :=
      finish_eq_ok_iff.mpr ⟨h.pending.trans hpending, h.recipe.trans hrecipe, rfl, rfl⟩
    exact ⟨_, hr', hdiffer hr hr'⟩

variable {before after arguments : List String} {r r' : Request} {m : Machine}

theorem ofArguments_eq_ok_iff :
    ofArguments arguments = .ok r ↔ ∃ s, Scan.empty.takeAll arguments = .ok s ∧ s.finish = .ok r :=
  bind_eq_ok_iff

/-- Arguments that ask for JSON are accepted without that, and make the same request otherwise. -/
theorem exists_plain (h : TakesOption before)
    (hr' : ofArguments (before ++ "--json" :: after) = .ok r') :
    ∃ r, ofArguments (before ++ after) = .ok r ∧ DifferInForm r r' := by
  obtain ⟨s', hs', hfinish'⟩ := ofArguments_eq_ok_iff.mp hr'
  obtain ⟨s, hs, hbeside⟩ := (Scan.takeAll_json_agree h after).of_json s' hs'
  obtain ⟨r, hfinish, hdiffer⟩ := (finish_beside hbeside).1 r' hfinish'
  exact ⟨r, ofArguments_eq_ok_iff.mpr ⟨s, hs, hfinish⟩, hdiffer⟩

/-- Arguments that do not ask for JSON are accepted with that. -/
theorem exists_json (h : TakesOption before) (hr : ofArguments (before ++ after) = .ok r)
    (hplain : r.has .json = false) : ∃ r', ofArguments (before ++ "--json" :: after) = .ok r' := by
  obtain ⟨s, hs, hfinish⟩ := ofArguments_eq_ok_iff.mp hr
  obtain ⟨-, -, hflags, -⟩ := finish_eq_ok_iff.mp hfinish
  have hnot : .json ∉ s.flags := by
    rw [hflags]
    simpa [has] using hplain
  obtain ⟨s', hs', hbeside⟩ := (Scan.takeAll_json_agree h after).of_plain s hs hnot
  obtain ⟨r', hfinish', -⟩ := (finish_beside hbeside).2 r hfinish
  exact ⟨r', ofArguments_eq_ok_iff.mpr ⟨s', hs', hfinish'⟩⟩

/-- JSON is asked for just where the option stands where an option is looked for. -/
theorem has_json_iff (hr : ofArguments arguments = .ok r) :
    r.has .json = true ↔
      ∃ before after, TakesOption before ∧ arguments = before ++ "--json" :: after := by
  constructor
  · intro hjson
    obtain ⟨s, hs, hfinish⟩ := ofArguments_eq_ok_iff.mp hr
    obtain ⟨-, -, hflags, -⟩ := finish_eq_ok_iff.mp hfinish
    have hmem : .json ∈ s.flags := by
      rw [hflags]
      simpa [has] using hjson
    obtain ⟨before, after, u, heq, hbefore⟩ :=
      Scan.exists_json_of_takeAll hs (by simp [Scan.empty]) hmem
    exact ⟨before, after, ⟨u, hbefore⟩, heq⟩
  · rintro ⟨before, after, hplace, rfl⟩
    obtain ⟨_, -, hdiffer⟩ := exists_plain hplace hr
    exact hdiffer.json

/-! ## Runs in both forms -/

theorem DifferInForm.shellLine (h : DifferInForm r r') (filter : String) :
    r'.shellLine m filter = r.shellLine m filter := by
  simp only [Request.shellLine, config, changes, value?, h.values]

theorem DifferInForm.product (h : DifferInForm r r') (recipe : Recipe) :
    r'.product m recipe = r.product m recipe := by
  simp only [Request.product, h.command, h.shellLine]

theorem DifferInForm.journal (h : DifferInForm r r') (recipe : Recipe) :
    r'.journal m recipe = r.journal m recipe := by
  simp only [Request.journal, h.command, shellLineJournal, config, changes, value?, h.values]

/-- Two runs that differ in the form of the output fail for the same reason, or print the same
product. -/
theorem run_agree (h : DifferInForm r r') :
    (r'.run m).code = (r.run m).code ∧ (r'.run m).failure = (r.run m).failure ∧
      (r'.run m).log = (r.run m).log ∧
      ((r.run m).code = 0 → ∃ recipe p, r.loadRecipe m = .ok recipe ∧ r.product m recipe = .ok p ∧
        (r.run m).output = p.output false ∧ (r'.run m).output = p.output true) := by
  have hload : r'.loadRecipe m = r.loadRecipe m := by
    simp only [loadRecipe, h.recipe]
  have hthreshold : r'.threshold = r.threshold := by
    simp only [threshold, value?, h.values]
  simp only [run, hload, h.product, h.journal, hthreshold]
  cases r.loadRecipe m with
  | error f => exact ⟨rfl, rfl, rfl, fun hcode => by cases hcode⟩
  | ok recipe =>
    cases hproduct : r.product m recipe with
    | error f => simp [hproduct]
    | ok p => simp [hproduct, h.plain, h.json]

theorem parts_of_product {recipe : Recipe} {p : Product} (h : r.product m recipe = .ok p) :
    Draft.empty.compile recipe.steps = (p.draft, .ok p.filter) ∧
      p.command.isSome = r.has .command := by
  unfold product at h
  split at h
  · cases h
  · rename_i draft filter hcompile
    split at h
    · rename_i hcommand
      split at h
      · obtain rfl := Except.ok.inj h
        exact ⟨hcompile, hcommand.symm⟩
      · cases h
    · rename_i hcommand
      obtain rfl := Except.ok.inj h
      exact ⟨hcompile, (Bool.eq_false_of_not_eq_true hcommand).symm⟩

end Request

/-- The JSON form of a product can be taken by a reader of values. -/
theorem Product.readable_toValue (p : Product) : p.toValue.Readable maxDepth := by
  refine .object fun member hmember => ?_
  simp only [List.mem_append, List.mem_cons, List.not_mem_nil, or_false, List.mem_map,
    Option.mem_toList] at hmember
  rcases hmember with (rfl | rfl | rfl) | ⟨line, -, rfl⟩
  · exact .string _
  · exact .array fun v hv => by
      obtain ⟨e, -, rfl⟩ := List.mem_map.mp hv
      exact .string e
  · exact .array fun v hv => by
      obtain ⟨w, -, rfl⟩ := List.mem_map.mp hv
      exact .string _
  · exact .string line

/-- The filter of a compiled recipe is made of the pieces between blanks of its entries. -/
theorem filter_of_compile {steps : List Step} {draft : Draft} {filter : String}
    (h : Draft.empty.compile steps = (draft, .ok filter)) :
    filter = String.intercalate " " (draft.stack.flatMap fun e =>
      ((e.toList.splitOnP Text.isBlank).filter (· ≠ [])).map String.ofList) := by
  rw [(Draft.eq_render_of_compile h).2]
  simp only [Draft.render, Draft.renderAll, Text.unwords, ← Text.splitWords_eq_splitOnP]
  rfl

open Scan (TakesOption)

/-- A run in either form of the output. JSON is asked for just where the option stands, and
arguments with the option are accepted just when they are accepted without it and do not ask for
JSON already. The two runs have the same code, failure and report. Where they end well, the output
in JSON is, but for a line break at its end, the text of an object: the filter, the stack and the
warnings of the compiled recipe, and the command just when one is asked for. The filter is the words
of the entries of the stack with one space between each two. The plain output is the command if
there is one, and the filter if not, with a line break. -/
theorem execute_forms :
    (∀ arguments r, Request.ofArguments arguments = .ok r →
      (r.has .json = true ↔
        ∃ before after, TakesOption before ∧ arguments = before ++ "--json" :: after)) ∧
    ∀ before after, TakesOption before →
      ((∃ r', Request.ofArguments (before ++ "--json" :: after) = .ok r') ↔
        ∃ r, Request.ofArguments (before ++ after) = .ok r ∧ r.has .json = false) ∧
      ∀ r', Request.ofArguments (before ++ "--json" :: after) = .ok r' → ∀ m,
        let json := execute m (before ++ "--json" :: after)
        let plain := execute m (before ++ after)
        json.code = plain.code ∧ json.failure = plain.failure ∧ json.log = plain.log ∧
        (plain.code = 0 → ∃ source recipe draft filter, ∃ command : Option String, ∃ text,
          m.read r'.recipe = some source ∧ Recipe.ofText source = .ok recipe ∧
          Draft.empty.compile recipe.steps = (draft, .ok filter) ∧
          filter = String.intercalate " " (draft.stack.flatMap fun e =>
            ((e.toList.splitOnP Text.isBlank).filter (· ≠ [])).map String.ofList) ∧
          (command.isSome = true ↔ r'.has .command = true) ∧
          json.output = text ++ "\n" ∧
          Value.ofText text = .ok (.object ([("filter", .string filter),
            ("stack", .array (draft.stack.map .string)),
            ("warnings", .array (draft.warnings.map fun w => .string w.name))] ++
            command.toList.map fun line => ("command", .string line))) ∧
          plain.output = command.getD filter ++ "\n") := by
  refine ⟨fun arguments r => Request.has_json_iff, fun before after hplace => ⟨⟨?_, ?_⟩, ?_⟩⟩
  · rintro ⟨r', hr'⟩
    obtain ⟨r, hr, hdiffer⟩ := Request.exists_plain hplace hr'
    exact ⟨r, hr, hdiffer.plain⟩
  · rintro ⟨r, hr, hplain⟩
    exact Request.exists_json hplace hr hplain
  · intro r' hr' m
    obtain ⟨r, hr, hdiffer⟩ := Request.exists_plain hplace hr'
    have hjson : execute m (before ++ "--json" :: after) = r'.run m := by rw [execute, hr']
    have hplain : execute m (before ++ after) = r.run m := by rw [execute, hr]
    simp only [hjson, hplain]
    obtain ⟨hcode, hfailure, hlog, houtput⟩ := Request.run_agree (m := m) hdiffer
    refine ⟨hcode, hfailure, hlog, fun hzero => ?_⟩
    obtain ⟨recipe, p, hload, hproduct, hp, hp'⟩ := houtput hzero
    obtain ⟨source, hread, htext⟩ := Request.loadRecipe_eq_ok hload
    obtain ⟨hcompile, hcommand⟩ := Request.parts_of_product hproduct
    refine ⟨source, recipe, p.draft, p.filter, p.command, p.toValue.pretty, ?_, htext, hcompile,
      filter_of_compile hcompile, ?_, ?_, ?_, ?_⟩
    · rw [hdiffer.recipe, hread]
    · rw [hcommand, hdiffer.command]
    · exact hp'
    · exact (Value.ofText_pretty p.readable_toValue).1
    · exact hp

/-- A program whose path holds a quotation mark, a backslash, a line break and a letter that is not
ASCII, and a recipe with a warning: what stands in the object is what the plain output prints. -/
theorem execute_forms_of_escapes :
    let source := "[\x7b\"op\":\"end\"\x7d,\x7b\"op\":\"port\",\"port\":80\x7d," ++
      "\x7b\"op\":\"end\"\x7d]"
    let m : Machine := ⟨fun s => if s = "-" then some source else none, fun _ => true, []⟩
    let before := ["--tcpdump", "/a\"\\\né", "-"]
    let after := ["--command", "-s96"]
    let r' : Request := ⟨"-", [.json, .command], [(.tcpdump, "/a\"\\\né"), (.snaplen, "96")]⟩
    let json := execute m (before ++ "--json" :: after)
    let plain := execute m (before ++ after)
    TakesOption before ∧ Request.ofArguments (before ++ "--json" :: after) = .ok r' ∧
      plain.code = 0 ∧ json.code = 0 ∧
      ∃ line text, plain.output = line ++ "\n" ∧ json.output = text ++ "\n" ∧
        Value.ofText text = .ok (.object [("filter", .string "port 80"),
          ("stack", .array [.string "port 80"]),
          ("warnings", .array [.string "empty_expression"]), ("command", .string line)]) := by
  intro source m before after r' json plain
  have hplace : TakesOption before :=
    ⟨⟨some "-", [], [(.tcpdump, "/a\"\\\né")], none, false⟩, by decide +kernel, rfl, rfl⟩
  have hr' : Request.ofArguments (before ++ "--json" :: after) = .ok r' := by decide +kernel
  have hzero : plain.code = 0 := by decide +kernel
  obtain ⟨hcode, -, -, hforms⟩ := (execute_forms.2 before after hplace).2 r' hr' m
  obtain ⟨_, recipe, draft, filter, command, text, hread, htext, hcompile, -, hcommand, hjson,
    hvalue, hplain⟩ := hforms hzero
  obtain rfl := Option.some.inj hread
  have hrecipe : Recipe.ofText source = .ok ⟨[.commit, .port ⟨80, by decide⟩ .any .any, .commit]⟩ :=
    by decide +kernel
  obtain rfl := Except.ok.inj (htext.symm.trans hrecipe)
  have hdraft : Draft.empty.compile [.commit, .port ⟨80, by decide⟩ .any .any, .commit] =
      (⟨"port 80", ["port 80"], [.emptyExpression]⟩, .ok "port 80") := by decide +kernel
  obtain ⟨rfl, rfl⟩ :
      draft = ⟨"port 80", ["port 80"], [.emptyExpression]⟩ ∧ filter = "port 80" := by
    simpa using hcompile.symm.trans hdraft
  obtain ⟨line, rfl⟩ := Option.isSome_iff_exists.mp (hcommand.mpr rfl)
  exact ⟨hplace, hr', hzero, hcode.trans hzero, line, text, hplain, hjson, hvalue⟩

end CaptureFilter.CommandLine
