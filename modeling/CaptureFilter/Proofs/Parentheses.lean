import CaptureFilter.Proofs.Lexing

/-!
# Parentheses of a filter

Only grouping writes parentheses, it writes them around a text that has none, and it commits that
text at once. So a group never comes to stand in another one, whatever calls were made and in which
order: a stack entry has one pair of parentheses or none.

A filter is made of the entries by cutting them into words again. A reader that goes over a text
and keeps only whether it is in a group, and whether something was written there, passes over blanks
without a change. So it reads the filter as it reads the entries one after the other.

Results:
* `Draft.performAll_shaped`: the shape of the fragment and of each stack entry.
* `Draft.Shaped.render_eq_empty_iff`: when a filter is empty.
* `Nesting.run_renderAll`: a filter is read as its entries are.
* `Draft.performAll_parentheses`: groups of a filter are closed, not nested and not empty.
-/

namespace CaptureFilter

/-! ## The shape of entries -/

/-- A text without parentheses in which something is written. -/
structure IsPlain (s : String) : Prop where
  noParenthesis : ∀ c ∈ s.toList, c ≠ '(' ∧ c ≠ ')'
  written : ∃ c ∈ s.toList, Text.isBlank c = false

/-- A plain text, or one in parentheses, with a padded connective in front of them or without. -/
inductive IsEntry : String → Prop
  | plain {s : String} : IsPlain s → IsEntry s
  | group (k : Option Connective) {s : String} : IsPlain s →
    IsEntry (k.elim "" Connective.token ++ "(" ++ s ++ ")")

theorem IsPlain.ne_empty {s : String} (h : IsPlain s) : s ≠ "" := by
  rintro rfl
  obtain ⟨c, hc, -⟩ := h.written
  simp at hc

theorem IsEntry.written {s : String} (h : IsEntry s) : ∃ c ∈ s.toList, Text.isBlank c = false := by
  cases h with
  | plain hs => exact hs.written
  | group k _ => exact ⟨'(', by simp, by decide⟩

/-- A plain text stays plain when text without parentheses is added. -/
theorem IsPlain.of_append {s t : String} (hs : ∀ c ∈ s.toList, c ≠ '(' ∧ c ≠ ')') (ht : IsPlain t) :
    IsPlain (s ++ t) := by
  constructor
  · intro c hc
    rw [String.toList_append] at hc
    rcases List.mem_append.mp hc with hc | hc
    · exact hs c hc
    · exact ht.noParenthesis c hc
  · obtain ⟨c, hc, hwritten⟩ := ht.written
    exact ⟨c, by simp [hc], hwritten⟩

theorem ne_of_isWordChar {c : Char} (h : isWordChar c = true) : c ≠ '(' ∧ c ≠ ')' := by
  have := isParenthesis_of_isWordChar h
  simpa [isParenthesis] using this

theorem Primitive.isPlain_text (p : Primitive) : IsPlain p.text := by
  constructor
  · intro c hc
    rw [text, String.toList_intercalate] at hc
    rcases Text.mem_intercalate hc with rfl | ⟨w, hw, hc⟩
    · decide
    · obtain ⟨v, hv, rfl⟩ := List.mem_map.mp hw
      exact ne_of_isWordChar ((mem_words hv).2 c hc)
  · obtain ⟨c, cs, htext, hc⟩ := p.text_cons
    have hblank : Text.isBlank c = false :=
      isBlank_of_isWordChar (by simp [isWordChar, Char.isAlphanum, hc])
    exact ⟨c, by simp [htext], hblank⟩

theorem Connective.isPlain_token (k : Connective) : IsPlain k.token := by
  constructor
  · cases k <;> simp [token, keyword]
  · cases k <;> simp [token, keyword, Text.isBlank]

namespace Draft

/-- The fragment of a draft has no parentheses, and each entry has the shape that committing gives
it. -/
structure Shaped (d : Draft) : Prop where
  fragment : d.fragment = "" ∨ IsPlain d.fragment
  stack : ∀ e ∈ d.stack, IsEntry e

theorem Shaped.noParenthesis {d : Draft} (h : d.Shaped) :
    ∀ c ∈ d.fragment.toList, c ≠ '(' ∧ c ≠ ')' := by
  rcases h.fragment with hf | hf
  · simp [hf]
  · exact hf.noParenthesis

/-- Each edit keeps the shape of a draft: a group is closed and committed before anything else can
be added to it. -/
theorem Shaped.edit {d : Draft} (h : d.Shaped) (e : Edit) : (d.edit e).Shaped := by
  cases e with
  | reset => exact ⟨.inl rfl, by simp [Draft.edit, reset, empty]⟩
  | discard => exact ⟨.inl rfl, h.stack⟩
  | add p => exact ⟨.inr (.of_append h.noParenthesis p.isPlain_text), h.stack⟩
  | join k => exact ⟨.inr (.of_append h.noParenthesis k.isPlain_token), h.stack⟩
  | commit =>
    rcases h.fragment with hf | hf
    · rw [Draft.edit, commit_of_fragment_eq hf]
      exact ⟨h.fragment, h.stack⟩
    · rw [Draft.edit, commit_of_fragment_ne hf.ne_empty]
      have hentry : IsEntry d.fragment := .plain hf
      exact ⟨h.fragment, List.forall_mem_append.mpr ⟨h.stack, List.forall_mem_singleton.mpr hentry⟩⟩
  | group k =>
    rcases h.fragment with hf | hf
    · rw [Draft.edit, group_of_fragment_eq hf]
      exact ⟨h.fragment, h.stack⟩
    · rw [Draft.edit, group_of_fragment_ne hf.ne_empty]
      have hentry := IsEntry.group k hf
      exact ⟨.inl rfl, List.forall_mem_append.mpr ⟨h.stack, List.forall_mem_singleton.mpr hentry⟩⟩

theorem performAll_shaped (calls : List Call) : (empty.performAll calls).Shaped :=
  performAll_induction ⟨.inl rfl, by simp [empty]⟩ (fun _ e h => h.edit e) calls

/-- In each entry something is written, so that only a stack without entries makes no filter. -/
theorem Shaped.render_eq_empty_iff {d : Draft} (h : d.Shaped) : d.render = "" ↔ d.stack = [] := by
  constructor
  · intro hempty
    rw [List.eq_nil_iff_forall_not_mem]
    intro e he
    obtain ⟨c, hc, hwritten⟩ := (h.stack e he).written
    have hblanks := Text.filter_renderAll d.stack
    rw [← render, hempty, String.toList_empty, List.filter_nil, eq_comm,
      List.filter_eq_nil_iff] at hblanks
    have hmem : c ∈ (String.join d.stack).toList := by
      rw [String.toList_join]
      exact List.mem_flatMap.mpr ⟨e, he, hc⟩
    simpa [hwritten] using hblanks c hmem
  · intro hnil
    rw [render, hnil]
    rfl

end Draft

/-! ## Reading parentheses -/

/-- Where a reader of parentheses stands in a text: outside of groups, or in one in which nothing,
or something, is written yet. -/
inductive Nesting where
  | outside
  | opened
  | filled
deriving DecidableEq

namespace Nesting

/-- Opens a group, unless one is open. -/
def enter : Nesting → Option Nesting
  | outside => some opened
  | opened | filled => none

/-- Closes a group in which something is written. -/
def leave : Nesting → Option Nesting
  | filled => some outside
  | outside | opened => none

/-- Takes something that is written. -/
def write : Nesting → Nesting
  | outside => outside
  | opened | filled => filled

/-- Takes one character. -/
def step (n : Nesting) (c : Char) : Option Nesting :=
  if Text.isBlank c then some n
  else if c = '(' then n.enter
  else if c = ')' then n.leave
  else some n.write

/-- Takes characters in order. -/
def run (n : Nesting) (cs : List Char) : Option Nesting :=
  cs.foldlM step n

/-- How many groups are open. -/
def depth : Nesting → ℕ
  | outside => 0
  | opened | filled => 1

@[simp] theorem depth_outside : outside.depth = 0 := rfl

@[simp] theorem run_nil (n : Nesting) : n.run [] = some n := rfl

theorem run_cons (n : Nesting) (c : Char) (cs : List Char) :
    n.run (c :: cs) = (n.step c).bind fun m => m.run cs := by
  simp only [run, List.foldlM_cons]
  rfl

theorem run_append (n : Nesting) (cs ds : List Char) :
    n.run (cs ++ ds) = (n.run cs).bind fun m => m.run ds := by
  simp only [run, List.foldlM_append]
  rfl

theorem run_cons_eq_some {n m : Nesting} {c : Char} {cs : List Char} :
    n.run (c :: cs) = some m ↔ ∃ k, n.step c = some k ∧ k.run cs = some m := by
  rw [run_cons, Option.bind_eq_some_iff]

theorem run_append_eq_some {n m : Nesting} {cs ds : List Char} :
    n.run (cs ++ ds) = some m ↔ ∃ k, n.run cs = some k ∧ k.run ds = some m := by
  rw [run_append, Option.bind_eq_some_iff]

theorem step_opening (n : Nesting) : n.step '(' = n.enter := by
  rw [step, if_neg (by decide), if_pos rfl]

theorem step_closing (n : Nesting) : n.step ')' = n.leave := by
  rw [step, if_neg (by decide), if_neg (by decide), if_pos rfl]

theorem step_blank (n : Nesting) {c : Char} (h : Text.isBlank c = true) : n.step c = some n := by
  rw [step, if_pos h]

theorem step_other (n : Nesting) {c : Char} (hblank : Text.isBlank c = false)
    (h : c ≠ '(' ∧ c ≠ ')') : n.step c = some n.write := by
  rw [step, hblank, if_neg Bool.false_ne_true, if_neg h.1, if_neg h.2]

/-- One character opens a group, closes it, or leaves as many open as there are. -/
theorem step_eq_some {n m : Nesting} {c : Char} (h : n.step c = some m) :
    (c = '(' ∧ n = outside ∧ m = opened) ∨ (c = ')' ∧ n = filled ∧ m = outside) ∨
      (c ≠ '(' ∧ c ≠ ')' ∧ m.depth = n.depth) := by
  by_cases hopening : c = '('
  · rw [hopening, step_opening] at h
    cases n <;> simp_all [enter]
  by_cases hclosing : c = ')'
  · rw [hclosing, step_closing] at h
    cases n <;> simp_all [leave]
  refine .inr (.inr ⟨hopening, hclosing, ?_⟩)
  cases hblank : Text.isBlank c with
  | true =>
    rw [step_blank n hblank] at h
    rw [Option.some.inj h]
  | false =>
    rw [step_other n hblank ⟨hopening, hclosing⟩] at h
    rw [← Option.some.inj h]
    cases n <;> rfl

theorem count_of_run {n m : Nesting} {cs : List Char} (h : n.run cs = some m) :
    cs.count '(' + n.depth = cs.count ')' + m.depth := by
  induction cs generalizing n with
  | nil =>
    obtain rfl := Option.some.inj h
    rfl
  | cons c cs ih =>
    obtain ⟨k, hstep, hrun⟩ := run_cons_eq_some.mp h
    have := ih hrun
    rcases step_eq_some hstep with ⟨rfl, rfl, rfl⟩ | ⟨rfl, rfl, rfl⟩ | ⟨hopening, hclosing, hdepth⟩
    · simp [depth] at this ⊢
      omega
    · simp [depth] at this ⊢
      omega
    · rw [List.count_cons_of_ne hopening, List.count_cons_of_ne hclosing]
      omega

theorem depth_le (n : Nesting) : n.depth ≤ 1 := by
  cases n <;> decide

/-- No group of a text that can be read is closed where it was opened. -/
theorem not_infix_of_run {n m : Nesting} {cs : List Char} (h : n.run cs = some m) :
    ¬ ['(', ')'] <:+: cs := by
  rintro ⟨front, back, rfl⟩
  rw [List.append_assoc] at h
  obtain ⟨k, -, h⟩ := run_append_eq_some.mp h
  obtain ⟨l, hopening, h⟩ := run_cons_eq_some.mp h
  obtain ⟨o, hclosing, -⟩ := run_cons_eq_some.mp h
  obtain ⟨-, rfl⟩ : k = outside ∧ l = opened := by simpa using step_eq_some hopening
  simpa using step_eq_some hclosing

/-- Blanks change nothing. -/
theorem run_filter (n : Nesting) (cs : List Char) :
    n.run (cs.filter (!Text.isBlank ·)) = n.run cs := by
  induction cs generalizing n with
  | nil => rfl
  | cons c cs ih =>
    cases hblank : Text.isBlank c with
    | true =>
      rw [List.filter_cons_of_neg (by simp [hblank]), ih, run_cons, step_blank n hblank]
      rfl
    | false =>
      rw [List.filter_cons_of_pos (by simp [hblank]), run_cons, run_cons]
      exact congrArg _ (funext ih)

section

variable {cs : List Char} (h : ∀ c ∈ cs, c ≠ '(' ∧ c ≠ ')')
include h

/-- Text without parentheses leaves a reader where it is, outside of groups and in them. -/
theorem run_of_noParenthesis {n : Nesting} (hn : n.write = n) : n.run cs = some n := by
  induction cs with
  | nil => rfl
  | cons c cs ih =>
    have hstep : n.step c = some n := by
      cases hblank : Text.isBlank c with
      | true => exact step_blank n hblank
      | false => rw [step_other n hblank (h c (by simp)), hn]
    rw [run_cons, hstep]
    exact ih fun d hd => h d (by simp [hd])

/-- Text without parentheses in which something is written fills a group. -/
theorem run_opened (hwritten : ∃ c ∈ cs, Text.isBlank c = false) :
    opened.run cs = some filled := by
  induction cs with
  | nil => simp at hwritten
  | cons c cs ih =>
    have htail : ∀ d ∈ cs, d ≠ '(' ∧ d ≠ ')' := fun d hd => h d (by simp [hd])
    cases hblank : Text.isBlank c with
    | true =>
      rw [run_cons, step_blank _ hblank]
      exact ih htail (by simpa [hblank] using hwritten)
    | false =>
      rw [run_cons, step_other _ hblank (h c (by simp))]
      exact run_of_noParenthesis htail rfl

end

/-- The groups of an entry are closed in it. -/
theorem run_entry {e : String} (h : IsEntry e) : outside.run e.toList = some outside := by
  cases h with
  | plain hs => exact run_of_noParenthesis hs.noParenthesis rfl
  | @group k s hs =>
    have hk : outside.run (k.elim "" Connective.token).toList = some outside := by
      cases k with
      | none => rfl
      | some k => exact run_of_noParenthesis k.isPlain_token.noParenthesis rfl
    have hopening : outside.run "(".toList = some opened := by decide
    have hs' : opened.run s.toList = some filled := run_opened hs.noParenthesis hs.written
    have hclosing : filled.run ")".toList = some outside := by decide
    simp only [String.toList_append, run_append, hk, hopening, hs', hclosing, Option.bind_some]

theorem run_join {es : List String} (h : ∀ e ∈ es, IsEntry e) :
    outside.run (String.join es).toList = some outside := by
  induction es with
  | nil => rfl
  | cons e es ih =>
    rw [String.join_cons, String.toList_append, run_append, run_entry (h e (by simp))]
    exact ih fun f hf => h f (by simp [hf])

theorem run_renderAll (n : Nesting) (fragments : List String) :
    n.run (Draft.renderAll fragments).toList = n.run (String.join fragments).toList := by
  rw [← run_filter, Text.filter_renderAll, run_filter]

end Nesting

/-! ## Groups of a filter -/

/-- Whatever calls were made, whether or not they failed: the open fragment has no parenthesis, and
each stack entry is a text without any, or one such text in parentheses, with a padded connective in
front of them or without. No entry is blank and no group is empty. So in the filter all groups are
closed, and in no place is more than one of them open. -/
theorem Draft.performAll_parentheses (calls : List Call) :
    let d := empty.performAll calls
    (∀ c ∈ d.fragment.toList, c ≠ '(' ∧ c ≠ ')') ∧
    (∀ e ∈ d.stack, IsEntry e ∧ (∃ c ∈ e.toList, Text.isBlank c = false) ∧
      ¬ ['(', ')'] <:+: e.toList) ∧
    ¬ ['(', ')'] <:+: d.render.toList ∧
    d.render.toList.count '(' = d.render.toList.count ')' ∧
    ∀ front, front <+: d.render.toList →
      front.count ')' ≤ front.count '(' ∧ front.count '(' ≤ front.count ')' + 1 := by
  intro d
  have h : d.Shaped := performAll_shaped calls
  have hrun : Nesting.outside.run d.render.toList = some .outside := by
    rw [render, Nesting.run_renderAll, Nesting.run_join h.stack]
  refine ⟨h.noParenthesis, fun e he => ?_, Nesting.not_infix_of_run hrun, ?_, ?_⟩
  · have hentry := h.stack e he
    exact ⟨hentry, hentry.written, Nesting.not_infix_of_run (Nesting.run_entry hentry)⟩
  · simpa using Nesting.count_of_run hrun
  · -- a reader of the whole has read every front of it
    rintro front ⟨back, hback⟩
    rw [← hback] at hrun
    obtain ⟨n, hfront, -⟩ := Nesting.run_append_eq_some.mp hrun
    have hcount := Nesting.count_of_run hfront
    have hdepth := n.depth_le
    rw [Nesting.depth_outside] at hcount
    omega

end CaptureFilter
