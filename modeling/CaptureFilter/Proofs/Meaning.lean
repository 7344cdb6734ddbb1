import CaptureFilter.Step
import Mathlib.Data.List.DropRight
import Mathlib.Data.List.Induction

/-!
# The meaning of a recipe by positions

Compiling runs the steps of a recipe one after another on a draft. This module says what comes out
of it without a run: everything is a function of the steps behind the last reset and of positions
among them. The text at a position is what the primitives and connectives before it add up to, back
to the nearest discard or group; a commit or group at a position makes an entry of the text there,
or a warning if there is none.

Since a commit does not end the text and a reset drops what came before it, one primitive may be
part of no entry, of one, or of many.

Results:
* `apply_draft`: one more step changes the meaning by positions as it changes a draft.
* `compile_eq_meaning`: compiling steps whose hosts are addresses leaves the draft of their meaning.
-/

namespace CaptureFilter

/-! ## Reference meaning -/

namespace Step

/-- The parts that are not empty, with one space between each two. -/
def phrase (parts : List String) : String :=
  String.intercalate " " (parts.filter (· ≠ ""))

/-- The keyword of a connective with one space on each side. -/
def padded (c : Connective) : String :=
  " " ++ c.keyword ++ " "

/-- What a step adds to the text: the phrase of a primitive, or a padded connective. -/
@[simp] def writing : Step → String
  | host a dir => phrase [dir.keyword, "host", a]
  | port p dir proto => phrase [proto.keyword, dir.keyword, "port", toString p.number]
  | portRange p q dir proto =>
    phrase [proto.keyword, dir.keyword, "portrange", toString p.number ++ "-" ++ toString q.number]
  | join c => padded c
  | reset | discard | group _ | commit => ""

/-- Whether the text starts anew behind a step. -/
@[simp] def opens : Step → Bool
  | discard | group _ => true
  | reset | host .. | port .. | portRange .. | join _ | commit => false

/-- What a step puts on the stack where the text is not empty. -/
@[simp] def entry (text : String) : Step → Option String
  | commit => some text
  | group op => some ((op.bind Connective.ofAlias?).elim "" padded ++ "(" ++ text ++ ")")
  | reset | discard | host .. | port .. | portRange .. | join _ => none

/-- Whether a step puts something on the stack, or a warning in its place. -/
@[simp] def commits : Step → Bool
  | commit | group _ => true
  | reset | discard | host .. | port .. | portRange .. | join _ => false

end Step

namespace Meaning

/-- The steps behind the last reset. -/
def sinceReset (steps : List Step) : List Step :=
  steps.rtakeWhile (· ≠ .reset)

/-- The steps before a position and behind the last one before it where the text starts anew. -/
def clause (P : List Step) (i : ℕ) : List Step :=
  (P.take i).rtakeWhile (!·.opens)

/-- The text at a position. -/
def textAt (P : List Step) (i : ℕ) : String :=
  String.join ((clause P i).map Step.writing)

/-- The entry that the step at a position makes. -/
def entryAt (P : List Step) (i : ℕ) : Option String :=
  if textAt P i = "" then none else P[i]?.bind (Step.entry (textAt P i))

/-- The warning that the step at a position gives. -/
def warningAt (P : List Step) (i : ℕ) : Option Warning :=
  if textAt P i = "" ∧ P[i]?.any Step.commits then some .emptyExpression else none

/-- The draft of some steps without a reset: the text at their end, and the entries and warnings of
all positions in order. -/
def draft (P : List Step) : Draft where
  fragment := textAt P P.length
  stack := (List.range P.length).filterMap (entryAt P)
  warnings := (List.range P.length).filterMap (warningAt P)

/-! ## One more step -/

theorem sinceReset_append_reset (steps : List Step) : sinceReset (steps ++ [.reset]) = [] := by
  simp [sinceReset]

theorem sinceReset_append {s : Step} (h : s ≠ .reset) (steps : List Step) :
    sinceReset (steps ++ [s]) = sinceReset steps ++ [s] := by
  simp [sinceReset, h]

/-- A step at the end does not change the text at the positions up to it. -/
theorem textAt_append (P : List Step) (s : Step) {i : ℕ} (hi : i ≤ P.length) :
    textAt (P ++ [s]) i = textAt P i := by
  rw [textAt, textAt, clause, clause, List.take_append_of_le_length hi]

theorem textAt_append_length (P : List Step) (s : Step) :
    textAt (P ++ [s]) (P ++ [s]).length =
      if s.opens then "" else textAt P P.length ++ s.writing := by
  unfold textAt clause
  rw [List.take_length, List.take_length, List.rtakeWhile_concat]
  cases s.opens <;> simp

/-- What the positions of `P ++ [s]` give in order is what those of `P` give, then what the last
one gives, if the positions of `P` do not see `s`. -/
theorem filterMap_range_append {α : Type} (f : List Step → ℕ → Option α) (P : List Step) (s : Step)
    (hf : ∀ i < P.length, f (P ++ [s]) i = f P i) :
    (List.range (P ++ [s]).length).filterMap (f (P ++ [s])) =
      (List.range P.length).filterMap (f P) ++ (f (P ++ [s]) P.length).toList := by
  have hlen : (P ++ [s]).length = P.length + 1 := by simp
  rw [hlen, List.range_succ, List.filterMap_append]
  congr 1
  · apply List.filterMap_congr
    intro i hi
    exact hf i (List.mem_range.mp hi)

theorem entryAt_append (P : List Step) (s : Step) {i : ℕ} (hi : i < P.length) :
    entryAt (P ++ [s]) i = entryAt P i := by
  rw [entryAt, entryAt, textAt_append P s hi.le, List.getElem?_append_left hi]

theorem warningAt_append (P : List Step) (s : Step) {i : ℕ} (hi : i < P.length) :
    warningAt (P ++ [s]) i = warningAt P i := by
  rw [warningAt, warningAt, textAt_append P s hi.le, List.getElem?_append_left hi]

theorem entryAt_length (P : List Step) (s : Step) :
    entryAt (P ++ [s]) P.length =
      if textAt P P.length = "" then none else s.entry (textAt P P.length) := by
  rw [entryAt, textAt_append P s le_rfl, List.getElem?_concat_length, Option.bind_some]

theorem warningAt_length (P : List Step) (s : Step) :
    warningAt (P ++ [s]) P.length =
      if textAt P P.length = "" ∧ s.commits then some .emptyExpression else none := by
  rw [warningAt, textAt_append P s le_rfl, List.getElem?_concat_length, Option.any_some]

theorem draft_append (P : List Step) (s : Step) :
    draft (P ++ [s]) =
      { fragment := if s.opens then "" else (draft P).fragment ++ s.writing
        stack := (draft P).stack ++
          (if (draft P).fragment = "" then none else s.entry (draft P).fragment).toList
        warnings := (draft P).warnings ++
          (if (draft P).fragment = "" ∧ s.commits then some Warning.emptyExpression
            else none).toList } := by
  simp only [draft, textAt_append_length,
    filterMap_range_append entryAt P s fun i hi => entryAt_append P s hi,
    filterMap_range_append warningAt P s fun i hi => warningAt_append P s hi,
    entryAt_length, warningAt_length]
  rfl

/-! ## Steps and their meaning -/

theorem text_eq_phrase (p : Primitive) : p.text = Step.phrase p.parts := rfl

theorem token_eq_padded (c : Connective) : c.token = Step.padded c := rfl

/-- A step that can be run changes the draft of a meaning to the meaning with that step. -/
theorem apply_draft {P : List Step} {s : Step} (hreset : s ≠ .reset)
    (hhost : ∀ a dir, s = .host a dir → Address.isLiteral a = true) :
    (draft P).apply s = .ok (draft (P ++ [s])) := by
  rw [draft_append]
  -- from here on only the draft that was reached matters
  generalize draft P = d
  cases s with
  | reset => exact absurd rfl hreset
  | discard => simp [Draft.apply, Draft.discard]
  | host a dir =>
    have ha : Address.ofText? a = some ⟨a, hhost a dir rfl⟩ := Address.ofText?_eq_some_iff.mpr rfl
    simp [Draft.apply, Draft.addHost, ha, Draft.add, text_eq_phrase, Primitive.parts]
  | port p dir proto =>
    simp [Draft.apply, Draft.add, text_eq_phrase, Primitive.parts, Port.text]
  | portRange p q dir proto =>
    simp [Draft.apply, Draft.add, text_eq_phrase, Primitive.parts, Port.text]
  | join c => simp [Draft.apply, Draft.join, token_eq_padded]
  | commit =>
    by_cases hf : d.fragment = ""
    · simp [Draft.apply, Draft.commit_of_fragment_eq hf, hf]
    · simp [Draft.apply, Draft.commit_of_fragment_ne hf, hf]
  | group op =>
    have htoken : Connective.token = Step.padded := rfl
    by_cases hf : d.fragment = ""
    · simp [Draft.apply, Draft.group_of_fragment_eq hf, hf]
    · simp [Draft.apply, Draft.group_of_fragment_ne hf, hf, htoken]

theorem run_empty {steps : List Step}
    (hhosts : ∀ a dir, Step.host a dir ∈ steps → Address.isLiteral a = true) :
    Draft.empty.run steps = (draft (sinceReset steps), .ok ()) := by
  induction steps using List.reverseRecOn with
  | nil => rfl
  | append_singleton steps s ih =>
    rw [Draft.run_append, ih fun a dir hmem => hhosts a dir (List.mem_append_left _ hmem)]
    by_cases hs : s = .reset
    · subst hs
      rw [sinceReset_append_reset]
      rfl
    · have happly := apply_draft (P := sinceReset steps) hs fun a dir hsa =>
        hhosts a dir (by simp [hsa])
      simp only [Draft.run, happly, sinceReset_append hs]

theorem isSome_entry (text : String) (s : Step) : (s.entry text).isSome = s.commits := by
  cases s <;> rfl

/-- Each commit and each group makes an entry or gives a warning, and nothing else does. -/
theorem length_draft (P : List Step) :
    (draft P).stack.length + (draft P).warnings.length = P.countP Step.commits := by
  induction P using List.reverseRecOn with
  | nil => rfl
  | append_singleton P s ih =>
    have hentry := isSome_entry (draft P).fragment s
    rw [draft_append, List.countP_append, ← ih, List.countP_singleton]
    simp only [List.length_append]
    by_cases hf : (draft P).fragment = ""
    · cases s.commits
      · simp [hf]
      · simp only [hf, if_true, and_self, Option.toList_none, Option.toList_some, List.length_nil,
          List.length_singleton]
        omega
    · rw [if_neg hf, if_neg fun h => hf h.1, ← hentry]
      cases s.entry (draft P).fragment
      · simp
      · simp only [Option.toList_some, Option.toList_none, List.length_singleton, List.length_nil,
          Option.isSome_some, if_true]
        omega

/-- Compiling steps whose hosts are all addresses succeeds from every draft. It leaves the text at
the end of the steps since the last reset, with an entry for each commit or group among them at a
position where there is text and a warning for each other one, and answers the words of the entries.
-/
theorem compile_eq_meaning (d : Draft) (steps : List Step)
    (hhosts : ∀ a dir, Step.host a dir ∈ steps → Address.isLiteral a = true) :
    d.compile steps =
      (draft (sinceReset steps), .ok (Draft.renderAll (draft (sinceReset steps)).stack)) ∧
    (draft (sinceReset steps)).stack.length + (draft (sinceReset steps)).warnings.length =
      (sinceReset steps).countP Step.commits := by
  refine ⟨?_, length_draft _⟩
  rw [Draft.compile, Draft.reset, run_empty hhosts]
  rfl

/-- A text that is committed twice and then enclosed, behind a reset and a warning, from a draft in
which something was written. -/
theorem compile_eq_meaning_of_repeats :
    (Address.isLiteral "::1" = true ∧ Address.isLiteral "10.0.0.1" = true) ∧
    (⟨"port 1", ["port 2"], [.emptyExpression]⟩ : Draft).compile
        [.commit, .host "::1" .src, .reset, .group none, .host "10.0.0.1" .any, .commit, .join .or,
          .commit, .group (some "!"), .join .and] =
      (⟨" and ", ["host 10.0.0.1", "host 10.0.0.1 or ", " not (host 10.0.0.1 or )"],
        [.emptyExpression]⟩, .ok "host 10.0.0.1 host 10.0.0.1 or not (host 10.0.0.1 or )") := by
  refine ⟨by decide, (compile_eq_meaning _ _ ?_).1.trans ?_⟩
  · intro a dir hmem
    simp only [List.mem_cons, Step.host.injEq, reduceCtorEq, List.not_mem_nil, false_or,
      or_false] at hmem
    rcases hmem with ⟨rfl, -⟩ | ⟨rfl, -⟩ <;> decide
  · decide +kernel

end Meaning

end CaptureFilter
