import CaptureFilter.Proofs.Words
import CaptureFilter.Call

/-!
# Past commits and later calls

What was committed to a draft, and what was warned of, lies below what later calls add. A call that
does not drop everything neither reads nor changes it, so that the same calls do the same on a draft
with the same open fragment and nothing committed.

Results:
* `Draft.perform_above`: one call, with anything below what it works on.
* `Draft.performAll_above`: a row of calls.
* `Draft.performAll_frame`: a row of calls compared with the same row from an empty stack.
-/

namespace CaptureFilter

/-- Whether a call drops everything before it does what it is asked. -/
def Call.drops : Call → Bool
  | .step .reset | .compile _ => true
  | _ => false

namespace Draft

/-- The draft with the stack and the warnings of another one below its own. -/
def above (d below : Draft) : Draft :=
  { d with stack := below.stack ++ d.stack, warnings := below.warnings ++ d.warnings }

/-- The draft with the open fragment alone. -/
def bare (d : Draft) : Draft :=
  { d with stack := [], warnings := [] }

theorem bare_above (d : Draft) : d.bare.above d = d := by
  simp [bare, above]

variable (d below : Draft)

theorem commit_above : (d.above below).commit = d.commit.above below := by
  by_cases h : d.fragment = ""
  · have h' : (d.above below).fragment = "" := h
    rw [commit_of_fragment_eq h, commit_of_fragment_eq h']
    simp [above]
  · have h' : (d.above below).fragment ≠ "" := h
    rw [commit_of_fragment_ne h, commit_of_fragment_ne h']
    simp [above]

theorem group_above (c : Option Connective) :
    (d.above below).group c = (d.group c).above below := by
  by_cases h : d.fragment = ""
  · have h' : (d.above below).fragment = "" := h
    rw [group_of_fragment_eq h, group_of_fragment_eq h']
    simp [above]
  · have h' : (d.above below).fragment ≠ "" := h
    rw [group_of_fragment_ne h, group_of_fragment_ne h']
    simp [above]

/-- A call does with something below what it does without it, and answers the same. -/
theorem perform_above {c : Call} (h : c.drops = false) :
    (d.above below).perform c = ((d.perform c).1.above below, (d.perform c).2) := by
  cases c with
  | step s =>
    cases s with
    | reset => cases h
    | host a dir =>
      simp only [perform, apply, addHost]
      cases Address.ofText? a <;> rfl
    | group op =>
      simp only [perform, apply, group_above]
      rfl
    | commit =>
      simp only [perform, apply, commit_above]
      rfl
    | _ => rfl
  | port p dir proto =>
    simp only [perform, addPort]
    cases Port.ofGiven p <;> rfl
  | portRange p q dir proto =>
    simp only [perform, addPortRange]
    cases Port.ofGiven p <;> cases Port.ofGiven q <;> rfl
  | group k =>
    simp only [perform, group_above]
  | compile steps => cases h

theorem performAll_above {calls : List Call} (h : ∀ c ∈ calls, c.drops = false) :
    (d.above below).performAll calls = (d.performAll calls).above below := by
  induction calls generalizing d with
  | nil => rfl
  | cons c calls ih =>
    rw [performAll, List.foldl_cons, perform_above d below (h c (by simp))]
    exact ih _ fun c' hc' => h c' (by simp [hc'])

/-- Take any draft and any row of calls none of which drops everything, some of which may fail. From
the open fragment alone, the calls leave the same fragment, and the stack and the warnings that they
add; from the draft itself, these come behind what was there. Each call gets the same answer. The
filter goes on behind the earlier one, after one space, unless one of the two is empty. -/
theorem performAll_frame {calls : List Call} (h : ∀ c ∈ calls, c.drops = false) :
    let alone := d.bare.performAll calls
    let later := d.performAll calls
    later = ⟨alone.fragment, d.stack ++ alone.stack, d.warnings ++ alone.warnings⟩ ∧
    (∀ before c after, calls = before ++ c :: after →
      ((d.performAll before).perform c).2 = ((d.bare.performAll before).perform c).2) ∧
    d.render.toList <+: later.render.toList ∧
    later.render =
      if d.render = "" then alone.render
      else if alone.render = "" then d.render
      else d.render ++ " " ++ alone.render := by
  intro alone later
  -- a draft is its bare form above itself, so the two runs start from one draft
  have hrun {calls : List Call} (h : ∀ c ∈ calls, c.drops = false) :
      d.performAll calls = (d.bare.performAll calls).above d := by
    rw [← performAll_above d.bare d h, bare_above]
  have hlater : later = alone.above d := hrun h
  have hrender : later.render =
      if d.render = "" then alone.render
      else if alone.render = "" then d.render
      else d.render ++ " " ++ alone.render := by
    rw [hlater]
    exact Text.renderAll_append d.stack alone.stack
  refine ⟨hlater, ?_, ?_, hrender⟩
  · rintro before c after rfl
    rw [hrun fun c' hc' => h c' (by simp [hc']), perform_above _ d (h c (by simp))]
  · rw [hrender]
    split_ifs with hd halone
    · simp [hd]
    · exact List.prefix_refl _
    · rw [String.append_assoc, String.toList_append]
      exact List.prefix_append _ _

/-- The open fragment is committed as it is, two of the calls fail, and a group comes last. -/
theorem performAll_frame_of_failures :
    let d : Draft := ⟨"host 10.0.0.1", ["port 22", " "], [.emptyExpression]⟩
    let calls : List Call :=
      [.step .commit, .step (.host "10.0.0.256" .any), .step .discard, .step .commit,
        .port (.text "65536") .src .any, .port (.number 80) .any .tcp, .group (some .or)]
    (∀ c ∈ calls, c.drops = false) ∧
      d.bare.performAll calls =
        ⟨"", ["host 10.0.0.1", " or (tcp port 80)"], [.emptyExpression]⟩ ∧
      d.performAll calls =
        ⟨"", ["port 22", " ", "host 10.0.0.1", " or (tcp port 80)"],
          [.emptyExpression, .emptyExpression]⟩ ∧
      (d.performAll calls).render = "port 22" ++ " " ++ "host 10.0.0.1 or (tcp port 80)" := by
  intro d calls
  have hdrops : ∀ c ∈ calls, c.drops = false := List.forall_iff_forall_mem.mp (by decide)
  have halone : d.bare.performAll calls =
      ⟨"", ["host 10.0.0.1", " or (tcp port 80)"], [.emptyExpression]⟩ := by decide +kernel
  have hd : d.render = "port 22" := by decide +kernel
  obtain ⟨hlater, -, -, hrender⟩ := performAll_frame d hdrops
  rw [halone] at hlater hrender
  refine ⟨hdrops, halone, hlater, ?_⟩
  rw [hrender, hd, if_neg (by decide)]
  decide +kernel

end Draft

end CaptureFilter
