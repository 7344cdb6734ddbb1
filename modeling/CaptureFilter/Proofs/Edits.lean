import CaptureFilter.Call
import Mathlib.Data.List.Induction

/-!
# Edits of a draft

Whether a call on a draft fails depends on its arguments alone, and a call that fails does nothing,
apart from the run of a list of steps, which does what the steps before the failing one do. So every
row of calls comes to a row of edits: operations whose arguments have been checked and that cannot
fail. There are six of them, and what holds of every reachable draft is an induction over these six.

Results:
* `Draft.performAll_eq_editAll`: a row of calls leaves the draft that its edits leave.
* `Draft.performAll_induction`: what holds of the empty draft and is kept by each edit holds of
  every draft that calls reach.
-/

namespace CaptureFilter

/-- An operation on a draft that cannot fail: dropping everything or the open fragment, adding to
the fragment, and committing it, as a group or as it stands. -/
inductive Edit where
  | reset
  | discard
  | add (primitive : Primitive)
  | join (connective : Connective)
  | group (connective : Option Connective)
  | commit
deriving DecidableEq

/-! ## What calls come to -/

namespace Step

/-- What a step does, unless it fails. -/
def edit? : Step → Option Edit
  | reset => some .reset
  | discard => some .discard
  | host a dir => (Address.ofText? a).map fun a => .add (.host a dir)
  | port p dir proto => some (.add (.port p dir proto))
  | portRange p q dir proto => some (.add (.portRange p q dir proto))
  | join c => some (.join c)
  | group op => some (.group (op.bind Connective.ofAlias?))
  | commit => some .commit

/-- What the steps before the first that fails do. -/
def edits : List Step → List Edit
  | [] => []
  | s :: ss =>
    match s.edit? with
    | some e => e :: edits ss
    | none => []

end Step

namespace Call

/-- What a call does. A call that fails does nothing, unless it is a run. -/
def edits : Call → List Edit
  | step s => s.edit?.toList
  | port p dir proto =>
    match Port.ofGiven p with
    | .ok p => [.add (.port p dir proto)]
    | .error _ => []
  | portRange p q dir proto =>
    match Port.ofGiven p, Port.ofGiven q with
    | .ok p, .ok q => [.add (.portRange p q dir proto)]
    | _, _ => []
  | group c => [.group c]
  | compile steps => .reset :: Step.edits steps

end Call

/-! ## Edits and calls -/

namespace Draft

/-- Makes one edit. -/
def edit (d : Draft) : Edit → Draft
  | .reset => d.reset
  | .discard => d.discard
  | .add p => d.add p
  | .join c => d.join c
  | .group c => d.group c
  | .commit => d.commit

/-- Makes edits in order. -/
def editAll (d : Draft) (es : List Edit) : Draft :=
  es.foldl edit d

@[simp] theorem editAll_nil (d : Draft) : d.editAll [] = d := rfl

@[simp] theorem editAll_cons (d : Draft) (e : Edit) (es : List Edit) :
    d.editAll (e :: es) = (d.edit e).editAll es := rfl

theorem editAll_append (d : Draft) (es fs : List Edit) :
    d.editAll (es ++ fs) = (d.editAll es).editAll fs :=
  List.foldl_append

/-- A step makes its edit, or fails on every draft alike. -/
theorem apply_cases (s : Step) :
    (∃ e, s.edit? = some e ∧ ∀ d : Draft, d.apply s = .ok (d.edit e)) ∨
    (s.edit? = none ∧ ∃ r, ∀ d : Draft, d.apply s = .error r) := by
  cases s with
  | host a dir =>
    simp only [Step.edit?, apply, addHost]
    cases Address.ofText? a with
    | some a => exact .inl ⟨_, rfl, fun _ => rfl⟩
    | none => exact .inr ⟨rfl, _, fun _ => rfl⟩
  | _ => exact .inl ⟨_, rfl, fun _ => rfl⟩

theorem run_fst_eq_editAll (d : Draft) (steps : List Step) :
    (d.run steps).1 = d.editAll (Step.edits steps) := by
  induction steps generalizing d with
  | nil => rfl
  | cons s ss ih =>
    rcases apply_cases s with ⟨e, he, happly⟩ | ⟨he, r, happly⟩
    · simp only [run, happly, Step.edits, he, editAll_cons]
      exact ih (d.edit e)
    · simp only [run, happly, Step.edits, he, editAll_nil]

theorem perform_fst_eq_editAll (d : Draft) (c : Call) : (d.perform c).1 = d.editAll c.edits := by
  cases c with
  | step s =>
    rcases apply_cases s with ⟨e, he, happly⟩ | ⟨he, r, happly⟩
    · simp [perform, happly, attempt, Call.edits, he]
    · simp [perform, happly, attempt, Call.edits, he]
  | port p dir proto =>
    simp only [perform, addPort, Call.edits]
    cases Port.ofGiven p <;> rfl
  | portRange p q dir proto =>
    simp only [perform, addPortRange, Call.edits]
    cases Port.ofGiven p <;> cases Port.ofGiven q <;> rfl
  | group c => rfl
  | compile steps => exact run_fst_eq_editAll d.reset steps

/-- A row of calls leaves the draft that its edits leave. -/
theorem performAll_eq_editAll (d : Draft) (calls : List Call) :
    d.performAll calls = d.editAll (calls.flatMap Call.edits) := by
  induction calls generalizing d with
  | nil => rfl
  | cons c calls ih =>
    rw [List.flatMap_cons, editAll_append, ← perform_fst_eq_editAll, ← ih]
    rfl

/-- What holds of the empty draft and is kept by each edit holds of every draft that calls reach. -/
theorem performAll_induction {Inv : Draft → Prop} (hempty : Inv empty)
    (hedit : ∀ d e, Inv d → Inv (d.edit e)) (calls : List Call) : Inv (empty.performAll calls) := by
  rw [performAll_eq_editAll]
  generalize calls.flatMap Call.edits = es
  induction es using List.reverseRecOn with
  | nil => exact hempty
  | append_singleton es e ih =>
    rw [editAll_append]
    exact hedit _ e ih

end Draft

end CaptureFilter
