import CaptureFilter.Proofs.Edits
import CaptureFilter.Proofs.RecipeRoundTrip

/-!
# Recipes of calls

A recipe holds less than a caller may ask for: its ports are numbers in range, and the operator of a
group is a text. Nothing is lost by that. An edit is one step of a recipe, spelled so that it cannot
fail, and a row of calls comes to a row of edits, so there is a recipe for every row of calls. It
may be written to a file and compiled elsewhere.

Results:
* `Draft.apply_step`, `Draft.run_map_step`: steps that are made of edits do what the edits do.
* `Recipe.compile_ofCalls`: the recipe of a row of calls leaves the draft that the calls leave.
* `Recipe.same_power`: what calls can do and what recipes can do.
-/

namespace CaptureFilter

namespace Primitive

/-- The step that adds a primitive. -/
def step : Primitive → Step
  | host a dir => .host a.text dir
  | port p dir proto => .port p dir proto
  | portRange p q dir proto => .portRange p q dir proto

end Primitive

namespace Edit

/-- The step that makes an edit. A connective is spelled by its keyword. -/
def step : Edit → Step
  | reset => .reset
  | discard => .discard
  | add p => p.step
  | join c => .join c
  | group c => .group (c.map Connective.keyword)
  | commit => .commit

end Edit

namespace Draft

theorem apply_primitive_step (d : Draft) (p : Primitive) : d.apply p.step = .ok (d.add p) := by
  cases p with
  | host a dir => simp only [Primitive.step, apply, addHost, Address.ofText?_eq_some_iff.mpr rfl]
  | port | portRange => rfl

theorem apply_step (d : Draft) (e : Edit) : d.apply e.step = .ok (d.edit e) := by
  cases e with
  | add p => exact d.apply_primitive_step p
  | group c =>
    have halias : (c.map Connective.keyword).bind Connective.ofAlias? = c := by
      cases c with
      | none => rfl
      | some c => exact Connective.ofAlias?_keyword c
    simp only [Edit.step, apply, edit, halias]
  | reset | discard | join | commit => rfl

theorem run_map_step (d : Draft) (es : List Edit) :
    d.run (es.map Edit.step) = (d.editAll es, .ok ()) := by
  induction es generalizing d with
  | nil => rfl
  | cons e es ih =>
    rw [List.map_cons, run, apply_step]
    exact ih (d.edit e)

/-- A compilation starts from the empty draft and makes the edits of its steps. -/
theorem compile_fst_eq_editAll (d : Draft) (steps : List Step) :
    (d.compile steps).1 = empty.editAll (Step.edits steps) :=
  run_fst_eq_editAll empty steps

theorem performAll_map_step (d : Draft) (es : List Edit) :
    d.performAll (es.map fun e => .step e.step) = d.editAll es := by
  induction es generalizing d with
  | nil => rfl
  | cons e es ih =>
    have hedit : (d.perform (.step e.step)).1 = d.edit e := by
      rw [perform, apply_step]
      rfl
    rw [editAll_cons, ← ih, ← hedit]
    rfl

end Draft

namespace Recipe

/-- The recipe of a row of calls. -/
def ofCalls (calls : List Call) : Recipe :=
  ⟨(calls.flatMap Call.edits).map Edit.step⟩

/-- On every draft, the recipe of a row of calls compiles to what the calls leave. -/
theorem compile_ofCalls (calls : List Call) (d : Draft) :
    d.compile (ofCalls calls).steps =
      (Draft.empty.performAll calls, .ok (Draft.empty.performAll calls).render) := by
  rw [Draft.compile, ofCalls, Draft.run_map_step, Draft.performAll_eq_editAll]
  rfl

/-- For every row of calls there is a recipe that is read back from its own text and compiles, on
every draft, to the draft and the filter text that the calls leave. For every recipe, also for one
that fails to compile, there are calls that leave the draft of its compilation, none of them a
compilation itself. -/
theorem same_power :
    (∀ calls : List Call, ∃ r : Recipe, ofText r.text = .ok r ∧ ∀ d : Draft,
      d.compile r.steps =
        (Draft.empty.performAll calls, .ok (Draft.empty.performAll calls).render)) ∧
    (∀ (r : Recipe) (d : Draft), ∃ calls : List Call, (∀ steps, .compile steps ∉ calls) ∧
      Draft.empty.performAll calls = (d.compile r.steps).1) := by
  refine ⟨fun calls => ⟨ofCalls calls, ofText_text _, compile_ofCalls calls⟩, fun r d => ?_⟩
  refine ⟨(Step.edits r.steps).map fun e => .step e.step, fun steps => by simp, ?_⟩
  rw [Draft.performAll_map_step, d.compile_fst_eq_editAll]

end Recipe

end CaptureFilter
