import CaptureFilter.Step

/-!
# Calls on a draft

A caller may ask a draft for more than a recipe can hold: ports that still have to be checked, a
group with a connective that is already known, and the run of a whole list of steps.

Results:
* `Draft.perform_fst_of_error`: a call that fails leaves the draft as it was, unless it is a run.
-/

namespace CaptureFilter

/-- What a caller may ask of a draft. -/
inductive Call where
  | step (step : Step)
  | port (port : Port.Given) (direction : Direction) (protocol : Protocol)
  | portRange (first last : Port.Given) (direction : Direction) (protocol : Protocol)
  | group (connective : Option Connective)
  | compile (steps : List Step)
deriving DecidableEq

namespace Draft

/-- Adds the primitive for a port that is still to be checked. -/
def addPort (p : Port.Given) (dir : Direction) (proto : Protocol) (d : Draft) :
    Except Rejection Draft := do
  let p ← Port.ofGiven p
  return d.add (.port p dir proto)

/-- Adds the primitive for a range of ports that are still to be checked, the first one first. -/
def addPortRange (p q : Port.Given) (dir : Direction) (proto : Protocol) (d : Draft) :
    Except Rejection Draft := do
  let p ← Port.ofGiven p
  let q ← Port.ofGiven q
  return d.add (.portRange p q dir proto)

/-- Keeps the draft as it was if an operation on it fails. -/
def attempt (d : Draft) : Except Rejection Draft → Draft × Except Rejection Unit
  | .ok d' => (d', .ok ())
  | .error e => (d, .error e)

/-- Answers a call: the draft after it, and the rejection if it failed. -/
def perform (d : Draft) : Call → Draft × Except Rejection Unit
  | .step s => d.attempt (d.apply s)
  | .port p dir proto => d.attempt (d.addPort p dir proto)
  | .portRange p q dir proto => d.attempt (d.addPortRange p q dir proto)
  | .group c => (d.group c, .ok ())
  | .compile steps => d.reset.run steps

/-- The draft after a row of calls. A call that fails does not stop the ones after it. -/
def performAll (d : Draft) (calls : List Call) : Draft :=
  calls.foldl (fun d c => (d.perform c).1) d

theorem attempt_fst_of_error {d : Draft} {r : Except Rejection Draft} {e : Rejection}
    (h : (d.attempt r).2 = .error e) : (d.attempt r).1 = d := by
  cases r with
  | ok d' => simp [attempt] at h
  | error e' => rfl

theorem perform_fst_of_error {d : Draft} {c : Call} {e : Rejection}
    (hc : ∀ steps, c ≠ .compile steps) (h : (d.perform c).2 = .error e) :
    (d.perform c).1 = d := by
  cases c with
  | step s => exact attempt_fst_of_error h
  | port p dir proto => exact attempt_fst_of_error h
  | portRange p q dir proto => exact attempt_fst_of_error h
  | group c => simp [perform] at h
  | compile steps => exact absurd rfl (hc steps)

end Draft

end CaptureFilter
