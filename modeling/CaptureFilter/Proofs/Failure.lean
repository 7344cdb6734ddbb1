import CaptureFilter.Call
import CaptureFilter.Proofs.Computations
import Mathlib.Control.Monad.Basic

/-!
# Failing calls

A call is answered from the draft it was asked of, so the answer alone does not say what would be
left of a failing call that changes the draft piece by piece. Here every call is also carried out in
place: each change is made as soon as it is reached, and stays when a rejection stops the work. The
two accounts agree, because every argument is checked before the first change.

A run of steps is stopped by the first host that is no address, and by nothing else.

Results:
* `Draft.perform_eq_inPlace`, `Draft.compile_eq_inPlace`: the two accounts agree.
* `Draft.run_of_literal`, `Draft.run_of_not_literal`: where a run stops.
* `Draft.failure_exact`: what a failing call and a failing run leave.
-/

namespace CaptureFilter

/-! ## Work in place -/

/-- Work on a draft. -/
abbrev Work := InPlace Rejection Draft

namespace Work

/-- Writes behind the text of the open fragment. -/
def write (t : String) : Work Unit :=
  modify fun d => { d with fragment := d.fragment ++ t }

/-- Takes the value of a check, or stops. -/
def check {α : Type} : Except Rejection α → Work α
  | .ok x => pure x
  | .error e => throw e

/-- Writes a host, if its text is an address. -/
def host (a : String) (dir : Direction) : Work Unit := do
  let some a := Address.ofText? a | throw (.address a)
  write (Primitive.host a dir).text

/-- Writes a port that is still to be checked. -/
def port (p : Port.Given) (dir : Direction) (proto : Protocol) : Work Unit := do
  let p ← check (Port.ofGiven p)
  write (Primitive.port p dir proto).text

/-- Writes a range of ports that are still to be checked, the first one first. -/
def portRange (p q : Port.Given) (dir : Direction) (proto : Protocol) : Work Unit := do
  let p ← check (Port.ofGiven p)
  let q ← check (Port.ofGiven q)
  write (Primitive.portRange p q dir proto).text

/-- Puts the open fragment in parentheses, commits it and opens an empty one. -/
def group (c : Option Connective) : Work Unit := do
  modify (Draft.enclose c)
  modify Draft.commit
  modify Draft.discard

/-- Carries out one step. -/
def step : Step → Work Unit
  | .reset => modify Draft.reset
  | .discard => modify Draft.discard
  | .host a dir => host a dir
  | .port p dir proto => write (Primitive.port p dir proto).text
  | .portRange p q dir proto => write (Primitive.portRange p q dir proto).text
  | .join c => write c.token
  | .group op => group (op.bind Connective.ofAlias?)
  | .commit => modify Draft.commit

/-- Drops everything and carries out the steps in order. -/
def run (steps : List Step) : Work Unit := do
  modify Draft.reset
  forM steps step

/-- Drops everything, carries out the steps in order and reads the filter text. -/
def compile (steps : List Step) : Work String := do
  run steps
  return (← get).render

/-- Carries out a call. -/
def call : Call → Work Unit
  | .step s => step s
  | .port p dir proto => port p dir proto
  | .portRange p q dir proto => portRange p q dir proto
  | .group c => group c
  | .compile steps => run steps

theorem on_step (s : Step) (d : Draft) : (step s).on d = d.attempt (d.apply s) := by
  cases s with
  | host a dir =>
    simp only [step, host, Draft.apply, Draft.addHost]
    cases Address.ofText? a <;> rfl
  | _ => rfl

theorem on_forM (steps : List Step) (d : Draft) : (forM steps step).on d = d.run steps := by
  induction steps generalizing d with
  | nil => rfl
  | cons s ss ih =>
    rw [List.forM_cons, InPlace.on_bind, on_step, Draft.run]
    cases d.apply s with
    | ok d' => exact ih d'
    | error e => rfl

theorem on_run (steps : List Step) (d : Draft) : (run steps).on d = d.reset.run steps :=
  on_forM steps d.reset

end Work

namespace Draft

/-- Carried out in place, a call leaves the draft and the answer that it has. -/
theorem perform_eq_inPlace (d : Draft) (c : Call) : d.perform c = (Work.call c).on d := by
  cases c with
  | step s => exact (Work.on_step s d).symm
  | port p dir proto =>
    simp only [perform, addPort, Work.call, Work.port]
    cases Port.ofGiven p <;> rfl
  | portRange p q dir proto =>
    simp only [perform, addPortRange, Work.call, Work.portRange]
    cases Port.ofGiven p <;> cases Port.ofGiven q <;> rfl
  | group c => rfl
  | compile steps => exact (Work.on_run steps d).symm

/-- Carried out in place, the run of a recipe leaves the draft and the answer that it has. -/
theorem compile_eq_inPlace (d : Draft) (steps : List Step) :
    d.compile steps = (Work.compile steps).on d := by
  rw [Work.compile, InPlace.on_bind, Work.on_run, compile]
  rcases d.reset.run steps with ⟨d', ⟨⟩ | ⟨⟩⟩ <;> rfl

/-! ## Where a run stops -/

theorem run_of_literal {steps : List Step}
    (h : ∀ a dir, .host a dir ∈ steps → Address.isLiteral a = true) (d : Draft) :
    (d.run steps).2 = .ok () := by
  induction steps generalizing d with
  | nil => rfl
  | cons s ss ih =>
    have hok : (d.apply s).isOk = true := by
      rw [apply_isOk]
      cases s with
      | host a dir => exact h a dir (by simp)
      | _ => rfl
    rw [run]
    cases happly : d.apply s with
    | ok d' => exact ih (fun a dir hmem => h a dir (by simp [hmem])) d'
    | error e => simp [happly, Except.isOk, Except.toBool] at hok

/-- A run stops at a host that is no address, with the draft that the steps before it left. -/
theorem run_of_not_literal {before : List Step} {a : String}
    (hbefore : ∀ b dir, .host b dir ∈ before → Address.isLiteral b = true)
    (ha : Address.isLiteral a = false) (dir : Direction) (after : List Step) (d : Draft) :
    d.run (before ++ .host a dir :: after) = ((d.run before).1, .error (.address a)) := by
  have hrun : d.run before = ((d.run before).1, .ok ()) :=
    Prod.ext rfl (run_of_literal hbefore d)
  rw [run_append, hrun]
  simp only [run, apply_host_of_not_literal ha]

/-- The hosts of some steps are all addresses, or there is a first one that is not. -/
theorem literal_or_first (steps : List Step) :
    (∀ a dir, .host a dir ∈ steps → Address.isLiteral a = true) ∨
    ∃ before a dir after, steps = before ++ .host a dir :: after ∧
      (∀ b dir', .host b dir' ∈ before → Address.isLiteral b = true) ∧
      Address.isLiteral a = false := by
  induction steps with
  | nil => exact .inl (by simp)
  | cons s ss ih =>
    have hs : (∀ a dir, .host a dir = s → Address.isLiteral a = true) ∨
        ∃ a dir, s = .host a dir ∧ Address.isLiteral a = false := by
      cases s with
      | host a dir => cases ha : Address.isLiteral a <;> simp [ha]
      | _ => simp
    rcases hs with hs | ⟨a, dir, rfl, ha⟩
    · rcases ih with hss | ⟨before, a, dir, after, rfl, hbefore, ha⟩
      · exact .inl fun b dir hmem => (List.mem_cons.mp hmem).elim (hs b dir) (hss b dir)
      · refine .inr ⟨s :: before, a, dir, after, rfl, fun b dir' hmem => ?_, ha⟩
        exact (List.mem_cons.mp hmem).elim (hs b dir') (hbefore b dir')
    · exact .inr ⟨[], a, dir, ss, rfl, by simp, ha⟩

theorem compile_of_literal {steps : List Step}
    (h : ∀ a dir, .host a dir ∈ steps → Address.isLiteral a = true) (d : Draft) :
    d.compile steps = ((empty.run steps).1, .ok (empty.run steps).1.render) := by
  have hrun : d.reset.run steps = ((empty.run steps).1, .ok ()) :=
    Prod.ext rfl (run_of_literal h empty)
  rw [compile, hrun]
  rfl

/-- A compilation stops at the first host that is no address. -/
theorem compile_of_not_literal {before : List Step} {a : String}
    (hbefore : ∀ b dir, .host b dir ∈ before → Address.isLiteral b = true)
    (ha : Address.isLiteral a = false) (dir : Direction) (after : List Step) (d : Draft) :
    d.compile (before ++ .host a dir :: after) =
      ((empty.run before).1, .error (.address a)) := by
  rw [compile, run_of_not_literal hbefore ha]
  rfl

/-- Carried out in place or not, a call that fails leaves the draft as it was, unless it is the run
of a list of steps. Steps fail to compile just when some host is no address; the rejection is then
the text of the first such host, and the draft is the one that the steps before it compile to,
whatever draft they are compiled on. -/
theorem failure_exact (d : Draft) :
    (∀ c, d.perform c = (Work.call c).on d) ∧
    (∀ steps, d.compile steps = (Work.compile steps).on d) ∧
    (∀ c e, (∀ steps, c ≠ .compile steps) → (d.perform c).2 = .error e → (d.perform c).1 = d) ∧
    ∀ steps,
      ((∃ e, (d.compile steps).2 = .error e) ↔
        ∃ a dir, .host a dir ∈ steps ∧ Address.isLiteral a = false) ∧
      ∀ e, (d.compile steps).2 = .error e →
        ∃ before a dir after, steps = before ++ .host a dir :: after ∧
          (∀ b dir', .host b dir' ∈ before → Address.isLiteral b = true) ∧
          Address.isLiteral a = false ∧ e = .address a ∧
          ∀ d' : Draft, d'.compile before =
            ((d.compile steps).1, .ok (d.compile steps).1.render) := by
  refine ⟨d.perform_eq_inPlace, d.compile_eq_inPlace, fun c e => perform_fst_of_error, ?_⟩
  intro steps
  rcases literal_or_first steps with h | ⟨before, a, dir, after, rfl, hbefore, ha⟩
  · rw [compile_of_literal h]
    refine ⟨⟨fun ⟨e, he⟩ => by simp at he, fun ⟨a, dir, hmem, ha⟩ => ?_⟩, fun e he => by simp at he⟩
    rw [h a dir hmem] at ha
    cases ha
  · rw [compile_of_not_literal hbefore ha]
    refine ⟨⟨fun _ => ⟨a, dir, by simp, ha⟩, fun _ => ⟨_, rfl⟩⟩, fun e he => ?_⟩
    exact ⟨before, a, dir, after, rfl, hbefore, ha, (Except.error.inj he).symm,
      compile_of_literal hbefore⟩

/-- A range whose second bound is no port leaves what was open, and an address out of range stops a
recipe that drops its first step and goes on behind it. -/
theorem failure_exact_of_second_bound :
    let d : Draft := ⟨"host 10.0.0.1 and ", ["port 22"], []⟩
    let c : Call := .portRange (.number 1000) (.number 65536) .any .any
    let before : List Step := [.commit, .reset, .host "10.0.0.1" .src, .commit]
    let steps : List Step := before ++ [.host "10.0.0.256" .any, .group none]
    (d.perform c).2 = .error (.port "65536") ∧ (d.perform c).1 = d ∧
      (d.compile steps).2 = .error (.address "10.0.0.256") ∧
      (d.compile steps).1 = ⟨"src host 10.0.0.1", ["src host 10.0.0.1"], []⟩ ∧
      ∃ before a dir after, steps = before ++ .host a dir :: after ∧
        (∀ b dir', .host b dir' ∈ before → Address.isLiteral b = true) ∧
        Address.isLiteral a = false ∧ Rejection.address "10.0.0.256" = .address a ∧
        ∀ d' : Draft, d'.compile before =
          ((d.compile steps).1, .ok (d.compile steps).1.render) := by
  intro d c before steps
  have hcall : (d.perform c).2 = .error (.port "65536") := by decide +kernel
  have hsteps : (d.compile steps).2 = .error (.address "10.0.0.256") := by decide +kernel
  have hexact := failure_exact d
  exact ⟨hcall, hexact.2.2.1 c _ (fun _ => Call.noConfusion) hcall, hsteps, by decide +kernel,
    (hexact.2.2.2 steps).2 _ hsteps⟩

end Draft

end CaptureFilter
