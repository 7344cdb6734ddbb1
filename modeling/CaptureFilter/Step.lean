import CaptureFilter.Draft

/-!
# Steps

A step is one operation on a draft as a recipe keeps it. A host may be any text until the step is
run; ports and qualifiers are checked before a step can hold them, so a host that is no address is
the one thing that makes a step fail.

Results:
* `Draft.apply_host_of_not_literal`, `Draft.apply_isOk`: when a step fails.
* `Draft.run_append`: a run over two lists is two runs, unless the first fails.
-/

namespace CaptureFilter

/-- One operation on a draft: dropping everything or the open fragment, adding a primitive or a
connective, and committing the fragment, as a group or as it stands. A group operator that names no
connective counts as none. -/
inductive Step where
  | reset
  | discard
  | host (address : String) (direction : Direction)
  | port (port : Port) (direction : Direction) (protocol : Protocol)
  | portRange (first last : Port) (direction : Direction) (protocol : Protocol)
  | join (connective : Connective)
  | group (operator : Option String)
  | commit
deriving DecidableEq

namespace Draft

/-- Adds the primitive for a host, whose text must be an address literal. -/
def addHost (address : String) (direction : Direction) (d : Draft) : Except Rejection Draft :=
  match Address.ofText? address with
  | some a => .ok (d.add (.host a direction))
  | none => .error (.address address)

/-- Runs one step. -/
def apply (d : Draft) : Step → Except Rejection Draft
  | .reset => .ok d.reset
  | .discard => .ok d.discard
  | .host a dir => d.addHost a dir
  | .port p dir proto => .ok (d.add (.port p dir proto))
  | .portRange p q dir proto => .ok (d.add (.portRange p q dir proto))
  | .join c => .ok (d.join c)
  | .group op => .ok (d.group (op.bind Connective.ofAlias?))
  | .commit => .ok d.commit

theorem apply_host_of_not_literal {a : String} (h : Address.isLiteral a = false) (dir : Direction)
    (d : Draft) : d.apply (.host a dir) = .error (.address a) := by
  simp only [apply, addHost, Address.ofText?_eq_none_iff.mpr h]

theorem apply_isOk (d : Draft) (s : Step) :
    (d.apply s).isOk = match s with
      | .host a _ => Address.isLiteral a
      | _ => true := by
  cases s with
  | host a dir =>
    simp only [apply, addHost, ← Address.ofText?_isSome a]
    cases Address.ofText? a <;> rfl
  | _ => rfl

/-- Runs steps in order up to the first that fails. The answer is the draft reached, and the
rejection if a step failed. -/
def run (d : Draft) : List Step → Draft × Except Rejection Unit
  | [] => (d, .ok ())
  | s :: ss =>
    match d.apply s with
    | .ok d' => d'.run ss
    | .error e => (d, .error e)

@[simp] theorem run_nil (d : Draft) : d.run [] = (d, .ok ()) := rfl

theorem run_append (d : Draft) (ss ts : List Step) :
    d.run (ss ++ ts) = match d.run ss with
      | (d', .ok ()) => d'.run ts
      | (d', .error e) => (d', .error e) := by
  induction ss generalizing d with
  | nil => rfl
  | cons s ss ih =>
    simp only [List.cons_append, run]
    cases d.apply s with
    | ok d' => exact ih d'
    | error e => rfl

/-- Drops everything, runs all the steps and answers the filter text. If a step fails, the draft is
the one that the steps before it left. -/
def compile (d : Draft) (steps : List Step) : Draft × Except Rejection String :=
  let (d', r) := d.reset.run steps
  (d', r.map fun _ => d'.render)

/-! ## What steps report -/

/-- The report of an operator that names no connective. -/
def operatorJournal : Option String → List Log.Entry
  | none => []
  | some op =>
    if (Connective.ofAlias? op).isSome then []
    else [⟨.debug, "Ignoring unrecognized group operator " ++ Text.quoted op⟩]

/-- The report of one step. A step that fails reports nothing. -/
def journal (d : Draft) : Step → List Log.Entry
  | .reset | .join _ => []
  | .discard => d.discardJournal
  | .host a dir => (Address.ofText? a).elim [] fun a => addJournal (.host a dir)
  | .port p dir proto => addJournal (.port p dir proto)
  | .portRange p q dir proto => addJournal (.portRange p q dir proto)
  | .group op => operatorJournal op ++ d.groupJournal (op.bind Connective.ofAlias?)
  | .commit => d.commitJournal

/-- The report of a run, up to the step that fails. -/
def runJournal (d : Draft) : List Step → List Log.Entry
  | [] => []
  | s :: ss =>
    d.journal s ++
      match d.apply s with
      | .ok d' => d'.runJournal ss
      | .error _ => []

end Draft

end CaptureFilter
