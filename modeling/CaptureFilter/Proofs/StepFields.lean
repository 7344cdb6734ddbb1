import CaptureFilter.Proofs.PortForms
import CaptureFilter.Proofs.RecipeRoundTrip

/-!
# Fields of steps

What the value of a field says, what a field holds that was given some values, and how the fields
that have been read make a step. A qualifier or operator that was not given has a default, every
other field must be given, and none may be given twice.

Results:
* `Recipe.Fields.put_eq_ok_iff`: the values that are read as a field.
* `Recipe.Field.exists_holds_iff`: the values that a field may be given.
* `Recipe.step_operation_eq_ok_iff`: the fields that make a step.
-/

namespace CaptureFilter

open CaptureFilter.Json (Value)

namespace Recipe

/-! ## Values and contents -/

/-- What a value says as a field. A qualifier is its keyword, and no operator is null. -/
def Field.Spells : (f : Field) → f.Content → Value → Prop
  | ip, a, v => v = .string a
  | port, p, v => Port.SpelledBy p v
  | first, p, v => Port.SpelledBy p v
  | last, p, v => Port.SpelledBy p v
  | direction, d, v => v = .string (Direction.keyword d)
  | protocol, p, v => v = .string (Protocol.keyword p)
  | operator, op, v => v = Option.elim op .null .string

/-- The values that a field may have. -/
def Field.Allows : Field → Value → Prop
  | ip, v => ∃ a, v = .string a
  | port, v | first, v | last, v => ∃ p : Port, p.SpelledBy v
  | direction, v => ∃ s ∈ ["", "src", "dst"], v = .string s
  | protocol, v => ∃ s ∈ ["", "tcp", "udp"], v = .string s
  | operator, v => v = .null ∨ ∃ s, v = .string s

/-- What a field holds if no value is given; `none` if one must be. -/
def Field.default? : (f : Field) → Option f.Content
  | ip | port | first | last => none
  | direction => some Direction.any
  | protocol => some Protocol.any
  | operator => some (none : Option String)

/-- What a field holds that has been given these values. -/
def Field.Holds (f : Field) (vs : List Value) (x : f.Content) : Prop :=
  (vs = [] ∧ f.default? = some x) ∨ ∃ v, vs = [v] ∧ f.Spells x v

/-- The content of a field among those that have been read. -/
def Fields.get (fs : Fields) : (f : Field) → Option f.Content
  | .ip => fs.ip
  | .port => fs.port
  | .first => fs.first
  | .last => fs.last
  | .direction => fs.direction
  | .protocol => fs.protocol
  | .operator => fs.operator

/-- The fields with the contents given by a function. -/
def Fields.ofGet (c : (f : Field) → Option f.Content) : Fields :=
  ⟨c .ip, c .port, c .first, c .last, c .direction, c .protocol, c .operator⟩

end Recipe

open Recipe (Field Fields Operation)

/-- The content of a field of a step. -/
def Step.content (st : Step) (f : Field) : Option f.Content :=
  st.fields.get f

/-! ## Reading one value -/

theorem Json.Head.text_eq_ok_iff {v : Value} {a : String} :
    v.head.text = .ok a ↔ v = .string a := by
  cases v <;> simp [Value.head, text]

theorem Json.Head.text?_eq_ok_iff {v : Value} {op : Option String} :
    v.head.text? = .ok op ↔ v = op.elim .null .string := by
  cases op <;> cases v <;> simp [Value.head, text?, text, map_eq_ok_iff]

/-- A value is read as a qualifier just when it is the keyword of it. -/
theorem Qualifier.ofHead_eq_ok_iff {α : Type} (q : Qualifier α) {v : Value} {a : α} :
    q.ofHead v.head = .ok a ↔ v = .string (q.keyword a) := by
  simp only [ofHead, bind_eq_ok_iff, mapError_eq_ok_iff, Json.Head.text_eq_ok_iff,
    ofText_eq_ok_iff, exists_eq_right]

/-- The values that spell a qualifier are the keywords of its members. -/
theorem Qualifier.exists_keyword_iff {α : Type} (q : Qualifier α) {v : Value} :
    (∃ s ∈ q.members.map q.keyword, v = .string s) ↔ ∃ a, v = .string (q.keyword a) := by
  simp [q.mem_members]

namespace Recipe

/-! ## Fields that have been read -/

@[simp] theorem Fields.get_ofGet (c : (f : Field) → Option f.Content) (f : Field) :
    (ofGet c).get f = c f := by
  cases f <;> rfl

@[simp] theorem Fields.get_empty (f : Field) : Fields.empty.get f = none := by
  cases f <;> rfl

@[simp] theorem Fields.get_set_self (fs : Fields) (f : Field) (x : f.Content) :
    (fs.set f x).get f = some x := by
  cases f <;> rfl

theorem Fields.get_set_of_ne (fs : Fields) {f g : Field} (h : g ≠ f) (x : f.Content) :
    (fs.set f x).get g = fs.get g := by
  cases f <;> cases g <;> first | rfl | exact absurd rfl h

theorem Fields.has_eq (fs : Fields) (f : Field) : fs.has f = (fs.get f).isSome := by
  cases f <;> rfl

/-- Fields are known by their contents. -/
theorem Fields.eq_of_get {fs gs : Fields} (h : ∀ f, fs.get f = gs.get f) : fs = gs := by
  have hfs : ofGet fs.get = fs := rfl
  have hgs : ofGet gs.get = gs := rfl
  rw [← hfs, ← hgs, funext h]

theorem Fields.put_eq_ok_iff {fs gs : Fields} {f : Field} {v : Value} :
    fs.put f v.head = .ok gs ↔ ∃ x, f.Spells x v ∧ fs.set f x = gs := by
  cases f with
  | ip =>
    simp only [put, map_eq_ok_iff, Json.Head.text_eq_ok_iff]
    rfl
  | port | first | last =>
    simp only [put, map_eq_ok_iff, Port.ofHead_eq_ok_iff]
    rfl
  | direction | protocol =>
    simp only [put, map_eq_ok_iff, Qualifier.ofHead_eq_ok_iff]
    rfl
  | operator =>
    simp only [put, map_eq_ok_iff, Json.Head.text?_eq_ok_iff]
    rfl

/-! ## Fields that are given -/

theorem Field.allows_iff {f : Field} {v : Value} : f.Allows v ↔ ∃ x, f.Spells x v := by
  cases f with
  | ip | port | first | last => exact Iff.rfl
  | direction => exact Direction.qualifier.exists_keyword_iff
  | protocol => exact Protocol.qualifier.exists_keyword_iff
  | operator =>
    constructor
    · rintro (rfl | ⟨s, rfl⟩)
      · exact ⟨(none : Option String), rfl⟩
      · exact ⟨some s, rfl⟩
    · rintro ⟨op, h⟩
      cases op with
      | none => exact .inl h
      | some s => exact .inr ⟨s, h⟩

theorem Field.default?_eq_none_iff {f : Field} :
    f.default? = none ↔ f ∈ [Field.ip, .port, .first, .last] := by
  cases f <;> simp [default?]

/-- Values fill a field just when there is at most one, or exactly one where there is no default,
and all are allowed. -/
theorem Field.exists_holds_iff {f : Field} {vs : List Value} :
    (∃ x, f.Holds vs x) ↔ vs.length ≤ 1 ∧ (f ∈ [.ip, .port, .first, .last] → vs ≠ []) ∧
      ∀ v ∈ vs, f.Allows v := by
  rw [← default?_eq_none_iff]
  rcases vs with _ | ⟨v, _ | ⟨w, vs⟩⟩
  · simp [Holds, ← Option.isSome_iff_exists, ← Option.ne_none_iff_isSome]
  · simp [Holds, allows_iff]
  · simp [Holds]

/-! ## The step that fields make -/

/-- The content of a field, or its default where none has been read. -/
def Fields.filled (fs : Fields) (f : Field) : Option f.Content :=
  (fs.get f).or f.default?

theorem Fields.filled_eq_some_iff_of_required {fs : Fields} {f : Field} (h : f.default? = none)
    {x : f.Content} : fs.filled f = some x ↔ fs.get f = some x := by
  rw [filled, h, Option.or_none]

theorem Fields.filled_eq_some_iff_of_default {fs : Fields} {f : Field} {y : f.Content}
    (h : f.default? = some y) {x : f.Content} :
    fs.filled f = some x ↔ (fs.get f).getD y = x := by
  rw [filled, h, Option.or_some, Option.some_inj]

theorem Operation.operation_of_step {op : Operation} {fs : Fields} {st : Step}
    (h : op.step fs = .ok st) : st.operation = op := by
  cases op with
  | host | port | portRange =>
    rw [step] at h
    split at h <;> cases h
    rfl
  | reset | discard | join | group | commit =>
    cases h
    rfl

open Fields (filled_eq_some_iff_of_required filled_eq_some_iff_of_default) in
/-- The fields make a step just when each field of the operation, filled, is that of the step. -/
theorem step_operation_eq_ok_iff {st : Step} {fs : Fields} :
    st.operation.step fs = .ok st ↔
      ∀ f ∈ st.operation.fields, fs.filled f = st.content f := by
  cases st with
  | host a d =>
    have hfields : (∀ f ∈ Operation.host.fields, fs.filled f = (Step.host a d).content f) ↔
        fs.ip = some a ∧ fs.direction.getD .any = d := by
      rw [Operation.fields, List.forall_mem_cons, List.forall_mem_singleton]
      exact and_congr (filled_eq_some_iff_of_required rfl) (filled_eq_some_iff_of_default rfl)
    rw [Step.operation, hfields, Operation.step]
    cases fs.ip <;> simp
  | port p d t =>
    have hfields : (∀ f ∈ Operation.port.fields, fs.filled f = (Step.port p d t).content f) ↔
        fs.port = some p ∧ fs.direction.getD .any = d ∧ fs.protocol.getD .any = t := by
      rw [Operation.fields, List.forall_mem_cons, List.forall_mem_cons, List.forall_mem_singleton]
      exact and_congr (filled_eq_some_iff_of_required rfl) <|
        and_congr (filled_eq_some_iff_of_default rfl) (filled_eq_some_iff_of_default rfl)
    rw [Step.operation, hfields, Operation.step]
    cases fs.port <;> simp
  | portRange p q d t =>
    have hfields :
        (∀ f ∈ Operation.portRange.fields, fs.filled f = (Step.portRange p q d t).content f) ↔
          fs.first = some p ∧ fs.last = some q ∧ fs.direction.getD .any = d ∧
            fs.protocol.getD .any = t := by
      rw [Operation.fields, List.forall_mem_cons, List.forall_mem_cons, List.forall_mem_cons,
        List.forall_mem_singleton]
      exact and_congr (filled_eq_some_iff_of_required rfl) <|
        and_congr (filled_eq_some_iff_of_required rfl) <|
        and_congr (filled_eq_some_iff_of_default rfl) (filled_eq_some_iff_of_default rfl)
    rw [Step.operation, hfields, Operation.step]
    cases fs.first <;> cases fs.last <;> simp
  | group op =>
    have hfields : (∀ f ∈ Operation.group.fields, fs.filled f = (Step.group op).content f) ↔
        fs.operator.getD none = op := by
      rw [Operation.fields, List.forall_mem_singleton]
      exact filled_eq_some_iff_of_default rfl
    rw [Step.operation, hfields, Operation.step]
    simp
  | reset | discard | join | commit => simp [Step.operation, Operation.step, Operation.fields]

theorem Operation.exists_step {op : Operation} {fs : Fields}
    (h : ∀ f ∈ op.fields, ∃ x, fs.get f = some x) : ∃ st, op.step fs = .ok st := by
  cases op with
  | host =>
    obtain ⟨a, ha⟩ : ∃ a, fs.ip = some a := h .ip (by decide)
    rw [step, ha]
    exact ⟨_, rfl⟩
  | port =>
    obtain ⟨p, hp⟩ : ∃ p, fs.port = some p := h .port (by decide)
    rw [step, hp]
    exact ⟨_, rfl⟩
  | portRange =>
    obtain ⟨p, hp⟩ : ∃ p, fs.first = some p := h .first (by decide)
    obtain ⟨q, hq⟩ : ∃ q, fs.last = some q := h .last (by decide)
    rw [step, hp, hq]
    exact ⟨_, rfl⟩
  | reset | discard | join | group | commit => exact ⟨_, rfl⟩

end Recipe

theorem Step.exists_content {st : Step} {f : Field} (h : f ∈ st.operation.fields) :
    ∃ x, st.content f = some x := by
  have hall : st.operation.fields.all st.fields.has = true := by cases st <;> rfl
  have hhas : st.fields.has f = true := List.all_eq_true.mp hall f h
  rw [Fields.has_eq] at hhas
  exact Option.isSome_iff_exists.mp hhas

end CaptureFilter
