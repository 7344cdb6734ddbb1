import CaptureFilter.Capture.Config
import CaptureFilter.Proofs.JsonRoundTrip
import CaptureFilter.Recipe.Reading
import CaptureFilter.Recipe.Writing

/-!
# Reading a written recipe

A recipe is written in one form and read in many: fields may be left out or reordered, unknown ones
may stand between them, ports may be texts, and steps may be arrays. The written form is one of
those that are read, with the recipe itself as the answer, so reading and writing in turn settle
after one round.

Results:
* `Step.ofOutline_toValue`: a step is read from what is written of it.
* `Recipe.ofText_text`, `Config.ofText_text`: recipes and configurations are read from their texts.
* `Recipe.ofText_written`: reading and writing in turn.
-/

namespace CaptureFilter

open CaptureFilter.Json (Value Members malformed readText maxDepth)

/-! ## Fields -/

theorem Port.ofHead_toValue (p : Port) : ofHead p.toValue.head = .ok p := by
  have hbound : p.number ≤ 65535 := p.le_max
  have hinteger : (Json.Numeral.ofNat p.number).integer? = some (p.number : ℤ) :=
    Json.Numeral.integer?_of_whole (by omega)
  have hsmall : (p.number : ℤ) < 0x8000000000000000 := by omega
  rw [toValue, Value.head, ofHead]
  simp only [hinteger, if_pos hsmall, ofInt_natCast p.le_max]
  rfl

namespace Recipe

/-- What a field holds. -/
def Field.Content : Field → Type
  | ip => String
  | port | first | last => Port
  | direction => Direction
  | protocol => Protocol
  | operator => Option String

/-- The value that is written of a field. -/
def Field.write : (f : Field) → f.Content → Value
  | ip, a => .string a
  | port, p => Port.toValue p
  | first, p => Port.toValue p
  | last, p => Port.toValue p
  | direction, d => Direction.toValue d
  | protocol, p => Protocol.toValue p
  | operator, op => Option.elim op .null .string

/-- The fields that have been read, with one more. -/
def Fields.set (fs : Fields) : (f : Field) → f.Content → Fields
  | .ip, a => { fs with ip := some a }
  | .port, p => { fs with port := some p }
  | .first, p => { fs with first := some p }
  | .last, p => { fs with last := some p }
  | .direction, d => { fs with direction := some d }
  | .protocol, p => { fs with protocol := some p }
  | .operator, op => { fs with operator := some op }

/-- A field is read from what is written of it. -/
theorem Fields.put_write (fs : Fields) (f : Field) (x : f.Content) :
    fs.put f (f.write x).head = .ok (fs.set f x) := by
  cases f with
  | ip => rfl
  | port | first | last => exact congrArg (Except.map _) (Port.ofHead_toValue x)
  | direction => exact congrArg (Except.map _) (Direction.qualifier.ofHead_keyword x)
  | protocol => exact congrArg (Except.map _) (Protocol.qualifier.ofHead_keyword x)
  | operator => cases x <;> rfl

/-- A member that names a field of the operation is read as that field, if it was not met before. -/
theorem putMembers_cons {op : Operation} {fs : Fields} {f : Field}
    (hfield : op.field? f.name = some f) (hnew : fs.has f = false) (x : f.Content)
    (ms : List (String × Value)) :
    putMembers op fs ((f.name, f.write x) :: ms) = putMembers op (fs.set f x) ms := by
  have hmember : putMember op fs (f.name, f.write x) = .ok (fs.set f x) := by
    simp [putMember, hfield, hnew, Fields.put_write]
  rw [putMembers, hmember]
  rfl

end Recipe

/-! ## Steps -/

namespace Step

open Recipe (Fields Operation operationKey putMembers stepOfMembers scanMembers putMembers_cons)

/-- The fields of a step. -/
def fields : Step → Fields
  | host a dir => (Fields.empty.set .ip a).set .direction dir
  | port p dir proto => ((Fields.empty.set .port p).set .direction dir).set .protocol proto
  | portRange p q dir proto =>
    (((Fields.empty.set .first p).set .last q).set .direction dir).set .protocol proto
  | group op => Fields.empty.set .operator op
  | reset | discard | join _ | commit => Fields.empty

/-- The members that are written of a step behind the operation. -/
def members (s : Step) : List (String × Value) :=
  s.fieldValues.map fun p => (p.1.name, p.2)

/-- Reading the members that are written of a step reads its fields. -/
theorem putMembers_members (s : Step) :
    putMembers s.operation .empty s.members = .ok s.fields := by
  cases s with
  | host a dir =>
    exact (putMembers_cons (f := .ip) rfl rfl a _).trans
      (putMembers_cons (f := .direction) rfl rfl dir [])
  | port p dir proto =>
    exact (putMembers_cons (f := .port) rfl rfl p _).trans <|
      (putMembers_cons (f := .direction) rfl rfl dir _).trans
      (putMembers_cons (f := .protocol) rfl rfl proto [])
  | portRange p q dir proto =>
    exact (putMembers_cons (f := .first) rfl rfl p _).trans <|
      (putMembers_cons (f := .last) rfl rfl q _).trans <|
      (putMembers_cons (f := .direction) rfl rfl dir _).trans
      (putMembers_cons (f := .protocol) rfl rfl proto [])
  | group op => exact putMembers_cons (f := .operator) rfl rfl op []
  | reset | discard | join _ | commit => rfl

theorem step_fields (s : Step) : s.operation.step s.fields = .ok s := by
  cases s <;> rfl

theorem stepOfMembers_members (s : Step) : stepOfMembers s.operation s.members = .ok s := by
  rw [stepOfMembers, putMembers_members]
  show (s.operation.step s.fields).mapError _ = _
  rw [step_fields]
  rfl

theorem ofHead_operation (s : Step) :
    Operation.ofHead (.string s.operation.name) = .ok s.operation := by
  rw [Operation.ofHead, Operation.ofName?_name]
  rfl

theorem toValue_eq (s : Step) :
    s.toValue = .object ((operationKey, .string s.operation.name) :: s.members) := rfl

/-- No other member has the name of the one that holds the operation, and all can be read. -/
theorem readable_members (s : Step) (room : ℕ) :
    ∀ m ∈ s.members, m.1 ≠ operationKey ∧ m.2.Readable room := by
  have hport (p : Port) : p.toValue.Readable room := by
    have hbound : p.number ≤ 65535 := p.le_max
    refine .number (by simp [Json.Numeral.IsSpelled, Json.Numeral.ofNat]) ?_
    rw [Json.Numeral.inRange, Json.Numeral.integer?_of_whole (by omega)]
    rfl
  have hdirection (d : Direction) : d.toValue.Readable room := .string _
  have hprotocol (p : Protocol) : p.toValue.Readable room := .string _
  have hoperator (op : Option String) : (op.elim Value.null Value.string).Readable room := by
    cases op with
    | none => exact .null
    | some op => exact .string op
  have hname (f : Recipe.Field) : f.name ≠ operationKey := by cases f <;> decide
  cases s <;> simp [members, fieldValues, hname, hport, hdirection, hprotocol, hoperator,
    Value.Readable.string]

theorem readable_toValue (s : Step) (room : ℕ) : s.toValue.Readable (room + 1) := by
  rw [toValue_eq]
  refine .object fun m hm => ?_
  rcases List.mem_cons.mp hm with rfl | hm
  · exact .string _
  · exact (readable_members s room m hm).2

/-- Behind the operation, the members that are written of a step are kept in order. -/
theorem scanMembers_outlineMembers {room : ℕ} {ms : List (String × Value)}
    (h : ∀ m ∈ ms, m.1 ≠ operationKey ∧ m.2.Readable room) (op : Operation) :
    scanMembers room (some op) (Value.outlineMembers ms) = .ok (op, ms) := by
  induction ms with
  | nil => rfl
  | cons m ms ih =>
    obtain ⟨hname, hreadable⟩ := h m (by simp)
    rw [Value.outlineMembers, scanMembers, if_neg hname, Value.value_outline hreadable,
      ih fun n hn => h n (by simp [hn])]
    rfl

theorem ofOutline_toValue (s : Step) (room : ℕ) :
    ofOutline (room + 1) s.toValue.outline = .ok s := by
  have hscan : scanMembers room none (Value.outlineMembers
      ((operationKey, .string s.operation.name) :: s.members)) = .ok (s.operation, s.members) := by
    rw [Value.outlineMembers, scanMembers, if_pos rfl, if_neg (by simp)]
    show ((Operation.ofHead (.string s.operation.name)).mapError Json.Error.mismatch).bind _ = _
    rw [ofHead_operation]
    exact scanMembers_outlineMembers (readable_members s room) s.operation
  rw [toValue_eq, Value.outline, ofOutline, hscan]
  show (stepOfMembers s.operation s.members).mapError Json.Error.mismatch = _
  rw [stepOfMembers_members]
  rfl

end Step

/-! ## Recipes and configurations -/

namespace Recipe

theorem readable_toValue (r : Recipe) (room : ℕ) : r.toValue.Readable (room + 2) := by
  refine .array fun v hv => ?_
  obtain ⟨s, -, rfl⟩ := List.mem_map.mp hv
  exact s.readable_toValue room

theorem stepsOfItems_toValue (steps : List Step) (room : ℕ) :
    stepsOfItems (room + 1) (Value.outlineItems (steps.map Step.toValue)) = .ok steps := by
  induction steps with
  | nil => rfl
  | cons s ss ih =>
    rw [List.map_cons, Value.outlineItems, stepsOfItems, Step.ofOutline_toValue, ih]
    rfl

theorem ofText_text (r : Recipe) : ofText r.text = .ok r := by
  rw [ofText, text, Value.readText_compact _ (r.readable_toValue 0), toValue, Value.outline,
    ofOutline, show maxDepth - 1 = 125 + 1 from rfl, stepsOfItems_toValue]
  rfl

end Recipe

/-- A configuration is read from its text, whatever the path. -/
theorem Capture.Config.ofText_text (c : Config) : ofText c.text = .ok c := by
  have hreadable : c.toValue.Readable 1 := by
    refine .object fun m hm => ?_
    rw [List.mem_singleton.mp hm]
    exact .string _
  rw [ofText, text, Value.readText_compact _ hreadable]
  rfl

namespace Recipe

/-- Every recipe and every configuration is read back from what is written of it. So a text that
spells a recipe, in whatever form, is settled by one round: what is written of the recipe is read as
that recipe, and written as before. -/
theorem ofText_written :
    (∀ r : Recipe, ofText r.text = .ok r) ∧
    (∀ c : Capture.Config, Capture.Config.ofText c.text = .ok c) ∧
    (∀ (s : String) (r : Recipe), ofText s = .ok r →
      ofText r.text = .ok r ∧ (ofText r.text).map text = .ok r.text) := by
  refine ⟨ofText_text, Capture.Config.ofText_text, fun s r _ => ⟨ofText_text r, ?_⟩⟩
  rw [ofText_text]
  rfl

/-- A text that spells its first step by position, with the port as a text and no qualifiers, and
its second one with the operation behind the operator, which holds an escaped pair of surrogates. -/
theorem ofText_written_of_other_form :
    let s := "[ [\"port\", \"0080\"], " ++
      "\x7b\"operator\": \"\\ud83d\\ude00\\\"\\u0001\", \"op\": \"group\"\x7d ]"
    let r : Recipe := ⟨[.port ⟨80, by decide⟩ .any .any, .group (some "😀\"\x01")]⟩
    ofText s = .ok r ∧ ofText r.text = .ok r ∧
      r.text = "[\x7b\"op\":\"port\",\"port\":80,\"direction\":\"\",\"protocol\":\"\"\x7d," ++
        "\x7b\"op\":\"group\",\"operator\":\"😀\\\"\\u0001\"\x7d]" := by
  intro s r
  have hread : ofText s = .ok r := by decide +kernel
  exact ⟨hread, (ofText_written.2.2 s r hread).1, by decide +kernel⟩

end Recipe

end CaptureFilter
