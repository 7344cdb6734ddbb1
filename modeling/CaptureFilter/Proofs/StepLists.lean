import CaptureFilter.Proofs.StepMembers

/-!
# Steps as arrays

A step may be written as an array: the name of its operation, then the values of its fields in
order, of which those at the end may be left off if they have a default. Naming each value by its
field turns such an array into an object, and both are read alike, value for value. So what is known
of steps as objects carries over, and a recipe may mix the two forms.

Results:
* `Recipe.putItems_eq_putMembers`: values are read in order as the members that name them.
* `Recipe.forall_fields_iff`: the values that named fields are given, each field for itself.
* `Step.ofOutline_iff`: the values that are read as a step, whichever form they have.
* `Recipe.ofText_forms`: the texts of arrays that are read as steps, and recipes of both forms.
-/

namespace CaptureFilter

open CaptureFilter.Json (Value)

namespace Recipe

/-! ## Arrays that spell a step -/

/-- Values in order, each with the name of its field. -/
def pairs (fields : List Field) (vs : List Value) : List (String × Value) :=
  (fields.zip vs).map fun p => (p.1.name, p.2)

/-- The object that names the values of an operation in order. -/
def Operation.named (op : Operation) (vs : List Value) : List (String × Value) :=
  (operationKey, .string op.name) :: pairs op.fields vs

/-- The values are accepted behind this operation: they are no more than its fields, only fields
with a default are left off, and each value is allowed where it stands. -/
structure Operation.AcceptsListed (op : Operation) (vs : List Value) : Prop where
  bounded : vs.length ≤ op.fields.length
  present : ∀ f ∈ op.fields.drop vs.length, f ∉ [Field.ip, .port, .first, .last]
  allowed : ∀ p ∈ op.fields.zip vs, p.1.Allows p.2

end Recipe

open Recipe (Field Fields Operation operationKey valuesOf pairs)

/-- The values spell this step behind its operation: each one what the field at its place holds, and
the fields that are left off hold their defaults. -/
structure Step.ListedBy (st : Step) (vs : List Value) : Prop where
  bounded : vs.length ≤ st.operation.fields.length
  given : ∀ p ∈ st.operation.fields.zip vs, ∃ x, st.content p.1 = some x ∧ p.1.Spells x p.2
  left : ∀ f ∈ st.operation.fields.drop vs.length, st.content f = f.default?

/-- The two forms of a step. -/
inductive Step.WrittenAs (st : Step) : Value → Prop
  | object {ms : List (String × Value)} (h : st.SpelledBy ms) : WrittenAs st (.object ms)
  | array {vs : List Value} (h : st.ListedBy vs) :
      WrittenAs st (.array (.string st.operation.name :: vs))

/-- The forms of a step that come to the same: any form is its own, and an array comes to an object
that names its values, in whatever order. -/
inductive Recipe.NamedForm : Value → Value → Prop
  | self (v : Value) : NamedForm v v
  | array {op : Operation} {vs : List Value} {ms : List (String × Value)}
      (hlength : vs.length ≤ op.fields.length) (hperm : (op.named vs).Perm ms) :
      NamedForm (.array (.string op.name :: vs)) (.object ms)

namespace Recipe

/-! ## Reading values in order -/

theorem pairs_cons (f : Field) (fields : List Field) (v : Value) (vs : List Value) :
    pairs (f :: fields) (v :: vs) = (f.name, v) :: pairs fields vs := rfl

theorem Operation.nodup_fields (op : Operation) : op.fields.Nodup := by
  cases op with
  | host | port | portRange | group => decide
  | reset | discard | join | commit => exact List.nodup_nil

/-- Values are read in order as the members that name them, as long as no field was read before. -/
theorem putItems_eq_putMembers {op : Operation} {fields : List Field}
    (hfields : ∀ f ∈ fields, f ∈ op.fields) (hnodup : fields.Nodup) {fs : Fields}
    (hnew : ∀ f ∈ fields, fs.get f = none) (vs : List Value) :
    putItems fs fields vs = putMembers op fs (pairs fields vs) := by
  -- what was read in front is where the rest starts, so it must be general
  induction fields generalizing fs vs with
  | nil => rfl
  | cons f fields ih =>
    cases vs with
    | nil => rfl
    | cons v vs =>
      rw [List.forall_mem_cons] at hfields hnew
      rw [List.nodup_cons] at hnodup
      have hfield : op.field? f.name = some f :=
        Operation.field?_eq_some_iff.mpr ⟨hfields.1, rfl⟩
      have hmember : putMember op fs (f.name, v) = fs.put f v.head := by
        simp [putMember, hfield, Fields.has_eq, hnew.1]
      rw [pairs_cons, putItems, putMembers, hmember]
      cases hput : fs.put f v.head with
      | error e => rfl
      | ok gs =>
        obtain ⟨x, -, rfl⟩ := Fields.put_eq_ok_iff.mp hput
        refine ih hfields.2 hnodup.2 (fun g hg => ?_) vs
        have hne : g ≠ f := fun heq => hnodup.1 (heq ▸ hg)
        rw [Fields.get_set_of_ne fs hne, hnew.2 g hg]

/-- Values in order make a step just when they are not too many and the members that name them make
it. -/
theorem stepOfItems_eq_ok_iff {op : Operation} {vs : List Value} {st : Step} :
    stepOfItems op vs = .ok st ↔
      vs.length ≤ op.fields.length ∧ stepOfMembers op (pairs op.fields vs) = .ok st := by
  have hput : putItems .empty op.fields vs = putMembers op .empty (pairs op.fields vs) :=
    putItems_eq_putMembers (fun _ hf => hf) op.nodup_fields (fun f _ => Fields.get_empty f) vs
  simp only [stepOfItems, stepOfMembers, bind_eq_ok_iff, mapError_eq_ok_iff, hput]
  constructor
  · rintro ⟨gs, hgs, s, hs, h⟩
    split at h
    · cases h
    · cases h
      exact ⟨by omega, gs, hgs, hs⟩
  · rintro ⟨hlength, gs, hgs, hs⟩
    refine ⟨gs, hgs, st, hs, ?_⟩
    rw [if_neg (by omega)]
    rfl

/-! ## The values that fields are given -/

theorem valuesOf_pairs_of_not_mem {f : Field} {fields : List Field} (h : f ∉ fields)
    (vs : List Value) : valuesOf f.name (pairs fields vs) = [] := by
  induction fields generalizing vs with
  | nil => rfl
  | cons g fields ih =>
    rw [List.mem_cons, not_or] at h
    cases vs with
    | nil => rfl
    | cons v vs =>
      have hname : g.name ≠ f.name := fun heq => h.1 (Field.name_injective heq).symm
      exact (valuesOf_cons_of_ne hname _).trans (ih h.2 vs)

/-- Among values that are named in order, a field is given the one at its place, and a field behind
the last value is given none. -/
theorem forall_fields_iff {P : Field → List Value → Prop} {fields : List Field}
    (hnodup : fields.Nodup) (vs : List Value) :
    (∀ f ∈ fields, P f (valuesOf f.name (pairs fields vs))) ↔
      (∀ p ∈ fields.zip vs, P p.1 [p.2]) ∧ ∀ f ∈ fields.drop vs.length, P f [] := by
  induction fields generalizing vs with
  | nil => simp
  | cons f fields ih =>
    obtain ⟨hf, hfields⟩ := List.nodup_cons.mp hnodup
    cases vs with
    | nil => simp [pairs, valuesOf]
    | cons v vs =>
      have hself : valuesOf f.name (pairs (f :: fields) (v :: vs)) = [v] := by
        rw [pairs_cons, valuesOf_cons_self, valuesOf_pairs_of_not_mem hf]
      have hother : ∀ g ∈ fields, valuesOf g.name (pairs (f :: fields) (v :: vs)) =
          valuesOf g.name (pairs fields vs) := by
        intro g hg
        have hname : f.name ≠ g.name := fun heq => hf (Field.name_injective heq ▸ hg)
        exact valuesOf_cons_of_ne hname _
      have hrest : (∀ g ∈ fields, P g (valuesOf g.name (pairs (f :: fields) (v :: vs)))) ↔
          ∀ g ∈ fields, P g (valuesOf g.name (pairs fields vs)) :=
        forall₂_congr fun g hg => by rw [hother g hg]
      rw [List.forall_mem_cons, hself, hrest, ih hfields vs, List.zip_cons_cons,
        List.forall_mem_cons, List.length_cons, List.drop_succ_cons, and_assoc]

theorem Field.holds_singleton_iff {f : Field} {v : Value} {x : f.Content} :
    f.Holds [v] x ↔ f.Spells x v := by
  simp [Holds]

theorem Field.holds_nil_iff {f : Field} {x : f.Content} :
    f.Holds [] x ↔ f.default? = some x := by
  simp [Holds]

/-- Beside the operation, the object that names the values has just these. -/
theorem Operation.filter_named (op : Operation) (vs : List Value) :
    (op.named vs).filter (·.1 ≠ operationKey) = pairs op.fields vs := by
  have hname (f : Field) : f.name ≠ operationKey := by cases f <;> decide
  have hpairs : ∀ m ∈ pairs op.fields vs, m.1 ≠ operationKey := by
    intro m hm
    obtain ⟨p, -, rfl⟩ := List.mem_map.mp hm
    exact hname p.1
  rw [named, List.filter_cons_of_neg (by simp), List.filter_eq_self]
  exact fun m hm => decide_eq_true (hpairs m hm)

theorem Operation.valuesOf_named (op : Operation) (f : Field) (vs : List Value) :
    valuesOf f.name (op.named vs) = valuesOf f.name (pairs op.fields vs) := by
  have hname : operationKey ≠ f.name := by cases f <;> decide
  exact valuesOf_cons_of_ne hname _

theorem Operation.valuesOf_operationKey_named (op : Operation) (vs : List Value) :
    valuesOf operationKey (op.named vs) = [.string op.name] := by
  have hnone : (pairs op.fields vs).filter (·.1 = operationKey) = [] := by
    rw [← op.filter_named, List.filter_filter]
    simp
  rw [named, valuesOf_cons_self, valuesOf, hnone]
  rfl

/-- The values are accepted behind the operation just when they are not too many and it accepts the
object that names them. -/
theorem Operation.acceptsListed_iff {op : Operation} {vs : List Value} :
    op.AcceptsListed vs ↔ vs.length ≤ op.fields.length ∧ op.Accepts (op.named vs) := by
  have honce := forall_fields_iff (P := fun _ ws => ws.length ≤ 1) op.nodup_fields vs
  have hpresent := forall_fields_iff (P := fun f ws => f ∈ [Field.ip, .port, .first, .last] →
    ws ≠ []) op.nodup_fields vs
  have hallowed := forall_fields_iff (P := fun f ws => ∀ v ∈ ws, f.Allows v) op.nodup_fields
    vs
  constructor
  · rintro ⟨hlength, hleft, hallow⟩
    refine ⟨hlength, op.valuesOf_operationKey_named vs, ?_, ?_, ?_⟩
    · simp only [op.valuesOf_named]
      exact honce.mpr ⟨by simp, by simp⟩
    · simp only [op.valuesOf_named]
      exact hpresent.mpr ⟨by simp, fun f hf hrequired => absurd hrequired (hleft f hf)⟩
    · simp only [op.valuesOf_named]
      exact hallowed.mpr ⟨fun p hp => by simpa using hallow p hp, by simp⟩
  · rintro ⟨hlength, -, -, hleft, hallow⟩
    simp only [op.valuesOf_named] at hleft hallow
    refine ⟨hlength, fun f hf hrequired => ?_, fun p hp => ?_⟩
    · exact (hpresent.mp hleft).2 f hf hrequired rfl
    · exact (hallowed.mp hallow).1 p hp p.2 (by simp)

end Recipe

namespace Step

open Recipe (stepOfItems stepOfMembers NamedForm)

/-! ## Either form -/

/-- Values spell a step in order just when they are not too many and the object that names them
spells it. -/
theorem listedBy_iff {st : Step} {vs : List Value} :
    st.ListedBy vs ↔
      vs.length ≤ st.operation.fields.length ∧ st.SpelledBy (st.operation.named vs) := by
  have hfields := Recipe.forall_fields_iff
    (P := fun f ws => ∃ x, st.content f = some x ∧ f.Holds ws x)
    st.operation.nodup_fields vs
  simp only [Field.holds_singleton_iff, Field.holds_nil_iff] at hfields
  constructor
  · rintro ⟨hlength, hgiven, hleft⟩
    refine ⟨hlength, st.operation.valuesOf_operationKey_named vs, ?_⟩
    simp only [Operation.valuesOf_named]
    refine hfields.mpr ⟨hgiven, fun f hf => ?_⟩
    obtain ⟨x, hx⟩ := exists_content (List.mem_of_mem_drop hf)
    exact ⟨x, hx, hleft f hf ▸ hx⟩
  · rintro ⟨hlength, -, hholds⟩
    simp only [Operation.valuesOf_named] at hholds
    obtain ⟨hgiven, hleft⟩ := hfields.mp hholds
    refine ⟨hlength, hgiven, fun f hf => ?_⟩
    obtain ⟨x, hx, hdefault⟩ := hleft f hf
    rw [hx, hdefault]

/-- The values behind the operation make a step just when they spell it in order. -/
theorem stepOfItems_eq_ok_iff {op : Operation} {vs : List Value} {st : Step} :
    stepOfItems op vs = .ok st ↔ st.operation = op ∧ st.ListedBy vs := by
  rw [Recipe.stepOfItems_eq_ok_iff, ← op.filter_named, stepOfMembers_eq_ok_iff]
  constructor
  · rintro ⟨hlength, rfl, hholds⟩
    exact ⟨rfl, listedBy_iff.mpr
      ⟨hlength, st.operation.valuesOf_operationKey_named vs, hholds⟩⟩
  · rintro ⟨rfl, hlisted⟩
    obtain ⟨hlength, -, hholds⟩ := listedBy_iff.mp hlisted
    exact ⟨hlength, rfl, hholds⟩

theorem ofOutline_array_iff {room : ℕ} {items : List Value}
    (h : ∀ v ∈ items, v.IsWithin room) {st : Step} :
    ofOutline (room + 1) (Value.array items).outline = .ok st ↔
      ∃ vs, items = .string st.operation.name :: vs ∧ st.ListedBy vs := by
  rw [Value.outline]
  cases items with
  | nil => simp [Value.outlineItems, ofOutline]
  | cons v vs =>
    rw [List.forall_mem_cons] at h
    have hvalues : (Value.outlineItems vs).values room = .ok vs :=
      Json.Value.values_outlineItems h.2
    simp only [Value.outlineItems, ofOutline, Json.Outline.look_eq_head h.1, hvalues,
      bind_eq_ok_iff, mapError_eq_ok_iff, Operation.ofHead_eq_ok_iff, stepOfItems_eq_ok_iff,
      Except.ok.injEq, exists_eq_left']
    constructor
    · rintro ⟨op, rfl, rfl, hlisted⟩
      exact ⟨vs, rfl, hlisted⟩
    · rintro ⟨ws, heq, hlisted⟩
      obtain ⟨rfl, rfl⟩ := List.cons.inj heq
      exact ⟨st.operation, rfl, rfl, hlisted⟩

theorem writtenAs_array_iff {st : Step} {items : List Value} :
    st.WrittenAs (.array items) ↔
      ∃ vs, items = .string st.operation.name :: vs ∧ st.ListedBy vs := by
  constructor
  · intro hwritten
    cases hwritten with
    | array hlisted => exact ⟨_, rfl, hlisted⟩
  · rintro ⟨vs, rfl, hlisted⟩
    exact .array hlisted

theorem writtenAs_array_cons_iff {st : Step} {op : Operation} {vs : List Value} :
    st.WrittenAs (.array (.string op.name :: vs)) ↔ st.operation = op ∧ st.ListedBy vs := by
  rw [writtenAs_array_iff]
  constructor
  · rintro ⟨ws, heq, hlisted⟩
    obtain ⟨hname, rfl⟩ := List.cons.inj heq
    exact ⟨(Operation.name_injective (Value.string.inj hname)).symm, hlisted⟩
  · rintro ⟨rfl, hlisted⟩
    exact ⟨vs, rfl, hlisted⟩

theorem writtenAs_object_iff {st : Step} {ms : List (String × Value)} :
    st.WrittenAs (.object ms) ↔ st.SpelledBy ms := by
  constructor
  · intro hwritten
    cases hwritten with
    | object hspelled => exact hspelled
  · exact .object

/-- A value is read as a step just when it is one of the two forms of that step. -/
theorem ofOutline_iff {room : ℕ} {v : Value} (h : v.IsWithin (room + 1)) {st : Step} :
    ofOutline (room + 1) v.outline = .ok st ↔ st.WrittenAs v := by
  cases v with
  | array items =>
    rw [ofOutline_array_iff (Value.isWithin_array_iff.mp h), writtenAs_array_iff]
  | object ms =>
    rw [ofOutline_object_iff (Value.isWithin_object_iff.mp h), writtenAs_object_iff]
  | null | bool | number | string =>
    constructor
    · intro hread
      simp [Value.outline, ofOutline, bind_eq_ok_iff] at hread
    · intro hform
      cases hform

theorem SpelledBy.of_perm {st : Step} {ms ns : List (String × Value)} (h : st.SpelledBy ms)
    (hperm : ms.Perm ns) : st.SpelledBy ns :=
  h.of_relevant_perm (hperm.filter _)

/-- Naming the values of an array does not change which step it is. -/
theorem writtenAs_congr {v w : Value} (h : NamedForm v w) (st : Step) :
    st.WrittenAs v ↔ st.WrittenAs w := by
  cases h with
  | self => exact Iff.rfl
  | @array op vs ms hlength hperm =>
    rw [writtenAs_array_cons_iff, writtenAs_object_iff]
    constructor
    · rintro ⟨rfl, hlisted⟩
      exact (listedBy_iff.mp hlisted).2.of_perm hperm
    · intro hspelled
      have hnamed := hspelled.of_perm hperm.symm
      have hname := hnamed.named
      rw [Operation.valuesOf_operationKey_named, List.cons.injEq, Value.string.injEq] at hname
      obtain rfl := Operation.name_injective hname.1
      exact ⟨rfl, listedBy_iff.mpr ⟨hlength, hnamed⟩⟩

theorem ofText_eq_ok_iff_writtenAs {s : String} {v : Value} (h : Value.ofText s = .ok v)
    {st : Step} : ofText s = .ok st ↔ st.WrittenAs v := by
  rw [ofText, Value.readText_of_ofText _ h]
  exact ofOutline_iff (Value.isWithin_of_ofText h)

theorem spells_fieldValues (st : Step) :
    ∀ p ∈ st.fieldValues, ∃ x, st.content p.1 = some x ∧ p.1.Spells x p.2 := by
  have hport (q : Port) : q.SpelledBy q.toValue := .inl rfl
  -- one fact for each field that the step has
  cases st <;> simp only [fieldValues, List.forall_mem_cons, List.not_mem_nil, false_imp_iff,
    implies_true, and_true]
  case host a d => exact ⟨⟨a, rfl, rfl⟩, d, rfl, rfl⟩
  case port q d t => exact ⟨⟨q, rfl, hport q⟩, ⟨d, rfl, rfl⟩, t, rfl, rfl⟩
  case portRange q r d t =>
    exact ⟨⟨q, rfl, hport q⟩, ⟨r, rfl, hport r⟩, ⟨d, rfl, rfl⟩, t, rfl, rfl⟩
  case group op => exact ⟨op, rfl, rfl⟩

/-- The values that are written of a step up to some field spell it in order, if the fields behind
that one hold their defaults. -/
theorem listedBy_take {st : Step} {k : ℕ}
    (h : ∀ f ∈ st.operation.fields.drop k, st.content f = f.default?) :
    st.ListedBy ((st.fieldValues.map Prod.snd).take k) := by
  have hlength : st.fieldValues.length = st.operation.fields.length := by
    rw [← st.map_fst_fieldValues, List.length_map]
  have hzip : st.operation.fields.zip ((st.fieldValues.map Prod.snd).take k) =
      st.fieldValues.take k := by
    rw [← st.map_fst_fieldValues, ← List.take_append_drop k (st.fieldValues.map Prod.fst),
      ← List.append_nil (List.take k (List.map Prod.snd _)), List.zip_append (by simp),
      List.zip_nil_right, List.append_nil, ← List.map_take, ← List.map_take, List.zip_map']
    simp
  refine ⟨by simp [hlength], fun p hp => ?_, fun f hf => ?_⟩
  · rw [hzip] at hp
    exact st.spells_fieldValues p (List.mem_of_mem_take hp)
  · rw [List.length_take, List.length_map, hlength] at hf
    rcases le_total k st.operation.fields.length with hk | hk
    · rw [min_eq_left hk] at hf
      exact h f hf
    · rw [min_eq_right hk, List.drop_length] at hf
      cases hf

end Step

namespace Recipe

open Json (maxDepth)

/-! ## Recipes -/

theorem stepsOfItems_eq_ok_iff {room : ℕ} {items : List Value}
    (h : ∀ v ∈ items, v.IsWithin (room + 1)) {steps : List Step} :
    stepsOfItems (room + 1) (Value.outlineItems items) = .ok steps ↔
      List.Forall₂ (fun v st => st.WrittenAs v) items steps := by
  induction items generalizing steps with
  | nil => simp [Value.outlineItems, stepsOfItems, eq_comm]
  | cons v vs ih =>
    rw [List.forall_mem_cons] at h
    simp only [Value.outlineItems, stepsOfItems, bind_eq_ok_iff, Step.ofOutline_iff h.1, ih h.2,
      List.forall₂_cons_left_iff]
    constructor
    · rintro ⟨st, hst, rest, hrest, heq⟩
      exact ⟨st, rest, hst, hrest, (Except.ok.inj heq).symm⟩
    · rintro ⟨st, rest, hst, hrest, rfl⟩
      exact ⟨st, hst, rest, hrest, rfl⟩

theorem ofText_eq_ok_iff {s : String} {items : List Value}
    (h : Value.ofText s = .ok (.array items)) {r : Recipe} :
    ofText s = .ok r ↔ List.Forall₂ (fun v st => st.WrittenAs v) items r.steps := by
  have hwithin : ∀ v ∈ items, v.IsWithin (125 + 1) :=
    Value.isWithin_array_iff.mp (Value.isWithin_of_ofText h)
  rw [ofText, Value.readText_of_ofText _ h, Value.outline, ofOutline, map_eq_ok_iff,
    ← stepsOfItems_eq_ok_iff hwithin]
  constructor
  · rintro ⟨steps, hsteps, rfl⟩
    exact hsteps
  · intro hsteps
    exact ⟨r.steps, hsteps, rfl⟩

theorem forall₂_writtenAs_congr {vs ws : List Value} (h : List.Forall₂ NamedForm vs ws)
    (steps : List Step) :
    List.Forall₂ (fun v st => st.WrittenAs v) vs steps ↔
      List.Forall₂ (fun v st => st.WrittenAs v) ws steps := by
  induction h generalizing steps with
  | nil => exact Iff.rfl
  | cons hv _ ih =>
    simp only [List.forall₂_cons_left_iff, Step.writtenAs_congr hv, ih]

/-- A text whose value is an array with the name of an operation in front is read as a step just
when the values behind the name spell that step in order. Some step is read just when these values
are no more than the fields, leave off only fields with a default, and are allowed where they stand.
Unless they are too many, the object that names them is read as the same step, or as none, in
whatever order its members stand. So every step can be written as an array that leaves off any
number of fields at the end that hold their defaults. A text whose value is an array of steps is
read as a recipe just when each element is a form of its step, and naming the values of some of the
elements changes nothing. -/
theorem ofText_forms :
    (∀ (op : Operation) (vs : List Value) (s : String),
      Value.ofText s = .ok (.array (.string op.name :: vs)) →
        (∀ st, Step.ofText s = .ok st ↔ st.operation = op ∧ st.ListedBy vs) ∧
        ((∃ st, Step.ofText s = .ok st) ↔ op.AcceptsListed vs) ∧
        (vs.length ≤ op.fields.length → ∀ t ms, Value.ofText t = .ok (.object ms) →
          (op.named vs).Perm ms → ∀ st, Step.ofText s = .ok st ↔ Step.ofText t = .ok st)) ∧
    (∀ (st : Step) (k : ℕ), (∀ f ∈ st.operation.fields.drop k, st.content f = f.default?) →
      let vs := (st.fieldValues.map Prod.snd).take k
      (∀ s, Value.ofText s = .ok (.array (.string st.operation.name :: vs)) →
        Step.ofText s = .ok st) ∧
      (∀ t, Value.ofText t = .ok (.object (st.operation.named vs)) → Step.ofText t = .ok st)) ∧
    (∀ (s : String) (items : List Value), Value.ofText s = .ok (.array items) →
      (∀ r, ofText s = .ok r ↔ List.Forall₂ (fun v st => st.WrittenAs v) items r.steps) ∧
      ∀ t named, Value.ofText t = .ok (.array named) → List.Forall₂ NamedForm items named →
        ∀ r, ofText s = .ok r ↔ ofText t = .ok r) := by
  refine ⟨fun op vs s hs => ⟨fun st => ?_, ?_, fun hlength t ms ht hperm st => ?_⟩,
    fun st k hleft => ?_, fun s items hs => ⟨fun r => ofText_eq_ok_iff hs, ?_⟩⟩
  · rw [Step.ofText_eq_ok_iff_writtenAs hs, Step.writtenAs_array_cons_iff]
  · simp only [Step.ofText_eq_ok_iff_writtenAs hs, Step.writtenAs_array_cons_iff,
      Operation.acceptsListed_iff, Operation.accepts_iff, Step.listedBy_iff]
    constructor
    · rintro ⟨st, rfl, hlength, hspelled⟩
      exact ⟨hlength, st, rfl, hspelled⟩
    · rintro ⟨hlength, st, rfl, hspelled⟩
      exact ⟨st, rfl, hlength, hspelled⟩
  · rw [Step.ofText_eq_ok_iff_writtenAs hs, Step.ofText_eq_ok_iff_writtenAs ht]
    exact Step.writtenAs_congr (.array hlength hperm) st
  · have hlisted := Step.listedBy_take hleft
    refine ⟨fun s hs => ?_, fun t ht => ?_⟩
    · exact (Step.ofText_eq_ok_iff_writtenAs hs).mpr (.array hlisted)
    · exact (Step.ofText_eq_ok_iff_writtenAs ht).mpr (.object (Step.listedBy_iff.mp hlisted).2)
  · intro t named ht hnamed r
    rw [ofText_eq_ok_iff hs, ofText_eq_ok_iff ht, forall₂_writtenAs_congr hnamed]

/-- A range of ports as an array without its protocol, with a text for one port and a number for the
other, alone and in front of a step that is an object. -/
theorem ofText_forms_of_range :
    let vs := [Value.string "0080", .number (.ofNat 90), .string "src"]
    let s := "[\"port_range\",\"0080\",90,\"src\"]"
    let u := "[" ++ s ++ ",\x7b\"op\":\"end\"\x7d]"
    let st : Step := .portRange ⟨80, by decide⟩ ⟨90, by decide⟩ .src .any
    Value.ofText s = .ok (.array (.string "port_range" :: vs)) ∧ Step.ofText s = .ok st ∧
      st.ListedBy vs ∧ Operation.portRange.AcceptsListed vs ∧
      ofText u = .ok ⟨[st, .commit]⟩ ∧
      List.Forall₂ (fun v st => st.WrittenAs v)
        [.array (.string "port_range" :: vs), .object [("op", .string "end")]] [st, .commit] := by
  intro vs s u st
  have harray (room : ℕ) : (Value.array (.string "port_range" :: vs)).Readable (room + 1) := by
    have hnumber : (Json.Numeral.ofNat 90).IsSpelled := by
      simp [Json.Numeral.IsSpelled, Json.Numeral.ofNat]
    refine .array ?_
    simp only [vs, List.forall_mem_cons]
    exact ⟨.string _, .string _, .number hnumber (by decide), .string _, by simp⟩
  have hobject : (Value.object [("op", .string "end")]).Readable 126 :=
    .object fun m hm => List.mem_singleton.mp hm ▸ .string _
  have hs : Value.ofText s = .ok (.array (.string "port_range" :: vs)) := by
    rw [show s = (Value.array (.string "port_range" :: vs)).compact by decide +kernel]
    exact Value.ofText_compact (harray 126)
  have hu : Value.ofText u = .ok (.array
      [.array (.string "port_range" :: vs), .object [("op", .string "end")]]) := by
    rw [show u = (Value.array
      [.array (.string "port_range" :: vs), .object [("op", .string "end")]]).compact by
        decide +kernel]
    exact Value.ofText_compact (.array (by simpa using ⟨harray 125, hobject⟩))
  have hread : Step.ofText s = .ok st := by decide +kernel
  have hrecipe : ofText u = .ok ⟨[st, .commit]⟩ := by decide +kernel
  obtain ⟨hlisted, haccepts, -⟩ := ofText_forms.1 .portRange vs s hs
  exact ⟨hs, hread, ((hlisted st).mp hread).2, haccepts.mp ⟨st, hread⟩, hrecipe,
    ((ofText_forms.2.2 u _ hu).1 _).mp hrecipe⟩

end Recipe

end CaptureFilter
