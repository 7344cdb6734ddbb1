import CaptureFilter.Proofs.StepFields

/-!
# Steps as objects

A step is read from an object in one pass: the operation is taken where it is met, the other members
are kept, and those that name a field of the operation are read in the order in which they stand.
What comes out does not depend on that order. It is said here by the values that the object has for
each name: one for the operation, at most one for each field, and one where there is no default.

Results:
* `Recipe.scanMembers_eq_ok_iff`: the members that are kept beside the operation.
* `Recipe.putMembers_eq_ok_iff`: the fields that are read from them, each for itself.
* `Recipe.Operation.accepts_iff`: the objects that spell some step.
* `Step.ofOutline_object_iff`: the objects that are read as a step, with any room.
* `Step.ofText_object`: the texts of objects that are read as steps.
-/

namespace CaptureFilter

open CaptureFilter.Json (Value Outline)

namespace Recipe

/-! ## Objects that spell a step -/

/-- The values of the members with a given name, in their order. -/
def valuesOf (name : String) (ms : List (String × Value)) : List Value :=
  (ms.filter (·.1 = name)).map Prod.snd

/-- The object is accepted as a step with this operation: the operation is named once, each of its
fields at most once, those without a default are there, and all their values are allowed. -/
structure Operation.Accepts (op : Operation) (ms : List (String × Value)) : Prop where
  named : valuesOf operationKey ms = [.string op.name]
  once : ∀ f ∈ op.fields, (valuesOf f.name ms).length ≤ 1
  present : ∀ f ∈ op.fields, f ∈ [.ip, .port, .first, .last] → valuesOf f.name ms ≠ []
  allowed : ∀ f ∈ op.fields, ∀ v ∈ valuesOf f.name ms, f.Allows v

end Recipe

open Recipe (Field Fields Operation operationKey valuesOf)

/-- The object spells this step: the operation is named once, and every field of it holds what it
has been given, or its default. -/
structure Step.SpelledBy (st : Step) (ms : List (String × Value)) : Prop where
  named : valuesOf operationKey ms = [.string st.operation.name]
  holds : ∀ f ∈ st.operation.fields, ∃ x, st.content f = some x ∧ f.Holds (valuesOf f.name ms) x

namespace Recipe

/-! ## The operation among the members -/

theorem Operation.ofName?_eq_some_iff {s : String} {op : Operation} :
    ofName? s = some op ↔ s = op.name :=
  find?_name_eq_some_iff ofName?_name

theorem Operation.name_injective {op op' : Operation} (h : op.name = op'.name) : op = op' := by
  have hname := ofName?_name op
  rw [h, ofName?_name] at hname
  exact (Option.some_inj.mp hname).symm

theorem Operation.ofHead_eq_ok_iff {v : Value} {op : Operation} :
    ofHead v.head = .ok op ↔ v = .string op.name := by
  cases v with
  | string s =>
    rw [Value.head, ofHead, Value.string.injEq, ← ofName?_eq_some_iff]
    cases ofName? s <;> simp
  | _ => simp [Value.head, ofHead]

theorem valuesOf_cons_self (name : String) (v : Value) (ms : List (String × Value)) :
    valuesOf name ((name, v) :: ms) = v :: valuesOf name ms := by
  simp [valuesOf]

theorem valuesOf_cons_of_ne {name : String} {m : String × Value} (h : m.1 ≠ name)
    (ms : List (String × Value)) : valuesOf name (m :: ms) = valuesOf name ms := by
  simp [valuesOf, h]

/-- Scanning the members finds the operation, if there is one in all, and keeps the others. -/
theorem scanMembers_eq_ok_iff {room : ℕ} {ms rest : List (String × Value)}
    (h : ∀ m ∈ ms, m.2.IsWithin room) {met : Option Operation} {op : Operation} :
    scanMembers room met (Value.outlineMembers ms) = .ok (op, rest) ↔
      met.toList.map (fun o => Value.string o.name) ++ valuesOf operationKey ms =
        [.string op.name] ∧ ms.filter (·.1 ≠ operationKey) = rest := by
  induction ms generalizing met rest with
  | nil =>
    cases met with
    | none => simp [Value.outlineMembers, scanMembers, valuesOf]
    | some o =>
      have hname : o.name = op.name ↔ o = op :=
        ⟨Operation.name_injective, congrArg Operation.name⟩
      simp [Value.outlineMembers, scanMembers, valuesOf, hname]
  | cons m ms ih =>
    obtain ⟨name, v⟩ := m
    rw [List.forall_mem_cons] at h
    rw [Value.outlineMembers, scanMembers]
    by_cases hname : name = operationKey
    · subst hname
      rw [if_pos rfl, valuesOf_cons_self]
      cases met with
      | some o => simp
      | none =>
        -- the operation is met here, so there is one in all just when none follows
        have hfilter : ((operationKey, v) :: ms).filter (·.1 ≠ operationKey) =
            ms.filter (·.1 ≠ operationKey) := by simp
        simp only [Option.isSome_none, Bool.false_eq_true, if_false, bind_eq_ok_iff,
          Outline.look_eq_head h.1, Except.ok.injEq, exists_eq_left', mapError_eq_ok_iff,
          Operation.ofHead_eq_ok_iff, ih h.2, hfilter]
        constructor
        · rintro ⟨o, rfl, hvalues, hrest⟩
          exact ⟨hvalues, hrest⟩
        · rintro ⟨hvalues, hrest⟩
          have hv : v = .string op.name := (List.cons.inj hvalues).1
          subst hv
          exact ⟨op, rfl, hvalues, hrest⟩
    · have hv : v.outline.value room = .ok v := h.1
      have hfilter : ((name, v) :: ms).filter (·.1 ≠ operationKey) =
          (name, v) :: ms.filter (·.1 ≠ operationKey) := by simp [hname]
      rw [if_neg hname, valuesOf_cons_of_ne hname, hv, hfilter]
      simp only [bind_eq_ok_iff, Except.ok.injEq, exists_eq_left']
      constructor
      · rintro ⟨⟨o, kept⟩, hscan, hpair⟩
        cases hpair
        obtain ⟨hvalues, hkept⟩ := (ih h.2).mp hscan
        exact ⟨hvalues, congrArg _ hkept⟩
      · rintro ⟨hvalues, rfl⟩
        exact ⟨(op, _), (ih h.2).mpr ⟨hvalues, rfl⟩, rfl⟩

/-! ## The fields among the members -/

theorem Field.name_injective {f g : Field} (h : f.name = g.name) : f = g := by
  cases f <;> cases g <;> first | rfl | exact absurd h (by decide)

theorem Operation.field?_eq_some_iff {op : Operation} {name : String} {f : Field} :
    op.field? name = some f ↔ f ∈ op.fields ∧ f.name = name := by
  constructor
  · intro h
    have hname := List.find?_some h
    exact ⟨List.mem_of_find?_eq_some h, of_decide_eq_true hname⟩
  · rintro ⟨hmem, rfl⟩
    cases hfind : op.field? f.name with
    | none =>
      have hnone := List.find?_eq_none.mp hfind f hmem
      simp at hnone
    | some g =>
      have hname := List.find?_some hfind
      rw [Field.name_injective (of_decide_eq_true hname)]

/-- One member of a step is read just when it is passed over, or has a value for a field that was
not met before. -/
theorem putMember_eq_ok_iff {op : Operation} {fs gs : Fields} {m : String × Value} :
    putMember op fs m = .ok gs ↔
      op.field? m.1 = none ∧ fs = gs ∨
        ∃ f x, op.field? m.1 = some f ∧ fs.get f = none ∧ f.Spells x m.2 ∧ fs.set f x = gs := by
  rw [putMember]
  cases op.field? m.1 with
  | none => simp
  | some f =>
    simp only [Fields.has_eq]
    cases hget : fs.get f with
    | none => simp [Fields.put_eq_ok_iff, hget]
    | some x => simp [hget]

/-- What reading values into a field does to its content: without a value it stays, and a single
value fills it, if it was empty. -/
def Field.Fills (f : Field) (vs : List Value) (old new : Option f.Content) : Prop :=
  (vs = [] ∧ old = new) ∨ ∃ v x, vs = [v] ∧ old = none ∧ f.Spells x v ∧ some x = new

theorem Field.fills_cons_iff {f : Field} {v : Value} {vs : List Value}
    {old new : Option f.Content} :
    f.Fills (v :: vs) old new ↔ ∃ x, old = none ∧ f.Spells x v ∧ f.Fills vs (some x) new := by
  constructor
  · rintro (⟨hnil, -⟩ | ⟨w, x, hone, hold, hspells, hnew⟩)
    · cases hnil
    · obtain ⟨rfl, hnil⟩ := List.cons.inj hone
      exact ⟨x, hold, hspells, .inl ⟨hnil, hnew⟩⟩
  · rintro ⟨x, hold, hspells, ⟨hnil, hnew⟩ | ⟨w, y, -, hnone, -⟩⟩
    · exact .inr ⟨v, x, by rw [hnil], hold, hspells, hnew⟩
    · cases hnone

/-- The values among the members that an operation has for a field. -/
def Operation.given (op : Operation) (f : Field) (ms : List (String × Value)) : List Value :=
  (ms.filter fun m => op.field? m.1 = some f).map Prod.snd

theorem Operation.given_cons_self {op : Operation} {f : Field} {m : String × Value}
    (h : op.field? m.1 = some f) (ms : List (String × Value)) :
    op.given f (m :: ms) = m.2 :: op.given f ms := by
  simp [given, h]

theorem Operation.given_cons_of_ne {op : Operation} {f : Field} {m : String × Value}
    (h : op.field? m.1 ≠ some f) (ms : List (String × Value)) :
    op.given f (m :: ms) = op.given f ms := by
  simp [given, h]

/-- A member that has a value for a field in front of others: the field was empty, it takes that
value, and none of the others has one for it. -/
theorem fills_given_cons_iff {op : Operation} {fs gs : Fields} {f : Field} {m : String × Value}
    (h : op.field? m.1 = some f) {ms : List (String × Value)} :
    (∀ g : Field, g.Fills (op.given g (m :: ms)) (fs.get g) (gs.get g)) ↔
      ∃ x, fs.get f = none ∧ f.Spells x m.2 ∧
        ∀ g : Field, g.Fills (op.given g ms) ((fs.set f x).get g) (gs.get g) := by
  -- the member is nothing to the other fields
  have hother {g : Field} (hg : g ≠ f) (x : f.Content) :
      op.given g (m :: ms) = op.given g ms ∧ (fs.set f x).get g = fs.get g := by
    have hne : op.field? m.1 ≠ some g := by
      rw [h]
      simpa using Ne.symm hg
    exact ⟨Operation.given_cons_of_ne hne ms, fs.get_set_of_ne hg x⟩
  constructor
  · intro hall
    have hf := hall f
    rw [Operation.given_cons_self h, Field.fills_cons_iff] at hf
    obtain ⟨x, hold, hspells, hfill⟩ := hf
    refine ⟨x, hold, hspells, fun g => ?_⟩
    by_cases hg : g = f
    · subst hg
      rwa [Fields.get_set_self]
    · rw [(hother hg x).2, ← (hother hg x).1]
      exact hall g
  · rintro ⟨x, hold, hspells, hall⟩ g
    by_cases hg : g = f
    · subst hg
      have hfill := hall g
      rw [Fields.get_set_self] at hfill
      rw [Operation.given_cons_self h, Field.fills_cons_iff]
      exact ⟨x, hold, hspells, hfill⟩
    · rw [(hother hg x).1, ← (hother hg x).2]
      exact hall g

/-- The members of a step are read just when all fields are, each for itself. -/
theorem putMembers_eq_ok_iff {op : Operation} {fs gs : Fields} {ms : List (String × Value)} :
    putMembers op fs ms = .ok gs ↔
      ∀ f : Field, f.Fills (op.given f ms) (fs.get f) (gs.get f) := by
  -- what was read before is the start of the rest, so it must be general
  induction ms generalizing fs with
  | nil =>
    have hfills (f : Field) :
        f.Fills (op.given f []) (fs.get f) (gs.get f) ↔ fs.get f = gs.get f := by
      simp [Operation.given, Field.Fills]
    simp only [putMembers, Except.ok.injEq, hfills]
    exact ⟨fun h f => h ▸ rfl, Fields.eq_of_get⟩
  | cons m ms ih =>
    simp only [putMembers, bind_eq_ok_iff, putMember_eq_ok_iff, ih]
    cases hfield : op.field? m.1 with
    | none =>
      have hgiven (f : Field) : op.given f (m :: ms) = op.given f ms :=
        Operation.given_cons_of_ne (by simp [hfield]) ms
      simp [hgiven]
    | some f =>
      rw [fills_given_cons_iff hfield]
      constructor
      · rintro ⟨hs, ⟨hnone, -⟩ | ⟨f', x, hf', hold, hspells, rfl⟩, hrest⟩
        · cases hnone
        · cases hf'
          exact ⟨x, hold, hspells, hrest⟩
      · rintro ⟨x, hold, hspells, hrest⟩
        exact ⟨_, .inr ⟨f, x, rfl, hold, hspells, rfl⟩, hrest⟩

/-- A field holds some content just when reading its values and filling it gives that. -/
theorem Field.holds_iff {f : Field} {vs : List Value} {x : f.Content} :
    f.Holds vs x ↔ ∃ c, f.Fills vs none c ∧ c.or f.default? = some x := by
  constructor
  · rintro (⟨hnil, hdefault⟩ | ⟨v, hone, hspells⟩)
    · exact ⟨none, .inl ⟨hnil, rfl⟩, hdefault⟩
    · exact ⟨some x, .inr ⟨v, x, hone, rfl, hspells, rfl⟩, rfl⟩
  · rintro ⟨c, ⟨hnil, rfl⟩ | ⟨v, y, hone, -, hspells, rfl⟩, hfilled⟩
    · exact .inl ⟨hnil, hfilled⟩
    · have hxy : y = x := Option.some_inj.mp hfilled
      exact .inr ⟨v, hone, hxy ▸ hspells⟩

theorem Operation.given_of_mem {op : Operation} {f : Field} (h : f ∈ op.fields)
    (ms : List (String × Value)) :
    op.given f (ms.filter (·.1 ≠ operationKey)) = valuesOf f.name ms := by
  have hkey : f.name ≠ operationKey := by cases f <;> decide
  rw [given, valuesOf, List.filter_filter]
  congr 2
  funext m
  rw [← Bool.decide_and, decide_eq_decide, field?_eq_some_iff]
  constructor
  · rintro ⟨⟨-, hname⟩, -⟩
    exact hname.symm
  · intro hname
    exact ⟨⟨h, hname.symm⟩, hname ▸ hkey⟩

theorem Operation.given_of_not_mem {op : Operation} {f : Field} (h : f ∉ op.fields)
    (ms : List (String × Value)) : op.given f ms = [] := by
  have hnone (m : String × Value) : op.field? m.1 ≠ some f := fun hfield =>
    h (field?_eq_some_iff.mp hfield).1
  simp [given, hnone]

end Recipe

/-! ## The step -/

namespace Step

open Recipe (scanMembers stepOfMembers scanMembers_eq_ok_iff putMembers_eq_ok_iff
  step_operation_eq_ok_iff)

/-- The members beside the operation make a step just when each field of the step holds what it has
been given. -/
theorem stepOfMembers_eq_ok_iff {op : Operation} {ms : List (String × Value)} {st : Step} :
    stepOfMembers op (ms.filter (·.1 ≠ operationKey)) = .ok st ↔
      st.operation = op ∧
        ∀ f ∈ op.fields, ∃ x, st.content f = some x ∧ f.Holds (valuesOf f.name ms) x := by
  simp only [stepOfMembers, bind_eq_ok_iff, mapError_eq_ok_iff, putMembers_eq_ok_iff,
    Fields.get_empty]
  constructor
  · rintro ⟨gs, hfills, hstep⟩
    obtain rfl := Operation.operation_of_step hstep
    rw [step_operation_eq_ok_iff] at hstep
    refine ⟨rfl, fun f hf => ?_⟩
    obtain ⟨x, hx⟩ := exists_content hf
    have hfill := hfills f
    rw [Operation.given_of_mem hf] at hfill
    exact ⟨x, hx, Field.holds_iff.mpr ⟨gs.get f, hfill, (hstep f hf).trans hx⟩⟩
  · rintro ⟨rfl, hholds⟩
    -- each field fixes what reading has to leave in it; those that are not read stay empty
    have hfield (f : Field) : ∃ c,
        f.Fills (st.operation.given f (ms.filter (·.1 ≠ operationKey))) none c ∧
          (f ∈ st.operation.fields → c.or f.default? = st.content f) := by
      by_cases hf : f ∈ st.operation.fields
      · obtain ⟨x, hx, hheld⟩ := hholds f hf
        obtain ⟨c, hfill, hfilled⟩ := Field.holds_iff.mp hheld
        rw [Operation.given_of_mem hf]
        exact ⟨c, hfill, fun _ => hfilled.trans hx.symm⟩
      · rw [Operation.given_of_not_mem hf]
        exact ⟨none, .inl ⟨rfl, rfl⟩, fun h => absurd h hf⟩
    choose c hfill hfilled using hfield
    refine ⟨Fields.ofGet c, fun f => by simpa using hfill f, ?_⟩
    rw [step_operation_eq_ok_iff]
    intro f hf
    rw [Fields.filled, Fields.get_ofGet, hfilled f hf]

theorem ofOutline_object_iff {room : ℕ} {ms : List (String × Value)}
    (h : ∀ m ∈ ms, m.2.IsWithin room) {st : Step} :
    ofOutline (room + 1) (Value.object ms).outline = .ok st ↔ st.SpelledBy ms := by
  rw [Value.outline, ofOutline, bind_eq_ok_iff]
  constructor
  · rintro ⟨⟨op, rest⟩, hscan, hstep⟩
    obtain ⟨hnamed, rfl⟩ := (scanMembers_eq_ok_iff h).mp hscan
    obtain ⟨rfl, hholds⟩ := stepOfMembers_eq_ok_iff.mp (mapError_eq_ok_iff.mp hstep)
    exact ⟨hnamed, hholds⟩
  · rintro ⟨hnamed, hholds⟩
    exact ⟨(st.operation, ms.filter (·.1 ≠ operationKey)), (scanMembers_eq_ok_iff h).mpr
      ⟨hnamed, rfl⟩, mapError_eq_ok_iff.mpr (stepOfMembers_eq_ok_iff.mpr ⟨rfl, hholds⟩)⟩

end Step

/-! ## Acceptance -/

namespace Recipe

theorem Operation.accepts_iff {op : Operation} {ms : List (String × Value)} :
    op.Accepts ms ↔ ∃ st : Step, st.operation = op ∧ st.SpelledBy ms := by
  constructor
  · rintro ⟨hnamed, honce, hpresent, hallowed⟩
    have hfield (f : Field) :
        ∃ c, f ∈ op.fields → ∃ x, c = some x ∧ f.Holds (valuesOf f.name ms) x := by
      by_cases hf : f ∈ op.fields
      · obtain ⟨x, hx⟩ := Field.exists_holds_iff.mpr ⟨honce f hf, hpresent f hf, hallowed f hf⟩
        exact ⟨some x, fun _ => ⟨x, rfl, hx⟩⟩
      · exact ⟨none, fun h => absurd h hf⟩
    choose c hc using hfield
    obtain ⟨st, hstep⟩ : ∃ st, op.step (Fields.ofGet c) = .ok st :=
      exists_step fun f hf => by
        obtain ⟨x, hx, -⟩ := hc f hf
        exact ⟨x, by rw [Fields.get_ofGet, hx]⟩
    obtain rfl := operation_of_step hstep
    refine ⟨st, rfl, hnamed, fun f hf => ?_⟩
    obtain ⟨x, hx, hheld⟩ := hc f hf
    refine ⟨x, ?_, hheld⟩
    rw [← step_operation_eq_ok_iff.mp hstep f hf, Fields.filled, Fields.get_ofGet, hx,
      Option.some_or]
  · rintro ⟨st, rfl, hnamed, hholds⟩
    have hfield (f : Field) (hf : f ∈ st.operation.fields) :=
      Field.exists_holds_iff.mp ((hholds f hf).imp fun _ => And.right)
    exact ⟨hnamed, fun f hf => (hfield f hf).1, fun f hf => (hfield f hf).2.1,
      fun f hf => (hfield f hf).2.2⟩

/-! ## Order and other members -/

/-- The members that an operation looks at: those with its own name and those of its fields. -/
def Operation.relevant (op : Operation) (ms : List (String × Value)) : List (String × Value) :=
  ms.filter fun m => m.1 = operationKey ∨ m.1 ∈ op.fields.map Field.name

theorem valuesOf_perm {name : String} {ms ns : List (String × Value)} (h : ms.Perm ns) :
    (valuesOf name ms).Perm (valuesOf name ns) :=
  (h.filter _).map _

theorem Operation.valuesOf_relevant {op : Operation} {name : String}
    (h : name = operationKey ∨ name ∈ op.fields.map Field.name) (ms : List (String × Value)) :
    valuesOf name (op.relevant ms) = valuesOf name ms := by
  rw [valuesOf, relevant, List.filter_filter, valuesOf]
  congr 2
  funext m
  rw [← Bool.decide_and, decide_eq_decide]
  exact ⟨And.left, fun hname => ⟨hname, hname ▸ h⟩⟩

theorem Field.Holds.perm {f : Field} {vs ws : List Value} {x : f.Content} (h : f.Holds vs x)
    (hperm : vs.Perm ws) : f.Holds ws x := by
  rcases h with ⟨rfl, hdefault⟩ | ⟨v, rfl, hspells⟩
  · exact .inl ⟨hperm.nil_eq.symm, hdefault⟩
  · exact .inr ⟨v, (List.singleton_perm.mp hperm).symm, hspells⟩

end Recipe

namespace Step

/-- Whether an object spells a step is up to the members that the operation looks at, in any
order. -/
theorem SpelledBy.of_relevant_perm {st : Step} {ms ns : List (String × Value)}
    (h : st.SpelledBy ms) (hperm : (st.operation.relevant ms).Perm (st.operation.relevant ns)) :
    st.SpelledBy ns := by
  have hvalues {name : String}
      (hname : name = operationKey ∨ name ∈ st.operation.fields.map Field.name) :
      (valuesOf name ms).Perm (valuesOf name ns) := by
    rw [← Operation.valuesOf_relevant hname ms, ← Operation.valuesOf_relevant hname ns]
    exact Recipe.valuesOf_perm hperm
  constructor
  · have hnamed := hvalues (.inl rfl)
    rw [h.named] at hnamed
    exact (List.singleton_perm.mp hnamed).symm
  · intro f hf
    obtain ⟨x, hx, hheld⟩ := h.holds f hf
    exact ⟨x, hx, hheld.perm (hvalues (.inr (List.mem_map_of_mem hf)))⟩

/-- Take a text whose value is an object, and look at the members of that. The text is read as a
step just when the members spell it: the operation is named once, a field with one value holds what
that says, and a field without a value holds its default. So some step is read just when an
operation accepts the members. The order of the members does not matter, nor do those that neither
name the operation nor a field of it, however often they occur. -/
theorem ofText_object {s : String} {ms : List (String × Value)}
    (h : Value.ofText s = .ok (.object ms)) :
    (∀ st, ofText s = .ok st ↔ st.SpelledBy ms) ∧
    ((∃ st, ofText s = .ok st) ↔ ∃ op : Operation, op.Accepts ms) ∧
    (∀ t ns, Value.ofText t = .ok (.object ns) → ms.Perm ns →
      ∀ st, ofText t = .ok st ↔ ofText s = .ok st) ∧
    (∀ t ns st, Value.ofText t = .ok (.object ns) →
      (st.operation.relevant ms).Perm (st.operation.relevant ns) →
      (ofText t = .ok st ↔ ofText s = .ok st)) := by
  have hread {t : String} {ns : List (String × Value)} (ht : Value.ofText t = .ok (.object ns))
      (st : Step) : ofText t = .ok st ↔ st.SpelledBy ns := by
    have hwithin := Value.isWithin_object_iff.mp (Value.isWithin_of_ofText ht)
    rw [ofText, Value.readText_of_ofText _ ht]
    exact ofOutline_object_iff hwithin
  have hsame {t : String} {ns : List (String × Value)} (ht : Value.ofText t = .ok (.object ns))
      {st : Step} (hperm : (st.operation.relevant ms).Perm (st.operation.relevant ns)) :
      ofText t = .ok st ↔ ofText s = .ok st := by
    rw [hread ht, hread h]
    exact ⟨fun hspelled => hspelled.of_relevant_perm hperm.symm,
      fun hspelled => hspelled.of_relevant_perm hperm⟩
  refine ⟨hread h, ?_, fun t ns ht hperm st => hsame ht (hperm.filter _),
    fun t ns st ht hperm => hsame ht hperm⟩
  simp only [Operation.accepts_iff, hread h]
  constructor
  · rintro ⟨st, hspelled⟩
    exact ⟨_, st, rfl, hspelled⟩
  · rintro ⟨-, st, -, hspelled⟩
    exact ⟨st, hspelled⟩

/-- A range of ports with its operation behind one port, which is a text with zeros, and a member
that no step has; and the same members in reverse, with that one twice. -/
theorem ofText_object_of_reverse :
    let s := "\x7b\"end\":90,\"x\":null,\"op\":\"port_range\",\"start\":\"0080\"\x7d"
    let t := "\x7b\"x\":null,\"start\":\"0080\",\"op\":\"port_range\",\"x\":null,\"end\":90\x7d"
    let ms := [("end", Value.number (.ofNat 90)), ("x", .null), ("op", .string "port_range"),
      ("start", .string "0080")]
    let st : Step := .portRange ⟨80, by decide⟩ ⟨90, by decide⟩ .any .any
    Value.ofText s = .ok (.object ms) ∧
      Value.ofText t = .ok (.object (("x", .null) :: ms.reverse)) ∧
      st.SpelledBy ms ∧ ofText t = .ok st := by
  intro s t ms st
  have hms : ∀ m ∈ ms, m.2.Readable 126 := by
    have hnumber : (Json.Numeral.ofNat 90).IsSpelled := by
      simp [Json.Numeral.IsSpelled, Json.Numeral.ofNat]
    simp only [ms, List.forall_mem_cons]
    exact ⟨.number hnumber (by decide), .null, .string _, .string _, by simp⟩
  have hns : ∀ m ∈ ("x", .null) :: ms.reverse, m.2.Readable 126 :=
    List.forall_mem_cons.mpr ⟨.null, fun m hm => hms m (List.mem_reverse.mp hm)⟩
  have hs : Value.ofText s = .ok (.object ms) := by
    rw [show s = (Value.object ms).compact by decide +kernel]
    exact Value.ofText_compact (.object hms)
  have ht : Value.ofText t = .ok (.object (("x", .null) :: ms.reverse)) := by
    rw [show t = (Value.object (("x", .null) :: ms.reverse)).compact by decide +kernel]
    exact Value.ofText_compact (.object hns)
  have hread : ofText s = .ok st := by decide +kernel
  have hperm : (st.operation.relevant ms).Perm
      (st.operation.relevant (("x", .null) :: ms.reverse)) := by
    rw [show st.operation.relevant (("x", .null) :: ms.reverse) =
      (st.operation.relevant ms).reverse from rfl]
    exact (List.reverse_perm _).symm
  obtain ⟨hspelled, -, -, hrelevant⟩ := ofText_object hs
  exact ⟨hs, ht, (hspelled st).mp hread, (hrelevant t _ st ht hperm).mpr hread⟩

end Step

end CaptureFilter
