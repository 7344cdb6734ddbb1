import CaptureFilter.Proofs.JsonRoundTrip
import CaptureFilter.Proofs.Computations

/-!
# The value of a text

A JSON text may be written in many ways. If it has a value, then nothing in its outline is broken:
it is the outline of the value. So a reader of outlines makes of the text what it makes of the
value, and a statement on all values is one on all texts that have one.

Results:
* `Value.outline_of_ofText`: the outline of a text that has a value.
* `Value.readText_of_ofText`: what a reader makes of such a text.
* `Value.isWithin_array_iff`, `Value.isWithin_object_iff`: the parts of a container that a reader
  takes.
-/

namespace CaptureFilter.Json

/-- A text is read just when its outline is, and nothing follows the value. -/
theorem readText_eq_ok_iff {α : Type} {reader : Outline → Except Error α} {s : String} {a : α} :
    readText reader s = .ok a ↔ reader (outline s).1 = .ok a ∧ (outline s).2 = false := by
  rw [readText, bind_eq_ok_iff]
  cases (outline s).2 <;> simp

/-! ## Outlines that have a value -/

mutual

theorem Outline.eq_outline_of_value {room : ℕ} :
    {o : Outline} → {v : Value} → o.value room = .ok v → o = v.outline
  | .null, _, h => by cases h; rfl
  | .bool _, _, h => by cases h; rfl
  | .number _, _, h => by
    rw [Outline.value] at h
    split_ifs at h
    cases h
    rfl
  | .string (some _), _, h => by cases h; rfl
  | .string none, _, h => by cases h
  | .array items, _, h => by
    cases room with
    | zero => cases h
    | succ room =>
      rw [Outline.value, map_eq_ok_iff] at h
      obtain ⟨vs, hvs, rfl⟩ := h
      exact congrArg Outline.array (Items.eq_outlineItems_of_values hvs)
  | .object members, _, h => by
    cases room with
    | zero => cases h
    | succ room =>
      rw [Outline.value, map_eq_ok_iff] at h
      obtain ⟨ms, hms, rfl⟩ := h
      exact congrArg Outline.object (Members.eq_outlineMembers_of_values hms)
  | .broken _, _, h => by cases h

theorem Items.eq_outlineItems_of_values {room : ℕ} :
    {is : Items} → {vs : List Value} → is.values room = .ok vs → is = Value.outlineItems vs
  | .nil, _, h => by cases h; rfl
  | .broken _, _, h => by cases h
  | .cons o is, _, h => by
    simp only [Items.values, bind_eq_ok_iff] at h
    obtain ⟨v, hv, vs, hvs, h⟩ := h
    cases h
    rw [Outline.eq_outline_of_value hv, Items.eq_outlineItems_of_values hvs, Value.outlineItems]

theorem Members.eq_outlineMembers_of_values {room : ℕ} :
    {ns : Members} → {ms : List (String × Value)} → ns.values room = .ok ms →
      ns = Value.outlineMembers ms
  | .nil, _, h => by cases h; rfl
  | .broken _, _, h => by cases h
  | .cons none _ _, _, h => by cases h
  | .cons (some name) o ns, _, h => by
    simp only [Members.values, bind_eq_ok_iff] at h
    obtain ⟨v, hv, ms, hms, h⟩ := h
    cases h
    rw [Outline.eq_outline_of_value hv, Members.eq_outlineMembers_of_values hms,
      Value.outlineMembers]

end

namespace Value

/-- A value that a reader of values takes: its numbers are in range, and at most `room` containers
stand one in another. -/
def IsWithin (room : ℕ) (v : Value) : Prop := v.outline.value room = .ok v

/-- The elements of an array that a reader takes are values that it takes with less room. -/
theorem isWithin_array_iff {room : ℕ} {vs : List Value} :
    (array vs).IsWithin (room + 1) ↔ ∀ v ∈ vs, v.IsWithin room := by
  rw [IsWithin, outline, Outline.value, map_eq_ok_iff]
  simp only [array.injEq, exists_eq_right]
  refine ⟨fun h => ?_, values_outlineItems⟩
  induction vs with
  | nil => simp
  | cons v vs ih =>
    simp only [outlineItems, Items.values, bind_eq_ok_iff] at h
    obtain ⟨w, hw, ws, hws, h⟩ := h
    cases h
    exact List.forall_mem_cons.mpr ⟨hw, ih hws⟩

theorem isWithin_object_iff {room : ℕ} {ms : List (String × Value)} :
    (object ms).IsWithin (room + 1) ↔ ∀ m ∈ ms, m.2.IsWithin room := by
  rw [IsWithin, outline, Outline.value, map_eq_ok_iff]
  simp only [object.injEq, exists_eq_right]
  refine ⟨fun h => ?_, values_outlineMembers⟩
  induction ms with
  | nil => simp
  | cons m ms ih =>
    obtain ⟨name, v⟩ := m
    simp only [outlineMembers, Members.values, bind_eq_ok_iff] at h
    obtain ⟨w, hw, ns, hns, h⟩ := h
    cases h
    exact List.forall_mem_cons.mpr ⟨hw, ih hns⟩

/-- The outline of a text that has a value is that of the value, with nothing behind it. -/
theorem outline_of_ofText {s : String} {v : Value} (h : ofText s = .ok v) :
    Json.outline s = (v.outline, false) := by
  rw [ofText, readText_eq_ok_iff] at h
  rw [← Outline.eq_outline_of_value h.1, ← h.2]

theorem isWithin_of_ofText {s : String} {v : Value} (h : ofText s = .ok v) :
    v.IsWithin maxDepth := by
  have houtline := outline_of_ofText h
  rw [ofText, readText_eq_ok_iff, houtline] at h
  exact h.1

theorem readText_of_ofText {α : Type} (reader : Outline → Except Error α) {s : String} {v : Value}
    (h : ofText s = .ok v) : readText reader s = reader v.outline := by
  simp only [readText, outline_of_ofText h]
  cases reader v.outline <;> rfl

end Value

end CaptureFilter.Json
