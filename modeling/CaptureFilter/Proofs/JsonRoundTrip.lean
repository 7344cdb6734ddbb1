import CaptureFilter.Json.Reading
import CaptureFilter.Proofs.JsonTokens

/-!
# Reading a written value

The tokens of a value build its outline, in which nothing is broken, and whatever reads outlines
reads that one from the text of the value. A reader of values finds the value itself.

Results:
* `Value.outline_of_lexes`: the outline of a text of a value.
* `Value.readText_of_lexes`, `Value.readText_compact`: what a reader makes of such a text.
* `Value.ofText_of_lexes`, `Value.ofText_compact`: a value is read back from its texts.
-/

namespace CaptureFilter.Json

/-! ## The outline of a value -/

namespace Value

mutual

/-- The outline of a value, with nothing broken in it. -/
def outline : Value → Outline
  | null => .null
  | bool b => .bool b
  | number n => .number n
  | string s => .string (some s)
  | array items => .array (outlineItems items)
  | object members => .object (outlineMembers members)

/-- The outlines of the elements of an array. -/
def outlineItems : List Value → Items
  | [] => .nil
  | v :: vs => .cons v.outline (outlineItems vs)

/-- The outlines of the members of an object. -/
def outlineMembers : List (String × Value) → Members
  | [] => .nil
  | (k, v) :: ms => .cons (some k) v.outline (outlineMembers ms)

end

end Value

/-! ## Building it from tokens -/

namespace Stage

/-- A value is taken whole by a stage that waits for one, whatever stands around it. -/
def Takes (v : Value) : Prop :=
  ∀ outer, v.tokens.foldl push (.value outer) = deliver v.outline outer

theorem exists_tokens_cons (v : Value) :
    ∃ (t : Token) (ts : List Token), v.tokens = t :: ts ∧ t ≠ .endArray := by
  cases v <;> exact ⟨_, _, rfl, by simp⟩

/-- The rest of an array, from a place where a value must stand. -/
theorem foldl_push_items {v : Value} {vs : List Value} (h : ∀ w ∈ v :: vs, Takes w)
    (before : List Outline) (outer : List Frame) :
    ([Token.comma].intercalate ((v :: vs).map Value.tokens) ++ [Token.endArray]).foldl push
        (.value (.array before :: outer)) =
      deliver (.array (.prepend before (Value.outlineItems (v :: vs)))) outer := by
  induction vs generalizing v before with
  | nil =>
    rw [List.map_singleton, List.intercalate_singleton, List.foldl_append, h v (by simp)]
    rfl
  | cons w vs ih =>
    have hcomma : [Token.comma].foldl push (deliver v.outline (.array before :: outer)) =
        .value (.array (v.outline :: before) :: outer) := rfl
    rw [List.map_cons, List.map_cons, List.intercalate_cons_cons, List.append_assoc,
      List.append_assoc, List.foldl_append, h v (by simp), List.foldl_append, hcomma,
      ← List.map_cons, ih (fun u hu => h u (by simp [hu]))]
    rfl

/-- A member of an object, from a place where its name must stand. -/
theorem foldl_push_member {m : String × Value} (h : Takes m.2)
    (before : List (Option String × Outline)) (outer : List Frame) :
    (Value.memberTokens m).foldl push (.memberName outer before) =
      .nextMember outer ((some m.1, m.2.outline) :: before) := by
  have hname : [Token.string (some m.1), .colon].foldl push (.memberName outer before) =
      .value (.object before (some m.1) :: outer) := rfl
  rw [show Value.memberTokens m = [Token.string (some m.1), .colon] ++ m.2.tokens from rfl,
    List.foldl_append, hname, h]
  rfl

/-- The rest of an object, from a place where the name of a member must stand. -/
theorem foldl_push_members {m : String × Value} {ms : List (String × Value)}
    (h : ∀ n ∈ m :: ms, Takes n.2) (before : List (Option String × Outline)) (outer : List Frame) :
    ([Token.comma].intercalate ((m :: ms).map Value.memberTokens) ++ [Token.endObject]).foldl push
        (.memberName outer before) =
      deliver (.object (.prepend before (Value.outlineMembers (m :: ms)))) outer := by
  induction ms generalizing m before with
  | nil =>
    rw [List.map_singleton, List.intercalate_singleton, List.foldl_append,
      foldl_push_member (h m (by simp))]
    rfl
  | cons n ms ih =>
    have hcomma : [Token.comma].foldl push
        (.nextMember outer ((some m.1, m.2.outline) :: before)) =
        .memberName outer ((some m.1, m.2.outline) :: before) := rfl
    rw [List.map_cons, List.map_cons, List.intercalate_cons_cons, List.append_assoc,
      List.append_assoc, List.foldl_append, foldl_push_member (h m (by simp)), List.foldl_append,
      hcomma, ← List.map_cons, ih (fun u hu => h u (by simp [hu]))]
    rfl

/-- What may stand behind the bracket of an array, if it is not the one that ends it, may stand
where a value must. -/
theorem foldl_push_firstItem {t : Token} (h : t ≠ .endArray) (ts : List Token)
    (outer : List Frame) :
    (t :: ts).foldl push (.firstItem outer) =
      (t :: ts).foldl push (.value (.array [] :: outer)) := by
  have hpush : push (.firstItem outer) t = push (.value (.array [] :: outer)) t := if_neg h
  rw [List.foldl_cons, List.foldl_cons, hpush]

theorem takes {room : ℕ} {v : Value} (h : v.Readable room) : Takes v := by
  induction h with
  | null => exact fun _ => rfl
  | bool b => exact fun _ => rfl
  | number => exact fun _ => rfl
  | string s => exact fun _ => rfl
  | @array room items _ ih =>
    intro outer
    have hopen : push (.value outer) .beginArray = .firstItem outer := rfl
    rw [Value.tokens_array, List.foldl_cons, hopen]
    cases items with
    | nil => rfl
    | cons v vs =>
      -- the first element is not the bracket that would end the array
      have hitems := foldl_push_items ih [] outer
      obtain ⟨t, ts, hts, hne⟩ := exists_tokens_cons v
      rw [List.map_cons, hts, List.intercalate_cons_cons_left, List.cons_append] at hitems ⊢
      rw [foldl_push_firstItem hne, hitems]
      rfl
  | @object room members _ ih =>
    intro outer
    have hopen : push (.value outer) .beginObject = .firstMember outer := rfl
    rw [Value.tokens_object, List.foldl_cons, hopen]
    cases members with
    | nil => rfl
    | cons m ms =>
      have hmembers := foldl_push_members ih [] outer
      have hname : Value.memberTokens m = .string (some m.1) :: .colon :: m.2.tokens := rfl
      rw [List.map_cons, hname, List.intercalate_cons_cons_left, List.cons_append,
        List.foldl_cons] at hmembers ⊢
      exact hmembers

end Stage

/-! ## Reading the text of a value -/

namespace Value

/-- The outline of a text that is cut into the tokens of a value is that of the value, with nothing
behind it. -/
theorem outline_of_lexes {room : ℕ} {v : Value} (h : v.Readable room) {s : String}
    (hs : Lexer.Lexes s.toList v.tokens) : Json.outline s = (v.outline, false) := by
  rw [Json.outline, tokens_eq_of_lexes hs, Stage.takes h []]
  rfl

theorem readText_of_lexes {α : Type} (reader : Outline → Except Error α) {room : ℕ} {v : Value}
    (h : v.Readable room) {s : String} (hs : Lexer.Lexes s.toList v.tokens) :
    readText reader s = reader v.outline := by
  simp only [readText, outline_of_lexes h hs]
  cases reader v.outline <;> rfl

theorem readText_compact {α : Type} (reader : Outline → Except Error α) {room : ℕ} {v : Value}
    (h : v.Readable room) : readText reader v.compact = reader v.outline :=
  readText_of_lexes reader h (lexes_compact h)

theorem values_outlineItems {room : ℕ} {vs : List Value}
    (h : ∀ v ∈ vs, v.outline.value room = .ok v) : (outlineItems vs).values room = .ok vs := by
  induction vs with
  | nil => rfl
  | cons v vs ih =>
    rw [outlineItems, Items.values, h v (by simp), ih fun w hw => h w (by simp [hw])]
    rfl

theorem values_outlineMembers {room : ℕ} {ms : List (String × Value)}
    (h : ∀ m ∈ ms, m.2.outline.value room = .ok m.2) :
    (outlineMembers ms).values room = .ok ms := by
  induction ms with
  | nil => rfl
  | cons m ms ih =>
    rw [outlineMembers, Members.values, h m (by simp), ih fun n hn => h n (by simp [hn])]
    rfl

/-- A reader with enough room finds the value. -/
theorem value_outline {room : ℕ} {v : Value} (h : v.Readable room) :
    v.outline.value room = .ok v := by
  induction h with
  | null => rfl
  | bool b => rfl
  | number _ hrange => simp [outline, Outline.value, hrange]
  | string s => rfl
  | @array room items _ ih =>
    rw [outline, Outline.value, values_outlineItems ih]
    rfl
  | @object room members _ ih =>
    rw [outline, Outline.value, values_outlineMembers ih]
    rfl

/-- A value is read back from every text that is cut into its tokens. -/
theorem ofText_of_lexes {v : Value} (h : v.Readable maxDepth) {s : String}
    (hs : Lexer.Lexes s.toList v.tokens) : ofText s = .ok v := by
  rw [ofText, readText_of_lexes _ h hs, value_outline h]

theorem ofText_compact {v : Value} (h : v.Readable maxDepth) : ofText v.compact = .ok v :=
  ofText_of_lexes h (lexes_compact h)

end Value

end CaptureFilter.Json
