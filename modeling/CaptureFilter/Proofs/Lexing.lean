import CaptureFilter.Proofs.Alphabet

/-!
# Reading a filter back

A filter text is read by cutting it at its blanks and at its parentheses, each of which is a word of
its own. This module keeps, beside a draft, the primitives and connectives that calls have added,
and compares the words that are read from the filter with the words of what was added.

They are the same if and only if no entry has two primitives next to each other: a connective brings
its own spaces, a primitive does not, so that the last word of a primitive and the first word of the
one behind it become one word. Committing between the two does not part them, since the fragment
goes on.

Results:
* `Item.length_lex_spell`: an entry loses one word for each place where two primitives meet.
* `Record.editAll_spells`: the texts of a draft are those of the items that were recorded.
* `lex_render_iff`: when the words of a filter are those of its items.
-/

namespace CaptureFilter

/-! ## Items and their words -/

/-- A part of a stack entry. -/
inductive Item where
  | primitive (primitive : Primitive)
  | connective (connective : Connective)
  | opening
  | closing
deriving DecidableEq

namespace Item

/-- The words that an item stands for. -/
def words : Item → List String
  | primitive p => p.words
  | connective k => [k.keyword]
  | opening => ["("]
  | closing => [")"]

/-- The text that a draft writes for an item. -/
def text : Item → String
  | primitive p => p.text
  | connective k => k.token
  | opening => "("
  | closing => ")"

/-- Whether an item is a primitive. -/
def isPrimitive : Item → Bool
  | primitive _ => true
  | connective _ | opening | closing => false

/-- The words that items stand for, in order. -/
def flatten (items : List Item) : List String :=
  items.flatMap words

/-- The text that a draft writes for items. -/
def spell (items : List Item) : String :=
  String.join (items.map text)

/-- No two primitives are next to each other. -/
def Separated (items : List Item) : Prop :=
  items.IsChain fun a b => ¬(a.isPrimitive = true ∧ b.isPrimitive = true)

/-- Whether an item is a primitive with another one right behind it. -/
def meets (a : Item) (items : List Item) : Bool :=
  a.isPrimitive && items.head?.any isPrimitive

/-- How many primitives have another one right behind them. -/
def meetings : List Item → ℕ
  | [] => 0
  | a :: items => (if meets a items then 1 else 0) + meetings items

theorem meetings_eq_zero_iff (items : List Item) : meetings items = 0 ↔ Separated items := by
  induction items with
  | nil => simp [meetings, Separated]
  | cons a items ih =>
    unfold Separated at ih ⊢
    rw [meetings, List.isChain_cons, ← ih, meets]
    cases items.head? <;> simp

end Item

/-! ## The lexer -/

/-- A character that is a word of its own in a filter. -/
def isParenthesis (c : Char) : Bool :=
  c == '(' || c == ')'

/-- The words of a filter text: blanks separate them, and each parenthesis is one. -/
def lex (text : String) : List String :=
  (Text.tokens isParenthesis text.toList).map String.ofList

theorem isParenthesis_of_isWordChar {c : Char} (h : isWordChar c = true) :
    isParenthesis c = false := by
  by_contra hc
  simp only [isParenthesis, Bool.not_eq_false, Bool.or_eq_true, beq_iff_eq] at hc
  rcases hc with rfl | rfl <;> exact absurd h (by decide)

theorem plain_of_isWordChar {c : Char} (h : isWordChar c = true) :
    Text.isBlank c = false ∧ isParenthesis c = false :=
  ⟨isBlank_of_isWordChar h, isParenthesis_of_isWordChar h⟩

open Text (Cut)

/-- A padded connective is a word of its own wherever it stands. -/
theorem pushAll_token (k : Connective) (s : Cut) :
    Cut.pushAll isParenthesis k.token.toList s = ⟨[], k.keyword.toList :: s.words⟩ := by
  have hspace : Text.isBlank ' ' = true := by decide
  have hkeyword : k.keyword.toList ≠ [] := by cases k <;> decide
  have htoken : k.token.toList = [' '] ++ (k.keyword.toList ++ [' ']) := by
    simp [Connective.token]
  rw [htoken, Cut.pushAll_append, Cut.pushAll_append]
  simp only [Cut.pushAll_cons, Cut.pushAll_nil, Cut.pushWith, hspace, if_true]
  rw [Cut.pushAll_word fun c hc => plain_of_isWordChar (k.isWordChar_keyword c hc)]
  simp [Cut.words, hkeyword]

theorem pushAll_parenthesis {c : Char} (h : isParenthesis c = true) (s : Cut) :
    Cut.pushAll isParenthesis [c] s = ⟨[], [c] :: s.words⟩ := by
  have hblank : Text.isBlank c = false := by
    simp only [isParenthesis, Bool.or_eq_true, beq_iff_eq] at h
    rcases h with rfl | rfl <;> decide
  simp [Cut.pushWith, hblank, h]

/-- Words with single spaces between them are read as those words, but for the last one, which runs
on into what follows. -/
theorem words_pushAll_intercalate {ws : List (List Char)} (hne : ws ≠ [])
    (h : ∀ w ∈ ws, w ≠ [] ∧ ∀ c ∈ w, isWordChar c = true) (s : Cut) :
    (Cut.pushAll isParenthesis ([' '].intercalate ws) s).words =
      ws.dropLast ++ (ws.getLast hne ++ s.word) :: s.later := by
  induction ws with
  | nil => exact absurd rfl hne
  | cons w ws ih =>
    obtain ⟨hw, hchars⟩ := h w (by simp)
    have hplain : ∀ c ∈ w, Text.isBlank c = false ∧ isParenthesis c = false :=
      fun c hc => plain_of_isWordChar (hchars c hc)
    cases ws with
    | nil =>
      rw [List.intercalate_singleton, Cut.pushAll_word hplain]
      simp [Cut.words, hw]
    | cons v ws =>
      have hspace : Text.isBlank ' ' = true := by decide
      rw [List.intercalate_cons_cons, List.append_assoc, Cut.pushAll_append, Cut.pushAll_append,
        Cut.pushAll_word hplain]
      simp only [Cut.pushAll_cons, Cut.pushAll_nil, Cut.pushWith, hspace, if_true, List.append_nil]
      rw [ih (by simp) fun u hu => h u (by simp [hu])]
      simp [Cut.words, hw]

/-- A primitive is read as its words, but for the last one, which runs on into what follows. -/
theorem words_pushAll_primitive (p : Primitive) (s : Cut) :
    ∃ ws w, p.words.map String.toList = ws ++ [w] ∧
      (Cut.pushAll isParenthesis p.text.toList s).words = ws ++ (w ++ s.word) :: s.later := by
  obtain ⟨v, vs, hwords, -⟩ := p.words_cons
  have hne : p.words.map String.toList ≠ [] := by simp [hwords]
  have hchars : ∀ w ∈ p.words.map String.toList, w ≠ [] ∧ ∀ c ∈ w, isWordChar c = true := by
    intro w hw
    obtain ⟨u, hu, rfl⟩ := List.mem_map.mp hw
    obtain ⟨hu, hchars⟩ := Primitive.mem_words hu
    exact ⟨fun hnil => hu (String.toList_eq_nil_iff.mp hnil), hchars⟩
  refine ⟨_, _, (List.dropLast_append_getLast hne).symm, ?_⟩
  rw [Primitive.text, String.toList_intercalate]
  exact words_pushAll_intercalate hne hchars s

/-- What follows a primitive runs on into its last word, so the first word is never closed. -/
theorem word_pushAll_primitive (p : Primitive) (s : Cut) :
    (Cut.pushAll isParenthesis p.text.toList s).word ≠ [] := by
  obtain ⟨c, cs, htext, hc⟩ := p.text_cons
  have hplain := plain_of_isWordChar (c := c) (by simp [isWordChar, Char.isAlphanum, hc])
  rw [htext, Cut.pushAll_cons]
  simp [Cut.pushWith, hplain.1, hplain.2]

/-! ## Reading the text of items -/

namespace Item

/-- The text of some items, cut up to its first character. -/
def cut (items : List Item) : Cut :=
  Cut.pushAll isParenthesis (spell items).toList ⟨[], []⟩

theorem lex_spell (items : List Item) : lex (spell items) = (cut items).words.map String.ofList :=
  rfl

theorem cut_cons (a : Item) (items : List Item) :
    cut (a :: items) = Cut.pushAll isParenthesis a.text.toList (cut items) := by
  unfold cut spell
  rw [List.map_cons, String.join_cons, String.toList_append, Cut.pushAll_append]

theorem cut_cons_of_not_isPrimitive {a : Item} (ha : a.isPrimitive = false) (items : List Item) :
    cut (a :: items) = ⟨[], a.words.map String.toList ++ (cut items).words⟩ := by
  rw [cut_cons]
  cases a with
  | primitive p => simp [isPrimitive] at ha
  | connective k => exact pushAll_token k (cut items)
  | opening => exact pushAll_parenthesis (c := '(') (by decide) (cut items)
  | closing => exact pushAll_parenthesis (c := ')') (by decide) (cut items)

theorem eq_primitive_of_isPrimitive {a : Item} (ha : a.isPrimitive = true) :
    ∃ p, a = primitive p := by
  cases a with
  | primitive p => exact ⟨p, rfl⟩
  | connective _ | opening | closing => simp [isPrimitive] at ha

/-- The first word of the text of items is open exactly when a primitive stands first. -/
theorem word_cut_eq_nil_iff (items : List Item) :
    (cut items).word = [] ↔ items.head?.any isPrimitive = false := by
  cases items with
  | nil => simp [cut, spell]
  | cons a items =>
    rw [List.head?_cons, Option.any_some]
    cases ha : a.isPrimitive with
    | true =>
      obtain ⟨p, rfl⟩ := eq_primitive_of_isPrimitive ha
      simp [cut_cons, text, word_pushAll_primitive]
    | false => simp [cut_cons_of_not_isPrimitive ha]

/-- Where an item meets no other primitive, its words come in front of those of the rest. -/
theorem words_cut_cons {a : Item} {items : List Item} (h : meets a items = false) :
    (cut (a :: items)).words = a.words.map String.toList ++ (cut items).words := by
  cases ha : a.isPrimitive with
  | true =>
    obtain ⟨p, rfl⟩ := eq_primitive_of_isPrimitive ha
    have hclosed : (cut items).word = [] := by
      rw [word_cut_eq_nil_iff]
      simpa [meets, ha] using h
    have hlater : (cut items).words = (cut items).later := by
      simp [Cut.words, hclosed]
    obtain ⟨ws, w, hwords, hcut⟩ := words_pushAll_primitive p (cut items)
    rw [cut_cons, text, words, hcut, hwords, hclosed, hlater, List.append_nil, List.append_assoc,
      List.singleton_append]
  | false =>
    rw [cut_cons_of_not_isPrimitive ha]
    rfl

/-- Where two primitives meet, the last word of the first and the first of the second are one. -/
theorem length_words_cut_cons {a : Item} {items : List Item} (h : meets a items = true) :
    (cut (a :: items)).words.length + 1 = a.words.length + (cut items).words.length := by
  simp only [meets, Bool.and_eq_true] at h
  obtain ⟨p, rfl⟩ := eq_primitive_of_isPrimitive h.1
  have hopen : (cut items).word ≠ [] := by
    rw [ne_eq, word_cut_eq_nil_iff, h.2]
    decide
  have hlater : (cut items).words.length = (cut items).later.length + 1 := by
    simp [Cut.words, hopen]
  obtain ⟨ws, w, hwords, hcut⟩ := words_pushAll_primitive p (cut items)
  have hlen : p.words.length = ws.length + 1 := by
    simpa using congrArg List.length hwords
  rw [cut_cons, text, words, hcut, hlater, hlen, List.length_append, List.length_cons]
  omega

/-- The text of some items is read as one word less than they have for each place where two
primitives meet. -/
theorem length_lex_spell (items : List Item) :
    (lex (spell items)).length + meetings items = (flatten items).length := by
  rw [lex_spell, List.length_map]
  induction items with
  | nil => rfl
  | cons a items ih =>
    have hflatten : (flatten (a :: items)).length = a.words.length + (flatten items).length := by
      simp [flatten]
    rw [hflatten, ← ih, meetings]
    cases hmeets : meets a items with
    | true =>
      have := length_words_cut_cons hmeets
      simp only [if_true]
      omega
    | false =>
      rw [words_cut_cons hmeets, List.length_append, List.length_map]
      simp only [Bool.false_eq_true, if_false]
      omega

/-- Where no two primitives meet, the text of some items is read as their words. -/
theorem lex_spell_of_meetings {items : List Item} (h : meetings items = 0) :
    lex (spell items) = flatten items := by
  have hcut : (cut items).words = (flatten items).map String.toList := by
    induction items with
    | nil => rfl
    | cons a items ih =>
      rw [meetings, Nat.add_eq_zero_iff] at h
      have hmeets : meets a items = false := by
        simpa using h.1
      rw [words_cut_cons hmeets, ih h.2, ← List.map_append]
      rfl
  rw [lex_spell, hcut]
  simp [Function.comp_def]

end Item

/-! ## Items of a draft -/

namespace Item

/-- The items of a group: what was enclosed, with a connective in front if one was given. -/
def enclosed (k : Option Connective) (items : List Item) : List Item :=
  k.toList.map connective ++ [opening] ++ items ++ [closing]

theorem text_ne_empty (a : Item) : a.text ≠ "" := by
  cases a with
  | primitive p =>
    obtain ⟨c, cs, htext, -⟩ := p.text_cons
    intro h
    rw [text] at h
    simp [h] at htext
  | connective k => cases k <;> decide
  | opening => decide
  | closing => decide

theorem spell_append (items items' : List Item) :
    spell (items ++ items') = spell items ++ spell items' := by
  rw [spell, List.map_append, String.join_append, spell, spell]

theorem spell_eq_empty_iff (items : List Item) : spell items = "" ↔ items = [] := by
  cases items with
  | nil => simp [spell]
  | cons a items =>
    have := a.text_ne_empty
    simp [spell, this]

theorem spell_enclosed (k : Option Connective) (items : List Item) :
    spell (enclosed k items) = k.elim "" Connective.token ++ "(" ++ spell items ++ ")" := by
  simp only [enclosed, spell_append]
  cases k <;> simp [spell, text]

end Item

/-- What calls have added to a draft: the primitives and connectives since the fragment was opened,
and those of each stack entry. -/
structure Record where
  items : List Item
  entries : List (List Item)

namespace Record

/-- Nothing has been added. -/
def empty : Record := ⟨[], []⟩

/-- Records one edit. -/
def edit (r : Record) : Edit → Record
  | .reset => empty
  | .discard => { r with items := [] }
  | .add p => { r with items := r.items ++ [.primitive p] }
  | .join k => { r with items := r.items ++ [.connective k] }
  | .commit => if r.items = [] then r else { r with entries := r.entries ++ [r.items] }
  | .group k => if r.items = [] then r else ⟨[], r.entries ++ [Item.enclosed k r.items]⟩

/-- The record of a row of calls from the empty draft. -/
def ofCalls (calls : List Call) : Record :=
  (calls.flatMap Call.edits).foldl edit empty

/-- The texts of a draft are those of recorded items. -/
structure Spells (r : Record) (d : Draft) : Prop where
  fragment : d.fragment = Item.spell r.items
  stack : d.stack = r.entries.map Item.spell

theorem Spells.fragment_eq_empty_iff {r : Record} {d : Draft} (h : r.Spells d) :
    d.fragment = "" ↔ r.items = [] := by
  rw [h.fragment, Item.spell_eq_empty_iff]

theorem Spells.edit {r : Record} {d : Draft} (h : r.Spells d) (e : Edit) :
    (r.edit e).Spells (d.edit e) := by
  cases e with
  | reset => exact ⟨rfl, rfl⟩
  | discard => exact ⟨rfl, h.stack⟩
  | add p =>
    refine ⟨?_, h.stack⟩
    rw [Draft.edit, Draft.fragment_add, h.fragment, Record.edit, Item.spell_append]
    simp [Item.spell, Item.text]
  | join k =>
    refine ⟨?_, h.stack⟩
    rw [Draft.edit, Draft.fragment_join, h.fragment, Record.edit, Item.spell_append]
    simp [Item.spell, Item.text]
  | commit =>
    by_cases hf : d.fragment = ""
    · rw [Draft.edit, Draft.commit_of_fragment_eq hf, Record.edit,
        if_pos (h.fragment_eq_empty_iff.mp hf)]
      exact ⟨h.fragment, h.stack⟩
    · rw [Draft.edit, Draft.commit_of_fragment_ne hf, Record.edit,
        if_neg (mt h.fragment_eq_empty_iff.mpr hf)]
      exact ⟨h.fragment, by simp [h.stack, h.fragment]⟩
  | group k =>
    by_cases hf : d.fragment = ""
    · rw [Draft.edit, Draft.group_of_fragment_eq hf, Record.edit,
        if_pos (h.fragment_eq_empty_iff.mp hf)]
      exact ⟨h.fragment, h.stack⟩
    · rw [Draft.edit, Draft.group_of_fragment_ne hf, Record.edit,
        if_neg (mt h.fragment_eq_empty_iff.mpr hf)]
      exact ⟨rfl, by simp [h.stack, h.fragment, Item.spell_enclosed]⟩

theorem editAll_spells {r : Record} {d : Draft} (h : r.Spells d) (es : List Edit) :
    (es.foldl Record.edit r).Spells (d.editAll es) := by
  induction es generalizing r d with
  | nil => exact h
  | cons e es ih => exact ih (h.edit e)

theorem ofCalls_spells (calls : List Call) :
    (ofCalls calls).Spells (Draft.empty.performAll calls) := by
  rw [Draft.performAll_eq_editAll]
  exact editAll_spells ⟨rfl, rfl⟩ _

end Record

/-! ## Reading a filter -/

theorem lex_renderAll (fragments : List String) :
    lex (Draft.renderAll fragments) = fragments.flatMap lex := by
  rw [lex, Text.tokens_renderAll, List.map_flatMap]
  rfl

theorem lex_renderAll_spell (entries : List (List Item)) :
    lex (Draft.renderAll (entries.map Item.spell)) =
      entries.flatMap fun items => lex (Item.spell items) := by
  rw [lex_renderAll, List.flatMap_map]

/-- A filter is read as one word less than was asked for at each place where primitives meet. -/
theorem length_lex_renderAll (entries : List (List Item)) :
    (lex (Draft.renderAll (entries.map Item.spell))).length + (entries.map Item.meetings).sum =
      (entries.flatMap Item.flatten).length := by
  rw [lex_renderAll_spell]
  induction entries with
  | nil => rfl
  | cons items entries ih =>
    have := Item.length_lex_spell items
    simp only [List.flatMap_cons, List.length_append, List.map_cons, List.sum_cons] at ih ⊢
    omega

/-- Each stack entry is the text of the items that were recorded for it. The filter is read as the
words of these items, entry after entry, if and only if no entry has two primitives next to each
other. -/
theorem lex_render_iff (calls : List Call) :
    let d := Draft.empty.performAll calls
    let r := Record.ofCalls calls
    d.stack = r.entries.map Item.spell ∧
    (lex d.render = r.entries.flatMap Item.flatten ↔
      ∀ items ∈ r.entries, Item.Separated items) := by
  intro d r
  have hstack : d.stack = r.entries.map Item.spell := (Record.ofCalls_spells calls).stack
  refine ⟨hstack, ?_⟩
  rw [Draft.render, hstack]
  have hmeetings : (∀ items ∈ r.entries, Item.Separated items) ↔
      (r.entries.map Item.meetings).sum = 0 := by
    simp [List.sum_eq_zero_iff_forall_eq_nat, Item.meetings_eq_zero_iff]
  rw [hmeetings]
  constructor
  · -- each place where primitives meet costs a word
    intro heq
    have hlen := length_lex_renderAll r.entries
    rw [heq] at hlen
    omega
  · intro hsum
    rw [lex_renderAll_spell]
    apply List.flatMap_congr
    intro items hitems
    apply Item.lex_spell_of_meetings
    exact List.sum_eq_zero_iff_forall_eq_nat.mp hsum _ (List.mem_map_of_mem hitems)

end CaptureFilter
