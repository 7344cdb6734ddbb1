import CaptureFilter.Proofs.AddressText
import CaptureFilter.Proofs.Edits
import CaptureFilter.Proofs.ShellLine
import CaptureFilter.Proofs.Words
import Mathlib

/-!
# The characters of a filter

Callers give texts of their own as addresses, ports and group operators. Nothing of them comes into
a filter but address literals and the decimal numbers of ports, so a filter is written in letters,
digits and six marks, whatever calls were made and whether they failed.

Results:
* `Primitive.mem_words`: the words of a primitive are not empty and hold word characters only.
* `Draft.performAll_wellWritten`: the invariant of every draft that calls reach.
* `Draft.performAll_alphabet`: what follows for the filter of such a draft.
-/

namespace CaptureFilter

/-! ## Characters -/

/-- An ASCII letter or digit, or a mark that addresses and port ranges are written with. -/
def isWordChar (c : Char) : Bool :=
  c.isAlphanum || c == '.' || c == ':' || c == '-'

/-- A character of a filter: one of a word, the space, or a parenthesis. -/
def isFilterChar (c : Char) : Bool :=
  isWordChar c || c == ' ' || c == '(' || c == ')'

theorem isFilterChar_of_isWordChar {c : Char} (h : isWordChar c = true) :
    isFilterChar c = true := by
  simp [isFilterChar, h]

theorem isAlphanum_of_isDigit {c : Char} (h : c.isDigit = true) : c.isAlphanum = true := by
  simp [Char.isAlphanum, h]

theorem isAlphanum_iff {c : Char} :
    c.isAlphanum = true ↔
      (0x41 ≤ c.toNat ∧ c.toNat ≤ 0x5A ∨ 0x61 ≤ c.toNat ∧ c.toNat ≤ 0x7A) ∨
        0x30 ≤ c.toNat ∧ c.toNat ≤ 0x39 := by
  simp only [Char.isAlphanum, Char.isAlpha, Char.isUpper, Char.isLower, Char.isDigit,
    Bool.or_eq_true, Bool.and_eq_true, decide_eq_true_eq, UInt32.le_iff_toNat_le, ge_iff_le]
  rfl

/-- The characters of a filter are printable ASCII characters. -/
theorem toNat_of_isFilterChar {c : Char} (h : isFilterChar c = true) :
    0x20 ≤ c.toNat ∧ c.toNat ≤ 0x7E := by
  simp only [isFilterChar, isWordChar, Bool.or_eq_true, beq_iff_eq] at h
  rcases h with (((((h | rfl) | rfl) | rfl) | rfl) | rfl) | rfl
  · have := isAlphanum_iff.mp h
    omega
  all_goals decide

/-- Of the characters that are not literal to a shell, a filter holds spaces and parentheses. -/
theorem eq_of_mem_specials_of_isFilterChar {c : Char} (hs : c ∈ Shell.specials)
    (h : isFilterChar c = true) : c = ' ' ∨ c = '(' ∨ c = ')' := by
  have hspecials : Shell.specials.all
      (fun c => !isFilterChar c || c == ' ' || c == '(' || c == ')') = true := by decide
  have := List.all_eq_true.mp hspecials c hs
  simpa [h, or_assoc] using this

theorem isBlank_of_isWordChar {c : Char} (h : isWordChar c = true) : Text.isBlank c = false := by
  simp only [isWordChar, Bool.or_eq_true, beq_iff_eq] at h
  rcases h with ((h | rfl) | rfl) | rfl
  · have := isAlphanum_iff.mp h
    simp [Text.isBlank]
    omega
  all_goals decide

theorem isAlphanum_of_isHexDigit {c : Char} (h : Address.isHexDigit c = true) :
    c.isAlphanum = true := by
  unfold Address.isHexDigit Text.hexDigit? at h
  split_ifs at h with hdigit hlower hupper
  · exact isAlphanum_of_isDigit hdigit
  · have hcodes : 0x61 ≤ c.toNat ∧ c.toNat ≤ 0x66 := by
      simpa [Char.le_def, UInt32.le_iff_toNat_le] using hlower
    exact isAlphanum_iff.mpr (by omega)
  · have hcodes : 0x41 ≤ c.toNat ∧ c.toNat ≤ 0x46 := by
      simpa [Char.le_def, UInt32.le_iff_toNat_le] using hupper
    exact isAlphanum_iff.mpr (by omega)
  · exact absurd h (by simp)

theorem isWordChar_of_isAddressChar {c : Char} (h : Address.isAddressChar c = true) :
    isWordChar c = true := by
  simp only [Address.isAddressChar, Bool.or_eq_true, beq_iff_eq] at h
  rcases h with (h | rfl) | rfl
  · simp [isWordChar, isAlphanum_of_isHexDigit h]
  all_goals decide

/-! ## Words of primitives -/

theorem Port.isWordChar_text (p : Port) : ∀ c ∈ p.text.toList, isWordChar c = true := by
  intro c hc
  simp [isWordChar, isAlphanum_of_isDigit (Text.isDigit_of_mem_toString hc)]

theorem Direction.isWordChar_keyword (d : Direction) :
    ∀ c ∈ d.keyword.toList, isWordChar c = true :=
  List.all_eq_true.mp (by cases d <;> decide)

theorem Protocol.isWordChar_keyword (p : Protocol) :
    ∀ c ∈ p.keyword.toList, isWordChar c = true :=
  List.all_eq_true.mp (by cases p <;> decide)

theorem Connective.isWordChar_keyword (k : Connective) :
    ∀ c ∈ k.keyword.toList, isWordChar c = true :=
  List.all_eq_true.mp (by cases k <;> decide)

namespace Primitive

theorem isWordChar_parts (p : Primitive) :
    ∀ w ∈ p.parts, ∀ c ∈ w.toList, isWordChar c = true := by
  cases p with
  | host a d =>
    have haddress : ∀ c ∈ a.text.toList, isWordChar c = true := fun c hc =>
      isWordChar_of_isAddressChar (Address.isLiteral_chars a.valid c hc)
    simp only [parts, List.forall_mem_cons, List.not_mem_nil, false_imp_iff, implies_true, and_true]
    exact ⟨d.isWordChar_keyword, List.all_eq_true.mp (by decide), haddress⟩
  | port p d t =>
    simp only [parts, List.forall_mem_cons, List.not_mem_nil, false_imp_iff, implies_true, and_true]
    exact ⟨t.isWordChar_keyword, d.isWordChar_keyword, List.all_eq_true.mp (by decide),
      p.isWordChar_text⟩
  | portRange p q d t =>
    have hrange : ∀ c ∈ (p.text ++ "-" ++ q.text).toList, isWordChar c = true := by
      intro c hc
      simp only [String.toList_append, List.mem_append] at hc
      rcases hc with (hc | hc) | hc
      · exact p.isWordChar_text c hc
      · obtain rfl : c = '-' := by simpa using hc
        decide
      · exact q.isWordChar_text c hc
    simp only [parts, List.forall_mem_cons, List.not_mem_nil, false_imp_iff, implies_true, and_true]
    exact ⟨t.isWordChar_keyword, d.isWordChar_keyword, List.all_eq_true.mp (by decide), hrange⟩

/-- The words of a primitive are not empty and hold word characters only. -/
theorem mem_words {p : Primitive} {w : String} (h : w ∈ p.words) :
    w ≠ "" ∧ ∀ c ∈ w.toList, isWordChar c = true := by
  obtain ⟨hmem, hne⟩ := List.mem_filter.mp h
  exact ⟨by simpa using hne, p.isWordChar_parts w hmem⟩

/-- The words that a primitive may start with. -/
def openings : List String := ["host", "port", "portrange", "src", "dst", "tcp", "udp"]

theorem words_cons (p : Primitive) : ∃ w ws, p.words = w :: ws ∧ w ∈ openings := by
  cases p with
  | host a d => cases d <;> exact ⟨_, _, rfl, by decide⟩
  | port p d t => cases d <;> cases t <;> exact ⟨_, _, rfl, by decide⟩
  | portRange p q d t => cases d <;> cases t <;> exact ⟨_, _, rfl, by decide⟩

theorem text_cons (p : Primitive) : ∃ c cs, p.text.toList = c :: cs ∧ c.isAlpha = true := by
  obtain ⟨w, ws, hwords, hw⟩ := p.words_cons
  have hletter : ∀ v ∈ openings, ∃ c cs, v.toList = c :: cs ∧ c.isAlpha = true := by
    simp [openings]
  obtain ⟨c, cs, hcs, hc⟩ := hletter w hw
  rw [text, hwords, String.toList_intercalate, List.map_cons, hcs]
  cases ws with
  | nil => exact ⟨c, cs, by simp, hc⟩
  | cons v ws => exact ⟨c, _, by rw [List.map_cons, List.intercalate_cons_cons]; rfl, hc⟩

theorem isFilterChar_text (p : Primitive) : ∀ c ∈ p.text.toList, isFilterChar c = true := by
  intro c hc
  rw [text, String.toList_intercalate] at hc
  rcases Text.mem_intercalate hc with rfl | ⟨w, hw, hc⟩
  · decide
  · obtain ⟨v, hv, rfl⟩ := List.mem_map.mp hw
    exact isFilterChar_of_isWordChar ((mem_words hv).2 c hc)

end Primitive

/-! ## Texts of a draft -/

/-- A text in the characters of a filter whose first character that is no blank, if there is one, is
a letter or opens a group. -/
structure WellWritten (s : String) : Prop where
  chars : ∀ c ∈ s.toList, isFilterChar c = true
  first : ∀ c, s.toList.find? (!Text.isBlank ·) = some c → c.isAlpha = true ∨ c = '('

namespace WellWritten

theorem empty : WellWritten "" :=
  ⟨by simp, by simp⟩

theorem append {s t : String} (hs : WellWritten s) (ht : WellWritten t) : WellWritten (s ++ t) := by
  constructor
  · intro c hc
    rw [String.toList_append] at hc
    rcases List.mem_append.mp hc with hc | hc
    · exact hs.chars c hc
    · exact ht.chars c hc
  · intro c hc
    rw [String.toList_append, List.find?_append] at hc
    rcases Option.or_eq_some_iff.mp hc with hc | ⟨-, hc⟩
    · exact hs.first c hc
    · exact ht.first c hc

theorem join {ss : List String} (h : ∀ s ∈ ss, WellWritten s) : WellWritten (String.join ss) := by
  induction ss with
  | nil => exact empty
  | cons s ss ih =>
    rw [String.join_cons]
    exact (h s (by simp)).append (ih fun t ht => h t (by simp [ht]))

theorem primitive (p : Primitive) : WellWritten p.text := by
  refine ⟨p.isFilterChar_text, fun c hc => ?_⟩
  obtain ⟨d, ds, htext, hd⟩ := p.text_cons
  have hblank : Text.isBlank d = false :=
    isBlank_of_isWordChar (by simp [isWordChar, Char.isAlphanum, hd])
  rw [htext, List.find?_cons_of_pos (by simpa using hblank)] at hc
  obtain rfl := Option.some.inj hc
  exact .inl hd

theorem token (k : Connective) : WellWritten k.token := by
  constructor
  · exact List.all_eq_true.mp (by cases k <;> decide)
  · cases k <;> simp [Connective.token, Connective.keyword, Text.isBlank]

theorem enclosed {s : String} (h : WellWritten s) : WellWritten ("(" ++ s ++ ")") := by
  constructor
  · intro c hc
    simp only [String.toList_append, List.mem_append] at hc
    rcases hc with (hc | hc) | hc
    · obtain rfl : c = '(' := by simpa using hc
      decide
    · exact h.chars c hc
    · obtain rfl : c = ')' := by simpa using hc
      decide
  · intro c hc
    right
    simpa [Text.isBlank] using hc.symm

end WellWritten

namespace Draft

/-- Every text of a draft is well written. -/
structure WellWritten (d : Draft) : Prop where
  fragment : CaptureFilter.WellWritten d.fragment
  stack : ∀ e ∈ d.stack, CaptureFilter.WellWritten e

theorem WellWritten.edit {d : Draft} (h : d.WellWritten) (e : Edit) : (d.edit e).WellWritten := by
  cases e with
  | reset => exact ⟨.empty, by simp [Draft.edit, reset, empty]⟩
  | discard => exact ⟨.empty, h.stack⟩
  | add p => exact ⟨h.fragment.append (.primitive p), h.stack⟩
  | join k => exact ⟨h.fragment.append (.token k), h.stack⟩
  | commit =>
    by_cases hf : d.fragment = ""
    · rw [Draft.edit, commit_of_fragment_eq hf]
      exact ⟨h.fragment, h.stack⟩
    · rw [Draft.edit, commit_of_fragment_ne hf]
      have hentry := List.forall_mem_singleton.mpr h.fragment
      exact ⟨h.fragment, List.forall_mem_append.mpr ⟨h.stack, hentry⟩⟩
  | group k =>
    by_cases hf : d.fragment = ""
    · rw [Draft.edit, group_of_fragment_eq hf]
      exact ⟨h.fragment, h.stack⟩
    · rw [Draft.edit, group_of_fragment_ne hf]
      refine ⟨.empty, List.forall_mem_append.mpr ⟨h.stack, List.forall_mem_singleton.mpr ?_⟩⟩
      have hassoc : k.elim "" Connective.token ++ "(" ++ d.fragment ++ ")" =
          k.elim "" Connective.token ++ ("(" ++ d.fragment ++ ")") := by
        simp only [String.append_assoc]
      rw [hassoc]
      cases k with
      | none => exact CaptureFilter.WellWritten.empty.append h.fragment.enclosed
      | some k => exact (CaptureFilter.WellWritten.token k).append h.fragment.enclosed

/-- The texts of every draft that calls reach are well written, whether or not the calls failed. -/
theorem performAll_wellWritten (calls : List Call) : (empty.performAll calls).WellWritten :=
  performAll_induction ⟨.empty, by simp [empty]⟩ (fun _ e h => h.edit e) calls

/-! ## The filter of a draft -/

theorem isFilterChar_render {d : Draft} (h : d.WellWritten) :
    ∀ c ∈ d.render.toList, isFilterChar c = true := by
  intro c hc
  rcases Text.mem_renderAll hc with rfl | ⟨e, he, hc⟩
  · decide
  · exact (h.stack e he).chars c hc

theorem render_cons {d : Draft} (h : d.WellWritten) (hne : d.render ≠ "") :
    ∃ c cs, d.render.toList = c :: cs ∧ (c.isAlpha = true ∨ c = '(') := by
  have hne' : d.render.toList ≠ [] := fun hnil => hne (String.toList_eq_nil_iff.mp hnil)
  obtain ⟨c, cs, hcs⟩ := List.exists_cons_of_ne_nil hne'
  have hhead := Text.head?_renderAll d.stack
  rw [show Draft.renderAll d.stack = d.render from rfl, hcs, List.head?_cons] at hhead
  exact ⟨c, cs, hcs, (CaptureFilter.WellWritten.join h.stack).first c hhead.symm⟩

end Draft

/-- A word without an apostrophe is quoted as it stands. -/
theorem Shell.quote_of_not_mem {s : String} (h : '\'' ∉ s.toList) : quote s = "'" ++ s ++ "'" := by
  have hchars : s.toList.flatMap quoteChar = s.toList := by
    have hchar : ∀ c ∈ s.toList, quoteChar c = [c] := by
      intro c hc
      have hne : c ≠ '\'' := fun heq => h (heq ▸ hc)
      exact if_neg hne
    rw [List.flatMap_congr hchar, List.flatMap_singleton']
  rw [quote, hchars, ← String.toList_inj]
  simp

/-- Whatever calls were made, with whatever texts as addresses, ports and group operators: the
fragment and the stack are written in the characters of a filter. So the filter holds nothing that
a shell would act on but parentheses, is quoted as it stands, and, unless it is empty, starts with
a letter or a parenthesis and is not taken for an option. -/
theorem Draft.performAll_alphabet (calls : List Call) :
    let d := empty.performAll calls
    (∀ c ∈ d.fragment.toList, isFilterChar c = true) ∧
    (∀ e ∈ d.stack, ∀ c ∈ e.toList, isFilterChar c = true) ∧
    (∀ c ∈ d.render.toList, isFilterChar c = true ∧ 0x20 ≤ c.toNat ∧ c.toNat ≤ 0x7E ∧
      (c ∈ Shell.specials → c = ' ' ∨ c = '(' ∨ c = ')')) ∧
    Shell.quote d.render = "'" ++ d.render ++ "'" ∧
    (d.render ≠ "" →
      ∃ c cs, d.render.toList = c :: cs ∧ (c.isAlpha = true ∨ c = '(') ∧ c ≠ '-') := by
  intro d
  have h : d.WellWritten := performAll_wellWritten calls
  refine ⟨h.fragment.chars, fun e he => (h.stack e he).chars, fun c hc => ?_, ?_, fun hne => ?_⟩
  · have hc' := isFilterChar_render h c hc
    exact ⟨hc', (toNat_of_isFilterChar hc').1, (toNat_of_isFilterChar hc').2,
      fun hs => eq_of_mem_specials_of_isFilterChar hs hc'⟩
  · apply Shell.quote_of_not_mem
    intro hquote
    exact absurd (isFilterChar_render h _ hquote) (by decide)
  · obtain ⟨c, cs, hcs, hc⟩ := render_cons h hne
    refine ⟨c, cs, hcs, hc, ?_⟩
    rintro rfl
    exact absurd hc (by decide)

end CaptureFilter
