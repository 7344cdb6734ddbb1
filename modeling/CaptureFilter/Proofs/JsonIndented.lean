import CaptureFilter.Proofs.JsonRoundTrip

/-!
# Values over several lines

The text of a value over several lines differs from the one without blanks in what stands between
its tokens: line breaks and spaces, which the machine that cuts the text passes over. So it is cut
into the same tokens, and the value is read back from it, however strings of the value are escaped
and whether or not a line break follows.

Results:
* `Value.lexes_block`: a container over several lines, from its entries.
* `Value.lexes_indented`: the text of a value over several lines is cut into its tokens.
* `Value.ofText_pretty`: a value is read back from that text.
-/

namespace CaptureFilter.Json

namespace Value

open Lexer (Lexes IsGap pushBetween endsNumber lexes_intercalate lexes_stringText)

/-! ## The text of a container -/

theorem indentedItems_eq_map (depth : ℕ) (vs : List Value) :
    indentedItems depth vs = vs.map (indented depth) := by
  induction vs with
  | nil => rfl
  | cons v vs ih => rw [indentedItems, ih, List.map_cons]

theorem indentedMembers_eq_map (depth : ℕ) (ms : List (String × Value)) :
    indentedMembers depth ms = ms.map fun m => stringText m.1 ++ ": " ++ m.2.indented depth := by
  induction ms with
  | nil => rfl
  | cons m ms ih => rw [indentedMembers, ih, List.map_cons]

/-- A line break and the spaces in front of an entry. -/
def margin (depth : ℕ) : List Char := '\n' :: List.replicate (2 * depth) ' '

theorem isGap_margin (depth : ℕ) : IsGap (margin depth) := by
  intro c hc
  rcases List.mem_cons.mp hc with rfl | hc
  · exact .inr rfl
  · exact .inl (List.eq_of_mem_replicate hc)

/-- The characters of a container that has entries: they stand behind margins. -/
theorem toList_block (opening closing : String) (depth : ℕ) {entries : List String}
    (hne : entries ≠ []) :
    (block opening closing depth entries).toList =
      opening.toList ++ (margin (depth + 1) ++
        ((',' :: margin (depth + 1)).intercalate (entries.map String.toList) ++ margin depth) ++
        closing.toList) := by
  obtain ⟨e, es, rfl⟩ := List.exists_cons_of_ne_nil hne
  have hcomma : ("," ++ ("\n" ++ String.ofList (List.replicate (2 * (depth + 1)) ' '))).toList =
      ',' :: margin (depth + 1) := by
    simp [margin]
  simp only [block]
  rw [String.toList_append, String.toList_append, String.toList_append, String.toList_append,
    String.toList_intercalate, hcomma]
  simp [margin]

/-- A container over several lines is cut into the tokens of its entries with commas between them,
and its brackets. -/
theorem lexes_block {opening closing : String} {c d : Char} {t u : Token}
    (hopening : opening.toList = [c]) (hclosing : closing.toList = [d])
    (hc : ∀ done, pushBetween c done = ⟨.between, t :: done⟩)
    (hd : ∀ done, pushBetween d done = ⟨.between, u :: done⟩) (hends : endsNumber d = true)
    (depth : ℕ) {entries : List String} {tss : List (List Token)}
    (h : List.Forall₂ Lexes (entries.map String.toList) tss) :
    Lexes (block opening closing depth entries).toList
      (t :: ([Token.comma].intercalate tss ++ [u])) := by
  cases entries with
  | nil =>
    obtain rfl : tss = [] := by simpa using h
    rw [block, String.toList_append, hopening, hclosing]
    exact .cons hc (.cons hd .nil)
  | cons e es =>
    rw [toList_block opening closing depth (by simp), hopening, hclosing]
    have hentries := lexes_intercalate (isGap_margin (depth + 1)) h
    have hinside := (hentries.append_gap (isGap_margin depth)).gap_append (isGap_margin (depth + 1))
    exact hinside.enclosed hc hd hends

/-- The text of a value over several lines is cut into its tokens. -/
theorem lexes_indented {room : ℕ} {v : Value} (h : v.Readable room) (depth : ℕ) :
    Lexes (v.indented depth).toList v.tokens := by
  induction h generalizing depth with
  | @null room => exact lexes_compact (@Readable.null room)
  | @bool room b => exact lexes_compact (@Readable.bool room b)
  | @number room n hspelled hrange => exact lexes_compact (@Readable.number room n hspelled hrange)
  | @string room s => exact lexes_compact (@Readable.string room s)
  | @array room items _ ih =>
    rw [indented, tokens_array, indentedItems_eq_map]
    refine lexes_block rfl rfl (fun _ => rfl) (fun _ => rfl) (by decide) depth ?_
    rw [List.map_map, List.forall₂_map_left_iff, List.forall₂_map_right_iff, List.forall₂_same]
    exact fun v hv => ih v hv (depth + 1)
  | @object room members _ ih =>
    rw [indented, tokens_object, indentedMembers_eq_map]
    refine lexes_block rfl rfl (fun _ => rfl) (fun _ => rfl) (by decide) depth ?_
    rw [List.map_map, List.forall₂_map_left_iff, List.forall₂_map_right_iff, List.forall₂_same]
    intro m hm
    have hspace : IsGap [' '] := by simp [IsGap]
    have hvalue := (ih m hm (depth + 1)).gap_append hspace
    rw [Function.comp_apply, String.toList_append, String.toList_append, List.append_assoc]
    exact (lexes_stringText m.1).append (by decide) (.cons (fun _ => rfl) hvalue)

/-- A value is read back from its text over several lines, also with a line break behind it. -/
theorem ofText_pretty {v : Value} (h : v.Readable maxDepth) :
    ofText v.pretty = .ok v ∧ ofText (v.pretty ++ "\n") = .ok v := by
  have hlexes : Lexes v.pretty.toList v.tokens := lexes_indented h 0
  refine ⟨ofText_of_lexes h hlexes, ofText_of_lexes h ?_⟩
  rw [String.toList_append]
  exact hlexes.append_gap (by simp [IsGap])

end Value

end CaptureFilter.Json
