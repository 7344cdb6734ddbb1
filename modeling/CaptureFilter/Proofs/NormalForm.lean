import CaptureFilter.Proofs.Parentheses

/-!
# The normal form of a filter

A text may have blanks of any kind, in runs and at its ends. Rendering keeps its words and puts one
space between each two. A text that looks like this already is called spaced here, which is said by
its characters alone and not by what rendering does: no blank at its ends, no blank but the space,
and no two blanks next to each other. Spaced texts are what rendering leaves as it is, and there is
one of them for each row of words; the other laws of rendering follow.

Results:
* `Text.renderAll_singleton_eq_iff`: rendering leaves a text as it is just when it is spaced.
* `Text.eq_renderAll_iff`: the filter of some fragments is the one spaced text that has their words.
* `Draft.render_normalForm`: the laws of rendering, and when the filter of a draft is empty.
-/

namespace CaptureFilter.Text

/-! ## Words and spaced texts -/

/-- The words of a text: the pieces between its blanks that are not empty, in order. -/
def pieces (s : String) : List String :=
  ((s.toList.splitOnP isBlank).filter (· ≠ [])).map String.ofList

theorem words_eq_pieces : words = pieces := by
  funext s
  rw [words, splitWords_eq_splitOnP, pieces]

/-- A text with no blank at its two ends and with no blank in it but single spaces: of two
characters that stand next to each other, one at least is no blank. -/
structure IsSpaced (cs : List Char) : Prop where
  first : ∀ c ∈ cs.head?, isBlank c = false
  last : ∀ c ∈ cs.getLast?, isBlank c = false
  eq_space : ∀ c ∈ cs, isBlank c = true → c = ' '
  single : cs.IsChain fun b c => isBlank b = false ∨ isBlank c = false

theorem isBlank_space : isBlank ' ' = true := by decide

theorem isSpaced_nil : IsSpaced [] :=
  ⟨by simp, by simp, by simp, .nil⟩

theorem isSpaced_word {w : List Char} (h : ∀ c ∈ w, isBlank c = false) : IsSpaced w where
  first c hc := h c (List.mem_of_mem_head? hc)
  last c hc := h c (List.mem_of_mem_getLast? hc)
  eq_space c hc hblank := by simp [h c hc] at hblank
  single := (List.pairwise_of_forall_mem_list fun b hb _ _ => .inl (h b hb)).isChain

theorem IsSpaced.append_space {cs ds : List Char} (hcs : IsSpaced cs) (hds : IsSpaced ds)
    (hc : cs ≠ []) (hd : ds ≠ []) : IsSpaced (cs ++ ' ' :: ds) where
  first := by
    rw [List.head?_append_of_ne_nil _ hc]
    exact hcs.first
  last := by
    rw [List.append_cons, List.getLast?_append_of_ne_nil _ hd]
    exact hds.last
  eq_space c hmem hblank := by
    rcases List.mem_append.mp hmem with hmem | hmem
    · exact hcs.eq_space c hmem hblank
    · rcases List.mem_cons.mp hmem with rfl | hmem
      · rfl
      · exact hds.eq_space c hmem hblank
  single := by
    rw [List.isChain_append, List.isChain_cons]
    exact ⟨hcs.single, ⟨fun d hd' => .inr (hds.first d hd'), hds.single⟩,
      fun c hc' _ _ => .inl (hcs.last c hc')⟩

theorem isSpaced_intercalate {ws : List (List Char)}
    (h : ∀ w ∈ ws, w ≠ [] ∧ ∀ c ∈ w, isBlank c = false) : IsSpaced ([' '].intercalate ws) := by
  induction ws with
  | nil => exact isSpaced_nil
  | cons w ws ih =>
    obtain ⟨hne, hchars⟩ := h w (by simp)
    have hws : ∀ v ∈ ws, v ≠ [] ∧ ∀ c ∈ v, isBlank c = false := fun v hv => h v (by simp [hv])
    cases ws with
    | nil =>
      rw [List.intercalate_singleton]
      exact isSpaced_word hchars
    | cons v ws =>
      -- the words behind the first make a text that is not empty
      have hrest : [' '].intercalate (v :: ws) ≠ [] := by
        cases ws <;> simp [List.intercalate_cons_cons, (hws v (by simp)).1]
      rw [List.intercalate_cons_cons, List.append_assoc, List.singleton_append]
      exact (isSpaced_word hchars).append_space (ih hws) hne hrest

/-! ## A spaced text is made of its words -/

/-- Where two tests agree on the characters of a text, they cut it in the same places. -/
theorem splitOnP_congr {p q : Char → Bool} {cs : List Char} (h : ∀ c ∈ cs, p c = q c) :
    cs.splitOnP p = cs.splitOnP q := by
  induction cs with
  | nil => simp only [List.splitOnP_nil]
  | cons c cs ih =>
    rw [List.splitOnP_cons_eq_if_modifyHead, List.splitOnP_cons_eq_if_modifyHead, h c (by simp),
      ih fun d hd => h d (by simp [hd])]

/-- A spaced text has no empty piece: it would stand at an end, or between two spaces that meet. -/
theorem IsSpaced.nil_notMem_splitOn {cs : List Char} (h : IsSpaced cs) (hne : cs ≠ []) :
    [] ∉ cs.splitOn ' ' := by
  intro hmem
  obtain ⟨before, after, hpieces⟩ := List.append_of_mem hmem
  have hcs : cs = [' '].intercalate (before ++ [] :: after) := by
    rw [← hpieces, List.intercalate_splitOn]
  cases before with
  | nil =>
    cases after with
    | nil => exact hne hcs
    | cons v vs =>
      have hfirst := h.first ' ' (by simp [hcs, List.intercalate_cons_cons])
      simp [isBlank_space] at hfirst
  | cons w ws =>
    rw [intercalate_append (by simp) (by simp)] at hcs
    cases after with
    | nil =>
      have hlast := h.last ' ' (by simp [hcs])
      simp [isBlank_space] at hlast
    | cons v vs =>
      have hsingle := h.single
      rw [hcs, List.intercalate_cons_cons, List.nil_append, List.singleton_append,
        List.isChain_append_cons_cons] at hsingle
      simp [isBlank_space] at hsingle

theorem IsSpaced.intercalate_splitWords {cs : List Char} (h : IsSpaced cs) :
    [' '].intercalate (splitWords cs) = cs := by
  by_cases hne : cs = []
  · rw [hne]
    rfl
  -- the space is the only blank there is, and no piece between spaces is empty
  have hsplit : cs.splitOnP isBlank = cs.splitOn ' ' := by
    rw [List.splitOn_eq_splitOnP]
    refine splitOnP_congr fun c hc => ?_
    rw [Bool.eq_iff_iff, beq_iff_eq]
    exact ⟨h.eq_space c hc, fun hspace => hspace ▸ isBlank_space⟩
  have hfilter : (cs.splitOn ' ').filter (· ≠ []) = cs.splitOn ' ' := by
    refine List.filter_eq_self.mpr fun w hw => ?_
    simpa using ne_of_mem_of_not_mem hw (h.nil_notMem_splitOn hne)
  rw [splitWords_eq_splitOnP, hsplit, hfilter, List.intercalate_splitOn]

/-! ## Rendered texts -/

theorem pieces_renderAll (fragments : List String) :
    pieces (Draft.renderAll fragments) = fragments.flatMap pieces := by
  rw [← words_eq_pieces]
  exact words_renderAll fragments

theorem isSpaced_renderAll (fragments : List String) :
    IsSpaced (Draft.renderAll fragments).toList := by
  rw [toList_renderAll]
  refine isSpaced_intercalate fun w hw => ⟨ne_nil_of_mem_words fragments w hw, fun c hc => ?_⟩
  obtain ⟨f, -, hw⟩ := List.mem_flatMap.mp hw
  rw [splitWords_eq_tokens] at hw
  exact (mem_of_mem_tokens hw hc).2

/-- Rendering leaves a text as it is just when it is spaced. -/
theorem renderAll_singleton_eq_iff (t : String) :
    Draft.renderAll [t] = t ↔ IsSpaced t.toList := by
  constructor
  · intro h
    rw [← h]
    exact isSpaced_renderAll [t]
  · intro h
    rw [← String.toList_inj, toList_renderAll, List.flatMap_singleton, h.intercalate_splitWords]

/-- The filter of some fragments is the one spaced text that has their words, in order. -/
theorem eq_renderAll_iff (fragments : List String) (t : String) :
    t = Draft.renderAll fragments ↔
      IsSpaced t.toList ∧ pieces t = fragments.flatMap pieces := by
  constructor
  · rintro rfl
    exact ⟨isSpaced_renderAll fragments, pieces_renderAll fragments⟩
  · rintro ⟨hspaced, hpieces⟩
    rw [← words_eq_pieces] at hpieces
    calc t = Draft.renderAll [t] := ((renderAll_singleton_eq_iff t).mpr hspaced).symm
      _ = unwords (words t) := by rw [Draft.renderAll, List.flatMap_singleton]
      _ = Draft.renderAll fragments := by rw [hpieces, Draft.renderAll]

end CaptureFilter.Text

namespace CaptureFilter.Draft

/-- The filter of any fragments has their words, in order, and is spaced. So it is its own filter,
and the filter of the fragments of two parts is that of the first, a space and that of the second,
unless one of the two is empty. Whatever calls were made on a draft, whether or not they failed, its
filter is empty just when its stack is: no entry of it is blank. -/
theorem render_normalForm (fs gs : List String) (calls : List Call) :
    let d := empty.performAll calls
    Text.pieces (renderAll fs) = fs.flatMap Text.pieces ∧
    Text.IsSpaced (renderAll fs).toList ∧
    renderAll [renderAll fs] = renderAll fs ∧
    renderAll (fs ++ gs) =
      (if renderAll fs = "" then renderAll gs
      else if renderAll gs = "" then renderAll fs
      else renderAll fs ++ " " ++ renderAll gs) ∧
    (d.render = "" ↔ d.stack = []) := by
  intro d
  have hpieces : Text.pieces (renderAll fs) = fs.flatMap Text.pieces := Text.pieces_renderAll fs
  have hspaced : Text.IsSpaced (renderAll fs).toList := Text.isSpaced_renderAll fs
  have hagain : renderAll fs = renderAll [renderAll fs] := by
    rw [Text.eq_renderAll_iff, List.flatMap_singleton]
    exact ⟨hspaced, rfl⟩
  have hshaped : d.Shaped := performAll_shaped calls
  exact ⟨hpieces, hspaced, hagain.symm, Text.renderAll_append fs gs, hshaped.render_eq_empty_iff⟩

-- blanks of several kinds: in runs, at the ends of a fragment, and alone in one
example : renderAll ["\u00a0\tnot\u2003 port", " \n", "80 ", "or\u3000"] = "not port 80 or" := by
  decide

end CaptureFilter.Draft
