import CaptureFilter.Draft
import Mathlib.Data.List.Basic

/-!
# Cutting a text into words

Words end at blanks. A reader of filters also ends them at certain characters that are words of
their own, such as parentheses. Both ways of cutting are one: they walk the text from the right and
keep the word that the first character stands in, and they differ in which characters stand alone.

Results:
* `Text.tokens_append_blank`: a blank between two texts parts their words.
* `Text.flatten_tokens`: cutting drops the blanks and nothing else.
* `Text.tokens_splitWords`: cutting at blanks first changes nothing.
* `Text.splitWords_eq_splitOnP`: words are the pieces between blanks.
* `Text.tokens_renderAll`, `Text.words_renderAll`: the words of a rendered filter are those of its
  fragments, in order.
* `Text.mem_renderAll`, `Text.head?_renderAll`: the characters of a rendered filter.
* `Text.renderAll_append`: the filter of the fragments of two parts.
-/

namespace CaptureFilter.Text

/-- Words behind a cut text come behind its words. -/
theorem Cut.words_append (w : List Char) (xs ys : List (List Char)) :
    (⟨w, xs ++ ys⟩ : Cut).words = (⟨w, xs⟩ : Cut).words ++ ys := by
  unfold Cut.words
  split_ifs <;> rfl

theorem Cut.flatten_words (s : Cut) : s.words.flatten = s.word ++ s.later.flatten := by
  unfold Cut.words
  split_ifs with h
  · rw [h, List.nil_append]
  · rw [List.flatten_cons]

/-- Takes one more character in front of the text, where the characters of `alone` are words of
their own. -/
def Cut.pushWith (alone : Char → Bool) (c : Char) (s : Cut) : Cut :=
  if isBlank c then ⟨[], s.words⟩
  else if alone c then ⟨[], [c] :: s.words⟩
  else ⟨c :: s.word, s.later⟩

/-- Takes characters in front of a text. -/
def Cut.pushAll (alone : Char → Bool) (cs : List Char) (s : Cut) : Cut :=
  cs.foldr (Cut.pushWith alone) s

/-- The words of a text in which the characters of `alone` are words of their own. -/
def tokens (alone : Char → Bool) (cs : List Char) : List (List Char) :=
  (Cut.pushAll alone cs ⟨[], []⟩).words

variable {alone : Char → Bool}

/-- Words are the tokens that come about when no character stands alone. -/
theorem splitWords_eq_tokens (cs : List Char) : splitWords cs = tokens (fun _ => false) cs := by
  have hpush : Cut.pushWith (fun _ => false) = Cut.push := by
    funext c s
    simp [Cut.pushWith, Cut.push]
  rw [tokens, Cut.pushAll, hpush, splitWords]

/-! ## Taking characters -/

@[simp] theorem Cut.pushAll_nil (s : Cut) : Cut.pushAll alone [] s = s := rfl

@[simp] theorem Cut.pushAll_cons (c : Char) (cs : List Char) (s : Cut) :
    Cut.pushAll alone (c :: cs) s = Cut.pushWith alone c (Cut.pushAll alone cs s) := by
  simp only [Cut.pushAll, List.foldr_cons]

theorem Cut.pushAll_append (cs ds : List Char) (s : Cut) :
    Cut.pushAll alone (cs ++ ds) s = Cut.pushAll alone cs (Cut.pushAll alone ds s) :=
  List.foldr_append

theorem Cut.pushWith_append (c : Char) (w : List Char) (xs ys : List (List Char)) :
    Cut.pushWith alone c ⟨w, xs ++ ys⟩ =
      ⟨(Cut.pushWith alone c ⟨w, xs⟩).word, (Cut.pushWith alone c ⟨w, xs⟩).later ++ ys⟩ := by
  unfold Cut.pushWith
  rw [Cut.words_append]
  split_ifs <;> rfl

/-- A text in front of words that it does not run on into is cut as if it stood alone. -/
theorem Cut.pushAll_later (cs : List Char) (ys : List (List Char)) :
    Cut.pushAll alone cs ⟨[], ys⟩ =
      ⟨(Cut.pushAll alone cs ⟨[], []⟩).word, (Cut.pushAll alone cs ⟨[], []⟩).later ++ ys⟩ := by
  induction cs with
  | nil => rfl
  | cons c cs ih => rw [Cut.pushAll_cons, ih, Cut.pushWith_append, Cut.pushAll_cons]

theorem Cut.words_pushAll (cs : List Char) (ys : List (List Char)) :
    (Cut.pushAll alone cs ⟨[], ys⟩).words = tokens alone cs ++ ys := by
  rw [Cut.pushAll_later, Cut.words_append, tokens]

/-- Characters that neither part words nor stand alone run on into the first word. -/
theorem Cut.pushAll_word {w : List Char} (h : ∀ c ∈ w, isBlank c = false ∧ alone c = false)
    (s : Cut) : Cut.pushAll alone w s = ⟨w ++ s.word, s.later⟩ := by
  induction w with
  | nil => rfl
  | cons c w ih =>
    obtain ⟨hblank, halone⟩ := h c (by simp)
    rw [Cut.pushAll_cons, ih fun d hd => h d (by simp [hd])]
    simp [Cut.pushWith, hblank, halone]

/-! ## Tokens -/

@[simp] theorem tokens_nil : tokens alone [] = [] := rfl

theorem tokens_append_blank {c : Char} (h : isBlank c = true) (cs ds : List Char) :
    tokens alone (cs ++ c :: ds) = tokens alone cs ++ tokens alone ds := by
  have hc : Cut.pushAll alone (c :: ds) ⟨[], []⟩ = ⟨[], tokens alone ds⟩ := by
    simp [Cut.pushWith, h, tokens]
  rw [tokens, Cut.pushAll_append, hc, Cut.words_pushAll]

theorem tokens_word {w : List Char} (hne : w ≠ [])
    (h : ∀ c ∈ w, isBlank c = false ∧ alone c = false) : tokens alone w = [w] := by
  rw [tokens, Cut.pushAll_word h]
  simp [Cut.words, hne]

/-- Cutting drops the blanks of a text and nothing else. -/
theorem flatten_tokens (cs : List Char) :
    (tokens alone cs).flatten = cs.filter (!isBlank ·) := by
  rw [tokens, Cut.flatten_words]
  induction cs with
  | nil => rfl
  | cons c cs ih =>
    rw [Cut.pushAll_cons]
    unfold Cut.pushWith
    split_ifs with hblank halone
    · simp [Cut.flatten_words, ih, hblank]
    · simp [Cut.flatten_words, ih, hblank]
    · simp [ih, hblank]

theorem mem_of_mem_tokens {cs w : List Char} {c : Char} (hw : w ∈ tokens alone cs) (hc : c ∈ w) :
    c ∈ cs ∧ isBlank c = false := by
  have hmem : c ∈ (tokens alone cs).flatten := List.mem_flatten.mpr ⟨w, hw, hc⟩
  rw [flatten_tokens] at hmem
  simpa using List.mem_filter.mp hmem

theorem Cut.ne_nil_of_mem_words {s : Cut} (h : ∀ v ∈ s.later, v ≠ []) : ∀ v ∈ s.words, v ≠ [] := by
  intro v hv
  unfold Cut.words at hv
  split_ifs at hv with hword
  · exact h v hv
  · rcases List.mem_cons.mp hv with rfl | hv
    · exact hword
    · exact h v hv

theorem Cut.ne_nil_of_mem_later (cs : List Char) :
    ∀ v ∈ (Cut.pushAll alone cs ⟨[], []⟩).later, v ≠ [] := by
  induction cs with
  | nil => simp
  | cons c cs ih =>
    rw [Cut.pushAll_cons]
    unfold Cut.pushWith
    split_ifs
    · exact Cut.ne_nil_of_mem_words ih
    · intro v hv
      rcases List.mem_cons.mp hv with rfl | hv
      · simp
      · exact Cut.ne_nil_of_mem_words ih v hv
    · exact ih

theorem ne_nil_of_mem_tokens {cs w : List Char} (hw : w ∈ tokens alone cs) : w ≠ [] :=
  Cut.ne_nil_of_mem_words (Cut.ne_nil_of_mem_later cs) w hw

/-! ## Cutting words again -/

theorem Cut.flatMap_words (s : Cut) :
    s.words.flatMap (tokens alone) = tokens alone s.word ++ s.later.flatMap (tokens alone) := by
  unfold Cut.words
  split_ifs with h
  · rw [h, tokens_nil, List.nil_append]
  · rw [List.flatMap_cons]

/-- A text cut at its blanks: the first word is still to be cut, the later ones are cut alone. -/
theorem Cut.pushAll_eq_of_words (cs : List Char) :
    Cut.pushAll alone cs ⟨[], []⟩ =
      Cut.pushAll alone (Cut.pushAll (fun _ => false) cs ⟨[], []⟩).word
        ⟨[], (Cut.pushAll (fun _ => false) cs ⟨[], []⟩).later.flatMap (tokens alone)⟩ := by
  induction cs with
  | nil => rfl
  | cons c cs ih =>
    rw [Cut.pushAll_cons, Cut.pushAll_cons, ih]
    generalize Cut.pushAll (fun _ => false) cs ⟨[], []⟩ = s
    by_cases hc : isBlank c = true
    · -- the word before the blank is cut alone
      simp only [Cut.pushWith, hc, if_true, Cut.words_pushAll, Cut.pushAll_nil, Cut.flatMap_words]
    · simp [Cut.pushWith, hc]

theorem tokens_splitWords (cs : List Char) :
    (splitWords cs).flatMap (tokens alone) = tokens alone cs := by
  calc (splitWords cs).flatMap (tokens alone)
      = (Cut.pushAll (fun _ => false) cs ⟨[], []⟩).words.flatMap (tokens alone) := by
        rw [splitWords_eq_tokens, tokens]
    _ = (Cut.pushAll alone cs ⟨[], []⟩).words := by
        rw [Cut.flatMap_words, ← Cut.words_pushAll, ← Cut.pushAll_eq_of_words]
    _ = tokens alone cs := rfl

/-- Words are the pieces between blanks that are not empty. -/
theorem splitWords_eq_splitOnP (cs : List Char) :
    splitWords cs = (cs.splitOnP isBlank).filter (· ≠ []) := by
  -- the piece that the first character stands in is open, the ones behind it are cut
  have hcut : ∃ w rest, cs.splitOnP isBlank = w :: rest ∧
      cs.foldr Cut.push ⟨[], []⟩ = ⟨w, rest.filter (· ≠ [])⟩ := by
    induction cs with
    | nil => exact ⟨[], [], by simp, rfl⟩
    | cons c cs ih =>
      obtain ⟨w, rest, hpieces, hfold⟩ := ih
      rw [List.splitOnP_cons_eq_if_modifyHead, hpieces, List.foldr_cons, hfold, Cut.push]
      split_ifs with hblank
      · exact ⟨[], w :: rest, rfl, by simp [Cut.words, List.filter_cons]⟩
      · exact ⟨c :: w, rest, rfl, rfl⟩
  obtain ⟨w, rest, hpieces, hfold⟩ := hcut
  rw [splitWords, hfold, hpieces, Cut.words, List.filter_cons]
  split_ifs <;> simp_all

/-! ## Joining words -/

theorem tokens_intercalate (ws : List (List Char)) :
    tokens alone ([' '].intercalate ws) = ws.flatMap (tokens alone) := by
  induction ws with
  | nil => rfl
  | cons w ws ih =>
    cases ws with
    | nil => simp
    | cons v ws =>
      rw [List.intercalate_cons_cons, List.append_assoc, List.singleton_append,
        tokens_append_blank (by decide), ih, ← List.flatMap_cons]

/-- Words with one space between each two are cut into these words. -/
theorem tokens_intercalate_words {ws : List (List Char)}
    (h : ∀ w ∈ ws, w ≠ [] ∧ ∀ c ∈ w, isBlank c = false ∧ alone c = false) :
    tokens alone ([' '].intercalate ws) = ws := by
  rw [tokens_intercalate]
  induction ws with
  | nil => rfl
  | cons w ws ih =>
    obtain ⟨hne, hchars⟩ := h w (by simp)
    rw [List.flatMap_cons, tokens_word hne hchars, ih fun v hv => h v (by simp [hv])]
    rfl

theorem mem_intercalate {ws : List (List Char)} {c : Char} (h : c ∈ [' '].intercalate ws) :
    c = ' ' ∨ ∃ w ∈ ws, c ∈ w := by
  induction ws with
  | nil => simp at h
  | cons w ws ih =>
    cases ws with
    | nil => exact .inr ⟨w, by simp, by simpa using h⟩
    | cons v ws =>
      rw [List.intercalate_cons_cons, List.mem_append, List.mem_append] at h
      rcases h with (h | h) | h
      · exact .inr ⟨w, by simp, h⟩
      · exact .inl (by simpa using h)
      · rcases ih h with hc | ⟨u, hu, hc⟩
        · exact .inl hc
        · exact .inr ⟨u, by simp [hu], hc⟩

theorem head?_intercalate {ws : List (List Char)} (h : ∀ w ∈ ws, w ≠ []) :
    ([' '].intercalate ws).head? = ws.flatten.head? := by
  cases ws with
  | nil => rfl
  | cons w ws =>
    obtain ⟨c, cs, rfl⟩ := List.exists_cons_of_ne_nil (h w (by simp))
    cases ws with
    | nil => simp
    | cons v ws => simp [List.intercalate_cons_cons]

theorem intercalate_append {ws vs : List (List Char)} (hws : ws ≠ []) (hvs : vs ≠ []) :
    [' '].intercalate (ws ++ vs) = [' '].intercalate ws ++ ' ' :: [' '].intercalate vs := by
  induction ws with
  | nil => exact absurd rfl hws
  | cons w ws ih =>
    cases ws with
    | nil =>
      obtain ⟨v, vs, rfl⟩ := List.exists_cons_of_ne_nil hvs
      simp [List.intercalate_cons_cons]
    | cons u ws =>
      rw [List.cons_append, List.cons_append, List.intercalate_cons_cons, ← List.cons_append,
        ih (by simp), List.intercalate_cons_cons, List.append_assoc, List.append_assoc,
        List.append_assoc]

/-! ## Rendered filters -/

theorem toList_renderAll (fragments : List String) :
    (Draft.renderAll fragments).toList =
      [' '].intercalate (fragments.flatMap fun f => splitWords f.toList) := by
  have hwords : (fragments.flatMap words).map String.toList =
      fragments.flatMap fun f => splitWords f.toList := by
    simp [words, List.map_flatMap, Function.comp_def]
  rw [Draft.renderAll, unwords, String.toList_intercalate, hwords]
  rfl

/-- The words of a rendered filter are those of its fragments, in order. -/
theorem tokens_renderAll (fragments : List String) :
    tokens alone (Draft.renderAll fragments).toList =
      fragments.flatMap fun f => tokens alone f.toList := by
  rw [toList_renderAll, tokens_intercalate, List.flatMap_assoc]
  simp only [tokens_splitWords]

theorem words_renderAll (fragments : List String) :
    words (Draft.renderAll fragments) = fragments.flatMap words := by
  have hcut : splitWords (Draft.renderAll fragments).toList =
      fragments.flatMap fun f => splitWords f.toList := by
    simp only [splitWords_eq_tokens, tokens_renderAll]
  rw [words, hcut, List.map_flatMap]
  rfl

/-- A rendered filter is written in the characters of its fragments and spaces. -/
theorem mem_renderAll {fragments : List String} {c : Char}
    (h : c ∈ (Draft.renderAll fragments).toList) : c = ' ' ∨ ∃ f ∈ fragments, c ∈ f.toList := by
  rw [toList_renderAll] at h
  rcases mem_intercalate h with hc | ⟨w, hw, hc⟩
  · exact .inl hc
  · obtain ⟨f, hf, hw⟩ := List.mem_flatMap.mp hw
    rw [splitWords_eq_tokens] at hw
    exact .inr ⟨f, hf, (mem_of_mem_tokens hw hc).1⟩

theorem ne_nil_of_mem_words (fragments : List String) :
    ∀ w ∈ fragments.flatMap fun f => splitWords f.toList, w ≠ [] := by
  intro w hw
  obtain ⟨f, -, hw⟩ := List.mem_flatMap.mp hw
  rw [splitWords_eq_tokens] at hw
  exact ne_nil_of_mem_tokens hw

theorem flatten_flatMap_splitWords (fragments : List String) :
    (fragments.flatMap fun f => splitWords f.toList).flatten =
      (String.join fragments).toList.filter (!isBlank ·) := by
  simp only [splitWords_eq_tokens, String.toList_join]
  induction fragments with
  | nil => rfl
  | cons f fs ih =>
    rw [List.flatMap_cons, List.flatten_append, flatten_tokens, ih, List.flatMap_cons,
      List.filter_append]

/-- A rendered filter has the characters of its fragments that are no blanks, in order. -/
theorem filter_renderAll (fragments : List String) :
    (Draft.renderAll fragments).toList.filter (!isBlank ·) =
      (String.join fragments).toList.filter (!isBlank ·) := by
  rw [← flatten_flatMap_splitWords, ← @flatten_tokens fun _ => false, tokens_renderAll]
  simp only [splitWords_eq_tokens]

/-- A rendered filter starts with the first character of its fragments that is no blank. -/
theorem head?_renderAll (fragments : List String) :
    (Draft.renderAll fragments).toList.head? =
      (String.join fragments).toList.find? (!isBlank ·) := by
  rw [toList_renderAll, head?_intercalate (ne_nil_of_mem_words fragments),
    flatten_flatMap_splitWords, List.head?_filter]

theorem renderAll_eq_empty_iff (fragments : List String) :
    Draft.renderAll fragments = "" ↔ (fragments.flatMap fun f => splitWords f.toList) = [] := by
  have hne := ne_nil_of_mem_words fragments
  rw [← String.toList_eq_nil_iff, toList_renderAll, ← List.head?_eq_none_iff,
    head?_intercalate hne, List.head?_eq_none_iff, List.flatten_eq_nil_iff]
  constructor
  · intro h
    exact List.eq_nil_iff_forall_not_mem.mpr fun w hw => hne w hw (h w hw)
  · intro h w hw
    rw [h] at hw
    cases hw

/-- The filter of more fragments is that of both parts with one space between them, unless one part
has no words. -/
theorem renderAll_append (fs gs : List String) :
    Draft.renderAll (fs ++ gs) =
      if Draft.renderAll fs = "" then Draft.renderAll gs
      else if Draft.renderAll gs = "" then Draft.renderAll fs
      else Draft.renderAll fs ++ " " ++ Draft.renderAll gs := by
  simp only [renderAll_eq_empty_iff]
  rw [← String.toList_inj, toList_renderAll, List.flatMap_append]
  split_ifs with hfs hgs
  · rw [hfs, List.nil_append, toList_renderAll]
  · rw [hgs, List.append_nil, toList_renderAll]
  · rw [intercalate_append hfs hgs, String.toList_append, String.toList_append, toList_renderAll,
      toList_renderAll]
    simp

end CaptureFilter.Text
