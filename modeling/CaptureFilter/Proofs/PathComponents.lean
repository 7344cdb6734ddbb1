import CaptureFilter.Proofs.Changes
import CaptureFilter.Proofs.Patterns

/-!
# Components of paths

A path below the root is a row of components, each behind a slash. The rule for capture files asks
for nothing but this: no component is empty. The check asks for more of the last component, unless
it is the only one: it must have two characters. Here the texts that the check accepts are told by
their components, in any number and of any length.

Results:
* `wellFormedPath_iff_components`: the paths that follow the rule are the root and the paths that
  have components.
* `endsShort_iff_components`: which components a path has that ends short.
* `Command.attempt_file_iff_components`: which paths are accepted, and which well-formed ones are
  refused.
-/

namespace CaptureFilter.Capture

/-- A path below the root, and its components: they stand in order, each behind a slash, and none of
them is empty or holds a slash. -/
structure HasComponents (path : String) (names : List (List Char)) : Prop where
  spelled : path.toList = names.flatMap ('/' :: ·)
  ne_nil : names ≠ []
  isName : ∀ n ∈ names, n ≠ [] ∧ '/' ∉ n

/-- The last of several components is a single character. -/
def HasShortEnd (names : List (List Char)) : Prop :=
  2 ≤ names.length ∧ ∃ c, names.getLast? = some [c]

/-! ## The rule, told by components -/

/-- Two slashes that meet stand behind a row of other characters. -/
theorem infix_of_infix_append {n cs : List Char} (hn : '/' ∉ n) (h : ['/', '/'] <:+: n ++ cs) :
    ['/', '/'] <:+: cs := by
  induction n with
  | nil => exact h
  | cons a n ih =>
    rw [List.mem_cons, not_or] at hn
    rw [List.cons_append, List.infix_cons_iff] at h
    rcases h with h | h
    · exact absurd (List.cons_prefix_cons.mp h).1 hn.1
    · exact ih hn.2 h

theorem not_infix_flatMap {names : List (List Char)} (h : ∀ n ∈ names, n ≠ [] ∧ '/' ∉ n) :
    ¬ ['/', '/'] <:+: names.flatMap ('/' :: ·) := by
  induction names with
  | nil => simp
  | cons n names ih =>
    obtain ⟨hne, hslash⟩ := h n (by simp)
    intro hmeet
    rw [List.flatMap_cons, List.cons_append, List.infix_cons_iff] at hmeet
    rcases hmeet with hmeet | hmeet
    · obtain ⟨a, n, rfl⟩ := List.exists_cons_of_ne_nil hne
      have ha : '/' = a := by simpa using hmeet
      exact hslash (ha ▸ List.mem_cons_self)
    · exact ih (fun m hm => h m (by simp [hm])) (infix_of_infix_append hslash hmeet)

namespace HasComponents

variable {path : String} {names : List (List Char)}

/-- The end of a path: its last character belongs to its last component. -/
theorem exists_last (h : HasComponents path names) :
    ∃ init n d, names = init ++ [n ++ [d]] ∧ '/' ∉ n ∧ d ≠ '/' ∧
      path.toList = (init.flatMap ('/' :: ·) ++ '/' :: n) ++ [d] := by
  obtain hnil | ⟨init, m, rfl⟩ := names.eq_nil_or_concat'
  · exact absurd hnil h.ne_nil
  · obtain ⟨hne, hslash⟩ := h.isName m (by simp)
    obtain hnil | ⟨n, d, rfl⟩ := m.eq_nil_or_concat'
    · exact absurd hnil hne
    · rw [List.mem_append, not_or, List.mem_singleton] at hslash
      exact ⟨init, n, d, rfl, hslash.1, Ne.symm hslash.2, by simp [h.spelled]⟩

theorem wellFormedPath (h : HasComponents path names) : WellFormedPath path := by
  refine ⟨?_, h.spelled ▸ not_infix_flatMap h.isName, fun _ => ?_⟩
  · obtain ⟨n, names, rfl⟩ := List.exists_cons_of_ne_nil h.ne_nil
    simp [h.spelled]
  · obtain ⟨init, n, d, -, -, hd, hpath⟩ := h.exists_last
    rw [hpath, List.getLast?_concat]
    simpa using hd

theorem endsShort_iff (h : HasComponents path names) : EndsShort path ↔ HasShortEnd names := by
  obtain ⟨init, n, d, rfl, hn, -, hpath⟩ := h.exists_last
  rw [EndsShort, HasShortEnd, hpath]
  constructor
  · rintro ⟨front, c, hfront, heq⟩
    rw [show front ++ ['/', c] = (front ++ ['/']) ++ [c] by simp] at heq
    obtain ⟨heq, -⟩ := List.append_inj' heq rfl
    -- the slash in front of the last character is that of the component
    obtain rfl : n = [] := by
      obtain hnil | ⟨m, b, rfl⟩ := n.eq_nil_or_concat'
      · exact hnil
      · rw [← List.cons_append, ← List.append_assoc] at heq
        obtain rfl := List.singleton_inj.mp (List.append_inj' heq rfl).2
        simp at hn
    have hinit : init ≠ [] := by
      rintro rfl
      exact hfront (List.append_inj' heq rfl).1.symm
    have hlength : 0 < init.length := List.length_pos_iff.mpr hinit
    exact ⟨by rw [List.length_append, List.length_singleton]; omega, d, by simp⟩
  · rintro ⟨hlength, c, hlast⟩
    obtain ⟨rfl, rfl⟩ : n = [] ∧ d = c := by simpa [List.append_eq_singleton_iff] using hlast
    refine ⟨init.flatMap ('/' :: ·), d, ?_, by simp⟩
    rintro hnil
    cases init <;> simp_all

end HasComponents

/-- What stands behind the first slash of a well-formed path is cut at each further slash. -/
theorem exists_names {cs : List Char} (hne : cs ≠ []) (hempty : ¬ ['/', '/'] <:+: '/' :: cs)
    (hlast : cs.getLast? ≠ some '/') :
    ∃ names : List (List Char), names ≠ [] ∧ (∀ n ∈ names, n ≠ [] ∧ '/' ∉ n) ∧
      '/' :: cs = names.flatMap ('/' :: ·) := by
  -- on the length, since one step takes a whole name
  induction hlen : cs.length using Nat.strong_induction_on generalizing cs with
  | h k ih =>
    subst hlen
    by_cases hmem : '/' ∈ cs
    · obtain ⟨n, ds, rfl, hn⟩ := List.eq_append_cons_of_mem hmem
      have hfirst : n ≠ [] := by
        rintro rfl
        exact hempty (List.prefix_append ['/', '/'] ds).isInfix
      have hrest : ds ≠ [] := by
        rintro rfl
        simp at hlast
      have hempty' : ¬ ['/', '/'] <:+: '/' :: ds := fun h =>
        hempty (h.trans (List.suffix_append ('/' :: n) ('/' :: ds)).isInfix)
      have hlast' : ds.getLast? ≠ some '/' := by
        obtain ⟨d, ds, rfl⟩ := List.exists_cons_of_ne_nil hrest
        simpa [List.getLast?_append, List.getLast?_cons_cons] using hlast
      obtain ⟨names, -, hname, hspelled⟩ :=
        ih ds.length (by rw [List.length_append, List.length_cons]; omega) hrest hempty' hlast' rfl
      refine ⟨n :: names, by simp, List.forall_mem_cons.mpr ⟨⟨hfirst, hn⟩, hname⟩, ?_⟩
      rw [List.flatMap_cons, ← hspelled, List.cons_append]
    · exact ⟨[cs], by simp, by simpa using ⟨hne, hmem⟩, by simp⟩

/-- The paths that follow the rule are the root and the paths that have components. -/
theorem wellFormedPath_iff_components {path : String} :
    WellFormedPath path ↔ path = "/" ∨ ∃ names, HasComponents path names := by
  constructor
  · intro h
    obtain ⟨cs, hcs⟩ := List.head?_eq_some_iff.mp h.absolute
    obtain ⟨hempty, hlast⟩ := (wellFormedPath_iff hcs).mp h
    by_cases hne : cs = []
    · exact .inl (String.toList_inj.mp (by rw [hcs, hne]; rfl))
    · obtain ⟨names, hnames, hname, hspelled⟩ := exists_names hne hempty hlast
      exact .inr ⟨names, hcs.trans hspelled, hnames, hname⟩
  · rintro (rfl | ⟨names, h⟩)
    · exact (isPath_iff.mp (by decide)).1
    · exact h.wellFormedPath

/-! ## The check, told by components -/

theorem HasComponents.not_hasShortEnd_iff {path : String} {names : List (List Char)}
    (h : HasComponents path names) :
    ¬ HasShortEnd names ↔ names.length = 1 ∨ ∃ n, names.getLast? = some n ∧ 2 ≤ n.length := by
  obtain ⟨init, n, d, rfl, -, -, -⟩ := h.exists_last
  have hlength : 2 ≤ (init ++ [n ++ [d]]).length ↔ ¬ (init ++ [n ++ [d]]).length = 1 := by
    rw [List.length_append, List.length_singleton]
    omega
  have hshort : (∃ c, (init ++ [n ++ [d]]).getLast? = some [c]) ↔
      ¬ ∃ m, (init ++ [n ++ [d]]).getLast? = some m ∧ 2 ≤ m.length := by
    cases n <;> simp
  rw [HasShortEnd, hlength, hshort, not_and_or, not_not, not_not]

theorem endsShort_iff_components {path : String} (h : WellFormedPath path) :
    EndsShort path ↔ ∃ names, HasComponents path names ∧ HasShortEnd names := by
  constructor
  · intro hshort
    obtain rfl | ⟨names, hnames⟩ := wellFormedPath_iff_components.mp h
    · obtain ⟨front, c, -, heq⟩ := hshort
      have hlength := congrArg List.length heq
      simp at hlength
    · exact ⟨names, hnames, hnames.endsShort_iff.mp hshort⟩
  · rintro ⟨names, hnames, hshort⟩
    exact hnames.endsShort_iff.mpr hshort

/-- The paths that are accepted: the root, one component of any length, or several with a last one
of two characters or more. -/
theorem isPath_iff_components {path : String} :
    isPath path = true ↔ path = "/" ∨ ∃ names, HasComponents path names ∧
      (names.length = 1 ∨ ∃ n, names.getLast? = some n ∧ 2 ≤ n.length) := by
  constructor
  · intro h
    obtain ⟨hrule, hlong⟩ := isPath_iff.mp h
    obtain rfl | ⟨names, hnames⟩ := wellFormedPath_iff_components.mp hrule
    · exact .inl rfl
    · rw [hnames.endsShort_iff] at hlong
      exact .inr ⟨names, hnames, hnames.not_hasShortEnd_iff.mp hlong⟩
  · rintro (rfl | ⟨names, hnames, hlong⟩)
    · decide
    · refine isPath_iff.mpr ⟨hnames.wellFormedPath, ?_⟩
      rw [hnames.endsShort_iff]
      exact hnames.not_hasShortEnd_iff.mpr hlong

/-- The check of a capture file is the match of its pattern. It accepts the root and the paths of
one component, of any length, and those of several components whose last one has two characters or
more. So all that it accepts is well formed, and the well-formed paths that it refuses are those of
two or more components whose last one is a single character. -/
theorem Command.attempt_file_iff_components (c : Command) (path : String) :
    ((c.attempt (.outputFile path)).2 = .ok () ↔ isPath path = true) ∧
    ((c.attempt (.inputFile path)).2 = .ok () ↔ isPath path = true) ∧
    (isPath path = true ↔ path.toList ∈ pathPattern) ∧
    (isPath path = true ↔ path = "/" ∨ ∃ names, HasComponents path names ∧
      (names.length = 1 ∨ ∃ n, names.getLast? = some n ∧ 2 ≤ n.length)) ∧
    ¬ (isPath path = true ∧ ¬ WellFormedPath path) ∧
    (WellFormedPath path ∧ isPath path = false ↔
      ∃ names, HasComponents path names ∧ HasShortEnd names) := by
  refine ⟨attempt_eq_ok_iff, attempt_eq_ok_iff, isPath_iff_mem, isPath_iff_components, ?_, ?_⟩
  · rintro ⟨h, hrule⟩
    exact hrule (isPath_iff.mp h).1
  · rw [← Bool.not_eq_true, isPath_iff]
    constructor
    · rintro ⟨hrule, hrefused⟩
      have hshort : EndsShort path := not_not.mp fun hlong => hrefused ⟨hrule, hlong⟩
      exact (endsShort_iff_components hrule).mp hshort
    · rintro ⟨names, hnames, hshort⟩
      exact ⟨hnames.wellFormedPath, fun h => h.2 (hnames.endsShort_iff.mpr hshort)⟩

end CaptureFilter.Capture
