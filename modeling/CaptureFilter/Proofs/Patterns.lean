import CaptureFilter.Capture.Interface
import CaptureFilter.Capture.Path
import Mathlib.Computability.Language
import Mathlib.Data.List.TakeWhile

/-!
# Patterns of option values

Interface names and the paths of capture files are described by patterns, and checked by recognisers
that walk the characters once. Here a pattern is the set of texts that it stands for, built from
classes of characters by choice, sequence and repetition, and each recogniser accepts that set and
nothing else.

The pattern of paths repeats a choice between one character and two, and asks for one more character
at the end. It stands for the paths without empty components and without a trailing slash, except
that the last of several components has to have two characters or more.

Results:
* `isInterfaceName_iff_mem`, `isPath_iff_mem`: the recognisers accept the texts of their patterns.
* `isInterfaceName_iff`: an interface name is one run of name characters, or two around a dot.
* `isPath_iff`: which well-formed paths are accepted.
-/

namespace CaptureFilter.Capture

open scoped Computability

/-! ## Patterns -/

/-- One character of a class. -/
def oneOf (p : Char → Bool) : Language Char :=
  {cs | ∃ c, p c = true ∧ cs = [c]}

/-- One or more name characters, `[A-Za-z0-9_]+`. -/
def namePart : Language Char :=
  oneOf isNameChar * (oneOf isNameChar)∗

/-- The texts of `^([A-Za-z0-9_]+)(\.([A-Za-z0-9_]+))?$`. -/
def namePattern : Language Char :=
  namePart * (1 + oneOf (· = '.') * namePart)

/-- One slash, `/`. -/
def slash : Language Char :=
  oneOf (· = '/')

/-- One character that is no slash, `[^/]`. -/
def other : Language Char :=
  oneOf (· ≠ '/')

/-- The texts of `([^/]|/[^/])*?[^/]`. A lazy repetition has the texts of an eager one. -/
def restPattern : Language Char :=
  (other + slash * other)∗ * other

/-- The texts of `^/[^/]?$|^/[^/]([^/]|/[^/])*?[^/]$`. -/
def pathPattern : Language Char :=
  slash * (1 + other) + slash * (other * restPattern)

@[simp] theorem mem_oneOf {p : Char → Bool} {cs : List Char} :
    cs ∈ oneOf p ↔ ∃ c, p c = true ∧ cs = [c] := Iff.rfl

@[simp] theorem cons_mem_oneOf_mul {p : Char → Bool} {l : Language Char} {c : Char}
    {cs : List Char} : c :: cs ∈ oneOf p * l ↔ p c = true ∧ cs ∈ l := by
  rw [Language.mem_mul]
  constructor
  · rintro ⟨_, ⟨d, hd, rfl⟩, ds, hds, heq⟩
    obtain ⟨rfl, rfl⟩ := List.cons.inj heq
    exact ⟨hd, hds⟩
  · rintro ⟨hc, hcs⟩
    exact ⟨[c], ⟨c, hc, rfl⟩, cs, hcs, rfl⟩

@[simp] theorem nil_notMem_oneOf_mul {p : Char → Bool} {l : Language Char} : [] ∉ oneOf p * l := by
  rw [Language.mem_mul]
  rintro ⟨_, ⟨c, -, rfl⟩, ds, -, heq⟩
  cases heq

@[simp] theorem mem_choice {l m : Language Char} {cs : List Char} :
    cs ∈ l ⊔ m ↔ cs ∈ l ∨ cs ∈ m := Iff.rfl

/-! ## Interface names -/

/-- A run of ASCII letters, digits and underscores that is not empty. -/
def IsNameRun (cs : List Char) : Prop :=
  cs ≠ [] ∧ ∀ c ∈ cs, c.isAlphanum = true ∨ c = '_'

/-- One run of name characters, or two with a dot between them. -/
def HasNameForm (cs : List Char) : Prop :=
  IsNameRun cs ∨
    ∃ device vlan, cs = device ++ '.' :: vlan ∧ IsNameRun device ∧ IsNameRun vlan

/-- The runs of name characters. -/
def nameRuns : Language Char :=
  {cs | IsNameRun cs}

theorem isNameRun_iff {cs : List Char} :
    IsNameRun cs ↔ cs ≠ [] ∧ ∀ c ∈ cs, isNameChar c = true := by
  simp [IsNameRun, isNameChar]

/-- A run is one character, or one in front of a run. -/
theorem nameRuns_eq : nameRuns = oneOf isNameChar * nameRuns + oneOf isNameChar := by
  have hmem (cs : List Char) : cs ∈ nameRuns ↔ cs ≠ [] ∧ ∀ c ∈ cs, isNameChar c = true :=
    isNameRun_iff
  ext cs
  rw [Language.mem_add]
  cases cs with
  | nil => simp [hmem]
  | cons c cs => cases cs <;> simp [hmem]

theorem namePart_eq : namePart = nameRuns := by
  have hnil : [] ∉ oneOf isNameChar := by simp
  -- the equation of the repetition has one solution
  rw [namePart, ← Language.mul_self_kstar_comm]
  exact ((Language.self_eq_mul_add_iff hnil).mp nameRuns_eq).symm

/-- The texts of the pattern of interface names. -/
theorem mem_namePattern {cs : List Char} : cs ∈ namePattern ↔ HasNameForm cs := by
  rw [HasNameForm, namePattern, namePart_eq, mul_add, mul_one, Language.mem_add, Language.mem_mul]
  refine or_congr Iff.rfl ⟨?_, ?_⟩
  · rintro ⟨device, hdevice, ds, hds, rfl⟩
    cases ds with
    | nil => simp at hds
    | cons c vlan =>
      obtain ⟨hc, hvlan⟩ := cons_mem_oneOf_mul.mp hds
      obtain rfl : c = '.' := by simpa using hc
      exact ⟨device, vlan, rfl, hdevice, hvlan⟩
  · rintro ⟨device, vlan, rfl, hdevice, hvlan⟩
    exact ⟨device, hdevice, '.' :: vlan, cons_mem_oneOf_mul.mpr ⟨by simp, hvlan⟩, rfl⟩

/-- An interface name is one run of name characters, or two around a dot. -/
theorem isInterfaceName_iff {s : String} :
    isInterfaceName s = true ↔ HasNameForm s.toList := by
  have hdot : isNameChar '.' = false := by decide
  constructor
  · intro h
    have hsplit := List.takeWhile_append_dropWhile (p := isNameChar) (l := s.toList)
    have hdevice : ∀ c ∈ s.toList.takeWhile isNameChar, isNameChar c = true :=
      fun c hc => List.mem_takeWhile_imp hc
    unfold isInterfaceName at h
    cases hrest : s.toList.dropWhile isNameChar with
    | nil =>
      rw [hrest, List.append_nil] at hsplit
      rw [← hsplit]
      exact .inl (isNameRun_iff.mpr ⟨by simpa [hrest] using h, hdevice⟩)
    | cons c vlan =>
      simp only [hrest, Bool.and_eq_true, beq_iff_eq, List.all_eq_true] at h
      obtain ⟨⟨⟨hne, rfl⟩, hvlan⟩, hchars⟩ := h
      refine .inr ⟨_, vlan, by rw [← hrest, hsplit], ?_, ?_⟩
      · exact isNameRun_iff.mpr ⟨by simpa using hne, hdevice⟩
      · exact isNameRun_iff.mpr ⟨by simpa using hvlan, hchars⟩
  · simp only [HasNameForm, isNameRun_iff]
    rintro (⟨hne, hchars⟩ | ⟨device, vlan, hs, ⟨hdevice, hchars⟩, hvlan, hchars'⟩)
    · have hrest : s.toList.dropWhile isNameChar = [] := List.dropWhile_eq_nil_iff.mpr hchars
      have htake : s.toList.takeWhile isNameChar = s.toList := List.takeWhile_eq_self_iff.mpr hchars
      simpa [isInterfaceName, hrest, htake] using hne
    · have hrest : s.toList.dropWhile isNameChar = '.' :: vlan := by
        rw [hs, List.dropWhile_append_of_pos hchars, List.dropWhile_cons_of_neg (by simp [hdot])]
      have htake : s.toList.takeWhile isNameChar = device := by
        rw [hs, List.takeWhile_append_of_pos hchars, List.takeWhile_cons_of_neg (by simp [hdot]),
          List.append_nil]
      simp only [isInterfaceName, hrest, htake, Bool.and_eq_true, List.all_eq_true]
      exact ⟨⟨⟨by simpa using hdevice, by decide⟩, by simpa using hvlan⟩, hchars'⟩

theorem isInterfaceName_iff_mem {s : String} :
    isInterfaceName s = true ↔ s.toList ∈ namePattern :=
  isInterfaceName_iff.trans mem_namePattern.symm

/-! ## Paths -/

/-- What may follow the first character of a path's first component. -/
def rests : Language Char :=
  {cs | isRest cs = true}

@[simp] theorem mem_rests {cs : List Char} : cs ∈ rests ↔ isRest cs = true := Iff.rfl

/-- The end of a path is its last character, or a character or a slash with the next one in front of
an end. -/
theorem rests_eq : rests = (other + slash * other) * rests + other := by
  ext cs
  rw [add_mul, mul_assoc, other, slash, Language.mem_add, Language.mem_add]
  cases cs with
  | nil => simp [isRest]
  | cons c cs =>
    cases cs with
    | nil => simp [isRest]
    | cons d cs =>
      by_cases hc : c = '/'
      · simp [isRest, hc]
      · simp [isRest, hc]

theorem restPattern_eq : restPattern = rests := by
  have hnil : [] ∉ other + slash * other := by simp [other, slash]
  exact ((Language.self_eq_mul_add_iff hnil).mp rests_eq).symm

theorem isPath_iff_mem {path : String} : isPath path = true ↔ path.toList ∈ pathPattern := by
  rw [pathPattern, restPattern_eq, slash, other, Language.mem_add]
  unfold isPath
  rcases path.toList with _ | ⟨a, _ | ⟨c, cs⟩⟩
  · simp
  · by_cases ha : a = '/' <;> simp [ha, Language.mem_one]
  · cases cs with
    | nil => by_cases ha : a = '/' <;> simp [ha, Language.mem_one, isRest]
    | cons d ds => by_cases ha : a = '/' <;> simp [ha, Language.mem_one]

/-- The rule for the path of a capture file: it is absolute, without an empty component or a
trailing slash. The root alone is such a path. -/
structure WellFormedPath (path : String) : Prop where
  absolute : path.toList.head? = some '/'
  noEmptyComponent : ¬ ['/', '/'] <:+: path.toList
  noTrailingSlash : path ≠ "/" → path.toList.getLast? ≠ some '/'

/-- The last of several components is a single character. -/
def EndsShort (path : String) : Prop :=
  ∃ front c, front ≠ [] ∧ path.toList = front ++ ['/', c]

theorem isRest_iff {cs : List Char} :
    isRest cs = true ↔
      cs ≠ [] ∧ ¬ ['/', '/'] <:+: cs ∧ cs.getLast? ≠ some '/' ∧ ∀ c, ¬ ['/', c] <:+ cs := by
  fun_induction isRest cs with
  | case1 => simp
  | case2 a => simp [List.infix_cons_iff, List.suffix_cons_iff]
  | case3 a cs ih =>
    by_cases ha : '/' = a
    · simp [← ha, List.infix_cons_iff]
    · have ha' : a ≠ '/' := Ne.symm ha
      cases cs <;> simp [List.infix_cons_iff, List.suffix_cons_iff, ih, ha, ha']
  | case4 a b cs ha ih =>
    have ha' : '/' ≠ a := Ne.symm ha
    simp [List.infix_cons_iff, List.suffix_cons_iff, ih, ha']

theorem wellFormedPath_iff {path : String} {cs : List Char} (h : path.toList = '/' :: cs) :
    WellFormedPath path ↔ ¬ ['/', '/'] <:+: '/' :: cs ∧ cs.getLast? ≠ some '/' := by
  have hroot : path = "/" ↔ cs = [] := by
    rw [← String.toList_inj, h]
    simp
  have hlast : (path ≠ "/" → path.toList.getLast? ≠ some '/') ↔ cs.getLast? ≠ some '/' := by
    rw [h, ne_eq, hroot]
    cases cs <;> simp
  constructor
  · rintro ⟨-, hempty, htrailing⟩
    exact ⟨h ▸ hempty, hlast.mp htrailing⟩
  · rintro ⟨hempty, htrailing⟩
    exact ⟨by simp [h], h ▸ hempty, hlast.mpr htrailing⟩

theorem endsShort_iff {path : String} {a : Char} {cs : List Char} (h : path.toList = a :: cs) :
    EndsShort path ↔ ∃ c, ['/', c] <:+ cs := by
  rw [EndsShort, h]
  constructor
  · rintro ⟨front, c, hne, heq⟩
    obtain ⟨b, front, rfl⟩ := List.exists_cons_of_ne_nil hne
    exact ⟨c, front, (List.cons.inj heq).2.symm⟩
  · rintro ⟨c, front, rfl⟩
    exact ⟨a :: front, c, by simp, rfl⟩

/-- Of the well-formed paths, those that end short are refused. -/
theorem isPath_iff {path : String} :
    isPath path = true ↔ WellFormedPath path ∧ ¬ EndsShort path := by
  by_cases habsolute : path.toList.head? = some '/'
  · obtain ⟨cs, h⟩ := List.head?_eq_some_iff.mp habsolute
    rw [wellFormedPath_iff h, endsShort_iff h, isPath, h]
    cases cs with
    | nil => simp [List.infix_cons_iff]
    | cons c cs =>
      by_cases hc : '/' = c
      · -- the path has an empty component at its start
        cases cs <;> simp [← hc, List.infix_cons_iff]
      · have hc' : c ≠ '/' := Ne.symm hc
        cases cs <;>
          simp [isRest_iff, List.infix_cons_iff, List.suffix_cons_iff, hc, hc', and_assoc]
  · have hrule : ¬ WellFormedPath path := fun h => habsolute h.absolute
    unfold isPath
    split <;> simp_all

end CaptureFilter.Capture
