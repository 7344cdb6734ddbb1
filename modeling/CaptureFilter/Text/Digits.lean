/-!
# Decimal digits

A digit text is one or more of the ASCII digits and nothing else. It may be of any length and start
with zeros. The hexadecimal digits have letters of either case.

Results:
* `isDigits_iff`: which texts are digit texts.
* `toNat_of_isDigit`: the code of a digit and its value.
* `toList_toString`, `isDigit_of_mem_toString`: the characters of a written number.
* `decimal_append_singleton`: one more digit at the end multiplies the number by ten and adds the
  digit.
* `decimal?_eq_some_iff`: which texts have a number, and which one.
-/

namespace CaptureFilter.Text

/-- One or more ASCII digits and nothing else. -/
def isDigits (s : String) : Bool :=
  !s.toList.isEmpty && s.toList.all Char.isDigit

theorem isDigits_iff {s : String} :
    isDigits s = true ↔ s ≠ "" ∧ ∀ c ∈ s.toList, c.isDigit = true := by
  rw [isDigits, Bool.and_eq_true, List.all_eq_true]
  simp

/-- The number that a decimal digit stands for. -/
def digitValue (c : Char) : Nat :=
  c.toNat - '0'.toNat

theorem toNat_of_isDigit {c : Char} (h : c.isDigit = true) :
    c.toNat = 48 + digitValue c ∧ digitValue c < 10 := by
  have hlow : 48 ≤ c.toNat := (Char.isDigit_iff_toNat.mp h).1
  have hhigh : c.toNat ≤ 57 := (Char.isDigit_iff_toNat.mp h).2
  have hvalue : digitValue c = c.toNat - 48 := rfl
  omega

/-- A written number is its digits. -/
theorem toList_toString (n : Nat) : (toString n).toList = Nat.toDigits 10 n := by
  rw [Nat.toString_eq_repr, Nat.toList_repr]

theorem isDigit_of_mem_toString {n : Nat} {c : Char} (h : c ∈ (toString n).toList) :
    c.isDigit = true := by
  rw [toList_toString] at h
  exact Nat.isDigit_of_mem_toDigits (by decide) (by decide) h

/-- The number of a character that is a decimal digit. -/
def digit? (c : Char) : Option Nat :=
  if c.isDigit then some (digitValue c) else none

/-- The number of a character that is a hexadecimal digit. -/
def hexDigit? (c : Char) : Option Nat :=
  if c.isDigit then some (digitValue c)
  else if 'a' ≤ c && c ≤ 'f' then some (c.toNat - 'a'.toNat + 10)
  else if 'A' ≤ c && c ≤ 'F' then some (c.toNat - 'A'.toNat + 10)
  else none

/-- The number that a row of digits stands for, the most significant one first. -/
def decimal (ds : List Char) : Nat :=
  ds.foldl (fun n d => 10 * n + digitValue d) 0

@[simp] theorem decimal_nil : decimal [] = 0 := rfl

theorem decimal_append_singleton (ds : List Char) (d : Char) :
    decimal (ds ++ [d]) = 10 * decimal ds + digitValue d := by
  simp [decimal]

/-- The number that a digit text stands for. -/
def decimal? (s : String) : Option Nat :=
  if isDigits s then some (decimal s.toList) else none

theorem decimal?_eq_some_iff {s : String} {n : Nat} :
    decimal? s = some n ↔ isDigits s = true ∧ decimal s.toList = n := by
  simp only [decimal?]
  split <;> simp_all

end CaptureFilter.Text
