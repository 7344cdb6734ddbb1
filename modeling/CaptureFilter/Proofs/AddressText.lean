import CaptureFilter.Address
import Mathlib.Data.List.TakeWhile

/-!
# The characters of address literals

Each reader of an address takes some characters off the front of the text, and all that any of them
takes are hexadecimal digits, colons and dots. An address is read to its end, so it holds no other
character.

Results:
* `Address.isLiteral_chars`: the characters of an address literal.
-/

namespace CaptureFilter.Address

/-- A character that some address holds. -/
def isAddressChar (c : Char) : Bool :=
  isHexDigit c || c == ':' || c == '.'

/-- `rest` is what is left of `cs` behind characters of addresses. -/
def Leaves (cs rest : List Char) : Prop :=
  ∃ front, cs = front ++ rest ∧ ∀ c ∈ front, isAddressChar c = true

theorem Leaves.refl (cs : List Char) : Leaves cs cs :=
  ⟨[], rfl, by simp⟩

theorem Leaves.trans {cs ds es : List Char} (h₁ : Leaves cs ds) (h₂ : Leaves ds es) :
    Leaves cs es := by
  obtain ⟨front₁, rfl, hf₁⟩ := h₁
  obtain ⟨front₂, rfl, hf₂⟩ := h₂
  refine ⟨front₁ ++ front₂, by rw [List.append_assoc], fun c hc => ?_⟩
  rcases List.mem_append.mp hc with hc | hc
  · exact hf₁ c hc
  · exact hf₂ c hc

/-! ## What each reader leaves -/

theorem isAddressChar_of_isHexDigit {c : Char} (h : isHexDigit c = true) :
    isAddressChar c = true := by
  simp [isAddressChar, h]

theorem isHexDigit_of_isDigit {c : Char} (h : c.isDigit = true) : isHexDigit c = true := by
  simp [isHexDigit, Text.hexDigit?, h]

/-- Taking all the characters in front of a class that addresses hold. -/
theorem leaves_dropWhile {p : Char → Bool} (hp : ∀ c, p c = true → isAddressChar c = true)
    (cs : List Char) : Leaves cs (cs.dropWhile p) :=
  ⟨cs.takeWhile p, List.takeWhile_append_dropWhile.symm,
    fun c hc => hp c (List.mem_takeWhile_imp hc)⟩

theorem leaves_octet {cs rest : List Char} (h : octet cs = some rest) : Leaves cs rest := by
  obtain ⟨-, rfl⟩ : _ ∧ cs.dropWhile Char.isDigit = rest := by
    simpa [octet] using h
  exact leaves_dropWhile (fun c hc => isAddressChar_of_isHexDigit (isHexDigit_of_isDigit hc)) cs

theorem leaves_group {cs rest : List Char} (h : group cs = some rest) : Leaves cs rest := by
  obtain ⟨-, rfl⟩ : _ ∧ cs.dropWhile isHexDigit = rest := by
    simpa [group] using h
  exact leaves_dropWhile (fun c hc => isAddressChar_of_isHexDigit hc) cs

theorem leaves_char {d : Char} (hd : isAddressChar d = true) {cs rest : List Char}
    (h : char d cs = some rest) : Leaves cs rest := by
  cases cs with
  | nil => simp [char] at h
  | cons c cs =>
    obtain ⟨rfl, rfl⟩ : c = d ∧ cs = rest := by
      simpa [char] using h
    exact ⟨[c], rfl, by simpa using hd⟩

theorem leaves_quad {cs rest : List Char} (h : quad cs = some rest) : Leaves cs rest := by
  have hdot : isAddressChar '.' = true := by decide
  simp only [quad, Option.bind_eq_bind, Option.bind_eq_some_iff] at h
  obtain ⟨c₁, h₁, d₁, e₁, c₂, h₂, d₂, e₂, c₃, h₃, d₃, e₃, h₄⟩ := h
  exact (leaves_octet h₁).trans <| (leaves_char hdot e₁).trans <|
    (leaves_octet h₂).trans <| (leaves_char hdot e₂).trans <|
    (leaves_octet h₃).trans <| (leaves_char hdot e₃).trans (leaves_octet h₄)

theorem leaves_inRow {part : List Char → Option (List Char)}
    (hpart : ∀ {cs rest}, part cs = some rest → Leaves cs rest) {start : Bool}
    {cs rest : List Char} (h : inRow start part cs = some rest) : Leaves cs rest := by
  cases start with
  | true => exact hpart h
  | false =>
    obtain ⟨ds, hcolon, hrest⟩ := Option.bind_eq_some_iff.mp h
    exact (leaves_char (by decide) hcolon).trans (hpart hrest)

theorem leaves_row (room : ℕ) (start : Bool) (cs : List Char) :
    Leaves cs (row room start cs).rest := by
  induction room generalizing start cs with
  | zero => exact .refl cs
  | succ room ih =>
    unfold row
    split
    · next rest h =>
      split_ifs at h
      exact leaves_inRow leaves_quad h
    · split
      · next rest h => exact (leaves_inRow leaves_group h).trans (ih false rest)
      · exact .refl cs

theorem leaves_ipv6 {cs rest : List Char} (h : ipv6 cs = some rest) : Leaves cs rest := by
  have hcolon : isAddressChar ':' = true := by decide
  have hfront := leaves_row 8 true cs
  simp only [ipv6] at h
  split_ifs at h with h8 hquad
  · obtain rfl := Option.some.inj h
    exact hfront
  · simp only [Option.bind_eq_bind, Option.bind_eq_some_iff] at h
    obtain ⟨ds, hd, es, he, h⟩ := h
    obtain rfl := Option.some.inj h
    exact hfront.trans <| (leaves_char hcolon hd).trans <| (leaves_char hcolon he).trans
      (leaves_row _ true es)

/-! ## Literals -/

theorem leaves_of_isLiteral {s : String} (h : isLiteral s = true) : Leaves s.toList [] := by
  unfold isLiteral at h
  split at h
  · next rest hread =>
    obtain rfl := List.isEmpty_iff.mp h
    rcases Option.or_eq_some_iff.mp hread with hq | ⟨-, hv⟩
    · exact leaves_quad hq
    · exact leaves_ipv6 hv
  · exact absurd h (by simp)

/-- An address literal holds hexadecimal digits, colons and dots only. -/
theorem isLiteral_chars {s : String} (h : isLiteral s = true) :
    ∀ c ∈ s.toList, isAddressChar c = true := by
  obtain ⟨front, hs, hfront⟩ := leaves_of_isLiteral h
  rw [hs, List.append_nil]
  exact hfront

end CaptureFilter.Address
