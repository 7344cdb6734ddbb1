import CaptureFilter.Port
import Mathlib.Control.Monad.Basic
import Mathlib.Data.List.Induction
import Mathlib.Data.Nat.Digits.Defs

/-!
# Ports in words

Ports are read here by numbers without a bound. A program that reads them with the words of a
machine checks a text with a number of 64 bits, reads it again with one of 16 bits, and brings every
integer to 64 bits with a sign before its range is looked at; each product, sum and conversion can
leave the range of its word, and then the reading fails.

Here the work in words is written down beside the work without a bound. The two give the same ports
and the same rejections, for texts of any length and integers of all widths.

Results:
* `Port.ofText_eq_ok_iff`, `Port.ofInt_eq_ok_iff`: the texts and the integers of a port.
* `Bits.foldlM_pushDigit_eq_some_iff`: the digits of a text, read into a word.
* `Bits.isPort_eq`, `Bits.portOfText_eq`, `Bits.portOfInt_eq`: the two accounts agree.
-/

namespace CaptureFilter

/-! ## The value of a text -/

namespace Text

/-- The number that a text of digits stands for: each digit times its power of ten. -/
def value (s : String) : ℕ :=
  Nat.ofDigits 10 (s.toList.reverse.map digitValue)

theorem decimal_eq_value (s : String) : decimal s.toList = value s := by
  have h (ds : List Char) : decimal ds = Nat.ofDigits 10 (ds.reverse.map digitValue) := by
    induction ds using List.reverseRecOn with
    | nil => rfl
    | append_singleton ds d ih =>
      rw [decimal_append_singleton, ih, List.reverse_concat, List.map_cons, Nat.ofDigits_cons,
        Nat.add_comm]
  exact h s.toList

theorem decimal?_toString (n : ℕ) : decimal? (toString n) = some n := by
  have hne : toString n ≠ "" := by
    intro h
    have hnil : Nat.toDigits 10 n = [] := by rw [← toList_toString, h, String.toList_empty]
    exact Nat.toDigits_ne_nil hnil
  refine decimal?_eq_some_iff.mpr
    ⟨isDigits_iff.mpr ⟨hne, fun c hc => isDigit_of_mem_toString hc⟩, ?_⟩
  rw [toList_toString]
  exact Nat.ofDigitChars_ten_toDigits

end Text

/-! ## Work without a bound -/

namespace Port

theorem isText_iff {s : String} :
    isText s = true ↔
      s ≠ "" ∧ (∀ c ∈ s.toList, c.isDigit = true) ∧ Text.value s ≤ maxPort := by
  rw [isText, Bool.and_eq_true, decide_eq_true_eq, Text.isDigits_iff, Text.decimal_eq_value,
    and_assoc]

/-- A text is a port just when it is made of digits, and is then the one of its number. -/
theorem ofText_eq_ok_iff {s : String} {p : Port} :
    ofText s = .ok p ↔
      s ≠ "" ∧ (∀ c ∈ s.toList, c.isDigit = true) ∧ Text.value s = p.number := by
  have hbound := p.le_max
  rw [ofText, Text.decimal?, ← Text.decimal_eq_value, ← and_assoc, ← Text.isDigits_iff]
  cases Text.isDigits s with
  | false => simp
  | true =>
    by_cases h : Text.decimal s.toList ≤ maxPort
    · obtain ⟨n, hn⟩ := p
      simp [ofNat?, h]
    · simp [ofNat?, h]
      omega

theorem ofText_cases (s : String) :
    (isText s = true ∧ ∃ p, ofText s = .ok p) ∨
      (isText s = false ∧ ofText s = .error (.port s)) := by
  rw [isText_eq, ofText]
  cases (Text.decimal? s).bind ofNat? with
  | none => exact .inr ⟨rfl, rfl⟩
  | some p => exact .inl ⟨rfl, p, rfl⟩

theorem ofInt_eq_ok_iff {v : ℤ} {p : Port} : ofInt v = .ok p ↔ v = p.number := by
  have hbound := p.le_max
  cases v with
  | ofNat n =>
    by_cases h : n ≤ maxPort
    · obtain ⟨m, hm⟩ := p
      simp [ofInt, ofNat?, h]
    · simp [ofInt, ofNat?, h]
      omega
  | negSucc n => simp [ofInt]

/-- An integer gives what its decimal text gives. -/
theorem ofInt_eq_ofText (v : ℤ) : ofInt v = ofText (toString v) := by
  cases v with
  | ofNat n =>
    have htext : toString (Int.ofNat n) = toString n := rfl
    rw [ofInt, htext, ofText, Text.decimal?_toString, Option.bind_some]
  | negSucc n =>
    rcases ofText_cases (toString (Int.negSucc n)) with ⟨htext, -⟩ | ⟨-, herror⟩
    · -- the text starts with a sign, which is no digit
      have hsign : '-' ∈ (toString (Int.negSucc n)).toList := by
        show '-' ∈ ("-" ++ Nat.repr (n + 1)).toList
        rw [String.toList_append]
        exact List.mem_append_left _ (by decide)
      exact absurd ((isText_iff.mp htext).2.1 '-' hsign) (by decide)
    · rw [herror, ofInt]

theorem ofInt_cases (v : ℤ) :
    ((0 ≤ v ∧ v ≤ 65535) ∧ ∃ p, ofInt v = .ok p) ∨
      (¬ (0 ≤ v ∧ v ≤ 65535) ∧ ofInt v = .error (.port (toString v))) := by
  by_cases h : 0 ≤ v ∧ v ≤ 65535
  · have hnumber : v = (v.toNat : ℤ) := (Int.toNat_of_nonneg h.1).symm
    have hmax : v.toNat ≤ 65535 := by omega
    exact .inl ⟨h, ⟨v.toNat, hmax⟩, ofInt_eq_ok_iff.mpr hnumber⟩
  · refine .inr ⟨h, ?_⟩
    rcases ofText_cases (toString v) with ⟨-, p, hp⟩ | ⟨-, herror⟩
    · have hbound : p.number ≤ 65535 := p.le_max
      rw [← ofInt_eq_ofText, ofInt_eq_ok_iff] at hp
      omega
    · rw [ofInt_eq_ofText, herror]

theorem ofText_text (p : Port) : ofText p.text = .ok p := by
  have h := ofInt_eq_ofText p.number
  rw [ofInt_eq_ok_iff.mpr rfl] at h
  exact h.symm

end Port

/-! ## Work in words -/

namespace Bits

open Text (digit? digitValue)

/-- One more digit behind a number of `w` bits. It fails where the product or the sum leaves the
word. -/
def pushDigit {w : ℕ} (n : BitVec w) (d : ℕ) : Option (BitVec w) :=
  if n.umulOverflow 10#w then none
  else if (n * 10#w).uaddOverflow (BitVec.ofNat w d) then none
  else some (n * 10#w + BitVec.ofNat w d)

/-- The number of `w` bits that a text spells, with or without a plus sign in front. -/
def read (w : ℕ) (s : String) : Option (BitVec w) :=
  let ds := if s.toList.head? = some '+' then s.toList.tail else s.toList
  if ds = [] then none else ds.foldlM (fun n c => (digit? c).bind (pushDigit n)) 0#w

/-- The check of a port that is given as a text: digits only, for a number of 64 bits in range. -/
def isPort (s : String) : Bool :=
  s ≠ "" && s.toList.all Char.isDigit && (read 64 s).any (· ≤ 65535#64)

/-- The port of a text: checked with 64 bits, and read again with 16. -/
def portOfText (s : String) : Except Rejection (BitVec 16) :=
  if isPort s then (read 16 s).elim (.error (.port s)) .ok else .error (.port s)

/-- The integer types. A size has 64 bits. -/
inductive IntType where
  | u8
  | u16
  | u32
  | u64
  | usize
  | i8
  | i16
  | i32
  | i64
deriving DecidableEq

namespace IntType

/-- How many bits a type has. -/
def bits : IntType → ℕ
  | u8 | i8 => 8
  | u16 | i16 => 16
  | u32 | i32 => 32
  | u64 | usize | i64 => 64

/-- Whether the first bit of a type is a sign. -/
def isSigned : IntType → Bool
  | u8 | u16 | u32 | u64 | usize => false
  | i8 | i16 | i32 | i64 => true

/-- The integer that a word stands for. -/
def value (t : IntType) (x : BitVec t.bits) : ℤ :=
  if t.isSigned then x.toInt else x.toNat

/-- Whether a type has a word for an integer. -/
def Holds (t : IntType) (n : ℤ) : Prop :=
  if t.isSigned then -2 ^ (t.bits - 1) ≤ n ∧ n < 2 ^ (t.bits - 1) else 0 ≤ n ∧ n < 2 ^ t.bits

instance (t : IntType) (n : ℤ) : Decidable (t.Holds n) := by
  unfold Holds
  infer_instance

/-- The word of another type for the same integer. -/
def convert? (t u : IntType) (x : BitVec t.bits) : Option (BitVec u.bits) :=
  if u.Holds (t.value x) then some (BitVec.ofInt u.bits (t.value x)) else none

end IntType

/-- The check of a port that is given as an integer of 64 bits with a sign. -/
def isPortNumber (n : BitVec IntType.i64.bits) : Bool :=
  BitVec.sle 0 n && BitVec.sle n 65535

/-- The port of an integer: brought to 64 bits with a sign, checked, and brought to 16 bits. -/
def portOfInt (t : IntType) (x : BitVec t.bits) : Except Rejection (BitVec IntType.u16.bits) :=
  (((t.convert? .i64 x).filter isPortNumber).bind (IntType.i64.convert? .u16)).elim
    (.error (.port (toString (t.value x)))) .ok

/-! ## Texts -/

theorem pushDigit_eq_some_iff {w : ℕ} (hw : 10 < 2 ^ w) {n m : BitVec w} {d : ℕ} (hd : d < 10) :
    pushDigit n d = some m ↔ 10 * n.toNat + d = m.toNat := by
  have hten : (10#w).toNat = 10 := by simpa using Nat.mod_eq_of_lt hw
  have hdigit : (BitVec.ofNat w d).toNat = d := by simpa using Nat.mod_eq_of_lt (by omega)
  have hm := m.isLt
  unfold pushDigit
  split_ifs with hmul hadd
  · simp only [BitVec.umulOverflow, hten, decide_eq_true_eq] at hmul
    simp only [false_iff]
    omega
  · simp only [BitVec.uaddOverflow, hdigit, decide_eq_true_eq,
      BitVec.toNat_mul_of_not_umulOverflow hmul, hten] at hadd
    simp only [false_iff]
    omega
  · rw [Option.some_inj, ← BitVec.toNat_inj, BitVec.toNat_add_of_not_uaddOverflow hadd,
      BitVec.toNat_mul_of_not_umulOverflow hmul, hten, hdigit, Nat.mul_comm]

/-- The number that was read before is not larger than the one with more digits behind it. -/
theorem le_foldl_digits (cs : List Char) (n : ℕ) :
    n ≤ cs.foldl (fun n c => 10 * n + digitValue c) n := by
  induction cs generalizing n with
  | nil => exact le_rfl
  | cons c cs ih => exact le_trans (by omega) (ih (10 * n + digitValue c))

/-- Digits are read into a word just when the number with all of them fits, however many lead it
with zeros. -/
theorem foldlM_pushDigit_eq_some_iff {w : ℕ} (hw : 10 < 2 ^ w) {cs : List Char}
    (h : ∀ c ∈ cs, c.isDigit = true) {n m : BitVec w} :
    cs.foldlM (fun n c => (digit? c).bind (pushDigit n)) n = some m ↔
      cs.foldl (fun n c => 10 * n + digitValue c) n.toNat = m.toNat := by
  induction cs generalizing n with
  | nil => simp [BitVec.toNat_inj]
  | cons c cs ih =>
    rw [List.forall_mem_cons] at h
    have hdigit : digit? c = some (digitValue c) := by simp [digit?, h.1]
    have hlt : digitValue c < 10 := (Text.toNat_of_isDigit h.1).2
    rw [List.foldlM_cons, List.foldl_cons, hdigit, Option.bind_some, Option.bind_eq_bind,
      Option.bind_eq_some_iff]
    constructor
    · rintro ⟨k, hk, hrest⟩
      rw [pushDigit_eq_some_iff hw hlt] at hk
      rw [hk]
      exact (ih h.2).mp hrest
    · intro hm
      -- every number on the way is at most the last one, so none leaves the word
      have hle := le_foldl_digits cs (10 * n.toNat + digitValue c)
      have hfits : (BitVec.ofNat w (10 * n.toNat + digitValue c)).toNat =
          10 * n.toNat + digitValue c := by
        have hlt := m.isLt
        rw [BitVec.toNat_ofNat, Nat.mod_eq_of_lt (by omega)]
      refine ⟨BitVec.ofNat w (10 * n.toNat + digitValue c), ?_, (ih h.2).mpr (by rw [hfits, hm])⟩
      rw [pushDigit_eq_some_iff hw hlt, hfits]

theorem read_eq_some_iff {w : ℕ} (hw : 10 < 2 ^ w) {s : String} (hs : Text.isDigits s = true)
    {m : BitVec w} : read w s = some m ↔ Text.value s = m.toNat := by
  obtain ⟨hne, hdigits⟩ := Text.isDigits_iff.mp hs
  have hsign : s.toList.head? ≠ some '+' := by
    intro h
    exact absurd (hdigits '+' (List.mem_of_head? h)) (by decide)
  have hnil : s.toList ≠ [] := by simpa using hne
  rw [read, if_neg hsign, if_neg hnil, foldlM_pushDigit_eq_some_iff hw hdigits,
    ← Text.decimal_eq_value]
  simp [Text.decimal]

/-- The check with a number of 64 bits answers as the one without a bound. -/
theorem isPort_eq (s : String) : isPort s = Port.isText s := by
  have hdigits : (s ≠ "" && s.toList.all Char.isDigit) = Text.isDigits s := by
    rw [Bool.eq_iff_iff, Text.isDigits_iff]
    simp
  rw [isPort, hdigits, Port.isText]
  cases hs : Text.isDigits s with
  | false => rfl
  | true =>
    rw [Bool.true_and, Bool.true_and, Text.decimal_eq_value]
    cases hread : read 64 s with
    | some n =>
      have hn := (read_eq_some_iff (by decide) hs).mp hread
      simp [hn, BitVec.le_def, maxPort]
    | none =>
      have hlarge : ¬ Text.value s ≤ maxPort := by
        intro hle
        have hfits : Text.value s = (BitVec.ofNat 64 (Text.value s)).toNat := by
          rw [BitVec.toNat_ofNat, Nat.mod_eq_of_lt (lt_of_le_of_lt hle (by decide))]
        rw [(read_eq_some_iff (by decide) hs).mpr hfits] at hread
        cases hread
      simp [hlarge]

/-- A text that passes the check with 64 bits is read with 16 bits. -/
theorem exists_read_of_isPort {s : String} (h : isPort s = true) :
    ∃ n : BitVec 16, read 16 s = some n ∧ Text.value s = n.toNat := by
  rw [isPort_eq, Port.isText, Bool.and_eq_true, decide_eq_true_eq, Text.decimal_eq_value] at h
  have hfits : Text.value s = (BitVec.ofNat 16 (Text.value s)).toNat := by
    rw [BitVec.toNat_ofNat, Nat.mod_eq_of_lt (lt_of_le_of_lt h.2 (by decide))]
  exact ⟨_, (read_eq_some_iff (by decide) h.1).mpr hfits, hfits⟩

/-- The port of a text, read with 16 bits, is the one that is read without a bound. -/
theorem portOfText_eq (s : String) :
    (portOfText s).map BitVec.toNat = (Port.ofText s).map Port.number := by
  cases h : isPort s with
  | false =>
    rw [isPort_eq] at h
    rcases Port.ofText_cases s with ⟨hport, -⟩ | ⟨-, herror⟩
    · rw [h] at hport
      cases hport
    · rw [portOfText, isPort_eq, h, herror]
      rfl
  | true =>
    obtain ⟨n, hread, hn⟩ := exists_read_of_isPort h
    obtain ⟨hne, hdigits, hle⟩ := Port.isText_iff.mp (isPort_eq s ▸ h)
    have hok : Port.ofText s = .ok ⟨Text.value s, hle⟩ :=
      Port.ofText_eq_ok_iff.mpr ⟨hne, hdigits, rfl⟩
    rw [portOfText, h, if_pos rfl, hread, hok]
    exact congrArg Except.ok hn.symm

/-! ## Integers -/

/-- A type gives back the integer of which it holds a word. -/
theorem IntType.value_ofInt {t : IntType} {n : ℤ} (h : t.Holds n) :
    t.value (BitVec.ofInt t.bits n) = n := by
  have hbits : 0 < t.bits := by cases t <;> decide
  unfold Holds at h
  unfold value
  split_ifs at h ⊢ with hsigned
  · exact BitVec.toInt_ofInt_eq_self hbits h.1 h.2
  · rw [BitVec.toNat_ofInt, Int.emod_eq_of_lt h.1 (by exact_mod_cast h.2), Int.toNat_of_nonneg h.1]

theorem IntType.holds_value (t : IntType) (x : BitVec t.bits) : t.Holds (t.value x) := by
  unfold Holds value
  split_ifs with hsigned
  · exact ⟨BitVec.le_toInt x, BitVec.toInt_lt⟩
  · have hlt := x.isLt
    exact ⟨by omega, by exact_mod_cast hlt⟩

theorem IntType.ofInt_value (t : IntType) (x : BitVec t.bits) :
    BitVec.ofInt t.bits (t.value x) = x := by
  unfold value
  split_ifs with hsigned
  · exact BitVec.ofInt_toInt
  · rw [BitVec.ofInt_natCast, BitVec.ofNat_toNat, BitVec.setWidth_eq]

/-- A conversion finds the word of the same integer, if there is one. -/
theorem IntType.convert?_eq_some_iff {t u : IntType} {x : BitVec t.bits} {y : BitVec u.bits} :
    t.convert? u x = some y ↔ u.value y = t.value x := by
  unfold convert?
  split_ifs with h
  · rw [Option.some_inj]
    constructor
    · rintro rfl
      exact value_ofInt h
    · intro hvalue
      rw [← hvalue, ofInt_value]
  · simp only [false_iff]
    intro hvalue
    exact h (hvalue ▸ u.holds_value y)

theorem isPortNumber_iff {n : BitVec IntType.i64.bits} :
    isPortNumber n = true ↔ 0 ≤ IntType.i64.value n ∧ IntType.i64.value n ≤ 65535 := by
  rw [isPortNumber, Bool.and_eq_true, BitVec.sle_iff_toInt_le, BitVec.sle_iff_toInt_le]
  rfl

/-- Both conversions of an integer give a word of 16 bits just when it is the number of that. -/
theorem bind_convert?_eq_some_iff {t : IntType} {x : BitVec t.bits}
    {y : BitVec IntType.u16.bits} :
    ((t.convert? .i64 x).filter isPortNumber).bind (IntType.i64.convert? .u16) = some y ↔
      t.value x = IntType.u16.value y := by
  rw [Option.bind_eq_some_iff]
  constructor
  · rintro ⟨n, hn, hy⟩
    rw [Option.filter_eq_some_iff, IntType.convert?_eq_some_iff] at hn
    rw [IntType.convert?_eq_some_iff] at hy
    rw [← hn.1, hy]
  · intro hvalue
    obtain ⟨hlow, hhigh⟩ : 0 ≤ IntType.u16.value y ∧ IntType.u16.value y < 2 ^ 16 :=
      IntType.holds_value .u16 y
    have hholds : IntType.i64.Holds (t.value x) := by
      show -2 ^ 63 ≤ t.value x ∧ t.value x < 2 ^ 63
      omega
    have hn := IntType.value_ofInt hholds
    refine ⟨BitVec.ofInt IntType.i64.bits (t.value x), ?_, ?_⟩
    · rw [Option.filter_eq_some_iff, IntType.convert?_eq_some_iff, isPortNumber_iff, hn]
      exact ⟨rfl, by omega, by omega⟩
    · rw [IntType.convert?_eq_some_iff, hn, hvalue]

/-- The port of an integer, brought to 64 bits and to 16, is the one of the integer itself. -/
theorem portOfInt_eq (t : IntType) (x : BitVec t.bits) :
    (portOfInt t x).map BitVec.toNat = (Port.ofInt (t.value x)).map Port.number := by
  rw [portOfInt]
  cases hwords : ((t.convert? .i64 x).filter isPortNumber).bind (IntType.i64.convert? .u16) with
  | some y =>
    have hvalue := bind_convert?_eq_some_iff.mp hwords
    have hok : Port.ofInt (t.value x) = .ok ⟨y.toNat, Nat.le_of_lt_succ y.isLt⟩ :=
      Port.ofInt_eq_ok_iff.mpr hvalue
    rw [hok]
    rfl
  | none =>
    rcases Port.ofInt_cases (t.value x) with ⟨hrange, -⟩ | ⟨-, herror⟩
    · have hholds : IntType.u16.Holds (t.value x) := by
        show 0 ≤ t.value x ∧ t.value x < 2 ^ 16
        omega
      rw [bind_convert?_eq_some_iff.mpr (IntType.value_ofInt hholds).symm] at hwords
      cases hwords
    · rw [herror]
      rfl

end Bits

end CaptureFilter
