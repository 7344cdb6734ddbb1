import CaptureFilter.Proofs.JsonTexts
import CaptureFilter.Proofs.PortWords
import CaptureFilter.Recipe.Reading

/-!
# Forms of a port

A port may be given as a text of digits, as an integer of any width, or in JSON as either of the
two. A number in JSON is one without a sign, a fraction or an exponent.

Results:
* `Json.Value.ofText_numeral`: what the text of a numeral is read as.
* `Port.ofJson_eq_ok_iff`: the JSON texts that spell a port.
* `Port.forms_agree`: what all the forms of a port have in common.
-/

namespace CaptureFilter

/-! ## JSON -/

namespace Json

/-- The numeral of an integer. -/
def Numeral.ofInt (v : ℤ) : Numeral :=
  ⟨v < 0, v.natAbs, [], none⟩

theorem Numeral.text_ofInt (v : ℤ) : (ofInt v).text = toString v := by
  cases v with
  | ofNat n =>
    have htext : toString (Int.ofNat n) = toString n := rfl
    have hnonneg : ¬ Int.ofNat n < 0 := not_lt.mpr (Int.natCast_nonneg n)
    rw [htext, text, ofInt, decide_eq_false hnonneg]
    simp
  | negSucc n =>
    have htext : toString (Int.negSucc n) = "-" ++ toString (n + 1) := rfl
    have hnegative : Int.negSucc n < 0 := Int.negSucc_lt_zero n
    simp [text, ofInt, hnegative, htext]

theorem Numeral.ofInt_eq_ofNat_iff {v : ℤ} {k : ℕ} : ofInt v = ofNat k ↔ v = k := by
  simp only [ofInt, ofNat, mk.injEq, decide_eq_false_iff_not, and_true]
  omega

/-- A natural number is written by one numeral alone. -/
theorem Numeral.integer?_eq_some_natCast_iff {n : Numeral} {k : ℕ} :
    n.integer? = some (k : ℤ) ↔ n = ofNat k ∧ k < 0x10000000000000000 := by
  obtain ⟨negative, whole, fraction, exponent⟩ := n
  unfold integer? ofNat
  cases negative with
  | false =>
    simp only [Bool.false_eq_true, if_false]
    split_ifs with hplain hfits
    · obtain ⟨rfl, rfl⟩ := hplain
      simp
      omega
    · obtain ⟨rfl, rfl⟩ := hplain
      simp
      omega
    · simp_all
  | true =>
    simp only [if_true]
    split_ifs with hplain hfits <;> simp
    omega

/-- The text of a numeral has that numeral as its value, unless it is too large. -/
theorem Value.ofText_numeral {n : Numeral} (h : n.IsSpelled) :
    ofText n.text = if n.inRange then .ok (.number n) else .error malformed := by
  have houtline : Json.outline n.text = (.number n, false) := by
    rw [Json.outline, tokens_eq_of_lexes (Lexer.lexes_numeral h)]
    rfl
  rw [ofText, readText, houtline]
  show (Outline.value maxDepth (.number n)).bind _ = _
  rw [Outline.value]
  cases n.inRange <;> rfl

end Json

namespace Port

open Json (Value Numeral readText_eq_ok_iff)

/-- The JSON values that spell a port: its number without a sign, a fraction or an exponent, and
every text of digits with that value. -/
def SpelledBy (p : Port) (v : Value) : Prop :=
  v = .number (.ofNat p.number) ∨
    ∃ s, v = .string s ∧ s ≠ "" ∧ (∀ c ∈ s.toList, c.isDigit = true) ∧ Text.value s = p.number

theorem spelledBy_number_iff {p : Port} {n : Numeral} :
    p.SpelledBy (.number n) ↔ n.integer? = some (p.number : ℤ) := by
  have hbound : p.number ≤ 65535 := p.le_max
  rw [Numeral.integer?_eq_some_natCast_iff, SpelledBy, and_iff_left (by omega)]
  simp

theorem ofHead_eq_ok_iff {v : Value} {p : Port} : ofHead v.head = .ok p ↔ p.SpelledBy v := by
  cases v with
  | number n =>
    rw [spelledBy_number_iff, Value.head, ofHead]
    cases n.integer? with
    | none => simp
    | some i =>
      simp only [Option.some_inj]
      split_ifs with hsmall
      · rw [mapError_eq_ok_iff, ofInt_eq_ok_iff]
      · have hbound : p.number ≤ 65535 := p.le_max
        simp only [false_iff]
        omega
  | string s =>
    rw [Value.head, ofHead, mapError_eq_ok_iff, ofText_eq_ok_iff]
    simp [SpelledBy]
  | null | bool | array | object => simp [Value.head, ofHead, SpelledBy]

theorem ofJson_eq_ok_iff {s : String} {p : Port} :
    ofJson s = .ok p ↔ ∃ v, Value.ofText s = .ok v ∧ p.SpelledBy v := by
  simp only [ofJson, Value.ofText, readText_eq_ok_iff, bind_eq_ok_iff, mapError_eq_ok_iff,
    ofHead_eq_ok_iff]
  tauto

theorem ofJson_toString {v : ℤ} {p : Port} : ofJson (toString v) = .ok p ↔ v = p.number := by
  have hspelled : (Numeral.ofInt v).IsSpelled := by simp [Numeral.IsSpelled, Numeral.ofInt]
  rw [ofJson_eq_ok_iff, ← Numeral.text_ofInt, Json.Value.ofText_numeral hspelled]
  constructor
  · rintro ⟨w, hw, hport⟩
    split_ifs at hw
    cases hw
    simpa [SpelledBy, Numeral.ofInt_eq_ofNat_iff] using hport
  · intro hv
    have hbound : p.number ≤ 65535 := p.le_max
    have hnumeral : Numeral.ofInt v = .ofNat p.number := Numeral.ofInt_eq_ofNat_iff.mpr hv
    have hrange : (Numeral.ofNat p.number).inRange = true := by
      rw [Numeral.inRange, Numeral.integer?_of_whole (by omega)]
      rfl
    rw [hnumeral, if_pos hrange]
    exact ⟨_, rfl, .inl rfl⟩

theorem ofJson_string {s : String} {p : Port} :
    ofJson (Value.string s).compact = .ok p ↔ ofText s = .ok p := by
  rw [ofJson_eq_ok_iff, Json.Value.ofText_compact (.string s), ofText_eq_ok_iff]
  simp [SpelledBy]

/-! ## All forms together -/

/-- All forms of a port agree, and no work in words goes wrong. A text is a port just when it is
made of digits for a number in range, however many zeros lead it; the check answers so, and so does
the reading, which gives the port of that number. In words it is the same: the check with 64 bits
and the reading with 16 give the same, and the second never fails behind the first. A port is read
back from its text. The integers of all types are ports by the same rule, in words and without a
bound, and give what their decimal texts give. What is no port is rejected with the text as given,
or with the decimal text of the integer. The JSON texts of a port are its number and the strings
that are read as it. -/
theorem forms_agree :
    (∀ s : String,
      (∀ p, ofText s = .ok p ↔
        s ≠ "" ∧ (∀ c ∈ s.toList, c.isDigit = true) ∧ Text.value s = p.number) ∧
      (isText s = true ↔
        s ≠ "" ∧ (∀ c ∈ s.toList, c.isDigit = true) ∧ Text.value s ≤ 65535) ∧
      ((isText s = true ∧ ∃ p, ofText s = .ok p) ∨
        (isText s = false ∧ ofText s = .error (.port s))) ∧
      Bits.isPort s = isText s ∧
      (Bits.portOfText s).map BitVec.toNat = (ofText s).map number ∧
      ¬ (Bits.isPort s = true ∧ Bits.read 16 s = none)) ∧
    (∀ p : Port, ofText p.text = .ok p) ∧
    (∀ (t : Bits.IntType) (x : BitVec t.bits),
      (∀ p, ofInt (t.value x) = .ok p ↔ t.value x = p.number) ∧
      (((0 ≤ t.value x ∧ t.value x ≤ 65535) ∧ ∃ p, ofInt (t.value x) = .ok p) ∨
        (¬ (0 ≤ t.value x ∧ t.value x ≤ 65535) ∧
          ofInt (t.value x) = .error (.port (toString (t.value x))))) ∧
      ofInt (t.value x) = ofText (toString (t.value x)) ∧
      (Bits.portOfInt t x).map BitVec.toNat = (ofInt (t.value x)).map number) ∧
    (∀ (s : String) (p : Port),
      (ofJson s = .ok p ↔ ∃ v, Value.ofText s = .ok v ∧ p.SpelledBy v) ∧
      (ofJson (Value.string s).compact = .ok p ↔ ofText s = .ok p)) ∧
    (∀ (v : ℤ) (p : Port), ofJson (toString v) = .ok p ↔ v = p.number) := by
  refine ⟨fun s => ⟨fun p => ofText_eq_ok_iff, isText_iff, ofText_cases s, Bits.isPort_eq s,
    Bits.portOfText_eq s, ?_⟩, ofText_text, fun t x => ⟨fun p => ofInt_eq_ok_iff,
    ofInt_cases _, ofInt_eq_ofText _, Bits.portOfInt_eq t x⟩,
    fun s p => ⟨ofJson_eq_ok_iff, ofJson_string⟩, fun v p => ofJson_toString⟩
  rintro ⟨hport, hnone⟩
  obtain ⟨n, hread, -⟩ := Bits.exists_read_of_isPort hport
  rw [hnone] at hread
  cases hread

end Port

end CaptureFilter
