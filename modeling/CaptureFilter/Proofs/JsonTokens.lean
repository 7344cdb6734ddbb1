import CaptureFilter.Json.Token
import CaptureFilter.Json.Value
import Mathlib.Data.List.Forall2
import Mathlib.Tactic.IntervalCases
import Mathlib.Tactic.SplitIfs

/-!
# The tokens of a written value

Every JSON value is a row of tokens, and its text without blanks is cut back into that row. A number
has no mark of its own behind it: the machine that cuts the text only knows that it has ended when a
character comes that no number goes on with, so what the machine holds is compared after an open
number has been ended.

Results:
* `Lexer.lexes_stringText`, `Lexer.lexes_numeral`: a written string or numeral is one token.
* `Value.lexes_compact`: the text of a value is cut into its tokens.
-/

namespace CaptureFilter.Json

open CaptureFilter.Text (digit? digitValue hexDigit?)

/-! ## Values and their tokens -/

/-- A numeral whose digits behind the point are decimal digits. -/
def Numeral.IsSpelled (n : Numeral) : Prop := ∀ d ∈ n.fraction, d < 10

/-- A value that a reader with room for so many containers one in another can take: its numbers are
spelled with decimal digits and are in range. -/
inductive Value.Readable : ℕ → Value → Prop
  | null {room : ℕ} : Readable room .null
  | bool {room : ℕ} (b : Bool) : Readable room (.bool b)
  | number {room : ℕ} {n : Numeral} (hspelled : n.IsSpelled) (hrange : n.inRange = true) :
      Readable room (.number n)
  | string {room : ℕ} (s : String) : Readable room (.string s)
  | array {room : ℕ} {items : List Value} (h : ∀ v ∈ items, Readable room v) :
      Readable (room + 1) (.array items)
  | object {room : ℕ} {members : List (String × Value)} (h : ∀ m ∈ members, Readable room m.2) :
      Readable (room + 1) (.object members)

namespace Value

mutual

/-- The tokens that spell a value. -/
def tokens : Value → List Token
  | null => [.null]
  | bool b => [.bool b]
  | number n => [.number n]
  | string s => [.string (some s)]
  | array items => .beginArray :: ([Token.comma].intercalate (tokensItems items) ++ [.endArray])
  | object members =>
    .beginObject :: ([Token.comma].intercalate (tokensMembers members) ++ [.endObject])

/-- The tokens of each element of an array. -/
def tokensItems : List Value → List (List Token)
  | [] => []
  | v :: vs => v.tokens :: tokensItems vs

/-- The tokens of each member of an object. -/
def tokensMembers : List (String × Value) → List (List Token)
  | [] => []
  | (k, v) :: ms => (.string (some k) :: .colon :: v.tokens) :: tokensMembers ms

end

theorem tokensItems_eq_map (vs : List Value) : tokensItems vs = vs.map tokens := by
  induction vs with
  | nil => rfl
  | cons v vs ih => simp [tokensItems, ih]

/-- The tokens of a member of an object. -/
def memberTokens (m : String × Value) : List Token :=
  .string (some m.1) :: .colon :: m.2.tokens

theorem tokensMembers_eq_map (ms : List (String × Value)) :
    tokensMembers ms = ms.map memberTokens := by
  induction ms with
  | nil => rfl
  | cons m ms ih => simp [tokensMembers, memberTokens, ih]

theorem tokens_array (vs : List Value) :
    (array vs).tokens =
      .beginArray :: ([Token.comma].intercalate (vs.map tokens) ++ [.endArray]) := by
  simp [tokens, tokensItems_eq_map]

theorem tokens_object (ms : List (String × Value)) :
    (object ms).tokens =
      .beginObject :: ([Token.comma].intercalate (ms.map memberTokens) ++ [.endObject]) := by
  simp [tokens, tokensMembers_eq_map]

end Value

/-! ## Cutting a text in pieces -/

namespace Lexer

/-- The machine with an open number ended. -/
def settle (l : Lexer) : Lexer :=
  match l.mode with
  | .number d =>
    match d.numeral? with
    | some n => ⟨.between, .number n :: l.done⟩
    | none => l
  | _ => l

/-- Whether no number goes on with a character. -/
def endsNumber (c : Char) : Bool :=
  !(c.isDigit || c == '.' || c == 'e' || c == 'E' || c == '+' || c == '-')

/-- A number does not go on with a character that ends it. -/
theorem push_eq_none_of_endsNumber {c : Char} (h : endsNumber c = true) (d : Digits) :
    d.push c = none := by
  simp only [endsNumber, Bool.not_eq_true', Bool.or_eq_false_iff, beq_eq_false_iff_ne] at h
  obtain ⟨⟨⟨⟨⟨hdigit, hpoint⟩, he⟩, hE⟩, hplus⟩, hminus⟩ := h
  cases d <;> simp [Digits.push, digit?, hdigit, hpoint, he, hE, hplus, hminus]

/-- Before a character that ends a number it does not matter whether the number was ended. -/
theorem push_settle {c : Char} (h : endsNumber c = true) (l : Lexer) :
    l.settle.push c = l.push c := by
  have hdigit : c.isDigit = false := by
    simp only [endsNumber, Bool.not_eq_true', Bool.or_eq_false_iff] at h
    exact h.1.1.1.1.1
  obtain ⟨mode, done⟩ := l
  cases mode with
  | number d =>
    simp only [settle]
    cases hn : d.numeral? with
    | none => rfl
    | some n => simp [push, push_eq_none_of_endsNumber h, hn, hdigit]
  | _ => rfl

/-- At the end of the text, an open number is ended and nothing else happens. -/
theorem finish_of_settle {l : Lexer} {ts : List Token} (h : l.settle = ⟨.between, ts⟩) :
    l.finish = ⟨.between, ts⟩ := by
  obtain ⟨mode, done⟩ := l
  cases mode with
  | between => exact h
  | number d =>
    simp only [settle, finish] at h ⊢
    cases hn : d.numeral? with
    | none => rw [hn] at h; simp at h
    | some n => rw [hn] at h; exact h
  | _ => simp [settle] at h

/-- Characters that a machine between two tokens takes as the tokens `ts`, whatever it has taken
before. -/
def Lexes (cs : List Char) (ts : List Token) : Prop :=
  ∀ done, (cs.foldl push ⟨.between, done⟩).settle = ⟨.between, ts.reverse ++ done⟩

theorem Lexes.nil : Lexes [] [] :=
  fun _ => rfl

/-- A character that is a token alone. -/
theorem Lexes.cons {c : Char} {t : Token} (hc : ∀ done, pushBetween c done = ⟨.between, t :: done⟩)
    {cs : List Char} {ts : List Token} (h : Lexes cs ts) : Lexes (c :: cs) (t :: ts) := by
  intro done
  rw [List.foldl_cons, show push ⟨.between, done⟩ c = pushBetween c done from rfl, hc, h]
  simp

/-- What stands behind a row of tokens, if it starts with a character that ends a number. -/
theorem Lexes.append {cs ds : List Char} {c : Char} {ts us : List Token} (h : Lexes cs ts)
    (hc : endsNumber c = true) (hds : Lexes (c :: ds) us) :
    Lexes (cs ++ c :: ds) (ts ++ us) := by
  intro done
  have hnext := hds (ts.reverse ++ done)
  rw [List.foldl_cons, ← h done, push_settle hc] at hnext
  rw [List.foldl_append, List.foldl_cons, hnext]
  simp

/-- Characters between tokens that are no part of one: spaces and line breaks. -/
def IsGap (gap : List Char) : Prop := ∀ c ∈ gap, c = ' ' ∨ c = '\n'

theorem IsGap.nil : IsGap [] := by
  simp [IsGap]

theorem Lexes.gap_append {gap : List Char} (hgap : IsGap gap) {cs : List Char} {ts : List Token}
    (h : Lexes cs ts) : Lexes (gap ++ cs) ts := by
  induction gap with
  | nil => exact h
  | cons c gap ih =>
    intro done
    have hpass : push ⟨.between, done⟩ c = ⟨.between, done⟩ := by
      rcases hgap c (by simp) with rfl | rfl <;> rfl
    rw [List.cons_append, List.foldl_cons, hpass]
    exact ih (fun d hd => hgap d (by simp [hd])) done

theorem Lexes.append_gap {gap : List Char} (hgap : IsGap gap) {cs : List Char} {ts : List Token}
    (h : Lexes cs ts) : Lexes (cs ++ gap) ts := by
  cases gap with
  | nil => rwa [List.append_nil]
  | cons c gap =>
    have hends : endsNumber c = true := by
      rcases hgap c (by simp) with rfl | rfl <;> decide
    have hnone : Lexes (c :: gap ++ []) [] := .gap_append hgap .nil
    rw [List.append_nil] at hnone
    simpa using h.append hends hnone

/-- Rows of tokens with a comma between each two, and a gap behind the comma. -/
theorem lexes_intercalate {gap : List Char} (hgap : IsGap gap) {css : List (List Char)}
    {tss : List (List Token)} (h : List.Forall₂ Lexes css tss) :
    Lexes ((',' :: gap).intercalate css) ([Token.comma].intercalate tss) := by
  induction h with
  | nil => exact .nil
  | @cons cs ts css tss hcs hcss ih =>
    cases hcss with
    | nil =>
      rw [List.intercalate_singleton, List.intercalate_singleton]
      exact hcs
    | cons =>
      rw [List.intercalate_cons_cons, List.intercalate_cons_cons, List.append_assoc,
        List.append_assoc]
      exact hcs.append (by decide) (.cons (fun _ => rfl) (.gap_append hgap ih))

/-! ## Strings -/

theorem hexDigit?_digitChar {d : ℕ} (h : d < 16) : hexDigit? (Nat.digitChar d) = some d := by
  interval_cases d <;> rfl

/-- The four digits of a control character. -/
theorem foldl_push_hex {c : Char} (h : c.toNat < 0x20) (cs : List Char) (done : List Token) :
    ['0', '0', Nat.digitChar (c.toNat / 16), Nat.digitChar (c.toNat % 16)].foldl push
        ⟨.hex (some cs) none 0 0, done⟩ =
      ⟨.string (some (c :: cs)), done⟩ := by
  have hhigh := hexDigit?_digitChar (d := c.toNat / 16) (by omega)
  have hlow := hexDigit?_digitChar (d := c.toNat % 16) (by omega)
  have hzero : hexDigit? '0' = some 0 := rfl
  have hlead : isLeading c.toNat = false := by simp [isLeading]; omega
  have htrail : isTrailing c.toNat = false := by simp [isTrailing]; omega
  simp [push, pushHex, hzero, hhigh, hlow, endHex, Nat.div_add_mod, hlead, htrail]

/-- A character of a written string is read as itself. -/
theorem foldl_push_escapeChar (c : Char) (cs : List Char) (done : List Token) :
    (Value.escapeChar c).foldl push ⟨.string (some cs), done⟩ =
      ⟨.string (some (c :: cs)), done⟩ := by
  unfold Value.escapeChar
  split
  iterate 7 rfl
  · split_ifs with hcontrol
    · exact foldl_push_hex hcontrol cs done
    · simp_all [push, pushString]

theorem foldl_push_flatMap_escapeChar (cs ds : List Char) (done : List Token) :
    (cs.flatMap Value.escapeChar).foldl push ⟨.string (some ds), done⟩ =
      ⟨.string (some (cs.reverse ++ ds)), done⟩ := by
  induction cs generalizing ds with
  | nil => rfl
  | cons c cs ih =>
    rw [List.flatMap_cons, List.foldl_append, foldl_push_escapeChar, ih]
    simp

theorem lexes_stringText (s : String) :
    Lexes (Value.stringText s).toList [.string (some s)] := by
  intro done
  have hopen : ['"'].foldl push ⟨.between, done⟩ = ⟨.string (some []), done⟩ := rfl
  have hclose (cs : List Char) : ['"'].foldl push ⟨.string (some cs), done⟩ =
      ⟨.between, .string (some (String.ofList cs.reverse)) :: done⟩ := rfl
  rw [Value.stringText, String.toList_ofList, List.foldl_append, List.foldl_append, hopen,
    foldl_push_flatMap_escapeChar, hclose]
  simp [settle]

/-! ## Numerals -/

theorem isDigit_digitChar {d : ℕ} (h : d < 10) : (Nat.digitChar d).isDigit = true := by
  interval_cases d <;> rfl

theorem digitValue_digitChar {d : ℕ} (h : d < 10) : digitValue (Nat.digitChar d) = d := by
  interval_cases d <;> rfl

/-- A machine that takes a first digit as a number, and further digits behind that number, takes a
written natural number. -/
theorem foldl_push_toDigits {l : Lexer} {S : ℕ → Digits} {done : List Token}
    (hfirst : ∀ c, c.isDigit = true → l.push c = ⟨.number (S (digitValue c)), done⟩)
    (hnext : ∀ n c, 0 < n → c.isDigit = true → (S n).push c = some (S (10 * n + digitValue c)))
    (n : ℕ) : (Nat.toDigits 10 n).foldl push l = ⟨.number (S n), done⟩ := by
  induction n using Nat.strong_induction_on with
  | h n ih =>
    rw [Nat.toDigits_eq_if (by decide)]
    split_ifs with hn
    · rw [List.foldl_cons, List.foldl_nil, hfirst _ (isDigit_digitChar hn),
        digitValue_digitChar hn]
    · have hlast : n % 10 < 10 := Nat.mod_lt n (by decide)
      have hstep := hnext (n / 10) _ (by omega) (isDigit_digitChar hlast)
      rw [digitValue_digitChar hlast, Nat.div_add_mod] at hstep
      rw [List.foldl_append, ih (n / 10) (by omega), List.foldl_cons, List.foldl_nil]
      simp only [push, hstep]

/-- What has been taken of a numeral at the end of its whole part. -/
def whole (negative : Bool) (n : ℕ) : Digits :=
  if n = 0 then .zero negative else .whole negative n

/-- What has been taken of a numeral at the end of the digits behind its point. -/
def fraction (negative : Bool) (n : ℕ) (fs : List ℕ) : Digits :=
  if fs = [] then whole negative n else .fraction negative n fs.reverse

theorem digit?_of_isDigit {c : Char} (h : c.isDigit = true) : digit? c = some (digitValue c) := by
  simp [digit?, h]

theorem pushBetween_of_isDigit {c : Char} (h : c.isDigit = true) (done : List Token) :
    pushBetween c done = ⟨.number (whole false (digitValue c)), done⟩ := by
  unfold pushBetween
  split
  case h_16 =>
    simp only [digit?_of_isDigit h]
    rfl
  all_goals exact absurd h (by decide)

theorem ne_of_isDigit {c : Char} (h : c.isDigit = true) :
    c ≠ '.' ∧ c ≠ 'e' ∧ c ≠ 'E' ∧ c ≠ '+' ∧ c ≠ '-' := by
  refine ⟨?_, ?_, ?_, ?_, ?_⟩ <;> rintro rfl <;> exact absurd h (by decide)

theorem push_whole {n : ℕ} {c : Char} (negative : Bool) (hn : 0 < n) (h : c.isDigit = true) :
    (whole negative n).push c = some (whole negative (10 * n + digitValue c)) := by
  have hn' : n ≠ 0 := by omega
  simp [whole, hn', Digits.push, ne_of_isDigit h, digit?_of_isDigit h]

/-- The sign and the whole part of a numeral. -/
theorem foldl_push_whole (negative : Bool) (n : ℕ) (done : List Token) :
    ((if negative then ['-'] else []) ++ Nat.toDigits 10 n).foldl push ⟨.between, done⟩ =
      ⟨.number (whole negative n), done⟩ := by
  cases negative with
  | false =>
    exact foldl_push_toDigits (l := ⟨.between, done⟩) (fun c hc => pushBetween_of_isDigit hc done)
      (fun n c => push_whole false) n
  | true =>
    refine foldl_push_toDigits (l := ⟨.number .sign, done⟩) (fun c hc => ?_)
      (fun n c => push_whole true) n
    simp only [push, Digits.push, digit?_of_isDigit hc]
    rfl

theorem foldl_push_digits (negative : Bool) (n : ℕ) {fs : List ℕ} (h : ∀ f ∈ fs, f < 10)
    (ds : List ℕ) (done : List Token) :
    (fs.map Nat.digitChar).foldl push ⟨.number (.fraction negative n ds), done⟩ =
      ⟨.number (.fraction negative n (fs.reverse ++ ds)), done⟩ := by
  induction fs generalizing ds with
  | nil => rfl
  | cons f fs ih =>
    have hf := isDigit_digitChar (h f (by simp))
    have hpush : (Digits.fraction negative n ds).push (Nat.digitChar f) =
        some (.fraction negative n (f :: ds)) := by
      simp [Digits.push, ne_of_isDigit hf, digit?_of_isDigit hf,
        digitValue_digitChar (h f (by simp))]
    rw [List.map_cons, List.foldl_cons]
    simp only [push, hpush]
    rw [ih (fun g hg => h g (by simp [hg])), List.reverse_cons, List.append_assoc]
    rfl

/-- The point and the digits behind it. -/
theorem foldl_push_fraction (negative : Bool) (n : ℕ) {fs : List ℕ} (h : ∀ f ∈ fs, f < 10)
    (done : List Token) :
    (if fs = [] then [] else '.' :: fs.map Nat.digitChar).foldl push
        ⟨.number (whole negative n), done⟩ =
      ⟨.number (fraction negative n fs), done⟩ := by
  cases fs with
  | nil => rfl
  | cons f fs =>
    have hf := isDigit_digitChar (h f (by simp))
    have hpoint : (whole negative n).push '.' = some (.point negative n) := by
      unfold whole
      split_ifs with hn <;> simp [Digits.push, hn]
    have hfirst : (Digits.point negative n).push (Nat.digitChar f) =
        some (.fraction negative n [f]) := by
      simp [Digits.push, digit?_of_isDigit hf, digitValue_digitChar (h f (by simp))]
    rw [if_neg (by simp), List.foldl_cons, List.map_cons, List.foldl_cons]
    simp only [push, hpoint, hfirst]
    rw [foldl_push_digits negative n (fun g hg => h g (by simp [hg]))]
    simp [fraction]

/-- The mark of an exponent and the exponent. -/
theorem foldl_push_exponent (negative : Bool) (n : ℕ) (fs : List ℕ) (e : ℤ) (done : List Token) :
    ('e' :: (toString e).toList).foldl push ⟨.number (fraction negative n fs), done⟩ =
      ⟨.number (.exponent negative n fs.reverse (e < 0) e.natAbs), done⟩ := by
  have hmark : (fraction negative n fs).push 'e' = some (.mark negative n fs.reverse) := by
    unfold fraction whole
    split_ifs with hfs hn
    · simp [Digits.push, hfs, hn]
    · simp [Digits.push, hfs]
    · rfl
  have hnext (minus : Bool) (k : ℕ) (c : Char) (_ : 0 < k) (hc : c.isDigit = true) :
      (Digits.exponent negative n fs.reverse minus k).push c =
        some (.exponent negative n fs.reverse minus (10 * k + digitValue c)) := by
    simp [Digits.push, digit?_of_isDigit hc]
  rw [List.foldl_cons]
  simp only [push, hmark]
  cases e with
  | ofNat k =>
    have hfirst (c : Char) (hc : c.isDigit = true) :
        push ⟨.number (.mark negative n fs.reverse), done⟩ c =
          ⟨.number (.exponent negative n fs.reverse false (digitValue c)), done⟩ := by
      simp [push, Digits.push, ne_of_isDigit hc, digit?_of_isDigit hc]
    have htext : (toString (Int.ofNat k)).toList = Nat.toDigits 10 k := Nat.toList_repr
    rw [htext, foldl_push_toDigits hfirst (hnext false)]
    simp
  | negSucc k =>
    -- the minus sign stands between the mark and the digits
    have hminus : push ⟨.number (.mark negative n fs.reverse), done⟩ '-' =
        ⟨.number (.markSign negative n fs.reverse true), done⟩ := rfl
    have hfirst (c : Char) (hc : c.isDigit = true) :
        push ⟨.number (.markSign negative n fs.reverse true), done⟩ c =
          ⟨.number (.exponent negative n fs.reverse true (digitValue c)), done⟩ := by
      simp [push, Digits.push, digit?_of_isDigit hc]
    have htext : (toString (Int.negSucc k)).toList = '-' :: Nat.toDigits 10 (k + 1) := by
      show ("-" ++ Nat.repr (k + 1)).toList = _
      rw [String.toList_append, Nat.toList_repr]
      rfl
    rw [htext, List.foldl_cons, hminus, foldl_push_toDigits hfirst (hnext true)]
    simp

/-- The characters of a numeral, part by part. -/
theorem toList_text {n : Numeral} (h : n.IsSpelled) :
    n.text.toList = (if n.negative then ['-'] else []) ++ Nat.toDigits 10 n.whole ++
      (if n.fraction = [] then [] else '.' :: n.fraction.map Nat.digitChar) ++
      n.exponent.elim [] fun e => 'e' :: (toString e).toList := by
  have hsign : (if n.negative then "-" else "").toList = if n.negative then ['-'] else [] := by
    split_ifs <;> rfl
  have hdigit : ∀ f ∈ n.fraction, (toString f).toList = [Nat.digitChar f] := by
    intro f hf
    rw [Text.toList_toString, Nat.toDigits_of_lt_base (h f hf)]
  have hdigits : (String.join (n.fraction.map toString)).toList = n.fraction.map Nat.digitChar := by
    rw [String.toList_join, List.flatMap_map, List.flatMap_congr hdigit, ← List.map_eq_flatMap]
  have hfraction :
      (if n.fraction = [] then "" else "." ++ String.join (n.fraction.map toString)).toList =
        if n.fraction = [] then [] else '.' :: n.fraction.map Nat.digitChar := by
    split_ifs
    · rfl
    · rw [String.toList_append, hdigits]
      rfl
  rw [Numeral.text, String.toList_append, String.toList_append, String.toList_append, hsign,
    hfraction, Text.toList_toString]
  cases n.exponent with
  | none => rfl
  | some e =>
    rw [String.toList_append]
    rfl

theorem lexes_numeral {n : Numeral} (h : n.IsSpelled) : Lexes n.text.toList [.number n] := by
  intro done
  rw [toList_text h, List.foldl_append, List.foldl_append, foldl_push_whole,
    foldl_push_fraction _ _ h]
  obtain ⟨negative, w, fs, e⟩ := n
  cases e with
  | none =>
    simp only [Option.elim, List.foldl_nil, settle, fraction, whole]
    split_ifs with hfs hw <;> simp [Digits.numeral?, *]
  | some e =>
    have hsigned : (if decide (e < 0) = true then -(e.natAbs : ℤ) else e.natAbs) = e := by
      split_ifs with he <;> simp at he <;> omega
    rw [Option.elim, foldl_push_exponent]
    simp only [settle, Digits.numeral?, hsigned, List.reverse_reverse]
    rfl

end Lexer

/-! ## Values -/

open Lexer (Lexes lexes_intercalate lexes_stringText lexes_numeral)

/-- A row of characters between two brackets. -/
theorem Lexer.Lexes.enclosed {cs : List Char} {ts : List Token} (h : Lexes cs ts) {c d : Char}
    {t u : Token} (hc : ∀ done, pushBetween c done = ⟨.between, t :: done⟩)
    (hd : ∀ done, pushBetween d done = ⟨.between, u :: done⟩) (hends : endsNumber d = true) :
    Lexes (c :: (cs ++ [d])) (t :: (ts ++ [u])) :=
  .cons hc (h.append hends (.cons hd .nil))

theorem Value.lexes_compact {room : ℕ} {v : Value} (h : v.Readable room) :
    Lexes v.compact.toList v.tokens := by
  induction h with
  | null => exact fun _ => rfl
  | bool b => cases b <;> exact fun _ => rfl
  | number hspelled _ => exact lexes_numeral hspelled
  | string s => exact lexes_stringText s
  | @array room items _ ih =>
    have hitems : List.Forall₂ Lexes (items.map fun v => v.compact.toList) (items.map tokens) := by
      rw [List.forall₂_map_left_iff, List.forall₂_map_right_iff, List.forall₂_same]
      exact ih
    rw [compact_array, tokens_array, String.toList_append, String.toList_append,
      String.toList_intercalate, List.map_map]
    exact (lexes_intercalate .nil hitems).enclosed (fun _ => rfl) (fun _ => rfl) (by decide)
  | @object room members _ ih =>
    have hmember : ∀ m ∈ members,
        Lexes (stringText m.1 ++ ":" ++ m.2.compact).toList (memberTokens m) := by
      intro m hm
      rw [String.toList_append, String.toList_append, List.append_assoc]
      exact (lexes_stringText m.1).append (by decide) (.cons (fun _ => rfl) (ih m hm))
    have hmembers : List.Forall₂ Lexes
        (members.map fun m => (stringText m.1 ++ ":" ++ m.2.compact).toList)
        (members.map memberTokens) := by
      rw [List.forall₂_map_left_iff, List.forall₂_map_right_iff, List.forall₂_same]
      exact hmember
    rw [compact_object, tokens_object, String.toList_append, String.toList_append,
      String.toList_intercalate, List.map_map]
    exact (lexes_intercalate .nil hmembers).enclosed (fun _ => rfl) (fun _ => rfl) (by decide)

/-- A text that is cut into tokens is made of them. -/
theorem tokens_eq_of_lexes {s : String} {ts : List Token} (h : Lexes s.toList ts) :
    tokens s = ts := by
  have hstart := h []
  rw [List.append_nil] at hstart
  rw [tokens, show Lexer.start = ⟨.between, []⟩ from rfl, Lexer.finish_of_settle hstart,
    List.reverse_reverse]

end CaptureFilter.Json
