import CaptureFilter.Json.Error
import CaptureFilter.Text.Digits

/-!
# JSON tokens

A text is cut into tokens by a machine that takes one character after another. The first place where
no token can go on ends the list with a `broken` token, and nothing after it is looked at.

A reader that wants the content of a text and one that only skims over it do not meet the same
faults, so a `broken` token holds one for each. A string with an unpaired surrogate has no content,
which stops the first reader and not the second; a number that breaks off at the end of the text is
truncated to the first and malformed to the second.
-/

namespace CaptureFilter.Json

open CaptureFilter.Text (digit? hexDigit?)

/-- A place where a text stops being JSON. A reader of the content may meet another fault there than
one that skims. -/
structure Break where
  reading : Fault
  skimming : Fault
deriving DecidableEq, Repr

/-- A break that is the same to every reader. -/
def Break.both (f : Fault) : Break := ⟨f, f⟩

/-- A smallest part of a JSON text. A string that holds an unpaired surrogate has no content;
`broken` is a place where no token can go on, inside a string or elsewhere. -/
inductive Token where
  | beginArray
  | endArray
  | beginObject
  | endObject
  | comma
  | colon
  | null
  | bool (b : Bool)
  | number (n : Numeral)
  | string (content : Option String)
  | broken (inString : Bool) (b : Break)
deriving DecidableEq, Repr

/-- The part of a number that has been taken: a minus sign, a leading zero, digits of the whole
part, a point, digits behind it with the last one first, an exponent mark, the sign behind that,
digits of the exponent. Behind the point and the mark a digit must follow. -/
inductive Digits where
  | sign
  | zero (negative : Bool)
  | whole (negative : Bool) (n : Nat)
  | point (negative : Bool) (n : Nat)
  | fraction (negative : Bool) (n : Nat) (digits : List Nat)
  | mark (negative : Bool) (n : Nat) (digits : List Nat)
  | markSign (negative : Bool) (n : Nat) (digits : List Nat) (minus : Bool)
  | exponent (negative : Bool) (n : Nat) (digits : List Nat) (minus : Bool) (e : Nat)
deriving DecidableEq, Repr

namespace Digits

/-- The numeral that is complete if no more characters are taken. -/
def numeral? : Digits → Option Numeral
  | zero neg => some ⟨neg, 0, [], none⟩
  | whole neg n => some ⟨neg, n, [], none⟩
  | fraction neg n ds => some ⟨neg, n, ds.reverse, none⟩
  | exponent neg n ds minus e => some ⟨neg, n, ds.reverse, some (if minus then -e else e)⟩
  | sign | point _ _ | mark _ _ _ | markSign _ _ _ _ => none

/-- Takes one more character, if a number can go on with it. -/
def push (c : Char) : Digits → Option Digits
  | sign => (digit? c).map fun d => if d = 0 then zero true else whole true d
  | zero neg =>
    if c = '.' then some (point neg 0)
    else if c = 'e' ∨ c = 'E' then some (mark neg 0 [])
    else none
  | whole neg n =>
    if c = '.' then some (point neg n)
    else if c = 'e' ∨ c = 'E' then some (mark neg n [])
    else (digit? c).map fun d => whole neg (10 * n + d)
  | point neg n => (digit? c).map fun d => fraction neg n [d]
  | fraction neg n ds =>
    if c = 'e' ∨ c = 'E' then some (mark neg n ds)
    else (digit? c).map fun d => fraction neg n (d :: ds)
  | mark neg n ds =>
    if c = '+' then some (markSign neg n ds false)
    else if c = '-' then some (markSign neg n ds true)
    else (digit? c).map fun d => exponent neg n ds false d
  | markSign neg n ds minus => (digit? c).map fun d => exponent neg n ds minus d
  | exponent neg n ds minus e => (digit? c).map fun d => exponent neg n ds minus (10 * e + d)

/-- Whether a digit must not follow: a leading zero stands alone. -/
def isZero : Digits → Bool
  | zero _ => true
  | _ => false

end Digits

/-- The characters of a string that have been taken, the last one first; `none` once an unpaired
surrogate was among them. -/
abbrev Content := Option (List Char)

/-- What the machine is in the middle of. A word has letters that are still due; a four-digit escape
has the leading surrogate in front of it, if there is one, and the value of the digits taken; one
with a wrong character has bytes that are still due. Behind a leading surrogate a backslash is
awaited, then the letter of another such escape. Behind a broken token nothing is taken. -/
inductive Mode where
  | between
  | word (due : List Char) (t : Token)
  | number (d : Digits)
  | string (content : Content)
  | escape (content : Content)
  | hex (content : Content) (lead : Option Nat) (taken : Nat) (value : Nat)
  | badHex (content : Content) (due : Nat)
  | surrogate (content : List Char) (lead : Nat)
  | surrogateEscape (content : List Char) (lead : Nat)
  | stopped
deriving DecidableEq, Repr

/-- The machine: its mode, and the tokens that are complete, the last one first. -/
structure Lexer where
  mode : Mode
  done : List Token
deriving DecidableEq, Repr

namespace Lexer

/-- The machine that has taken nothing. -/
def start : Lexer := ⟨.between, []⟩

/-- Ends the list at a character that no token has there. -/
def breakOff (inString : Bool) (b : Break) (done : List Token) : Lexer :=
  ⟨.stopped, .broken inString b :: done⟩

/-- Ends the list inside a string. Content with an unpaired surrogate is malformed to its reader
whatever follows. -/
def breakString (content : Content) (f : Fault) (done : List Token) : Lexer :=
  breakOff true ⟨if content.isNone then .malformed else f, f⟩ done

/-- Takes a character between tokens. -/
def pushBetween (c : Char) (done : List Token) : Lexer :=
  match c with
  | ' ' | '\t' | '\n' | '\r' => ⟨.between, done⟩
  | '[' => ⟨.between, .beginArray :: done⟩
  | ']' => ⟨.between, .endArray :: done⟩
  | '\x7b' => ⟨.between, .beginObject :: done⟩
  | '\x7d' => ⟨.between, .endObject :: done⟩
  | ',' => ⟨.between, .comma :: done⟩
  | ':' => ⟨.between, .colon :: done⟩
  | '"' => ⟨.string (some []), done⟩
  | 'n' => ⟨.word ['u', 'l', 'l'] .null, done⟩
  | 't' => ⟨.word ['r', 'u', 'e'] (.bool true), done⟩
  | 'f' => ⟨.word ['a', 'l', 's', 'e'] (.bool false), done⟩
  | '-' => ⟨.number .sign, done⟩
  | c =>
    match digit? c with
    | some d => ⟨.number (if d = 0 then .zero false else .whole false d), done⟩
    | none => breakOff false (.both .malformed) done

/-- Takes a character inside a string. -/
def pushString (c : Char) (content : Content) (done : List Token) : Lexer :=
  if c = '"' then ⟨.between, .string (content.map fun cs => String.ofList cs.reverse) :: done⟩
  else if c = '\\' then ⟨.escape content, done⟩
  else if c.toNat < 0x20 then breakString content .malformed done
  else ⟨.string (content.map (c :: ·)), done⟩

/-- Takes the character behind a backslash. -/
def pushEscape (c : Char) (content : Content) (done : List Token) : Lexer :=
  let plain (e : Char) : Lexer := ⟨.string (content.map (e :: ·)), done⟩
  match c with
  | '"' => plain '"'
  | '\\' => plain '\\'
  | '/' => plain '/'
  | 'b' => plain '\x08'
  | 'f' => plain '\x0c'
  | 'n' => plain '\n'
  | 'r' => plain '\r'
  | 't' => plain '\t'
  | 'u' => ⟨.hex content none 0 0, done⟩
  | _ => breakString content .malformed done

/-- A leading surrogate, the first half of a pair. -/
def isLeading (n : Nat) : Bool := 0xD800 ≤ n && n ≤ 0xDBFF

/-- A trailing surrogate, the second half of a pair. -/
def isTrailing (n : Nat) : Bool := 0xDC00 ≤ n && n ≤ 0xDFFF

/-- Ends a four-digit escape. A leading surrogate waits for its other half; one that finds none, or
a trailing one on its own, is unpaired. -/
def endHex (content : Content) (lead : Option Nat) (n : Nat) : Mode :=
  match content, lead with
  | none, _ => .string none
  | some cs, none =>
    if isLeading n then .surrogate cs n
    else if isTrailing n then .string none
    else .string (some (Char.ofNat n :: cs))
  | some cs, some l =>
    if isTrailing n then
      .string (some (Char.ofNat (0x10000 + (l - 0xD800) * 0x400 + (n - 0xDC00)) :: cs))
    else .string none

/-- Takes a character of a four-digit escape. A wrong one breaks the string once the escape has its
four bytes, since a text that ends before that is truncated. -/
def pushHex (c : Char) (content : Content) (lead : Option Nat) (taken value : Nat)
    (done : List Token) : Lexer :=
  match hexDigit? c with
  | some d =>
    if taken = 3 then ⟨endHex content lead (16 * value + d), done⟩
    else ⟨.hex content lead (taken + 1) (16 * value + d), done⟩
  | none =>
    if 4 ≤ taken + c.utf8Size then breakString content .malformed done
    else ⟨.badHex content (4 - (taken + c.utf8Size)), done⟩

/-- Takes one character. One that cannot go on with a number or a surrogate pair is taken again
behind it. -/
def push (l : Lexer) (c : Char) : Lexer :=
  match l.mode with
  | .between => pushBetween c l.done
  | .word due t =>
    match due with
    | [d] => if c = d then ⟨.between, t :: l.done⟩ else breakOff false (.both .malformed) l.done
    | d :: ds => if c = d then ⟨.word ds t, l.done⟩ else breakOff false (.both .malformed) l.done
    | [] => breakOff false (.both .malformed) l.done
  | .number d =>
    match d.push c with
    | some d' => ⟨.number d', l.done⟩
    | none =>
      match d.numeral? with
      | some n =>
        if d.isZero && c.isDigit then breakOff false (.both .malformed) l.done
        else pushBetween c (.number n :: l.done)
      | none => breakOff false (.both .malformed) l.done
  | .string content => pushString c content l.done
  | .escape content => pushEscape c content l.done
  | .hex content lead taken value => pushHex c content lead taken value l.done
  | .badHex content due =>
    if due ≤ c.utf8Size then breakString content .malformed l.done
    else ⟨.badHex content (due - c.utf8Size), l.done⟩
  | .surrogate content lead =>
    if c = '\\' then ⟨.surrogateEscape content lead, l.done⟩ else pushString c none l.done
  | .surrogateEscape content lead =>
    if c = 'u' then ⟨.hex (some content) (some lead) 0 0, l.done⟩ else pushEscape c none l.done
  | .stopped => l

/-- Ends the text. -/
def finish (l : Lexer) : Lexer :=
  match l.mode with
  | .between | .stopped => l
  | .word _ _ => breakOff false (.both .truncated) l.done
  | .number d =>
    match d.numeral? with
    | some n => ⟨.between, .number n :: l.done⟩
    | none => breakOff false ⟨.truncated, .malformed⟩ l.done
  | .string content | .escape content | .hex content _ _ _ | .badHex content _ =>
    breakString content .truncated l.done
  | .surrogate content _ | .surrogateEscape content _ =>
    breakString (some content) .truncated l.done

end Lexer

/-- The tokens of a text. -/
def tokens (s : String) : List Token :=
  (s.toList.foldl Lexer.push Lexer.start).finish.done.reverse

end CaptureFilter.Json
