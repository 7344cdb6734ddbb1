import CaptureFilter.Capture.Command
import Mathlib.Data.List.Forall2

/-!
# The words of a shell line

A POSIX shell cuts a line into words before it does anything else. This module has that cutting as
a reader of its own, which knows nothing of how lines are written, and compares what it reads from
the shell line of a capture command with the words that the program is started with.

The reader follows four rules: blanks outside quotes separate words, text between apostrophes is
literal, a backslash outside quotes makes the next character literal, and pieces without a blank
between them are one word. It refuses a line in which a character outside quotes would make the
shell do more than that, so a line that has words here has them in a shell, with nothing expanded,
redirected or run besides.

Results:
* `Shell.split_intercalate`: pieces that each spell a word, with a space between each two, are read
  as those words.
* `Command.split_shellLine`: the shell line of a command is read as its program and its words, and
  neither exists without the other.
-/

namespace CaptureFilter

namespace Shell

/-! ## Reading a line -/

/-- The blanks that separate words outside quotes. -/
def separators : List Char := [' ', '\t']

/-- The characters outside quotes that make a shell expand, redirect, comment or end something. -/
def actives : List Char := "|&;<>()$`\"*?[#~=%\n".toList

/-- The characters that are not literal outside quotes. -/
def specials : List Char := ['\'', '\\'] ++ separators ++ actives

/-- How the next character of a line is taken: outside quotes, between apostrophes, or behind a
backslash. -/
inductive Quoting where
  | bare
  | quoted
  | escaped
deriving DecidableEq

/-- What has been read of a line: how the next character is taken, the word that is being read, if
one has begun, and the words before that one. An empty word has begun at its quotes. -/
structure Reader where
  quoting : Quoting
  word : Option (List Char)
  finished : List (List Char)

namespace Reader

/-- The reader at the start of a line. -/
def start : Reader := ⟨.bare, none, []⟩

/-- Takes a character as part of the word. -/
def add (r : Reader) (c : Char) : Reader :=
  { r with word := some (r.word.getD [] ++ [c]) }

/-- Opens quotes of some kind, and with them a word if none has begun. -/
def enter (r : Reader) (q : Quoting) : Reader :=
  { r with quoting := q, word := some (r.word.getD []) }

/-- Ends the word, if one has begun. -/
def finish (r : Reader) : Reader :=
  { r with word := none, finished := r.finished ++ r.word.toList }

/-- Takes one character, or refuses the line. -/
def step (r : Reader) (c : Char) : Option Reader :=
  match r.quoting with
  | .quoted => some (if c = '\'' then { r with quoting := .bare } else r.add c)
  | .escaped => if c = '\n' then none else some { r.add c with quoting := .bare }
  | .bare =>
    if c = '\'' then some (r.enter .quoted)
    else if c = '\\' then some (r.enter .escaped)
    else if c ∈ separators then some r.finish
    else if c ∈ actives then none
    else some (r.add c)

/-- Takes characters in order. -/
def run (r : Reader) (cs : List Char) : Option Reader :=
  cs.foldlM step r

/-- The words of a line that ends here, unless quotes are open. -/
def words (r : Reader) : Option (List String) :=
  if r.quoting = .bare then some (r.finish.finished.map String.ofList) else none

end Reader

/-- The words that a POSIX shell reads from a line, if the line is nothing but words. -/
def split (line : String) : Option (List String) :=
  (Reader.start.run line.toList).bind Reader.words

/-! ## What the reader does with a piece -/

namespace Reader

@[simp] theorem run_nil (r : Reader) : r.run [] = some r := rfl

@[simp] theorem run_cons (r : Reader) (c : Char) (cs : List Char) :
    r.run (c :: cs) = (r.step c).bind fun r' => r'.run cs := rfl

theorem run_append (r : Reader) (cs ds : List Char) :
    r.run (cs ++ ds) = (r.run cs).bind fun r' => r'.run ds := by
  simp only [run, List.foldlM_append]
  rfl

/-- A character of a quoted word is read as itself, the apostrophe too, whose spelling leaves the
quotes and comes back to them. -/
theorem run_quoteChar (w : List Char) (ws : List (List Char)) (c : Char) :
    (⟨.quoted, some w, ws⟩ : Reader).run (quoteChar c) = some ⟨.quoted, some (w ++ [c]), ws⟩ := by
  unfold quoteChar
  split_ifs with h
  · subst h
    rfl
  · simp [step, h, add]

theorem run_flatMap_quoteChar (w : List Char) (ws : List (List Char)) (cs : List Char) :
    (⟨.quoted, some w, ws⟩ : Reader).run (cs.flatMap quoteChar) =
      some ⟨.quoted, some (w ++ cs), ws⟩ := by
  induction cs generalizing w with
  | nil => simp
  | cons c cs ih =>
    rw [List.flatMap_cons, run_append, run_quoteChar, Option.bind_some, ih, List.append_assoc,
      List.singleton_append]

/-- A quoted word is read as the word, joined to what has begun before it. -/
theorem run_quote (o : Option (List Char)) (ws : List (List Char)) (s : String) :
    (⟨.bare, o, ws⟩ : Reader).run (quote s).toList =
      some ⟨.bare, some (o.getD [] ++ s.toList), ws⟩ := by
  have hopen : (⟨.bare, o, ws⟩ : Reader).step '\'' = some ⟨.quoted, some (o.getD []), ws⟩ := rfl
  rw [quote, String.toList_ofList, run_append, List.singleton_append, run_cons, hopen,
    Option.bind_some, run_flatMap_quoteChar, Option.bind_some]
  rfl

theorem run_plain (ws : List (List Char)) {cs : List Char} (hne : cs ≠ [])
    (h : ∀ c ∈ cs, c ∉ specials) (o : Option (List Char)) :
    (⟨.bare, o, ws⟩ : Reader).run cs = some ⟨.bare, some (o.getD [] ++ cs), ws⟩ := by
  induction cs generalizing o with
  | nil => exact absurd rfl hne
  | cons c cs ih =>
    have hc : c ∉ specials := h c (by simp)
    simp only [specials, List.mem_append, List.mem_cons, List.not_mem_nil, or_false,
      not_or] at hc
    obtain ⟨⟨⟨h1, h2⟩, h3⟩, h4⟩ := hc
    have hstep : (⟨.bare, o, ws⟩ : Reader).step c = some ⟨.bare, some (o.getD [] ++ [c]), ws⟩ := by
      simp only [step, h1, h2, h3, h4, if_false, add]
    rw [run_cons, hstep, Option.bind_some]
    cases cs with
    | nil => rfl
    | cons d cs =>
      rw [ih (by simp) (fun e he => h e (by simp [he]))]
      simp

end Reader

/-! ## Lines made of pieces -/

/-- A piece of a line that a reader between two words reads as exactly one word. -/
def Spells (piece word : String) : Prop :=
  ∀ ws, (⟨.bare, none, ws⟩ : Reader).run piece.toList = some ⟨.bare, some word.toList, ws⟩

theorem spells_quote (s : String) : Spells (quote s) s := by
  intro ws
  rw [Reader.run_quote]
  rfl

/-- A character that flags are written with. -/
def isFlagChar (c : Char) : Bool :=
  c.isAlphanum || c == '-'

/-- One or more ASCII letters, digits and hyphens. -/
def isFlag (s : String) : Bool :=
  !s.isEmpty && s.toList.all isFlagChar

theorem not_mem_specials_of_isFlagChar {c : Char} (h : isFlagChar c = true) : c ∉ specials := by
  intro hmem
  have hspecials : specials.all (!isFlagChar ·) = true := by decide
  have := List.all_eq_true.mp hspecials c hmem
  simp [h] at this

theorem spells_flag {s : String} (h : isFlag s = true) : Spells s s := by
  intro ws
  simp only [isFlag, Bool.and_eq_true, List.all_eq_true] at h
  have hne : s.toList ≠ [] := by
    intro hnil
    simp [String.toList_eq_nil_iff.mp hnil] at h
  rw [Reader.run_plain ws hne fun c hc => not_mem_specials_of_isFlagChar (h.2 c hc)]
  rfl

/-- A reader between two words reads a row of pieces as their words, behind those it has. -/
theorem run_intercalate {pieces words : List String} (h : List.Forall₂ Spells pieces words)
    (ws : List (List Char)) :
    ∃ r, (⟨.bare, none, ws⟩ : Reader).run (String.intercalate " " pieces).toList = some r ∧
      r.quoting = .bare ∧ r.finish.finished = ws ++ words.map String.toList := by
  induction h generalizing ws with
  | nil => exact ⟨⟨.bare, none, ws⟩, rfl, rfl, by simp [Reader.finish]⟩
  | @cons piece word pieces words hp hps ih =>
    cases hps with
    | nil =>
      refine ⟨⟨.bare, some word.toList, ws⟩, ?_, rfl, ?_⟩
      · rw [String.intercalate_singleton]
        exact hp ws
      · simp [Reader.finish]
    | @cons piece' word' pieces words hp' hps =>
      -- the space behind the first piece ends its word
      obtain ⟨r, hrun, hbare, hfin⟩ := ih (ws ++ [word.toList])
      refine ⟨r, ?_, hbare, ?_⟩
      · have hspace : (⟨.bare, some word.toList, ws⟩ : Reader).step ' ' =
            some ⟨.bare, none, ws ++ [word.toList]⟩ := rfl
        rw [String.intercalate_cons_cons, String.toList_append, String.toList_append,
          List.append_assoc, Reader.run_append, hp ws, Option.bind_some, Reader.run_append]
        simp only [show " ".toList = [' '] from rfl, Reader.run_cons, hspace, Option.bind_some,
          Reader.run_nil]
        exact hrun
      · rw [hfin]
        simp

/-- Pieces that each spell a word are read as those words: none lost, split, merged or dropped. -/
theorem split_intercalate {pieces words : List String} (h : List.Forall₂ Spells pieces words) :
    split (String.intercalate " " pieces) = some words := by
  obtain ⟨r, hrun, hbare, hfin⟩ := run_intercalate h []
  have hmap : (words.map String.toList).map String.ofList = words := by
    simp [Function.comp_def]
  rw [split, show Reader.start = ⟨.bare, none, []⟩ from rfl, hrun, Option.bind_some, Reader.words,
    if_pos hbare, hfin, List.nil_append, hmap]

end Shell

/-! ## The shell line of a command -/

namespace Capture

open Shell (isFlag Spells spells_quote spells_flag)

theorem Setting.forall₂_spells {s : Setting} (h : isFlag s.flag = true) :
    List.Forall₂ Spells s.shellWords s.words := by
  unfold Setting.shellWords Setting.words
  cases s.value with
  | none => exact .cons (spells_flag h) .nil
  | some v => exact .cons (spells_flag h) (.cons (spells_quote v) .nil)

theorem forall₂_spells_flatMap {ss : List Setting} (h : ∀ s ∈ ss, isFlag s.flag = true) :
    List.Forall₂ Spells (ss.flatMap Setting.shellWords) (ss.flatMap Setting.words) := by
  induction ss with
  | nil => exact .nil
  | cons s ss ih =>
    rw [List.flatMap_cons, List.flatMap_cons]
    exact List.rel_append (Setting.forall₂_spells (h s (by simp)))
      (ih fun t ht => h t (by simp [ht]))

namespace Command

theorem processWord_of_not_mem {s : String} (h : '\x00' ∉ s.toList) : processWord s = s := by
  simp [processWord, h]

/-- A command that has words is started with them as they stand, if none of them holds a NUL. -/
theorem invocation_of_words {c : Command} {args : List String} (h : c.words = .ok args)
    (hnul : ∀ w ∈ c.executable :: args, '\x00' ∉ w.toList) :
    c.invocation = .ok ⟨c.executable, args⟩ := by
  have hargs : args.map processWord = args := by
    conv_rhs => rw [← List.map_id args]
    apply List.map_congr_left
    intro w hw
    exact processWord_of_not_mem (hnul w (by simp [hw]))
  rw [invocation, h]
  simp only [Except.map, hargs, processWord_of_not_mem (hnul c.executable (by simp))]

/-- A shell reads the line of a command as the program, the words of the options and the filter. -/
theorem split_of_shellLine {c : Command} {line : String}
    (hflags : ∀ s ∈ c.options, isFlag s.flag = true) (h : c.shellLine = .ok line) :
    Shell.split line =
      some (c.executable :: (c.options.flatMap Setting.words ++ [c.filter])) := by
  have hne : c.filter ≠ "" := fun heq => by
    rw [shellLine, filtered_of_eq heq] at h
    cases h
  rw [shellLine, filtered_of_ne hne] at h
  obtain rfl := Except.ok.inj h
  have hspells : List.Forall₂ Spells
      (c.options.flatMap Setting.shellWords ++ [Shell.quote c.filter])
      (c.options.flatMap Setting.words ++ [c.filter]) :=
    List.rel_append (forall₂_spells_flatMap hflags) (.cons (spells_quote c.filter) .nil)
  exact Shell.split_intercalate (.cons (spells_quote c.executable) hspells)

/-- The shell line and the words of a command fail together, for an empty filter and for nothing
else. A shell reads the line as the program followed by the words, and without a shell the program
is started with the same words, unless one of them holds a NUL. -/
theorem split_shellLine (c : Command) (hflags : ∀ s ∈ c.options, isFlag s.flag = true) :
    (∀ e, c.shellLine = .error e ↔ c.filter = "" ∧ e = .emptyFilter) ∧
    (∀ e, c.words = .error e ↔ c.filter = "" ∧ e = .emptyFilter) ∧
    (c.filter ≠ "" → ∃ line args, c.shellLine = .ok line ∧ c.words = .ok args ∧
      Shell.split line = some (c.executable :: args) ∧
      ((∀ w ∈ c.executable :: args, '\x00' ∉ w.toList) →
        c.invocation = .ok ⟨c.executable, args⟩)) := by
  refine ⟨fun e => filtered_eq_error_iff, fun e => filtered_eq_error_iff, fun hf => ?_⟩
  have hline : c.shellLine = .ok _ := filtered_of_ne hf _
  have hwords : c.words = .ok _ := filtered_of_ne hf _
  exact ⟨_, _, hline, hwords, split_of_shellLine hflags hline, invocation_of_words hwords⟩

/-- A program with an apostrophe and a backslash in its path, a flag alone, an empty value and a
value of blanks and special characters. -/
theorem split_shellLine_of_apostrophes :
    (isFlag "-n" = true ∧ isFlag "-z" = true ∧ isFlag "-w" = true) ∧
    Shell.split "'/opt/it'\\''s\\' -n -z '' -w ' $x\n`y`' 'port 80'" =
      some ["/opt/it's\\", "-n", "-z", "", "-w", " $x\n`y`", "port 80"] := by
  refine ⟨by decide, ?_⟩
  obtain ⟨line, args, hline, hargs, hsplit, -⟩ := (split_shellLine
    ⟨"/opt/it's\\", [⟨"-n", none⟩, ⟨"-z", some ""⟩, ⟨"-w", some " $x\n`y`"⟩], "port 80"⟩
    (by decide)).2.2 (by decide)
  cases hargs
  cases hline
  exact hsplit

end Command

end Capture

end CaptureFilter
