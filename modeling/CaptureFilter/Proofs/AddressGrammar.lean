import CaptureFilter.Proofs.Alphabet
import CaptureFilter.Proofs.Words

/-!
# The grammar of address literals

An address is read in one pass that never goes back over a part that it has taken. Here the texts of
addresses are described without a reader, by what they are put together from, and the two are shown
to agree on every text.

A reader takes as many digits as there are. So what it leaves begins with no digit, and each part is
described together with that: the part is read in front of a rest just when it is spelled there and
the rest cannot be a piece of it.

Results:
* `Address.isOctet_iff`: the numbers of a dotted quad.
* `Address.quad_eq_some_iff`, `Address.group_eq_some_iff`: the parts, in front of any rest.
* `Address.groups_row`, `Address.row_chain`: rows are read, and no longer ones could be.
* `Address.isLiteral_iff`: the texts that are addresses.
* `Address.isLiteral_grammar`: what is an address, and what a filter says of it.
-/

namespace CaptureFilter.Address

/-! ## The grammar -/

/-- Four numbers from 0 to 255 as they are usually written, with a dot between each two. -/
def IsQuad (cs : List Char) : Prop :=
  ∃ a b c d : ℕ, a ≤ 255 ∧ b ≤ 255 ∧ c ≤ 255 ∧ d ≤ 255 ∧
    cs = ['.'].intercalate ([a, b, c, d].map fun n => (toString n).toList)

/-- One to four hexadecimal digits of either case. -/
def IsGroup (cs : List Char) : Prop :=
  1 ≤ cs.length ∧ cs.length ≤ 4 ∧
    ∀ c ∈ cs, ('0' ≤ c ∧ c ≤ '9') ∨ ('a' ≤ c ∧ c ≤ 'f') ∨ ('A' ≤ c ∧ c ≤ 'F')

/-- Groups in order, of which a dotted quad may be the end: whether one is, and how many groups they
count for, where a quad counts for two. -/
inductive AreGroups : Bool → ℕ → List (List Char) → Prop
  | nil : AreGroups false 0 []
  | quad {q : List Char} : IsQuad q → AreGroups true 2 [q]
  | cons {g : List Char} {quad : Bool} {n : ℕ} {gs : List (List Char)} :
    IsGroup g → AreGroups quad n gs → AreGroups quad (n + 1) (g :: gs)

/-- Eight groups with a colon between each two, or at most seven around two colons. Only the last
groups of the whole text may be a dotted quad. -/
def IsColonText (cs : List Char) : Prop :=
  (∃ quad gs, AreGroups quad 8 gs ∧ cs = [':'].intercalate gs) ∨
    ∃ a front quad b back, AreGroups false a front ∧ AreGroups quad b back ∧ a + b ≤ 7 ∧
      cs = [':'].intercalate front ++ [':', ':'] ++ [':'].intercalate back

/-! ## Digits in front -/

/-- A text does not begin with a character of a class. -/
def Stops (p : Char → Bool) (rest : List Char) : Prop :=
  ∀ c ∈ rest.head?, p c = false

theorem takeWhile_append_of_stops {p : Char → Bool} {front rest : List Char}
    (hfront : ∀ c ∈ front, p c = true) (hrest : Stops p rest) :
    (front ++ rest).takeWhile p = front ∧ (front ++ rest).dropWhile p = rest := by
  rw [List.takeWhile_append_of_pos hfront, List.dropWhile_append_of_pos hfront]
  cases rest with
  | nil => simp
  | cons c rest =>
    have hc : p c = false := hrest c (by simp)
    simp [hc]

theorem stops_dropWhile (p : Char → Bool) (cs : List Char) : Stops p (cs.dropWhile p) := by
  intro c hc
  have := List.head?_dropWhile_not p cs
  rw [Option.mem_def.mp hc] at this
  simpa using this

/-- A reader of all digits in front, in front of a rest: the digits are there, they are a part, and
the rest begins with no digit. -/
theorem takeWhile_part_iff {p : Char → Bool} (part : List Char → Prop) {cs rest : List Char} :
    (part (cs.takeWhile p) ∧ cs.dropWhile p = rest) ↔
      ∃ front, cs = front ++ rest ∧ (part front ∧ ∀ c ∈ front, p c = true) ∧ Stops p rest := by
  constructor
  · rintro ⟨hpart, rfl⟩
    exact ⟨_, List.takeWhile_append_dropWhile.symm,
      ⟨hpart, fun c hc => List.mem_takeWhile_imp hc⟩, stops_dropWhile p cs⟩
  · rintro ⟨front, rfl, ⟨hpart, hfront⟩, hrest⟩
    obtain ⟨htake, hdrop⟩ := takeWhile_append_of_stops hfront hrest
    rw [htake]
    exact ⟨hpart, hdrop⟩

/-! ## Numbers of a quad -/

theorem digitChar_digitValue {c : Char} (h : c.isDigit = true) :
    Nat.digitChar (Text.digitValue c) = c := by
  obtain ⟨hc, hlt⟩ := Text.toNat_of_isDigit h
  rw [← Char.toNat_inj, Nat.toNat_digitChar_of_lt_ten hlt, hc]

theorem toDigits_decimal {ds : List Char} (hne : ds ≠ []) (hdigit : ∀ c ∈ ds, c.isDigit = true)
    (hzero : ds.head? ≠ some '0' ∨ ds.length = 1) : Nat.toDigits 10 (Text.decimal ds) = ds := by
  induction ds using List.reverseRecOn with
  | nil => exact absurd rfl hne
  | append_singleton ds d ih =>
    have hd : d.isDigit = true := hdigit d (by simp)
    have hlt : Text.digitValue d < 10 := (Text.toNat_of_isDigit hd).2
    have hlast : Nat.toDigits 10 (Text.digitValue d) = [d] := by
      rw [Nat.toDigits_of_lt_base hlt, digitChar_digitValue hd]
    rw [Text.decimal_append_singleton]
    by_cases hds : ds = []
    · subst hds
      rw [Text.decimal_nil, Nat.mul_zero, Nat.zero_add, hlast, List.nil_append]
    · have hhead : ds.head? ≠ some '0' := by
        rw [List.head?_append_of_ne_nil ds hds] at hzero
        refine hzero.resolve_right fun hlength => hds ?_
        simpa using hlength
      have hrest := ih hds (fun c hc => hdigit c (by simp [hc])) (.inl hhead)
      -- the number of the digits before the last one is not zero
      have hpos : 0 < Text.decimal ds := by
        refine Nat.pos_of_ne_zero fun h => hhead ?_
        rw [← hrest, h]
        rfl
      rw [← Nat.toDigits_append_toDigits (by decide) hpos hlt, hrest, hlast]

/-- The digits of an octet are those of a number up to 255. -/
theorem isOctet_iff {ds : List Char} :
    (isOctet ds = true ∧ ∀ c ∈ ds, c.isDigit = true) ↔ ∃ n ≤ 255, ds = (toString n).toList := by
  constructor
  · rintro ⟨hoctet, hdigit⟩
    simp only [isOctet, Bool.and_eq_true, Bool.or_eq_true, decide_eq_true_eq, beq_iff_eq] at hoctet
    obtain ⟨⟨⟨hne, -⟩, hzero⟩, hvalue⟩ := hoctet
    have hnumber := toDigits_decimal hne hdigit hzero
    rw [← Text.toList_toString] at hnumber
    exact ⟨_, hvalue, hnumber.symm⟩
  · rintro ⟨n, hn, rfl⟩
    have hall : ∀ n ≤ 255, isOctet (toString n).toList = true := by decide +kernel
    exact ⟨hall n hn, fun c hc => Text.isDigit_of_mem_toString hc⟩

/-! ## Parts in front of a rest -/

theorem octet_eq_some_iff {cs rest : List Char} :
    octet cs = some rest ↔
      ∃ n ≤ 255, cs = (toString n).toList ++ rest ∧ Stops Char.isDigit rest := by
  have hread : octet cs = some rest ↔
      isOctet (cs.takeWhile Char.isDigit) = true ∧ cs.dropWhile Char.isDigit = rest := by
    simp [octet]
  rw [hread, takeWhile_part_iff fun ds => isOctet ds = true]
  simp only [isOctet_iff]
  constructor
  · rintro ⟨_, rfl, ⟨n, hn, rfl⟩, hrest⟩
    exact ⟨n, hn, rfl, hrest⟩
  · rintro ⟨n, hn, rfl, hrest⟩
    exact ⟨_, rfl, ⟨n, hn, rfl⟩, hrest⟩

theorem isHexDigit_iff {c : Char} :
    isHexDigit c = true ↔
      ('0' ≤ c ∧ c ≤ '9') ∨ ('a' ≤ c ∧ c ≤ 'f') ∨ ('A' ≤ c ∧ c ≤ 'F') := by
  have hdigit : c.isDigit = true ↔ '0' ≤ c ∧ c ≤ '9' := by
    simp only [Char.isDigit, Bool.and_eq_true, decide_eq_true_eq]
    rfl
  rw [isHexDigit, Text.hexDigit?, ← hdigit]
  split_ifs <;> simp_all

theorem group_eq_some_iff {cs rest : List Char} :
    group cs = some rest ↔ ∃ g, cs = g ++ rest ∧ IsGroup g ∧ Stops isHexDigit rest := by
  have hread : group cs = some rest ↔
      isGroup (cs.takeWhile isHexDigit) = true ∧ cs.dropWhile isHexDigit = rest := by
    simp [group]
  have hgroup (g : List Char) :
      (isGroup g = true ∧ ∀ c ∈ g, isHexDigit c = true) ↔ IsGroup g := by
    simp only [isGroup, IsGroup, Bool.and_eq_true, decide_eq_true_eq, isHexDigit_iff, and_assoc,
      Nat.one_le_iff_ne_zero, ne_eq, List.length_eq_zero_iff]
  rw [hread, takeWhile_part_iff fun ds => isGroup ds = true]
  simp only [hgroup]

theorem char_eq_some_iff {c : Char} {cs rest : List Char} :
    char c cs = some rest ↔ cs = c :: rest := by
  cases cs with
  | nil => simp [char]
  | cons d cs => simp [char]

/-- A quad is read in front of whatever does not lengthen its last number. -/
theorem quad_eq_some_iff {cs rest : List Char} :
    quad cs = some rest ↔ ∃ q, cs = q ++ rest ∧ IsQuad q ∧ Stops Char.isDigit rest := by
  have hdot (ds : List Char) : Stops Char.isDigit ('.' :: ds) := by
    simp [Stops]
  simp only [quad, Option.bind_eq_bind, Option.bind_eq_some_iff, octet_eq_some_iff,
    char_eq_some_iff]
  constructor
  · rintro ⟨_, ⟨a, ha, rfl, -⟩, _, rfl, _, ⟨b, hb, rfl, -⟩, _, rfl, _, ⟨c, hc, rfl, -⟩, _, rfl,
      d, hd, rfl, hrest⟩
    exact ⟨_, by simp, ⟨a, b, c, d, ha, hb, hc, hd, rfl⟩, hrest⟩
  · rintro ⟨_, rfl, ⟨a, b, c, d, ha, hb, hc, hd, rfl⟩, hrest⟩
    exact ⟨_, ⟨a, ha, by simp, hdot _⟩, _, rfl, _, ⟨b, hb, rfl, hdot _⟩, _, rfl, _,
      ⟨c, hc, rfl, hdot _⟩, _, rfl, d, hd, rfl, hrest⟩

/-! ## Rows -/

/-- Parts in order, each behind a colon but for the first one at the start of a row. -/
def chain : Bool → List (List Char) → List Char
  | _, [] => []
  | start, g :: gs => (if start then g else ':' :: g) ++ chain false gs

theorem chain_true (gs : List (List Char)) : chain true gs = [':'].intercalate gs := by
  cases gs with
  | nil => rfl
  | cons g gs =>
    induction gs generalizing g with
    | nil => simp [chain]
    | cons h gs ih =>
      rw [List.intercalate_cons_cons, ← ih h]
      simp [chain]

theorem inRow_eq_some_iff {start : Bool} {part : List Char → Option (List Char)}
    {cs rest : List Char} :
    inRow start part cs = some rest ↔
      ∃ ds, cs = (if start then ds else ':' :: ds) ∧ part ds = some rest := by
  cases start with
  | true => simp [inRow]
  | false => simp [inRow, Option.bind_eq_some_iff, char_eq_some_iff]

/-- What a row takes is the text of groups, no more than there is room for. -/
theorem groups_row (room : ℕ) (start : Bool) (cs : List Char) :
    let r := row room start cs
    ∃ gs, AreGroups r.quad r.size gs ∧ r.size ≤ room ∧ cs = chain start gs ++ r.rest := by
  induction room generalizing start cs with
  | zero => exact ⟨[], .nil, le_rfl, rfl⟩
  | succ room ih =>
    unfold row
    split
    · next rest h =>
      split_ifs at h with hroom
      obtain ⟨ds, hcs, hquad⟩ := inRow_eq_some_iff.mp h
      obtain ⟨q, rfl, hq, -⟩ := quad_eq_some_iff.mp hquad
      refine ⟨[q], .quad hq, by simpa using hroom, ?_⟩
      cases start <;> simp [hcs, chain]
    · split
      · next rest h =>
        obtain ⟨ds, hcs, hgroup⟩ := inRow_eq_some_iff.mp h
        obtain ⟨g, rfl, hg, -⟩ := group_eq_some_iff.mp hgroup
        obtain ⟨gs, hgs, hsize, hrest⟩ := ih false rest
        refine ⟨g :: gs, .cons hg hgs, by simpa using hsize, ?_⟩
        rw [chain, List.append_assoc, ← hrest, hcs]
        cases start <;> simp
      · exact ⟨[], .nil, Nat.zero_le _, rfl⟩

/-- What a row can end before: nothing, or two colons. -/
def EndsRow (rest : List Char) : Prop :=
  rest = [] ∨ ∃ ds, rest = ':' :: ':' :: ds

/-- A part is not read where its text would have to begin with the end of a row. -/
theorem inRow_eq_none {part : List Char → Option (List Char)} (hnil : part [] = none)
    (hcolon : ∀ cs, part (':' :: cs) = none) {rest : List Char} (h : EndsRow rest) (start : Bool) :
    inRow start part rest = none := by
  rcases h with rfl | ⟨ds, rfl⟩ <;> cases start <;> simp [inRow, char, hnil, hcolon]

theorem stops_chain {p : Char → Bool} (hp : p ':' = false) {rest : List Char} (h : EndsRow rest)
    (gs : List (List Char)) : Stops p (chain false gs ++ rest) := by
  cases gs with
  | nil => rcases h with rfl | ⟨ds, rfl⟩ <;> simp [Stops, chain, hp]
  | cons g gs => simp [Stops, chain, hp]

/-- A group in front of the rest of its row is not the beginning of a quad: behind its digits comes
no dot. -/
theorem quad_group_eq_none {g tail : List Char} (hg : IsGroup g) (hhex : Stops isHexDigit tail)
    (hdot : Stops (· == '.') tail) : quad (g ++ tail) = none := by
  rw [Option.eq_none_iff_forall_ne_some]
  intro rest hquad
  obtain ⟨q, heq, ⟨a, b, c, d, -, -, -, -, rfl⟩, -⟩ := quad_eq_some_iff.mp hquad
  have hnumber : ∀ x ∈ (toString a).toList, isHexDigit x = true := fun x hx =>
    isHexDigit_of_isDigit (Text.isDigit_of_mem_toString hx)
  have hleft := (takeWhile_append_of_stops (fun x hx => isHexDigit_iff.mpr (hg.2.2 x hx)) hhex).2
  rw [heq, List.map_cons, List.map_cons, List.intercalate_cons_cons, List.append_assoc,
    List.append_assoc, List.dropWhile_append_of_pos hnumber] at hleft
  rw [← hleft] at hdot
  simp [Stops, isHexDigit, Text.hexDigit?] at hdot

/-- Groups are read by a row that has room for them, in front of what can end it. -/
theorem row_chain {quad : Bool} {n : ℕ} {gs : List (List Char)} (h : AreGroups quad n gs)
    {room : ℕ} (hroom : n ≤ room) {rest : List Char} (hrest : EndsRow rest) (start : Bool) :
    row room start (chain start gs ++ rest) = ⟨n, quad, rest⟩ := by
  induction h generalizing room start with
  | nil =>
    cases room with
    | zero => rfl
    | succ room =>
      have hquad : inRow start Address.quad rest = none :=
        inRow_eq_none rfl (fun cs => rfl) hrest start
      have hgroup : inRow start group rest = none := inRow_eq_none rfl (fun cs => rfl) hrest start
      simp [row, chain, hquad, hgroup]
  | @quad q hq =>
    obtain ⟨room, rfl⟩ : ∃ k, room = k + 2 := ⟨room - 2, by omega⟩
    have hread : inRow start Address.quad (chain start [q] ++ rest) = some rest := by
      refine inRow_eq_some_iff.mpr ⟨q ++ rest, by cases start <;> simp [chain], ?_⟩
      exact quad_eq_some_iff.mpr ⟨q, rfl, hq, stops_chain (by decide) hrest []⟩
    simp [row, hread]
  | @cons g quad n gs hg hgs ih =>
    obtain ⟨room, rfl⟩ : ∃ k, room = k + 1 := ⟨room - 1, by omega⟩
    have htail {p : Char → Bool} (hp : p ':' = false) := stops_chain hp hrest gs
    have hlink : chain start (g :: gs) ++ rest =
        if start then g ++ (chain false gs ++ rest)
        else ':' :: (g ++ (chain false gs ++ rest)) := by
      cases start <;> simp [chain]
    -- a quad is tried first, and must not be found where the group stands
    have hquad : inRow start Address.quad (chain start (g :: gs) ++ rest) = none := by
      rw [hlink]
      have hnone := quad_group_eq_none hg (htail (by decide)) (htail (by decide))
      cases start <;> simp [inRow, char, hnone]
    have hgroup : inRow start group (chain start (g :: gs) ++ rest) =
        some (chain false gs ++ rest) :=
      inRow_eq_some_iff.mpr ⟨_, hlink, group_eq_some_iff.mpr ⟨g, rfl, hg, htail (by decide)⟩⟩
    simp [row, hquad, hgroup, ih (Nat.le_of_succ_le_succ hroom) false]

/-! ## Literals -/

theorem ipv6_eq_some_nil_iff {cs : List Char} : ipv6 cs = some [] ↔ IsColonText cs := by
  constructor
  · intro h
    obtain ⟨front, hfront, hroom, hcs⟩ := groups_row 8 true cs
    simp only [ipv6] at h
    split_ifs at h with h8 hquad
    · rw [Option.some.inj h, List.append_nil, chain_true] at hcs
      exact .inl ⟨_, front, h8 ▸ hfront, hcs⟩
    · simp only [Option.bind_eq_bind, Option.bind_eq_some_iff, char_eq_some_iff] at h
      obtain ⟨_, hfirst, ds, rfl, h⟩ := h
      obtain ⟨back, hback, hleft, hds⟩ := groups_row (7 - (row 8 true cs).size) true ds
      rw [Option.some.inj h, List.append_nil, chain_true] at hds
      rw [Bool.not_eq_true] at hquad
      refine .inr ⟨_, front, _, _, back, hquad ▸ hfront, hback, by omega, ?_⟩
      rw [← chain_true, ← hds, List.append_assoc, hcs, hfirst]
      rfl
  · rintro (⟨quad, gs, hgs, rfl⟩ | ⟨a, front, quad, b, back, hfront, hback, hroom, rfl⟩)
    · have hrow : row 8 true (chain true gs ++ []) = ⟨8, quad, []⟩ :=
        row_chain hgs le_rfl (.inl rfl) true
      rw [List.append_nil, chain_true] at hrow
      simp [ipv6, hrow]
    · -- the row in front ends before the two colons and leaves its room to the one behind them
      let behind := ':' :: ':' :: [':'].intercalate back
      have hrow : row 8 true (chain true front ++ behind) = ⟨a, false, behind⟩ :=
        row_chain hfront (by omega) (.inr ⟨_, rfl⟩) true
      have hrow' : row (7 - a) true (chain true back ++ []) = ⟨b, quad, []⟩ :=
        row_chain hback (by omega) (.inl rfl) true
      rw [chain_true] at hrow
      rw [List.append_nil, chain_true] at hrow'
      have ha : a ≠ 8 := by omega
      simp [ipv6, hrow, behind, hrow', char, ha]

/-- An address is a dotted quad or a text of groups. -/
theorem isLiteral_iff {s : String} :
    isLiteral s = true ↔ IsQuad s.toList ∨ IsColonText s.toList := by
  have hquad : quad s.toList = some [] ↔ IsQuad s.toList := by
    rw [quad_eq_some_iff]
    simp [Stops]
  rw [← hquad, ← ipv6_eq_some_nil_iff, isLiteral]
  cases h : quad s.toList with
  | none => cases h6 : ipv6 s.toList <;> simp
  | some rest =>
    -- a row that begins with a quad ends behind it, and nothing may follow such a row
    have hrow : row 8 true s.toList = ⟨2, true, rest⟩ := by
      simp [row, inRow, h]
    have h6 : ipv6 s.toList = none := by
      simp [ipv6, hrow]
    simp [h6]

/-! ## Addresses in filters -/

theorem words_text (p : Primitive) : Text.words p.text = p.words := by
  have hplain : ∀ w ∈ p.words.map String.toList,
      w ≠ [] ∧ ∀ c ∈ w, Text.isBlank c = false ∧ (fun _ => false) c = false := by
    intro w hw
    obtain ⟨v, hv, rfl⟩ := List.mem_map.mp hw
    obtain ⟨hne, hchars⟩ := Primitive.mem_words hv
    exact ⟨fun hnil => hne (String.toList_eq_nil_iff.mp hnil),
      fun c hc => ⟨isBlank_of_isWordChar (hchars c hc), rfl⟩⟩
  rw [Text.words, Text.splitWords_eq_tokens, Primitive.text, String.toList_intercalate]
  have hcut := Text.tokens_intercalate_words hplain
  simp [hcut]

/-- A primitive that is written and committed alone makes a filter of its words. -/
theorem words_render_commit_add (p : Primitive) :
    Text.words ((Draft.empty.add p).commit).render = p.words := by
  have hne : (Draft.empty.add p).fragment ≠ "" := by
    obtain ⟨c, cs, htext, -⟩ := p.text_cons
    intro h
    have hnil : p.text.toList = [] := by simpa [Draft.empty] using h
    simp [htext] at hnil
  have hrender : ((Draft.empty.add p).commit).render = Draft.renderAll [p.text] := by
    rw [Draft.commit_of_fragment_ne hne]
    simp [Draft.render, Draft.add, Draft.empty]
  rw [hrender, Text.words_renderAll, List.flatMap_singleton, words_text]

theorem perform_host {s : String} (h : isLiteral s = true) (dir : Direction) (d : Draft) :
    d.perform (.step (.host s dir)) = (d.add (.host ⟨s, h⟩ dir), .ok ()) := by
  have ha : ofText? s = some ⟨s, h⟩ := ofText?_eq_some_iff.mpr rfl
  simp [Draft.perform, Draft.apply, Draft.addHost, ha, Draft.attempt]

theorem getLast?_words_host (a : Address) (dir : Direction) :
    (Primitive.host a dir).words.getLast? = some a.text := by
  have hne : a.text ≠ "" := by
    intro h
    have hempty : isLiteral "" = true := h ▸ a.valid
    revert hempty
    decide
  cases dir <;> simp [Primitive.words, Primitive.parts, Direction.keyword, hne]

/-- A text is taken as an address just when it is a dotted quad or a text of groups. So it is not
where it holds a blank, a slash, a percent sign or a bracket. A host is taken just when its text is
an address, with any direction, and the filter of that host alone ends with the text as a word. -/
theorem isLiteral_grammar (s : String) :
    (isLiteral s = true ↔ IsQuad s.toList ∨ IsColonText s.toList) ∧
    ((∃ c ∈ s.toList, Text.isBlank c = true ∨
        c ∈ ['/', '%', '[', ']', '(', ')', '\x7b', '\x7d', '<', '>']) → isLiteral s = false) ∧
    ∀ dir, ((Draft.empty.perform (.step (.host s dir))).2 = .ok () ↔ isLiteral s = true) ∧
      (isLiteral s = true →
        let d := Draft.empty.performAll [.step (.host s dir), .step .commit]
        (Text.words d.render).getLast? = some s) := by
  refine ⟨isLiteral_iff, ?_, fun dir => ⟨?_, fun h => ?_⟩⟩
  · rintro ⟨c, hc, hother⟩
    by_contra h
    have hchar := isLiteral_chars (Bool.eq_true_of_not_eq_false h) c hc
    rcases hother with hblank | hmark
    · rw [isBlank_of_isWordChar (isWordChar_of_isAddressChar hchar)] at hblank
      cases hblank
    · have hmarks : ['/', '%', '[', ']', '(', ')', '\x7b', '\x7d', '<', '>'].all
          (fun c => !isAddressChar c) = true := by decide
      have hother := List.all_eq_true.mp hmarks c hmark
      simp [hchar] at hother
  · cases h : isLiteral s with
    | false => simp [Draft.perform, Draft.apply_host_of_not_literal h, Draft.attempt]
    | true => simp [perform_host h]
  · have hdraft : Draft.empty.performAll [.step (.host s dir), .step .commit] =
        (Draft.empty.add (.host ⟨s, h⟩ dir)).commit := by
      rw [Draft.performAll, List.foldl_cons, perform_host h]
      rfl
    simp only [hdraft, words_render_commit_add]
    exact getLast?_words_host ⟨s, h⟩ dir

/-- A quad behind groups and two colons, then one that is a group too many, and an address with a
zone. -/
theorem isLiteral_grammar_of_quads :
    let d := Draft.empty.performAll [.step (.host "::ffff:10.0.0.1" .src), .step .commit]
    isLiteral "::ffff:10.0.0.1" = true ∧
      (IsQuad "::ffff:10.0.0.1".toList ∨ IsColonText "::ffff:10.0.0.1".toList) ∧
      (Text.words d.render).getLast? = some "::ffff:10.0.0.1" ∧
      ¬ (IsQuad "1:2:3:4:5:6:7:10.0.0.1".toList ∨ IsColonText "1:2:3:4:5:6:7:10.0.0.1".toList) ∧
      isLiteral "fe80::1%eth0" = false := by
  intro d
  have haccepted : isLiteral "::ffff:10.0.0.1" = true := by decide
  obtain ⟨hgrammar, -, hhost⟩ := isLiteral_grammar "::ffff:10.0.0.1"
  refine ⟨haccepted, hgrammar.mp haccepted, (hhost .src).2 haccepted, ?_, ?_⟩
  · rw [← (isLiteral_grammar _).1]
    decide
  · exact (isLiteral_grammar _).2.1 ⟨'%', by decide, .inr (by decide)⟩

end CaptureFilter.Address
