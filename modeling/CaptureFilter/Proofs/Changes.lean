import CaptureFilter.Capture.Command
import CaptureFilter.Proofs.Computations
import Mathlib.Data.List.Nodup

/-!
# Changes of a command

Whether a change can be made depends on the change alone, and a command takes a row of changes if it
can take each of them. What is set by a change is no text that a program would take for an option:
it does not begin with a dash.

Results:
* `Setting.mem_insert_iff`: which options there are after one was set.
* `Setting.insertAll_eq_append`: options with flags of their own are kept in the order of setting.
* `Command.apply_eq_ok_iff`, `Command.applyAll_eq_ok_iff`: which changes are made, and what they do.
* `Command.attempt_of_isSound`, `Command.attempt_of_not_isSound`: what is left in either case.
* `Change.isDashed_eq_false`: the values that changes set do not begin with a dash.
-/

namespace CaptureFilter.Capture

/-! ## Options in order -/

namespace Setting

/-- Sets options in order. -/
def insertAll (ts ss : List Setting) : List Setting :=
  ss.foldl (fun ts s => insert s ts) ts

theorem insert_eq_append {s : Setting} {ts : List Setting} (h : s.flag ∉ ts.map flag) :
    insert s ts = ts ++ [s] := by
  induction ts with
  | nil => rfl
  | cons t ts ih =>
    rw [List.map_cons, List.mem_cons, not_or] at h
    rw [insert, if_neg (Ne.symm h.1), ih h.2, List.cons_append]

theorem map_flag_insert (s : Setting) (ts : List Setting) :
    (insert s ts).map flag =
      if s.flag ∈ ts.map flag then ts.map flag else ts.map flag ++ [s.flag] := by
  induction ts with
  | nil => simp [insert]
  | cons t ts ih =>
    rw [insert]
    by_cases h : t.flag = s.flag
    · simp [h]
    · have h' : s.flag ≠ t.flag := Ne.symm h
      simp only [if_neg h, List.map_cons, ih, List.mem_cons, h', false_or]
      split_ifs <;> rfl

theorem nodup_map_flag_insert {ts : List Setting} (h : (ts.map flag).Nodup) (s : Setting) :
    ((insert s ts).map flag).Nodup := by
  rw [map_flag_insert]
  split_ifs with hs
  · exact h
  · simpa using List.Nodup.concat hs h

/-- Where no flag stands twice, setting an option puts it in the place of the one with its flag. -/
theorem mem_insert_iff {s t : Setting} {ts : List Setting} (h : (ts.map flag).Nodup) :
    t ∈ insert s ts ↔ t = s ∨ t ∈ ts ∧ t.flag ≠ s.flag := by
  induction ts with
  | nil => simp [insert]
  | cons u ts ih =>
    rw [List.map_cons, List.nodup_cons] at h
    rw [insert]
    split_ifs with hu
    · -- the options behind the one that is replaced have other flags
      have hother : ∀ t ∈ ts, t.flag ≠ s.flag := fun t ht heq =>
        h.1 (List.mem_map.mpr ⟨t, ht, heq.trans hu.symm⟩)
      constructor
      · intro ht
        rcases List.mem_cons.mp ht with rfl | ht
        · exact .inl rfl
        · exact .inr ⟨List.mem_cons_of_mem u ht, hother t ht⟩
      · rintro (rfl | ⟨ht, hne⟩)
        · exact List.mem_cons_self
        · rcases List.mem_cons.mp ht with rfl | ht
          · exact absurd hu hne
          · exact List.mem_cons_of_mem s ht
    · rw [List.mem_cons, List.mem_cons, ih h.2]
      constructor
      · rintro (rfl | rfl | ⟨ht, hne⟩)
        · exact .inr ⟨.inl rfl, hu⟩
        · exact .inl rfl
        · exact .inr ⟨.inr ht, hne⟩
      · rintro (rfl | ⟨rfl | ht, hne⟩)
        · exact .inr (.inl rfl)
        · exact .inl rfl
        · exact .inr (.inr ⟨ht, hne⟩)

/-- Options with flags of their own are put behind those that are there. -/
theorem insertAll_eq_append {ts ss : List Setting} (h : ((ts ++ ss).map flag).Nodup) :
    insertAll ts ss = ts ++ ss := by
  induction ss generalizing ts with
  | nil => simp [insertAll]
  | cons s ss ih =>
    have hassoc : ts ++ s :: ss = (ts ++ [s]) ++ ss := by simp
    have hnew : s.flag ∉ ts.map flag := by
      rw [List.map_append, List.map_cons] at h
      exact fun hmem => (List.disjoint_of_nodup_append h) hmem (by simp)
    rw [hassoc] at h ⊢
    rw [insertAll, List.foldl_cons, insert_eq_append hnew]
    exact ih h

end Setting

/-! ## Making changes -/

/-- Whether a change can be made. -/
def Change.isSound : Change → Bool
  | options _ => true
  | interface registry name => isInterfaceName name && registry.contains name
  | outputFile path | inputFile path => isPath path
  | fileSize value | snapLength value => Text.isDigits value
  | filter text => text ≠ ""

/-- Whether a change sets one option. -/
def Change.isSetter : Change → Bool
  | options _ | filter _ => false
  | _ => true

namespace Change

/-- A change that is made for a value, if there is one, sets the option of that value. -/
theorem flatMap_settings {C : String → Change} {flag : String}
    (h : ∀ v, (C v).settings = [⟨flag, some v⟩]) (o : Option String) :
    (o.map C).toList.flatMap Change.settings = o.toList.map fun v => ⟨flag, some v⟩ := by
  cases o with
  | none => rfl
  | some v => simp [h]

end Change

namespace Command

/-- The command after a change that can be made. -/
def change (c : Command) : Change → Command
  | .options settings => { c with options := Setting.insertAll [] settings }
  | .filter text => { c with filter := text }
  | ch => { c with options := Setting.insertAll c.options ch.settings }

theorem apply_eq_ok_iff {c c' : Command} {ch : Change} :
    c.apply ch = .ok c' ↔ ch.isSound = true ∧ c.change ch = c' := by
  have hite {p : Prop} [Decidable p] {d : Command} {e : Error} :
      (if p then Except.ok d else .error e) = .ok c' ↔ p ∧ d = c' := by
    split <;> simp_all
  cases ch with
  | options settings => simp [apply, Change.isSound, change, Setting.insertAll]
  | interface registry name =>
    simp only [apply, Change.isSound, Bool.and_eq_true]
    split
    · rename_i hname
      rw [hite]
      simp [hname, change, Setting.insertAll, Change.settings, set]
    · rename_i hname
      simp [hname]
  | outputFile path => exact hite
  | inputFile path => exact hite
  | fileSize value => exact hite
  | snapLength value => exact hite
  | filter text =>
    simp only [apply, Change.isSound, change]
    split <;> simp_all

theorem applyAll_eq_ok_iff {c c' : Command} {chs : List Change} :
    c.applyAll chs = .ok c' ↔ (∀ ch ∈ chs, ch.isSound = true) ∧ chs.foldl change c = c' := by
  induction chs generalizing c with
  | nil => simp [applyAll]
  | cons ch chs ih =>
    rw [applyAll, bind_eq_ok_iff, List.foldl_cons, List.forall_mem_cons, and_assoc, ← ih]
    constructor
    · rintro ⟨d, happly, hrest⟩
      obtain ⟨hsound, rfl⟩ := apply_eq_ok_iff.mp happly
      exact ⟨hsound, hrest⟩
    · rintro ⟨hsound, hrest⟩
      exact ⟨_, apply_eq_ok_iff.mpr ⟨hsound, rfl⟩, hrest⟩

theorem applyAll_singleton (c : Command) (ch : Change) : c.applyAll [ch] = c.apply ch := by
  cases h : c.apply ch <;> simp [applyAll, h] <;> rfl

theorem applyAll_append (c : Command) (chs ds : List Change) :
    c.applyAll (chs ++ ds) = c.applyAll chs >>= fun d => d.applyAll ds := by
  induction chs generalizing c with
  | nil => rfl
  | cons ch chs ih =>
    rw [List.cons_append, applyAll, applyAll]
    cases c.apply ch with
    | error e => rfl
    | ok d => exact ih d

theorem attempt_of_isSound (c : Command) {ch : Change} (h : ch.isSound = true) :
    c.attempt ch = (c.change ch, .ok ()) := by
  rw [attempt, apply_eq_ok_iff.mpr ⟨h, rfl⟩]

theorem attempt_of_not_isSound (c : Command) {ch : Change} (h : ch.isSound = false) :
    ∃ e, c.attempt ch = (c, .error e) := by
  cases happly : c.apply ch with
  | ok c' =>
    rw [(apply_eq_ok_iff.mp happly).1] at h
    cases h
  | error e => exact ⟨e, by rw [attempt, happly]⟩

theorem attempt_eq_ok_iff {c : Command} {ch : Change} :
    (c.attempt ch).2 = .ok () ↔ ch.isSound = true := by
  cases h : ch.isSound with
  | true => simp [attempt_of_isSound c h]
  | false =>
    obtain ⟨e, he⟩ := attempt_of_not_isSound c h
    simp [he]

@[simp] theorem attemptAll_nil (c : Command) : c.attemptAll [] = c := rfl

theorem attemptAll_concat (c : Command) (chs : List Change) (ch : Change) :
    c.attemptAll (chs ++ [ch]) = ((c.attemptAll chs).attempt ch).1 := by
  simp [attemptAll]

/-- Changes that set one option each leave the program and the filter, and set the options in
order. -/
theorem foldl_change_of_isSetter {chs : List Change} (h : ∀ ch ∈ chs, ch.isSetter = true)
    (c : Command) :
    chs.foldl change c =
      { c with options := Setting.insertAll c.options (chs.flatMap Change.settings) } := by
  induction chs generalizing c with
  | nil => rfl
  | cons ch chs ih =>
    have hchange : c.change ch =
        { c with options := Setting.insertAll c.options ch.settings } := by
      have hch := h ch (by simp)
      cases ch with
      | options | filter => cases hch
      | _ => rfl
    rw [List.foldl_cons, hchange, ih fun d hd => h d (by simp [hd]), List.flatMap_cons]
    simp only [Setting.insertAll, List.foldl_append]

end Command

/-! ## What changes set -/

/-- Whether a program would take a word for an option. -/
def isDashed (w : String) : Bool :=
  w.toList.head? = some '-'

theorem isDashed_of_first {s : String} {p : Char → Bool} (hp : p '-' = false)
    (h : ∀ c ∈ s.toList.head?, p c = true) : isDashed s = false := by
  rw [isDashed, decide_eq_false_iff_not]
  intro hdash
  have hclass := h '-' hdash
  rw [hp] at hclass
  cases hclass

theorem isDashed_of_isInterfaceName {s : String} (h : isInterfaceName s = true) :
    isDashed s = false := by
  refine isDashed_of_first (p := isNameChar) (by decide) fun c hc => ?_
  obtain ⟨cs, hcs⟩ := List.head?_eq_some_iff.mp hc
  by_contra hname
  simp [isInterfaceName, hcs, hname] at h

theorem isDashed_of_isPath {s : String} (h : isPath s = true) : isDashed s = false := by
  have hslash : s.toList.head? = some '/' := by
    unfold isPath at h
    split at h <;> simp_all
  refine isDashed_of_first (p := (· == '/')) (by decide) fun c hc => ?_
  rw [hslash, Option.mem_some_iff] at hc
  simp [← hc]

theorem isDashed_of_isDigits {s : String} (h : Text.isDigits s = true) : isDashed s = false := by
  refine isDashed_of_first (p := Char.isDigit) (by decide) fun c hc => ?_
  rw [Text.isDigits, Bool.and_eq_true, List.all_eq_true] at h
  exact h.2 c (List.mem_of_head? hc)

theorem Change.isDashed_eq_false {ch : Change} (h : ch.isSound = true) (hch : ch.isSetter = true)
    {s : Setting} (hs : s ∈ ch.settings) {v : String} (hv : v ∈ s.value) : isDashed v = false := by
  cases ch with
  | options settings => cases hch
  | interface registry name =>
    obtain rfl := List.mem_singleton.mp hs
    obtain rfl := Option.mem_some_iff.mp hv
    rw [isSound, Bool.and_eq_true] at h
    exact isDashed_of_isInterfaceName h.1
  | outputFile path | inputFile path =>
    obtain rfl := List.mem_singleton.mp hs
    obtain rfl := Option.mem_some_iff.mp hv
    exact isDashed_of_isPath h
  | fileSize value | snapLength value =>
    obtain rfl := List.mem_singleton.mp hs
    obtain rfl := Option.mem_some_iff.mp hv
    exact isDashed_of_isDigits h
  | filter text => cases hs

namespace Setting

/-- The words of options whose values do not begin with a dash: those that do are the flags. -/
theorem filter_isDashed_words {ss : List Setting} (hflag : ∀ s ∈ ss, isDashed s.flag = true)
    (hvalue : ∀ s ∈ ss, ∀ v ∈ s.value, isDashed v = false) :
    (ss.flatMap Setting.words).filter isDashed = ss.map Setting.flag := by
  induction ss with
  | nil => rfl
  | cons s ss ih =>
    have hs : s.words.filter isDashed = [s.flag] := by
      have hf := hflag s (by simp)
      have hv := hvalue s (by simp)
      unfold Setting.words
      cases hvalue : s.value with
      | none => simp [hf]
      | some v => simp [hf, hv v hvalue]
    rw [List.flatMap_cons, List.filter_append, hs, List.map_cons,
      ih (fun t ht => hflag t (by simp [ht])) (fun t ht => hvalue t (by simp [ht]))]
    rfl

end Setting

end CaptureFilter.Capture
