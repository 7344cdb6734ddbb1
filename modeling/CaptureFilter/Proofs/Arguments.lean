import CaptureFilter.CommandLine.Arguments
import CaptureFilter.Proofs.Computations
import Mathlib.Data.List.Nodup

/-!
# What arguments say

A request keeps what the program is asked to do, not how it was asked. Here the ways to write an
option or a recipe as arguments are listed on their own, and the arguments that are read are
compared with them: whatever is read is a row of things that the arguments spell, each value
character for character.

Results:
* `Scan.take_cases`: what one argument adds to what has been read.
* `Request.exists_items`: a request is made of the things that its arguments spell.
-/

namespace CaptureFilter

namespace CommandLine

/-! ## Writing arguments -/

/-- One thing that arguments say. -/
inductive Item where
  | flag (f : Flag)
  | value (k : Key) (text : String)
  | recipe (source : String)
deriving DecidableEq

namespace Item

/-- The option without a value, if the item is one. -/
def flag? : Item → Option Flag
  | flag f => some f
  | _ => none

/-- The option and its value, if the item is one. -/
def value? : Item → Option (Key × String)
  | value k v => some (k, v)
  | _ => none

/-- The source of the recipe, if the item is one. -/
def source? : Item → Option String
  | recipe s => some s
  | _ => none

/-- The ways to write an item, as one argument or as two. A value of its own must not look like an
option, and a value right behind a letter must be there and not begin with an equals sign. -/
inductive IsWritten : Item → List String → Prop
  | flag {name : String} {f : Flag} (hname : longNames.lookup name = some (.flag f)) :
      IsWritten (.flag f) ["--" ++ name]
  | longEquals {name : String} {k : Key} (hname : longNames.lookup name = some (.key k))
      (v : String) : IsWritten (.value k v) ["--" ++ name ++ "=" ++ v]
  | longApart {name : String} {k : Key} (hname : longNames.lookup name = some (.key k))
      {v : String} (hv : Scan.looksLikeOption v = false) :
      IsWritten (.value k v) ["--" ++ name, v]
  | letterEquals {c : Char} {k : Key} (hletter : letters.lookup c = some (.key k)) (v : String) :
      IsWritten (.value k v) ["-" ++ c.toString ++ "=" ++ v]
  | letterJoined {c : Char} {k : Key} (hletter : letters.lookup c = some (.key k)) {v : String}
      (hne : v ≠ "") (hv : v.toList.head? ≠ some '=') :
      IsWritten (.value k v) ["-" ++ c.toString ++ v]
  | letterApart {c : Char} {k : Key} (hletter : letters.lookup c = some (.key k)) {v : String}
      (hv : Scan.looksLikeOption v = false) :
      IsWritten (.value k v) ["-" ++ c.toString, v]
  | recipe {s : String} (hs : Scan.looksLikeOption s = false) :
      IsWritten (.recipe s) [s]

/-- The ways to write a row of items. Behind an argument of two dashes stand sources alone. -/
inductive AreWritten : List Item → List String → Prop
  | nil : AreWritten [] []
  | cons {i : Item} {is : List Item} {as bs : List String} (head : i.IsWritten as)
      (tail : AreWritten is bs) : AreWritten (i :: is) (as ++ bs)
  | sources (ss : List String) : AreWritten (ss.map .recipe) ("--" :: ss)

end Item

/-! ## One argument -/

namespace Scan

variable {s t u : Scan} {a : String}

/-- What has been read with one more item. An option and the recipe are taken once. -/
def Adds (s : Scan) : Item → Scan → Prop
  | .flag f, t => f ∉ s.flags ∧ t = { s with flags := s.flags ++ [f] }
  | .value k v, t =>
    k ∉ s.values.map Prod.fst ∧ t = { s with values := s.values ++ [(k, v)], pending := none }
  | .recipe r, t => s.recipe = none ∧ t = { s with recipe := some r }

theorem adds_of_takeValue {k : Key} {v : String} (h : s.takeValue k v a = .ok t) :
    s.Adds (.value k v) t := by
  unfold takeValue at h
  split at h
  · cases h
  · rename_i hnew
    split at h
    · cases h
    · refine ⟨fun hmem => hnew ?_, (Except.ok.inj h).symm⟩
      obtain ⟨p, hp, rfl⟩ := List.mem_map.mp hmem
      exact List.any_eq_true.mpr ⟨p, hp, by simp⟩

theorem adds_of_takeRecipe (h : s.takeRecipe a = .ok t) : s.Adds (.recipe a) t := by
  unfold takeRecipe at h
  split at h
  · rename_i hnone
    exact ⟨hnone, (Except.ok.inj h).symm⟩
  · cases h

/-- An option that is taken has no value where it takes none; one that takes a value adds it, or
waits for it. -/
theorem takeSwitch_cases {sw : Switch} {value : Option String}
    (h : s.takeSwitch sw value a = .ok t) :
    (∃ f, sw = .flag f ∧ value = none ∧ s.Adds (.flag f) t) ∨
    (∃ k, sw = .key k ∧ value = none ∧ t = { s with pending := some k }) ∨
    (∃ k v, sw = .key k ∧ value = some v ∧ s.Adds (.value k v) t) := by
  unfold takeSwitch at h
  split at h
  · cases h
  · rename_i f
    split at h
    · cases h
    · rename_i hnew
      exact .inl ⟨f, rfl, rfl, by simpa using hnew, (Except.ok.inj h).symm⟩
  · rename_i k
    exact .inr (.inl ⟨k, rfl, rfl, (Except.ok.inj h).symm⟩)
  · rename_i k v
    exact .inr (.inr ⟨k, v, rfl, rfl, adds_of_takeValue h⟩)
  · cases h
  · cases h

/-- What an option adds that is written as the argument `a`: a whole item, or the wait for a value
in the next argument. -/
def AddsOption (s : Scan) (a : String) (t : Scan) : Prop :=
  (∃ i : Item, i.IsWritten [a] ∧ s.Adds i t) ∨
  ∃ k, (∀ v, looksLikeOption v = false → (Item.value k v).IsWritten [a, v]) ∧
    t = { s with pending := some k }

theorem addsOption_of_takeLong {body : List Char} (ha : a.toList = '-' :: '-' :: body)
    (h : s.takeLong body a = .ok t) : s.AddsOption a t := by
  obtain ⟨name, hname⟩ : ∃ name, name = String.ofList (body.takeWhile (· ≠ '=')) := ⟨_, rfl⟩
  have hbody : name.toList ++ body.dropWhile (· ≠ '=') = body := by
    rw [hname, String.toList_ofList, List.takeWhile_append_dropWhile]
  have hend := List.head?_dropWhile_not (· ≠ '=') body
  unfold takeLong at h
  rw [← hname] at h
  cases hrest : body.dropWhile (· ≠ '=') with
  | nil =>
    rw [hrest] at hbody
    have hwhole : a = "--" ++ name := String.toList_injective (by simp [ha, ← hbody])
    simp only [hrest] at h
    split at h
    · rename_i sw hsw
      rcases takeSwitch_cases h with ⟨f, rfl, -, hadds⟩ | ⟨k, rfl, -, ht⟩ | ⟨_, _, _, hv, _⟩
      · exact .inl ⟨.flag f, hwhole ▸ .flag hsw, hadds⟩
      · exact .inr ⟨k, fun v hv => hwhole ▸ .longApart hsw hv, ht⟩
      · cases hv
    · cases h
  | cons d v =>
    rw [hrest] at hbody
    rw [hrest, List.head?_cons] at hend
    obtain rfl : d = '=' := by simpa using hend
    have hwhole : a = "--" ++ name ++ "=" ++ String.ofList v :=
      String.toList_injective (by simp [ha, ← hbody])
    simp only [hrest] at h
    split at h
    · rename_i sw hsw
      rcases takeSwitch_cases h with ⟨_, _, hv, _⟩ | ⟨_, _, hv, _⟩ | ⟨k, w, rfl, hw, hadds⟩
      · cases hv
      · cases hv
      · cases hw
        exact .inl ⟨.value k _, hwhole ▸ .longEquals hsw _, hadds⟩
    · cases h

theorem lookup_letters_ne_flag (c : Char) (f : Flag) : letters.lookup c ≠ some (.flag f) := by
  intro h
  obtain ⟨before, after, heq, -⟩ := List.lookup_eq_some_iff.mp h
  have hmem : (c, Switch.flag f) ∈ letters := by simp [heq]
  simp [letters] at hmem

theorem addsOption_of_takeLetter {c : Char} {rest : List Char} (ha : a.toList = '-' :: c :: rest)
    (h : s.takeLetter c rest a = .ok t) : s.AddsOption a t := by
  have hwhole : a = "-" ++ c.toString ++ String.ofList rest :=
    String.toList_injective (by simp [ha])
  unfold takeLetter at h
  split at h
  · rename_i k hk
    simp only at h
    split at h
    · -- nothing stands behind the letter
      exact .inr ⟨k, fun v hv => by simpa [hwhole] using .letterApart hk hv, (Except.ok.inj h).symm⟩
    · -- an equals sign and the value
      rename_i v
      have hequals : a = "-" ++ c.toString ++ "=" ++ String.ofList v :=
        String.toList_injective (by simp [ha])
      exact .inl ⟨_, hequals ▸ .letterEquals hk (String.ofList v), adds_of_takeValue h⟩
    · -- the value alone
      rename_i hempty hequals
      have hne : String.ofList rest ≠ "" := by simpa using hempty
      have hhead : (String.ofList rest).toList.head? ≠ some '=' := by
        rw [String.toList_ofList]
        intro hhead
        obtain ⟨v, rfl⟩ := List.head?_eq_some_iff.mp hhead
        exact hequals v rfl
      exact .inl ⟨_, hwhole ▸ .letterJoined hk hne hhead, adds_of_takeValue h⟩
  · rename_i sw hne hsw
    rcases takeSwitch_cases h with ⟨f, rfl, -, -⟩ | ⟨k, rfl, -, -⟩ | ⟨_, _, _, hv, _⟩
    · exact absurd hsw (lookup_letters_ne_flag c f)
    · exact absurd rfl (hne k)
    · cases hv
  · cases h

/-- One argument is the value that an option waits for, a source behind the two dashes, the two
dashes, or an item or the name of an option. -/
theorem take_cases (h : s.take a = .ok t) :
    (∃ k, s.pending = some k ∧ looksLikeOption a = false ∧ s.Adds (.value k a) t) ∨
    (s.pending = none ∧ s.positional = true ∧ s.Adds (.recipe a) t) ∨
    (s.pending = none ∧ s.positional = false ∧
      (a = "--" ∧ t = { s with positional := true } ∨ s.AddsOption a t)) := by
  unfold take at h
  cases hpending : s.pending with
  | some k =>
    simp only [hpending] at h
    split at h
    · cases h
    · rename_i hlooks
      exact .inl ⟨k, rfl, by simpa using hlooks, adds_of_takeValue h⟩
  | none =>
    simp only [hpending] at h
    cases hpositional : s.positional with
    | true =>
      rw [hpositional, if_pos rfl] at h
      exact .inr (.inl ⟨rfl, rfl, adds_of_takeRecipe h⟩)
    | false =>
      rw [hpositional, if_neg (by simp)] at h
      refine .inr (.inr ⟨rfl, rfl, ?_⟩)
      split at h
      · rename_i ha
        exact .inl ⟨String.toList_injective ha, (Except.ok.inj h).symm⟩
      · rename_i body hne ha
        exact .inr (addsOption_of_takeLong ha h)
      · rename_i c rest hne ha
        exact .inr (addsOption_of_takeLetter ha h)
      · rename_i hne
        have hlooks : looksLikeOption a = false := by
          unfold looksLikeOption
          split
          · rename_i c rest ha
            exact (hne c rest ha).elim
          · rfl
        exact .inr (.inl ⟨_, .recipe hlooks, adds_of_takeRecipe h⟩)

/-! ## All arguments -/

/-- What has been read with a row of items. No option that takes a value comes in twice. -/
structure Gains (s : Scan) (is : List Item) (t : Scan) : Prop where
  recipe : t.recipe.toList = s.recipe.toList ++ is.filterMap Item.source?
  flags : t.flags = s.flags ++ is.filterMap Item.flag?
  values : t.values = s.values ++ is.filterMap Item.value?
  nodup : (s.values.map Prod.fst).Nodup → (t.values.map Prod.fst).Nodup

theorem Gains.nil (recipe : Option String) (flags : List Flag) (values : List (Key × String))
    (p p' : Option Key) (b b' : Bool) :
    Gains ⟨recipe, flags, values, p, b⟩ [] ⟨recipe, flags, values, p', b'⟩ :=
  ⟨by simp, by simp, by simp, id⟩

theorem Gains.append {is js : List Item} (h : s.Gains is t) (h' : t.Gains js u) :
    s.Gains (is ++ js) u where
  recipe := by rw [h'.recipe, h.recipe, List.filterMap_append, List.append_assoc]
  flags := by rw [h'.flags, h.flags, List.filterMap_append, List.append_assoc]
  values := by rw [h'.values, h.values, List.filterMap_append, List.append_assoc]
  nodup := h'.nodup ∘ h.nodup

theorem Adds.gains {i : Item} (h : s.Adds i t) : s.Gains [i] t := by
  cases i with
  | flag f =>
    obtain ⟨-, rfl⟩ := h
    exact ⟨by simp [Item.source?], by simp [Item.flag?], by simp [Item.value?], id⟩
  | value k v =>
    obtain ⟨hnew, rfl⟩ := h
    refine ⟨by simp [Item.source?], by simp [Item.flag?], by simp [Item.value?], fun hs => ?_⟩
    rw [List.map_append, List.map_singleton, ← List.concat_eq_append]
    exact hs.concat hnew
  | recipe r =>
    obtain ⟨hnone, rfl⟩ := h
    exact ⟨by simp [Item.source?, hnone], by simp [Item.flag?], by simp [Item.value?], id⟩

theorem Adds.pending {i : Item} (h : s.Adds i t) (hs : s.pending = none) : t.pending = none := by
  cases i <;> obtain ⟨-, rfl⟩ := h <;> simp [hs]

theorem Adds.positional {i : Item} (h : s.Adds i t) : t.positional = s.positional := by
  cases i <;> obtain ⟨-, rfl⟩ := h <;> rfl

/-- The arguments that spell items where no option waits for its value. -/
def Tail (positional : Bool) (is : List Item) (as : List String) : Prop :=
  if positional then is = as.map .recipe else Item.AreWritten is as

/-- The arguments that spell items behind what has been read. -/
def Follows (s : Scan) (is : List Item) (as : List String) : Prop :=
  match s.pending with
  | none => Tail s.positional is as
  | some k => ∃ v bs js, as = v :: bs ∧ is = .value k v :: js ∧ looksLikeOption v = false ∧
      Tail s.positional js bs

theorem tail_nil (positional : Bool) : Tail positional [] [] := by
  cases positional
  · exact .nil
  · rfl

theorem follows_of_pending_eq_none {is : List Item} {as : List String} (h : s.pending = none) :
    s.Follows is as ↔ Tail s.positional is as := by
  rw [Follows, h]

theorem follows_of_pending_eq_some {is : List Item} {as : List String} {k : Key}
    (h : s.pending = some k) :
    s.Follows is as ↔ ∃ v bs js, as = v :: bs ∧ is = .value k v :: js ∧
      looksLikeOption v = false ∧ Tail s.positional js bs := by
  rw [Follows, h]

/-- Arguments that are read to their end add the items that they spell. -/
theorem takeAll_gains {as : List String} (h : s.takeAll as = .ok t) (ht : t.pending = none) :
    ∃ is, s.Follows is as ∧ s.Gains is t := by
  induction as generalizing s with
  | nil =>
    obtain rfl : s = t := Except.ok.inj h
    exact ⟨[], (follows_of_pending_eq_none ht).mpr (tail_nil _), .nil ..⟩
  | cons a as ih =>
    obtain ⟨u, htake, hrest⟩ :=
      bind_eq_ok_iff.mp (show (s.take a >>= fun u => u.takeAll as) = .ok t from h)
    obtain ⟨is, hfollows, hgains⟩ := ih hrest
    rcases take_cases htake with ⟨k, hpending, hlooks, hadds⟩ | ⟨hpending, hpositional, hadds⟩ |
      ⟨hpending, hpositional, ⟨rfl, rfl⟩ | ⟨i, hi, hadds⟩ | ⟨k, hwritten, rfl⟩⟩
    · -- the value of the option that waits
      have hu : u.pending = none := by rw [hadds.2]
      rw [follows_of_pending_eq_none hu, hadds.positional] at hfollows
      exact ⟨.value k a :: is, (follows_of_pending_eq_some hpending).mpr
        ⟨a, as, is, rfl, rfl, hlooks, hfollows⟩, hadds.gains.append hgains⟩
    · -- a source behind the two dashes
      rw [follows_of_pending_eq_none (hadds.pending hpending), hadds.positional, hpositional]
        at hfollows
      obtain rfl : is = as.map .recipe := hfollows
      refine ⟨.recipe a :: as.map .recipe, ?_, hadds.gains.append hgains⟩
      rw [follows_of_pending_eq_none hpending, hpositional]
      rfl
    · -- the two dashes
      rw [follows_of_pending_eq_none (s := { s with positional := true }) hpending] at hfollows
      obtain rfl : is = as.map .recipe := hfollows
      refine ⟨as.map .recipe, ?_, (Gains.nil ..).append hgains⟩
      rw [follows_of_pending_eq_none hpending, hpositional]
      exact .sources as
    · -- a whole item
      rw [follows_of_pending_eq_none (hadds.pending hpending), hadds.positional, hpositional]
        at hfollows
      refine ⟨i :: is, ?_, hadds.gains.append hgains⟩
      rw [follows_of_pending_eq_none hpending, hpositional]
      exact .cons hi hfollows
    · -- an option that waits for its value
      obtain ⟨v, bs, js, rfl, rfl, hlooks, htail⟩ :=
        (follows_of_pending_eq_some (s := { s with pending := some k }) rfl).mp hfollows
      refine ⟨.value k v :: js, ?_, (Gains.nil ..).append hgains⟩
      rw [follows_of_pending_eq_none hpending, hpositional]
      rw [hpositional] at htail
      exact .cons (hwritten v hlooks) htail

end Scan

/-! ## Requests -/

namespace Item

theorem flag?_eq_some_iff {i : Item} {f : Flag} : i.flag? = some f ↔ i = .flag f := by
  cases i <;> simp [flag?]

theorem value?_eq_some_iff {i : Item} {k : Key} {v : String} :
    i.value? = some (k, v) ↔ i = .value k v := by
  cases i <;> simp [value?]

end Item

namespace Request

theorem lookup_eq_some_iff_mem {l : List (Key × String)} (h : (l.map Prod.fst).Nodup) (k : Key)
    (v : String) : l.lookup k = some v ↔ (k, v) ∈ l := by
  induction l with
  | nil => simp
  | cons p l ih =>
    obtain ⟨x, y⟩ := p
    obtain ⟨hx, hl⟩ := List.nodup_cons.mp h
    rw [List.lookup_cons, List.mem_cons]
    by_cases hk : k = x
    · subst hk
      have hnot : (k, v) ∉ l := fun hmem => hx (List.mem_map.mpr ⟨_, hmem, rfl⟩)
      simp [hnot, eq_comm]
    · have hbeq : (k == x) = false := beq_eq_false_iff_ne.mpr hk
      simp [hbeq, hk, ih hl]

/-- A request is made of the items that its arguments spell: one source, and options of which each
one is there once. -/
theorem exists_items {arguments : List String} {r : Request}
    (h : Request.ofArguments arguments = .ok r) :
    ∃ is, Item.AreWritten is arguments ∧ is.filterMap Item.source? = [r.recipe] ∧
      (∀ f, r.has f = true ↔ .flag f ∈ is) ∧ ∀ k v, r.value? k = some v ↔ .value k v ∈ is := by
  obtain ⟨t, htake, hfinish⟩ :=
    bind_eq_ok_iff.mp (show (Scan.empty.takeAll arguments >>= Scan.finish) = .ok r from h)
  unfold Scan.finish at hfinish
  split at hfinish
  · cases hfinish
  · cases hfinish
  · rename_i source hpending hsource
    obtain rfl := Except.ok.inj hfinish
    obtain ⟨is, hfollows, hgains⟩ := Scan.takeAll_gains htake hpending
    have hrecipe := hgains.recipe
    have hflags := hgains.flags
    have hvalues := hgains.values
    rw [hsource] at hrecipe
    refine ⟨is, hfollows, hrecipe.symm, fun f => ?_, fun k v => ?_⟩
    · rw [has, List.contains_iff_mem, hflags, Scan.empty, List.nil_append]
      simp [List.mem_filterMap, Item.flag?_eq_some_iff]
    · rw [value?, lookup_eq_some_iff_mem (hgains.nodup List.nodup_nil), hvalues, Scan.empty,
        List.nil_append]
      simp [List.mem_filterMap, Item.value?_eq_some_iff]

end Request

end CommandLine

end CaptureFilter
