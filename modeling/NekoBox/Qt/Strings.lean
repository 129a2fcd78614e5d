import Mathlib.Data.List.Basic
import NekoBox.Lib.Parts
import NekoBox.Qt.Text

/-!
# Parts of a `QString`

The functions of `QString` that cut a text, and those that compare it with an
ASCII text whatever the case. `SubStrBefore` and `SubStrAfter` are those of
`Utils.cpp` (lines 588–598).
-/

namespace NekoBox.Qt

/-- `trimmed` of a `QString`. -/
def trimString (s : String) : String := String.ofList (trimmed s.toList)

/-- `toInt`; 0 if the text is no number. -/
def intOf (s : String) : ℤ := (toInt s.toList).getD 0

/-- `QString::number(int)` -/
def numberString (n : ℤ) : String := String.ofList (number n)

/-- `split` at a character; empty parts are kept. -/
def split (sep : Char) (s : String) : List String := (s.toList.splitOn sep).map String.ofList

/-- `list.join(sep)` -/
def join (sep : String) (l : List String) : String := sep.intercalate l

/-- The ASCII character a character is folded to, if it is. Of the others only
    the Kelvin sign and the long s are. -/
def foldAscii (c : Char) : Char :=
  if c.toNat = 0x212A then 'k' else if c.toNat = 0x17F then 's' else c.toLower

/-- `toLower` of a name that is compared with ASCII names: of the letters outside
    ASCII only the Kelvin sign has a lower case letter in ASCII. -/
def lowerName (s : String) : String :=
  String.ofList (s.toList.map fun c => if c.toNat = 0x212A then 'k' else c.toLower)

/-- `compare(s, ascii, Qt::CaseInsensitive) == 0` with an ASCII text. -/
def equalsNoCase (s ascii : String) : Bool :=
  s.toList.map foldAscii = ascii.toList.map foldAscii

/-- `startsWith(ascii, Qt::CaseInsensitive)` with an ASCII text. -/
def startsWithNoCase (s ascii : String) : Bool :=
  (ascii.toList.map foldAscii).isPrefixOf (s.toList.map foldAscii)

/-- Split a text at the first place where another one stands. -/
def cut (sub : List Char) : List Char → Option (List Char × List Char)
  | [] => if sub = [] then some ([], []) else none
  | c :: s =>
    if sub.isPrefixOf (c :: s) then some ([], (c :: s).drop sub.length)
    else (cut sub s).map fun p => (c :: p.1, p.2)

/-- `contains` -/
def containsText (s sub : String) : Bool := (cut sub.toList s.toList).isSome

/-- `SubStrBefore` -/
def subStrBefore (s sub : String) : String :=
  match cut sub.toList s.toList with
  | none => s
  | some (before, _) => String.ofList before

/-- `SubStrAfter`: the whole text if the other does not stand in it. -/
def subStrAfter (s sub : String) : String :=
  match cut sub.toList s.toList with
  | none => s
  | some (_, after) => String.ofList after

/-- `replace`, of a text that is not empty: from the left, and what was put in is
    not searched again. -/
def replaceLoop (old new : List Char) : ℕ → List Char → List Char
  | 0, s => s
  | fuel + 1, s =>
    match cut old s with
    | none => s
    | some (before, after) => before ++ new ++ replaceLoop old new fuel after

def replaceText (s old new : String) : String :=
  String.ofList (replaceLoop old.toList new.toList s.length s.toList)

/-! ## Cutting -/

theorem eq_append_of_cut {sub s before after : List Char} (h : cut sub s = some (before, after)) :
    s = before ++ sub ++ after := by
  induction s generalizing before with
  | nil =>
    unfold cut at h
    split_ifs at h with hsub
    obtain ⟨rfl, rfl⟩ := Prod.mk.inj (Option.some.inj h)
    rw [hsub]
    rfl
  | cons c s ih =>
    unfold cut at h
    split_ifs at h with hprefix
    · obtain ⟨rfl, rfl⟩ := Prod.mk.inj (Option.some.inj h)
      obtain ⟨t, ht⟩ := List.isPrefixOf_iff_prefix.mp hprefix
      rw [← ht, List.drop_left, List.nil_append]
    · obtain ⟨⟨b, a⟩, hcut, hpair⟩ := Option.map_eq_some_iff.mp h
      obtain ⟨rfl, rfl⟩ := Prod.mk.inj hpair
      rw [ih hcut]
      rfl

/-- The cut at a character stands at its first place. -/
theorem not_mem_of_cut {c : Char} {s before after : List Char}
    (h : cut [c] s = some (before, after)) : c ∉ before := by
  induction s generalizing before with
  | nil => cases h
  | cons d s ih =>
    unfold cut at h
    split_ifs at h with hprefix
    · obtain ⟨rfl, rfl⟩ := Prod.mk.inj (Option.some.inj h)
      exact List.not_mem_nil
    · obtain ⟨⟨b, a⟩, hcut, hpair⟩ := Option.map_eq_some_iff.mp h
      obtain ⟨rfl, rfl⟩ := Prod.mk.inj hpair
      have hne : c ≠ d := by simpa using hprefix
      exact fun hmem => (List.mem_cons.mp hmem).elim hne (ih hcut)

theorem cut_append {c : Char} {before : List Char} (h : c ∉ before) (after : List Char) :
    cut [c] (before ++ c :: after) = some (before, after) := by
  induction before with
  | nil => simp [cut]
  | cons d before ih =>
    have hne : c ≠ d := fun heq => h (heq ▸ List.mem_cons_self)
    have hbefore : c ∉ before := fun hmem => h (List.mem_cons_of_mem _ hmem)
    rw [List.cons_append, cut, if_neg (by simpa using hne), ih hbefore]
    rfl

theorem subStrAfter_append {sub : String} (hsub : sub ≠ "") (s : String) :
    subStrAfter (sub ++ s) sub = s := by
  have hcut : cut sub.toList (sub.toList ++ s.toList) = some ([], s.toList) := by
    cases hlist : sub.toList with
    | nil => exact absurd (String.toList_injective (hlist.trans rfl)) hsub
    | cons c rest =>
      have hprefix : (c :: rest).isPrefixOf (c :: (rest ++ s.toList)) = true := by
        rw [List.isPrefixOf_iff_prefix]
        exact List.prefix_append (c :: rest) s.toList
      rw [List.cons_append, cut, if_pos hprefix]
      simp
  rw [subStrAfter, String.toList_append, hcut]
  exact String.ofList_toList

theorem cut_eq_none {c : Char} {s : List Char} : cut [c] s = none ↔ c ∉ s := by
  constructor
  · intro h hc
    obtain ⟨before, after, rfl, hbefore⟩ := List.eq_append_cons_of_mem hc
    rw [cut_append hbefore] at h
    cases h
  · intro h
    cases hcut : cut [c] s with
    | none => rfl
    | some p =>
      rw [eq_append_of_cut hcut] at h
      simp at h

theorem length_replaceLoop {old new : List Char} (hshort : new.length ≤ old.length) (fuel : ℕ)
    (s : List Char) : (replaceLoop old new fuel s).length ≤ s.length := by
  induction fuel generalizing s with
  | zero => exact le_refl _
  | succ fuel ih =>
    rw [replaceLoop]
    cases hcut : cut old s with
    | none => exact le_refl _
    | some p =>
      have hrest := ih p.2
      have hs := congrArg List.length (eq_append_of_cut hcut)
      simp only [List.length_append] at hs ⊢
      omega

theorem replaceText_of_not_contains {s old new : String} (h : containsText s old = false) :
    replaceText s old new = s := by
  have hcut : cut old.toList s.toList = none :=
    Option.isSome_eq_false_iff.mp h |> Option.isNone_iff_eq_none.mp
  have hloop : ∀ fuel, replaceLoop old.toList new.toList fuel s.toList = s.toList := by
    intro fuel
    cases fuel with
    | zero => rfl
    | succ fuel => rw [replaceLoop, hcut]
  rw [replaceText, hloop, String.ofList_toList]

/-- A text that is replaced by a shorter one makes the text shorter, and the new
    one stands in it. -/
theorem replaceText_of_contains {s old new : String} (hshort : new.length < old.length)
    (h : containsText s old = true) :
    ∃ before after, (replaceText s old new).toList = before ++ new.toList ++ after ∧
      (replaceText s old new).toList.length < s.toList.length := by
  obtain ⟨⟨before, after⟩, hcut⟩ := Option.isSome_iff_exists.mp h
  have hs := congrArg List.length (eq_append_of_cut hcut)
  simp only [List.length_append, String.length_toList] at hs
  obtain ⟨fuel, hfuel⟩ : ∃ fuel, s.length = fuel + 1 := ⟨s.length - 1, by omega⟩
  have hloop : (replaceText s old new).toList =
      before ++ new.toList ++ replaceLoop old.toList new.toList fuel after := by
    rw [replaceText, String.toList_ofList, hfuel, replaceLoop, hcut]
  refine ⟨before, _, hloop, ?_⟩
  have hlist : new.toList.length ≤ old.toList.length := by
    simp only [String.length_toList]
    omega
  have hrest := length_replaceLoop hlist fuel after
  rw [hloop]
  simp only [List.length_append, String.length_toList] at hrest ⊢
  omega

/-- Replacing one character by another. -/
theorem toList_replaceText {s old new : String} {c d : Char} (hold : old.toList = [c])
    (hnew : new.toList = [d]) :
    (replaceText s old new).toList = s.toList.map fun x => if x = c then d else x := by
  have hloop : ∀ (fuel : ℕ) (s : List Char), s.length ≤ fuel →
      replaceLoop [c] [d] fuel s = s.map fun x => if x = c then d else x := by
    intro fuel
    induction fuel with
    | zero =>
      intro s hs
      rw [List.length_eq_zero_iff.mp (Nat.le_zero.mp hs)]
      rfl
    | succ fuel ih =>
      intro s hs
      have hsame : ∀ l : List Char, c ∉ l → l.map (fun x => if x = c then d else x) = l := by
        intro l hl
        refine (List.map_congr_left fun x hx => ?_).trans (List.map_id l)
        have hxc : x ≠ c := fun heq => hl (heq ▸ hx)
        rw [if_neg hxc]
        rfl
      rw [replaceLoop]
      cases hcut : cut [c] s with
      | none => exact (hsame s (cut_eq_none.mp hcut)).symm
      | some p =>
        have hs' := eq_append_of_cut hcut
        have hlength := congrArg List.length hs'
        simp only [List.length_append, List.length_singleton] at hlength
        dsimp only
        rw [ih p.2 (by omega), hs', List.map_append, List.map_append, hsame p.1 (not_mem_of_cut hcut)]
        simp
  rw [replaceText, String.toList_ofList, hold, hnew]
  exact hloop _ _ (by rw [String.length_toList])

/-- A character other than the separator stands in one of the parts if it stands
    in the text. -/
theorem exists_mem_split {s : String} {sep c : Char} (hne : c ≠ sep) :
    (∃ part ∈ split sep s, c ∈ part.toList) ↔ c ∈ s.toList := by
  have hparts : ∀ s : List Char, (∃ part ∈ s.splitOn sep, c ∈ part) ↔ c ∈ s := by
    intro s
    induction s with
    | nil => simp [List.splitOn_eq_splitOnP]
    | cons x s ih =>
      rw [List.splitOn_eq_splitOnP] at ih ⊢
      rw [List.splitOnP_cons_eq_if_modifyHead]
      obtain ⟨y, ys, hys⟩ := List.exists_cons_of_ne_nil (List.splitOnP_ne_nil (· == sep) s)
      rw [hys] at ih ⊢
      have hcons : c ∈ x :: s ↔ c = x ∨ c ∈ s := List.mem_cons
      rw [hcons, ← ih]
      by_cases hx : x = sep
      · rw [if_pos (by simpa using hx), hx]
        simp only [List.exists_mem_cons_iff, List.not_mem_nil, false_or, hne]
      · rw [if_neg (by simpa using hx)]
        rw [List.modifyHead_cons, List.exists_mem_cons_iff, List.exists_mem_cons_iff, List.mem_cons,
          or_assoc]
  rw [← hparts, split]
  simp

/-- A text with a separator, of its parts. -/
theorem toList_eq_parts {s sep : String} {c : Char} (hsep : sep.toList = [c]) (h : c ∈ s.toList) :
    s.toList = (subStrBefore s sep).toList ++ c :: (subStrAfter s sep).toList := by
  cases hcut : cut [c] s.toList with
  | none => exact absurd h (cut_eq_none.mp hcut)
  | some p =>
    rw [subStrBefore, subStrAfter, hsep, hcut]
    simpa using eq_append_of_cut hcut

/-- The separator is in no part. -/
theorem not_mem_of_mem_split {c : Char} {s part : String} (h : part ∈ split c s) :
    c ∉ part.toList := by
  unfold split at h
  obtain ⟨l, hl, rfl⟩ := List.mem_map.mp h
  rw [String.toList_ofList]
  exact Lib.Parts.not_mem_of_mem_splitOn hl

theorem split_of_not_mem {c : Char} {s : String} (h : c ∉ s.toList) : split c s = [s] := by
  unfold split
  rw [List.splitOn_eq_singleton h, List.map_singleton, String.ofList_toList]

theorem trimString_trimString (s : String) : trimString (trimString s) = trimString s := by
  unfold trimString
  rw [String.toList_ofList, trimmed_trimmed]

theorem mem_of_mem_trimString {c : Char} {s : String} (h : c ∈ (trimString s).toList) :
    c ∈ s.toList := by
  unfold trimString trimmed at h
  rw [String.toList_ofList, List.mem_reverse] at h
  have hrest := (List.dropWhile_suffix _).subset h
  rw [List.mem_reverse] at hrest
  exact (List.dropWhile_suffix _).subset hrest

/-- The part before a separator has none. -/
theorem not_mem_subStrBefore {s sep : String} {c : Char} (hsep : sep.toList = [c]) :
    c ∉ (subStrBefore s sep).toList := by
  rw [subStrBefore, hsep]
  cases hcut : cut [c] s.toList with
  | none => exact cut_eq_none.mp hcut
  | some p => simpa using not_mem_of_cut hcut

theorem subStr_of_not_mem {s sep : String} {c : Char} (hsep : sep.toList = [c])
    (h : c ∉ s.toList) : subStrBefore s sep = s ∧ subStrAfter s sep = s := by
  rw [subStrBefore, subStrAfter, hsep, cut_eq_none.mpr h]
  exact ⟨rfl, rfl⟩

theorem subStr_append {a b sep : String} {c : Char} (hsep : sep.toList = [c])
    (h : c ∉ a.toList) : subStrBefore (a ++ sep ++ b) sep = a ∧ subStrAfter (a ++ sep ++ b) sep = b := by
  have htext : (a ++ sep ++ b).toList = a.toList ++ c :: b.toList := by
    rw [String.toList_append, String.toList_append, hsep, List.append_assoc]
    rfl
  rw [subStrBefore, subStrAfter, hsep, htext, cut_append h]
  exact ⟨String.ofList_toList, String.ofList_toList⟩

theorem not_isBlank {s : String} {c : Char} (hc : c ∈ s.toList) (hspace : isSpace c = false) :
    ¬ isBlank s = true := by
  intro h
  have hall := List.all_eq_true.mp h c hc
  rw [hspace] at hall
  exact Bool.false_ne_true hall

theorem isInt32_intOf (s : String) : IsInt32 (intOf s) := by
  unfold intOf
  cases htext : toInt s.toList with
  | none => decide
  | some n => simpa using (Option.filter_eq_some_iff.mp htext).2

theorem intOf_numberString {n : ℤ} (hn : IsInt32 n) : intOf (numberString n) = n := by
  rw [intOf, numberString, String.toList_ofList, toInt_number hn, Option.getD_some]

theorem numberString_ne_empty (n : ℤ) : numberString n ≠ "" := by
  intro h
  have hlist : number n = [] := by
    rw [← String.toList_ofList (l := number n)]
    exact congrArg String.toList h
  unfold number at hlist
  split_ifs at hlist
  exact Nat.toDigits_ne_nil hlist

example : subStrAfter "obfs-local;obfs=http;x" ";" = "obfs=http;x" := by decide

end NekoBox.Qt
