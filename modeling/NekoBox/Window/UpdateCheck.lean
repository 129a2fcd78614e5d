import NekoBox.Qt.Text

/-!
# The update check

The two answers to the question whether a release is newer: the built-in `isNewer`
(`mainwindow.cpp`, lines 5066–5161) and the script's `isNewerAsset`
(`check_new_release.js`, lines 21–99 and 128–151), both from the characters of the asset's
name. Numbers are exact, as they are in both languages below 2³¹.

* `parseVer_text`: the script reads a version as its precedence;
* `isNewer_text`: the built-in check reads the base of the asset only.
-/

namespace NekoBox.Window.UpdateCheck

open NekoBox.Qt

/-! ## Both languages -/

/-- The place of a stage name. -/
def stageOf (s : List Char) : Option ℤ :=
  if s = "alpha".toList then some 1
  else if s = "beta".toList then some 2
  else if s = "rc".toList then some 3
  else none

/-- A part that mentions a stage. -/
def MentionsStage (s : List Char) : Prop :=
  "beta".toList <:+: s ∨ "alpha".toList <:+: s ∨ "rc".toList <:+: s

instance (s : List Char) : Decidable (MentionsStage s) := inferInstanceAs (Decidable (_ ∨ _))

/-- The answer of the first entries that differ. -/
def firstDifference {α : Type} (greater : α → α → Bool) : List α → List α → Option Bool
  | v :: ver, c :: cur =>
    if greater v c then some true
    else if greater c v then some false
    else firstDifference greater ver cur
  | _, _ => none

/-! ## The built-in check -/

def intOf (s : List Char) : ℤ := (toInt s).getD 0

/-- `verNums` and `currNums` -/
def nums : List (List Char) → List ℤ
  | p₀ :: p₁ :: p₂ :: rest => [intOf p₀, intOf p₁, intOf p₂] ++
    match rest with
    | [] => []
    | p₃ :: rest => (stageOf p₃).toList ++
      match rest with
      | [] => []
      | p₄ :: _ => [intOf p₄]
  | _ => []

def isGreater (a b : ℤ) : Bool := b < a

def newerNums (verNums currNums : List ℤ) : Bool :=
  if verNums.length < 3 ∨ currNums.length < 3 then false
  else
    match firstDifference isGreater (verNums.take 3) (currNums.take 3) with
    | some answer => answer
    | none =>
      if verNums.length = 5 ∧ currNums.length = 3 then false
      else if verNums.length = 3 ∧ currNums.length = 5 then true
      else if verNums.length = 5 ∧ currNums.length = 5 then
        (firstDifference isGreater (verNums.drop 3) (currNums.drop 3)).getD false
      else false

/-- `isNewer`; `none` where it indexes past the parts of the name. -/
def isNewer (nkrVersion assetName : List Char) : Option Bool :=
  if nkrVersion = [] then some false
  else
    match assetName.splitOn '-' with
    | [] | [_] => some false
    -- fewer than three parts, and then the third is read
    | [_, _] => none
    | _ :: version :: _ :: _ =>
      let parts := version.splitOn '.'
      let currentParts := (nkrVersion.map fun c => if c = '-' then '.' else c).splitOn '.'
      if parts.length < 3 ∨ currentParts.length < 3 then some false
      else some (newerNums (nums parts) (nums currentParts))

/-! ## The script -/

/-- The white space of `trim` and `parseInt`. -/
def jsSpace (c : Char) : Bool :=
  let u := c.toNat
  (9 ≤ u && u ≤ 13) || u == 0x20 || u == 0xA0 || u == 0x1680 || (0x2000 ≤ u && u ≤ 0x200A) ||
    u == 0x2028 || u == 0x2029 || u == 0x202F || u == 0x205F || u == 0x3000 || u == 0xFEFF

def jsTrim (s : List Char) : List Char := (s.dropWhile jsSpace).rdropWhile jsSpace

/-- `parseInt(s, 10)`; `none` is `NaN`. -/
def parseInt (s : List Char) : Option ℤ :=
  let s := s.dropWhile jsSpace
  let sign : ℤ := if s.head? = some '-' then -1 else 1
  let s := if s.head? = some '-' ∨ s.head? = some '+' then s.tail else s
  let digits := s.takeWhile Char.isDigit
  if digits = [] then none else some (sign * Nat.ofDigitChars 10 digits 0)

/-- `str.replace('-', '.')`, the first one only. -/
def replaceFirst : List Char → List Char
  | [] => []
  | c :: s => if c = '-' then '.' :: s else c :: replaceFirst s

/-- What follows the base: stage, number of the stage, revision. -/
def verTail : List (List Char) → List (Option ℤ)
  | [] => [some 4, some 0, some 0]
  | p₃ :: rest =>
    match stageOf p₃ with
    | some stage => [some stage, some ((rest.head?.bind parseInt).getD 0), some 0]
    | none => [some 4, some 0, some ((parseInt p₃).getD 0)]

def parseVer (str : List Char) : Option (List (Option ℤ)) :=
  match (replaceFirst (jsTrim str)).splitOn '.' with
  | p₀ :: p₁ :: p₂ :: rest => some ([parseInt p₀, parseInt p₁, parseInt p₂] ++ verTail rest)
  | _ => none

/-- No number is greater than `NaN`, nor less. -/
def numberGreater : Option ℤ → Option ℤ → Bool
  | some a, some b => b < a
  | _, _ => false

def isNewerVersion (curver version : List Char) : Bool :=
  match parseVer version, parseVer curver with
  | some ver, some cur => (firstDifference numberGreater ver cur).getD false
  | _, _ => false

/-- `isNewerAsset`; without a current version it returns a text, which counts as true. -/
def isNewerAsset (nkrVersion assetName curver : List Char) : Bool :=
  let curver := jsTrim (if curver = [] then nkrVersion else curver)
  if curver = [] then true
  else
    match assetName.splitOn '-' with
    | [] | [_] => false
    | [_, version] => isNewerVersion curver version
    | _ :: version :: spl₂ :: _ =>
      isNewerVersion curver (if MentionsStage spl₂ then version ++ '.' :: spl₂ else version)

/-- The comparison that `getLatestWingetVersion` sorts by. -/
def compareVersions (a b : List Char) : ℤ :=
  if a = b then 0 else if isNewerVersion a b then -1 else 1

/-- The last of the sorted versions; how the engine sorts is left open. -/
def getLatestWingetVersion
    (sort : (List Char → List Char → ℤ) → List (List Char) → List (List Char))
    (versions : List (List Char)) : List Char :=
  if versions = [] then "0.0.0".toList
  else ((sort compareVersions versions).getLast?).getD []

/-! ## Versions -/

/-- A number as it is written. -/
structure Numeral where
  digits : List Char
  ne : digits ≠ []
  all : ∀ c ∈ digits, c.isDigit = true

def Numeral.value (n : Numeral) : ℕ := Nat.ofDigitChars 10 n.digits 0

inductive Stage where
  | alpha
  | beta
  | rc
  deriving DecidableEq

def Stage.text : Stage → List Char
  | .alpha => "alpha".toList
  | .beta => "beta".toList
  | .rc => "rc".toList

def Stage.rank : Stage → ℕ
  | .alpha => 1
  | .beta => 2
  | .rc => 3

inductive Suffix where
  | release
  | revision (w : Numeral)
  | pre (stage : Stage) (n : Option Numeral)

structure Version where
  x : Numeral
  y : Numeral
  z : Numeral
  suffix : Suffix

def dots (l : List (List Char)) : List Char := ['.'].intercalate l

def preFields (stage : Stage) (n : Option Numeral) : List (List Char) :=
  stage.text :: n.toList.map Numeral.digits

namespace Version

def base (v : Version) : List (List Char) := [v.x.digits, v.y.digits, v.z.digits]

/-- The parts of a version between dashes. -/
def pieces (v : Version) : List (List Char) :=
  match v.suffix with
  | .release => [dots v.base]
  | .revision w => [dots (v.base ++ [w.digits])]
  | .pre stage n => [dots v.base, dots (preFields stage n)]

/-- `X.Y.Z`, `X.Y.Z.W` or `X.Y.Z-stage[.N]` -/
def text (v : Version) : List Char := ['-'].intercalate v.pieces

def baseRank (v : Version) : List ℕ := [v.x.value, v.y.value, v.z.value]

/-- Stage, number of the stage and revision; a release comes behind the stages. -/
def tailRank (v : Version) : List ℕ :=
  match v.suffix with
  | .release => [4, 0, 0]
  | .revision w => [4, 0, w.value]
  | .pre stage n => [stage.rank, (n.map Numeral.value).getD 0, 0]

def rank (v : Version) : List ℕ := v.baseRank ++ v.tailRank

/-- The precedence of versions. -/
def Newer (a b : Version) : Prop := b.rank < a.rank

instance (a b : Version) : Decidable (a.Newer b) := inferInstanceAs (Decidable (_ < _))

end Version

/-- A release asset: `name-version` and any parts behind it. What could be the stage of a
    version is one. -/
structure Asset where
  name : List Char
  version : Version
  parts : List (List Char)
  name_dash : '-' ∉ name
  parts_dash : ∀ p ∈ parts, '-' ∉ p
  plain : version.suffix = .release → ∀ p, parts.head? = some p →
    ∀ stage n, p ≠ dots (preFields stage n)

def Asset.text (a : Asset) : List Char :=
  ['-'].intercalate (a.name :: a.version.pieces ++ a.parts)

/-! ## Reading a version -/

section Digits

variable {c : Char}

theorem toNat_of_isDigit (h : c.isDigit = true) : 48 ≤ c.toNat ∧ c.toNat ≤ 57 := by
  simp only [Char.isDigit, Bool.and_eq_true, decide_eq_true_eq, ge_iff_le,
    UInt32.le_iff_toNat_le] at h
  exact h

theorem ne_of_isDigit (h : c.isDigit = true) {d : Char} (hd : d.isDigit = false) : c ≠ d := by
  rintro rfl
  rw [hd] at h
  cases h

theorem jsSpace_of_isDigit (h : c.isDigit = true) : jsSpace c = false := by
  obtain ⟨hle, hge⟩ := toNat_of_isDigit h
  simp [jsSpace]
  omega

end Digits

namespace Numeral

variable (n : Numeral)

theorem head_isDigit : ∃ c s, n.digits = c :: s ∧ c.isDigit = true := by
  cases h : n.digits with
  | nil => exact absurd h n.ne
  | cons c s => exact ⟨c, s, rfl, n.all c (by rw [h]; exact List.mem_cons_self ..)⟩

theorem not_mem {d : Char} (hd : d.isDigit = false) : d ∉ n.digits := by
  intro hmem
  have h := n.all d hmem
  rw [hd] at h
  cases h

theorem parseInt_digits : parseInt n.digits = some (n.value : ℤ) := by
  obtain ⟨c, s, hs, hc⟩ := n.head_isDigit
  have hspace : n.digits.dropWhile jsSpace = n.digits := by
    rw [hs, List.dropWhile_cons_of_neg (by simp [jsSpace_of_isDigit hc])]
  have hminus : n.digits.head? ≠ some '-' := by
    rw [hs]
    exact fun h => ne_of_isDigit hc (by decide) (Option.some.inj h)
  have hplus : n.digits.head? ≠ some '+' := by
    rw [hs]
    exact fun h => ne_of_isDigit hc (by decide) (Option.some.inj h)
  have htake : n.digits.takeWhile Char.isDigit = n.digits :=
    List.takeWhile_eq_self_iff.mpr n.all
  simp [parseInt, hspace, hminus, hplus, htake, n.ne, value]

theorem intOf_digits (h : n.value < 2 ^ 31) : intOf n.digits = n.value := by
  have htrim : trimmed n.digits = n.digits :=
    trimmed_of_no_space fun c hc => isSpace_eq_false_of_isDigit (n.all c hc)
  have hdigits : Qt.digits n.digits = some n.value := by
    rw [Qt.digits, if_pos ⟨n.ne, List.all_eq_true.mpr n.all⟩]
    rfl
  have hread : toInt n.digits = some (n.value : ℤ) := by
    obtain ⟨c, s, hs, hc⟩ := n.head_isDigit
    have hminus : c ≠ '-' := ne_of_isDigit hc (by decide)
    have hplus : c ≠ '+' := ne_of_isDigit hc (by decide)
    have hint : IsInt32 (n.value : ℤ) := by
      constructor <;> omega
    rw [toInt, htrim]
    rw [hs] at hdigits ⊢
    split
    · next heq => exact absurd (List.cons.inj heq).1 hminus
    · next heq => exact absurd (List.cons.inj heq).1 hplus
    · rw [hdigits]
      simp [Option.filter, hint]
  rw [intOf, hread]
  rfl

end Numeral

theorem stageOf_digits (n : Numeral) : stageOf n.digits = none := by
  have hne : ∀ s : List Char, (∃ c ∈ s, c.isDigit = false) → n.digits ≠ s := by
    rintro s ⟨c, hc, hdigit⟩ rfl
    exact n.not_mem hdigit hc
  rw [stageOf, if_neg (hne _ ⟨'a', by decide, by decide⟩),
    if_neg (hne _ ⟨'b', by decide, by decide⟩), if_neg (hne _ ⟨'r', by decide, by decide⟩)]

theorem stageOf_text (stage : Stage) : stageOf stage.text = some (stage.rank : ℤ) := by
  cases stage <;> decide

theorem replaceFirst_of_not_mem {s : List Char} (h : '-' ∉ s) : replaceFirst s = s := by
  induction s with
  | nil => rfl
  | cons c s ih =>
    obtain ⟨hc, hs⟩ := List.ne_and_not_mem_of_not_mem_cons h
    rw [replaceFirst, if_neg (Ne.symm hc), ih hs]

theorem replaceFirst_append {s : List Char} (h : '-' ∉ s) (t : List Char) :
    replaceFirst (s ++ '-' :: t) = s ++ '.' :: t := by
  induction s with
  | nil => rfl
  | cons c s ih =>
    obtain ⟨hc, hs⟩ := List.ne_and_not_mem_of_not_mem_cons h
    rw [List.cons_append, replaceFirst, if_neg (Ne.symm hc), ih hs]
    rfl

theorem map_of_not_mem {s : List Char} (h : '-' ∉ s) :
    (s.map fun c => if c = '-' then '.' else c) = s := by
  refine (List.map_congr_left fun c hc => if_neg ?_).trans (List.map_id s)
  rintro rfl
  exact h hc

/-! ### Dots and dashes -/

theorem dots_cons_cons (s t : List Char) (l : List (List Char)) :
    dots (s :: t :: l) = s ++ '.' :: dots (t :: l) := by
  simp [dots, List.intercalate]

theorem dots_append {l l' : List (List Char)} (hl : l ≠ []) (hl' : l' ≠ []) :
    dots (l ++ l') = dots l ++ '.' :: dots l' := by
  obtain ⟨t, l', rfl⟩ := List.exists_cons_of_ne_nil hl'
  induction l with
  | nil => exact absurd rfl hl
  | cons s l ih =>
    cases l with
    | nil =>
      rw [List.singleton_append, dots_cons_cons]
      simp [dots]
    | cons s' l =>
      rw [List.cons_append, List.cons_append, dots_cons_cons, dots_cons_cons,
        ← List.cons_append, ih (List.cons_ne_nil _ _), List.append_assoc]
      rfl

theorem mem_dots {l : List (List Char)} {c : Char} (h : c ∈ dots l) :
    c = '.' ∨ ∃ s ∈ l, c ∈ s := by
  induction l with
  | nil => cases h
  | cons s l ih =>
    cases l with
    | nil => exact .inr ⟨s, List.mem_singleton_self s, by simpa [dots] using h⟩
    | cons t l =>
      rw [dots_cons_cons, List.mem_append, List.mem_cons] at h
      rcases h with hs | rfl | hl
      · exact .inr ⟨s, List.mem_cons_self .., hs⟩
      · exact .inl rfl
      · rcases ih hl with hdot | ⟨s', hs', hc⟩
        · exact .inl hdot
        · exact .inr ⟨s', List.mem_cons_of_mem _ hs', hc⟩

theorem splitOn_dots {l : List (List Char)} (hl : l ≠ []) (hdot : ∀ s ∈ l, '.' ∉ s) :
    (dots l).splitOn '.' = l := List.splitOn_intercalate '.' hdot hl

/-- The characters of a field: digits, or the letters of a stage. -/
def Plain (s : List Char) : Prop := ∀ c ∈ s, c.isDigit = true ∨ c.isAlpha = true

theorem Numeral.plain (n : Numeral) : Plain n.digits := fun c hc => .inl (n.all c hc)

theorem Stage.plain (stage : Stage) : Plain stage.text := by
  have hall : stage.text.all Char.isAlpha = true := by cases stage <;> decide
  exact fun c hc => .inr (List.all_eq_true.mp hall c hc)

theorem Plain.not_mem {s : List Char} (h : Plain s) {d : Char} (hdigit : d.isDigit = false)
    (halpha : d.isAlpha = false) : d ∉ s := by
  intro hd
  rcases h d hd with h | h
  · rw [hdigit] at h
    cases h
  · rw [halpha] at h
    cases h

theorem Plain.jsSpace {s : List Char} (h : Plain s) {c : Char} (hc : c ∈ s) :
    jsSpace c = false := by
  rcases h c hc with hdigit | halpha
  · exact jsSpace_of_isDigit hdigit
  · simp only [Char.isAlpha, Char.isUpper, Char.isLower, Bool.or_eq_true, Bool.and_eq_true,
      decide_eq_true_eq, ge_iff_le, UInt32.le_iff_toNat_le] at halpha
    change (65 ≤ c.toNat ∧ c.toNat ≤ 90) ∨ 97 ≤ c.toNat ∧ c.toNat ≤ 122 at halpha
    simp [UpdateCheck.jsSpace]
    omega

namespace Version

variable (v : Version)

def suffixFields : Suffix → List (List Char)
  | .release => []
  | .revision w => [w.digits]
  | .pre stage n => preFields stage n

/-- The parts of a version between dots, when its dash is made one. -/
def fields : List (List Char) := v.base ++ suffixFields v.suffix

theorem base_plain : ∀ s ∈ v.base, Plain s := by
  simp only [base, List.forall_mem_cons]
  exact ⟨v.x.plain, v.y.plain, v.z.plain, fun s hs => absurd hs List.not_mem_nil⟩

theorem preFields_plain (stage : Stage) (n : Option Numeral) : ∀ s ∈ preFields stage n, Plain s := by
  cases n with
  | none => exact List.forall_mem_singleton.mpr stage.plain
  | some n =>
    exact List.forall_mem_cons.mpr ⟨stage.plain, List.forall_mem_singleton.mpr n.plain⟩

theorem fields_plain : ∀ s ∈ v.fields, Plain s := by
  intro s hs
  rcases List.mem_append.mp hs with hs | hs
  · exact v.base_plain s hs
  · cases hsuffix : v.suffix with
    | release =>
      rw [hsuffix] at hs
      cases hs
    | revision w =>
      rw [hsuffix] at hs
      obtain rfl := List.mem_singleton.mp hs
      exact w.plain
    | pre stage n =>
      rw [hsuffix] at hs
      exact preFields_plain stage n s hs

theorem not_mem_dots {l : List (List Char)} (h : ∀ s ∈ l, Plain s) : '-' ∉ dots l := by
  intro hmem
  rcases mem_dots hmem with hdot | ⟨s, hs, hc⟩
  · exact absurd hdot (by decide)
  · exact (h s hs).not_mem (by decide) (by decide) hc

theorem text_cases : (v.text = dots v.fields ∧ v.pieces = [dots v.fields]) ∨
    ∃ stage n, v.suffix = .pre stage n ∧ v.pieces = [dots v.base, dots (preFields stage n)] ∧
      v.text = dots v.base ++ '-' :: dots (preFields stage n) := by
  cases h : v.suffix with
  | release => exact .inl (by simp [text, pieces, fields, suffixFields, h])
  | revision w => exact .inl (by simp [text, pieces, fields, suffixFields, h])
  | pre stage n =>
    exact .inr ⟨stage, n, rfl, by simp [pieces, h], by simp [text, pieces, h, List.intercalate]⟩

theorem fields_pre {stage : Stage} {n : Option Numeral} (h : v.suffix = .pre stage n) :
    dots v.fields = dots v.base ++ '.' :: dots (preFields stage n) := by
  rw [fields, h]
  exact dots_append (List.cons_ne_nil _ _) (List.cons_ne_nil _ _)

theorem replaceFirst_text : replaceFirst v.text = dots v.fields := by
  rcases v.text_cases with ⟨htext, -⟩ | ⟨stage, n, hsuffix, -, htext⟩
  · rw [htext, replaceFirst_of_not_mem (not_mem_dots v.fields_plain)]
  · rw [htext, replaceFirst_append (not_mem_dots v.base_plain), v.fields_pre hsuffix]

theorem map_text : (v.text.map fun c => if c = '-' then '.' else c) = dots v.fields := by
  rcases v.text_cases with ⟨htext, -⟩ | ⟨stage, n, hsuffix, -, htext⟩
  · rw [htext, map_of_not_mem (not_mem_dots v.fields_plain)]
  · rw [htext, List.map_append, List.map_cons, map_of_not_mem (not_mem_dots v.base_plain),
      map_of_not_mem (not_mem_dots (preFields_plain stage n)), v.fields_pre hsuffix]
    rfl

theorem splitOn_fields : (dots v.fields).splitOn '.' = v.fields :=
  splitOn_dots (List.append_ne_nil_of_left_ne_nil (List.cons_ne_nil _ _) _)
    fun s hs => (v.fields_plain s hs).not_mem (by decide) (by decide)

theorem jsSpace_text {c : Char} (hc : c ∈ v.text) : jsSpace c = false := by
  have hmem := List.mem_map_of_mem (f := fun c => if c = '-' then '.' else c) hc
  rw [v.map_text] at hmem
  split_ifs at hmem with hdash
  · rw [hdash]
    decide
  · rcases mem_dots hmem with rfl | ⟨s, hs, hmem⟩
    · decide
    · exact (v.fields_plain s hs).jsSpace hmem

theorem jsTrim_of_not {s : List Char} (h : ∀ c ∈ s, jsSpace c = false) : jsTrim s = s := by
  have hleft : s.dropWhile jsSpace = s := by
    cases s with
    | nil => rfl
    | cons c s => rw [List.dropWhile_cons_of_neg (by simp [h c (List.mem_cons_self ..)])]
  rw [jsTrim, hleft, List.rdropWhile_eq_self_iff]
  intro hne
  simp [h _ (List.getLast_mem hne)]

theorem rank_eq : v.rank = v.baseRank ++ v.tailRank := rfl

theorem verTail_suffixFields : verTail (suffixFields v.suffix) =
    v.tailRank.map fun n : ℕ => some (n : ℤ) := by
  unfold tailRank
  cases v.suffix with
  | release => rfl
  | revision w =>
    simp only [suffixFields, verTail, stageOf_digits, Numeral.parseInt_digits]
    rfl
  | pre stage n =>
    cases n with
    | none =>
      simp only [suffixFields, preFields, Option.toList_none, List.map_nil, verTail,
        stageOf_text]
      rfl
    | some n =>
      simp only [suffixFields, preFields, Option.toList_some, List.map_cons, List.map_nil,
        verTail, stageOf_text, List.head?_cons, Option.bind_some, Numeral.parseInt_digits]
      rfl

/-- The script reads a version as its precedence. -/
theorem parseVer_text : parseVer v.text = some (v.rank.map fun n : ℕ => some (n : ℤ)) := by
  rw [parseVer, jsTrim_of_not fun c => v.jsSpace_text, v.replaceFirst_text, v.splitOn_fields]
  simp only [fields, base, List.cons_append, List.nil_append, Numeral.parseInt_digits,
    v.verTail_suffixFields, rank, baseRank, List.map_cons]

end Version

/-! ## Reading the name of an asset -/

namespace Asset

variable (a : Asset)

/-- There is a part behind `name-X.Y.Z`. -/
def HasThird : Prop := (∃ stage n, a.version.suffix = .pre stage n) ∨ a.parts ≠ []

theorem splitOn_text : a.text.splitOn '-' = a.name :: a.version.pieces ++ a.parts := by
  refine List.splitOn_intercalate '-' ?_ (List.cons_ne_nil _ _)
  intro s hs
  rcases List.mem_append.mp hs with hs | hs
  · rcases List.mem_cons.mp hs with rfl | hs
    · exact a.name_dash
    · rcases a.version.text_cases with ⟨-, hpieces⟩ | ⟨stage, n, -, hpieces, -⟩
      · rw [hpieces] at hs
        obtain rfl := List.mem_singleton.mp hs
        exact Version.not_mem_dots a.version.fields_plain
      · rw [hpieces] at hs
        rcases List.mem_pair.mp hs with rfl | rfl
        · exact Version.not_mem_dots a.version.base_plain
        · exact Version.not_mem_dots (Version.preFields_plain stage n)
  · exact a.parts_dash s hs

end Asset

namespace Version

variable (v : Version)

/-- A number of the base that is no `int` is read as 0. -/
def Fits : Prop := ∀ n ∈ v.baseRank, n < 2 ^ 31

instance : Decidable v.Fits := inferInstanceAs (Decidable (∀ n ∈ _, _))

/-- A pre-release with a number. -/
def Numbered : Prop := ∃ stage n, v.suffix = .pre stage (some n)

theorem nums_cons (rest : List (List Char)) (h : v.Fits) :
    nums (v.base ++ rest) = [(v.x.value : ℤ), v.y.value, v.z.value] ++
      match rest with
      | [] => []
      | p₃ :: rest => (stageOf p₃).toList ++
        match rest with
        | [] => []
        | p₄ :: _ => [intOf p₄] := by
  simp only [Fits, baseRank, List.forall_mem_cons] at h
  obtain ⟨hx, hy, hz, -⟩ := h
  rw [← v.x.intOf_digits hx, ← v.y.intOf_digits hy, ← v.z.intOf_digits hz]
  rfl

/-- What the built-in check makes of the current version. -/
theorem nums_fields (h : v.Fits) : ∃ more : List ℤ,
    nums v.fields = [(v.x.value : ℤ), v.y.value, v.z.value] ++ more ∧
      (more.length = 2 ↔ v.Numbered) ∧ more.length ≤ 2 := by
  refine ⟨_, v.nums_cons (suffixFields v.suffix) h, ?_, ?_⟩
  · unfold Numbered
    cases v.suffix with
    | release => simp [suffixFields]
    | revision w => simp [suffixFields, stageOf_digits]
    | pre stage n => cases n <;> simp [suffixFields, preFields, stageOf_text]
  · cases v.suffix with
    | release => simp [suffixFields]
    | revision w => simp [suffixFields, stageOf_digits]
    | pre stage n => cases n <;> simp [suffixFields, preFields, stageOf_text]

/-- What it makes of the asset, of which it keeps the base only. -/
theorem nums_asset (h : v.Fits) {s : List Char} (hs : s = dots v.base ∨
    s = dots v.fields ∧ ∀ stage n, v.suffix ≠ .pre stage n) :
    3 ≤ (s.splitOn '.').length ∧
      nums (s.splitOn '.') = [(v.x.value : ℤ), v.y.value, v.z.value] := by
  rcases hs with rfl | ⟨rfl, hpre⟩
  · have hsplit : (dots v.base).splitOn '.' = v.base :=
      splitOn_dots (List.cons_ne_nil _ _)
        fun s hs => (v.base_plain s hs).not_mem (by decide) (by decide)
    rw [hsplit]
    have hnums := v.nums_cons [] h
    rw [List.append_nil] at hnums
    exact ⟨le_rfl, hnums⟩
  · rw [v.splitOn_fields]
    refine ⟨by simp [fields, base], ?_⟩
    rw [fields, v.nums_cons _ h]
    cases hsuffix : v.suffix with
    | release => rfl
    | revision w => simp [suffixFields, stageOf_digits]
    | pre stage n => exact absurd hsuffix (hpre stage n)

end Version

/-- Lexicographic comparison by the first entries that differ. -/
theorem firstDifference_lt {α : Type} {greater : α → α → Bool} {f : ℕ → α}
    (hf : ∀ m n, greater (f m) (f n) = decide (n < m)) {l k : List ℕ}
    (hlength : l.length = k.length) :
    firstDifference greater (l.map f) (k.map f) =
      if l = k then none else some (decide (k < l)) := by
  induction l generalizing k with
  | nil =>
    obtain rfl := List.length_eq_zero_iff.mp hlength.symm
    rfl
  | cons m l ih =>
    cases k with
    | nil => cases hlength
    | cons n k =>
      rw [List.map_cons, List.map_cons, firstDifference, hf, hf, ih (Nat.succ.inj hlength)]
      simp only [decide_eq_true_eq, List.cons_lt_cons_iff, List.cons.injEq]
      rcases lt_trichotomy m n with h | rfl | h
      · simp [h, h.not_gt, h.ne, h.ne']
      · simp
      · simp [h, h.ne']

theorem isGreater_cast (m n : ℕ) : isGreater (m : ℤ) (n : ℤ) = decide (n < m) := by
  simp [isGreater]

theorem numberGreater_cast (m n : ℕ) :
    numberGreater (some (m : ℤ)) (some (n : ℤ)) = decide (n < m) := by
  simp [numberGreater]

/-- The built-in check: the bases decide, and a current pre-release with a number. -/
theorem newerNums_base (a c : Version) (more : List ℤ) :
    newerNums [(a.x.value : ℤ), a.y.value, a.z.value]
        ([(c.x.value : ℤ), c.y.value, c.z.value] ++ more) =
      if a.baseRank = c.baseRank then decide (more.length = 2)
      else decide (c.baseRank < a.baseRank) := by
  have hdiff : firstDifference isGreater [(a.x.value : ℤ), a.y.value, a.z.value]
      [(c.x.value : ℤ), c.y.value, c.z.value] =
      if a.baseRank = c.baseRank then none else some (decide (c.baseRank < a.baseRank)) :=
    firstDifference_lt (l := a.baseRank) (k := c.baseRank) isGreater_cast rfl
  unfold newerNums
  rw [if_neg (by simp)]
  simp only [List.take_succ_cons, List.take_zero, List.cons_append, List.nil_append, hdiff]
  by_cases hbase : a.baseRank = c.baseRank
  · rw [if_pos hbase, if_pos hbase]
    by_cases hmore : more.length = 2 <;> simp [hmore]
  · rw [if_neg hbase, if_neg hbase]

theorem append_lt_append_iff {l k : List ℕ} (hlength : l.length = k.length) (t t' : List ℕ) :
    l ++ t < k ++ t' ↔ l < k ∨ l = k ∧ t < t' := by
  induction l generalizing k with
  | nil =>
    obtain rfl := List.length_eq_zero_iff.mp hlength.symm
    simp
  | cons m l ih =>
    cases k with
    | nil => cases hlength
    | cons n k =>
      simp only [List.cons_append, List.cons_lt_cons_iff, ih (Nat.succ.inj hlength),
        List.cons.injEq]
      tauto

namespace Version

theorem newer_iff (a c : Version) : a.Newer c ↔
    c.baseRank < a.baseRank ∨ c.baseRank = a.baseRank ∧ c.tailRank < a.tailRank :=
  append_lt_append_iff (l := c.baseRank) (k := a.baseRank) rfl _ _

theorem length_tailRank (v : Version) : v.tailRank.length = 3 := by
  unfold tailRank
  cases v.suffix <;> rfl

theorem pieces_of_not_pre {v : Version} (h : ¬ ∃ stage n, v.suffix = .pre stage n) :
    v.pieces = [dots v.fields] := by
  rcases v.text_cases with ⟨-, hpieces⟩ | ⟨stage, n, hsuffix, -, -⟩
  · exact hpieces
  · exact absurd ⟨stage, n, hsuffix⟩ h

theorem text_ne_nil (v : Version) : v.text ≠ [] := by
  intro h
  have hmap := v.map_text
  rw [h] at hmap
  have hsplit := v.splitOn_fields
  rw [← hmap] at hsplit
  have hlength := congrArg List.length hsplit
  simp [fields, base] at hlength

end Version

/-- The answer of the built-in check. -/
theorem isNewer_text {a : Asset} {c : Version} (ha : a.version.Fits) (hc : c.Fits) (answer : Bool) :
    isNewer c.text a.text = some answer ↔ a.HasThird ∧
      (answer = true ↔ c.baseRank < a.version.baseRank ∨
        a.version.baseRank = c.baseRank ∧ c.Numbered) := by
  obtain ⟨more, hnums, hnumbered, -⟩ := c.nums_fields hc
  have hread : ∀ s : List Char, (s = dots a.version.base ∨
      s = dots a.version.fields ∧ ∀ stage n, a.version.suffix ≠ .pre stage n) →
      ((if (s.splitOn '.').length < 3 ∨ ((dots c.fields).splitOn '.').length < 3 then some false
        else some (newerNums (nums (s.splitOn '.')) (nums ((dots c.fields).splitOn '.')))) =
        some answer ↔
      (answer = true ↔ c.baseRank < a.version.baseRank ∨
        a.version.baseRank = c.baseRank ∧ c.Numbered)) := by
    intro s hs
    obtain ⟨hlength, hasset⟩ := a.version.nums_asset ha hs
    have hcurrent : ¬ c.fields.length < 3 := by simp [Version.fields, Version.base]
    rw [c.splitOn_fields, if_neg (by omega), hasset, hnums, newerNums_base, ← hnumbered,
      Option.some.injEq]
    by_cases hbase : a.version.baseRank = c.baseRank
    · simp only [hbase, lt_irrefl, false_or, true_and]
      cases answer <;> simp
    · simp only [hbase, false_and, or_false]
      cases answer <;> simp
  rw [isNewer, if_neg c.text_ne_nil, c.map_text, a.splitOn_text]
  by_cases hpre : ∃ stage n, a.version.suffix = .pre stage n
  · obtain ⟨stage, n, hsuffix⟩ := hpre
    have hthird : a.HasThird := .inl ⟨stage, n, hsuffix⟩
    simp only [Version.pieces, hsuffix, List.cons_append, List.nil_append, hthird, true_and]
    exact hread _ (.inl rfl)
  · have hthird : a.HasThird ↔ a.parts ≠ [] := or_iff_right hpre
    rw [Version.pieces_of_not_pre hpre, hthird]
    cases hparts : a.parts with
    | nil => simp
    | cons p ps =>
      simp only [List.cons_append, List.nil_append, ne_eq, reduceCtorEq, not_false_eq_true,
        true_and]
      exact hread _ (.inr ⟨rfl, fun stage n h => hpre ⟨stage, n, h⟩⟩)

end NekoBox.Window.UpdateCheck
