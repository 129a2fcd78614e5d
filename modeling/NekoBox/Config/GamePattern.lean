import NekoBox.Config.GameMod

/-!
# What a process pattern matches

A pattern is to match a path whose last component is the name, with `*` and `?` as wildcards,
whatever the case and with or without `.exe`.

* `matchString_iff`: it matches a path behind the start of a component;
* `patternSound_iff`: it is the right one just for names without wildcards.
-/

namespace NekoBox.Config.GameMod

open NekoBox.Lib NekoBox.Lib.Regex NekoBox.Qt

variable {F : Folding}

/-! ## What a pattern matches -/

def isSeparator (c : Char) : Bool := c = '/' || c = '\\'

/-- A component of a path begins behind this. -/
def Starts (u : List Char) : Prop := u = [] ∨ ∃ u' c, u = u' ++ [c] ∧ isSeparator c = true

variable (F) in
/-- A text that the body of a pattern matches. -/
def Fits : List Item → List Char → Prop
  | [], v => v = []
  | .lit c :: items, v => ∃ d v', v = d :: v' ∧ F.fold d = F.fold c ∧ Fits items v'
  | .any :: items, v => ∃ d v', v = d :: v' ∧ d ≠ '\n' ∧ Fits items v'
  | .anyStar :: items, v => ∃ v₁ v₂, v = v₁ ++ v₂ ∧ (∀ d ∈ v₁, d ≠ '\n') ∧ Fits items v₂

theorem matches_lit {c : Char} {u v w : List Char} :
    Matches F.fold (.lit true c) u v w ↔ ∃ d, v = [d] ∧ F.fold d = F.fold c := by
  refine exists_congr fun d => and_congr_right fun _ => ?_
  constructor
  · rintro (rfl | ⟨-, h⟩)
    · rfl
    · exact h
  · exact fun h => .inr ⟨rfl, h⟩

theorem matches_dots {u v w : List Char} :
    Matches F.fold (.star .any) u v w ↔ ∀ d ∈ v, d ≠ '\n' :=
  matches_star_iff fun _ _ _ => Iff.rfl

theorem matches_items {items : List Item} {u v w : List Char} :
    Matches F.fold (cats (items.map Item.regex)) u v w ↔ Fits F items v := by
  induction items generalizing u v with
  | nil => exact Iff.rfl
  | cons i items ih =>
    rw [List.map_cons, matches_cats_cons]
    simp only [ih]
    cases i with
    | lit c =>
      constructor
      · rintro ⟨v₁, v₂, rfl, hc, hrest⟩
        obtain ⟨d, rfl, hd⟩ := matches_lit.mp hc
        exact ⟨d, v₂, rfl, hd, hrest⟩
      · rintro ⟨d, v', rfl, hd, hrest⟩
        exact ⟨[d], v', rfl, matches_lit.mpr ⟨d, rfl, hd⟩, hrest⟩
    | any =>
      constructor
      · rintro ⟨v₁, v₂, rfl, ⟨d, rfl, hd⟩, hrest⟩
        exact ⟨d, v₂, rfl, hd, hrest⟩
      · rintro ⟨d, v', rfl, hd, hrest⟩
        exact ⟨[d], v', rfl, ⟨d, rfl, hd⟩, hrest⟩
    | anyStar =>
      constructor
      · rintro ⟨v₁, v₂, rfl, hdots, hrest⟩
        exact ⟨v₁, v₂, rfl, matches_dots.mp hdots, hrest⟩
      · rintro ⟨v₁, v₂, rfl, hdots, hrest⟩
        exact ⟨v₁, v₂, rfl, matches_dots.mpr hdots, hrest⟩

theorem isSeparator_iff {c : Char} : isSeparator c = true ↔ c = '/' ∨ c = '\\' := by
  simp [isSeparator]

/-- A separator is the only character of its fold. -/
theorem separator_of_fold {c d : Char} (hc : isSeparator c = true) (h : F.fold d = F.fold c) :
    d = c := by
  rcases isSeparator_iff.mp hc with rfl | rfl
  · have hself : F.fold '/' = '/' := F.fold_of_not_alpha (by decide) (by decide)
    exact F.eq_of_fold_eq (by decide) (by decide) (h.trans hself)
  · have hself : F.fold '\\' = '\\' := F.fold_of_not_alpha (by decide) (by decide)
    exact F.eq_of_fold_eq (by decide) (by decide) (h.trans hself)

theorem matches_pathStart {u v w : List Char} :
    Matches F.fold pathStart u v w ↔
      v = [] ∧ u = [] ∨ ∃ a c, v = a ++ [c] ∧ (∀ d ∈ a, d ≠ '\n') ∧ isSeparator c = true := by
  refine or_congr (matches_cats_singleton.trans Iff.rfl) ?_
  rw [matches_cats_cons]
  constructor
  · rintro ⟨a, v₂, rfl, hdots, hset⟩
    obtain ⟨d, rfl, c, hc, hd⟩ := matches_cats_singleton.mp hset
    have hsep : isSeparator c = true := by
      rcases List.mem_pair.mp hc with rfl | rfl <;> rfl
    refine ⟨a, d, rfl, matches_dots.mp hdots, ?_⟩
    rcases hd with rfl | ⟨-, hfold⟩
    · exact hsep
    · rw [separator_of_fold hsep hfold]
      exact hsep
  · rintro ⟨a, c, rfl, hdots, hc⟩
    refine ⟨a, [c], rfl, matches_dots.mpr hdots, matches_cats_singleton.mpr ⟨c, rfl, c, ?_,
      .inl rfl⟩⟩
    rcases isSeparator_iff.mp hc with rfl | rfl <;> decide

/-- Literals match up to case. -/
theorem fits_lit {b v : List Char} : Fits F (b.map .lit) v ↔ v.map F.fold = b.map F.fold := by
  induction b generalizing v with
  | nil => simp [Fits]
  | cons c b ih =>
    rw [List.map_cons, List.map_cons, List.map_eq_cons_iff]
    refine exists_congr fun d => exists_congr fun v' => and_congr_right fun _ => ?_
    exact and_congr_right fun _ => ih

theorem exe_eq : exe = ['.', 'e', 'x', 'e'] := by decide

theorem map_fold_exe : exe.map F.fold = exe := by
  rw [exe_eq]
  simp only [List.map_cons, List.map_nil]
  rw [F.ascii '.' (by decide), F.ascii 'e' (by decide), F.ascii 'x' (by decide)]
  rfl

theorem matches_exeOrNot {u v w : List Char} :
    Matches F.fold exeOrNot u v w ↔ v = [] ∨ v.map F.fold = exe := by
  refine or_congr_right ?_
  have hitems : [.lit true '.', .lit true 'e', .lit true 'x', .lit true 'e'] =
      (exe.map Item.lit).map Item.regex := by decide
  rw [hitems, matches_items, fits_lit, map_fold_exe]

/-- What a pattern matches: behind the start of a component, a body and perhaps `.exe`. -/
theorem matchString_iff {items : List Item} {path : List Char} :
    MatchString F.fold (patternRegex items) path ↔
      ∃ u v e, path = u ++ v ++ e ∧ Starts u ∧ Fits F items v ∧
        (e = [] ∨ e.map F.fold = exe) := by
  have hregex : patternRegex items =
      cats ([pathStart] ++ (items.map Item.regex ++ ([exeOrNot] ++ [.eot]))) := rfl
  rw [MatchString, hregex]
  simp only [matches_cats_append, matches_cats_singleton, matches_pathStart, matches_items,
    matches_exeOrNot]
  constructor
  · rintro ⟨u, _, w, rfl, v₁, _, rfl, hstart, v₂, _, rfl, hfits, v₃, v₄, rfl, hexe, hend, hw⟩
    subst hend hw
    refine ⟨u ++ v₁, v₂, v₃, by simp, ?_, hfits, hexe⟩
    rcases hstart with ⟨rfl, rfl⟩ | ⟨a, c, rfl, -, hc⟩
    · exact .inl rfl
    · exact .inr ⟨u ++ a, c, (List.append_assoc ..).symm, hc⟩
  · rintro ⟨u, v, e, rfl, hstart, hfits, hexe⟩
    rcases hstart with rfl | ⟨u', c, rfl, hc⟩
    · exact ⟨[], v ++ e, [], by simp, [], v ++ e, rfl, .inl ⟨rfl, rfl⟩, v, e, rfl, hfits, e, [],
        by simp, hexe, rfl, rfl⟩
    · exact ⟨u', c :: (v ++ e), [], by simp, [c], v ++ e, rfl,
        .inr ⟨[], c, rfl, fun _ h => absurd h List.not_mem_nil, hc⟩, v, e, rfl, hfits, e, [],
        by simp, hexe, rfl, rfl⟩

/-! ## What a pattern is for -/

def lastComponent (path : List Char) : List Char := path.rtakeWhile fun c => !isSeparator c

/-- A name with wildcards and a text, ignoring case. -/
inductive Glob (F : Folding) : List Char → List Char → Prop
  | nil : Glob F [] []
  | none (p s : List Char) : Glob F p s → Glob F ('*' :: p) s
  | more (p s : List Char) (c : Char) : Glob F ('*' :: p) s → Glob F ('*' :: p) (c :: s)
  | one (p s : List Char) (c : Char) : Glob F p s → Glob F ('?' :: p) (c :: s)
  | char (c d : Char) (p s : List Char) : c ≠ '*' → c ≠ '?' → F.fold d = F.fold c →
    Glob F p s → Glob F (c :: p) (d :: s)

/-- The pattern of a name matches the paths that have the name. -/
def PatternSound (F : Folding) (p : List Char) : Prop :=
  ∃ pattern ∈ caseInsensitiveProcessPathPatterns F [p], ∃ r, compile pattern = some r ∧
    ∀ path, MatchString F.fold r path ↔ Glob F (chopExe F p) (chopExe F (lastComponent path))

/-- A name of which the pattern is the right one. -/
structure Plain (F : Folding) (p : List Char) : Prop where
  ne : p ≠ []
  trimmed_eq : trimmed p = p
  ascii : ∀ c ∈ chopExe F p, c.toNat < 128
  literal : ∀ c ∈ chopExe F p, c ≠ '*' ∧ c ≠ '?' ∧ isSeparator c = false
  suffix : endsWithExe F (chopExe F p) = false
  octal : ¬ NulOctal (chopExe F p)

/-! ### The suffix -/

theorem endsWithExe_iff {s : List Char} :
    endsWithExe F s = true ↔ ∃ t e, s = t ++ e ∧ e.map F.fold = exe := by
  constructor
  · intro h
    exact ⟨s.take (s.length - 4), s.drop (s.length - 4), (List.take_append_drop _ _).symm,
      beq_iff_eq.mp h⟩
  · rintro ⟨t, e, rfl, he⟩
    have hlength : e.length = 4 := by
      have h := congrArg List.length he
      rw [List.length_map] at h
      exact h
    rw [endsWithExe, beq_iff_eq, List.length_append, hlength, Nat.add_sub_cancel, List.drop_left]
    exact he

theorem chopExe_append {t e : List Char} (he : e.map F.fold = exe) : chopExe F (t ++ e) = t := by
  have hlength : e.length = 4 := by
    have h := congrArg List.length he
    rw [List.length_map] at h
    exact h
  rw [chopExe, if_pos (endsWithExe_iff.mpr ⟨t, e, rfl, he⟩), List.length_append, hlength,
    Nat.add_sub_cancel, List.take_left]

theorem chopExe_of_not {s : List Char} (h : endsWithExe F s = false) : chopExe F s = s := by
  rw [chopExe, if_neg (by rw [h]; exact Bool.false_ne_true)]

/-- A character of a suffix is the dot or a letter. -/
theorem mem_exe {e : List Char} (he : e.map F.fold = exe) {d : Char} (hd : d ∈ e) :
    d = '.' ∨ d.isAlpha = true := by
  have hfold : F.fold d ∈ ['.', 'e', 'x', 'e'] := by
    rw [← exe_eq, ← he]
    exact List.mem_map_of_mem hd
  have hletter : ∀ c : Char, c.toNat < 128 → c.isAlpha = true → c ≠ 'k' → c ≠ 's' →
      F.fold d = c → d.isAlpha = true := by
    intro c hc halpha hk hs h
    by_cases hlt : d.toNat < 128
    · rw [F.ascii d hlt] at h
      rcases toLower_cases hlt with heq | ⟨hd, -⟩
      · rw [← heq, h]
        exact halpha
      · exact hd
    · rcases F.foreign d (by omega) (by rw [h]; exact hc) with hk' | hs'
      · exact absurd (h.symm.trans hk') hk
      · exact absurd (h.symm.trans hs') hs
  simp only [List.mem_cons, List.not_mem_nil, or_false] at hfold
  rcases hfold with h | h | h | h
  · exact .inl (F.eq_of_fold_eq (by decide) (by decide) h)
  · exact .inr (hletter 'e' (by decide) (by decide) (by decide) (by decide) h)
  · exact .inr (hletter 'x' (by decide) (by decide) (by decide) (by decide) h)
  · exact .inr (hletter 'e' (by decide) (by decide) (by decide) (by decide) h)

theorem not_mem_exe {e : List Char} (he : e.map F.fold = exe) {c : Char} (hdot : c ≠ '.')
    (halpha : c.isAlpha = false) : c ∉ e := by
  intro hc
  rcases mem_exe he hc with rfl | h
  · exact hdot rfl
  · rw [halpha] at h
    cases h

/-! ### The last component -/

theorem not_isSeparator_of_mem {path : List Char} {c : Char} (h : c ∈ lastComponent path) :
    isSeparator c = false := by
  simpa using List.mem_rtakeWhile_imp h

theorem exists_lastComponent (path : List Char) :
    ∃ u, path = u ++ lastComponent path ∧ Starts u := by
  refine ⟨path.rdropWhile fun c => !isSeparator c, ?_, ?_⟩
  · exact List.rdropWhile_append_rtakeWhile.symm
  · by_cases hnil : path.rdropWhile (fun c => !isSeparator c) = []
    · exact .inl hnil
    · refine .inr ⟨_, _, (List.dropLast_append_getLast hnil).symm, ?_⟩
      have hlast := List.rdropWhile_last_not (fun c => !isSeparator c) path hnil
      simpa using hlast

theorem lastComponent_append {u v : List Char} (hu : Starts u)
    (hv : ∀ c ∈ v, isSeparator c = false) : lastComponent (u ++ v) = v := by
  induction v using List.reverseRecOn with
  | nil =>
    rw [List.append_nil, lastComponent]
    rcases hu with rfl | ⟨u', c, rfl, hc⟩
    · exact List.rtakeWhile_nil _
    · exact List.rtakeWhile_concat_neg _ _ _ (by simp [hc])
  | append_singleton v c ih =>
    have hc : isSeparator c = false := hv c (by simp)
    rw [← List.append_assoc, lastComponent, List.rtakeWhile_concat_pos _ _ _ (by simp [hc])]
    exact congrArg (· ++ [c]) (ih fun d hd => hv d (List.mem_append_left _ hd))

/-! ### Globs -/

theorem width_le_of_glob {p s : List Char} (h : Glob F p s) :
    width (p.map itemOf) ≤ s.length := by
  induction h with
  | nil => exact le_rfl
  | none p s _ ih =>
    rw [List.map_cons, width_cons]
    exact ih
  | more p s c _ ih => exact ih.trans (Nat.le_succ _)
  | one p s c _ ih =>
    rw [List.map_cons, width_cons]
    exact Nat.succ_le_succ ih
  | char c d p s hstar hmark _ _ ih =>
    rw [List.map_cons, width_cons, itemOf, if_neg hstar, if_neg hmark]
    exact Nat.succ_le_succ ih

/-- A separator of a name is one of the text. -/
theorem separator_mem_of_glob {p s : List Char} (h : Glob F p s) {c : Char} (hc : c ∈ p)
    (hsep : isSeparator c = true) : c ∈ s := by
  induction h with
  | nil => cases hc
  | none p s _ ih =>
    refine ih ((List.mem_cons.mp hc).resolve_left ?_)
    rintro rfl
    cases hsep
  | more p s d _ ih => exact List.mem_cons_of_mem _ (ih hc)
  | one p s d _ ih =>
    refine List.mem_cons_of_mem _ (ih ((List.mem_cons.mp hc).resolve_left ?_))
    rintro rfl
    cases hsep
  | char c' d p s _ _ hfold _ ih =>
    rcases List.mem_cons.mp hc with rfl | hc
    · rw [separator_of_fold hsep hfold]
      exact List.mem_cons_self ..
    · exact List.mem_cons_of_mem _ (ih hc)

/-- A name without wildcards. -/
theorem glob_iff_of_literal {p s : List Char} (hp : ∀ c ∈ p, c ≠ '*' ∧ c ≠ '?') :
    Glob F p s ↔ s.map F.fold = p.map F.fold := by
  constructor
  · intro h
    induction h with
    | nil => rfl
    | none p s _ _ => exact absurd rfl (hp '*' (List.mem_cons_self ..)).1
    | more p s c _ _ => exact absurd rfl (hp '*' (List.mem_cons_self ..)).1
    | one p s c _ _ => exact absurd rfl (hp '?' (List.mem_cons_self ..)).2
    | char c d p s _ _ hfold _ ih =>
      rw [List.map_cons, List.map_cons, hfold, ih (List.forall_mem_cons.mp hp).2]
  · intro h
    induction p generalizing s with
    | nil =>
      obtain rfl := List.map_eq_nil_iff.mp h
      exact .nil
    | cons c p ih =>
      obtain ⟨d, s, rfl, hd, hs⟩ := List.map_eq_cons_iff.mp h
      obtain ⟨⟨hstar, hmark⟩, hp⟩ := List.forall_mem_cons.mp hp
      exact .char c d p s hstar hmark hd (ih hp hs)

/-- A text that a body matches, with as little as it needs. -/
def sample : List Item → List Char
  | [] => []
  | .lit c :: items => c :: sample items
  | .any :: items => 'x' :: sample items
  | .anyStar :: items => sample items

theorem fits_sample (items : List Item) : Fits F items (sample items) := by
  induction items with
  | nil => rfl
  | cons i items ih =>
    cases i with
    | lit c => exact ⟨c, _, rfl, rfl, ih⟩
    | any => exact ⟨'x', _, rfl, by decide, ih⟩
    | anyStar => exact ⟨[], _, rfl, fun _ h => absurd h List.not_mem_nil, ih⟩

theorem length_sample (items : List Item) : (sample items).length = width items := by
  induction items with
  | nil => rfl
  | cons i items ih =>
    rw [width_cons]
    cases i <;> simp [sample, ih]

theorem sample_lit (b : List Char) : sample (b.map .lit) = b := by
  induction b with
  | nil => rfl
  | cons c b ih => rw [List.map_cons, sample, ih]

/-- The name with line feeds for its wildcards. -/
def broken (c : Char) : Char := if c = '*' ∨ c = '?' then '\n' else c

theorem glob_broken (b : List Char) : Glob F b (b.map broken) := by
  induction b with
  | nil => exact .nil
  | cons c b ih =>
    rw [List.map_cons]
    by_cases hstar : c = '*'
    · subst hstar
      exact .more _ _ _ (.none _ _ ih)
    · by_cases hmark : c = '?'
      · subst hmark
        exact .one _ _ _ ih
      · rw [broken, if_neg (not_or.mpr ⟨hstar, hmark⟩)]
        exact .char c c _ _ hstar hmark rfl ih

/-- A body matches no line feed that is not its own. -/
theorem count_of_fits {b v : List Char} (h : Fits F (b.map itemOf) v) :
    v.count '\n' = b.count '\n' := by
  induction b generalizing v with
  | nil =>
    obtain rfl : v = [] := h
    rfl
  | cons c b ih =>
    rw [List.map_cons, itemOf] at h
    split_ifs at h with hstar hmark
    · subst hstar
      obtain ⟨v₁, v₂, rfl, hdots, hrest⟩ := h
      have hnone : v₁.count '\n' = 0 := List.count_eq_zero.mpr fun hmem => hdots _ hmem rfl
      rw [List.count_append, hnone, ih hrest, Nat.zero_add, List.count_cons_of_ne (by decide)]
    · subst hmark
      obtain ⟨d, v', rfl, hd, hrest⟩ := h
      rw [List.count_cons_of_ne hd, ih hrest, List.count_cons_of_ne (by decide)]
    · obtain ⟨d, v', rfl, hd, hrest⟩ := h
      have hself : F.fold '\n' = '\n' := F.fold_of_not_alpha (by decide) (by decide)
      rw [List.count_cons, List.count_cons, ih hrest]
      congr 1
      by_cases hc : c = '\n'
      · subst hc
        rw [F.eq_of_fold_eq (by decide) (by decide) (hd.trans hself)]
      · have hd' : d ≠ '\n' := by
          rintro rfl
          rw [hself] at hd
          exact hc (F.eq_of_fold_eq (by decide) (by decide) hd.symm)
        rw [if_neg (by simpa using hd'), if_neg (by simpa using hc)]

theorem count_map_broken (b : List Char) :
    (b.map broken).count '\n' = b.count '\n' + b.countP fun c => c = '*' ∨ c = '?' := by
  induction b with
  | nil => rfl
  | cons c b ih =>
    rw [List.map_cons, List.count_cons, List.count_cons, List.countP_cons, ih, broken]
    by_cases hwild : c = '*' ∨ c = '?'
    · have hc : c ≠ '\n' := by
        rintro rfl
        exact absurd hwild (by decide)
      simp [hwild, hc]
      omega
    · simp [hwild]
      omega

/-! ### Blanks -/

theorem exists_trimmed (p : List Char) :
    ∃ l r, p = l ++ trimmed p ++ r ∧ (∀ c ∈ l, isSpace c = true) ∧ ∀ c ∈ r, isSpace c = true := by
  refine ⟨p.takeWhile isSpace, (p.dropWhile isSpace).rtakeWhile isSpace, ?_,
    fun c => List.mem_takeWhile_imp, fun c => List.mem_rtakeWhile_imp⟩
  have hright : trimmed p ++ (p.dropWhile isSpace).rtakeWhile isSpace = p.dropWhile isSpace :=
    List.rdropWhile_append_rtakeWhile
  rw [List.append_assoc, hright, List.takeWhile_append_dropWhile]

theorem width_blanks {l : List Char} (h : ∀ c ∈ l, isSpace c = true) :
    width (l.map itemOf) = l.length := by
  rw [width, List.countP_eq_length.mpr, List.length_map]
  intro i hi
  obtain ⟨c, hc, rfl⟩ := List.mem_map.mp hi
  have hne : c ≠ '*' := by
    rintro rfl
    exact absurd (h '*' hc) (by decide)
  rw [itemOf, if_neg hne]
  split_ifs <;> rfl

theorem isSpace_exe {e : List Char} (he : e.map F.fold = exe) {c : Char} (hc : c ∈ e) :
    isSpace c = false := by
  rcases mem_exe he hc with rfl | h
  · decide
  · simp only [Char.isAlpha, Char.isUpper, Char.isLower, Bool.or_eq_true, Bool.and_eq_true,
      decide_eq_true_eq, ge_iff_le, UInt32.le_iff_toNat_le] at h
    change (65 ≤ c.toNat ∧ c.toNat ≤ 90) ∨ 97 ≤ c.toNat ∧ c.toNat ≤ 122 at h
    simp [isSpace]
    omega

/-- A name with blanks around it is longer than the one its pattern is made for. -/
theorem width_trimmed_lt {p : List Char} (h : trimmed p ≠ p) :
    width ((chopExe F (trimmed p)).map itemOf) < width ((chopExe F p).map itemOf) := by
  obtain ⟨l, r, hp, hl, hr⟩ := exists_trimmed p
  have hwidth : width (p.map itemOf) =
      l.length + width ((trimmed p).map itemOf) + r.length := by
    conv_lhs => rw [hp]
    rw [List.map_append, List.map_append, width_append, width_append, width_blanks hl,
      width_blanks hr]
  have hblank : 0 < l.length + r.length := by
    by_contra hzero
    have hlr : l = [] ∧ r = [] := by
      constructor <;> rw [← List.length_eq_zero_iff] <;> omega
    rw [hlr.1, hlr.2, List.append_nil, List.nil_append] at hp
    exact h hp.symm
  cases hsuffix : endsWithExe F p with
  | false =>
    have hle : width ((chopExe F (trimmed p)).map itemOf) ≤ width ((trimmed p).map itemOf) := by
      refine List.Sublist.countP_le (List.Sublist.map _ ?_)
      unfold chopExe
      split_ifs
      · exact List.take_sublist _ _
      · exact List.Sublist.refl _
    rw [chopExe_of_not hsuffix]
    omega
  | true =>
    obtain ⟨t, e, ht, he⟩ := endsWithExe_iff.mp hsuffix
    have hnonblank : ∀ c ∈ e, isSpace c ≠ true := fun c hc => by simp [isSpace_exe he hc]
    -- the suffix belongs to the name without its blanks
    have hrnil : r = [] := by
      rcases List.eq_nil_or_concat r with hnil | ⟨r', c, hr'⟩
      · exact hnil
      · have hlast := congrArg List.getLast? (hp.symm.trans ht)
        have hne : e ≠ [] := by
          rintro rfl
          cases he
        rw [hr', List.concat_eq_append, List.getLast?_append, List.getLast?_append,
          List.getLast?_singleton, Option.some_or, Option.some_or, List.getLast?_append,
          List.getLast?_eq_some_getLast hne, Option.some_or] at hlast
        have hmem : c ∈ e := by
          have hc : c = e.getLast hne := by simpa using hlast
          rw [hc]
          exact List.getLast_mem hne
        exact absurd (hr c (by rw [hr']; simp)) (hnonblank c hmem)
    rw [hrnil, List.append_nil] at hp
    have htrimmed : ∃ t', t = l ++ t' ∧ trimmed p = t' ++ e := by
      rcases List.append_eq_append_iff.mp (ht.symm.trans hp) with ⟨a, ha, he'⟩ | ⟨a, ha, he'⟩
      · -- what of the suffix the blanks had is nothing
        have hnil : a = [] := by
          cases a with
          | nil => rfl
          | cons c a => exact absurd (hl c (by rw [ha]; simp)) (hnonblank c (by rw [he']; simp))
        rw [hnil, List.append_nil] at ha
        rw [hnil, List.nil_append] at he'
        exact ⟨[], by rw [ha, List.append_nil], he'.symm⟩
      · exact ⟨a, ha, he'⟩
    obtain ⟨t', ht', htrim⟩ := htrimmed
    rw [htrim, ht, chopExe_append he, chopExe_append he, ht', List.map_append, width_append,
      width_blanks hl]
    rw [hrnil, List.length_nil, Nat.add_zero] at hblank
    omega

/-! ### When a pattern is the right one -/

theorem mem_of_mem_chopExe {s : List Char} {c : Char} (h : c ∈ chopExe F s) : c ∈ s := by
  unfold chopExe at h
  split_ifs at h
  · exact List.mem_of_mem_take h
  · exact h

theorem starts_nil {u s : List Char} (hu : Starts u)
    (h : ∀ c ∈ u ++ s, isSeparator c = false) : u = [] := by
  rcases hu with rfl | ⟨u', c, rfl, hc⟩
  · rfl
  · rw [h c (by simp)] at hc
    cases hc

theorem plain_of_sound {p : List Char} (h : PatternSound F p) : Plain F p := by
  obtain ⟨pattern, hmem, r, hcompile, hsound⟩ := h
  obtain ⟨name, hname, hne, rfl⟩ := mem_patterns.mp hmem
  obtain rfl := List.mem_singleton.mp hname
  have hascii : ∀ c ∈ chopExe F (trimmed name), c.toNat < 128 := by
    intro c hc
    by_contra hforeign
    rw [compile_eq_none hc (by omega)] at hcompile
    cases hcompile
  obtain ⟨items, hitems, hle, hlt, heq⟩ := compile_pattern hascii
  rw [hitems] at hcompile
  obtain rfl := Option.some.inj hcompile
  -- the shortest text that the body matches has the name
  have hsample : Glob F (chopExe F name) (chopExe F (lastComponent (sample items))) :=
    (hsound (sample items)).mp (matchString_iff.mpr
      ⟨[], sample items, [], by simp, .inl rfl, fits_sample items, .inl rfl⟩)
  have hshort : width ((chopExe F name).map itemOf) ≤ width items := by
    refine (width_le_of_glob hsample).trans ?_
    rw [← length_sample]
    refine le_trans ?_ (List.rtakeWhile_suffix (p := fun c => !isSeparator c)
      (l := sample items)).length_le
    unfold chopExe
    split_ifs
    · rw [List.length_take]
      exact Nat.min_le_right _ _
    · exact le_rfl
  have htrimmed : trimmed name = name := by
    by_contra hblank
    have hlonger := width_trimmed_lt (F := F) hblank
    omega
  rw [htrimmed] at hne hascii hle hlt heq
  have hoctal : ¬ NulOctal (chopExe F name) := by
    intro hoctal
    have hshorter := hlt hoctal
    omega
  have hitems' := heq hoctal
  subst hitems'
  have hseparator : ∀ c ∈ chopExe F name, isSeparator c = false := by
    intro c hc
    by_contra hsep
    have hsep' : isSeparator c = true := by simpa using hsep
    have hmem := mem_of_mem_chopExe (separator_mem_of_glob hsample hc hsep')
    exact hsep (not_isSeparator_of_mem hmem)
  have hexe : ∀ c ∈ exe, isSeparator c = false := by
    rw [exe_eq]
    simp [isSeparator]
  have hwild : ∀ c ∈ chopExe F name, ¬ (c = '*' ∨ c = '?') := by
    -- a text with line feeds for the wildcards has the name and is not matched
    have hbroken : ∀ c ∈ (chopExe F name).map broken ++ exe, isSeparator c = false := by
      intro c hc
      rcases List.mem_append.mp hc with hc | hc
      · obtain ⟨d, hd, rfl⟩ := List.mem_map.mp hc
        unfold broken
        split_ifs
        · rfl
        · exact hseparator d hd
      · exact hexe c hc
    have hlast : lastComponent ((chopExe F name).map broken ++ exe) =
        (chopExe F name).map broken ++ exe := lastComponent_append (.inl rfl) hbroken
    have hmatch := (hsound ((chopExe F name).map broken ++ exe)).mpr (by
      rw [hlast, chopExe_append map_fold_exe]
      exact glob_broken _)
    obtain ⟨u, v, e, hpath, hu, hfits, he⟩ := matchString_iff.mp hmatch
    rw [hpath, List.append_assoc] at hbroken
    obtain rfl := starts_nil hu hbroken
    have hcount := congrArg (List.count '\n') hpath
    have he0 : e.count '\n' = 0 := by
      rcases he with rfl | he
      · rfl
      · exact List.count_eq_zero.mpr (not_mem_exe he (by decide) (by decide))
    have hexe0 : exe.count '\n' = 0 := by
      rw [exe_eq]
      decide
    rw [List.nil_append, List.count_append, List.count_append, count_map_broken, he0, hexe0,
      count_of_fits hfits] at hcount
    have hzero : (chopExe F name).countP (fun c => c = '*' ∨ c = '?') = 0 := by omega
    intro c hc
    simpa using List.countP_eq_zero.mp hzero c hc
  have hliteral : (chopExe F name).map itemOf = (chopExe F name).map .lit := by
    refine List.map_congr_left fun c hc => ?_
    obtain ⟨hstar, hmark⟩ := not_or.mp (hwild c hc)
    rw [itemOf, if_neg hstar, if_neg hmark]
  refine ⟨hne, htrimmed, hascii, fun c hc => ?_, ?_, hoctal⟩
  · obtain ⟨hstar, hmark⟩ := not_or.mp (hwild c hc)
    exact ⟨hstar, hmark, hseparator c hc⟩
  · by_contra hsuffix
    have hsuffix' : endsWithExe F (chopExe F name) = true := by simpa using hsuffix
    obtain ⟨t, e, ht, he⟩ := endsWithExe_iff.mp hsuffix'
    have hself : lastComponent (chopExe F name) = chopExe F name :=
      lastComponent_append (u := []) (.inl rfl) hseparator
    rw [hliteral, sample_lit, hself] at hsample
    have hlength := width_le_of_glob hsample
    rw [hliteral, ← length_sample, sample_lit, ht, chopExe_append he, List.length_append] at hlength
    have hfour := congrArg List.length he
    rw [List.length_map] at hfour
    have hexe4 : exe.length = 4 := by decide
    omega

theorem sound_of_plain {p : List Char} (h : Plain F p) : PatternSound F p := by
  obtain ⟨hne, htrimmed, hascii, hliteral, hsuffix, hoctal⟩ := h
  obtain ⟨items, hitems, -, -, heq⟩ := compile_pattern hascii
  have hwild : ∀ c ∈ chopExe F p, c ≠ '*' ∧ c ≠ '?' := fun c hc =>
    ⟨(hliteral c hc).1, (hliteral c hc).2.1⟩
  have hlit : (chopExe F p).map itemOf = (chopExe F p).map .lit := by
    refine List.map_congr_left fun c hc => ?_
    rw [itemOf, if_neg (hwild c hc).1, if_neg (hwild c hc).2]
  have hitems' : items = (chopExe F p).map .lit := (heq hoctal).trans hlit
  subst hitems'
  refine ⟨caseInsensitiveProcessPathPattern F p, mem_patterns.mpr ⟨p, List.mem_singleton_self p, ?_⟩,
    _, hitems, fun path => ?_⟩
  · rw [htrimmed]
    exact ⟨hne, rfl⟩
  · rw [matchString_iff, glob_iff_of_literal hwild]
    simp only [fits_lit]
    constructor
    · rintro ⟨u, v, e, rfl, hu, hv, he⟩
      have hvsep : ∀ d ∈ v, isSeparator d = false := by
        intro d hd
        by_contra hsep
        have hmem : F.fold d ∈ (chopExe F p).map F.fold := hv ▸ List.mem_map_of_mem hd
        obtain ⟨c, hc, hfold⟩ := List.mem_map.mp hmem
        have hcd := separator_of_fold (by simpa using hsep) hfold
        have hplain := (hliteral c hc).2.2
        rw [hcd] at hplain
        exact hsep hplain
      rcases he with rfl | he
      · have hlast := lastComponent_append hu hvsep
        have hnot : endsWithExe F v = false := by
          by_contra hexe
          obtain ⟨t, e, rfl, he⟩ := endsWithExe_iff.mp (by simpa using hexe)
          rw [List.map_append, he] at hv
          obtain ⟨b, e', hb, -, he'⟩ := List.map_eq_append_iff.mp hv.symm
          have hsuffix' := endsWithExe_iff.mpr ⟨b, e', hb, he'⟩
          rw [hsuffix] at hsuffix'
          cases hsuffix'
        rw [List.append_nil, hlast, chopExe_of_not hnot]
        exact hv
      · have hesep : ∀ d ∈ v ++ e, isSeparator d = false := by
          intro d hd
          rcases List.mem_append.mp hd with hd | hd
          · exact hvsep d hd
          · by_contra hsep
            rcases isSeparator_iff.mp (by simpa using hsep) with rfl | rfl
            · exact not_mem_exe he (by decide) (by decide) hd
            · exact not_mem_exe he (by decide) (by decide) hd
        rw [List.append_assoc, lastComponent_append hu hesep, chopExe_append he]
        exact hv
    · intro hfold
      obtain ⟨u, hpath, hu⟩ := exists_lastComponent path
      cases hexe : endsWithExe F (lastComponent path) with
      | false =>
        rw [chopExe_of_not hexe] at hfold
        exact ⟨u, lastComponent path, [], by rw [List.append_nil]; exact hpath, hu, hfold,
          .inl rfl⟩
      | true =>
        obtain ⟨t, e, ht, he⟩ := endsWithExe_iff.mp hexe
        rw [ht, chopExe_append he] at hfold
        rw [ht, ← List.append_assoc] at hpath
        exact ⟨u, t, e, hpath, hu, hfold, .inr he⟩

/-- The pattern of a name is the right one just if the name has no wildcard, no separator
    and nothing outside ASCII, and no blanks around it, no second suffix and no NUL before a
    digit. -/
theorem patternSound_iff (F : Folding) (p : List Char) : PatternSound F p ↔ Plain F p :=
  ⟨plain_of_sound, sound_of_plain⟩

/-- The star of `a*b` takes separators in. -/
theorem star_crosses_separators :
    ¬ ∀ (F : Folding) (p : List Char), PatternSound F p := by
  intro h
  obtain ⟨pattern, hmem, r, hcompile, hsound⟩ := h Folding.basic ['a', '*', 'b']
  obtain ⟨name, hname, -, rfl⟩ := mem_patterns.mp hmem
  obtain rfl := List.mem_singleton.mp hname
  have hr : r = patternRegex [.lit 'a', .anyStar, .lit 'b'] := by
    have hregex : compile (caseInsensitiveProcessPathPattern Folding.basic
        (trimmed ['a', '*', 'b'])) = some (patternRegex [.lit 'a', .anyStar, .lit 'b']) := by
      decide +kernel
    rw [hregex] at hcompile
    exact (Option.some.inj hcompile).symm
  subst hr
  have hglob := (hsound ['/', 'a', '/', 'b']).mp (matchString_iff.mpr ⟨['/'], ['a', '/', 'b'], [],
    rfl, .inr ⟨[], '/', rfl, rfl⟩, ⟨'a', ['/', 'b'], rfl, rfl, ['/'], ['b'], rfl, by simp, 'b',
      [], rfl, rfl, rfl⟩, .inl rfl⟩)
  have hwidth := width_le_of_glob hglob
  exact absurd hwidth (by decide)

end NekoBox.Config.GameMod
