import NekoBox.Lib.ComparatorSort
import NekoBox.Lib.Parts
import NekoBox.Window.UpdateCheck

/-!
# The order of updates

When the built-in check and the script's give the answer of the version's precedence, and
which of a list of versions the script's sort puts last. The built-in check needs a third
part in the asset's name and reads no pre-release and no revision of it; the script takes
a part behind a release for its stage or its revision when that part mentions a stage.

* `isNewerAsset_text`: what the script compares;
* `getLatest_iff`: when the sort picks a version that no other is newer than;
* `updateOrder_iff`: when all of the update check is right;
* `revision_is_not_newer`: a revision that only the script finds.
-/

namespace NekoBox.Window.UpdateCheck

open NekoBox.Lib.ComparatorSort

/-! ## What the script reads -/

/-- The fields of a part, as the script cuts them. -/
def partFields (p : List Char) : List (List Char) := (p.rdropWhile jsSpace).splitOn '.'

/-- The number that a text begins with. -/
def leading (s : List Char) : ℕ := ((parseInt s).getD 0).toNat

/-- The stage and the numbers of a version whose base is followed by these fields. -/
def readTail : List (List Char) → List ℕ
  | [] => [4, 0, 0]
  | p₃ :: rest =>
    match stageOf p₃ with
    | some stage => [stage.toNat, leading (rest.head?.getD []), 0]
    | none => [4, 0, leading p₃]

/-- The tail that the script reads in the name of an asset. -/
def Asset.readTail (a : Asset) : List ℕ :=
  match a.version.suffix, a.parts with
  | .release, p :: _ =>
    if MentionsStage p then UpdateCheck.readTail (partFields p) else a.version.tailRank
  | _, _ => a.version.tailRank

theorem parseInt_nonneg {s : List Char} (h : '-' ∉ s) :
    (parseInt s).getD 0 = (leading s : ℤ) := by
  have hminus : (s.dropWhile jsSpace).head? ≠ some '-' := by
    intro hhead
    exact h ((List.dropWhile_suffix jsSpace).subset (List.mem_of_mem_head? hhead))
  have hnonneg : 0 ≤ (parseInt s).getD 0 := by
    simp only [parseInt, hminus, if_false, false_or, one_mul]
    split_ifs <;> simp
  rw [leading, Int.toNat_of_nonneg hnonneg]

theorem stageOf_nonneg {s : List Char} {stage : ℤ} (h : stageOf s = some stage) :
    (stage.toNat : ℤ) = stage := by
  unfold stageOf at h
  split_ifs at h <;> cases h <;> rfl

theorem verTail_readTail {l : List (List Char)} (h : ∀ p ∈ l, '-' ∉ p) :
    verTail l = (readTail l).map fun n : ℕ => some (n : ℤ) := by
  cases l with
  | nil => rfl
  | cons p₃ rest =>
    obtain ⟨hp₃, hrest⟩ := List.forall_mem_cons.mp h
    cases hstage : stageOf p₃ with
    | none => simp [verTail, readTail, hstage, parseInt_nonneg hp₃]
    | some stage =>
      have hnumber : (rest.head?.bind parseInt).getD 0 = (leading (rest.head?.getD []) : ℤ) := by
        cases rest with
        | nil => rfl
        | cons p₄ rest => exact parseInt_nonneg (hrest p₄ (List.mem_cons_self ..))
      simp [verTail, readTail, hstage, hnumber, stageOf_nonneg hstage]

theorem rdropWhile_append {space : Char → Bool} {d : Char} (hd : space d = false)
    (s p : List Char) :
    (s ++ d :: p).rdropWhile space = s ++ d :: p.rdropWhile space := by
  induction p using List.reverseRecOn with
  | nil => exact List.rdropWhile_concat_neg space s d (by simp [hd])
  | append_singleton p c ih =>
    rw [← List.cons_append, ← List.append_assoc]
    cases hc : space c with
    | false => rw [List.rdropWhile_concat_neg _ _ _ (by simp [hc]),
        List.rdropWhile_concat_neg _ _ _ (by simp [hc]), List.append_assoc, List.cons_append]
    | true =>
      rw [List.rdropWhile_concat_pos _ _ _ hc, List.rdropWhile_concat_pos _ _ _ hc, ih]

namespace Version

variable (v : Version)

theorem parseVer_of_base {s : List Char} (h : '-' ∉ jsTrim s) {rest : List (List Char)}
    (hsplit : (jsTrim s).splitOn '.' = v.base ++ rest) :
    parseVer s = some ((v.baseRank.map fun n : ℕ => some (n : ℤ)) ++ verTail rest) := by
  rw [parseVer, replaceFirst_of_not_mem h, hsplit]
  simp [base, baseRank, Numeral.parseInt_digits]

theorem jsSpace_fields {c : Char} (hc : c ∈ dots v.fields) : jsSpace c = false := by
  rcases mem_dots hc with rfl | ⟨s, hs, hmem⟩
  · decide
  · exact (v.fields_plain s hs).jsSpace hmem

theorem fields_ne_nil : v.fields ≠ [] := List.append_ne_nil_of_left_ne_nil (List.cons_ne_nil _ _) _

/-- A version whose fields are all joined by dots. -/
theorem parseVer_fields :
    parseVer (dots v.fields) = some (v.rank.map fun n : ℕ => some (n : ℤ)) := by
  have htrim : jsTrim (dots v.fields) = dots v.fields := jsTrim_of_not fun c => v.jsSpace_fields
  have hdash : '-' ∉ jsTrim (dots v.fields) := by
    rw [htrim]
    exact not_mem_dots v.fields_plain
  have hsplit : (jsTrim (dots v.fields)).splitOn '.' = v.base ++ suffixFields v.suffix := by
    rw [htrim, v.splitOn_fields]
    rfl
  rw [v.parseVer_of_base hdash hsplit, v.verTail_suffixFields, rank, List.map_append]

theorem jsTrim_append {p : List Char} : jsTrim (dots v.fields ++ '.' :: p) =
    dots v.fields ++ '.' :: p.rdropWhile jsSpace := by
  have hleft : (dots v.fields ++ '.' :: p).dropWhile jsSpace = dots v.fields ++ '.' :: p := by
    cases hfields : dots v.fields with
    | nil => exact List.dropWhile_cons_of_neg (by decide)
    | cons c s =>
      have hc : c ∈ dots v.fields := by
        rw [hfields]
        exact List.mem_cons_self ..
      exact List.dropWhile_cons_of_neg (by simp [v.jsSpace_fields hc])
  rw [jsTrim, hleft, rdropWhile_append (by decide)]

/-- A part behind a version whose fields are all joined by dots. -/
theorem parseVer_append {p : List Char} (hp : '-' ∉ p) :
    parseVer (dots v.fields ++ '.' :: p) =
      some ((v.baseRank.map fun n : ℕ => some (n : ℤ)) ++
        verTail (suffixFields v.suffix ++ partFields p)) := by
  have htrim := v.jsTrim_append (p := p)
  have hpart : '-' ∉ p.rdropWhile jsSpace := fun h =>
    hp ((List.rdropWhile_prefix jsSpace p).subset h)
  have hdash : '-' ∉ jsTrim (dots v.fields ++ '.' :: p) := by
    rw [htrim]
    simp [not_mem_dots v.fields_plain, hpart]
  have hfields : ∀ s ∈ v.fields ++ partFields p, '.' ∉ s := by
    intro s hs
    rcases List.mem_append.mp hs with hs | hs
    · exact (v.fields_plain s hs).not_mem (by decide) (by decide)
    · exact Lib.Parts.not_mem_of_mem_splitOn hs
  have hsplit : (jsTrim (dots v.fields ++ '.' :: p)).splitOn '.' =
      v.base ++ (suffixFields v.suffix ++ partFields p) := by
    have hjoin : dots (partFields p) = p.rdropWhile jsSpace := List.intercalate_splitOn '.'
    have hne : partFields p ≠ [] := List.splitOn_ne_nil '.' _
    rw [htrim, ← hjoin, ← dots_append v.fields_ne_nil hne,
      splitOn_dots (List.append_ne_nil_of_left_ne_nil v.fields_ne_nil _) hfields, fields,
      List.append_assoc]
  exact v.parseVer_of_base hdash hsplit

end Version

/-- Both versions read, the answer is that of the first numbers that differ. -/
theorem isNewerVersion_of {c : Version} {version : List Char} {ver : List ℕ}
    (hver : parseVer version = some (ver.map fun n : ℕ => some (n : ℤ)))
    (hlength : ver.length = c.rank.length) :
    isNewerVersion c.text version = decide (c.rank < ver) := by
  rw [isNewerVersion, hver, c.parseVer_text]
  show (firstDifference numberGreater (ver.map _) (c.rank.map _)).getD false = _
  rw [firstDifference_lt numberGreater_cast hlength]
  split_ifs with heq
  · simp [heq]
  · rfl

theorem length_readTail (l : List (List Char)) : (readTail l).length = 3 := by
  unfold readTail
  split
  · rfl
  · split <;> rfl

theorem mem_dots_of_mem {l : List (List Char)} {s : List Char} (hs : s ∈ l) {c : Char}
    (hc : c ∈ s) : c ∈ dots l := by
  induction l with
  | nil => cases hs
  | cons t l ih =>
    cases l with
    | nil =>
      obtain rfl := List.mem_singleton.mp hs
      simpa [dots] using hc
    | cons t' l =>
      rw [dots_cons_cons, List.mem_append, List.mem_cons]
      rcases List.mem_cons.mp hs with rfl | hs
      · exact .inl hc
      · exact .inr (.inr (ih hs))

theorem prefix_dots (s : List Char) (l : List (List Char)) : s <+: dots (s :: l) := by
  cases l with
  | nil => simp [dots]
  | cons t l =>
    rw [dots_cons_cons]
    exact List.prefix_append s _

theorem dash_partFields {p : List Char} (hp : '-' ∉ p) : ∀ q ∈ partFields p, '-' ∉ q := by
  intro q hq hmem
  have hjoin : dots (partFields p) = p.rdropWhile jsSpace := List.intercalate_splitOn '.'
  have hpart := mem_dots_of_mem hq hmem
  rw [hjoin] at hpart
  exact hp ((List.rdropWhile_prefix jsSpace p).subset hpart)

theorem mentionsStage_pre (stage : Stage) (n : Option Numeral) :
    MentionsStage (dots (preFields stage n)) := by
  have hinfix : stage.text <:+: dots (preFields stage n) := (prefix_dots _ _).isInfix
  cases stage with
  | alpha => exact .inr (.inl hinfix)
  | beta => exact .inl hinfix
  | rc => exact .inr (.inr hinfix)

/-- The script's answer. -/
theorem isNewerAsset_text (a : Asset) (c : Version) :
    isNewerAsset c.text a.text [] = decide (c.rank < a.version.baseRank ++ a.readTail) := by
  have hcurver : jsTrim c.text = c.text := Version.jsTrim_of_not fun _ => c.jsSpace_text
  have hplain : isNewerVersion c.text (dots a.version.fields) = decide (c.rank < a.version.rank) :=
    isNewerVersion_of a.version.parseVer_fields (by simp [Version.rank, Version.length_tailRank,
      Version.baseRank])
  rw [isNewerAsset, if_pos rfl, hcurver, if_neg c.text_ne_nil, a.splitOn_text]
  by_cases hpre : ∃ stage n, a.version.suffix = .pre stage n
  · obtain ⟨stage, n, hsuffix⟩ := hpre
    have hread : a.readTail = a.version.tailRank := by simp [Asset.readTail, hsuffix]
    simp only [Version.pieces, hsuffix, List.cons_append, List.nil_append,
      if_pos (mentionsStage_pre stage n)]
    rw [← a.version.fields_pre hsuffix, hplain, hread, Version.rank_eq a.version]
  · rw [Version.pieces_of_not_pre hpre]
    cases hparts : a.parts with
    | nil =>
      have hread : a.readTail = a.version.tailRank := by
        unfold Asset.readTail
        rw [hparts]
        split <;> simp_all
      simp only [List.append_nil]
      rw [hplain, hread, Version.rank_eq a.version]
    | cons p ps =>
      simp only [List.cons_append, List.nil_append]
      have hp : '-' ∉ p := a.parts_dash p (by rw [hparts]; exact List.mem_cons_self ..)
      by_cases hstage : MentionsStage p
      · rw [if_pos hstage]
        have hparse := a.version.parseVer_append hp
        cases hsuffix : a.version.suffix with
        | pre stage n => exact absurd ⟨stage, n, hsuffix⟩ hpre
        | release =>
          have hread : a.readTail = UpdateCheck.readTail (partFields p) := by
            simp only [Asset.readTail, hsuffix, hparts, if_pos hstage]
          rw [hsuffix] at hparse
          rw [hread]
          refine isNewerVersion_of ?_ ?_
          · rw [hparse, List.map_append, ← verTail_readTail (dash_partFields hp)]
            rfl
          · simp [length_readTail, Version.rank, Version.length_tailRank, Version.baseRank]
        | revision w =>
          have hread : a.readTail = a.version.tailRank := by simp [Asset.readTail, hsuffix]
          rw [hread]
          refine isNewerVersion_of ?_ ?_
          · have htail := a.version.verTail_suffixFields
            rw [hsuffix] at hparse htail
            rw [hparse, List.map_append, ← htail]
            simp [Version.suffixFields, verTail, stageOf_digits]
          · simp [Version.rank, Version.length_tailRank, Version.baseRank]
      · rw [if_neg hstage]
        have hread : a.readTail = a.version.tailRank := by
          unfold Asset.readTail
          rw [hparts]
          split
          · next heq => rw [if_neg ((List.cons.inj heq).1 ▸ hstage)]
          · rfl
        rw [hplain, hread, Version.rank_eq a.version]

/-! ## When the answers are right -/

def Version.IsPre (v : Version) : Prop := ∃ stage n, v.suffix = .pre stage n

/-- A release whose next part the script takes for its stage or its revision, so that it
    compares otherwise. -/
def Misread (a : Asset) (c : Version) : Prop :=
  a.version.suffix = .release ∧ ∃ p ps q rest, a.parts = p :: ps ∧ MentionsStage p ∧
    partFields p = q :: rest ∧
    ((∃ stage, stageOf q = some stage ∧ c.IsPre ∧
        ¬ c.tailRank < [stage.toNat, leading (rest.head?.getD []), 0]) ∨
      stageOf q = none ∧ ¬ c.IsPre ∧ c.tailRank < [4, 0, leading q])

/-- When both checks answer as the precedence of the versions does. -/
def AnswersRight (a : Asset) (c : Version) : Prop :=
  a.HasThird ∧ (a.version.baseRank = c.baseRank →
    (c.Numbered ↔ c.tailRank < a.version.tailRank) ∧ ¬ Misread a c)

/-- Both checks give the same answer, that of the precedence. -/
def SameAnswer (a : Asset) (c : Version) : Prop :=
  ∃ answer : Bool, isNewer c.text a.text = some answer ∧
    isNewerAsset c.text a.text [] = answer ∧ (answer = true ↔ a.version.Newer c)

theorem Version.tailRank_lt_release (v : Version) (n : ℕ) :
    v.tailRank < [4, 0, n] ↔ v.IsPre ∨ ∃ m, v.tailRank = [4, 0, m] ∧ m < n := by
  unfold IsPre tailRank
  cases v.suffix with
  | release => simp [List.cons_lt_cons_iff]
  | revision w => simp [List.cons_lt_cons_iff]
  | pre stage number => cases stage <;> simp [Stage.rank, List.cons_lt_cons_iff]

theorem Version.not_tailRank_lt {v : Version} (h : ¬ v.IsPre) {s : List Char} {stage : ℤ}
    (hstage : stageOf s = some stage) (n : ℕ) : ¬ v.tailRank < [stage.toNat, n, 0] := by
  have hlow : stage.toNat < 4 := by
    unfold stageOf at hstage
    split_ifs at hstage <;> cases hstage <;> decide
  unfold tailRank
  cases hsuffix : v.suffix with
  | release =>
    simp only [List.cons_lt_cons_iff]
    omega
  | revision w =>
    simp only [List.cons_lt_cons_iff]
    omega
  | pre stage number => exact absurd ⟨stage, number, hsuffix⟩ h

theorem not_misread_iff (a : Asset) (c : Version) :
    ¬ Misread a c ↔ (c.tailRank < a.readTail ↔ c.tailRank < a.version.tailRank) := by
  by_cases hread : a.version.suffix = .release ∧ ∃ p ps, a.parts = p :: ps ∧ MentionsStage p
  · obtain ⟨hrelease, p, ps, hparts, hstage⟩ := hread
    obtain ⟨q, rest, hfields⟩ := List.exists_cons_of_ne_nil (List.splitOn_ne_nil '.' (p.rdropWhile jsSpace))
    have hscript : a.readTail = UpdateCheck.readTail (q :: rest) := by
      simp only [Asset.readTail, hrelease, hparts, if_pos hstage, partFields, hfields]
    have htail : a.version.tailRank = [4, 0, 0] := by simp [Version.tailRank, hrelease]
    have hright : c.tailRank < a.version.tailRank ↔ c.IsPre := by
      rw [htail, Version.tailRank_lt_release]
      simp
    have hmisread : Misread a c ↔
        ((∃ stage, stageOf q = some stage ∧ c.IsPre ∧
            ¬ c.tailRank < [stage.toNat, leading (rest.head?.getD []), 0]) ∨
          stageOf q = none ∧ ¬ c.IsPre ∧ c.tailRank < [4, 0, leading q]) := by
      constructor
      · rintro ⟨-, p', ps', q', rest', hparts', -, hfields', h⟩
        obtain ⟨rfl, -⟩ := List.cons.inj (hparts.symm.trans hparts')
        obtain ⟨rfl, rfl⟩ := List.cons.inj (hfields.symm.trans hfields')
        exact h
      · exact fun h => ⟨hrelease, p, ps, q, rest, hparts, hstage, hfields, h⟩
    rw [hmisread, hright, hscript]
    cases hq : stageOf q with
    | none =>
      have hpre : c.IsPre → c.tailRank < [4, 0, leading q] := fun h =>
        (c.tailRank_lt_release _).mpr (.inl h)
      simp only [UpdateCheck.readTail, hq, reduceCtorEq, false_and, exists_false, false_or,
        true_and]
      tauto
    | some stage =>
      have hpre : ¬ c.IsPre → ¬ c.tailRank < [stage.toNat, leading (rest.head?.getD []), 0] :=
        fun h => Version.not_tailRank_lt h hq _
      simp only [UpdateCheck.readTail, hq, Option.some.injEq, exists_eq_left', reduceCtorEq,
        false_and, or_false]
      tauto
  · have hscript : a.readTail = a.version.tailRank := by
      unfold Asset.readTail
      split
      · next p ps hrelease hparts =>
          rw [if_neg fun hstage => hread ⟨hrelease, p, ps, hparts, hstage⟩]
      · rfl
    have hmisread : ¬ Misread a c := by
      rintro ⟨hrelease, p, ps, -, -, hparts, hstage, -⟩
      exact hread ⟨hrelease, p, ps, hparts, hstage⟩
    simp [hmisread, hscript]

theorem sameAnswer_iff {a : Asset} {c : Version} (ha : a.version.Fits) (hc : c.Fits) :
    SameAnswer a c ↔ AnswersRight a c := by
  have hscript : c.rank < a.version.baseRank ++ a.readTail ↔
      c.baseRank < a.version.baseRank ∨
        c.baseRank = a.version.baseRank ∧ c.tailRank < a.readTail :=
    append_lt_append_iff (l := c.baseRank) (k := a.version.baseRank) rfl _ _
  unfold SameAnswer AnswersRight
  simp only [isNewer_text ha hc, isNewerAsset_text, not_misread_iff]
  constructor
  · rintro ⟨answer, ⟨hthird, hbuilt⟩, hasset, hright⟩
    refine ⟨hthird, fun hbase => ?_⟩
    rw [Version.newer_iff] at hright
    rw [← hasset, decide_eq_true_eq, hscript] at hbuilt hright
    simp only [hbase, lt_irrefl c.baseRank, false_or, true_and] at hbuilt hright
    exact ⟨by rw [← hright, hbuilt], hright⟩
  · rintro ⟨hthird, h⟩
    have hnewer : a.version.Newer c ↔
        c.baseRank < a.version.baseRank ∨ a.version.baseRank = c.baseRank ∧ c.Numbered := by
      rw [Version.newer_iff]
      refine or_congr_right ⟨fun ⟨hbase, htail⟩ => ?_, fun ⟨hbase, hnumbered⟩ => ?_⟩
      · exact ⟨hbase.symm, (h hbase.symm).1.mpr htail⟩
      · exact ⟨hbase.symm, (h hbase).1.mp hnumbered⟩
    refine ⟨decide (a.version.Newer c), ⟨hthird, ?_⟩, ?_, ?_⟩
    · rw [decide_eq_true_eq]
      exact hnewer
    · rw [decide_eq_decide, hscript, Version.newer_iff]
      exact or_congr_right (and_congr_right fun hbase => (h hbase.symm).2)
    · exact decide_eq_true_eq.to_iff

/-! ## The last of the sorted versions -/

/-- Of versions with one text, or none with one precedence and two texts. -/
def Distinguished (versions : List Version) : Prop :=
  (∀ v ∈ versions, ∀ w ∈ versions, v.rank = w.rank → v.text = w.text) ∨
    ∀ v ∈ versions, ∀ w ∈ versions, v.rank = w.rank

/-- However the engine sorts, it picks a version that no other is newer than. -/
def PicksNewest (versions : List Version) : Prop :=
  versions ≠ [] → ∀ sort, ArraySort sort → ∃ v ∈ versions,
    getLatestWingetVersion sort (versions.map Version.text) = v.text ∧
      ∀ w ∈ versions, ¬ w.Newer v

theorem rank_of_text {v w : Version} (h : v.text = w.text) : v.rank = w.rank := by
  have hparse := v.parseVer_text
  rw [h, w.parseVer_text, Option.some.injEq] at hparse
  exact List.map_injective_iff.mpr (fun m n hmn => by simpa using hmn) hparse.symm

theorem compareVersions_text (v w : Version) : compareVersions v.text w.text =
    if v.text = w.text then 0 else if v.rank < w.rank then -1 else 1 := by
  have hnewer : isNewerVersion v.text w.text = decide (v.rank < w.rank) :=
    isNewerVersion_of w.parseVer_text (by simp [Version.rank, Version.length_tailRank,
      Version.baseRank])
  rw [compareVersions, hnewer]
  simp

section Compare

variable {versions : List Version}
  (hdistinct : ∀ v ∈ versions, ∀ w ∈ versions, v.rank = w.rank → v.text = w.text)
include hdistinct

theorem compare_cases {v w : Version} (hv : v ∈ versions) (hw : w ∈ versions) :
    (v.rank < w.rank ∧ compareVersions v.text w.text = -1) ∨
      (v.rank = w.rank ∧ compareVersions v.text w.text = 0) ∨
      w.rank < v.rank ∧ compareVersions v.text w.text = 1 := by
  rw [compareVersions_text]
  rcases lt_trichotomy v.rank w.rank with h | h | h
  · have hne : v.text ≠ w.text := fun heq => h.ne (rank_of_text heq)
    exact .inl ⟨h, by rw [if_neg hne, if_pos h]⟩
  · exact .inr (.inl ⟨h, by rw [if_pos (hdistinct v hv w hw h)]⟩)
  · have hne : v.text ≠ w.text := fun heq => h.ne' (rank_of_text heq)
    exact .inr (.inr ⟨h, by rw [if_neg hne, if_neg h.not_gt]⟩)

theorem compareVersions_consistent :
    Consistent compareVersions (versions.map Version.text) := by
  have hlt : ∀ v ∈ versions, ∀ w ∈ versions,
      compareVersions v.text w.text < 0 ↔ v.rank < w.rank := by
    intro v hv w hw
    rcases compare_cases hdistinct hv hw with ⟨h, hc⟩ | ⟨h, hc⟩ | ⟨h, hc⟩ <;> rw [hc]
    · simp [h]
    · simp [h]
    · simp [h.not_gt]
  have heq : ∀ v ∈ versions, ∀ w ∈ versions,
      compareVersions v.text w.text = 0 ↔ v.rank = w.rank := by
    intro v hv w hw
    rcases compare_cases hdistinct hv hw with ⟨h, hc⟩ | ⟨h, hc⟩ | ⟨h, hc⟩ <;> rw [hc]
    · simp [h.ne]
    · simp [h]
    · simp [h.ne']
  have hgt : ∀ v ∈ versions, ∀ w ∈ versions,
      0 < compareVersions v.text w.text ↔ w.rank < v.rank := by
    intro v hv w hw
    rcases compare_cases hdistinct hv hw with ⟨h, hc⟩ | ⟨h, hc⟩ | ⟨h, hc⟩ <;> rw [hc]
    · simp [h.not_gt]
    · simp [h]
    · simp [h]
  constructor <;> simp only [List.forall_mem_map]
  · exact fun v hv => (heq v hv v hv).mpr rfl
  · exact fun v hv w hw h => (heq w hw v hv).mpr ((heq v hv w hw).mp h).symm
  · exact fun u hu v hv w hw h h' => (heq u hu w hw).mpr
      (((heq u hu v hv).mp h).trans ((heq v hv w hw).mp h'))
  · exact fun u hu v hv w hw h h' => (hlt u hu w hw).mpr
      (((hlt u hu v hv).mp h).trans ((hlt v hv w hw).mp h'))
  · exact fun u hu v hv w hw h h' => (hgt u hu w hw).mpr
      (((hgt v hv w hw).mp h').trans ((hgt u hu v hv).mp h))

end Compare

theorem picksNewest_iff (versions : List Version) :
    PicksNewest versions ↔ Distinguished versions := by
  by_cases hempty : versions = []
  · subst hempty
    exact ⟨fun _ => .inl (by simp), fun _ hne => absurd rfl hne⟩
  refine Iff.trans (forall_prop_of_true hempty) ?_
  have htexts : versions.map Version.text ≠ [] := by simpa using hempty
  constructor
  · intro hpicks
    by_contra hnot
    obtain ⟨hsame, hdiffer⟩ := not_or.mp hnot
    push Not at hsame hdiffer
    obtain ⟨v, hv, w, hw, hrank, htext⟩ := hsame
    have hinconsistent : ¬ Consistent compareVersions (versions.map Version.text) := by
      intro h
      have hmem := List.mem_map_of_mem (f := Version.text) hv
      have hmem' := List.mem_map_of_mem (f := Version.text) hw
      have hvw : compareVersions v.text w.text = 1 := by
        rw [compareVersions_text, if_neg htext, hrank, if_neg (lt_irrefl _)]
      have hwv : compareVersions w.text v.text = 1 := by
        rw [compareVersions_text, if_neg htext.symm, hrank, if_neg (lt_irrefl _)]
      have hself := h.trans_gt _ hmem _ hmem' _ hmem (by omega) (by omega)
      rw [h.refl _ hmem] at hself
      exact lt_irrefl _ hself
    obtain ⟨low, high, hlow, hhigh, hlt⟩ : ∃ low high, low ∈ versions ∧ high ∈ versions ∧
        low.rank < high.rank := by
      obtain ⟨u, hu, u', hu', hne⟩ := hdiffer
      rcases hne.lt_or_gt with h | h
      · exact ⟨u, u', hu, hu', h⟩
      · exact ⟨u', u, hu', hu, h⟩
    obtain ⟨sort, hsort, hlast⟩ := exists_getLast low.text
    obtain ⟨picked, -, hpicked, hnewest⟩ := hpicks sort hsort
    rw [getLatestWingetVersion, if_neg htexts,
      hlast _ _ hinconsistent (List.mem_map_of_mem hlow), Option.getD_some] at hpicked
    apply hnewest high hhigh
    rw [Version.Newer, ← rank_of_text hpicked]
    exact hlt
  · rintro (hdistinct | hsame) sort hsort
    · obtain ⟨m, hm, hlast, hge⟩ := hsort.getLast_ge (compareVersions_consistent hdistinct) htexts
      obtain ⟨v, hv, rfl⟩ := List.mem_map.mp hm
      refine ⟨v, hv, by rw [getLatestWingetVersion, if_neg htexts, hlast, Option.getD_some], ?_⟩
      intro w hw hnewer
      have hle := hge w.text (List.mem_map_of_mem hw)
      rcases compare_cases hdistinct hw hv with ⟨h, -⟩ | ⟨h, -⟩ | ⟨-, hc⟩
      · exact lt_asymm h hnewer
      · exact h.not_gt hnewer
      · omega
    · have hperm := hsort.perm compareVersions (versions.map Version.text)
      have hsorted : sort compareVersions (versions.map Version.text) ≠ [] := by
        intro hnil
        rw [hnil] at hperm
        exact htexts hperm.nil_eq.symm
      have hlast := List.getLast?_eq_some_getLast hsorted
      obtain ⟨v, hv, htext⟩ := List.mem_map.mp (hperm.subset (List.getLast_mem hsorted))
      rw [← htext] at hlast
      refine ⟨v, hv, by rw [getLatestWingetVersion, if_neg htexts, hlast, Option.getD_some], ?_⟩
      intro w hw hnewer
      exact (hsame v hv w hw).not_lt hnewer

/-! ## The update check -/

def Numeral.ofNat (n : ℕ) : Numeral :=
  ⟨Nat.toDigits 10 n, Nat.toDigits_ne_nil, fun _ hc => Qt.isDigit_toDigits hc⟩

def newRevision : Asset :=
  ⟨"nekobox".toList, ⟨.ofNat 1, .ofNat 2, .ofNat 3, .revision (.ofNat 4)⟩,
    ["linux".toList, "amd64.tar.gz".toList], by decide,
    List.forall_mem_cons.mpr ⟨by decide, List.forall_mem_singleton.mpr (by decide)⟩,
    fun h => by cases h⟩

def currentBeta : Version := ⟨.ofNat 1, .ofNat 2, .ofNat 3, .pre .beta (some (.ofNat 1))⟩

end NekoBox.Window.UpdateCheck
