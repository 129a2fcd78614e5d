import Mathlib

/-!
# First and last members of classes

The members of a list that come first, or last, among those they are the same
as, in the order of the list. `same` is any test; where it is an equivalence the
members kept are one of each class.

* `firsts_concat`, `lasts_concat`: what a member at the end of the list changes,
  for any test;
* `exists_mem_firsts`, `exists_mem_lasts`: every class has a member that is kept;
* `eq_of_mem_firsts`, `eq_of_mem_lasts`: and no more than one.
-/

namespace NekoBox.Lib

variable {α : Type*} (same : α → α → Bool)

/-- The members of which no earlier one is the same. -/
def firsts : List α → List α
  | [] => []
  | a :: l => a :: (firsts l).filter fun b => !same a b

/-- The members of which no later one is the same. -/
def lasts : List α → List α
  | [] => []
  | a :: l => if l.any (same a) then lasts l else a :: lasts l

/-- An equivalence, as a test. -/
structure Equates : Prop where
  refl : ∀ a, same a a = true
  symm : ∀ a b, same a b = true → same b a = true
  trans : ∀ a b c, same a b = true → same b c = true → same a c = true

variable {same} {a b : α} {l : List α}

/-- The members of one class are the same as the same members. -/
theorem Equates.congr (h : Equates same) (hab : same a b = true) (c : α) : same a c = same b c :=
  Bool.eq_iff_iff.mpr ⟨h.trans b a c (h.symm a b hab), h.trans a b c hab⟩

theorem Equates.congr_right (h : Equates same) (hab : same a b = true) (c : α) :
    same c a = same c b :=
  Bool.eq_iff_iff.mpr ⟨fun hca => h.trans c a b hca hab, fun hcb => h.trans c b a hcb (h.symm a b hab)⟩

theorem Equates.comm (h : Equates same) (a b : α) : same a b = same b a :=
  Bool.eq_iff_iff.mpr ⟨h.symm a b, h.symm b a⟩

/-! ## A member at the end -/

theorem firsts_concat (b : α) :
    firsts same (l ++ [b]) =
      if l.any fun a => same a b then firsts same l else firsts same l ++ [b] := by
  induction l with
  | nil => rfl
  | cons a l ih =>
    show a :: (firsts same (l ++ [b])).filter (fun c => !same a c) =
      if (same a b || l.any fun a => same a b) = true then _ else _
    rw [ih]
    by_cases hl : (l.any fun a => same a b) = true
    · rw [if_pos hl, hl, Bool.or_true, if_pos rfl]
      rfl
    · rw [if_neg hl, List.filter_append, Bool.eq_false_iff.mpr hl, Bool.or_false]
      by_cases hab : same a b = true
      · rw [if_pos hab, List.filter_cons_of_neg (by simp [hab]), List.filter_nil, List.append_nil]
        rfl
      · rw [if_neg hab, List.filter_cons_of_pos (by simp [hab]), List.filter_nil]
        rfl

theorem lasts_concat (b : α) :
    lasts same (l ++ [b]) = ((lasts same l).filter fun a => !same a b) ++ [b] := by
  induction l with
  | nil => rfl
  | cons a l ih =>
    show (if (l ++ [b]).any (same a) = true then lasts same (l ++ [b])
      else a :: lasts same (l ++ [b])) =
        ((if l.any (same a) = true then lasts same l else a :: lasts same l).filter
          fun a => !same a b) ++ [b]
    rw [ih, List.any_append, List.any_cons, List.any_nil, Bool.or_false]
    by_cases hl : l.any (same a) = true
    · rw [hl, Bool.true_or, if_pos rfl, if_pos rfl]
    · rw [if_neg hl, Bool.eq_false_iff.mpr hl, Bool.false_or]
      by_cases hab : same a b = true
      · rw [if_pos hab, List.filter_cons_of_neg (by simp [hab])]
      · rw [if_neg hab, List.filter_cons_of_pos (by simp [hab])]
        rfl

/-! ## Members -/

theorem mem_of_mem_firsts (h : b ∈ firsts same l) : b ∈ l := by
  induction l with
  | nil => exact h
  | cons a l ih =>
    rcases List.mem_cons.mp h with rfl | h
    · exact List.mem_cons_self
    · exact List.mem_cons_of_mem _ (ih (List.mem_of_mem_filter h))

theorem mem_of_mem_lasts (h : b ∈ lasts same l) : b ∈ l := by
  induction l with
  | nil => exact h
  | cons a l ih =>
    unfold lasts at h
    split_ifs at h
    · exact List.mem_cons_of_mem _ (ih h)
    · rcases List.mem_cons.mp h with rfl | h
      · exact List.mem_cons_self
      · exact List.mem_cons_of_mem _ (ih h)

theorem firsts_sublist (l : List α) : (firsts same l).Sublist l := by
  induction l with
  | nil => exact List.Sublist.slnil
  | cons a l ih => exact (List.filter_sublist.trans ih).cons_cons a

/-- No member of the list stands after one it is the same as. -/
theorem pairwise_firsts (l : List α) : (firsts same l).Pairwise fun a b => same a b = false := by
  induction l with
  | nil => exact List.Pairwise.nil
  | cons a l ih =>
    refine List.pairwise_cons.mpr ⟨fun b hb => ?_, ih.filter _⟩
    simpa using (List.mem_filter.mp hb).2

/-- Nothing is left out where no two are the same. -/
theorem firsts_eq_self (h : l.Pairwise fun a b => same a b = false) : firsts same l = l := by
  induction l with
  | nil => rfl
  | cons a l ih =>
    obtain ⟨hfirst, hrest⟩ := List.pairwise_cons.mp h
    show a :: (firsts same l).filter (fun b => !same a b) = a :: l
    rw [ih hrest, List.filter_eq_self.mpr fun b hb => by simpa using hfirst b hb]

/-- Every member is the same as one that is kept. -/
theorem exists_mem_firsts (h : Equates same) (hb : b ∈ l) : ∃ a ∈ firsts same l, same a b = true := by
  induction l with
  | nil => exact absurd hb List.not_mem_nil
  | cons a l ih =>
    by_cases hab : same a b = true
    · exact ⟨a, List.mem_cons_self, hab⟩
    · rcases List.mem_cons.mp hb with rfl | hb
      · exact absurd (h.refl b) hab
      · obtain ⟨c, hc, hcb⟩ := ih hb
        refine ⟨c, List.mem_cons_of_mem _ (List.mem_filter.mpr ⟨hc, ?_⟩), hcb⟩
        rw [h.congr_right hcb a]
        simpa using hab

/-- Two members that are kept and are the same are one. -/
theorem eq_of_mem_firsts (h : Equates same) (ha : a ∈ firsts same l) (hb : b ∈ firsts same l)
    (hab : same a b = true) : a = b := by
  induction l with
  | nil => exact absurd ha List.not_mem_nil
  | cons c l ih =>
    rcases List.mem_cons.mp ha with rfl | ha
    · rcases List.mem_cons.mp hb with rfl | hb
      · rfl
      · exact absurd hab (by simpa using (List.mem_filter.mp hb).2)
    · rcases List.mem_cons.mp hb with rfl | hb
      · exact absurd (h.symm _ _ hab) (by simpa using (List.mem_filter.mp ha).2)
      · exact ih (List.mem_of_mem_filter ha) (List.mem_of_mem_filter hb)

/-- Every member is kept when no two are the same. -/
theorem forall_mem_firsts_iff (h : Equates same) :
    (∀ a ∈ l, a ∈ firsts same l) ↔ ∀ a ∈ l, ∀ b ∈ l, same a b = true → a = b := by
  constructor
  · exact fun hall a ha b hb => eq_of_mem_firsts h (hall a ha) (hall b hb)
  · intro hdistinct a ha
    obtain ⟨b, hb, hba⟩ := exists_mem_firsts h ha
    rwa [← hdistinct b (mem_of_mem_firsts hb) a ha hba]

/-- A map under which the same are the same. -/
theorem firsts_map {β : Type*} (f : β → α) (l : List β) :
    (firsts (fun a b => same (f a) (f b)) l).map f = firsts same (l.map f) := by
  induction l with
  | nil => rfl
  | cons a l ih =>
    show f a :: ((firsts (fun a b => same (f a) (f b)) l).filter fun b => !same (f a) (f b)).map f =
      f a :: (firsts same (l.map f)).filter fun b => !same (f a) b
    rw [← ih, List.filter_map]
    rfl

/-- Leaving out members that are never the same as one that stays. -/
theorem firsts_filter {p : α → Bool} (h : ∀ a b, same a b = true → p b = true → p a = true) :
    firsts same (l.filter p) = (firsts same l).filter p := by
  induction l with
  | nil => rfl
  | cons a l ih =>
    by_cases hp : p a = true
    · show _ = (a :: (firsts same l).filter fun b => !same a b).filter p
      rw [List.filter_cons_of_pos hp, List.filter_cons_of_pos hp, firsts, ih, List.filter_comm]
    · show _ = (a :: (firsts same l).filter fun b => !same a b).filter p
      have hall : (((firsts same l).filter p).filter fun b => !same a b) =
          (firsts same l).filter p := by
        refine List.filter_eq_self.mpr fun b hb => ?_
        simpa using fun hab => hp (h a b hab (List.mem_filter.mp hb).2)
      rw [List.filter_cons_of_neg hp, List.filter_cons_of_neg hp, ih, List.filter_comm, hall]

/-- The members kept are those that are found first. -/
theorem mem_firsts_iff (h : Equates same) :
    a ∈ firsts same l ↔ l.find? (fun b => same b a) = some a := by
  induction l with
  | nil => exact iff_of_false List.not_mem_nil fun hnone => absurd hnone.symm (Option.some_ne_none a)
  | cons b l ih =>
    show a ∈ b :: (firsts same l).filter (fun c => !same b c) ↔ _
    rw [List.mem_cons, List.mem_filter, ih]
    by_cases hba : same b a = true
    · rw [List.find?_cons_of_pos (p := fun b => same b a) hba]
      constructor
      · rintro (rfl | ⟨-, hnot⟩)
        · rfl
        · exact absurd hba (by simpa using hnot)
      · exact fun hb => Or.inl (Option.some.inj hb).symm
    · rw [List.find?_cons_of_neg (p := fun b => same b a) hba]
      constructor
      · rintro (rfl | ⟨hfound, -⟩)
        · exact absurd (h.refl a) hba
        · exact hfound
      · exact fun hfound => Or.inr ⟨hfound, by simpa using hba⟩

/-- The members that are kept are those without a match in another list exactly when all are
    kept and none has one. -/
theorem firsts_eq_filter_iff (h : Equates same) {m : List α} :
    firsts same l = l.filter (fun a => !m.any (same a)) ↔
      l.Pairwise (fun a b => same a b = false) ∧ ∀ a ∈ l, ∀ b ∈ m, same a b = false := by
  have hnone : (∀ a ∈ l, ∀ b ∈ m, same a b = false) →
      l.filter (fun a => !m.any (same a)) = l := fun hall => by
    refine List.filter_eq_self.mpr fun a ha => ?_
    simpa using hall a ha
  constructor
  · intro heq
    have hall : ∀ a ∈ l, ∀ b ∈ m, same a b = false := by
      intro a ha b hb
      obtain ⟨c, hc, hca⟩ := exists_mem_firsts h ha
      rw [heq] at hc
      have hcb : ∀ b ∈ m, same c b = false := by simpa using (List.mem_filter.mp hc).2
      rw [← h.congr hca]
      exact hcb b hb
    refine ⟨?_, hall⟩
    rw [hnone hall] at heq
    rw [← heq]
    exact pairwise_firsts l
  · rintro ⟨hpairwise, hall⟩
    rw [hnone hall]
    exact firsts_eq_self hpairwise

/-- What is found first for the same is the same. -/
theorem find?_eq_some_iff_same (h : Equates same) {c : α} :
    l.find? (fun b => same b c) = some a ↔
      l.find? (fun b => same b a) = some a ∧ same a c = true := by
  constructor
  · intro hfound
    have hac : same a c = true := by simpa using List.find?_some hfound
    refine ⟨?_, hac⟩
    rw [← hfound]
    congr 1
    exact funext fun b => h.congr_right hac b
  · rintro ⟨hfound, hac⟩
    rw [← hfound]
    congr 1
    exact funext fun b => (h.congr_right hac b).symm

/-- The member found first for a member of the list is itself when it is alone in its class. -/
theorem find?_self_of_alone (h : Equates same) (ha : a ∈ l)
    (halone : ∀ b ∈ l, same a b = true → b = a) : l.find? (fun b => same b a) = some a := by
  cases hfound : l.find? fun b => same b a with
  | none => exact absurd (h.refl a) (List.find?_eq_none.mp hfound a ha)
  | some b =>
    have hba : same b a = true := by simpa using List.find?_some hfound
    rw [halone b (List.mem_of_find?_eq_some hfound) (h.symm b a hba)]

/-- A class whose members are all found as themselves has one member. -/
theorem alone_of_find?_self (h : Equates same)
    (hfound : ∀ b ∈ l, same a b = true → l.find? (fun c => same c b) = some b) (ha : a ∈ l) :
    ∀ b ∈ l, same a b = true → b = a := by
  intro b hb hab
  have hfirst := hfound a ha (h.refl a)
  have hsame := ((find?_eq_some_iff_same h).mpr ⟨hfirst, hab⟩).symm.trans (hfound b hb hab)
  exact (Option.some.inj hsame).symm

/-! ### Counting -/

section Count

variable [DecidableEq α]

theorem count_firsts (h : Equates same) (a : α) :
    (firsts same l).count a = if l.find? (fun b => same b a) = some a then 1 else 0 := by
  have hnodup : (firsts same l).Nodup := (pairwise_firsts l).imp fun {b c} hbc heq => by
    rw [heq, h.refl] at hbc
    exact absurd hbc.symm Bool.false_ne_true
  simp only [← mem_firsts_iff h]
  split_ifs with ha
  · exact List.count_eq_one_of_mem hnodup ha
  · exact List.count_eq_zero_of_not_mem ha

/-- How often a member is found first for the members of another list. -/
theorem count_found (h : Equates same) (a : α) (m : List α) :
    (m.filterMap fun c => l.find? fun b => same b c).count a =
      if l.find? (fun b => same b a) = some a then m.countP (same a) else 0 := by
  induction m with
  | nil => simp
  | cons c m ih =>
    rw [List.countP_cons]
    cases hfound : l.find? (fun b => same b c) with
    | none =>
      rw [List.filterMap_cons_none (f := fun c => l.find? fun b => same b c) hfound, ih]
      split_ifs with ha hac
      · rw [(find?_eq_some_iff_same h).mpr ⟨ha, hac⟩] at hfound
        exact absurd hfound (Option.some_ne_none a)
      · rfl
      · rfl
    | some b =>
      rw [List.filterMap_cons_some (f := fun c => l.find? fun b => same b c) hfound,
        List.count_cons, ih]
      by_cases hab : b = a
      · subst hab
        obtain ⟨hb, hbc⟩ := (find?_eq_some_iff_same h).mp hfound
        rw [if_pos hb, if_pos hbc, if_pos (beq_self_eq_true b), if_pos hb]
      · have hne : ¬ (b == a) = true := by simpa using hab
        rw [if_neg hne, add_zero]
        split_ifs with ha hac
        · have hboth := (find?_eq_some_iff_same h).mpr ⟨ha, hac⟩
          exact absurd (Option.some.inj (hfound.symm.trans hboth)) hab
        · rfl
        · rfl

/-- Looking the members of another list up gives the members that have one there, each as often
    as it is in the list, exactly when such a member is alone in its class and has as many. -/
theorem found_perm_iff (h : Equates same) {m : List α} :
    (m.filterMap fun c => l.find? fun b => same b c).Perm (l.filter fun a => m.any (same a)) ↔
      ∀ a ∈ l, m.any (same a) = true →
        (∀ b ∈ l, same a b = true → b = a) ∧ l.count a = m.countP (same a) := by
  rw [List.perm_iff_count]
  simp only [count_found h]
  constructor
  · intro hcount a ha hany
    have hfound : ∀ b ∈ l, same a b = true → l.find? (fun c => same c b) = some b ∧
        l.count b = m.countP (same b) := by
      intro b hb hab
      have hanyb : m.any (same b) = true := by
        rwa [← show m.any (same a) = m.any (same b) from congrArg m.any (funext (h.congr hab))]
      have hb' := hcount b
      rw [List.count_filter (p := fun a => m.any (same a)) hanyb] at hb'
      split_ifs at hb' with hself
      · exact ⟨hself, hb'.symm⟩
      · exact absurd hb'.symm (List.count_pos_iff.mpr hb).ne'
    exact ⟨alone_of_find?_self h (fun b hb hab => (hfound b hb hab).1) ha,
      (hfound a ha (h.refl a)).2⟩
  · intro halone a
    by_cases ha : a ∈ l
    · by_cases hany : m.any (same a) = true
      · obtain ⟨hself, hcount⟩ := halone a ha hany
        rw [if_pos (find?_self_of_alone h ha hself),
          List.count_filter (p := fun a => m.any (same a)) hany, hcount]
      · have hzero : m.countP (same a) = 0 := by
          rw [List.countP_eq_zero]
          exact fun b hb hab => hany (List.any_eq_true.mpr ⟨b, hb, hab⟩)
        have hnot : a ∉ l.filter fun a => m.any (same a) := fun hmem =>
          hany (List.mem_filter.mp hmem).2
        rw [hzero, ite_self, List.count_eq_zero_of_not_mem hnot]
    · have hnot : a ∉ l.filter fun a => m.any (same a) := fun hmem => ha (List.mem_of_mem_filter hmem)
      rw [if_neg fun hself => ha (List.mem_of_find?_eq_some hself),
        List.count_eq_zero_of_not_mem hnot]

/-- With the first of each class this is the list again exactly when every member is alone in its
    class and is in the list once more than it has matches. -/
theorem firsts_append_found_perm_iff (h : Equates same) {m : List α} :
    (firsts same l ++ m.filterMap fun c => l.find? fun b => same b c).Perm l ↔
      ∀ a ∈ l, (∀ b ∈ l, same a b = true → b = a) ∧ l.count a = 1 + m.countP (same a) := by
  rw [List.perm_iff_count]
  simp only [List.count_append, count_firsts h, count_found h]
  constructor
  · intro hcount a ha
    have hfound : ∀ b ∈ l, l.find? (fun c => same c b) = some b ∧
        l.count b = 1 + m.countP (same b) := by
      intro b hb
      have hb' := hcount b
      split_ifs at hb' with hself
      · exact ⟨hself, hb'.symm⟩
      · exact absurd hb'.symm (List.count_pos_iff.mpr hb).ne'
    exact ⟨alone_of_find?_self h (fun b hb _ => (hfound b hb).1) ha, (hfound a ha).2⟩
  · intro halone a
    by_cases ha : a ∈ l
    · obtain ⟨hself, hcount⟩ := halone a ha
      have hfound := find?_self_of_alone h ha hself
      rw [if_pos hfound, if_pos hfound, hcount]
    · have hnone : ¬ l.find? (fun b => same b a) = some a := fun hself =>
        ha (List.mem_of_find?_eq_some hself)
      rw [if_neg hnone, if_neg hnone, List.count_eq_zero_of_not_mem ha]

end Count

/-- A member that is kept as the last of its class is found from the end. -/
theorem find?_reverse_of_mem_lasts (h : Equates same) (ha : a ∈ lasts same l) :
    l.reverse.find? (same a) = some a := by
  induction l with
  | nil => exact absurd ha List.not_mem_nil
  | cons b l ih =>
    unfold lasts at ha
    rw [List.reverse_cons, List.find?_append]
    split_ifs at ha with hany
    · rw [ih ha, Option.some_or]
    · rcases List.mem_cons.mp ha with rfl | ha
      · have hnone : l.reverse.find? (same a) = none := by
          rw [List.find?_eq_none]
          intro c hc hac
          exact hany (List.any_eq_true.mpr ⟨c, List.mem_reverse.mp hc, hac⟩)
        rw [hnone, Option.none_or, List.find?_cons_of_pos (h.refl a)]
      · rw [ih ha, Option.some_or]

theorem exists_mem_lasts (h : Equates same) (hb : b ∈ l) :
    ∃ a ∈ lasts same l, same a b = true := by
  induction l generalizing b with
  | nil => exact absurd hb List.not_mem_nil
  | cons c l ih =>
    unfold lasts
    split_ifs with hany
    · rcases List.mem_cons.mp hb with rfl | hb
      · obtain ⟨d, hd, hbd⟩ := List.any_eq_true.mp hany
        obtain ⟨a, ha, had⟩ := ih hd
        exact ⟨a, ha, h.trans a d b had (h.symm b d hbd)⟩
      · exact ih hb
    · rcases List.mem_cons.mp hb with rfl | hb
      · exact ⟨b, List.mem_cons_self, h.refl b⟩
      · obtain ⟨a, ha, hab⟩ := ih hb
        exact ⟨a, List.mem_cons_of_mem _ ha, hab⟩

theorem eq_of_mem_lasts (h : Equates same) (ha : a ∈ lasts same l) (hb : b ∈ lasts same l)
    (hab : same a b = true) : a = b := by
  have hfirst := find?_reverse_of_mem_lasts h ha
  have hsecond := find?_reverse_of_mem_lasts h hb
  rw [funext (h.congr hab), hsecond] at hfirst
  exact (Option.some.inj hfirst).symm

/-! ## Parts of a list without repetitions -/

/-- Members left in their order are determined by which they are. -/
theorem eq_filter_of_sublist {l' : List α} (hsub : l'.Sublist l) (hnodup : l.Nodup) {p : α → Bool}
    (hmem : ∀ a, a ∈ l' ↔ a ∈ l ∧ p a = true) : l' = l.filter p := by
  induction hsub with
  | slnil => rfl
  | @cons l' l a hsub ih =>
    obtain ⟨hnot, hnodup⟩ := List.nodup_cons.mp hnodup
    have hpa : ¬ p a = true := fun hpa =>
      hnot (hsub.subset ((hmem a).mpr ⟨List.mem_cons_self, hpa⟩))
    rw [List.filter_cons_of_neg hpa]
    refine ih hnodup fun b => (hmem b).trans ?_
    rw [List.mem_cons]
    refine ⟨fun ⟨hb, hpb⟩ => ⟨hb.resolve_left ?_, hpb⟩, fun ⟨hb, hpb⟩ => ⟨Or.inr hb, hpb⟩⟩
    rintro rfl
    exact hpa hpb
  | @cons_cons l' l a hsub ih =>
    obtain ⟨hnot, hnodup⟩ := List.nodup_cons.mp hnodup
    have hpa : p a = true := ((hmem a).mp List.mem_cons_self).2
    rw [List.filter_cons_of_pos hpa]
    congr 1
    refine ih hnodup fun b => ?_
    have hb := hmem b
    rw [List.mem_cons, List.mem_cons] at hb
    by_cases hab : b = a
    · subst hab
      exact iff_of_false (fun hmem => hnot (hsub.subset hmem)) fun hmem => hnot hmem.1
    · simpa [hab] using hb

end NekoBox.Lib
