import NekoBox.Lib.ThreeWay

/-!
# A map searched by a comparison

A list of entries in the order of iteration. A search goes to the first entry
that is not less than the key and has found it when the key is not less than
that entry either. Nothing is assumed of the comparison: whatever it is, the
entry found is equivalent to the key (`exists_of_contains`), and an assignment
keeps the other entries (`mem_assign`). Where it is a strict weak order, an
assignment is what a search finds (`find_assign`).
-/

namespace NekoBox.Lib.OrderedMap

variable {κ β : Type*} (lt : κ → κ → Bool)

/-- Neither key is less than the other. -/
def Equivalent (a b : κ) : Prop := lt a b = false ∧ lt b a = false

def contains (k : κ) : List (κ × β) → Bool
  | [] => false
  | e :: m => if lt e.1 k then contains k m else !lt k e.1

/-- `m.find(k)`, and what the entry found holds. -/
def find (k : κ) : List (κ × β) → Option β
  | [] => none
  | e :: m => if lt e.1 k then find k m else if lt k e.1 then none else some e.2

/-- `m[k] = v`: the entry found keeps its key. -/
def assign (k : κ) (v : β) : List (κ × β) → List (κ × β)
  | [] => [(k, v)]
  | e :: m =>
    if lt e.1 k then e :: assign k v m
    else if lt k e.1 then (k, v) :: e :: m
    else (e.1, v) :: m

variable {lt} {k : κ} {v : β} {m : List (κ × β)}

theorem exists_of_contains (h : contains lt k m = true) : ∃ e ∈ m, Equivalent lt e.1 k := by
  induction m with
  | nil => cases h
  | cons e m ih =>
    unfold contains at h
    split_ifs at h with hlt
    · obtain ⟨e', he', hequiv⟩ := ih h
      exact ⟨e', List.mem_cons_of_mem _ he', hequiv⟩
    · exact ⟨e, List.mem_cons_self, by simpa using hlt, by simpa using h⟩

/-- An entry after an assignment was there before, or has the key, or one
    equivalent to it, with the new value. -/
theorem mem_assign {e : κ × β} (h : e ∈ assign lt k v m) :
    e ∈ m ∨ e = (k, v) ∨ ∃ e' ∈ m, Equivalent lt e'.1 k ∧ e = (e'.1, v) := by
  induction m with
  | nil => exact Or.inr (Or.inl (List.mem_singleton.mp h))
  | cons e' m ih =>
    unfold assign at h
    split_ifs at h with hlt hgt
    · rcases List.mem_cons.mp h with rfl | h
      · exact Or.inl List.mem_cons_self
      · rcases ih h with hmem | hnew | ⟨e'', he'', hassigned⟩
        · exact Or.inl (List.mem_cons_of_mem _ hmem)
        · exact Or.inr (Or.inl hnew)
        · exact Or.inr (Or.inr ⟨e'', List.mem_cons_of_mem _ he'', hassigned⟩)
    · rcases List.mem_cons.mp h with hnew | hmem
      · exact Or.inr (Or.inl hnew)
      · exact Or.inl hmem
    · rcases List.mem_cons.mp h with hnew | hmem
      · exact Or.inr (Or.inr ⟨e', List.mem_cons_self, ⟨by simpa using hlt, by simpa using hgt⟩, hnew⟩)
      · exact Or.inl (List.mem_cons_of_mem _ hmem)

/-- The key, or one equivalent to it, is there after an assignment. -/
theorem exists_key_assign : ∃ e ∈ assign lt k v m, e.1 = k ∨ Equivalent lt e.1 k := by
  induction m with
  | nil => exact ⟨(k, v), List.mem_cons_self, Or.inl rfl⟩
  | cons e m ih =>
    unfold assign
    split_ifs with hlt hgt
    · obtain ⟨e', he', hkey⟩ := ih
      exact ⟨e', List.mem_cons_of_mem _ he', hkey⟩
    · exact ⟨(k, v), List.mem_cons_self, Or.inl rfl⟩
    · exact ⟨(e.1, v), List.mem_cons_self, Or.inr ⟨by simpa using hlt, by simpa using hgt⟩⟩

/-- No key is lost by an assignment. -/
theorem exists_assign_of_mem {e : κ × β} (h : e ∈ m) : ∃ e' ∈ assign lt k v m, e'.1 = e.1 := by
  induction m with
  | nil => cases h
  | cons e' m ih =>
    unfold assign
    split_ifs with hlt hgt
    · rcases List.mem_cons.mp h with rfl | h
      · exact ⟨e, List.mem_cons_self, rfl⟩
      · obtain ⟨e'', he'', hkey⟩ := ih h
        exact ⟨e'', List.mem_cons_of_mem _ he'', hkey⟩
    · exact ⟨e, List.mem_cons_of_mem _ h, rfl⟩
    · rcases List.mem_cons.mp h with rfl | h
      · exact ⟨(e.1, v), List.mem_cons_self, rfl⟩
      · exact ⟨e, List.mem_cons_of_mem _ h, rfl⟩

/-- The keys are in order after an assignment. -/
theorem pairwise_assign (htrans : ∀ a b c, lt a b = true → lt b c = true → lt a c = true)
    (h : m.Pairwise fun e e' => lt e.1 e'.1 = true) :
    (assign lt k v m).Pairwise fun e e' => lt e.1 e'.1 = true := by
  induction m with
  | nil => exact List.pairwise_singleton _ _
  | cons e m ih =>
    obtain ⟨hfirst, hrest⟩ := List.pairwise_cons.mp h
    unfold assign
    split_ifs with hlt hgt
    · refine List.pairwise_cons.mpr ⟨fun e' he' => ?_, ih hrest⟩
      rcases mem_assign he' with hmem | rfl | ⟨e'', he'', -, rfl⟩
      · exact hfirst e' hmem
      · exact hlt
      · exact hfirst e'' he''
    · refine List.pairwise_cons.mpr ⟨fun e' he' => ?_, h⟩
      rcases List.mem_cons.mp he' with rfl | hmem
      · exact hgt
      · exact htrans _ _ _ hgt (hfirst e' hmem)
    · exact List.pairwise_cons.mpr ⟨hfirst, hrest⟩

/-- An assignment leaves its entry alone if there was no other key. -/
theorem assign_eq_singleton_iff (hirrefl : lt k k = false)
    (h : m.Pairwise fun e e' => lt e.1 e'.1 = true) :
    assign lt k v m = [(k, v)] ↔ ∀ e ∈ m, e.1 = k := by
  constructor
  · intro hassign e he
    obtain ⟨e', he', hkey⟩ : ∃ e' ∈ assign lt k v m, e'.1 = e.1 := exists_assign_of_mem he
    rw [hassign, List.mem_singleton] at he'
    rw [← hkey, he']
  · intro hall
    cases m with
    | nil => rfl
    | cons e m =>
      obtain ⟨key, value⟩ := e
      obtain rfl : key = k := hall _ List.mem_cons_self
      have hnil : m = [] := by
        rw [List.eq_nil_iff_forall_not_mem]
        intro e' he'
        have hless := (List.pairwise_cons.mp h).1 e' he'
        rw [hall e' (List.mem_cons_of_mem _ he')] at hless
        exact absurd hless (by rw [hirrefl]; exact Bool.false_ne_true)
      simp [assign, hirrefl, hnil]

/-! ## Strict weak orders -/

/-- A key less than one of two equivalent keys is less than the other. -/
theorem lt_congr {S : Set κ} (h : StrictWeakOn (fun a b => lt a b = true) S) {a b c : κ}
    (ha : a ∈ S) (hb : b ∈ S) (hc : c ∈ S) (hab : Equivalent lt a b) :
    lt c a = lt c b ∧ lt a c = lt b c := by
  obtain ⟨hab, hba⟩ := hab
  have hincomp : ¬ lt a b = true ∧ ¬ lt b a = true := ⟨by simp [hab], by simp [hba]⟩
  have hleft : ∀ a ∈ S, ∀ b ∈ S, (¬ lt a b = true ∧ ¬ lt b a = true) →
      lt c a = true → lt c b = true := by
    intro a ha b hb hincomp hca
    by_contra hcb
    by_cases hbc : lt b c = true
    · exact hincomp.2 (h.trans b hb c hc a ha hbc hca)
    · exact (h.incomp_trans a ha b hb c hc hincomp ⟨hbc, hcb⟩).2 hca
  have hright : ∀ a ∈ S, ∀ b ∈ S, (¬ lt a b = true ∧ ¬ lt b a = true) →
      lt a c = true → lt b c = true := by
    intro a ha b hb hincomp hac
    by_contra hbc
    by_cases hcb : lt c b = true
    · exact hincomp.1 (h.trans a ha c hc b hb hac hcb)
    · exact (h.incomp_trans a ha b hb c hc hincomp ⟨hbc, hcb⟩).1 hac
  exact ⟨Bool.eq_iff_iff.mpr ⟨hleft a ha b hb hincomp, hleft b hb a ha hincomp.symm⟩,
    Bool.eq_iff_iff.mpr ⟨hright a ha b hb hincomp, hright b hb a ha hincomp.symm⟩⟩

/-- An assignment is found under the keys equivalent to its own, and changes
    nothing for the others. -/
theorem find_assign {S : Set κ} (h : StrictWeakOn (fun a b => lt a b = true) S)
    (hm : ∀ e ∈ m, e.1 ∈ S) {k' : κ} (hk : k ∈ S) (hk' : k' ∈ S) :
    find lt k' (assign lt k v m) =
      if lt k k' = false ∧ lt k' k = false then some v else find lt k' m := by
  induction m with
  | nil =>
    unfold assign find
    cases lt k k' <;> cases lt k' k <;> simp [find]
  | cons e m ih =>
    have he := hm e List.mem_cons_self
    have hrest := ih fun e' he' => hm e' (List.mem_cons_of_mem _ he')
    unfold assign
    by_cases hek : lt e.1 k = true
    · rw [if_pos hek]
      unfold find
      by_cases hek' : lt e.1 k' = true
      · rw [if_pos hek', if_pos hek', hrest]
      · have hnot : ¬ (lt k k' = false ∧ lt k' k = false) := fun hequiv =>
          hek' ((lt_congr h hk hk' he hequiv).1.symm.trans hek)
        rw [if_neg hek', if_neg hek', if_neg hnot]
    · rw [if_neg hek]
      by_cases hke : lt k e.1 = true
      · rw [if_pos hke]
        by_cases hkk' : lt k k' = true
        · rw [if_neg (by simp [hkk'])]
          show (if lt k k' = true then find lt k' (e :: m) else _) = _
          rw [if_pos hkk']
        · show (if lt k k' = true then _ else if lt k' k = true then none else some v) = _
          rw [if_neg hkk']
          by_cases hk'k : lt k' k = true
          · have hk'e : lt k' e.1 = true := h.trans k' hk' k hk e.1 he hk'k hke
            rw [if_pos hk'k, if_neg (by simp [hk'k])]
            unfold find
            rw [if_neg (h.asymm k' hk' e.1 he hk'e), if_pos hk'e]
          · rw [if_neg hk'k, if_pos ⟨by simpa using hkk', by simpa using hk'k⟩]
      · -- the entry is equivalent to the key assigned
        have hequiv : Equivalent lt e.1 k := ⟨by simpa using hek, by simpa using hke⟩
        obtain ⟨hleft, hright⟩ := lt_congr h he hk hk' hequiv
        rw [if_neg hke]
        unfold find
        dsimp only
        rw [hleft, hright]
        by_cases hkk' : lt k k' = true
        · rw [if_pos hkk', if_neg (by simp [hkk']), if_pos hkk']
        · by_cases hk'k : lt k' k = true
          · rw [if_neg hkk', if_pos hk'k, if_neg (by simp [hk'k]), if_neg hkk', if_pos hk'k]
          · rw [if_neg hkk', if_neg hk'k, if_pos ⟨by simpa using hkk', by simpa using hk'k⟩]

/-! ## Only the keys -/

section Keys

theorem contains_eq_isSome_find : contains lt k m = (find lt k m).isSome := by
  induction m with
  | nil => rfl
  | cons e m ih =>
    unfold contains find
    split_ifs with hlt hgt
    · exact ih
    · rw [hgt]
      rfl
    · rw [Bool.not_eq_true] at hgt
      rw [hgt]
      rfl

/-- Without the values the keys are found, -/
theorem contains_map {γ : Type*} (f : β → γ) :
    contains lt k (m.map fun e => (e.1, f e.2)) = contains lt k m := by
  induction m with
  | nil => rfl
  | cons e m ih =>
    rw [List.map_cons]
    unfold contains
    rw [ih]

/-- and assigned, in the same way. -/
theorem assign_map {γ : Type*} (f : β → γ) :
    assign lt k (f v) (m.map fun e => (e.1, f e.2)) =
      (assign lt k v m).map fun e => (e.1, f e.2) := by
  induction m with
  | nil => rfl
  | cons e m ih =>
    rw [List.map_cons]
    unfold assign
    rw [ih]
    split_ifs <;> rfl

end Keys

/-! ## Linear orders -/

section Linear

variable {κ : Type*} [LinearOrder κ] {k k' : κ} {m : List (κ × β)}

/-- `std::less` -/
def less (a b : κ) : Bool := decide (a < b)

theorem find_assign_less :
    find less k' (assign less k v m) = if k = k' then some v else find less k' m := by
  have horder : StrictWeakOn (fun a b : κ => less a b = true) Set.univ := by
    have hless : (fun a b : κ => less a b = true) = fun a b => ¬ b ≤ a := by
      funext a b
      rw [less, decide_eq_true_iff, not_le]
    rw [hless]
    exact (strictWeakOn_not_le_iff (f := id) Set.univ).mpr fun a _ b _ => le_total a b
  rw [find_assign horder (fun _ _ => trivial) trivial trivial]
  have hequal : (less k k' = false ∧ less k' k = false) ↔ k = k' := by
    rw [less, less, decide_eq_false_iff_not, decide_eq_false_iff_not, not_lt, not_lt]
    exact ⟨fun h => le_antisymm h.2 h.1, fun h => ⟨h.ge, h.le⟩⟩
  simp only [hequal]

end Linear

end NekoBox.Lib.OrderedMap
