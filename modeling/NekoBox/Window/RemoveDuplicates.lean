import NekoBox.Profile.Uniq
import NekoBox.Subscription.Merge

/-!
# Removing duplicates

`MainWindow::on_menu_remove_duplicates_triggered` (`mainwindow.cpp`, lines
3704–3757) with the macro `REMOVE_DUPLICATE_IDS` (lines 127–137), on the current
group. The identifiers of the group go through a `QSet<int>`, whose order of
iteration is `enumerate`; `Uniq` runs with `by_address` and `keep_last` off; what
it leaves out is deleted once the question is answered with yes.
`BatchDeleteProfiles` takes a profile out of the group it says it belongs to and
leaves the running one alone.

Main result: `remove_duplicates_iff`, with `uniqCorrect_iff` for `Uniq` itself.
The list after the action is the old one without repeated identifiers and later
duplicates exactly when the action does not get as far as the question, or the
keys are ordered, the set lists the profiles to keep in the order of the group,
and every later duplicate can be deleted from it.
-/

namespace NekoBox.Window

open NekoBox.Lib NekoBox.Store NekoBox.Profile NekoBox.Subscription

variable {V : Type}

/-! ## The action -/

/-- What `GetProfile` returns: a pointer to the profile of an identifier that
    has one. -/
abbrev Pointer (s : Profiles V) := {id : ℤ // (s.getProfile id).isSome}

def Pointer.deref {s : Profiles V} (p : Pointer s) : ProxyEntity V :=
  (s.getProfile p.1).get p.2

/-- `ProfileManager::FillProfileEnts` (`Database.cpp`, lines 706–713) -/
def fillProfileEnts (s : Profiles V) (l : List ℤ) : List (Pointer s) :=
  l.filterMap fun i => if h : (s.getProfile i).isSome then some ⟨i, h⟩ else none

/-- `Group::AddProfile` (`Group.cpp`, lines 154–162) -/
def addProfile (profiles : List ℤ) (id : ℤ) : List ℤ :=
  if id ∈ profiles then profiles else profiles ++ [id]

/-- `REMOVE_DUPLICATE_IDS` -/
def removeDuplicateIds (enumerate : List ℤ → List ℤ) (profiles : List ℤ) : List ℤ :=
  (enumerate profiles).foldl addProfile []

/-- `ProfileFilter::OnlyInSrc_ByPointer` (`ProfileFilter.cpp`, lines 137–145) -/
def onlyInSrcByPointer {P : Type} [DecidableEq P] (src dst : List P) : List P :=
  src.filter (· ∉ dst)

theorem mem_onlyInSrcByPointer {P : Type} [DecidableEq P] {src dst : List P} {p : P} :
    p ∈ onlyInSrcByPointer src dst ↔ p ∈ src ∧ p ∉ dst := by
  simp [onlyInSrcByPointer]

section

variable (hash : String → Bytes) (text : V → String) (enumerate : List ℤ → List ℤ)

/-- The profiles to be removed, for the list of the group without repeated
    identifiers (lines 3715–3730). -/
def duplicates (s : Profiles V) (profiles : List ℤ) : List (Pointer s) :=
  let profEnts := fillProfileEnts s profiles
  onlyInSrcByPointer profEnts (uniq hash text Pointer.deref false false profEnts)

/-- The question is asked for the state `s` and answered with yes, and `s'` is
    the state after that. Where the keys have no order `s'` is any state. -/
def Confirmed (s s' : Profiles V) : Prop :=
  let profiles := removeDuplicateIds enumerate (s.profiles s.currentGroup)
  profiles.length ≤ 3000 ∧
    (StrictWeakOn (fun a b => a.lt hash text b = true)
        (keysOf Pointer.deref false (fillProfileEnts s profiles)) →
      duplicates hash text s profiles ≠ [] ∧
        s' = (s.setProfiles s.currentGroup profiles).batchDeleteProfiles
          ((duplicates hash text s profiles).map fun p => p.deref.id.toInt) (-1))

/-- Both are the same identifier, or those of profiles with equal keys. -/
def sameProfile (s : Profiles V) (a b : ℤ) : Bool :=
  decide (a = b) || ((s.getProfile a).any fun x => (s.getProfile b).any fun y =>
    (entKey x false).eq hash text (entKey y false))

/-- The list of the group without repeated identifiers and later duplicates. -/
def withoutDuplicates (s : Profiles V) (profiles : List ℤ) : List ℤ :=
  firsts (sameProfile hash text s) profiles

end

/-! ## Pointers -/

section

variable {hash : String → Bytes} {text : V → String} {enumerate : List ℤ → List ℤ}
  {s : Profiles V} {l : List ℤ}

theorem Pointer.getProfile (p : Pointer s) : s.getProfile p.1 = some p.deref :=
  (Option.some_get p.2).symm

theorem Pointer.id_deref (p : Pointer s) : p.deref.id.toInt = p.1 :=
  s.id_getProfile p.1 p.deref p.getProfile

theorem map_fillProfileEnts :
    (fillProfileEnts s l).map Subtype.val = l.filter fun i => (s.getProfile i).isSome := by
  unfold fillProfileEnts
  rw [List.map_filterMap, ← List.filterMap_eq_filter]
  congr 1
  funext i
  by_cases h : (s.getProfile i).isSome
  · rw [dif_pos h]
    simp [Option.guard, h]
  · rw [dif_neg h]
    simp [Option.guard, h]

theorem mem_fillProfileEnts {p : Pointer s} : p ∈ fillProfileEnts s l ↔ p.1 ∈ l := by
  rw [← List.mem_map_of_injective Subtype.val_injective, map_fillProfileEnts, List.mem_filter]
  exact and_iff_left p.2

theorem sameProfile_iff {a b : ℤ} :
    sameProfile hash text s a b = true ↔
      a = b ∨ ∃ x y, s.getProfile a = some x ∧ s.getProfile b = some y ∧
        (entKey x false).rank hash = (entKey y false).rank hash := by
  unfold sameProfile
  rw [Bool.or_eq_true_iff, decide_eq_true_iff, Option.any_eq_true]
  refine or_congr_right ⟨?_, ?_⟩
  · rintro ⟨x, hx, h⟩
    obtain ⟨y, hy, heq⟩ := (Option.any_eq_true _ _).mp h
    exact ⟨x, y, hx, hy, ProfileFilterKey.eq_iff.mp heq⟩
  · rintro ⟨x, y, hx, hy, heq⟩
    exact ⟨x, hx, (Option.any_eq_true _ _).mpr ⟨y, hy, ProfileFilterKey.eq_iff.mpr heq⟩⟩

theorem equates_sameProfile : Equates (sameProfile hash text s) where
  refl := fun _ => sameProfile_iff.mpr (Or.inl rfl)
  symm := by
    intro a b h
    rcases sameProfile_iff.mp h with rfl | ⟨x, y, hx, hy, heq⟩
    · exact h
    · exact sameProfile_iff.mpr (Or.inr ⟨y, x, hy, hx, heq.symm⟩)
  trans := by
    intro a b c hab hbc
    rcases sameProfile_iff.mp hab with rfl | ⟨x, y, hx, hy, heq⟩
    · exact hbc
    · rcases sameProfile_iff.mp hbc with rfl | ⟨y', z, hy', hz, heq'⟩
      · exact hab
      · obtain rfl := Option.some.inj (hy.symm.trans hy')
        exact sameProfile_iff.mpr (Or.inr ⟨x, z, hx, hz, heq.trans heq'⟩)

theorem sameProfile_pointer (p q : Pointer s) :
    sameProfile hash text s p.1 q.1 = sameKey hash text Pointer.deref false p q := by
  rw [Bool.eq_iff_iff, sameProfile_iff, sameKey_iff]
  constructor
  · rintro (h | ⟨x, y, hx, hy, heq⟩)
    · rw [Subtype.val_injective h]
    · rw [p.getProfile] at hx
      rw [q.getProfile] at hy
      rw [Option.some.inj hx, Option.some.inj hy, heq]
  · exact fun h => Or.inr ⟨p.deref, q.deref, p.getProfile, q.getProfile, h⟩

/-- A profile is only the same as another that has a record, or itself. -/
theorem isSome_of_sameProfile {a b : ℤ} (h : sameProfile hash text s a b = true)
    (hb : (s.getProfile b).isSome = true) : (s.getProfile a).isSome = true := by
  rcases sameProfile_iff.mp h with rfl | ⟨x, y, hx, -, -⟩
  · exact hb
  · rw [hx, Option.isSome_some]

/-- The profiles `Uniq` leaves, as identifiers. -/
theorem map_firsts_fillProfileEnts :
    (firsts (sameKey hash text Pointer.deref false) (fillProfileEnts s l)).map Subtype.val =
      (withoutDuplicates hash text s l).filter fun i => (s.getProfile i).isSome := by
  have hsame : sameKey hash text Pointer.deref false =
      fun p q : Pointer s => sameProfile hash text s p.1 q.1 := by
    funext p q
    exact (sameProfile_pointer p q).symm
  rw [hsame, firsts_map, map_fillProfileEnts]
  exact firsts_filter fun a b => isSome_of_sameProfile

/-! ## The identifiers deleted -/

theorem keysOrdered_congr {l l' : List ℤ} (h : ∀ i, i ∈ l ↔ i ∈ l') :
    KeysOrdered hash Pointer.deref false (fillProfileEnts s l) ↔
      KeysOrdered hash Pointer.deref false (fillProfileEnts s l') := by
  have hmem : ∀ p : Pointer s, p ∈ fillProfileEnts s l ↔ p ∈ fillProfileEnts s l' := fun p => by
    rw [mem_fillProfileEnts, mem_fillProfileEnts, h]
  simp only [KeysOrdered, hmem]

/-- The profiles to be removed are those that are not the first of their class. -/
theorem mem_duplicates (hkeys : KeysOrdered hash Pointer.deref false (fillProfileEnts s l))
    {p : Pointer s} :
    p ∈ duplicates hash text s l ↔ p.1 ∈ l ∧ p.1 ∉ withoutDuplicates hash text s l := by
  have huniq : uniq hash text Pointer.deref false false (fillProfileEnts s l) = _ := uniq_eq hkeys
  unfold duplicates
  dsimp only
  rw [huniq, mem_onlyInSrcByPointer, mem_fillProfileEnts, if_neg Bool.false_ne_true,
    ← List.mem_map_of_injective Subtype.val_injective, map_firsts_fillProfileEnts, List.mem_filter]
  exact and_congr_right fun _ => not_congr (and_iff_left p.2)

/-- The identifiers deleted. -/
theorem mem_delIds (hkeys : KeysOrdered hash Pointer.deref false (fillProfileEnts s l)) {i : ℤ} :
    (i ∈ (duplicates hash text s l).map fun p => p.deref.id.toInt) ↔
      i ∈ l ∧ i ∉ withoutDuplicates hash text s l := by
  rw [List.mem_map]
  constructor
  · rintro ⟨p, hp, rfl⟩
    rw [p.id_deref]
    exact (mem_duplicates hkeys).mp hp
  · rintro ⟨hi, hlater⟩
    obtain ⟨j, hj, hji⟩ := exists_mem_firsts (@equates_sameProfile V hash text s) hi
    rcases sameProfile_iff.mp hji with rfl | ⟨x, y, -, hy, -⟩
    · exact absurd hj hlater
    · let p : Pointer s := ⟨i, by rw [hy, Option.isSome_some]⟩
      exact ⟨p, (mem_duplicates hkeys).mpr ⟨hi, hlater⟩, p.id_deref⟩

/-! ## The list after the action -/

theorem foldl_addProfile (l profiles : List ℤ) (h : (profiles ++ l).Nodup) :
    l.foldl addProfile profiles = profiles ++ l := by
  induction l generalizing profiles with
  | nil => rw [List.append_nil, List.foldl_nil]
  | cons i l ih =>
    have hnot : i ∉ profiles := fun hi =>
      (List.disjoint_of_nodup_append h) hi List.mem_cons_self
    rw [List.foldl_cons, addProfile, if_neg hnot, ih _ (by rwa [List.append_assoc]),
      List.append_assoc, List.singleton_append]

/-- The list of the group is what the set enumerates. -/
theorem removeDuplicateIds_eq (h : ∀ l, (enumerate l).Perm l.dedup) :
    removeDuplicateIds enumerate l = enumerate l :=
  foldl_addProfile _ [] ((h l).nodup_iff.mpr (List.nodup_dedup l))

/-- The identifiers that come later than one of their class can be deleted from
    the current group. -/
def LaterDeletable (hash : String → Bytes) (text : V → String) (s : Profiles V) (l : List ℤ) :
    Prop :=
  ∀ i ∈ l, i ∉ withoutDuplicates hash text s l → s.startedId ≠ i ∧ s.gidOf i = some s.currentGroup

/-- The list after the question, `e` being the list of the set. -/
theorem profiles_after {e : List ℤ} (hgroup : s.groups s.currentGroup ≠ none) (he : e.Nodup)
    (hkeys : KeysOrdered hash Pointer.deref false (fillProfileEnts s e)) :
    ((s.setProfiles s.currentGroup e).batchDeleteProfiles
        ((duplicates hash text s e).map fun p => p.deref.id.toInt) (-1)).profiles s.currentGroup =
      open Classical in e.filter fun i => ¬ (i ∉ withoutDuplicates hash text s e ∧
        s.startedId ≠ i ∧ s.gidOf i = some s.currentGroup) := by
  have hlist : (s.setProfiles s.currentGroup e).profiles s.currentGroup = e := by
    rw [Profiles.profiles_setProfiles, if_pos ⟨rfl, hgroup⟩]
  rw [profiles_batchDeleteProfiles (by rwa [hlist]), hlist]
  refine List.filter_congr fun i hi => decide_eq_decide.mpr (not_congr ?_)
  rw [mem_delIds hkeys]
  constructor
  · rintro ⟨⟨-, hlater⟩, hdeletable, hgid⟩
    exact ⟨hlater, hdeletable.1, hgid⟩
  · rintro ⟨hlater, hstarted, hgid⟩
    have hprofile : s.getProfile i ≠ none := by
      intro hnone
      rw [Profiles.gidOf, hnone] at hgid
      exact Option.some_ne_none _ hgid.symm
    exact ⟨⟨hi, hlater⟩, ⟨hstarted, hprofile⟩, hgid⟩

/-- The list is right when the first of each class come in their old order and
    the others are deleted. -/
theorem profiles_after_iff {e : List ℤ} (hgroup : s.groups s.currentGroup ≠ none) (he : e.Nodup)
    (hmem : ∀ i, i ∈ e ↔ i ∈ l)
    (hkeys : KeysOrdered hash Pointer.deref false (fillProfileEnts s e)) :
    ((s.setProfiles s.currentGroup e).batchDeleteProfiles
        ((duplicates hash text s e).map fun p => p.deref.id.toInt) (-1)).profiles s.currentGroup =
      withoutDuplicates hash text s l ↔
    withoutDuplicates hash text s e = withoutDuplicates hash text s l ∧
      LaterDeletable hash text s l := by
  rw [profiles_after hgroup he hkeys]
  have hlaws : Equates (sameProfile hash text s) := equates_sameProfile
  have hfirsts : withoutDuplicates hash text s e = open Classical in
      e.filter fun i => i ∈ withoutDuplicates hash text s e :=
    eq_filter_of_sublist (firsts_sublist e) he fun i => by
      rw [decide_eq_true_iff]
      exact ⟨fun hi => ⟨mem_of_mem_firsts hi, hi⟩, fun hi => hi.2⟩
  constructor
  · intro hafter
    -- one that is left although it comes later is the same as the first of its class
    have hdeleted : ∀ i ∈ e, i ∉ withoutDuplicates hash text s e →
        s.startedId ≠ i ∧ s.gidOf i = some s.currentGroup := by
      intro i hi hlater
      by_contra hleft
      obtain ⟨j, hj, hji⟩ := exists_mem_firsts hlaws hi
      have hkept : i ∈ withoutDuplicates hash text s l := by
        rw [← hafter, List.mem_filter]
        exact ⟨hi, decide_eq_true fun h => hleft h.2⟩
      have hfirst : j ∈ withoutDuplicates hash text s l := by
        rw [← hafter, List.mem_filter]
        exact ⟨mem_of_mem_firsts hj, decide_eq_true fun h => h.1 hj⟩
      rw [eq_of_mem_firsts hlaws hfirst hkept hji] at hj
      exact hlater hj
    have heq : withoutDuplicates hash text s e = withoutDuplicates hash text s l := by
      rw [← hafter]
      refine hfirsts.trans (List.filter_congr fun i hi => decide_eq_decide.mpr ?_)
      exact ⟨fun hi h => h.1 hi, fun h => by_contra fun hlater => h ⟨hlater, hdeleted i hi hlater⟩⟩
    refine ⟨heq, fun i hi hlater => hdeleted i ((hmem i).mpr hi) ?_⟩
    rwa [heq]
  · rintro ⟨heq, hlater⟩
    rw [← heq]
    refine Eq.trans (List.filter_congr fun i hi => decide_eq_decide.mpr ?_) hfirsts.symm
    refine ⟨fun h => by_contra fun hnot => h ⟨hnot, ?_⟩, fun hi h => h.1 hi⟩
    refine hlater i ((hmem i).mp hi) ?_
    rwa [← heq]

/-- No two profiles of the list are the same. -/
def Distinct (hash : String → Bytes) (text : V → String) (s : Profiles V) (l : List ℤ) : Prop :=
  ∀ a ∈ l, ∀ b ∈ l, sameProfile hash text s a b = true → a = b

theorem duplicates_ne_nil {e : List ℤ} (hmem : ∀ i, i ∈ e ↔ i ∈ l)
    (hkeys : KeysOrdered hash Pointer.deref false (fillProfileEnts s e)) :
    duplicates hash text s e ≠ [] ↔ ¬ Distinct hash text s l := by
  have hdistinct : (∀ a ∈ e, a ∈ withoutDuplicates hash text s e) ↔ Distinct hash text s l := by
    refine (forall_mem_firsts_iff equates_sameProfile).trans ?_
    simp only [hmem, Distinct]
  rw [← hdistinct, ← not_iff_not, not_not, not_not]
  constructor
  · intro hnil i hi
    by_contra hlater
    have hdel := (mem_delIds hkeys).mpr ⟨hi, hlater⟩
    rw [hnil] at hdel
    exact List.not_mem_nil hdel
  · intro hall
    rw [List.eq_nil_iff_forall_not_mem]
    intro p hp
    obtain ⟨hmem, hlater⟩ := (mem_duplicates hkeys).mp hp
    exact hlater (hall p.1 hmem)

/-- When the list after the action is the old one without repeated identifiers
    and later duplicates: the question is not asked, or the keys are ordered, the
    set lists the first of each class in the order of the group, and the others
    can be deleted from the group. -/
def KeepsOrder (hash : String → Bytes) (text : V → String) (enumerate : List ℤ → List ℤ)
    (s : Profiles V) (l : List ℤ) : Prop :=
  3000 < l.dedup.length ∨
    KeysOrdered hash Pointer.deref false (fillProfileEnts s l) ∧
      (Distinct hash text s l ∨
        withoutDuplicates hash text s (enumerate l) = withoutDuplicates hash text s l ∧
          LaterDeletable hash text s l)

theorem confirmed_iff (henumerate : ∀ l, (enumerate l).Perm l.dedup)
    (hgroup : s.groups s.currentGroup = some l) :
    (∀ s', Confirmed hash text enumerate s s' →
        s'.profiles s.currentGroup = withoutDuplicates hash text s l) ↔
      KeepsOrder hash text enumerate s l := by
  have hperm := henumerate l
  have hne : s.groups s.currentGroup ≠ none := by simp [hgroup]
  have hlist : s.profiles s.currentGroup = l := by simp [Profiles.profiles, hgroup]
  have hnodup : (enumerate l).Nodup := hperm.nodup_iff.mpr (List.nodup_dedup l)
  have hmem : ∀ i, i ∈ enumerate l ↔ i ∈ l := fun i => hperm.mem_iff.trans List.mem_dedup
  have hordered : StrictWeakOn (fun a b => a.lt hash text b = true)
      (keysOf Pointer.deref false (fillProfileEnts s (enumerate l))) ↔
        KeysOrdered hash Pointer.deref false (fillProfileEnts s l) :=
    strictWeakOn_keysOf.trans (keysOrdered_congr hmem)
  unfold Confirmed KeepsOrder
  rw [hlist, removeDuplicateIds_eq henumerate]
  dsimp only
  rw [hordered, hperm.length_eq]
  by_cases hbig : 3000 < l.dedup.length
  · exact iff_of_true (fun s' h => absurd h.1 (not_le.mpr hbig)) (Or.inl hbig)
  rw [or_iff_right hbig]
  by_cases hkeys : KeysOrdered hash Pointer.deref false (fillProfileEnts s l)
  · have hkeys' := (keysOrdered_congr hmem).mpr hkeys
    have hafter := @profiles_after_iff V hash text s l (enumerate l) hne hnodup hmem hkeys'
    rw [and_iff_right hkeys, ← hafter]
    by_cases hdistinct : Distinct hash text s l
    · refine iff_of_true (fun s' h => ?_) (Or.inl hdistinct)
      exact absurd hdistinct ((duplicates_ne_nil hmem hkeys').mp (h.2 hkeys).1)
    · rw [or_iff_right hdistinct]
      constructor
      · exact fun h => h _ ⟨not_lt.mp hbig, fun _ => ⟨(duplicates_ne_nil hmem hkeys').mpr hdistinct, rfl⟩⟩
      · rintro h s' ⟨-, hs'⟩
        rw [(hs' hkeys).2, h]
  · -- the map may do anything
    refine iff_of_false (fun h => ?_) fun h => hkeys h.1
    have hany := h (s.setProfiles s.currentGroup (withoutDuplicates hash text s l ++ [0]))
      ⟨not_lt.mp hbig, fun hordered => absurd hordered hkeys⟩
    rw [Profiles.profiles_setProfiles, if_pos ⟨rfl, hne⟩] at hany
    exact absurd hany (by simp)

end

/-- **Main theorem.** `Uniq` does what it is for exactly when the keys are ordered
    and, with `by_address` off, profiles of one type, address and port have one
    bean; and the action leaves the old list without repeated identifiers and
    later duplicates exactly when it `KeepsOrder`. -/
theorem remove_duplicates_iff (hash : String → Bytes) (text : V → String)
    (enumerate : List ℤ → List ℤ) (henumerate : ∀ l, (enumerate l).Perm l.dedup)
    (s : Profiles V) (l : List ℤ) (hgroup : s.groups s.currentGroup = some l) :
    (∀ (P : Type) [DecidableEq P] (deref : P → ProxyEntity V) (byAddress keepLast : Bool)
        (list : List P),
      (∀ out, UniqReturns hash text deref byAddress keepLast list out →
          UniqCorrect hash text deref byAddress keepLast list out) ↔
        KeysOrdered hash deref byAddress list ∧ (byAddress = false → BeansAgree deref list)) ∧
      ((∀ s', Confirmed hash text enumerate s s' →
          s'.profiles s.currentGroup = withoutDuplicates hash text s l) ↔
        KeepsOrder hash text enumerate s l) :=
  ⟨fun _ _ _ _ _ _ => uniqCorrect_iff, confirmed_iff henumerate hgroup⟩

/-- Two profiles of one server in a group that lists the first of them twice. -/
def repeated : Profiles String where
  groups := fun g => if g = 0 then some [1, 2, 1] else none
  getProfile := fun id =>
    if 1 ≤ id ∧ id ≤ 2 then some { sample "http" "a.example" with id := BitVec.ofInt 32 id } else none
  maxProfileId := 2
  startedId := -1
  currentGroup := 0
  subClear := false
  group_nonneg := by
    intro g hg
    split_ifs at hg with hzero
    · exact hzero.ge
    · exact absurd rfl hg
  id_getProfile := by
    intro id ent h
    split_ifs at h with hid
    obtain rfl := Option.some.inj h
    show (BitVec.ofInt 32 id).toInt = id
    rw [BitVec.toInt_ofInt, Int.bmod_eq_of_le (by omega) (by omega)]
  id_nonneg := by
    intro id ent h
    split_ifs at h with hid
    omega
  id_le := by
    intro id ent h
    split_ifs at h with hid
    omega
  max_nonneg := by decide
  started_le := by decide

/-- A set that is enumerated in the order of insertion. -/
def firstOccurrences (l : List ℤ) : List ℤ := l.reverse.dedup.reverse

theorem firstOccurrences_perm (l : List ℤ) : (firstOccurrences l).Perm l.dedup :=
  (List.reverse_perm _).trans (List.reverse_perm l).dedup

/-- The second of them is removed. -/
theorem remove_duplicates_repeated :
    KeepsOrder (fun _ => []) id firstOccurrences repeated [1, 2, 1] ∧
      ∀ s', Confirmed (fun _ => []) id firstOccurrences repeated s' → s'.profiles 0 = [1] := by
  have hfirst : withoutDuplicates (fun _ => []) id repeated [1, 2, 1] = [1] := by decide +kernel
  have hsame : ∀ p q : Pointer repeated,
      (entKey p.deref false).rank (fun _ => []) = (entKey q.deref false).rank (fun _ => []) := by
    intro p q
    refine (@sameKey_iff String _ _ id Pointer.deref false p q).mp (sameKey_false.mpr ?_)
    have hserver : ∀ p : Pointer repeated, SameServer p.deref (sample "http" "a.example") := by
      intro p
      have hp := p.getProfile
      generalize p.deref = ent at hp ⊢
      simp only [repeated, Option.ite_none_right_eq_some] at hp
      rw [← Option.some.inj hp.2]
      exact ⟨rfl, rfl, rfl⟩
    obtain ⟨htype, haddress, hport⟩ := hserver p
    obtain ⟨htype', haddress', hport'⟩ := hserver q
    exact ⟨htype.trans htype'.symm, haddress.trans haddress'.symm, hport.trans hport'.symm⟩
  have hkeeps : KeepsOrder (fun _ => []) id firstOccurrences repeated [1, 2, 1] := by
    refine Or.inr ⟨fun p _ q _ => Or.inl (hsame p q).le, Or.inr ⟨by decide +kernel, ?_⟩⟩
    intro i hi hlater
    rw [hfirst] at hlater
    simp only [List.mem_cons, List.not_mem_nil, or_false] at hi hlater
    obtain rfl : i = 2 := by omega
    decide
  have hafter := (remove_duplicates_iff (fun _ => []) id firstOccurrences firstOccurrences_perm
    repeated [1, 2, 1] rfl).2.mpr hkeeps
  rw [hfirst] at hafter
  exact ⟨hkeeps, hafter⟩

/-- With `by_address` off a profile with another password is left out. -/
theorem other_password_left_out :
    ¬ ∀ (hash : String → Bytes) (text : String → String) (enumerate : List ℤ → List ℤ)
        (s : Profiles String) (l : List ℤ),
      (∀ l, (enumerate l).Perm l.dedup) → s.groups s.currentGroup = some l →
        (∀ (P : Type) [DecidableEq P] (deref : P → ProxyEntity String) (byAddress keepLast : Bool)
            (list out : List P),
          UniqReturns hash text deref byAddress keepLast list out →
            UniqCorrect hash text deref byAddress keepLast list out) ∧
          ∀ s', Confirmed hash text enumerate s s' →
            s'.profiles s.currentGroup = withoutDuplicates hash text s l := by
  intro h
  let deref : Bool → ProxyEntity String := fun second =>
    { sample "http" "a.example" with bean := some [("password", .str (if second then "b" else "a"))] }
  have hcorrect := (h (fun _ => []) id List.dedup repeated [1, 2, 1] (fun l => List.Perm.refl _) rfl).1
    Bool deref false false [false, true]
  have hbeans := (uniqCorrect_iff.mp hcorrect).2 rfl false (by simp) true (by simp) ⟨rfl, rfl, rfl⟩
  simp [deref] at hbeans

end NekoBox.Window
