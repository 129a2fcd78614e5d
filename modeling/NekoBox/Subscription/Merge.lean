import NekoBox.Lib.Classes
import NekoBox.Subscription.GroupUpdater

/-!
# What an update leaves in the group

The keys of `ignore_map` compare the records of the entities, identifiers
included. A profile of the content has no identifier yet, so it is never found:
nothing of the group is kept but the running profile, and everything in the
content is new. A profile without a record puts a null key into the map, which
is dereferenced.

Results:
* `update_small`, `update_clear`: the group and the profiles after an update.
* `merges_iff`: an update is a merge by key that a second one leaves alone only
  when the content has no profile.
-/

namespace NekoBox.Subscription

open NekoBox.Lib NekoBox.Store NekoBox.Profile

variable {V : Type} {hash : String → Bytes} {text : V → String} {s : Profiles V}
  {ignoreMap : IgnoreMap V} {gid : ℤ} {list ids : List ℤ}

/-! ## Keys -/

/-- The key of a profile of the group. -/
def keyOf (s : Profiles V) (id : ℤ) : ProfileFilterKey V := ⟨s.getProfile id, false⟩

/-- Neither key less than the other: their ranks are equal. -/
theorem rank_of_equivalent {a b : ProfileFilterKey V}
    (h : OrderedMap.Equivalent (keyLess hash text) a b) : a.rank hash = b.rank hash := by
  have hab : ¬ a.lt hash text b = true := by simpa using h.1
  have hba : ¬ b.lt hash text a = true := by simpa using h.2
  rw [ProfileFilterKey.lt_iff, not_not] at hab hba
  exact le_antisymm hba hab

/-- The key of a profile without identifier is not that of a profile of the
    group. -/
theorem rank_ne_keyOf (hhash : OwnId hash) {ent : ProxyEntity V} (hent : ent.id = -1) (id : ℤ) :
    (keyOf s id).rank hash ≠ (ProfileFilterKey.mk (some ent) false).rank hash := by
  unfold keyOf
  cases hprofile : s.getProfile id with
  | none => exact rank_none_ne
  | some old =>
    intro h
    obtain ⟨-, -, -, -, hrecord⟩ := rank_inj.mp h
    have hid := id_of_record hhash (hrecord.resolve_left Bool.false_ne_true)
    have hnonneg := s.id_nonneg id old hprofile
    have hold := s.id_getProfile id old hprofile
    rw [hid, hent] at hold
    have hminus : (-1 : BitVec 32).toInt = -1 := by decide
    omega

/-- Profiles of the group with one rank are one profile. -/
theorem keyOf_inj (hhash : OwnId hash) {id id' : ℤ} (hid : s.getProfile id ≠ none)
    (h : (keyOf s id).rank hash = (keyOf s id').rank hash) : id = id' := by
  obtain ⟨ent, hent⟩ := Option.ne_none_iff_exists'.mp hid
  unfold keyOf at h
  rw [hent] at h
  cases hent' : s.getProfile id' with
  | none =>
    rw [hent'] at h
    exact absurd h.symm rank_none_ne
  | some ent' =>
    rw [hent'] at h
    obtain ⟨-, -, -, -, hrecord⟩ := rank_inj.mp h
    have heq := id_of_record hhash (hrecord.resolve_left Bool.false_ne_true)
    rw [← s.id_getProfile id ent hent, ← s.id_getProfile id' ent' hent', heq]

theorem rank_none {key : ProfileFilterKey V}
    (h : key.rank hash = (ProfileFilterKey.mk (none : Option (ProxyEntity V)) false).rank hash) :
    key.key = none := by
  obtain ⟨ent, skip⟩ := key
  cases ent with
  | none => rfl
  | some ent => exact absurd h.symm rank_none_ne

/-! ## The profiles of the group in the map -/

/-- The map and `ProfilesToDrop` after the loop over some profiles: there is an
    unmarked key for each of them, and no other. -/
structure Remembered (hash : String → Bytes) (s : Profiles V) (list : List ℤ)
    (st : IgnoreMap V × List ℤ) : Prop where
  mem : ∀ e ∈ st.1, e.2 = false ∧ ∃ id ∈ list, e.1 = keyOf s id
  key : ∀ id ∈ list, ∃ e ∈ st.1, e.1.rank hash = (keyOf s id).rank hash
  drop : ∀ id ∈ st.2, id ∈ list ∧ s.getProfile id ≠ none

theorem remembered_nil : Remembered hash s [] ([], []) where
  mem := fun _ h => absurd h List.not_mem_nil
  key := fun _ h => absurd h List.not_mem_nil
  drop := fun _ h => absurd h List.not_mem_nil

theorem remembered_assign {st : IgnoreMap V × List ℤ} {id : ℤ} {drops : List ℤ}
    (h : Remembered hash s list st)
    (hdrops : ∀ d ∈ drops, d ∈ st.2 ∨ d = id ∧ s.getProfile id ≠ none) :
    Remembered hash s (list ++ [id])
      (OrderedMap.assign (keyLess hash text) (keyOf s id) false st.1, drops) where
  mem := by
    intro e he
    rcases OrderedMap.mem_assign he with hmem | rfl | ⟨e', hmem, -, rfl⟩
    · obtain ⟨hfalse, id', hid', hkey⟩ := h.mem e hmem
      exact ⟨hfalse, id', List.mem_append_left _ hid', hkey⟩
    · exact ⟨rfl, id, List.mem_append_right _ List.mem_cons_self, rfl⟩
    · obtain ⟨-, id', hid', hkey⟩ := h.mem e' hmem
      exact ⟨rfl, id', List.mem_append_left _ hid', hkey⟩
  key := by
    intro id' hid'
    rcases List.mem_append.mp hid' with hid' | hid'
    · obtain ⟨e, he, hrank⟩ := h.key id' hid'
      obtain ⟨e', he', hkey⟩ := OrderedMap.exists_assign_of_mem he
      exact ⟨e', he', by rw [hkey, hrank]⟩
    · obtain rfl := List.mem_singleton.mp hid'
      obtain ⟨e, he, hkey⟩ :=
        @OrderedMap.exists_key_assign _ _ (keyLess hash text) (keyOf s id') false st.1
      refine ⟨e, he, ?_⟩
      rcases hkey with hkey | hequiv
      · rw [hkey]
      · exact rank_of_equivalent hequiv
  drop := by
    intro d hd
    rcases hdrops d hd with hd | ⟨rfl, hprofile⟩
    · exact ⟨List.mem_append_left _ (h.drop d hd).1, (h.drop d hd).2⟩
    · exact ⟨List.mem_append_right _ List.mem_cons_self, hprofile⟩

/-- One profile of the group. -/
theorem remember_some {st st' : IgnoreMap V × List ℤ} {id : ℤ} (h : Remembered hash s list st)
    (hstep : remember hash text s st id = some st') : Remembered hash s (list ++ [id]) st' := by
  unfold remember at hstep
  dsimp only at hstep
  split_ifs at hstep with hcontains
  · cases hprofile : s.getProfile id with
    | none => simp [hprofile] at hstep
    | some ent =>
      simp only [hprofile] at hstep
      obtain rfl := Option.some.inj hstep
      have hassign := @remembered_assign V hash text s list st id (st.2 ++ [ent.id.toInt]) h
      rw [keyOf, hprofile] at hassign
      refine hassign fun d hd => ?_
      rcases List.mem_append.mp hd with hd | hd
      · exact Or.inl hd
      · rw [List.mem_singleton.mp hd]
        exact Or.inr ⟨s.id_getProfile id ent hprofile, Option.some_ne_none ent⟩
  · obtain rfl := Option.some.inj hstep
    exact remembered_assign h fun d hd => Or.inl hd

theorem remember_isSome (st : IgnoreMap V × List ℤ) {id : ℤ} (h : s.getProfile id ≠ none) :
    ∃ st', remember hash text s st id = some st' := by
  unfold remember
  dsimp only
  split_ifs with hcontains
  · cases hprofile : s.getProfile id with
    | none => exact absurd hprofile h
    | some ent => exact ⟨_, rfl⟩
  · exact ⟨_, rfl⟩

/-- The loop over the group. -/
theorem remembered_foldlM {st st' : IgnoreMap V × List ℤ} (h : Remembered hash s list st)
    (hfold : ids.foldlM (remember hash text s) st = some st') :
    Remembered hash s (list ++ ids) st' := by
  induction ids generalizing list st with
  | nil =>
    obtain rfl := Option.some.inj hfold
    rw [List.append_nil]
    exact h
  | cons id ids ih =>
    rw [List.foldlM_cons] at hfold
    obtain ⟨st₁, hstep, hrest⟩ := Option.bind_eq_some_iff.mp hfold
    have hrun := ih (remember_some h hstep) hrest
    rwa [List.append_assoc] at hrun

theorem foldlM_remember_isSome (st : IgnoreMap V × List ℤ)
    (h : ∀ id ∈ ids, s.getProfile id ≠ none) :
    ∃ st', ids.foldlM (remember hash text s) st = some st' := by
  induction ids generalizing st with
  | nil => exact ⟨st, rfl⟩
  | cons id ids ih =>
    obtain ⟨st₁, hstep⟩ := @remember_isSome V hash text s st id (h id List.mem_cons_self)
    obtain ⟨st₂, hrest⟩ := ih st₁ fun id' hid' => h id' (List.mem_cons_of_mem _ hid')
    refine ⟨st₂, ?_⟩
    rw [List.foldlM_cons, hstep]
    exact hrest

/-! ## The content -/

/-- A profile of the content is not found. -/
theorem addProxy_new (hhash : OwnId hash) {st : IgnoreMap V × List (ProxyEntity V)}
    {ent : ProxyEntity V} (hent : ent.id = -1) (hkeys : ∀ e ∈ st.1, ∃ id, e.1 = keyOf s id) :
    addProxy hash text st ent = (st.1, st.2 ++ [ent]) := by
  unfold addProxy
  refine if_neg fun hcontains => ?_
  obtain ⟨e, he, hequiv⟩ := OrderedMap.exists_of_contains hcontains
  obtain ⟨id, hid⟩ := hkeys e he
  refine rank_ne_keyOf (s := s) hhash hent id ?_
  rw [← hid]
  exact rank_of_equivalent hequiv

theorem foldl_addProxy (hhash : OwnId hash) {content proxies : List (ProxyEntity V)}
    (hcontent : ∀ ent ∈ content, ent.id = -1)
    (hkeys : ∀ e ∈ ignoreMap, ∃ id, e.1 = keyOf s id) :
    content.foldl (addProxy hash text) (ignoreMap, proxies) = (ignoreMap, proxies ++ content) := by
  induction content generalizing proxies with
  | nil => rw [List.append_nil, List.foldl_nil]
  | cons ent content ih =>
    have hent := hcontent ent List.mem_cons_self
    rw [List.foldl_cons, @addProxy_new V hash text s hhash (ignoreMap, proxies) ent hent hkeys,
      ih fun e he => hcontent e (List.mem_cons_of_mem _ he), List.append_assoc]
    rfl

/-! ## Profiles to drop -/

/-- A null key that is not marked is dereferenced. -/
theorem unmarked_none {e : ProfileFilterKey V × Bool} (he : e ∈ ignoreMap) (hmark : e.2 = false)
    (hnull : e.1.key = none) : unmarked ignoreMap = none := by
  induction ignoreMap with
  | nil => cases he
  | cons d m ih =>
    obtain ⟨key, save⟩ := d
    rcases List.mem_cons.mp he with rfl | hmem
    · obtain rfl : save = false := hmark
      have hkey : key.key = none := hnull
      simp [unmarked, hkey]
    · cases save with
      | true => exact ih hmem
      | false =>
        cases hkey : key.key with
        | none => simp [unmarked, hkey]
        | some ent => simp [unmarked, hkey, ih hmem]

theorem unmarked_some (hmark : ∀ e ∈ ignoreMap, e.2 = false)
    (hkeys : ∀ e ∈ ignoreMap, e.1.key ≠ none) :
    ∃ ids, unmarked ignoreMap = some ids ∧
      ∀ id, id ∈ ids ↔ ∃ e ∈ ignoreMap, ∃ ent, e.1.key = some ent ∧ id = ent.id.toInt := by
  induction ignoreMap with
  | nil => exact ⟨[], rfl, by simp⟩
  | cons d m ih =>
    obtain ⟨ids, hids, hmem⟩ := ih (fun e he => hmark e (List.mem_cons_of_mem _ he))
      fun e he => hkeys e (List.mem_cons_of_mem _ he)
    obtain ⟨key, save⟩ := d
    obtain rfl : save = false := hmark _ List.mem_cons_self
    obtain ⟨ent, hent⟩ := Option.ne_none_iff_exists'.mp (hkeys _ List.mem_cons_self)
    have hkey : key.key = some ent := hent
    refine ⟨ent.id.toInt :: ids, by simp [unmarked, hkey, hids], fun id' => ?_⟩
    rw [List.mem_cons, hmem]
    simp [hkey]

/-! ## Deleting -/

/-- The group a profile says it belongs to. -/
def Profiles.gidOf (s : Profiles V) (id : ℤ) : Option ℤ :=
  (s.getProfile id).map fun ent => ent.gid.toInt

/-- `BatchDeleteProfiles` deletes it. -/
def Profiles.Deletable (s : Profiles V) (id : ℤ) : Prop :=
  s.startedId ≠ id ∧ s.getProfile id ≠ none

theorem Profiles.profiles_setProfiles (s : Profiles V) (gid g : ℤ) (list : List ℤ) :
    (s.setProfiles gid list).profiles g =
      if g = gid ∧ s.groups g ≠ none then list else s.profiles g := by
  unfold profiles setProfiles
  dsimp only
  by_cases hg : g = gid
  · cases s.groups g <;> simp [hg]
  · simp [hg]

theorem Profiles.mem_removeProfile {s : Profiles V} {gid id g i : ℤ} :
    i ∈ (s.removeProfile gid id).profiles g ↔ i ∈ s.profiles g ∧ ¬ (g = gid ∧ i = id) := by
  unfold removeProfile
  rw [profiles_setProfiles]
  by_cases hg : g = gid ∧ s.groups g ≠ none
  · rw [if_pos hg, ← hg.1]
    simp
  · rw [if_neg hg]
    refine ⟨fun h => ⟨h, fun hi => hg ⟨hi.1, fun hnone => ?_⟩⟩, fun h => h.1⟩
    simp [profiles, hnone] at h

/-- The loop of `BatchDeleteProfiles` over some identifiers. -/
structure Deleted (s : Profiles V) (ids : List ℤ) (st : Profiles V × List ℤ) : Prop where
  getProfile : st.1.getProfile = s.getProfile
  startedId : st.1.startedId = s.startedId
  maxProfileId : st.1.maxProfileId = s.maxProfileId
  subClear : st.1.subClear = s.subClear
  groups : ∀ g, st.1.groups g = none ↔ s.groups g = none
  length_profiles : ∀ g, (st.1.profiles g).length ≤ (s.profiles g).length
  mem_deleted : ∀ id, id ∈ st.2 ↔ id ∈ ids ∧ s.Deletable id
  mem_profiles : ∀ g id, id ∈ st.1.profiles g ↔
    id ∈ s.profiles g ∧ ¬ (id ∈ ids ∧ s.Deletable id ∧ s.gidOf id = some g)

theorem deleted_nil : Deleted s [] (s, []) where
  getProfile := rfl
  startedId := rfl
  maxProfileId := rfl
  subClear := rfl
  groups := fun _ => Iff.rfl
  length_profiles := fun _ => le_rfl
  mem_deleted := by simp
  mem_profiles := by simp

/-- An identifier that is not deleted. -/
theorem Deleted.skip {st : Profiles V × List ℤ} {id : ℤ} (h : Deleted s ids st)
    (hid : ¬ s.Deletable id) : Deleted s (ids ++ [id]) st where
  getProfile := h.getProfile
  startedId := h.startedId
  maxProfileId := h.maxProfileId
  subClear := h.subClear
  groups := h.groups
  length_profiles := h.length_profiles
  mem_deleted := by
    intro i
    rw [h.mem_deleted, List.mem_append, List.mem_singleton]
    refine and_congr_left fun hi => ⟨Or.inl, fun hor => hor.resolve_right ?_⟩
    rintro rfl
    exact hid hi
  mem_profiles := by
    intro g i
    rw [h.mem_profiles, List.mem_append, List.mem_singleton]
    refine and_congr_right fun _ => not_congr <| and_congr_left fun hi =>
      ⟨Or.inl, fun hor => hor.resolve_right ?_⟩
    rintro rfl
    exact hid hi.1

theorem Deleted.delete {st : Profiles V × List ℤ} {id : ℤ} {ent : ProxyEntity V}
    (h : Deleted s ids st) (hid : s.Deletable id) (hent : s.getProfile id = some ent) :
    Deleted s (ids ++ [id]) (st.1.removeProfile ent.gid.toInt id, st.2 ++ [id]) where
  getProfile := h.getProfile
  startedId := h.startedId
  maxProfileId := h.maxProfileId
  subClear := h.subClear
  groups := by
    intro g
    rw [← h.groups g]
    show (if g = _ then _ else _) = none ↔ _
    split_ifs
    · exact Option.map_eq_none_iff
    · exact Iff.rfl
  length_profiles := by
    intro g
    refine le_trans ?_ (h.length_profiles g)
    unfold Profiles.removeProfile
    rw [Profiles.profiles_setProfiles]
    split_ifs with hg
    · rw [hg.1]
      exact List.length_filter_le _ _
    · exact le_rfl
  mem_deleted := by
    intro i
    simp only [List.mem_append, List.mem_singleton, h.mem_deleted]
    refine ⟨?_, fun hi => ?_⟩
    · rintro (hi | rfl)
      · exact ⟨Or.inl hi.1, hi.2⟩
      · exact ⟨Or.inr rfl, hid⟩
    · rcases hi.1 with hmem | rfl
      · exact Or.inl ⟨hmem, hi.2⟩
      · exact Or.inr rfl
  mem_profiles := by
    intro g i
    have hgid : s.gidOf id = some ent.gid.toInt := by simp [Profiles.gidOf, hent]
    rw [Profiles.mem_removeProfile, h.mem_profiles, List.mem_append, List.mem_singleton, and_assoc]
    refine and_congr_right fun _ => ⟨?_, fun hnot => ⟨fun hi => ?_, ?_⟩⟩
    · rintro ⟨hkept, hother⟩ ⟨hmem | rfl, hi, hg⟩
      · exact hkept ⟨hmem, hi, hg⟩
      · rw [hgid] at hg
        exact hother ⟨(Option.some.inj hg).symm, rfl⟩
    · exact hnot ⟨Or.inl hi.1, hi.2⟩
    · rintro ⟨rfl, rfl⟩
      exact hnot ⟨Or.inr rfl, hid, hgid⟩

/-- One identifier. -/
theorem Deleted.deleteOne {st : Profiles V × List ℤ} (id : ℤ) (h : Deleted s ids st) :
    Deleted s (ids ++ [id]) (Profiles.deleteOne (-1) st id) := by
  unfold Profiles.deleteOne
  rw [h.getProfile, h.startedId]
  cases hent : s.getProfile id with
  | none =>
    have hid : ¬ s.Deletable id := fun hid => hid.2 hent
    split_ifs <;> exact h.skip hid
  | some ent =>
    have hnonneg := s.id_nonneg id ent hent
    rw [if_neg (by omega)]
    split_ifs with hstarted hall hneg
    · exact h.skip fun hid => hid.1 hstarted
    · exact absurd hall (by decide)
    · exact h.delete ⟨hstarted, by simp [hent]⟩ hent
    · exact absurd hneg (by decide)

theorem Deleted.foldl {st : Profiles V × List ℤ} {more : List ℤ} (h : Deleted s ids st) :
    Deleted s (ids ++ more) (more.foldl (Profiles.deleteOne (-1)) st) := by
  induction more generalizing ids st with
  | nil =>
    rw [List.append_nil]
    exact h
  | cons id more ih =>
    have hrun := ih (h.deleteOne id)
    rwa [List.append_assoc] at hrun

theorem deleted_all (ids : List ℤ) :
    Deleted s ids (ids.foldl (Profiles.deleteOne (-1)) (s, [])) := by
  have h := @Deleted.foldl V s [] (s, []) ids deleted_nil
  rwa [List.nil_append] at h

theorem foldl_deleteOne_skip {deleted : List ℤ} (h : ∀ id ∈ ids, ¬ s.Deletable id) :
    ids.foldl (Profiles.deleteOne (-1)) (s, deleted) = (s, deleted) := by
  induction ids with
  | nil => rfl
  | cons id ids ih =>
    have hskip : Profiles.deleteOne (-1) (s, deleted) id = (s, deleted) := by
      unfold Profiles.deleteOne
      by_cases hnegative : id < 0
      · exact if_pos hnegative
      · rw [if_neg hnegative]
        by_cases hstarted : s.startedId = id
        · exact if_pos hstarted
        · have hnone : s.getProfile id = none := by
            by_contra hprofile
            exact h id List.mem_cons_self ⟨hstarted, hprofile⟩
          rw [if_neg hstarted, hnone]
    rw [List.foldl_cons, hskip]
    exact ih fun i hi => h i (List.mem_cons_of_mem _ hi)

/-- `BatchDeleteProfiles` takes a profile out of the group it says it belongs
    to. -/
theorem mem_batchDeleteProfiles {g id : ℤ} :
    id ∈ (s.batchDeleteProfiles ids (-1)).profiles g ↔
      id ∈ s.profiles g ∧ ¬ (id ∈ ids ∧ s.Deletable id ∧ s.gidOf id = some g) :=
  (deleted_all ids).mem_profiles g id

theorem profiles_deleteOne_sublist (groupid : ℤ) (st : Profiles V × List ℤ) (id g : ℤ) :
    ((Profiles.deleteOne groupid st id).1.profiles g).Sublist (st.1.profiles g) := by
  have hremove : ∀ gid, ((st.1.removeProfile gid id).profiles g).Sublist (st.1.profiles g) := by
    intro gid
    unfold Profiles.removeProfile
    rw [Profiles.profiles_setProfiles]
    split_ifs with hg
    · rw [hg.1]
      exact List.filter_sublist
    · exact List.Sublist.refl _
  unfold Profiles.deleteOne
  cases st.1.getProfile id with
  | none => split_ifs <;> exact List.Sublist.refl _
  | some ent =>
    dsimp only
    split_ifs
    case neg => exact List.Sublist.refl _
    all_goals first | exact List.Sublist.refl _ | exact hremove _

/-- What `BatchDeleteProfiles` leaves of a list without repeated identifiers. -/
theorem profiles_batchDeleteProfiles {g : ℤ} (h : (s.profiles g).Nodup) :
    (s.batchDeleteProfiles ids (-1)).profiles g =
      open Classical in
        (s.profiles g).filter fun id => ¬ (id ∈ ids ∧ s.Deletable id ∧ s.gidOf id = some g) := by
  have hfold : ∀ (ids : List ℤ) (st : Profiles V × List ℤ),
      ((ids.foldl (Profiles.deleteOne (-1)) st).1.profiles g).Sublist (st.1.profiles g) := by
    intro ids
    induction ids with
    | nil => exact fun st => List.Sublist.refl _
    | cons id ids ih =>
      exact fun st => (ih _).trans (profiles_deleteOne_sublist (-1) st id g)
  have hsub : ((s.batchDeleteProfiles ids (-1)).profiles g).Sublist (s.profiles g) :=
    hfold ids (s, [])
  have hmem := fun id => @mem_batchDeleteProfiles V s ids g id
  exact eq_filter_of_sublist hsub h fun id => by simpa using hmem id

theorem getProfile_batchDeleteProfiles {id : ℤ} :
    (s.batchDeleteProfiles ids (-1)).getProfile id =
      open Classical in if id ∈ ids ∧ s.Deletable id then none else s.getProfile id := by
  have h := deleted_all (s := s) ids
  show (if id ∈ (ids.foldl (Profiles.deleteOne (-1)) (s, [])).2 then none
    else (ids.foldl (Profiles.deleteOne (-1)) (s, [])).1.getProfile id) = _
  rw [h.getProfile]
  by_cases hmem : id ∈ (ids.foldl (Profiles.deleteOne (-1)) (s, [])).2
  · rw [if_pos hmem, if_pos ((h.mem_deleted id).mp hmem)]
  · rw [if_neg hmem, if_neg fun hid => hmem ((h.mem_deleted id).mpr hid)]

/-! ## Adding -/

/-- `n` profiles are added to the group `gid`. -/
structure Added (s : Profiles V) (gid : ℤ) (n : ℕ) (s' : Profiles V) : Prop where
  startedId : s'.startedId = s.startedId
  subClear : s'.subClear = s.subClear
  maxProfileId : s'.maxProfileId = s.maxProfileId + n
  groups : ∀ g, s'.groups g = none ↔ s.groups g = none
  mem_profiles : ∀ g id, id ∈ s'.profiles g ↔
    id ∈ s.profiles g ∨ (g = gid ∧ s.maxProfileId < id ∧ id ≤ s.maxProfileId + n)
  getProfile_old : ∀ id ≤ s.maxProfileId, s'.getProfile id = s.getProfile id
  getProfile_new : ∀ id, s.maxProfileId < id → id ≤ s.maxProfileId + n → s'.getProfile id ≠ none

theorem added_zero : Added s gid 0 s where
  startedId := rfl
  subClear := rfl
  maxProfileId := by simp
  groups := fun _ => Iff.rfl
  mem_profiles := by
    intro g id
    refine ⟨Or.inl, fun h => h.resolve_right ?_⟩
    rintro ⟨-, hlt, hle⟩
    push_cast at hle
    omega
  getProfile_old := fun _ _ => rfl
  getProfile_new := by
    intro id hlt hle
    push_cast at hle
    omega

theorem added_append {ent : ProxyEntity V} (hgroup : s.groups gid ≠ none)
    (hmax : s.maxProfileId + 1 < 2 ^ 31) : Added s gid 1 (s.append gid ent hmax) where
  startedId := rfl
  subClear := rfl
  maxProfileId := rfl
  groups := by
    intro g
    show (if g = gid then _ else _) = none ↔ _
    split_ifs
    · exact Option.map_eq_none_iff
    · exact Iff.rfl
  mem_profiles := by
    intro g id
    show id ∈ (if g = gid then (s.groups g).map _ else s.groups g).getD [] ↔
      id ∈ (s.groups g).getD [] ∨ _
    by_cases hg : g = gid
    · obtain ⟨list, hlist⟩ := Option.ne_none_iff_exists'.mp hgroup
      rw [if_pos hg, hg, hlist]
      simp only [Option.map_some, Option.getD_some, List.mem_append, List.mem_singleton, true_and]
      refine or_congr_right ⟨fun h => ?_, fun h => ?_⟩
      · push_cast
        omega
      · push_cast at h
        omega
    · rw [if_neg hg]
      exact ⟨Or.inl, fun h => h.resolve_right fun hnew => hg hnew.1⟩
  getProfile_old := fun id hid => if_neg (by omega)
  getProfile_new := by
    intro id hlt hle
    push_cast at hle
    have hid : id = s.maxProfileId + 1 := by omega
    show (if id = s.maxProfileId + 1 then _ else _) ≠ none
    rw [if_pos hid]
    exact Option.some_ne_none _

theorem Added.trans {m n : ℕ} {s₁ s₂ : Profiles V} (h₁ : Added s gid m s₁)
    (h₂ : Added s₁ gid n s₂) : Added s gid (m + n) s₂ where
  startedId := h₂.startedId.trans h₁.startedId
  subClear := h₂.subClear.trans h₁.subClear
  maxProfileId := by
    rw [h₂.maxProfileId, h₁.maxProfileId]
    push_cast
    omega
  groups := fun g => (h₂.groups g).trans (h₁.groups g)
  mem_profiles := by
    intro g id
    rw [h₂.mem_profiles, h₁.mem_profiles, h₁.maxProfileId, or_assoc]
    refine or_congr_right ?_
    push_cast
    by_cases hg : g = gid
    · simp only [hg, true_and]
      omega
    · simp [hg]
  getProfile_old := by
    intro id hid
    have hmax := h₁.maxProfileId
    rw [h₂.getProfile_old id (by omega), h₁.getProfile_old id hid]
  getProfile_new := by
    intro id hlt hle
    have hmax := h₁.maxProfileId
    push_cast at hle
    by_cases hfirst : id ≤ s₁.maxProfileId
    · rw [h₂.getProfile_old id hfirst]
      exact h₁.getProfile_new id hlt (by omega)
    · exact h₂.getProfile_new id (by omega) (by omega)

theorem addProfile_new {ent : ProxyEntity V} (hent : ent.id = -1) :
    Profiles.addProfile gid s ent =
      if hmax : s.maxProfileId + 1 < 2 ^ 31 then some (s.append gid ent hmax) else none := by
  have hminus : (-1 : BitVec 32).toInt = -1 := by decide
  unfold Profiles.addProfile
  rw [hent, hminus]
  exact if_neg (by decide)

/-- `AddProfileBatch` for profiles without identifiers. -/
theorem added_foldlM {ents : List (ProxyEntity V)} {s' : Profiles V}
    (hents : ∀ ent ∈ ents, ent.id = -1) (hgroup : s.groups gid ≠ none)
    (h : ents.foldlM (Profiles.addProfile gid) s = some s') : Added s gid ents.length s' := by
  induction ents generalizing s with
  | nil =>
    obtain rfl := Option.some.inj h
    exact added_zero
  | cons ent ents ih =>
    rw [List.foldlM_cons, addProfile_new (hents ent List.mem_cons_self)] at h
    obtain ⟨s₁, hstep, hrest⟩ := Option.bind_eq_some_iff.mp h
    split_ifs at hstep with hmax
    obtain rfl := Option.some.inj hstep
    have hone := @added_append V s gid ent hgroup hmax
    have hmore := ih (fun e he => hents e (List.mem_cons_of_mem _ he))
      (fun hnone => hgroup ((hone.groups gid).mp hnone)) hrest
    rw [List.length_cons, Nat.add_comm]
    exact hone.trans hmore

theorem addProfileBatch_eq {ents : List (ProxyEntity V)} (hgroup : s.groups gid ≠ none) :
    s.addProfileBatch ents gid = ents.foldlM (Profiles.addProfile gid) s := by
  have hnonneg := s.group_nonneg gid hgroup
  obtain ⟨list, hlist⟩ := Option.ne_none_iff_exists'.mp hgroup
  unfold Profiles.addProfileBatch
  dsimp only
  rw [if_neg (by omega), hlist]

/-! ## The update -/

/-- The code clears the group first. -/
def Clears (s : Profiles V) (gid : ℤ) : Prop :=
  s.subClear = true ∨ (s.profiles gid).length > 1000

theorem prepare_small (hgroup : s.groups gid ≠ none) (hsmall : ¬ Clears s gid) :
    prepare hash text s gid =
      ((s.profiles gid).foldlM (remember hash text s) ([], [])).map fun st => (s, st) := by
  obtain ⟨list, hlist⟩ := Option.ne_none_iff_exists'.mp hgroup
  have hprofiles : s.profiles gid = list := by simp [Profiles.profiles, hlist]
  unfold Clears at hsmall
  rw [hprofiles] at hsmall ⊢
  unfold prepare
  rw [hlist]
  exact if_neg hsmall

theorem prepare_clear (hgroup : s.groups gid ≠ none) (hclear : Clears s gid) :
    prepare hash text s gid =
      some ((s.batchDeleteProfiles (s.profiles gid) (-999)).setProfiles gid [], [], []) := by
  obtain ⟨list, hlist⟩ := Option.ne_none_iff_exists'.mp hgroup
  have hprofiles : s.profiles gid = list := by simp [Profiles.profiles, hlist]
  unfold Clears at hclear
  rw [hprofiles] at hclear ⊢
  unfold prepare
  rw [hlist]
  exact if_pos hclear

section

variable {content : List (ProxyEntity V)}

/-- The update after `prepare`, for a content of new profiles. -/
theorem update_eq {s₁ : Profiles V} {drops : List ℤ} (hhash : OwnId hash)
    (hcontent : ∀ ent ∈ content, ent.id = -1) (hgroup : s₁.groups gid ≠ none)
    (hkeys : ∀ e ∈ ignoreMap, ∃ id, e.1 = keyOf s id)
    (hprepare : prepare hash text s gid = some (s₁, ignoreMap, drops)) :
    update hash text s content gid =
      (content.foldlM (Profiles.addProfile gid) s₁).bind fun s₂ =>
        (if ignoreMap.length > 0 then (unmarked ignoreMap).map (drops ++ ·) else some drops).map
          fun profilesToDrop => s₂.batchDeleteProfiles profilesToDrop (-1) := by
  unfold update
  simp only [hprepare, Option.bind_eq_bind, Option.bind_some, foldl_addProxy hhash hcontent hkeys,
    List.nil_append, addProfileBatch_eq hgroup]
  refine congrArg _ (funext fun s₂ => ?_)
  split_ifs
  · cases unmarked ignoreMap <;> rfl
  · rfl

theorem remembered_keys {st : IgnoreMap V × List ℤ} (h : Remembered hash s list st) :
    ∀ e ∈ st.1, ∃ id, e.1 = keyOf s id := by
  intro e he
  obtain ⟨-, id, -, hid⟩ := h.mem e he
  exact ⟨id, hid⟩

/-- What is dropped when every profile of the group has a record. -/
theorem drops_of_valid (hhash : OwnId hash) {st : IgnoreMap V × List ℤ}
    (h : Remembered hash s list st) (hvalid : ∀ id ∈ list, s.getProfile id ≠ none) :
    ∃ drops, (if st.1.length > 0 then (unmarked st.1).map (st.2 ++ ·) else some st.2) =
      some drops ∧ ∀ id, id ∈ drops ↔ id ∈ list := by
  have hnull : ∀ e ∈ st.1, e.1.key ≠ none := by
    intro e he
    obtain ⟨-, id, hid, hkey⟩ := h.mem e he
    rw [hkey]
    exact hvalid id hid
  obtain ⟨ids, hids, hmem⟩ := unmarked_some (fun e he => (h.mem e he).1) hnull
  -- a key in the map is that of a profile in the list, and each of these has one
  have hkeys : ∀ id, id ∈ ids ↔ id ∈ list := by
    intro id
    rw [hmem]
    constructor
    · rintro ⟨e, he, ent, hent, rfl⟩
      obtain ⟨-, id, hid, hkey⟩ := h.mem e he
      rw [hkey] at hent
      rw [s.id_getProfile id ent hent]
      exact hid
    · intro hid
      obtain ⟨e, he, hrank⟩ := h.key id hid
      obtain ⟨-, id', -, hkey⟩ := h.mem e he
      rw [hkey] at hrank
      obtain ⟨ent, hent⟩ := Option.ne_none_iff_exists'.mp (hvalid id hid)
      have heq := keyOf_inj hhash (hvalid id hid) hrank.symm
      refine ⟨e, he, ent, ?_, (s.id_getProfile id ent hent).symm⟩
      rw [hkey, ← heq]
      exact hent
  by_cases hcount : st.1.length > 0
  · refine ⟨st.2 ++ ids, by rw [if_pos hcount, hids, Option.map_some], fun id => ?_⟩
    rw [List.mem_append, hkeys]
    exact ⟨fun hid => hid.elim (fun hdrop => (h.drop id hdrop).1) fun hlist => hlist, Or.inr⟩
  · refine ⟨st.2, if_neg hcount, fun id => ⟨fun hid => (h.drop id hid).1, fun hid => ?_⟩⟩
    obtain ⟨e, he, -⟩ := h.key id hid
    exact absurd (List.length_pos_of_mem he) hcount

/-- A group that is not cleared, all of whose profiles have records: the content
    is added, the profiles of the group are deleted. -/
theorem update_small (text : V → String) (hhash : OwnId hash) (hcontent : ∀ ent ∈ content, ent.id = -1)
    (hgroup : s.groups gid ≠ none) (hsmall : ¬ Clears s gid)
    (hvalid : ∀ id ∈ s.profiles gid, s.getProfile id ≠ none) :
    ∃ drops, (∀ id, id ∈ drops ↔ id ∈ s.profiles gid) ∧
      update hash text s content gid =
        (content.foldlM (Profiles.addProfile gid) s).map fun s' =>
          s'.batchDeleteProfiles drops (-1) := by
  have hfold : ∃ st, (s.profiles gid).foldlM (remember hash text s) ([], []) = some st :=
    foldlM_remember_isSome ([], []) hvalid
  obtain ⟨st, hst⟩ := hfold
  have hremembered := remembered_foldlM remembered_nil hst
  rw [List.nil_append] at hremembered
  obtain ⟨drops, hdrops, hmem⟩ := drops_of_valid hhash hremembered hvalid
  have hprepare : prepare hash text s gid = some (s, st) := by
    rw [prepare_small hgroup hsmall, hst, Option.map_some]
  refine ⟨drops, hmem, ?_⟩
  rw [update_eq hhash hcontent hgroup (remembered_keys hremembered) hprepare]
  simp only [hdrops, Option.map_some]
  cases content.foldlM (Profiles.addProfile gid) s <;> rfl

/-- A profile without a record: a null key is dereferenced. -/
theorem update_dangling (hhash : OwnId hash) (hcontent : ∀ ent ∈ content, ent.id = -1)
    (hgroup : s.groups gid ≠ none) (hsmall : ¬ Clears s gid) {id : ℤ}
    (hid : id ∈ s.profiles gid) (hnone : s.getProfile id = none) :
    update hash text s content gid = none := by
  cases hst : (s.profiles gid).foldlM (remember hash text s) ([], []) with
  | none =>
    have hprepare : prepare hash text s gid = none := by
      rw [prepare_small hgroup hsmall, hst, Option.map_none]
    unfold update
    rw [hprepare]
    rfl
  | some st =>
    have hremembered := remembered_foldlM remembered_nil hst
    rw [List.nil_append] at hremembered
    have hprepare : prepare hash text s gid = some (s, st) := by
      rw [prepare_small hgroup hsmall, hst, Option.map_some]
    obtain ⟨e, he, hrank⟩ := hremembered.key id hid
    unfold keyOf at hrank
    rw [hnone] at hrank
    have hunmarked := unmarked_none he (hremembered.mem e he).1 (rank_none hrank)
    rw [update_eq hhash hcontent hgroup (remembered_keys hremembered) hprepare,
      if_pos (List.length_pos_of_mem he), hunmarked]
    cases content.foldlM (Profiles.addProfile gid) s <;> rfl

/-- The group without its profiles. -/
def cleared (s : Profiles V) (gid : ℤ) : Profiles V :=
  (s.batchDeleteProfiles (s.profiles gid) (-999)).setProfiles gid []

/-- `BatchDeleteProfiles(ids, -999)` leaves the groups alone. -/
theorem foldl_deleteOne_all (st : Profiles V × List ℤ) :
    (ids.foldl (Profiles.deleteOne (-999)) st).1 = st.1 := by
  induction ids generalizing st with
  | nil => rfl
  | cons id ids ih =>
    rw [List.foldl_cons, ih]
    unfold Profiles.deleteOne
    cases hent : st.1.getProfile id with
    | none => split_ifs <;> rfl
    | some ent => split_ifs <;> first | rfl | contradiction

theorem cleared_groups (gid : ℤ) (g : ℤ) :
    (cleared s gid).groups g = if g = gid then (s.groups g).map fun _ => [] else s.groups g := by
  show (if g = gid then Option.map (fun _ => [])
      (((s.profiles gid).foldl (Profiles.deleteOne (-999)) (s, [])).1.groups g)
    else ((s.profiles gid).foldl (Profiles.deleteOne (-999)) (s, [])).1.groups g) = _
  rw [foldl_deleteOne_all]

theorem cleared_subClear (gid : ℤ) : (cleared s gid).subClear = s.subClear := by
  show ((s.profiles gid).foldl (Profiles.deleteOne (-999)) (s, [])).1.subClear = _
  rw [foldl_deleteOne_all]

theorem cleared_maxProfileId (gid : ℤ) : (cleared s gid).maxProfileId = s.maxProfileId := by
  show ((s.profiles gid).foldl (Profiles.deleteOne (-999)) (s, [])).1.maxProfileId = _
  rw [foldl_deleteOne_all]

theorem profiles_cleared (gid : ℤ) : (cleared s gid).profiles gid = [] := by
  unfold Profiles.profiles
  rw [cleared_groups, if_pos rfl]
  cases s.groups gid <;> rfl

theorem update_clear (text : V → String) (hhash : OwnId hash) (hcontent : ∀ ent ∈ content, ent.id = -1)
    (hgroup : s.groups gid ≠ none) (hclear : Clears s gid) :
    update hash text s content gid =
      (content.foldlM (Profiles.addProfile gid) (cleared s gid)).map fun s' =>
        s'.batchDeleteProfiles [] (-1) := by
  have hkeys : ∀ e ∈ ([] : IgnoreMap V), ∃ id, e.1 = keyOf s id :=
    fun e he => absurd he List.not_mem_nil
  have hcleared : (cleared s gid).groups gid ≠ none := by
    rw [cleared_groups, if_pos rfl]
    exact fun hnone => hgroup (Option.map_eq_none_iff.mp hnone)
  rw [update_eq hhash hcontent hcleared hkeys (prepare_clear hgroup hclear)]
  cases content.foldlM (Profiles.addProfile gid) (cleared s gid) <;> rfl

/-! ## A merge by key -/

/-- The group `gid` of `s'` is that of `s` merged with the content, where `same`
    says that two profiles have one key: the profiles whose key the content has
    too, a new one for every other key of the content, and the running one. -/
structure Merged (same : ProxyEntity V → ProxyEntity V → Prop) (content : List (ProxyEntity V))
    (gid : ℤ) (s s' : Profiles V) : Prop where
  origin : ∀ id ∈ s'.profiles gid, (id = s.startedId ∧ id ∈ s.profiles gid) ∨
    ∃ e, s'.getProfile id = some e ∧ ∃ c ∈ content, same e c ∧
      (id ∈ s.profiles gid ∨
        ∀ id' ∈ s.profiles gid, ∀ old, s.getProfile id' = some old → ¬ same old c)
  unchanged : ∀ id ∈ s.profiles gid, id ∈ s'.profiles gid → s'.getProfile id = s.getProfile id
  kept : ∀ c ∈ content, (∃ id ∈ s.profiles gid, ∃ old, s.getProfile id = some old ∧ same old c) →
    ∃ id ∈ s.profiles gid, id ∈ s'.profiles gid ∧ ∃ e, s'.getProfile id = some e ∧ same e c
  added : ∀ c ∈ content,
    (∀ id ∈ s.profiles gid, ∀ old, s.getProfile id = some old → ¬ same old c) →
    ∃ id ∈ s'.profiles gid, id ∉ s.profiles gid ∧ ∃ e, s'.getProfile id = some e ∧ same e c
  running : s.startedId ∈ s.profiles gid → s.startedId ∈ s'.profiles gid
  distinct : ∀ id₁ ∈ s'.profiles gid, ∀ id₂ ∈ s'.profiles gid, id₁ ≠ s.startedId →
    id₂ ≠ s.startedId → ∀ e₁ e₂, s'.getProfile id₁ = some e₁ → s'.getProfile id₂ = some e₂ →
      same e₁ e₂ → id₁ = id₂

/-- An update is a merge, and a second one with the same content changes
    nothing. -/
def Merges (hash : String → Bytes) (text : V → String)
    (same : ProxyEntity V → ProxyEntity V → Prop) (s : Profiles V)
    (content : List (ProxyEntity V)) (gid : ℤ) : Prop :=
  ∃ s' s'', update hash text s content gid = some s' ∧ Merged same content gid s s' ∧
    update hash text s' content gid = some s'' ∧ s''.groups = s'.groups ∧
    s''.getProfile = s'.getProfile

/-- The first profile of the content is there after the update, under the next
    identifier. -/
theorem update_creates (hhash : OwnId hash) {ent : ProxyEntity V} {s' : Profiles V}
    (hcontent : ∀ e ∈ ent :: content, e.id = -1) (hgroup : s.groups gid ≠ none)
    (h : update hash text s (ent :: content) gid = some s') :
    s'.getProfile (s.maxProfileId + 1) ≠ none ∧ s'.groups gid ≠ none := by
  have hnew : ∀ (s₁ s₂ : Profiles V) (drops : List ℤ), s₁.maxProfileId = s.maxProfileId →
      s₁.groups gid ≠ none → (s.maxProfileId + 1) ∉ drops →
      (ent :: content).foldlM (Profiles.addProfile gid) s₁ = some s₂ →
      (s₂.batchDeleteProfiles drops (-1)).getProfile (s.maxProfileId + 1) ≠ none ∧
        (s₂.batchDeleteProfiles drops (-1)).groups gid ≠ none := by
    intro s₁ s₂ drops hmax hgroup₁ hdrops hfold
    have hadded := added_foldlM hcontent hgroup₁ hfold
    constructor
    · rw [getProfile_batchDeleteProfiles, if_neg fun hid => hdrops hid.1]
      refine hadded.getProfile_new _ (by omega) ?_
      rw [List.length_cons]
      push_cast
      omega
    · intro hnone
      exact hgroup₁ ((hadded.groups gid).mp (((deleted_all drops).groups gid).mp hnone))
  by_cases hclear : Clears s gid
  · rw [update_clear text hhash hcontent hgroup hclear] at h
    obtain ⟨s₂, hfold, rfl⟩ := Option.map_eq_some_iff.mp h
    refine hnew (cleared s gid) s₂ [] (cleared_maxProfileId gid) ?_ List.not_mem_nil hfold
    rw [cleared_groups, if_pos rfl]
    exact fun hnone => hgroup (Option.map_eq_none_iff.mp hnone)
  · by_cases hvalid : ∀ id ∈ s.profiles gid, s.getProfile id ≠ none
    · obtain ⟨drops, hdrops, hupdate⟩ := update_small text hhash hcontent hgroup hclear hvalid
      rw [hupdate] at h
      obtain ⟨s₂, hfold, rfl⟩ := Option.map_eq_some_iff.mp h
      refine hnew s s₂ drops rfl hgroup (fun hmem => ?_) hfold
      obtain ⟨e, he⟩ := Option.ne_none_iff_exists'.mp (hvalid _ ((hdrops _).mp hmem))
      have hle := s.id_le _ e he
      omega
    · push Not at hvalid
      obtain ⟨id, hid, hnone⟩ := hvalid
      rw [update_dangling hhash hcontent hgroup hclear hid hnone] at h
      cases h

/-- A group of which only the running profile is left is left as it is. -/
theorem update_again (text : V → String) (hhash : OwnId hash) (hgroup : s.groups gid ≠ none)
    (hsmall : ¬ Clears s gid)
    (hstarted : ∀ id ∈ s.profiles gid, s.getProfile id ≠ none ∧ id = s.startedId) :
    ∃ s', update hash text s [] gid = some s' ∧ s'.groups = s.groups ∧
      s'.getProfile = s.getProfile := by
  obtain ⟨drops, hdrops, hupdate⟩ := update_small text hhash
    (fun e he => absurd he List.not_mem_nil) hgroup hsmall fun id hid => (hstarted id hid).1
  have hskip : ∀ id ∈ drops, ¬ s.Deletable id := fun id hid hdelete =>
    hdelete.1 (hstarted id ((hdrops id).mp hid)).2.symm
  refine ⟨s.batchDeleteProfiles drops (-1), hupdate, ?_, ?_⟩
  · show (drops.foldl (Profiles.deleteOne (-1)) (s, [])).1.groups = s.groups
    rw [foldl_deleteOne_skip hskip]
  · show (fun id => if id ∈ (drops.foldl (Profiles.deleteOne (-1)) (s, [])).2 then none
      else (drops.foldl (Profiles.deleteOne (-1)) (s, [])).1.getProfile id) = s.getProfile
    rw [foldl_deleteOne_skip hskip]
    funext id
    exact if_neg List.not_mem_nil

/-- An empty content leaves nothing in the group but the running profile: a
    small group has records for its profiles, which say that they belong to it,
    and a large one, which is cleared, does not hold the running profile. -/
def Emptied (s : Profiles V) (gid : ℤ) : Prop :=
  if (s.profiles gid).length ≤ 1000 then
    ∀ id ∈ s.profiles gid, s.getProfile id ≠ none ∧ (id = s.startedId ∨ s.gidOf id = some gid)
  else s.startedId ∉ s.profiles gid

/-- With an empty content the profiles left are the running one. -/
theorem merged_nil {same : ProxyEntity V → ProxyEntity V → Prop} {s' : Profiles V}
    (hleft : ∀ id ∈ s'.profiles gid, id = s.startedId ∧ id ∈ s.profiles gid)
    (hprofile : ∀ id ∈ s'.profiles gid, s'.getProfile id = s.getProfile id)
    (hrunning : s.startedId ∈ s.profiles gid → s.startedId ∈ s'.profiles gid) :
    Merged same [] gid s s' where
  origin := fun id hid => Or.inl (hleft id hid)
  unchanged := fun id _ hid => hprofile id hid
  kept := fun _ hc => absurd hc List.not_mem_nil
  added := fun _ hc => absurd hc List.not_mem_nil
  running := hrunning
  distinct := fun id₁ hid₁ _ _ hne => absurd (hleft id₁ hid₁).1 hne

theorem merges_nil_small {same : ProxyEntity V → ProxyEntity V → Prop} (hhash : OwnId hash)
    (hgroup : s.groups gid ≠ none) (hsmall : ¬ Clears s gid) :
    Merges hash text same s [] gid ↔
      ∀ id ∈ s.profiles gid, s.getProfile id ≠ none ∧ (id = s.startedId ∨ s.gidOf id = some gid) := by
  have hnil : ∀ e ∈ ([] : List (ProxyEntity V)), e.id = -1 := fun e he => absurd he List.not_mem_nil
  constructor
  · rintro ⟨s', -, hupdate, hmerged, -⟩ id hid
    have hvalid : ∀ id ∈ s.profiles gid, s.getProfile id ≠ none := by
      intro id hid hnone
      rw [update_dangling hhash hnil hgroup hsmall hid hnone] at hupdate
      cases hupdate
    obtain ⟨drops, -, hsome⟩ := update_small text hhash hnil hgroup hsmall hvalid
    rw [hsome] at hupdate
    obtain rfl := Option.some.inj hupdate
    refine ⟨hvalid id hid, or_iff_not_imp_right.mpr fun hgid => ?_⟩
    have hleft : id ∈ (s.batchDeleteProfiles drops (-1)).profiles gid :=
      mem_batchDeleteProfiles.mpr ⟨hid, fun hdelete => hgid hdelete.2.2⟩
    rcases hmerged.origin id hleft with ⟨hstarted, -⟩ | ⟨-, -, c, hc, -⟩
    · exact hstarted
    · cases hc
  · intro h
    obtain ⟨drops, hdrops, hsome⟩ := update_small text hhash hnil hgroup hsmall
      fun id hid => (h id hid).1
    have hdeleted := deleted_all (s := s) drops
    -- all but the running profile are deleted
    have hleft : ∀ id, id ∈ (s.batchDeleteProfiles drops (-1)).profiles gid ↔
        id = s.startedId ∧ id ∈ s.profiles gid := by
      intro id
      rw [mem_batchDeleteProfiles, and_comm]
      refine and_congr_left fun hid => ⟨fun hnot => ?_, fun heq hdelete => hdelete.2.1.1 heq.symm⟩
      refine (h id hid).2.elim (fun hstarted => hstarted) fun hgid => ?_
      by_contra hne
      exact hnot ⟨(hdrops id).mpr hid, ⟨Ne.symm hne, (h id hid).1⟩, hgid⟩
    have hprofile : ∀ id, id = s.startedId →
        (s.batchDeleteProfiles drops (-1)).getProfile id = s.getProfile id := by
      intro id hid
      rw [getProfile_batchDeleteProfiles, if_neg fun hdelete => hdelete.2.1 hid.symm]
    have hsmall' : ¬ Clears (s.batchDeleteProfiles drops (-1)) gid := by
      rintro (hclear | hlong)
      · exact hsmall (Or.inl (hdeleted.subClear ▸ hclear))
      · exact hsmall (Or.inr (lt_of_lt_of_le hlong (hdeleted.length_profiles gid)))
    have hgroup' : (s.batchDeleteProfiles drops (-1)).groups gid ≠ none :=
      fun hnone => hgroup ((hdeleted.groups gid).mp hnone)
    obtain ⟨s'', hagain, hgroups, hgetProfile⟩ := update_again text hhash hgroup' hsmall' <| by
        intro id hid
        obtain ⟨hstarted, hmem⟩ := (hleft id).mp hid
        refine ⟨?_, hstarted.trans hdeleted.startedId.symm⟩
        rw [hprofile id hstarted]
        exact (h id hmem).1
    refine ⟨_, s'', hsome, merged_nil (fun id => (hleft id).mp) (fun id hid => ?_) (fun hid => ?_),
      hagain, hgroups, hgetProfile⟩
    · exact hprofile id ((hleft id).mp hid).1
    · exact (hleft s.startedId).mpr ⟨rfl, hid⟩

theorem merges_nil_clear {same : ProxyEntity V → ProxyEntity V → Prop} (hhash : OwnId hash)
    (hgroup : s.groups gid ≠ none) (hsub : s.subClear = false) (hclear : Clears s gid) :
    Merges hash text same s [] gid ↔ s.startedId ∉ s.profiles gid := by
  have hupdate := @update_clear V hash s gid [] text hhash
    (fun e he => absurd he List.not_mem_nil) hgroup hclear
  have hprofiles : ((cleared s gid).batchDeleteProfiles [] (-1)).profiles gid = [] :=
    profiles_cleared gid
  have hgroup' : ((cleared s gid).batchDeleteProfiles [] (-1)).groups gid ≠ none := by
    show (cleared s gid).groups gid ≠ none
    rw [cleared_groups, if_pos rfl]
    exact fun hnone => hgroup (Option.map_eq_none_iff.mp hnone)
  constructor
  · rintro ⟨s', -, hsome, hmerged, -⟩ hstarted
    rw [hupdate] at hsome
    obtain rfl := Option.some.inj hsome
    have hmem := hmerged.running hstarted
    rw [hprofiles] at hmem
    cases hmem
  · intro hstarted
    have hsmall : ¬ Clears ((cleared s gid).batchDeleteProfiles [] (-1)) gid := by
      rintro (hsub' | hlong)
      · rw [show ((cleared s gid).batchDeleteProfiles [] (-1)).subClear = s.subClear from
          cleared_subClear gid, hsub] at hsub'
        cases hsub'
      · rw [hprofiles] at hlong
        cases hlong
    obtain ⟨s'', hagain, hgroups, hgetProfile⟩ := update_again text hhash hgroup' hsmall <| by
      intro id hid
      rw [hprofiles] at hid
      cases hid
    refine ⟨_, s'', hupdate, merged_nil ?_ ?_ (fun hid => absurd hid hstarted), hagain, hgroups,
      hgetProfile⟩
    · intro id hid
      rw [hprofiles] at hid
      cases hid
    · intro id hid
      rw [hprofiles] at hid
      cases hid

/-- **Main theorem.** Whatever makes two keys equal, an update is a merge by key
    that a second update leaves alone only when the content has no profile. -/
theorem merges_iff {same : ProxyEntity V → ProxyEntity V → Prop} (hhash : OwnId hash)
    (hcontent : ∀ ent ∈ content, ent.id = -1) (hgroup : s.groups gid ≠ none)
    (hsub : s.subClear = false) :
    Merges hash text same s content gid ↔ content = [] ∧ Emptied s gid := by
  have hempty : Merges hash text same s [] gid ↔ Emptied s gid := by
    unfold Emptied
    by_cases hlong : (s.profiles gid).length ≤ 1000
    · rw [if_pos hlong]
      refine merges_nil_small hhash hgroup ?_
      rintro (hclear | hlt)
      · rw [hsub] at hclear
        cases hclear
      · omega
    · rw [if_neg hlong]
      exact merges_nil_clear hhash hgroup hsub (Or.inr (by omega))
  cases content with
  | nil => rw [hempty, and_iff_right rfl]
  | cons ent content =>
    refine iff_of_false ?_ fun h => absurd h.1 (List.cons_ne_nil _ _)
    rintro ⟨s', s'', hfirst, -, hsecond, -, hgetProfile⟩
    -- the second update makes a profile under an identifier that was free
    have hgroup' := (update_creates hhash hcontent hgroup hfirst).2
    have hnew := (update_creates hhash hcontent hgroup' hsecond).1
    rw [hgetProfile] at hnew
    obtain ⟨e, he⟩ := Option.ne_none_iff_exists'.mp hnew
    have hle := s'.id_le _ e he
    omega

end

/-- A hash under which the names of fields are their own. -/
def nameBytes (name : String) : Bytes := name.toList.map fun c => Fin.ofNat 256 c.toNat

/-- A group of one profile, which does not run. -/
def sampleProfiles : Profiles String where
  groups := fun gid => if gid = 0 then some [3] else none
  getProfile := fun id => if id = 3 then some { sample "http" "a.example" with id := 3 } else none
  maxProfileId := 3
  startedId := -1919
  currentGroup := 0
  subClear := false
  group_nonneg := by
    intro gid hgid
    by_cases h : gid = 0
    · exact h.ge
    · simp [h] at hgid
  id_getProfile := by
    intro id ent h
    split_ifs at h with hid
    obtain rfl := Option.some.inj h
    rw [hid]
    decide
  id_nonneg := by
    intro id ent h
    split_ifs at h with hid
    omega
  id_le := by
    intro id ent h
    split_ifs at h with hid
    omega
  max_nonneg := by decide
  started_le := by decide

theorem ownId_nameBytes : OwnId nameBytes := by
  unfold OwnId
  decide

theorem merges_sample :
    Merges nameBytes id (fun a b => a.serverAddress = b.serverAddress) sampleProfiles [] 0 := by
  refine (merges_iff ownId_nameBytes (fun e he => absurd he List.not_mem_nil) (by decide) rfl).mpr
    ⟨rfl, ?_⟩
  intro id hid
  obtain rfl := List.mem_singleton.mp hid
  exact ⟨by decide, Or.inr (by decide)⟩

/-- The profile of the group is in the content: it is deleted, and a new one is
    added. -/
theorem equal_profile_replaced :
    ¬ ∀ (s : Profiles String) (content : List (ProxyEntity String)) (gid : ℤ),
      (∀ ent ∈ content, ent.id = -1) → s.groups gid ≠ none → s.subClear = false →
      Merges nameBytes id (fun a b => (ProfileFilterKey.mk (some a) false).Agree ⟨some b, false⟩) s
        content gid := by
  intro h
  let same := { sample "http" "a.example" with id := -1 }
  obtain ⟨s', -, hupdate, hmerged, -⟩ := h sampleProfiles [same] 0 (by decide) (by decide) rfl
  have hlist : (update nameBytes id sampleProfiles [same] 0).map (·.profiles 0) = some [4] := by
    decide +kernel
  rw [hupdate] at hlist
  have hprofiles : s'.profiles 0 = [4] := Option.some.inj hlist
  obtain ⟨id, hid, hleft, -⟩ := hmerged.kept same List.mem_cons_self
    ⟨3, List.mem_cons_self, _, rfl, rfl, rfl, rfl, rfl, fun _ => rfl⟩
  obtain rfl := List.mem_singleton.mp hid
  rw [hprofiles] at hleft
  exact absurd hleft (by decide)

end NekoBox.Subscription
