import NekoBox.Profile.Uniq

/-!
# Differences and intersections of lists of profiles

`ProfileFilter::Common`, `OnlyInSrc`, `OnlyInSrc_ByPointer` and `OnlyInSrc_ByIds`
(`ProfileFilter.cpp`, lines 101–160). `OnlyInSrc` and `OnlyInSrc_ByIds` look up in a set to
which they add the keys of `src`, and do not use `dst`: they leave the first of each class.
`Common` looks up in the first of each class.

As in `Uniq`, nothing is said about what comes out where `operator<` is no strict weak order
on the keys that are compared (`OnlyInSrcReturns`, `CommonReturns`).

* `onlyInSrc_eq`, `common_eq`: what the loops leave where the keys are ordered.
* `differences_iff`: when each function leaves what its name says, and when the two results by
  key are a partition of `src`.
-/

namespace NekoBox.Profile

open NekoBox.Lib NekoBox.Store

variable {V P : Type}

/-! ## The code -/

section

variable (hash : String → Bytes) (text : V → String) (deref : P → ProxyEntity V) (byAddress : Bool)

/-- The loop body of `OnlyInSrc` (lines 130–135), with `keys` and `out`. -/
def onlyInSrcStep (st : List (ProfileFilterKey V × Unit) × List P) (ent : P) :
    List (ProfileFilterKey V × Unit) × List P :=
  let key := entKey (deref ent) byAddress
  if OrderedMap.contains (fun a b => a.lt hash text b) key st.1 then st
  else (OrderedMap.assign (fun a b => a.lt hash text b) key () st.1, st.2 ++ [ent])

/-- `OnlyInSrc` (lines 123–137) -/
def onlyInSrc (src _dst : List P) : List P :=
  (src.foldl (onlyInSrcStep hash text deref byAddress) ([], [])).2

/-- `map.insert({key, ent})`, which keeps an entry that is there. -/
def insertEnt (map : List (ProfileFilterKey V × P)) (ent : P) : List (ProfileFilterKey V × P) :=
  let key := entKey (deref ent) byAddress
  if OrderedMap.contains (fun a b => a.lt hash text b) key map then map
  else OrderedMap.assign (fun a b => a.lt hash text b) key ent map

/-- The body of the second loop of `Common` (lines 113–120), with `outSrc` and `outDst`. -/
def commonStep (map : List (ProfileFilterKey V × P)) (out : List P × List P) (ent : P) :
    List P × List P :=
  match OrderedMap.find (fun a b => a.lt hash text b) (entKey (deref ent) byAddress) map with
  | none => out
  | some found => (out.1 ++ [found], out.2 ++ [ent])

/-- `Common` (lines 101–121) -/
def common (src dst : List P) : List P × List P :=
  let map := src.foldl (insertEnt hash text deref byAddress) []
  dst.foldl (commonStep hash text deref byAddress map) ([], [])

/-- `OnlyInSrc_ByPointer` (lines 139–147) -/
def onlyInSrcByPointer [DecidableEq P] (src dst : List P) : List P :=
  src.foldl (fun out ent => if dst.contains ent then out else out ++ [ent]) []

/-- The loop body of `OnlyInSrc_ByIds` (lines 155–161), with `ids` and `out`. -/
def onlyInSrcByIdsStep (st : List (BitVec 32) × List P) (ent : P) : List (BitVec 32) × List P :=
  let id := (deref ent).id
  if st.1.contains id then st else (st.1 ++ [id], st.2 ++ [ent])

/-- `OnlyInSrc_ByIds` (lines 150–162) -/
def onlyInSrcByIds (src _dst : List P) : List P :=
  (src.foldl (onlyInSrcByIdsStep deref) ([], [])).2

/-! ## What the functions are for -/

/-- The identifiers of two profiles are equal. -/
def sameId (p q : P) : Bool := (deref p).id == (deref q).id

/-- What `OnlyInSrc` may leave in `out`. -/
def OnlyInSrcReturns (src dst out : List P) : Prop :=
  StrictWeakOn (fun a b => a.lt hash text b = true) (keysOf deref byAddress src) →
    out = onlyInSrc hash text deref byAddress src dst

/-- What `Common` may leave in `outSrc` and `outDst`: no two keys of `dst` are compared. -/
def CommonReturns (src dst : List P) (out : List P × List P) : Prop :=
  StrictWeakOn (fun a b => a.lt hash text b = true) (keysOf deref byAddress src) →
    (∀ ent ∈ dst, StrictWeakOn (fun a b => a.lt hash text b = true)
      (keysOf deref byAddress (ent :: src))) →
    out = common hash text deref byAddress src dst

/-- The elements of `src` that have one in `dst`, with one of `dst` each. -/
structure CommonCorrect (src dst : List P) (out : List P × List P) : Prop where
  outSrc : out.1.Perm (src.filter fun p => dst.any (sameKey hash text deref byAddress p))
  matched : List.Forall₂ (fun p q => sameKey hash text deref byAddress p q = true) out.1 out.2
  outDst : ∀ q ∈ out.2, q ∈ dst

/-- The keys that `Common` compares are comparable component by component. -/
def KeysOrderedAcross (src dst : List P) : Prop :=
  KeysOrdered hash deref byAddress src ∧
    ∀ ent ∈ dst, KeysOrdered hash deref byAddress (ent :: src)

end

/-! ## The loops -/

section

variable {hash : String → Bytes} {text : V → String} {deref : P → ProxyEntity V}
  {byAddress : Bool} {src dst : List P}

/-- `OnlyInSrc` is the loop of `Uniq` that keeps the first, -/
theorem onlyInSrcStep_eq [DecidableEq P] (map : List (ProfileFilterKey V × P)) (out : List P) (ent : P) :
    onlyInSrcStep hash text deref byAddress (map.map fun e => (e.1, ()), out) ent =
      (((uniqStep hash text deref byAddress false (map, out) ent).1.map fun e => (e.1, ())),
        (uniqStep hash text deref byAddress false (map, out) ent).2) := by
  unfold onlyInSrcStep uniqStep
  dsimp only
  rw [OrderedMap.contains_map fun _ => (), OrderedMap.contains_eq_isSome_find]
  cases OrderedMap.find (fun a b => a.lt hash text b) (entKey (deref ent) byAddress) map with
  | none =>
    rw [Option.isSome_none, if_neg Bool.false_ne_true]
    exact Prod.ext (OrderedMap.assign_map (v := ent) fun _ => ()) rfl
  | some found =>
    rw [Option.isSome_some, if_pos rfl]
    rfl

theorem onlyInSrc_foldl [DecidableEq P] (src : List P) (map : List (ProfileFilterKey V × P))
    (out : List P) :
    (src.foldl (onlyInSrcStep hash text deref byAddress) (map.map fun e => (e.1, ()), out)).2 =
      (src.foldl (uniqStep hash text deref byAddress false) (map, out)).2 := by
  induction src generalizing map out with
  | nil => rfl
  | cons ent src ih =>
    rw [List.foldl_cons, List.foldl_cons, onlyInSrcStep_eq]
    exact ih _ _

theorem onlyInSrc_eq [DecidableEq P] (hkeys : KeysOrdered hash deref byAddress src) :
    onlyInSrc hash text deref byAddress src dst = firsts (sameKey hash text deref byAddress) src := by
  have huniq : uniq hash text deref byAddress false src =
      firsts (sameKey hash text deref byAddress) src := uniq_eq hkeys
  exact (onlyInSrc_foldl src [] []).trans huniq

/-- and so is the first loop of `Common`. -/
theorem insertEnt_eq [DecidableEq P] (map : List (ProfileFilterKey V × P)) (out : List P) (ent : P) :
    insertEnt hash text deref byAddress map ent =
      (uniqStep hash text deref byAddress false (map, out) ent).1 := by
  unfold insertEnt uniqStep
  dsimp only
  rw [OrderedMap.contains_eq_isSome_find]
  cases OrderedMap.find (fun a b => a.lt hash text b) (entKey (deref ent) byAddress) map with
  | none => rw [Option.isSome_none, if_neg Bool.false_ne_true]
  | some found =>
    rw [Option.isSome_some, if_pos rfl]
    rfl

theorem insertEnt_foldl [DecidableEq P] (src : List P) (map : List (ProfileFilterKey V × P))
    (out : List P) :
    src.foldl (insertEnt hash text deref byAddress) map =
      (src.foldl (uniqStep hash text deref byAddress false) (map, out)).1 := by
  induction src generalizing map out with
  | nil => rfl
  | cons ent src ih =>
    rw [List.foldl_cons, List.foldl_cons, insertEnt_eq map out]
    exact ih _ _

/-- What `Common` finds: the first element of `src` with the key. -/
theorem find_insertEnt [DecidableEq P] {ent : P}
    (hkeys : KeysOrdered hash deref byAddress (ent :: src)) :
    OrderedMap.find (fun a b => a.lt hash text b) (entKey (deref ent) byAddress)
        (src.foldl (insertEnt hash text deref byAddress) []) =
      src.find? fun p => sameKey hash text deref byAddress p ent := by
  have hloop : UniqLoop hash text deref byAddress false (keysOf deref byAddress (ent :: src)) src
      (src.foldl (uniqStep hash text deref byAddress false) ([], [])) :=
    uniqLoop_foldl (strictWeakOn_keysOf.mpr hkeys) src
      (fun p hp => ⟨p, List.mem_cons_of_mem _ hp, rfl⟩) uniqLoop_nil
  rw [insertEnt_foldl src [] []]
  exact hloop.find _ ⟨ent, List.mem_cons_self, rfl⟩

/-- What the second loop of `Common` leaves. -/
theorem common_foldl [DecidableEq P] (hkeys : ∀ ent ∈ dst, KeysOrdered hash deref byAddress (ent :: src)) :
    (common hash text deref byAddress src dst).1 =
        dst.filterMap (fun q => src.find? fun p => sameKey hash text deref byAddress p q) ∧
      List.Forall₂ (fun p q => sameKey hash text deref byAddress p q = true)
        (common hash text deref byAddress src dst).1 (common hash text deref byAddress src dst).2 ∧
      ∀ q ∈ (common hash text deref byAddress src dst).2, q ∈ dst := by
  unfold common
  dsimp only
  induction dst using List.reverseRecOn with
  | nil => exact ⟨rfl, List.Forall₂.nil, fun q hq => hq⟩
  | append_singleton dst ent ih =>
    obtain ⟨hout, hmatched, hmem⟩ := ih fun q hq => hkeys q (List.mem_append_left _ hq)
    have hfind : OrderedMap.find (fun a b => a.lt hash text b) (entKey (deref ent) byAddress)
        (src.foldl (insertEnt hash text deref byAddress) []) =
          src.find? fun p => sameKey hash text deref byAddress p ent :=
      find_insertEnt (hkeys ent (by simp))
    rw [List.foldl_append, List.foldl_cons, List.foldl_nil, List.filterMap_append, ← hout]
    unfold commonStep
    rw [hfind]
    cases hfound : src.find? fun p => sameKey hash text deref byAddress p ent with
    | none =>
      refine ⟨?_, hmatched, fun q hq => List.mem_append_left _ (hmem q hq)⟩
      simp only [List.filterMap_cons, hfound, List.filterMap_nil, List.append_nil]
    | some found =>
      have hsame : sameKey hash text deref byAddress found ent = true := by
        simpa using List.find?_some hfound
      refine ⟨?_, ?_, fun q hq => ?_⟩
      · simp only [List.filterMap_cons, hfound, List.filterMap_nil]
      · exact List.rel_append hmatched (List.Forall₂.cons hsame List.Forall₂.nil)
      · rcases List.mem_append.mp hq with hq | hq
        · exact List.mem_append_left _ (hmem q hq)
        · exact List.mem_append_right _ hq

theorem onlyInSrcByPointer_eq [DecidableEq P] (src dst : List P) :
    onlyInSrcByPointer src dst = src.filter fun p => decide (p ∉ dst) := by
  have hloop : ∀ (src out : List P),
      src.foldl (fun out ent => if dst.contains ent then out else out ++ [ent]) out =
        out ++ src.filter fun p => decide (p ∉ dst) := by
    intro src
    induction src with
    | nil => exact fun out => (List.append_nil out).symm
    | cons ent src ih =>
      intro out
      rw [List.foldl_cons, ih]
      by_cases hmem : ent ∈ dst
      · rw [if_pos (by simpa using hmem), List.filter_cons_of_neg (by simpa using hmem)]
      · rw [if_neg (by simpa using hmem), List.filter_cons_of_pos (by simpa using hmem),
          List.append_assoc, List.singleton_append]
  exact hloop src []

theorem equates_sameId : Equates (sameId deref) where
  refl := fun _ => beq_self_eq_true _
  symm := fun _ _ h => beq_iff_eq.mpr (beq_iff_eq.mp h).symm
  trans := fun _ _ _ h h' => beq_iff_eq.mpr ((beq_iff_eq.mp h).trans (beq_iff_eq.mp h'))

theorem onlyInSrcByIds_eq (src dst : List P) :
    onlyInSrcByIds deref src dst = firsts (sameId deref) src := by
  have hloop : ∀ src : List P, src.foldl (onlyInSrcByIdsStep deref) ([], []) =
      ((firsts (sameId deref) src).map fun p => (deref p).id, firsts (sameId deref) src) := by
    intro src
    induction src using List.reverseRecOn with
    | nil => rfl
    | append_singleton src ent ih =>
      have hseen : ((firsts (sameId deref) src).map fun p => (deref p).id).contains (deref ent).id =
          src.any fun p => sameId deref p ent := by
        rw [Bool.eq_iff_iff, List.contains_iff_mem, List.mem_map, List.any_eq_true]
        constructor
        · rintro ⟨p, hp, hid⟩
          exact ⟨p, mem_of_mem_firsts hp, beq_iff_eq.mpr hid⟩
        · rintro ⟨p, hp, hid⟩
          obtain ⟨q, hq, hqp⟩ := exists_mem_firsts equates_sameId hp
          exact ⟨q, hq, (beq_iff_eq.mp hqp).trans (beq_iff_eq.mp hid)⟩
      rw [List.foldl_append, ih, List.foldl_cons, List.foldl_nil, firsts_concat]
      unfold onlyInSrcByIdsStep
      dsimp only
      rw [hseen]
      split_ifs
      · rfl
      · rw [List.map_append, List.map_singleton]
  exact congrArg Prod.snd (hloop src)

/-! ## The results -/

theorem nonempty_of_not_ordered (h : ¬ KeysOrderedAcross hash deref byAddress src dst) :
    Nonempty P := by
  by_contra hempty
  rw [not_nonempty_iff] at hempty
  exact h ⟨fun p => isEmptyElim p, fun p => isEmptyElim p⟩

variable (hash text deref byAddress) in
/-- The keys are a strict weak order where they are compared. -/
theorem commonReturns_iff {out : List P × List P} :
    CommonReturns hash text deref byAddress src dst out ↔
      (KeysOrderedAcross hash deref byAddress src dst →
        out = common hash text deref byAddress src dst) := by
  unfold CommonReturns KeysOrderedAcross
  simp only [strictWeakOn_keysOf]
  exact and_imp.symm

theorem onlyInSrc_iff [DecidableEq P] :
    (∀ out, OnlyInSrcReturns hash text deref byAddress src dst out →
        out = src.filter fun p => !dst.any (sameKey hash text deref byAddress p)) ↔
      KeysOrdered hash deref byAddress src ∧
        src.Pairwise (fun p q => sameKey hash text deref byAddress p q = false) ∧
        ∀ p ∈ src, ∀ q ∈ dst, sameKey hash text deref byAddress p q = false := by
  rw [← firsts_eq_filter_iff equates_sameKey]
  constructor
  · intro h
    have hordered : KeysOrdered hash deref byAddress src := by
      by_contra hnot
      obtain ⟨p, -⟩ := not_forall.mp hnot
      have hany := h ((src.filter fun p => !dst.any (sameKey hash text deref byAddress p)) ++ [p])
        fun horder => absurd (strictWeakOn_keysOf.mp horder) hnot
      exact absurd hany (by simp)
    exact ⟨hordered, (onlyInSrc_eq hordered).symm.trans (h _ fun _ => rfl)⟩
  · rintro ⟨hordered, hfirsts⟩ out hout
    exact ((hout (strictWeakOn_keysOf.mpr hordered)).trans (onlyInSrc_eq hordered)).trans hfirsts

theorem onlyInSrcByIds_iff :
    onlyInSrcByIds deref src dst = src.filter (fun p => !dst.any (sameId deref p)) ↔
      src.Pairwise (fun p q => sameId deref p q = false) ∧
        ∀ p ∈ src, ∀ q ∈ dst, sameId deref p q = false := by
  rw [onlyInSrcByIds_eq]
  exact firsts_eq_filter_iff equates_sameId

theorem commonCorrect_iff [DecidableEq P] :
    (∀ out, CommonReturns hash text deref byAddress src dst out →
        CommonCorrect hash text deref byAddress src dst out) ↔
      KeysOrderedAcross hash deref byAddress src dst ∧
        ∀ p ∈ src, dst.any (sameKey hash text deref byAddress p) = true →
          (∀ p' ∈ src, sameKey hash text deref byAddress p p' = true → p' = p) ∧
            src.count p = dst.countP (sameKey hash text deref byAddress p) := by
  rw [← found_perm_iff equates_sameKey]
  simp only [commonReturns_iff]
  constructor
  · intro h
    have hordered : KeysOrderedAcross hash deref byAddress src dst := by
      by_contra hnot
      obtain ⟨p⟩ : Nonempty P := nonempty_of_not_ordered hnot
      have hmatched := (h ([p], []) fun horder => absurd horder hnot).matched
      cases hmatched
    refine ⟨hordered, ?_⟩
    rw [← (common_foldl hordered.2).1]
    exact (h _ fun _ => rfl).outSrc
  · rintro ⟨hordered, hperm⟩ out hout
    rw [hout hordered]
    obtain ⟨hfound, hmatched, hmem⟩ := common_foldl hordered.2
    exact ⟨hfound ▸ hperm, hmatched, hmem⟩

/-- The two results by key are a partition of `src`. -/
theorem partition_iff [DecidableEq P] :
    (∀ out out', OnlyInSrcReturns hash text deref byAddress src dst out →
        CommonReturns hash text deref byAddress src dst out' → (out ++ out'.1).Perm src) ↔
      KeysOrderedAcross hash deref byAddress src dst ∧
        ∀ p ∈ src, (∀ p' ∈ src, sameKey hash text deref byAddress p p' = true → p' = p) ∧
          src.count p = 1 + dst.countP (sameKey hash text deref byAddress p) := by
  rw [← firsts_append_found_perm_iff equates_sameKey]
  simp only [commonReturns_iff]
  constructor
  · intro h
    have hordered : KeysOrderedAcross hash deref byAddress src dst := by
      by_contra hnot
      obtain ⟨p⟩ : Nonempty P := nonempty_of_not_ordered hnot
      have hlong := h (onlyInSrc hash text deref byAddress src dst) (p :: src, []) (fun _ => rfl)
        fun horder => absurd horder hnot
      have hlength := hlong.length_eq
      rw [List.length_append, List.length_cons] at hlength
      omega
    refine ⟨hordered, ?_⟩
    rw [← onlyInSrc_eq hordered.1, ← (common_foldl hordered.2).1]
    exact h _ _ (fun _ => rfl) fun _ => rfl
  · rintro ⟨hordered, hperm⟩ out out' hout hout'
    rw [hout (strictWeakOn_keysOf.mpr hordered.1), hout' hordered, onlyInSrc_eq hordered.1,
      (common_foldl hordered.2).1]
    exact hperm

/-- **Main theorem.** When the functions do what their names say. -/
theorem differences_iff [DecidableEq P] (hash : String → Bytes) (text : V → String)
    (deref : P → ProxyEntity V) (byAddress : Bool) (src dst : List P) :
    ((∀ out, OnlyInSrcReturns hash text deref byAddress src dst out →
        out = src.filter fun p => !dst.any (sameKey hash text deref byAddress p)) ↔
      KeysOrdered hash deref byAddress src ∧
        src.Pairwise (fun p q => sameKey hash text deref byAddress p q = false) ∧
        ∀ p ∈ src, ∀ q ∈ dst, sameKey hash text deref byAddress p q = false) ∧
    onlyInSrcByPointer src dst = src.filter (fun p => decide (p ∉ dst)) ∧
    (onlyInSrcByIds deref src dst = src.filter (fun p => !dst.any (sameId deref p)) ↔
      src.Pairwise (fun p q => sameId deref p q = false) ∧
        ∀ p ∈ src, ∀ q ∈ dst, sameId deref p q = false) ∧
    ((∀ out, CommonReturns hash text deref byAddress src dst out →
        CommonCorrect hash text deref byAddress src dst out) ↔
      KeysOrderedAcross hash deref byAddress src dst ∧
        ∀ p ∈ src, dst.any (sameKey hash text deref byAddress p) = true →
          (∀ p' ∈ src, sameKey hash text deref byAddress p p' = true → p' = p) ∧
            src.count p = dst.countP (sameKey hash text deref byAddress p)) ∧
    ((∀ out out', OnlyInSrcReturns hash text deref byAddress src dst out →
        CommonReturns hash text deref byAddress src dst out' → (out ++ out'.1).Perm src) ↔
      KeysOrderedAcross hash deref byAddress src dst ∧
        ∀ p ∈ src, (∀ p' ∈ src, sameKey hash text deref byAddress p p' = true → p' = p) ∧
          src.count p = 1 + dst.countP (sameKey hash text deref byAddress p)) :=
  ⟨onlyInSrc_iff, onlyInSrcByPointer_eq src dst, onlyInSrcByIds_iff, commonCorrect_iff,
    partition_iff⟩

/-- A list less itself is not empty. -/
theorem onlyInSrc_self :
    ¬ ∀ (hash : String → Bytes) (text : String → String) (deref : ℕ → ProxyEntity String)
        (byAddress : Bool) (src dst : List ℕ),
      (∀ out, OnlyInSrcReturns hash text deref byAddress src dst out →
        out = src.filter fun p => !dst.any (sameKey hash text deref byAddress p)) := by
  intro h
  have hself := h (fun _ => []) id (fun _ => sample "http" "a.example") false [0] [0] _
    fun _ => rfl
  revert hself
  decide +kernel

end

end NekoBox.Profile
