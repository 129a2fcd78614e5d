import NekoBox.Lib.Classes
import NekoBox.Lib.OrderedMap
import NekoBox.Profile.FilterKey

/-!
# `ProfileFilter::Uniq`

`ProfileFilter_ent_key` and `ProfileFilter::Uniq` (`ProfileFilter.cpp`, lines
64–99). The list is of pointers; `deref` is the profile one points to.
`ProfileFilter_ent_key` hands `!useAddressOnly` on as `skip_compare_beans`: the
keys that are to compare beans skip them.

The map is searched by `operator<`. Where that is no strict weak order on the
keys of the list the behaviour of a `std::map` is undefined, so nothing is said
about what comes out (`UniqReturns`).

Results:
* `uniq_eq`: where the keys are ordered the loop leaves the first, or the last,
  of each class of equal keys.
* `uniqCorrect_iff`: it does what it is for exactly when any two keys are
  ordered and, with `by_address` off, profiles of one type, address and port
  have one bean.
-/

namespace NekoBox.Profile

open NekoBox.Lib NekoBox.Store

variable {V P : Type}

/-- `ProfileFilter_ent_key` (lines 66–72) -/
def entKey (ent : ProxyEntity V) (byAddress : Bool) : ProfileFilterKey V :=
  let useAddressOnly := byAddress && ent.type != "custom"
  ⟨some ent, !useAddressOnly⟩

section

variable (hash : String → Bytes) (text : V → String) [DecidableEq P] (deref : P → ProxyEntity V)
  (byAddress keepLast : Bool)

/-- The loop body of `Uniq` (lines 86–97), with `hashMap` and `out`. -/
def uniqStep (st : List (ProfileFilterKey V × P) × List P) (ent : P) :
    List (ProfileFilterKey V × P) × List P :=
  let key := entKey (deref ent) byAddress
  let hashMap := OrderedMap.assign (fun a b => a.lt hash text b) key ent st.1
  match OrderedMap.find (fun a b => a.lt hash text b) key st.1 with
  | none => (hashMap, st.2 ++ [ent])
  | some found => if keepLast then (hashMap, st.2.filter (· ≠ found) ++ [ent]) else st

/-- `ProfileFilter::Uniq` (lines 80–99) -/
def uniq (list : List P) : List P :=
  (list.foldl (uniqStep hash text deref byAddress keepLast) ([], [])).2

end

section

variable (hash : String → Bytes) (text : V → String) (deref : P → ProxyEntity V)
  (byAddress keepLast : Bool)

/-- The keys of a list. -/
def keysOf (list : List P) : Set (ProfileFilterKey V) :=
  {key | ∃ p ∈ list, key = entKey (deref p) byAddress}

/-- The keys of two profiles are equal. -/
def sameKey (p q : P) : Bool :=
  (entKey (deref p) byAddress).eq hash text (entKey (deref q) byAddress)

/-- What `Uniq` may leave in `out`. -/
def UniqReturns [DecidableEq P] (list out : List P) : Prop :=
  StrictWeakOn (fun a b => a.lt hash text b = true) (keysOf deref byAddress list) →
    out = uniq hash text deref byAddress keepLast list

/-- Any two keys of the list are comparable component by component. -/
def KeysOrdered (list : List P) : Prop :=
  ∀ p ∈ list, ∀ q ∈ list,
    (entKey (deref p) byAddress).rank hash ≤ (entKey (deref q) byAddress).rank hash ∨
      (entKey (deref q) byAddress).rank hash ≤ (entKey (deref p) byAddress).rank hash

/-- Both profiles have the same type, address and port. -/
def SameServer (x y : ProxyEntity V) : Prop :=
  x.type = y.type ∧ x.serverAddress = y.serverAddress ∧ x.serverPort = y.serverPort

/-- Profiles of one type, address and port have the same bean. -/
def BeansAgree (list : List P) : Prop :=
  ∀ p ∈ list, ∀ q ∈ list, SameServer (deref p) (deref q) → (deref p).bean = (deref q).bean

/-- What `Uniq` is for: `out` has the first, or with `keep_last` the last, of
    each class of equal keys in the order of the list; and with `by_address` off
    a profile is only left out for one of the same type, address, port and bean. -/
structure UniqCorrect (list out : List P) : Prop where
  classes : out = if keepLast then lasts (sameKey hash text deref byAddress) list
    else firsts (sameKey hash text deref byAddress) list
  beans : byAddress = false → ∀ p ∈ list,
    ∃ q ∈ out, SameServer (deref p) (deref q) ∧ (deref p).bean = (deref q).bean

end

/-! ## Keys -/

section

variable {hash : String → Bytes} {text : V → String} {deref : P → ProxyEntity V}
  {byAddress keepLast : Bool} {list : List P}

theorem sameKey_iff {p q : P} :
    sameKey hash text deref byAddress p q = true ↔
      (entKey (deref p) byAddress).rank hash = (entKey (deref q) byAddress).rank hash :=
  ProfileFilterKey.eq_iff

theorem equates_sameKey : Equates (sameKey hash text deref byAddress) where
  refl := fun _ => sameKey_iff.mpr rfl
  symm := fun _ _ h => sameKey_iff.mpr (sameKey_iff.mp h).symm
  trans := fun _ _ _ h h' => sameKey_iff.mpr ((sameKey_iff.mp h).trans (sameKey_iff.mp h'))

/-- With `by_address` off the beans are skipped. -/
theorem sameKey_false {p q : P} :
    sameKey hash text deref false p q = true ↔ SameServer (deref p) (deref q) := by
  refine sameKey_iff.trans (rank_inj.trans ?_)
  constructor
  · rintro ⟨htype, haddress, hport, -, -⟩
    exact ⟨htype, haddress, hport⟩
  · rintro ⟨htype, haddress, hport⟩
    exact ⟨htype, haddress, hport, rfl, Or.inl rfl⟩

/-- Keys of which neither is less are equal. -/
theorem not_lt_iff_eq {a b : ProfileFilterKey V} :
    (a.lt hash text b = false ∧ b.lt hash text a = false) ↔ a.eq hash text b = true := by
  rw [ProfileFilterKey.eq_iff, ← not_le_incomp_iff, ← ProfileFilterKey.lt_iff,
    ← ProfileFilterKey.lt_iff, Bool.not_eq_true, Bool.not_eq_true]

theorem strictWeakOn_keysOf :
    StrictWeakOn (fun a b => a.lt hash text b = true) (keysOf deref byAddress list) ↔
      KeysOrdered hash deref byAddress list := by
  simp only [ProfileFilterKey.lt_iff]
  rw [strictWeakOn_not_le_iff]
  constructor
  · exact fun h p hp q hq => h _ ⟨p, hp, rfl⟩ _ ⟨q, hq, rfl⟩
  · rintro h _ ⟨p, hp, rfl⟩ _ ⟨q, hq, rfl⟩
    exact h p hp q hq

/-- Each class is represented in what is left, by one profile. -/
theorem exists_representative {p : P} (hp : p ∈ list) :
    ∃ q ∈ (if keepLast then lasts (sameKey hash text deref byAddress) list
      else firsts (sameKey hash text deref byAddress) list),
        q ∈ list ∧ sameKey hash text deref byAddress q p = true := by
  have hlaws : Equates (sameKey hash text deref byAddress) := equates_sameKey
  cases keepLast with
  | true =>
    obtain ⟨q, hq, hqp⟩ := exists_mem_lasts hlaws hp
    exact ⟨q, hq, mem_of_mem_lasts hq, hqp⟩
  | false =>
    obtain ⟨q, hq, hqp⟩ := exists_mem_firsts hlaws hp
    exact ⟨q, hq, mem_of_mem_firsts hq, hqp⟩

theorem representative_unique {p q : P}
    (hp : p ∈ if keepLast then lasts (sameKey hash text deref byAddress) list
      else firsts (sameKey hash text deref byAddress) list)
    (hq : q ∈ if keepLast then lasts (sameKey hash text deref byAddress) list
      else firsts (sameKey hash text deref byAddress) list)
    (h : sameKey hash text deref byAddress p q = true) : p = q := by
  cases keepLast with
  | true => exact eq_of_mem_lasts equates_sameKey hp hq h
  | false => exact eq_of_mem_firsts equates_sameKey hp hq h

/-! ## The loop -/

/-- The loop over the beginning `done` of a list whose keys are among `S`. -/
structure UniqLoop (hash : String → Bytes) (text : V → String) (deref : P → ProxyEntity V)
    (byAddress keepLast : Bool) (S : Set (ProfileFilterKey V)) (done : List P)
    (st : List (ProfileFilterKey V × P) × List P) : Prop where
  keys : ∀ e ∈ st.1, e.1 ∈ S
  find : ∀ key ∈ S, OrderedMap.find (fun a b => a.lt hash text b) key st.1 =
    (if keepLast then done.reverse else done).find?
      fun p => (entKey (deref p) byAddress).eq hash text key
  out : st.2 = if keepLast then lasts (sameKey hash text deref byAddress) done
    else firsts (sameKey hash text deref byAddress) done

theorem uniqLoop_nil {S : Set (ProfileFilterKey V)} :
    UniqLoop hash text deref byAddress keepLast S [] ([], []) where
  keys := fun _ h => absurd h List.not_mem_nil
  find := by cases keepLast <;> exact fun _ _ => rfl
  out := by cases keepLast <;> rfl

variable {S : Set (ProfileFilterKey V)} {done : List P} {p : P}
  {st : List (ProfileFilterKey V × P) × List P}

theorem UniqLoop.keys_assign (hp : entKey (deref p) byAddress ∈ S)
    (h : UniqLoop hash text deref byAddress keepLast S done st) :
    ∀ e ∈ OrderedMap.assign (fun a b => a.lt hash text b) (entKey (deref p) byAddress) p st.1,
      e.1 ∈ S := by
  intro e he
  rcases OrderedMap.mem_assign he with hmem | rfl | ⟨e', he', -, rfl⟩
  · exact h.keys e hmem
  · exact hp
  · exact h.keys e' he'

/-- What is found after `hashMap[key] = ent`. -/
theorem UniqLoop.find_assign (hS : StrictWeakOn (fun a b => a.lt hash text b = true) S)
    (hp : entKey (deref p) byAddress ∈ S)
    (h : UniqLoop hash text deref byAddress keepLast S done st) {key : ProfileFilterKey V}
    (hkey : key ∈ S) :
    OrderedMap.find (fun a b => a.lt hash text b) key
        (OrderedMap.assign (fun a b => a.lt hash text b) (entKey (deref p) byAddress) p st.1) =
      if (entKey (deref p) byAddress).eq hash text key = true then some p
      else (if keepLast then done.reverse else done).find?
        fun q => (entKey (deref q) byAddress).eq hash text key := by
  rw [OrderedMap.find_assign hS h.keys hp hkey, h.find key hkey]
  simp only [not_lt_iff_eq]

variable [DecidableEq P]

/-- Removing the pointer found removes the class of the key. -/
theorem filter_ne_found {found : P}
    (hfound : done.reverse.find? (fun q => sameKey hash text deref byAddress q p) = some found) :
    ((lasts (sameKey hash text deref byAddress) done).filter fun q => q ≠ found) =
      (lasts (sameKey hash text deref byAddress) done).filter
        fun q => !sameKey hash text deref byAddress q p := by
  have hlaws : Equates (sameKey hash text deref byAddress) := equates_sameKey
  refine List.filter_congr fun q hq => ?_
  have hlast := find?_reverse_of_mem_lasts hlaws hq
  have hsame : sameKey hash text deref byAddress found p = true := by
    simpa using List.find?_some hfound
  rw [Bool.eq_iff_iff, decide_eq_true_iff, Bool.not_eq_true', ← Bool.not_eq_true]
  refine not_congr ⟨?_, fun hqp => ?_⟩
  · rintro rfl
    exact hsame
  · have htest : sameKey hash text deref byAddress q =
        fun r => sameKey hash text deref byAddress r p := by
      funext r
      rw [hlaws.congr hqp r, hlaws.comm p r]
    rw [htest, hfound] at hlast
    exact (Option.some.inj hlast).symm

/-- One profile, the last of its class being kept. -/
theorem UniqLoop.step_last (hS : StrictWeakOn (fun a b => a.lt hash text b = true) S)
    (hp : entKey (deref p) byAddress ∈ S)
    (h : UniqLoop hash text deref byAddress true S done st) :
    UniqLoop hash text deref byAddress true S (done ++ [p])
      (uniqStep hash text deref byAddress true st p) := by
  have hfind := h.find _ hp
  have hout : st.2 = lasts (sameKey hash text deref byAddress) done := h.out
  have hassign : ∀ key ∈ S, OrderedMap.find (fun a b => a.lt hash text b) key
      (OrderedMap.assign (fun a b => a.lt hash text b) (entKey (deref p) byAddress) p st.1) =
        (done ++ [p]).reverse.find? fun q => (entKey (deref q) byAddress).eq hash text key := by
    intro key hkey
    rw [h.find_assign hS hp hkey, List.reverse_append, List.reverse_singleton,
      List.singleton_append, List.find?_cons]
    cases (entKey (deref p) byAddress).eq hash text key <;> rfl
  have hconcat : lasts (sameKey hash text deref byAddress) (done ++ [p]) = _ := lasts_concat p
  unfold uniqStep
  dsimp only
  rw [hfind]
  cases hres : done.reverse.find? fun q => sameKey hash text deref byAddress q p with
  | none =>
    have hnone := List.find?_eq_none.mp hres
    have hall : ((lasts (sameKey hash text deref byAddress) done).filter
        fun q => !sameKey hash text deref byAddress q p) =
          lasts (sameKey hash text deref byAddress) done := by
      refine List.filter_eq_self.mpr fun q hq => ?_
      simpa using hnone q (List.mem_reverse.mpr (mem_of_mem_lasts hq))
    rw [hall, ← hout] at hconcat
    unfold sameKey at hres
    rw [if_pos rfl, hres]
    exact ⟨h.keys_assign hp, hassign, hconcat.symm⟩
  | some found =>
    rw [← filter_ne_found hres, ← hout] at hconcat
    unfold sameKey at hres
    rw [if_pos rfl, hres]
    exact ⟨h.keys_assign hp, hassign, hconcat.symm⟩

/-- One profile, the first of its class being kept. -/
theorem UniqLoop.step_first (hS : StrictWeakOn (fun a b => a.lt hash text b = true) S)
    (hp : entKey (deref p) byAddress ∈ S)
    (h : UniqLoop hash text deref byAddress false S done st) :
    UniqLoop hash text deref byAddress false S (done ++ [p])
      (uniqStep hash text deref byAddress false st p) := by
  have hfind := h.find _ hp
  have hout : st.2 = firsts (sameKey hash text deref byAddress) done := h.out
  have hconcat : firsts (sameKey hash text deref byAddress) (done ++ [p]) = _ := firsts_concat p
  have hlater : ∀ key, (done ++ [p]).find? (fun q => (entKey (deref q) byAddress).eq hash text key) =
      (done.find? fun q => (entKey (deref q) byAddress).eq hash text key).or
        (if (entKey (deref p) byAddress).eq hash text key = true then some p else none) := by
    intro key
    rw [List.find?_append, List.find?_singleton]
  -- a profile found under a key equal to that of `p` has a key equal to it too
  have hequal : ∀ key, (entKey (deref p) byAddress).eq hash text key = true →
      (done.find? fun q => (entKey (deref q) byAddress).eq hash text key) =
        done.find? fun q => sameKey hash text deref byAddress q p := by
    intro key heq
    congr 1
    funext q
    rw [Bool.eq_iff_iff, sameKey, ProfileFilterKey.eq_iff, ProfileFilterKey.eq_iff,
      ProfileFilterKey.eq_iff.mp heq]
  unfold uniqStep
  dsimp only
  rw [hfind]
  cases hres : done.find? fun q => sameKey hash text deref byAddress q p with
  | none =>
    have hany : ¬ (done.any fun q => sameKey hash text deref byAddress q p) = true := by
      simpa using List.find?_eq_none.mp hres
    rw [if_neg hany, ← hout] at hconcat
    have hres' := hres
    unfold sameKey at hres'
    rw [if_neg Bool.false_ne_true, hres']
    refine ⟨h.keys_assign hp, fun key hkey => ?_, hconcat.symm⟩
    rw [if_neg Bool.false_ne_true, hlater, h.find_assign hS hp hkey, if_neg Bool.false_ne_true]
    by_cases heq : (entKey (deref p) byAddress).eq hash text key = true
    · rw [if_pos heq, if_pos heq, hequal key heq, hres, Option.none_or]
    · rw [if_neg heq, if_neg heq, Option.or_none]
  | some found =>
    have hany : (done.any fun q => sameKey hash text deref byAddress q p) = true :=
      List.any_eq_true.mpr ⟨found, List.mem_of_find?_eq_some hres, by simpa using List.find?_some hres⟩
    rw [if_pos hany, ← hout] at hconcat
    have hres' := hres
    unfold sameKey at hres'
    rw [if_neg Bool.false_ne_true, hres']
    refine ⟨h.keys, fun key hkey => ?_, hconcat.symm⟩
    show OrderedMap.find _ key st.1 = _
    rw [if_neg Bool.false_ne_true, hlater, h.find key hkey, if_neg Bool.false_ne_true]
    by_cases heq : (entKey (deref p) byAddress).eq hash text key = true
    · rw [if_pos heq, hequal key heq, hres, Option.some_or]
    · rw [if_neg heq, Option.or_none]

theorem UniqLoop.step (hS : StrictWeakOn (fun a b => a.lt hash text b = true) S)
    (hp : entKey (deref p) byAddress ∈ S)
    (h : UniqLoop hash text deref byAddress keepLast S done st) :
    UniqLoop hash text deref byAddress keepLast S (done ++ [p])
      (uniqStep hash text deref byAddress keepLast st p) := by
  cases keepLast with
  | true => exact h.step_last hS hp
  | false => exact h.step_first hS hp

/-- The whole loop. -/
theorem uniqLoop_foldl (hS : StrictWeakOn (fun a b => a.lt hash text b = true) S) (more : List P)
    (hmore : ∀ p ∈ more, entKey (deref p) byAddress ∈ S)
    (h : UniqLoop hash text deref byAddress keepLast S done st) :
    UniqLoop hash text deref byAddress keepLast S (done ++ more)
      (more.foldl (uniqStep hash text deref byAddress keepLast) st) := by
  induction more generalizing done st with
  | nil => rwa [List.append_nil]
  | cons p more ih =>
    have hrun := ih (fun q hq => hmore q (List.mem_cons_of_mem _ hq))
      (h.step hS (hmore p List.mem_cons_self))
    rwa [List.append_assoc] at hrun

/-- **The loop leaves the first, or the last, of each class.** -/
theorem uniq_eq (hkeys : KeysOrdered hash deref byAddress list) :
    uniq hash text deref byAddress keepLast list =
      if keepLast then lasts (sameKey hash text deref byAddress) list
      else firsts (sameKey hash text deref byAddress) list :=
  (uniqLoop_foldl (strictWeakOn_keysOf.mpr hkeys) list (fun p hp => ⟨p, hp, rfl⟩) uniqLoop_nil).out

/-- **When `Uniq` does what it is for.** -/
theorem uniqCorrect_iff :
    (∀ out, UniqReturns hash text deref byAddress keepLast list out →
        UniqCorrect hash text deref byAddress keepLast list out) ↔
      KeysOrdered hash deref byAddress list ∧
        (byAddress = false → BeansAgree deref list) := by
  constructor
  · intro h
    have hordered : KeysOrdered hash deref byAddress list := by
      by_contra hnot
      obtain ⟨p, -⟩ := not_forall.mp hnot
      have hany := (h ((if keepLast then lasts (sameKey hash text deref byAddress) list
        else firsts (sameKey hash text deref byAddress) list) ++ [p])
          fun horder => absurd (strictWeakOn_keysOf.mp horder) hnot).classes
      exact absurd hany (by simp)
    refine ⟨hordered, ?_⟩
    rintro rfl p hp q hq hserver
    have hcorrect := h _ fun _ => rfl
    obtain ⟨p', hp', hpserver, hpbean⟩ := hcorrect.beans rfl p hp
    obtain ⟨q', hq', hqserver, hqbean⟩ := hcorrect.beans rfl q hq
    rw [hcorrect.classes] at hp' hq'
    have hsame : sameKey hash text deref false p' q' = true :=
      equates_sameKey.trans p' p q' (equates_sameKey.symm _ _ (sameKey_false.mpr hpserver))
        (equates_sameKey.trans p q q' (sameKey_false.mpr hserver) (sameKey_false.mpr hqserver))
    rw [hpbean, hqbean, representative_unique hp' hq' hsame]
  · rintro ⟨hordered, hbeans⟩ out hout
    have hclasses := (hout (strictWeakOn_keysOf.mpr hordered)).trans (uniq_eq hordered)
    refine ⟨hclasses, ?_⟩
    rintro rfl p hp
    obtain ⟨q, hq, hmem, hqp⟩ :=
      @exists_representative V P hash text deref false keepLast list p hp
    rw [hclasses]
    have hserver := sameKey_false.mp (equates_sameKey.symm _ _ hqp)
    exact ⟨q, hq, hserver, hbeans rfl p hp q hmem hserver⟩

end

end NekoBox.Profile
