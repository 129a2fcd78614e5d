import Mathlib

/-!
# A cache that forgets the least recently used entries

The entries of the cache are listed with the one used last in front. The cache grows to
`maxSize + elasticity` entries and is then pruned to `maxSize`. What an operation does to
the entry of a key is told by `List.lookup`:

* `lookup_tryGet`, `lookup_remove`: reading changes no entry, removing only its own;
* `lookup_insert`: an insertion leaves the other entries that are in `left`.
-/

namespace NekoBox.Lib.Lru

variable {κ ν : Type*} [DecidableEq κ]

/-- Remove the entry of a key. -/
def remove (k : κ) (c : List (κ × ν)) : List (κ × ν) := c.filter fun e => e.1 ≠ k

/-- Move the entry of a key, if there is one, to the front. -/
def tryGet (k : κ) (c : List (κ × ν)) : List (κ × ν) :=
  match c.lookup k with
  | none => c
  | some v => (k, v) :: remove k c

/-- Drop the entries behind the first `maxSize` when the cache is full. -/
def prune (maxSize elasticity : ℕ) (c : List (κ × ν)) : List (κ × ν) :=
  if maxSize = 0 ∨ c.length < maxSize + elasticity then c else c.take maxSize

/-- Put the entry of a key in front, pruning the cache if the key is new. -/
def insert (maxSize elasticity : ℕ) (k : κ) (v : ν) (c : List (κ × ν)) : List (κ × ν) :=
  match c.lookup k with
  | some _ => (k, v) :: remove k c
  | none => prune maxSize elasticity ((k, v) :: c)

/-- The entries that the insertion of a new key leaves. -/
def left (maxSize elasticity : ℕ) (c : List (κ × ν)) : List (κ × ν) :=
  if c.length + 1 < maxSize + elasticity then c else c.take (maxSize - 1)

variable {maxSize elasticity : ℕ} {k : κ} {v : ν} {c : List (κ × ν)}

theorem lookup_remove_self : (remove k c).lookup k = none := by
  rw [List.lookup_eq_none_iff]
  intro e he
  have hne : e.1 ≠ k := by simpa [remove] using (List.mem_filter.mp he).2
  simpa using hne.symm

theorem lookup_remove_of_ne {j : κ} (hj : j ≠ k) : (remove k c).lookup j = c.lookup j := by
  induction c with
  | nil => rfl
  | cons e c ih =>
    obtain ⟨i, w⟩ := e
    by_cases hi : i = k
    · subst hi
      have hdrop : remove i ((i, w) :: c) = remove i c := by simp [remove]
      rw [hdrop, ih, List.lookup_cons, beq_false_of_ne hj]
    · have hkeep : remove k ((i, w) :: c) = (i, w) :: remove k c := by simp [remove, hi]
      rw [hkeep, List.lookup_cons, List.lookup_cons, ih]

theorem lookup_remove (j : κ) :
    (remove k c).lookup j = if j = k then none else c.lookup j := by
  split_ifs with hj
  · rw [hj, lookup_remove_self]
  · exact lookup_remove_of_ne hj

/-- The entry that is put in front of the others. -/
theorem lookup_front (j : κ) :
    ((k, v) :: remove k c).lookup j = if j = k then some v else c.lookup j := by
  rw [List.lookup_cons]
  by_cases hj : j = k
  · rw [if_pos hj, hj, beq_self_eq_true]
  · rw [if_neg hj, beq_false_of_ne hj]
    exact lookup_remove_of_ne hj

@[simp] theorem lookup_tryGet (j : κ) : (tryGet k c).lookup j = c.lookup j := by
  unfold tryGet
  cases hk : c.lookup k with
  | none => rfl
  | some v =>
    show ((k, v) :: remove k c).lookup j = c.lookup j
    rw [lookup_front]
    split_ifs with hj
    · rw [hj, hk]
    · rfl

theorem lookup_take {n : ℕ} {j : κ} {w : ν} (h : (c.take n).lookup j = some w) :
    c.lookup j = some w := by
  induction c generalizing n with
  | nil => simp at h
  | cons e c ih =>
    cases n with
    | zero => simp at h
    | succ n =>
      rw [List.take_succ_cons, List.lookup_cons] at h
      rw [List.lookup_cons]
      cases hj : j == e.1 with
      | true => rwa [hj] at h
      | false =>
        rw [hj] at h
        exact ih h

theorem lookup_of_left {j : κ} {w : ν} (h : (left maxSize elasticity c).lookup j = some w) :
    c.lookup j = some w := by
  unfold left at h
  split_ifs at h
  · exact h
  · exact lookup_take h

/-- **Insertion of a new key.** -/
theorem lookup_insert (hmax : 0 < maxSize) (hk : c.lookup k = none) (j : κ) :
    (insert maxSize elasticity k v c).lookup j =
      if j = k then some v else (left maxSize elasticity c).lookup j := by
  have hinsert : insert maxSize elasticity k v c = (k, v) :: left maxSize elasticity c := by
    unfold insert
    rw [hk]
    show prune maxSize elasticity ((k, v) :: c) = (k, v) :: left maxSize elasticity c
    unfold prune left
    rw [List.length_cons]
    by_cases hsize : c.length + 1 < maxSize + elasticity
    · rw [if_pos (Or.inr hsize), if_pos hsize]
    · rw [if_neg (not_or.mpr ⟨hmax.ne', hsize⟩), if_neg hsize, ← List.take_succ_cons,
        Nat.sub_add_cancel hmax]
  rw [hinsert, List.lookup_cons]
  by_cases hj : j = k
  · rw [if_pos hj, hj, beq_self_eq_true]
  · rw [if_neg hj, beq_false_of_ne hj]

end NekoBox.Lib.Lru
