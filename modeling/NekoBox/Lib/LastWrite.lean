import Mathlib

/-!
# The last write

A list of values, each to be written under its key, in the order of the list. Under each
key the last one stays (`foldl_update`).
-/

namespace NekoBox.Lib

variable {α β κ : Type*} [DecidableEq κ] {key : α → κ} {l : List α} {k : κ} {a : α}

/-- The last member of the list with the key `k`. -/
def lastAt (key : α → κ) (l : List α) (k : κ) : Option α := l.reverse.find? fun a => key a = k

@[simp] theorem lastAt_nil : lastAt key [] k = none := rfl

theorem lastAt_concat : lastAt key (l ++ [a]) k = if key a = k then some a else lastAt key l k := by
  unfold lastAt
  rw [List.reverse_append, List.reverse_singleton, List.singleton_append, List.find?_cons]
  by_cases h : key a = k
  · rw [if_pos h, decide_eq_true h]
  · rw [if_neg h, decide_eq_false h]

theorem mem_of_lastAt (h : lastAt key l k = some a) : a ∈ l ∧ key a = k :=
  ⟨List.mem_reverse.mp (List.mem_of_find?_eq_some h), by simpa using List.find?_some h⟩

theorem lastAt_eq_none : lastAt key l k = none ↔ ∀ a ∈ l, key a ≠ k := by
  simp [lastAt]

theorem lastAt_congr {key' : α → κ} (h : ∀ a ∈ l, key a = key' a) :
    lastAt key l k = lastAt key' l k := by
  induction l using List.reverseRecOn with
  | nil => rfl
  | append_singleton l a ih =>
    rw [lastAt_concat, lastAt_concat, h a (by simp),
      ih fun b hb => h b (List.mem_append_left _ hb)]

/-- What is under a key after the writes. -/
theorem foldl_update (value : α → β) (m : κ → β) :
    (l.foldl (fun m a => Function.update m (key a) (value a)) m) k =
      ((lastAt key l k).map value).getD (m k) := by
  induction l using List.reverseRecOn with
  | nil => rfl
  | append_singleton l a ih =>
    rw [List.foldl_append, List.foldl_cons, List.foldl_nil, lastAt_concat, Function.update_apply]
    by_cases h : key a = k
    · rw [if_pos h, if_pos h.symm, Option.map_some, Option.getD_some]
    · rw [if_neg h, if_neg (Ne.symm h), ih]

end NekoBox.Lib
