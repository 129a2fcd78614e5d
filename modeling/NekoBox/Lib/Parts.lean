import Mathlib

/-!
# Texts made of parts

A text `a ++ sep :: b` is taken apart at the last separator when `b` has none
(`lastPart_append`), and at the first when `a` has none (`firstPart_append`). The
decimal digits of a number have no other characters (`digits_of_mem_repr`), so a
number between separators can be read back.
-/

namespace NekoBox.Lib.Parts

/-- What follows the last separator. -/
def lastPart (sep : Char) (s : List Char) : List Char := (s.reverse.takeWhile (· ≠ sep)).reverse

/-- What precedes the first separator. -/
def firstPart (sep : Char) (s : List Char) : List Char := s.takeWhile (· ≠ sep)

variable {sep : Char} {a b : List Char}

theorem firstPart_append_left (h : sep ∉ a) (b : List Char) :
    firstPart sep (a ++ b) = a ++ firstPart sep b := by
  unfold firstPart
  apply List.takeWhile_append_of_pos
  intro c hc
  have hne : c ≠ sep := fun heq => h (heq ▸ hc)
  simpa using hne

theorem firstPart_append (h : sep ∉ a) : firstPart sep (a ++ sep :: b) = a := by
  rw [firstPart_append_left h]
  simp [firstPart]

theorem firstPart_self (h : sep ∉ a) : firstPart sep a = a := by
  have hnil := firstPart_append_left h []
  rwa [List.append_nil, show firstPart sep [] = [] from rfl, List.append_nil] at hnil

theorem lastPart_append (h : sep ∉ b) : lastPart sep (a ++ sep :: b) = b := by
  have hreverse : (a ++ sep :: b).reverse = b.reverse ++ sep :: a.reverse := by simp
  have hfirst : firstPart sep (b.reverse ++ sep :: a.reverse) = b.reverse :=
    firstPart_append fun hmem => h (List.mem_reverse.mp hmem)
  show (firstPart sep (a ++ sep :: b).reverse).reverse = b
  rw [hreverse, hfirst, List.reverse_reverse]

theorem lastPart_self (h : sep ∉ a) : lastPart sep a = a := by
  have hfirst : firstPart sep a.reverse = a.reverse :=
    firstPart_self fun hmem => h (List.mem_reverse.mp hmem)
  show (firstPart sep a.reverse).reverse = a
  rw [hfirst, List.reverse_reverse]

/-- The decimal text of a natural number. -/
theorem digits_of_mem_repr {n : ℕ} {c : Char} (h : c ∈ n.repr.toList) : c.isDigit := by
  rw [Nat.toList_repr] at h
  exact Nat.isDigit_of_mem_toDigits (by decide) (by decide) h

theorem not_mem_repr (n : ℕ) {c : Char} (h : c.isDigit = false) : c ∉ n.repr.toList := by
  intro hc
  rw [digits_of_mem_repr hc] at h
  cases h

/-- A word that holds no digit is not a number. -/
theorem repr_ne {n : ℕ} {word : List Char} (h : ∀ c ∈ word, c.isDigit = false) :
    n.repr.toList ≠ word := by
  intro heq
  rw [Nat.toList_repr] at heq
  obtain ⟨c, hc⟩ := List.exists_mem_of_ne_nil _ (Nat.toDigits_ne_nil (n := n) (b := 10))
  have hdigit : c.isDigit := Nat.isDigit_of_mem_toDigits (by decide) (by decide) hc
  rw [heq] at hc
  rw [h c hc] at hdigit
  cases hdigit

/-- No part of a text that is split has the separator. -/
theorem not_mem_of_mem_splitOn {c : Char} :
    ∀ {xs l : List Char}, l ∈ xs.splitOn c → c ∉ l := by
  intro xs
  induction xs with
  | nil => simp [List.splitOn_eq_splitOnP]
  | cons x xs ih =>
    intro l hl
    rw [List.splitOn_eq_splitOnP] at hl ih
    rw [List.splitOnP_cons_eq_if_modifyHead] at hl
    split_ifs at hl with hx
    · rcases List.mem_cons.mp hl with rfl | hl
      · simp
      · exact ih hl
    · obtain ⟨y, ys, hys⟩ := List.exists_cons_of_ne_nil (List.splitOnP_ne_nil (· == c) xs)
      rw [hys, List.modifyHead_cons] at hl
      rw [hys] at ih
      rcases List.mem_cons.mp hl with rfl | hl
      · have hy := ih List.mem_cons_self
        have hne : c ≠ x := fun h => hx (by simp [h])
        simp [hne, hy]
      · exact ih (List.mem_cons_of_mem _ hl)

end NekoBox.Lib.Parts
