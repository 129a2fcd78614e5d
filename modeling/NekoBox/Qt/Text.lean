import Mathlib

/-!
# Numbers and blanks in `QString`

The few `QString` functions the stores and the database use on texts:
`QString::number`, `QString::toInt`, `QString::trimmed` (only through
`trimmed().isEmpty()`). A `QString` is a Lean `String`.

* `toInt_number`: `toInt` reads back what `number` prints, for every `int`;
* `number_injective`.
-/

namespace NekoBox.Qt

/-- A 32-bit C++ `int`. -/
def IsInt32 (n : ℤ) : Prop := -2 ^ 31 ≤ n ∧ n < 2 ^ 31

instance (n : ℤ) : Decidable (IsInt32 n) := inferInstanceAs (Decidable (_ ∧ _))

/-- `QChar::isSpace`: the separator categories and U+0009–U+000D, U+0085. -/
def isSpace (c : Char) : Bool :=
  let u := c.toNat
  (9 ≤ u && u ≤ 13) || u == 0x20 || u == 0x85 || u == 0xA0 || u == 0x1680 ||
    (0x2000 ≤ u && u ≤ 0x200A) || u == 0x2028 || u == 0x2029 || u == 0x202F || u == 0x205F ||
    u == 0x3000

/-- `QString::trimmed`. -/
def trimmed (s : List Char) : List Char := ((s.dropWhile isSpace).reverse.dropWhile isSpace).reverse

/-- `s.trimmed().isEmpty()`. -/
def isBlank (s : String) : Bool := s.toList.all isSpace

/-- `QString::number(int)`. -/
def number (n : ℤ) : List Char :=
  if n < 0 then '-' :: Nat.toDigits 10 n.natAbs else Nat.toDigits 10 n.natAbs

/-- The digits of `toInt`: at least one, decimal. -/
def digits (s : List Char) : Option ℕ :=
  if s ≠ [] ∧ s.all Char.isDigit then some (Nat.ofDigitChars 10 s 0) else none

/-- `QString::toInt(&ok)`: blanks around the number are ignored, the number
    may have a sign and must fit in an `int`. -/
def toInt (s : List Char) : Option ℤ :=
  let value : Option ℤ := match trimmed s with
    | '-' :: cs => (digits cs).map fun n => -(n : ℤ)
    | '+' :: cs => (digits cs).map fun n => (n : ℤ)
    | cs => (digits cs).map fun n => (n : ℤ)
  value.filter fun n => decide (IsInt32 n)

/-! ## `toInt` reads back `number` -/

theorem isDigit_toDigits {n : ℕ} {c : Char} (hc : c ∈ Nat.toDigits 10 n) : c.isDigit = true :=
  Nat.isDigit_of_mem_toDigits (by decide) (by decide) hc

theorem digits_toDigits (n : ℕ) : digits (Nat.toDigits 10 n) = some n := by
  have hall : (Nat.toDigits 10 n).all Char.isDigit = true :=
    List.all_eq_true.mpr fun c hc => isDigit_toDigits hc
  simp [digits, hall, Nat.toDigits_ne_nil]

theorem isSpace_eq_false_of_isDigit {c : Char} (h : c.isDigit = true) : isSpace c = false := by
  simp only [Char.isDigit, Bool.and_eq_true, decide_eq_true_eq, ge_iff_le,
    UInt32.le_iff_toNat_le] at h
  have h1 : 48 ≤ c.toNat := h.1
  have h2 : c.toNat ≤ 57 := h.2
  simp [isSpace]
  omega

theorem trimmed_of_no_space {s : List Char} (h : ∀ c ∈ s, isSpace c = false) : trimmed s = s := by
  have hid : ∀ l : List Char, (∀ c ∈ l, isSpace c = false) → l.dropWhile isSpace = l := by
    intro l hl
    cases l with
    | nil => rfl
    | cons c cs => simp [List.dropWhile, hl c (by simp)]
  rw [trimmed, hid s h, hid s.reverse (fun c hc => h c (by simpa using hc)), List.reverse_reverse]

theorem trimmed_trimmed (s : List Char) : trimmed (trimmed s) = trimmed s := by
  have hfirst : (trimmed s).dropWhile isSpace = trimmed s := by
    rw [List.dropWhile_eq_self_iff]
    intro hpos hspace
    obtain ⟨rest, hrest⟩ : trimmed s <+: s.dropWhile isSpace :=
      List.rdropWhile_prefix isSpace (s.dropWhile isSpace)
    have hidem := List.dropWhile_eq_self_iff.mp (List.dropWhile_idempotent (p := isSpace) (l := s))
    have hlength : 0 < (s.dropWhile isSpace).length := by
      rw [← hrest, List.length_append]
      omega
    refine hidem hlength ?_
    simp only [← hrest, List.getElem_append_left hpos]
    exact hspace
  show List.rdropWhile isSpace ((trimmed s).dropWhile isSpace) = _
  rw [hfirst]
  exact List.rdropWhile_idempotent isSpace (s.dropWhile isSpace)

theorem number_no_space (n : ℤ) : ∀ c ∈ number n, isSpace c = false := by
  intro c hc
  unfold number at hc
  split_ifs at hc
  · rcases List.mem_cons.mp hc with rfl | hc
    · decide
    · exact isSpace_eq_false_of_isDigit (isDigit_toDigits hc)
  · exact isSpace_eq_false_of_isDigit (isDigit_toDigits hc)

/-- `QString::number` followed by `QString::toInt` is the identity. -/
theorem toInt_number {n : ℤ} (hn : IsInt32 n) : toInt (number n) = some n := by
  unfold toInt
  rw [trimmed_of_no_space (number_no_space n)]
  unfold number
  by_cases h : n < 0
  · simp [h, digits_toDigits, abs_of_neg h, hn]
  · have hne : Nat.toDigits 10 n.natAbs ≠ [] := Nat.toDigits_ne_nil
    have hnat : (n.natAbs : ℤ) = n := by omega
    rw [if_neg h]
    split
    · next cs hcs =>
      have := isDigit_toDigits (n := n.natAbs) (c := '-') (by rw [hcs]; simp)
      exact absurd this (by decide)
    · next cs hcs =>
      have := isDigit_toDigits (n := n.natAbs) (c := '+') (by rw [hcs]; simp)
      exact absurd this (by decide)
    · simp [digits_toDigits, hnat, hn]

theorem number_injective {m n : ℤ} (hm : IsInt32 m) (hn : IsInt32 n) (h : number m = number n) :
    m = n := by
  have := toInt_number hm
  rw [h, toInt_number hn] at this
  exact (Option.some.inj this).symm

example : toInt " -12 ".toList = some (-12) := by decide

end NekoBox.Qt
