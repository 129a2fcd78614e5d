import NekoBox.Qt.Text

/-!
# Case folding

`QChar::toCaseFolded` and the folding of RE2 are the simple case folding of Unicode. What is
said here of characters outside ASCII holds of its table: only the Kelvin sign and the long
s fold to letters of ASCII.
-/

namespace NekoBox.Qt

structure Folding where
  fold : Char → Char
  ascii : ∀ c, c.toNat < 128 → fold c = c.toLower
  foreign : ∀ c, 128 ≤ c.toNat → (fold c).toNat < 128 → fold c = 'k' ∨ fold c = 's'

/-- A character of ASCII is in small letters, or becomes a small letter. -/
theorem toLower_cases {c : Char} (hc : c.toNat < 128) :
    c.toLower = c ∨ c.isAlpha = true ∧ c.toLower.isAlpha = true := by
  have hall : ∀ n < 128, (Char.ofNat n).toLower = Char.ofNat n ∨
      (Char.ofNat n).isAlpha = true ∧ (Char.ofNat n).toLower.isAlpha = true := by
    decide +kernel
  have hn := hall c.toNat hc
  rw [Char.ofNat_toNat] at hn
  exact hn

namespace Folding

variable (F : Folding)

theorem fold_of_not_alpha {c : Char} (hc : c.toNat < 128) (halpha : c.isAlpha = false) :
    F.fold c = c := by
  rw [F.ascii c hc]
  rcases toLower_cases hc with heq | ⟨hletter, -⟩
  · exact heq
  · rw [halpha] at hletter
    cases hletter

/-- What is no letter is the only one of its fold. -/
theorem eq_of_fold_eq {c d : Char} (hc : c.toNat < 128) (halpha : c.isAlpha = false)
    (h : F.fold d = c) : d = c := by
  by_cases hd : d.toNat < 128
  · rw [F.ascii d hd] at h
    rcases toLower_cases hd with heq | ⟨-, hletter⟩
    · exact heq.symm.trans h
    · rw [h, halpha] at hletter
      cases hletter
  · rcases F.foreign d (by omega) (by rw [h]; exact hc) with hk | hs
    · rw [h] at hk
      subst hk
      cases halpha
    · rw [h] at hs
      subst hs
      cases halpha

/-- ASCII alone. -/
def basic : Folding where
  fold := Char.toLower
  ascii _ _ := rfl
  foreign c hc hfold := by
    have heq : c.toLower = c := by
      unfold Char.toLower
      refine dif_neg fun hupper => ?_
      have hle : c.toNat ≤ 90 := hupper.2
      omega
    rw [heq] at hfold
    omega

end Folding

end NekoBox.Qt
