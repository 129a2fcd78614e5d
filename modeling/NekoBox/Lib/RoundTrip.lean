import Mathlib.Data.Set.Function

/-!
# Round trips

A writer, a reader that may refuse, and a relation by which a value and what is
read back are compared. `Survives` is the round trip of one value.
-/

namespace NekoBox.Lib.RoundTrip

variable {α β γ : Type*} (write : α → β) (read : β → Option α) (same : α → α → Prop)

/-- What was written is read, as a value that is the same. -/
def Survives (a : α) : Prop := ∃ a', read (write a) = some a' ∧ same a' a

variable {write read same} {a a' : α}

/-- The round trip of a value whose image is known. -/
theorem survives_iff (h : read (write a) = some a') : Survives write read same a ↔ same a' a := by
  constructor
  · rintro ⟨b, hb, hsame⟩
    rw [h] at hb
    rwa [Option.some.inj hb]
  · intro hsame
    exact ⟨a', h, hsame⟩

theorem not_survives_of_refused (h : read (write a) = none) : ¬ Survives write read same a := by
  rintro ⟨b, hb, -⟩
  rw [h] at hb
  exact Option.some_ne_none b hb.symm

/-- A value does not survive if a property that the same values share is lost. -/
theorem not_survives_of_lost (view : α → γ) (hview : ∀ b, same b a → view b = view a)
    (hlost : ∀ b, read (write a) = some b → view b ≠ view a) : ¬ Survives write read same a := by
  rintro ⟨b, hb, hsame⟩
  exact hlost b hb (hview b hsame)

end NekoBox.Lib.RoundTrip
