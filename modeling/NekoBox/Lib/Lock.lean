import NekoBox.Lib.Machine

/-!
# Parts that share a lock

A lock that does not know who holds it: each part of a system takes it, for itself
or for the one that started it, and gives it back on its own account. The state
notes on whose account the lock is held, and whether it was ever given back while
nobody held it.

The rules reduce an invariant of the system to one of a part, which says what the
part is in while it holds the lock and while it does not:

* `Guarded.of_stepAt`, `Guarded.of_start`: what a part does keeps the invariant of all;
* `Guarded.moves`: no part waits for itself, so some part can go on.
-/

namespace NekoBox.Lib

/-- What a step does with the lock. -/
inductive LockOp where
  | keep
  | acquire
  | release

/-- Whether the lock is held on the account of a part after its step. -/
def LockOp.after : LockOp → Bool → Bool
  | .keep, held => held
  | .acquire, _ => true
  | .release, _ => false

/-- Parts with states `τ` and something `ε` that they share. -/
structure Locked (τ ε : Type*) where
  owner : Option ℕ
  misused : Bool
  shared : ε
  parts : List τ

namespace Locked

variable {τ ε ι : Type*}

/-- A lock that is held blocks who wants it; one that is free must not be given back. -/
def apply (s : Locked τ ε) (k : ℕ) : LockOp → Option (Locked τ ε)
  | .keep => some s
  | .acquire => if s.owner.isSome then none else some { s with owner := some k }
  | .release => some { s with owner := none, misused := s.misused || s.owner.isNone }

/-- Part `k` makes a step. -/
def stepAt (step : ε → τ → ι → Option (τ × LockOp × ε)) (s : Locked τ ε) (k : ℕ) (i : ι) :
    Option (Locked τ ε) :=
  (s.parts[k]?).bind fun p => (step s.shared p i).bind fun next =>
    { s with parts := s.parts.set k next.1, shared := next.2.2 }.apply k next.2.1

/-- A new part starts if the lock is free, and holds it. -/
def start (s : Locked τ ε) (p : τ) : Locked τ ε :=
  if s.owner.isSome then s
  else { s with owner := some s.parts.length, parts := s.parts ++ [p] }

/-- Each part is in what it must be in, and the lock has not been misused. -/
structure Guarded (Part : Bool → τ → Prop) (s : Locked τ ε) : Prop where
  proper : s.misused = false
  owned : ∀ k, s.owner = some k → k < s.parts.length
  parts : ∀ k p, s.parts[k]? = some p → Part (decide (s.owner = some k)) p

variable {step : ε → τ → ι → Option (τ × LockOp × ε)} {Part : Bool → τ → Prop}
  {s s' : Locked τ ε} {k : ℕ} {i : ι}

/-- What a step does, once the part and its next state are known. -/
theorem stepAt_eq_some : stepAt step s k i = some s' ↔
    ∃ p p' op shared, s.parts[k]? = some p ∧ step s.shared p i = some (p', op, shared) ∧
      { s with parts := s.parts.set k p', shared := shared }.apply k op = some s' := by
  unfold stepAt
  simp only [Option.bind_eq_some_iff, Prod.exists]
  constructor
  · rintro ⟨p, hp, p', op, shared, hstep, happly⟩
    exact ⟨p, p', op, shared, hp, hstep, happly⟩
  · rintro ⟨p, p', op, shared, hp, hstep, happly⟩
    exact ⟨p, hp, p', op, shared, hstep, happly⟩

/-- **The rule for a step.** -/
theorem Guarded.of_stepAt (h : Guarded Part s)
    (hpart : ∀ p p' op shared, s.parts[k]? = some p → step s.shared p i = some (p', op, shared) →
      ∀ held, (op = .acquire → held = false) → Part held p →
        (op = .release → held = true) ∧ Part (op.after held) p')
    (hstep : stepAt step s k i = some s') : Guarded Part s' := by
  obtain ⟨p, p', op, shared, hp, hlocal, happly⟩ := stepAt_eq_some.mp hstep
  obtain ⟨hproper, howned, hparts⟩ := h
  have hk : k < s.parts.length := (List.getElem?_eq_some_iff.mp hp).1
  -- of the other parts the account of the lock does not change
  have hset : ∀ j q, (s.parts.set k p')[j]? = some q →
      (j = k ∧ q = p') ∨ (j ≠ k ∧ s.parts[j]? = some q) := by
    intro j q hq
    by_cases hjk : j = k
    · subst hjk
      rw [List.getElem?_set_self hk] at hq
      exact .inl ⟨rfl, (Option.some.inj hq).symm⟩
    · rw [List.getElem?_set_ne (Ne.symm hjk)] at hq
      exact .inr ⟨hjk, hq⟩
  cases op with
  | keep =>
    obtain rfl := Option.some.inj happly
    refine ⟨hproper, fun j hj => ?_, fun j q hq => ?_⟩
    · rw [List.length_set]
      exact howned j hj
    · rcases hset j q hq with ⟨rfl, rfl⟩ | ⟨-, hq⟩
      · exact (hpart p q _ shared hp hlocal _ nofun (hparts j p hp)).2
      · exact hparts j q hq
  | acquire =>
    unfold Locked.apply at happly
    dsimp only at happly
    split_ifs at happly with hfree
    obtain rfl := Option.some.inj happly
    have hnone : s.owner = none := by simpa using hfree
    refine ⟨hproper, fun j hj => ?_, fun j q hq => ?_⟩
    · rw [List.length_set, ← Option.some.inj hj]
      exact hk
    · rcases hset j q hq with ⟨rfl, rfl⟩ | ⟨hjk, hq⟩
      · have hheld := hparts j p hp
        rw [hnone] at hheld
        simpa [LockOp.after] using (hpart p q _ shared hp hlocal _ (fun _ => rfl) hheld).2
      · have hother := hparts j q hq
        rw [hnone] at hother
        simpa [Ne.symm hjk] using hother
  | release =>
    obtain rfl := Option.some.inj happly
    obtain ⟨hheld, hreleased⟩ := hpart p p' _ shared hp hlocal _ nofun (hparts k p hp)
    have howner : s.owner = some k := of_decide_eq_true (hheld rfl)
    refine ⟨?_, nofun, fun j q hq => ?_⟩
    · show (s.misused || s.owner.isNone) = false
      rw [hproper, howner]
      rfl
    · rcases hset j q hq with ⟨rfl, rfl⟩ | ⟨hjk, hq⟩
      · exact hreleased
      · have hother := hparts j q hq
        rw [howner] at hother
        simpa [Ne.symm hjk] using hother

/-- The rule for a new part. -/
theorem Guarded.of_start (h : Guarded Part s) {p : τ} (hnew : Part true p) :
    Guarded Part (s.start p) := by
  unfold Locked.start
  split_ifs with hfree
  · exact h
  have hnone : s.owner = none := by simpa using hfree
  refine ⟨h.proper, fun j hj => ?_, fun j q hq => ?_⟩
  · rw [← Option.some.inj hj, List.length_append]
    exact Nat.lt_succ_self _
  · by_cases hj : j < s.parts.length
    · rw [List.getElem?_append_left hj] at hq
      have hother := h.parts j q hq
      rw [hnone] at hother
      simpa [hj.ne'] using hother
    · have hlast : j = s.parts.length := by
        have hlength := (List.getElem?_eq_some_iff.mp hq).1
        rw [List.length_append, List.length_singleton] at hlength
        omega
      subst hlast
      rw [List.getElem?_concat_length] at hq
      rw [← Option.some.inj hq]
      simpa using hnew

/-- What the parts share may change. -/
theorem Guarded.of_share (h : Guarded Part s) (shared : ε) :
    Guarded Part { s with shared := shared } :=
  ⟨h.proper, h.owned, h.parts⟩

/-- **The rule for progress.** A part that holds the lock does not wait for it, and one
    that does not hold it waits for nothing else. -/
theorem Guarded.moves (h : Guarded Part s) {Ended : τ → Prop}
    (hholds : ∀ p, Part true p → ∃ i p' op shared,
      step s.shared p i = some (p', op, shared) ∧ op ≠ .acquire)
    (hwaits : ∀ p, Part false p → ¬ Ended p → ∃ i p' op shared,
      step s.shared p i = some (p', op, shared))
    (hleft : ∃ p ∈ s.parts, ¬ Ended p) : ∃ k i, (stepAt step s k i).isSome = true := by
  cases howner : s.owner with
  | some k =>
    obtain ⟨p, hp⟩ : ∃ p, s.parts[k]? = some p :=
      ⟨_, List.getElem?_eq_getElem (h.owned k howner)⟩
    have hpart := h.parts k p hp
    rw [howner, decide_eq_true rfl] at hpart
    obtain ⟨i, p', op, shared, hlocal, hop⟩ := hholds p hpart
    refine ⟨k, i, ?_⟩
    rw [Locked.stepAt, hp, Option.bind_some, hlocal, Option.bind_some]
    cases op with
    | acquire => exact absurd rfl hop
    | keep => rfl
    | release => rfl
  | none =>
    obtain ⟨p, hmem, hunfinished⟩ := hleft
    obtain ⟨k, hp⟩ := List.mem_iff_getElem?.mp hmem
    have hpart := h.parts k p hp
    rw [howner, decide_eq_false nofun] at hpart
    obtain ⟨i, p', op, shared, hlocal⟩ := hwaits p hpart hunfinished
    refine ⟨k, i, ?_⟩
    rw [Locked.stepAt, hp, Option.bind_some, hlocal, Option.bind_some]
    cases op with
    | acquire =>
      unfold Locked.apply
      rw [howner]
      rfl
    | keep => rfl
    | release => rfl

/-- Once all parts have ended, the lock is free. -/
theorem Guarded.free (h : Guarded Part s) {Ended : τ → Prop}
    (hended : ∀ held p, Part held p → Ended p → held = false) (hall : ∀ p ∈ s.parts, Ended p) :
    s.owner = none := by
  cases howner : s.owner with
  | none => rfl
  | some k =>
    have hk := h.owned k howner
    have hpart := h.parts k _ (List.getElem?_eq_getElem hk)
    have hheld := hended _ _ hpart (hall _ (List.getElem_mem hk))
    rw [howner, decide_eq_true rfl] at hheld
    cases hheld

end Locked

end NekoBox.Lib
