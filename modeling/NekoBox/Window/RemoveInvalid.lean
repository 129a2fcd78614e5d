import NekoBox.Config.Verdict
import NekoBox.Lib.Progress
import NekoBox.Lib.Workers

/-!
# Removal of invalid profiles

`on_menu_remove_invalid_triggered` (`mainwindow.cpp`, lines 4268–4329) and the same step
after a subscription update (lines 678–717) check the profiles of a group on a thread pool.
The job locks a mutex, starts a task for each profile and locks the mutex again; the task
that counts the last one unlocks it. A task adds the identifier of a profile that is not
valid to a list under another mutex.

* `Inv.of_step`: what each step of the job and its tasks keeps;
* `completes_iff`: the job ends, in every order of steps, exactly when it has a task and
  `IsValid` returns in each;
* `removesInvalid_iff`: it ends and offers the profiles that the core refuses, and no others,
  exactly when it has a task, each check ends and the core answers every call.
-/

namespace NekoBox.Window

open NekoBox.Lib NekoBox.Config

namespace RemoveInvalid

/-! ## The code -/

/-- Where a task is. -/
inductive Phase where
  | queued
  /-- In `IsValid`. -/
  | running
  /-- Before `access.lock()`. -/
  | waiting
  /-- Before `out_del += profileid`. -/
  | holding
  /-- Before `access.unlock()`. -/
  | appended
  /-- Before `++counter`. -/
  | counting
  | finished
  deriving DecidableEq

/-- The task has a thread of the pool. -/
def Phase.isRunning (p : Phase) : Bool := p ≠ .queued ∧ p ≠ .finished

/-- It has locked `access`. -/
def Phase.isAdding (p : Phase) : Bool := p = .holding ∨ p = .appended

structure State where
  /-- The tasks that are started. -/
  tasks : List Phase
  access : Bool
  mu : Bool
  counter : ℕ
  /-- `out_del`, by the numbers of the tasks. -/
  outDel : List ℕ
  /-- The job has locked `mu` a second time. -/
  done : Bool

/-- `mu.lock()`, and no task. -/
def init : State := ⟨[], false, true, 0, [], false⟩

inductive Action where
  /-- The job starts the next task. -/
  | start
  /-- `IsValid` returns in a task. -/
  | check (k fuel : ℕ)
  /-- A task goes on. -/
  | step (k : ℕ)
  /-- `mu.lock()` of the job succeeds. -/
  | pass

section

variable (size : ℕ) (verdict : ℕ → ℕ → Option Bool) (threads : ℕ+)

/-- A task, outside `IsValid`. -/
def stepTask (s : State) (k : ℕ) : Option State :=
  match s.tasks[k]? with
  | some .queued =>
    if s.tasks.countP Phase.isRunning < threads then
      some { s with tasks := s.tasks.set k .running }
    else none
  | some .waiting =>
    if s.access then none
    else some { s with tasks := s.tasks.set k .holding, access := true }
  | some .holding => some { s with tasks := s.tasks.set k .appended, outDel := s.outDel ++ [k] }
  | some .appended => some { s with tasks := s.tasks.set k .counting, access := false }
  | some .counting =>
    some { s with
      tasks := s.tasks.set k .finished
      counter := s.counter + 1
      mu := if s.counter + 1 = size then false else s.mu }
  | _ => none

def step (s : State) : Action → Option State
  | .start =>
    if s.tasks.length < size then some { s with tasks := s.tasks ++ [.queued] } else none
  | .check k fuel =>
    if s.tasks[k]? = some .running then
      (verdict k fuel).map fun valid =>
        { s with tasks := s.tasks.set k (if valid then .counting else .waiting) }
    else none
  | .step k => stepTask size threads s k
  | .pass =>
    if s.tasks.length = size ∧ s.mu = false ∧ s.done = false then some { s with done := true }
    else none

def machine : Machine State Action := ⟨step size verdict threads⟩

end

/-! ## What a step keeps -/

section

variable {size : ℕ} {verdict : ℕ → ℕ → Option Bool} {threads : ℕ+}

/-- What `IsValid` answers in a task. -/
def Verdict (verdict : ℕ → ℕ → Option Bool) (k : ℕ) (v : Bool) : Prop :=
  ∃ fuel, verdict k fuel = some v

/-- `IsValid` answers in one way. -/
def Single (verdict : ℕ → ℕ → Option Bool) : Prop :=
  ∀ k v v', Verdict verdict k v → Verdict verdict k v' → v = v'

/-- What is known of a task's verdict. -/
def Known (verdict : ℕ → ℕ → Option Bool) (k : ℕ) : Phase → Prop
  | .queued | .running => True
  | .waiting | .holding | .appended => Verdict verdict k false
  | .counting | .finished => ∃ v, Verdict verdict k v

/-- The task has added its identifier. -/
def Added (verdict : ℕ → ℕ → Option Bool) (k : ℕ) : Phase → Prop
  | .appended => True
  | .counting | .finished => Verdict verdict k false
  | _ => False

structure Inv (size : ℕ) (verdict : ℕ → ℕ → Option Bool) (s : State) : Prop where
  length : s.tasks.length ≤ size
  access : s.tasks.countP Phase.isAdding = s.access.toNat
  counter : s.tasks.countP (· = .finished) = s.counter
  mu : s.mu = false ↔ size ≠ 0 ∧ s.counter = size
  known : ∀ k p, s.tasks[k]? = some p → Known verdict k p
  nodup : s.outDel.Nodup
  outDel : ∀ k, k ∈ s.outDel ↔ ∃ p, s.tasks[k]? = some p ∧ Added verdict k p
  done : s.done = true → s.mu = false

theorem inv_init : Inv size verdict init where
  length := Nat.zero_le _
  access := rfl
  counter := rfl
  mu := iff_of_false (fun h => nomatch h) fun h => h.1 h.2.symm
  known := fun _ _ h => nomatch h
  nodup := List.nodup_nil
  outDel := fun _ => iff_of_false List.not_mem_nil fun ⟨_, h, _⟩ => nomatch h
  done := fun h => nomatch h

variable {s s' : State} {k : ℕ} {p p' : Phase}

theorem Inv.mem_self (h : Inv size verdict s) (hp : s.tasks[k]? = some p) :
    k ∈ s.outDel ↔ Added verdict k p := by
  rw [h.outDel]
  constructor
  · rintro ⟨q, hq, hadded⟩
    obtain rfl := Option.some.inj (hq.symm.trans hp)
    exact hadded
  · exact fun hadded => ⟨p, hp, hadded⟩

/-- A task goes from one phase to another. -/
theorem Inv.set (h : Inv size verdict s) (hp : s.tasks[k]? = some p)
    (htasks : s'.tasks = s.tasks.set k p')
    (haccess : p.isAdding.toNat + s'.access.toNat = p'.isAdding.toNat + s.access.toNat)
    (hcounter : s'.counter + (decide (p = .finished)).toNat =
      s.counter + (decide (p' = .finished)).toNat)
    (hmu : s'.mu = false ↔ size ≠ 0 ∧ s'.counter = size) (hknown : Known verdict k p')
    (hnodup : s'.outDel.Nodup)
    (hout : ∀ j, j ∈ s'.outDel ↔ if j = k then Added verdict k p' else j ∈ s.outDel)
    (hdone : s'.done = true → s'.mu = false) : Inv size verdict s' := by
  have hget : ∀ j, s'.tasks[j]? = if j = k then some p' else s.tasks[j]? := by
    intro j
    obtain ⟨hk, -⟩ := List.getElem?_eq_some_iff.mp hp
    rw [htasks]
    by_cases hj : j = k
    · rw [if_pos hj, hj, List.getElem?_set_self hk]
    · rw [if_neg hj, List.getElem?_set_ne (Ne.symm hj)]
  refine ⟨?_, ?_, ?_, hmu, fun j q hq => ?_, hnodup, fun j => ?_, hdone⟩
  · rw [htasks, List.length_set]
    exact h.length
  · have hcount := Workers.countP_set_add hp Phase.isAdding p'
    have hold := h.access
    rw [htasks]
    omega
  · have hcount := Workers.countP_set_add hp (· = .finished) p'
    have hold := h.counter
    rw [htasks]
    omega
  · rw [hget] at hq
    by_cases hj : j = k
    · rw [if_pos hj] at hq
      rw [← Option.some.inj hq, hj]
      exact hknown
    · rw [if_neg hj] at hq
      exact h.known j q hq
  · rw [hout, hget]
    by_cases hj : j = k
    · rw [if_pos hj, if_pos hj, hj]
      simp
    · rw [if_neg hj, if_neg hj]
      exact h.outDel j

/-- A step of a task that neither adds nor counts. -/
theorem Inv.move (h : Inv size verdict s) (hp : s.tasks[k]? = some p) {access : Bool}
    (haccess : p.isAdding.toNat + access.toNat = p'.isAdding.toNat + s.access.toNat)
    (hp' : p ≠ .finished ∧ p' ≠ .finished) (hknown : Known verdict k p')
    (hadded : Added verdict k p' ↔ Added verdict k p) :
    Inv size verdict { s with tasks := s.tasks.set k p', access } := by
  refine h.set hp rfl haccess ?_ h.mu hknown h.nodup (fun j => ?_) h.done
  · rw [decide_eq_false hp'.1, decide_eq_false hp'.2]
  · by_cases hj : j = k
    · rw [if_pos hj, hj, hadded]
      exact h.mem_self hp
    · rw [if_neg hj]

/-- A task that is not finished is not counted. -/
theorem Inv.counter_lt (h : Inv size verdict s) (hp : s.tasks[k]? = some p)
    (hunfinished : p ≠ .finished) : s.counter < size := by
  have hlt : s.tasks.countP (· = .finished) < s.tasks.length := by
    refine lt_of_le_of_ne List.countP_le_length fun hall => ?_
    have hfinished := List.countP_eq_length.mp hall p (List.mem_of_getElem? hp)
    exact hunfinished (of_decide_eq_true hfinished)
  have hcounter := h.counter
  have hlength := h.length
  omega

theorem Inv.of_stepTask (h : Inv size verdict s) (hstep : stepTask size threads s k = some s') :
    Inv size verdict s' := by
  unfold stepTask at hstep
  cases hp : s.tasks[k]? with
  | none =>
    rw [hp] at hstep
    exact nomatch hstep
  | some p =>
    have hknown := h.known k p hp
    rw [hp] at hstep
    cases p with
    | queued =>
      dsimp only at hstep
      split_ifs at hstep
      obtain rfl := Option.some.inj hstep
      exact h.move hp rfl ⟨by decide, by decide⟩ trivial Iff.rfl
    | running => exact nomatch hstep
    | waiting =>
      dsimp only at hstep
      split_ifs at hstep with hlocked
      obtain rfl := Option.some.inj hstep
      rw [Bool.not_eq_true] at hlocked
      exact h.move hp (by rw [hlocked]; rfl) ⟨by decide, by decide⟩ hknown Iff.rfl
    | holding =>
      obtain rfl := Option.some.inj hstep
      have hnew : k ∉ s.outDel := fun hk => (h.mem_self hp).mp hk
      refine h.set hp rfl rfl rfl h.mu hknown ?_ (fun j => ?_) h.done
      · exact List.nodup_append.mpr ⟨h.nodup, List.nodup_singleton k, fun a ha b hb heq =>
          hnew (List.mem_singleton.mp hb ▸ heq ▸ ha)⟩
      · show j ∈ s.outDel ++ [k] ↔ _
        rw [List.mem_append, List.mem_singleton]
        by_cases hj : j = k
        · rw [if_pos hj]
          exact iff_of_true (.inr hj) trivial
        · rw [if_neg hj]
          exact or_iff_left hj
    | appended =>
      obtain rfl := Option.some.inj hstep
      have hlocked : s.access = true := by
        have hone := Workers.one_le_countP hp (p := Phase.isAdding) rfl
        rw [h.access] at hone
        exact Bool.toNat_eq_one.mp (le_antisymm (Bool.toNat_le s.access) hone)
      exact h.move hp (by rw [hlocked]; rfl) ⟨by decide, by decide⟩ ⟨false, hknown⟩
        (iff_of_true hknown trivial)
    | counting =>
      obtain rfl := Option.some.inj hstep
      have hlt := h.counter_lt hp (by decide)
      have hlocked : s.mu = true := by
        rw [← Bool.not_eq_false, h.mu]
        exact fun hall => hlt.ne hall.2
      refine h.set hp rfl rfl rfl ?_ hknown h.nodup (fun j => ?_) fun hdone => ?_
      · show (if s.counter + 1 = size then false else s.mu) = false ↔ size ≠ 0 ∧ s.counter + 1 = size
        rw [hlocked]
        by_cases hlast : s.counter + 1 = size
        · rw [if_pos hlast]
          exact iff_of_true rfl ⟨by omega, hlast⟩
        · rw [if_neg hlast]
          exact iff_of_false (fun h => nomatch h) fun h => hlast h.2
      · by_cases hj : j = k
        · rw [if_pos hj, hj]
          exact (h.mem_self hp).trans Iff.rfl
        · rw [if_neg hj]
      · exact absurd (h.done hdone) (by rw [hlocked]; decide)
    | finished => exact nomatch hstep

/-- **Each step of the job and its tasks keeps the invariant.** -/
theorem Inv.of_step (hsingle : Single verdict) (h : Inv size verdict s) {a : Action}
    (hstep : step size verdict threads s a = some s') : Inv size verdict s' := by
  cases a with
  | start =>
    unfold step at hstep
    dsimp only at hstep
    split_ifs at hstep with hlt
    obtain rfl := Option.some.inj hstep
    have hget : ∀ (j : ℕ) (q : Phase), (s.tasks ++ [Phase.queued])[j]? = some q →
        s.tasks[j]? = some q ∨ q = Phase.queued := by
      intro j q hq
      rcases List.mem_append.mp (List.mem_of_getElem? hq) with hmem | hmem
      · by_cases hj : j < s.tasks.length
        · rw [List.getElem?_append_left hj] at hq
          exact .inl hq
        · rw [List.getElem?_append_right (not_lt.mp hj)] at hq
          exact .inr (List.mem_singleton.mp (List.mem_of_getElem? hq))
      · exact .inr (List.mem_singleton.mp hmem)
    refine ⟨?_, ?_, ?_, h.mu, fun j q hq => ?_, h.nodup, fun j => ?_, h.done⟩
    · rw [List.length_append, List.length_singleton]
      exact hlt
    · rw [List.countP_append]
      exact h.access
    · rw [List.countP_append]
      exact h.counter
    · rcases hget j q hq with hold | rfl
      · exact h.known j q hold
      · trivial
    · rw [h.outDel]
      constructor
      · rintro ⟨q, hq, hadded⟩
        obtain ⟨hj, -⟩ := List.getElem?_eq_some_iff.mp hq
        exact ⟨q, (List.getElem?_append_left hj).trans hq, hadded⟩
      · rintro ⟨q, hq, hadded⟩
        rcases hget j q hq with hold | rfl
        · exact ⟨q, hold, hadded⟩
        · exact hadded.elim
  | check k fuel =>
    unfold step at hstep
    dsimp only at hstep
    split_ifs at hstep with hp
    obtain ⟨v, hv, rfl⟩ := Option.map_eq_some_iff.mp hstep
    cases v with
    | false =>
      exact h.move hp rfl ⟨by decide, by decide⟩ ⟨fuel, hv⟩ Iff.rfl
    | true =>
      refine h.move hp rfl ⟨by decide, by decide⟩ ⟨true, fuel, hv⟩ ?_
      exact iff_of_false (fun hfalse => nomatch hsingle k false true hfalse ⟨fuel, hv⟩) id
  | step k => exact h.of_stepTask hstep
  | pass =>
    unfold step at hstep
    dsimp only at hstep
    split_ifs at hstep with hpass
    obtain rfl := Option.some.inj hstep
    exact ⟨h.length, h.access, h.counter, h.mu, h.known, h.nodup, h.outDel, fun _ => hpass.2.1⟩

theorem inv_of_reachable (hsingle : Single verdict)
    (h : (machine size verdict threads).Reachable init s) : Inv size verdict s :=
  Machine.reachable_invariant (Inv size verdict)
    (fun _ _ _ hinv hstep => hinv.of_step hsingle hstep) inv_init h

/-! ## The end of the job -/

/-- When the job has ended, every task is finished. -/
theorem Inv.finished (h : Inv size verdict s) (hdone : s.done = true) :
    s.tasks.length = size ∧ ∀ p ∈ s.tasks, p = .finished := by
  obtain ⟨-, hcounter⟩ := h.mu.mp (h.done hdone)
  have hcount := h.counter
  have hle : s.tasks.countP (· = .finished) ≤ s.tasks.length := List.countP_le_length
  have hlength := h.length
  have hall : s.tasks.countP (· = .finished) = s.tasks.length := by omega
  refine ⟨by omega, fun p hp => ?_⟩
  exact of_decide_eq_true (List.countP_eq_length.mp hall p hp)

theorem Inv.size_ne_zero (h : Inv size verdict s) (hdone : s.done = true) : size ≠ 0 :=
  (h.mu.mp (h.done hdone)).1

/-- Every `IsValid` has then returned. -/
theorem Inv.exists_verdict (h : Inv size verdict s) (hdone : s.done = true) (hk : k < size) :
    ∃ v, Verdict verdict k v := by
  obtain ⟨hlength, hall⟩ := h.finished hdone
  have hk' : k < s.tasks.length := hlength.symm ▸ hk
  have hget := List.getElem?_eq_getElem hk'
  have hknown := h.known k _ hget
  rw [hall _ (List.getElem_mem hk')] at hknown
  exact hknown

/-- The identifiers that are offered. -/
theorem Inv.mem_outDel_iff (h : Inv size verdict s) (hdone : s.done = true) :
    k ∈ s.outDel ↔ k < size ∧ Verdict verdict k false := by
  obtain ⟨hlength, hall⟩ := h.finished hdone
  rw [h.outDel]
  constructor
  · rintro ⟨p, hp, hadded⟩
    obtain ⟨hk, -⟩ := List.getElem?_eq_some_iff.mp hp
    rw [hall p (List.mem_of_getElem? hp)] at hadded
    exact ⟨hlength ▸ hk, hadded⟩
  · rintro ⟨hk, hfalse⟩
    have hk' : k < s.tasks.length := hlength.symm ▸ hk
    refine ⟨_, List.getElem?_eq_getElem hk', ?_⟩
    rw [hall _ (List.getElem_mem hk')]
    exact hfalse

/-- The steps a task has before it. -/
def Phase.rank : Phase → ℕ
  | .queued => 6
  | .running => 5
  | .waiting => 4
  | .holding => 3
  | .appended => 2
  | .counting => 1
  | .finished => 0

/-- What is left to do. -/
def left (size : ℕ) (s : State) : ℕ :=
  (s.tasks.map Phase.rank).sum + 7 * (size - s.tasks.length) + if s.done then 0 else 1

theorem left_set_lt {s s' : State} (hp : s.tasks[k]? = some p)
    (htasks : s'.tasks = s.tasks.set k p') (hdone : s'.done = s.done)
    (hrank : p'.rank < p.rank) : left size s' < left size s := by
  have hsum := Workers.sum_set_lt Phase.rank hp hrank
  unfold left
  rw [htasks, hdone, List.length_set]
  omega

theorem left_lt_of_stepTask (hstep : stepTask size threads s k = some s') :
    left size s' < left size s := by
  unfold stepTask at hstep
  cases hp : s.tasks[k]? with
  | none =>
    rw [hp] at hstep
    exact nomatch hstep
  | some p =>
    rw [hp] at hstep
    cases p with
    | queued =>
      dsimp only at hstep
      split_ifs at hstep
      obtain rfl := Option.some.inj hstep
      exact left_set_lt hp rfl rfl (by decide)
    | waiting =>
      dsimp only at hstep
      split_ifs at hstep
      obtain rfl := Option.some.inj hstep
      exact left_set_lt hp rfl rfl (by decide)
    | holding | appended | counting =>
      obtain rfl := Option.some.inj hstep
      exact left_set_lt hp rfl rfl (by decide)
    | running | finished => exact nomatch hstep

theorem left_lt_of_step {a : Action} (hstep : step size verdict threads s a = some s') :
    left size s' < left size s := by
  cases a with
  | start =>
    unfold step at hstep
    dsimp only at hstep
    split_ifs at hstep with hlt
    obtain rfl := Option.some.inj hstep
    unfold left
    have hrank : Phase.queued.rank = 6 := rfl
    simp only [List.map_append, List.map_singleton, List.sum_append, List.sum_singleton,
      List.length_append, List.length_singleton, hrank]
    omega
  | check k fuel =>
    unfold step at hstep
    dsimp only at hstep
    split_ifs at hstep with hp
    obtain ⟨v, -, rfl⟩ := Option.map_eq_some_iff.mp hstep
    cases v with
    | false => exact left_set_lt hp rfl rfl (by decide)
    | true => exact left_set_lt hp rfl rfl (by decide)
  | step k => exact left_lt_of_stepTask hstep
  | pass =>
    unfold step at hstep
    dsimp only at hstep
    split_ifs at hstep with hpass
    obtain rfl := Option.some.inj hstep
    unfold left
    dsimp only
    rw [if_pos rfl, if_neg (by rw [hpass.2.2]; exact Bool.false_ne_true)]
    omega

/-- The job or a task can go on. -/
theorem Inv.progress (h : Inv size verdict s) (hsize : size ≠ 0)
    (hreturns : ∀ k < size, ∃ v, Verdict verdict k v) (hdone : ¬ s.done = true) :
    ∃ a, True ∧ (step size verdict threads s a).isSome = true := by
  have hstepTask : ∀ k, (stepTask size threads s k).isSome = true →
      ∃ a, True ∧ (step size verdict threads s a).isSome = true := fun k hk => ⟨.step k, trivial, hk⟩
  by_cases hstarted : s.tasks.length < size
  · refine ⟨.start, trivial, ?_⟩
    show (if s.tasks.length < size then _ else none : Option State).isSome = true
    rw [if_pos hstarted]
    rfl
  have hlength : s.tasks.length = size := le_antisymm h.length (not_lt.mp hstarted)
  by_cases hrunning : ∃ (k : ℕ) (p : Phase), s.tasks[k]? = some p ∧ p.isRunning = true
  · obtain ⟨k, p, hp, hrun⟩ := hrunning
    have hk : k < size := by
      obtain ⟨hk, -⟩ := List.getElem?_eq_some_iff.mp hp
      exact hlength ▸ hk
    cases p with
    | queued => exact absurd hrun (by decide)
    | running =>
      obtain ⟨v, fuel, hv⟩ := hreturns k hk
      refine ⟨.check k fuel, trivial, ?_⟩
      show (if s.tasks[k]? = some Phase.running then _ else none : Option State).isSome = true
      rw [if_pos hp, Option.isSome_map, hv]
      rfl
    | waiting =>
      cases hlocked : s.access with
      | false => exact hstepTask k (by simp [stepTask, hp, hlocked])
      | true =>
        -- another task has locked `access`, and it can go on
        have hone : 1 ≤ s.tasks.countP Phase.isAdding := by
          rw [h.access, hlocked]
          exact le_refl 1
        obtain ⟨j, q, hq, hadding⟩ := Workers.exists_of_one_le_countP hone
        cases q with
        | holding | appended => exact hstepTask j (by simp [stepTask, hq])
        | queued | running | waiting | counting | finished => exact absurd hadding (by decide)
    | holding | appended | counting => exact hstepTask k (by simp [stepTask, hp])
    | finished => exact absurd hrun (by decide)
  · push Not at hrunning
    have hnone : s.tasks.countP Phase.isRunning = 0 := by
      refine List.countP_eq_zero.mpr fun p hp hrun => ?_
      obtain ⟨k, hk⟩ := List.mem_iff_getElem?.mp hp
      exact hrunning k p hk hrun
    by_cases hqueued : Phase.queued ∈ s.tasks
    · obtain ⟨k, hk⟩ := List.mem_iff_getElem?.mp hqueued
      exact hstepTask k (by simp [stepTask, hk, hnone])
    · have hall : s.tasks.countP (· = .finished) = s.tasks.length := by
        refine List.countP_eq_length.mpr fun p hp => ?_
        obtain ⟨k, hk⟩ := List.mem_iff_getElem?.mp hp
        have hrun := hrunning k p hk
        cases p with
        | finished => decide
        | queued => exact absurd hp hqueued
        | running | waiting | holding | appended | counting => exact absurd rfl hrun
      have hmu : s.mu = false := h.mu.mpr ⟨hsize, by rw [← h.counter, hall, hlength]⟩
      refine ⟨.pass, trivial, ?_⟩
      show (if s.tasks.length = size ∧ s.mu = false ∧ s.done = false then _
        else none : Option State).isSome = true
      rw [if_pos ⟨hlength, hmu, Bool.not_eq_true _ ▸ hdone⟩]
      rfl

/-- **The job ends, in every order of steps, when and only when it has a task and `IsValid`
    returns in each.** -/
theorem completes_iff (hsingle : Single verdict) :
    (machine size verdict threads).Completes (fun _ => True) (·.done = true) init ↔
      size ≠ 0 ∧ ∀ k < size, ∃ v, Verdict verdict k v := by
  constructor
  · intro h
    obtain ⟨t, ht, hdone⟩ := h.exists_finished
    have hinv := inv_of_reachable hsingle ht
    exact ⟨hinv.size_ne_zero hdone, fun k => hinv.exists_verdict hdone⟩
  · rintro ⟨hsize, hreturns⟩
    exact Machine.completes_of_measure (Inv size verdict) (left size)
      (fun _ _ _ hinv hstep => hinv.of_step hsingle hstep)
      (fun _ _ _ _ hstep => left_lt_of_step hstep)
      (fun _ hinv hdone => hinv.progress hsize hreturns hdone) inv_init

end

/-! ## The two jobs -/

/-- What a task is started with. -/
structure Task where
  profileid : ℤ
  profile : Option Profile
  /-- The identifier that it adds. -/
  offered : ℤ

/-- What the jobs go over. -/
inductive Job where
  /-- The menu, with the current group if there is one. -/
  | menu (currentGroup : Option (List ℤ))
  /-- The step after an update. -/
  | cleanUp (subRmInvalid : Bool) (profiles : List ℤ)

section

variable (E : Environment)

/-- The list after `DropNulls` (`Group.cpp`, lines 120–133). -/
def dropNulls (profiles : List ℤ) : List ℤ := profiles.filter fun id => (E.getProfile id).isSome

/-- The tasks of a job, none when it returns at once. The step after an update goes over the
    profiles of `FillProfileEnts`, and leaves large groups alone. -/
def Job.tasks : Job → Option (List Task)
  | .menu none => none
  | .menu (some profiles) =>
    some ((dropNulls E profiles).map fun id => ⟨id, E.getProfile id, id⟩)
  | .cleanUp subRmInvalid profiles =>
    if !subRmInvalid || profiles.length > 3000 then none
    else some (profiles.filterMap fun id =>
      (E.getProfile id).map fun profile => ⟨id, some profile, profile.id⟩)

variable (answer : ℕ → ℕ → JsonObject → Option String)

/-- `IsValid` in a task, with the answers to the calls of that task. -/
def verdict (work : List Task) (k fuel : ℕ) : Option Bool :=
  work[k]?.bind fun task =>
    match task.profile with
    | none => some false
    | some ent => (isValidFrom E (answer k) fuel ent 0).map Prod.fst

/-- A job with its tasks. -/
def job (threads : ℕ+) (work : List Task) : Machine State Action :=
  machine work.length (verdict E answer work) threads

/-- The identifier of a task. -/
def offeredId (work : List Task) (k : ℕ) : ℤ := (work[k]?.map Task.offered).getD 0

/-! ## The property -/

/-- A task whose profile exists and is refused: the core answers with an error for it, or for
    a member of the chain, or a member is missing. -/
def Refuses (work : List Task) (k : ℕ) : Prop :=
  ∃ task ent, work[k]? = some task ∧ E.getProfile task.profileid = some ent ∧
    Rejected E (answer k) task.profileid

open Classical in
/-- What a job should offer for deletion. -/
noncomputable def expected (work : List Task) : List ℤ :=
  ((List.range work.length).filter fun k => Refuses E answer work k).map (offeredId work)

/-- A job ends and offers the profiles that are refused, whatever the order of its steps. -/
structure RemovesInvalid (threads : ℕ+) (j : Job) : Prop where
  ends : ∀ work, j.tasks E = some work →
    (job E answer threads work).Completes (fun _ => True) (·.done = true) init
  exact : ∀ work, j.tasks E = some work → ∀ s, (job E answer threads work).Reachable init s →
    s.done = true → (s.outDel.map (offeredId work)).Perm (expected E answer work)

/-- There is a task, and in each the check ends and all calls are answered. -/
structure Checkable (j : Job) : Prop where
  nonempty : j.tasks E ≠ some []
  ends : ∀ work, j.tasks E = some work → ∀ k task, work[k]? = some task →
    Ends E (answer k) task.profileid
  answered : ∀ work, j.tasks E = some work → ∀ k task, work[k]? = some task →
    Answered E (answer k) task.profileid

end

section

variable {E : Environment} {answer : ℕ → ℕ → JsonObject → Option String} {threads : ℕ+} {j : Job}
  {work : List Task} {k : ℕ} {task : Task}

/-- The profiles of all tasks exist. -/
theorem exists_profile (hwork : j.tasks E = some work) (htask : work[k]? = some task) :
    ∃ ent, task.profile = some ent ∧ E.getProfile task.profileid = some ent := by
  have hmem := List.mem_of_getElem? htask
  cases j with
  | menu currentGroup =>
    cases currentGroup with
    | none => exact nomatch hwork
    | some profiles =>
      obtain rfl := Option.some.inj hwork
      obtain ⟨id, hid, rfl⟩ := List.mem_map.mp hmem
      obtain ⟨ent, hent⟩ := Option.isSome_iff_exists.mp (List.mem_filter.mp hid).2
      exact ⟨ent, hent, hent⟩
  | cleanUp subRmInvalid profiles =>
    unfold Job.tasks at hwork
    dsimp only at hwork
    split_ifs at hwork
    obtain rfl := Option.some.inj hwork
    obtain ⟨id, -, hid⟩ := List.mem_filterMap.mp hmem
    obtain ⟨ent, hent, rfl⟩ := Option.map_eq_some_iff.mp hid
    exact ⟨ent, rfl, hent⟩

/-- The verdict of a task is what `IsValid` answers. -/
theorem verdict_iff {ent : Profile} (htask : work[k]? = some task)
    (hprofile : task.profile = some ent) {v : Bool} :
    Verdict (verdict E answer work) k v ↔
      ∃ fuel calls, isValidFrom E (answer k) fuel ent 0 = some (v, calls) := by
  refine exists_congr fun fuel => ?_
  unfold verdict
  rw [htask, Option.bind_some, hprofile]
  dsimp only
  rw [Option.map_eq_some_iff]
  constructor
  · rintro ⟨⟨w, calls⟩, h, rfl⟩
    exact ⟨calls, h⟩
  · rintro ⟨calls, h⟩
    exact ⟨(v, calls), h, rfl⟩

theorem single_verdict (hwork : j.tasks E = some work) : Single (verdict E answer work) := by
  intro k v v' hv hv'
  cases htask : work[k]? with
  | none =>
    obtain ⟨fuel, h⟩ := hv
    unfold verdict at h
    rw [htask] at h
    exact nomatch h
  | some task =>
    obtain ⟨ent, hprofile, -⟩ := exists_profile hwork htask
    obtain ⟨fuel, calls, h⟩ := (verdict_iff htask hprofile).mp hv
    obtain ⟨fuel', calls', h'⟩ := (verdict_iff htask hprofile).mp hv'
    have hle := isValidFrom_le (le_max_left fuel fuel') h
    have hle' := isValidFrom_le (le_max_right fuel fuel') h'
    exact (Prod.mk.inj (Option.some.inj (hle.symm.trans hle'))).1

theorem exists_verdict_iff (hwork : j.tasks E = some work) (htask : work[k]? = some task) :
    (∃ v, Verdict (verdict E answer work) k v) ↔ Ends E (answer k) task.profileid := by
  obtain ⟨ent, hprofile, hrecord⟩ := exists_profile hwork htask
  rw [ends_iff hrecord]
  constructor
  · rintro ⟨v, hv⟩
    obtain ⟨fuel, calls, h⟩ := (verdict_iff htask hprofile).mp hv
    exact ⟨fuel, _, h⟩
  · rintro ⟨fuel, ⟨v, calls⟩, h⟩
    exact ⟨v, (verdict_iff htask hprofile).mpr ⟨fuel, calls, h⟩⟩

/-- What is refused is not valid; the converse is that the calls are answered. -/
theorem verdict_false_of_refuses (hwork : j.tasks E = some work)
    (h : Refuses E answer work k) (hv : ∃ v, Verdict (verdict E answer work) k v) :
    Verdict (verdict E answer work) k false := by
  obtain ⟨task, ent, htask, hrecord, hrejected⟩ := h
  obtain ⟨ent', hprofile, hrecord'⟩ := exists_profile hwork htask
  obtain ⟨v, hv⟩ := hv
  cases v with
  | false => exact hv
  | true =>
    obtain ⟨fuel, calls, h⟩ := (verdict_iff htask hprofile).mp hv
    exact absurd hrejected (isValidFrom_true hrecord' h).1

theorem refuses_iff_answered (hwork : j.tasks E = some work) (htask : work[k]? = some task)
    (hfalse : Verdict (verdict E answer work) k false) :
    Refuses E answer work k ↔ Answered E (answer k) task.profileid := by
  obtain ⟨ent, hprofile, hrecord⟩ := exists_profile hwork htask
  obtain ⟨fuel, calls, h⟩ := (verdict_iff htask hprofile).mp hfalse
  rw [← isValidFrom_false hrecord h]
  constructor
  · rintro ⟨task', -, htask', -, hrejected⟩
    obtain rfl := Option.some.inj (htask'.symm.trans htask)
    exact hrejected
  · exact fun hrejected => ⟨task, ent, htask, hrecord, hrejected⟩

theorem answered_of_verdict_true (hwork : j.tasks E = some work) (htask : work[k]? = some task)
    (htrue : Verdict (verdict E answer work) k true) : Answered E (answer k) task.profileid := by
  obtain ⟨ent, hprofile, hrecord⟩ := exists_profile hwork htask
  obtain ⟨fuel, calls, h⟩ := (verdict_iff htask hprofile).mp htrue
  exact (isValidFrom_true hrecord h).2

open Classical in
/-- The tasks that added their identifiers. -/
theorem outDel_perm (hwork : j.tasks E = some work) {s : State}
    (hs : (job E answer threads work).Reachable init s) (hdone : s.done = true) :
    s.outDel.Perm
      ((List.range work.length).filter fun k => Verdict (verdict E answer work) k false) := by
  have hinv := inv_of_reachable (single_verdict hwork) hs
  refine (List.perm_ext_iff_of_nodup hinv.nodup (List.nodup_range.filter _)).mpr fun k => ?_
  rw [hinv.mem_outDel_iff hdone, List.mem_filter, List.mem_range, decide_eq_true_iff]

theorem checkable_of_removesInvalid (h : RemovesInvalid E answer threads j) :
    Checkable E answer j := by
  have hall : ∀ work, j.tasks E = some work → work.length ≠ 0 ∧
      ∀ k < work.length, ∃ v, Verdict (verdict E answer work) k v := fun work hwork =>
    (completes_iff (single_verdict hwork)).mp (h.ends work hwork)
  refine ⟨fun hnil => (hall [] hnil).1 rfl, fun work hwork k task htask => ?_,
    fun work hwork k task htask => ?_⟩
  · obtain ⟨hk, -⟩ := List.getElem?_eq_some_iff.mp htask
    exact (exists_verdict_iff hwork htask).mp ((hall work hwork).2 k hk)
  · classical
    obtain ⟨hk, -⟩ := List.getElem?_eq_some_iff.mp htask
    obtain ⟨s, hs, hdone⟩ := (h.ends work hwork).exists_finished
    -- as many are offered as are refused, and the refused ones are among them
    have hperm := ((outDel_perm hwork hs hdone).map (offeredId work)).symm.trans
      (h.exact work hwork s hs hdone)
    have hlength := hperm.length_eq
    rw [expected, List.length_map, List.length_map] at hlength
    have hsub : ((List.range work.length).filter fun k => Refuses E answer work k).Sublist
        ((List.range work.length).filter fun k => Verdict (verdict E answer work) k false) := by
      have hboth : ((List.range work.length).filter fun k => Refuses E answer work k) =
          ((List.range work.length).filter fun k =>
            Verdict (verdict E answer work) k false).filter fun k => Refuses E answer work k := by
        rw [List.filter_filter]
        refine List.filter_congr fun k hk => ?_
        have hfalse := fun hrefuses => verdict_false_of_refuses hwork hrefuses
          ((hall work hwork).2 k (List.mem_range.mp hk))
        rw [← Bool.decide_and]
        exact decide_eq_decide.mpr ⟨fun hrefuses => ⟨hrefuses, hfalse hrefuses⟩, And.left⟩
      rw [hboth]
      exact List.filter_sublist
    have heq := hsub.eq_of_length hlength.symm
    obtain ⟨v, hv⟩ := (hall work hwork).2 k hk
    cases v with
    | true => exact answered_of_verdict_true hwork htask hv
    | false =>
      refine (refuses_iff_answered hwork htask hv).mp ?_
      have hmem : k ∈ (List.range work.length).filter fun k =>
          Verdict (verdict E answer work) k false :=
        List.mem_filter.mpr ⟨List.mem_range.mpr hk, decide_eq_true hv⟩
      rw [← heq] at hmem
      exact of_decide_eq_true (List.mem_filter.mp hmem).2

/-- **The jobs end and offer what the core refuses exactly when there is something to check,
    each check has an end and the core answers every call.** -/
theorem removesInvalid_iff (E : Environment) (answer : ℕ → ℕ → JsonObject → Option String)
    (threads : ℕ+) (j : Job) : RemovesInvalid E answer threads j ↔ Checkable E answer j := by
  refine ⟨checkable_of_removesInvalid,
    fun h => ⟨fun work hwork => ?_, fun work hwork s hs hdone => ?_⟩⟩
  · refine (completes_iff (single_verdict hwork)).mpr ⟨?_, fun k hk => ?_⟩
    · intro hzero
      rw [List.length_eq_zero_iff.mp hzero] at hwork
      exact h.nonempty hwork
    · have htask := List.getElem?_eq_getElem hk
      exact (exists_verdict_iff hwork htask).mpr (h.ends work hwork k _ htask)
  · classical
    refine ((outDel_perm hwork hs hdone).map (offeredId work)).trans (.of_eq ?_)
    unfold expected
    congr 1
    refine List.filter_congr fun k hk => decide_eq_decide.mpr ?_
    have hk' := List.mem_range.mp hk
    have htask := List.getElem?_eq_getElem hk'
    constructor
    · exact fun hfalse =>
        (refuses_iff_answered hwork htask hfalse).mpr (h.answered work hwork k _ htask)
    · intro hrefuses
      refine verdict_false_of_refuses hwork hrefuses ?_
      exact (exists_verdict_iff hwork htask).mpr (h.ends work hwork k _ htask)

/-- A profile of a server. -/
def server : Profile := { selfChain with type := "socks", list := [] }

/-- The database that holds it. -/
def serverEnvironment : Environment :=
  { selfChainEnvironment with getProfile := fun id => if id = 1 then some server else none }

/-- A server is offered for deletion when the core cannot be contacted, and the job does not
    end for an empty group. -/
theorem unreachable_core_offers_all :
    (¬ ∀ (E : Environment) (answer : ℕ → ℕ → JsonObject → Option String) (threads : ℕ+) (j : Job),
      RemovesInvalid E answer threads j) ∧
    ¬ RemovesInvalid serverEnvironment (fun _ _ _ => none) 1 (.menu (some [1])) ∧
    ¬ RemovesInvalid serverEnvironment (fun _ _ _ => some "") 1 (.menu (some [])) := by
  have hserver : ¬ RemovesInvalid serverEnvironment (fun _ _ _ => none) 1 (.menu (some [1])) := by
    intro h
    have hanswered := (checkable_of_removesInvalid h).answered _ rfl 0 ⟨1, some server, 1⟩ rfl
    exact hanswered _ .refl ⟨rfl, by decide, rfl⟩
  refine ⟨fun h => hserver (h _ _ _ _), hserver, fun h => ?_⟩
  exact (checkable_of_removesInvalid h).nonempty rfl

end

end RemoveInvalid

end NekoBox.Window
