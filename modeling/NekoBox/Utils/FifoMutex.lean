import NekoBox.Lib.Machine

/-!
# A mutex that is given out in turn

`FifoMutex` (`Utils.cpp`, lines 184–203, and `Utils.hpp`, lines 264–284). A step is
what a thread does while it holds the inner `std::mutex`: to enter `lock` and test
the predicate, to test it again after `wait` has returned, or to unlock. The node of
a thread on the queue is the thread.

* `Inv`: who is on the queue waits, and the front one has been woken up if the mutex
  is free;
* `fifo`: so the mutex is held by one thread at most, is given out in the order in
  which `lock` was entered, and is never free while the front one sleeps.
-/

namespace NekoBox.Utils.FifoMutex

open NekoBox.Lib

/-- Where a thread is. -/
inductive Phase where
  | outside
  /-- in `wait`, asleep -/
  | sleeping
  /-- in `wait`, woken up, and about to test the predicate again -/
  | awake
  | holding
  deriving DecidableEq

variable {T : Type*}

/-- The members of the mutex and the threads, and in which order these have entered
    `lock` and left it. -/
structure State (T : Type*) where
  queue : List T := []
  locked : Bool := false
  phase : T → Phase := fun _ => .outside
  entered : List T := []
  acquired : List T := []

inductive Action (T : Type*) where
  /-- enter `lock` -/
  | lock (t : T)
  /-- a spurious wake-up -/
  | wake (t : T)
  /-- go on in `wait` -/
  | resume (t : T)
  | unlock (t : T)

/-- The predicate of `wait`: go on with the mutex, or sleep. -/
def test [DecidableEq T] (s : State T) (t : T) : State T :=
  if s.queue.head? = some t ∧ s.locked = false then
    { s with
      queue := s.queue.tail
      locked := true
      phase := Function.update s.phase t .holding
      acquired := s.acquired ++ [t] }
  else { s with phase := Function.update s.phase t .sleeping }

/-- `notify_all` -/
def notifyAll (phase : T → Phase) : T → Phase :=
  fun t => if phase t = .sleeping then .awake else phase t

/-- A step of a thread that is where it can take it. -/
def step [DecidableEq T] (s : State T) : Action T → Option (State T)
  | .lock t =>
    if s.phase t = .outside then
      some (test { s with queue := s.queue ++ [t], entered := s.entered ++ [t] } t)
    else none
  | .wake t =>
    if s.phase t = .sleeping then some { s with phase := Function.update s.phase t .awake }
    else none
  | .resume t => if s.phase t = .awake then some (test s t) else none
  | .unlock t =>
    if s.phase t = .holding then
      some { s with
        locked := false
        phase := notifyAll (Function.update s.phase t .outside) }
    else none

def machine (T : Type*) [DecidableEq T] : Machine (State T) (Action T) := ⟨step⟩

/-! ## The invariant -/

/-- The threads on the queue are those in `wait`, each once, and the front one is awake
    unless the mutex is held. -/
structure Inv (s : State T) : Prop where
  nodup : s.queue.Nodup
  queued : ∀ t, t ∈ s.queue ↔ s.phase t = .sleeping ∨ s.phase t = .awake
  held : ∀ t, s.phase t = .holding → s.locked = true
  unique : ∀ t u, s.phase t = .holding → s.phase u = .holding → t = u
  holder : s.locked = true → ∃ t, s.phase t = .holding
  ordered : s.entered = s.acquired ++ s.queue
  ready : s.locked = false → ∀ t, s.queue.head? = some t → s.phase t = .awake

/-- The same while thread `t` tests the predicate: it is on the queue, and it need not
    have been woken up. -/
structure Testing (s : State T) (t : T) : Prop where
  nodup : s.queue.Nodup
  mem : t ∈ s.queue
  queued : ∀ u, u ≠ t → (u ∈ s.queue ↔ s.phase u = .sleeping ∨ s.phase u = .awake)
  held : ∀ u, u ≠ t → s.phase u = .holding → s.locked = true
  unique : ∀ u v, u ≠ t → v ≠ t → s.phase u = .holding → s.phase v = .holding → u = v
  holder : s.locked = true → ∃ u, u ≠ t ∧ s.phase u = .holding
  ordered : s.entered = s.acquired ++ s.queue
  ready : s.locked = false → ∀ u, u ≠ t → s.queue.head? = some u → s.phase u = .awake

variable {s s' : State T} {t : T}

theorem inv_init : Inv ({} : State T) where
  nodup := List.nodup_nil
  queued _ := iff_of_false List.not_mem_nil (by simp)
  held _ h := nomatch h
  unique _ _ h := nomatch h
  holder h := nomatch h
  ordered := rfl
  ready _ _ h := nomatch h

/-- A thread that has been woken up is on the queue. -/
theorem Inv.testing (h : Inv s) (hawake : s.phase t = .awake) : Testing s t where
  nodup := h.nodup
  mem := (h.queued t).mpr (.inr hawake)
  queued u _ := h.queued u
  held u _ := h.held u
  unique u v _ _ := h.unique u v
  holder hlocked := by
    obtain ⟨u, hu⟩ := h.holder hlocked
    refine ⟨u, ?_, hu⟩
    rintro rfl
    rw [hawake] at hu
    cases hu
  ordered := h.ordered
  ready hfree u _ := h.ready hfree u

/-- A thread that enters `lock` goes to the end of the queue. -/
theorem Inv.enter (h : Inv s) (houtside : s.phase t = .outside) :
    Testing { s with queue := s.queue ++ [t], entered := s.entered ++ [t] } t := by
  have hnot : t ∉ s.queue := by
    intro hmem
    have hphase := (h.queued t).mp hmem
    rw [houtside] at hphase
    simp at hphase
  refine ⟨?_, List.mem_append_right _ (List.mem_singleton_self t), fun u hu => ?_,
    fun u _ => h.held u, fun u v _ _ => h.unique u v, fun hlocked => ?_, ?_, fun hfree u hu hhead => ?_⟩
  · exact h.nodup.append (List.nodup_singleton t) (List.disjoint_singleton.mpr hnot)
  · show u ∈ s.queue ++ [t] ↔ _
    rw [List.mem_append, List.mem_singleton, or_iff_left hu, h.queued u]
  · obtain ⟨u, hu⟩ := h.holder hlocked
    refine ⟨u, ?_, hu⟩
    rintro rfl
    rw [houtside] at hu
    cases hu
  · show s.entered ++ [t] = s.acquired ++ (s.queue ++ [t])
    rw [h.ordered, List.append_assoc]
  · have hold : s.queue.head? = some u := by
      cases hqueue : s.queue with
      | nil =>
        have hhead : ([] ++ [t]).head? = some u := hqueue ▸ hhead
        exact absurd (Option.some.inj hhead).symm hu
      | cons v rest =>
        have hhead : (v :: rest ++ [t]).head? = some u := hqueue ▸ hhead
        exact hhead
    exact h.ready hfree u hold

theorem notifyAll_eq_holding {phase : T → Phase} {t : T} :
    notifyAll phase t = .holding ↔ phase t = .holding := by
  unfold notifyAll
  split_ifs with hsleeping
  · simp [hsleeping]
  · exact Iff.rfl

theorem notifyAll_waits {phase : T → Phase} {t : T} :
    notifyAll phase t = .awake ↔ phase t = .sleeping ∨ phase t = .awake := by
  unfold notifyAll
  split_ifs with hsleeping
  · simp [hsleeping]
  · simp [hsleeping]

theorem notifyAll_ne_sleeping {phase : T → Phase} {t : T} : notifyAll phase t ≠ .sleeping := by
  unfold notifyAll
  split_ifs with hsleeping
  · exact nofun
  · exact hsleeping

variable [DecidableEq T]

/-- The mutex is taken only from the front of the queue. -/
theorem test_acquire (hfront : s.queue.head? = some t) (hfree : s.locked = false) :
    test s t =
      { s with
        queue := s.queue.tail
        locked := true
        phase := Function.update s.phase t .holding
        acquired := s.acquired ++ [t] } :=
  if_pos ⟨hfront, hfree⟩

theorem inv_test (h : Testing s t) : Inv (test s t) := by
  unfold test
  split_ifs with hfront
  · obtain ⟨hhead, hfree⟩ := hfront
    obtain ⟨rest, hqueue⟩ : ∃ rest, s.queue = t :: rest := List.head?_eq_some_iff.mp hhead
    have hnodup : t ∉ rest ∧ rest.Nodup := List.nodup_cons.mp (hqueue ▸ h.nodup)
    have hnone : ∀ u, u ≠ t → s.phase u ≠ .holding := by
      intro u hu hholds
      have hlocked := h.held u hu hholds
      rw [hfree] at hlocked
      exact Bool.false_ne_true hlocked
    have honly : ∀ u, Function.update s.phase t .holding u = .holding → u = t := by
      intro u hholds
      by_contra hu
      rw [Function.update_of_ne hu] at hholds
      exact hnone u hu hholds
    refine ⟨?_, fun u => ?_, fun _ _ => rfl, ?_, fun _ => ⟨t, Function.update_self ..⟩, ?_, nofun⟩
    · show s.queue.tail.Nodup
      rw [hqueue]
      exact hnodup.2
    · show u ∈ s.queue.tail ↔ _
      rw [hqueue, List.tail_cons]
      by_cases hu : u = t
      · subst hu
        simp [hnodup.1]
      · have hmem := h.queued u hu
        rw [hqueue, List.mem_cons, or_iff_right hu] at hmem
        rw [hmem]
        simp [Function.update_of_ne hu]
    · intro u v hu hv
      rw [honly u hu, honly v hv]
    · show s.entered = s.acquired ++ [t] ++ s.queue.tail
      rw [h.ordered, hqueue, List.append_assoc]
      rfl
  · have hother : ∀ u, u ≠ t → Function.update s.phase t .sleeping u = s.phase u :=
      fun u hu => Function.update_of_ne hu _ _
    have hself : Function.update s.phase t Phase.sleeping t = .sleeping := Function.update_self ..
    have hne : ∀ u, Function.update s.phase t .sleeping u = .holding → u ≠ t := by
      rintro u hholds rfl
      rw [hself] at hholds
      cases hholds
    refine ⟨h.nodup, fun u => ?_, fun u hu => ?_, fun u v hu hv => ?_, fun hlocked => ?_,
      h.ordered, fun hfree u hu => ?_⟩
    · by_cases hu : u = t
      · subst hu
        exact iff_of_true h.mem (.inl hself)
      · show u ∈ s.queue ↔ _
        rw [h.queued u hu]
        simp only [hother u hu]
    · have hut := hne u hu
      exact h.held u hut ((hother u hut).symm.trans hu)
    · have hut := hne u hu
      have hvt := hne v hv
      exact h.unique u v hut hvt ((hother u hut).symm.trans hu) ((hother v hvt).symm.trans hv)
    · obtain ⟨u, hut, hholds⟩ := h.holder hlocked
      exact ⟨u, (hother u hut).trans hholds⟩
    · -- the front one is not the thread that has just tested the predicate
      have hut : u ≠ t := fun heq => hfront ⟨heq ▸ hu, hfree⟩
      exact (hother u hut).trans (h.ready hfree u hut hu)

/-- All who wait are woken up. -/
theorem Inv.unlock (h : Inv s) (hholding : s.phase t = .holding) :
    Inv { s with
      locked := false
      phase := notifyAll (Function.update s.phase t .outside) } := by
  have hnone : ∀ u, ¬ notifyAll (Function.update s.phase t .outside) u = .holding := by
    intro u hu
    rw [notifyAll_eq_holding] at hu
    by_cases hut : u = t
    · subst hut
      rw [Function.update_self] at hu
      cases hu
    · rw [Function.update_of_ne hut] at hu
      exact hut (h.unique u t hu hholding)
  have hqueued : ∀ u, u ∈ s.queue ↔
      notifyAll (Function.update s.phase t .outside) u = .awake := by
    intro u
    rw [h.queued, notifyAll_waits]
    by_cases hut : u = t
    · subst hut
      simp [hholding]
    · rw [Function.update_of_ne hut]
  refine ⟨h.nodup, fun u => ?_, fun u hu => absurd hu (hnone u), fun u _ hu => absurd hu (hnone u),
    nofun, h.ordered, fun _ u hu => ?_⟩
  · rw [or_iff_right notifyAll_ne_sleeping]
    exact hqueued u
  · exact (hqueued u).mp (List.mem_of_head? hu)

theorem Inv.wake (h : Inv s) (hsleeping : s.phase t = .sleeping) :
    Inv { s with phase := Function.update s.phase t .awake } := by
  have hholding : ∀ u, Function.update s.phase t .awake u = .holding ↔ s.phase u = .holding := by
    intro u
    by_cases hut : u = t
    · subst hut
      simp [hsleeping]
    · rw [Function.update_of_ne hut]
  refine ⟨h.nodup, fun u => ?_, fun u hu => h.held u ((hholding u).mp hu),
    fun u v hu hv => h.unique u v ((hholding u).mp hu) ((hholding v).mp hv), fun hlocked => ?_,
    h.ordered, fun hfree u hu => ?_⟩
  · by_cases hut : u = t
    · subst hut
      exact iff_of_true ((h.queued u).mpr (.inl hsleeping)) (.inr (Function.update_self ..))
    · show u ∈ s.queue ↔ Function.update s.phase t .awake u = .sleeping ∨
        Function.update s.phase t .awake u = .awake
      rw [h.queued u, Function.update_of_ne hut]
  · obtain ⟨u, hu⟩ := h.holder hlocked
    exact ⟨u, (hholding u).mpr hu⟩
  · by_cases hut : u = t
    · subst hut
      exact Function.update_self ..
    · exact (Function.update_of_ne hut _ _).trans (h.ready hfree u hu)

theorem inv_step {a : Action T} (h : Inv s) (hstep : step s a = some s') : Inv s' := by
  cases a with
  | lock t =>
    obtain ⟨houtside, hs'⟩ := Option.ite_none_right_eq_some.mp hstep
    rw [← Option.some.inj hs']
    exact inv_test (h.enter houtside)
  | wake t =>
    obtain ⟨hsleeping, hs'⟩ := Option.ite_none_right_eq_some.mp hstep
    rw [← Option.some.inj hs']
    exact h.wake hsleeping
  | resume t =>
    obtain ⟨hawake, hs'⟩ := Option.ite_none_right_eq_some.mp hstep
    rw [← Option.some.inj hs']
    exact inv_test (h.testing hawake)
  | unlock t =>
    obtain ⟨hholding, hs'⟩ := Option.ite_none_right_eq_some.mp hstep
    rw [← Option.some.inj hs']
    exact h.unlock hholding

theorem inv_run {actions : List (Action T)} (hrun : (machine T).run {} actions = some s) : Inv s :=
  Machine.run_invariant' Inv (fun _ _ _ => inv_step) inv_init hrun

/-! ## The runs -/

/-- In every run one thread at most holds the mutex, the threads have got it in the order
    in which they entered `lock`, and while nobody holds it the front one can go on, and
    gets it. -/
theorem fifo {actions : List (Action T)} (hrun : (machine T).run {} actions = some s) :
    (∀ t u, s.phase t = .holding → s.phase u = .holding → t = u) ∧
      s.entered = s.acquired ++ s.queue ∧
      ((∀ t, s.phase t ≠ .holding) → ∀ t rest, s.queue = t :: rest →
        ∃ s', step s (.resume t) = some s' ∧ s'.phase t = .holding) := by
  have h := inv_run hrun
  refine ⟨h.unique, h.ordered, fun hnone t rest hqueue => ?_⟩
  have hfree : s.locked = false := by
    rw [← Bool.not_eq_true]
    intro hlocked
    obtain ⟨u, hu⟩ := h.holder hlocked
    exact hnone u hu
  have hhead : s.queue.head? = some t := by rw [hqueue, List.head?_cons]
  refine ⟨test s t, if_pos (h.ready hfree t hhead), ?_⟩
  rw [test_acquire hhead hfree]
  exact Function.update_self ..

/-- Two threads wait for a third; the last to enter is woken up first, and sleeps on. -/
def twoWait : List (Action ℕ) :=
  [.lock 0, .lock 1, .lock 2, .wake 2, .unlock 0, .resume 2, .resume 1, .unlock 1]

theorem fifo_twoWait : ∃ s, (machine ℕ).run {} twoWait = some s ∧
    s.acquired = [0, 1] ∧ s.queue = [2] ∧
      ∃ s', step s (.resume 2) = some s' ∧ s'.phase 2 = .holding := by
  have hrun : (machine ℕ).run {} twoWait = some _ := rfl
  refine ⟨_, hrun, by decide, by decide, ?_⟩
  refine (fifo hrun).2.2 (fun t ht => ?_) 2 [] (by decide)
  cases (inv_run hrun).held t ht

end NekoBox.Utils.FifoMutex
