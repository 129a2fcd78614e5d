import NekoBox.Lib.Machine

/-!
# The pool of working proxies

The auto-tester keeps the profiles that passed their last test in `workingProxyPool`
(`ProxyAutoTester.cpp`), the one verified last in front. `pruneWorkingPool` (lines 574–594)
cuts the pool to its size before it takes out the profiles that are gone or do not work.

A state also has the times of the last verifications, which only the property reads.

* `Inv.of_step`: the pool is in the order of the verifications, and so has no profile twice;
* `good_iff`: what a step does right, and when;
* `runs_good_iff`: every step of a run is right exactly when the pool is pruned only with a
  size that is not negative, and a proxy is asked for only while a working one, if there is
  one in the pool, is among the first that the size leaves.
-/

namespace NekoBox.AutoTest

open NekoBox.Lib

namespace WorkingPool

/-! ## The code -/

structure State where
  workingProxyPool : List ℕ
  /-- `is_working` of the profiles that exist. -/
  isWorking : ℕ → Option Bool
  /-- `getPoolSize()` -/
  poolSize : ℤ
  clock : ℕ
  /-- When a profile was verified last. -/
  verified : ℕ → ℕ

/-- `updateWorkingPool` (lines 558–572) -/
def updateWorkingPool (proxyId : ℕ) (isWorking : Bool) (s : State) : State :=
  if isWorking then
    { s with
      workingProxyPool :=
        if proxyId ∉ s.workingProxyPool then proxyId :: s.workingProxyPool
        else proxyId :: s.workingProxyPool.filter (· ≠ proxyId)
      clock := s.clock + 1
      verified := Function.update s.verified proxyId (s.clock + 1) }
  else { s with workingProxyPool := s.workingProxyPool.filter (· ≠ proxyId) }

/-- The loop that removes excess entries (lines 578–580), with the number of entries left;
    none when `removeLast` meets an empty list. -/
def removeExcess (maxPoolSize : ℤ) : ℕ → List ℕ → Option (List ℕ)
  | 0, pool => if (pool.length : ℤ) > maxPoolSize then none else some pool
  | n + 1, pool =>
    if (pool.length : ℤ) > maxPoolSize then removeExcess maxPoolSize n pool.dropLast
    else some pool

/-- `pruneWorkingPool` -/
def pruneWorkingPool (s : State) : Option State :=
  (removeExcess s.poolSize s.workingProxyPool.length s.workingProxyPool).map fun pool =>
    let toRemove := pool.filter fun proxyId => s.isWorking proxyId ≠ some true
    { s with workingProxyPool := pool.filter (· ∉ toRemove) }

/-- `GetNextWorkingProxy` (lines 230–239) -/
def getNextWorkingProxy (s : State) : Option (ℤ × State) :=
  (pruneWorkingPool s).map fun s =>
    match s.workingProxyPool with
    | [] => (-1, s)
    | proxyId :: _ => ((proxyId : ℤ), s)

/-- `HandleProxyFailure` (lines 186–198), as far as it marks the profile and removes it. -/
def markFailed (proxyId : ℕ) (s : State) : State :=
  { s with
    isWorking := Function.update s.isWorking proxyId ((s.isWorking proxyId).map fun _ => false)
    workingProxyPool := s.workingProxyPool.filter (· ≠ proxyId) }

inductive Action where
  | update (proxyId : ℕ) (isWorking : Bool)
  | prune
  /-- `HandleProxyFailure`; `active` when the profile is started. -/
  | failure (proxyId : ℕ) (active : Bool)
  | getNext
  /-- A profile is deleted or made, or its status changes. -/
  | change (proxyId : ℕ) (isWorking : Option Bool)
  | configure (poolSize : ℤ)
  /-- `Reset` -/
  | reset

def step (s : State) : Action → Option State
  | .update proxyId isWorking => some (updateWorkingPool proxyId isWorking s)
  | .prune => pruneWorkingPool s
  | .failure proxyId active =>
    if active then (getNextWorkingProxy (markFailed proxyId s)).map Prod.snd
    else some (markFailed proxyId s)
  | .getNext => (getNextWorkingProxy s).map Prod.snd
  | .change proxyId isWorking =>
    some { s with isWorking := Function.update s.isWorking proxyId isWorking }
  | .configure poolSize => some { s with poolSize }
  | .reset => some { s with workingProxyPool := [] }

def machine : Machine State Action := ⟨step⟩

/-- An empty pool. -/
def init (isWorking : ℕ → Option Bool) (poolSize : ℤ) : State :=
  ⟨[], isWorking, poolSize, 0, fun _ => 0⟩

/-! ## The property -/

/-- The profile exists and works. -/
def Works (s : State) (proxyId : ℕ) : Prop := s.isWorking proxyId = some true

instance (s : State) (proxyId : ℕ) : Decidable (Works s proxyId) :=
  inferInstanceAs (Decidable (_ = _))

/-- Pruning ends, and leaves no more entries than configured, all of them working. -/
def PrunesWell (s : State) : Prop :=
  ∃ s', pruneWorkingPool s = some s' ∧ (s'.workingProxyPool.length : ℤ) ≤ s.poolSize ∧
    ∀ proxyId ∈ s'.workingProxyPool, Works s' proxyId

/-- The next proxy is the working one verified last, if the pool has a working one. -/
def NextWell (s : State) : Prop :=
  ∃ r s', getNextWorkingProxy s = some (r, s') ∧
    (r = -1 → ∀ proxyId ∈ s.workingProxyPool, ¬ Works s proxyId) ∧
    (r ≠ -1 → ∃ proxyId ∈ s.workingProxyPool, r = proxyId ∧ Works s proxyId ∧
      ∀ other ∈ s.workingProxyPool, Works s other → s.verified other ≤ s.verified proxyId)

/-- What is asked of a step. -/
def Good (s : State) (a : Action) : Prop :=
  (∀ s', step s a = some s' → s'.workingProxyPool.Nodup) ∧
    match a with
    | .prune => PrunesWell s
    | .getNext => PrunesWell s ∧ (1 ≤ s.poolSize → NextWell s)
    | .failure proxyId true =>
      PrunesWell (markFailed proxyId s) ∧ (1 ≤ s.poolSize → NextWell (markFailed proxyId s))
    | _ => True

/-- A working proxy, if the pool has one, is among the first that the size leaves. -/
def Found (s : State) : Prop :=
  (∃ proxyId ∈ s.workingProxyPool.take s.poolSize.toNat, Works s proxyId) ∨
    ∀ proxyId ∈ s.workingProxyPool, ¬ Works s proxyId

/-- The condition on a step: see the head of the file. -/
def Fits (s : State) : Action → Prop
  | .prune => 0 ≤ s.poolSize
  | .getNext => 0 ≤ s.poolSize ∧ (1 ≤ s.poolSize → Found s)
  | .failure proxyId true =>
    0 ≤ s.poolSize ∧ (1 ≤ s.poolSize → Found (markFailed proxyId s))
  | _ => True

/-! ## Pruning -/

theorem removeExcess_eq (maxPoolSize : ℤ) {n : ℕ} {pool : List ℕ} (hn : pool.length = n) :
    removeExcess maxPoolSize n pool =
      if 0 ≤ maxPoolSize then some (pool.take maxPoolSize.toNat) else none := by
  induction n generalizing pool with
  | zero =>
    obtain rfl := List.length_eq_zero_iff.mp hn
    unfold removeExcess
    by_cases hsize : 0 ≤ maxPoolSize
    · rw [if_pos hsize, if_neg (by simpa using hsize), List.take_nil]
    · rw [if_neg hsize, if_pos (by simpa using hsize)]
  | succ n ih =>
    unfold removeExcess
    by_cases hlong : (pool.length : ℤ) > maxPoolSize
    · rw [if_pos hlong, ih (by rw [List.length_dropLast, hn]; rfl)]
      by_cases hsize : 0 ≤ maxPoolSize
      · rw [if_pos hsize, if_pos hsize, List.dropLast_eq_take, List.take_take]
        congr 2
        omega
      · rw [if_neg hsize, if_neg hsize]
    · rw [if_neg hlong, if_pos (by omega), List.take_of_length_le (by omega)]

/-- What pruning does. -/
theorem pruneWorkingPool_eq (s : State) : pruneWorkingPool s =
    if 0 ≤ s.poolSize then
      some { s with workingProxyPool :=
        (s.workingProxyPool.take s.poolSize.toNat).filter fun proxyId => Works s proxyId }
    else none := by
  unfold pruneWorkingPool
  rw [removeExcess_eq _ rfl]
  split_ifs
  · rw [Option.map_some]
    refine congrArg (fun pool => some { s with workingProxyPool := pool }) ?_
    refine List.filter_congr fun proxyId hmem => ?_
    by_cases hworks : s.isWorking proxyId = some true <;> simp [Works, hworks, hmem]
  · rfl

theorem prunesWell_iff (s : State) : PrunesWell s ↔ 0 ≤ s.poolSize := by
  unfold PrunesWell
  rw [pruneWorkingPool_eq]
  constructor
  · rintro ⟨s', hs', -⟩
    by_contra hsize
    rw [if_neg hsize] at hs'
    exact nomatch hs'
  · intro hsize
    refine ⟨_, if_pos hsize, ?_, ?_⟩
    · have hle := List.length_filter_le (fun proxyId => decide (Works s proxyId))
        (s.workingProxyPool.take s.poolSize.toNat)
      rw [List.length_take] at hle
      dsimp only
      omega
    · intro proxyId hmem
      exact of_decide_eq_true (List.mem_filter.mp hmem).2

/-! ## The order of the pool -/

/-- The pool is in the order of the verifications. -/
structure Inv (s : State) : Prop where
  ordered : s.workingProxyPool.Pairwise fun a b => s.verified b < s.verified a
  past : ∀ proxyId ∈ s.workingProxyPool, s.verified proxyId ≤ s.clock

theorem Inv.nodup {s : State} (h : Inv s) : s.workingProxyPool.Nodup := by
  refine h.ordered.imp fun {a b} hlt heq => ?_
  rw [heq] at hlt
  exact lt_irrefl _ hlt

/-- A pool from which entries are taken. -/
theorem Inv.sublist {s s' : State} (h : Inv s)
    (hpool : s'.workingProxyPool.Sublist s.workingProxyPool) (hclock : s'.clock = s.clock)
    (hverified : s'.verified = s.verified) : Inv s' := by
  refine ⟨?_, fun proxyId hmem => ?_⟩
  · rw [hverified]
    exact h.ordered.sublist hpool
  · rw [hverified, hclock]
    exact h.past proxyId (hpool.subset hmem)

theorem Inv.markFailed {s : State} (h : Inv s) (proxyId : ℕ) : Inv (markFailed proxyId s) :=
  h.sublist List.filter_sublist rfl rfl

theorem Inv.update {s : State} (h : Inv s) (proxyId : ℕ) (isWorking : Bool) :
    Inv (updateWorkingPool proxyId isWorking s) := by
  unfold updateWorkingPool
  cases isWorking with
  | false => exact h.sublist List.filter_sublist rfl rfl
  | true =>
    have hpool : (if proxyId ∉ s.workingProxyPool then proxyId :: s.workingProxyPool
        else proxyId :: s.workingProxyPool.filter (· ≠ proxyId)) =
        proxyId :: s.workingProxyPool.filter (· ≠ proxyId) := by
      by_cases hmem : proxyId ∈ s.workingProxyPool
      · rw [if_neg (not_not.mpr hmem)]
      · rw [if_pos hmem, List.filter_eq_self.mpr]
        intro other hother
        exact decide_eq_true fun heq => hmem (heq ▸ hother)
    rw [if_pos rfl, hpool]
    have hothers : ∀ other ∈ s.workingProxyPool.filter (· ≠ proxyId),
        Function.update s.verified proxyId (s.clock + 1) other = s.verified other ∧
          s.verified other ≤ s.clock := by
      intro other hother
      obtain ⟨hmem, hne⟩ := List.mem_filter.mp hother
      exact ⟨Function.update_of_ne (of_decide_eq_true hne) _ _, h.past other hmem⟩
    refine ⟨List.pairwise_cons.mpr ⟨fun other hother => ?_, ?_⟩, ?_⟩
    · obtain ⟨hsame, hle⟩ := hothers other hother
      dsimp only
      rw [hsame, Function.update_self]
      omega
    · refine (h.ordered.sublist List.filter_sublist).imp_of_mem fun {a b} ha hb hlt => ?_
      dsimp only
      rw [(hothers a ha).1, (hothers b hb).1]
      exact hlt
    · refine List.forall_mem_cons.mpr ⟨?_, fun other hother => ?_⟩
      · dsimp only
        rw [Function.update_self]
      · obtain ⟨hsame, hle⟩ := hothers other hother
        dsimp only
        rw [hsame]
        omega

theorem Inv.prune {s s' : State} (h : Inv s) (hs' : pruneWorkingPool s = some s') : Inv s' := by
  rw [pruneWorkingPool_eq] at hs'
  split_ifs at hs'
  obtain rfl := Option.some.inj hs'
  exact h.sublist (List.filter_sublist.trans (List.take_sublist _ _)) rfl rfl

theorem Inv.getNext {s s' : State} (h : Inv s)
    (hs' : (getNextWorkingProxy s).map Prod.snd = some s') : Inv s' := by
  unfold getNextWorkingProxy at hs'
  rw [Option.map_map] at hs'
  obtain ⟨t, ht, rfl⟩ := Option.map_eq_some_iff.mp hs'
  have hsnd : (Prod.snd ∘ fun s : State =>
      match s.workingProxyPool with
      | [] => ((-1 : ℤ), s)
      | proxyId :: _ => ((proxyId : ℤ), s)) t = t := by
    cases hpool : t.workingProxyPool <;> simp [hpool]
  rw [hsnd]
  exact h.prune ht

/-- **A step keeps the order of the pool.** -/
theorem Inv.of_step {s s' : State} (h : Inv s) {a : Action} (hstep : step s a = some s') :
    Inv s' := by
  cases a with
  | update proxyId isWorking =>
    obtain rfl := Option.some.inj hstep
    exact h.update proxyId isWorking
  | prune => exact h.prune hstep
  | failure proxyId active =>
    cases active with
    | false =>
      obtain rfl := Option.some.inj hstep
      exact h.markFailed proxyId
    | true => exact (h.markFailed proxyId).getNext hstep
  | getNext => exact h.getNext hstep
  | change proxyId isWorking =>
    obtain rfl := Option.some.inj hstep
    exact ⟨h.ordered, h.past⟩
  | configure poolSize =>
    obtain rfl := Option.some.inj hstep
    exact ⟨h.ordered, h.past⟩
  | reset =>
    obtain rfl := Option.some.inj hstep
    exact ⟨.nil, fun _ hmem => absurd hmem List.not_mem_nil⟩

theorem inv_init (isWorking : ℕ → Option Bool) (poolSize : ℤ) : Inv (init isWorking poolSize) :=
  ⟨.nil, fun _ hmem => absurd hmem List.not_mem_nil⟩

/-! ## The next proxy -/

/-- `GetNextWorkingProxy`: the first working proxy among those that the size leaves. -/
theorem getNextWorkingProxy_eq {s : State} (hsize : 0 ≤ s.poolSize) :
    ∃ s', getNextWorkingProxy s =
      some (((s.workingProxyPool.take s.poolSize.toNat).find? fun proxyId =>
        Works s proxyId).elim (-1) fun proxyId => (proxyId : ℤ), s') := by
  unfold getNextWorkingProxy
  rw [pruneWorkingPool_eq, if_pos hsize, Option.map_some, ← List.head?_filter]
  dsimp only
  cases (s.workingProxyPool.take s.poolSize.toNat).filter fun proxyId => Works s proxyId with
  | nil => exact ⟨_, rfl⟩
  | cons proxyId rest => exact ⟨_, rfl⟩

theorem nextWell_iff {s : State} (h : Inv s) (hsize : 0 ≤ s.poolSize) : NextWell s ↔ Found s := by
  obtain ⟨s', hs'⟩ := getNextWorkingProxy_eq hsize
  unfold NextWell
  rw [hs']
  cases hfind : (s.workingProxyPool.take s.poolSize.toNat).find? fun proxyId =>
      Works s proxyId with
  | none =>
    have hnone : ∀ proxyId ∈ s.workingProxyPool.take s.poolSize.toNat, ¬ Works s proxyId :=
      fun proxyId hmem => by simpa using List.find?_eq_none.mp hfind proxyId hmem
    constructor
    · rintro ⟨r, t, heq, hminus, -⟩
      obtain ⟨rfl, -⟩ := Prod.mk.inj (Option.some.inj heq)
      exact .inr (hminus rfl)
    · rintro (⟨proxyId, hmem, hworks⟩ | hall)
      · exact absurd hworks (hnone proxyId hmem)
      · exact ⟨-1, s', rfl, fun _ => hall, fun hne => absurd rfl hne⟩
  | some proxyId =>
    have hworks : Works s proxyId := by simpa using List.find?_some hfind
    have hmem := List.mem_of_find?_eq_some hfind
    refine iff_of_true ⟨proxyId, s', rfl, fun hminus => ?_, fun _ => ?_⟩
      (.inl ⟨proxyId, hmem, hworks⟩)
    · exact absurd (show (proxyId : ℤ) = -1 from hminus) (by omega)
    · refine ⟨proxyId, List.mem_of_mem_take hmem, rfl, hworks, fun other hother hwork => ?_⟩
      -- what stands before the first working one does not work
      obtain ⟨-, before, after, hsplit, hbefore⟩ := List.find?_eq_some_iff_append.mp hfind
      have hpool : s.workingProxyPool =
          before ++ proxyId :: (after ++ s.workingProxyPool.drop s.poolSize.toNat) := by
        rw [← List.cons_append, ← List.append_assoc, ← hsplit, List.take_append_drop]
      have hordered := h.ordered
      rw [hpool] at hother hordered
      rcases List.mem_append.mp hother with hold | hrest
      · exact absurd hwork (by simpa using hbefore other hold)
      · rcases List.mem_cons.mp hrest with rfl | hafter
        · exact le_refl _
        · exact ((List.pairwise_cons.mp (List.pairwise_append.mp hordered).2.1).1 other hafter).le

/-! ## Runs -/

theorem asked_iff {s : State} (h : Inv s) :
    PrunesWell s ∧ (1 ≤ s.poolSize → NextWell s) ↔
      0 ≤ s.poolSize ∧ (1 ≤ s.poolSize → Found s) := by
  rw [prunesWell_iff]
  refine and_congr_right fun hsize => ?_
  rw [nextWell_iff h hsize]

/-- **What a step does right, and when.** -/
theorem good_iff {s : State} (h : Inv s) (a : Action) : Good s a ↔ Fits s a := by
  have hnodup : ∀ s', step s a = some s' → s'.workingProxyPool.Nodup :=
    fun _ hstep => (h.of_step hstep).nodup
  unfold Good
  rw [and_iff_right hnodup]
  cases a with
  | prune => exact prunesWell_iff s
  | getNext => exact asked_iff h
  | failure proxyId active =>
    cases active with
    | false => exact Iff.rfl
    | true => exact asked_iff (h.markFailed proxyId)
  | update | change | configure | reset => exact Iff.rfl

/-- **Every step of a run is right exactly when every step fits.** -/
theorem runs_good_iff (isWorking : ℕ → Option Bool) (poolSize : ℤ) (actions : List Action) :
    machine.Along Good (init isWorking poolSize) actions ↔
      machine.Along Fits (init isWorking poolSize) actions :=
  Machine.along_iff Inv (fun _ a h => good_iff h a) (fun _ _ _ h _ hstep => h.of_step hstep)
    (inv_init isWorking poolSize)

/-- Pool size one; the second of two verified profiles is deleted, and the first is cut off
    before the second is taken out. -/
def deleted : List Action := [.update 1 true, .update 2 true, .change 2 none, .getNext]

theorem backup_is_cut_off :
    ¬ (∀ isWorking poolSize actions, machine.Along Good (init isWorking poolSize) actions) ∧
      ¬ machine.Along Good (init (fun _ => some true) 1) deleted ∧
      ¬ machine.Along Good (init (fun _ => none) (-1)) [.prune] := by
  have hiff : ∀ isWorking poolSize actions,
      machine.Along Good (init isWorking poolSize) actions →
        machine.Along Fits (init isWorking poolSize) actions := fun isWorking poolSize _ =>
    (Machine.along_iff Inv (fun _ a h => good_iff h a) (fun _ _ _ h _ hstep => h.of_step hstep)
      (inv_init isWorking poolSize)).mp
  have hdeleted : ¬ machine.Along Good (init (fun _ => some true) 1) deleted := by
    intro h
    obtain ⟨-, h⟩ := hiff _ _ _ h
    obtain ⟨-, h⟩ := h _ rfl
    obtain ⟨-, h⟩ := h _ rfl
    obtain ⟨⟨-, hfound⟩, -⟩ := h _ rfl
    rcases hfound (by decide) with ⟨proxyId, hmem, hworks⟩ | hnone
    · obtain rfl := List.mem_singleton.mp (show proxyId ∈ [2] from hmem)
      exact absurd hworks (by decide)
    · exact hnone 1 (by decide) (by decide)
  refine ⟨fun h => hdeleted (h _ _ _), hdeleted, fun h => ?_⟩
  exact absurd (show (0 : ℤ) ≤ -1 from (hiff _ _ _ h).1) (by decide)

end WorkingPool

end NekoBox.AutoTest
