import NekoBox.Lib.Lock
import NekoBox.Lib.Progress
import NekoBox.Lib.Workers

/-!
# The lock of the tests

`urltest_current_group` and `speedtest_current_group` (`mainwindow_rpc.cpp`, lines
198–311 and 360–444) share `speedtestRunning`. The caller takes it with `tryLock`,
and a thread of its own runs the tests, in batches of 25 profiles. A batch of the
first function is left to workers of a pool, the last of which gives the lock back;
the thread waits for that by taking the lock itself.

What a thread reads of the profiles and of `BuildTestConfig` is a choice of the
surroundings. So is when `stopTests` is called. What the tests do is left out: the
outcome of a call to the core does not bear on the lock.

* `Job.step_harmless`: what a harmless step of a job does with the lock;
* `tests_harmless`: a run of harmless steps keeps the protocol;
* `protocol_broken`: what steps that are not harmless do.
-/

namespace NekoBox.Window

open NekoBox.Lib

/-! ## Jobs -/

/-- Where `lambda` returns to: the loop with the ids that are left, or its end. -/
inductive After where
  | loop (left : ℕ)
  | rest

/-- Where the thread of a job stands; `left` ids have not been looked up. -/
inductive Thread where
  /-- Line 271 -/
  | urlStart (left : ℕ)
  /-- Lines 272–281 -/
  | urlLoop (left batch : ℕ)
  /-- Line 282 -/
  | urlFull (left : ℕ)
  /-- Line 292 -/
  | urlRest
  /-- Line 216 -/
  | build (next : After)
  /-- Line 219 -/
  | failed (next : After)
  /-- Lines 220–222 -/
  | reportFailure (next : After)
  /-- Lines 225–228 -/
  | prepare (full tags : Bool) (next : After)
  /-- Lines 229–244 -/
  | startFull (full tags : Bool) (next : After)
  /-- Lines 246–256 -/
  | startTags (tags : Bool) (next : After)
  /-- Line 257 -/
  | settle (next : After)
  /-- Line 259 -/
  | await (next : After)
  /-- Line 260 -/
  | pass (next : After)
  /-- Line 287 -/
  | relock (left : ℕ)
  /-- Lines 296–298 -/
  | finish
  /-- Lines 379–381, or 427–435 -/
  | speedStart (left : ℕ) (testCurrent : Bool)
  /-- Lines 383–395 -/
  | speedLoop (left batch : ℕ)
  /-- Line 396 -/
  | speedCheck (left batch : ℕ)
  /-- Lines 397–401 -/
  | speedBuild (left batch : ℕ)
  /-- Lines 403–416 -/
  | speedTest (left : ℕ)
  /-- Lines 418–419 -/
  | speedNext (left batch : ℕ)
  /-- Line 420 -/
  | speedRelock (left batch : ℕ)
  /-- Line 438 -/
  | speedUnlock
  | ended

/-- Where a worker of the pool stands (lines 236–241 and 248–253). -/
inductive Worker where
  | testing
  /-- It has incremented the counter. -/
  | counted
  /-- It has read that the counter is at its target. -/
  | releasing
  | done
  deriving DecidableEq

/-- The locals of the last call of `lambda`, and the workers it has started. A worker that
    is left when `lambda` returns would use freed memory; it is not followed. -/
structure Pool where
  counter : ℕ
  testCount : ℕ
  workers : List Worker

/-- A call with its thread. -/
structure Job where
  thread : Thread
  hasFinish : Bool
  finishCalls : ℕ
  pool : Pool

/-- What the thread finds: whether `GetProfile` gives a profile, and whether
    `BuildTestConfig` gives full configurations and outbound tags; `none` is an error. -/
structure Outcome where
  found : Bool
  built : Option (Bool × Bool)

inductive JobAction where
  | thread (o : Outcome)
  | worker (k : ℕ)

namespace Pool

def empty : Pool := ⟨0, 0, []⟩

/-- `parallelCoreCallPool->start`, if there is something to test. -/
def start (pool : Pool) (wanted : Bool) : Pool :=
  if wanted then { pool with workers := pool.workers ++ [.testing] } else pool

def setWorker (pool : Pool) (k : ℕ) (w : Worker) : Pool :=
  { pool with workers := pool.workers.set k w }

end Pool

namespace Job

def urltest (count : ℕ) (hasFinish : Bool) : Job := ⟨.urlStart count, hasFinish, 0, .empty⟩

def speedtest (count : ℕ) (testCurrent : Bool) : Job :=
  ⟨.speedStart count testCurrent, false, 0, .empty⟩

def goto (job : Job) (thread : Thread) : Job := { job with thread := thread }

/-- `if (finish != nullptr) finish(..)` -/
def callFinish (job : Job) : Job :=
  { job with finishCalls := job.finishCalls + job.hasFinish.toNat }

/-- The end of `lambda`. -/
def returnTo (job : Job) : After → Job
  | .loop left => job.goto (.relock left)
  | .rest => job.goto .finish

/-- A step of the thread, with `stopSpeedtest` before and after it. -/
def threadStep (stop : Bool) (job : Job) (o : Outcome) : Option (Job × LockOp × Bool) :=
  match job.thread with
  | .urlStart left => some (job.goto (.urlLoop left 0), .keep, false)
  | .urlLoop 0 _ => some (job.goto .urlRest, .keep, stop)
  | .urlLoop (left + 1) batch =>
    if o.found then
      if batch + 1 = 25 then some (job.goto (.urlFull left), .keep, stop)
      else some (job.goto (.urlLoop left (batch + 1)), .keep, stop)
    else some (job.goto (.urlLoop left batch), .keep, stop)
  | .urlFull left =>
    if stop then some (job.goto .urlRest, .keep, stop)
    else some (job.goto (.build (.loop left)), .keep, stop)
  | .urlRest =>
    if stop then some (job.goto .finish, .keep, stop)
    else some (job.goto (.build .rest), .keep, stop)
  | .build next =>
    match o.built with
    | none => some (job.goto (.failed next), .keep, stop)
    | some (full, tags) => some (job.goto (.prepare full tags next), .keep, stop)
  | .failed next => some (job.goto (.reportFailure next), .release, stop)
  | .reportFailure next => some (job.callFinish.returnTo next, .keep, stop)
  | .prepare full tags next =>
    some ({ job with
      thread := .startFull full tags next
      pool := { Pool.empty with testCount := full.toNat + tags.toNat } }, .keep, false)
  | .startFull full tags next =>
    some ({ job with thread := .startTags tags next, pool := job.pool.start full }, .keep, stop)
  | .startTags tags next =>
    some ({ job with thread := .settle next, pool := job.pool.start tags }, .keep, stop)
  | .settle next =>
    some (job.goto (.await next), if job.pool.testCount = 0 then .release else .keep, stop)
  | .await next => some (job.goto (.pass next), .acquire, stop)
  | .pass next => some (job.returnTo next, .release, stop)
  | .relock left => some (job.goto (.urlLoop left 0), .acquire, stop)
  | .finish => some (job.callFinish.goto .ended, .keep, stop)
  | .speedStart left testCurrent =>
    if testCurrent then some (job.goto .speedUnlock, .keep, false)
    else some (job.goto (.speedLoop left 0), .keep, false)
  | .speedLoop 0 batch => some (job.goto (.speedCheck 0 batch), .keep, stop)
  | .speedLoop (left + 1) batch =>
    if o.found then
      if batch + 1 = 25 then some (job.goto (.speedCheck left 25), .keep, stop)
      else some (job.goto (.speedLoop left (batch + 1)), .keep, stop)
    else some (job.goto (.speedLoop left batch), .keep, stop)
  | .speedCheck left batch =>
    if stop then some (job.goto (.speedNext left 0), .keep, stop)
    else some (job.goto (.speedBuild left batch), .keep, stop)
  | .speedBuild left batch =>
    match o.built with
    | none => some (job.goto (.speedNext left batch), .keep, stop)
    | some _ => some (job.goto (.speedTest left), .keep, false)
  | .speedTest left => some (job.goto (.speedNext left 0), .keep, stop)
  | .speedNext left batch =>
    if ¬ stop ∧ 0 < left then some (job.goto (.speedRelock left batch), .keep, stop)
    else some (job.goto .speedUnlock, .keep, stop)
  | .speedRelock left batch => some (job.goto (.speedLoop left batch), .acquire, stop)
  | .speedUnlock => some (job.goto .ended, .release, stop)
  | .ended => none

/-- A step of worker `k`. -/
def workerStep (stop : Bool) (job : Job) (k : ℕ) : Option (Job × LockOp × Bool) :=
  let pool := job.pool
  match pool.workers[k]? with
  | some .testing =>
    some ({ job with pool := { pool.setWorker k .counted with counter := pool.counter + 1 } },
      .keep, stop)
  | some .counted =>
    some ({ job with
      pool := pool.setWorker k (if pool.counter = pool.testCount then .releasing else .done) },
      .keep, stop)
  | some .releasing => some ({ job with pool := pool.setWorker k .done }, .release, stop)
  | some .done => none
  | none => none

def step (stop : Bool) (job : Job) : JobAction → Option (Job × LockOp × Bool)
  | .thread o => job.threadStep stop o
  | .worker k => job.workerStep stop k

end Job

/-! ## The system -/

/-- The jobs, the lock, and `stopSpeedtest`. -/
abbrev TestState := Locked Job Bool

def TestState.init : TestState := ⟨none, false, false, []⟩

inductive TestAction where
  | urltest (count : ℕ) (hasFinish : Bool)
  | speedtest (count : ℕ) (testCurrent : Bool)
  | stopTests
  | job (k : ℕ) (i : JobAction)

def tests : Machine TestState TestAction where
  step s
    | .urltest count hasFinish =>
      some (if count = 0 then s else s.start (.urltest count hasFinish))
    | .speedtest count testCurrent =>
      some (if count = 0 ∧ ¬ testCurrent then s else s.start (.speedtest count testCurrent))
    | .stopTests => some { s with shared := true }
    | .job k i => s.stepAt Job.step k i

/-! ## Harmless steps -/

/-- A step of a job is harmless if

    * the thread of a latency test does not see a request to stop,
    * its `BuildTestConfig` does not fail while there is a `finish` to call,
    * a worker does not increment the counter while another one is about to read it,
    * the thread of a speed test has no ids left after a batch, or sees a request to
      stop. -/
def Job.Harmless (stop : Bool) (job : Job) : JobAction → Prop
  | .thread o =>
    match job.thread with
    | .urlFull _ => stop = false
    | .urlRest => stop = false
    | .build _ => o.built = none → job.hasFinish = false
    | .speedNext left _ => stop = true ∨ left = 0
    | _ => True
  | .worker k => job.pool.workers[k]? = some .testing → job.pool.workers.count .counted = 0

def Harmless (s : TestState) : TestAction → Prop
  | .job k i => ∀ job, s.parts[k]? = some job → job.Harmless s.shared i
  | _ => True

instance (stop : Bool) (job : Job) : ∀ i, Decidable (job.Harmless stop i)
  | .thread o => by
    unfold Job.Harmless
    dsimp only
    split <;> infer_instance
  | .worker _ => inferInstanceAs (Decidable (_ → _))

instance (s : TestState) : ∀ i, Decidable (Harmless s i)
  | .job k i => decidable_of_iff (∀ job ∈ s.parts[k]?, job.Harmless s.shared i) Iff.rfl
  | .urltest _ _ => isTrue trivial
  | .speedtest _ _ => isTrue trivial
  | .stopTests => isTrue trivial

/-! ## What holds of a job -/

namespace Pool

/-- No worker has anything left to do. -/
def Quiet (pool : Pool) : Prop :=
  pool.workers.count .testing = 0 ∧ pool.workers.count .counted = 0 ∧
    pool.workers.count .releasing = 0

/-- Workers are under way, and `coming` ones are not there yet. As long as the lock is
    held, one of them is left to give it back. -/
structure Running (held : Bool) (coming : ℕ) (pool : Pool) : Prop where
  counter : pool.counter + pool.workers.count .testing = pool.workers.length
  testCount : pool.testCount = pool.workers.length + coming
  holding : held = true →
    (0 < pool.workers.count .testing + coming ∧ pool.workers.count .releasing = 0 ∧
        pool.workers.count .counted ≤ 1) ∨
      (pool.workers.count .testing = 0 ∧ coming = 0 ∧
        pool.workers.count .counted + pool.workers.count .releasing = 1)
  settled : held = false → coming = 0 ∧ pool.Quiet

/-- The same while workers are started: there may be none. -/
def Starting (held : Bool) (coming : ℕ) (pool : Pool) : Prop :=
  if pool.testCount = 0 then held = true ∧ coming = 0 ∧ pool.workers = [] ∧ pool.counter = 0
  else pool.Running held coming

variable {held : Bool} {coming : ℕ} {pool : Pool}

/-- A worker that is started is under way. -/
theorem Running.start (h : pool.Running held (coming + 1)) :
    (pool.start true).Running held coming := by
  obtain ⟨hcounter, htestCount, hholding, hsettled⟩ := h
  have hheld : held = true := by
    by_contra hnot
    have hcoming := (hsettled (Bool.eq_false_iff.mpr hnot)).1
    omega
  have hholding := hholding hheld
  have htesting : (pool.start true).workers.count .testing = pool.workers.count .testing + 1 := by
    simp [Pool.start]
  have hcounted : (pool.start true).workers.count .counted = pool.workers.count .counted := by
    simp [Pool.start]
  have hreleasing : (pool.start true).workers.count .releasing = pool.workers.count .releasing := by
    simp [Pool.start]
  have hlength : (pool.start true).workers.length = pool.workers.length + 1 := by
    simp [Pool.start]
  constructor
  · show pool.counter + _ = _
    omega
  · show pool.testCount = _
    omega
  · omega
  · intro hfree
    rw [hheld] at hfree
    cases hfree

theorem Starting.start (wanted : Bool) (h : pool.Starting held (wanted.toNat + coming)) :
    (pool.start wanted).Starting held coming := by
  cases wanted with
  | false =>
    rw [Bool.toNat_false, Nat.zero_add] at h
    exact h
  | true =>
    unfold Starting at h ⊢
    show if pool.testCount = 0 then _ else _
    split_ifs at h ⊢ with hnone
    · obtain ⟨-, hcoming, -, -⟩ := h
      simp at hcoming
    · rw [Bool.toNat_true, Nat.add_comm] at h
      exact h.start

theorem starting_empty (testCount : ℕ) :
    Starting true testCount { empty with testCount := testCount } := by
  show if testCount = 0 then _ else _
  split_ifs with hnone
  · exact ⟨rfl, hnone, rfl, rfl⟩
  · refine ⟨rfl, (Nat.zero_add _).symm, fun _ => .inl ⟨?_, rfl, Nat.zero_le _⟩, nofun⟩
    show 0 < 0 + testCount
    omega

/-- Without workers the thread gives the lock back. -/
theorem Starting.settle (h : pool.Starting held 0) (hnone : pool.testCount = 0) :
    held = true ∧ pool.Running false 0 := by
  unfold Starting at h
  rw [if_pos hnone] at h
  obtain ⟨hheld, -, hworkers, hcounter⟩ := h
  refine ⟨hheld, ?_, ?_, nofun, fun _ => ⟨rfl, ?_⟩⟩
  · rw [hworkers, hcounter]
    rfl
  · rw [hworkers, hnone]
    rfl
  · unfold Quiet
    rw [hworkers]
    exact ⟨rfl, rfl, rfl⟩

theorem length_setWorker (pool : Pool) (k : ℕ) (w : Worker) :
    (pool.setWorker k w).workers.length = pool.workers.length := List.length_set

theorem count_setWorker {k : ℕ} {w : Worker} (hw : pool.workers[k]? = some w) (v x : Worker) :
    (pool.setWorker k v).workers.count x + (w == x).toNat =
      pool.workers.count x + (v == x).toNat := Workers.count_set_add hw v x

/-- A worker increments the counter while no other one is about to read it. -/
theorem Running.increment {k : ℕ} (h : pool.Running held coming)
    (hw : pool.workers[k]? = some .testing) (hnone : pool.workers.count .counted = 0) :
    Running held coming { pool.setWorker k .counted with counter := pool.counter + 1 } := by
  obtain ⟨hcounter, htestCount, hholding, hsettled⟩ := h
  have htesting : (pool.setWorker k .counted).workers.count .testing + 1 =
      pool.workers.count .testing + 0 := count_setWorker hw .counted .testing
  have hcounted : (pool.setWorker k .counted).workers.count .counted + 0 =
      pool.workers.count .counted + 1 := count_setWorker hw .counted .counted
  have hreleasing : (pool.setWorker k .counted).workers.count .releasing + 0 =
      pool.workers.count .releasing + 0 := count_setWorker hw .counted .releasing
  have hlength := length_setWorker pool k .counted
  constructor
  · show pool.counter + 1 + (pool.setWorker k .counted).workers.count .testing = _
    dsimp only
    omega
  · show pool.testCount = (pool.setWorker k .counted).workers.length + coming
    omega
  · intro hheld
    have hholding := hholding hheld
    dsimp only
    omega
  · intro hfree
    obtain ⟨-, hquiet, -, -⟩ := hsettled hfree
    omega

/-- A worker reads the counter: the last one is to give the lock back. -/
theorem Running.read {k : ℕ} (h : pool.Running held coming)
    (hw : pool.workers[k]? = some .counted) :
    Running held coming
      (pool.setWorker k (if pool.counter = pool.testCount then .releasing else .done)) := by
  obtain ⟨hcounter, htestCount, hholding, hsettled⟩ := h
  have hheld : held = true := by
    by_contra hnot
    have hquiet := (hsettled (Bool.eq_false_iff.mpr hnot)).2.2.1
    have hone : 1 ≤ pool.workers.count .counted := Workers.one_le_countP hw rfl
    omega
  have hholding := hholding hheld
  subst hheld
  by_cases hlast : pool.counter = pool.testCount
  · rw [if_pos hlast]
    have htesting : (pool.setWorker k .releasing).workers.count .testing + 0 =
        pool.workers.count .testing + 0 := count_setWorker hw .releasing .testing
    have hcounted : (pool.setWorker k .releasing).workers.count .counted + 1 =
        pool.workers.count .counted + 0 := count_setWorker hw .releasing .counted
    have hreleasing : (pool.setWorker k .releasing).workers.count .releasing + 0 =
        pool.workers.count .releasing + 1 := count_setWorker hw .releasing .releasing
    have hlength := length_setWorker pool k .releasing
    refine ⟨?_, ?_, fun _ => ?_, nofun⟩
    · show pool.counter + _ = _
      omega
    · show pool.testCount = _
      omega
    · omega
  · rw [if_neg hlast]
    have htesting : (pool.setWorker k .done).workers.count .testing + 0 =
        pool.workers.count .testing + 0 := count_setWorker hw .done .testing
    have hcounted : (pool.setWorker k .done).workers.count .counted + 1 =
        pool.workers.count .counted + 0 := count_setWorker hw .done .counted
    have hreleasing : (pool.setWorker k .done).workers.count .releasing + 0 =
        pool.workers.count .releasing + 0 := count_setWorker hw .done .releasing
    have hlength := length_setWorker pool k .done
    refine ⟨?_, ?_, fun _ => ?_, nofun⟩
    · show pool.counter + _ = _
      omega
    · show pool.testCount = _
      omega
    · omega

/-- The last worker gives the lock back. -/
theorem Running.release {k : ℕ} (h : pool.Running held coming)
    (hw : pool.workers[k]? = some .releasing) :
    held = true ∧ Running false coming (pool.setWorker k .done) := by
  obtain ⟨hcounter, htestCount, hholding, hsettled⟩ := h
  have hone : 1 ≤ pool.workers.count .releasing := Workers.one_le_countP hw rfl
  have hheld : held = true := by
    by_contra hnot
    have hquiet := (hsettled (Bool.eq_false_iff.mpr hnot)).2.2.2
    omega
  have hholding := hholding hheld
  have htesting : (pool.setWorker k .done).workers.count .testing + 0 =
      pool.workers.count .testing + 0 := count_setWorker hw .done .testing
  have hcounted : (pool.setWorker k .done).workers.count .counted + 0 =
      pool.workers.count .counted + 0 := count_setWorker hw .done .counted
  have hreleasing : (pool.setWorker k .done).workers.count .releasing + 1 =
      pool.workers.count .releasing + 0 := count_setWorker hw .done .releasing
  have hlength := length_setWorker pool k .done
  refine ⟨hheld, ?_, ?_, nofun, fun _ => ⟨by omega, by omega, by omega, by omega⟩⟩
  · show pool.counter + _ = _
    omega
  · show pool.testCount = _
    omega

end Pool

namespace Job

/-- What a job is in, when the lock is held on its account and when it is not. -/
def Part (held : Bool) (job : Job) : Prop :=
  match job.thread with
  | .urlStart _ | .urlLoop _ _ | .urlFull _ | .urlRest | .build _ | .prepare _ _ _ | .pass _ =>
    held = true ∧ job.pool.Quiet ∧ job.finishCalls = 0
  | .failed _ => held = true ∧ job.pool.Quiet ∧ job.finishCalls = 0 ∧ job.hasFinish = false
  | .reportFailure _ => held = false ∧ job.pool.Quiet ∧ job.finishCalls = 0 ∧ job.hasFinish = false
  | .startFull full tags _ =>
    job.pool.Starting held (full.toNat + tags.toNat) ∧ job.finishCalls = 0
  | .startTags tags _ => job.pool.Starting held (tags.toNat + 0) ∧ job.finishCalls = 0
  | .settle _ => job.pool.Starting held 0 ∧ job.finishCalls = 0
  | .await _ => job.pool.Running held 0 ∧ job.finishCalls = 0
  | .relock _ | .finish => held = false ∧ job.pool.Quiet ∧ job.finishCalls = 0
  | .speedStart _ _ | .speedLoop _ _ | .speedCheck _ _ | .speedBuild _ _ | .speedTest _
  | .speedNext _ _ | .speedUnlock =>
    held = true ∧ job.pool.Quiet ∧ job.finishCalls = 0 ∧ job.hasFinish = false
  | .speedRelock _ _ => False
  | .ended => held = false ∧ job.pool.Quiet ∧ job.finishCalls = job.hasFinish.toNat

/-- What the thread is in after `lambda`. -/
theorem part_returnTo {job : Job} (hquiet : job.pool.Quiet) (hfinish : job.finishCalls = 0)
    (next : After) : (job.returnTo next).Part false := by
  cases next <;> exact ⟨rfl, hquiet, hfinish⟩

/-- What a step of the thread does with the lock. -/
theorem threadStep_harmless {stop stop' held : Bool} {job job' : Job} {o : Outcome} {op : LockOp}
    (hharmless : job.Harmless stop (.thread o)) (h : job.threadStep stop o = some (job', op, stop'))
    (hfree : op = .acquire → held = false) (hpart : job.Part held) :
    (op = .release → held = true) ∧ job'.Part (op.after held) := by
  unfold threadStep at h
  unfold Harmless at hharmless
  unfold Part at hpart
  cases hthread : job.thread with
  | urlStart left =>
    simp only [hthread] at h hpart
    cases h
    exact ⟨nofun, hpart⟩
  | urlLoop left batch =>
    cases left with
    | zero =>
      simp only [hthread] at h hpart
      cases h
      exact ⟨nofun, hpart⟩
    | succ left =>
      simp only [hthread] at h hpart
      split_ifs at h <;> cases h <;> exact ⟨nofun, hpart⟩
  | urlFull left =>
    simp only [hthread] at h hpart hharmless
    rw [hharmless] at h
    cases h
    exact ⟨nofun, hpart⟩
  | urlRest =>
    simp only [hthread] at h hpart hharmless
    rw [hharmless] at h
    cases h
    exact ⟨nofun, hpart⟩
  | build next =>
    simp only [hthread] at h hpart hharmless
    cases hbuilt : o.built with
    | none =>
      rw [hbuilt] at h
      cases h
      exact ⟨nofun, hpart.1, hpart.2.1, hpart.2.2, hharmless hbuilt⟩
    | some built =>
      rw [hbuilt] at h
      cases h
      exact ⟨nofun, hpart⟩
  | failed next =>
    simp only [hthread] at h hpart
    cases h
    exact ⟨fun _ => hpart.1, rfl, hpart.2⟩
  | reportFailure next =>
    simp only [hthread] at h hpart
    cases h
    obtain ⟨rfl, hquiet, hfinish, hnone⟩ := hpart
    have hcalls : job.callFinish.finishCalls = 0 := by
      rw [callFinish, hfinish, hnone]
      rfl
    have hquiet' : job.callFinish.pool.Quiet := hquiet
    exact ⟨nofun, part_returnTo hquiet' hcalls next⟩
  | prepare full tags next =>
    simp only [hthread] at h hpart
    cases h
    obtain ⟨rfl, -, hfinish⟩ := hpart
    exact ⟨nofun, Pool.starting_empty _, hfinish⟩
  | startFull full tags next =>
    simp only [hthread] at h hpart
    cases h
    exact ⟨nofun, hpart.1.start full, hpart.2⟩
  | startTags tags next =>
    simp only [hthread] at h hpart
    cases h
    exact ⟨nofun, hpart.1.start tags, hpart.2⟩
  | settle next =>
    simp only [hthread] at h hpart
    cases h
    obtain ⟨hstarting, hfinish⟩ := hpart
    by_cases hnone : job.pool.testCount = 0
    · obtain ⟨hheld, hrunning⟩ := hstarting.settle hnone
      rw [if_pos hnone]
      exact ⟨fun _ => hheld, hrunning, hfinish⟩
    · rw [Pool.Starting, if_neg hnone] at hstarting
      rw [if_neg hnone]
      exact ⟨nofun, hstarting, hfinish⟩
  | await next =>
    simp only [hthread] at h hpart
    cases h
    obtain ⟨hrunning, hfinish⟩ := hpart
    exact ⟨nofun, rfl, (hrunning.settled (hfree rfl)).2, hfinish⟩
  | pass next =>
    simp only [hthread] at h hpart
    cases h
    exact ⟨fun _ => hpart.1, part_returnTo hpart.2.1 hpart.2.2 next⟩
  | relock left =>
    simp only [hthread] at h hpart
    cases h
    exact ⟨nofun, rfl, hpart.2⟩
  | finish =>
    simp only [hthread] at h hpart
    cases h
    obtain ⟨rfl, hquiet, hfinish⟩ := hpart
    refine ⟨nofun, rfl, hquiet, ?_⟩
    show job.finishCalls + _ = _
    rw [hfinish, Nat.zero_add]
    rfl
  | speedStart left testCurrent =>
    simp only [hthread] at h hpart
    split_ifs at h <;> cases h <;> exact ⟨nofun, hpart⟩
  | speedLoop left batch =>
    cases left with
    | zero =>
      simp only [hthread] at h hpart
      cases h
      exact ⟨nofun, hpart⟩
    | succ left =>
      simp only [hthread] at h hpart
      split_ifs at h <;> cases h <;> exact ⟨nofun, hpart⟩
  | speedCheck left batch =>
    simp only [hthread] at h hpart
    split_ifs at h <;> cases h <;> exact ⟨nofun, hpart⟩
  | speedBuild left batch =>
    simp only [hthread] at h hpart
    cases hbuilt : o.built <;> rw [hbuilt] at h <;> cases h <;> exact ⟨nofun, hpart⟩
  | speedTest left =>
    simp only [hthread] at h hpart
    cases h
    exact ⟨nofun, hpart⟩
  | speedNext left batch =>
    simp only [hthread] at h hpart hharmless
    rw [if_neg] at h
    · cases h
      exact ⟨nofun, hpart⟩
    · rintro ⟨hgoing, hleft⟩
      rcases hharmless with hstop | hnone
      · exact hgoing hstop
      · omega
  | speedRelock left batch =>
    simp only [hthread] at hpart
  | speedUnlock =>
    simp only [hthread] at h hpart
    cases h
    obtain ⟨rfl, hquiet, hfinish, hnone⟩ := hpart
    refine ⟨fun _ => rfl, rfl, hquiet, ?_⟩
    show job.finishCalls = job.hasFinish.toNat
    rw [hfinish, hnone]
    rfl
  | ended =>
    simp only [hthread] at h
    cases h

/-- What a step of a worker does with the pool. -/
theorem workerStep_running {stop stop' held : Bool} {job job' : Job} {k : ℕ} {op : LockOp}
    (hharmless : job.Harmless stop (.worker k))
    (h : job.workerStep stop k = some (job', op, stop')) :
    ∃ pool, job' = { job with pool := pool } ∧ pool.testCount = job.pool.testCount ∧
      job.pool.workers ≠ [] ∧ ¬ job.pool.Quiet ∧
      ∀ coming, job.pool.Running held coming →
        (op = .release → held = true) ∧ pool.Running (op.after held) coming := by
  unfold workerStep at h
  dsimp only at h
  have hnonempty : ∀ w, job.pool.workers[k]? = some w → job.pool.workers ≠ [] := by
    intro w hw hnil
    rw [hnil] at hw
    cases hw
  have hcounted : ∀ w, job.pool.workers[k]? = some w → 1 ≤ job.pool.workers.count w :=
    fun w hw => Workers.one_le_countP hw (beq_self_eq_true w)
  cases hw : job.pool.workers[k]? with
  | none =>
    rw [hw] at h
    cases h
  | some w =>
    have hone := hcounted w hw
    rw [hw] at h
    cases w with
    | testing =>
      cases h
      refine ⟨_, rfl, rfl, hnonempty _ hw, fun hquiet => ?_, fun coming hrunning => ⟨nofun, ?_⟩⟩
      · rw [hquiet.1] at hone
        cases hone
      · exact hrunning.increment hw (hharmless hw)
    | counted =>
      cases h
      refine ⟨_, rfl, rfl, hnonempty _ hw, fun hquiet => ?_, fun coming hrunning => ⟨nofun, ?_⟩⟩
      · rw [hquiet.2.1] at hone
        cases hone
      · exact hrunning.read hw
    | releasing =>
      cases h
      refine ⟨_, rfl, rfl, hnonempty _ hw, fun hquiet => ?_, fun coming hrunning => ?_⟩
      · rw [hquiet.2.2] at hone
        cases hone
      · obtain ⟨hheld, hreleased⟩ := hrunning.release hw
        exact ⟨fun _ => hheld, hreleased⟩
    | done => cases h

/-- What a step of a worker does with the lock. -/
theorem workerStep_harmless {stop stop' held : Bool} {job job' : Job} {k : ℕ} {op : LockOp}
    (hharmless : job.Harmless stop (.worker k)) (h : job.workerStep stop k = some (job', op, stop'))
    (hpart : job.Part held) : (op = .release → held = true) ∧ job'.Part (op.after held) := by
  obtain ⟨pool, rfl, htestCount, hnonempty, hbusy, hrunning⟩ :=
    @workerStep_running _ _ held _ _ _ _ hharmless h
  have hstarting : ∀ coming, job.pool.Starting held coming →
      (op = .release → held = true) ∧ pool.Starting (op.after held) coming := by
    intro coming hstarting
    unfold Pool.Starting at hstarting ⊢
    rw [htestCount]
    split_ifs at hstarting ⊢
    · exact absurd hstarting.2.2.1 hnonempty
    · exact hrunning coming hstarting
  unfold Part at hpart ⊢
  dsimp only
  cases hthread : job.thread <;> simp only [hthread] at hpart ⊢
  case startFull full tags next =>
    exact ⟨(hstarting _ hpart.1).1, (hstarting _ hpart.1).2, hpart.2⟩
  case startTags tags next =>
    exact ⟨(hstarting _ hpart.1).1, (hstarting _ hpart.1).2, hpart.2⟩
  case settle next => exact ⟨(hstarting _ hpart.1).1, (hstarting _ hpart.1).2, hpart.2⟩
  case await next => exact ⟨(hrunning _ hpart.1).1, (hrunning _ hpart.1).2, hpart.2⟩
  all_goals exact absurd hpart.2.1 hbusy

theorem step_harmless {stop stop' held : Bool} {job job' : Job} {i : JobAction} {op : LockOp}
    (hharmless : job.Harmless stop i) (h : job.step stop i = some (job', op, stop'))
    (hfree : op = .acquire → held = false) (hpart : job.Part held) :
    (op = .release → held = true) ∧ job'.Part (op.after held) := by
  cases i with
  | thread o => exact threadStep_harmless hharmless h hfree hpart
  | worker k => exact workerStep_harmless hharmless h hpart

/-! ## Progress -/

/-- A worker that has something to do can do it. -/
theorem worker_moves {stop : Bool} {job : Job} {w : Worker} (hw : w ≠ .done)
    (hone : 1 ≤ job.pool.workers.count w) :
    ∃ k job' op stop', job.workerStep stop k = some (job', op, stop') ∧ op ≠ .acquire := by
  obtain ⟨k, v, hv, hvw⟩ := Workers.exists_of_one_le_countP hone
  obtain rfl := beq_iff_eq.mp hvw
  refine ⟨k, ?_⟩
  unfold workerStep
  dsimp only
  rw [hv]
  cases v with
  | testing => exact ⟨_, _, _, rfl, nofun⟩
  | counted => exact ⟨_, _, _, rfl, nofun⟩
  | releasing => exact ⟨_, _, _, rfl, nofun⟩
  | done => exact absurd rfl hw

/-- A thread waits for nothing but the lock. -/
theorem thread_moves {stop : Bool} {job : Job} (hended : job.thread ≠ .ended) (o : Outcome) :
    ∃ job' op stop', job.threadStep stop o = some (job', op, stop') ∧
      (op = .acquire → (∃ next, job.thread = .await next) ∨ (∃ left, job.thread = .relock left) ∨
        ∃ left batch, job.thread = .speedRelock left batch) := by
  unfold threadStep
  cases hthread : job.thread with
  | urlLoop left batch =>
    cases left with
    | zero => exact ⟨_, _, _, rfl, nofun⟩
    | succ left =>
      dsimp only
      split_ifs <;> exact ⟨_, _, _, rfl, nofun⟩
  | speedLoop left batch =>
    cases left with
    | zero => exact ⟨_, _, _, rfl, nofun⟩
    | succ left =>
      dsimp only
      split_ifs <;> exact ⟨_, _, _, rfl, nofun⟩
  | build next =>
    dsimp only
    cases o.built <;> exact ⟨_, _, _, rfl, nofun⟩
  | speedBuild left batch =>
    dsimp only
    cases o.built <;> exact ⟨_, _, _, rfl, nofun⟩
  | settle next =>
    dsimp only
    split_ifs <;> exact ⟨_, _, _, rfl, nofun⟩
  | await next => exact ⟨_, _, _, rfl, fun _ => .inl ⟨next, rfl⟩⟩
  | relock left => exact ⟨_, _, _, rfl, fun _ => .inr (.inl ⟨left, rfl⟩)⟩
  | speedRelock left batch => exact ⟨_, _, _, rfl, fun _ => .inr (.inr ⟨left, batch, rfl⟩)⟩
  | ended => exact absurd hthread hended
  | urlFull left | urlRest | speedStart left testCurrent | speedCheck left batch
  | speedNext left batch =>
    dsimp only
    split_ifs <;> exact ⟨_, _, _, rfl, nofun⟩
  | _ => exact ⟨_, _, _, rfl, nofun⟩

/-- While a thread waits for a lock that is held on its account, a worker is left to give
    it back. -/
theorem waiting_worker {stop stop' : Bool} {job job' : Job} {o : Outcome} (hpart : job.Part true)
    (h : job.threadStep stop o = some (job', .acquire, stop')) :
    ∃ k job' op stop', job.workerStep stop k = some (job', op, stop') ∧ op ≠ .acquire := by
  have hended : job.thread ≠ .ended := by
    intro hthread
    simp only [Part, hthread] at hpart
    exact absurd hpart.1 (by decide)
  obtain ⟨_, op, _, hstep, hacquire⟩ := @thread_moves stop _ hended o
  have hop : op = .acquire := by
    rw [h] at hstep
    cases hstep
    rfl
  rcases hacquire hop with ⟨next, hthread⟩ | ⟨left, hthread⟩ | ⟨left, batch, hthread⟩
  · simp only [Part, hthread] at hpart
    have hholding := hpart.1.holding rfl
    rcases Nat.eq_zero_or_pos (job.pool.workers.count .testing) with hnone | htesting
    · rcases Nat.eq_zero_or_pos (job.pool.workers.count .counted) with hnone' | hcounted
      · exact worker_moves (w := .releasing) nofun (by omega)
      · exact worker_moves (w := .counted) nofun hcounted
    · exact worker_moves (w := .testing) nofun htesting
  · simp only [Part, hthread] at hpart
    exact absurd hpart.1 (by decide)
  · simp only [Part, hthread] at hpart

/-- A job that holds the lock goes on without taking it. -/
theorem holder_moves {stop : Bool} {job : Job} (hpart : job.Part true) :
    ∃ i job' op stop', job.step stop i = some (job', op, stop') ∧ op ≠ .acquire := by
  have hended : job.thread ≠ .ended := by
    intro hthread
    simp only [Part, hthread] at hpart
    exact absurd hpart.1 (by decide)
  obtain ⟨job', op, stop', hstep, -⟩ := @thread_moves stop _ hended ⟨true, none⟩
  by_cases hop : op = .acquire
  · subst hop
    obtain ⟨k, hworker⟩ := waiting_worker hpart hstep
    exact ⟨.worker k, hworker⟩
  · exact ⟨.thread ⟨true, none⟩, job', op, stop', hstep, hop⟩

theorem part_ended {held : Bool} {job : Job} (hpart : job.Part held)
    (hended : job.thread = .ended) :
    held = false ∧ job.finishCalls = job.hasFinish.toNat := by
  simp only [Part, hended] at hpart
  exact ⟨hpart.1, hpart.2.2⟩

theorem part_finishCalls {held : Bool} {job : Job} (hpart : job.Part held)
    (hended : job.thread ≠ .ended) : job.finishCalls = 0 := by
  cases hthread : job.thread <;> simp only [Part, hthread] at hpart
  case ended => exact absurd hthread hended
  case startFull => exact hpart.2
  case startTags => exact hpart.2
  case settle => exact hpart.2
  case await => exact hpart.2
  case failed => exact hpart.2.2.1
  case reportFailure => exact hpart.2.2.1
  all_goals first | exact hpart.2.2 | exact hpart.2.2.1

end Job

/-! ## The protocol -/

/-- What the tests keep to. -/
structure Protocol (s : TestState) : Prop where
  /-- The lock is never given back while it is not held. -/
  held : s.misused = false
  /-- A job whose thread waits for the lock, while the lock is held on its own account, has a
      worker that can go on. -/
  waits : ∀ k job, s.parts[k]? = some job → s.owner = some k →
    (∃ o job' stop', job.threadStep s.shared o = some (job', .acquire, stop')) →
    ∃ j job' op stop', job.workerStep s.shared j = some (job', op, stop')
  /-- A job whose thread has ended does not hold the lock, and has called `finish` once, if it
      was given one. -/
  ended : ∀ k job, s.parts[k]? = some job → job.thread = .ended →
    s.owner ≠ some k ∧ job.finishCalls = job.hasFinish.toNat
  /-- `finish` has not been called before. -/
  finish : ∀ job ∈ s.parts, job.thread ≠ .ended → job.finishCalls = 0
  /-- Some job can go on until all of them have ended. -/
  moves : (∃ job ∈ s.parts, job.thread ≠ .ended) →
    ∃ k i, (tests.step s (.job k i)).isSome = true
  /-- Then a new test can start. -/
  starts : (∀ job ∈ s.parts, job.thread = .ended) → s.owner = none

theorem guarded_init : Locked.Guarded Job.Part TestState.init := ⟨rfl, nofun, nofun⟩

theorem guarded_step {s s' : TestState} {i : TestAction} (h : Locked.Guarded Job.Part s)
    (hharmless : Harmless s i) (hstep : tests.step s i = some s') : Locked.Guarded Job.Part s' := by
  cases i with
  | urltest count hasFinish =>
    obtain rfl := Option.some.inj hstep
    split_ifs
    · exact h
    · exact h.of_start ⟨rfl, ⟨rfl, rfl, rfl⟩, rfl⟩
  | speedtest count testCurrent =>
    obtain rfl := Option.some.inj hstep
    split_ifs
    · exact h
    · exact h.of_start ⟨rfl, ⟨rfl, rfl, rfl⟩, rfl, rfl⟩
  | stopTests =>
    obtain rfl := Option.some.inj hstep
    exact h.of_share true
  | job k i =>
    exact h.of_stepAt (fun job job' op shared hjob hlocal held hfree hpart =>
      Job.step_harmless (hharmless job hjob) hlocal hfree hpart) hstep

theorem protocol_of_guarded {s : TestState} (h : Locked.Guarded Job.Part s) : Protocol s where
  held := h.proper
  waits := by
    rintro k job hjob howner ⟨o, job', stop', hstep⟩
    have hpart := h.parts k job hjob
    rw [decide_eq_true howner] at hpart
    obtain ⟨j, job'', op, stop'', hworker, -⟩ := Job.waiting_worker hpart hstep
    exact ⟨j, job'', op, stop'', hworker⟩
  ended := by
    intro k job hjob hended
    obtain ⟨hheld, hfinish⟩ := Job.part_ended (h.parts k job hjob) hended
    exact ⟨of_decide_eq_false hheld, hfinish⟩
  finish := by
    intro job hmem hended
    obtain ⟨k, hjob⟩ := List.mem_iff_getElem?.mp hmem
    exact Job.part_finishCalls (h.parts k job hjob) hended
  moves := by
    intro hleft
    have hfree : ∀ job : Job, job.Part false → ¬ job.thread = .ended →
        ∃ i job' op stop', job.step s.shared i = some (job', op, stop') := by
      intro job _ hended
      obtain ⟨job', op, stop', hstep, -⟩ := Job.thread_moves hended ⟨true, none⟩
      exact ⟨.thread ⟨true, none⟩, job', op, stop', hstep⟩
    exact h.moves (fun job => Job.holder_moves) hfree hleft
  starts := by
    intro hall
    exact h.free (fun held job hpart hended => (Job.part_ended hpart hended).1) hall

/-- **Tests.** A run of harmless steps keeps the protocol. -/
theorem tests_harmless {is : List TestAction} {s : TestState}
    (hharmless : tests.Along Harmless TestState.init is)
    (hrun : tests.run TestState.init is = some s) : Protocol s :=
  protocol_of_guarded
    (Machine.run_invariant Harmless (Locked.Guarded Job.Part)
      (fun _ _ _ hinv hok hstep => guarded_step hinv hok hstep) guarded_init hharmless hrun)

/-- A latency test with two workers, from its start to its end. -/
def sampleRun : List TestAction :=
  let thread : TestAction := .job 0 (.thread ⟨true, some (true, true)⟩)
  let worker : ℕ → TestAction := fun k => .job 0 (.worker k)
  .urltest 1 true :: List.replicate 9 thread ++ [worker 0, worker 0, worker 1, worker 1, worker 1] ++
    List.replicate 3 thread

theorem tests_harmless_sample :
    ∃ s, tests.run TestState.init sampleRun = some s ∧ Protocol s ∧
      ∃ job, s.parts = [job] ∧ job.thread = .ended ∧ job.finishCalls = 1 := by
  have hharmless : tests.Along Harmless TestState.init sampleRun := by decide
  exact ⟨_, rfl, tests_harmless hharmless rfl, _, rfl, rfl, rfl⟩

/-- What steps do that are not harmless: a latency test that sees a request to stop keeps the
    lock; one whose configuration cannot be built calls `finish` twice; two workers that both
    read the counter at its target give the lock back twice; a speed test of 26 profiles waits
    for itself. -/
theorem protocol_broken :
    let thread (built : Option (Bool × Bool)) : TestAction := .job 0 (.thread ⟨true, built⟩)
    let worker (k : ℕ) : TestAction := .job 0 (.worker k)
    let both := thread (some (true, true))
    (∃ s, tests.run TestState.init
        ([.urltest 1 true, both, .stopTests] ++ List.replicate 4 both) = some s ∧
      ∃ job, s.parts = [job] ∧ job.thread = .ended ∧ s.owner = some 0) ∧
    (∃ s, tests.run TestState.init (.urltest 1 true :: List.replicate 8 (thread none)) = some s ∧
      ∃ job, s.parts = [job] ∧ job.thread = .ended ∧ job.finishCalls = 2) ∧
    (∃ s, tests.run TestState.init (.urltest 1 true :: List.replicate 9 both ++
        [worker 0, worker 1, worker 0, worker 1, worker 0, worker 1]) = some s ∧
      s.misused = true) ∧
    (∃ s, tests.run TestState.init (.speedtest 26 false :: List.replicate 30 both) = some s ∧
      ∃ job, s.parts = [job] ∧ job.thread = .speedRelock 1 0 ∧ job.pool.workers = [] ∧
        s.owner = some 0) := by
  refine ⟨⟨_, rfl, _, rfl, rfl, rfl⟩, ⟨_, rfl, _, rfl, rfl, rfl⟩, ⟨_, rfl, rfl⟩, ?_⟩
  exact ⟨_, rfl, _, rfl, rfl, rfl, rfl⟩

end NekoBox.Window
