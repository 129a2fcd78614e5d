import NekoBox.Lib.Progress
import NekoBox.Lib.Workers

/-!
# Batch tests

`BatchURLTest` and `BatchIPTest` (`test_utils.go`, lines 112–192 and 471–539) and
the bounds `server.Test` and `server.IPTest` give them. The two functions differ in
what a test is only. The caller of a batch and its goroutines are a machine whose
actions are the choices of the scheduler, the outcomes of the tests and the
cancellation of the context. A test ends, since its client has a timeout.

* `Inv`: who holds a slot of the limiter, who the wait group waits for, who holds
  the lock of the map, and which tags have a result;
* `batch_completes`: a batch with a slot returns;
* `inFlight_reaches`: a batch fills its slots if there are enough outbounds;
* `batch_iff`: when a batch keeps to what the server promises.
-/

namespace NekoBox.Core

open NekoBox.Lib

/-! ## Results -/

/-- `URLTestResult` and `IPTestResult`: the value is a duration in nanoseconds, or
    what the service answers. -/
structure TestResult (α : Type) where
  value : α
  tag : String
  error : Option String

/-- `IPInfo`, without the fields that no response has. -/
structure IPInfo where
  ip : String
  countryCode : String
  deriving Inhabited

structure URLTestResp where
  outboundTag : String
  latencyMs : ℤ
  error : String

structure IPTestResp where
  outboundTag : String
  ip : String
  countryCode : String
  error : String

namespace TestResult

variable {α β : Type}

def aborted [Inhabited α] : TestResult α := ⟨default, "", some "test aborted"⟩

def notFound [Inhabited α] (tag : String) : TestResult α :=
  ⟨default, tag, some ("no outbound with tag " ++ tag ++ " found")⟩

/-- Lines 334–345 of `server.go`; the milliseconds become an `int32`. -/
def urlResp (tag : String) (data : TestResult ℤ) : URLTestResp :=
  ⟨tag, (data.value.tdiv 1000000).bmod (2 ^ 32), data.error.getD ""⟩

/-- Lines 260–274 of `server.go` -/
def ipResp (tag : String) (data : TestResult IPInfo) : IPTestResp :=
  ⟨tag, data.value.ip, data.value.countryCode, data.error.getD ""⟩

/-- The loops over the results; `none` is the panic on a missing result or tag. -/
def responses (resp : String → TestResult α → β) :
    List String → List (Option (TestResult α)) → Option (List β)
  | _, [] => some []
  | [], _ :: _ => none
  | tag :: tags, data :: results =>
    data.bind fun data => (responses resp tags results).map (resp tag data :: ·)

end TestResult

/-! ## The requests -/

def maxConcurrentTests : ℤ := 100

/-- The two methods of the server. -/
inductive Method where
  | test
  | ipTest
  deriving DecidableEq

/-- Lines 327–330 and 253–256 of `server.go`. -/
def Method.maxConcurrency : Method → ℤ → ℤ
  | .test, requested => if requested ≥ 500 ∨ requested = 0 then maxConcurrentTests else requested
  | .ipTest, requested =>
    if requested ≥ maxConcurrentTests ∨ requested = 0 then maxConcurrentTests else requested

/-- How many tests may be in flight. -/
def allowed (requested : ℤ) : ℤ :=
  if requested = 0 then maxConcurrentTests else min requested maxConcurrentTests

/-! ## A batch -/

namespace Batch

variable {α : Type}

/-- Where a goroutine stands. -/
inductive Phase (α : Type) where
  /-- It looks its outbound up. -/
  | started
  /-- Its test is under way. -/
  | testing
  /-- It waits for `resAccess`. -/
  | finished (u : TestResult α)
  | locked (u : TestResult α)
  /-- `resMap[t]` is set, and the result is reported next. -/
  | stored (u : TestResult α)
  | reported
  /-- It takes a value out of `limiter`. -/
  | unlocked
  /-- The deferred `wg.Done` is left. -/
  | released
  | done

/-- Where the caller stands; the tags are those of the loop that are left, the first
    one being in work in all phases but `select`. -/
inductive Caller (α : Type) where
  | select (rest : List String)
  /-- `wg.Done` has been called for an aborted test. -/
  | aborting (tag : String) (rest : List String)
  | abortLocked (tag : String) (rest : List String)
  | abortStored (rest : List String)
  /-- After the pause a value is sent to `limiter`. -/
  | sleeping (tag : String) (rest : List String)
  | acquired (tag : String) (rest : List String)
  | waiting
  | returned (res : List (Option (TestResult α)))
  | panicked

structure Worker (α : Type) where
  tag : String
  phase : Phase α

/-- `slots` is the number of values in `limiter`, `count` the counter of the wait
    group and `locked` the state of `resAccess`. -/
structure State (α : Type) where
  caller : Caller α
  cancelled : Bool
  slots : ℕ
  count : ℕ
  locked : Bool
  resMap : String → Option (TestResult α)
  reporter : List (TestResult α)
  workers : List (Worker α)

/-- The context is cancelled, the caller goes on, or a goroutine does; the outcome is
    that of its test. -/
inductive Action (α : Type) where
  | cancel
  | caller
  | worker (k : ℕ) (outcome : α × Option String)

/-- `make(chan struct{}, maxConcurrency)` panics on a negative size. -/
def start (maxConcurrency : ℤ) (outboundTags : List String) : State α where
  caller := if maxConcurrency < 0 then .panicked else .select outboundTags
  cancelled := false
  slots := 0
  count := outboundTags.length
  locked := false
  resMap := fun _ => none
  reporter := []
  workers := []

namespace State

/-- `wg.Done` panics if the counter gets negative. -/
def wgDone (s : State α) (next : State α) : State α :=
  if s.count = 0 then { s with caller := .panicked } else { next with count := s.count - 1 }

def store (s : State α) (tag : String) (u : TestResult α) : State α :=
  { s with resMap := Function.update s.resMap tag (some u) }

def setPhase (s : State α) (k : ℕ) (w : Worker α) (phase : Phase α) : State α :=
  { s with workers := s.workers.set k { w with phase := phase } }

end State

section Step

variable [Inhabited α] (found : String → Bool) (outboundTags : List String) (capacity : ℕ)

/-- The caller goes on; `none` if it is blocked or has ended. -/
def callerStep (s : State α) : Option (State α) :=
  match s.caller with
  | .select [] => some { s with caller := .waiting }
  | .select (tag :: rest) =>
    if s.cancelled then some (s.wgDone { s with caller := .aborting tag rest })
    else some { s with caller := .sleeping tag rest }
  | .aborting tag rest =>
    if s.locked then none
    else some { s with caller := .abortLocked tag rest, locked := true }
  | .abortLocked tag rest =>
    some { s.store tag .aborted with caller := .abortStored rest }
  | .abortStored rest => some { s with caller := .select rest, locked := false }
  | .sleeping tag rest =>
    if s.slots < capacity then
      some { s with caller := .acquired tag rest, slots := s.slots + 1 }
    else none
  | .acquired tag rest =>
    some { s with caller := .select rest, workers := s.workers ++ [⟨tag, .started⟩] }
  | .waiting =>
    if s.count = 0 then some { s with caller := .returned (outboundTags.map s.resMap) }
    else none
  | .returned _ => none
  | .panicked => none

/-- Goroutine `k` goes on. -/
def workerStep (s : State α) (k : ℕ) (w : Worker α) (outcome : α × Option String) :
    Option (State α) :=
  match w.phase with
  | .started =>
    if found w.tag then some (s.setPhase k w .testing)
    else some (s.setPhase k w (.finished (.notFound w.tag)))
  | .testing => some (s.setPhase k w (.finished ⟨outcome.1, w.tag, outcome.2⟩))
  | .finished u =>
    if s.locked then none else some { s.setPhase k w (.locked u) with locked := true }
  | .locked u => some ((s.store w.tag u).setPhase k w (.stored u))
  | .stored u =>
    some { s.setPhase k w .reported with reporter := s.reporter ++ [u] }
  | .reported => some { s.setPhase k w .unlocked with locked := false }
  | .unlocked =>
    if s.slots = 0 then none else some { s.setPhase k w .released with slots := s.slots - 1 }
  | .released => some (s.wgDone (s.setPhase k w .done))
  | .done => none

/-- Nothing goes on after a panic; a context is cancelled once. -/
def step (s : State α) : Action α → Option (State α)
  | .cancel => if s.cancelled then none else some { s with cancelled := true }
  | .caller => callerStep outboundTags capacity s
  | .worker k outcome =>
    match s.caller with
    | .panicked => none
    | _ => (s.workers[k]?).bind fun w => workerStep found s k w outcome

def machine : Machine (State α) (Action α) := ⟨step found outboundTags capacity⟩

end Step

/-! ## Counting goroutines -/

namespace Phase

/-- A value in `limiter` stands for the goroutine. -/
@[simp]
def holdsSlot : Phase α → Bool
  | .released => false
  | .done => false
  | _ => true

/-- The wait group waits for it. -/
@[simp]
def pending : Phase α → Bool
  | .done => false
  | _ => true

/-- It holds `resAccess`. -/
@[simp]
def holdsLock : Phase α → Bool
  | .locked _ => true
  | .stored _ => true
  | .reported => true
  | _ => false

/-- It has not set its result. -/
@[simp]
def unstored : Phase α → Bool
  | .started => true
  | .testing => true
  | .finished _ => true
  | .locked _ => true
  | _ => false

@[simp]
def inTest : Phase α → Bool
  | .testing => true
  | _ => false

/-- The result it carries. -/
@[simp]
def result : Phase α → Option (TestResult α)
  | .finished u => some u
  | .locked u => some u
  | .stored u => some u
  | _ => none

/-- The steps that are left. -/
@[simp]
def left : Phase α → ℕ
  | .started => 8
  | .testing => 7
  | .finished _ => 6
  | .locked _ => 5
  | .stored _ => 4
  | .reported => 3
  | .unlocked => 2
  | .released => 1
  | .done => 0

end Phase

namespace State

/-- The goroutines whose phase has a property. -/
def countPhase (s : State α) (p : Phase α → Bool) : ℕ := s.workers.countP fun w => p w.phase

/-- The tests under way. -/
def inFlight (s : State α) : ℕ := s.countPhase Phase.inTest

end State

theorem countPhase_setPhase {s : State α} {k : ℕ} {w : Worker α} (hw : s.workers[k]? = some w)
    (p : Phase α → Bool) (phase : Phase α) :
    (s.setPhase k w phase).countPhase p + (p w.phase).toNat =
      s.countPhase p + (p phase).toNat :=
  Workers.countP_set_add hw (fun w => p w.phase) { w with phase := phase }

theorem countPhase_append {s s' : State α} {w : Worker α} (h : s'.workers = s.workers ++ [w])
    (p : Phase α → Bool) : s'.countPhase p = s.countPhase p + (p w.phase).toNat := by
  unfold State.countPhase
  rw [h, List.countP_append, List.countP_singleton]
  cases p w.phase <;> rfl

theorem le_countPhase {s : State α} {k : ℕ} {w : Worker α} (hw : s.workers[k]? = some w)
    {p : Phase α → Bool} (hp : p w.phase = true) : 1 ≤ s.countPhase p :=
  Workers.one_le_countP (p := fun w => p w.phase) hw hp

/-! ## What holds in every state -/

namespace Caller

/-- The caller has sent to `limiter` for a goroutine that is not there yet. -/
@[simp]
def slot : Caller α → ℕ
  | .acquired _ _ => 1
  | _ => 0

/-- The calls of `wg.Done` for tags without a goroutine. -/
@[simp]
def owed : Caller α → ℕ
  | .select rest => rest.length
  | .aborting _ rest => rest.length
  | .abortLocked _ rest => rest.length
  | .abortStored rest => rest.length
  | .sleeping _ rest => rest.length + 1
  | .acquired _ rest => rest.length + 1
  | _ => 0

@[simp]
def lock : Caller α → ℕ
  | .abortLocked _ _ => 1
  | .abortStored _ => 1
  | _ => 0

/-- The tags that have neither a goroutine nor a result. -/
@[simp]
def todo : Caller α → List String
  | .select rest => rest
  | .aborting tag rest => tag :: rest
  | .abortLocked tag rest => tag :: rest
  | .abortStored rest => rest
  | .sleeping tag rest => tag :: rest
  | .acquired tag rest => tag :: rest
  | _ => []

/-- The steps that are left, those of the goroutines to come included. -/
@[simp]
def left : Caller α → ℕ
  | .select rest => 13 * rest.length + 2
  | .aborting _ rest => 13 * rest.length + 5
  | .abortLocked _ rest => 13 * rest.length + 4
  | .abortStored rest => 13 * rest.length + 3
  | .sleeping _ rest => 13 * rest.length + 12
  | .acquired _ rest => 13 * rest.length + 11
  | .waiting => 1
  | _ => 0

end Caller

variable [Inhabited α]

/-- A result that may stand for a tag. -/
def IsFor (tag : String) (u : TestResult α) : Prop := u.tag = tag ∨ u = .aborted

/-- The results of a batch: one for each tag, in the order of the tags. -/
def Answers (outboundTags : List String) (res : List (Option (TestResult α))) : Prop :=
  ∃ l, res = l.map some ∧ List.Forall₂ IsFor outboundTags l

/-- The counters. -/
structure Counts (capacity : ℕ) (s : State α) : Prop where
  slots : s.slots = s.countPhase Phase.holdsSlot + s.caller.slot
  within : s.slots ≤ capacity
  count : s.count = s.caller.owed + s.countPhase Phase.pending
  lock : s.locked.toNat = s.countPhase Phase.holdsLock + s.caller.lock

/-- The results, and the tags the goroutines are for. -/
structure Recorded (found : String → Bool) (outboundTags : List String) (s : State α) : Prop where
  handled : ∀ tag ∈ outboundTags, tag ∈ s.caller.todo ∨
    (∃ w ∈ s.workers, w.tag = tag ∧ w.phase.unstored = true) ∨ (s.resMap tag).isSome = true
  named : ∀ tag u, s.resMap tag = some u → IsFor tag u
  carried : ∀ w ∈ s.workers, ∀ u, w.phase.result = some u → u.tag = w.tag
  spawned : (s.workers.map Worker.tag ++ s.caller.todo).Sublist outboundTags
  tested : ∀ w ∈ s.workers, w.phase.inTest = true → found w.tag = true

structure Inv (found : String → Bool) (capacity : ℕ) (outboundTags : List String) (s : State α) :
    Prop where
  counts : Counts capacity s
  recorded : Recorded found outboundTags s
  alive : s.caller ≠ .panicked
  answered : ∀ res, s.caller = .returned res → Answers outboundTags res

variable {found : String → Bool} {outboundTags : List String} {capacity : ℕ} {s s' : State α}
  {k : ℕ} {w : Worker α}

/-- What a step of a goroutine does to what is shared. -/
structure Moves (found : String → Bool) (s s' : State α) (k : ℕ) (w : Worker α) (phase : Phase α) :
    Prop where
  caller : s'.caller = s.caller
  cancelled : s'.cancelled = s.cancelled
  workers : s'.workers = s.workers.set k { w with phase := phase }
  slots : s'.slots + w.phase.holdsSlot.toNat = s.slots + phase.holdsSlot.toNat
  within : s'.slots ≤ s.slots
  count : s'.count + w.phase.pending.toNat = s.count + phase.pending.toNat
  lock : s'.locked.toNat + w.phase.holdsLock.toNat = s.locked.toNat + phase.holdsLock.toNat
  resMap : s'.resMap = s.resMap ∨
    ∃ u, w.phase.result = some u ∧ s'.resMap = Function.update s.resMap w.tag (some u)
  kept : w.phase.unstored = true → phase.unstored = true ∨ (s'.resMap w.tag).isSome = true
  carried : ∀ u, phase.result = some u → w.phase.result = some u ∨ u.tag = w.tag
  tested : phase.inTest = true → found w.tag = true
  left : phase.left < w.phase.left

theorem workerStep_moves {outcome : α × Option String} (hinv : Inv found capacity outboundTags s)
    (hw : s.workers[k]? = some w) (h : workerStep found s k w outcome = some s') :
    ∃ phase, Moves found s s' k w phase := by
  obtain ⟨⟨hslots, -, hcount, hlock⟩, -, -, -⟩ := hinv
  unfold workerStep at h
  cases hphase : w.phase with
  | started =>
    simp only [hphase] at h
    split_ifs at h with hfound
    · rw [← Option.some.inj h]
      exact ⟨.testing, by constructor <;> simp [State.setPhase, hphase, hfound]⟩
    · rw [← Option.some.inj h]
      exact ⟨.finished (.notFound w.tag),
        by constructor <;> simp [State.setPhase, hphase, TestResult.notFound]⟩
  | testing =>
    simp only [hphase] at h
    rw [← Option.some.inj h]
    exact ⟨.finished ⟨outcome.1, w.tag, outcome.2⟩,
      by constructor <;> simp [State.setPhase, hphase]⟩
  | finished u =>
    simp only [hphase] at h
    split_ifs at h with hfree
    rw [← Option.some.inj h]
    exact ⟨.locked u, by constructor <;> simp [State.setPhase, hphase, hfree]⟩
  | locked u =>
    simp only [hphase] at h
    rw [← Option.some.inj h]
    exact ⟨.stored u, by constructor <;> simp [State.setPhase, State.store, hphase]⟩
  | stored u =>
    simp only [hphase] at h
    rw [← Option.some.inj h]
    exact ⟨.reported, by constructor <;> simp [State.setPhase, hphase]⟩
  | reported =>
    simp only [hphase] at h
    rw [← Option.some.inj h]
    have hlocked : s.locked = true := by
      have hholder : 1 ≤ s.countPhase Phase.holdsLock := le_countPhase hw (by rw [hphase]; rfl)
      apply Bool.toNat_eq_one.mp
      have hbit : s.locked.toNat ≤ 1 := Bool.toNat_le s.locked
      omega
    exact ⟨.unlocked, by constructor <;> simp [State.setPhase, hphase, hlocked]⟩
  | unlocked =>
    simp only [hphase] at h
    split_ifs at h with hempty
    rw [← Option.some.inj h]
    exact ⟨.released, by constructor <;> simp [State.setPhase, hphase]; omega⟩
  | released =>
    simp only [hphase] at h
    have hpositive : s.count ≠ 0 := by
      have hpending : 1 ≤ s.countPhase Phase.pending := le_countPhase hw (by rw [hphase]; rfl)
      omega
    rw [State.wgDone, if_neg hpositive] at h
    rw [← Option.some.inj h]
    exact ⟨.done, by constructor <;> simp [State.setPhase, hphase]; omega⟩
  | done =>
    simp only [hphase] at h
    cases h

omit [Inhabited α] in
theorem countPhase_moves {phase : Phase α} (hw : s.workers[k]? = some w)
    (h : Moves found s s' k w phase) (p : Phase α → Bool) :
    s'.countPhase p + (p w.phase).toNat = s.countPhase p + (p phase).toNat := by
  have hset := countPhase_setPhase hw p phase
  unfold State.countPhase at *
  rwa [h.workers]

omit [Inhabited α] in
theorem Counts.moves {phase : Phase α} (hw : s.workers[k]? = some w)
    (hmoves : Moves found s s' k w phase) (h : Counts capacity s) : Counts capacity s' := by
  have hslots := countPhase_moves hw hmoves Phase.holdsSlot
  have hpending := countPhase_moves hw hmoves Phase.pending
  have hlocks := countPhase_moves hw hmoves Phase.holdsLock
  obtain ⟨hslot, hwithin, hcount, hlock⟩ := h
  have hslot' := hmoves.slots
  have hcount' := hmoves.count
  have hlock' := hmoves.lock
  constructor
  · rw [hmoves.caller]
    omega
  · exact hmoves.within.trans hwithin
  · rw [hmoves.caller]
    omega
  · rw [hmoves.caller]
    omega

/-- A result stays in the hands of its goroutine until it is in the map. -/
theorem Recorded.moves {phase : Phase α} (hw : s.workers[k]? = some w)
    (hmoves : Moves found s s' k w phase) (h : Recorded found outboundTags s) :
    Recorded found outboundTags s' := by
  have hmem : w ∈ s.workers := List.mem_of_getElem? hw
  have hmoved : { w with phase := phase } ∈ s'.workers := by
    rw [hmoves.workers]
    exact Workers.mem_set_self hw _
  constructor
  · intro tag htag
    rw [hmoves.caller]
    rcases h.handled tag htag with htodo | ⟨v, hv, rfl, hunstored⟩ | hsome
    · exact .inl htodo
    · rcases Workers.mem_or_mem_set hw hv { w with phase := phase } with rfl | hstays
      · rcases hmoves.kept hunstored with hphase | hsome
        · exact .inr (.inl ⟨_, hmoved, rfl, hphase⟩)
        · exact .inr (.inr hsome)
      · rw [← hmoves.workers] at hstays
        exact .inr (.inl ⟨v, hstays, rfl, hunstored⟩)
    · refine .inr (.inr ?_)
      rcases hmoves.resMap with hmap | ⟨u, -, hmap⟩
      · rwa [hmap]
      · rw [hmap, Function.update_apply]
        split
        · rfl
        · exact hsome
  · intro tag u hu
    rcases hmoves.resMap with hmap | ⟨v, hv, hmap⟩
    · rw [hmap] at hu
      exact h.named tag u hu
    · rw [hmap, Function.update_apply] at hu
      split at hu
      · next htag =>
        rw [← Option.some.inj hu, htag]
        exact .inl (h.carried w hmem v hv)
      · exact h.named tag u hu
  · intro v hv u hu
    rw [hmoves.workers] at hv
    rcases List.mem_or_eq_of_mem_set hv with hold | rfl
    · exact h.carried v hold u hu
    · rcases hmoves.carried u hu with hown | htag
      · exact h.carried w hmem u hown
      · exact htag
  · have htags : s'.workers.map Worker.tag = s.workers.map Worker.tag := by
      rw [hmoves.workers, List.map_set]
      refine List.ext_getElem? fun j => ?_
      by_cases hj : k = j
      · subst hj
        simp [List.getElem?_set_self', hw]
      · rw [List.getElem?_set_ne hj]
    rw [htags, hmoves.caller]
    exact h.spawned
  · intro v hv htest
    rw [hmoves.workers] at hv
    rcases List.mem_or_eq_of_mem_set hv with hold | rfl
    · exact h.tested v hold htest
    · exact hmoves.tested htest

theorem Inv.moves {phase : Phase α} (hw : s.workers[k]? = some w)
    (hmoves : Moves found s s' k w phase) (h : Inv found capacity outboundTags s) :
    Inv found capacity outboundTags s' := by
  refine ⟨h.counts.moves hw hmoves, h.recorded.moves hw hmoves, ?_, ?_⟩
  · rw [hmoves.caller]
    exact h.alive
  · rw [hmoves.caller]
    exact h.answered

/-- Once the wait group is at zero, each tag has a result. -/
theorem answers_of_count (h : Inv found capacity outboundTags s) (hcaller : s.caller = .waiting)
    (hcount : s.count = 0) : Answers outboundTags (outboundTags.map s.resMap) := by
  have hidle : s.countPhase Phase.pending = 0 := by
    have hcounted := h.counts.count
    omega
  have hsome : ∀ tag ∈ outboundTags, (s.resMap tag).isSome = true := by
    intro tag htag
    rcases h.recorded.handled tag htag with htodo | ⟨w, hw, -, hunstored⟩ | hsome
    · rw [hcaller] at htodo
      exact absurd htodo List.not_mem_nil
    · have hdone : ¬ w.phase.pending = true := List.countP_eq_zero.mp hidle w hw
      cases hphase : w.phase <;> rw [hphase] at hunstored hdone <;> simp at hunstored hdone
    · exact hsome
  refine ⟨outboundTags.map fun tag => (s.resMap tag).getD .aborted, ?_, ?_⟩
  · rw [List.map_map]
    refine List.map_congr_left fun tag htag => ?_
    obtain ⟨u, hu⟩ := Option.isSome_iff_exists.mp (hsome tag htag)
    simp [hu]
  · rw [List.forall₂_map_right_iff, List.forall₂_same]
    intro tag htag
    obtain ⟨u, hu⟩ := Option.isSome_iff_exists.mp (hsome tag htag)
    rw [hu]
    exact h.recorded.named tag u hu

/-- A step of the caller that leaves the goroutines and the map alone. -/
theorem Recorded.caller (h : Recorded found outboundTags s) (hworkers : s'.workers = s.workers)
    (hmap : s'.resMap = s.resMap) (htodo : s'.caller.todo = s.caller.todo) :
    Recorded found outboundTags s' := by
  constructor
  · rw [hworkers, hmap, htodo]
    exact h.handled
  · rw [hmap]
    exact h.named
  · rw [hworkers]
    exact h.carried
  · rw [hworkers, htodo]
    exact h.spawned
  · rw [hworkers]
    exact h.tested

/-- An aborted test has its result. -/
theorem Recorded.abort {tag : String} {rest : List String} (h : Recorded found outboundTags s)
    (hcaller : s.caller = .abortLocked tag rest) :
    Recorded found outboundTags { s.store tag .aborted with caller := .abortStored rest } := by
  constructor
  · intro t ht
    show _ ∨ _ ∨ (Function.update s.resMap tag (some .aborted) t).isSome = true
    rw [Function.update_apply]
    rcases h.handled t ht with htodo | hworker | hsome
    · rw [hcaller] at htodo
      rcases List.mem_cons.mp htodo with rfl | hrest
      · exact .inr (.inr (by rw [if_pos rfl]; rfl))
      · exact .inl hrest
    · exact .inr (.inl hworker)
    · refine .inr (.inr ?_)
      split
      · rfl
      · exact hsome
  · intro t u hu
    change Function.update s.resMap tag (some .aborted) t = some u at hu
    rw [Function.update_apply] at hu
    split at hu
    · exact .inr (Option.some.inj hu).symm
    · exact h.named t u hu
  · exact h.carried
  · have hspawned := h.spawned
    rw [hcaller] at hspawned
    exact ((List.Sublist.refl _).append (List.sublist_cons_self tag rest)).trans hspawned
  · exact h.tested

/-- A goroutine takes its tag over. -/
theorem Recorded.spawn {tag : String} {rest : List String} (h : Recorded found outboundTags s)
    (hcaller : s.caller = .acquired tag rest) :
    Recorded found outboundTags
      { s with caller := .select rest, workers := s.workers ++ [⟨tag, .started⟩] } := by
  constructor
  · intro t ht
    rcases h.handled t ht with htodo | ⟨w, hw, hworker⟩ | hsome
    · rw [hcaller] at htodo
      rcases List.mem_cons.mp htodo with rfl | hrest
      · exact .inr (.inl ⟨⟨t, .started⟩, List.mem_append_right _ List.mem_cons_self, rfl, rfl⟩)
      · exact .inl hrest
    · exact .inr (.inl ⟨w, List.mem_append_left _ hw, hworker⟩)
    · exact .inr (.inr hsome)
  · exact h.named
  · intro w hw u hu
    rcases List.mem_append.mp hw with hold | hnew
    · exact h.carried w hold u hu
    · rw [List.mem_singleton.mp hnew] at hu
      cases hu
  · have hspawned := h.spawned
    rw [hcaller] at hspawned
    simpa using hspawned
  · intro w hw htest
    rcases List.mem_append.mp hw with hold | hnew
    · exact h.tested w hold htest
    · rw [List.mem_singleton.mp hnew] at htest
      cases htest

/-- The steps that are left. -/
def State.left (s : State α) : ℕ :=
  s.caller.left + (s.workers.map fun w => w.phase.left).sum + (!s.cancelled).toNat

/-- A step of the caller that changes nothing but where it stands. -/
theorem Inv.caller {caller : Caller α} (h : Inv found capacity outboundTags s)
    (hslot : caller.slot = s.caller.slot) (howed : caller.owed = s.caller.owed)
    (hlock : caller.lock = s.caller.lock)
    (htodo : caller.todo = s.caller.todo) (halive : caller ≠ .panicked)
    (hanswered : ∀ res, caller = .returned res → Answers outboundTags res) :
    Inv found capacity outboundTags { s with caller := caller } where
  counts :=
    { slots := by rw [hslot]; exact h.counts.slots
      within := h.counts.within
      count := by rw [howed]; exact h.counts.count
      lock := by rw [hlock]; exact h.counts.lock }
  recorded := h.recorded.caller rfl rfl htodo
  alive := halive
  answered := hanswered

/-- A step of the caller keeps the invariant. -/
theorem callerStep_inv (h : Inv found capacity outboundTags s)
    (hstep : callerStep outboundTags capacity s = some s') : Inv found capacity outboundTags s' := by
  obtain ⟨hslot, hwithin, hcount, hlock⟩ := h.counts
  unfold callerStep at hstep
  cases hcaller : s.caller with
  | select rest =>
    cases rest with
    | nil =>
      simp only [hcaller] at hstep
      rw [← Option.some.inj hstep]
      apply h.caller <;> simp [hcaller]
    | cons tag rest =>
      simp only [hcaller] at hstep
      split_ifs at hstep with hcancelled
      · rw [hcaller] at hslot hcount hlock
        simp only [Caller.slot, Caller.owed, Caller.lock, List.length_cons] at hslot hcount hlock
        rw [State.wgDone, if_neg (by omega)] at hstep
        rw [← Option.some.inj hstep]
        refine ⟨⟨hslot, hwithin, ?_, hlock⟩, h.recorded.caller rfl rfl ?_, nofun, nofun⟩
        · show s.count - 1 = rest.length + s.countPhase Phase.pending
          omega
        · rw [hcaller]
          rfl
      · rw [← Option.some.inj hstep]
        apply h.caller <;> simp [hcaller]
  | aborting tag rest =>
    simp only [hcaller] at hstep
    split_ifs at hstep with hlocked
    rw [← Option.some.inj hstep]
    rw [hcaller] at hslot hcount hlock
    refine ⟨⟨hslot, hwithin, hcount, ?_⟩, h.recorded.caller rfl rfl ?_, nofun, nofun⟩
    · rw [Bool.eq_false_iff.mpr hlocked] at hlock
      show 1 = s.countPhase Phase.holdsLock + 1
      simp only [Bool.toNat_false, Caller.lock] at hlock
      omega
    · rw [hcaller]
      rfl
  | abortLocked tag rest =>
    simp only [hcaller] at hstep
    rw [← Option.some.inj hstep]
    rw [hcaller] at hslot hcount hlock
    exact ⟨⟨hslot, hwithin, hcount, hlock⟩, h.recorded.abort hcaller, nofun, nofun⟩
  | abortStored rest =>
    simp only [hcaller] at hstep
    rw [← Option.some.inj hstep]
    rw [hcaller] at hslot hcount hlock
    refine ⟨⟨hslot, hwithin, hcount, ?_⟩, h.recorded.caller rfl rfl ?_, nofun, nofun⟩
    · have hbit : s.locked.toNat ≤ 1 := Bool.toNat_le s.locked
      show 0 = s.countPhase Phase.holdsLock + 0
      simp only [Caller.lock] at hlock
      omega
    · rw [hcaller]
      rfl
  | sleeping tag rest =>
    simp only [hcaller] at hstep
    split_ifs at hstep with hfree
    rw [← Option.some.inj hstep]
    rw [hcaller] at hslot hcount hlock
    refine ⟨⟨?_, hfree, hcount, hlock⟩, h.recorded.caller rfl rfl ?_, nofun, nofun⟩
    · show s.slots + 1 = s.countPhase Phase.holdsSlot + 1
      simp only [Caller.slot] at hslot
      omega
    · rw [hcaller]
      rfl
  | acquired tag rest =>
    simp only [hcaller] at hstep
    rw [← Option.some.inj hstep]
    rw [hcaller] at hslot hcount hlock
    simp only [Caller.slot, Caller.owed, Caller.lock] at hslot hcount hlock
    refine ⟨⟨?_, hwithin, ?_, ?_⟩, h.recorded.spawn hcaller, nofun, nofun⟩
    · rw [countPhase_append rfl]
      exact hslot
    · rw [countPhase_append rfl]
      show s.count = rest.length + (s.countPhase Phase.pending + 1)
      omega
    · rw [countPhase_append rfl]
      exact hlock
  | waiting =>
    simp only [hcaller] at hstep
    split_ifs at hstep with hzero
    rw [← Option.some.inj hstep]
    apply h.caller
    · rw [hcaller]
      rfl
    · rw [hcaller]
      rfl
    · rw [hcaller]
      rfl
    · rw [hcaller]
      rfl
    · exact nofun
    · intro res hres
      rw [← Caller.returned.inj hres]
      exact answers_of_count h hcaller hzero
  | returned res =>
    simp only [hcaller] at hstep
    cases hstep
  | panicked =>
    simp only [hcaller] at hstep
    cases hstep

theorem callerStep_left (h : Inv found capacity outboundTags s)
    (hstep : callerStep outboundTags capacity s = some s') : s'.left < s.left := by
  have hcount := h.counts.count
  unfold callerStep at hstep
  unfold State.left
  cases hcaller : s.caller with
  | select rest =>
    cases rest with
    | nil =>
      simp only [hcaller] at hstep
      rw [← Option.some.inj hstep]
      simp
    | cons tag rest =>
      simp only [hcaller] at hstep
      split_ifs at hstep with hcancelled
      · simp only [hcaller, Caller.owed, List.length_cons] at hcount
        rw [State.wgDone, if_neg (by omega)] at hstep
        rw [← Option.some.inj hstep]
        simp
        omega
      · rw [← Option.some.inj hstep]
        simp
        omega
  | aborting tag rest =>
    simp only [hcaller] at hstep
    split_ifs at hstep
    rw [← Option.some.inj hstep]
    simp
  | abortLocked tag rest =>
    simp only [hcaller] at hstep
    rw [← Option.some.inj hstep]
    simp [State.store]
  | abortStored rest =>
    simp only [hcaller] at hstep
    rw [← Option.some.inj hstep]
    simp
  | sleeping tag rest =>
    simp only [hcaller] at hstep
    split_ifs at hstep
    rw [← Option.some.inj hstep]
    simp
  | acquired tag rest =>
    simp only [hcaller] at hstep
    rw [← Option.some.inj hstep]
    simp
    omega
  | waiting =>
    simp only [hcaller] at hstep
    split_ifs at hstep
    rw [← Option.some.inj hstep]
    simp
  | returned res =>
    simp only [hcaller] at hstep
    cases hstep
  | panicked =>
    simp only [hcaller] at hstep
    cases hstep

theorem step_worker {outcome : α × Option String} (halive : s.caller ≠ .panicked) :
    (machine found outboundTags capacity).step s (.worker k outcome) =
      (s.workers[k]?).bind fun w => workerStep found s k w outcome := by
  show (match s.caller with
    | .panicked => none
    | _ => _) = _
  split
  · next hpanicked => exact absurd hpanicked halive
  · rfl

/-- What an action does, in a state of the invariant. -/
theorem step_inv {i : Action α} (h : Inv found capacity outboundTags s)
    (hstep : (machine found outboundTags capacity).step s i = some s') :
    Inv found capacity outboundTags s' ∧ s'.left < s.left := by
  cases i with
  | cancel =>
    change (if s.cancelled then none else some { s with cancelled := true }) = some s' at hstep
    split_ifs at hstep with hcancelled
    rw [← Option.some.inj hstep]
    refine ⟨⟨⟨h.counts.slots, h.counts.within, h.counts.count, h.counts.lock⟩,
      ⟨h.recorded.handled, h.recorded.named, h.recorded.carried, h.recorded.spawned,
        h.recorded.tested⟩, h.alive, h.answered⟩, ?_⟩
    simp [State.left, hcancelled]
  | caller => exact ⟨callerStep_inv h hstep, callerStep_left h hstep⟩
  | worker k outcome =>
    obtain ⟨w, hw, hstep⟩ := Option.bind_eq_some_iff.mp ((step_worker h.alive).symm.trans hstep)
    obtain ⟨phase, hmoves⟩ := workerStep_moves h hw hstep
    refine ⟨h.moves hw hmoves, ?_⟩
    have hsum := Workers.sum_set_lt (b := { w with phase := phase }) (fun w => w.phase.left) hw
      hmoves.left
    unfold State.left
    rw [hmoves.caller, hmoves.cancelled, hmoves.workers]
    omega

/-! ## Progress -/

/-- The batch has returned its results. -/
def Returned (outboundTags : List String) (s : State α) : Prop :=
  ∃ res, s.caller = .returned res ∧ Answers outboundTags res

/-- An action other than the cancellation. -/
def Action.IsOwn : Action α → Prop
  | .cancel => False
  | _ => True

/-- The goroutine that holds the lock can go on. -/
theorem lock_holder_moves (h : Inv found capacity outboundTags s) (hlock : s.caller.lock = 0)
    (hlocked : s.locked = true) :
    ∃ i : Action α, i.IsOwn ∧
      ((machine found outboundTags capacity).step s i).isSome = true := by
  have hholder : 1 ≤ s.countPhase Phase.holdsLock := by
    have hcounted := h.counts.lock
    rw [hlocked, hlock] at hcounted
    exact hcounted.le
  obtain ⟨k, w, hw, hp⟩ := Workers.exists_of_one_le_countP hholder
  refine ⟨.worker k (default, none), trivial, ?_⟩
  rw [step_worker h.alive, hw, Option.bind_some, workerStep]
  cases hphase : w.phase <;> rw [hphase] at hp <;> first | rfl | cases hp

/-- A goroutine the wait group waits for can go on, or another one can. -/
theorem pending_moves (h : Inv found capacity outboundTags s) (hlock : s.caller.lock = 0)
    (hpending : 1 ≤ s.countPhase Phase.pending) :
    ∃ i : Action α, i.IsOwn ∧
      ((machine found outboundTags capacity).step s i).isSome = true := by
  by_cases hlocked : s.locked = true
  · exact lock_holder_moves h hlock hlocked
  obtain ⟨k, w, hw, hp⟩ := Workers.exists_of_one_le_countP hpending
  refine ⟨.worker k (default, none), trivial, ?_⟩
  rw [step_worker h.alive, hw, Option.bind_some, workerStep]
  cases hphase : w.phase with
  | started =>
    dsimp only
    split <;> rfl
  | finished u =>
    dsimp only
    rw [if_neg hlocked]
    rfl
  | unlocked =>
    have hslot : 1 ≤ s.countPhase Phase.holdsSlot := le_countPhase hw (by rw [hphase]; rfl)
    have hslots := h.counts.slots
    dsimp only
    rw [if_neg (by omega)]
    rfl
  | done =>
    rw [hphase] at hp
    cases hp
  | _ => rfl

/-- A batch with a slot is never stuck. -/
theorem progress (hcapacity : 0 < capacity) (h : Inv found capacity outboundTags s)
    (hunfinished : ¬ Returned outboundTags s) :
    ∃ i : Action α, i.IsOwn ∧
      ((machine found outboundTags capacity).step s i).isSome = true := by
  have hself : (callerStep outboundTags capacity s).isSome = true → ∃ i : Action α, i.IsOwn ∧
      ((machine found outboundTags capacity).step s i).isSome = true :=
    fun hstep => ⟨.caller, trivial, hstep⟩
  unfold callerStep at hself
  cases hcaller : s.caller with
  | select rest =>
    rw [hcaller] at hself
    cases rest with
    | nil => exact hself rfl
    | cons tag rest =>
      apply hself
      dsimp only
      split <;> rfl
  | aborting tag rest =>
    by_cases hlocked : s.locked = true
    · exact lock_holder_moves h (by rw [hcaller]; rfl) hlocked
    · rw [hcaller] at hself
      apply hself
      dsimp only
      rw [if_neg hlocked]
      rfl
  | abortLocked tag rest =>
    rw [hcaller] at hself
    exact hself rfl
  | abortStored rest =>
    rw [hcaller] at hself
    exact hself rfl
  | sleeping tag rest =>
    by_cases hfree : s.slots < capacity
    · rw [hcaller] at hself
      apply hself
      dsimp only
      rw [if_pos hfree]
      rfl
    · -- all slots are taken, so a goroutine is under way
      have hslots := h.counts.slots
      rw [hcaller] at hslots
      simp only [Caller.slot] at hslots
      have hholds : 1 ≤ s.countPhase Phase.holdsSlot := by omega
      obtain ⟨k, w, hw, hp⟩ := Workers.exists_of_one_le_countP hholds
      have hpending : w.phase.pending = true := by
        cases hphase : w.phase <;> rw [hphase] at hp <;> first | rfl | cases hp
      exact pending_moves h (by rw [hcaller]; rfl) (le_countPhase hw hpending)
  | acquired tag rest =>
    rw [hcaller] at hself
    exact hself rfl
  | waiting =>
    by_cases hzero : s.count = 0
    · rw [hcaller] at hself
      apply hself
      dsimp only
      rw [if_pos hzero]
      rfl
    · have hcount := h.counts.count
      rw [hcaller] at hcount
      simp only [Caller.owed] at hcount
      exact pending_moves h (by rw [hcaller]; rfl) (by omega)
  | returned res => exact absurd ⟨res, hcaller, h.answered res hcaller⟩ hunfinished
  | panicked => exact absurd hcaller h.alive

theorem start_inv {maxConcurrency : ℤ} (hsize : 0 ≤ maxConcurrency) (capacity : ℕ) :
    Inv found capacity outboundTags (start maxConcurrency outboundTags : State α) := by
  have hcaller : (start maxConcurrency outboundTags : State α).caller = .select outboundTags :=
    if_neg (not_lt.mpr hsize)
  refine ⟨⟨?_, Nat.zero_le _, ?_, ?_⟩, ⟨?_, nofun, nofun, ?_, nofun⟩, ?_, ?_⟩
  · rw [hcaller]
    rfl
  · rw [hcaller]
    rfl
  · rw [hcaller]
    rfl
  · rw [hcaller]
    exact fun _ htag => .inl htag
  · rw [hcaller]
    exact .refl _
  · rw [hcaller]
    exact nofun
  · rw [hcaller]
    exact nofun

/-! ## Filling the slots -/

/-- The last goroutine goes on. -/
theorem step_last {l : List (Worker α)} {outcome : α × Option String}
    (hworkers : s.workers = l ++ [w]) (halive : s.caller ≠ .panicked) :
    (machine found outboundTags capacity).step s (.worker l.length outcome) =
      workerStep found s l.length w outcome := by
  rw [step_worker halive, hworkers, List.getElem?_concat_length, Option.bind_some]

omit [Inhabited α] in
theorem setPhase_last {l : List (Worker α)} (hworkers : s.workers = l ++ [w]) (phase : Phase α) :
    s.setPhase l.length w phase = { s with workers := l ++ [{ w with phase := phase }] } := by
  rw [State.setPhase, hworkers, List.set_append_right _ _ le_rfl, Nat.sub_self]
  rfl

/-- The caller starts a goroutine. -/
theorem reachable_spawn {tag : String} {rest : List String} (hcaller : s.caller = .select (tag :: rest))
    (hcancelled : s.cancelled = false) (hfree : s.slots < capacity) :
    (machine found outboundTags capacity).Reachable s
      { s with
        caller := .select rest
        slots := s.slots + 1
        workers := s.workers ++ [⟨tag, .started⟩] } := by
  refine ⟨[.caller, .caller, .caller], ?_⟩
  obtain ⟨caller, cancelled, slots, count, locked, resMap, reporter, workers⟩ := s
  dsimp only at hcaller hcancelled hfree
  subst hcaller hcancelled
  simp [Machine.run_cons, machine, step, callerStep, hfree]

/-- A goroutine without an outbound gives its slot back. -/
theorem reachable_released {tag : String} {rest : List String} {l : List (Worker α)}
    (hcaller : s.caller = .select rest) (hlocked : s.locked = false) (hslots : s.slots ≠ 0)
    (hworkers : s.workers = l ++ [⟨tag, .started⟩]) (hfound : found tag = false) :
    (machine found outboundTags capacity).Reachable s
      { s with
        slots := s.slots - 1
        resMap := Function.update s.resMap tag (some (.notFound tag))
        reporter := s.reporter ++ [.notFound tag]
        workers := l ++ [⟨tag, .released⟩] } := by
  refine ⟨List.replicate 6 (.worker l.length (default, none)), ?_⟩
  obtain ⟨caller, cancelled, slots, count, locked, resMap, reporter, workers⟩ := s
  dsimp only at hcaller hlocked hslots hworkers
  subst hcaller hlocked hworkers
  simp [List.replicate, Machine.run_cons, machine, step, workerStep, hfound, State.setPhase,
    State.store, hslots]

/-- The caller starts goroutines until the limiter is full or the tags are used up. -/
theorem inFlight_reaches {rest : List String} (hcaller : s.caller = .select rest)
    (hcancelled : s.cancelled = false) (hlocked : s.locked = false)
    (hslots : s.slots = s.inFlight) :
    ∃ t, (machine found outboundTags capacity).Reachable s t ∧
      min capacity (s.inFlight + rest.countP found) ≤ t.inFlight := by
  induction rest generalizing s with
  | nil => exact ⟨s, .refl s, min_le_right _ _⟩
  | cons tag rest ih =>
    by_cases hfree : s.slots < capacity
    · let spawned : State α :=
        { s with
          caller := .select rest
          slots := s.slots + 1
          workers := s.workers ++ [⟨tag, .started⟩] }
      have hspawn : (machine found outboundTags capacity).Reachable s spawned :=
        reachable_spawn hcaller hcancelled hfree
      cases hfound : found tag with
      | true =>
        let tested : State α :=
          { s with
            caller := .select rest
            slots := s.slots + 1
            workers := s.workers ++ [⟨tag, .testing⟩] }
        have hworkers : tested.workers = s.workers ++ [⟨tag, .testing⟩] := rfl
        have hflight : tested.inFlight = s.inFlight + 1 := countPhase_append hworkers Phase.inTest
        obtain ⟨t, ht, hreached⟩ := ih (s := tested) rfl hcancelled hlocked
          ((congrArg (· + 1) hslots).trans hflight.symm)
        refine ⟨t, hspawn.trans (.step (i := .worker s.workers.length (default, none)) ?_ ht), ?_⟩
        · rw [step_last rfl (by exact nofun), workerStep]
          dsimp only
          rw [if_pos hfound, setPhase_last rfl]
        · rw [hflight] at hreached
          rw [List.countP_cons, if_pos hfound]
          omega
      | false =>
        let released : State α :=
          { s with
            caller := .select rest
            resMap := Function.update s.resMap tag (some (.notFound tag))
            reporter := s.reporter ++ [.notFound tag]
            workers := s.workers ++ [⟨tag, .released⟩] }
        have hworkers : released.workers = s.workers ++ [⟨tag, .released⟩] := rfl
        have hflight : released.inFlight = s.inFlight := countPhase_append hworkers Phase.inTest
        obtain ⟨t, ht, hreached⟩ := ih (s := released) rfl hcancelled hlocked
          (hslots.trans hflight.symm)
        have hreleased : (machine found outboundTags capacity).Reachable spawned released :=
          reachable_released (s := spawned) rfl hlocked (Nat.succ_ne_zero _) rfl hfound
        refine ⟨t, hspawn.trans (hreleased.trans ht), ?_⟩
        rw [hflight] at hreached
        rwa [List.countP_cons, if_neg (by simp [hfound])]
    · refine ⟨s, .refl s, (min_le_left _ _).trans ?_⟩
      omega

/-! ## What the server promises -/

variable (α) in
/-- The states a request can get to. -/
def Occurs (method : Method) (found : String → Bool) (outboundTags : List String) (requested : ℤ)
    (s : State α) : Prop :=
  (machine found outboundTags (method.maxConcurrency requested).toNat).Reachable
    (start (method.maxConcurrency requested) outboundTags) s

variable (α) in
/-- What a batch of a method keeps to: it does not panic, it does not have too many
    tests in flight, it returns a result for each tag, of which the server makes a
    response, and it does return. -/
structure Keeps (method : Method) (found : String → Bool) (outboundTags : List String)
    (requested : ℤ) : Prop where
  alive : ∀ s, Occurs α method found outboundTags requested s → s.caller ≠ .panicked
  bounded : ∀ s, Occurs α method found outboundTags requested s →
    (s.inFlight : ℤ) ≤ allowed requested
  answers : ∀ s res, Occurs α method found outboundTags requested s → s.caller = .returned res →
    Answers outboundTags res
  responds : ∀ s res (β : Type) (resp : String → TestResult α → β),
    Occurs α method found outboundTags requested s → s.caller = .returned res →
    (TestResult.responses resp outboundTags res).isSome = true
  completes : (machine found outboundTags (method.maxConcurrency requested).toNat).Completes
    Action.IsOwn (Returned outboundTags)
    (start (method.maxConcurrency requested) outboundTags : State α)

variable {method : Method} {requested : ℤ}

theorem maxConcurrency_nonneg_iff : 0 ≤ method.maxConcurrency requested ↔ 0 ≤ requested := by
  unfold Method.maxConcurrency maxConcurrentTests
  cases method <;> dsimp only <;> split <;> omega

theorem maxConcurrency_pos (h : 0 ≤ requested) : 0 < method.maxConcurrency requested := by
  unfold Method.maxConcurrency maxConcurrentTests
  cases method <;> dsimp only <;> split <;> omega

/-- When the server gives a batch more slots than are allowed. -/
theorem maxConcurrency_le_iff (h : 0 ≤ requested) :
    method.maxConcurrency requested ≤ allowed requested ↔
      method = .ipTest ∨ requested ≤ 100 ∨ 500 ≤ requested := by
  unfold Method.maxConcurrency allowed maxConcurrentTests
  cases method <;> simp <;> split_ifs <;> omega

theorem allowed_eq_of_lt (h : 100 < requested) : allowed requested = 100 := by
  unfold allowed maxConcurrentTests
  rw [if_neg (by omega), min_eq_right h.le]

theorem inv_of_occurs (h : 0 ≤ requested) (hs : Occurs α method found outboundTags requested s) :
    Inv found (method.maxConcurrency requested).toNat outboundTags s :=
  Machine.reachable_invariant (Inv found _ outboundTags) (fun _ _ _ hinv hstep => (step_inv hinv hstep).1)
    (start_inv (maxConcurrency_nonneg_iff.mpr h) _) hs

/-- Tests are in flight for goroutines with a slot, whose outbounds were found. -/
theorem inFlight_le (h : Inv found capacity outboundTags s) :
    s.inFlight ≤ capacity ∧ s.inFlight ≤ outboundTags.countP found := by
  constructor
  · have hslots : s.inFlight ≤ s.countPhase Phase.holdsSlot := by
      refine List.countP_mono_left fun w _ htest => ?_
      cases hphase : w.phase <;> rw [hphase] at htest <;> first | rfl | cases htest
    have hcount := h.counts.slots
    have hwithin := h.counts.within
    omega
  · calc s.inFlight ≤ s.workers.countP fun w => found w.tag :=
          List.countP_mono_left fun w hw htest => h.recorded.tested w hw htest
      _ = (s.workers.map Worker.tag).countP found := by rw [List.countP_map]; rfl
      _ ≤ outboundTags.countP found :=
          ((List.sublist_append_left _ _).trans h.recorded.spawned).countP_le

/-- The loops over the results of a batch find a result and a tag each time. -/
theorem responses_of_answers {β : Type} (resp : String → TestResult α → β)
    {res : List (Option (TestResult α))} (h : Answers outboundTags res) :
    (TestResult.responses resp outboundTags res).isSome = true := by
  obtain ⟨l, rfl, hfor⟩ := h
  induction hfor with
  | nil => rfl
  | cons _ _ ih =>
    rw [List.map_cons, TestResult.responses, Option.bind_some, Option.isSome_map]
    exact ih

/-- Between the two limits of `server.Test` there can be too many tests in flight. -/
theorem exceeds_allowed (hmethod : method = .test) (hsmall : 100 < requested)
    (hlarge : requested < 500) (hmany : 100 < outboundTags.countP found) :
    ∃ s, Occurs α method found outboundTags requested s ∧ allowed requested < s.inFlight := by
  have hsize : method.maxConcurrency requested = requested := by
    subst hmethod
    exact if_neg (by omega)
  have hbegin : (start (method.maxConcurrency requested) outboundTags : State α).caller =
      .select outboundTags := if_neg (by omega)
  obtain ⟨t, ht, hreached⟩ := @inFlight_reaches _ _ found _ _ _ _ hbegin rfl rfl rfl
  refine ⟨t, ht, ?_⟩
  have hidle : (start (method.maxConcurrency requested) outboundTags : State α).inFlight = 0 := rfl
  rw [hidle, hsize] at hreached
  rw [allowed_eq_of_lt hsmall]
  omega

/-- **Batches.** A batch keeps to what the server promises exactly if the request is not
    negative and its limit is not between the two limits of `server.Test`, unless there
    are too few outbounds for it. -/
theorem batch_iff (α : Type) [Inhabited α] (method : Method) (found : String → Bool)
    (outboundTags : List String) (requested : ℤ) :
    Keeps α method found outboundTags requested ↔
      0 ≤ requested ∧ (method = .ipTest ∨ requested ≤ 100 ∨ 500 ≤ requested ∨
        outboundTags.countP found ≤ 100) := by
  constructor
  · intro h
    have hnonneg : 0 ≤ requested := by
      by_contra hneg
      refine h.alive _ (.refl _) (if_pos ?_)
      exact not_le.mp fun hsize => hneg (maxConcurrency_nonneg_iff.mp hsize)
    refine ⟨hnonneg, ?_⟩
    by_contra hother
    push Not at hother
    obtain ⟨hmethod, hsmall, hlarge, hmany⟩ := hother
    have htest : method = .test := by
      cases method
      · rfl
      · exact absurd rfl hmethod
    obtain ⟨s, hs, hexceeds⟩ := @exceeds_allowed α _ _ _ _ _ htest hsmall hlarge hmany
    exact absurd (h.bounded s hs) (not_le.mpr hexceeds)
  · rintro ⟨hnonneg, hwithin⟩
    have hpos : 0 < method.maxConcurrency requested := maxConcurrency_pos hnonneg
    have hinv : ∀ s : State α, Occurs α method found outboundTags requested s →
        Inv found (method.maxConcurrency requested).toNat outboundTags s :=
      fun s hs => inv_of_occurs hnonneg hs
    refine ⟨fun s hs => (hinv s hs).alive, fun s hs => ?_, fun s res hs => (hinv s hs).answered res,
      fun s res β resp hs hreturned => ?_, ?_⟩
    · obtain ⟨hslots, hfound⟩ := inFlight_le (hinv s hs)
      by_cases hfits : method.maxConcurrency requested ≤ allowed requested
      · omega
      · -- the limit is past the limit of the server, so there are few outbounds
        rw [maxConcurrency_le_iff hnonneg] at hfits
        push Not at hfits
        obtain ⟨hmethod, hsmall, hlarge⟩ := hfits
        have hfew : outboundTags.countP found ≤ 100 := by
          rcases hwithin with h | h | h | h
          · exact absurd h hmethod
          · omega
          · omega
          · exact h
        rw [allowed_eq_of_lt hsmall]
        omega
    · exact responses_of_answers resp ((hinv s hs).answered res hreturned)
    · exact Machine.completes_of_measure (Inv found _ outboundTags) State.left
        (fun _ _ _ h hstep => (step_inv h hstep).1) (fun _ _ _ h hstep => (step_inv h hstep).2)
        (fun _ h => progress (by omega) h) (start_inv hpos.le _)

/-- A negative limit makes the server panic, and a limit of 200 lets more than 100 tests
    be in flight. -/
theorem limits_not_checked :
    ¬ Keeps ℤ .test (fun _ => true) ["proxy"] (-1) ∧
      ¬ Keeps ℤ .test (fun _ => true) (List.replicate 101 "proxy") 200 := by
  constructor
  · intro h
    exact h.alive _ (.refl _) rfl
  · intro h
    have hmany : 100 < (List.replicate 101 "proxy").countP fun _ => true := by simp
    obtain ⟨s, hs, hexceeds⟩ :=
      @exceeds_allowed ℤ _ _ _ .test 200 rfl (by decide) (by decide) hmany
    exact absurd (h.bounded s hs) (not_le.mpr hexceeds)

end Batch

end NekoBox.Core
