import NekoBox.Lib.Machine

/-!
# The guards of updates

A subscription update from the menu (`mainwindow.cpp`, lines 4181–4228) and the
resolution of domains (lines 4331–4379) are guarded by `mw_sub_updating`, the update of
all groups (`GroupUpdater.cpp`, lines 1577–1635) by `UI_update_all_groups_Updating`. Each
goes on in workers: `AsyncUpdate` (lines 1337–1406) calls `finish` when `Update` has
returned, on whichever of its paths; a resolution calls its callback with or without an
address.

The `finish` of an update from the menu is empty, and `resolve_count` starts at the number
of identifiers, of which those without a profile are passed over.

* `released_iff`: once no worker is left, the guards are released exactly when no update
  was started from the menu and no resolution met an identifier without a profile.
-/

namespace NekoBox.Window

open NekoBox.Lib

namespace UpdateGuards

/-! ## The code -/

/-- The fields of a group that are checked; `skipAutoUpdate` is one of its `GroupExtra`. -/
structure Group where
  isSubscription : Bool
  archive : Bool
  skipAutoUpdate : Bool

/-- How `Update` ends. -/
inductive Outcome where
  | notDecrypted | archived | requestError | applied

/-- A thread or a task of a pool that is not done. -/
inductive Job where
  /-- An update from the menu. -/
  | menu
  /-- One of an update of all groups, with the groups that come after. -/
  | serial (onlyAllowed : Bool) (rest : List ℤ)
  /-- The resolution of one address. -/
  | resolve
  deriving DecidableEq

structure State where
  mwSubUpdating : Bool
  uiUpdateAllGroupsUpdating : Bool
  resolveCount : ℤ
  jobs : List Job

def init : State := ⟨false, false, 0, []⟩

/-- `should_skip_group` -/
def shouldSkipGroup (onlyAllowed : Bool) : Option Group → Bool
  | none => true
  | some g => !g.isSubscription || g.archive || (onlyAllowed && g.skipAutoUpdate)

/-- `AsyncUpdateGroup` (lines 1319–1354): the worker it starts. -/
def asyncUpdateGroup (group : Group) (worker : Job) (s : State) : State :=
  if group.isSubscription then { s with jobs := s.jobs ++ [worker] } else s

/-- `serialUpdateSubscription` (lines 1583–1619), for the groups from `_order` on. -/
def serialUpdateSubscription (groups : ℤ → Option Group) (onlyAllowed : Bool) :
    List ℤ → State → State
  | [], s => { s with uiUpdateAllGroupsUpdating := false }
  | gid :: rest, s =>
    match groups gid with
    | none => serialUpdateSubscription groups onlyAllowed rest s
    | some group =>
      if shouldSkipGroup onlyAllowed (some group) then
        serialUpdateSubscription groups onlyAllowed rest s
      else
        let next := rest.dropWhile fun gid => shouldSkipGroup onlyAllowed (groups gid)
        asyncUpdateGroup group (.serial onlyAllowed next)
          { s with uiUpdateAllGroupsUpdating := true }

/-- `UI_update_all_groups` (lines 1621–1635) -/
def uiUpdateAllGroups (groups : ℤ → Option Group) (onlyAllowed : Bool) (groupsTabOrder : List ℤ)
    (s : State) : State :=
  if s.uiUpdateAllGroupsUpdating then s
  else serialUpdateSubscription groups onlyAllowed groupsTabOrder s

/-- `on_menu_update_subscription_triggered` (lines 4183–4228) -/
def menuUpdateSubscription (group : Group) (s : State) : State :=
  if !group.isSubscription || s.mwSubUpdating then s
  else asyncUpdateGroup group .menu { s with mwSubUpdating := true }

/-- What a worker calls when its `Update` has returned. -/
def finish (groups : ℤ → Option Group) : Job → State → State
  | .serial onlyAllowed rest, s => serialUpdateSubscription groups onlyAllowed rest s
  | _, s => s

/-- The callback of a resolution (lines 4370–4377). -/
def onFinished (s : State) : State :=
  let s := { s with resolveCount := s.resolveCount - 1 }
  if s.resolveCount ≠ 0 then s else { s with mwSubUpdating := false }

/-- The loop body of `on_resolve_selected` (lines 4364–4378). `noResolve` is that of the
    bean, for an identifier that has a profile. -/
def resolveProfile (noResolve : ℤ → Option Bool) (s : State) (profileid : ℤ) : State :=
  match noResolve profileid with
  | none => s
  | some true => onFinished s
  | some false => { s with jobs := s.jobs ++ [.resolve] }

/-- `on_resolve_selected` (lines 4331–4379), for the identifiers it has chosen. -/
def onResolveSelected (noResolve : ℤ → Option Bool) (profiles : List ℤ) (s : State) : State :=
  if profiles = [] ∨ s.mwSubUpdating then s
  else profiles.foldl (resolveProfile noResolve)
    { s with mwSubUpdating := true, resolveCount := profiles.length }

/-- What happens, with the groups and profiles there are at that time. -/
inductive Action where
  | menuUpdate (group : Group)
  | updateAll (groups : ℤ → Option Group) (onlyAllowed : Bool) (groupsTabOrder : List ℤ)
  | resolve (noResolve : ℤ → Option Bool) (profiles : List ℤ)
  /-- The `Update` of a worker returns. -/
  | updated (i : ℕ) (outcome : Outcome) (groups : ℤ → Option Group)
  /-- An address is resolved, or found to have none. -/
  | resolved (i : ℕ) (ip : Option String)

def step (s : State) : Action → Option State
  | .menuUpdate group => some (menuUpdateSubscription group s)
  | .updateAll groups onlyAllowed order => some (uiUpdateAllGroups groups onlyAllowed order s)
  | .resolve noResolve profiles => some (onResolveSelected noResolve profiles s)
  | .updated i _ groups =>
    match s.jobs[i]? with
    | none | some .resolve => none
    | some job => some (finish groups job { s with jobs := s.jobs.eraseIdx i })
  | .resolved i _ =>
    if s.jobs[i]? = some .resolve then some (onFinished { s with jobs := s.jobs.eraseIdx i })
    else none

def machine : Machine State Action := ⟨step⟩

/-! ## The property -/

/-- Nothing is refused. -/
structure Released (s : State) : Prop where
  mwSubUpdating : s.mwSubUpdating = false
  uiUpdateAllGroupsUpdating : s.uiUpdateAllGroupsUpdating = false
  resolveCount : s.resolveCount = 0

/-- No update gets past the guard of the menu action, and a resolution that does finds a
    profile for each identifier. -/
def Harmless (s : State) : Action → Prop
  | .menuUpdate group => group.isSubscription = false ∨ s.mwSubUpdating = true
  | .resolve noResolve profiles =>
    s.mwSubUpdating = true ∨ ∀ profileid ∈ profiles, noResolve profileid ≠ none
  | _ => True

/-! ## Workers -/

/-- The addresses not yet resolved. -/
def State.resolving (s : State) : ℕ := s.jobs.countP fun j => j = .resolve

def isSerial : Job → Bool
  | .serial _ _ => true
  | _ => false

/-- The workers of an update of all groups. -/
def State.serials (s : State) : ℕ := s.jobs.countP isSerial

/-- A worker that is done is one less. -/
theorem countP_eraseIdx {s : State} {i : ℕ} {job : Job} (h : s.jobs[i]? = some job)
    (p : Job → Bool) :
    s.jobs.countP p = (s.jobs.eraseIdx i).countP p + if p job then 1 else 0 := by
  obtain ⟨hi, hjob⟩ := List.getElem?_eq_some_iff.mp h
  have hperm := List.getElem_cons_eraseIdx_perm hi
  rw [hjob] at hperm
  rw [← hperm.countP_eq, List.countP_cons]

/-- At most one update of all groups is in progress, while its guard is set. -/
def SerialInv (s : State) : Prop := s.serials = if s.uiUpdateAllGroupsUpdating then 1 else 0

theorem subscription_of_not_skipped {onlyAllowed : Bool} {group : Group}
    (h : ¬ shouldSkipGroup onlyAllowed (some group) = true) : group.isSubscription = true := by
  cases hsub : group.isSubscription with
  | true => rfl
  | false => exact absurd (by simp [shouldSkipGroup, hsub]) h

/-- An update of all groups has at most one worker more, while its guard is set. -/
theorem serialUpdate_serial (groups : ℤ → Option Group) (onlyAllowed : Bool) (order : List ℤ)
    (s : State) (hnone : s.serials = 0) :
    SerialInv (serialUpdateSubscription groups onlyAllowed order s) := by
  induction order with
  | nil => exact hnone
  | cons gid rest ih =>
    unfold serialUpdateSubscription
    cases groups gid with
    | none => exact ih
    | some group =>
      dsimp only
      split_ifs with hskip
      · exact ih
      · unfold asyncUpdateGroup
        rw [if_pos (subscription_of_not_skipped hskip)]
        show (s.jobs ++ [_]).countP isSerial = 1
        rw [List.countP_append, show s.jobs.countP isSerial = 0 from hnone]
        rfl

/-- It leaves the other guard and the resolutions alone. -/
theorem serialUpdate_frame (groups : ℤ → Option Group) (onlyAllowed : Bool) (order : List ℤ)
    (s : State) :
    (serialUpdateSubscription groups onlyAllowed order s).resolving = s.resolving ∧
      (serialUpdateSubscription groups onlyAllowed order s).mwSubUpdating = s.mwSubUpdating ∧
      (serialUpdateSubscription groups onlyAllowed order s).resolveCount = s.resolveCount := by
  induction order with
  | nil => exact ⟨rfl, rfl, rfl⟩
  | cons gid rest ih =>
    unfold serialUpdateSubscription
    cases groups gid with
    | none => exact ih
    | some group =>
      dsimp only
      split_ifs with hskip
      · exact ih
      · unfold asyncUpdateGroup
        rw [if_pos (subscription_of_not_skipped hskip)]
        refine ⟨?_, rfl, rfl⟩
        show (s.jobs ++ [_]).countP _ = s.jobs.countP _
        rw [List.countP_append]
        rfl

/-! ## Resolutions -/

/-- The guard is set while the countdown runs. -/
def Counting (s : State) : Prop := s.mwSubUpdating = decide (0 < s.resolveCount)

/-- One resolution less, while there are some. -/
theorem onFinished_spec {s : State} (hflag : Counting s) (hpos : 0 < s.resolveCount) :
    (onFinished s).resolveCount = s.resolveCount - 1 ∧ (onFinished s).jobs = s.jobs ∧
      Counting (onFinished s) ∧
      (onFinished s).uiUpdateAllGroupsUpdating = s.uiUpdateAllGroupsUpdating := by
  have hset : s.mwSubUpdating = true := by
    rw [hflag, decide_eq_true_iff]
    exact hpos
  unfold onFinished Counting
  dsimp only
  split_ifs with hzero
  · refine ⟨rfl, rfl, ?_, rfl⟩
    rw [hset]
    exact (decide_eq_true (show 0 < s.resolveCount - 1 by omega)).symm
  · refine ⟨rfl, rfl, ?_, rfl⟩
    exact (decide_eq_false (show ¬ 0 < s.resolveCount - 1 by omega)).symm

/-- The loop leaves the count of the addresses not yet resolved, of those passed over before
    and of those passed over by it. -/
theorem resolveLoop (noResolve : ℤ → Option Bool) (profiles : List ℤ) (missing : ℕ) :
    ∀ s : State, s.resolveCount = s.resolving + missing + profiles.length → Counting s →
      let s' := profiles.foldl (resolveProfile noResolve) s
      s'.resolveCount = s'.resolving + missing +
          profiles.countP (fun profileid => (noResolve profileid).isNone) ∧
        Counting s' ∧ s'.serials = s.serials ∧
          s'.uiUpdateAllGroupsUpdating = s.uiUpdateAllGroupsUpdating := by
  induction profiles generalizing missing with
  | nil => exact fun s hcount hflag => ⟨hcount, hflag, rfl, rfl⟩
  | cons profileid profiles ih =>
    intro s hcount hflag
    rw [List.length_cons] at hcount
    push_cast at hcount
    rw [List.foldl_cons, List.countP_cons]
    cases hprofile : noResolve profileid with
    | none =>
      have hpass : resolveProfile noResolve s profileid = s := by
        unfold resolveProfile
        rw [hprofile]
      have hrest := ih (missing + 1) s (by push_cast; omega) hflag
      rw [hpass]
      refine ⟨?_, hrest.2⟩
      have hfinal := hrest.1
      push_cast at hfinal ⊢
      simp only [Option.isNone_none, if_true]
      omega
    | some kept =>
      cases kept with
      | true =>
        have hdone : resolveProfile noResolve s profileid = onFinished s := by
          unfold resolveProfile
          rw [hprofile]
        obtain ⟨hless, hjobs, hflag', hall⟩ := onFinished_spec hflag (by omega)
        have hresolving : (onFinished s).resolving = s.resolving := by
          unfold State.resolving
          rw [hjobs]
        obtain ⟨hfinal, hcounting, hserials, hguard⟩ := ih missing (onFinished s) (by omega) hflag'
        rw [hdone]
        refine ⟨hfinal, hcounting, hserials.trans ?_, hguard.trans hall⟩
        unfold State.serials
        rw [hjobs]
      | false =>
        have htask : resolveProfile noResolve s profileid = 
            { s with jobs := s.jobs ++ [.resolve] } := by
          unfold resolveProfile
          rw [hprofile]
        have hresolving : ({ s with jobs := s.jobs ++ [.resolve] } : State).resolving =
            s.resolving + 1 := by
          show (s.jobs ++ [Job.resolve]).countP _ = s.jobs.countP _ + 1
          rw [List.countP_append]
          rfl
        obtain ⟨hfinal, hcounting, hserials, hguard⟩ :=
          ih missing { s with jobs := s.jobs ++ [.resolve] }
            (by rw [hresolving]; push_cast; omega) hflag
        rw [htask]
        refine ⟨hfinal, hcounting, hserials.trans ?_, hguard⟩
        show (s.jobs ++ [Job.resolve]).countP isSerial = s.jobs.countP isSerial
        rw [List.countP_append]
        rfl

/-! ## The invariant -/

/-- What holds while nothing has gone wrong: the count is that of the addresses not yet
    resolved, and the guard is set while there are some. -/
structure Good (s : State) : Prop where
  serial : SerialInv s
  count : s.resolveCount = s.resolving
  flag : Counting s

/-- What holds from then on: the guard is set, and no resolution is the last of the count. -/
structure Leaked (s : State) : Prop where
  flag : s.mwSubUpdating = true
  count : s.resolving = 0 ∨ (s.resolving : ℤ) < s.resolveCount

theorem good_init : Good init := ⟨rfl, rfl, rfl⟩

theorem Good.released {s : State} (h : Good s) (hidle : s.jobs = []) : Released s := by
  have hcount := h.count
  have hserial := h.serial
  have hflag := h.flag
  unfold SerialInv State.serials at hserial
  unfold State.resolving at hcount
  rw [hidle] at hcount hserial
  refine ⟨?_, ?_, hcount⟩
  · rw [hflag, hcount]
    rfl
  · cases hguard : s.uiUpdateAllGroupsUpdating with
    | false => rfl
    | true =>
      rw [hguard] at hserial
      exact absurd hserial (by decide)

theorem Leaked.not_released {s : State} (h : Leaked s) : ¬ Released s := fun hreleased =>
  Bool.false_ne_true (hreleased.mwSubUpdating.symm.trans h.flag)

/-! ### Steps -/

theorem Good.serialUpdate {s : State} (groups : ℤ → Option Group) (onlyAllowed : Bool)
    (order : List ℤ) (hnone : s.serials = 0) (hcount : s.resolveCount = s.resolving)
    (hflag : Counting s) : Good (serialUpdateSubscription groups onlyAllowed order s) := by
  obtain ⟨hresolving, hguard, hcount'⟩ := serialUpdate_frame groups onlyAllowed order s
  refine ⟨serialUpdate_serial groups onlyAllowed order s hnone, by rw [hcount', hresolving, hcount],
    ?_⟩
  unfold Counting
  rw [hguard, hcount']
  exact hflag

theorem Leaked.serialUpdate {s : State} (groups : ℤ → Option Group) (onlyAllowed : Bool)
    (order : List ℤ) (h : Leaked s) : Leaked (serialUpdateSubscription groups onlyAllowed order s) := by
  obtain ⟨hresolving, hguard, hcount⟩ := serialUpdate_frame groups onlyAllowed order s
  exact ⟨hguard.trans h.flag, by rw [hresolving, hcount]; exact h.count⟩

/-- A worker that is done leaves the others. -/
theorem resolving_eraseIdx {s : State} {i : ℕ} {job : Job} (hjob : s.jobs[i]? = some job) :
    s.resolving = ({ s with jobs := s.jobs.eraseIdx i } : State).resolving +
      if job = .resolve then 1 else 0 := by
  have h := countP_eraseIdx hjob fun j => j = .resolve
  simpa [State.resolving] using h

theorem serials_of_guard {s : State} (h : SerialInv s)
    (hguard : s.uiUpdateAllGroupsUpdating = false) : s.serials = 0 := by
  rw [h, hguard]
  rfl

theorem serials_eraseIdx {s : State} {i : ℕ} {job : Job} (hjob : s.jobs[i]? = some job) :
    s.serials = ({ s with jobs := s.jobs.eraseIdx i } : State).serials +
      if isSerial job then 1 else 0 :=
  countP_eraseIdx hjob isSerial

theorem Good.updated {s : State} {i : ℕ} {job : Job} {groups : ℤ → Option Group} (h : Good s)
    (hjob : s.jobs[i]? = some job) (hne : job ≠ .resolve) :
    Good (finish groups job { s with jobs := s.jobs.eraseIdx i }) := by
  have hresolving := resolving_eraseIdx hjob
  have hserials := serials_eraseIdx hjob
  have hserial := h.serial
  unfold SerialInv at hserial
  rw [if_neg hne, Nat.add_zero] at hresolving
  have hcount : s.resolveCount = ({ s with jobs := s.jobs.eraseIdx i } : State).resolving :=
    h.count.trans (congrArg Nat.cast hresolving)
  cases job with
  | resolve => exact absurd rfl hne
  | menu =>
    refine ⟨?_, hcount, h.flag⟩
    show ({ s with jobs := s.jobs.eraseIdx i } : State).serials =
      if s.uiUpdateAllGroupsUpdating then 1 else 0
    rw [← hserial]
    exact hserials.symm
  | serial onlyAllowed rest =>
    have hnone : ({ s with jobs := s.jobs.eraseIdx i } : State).serials = 0 := by
      have hle : s.serials ≤ 1 := by
        rw [hserial]
        split_ifs <;> omega
      simp only [isSerial, if_true] at hserials
      omega
    exact Good.serialUpdate groups onlyAllowed rest hnone hcount h.flag

theorem Leaked.updated {s : State} {i : ℕ} {job : Job} {groups : ℤ → Option Group} (h : Leaked s)
    (hjob : s.jobs[i]? = some job) (hne : job ≠ .resolve) :
    Leaked (finish groups job { s with jobs := s.jobs.eraseIdx i }) := by
  have hresolving := resolving_eraseIdx hjob
  rw [if_neg hne, Nat.add_zero] at hresolving
  have herased : Leaked { s with jobs := s.jobs.eraseIdx i } := by
    refine ⟨h.flag, ?_⟩
    rw [← hresolving]
    exact h.count
  cases job with
  | resolve => exact absurd rfl hne
  | menu => exact herased
  | serial onlyAllowed rest => exact herased.serialUpdate groups onlyAllowed rest

theorem Good.resolved {s : State} {i : ℕ} (h : Good s) (hjob : s.jobs[i]? = some .resolve) :
    Good (onFinished { s with jobs := s.jobs.eraseIdx i }) := by
  have hresolving := resolving_eraseIdx hjob
  have hserials := serials_eraseIdx hjob
  have hcount := h.count
  rw [if_pos rfl] at hresolving
  obtain ⟨hless, hjobs, hflag, hguard⟩ :=
    @onFinished_spec { s with jobs := s.jobs.eraseIdx i } h.flag
      (by show 0 < s.resolveCount; omega)
  refine ⟨?_, ?_, hflag⟩
  · unfold SerialInv
    rw [hguard, ← show s.serials = _ from h.serial, hserials]
    unfold State.serials
    rw [hjobs]
    rfl
  · rw [hless]
    unfold State.resolving at hresolving hcount ⊢
    rw [hjobs]
    show s.resolveCount - 1 = _
    omega

theorem Leaked.resolved {s : State} {i : ℕ} (h : Leaked s) (hjob : s.jobs[i]? = some .resolve) :
    Leaked (onFinished { s with jobs := s.jobs.eraseIdx i }) := by
  have hresolving := resolving_eraseIdx hjob
  rw [if_pos rfl] at hresolving
  have hmore : (s.resolving : ℤ) < s.resolveCount := h.count.resolve_left (by omega)
  unfold onFinished
  dsimp only
  rw [if_pos (by omega)]
  refine ⟨h.flag, Or.inr ?_⟩
  show ((({ s with jobs := s.jobs.eraseIdx i } : State).resolving : ℕ) : ℤ) < s.resolveCount - 1
  omega

/-- While nothing is being resolved the guard is open. -/
theorem Good.idle {s : State} (h : Good s) (hflag : s.mwSubUpdating = false) :
    s.resolving = 0 ∧ s.resolveCount = 0 := by
  have hcounting := h.flag
  have hcount := h.count
  unfold Counting at hcounting
  rw [hflag, eq_comm, decide_eq_false_iff_not] at hcounting
  omega

/-- A resolution that gets past the guard. -/
theorem Good.onResolveSelected {s : State} {noResolve : ℤ → Option Bool} {profiles : List ℤ}
    (h : Good s) (hflag : s.mwSubUpdating = false) (hne : profiles ≠ []) :
    let s' := UpdateGuards.onResolveSelected noResolve profiles s
    s'.resolveCount = s'.resolving +
        profiles.countP (fun profileid => (noResolve profileid).isNone) ∧
      Counting s' ∧ SerialInv s' := by
  obtain ⟨hresolving, hcount⟩ := h.idle hflag
  have hlength : 0 < profiles.length := List.length_pos_iff.mpr hne
  have hstart : Counting { s with mwSubUpdating := true, resolveCount := profiles.length } :=
    (decide_eq_true (show (0 : ℤ) < profiles.length by omega)).symm
  obtain ⟨hfinal, hcounting, hserials, hguard⟩ := resolveLoop noResolve profiles 0
    { s with mwSubUpdating := true, resolveCount := profiles.length }
    (by show (profiles.length : ℤ) = (s.resolving : ℤ) + 0 + _; omega) hstart
  unfold UpdateGuards.onResolveSelected
  rw [if_neg (by simp [hne, hflag])]
  refine ⟨by omega, hcounting, ?_⟩
  unfold SerialInv
  rw [hguard, hserials]
  exact h.serial

/-- It goes on as it should when every identifier has a profile, -/
theorem Good.resolve {s : State} {noResolve : ℤ → Option Bool} {profiles : List ℤ} (h : Good s)
    (hall : s.mwSubUpdating = true ∨ ∀ profileid ∈ profiles, noResolve profileid ≠ none) :
    Good (UpdateGuards.onResolveSelected noResolve profiles s) := by
  by_cases hrefused : profiles = [] ∨ s.mwSubUpdating = true
  · unfold UpdateGuards.onResolveSelected
    rw [if_pos hrefused]
    exact h
  obtain ⟨hne, hflag⟩ := not_or.mp hrefused
  obtain ⟨hcount, hcounting, hserial⟩ :=
    @Good.onResolveSelected s noResolve profiles h (Bool.eq_false_iff.mpr hflag) hne
  have hmissing : profiles.countP (fun profileid => (noResolve profileid).isNone) = 0 := by
    rw [List.countP_eq_zero]
    intro profileid hmem
    simpa using hall.resolve_left hflag profileid hmem
  rw [hmissing] at hcount
  exact ⟨hserial, by omega, hcounting⟩

/-- and never ends when one has none. -/
theorem Good.resolve_missing {s : State} {noResolve : ℤ → Option Bool} {profiles : List ℤ}
    (h : Good s)
    (hnot : ¬ (s.mwSubUpdating = true ∨ ∀ profileid ∈ profiles, noResolve profileid ≠ none)) :
    Leaked (UpdateGuards.onResolveSelected noResolve profiles s) := by
  obtain ⟨hflag, hall⟩ := not_or.mp hnot
  push Not at hall
  obtain ⟨profileid, hmem, hnone⟩ := hall
  obtain ⟨hcount, hcounting, -⟩ := @Good.onResolveSelected s noResolve profiles h
    (Bool.eq_false_iff.mpr hflag) (List.ne_nil_of_mem hmem)
  have hmissing : 0 < profiles.countP fun profileid => (noResolve profileid).isNone :=
    List.countP_pos_iff.mpr ⟨profileid, hmem, by simp [hnone]⟩
  refine ⟨?_, Or.inr (by omega)⟩
  rw [hcounting, decide_eq_true_iff]
  omega

/-- An update from the menu gets past the guard, which stays set. -/
theorem Good.menuUpdate {s : State} {group : Group} (h : Good s)
    (hnot : ¬ (group.isSubscription = false ∨ s.mwSubUpdating = true)) :
    Leaked (menuUpdateSubscription group s) := by
  obtain ⟨hsub, hflag⟩ := not_or.mp hnot
  rw [Bool.not_eq_false] at hsub
  obtain ⟨hresolving, -⟩ := h.idle (Bool.eq_false_iff.mpr hflag)
  unfold menuUpdateSubscription asyncUpdateGroup
  rw [if_neg (by simp [hsub, hflag]), if_pos hsub]
  refine ⟨rfl, Or.inl ?_⟩
  show (s.jobs ++ [Job.menu]).countP _ = 0
  rw [List.countP_append, show s.jobs.countP _ = 0 from hresolving]
  rfl

theorem menuUpdate_refused {s : State} {group : Group}
    (h : group.isSubscription = false ∨ s.mwSubUpdating = true) :
    menuUpdateSubscription group s = s := by
  unfold menuUpdateSubscription
  rw [if_pos (by simpa using h)]

/-- What a step of a worker is. -/
theorem updated_cases {s s' : State} {i : ℕ} {outcome : Outcome} {groups : ℤ → Option Group}
    (hstep : step s (.updated i outcome groups) = some s') :
    ∃ job, s.jobs[i]? = some job ∧ job ≠ .resolve ∧
      s' = finish groups job { s with jobs := s.jobs.eraseIdx i } := by
  unfold step at hstep
  dsimp only at hstep
  cases hjob : s.jobs[i]? with
  | none =>
    rw [hjob] at hstep
    exact absurd hstep.symm (Option.some_ne_none s')
  | some job =>
    rw [hjob] at hstep
    cases job with
    | resolve => exact absurd hstep.symm (Option.some_ne_none s')
    | menu => exact ⟨_, rfl, by decide, (Option.some.inj hstep).symm⟩
    | serial onlyAllowed rest =>
      exact ⟨_, rfl, fun h => Job.noConfusion h, (Option.some.inj hstep).symm⟩

/-- A harmless step keeps the guards right, -/
theorem good_step {s s' : State} {a : Action} (h : Good s) (hharmless : Harmless s a)
    (hstep : step s a = some s') : Good s' := by
  cases a with
  | menuUpdate group =>
    obtain rfl := Option.some.inj hstep
    rwa [menuUpdate_refused hharmless]
  | updateAll groups onlyAllowed order =>
    obtain rfl := Option.some.inj hstep
    unfold uiUpdateAllGroups
    split_ifs with hguard
    · exact h
    · exact Good.serialUpdate groups onlyAllowed order
        (serials_of_guard h.serial (Bool.eq_false_iff.mpr hguard)) h.count h.flag
  | resolve noResolve profiles =>
    obtain rfl := Option.some.inj hstep
    exact h.resolve hharmless
  | updated i outcome groups =>
    obtain ⟨job, hjob, hne, rfl⟩ := updated_cases hstep
    exact h.updated hjob hne
  | resolved i ip =>
    obtain ⟨hjob, hs'⟩ := Option.ite_none_right_eq_some.mp hstep
    obtain rfl := Option.some.inj hs'
    exact h.resolved hjob

/-- another one leaks, -/
theorem leaked_of_good {s s' : State} {a : Action} (h : Good s) (hnot : ¬ Harmless s a)
    (hstep : step s a = some s') : Leaked s' := by
  cases a with
  | menuUpdate group =>
    obtain rfl := Option.some.inj hstep
    exact h.menuUpdate hnot
  | resolve noResolve profiles =>
    obtain rfl := Option.some.inj hstep
    exact h.resolve_missing hnot
  | updateAll groups onlyAllowed order => exact absurd trivial hnot
  | updated i outcome groups => exact absurd trivial hnot
  | resolved i ip => exact absurd trivial hnot

/-- and nothing makes up for it. -/
theorem leaked_step {s s' : State} {a : Action} (h : Leaked s) (hstep : step s a = some s') :
    Leaked s' := by
  cases a with
  | menuUpdate group =>
    obtain rfl := Option.some.inj hstep
    rwa [menuUpdate_refused (Or.inr h.flag)]
  | updateAll groups onlyAllowed order =>
    obtain rfl := Option.some.inj hstep
    unfold uiUpdateAllGroups
    split_ifs
    · exact h
    · exact h.serialUpdate groups onlyAllowed order
  | resolve noResolve profiles =>
    obtain rfl := Option.some.inj hstep
    unfold UpdateGuards.onResolveSelected
    rwa [if_pos (Or.inr h.flag)]
  | updated i outcome groups =>
    obtain ⟨job, hjob, hne, rfl⟩ := updated_cases hstep
    exact h.updated hjob hne
  | resolved i ip =>
    obtain ⟨hjob, hs'⟩ := Option.ite_none_right_eq_some.mp hstep
    obtain rfl := Option.some.inj hs'
    exact h.resolved hjob

/-! ## Runs -/

theorem good_or_leaked {is : List Action} :
    ∀ {s t : State}, Good s → machine.run s is = some t →
      (machine.Along Harmless s is → Good t) ∧ (¬ machine.Along Harmless s is → Leaked t) := by
  induction is with
  | nil =>
    intro s t h hrun
    obtain rfl := Option.some.inj hrun
    exact ⟨fun _ => h, fun hnot => absurd trivial hnot⟩
  | cons a is ih =>
    intro s t h hrun
    obtain ⟨s', hs', ht⟩ := Machine.run_cons_eq_some.mp hrun
    by_cases hok : Harmless s a
    · obtain ⟨hgood, hleaked⟩ := ih (good_step h hok hs') ht
      refine ⟨fun halong => hgood (halong.2 s' hs'), fun hnot => hleaked fun hrest => hnot ⟨hok, ?_⟩⟩
      intro s'' hs''
      rwa [Option.some.inj (hs''.symm.trans hs')]
    · refine ⟨fun halong => absurd halong.1 hok, fun _ => ?_⟩
      exact Machine.run_invariant' Leaked (fun _ _ _ h hstep => leaked_step h hstep)
        (leaked_of_good h hok hs') ht

/-- **Main theorem.** Once no worker is left, the guards are released exactly when every
    step of the run was harmless. -/
theorem released_iff {is : List Action} {s : State} (hrun : machine.run init is = some s)
    (hidle : s.jobs = []) : Released s ↔ machine.Along Harmless init is := by
  obtain ⟨hgood, hleaked⟩ := good_or_leaked good_init hrun
  constructor
  · intro hreleased
    by_contra hnot
    exact (hleaked hnot).not_released hreleased
  · exact fun halong => (hgood halong).released hidle

instance (s : State) (a : Action) : Decidable (Harmless s a) := by
  unfold Harmless
  split <;> infer_instance

/-- Two groups are updated, a third is archived; meanwhile three addresses are resolved,
    one of which is an address already. -/
def sampleRun : List Action :=
  let groups : ℤ → Option Group := fun gid =>
    if gid = 3 then some ⟨true, true, false⟩ else if gid < 5 then some ⟨true, false, false⟩ else none
  [.updateAll groups true [1, 3, 7, 2], .resolve (fun id => some (id = 2)) [1, 2, 3],
    .menuUpdate ⟨true, false, false⟩, .updated 0 .requestError groups, .resolved 0 none,
    .resolved 0 (some "192.0.2.1"), .updated 0 .applied groups]

theorem released_sampleRun :
    ∃ s, machine.run init sampleRun = some s ∧ s.jobs = [] ∧ Released s := by
  have halong : machine.Along Harmless init sampleRun := by decide
  exact ⟨_, rfl, rfl, (released_iff rfl rfl).mpr halong⟩

/-- An update from the menu that is done leaves its guard set. -/
theorem menu_update_not_released :
    ¬ ∀ is s, machine.run init is = some s → s.jobs = [] → Released s := by
  intro h
  have hreleased := h [.menuUpdate ⟨true, false, false⟩, .updated 0 .applied fun _ => none] _ rfl rfl
  exact Bool.false_ne_true hreleased.mwSubUpdating.symm

end UpdateGuards

end NekoBox.Window
