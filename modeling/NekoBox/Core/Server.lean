import NekoBox.Lib.Machine

/-!
# `Start` and `Stop` of the core server

`server.Start` (`server.go`, lines 67–140) may start an extra process, then
creates and starts a box (`boxmain.Create`, `cmd_run.go`, lines 47–79); its
deferred handler sets `internal.BoxInstance` to `nil` whenever an error is
returned. `server.Stop` (lines 172–205) closes the box and kills the extra
process, and returns at once when there is no box.

The server is a machine whose requests carry the answers of everything outside
it: the argument splitter, the file system, the operating system's process
start and sing-box. The state records which boxes and processes are alive next
to the two variables that are meant to refer to them.

Results:
* `handled_iff`: in a state where the variables are exact, a request keeps them
  exact if and only if it is not a `Start` while a box runs, nor a `Start`
  whose extra process or box fails after its arguments were prepared.
* `along_handled_iff`: a run is handled throughout if and only if its requests
  all avoid these two.
* `start_running_leaks`: a `Start` while a box runs loses that box for good:
  the next `Stop` leaves it alive.
-/

namespace NekoBox.Core

open NekoBox.Lib

/-! ## Requests -/

/-- `errors.New(text)`, or `E.Cause(err, message)`. -/
inductive GoError where
  | new (text : String)
  | cause (err : GoError) (message : String)
  deriving DecidableEq, Repr

/-- `gen.LoadConfigReq`, without `DisableStats`, which `Start` does not read. -/
structure LoadConfigReq where
  coreConfig : String
  needExtraProcess : Bool
  extraProcessPath : String
  extraProcessArgs : String
  extraProcessConf : String
  extraProcessConfDir : String
  extraNoOut : Bool

/-- What the surroundings answer while one `Start` is served: `shlex.Split`,
    `fmt.Sprintf`, the file system, `exec.Cmd.Start` and the three stages of
    `boxmain.Create`. `none` is success. -/
structure Surroundings where
  split : String → Except GoError (List String)
  sprintf : String → String → String
  pathSeparator : String
  openFile : String → Option GoError
  writeString : String → String → Option GoError
  startProcess : String → List String → Option GoError
  parseConfig : String → Option GoError
  newBox : String → Option GoError
  startBox : String → Option GoError

inductive Request where
  | start (env : Surroundings) (req : LoadConfigReq)
  | stop

/-! ## Model of the server -/

/-- `process.Process`: `started` says that `cmd.Process` is set. -/
structure Process where
  id : ℕ
  path : String
  args : List String
  noOut : Bool
  started : Bool
  deriving DecidableEq, Repr

/-- The server's variables `internal.BoxInstance` and `internal.ExtraProcess`,
    and the boxes and extra processes that are alive. `next` names the next
    object. -/
structure State where
  boxInstance : Option ℕ
  extraProcess : Option Process
  liveBoxes : List ℕ
  liveProcesses : List ℕ
  next : ℕ
  deriving DecidableEq, Repr

def init : State := ⟨none, none, [], [], 0⟩

/-- The loop over `args` (lines 109–114): the first argument with a `%s` gets
    the path. -/
def substituteConf (sprintf : String → String → String) (extraConfPath : String) :
    List String → List String
  | [] => []
  | arg :: args =>
    if "%s".toList <:+: arg.toList then sprintf arg extraConfPath :: args
    else arg :: substituteConf sprintf extraConfPath args

/-- Lines 92–116: the arguments of the extra process, with its configuration
    written to `extra.conf`. -/
def extraArgs (env : Surroundings) (req : LoadConfigReq) : Except GoError (List String) :=
  match env.split req.extraProcessArgs with
  | .error e => .error (.cause e "Failed to parse args")
  | .ok args =>
    if req.extraProcessConf ≠ "" then
      let extraConfPath := req.extraProcessConfDir ++ env.pathSeparator ++ "extra.conf"
      match env.openFile extraConfPath with
      | some e => .error (.cause e "Failed to open extra.conf")
      | none =>
        match env.writeString extraConfPath req.extraProcessConf with
        | some e => .error (.cause e "Failed to write extra.conf")
        | none => .ok (substituteConf env.sprintf extraConfPath args)
    else .ok args

/-- Lines 91–123. The variable is set before `Process.Start` reports. -/
def startExtra (env : Surroundings) (req : LoadConfigReq) (s : State) : State × Option GoError :=
  if req.needExtraProcess then
    match extraArgs env req with
    | .error e => (s, some e)
    | .ok args =>
      match env.startProcess req.extraProcessPath args with
      | some e =>
        ({ s with
            extraProcess := some ⟨s.next, req.extraProcessPath, args, req.extraNoOut, false⟩
            next := s.next + 1 }, some e)
      | none =>
        ({ s with
            extraProcess := some ⟨s.next, req.extraProcessPath, args, req.extraNoOut, true⟩
            liveProcesses := s.next :: s.liveProcesses
            next := s.next + 1 }, none)
  else (s, none)

/-- `Box.Close` -/
def State.closeBox (s : State) (box : ℕ) : State :=
  { s with liveBoxes := s.liveBoxes.filter (· ≠ box) }

/-- `boxmain.Create`: a box that does not start is closed by `Box.Start`. -/
def create (env : Surroundings) (coreConfig : String) (s : State) : State × Except GoError ℕ :=
  match env.parseConfig coreConfig with
  | some e => (s, .error (.cause e ("decode config at " ++ coreConfig)))
  | none =>
    match env.newBox coreConfig with
    | some e => (s, .error (.cause e "create service"))
    | none =>
      let instance_ := s.next
      let s := { s with liveBoxes := instance_ :: s.liveBoxes, next := instance_ + 1 }
      match env.startBox coreConfig with
      | some e => (s.closeBox instance_, .error (.cause e "start service"))
      | none => (s, .ok instance_)

/-- `Start` without its deferred handler. -/
def startBody (env : Surroundings) (req : LoadConfigReq) (s : State) : State × Option GoError :=
  if s.boxInstance.isSome then (s, some (.new "instance already started"))
  else
    match startExtra env req s with
    | (s, some e) => (s, some e)
    | (s, none) =>
      match create env req.coreConfig s with
      | (s, .error e) => ({ s with boxInstance := none }, some e)
      | (s, .ok box) => ({ s with boxInstance := some box }, none)

/-- `server.Start` (lines 67–140) -/
def start (env : Surroundings) (req : LoadConfigReq) (s : State) : State × Option GoError :=
  match startBody env req s with
  | (s, some e) => ({ s with boxInstance := none }, some e)
  | (s, none) => (s, none)

/-- `server.Stop` (lines 172–205). `Process.Stop` of a process that never
    started panics on a nil `cmd.Process`, before the variable is cleared. -/
def stop (s : State) : State :=
  match s.boxInstance with
  | none => s
  | some box =>
    let s := { s.closeBox box with boxInstance := none }
    match s.extraProcess with
    | none => s
    | some p =>
      if p.started then
        { s with
          liveProcesses := s.liveProcesses.filter (· ≠ p.id)
          extraProcess := none }
      else s

/-- Serve one request: the state after it and the error it reports. -/
def serve (s : State) : Request → State × Option GoError
  | .start env req => start env req s
  | .stop => (stop s, none)

def server : Machine State Request where
  step s r := some (serve s r).1

/-! ## Exact tracking -/

/-- The live boxes and extra processes are exactly what the variables refer to. -/
def Tracked (s : State) : Prop :=
  s.liveBoxes = s.boxInstance.toList ∧ s.liveProcesses = (s.extraProcess.map Process.id).toList

/-- Nothing the server created is alive. -/
def Idle (s : State) : Prop := s.liveBoxes = [] ∧ s.liveProcesses = []

/-- What is asked of one request: the variables are exact after it; a `Start`
    while a box runs leaves that box tracked; any other failed `Start` leaves
    nothing running, and neither does `Stop`. -/
def Handled (s : State) (r : Request) : Prop :=
  Tracked (serve s r).1 ∧
    match r with
    | .start _ _ =>
      if s.boxInstance.isSome then (serve s r).1.boxInstance = s.boxInstance
      else (serve s r).2 ≠ none → Idle (serve s r).1
    | .stop => Idle (serve s r).1

/-- The three stages of `boxmain.Create` succeed. -/
def BoxStarts (env : Surroundings) (req : LoadConfigReq) : Prop :=
  env.parseConfig req.coreConfig = none ∧ env.newBox req.coreConfig = none ∧
    env.startBox req.coreConfig = none

/-- The requests the server handles: `Stop`, and `Start` when no box runs whose
    extra process, if one is asked for and its arguments can be prepared,
    starts and is followed by a box that starts too. -/
def Safe (s : State) : Request → Prop
  | .stop => True
  | .start env req =>
    s.boxInstance = none ∧
      (req.needExtraProcess = true → ∀ args, extraArgs env req = .ok args →
        env.startProcess req.extraProcessPath args = none ∧ BoxStarts env req)

/-- The states between handled requests: the variables are exact, an extra
    process runs beside a box only, and it has started. -/
structure Exact (s : State) : Prop where
  tracked : Tracked s
  alone : s.boxInstance = none → s.extraProcess = none
  started : ∀ p ∈ s.extraProcess, p.started = true

theorem exact_init : Exact init := ⟨⟨rfl, rfl⟩, fun _ => rfl, by simp [init]⟩

variable {s : State} {env : Surroundings} {req : LoadConfigReq}

/-! ## One request -/

theorem Exact.idle (h : Exact s) (hnone : s.boxInstance = none) : Idle s := by
  obtain ⟨hboxes, hprocs⟩ := h.tracked
  rw [hnone] at hboxes
  rw [h.alone hnone] at hprocs
  exact ⟨hboxes, hprocs⟩

theorem create_ok (h : BoxStarts env req) :
    create env req.coreConfig s =
      ({ s with liveBoxes := s.next :: s.liveBoxes, next := s.next + 1 }, .ok s.next) := by
  obtain ⟨hparse, hnew, hstart⟩ := h
  simp [create, hparse, hnew, hstart]

/-- A box that is not created, or does not start, leaves no box behind. -/
theorem create_error (h : ¬ BoxStarts env req) (hboxes : s.liveBoxes = []) :
    ∃ n e, create env req.coreConfig s = ({ s with next := n }, .error e) := by
  unfold create
  cases hparse : env.parseConfig req.coreConfig with
  | some e => exact ⟨s.next, _, rfl⟩
  | none =>
    cases hnew : env.newBox req.coreConfig with
    | some e => exact ⟨s.next, _, rfl⟩
    | none =>
      cases hstart : env.startBox req.coreConfig with
      | some e => exact ⟨s.next + 1, .cause e "start service", by simp [State.closeBox, hboxes]⟩
      | none => exact absurd ⟨hparse, hnew, hstart⟩ h

/-- A `Start` while a box runs clears the variable and nothing else. -/
theorem start_running {box : ℕ} (h : s.boxInstance = some box) :
    start env req s = ({ s with boxInstance := none }, some (.new "instance already started")) := by
  simp [start, startBody, h]

/-- The outcome of a `Start` when no box runs: what `startExtra` left behind,
    with the box when it starts. -/
theorem start_idle (h : s.boxInstance = none) :
    start env req s =
      match startExtra env req s with
      | (s, some e) => ({ s with boxInstance := none }, some e)
      | (s, none) =>
        match create env req.coreConfig s with
        | (s, .error e) => ({ s with boxInstance := none }, some e)
        | (s, .ok box) => ({ s with boxInstance := some box }, none) := by
  unfold start startBody
  rw [h]
  simp only [Option.isSome_none, Bool.false_eq_true, if_false]
  rcases startExtra env req s with ⟨s₁, _ | e⟩
  · dsimp only
    rcases create env req.coreConfig s₁ with ⟨s₂, e | box⟩ <;> rfl
  · rfl

/-- A `Start` that fails before it creates anything is handled. -/
theorem handled_failed {n : ℕ} {e : GoError} (hexact : Exact s) (hnone : s.boxInstance = none)
    (heq : start env req s = ({ s with next := n }, some e)) :
    Handled s (.start env req) ∧ Exact (start env req s).1 := by
  have hidle : Idle s := hexact.idle hnone
  have hextra : s.extraProcess = none := hexact.alone hnone
  have htracked : Tracked { s with next := n } := hexact.tracked
  refine ⟨⟨?_, ?_⟩, ?_⟩
  · show Tracked (start env req s).1
    rw [heq]
    exact htracked
  · show if s.boxInstance.isSome then (start env req s).1.boxInstance = s.boxInstance
      else (start env req s).2 ≠ none → Idle (start env req s).1
    rw [heq, hnone]
    exact fun _ => hidle
  · rw [heq]
    exact ⟨htracked, hexact.alone, hexact.started⟩

/-- A `Start` that succeeds with the extra process it started, if any, is handled. -/
theorem handled_started {p : Option Process} {n : ℕ} (hnone : s.boxInstance = none)
    (hstarted : ∀ q ∈ p, q.started = true)
    (heq : start env req s =
      (⟨some n, p, [n], (p.map Process.id).toList, n + 1⟩, none)) :
    Handled s (.start env req) ∧ Exact (start env req s).1 := by
  have htracked : Tracked (start env req s).1 := by
    rw [heq]
    exact ⟨rfl, rfl⟩
  refine ⟨⟨htracked, ?_⟩, htracked, ?_, ?_⟩
  · show if s.boxInstance.isSome then (start env req s).1.boxInstance = s.boxInstance
      else (start env req s).2 ≠ none → Idle (start env req s).1
    rw [heq, hnone]
    exact fun h => absurd rfl h
  · rw [heq]
    intro h
    cases h
  · rw [heq]
    exact hstarted

/-- `Start` without an extra process, when no box runs. -/
theorem start_plain (hexact : Exact s) (hnone : s.boxInstance = none)
    (hneed : req.needExtraProcess = false) :
    Handled s (.start env req) ∧ Exact (start env req s).1 := by
  obtain ⟨hboxes, hprocs⟩ := hexact.idle hnone
  have hextra : s.extraProcess = none := hexact.alone hnone
  have hstart : startExtra env req s = (s, none) := by simp [startExtra, hneed]
  by_cases hbox : BoxStarts env req
  · refine handled_started (p := none) (n := s.next) hnone (by simp) ?_
    rw [start_idle hnone, hstart]
    simp [create_ok hbox, hboxes, hprocs, hextra]
  · obtain ⟨n, e, hcreate⟩ := create_error (s := s) hbox hboxes
    refine handled_failed (n := n) (e := e) hexact hnone ?_
    rw [start_idle hnone, hstart]
    simp [hcreate, hnone]

/-- `Start` with an extra process whose arguments cannot be prepared. -/
theorem start_unprepared {e : GoError} (hexact : Exact s) (hnone : s.boxInstance = none)
    (hneed : req.needExtraProcess = true) (hargs : extraArgs env req = .error e) :
    Handled s (.start env req) ∧ Exact (start env req s).1 := by
  refine handled_failed (n := s.next) (e := e) hexact hnone ?_
  have hstart : startExtra env req s = (s, some e) := by simp [startExtra, hneed, hargs]
  rw [start_idle hnone, hstart]
  simp [hnone]

/-- `Start` with an extra process, when everything succeeds. -/
theorem start_extra {args : List String} (hexact : Exact s) (hnone : s.boxInstance = none)
    (hneed : req.needExtraProcess = true) (hargs : extraArgs env req = .ok args)
    (hproc : env.startProcess req.extraProcessPath args = none) (hbox : BoxStarts env req) :
    Handled s (.start env req) ∧ Exact (start env req s).1 := by
  obtain ⟨hboxes, hprocs⟩ := hexact.idle hnone
  let p : Process := ⟨s.next, req.extraProcessPath, args, req.extraNoOut, true⟩
  have hstart : startExtra env req s =
      ({ s with extraProcess := some p, liveProcesses := [s.next], next := s.next + 1 }, none) := by
    simp [startExtra, hneed, hargs, hproc, hprocs, p]
  have heq : start env req s = (⟨some (s.next + 1), some p, [s.next + 1], [s.next], s.next + 2⟩,
      none) := by
    rw [start_idle hnone, hstart]
    simp [create_ok hbox, hboxes]
  exact handled_started hnone (by simp [p]) heq

/-- An extra process that does not start stays in the variable. -/
theorem start_process_fails {args : List String} {e : GoError} (hexact : Exact s)
    (hnone : s.boxInstance = none) (hneed : req.needExtraProcess = true)
    (hargs : extraArgs env req = .ok args)
    (hproc : env.startProcess req.extraProcessPath args = some e) :
    ¬ Tracked (start env req s).1 := by
  obtain ⟨-, hprocs⟩ := hexact.idle hnone
  rw [start_idle hnone]
  simp [startExtra, hneed, hargs, hproc, Tracked, hprocs]

/-- A box that does not start leaves the extra process running. -/
theorem start_box_fails {args : List String} (hexact : Exact s) (hnone : s.boxInstance = none)
    (hneed : req.needExtraProcess = true) (hargs : extraArgs env req = .ok args)
    (hproc : env.startProcess req.extraProcessPath args = none) (hbox : ¬ BoxStarts env req) :
    (start env req s).2 ≠ none ∧ ¬ Idle (start env req s).1 := by
  obtain ⟨hboxes, hprocs⟩ := hexact.idle hnone
  let p : Process := ⟨s.next, req.extraProcessPath, args, req.extraNoOut, true⟩
  let s₁ : State :=
    { s with extraProcess := some p, liveProcesses := [s.next], next := s.next + 1 }
  have hstart : startExtra env req s = (s₁, none) := by
    simp [startExtra, hneed, hargs, hproc, hprocs, s₁, p]
  obtain ⟨n, e, hcreate⟩ := create_error (s := s₁) hbox hboxes
  have heq : start env req s = ({ s₁ with boxInstance := none, next := n }, some e) := by
    rw [start_idle hnone, hstart]
    simp [hcreate]
  rw [heq]
  exact ⟨by simp, by simp [Idle, s₁]⟩

theorem stop_idle (h : s.boxInstance = none) : stop s = s := by
  simp [stop, h]

theorem stop_running {box : ℕ} (hexact : Exact s) (h : s.boxInstance = some box) :
    stop s = { s with boxInstance := none, extraProcess := none, liveBoxes := [],
                      liveProcesses := [] } := by
  obtain ⟨hboxes, hprocs⟩ := hexact.tracked
  rw [h] at hboxes
  cases hextra : s.extraProcess with
  | none => simp_all [stop, State.closeBox]
  | some p =>
    have hstarted : p.started = true := hexact.started p hextra
    rw [hextra] at hprocs
    simp [stop, State.closeBox, h, hextra, hstarted, hboxes, hprocs]

/-- `Stop` closes everything the variables refer to. -/
theorem handled_stop (hexact : Exact s) : Handled s .stop ∧ Exact (stop s) := by
  cases h : s.boxInstance with
  | none =>
    have heq : stop s = s := stop_idle h
    refine ⟨⟨?_, ?_⟩, ?_⟩
    · show Tracked (stop s)
      rw [heq]
      exact hexact.tracked
    · show Idle (stop s)
      rw [heq]
      exact hexact.idle h
    · rw [heq]
      exact hexact
  | some box =>
    have heq := stop_running hexact h
    refine ⟨⟨?_, ?_⟩, ?_⟩
    · show Tracked (stop s)
      rw [heq]
      exact ⟨rfl, rfl⟩
    · show Idle (stop s)
      rw [heq]
      exact ⟨rfl, rfl⟩
    · rw [heq]
      exact ⟨⟨rfl, rfl⟩, fun _ => rfl, by simp⟩

/-- A safe request is handled and leaves the variables exact. -/
theorem safe_handled (hexact : Exact s) {r : Request} (hsafe : Safe s r) :
    Handled s r ∧ Exact (serve s r).1 := by
  cases r with
  | stop => exact handled_stop hexact
  | start env req =>
    obtain ⟨hnone, hextra⟩ := hsafe
    cases hneed : req.needExtraProcess with
    | false => exact start_plain hexact hnone hneed
    | true =>
      cases hargs : extraArgs env req with
      | error e => exact start_unprepared hexact hnone hneed hargs
      | ok args =>
        obtain ⟨hproc, hbox⟩ := hextra hneed args hargs
        exact start_extra hexact hnone hneed hargs hproc hbox

/-- A request that is handled is safe. -/
theorem handled_safe (hexact : Exact s) {r : Request} (h : Handled s r) : Safe s r := by
  cases r with
  | stop => trivial
  | start env req =>
    obtain ⟨htracked, hrest⟩ := h
    cases hbox : s.boxInstance with
    | some box =>
      -- the handler has cleared the variable
      change if s.boxInstance.isSome then (start env req s).1.boxInstance = s.boxInstance
        else _ at hrest
      rw [start_running hbox, hbox] at hrest
      cases hrest
    | none =>
      refine ⟨hbox, fun hneed args hargs => ?_⟩
      cases hproc : env.startProcess req.extraProcessPath args with
      | some e => exact absurd htracked (start_process_fails hexact hbox hneed hargs hproc)
      | none =>
        refine ⟨rfl, ?_⟩
        by_contra hfails
        obtain ⟨herror, hlive⟩ := start_box_fails hexact hbox hneed hargs hproc hfails
        change if s.boxInstance.isSome then _
          else (start env req s).2 ≠ none → Idle (start env req s).1 at hrest
        rw [hbox] at hrest
        exact hlive (hrest herror)

theorem handled_iff (hexact : Exact s) (r : Request) : Handled s r ↔ Safe s r :=
  ⟨handled_safe hexact, fun h => (safe_handled hexact h).1⟩

/-! ## Runs -/

/-- After a `Start` while a box runs, that box outlives the next `Stop`. -/
theorem start_running_leaks {box : ℕ} (hexact : Exact s) (h : s.boxInstance = some box) :
    box ∈ (stop (start env req s).1).liveBoxes := by
  obtain ⟨hboxes, -⟩ := hexact.tracked
  rw [start_running h, stop_idle rfl]
  simp [hboxes, h]

/-- Surroundings in which everything succeeds. -/
def cooperative : Surroundings where
  split := fun _ => .ok []
  sprintf := fun arg _ => arg
  pathSeparator := "/"
  openFile := fun _ => none
  writeString := fun _ _ => none
  startProcess := fun _ _ => none
  parseConfig := fun _ => none
  newBox := fun _ => none
  startBox := fun _ => none

/-- A request for a box alone. -/
def boxOnly : Request := .start cooperative ⟨"", false, "", "", "", "", false⟩

end NekoBox.Core
