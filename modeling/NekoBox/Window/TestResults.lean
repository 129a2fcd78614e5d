import NekoBox.Config.TestTags
import NekoBox.Lib.Machine
import NekoBox.Qt.Strings

/-!
# The results of tests

The window sends tests to the core (`mainwindow_rpc.cpp`, lines 78–183, 313–358 and
446–617; `ProxyAutoTester.cpp`, lines 120–184 and 355–500) and stores what comes back
with the profiles. A result comes in two ways: in the answer to the request, and, while
the window waits for that, through queries of what the core has measured so far. The
core keeps these results in `URLReporter`, in `CountryResults` and in `SpTQuerier`
(`test_utils.go`), which all tests share and which a query takes them from without
regard to the test they belong to. A result has a tag, and the reader looks up the
profile in the `tag2entID` of its own test.

A goroutine of the core, a thread of the window and the surroundings (a profile is
started, stopped, added or removed) may take a step at any time. Tests are started for
any configuration that has been built, at any time and any number of times.

* `attributed_of_harmless`: in a run of harmless steps a profile gets the results of its
  own tests;
* `earlier_result_stored`: a result that the automatic test has left in `URLReporter` is
  stored with another profile.
-/

namespace NekoBox.Window

open NekoBox.Lib NekoBox.Config

namespace TestResults

/-! ## Model -/

/-- What a profile keeps of tests. -/
structure Stored where
  latencyInt : ℤ
  dlSpeed : String
  ulSpeed : String
  testCountry : String
  deriving DecidableEq

inductive Assignment where
  | latencyInt (ms : ℤ)
  | dlSpeed (speed : String)
  | ulSpeed (speed : String)
  | testCountry (code : String)
  deriving DecidableEq

def Stored.assign (ent : Stored) : Assignment → Stored
  | .latencyInt ms => { ent with latencyInt := ms }
  | .dlSpeed speed => { ent with dlSpeed := speed }
  | .ulSpeed speed => { ent with ulSpeed := speed }
  | .testCountry code => { ent with testCountry := code }

/-- What is measured: the fields of `URLTestResult` and `SpeedTestResult` that the window
    reads, but the tag. -/
structure Outcome where
  latency : ℤ := 0
  error : String := ""
  dlSpeed : String := ""
  ulSpeed : String := ""
  serverCountry : String := ""
  cancelled : Bool := false
  deriving DecidableEq

/-- A result. Two notes are only for the statements: the number of the test, and the
    profile whose outbound has been measured. -/
structure Result where
  tag : String
  outcome : Outcome
  test : ℕ
  profile : Option ℤ
  deriving DecidableEq

/-- The function that has sent a test. -/
inductive Sender where
  | runURLTest
  | urlTestCurrent
  | runSpeedTest (country : Bool)
  | performTest (latencyThreshold : ℤ)
  | checkActiveProxyHealth
  deriving DecidableEq

/-- It sends `Test`, the others send `SpeedTest`. -/
def Sender.isURLTest : Sender → Bool
  | .runSpeedTest _ => false
  | _ => true

/-- What a test is about: the outbounds of a test configuration, the full configuration
    of a profile, or the box that runs in the core. -/
inductive Subject where
  | batch (config : TestConfig)
  | full (entID : ℤ) (defaultTag : String)
  | current (useProxyTag : Bool)

/-- The map that goes with a test; empty for a full configuration and for the box that
    runs. -/
def Subject.tag2entID : Subject → List (String × ℤ)
  | .batch config => config.tag2entID
  | _ => []

/-- A test in the core. It is over before it has begun if the configuration is refused. -/
inductive Core where
  | requested
  | measuring
  | returned
  deriving DecidableEq

/-- The thread that has sent a test. -/
inductive Client where
  | waiting
  /-- The loop over the results of the answer. -/
  | handling (results : List Result)
  | done
  deriving DecidableEq

def Client.results : Client → List Result
  | .handling results => results
  | _ => []

/-- The thread that queries the results of a test until its answer is there. -/
inductive Poller where
  | sleeping
  | asking
  | ended
  deriving DecidableEq

/-- A test, with what the core and the window have of it. -/
structure Test where
  sender : Sender
  subject : Subject
  client : Client
  poller : Poller
  core : Core
  /-- `testCtx` is cancelled -/
  cancelled : Bool
  /-- The outbounds of the box it is made in, once there is one -/
  box : Option TaggedOutbounds
  /-- `outboundTags` in the core, and those not measured -/
  tags : List String
  pending : List String
  /-- `resMap`, or the `results` of a speed test -/
  results : List Result

/-- A box: its outbounds, and the tag of the default one. -/
structure Box where
  outbounds : TaggedOutbounds
  defaultTag : String

/-- What happens to the profiles. -/
inductive Event where
  | added (id : ℤ) (ent : Stored)
  | removed (id : ℤ)
  /-- A thread of a test stores a result. -/
  | stored (id : ℤ) (test : ℕ) (result : Result) (assignment : Assignment)
  /-- A profile whose configuration or whose own request is refused gets a latency
      without a result. -/
  | refused (id : ℤ) (assignment : Assignment)
  deriving DecidableEq

/-- The profiles of the window, with their identifiers. -/
abbrev Profiles := ℤ → Option Stored

def Event.apply (profiles : Profiles) : Event → Profiles
  | .added id ent => Function.update profiles id (some ent)
  | .removed id => Function.update profiles id none
  | .stored id _ _ assignment | .refused id assignment =>
    Function.update profiles id ((profiles id).map (Stored.assign · assignment))

/-- The window and the core. `history` is only for the statements. -/
structure State where
  stopSpeedtest : Bool
  profiles : Profiles
  running : Option ℤ
  built : List TestConfig
  tests : List Test
  /-- `internal.BoxInstance` -/
  boxInstance : Option Box
  urlReporter : List Result
  countryResults : List Result
  /-- `SpTQuerier`; no result has been stored yet if there is none -/
  current : Option Result
  isRunning : Bool
  history : List Event

def init : State where
  stopSpeedtest := false
  profiles := fun _ => none
  running := none
  built := []
  tests := []
  boxInstance := none
  urlReporter := []
  countryResults := []
  current := none
  isRunning := false
  history := []

inductive Action where
  -- the threads that send tests
  | build (items : List TestItem)
  /-- `stopSpeedtest.store(false)` -/
  | admitTests
  | stopTests (reached : Bool)
  /-- For the configuration with the number `b`, or a full one in it. -/
  | runURLTest (b : ℕ) (entID : Option ℤ)
  | urlTestCurrent (fullConfig : Bool)
  | runSpeedTest (b : ℕ) (entID : Option ℤ) (country : Bool)
  | runSpeedTestCurrent (fullConfig country : Bool)
  | performTest (b : ℕ) (entID : Option ℤ) (latencyThreshold : ℤ)
  | checkActiveProxyHealth (useProxyTag : Bool)
  -- the core, at work on the test with the number `k`
  | create (k : ℕ) (accepted : Bool)
  | measure (k : ℕ) (tag : String) (outcome : Outcome)
  | abort (k : ℕ) (tag : String)
  /-- `setIsRunning(true)` and `storeResult` of a speed test -/
  | setRunning (k : ℕ)
  | storeResult (k : ℕ) (outcome : Outcome)
  | answer (k : ℕ) (received : Bool)
  -- the threads of the window, at work on the test with the number `k`
  | rpcFails (k : ℕ)
  | handle (k : ℕ)
  | wake (k : ℕ)
  | queryURLTest (k : ℕ) (received : Bool)
  | querySpeedtest (k : ℕ) (elapsed : Bool)
  | queryCountryTest (k : ℕ) (received : Bool)
  -- the surroundings
  | run (id : Option ℤ)
  | startBox (box : Option Box)
  | addProfile (id : ℤ) (ent : Stored)
  | removeProfile (id : ℤ)

/-! ### What is stored -/

/-- `runURLTest` (lines 123–134 and 169–180) -/
def urlTestAssignments (_ : Stored) (res : Outcome) : List Assignment :=
  if res.error = "" then [.latencyInt res.latency]
  else if Qt.containsText res.error "test aborted" ∨ Qt.containsText res.error "context canceled" then
    [.latencyInt 0]
  else [.latencyInt (-1)]

/-- `url_test_current` (lines 345–352) -/
def urlTestCurrentAssignments (_ : Stored) (res : Outcome) : List Assignment :=
  if res.latency ≤ 0 then [.latencyInt (-1)] else [.latencyInt res.latency]

/-- `performTest` (lines 437–449 and 480–482) -/
def performTestAssignments (latencyThreshold : ℤ) (_ : Stored) (res : Outcome) : List Assignment :=
  if res.error = "" ∧ 0 < res.latency ∧ res.latency < latencyThreshold then
    [.latencyInt res.latency]
  else [.latencyInt (-1)]

section SpeedTest

variable (countryNameToCode : String → String)

/-- The latency and the country of a speed test that succeeds. -/
def countryAssignments (ent : Stored) (res : Outcome) : List Assignment :=
  (if ent.latencyInt ≤ 0 ∧ 0 < res.latency then [.latencyInt res.latency] else []) ++
    if res.serverCountry ≠ "" then [.testCountry (countryNameToCode res.serverCountry)] else []

/-- `querySpeedtest` (lines 468–478); `elapsed` says that 500 ms have passed. -/
def querySpeedtestAssignments (elapsed : Bool) (ent : Stored) (res : Outcome) : List Assignment :=
  if res.error = "" ∧ res.cancelled = false ∧ elapsed = true then
    (if res.dlSpeed ≠ "" then [.dlSpeed res.dlSpeed] else []) ++
    (if res.ulSpeed ≠ "" then [.ulSpeed res.ulSpeed] else []) ++
    countryAssignments countryNameToCode ent res
  else []

/-- `queryCountryTest` (lines 505–511) -/
def queryCountryTestAssignments (ent : Stored) (res : Outcome) : List Assignment :=
  if res.error = "" ∧ res.cancelled = false then countryAssignments countryNameToCode ent res
  else []

/-- `runSpeedTest` (lines 597–612) -/
def runSpeedTestAssignments (ent : Stored) (res : Outcome) : List Assignment :=
  if res.cancelled then []
  else if res.error = "" then
    [.dlSpeed res.dlSpeed, .ulSpeed res.ulSpeed] ++ countryAssignments countryNameToCode ent res
  else [.dlSpeed "N/A", .ulSpeed "N/A", .latencyInt (-1), .testCountry ""]

end SpeedTest

namespace State

def record (s : State) (e : Event) : State :=
  { s with profiles := e.apply s.profiles, history := s.history ++ [e] }

def setTest (s : State) (k : ℕ) (t : Test) : State := { s with tests := s.tests.set k t }

/-- A thread of the test with the number `k` stores a result with the profile it has
    looked up, if that is there. -/
def store (s : State) (k : ℕ) (entID : Option ℤ) (assignments : Stored → Outcome → List Assignment)
    (res : Result) : State :=
  match entID with
  | none => s
  | some id =>
    match s.profiles id with
    | none => s
    | some ent => ((assignments ent res.outcome).map (Event.stored id k res)).foldl record s

end State

/-! ### The core -/

/-- The outbound with a tag comes from a profile. -/
def Test.profile (t : Test) (tag : String) : Option ℤ := (t.box.bind (List.lookup tag)).join

def Test.result (t : Test) (k : ℕ) (tag : String) (outcome : Outcome) : Result :=
  ⟨tag, outcome, k, t.profile tag⟩

def Test.measuring (t : Test) (box : TaggedOutbounds) (tags : List String) : Test :=
  { t with core := .measuring, box := some box, tags := tags, pending := tags }

/-- `resolveLiveTags` (`server.go`, lines 280–292) -/
def resolveLiveTags (box : Box) (tags : List String) : List String :=
  let known := tags.filter fun tag => (box.outbounds.lookup tag).isSome
  if known = [] then [box.defaultTag] else known

/-- The beginning of `server.Test` and of `server.SpeedTest` (`server.go`, lines 294–325
    and 453–485). A configuration is refused for its tags or for other reasons. -/
def Test.create (accepts : List String → Bool) (accepted : Bool) (boxInstance : Option Box) (k : ℕ)
    (t : Test) : Test :=
  match t.subject with
  | .batch config =>
    if accepted && accepts (config.outbounds.map Prod.fst) then
      t.measuring config.outbounds config.outboundTags
    else { t with core := .returned }
  | .full entID tag =>
    if accepted then t.measuring [(tag, some entID)] [tag] else { t with core := .returned }
  | .current useProxyTag =>
    match boxInstance with
    | none =>
      { t with
        core := .measuring
        box := some []
        tags := ["proxy"]
        results := [⟨"proxy", { error := "Instance is not running" }, k, none⟩] }
    | some box => t.measuring box.outbounds (resolveLiveTags box (if useProxyTag then ["proxy"] else []))

/-- The goroutines of a `BatchURLTest` and of the country test run side by side; a speed
    test takes the tags in order. -/
def Test.measures (t : Test) (tag : String) : Bool :=
  t.core = .measuring ∧
    if t.sender = .runSpeedTest false then t.pending.head? = some tag else tag ∈ t.pending

def Test.measured (t : Test) (tag : String) (res : Result) : Test :=
  { t with pending := t.pending.erase tag, results := res :: t.results }

/-- A result of the test with the number `k` comes (`BatchURLTest` and
    `BatchSpeedTest`). -/
def State.measure (s : State) (k : ℕ) (t : Test) (tag : String) (outcome : Outcome) : State :=
  let res := t.result k tag outcome
  let s := s.setTest k (t.measured tag res)
  if t.sender.isURLTest then { s with urlReporter := s.urlReporter ++ [res] }
  else if t.sender = .runSpeedTest false then { s with isRunning := false }
  else if (t.box.bind (List.lookup tag)).isSome then
    { s with countryResults := s.countryResults ++ [res] }
  else s

/-- A tag whose turn comes after `StopTest`. A speed test breaks off. -/
def Test.abort (t : Test) (k : ℕ) (tag : String) : Test :=
  if t.sender.isURLTest then t.measured tag (t.result k tag { error := "test aborted" })
  else { t with pending := t.pending.erase tag }

/-- The results in the order of the tags. -/
def Test.reply (t : Test) : List Result :=
  t.tags.filterMap fun tag => t.results.find? fun res => res.tag = tag

/-! ### The threads of the window -/

namespace State

/-- The configuration with the number `b`, or a full one in it. -/
def subject (s : State) (b : ℕ) : Option ℤ → Option Subject
  | none =>
    (s.built[b]?).bind fun config =>
      if config.outboundTags = [] then none else some (.batch config)
  | some entID =>
    (s.built[b]?).bind fun config => (config.fullConfigs.lookup entID).map (Subject.full entID)

def send (s : State) (sender : Sender) (poller : Poller) (subject : Subject) : State :=
  { s with tests := s.tests ++ [{
      sender := sender
      subject := subject
      client := .waiting
      poller := poller
      core := .requested
      cancelled := false
      box := none
      tags := []
      pending := []
      results := [] }] }

/-- The running profile is there and has no full configuration. -/
def useProxyTag (s : State) (fullConfig : Bool) : Bool :=
  (s.running.bind s.profiles).isSome && !fullConfig

/-- The profile for which a thread of a test takes a result. -/
def recipient (s : State) (t : Test) (res : Result) : Option ℤ :=
  match t.subject with
  | .current _ => s.running
  | subject => subject.tag2entID.lookup res.tag

/-- The profile for a result of the answer (lines 155–159 and 581–585;
    `performTest`, lines 425–430 and 463). A speed test of a full configuration finds none. -/
def answered (s : State) (t : Test) (res : Result) : Option ℤ :=
  match t.subject with
  | .full entID _ => if t.sender.isURLTest then some entID else none
  | _ => s.recipient t res

/-- The profile for a result that a speed test is asked for (lines 454–456 and 496–498).
    The value of a map for an absent key is 0. -/
def queried (s : State) (t : Test) (res : Result) : Option ℤ :=
  match t.subject with
  | .current _ => s.running
  | _ => some ((s.recipient t res).getD 0)

/-- One result of the answer; of `url_test_current` only the first one counts, and there
    is no next state without a running profile. -/
def handle (countryNameToCode : String → String) (s : State) (k : ℕ) (t : Test) : Option State :=
  match t.client with
  | .handling [] => some (s.setTest k { t with client := .done })
  | .handling (res :: results) =>
    let next := s.setTest k { t with client := .handling results }
    match t.sender with
    | .runURLTest => some (next.store k (s.answered t res) urlTestAssignments res)
    | .urlTestCurrent =>
      if s.running = none then none
      else
        some ((s.setTest k { t with client := .done }).store k (s.answered t res)
          urlTestCurrentAssignments res)
    | .runSpeedTest _ =>
      some (next.store k (s.answered t res) (runSpeedTestAssignments countryNameToCode) res)
    | .performTest latencyThreshold =>
      some (next.store k (s.answered t res) (performTestAssignments latencyThreshold) res)
    | .checkActiveProxyHealth => some next
  | _ => none

/-- The request has failed. The automatic test then stores a latency with the profile
    of a full configuration (line 484). -/
def rpcFails (s : State) (k : ℕ) (t : Test) : State :=
  let s := s.setTest k { t with client := .done }
  match t.sender, t.subject with
  | .performTest _, .full entID _ => s.record (.refused entID (.latencyInt (-1)))
  | _, _ => s

/-- `queryCountryTest` has no profile for a result (line 499). The profile that runs
    need not be one of the profiles. -/
def noProfile (s : State) (t : Test) (res : Result) : Bool :=
  match t.subject with
  | .current _ => s.running.isNone
  | _ => ((s.queried t res).bind s.profiles).isNone

/-- The loop of `queryCountryTest`, which ends at the first result without a profile. -/
def storeCountries (countryNameToCode : String → String) (s : State) (k : ℕ) (t : Test) :
    List Result → State
  | [] => s
  | res :: results =>
    if s.noProfile t res then s
    else
      (s.store k (s.queried t res) (queryCountryTestAssignments countryNameToCode)
        res).storeCountries countryNameToCode k t results

end State

def Event.addedId : Event → Option ℤ
  | .added id _ => some id
  | _ => none

section Step

variable (accepts : List String → Bool) (countryNameToCode : String → String)

/-- A step at work on the test with the number `k`. -/
def State.at (s : State) (k : ℕ) (step : Test → Option State) : Option State :=
  (s.tests[k]?).bind step

def step (s : State) : Action → Option State
  | .build items =>
    let config := buildTestConfig items
    let s := (config.invalid.map (Event.refused · (.latencyInt (-1)))).foldl State.record s
    some (if config.failed then s else { s with built := s.built ++ [config] })
  | .admitTests => some { s with stopSpeedtest := false }
  | .stopTests reached =>
    let cancel (t : Test) : Test := if t.core = .measuring then { t with cancelled := true } else t
    some { s with
      stopSpeedtest := true
      tests := if reached then s.tests.map cancel else s.tests }
  | .runURLTest b entID =>
    if s.stopSpeedtest then none
    else (s.subject b entID).map (s.send .runURLTest .sleeping)
  | .urlTestCurrent fullConfig =>
    some (s.send .urlTestCurrent .ended (.current (s.useProxyTag fullConfig)))
  | .runSpeedTest b entID country =>
    if s.stopSpeedtest then none
    else (s.subject b entID).map (s.send (.runSpeedTest country) .sleeping)
  | .runSpeedTestCurrent fullConfig country =>
    if s.stopSpeedtest then none
    else some (s.send (.runSpeedTest country) .sleeping (.current (s.useProxyTag fullConfig)))
  | .performTest b entID latencyThreshold =>
    (s.subject b entID).map (s.send (.performTest latencyThreshold) .ended)
  | .checkActiveProxyHealth useProxyTag =>
    some (s.send .checkActiveProxyHealth .ended (.current useProxyTag))
  | .create k accepted =>
    s.at k fun t =>
      if t.core = .requested then
        some (s.setTest k (t.create accepts accepted s.boxInstance k))
      else none
  | .measure k tag outcome =>
    s.at k fun t => if t.measures tag then some (s.measure k t tag outcome) else none
  | .abort k tag =>
    s.at k fun t =>
      if t.cancelled ∧ t.core = .measuring ∧ tag ∈ t.pending then
        some (s.setTest k (t.abort k tag))
      else none
  | .setRunning k =>
    s.at k fun t =>
      if t.sender = .runSpeedTest false ∧ t.core = .measuring ∧ t.pending ≠ [] then
        some { s with isRunning := true }
      else none
  | .storeResult k outcome =>
    s.at k fun t =>
      if t.sender = .runSpeedTest false ∧ t.core = .measuring then
        t.pending.head?.map fun tag => { s with current := some (t.result k tag outcome) }
      else none
  | .answer k received =>
    s.at k fun t =>
      if t.core = .measuring ∧ t.pending = [] then
        some (s.setTest k { t with
          core := .returned
          client := if received ∧ t.client = .waiting then .handling t.reply else t.client })
      else none
  | .rpcFails k => s.at k fun t => if t.client = .waiting then some (s.rpcFails k t) else none
  | .handle k => s.at k (s.handle countryNameToCode k)
  | .wake k =>
    s.at k fun t =>
      if t.poller = .sleeping then
        some (s.setTest k { t with poller := if t.client = .waiting then .asking else .ended })
      else none
  | .queryURLTest k received =>
    s.at k fun t =>
      if t.sender = .runURLTest ∧ t.poller = .asking then
        let next := { s.setTest k { t with poller := .sleeping } with urlReporter := [] }
        let storeOne (s : State) (res : Result) : State :=
          s.store k (t.subject.tag2entID.lookup res.tag) urlTestAssignments res
        some (if received then s.urlReporter.foldl storeOne next else next)
      else none
  | .querySpeedtest k elapsed =>
    s.at k fun t =>
      if t.sender = .runSpeedTest false ∧ t.poller = .asking then
        let next := s.setTest k { t with poller := .sleeping }
        match s.current with
        | none => some next
        | some res =>
          some (if s.isRunning then
            next.store k (s.queried t res) (querySpeedtestAssignments countryNameToCode elapsed) res
          else next)
      else none
  | .queryCountryTest k received =>
    s.at k fun t =>
      if t.sender = .runSpeedTest true ∧ t.poller = .asking then
        let next := { s.setTest k { t with poller := .sleeping } with countryResults := [] }
        some (if received then next.storeCountries countryNameToCode k t s.countryResults else next)
      else none
  | .run id => some { s with running := id }
  | .startBox box => some { s with boxInstance := box }
  | .addProfile id ent =>
    -- no identifier is given twice while the program runs, and the first one is 1
    if 0 < id ∧ id ∉ s.history.filterMap Event.addedId then some (s.record (.added id ent))
    else none
  | .removeProfile id => some (s.record (.removed id))

def machine : Machine State Action := ⟨step accepts countryNameToCode⟩

end Step

/-! ## Harmless steps -/

/-- A test of the box that runs has measured the profile that runs now. -/
def State.MeasuresRunning (s : State) (t : Test) : Prop :=
  match t.subject with
  | .current _ => ∀ tag ∈ t.tags, s.running = none ∨ t.profile tag = s.running
  | _ => True

/-- The test with the number `k` has no profile for the results of other tests. -/
def State.PassesOver (s : State) (k : ℕ) (t : Test) (results : List Result) : Prop :=
  ∀ res ∈ results, res.test = k ∨ s.recipient t res = none

/-- A step is harmless if

    * a query for the results of a test finds none of another test for whose tag the test
      has a profile,
    * the profile that runs when a result of a test of the running box is stored is the
      one that has been measured. -/
def Harmless (s : State) : Action → Prop
  | .queryURLTest k received =>
    received = true → ∀ t ∈ s.tests[k]?, s.PassesOver k t s.urlReporter
  | .querySpeedtest k elapsed =>
    elapsed = true → s.isRunning = true → ∀ t ∈ s.tests[k]?,
      s.MeasuresRunning t ∧ s.PassesOver k t s.current.toList
  | .queryCountryTest k received =>
    received = true → ∀ t ∈ s.tests[k]?,
      s.MeasuresRunning t ∧ s.PassesOver k t s.countryResults
  | .handle k =>
    ∀ t ∈ s.tests[k]?, t.sender ≠ .checkActiveProxyHealth → s.MeasuresRunning t
  | _ => True

instance (s : State) (t : Test) : Decidable (s.MeasuresRunning t) := by
  unfold State.MeasuresRunning
  split <;> infer_instance

instance (s : State) (k : ℕ) (t : Test) (results : List Result) :
    Decidable (s.PassesOver k t results) :=
  inferInstanceAs (Decidable (∀ res ∈ results, _))

instance (s : State) (i : Action) : Decidable (Harmless s i) := by
  unfold Harmless
  split <;> infer_instance

/-- The profiles are what their history makes of them, and each result that a thread of a
    test has stored with a profile was measured in this test and for this profile. -/
structure Attributed (s : State) : Prop where
  accounted : s.profiles = s.history.foldl Event.apply fun _ => none
  own : ∀ id test res assignment, .stored id test res assignment ∈ s.history →
    res.test = test ∧ res.profile = some id

/-! ## What harmless steps keep -/

/-- The result has been measured in the test, which has the number `k`. -/
def Test.Owns (t : Test) (k : ℕ) (res : Result) : Prop :=
  res.test = k ∧ res.tag ∈ t.tags ∧ res.profile = t.profile res.tag

def Known (tests : List Test) (res : Result) : Prop :=
  ∃ t, tests[res.test]? = some t ∧ t.Owns res.test res

/-- The tags of a test lead to the profiles whose outbounds have them. -/
def Test.Faithful (t : Test) : Prop :=
  match t.subject with
  | .batch config =>
    config.Mapped ∧ ∀ tag ∈ t.tags, ∀ id, config.tag2entID.lookup tag = some id →
      t.profile tag = some id
  | .full entID _ => ∀ tag ∈ t.tags, t.profile tag = some entID
  | .current _ => True

structure Test.Inv (t : Test) (k : ℕ) : Prop where
  faithful : t.Faithful
  requested : t.core = .requested → t.tags = []
  pending : ∀ tag ∈ t.pending, tag ∈ t.tags
  results : ∀ res ∈ t.results, t.Owns k res
  client : ∀ res ∈ t.client.results, t.Owns k res

structure Inv (s : State) : Prop where
  built : ∀ config ∈ s.built, config.Mapped
  tests : ∀ (k : ℕ) (t : Test), s.tests[k]? = some t → t.Inv k
  urlReporter : ∀ res ∈ s.urlReporter, Known s.tests res
  countryResults : ∀ res ∈ s.countryResults, Known s.tests res
  current : ∀ res ∈ s.current, Known s.tests res
  zero : s.profiles 0 = none
  attributed : Attributed s

theorem inv_init : Inv init where
  built _ hmem := absurd hmem List.not_mem_nil
  tests k t hk := by
    have hnone : init.tests[k]? = none := List.getElem?_nil
    rw [hnone] at hk
    cases hk
  urlReporter _ hmem := absurd hmem List.not_mem_nil
  countryResults _ hmem := absurd hmem List.not_mem_nil
  current _ hmem := by cases hmem
  zero := rfl
  attributed := ⟨rfl, fun _ _ _ _ hmem => absurd hmem List.not_mem_nil⟩

/-! ### Tests -/

/-- A test has become another one; the box in which it is made does not change. -/
structure Test.Extends (t t' : Test) : Prop where
  subject : t'.subject = t.subject
  box : t.tags ≠ [] → t'.box = t.box ∧ t'.tags = t.tags

theorem Test.Owns.extends {t t' : Test} {k : ℕ} {res : Result} (h : t.Owns k res)
    (hextends : t.Extends t') : t'.Owns k res := by
  obtain ⟨htest, htag, hprofile⟩ := h
  obtain ⟨hbox, htags⟩ := hextends.box (List.ne_nil_of_mem htag)
  refine ⟨htest, ?_, ?_⟩
  · rw [htags]
    exact htag
  · rw [hprofile, Test.profile, Test.profile, hbox]

/-- A result stays known. -/
theorem Known.set {tests : List Test} {res : Result} {k : ℕ} {t t' : Test} (h : Known tests res)
    (hk : tests[k]? = some t) (hextends : t.Extends t') : Known (tests.set k t') res := by
  obtain ⟨t₀, ht₀, howns⟩ := h
  by_cases heq : k = res.test
  · subst heq
    rw [hk] at ht₀
    obtain rfl := Option.some.inj ht₀
    refine ⟨t', ?_, howns.extends hextends⟩
    rw [List.getElem?_set_self (List.getElem?_eq_some_iff.mp hk).1]
  · refine ⟨t₀, ?_, howns⟩
    rw [List.getElem?_set_ne heq, ht₀]

theorem Known.append {tests : List Test} {res : Result} (h : Known tests res) (t : Test) :
    Known (tests ++ [t]) res := by
  obtain ⟨t₀, ht₀, howns⟩ := h
  refine ⟨t₀, ?_, howns⟩
  rw [List.getElem?_append_left (List.getElem?_eq_some_iff.mp ht₀).1, ht₀]

variable {s s' : State}

theorem Inv.setTest {k : ℕ} {t t' : Test} (h : Inv s) (hk : s.tests[k]? = some t)
    (hextends : t.Extends t') (hinv : t'.Inv k) : Inv (s.setTest k t') where
  built := h.built
  tests := by
    intro j u hu
    by_cases heq : k = j
    · subst heq
      have hset : (s.tests.set k t')[k]? = some t' := by
        rw [List.getElem?_set_self (List.getElem?_eq_some_iff.mp hk).1]
      obtain rfl := Option.some.inj (hset.symm.trans hu)
      exact hinv
    · have hset : (s.tests.set k t')[j]? = s.tests[j]? := List.getElem?_set_ne heq
      exact h.tests j u (hset.symm.trans hu)
  urlReporter res hres := (h.urlReporter res hres).set hk hextends
  countryResults res hres := (h.countryResults res hres).set hk hextends
  current res hres := (h.current res hres).set hk hextends
  zero := h.zero
  attributed := ⟨h.attributed.accounted, h.attributed.own⟩

/-- A test changes that keeps its box and what it has measured. -/
theorem Inv.setTest_of_eq {k : ℕ} {t t' : Test} (h : Inv s) (hk : s.tests[k]? = some t)
    (hsubject : t'.subject = t.subject) (hbox : t'.box = t.box) (htags : t'.tags = t.tags)
    (hcore : t'.core = .requested → t.core = .requested)
    (hpending : ∀ tag ∈ t'.pending, tag ∈ t.pending)
    (hresults : ∀ res ∈ t'.results, res ∈ t.results)
    (hclient : ∀ res ∈ t'.client.results, res ∈ t.results ∨ res ∈ t.client.results) :
    Inv (s.setTest k t') := by
  have hinv := h.tests k t hk
  have hextends : t.Extends t' := ⟨hsubject, fun _ => ⟨hbox, htags⟩⟩
  refine h.setTest hk hextends ⟨?_, ?_, ?_, ?_, ?_⟩
  · have hfaithful := hinv.faithful
    unfold Test.Faithful Test.profile at hfaithful ⊢
    rw [hsubject, hbox, htags]
    exact hfaithful
  · intro hrequested
    rw [htags, hinv.requested (hcore hrequested)]
  · intro tag htag
    rw [htags]
    exact hinv.pending tag (hpending tag htag)
  · intro res hres
    exact (hinv.results res (hresults res hres)).extends hextends
  · intro res hres
    rcases hclient res hres with hmem | hmem
    · exact (hinv.results res hmem).extends hextends
    · exact (hinv.client res hmem).extends hextends

/-- A test that has no results yet gets a box. -/
theorem Test.Inv.measuring {t : Test} {k : ℕ} (h : t.Inv k) (hrequested : t.core = .requested)
    {box : TaggedOutbounds} {tags : List String} (hfaithful : (t.measuring box tags).Faithful) :
    (t.measuring box tags).Inv k := by
  have hnone := h.requested hrequested
  refine ⟨hfaithful, nofun, fun tag htag => htag, ?_, ?_⟩
  · intro res hres
    have howns := (h.results res hres).2.1
    rw [hnone] at howns
    cases howns
  · intro res hres
    have howns := (h.client res hres).2.1
    rw [hnone] at howns
    cases howns

/-- The core takes a request. -/
theorem Test.Inv.create {accepts : List String → Bool}
    (haccepts : ∀ tags, accepts tags = true → tags.Nodup) {t : Test} {k : ℕ} (h : t.Inv k)
    (hrequested : t.core = .requested) (accepted : Bool) (boxInstance : Option Box) :
    (t.create accepts accepted boxInstance k).Inv k ∧
      t.Extends (t.create accepts accepted boxInstance k) := by
  have hnone := h.requested hrequested
  have hreturned : ({ t with core := .returned } : Test).Inv k ∧
      t.Extends { t with core := .returned } :=
    ⟨⟨h.faithful, nofun, h.pending, h.results, h.client⟩, rfl, fun _ => ⟨rfl, rfl⟩⟩
  have hextends : ∀ box tags, t.Extends (t.measuring box tags) :=
    fun _ _ => ⟨rfl, fun htags => absurd hnone htags⟩
  have hfaithful := h.faithful
  unfold Test.Faithful at hfaithful
  unfold Test.create
  cases hsubject : t.subject with
  | batch config =>
    rw [hsubject] at hfaithful hreturned
    dsimp only
    split
    · next haccepted =>
      rw [Bool.and_eq_true] at haccepted
      refine ⟨h.measuring hrequested ?_, hextends _ _⟩
      have hsame : (t.measuring config.outbounds config.outboundTags).subject = .batch config :=
        hsubject
      unfold Test.Faithful
      rw [hsame]
      refine ⟨hfaithful.1, fun tag _ id hlookup => ?_⟩
      have houtbound := hfaithful.1.lookup_outbounds (haccepts _ haccepted.2) hlookup
      show (config.outbounds.lookup tag).join = some id
      rw [houtbound]
      rfl
    · exact hreturned
  | full entID defaultTag =>
    rw [hsubject] at hreturned
    dsimp only
    split
    · refine ⟨h.measuring hrequested ?_, hextends _ _⟩
      have hsame : (t.measuring [(defaultTag, some entID)] [defaultTag]).subject =
          .full entID defaultTag := hsubject
      unfold Test.Faithful
      rw [hsame]
      intro tag htag
      obtain rfl := List.mem_singleton.mp htag
      show (List.lookup tag [(tag, some entID)]).join = some entID
      rw [List.lookup_cons_self]
      rfl
    · exact hreturned
  | current useProxyTag =>
    have hcurrent : ∀ t' : Test, t'.subject = t.subject → t'.Faithful := by
      intro t' hsame
      unfold Test.Faithful
      rw [hsame, hsubject]
      trivial
    cases boxInstance with
    | some box => exact ⟨h.measuring hrequested (hcurrent _ rfl), hextends _ _⟩
    | none =>
      refine ⟨⟨hcurrent _ hsubject.symm, nofun, ?_, ?_, ?_⟩, hsubject.symm, fun htags => absurd hnone htags⟩
      · intro tag htag
        have hmem := h.pending tag htag
        rw [hnone] at hmem
        cases hmem
      · intro res hres
        obtain rfl := List.mem_singleton.mp hres
        exact ⟨rfl, List.mem_singleton_self _, rfl⟩
      · intro res hres
        have howns := (h.client res hres).2.1
        rw [hnone] at howns
        cases howns

theorem Test.owns_result (t : Test) (k : ℕ) {tag : String} (htag : tag ∈ t.tags)
    (outcome : Outcome) : t.Owns k (t.result k tag outcome) :=
  ⟨rfl, htag, rfl⟩

/-- A tag has been measured. -/
theorem Inv.measured {k : ℕ} {t : Test} (h : Inv s) (hk : s.tests[k]? = some t) {tag : String}
    (htag : tag ∈ t.tags) (outcome : Outcome) :
    Inv (s.setTest k (t.measured tag (t.result k tag outcome))) ∧
      Known (s.tests.set k (t.measured tag (t.result k tag outcome))) (t.result k tag outcome) := by
  have hinv := h.tests k t hk
  have hextends : t.Extends (t.measured tag (t.result k tag outcome)) :=
    ⟨rfl, fun _ => ⟨rfl, rfl⟩⟩
  have howns := t.owns_result k htag outcome
  refine ⟨h.setTest hk hextends ⟨?_, hinv.requested, ?_, ?_, hinv.client⟩, ?_⟩
  · exact hinv.faithful
  · intro tag' htag'
    exact hinv.pending tag' (List.mem_of_mem_erase htag')
  · intro res hres
    rcases List.mem_cons.mp hres with rfl | hres
    · exact howns
    · exact hinv.results res hres
  · have hknown : Known s.tests (t.result k tag outcome) := ⟨t, hk, howns⟩
    exact hknown.set hk hextends

theorem Inv.pushURLReporter (h : Inv s) {res : Result} (hres : Known s.tests res) :
    Inv { s with urlReporter := s.urlReporter ++ [res] } where
  built := h.built
  tests := h.tests
  urlReporter := by
    intro res' hres'
    rcases List.mem_append.mp hres' with hmem | hmem
    · exact h.urlReporter res' hmem
    · rw [List.mem_singleton.mp hmem]
      exact hres
  countryResults := h.countryResults
  current := h.current
  zero := h.zero
  attributed := ⟨h.attributed.accounted, h.attributed.own⟩

theorem Inv.pushCountryResults (h : Inv s) {res : Result} (hres : Known s.tests res) :
    Inv { s with countryResults := s.countryResults ++ [res] } where
  built := h.built
  tests := h.tests
  urlReporter := h.urlReporter
  countryResults := by
    intro res' hres'
    rcases List.mem_append.mp hres' with hmem | hmem
    · exact h.countryResults res' hmem
    · rw [List.mem_singleton.mp hmem]
      exact hres
  current := h.current
  zero := h.zero
  attributed := ⟨h.attributed.accounted, h.attributed.own⟩

/-- A goroutine of the core ends. -/
theorem Inv.measure {k : ℕ} {t : Test} (h : Inv s) (hk : s.tests[k]? = some t) {tag : String}
    (htag : tag ∈ t.tags) (outcome : Outcome) : Inv (s.measure k t tag outcome) := by
  obtain ⟨hinv, hknown⟩ := h.measured hk htag outcome
  unfold State.measure
  dsimp only
  split
  · exact hinv.pushURLReporter hknown
  · split
    · exact ⟨hinv.built, hinv.tests, hinv.urlReporter, hinv.countryResults, hinv.current, hinv.zero,
        hinv.attributed.accounted, hinv.attributed.own⟩
    · split
      · exact hinv.pushCountryResults hknown
      · exact hinv

/-- A thread sends a test. -/
theorem Inv.send (h : Inv s) (sender : Sender) (poller : Poller) {subject : Subject}
    (hmapped : ∀ config, subject = .batch config → config.Mapped) :
    Inv (s.send sender poller subject) where
  built := h.built
  tests := by
    intro k t hk
    by_cases hlt : k < s.tests.length
    · have hold : (s.send sender poller subject).tests[k]? = s.tests[k]? :=
        List.getElem?_append_left hlt
      exact h.tests k t (hold.symm.trans hk)
    · have hlast : k = s.tests.length := by
        have hlength := (List.getElem?_eq_some_iff.mp hk).1
        rw [State.send, List.length_append, List.length_singleton] at hlength
        omega
      subst hlast
      have hnew := List.getElem?_concat_length.symm.trans hk
      obtain rfl := Option.some.inj hnew
      refine ⟨?_, fun _ => rfl, nofun, nofun, nofun⟩
      unfold Test.Faithful
      cases subject with
      | batch config => exact ⟨hmapped config rfl, nofun⟩
      | full entID tag => exact nofun
      | current useProxyTag => trivial
  urlReporter res hres := (h.urlReporter res hres).append _
  countryResults res hres := (h.countryResults res hres).append _
  current res hres := (h.current res hres).append _
  zero := h.zero
  attributed := ⟨h.attributed.accounted, h.attributed.own⟩

/-- A configuration that has been built leads from its tags to its profiles. -/
theorem Inv.subject_mapped (h : Inv s) {b : ℕ} {entID : Option ℤ} {subject : Subject}
    (hsubject : s.subject b entID = some subject) (config : TestConfig)
    (hbatch : subject = .batch config) : config.Mapped := by
  subst hbatch
  cases entID with
  | none =>
    obtain ⟨built, hbuilt, hif⟩ := Option.bind_eq_some_iff.mp hsubject
    obtain ⟨-, heq⟩ := Option.ite_none_left_eq_some.mp hif
    cases heq
    exact h.built config (List.mem_of_getElem? hbuilt)
  | some id =>
    obtain ⟨built, hbuilt, hmap⟩ := Option.bind_eq_some_iff.mp hsubject
    obtain ⟨tag, -, heq⟩ := Option.map_eq_some_iff.mp hmap
    cases heq

/-! ### Profiles -/

/-- An event after which the results are still those of their profiles. -/
def Event.IsOwn : Event → Prop
  | .added id _ => id ≠ 0
  | .stored id test res _ => res.test = test ∧ res.profile = some id
  | _ => True

theorem Inv.record (h : Inv s) {e : Event} (he : e.IsOwn) : Inv (s.record e) where
  built := h.built
  tests := h.tests
  urlReporter := h.urlReporter
  countryResults := h.countryResults
  current := h.current
  zero := by
    show e.apply s.profiles 0 = none
    cases e with
    | added id ent => exact (Function.update_of_ne (Ne.symm he) _ _).trans h.zero
    | removed id =>
      show Function.update s.profiles id none 0 = none
      rw [Function.update_apply]
      split_ifs
      · rfl
      · exact h.zero
    | stored id test res assignment =>
      show Function.update s.profiles id _ 0 = none
      rw [Function.update_apply]
      split_ifs with hzero
      · rw [← hzero, h.zero]
        rfl
      · exact h.zero
    | refused id assignment =>
      show Function.update s.profiles id _ 0 = none
      rw [Function.update_apply]
      split_ifs with hzero
      · rw [← hzero, h.zero]
        rfl
      · exact h.zero
  attributed := by
    constructor
    · show e.apply s.profiles = (s.history ++ [e]).foldl Event.apply _
      rw [List.foldl_append, ← h.attributed.accounted]
      rfl
    · intro id test res assignment hmem
      rcases List.mem_append.mp hmem with hmem | hmem
      · exact h.attributed.own id test res assignment hmem
      · rw [← List.mem_singleton.mp hmem] at he
        exact he

theorem Inv.foldl_record {es : List Event} (h : Inv s) (hes : ∀ e ∈ es, e.IsOwn) :
    Inv (es.foldl State.record s) := by
  induction es generalizing s with
  | nil => exact h
  | cons e es ih =>
    rw [List.forall_mem_cons] at hes
    exact ih (h.record hes.1) hes.2

/-- A thread of a test stores a result of this test with the profile that has been
    measured. -/
theorem Inv.store {k : ℕ} {entID : Option ℤ} {res : Result} (h : Inv s)
    (assignments : Stored → Outcome → List Assignment)
    (hown : ∀ id, entID = some id → id ≠ 0 → res.test = k ∧ res.profile = some id) :
    Inv (s.store k entID assignments res) := by
  unfold State.store
  cases entID with
  | none => exact h
  | some id =>
    dsimp only
    cases hprofile : s.profiles id with
    | none => exact h
    | some ent =>
      have hne : id ≠ 0 := by
        rintro rfl
        rw [h.zero] at hprofile
        cases hprofile
      apply h.foldl_record
      intro e he
      obtain ⟨assignment, -, rfl⟩ := List.mem_map.mp he
      exact hown id rfl hne

@[simp] theorem store_running (k : ℕ) (entID : Option ℤ)
    (assignments : Stored → Outcome → List Assignment) (res : Result) :
    (s.store k entID assignments res).running = s.running := by
  have hfold : ∀ (es : List Event) (s : State), (es.foldl State.record s).running = s.running := by
    intro es
    induction es with
    | nil => exact fun _ => rfl
    | cons e es ih => exact fun s => ih (s.record e)
  unfold State.store
  split
  · rfl
  · split
    · rfl
    · exact hfold _ _

/-- A result from which nothing is stored. -/
theorem store_nil {k : ℕ} {entID : Option ℤ} {assignments : Stored → Outcome → List Assignment}
    {res : Result} (hnil : ∀ ent outcome, assignments ent outcome = []) :
    s.store k entID assignments res = s := by
  unfold State.store
  split
  · rfl
  · split
    · rfl
    · rw [hnil]
      rfl

/-! ### Reading results -/

/-- The profile for a result of the test itself is the one that has been measured. -/
theorem Inv.recipient_own (h : Inv s) {k : ℕ} {t : Test} (hk : s.tests[k]? = some t)
    (hrunning : s.MeasuresRunning t) {res : Result} (howns : t.Owns k res) {id : ℤ}
    (hid : s.recipient t res = some id) : res.profile = some id := by
  obtain ⟨-, htag, hprofile⟩ := howns
  have hfaithful := (h.tests k t hk).faithful
  unfold Test.Faithful at hfaithful
  unfold State.MeasuresRunning at hrunning
  unfold State.recipient at hid
  rw [hprofile]
  cases hsubject : t.subject with
  | batch config =>
    rw [hsubject] at hfaithful hid
    exact hfaithful.2 res.tag htag id hid
  | full entID tag =>
    rw [hsubject] at hid
    cases hid
  | current useProxyTag =>
    rw [hsubject] at hrunning hid
    dsimp only at hrunning hid
    rcases hrunning res.tag htag with hnone | hmeasured
    · rw [hnone] at hid
      cases hid
    · rw [hmeasured, hid]

/-- The results that a query finds go to the profiles that have been measured. -/
theorem Inv.own_of_passesOver (h : Inv s) {k : ℕ} {t : Test} (hk : s.tests[k]? = some t)
    (hrunning : s.MeasuresRunning t) {results : List Result}
    (hknown : ∀ res ∈ results, Known s.tests res) (hpasses : s.PassesOver k t results) :
    ∀ res ∈ results, ∀ id, s.recipient t res = some id → res.test = k ∧ res.profile = some id := by
  intro res hres id hid
  rcases hpasses res hres with rfl | hnone
  · obtain ⟨t', ht', howns⟩ := hknown res hres
    rw [hk] at ht'
    obtain rfl := Option.some.inj ht'
    exact ⟨rfl, h.recipient_own hk hrunning howns hid⟩
  · rw [hnone] at hid
    cases hid

/-- The same for a query that looks up the tags in the map. -/
theorem Inv.own_of_lookup (h : Inv s) {k : ℕ} {t : Test} (hk : s.tests[k]? = some t)
    {results : List Result} (hknown : ∀ res ∈ results, Known s.tests res)
    (hpasses : s.PassesOver k t results) :
    ∀ res ∈ results, ∀ id, t.subject.tag2entID.lookup res.tag = some id →
      res.test = k ∧ res.profile = some id := by
  intro res hres id hid
  cases hsubject : t.subject with
  | batch config =>
    have hrunning : s.MeasuresRunning t := by
      unfold State.MeasuresRunning
      rw [hsubject]
      trivial
    refine h.own_of_passesOver hk hrunning hknown hpasses res hres id ?_
    unfold State.recipient
    rw [hsubject] at hid ⊢
    exact hid
  | full entID tag =>
    rw [hsubject] at hid
    cases hid
  | current useProxyTag =>
    rw [hsubject] at hid
    cases hid

/-- The profile for a result of the answer is the one that has been measured. -/
theorem Inv.answered_own (h : Inv s) {k : ℕ} {t : Test} (hk : s.tests[k]? = some t)
    (hrunning : s.MeasuresRunning t) {res : Result} (howns : t.Owns k res) {id : ℤ}
    (hid : s.answered t res = some id) : res.test = k ∧ res.profile = some id := by
  refine ⟨howns.1, ?_⟩
  have hfaithful := (h.tests k t hk).faithful
  unfold State.answered at hid
  split at hid
  · next entID tag hsubject =>
    obtain ⟨-, heq⟩ := Option.ite_none_right_eq_some.mp hid
    unfold Test.Faithful at hfaithful
    rw [hsubject] at hfaithful
    rw [howns.2.2, hfaithful res.tag howns.2.1, heq]
  · exact h.recipient_own hk hrunning howns hid

/-- A profile that is found when a speed test is asked is that of the result. -/
theorem recipient_of_queried {t : Test} {res : Result} {id : ℤ} (hid : s.queried t res = some id)
    (hne : id ≠ 0) : s.recipient t res = some id := by
  unfold State.queried at hid
  unfold State.recipient at hid ⊢
  cases hsubject : t.subject with
  | current useProxyTag =>
    rw [hsubject] at hid
    exact hid
  | batch config =>
    rw [hsubject] at hid
    dsimp only at hid ⊢
    cases hlookup : (Subject.batch config).tag2entID.lookup res.tag with
    | none =>
      rw [hlookup] at hid
      exact absurd (Option.some.inj hid).symm hne
    | some found =>
      rw [hlookup] at hid
      exact hid
  | full entID tag =>
    rw [hsubject] at hid
    exact absurd (Option.some.inj hid).symm hne

/-- The loop of `queryCountryTest`. -/
theorem Inv.storeCountries (countryNameToCode : String → String) (h : Inv s) {k : ℕ} {t : Test}
    {results : List Result}
    (hown : ∀ res ∈ results, ∀ id, s.recipient t res = some id →
      res.test = k ∧ res.profile = some id) :
    Inv (s.storeCountries countryNameToCode k t results) := by
  induction results generalizing s with
  | nil => exact h
  | cons res results ih =>
    rw [List.forall_mem_cons] at hown
    unfold State.storeCountries
    split
    · exact h
    · refine ih (h.store _ fun id hid hne => hown.1 id (recipient_of_queried hid hne)) ?_
      intro res' hres' id hid
      refine hown.2 res' hres' id ?_
      unfold State.recipient at hid ⊢
      rw [store_running] at hid
      exact hid

/-- The loop of a query of `runURLTest`. -/
theorem Inv.foldl_store {k : ℕ} {t : Test} (h : Inv s) {results : List Result}
    (hown : ∀ res ∈ results, ∀ id, t.subject.tag2entID.lookup res.tag = some id →
      res.test = k ∧ res.profile = some id) :
    Inv (results.foldl (fun s res =>
      s.store k (t.subject.tag2entID.lookup res.tag) urlTestAssignments res) s) := by
  induction results generalizing s with
  | nil => exact h
  | cons res results ih =>
    rw [List.forall_mem_cons] at hown
    exact ih (h.store _ fun id hid _ => hown.1 id hid) hown.2

/-- A result of the answer is handled. -/
theorem Inv.handle (countryNameToCode : String → String) (h : Inv s) {k : ℕ} {t : Test}
    (hk : s.tests[k]? = some t) (hharmless : t.sender ≠ .checkActiveProxyHealth → s.MeasuresRunning t)
    (hstep : s.handle countryNameToCode k t = some s') : Inv s' := by
  have hset : ∀ client : Client, (∀ res ∈ client.results, res ∈ t.client.results) →
      Inv (s.setTest k { t with client := client }) := by
    intro client hclient
    exact h.setTest_of_eq hk rfl rfl rfl id (fun _ htag => htag) (fun _ hres => hres)
      (fun res hres => .inr (hclient res hres))
  unfold State.handle at hstep
  cases hclient : t.client with
  | waiting =>
    rw [hclient] at hstep
    cases hstep
  | done =>
    rw [hclient] at hstep
    cases hstep
  | handling results =>
    cases results with
    | nil =>
      rw [hclient] at hstep
      obtain rfl := Option.some.inj hstep
      exact hset .done nofun
    | cons res results =>
      simp only [hclient] at hstep
      have howns : t.Owns k res := by
        apply (h.tests k t hk).client
        rw [hclient]
        exact List.mem_cons_self
      have hnext := hset (.handling results) fun res' hres' => by
        rw [hclient]
        exact List.mem_cons_of_mem _ hres'
      have hdone := hset .done nofun
      generalize s.setTest k { t with client := .handling results } = next at hstep hnext
      generalize s.setTest k { t with client := .done } = last at hstep hdone
      have hown : t.sender ≠ .checkActiveProxyHealth →
          ∀ id, s.answered t res = some id → id ≠ 0 → res.test = k ∧ res.profile = some id :=
        fun hsender id hid _ => h.answered_own hk (hharmless hsender) howns hid
      cases hsender : t.sender with
      | runURLTest =>
        rw [hsender] at hstep hown
        obtain rfl := Option.some.inj hstep
        exact hnext.store _ (hown nofun)
      | urlTestCurrent =>
        rw [hsender] at hstep hown
        obtain ⟨-, heq⟩ := Option.ite_none_left_eq_some.mp hstep
        obtain rfl := Option.some.inj heq
        exact hdone.store _ (hown nofun)
      | runSpeedTest country =>
        rw [hsender] at hstep hown
        obtain rfl := Option.some.inj hstep
        exact hnext.store _ (hown nofun)
      | performTest latencyThreshold =>
        rw [hsender] at hstep hown
        obtain rfl := Option.some.inj hstep
        exact hnext.store _ (hown nofun)
      | checkActiveProxyHealth =>
        rw [hsender] at hstep
        obtain rfl := Option.some.inj hstep
        exact hnext

/-- The request of a test has failed. -/
theorem Inv.rpcFails (h : Inv s) {k : ℕ} {t : Test} (hk : s.tests[k]? = some t) :
    Inv (s.rpcFails k t) := by
  have hset : Inv (s.setTest k { t with client := .done }) :=
    h.setTest_of_eq hk rfl rfl rfl id (fun _ htag => htag) (fun _ hres => hres) nofun
  unfold State.rpcFails
  dsimp only
  split
  · apply hset.record
    trivial
  · exact hset

/-- The configurations of tests are built. -/
theorem Inv.build (h : Inv s) (items : List TestItem) :
    Inv ((((buildTestConfig items).invalid.map (Event.refused · (.latencyInt (-1)))).foldl
      State.record s)) := by
  apply h.foldl_record
  intro e he
  obtain ⟨id, -, rfl⟩ := List.mem_map.mp he
  trivial

/-- `StopTest` reaches the core. -/
theorem Inv.cancel (h : Inv s) {cancel : Test → Test}
    (hcancel : ∀ t, ∃ cancelled, cancel t = { t with cancelled := cancelled }) :
    Inv { s with tests := s.tests.map cancel } := by
  have hget : ∀ (k : ℕ) (t : Test), s.tests[k]? = some t → (s.tests.map cancel)[k]? = some (cancel t) := by
    intro k t hk
    rw [List.getElem?_map, hk]
    rfl
  have howns : ∀ (t : Test) (k : ℕ) (res : Result), t.Owns k res → (cancel t).Owns k res := by
    intro t k res hres
    obtain ⟨cancelled, heq⟩ := hcancel t
    rw [heq]
    exact hres
  have hknown : ∀ res, Known s.tests res → Known (s.tests.map cancel) res := by
    rintro res ⟨t, ht, hres⟩
    exact ⟨cancel t, hget _ _ ht, howns t _ res hres⟩
  refine ⟨h.built, ?_, ?_, ?_, ?_, h.zero, ⟨h.attributed.accounted, h.attributed.own⟩⟩
  · intro k t' hk
    change (s.tests.map cancel)[k]? = some t' at hk
    rw [List.getElem?_map, Option.map_eq_some_iff] at hk
    obtain ⟨t, ht, rfl⟩ := hk
    obtain ⟨cancelled, heq⟩ := hcancel t
    have hinv := h.tests k t ht
    rw [heq]
    exact ⟨hinv.faithful, hinv.requested, hinv.pending, hinv.results, hinv.client⟩
  · exact fun res hres => hknown res (h.urlReporter res hres)
  · exact fun res hres => hknown res (h.countryResults res hres)
  · exact fun res hres => hknown res (h.current res hres)

/-- Variables that the results do not depend on change. -/
theorem Inv.congr (h : Inv s) (hbuilt : s'.built = s.built) (htests : s'.tests = s.tests)
    (hurl : s'.urlReporter = s.urlReporter) (hcountry : s'.countryResults = s.countryResults)
    (hcurrent : s'.current = s.current) (hprofiles : s'.profiles = s.profiles)
    (hhistory : s'.history = s.history) : Inv s' := by
  refine ⟨?_, ?_, ?_, ?_, ?_, ?_, ?_, ?_⟩
  · rw [hbuilt]
    exact h.built
  · rw [htests]
    exact h.tests
  · rw [hurl, htests]
    exact h.urlReporter
  · rw [hcountry, htests]
    exact h.countryResults
  · rw [hcurrent, htests]
    exact h.current
  · rw [hprofiles]
    exact h.zero
  · rw [hprofiles, hhistory]
    exact h.attributed.accounted
  · rw [hhistory]
    exact h.attributed.own

section Step

variable {accepts : List String → Bool} {countryNameToCode : String → String}

/-- A harmless step. -/
theorem step_inv (haccepts : ∀ tags, accepts tags = true → tags.Nodup) {i : Action} (h : Inv s)
    (hharmless : Harmless s i) (hstep : step accepts countryNameToCode s i = some s') : Inv s' := by
  have hsent : ∀ {b : ℕ} {entID : Option ℤ} (sender : Sender) (poller : Poller),
      (s.subject b entID).map (s.send sender poller) = some s' → Inv s' := by
    intro b entID sender poller hmap
    obtain ⟨subject, hsubject, rfl⟩ := Option.map_eq_some_iff.mp hmap
    exact h.send sender poller (h.subject_mapped hsubject)
  cases i with
  | build items =>
    obtain rfl := Option.some.inj hstep
    have hbuilt := h.build items
    generalize ((buildTestConfig items).invalid.map _).foldl State.record s = next at hbuilt ⊢
    split
    · exact hbuilt
    · refine ⟨?_, hbuilt.tests, hbuilt.urlReporter, hbuilt.countryResults, hbuilt.current,
        hbuilt.zero, hbuilt.attributed.accounted, hbuilt.attributed.own⟩
      intro config hmem
      rcases List.mem_append.mp hmem with hmem | hmem
      · exact hbuilt.built config hmem
      · rw [List.mem_singleton.mp hmem]
        exact TestConfig.mapped_buildTestConfig items
  | admitTests =>
    obtain rfl := Option.some.inj hstep
    exact h.congr rfl rfl rfl rfl rfl rfl rfl
  | stopTests reached =>
    obtain rfl := Option.some.inj hstep
    cases reached with
    | false => exact h.congr rfl rfl rfl rfl rfl rfl rfl
    | true =>
      refine Inv.congr (h.cancel fun t => ?_) rfl rfl rfl rfl rfl rfl rfl
      split
      · exact ⟨true, rfl⟩
      · exact ⟨t.cancelled, rfl⟩
  | runURLTest b entID =>
    obtain ⟨-, hmap⟩ := Option.ite_none_left_eq_some.mp hstep
    exact hsent _ _ hmap
  | urlTestCurrent fullConfig =>
    obtain rfl := Option.some.inj hstep
    exact h.send _ _ nofun
  | runSpeedTest b entID country =>
    obtain ⟨-, hmap⟩ := Option.ite_none_left_eq_some.mp hstep
    exact hsent _ _ hmap
  | runSpeedTestCurrent fullConfig country =>
    obtain ⟨-, heq⟩ := Option.ite_none_left_eq_some.mp hstep
    obtain rfl := Option.some.inj heq
    exact h.send _ _ nofun
  | performTest b entID latencyThreshold => exact hsent _ _ hstep
  | checkActiveProxyHealth useProxyTag =>
    obtain rfl := Option.some.inj hstep
    exact h.send _ _ nofun
  | create k accepted =>
    obtain ⟨t, hk, hif⟩ := Option.bind_eq_some_iff.mp hstep
    obtain ⟨hrequested, heq⟩ := Option.ite_none_right_eq_some.mp hif
    obtain rfl := Option.some.inj heq
    obtain ⟨hinv, hextends⟩ :=
      (h.tests k t hk).create haccepts hrequested accepted s.boxInstance
    exact h.setTest hk hextends hinv
  | measure k tag outcome =>
    obtain ⟨t, hk, hif⟩ := Option.bind_eq_some_iff.mp hstep
    obtain ⟨hmeasures, heq⟩ := Option.ite_none_right_eq_some.mp hif
    obtain rfl := Option.some.inj heq
    have hpending : tag ∈ t.pending := by
      have hturn := (of_decide_eq_true hmeasures).2
      split at hturn
      · exact List.mem_of_head? hturn
      · exact hturn
    exact h.measure hk ((h.tests k t hk).pending tag hpending) outcome
  | abort k tag =>
    obtain ⟨t, hk, hif⟩ := Option.bind_eq_some_iff.mp hstep
    obtain ⟨⟨-, -, hpending⟩, heq⟩ := Option.ite_none_right_eq_some.mp hif
    obtain rfl := Option.some.inj heq
    unfold Test.abort
    split
    · exact (h.measured hk ((h.tests k t hk).pending tag hpending) _).1
    · exact h.setTest_of_eq hk rfl rfl rfl id (fun _ => List.mem_of_mem_erase)
        (fun _ hres => hres) (fun _ => .inr)
  | setRunning k =>
    obtain ⟨t, hk, hif⟩ := Option.bind_eq_some_iff.mp hstep
    obtain ⟨-, heq⟩ := Option.ite_none_right_eq_some.mp hif
    obtain rfl := Option.some.inj heq
    exact h.congr rfl rfl rfl rfl rfl rfl rfl
  | storeResult k outcome =>
    obtain ⟨t, hk, hif⟩ := Option.bind_eq_some_iff.mp hstep
    obtain ⟨-, hmap⟩ := Option.ite_none_right_eq_some.mp hif
    obtain ⟨tag, hhead, rfl⟩ := Option.map_eq_some_iff.mp hmap
    refine ⟨h.built, h.tests, h.urlReporter, h.countryResults, ?_, h.zero,
      h.attributed.accounted, h.attributed.own⟩
    intro res hres
    obtain rfl := Option.some.inj hres
    have htag := (h.tests k t hk).pending tag (List.mem_of_head? hhead)
    exact ⟨t, hk, t.owns_result k htag outcome⟩
  | answer k received =>
    obtain ⟨t, hk, hif⟩ := Option.bind_eq_some_iff.mp hstep
    obtain ⟨-, heq⟩ := Option.ite_none_right_eq_some.mp hif
    obtain rfl := Option.some.inj heq
    refine h.setTest_of_eq hk rfl rfl rfl nofun (fun _ htag => htag) (fun _ hres => hres) ?_
    intro res hres
    dsimp only at hres
    split at hres
    · obtain ⟨tag, -, hfind⟩ := List.mem_filterMap.mp hres
      exact .inl (List.mem_of_find?_eq_some hfind)
    · exact .inr hres
  | rpcFails k =>
    obtain ⟨t, hk, hif⟩ := Option.bind_eq_some_iff.mp hstep
    obtain ⟨-, heq⟩ := Option.ite_none_right_eq_some.mp hif
    obtain rfl := Option.some.inj heq
    exact h.rpcFails hk
  | handle k =>
    obtain ⟨t, hk, hhandle⟩ := Option.bind_eq_some_iff.mp hstep
    exact h.handle countryNameToCode hk (hharmless t hk) hhandle
  | wake k =>
    obtain ⟨t, hk, hif⟩ := Option.bind_eq_some_iff.mp hstep
    obtain ⟨-, heq⟩ := Option.ite_none_right_eq_some.mp hif
    obtain rfl := Option.some.inj heq
    exact h.setTest_of_eq hk rfl rfl rfl id (fun _ htag => htag) (fun _ hres => hres)
      (fun _ => .inr)
  | queryURLTest k received =>
    obtain ⟨t, hk, hif⟩ := Option.bind_eq_some_iff.mp hstep
    obtain ⟨-, heq⟩ := Option.ite_none_right_eq_some.mp hif
    obtain rfl := Option.some.inj heq
    have hasleep : Inv (s.setTest k { t with poller := .sleeping }) :=
      h.setTest_of_eq hk rfl rfl rfl id (fun _ htag => htag) (fun _ hres => hres) (fun _ => .inr)
    have hnext : Inv { s.setTest k { t with poller := .sleeping } with urlReporter := [] } :=
      ⟨hasleep.built, hasleep.tests, nofun, hasleep.countryResults, hasleep.current, hasleep.zero,
        hasleep.attributed.accounted, hasleep.attributed.own⟩
    split
    · next hreceived =>
      exact hnext.foldl_store (h.own_of_lookup hk h.urlReporter (hharmless hreceived t hk))
    · exact hnext
  | querySpeedtest k elapsed =>
    obtain ⟨t, hk, hif⟩ := Option.bind_eq_some_iff.mp hstep
    obtain ⟨-, hmatch⟩ := Option.ite_none_right_eq_some.mp hif
    have hnext : Inv (s.setTest k { t with poller := .sleeping }) :=
      h.setTest_of_eq hk rfl rfl rfl id (fun _ htag => htag) (fun _ hres => hres) (fun _ => .inr)
    dsimp only at hmatch
    split at hmatch
    · obtain rfl := Option.some.inj hmatch
      exact hnext
    · next res hcurrent =>
      obtain rfl := Option.some.inj hmatch
      split
      · next hisRunning =>
        cases elapsed with
        | false =>
          have hnil : ∀ ent outcome,
              querySpeedtestAssignments countryNameToCode false ent outcome = [] :=
            fun ent outcome => if_neg fun hall => Bool.false_ne_true hall.2.2
          rw [store_nil hnil]
          exact hnext
        | true =>
          obtain ⟨hrunning, hpasses⟩ := hharmless rfl hisRunning t hk
          rw [hcurrent] at hpasses
          have hknown : ∀ res' ∈ [res], Known s.tests res' := by
            intro res' hres'
            rw [List.mem_singleton.mp hres']
            exact h.current res hcurrent
          refine hnext.store _ fun id hid hne => ?_
          exact h.own_of_passesOver hk hrunning hknown hpasses res (List.mem_singleton_self _) id
            (recipient_of_queried hid hne)
      · exact hnext
  | queryCountryTest k received =>
    obtain ⟨t, hk, hif⟩ := Option.bind_eq_some_iff.mp hstep
    obtain ⟨-, heq⟩ := Option.ite_none_right_eq_some.mp hif
    obtain rfl := Option.some.inj heq
    have hasleep : Inv (s.setTest k { t with poller := .sleeping }) :=
      h.setTest_of_eq hk rfl rfl rfl id (fun _ htag => htag) (fun _ hres => hres) (fun _ => .inr)
    have hnext : Inv { s.setTest k { t with poller := .sleeping } with countryResults := [] } :=
      ⟨hasleep.built, hasleep.tests, hasleep.urlReporter, nofun, hasleep.current, hasleep.zero,
        hasleep.attributed.accounted, hasleep.attributed.own⟩
    split
    · next hreceived =>
      obtain ⟨hrunning, hpasses⟩ := hharmless hreceived t hk
      exact hnext.storeCountries _ (h.own_of_passesOver hk hrunning h.countryResults hpasses)
    · exact hnext
  | run id =>
    obtain rfl := Option.some.inj hstep
    exact h.congr rfl rfl rfl rfl rfl rfl rfl
  | startBox box =>
    obtain rfl := Option.some.inj hstep
    exact h.congr rfl rfl rfl rfl rfl rfl rfl
  | addProfile id ent =>
    obtain ⟨⟨hpos, -⟩, heq⟩ := Option.ite_none_right_eq_some.mp hstep
    obtain rfl := Option.some.inj heq
    apply h.record
    show id ≠ 0
    omega
  | removeProfile id =>
    obtain rfl := Option.some.inj hstep
    apply h.record
    trivial

/-- **Results.** In a run of harmless steps the results that a profile gets were measured
    for it, in the test that stores them. -/
theorem attributed_of_harmless (accepts : List String → Bool) (countryNameToCode : String → String)
    (haccepts : ∀ tags, accepts tags = true → tags.Nodup) {is : List Action} {s : State}
    (hharmless : (machine accepts countryNameToCode).Along Harmless init is)
    (hrun : (machine accepts countryNameToCode).run init is = some s) : Attributed s :=
  (Machine.run_invariant Harmless Inv
    (fun _ _ _ h hok hstep => step_inv haccepts h hok hstep) inv_init hharmless hrun).attributed

end Step

/-- The tags are distinct. -/
def acceptsDistinct (tags : List String) : Bool := tags.Nodup

/-- A profile with one outbound. -/
def sampleItem (id : ℤ) : TestItem := ⟨id, true, true, false, some (["proxy", "direct"], []), "direct"⟩

/-- Two profiles are tested; the first result comes with a query, both with the
    answer. -/
def sampleRun : List Action :=
  [.addProfile 2 ⟨0, "", "", ""⟩, .addProfile 3 ⟨0, "", "", ""⟩,
    .build [sampleItem 2, sampleItem 3], .admitTests, .runURLTest 0 none, .create 0 true,
    .measure 0 "proxy2" { latency := 70 }, .wake 0, .queryURLTest 0 true,
    .measure 0 "proxy" { latency := 50 }, .answer 0 true, .handle 0, .handle 0, .handle 0, .wake 0]

theorem attributed_of_harmless_sample :
    ∃ s, (machine acceptsDistinct id).run init sampleRun = some s ∧ Attributed s ∧
      s.profiles 2 = some ⟨50, "", "", ""⟩ ∧ s.profiles 3 = some ⟨70, "", "", ""⟩ := by
  have haccepts : ∀ tags, acceptsDistinct tags = true → tags.Nodup := fun _ => of_decide_eq_true
  have hharmless : (machine acceptsDistinct id).Along Harmless init sampleRun := by decide
  exact ⟨_, rfl, attributed_of_harmless _ _ haccepts hharmless rfl, rfl, rfl⟩

/-- The automatic test of profile 2 leaves its result in the core. The first query of a
    test of profile 3 finds it there and stores it with profile 3. -/
theorem earlier_result_stored :
    ∃ s, (machine acceptsDistinct id).run init
        [.addProfile 2 ⟨0, "", "", ""⟩, .addProfile 3 ⟨0, "", "", ""⟩, .build [sampleItem 2],
          .performTest 0 none 1000, .create 0 true, .measure 0 "proxy" { latency := 50 },
          .answer 0 true, .handle 0, .handle 0, .build [sampleItem 3], .admitTests,
          .runURLTest 1 none, .create 1 true, .wake 1, .queryURLTest 1 true] = some s ∧
      s.profiles 3 = some ⟨50, "", "", ""⟩ ∧ ¬ Attributed s := by
  refine ⟨_, rfl, rfl, fun h => ?_⟩
  have hown := h.own 3 1 ⟨"proxy", { latency := 50 }, 0, some 2⟩ (.latencyInt 50) (by decide)
  exact absurd hown.1 (by decide)

end TestResults

end NekoBox.Window
