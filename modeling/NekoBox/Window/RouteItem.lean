import NekoBox.Lib.Machine

/-!
# The rule editor

`RouteItem` (`RouteItem.cpp`) edits the rules of a routing profile: a list widget with their
names, a field with the name of the rule that is selected, and a widget with the value of one
of its attributes. The rule is selected by `currentIndex`, an index of `chain->Rules`, which
the handlers (lines 99–464 and 505–702) change together with the list or not.

`currentIndex` is `none` for -1. Signals are calls: what a widget signals while it is
refilled is part of the function that refills it. An index out of range is an error. `shown`
is the rule that `updateRuleSection` has last put into the widgets; of the values of a rule
only what happens to them is modelled, not what they are (`RuleOps`).

* `updateRuleSection_shows`: the signals between the widgets come to an end, with the
  current rule shown.
* `aligned_iff`: the index is valid and the rule that is shown is the one that an edit
  changes exactly in the runs in which, while a rule is selected, no update from the remote
  comes, no import is shorter than the selection and no refused `accept` drops a rule up to
  it, in which no row is selected that an update has removed, and in which an outbound is
  chosen only for the rule that is selected.
-/

namespace NekoBox.Window

open NekoBox.Lib

namespace RouteItem

/-! ## The code -/

/-- A `RouteRule`. Its `type` is 0 for a custom rule; the `simpleAction` of other rules is 0
    to go direct, 1 to be blocked and 2 to go through the proxy. -/
structure Rule (φ : Type) where
  name : String
  type : ℤ
  simpleAction : ℤ
  fields : φ

/-- What the functions of `RouteRule` and `RoutingChain` do to the values of rules. -/
structure RuleOps (φ : Type) where
  /-- The values of a new rule. -/
  fields : φ
  /-- `set_field_value` of an attribute -/
  setFieldValue : String → List String → φ → φ
  /-- `outboundID = id`, and the action goes with it (lines 224–229). -/
  setOutbound : ℤ → φ → φ
  /-- The values for which the widget of an attribute fires its signal while it is refilled
      with that of a rule. -/
  refill : String → φ → List (List String)
  /-- `RouteRule::isEmpty` -/
  isEmpty : φ → Bool
  /-- The rules that `UpdateSimpleRules` makes of a text for a `simpleAction`, with their
      types, and what it says about the lines it cannot add. -/
  simpleRules : String → ℤ → List (ℤ × φ) × String

/-- A `shared_ptr` to a rule. -/
abbrev Ref := ℕ

structure State (φ : Type) where
  rule : Ref → Rule φ
  /-- The next rule that is made. -/
  next : Ref
  /-- `chain->Rules` -/
  rules : List Ref
  currentIndex : Option ℕ
  lastNum : ℕ
  /-- The names in `ui->route_items`, and its current row. -/
  routeItems : List String
  currentRow : Option ℕ
  /-- `ui->rule_name` -/
  ruleName : String
  /-- `ui->rule_attr` -/
  ruleAttr : String
  /-- `proxy_chooser` is visible. -/
  proxyChooser : Bool
  /-- The windows it has opened, with the rule that each is for. -/
  choosers : List Ref
  shown : Option Ref
  /-- Accepted, or left. -/
  closed : Bool

inductive Failure where
  | outOfRange
  /-- The signals go on for too long. -/
  | depth

abbrev Checked := Except Failure

variable {φ : Type}

/-- `chain->Rules[i]` -/
def State.ruleAt (s : State φ) (i : ℕ) : Checked Ref :=
  match s.rules[i]? with
  | some r => .ok r
  | none => .error .outOfRange

def State.setFields (s : State φ) (r : Ref) (f : φ → φ) : State φ :=
  { s with rule := Function.update s.rule r { s.rule r with fields := f (s.rule r).fields } }

/-- New rules, with the references from `next` on. -/
def State.makeRules (s : State φ) (new : List (Rule φ)) : State φ :=
  { s with
    rule := fun r => if r < s.next then s.rule r else new.getD (r - s.next) (s.rule r)
    next := s.next + new.length }

/-- `ui->route_items->setCurrentRow(row)`, or a click on the row, and the handler of
    `currentRowChanged` (lines 452–456). `section` is `updateRuleSection`. -/
def setCurrentRow (update : State φ → Checked (State φ)) (row : ℕ) (s : State φ) :
    Checked (State φ) :=
  if row < s.routeItems.length then
    if s.currentRow = some row then .ok s
    else update { s with currentRow := some row, currentIndex := some row }
  else .ok { s with currentRow := none }

/-- `updateRouteItemsView` (lines 577–585); the row that `clear` signals is -1. -/
def updateRouteItemsView (update : State φ → Checked (State φ)) (s : State φ) :
    Checked (State φ) :=
  let s := { s with routeItems := [], currentRow := none }
  if s.rules = [] then .ok s
  else
    let s := { s with routeItems := s.rules.map fun r => (s.rule r).name }
    match s.currentIndex with
    | none => .ok s
    | some i => setCurrentRow update i s

/-- `ui->rule_name->setText(text)`, or what is typed there, and the handler of `textChanged`
    (lines 432–438). -/
def setRuleName (update : State φ → Checked (State φ)) (text : String) (s : State φ) :
    Checked (State φ) :=
  if s.ruleName = text then .ok s
  else
    let s := { s with ruleName := text }
    match s.currentIndex with
    | none => .ok s
    | some i => do
      let r ← s.ruleAt i
      updateRouteItemsView update
        { s with rule := Function.update s.rule r { s.rule r with name := text } }

section

variable (ops : RuleOps φ)

/-- Fill the widgets with the value of the current attribute (lines 590–618). The handlers of
    their signals (lines 440–450) set it on the current rule, which is this one. -/
def fill (r : Ref) (s : State φ) : State φ :=
  if s.ruleAttr = "outbound" then { s with proxyChooser := true, shown := some r }
  else
    let set := fun fields value => ops.setFieldValue s.ruleAttr value fields
    { s.setFields r fun fields => (ops.refill s.ruleAttr fields).foldl set fields with
      proxyChooser := false
      shown := some r }

/-- `updateRuleSection` (lines 587–623), with a bound on how often it is called again by the
    signals of the widgets that it refills. -/
def updateRuleSection : ℕ → State φ → Checked (State φ)
  | 0, _ => .error .depth
  | depth + 1, s =>
    match s.currentIndex with
    | none => .ok s
    | some i => do
      let r ← s.ruleAt i
      setRuleName (updateRuleSection depth) (s.rule r).name (fill ops r s)

/-- `updateRuleSection`, as the handlers call it. -/
def refresh (s : State φ) : Checked (State φ) := updateRuleSection ops 2 s

/-- `on_new_route_item_clicked` (lines 662–672) -/
def newRouteItem (s : State φ) : Checked (State φ) := do
  let name := "rule_" ++ toString (s.lastNum + 1)
  let r := s.next
  let s := { s.makeRules [⟨name, 0, 0, ops.fields⟩] with
    lastNum := s.lastNum + 1
    rules := s.rules ++ [r]
    currentIndex := some s.rules.length }
  let s ← setRuleName (refresh ops) name s
  let s ← updateRouteItemsView (refresh ops) { s with currentIndex := some (s.rules.length - 1) }
  refresh ops s

/-- `on_moveup_route_item_clicked` (lines 674–681) -/
def moveUp (s : State φ) : Checked (State φ) :=
  match s.currentIndex with
  | none | some 0 => .ok s
  | some (i + 1) => do
    let curr ← s.ruleAt (i + 1)
    let other ← s.ruleAt i
    updateRouteItemsView (refresh ops)
      { s with rules := (s.rules.set (i + 1) other).set i curr, currentIndex := some i }

/-- `on_movedown_route_item_clicked` (lines 683–690) -/
def moveDown (s : State φ) : Checked (State φ) :=
  match s.currentIndex with
  | none => .ok s
  | some i =>
    if i + 1 = s.rules.length then .ok s
    else do
      let curr ← s.ruleAt i
      let other ← s.ruleAt (i + 1)
      updateRouteItemsView (refresh ops)
        { s with rules := (s.rules.set i other).set (i + 1) curr, currentIndex := some (i + 1) }

/-- `on_delete_route_item_clicked` (lines 692–702). The index before 0 is 0. -/
def deleteRouteItem (s : State φ) : Checked (State φ) :=
  match s.currentIndex with
  | none => .ok s
  | some i => do
    let _ ← s.ruleAt i
    let rules := s.rules.eraseIdx i
    let s := { s with
      rules := rules
      currentIndex := if rules = [] then none else some (i - 1) }
    let s ← updateRouteItemsView (refresh ops) s
    refresh ops s

/-- `chain->Rules.clear(); chain->Rules << parsed;` with the names that `parseJsonArray`
    gives. -/
def replaceRules (parsed : List φ) (s : State φ) : State φ :=
  let new := parsed.mapIdx fun i fields =>
    (⟨"imported rule #" ++ toString (i + 1), 0, 0, fields⟩ : Rule φ)
  { s.makeRules new with rules := List.range' s.next parsed.length }

/-- The import (lines 414–427) of an array of rules; `parseJsonArray` refuses an empty one. -/
def importJson (parsed : List φ) (s : State φ) : Checked (State φ) :=
  if parsed = [] then .ok s
  else do
    let s ← updateRouteItemsView (refresh ops) (replaceRules parsed s)
    refresh ops s

/-- The thread of `update_manually` (lines 100–133), for the rules of the response. -/
def updateManually (parsed : List φ) (s : State φ) : Checked (State φ) :=
  if parsed = [] then .ok s else .ok (replaceRules parsed s)

def ruleTypeToString (type : ℤ) : String :=
  if type = 0 then "custom"
  else if type = 1 then "Address"
  else if type = 2 then "Process Name"
  else if type = 3 then "Process Path"
  else "invalid"

def simpleActionToString (simpleAction : ℤ) : String :=
  if simpleAction = 0 then "direct"
  else if simpleAction = 1 then "block"
  else if simpleAction = 2 then "proxy"
  else "invalid"

def simpleRuleName (type simpleAction : ℤ) : String :=
  "Simple " ++ ruleTypeToString type ++ " -> " ++ simpleActionToString simpleAction

/-- `UpdateSimpleRules` (`RouteEntity.cpp`, lines 787–846), on the state and the messages. -/
def updateSimpleRules (content : String) (simpleAction : ℤ) (st : State φ × String) :
    State φ × String :=
  let s := st.1
  let kept := s.rules.filter fun r =>
    ¬ ((s.rule r).type ≠ 0 ∧ (s.rule r).simpleAction = simpleAction)
  let new := (ops.simpleRules content simpleAction).1.map fun new =>
    (⟨simpleRuleName new.1 simpleAction, new.1, simpleAction, new.2⟩ : Rule φ)
  ({ s.makeRules new with rules := kept ++ List.range' s.next new.length },
    st.2 ++ (ops.simpleRules content simpleAction).2)

/-- The texts of the simple rules, joined for each action. -/
structure Boxes where
  direct : String
  block : String
  proxy : String

/-- `commitSimpleBoxes` (lines 513–532) -/
def commitSimpleBoxes (boxes : Boxes) (s : State φ) : State φ × String :=
  updateSimpleRules ops boxes.proxy 2
    (updateSimpleRules ops boxes.block 1 (updateSimpleRules ops boxes.direct 0 (s, "")))

/-- The handler of the tabs (lines 355–388). -/
def tabChanged (index : ℕ) (boxes : Boxes) (s : State φ) : Checked (State φ) :=
  let s := if index = 2 then { (commitSimpleBoxes ops boxes s).1 with currentIndex := none } else s
  do
    let s ← updateRouteItemsView (refresh ops) s
    refresh ops s

/-- `accept` (lines 534–575) -/
def accept (chainName : String) (boxes : Boxes) (s : State φ) : Checked (State φ) :=
  if chainName = "" then .ok s
  else
    let s := { s with rules := s.rules.filter fun r => !ops.isEmpty (s.rule r).fields }
    if s.rules = [] then .ok s
    else
      let (s, res) := commitSimpleBoxes ops boxes s
      if res ≠ "" then .ok s else .ok { s with closed := true }

/-- A click on `proxy_chooser` (lines 151–154), when it is visible. -/
def clickChooser (s : State φ) : Checked (State φ) :=
  if s.proxyChooser then
    match s.currentIndex with
    | none => .error .outOfRange
    | some i => do
      let r ← s.ruleAt i
      .ok { s with choosers := s.choosers ++ [r] }
  else .ok s

/-- An outbound is chosen in one of the windows (lines 210–233). -/
def setProxy (window : ℕ) (id : ℤ) (s : State φ) : Checked (State φ) :=
  match s.choosers[window]? with
  | none => .ok s
  | some ruleItem =>
    match s.currentIndex with
    | none => .error .outOfRange
    | some i => do
      let r ← s.ruleAt i
      .ok ((s.setFields ruleItem (ops.setOutbound id)).setFields r
        (ops.setFieldValue "outbound" [toString id]))

/-- An edit of the value (lines 234–239 and 440–450). -/
def editValue (value : List String) (s : State φ) : Checked (State φ) :=
  match s.currentIndex with
  | none => .ok s
  | some i => do
    let r ← s.ruleAt i
    .ok (s.setFields r (ops.setFieldValue s.ruleAttr value))

inductive Action (φ : Type) where
  | select (row : ℕ)
  | newRouteItem
  | moveUp
  | moveDown
  | deleteRouteItem
  | importJson (parsed : List φ)
  | updateManually (parsed : List φ)
  | tabChanged (index : ℕ) (boxes : Boxes)
  | accept (chainName : String) (boxes : Boxes)
  | chooseAttr (attr : String)
  | editName (text : String)
  | editValue (value : List String)
  | clickChooser
  | setProxy (window : ℕ) (id : ℤ)

/-- What an action does in an open editor. -/
def act (s : State φ) : Action φ → Checked (State φ)
  | .select row => if row < s.routeItems.length then setCurrentRow (refresh ops) row s else .ok s
  | .newRouteItem => newRouteItem ops s
  | .moveUp => moveUp ops s
  | .moveDown => moveDown ops s
  | .deleteRouteItem => deleteRouteItem ops s
  | .importJson parsed => importJson ops parsed s
  | .updateManually parsed => updateManually parsed s
  | .tabChanged index boxes => tabChanged ops index boxes s
  | .accept chainName boxes => accept ops chainName boxes s
  | .chooseAttr attr =>
    if attr = s.ruleAttr then .ok s else refresh ops { s with ruleAttr := attr }
  | .editName text => setRuleName (refresh ops) text s
  | .editValue value => editValue ops value s
  | .clickChooser => clickChooser s
  | .setProxy window id => setProxy ops window id s

def step (s : State φ) (a : Action φ) : Checked (State φ) :=
  if s.closed then .ok s else act ops s a

def machine : Machine (State φ) (Action φ) := ⟨fun s a => (step ops s a).toOption⟩

end

/-- The editor of a chain with these rules. -/
def init (rules : List (Rule φ)) (lastNum : ℕ) (other : Rule φ) : State φ where
  rule := fun r => rules.getD r other
  next := rules.length
  rules := List.range rules.length
  currentIndex := none
  lastNum := lastNum
  routeItems := rules.map Rule.name
  currentRow := none
  ruleName := ""
  ruleAttr := "ip_version"
  proxyChooser := false
  choosers := []
  shown := none
  closed := false

/-! ## The property -/

/-- `currentIndex` is -1 or the index of the rule that is shown. -/
def Aligned (s : State φ) : Prop :=
  s.closed = false → ∀ i, s.currentIndex = some i → ∃ r, s.rules[i]? = some r ∧ s.shown = some r

/-- The rule that `currentIndex` selects. -/
def State.current (s : State φ) : List Ref :=
  match s.currentIndex with
  | none => []
  | some i => (s.rules[i]?).toList

/-- The rules that an edit changes. -/
def edits (s : State φ) : Action φ → List Ref
  | .editName text => if s.ruleName = text then [] else s.current
  | .editValue _ => s.current
  | .setProxy window _ => (s.choosers[window]?).toList ++ s.current
  | _ => []

/-- A step that uses no invalid index, changes by an edit only the rule that is shown, and
    leaves the index at the rule that is shown. -/
def Safe (ops : RuleOps φ) (s : State φ) (a : Action φ) : Prop :=
  (∃ s', step ops s a = .ok s' ∧ Aligned s') ∧
    (s.closed = false → ∀ r ∈ edits s a, s.shown = some r)

/-- A rule that is left by an `accept` that is refused. -/
def Stays (ops : RuleOps φ) (rule : Rule φ) : Bool :=
  !ops.isEmpty rule.fields && (rule.type = 0 || rule.simpleAction ∉ [0, 1, 2])

/-- What `UpdateSimpleRules` says about the lines of the boxes. -/
def messages (ops : RuleOps φ) (boxes : Boxes) : String :=
  (ops.simpleRules boxes.direct 0).2 ++ (ops.simpleRules boxes.block 1).2 ++
    (ops.simpleRules boxes.proxy 2).2

/-- The condition: see the head of the file. -/
def Harmless (ops : RuleOps φ) (s : State φ) : Action φ → Prop
  | .select row => row < s.routeItems.length → s.currentRow ≠ some row → row < s.rules.length
  | .importJson parsed => ∀ i, s.currentIndex = some i → parsed ≠ [] → i < parsed.length
  | .updateManually parsed => parsed ≠ [] → s.currentIndex = none
  | .accept chainName boxes => chainName ≠ "" →
    (messages ops boxes = "" → ∀ r ∈ s.rules, ops.isEmpty (s.rule r).fields = true) →
      ∀ i, s.currentIndex = some i → ∀ r ∈ s.rules.take (i + 1), Stays ops (s.rule r) = true
  | .clickChooser => s.proxyChooser = true → s.currentIndex ≠ none
  | .setProxy window _ => ∀ r, s.choosers[window]? = some r → s.current = [r]
  | _ => True

/-! ## Refilling the widgets -/

section

variable {ops : RuleOps φ} {s : State φ} {i : ℕ} {r : Ref}

theorem ruleAt_eq (hr : s.rules[i]? = some r) : s.ruleAt i = .ok r := by
  unfold State.ruleAt
  rw [hr]

theorem ruleAt_outOfRange (hr : s.rules[i]? = none) : s.ruleAt i = .error .outOfRange := by
  unfold State.ruleAt
  rw [hr]

/-- What refilling the widgets does not change. -/
structure Kept (s s' : State φ) : Prop where
  rules : s'.rules = s.rules
  next : s'.next = s.next
  currentIndex : s'.currentIndex = s.currentIndex
  closed : s'.closed = s.closed

theorem Kept.refl (s : State φ) : Kept s s := ⟨rfl, rfl, rfl, rfl⟩

theorem Kept.trans {s s' s'' : State φ} (h : Kept s s') (h' : Kept s' s'') : Kept s s'' :=
  ⟨h'.rules.trans h.rules, h'.next.trans h.next, h'.currentIndex.trans h.currentIndex,
    h'.closed.trans h.closed⟩

theorem name_setFields (f : φ → φ) (q : Ref) :
    ((s.setFields r f).rule q).name = (s.rule q).name := by
  unfold State.setFields
  dsimp only
  by_cases hq : q = r
  · rw [hq, Function.update_self]
  · rw [Function.update_of_ne hq]

theorem fill_eq (r : Ref) (s : State φ) :
    ∃ rule proxyChooser, fill ops r s =
        { s with rule := rule, proxyChooser := proxyChooser, shown := some r } ∧
      ∀ q, (rule q).name = (s.rule q).name := by
  unfold fill
  split_ifs
  · exact ⟨s.rule, true, rfl, fun _ => rfl⟩
  · exact ⟨_, false, rfl, name_setFields _⟩

/-- The view selects the row of the current rule, whose signal calls `updateRuleSection`. -/
theorem updateRouteItemsView_eq (update : State φ → Checked (State φ))
    (hi : s.currentIndex = some i) (hlt : i < s.rules.length) :
    updateRouteItemsView update s = update { s with
      routeItems := s.rules.map fun r => (s.rule r).name
      currentRow := some i
      currentIndex := some i } := by
  have hne : s.rules ≠ [] := List.ne_nil_of_length_pos (Nat.zero_lt_of_lt hlt)
  have hrow : i < (s.rules.map fun r => (s.rule r).name).length := by rwa [List.length_map]
  unfold updateRouteItemsView
  dsimp only
  rw [if_neg hne, hi]
  dsimp only
  unfold setCurrentRow
  rw [if_pos hrow, if_neg (Option.some_ne_none i).symm]

/-- A new name is given to the current rule and shown in the list widget. -/
theorem setRuleName_eq (update : State φ → Checked (State φ)) {text : String}
    (hi : s.currentIndex = some i) (hr : s.rules[i]? = some r) (hne : s.ruleName ≠ text) :
    setRuleName update text s = updateRouteItemsView update { s with
      rule := Function.update s.rule r { s.rule r with name := text }
      ruleName := text } := by
  let t : State φ := { s with ruleName := text }
  have ht : t.ruleAt i = .ok r := ruleAt_eq hr
  unfold setRuleName
  rw [if_neg hne]
  dsimp only
  split
  case h_1 hnone => exact absurd (hnone.symm.trans hi).symm (Option.some_ne_none i)
  case h_2 j hj =>
    obtain rfl : j = i := Option.some.inj (hj.symm.trans hi)
    show (t.ruleAt j >>= fun r => updateRouteItemsView update
      { t with rule := Function.update s.rule r { s.rule r with name := text } }) = _
    rw [ht]
    rfl

theorem updateRuleSection_none (depth : ℕ) (hi : s.currentIndex = none) :
    updateRuleSection ops (depth + 1) s = .ok s := by
  unfold updateRuleSection
  rw [hi]

theorem updateRuleSection_outOfRange (depth : ℕ) (hi : s.currentIndex = some i)
    (hr : s.rules[i]? = none) :
    updateRuleSection ops (depth + 1) s = .error .outOfRange := by
  unfold updateRuleSection
  rw [hi]
  dsimp only
  rw [ruleAt_outOfRange hr]
  rfl

theorem updateRuleSection_eq (depth : ℕ) (hi : s.currentIndex = some i)
    (hr : s.rules[i]? = some r) :
    updateRuleSection ops (depth + 1) s =
      setRuleName (updateRuleSection ops depth) (s.rule r).name (fill ops r s) := by
  rw [updateRuleSection]
  rw [hi]
  dsimp only
  rw [ruleAt_eq hr]
  rfl

/-- If the name is there already, its field signals nothing. -/
theorem updateRuleSection_same (depth : ℕ) (hi : s.currentIndex = some i)
    (hr : s.rules[i]? = some r) (hname : s.ruleName = (s.rule r).name) :
    updateRuleSection ops (depth + 1) s = .ok (fill ops r s) := by
  rw [updateRuleSection_eq depth hi hr]
  obtain ⟨rule, proxyChooser, hfill, -⟩ := @fill_eq φ ops r s
  unfold setRuleName
  rw [hfill, if_pos hname]

/-- **The current rule is shown.** The name that is new makes the list widget refill, which
    makes the value refill once more; then the name is there. -/
theorem updateRuleSection_shows (depth : ℕ) (hi : s.currentIndex = some i)
    (hr : s.rules[i]? = some r) :
    ∃ s', updateRuleSection ops (depth + 2) s = .ok s' ∧ Kept s s' ∧ s'.shown = some r := by
  have hlt : i < s.rules.length := (List.getElem?_eq_some_iff.mp hr).1
  rw [updateRuleSection_eq (depth + 1) hi hr]
  obtain ⟨rule, proxyChooser, hfill, hnames⟩ := @fill_eq φ ops r s
  rw [hfill]
  let t : State φ := { s with rule := rule, proxyChooser := proxyChooser, shown := some r }
  let u : State φ := { t with
    rule := Function.update rule r { rule r with name := (s.rule r).name }
    ruleName := (s.rule r).name }
  by_cases hname : s.ruleName = (s.rule r).name
  · refine ⟨t, ?_, ⟨rfl, rfl, rfl, rfl⟩, rfl⟩
    unfold setRuleName
    rw [if_pos hname]
  · have hset : setRuleName (updateRuleSection ops (depth + 1)) (s.rule r).name t =
        updateRouteItemsView (updateRuleSection ops (depth + 1)) u :=
      @setRuleName_eq φ t i r _ _ hi hr hname
    let v : State φ := { u with
      routeItems := u.rules.map fun r => (u.rule r).name
      currentRow := some i
      currentIndex := some i }
    have hv : v.ruleName = (v.rule r).name := by
      show (s.rule r).name = (Function.update rule r { rule r with name := (s.rule r).name } r).name
      rw [Function.update_self]
    have hview : updateRouteItemsView (updateRuleSection ops (depth + 1)) u =
        updateRuleSection ops (depth + 1) v := updateRouteItemsView_eq _ hi hlt
    obtain ⟨rule', proxyChooser', hfill', -⟩ := @fill_eq φ ops r v
    refine ⟨_, (hset.trans hview).trans (updateRuleSection_same depth rfl hr hv), ?_, ?_⟩
    · rw [hfill']
      exact ⟨rfl, rfl, hi.symm, rfl⟩
    · rw [hfill']

/-- The list widget is refilled with the current rule selected, which shows it. -/
theorem updateRouteItemsView_shows (hi : s.currentIndex = some i) (hr : s.rules[i]? = some r) :
    ∃ s', updateRouteItemsView (refresh ops) s = .ok s' ∧ Kept s s' ∧ s'.shown = some r := by
  rw [updateRouteItemsView_eq _ hi (List.getElem?_eq_some_iff.mp hr).1]
  let t : State φ := { s with
    routeItems := s.rules.map fun r => (s.rule r).name
    currentRow := some i
    currentIndex := some i }
  obtain ⟨s', hs', hkept, hshown⟩ := @updateRuleSection_shows φ ops t i r 0 rfl hr
  have ht : Kept s t := ⟨rfl, rfl, hi.symm, rfl⟩
  exact ⟨s', hs', ht.trans hkept, hshown⟩

theorem updateRouteItemsView_none (update : State φ → Checked (State φ))
    (hi : s.currentIndex = none) :
    ∃ s', updateRouteItemsView update s = .ok s' ∧ Kept s s' ∧ s'.shown = s.shown := by
  unfold updateRouteItemsView
  dsimp only
  split_ifs
  · exact ⟨_, rfl, ⟨rfl, rfl, rfl, rfl⟩, rfl⟩
  · split
    case h_1 => exact ⟨_, rfl, ⟨rfl, rfl, rfl, rfl⟩, rfl⟩
    case h_2 i hsome => exact absurd (hi.symm.trans hsome).symm (Option.some_ne_none i)

theorem updateRouteItemsView_outOfRange (update : State φ → Checked (State φ))
    (hi : s.currentIndex = some i) (hr : s.rules[i]? = none) :
    ∃ s', updateRouteItemsView update s = .ok s' ∧ Kept s s' := by
  unfold updateRouteItemsView
  dsimp only
  split_ifs
  · exact ⟨_, rfl, rfl, rfl, rfl, rfl⟩
  · split
    case h_1 hnone => exact absurd (hnone.symm.trans hi).symm (Option.some_ne_none i)
    case h_2 j hj =>
      obtain rfl : j = i := Option.some.inj (hj.symm.trans hi)
      have hrow : ¬ j < (s.rules.map fun r => (s.rule r).name).length := by
        rw [List.length_map]
        exact not_lt.mpr (List.getElem?_eq_none_iff.mp hr)
      unfold setCurrentRow
      rw [if_neg hrow]
      exact ⟨_, rfl, rfl, rfl, rfl, rfl⟩

theorem view_refresh_shows (hi : s.currentIndex = some i) (hr : s.rules[i]? = some r) :
    ∃ s', (updateRouteItemsView (refresh ops) s >>= refresh ops) = .ok s' ∧ Kept s s' ∧
      s'.shown = some r := by
  obtain ⟨t, ht, hkept, -⟩ := @updateRouteItemsView_shows φ ops s i r hi hr
  obtain ⟨s', hs', hkept', hshown⟩ := @updateRuleSection_shows φ ops t i r 0
    (hkept.currentIndex.trans hi) (hkept.rules ▸ hr)
  rw [ht]
  exact ⟨s', hs', hkept.trans hkept', hshown⟩

theorem view_refresh_none (hi : s.currentIndex = none) :
    ∃ s', (updateRouteItemsView (refresh ops) s >>= refresh ops) = .ok s' ∧ Kept s s' ∧
      s'.shown = s.shown := by
  obtain ⟨t, ht, hkept, hshown⟩ := updateRouteItemsView_none (refresh ops) hi
  rw [ht]
  exact ⟨t, updateRuleSection_none 1 (hkept.currentIndex.trans hi), hkept, hshown⟩

theorem view_refresh_outOfRange (hi : s.currentIndex = some i) (hr : s.rules[i]? = none) :
    (updateRouteItemsView (refresh ops) s >>= refresh ops) = .error .outOfRange := by
  obtain ⟨t, ht, hkept⟩ := updateRouteItemsView_outOfRange (refresh ops) hi hr
  rw [ht]
  exact updateRuleSection_outOfRange 1 (hkept.currentIndex.trans hi) (hkept.rules ▸ hr)

theorem setRuleName_shows (text : String) (hi : s.currentIndex = some i)
    (hr : s.rules[i]? = some r) :
    ∃ s', setRuleName (refresh ops) text s = .ok s' ∧ Kept s s' ∧
      (s'.shown = s.shown ∨ s'.shown = some r) := by
  by_cases hname : s.ruleName = text
  · unfold setRuleName
    rw [if_pos hname]
    exact ⟨s, rfl, Kept.refl s, Or.inl rfl⟩
  · rw [setRuleName_eq _ hi hr hname]
    let t : State φ := { s with
      rule := Function.update s.rule r { s.rule r with name := text }
      ruleName := text }
    obtain ⟨s', hs', hkept, hshown⟩ := @updateRouteItemsView_shows φ ops t i r hi hr
    have ht : Kept s t := ⟨rfl, rfl, rfl, rfl⟩
    exact ⟨s', hs', ht.trans hkept, Or.inr hshown⟩

theorem setRuleName_none (update : State φ → Checked (State φ)) (text : String)
    (hi : s.currentIndex = none) :
    ∃ s', setRuleName update text s = .ok s' ∧ Kept s s' ∧ s'.shown = s.shown := by
  unfold setRuleName
  split_ifs
  · exact ⟨s, rfl, Kept.refl s, rfl⟩
  · dsimp only
    split
    case h_1 => exact ⟨_, rfl, ⟨rfl, rfl, rfl, rfl⟩, rfl⟩
    case h_2 i hsome => exact absurd (hi.symm.trans hsome).symm (Option.some_ne_none i)

/-! ## The invariant -/

structure Inv (s : State φ) : Prop where
  aligned : Aligned s
  nodup : s.rules.Nodup
  made : ∀ r ∈ s.rules, r < s.next
  shownMade : ∀ r, s.shown = some r → r < s.next

theorem inv_init (rules : List (Rule φ)) (lastNum : ℕ) (other : Rule φ) :
    Inv (init rules lastNum other) where
  aligned := fun _ _ hi => absurd hi.symm (Option.some_ne_none _)
  nodup := List.nodup_range
  made := fun _ hr => List.mem_range.mp hr
  shownMade := fun _ hr => absurd hr.symm (Option.some_ne_none _)

/-- The widgets have been refilled with the current rule, -/
theorem inv_of_shown {s' : State φ} (hnodup : s.rules.Nodup) (hmade : ∀ r ∈ s.rules, r < s.next)
    (hi : s.currentIndex = some i) (hr : s.rules[i]? = some r) (hkept : Kept s s')
    (hshown : s'.shown = some r) : Inv s' where
  aligned := by
    intro _ j hj
    obtain rfl : i = j := Option.some.inj (hi.symm.trans (hkept.currentIndex.symm.trans hj))
    exact ⟨r, hkept.rules ▸ hr, hshown⟩
  nodup := hkept.rules ▸ hnodup
  made := by
    rw [hkept.rules, hkept.next]
    exact hmade
  shownMade := by
    intro q hq
    obtain rfl : r = q := Option.some.inj (hshown.symm.trans hq)
    rw [hkept.next]
    exact hmade r (List.mem_of_getElem? hr)

/-- or none is selected. -/
theorem inv_of_none {s' : State φ} (hnodup : s.rules.Nodup) (hmade : ∀ r ∈ s.rules, r < s.next)
    (hshownMade : ∀ r, s.shown = some r → r < s.next) (hi : s.currentIndex = none)
    (hkept : Kept s s') (hshown : s'.shown = s.shown) : Inv s' where
  aligned := fun _ _ hj =>
    absurd (hi.symm.trans (hkept.currentIndex.symm.trans hj)).symm (Option.some_ne_none _)
  nodup := hkept.rules ▸ hnodup
  made := by
    rw [hkept.rules, hkept.next]
    exact hmade
  shownMade := by
    rw [hshown, hkept.next]
    exact hshownMade

/-! ## Selecting and editing -/

/-- An open editor's index, if there is one, is that of the rule that is shown. -/
theorem Inv.current (h : Inv s) (hopen : s.closed = false) :
    s.currentIndex = none ∨
      ∃ i r, s.currentIndex = some i ∧ s.rules[i]? = some r ∧ s.shown = some r := by
  cases hi : s.currentIndex with
  | none => exact Or.inl rfl
  | some i =>
    obtain ⟨r, hr, hshown⟩ := h.aligned hopen i hi
    exact Or.inr ⟨i, r, rfl, hr, hshown⟩

theorem Inv.refresh (h : Inv s) (hopen : s.closed = false) :
    ∃ s', refresh ops s = .ok s' ∧ Inv s' := by
  rcases h.current hopen with hi | ⟨i, r, hi, hr, -⟩
  · exact ⟨s, updateRuleSection_none 1 hi, h⟩
  · obtain ⟨s', hs', hkept, hshown⟩ := updateRuleSection_shows 0 hi hr
    exact ⟨s', hs', inv_of_shown h.nodup h.made hi hr hkept hshown⟩

theorem Inv.viewRefresh (h : Inv s) (hopen : s.closed = false) :
    ∃ s', (updateRouteItemsView (RouteItem.refresh ops) s >>= RouteItem.refresh ops) = .ok s' ∧
      Inv s' := by
  rcases h.current hopen with hi | ⟨i, r, hi, hr, -⟩
  · obtain ⟨s', hs', hkept, hshown⟩ := view_refresh_none hi
    exact ⟨s', hs', inv_of_none h.nodup h.made h.shownMade hi hkept hshown⟩
  · obtain ⟨s', hs', hkept, hshown⟩ := view_refresh_shows hi hr
    exact ⟨s', hs', inv_of_shown h.nodup h.made hi hr hkept hshown⟩

theorem Inv.editName (h : Inv s) (hopen : s.closed = false) (text : String) :
    ∃ s', setRuleName (RouteItem.refresh ops) text s = .ok s' ∧ Inv s' := by
  rcases h.current hopen with hi | ⟨i, r, hi, hr, hshown⟩
  · obtain ⟨s', hs', hkept, hshown⟩ := setRuleName_none (RouteItem.refresh ops) text hi
    exact ⟨s', hs', inv_of_none h.nodup h.made h.shownMade hi hkept hshown⟩
  · obtain ⟨s', hs', hkept, hshown'⟩ := @setRuleName_shows φ ops s i r text hi hr
    refine ⟨s', hs', inv_of_shown h.nodup h.made hi hr hkept ?_⟩
    rcases hshown' with hsame | hnew
    · rw [hsame, hshown]
    · exact hnew

theorem Inv.setFields (h : Inv s) (r : Ref) (f : φ → φ) : Inv (s.setFields r f) :=
  ⟨h.aligned, h.nodup, h.made, h.shownMade⟩

theorem Inv.editValue (h : Inv s) (hopen : s.closed = false) (value : List String) :
    ∃ s', editValue ops value s = .ok s' ∧ Inv s' := by
  rcases h.current hopen with hi | ⟨i, r, hi, hr, -⟩
  · unfold RouteItem.editValue
    rw [hi]
    exact ⟨s, rfl, h⟩
  · refine ⟨s.setFields r (ops.setFieldValue s.ruleAttr value), ?_, h.setFields r _⟩
    unfold RouteItem.editValue
    rw [hi]
    dsimp only
    rw [ruleAt_eq hr]
    rfl

theorem Inv.chooseAttr (h : Inv s) (hopen : s.closed = false) (attr : String) :
    ∃ s', RouteItem.refresh ops { s with ruleAttr := attr } = .ok s' ∧ Inv s' := by
  have hattr : Inv { s with ruleAttr := attr } := ⟨h.aligned, h.nodup, h.made, h.shownMade⟩
  exact hattr.refresh hopen

theorem Inv.select (h : Inv s) (row : ℕ)
    (hrow : row < s.routeItems.length → s.currentRow ≠ some row → row < s.rules.length) :
    ∃ s', act ops s (.select row) = .ok s' ∧ Inv s' := by
  unfold act setCurrentRow
  dsimp only
  by_cases hitem : row < s.routeItems.length
  · rw [if_pos hitem, if_pos hitem]
    by_cases hcurrent : s.currentRow = some row
    · rw [if_pos hcurrent]
      exact ⟨s, rfl, h⟩
    · rw [if_neg hcurrent]
      have hr := List.getElem?_eq_getElem (hrow hitem hcurrent)
      let t : State φ := { s with currentRow := some row, currentIndex := some row }
      obtain ⟨s', hs', hkept, hshown⟩ := @updateRuleSection_shows φ ops t row _ 0 rfl hr
      exact ⟨s', hs', @inv_of_shown φ t row _ s' h.nodup h.made rfl hr hkept hshown⟩
  · rw [if_neg hitem]
    exact ⟨s, rfl, h⟩

/-! ## New, moved and deleted rules -/

theorem Inv.newRouteItem (h : Inv s) :
    ∃ s', newRouteItem ops s = .ok s' ∧ Inv s' := by
  let name := "rule_" ++ toString (s.lastNum + 1)
  let t : State φ := { s.makeRules [⟨name, 0, 0, ops.fields⟩] with
    lastNum := s.lastNum + 1
    rules := s.rules ++ [s.next]
    currentIndex := some s.rules.length }
  have hnodup : t.rules.Nodup := by
    show (s.rules ++ [s.next]).Nodup
    rw [List.nodup_append]
    refine ⟨h.nodup, List.nodup_singleton _, fun r hr q hq => ?_⟩
    rw [List.mem_singleton.mp hq]
    exact (h.made r hr).ne
  have hmade : ∀ r ∈ t.rules, r < t.next := by
    intro r hr
    show r < s.next + 1
    rcases List.mem_append.mp hr with hr | hr
    · exact Nat.lt_succ_of_lt (h.made r hr)
    · rw [List.mem_singleton.mp hr]
      exact Nat.lt_succ_self _
  have hlast : t.rules[s.rules.length]? = some s.next := List.getElem?_concat_length
  obtain ⟨u, hu, hkept, -⟩ := @setRuleName_shows φ ops t s.rules.length s.next name rfl hlast
  let v : State φ := { u with currentIndex := some (u.rules.length - 1) }
  have hlength : u.rules.length - 1 = s.rules.length := by
    rw [hkept.rules]
    show (s.rules ++ [s.next]).length - 1 = _
    rw [List.length_append, List.length_singleton, Nat.add_sub_cancel]
  have hv : v.rules[u.rules.length - 1]? = some s.next := by
    show u.rules[u.rules.length - 1]? = some s.next
    rw [hlength, hkept.rules]
    exact hlast
  obtain ⟨s', hs', hkept', hshown⟩ := @view_refresh_shows φ ops v _ _ rfl hv
  refine ⟨s', ?_, @inv_of_shown φ v _ _ s' (hkept.rules ▸ hnodup) ?_ rfl hv hkept' hshown⟩
  · unfold RouteItem.newRouteItem
    show (setRuleName (RouteItem.refresh ops) name t >>= fun s =>
      updateRouteItemsView (RouteItem.refresh ops)
        { s with currentIndex := some (s.rules.length - 1) } >>= RouteItem.refresh ops) = .ok s'
    rw [hu]
    exact hs'
  · show ∀ r ∈ u.rules, r < u.next
    rw [hkept.rules, hkept.next]
    exact hmade

/-- Two rules change places, and the index follows the one that is selected. -/
theorem Inv.swap (h : Inv s) {j : ℕ} {other : Ref} (hr : s.rules[i]? = some r)
    (ho : s.rules[j]? = some other) :
    ∃ s', updateRouteItemsView (RouteItem.refresh ops)
        { s with rules := (s.rules.set i other).set j r, currentIndex := some j } = .ok s' ∧
      Inv s' := by
  obtain ⟨hi, rfl⟩ := List.getElem?_eq_some_iff.mp hr
  obtain ⟨hj, rfl⟩ := List.getElem?_eq_some_iff.mp ho
  have hperm : ((s.rules.set i s.rules[j]).set j s.rules[i]).Perm s.rules :=
    List.set_set_perm hi hj
  let t : State φ := { s with
    rules := (s.rules.set i s.rules[j]).set j s.rules[i]
    currentIndex := some j }
  have ht : t.rules[j]? = some s.rules[i] := by
    show ((s.rules.set i s.rules[j]).set j s.rules[i])[j]? = some s.rules[i]
    exact List.getElem?_set_self (by rwa [List.length_set])
  obtain ⟨s', hs', hkept, hshown⟩ := @updateRouteItemsView_shows φ ops t j _ rfl ht
  exact ⟨s', hs', @inv_of_shown φ t j _ s' (hperm.nodup_iff.mpr h.nodup)
    (fun q hq => h.made q (hperm.mem_iff.mp hq)) rfl ht hkept hshown⟩

theorem Inv.moveUp (h : Inv s) (hopen : s.closed = false) :
    ∃ s', moveUp ops s = .ok s' ∧ Inv s' := by
  unfold RouteItem.moveUp
  split
  case h_1 => exact ⟨s, rfl, h⟩
  case h_2 => exact ⟨s, rfl, h⟩
  case h_3 i hi =>
    obtain ⟨r, hr, -⟩ := h.aligned hopen (i + 1) hi
    have hlt : i + 1 < s.rules.length := (List.getElem?_eq_some_iff.mp hr).1
    have ho : s.rules[i]? = some s.rules[i] := List.getElem?_eq_getElem _
    obtain ⟨s', hs', hinv⟩ := @Inv.swap φ ops s (i + 1) r h i _ hr ho
    refine ⟨s', ?_, hinv⟩
    rw [ruleAt_eq hr, ruleAt_eq ho]
    exact hs'

theorem Inv.moveDown (h : Inv s) (hopen : s.closed = false) :
    ∃ s', moveDown ops s = .ok s' ∧ Inv s' := by
  unfold RouteItem.moveDown
  split
  case h_1 => exact ⟨s, rfl, h⟩
  case h_2 i hi =>
    obtain ⟨r, hr, -⟩ := h.aligned hopen i hi
    have hlt : i < s.rules.length := (List.getElem?_eq_some_iff.mp hr).1
    by_cases hlast : i + 1 = s.rules.length
    · rw [if_pos hlast]
      exact ⟨s, rfl, h⟩
    · have hnext : i + 1 < s.rules.length := by omega
      have ho : s.rules[i + 1]? = some s.rules[i + 1] := List.getElem?_eq_getElem hnext
      obtain ⟨s', hs', hinv⟩ := @Inv.swap φ ops s i r h (i + 1) _ hr ho
      refine ⟨s', ?_, hinv⟩
      rw [if_neg hlast, ruleAt_eq hr, ruleAt_eq ho]
      exact hs'

theorem Inv.deleteRouteItem (h : Inv s) (hopen : s.closed = false) :
    ∃ s', deleteRouteItem ops s = .ok s' ∧ Inv s' := by
  unfold RouteItem.deleteRouteItem
  split
  case h_1 => exact ⟨s, rfl, h⟩
  case h_2 i hi =>
    obtain ⟨r, hr, -⟩ := h.aligned hopen i hi
    have hlt : i < s.rules.length := (List.getElem?_eq_some_iff.mp hr).1
    have hsub : (s.rules.eraseIdx i).Sublist s.rules := List.eraseIdx_sublist _ _
    have hmade : ∀ r ∈ s.rules.eraseIdx i, r < s.next := fun r hr => h.made r (hsub.subset hr)
    rw [ruleAt_eq hr]
    let t : State φ := { s with
      rules := s.rules.eraseIdx i
      currentIndex := if s.rules.eraseIdx i = [] then none else some (i - 1) }
    show ∃ s', (updateRouteItemsView (RouteItem.refresh ops) t >>= RouteItem.refresh ops) = .ok s' ∧
      Inv s'
    by_cases hnil : s.rules.eraseIdx i = []
    · have ht : t.currentIndex = none := if_pos hnil
      obtain ⟨s', hs', hkept, hshown⟩ := @view_refresh_none φ ops t ht
      exact ⟨s', hs', @inv_of_none φ t s' (h.nodup.sublist hsub) hmade h.shownMade ht hkept hshown⟩
    · have ht : t.currentIndex = some (i - 1) := if_neg hnil
      have hlength : i - 1 < (s.rules.eraseIdx i).length := by
        have hpos := List.length_pos_iff.mpr hnil
        rw [List.length_eraseIdx_of_lt hlt] at hpos ⊢
        omega
      have hr' : t.rules[i - 1]? = some (s.rules.eraseIdx i)[i - 1] :=
        List.getElem?_eq_getElem hlength
      obtain ⟨s', hs', hkept, hshown⟩ := @view_refresh_shows φ ops t _ _ ht hr'
      exact ⟨s', hs', @inv_of_shown φ t _ _ s' (h.nodup.sublist hsub) hmade ht hr' hkept hshown⟩

/-! ## Rules that are replaced -/

theorem rules_replaceRules (parsed : List φ) (s : State φ) :
    (replaceRules parsed s).rules = List.range' s.next parsed.length := rfl

theorem next_replaceRules (parsed : List φ) (s : State φ) :
    (replaceRules parsed s).next = s.next + parsed.length := by
  show s.next + (parsed.mapIdx _).length = _
  rw [List.length_mapIdx]

theorem nodup_replaceRules (parsed : List φ) (s : State φ) : (replaceRules parsed s).rules.Nodup :=
  List.nodup_range'

theorem made_replaceRules (parsed : List φ) (s : State φ) :
    ∀ r ∈ (replaceRules parsed s).rules, r < (replaceRules parsed s).next := by
  intro r hr
  rw [rules_replaceRules, List.mem_range'_1] at hr
  rw [next_replaceRules]
  exact hr.2

theorem Inv.importJson (h : Inv s) {parsed : List φ}
    (hlength : ∀ i, s.currentIndex = some i → parsed ≠ [] → i < parsed.length) :
    ∃ s', importJson ops parsed s = .ok s' ∧ Inv s' := by
  unfold RouteItem.importJson
  by_cases hparsed : parsed = []
  · rw [if_pos hparsed]
    exact ⟨s, rfl, h⟩
  rw [if_neg hparsed]
  let t := replaceRules parsed s
  show ∃ s', (updateRouteItemsView (RouteItem.refresh ops) t >>= RouteItem.refresh ops) = .ok s' ∧
    Inv s'
  cases hi : s.currentIndex with
  | none =>
    obtain ⟨s', hs', hkept, hshown⟩ := @view_refresh_none φ ops t hi
    refine ⟨s', hs', @inv_of_none φ t s' (nodup_replaceRules parsed s) (made_replaceRules parsed s)
      (fun r hr => ?_) hi hkept hshown⟩
    rw [next_replaceRules]
    exact (h.shownMade r hr).trans_le (Nat.le_add_right _ _)
  | some i =>
    have hlt : i < t.rules.length := by
      rw [rules_replaceRules, List.length_range']
      exact hlength i hi hparsed
    have hr : t.rules[i]? = some t.rules[i] := List.getElem?_eq_getElem hlt
    obtain ⟨s', hs', hkept, hshown⟩ := @view_refresh_shows φ ops t i _ hi hr
    exact ⟨s', hs', @inv_of_shown φ t i _ s' (nodup_replaceRules parsed s)
      (made_replaceRules parsed s) hi hr hkept hshown⟩

theorem Inv.updateManually (h : Inv s) {parsed : List φ}
    (hnone : parsed ≠ [] → s.currentIndex = none) :
    ∃ s', updateManually parsed s = .ok s' ∧ Inv s' := by
  unfold RouteItem.updateManually
  by_cases hparsed : parsed = []
  · rw [if_pos hparsed]
    exact ⟨s, rfl, h⟩
  · rw [if_neg hparsed]
    refine ⟨_, rfl, fun _ i hi => ?_, nodup_replaceRules parsed s, made_replaceRules parsed s,
      fun r hr => ?_⟩
    · exact absurd ((hnone hparsed).symm.trans hi).symm (Option.some_ne_none i)
    · rw [next_replaceRules]
      exact (h.shownMade r hr).trans_le (Nat.le_add_right _ _)

/-! ## Commits -/

/-- Some rules are dropped, and new ones put behind the others. -/
structure Extends (s s' : State φ) (keep : Rule φ → Bool) (extra : List Ref) : Prop where
  rules : s'.rules = s.rules.filter (fun r => keep (s.rule r)) ++ extra
  nodup : extra.Nodup
  made : ∀ r ∈ extra, s.next ≤ r ∧ r < s'.next
  next : s.next ≤ s'.next
  rule : ∀ r, r < s.next → s'.rule r = s.rule r
  currentIndex : s'.currentIndex = s.currentIndex
  shown : s'.shown = s.shown

theorem Extends.trans {s s' s'' : State φ} {keep keep' : Rule φ → Bool} {extra extra' : List Ref}
    (hmade : ∀ r ∈ s.rules, r < s.next) (h : Extends s s' keep extra)
    (h' : Extends s' s'' keep' extra') :
    Extends s s'' (fun rule => keep rule && keep' rule)
      (extra.filter (fun r => keep' (s'.rule r)) ++ extra') where
  rules := by
    have hold : (s.rules.filter fun r => keep (s.rule r)).filter (fun r => keep' (s'.rule r)) =
        s.rules.filter fun r => keep (s.rule r) && keep' (s.rule r) := by
      rw [List.filter_filter]
      apply List.filter_congr
      intro r hr
      rw [h.rule r (hmade r hr), Bool.and_comm]
    rw [h'.rules, h.rules, List.filter_append, hold, List.append_assoc]
  nodup := by
    rw [List.nodup_append]
    refine ⟨h.nodup.filter _, h'.nodup, fun r hr q hq => ?_⟩
    exact ((h.made r (List.mem_of_mem_filter hr)).2.trans_le (h'.made q hq).1).ne
  made := by
    intro r hr
    rcases List.mem_append.mp hr with hr | hr
    · obtain ⟨hge, hlt⟩ := h.made r (List.mem_of_mem_filter hr)
      exact ⟨hge, hlt.trans_le h'.next⟩
    · obtain ⟨hge, hlt⟩ := h'.made r hr
      exact ⟨h.next.trans hge, hlt⟩
  next := h.next.trans h'.next
  rule := fun r hr => (h'.rule r (hr.trans_le h.next)).trans (h.rule r hr)
  currentIndex := h'.currentIndex.trans h.currentIndex
  shown := h'.shown.trans h.shown

theorem Extends.nodup_rules {s s' : State φ} {keep : Rule φ → Bool} {extra : List Ref}
    (h : Extends s s' keep extra) (hnodup : s.rules.Nodup) (hmade : ∀ r ∈ s.rules, r < s.next) :
    s'.rules.Nodup := by
  rw [h.rules, List.nodup_append]
  refine ⟨hnodup.filter _, h.nodup, fun r hr q hq => ?_⟩
  exact ((hmade r (List.mem_of_mem_filter hr)).trans_le (h.made q hq).1).ne

theorem Extends.made_rules {s s' : State φ} {keep : Rule φ → Bool} {extra : List Ref}
    (h : Extends s s' keep extra) (hmade : ∀ r ∈ s.rules, r < s.next) :
    ∀ r ∈ s'.rules, r < s'.next := by
  intro r hr
  rw [h.rules] at hr
  rcases List.mem_append.mp hr with hr | hr
  · exact (hmade r (List.mem_of_mem_filter hr)).trans_le h.next
  · exact (h.made r hr).2

/-- The rules that a commit of one action leaves. -/
def notSimple (simpleAction : ℤ) (rule : Rule φ) : Bool :=
  ¬ (rule.type ≠ 0 ∧ rule.simpleAction = simpleAction)

theorem updateSimpleRules_extends (content : String) (simpleAction : ℤ) (st : State φ × String) :
    ∃ extra, Extends st.1 (updateSimpleRules ops content simpleAction st).1
      (notSimple simpleAction) extra := by
  let new := (ops.simpleRules content simpleAction).1.map fun new =>
    (⟨simpleRuleName new.1 simpleAction, new.1, simpleAction, new.2⟩ : Rule φ)
  refine ⟨List.range' st.1.next new.length, rfl, List.nodup_range', fun r hr => ?_,
    Nat.le_add_right _ _, fun r hr => if_pos hr, rfl, rfl⟩
  exact List.mem_range'_1.mp hr

theorem commitSimpleBoxes_extends (boxes : Boxes) (hmade : ∀ r ∈ s.rules, r < s.next) :
    ∃ extra, Extends s (commitSimpleBoxes ops boxes s).1
      (fun rule => notSimple 0 rule && notSimple 1 rule && notSimple 2 rule) extra := by
  obtain ⟨extra, h⟩ := @updateSimpleRules_extends φ ops boxes.direct 0 (s, "")
  obtain ⟨extra', h'⟩ := @updateSimpleRules_extends φ ops boxes.block 1
    (updateSimpleRules ops boxes.direct 0 (s, ""))
  obtain ⟨extra'', h''⟩ := @updateSimpleRules_extends φ ops boxes.proxy 2
    (updateSimpleRules ops boxes.block 1 (updateSimpleRules ops boxes.direct 0 (s, "")))
  exact ⟨_, (h.trans hmade h').trans hmade h''⟩

theorem commitSimpleBoxes_messages (boxes : Boxes) (s : State φ) :
    (commitSimpleBoxes ops boxes s).2 = messages ops boxes := by
  show "" ++ _ ++ _ ++ _ = _
  rw [String.empty_append]
  rfl

theorem Inv.tabChanged (h : Inv s) (hopen : s.closed = false) (index : ℕ) (boxes : Boxes) :
    ∃ s', tabChanged ops index boxes s = .ok s' ∧ Inv s' := by
  unfold RouteItem.tabChanged
  by_cases hindex : index = 2
  · rw [if_pos hindex]
    obtain ⟨extra, hext⟩ := @commitSimpleBoxes_extends φ ops s boxes h.made
    let t : State φ := { (commitSimpleBoxes ops boxes s).1 with currentIndex := none }
    obtain ⟨s', hs', hkept, hshown⟩ := @view_refresh_none φ ops t rfl
    refine ⟨s', hs', @inv_of_none φ t s' (hext.nodup_rules h.nodup h.made)
      (hext.made_rules h.made) (fun r hr => ?_) rfl hkept hshown⟩
    exact (h.shownMade r (hext.shown.symm.trans hr)).trans_le hext.next
  · rw [if_neg hindex]
    exact h.viewRefresh hopen

/-! ## Rules that keep their place -/

/-- An element does not move back. -/
theorem le_of_getElem?_filter {α : Type} {p : α → Bool} {l : List α} {j k : ℕ} {x : α}
    (hl : l.Nodup) (hj : (l.filter p)[j]? = some x) (hk : l[k]? = some x) : j ≤ k := by
  induction l generalizing j k with
  | nil => exact absurd hk.symm (Option.some_ne_none x)
  | cons a l ih =>
    obtain ⟨ha, hl⟩ := List.nodup_cons.mp hl
    have hfirst : k = 0 → (l.filter p)[j]? = some x → False := by
      rintro rfl hx
      obtain rfl : a = x := Option.some.inj hk
      exact ha (List.mem_of_mem_filter (List.mem_of_getElem? hx))
    by_cases hpa : p a = true
    · rw [List.filter_cons_of_pos hpa] at hj
      cases j with
      | zero => exact Nat.zero_le _
      | succ j =>
        cases k with
        | zero =>
          obtain rfl : a = x := Option.some.inj hk
          exact absurd (List.mem_of_mem_filter (List.mem_of_getElem? hj)) ha
        | succ k => exact Nat.succ_le_succ (ih hl hj hk)
    · rw [List.filter_cons_of_neg hpa] at hj
      cases k with
      | zero => exact (hfirst rfl hj).elim
      | succ k => exact (ih hl hj hk).trans (Nat.le_succ k)

/-- An element keeps its index in a filtered list exactly if nothing up to it is dropped. -/
theorem getElem?_filter_append_iff {α : Type} {p : α → Bool} {l extra : List α} {k : ℕ} {x : α}
    (hl : l.Nodup) (hx : x ∉ extra) (hk : l[k]? = some x) :
    (l.filter p ++ extra)[k]? = some x ↔ ∀ y ∈ l.take (k + 1), p y = true := by
  induction l generalizing k with
  | nil => exact absurd hk.symm (Option.some_ne_none x)
  | cons a l ih =>
    obtain ⟨ha, hl'⟩ := List.nodup_cons.mp hl
    rw [List.take_succ_cons, List.forall_mem_cons]
    by_cases hpa : p a = true
    · rw [List.filter_cons_of_pos hpa, List.cons_append, and_iff_right hpa]
      cases k with
      | zero =>
        rw [List.take_zero]
        exact ⟨fun _ _ hy => absurd hy List.not_mem_nil, fun _ => hk⟩
      | succ k => exact ih hl' hk
    · rw [List.filter_cons_of_neg hpa]
      refine ⟨fun hmoved => absurd hmoved fun hmoved => ?_, fun h => absurd h.1 hpa⟩
      have hfilter : (l.filter p)[k]? = some x := by
        by_cases hlt : k < (l.filter p).length
        · rwa [List.getElem?_append_left hlt] at hmoved
        · rw [List.getElem?_append_right (not_lt.mp hlt)] at hmoved
          exact absurd (List.mem_of_getElem? hmoved) hx
      cases k with
      | zero =>
        obtain rfl : a = x := Option.some.inj hk
        exact ha (List.mem_of_mem_filter (List.mem_of_getElem? hfilter))
      | succ k => exact absurd (le_of_getElem?_filter hl' hfilter hk) (Nat.not_succ_le_self k)

/-! ## Accepting -/

/-- The list without the rules that are empty. -/
def dropEmpty (ops : RuleOps φ) (s : State φ) : State φ :=
  { s with rules := s.rules.filter fun r => !ops.isEmpty (s.rule r).fields }

theorem dropEmpty_extends (ops : RuleOps φ) (s : State φ) :
    Extends s (dropEmpty ops s) (fun rule => !ops.isEmpty rule.fields) [] :=
  ⟨(List.append_nil _).symm, List.nodup_nil, fun _ hr => absurd hr List.not_mem_nil, le_rfl,
    fun _ _ => rfl, rfl, rfl⟩

theorem dropEmpty_nil_iff (ops : RuleOps φ) (s : State φ) :
    (dropEmpty ops s).rules = [] ↔ ∀ r ∈ s.rules, ops.isEmpty (s.rule r).fields = true := by
  show s.rules.filter (fun r => !ops.isEmpty (s.rule r).fields) = [] ↔ _
  rw [List.filter_eq_nil_iff]
  simp

/-- What `accept` does with the rules that are not empty, -/
theorem accept_eq (chainName : String) (boxes : Boxes) (s : State φ) :
    accept ops chainName boxes s =
      if chainName = "" then .ok s
      else if (dropEmpty ops s).rules = [] then .ok (dropEmpty ops s)
      else if (commitSimpleBoxes ops boxes (dropEmpty ops s)).2 ≠ "" then
        .ok (commitSimpleBoxes ops boxes (dropEmpty ops s)).1
      else .ok { (commitSimpleBoxes ops boxes (dropEmpty ops s)).1 with closed := true } := rfl

/-- and with the list. -/
theorem commit_dropEmpty_extends (boxes : Boxes) (hmade : ∀ r ∈ s.rules, r < s.next) :
    ∃ extra, Extends s (commitSimpleBoxes ops boxes (dropEmpty ops s)).1 (Stays ops) extra := by
  have hdrop := dropEmpty_extends ops s
  obtain ⟨extra, hcommit⟩ := @commitSimpleBoxes_extends φ ops _ boxes (hdrop.made_rules hmade)
  have hkeep : (fun rule => !ops.isEmpty rule.fields &&
      (notSimple 0 rule && notSimple 1 rule && notSimple 2 rule)) = Stays ops := by
    funext rule
    unfold Stays notSimple
    rw [Bool.eq_iff_iff]
    by_cases htype : rule.type = 0
    · simp [htype]
    · simp [htype, and_assoc]
  have h := hdrop.trans hmade hcommit
  rw [hkeep] at h
  exact ⟨_, h⟩

/-- A list whose rule at the index has stayed. -/
theorem Inv.extends {s' : State φ} {keep : Rule φ → Bool} {extra : List Ref} (h : Inv s)
    (hext : Extends s s' keep extra)
    (hstays : s'.closed = false → ∀ i r, s.currentIndex = some i → s.rules[i]? = some r →
      s.shown = some r → ∀ q ∈ s.rules.take (i + 1), keep (s.rule q) = true)
    (hopen : s.closed = false) : Inv s' where
  aligned := by
    intro hopen' i hi
    have hi' : s.currentIndex = some i := hext.currentIndex.symm.trans hi
    obtain ⟨r, hr, hshown⟩ := h.aligned hopen i hi'
    refine ⟨r, ?_, hext.shown.trans hshown⟩
    have hnew : r ∉ extra := fun hr' =>
      (h.made r (List.mem_of_getElem? hr)).not_ge (hext.made r hr').1
    rw [hext.rules]
    exact (getElem?_filter_append_iff h.nodup hnew hr).mpr (hstays hopen' i r hi' hr hshown)
  nodup := hext.nodup_rules h.nodup h.made
  made := hext.made_rules h.made
  shownMade := fun r hr => (h.shownMade r (hext.shown.symm.trans hr)).trans_le hext.next

theorem Inv.accept (h : Inv s) (hopen : s.closed = false) {chainName : String} {boxes : Boxes}
    (hstays : Harmless ops s (.accept chainName boxes)) :
    ∃ s', accept ops chainName boxes s = .ok s' ∧ Inv s' := by
  rw [accept_eq]
  by_cases hname : chainName = ""
  · rw [if_pos hname]
    exact ⟨s, rfl, h⟩
  rw [if_neg hname]
  have hstays := hstays hname
  obtain ⟨extra, hext⟩ := @commit_dropEmpty_extends φ ops s boxes h.made
  by_cases hnil : (dropEmpty ops s).rules = []
  · rw [if_pos hnil]
    have hempty := (dropEmpty_nil_iff ops s).mp hnil
    refine ⟨_, rfl, h.extends (dropEmpty_extends ops s) (fun _ i r hi hr _ q hq => ?_) hopen⟩
    have hq' := hstays (fun _ => hempty) i hi q hq
    unfold Stays at hq'
    rw [hempty q (List.mem_of_mem_take hq)] at hq'
    exact absurd hq' (by simp)
  rw [if_neg hnil, commitSimpleBoxes_messages]
  by_cases hmessages : messages ops boxes = ""
  · rw [if_neg (not_not.mpr hmessages)]
    refine ⟨_, rfl, fun hclosed => absurd hclosed.symm Bool.false_ne_true, ?_, ?_, ?_⟩
    · exact hext.nodup_rules h.nodup h.made
    · exact hext.made_rules h.made
    · exact fun r hr => (h.shownMade r (hext.shown.symm.trans hr)).trans_le hext.next
  · rw [if_pos hmessages]
    exact ⟨_, rfl, h.extends hext
      (fun _ i r hi _ _ => hstays (fun hm => absurd hm hmessages) i hi) hopen⟩

/-! ## Outbounds -/

theorem Inv.clickChooser (h : Inv s) (hopen : s.closed = false)
    (hindex : s.proxyChooser = true → s.currentIndex ≠ none) :
    ∃ s', clickChooser s = .ok s' ∧ Inv s' := by
  unfold RouteItem.clickChooser
  split_ifs with hvisible
  · rcases h.current hopen with hi | ⟨i, r, hi, hr, -⟩
    · exact absurd hi (hindex hvisible)
    · split
      case h_1 hnone => exact absurd hnone (hindex hvisible)
      case h_2 j hj =>
        obtain rfl : j = i := Option.some.inj (hj.symm.trans hi)
        rw [ruleAt_eq hr]
        exact ⟨_, rfl, h.aligned, h.nodup, h.made, h.shownMade⟩
  · exact ⟨s, rfl, h⟩

theorem Inv.setProxy (h : Inv s) {window : ℕ} (id : ℤ)
    (hcurrent : ∀ r, s.choosers[window]? = some r → s.current = [r]) :
    ∃ s', setProxy ops window id s = .ok s' ∧ Inv s' := by
  unfold RouteItem.setProxy
  split
  case h_1 => exact ⟨s, rfl, h⟩
  case h_2 ruleItem hitem =>
    have hcurrent := hcurrent ruleItem hitem
    unfold State.current at hcurrent
    split
    case h_1 hnone =>
      rw [hnone] at hcurrent
      exact absurd hcurrent.symm (List.cons_ne_nil _ _)
    case h_2 i hi =>
      rw [hi] at hcurrent
      have hr : s.rules[i]? = some ruleItem := by
        dsimp only at hcurrent
        cases hr : s.rules[i]? with
        | none =>
          rw [hr] at hcurrent
          exact absurd hcurrent.symm (List.cons_ne_nil _ _)
        | some r =>
          rw [hr] at hcurrent
          exact congrArg some (List.singleton_inj.mp hcurrent)
      rw [ruleAt_eq hr]
      exact ⟨_, rfl, (h.setFields _ _).setFields _ _⟩

/-! ## Steps -/

theorem Inv.act (h : Inv s) (hopen : s.closed = false) {a : Action φ} (ha : Harmless ops s a) :
    ∃ s', act ops s a = .ok s' ∧ Inv s' := by
  cases a with
  | select row => exact h.select row ha
  | newRouteItem => exact h.newRouteItem
  | moveUp => exact h.moveUp hopen
  | moveDown => exact h.moveDown hopen
  | deleteRouteItem => exact h.deleteRouteItem hopen
  | importJson parsed => exact h.importJson ha
  | updateManually parsed => exact h.updateManually ha
  | tabChanged index boxes => exact h.tabChanged hopen index boxes
  | accept chainName boxes => exact h.accept hopen ha
  | chooseAttr attr =>
    unfold RouteItem.act
    dsimp only
    split_ifs
    · exact ⟨s, rfl, h⟩
    · exact h.chooseAttr hopen attr
  | editName text => exact h.editName hopen text
  | editValue value => exact h.editValue hopen value
  | clickChooser => exact h.clickChooser hopen ha
  | setProxy window id => exact h.setProxy id ha

theorem ok_ne_error {s' : State φ} {e : Failure} :
    (Except.ok s' : Checked (State φ)) ≠ .error e := by
  rintro ⟨⟩

/-- What the condition rules out goes wrong. -/
theorem Inv.harmless (h : Inv s) (hopen : s.closed = false) {a : Action φ}
    (hact : ∃ s', RouteItem.act ops s a = .ok s' ∧ Aligned s')
    (hedits : ∀ r ∈ RouteItem.edits s a, s.shown = some r) : Harmless ops s a := by
  obtain ⟨s', hs', haligned⟩ := hact
  cases a with
  | select row =>
    intro hitem hcurrent
    by_contra hrow
    let t : State φ := { s with currentRow := some row, currentIndex := some row }
    have herror : RouteItem.refresh ops t = .error .outOfRange :=
      updateRuleSection_outOfRange 1 rfl (List.getElem?_eq_none_iff.mpr (not_lt.mp hrow))
    have hact : RouteItem.act ops s (.select row) = RouteItem.refresh ops t := by
      unfold RouteItem.act setCurrentRow
      dsimp only
      rw [if_pos hitem, if_pos hitem, if_neg hcurrent]
    exact absurd (hs'.symm.trans (hact.trans herror)) ok_ne_error
  | importJson parsed =>
    intro i hi hparsed
    by_contra hlength
    have hr : (replaceRules parsed s).rules[i]? = none := by
      rw [rules_replaceRules, List.getElem?_eq_none_iff, List.length_range']
      exact not_lt.mp hlength
    have herror := @view_refresh_outOfRange φ ops (replaceRules parsed s) i hi hr
    have hact : RouteItem.act ops s (.importJson parsed) = .error .outOfRange := by
      show RouteItem.importJson ops parsed s = _
      unfold RouteItem.importJson
      rw [if_neg hparsed]
      exact herror
    exact absurd (hs'.symm.trans hact) ok_ne_error
  | updateManually parsed =>
    intro hparsed
    have hact : RouteItem.act ops s (.updateManually parsed) = .ok (replaceRules parsed s) :=
      if_neg hparsed
    obtain rfl := Except.ok.inj (hs'.symm.trans hact)
    rcases h.current hopen with hi | ⟨i, -, hi, -, -⟩
    · exact hi
    · obtain ⟨r, hr, hshown⟩ := haligned hopen i hi
      have hnew := List.mem_of_getElem? hr
      rw [rules_replaceRules, List.mem_range'_1] at hnew
      exact absurd (h.shownMade r hshown) hnew.1.not_gt
  | accept chainName boxes =>
    intro hname hempty i hi
    obtain ⟨r, hr, hshown⟩ := h.aligned hopen i hi
    have hact : RouteItem.accept ops chainName boxes s = .ok s' := hs'
    rw [accept_eq, if_neg hname] at hact
    obtain ⟨extra, hext⟩ := @commit_dropEmpty_extends φ ops s boxes h.made
    by_cases hnil : (dropEmpty ops s).rules = []
    · rw [if_pos hnil] at hact
      obtain rfl := Except.ok.inj hact
      obtain ⟨q, hq, -⟩ := haligned hopen i hi
      rw [hnil] at hq
      exact absurd hq.symm (Option.some_ne_none q)
    · have hmessages : messages ops boxes ≠ "" := fun hm =>
        hnil ((dropEmpty_nil_iff ops s).mpr (hempty hm))
      rw [if_neg hnil, commitSimpleBoxes_messages, if_pos hmessages] at hact
      obtain rfl := Except.ok.inj hact
      obtain ⟨q, hq, hshown'⟩ := haligned hopen i (hext.currentIndex.trans hi)
      obtain rfl : r = q := Option.some.inj (hshown.symm.trans (hext.shown.symm.trans hshown'))
      have hnew : r ∉ extra := fun hr' =>
        (h.made r (List.mem_of_getElem? hr)).not_ge (hext.made r hr').1
      rw [hext.rules] at hq
      exact (getElem?_filter_append_iff h.nodup hnew hr).mp hq
  | clickChooser =>
    intro hvisible hi
    have hact : RouteItem.act ops s .clickChooser = .error .outOfRange := by
      show RouteItem.clickChooser s = _
      unfold RouteItem.clickChooser
      rw [if_pos hvisible]
      split
      case h_1 => rfl
      case h_2 j hj => exact absurd (hi.symm.trans hj).symm (Option.some_ne_none j)
    exact absurd (hs'.symm.trans hact) ok_ne_error
  | setProxy window id =>
    intro r hr
    have hshown : s.shown = some r := by
      apply hedits
      show r ∈ (s.choosers[window]?).toList ++ s.current
      rw [hr]
      exact List.mem_append_left _ (List.mem_singleton.mpr rfl)
    rcases h.current hopen with hi | ⟨i, q, hi, hq, hshown'⟩
    · have hact : RouteItem.act ops s (.setProxy window id) = .error .outOfRange := by
        show RouteItem.setProxy ops window id s = _
        unfold RouteItem.setProxy
        rw [hr]
        dsimp only
        split
        case h_1 => rfl
        case h_2 j hj => exact absurd (hi.symm.trans hj).symm (Option.some_ne_none j)
      exact absurd (hs'.symm.trans hact) ok_ne_error
    · obtain rfl : r = q := Option.some.inj (hshown.symm.trans hshown')
      unfold State.current
      rw [hi]
      dsimp only
      rw [hq]
      rfl
  | _ => trivial

/-- The edits of an open editor are of the rule that is shown. -/
theorem Inv.edits (h : Inv s) (hopen : s.closed = false) {a : Action φ} (ha : Harmless ops s a) :
    ∀ r ∈ edits s a, s.shown = some r := by
  have hcurrent : ∀ r ∈ s.current, s.shown = some r := by
    intro r hr
    unfold State.current at hr
    split at hr
    case h_1 => exact absurd hr List.not_mem_nil
    case h_2 i hi =>
      obtain ⟨q, hq, hshown⟩ := h.aligned hopen i hi
      rw [hq] at hr
      rw [List.mem_singleton.mp hr]
      exact hshown
  intro r hr
  cases a with
  | editName text =>
    change r ∈ (if s.ruleName = text then [] else s.current) at hr
    split_ifs at hr
    · exact absurd hr List.not_mem_nil
    · exact hcurrent r hr
  | editValue value => exact hcurrent r hr
  | setProxy window id =>
    rcases List.mem_append.mp hr with hr | hr
    · have hsome : s.choosers[window]? = some r := Option.mem_toList.mp hr
      apply hcurrent
      rw [ha r hsome]
      exact List.mem_singleton.mpr rfl
    · exact hcurrent r hr
  | _ => exact absurd hr List.not_mem_nil

/-- **One step.** -/
theorem Inv.fits_iff (h : Inv s) (a : Action φ) :
    Safe ops s a ↔ (s.closed = false → Harmless ops s a) := by
  unfold Safe step
  cases hopen : s.closed with
  | true =>
    refine ⟨fun _ hfalse => absurd hfalse.symm Bool.false_ne_true, fun _ => ?_⟩
    exact ⟨⟨s, rfl, h.aligned⟩, fun hfalse => absurd hfalse.symm Bool.false_ne_true⟩
  | false =>
    constructor
    · rintro ⟨hact, hedits⟩ -
      exact h.harmless hopen hact (hedits rfl)
    · intro ha
      obtain ⟨s', hs', hinv⟩ := h.act hopen (ha rfl)
      exact ⟨⟨s', hs', hinv.aligned⟩, fun _ => h.edits hopen (ha rfl)⟩

theorem Inv.step {a : Action φ} {s' : State φ} (h : Inv s)
    (ha : s.closed = false → Harmless ops s a)
    (hstep : (machine ops).step s a = some s') : Inv s' := by
  have hok : RouteItem.step ops s a = .ok s' := by
    change (RouteItem.step ops s a).toOption = some s' at hstep
    cases hresult : RouteItem.step ops s a with
    | error e =>
      rw [hresult] at hstep
      exact absurd hstep.symm (Option.some_ne_none s')
    | ok t =>
      rw [hresult] at hstep
      exact congrArg Except.ok (Option.some.inj hstep)
  unfold RouteItem.step at hok
  cases hopen : s.closed with
  | true =>
    rw [hopen] at hok
    obtain rfl := Except.ok.inj hok
    exact h
  | false =>
    rw [hopen] at hok
    obtain ⟨t, ht, hinv⟩ := h.act hopen (ha hopen)
    obtain rfl := Except.ok.inj (ht.symm.trans hok)
    exact hinv

end

/-- **Rule editor selection.** -/
theorem aligned_iff (ops : RuleOps φ) (rules : List (Rule φ)) (lastNum : ℕ) (other : Rule φ)
    (is : List (Action φ)) :
    (machine ops).Along (Safe ops) (init rules lastNum other) is ↔
      (machine ops).Along (fun s a => s.closed = false → Harmless ops s a)
        (init rules lastNum other) is :=
  Machine.along_iff Inv (fun _ a h => h.fits_iff a) (fun _ _ _ h ha hs' => h.step ha hs')
    (inv_init rules lastNum other)

/-! ## A sample run -/

/-- Rules that list the values of each attribute. -/
def sampleOps : RuleOps (String → List String) where
  fields := fun _ => []
  setFieldValue := fun attr value fields => Function.update fields attr value
  setOutbound := fun id fields => Function.update fields "outbound" [toString id]
  refill := fun attr fields => [[""], fields attr]
  isEmpty := fun fields => fields "domain" = []
  simpleRules := fun _ _ => ([], "")

def sampleRule (name domain : String) : Rule (String → List String) :=
  ⟨name, 0, 0, fun attr => if attr = "domain" then [domain] else []⟩

/-- The second of two rules is selected when one rule is imported. -/
def shorterImport : List (Action (String → List String)) :=
  [.select 1, .importJson [(sampleRule "" "c.example").fields]]

theorem import_out_of_range :
    ¬ ∀ (rules : List (Rule (String → List String))) (lastNum : ℕ)
      (other : Rule (String → List String)) (is : List (Action (String → List String))),
      (machine sampleOps).Along (Safe sampleOps) (init rules lastNum other) is := by
  intro h
  obtain ⟨-, himport⟩ := h [sampleRule "a" "a.example", sampleRule "b" "b.example"] 0
    (sampleRule "" "") shorterImport
  obtain ⟨⟨⟨t, ht, -⟩, -⟩, -⟩ := himport _ rfl
  have herror : (Except.ok t : Checked _) = .error .outOfRange := ht.symm.trans rfl
  exact ok_ne_error herror

end RouteItem

end NekoBox.Window
