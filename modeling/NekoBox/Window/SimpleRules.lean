import NekoBox.Config.Routing
import NekoBox.Lib.Distinct
import NekoBox.Qt.Strings
import NekoBox.Window.RouteItem

/-!
# Simple rules

The rules of a chain that are not custom are edited as text, one line for each value:
`GetSimpleRules` and `UpdateSimpleRules` (`RouteEntity.cpp`, lines 766–902). An update throws
the simple rules of an action away and makes up to three new ones of the lines it accepts.

* `linesOf_update`: the lines shown after an update;
* `report_update`: the message of an update;
* `faithful_iff`: an update with the text that is shown says nothing and changes nothing
  exactly when the lines shown are trimmed, accepted, distinct and in the order of their kinds.
-/

namespace NekoBox.Window

open NekoBox.Lib NekoBox.Config Distinct

namespace SimpleRules

/-- A rule of a chain, with its values. -/
abbrev ChainRule := RouteItem.Rule RouteRule

/-! ## The code -/

/-- A simple rule of an action. -/
def isSimple (action : ℤ) (rule : ChainRule) : Bool := rule.type ≠ 0 ∧ rule.simpleAction = action

/-- The lines of a rule (lines 773–780). -/
def shownLines (rule : RouteRule) : List String :=
  rule.domain.map ("domain:" ++ ·) ++ rule.domainSuffix.map ("suffix:" ++ ·) ++
    rule.domainKeyword.map ("keyword:" ++ ·) ++ rule.domainRegex.map ("regex:" ++ ·) ++
    rule.ruleSet.map ("ruleset:" ++ ·) ++ rule.ipCidr.map ("ip:" ++ ·) ++
    rule.processName.map ("processName:" ++ ·) ++ rule.processPath.map ("processPath:" ++ ·)

/-- Lines with a line break after each. -/
def textOf (lines : List String) : String := String.join (lines.map (· ++ "\n"))

/-- The lines of all simple rules of an action. -/
def linesOf (rules : List ChainRule) (action : ℤ) : List String :=
  (rules.filter (isSimple action)).flatMap fun rule => shownLines rule.fields

/-- `GetSimpleRules` -/
def getSimpleRules (rules : List ChainRule) (action : ℤ) : String := textOf (linesOf rules action)

/-- `add_simple_address_rule` (lines 858–882), none where it returns `false`. -/
def addSimpleAddressRule (content : String) (rule : RouteRule) : Option RouteRule :=
  if ':' ∉ content.toList then none
  else
    let address := Qt.subStrAfter content ":"
    let subType := Qt.subStrBefore content ":"
    if subType = "domain" then some { rule with domain := addNew rule.domain address }
    else if subType = "suffix" then
      some { rule with domainSuffix := addNew rule.domainSuffix address }
    else if subType = "keyword" then
      some { rule with domainKeyword := addNew rule.domainKeyword address }
    else if subType = "regex" then some { rule with domainRegex := addNew rule.domainRegex address }
    else if subType = "ruleset" then some { rule with ruleSet := addNew rule.ruleSet address }
    else if subType = "ip" then some { rule with ipCidr := addNew rule.ipCidr address }
    else none

/-- `add_simple_process_rule` (lines 884–902); `section(':', 1)` is what follows the first
    colon. -/
def addSimpleProcessRule (content : String) (rule : RouteRule) (type : ℤ) : Option RouteRule :=
  match Qt.split ':' content with
  | subType :: address :: rest =>
    if subType = "processPath" ∧ type = 3 then
      some { rule with processPath := addNew rule.processPath (Qt.subStrAfter content ":") }
    else if subType = "processName" ∧ type = 2 ∧ rest = [] then
      some { rule with processName := addNew rule.processName address }
    else none
  | _ => none

/-- `add_simple_rule` -/
def addSimpleRule (content : String) (rule : RouteRule) (type : ℤ) : Option RouteRule :=
  if type = 1 then addSimpleAddressRule content rule else addSimpleProcessRule content rule type

/-- The loop over the lines (lines 826–837), with the indices of the lines added. -/
def addItems (type : ℤ) (i : ℕ) (rule : RouteRule) : List String → RouteRule × List ℕ
  | [] => (rule, [])
  | item :: items =>
    if Qt.trimString item = "" then addItems type (i + 1) rule items
    else
      match addSimpleRule (Qt.trimString item) rule type with
      | some rule =>
        let rest := addItems type (i + 1) rule items
        (rest.1, i :: rest.2)
      | none => addItems type (i + 1) rule items

/-- A rule for an action, without values (lines 807–824). -/
def emptyRule (action : ℤ) : RouteRule :=
  if action = 1 then { action := "reject" }
  else if action = 0 then { action := "route", outboundID := directID }
  else if action = 2 then { action := "route", outboundID := proxyID }
  else {}

/-- The rule of a type, unless it is empty (lines 805–838). -/
def newRule (action type : ℤ) (items : List String) : List ChainRule :=
  let added := addItems type 0 (emptyRule action) items
  if added.2 = [] then []
  else [⟨RouteItem.simpleRuleName type action, type, action, added.1⟩]

/-- `added_items` -/
def addedItems (action : ℤ) (items : List String) : List ℕ :=
  (addItems 1 0 (emptyRule action) items).2 ++ (addItems 2 0 (emptyRule action) items).2 ++
    (addItems 3 0 (emptyRule action) items).2

/-- The message about the lines that were not added (lines 839–843). -/
def reportFrom (added : List ℕ) (i : ℕ) : List String → String
  | [] => ""
  | item :: items =>
    (if Qt.trimString item = "" then "" else if i ∈ added then "" else "Could not add " ++ item) ++
      reportFrom added (i + 1) items

/-- `UpdateSimpleRules` (lines 787–846) -/
def updateSimpleRules (content : String) (action : ℤ) (rules : List ChainRule) :
    List ChainRule × String :=
  let items := Qt.split '\n' content
  (rules.filter (fun rule => !isSimple action rule) ++
      [1, 2, 3].flatMap fun type => newRule action type items,
    reportFrom (addedItems action items) 0 items)

/-- The rules of an update with their types, and its message, as `RouteItem` uses them. -/
def simpleRules (content : String) (action : ℤ) : List (ℤ × RouteRule) × String :=
  let items := Qt.split '\n' content
  ([1, 2, 3].flatMap fun type => (newRule action type items).map fun rule => (type, rule.fields),
    reportFrom (addedItems action items) 0 items)

/-- The update on the rules themselves is the one of the editor on pointers to them. -/
theorem updateSimpleRules_rules (ops : RouteItem.RuleOps RouteRule)
    (hops : ops.simpleRules = simpleRules) (content : String) (action : ℤ)
    {s : RouteItem.State RouteRule} (hmade : ∀ r ∈ s.rules, r < s.next) :
    let s' := (RouteItem.updateSimpleRules ops content action (s, "")).1
    s'.rules.map s'.rule = (updateSimpleRules content action (s.rules.map s.rule)).1 := by
  intro s'
  have hnew : ((ops.simpleRules content action).1.map fun new =>
        (⟨RouteItem.simpleRuleName new.1 action, new.1, action, new.2⟩ : ChainRule)) =
      [1, 2, 3].flatMap fun type => newRule action type (Qt.split '\n' content) := by
    rw [hops]
    unfold simpleRules
    rw [List.map_flatMap]
    refine List.flatMap_congr fun type _ => ?_
    unfold newRule
    dsimp only
    split_ifs <;> rfl
  have hmap : ∀ new : List ChainRule,
      (List.range' s.next new.length).map (s.makeRules new).rule = new := by
    intro new
    refine List.ext_getElem (by simp) fun i _ hi => ?_
    rw [List.getElem_map, List.getElem_range', Nat.one_mul]
    show (if s.next + i < s.next then _ else new.getD (s.next + i - s.next) _) = _
    rw [if_neg (Nat.not_lt.mpr (Nat.le_add_right _ _)), Nat.add_sub_cancel_left,
      List.getD_eq_getElem?_getD, List.getElem?_eq_getElem hi, Option.getD_some]
  show (s.rules.filter _ ++ List.range' s.next _).map (s.makeRules _).rule = _
  rw [hnew, List.map_append, hmap]
  unfold updateSimpleRules
  dsimp only
  rw [List.filter_map]
  congr 1
  have hkept : s.rules.filter (fun r =>
        decide ¬((s.rule r).type ≠ 0 ∧ (s.rule r).simpleAction = action)) =
      s.rules.filter ((fun rule => !isSimple action rule) ∘ s.rule) := by
    refine List.filter_congr fun r _ => ?_
    simp [isSimple]
  rw [hkept]
  exact List.map_congr_left fun r hr => if_pos (hmade r (List.mem_of_mem_filter hr))

/-! ## Lines -/

inductive Kind where
  | domain
  | suffix
  | keyword
  | regex
  | ruleset
  | ip
  | processName
  | processPath
  deriving DecidableEq

namespace Kind

/-- The kinds in the order in which they are shown. -/
def all : List Kind := [domain, suffix, keyword, regex, ruleset, ip, processName, processPath]

def index : Kind → ℕ
  | domain => 0
  | suffix => 1
  | keyword => 2
  | regex => 3
  | ruleset => 4
  | ip => 5
  | processName => 6
  | processPath => 7

theorem index_injective : Function.Injective index := by
  intro a b h
  cases a <;> cases b <;> first | rfl | cases h

instance : LinearOrder Kind := LinearOrder.lift' index index_injective

theorem mem_all (k : Kind) : k ∈ all := by cases k <;> decide

theorem all_sorted : all.Pairwise (· < ·) := by decide

/-- What stands before the colon. -/
def text : Kind → String
  | domain => "domain"
  | suffix => "suffix"
  | keyword => "keyword"
  | regex => "regex"
  | ruleset => "ruleset"
  | ip => "ip"
  | processName => "processName"
  | processPath => "processPath"

/-- The type of the rule that has the values. -/
def type : Kind → ℤ
  | processName => 2
  | processPath => 3
  | _ => 1

def values (rule : RouteRule) : Kind → List String
  | domain => rule.domain
  | suffix => rule.domainSuffix
  | keyword => rule.domainKeyword
  | regex => rule.domainRegex
  | ruleset => rule.ruleSet
  | ip => rule.ipCidr
  | processName => rule.processName
  | processPath => rule.processPath

def add (v : String) (rule : RouteRule) : Kind → RouteRule
  | domain => { rule with domain := addNew rule.domain v }
  | suffix => { rule with domainSuffix := addNew rule.domainSuffix v }
  | keyword => { rule with domainKeyword := addNew rule.domainKeyword v }
  | regex => { rule with domainRegex := addNew rule.domainRegex v }
  | ruleset => { rule with ruleSet := addNew rule.ruleSet v }
  | ip => { rule with ipCidr := addNew rule.ipCidr v }
  | processName => { rule with processName := addNew rule.processName v }
  | processPath => { rule with processPath := addNew rule.processPath v }

theorem values_add (rule : RouteRule) (v : String) (k j : Kind) :
    values (add v rule k) j = if j = k then addNew (values rule k) v else values rule j := by
  cases k <;> cases j <;> rfl

/-- The line of a value. -/
def line (k : Kind) (v : String) : String := k.text ++ ":" ++ v

theorem text_injective {a b : Kind} (h : a.text = b.text) : a = b := by
  cases a <;> cases b <;> first | rfl | exact absurd h (by decide)

theorem colon_not_mem_text (k : Kind) : ':' ∉ k.text.toList := by cases k <;> simp [text]

end Kind

theorem shownLines_eq (rule : RouteRule) :
    shownLines rule = Kind.all.flatMap fun k => (Kind.values rule k).map k.line := by
  unfold shownLines Kind.all
  simp only [List.flatMap_cons, List.flatMap_nil, List.append_nil, List.append_assoc]
  rfl

/-- The kind and the value of a line that is accepted. A process name has no colon. -/
def parseLine (s : String) : Option (Kind × String) :=
  if ':' ∉ s.toList then none
  else
    match Kind.all.find? fun k => k.text = Qt.subStrBefore s ":" with
    | none => none
    | some k =>
      if k = .processName ∧ ':' ∈ (Qt.subStrAfter s ":").toList then none
      else some (k, Qt.subStrAfter s ":")

section

variable {s : String} {k : Kind} {v : String} {type : ℤ} {rule : RouteRule}

theorem split_of_mem (h : ':' ∈ s.toList) :
    Qt.split ':' s = Qt.subStrBefore s ":" :: Qt.split ':' (Qt.subStrAfter s ":") := by
  have hsep : (":" : String).toList = [':'] := by simp
  unfold Qt.split
  rw [Qt.toList_eq_parts hsep h,
    List.splitOn_append_cons_self_of_not_mem (Qt.not_mem_subStrBefore hsep), List.map_cons,
    String.ofList_toList]

/-- A line is the text in front of the colon and what follows. -/
theorem line_of_parseLine (h : parseLine s = some (k, v)) : s = k.line v := by
  have hsep : (":" : String).toList = [':'] := by simp
  unfold parseLine at h
  split_ifs at h with hcolon
  cases hfind : Kind.all.find? fun k => k.text = Qt.subStrBefore s ":" with
  | none =>
    rw [hfind] at h
    cases h
  | some k' =>
    rw [hfind] at h
    dsimp only at h
    split_ifs at h
    obtain ⟨rfl, rfl⟩ := Prod.mk.inj (Option.some.inj h)
    have htext : k'.text = Qt.subStrBefore s ":" := by simpa using List.find?_some hfind
    apply String.toList_injective
    rw [Qt.toList_eq_parts hsep hcolon, Kind.line, htext, String.toList_append,
      String.toList_append, hsep, List.append_assoc]
    rfl

/-- The first of the parts, and whether there are more. -/
theorem split_cons (s : String) :
    ∃ part rest, Qt.split ':' s = part :: rest ∧ (rest = [] ↔ ':' ∉ s.toList) ∧
      (rest = [] → part = s) := by
  by_cases h : ':' ∈ s.toList
  · have hne : Qt.split ':' (Qt.subStrAfter s ":") ≠ [] := fun hnil =>
      List.splitOn_ne_nil _ _ (List.map_eq_nil_iff.mp hnil)
    exact ⟨_, _, split_of_mem h, iff_of_false hne (not_not.mpr h), fun hnil => absurd hnil hne⟩
  · exact ⟨s, [], Qt.split_of_not_mem h, iff_of_true rfl h, fun _ => rfl⟩

/-- What a rule of a type does with a line. -/
theorem addSimpleRule_eq (htype : type ∈ [1, 2, 3]) (s : String) (rule : RouteRule) :
    addSimpleRule s rule type =
      (parseLine s).bind fun p => if p.1.type = type then some (Kind.add p.2 rule p.1) else none := by
  by_cases hcolon : ':' ∈ s.toList
  · obtain ⟨part, rest, hsplit, hrest, hpart⟩ := split_cons (Qt.subStrAfter s ":")
    have hparts := split_of_mem hcolon
    rw [hsplit] at hparts
    have hparse : parseLine s =
        (Kind.all.find? fun k => k.text = Qt.subStrBefore s ":").bind fun k =>
          if k = .processName ∧ rest ≠ [] then none else some (k, Qt.subStrAfter s ":") := by
      unfold parseLine
      rw [if_neg (not_not.mpr hcolon)]
      have hiff : rest ≠ [] ↔ ':' ∈ (Qt.subStrAfter s ":").toList := by
        rw [ne_eq, hrest, not_not]
      simp only [hiff]
      cases Kind.all.find? fun k => k.text = Qt.subStrBefore s ":" <;> rfl
    unfold addSimpleRule addSimpleAddressRule addSimpleProcessRule
    rw [hparse, hparts, if_neg (not_not.mpr hcolon)]
    generalize Qt.subStrAfter s ":" = after at *
    generalize Qt.subStrBefore s ":" = before at *
    cases hfind : Kind.all.find? fun k => k.text = before with
    | none =>
      have hne : ∀ k : Kind, ¬ k.text = before := fun k => by
        simpa using List.find?_eq_none.mp hfind k k.mem_all
      have hnot : ∀ k : Kind, before ≠ k.text := fun k h => hne k h.symm
      have hdomain := hnot .domain
      have hsuffix := hnot .suffix
      have hkeyword := hnot .keyword
      have hregex := hnot .regex
      have hruleset := hnot .ruleset
      have hip := hnot .ip
      have hname := hnot .processName
      have hpath := hnot .processPath
      simp only [Kind.text] at hdomain hsuffix hkeyword hregex hruleset hip hname hpath
      simp [hdomain, hsuffix, hkeyword, hregex, hruleset, hip, hname, hpath]
    | some k =>
      obtain rfl : k.text = before := by simpa using List.find?_some hfind
      simp only [List.mem_cons, List.not_mem_nil, or_false] at htype
      by_cases hone : rest = []
      · rw [hpart hone]
        cases k <;> rcases htype with rfl | rfl | rfl <;>
          simp [hone, Kind.text, Kind.type, Kind.add]
      · cases k <;> rcases htype with rfl | rfl | rfl <;>
          simp [hone, Kind.text, Kind.type, Kind.add]
  · have hparse : parseLine s = none := if_pos hcolon
    rw [hparse, Option.bind_none]
    unfold addSimpleRule addSimpleAddressRule addSimpleProcessRule
    rw [if_pos hcolon, Qt.split_of_not_mem hcolon]
    exact ite_self none

end

/-! ## The loops -/

/-- The kinds and values of the lines that are accepted. -/
def acceptedLines (items : List String) : List (Kind × String) :=
  items.filterMap fun item => parseLine (Qt.trimString item)

/-- The values of a kind, in the order in which they come first. -/
def valuesOf (k : Kind) (ps : List (Kind × String)) : List String :=
  ((ps.filter fun p => p.1 = k).map Prod.snd).foldl addNew []

/-- The lines that an update leaves. -/
def normalLines (items : List String) : List String :=
  Kind.all.flatMap fun k => (valuesOf k (acceptedLines items)).map k.line

section

variable {type : ℤ} {action : ℤ} {rule : RouteRule}

theorem parseLine_empty : parseLine "" = none := if_pos (by simp)

theorem addItems_fst (htype : type ∈ [1, 2, 3]) (i : ℕ) (rule : RouteRule) (items : List String) :
    (addItems type i rule items).1 =
      ((acceptedLines items).filter fun p => p.1.type = type).foldl
        (fun rule p => Kind.add p.2 rule p.1) rule := by
  induction items generalizing i rule with
  | nil => rfl
  | cons item items ih =>
    unfold addItems acceptedLines
    rw [List.filterMap_cons]
    by_cases hblank : Qt.trimString item = ""
    · rw [if_pos hblank, hblank, parseLine_empty]
      exact ih (i + 1) rule
    · rw [if_neg hblank, addSimpleRule_eq htype]
      cases hparse : parseLine (Qt.trimString item) with
      | none => exact ih (i + 1) rule
      | some p =>
        rw [Option.bind_some, List.filter_cons]
        by_cases hp : p.1.type = type
        · rw [if_pos hp, if_pos (decide_eq_true hp)]
          exact ih (i + 1) _
        · rw [if_neg hp, if_neg fun h => hp (of_decide_eq_true h)]
          exact ih (i + 1) rule

/-- A line is added by the rule of its type. -/
theorem mem_addItems_snd (htype : type ∈ [1, 2, 3]) {i j : ℕ} {items : List String} :
    j ∈ (addItems type i rule items).2 ↔ ∃ n, j = i + n ∧ ∃ item, items[n]? = some item ∧
      ∃ p, parseLine (Qt.trimString item) = some p ∧ p.1.type = type := by
  induction items generalizing i rule with
  | nil => exact iff_of_false (fun h => nomatch h) fun ⟨_, _, _, h, _⟩ => nomatch h
  | cons item items ih =>
    have hsplit : (∃ n, j = i + n ∧ ∃ it, (item :: items)[n]? = some it ∧
          ∃ p, parseLine (Qt.trimString it) = some p ∧ p.1.type = type) ↔
        (j = i ∧ ∃ p, parseLine (Qt.trimString item) = some p ∧ p.1.type = type) ∨
          ∃ n, j = i + 1 + n ∧ ∃ it, items[n]? = some it ∧
            ∃ p, parseLine (Qt.trimString it) = some p ∧ p.1.type = type := by
      constructor
      · rintro ⟨n, hn, it, hit, hp⟩
        cases n with
        | zero =>
          obtain rfl := Option.some.inj hit
          exact .inl ⟨hn, hp⟩
        | succ n => exact .inr ⟨n, by omega, it, hit, hp⟩
      · rintro (⟨rfl, hp⟩ | ⟨n, hn, it, hit, hp⟩)
        · exact ⟨0, rfl, item, rfl, hp⟩
        · exact ⟨n + 1, by omega, it, hit, hp⟩
    rw [hsplit]
    unfold addItems
    by_cases hblank : Qt.trimString item = ""
    · rw [if_pos hblank, hblank, parseLine_empty, ih]
      exact (or_iff_right fun h => absurd h.2.choose_spec.1.symm (Option.some_ne_none _)).symm
    · rw [if_neg hblank, addSimpleRule_eq htype]
      cases hparse : parseLine (Qt.trimString item) with
      | none =>
        rw [Option.bind_none]
        dsimp only
        rw [ih]
        exact (or_iff_right fun h => absurd h.2.choose_spec.1.symm (Option.some_ne_none _)).symm
      | some p =>
        rw [Option.bind_some]
        by_cases hp : p.1.type = type
        · rw [if_pos hp]
          dsimp only
          rw [List.mem_cons, ih]
          exact or_congr (iff_self_and.mpr fun _ => ⟨p, rfl, hp⟩) Iff.rfl
        · rw [if_neg hp]
          dsimp only
          rw [ih]
          refine (or_iff_right ?_).symm
          rintro ⟨-, q, hq, htypeq⟩
          exact hp (Option.some.inj hq ▸ htypeq)

/-- The values after lines have been added. -/
theorem values_foldl (ps : List (Kind × String)) (rule : RouteRule) (k : Kind) :
    Kind.values (ps.foldl (fun rule p => Kind.add p.2 rule p.1) rule) k =
      ((ps.filter fun p => p.1 = k).map Prod.snd).foldl addNew (Kind.values rule k) := by
  induction ps generalizing rule with
  | nil => rfl
  | cons p ps ih =>
    rw [List.foldl_cons, ih, Kind.values_add, List.filter_cons]
    by_cases hk : p.1 = k
    · rw [if_pos hk.symm, if_pos (decide_eq_true hk), List.map_cons, List.foldl_cons, hk]
    · rw [if_neg (Ne.symm hk), if_neg fun h => hk (of_decide_eq_true h)]

theorem values_emptyRule (action : ℤ) (k : Kind) : Kind.values (emptyRule action) k = [] := by
  unfold emptyRule
  split_ifs <;> cases k <;> rfl

/-- The lines of the rule of a type. -/
theorem shownLines_addItems (htype : type ∈ [1, 2, 3]) (action : ℤ) (items : List String) :
    shownLines (addItems type 0 (emptyRule action) items).1 =
      Kind.all.flatMap fun k =>
        if k.type = type then (valuesOf k (acceptedLines items)).map k.line else [] := by
  rw [shownLines_eq]
  refine List.flatMap_congr fun k _ => ?_
  rw [addItems_fst htype, values_foldl, values_emptyRule, List.filter_filter]
  by_cases hk : k.type = type
  · rw [if_pos hk]
    unfold valuesOf
    congr 3
    refine List.filter_congr fun p _ => ?_
    by_cases hp : p.1 = k
    · simp [hp, hk]
    · simp [hp]
  · rw [if_neg hk]
    have hnone : (acceptedLines items).filter
        (fun p => decide (p.1 = k) && decide (p.1.type = type)) = [] := by
      refine List.filter_eq_nil_iff.mpr fun p _ h => ?_
      obtain ⟨hp, hptype⟩ := Bool.and_eq_true_iff.mp h
      exact hk (of_decide_eq_true hp ▸ of_decide_eq_true hptype)
    rw [hnone]
    rfl

theorem addItems_of_nil {i : ℕ} {items : List String}
    (h : (addItems type i rule items).2 = []) : (addItems type i rule items).1 = rule := by
  induction items generalizing i with
  | nil => rfl
  | cons item items ih =>
    unfold addItems at h ⊢
    split_ifs at h ⊢ with hblank
    · exact ih h
    · cases hadd : addSimpleRule (Qt.trimString item) rule type with
      | none =>
        rw [hadd] at h
        exact ih h
      | some rule' =>
        rw [hadd] at h
        exact absurd h (List.cons_ne_nil _ _)

/-- A rule that is left out shows nothing. -/
theorem linesOf_newRule (htype : type ∈ [1, 2, 3]) (action : ℤ) (items : List String) :
    linesOf (newRule action type items) action =
      shownLines (addItems type 0 (emptyRule action) items).1 := by
  have hne : type ≠ 0 := by
    rintro rfl
    exact absurd htype (by decide)
  unfold newRule
  dsimp only
  split_ifs with hnone
  · rw [addItems_of_nil hnone, shownLines_eq]
    simp [linesOf, values_emptyRule]
  · unfold linesOf isSimple
    simp [hne]

theorem linesOf_append (rules rules' : List ChainRule) (action : ℤ) :
    linesOf (rules ++ rules') action = linesOf rules action ++ linesOf rules' action := by
  unfold linesOf
  rw [List.filter_append, List.flatMap_append]

/-- **The lines shown after an update.** -/
theorem linesOf_update (content : String) (action : ℤ) (rules : List ChainRule) :
    linesOf (updateSimpleRules content action rules).1 action =
      normalLines (Qt.split '\n' content) := by
  have hkept : linesOf (rules.filter fun rule => !isSimple action rule) action = [] := by
    unfold linesOf
    rw [List.filter_filter]
    simp
  unfold updateSimpleRules
  dsimp only
  rw [linesOf_append, hkept, List.nil_append]
  simp only [List.flatMap_cons, List.flatMap_nil, List.append_nil, linesOf_append]
  rw [linesOf_newRule (by decide), linesOf_newRule (by decide), linesOf_newRule (by decide),
    shownLines_addItems (by decide), shownLines_addItems (by decide), shownLines_addItems (by decide)]
  unfold normalLines
  simp [Kind.all, Kind.type]

theorem others_update (content : String) (action : ℤ) (rules : List ChainRule) :
    (updateSimpleRules content action rules).1.filter (fun rule => !isSimple action rule) =
      rules.filter fun rule => !isSimple action rule := by
  have hnew : ∀ type ∈ [(1 : ℤ), 2, 3], ∀ items,
      (newRule action type items).filter (fun rule => !isSimple action rule) = [] := by
    intro type htype items
    have hne : type ≠ 0 := by
      rintro rfl
      exact absurd htype (by decide)
    unfold newRule
    dsimp only
    split_ifs
    · rfl
    · simp [isSimple, hne]
  unfold updateSimpleRules
  dsimp only
  rw [List.filter_append, List.filter_filter, List.filter_flatMap]
  simp only [List.flatMap_cons, List.flatMap_nil, hnew _ (by decide : (1 : ℤ) ∈ [(1 : ℤ), 2, 3]),
    hnew _ (by decide : (2 : ℤ) ∈ [(1 : ℤ), 2, 3]), hnew _ (by decide : (3 : ℤ) ∈ [(1 : ℤ), 2, 3]),
    List.append_nil, Bool.and_self]

/-! ## The lines of an update -/

/-- What a line gives is given by the line of its value. -/
theorem parseLine_line {k : Kind} {v s : String} (h : parseLine s = some (k, v)) :
    parseLine (k.line v) = some (k, v) := by
  rw [← line_of_parseLine h]
  exact h

theorem mem_acceptedLines {p : Kind × String} {items : List String} :
    p ∈ acceptedLines items ↔ ∃ item ∈ items, parseLine (Qt.trimString item) = some p := by
  unfold acceptedLines
  rw [List.mem_filterMap]

theorem mem_valuesOf {k : Kind} {v : String} {ps : List (Kind × String)} :
    v ∈ valuesOf k ps ↔ (k, v) ∈ ps := by
  unfold valuesOf
  rw [mem_foldl_addNew, or_iff_right List.not_mem_nil, List.mem_map]
  constructor
  · rintro ⟨p, hp, rfl⟩
    obtain ⟨hmem, hk⟩ := List.mem_filter.mp hp
    rwa [← of_decide_eq_true hk]
  · exact fun h => ⟨(k, v), List.mem_filter.mpr ⟨h, decide_eq_true rfl⟩, rfl⟩

theorem mem_normalLines {l : String} {items : List String} :
    l ∈ normalLines items ↔ ∃ item ∈ items, Qt.trimString item = l ∧ (parseLine l).isSome := by
  unfold normalLines
  rw [List.mem_flatMap]
  constructor
  · rintro ⟨k, -, hl⟩
    obtain ⟨v, hv, rfl⟩ := List.mem_map.mp hl
    obtain ⟨item, hitem, hparse⟩ := mem_acceptedLines.mp (mem_valuesOf.mp hv)
    have hline := line_of_parseLine hparse
    exact ⟨item, hitem, hline, by rw [← hline, hparse]; rfl⟩
  · rintro ⟨item, hitem, rfl, hsome⟩
    obtain ⟨⟨k, v⟩, hparse⟩ := Option.isSome_iff_exists.mp hsome
    refine ⟨k, k.mem_all, ?_⟩
    rw [line_of_parseLine hparse]
    exact List.mem_map_of_mem (mem_valuesOf.mpr (mem_acceptedLines.mpr ⟨item, hitem, hparse⟩))

/-- The lines of an update are distinct. -/
theorem nodup_normalLines (items : List String) : (normalLines items).Nodup := by
  unfold normalLines
  refine List.nodup_flatMap.mpr ⟨fun k _ => ?_, ?_⟩
  · refine (nodup_foldl_addNew List.nodup_nil).map_on fun v hv w hw heq => ?_
    obtain ⟨_, -, hparsev⟩ := mem_acceptedLines.mp (mem_valuesOf.mp hv)
    obtain ⟨_, -, hparsew⟩ := mem_acceptedLines.mp (mem_valuesOf.mp hw)
    have hboth := (parseLine_line hparsev).symm.trans (heq ▸ parseLine_line hparsew)
    exact (Prod.mk.inj (Option.some.inj hboth)).2
  · refine Kind.all_sorted.imp fun {j k} hjk => ?_
    intro l hj hk
    obtain ⟨v, hv, rfl⟩ := List.mem_map.mp hj
    obtain ⟨w, hw, heq⟩ := List.mem_map.mp hk
    obtain ⟨_, -, hparsev⟩ := mem_acceptedLines.mp (mem_valuesOf.mp hv)
    obtain ⟨_, -, hparsew⟩ := mem_acceptedLines.mp (mem_valuesOf.mp hw)
    have hboth := (parseLine_line hparsev).symm.trans (heq ▸ parseLine_line hparsew)
    exact hjk.ne (Prod.mk.inj (Option.some.inj hboth)).1

/-- A rule of some type takes the line. -/
def Accepts (line : String) : Prop :=
  ∃ type ∈ [(1 : ℤ), 2, 3], (addSimpleRule line {} type).isSome

instance (line : String) : Decidable (Accepts line) :=
  inferInstanceAs (Decidable (∃ type ∈ [(1 : ℤ), 2, 3], _))

theorem accepts_iff {l : String} : Accepts l ↔ ∃ p, parseLine l = some p := by
  constructor
  · rintro ⟨type, htype, hsome⟩
    rw [addSimpleRule_eq htype] at hsome
    cases hparse : parseLine l with
    | none =>
      rw [hparse] at hsome
      exact absurd hsome Bool.false_ne_true
    | some p => exact ⟨p, rfl⟩
  · rintro ⟨p, hp⟩
    have htype : p.1.type ∈ [(1 : ℤ), 2, 3] := by cases p.1 <;> decide
    refine ⟨p.1.type, htype, ?_⟩
    rw [addSimpleRule_eq htype, hp, Option.bind_some, if_pos rfl]
    rfl

/-- Lines as an update leaves them. -/
structure Canonical (lines : List String) : Prop where
  trimmed : ∀ l ∈ lines, Qt.trimString l = l
  accepted : ∀ l ∈ lines, Accepts l
  distinct : lines.Nodup
  sorted : lines.Pairwise fun a b => ∀ p q, parseLine a = some p → parseLine b = some q → p.1 ≤ q.1

theorem sorted_normalLines (items : List String) :
    (normalLines items).Pairwise fun a b =>
      ∀ p q, parseLine a = some p → parseLine b = some q → p.1 ≤ q.1 := by
  unfold normalLines
  have hkind : ∀ {k : Kind} {l : String},
      l ∈ (valuesOf k (acceptedLines items)).map k.line → ∀ p, parseLine l = some p → p.1 = k := by
    intro k l hl p hp
    obtain ⟨v, hv, rfl⟩ := List.mem_map.mp hl
    obtain ⟨_, -, hparse⟩ := mem_acceptedLines.mp (mem_valuesOf.mp hv)
    rw [parseLine_line hparse] at hp
    rw [← Option.some.inj hp]
  refine List.pairwise_flatMap.mpr ⟨fun k _ => ?_, ?_⟩
  · refine List.pairwise_of_forall_mem_list fun a ha b hb p q hp hq => ?_
    exact (hkind ha p hp).le.trans (hkind hb q hq).ge
  · refine Kind.all_sorted.imp fun {j k} hjk a ha b hb p q hp hq => ?_
    rw [hkind ha p hp, hkind hb q hq]
    exact hjk.le

/-- The lines an update leaves unchanged. -/
theorem normalLines_eq_self_iff {lines : List String} :
    normalLines lines = lines ↔ Canonical lines := by
  constructor
  · intro h
    have hmem : ∀ l ∈ lines, ∃ item ∈ lines, Qt.trimString item = l ∧ (parseLine l).isSome :=
      fun l hl => mem_normalLines.mp (h.symm ▸ hl)
    refine ⟨fun l hl => ?_, fun l hl => ?_, h ▸ nodup_normalLines lines, h ▸ sorted_normalLines lines⟩
    · obtain ⟨item, -, rfl, -⟩ := hmem l hl
      exact Qt.trimString_trimString item
    · obtain ⟨-, -, -, hsome⟩ := hmem l hl
      exact accepts_iff.mpr (Option.isSome_iff_exists.mp hsome)
  · intro h
    -- the lines, as kinds and values
    have hlines : ∀ ls : List String, (∀ l ∈ ls, l ∈ lines) →
        (acceptedLines ls).map (fun p => p.1.line p.2) = ls := by
      intro ls hls
      induction ls with
      | nil => rfl
      | cons l ls ih =>
        obtain ⟨hl, hls⟩ := List.forall_mem_cons.mp hls
        obtain ⟨p, hp⟩ := accepts_iff.mp (h.accepted l hl)
        unfold acceptedLines
        rw [List.filterMap_cons, h.trimmed l hl, hp]
        dsimp only
        rw [List.map_cons, ← line_of_parseLine hp]
        exact congrArg (l :: ·) (ih hls)
    have hall := hlines lines fun _ hl => hl
    have hparse : ∀ p ∈ acceptedLines lines, parseLine (p.1.line p.2) = some p := by
      intro p hp
      obtain ⟨_, -, hitem⟩ := mem_acceptedLines.mp hp
      exact parseLine_line hitem
    have hnodup : (acceptedLines lines).Nodup := by
      refine List.Nodup.of_map (fun p => p.1.line p.2) ?_
      rw [hall]
      exact h.distinct
    have hsorted : (acceptedLines lines).Pairwise fun p q => p.1 ≤ q.1 := by
      have hpairs := h.sorted
      rw [← hall, List.pairwise_map] at hpairs
      refine hpairs.imp_of_mem fun hp hq hle => ?_
      exact hle _ _ (hparse _ hp) (hparse _ hq)
    have hvalues : ∀ k, (valuesOf k (acceptedLines lines)).map k.line =
        ((acceptedLines lines).filter fun p => p.1 = k).map fun p => p.1.line p.2 := by
      intro k
      have hsnd : (((acceptedLines lines).filter fun p => p.1 = k).map Prod.snd).Nodup := by
        refine (hnodup.filter _).map_on fun p hp q hq heq => ?_
        exact Prod.ext ((of_decide_eq_true (List.mem_filter.mp hp).2).trans
          (of_decide_eq_true (List.mem_filter.mp hq).2).symm) heq
      unfold valuesOf
      rw [foldl_addNew_of_nodup (by rwa [List.nil_append]), List.nil_append, List.map_map]
      refine List.map_congr_left fun p hp => ?_
      rw [← of_decide_eq_true (List.mem_filter.mp hp).2]
      rfl
    have hgroups : (Kind.all.flatMap fun k => (acceptedLines lines).filter fun p => p.1 = k) =
        acceptedLines lines := by
      convert flatMap_filter Kind.all_sorted (fun p _ => p.1.mem_all) hsorted
    unfold normalLines
    simp only [hvalues]
    rw [← List.map_flatMap, hgroups, hall]

/-! ## The text -/

/-- The parts of a text of lines: the last one is empty. -/
theorem split_textOf (lines : List String) :
    Qt.split '\n' (textOf lines) = lines.flatMap (Qt.split '\n') ++ [""] := by
  have hchars : ∀ lines : List String,
      (textOf lines).toList.splitOn '\n' =
        lines.flatMap (fun l => l.toList.splitOn '\n') ++ [[]] := by
    intro lines
    induction lines with
    | nil => simp [textOf]
    | cons l lines ih =>
      have htext : (textOf (l :: lines)).toList = l.toList ++ '\n' :: (textOf lines).toList := by
        unfold textOf
        simp [String.join_cons]
      rw [htext, List.splitOn_append_cons_self, ih, List.flatMap_cons, List.append_assoc]
  unfold Qt.split
  rw [hchars, List.map_append, List.map_flatMap]
  rfl

theorem split_injective {a b : String} (h : Qt.split '\n' a = Qt.split '\n' b) : a = b := by
  have hchars : a.toList.splitOn '\n' = b.toList.splitOn '\n' :=
    List.map_injective_iff.mpr (fun _ _ hl => String.ofList_injective hl) h
  have hjoin : ∀ s : List Char, List.intercalate ['\n'] (s.splitOn '\n') = s := fun _ =>
    List.intercalate_splitOn '\n'
  apply String.toList_injective
  rw [← hjoin a.toList, hchars, hjoin]

theorem flatMap_split_of_plain {lines : List String} (h : ∀ l ∈ lines, '\n' ∉ l.toList) :
    lines.flatMap (Qt.split '\n') = lines := by
  induction lines with
  | nil => rfl
  | cons l lines ih =>
    obtain ⟨hl, hlines⟩ := List.forall_mem_cons.mp h
    rw [List.flatMap_cons, Qt.split_of_not_mem hl, ih hlines, List.singleton_append]

theorem plain_of_mem_normalLines {content l : String}
    (h : l ∈ normalLines (Qt.split '\n' content)) : '\n' ∉ l.toList := by
  obtain ⟨item, hitem, rfl, -⟩ := mem_normalLines.mp h
  exact fun hmem => Qt.not_mem_of_mem_split hitem (Qt.mem_of_mem_trimString hmem)

/-! ## Messages -/

theorem mem_addedItems {action : ℤ} {items : List String} {j : ℕ} :
    j ∈ addedItems action items ↔ ∃ item, items[j]? = some item ∧ Accepts (Qt.trimString item) := by
  unfold addedItems
  rw [List.mem_append, List.mem_append, mem_addItems_snd (by decide), mem_addItems_snd (by decide),
    mem_addItems_snd (by decide)]
  simp only [Nat.zero_add, accepts_iff]
  constructor
  · rintro ((⟨_, rfl, item, hitem, p, hp, -⟩ | ⟨_, rfl, item, hitem, p, hp, -⟩) |
      ⟨_, rfl, item, hitem, p, hp, -⟩)
    · exact ⟨item, hitem, p, hp⟩
    · exact ⟨item, hitem, p, hp⟩
    · exact ⟨item, hitem, p, hp⟩
  · rintro ⟨item, hitem, p, hp⟩
    have htype : p.1.type = 1 ∨ p.1.type = 2 ∨ p.1.type = 3 := by cases p.1 <;> decide
    rcases htype with htype | htype | htype
    · exact .inl (.inl ⟨j, rfl, item, hitem, p, hp, htype⟩)
    · exact .inl (.inr ⟨j, rfl, item, hitem, p, hp, htype⟩)
    · exact .inr ⟨j, rfl, item, hitem, p, hp, htype⟩

/-- A line that is neither blank nor accepted. -/
def Rejected (item : String) : Prop := Qt.trimString item ≠ "" ∧ ¬ Accepts (Qt.trimString item)

instance (item : String) : Decidable (Rejected item) := inferInstanceAs (Decidable (_ ∧ _))

theorem not_accepts_empty : ¬ Accepts "" := by
  rw [accepts_iff, parseLine_empty]
  exact fun h => nomatch h

/-- What is said about lines: each that is rejected is named. -/
theorem reportFrom_eq {added : List ℕ} {i : ℕ} {items : List String}
    (h : ∀ n item, items[n]? = some item → (i + n ∈ added ↔ Accepts (Qt.trimString item))) :
    reportFrom added i items =
      String.join ((items.filter fun item => Rejected item).map ("Could not add " ++ ·)) := by
  induction items generalizing i with
  | nil => rfl
  | cons item items ih =>
    have hrest := @ih (i + 1) fun n it hit => by
      rw [show i + 1 + n = i + (n + 1) by omega]
      exact h (n + 1) it hit
    have hitem := h 0 item rfl
    rw [Nat.add_zero] at hitem
    unfold reportFrom
    rw [hrest, List.filter_cons]
    by_cases hrejected : Rejected item
    · rw [if_neg hrejected.1, if_neg fun hadded => hrejected.2 (hitem.mp hadded),
        if_pos (decide_eq_true hrejected), List.map_cons, String.join_cons]
    · rw [if_neg fun h => hrejected (of_decide_eq_true h)]
      by_cases hblank : Qt.trimString item = ""
      · rw [if_pos hblank, String.empty_append]
      · have hadded := hitem.mpr (not_not.mp fun haccepts => hrejected ⟨hblank, haccepts⟩)
        rw [if_neg hblank, if_pos hadded, String.empty_append]

/-- The message of an update. -/
theorem report_update (content : String) (action : ℤ) (rules : List ChainRule) :
    (updateSimpleRules content action rules).2 =
      String.join (((Qt.split '\n' content).filter fun item => Rejected item).map
        ("Could not add " ++ ·)) := by
  refine reportFrom_eq fun n item hitem => ?_
  rw [Nat.zero_add, mem_addedItems]
  constructor
  · rintro ⟨it, hit, haccepts⟩
    obtain rfl := Option.some.inj (hit.symm.trans hitem)
    exact haccepts
  · exact fun haccepts => ⟨item, hitem, haccepts⟩

/-! ## The editor's text -/

/-- What the text view should do for a chain and an action. -/
structure Faithful (rules : List ChainRule) (action : ℤ) : Prop where
  /-- The lines shown after an update are the distinct accepted ones. -/
  shown : ∀ content, ∃ lines,
    getSimpleRules (updateSimpleRules content action rules).1 action = textOf lines ∧
    (∀ l ∈ lines, '\n' ∉ l.toList) ∧ lines.Nodup ∧
    ∀ l, l ∈ lines ↔ (∃ item ∈ Qt.split '\n' content, Qt.trimString item = l) ∧ Accepts l
  /-- The other rules stay, in their order. -/
  others : ∀ content,
    (updateSimpleRules content action rules).1.filter (fun rule => !isSimple action rule) =
      rules.filter fun rule => !isSimple action rule
  /-- The message names every line that is rejected. -/
  reported : ∀ content, (updateSimpleRules content action rules).2 =
    String.join (((Qt.split '\n' content).filter fun item => Rejected item).map
      ("Could not add " ++ ·))
  /-- The text that is shown is taken without a message. -/
  silent : (updateSimpleRules (getSimpleRules rules action) action rules).2 = ""
  /-- It is shown again. -/
  stable : getSimpleRules (updateSimpleRules (getSimpleRules rules action) action rules).1 action =
    getSimpleRules rules action

/-- The lines of the text that is shown; a value with a line break makes several. -/
def shownText (rules : List ChainRule) (action : ℤ) : List String :=
  (linesOf rules action).flatMap (Qt.split '\n')

theorem split_getSimpleRules (rules : List ChainRule) (action : ℤ) :
    Qt.split '\n' (getSimpleRules rules action) = shownText rules action ++ [""] :=
  split_textOf _

/-- The empty line at the end says nothing. -/
theorem normalLines_append_empty (lines : List String) :
    normalLines (lines ++ [""]) = normalLines lines := by
  have htrim : Qt.trimString "" = "" := by decide
  have haccepted : acceptedLines (lines ++ [""]) = acceptedLines lines := by
    unfold acceptedLines
    simp [htrim, parseLine_empty]
  unfold normalLines
  rw [haccepted]

/-- The text shown is shown again exactly when its lines are as an update leaves them. -/
theorem stable_iff (rules : List ChainRule) (action : ℤ) :
    getSimpleRules (updateSimpleRules (getSimpleRules rules action) action rules).1 action =
        getSimpleRules rules action ↔
      Canonical (shownText rules action) := by
  have hnew : getSimpleRules (updateSimpleRules (getSimpleRules rules action) action rules).1
      action = textOf (normalLines (shownText rules action)) := by
    show textOf (linesOf _ action) = _
    rw [linesOf_update, split_getSimpleRules, normalLines_append_empty]
  have hplain : ∀ l ∈ normalLines (shownText rules action), '\n' ∉ l.toList := by
    intro l hl
    rw [← normalLines_append_empty, ← split_getSimpleRules] at hl
    exact plain_of_mem_normalLines hl
  have hsplit : Qt.split '\n' (textOf (normalLines (shownText rules action))) =
      normalLines (shownText rules action) ++ [""] := by
    rw [split_textOf, flatMap_split_of_plain hplain]
  rw [hnew, ← normalLines_eq_self_iff]
  constructor
  · intro h
    rw [h, split_getSimpleRules] at hsplit
    exact (List.append_cancel_right hsplit).symm
  · intro h
    refine split_injective ?_
    rw [hsplit, split_getSimpleRules, h]

/-- **The text view is faithful exactly when the lines it shows are trimmed, accepted, distinct
    and in order.** -/
theorem faithful_iff (rules : List ChainRule) (action : ℤ) :
    Faithful rules action ↔ Canonical (shownText rules action) := by
  refine ⟨fun h => (stable_iff rules action).mp h.stable, fun h => ?_⟩
  refine ⟨fun content => ?_, fun content => others_update content action rules,
    fun content => report_update content action rules, ?_, (stable_iff rules action).mpr h⟩
  · refine ⟨normalLines (Qt.split '\n' content), congrArg textOf (linesOf_update content action rules),
      fun l hl => plain_of_mem_normalLines hl, nodup_normalLines _, fun l => ?_⟩
    rw [mem_normalLines, accepts_iff, ← Option.isSome_iff_exists]
    constructor
    · rintro ⟨item, hitem, htrim, hsome⟩
      exact ⟨⟨item, hitem, htrim⟩, hsome⟩
    · rintro ⟨⟨item, hitem, htrim⟩, hsome⟩
      exact ⟨item, hitem, htrim, hsome⟩
  · have hnone : (shownText rules action ++ [""]).filter (fun item => Rejected item) = [] := by
      refine List.filter_eq_nil_iff.mpr fun item hitem hrejected => ?_
      obtain ⟨hblank, hnot⟩ := of_decide_eq_true hrejected
      rcases List.mem_append.mp hitem with hshown | hlast
      · exact hnot (by rw [h.trimmed item hshown]; exact h.accepted item hshown)
      · exact hblank (by rw [List.mem_singleton.mp hlast]; decide)
    rw [report_update, split_getSimpleRules, hnone]
    rfl

/-- A process name with a colon is shown in a line that is not accepted. -/
theorem process_name_with_colon_is_lost :
    ¬ ∀ (rules : List ChainRule) (action : ℤ), Faithful rules action := by
  intro h
  have hfaithful := h [⟨"", 2, 1, { processName := ["a:b"] }⟩] 1
  have hcanonical := (stable_iff _ 1).mp hfaithful.stable
  exact absurd (hcanonical.accepted "processName:a:b" (by decide)) (by decide)

end

end SimpleRules

end NekoBox.Window
