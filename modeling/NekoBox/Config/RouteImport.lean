import NekoBox.Config.OutboundName
import NekoBox.Lib.Reach
import NekoBox.Qt.Strings

/-!
# Import of a routing chain

`RouteRule::set_field_value` and `RoutingChain::parseJsonArray`
(`RouteEntity.cpp`, lines 408–504 and 608–661), which reads a chain from JSON that
a user has written. The setter of a scalar field takes the first element of the
list it is given, and an array is handed to it as it is.

* `setFieldValue_eq_none_iff`: the fields whose setter reads past an empty list;
* `parse_safe_iff`: the import returns a chain or reports an error exactly when
  every empty array under such a key comes after something it refuses;
* `empty_network_reads_past_end`: `[{"network": []}]`.
-/

namespace NekoBox.Config

open NekoBox.Store NekoBox.Lib Reach

/-! ## Fields -/

/-- `filterEmpty` -/
def filterEmpty (base : List String) : List String :=
  (base.filter fun item => Qt.trimString item ≠ "").map Qt.trimString

/-- `set_field_value` (lines 408–504); there is no result when an element that is not
    there is read. -/
def setFieldValue (fieldName : String) (value : List String) (rule : RouteRule) : Option RouteRule :=
  match fieldName with
  | "ip_version" => value.head?.map fun v => { rule with ipVersion := v }
  | "network" => value.head?.map fun v => { rule with network := v }
  | "protocol" => value.head?.map fun v => { rule with protocol := v }
  | "inbound" => some { rule with inbound := filterEmpty value }
  | "domain" => some { rule with domain := filterEmpty value }
  | "domain_suffix" => some { rule with domainSuffix := filterEmpty value }
  | "domain_keyword" => some { rule with domainKeyword := filterEmpty value }
  | "domain_regex" => some { rule with domainRegex := filterEmpty value }
  | "source_ip_cidr" => some { rule with sourceIpCidr := filterEmpty value }
  | "source_ip_is_private" => value.head?.map fun v => { rule with sourceIpIsPrivate := v = "true" }
  | "ip_cidr" => some { rule with ipCidr := filterEmpty value }
  | "ip_is_private" => value.head?.map fun v => { rule with ipIsPrivate := v = "true" }
  | "source_port" => some { rule with sourcePort := filterEmpty value }
  | "source_port_range" => some { rule with sourcePortRange := filterEmpty value }
  | "port" => some { rule with port := filterEmpty value }
  | "port_range" => some { rule with portRange := filterEmpty value }
  | "process_name" => some { rule with processName := filterEmpty value }
  | "process_path" => some { rule with processPath := filterEmpty value }
  | "process_path_regex" => some { rule with processPathRegex := filterEmpty value }
  | "rule_set" => some { rule with ruleSet := filterEmpty value }
  | "invert" => value.head?.map fun v => { rule with invert := v = "true" }
  | "action" => value.head?.map fun v => { rule with action := v }
  | "method" => value.head?.map fun v => { rule with rejectMethod := v }
  | "no_drop" => value.head?.map fun v => { rule with noDrop := v = "true" }
  | "override_address" => value.head?.map fun v => { rule with overrideAddress := v }
  | "override_port" => value.head?.map fun v => { rule with overridePort := v }
  | "override_destination" => value.head?.map fun v => { rule with sniffOverrideDest := v = "true" }
  | "strategy" => value.head?.map fun v => { rule with strategy := v }
  | "outbound" => value.head?.map fun v => { rule with outboundID := Qt.intOf v }
  | _ => some rule

/-- The keys of the fields that take the first element. -/
def scalarFields : List String :=
  ["ip_version", "network", "protocol", "source_ip_is_private", "ip_is_private", "invert", "action",
    "method", "no_drop", "override_address", "override_port", "override_destination", "strategy"]

theorem setFieldValue_eq_none_iff {fieldName : String} {value : List String} {rule : RouteRule} :
    setFieldValue fieldName value rule = none ↔
      (fieldName ∈ scalarFields ∨ fieldName = "outbound") ∧ value = [] := by
  unfold setFieldValue scalarFields
  split <;> simp_all

/-! ## `parseJsonArray` -/

/-- How the import ends: an element is read that is not there, an error is reported,
    or there is a result. The profiles an outbound has added stay. -/
inductive Parsed (α : Type) where
  | undefined
  | refused (error : String) (s : Profiles)
  | done (a : α) (s : Profiles)

section

variable (tryParseJson : String → JsonObject → Option Entity)

/-- The outbound under the key `outbound`, none for a value of another kind (lines
    626–646). A value that is not a string has the empty text. -/
def readOutbound (s : Profiles) : Json → Except String (Option ℤ) × Profiles
  | .number n =>
    let id := n.toInt.toInt
    if s.isOutboundIDValid id then (.ok (some id), s)
    else (.error ("outbound id " ++ Qt.numberString id ++ " is not valid"), s)
  | .string name =>
    let id := s.nameOutboundID name
    if id = invalidID then (.error ("outbound with name " ++ name ++ " does not exist"), s)
    else (.ok (some id), s)
  | .object object =>
    let result := objectOutboundID tryParseJson object s
    if result.1 = invalidID then (.error ("outbound json " ++ "" ++ " not parseable"), result.2)
    else (.ok (some result.1), result.2)
  | _ => (.ok none, s)

/-- The list handed to the setter of any other key (lines 648–654). -/
def fieldValue : Json → Option (List String)
  | .array l => some (l.map Json.toString)
  | .string text => some [text]
  | .bool b => some [if b then "true" else "false"]
  | _ => none

/-- One turn of the loop over the keys. -/
def parseMember (key : String) (val : Json) (rule : StoredRule) (s : Profiles) :
    Parsed StoredRule :=
  if key = "outbound" then
    match readOutbound tryParseJson s val with
    | (.error error, s) => .refused error s
    | (.ok none, s) => .done rule s
    | (.ok (some id), s) => .done { rule with outboundID := id } s
  else
    match fieldValue val with
    | none => .done rule s
    | some value =>
      match setFieldValue key value rule.toRouteRule with
      | none => .undefined
      | some fields => .done { rule with toRouteRule := fields } s

/-- The loop over the keys of an object (lines 624–655). -/
def parseMembers (rule : StoredRule) (s : Profiles) : JsonObject → Parsed StoredRule
  | [] => .done rule s
  | (key, val) :: obj =>
    match parseMember tryParseJson key val rule s with
    | .done rule s => parseMembers rule s obj
    | outcome => outcome

/-- `QJsonValue::Type` -/
def typeNumber : Json → ℤ
  | .null => 0
  | .bool _ => 1
  | .number _ => 2
  | .string _ => 3
  | .array _ => 4
  | .object _ => 5

/-- A rule in front of those that follow. -/
def Parsed.cons (rule : StoredRule) : Parsed (List StoredRule) → Parsed (List StoredRule)
  | .done rules s => .done (rule :: rules) s
  | outcome => outcome

/-- The loop over the array (lines 616–658), with the number of the next rule. -/
def parseItems (ruleID : ℤ) (s : Profiles) : List Json → Parsed (List StoredRule)
  | [] => .done [] s
  | .object obj :: arr =>
    match parseMembers tryParseJson {} s obj with
    | .undefined => .undefined
    | .refused error s => .refused error s
    | .done rule s =>
      (parseItems (ruleID + 1) s arr).cons
        { rule with name := "imported rule #" ++ Qt.numberString ruleID }
  | item :: _ =>
    .refused ("expected array of json objects but have member of type '" ++
      Qt.numberString (typeNumber item) ++ "'") s

/-- `parseJsonArray` -/
def parseJsonArray (arr : List Json) (s : Profiles) : Parsed (List StoredRule) :=
  match arr with
  | [] => .refused "Input is not a valid json array" s
  | arr => parseItems tryParseJson 1 s arr

/-! ## When it is safe -/

/-- What is read, in order: a key with its value, or an item that is no object. -/
inductive ImportStep where
  | item (v : Json)
  | member (key : String) (val : Json)

def entriesOf : Json → List ImportStep
  | .object obj => obj.map fun m => .member m.1 m.2
  | v => [.item v]

/-- An entry that is not refused, and the profiles after it. -/
def accept (s : Profiles) : ImportStep → Option Profiles
  | .item _ => none
  | .member key val =>
    if key = "outbound" then
      match readOutbound tryParseJson s val with
      | (.error _, _) => none
      | (.ok _, s) => some s
    else some s

/-- An empty array under the key of a scalar field. -/
def EmptyScalar : ImportStep → Prop
  | .member key (.array []) => key ∈ scalarFields
  | _ => False

/-- The import returns a chain, with a rule for every item, or reports an error. -/
def Safe (arr : List Json) (s : Profiles) : Prop :=
  (∃ rules s', parseJsonArray tryParseJson arr s = .done rules s' ∧ rules.length = arr.length ∧
    rules ≠ []) ∨
  ∃ error s', parseJsonArray tryParseJson arr s = .refused error s' ∧ error ≠ ""

end

section

variable {tryParseJson : String → JsonObject → Option Entity} {s : Profiles}

theorem fieldValue_eq_nil_iff {val : Json} : fieldValue val = some [] ↔ val = .array [] := by
  cases val <;> simp [fieldValue]

/-- A text with something in front is not empty. -/
theorem append_ne_empty {a : String} (h : a ≠ "") (b c : String) : a ++ b ++ c ≠ "" := by
  intro heq
  have hlist := congrArg String.toList heq
  rw [String.toList_append, String.toList_append, String.toList_empty, List.append_assoc,
    List.append_eq_nil_iff] at hlist
  exact h (String.toList_eq_nil_iff.mp hlist.1)

theorem readOutbound_error {val : Json} {error : String} {s' : Profiles}
    (h : readOutbound tryParseJson s val = (.error error, s')) : error ≠ "" := by
  have hne : ∀ {a b c : String} {t : Profiles}, a ≠ "" →
      ((.error (a ++ b ++ c), t) : Except String (Option ℤ) × Profiles) = (.error error, s') →
        error ≠ "" := by
    intro a b c t ha heq
    rw [← Except.error.inj (Prod.mk.inj heq).1]
    exact append_ne_empty ha b c
  unfold readOutbound at h
  cases val with
  | number n =>
    dsimp only at h
    split_ifs at h
    · cases h
    · exact hne (by decide) h
  | string name =>
    dsimp only at h
    split_ifs at h
    · exact hne (by decide) h
    · cases h
  | object object =>
    dsimp only at h
    split_ifs at h
    · exact hne (by decide) h
    · cases h
  | null => cases h
  | bool b => cases h
  | array l => cases h

theorem emptyScalar_member_iff {key : String} {val : Json} :
    EmptyScalar (.member key val) ↔ key ∈ scalarFields ∧ val = .array [] := by
  cases val with
  | array l => cases l <;> simp [EmptyScalar]
  | _ => simp [EmptyScalar]

/-- The outcome of the import agrees with what its entries do. -/
def Performs {α : Type} (tryParseJson : String → JsonObject → Option Entity) (outcome : Parsed α)
    (l : List ImportStep) (s : Profiles) : Prop :=
  match outcome with
  | .undefined => Reaches EmptyScalar (accept tryParseJson) l s
  | .refused error _ => ¬ Reaches EmptyScalar (accept tryParseJson) l s ∧ error ≠ "" ∧
      l.foldlM (accept tryParseJson) s = none
  | .done _ s' => ¬ Reaches EmptyScalar (accept tryParseJson) l s ∧
      l.foldlM (accept tryParseJson) s = some s'

/-- What one key does. -/
theorem follows_parseMember (key : String) (val : Json) (rule : StoredRule) (s : Profiles) :
    Performs tryParseJson (parseMember tryParseJson key val rule s) [.member key val] s := by
  unfold parseMember
  by_cases hkey : key = "outbound"
  · have hsafe : ¬ Reaches EmptyScalar (accept tryParseJson) [.member key val] s := by
      rw [reaches_singleton, emptyScalar_member_iff, hkey]
      exact fun h => absurd h.1 (by decide)
    have haccept : accept tryParseJson s (.member key val) =
        match readOutbound tryParseJson s val with
        | (.error _, _) => none
        | (.ok _, s) => some s := if_pos hkey
    rw [if_pos hkey]
    rcases hread : readOutbound tryParseJson s val with ⟨outbound, s'⟩
    rw [hread] at haccept
    match outbound with
    | .error error =>
      exact ⟨hsafe, readOutbound_error hread, (foldlM_singleton _ _ _).trans haccept⟩
    | .ok none => exact ⟨hsafe, (foldlM_singleton _ _ _).trans haccept⟩
    | .ok (some id) => exact ⟨hsafe, (foldlM_singleton _ _ _).trans haccept⟩
  · have haccept : [ImportStep.member key val].foldlM (accept tryParseJson) s = some s :=
      (foldlM_singleton _ _ _).trans (if_neg hkey)
    rw [if_neg hkey]
    cases hvalue : fieldValue val with
    | none =>
      refine ⟨?_, haccept⟩
      rw [reaches_singleton, emptyScalar_member_iff]
      rintro ⟨-, rfl⟩
      cases hvalue
    | some value =>
      dsimp only
      cases hset : setFieldValue key value rule.toRouteRule with
      | none =>
        obtain ⟨hfield, rfl⟩ := setFieldValue_eq_none_iff.mp hset
        refine reaches_singleton.mpr (emptyScalar_member_iff.mpr ⟨hfield.resolve_right hkey, ?_⟩)
        exact fieldValue_eq_nil_iff.mp hvalue
      | some fields =>
        refine ⟨?_, haccept⟩
        rw [reaches_singleton, emptyScalar_member_iff]
        rintro ⟨hfield, rfl⟩
        obtain rfl := Option.some.inj hvalue
        have hnone := (@setFieldValue_eq_none_iff _ _ rule.toRouteRule).mpr ⟨.inl hfield, rfl⟩
        exact absurd (hset.symm.trans hnone) (Option.some_ne_none _)

/-- Entries after entries that were let through. -/
theorem Performs.append {α β : Type} {first : Parsed α} {rest : Profiles → Parsed β}
    {outcome : Parsed β} {l l' : List ImportStep} (hfirst : Performs tryParseJson first l s)
    (hrest : ∀ s', Performs tryParseJson (rest s') l' s')
    (houtcome : (first = .undefined ∧ outcome = .undefined) ∨
      (∃ error s', first = .refused error s' ∧ outcome = .refused error s') ∨
      ∃ a s', first = .done a s' ∧ outcome = rest s') :
    Performs tryParseJson outcome (l ++ l') s := by
  rcases houtcome with ⟨rfl, rfl⟩ | ⟨error, s', rfl, rfl⟩ | ⟨a, s', rfl, rfl⟩
  · exact reaches_append.mpr (.inl hfirst)
  · obtain ⟨hsafe, hne, hnone⟩ := hfirst
    refine ⟨?_, hne, ?_⟩
    · rw [reaches_append, hnone]
      rintro (h | ⟨_, h, -⟩)
      · exact hsafe h
      · exact absurd h.symm (Option.some_ne_none _)
    · rw [List.foldlM_append, hnone]
      rfl
  · obtain ⟨hsafe, hsome⟩ := hfirst
    have hreaches : Reaches EmptyScalar (accept tryParseJson) (l ++ l') s ↔
        Reaches EmptyScalar (accept tryParseJson) l' s' := by
      rw [reaches_append, hsome]
      constructor
      · rintro (h | ⟨t, ht, h⟩)
        · exact absurd h hsafe
        · rwa [Option.some.inj ht]
      · exact fun h => .inr ⟨s', rfl, h⟩
    have hfold : (l ++ l').foldlM (accept tryParseJson) s = l'.foldlM (accept tryParseJson) s' := by
      rw [List.foldlM_append, hsome]
      rfl
    unfold Performs
    rw [hreaches, hfold]
    exact hrest s'

theorem follows_parseMembers (rule : StoredRule) (s : Profiles) (obj : JsonObject) :
    Performs tryParseJson (parseMembers tryParseJson rule s obj) (entriesOf (.object obj)) s := by
  induction obj generalizing rule s with
  | nil => exact ⟨not_reaches_nil, rfl⟩
  | cons m obj ih =>
    obtain ⟨key, val⟩ := m
    have hfirst := @follows_parseMember tryParseJson key val rule s
    show Performs tryParseJson _ ([.member key val] ++ entriesOf (.object obj)) s
    unfold parseMembers
    cases hparse : parseMember tryParseJson key val rule s with
    | undefined =>
      rw [hparse] at hfirst
      exact hfirst.append (fun s' => ih rule s') (.inl ⟨rfl, rfl⟩)
    | refused error s' =>
      rw [hparse] at hfirst
      exact hfirst.append (fun s' => ih rule s') (.inr (.inl ⟨error, s', rfl, rfl⟩))
    | done rule' s' =>
      rw [hparse] at hfirst
      exact hfirst.append (fun s' => ih rule' s') (.inr (.inr ⟨rule', s', rfl, rfl⟩))

theorem Performs.cons {outcome : Parsed (List StoredRule)} {l : List ImportStep} (rule : StoredRule)
    (h : Performs tryParseJson outcome l s) : Performs tryParseJson (outcome.cons rule) l s := by
  cases outcome <;> exact h

/-- The whole array, whatever the number of its first rule. -/
theorem follows_parseItems (ruleID : ℤ) (s : Profiles) (arr : List Json) :
    Performs tryParseJson (parseItems tryParseJson ruleID s arr) (arr.flatMap entriesOf) s := by
  induction arr generalizing ruleID s with
  | nil => exact ⟨not_reaches_nil, rfl⟩
  | cons item arr ih =>
    have hitem : ∀ v : Json, entriesOf v = [.item v] → ∀ text : String,
        Performs tryParseJson (Parsed.refused (α := List StoredRule)
          ("expected array of json objects but have member of type '" ++ text ++ "'") s)
          (entriesOf v ++ arr.flatMap entriesOf) s := by
      intro v hv text
      rw [hv]
      refine ⟨?_, append_ne_empty (by decide) _ _, rfl⟩
      rw [List.singleton_append, reaches_cons]
      rintro (h | ⟨_, h, -⟩)
      · exact h
      · exact absurd h.symm (Option.some_ne_none _)
    rw [List.flatMap_cons]
    cases item with
    | object obj =>
      have hfirst := @follows_parseMembers tryParseJson {} s obj
      unfold parseItems
      cases hparse : parseMembers tryParseJson {} s obj with
      | undefined =>
        rw [hparse] at hfirst
        exact hfirst.append (fun s' => ih ruleID s') (.inl ⟨rfl, rfl⟩)
      | refused error s' =>
        rw [hparse] at hfirst
        exact hfirst.append (fun s' => ih ruleID s') (.inr (.inl ⟨error, s', rfl, rfl⟩))
      | done rule s' =>
        rw [hparse] at hfirst
        exact hfirst.append (fun s' => (ih (ruleID + 1) s').cons _) (.inr (.inr ⟨rule, s', rfl, rfl⟩))
    | null => exact hitem _ rfl _
    | bool b => exact hitem _ rfl _
    | number n => exact hitem _ rfl _
    | string t => exact hitem _ rfl _
    | array l => exact hitem _ rfl _

theorem length_parseItems {ruleID : ℤ} {s s' : Profiles} {arr : List Json} {rules : List StoredRule}
    (h : parseItems tryParseJson ruleID s arr = .done rules s') : rules.length = arr.length := by
  induction arr generalizing ruleID s rules with
  | nil =>
    obtain ⟨rfl, -⟩ := Parsed.done.inj h
    rfl
  | cons item arr ih =>
    cases item with
    | object obj =>
      unfold parseItems at h
      cases hparse : parseMembers tryParseJson {} s obj with
      | undefined => rw [hparse] at h; cases h
      | refused error t => rw [hparse] at h; cases h
      | done rule t =>
        rw [hparse] at h
        dsimp only at h
        cases hrest : parseItems tryParseJson (ruleID + 1) t arr with
        | undefined => rw [hrest] at h; cases h
        | refused error u => rw [hrest] at h; cases h
        | done rest u =>
          rw [hrest] at h
          obtain ⟨rfl, rfl⟩ := Parsed.done.inj h
          rw [List.length_cons, List.length_cons, ih hrest]
    | null => cases h
    | bool b => cases h
    | number n => cases h
    | string t => cases h
    | array l => cases h

/-- The whole import. -/
theorem follows_parseJsonArray (arr : List Json) (s : Profiles) (hne : arr ≠ []) :
    Performs tryParseJson (parseJsonArray tryParseJson arr s) (arr.flatMap entriesOf) s := by
  cases arr with
  | nil => exact absurd rfl hne
  | cons item arr => exact follows_parseItems 1 s _

/-- **Main theorem.** For every array, every set of profiles and whatever the parsers
    of the beans answer: the import returns a chain or reports an error exactly when
    no empty array under the key of a scalar field comes after entries that are all
    let through. -/
theorem parse_safe_iff (tryParseJson : String → JsonObject → Option Entity) (arr : List Json)
    (s : Profiles) :
    Safe tryParseJson arr s ↔
      ¬ Reaches EmptyScalar (accept tryParseJson) (arr.flatMap entriesOf) s := by
  by_cases hne : arr = []
  · subst hne
    exact iff_of_true (.inr ⟨_, _, rfl, by decide⟩) not_reaches_nil
  · have hfollows := @follows_parseJsonArray tryParseJson arr s hne
    cases hparse : parseJsonArray tryParseJson arr s with
    | undefined =>
      rw [hparse] at hfollows
      refine iff_of_false ?_ (not_not.mpr hfollows)
      unfold Safe
      rw [hparse]
      rintro (⟨_, _, h, -⟩ | ⟨_, _, h, -⟩)
      · cases h
      · cases h
    | refused error s' =>
      rw [hparse] at hfollows
      exact iff_of_true (.inr ⟨error, s', hparse, hfollows.2.1⟩) hfollows.1
    | done rules s' =>
      rw [hparse] at hfollows
      have hlength : rules.length = arr.length := by
        cases arr with
        | nil => exact absurd rfl hne
        | cons item arr => exact length_parseItems hparse
      refine iff_of_true (.inl ⟨rules, s', hparse, hlength, ?_⟩) hfollows.1
      rintro rfl
      exact hne (List.length_eq_zero_iff.mp hlength.symm)

/-- No profiles and no groups. -/
def noProfiles : Profiles := ⟨[], fun _ => none, 0, 0, 0, -1⟩

/-- `[{"network": []}]` -/
theorem empty_network_reads_past_end :
    ¬ ∀ (tryParseJson : String → JsonObject → Option Entity) (arr : List Json) (s : Profiles),
      Safe tryParseJson arr s := by
  intro h
  rcases h (fun _ _ => none) [.object [("network", .array [])]] noProfiles with
    ⟨_, _, hparse, -⟩ | ⟨_, _, hparse, -⟩
  · cases hparse
  · cases hparse

end

end NekoBox.Config
