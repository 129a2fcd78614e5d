import NekoBox.Config.RouteImport

/-!
# Export of a rule by the name of its outbound

`get_rule_json` for the view (`RouteEntity.cpp`, lines 149–239) writes a profile
that a rule routes to by its display name, and the import looks the name up. The
lookup returns the id of the group in which it finds the name, so that

* `name_resolution_iff`: a name gives a profile that has it exactly when the id of
  the first group that lists one is, by chance, the id of such a profile;
  and a rule exported and imported again routes to the same profile exactly when
  the id of the first group that lists its display name is its own.
-/

namespace NekoBox.Config

open NekoBox.Store NekoBox.Lib Reach

/-! ## The export -/

/-- The text for an outbound (lines 205–228), none for a profile that is missing. -/
def Profiles.viewOutbound (displayName : String → String) (s : Profiles) (id : ℤ) : Option String :=
  if id = proxyID then some "proxy"
  else if id = directID then some "direct"
  else if id = blockID then some "block"
  else (s.entities id).map fun ent => displayName ent.name

/-- `get_rule_json(false, true, {})`; the outbound is a string, even when it is
    empty. -/
def RouteRule.viewRuleJson (displayName : String → String) (s : Profiles) (rule : RouteRule) :
    JsonObject :=
  if rule.fixedAction = "route" then
    match s.viewOutbound displayName rule.outboundID with
    | none => []
    | some tag => (rule.getRuleJson (fun name => name) tag).map fun m =>
        if m.1 = "outbound" then (m.1, .string tag) else m
  else rule.getRuleJson (fun name => name) ""

/-- The rule that is exported and imported again has the outbound `id`. -/
def Refers (tryParseJson : String → JsonObject → Option Entity) (displayName : String → String)
    (s : Profiles) (rule : RouteRule) (id : ℤ) : Prop :=
  ∃ rule', parseJsonArray tryParseJson [.object (rule.viewRuleJson displayName s)] s =
    .done [rule'] s ∧ rule'.outboundID = id

/-- Some profile has the name. -/
def Named (s : Profiles) (name : String) (id : ℤ) : Prop :=
  ∃ ent, s.entities id = some ent ∧ ent.name = name

/-- What a name should give. -/
structure Resolves (s : Profiles) (name : String) : Prop where
  builtin : ∀ id, builtinID name = some id → s.nameOutboundID name = id
  found : builtinID name = none → (∃ id, Named s name id) → Named s name (s.nameOutboundID name)
  missing : builtinID name = none → (¬ ∃ id, Named s name id) → s.nameOutboundID name = invalidID

variable {s : Profiles} {name : String}

/-! ## Names -/

theorem named_of_lists {members : List ℤ} (h : s.lists name members = true) :
    ∃ id, Named s name id := by
  unfold Profiles.lists at h
  obtain ⟨id, -, hid⟩ := List.any_eq_true.mp h
  obtain ⟨ent, hent, hname⟩ := (Option.any_eq_true _ _).mp hid
  exact ⟨id, ent, hent, of_decide_eq_true hname⟩

/-- When a name gives a profile that has it, and else the invalid id. -/
theorem resolves_iff (hids : ∀ id, (s.entities id).isSome → 0 ≤ id) :
    Resolves s name ↔ builtinID name ≠ none ∨ (¬ ∃ id, Named s name id) ∨
      ∃ gid, FirstListed s name gid ∧ Named s name gid := by
  have hinvalid : ¬ Named s name invalidID := by
    rintro ⟨ent, hent, -⟩
    exact absurd (hids invalidID (by rw [hent]; rfl)) (by decide)
  by_cases hbuiltin : builtinID name = none
  · have hlookup : s.nameOutboundID name = s.findName name s.groups := by
      unfold Profiles.nameOutboundID
      rw [hbuiltin]
    by_cases hnamed : ∃ id, Named s name id
    · constructor
      · intro h
        have hfound := h.found hbuiltin hnamed
        rw [hlookup] at hfound
        rcases unlisted_or_firstListed s name with hunlisted | ⟨gid, hfirst⟩
        · rw [findName_of_unlisted hunlisted] at hfound
          exact absurd hfound hinvalid
        · rw [findName_of_firstListed hfirst] at hfound
          exact .inr (.inr ⟨gid, hfirst, hfound⟩)
      · rintro (h | h | ⟨gid, hfirst, hgid⟩)
        · exact absurd hbuiltin h
        · exact absurd hnamed h
        · refine ⟨fun id hid => ?_, fun _ _ => ?_, fun _ h => absurd hnamed h⟩
          · exact absurd (hid.symm.trans hbuiltin) (Option.some_ne_none _)
          · rwa [hlookup, findName_of_firstListed hfirst]
    · have hunlisted : Unlisted s name := fun g _ =>
        Bool.eq_false_iff.mpr fun h => hnamed (named_of_lists h)
      refine iff_of_true ⟨fun id hid => ?_, fun _ h => absurd h hnamed, fun _ _ => ?_⟩
        (.inr (.inl hnamed))
      · exact absurd (hid.symm.trans hbuiltin) (Option.some_ne_none _)
      · rw [hlookup, findName_of_unlisted hunlisted]
  · refine iff_of_true ⟨fun id hid => ?_, fun h => absurd h hbuiltin, fun h => absurd h hbuiltin⟩
      (.inl hbuiltin)
    unfold Profiles.nameOutboundID
    rw [hid]

theorem neg_of_builtinID {id : ℤ} (h : builtinID name = some id) : id < 0 := by
  unfold builtinID at h
  split_ifs at h <;> obtain rfl := Option.some.inj h <;> decide

/-! ## What is exported -/

theorem forall_mem_member {P : String × Json → Prop} {present : Bool} {key : String} {v : Json} :
    (∀ m ∈ member present key v, P m) ↔ (present = true → P (key, v)) := by
  cases present <;> simp [member]

theorem ne_nil_of_isValidStrArray {l : List String} (h : isValidStrArray l) : l ≠ [] := by
  rintro rfl
  exact absurd h Bool.false_ne_true

/-- No array in the JSON of a rule is empty. -/
theorem getRuleJson_array_ne_nil (ruleSetName : String → String) (rule : RouteRule) (tag : String) :
    ∀ m ∈ rule.getRuleJson ruleSetName tag, m.2 ≠ .array [] := by
  have hstring : ∀ {l : List String}, isValidStrArray l = true → stringArray l ≠ .array [] :=
    fun h heq => ne_nil_of_isValidStrArray h (List.map_eq_nil_iff.mp (Json.array.inj heq))
  have hint : ∀ {l : List String}, isValidStrArray l = true → intArray l ≠ .array [] :=
    fun h heq => ne_nil_of_isValidStrArray h (List.map_eq_nil_iff.mp (Json.array.inj heq))
  have hsets : ∀ {l : List String}, isValidStrArray l = true →
      stringArray (l.map ruleSetName) ≠ .array [] := fun h heq =>
    ne_nil_of_isValidStrArray h (List.map_eq_nil_iff.mp (List.map_eq_nil_iff.mp (Json.array.inj heq)))
  unfold RouteRule.getRuleJson
  simp only [List.forall_mem_append, forall_mem_member, List.forall_mem_singleton]
  simp +contextual [hstring, hint, hsets]
  intro _
  split_ifs <;> exact not_false

/-- The members under `outbound` are the tag, and there is one. -/
theorem outbound_viewRuleJson {displayName : String → String} {rule : RouteRule} {tag : String}
    (haction : rule.fixedAction = "route")
    (htag : s.viewOutbound displayName rule.outboundID = some tag) :
    (∀ m ∈ rule.viewRuleJson displayName s, ¬ EmptyScalar (.member m.1 m.2) ∧
      (m.1 = "outbound" → m.2 = .string tag)) ∧
    ∃ m ∈ rule.viewRuleJson displayName s, m.1 = "outbound" := by
  unfold RouteRule.viewRuleJson
  rw [if_pos haction, htag]
  dsimp only
  constructor
  · intro m hm
    obtain ⟨m', hm', rfl⟩ := List.mem_map.mp hm
    rw [emptyScalar_member_iff]
    by_cases hkey : m'.1 = "outbound"
    · rw [if_pos hkey]
      exact ⟨fun h => Json.noConfusion h.2, fun _ => rfl⟩
    · rw [if_neg hkey]
      exact ⟨fun h => getRuleJson_array_ne_nil _ _ _ m' hm' h.2, fun h => absurd h hkey⟩
  · have hmem : ∃ v, ("outbound", v) ∈ rule.getRuleJson (fun name => name) tag := by
      unfold RouteRule.getRuleJson member
      simp [haction]
    obtain ⟨v, hv⟩ := hmem
    exact ⟨_, List.mem_map_of_mem hv, by rw [if_pos rfl]⟩

/-! ## The import of what is exported -/

/-- Only the key `outbound` sets the outbound. -/
theorem outboundID_setFieldValue {fieldName : String} {value : List String} {rule rule' : RouteRule}
    (hkey : fieldName ≠ "outbound") (h : setFieldValue fieldName value rule = some rule') :
    rule'.outboundID = rule.outboundID := by
  unfold setFieldValue at h
  split at h <;> first
    | exact absurd rfl hkey
    | obtain rfl := Option.some.inj h; rfl
    | obtain ⟨v, -, rfl⟩ := Option.map_eq_some_iff.mp h; rfl

/-- A member under another key, which is not an empty array. -/
theorem parseMember_other {tryParseJson : String → JsonObject → Option Entity} {key : String}
    {val : Json} (hkey : key ≠ "outbound") (hval : ¬ EmptyScalar (.member key val))
    (rule : StoredRule) :
    ∃ rule', parseMember tryParseJson key val rule s = .done rule' s ∧
      rule'.outboundID = rule.outboundID := by
  unfold parseMember
  rw [if_neg hkey]
  cases hvalue : fieldValue val with
  | none => exact ⟨rule, rfl, rfl⟩
  | some value =>
    dsimp only
    cases hset : setFieldValue key value rule.toRouteRule with
    | none =>
      obtain ⟨hfield, rfl⟩ := setFieldValue_eq_none_iff.mp hset
      rw [emptyScalar_member_iff] at hval
      exact absurd ⟨hfield.resolve_right hkey, fieldValue_eq_nil_iff.mp hvalue⟩ hval
    | some fields => exact ⟨_, rfl, outboundID_setFieldValue hkey hset⟩

/-- An object whose outbound is a name. -/
theorem parseMembers_named {tryParseJson : String → JsonObject → Option Entity} {obj : JsonObject}
    {tag : String} (hobj : ∀ m ∈ obj, ¬ EmptyScalar (.member m.1 m.2) ∧
      (m.1 = "outbound" → m.2 = .string tag)) (rule : StoredRule) :
    (s.nameOutboundID tag ≠ invalidID →
      ∃ rule', parseMembers tryParseJson rule s obj = .done rule' s ∧
        ((∃ m ∈ obj, m.1 = "outbound") ∨ rule.outboundID = s.nameOutboundID tag →
          rule'.outboundID = s.nameOutboundID tag)) ∧
    (s.nameOutboundID tag = invalidID → (∃ m ∈ obj, m.1 = "outbound") →
      ∀ rule' s', parseMembers tryParseJson rule s obj ≠ .done rule' s') := by
  induction obj generalizing rule with
  | nil =>
    refine ⟨fun _ => ⟨rule, rfl, fun h => h.resolve_left ?_⟩, fun _ h => absurd h ?_⟩
    · rintro ⟨m, hm, -⟩
      exact nomatch hm
    · rintro ⟨m, hm, -⟩
      exact nomatch hm
  | cons m obj ih =>
    obtain ⟨key, val⟩ := m
    obtain ⟨⟨hval, htag⟩, hrest⟩ := List.forall_mem_cons.mp hobj
    unfold parseMembers
    by_cases hkey : key = "outbound"
    · obtain rfl := htag hkey
      have hparse : parseMember tryParseJson key (.string tag) rule s =
          if s.nameOutboundID tag = invalidID then
            .refused ("outbound with name " ++ tag ++ " does not exist") s
          else .done { rule with outboundID := s.nameOutboundID tag } s := by
        unfold parseMember readOutbound
        rw [if_pos hkey]
        dsimp only
        split_ifs <;> rfl
      rw [hparse]
      refine ⟨fun hvalid => ?_, fun hinvalid _ rule' s' h => ?_⟩
      · rw [if_neg hvalid]
        obtain ⟨rule', hparse', hid⟩ :=
          (ih hrest { rule with outboundID := s.nameOutboundID tag }).1 hvalid
        exact ⟨rule', hparse', fun _ => hid (.inr rfl)⟩
      · rw [if_pos hinvalid] at h
        cases h
    · obtain ⟨rule₁, hparse, hid₁⟩ := @parseMember_other s tryParseJson key val hkey hval rule
      have hother : (∃ m ∈ (key, val) :: obj, m.1 = "outbound") ↔ ∃ m ∈ obj, m.1 = "outbound" := by
        rw [List.exists_mem_cons_iff]
        exact or_iff_right hkey
      rw [hparse, hother]
      dsimp only
      rw [← hid₁]
      exact ih hrest rule₁

/-- What a rule that is exported routes to after its import. -/
theorem refers_iff_lookup {tryParseJson : String → JsonObject → Option Entity}
    {displayName : String → String} {rule : RouteRule} {tag : String} {id : ℤ}
    (haction : rule.fixedAction = "route")
    (htag : s.viewOutbound displayName rule.outboundID = some tag) (hid : id ≠ invalidID) :
    Refers tryParseJson displayName s rule id ↔ s.nameOutboundID tag = id := by
  obtain ⟨hobj, hsome⟩ := outbound_viewRuleJson haction htag
  obtain ⟨hvalid, hinvalid⟩ := @parseMembers_named s tryParseJson _ tag hobj {}
  have hitems : ∀ rule', parseMembers tryParseJson {} s (rule.viewRuleJson displayName s) =
      .done rule' s → parseJsonArray tryParseJson [.object (rule.viewRuleJson displayName s)] s =
        .done [{ rule' with name := "imported rule #" ++ Qt.numberString 1 }] s := by
    intro rule' h
    unfold parseJsonArray
    dsimp only
    unfold parseItems
    rw [h]
    rfl
  constructor
  · rintro ⟨rule', hparse, hrule'⟩
    by_cases hlookup : s.nameOutboundID tag = invalidID
    · exfalso
      cases hmembers : parseMembers tryParseJson {} s (rule.viewRuleJson displayName s) with
      | undefined =>
        unfold parseJsonArray at hparse
        dsimp only at hparse
        unfold parseItems at hparse
        rw [hmembers] at hparse
        cases hparse
      | refused error s' =>
        unfold parseJsonArray at hparse
        dsimp only at hparse
        unfold parseItems at hparse
        rw [hmembers] at hparse
        cases hparse
      | done rule₁ s' => exact hinvalid hlookup hsome rule₁ s' hmembers
    · obtain ⟨rule₁, hmembers, hid₁⟩ := hvalid hlookup
      rw [hitems rule₁ hmembers] at hparse
      obtain ⟨hrules, -⟩ := Parsed.done.inj hparse
      obtain ⟨rfl, -⟩ := List.cons.inj hrules
      exact (hid₁ (.inl hsome)).symm.trans hrule'
  · rintro rfl
    obtain ⟨rule₁, hmembers, hid₁⟩ := hvalid hid
    exact ⟨_, hitems rule₁ hmembers, hid₁ (.inl hsome)⟩

/-- **Main theorem.** For every database, whose ids are not negative, and every name:
    the lookup gives a profile of the name, or an invalid id if there is none,
    exactly when the name is built in, no profile has it, or the id of the first
    group that lists a profile of the name is the id of such a profile. And a rule
    that routes to a profile routes to it after export and import exactly when its
    display name is not built in and the first group that lists a profile of this
    name has the id of the profile. -/
theorem name_resolution_iff (tryParseJson : String → JsonObject → Option Entity)
    (displayName : String → String) (s : Profiles) (hids : ∀ id, (s.entities id).isSome → 0 ≤ id)
    (name : String) (rule : RouteRule) (ent : Entity) (haction : rule.action = "route")
    (hent : s.entities rule.outboundID = some ent) :
    (Resolves s name ↔ builtinID name ≠ none ∨ (¬ ∃ id, Named s name id) ∨
      ∃ gid, FirstListed s name gid ∧ Named s name gid) ∧
    (Refers tryParseJson displayName s rule rule.outboundID ↔
      builtinID (displayName ent.name) = none ∧
        FirstListed s (displayName ent.name) rule.outboundID) := by
  refine ⟨resolves_iff hids, ?_⟩
  have hpos : 0 ≤ rule.outboundID := hids _ (by rw [hent]; rfl)
  have hne : rule.outboundID ≠ proxyID ∧ rule.outboundID ≠ directID ∧ rule.outboundID ≠ blockID ∧
      rule.outboundID ≠ dnsOutID ∧ rule.outboundID ≠ invalidID := by
    unfold proxyID directID blockID dnsOutID invalidID
    omega
  obtain ⟨hproxy, hdirect, hblock, hdns, hinvalid⟩ := hne
  have hfixed : rule.fixedAction = "route" := by
    unfold RouteRule.fixedAction
    rw [if_pos haction, if_neg hblock, if_neg hdns, haction]
  have htag : s.viewOutbound displayName rule.outboundID = some (displayName ent.name) := by
    unfold Profiles.viewOutbound
    rw [if_neg hproxy, if_neg hdirect, if_neg hblock, hent]
    rfl
  rw [refers_iff_lookup hfixed htag hinvalid]
  cases hbuiltin : builtinID (displayName ent.name) with
  | none => exact (nameOutboundID_eq_iff hbuiltin hinvalid).trans (and_iff_right rfl).symm
  | some id =>
    refine iff_of_false (fun h => ?_) fun h => absurd h.1 (Option.some_ne_none _)
    have hneg := neg_of_builtinID hbuiltin
    unfold Profiles.nameOutboundID at h
    rw [hbuiltin] at h
    dsimp only at h
    omega

/-- The profile 3, named `A`, in a group with the id `gid`. -/
def listedIn (gid : ℤ) : Profiles where
  groups := [(gid, [3])]
  entities := fun id => if id = 3 then some { type := "socks", name := "A" } else none
  maxProfileId := 3
  maxGroupId := 7
  currentGroup := gid
  importedGroup := -1

theorem listedIn_ids (gid : ℤ) : ∀ id, ((listedIn gid).entities id).isSome → 0 ≤ id := by
  intro id h
  by_cases hid : id = 3
  · rw [hid]
    decide
  · have hnone : (listedIn gid).entities id = none := if_neg hid
    rw [hnone] at h
    exact absurd h Bool.false_ne_true

theorem firstListed_listedIn (gid : ℤ) : FirstListed (listedIn gid) "A" gid :=
  ⟨[], [3], [], rfl, List.forall_mem_nil _, rfl⟩

/-- A group that has the id of its profile. -/
theorem name_resolution_listedIn :
    Resolves (listedIn 3) "A" ∧
      Refers (fun _ _ => none) (fun name => name) (listedIn 3) { outboundID := 3 } 3 := by
  obtain ⟨hresolves, hrefers⟩ := name_resolution_iff (fun _ _ => none) (fun name => name)
    (listedIn 3) (listedIn_ids 3) "A" { outboundID := 3 } { type := "socks", name := "A" } rfl rfl
  exact ⟨hresolves.mpr (.inr (.inr ⟨3, firstListed_listedIn 3, _, rfl, rfl⟩)),
    hrefers.mpr ⟨by decide, firstListed_listedIn 3⟩⟩

/-- In the group 7, the name `A` gives 7, which is no profile. -/
theorem name_gives_group_id :
    ¬ ∀ (s : Profiles) (name : String), (∀ id, (s.entities id).isSome → 0 ≤ id) →
      Resolves s name := by
  intro h
  obtain ⟨ent, hent, -⟩ := (h (listedIn 7) "A" (listedIn_ids 7)).found (by decide) ⟨3, _, rfl, rfl⟩
  have hlookup : (listedIn 7).nameOutboundID "A" = 7 :=
    (nameOutboundID_eq_iff (by decide) (by decide)).mpr (firstListed_listedIn 7)
  rw [hlookup] at hent
  cases hent

end NekoBox.Config
