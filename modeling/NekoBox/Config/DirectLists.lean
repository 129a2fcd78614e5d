import NekoBox.Config.Builder
import NekoBox.Lib.FirstMatch
import NekoBox.Lib.Parts

/-!
# The direct lists

What a routing chain lets leave the machine directly is decided by its rules in
their order, by the addresses that the TUN inbound excludes and by the direct DNS
rule. The two lists are taken from the rules whose outbound is `direct`
(`mem_getDirectSites`, `mem_getDirectIps`), which is also the outbound of a rule
that names none; the action is not looked at. So a rule that rejects its addresses
takes them out of the TUN (`rejected_address_leaves_tun`), and the lists agree with
the rules under the condition of `direct_lists_iff` only.
-/

namespace NekoBox.Config

open NekoBox.Store NekoBox.Lib

/-! ## What a rule names -/

/-- The fields of a rule that the lists are made of. -/
inductive EntryKind
  | ruleSet | ipCidr | domain | domainSuffix | domainKeyword | domainRegex
  deriving DecidableEq

/-- An address, a domain condition or a rule set. -/
structure Entry where
  kind : EntryKind
  text : String

namespace EntryKind

/-- What stands before an entry in `get_direct_sites` and `get_direct_ips`. -/
def label : EntryKind → String
  | ruleSet => "ruleset:"
  | ipCidr => "ip:"
  | domain => "domain:"
  | domainSuffix => "suffix:"
  | domainKeyword => "keyword:"
  | domainRegex => "regex:"

/-- The member of the direct DNS rule. -/
def field : EntryKind → String
  | ruleSet => "rule_set"
  | ipCidr => "ip_cidr"
  | domain => "domain"
  | domainSuffix => "domain_suffix"
  | domainKeyword => "domain_keyword"
  | domainRegex => "domain_regex"

theorem label_append_inj {k j : EntryKind} {a b : String} (h : k.label ++ a = j.label ++ b) :
    k = j ∧ a = b := by
  have hlists : k.label.toList ++ a.toList = j.label.toList ++ b.toList := by
    rw [← String.toList_append, ← String.toList_append, h]
  have hfirst : Parts.firstPart ':' (k.label.toList ++ a.toList) =
      Parts.firstPart ':' (j.label.toList ++ b.toList) := by rw [hlists]
  have hkind : k = j := by
    revert hfirst
    cases k <;> cases j <;> simp [label, Parts.firstPart]
  obtain rfl := hkind
  exact ⟨rfl, String.toList_inj.mp (List.append_cancel_left hlists)⟩

end EntryKind

/-- The entry with its label. -/
def Entry.item (e : Entry) : String := e.kind.label ++ e.text

/-- A field of a rule. -/
def RouteRule.entries (rule : RouteRule) : EntryKind → List String
  | .ruleSet => rule.ruleSet
  | .ipCidr => rule.ipCidr
  | .domain => rule.domain
  | .domainSuffix => rule.domainSuffix
  | .domainKeyword => rule.domainKeyword
  | .domainRegex => rule.domainRegex

def RouteRule.names (rule : RouteRule) (e : Entry) : Prop := e.text ∈ rule.entries e.kind

/-- The rule that has one condition. -/
def Entry.rule (e : Entry) : RouteRule :=
  match e.kind with
  | .ruleSet => { ruleSet := [e.text] }
  | .ipCidr => { ipCidr := [e.text] }
  | .domain => { domain := [e.text] }
  | .domainSuffix => { domainSuffix := [e.text] }
  | .domainKeyword => { domainKeyword := [e.text] }
  | .domainRegex => { domainRegex := [e.text] }

/-- The conditions of a rule: what it does is set to the defaults. -/
def RouteRule.conditions (rule : RouteRule) : RouteRule :=
  { rule with
    outboundID := directID, action := "route", rejectMethod := "", noDrop := false
    overrideAddress := "", overridePort := "", sniffOverrideDest := false, strategy := "" }

/-- A rule without its conditions on the destination, which are alternatives of one
    another. -/
def RouteRule.withoutDestination (rule : RouteRule) : RouteRule :=
  { rule with
    ruleSet := [], ipCidr := [], ipIsPrivate := false, domain := [], domainSuffix := []
    domainKeyword := [], domainRegex := [] }

/-- How an entry is the only condition of a rule: the rule has nothing else, or it has
    nothing but alternatives to it, so that the entry alone suffices. -/
inductive Reading
  | single | alternatives

def RouteRule.onlyNames (rule : RouteRule) (e : Entry) : Reading → Prop
  | .single => rule.conditions = e.rule
  | .alternatives => rule.names e ∧ rule.conditions.withoutDestination = {}

/-! ## What the rules decide -/

def RouteRule.routesDirect (rule : RouteRule) : Prop :=
  rule.action = "route" ∧ rule.outboundID = directID

/-- A rule that rejects, or routes elsewhere. -/
def RouteRule.diverts (rule : RouteRule) : Prop :=
  rule.action = "reject" ∨ (rule.action = "route" ∧ rule.outboundID ≠ directID)

theorem RouteRule.not_diverts_of_routesDirect {rule : RouteRule} (h : rule.routesDirect) :
    ¬ rule.diverts := by
  obtain ⟨haction, hid⟩ := h
  rintro (hreject | ⟨-, hother⟩)
  · rw [haction] at hreject
    exact absurd hreject (by decide)
  · exact hother hid

/-- The rules let an entry go directly: a rule that routes directly names it, and no
    rule before it that has it as its only condition diverts it. -/
def Follows (reading : Reading) (rules : List RouteRule) (e : Entry) : Prop :=
  FirstMatch.Decides (fun rule => rule.routesDirect ∧ rule.names e)
    (fun rule => rule.onlyNames e reading ∧ rule.diverts) rules

/-! ## The lists of the chain -/

/-- The entries of `get_direct_sites`. -/
def Entry.isSite (e : Entry) : Prop :=
  match e.kind with
  | .ruleSet => startsWith "geosite-" e.text
  | .ipCidr => False
  | _ => True

/-- The entries of `get_direct_ips`. -/
def Entry.isIp (e : Entry) : Prop :=
  match e.kind with
  | .ruleSet => startsWith "geoip-" e.text
  | .ipCidr => True
  | _ => False

theorem item_mem_map (e : Entry) (kind : EntryKind) (l : List String) :
    e.item ∈ l.map (kind.label ++ ·) ↔ e.kind = kind ∧ e.text ∈ l := by
  constructor
  · intro h
    obtain ⟨a, ha, heq⟩ := List.mem_map.mp h
    obtain ⟨hkind, rfl⟩ := EntryKind.label_append_inj heq
    exact ⟨hkind.symm, ha⟩
  · rintro ⟨rfl, hs⟩
    exact List.mem_map.mpr ⟨e.text, hs, rfl⟩

theorem mem_directSitesOf {rule : RouteRule} {e : Entry} :
    e.item ∈ directSitesOf rule ↔ e.isSite ∧ rule.names e := by
  have hsplit : e.item ∈ directSitesOf rule ↔
      (e.kind = .ruleSet ∧ e.text ∈ rule.ruleSet.filter (startsWith "geosite-")) ∨
      (e.kind = .domain ∧ e.text ∈ rule.domain) ∨
      (e.kind = .domainSuffix ∧ e.text ∈ rule.domainSuffix) ∨
      (e.kind = .domainKeyword ∧ e.text ∈ rule.domainKeyword) ∨
      (e.kind = .domainRegex ∧ e.text ∈ rule.domainRegex) := by
    unfold directSitesOf
    rw [List.mem_append, List.mem_append, List.mem_append, List.mem_append, or_assoc, or_assoc,
      or_assoc]
    exact or_congr (item_mem_map e .ruleSet _) (or_congr (item_mem_map e .domain _)
      (or_congr (item_mem_map e .domainSuffix _) (or_congr (item_mem_map e .domainKeyword _)
        (item_mem_map e .domainRegex _))))
  rw [hsplit]
  obtain ⟨kind, text⟩ := e
  cases kind <;> simp [Entry.isSite, RouteRule.names, RouteRule.entries, and_comm]

theorem mem_directIpsOf {rule : RouteRule} {e : Entry} :
    e.item ∈ directIpsOf rule ↔ e.isIp ∧ rule.names e := by
  have hsplit : e.item ∈ directIpsOf rule ↔
      (e.kind = .ruleSet ∧ e.text ∈ rule.ruleSet.filter (startsWith "geoip-")) ∨
      (e.kind = .ipCidr ∧ e.text ∈ rule.ipCidr) := by
    unfold directIpsOf
    rw [List.mem_append]
    exact or_congr (item_mem_map e .ruleSet _) (item_mem_map e .ipCidr _)
  rw [hsplit]
  obtain ⟨kind, text⟩ := e
  cases kind <;> simp [Entry.isIp, RouteRule.names, RouteRule.entries, and_comm]

/-- The outbound decides alone. -/
theorem mem_flatMap_direct {listOf : RouteRule → List String} {rules : List RouteRule} {e : Entry}
    {p : Prop} (h : ∀ rule, e.item ∈ listOf rule ↔ p ∧ rule.names e) :
    (e.item ∈ rules.flatMap fun rule => if rule.outboundID = directID then listOf rule else []) ↔
      p ∧ ∃ rule ∈ rules, rule.outboundID = directID ∧ rule.names e := by
  rw [List.mem_flatMap]
  constructor
  · rintro ⟨rule, hrule, hmem⟩
    split_ifs at hmem with hid
    · obtain ⟨hp, hnames⟩ := (h rule).mp hmem
      exact ⟨hp, rule, hrule, hid, hnames⟩
    · exact absurd hmem List.not_mem_nil
  · rintro ⟨hp, rule, hrule, hid, hnames⟩
    refine ⟨rule, hrule, ?_⟩
    rw [if_pos hid]
    exact (h rule).mpr ⟨hp, hnames⟩

theorem mem_getDirectSites {rules : List RouteRule} {e : Entry} :
    e.item ∈ getDirectSites rules ↔
      e.isSite ∧ ∃ rule ∈ rules, rule.outboundID = directID ∧ rule.names e :=
  mem_flatMap_direct fun _ => mem_directSitesOf

theorem mem_getDirectIps {rules : List RouteRule} {e : Entry} :
    e.item ∈ getDirectIps rules ↔
      e.isIp ∧ ∃ rule ∈ rules, rule.outboundID = directID ∧ rule.names e :=
  mem_flatMap_direct fun _ => mem_directIpsOf

/-! ## The lists of the configuration -/

theorem mem_withPrefix {start s : String} {items : List String} :
    s ∈ withPrefix start items ↔ start ++ s ∈ items := by
  unfold withPrefix
  rw [List.mem_map]
  constructor
  · rintro ⟨item, hitem, rfl⟩
    obtain ⟨hmem, hstarts⟩ := List.mem_filter.mp hitem
    obtain ⟨rest, hrest⟩ := List.isPrefixOf_iff_prefix.mp hstarts
    have hcut : start ++ mid item start.length = item := by
      apply String.toList_inj.mp
      rw [String.toList_append, mid, String.toList_ofList, ← hrest, ← String.length_toList,
        List.drop_left]
    rwa [hcut]
  · intro h
    refine ⟨start ++ s, List.mem_filter.mpr ⟨h, ?_⟩, ?_⟩
    · apply List.isPrefixOf_iff_prefix.mpr
      rw [String.toList_append]
      exact List.prefix_append _ _
    · rw [mid, String.toList_append, ← String.length_toList, List.drop_left, String.ofList_toList]

/-- The texts in a JSON array. -/
def strings (v : Json) : List String := (toArray v).map Json.toString

@[simp]
theorem strings_stringArray (l : List String) : strings (stringArray l) = l := by
  unfold strings stringArray toArray
  rw [List.map_map]
  exact List.map_id l

section

variable (E : Environment) (S : Settings) (job : Job) (chain : RoutingChain) (config : CoreConfig)

/-- The member of the TUN inbound that holds an entry. -/
def Entry.tunField (e : Entry) : String :=
  if e.kind = .ruleSet then "route_exclude_address_set" else "route_exclude_address"

/-- The TUN inbound excludes an entry on account of the chain. -/
def TunExcludes (e : Entry) : Prop :=
  S.enableTunRouting ∧ e.item ∈ directIps S job chain ∧
    ∃ tun, config.tunInbound = some tun ∧ e.text ∈ strings (tun.value e.tunField)

/-- The generated direct DNS rule takes a condition from the chain. -/
def DnsTakes (e : Entry) : Prop :=
  S.useDnsObject = false ∧ e.item ∈ directSites S job chain ∧
    ∃ rule ∈ config.dns.rules, rule.value "server" = .string "dns-direct" ∧
      e.text ∈ strings (rule.value e.kind.field)

def TakenFromChain (e : Entry) : Prop :=
  TunExcludes S job chain config e ∨ DnsTakes S job chain config e

/-- The lists that a configuration has an entry in: that of the TUN inbound and that of
    the direct DNS rule. -/
def Listed (e : Entry) : Prop :=
  job.blockAll = false ∧
    ((S.spmodeVpn ∧ job.forTest = false ∧ S.enableTunRouting ∧ e.isIp) ∨
      (S.useDnsObject = false ∧ e.isSite))

end

/-- What the loops over the outbounds do to the conditions of the direct DNS rule. -/
structure DirectDomains.Extends (d d' : DirectDomains) : Prop where
  ruleSets : d'.ruleSets = d.ruleSets
  domains : d.domains ⊆ d'.domains
  suffixes : d'.suffixes = d.suffixes
  keywords : d'.keywords = d.keywords
  regexes : d'.regexes = d.regexes
  needed : d.needed → d'.needed

theorem DirectDomains.Extends.refl (d : DirectDomains) : d.Extends d :=
  ⟨rfl, List.Subset.refl _, rfl, rfl, rfl, id⟩

theorem DirectDomains.Extends.add {d d' : DirectDomains} (h : d.Extends d') (domain : String) :
    d.Extends (d'.add domain) :=
  ⟨h.ruleSets, fun _ hmem => List.mem_append_left _ (h.domains hmem), h.suffixes, h.keywords,
    h.regexes, fun _ => rfl⟩

variable {E : Environment} {S : Settings} {job : Job} {chain : RoutingChain} {st : Outbounds}

theorem direct_extends (h : buildOutbounds E S job chain = .ok st) :
    (outboundsInit E S job chain).direct.Extends st.direct := by
  apply buildOutbounds_invariant _ _ h (DirectDomains.Extends.refl _)
  · intro st id ent st' _ _ hst hbuild
    obtain ⟨-, -, -, -, -, -, hdirect | hdirect⟩ := buildRouteChain_ok hbuild
    · rwa [hdirect]
    · rw [hdirect]
      exact hst.add _
  · exact fun _ _ _ hst _ => hst

/-- The rule for an extra core names no entry. -/
theorem direct_effectiveRules {e : Entry} :
    (∃ rule ∈ effectiveRules S job chain, rule.outboundID = directID ∧ rule.names e) ↔
      ∃ rule ∈ chain.rules, rule.outboundID = directID ∧ rule.names e := by
  have hpath (path : String) : ¬ (processPathDirectRule path).names e := by
    obtain ⟨kind, text⟩ := e
    cases kind <;> exact List.not_mem_nil
  unfold effectiveRules
  cases job.ent with
  | none => rfl
  | some ent =>
    dsimp only
    unfold chainRules
    split_ifs
    · constructor
      · rintro ⟨rule, hrule, hid, hnames⟩
        rcases List.mem_append.mp hrule with hrule | hrule
        · exact ⟨rule, hrule, hid, hnames⟩
        · rw [List.mem_singleton.mp hrule] at hnames
          exact absurd hnames (hpath _)
      · rintro ⟨rule, hrule, hid, hnames⟩
        exact ⟨rule, List.mem_append_left _ hrule, hid, hnames⟩
    · rfl

theorem mem_directIps {e : Entry} :
    e.item ∈ directIps S job chain ↔ job.blockAll = false ∧ e.isIp ∧
      ∃ rule ∈ chain.rules, rule.outboundID = directID ∧ rule.names e := by
  unfold directIps
  cases hblock : job.blockAll with
  | true => simp
  | false => simp [mem_getDirectIps, direct_effectiveRules]

theorem mem_directSites {e : Entry} :
    e.item ∈ directSites S job chain ↔ job.blockAll = false ∧ e.isSite ∧
      ∃ rule ∈ chain.rules, rule.outboundID = directID ∧ rule.names e := by
  unfold directSites
  cases hblock : job.blockAll with
  | true => simp
  | false => simp [mem_getDirectSites, direct_effectiveRules]

/-- The excluded addresses and sets that the TUN inbound gets from the chain. -/
theorem value_tunField {sets cidrs : List String} {privateThroughTun : Bool} {e : Entry}
    (hrouting : S.enableTunRouting)
    (h : (e.kind = .ruleSet ∧ e.text ∈ sets) ∨ (e.kind ≠ .ruleSet ∧ e.text ∈ cidrs)) :
    e.text ∈ strings ((buildTunInbound S sets cidrs privateThroughTun).value e.tunField) := by
  rcases h with ⟨hkind, hmem⟩ | ⟨hkind, hmem⟩
  · have hne : sets ≠ [] := List.ne_nil_of_mem hmem
    have hvalue : (buildTunInbound S sets cidrs privateThroughTun).value e.tunField =
        stringArray sets := by
      simp [buildTunInbound, routeExcludeAddressSet, hrouting, hne, Entry.tunField, hkind, member,
        JsonObject.value]
    rw [hvalue, strings_stringArray]
    exact hmem
  · have hvalue : (buildTunInbound S sets cidrs privateThroughTun).value e.tunField =
        stringArray (routeExcludeAddress S cidrs privateThroughTun) := by
      simp [buildTunInbound, Entry.tunField, hkind, JsonObject.value]
    rw [hvalue, strings_stringArray, routeExcludeAddress, if_pos hrouting]
    exact List.mem_append_right _ hmem

theorem tunExcludes_iff {e : Entry} :
    TunExcludes S job chain (coreConfig E S job chain st) e ↔
      job.blockAll = false ∧ S.spmodeVpn ∧ job.forTest = false ∧ S.enableTunRouting ∧ e.isIp ∧
        ∃ rule ∈ chain.rules, rule.outboundID = directID ∧ rule.names e := by
  constructor
  · rintro ⟨hrouting, hmem, tun, htun, -⟩
    obtain ⟨hblock, hip, hrule⟩ := mem_directIps.mp hmem
    change tunInbound S job chain = some tun at htun
    unfold tunInbound at htun
    split_ifs at htun with hbuilt
    rw [hblock, Bool.or_false, Bool.and_eq_true, Bool.not_eq_true'] at hbuilt
    exact ⟨hblock, hbuilt.1, hbuilt.2, hrouting, hip, hrule⟩
  · rintro ⟨hblock, hvpn, htest, hrouting, hip, hrule⟩
    have hmem : e.item ∈ directIps S job chain := mem_directIps.mpr ⟨hblock, hip, hrule⟩
    have htun : (coreConfig E S job chain st).tunInbound = some (buildTunInbound S
        (withPrefix "ruleset:" (directIps S job chain)) (withPrefix "ip:" (directIps S job chain))
        (hasProxyPrivateRoute S (effectiveRules S job chain))) := by
      show tunInbound S job chain = _
      unfold tunInbound
      rw [if_pos (by simp [hvpn, htest])]
    refine ⟨hrouting, hmem, _, htun, value_tunField hrouting ?_⟩
    obtain ⟨kind, text⟩ := e
    cases kind with
    | ruleSet => exact .inl ⟨rfl, mem_withPrefix.mpr hmem⟩
    | ipCidr => exact .inr ⟨by simp, mem_withPrefix.mpr hmem⟩
    | domain => exact hip.elim
    | domainSuffix => exact hip.elim
    | domainKeyword => exact hip.elim
    | domainRegex => exact hip.elim

theorem dnsTakes_iff (h : buildOutbounds E S job chain = .ok st) {e : Entry} :
    DnsTakes S job chain (coreConfig E S job chain st) e ↔
      job.blockAll = false ∧ S.useDnsObject = false ∧ e.isSite ∧
        ∃ rule ∈ chain.rules, rule.outboundID = directID ∧ rule.names e := by
  constructor
  · rintro ⟨hobject, hmem, -⟩
    obtain ⟨hblock, hsite, hrule⟩ := mem_directSites.mp hmem
    exact ⟨hblock, hobject, hsite, hrule⟩
  · rintro ⟨hblock, hobject, hsite, hrule⟩
    have hmem : e.item ∈ directSites S job chain := mem_directSites.mpr ⟨hblock, hsite, hrule⟩
    have hext := direct_extends h
    have hneeded : st.direct.needed := by
      apply hext.needed
      show decide (_ ∨ directSites S job chain ≠ []) = true
      rw [decide_eq_true_iff]
      exact .inr (List.ne_nil_of_mem hmem)
    refine ⟨hobject, hmem, directDnsRule st.direct, ?_, rfl, ?_⟩
    · show directDnsRule st.direct ∈ (buildDns S job _ st.direct).rules
      unfold buildDns
      rw [if_neg (by rw [hobject]; decide)]
      unfold dnsRules
      apply List.mem_append_right
      rw [if_pos (by rw [hneeded, hblock]; rfl)]
      exact List.mem_singleton_self _
    · obtain ⟨kind, text⟩ := e
      cases kind with
      | ruleSet =>
        show text ∈ strings (stringArray st.direct.ruleSets)
        rw [strings_stringArray, hext.ruleSets]
        exact mem_withPrefix.mpr hmem
      | ipCidr => exact hsite.elim
      | domain =>
        show text ∈ strings (stringArray st.direct.domains)
        rw [strings_stringArray]
        exact hext.domains (List.mem_append_right _ (mem_withPrefix.mpr hmem))
      | domainSuffix =>
        show text ∈ strings (stringArray st.direct.suffixes)
        rw [strings_stringArray, hext.suffixes]
        exact mem_withPrefix.mpr hmem
      | domainKeyword =>
        show text ∈ strings (stringArray st.direct.keywords)
        rw [strings_stringArray, hext.keywords]
        exact mem_withPrefix.mpr hmem
      | domainRegex =>
        show text ∈ strings (stringArray st.direct.regexes)
        rw [strings_stringArray, hext.regexes]
        exact mem_withPrefix.mpr hmem

/-- What the lists have from the chain: the entries of all rules whose outbound is
    `direct`, whatever their action. -/
theorem takenFromChain_iff {config : CoreConfig} (h : buildConfigSingBox E S job = .ok config)
    (hchain : routeChain S job = some chain) {e : Entry} :
    TakenFromChain S job chain config e ↔ Listed S job e ∧
      ∃ rule ∈ chain.rules, rule.outboundID = directID ∧ rule.names e := by
  obtain ⟨chain', st, hchain', -, hst, rfl⟩ := buildConfigSingBox_ok E S job h
  obtain rfl : chain' = chain := Option.some.inj (hchain'.symm.trans hchain)
  unfold TakenFromChain Listed
  rw [tunExcludes_iff, dnsTakes_iff hst]
  constructor
  · rintro (⟨hblock, hvpn, htest, hrouting, hip, hrule⟩ | ⟨hblock, hobject, hsite, hrule⟩)
    · exact ⟨⟨hblock, .inl ⟨hvpn, htest, hrouting, hip⟩⟩, hrule⟩
    · exact ⟨⟨hblock, .inr ⟨hobject, hsite⟩⟩, hrule⟩
  · rintro ⟨⟨hblock, ⟨hvpn, htest, hrouting, hip⟩ | ⟨hobject, hsite⟩⟩, hrule⟩
    · exact .inl ⟨hblock, hvpn, htest, hrouting, hip, hrule⟩
    · exact .inr ⟨hblock, hobject, hsite, hrule⟩

/-! ## When the lists follow the rules -/

/-- The rules with the outbound `direct` are those that route directly, as far as the
    lists go: an entry of a rule with another action is also named by one that routes
    directly, and one that routes directly comes before each rule that diverts an
    entry of theirs. -/
structure DirectRulesAgree (reading : Reading) (S : Settings) (job : Job) (rules : List RouteRule) :
    Prop where
  backed : ∀ rule ∈ rules, rule.outboundID = directID → rule.action ≠ "route" →
    ∀ e, rule.names e → Listed S job e → ∃ other ∈ rules, other.routesDirect ∧ other.names e
  first : ∀ before rule after, rules = before ++ rule :: after → rule.diverts →
    ∀ e, rule.onlyNames e reading → Listed S job e →
      (∃ other ∈ rules, other.outboundID = directID ∧ other.names e) →
      ∃ other ∈ before, other.routesDirect ∧ other.names e

theorem follows_iff {reading : Reading} {rules : List RouteRule} {e : Entry} :
    Follows reading rules e ↔ (∃ rule ∈ rules, rule.routesDirect ∧ rule.names e) ∧
      ∀ before rule after, rules = before ++ rule :: after →
        rule.onlyNames e reading ∧ rule.diverts → ∃ other ∈ before, other.routesDirect ∧ other.names e :=
  FirstMatch.decides_iff fun _ hgood hbad =>
    RouteRule.not_diverts_of_routesDirect hgood.1 hbad.2

/-- For every accepted configuration: what the TUN inbound excludes and the direct DNS
    rule names on account of the chain follows its rules if and only if the rules with
    the outbound `direct` agree. -/
theorem direct_lists_iff {config : CoreConfig} (h : buildConfigSingBox E S job = .ok config)
    (hchain : routeChain S job = some chain) (reading : Reading) :
    (∀ e, TakenFromChain S job chain config e → Follows reading chain.rules e) ↔
      DirectRulesAgree reading S job chain.rules := by
  constructor
  · intro hfollows
    constructor
    · intro rule hrule hid _ e hnames hlisted
      have htaken : TakenFromChain S job chain config e :=
        (takenFromChain_iff h hchain).mpr ⟨hlisted, rule, hrule, hid, hnames⟩
      exact (follows_iff.mp (hfollows e htaken)).1
    · intro before rule after heq hdiverts e honly hlisted hdirect
      have htaken : TakenFromChain S job chain config e :=
        (takenFromChain_iff h hchain).mpr ⟨hlisted, hdirect⟩
      exact (follows_iff.mp (hfollows e htaken)).2 before rule after heq ⟨honly, hdiverts⟩
  · intro hagree e htaken
    obtain ⟨hlisted, rule, hrule, hid, hnames⟩ := (takenFromChain_iff h hchain).mp htaken
    apply follows_iff.mpr
    constructor
    · by_cases haction : rule.action = "route"
      · exact ⟨rule, hrule, ⟨haction, hid⟩, hnames⟩
      · exact hagree.backed rule hrule hid haction e hnames hlisted
    · rintro before other after heq ⟨honly, hdiverts⟩
      exact hagree.first before other after heq hdiverts e honly hlisted ⟨rule, hrule, hid, hnames⟩

/-- A chain with the rule that `UpdateSimpleRules` makes for a blocked address: its
    outbound is the default. -/
def blockingChain : RoutingChain where
  rules := [{ action := "reject", ipCidr := ["203.0.113.7/32"] }]

theorem direct_lists_iff_blocking :
    (∀ e, TakenFromChain (tunSettings blockingChain) socksJob blockingChain
      (coreConfig socksEnvironment (tunSettings blockingChain) socksJob blockingChain
        (outboundsInit socksEnvironment (tunSettings blockingChain) socksJob blockingChain)) e →
      Follows .single blockingChain.rules e) ↔
    DirectRulesAgree .single (tunSettings blockingChain) socksJob blockingChain.rules :=
  direct_lists_iff (buildConfigSingBox_tunSettings rfl (by decide)) (routeChain_tunSettings rfl)
    .single

/-- The configuration is accepted, and a blocked address is excluded from the TUN,
    although no rule routes it directly. -/
theorem rejected_address_leaves_tun :
    ∃ config, buildConfigSingBox socksEnvironment (tunSettings blockingChain) socksJob = .ok config ∧
      routeChain (tunSettings blockingChain) socksJob = some blockingChain ∧
      TakenFromChain (tunSettings blockingChain) socksJob blockingChain config
        ⟨.ipCidr, "203.0.113.7/32"⟩ ∧
      ∀ reading, ¬ Follows reading blockingChain.rules ⟨.ipCidr, "203.0.113.7/32"⟩ := by
  have hconfig := @buildConfigSingBox_tunSettings blockingChain rfl (by decide)
  have hchain := @routeChain_tunSettings blockingChain rfl
  refine ⟨_, hconfig, hchain, ?_, ?_⟩
  · rw [takenFromChain_iff hconfig hchain]
    refine ⟨⟨rfl, .inl ⟨rfl, rfl, rfl, trivial⟩⟩, _, List.mem_singleton_self _, rfl, ?_⟩
    exact List.mem_singleton_self _
  · intro reading hfollows
    obtain ⟨⟨rule, hrule, hdirect, -⟩, -⟩ := follows_iff.mp hfollows
    rw [List.mem_singleton.mp hrule] at hdirect
    exact absurd hdirect.1 (by decide)

end NekoBox.Config
