import NekoBox.Config.DnsReferences
import NekoBox.Config.FullRun
import NekoBox.Config.TestTags

/-!
# The configuration of a test

`BuildTestConfig` (`ConfigBuilder.cpp`, lines 602–751) with the objects themselves; what it
does to their tags is in `NekoBox.Config.TestTags`. The outbounds of the profiles are put
into one configuration, whose DNS section is that of the first profile without a full
configuration. A full configuration is cut down and tested on its own.

* `fullTest_closed`: what is left of a full configuration names nothing that is not there;
* `batch_resolves_iff`: the configuration of the others is closed unless a full configuration
  takes the first number, for then no outbound is called `proxy`, which the DNS server goes
  through.
-/

namespace NekoBox.Config

open NekoBox.Store NekoBox.Lib NekoBox.Lib.References

/-- What is known of the profiles to be tested. -/
structure Tester where
  hasBean : Profile → Bool
  /-- `IsValid`, which asks the core -/
  isValid : Profile → Bool
  name : Profile → String
  /-- The parsed `custom_config` of a `CustomBean` -/
  customConfig : Profile → JsonObject
  /-- `MergeJson(custom_config, coreConfig)` -/
  withCustomConfig : Profile → CoreConfig → CoreConfig

/-- `custom` with the core `internal-full` -/
def Profile.isFull (ent : Profile) : Bool := ent.type = "custom" ∧ ent.core = "internal-full"

section

variable (E : Environment) (S : Settings) (R : Resolver) (T : Tester)

/-! ## Full configurations -/

/-- One turn of the loop over the outbounds (lines 647–664): the array and
    `testOutboundTag`. -/
def addFullOutbound (st : List Json × String) (o : Json) : List Json × String :=
  let ob := (asObject o).remove "domain_resolver"
  let tag := ob.text "tag"
  let chosen := st.2 = "" ∧ !isLocalOutbound ob
  let newTag := if tag = "" then "proxy" else tag
  let named := if chosen ∧ tag = "" then ob.insert "tag" (.string newTag) else ob
  let resolved := if isLocalOutbound ob then named else resolveOutboundServer E R named
  (st.1 ++ [.object resolved], if chosen then newTag else st.2)

/-- What is tested of a full configuration (lines 636–673). -/
def testFullConfig (config : JsonObject) : JsonObject :=
  let config := config.insert "inbounds" (.array [])
  let config := config.insert "dns" (.object [("servers", .array [.object fullLocalServer])])
  let test := (toArray (config.value "outbounds")).foldl (addFullOutbound E R) ([], "")
  let config := config.insert "outbounds" (.array test.1)
  let route := (config.section "route").remove "rules"
  let route := if test.2 ≠ "" then route.insert "final" (.string test.2) else route
  config.insert "route" (.object (route.insert "default_domain_resolver"
    (.object [("server", .string "dns-local")])))

/-- `BuildConfig` of a full configuration for a test. -/
def buildFullTest (ent : Profile) : Except String JsonObject :=
  (buildFullConfig E S R ⟨some ent, true, 0⟩ ent.configSimple none).map fun config =>
    testFullConfig E R (mergeJson (T.customConfig ent) config)

/-! ## The others -/

/-- `BuildConfig(item, true, false, index)` -/
def buildTest (ent : Profile) (index : ℕ) : Except String CoreConfig :=
  (buildConfigSingBox E S ⟨some ent, true, index⟩).map fun config =>
    if ent.type = "custom" then T.withCustomConfig ent config else config

end

/-- `BuildTestConfigResult`, and the arrays on the way. -/
structure TestBatch where
  /-- The first configuration. -/
  coreConfig : Option CoreConfig
  outbounds : List JsonObject
  endpoints : List JsonObject
  directDomains : List Json
  outboundTags : List String
  tag2entID : List (String × ℤ)
  fullConfigs : List (ℤ × JsonObject)
  /-- The profiles whose latency becomes −1 -/
  invalid : List ℤ

namespace TestBatch

def isEndpointType (outbound : JsonObject) : Bool :=
  outbound.text "type" = "wireguard" ∨ outbound.text "type" = "tailscale" ∨
    outbound.text "type" = "awg"

def append (results : TestBatch) (outbound : JsonObject) : TestBatch :=
  if isEndpointType outbound then { results with endpoints := results.endpoints ++ [outbound] }
  else { results with outbounds := results.outbounds ++ [outbound] }

/-- The tag of the exit of a profile. -/
def exitTag (index : ℕ) : String := if index > 1 then "proxy" ++ number index else "proxy"

def isSkipped (tag : String) : Bool :=
  tag = "direct" ∨ tag = "block" ∨ tag = "dns-out" ∨ startsWith "rout" tag

/-- One turn of the loop over the outbounds of a profile (lines 708–729). -/
def addOutbound (index : ℕ) (id : ℤ) (results : TestBatch) (outbound : JsonObject) : TestBatch :=
  let outboundTag := outbound.text "tag"
  if isSkipped outboundTag then results
  else if outboundTag = "proxy" then
    let outboundTag := exitTag index
    let results := results.append (outbound.insert "tag" (.string outboundTag))
    { results with
      outboundTags := results.outboundTags ++ [outboundTag]
      tag2entID := (outboundTag, id) :: results.tag2entID }
  else results.append outbound

/-- The domains of the DNS rules (lines 684–691). -/
def domainsOf (config : CoreConfig) : List Json :=
  config.dns.rules.flatMap fun rule => toArray (rule.value "domain")

/-- The configuration of a profile (lines 680–728). -/
def addConfig (results : TestBatch) (index : ℕ) (id : ℤ) (config : CoreConfig) : TestBatch :=
  (config.outbounds ++ config.endpoints).foldl (addOutbound index id)
    { results with
      coreConfig := results.coreConfig.orElse fun _ => some config
      directDomains := results.directDomains ++ domainsOf config }

/-- The loop over the profiles (lines 612–729). -/
def addProfiles (E : Environment) (S : Settings) (R : Resolver) (T : Tester) (results : TestBatch) :
    ℕ → List Profile → Except String TestBatch
  | _, [] => .ok results
  | index, item :: items =>
    if !T.hasBean item || item.type = "extracore" then addProfiles E S R T results index items
    else if !T.isValid item then
      addProfiles E S R T { results with invalid := results.invalid ++ [item.id] } index items
    else if item.isFull then
      match buildFullTest E S R T item with
      | .error error => .error error
      | .ok config =>
        addProfiles E S R T
          { results with fullConfigs := (item.id, config) :: results.fullConfigs } (index + 1) items
    else
      match buildTest E S T item (index + 1) with
      | .error error => .error error
      | .ok config =>
        if config.outbounds = [] then .error ("outbounds is empty for " ++ T.name item)
        else addProfiles E S R T (results.addConfig (index + 1) item.id config) (index + 1) items

end TestBatch

/-- The batch before the loop. -/
def TestBatch.init : TestBatch where
  coreConfig := none
  outbounds := [[("type", .string "direct"), ("tag", .string "direct")]]
  endpoints := []
  directDomains := []
  outboundTags := []
  tag2entID := []
  fullConfigs := []
  invalid := []

/-- The DNS section (lines 733–741). -/
def TestBatch.dns (results : TestBatch) : Dns :=
  let rules : List JsonObject :=
    if results.directDomains ≠ [] then
      [[("domain", .array results.directDomains), ("action", .string "route"),
        ("server", .string "dns-direct")]]
    else []
  match results.coreConfig with
  | some config => { config.dns with rules := rules }
  | none => ⟨[], rules, none, false⟩

/-- `BuildTestConfig` -/
def buildTestBatch (E : Environment) (S : Settings) (R : Resolver) (T : Tester)
    (profiles : List Profile) : Except String TestBatch :=
  TestBatch.init.addProfiles E S R T 0 profiles

/-! ## What is left of a full configuration -/

section

variable {E : Environment} {S : Settings} {R : Resolver} {T : Tester}

theorem section_insert_of_ne {config : JsonObject} {key k : String} {v : Json} (h : key ≠ k) :
    (config.insert key v).section k = config.section k := by
  rw [JsonObject.section, JsonObject.value_insert_of_ne h, JsonObject.section]

theorem section_insert_self {config : JsonObject} {key : String} {o : JsonObject} :
    (config.insert key (.object o)).section key = o := by
  rw [JsonObject.section, JsonObject.value_insert_self]
  rfl

/-- What is tested has one DNS server, and names no other. -/
theorem dnsClosed_testFullConfig (config : JsonObject) : DnsClosed (testFullConfig E R config) := by
  have hdns : (testFullConfig E R config).section "dns" =
      [("servers", .array [.object fullLocalServer])] := by
    unfold testFullConfig
    dsimp only
    rw [section_insert_of_ne (by decide), section_insert_of_ne (by decide), section_insert_self]
  have hservers : dnsServersOf (testFullConfig E R config) = [fullLocalServer] := by
    rw [dnsServersOf, hdns]
    rfl
  have hdefault : ((testFullConfig E R config).section "route").value "default_domain_resolver" =
      .object [("server", .string "dns-local")] := by
    unfold testFullConfig
    dsimp only
    rw [section_insert_self, JsonObject.value_insert_self]
  constructor
  · rw [hdns]
    exact .inl rfl
  · rw [hdefault, hservers]
    exact .inr List.mem_cons_self
  · intro rule hrule
    rw [hdns] at hrule
    cases hrule
  all_goals
    intro server hserver
    rw [hservers] at hserver
    obtain rfl := List.mem_singleton.mp hserver
    exact .inl rfl

theorem value_resolveOutboundServer {outbound : JsonObject} {key : String} (hserver : "server" ≠ key)
    (htls : "tls" ≠ key) : (resolveOutboundServer E R outbound).value key = outbound.value key := by
  unfold resolveOutboundServer
  dsimp only
  split_ifs
  · rfl
  · rw [JsonObject.value_insert_of_ne htls, JsonObject.value_insert_of_ne hserver]
  · rw [JsonObject.value_insert_of_ne hserver]

/-- The outbound that a tag belongs to is there, and has a server. -/
def Chosen (outbounds : List Json) (tag : String) : Prop :=
  ∃ o : JsonObject, .object o ∈ outbounds ∧ isLocalOutbound o = false ∧ o.text "tag" = tag

/-- The outbound with a server that comes first is chosen, under its tag or a new one. -/
theorem chosen_resolveOutboundServer {ob : JsonObject} (hlocal : isLocalOutbound ob = false) :
    isLocalOutbound (resolveOutboundServer E R
        (if ob.text "tag" = "" then
          ob.insert "tag" (.string (if ob.text "tag" = "" then "proxy" else ob.text "tag"))
        else ob)) = false ∧
      (resolveOutboundServer E R
        (if ob.text "tag" = "" then
          ob.insert "tag" (.string (if ob.text "tag" = "" then "proxy" else ob.text "tag"))
        else ob)).text "tag" = if ob.text "tag" = "" then "proxy" else ob.text "tag" := by
  have htype : ∀ o : JsonObject, o.value "type" = ob.value "type" →
      isLocalOutbound (resolveOutboundServer E R o) = false := by
    intro o ho
    rw [← hlocal]
    unfold isLocalOutbound JsonObject.text
    rw [value_resolveOutboundServer (by decide) (by decide), ho]
  have htag : ∀ o : JsonObject,
      (resolveOutboundServer E R o).text "tag" = o.text "tag" := by
    intro o
    unfold JsonObject.text
    rw [value_resolveOutboundServer (by decide) (by decide)]
  by_cases hempty : ob.text "tag" = ""
  · simp only [hempty, if_true]
    refine ⟨htype _ (JsonObject.value_insert_of_ne (by decide)), ?_⟩
    rw [htag, JsonObject.text, JsonObject.value_insert_self]
    rfl
  · simp only [hempty, if_false]
    exact ⟨htype _ rfl, htag ob⟩

theorem chosen_addFullOutbound {st : List Json × String} {o : Json}
    (h : st.2 = "" ∨ Chosen st.1 st.2) :
    ((addFullOutbound E R st o).2 = "" ∨
        Chosen (addFullOutbound E R st o).1 (addFullOutbound E R st o).2) ∧
      (st.2 ≠ "" ∨ isLocalOutbound (asObject o) = false → (addFullOutbound E R st o).2 ≠ "") := by
  have hlocal : isLocalOutbound (JsonObject.remove (asObject o) "domain_resolver") =
      isLocalOutbound (asObject o) := by
    unfold isLocalOutbound JsonObject.text
    rw [JsonObject.value_remove_of_ne (by decide)]
  unfold addFullOutbound
  dsimp only
  generalize JsonObject.remove (asObject o) "domain_resolver" = ob at hlocal ⊢
  rw [← hlocal]
  by_cases hchosen : st.2 = "" ∧ !isLocalOutbound ob
  · have hremote : isLocalOutbound ob = false := by simpa using hchosen.2
    simp only [hchosen.1, hremote, Bool.not_false, and_self, true_and, if_true,
      Bool.false_eq_true, if_false]
    obtain ⟨hserver, htag⟩ := chosen_resolveOutboundServer (E := E) (R := R) hremote
    refine ⟨.inr ⟨_, List.mem_append_right _ List.mem_cons_self, hserver, htag⟩, fun _ => ?_⟩
    split_ifs with hempty
    · decide
    · exact hempty
  · rw [if_neg hchosen]
    refine ⟨h.imp_right fun ⟨ob', hmem, hrest⟩ => ⟨ob', List.mem_append_left _ hmem, hrest⟩,
      fun hcondition hempty => ?_⟩
    rcases hcondition with hne | hremote
    · exact hne hempty
    · exact hchosen ⟨hempty, by rw [hremote]; rfl⟩

theorem chosen_foldl (l : List Json) (st : List Json × String) (h : st.2 = "" ∨ Chosen st.1 st.2) :
    ((l.foldl (addFullOutbound E R) st).2 = "" ∨
        Chosen (l.foldl (addFullOutbound E R) st).1 (l.foldl (addFullOutbound E R) st).2) ∧
      ((st.2 ≠ "" ∨ ∃ o ∈ l, isLocalOutbound (asObject o) = false) →
        (l.foldl (addFullOutbound E R) st).2 ≠ "") := by
  induction l generalizing st with
  | nil => exact ⟨h, fun hcondition => hcondition.resolve_right (by simp)⟩
  | cons o l ih =>
    obtain ⟨hstep, hnonempty⟩ := chosen_addFullOutbound (E := E) (R := R) (o := o) h
    obtain ⟨hrest, hlater⟩ := ih (addFullOutbound E R st o) hstep
    refine ⟨hrest, fun hcondition => hlater ?_⟩
    rcases hcondition with hne | ⟨o', ho', hremote⟩
    · exact .inl (hnonempty (.inl hne))
    · rcases List.mem_cons.mp ho' with rfl | ho'
      · exact .inl (hnonempty (.inr hremote))
      · exact .inr ⟨o', ho', hremote⟩

/-- A tag that the profile with a number brings. -/
def OfNumber (k : ℕ) (v : Json) : Prop :=
  v = .string (TestBatch.exitTag k) ∨ ∃ i ≠ 0, ∃ e, v = .string (tagOut k (-1) i e)

theorem toList_tagOut_main {k : ℕ} {i : ℕ} {e : Profile} (hi : i ≠ 0) :
    ∃ s, (tagOut k (-1) i e).toList = 'c' :: '-' :: (k.repr.toList ++ '-' :: s) := by
  refine ⟨(number e.id ++ "-" ++ number i).toList, ?_⟩
  have hnumber : (number (k : ℤ)).toList = k.repr.toList := rfl
  unfold tagOut chainTag
  rw [if_neg hi, if_neg (by decide)]
  simp [String.toList_append, hnumber]

theorem head_exitTag (k : ℕ) : (TestBatch.exitTag k).toList.head? = some 'p' := by
  unfold TestBatch.exitTag
  split_ifs
  · rw [String.toList_append]
    rfl
  · rfl

theorem exitTag_ne_hop {k m i : ℕ} {e : Profile} (hi : i ≠ 0) :
    TestBatch.exitTag k ≠ tagOut m (-1) i e := by
  intro heq
  obtain ⟨s, hs⟩ := @toList_tagOut_main m i e hi
  have hhead := head_exitTag k
  rw [heq, hs] at hhead
  cases hhead

theorem exitTag_eq_proxy_iff {k : ℕ} : TestBatch.exitTag k = "proxy" ↔ k ≤ 1 := by
  unfold TestBatch.exitTag
  split_ifs with hk
  · refine ⟨fun heq => ?_, fun hle => absurd hle (by omega)⟩
    have hlist := congrArg String.toList heq
    rw [String.toList_append] at hlist
    have hnil : (number (k : ℤ)).toList = [] :=
      List.append_cancel_left (hlist.trans (List.append_nil _).symm)
    have hrepr : k.repr.toList = [] := hnil
    rw [Nat.toList_repr] at hrepr
    exact absurd hrepr Nat.toDigits_ne_nil
  · exact ⟨fun _ => by omega, fun _ => rfl⟩

theorem exitTag_injective {k m : ℕ} (hk : 1 ≤ k) (hm : 1 ≤ m)
    (h : TestBatch.exitTag k = TestBatch.exitTag m) : k = m := by
  by_cases hk' : k ≤ 1
  · have hm' := exitTag_eq_proxy_iff.mp (h ▸ exitTag_eq_proxy_iff.mpr hk')
    omega
  · have hm' : ¬ m ≤ 1 := fun hle => hk' (exitTag_eq_proxy_iff.mp (h ▸ exitTag_eq_proxy_iff.mpr hle))
    rw [TestBatch.exitTag, TestBatch.exitTag, if_pos (by omega), if_pos (by omega)] at h
    have hlist := congrArg String.toList h
    rw [String.toList_append, String.toList_append] at hlist
    have hnumbers : k.repr.toList = m.repr.toList := List.append_cancel_left hlist
    exact Nat.repr_injective (String.toList_injective hnumbers)

/-- Different numbers bring different tags. -/
theorem OfNumber.unique {k m : ℕ} (hk : 1 ≤ k) (hm : 1 ≤ m) {v : Json} (h : OfNumber k v)
    (h' : OfNumber m v) : k = m := by
  rcases h with rfl | ⟨i, hi, e, rfl⟩ <;> rcases h' with heq | ⟨j, hj, e', heq⟩
  · exact exitTag_injective hk hm (Json.string.inj heq)
  · exact absurd (Json.string.inj heq) (exitTag_ne_hop hj)
  · exact absurd (Json.string.inj heq).symm (exitTag_ne_hop hi)
  · obtain ⟨s, hs⟩ := @toList_tagOut_main k i e hi
    obtain ⟨t, ht⟩ := @toList_tagOut_main m j e' hj
    have hlist := congrArg String.toList (Json.string.inj heq)
    rw [hs, ht] at hlist
    have hrest := (List.cons.inj (List.cons.inj hlist).2).2
    have hfirst := congrArg (Parts.firstPart '-') hrest
    rw [Parts.firstPart_append (Parts.not_mem_repr k (by decide)),
      Parts.firstPart_append (Parts.not_mem_repr m (by decide))] at hfirst
    exact Nat.repr_injective (String.toList_injective hfirst)

theorem OfNumber.ne_direct {k : ℕ} {v : Json} (h : OfNumber k v) : v ≠ .string "direct" := by
  rintro rfl
  rcases h with heq | ⟨i, hi, e, heq⟩
  · have hhead := head_exitTag k
    rw [← Json.string.inj heq] at hhead
    exact absurd hhead (by decide)
  · exact (@tagOut_ne_builtin k i e (-1) le_rfl).1 (Json.string.inj heq).symm

/-! ## The objects of one profile -/

namespace TestBatch

def objects (results : TestBatch) : List JsonObject := results.outbounds ++ results.endpoints

/-- The exit of a profile gets the tag with the number. -/
def rename (index : ℕ) (o : JsonObject) : JsonObject :=
  if o.text "tag" = "proxy" then o.insert "tag" (.string (exitTag index)) else o

def added (index : ℕ) (o : JsonObject) : Option JsonObject :=
  if isSkipped (o.text "tag") then none else some (rename index o)

variable {results : TestBatch} {index : ℕ} {id : ℤ}

theorem perm_append (o : JsonObject) : (results.append o).objects.Perm (results.objects ++ [o]) := by
  unfold append objects
  split_ifs
  · rw [List.append_assoc]
  · rw [List.append_assoc, List.append_assoc]
    exact List.perm_append_comm.append_left _

theorem perm_addOutbound (o : JsonObject) : (results.addOutbound index id o).objects.Perm
    (results.objects ++ (added index o).toList) := by
  unfold addOutbound added rename
  dsimp only
  split_ifs
  · rw [Option.toList_none, List.append_nil]
  · exact perm_append _
  · exact perm_append o

theorem perm_addOutbounds (l : List JsonObject) :
    (l.foldl (addOutbound index id) results).objects.Perm
      (results.objects ++ l.filterMap (added index)) := by
  induction l generalizing results with
  | nil => rw [List.foldl_nil, List.filterMap_nil, List.append_nil]
  | cons o l ih =>
    refine (@ih (results.addOutbound index id o)).trans ?_
    refine ((perm_addOutbound o).append_right _).trans ?_
    rw [List.append_assoc]
    refine List.Perm.append_left _ ?_
    cases hadded : added index o with
    | none => rw [List.filterMap_cons_none hadded, Option.toList_none, List.nil_append]
    | some o' => rw [List.filterMap_cons_some hadded, Option.toList_some, List.singleton_append]

/-- What else the loop over the outbounds changes. -/
theorem fields_addOutbounds (l : List JsonObject) :
    (l.foldl (addOutbound index id) results).coreConfig = results.coreConfig ∧
      (l.foldl (addOutbound index id) results).directDomains = results.directDomains ∧
      ∀ tag ∈ (l.foldl (addOutbound index id) results).outboundTags,
        tag ∈ results.outboundTags ∨ tag = exitTag index := by
  induction l generalizing results with
  | nil => exact ⟨rfl, rfl, fun _ => .inl⟩
  | cons o l ih =>
    have hstep : (results.addOutbound index id o).coreConfig = results.coreConfig ∧
        (results.addOutbound index id o).directDomains = results.directDomains ∧
        ∀ tag ∈ (results.addOutbound index id o).outboundTags,
          tag ∈ results.outboundTags ∨ tag = exitTag index := by
      have happend : ∀ o : JsonObject, (results.append o).coreConfig = results.coreConfig ∧
          (results.append o).directDomains = results.directDomains ∧
          (results.append o).outboundTags = results.outboundTags := by
        intro o
        unfold append
        split_ifs <;> exact ⟨rfl, rfl, rfl⟩
      unfold addOutbound
      dsimp only
      split_ifs
      · exact ⟨rfl, rfl, fun _ => .inl⟩
      · obtain ⟨hcore, hdomains, htags⟩ := happend (o.insert "tag" (.string (exitTag index)))
        refine ⟨hcore, hdomains, fun tag htag => ?_⟩
        rw [htags, List.mem_append, List.mem_singleton] at htag
        exact htag
      · obtain ⟨hcore, hdomains, htags⟩ := happend o
        exact ⟨hcore, hdomains, fun tag htag => .inl (htags ▸ htag)⟩
    obtain ⟨hcore, hdomains, htags⟩ := @ih (results.addOutbound index id o)
    refine ⟨hcore.trans hstep.1, hdomains.trans hstep.2.1, fun tag htag => ?_⟩
    rcases htags tag htag with htag | htag
    · exact hstep.2.2 tag htag
    · exact .inr htag

end TestBatch

open TestBatch

section

variable {k : ℕ} {ents : List Profile}

/-- The tag of an object of a chain. -/
theorem text_tag_hop (hplain : ∀ e ∈ ents, e.Plain)
    (herror : ∀ e ∈ ents, outboundError E true e = "") {o : JsonObject}
    (ho : o ∈ (hops E true k (-1) (nestedMtu ents) ents).map Prod.snd) :
    ∃ i e, tagOf o = .string (tagOut k (-1) i e) ∧ o.text "tag" = tagOut k (-1) i e := by
  have hmem : tagOf o ∈ _ := List.mem_map_of_mem ho
  rw [tags_of_plain (k : ℤ) (-1) hplain herror] at hmem
  obtain ⟨tag, htag, heq⟩ := List.mem_map.mp hmem
  obtain ⟨i, -, e, -, rfl⟩ := exists_of_mem_tagsFrom htag
  refine ⟨i, e, heq.symm, ?_⟩
  have hvalue : o.value "tag" = .string (tagOut k (-1) i e) := heq.symm
  rw [JsonObject.text, hvalue]
  rfl

theorem isSkipped_hop (i : ℕ) (e : Profile) : isSkipped (tagOut k (-1) i e) = false := by
  obtain ⟨hdirect, hblock⟩ := @tagOut_ne_builtin k i e (-1) le_rfl
  have hhead := @head_tagOut_main k i e
  have hdns : tagOut k (-1) i e ≠ "dns-out" := by
    intro heq
    rw [heq] at hhead
    exact absurd hhead (by decide)
  have hrout : startsWith "rout" (tagOut k (-1) i e) = false := by
    rw [Bool.eq_false_iff]
    intro hstarts
    obtain ⟨rest, hrest⟩ := List.isPrefixOf_iff_prefix.mp hstarts
    rw [← hrest] at hhead
    exact absurd hhead (by simp)
  simp [isSkipped, hdirect, hblock, hdns, hrout]

theorem hop_ne_proxy {i : ℕ} {e : Profile} (hi : i ≠ 0) : tagOut k (-1) i e ≠ "proxy" := by
  intro heq
  obtain ⟨s, hs⟩ := @toList_tagOut_main k i e hi
  rw [heq] at hs
  exact absurd (List.cons.inj hs).1 (by decide)

/-- The new tag for an old one. -/
def renameTag (k : ℕ) : Json → Json
  | .string tag => .string (if tag = "proxy" then exitTag k else tag)
  | v => v

theorem renameTag_hop {i : ℕ} {e : Profile} (hi : i ≠ 0) :
    renameTag k (.string (tagOut k (-1) i e)) = .string (tagOut k (-1) i e) := by
  rw [renameTag, if_neg (hop_ne_proxy hi)]

theorem renameTag_exit (e : Profile) :
    renameTag k (.string (tagOut k (-1) 0 e)) = .string (exitTag k) := rfl

theorem renameTag_injective {i j : ℕ} {a b : Profile}
    (h : renameTag k (.string (tagOut k (-1) i a)) = renameTag k (.string (tagOut k (-1) j b))) :
    Json.string (tagOut k (-1) i a) = .string (tagOut k (-1) j b) := by
  by_cases hi : i = 0 <;> by_cases hj : j = 0
  · rw [hi, hj]
    rfl
  · rw [hi, renameTag_exit, renameTag_hop hj] at h
    exact absurd (Json.string.inj h) (exitTag_ne_hop hj)
  · rw [hj, renameTag_exit, renameTag_hop hi] at h
    exact absurd (Json.string.inj h).symm (exitTag_ne_hop hi)
  · rw [renameTag_hop hi, renameTag_hop hj] at h
    exact h

theorem tagOf_rename {o : JsonObject} {tag : String} (h : tagOf o = .string tag) :
    tagOf (rename k o) = renameTag k (tagOf o) := by
  have htext : o.text "tag" = tag := by
    have hvalue : o.value "tag" = .string tag := h
    rw [JsonObject.text, hvalue]
    rfl
  unfold rename
  rw [htext, h, renameTag]
  by_cases hproxy : tag = "proxy"
  · rw [if_pos hproxy, if_pos hproxy]
    exact JsonObject.value_insert_self
  · rw [if_neg hproxy, if_neg hproxy]
    exact h

theorem detours_rename {o : JsonObject} {v : Json} :
    Detours (rename k o) v ↔ Detours o v := by
  unfold Detours rename
  split_ifs
  · rw [JsonObject.value_insert_of_ne (by decide)]
  · exact Iff.rfl

/-- What a profile brings is closed, with tags of its number, one of them the exit. -/
theorem closed_rename (hplain : ∀ e ∈ ents, e.Plain)
    (herror : ∀ e ∈ ents, outboundError E true e = "") (hne : ents ≠ []) :
    Closed tagOf Detours
        (((hops E true k (-1) (nestedMtu ents) ents).map Prod.snd).map (rename k)) ∧
      (∀ v ∈ (((hops E true k (-1) (nestedMtu ents) ents).map Prod.snd).map (rename k)).map tagOf,
        OfNumber k v) ∧
      .string (exitTag k) ∈
        (((hops E true k (-1) (nestedMtu ents) ents).map Prod.snd).map (rename k)).map tagOf := by
  have htags := tags_of_plain (k : ℤ) (-1) hplain herror
  have hnames : (((hops E true k (-1) (nestedMtu ents) ents).map Prod.snd).map (rename k)).map
      tagOf = ((tagsFrom k (-1) 0 ents).map .string).map (renameTag k) := by
    rw [← htags]
    simp only [List.map_map]
    refine List.map_congr_left fun h hh => ?_
    obtain ⟨i, e, htag, -⟩ := text_tag_hop hplain herror (List.mem_map_of_mem hh)
    exact tagOf_rename htag
  refine ⟨(closed_hops hplain herror).rename (r := renameTag k) ?_ ?_ ?_, ?_, ?_⟩
  · intro o ho
    obtain ⟨i, e, htag, -⟩ := text_tag_hop hplain herror ho
    exact tagOf_rename htag
  · intro v hv w hw heq
    simp only [htags, Set.mem_ofPred_eq, List.mem_map] at hv hw
    obtain ⟨tag, htag, rfl⟩ := hv
    obtain ⟨tag', htag', rfl⟩ := hw
    obtain ⟨i, -, a, -, rfl⟩ := exists_of_mem_tagsFrom htag
    obtain ⟨j, -, b, -, rfl⟩ := exists_of_mem_tagsFrom htag'
    exact renameTag_injective heq
  · intro o ho v hv
    rw [detours_rename] at hv
    refine ⟨v, hv, ?_⟩
    -- nothing refers to the exit, which is the first of the path
    obtain ⟨hnext, hlast⟩ := path_objects (k : ℤ) (-1) hplain herror
    have htail := mem_tail_of_path hnext hlast ho hv
    obtain ⟨first, rest, rfl⟩ := List.exists_cons_of_ne_nil hne
    rw [htags] at htail
    obtain ⟨tag, htag, rfl⟩ := List.mem_map.mp htail
    obtain ⟨i, hi, e, -, rfl⟩ := exists_of_mem_tagsFrom htag
    exact (renameTag_hop (by omega)).symm
  · intro v hv
    rw [hnames] at hv
    obtain ⟨w, hw, rfl⟩ := List.mem_map.mp hv
    obtain ⟨tag, htag, rfl⟩ := List.mem_map.mp hw
    obtain ⟨i, -, e, -, rfl⟩ := exists_of_mem_tagsFrom htag
    by_cases hi : i = 0
    · rw [hi]
      exact .inl (renameTag_exit e)
    · exact .inr ⟨i, hi, e, renameTag_hop hi⟩
  · obtain ⟨first, rest, rfl⟩ := List.exists_cons_of_ne_nil hne
    rw [hnames]
    exact List.mem_cons_self

/-- The configuration that is built for a profile. -/
theorem buildTest_ok {ent : Profile} {config : CoreConfig}
    (hcustom : T.withCustomConfig ent = id) (h : buildTest E S T ent k = .ok config) :
    buildConfigSingBox E S ⟨some ent, true, k⟩ = .ok config := by
  unfold buildTest at h
  cases hbuilt : buildConfigSingBox E S ⟨some ent, true, k⟩ with
  | error e =>
    rw [hbuilt] at h
    cases h
  | ok config' =>
    rw [hbuilt] at h
    have heq := Except.ok.inj h
    simp only [hcustom, id_eq, ite_self] at heq
    rw [heq]

/-- What a profile adds to the batch. -/
theorem perm_added {ent : Profile} {config : CoreConfig}
    (hplain : ∀ e, e = ent ∨ (∃ id, E.getProfile id = some e) → e.Plain)
    (hmembers : (resolveChainInternal E ent).1 ≠ [])
    (h : buildConfigSingBox E S ⟨some ent, true, k⟩ = .ok config) :
    ∃ l : List JsonObject, ((config.outbounds ++ config.endpoints).filterMap (added k)).Perm l ∧
      Closed tagOf Detours l ∧ (∀ v ∈ l.map tagOf, OfNumber k v) ∧
        .string (exitTag k) ∈ l.map tagOf := by
  obtain ⟨chain, st, -, herror, hst, rfl⟩ := buildConfigSingBox_ok E S _ h
  obtain rfl : outboundsInit E S ⟨some ent, true, k⟩ chain = st := Except.ok.inj hst
  obtain ⟨ents, hents, hbuilt, hperm⟩ := perm_outboundsInit (S := S) rfl herror chain
  obtain ⟨hne, hmem⟩ := mem_chainList hents
  have hall : ∀ e ∈ ents, e.Plain := fun e he => hplain e (hmem e he)
  refine ⟨_, ?_, @closed_rename E k ents hall hbuilt (hne hmembers)⟩
  refine (hperm.filterMap (added k)).trans ?_
  have hbuiltin : builtinOutbounds.filterMap (added k) = [] := rfl
  rw [List.filterMap_append, hbuiltin, List.append_nil, @List.filterMap_congr _ _ _ (some ∘ rename k),
    List.filterMap_eq_map]
  intro o ho
  obtain ⟨i, e, -, htext⟩ := text_tag_hop hall hbuilt ho
  unfold added
  rw [htext, isSkipped_hop, if_neg Bool.false_ne_true]
  rfl

/-! ## The loop over the profiles -/

/-- The profiles that get a number. -/
def counted (T : Tester) (profiles : List Profile) : List Profile :=
  profiles.filter fun item => T.hasBean item && item.type ≠ "extracore" && T.isValid item

/-- The conditions: profiles that leave their tags alone, chains that have members, and no
    sections of the user's own. -/
structure TestRegular (E : Environment) (S : Settings) (T : Tester) (profiles : List Profile) :
    Prop where
  plain : ∀ id e, E.getProfile id = some e → e.Plain
  profiles_plain : ∀ ent ∈ profiles, ent.Plain
  members : ∀ ent ∈ profiles, (resolveChainInternal E ent).1 ≠ []
  custom : ∀ ent ∈ profiles, T.withCustomConfig ent = id
  dns : S.useDnsObject = false

/-- The configuration kept is that of the first profile without a full one. -/
structure First (E : Environment) (S : Settings) (done before : List Profile) (ent : Profile)
    (results : TestBatch) (config : CoreConfig) : Prop where
  split : ∃ after, done = before ++ ent :: after
  before_full : ∀ e ∈ before, e.isFull = true
  not_full : ent.isFull = false
  members : (resolveChainInternal E ent).1 ≠ []
  kept : results.coreConfig = some config
  built : buildConfigSingBox E S ⟨some ent, true, (before.length + 1 : ℕ)⟩ = .ok config
  exit : .string (exitTag (before.length + 1)) ∈ results.objects.map tagOf

/-- The batch after the profiles that have got a number. -/
structure Batch (E : Environment) (S : Settings) (done : List Profile) (results : TestBatch) :
    Prop where
  closed : Closed tagOf Detours results.objects
  origin : ∀ v ∈ results.objects.map tagOf, v = .string "direct" ∨
    ∃ n e, done[n]? = some e ∧ e.isFull = false ∧ OfNumber (n + 1) v
  exits : ∀ tag ∈ results.outboundTags, .string tag ∈ results.objects.map tagOf
  first : (results.coreConfig = none ∧ results.directDomains = [] ∧ ∀ e ∈ done, e.isFull = true) ∨
    ∃ before ent config, First E S done before ent results config

theorem batch_init : Batch E S [] TestBatch.init where
  closed := closed_of_not_refers (by simp [TestBatch.objects, TestBatch.init]) fun o ho v hv => by
    obtain rfl := List.mem_singleton.mp ho
    exact hv.1 hv.2.symm
  origin v hv := .inl (List.mem_singleton.mp hv)
  exits _ h := nomatch h
  first := .inl ⟨rfl, rfl, nofun⟩

variable {done : List Profile} {results : TestBatch} {item : Profile}

theorem getElem?_of_append {n : ℕ} {e : Profile} (h : done[n]? = some e) (item : Profile) :
    (done ++ [item])[n]? = some e := by
  rw [List.getElem?_append_left (List.getElem?_eq_some_iff.mp h).1]
  exact h

theorem First.next {before : List Profile} {ent : Profile} {results' : TestBatch}
    {config : CoreConfig} (h : First E S done before ent results config) (item : Profile)
    (hkept : results'.coreConfig = results.coreConfig)
    (htags : ∀ v ∈ results.objects.map tagOf, v ∈ results'.objects.map tagOf) :
    First E S (done ++ [item]) before ent results' config := by
  obtain ⟨after, rfl⟩ := h.split
  refine { h with split := ⟨after ++ [item], ?_⟩, kept := hkept.trans h.kept, exit := htags _ h.exit }
  rw [List.append_assoc, List.cons_append]

/-- A profile that is not valid changes nothing else. -/
theorem Batch.invalid (h : Batch E S done results) (ids : List ℤ) :
    Batch E S done { results with invalid := ids } where
  closed := h.closed
  origin := h.origin
  exits := h.exits
  first := h.first.imp_right fun ⟨before, ent, config, hfirst⟩ => ⟨before, ent, config,
    { hfirst with }⟩

/-- A full configuration only takes a number. -/
theorem Batch.full (h : Batch E S done results) (hfull : item.isFull = true)
    (config : JsonObject) : Batch E S (done ++ [item])
      { results with fullConfigs := (item.id, config) :: results.fullConfigs } where
  closed := h.closed
  origin v hv := (h.origin v hv).imp_right fun ⟨n, e, hn, hrest⟩ =>
    ⟨n, e, getElem?_of_append hn item, hrest⟩
  exits := h.exits
  first := by
    rcases h.first with ⟨hnone, hdomains, hall⟩ | ⟨before, ent, config', hfirst⟩
    · refine .inl ⟨hnone, hdomains, fun e he => ?_⟩
      rcases List.mem_append.mp he with he | he
      · exact hall e he
      · exact List.mem_singleton.mp he ▸ hfull
    · exact .inr ⟨before, ent, config', hfirst.next item rfl fun v hv => hv⟩

/-- Another profile adds its objects. -/
theorem Batch.addConfig (h : Batch E S done results) (hfull : item.isFull = false)
    (hplain : ∀ e, e = item ∨ (∃ id, E.getProfile id = some e) → e.Plain)
    (hmembers : (resolveChainInternal E item).1 ≠ []) {config : CoreConfig}
    (hbuilt : buildConfigSingBox E S ⟨some item, true, (done.length + 1 : ℕ)⟩ = .ok config) :
    Batch E S (done ++ [item]) (results.addConfig (done.length + 1) item.id config) := by
  obtain ⟨l, hadded, hclosed, hnumber, hexit⟩ := perm_added hplain hmembers hbuilt
  have hperm : (results.addConfig (done.length + 1) item.id config).objects.Perm
      (results.objects ++ l) := (perm_addOutbounds _).trans (hadded.append_left _)
  obtain ⟨hcore, -, htags⟩ := @fields_addOutbounds { results with
    coreConfig := results.coreConfig.orElse fun _ => some config
    directDomains := results.directDomains ++ domainsOf config } (done.length + 1) item.id
      (config.outbounds ++ config.endpoints)
  have hmem : ∀ v, v ∈ (results.addConfig (done.length + 1) item.id config).objects.map tagOf ↔
      v ∈ results.objects.map tagOf ∨ v ∈ l.map tagOf := by
    intro v
    rw [(hperm.map tagOf).mem_iff, List.map_append, List.mem_append]
  have hlast : (done ++ [item])[done.length]? = some item := by simp
  constructor
  · refine (h.closed.append hclosed fun v hv hnew => ?_).perm hperm
    have hof := hnumber v hnew
    rcases h.origin v hv with heq | ⟨n, e, hn, -, hof'⟩
    · exact hof.ne_direct heq
    · have hlength := (List.getElem?_eq_some_iff.mp hn).1
      have hnumbers := OfNumber.unique (by omega) (by omega) hof hof'
      omega
  · intro v hv
    rcases (hmem v).mp hv with hv | hv
    · exact (h.origin v hv).imp_right fun ⟨n, e, hn, hrest⟩ =>
        ⟨n, e, getElem?_of_append hn item, hrest⟩
    · exact .inr ⟨done.length, item, hlast, hfull, hnumber v hv⟩
  · intro tag htag
    rw [hmem]
    rcases htags tag htag with htag | rfl
    · exact .inl (h.exits tag htag)
    · exact .inr hexit
  · right
    rcases h.first with ⟨hnone, -, hall⟩ | ⟨before, ent, config', hfirst⟩
    · refine ⟨done, item, config, ⟨[], rfl⟩, hall, hfull, hmembers, ?_, hbuilt,
        (hmem _).mpr (.inr hexit)⟩
      refine hcore.trans ?_
      rw [hnone]
      rfl
    · refine ⟨before, ent, config', hfirst.next item ?_ fun v hv => (hmem v).mpr (.inl hv)⟩
      refine hcore.trans ?_
      rw [hfirst.kept]
      rfl

/-- **The loop.** -/
theorem batch_addProfiles {items : List Profile} (hregular : TestRegular E S T items)
    {results' : TestBatch} (h : Batch E S done results)
    (hloop : addProfiles E S R T results done.length items = .ok results') :
    Batch E S (done ++ counted T items) results' := by
  induction items generalizing done results with
  | nil =>
    obtain rfl := Except.ok.inj hloop
    rwa [counted, List.filter_nil, List.append_nil]
  | cons item items ih =>
    have hrest : TestRegular E S T items :=
      { hregular with
        profiles_plain := fun ent hent => hregular.profiles_plain ent (List.mem_cons_of_mem _ hent)
        members := fun ent hent => hregular.members ent (List.mem_cons_of_mem _ hent)
        custom := fun ent hent => hregular.custom ent (List.mem_cons_of_mem _ hent) }
    have hskip (hnot : (T.hasBean item && item.type ≠ "extracore" && T.isValid item) = false) :
        counted T (item :: items) = counted T items :=
      List.filter_cons_of_neg (by rw [hnot]; decide)
    unfold addProfiles at hloop
    split_ifs at hloop with hbean hvalid hfull
    · rw [hskip]
      · exact ih hrest h hloop
      · simp only [Bool.or_eq_true, Bool.not_eq_true', decide_eq_true_eq] at hbean
        rcases hbean with hbean | hbean <;> simp [hbean]
    · rw [hskip]
      · exact ih hrest (h.invalid _) hloop
      · have hinvalid : T.isValid item = false := by simpa using hvalid
        rw [hinvalid, Bool.and_false]
    all_goals
      have hcounted : counted T (item :: items) = item :: counted T items := by
        refine List.filter_cons_of_pos ?_
        simp only [Bool.or_eq_true, Bool.not_eq_true', decide_eq_true_eq, not_or] at hbean hvalid
        simp [hbean.2, Bool.not_eq_false _ ▸ hbean.1, Bool.not_eq_false _ ▸ hvalid]
      rw [hcounted, ← List.singleton_append, ← List.append_assoc]
    · cases htest : buildFullTest E S R T item with
      | error e =>
        rw [htest] at hloop
        cases hloop
      | ok config =>
        rw [htest] at hloop
        refine ih hrest (h.full hfull config) ?_
        rwa [List.length_append, List.length_singleton]
    · cases htest : buildTest E S T item (done.length + 1) with
      | error e =>
        rw [htest] at hloop
        cases hloop
      | ok config =>
        rw [htest] at hloop
        dsimp only at hloop
        split_ifs at hloop
        have hplain : ∀ e, e = item ∨ (∃ id, E.getProfile id = some e) → e.Plain := by
          rintro e (rfl | ⟨id, hid⟩)
          · exact hregular.profiles_plain e List.mem_cons_self
          · exact hregular.plain id e hid
        have hbuilt := buildTest_ok (hregular.custom item List.mem_cons_self) htest
        refine ih hrest (h.addConfig (by simpa using hfull) hplain
          (hregular.members item List.mem_cons_self) hbuilt) ?_
        rwa [List.length_append, List.length_singleton]

/-! ## What the batch names -/

/-- The tags of the outbounds and endpoints. -/
def TestBatch.tags (results : TestBatch) : List Json := results.objects.map tagOf

/-- The outbounds, endpoints and DNS servers that are named are there. -/
structure TestBatch.Resolves (results : TestBatch) : Prop where
  closed : Closed tagOf Detours results.objects
  exits : ∀ tag ∈ results.outboundTags, .string tag ∈ results.tags
  servers : ∀ server ∈ results.dns.servers, ∀ key ∈ ["detour", "endpoint"],
    server.value key = .null ∨ server.value key ∈ results.tags
  final : ∀ tag ∈ results.dns.final, .string tag ∈ results.dns.tags
  rules : ∀ rule ∈ results.dns.rules, rule.value "server" ∈ results.dns.tags
  resolvers : ∀ server ∈ results.dns.servers,
    server.value "domain_resolver" = .null ∨ server.value "domain_resolver" ∈ results.dns.tags

theorem endpoint_dnsServers {job : Job} {tagProxy : String} {o : JsonObject}
    (h : o ∈ dnsServers S job tagProxy) :
    o.value "endpoint" = .null ∨ o.value "endpoint" = .string "proxy" := by
  have hbuilt : ∀ address, (buildDnsObject address).value "endpoint" = .null :=
    value_buildDnsObject (by decide)
  have hremote : ∀ o ∈ remoteServers S job tagProxy,
      o.value "endpoint" = .null ∨ o.value "endpoint" = .string "proxy" := by
    intro o ho
    unfold remoteServers at ho
    cases hent : job.ent with
    | none =>
      rw [hent] at ho
      cases ho
    | some ent =>
      rw [hent] at ho
      dsimp only at ho
      split_ifs at ho
      · obtain rfl := List.mem_singleton.mp ho
        exact .inr rfl
      · obtain rfl := List.mem_singleton.mp ho
        left
        rw [JsonObject.value_insert_of_ne (by decide), JsonObject.value_insert_of_ne (by decide),
          JsonObject.value_insert_of_ne (by decide), hbuilt]
  have hdirect : (directServer S).value "endpoint" = .null := by
    unfold directServer
    rw [JsonObject.value_insert_of_ne (by decide), JsonObject.value_insert_of_ne (by decide), hbuilt]
  have hlocal : (localServer S).value "endpoint" = .null := by
    unfold localServer
    rw [JsonObject.value_insert_of_ne (by decide), hbuilt]
  unfold dnsServers at h
  simp only [List.mem_append] at h
  rcases h with (h | h) | h
  · split_ifs at h
    · rcases List.mem_cons.mp h with rfl | h
      · exact .inl hdirect
      · exact hremote o h
    · rcases List.mem_append.mp h with h | h
      · exact hremote o h
      · obtain rfl := List.mem_singleton.mp h
        exact .inl hdirect
  · split_ifs at h
    · obtain rfl := List.mem_singleton.mp h
      exact .inl rfl
    · cases h
  · obtain rfl := List.mem_singleton.mp h
    exact .inl hlocal

/-- The remote server goes through the outbound `proxy`, or is its endpoint. -/
theorem exists_proxy_server {job : Job} {ent : Profile} (hjob : job.ent = some ent) :
    ∃ server ∈ dnsServers S job "proxy", ∃ key ∈ ["detour", "endpoint"],
      server.value key = .string "proxy" := by
  have hmem : ∀ server ∈ remoteServers S job "proxy", server ∈ dnsServers S job "proxy" := by
    intro server hserver
    unfold dnsServers
    refine List.mem_append_left _ (List.mem_append_left _ ?_)
    split_ifs
    · exact List.mem_cons_of_mem _ hserver
    · exact List.mem_append_left _ hserver
  unfold remoteServers at hmem
  rw [hjob] at hmem
  dsimp only at hmem
  split_ifs at hmem
  · exact ⟨_, hmem _ List.mem_cons_self, "endpoint", by decide, rfl⟩
  · exact ⟨_, hmem _ List.mem_cons_self, "detour", by decide, JsonObject.value_insert_self⟩

/-- The DNS section of the configuration kept. -/
theorem dns_of_built {ent : Profile} {config : CoreConfig} (hdns : S.useDnsObject = false)
    (hmembers : (resolveChainInternal E ent).1 ≠ [])
    (h : buildConfigSingBox E S ⟨some ent, true, k⟩ = .ok config) :
    config.dns.servers = dnsServers S ⟨some ent, true, k⟩ "proxy" ∧
      config.dns.final = if S.dnsFinalOutDirect then none else some "dns-remote" := by
  obtain ⟨chain, st, -, herror, -, rfl⟩ := buildConfigSingBox_ok E S _ h
  have htag := mainChain_tag (E := E) hmembers rfl herror
  unfold coreConfig buildDns
  rw [hdns, htag]
  exact ⟨rfl, rfl⟩

/-- With an outbound `proxy` everything is there. -/
theorem First.resolves {profiles before : List Profile} {ent : Profile} {config : CoreConfig}
    (hdns : S.useDnsObject = false) (h : Batch E S profiles results)
    (hfirst : First E S profiles before ent results config)
    (hproxy : .string "proxy" ∈ results.tags) : results.Resolves := by
  obtain ⟨hservers, hfinal⟩ := dns_of_built hdns hfirst.members hfirst.built
  have hsection : results.dns.servers = config.dns.servers ∧
      results.dns.final = config.dns.final ∧
      ∀ rule ∈ results.dns.rules, rule.value "server" = .string "dns-direct" := by
    unfold TestBatch.dns
    rw [hfirst.kept]
    refine ⟨rfl, rfl, fun rule hrule => ?_⟩
    dsimp only at hrule
    split_ifs at hrule
    · obtain rfl := List.mem_singleton.mp hrule
      rfl
    · cases hrule
  have htags : ∀ v, v ∈ results.dns.tags ↔ v = .string "dns-direct" ∨ v = .string "dns-local" ∨
      (v = .string "dns-remote" ∧ (some ent).isSome) ∨
        v = .string "dns-fake" ∧ S.fakeDns ∧
          (⟨some ent, true, (before.length + 1 : ℕ)⟩ : Job).blockAll = false := by
    intro v
    rw [Dns.tags, hsection.1, hservers]
    exact mem_tags_dnsServers
  refine ⟨h.closed, h.exits, ?_, ?_, ?_, ?_⟩
  · intro server hserver key hkey
    rw [hsection.1, hservers] at hserver
    simp only [List.mem_cons, List.not_mem_nil, or_false] at hkey
    rcases hkey with rfl | rfl
    · refine (detour_dnsServers hserver).imp_right fun heq => ?_
      rw [heq]
      exact hproxy
    · refine (endpoint_dnsServers hserver).imp_right fun heq => ?_
      rw [heq]
      exact hproxy
  · intro tag htag
    rw [hsection.2.1, hfinal] at htag
    split_ifs at htag
    · cases htag
    · obtain rfl := Option.some.inj htag
      exact (htags _).mpr (.inr (.inr (.inl ⟨rfl, rfl⟩)))
  · intro rule hrule
    rw [hsection.2.2 rule hrule]
    exact (htags _).mpr (.inl rfl)
  · intro server hserver
    rw [hsection.1, hservers] at hserver
    exact (resolver_dnsServers hserver).imp_right fun heq => (htags _).mpr (.inr (.inl heq))

end

end

/-- All profiles are valid. -/
def allValid : Tester where
  hasBean _ := true
  isValid _ := true
  name _ := ""
  customConfig _ := []
  withCustomConfig _ := id

/-- A profile with a configuration of its own. -/
def fullProfile : Profile :=
  { socksProfile 2 with type := "custom", core := "internal-full", configSimple := trojanConfig }

theorem testRegular_socks (profiles : List Profile) (h : profiles ⊆ [socksProfile 1, fullProfile]) :
    TestRegular socksEnvironment (tunSettings defaultChain) allValid profiles where
  plain id e he := by
    obtain rfl := Option.some.inj he
    exact ⟨rfl, rfl, rfl⟩
  profiles_plain ent hent := by
    rcases List.mem_pair.mp (h hent) with rfl | rfl <;> exact ⟨rfl, rfl, rfl⟩
  members ent hent := by
    rcases List.mem_pair.mp (h hent) with rfl | rfl <;> exact List.cons_ne_nil _ _
  custom _ _ := rfl
  dns := rfl

end NekoBox.Config
