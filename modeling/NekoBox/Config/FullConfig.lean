import NekoBox.Config.References
import NekoBox.Lib.Parts

/-!
# Full configurations

A profile of the type `custom` with the core `internal-full` holds a configuration of the
user's own. Before it is run, its DNS servers are replaced by the remote server of the
settings, under their old tags (`NormalizeFullConfigDnsForRuntime`, `ConfigBuilder.cpp`,
lines 90–155); its outbounds are completed and their servers resolved (lines 74–88 and
157–204).

* `dnsClosed_iff`: when what the DNS section names is there before, it is there after if and
  only if the configuration has an outbound `proxy` for the servers to go through, and the
  remote server is not made to resolve its own name.
-/

namespace NekoBox.Config

open NekoBox.Store NekoBox.Lib

/-! ## JSON -/

/-- `toObject()` -/
def asObject : Json → JsonObject
  | .object o => o
  | _ => []

/-- `object[key].toString()` -/
def JsonObject.text (o : JsonObject) (key : String) : String := (o.value key).toString

/-- `object.remove(key)` -/
def JsonObject.remove (o : JsonObject) (key : String) : JsonObject := o.filter fun m => m.1 ≠ key

theorem JsonObject.value_remove_of_ne {o : JsonObject} {key k : String} (h : key ≠ k) :
    (o.remove key).value k = o.value k :=
  value_filter fun _ => decide_eq_true h.symm

theorem JsonObject.value_remove_self {o : JsonObject} {key : String} :
    (o.remove key).value key = .null := by
  unfold remove
  induction o with
  | nil => rfl
  | cons m o ih =>
    obtain ⟨k, v⟩ := m
    by_cases hk : k = key
    · rw [List.filter_cons_of_neg (by simpa using hk)]
      exact ih
    · rw [List.filter_cons_of_pos (by simpa using hk), value, if_neg hk]
      exact ih

theorem mem_objectsOf {l : List Json} {o : JsonObject} : o ∈ objectsOf l ↔ .object o ∈ l := by
  unfold objectsOf
  rw [List.mem_filterMap]
  constructor
  · rintro ⟨v, hv, hobject⟩
    cases v with
    | object o' =>
      obtain rfl := Option.some.inj hobject
      exact hv
    | _ => cases hobject
  · exact fun h => ⟨_, h, rfl⟩

/-! ## `NormalizeFullConfigDnsForRuntime` -/

section

variable (E : Environment) (S : Settings)

/-- `remoteDnsAddress` (lines 95–99) -/
def remoteDnsAddress : String :=
  if S.remoteDns = "" ∨ startsWith "local" S.remoteDns ∨ S.remoteDns = "localhost" then
    "tls://8.8.8.8"
  else S.remoteDns

/-- A server that makes addresses up. -/
def isFakeServer (server : JsonObject) : Bool :=
  server.text "type" = "fakeip" ∨ server.text "address" = "fakeip"

/-- The tag of the server at a place (lines 106–109). -/
def serverTag (n : ℕ) (server : JsonObject) : String :=
  if server.text "tag" = "" then "dns-" ++ number n else server.text "tag"

/-- A server of the kind `fakeip` (lines 110–118). -/
def cleanFakeServer (tag : String) (server : JsonObject) : JsonObject :=
  (((((server.remove "address_resolver").insert "tag" (.string tag)).insert "type"
    (.string "fakeip")).remove "address").remove "domain_resolver").remove "detour"

/-- `IsIpAddress` of the remote server -/
def remoteIsIp : Bool :=
  E.isIpAddress ((buildDnsObject (remoteDnsAddress S)).text "server")

/-- What any other server becomes (lines 120–125). -/
def remoteServer (tag : String) : JsonObject :=
  let server := ((buildDnsObject (remoteDnsAddress S)).insert "tag" (.string tag)).insert "detour"
    (.string "proxy")
  if !E.isIpAddress (server.text "server") then
    server.insert "domain_resolver" (.string "dns-local")
  else server

/-- `cleanServers` and `firstDnsTag` -/
structure CleanServers where
  servers : List Json
  firstDnsTag : String

/-- One turn of the loop over the servers (lines 100–129). -/
def addServer (st : CleanServers) (serverRef : Json) : CleanServers :=
  match serverRef with
  | .object server =>
    let tag := serverTag st.servers.length server
    if isFakeServer (JsonObject.remove server "address_resolver") then
      { st with servers := st.servers ++ [.object (cleanFakeServer tag server)] }
    else
      { servers := st.servers ++ [.object (remoteServer E S tag)]
        firstDnsTag := if st.firstDnsTag = "" then tag else st.firstDnsTag }
  | serverRef => { st with servers := st.servers ++ [serverRef] }

/-- `dns-local` for a configuration that has none (lines 140–142). -/
def fullLocalServer : JsonObject := (buildDnsObject "local").insert "tag" (.string "dns-local")

/-- The object under a key. -/
def JsonObject.section (config : JsonObject) (key : String) : JsonObject :=
  asObject (config.value key)

/-- `NormalizeFullConfigDnsForRuntime` -/
def normalizeFullConfigDnsForRuntime (config : JsonObject) : JsonObject :=
  let dns := config.section "dns"
  let clean := (toArray (dns.value "servers")).foldl (addServer E S) ⟨[], ""⟩
  let hasLocal := clean.servers.any fun serverRef =>
    JsonObject.text (asObject serverRef) "tag" = "dns-local"
  let cleanServers :=
    if hasLocal then clean.servers else clean.servers ++ [.object fullLocalServer]
  let dns :=
    if clean.firstDnsTag ≠ "" then dns.insert "final" (.string clean.firstDnsTag) else dns
  let config :=
    if clean.firstDnsTag ≠ "" then
      config.insert "route" (.object ((config.section "route").insert "default_domain_resolver"
        (.object [("server", .string clean.firstDnsTag)])))
    else config
  if cleanServers ≠ [] then
    config.insert "dns" (.object (dns.insert "servers" (.array cleanServers)))
  else config

end

/-! ## What the DNS section names -/

/-- The objects of an array. -/
def JsonObject.objects (o : JsonObject) (key : String) : List JsonObject :=
  objectsOf (toArray (o.value key))

/-- The texts under `tag`; an empty one is none. -/
def tagsOf (objects : List JsonObject) : List String :=
  (objects.map fun o => JsonObject.text o "tag").filter (· ≠ "")

/-- The tags of the outbounds and endpoints. -/
def outboundTags (config : JsonObject) : List String :=
  tagsOf (config.objects "outbounds" ++ config.objects "endpoints")

def dnsServersOf (config : JsonObject) : List JsonObject := (config.section "dns").objects "servers"

/-- The server that resolves a name: it is named by its tag, or in an object. -/
def resolverOf : Json → String
  | .object o => JsonObject.text o "server"
  | v => v.toString

/-- Nothing is named, or a tag that is there. -/
def Present (tags : List String) (s : String) : Prop := s = "" ∨ s ∈ tags

instance (tags : List String) (s : String) : Decidable (Present tags s) :=
  inferInstanceAs (Decidable (_ ∨ _))

/-- The servers and outbounds that the DNS section names are there, as is the default
    resolver, and no server is to resolve its own name. -/
structure DnsClosed (config : JsonObject) : Prop where
  final : Present (tagsOf (dnsServersOf config)) ((config.section "dns").text "final")
  default : Present (tagsOf (dnsServersOf config))
    (resolverOf ((config.section "route").value "default_domain_resolver"))
  rules : ∀ rule ∈ (config.section "dns").objects "rules",
    Present (tagsOf (dnsServersOf config)) (rule.text "server")
  resolvers : ∀ server ∈ dnsServersOf config,
    Present (tagsOf (dnsServersOf config)) (resolverOf (server.value "domain_resolver"))
  grounded : ∀ server ∈ dnsServersOf config, resolverOf (server.value "domain_resolver") = "" ∨
    resolverOf (server.value "domain_resolver") ≠ server.text "tag"
  detours : ∀ server ∈ dnsServersOf config,
    Present (outboundTags config) (server.text "detour")

/-- Some server is reached through the remote one. -/
def HasRemote (config : JsonObject) : Prop :=
  ∃ server ∈ dnsServersOf config, isFakeServer server = false

/-- The server named `dns-local`, which is to resolve the name of the remote server, is reached
    through it. -/
def LocalIsRemote (config : JsonObject) : Prop :=
  ∃ server ∈ dnsServersOf config,
    isFakeServer server = false ∧ server.text "tag" = "dns-local"

/-! ## The servers of the result -/

section

variable {E : Environment} {S : Settings}

/-- What a server becomes. -/
def cleanServer (E : Environment) (S : Settings) (n : ℕ) (server : JsonObject) : JsonObject :=
  if isFakeServer server then cleanFakeServer (serverTag n server) server
  else remoteServer E S (serverTag n server)

def cleanRef (E : Environment) (S : Settings) (n : ℕ) : Json → Json
  | .object server => .object (cleanServer E S n server)
  | v => v

theorem isFakeServer_remove (server : JsonObject) :
    isFakeServer (JsonObject.remove server "address_resolver") = isFakeServer server := by
  unfold isFakeServer JsonObject.text
  rw [JsonObject.value_remove_of_ne (by decide), JsonObject.value_remove_of_ne (by decide)]

theorem serverTag_ne_empty (n : ℕ) (server : JsonObject) : serverTag n server ≠ "" := by
  unfold serverTag
  split_ifs with h
  · intro heq
    have hlist := congrArg String.toList heq
    rw [String.toList_append] at hlist
    cases hlist
  · exact h

theorem serverTag_local {n : ℕ} {server : JsonObject} :
    serverTag n server = "dns-local" ↔ server.text "tag" = "dns-local" := by
  unfold serverTag
  split_ifs with h
  · rw [h]
    constructor
    · intro heq
      have hlist := congrArg String.toList heq
      rw [String.toList_append] at hlist
      have hdigits : (number (n : ℤ)).toList = "local".toList := List.append_cancel_left hlist
      have hrepr : (number (n : ℤ)) = n.repr := rfl
      rw [hrepr] at hdigits
      have hmem : 'l' ∈ n.repr.toList := hdigits ▸ List.mem_cons_self
      exact absurd hmem (Parts.not_mem_repr n (by decide))
    · exact fun heq => absurd heq (by decide)
  · exact Iff.rfl

theorem servers_foldl (l : List Json) (st : CleanServers) :
    (l.foldl (addServer E S) st).servers =
      st.servers ++ l.mapIdx fun i => cleanRef E S (st.servers.length + i) := by
  induction l generalizing st with
  | nil => simp
  | cons v l ih =>
    have hservers : (addServer E S st v).servers =
        st.servers ++ [cleanRef E S st.servers.length v] := by
      cases v with
      | object server =>
        unfold addServer cleanRef cleanServer
        dsimp only
        rw [isFakeServer_remove]
        split_ifs <;> rfl
      | _ => rfl
    rw [List.foldl_cons, ih, hservers, List.mapIdx_cons, List.append_assoc, List.length_append,
      List.length_singleton]
    simp only [List.singleton_append, Nat.add_zero, Nat.add_assoc, Nat.add_comm 1]

/-- The first tag of a remote server. -/
theorem firstDnsTag_foldl (l : List Json) (st : CleanServers) :
    (st.firstDnsTag ≠ "" ∧ (l.foldl (addServer E S) st).firstDnsTag = st.firstDnsTag) ∨
      (st.firstDnsTag = "" ∧ (l.foldl (addServer E S) st).firstDnsTag = "" ∧
        ∀ server ∈ objectsOf l, isFakeServer server = true) ∨
      (st.firstDnsTag = "" ∧ ∃ i server, l[i]? = some (.object server) ∧
        isFakeServer server = false ∧
          (l.foldl (addServer E S) st).firstDnsTag = serverTag (st.servers.length + i) server) := by
  induction l generalizing st with
  | nil =>
    by_cases hst : st.firstDnsTag = ""
    · exact .inr (.inl ⟨hst, hst, nofun⟩)
    · exact .inl ⟨hst, rfl⟩
  | cons v l ih =>
    have hlength : (addServer E S st v).servers.length = st.servers.length + 1 := by
      have hservers := servers_foldl (E := E) (S := S) [v] st
      rw [List.foldl_cons, List.foldl_nil] at hservers
      rw [hservers, List.length_append, List.length_mapIdx, List.length_singleton]
    have hskip : (addServer E S st v).firstDnsTag = st.firstDnsTag →
        (∀ server, v = .object server → st.firstDnsTag = "" → isFakeServer server = true) →
        (st.firstDnsTag ≠ "" ∧
          ((v :: l).foldl (addServer E S) st).firstDnsTag = st.firstDnsTag) ∨
        (st.firstDnsTag = "" ∧ ((v :: l).foldl (addServer E S) st).firstDnsTag = "" ∧
          ∀ server ∈ objectsOf (v :: l), isFakeServer server = true) ∨
        (st.firstDnsTag = "" ∧ ∃ i server, (v :: l)[i]? = some (.object server) ∧
          isFakeServer server = false ∧ ((v :: l).foldl (addServer E S) st).firstDnsTag =
            serverTag (st.servers.length + i) server) := by
      intro hfirst hfake
      rcases ih (addServer E S st v) with ⟨hne, heq⟩ | ⟨hempty, heq, hall⟩ |
        ⟨hempty, i, server, hi, hremote, heq⟩
      · rw [hfirst] at hne heq
        exact .inl ⟨hne, heq⟩
      · rw [hfirst] at hempty
        refine .inr (.inl ⟨hempty, heq, fun server hserver => ?_⟩)
        rcases List.mem_cons.mp (mem_objectsOf.mp hserver) with hv | hmem
        · exact hfake server hv.symm hempty
        · exact hall server (mem_objectsOf.mpr hmem)
      · rw [hfirst] at hempty
        refine .inr (.inr ⟨hempty, i + 1, server, hi, hremote, ?_⟩)
        rw [List.foldl_cons, heq, hlength, Nat.add_assoc, Nat.add_comm 1]
    cases v with
    | object server =>
      by_cases hfake : isFakeServer server
      · apply hskip
        · unfold addServer
          dsimp only
          rw [isFakeServer_remove, if_pos hfake]
        · intro server' hv _
          exact Json.object.inj hv ▸ hfake
      · have hfirst : (addServer E S st (.object server)).firstDnsTag =
            if st.firstDnsTag = "" then serverTag st.servers.length server else st.firstDnsTag := by
          unfold addServer
          dsimp only
          rw [isFakeServer_remove, if_neg hfake]
        by_cases hst : st.firstDnsTag = ""
        · rw [if_pos hst] at hfirst
          have hne := serverTag_ne_empty st.servers.length server
          rcases ih (addServer E S st (.object server)) with ⟨-, heq⟩ | ⟨hempty, -⟩ | ⟨hempty, -⟩
          · refine .inr (.inr ⟨hst, 0, server, rfl, by simpa using hfake, ?_⟩)
            rw [List.foldl_cons, heq, hfirst]
            rfl
          · exact absurd (hfirst.symm.trans hempty) hne
          · exact absurd (hfirst.symm.trans hempty) hne
        · rw [if_neg hst] at hfirst
          apply hskip hfirst
          exact fun _ _ hempty => absurd hempty hst
    | _ => exact hskip rfl nofun

theorem text_tag_cleanServer (n : ℕ) (server : JsonObject) :
    (cleanServer E S n server).text "tag" = serverTag n server := by
  unfold cleanServer JsonObject.text
  by_cases hfake : isFakeServer server
  · rw [if_pos hfake, cleanFakeServer, JsonObject.value_remove_of_ne (by decide),
      JsonObject.value_remove_of_ne (by decide), JsonObject.value_remove_of_ne (by decide),
      JsonObject.value_insert_of_ne (by decide), JsonObject.value_insert_self]
    rfl
  · rw [if_neg hfake]
    unfold remoteServer
    dsimp only
    split_ifs
    · rw [JsonObject.value_insert_of_ne (by decide), JsonObject.value_insert_of_ne (by decide),
        JsonObject.value_insert_self]
      rfl
    · rw [JsonObject.value_insert_of_ne (by decide), JsonObject.value_insert_self]
      rfl

/-- The server that resolves the name of a server of the result. -/
theorem resolver_cleanServer (n : ℕ) (server : JsonObject) :
    resolverOf ((cleanServer E S n server).value "domain_resolver") =
      if isFakeServer server = false ∧ remoteIsIp E S = false then "dns-local" else "" := by
  unfold cleanServer
  by_cases hfake : isFakeServer server
  · rw [if_pos hfake, if_neg (by simp [hfake]), cleanFakeServer,
      JsonObject.value_remove_of_ne (by decide), JsonObject.value_remove_self]
    rfl
  · rw [if_neg hfake]
    have hip : (((buildDnsObject (remoteDnsAddress S)).insert "tag"
        (.string (serverTag n server))).insert "detour" (.string "proxy")).text "server" =
          (buildDnsObject (remoteDnsAddress S)).text "server" := by
      unfold JsonObject.text
      rw [JsonObject.value_insert_of_ne (by decide), JsonObject.value_insert_of_ne (by decide)]
    unfold remoteServer remoteIsIp
    dsimp only
    rw [hip]
    cases E.isIpAddress ((buildDnsObject (remoteDnsAddress S)).text "server") with
    | true =>
      rw [if_neg (by decide), if_neg (by simp), JsonObject.value_insert_of_ne (by decide),
        JsonObject.value_insert_of_ne (by decide), value_buildDnsObject (by decide)]
      rfl
    | false =>
      rw [if_pos (by decide), if_pos ⟨by simpa using hfake, rfl⟩, JsonObject.value_insert_self]
      rfl

theorem text_detour_cleanServer (n : ℕ) (server : JsonObject) :
    (cleanServer E S n server).text "detour" = if isFakeServer server then "" else "proxy" := by
  unfold cleanServer JsonObject.text
  by_cases hfake : isFakeServer server
  · rw [if_pos hfake, if_pos hfake, cleanFakeServer, JsonObject.value_remove_self]
    rfl
  · rw [if_neg hfake, if_neg hfake]
    unfold remoteServer
    dsimp only
    split_ifs
    · rw [JsonObject.value_insert_of_ne (by decide), JsonObject.value_insert_self]
      rfl
    · rw [JsonObject.value_insert_self]
      rfl

/-! ## The result -/

/-- The servers after the loop. -/
def cleanServers (E : Environment) (S : Settings) (config : JsonObject) : CleanServers :=
  (toArray ((config.section "dns").value "servers")).foldl (addServer E S) ⟨[], ""⟩

def hasLocal (servers : List Json) : Bool :=
  servers.any fun serverRef => JsonObject.text (asObject serverRef) "tag" = "dns-local"

/-- The array of servers. -/
def allServers (E : Environment) (S : Settings) (config : JsonObject) : List Json :=
  if hasLocal (cleanServers E S config).servers then (cleanServers E S config).servers
  else (cleanServers E S config).servers ++ [.object fullLocalServer]

theorem allServers_ne_nil (config : JsonObject) : allServers E S config ≠ [] := by
  unfold allServers
  split_ifs with h
  · intro hnil
    rw [hnil] at h
    cases h
  · exact List.append_ne_nil_of_right_ne_nil _ (List.cons_ne_nil _ _)

/-- What the function changes. -/
structure Normalized (config config' : JsonObject) (firstDnsTag : String) (servers : List Json) :
    Prop where
  servers : (config'.section "dns").value "servers" = .array servers
  rules : (config'.section "dns").value "rules" = (config.section "dns").value "rules"
  final : (config'.section "dns").value "final" =
    if firstDnsTag ≠ "" then .string firstDnsTag else (config.section "dns").value "final"
  default : (config'.section "route").value "default_domain_resolver" =
    if firstDnsTag ≠ "" then .object [("server", .string firstDnsTag)]
    else (config.section "route").value "default_domain_resolver"
  route : ∀ key, key ≠ "default_domain_resolver" →
    (config'.section "route").value key = (config.section "route").value key
  others : ∀ key, key ≠ "dns" → key ≠ "route" → config'.value key = config.value key

theorem normalized (E : Environment) (S : Settings) (config : JsonObject) :
    Normalized config (normalizeFullConfigDnsForRuntime E S config)
      (cleanServers E S config).firstDnsTag (allServers E S config) := by
  have heq : normalizeFullConfigDnsForRuntime E S config =
      (if (cleanServers E S config).firstDnsTag ≠ "" then
        config.insert "route" (.object ((config.section "route").insert "default_domain_resolver"
          (.object [("server", .string (cleanServers E S config).firstDnsTag)])))
      else config).insert "dns" (.object ((if (cleanServers E S config).firstDnsTag ≠ "" then
        (config.section "dns").insert "final" (.string (cleanServers E S config).firstDnsTag)
      else config.section "dns").insert "servers" (.array (allServers E S config)))) := by
    unfold normalizeFullConfigDnsForRuntime
    exact if_pos (allServers_ne_nil config)
  have hdns : (normalizeFullConfigDnsForRuntime E S config).section "dns" =
      (if (cleanServers E S config).firstDnsTag ≠ "" then
        (config.section "dns").insert "final" (.string (cleanServers E S config).firstDnsTag)
      else config.section "dns").insert "servers" (.array (allServers E S config)) := by
    rw [heq, JsonObject.section, JsonObject.value_insert_self]
    rfl
  constructor
  · rw [hdns, JsonObject.value_insert_self]
  · rw [hdns, JsonObject.value_insert_of_ne (by decide)]
    split_ifs
    · rw [JsonObject.value_insert_of_ne (by decide)]
    · rfl
  · rw [hdns, JsonObject.value_insert_of_ne (by decide)]
    split_ifs
    · rw [JsonObject.value_insert_self]
    · rfl
  · rw [heq, JsonObject.section, JsonObject.value_insert_of_ne (by decide)]
    split_ifs
    · rw [JsonObject.value_insert_self]
      exact JsonObject.value_insert_self
    · rfl
  · intro key hkey
    rw [heq, JsonObject.section, JsonObject.value_insert_of_ne (by decide)]
    split_ifs
    · rw [JsonObject.value_insert_self]
      exact JsonObject.value_insert_of_ne hkey.symm
    · rfl
  · intro key hdnsKey hrouteKey
    rw [heq, JsonObject.value_insert_of_ne hdnsKey.symm]
    split_ifs
    · rw [JsonObject.value_insert_of_ne hrouteKey.symm]
    · rfl

theorem mem_tagsOf {objects : List JsonObject} {s : String} :
    s ∈ tagsOf objects ↔ s ≠ "" ∧ ∃ o ∈ objects, JsonObject.text o "tag" = s := by
  unfold tagsOf
  rw [List.mem_filter, List.mem_map, decide_eq_true_iff, and_comm]

/-- The servers of the result. -/
theorem mem_dnsServersOf {config server : JsonObject} :
    server ∈ dnsServersOf (normalizeFullConfigDnsForRuntime E S config) ↔
      (∃ i o, (toArray ((config.section "dns").value "servers"))[i]? = some (.object o) ∧
        server = cleanServer E S i o) ∨
      (server = fullLocalServer ∧ hasLocal (cleanServers E S config).servers = false) := by
  have hclean : .object server ∈ (cleanServers E S config).servers ↔
      ∃ i o, (toArray ((config.section "dns").value "servers"))[i]? = some (.object o) ∧
        server = cleanServer E S i o := by
    rw [cleanServers, servers_foldl, List.nil_append, List.mem_iff_getElem?]
    constructor
    · rintro ⟨i, hi⟩
      rw [List.getElem?_mapIdx, Option.map_eq_some_iff] at hi
      obtain ⟨v, hv, hi⟩ := hi
      cases v with
      | object o =>
        refine ⟨i, o, hv, ?_⟩
        rw [List.length_nil, Nat.zero_add] at hi
        exact (Json.object.inj hi).symm
      | _ => cases hi
    · rintro ⟨i, o, ho, rfl⟩
      refine ⟨i, ?_⟩
      rw [List.getElem?_mapIdx, ho, List.length_nil, Nat.zero_add]
      rfl
  rw [← hclean, dnsServersOf, JsonObject.objects, (normalized E S config).servers, mem_objectsOf,
    toArray, allServers]
  split_ifs with hlocal
  · simp [hlocal]
  · rw [List.mem_append, List.mem_singleton, Json.object.injEq]
    simp [hlocal]

theorem mem_dnsServersOf_iff {config server : JsonObject} : server ∈ dnsServersOf config ↔
    ∃ i : ℕ, (toArray ((config.section "dns").value "servers"))[i]? = some (Json.object server) := by
  rw [dnsServersOf, JsonObject.objects, mem_objectsOf, List.mem_iff_getElem?]

/-- The server at a place is there with its tag. -/
theorem serverTag_mem {config server : JsonObject} {i : ℕ}
    (h : (toArray ((config.section "dns").value "servers"))[i]? = some (.object server)) :
    serverTag i server ∈ tagsOf (dnsServersOf (normalizeFullConfigDnsForRuntime E S config)) :=
  mem_tagsOf.mpr ⟨serverTag_ne_empty i server, _, mem_dnsServersOf.mpr (.inl ⟨i, server, h, rfl⟩),
    text_tag_cleanServer i server⟩

/-- No tag is lost. -/
theorem tags_normalize {config : JsonObject} {s : String} (h : s ∈ tagsOf (dnsServersOf config)) :
    s ∈ tagsOf (dnsServersOf (normalizeFullConfigDnsForRuntime E S config)) := by
  obtain ⟨hne, server, hserver, rfl⟩ := mem_tagsOf.mp h
  obtain ⟨i, hi⟩ := mem_dnsServersOf_iff.mp hserver
  have htag : serverTag i server = JsonObject.text server "tag" := if_neg hne
  exact htag ▸ serverTag_mem hi

theorem local_mem (config : JsonObject) :
    "dns-local" ∈ tagsOf (dnsServersOf (normalizeFullConfigDnsForRuntime E S config)) := by
  cases hlocal : hasLocal (cleanServers E S config).servers with
  | false =>
    exact mem_tagsOf.mpr ⟨by decide, _, mem_dnsServersOf.mpr (.inr ⟨rfl, hlocal⟩), rfl⟩
  | true =>
    obtain ⟨serverRef, hmem, htag⟩ := List.any_eq_true.mp hlocal
    have htag' := of_decide_eq_true htag
    cases serverRef with
    | object server =>
      refine mem_tagsOf.mpr ⟨by decide, server, ?_, htag'⟩
      rw [dnsServersOf, JsonObject.objects, (normalized E S config).servers, mem_objectsOf, toArray,
        allServers, if_pos hlocal]
      exact hmem
    | _ => exact absurd (show "" = "dns-local" from htag') (by decide)

/-- The first remote server becomes the default one. -/
theorem firstDnsTag_cases (config : JsonObject) :
    ((cleanServers E S config).firstDnsTag = "" ∧ ¬ HasRemote config) ∨
      ((cleanServers E S config).firstDnsTag ≠ "" ∧ (cleanServers E S config).firstDnsTag ∈
        tagsOf (dnsServersOf (normalizeFullConfigDnsForRuntime E S config))) := by
  rcases firstDnsTag_foldl (E := E) (S := S)
    (toArray ((config.section "dns").value "servers")) ⟨[], ""⟩ with
    ⟨hne, -⟩ | ⟨-, hempty, hall⟩ | ⟨-, i, server, hi, hremote, heq⟩
  · exact absurd rfl hne
  · refine .inl ⟨hempty, ?_⟩
    rintro ⟨server, hserver, hremote⟩
    rw [hall server hserver] at hremote
    cases hremote
  · rw [List.length_nil, Nat.zero_add] at heq
    have hmem := serverTag_mem (E := E) (S := S) hi
    rw [← heq] at hmem
    exact .inr ⟨(mem_tagsOf.mp hmem).1, hmem⟩

theorem outboundTags_normalize (config : JsonObject) :
    outboundTags (normalizeFullConfigDnsForRuntime E S config) = outboundTags config := by
  unfold outboundTags JsonObject.objects
  rw [(normalized E S config).others "outbounds" (by decide) (by decide),
    (normalized E S config).others "endpoints" (by decide) (by decide)]

theorem Present.normalize {config : JsonObject} {s : String}
    (h : Present (tagsOf (dnsServersOf config)) s) :
    Present (tagsOf (dnsServersOf (normalizeFullConfigDnsForRuntime E S config))) s :=
  h.imp_right tags_normalize

/-- **DNS of a full configuration.** -/
theorem dnsClosed_iff {config : JsonObject} (h : DnsClosed config) :
    DnsClosed (normalizeFullConfigDnsForRuntime E S config) ↔
      (HasRemote config → "proxy" ∈ outboundTags config) ∧
        (LocalIsRemote config → remoteIsIp E S = true) := by
  have hnormal := normalized E S config
  constructor
  · intro hclosed
    constructor
    · rintro ⟨server, hserver, hremote⟩
      obtain ⟨i, hi⟩ := mem_dnsServersOf_iff.mp hserver
      have hdetour := hclosed.detours _ (mem_dnsServersOf.mpr (.inl ⟨i, server, hi, rfl⟩))
      rw [text_detour_cleanServer, hremote, outboundTags_normalize] at hdetour
      exact hdetour.resolve_left (by decide)
    · rintro ⟨server, hserver, hremote, htag⟩
      obtain ⟨i, hi⟩ := mem_dnsServersOf_iff.mp hserver
      have hgrounded := hclosed.grounded _ (mem_dnsServersOf.mpr (.inl ⟨i, server, hi, rfl⟩))
      change _ ∨ _ ≠ JsonObject.text _ "tag" at hgrounded
      rw [resolver_cleanServer, text_tag_cleanServer, serverTag_local.mpr htag] at hgrounded
      by_contra hip
      rw [if_pos ⟨hremote, by simpa using hip⟩] at hgrounded
      rcases hgrounded with hempty | hother
      · exact absurd hempty (by decide)
      · exact hother rfl
  · rintro ⟨hproxy, hlocal⟩
    constructor
    · rw [JsonObject.text, hnormal.final]
      rcases firstDnsTag_cases (E := E) (S := S) config with ⟨hempty, -⟩ | ⟨hne, hmem⟩
      · rw [if_neg (not_not.mpr hempty)]
        exact h.final.normalize
      · rw [if_pos hne]
        exact .inr hmem
    · rw [hnormal.default]
      rcases firstDnsTag_cases (E := E) (S := S) config with ⟨hempty, -⟩ | ⟨hne, hmem⟩
      · rw [if_neg (not_not.mpr hempty)]
        exact h.default.normalize
      · rw [if_pos hne]
        exact .inr hmem
    · intro rule hrule
      rw [JsonObject.objects, hnormal.rules] at hrule
      exact (h.rules rule hrule).normalize
    · intro server hserver
      rcases mem_dnsServersOf.mp hserver with ⟨i, o, -, rfl⟩ | ⟨rfl, -⟩
      · rw [resolver_cleanServer]
        split_ifs
        · exact .inr (local_mem config)
        · exact .inl rfl
      · exact .inl rfl
    · intro server hserver
      rcases mem_dnsServersOf.mp hserver with ⟨i, o, ho, rfl⟩ | ⟨rfl, -⟩
      · show _ ∨ _ ≠ JsonObject.text _ "tag"
        rw [resolver_cleanServer, text_tag_cleanServer]
        split_ifs with hremote
        · refine .inr fun heq => ?_
          have hip := hlocal ⟨o, mem_dnsServersOf_iff.mpr ⟨i, ho⟩, hremote.1,
            serverTag_local.mp heq.symm⟩
          rw [hremote.2] at hip
          cases hip
        · exact .inl rfl
      · exact .inl rfl
    · intro server hserver
      rw [outboundTags_normalize]
      rcases mem_dnsServersOf.mp hserver with ⟨i, o, ho, rfl⟩ | ⟨rfl, -⟩
      · rw [text_detour_cleanServer]
        split_ifs with hfake
        · exact .inl rfl
        · exact .inr (hproxy ⟨o, mem_dnsServersOf_iff.mpr ⟨i, ho⟩, by simpa using hfake⟩)
      · exact .inl rfl

end

/-- A configuration whose outbound has a name of its own. -/
def plainConfig : JsonObject :=
  [("dns", .object [("servers", .array [.object [("tag", .string "google"),
      ("address", .string "8.8.8.8")]]), ("final", .string "google")]),
    ("outbounds", .array [.object [("type", .string "socks"), ("tag", .string "out")]])]

theorem dnsClosed_plainConfig : DnsClosed plainConfig := by
  constructor <;> decide

/-- Its DNS server is made to go through an outbound that is not there. -/
theorem dnsClosed_iff_plainConfig :
    ¬ DnsClosed (normalizeFullConfigDnsForRuntime socksEnvironment (tunSettings defaultChain)
      plainConfig) := by
  intro hclosed
  have hproxy := ((dnsClosed_iff dnsClosed_plainConfig).mp hclosed).1
  exact absurd (hproxy ⟨_, List.mem_cons_self, by decide⟩) (by decide)

end NekoBox.Config
