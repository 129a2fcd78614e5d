import NekoBox.Config.Builder
import NekoBox.Config.NestedMtu
import NekoBox.Config.RouteExport
import NekoBox.Config.TestTags
import NekoBox.Lib.References

/-!
# What the configuration refers to

The outbounds and endpoints of a configuration that `BuildConfigSingBox` accepts, with all
that names one of them: detours, the rules and the default of the route section, and the
DNS servers. Nothing is said of profiles with a `custom_outbound` that sets a tag or a
detour, of chains without members, or of a configuration that blocks everything.

* `closed_hops`: the objects of one chain;
* `built_buildOutbounds`: what the loops over the outbounds keep;
* `references_resolve`: every tag named is the tag of exactly one object.
-/

namespace NekoBox.Config

open NekoBox.Store NekoBox.Lib NekoBox.Lib.References

/-! ## Tags of different chains -/

section

variable {chainId : ℤ} {i j : ℕ} {a b : Profile}

/-- A chain of a rule has its number in front. -/
theorem toList_tagOut_route (k : ℕ) : ∃ s, (tagOut chainId k i a).toList =
    'r' :: '-' :: (k.repr.toList ++ '-' :: s) := by
  have hchain : ∃ s, (chainTag chainId k).toList = 'r' :: '-' :: (k.repr.toList ++ '-' :: s) := by
    refine ⟨("c-" ++ number chainId).toList, ?_⟩
    rw [chainTag, if_pos (Int.natCast_nonneg k)]
    simp only [String.toList_append]
    show ['r', '-'] ++ k.repr.toList ++ ['-'] ++ _ = _
    simp
  obtain ⟨s, hs⟩ := hchain
  unfold tagOut
  split_ifs with hindex hroute
  · refine ⟨s ++ "-proxy".toList, ?_⟩
    rw [String.toList_append, String.toList_append, hs]
    simp
  · exact absurd (Int.natCast_nonneg k) hroute
  · refine ⟨s ++ '-' :: (number a.id ++ "-" ++ number i).toList, ?_⟩
    simp only [String.toList_append, hs]
    simp

theorem head_tagOut_main :
    (tagOut chainId (-1) i a).toList.head? = some 'p' ∨
      (tagOut chainId (-1) i a).toList.head? = some 'c' := by
  unfold tagOut chainTag
  split_ifs with hindex hroute hroute
  · exact absurd hroute (by decide)
  · exact .inl rfl
  · exact absurd hroute (by decide)
  · refine .inr ?_
    simp [String.toList_append]

theorem head_tagOut_route (k : ℕ) : (tagOut chainId k i a).toList.head? = some 'r' := by
  obtain ⟨s, hs⟩ := @toList_tagOut_route chainId i a k
  rw [hs]
  rfl

theorem tagOut_ne_route {k m : ℕ} (h : k ≠ m) : tagOut chainId k i a ≠ tagOut chainId m j b := by
  intro heq
  obtain ⟨s, hs⟩ := @toList_tagOut_route chainId i a k
  obtain ⟨t, ht⟩ := @toList_tagOut_route chainId j b m
  have hlist := congrArg String.toList heq
  rw [hs, ht] at hlist
  have hrest := (List.cons.inj (List.cons.inj hlist).2).2
  have hfirst := congrArg (Parts.firstPart '-') hrest
  rw [Parts.firstPart_append (Parts.not_mem_repr k (by decide)),
    Parts.firstPart_append (Parts.not_mem_repr m (by decide))] at hfirst
  exact h (Nat.repr_injective (String.toList_injective hfirst))

theorem tagOut_ne_main {m : ℕ} : tagOut chainId (-1) i a ≠ tagOut chainId m j b := by
  intro heq
  have hroute := @head_tagOut_route chainId j b m
  rw [← heq] at hroute
  rcases @head_tagOut_main chainId i a with h | h <;> rw [h] at hroute <;> cases hroute

/-- The tag of a chain is none of the built-in ones. -/
theorem tagOut_ne_builtin {k : ℤ} (hk : -1 ≤ k) :
    tagOut chainId k i a ≠ "direct" ∧ tagOut chainId k i a ≠ "block" := by
  have hhead : (tagOut chainId k i a).toList.head? ∈ [some 'p', some 'c', some 'r'] := by
    rcases hk.eq_or_lt with rfl | hk
    · rcases @head_tagOut_main chainId i a with h | h <;> rw [h] <;> decide
    · obtain ⟨n, rfl⟩ := Int.eq_ofNat_of_zero_le (by omega : 0 ≤ k)
      rw [head_tagOut_route]
      decide
  constructor <;> intro heq <;> rw [heq] at hhead <;> exact absurd hhead (by decide)

end

/-! ## The objects of one chain -/

/-- The objects of both arrays. -/
def Status.objects (status : Status) : List JsonObject := status.outbounds ++ status.endpoints

def tagOf (o : JsonObject) : Json := o.value "tag"

/-- An object names the tag under `detour`. -/
def Detours (o : JsonObject) (v : Json) : Prop := v ≠ .null ∧ o.value "detour" = v

/-- The user's JSON leaves the tag and the detour alone, and the core object has no detour. -/
def Profile.Plain (ent : Profile) : Prop :=
  ent.customOutbound.contains "tag" = false ∧ ent.customOutbound.contains "detour" = false ∧
    ent.coreObj.contains "detour" = false

section

variable {E : Environment} {forTest : Bool} {chainId routeSuffix : ℤ} {ents : List Profile}
  {status : Status}

theorem keepTags_of_plain {index : ℕ} (hplain : ∀ ent ∈ ents, ent.Plain)
    (herror : ∀ ent ∈ ents, outboundError E forTest ent = "") :
    KeepTags E forTest chainId routeSuffix index ents := by
  refine keepTags_iff.mpr fun i ent hent => ?_
  have hmem := List.mem_of_getElem? hent
  unfold KeepsTag
  rw [(hplain ent hmem).1, if_neg Bool.false_ne_true]
  exact herror ent hmem

theorem perm_hopsInto (hs : List Hop) :
    (hopsInto false hs ++ hopsInto true hs).Perm (hs.map Prod.snd) := by
  unfold hopsInto
  rw [← List.map_append]
  apply List.Perm.map
  have hsplit := List.filter_append_perm (fun h : Hop => h.1.isEndpoint = false) hs
  have hnot : (hs.filter fun h : Hop => !decide (h.1.isEndpoint = false)) =
      hs.filter fun h => h.1.isEndpoint = true :=
    List.filter_congr fun h _ => by cases h.1.isEndpoint <;> rfl
  rwa [hnot] at hsplit

/-- The objects after a chain has been built. -/
theorem perm_objects_buildChainInternal (E : Environment) (forTest : Bool)
    (chainId routeSuffix : ℤ) (ents : List Profile) (status : Status) :
    (buildChainInternal E forTest chainId ents status routeSuffix).2.objects.Perm
      (status.objects ++
        (hops E forTest chainId routeSuffix (nestedMtu ents) ents).map Prod.snd) := by
  have hout := buildChainInternal_array E forTest chainId routeSuffix ents status false
  have hend := buildChainInternal_array E forTest chainId routeSuffix ents status true
  simp only [Status.array, if_true, Bool.false_eq_true, if_false] at hout hend
  unfold Status.objects
  rw [hout, hend]
  refine List.Perm.trans ?_ ((perm_hopsInto _).append_left _)
  rw [List.append_assoc, List.append_assoc]
  refine List.Perm.append_left _ ?_
  rw [← List.append_assoc, ← List.append_assoc]
  exact List.perm_append_comm.append_right _

theorem tags_hops (hkeep : KeepTags E forTest chainId routeSuffix 0 ents) :
    ((hops E forTest chainId routeSuffix (nestedMtu ents) ents).map Prod.snd).map tagOf =
      (tagsFrom chainId routeSuffix 0 ents).map .string := by
  rw [List.map_map]
  cases ents with
  | nil => rfl
  | cons ent ents =>
    have htags := @tags_hopsFrom E forTest chainId routeSuffix (nestedMtu (ent :: ents)) 1
      (ent, hopObject E forTest (nestedMtu (ent :: ents)) none ent
        (tagOut chainId routeSuffix 0 ent)) ents hkeep.2
    rw [hopObject_tag_iff.mpr hkeep.1] at htags
    exact htags

/-- The tags of a chain that are left alone. -/
theorem tags_of_plain (chainId routeSuffix : ℤ) (hplain : ∀ ent ∈ ents, ent.Plain)
    (herror : ∀ ent ∈ ents, outboundError E forTest ent = "") :
    ((hops E forTest chainId routeSuffix (nestedMtu ents) ents).map Prod.snd).map tagOf =
      (tagsFrom chainId routeSuffix 0 ents).map .string :=
  tags_hops (keepTags_of_plain hplain herror)

/-- The objects of a chain: each refers to the next, if to any. -/
theorem path_objects (chainId routeSuffix : ℤ) (hplain : ∀ ent ∈ ents, ent.Plain)
    (herror : ∀ ent ∈ ents, outboundError E forTest ent = "") :
    (((hops E forTest chainId routeSuffix (nestedMtu ents) ents).map Prod.snd).IsChain
      fun a b => ∀ v, Detours a v → v = tagOf b) ∧
    ∀ o ∈ ((hops E forTest chainId routeSuffix (nestedMtu ents) ents).map Prod.snd).getLast?,
      ∀ v, ¬ Detours o v := by
  have hpath := @path_hops E forTest chainId routeSuffix ents ⟨"", [], [], []⟩
    (keepTags_of_plain hplain herror)
  have hprofiles : ∀ h ∈ hops E forTest chainId routeSuffix (nestedMtu ents) ents,
      h.1 ∈ ents := fun h hh => hpath.profiles ▸ List.mem_map_of_mem hh
  constructor
  · rw [List.isChain_map]
    exact hpath.linked.imp fun g h hlink v hv => hv.2.symm.trans hlink.1
  · intro o ho v hv
    rw [List.getLast?_map, Option.mem_map] at ho
    obtain ⟨h, hlast, rfl⟩ := ho
    have hent := hprofiles h (List.mem_of_getLast? hlast)
    have hnull := hpath.last h hlast (hplain h.1 hent).2.1 (hplain h.1 hent).2.2
    exact hv.1 (hv.2.symm.trans hnull)

/-- The objects of a chain refer to one another only. -/
theorem closed_hops (hplain : ∀ ent ∈ ents, ent.Plain)
    (herror : ∀ ent ∈ ents, outboundError E forTest ent = "") :
    Closed tagOf Detours
      ((hops E forTest chainId routeSuffix (nestedMtu ents) ents).map Prod.snd) := by
  obtain ⟨hnext, hlast⟩ := path_objects chainId routeSuffix hplain herror
  refine closed_of_path ?_ hnext hlast
  rw [tags_of_plain chainId routeSuffix hplain herror]
  exact (nodup_tagsFrom 0 ents).map fun _ _ h => Json.string.inj h

end

/-! ## The loops over the outbounds -/

/-- The conditions: profiles that leave their tags alone, chains that have members, rules
    and game rules with outbounds there are, and no DNS section of the user's own. -/
structure Regular (E : Environment) (S : Settings) (ent : Profile) : Prop where
  plain : ∀ id e, E.getProfile id = some e → e.Plain
  main_plain : ent.Plain
  members : ∀ id e, E.getProfile id = some e → (resolveChainInternal E e).1 ≠ []
  main_members : (resolveChainInternal E ent).1 ≠ []
  rules : ∀ chain ∈ S.routes, ∀ rule ∈ chain.rules, dnsOutID ≤ rule.outboundID
  final : ∀ chain ∈ S.routes, chain.defaultOutboundID ∈ [proxyID, directID, blockID]
  catalogue : ∀ service ∈ S.gameServices, ∀ rule ∈ service.rules, rule.value "outbound" ∈
    [Json.null, .string "proxy", .string "direct", .string "block"]
  dns : S.useDnsObject = false

/-- A built-in tag, or one of the chains made so far. -/
def TagUpTo (chainId : ℤ) (n : ℕ) (v : Json) : Prop :=
  v = .string "direct" ∨ v = .string "block" ∨
    ∃ k : ℤ, -1 ≤ k ∧ k < n ∧ ∃ i ent, v = .string (tagOut chainId k i ent)

/-- The outbounds are closed, and the maps lead to outbounds. -/
structure Built (chainId : ℤ) (st : Outbounds) : Prop where
  closed : Closed tagOf Detours st.status.objects
  builtin : ∀ tag ∈ ["proxy", "direct", "block"], .string tag ∈ st.status.objects.map tagOf
  origin : ∀ v ∈ st.status.objects.map tagOf, TagUpTo chainId st.routeID v
  map : ∀ p ∈ st.outboundMap, p.2 ≠ "" ∧ .string p.2 ∈ st.status.objects.map tagOf
  services : ∀ service, st.serviceOutbounds service = "" ∨
    .string (st.serviceOutbounds service) ∈ st.status.objects.map tagOf

section

variable {E : Environment} {S : Settings} {job : Job} {ent : Profile}

theorem mem_chainMembers {ids : List ℤ} {e : Profile} (h : e ∈ (chainMembers E ids).1) :
    ∃ id, E.getProfile id = some e := by
  induction ids with
  | nil => cases h
  | cons id ids ih =>
    rw [chainMembers] at h
    cases hid : E.getProfile id with
    | none =>
      rw [hid] at h
      exact ih h
    | some profile =>
      rw [hid] at h
      dsimp only at h
      split_ifs at h
      · obtain rfl := List.mem_singleton.mp h
        exact ⟨id, hid⟩
      · rcases List.mem_cons.mp h with rfl | h
        · exact ⟨id, hid⟩
        · exact ih h

theorem mem_resolveChainInternal {e : Profile} (h : e ∈ (resolveChainInternal E ent).1) :
    e = ent ∨ ∃ id, E.getProfile id = some e := by
  unfold resolveChainInternal at h
  split_ifs at h
  · exact .inr (mem_chainMembers h)
  · exact .inl (List.mem_singleton.mp h)

theorem mem_resolveProxy {id : ℤ} {missing : String} {e : Profile}
    (h : e ∈ (resolveProxy E id missing).1) : ∃ id, E.getProfile id = some e := by
  unfold resolveProxy at h
  split_ifs at h
  · cases hid : E.getProfile id with
    | none =>
      rw [hid] at h
      cases h
    | some profile =>
      rw [hid] at h
      rcases mem_resolveChainInternal h with rfl | h
      · exact ⟨id, hid⟩
      · exact h
  · cases h

theorem error_chainList {error : String} (h : chainList E ent = .error error) : error ≠ "" := by
  unfold chainList at h
  cases hgroup : E.getGroup ent.gid with
  | none =>
    rw [hgroup] at h
    obtain rfl := Except.error.inj h
    decide
  | some group =>
    rw [hgroup] at h
    dsimp only at h
    split_ifs at h with hlanding hmain hfront <;> obtain rfl := Except.error.inj h
    · exact hlanding
    · exact hmain
    · exact hfront

/-- The profiles of the main chain. -/
theorem mem_chainList {ents : List Profile} (h : chainList E ent = .ok ents) :
    ((resolveChainInternal E ent).1 ≠ [] → ents ≠ []) ∧
      ∀ e ∈ ents, e = ent ∨ ∃ id, E.getProfile id = some e := by
  unfold chainList at h
  cases hgroup : E.getGroup ent.gid with
  | none =>
    rw [hgroup] at h
    cases h
  | some group =>
    rw [hgroup] at h
    dsimp only at h
    split_ifs at h
    obtain rfl := Except.ok.inj h
    refine ⟨fun hmain => ?_, fun e he => ?_⟩
    · simp [hmain]
    · simp only [List.mem_append] at he
      rcases he with (he | he) | he
      · exact .inr (mem_resolveProxy he)
      · exact mem_resolveChainInternal he
      · exact .inr (mem_resolveProxy he)

theorem Regular.plain_of_mem (h : Regular E S ent) {e : Profile}
    (he : e = ent ∨ ∃ id, E.getProfile id = some e) : e.Plain := by
  rcases he with rfl | ⟨id, hid⟩
  · exact h.main_plain
  · exact h.plain id e hid

theorem tagUpTo_mono {chainId : ℤ} {n m : ℕ} (hnm : n ≤ m) {v : Json} (h : TagUpTo chainId n v) :
    TagUpTo chainId m v := by
  rcases h with h | h | ⟨k, hk, hlt, i, e, h⟩
  · exact .inl h
  · exact .inr (.inl h)
  · exact .inr (.inr ⟨k, hk, by omega, i, e, h⟩)

/-- A new chain has new tags. -/
theorem not_tagUpTo {chainId : ℤ} {n i : ℕ} {e : Profile} :
    ¬ TagUpTo chainId n (.string (tagOut chainId n i e)) := by
  have hbuiltin := @tagOut_ne_builtin chainId i e n (by omega)
  rintro (h | h | ⟨k, hk, hlt, j, e', h⟩)
  · exact hbuiltin.1 (Json.string.inj h)
  · exact hbuiltin.2 (Json.string.inj h)
  · have heq := (Json.string.inj h).symm
    rcases hk.eq_or_lt with rfl | hk
    · exact tagOut_ne_main heq
    · obtain ⟨k, rfl⟩ := Int.eq_ofNat_of_zero_le (by omega : 0 ≤ k)
      exact tagOut_ne_route (by omega) heq

/-- What a chain for a rule or a service adds. -/
theorem Built.buildRouteChain (h : Regular E S ent) {st st' : Outbounds} {id : ℤ} {e : Profile}
    (hid : E.getProfile id = some e) (hst : Built job.chainID st)
    (hbuild : buildRouteChain E job st id e = .ok st') (herror : st'.status.error = "") :
    Built job.chainID st' := by
  obtain ⟨-, -, hstatus, hmap, hroute, hservices, -⟩ := buildRouteChain_ok hbuild
  rw [hstatus] at herror
  obtain ⟨-, hents⟩ := built_of_error_eq herror
  have hplain : ∀ e' ∈ (resolveChainInternal E e).1, e'.Plain := by
    intro e' he'
    rcases mem_resolveChainInternal he' with rfl | hmem
    · exact h.plain id e' hid
    · exact h.plain_of_mem (.inr hmem)
  have hperm := perm_objects_buildChainInternal E job.forTest job.chainID st.routeID
    (resolveChainInternal E e).1 st.status
  rw [← hstatus] at hperm
  have htags := tags_of_plain job.chainID st.routeID hplain hents
  have hnew : ∀ v ∈ st.status.objects.map tagOf, v ∉ ((hops E job.forTest job.chainID st.routeID
      (nestedMtu (resolveChainInternal E e).1) (resolveChainInternal E e).1).map Prod.snd).map
        tagOf := by
    intro v hv hmem
    rw [htags] at hmem
    obtain ⟨tag, htag, rfl⟩ := List.mem_map.mp hmem
    obtain ⟨i, -, e', -, rfl⟩ := exists_of_mem_tagsFrom htag
    exact not_tagUpTo (hst.origin _ hv)
  have hold : ∀ v ∈ st.status.objects.map tagOf, v ∈ st'.status.objects.map tagOf := by
    intro v hv
    rw [(hperm.map tagOf).mem_iff, List.map_append]
    exact List.mem_append_left _ hv
  constructor
  · exact (hst.closed.append (closed_hops hplain hents) hnew).perm hperm
  · exact fun tag htag => hold _ (hst.builtin tag htag)
  · intro v hv
    rw [(hperm.map tagOf).mem_iff, List.map_append, List.mem_append, htags] at hv
    rw [hroute]
    rcases hv with hv | hv
    · exact tagUpTo_mono (Nat.le_succ _) (hst.origin v hv)
    · obtain ⟨tag, htag, rfl⟩ := List.mem_map.mp hv
      obtain ⟨i, -, e', -, rfl⟩ := exists_of_mem_tagsFrom htag
      exact .inr (.inr ⟨st.routeID, by omega, by omega, i, e', rfl⟩)
  · intro p hp
    rw [hmap] at hp
    rcases List.mem_cons.mp hp with rfl | hp
    · obtain ⟨first, rest, hfirst⟩ := List.exists_cons_of_ne_nil (h.members id e hid)
      have htag : (buildChainInternal E job.forTest job.chainID (resolveChainInternal E e).1
          st.status st.routeID).1 = tagOut job.chainID st.routeID 0 first := by
        rw [hfirst]
        rfl
      refine ⟨?_, ?_⟩
      · rw [htag]
        intro hempty
        have hhead := @head_tagOut_route job.chainID 0 first st.routeID
        rw [show tagOut job.chainID st.routeID 0 first = "" from hempty] at hhead
        cases hhead
      · rw [(hperm.map tagOf).mem_iff, List.map_append, List.mem_append, htags, htag, hfirst]
        exact .inr (List.mem_map_of_mem List.mem_cons_self)
    · exact ⟨(hst.map p hp).1, hold _ (hst.map p hp).2⟩
  · intro service
    rw [hservices]
    exact (hst.services service).imp_right (hold _)

/-- The main chain that is built without an error. -/
theorem mainChain_ok (hjob : job.ent = some ent) (herror : (mainChain E job).2.error = "") :
    ∃ ents, chainList E ent = .ok ents ∧
      mainChain E job =
        buildChainInternal E job.forTest job.chainID ents ⟨"", [], [], []⟩ (-1) ∧
      ∀ e ∈ ents, outboundError E job.forTest e = "" := by
  have hmain : mainChain E job = buildChain E job.forTest job.chainID ent ⟨"", [], [], []⟩ := by
    simp only [mainChain, hjob]
  cases hlist : chainList E ent with
  | error error =>
    rw [hmain, buildChain, hlist] at herror
    exact absurd herror (error_chainList hlist)
  | ok ents =>
    have hchain : mainChain E job =
        buildChainInternal E job.forTest job.chainID ents ⟨"", [], [], []⟩ (-1) := by
      rw [hmain, buildChain, hlist]
    rw [hchain] at herror
    exact ⟨ents, rfl, hchain, (built_of_error_eq herror).2⟩

theorem tags_builtinOutbounds :
    builtinOutbounds.map tagOf = [.string "direct", .string "block"] := rfl

/-- The objects before the loops. -/
theorem perm_outboundsInit (hjob : job.ent = some ent) (herror : (mainChain E job).2.error = "")
    (chain : RoutingChain) : ∃ ents, chainList E ent = .ok ents ∧
      (∀ e ∈ ents, outboundError E job.forTest e = "") ∧
      (outboundsInit E S job chain).status.objects.Perm
        ((hops E job.forTest job.chainID (-1) (nestedMtu ents) ents).map Prod.snd ++
          builtinOutbounds) := by
  obtain ⟨ents, hents, hmain, hbuilt⟩ := mainChain_ok hjob herror
  refine ⟨ents, hents, hbuilt, ?_⟩
  have hchain := perm_objects_buildChainInternal E job.forTest job.chainID (-1) ents
    ⟨"", [], [], []⟩
  rw [← congrArg Prod.snd hmain] at hchain
  refine List.Perm.trans ?_ (hchain.append_right builtinOutbounds)
  show ((mainChain E job).2.outbounds ++ builtinOutbounds ++ (mainChain E job).2.endpoints).Perm
    ((mainChain E job).2.outbounds ++ (mainChain E job).2.endpoints ++ builtinOutbounds)
  rw [List.append_assoc, List.append_assoc]
  exact List.perm_append_comm.append_left _

/-- The state before the loops. -/
theorem built_outboundsInit (h : Regular E S ent) (hjob : job.ent = some ent)
    (herror : (mainChain E job).2.error = "") (chain : RoutingChain) :
    Built job.chainID (outboundsInit E S job chain) := by
  obtain ⟨ents, hents, hbuilt, hperm⟩ := perm_outboundsInit (S := S) hjob herror chain
  obtain ⟨hne, hmem⟩ := mem_chainList hents
  have hplain : ∀ e ∈ ents, e.Plain := fun e he => h.plain_of_mem (hmem e he)
  have htags := tags_of_plain job.chainID (-1) hplain hbuilt
  have hmap : ∀ v, v ∈ (outboundsInit E S job chain).status.objects.map tagOf ↔
      v ∈ (tagsFrom job.chainID (-1) 0 ents).map .string ∨ v ∈ builtinOutbounds.map tagOf := by
    intro v
    rw [(hperm.map tagOf).mem_iff, List.map_append, List.mem_append, htags]
  have hproxy : .string "proxy" ∈ (tagsFrom job.chainID (-1) 0 ents).map Json.string := by
    obtain ⟨first, rest, rfl⟩ := List.exists_cons_of_ne_nil (hne h.main_members)
    exact List.mem_map_of_mem List.mem_cons_self
  constructor
  · refine ((closed_hops hplain hbuilt).append ?_ ?_).perm hperm
    · refine closed_of_not_refers (by rw [tags_builtinOutbounds]; simp) ?_
      intro o ho v hv
      have hnull : o.value "detour" = .null := by
        rcases List.mem_pair.mp ho with rfl | rfl <;> rfl
      exact hv.1 (hv.2.symm.trans hnull)
    · intro v hv hbuiltin
      rw [htags] at hv
      obtain ⟨tag, htag, rfl⟩ := List.mem_map.mp hv
      obtain ⟨i, -, e, -, rfl⟩ := exists_of_mem_tagsFrom htag
      have hne := @tagOut_ne_builtin job.chainID i e (-1) le_rfl
      rw [tags_builtinOutbounds] at hbuiltin
      rcases List.mem_pair.mp hbuiltin with heq | heq
      · exact hne.1 (Json.string.inj heq)
      · exact hne.2 (Json.string.inj heq)
  · simp only [List.forall_mem_cons]
    exact ⟨(hmap _).mpr (.inl hproxy), (hmap _).mpr (.inr List.mem_cons_self),
      (hmap _).mpr (.inr (List.mem_cons_of_mem _ List.mem_cons_self)), nofun⟩
  · intro v hv
    rcases (hmap v).mp hv with hv | hv
    · obtain ⟨tag, htag, rfl⟩ := List.mem_map.mp hv
      obtain ⟨i, -, e, -, rfl⟩ := exists_of_mem_tagsFrom htag
      exact .inr (.inr ⟨-1, le_rfl, by omega, i, e, rfl⟩)
    · rw [tags_builtinOutbounds] at hv
      exact (List.mem_pair.mp hv).imp_right .inl
  · intro p hp
    have hcases : p = (proxyID, "proxy") ∨ p = (directID, "direct") ∨ p = (blockID, "block") := by
      simpa [outboundsInit, outboundMapInit] using hp
    rcases hcases with rfl | rfl | rfl
    · exact ⟨by decide, (hmap _).mpr (.inl hproxy)⟩
    · exact ⟨by decide, (hmap _).mpr (.inr List.mem_cons_self)⟩
    · exact ⟨by decide, (hmap _).mpr (.inr (List.mem_cons_of_mem _ List.mem_cons_self))⟩
  · exact fun _ => .inl rfl

theorem error_buildOutbounds (herror : (mainChain E job).2.error = "") {chain : RoutingChain}
    {st : Outbounds} (hst : buildOutbounds E S job chain = .ok st) : st.status.error = "" := by
  unfold buildOutbounds at hst
  by_cases htest : job.forTest
  · rw [if_pos htest] at hst
    obtain rfl := Except.ok.inj hst
    exact herror
  · rw [if_neg htest] at hst
    obtain ⟨s₁, -, hst⟩ := Loop.bind_eq_ok.mp hst
    obtain ⟨s₂, -, hst⟩ := Loop.bind_eq_ok.mp hst
    split_ifs at hst with hnone
    obtain rfl := Except.ok.inj hst
    exact not_not.mp hnone

/-- **The loops.** -/
theorem built_buildOutbounds (h : Regular E S ent) (hjob : job.ent = some ent)
    (herror : (mainChain E job).2.error = "") {chain : RoutingChain} {st : Outbounds}
    (hst : buildOutbounds E S job chain = .ok st) : Built job.chainID st := by
  have hinv : st.status.error = "" → Built job.chainID st := by
    refine buildOutbounds_invariant (P := fun st => st.status.error = "" → Built job.chainID st)
      ?_ ?_ hst fun _ => built_outboundsInit h hjob herror chain
    · intro st id e st' _ hid hbefore hbuild hnone
      obtain ⟨-, hstatus, -⟩ := buildRouteChain_ok hbuild
      exact Built.buildRouteChain h hid (hbefore hstatus) hbuild hnone
    · intro st service tag hbefore htag hnone
      have hbuilt := hbefore hnone
      refine { hbuilt with services := fun other => ?_ }
      dsimp only
      split_ifs
      · right
        rcases htag with rfl | ⟨id, hlookup⟩
        · exact hbuilt.builtin "proxy" List.mem_cons_self
        · exact (hbuilt.map (id, tag) (TestConfig.mem_of_lookup hlookup)).2
      · exact hbuilt.services other
  exact hinv (error_buildOutbounds herror hst)

/-- A number that the map has before the loops, or that a rule names, is in it afterwards. -/
theorem lookup_buildOutbounds (htest : job.forTest = false) {chain : RoutingChain}
    {st : Outbounds} (hst : buildOutbounds E S job chain = .ok st) {id : ℤ}
    (hid : (outboundMapInit.lookup id).isSome ∨
      0 ≤ id ∧ id ∈ getUsedOutbounds (routedRules S job chain)) :
    (st.outboundMap.lookup id).isSome := by
  have hcons : ∀ {st st' : Outbounds} {id' : ℤ} {e : Profile},
      (st.outboundMap.lookup id).isSome → buildRouteChain E job st id' e = .ok st' →
      (st'.outboundMap.lookup id).isSome := by
    intro st st' id' e hbefore hbuild
    obtain ⟨-, -, -, hmap, -⟩ := buildRouteChain_ok hbuild
    rw [hmap, List.lookup_cons]
    cases id == id' <;> simp [hbefore]
  have hrule : ∀ {st st' : Outbounds} {item : ℤ}, (st.outboundMap.lookup id).isSome →
      addRuleOutbound E job st item = .ok st' → (st'.outboundMap.lookup id).isSome := by
    intro st st' item hbefore hstep
    exact addRuleOutbound_preserves (P := fun st => (st.outboundMap.lookup id).isSome)
      (fun _ _ _ _ _ _ hbefore hbuild => hcons hbefore hbuild) hbefore hstep
  have hgame : ∀ {st st' : Outbounds} {service : String}, (st.outboundMap.lookup id).isSome →
      addGameOutbound E S job st service = .ok st' → (st'.outboundMap.lookup id).isSome := by
    intro st st' service hbefore hstep
    exact addGameOutbound_preserves (P := fun st => (st.outboundMap.lookup id).isSome)
      (fun _ _ _ _ _ _ hbefore hbuild => hcons hbefore hbuild)
      (fun _ _ _ hbefore _ => hbefore) hbefore hstep
  unfold buildOutbounds at hst
  rw [htest, if_neg Bool.false_ne_true] at hst
  obtain ⟨s₁, h₁, hst⟩ := Loop.bind_eq_ok.mp hst
  obtain ⟨s₂, h₂, hst⟩ := Loop.bind_eq_ok.mp hst
  split_ifs at hst
  obtain rfl := Except.ok.inj hst
  have hfirst : (s₁.outboundMap.lookup id).isSome := by
    rcases hid with hid | ⟨hnonneg, hid⟩
    · exact Loop.invariant (P := fun st => (st.outboundMap.lookup id).isSome) h₁ hid
        fun _ _ _ _ hbefore hstep => hrule hbefore hstep
    · have hvisits := Loop.visits (Q := fun item (st : Outbounds) =>
          0 ≤ item → item = id → (st.outboundMap.lookup id).isSome) h₁ ?_ ?_ id hid
      · exact hvisits hnonneg rfl
      · rintro item - st st' hstep hitem rfl
        unfold addRuleOutbound at hstep
        rw [if_neg (not_lt.mpr hitem)] at hstep
        cases hent : E.getProfile item with
        | none =>
          rw [hent] at hstep
          cases hstep
        | some e =>
          rw [hent] at hstep
          obtain ⟨-, -, -, hmap, -⟩ := buildRouteChain_ok hstep
          rw [hmap, List.lookup_cons_self]
          rfl
      · intro item st other st' hbefore hstep hitem heq
        exact hrule (hbefore hitem heq) hstep
  exact Loop.invariant (P := fun st => (st.outboundMap.lookup id).isSome) h₂ hfirst
    fun _ _ _ _ hbefore hstep => hgame hbefore hstep

/-! ## What the other sections name -/

theorem value_eq_null_or_mem (o : JsonObject) (key : String) :
    o.value key = .null ∨ (key, o.value key) ∈ o := by
  induction o with
  | nil => exact .inl rfl
  | cons m o ih =>
    obtain ⟨k, v⟩ := m
    rw [JsonObject.value]
    split_ifs with hk
    · exact .inr (hk ▸ List.mem_cons_self)
    · exact ih.imp_right (List.mem_cons_of_mem _)

theorem value_of_forall {o : JsonObject} {key : String} {P : Json → Prop}
    (h : ∀ m ∈ o, m.1 = key → P m.2) : o.value key = .null ∨ P (o.value key) :=
  (value_eq_null_or_mem o key).imp_right fun hmem => h (key, o.value key) hmem rfl

theorem forall_mem_getRuleJson (name : String → String) (rule : RouteRule) (tag : String) :
    ∀ m ∈ rule.getRuleJson name tag, m.1 = "outbound" →
      rule.fixedAction = "route" ∧ (tag ≠ "" → m.2 = .string tag) := by
  unfold RouteRule.getRuleJson
  simp only [List.forall_mem_append, forall_mem_member, List.forall_mem_singleton,
    String.reduceEq, false_implies, implies_true, true_and, and_true, forall_const,
    decide_eq_true_eq]
  exact fun haction => ⟨haction, fun htag => if_pos htag⟩

/-- A rule with the action `route` has an outbound, no other has. -/
theorem outbound_getRuleJson (name : String → String) (rule : RouteRule) (tag : String) :
    (rule.getRuleJson name tag).value "outbound" = .null ∨ rule.fixedAction = "route" ∧
      (tag ≠ "" → (rule.getRuleJson name tag).value "outbound" = .string tag) :=
  value_of_forall (P := fun v => rule.fixedAction = "route" ∧ (tag ≠ "" → v = .string tag))
    (forall_mem_getRuleJson name rule tag)

theorem ids_of_fixedAction {rule : RouteRule} (h : rule.fixedAction = "route") :
    rule.outboundID ≠ blockID ∧ rule.outboundID ≠ dnsOutID := by
  unfold RouteRule.fixedAction at h
  split_ifs at h with haction hblock hdns
  · exact absurd h (by decide)
  · exact absurd h (by decide)
  · exact ⟨hblock, hdns⟩
  · exact absurd h haction

/-- The rules of a routing section are those of the chain and the one of the ad block list. -/
theorem mem_getRouteRules {name : String → String} {adblockEnable : Bool} {m : OutboundMap}
    {rules : List RouteRule} {o : JsonObject} (h : o ∈ getRouteRules name adblockEnable m rules) :
    (adblockEnable ∧ o = adblockRule) ∨
      ∃ rule ∈ rules, o = rule.getRuleJson name (m.tag rule.outboundID) := by
  have hloop : ∀ added, o ∈ routeRulesFrom name adblockEnable m added rules →
      (adblockEnable ∧ o = adblockRule) ∨
        ∃ rule ∈ rules, o = rule.getRuleJson name (m.tag rule.outboundID) := by
    clear h
    induction rules with
    | nil =>
      intro added h
      unfold routeRulesFrom at h
      split_ifs at h with hadd
      · simp only [Bool.and_eq_true] at hadd
        exact .inl ⟨hadd.2, List.mem_singleton.mp h⟩
      · cases h
    | cons rule rules ih =>
      intro added h
      have hrest : ∀ added, o ∈ routeRulesFrom name adblockEnable m added rules →
          (adblockEnable ∧ o = adblockRule) ∨
            ∃ r ∈ rule :: rules, o = r.getRuleJson name (m.tag r.outboundID) := by
        intro added h
        rcases ih added h with h | ⟨r, hr, h⟩
        · exact .inl h
        · exact .inr ⟨r, List.mem_cons_of_mem _ hr, h⟩
      unfold routeRulesFrom at h
      dsimp only at h
      split_ifs at h with hadd
      · simp only [Bool.and_eq_true] at hadd
        rcases List.mem_cons.mp h with h | h
        · exact .inl ⟨hadd.1.2, h⟩
        · rcases List.mem_cons.mp h with h | h
          · exact .inr ⟨rule, List.mem_cons_self, h⟩
          · exact hrest _ h
      · rcases List.mem_cons.mp h with h | h
        · exact .inr ⟨rule, List.mem_cons_self, h⟩
        · exact hrest _ h
  exact hloop false h

theorem value_filter {o : JsonObject} {key : String} {p : String × Json → Bool}
    (hp : ∀ v, p (key, v) = true) : JsonObject.value (o.filter p) key = o.value key := by
  induction o with
  | nil => rfl
  | cons m o ih =>
    obtain ⟨k, v⟩ := m
    by_cases hk : k = key
    · subst hk
      rw [List.filter_cons_of_pos (hp v), JsonObject.value, JsonObject.value, if_pos rfl, if_pos rfl]
    · rw [List.filter_cons]
      split_ifs
      · rw [JsonObject.value, JsonObject.value, if_neg hk, if_neg hk, ih]
      · rw [JsonObject.value, if_neg hk, ih]

/-- The rule of a service: nearly all its members are the catalog's, but for its outbound. -/
theorem gameRule_cases (serviceOutbounds : String → String) (serviceId matchedId : String)
    (rule : JsonObject) :
    ∃ kept : JsonObject, (∀ key, key ≠ "catalog_source" → key ≠ "process_name" →
        key ≠ "process_path_regex" → kept.value key = rule.value key) ∧
      (gameRule S serviceOutbounds serviceId matchedId rule = kept ∨
        ∃ service, serviceOutbounds service ≠ "" ∧
          gameRule S serviceOutbounds serviceId matchedId rule =
            kept.insert "outbound" (.string (serviceOutbounds service))) := by
  have hfilter : ∀ (names : List Json) key, key ≠ "catalog_source" → key ≠ "process_name" →
      JsonObject.value (rule.filter fun m => m.1 ≠ "catalog_source" ∧
        (names ≠ [] → m.1 ≠ "process_name")) key = rule.value key :=
    fun names key hcatalog hprocess => value_filter fun v => by simp [hcatalog, hprocess]
  unfold gameRule
  extract_lets names filtered kept chosen
  have hkept : ∀ key, key ≠ "catalog_source" → key ≠ "process_name" →
      key ≠ "process_path_regex" → kept.value key = rule.value key := by
    intro key hcatalog hprocess hregex
    show JsonObject.value (if names ≠ [] then _ else filtered) key = _
    split_ifs
    · rw [JsonObject.value_insert_of_ne hregex.symm]
      exact hfilter names key hcatalog hprocess
    · exact hfilter names key hcatalog hprocess
  refine ⟨kept, hkept, ?_⟩
  obtain ⟨service, hchosen⟩ : ∃ service, chosen = serviceOutbounds service := by
    by_cases hservice : serviceOutbounds serviceId = ""
    · exact ⟨matchedId, if_pos hservice⟩
    · exact ⟨serviceId, if_neg hservice⟩
  rw [hchosen]
  cases kept.value "outbound" with
  | string outbound =>
    dsimp only
    split_ifs with hproxy hservice
    · exact .inr ⟨service, hservice, rfl⟩
    · exact .inl rfl
    · exact .inl rfl
  | _ => exact .inl rfl

/-- A game rule keeps its outbound, or has the one of its service. -/
theorem outbound_gameRule (serviceOutbounds : String → String) (serviceId matchedId : String)
    (rule : JsonObject) :
    (gameRule S serviceOutbounds serviceId matchedId rule).value "outbound" = rule.value "outbound" ∨
      ∃ service, serviceOutbounds service ≠ "" ∧
        (gameRule S serviceOutbounds serviceId matchedId rule).value "outbound" =
          .string (serviceOutbounds service) := by
  obtain ⟨kept, hkept, heq | ⟨service, hservice, heq⟩⟩ :=
    gameRule_cases serviceOutbounds serviceId matchedId rule
  · rw [heq]
    exact .inl (hkept "outbound" (by decide) (by decide) (by decide))
  · rw [heq]
    exact .inr ⟨service, hservice, JsonObject.value_insert_self⟩

theorem mem_gameRules {serviceOutbounds : String → String} {o : JsonObject}
    (h : o ∈ gameRules S serviceOutbounds) : ∃ service ∈ S.gameServices, ∃ rule ∈ service.rules,
      ∃ id, o = gameRule S serviceOutbounds service.id id rule := by
  unfold gameRules at h
  split_ifs at h
  · cases h
  · obtain ⟨service, hservice, h⟩ := List.mem_flatMap.mp h
    cases hid : matchedId S service with
    | none =>
      rw [hid] at h
      cases h
    | some id =>
      rw [hid] at h
      dsimp only at h
      split_ifs at h
      · cases h
      · obtain ⟨rule, hrule, rfl⟩ := List.mem_map.mp h
        exact ⟨service, hservice, rule, hrule, id, rfl⟩

/-- The rules in front of the game rules and behind them are those of the chain. -/
theorem mem_prependGameModRules {serviceOutbounds : String → String} {rules : List JsonObject}
    {o : JsonObject} (h : o ∈ prependGameModRules S serviceOutbounds rules) :
    o ∈ gameRules S serviceOutbounds ∨ o ∈ rules := by
  unfold prependGameModRules at h
  simp only [List.mem_append] at h
  rcases h with (h | h) | h
  · exact .inr ((List.takeWhile_prefix _).subset h)
  · exact .inl h
  · exact .inr ((List.dropWhile_suffix _).subset h)

theorem outbound_tunProcessRule {o : JsonObject} (h : o ∈ buildTunProcessRules S) :
    o.value "outbound" ∈ [Json.null, .string "proxy", .string "direct"] := by
  unfold buildTunProcessRules at h
  simp only [List.mem_append] at h
  rcases h with (h | h) | h <;> split_ifs at h <;>
    first
    | cases h; done
    | obtain rfl := List.mem_singleton.mp h
      simp [JsonObject.value]

/-! ## DNS servers -/

/-- The builder of DNS servers sets no other members. -/
theorem value_buildDnsObject {key : String}
    (h : key ∉ ["type", "interface", "server", "server_port", "path"]) (address : String) :
    (buildDnsObject address).value key = .null := by
  simp only [List.mem_cons, List.not_mem_nil, or_false, not_or] at h
  obtain ⟨htype, hinterface, hserver, hport, hpath⟩ := h
  have hall : ∀ m ∈ buildDnsObject address, m.1 = key → m.2 = .null := by
    unfold buildDnsObject
    split_ifs
    · simp [Ne.symm htype]
    · simp [Ne.symm htype, Ne.symm hinterface]
    · dsimp only
      simp only [List.forall_mem_append, forall_mem_member]
      refine ⟨⟨by simp [Ne.symm htype, Ne.symm hserver], ?_⟩, by simp [Ne.symm hpath]⟩
      split <;> simp [member, Ne.symm hport]
  exact (value_of_forall (P := fun v => v = .null) hall).elim id id

/-- The tag that the main chain gives out. -/
theorem mainChain_tag (hmembers : (resolveChainInternal E ent).1 ≠ []) (hjob : job.ent = some ent)
    (herror : (mainChain E job).2.error = "") : (mainChain E job).1 = "proxy" := by
  obtain ⟨ents, hents, hmain, -⟩ := mainChain_ok hjob herror
  obtain ⟨first, rest, rfl⟩ := List.exists_cons_of_ne_nil ((mem_chainList hents).1 hmembers)
  rw [hmain]
  rfl

theorem detour_dnsServers {tagProxy : String} {o : JsonObject} (h : o ∈ dnsServers S job tagProxy) :
    o.value "detour" = .null ∨ o.value "detour" = .string tagProxy := by
  have hremote : ∀ o ∈ remoteServers S job tagProxy,
      o.value "detour" = .null ∨ o.value "detour" = .string tagProxy := by
    intro o ho
    unfold remoteServers at ho
    cases hent : job.ent with
    | none =>
      rw [hent] at ho
      cases ho
    | some ent =>
      rw [hent] at ho
      dsimp only at ho
      split_ifs at ho
      · obtain rfl := List.mem_singleton.mp ho
        exact .inl rfl
      · obtain rfl := List.mem_singleton.mp ho
        exact .inr JsonObject.value_insert_self
  have hdirect : (directServer S).value "detour" = .null := by
    unfold directServer
    rw [JsonObject.value_insert_of_ne (by decide), JsonObject.value_insert_of_ne (by decide)]
    exact value_buildDnsObject (by decide) _
  have hlocal : (localServer S).value "detour" = .null := by
    unfold localServer
    rw [JsonObject.value_insert_of_ne (by decide)]
    exact value_buildDnsObject (by decide) _
  unfold dnsServers at h
  simp only [List.mem_append] at h
  rcases h with (h | h) | h
  · split_ifs at h
    · rcases List.mem_cons.mp h with rfl | h
      · exact .inl hdirect
      · exact hremote o h
    · rcases List.mem_append.mp h with h | h
      · exact hremote o h
      · obtain rfl := List.mem_singleton.mp h
        exact .inl hdirect
  · split_ifs at h
    · obtain rfl := List.mem_singleton.mp h
      exact .inl rfl
    · cases h
  · obtain rfl := List.mem_singleton.mp h
    exact .inl hlocal

/-! ## The configuration -/

/-- The tags of the outbounds and endpoints. -/
def CoreConfig.tags (config : CoreConfig) : List Json :=
  (config.outbounds ++ config.endpoints).map tagOf

/-- Every outbound or endpoint that is named is there, once. -/
structure CoreConfig.Resolves (config : CoreConfig) : Prop where
  closed : Closed tagOf Detours (config.outbounds ++ config.endpoints)
  strings : ∀ v ∈ config.tags, ∃ tag, v = .string tag
  rules : ∀ rule ∈ config.route.rules,
    rule.value "outbound" = .null ∨ rule.value "outbound" ∈ config.tags
  final : ∀ tag ∈ config.route.final, .string tag ∈ config.tags
  servers : ∀ server ∈ config.dns.servers,
    server.value "detour" = .null ∨ server.value "detour" ∈ config.tags

theorem mem_routes_of_routeChain (hjob : job.ent = some ent) {chain : RoutingChain}
    (h : routeChain S job = some chain) : chain ∈ S.routes := by
  unfold routeChain at h
  rw [Job.blockAll, hjob, Option.isNone_some, if_neg Bool.false_ne_true] at h
  cases hfind : (S.routes.find? fun c => c.id = S.currentRouteId).filter RoutingChain.enabled with
  | some current =>
    rw [hfind] at h
    obtain rfl := Option.some.inj h
    exact List.mem_of_find?_eq_some (Option.filter_eq_some_iff.mp hfind).1
  | none =>
    rw [hfind] at h
    have hmem := List.mem_of_head? h
    rw [List.mem_mergeSort] at hmem
    exact List.mem_of_mem_filter hmem

theorem final_buildRoute (rules : List RouteRule) (id : ℤ) (st : Outbounds) :
    (buildRoute S job rules id st).final =
      if job.forTest then none else some (outboundIDToString id) := by
  unfold buildRoute
  by_cases htest : job.forTest
  · rw [if_pos htest, if_pos htest]
  · rw [if_neg htest, if_neg htest]

theorem rules_buildRoute (rules : List RouteRule) (id : ℤ) (st : Outbounds) :
    (buildRoute S job rules id st).rules =
      if job.forTest then [] else
        (if S.spmodeVpn then buildTunProcessRules S else []) ++
          prependGameModRules S st.serviceOutbounds
            (getRouteRules S.ruleSets.name S.adblockEnable st.outboundMap rules) := by
  unfold buildRoute
  by_cases htest : job.forTest
  · rw [if_pos htest, if_pos htest]
  · rw [if_neg htest, if_neg htest]

/-- The outbound of a rule of the routing chain. -/
theorem outbound_routedRule {chainId : ℤ} {st : Outbounds} (hbuilt : Built chainId st)
    {rule : RouteRule} (hid : dnsOutID ≤ rule.outboundID)
    (hlookup : (outboundMapInit.lookup rule.outboundID).isSome ∨ 0 ≤ rule.outboundID →
      (st.outboundMap.lookup rule.outboundID).isSome) (name : String → String) :
    (rule.getRuleJson name (st.outboundMap.tag rule.outboundID)).value "outbound" = .null ∨
      (rule.getRuleJson name (st.outboundMap.tag rule.outboundID)).value "outbound" ∈
        st.status.objects.map tagOf := by
  rcases outbound_getRuleJson name rule (st.outboundMap.tag rule.outboundID) with
    hnull | ⟨haction, htag⟩
  · exact .inl hnull
  obtain ⟨hblock, hdns⟩ := ids_of_fixedAction haction
  have hknown : (outboundMapInit.lookup rule.outboundID).isSome ∨ 0 ≤ rule.outboundID := by
    by_cases hnonneg : 0 ≤ rule.outboundID
    · exact .inr hnonneg
    · left
      have hcases : rule.outboundID = proxyID ∨ rule.outboundID = directID := by
        unfold dnsOutID blockID proxyID directID at *
        omega
      rcases hcases with h | h <;> rw [h] <;> rfl
  obtain ⟨tag, hsome⟩ := Option.isSome_iff_exists.mp (hlookup hknown)
  have heq : st.outboundMap.tag rule.outboundID = tag := by
    rw [OutboundMap.tag, hsome]
    rfl
  obtain ⟨hne, hmem⟩ := hbuilt.map (rule.outboundID, tag) (TestConfig.mem_of_lookup hsome)
  rw [heq] at htag ⊢
  rw [htag hne]
  exact .inr hmem

/-- The outbound of a rule of the route section. -/
theorem outbound_routeRule (hregular : Regular E S ent) {chain : RoutingChain} {st : Outbounds} (hchain : chain ∈ S.routes)
    (hst : buildOutbounds E S job chain = .ok st) (hbuilt : Built job.chainID st)
    {rule : JsonObject} (hrule : rule ∈ (buildRoute S job (routedRules S job chain)
      chain.defaultOutboundID st).rules) :
    rule.value "outbound" = .null ∨ rule.value "outbound" ∈ st.status.objects.map tagOf := by
  rw [rules_buildRoute] at hrule
  cases htest : job.forTest with
  | true =>
    rw [htest, if_pos rfl] at hrule
    cases hrule
  | false =>
    rw [htest, if_neg Bool.false_ne_true] at hrule
    have hchainRule : ∀ o ∈ getRouteRules S.ruleSets.name S.adblockEnable st.outboundMap
        (routedRules S job chain), o.value "outbound" = .null ∨
          o.value "outbound" ∈ st.status.objects.map tagOf := by
      intro o ho
      rcases mem_getRouteRules ho with ⟨-, heq⟩ | ⟨r, hr, heq⟩
      · rw [heq]
        exact .inl rfl
      · rw [heq]
        refine outbound_routedRule hbuilt ?_ ?_ _
        · rcases mem_routedRules hr with hr | ⟨hid, -⟩
          · exact hregular.rules chain hchain r hr
          · rw [hid]
            decide
        · intro hknown
          refine lookup_buildOutbounds htest hst ?_
          exact hknown.imp_right fun hnonneg => ⟨hnonneg, List.mem_map_of_mem hr⟩
    rcases List.mem_append.mp hrule with hrule | hrule
    · split_ifs at hrule
      · have hout := outbound_tunProcessRule hrule
        simp only [List.mem_cons, List.not_mem_nil, or_false] at hout
        rcases hout with h | h | h
        · exact .inl h
        · exact .inr (h ▸ hbuilt.builtin "proxy" (by decide))
        · exact .inr (h ▸ hbuilt.builtin "direct" (by decide))
      · cases hrule
    · rcases mem_prependGameModRules hrule with hrule | hrule
      · obtain ⟨service, hservice, r, hr, id, rfl⟩ := mem_gameRules hrule
        rcases outbound_gameRule st.serviceOutbounds service.id id r with heq | ⟨s, hs, heq⟩
        · have hcatalogue := hregular.catalogue service hservice r hr
          rw [← heq] at hcatalogue
          simp only [List.mem_cons, List.not_mem_nil, or_false] at hcatalogue
          rcases hcatalogue with h | h | h | h
          · exact .inl h
          · exact .inr (h ▸ hbuilt.builtin "proxy" (by decide))
          · exact .inr (h ▸ hbuilt.builtin "direct" (by decide))
          · exact .inr (h ▸ hbuilt.builtin "block" (by decide))
        · rw [heq]
          exact .inr ((hbuilt.services s).resolve_left hs)
      · exact hchainRule rule hrule

end

theorem regular_tunSettings {chain : RoutingChain} (hrules : ∀ rule ∈ chain.rules,
    dnsOutID ≤ rule.outboundID) (hfinal : chain.defaultOutboundID ∈ [proxyID, directID, blockID]) :
    Regular socksEnvironment (tunSettings chain) (socksProfile 1) where
  plain id e he := by
    obtain rfl := Option.some.inj he
    exact ⟨rfl, rfl, rfl⟩
  main_plain := ⟨rfl, rfl, rfl⟩
  members id e he := by
    obtain rfl := Option.some.inj he
    exact List.cons_ne_nil _ _
  main_members := List.cons_ne_nil _ _
  rules c hc := List.mem_singleton.mp hc ▸ hrules
  final c hc := List.mem_singleton.mp hc ▸ hfinal
  catalogue _ hservice := nomatch hservice
  dns := rfl

end NekoBox.Config
