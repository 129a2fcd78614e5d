import NekoBox.Config.Chain
import NekoBox.Lib.Parts

/-!
# The path a chain makes

`BuildChainInternal` patches the object of a profile when it comes to the next
one. In closed form (`hops`), every object but the last gets a detour to the tag
handed out to its successor. Whether that is the successor's tag depends on its
`custom_outbound`, which is merged after the tag was set and may replace it.

* `buildChainInternal_array`: the objects appended to both arrays;
* `path_iff`: they form one path from the tag returned exactly when every object
  keeps the tag handed out to it.
-/

namespace NekoBox.Config

open NekoBox.Lib NekoBox.Store

/-! ## The arrays -/

/-- The outbounds or the endpoints. -/
def Status.array (status : Status) (endpoint : Bool) : List JsonObject :=
  if endpoint then status.endpoints else status.outbounds

theorem Status.array_append (status : Status) (e b : Bool) (o : JsonObject) :
    (status.append e o).array b = if e = b then status.array b ++ [o] else status.array b := by
  cases e <;> cases b <;> rfl

theorem Status.array_patch (status : Status) (e b : Bool) (tag : String) :
    (status.patch e tag).array b =
      if e = b then patchLast tag (status.array b) else status.array b := by
  cases e <;> cases b <;> rfl

theorem patchLast_concat (tag : String) (array : List JsonObject) (o : JsonObject) :
    patchLast tag (array ++ [o]) = array ++ [o.insert "detour" (.string tag)] := by
  unfold patchLast
  rw [List.getLast?_concat, List.dropLast_concat]

/-- A profile of the chain with the object made for it. -/
abbrev Hop := Profile × JsonObject

/-- The objects that go into one of the arrays. -/
def hopsInto (b : Bool) (hs : List Hop) : List JsonObject :=
  (hs.filter fun h => h.1.isEndpoint = b).map Prod.snd

theorem hopsInto_cons (b : Bool) (h : Hop) (hs : List Hop) :
    hopsInto b (h :: hs) = (if h.1.isEndpoint = b then [h.2] else []) ++ hopsInto b hs := by
  unfold hopsInto
  rw [List.filter_cons]
  split_ifs with hdecide heq heq
  · rfl
  · exact absurd (of_decide_eq_true hdecide) heq
  · exact absurd (decide_eq_true heq) hdecide
  · rfl

theorem hopsInto_singleton (b : Bool) (h : Hop) :
    hopsInto b [h] = if h.1.isEndpoint = b then [h.2] else [] := by
  rw [hopsInto_cons]
  exact List.append_nil _

/-- The array after an append. -/
theorem Status.array_append_hop (status : Status) (b : Bool) (h : Hop) :
    (status.append h.1.isEndpoint h.2).array b = status.array b ++ hopsInto b [h] := by
  rw [Status.array_append, hopsInto_singleton]
  split_ifs
  · rfl
  · exact (List.append_nil _).symm

/-- The objects are determined by the profiles and the arrays. -/
theorem hops_unique {hs hs' : List Hop} (hprofiles : hs.map Prod.fst = hs'.map Prod.fst)
    (harrays : ∀ b, hopsInto b hs = hopsInto b hs') : hs = hs' := by
  induction hs generalizing hs' with
  | nil => exact (List.map_eq_nil_iff.mp hprofiles.symm).symm
  | cons h hs ih =>
    cases hs' with
    | nil => cases hprofiles
    | cons h' hs' =>
      obtain ⟨hprofile, htail⟩ := List.cons.inj hprofiles
      have hsame : h.2 = h'.2 := by
        have harray := harrays h.1.isEndpoint
        rw [hopsInto_cons, hopsInto_cons, if_pos rfl, if_pos (by rw [hprofile])] at harray
        exact (List.cons.inj harray).1
      obtain rfl : h = h' := Prod.ext hprofile hsame
      rw [ih htail fun b => ?_]
      have harray := harrays b
      rw [hopsInto_cons, hopsInto_cons] at harray
      exact List.append_cancel_left harray

section

variable (E : Environment) (forTest : Bool) (chainId routeSuffix : ℤ) (mtu : ℤ → Option ℤ)

/-! ## The hops -/

/-- The hops from `h` on, `index` being that of its successor. -/
def hopsFrom (index : ℕ) (h : Hop) : List Profile → List Hop
  | [] => [h]
  | ent :: ents =>
    let tag := tagOut chainId routeSuffix index ent
    (h.1, h.2.insert "detour" (.string tag)) ::
      hopsFrom (index + 1) (ent, hopObject E forTest mtu (some h.1) ent tag) ents

def hops : List Profile → List Hop
  | [] => []
  | ent :: ents =>
    hopsFrom E forTest chainId routeSuffix mtu 1
      (ent, hopObject E forTest mtu none ent (tagOut chainId routeSuffix 0 ent)) ents

theorem map_fst_hopsFrom (index : ℕ) (h : Hop) (ents : List Profile) :
    (hopsFrom E forTest chainId routeSuffix mtu index h ents).map Prod.fst = h.1 :: ents := by
  induction ents generalizing index h with
  | nil => rfl
  | cons ent ents ih => exact congrArg (h.1 :: ·) (ih _ _)

theorem map_fst_hops (ents : List Profile) :
    (hops E forTest chainId routeSuffix mtu ents).map Prod.fst = ents := by
  cases ents with
  | nil => rfl
  | cons ent ents => exact map_fst_hopsFrom E forTest chainId routeSuffix mtu _ _ _

/-- One turn of the loop after the first: the last object is patched, one is
    appended. -/
theorem chainStep_array {base : Bool → List JsonObject} {index : ℕ} {h : Hop} (ent : Profile)
    {st : Status × Bool} (hindex : 0 < index)
    (hst : ∀ b, st.1.array b = base b ++ hopsInto b [h]) (hlast : st.2 = h.1.isEndpoint) (b : Bool) :
    (chainStep E forTest chainId routeSuffix mtu index (some h.1) ent st).1.array b =
      base b ++ hopsInto b
        [(h.1, h.2.insert "detour" (.string (tagOut chainId routeSuffix index ent)))] ++
      hopsInto b [(ent, hopObject E forTest mtu (some h.1) ent (tagOut chainId routeSuffix index ent))] := by
  have hpatch : (st.1.patch st.2 (tagOut chainId routeSuffix index ent)).array b =
      base b ++ hopsInto b
        [(h.1, h.2.insert "detour" (.string (tagOut chainId routeSuffix index ent)))] := by
    rw [Status.array_patch, hlast, hst, hopsInto_singleton, hopsInto_singleton]
    split_ifs
    · exact patchLast_concat _ _ _
    · rfl
  rw [← hpatch]
  unfold chainStep
  dsimp only
  rw [if_pos hindex]
  refine (Status.array_append_hop _ b (ent, _)).trans ?_
  cases b <;> rfl

/-- The loop after the first turn. -/
theorem chainLoop_array {base : Bool → List JsonObject} {index : ℕ} {h : Hop} {ents : List Profile}
    {st : Status × Bool} (hindex : 0 < index)
    (hst : ∀ b, st.1.array b = base b ++ hopsInto b [h]) (hlast : st.2 = h.1.isEndpoint) (b : Bool) :
    (chainLoop E forTest chainId routeSuffix mtu index (some h.1) ents st).1.array b =
      base b ++ hopsInto b (hopsFrom E forTest chainId routeSuffix mtu index h ents) := by
  induction ents generalizing base index h st with
  | nil => exact hst b
  | cons ent ents ih =>
    have hstep := @chainStep_array E forTest chainId routeSuffix mtu base index h ent st hindex hst hlast
    refine (ih (h := (ent, _)) (Nat.succ_pos index) hstep rfl).trans ?_
    rw [hopsInto_singleton, List.append_assoc, hopsFrom, hopsInto_cons]

/-- **The objects appended.** -/
theorem buildChainInternal_array (ents : List Profile) (status : Status) (b : Bool) :
    (buildChainInternal E forTest chainId ents status routeSuffix).2.array b =
      status.array b ++
        hopsInto b (hops E forTest chainId routeSuffix (nestedMtu ents) ents) := by
  cases ents with
  | nil => exact (List.append_nil _).symm
  | cons ent ents =>
    refine chainLoop_array E forTest chainId routeSuffix _ (h := (ent, _)) Nat.one_pos (fun b => ?_) rfl b
    unfold chainStep
    dsimp only
    rw [if_neg (lt_irrefl 0)]
    refine (Status.array_append_hop _ b (ent, _)).trans ?_
    cases b <;> rfl

/-! ## Tags -/

/-- What the user's JSON leaves of the tag handed out: it sets none, and the
    outbound is built without an error, or it sets this one. -/
def KeepsTag (index : ℕ) (ent : Profile) : Prop :=
  if ent.customOutbound.contains "tag" then
    ent.customOutbound.value "tag" = .string (tagOut chainId routeSuffix index ent)
  else outboundError E forTest ent = ""

end

section

variable {E : Environment} {forTest : Bool} {chainId routeSuffix : ℤ} {mtu : ℤ → Option ℤ}

/-- The members the builder adds to a core object. -/
theorem value_withMux {ent : Profile} {o : JsonObject} {key : String} (h : "multiplex" ≠ key) :
    (withMux E ent o).value key = o.value key := by
  unfold withMux
  split_ifs
  · exact JsonObject.value_insert_of_ne h
  · rfl

theorem value_withoutSystemTunnel {o : JsonObject} {key : String} (hawg : "useIntegratedTun" ≠ key)
    (hwireguard : "system" ≠ key) : (withoutSystemTunnel o).value key = o.value key := by
  unfold withoutSystemTunnel
  split
  · split_ifs
    · exact JsonObject.value_insert_of_ne hawg
    · exact JsonObject.value_insert_of_ne hwireguard
    · rfl
  · rfl

theorem value_withNesting {previous : Option Profile} {ent : Profile} {o : JsonObject} {key : String}
    (hmtu : "mtu" ≠ key) (haddress : "address" ≠ key) :
    (withNesting mtu previous ent o).value key = o.value key := by
  unfold withNesting
  split_ifs with hwg
  · cases mtu ent.id with
    | none =>
      dsimp only
      split_ifs
      · exact JsonObject.value_insert_of_ne haddress
      · rfl
    | some m =>
      dsimp only
      split_ifs
      · rw [JsonObject.value_insert_of_ne haddress, JsonObject.value_insert_of_ne hmtu]
      · exact JsonObject.value_insert_of_ne hmtu
  · rfl

theorem buildOutbound_tag {ent : Profile} {tag : String} (h : outboundError E forTest ent = "") :
    (buildOutbound E forTest ent tag).value "tag" = .string tag := by
  unfold buildOutbound
  rw [if_neg (not_not.mpr h), value_withMux (by decide), JsonObject.value_insert_self]

theorem buildOutbound_error {ent : Profile} {tag : String} (h : outboundError E forTest ent ≠ "") :
    buildOutbound E forTest ent tag = [] := if_pos h

theorem hopObject_value {previous : Option Profile} {ent : Profile} {tag key : String}
    (hmtu : "mtu" ≠ key) (haddress : "address" ≠ key) :
    (hopObject E forTest mtu previous ent tag).value key =
      if ent.customOutbound.contains key then
        mergeValue (ent.customOutbound.value key) ((buildOutbound E forTest ent tag).value key)
      else (buildOutbound E forTest ent tag).value key := by
  unfold hopObject
  rw [value_mergeJson, value_withNesting hmtu haddress]

/-- An object has the tag handed out to it exactly when it is kept. -/
theorem hopObject_tag_iff {previous : Option Profile} {ent : Profile} {index : ℕ} :
    (hopObject E forTest mtu previous ent (tagOut chainId routeSuffix index ent)).value "tag" =
        .string (tagOut chainId routeSuffix index ent) ↔
      KeepsTag E forTest chainId routeSuffix index ent := by
  rw [hopObject_value (by decide) (by decide)]
  unfold KeepsTag
  by_cases herror : outboundError E forTest ent = ""
  · rw [buildOutbound_tag herror, mergeValue_string]
    split_ifs
    · exact Iff.rfl
    · exact iff_of_true rfl herror
  · rw [buildOutbound_error herror]
    show (if _ then mergeValue _ Json.null else Json.null) = _ ↔ _
    rw [mergeValue_null]
    split_ifs
    · exact Iff.rfl
    · exact iff_of_false (fun h => by cases h) herror

/-- A profile that brings no detour gets none from the builder. -/
theorem hopObject_detour {previous : Option Profile} {ent : Profile} {tag : String}
    (hcustom : ent.customOutbound.contains "detour" = false)
    (hcore : ent.coreObj.contains "detour" = false) :
    (hopObject E forTest mtu previous ent tag).value "detour" = .null := by
  have hnone := JsonObject.value_of_not_contains hcore
  rw [hopObject_value (by decide) (by decide), hcustom, if_neg Bool.false_ne_true]
  by_cases herror : outboundError E forTest ent = ""
  · unfold buildOutbound
    rw [if_neg (not_not.mpr herror), value_withMux (by decide),
      JsonObject.value_insert_of_ne (by decide)]
    split_ifs
    · rw [value_withoutSystemTunnel (by decide) (by decide), hnone]
    · exact hnone
  · rw [buildOutbound_error herror]
    rfl

/-! ## Tags are distinct -/

/-- What follows the last dash of a tag is the index, or `proxy`. -/
def tagEnd (index : ℕ) : List Char := if index = 0 then "proxy".toList else (index : ℕ).repr.toList

theorem lastPart_tagOut (index : ℕ) (ent : Profile) :
    Parts.lastPart '-' (tagOut chainId routeSuffix index ent).toList = tagEnd index := by
  unfold tagOut tagEnd
  split_ifs with hindex hroute
  · have hsplit : (chainTag chainId routeSuffix ++ "-" ++ "proxy").toList =
        (chainTag chainId routeSuffix).toList ++ '-' :: "proxy".toList := by
      simp [String.toList_append]
    rw [hsplit]
    exact Parts.lastPart_append (by decide)
  · exact Parts.lastPart_self (by decide)
  · have hsplit : (chainTag chainId routeSuffix ++ "-" ++ number ent.id ++ "-" ++ number index).toList =
        (chainTag chainId routeSuffix ++ "-" ++ number ent.id).toList ++ '-' :: index.repr.toList := by
      rw [String.toList_append, String.toList_append]
      show _ ++ ['-'] ++ index.repr.toList = _
      rw [List.append_assoc, List.singleton_append]
    rw [hsplit]
    exact Parts.lastPart_append (Parts.not_mem_repr index (by decide))

theorem tagEnd_injective {i j : ℕ} (h : tagEnd i = tagEnd j) : i = j := by
  have hproxy : ∀ c ∈ ['p', 'r', 'o', 'x', 'y'], c.isDigit = false := by simp
  unfold tagEnd at h
  split_ifs at h with hi hj hj
  · rw [hi, hj]
  · exact absurd h.symm (Parts.repr_ne hproxy)
  · exact absurd h (Parts.repr_ne hproxy)
  · exact Nat.repr_injective (String.toList_injective h)

theorem tagOut_injective {i j : ℕ} {a b : Profile}
    (h : tagOut chainId routeSuffix i a = tagOut chainId routeSuffix j b) : i = j := by
  apply tagEnd_injective
  rw [← @lastPart_tagOut chainId routeSuffix i a, h, lastPart_tagOut]

/-- The tags handed out from an index on. -/
def tagsFrom (chainId routeSuffix : ℤ) (index : ℕ) : List Profile → List String
  | [] => []
  | ent :: ents => tagOut chainId routeSuffix index ent :: tagsFrom chainId routeSuffix (index + 1) ents

theorem exists_of_mem_tagsFrom {index : ℕ} {ents : List Profile} {tag : String}
    (h : tag ∈ tagsFrom chainId routeSuffix index ents) :
    ∃ i ≥ index, ∃ ent ∈ ents, tag = tagOut chainId routeSuffix i ent := by
  induction ents generalizing index with
  | nil => cases h
  | cons ent ents ih =>
    rcases List.mem_cons.mp h with rfl | h
    · exact ⟨index, le_rfl, ent, List.mem_cons_self, rfl⟩
    · obtain ⟨i, hi, e, he, htag⟩ := ih h
      exact ⟨i, by omega, e, List.mem_cons_of_mem _ he, htag⟩

/-- The tags handed out are distinct. -/
theorem nodup_tagsFrom (index : ℕ) (ents : List Profile) :
    (tagsFrom chainId routeSuffix index ents).Nodup := by
  induction ents generalizing index with
  | nil => exact List.nodup_nil
  | cons ent ents ih =>
    refine List.nodup_cons.mpr ⟨fun h => ?_, ih _⟩
    obtain ⟨i, hi, e, -, htag⟩ := exists_of_mem_tagsFrom h
    have heq := tagOut_injective htag
    omega

/-! ## The path -/

/-- Every profile from an index on keeps its tag. -/
def KeepTags (E : Environment) (forTest : Bool) (chainId routeSuffix : ℤ) (index : ℕ) :
    List Profile → Prop
  | [] => True
  | ent :: ents => KeepsTag E forTest chainId routeSuffix index ent ∧
      KeepTags E forTest chainId routeSuffix (index + 1) ents

theorem keepTags_iff {index : ℕ} {ents : List Profile} :
    KeepTags E forTest chainId routeSuffix index ents ↔
      ∀ i ent, ents[i]? = some ent → KeepsTag E forTest chainId routeSuffix (index + i) ent := by
  induction ents generalizing index with
  | nil => simp [KeepTags]
  | cons e ents ih =>
    refine Iff.trans (and_congr_right fun _ => ih) ⟨?_, fun h => ⟨h 0 e rfl, fun i ent hent => ?_⟩⟩
    · rintro ⟨hhead, htail⟩ i ent hent
      cases i with
      | zero =>
        obtain rfl := Option.some.inj hent
        exact hhead
      | succ i =>
        have hkeep := htail i ent hent
        rwa [show index + 1 + i = index + (i + 1) by omega] at hkeep
    · have hkeep := h (i + 1) ent hent
      rwa [show index + (i + 1) = index + 1 + i by omega] at hkeep

/-- The detour of a hop is the tag of the next one. -/
def Linked (a b : Hop) : Prop :=
  a.2.value "detour" = b.2.value "tag" ∧ ∃ tag, b.2.value "tag" = .string tag

/-- From the second hop on, the links are right exactly when the tags are
    kept. -/
theorem linked_hopsFrom_iff {index : ℕ} {h : Hop} {ents : List Profile} :
    List.IsChain Linked (hopsFrom E forTest chainId routeSuffix mtu index h ents) ↔
      KeepTags E forTest chainId routeSuffix index ents := by
  induction ents generalizing index h with
  | nil => exact iff_of_true (List.isChain_singleton _) trivial
  | cons ent ents ih =>
    have hnext : ∀ rest : List Profile, ∃ o tail,
        hopsFrom E forTest chainId routeSuffix mtu (index + 1)
          (ent, hopObject E forTest mtu (some h.1) ent (tagOut chainId routeSuffix index ent)) rest =
            (ent, o) :: tail ∧
          o.value "tag" = (hopObject E forTest mtu (some h.1) ent
            (tagOut chainId routeSuffix index ent)).value "tag" := by
      intro rest
      cases rest with
      | nil => exact ⟨_, [], rfl, rfl⟩
      | cons next rest => exact ⟨_, _, rfl, JsonObject.value_insert_of_ne (by decide)⟩
    obtain ⟨o, tail, hhops, htag⟩ := hnext ents
    have ih' := @ih (index + 1)
      (ent, hopObject E forTest mtu (some h.1) ent (tagOut chainId routeSuffix index ent))
    unfold hopsFrom
    dsimp only
    rw [hhops] at ih' ⊢
    rw [List.isChain_cons_cons]
    refine and_congr ?_ ih'
    unfold Linked
    rw [JsonObject.value_insert_self, htag,
      ← @hopObject_tag_iff E forTest chainId routeSuffix mtu (some h.1)]
    exact ⟨fun hlink => hlink.1.symm, fun hkeep => ⟨hkeep.symm, _, hkeep⟩⟩

/-- The objects between two states form one path of the given profiles, which
    starts at the tag returned. -/
structure Path (ents : List Profile) (before after : Status) (chainTagOut : String) (hs : List Hop) :
    Prop where
  profiles : hs.map Prod.fst = ents
  arrays : ∀ b, after.array b = before.array b ++ hopsInto b hs
  first : ∀ h ∈ hs.head?, h.2.value "tag" = .string chainTagOut
  linked : List.IsChain Linked hs
  last : ∀ h ∈ hs.getLast?, h.1.customOutbound.contains "detour" = false →
    h.1.coreObj.contains "detour" = false → h.2.value "detour" = .null
  distinct : (hs.map fun h => h.2.value "tag").Nodup

theorem tags_hopsFrom {index : ℕ} {h : Hop} {ents : List Profile}
    (hkeep : KeepTags E forTest chainId routeSuffix index ents) :
    (hopsFrom E forTest chainId routeSuffix mtu index h ents).map (fun h => h.2.value "tag") =
      h.2.value "tag" :: (tagsFrom chainId routeSuffix index ents).map .string := by
  induction ents generalizing index h with
  | nil => rfl
  | cons ent ents ih =>
    unfold hopsFrom tagsFrom
    rw [List.map_cons, ih hkeep.2, JsonObject.value_insert_of_ne (by decide),
      hopObject_tag_iff.mpr hkeep.1]
    rfl

theorem last_hopsFrom {index : ℕ} {h : Hop} {ents : List Profile}
    (hdetour : h.1.customOutbound.contains "detour" = false →
      h.1.coreObj.contains "detour" = false → h.2.value "detour" = .null) :
    ∀ l ∈ (hopsFrom E forTest chainId routeSuffix mtu index h ents).getLast?,
      l.1.customOutbound.contains "detour" = false → l.1.coreObj.contains "detour" = false →
        l.2.value "detour" = .null := by
  induction ents generalizing index h with
  | nil =>
    intro l hl
    obtain rfl := Option.some.inj hl
    exact hdetour
  | cons ent ents ih =>
    intro l hl
    unfold hopsFrom at hl
    rw [List.getLast?_cons] at hl
    have hrest := @ih (index + 1) (ent, hopObject E forTest mtu (some h.1) ent
      (tagOut chainId routeSuffix index ent)) hopObject_detour
    cases hlast : (hopsFrom E forTest chainId routeSuffix mtu (index + 1)
        (ent, hopObject E forTest mtu (some h.1) ent (tagOut chainId routeSuffix index ent))
        ents).getLast? with
    | none =>
      have hnil := List.getLast?_eq_none_iff.mp hlast
      have hprofiles := map_fst_hopsFrom E forTest chainId routeSuffix mtu (index + 1)
        (ent, hopObject E forTest mtu (some h.1) ent (tagOut chainId routeSuffix index ent)) ents
      rw [hnil] at hprofiles
      cases hprofiles
    | some l' =>
      rw [hlast] at hl hrest
      obtain rfl := Option.some.inj hl
      exact hrest l' rfl

theorem head_hopsFrom {index : ℕ} {h : Hop} {ents : List Profile} :
    ∃ o, (hopsFrom E forTest chainId routeSuffix mtu index h ents).head? = some (h.1, o) ∧
      o.value "tag" = h.2.value "tag" := by
  cases ents with
  | nil => exact ⟨h.2, rfl, rfl⟩
  | cons ent ents => exact ⟨_, rfl, JsonObject.value_insert_of_ne (by decide)⟩

/-- The objects of a path are those in the closed form. -/
theorem path_unique {ents : List Profile} {status : Status} {chainTagOut : String} {hs : List Hop}
    (hpath : Path ents status (buildChainInternal E forTest chainId ents status routeSuffix).2
      chainTagOut hs) :
    hs = hops E forTest chainId routeSuffix (nestedMtu ents) ents := by
  apply hops_unique
  · rw [hpath.profiles, map_fst_hops]
  · intro b
    have harray := hpath.arrays b
    rw [buildChainInternal_array] at harray
    exact (List.append_cancel_left harray).symm

/-- The hops are a path when the tags are kept. -/
theorem path_hops {ents : List Profile} {status : Status}
    (hkeep : KeepTags E forTest chainId routeSuffix 0 ents) :
    Path ents status (buildChainInternal E forTest chainId ents status routeSuffix).2
      (buildChainInternal E forTest chainId ents status routeSuffix).1
      (hops E forTest chainId routeSuffix (nestedMtu ents) ents) where
  profiles := map_fst_hops E forTest chainId routeSuffix _ ents
  arrays := buildChainInternal_array E forTest chainId routeSuffix ents status
  first := by
    cases ents with
    | nil => exact fun h hh => nomatch hh
    | cons ent ents =>
      obtain ⟨o, hhead, htag⟩ := @head_hopsFrom E forTest chainId routeSuffix
        (nestedMtu (ent :: ents)) 1 (ent, hopObject E forTest (nestedMtu (ent :: ents)) none ent
          (tagOut chainId routeSuffix 0 ent)) ents
      intro h hh
      unfold hops at hh
      rw [hhead] at hh
      obtain rfl := Option.some.inj hh
      exact htag.trans (hopObject_tag_iff.mpr hkeep.1)
  linked := by
    cases ents with
    | nil => exact List.isChain_nil
    | cons ent ents => exact linked_hopsFrom_iff.mpr hkeep.2
  last := by
    cases ents with
    | nil => exact fun h hh => nomatch hh
    | cons ent ents => exact last_hopsFrom hopObject_detour
  distinct := by
    cases ents with
    | nil => exact List.nodup_nil
    | cons ent ents =>
      unfold hops
      rw [tags_hopsFrom hkeep.2, hopObject_tag_iff.mpr hkeep.1, ← List.map_cons]
      exact (nodup_tagsFrom 0 (ent :: ents)).map fun _ _ h => Json.string.inj h

/-- **Main theorem.** For every list of profiles the objects appended form a
    path from the tag returned exactly when no `custom_outbound` sets another tag
    than the one handed out, and the outbounds that get theirs from the builder
    are built without an error. -/
theorem path_iff (E : Environment) (forTest : Bool) (chainId routeSuffix : ℤ) (ents : List Profile)
    (status : Status) :
    (∃ hs, Path ents status (buildChainInternal E forTest chainId ents status routeSuffix).2
        (buildChainInternal E forTest chainId ents status routeSuffix).1 hs) ↔
      ∀ i ent, ents[i]? = some ent → KeepsTag E forTest chainId routeSuffix i ent := by
  have hindices : KeepTags E forTest chainId routeSuffix 0 ents ↔
      ∀ i ent, ents[i]? = some ent → KeepsTag E forTest chainId routeSuffix i ent := by
    rw [keepTags_iff]
    simp only [Nat.zero_add]
  rw [← hindices]
  refine ⟨?_, fun hkeep => ⟨_, path_hops hkeep⟩⟩
  rintro ⟨hs, hpath⟩
  obtain rfl := path_unique hpath
  cases ents with
  | nil => trivial
  | cons ent ents =>
    refine ⟨?_, linked_hopsFrom_iff.mp hpath.linked⟩
    obtain ⟨o, hhead, htag⟩ := @head_hopsFrom E forTest chainId routeSuffix
      (nestedMtu (ent :: ents)) 1 (ent, hopObject E forTest (nestedMtu (ent :: ents)) none ent
        (tagOut chainId routeSuffix 0 ent)) ents
    exact hopObject_tag_iff.mp (htag.symm.trans (hpath.first _ hhead))

end

/-- A SOCKS profile whose `custom_outbound` names its own tag. -/
def taggedProfile : Profile where
  id := 7
  gid := 0
  type := "socks"
  serverAddress := "192.0.2.1"
  coreObj := [("type", .string "socks")]
  coreError := ""
  customOutbound := [("tag", .string "mine")]
  muxState := 0
  enableBrutal := false
  brutalSpeed := 0
  stream := none
  core := ""
  configSimple := []
  mtu := 0
  transportPacketJunkSize := 0
  useSystemInterface := false
  list := []

def sampleEnvironment : Environment where
  getProfile := fun _ => none
  getGroup := fun _ => none
  muxConcurrency := 8
  muxDefaultOn := false
  muxProtocol := "smux"
  muxPadding := false
  isAdmin := true
  isIpAddress := fun _ => true

/-- The tag `proxy` is returned, and no object has it. -/
theorem custom_tag_breaks_path :
    ¬ ∀ (E : Environment) (forTest : Bool) (chainId routeSuffix : ℤ) (ents : List Profile)
      (status : Status), ∃ hs,
      Path ents status (buildChainInternal E forTest chainId ents status routeSuffix).2
        (buildChainInternal E forTest chainId ents status routeSuffix).1 hs := by
  intro h
  obtain ⟨hs, hpath⟩ := h sampleEnvironment false 0 (-1) [taggedProfile] ⟨"", [], [], []⟩
  obtain rfl := path_unique hpath
  have hfirst : Json.string "mine" = Json.string "proxy" := hpath.first _ rfl
  exact absurd (Json.string.inj hfirst) (by decide)

end NekoBox.Config
