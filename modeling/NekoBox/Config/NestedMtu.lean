import NekoBox.Config.ChainPath
import NekoBox.Store.JsonRoundTrip

/-!
# The MTUs of nested tunnels

A WireGuard tunnel whose packets another one carries must leave room for the
header, 32 bytes, and for its own padding. `BuildChainInternal`
(`ConfigBuilder.cpp`, lines 863–876 and 920–921) computes the MTUs from the end
of the chain and keeps those it lowers in a map by the id of the profile.

The configured MTUs leave every place of the chain an allowance (`allowance`).
The map has one entry for all the places of a profile, and a lowered MTU is not
kept above zero.

* `pos_allowance_of_fits`: the endpoints can only be right when every nested
  tunnel has a positive allowance;
* `nestedMtu_fits`: they are when, in addition, the places of a profile have the
  same allowance.

The numbers are integers here: the C++ `int` is not exceeded by an MTU that is
left positive.
-/

namespace NekoBox.Config

open NekoBox.Store

/-! ## What the endpoints should have -/

/-- The padding of a transport packet, `s4`. -/
def Profile.s4 (ent : Profile) : ℤ := if ent.type = "awg" then ent.transportPacketJunkSize else 0

/-- The member `mtu` of the object made for a profile. -/
def Hop.mtu (h : Hop) : Option ℤ :=
  match h.2.value "mtu" with
  | .number n => n.integral
  | _ => none

/-- The packets of every nested tunnel fit, and no other tunnel is changed. -/
def Fits : List Hop → Prop
  | [] => True
  | [h] => h.1.isWg → Hop.mtu h = some h.1.mtu
  | h :: carrier :: hs =>
    (h.1.isWg →
      if carrier.1.isWg then ∃ m c, Hop.mtu h = some m ∧ Hop.mtu carrier = some c ∧
        0 < m ∧ m ≤ h.1.mtu ∧ m + 32 + h.1.s4 ≤ c
      else Hop.mtu h = some h.1.mtu) ∧
    Fits (carrier :: hs)

/-- The endpoints and outbounds appended have MTUs that fit. -/
def FitsBetween (ents : List Profile) (before after : Status) : Prop :=
  ∃ hs : List Hop, hs.map Prod.fst = ents ∧
    (∀ b, after.array b = before.array b ++ hopsInto b hs) ∧ Fits hs

/-- The largest MTU that the configured ones leave the first profile. -/
def allowance : List Profile → ℤ
  | [] => 0
  | [ent] => ent.mtu
  | inner :: carrier :: ents =>
    if inner.isWg ∧ carrier.isWg then min inner.mtu (allowance (carrier :: ents) - 32 - inner.s4)
    else inner.mtu

/-- A tunnel whose packets the next profile carries, with what follows it. -/
def Nested : List Profile → Prop
  | inner :: carrier :: _ => inner.isWg ∧ carrier.isWg
  | _ => False

/-- Every nested tunnel has a positive allowance. -/
def Roomy (ents : List Profile) : Prop := ∀ i, Nested (ents.drop i) → 0 < allowance (ents.drop i)

/-- The places of a tunnel have the same allowance. -/
def Agrees (ents : List Profile) : Prop :=
  ∀ i j a b, ents[i]? = some a → ents[j]? = some b → a.isWg → a.id = b.id →
    allowance (ents.drop i) = allowance (ents.drop j)

/-- Where a tunnel is not nested, its other places leave it the configured MTU. -/
def KeepsConfigured (ents : List Profile) : Prop :=
  ∀ i j a b, ents[i]? = some a → ents[j]? = some b → a.isWg → a.id = b.id →
    ¬ Nested (ents.drop i) → allowance (ents.drop j) = b.mtu

theorem allowance_nested {inner carrier : Profile} {ents : List Profile}
    (h : inner.isWg ∧ carrier.isWg) :
    allowance (inner :: carrier :: ents) =
      min inner.mtu (allowance (carrier :: ents) - 32 - inner.s4) := if_pos h

theorem allowance_of_not_nested {ent : Profile} {ents : List Profile} (h : ¬ Nested (ent :: ents)) :
    allowance (ent :: ents) = ent.mtu := by
  cases ents with
  | nil => rfl
  | cons carrier ents => exact if_neg h

theorem allowance_le (ent : Profile) (ents : List Profile) : allowance (ent :: ents) ≤ ent.mtu := by
  by_cases h : Nested (ent :: ents)
  · cases ents with
    | nil => exact h.elim
    | cons carrier ents =>
      rw [allowance_nested h]
      exact min_le_left _ _
  · exact (allowance_of_not_nested h).le

theorem Roomy.tail {ent : Profile} {ents : List Profile} (h : Roomy (ent :: ents)) : Roomy ents :=
  fun i hnested => h (i + 1) hnested

theorem Agrees.tail {ent : Profile} {ents : List Profile} (h : Agrees (ent :: ents)) : Agrees ents :=
  fun i j a b ha hb hwg hid => h (i + 1) (j + 1) a b ha hb hwg hid

/-! ## Fitting MTUs are within the allowances -/

/-- The first MTU, if that of a tunnel, is within its allowance. -/
theorem le_allowance {h : Hop} {hs : List Hop} (hfits : Fits (h :: hs)) (hwg : h.1.isWg) :
    ∃ m, Hop.mtu h = some m ∧ m ≤ allowance ((h :: hs).map Prod.fst) := by
  induction hs generalizing h with
  | nil => exact ⟨h.1.mtu, hfits hwg, le_rfl⟩
  | cons carrier hs ih =>
    obtain ⟨hfirst, htail⟩ := hfits
    have hfirst := hfirst hwg
    rw [List.map_cons, List.map_cons]
    by_cases hcarrier : carrier.1.isWg = true
    · rw [if_pos hcarrier] at hfirst
      obtain ⟨m, c, hm, hc, -, hle, hroom⟩ := hfirst
      obtain ⟨c', hc', hbound⟩ := ih htail hcarrier
      obtain rfl := Option.some.inj (hc.symm.trans hc')
      refine ⟨m, hm, ?_⟩
      rw [allowance_nested ⟨hwg, hcarrier⟩]
      rw [List.map_cons] at hbound
      exact le_min hle (by omega)
    · rw [if_neg hcarrier] at hfirst
      refine ⟨h.1.mtu, hfirst, ?_⟩
      have hnested : ¬ Nested (h.1 :: carrier.1 :: hs.map Prod.fst) := fun hnested =>
        hcarrier hnested.2
      rw [allowance_of_not_nested hnested]

theorem Fits.drop {hs : List Hop} (hfits : Fits hs) (i : ℕ) : Fits (hs.drop i) := by
  induction i generalizing hs with
  | zero => exact hfits
  | succ i ih =>
    cases hs with
    | nil => trivial
    | cons h hs =>
      cases hs with
      | nil => exact ih trivial
      | cons carrier hs => exact ih hfits.2

/-- A tunnel that is not nested has its configured MTU. -/
theorem mtu_of_not_nested {h : Hop} {hs : List Hop} (hfits : Fits (h :: hs)) (hwg : h.1.isWg)
    (hnested : ¬ Nested ((h :: hs).map Prod.fst)) : Hop.mtu h = some h.1.mtu := by
  cases hs with
  | nil => exact hfits hwg
  | cons carrier hs =>
    have hfirst := hfits.1 hwg
    rwa [if_neg fun hcarrier => hnested ⟨hwg, hcarrier⟩] at hfirst

theorem pos_allowance_of_fits {hs : List Hop} (hfits : Fits hs) : Roomy (hs.map Prod.fst) := by
  induction hs with
  | nil =>
    intro i hnested
    rw [List.map_nil, List.drop_nil] at hnested
    exact hnested.elim
  | cons h hs ih =>
    intro i hnested
    cases i with
    | zero =>
      cases hs with
      | nil => exact hnested.elim
      | cons carrier hs =>
        obtain ⟨hwg, hcarrier⟩ := hnested
        obtain ⟨m, hm, hle⟩ := le_allowance hfits hwg
        have hfirst := hfits.1 hwg
        rw [if_pos hcarrier] at hfirst
        obtain ⟨m', c, hm', -, hpos, -⟩ := hfirst
        obtain rfl := Option.some.inj (hm.symm.trans hm')
        exact lt_of_lt_of_le hpos hle
    | succ i =>
      exact ih (hfits.drop 1) i hnested

/-- If the MTU of a tunnel is the same at all its places, those at which it is
    nested leave it the configured one as soon as one is not. -/
theorem keepsConfigured_of_fits {hs : List Hop} (hfits : Fits hs)
    (hone : ∀ g ∈ hs, ∀ h ∈ hs, g.1.isWg → g.1.id = h.1.id → g.1 = h.1 ∧ Hop.mtu g = Hop.mtu h) :
    KeepsConfigured (hs.map Prod.fst) := by
  intro i j a b ha hb hwg hid hnested
  rw [List.getElem?_map, Option.map_eq_some_iff] at ha hb
  obtain ⟨g, hg, rfl⟩ := ha
  obtain ⟨h, hh, rfl⟩ := hb
  obtain ⟨hprofile, hmtu⟩ :=
    hone g (List.mem_of_getElem? hg) h (List.mem_of_getElem? hh) hwg hid
  have hdrop : ∀ (k : ℕ) (l : Hop), hs[k]? = some l → hs.drop k = l :: hs.drop (k + 1) := by
    intro k l hl
    rw [List.drop_eq_getElem?_toList_append, hl]
    rfl
  rw [← List.map_drop] at hnested ⊢
  rw [hdrop i g hg] at hnested
  rw [hdrop j h hh]
  have hconfigured := mtu_of_not_nested (hdrop i g hg ▸ hfits.drop i) hwg hnested
  obtain ⟨m, hm, hle⟩ := le_allowance (hdrop j h hh ▸ hfits.drop j) (hprofile ▸ hwg)
  rw [← hmtu, hconfigured] at hm
  obtain rfl := Option.some.inj hm
  exact le_antisymm (allowance_le _ _) (hprofile ▸ hle)

/-! ## What the map has -/

/-- The MTU that goes into the endpoint of a tunnel. -/
def emitted (mtu : ℤ → Option ℤ) (ent : Profile) : ℤ := (mtu ent.id).getD ent.mtu

theorem nestedMtu_cons_of_not_nested {ent : Profile} {ents : List Profile}
    (h : ¬ Nested (ent :: ents)) : nestedMtu (ent :: ents) = nestedMtu ents := by
  cases ents with
  | nil => rfl
  | cons carrier ents =>
    unfold nestedMtu
    dsimp only
    rw [if_neg fun hwg => h (Bool.and_eq_true_iff.mp hwg)]
    cases ents <;> rfl

/-- A tunnel whose configured MTU is too large gets an entry. -/
theorem nestedMtu_cons_of_nested {inner carrier : Profile} {ents : List Profile}
    (h : inner.isWg ∧ carrier.isWg) :
    nestedMtu (inner :: carrier :: ents) =
      let cap := emitted (nestedMtu (carrier :: ents)) carrier - 32 - inner.s4
      if inner.mtu > cap then
        fun id => if id = inner.id then some cap else nestedMtu (carrier :: ents) id
      else nestedMtu (carrier :: ents) :=
  if_pos (Bool.and_eq_true_iff.mpr h)

/-- Only profiles of the chain have entries. -/
theorem nestedMtu_eq_none {ents : List Profile} {id : ℤ} (h : ∀ ent ∈ ents, ent.id ≠ id) :
    nestedMtu ents id = none := by
  induction ents with
  | nil => rfl
  | cons ent ents ih =>
    have htail := ih fun e he => h e (List.mem_cons_of_mem _ he)
    by_cases hnested : Nested (ent :: ents)
    · cases ents with
      | nil => exact hnested.elim
      | cons carrier ents =>
        rw [nestedMtu_cons_of_nested hnested]
        dsimp only
        split_ifs with hcap
        · exact (if_neg (h ent List.mem_cons_self).symm).trans htail
        · exact htail
    · rw [nestedMtu_cons_of_not_nested hnested]
      exact htail

/-- One record for every id. -/
def Consistent (ents : List Profile) : Prop := ∀ a ∈ ents, ∀ b ∈ ents, a.id = b.id → a = b

theorem Consistent.tail {ent : Profile} {ents : List Profile} (h : Consistent (ent :: ents)) :
    Consistent ents :=
  fun a ha b hb => h a (List.mem_cons_of_mem _ ha) b (List.mem_cons_of_mem _ hb)

/-- **What goes into the endpoints.** If the places of a tunnel have the same
    allowance, it gets this one. -/
theorem emitted_nestedMtu {ents : List Profile} (hsame : Consistent ents) (hagrees : Agrees ents)
    {i : ℕ} {ent : Profile} (hent : ents[i]? = some ent) (hwg : ent.isWg) :
    emitted (nestedMtu ents) ent = allowance (ents.drop i) := by
  induction ents generalizing i ent with
  | nil => exact nomatch hent
  | cons inner ents ih =>
    have ih := @ih hsame.tail hagrees.tail
    have hplace : ∀ j, ents[j]? = some inner → inner.isWg →
        allowance (ents.drop j) = allowance (inner :: ents) := fun j hj hinner =>
      hagrees (j + 1) 0 inner inner hj rfl hinner rfl
    by_cases hraised : Nested (inner :: ents) ∧ allowance (inner :: ents) < inner.mtu
    · -- the map gets an entry, which every place of this profile reads
      obtain ⟨hnested, hlow⟩ := hraised
      cases ents with
      | nil => exact hnested.elim
      | cons carrier ents =>
        have hcarrier : emitted (nestedMtu (carrier :: ents)) carrier =
            allowance (carrier :: ents) := ih (i := 0) rfl hnested.2
        rw [allowance_nested hnested, min_lt_iff] at hlow
        have hcap : allowance (carrier :: ents) - 32 - inner.s4 < inner.mtu :=
          hlow.resolve_left (lt_irrefl _)
        have hallowance : allowance (inner :: carrier :: ents) =
            allowance (carrier :: ents) - 32 - inner.s4 := by
          rw [allowance_nested hnested, min_eq_right hcap.le]
        rw [nestedMtu_cons_of_nested hnested, hcarrier]
        dsimp only
        rw [if_pos hcap, ← hallowance]
        unfold emitted
        dsimp only
        by_cases hid : ent.id = inner.id
        · rw [if_pos hid, Option.getD_some]
          exact hagrees 0 i inner ent rfl hent hnested.1 hid.symm
        · rw [if_neg hid]
          cases i with
          | zero =>
            obtain rfl := Option.some.inj hent
            exact absurd rfl hid
          | succ i => exact ih hent hwg
    · -- no new entry: the first place has its configured MTU
      have hmap : nestedMtu (inner :: ents) = nestedMtu ents := by
        by_cases hnested : Nested (inner :: ents)
        · cases ents with
          | nil => exact hnested.elim
          | cons carrier ents =>
            have hcarrier : emitted (nestedMtu (carrier :: ents)) carrier =
                allowance (carrier :: ents) := ih (i := 0) rfl hnested.2
            have hle := not_lt.mp fun hlow => hraised ⟨hnested, hlow⟩
            rw [allowance_nested hnested, le_min_iff] at hle
            rw [nestedMtu_cons_of_nested hnested, hcarrier]
            exact if_neg (not_lt.mpr hle.2)
        · exact nestedMtu_cons_of_not_nested hnested
      have hfirst : allowance (inner :: ents) = inner.mtu := by
        by_cases hnested : Nested (inner :: ents)
        · exact le_antisymm (allowance_le _ _) (not_lt.mp fun hlow => hraised ⟨hnested, hlow⟩)
        · exact allowance_of_not_nested hnested
      rw [hmap]
      cases i with
      | succ i => exact ih hent hwg
      | zero =>
        obtain rfl := Option.some.inj hent
        rw [List.drop_zero, hfirst]
        by_cases hmem : inner ∈ ents
        · obtain ⟨j, hj⟩ := List.mem_iff_getElem?.mp hmem
          rw [ih hj hwg, hplace j hj hwg, hfirst]
        · have hnone : nestedMtu ents inner.id = none := nestedMtu_eq_none fun e he hid =>
            hmem (hsame e (List.mem_cons_of_mem _ he) inner List.mem_cons_self hid ▸ he)
          unfold emitted
          rw [hnone, Option.getD_none]

/-! ## What the endpoints have -/

section

variable {E : Environment} {forTest : Bool} {chainId routeSuffix : ℤ} {mtu : ℤ → Option ℤ}

theorem chainStep_error (index : ℕ) (previous : Option Profile) (ent : Profile) (st : Status × Bool) :
    (chainStep E forTest chainId routeSuffix mtu index previous ent st).1.error =
      if outboundError E forTest ent ≠ "" then outboundError E forTest ent else st.1.error := by
  have hpatch : ∀ (endpoint : Bool) (tag : String) (status : Status),
      (status.patch endpoint tag).error = status.error := by
    intro endpoint tag status
    cases endpoint <;> rfl
  unfold chainStep Status.append
  dsimp only
  cases ent.isEndpoint <;> by_cases hindex : index > 0 <;> simp [hindex, hpatch]

/-- A chain without an error has none of its outbounds refused. -/
theorem built_of_error_eq {index : ℕ} {previous : Option Profile} {ents : List Profile}
    {st : Status × Bool}
    (h : (chainLoop E forTest chainId routeSuffix mtu index previous ents st).1.error = "") :
    st.1.error = "" ∧ ∀ ent ∈ ents, outboundError E forTest ent = "" := by
  induction ents generalizing index previous st with
  | nil => exact ⟨h, fun _ hent => nomatch hent⟩
  | cons ent ents ih =>
    obtain ⟨hstep, htail⟩ := ih h
    rw [chainStep_error] at hstep
    by_cases herror : outboundError E forTest ent = ""
    · rw [if_neg (not_not.mpr herror)] at hstep
      exact ⟨hstep, List.forall_mem_cons.mpr ⟨herror, htail⟩⟩
    · rw [if_pos herror] at hstep
      exact absurd hstep herror

/-- What the object of a tunnel has for its MTU. -/
theorem hopObject_mtu {previous : Option Profile} {ent : Profile} {tag : String}
    (hcustom : ent.customOutbound = []) (hbuilt : outboundError E forTest ent = "")
    (hcore : ent.coreObj.value "mtu" = jsonInt ent.mtu) (hwg : ent.isWg) :
    (hopObject E forTest mtu previous ent tag).value "mtu" = jsonInt (emitted mtu ent) := by
  have hbuild : (buildOutbound E forTest ent tag).value "mtu" = jsonInt ent.mtu := by
    unfold buildOutbound
    rw [if_neg (not_not.mpr hbuilt), value_withMux (by decide),
      JsonObject.value_insert_of_ne (by decide), ← hcore]
    split_ifs
    · exact value_withoutSystemTunnel (by decide) (by decide)
    · rfl
  unfold hopObject withNesting emitted
  rw [hcustom, if_pos hwg]
  show JsonObject.value (if _ then _ else _) "mtu" = _
  cases mtu ent.id with
  | none =>
    dsimp only
    split_ifs
    · rw [JsonObject.value_insert_of_ne (by decide), hbuild, Option.getD_none]
    · exact hbuild
  | some m =>
    dsimp only
    split_ifs
    · rw [JsonObject.value_insert_of_ne (by decide), JsonObject.value_insert_self, Option.getD_some]
    · exact JsonObject.value_insert_self

/-- What is the same for every place of a chain without `custom_outbound`. -/
structure Plain (E : Environment) (forTest : Bool) (ent : Profile) : Prop where
  custom : ent.customOutbound = []
  built : outboundError E forTest ent = ""
  core : ent.isWg → ent.coreObj.value "mtu" = jsonInt ent.mtu

theorem mtu_of_mem_hopsFrom {index : ℕ} {first : Hop} {ents : List Profile}
    (hfirst : first.1.isWg → first.2.value "mtu" = jsonInt (emitted mtu first.1))
    (hplain : ∀ ent ∈ ents, Plain E forTest ent) :
    ∀ h ∈ hopsFrom E forTest chainId routeSuffix mtu index first ents,
      h.1.isWg → h.2.value "mtu" = jsonInt (emitted mtu h.1) := by
  induction ents generalizing index first with
  | nil =>
    intro h hh
    rwa [List.mem_singleton.mp hh]
  | cons ent ents ih =>
    obtain ⟨hent, htail⟩ := List.forall_mem_cons.mp hplain
    refine List.forall_mem_cons.mpr ⟨fun hwg => ?_, ih (fun hwg => ?_) htail⟩
    · exact (JsonObject.value_insert_of_ne (by decide)).trans (hfirst hwg)
    · exact hopObject_mtu hent.custom hent.built (hent.core hwg) hwg

theorem mtu_of_mem_hops {ents : List Profile} (hplain : ∀ ent ∈ ents, Plain E forTest ent) :
    ∀ h ∈ hops E forTest chainId routeSuffix mtu ents,
      h.1.isWg → h.2.value "mtu" = jsonInt (emitted mtu h.1) := by
  cases ents with
  | nil => exact fun h hh => nomatch hh
  | cons ent ents =>
    obtain ⟨hent, htail⟩ := List.forall_mem_cons.mp hplain
    exact mtu_of_mem_hopsFrom
      (fun hwg => hopObject_mtu hent.custom hent.built (hent.core hwg) hwg) htail

/-- Tunnels that have their allowances fit. -/
theorem fits_of_allowance {hs : List Hop} (hroomy : Roomy (hs.map Prod.fst))
    (hmtu : ∀ (i : ℕ) (h : Hop), hs[i]? = some h → h.1.isWg →
      Hop.mtu h = some (allowance ((hs.map Prod.fst).drop i))) : Fits hs := by
  induction hs with
  | nil => trivial
  | cons h hs ih =>
    have htail : Fits hs := ih hroomy.tail fun i h' hh' hwg => hmtu (i + 1) h' hh' hwg
    have hfirst := hmtu 0 h rfl
    cases hs with
    | nil => exact hfirst
    | cons carrier hs =>
      refine ⟨fun hwg => ?_, htail⟩
      by_cases hcarrier : carrier.1.isWg = true
      · rw [if_pos hcarrier]
        have hpos := hroomy 0 ⟨hwg, hcarrier⟩
        have hle := @allowance_nested _ _ (hs.map Prod.fst) ⟨hwg, hcarrier⟩
        refine ⟨_, _, hfirst hwg, hmtu 1 carrier rfl hcarrier, hpos, allowance_le _ _, ?_⟩
        have hroom := hle.le.trans (min_le_right _ _)
        show allowance (h.1 :: carrier.1 :: hs.map Prod.fst) + 32 + h.1.s4 ≤
          allowance (carrier.1 :: hs.map Prod.fst)
        omega
      · rw [if_neg hcarrier, hfirst hwg]
        exact congrArg some (allowance_of_not_nested fun hnested => hcarrier hnested.2)

end

section

variable {E : Environment} {forTest : Bool} {chainId routeSuffix : ℤ} {ents : List Profile}
  {status : Status}

theorem plain_of_error_eq (hcustom : ∀ ent ∈ ents, ent.customOutbound = [])
    (hcore : ∀ ent ∈ ents, ent.isWg → ent.coreObj.value "mtu" = jsonInt ent.mtu)
    (herror : (buildChainInternal E forTest chainId ents status routeSuffix).2.error = "") :
    ∀ ent ∈ ents, Plain E forTest ent := fun ent hent =>
  ⟨hcustom ent hent, (built_of_error_eq herror).2 ent hent, hcore ent hent⟩

/-- What the configured MTUs must be for the MTUs to fit. -/
theorem of_fitsBetween (hplain : ∀ ent ∈ ents, Plain E forTest ent) (hsame : Consistent ents)
    (h : FitsBetween ents status
      (buildChainInternal E forTest chainId ents status routeSuffix).2) :
    Roomy ents ∧ KeepsConfigured ents := by
  obtain ⟨hs, hprofiles, harrays, hfits⟩ := h
  have hvalue := @mtu_of_mem_hops E forTest chainId routeSuffix (nestedMtu ents) ents hplain
  have hhs : hs = hops E forTest chainId routeSuffix (nestedMtu ents) ents := by
    refine hops_unique (hprofiles.trans (map_fst_hops E forTest chainId routeSuffix _ ents).symm)
      fun b => ?_
    have harray := buildChainInternal_array E forTest chainId routeSuffix ents status b
    rw [harrays b] at harray
    exact List.append_cancel_left harray
  rw [← hhs] at hvalue
  rw [← hprofiles]
  refine ⟨pos_allowance_of_fits hfits, keepsConfigured_of_fits hfits ?_⟩
  intro g hg h hh hwg hid
  have hents : ∀ h ∈ hs, h.1 ∈ ents := fun h hh => hprofiles ▸ List.mem_map_of_mem hh
  have hprofile := hsame g.1 (hents g hg) h.1 (hents h hh) hid
  refine ⟨hprofile, ?_⟩
  unfold Hop.mtu
  rw [hvalue g hg hwg, hvalue h hh (hprofile ▸ hwg), hprofile]

/-- What is enough for them to fit. -/
theorem fitsBetween_of_agrees (hplain : ∀ ent ∈ ents, Plain E forTest ent)
    (hint : ∀ ent ∈ ents, Qt.IsInt32 ent.mtu) (hsame : Consistent ents) (hroomy : Roomy ents)
    (hagrees : Agrees ents) :
    FitsBetween ents status
      (buildChainInternal E forTest chainId ents status routeSuffix).2 := by
  have hvalue := @mtu_of_mem_hops E forTest chainId routeSuffix (nestedMtu ents) ents hplain
  have hprofiles := map_fst_hops E forTest chainId routeSuffix (nestedMtu ents) ents
  refine ⟨_, hprofiles, buildChainInternal_array E forTest chainId routeSuffix ents status,
    fits_of_allowance (hprofiles.symm ▸ hroomy) fun i h hh hwg => ?_⟩
  have hent : ents[i]? = some h.1 := by
    rw [← hprofiles, List.getElem?_map, hh]
    rfl
  have hrange := hint h.1 (List.mem_of_getElem? hent)
  have hdrop : ents.drop i = h.1 :: ents.drop (i + 1) := by
    rw [List.drop_eq_getElem?_toList_append, hent]
    rfl
  -- a positive allowance is below the configured MTU, and every other is that one
  have hsmall : (allowance (ents.drop i)).natAbs ≤ 2 ^ 53 := by
    unfold Qt.IsInt32 at hrange
    have hle := hdrop ▸ allowance_le h.1 (ents.drop (i + 1))
    by_cases hnested : Nested (ents.drop i)
    · have hpos := hroomy i hnested
      omega
    · rw [hdrop] at hnested ⊢
      rw [allowance_of_not_nested hnested]
      omega
  unfold Hop.mtu
  rw [hvalue h (List.mem_of_getElem? hh) hwg, hprofiles, emitted_nestedMtu hsame hagrees hent hwg]
  show some (roundDouble _) = _
  rw [roundDouble_of_natAbs_le hsmall]

end

/-- A WireGuard profile with the default MTU. -/
def tunnelProfile (id : ℤ) : Profile where
  id := id
  gid := 0
  type := "wireguard"
  serverAddress := "192.0.2.1"
  coreObj := [("type", .string "wireguard"), ("mtu", jsonInt 1420)]
  coreError := ""
  customOutbound := []
  muxState := 0
  enableBrutal := false
  brutalSpeed := 0
  stream := none
  core := ""
  configSimple := []
  mtu := 1420
  transportPacketJunkSize := 0
  useSystemInterface := false
  list := []

/-- Chains of such profiles, by their ids. -/
abbrev tunnels (ids : List ℤ) : List Profile := ids.map tunnelProfile

theorem tunnels_consistent (ids : List ℤ) : Consistent (tunnels ids) := by
  unfold Consistent
  simp only [List.forall_mem_map]
  rintro a - b - hid
  exact congrArg tunnelProfile hid

theorem isInt32_mtu (id : ℤ) : Qt.IsInt32 (tunnelProfile id).mtu := by
  show Qt.IsInt32 1420
  unfold Qt.IsInt32
  decide

end NekoBox.Config
