import NekoBox.Config.Chain
import NekoBox.Lib.Descent

/-!
# Validation and export of profiles

`IsValid` (`ConfigBuilder.cpp`, lines 543–600) asks the core about a profile, and
about the members of a chain one after another; `getOutboundObject`
(`RouteEntity.cpp`, lines 114–147) writes a profile, and the members of a chain
inside it. Both follow the identifiers in the records and keep no list of the
records visited, unlike `ResolveChainInternal`, which refuses a chain in a chain.

* `returns_iff_no_self_chain`: they return if and only if no chain they come to
  leads back to itself.
* `self_chain_never_returns`: a chain that contains itself.
-/

namespace NekoBox.Config

open NekoBox.Store NekoBox.Lib Descent

section

variable (E : Environment) (check : JsonObject → Option String)

/-! ## `IsValid` -/

/-- What the core is asked about (lines 568–590). -/
def checkedConfig (ent : Profile) : JsonObject :=
  if ent.type = "custom" ∧ ent.core = "internal-full" then ent.configSimple
  else
    let type := match ent.coreObj.value "type" with
      | .string type => type
      | _ => ""
    let outbound :=
      if type = "awg" then ent.coreObj.insert "useIntegratedTun" (.bool false)
      else if type = "wireguard" then ent.coreObj.insert "system" (.bool false)
      else ent.coreObj
    [(if ent.isEndpoint then "endpoints" else "outbounds", .array [.object outbound])]

/-- The loop over the members of a chain (lines 552–562). -/
def membersValid (valid : Profile → Option Bool) : List ℤ → Option Bool
  | [] => some true
  | id :: ids =>
    match E.getProfile id with
    | none => some false
    | some e =>
      match valid e with
      | none => none
      | some false => some false
      | some true => membersValid valid ids

/-- `IsValid`, of a profile that is not null. `check` is `CheckConfig`: none if the core
    cannot be contacted, and else its answer, empty for a valid configuration. -/
def isValid : ℕ → Profile → Option Bool
  | 0, _ => none
  | fuel + 1, ent =>
    if ent.type = "chain" then membersValid E (isValid fuel) ent.list
    else some (check (checkedConfig ent) = some "")

/-! ## `getOutboundObject` -/

/-- The loop over the members of a chain (lines 127–135): a member without a record is
    left out. -/
def memberObjects (object : Profile → Option JsonObject) : List ℤ → Option (List Json)
  | [] => some []
  | id :: ids =>
    match E.getProfile id with
    | none => memberObjects object ids
    | some e =>
      match object e, memberObjects object ids with
      | some o, some rest => some (.object o :: rest)
      | _, _ => none

/-- `getOutboundObject`, of a profile that is not null; `bean()` never is. -/
def getOutboundObject (displayName : Profile → String) : ℕ → Profile → Option JsonObject
  | 0, _ => none
  | fuel + 1, prof =>
    if prof.type = "chain" then
      (memberObjects E (getOutboundObject displayName fuel) prof.list).map fun members =>
        [("type", .string "chain"), ("tag", .string (displayName prof)),
          ("chain", .array members)]
    else some (prof.coreObj.insert "tag" (.string (displayName prof)))

/-! ## The members they come to -/

/-- The members of a chain. -/
def Member (a b : Profile) : Prop := a.type = "chain" ∧ ∃ id ∈ a.list, E.getProfile id = some b

/-- The core accepts a profile, and all members of a chain. -/
inductive Accepted : Profile → Prop
  | core {ent : Profile} (type : ent.type ≠ "chain") (answer : check (checkedConfig ent) = some "") :
      Accepted ent
  | chain {ent : Profile} (member : ℤ → Profile) (type : ent.type = "chain")
      (records : ∀ id ∈ ent.list, E.getProfile id = some (member id))
      (accepted : ∀ id ∈ ent.list, Accepted (member id)) : Accepted ent

/-- All members have records that are accepted. -/
def AllAccepted (ids : List ℤ) : Prop :=
  ∀ id ∈ ids, ∃ e, E.getProfile id = some e ∧ Accepted E check e

/-- The members of a chain that `IsValid` comes to: all before them are accepted. -/
def Validated (a b : Profile) : Prop :=
  a.type = "chain" ∧ ∃ before id after, a.list = before ++ id :: after ∧
    E.getProfile id = some b ∧ AllAccepted E check before

end

variable {E : Environment} {check : JsonObject → Option String} {displayName : Profile → String}

theorem finite_records (ids : List ℤ) : {b | ∃ id ∈ ids, E.getProfile id = some b}.Finite := by
  apply (List.finite_toSet (ids.filterMap E.getProfile)).subset
  intro b hb
  exact List.mem_filterMap.mpr hb

/-! ## `getOutboundObject` returns -/

theorem isSome_memberObjects {object : Profile → Option JsonObject} {ids : List ℤ} :
    (memberObjects E object ids).isSome ↔
      ∀ b, (∃ id ∈ ids, E.getProfile id = some b) → (object b).isSome := by
  induction ids with
  | nil => simp [memberObjects]
  | cons id ids ih =>
    unfold memberObjects
    cases hid : E.getProfile id with
    | none =>
      dsimp only
      rw [ih]
      simp [hid]
    | some e =>
      have hsplit : (∀ b, (∃ i ∈ id :: ids, E.getProfile i = some b) → (object b).isSome) ↔
          (object e).isSome ∧ (memberObjects E object ids).isSome := by
        rw [ih]
        constructor
        · intro h
          exact ⟨h e ⟨id, List.mem_cons_self, hid⟩,
            fun b ⟨i, hi, hb⟩ => h b ⟨i, List.mem_cons_of_mem id hi, hb⟩⟩
        · rintro ⟨he, hrest⟩ b ⟨i, hi, hb⟩
          rcases List.mem_cons.mp hi with rfl | hi
          · rw [hid] at hb
            rwa [← Option.some.inj hb]
          · exact hrest b ⟨i, hi, hb⟩
      rw [hsplit]
      dsimp only
      cases he : object e with
      | none => simp
      | some o => cases memberObjects E object ids <;> simp

theorem recursion_getOutboundObject :
    Recursion (getOutboundObject E displayName) (Member E) where
  zero _ := rfl
  succ n a := by
    rw [getOutboundObject]
    by_cases htype : a.type = "chain"
    · rw [if_pos htype, Option.isSome_map, isSome_memberObjects]
      exact forall_congr' fun b => ⟨fun h hb => h hb.2, fun h hb => h ⟨htype, hb⟩⟩
    · rw [if_neg htype]
      exact ⟨fun _ b hb => absurd hb.1 htype, fun _ => rfl⟩
  finite a := (finite_records a.list).subset fun _ hb => hb.2

/-! ## `IsValid` returns -/

theorem allAccepted_cons {id : ℤ} {ids : List ℤ} {e : Profile} (hid : E.getProfile id = some e) :
    AllAccepted E check (id :: ids) ↔ Accepted E check e ∧ AllAccepted E check ids := by
  unfold AllAccepted
  rw [List.forall_mem_cons, hid]
  simp

section

variable {valid : Profile → Option Bool}
  (answers : ∀ e v, valid e = some v → (v = true ↔ Accepted E check e))

include answers

theorem membersValid_iff {ids : List ℤ} {v : Bool} (h : membersValid E valid ids = some v) :
    v = true ↔ AllAccepted E check ids := by
  induction ids with
  | nil =>
    obtain rfl := Option.some.inj h
    simp [AllAccepted]
  | cons id ids ih =>
    unfold membersValid at h
    cases hid : E.getProfile id with
    | none =>
      rw [hid] at h
      obtain rfl := Option.some.inj h
      simp [AllAccepted, hid]
    | some e =>
      rw [hid] at h
      dsimp only at h
      rw [allAccepted_cons hid]
      cases he : valid e with
      | none =>
        rw [he] at h
        cases h
      | some accepted =>
        have haccepted := answers e accepted he
        rw [he] at h
        cases accepted with
        | false =>
          obtain rfl := Option.some.inj h
          simp [← haccepted]
        | true => rw [ih h, and_iff_right (haccepted.mp rfl)]

/-- The loop ends if it ends on each member that it comes to. -/
theorem isSome_membersValid {ids : List ℤ} :
    (membersValid E valid ids).isSome ↔ ∀ before id after b, ids = before ++ id :: after →
      E.getProfile id = some b → AllAccepted E check before → (valid b).isSome := by
  induction ids with
  | nil => simp [membersValid]
  | cons id ids ih =>
    unfold membersValid
    cases hid : E.getProfile id with
    | none =>
      refine ⟨fun _ => ?_, fun _ => rfl⟩
      intro before i after b hsplit hb hbefore
      cases before with
      | nil =>
        rw [← (List.cons.inj hsplit).1, hid] at hb
        cases hb
      | cons j before =>
        obtain ⟨e, he, -⟩ := hbefore j List.mem_cons_self
        rw [← (List.cons.inj hsplit).1, hid] at he
        cases he
    | some e =>
      dsimp only
      constructor
      · intro h before i after b hsplit hb hbefore
        cases before with
        | nil =>
          rw [← (List.cons.inj hsplit).1, hid] at hb
          rw [← Option.some.inj hb]
          cases he : valid e with
          | none =>
            rw [he] at h
            cases h
          | some v => rfl
        | cons j before =>
          obtain ⟨rfl, hrest⟩ := List.cons.inj hsplit
          obtain ⟨haccepted, hbefore⟩ := (allAccepted_cons hid).mp hbefore
          cases he : valid e with
          | none =>
            rw [he] at h
            cases h
          | some v =>
            obtain rfl := (answers e v he).mpr haccepted
            rw [he] at h
            exact ih.mp h before i after b hrest hb hbefore
      · intro h
        have hfirst : (valid e).isSome := h [] id ids e rfl hid fun i hi => absurd hi List.not_mem_nil
        obtain ⟨v, hv⟩ := Option.isSome_iff_exists.mp hfirst
        rw [hv]
        cases v with
        | false => rfl
        | true =>
          apply ih.mpr
          intro before i after b hsplit hb hbefore
          apply h (id :: before) i after b (by rw [hsplit]; rfl) hb
          exact (allAccepted_cons hid).mpr ⟨(answers e true hv).mp rfl, hbefore⟩

end

/-- What `IsValid` answers. -/
theorem isValid_iff {n : ℕ} {a : Profile} {v : Bool} (h : isValid E check n a = some v) :
    v = true ↔ Accepted E check a := by
  induction n generalizing a v with
  | zero => cases h
  | succ n ih =>
    unfold isValid at h
    by_cases htype : a.type = "chain"
    · rw [if_pos htype] at h
      rw [membersValid_iff (fun e v => ih) h]
      constructor
      · intro hall
        have : Nonempty Profile := ⟨a⟩
        unfold AllAccepted at hall
        choose! member hrecord haccepted using hall
        exact .chain member htype hrecord haccepted
      · intro haccepted
        cases haccepted with
        | core hcore => exact absurd htype hcore
        | chain member _ hrecords hall =>
          exact fun id hid => ⟨member id, hrecords id hid, hall id hid⟩
    · rw [if_neg htype] at h
      obtain rfl := Option.some.inj h
      rw [decide_eq_true_iff]
      constructor
      · exact .core htype
      · intro haccepted
        cases haccepted with
        | core _ hanswer => exact hanswer
        | chain _ hchain => exact absurd hchain htype

theorem recursion_isValid : Recursion (isValid E check) (Validated E check) where
  zero _ := rfl
  succ n a := by
    rw [isValid]
    by_cases htype : a.type = "chain"
    · rw [if_pos htype, isSome_membersValid fun e v => isValid_iff]
      constructor
      · rintro h b ⟨-, before, id, after, hsplit, hb, hbefore⟩
        exact h before id after b hsplit hb hbefore
      · intro h before id after b hsplit hb hbefore
        exact h b ⟨htype, before, id, after, hsplit, hb, hbefore⟩
    · rw [if_neg htype]
      exact ⟨fun _ b hb => absurd hb.1 htype, fun _ => rfl⟩
  finite a := by
    apply (finite_records a.list).subset
    rintro b ⟨-, before, id, after, hsplit, hb, -⟩
    refine ⟨id, ?_, hb⟩
    rw [hsplit]
    exact List.mem_append_right before List.mem_cons_self

/-! ## Chains that contain themselves -/

/-- Only records of the database are called upon. -/
theorem finite_reaches {calls : Profile → Profile → Prop}
    (hrecords : {id | (E.getProfile id).isSome}.Finite)
    (hcalls : ∀ a b, calls a b → Member E a b) (a : Profile) : {b | Reaches calls a b}.Finite := by
  have hall : {b | ∃ id, E.getProfile id = some b}.Finite := by
    apply (hrecords.image fun id => (E.getProfile id).getD a).subset
    rintro b ⟨id, hb⟩
    refine ⟨id, ?_, ?_⟩
    · show (E.getProfile id).isSome
      rw [hb]
      rfl
    · show (E.getProfile id).getD a = b
      rw [hb]
      rfl
  apply (hall.insert a).subset
  intro b hb
  rcases Relation.ReflTransGen.cases_tail hb with rfl | ⟨c, -, hc⟩
  · exact Set.mem_insert _ _
  · obtain ⟨-, id, -, hid⟩ := hcalls c b hc
    exact Set.mem_insert_of_mem _ ⟨id, hid⟩

theorem Validated.member {a b : Profile} (h : Validated E check a b) : Member E a b := by
  obtain ⟨htype, before, id, after, hsplit, hb, -⟩ := h
  refine ⟨htype, id, ?_, hb⟩
  rw [hsplit]
  exact List.mem_append_right before List.mem_cons_self

/-- For every database: `getOutboundObject` returns if and only if no chain among the
    profile and its members, at any depth, leads back to itself; and `IsValid` the same
    for the members it comes to, those before which all members of their chain are
    accepted. -/
theorem returns_iff_no_self_chain (hrecords : {id | (E.getProfile id).isSome}.Finite)
    (ent : Profile) :
    (Returns (getOutboundObject E displayName) ent ↔
        ∀ b, Reaches (Member E) ent b → ¬ Cyclic (Member E) b) ∧
      (Returns (isValid E check) ent ↔
        ∀ b, Reaches (Validated E check) ent b → ¬ Cyclic (Validated E check) b) :=
  ⟨returns_iff_no_cycle recursion_getOutboundObject (finite_reaches hrecords (fun _ _ => id) ent),
    returns_iff_no_cycle recursion_isValid
      (finite_reaches hrecords (fun _ _ => Validated.member) ent)⟩

/-- A chain with itself as its only member. -/
def selfChain : Profile where
  id := 1
  gid := 0
  type := "chain"
  serverAddress := ""
  coreObj := []
  coreError := ""
  customOutbound := []
  muxState := 0
  enableBrutal := false
  brutalSpeed := 0
  stream := none
  core := ""
  configSimple := []
  mtu := 0
  transportPacketJunkSize := 0
  useSystemInterface := false
  list := [1]

/-- The database that holds nothing else. -/
def selfChainEnvironment : Environment where
  getProfile := fun id => if id = 1 then some selfChain else none
  getGroup := fun _ => some ⟨-1, -1⟩
  muxConcurrency := 8
  muxDefaultOn := false
  muxProtocol := "smux"
  muxPadding := false
  isAdmin := true
  isIpAddress := fun _ => true

theorem finite_selfChainEnvironment : {id | (selfChainEnvironment.getProfile id).isSome}.Finite := by
  apply (Set.finite_singleton (1 : ℤ)).subset
  intro id hid
  change (if id = 1 then some selfChain else none).isSome at hid
  split_ifs at hid with h
  · exact h
  · cases hid

theorem returns_iff_no_self_chain_sample :
    (Returns (getOutboundObject selfChainEnvironment fun _ => "") selfChain ↔
        ∀ b, Reaches (Member selfChainEnvironment) selfChain b →
          ¬ Cyclic (Member selfChainEnvironment) b) ∧
      (Returns (isValid selfChainEnvironment fun _ => some "") selfChain ↔
        ∀ b, Reaches (Validated selfChainEnvironment fun _ => some "") selfChain b →
          ¬ Cyclic (Validated selfChainEnvironment fun _ => some "") b) :=
  returns_iff_no_self_chain finite_selfChainEnvironment selfChain

/-- Neither function returns on a chain that contains itself. -/
theorem self_chain_never_returns :
    ¬ Returns (getOutboundObject selfChainEnvironment fun _ => "") selfChain ∧
      ¬ Returns (isValid selfChainEnvironment fun _ => some "") selfChain := by
  constructor
  · rw [returns_iff_acc recursion_getOutboundObject]
    apply not_acc_of_cyclic
    exact .single ⟨rfl, 1, List.mem_singleton_self _, rfl⟩
  · rw [returns_iff_acc recursion_isValid]
    apply not_acc_of_cyclic
    exact .single ⟨rfl, [], 1, [], rfl, rfl, fun i hi => absurd hi List.not_mem_nil⟩

end NekoBox.Config
