import NekoBox.Config.Validation

/-!
# Validation call by call

`IsValid` (`ConfigBuilder.cpp`, lines 543–600) when the core may answer each call of
`CheckConfig` differently, or not at all. `Validation` has the case that the answer depends
on the configuration only.

The calls follow a walk through the identifiers: a chain is replaced by its members, a
profile is passed when the core's answer is empty. `IsValid` is `false` both where the walk
stops at a profile that is refused and where it stops because there is no answer.

* `isValidFrom_const`: the answers of `Validation`;
* `ends_iff`: `IsValid` returns exactly when the walk has an end;
* `isValidFrom_true_iff`, `isValidFrom_false_iff`: what it answers;
* `ends_of_no_self_chain`: the walk has an end where no chain leads back to itself.
-/

namespace NekoBox.Config

open NekoBox.Store NekoBox.Lib Descent

section

variable (E : Environment) (answer : ℕ → JsonObject → Option String)

/-! ## The code -/

/-- The loop over the members of a chain (lines 552–562), with the number of calls of
    `CheckConfig` that came before. -/
def membersValidFrom (valid : Profile → ℕ → Option (Bool × ℕ)) :
    List ℤ → ℕ → Option (Bool × ℕ)
  | [], calls => some (true, calls)
  | id :: ids, calls =>
    match E.getProfile id with
    | none => some (false, calls)
    | some e =>
      match valid e calls with
      | none => none
      | some (false, calls) => some (false, calls)
      | some (true, calls) => membersValidFrom valid ids calls

/-- `IsValid`, of a profile that is not null. `answer` is `CheckConfig`: for each call none if
    the core cannot be contacted, and else its answer. -/
def isValidFrom : ℕ → Profile → ℕ → Option (Bool × ℕ)
  | 0, _, _ => none
  | fuel + 1, ent, calls =>
    if ent.type = "chain" then membersValidFrom E (isValidFrom fuel) ent.list calls
    else some (answer calls (checkedConfig ent) = some "", calls + 1)

/-! ## The walk -/

/-- The identifiers that are still to be checked, and the calls made. -/
abbrev Place := List ℤ × ℕ

/-- One step of the walk. -/
inductive Next : Place → Place → Prop where
  | chain {id : ℤ} {ids : List ℤ} {calls : ℕ} {e : Profile} (record : E.getProfile id = some e)
      (type : e.type = "chain") : Next (id :: ids, calls) (e.list ++ ids, calls)
  | accepted {id : ℤ} {ids : List ℤ} {calls : ℕ} {e : Profile}
      (record : E.getProfile id = some e) (type : e.type ≠ "chain")
      (empty : answer calls (checkedConfig e) = some "") : Next (id :: ids, calls) (ids, calls + 1)

/-- A profile without a record, or one for which the core answers with an error. -/
inductive Refused : Place → Prop where
  | missing {id : ℤ} {ids : List ℤ} {calls : ℕ} (record : E.getProfile id = none) :
      Refused (id :: ids, calls)
  | error {id : ℤ} {ids : List ℤ} {calls : ℕ} {e : Profile} {text : String}
      (record : E.getProfile id = some e) (type : e.type ≠ "chain")
      (error : answer calls (checkedConfig e) = some text) (nonempty : text ≠ "") :
      Refused (id :: ids, calls)

/-- A profile for which the core gives no answer. -/
inductive Unanswered : Place → Prop where
  | mk {id : ℤ} {ids : List ℤ} {calls : ℕ} {e : Profile} (record : E.getProfile id = some e)
      (type : e.type ≠ "chain") (none : answer calls (checkedConfig e) = none) :
      Unanswered (id :: ids, calls)

/-- The check of a profile comes to one that is refused. -/
def Rejected (id : ℤ) : Prop := ∃ p, Reaches (Next E answer) ([id], 0) p ∧ Refused E answer p

/-- The core gives an answer to every call that the check makes. -/
def Answered (id : ℤ) : Prop := ∀ p, Reaches (Next E answer) ([id], 0) p → ¬ Unanswered E answer p

/-- The check comes to an end. -/
def Ends (id : ℤ) : Prop := Acc (fun q p => Next E answer p q) ([id], 0)

end

variable {E : Environment} {answer : ℕ → JsonObject → Option String}
  {check : JsonObject → Option String}

/-! ## Constant answers -/

theorem membersValidFrom_const {valid : Profile → ℕ → Option (Bool × ℕ)}
    {valid' : Profile → Option Bool} (h : ∀ e calls, (valid e calls).map Prod.fst = valid' e)
    (ids : List ℤ) (calls : ℕ) :
    (membersValidFrom E valid ids calls).map Prod.fst = membersValid E valid' ids := by
  induction ids generalizing calls with
  | nil => rfl
  | cons id ids ih =>
    unfold membersValidFrom membersValid
    cases E.getProfile id with
    | none => rfl
    | some e =>
      have he := h e calls
      dsimp only
      cases hvalid : valid e calls with
      | none =>
        rw [hvalid] at he
        rw [← he]
        rfl
      | some p =>
        obtain ⟨v, calls'⟩ := p
        rw [hvalid] at he
        rw [← he]
        cases v with
        | false => rfl
        | true => exact ih calls'

theorem isValidFrom_const (fuel : ℕ) (ent : Profile) (calls : ℕ) :
    (isValidFrom E (fun _ => check) fuel ent calls).map Prod.fst = isValid E check fuel ent := by
  induction fuel generalizing ent calls with
  | zero => rfl
  | succ fuel ih =>
    unfold isValidFrom isValid
    split_ifs
    · exact membersValidFrom_const ih ent.list calls
    · rfl

/-! ## Where the walk stops -/

theorem rightUnique_next : Relator.RightUnique (Next E answer) := by
  intro p q q' h h'
  cases h with
  | chain hrecord htype =>
    cases h' with
    | chain hrecord' _ =>
      obtain rfl := Option.some.inj (hrecord.symm.trans hrecord')
      rfl
    | accepted hrecord' htype' _ =>
      obtain rfl := Option.some.inj (hrecord.symm.trans hrecord')
      exact absurd htype htype'
  | accepted hrecord htype _ =>
    cases h' with
    | chain hrecord' htype' =>
      obtain rfl := Option.some.inj (hrecord.symm.trans hrecord')
      exact absurd htype' htype
    | accepted => rfl

theorem Refused.not_next {p q : Place} (h : Refused E answer p) : ¬ Next E answer p q := by
  intro hnext
  cases h with
  | missing hrecord =>
    cases hnext with
    | chain hrecord' => exact absurd (hrecord'.symm.trans hrecord) (Option.some_ne_none _)
    | accepted hrecord' => exact absurd (hrecord'.symm.trans hrecord) (Option.some_ne_none _)
  | error hrecord htype herror hnonempty =>
    cases hnext with
    | chain hrecord' htype' =>
      obtain rfl := Option.some.inj (hrecord.symm.trans hrecord')
      exact htype htype'
    | accepted hrecord' _ hempty =>
      obtain rfl := Option.some.inj (hrecord.symm.trans hrecord')
      exact hnonempty (Option.some.inj (herror.symm.trans hempty))

theorem Unanswered.not_next {p q : Place} (h : Unanswered E answer p) : ¬ Next E answer p q := by
  intro hnext
  obtain ⟨hrecord, htype, hnone⟩ := h
  cases hnext with
  | chain hrecord' htype' =>
    obtain rfl := Option.some.inj (hrecord.symm.trans hrecord')
    exact htype htype'
  | accepted hrecord' _ hempty =>
    obtain rfl := Option.some.inj (hrecord.symm.trans hrecord')
    exact absurd (hempty.symm.trans hnone) (Option.some_ne_none _)

theorem Unanswered.not_refused {p : Place} (h : Unanswered E answer p) : ¬ Refused E answer p := by
  obtain ⟨hrecord, htype, hnone⟩ := h
  intro hrefused
  cases hrefused with
  | missing hrecord' => exact absurd (hrecord.symm.trans hrecord') (Option.some_ne_none _)
  | error hrecord' _ herror =>
    obtain rfl := Option.some.inj (hrecord.symm.trans hrecord')
    exact absurd (herror.symm.trans hnone) (Option.some_ne_none _)

theorem not_next_nil {calls : ℕ} {q : Place} : ¬ Next E answer ([], calls) q := fun h => nomatch h

/-! ## `IsValid` and the walk -/

/-- The walk from `p` to `q`, or to where it stops. -/
def Leads (E : Environment) (answer : ℕ → JsonObject → Option String) (p : Place) (v : Bool)
    (q : Place) : Prop :=
  (v = true → Reaches (Next E answer) p q) ∧
    (v = false → ∃ p', Reaches (Next E answer) p p' ∧
      (Refused E answer p' ∨ Unanswered E answer p'))

theorem Leads.head {p p' q : Place} {v : Bool} (hnext : Next E answer p p')
    (h : Leads E answer p' v q) : Leads E answer p v q := by
  refine ⟨fun hv => (h.1 hv).head hnext, fun hv => ?_⟩
  obtain ⟨s, hreaches, hstops⟩ := h.2 hv
  exact ⟨s, hreaches.head hnext, hstops⟩

theorem Leads.of_stops {p : Place} (h : Refused E answer p ∨ Unanswered E answer p) (q : Place) :
    Leads E answer p false q :=
  ⟨fun hv => absurd hv Bool.false_ne_true, fun _ => ⟨p, .refl, h⟩⟩

/-- One after another. -/
theorem Leads.trans {p q r : Place} {v : Bool} (h : Leads E answer p true q)
    (h' : Leads E answer q v r) : Leads E answer p v r := by
  refine ⟨fun hv => (h.1 rfl).trans (h'.1 hv), fun hv => ?_⟩
  obtain ⟨s, hreaches, hstops⟩ := h'.2 hv
  exact ⟨s, (h.1 rfl).trans hreaches, hstops⟩

theorem Leads.false_of {p q : Place} (h : Leads E answer p false q) (r : Place) :
    Leads E answer p false r :=
  ⟨fun hv => absurd hv Bool.false_ne_true, h.2⟩

theorem leads_membersValidFrom {valid : Profile → ℕ → Option (Bool × ℕ)}
    (hvalid : ∀ e calls v calls' id rest, E.getProfile id = some e →
      valid e calls = some (v, calls') → Leads E answer (id :: rest, calls) v (rest, calls'))
    {ids : List ℤ} {calls calls' : ℕ} {v : Bool}
    (h : membersValidFrom E valid ids calls = some (v, calls')) (rest : List ℤ) :
    Leads E answer (ids ++ rest, calls) v (rest, calls') := by
  induction ids generalizing calls with
  | nil =>
    obtain ⟨rfl, rfl⟩ := Prod.mk.inj (Option.some.inj h)
    exact ⟨fun _ => .refl, fun hv => absurd hv.symm Bool.false_ne_true⟩
  | cons id ids ih =>
    unfold membersValidFrom at h
    rw [List.cons_append]
    cases hrecord : E.getProfile id with
    | none =>
      rw [hrecord] at h
      obtain ⟨rfl, rfl⟩ := Prod.mk.inj (Option.some.inj h)
      exact .of_stops (.inl (.missing hrecord)) _
    | some e =>
      rw [hrecord] at h
      dsimp only at h
      cases he : valid e calls with
      | none =>
        rw [he] at h
        exact nomatch h
      | some p =>
        obtain ⟨v', k⟩ := p
        have hfirst := hvalid e calls v' k id (ids ++ rest) hrecord he
        rw [he] at h
        cases v' with
        | false =>
          obtain ⟨rfl, rfl⟩ := Prod.mk.inj (Option.some.inj h)
          exact hfirst.false_of _
        | true => exact hfirst.trans (ih h)

theorem leads_isValidFrom {fuel : ℕ} {ent : Profile} {calls calls' : ℕ} {v : Bool} {id : ℤ}
    (hrecord : E.getProfile id = some ent)
    (h : isValidFrom E answer fuel ent calls = some (v, calls')) (rest : List ℤ) :
    Leads E answer (id :: rest, calls) v (rest, calls') := by
  induction fuel generalizing ent calls calls' v id rest with
  | zero => exact nomatch h
  | succ fuel ih =>
    unfold isValidFrom at h
    split_ifs at h with htype
    · refine .head (.chain hrecord htype) ?_
      exact leads_membersValidFrom (fun e k v k' i rest hi he => ih hi he rest) h rest
    · obtain ⟨hv, rfl⟩ := Prod.mk.inj (Option.some.inj h)
      cases hanswer : answer calls (checkedConfig ent) with
      | none =>
        rw [hanswer] at hv
        obtain rfl : false = v := hv
        exact .of_stops (.inr ⟨hrecord, htype, hanswer⟩) _
      | some text =>
        by_cases hempty : text = ""
        · rw [hanswer, hempty] at hv
          obtain rfl : true = v := hv
          have hnext : Next E answer (id :: rest, calls) (rest, calls + 1) :=
            .accepted hrecord htype (by rw [hanswer, hempty])
          exact ⟨fun _ => .single hnext, fun hv => absurd hv.symm Bool.false_ne_true⟩
        · have hne : ¬ answer calls (checkedConfig ent) = some "" := by
            rw [hanswer]
            exact fun h => hempty (Option.some.inj h)
          rw [decide_eq_false hne] at hv
          obtain rfl : false = v := hv
          exact .of_stops (.inl (.error hrecord htype hanswer hempty)) _

/-! ## Fuel -/

theorem membersValidFrom_mono {valid valid' : Profile → ℕ → Option (Bool × ℕ)}
    (hvalid : ∀ e calls r, valid e calls = some r → valid' e calls = some r) {ids : List ℤ}
    {calls : ℕ} {r : Bool × ℕ} (h : membersValidFrom E valid ids calls = some r) :
    membersValidFrom E valid' ids calls = some r := by
  induction ids generalizing calls with
  | nil => exact h
  | cons id ids ih =>
    unfold membersValidFrom at h ⊢
    cases hrecord : E.getProfile id with
    | none =>
      rw [hrecord] at h
      exact h
    | some e =>
      rw [hrecord] at h
      dsimp only at h ⊢
      cases he : valid e calls with
      | none =>
        rw [he] at h
        exact nomatch h
      | some p =>
        obtain ⟨v, k⟩ := p
        rw [he] at h
        rw [hvalid e calls (v, k) he]
        cases v with
        | false => exact h
        | true => exact ih h

theorem isValidFrom_succ {fuel : ℕ} {ent : Profile} {calls : ℕ} {r : Bool × ℕ}
    (h : isValidFrom E answer fuel ent calls = some r) :
    isValidFrom E answer (fuel + 1) ent calls = some r := by
  induction fuel generalizing ent calls r with
  | zero => exact nomatch h
  | succ fuel ih =>
    unfold isValidFrom at h ⊢
    split_ifs at h ⊢
    · exact membersValidFrom_mono (fun e k r => ih) h
    · exact h

theorem isValidFrom_le {fuel fuel' : ℕ} (hle : fuel ≤ fuel') {ent : Profile} {calls : ℕ}
    {r : Bool × ℕ} (h : isValidFrom E answer fuel ent calls = some r) :
    isValidFrom E answer fuel' ent calls = some r := by
  induction hle with
  | refl => exact h
  | step _ ih => exact isValidFrom_succ ih

theorem membersValidFrom_append (valid : Profile → ℕ → Option (Bool × ℕ)) (ids ids' : List ℤ)
    (calls : ℕ) : membersValidFrom E valid (ids ++ ids') calls =
      (membersValidFrom E valid ids calls).bind fun r =>
        if r.1 then membersValidFrom E valid ids' r.2 else some r := by
  induction ids generalizing calls with
  | nil => rfl
  | cons id ids ih =>
    rw [List.cons_append, membersValidFrom, membersValidFrom]
    cases E.getProfile id with
    | none => rfl
    | some e =>
      dsimp only
      cases valid e calls with
      | none => rfl
      | some p =>
        obtain ⟨v, k⟩ := p
        cases v with
        | false => rfl
        | true => exact ih k

/-- A walk with an end is followed to it. -/
theorem exists_fuel_of_acc {p : Place} (h : Acc (fun q p => Next E answer p q) p) :
    ∃ fuel r, membersValidFrom E (isValidFrom E answer fuel) p.1 p.2 = some r := by
  induction h with
  | intro p _ ih =>
    obtain ⟨ids, calls⟩ := p
    cases ids with
    | nil => exact ⟨0, _, rfl⟩
    | cons id ids =>
      cases hrecord : E.getProfile id with
      | none => exact ⟨0, (false, calls), by simp [membersValidFrom, hrecord]⟩
      | some e =>
        by_cases htype : e.type = "chain"
        · obtain ⟨fuel, r, hr⟩ := ih _ (.chain hrecord htype)
          rw [membersValidFrom_append] at hr
          obtain ⟨⟨v, k⟩, hmembers, hrest⟩ := Option.bind_eq_some_iff.mp hr
          have he : isValidFrom E answer (fuel + 1) e calls = some (v, k) := by
            rw [isValidFrom, if_pos htype]
            exact hmembers
          cases v with
          | false => exact ⟨fuel + 1, (false, k), by simp [membersValidFrom, hrecord, he]⟩
          | true =>
            have hrest' := membersValidFrom_mono (fun e k r => isValidFrom_succ) hrest
            exact ⟨fuel + 1, r, by simp [membersValidFrom, hrecord, he, hrest']⟩
        · by_cases hempty : answer calls (checkedConfig e) = some ""
          · obtain ⟨fuel, r, hr⟩ := ih _ (.accepted hrecord htype hempty)
            have hr' : membersValidFrom E (isValidFrom E answer (fuel + 1)) ids (calls + 1) =
                some r := membersValidFrom_mono (fun e k r => isValidFrom_succ) hr
            have he : isValidFrom E answer (fuel + 1) e calls = some (true, calls + 1) := by
              rw [isValidFrom, if_neg htype, hempty, decide_eq_true rfl]
            exact ⟨fuel + 1, r, by simp [membersValidFrom, hrecord, he, hr']⟩
          · exact ⟨1, (false, calls + 1),
              by simp [membersValidFrom, isValidFrom, hrecord, htype, hempty]⟩

/-! ## What `IsValid` answers -/

section

variable {id : ℤ} {ent : Profile} (hrecord : E.getProfile id = some ent)

include hrecord

theorem ends_iff : Ends E answer id ↔ ∃ fuel r, isValidFrom E answer fuel ent 0 = some r := by
  constructor
  · intro h
    obtain ⟨fuel, r, hr⟩ := exists_fuel_of_acc h
    unfold membersValidFrom at hr
    rw [hrecord] at hr
    dsimp only at hr
    cases he : isValidFrom E answer fuel ent 0 with
    | none =>
      rw [he] at hr
      exact nomatch hr
    | some p => exact ⟨fuel, p, he⟩
  · rintro ⟨fuel, ⟨v, k⟩, h⟩
    have hleads := leads_isValidFrom hrecord h []
    cases v with
    | true => exact acc_of_reaches_end rightUnique_next (hleads.1 rfl) fun q => not_next_nil
    | false =>
      obtain ⟨p, hreaches, hstops⟩ := hleads.2 rfl
      refine acc_of_reaches_end rightUnique_next hreaches fun q => ?_
      exact hstops.elim (fun h => h.not_next) fun h => h.not_next

/-- It is `true` when all calls are answered and nothing is refused. -/
theorem isValidFrom_true {fuel calls : ℕ}
    (h : isValidFrom E answer fuel ent 0 = some (true, calls)) :
    ¬ Rejected E answer id ∧ Answered E answer id := by
  have hreaches := (leads_isValidFrom hrecord h []).1 rfl
  constructor
  · rintro ⟨p, hp, hrefused⟩
    have heq := eq_of_ends rightUnique_next hp hreaches (fun q => hrefused.not_next)
      fun q => not_next_nil
    rw [heq] at hrefused
    exact nomatch hrefused
  · intro p hp hunanswered
    have heq := eq_of_ends rightUnique_next hp hreaches (fun q => hunanswered.not_next)
      fun q => not_next_nil
    rw [heq] at hunanswered
    exact nomatch hunanswered

/-- Where it is `false`, something is refused or a call is not answered, and not both. -/
theorem isValidFrom_false {fuel calls : ℕ}
    (h : isValidFrom E answer fuel ent 0 = some (false, calls)) :
    Rejected E answer id ↔ Answered E answer id := by
  obtain ⟨p, hp, hstops⟩ := (leads_isValidFrom hrecord h []).2 rfl
  constructor
  · rintro ⟨q, hq, hrefused⟩ q' hq' hunanswered
    obtain rfl := eq_of_ends rightUnique_next hq hq' (fun q => hrefused.not_next)
      fun q => hunanswered.not_next
    exact hunanswered.not_refused hrefused
  · intro hanswered
    exact ⟨p, hp, hstops.resolve_right (hanswered p hp)⟩

end

/-! ## Chains without loops -/

theorem exists_fuel_of_members {ids : List ℤ}
    (h : ∀ b, (∃ id ∈ ids, E.getProfile id = some b) → ∀ calls, ∃ fuel r,
      isValidFrom E answer fuel b calls = some r) (calls : ℕ) :
    ∃ fuel r, membersValidFrom E (isValidFrom E answer fuel) ids calls = some r := by
  induction ids generalizing calls with
  | nil => exact ⟨0, _, rfl⟩
  | cons id ids ih =>
    cases hrecord : E.getProfile id with
    | none => exact ⟨0, (false, calls), by simp [membersValidFrom, hrecord]⟩
    | some e =>
      obtain ⟨fuel, ⟨v, k⟩, he⟩ := h e ⟨id, List.mem_cons_self, hrecord⟩ calls
      cases v with
      | false => exact ⟨fuel, (false, k), by simp [membersValidFrom, hrecord, he]⟩
      | true =>
        obtain ⟨fuel', r, hr⟩ := ih (fun b ⟨i, hi, hb⟩ => h b ⟨i, List.mem_cons_of_mem id hi, hb⟩) k
        have he' := isValidFrom_le (le_max_left fuel fuel') he
        have hr' := membersValidFrom_mono
          (fun e k r => isValidFrom_le (le_max_right fuel fuel')) hr
        exact ⟨max fuel fuel', r, by simp [membersValidFrom, hrecord, he', hr']⟩

/-- The check of a profile has an end where no chain among it and its members, at any depth,
    leads back to itself. -/
theorem ends_of_no_self_chain (hrecords : {i | (E.getProfile i).isSome}.Finite) {id : ℤ}
    {ent : Profile} (hrecord : E.getProfile id = some ent)
    (h : ∀ b, Reaches (Member E) ent b → ¬ Cyclic (Member E) b) : Ends E answer id := by
  have hacc := acc_of_no_cycle (finite_reaches hrecords (fun _ _ hb => hb) ent) h
  have hfuel : ∀ calls, ∃ fuel r, isValidFrom E answer fuel ent calls = some r := by
    clear h hrecord
    induction hacc with
    | intro a _ ih =>
      intro calls
      by_cases htype : a.type = "chain"
      · obtain ⟨fuel, r, hr⟩ := exists_fuel_of_members (fun b hb => ih b ⟨htype, hb⟩) calls
        exact ⟨fuel + 1, r, by rw [isValidFrom, if_pos htype, hr]⟩
      · exact ⟨1, _, by rw [isValidFrom, if_neg htype]⟩
  exact (ends_iff hrecord).mpr (hfuel 0)

end NekoBox.Config
