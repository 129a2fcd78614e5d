import NekoBox.Link.DataNode

/-!
# JSON through a node

A JSON value is made into a `Data::Node`, and the node into a text (`toQuoted`) or a value
(`toVariant`) again, as it happens to the `extra` settings of an xhttp transport
(`Json2Bean.cpp`, lines 85–90).

* `text_iff`: the text is a JSON text of the value exactly when the value is `Clean`;
* `variant_iff`: the value made of the node is the value exactly when no two keys of an object
  are one to `EnumFieldName` (`Apart`).
-/

namespace NekoBox.Link

open NekoBox.Lib NekoBox.Lib.OrderedMap NekoBox.Lib.JsonText NekoBox.Store

namespace Data

variable {D : Type}

/-! ## Values -/

/-- The members of every object are in the order of their keys. -/
inductive WellFormed : Value D → Prop
  | null : WellFormed .null
  | bool (b) : WellFormed (.bool b)
  | number (d) : WellFormed (.number d)
  | string (s) : WellFormed (.string s)
  | array {l} : (∀ v ∈ l, WellFormed v) → WellFormed (.array l)
  | object {o} : Ordered units16 o → (∀ e ∈ o, WellFormed e.2) → WellFormed (.object o)

/-- No two keys are equal up to their case, `_` and `-`. -/
def KeysApart (Q : Conversions D) (o : List (String × Value D)) : Prop :=
  (o.map fun e => nameKey Q e.1).Nodup

/-- The keys of all objects are apart. -/
inductive Apart (Q : Conversions D) : Value D → Prop
  | null : Apart Q .null
  | bool (b) : Apart Q (.bool b)
  | number (d) : Apart Q (.number d)
  | string (s) : Apart Q (.string s)
  | array {l} : (∀ v ∈ l, Apart Q v) → Apart Q (.array l)
  | object {o} : KeysApart Q o → (∀ e ∈ o, Apart Q e.2) → Apart Q (.object o)

/-- There is no null, no control character in a string or key and no number that six digits do
    not determine, and the keys of all objects are apart. -/
inductive Clean (Q : Conversions D) : Value D → Prop
  | bool (b) : Clean Q (.bool b)
  | number {d} : Q.literal (Q.number d).toList = d → Clean Q (.number d)
  | string {s} : NoControl s.toList → Clean Q (.string s)
  | array {l} : (∀ v ∈ l, Clean Q v) → Clean Q (.array l)
  | object {o} : KeysApart Q o → (∀ e ∈ o, NoControl e.1.toList) → (∀ e ∈ o, Clean Q e.2) →
      Clean Q (.object o)

/-! ## Objects -/

section Objects

variable {Q : Conversions D} {o : List (String × Value D)}

/-- The members of an object in a node are made into members again. -/
theorem rebuild_iff (ho : Ordered units16 o)
    {g : String × Node D → Option (String × Value D)} (hg : ∀ e r, g e = some r → r.1 = e.1) :
    ((∀ e ∈ assignAll (nameKey Q) (ofMembers Q o), (g e).isSome) ∧
      assignAll units16 ((assignAll (nameKey Q) (ofMembers Q o)).filterMap g) = o) ↔
      KeysApart Q o ∧ ∀ e ∈ o, g (e.1, ofValue Q e.2) = some e := by
  have hkeys : (ofMembers Q o).map (fun e => nameKey Q e.1) = o.map fun e => nameKey Q e.1 := by
    rw [ofMembers_eq, List.map_map]
    rfl
  have hlength : (ofMembers Q o).length = o.length := by
    rw [ofMembers_eq, List.length_map]
  constructor
  · rintro ⟨hsome, hback⟩
    set m := assignAll (nameKey Q) (ofMembers Q o)
    have hmembers : m.length ≤ (ofMembers Q o).length := length_assignAll_le
    have hread : (m.filterMap g).length = m.length := List.filterMap_length_eq_length.mpr hsome
    have hresult : (assignAll units16 (m.filterMap g)).length ≤ (m.filterMap g).length :=
      length_assignAll_le
    have hsame := congrArg List.length hback
    have hapart : KeysApart Q o := by
      unfold KeysApart
      rw [← hkeys]
      exact length_assignAll_eq_iff.mp (show m.length = _ by omega)
    have hperm : m.Perm (ofMembers Q o) := assignAll_perm (hkeys ▸ hapart)
    have hkeysRead := length_assignAll_eq_iff.mp
      (show (assignAll units16 (m.filterMap g)).length = (m.filterMap g).length by omega)
    have hrest : (m.filterMap g).Perm o := hback ▸ (assignAll_perm hkeysRead).symm
    refine ⟨hapart, fun e he => ?_⟩
    have hmem : (e.1, ofValue Q e.2) ∈ m := by
      rw [hperm.mem_iff, ofMembers_eq]
      exact List.mem_map_of_mem (f := fun e => (e.1, ofValue Q e.2)) he
    obtain ⟨r, hr⟩ := Option.isSome_iff_exists.mp (hsome _ hmem)
    have hro : r ∈ o := hrest.mem_iff.mp (List.mem_filterMap.mpr ⟨_, hmem, hr⟩)
    rw [hr, List.inj_on_of_nodup_map ho.nodup hro he (congrArg units16 (hg _ r hr))]
  · rintro ⟨hapart, hall⟩
    have hperm : (assignAll (nameKey Q) (ofMembers Q o)).Perm (ofMembers Q o) :=
      assignAll_perm (hkeys ▸ hapart)
    refine ⟨fun e he => ?_, ?_⟩
    · rw [hperm.mem_iff, ofMembers_eq] at he
      obtain ⟨e', he', rfl⟩ := List.mem_map.mp he
      rw [hall e' he']
      rfl
    · have hself : (ofMembers Q o).filterMap g = o := by
        rw [ofMembers_eq, List.filterMap_map]
        exact (List.filterMap_congr hall).trans List.filterMap_some
      exact assignAll_of_perm ho ((hperm.filterMap g).trans (.of_eq hself))

end Objects

/-! ## Conversion back -/

theorem map_eq_self_iff {α : Type*} {f : α → α} {l : List α} :
    l.map f = l ↔ ∀ a ∈ l, f a = a := by
  conv_lhs => rhs; rw [← List.map_id l]
  exact List.map_inj_left

/-- **The value made of the node is the value exactly when the keys are apart.** -/
theorem variant_iff (Q : Conversions D) {v : Value D} (hv : WellFormed v) :
    toVariant (ofValue Q v) = v ↔ Apart Q v := by
  induction v using Value.induction with
  | null => exact iff_of_true rfl .null
  | bool b => exact iff_of_true rfl (.bool b)
  | number d => exact iff_of_true rfl (.number d)
  | string s => exact iff_of_true rfl (.string s)
  | array l ih =>
    cases hv with
    | array hl =>
      rw [ofValue, toVariant, ofElems_eq, toVariantList_eq, List.map_map, Value.array.injEq,
        map_eq_self_iff]
      constructor
      · intro h
        exact .array fun v hmem => (ih v hmem (hl v hmem)).mp (h v hmem)
      · rintro (_ | _ | _ | _ | hapart) v hmem
        exact (ih v hmem (hl v hmem)).mpr (hapart v hmem)
  | object o ih =>
    cases hv with
    | object ho hmembers =>
      have hrebuild := rebuild_iff (Q := Q) ho (g := fun e => some (e.1, toVariant e.2))
        fun e r heq => (Option.some.inj heq) ▸ rfl
      rw [List.filterMap_eq_map'] at hrebuild
      have hsome : ∀ e ∈ assignAll (nameKey Q) (ofMembers Q o),
          (some (e.1, toVariant e.2)).isSome = true := fun _ _ => rfl
      rw [ofValue, toVariant, toVariantMap_eq, Value.object.injEq]
      refine (and_iff_right hsome).symm.trans (hrebuild.trans ?_)
      constructor
      · rintro ⟨hapart, hall⟩
        exact .object hapart fun e he =>
          (ih e he (hmembers e he)).mp (Prod.mk.inj (Option.some.inj (hall e he))).2
      · rintro (_ | _ | _ | _ | _ | ⟨hapart, hall⟩)
        exact ⟨hapart, fun e he =>
          congrArg (fun v => some (e.1, v)) ((ih e he (hmembers e he)).mpr (hall e he))⟩

/-! ## The text -/

section Text

variable (J : JsonConversions D)

theorem readElems_iff (l : List (Value D)) :
    (readElems J (ofElems J l)).map (toElems J) = some l ↔
      ∀ v ∈ l, (readBack J (ofValue J v)).map (toValue J) = some v := by
  induction l with
  | nil => exact iff_of_true rfl (by simp)
  | cons v l ih =>
    rw [ofElems, readElems, List.forall_mem_cons, ← ih]
    cases readBack J (ofValue J v) with
    | none => simp
    | some t =>
      cases readElems J (ofElems J l) with
      | none => simp
      | some ts => simp [toElems]

/-- A member that is read. -/
def readMember (e : String × Node D) : Option (String × Value D) :=
  if NoControl e.1.toList then (readBack J e.2).map fun t => (e.1, toValue J t) else none

theorem readMembers_map (m : List (String × Node D)) (r : List (String × Value D)) :
    (readMembers J m).map (toMembers J) = some r ↔
      (∀ e ∈ m, (readMember J e).isSome) ∧ m.filterMap (readMember J) = r := by
  induction m generalizing r with
  | nil => simp [readMembers, toMembers]
  | cons e m ih =>
    have hfirst : (readMembers J (e :: m)).map (toMembers J) =
        (readMember J e).bind fun e' => ((readMembers J m).map (toMembers J)).map (e' :: ·) := by
      rw [readMembers_cons, readMember]
      split_ifs
      · cases readBack J e.2 with
        | none => rfl
        | some t =>
          cases readMembers J m with
          | none => rfl
          | some ms => simp [toMembers]
      · rfl
    rw [hfirst, List.forall_mem_cons]
    cases he : readMember J e with
    | none => simp
    | some e' =>
      rw [List.filterMap_cons_some he, Option.bind_some, Option.map_eq_some_iff]
      constructor
      · rintro ⟨r', hr', rfl⟩
        obtain ⟨hall, rfl⟩ := (ih r').mp hr'
        exact ⟨⟨rfl, hall⟩, rfl⟩
      · rintro ⟨⟨-, hall⟩, rfl⟩
        exact ⟨_, (ih _).mpr ⟨hall, rfl⟩, rfl⟩

/-- The text of an array is empty between its brackets only if its one element has none. -/
theorem toQuoted_of_intercalate {n : Node D} {l : List (Node D)}
    (h : [','].intercalate (quotedElems J (n :: l)) = []) : toQuoted J n = [] ∧ l = [] := by
  cases l with
  | nil =>
    refine ⟨?_, rfl⟩
    rwa [show quotedElems J [n] = [toQuoted J n] from rfl, List.intercalate_singleton] at h
  | cons m l =>
    rw [show quotedElems J (n :: m :: l) = toQuoted J n :: toQuoted J m :: quotedElems J l from rfl,
      List.intercalate_cons_cons] at h
    simp at h

theorem readBack_of_nil {n : Node D} (h : toQuoted J n = []) : readBack J n = none := by
  cases n with
  | undefined => rfl
  | null => rfl
  | bool b => cases b <;> exact absurd h (List.cons_ne_nil _ _)
  | number d => exact absurd h (isNumber_chars (J.isNumber_number d)).1
  | string s =>
    rw [toQuoted, toList_quote] at h
    exact absurd h (List.cons_ne_nil _ _)
  | array l => exact absurd h (List.cons_ne_nil _ _)
  | map m => exact absurd h (List.cons_ne_nil _ _)

theorem readBack_array_iff (l : List (Value D)) :
    (readBack J (ofValue J (.array l))).map (toValue J) = some (.array l) ↔
      ∀ v ∈ l, (readBack J (ofValue J v)).map (toValue J) = some v := by
  rw [← readElems_iff, ofValue, readBack]
  split_ifs with hnil
  · cases l with
    | nil => exact iff_of_true rfl rfl
    | cons v l =>
      obtain ⟨htext, -⟩ := toQuoted_of_intercalate J hnil
      refine iff_of_false ?_ ?_
      · simp [toValue, toElems]
      · rw [readElems_iff]
        intro h
        have hv := h v List.mem_cons_self
        rw [readBack_of_nil J htext] at hv
        exact absurd hv (by simp)
  · rw [Option.map_map]
    cases readElems J (ofElems J l) with
    | none => simp
    | some ts => simp [toValue]

theorem object_eq_some_iff {x : Option (List (String × Value D))} {p : Prop}
    {r₀ o : List (String × Value D)} (h : ∀ r, x = some r ↔ p ∧ r₀ = r) :
    x.map (fun r => Value.object (assignAll units16 r)) = some (.object o) ↔
      p ∧ assignAll units16 r₀ = o := by
  rw [Option.map_eq_some_iff]
  constructor
  · rintro ⟨r, hr, heq⟩
    obtain ⟨hp, rfl⟩ := (h r).mp hr
    exact ⟨hp, Value.object.inj heq⟩
  · rintro ⟨hp, rfl⟩
    exact ⟨r₀, (h r₀).mpr ⟨hp, rfl⟩, rfl⟩

theorem readBack_object_iff {o : List (String × Value D)} (ho : Ordered units16 o) :
    (readBack J (ofValue J (.object o))).map (toValue J) = some (.object o) ↔
      KeysApart J o ∧ ∀ e ∈ o, NoControl e.1.toList ∧
        (readBack J (ofValue J e.2)).map (toValue J) = some e.2 := by
  have hkey : ∀ e r, readMember J e = some r → r.1 = e.1 := by
    intro e r h
    unfold readMember at h
    split_ifs at h
    obtain ⟨t, -, rfl⟩ := Option.map_eq_some_iff.mp h
    rfl
  have hmember : ∀ e : String × Value D, readMember J (e.1, ofValue J e.2) = some e ↔
      NoControl e.1.toList ∧ (readBack J (ofValue J e.2)).map (toValue J) = some e.2 := by
    intro e
    unfold readMember
    dsimp only
    split_ifs with hcontrol
    · rw [and_iff_right hcontrol, Option.map_eq_some_iff, Option.map_eq_some_iff]
      exact exists_congr fun t => and_congr_right fun _ => Prod.ext_iff.trans (and_iff_right rfl)
    · exact iff_of_false (by simp) fun h => hcontrol h.1
  have hread : (readBack J (ofValue J (.object o))).map (toValue J) =
      ((readMembers J (assignAll (nameKey J.toConversions) (ofMembers J o))).map
        (toMembers J.toConversions)).map fun r => .object (assignAll units16 r) := by
    rw [ofValue, readBack, Option.map_map, Option.map_map]
    rfl
  rw [hread, object_eq_some_iff (readMembers_map J _), rebuild_iff ho hkey]
  exact and_congr_right fun _ => forall₂_congr fun e _ => hmember e

/-- **The text of the node is read as the value exactly when the value is clean.** -/
theorem readBack_iff {v : Value D} (hv : WellFormed v) :
    (readBack J (ofValue J v)).map (toValue J) = some v ↔ Clean J v := by
  induction v using Value.induction with
  | null => exact iff_of_false (by simp [ofValue, readBack]) (by rintro ⟨⟩)
  | bool b => exact iff_of_true rfl (.bool b)
  | number d =>
    constructor
    · intro h
      exact .number (Value.number.inj (Option.some.inj h))
    · rintro (_ | hd)
      exact congrArg (some ∘ Value.number) hd
  | string s =>
    rw [ofValue, readBack]
    split_ifs with hs
    · refine iff_of_true ?_ (.string hs)
      simp [toValue]
    · refine iff_of_false (by simp) ?_
      rintro (_ | _ | h)
      exact hs h
  | array l ih =>
    cases hv with
    | array hl =>
      rw [readBack_array_iff]
      constructor
      · intro h
        exact .array fun v hmem => (ih v hmem (hl v hmem)).mp (h v hmem)
      · rintro (_ | _ | _ | hall) v hmem
        exact (ih v hmem (hl v hmem)).mpr (hall v hmem)
  | object o ih =>
    cases hv with
    | object ho hmembers =>
      rw [readBack_object_iff J ho]
      constructor
      · rintro ⟨hapart, hall⟩
        exact .object hapart (fun e he => (hall e he).1) fun e he =>
          (ih e he (hmembers e he)).mp (hall e he).2
      · rintro (_ | _ | _ | _ | ⟨hapart, hcontrol, hall⟩)
        exact ⟨hapart, fun e he =>
          ⟨hcontrol e he, (ih e he (hmembers e he)).mpr (hall e he)⟩⟩

/-- The text of the node is valid and parses back to the value. -/
def TextFaithful (v : Value D) : Prop :=
  ∃ t, Denotes (toQuoted J (ofValue J v)) t ∧ toValue J t = v

/-- **The text of the node is a JSON text of the value exactly when the value is clean, and the
    value made of the node is the value exactly when the keys are apart.** -/
theorem node_json_iff {v : Value D} (hv : WellFormed v) :
    (TextFaithful J v ↔ Clean J v) ∧ (toVariant (ofValue J v) = v ↔ Apart J v) := by
  refine ⟨?_, variant_iff J hv⟩
  rw [← readBack_iff J hv, Option.map_eq_some_iff]
  exact exists_congr fun t => and_congr_left fun _ => denotes_iff J _ t

end Text

/-- Digits as the doubles. -/
def digits : JsonConversions (Fin 10) where
  toLower s := String.ofList (s.toList.map Char.toLower)
  number d := String.ofList [Char.ofNat ('0'.toNat + d.val)]
  toDouble _ := none
  literal l := if l.length = 1 then Fin.ofNat 10 ((l.headD '0').toNat - '0'.toNat) else 0
  isNumber_number d := by
    rw [String.toList_ofList]
    revert d
    decide

/-- An object with two members. -/
def twoMembers (key : String) (v : Value (Fin 10)) : Value (Fin 10) :=
  .object [("a", .number 1), (key, v)]

theorem wellFormed_twoMembers {key : String} {v : Value (Fin 10)}
    (hkey : units16 "a" < units16 key) (hv : WellFormed v) : WellFormed (twoMembers key v) := by
  refine .object ?_ ?_
  · exact List.pairwise_pair.mpr hkey
  · exact List.forall_mem_cons.mpr ⟨.number 1, List.forall_mem_singleton.mpr hv⟩

theorem node_json_iff_digits :
    TextFaithful digits (twoMembers "b" (.array [])) ∧
      toVariant (ofValue digits (twoMembers "b" (.array []))) = twoMembers "b" (.array []) := by
  have hwell : WellFormed (twoMembers "b" (.array [])) :=
    wellFormed_twoMembers (by decide) (.array fun _ h => absurd h List.not_mem_nil)
  have hapart : KeysApart digits.toConversions [("a", Value.number 1), ("b", .array [])] := by
    unfold KeysApart
    decide
  obtain ⟨htext, hvariant⟩ := node_json_iff digits hwell
  refine ⟨htext.mpr (.object hapart ?_ ?_), hvariant.mpr (.object hapart ?_)⟩
  · exact List.forall_mem_cons.mpr ⟨by simp [NoControl], by simp [NoControl]⟩
  · exact List.forall_mem_cons.mpr ⟨.number rfl,
      List.forall_mem_singleton.mpr (.array fun _ h => absurd h List.not_mem_nil)⟩
  · exact List.forall_mem_cons.mpr ⟨.number 1,
      List.forall_mem_singleton.mpr (.array fun _ h => absurd h List.not_mem_nil)⟩

theorem null_and_similar_keys_are_lost :
    ¬ (∀ v : Value (Fin 10), WellFormed v → TextFaithful digits v) ∧
      ¬ (∀ v : Value (Fin 10), WellFormed v → toVariant (ofValue digits v) = v) := by
  constructor
  · intro h
    obtain ⟨t, hdenotes, -⟩ := h (.object [("b", .null)])
      (.object (List.pairwise_singleton _ _) (List.forall_mem_singleton.mpr .null))
    have hread := (denotes_iff digits _ t).mp hdenotes
    simp [ofValue, readBack, ofMembers, readMembers, assignAll, assign] at hread
  · intro h
    have hwell : WellFormed (twoMembers "a_" (.number 2)) :=
      wellFormed_twoMembers (by decide) (.number 2)
    have hapart := (variant_iff digits.toConversions hwell).mp (h _ hwell)
    rcases hapart with _ | _ | _ | _ | _ | ⟨hapart, -⟩
    exact absurd hapart (by unfold KeysApart; decide)

end Data

end NekoBox.Link
