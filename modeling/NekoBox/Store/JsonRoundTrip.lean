import NekoBox.Store.Json

/-!
# The JSON format against the binary one

For stores `s` and `t` of the same class, with any values in `t`:

* `t.FromJson(s.ToJson())` leaves `jsonImage s t`, and `t.FromBytes(s.ToBytes())`
  leaves `overlay s t` (`fromJson_toJson`);
* if the same pointers are null in both, `overlay s t` is `s`, and the two
  codecs agree exactly when `JsonExact s t`: no blank strings, no empty list
  where `t` holds something, no 64-bit integer that is not a double, no
  enumeration value without a name.
-/

namespace NekoBox.Store

open NekoBox.Lib NekoBox.Qt

/-! ## Stores of the same class -/

mutual

def SameClassVal : Val → Val → Prop
  | .jsonStore s, w => ∃ t, w = .jsonStore t ∧ SameClassPtr s t
  | .jsonShared s, w => ∃ t, w = .jsonShared t ∧ SameClassPtr s t
  | .jsonStoreList fresh ss, w => ∃ ts, w = .jsonStoreList fresh ts ∧ SameClassElems ss fresh
  | .enum map _, w => ∃ v, w = .enum map v
  | .int _, w => w.type = .int
  | .long _, w => w.type = .long
  | .str _, w => w.type = .str
  | .bool _, w => w.type = .bool
  | .strList _, w => w.type = .strList
  | .intList _, w => w.type = .intList
  | .strMap _, w => w.type = .strMap
  | .boolPtr _, w => w.type = .boolPtr
  | .double _, w => w.type = .double

/-- A null pointer may point to any store of the class. -/
def SameClassPtr : Option (List (String × Val)) → Option Obj → Prop
  | none, _ => True
  | some s, t => ∀ t', t = some t' → SameClass s t'

/-- The same fields, with the same kinds, enumeration tables and fresh
    elements. -/
def SameClass : List (String × Val) → Obj → Prop
  | [], t => t = []
  | (name, v) :: s, t => ∃ w t', t = (name, w) :: t' ∧ SameClassVal v w ∧ SameClass s t'

def SameClassElems : List (List (String × Val)) → Obj → Prop
  | [], _ => True
  | s :: ss, fresh => SameClass s fresh ∧ SameClassElems ss fresh

end

/-! ## What `FromJson` leaves -/

mutual

def jsonImageVal : Val → Val → Val
  | .int v, _ => .int v
  | .long v, _ => .long (JsonNumber.ofInt v.toInt).toInteger
  | .str v, _ => .str v
  | .bool v, _ => .bool v
  | .strMap v, _ => .strMap v
  | .boolPtr v, _ => .boolPtr v
  | .double v, _ => .double v
  | .strList v, w =>
    match w with
    | .strList old => .strList (if withoutBlanks v = [] then old else withoutBlanks v)
    | w => w
  | .intList v, w =>
    match w with
    | .intList old => .intList (if v = [] then old else v)
    | w => w
  | .enum m v, w =>
    match w with
    | .enum map v' => .enum map (v'.map fun _ => map.set ((v.map m.toString).getD ""))
    | w => w
  | .jsonStore none, w => w
  | .jsonStore (some s), w =>
    match w with
    | .jsonStore (some t) => .jsonStore (some (jsonImage s t))
    | w => w
  | .jsonShared none, w => w
  | .jsonShared (some s), w =>
    match w with
    | .jsonShared (some t) => .jsonShared (some (jsonImage s t))
    | w => w
  | .jsonStoreList _ ss, w =>
    match w with
    | .jsonStoreList fresh _ => .jsonStoreList fresh (jsonImageElems ss fresh)
    | w => w

/-- The fields of `t` after `t.FromJson(s.ToJson())`. -/
def jsonImage : List (String × Val) → Obj → Obj
  | [], _ => []
  | (name, v) :: s, t =>
    match t with
    | [] => []
    | (_, w) :: t => (name, jsonImageVal v w) :: jsonImage s t

def jsonImageElems : List (List (String × Val)) → Obj → List Obj
  | [], _ => []
  | s :: ss, fresh => jsonImage s fresh :: jsonImageElems ss fresh

end

mutual

def JsonExactVal : Val → Val → Prop
  | .long v, _ => roundDouble v.toInt = v.toInt
  | .strList v, w =>
    ∀ old, w = .strList old → (∀ s ∈ v, isBlank s) ∧ old = v ∨ v ≠ [] ∧ ∀ s ∈ v, ¬ isBlank s
  | .intList v, w => ∀ old, w = .intList old → v = [] → old = []
  | .enum _ v, w =>
    ∀ map v', w = .enum map (some v') → ∃ x, v = some x ∧ ((map.right x).isSome ∨ map.set "" = x)
  | .jsonStore (some s), w => ∀ t, w = .jsonStore (some t) → JsonExact s t
  | .jsonShared (some s), w => ∀ t, w = .jsonShared (some t) → JsonExact s t
  | .jsonStoreList _ ss, w => ∀ fresh ts, w = .jsonStoreList fresh ts → JsonExactElems ss fresh
  | _, _ => True

/-- JSON normalises nothing of `s`: every 64-bit integer is a double, a string
    list has blank strings only where `t` has the same list, a list is empty
    only where `t`'s is, and every enumeration value has a name (or is what the
    empty name stands for). -/
def JsonExact : List (String × Val) → Obj → Prop
  | [], _ => True
  | (_, v) :: s, t =>
    match t with
    | [] => True
    | (_, w) :: t => JsonExactVal v w ∧ JsonExact s t

def JsonExactElems : List (List (String × Val)) → Obj → Prop
  | [], _ => True
  | s :: ss, fresh => JsonExact s fresh ∧ JsonExactElems ss fresh

end

/-! ## Numbers -/

/-- An integer of at most 53 bits is a double. -/
theorem roundDouble_of_natAbs_le {v : ℤ} (h : v.natAbs ≤ 2 ^ 53) : roundDouble v = v := by
  have hsign : v.sign * (v.natAbs : ℤ) = v := Int.sign_mul_natAbs v
  unfold roundDouble
  rcases Nat.lt_or_ge v.natAbs (2 ^ 53) with hlt | hge
  · have hlog : v.natAbs.log2 - 52 = 0 := by
      rcases Nat.eq_zero_or_pos v.natAbs with h0 | hpos
      · rw [h0]
        rfl
      · have := (Nat.log2_lt hpos.ne').mpr hlt
        omega
    simpa [hlog, Nat.mod_one] using hsign
  · have heq : v.natAbs = 2 ^ 53 := le_antisymm h hge
    have hlog : Nat.log2 (2 ^ 53) = 53 := Nat.log2_two_pow
    rw [heq] at hsign ⊢
    simp only [hlog]
    norm_num at hsign ⊢
    exact hsign

theorem ofInt_integral (v : ℤ) : (JsonNumber.ofInt v).integral = some (roundDouble v) := rfl

/-- An `int` survives as a number. -/
theorem toInt_ofInt (v : BitVec 32) : (JsonNumber.ofInt v.toInt).toInt = v := by
  have hlo : -2 ^ 31 ≤ v.toInt := v.le_toInt
  have hhi : v.toInt < 2 ^ 31 := BitVec.toInt_lt
  have hround : roundDouble v.toInt = v.toInt := roundDouble_of_natAbs_le (by omega)
  have hfilter : ((some v.toInt).filter fun x : ℤ => decide (-2 ^ 31 ≤ x ∧ x < 2 ^ 31)) =
      some v.toInt := by
    rw [Option.filter_some, if_pos (decide_eq_true ⟨hlo, hhi⟩)]
  rw [JsonNumber.toInt, ofInt_integral, hround, hfilter, Option.getD_some, BitVec.ofInt_toInt]

/-- A `long long` survives as a number if and only if it is a double. -/
theorem toInteger_ofInt_iff (v : BitVec 64) :
    (JsonNumber.ofInt v.toInt).toInteger = v ↔ roundDouble v.toInt = v.toInt := by
  have hlo : -2 ^ 63 ≤ v.toInt := v.le_toInt
  have hhi : v.toInt < 2 ^ 63 := BitVec.toInt_lt
  rw [JsonNumber.toInteger, ofInt_integral]
  by_cases hrange : -2 ^ 63 ≤ roundDouble v.toInt ∧ roundDouble v.toInt < 2 ^ 63
  · rw [Option.filter_some, if_pos (decide_eq_true hrange), Option.getD_some]
    constructor
    · intro h
      have htoInt := congrArg BitVec.toInt h
      rw [BitVec.toInt_ofInt, Int.bmod_eq_of_le (by omega) (by omega)] at htoInt
      exact htoInt
    · intro h
      rw [h, BitVec.ofInt_toInt]
  · rw [Option.filter_some, if_neg (by simpa using hrange), Option.getD_none]
    constructor
    · intro h
      have hzero : v.toInt = 0 := by rw [← h]; rfl
      rw [hzero]
      decide
    · intro h
      rw [h] at hrange
      exact absurd ⟨hlo, hhi⟩ hrange

/-! ## The loops assign field by field -/

variable {hash : String → Bytes} {parseMap : String → VariantMap}

theorem keys_of_sameClass : ∀ {s t : Obj}, SameClass s t → Obj.keys hash t = Obj.keys hash s := by
  intro s
  induction s with
  | nil =>
    intro t h
    rw [SameClass] at h
    rw [h]
  | cons f s ih =>
    obtain ⟨name, v⟩ := f
    intro t h
    rw [SameClass] at h
    obtain ⟨w, t', rfl, -, hrest⟩ := h
    simp only [Obj.keys, List.map_cons] at ih ⊢
    rw [ih hrest]

theorem type_of_sameClassVal {v w : Val} (h : SameClassVal v w) : w.type = v.type := by
  cases v <;> rw [SameClassVal] at h <;> first
    | exact h
    | (obtain ⟨_, rfl, -⟩ := h; rfl)

section Zipper

variable {done rest : Obj} {name : String} {v w : Val}

/-- The field at the position of the loop is the one found under its key. -/
theorem find_zipper (hdone : hash name ∉ Obj.keys hash done) :
    Obj.find hash (done ++ (name, w) :: rest) (hash name) = some w := by
  induction done with
  | nil => simp [Obj.find_cons]
  | cons f done ih =>
    obtain ⟨hne, hdone'⟩ : hash name ≠ hash f.1 ∧ hash name ∉ Obj.keys hash done := by
      simpa [Obj.keys] using hdone
    rw [List.cons_append, Obj.find_cons, if_neg (Ne.symm hne), ih hdone']

theorem item_zipper (hdone : hash name ∉ Obj.keys hash done) :
    Obj.item hash (done ++ (name, w) :: rest) name = some w := by
  have hfind : List.find? (fun f : String × Val => hash f.1 = hash name)
      (done ++ (name, w) :: rest) = some (name, w) := by
    rw [List.find?_append, List.find?_eq_none.mpr ?_]
    · simp
    · intro f hf
      have hne : hash f.1 ≠ hash name := fun h =>
        hdone (h ▸ List.mem_map.mpr ⟨f, hf, rfl⟩)
      simpa using hne
  simp [Obj.item, hfind]

theorem set_eq_self {t : Obj} {key : Bytes} (h : key ∉ Obj.keys hash t) (v : Val) :
    Obj.set hash t key v = t := by
  unfold Obj.set
  refine (List.map_congr_left fun f hf => ?_).trans (List.map_id _)
  have hne : hash f.1 ≠ key := fun he => h (he ▸ List.mem_map.mpr ⟨f, hf, rfl⟩)
  rw [if_neg hne, id]

theorem set_zipper (hdone : hash name ∉ Obj.keys hash done) (hrest : hash name ∉ Obj.keys hash rest)
    (w' : Val) : Obj.set hash (done ++ (name, w) :: rest) (hash name) w' =
      (done ++ [(name, w')]) ++ rest := by
  have hmap : Obj.set hash (done ++ (name, w) :: rest) (hash name) w' =
      Obj.set hash done (hash name) w' ++ (name, w') :: Obj.set hash rest (hash name) w' := by
    simp [Obj.set]
  rw [hmap, set_eq_self hdone, set_eq_self hrest, List.append_assoc, List.singleton_append]

end Zipper

/-! ## `FromJson` after `ToJson` -/

theorem map_toString_map_string (l : List String) : (l.map Json.string).map Json.toString = l := by
  rw [List.map_map]
  exact (List.map_congr_left fun _ _ => rfl).trans (List.map_id l)

theorem map_toInt_map_number (l : List (BitVec 32)) :
    (l.map fun i => Json.number (.ofInt i.toInt)).map Json.toInt = l := by
  rw [List.map_map]
  exact (List.map_congr_left fun i _ => toInt_ofInt i).trans (List.map_id l)

theorem map_toString_members (m : VariantMap) :
    (m.toList.map fun e => (e.1, Json.string e.2)).map (fun e => (e.1, e.2.toString)) =
      m.toList := by
  rw [List.map_map]
  exact (List.map_congr_left fun _ _ => rfl).trans (List.map_id _)

mutual

theorem setNode_getNode (v : Val) {w : Val} (hclass : SameClassVal v w)
    (hkeys : DistinctKeysVal hash v) :
    setNode hash parseMap w (getNode v) = jsonImageVal v w := by
  match v with
  | .int v =>
    rw [SameClassVal] at hclass
    cases w <;> cases hclass
    simp [getNode, setNode, jsonImageVal, toInt_ofInt]
  | .long v =>
    rw [SameClassVal] at hclass
    cases w <;> cases hclass
    simp [getNode, setNode, jsonImageVal]
  | .double v =>
    rw [SameClassVal] at hclass
    cases w <;> cases hclass
    simp [getNode, setNode, jsonImageVal, JsonNumber.toDouble]
  | .str v =>
    rw [SameClassVal] at hclass
    cases w <;> cases hclass
    simp [getNode, setNode, jsonImageVal]
  | .bool v =>
    rw [SameClassVal] at hclass
    cases w <;> cases hclass
    simp [getNode, setNode, jsonImageVal]
  | .boolPtr v =>
    rw [SameClassVal] at hclass
    cases w <;> cases hclass
    simp [getNode, setNode, jsonImageVal]
  | .strList v =>
    rw [SameClassVal] at hclass
    cases w <;> cases hclass
    simp only [getNode, setNode, jsonImageVal, List.map_eq_nil_iff, map_toString_map_string]
  | .intList v =>
    rw [SameClassVal] at hclass
    cases w <;> cases hclass
    simp only [getNode, setNode, jsonImageVal, List.map_eq_nil_iff, map_toInt_map_number]
  | .strMap v =>
    rw [SameClassVal] at hclass
    cases w <;> cases hclass
    simp only [getNode, setNode, jsonImageVal, map_toString_members, ofList_toList]
  | .enum m v =>
    rw [SameClassVal] at hclass
    obtain ⟨v', rfl⟩ := hclass
    cases v <;> simp [getNode, setNode, jsonImageVal]
  | .jsonStore none =>
    simp [getNode, setNode, jsonImageVal]
  | .jsonStore (some s) =>
    rw [SameClassVal] at hclass
    obtain ⟨t, rfl, hptr⟩ := hclass
    cases t with
    | none => simp [getNode, setNode, jsonImageVal]
    | some t =>
      rw [SameClassPtr] at hptr
      have hnested := fromJsonLoop_toJson s [] (hptr t rfl) hkeys (by simp)
      simpa [getNode, setNode, jsonImageVal] using hnested
  | .jsonShared none =>
    simp [getNode, setNode, jsonImageVal]
  | .jsonShared (some s) =>
    rw [SameClassVal] at hclass
    obtain ⟨t, rfl, hptr⟩ := hclass
    cases t with
    | none => simp [getNode, setNode, jsonImageVal]
    | some t =>
      rw [SameClassPtr] at hptr
      have hnested := fromJsonLoop_toJson s [] (hptr t rfl) hkeys (by simp)
      simpa [getNode, setNode, jsonImageVal] using hnested
  | .jsonStoreList fresh ss =>
    rw [SameClassVal] at hclass
    obtain ⟨ts, rfl, helems⟩ := hclass
    simp [getNode, setNode, jsonImageVal, setElems_elemNodes ss helems hkeys]

/-- With the fields of `done` assigned, the loop assigns those of `t`. -/
theorem fromJsonLoop_toJson (s : List (String × Val)) (done : Obj) {t : Obj} (hclass : SameClass s t)
    (hkeys : DistinctKeys hash s) (hdone : ∀ f ∈ s, hash f.1 ∉ Obj.keys hash done) :
    fromJsonLoop hash parseMap (done ++ t) (toJson s) = done ++ jsonImage s t := by
  match s with
  | [] =>
    rw [SameClass] at hclass
    simp [toJson, fromJsonLoop, jsonImage, hclass]
  | (name, v) :: s =>
    rw [SameClass] at hclass
    obtain ⟨w, t', rfl, hclassv, hclasss⟩ := hclass
    obtain ⟨hnot, hkeysv, hkeyss⟩ := hkeys
    have hname := hdone (name, v) (by simp)
    have hnot' : hash name ∉ Obj.keys hash t' := by rwa [keys_of_sameClass hclasss]
    have hdone' : ∀ f ∈ s, hash f.1 ∉ Obj.keys hash (done ++ [(name, jsonImageVal v w)]) := by
      intro f hf
      have hne : hash f.1 ≠ hash name := fun h => hnot (h ▸ List.mem_map.mpr ⟨f, hf, rfl⟩)
      simpa [Obj.keys, hne] using hdone f (List.mem_cons_of_mem _ hf)
    rw [toJson, fromJsonLoop, item_zipper hname]
    simp only [setNode_getNode v hclassv hkeysv]
    rw [set_zipper hname hnot', fromJsonLoop_toJson s _ hclasss hkeyss hdone', jsonImage,
      List.append_assoc, List.singleton_append]

theorem setElems_elemNodes (ss : List (List (String × Val))) {fresh : Obj}
    (hclass : SameClassElems ss fresh) (hkeys : DistinctKeysElems hash ss) :
    setElems hash parseMap fresh (elemNodes ss) = jsonImageElems ss fresh := by
  match ss with
  | [] => simp [elemNodes, setElems, jsonImageElems]
  | s :: ss =>
    rw [SameClassElems] at hclass
    have hs := fromJsonLoop_toJson s [] hclass.1 hkeys.1 (by simp)
    have hss := setElems_elemNodes ss hclass.2 hkeys.2
    simp only [List.nil_append] at hs
    simp [elemNodes, setElems, jsonImageElems, hs, hss]

end

/-! ## `FromBytes` after `ToBytes` -/

theorem shared_zipper {t : Obj} {name : String} {v w : Val} (hclass : SameClassVal v w) :
    shared hash ((name, w) :: t) name v = some w :=
  shared_eq_some.mpr ⟨by simp [Obj.find_cons], type_of_sameClassVal hclass⟩

/-- In the same class, the fields behind the first are found behind it. -/
theorem find_tail {s t : Obj} {name : String} {w : Val} (hnot : hash name ∉ Obj.keys hash s) :
    ∀ f ∈ s, Obj.find hash ((name, w) :: t) (hash f.1) = Obj.find hash t (hash f.1) := by
  intro f hf
  have hne : hash name ≠ hash f.1 := fun h => hnot (h ▸ List.mem_map.mpr ⟨f, hf, rfl⟩)
  rw [Obj.find_cons, if_neg hne]

theorem sameNulls_cons {s t : Obj} {name : String} {v w : Val} (hclass : SameClassVal v w)
    (hnot : hash name ∉ Obj.keys hash s) (h : SameNulls hash ((name, v) :: s) ((name, w) :: t)) :
    SameNullsVal hash v w ∧ SameNulls hash s t :=
  ⟨h.1 w (shared_zipper hclass), (sameNulls_congr (find_tail hnot)).mp h.2⟩

mutual

theorem overlayVal_eq_self (v : Val) {w : Val} (hclass : SameClassVal v w)
    (hkeys : DistinctKeysVal hash v) (hnulls : SameNullsVal hash v w) :
    overlayVal hash v w = v := by
  match v with
  | .int v => rfl
  | .long v => rfl
  | .double v => rfl
  | .str v => rfl
  | .bool v => rfl
  | .boolPtr v => rfl
  | .strList v => rfl
  | .intList v => rfl
  | .strMap v => rfl
  | .enum m v =>
    rw [SameClassVal] at hclass
    obtain ⟨v', rfl⟩ := hclass
    rw [SameNullsVal] at hnulls
    obtain ⟨map, v'', heq, hnull⟩ := hnulls
    cases heq
    cases v <;> cases v' <;> simp_all [overlayVal]
  | .jsonStore none =>
    rw [SameNullsVal] at hnulls
    rw [hnulls, overlayVal]
  | .jsonStore (some s) =>
    rw [SameNullsVal] at hnulls
    obtain ⟨t, rfl, hnulls⟩ := hnulls
    rw [SameClassVal] at hclass
    obtain ⟨t', heq, hptr⟩ := hclass
    cases heq
    rw [SameClassPtr] at hptr
    have hnested := overlay_eq_self s [] (hptr t rfl) hkeys hnulls (by simp)
    simpa [overlayVal] using hnested
  | .jsonShared none =>
    rw [SameNullsVal] at hnulls
    rw [hnulls, overlayVal]
  | .jsonShared (some s) =>
    rw [SameNullsVal] at hnulls
    obtain ⟨t, rfl, hnulls⟩ := hnulls
    rw [SameClassVal] at hclass
    obtain ⟨t', heq, hptr⟩ := hclass
    cases heq
    rw [SameClassPtr] at hptr
    have hnested := overlay_eq_self s [] (hptr t rfl) hkeys hnulls (by simp)
    simpa [overlayVal] using hnested
  | .jsonStoreList fresh ss =>
    rw [SameClassVal] at hclass
    obtain ⟨ts, rfl, helems⟩ := hclass
    rw [SameNullsVal] at hnulls
    simp [overlayVal, overlayElems_eq_self ss helems hkeys (hnulls fresh ts rfl)]

/-- In a store of the same class with the same null pointers, every field of
    `s` is assigned. -/
theorem overlay_eq_self (s : List (String × Val)) (done : Obj) {t : Obj} (hclass : SameClass s t)
    (hkeys : DistinctKeys hash s) (hnulls : SameNulls hash s t)
    (hdone : ∀ f ∈ s, hash f.1 ∉ Obj.keys hash done) :
    overlay hash s (done ++ t) = done ++ s := by
  match s with
  | [] =>
    rw [SameClass] at hclass
    rw [overlay, hclass]
  | (name, v) :: s =>
    rw [SameClass] at hclass
    obtain ⟨w, t', rfl, hclassv, hclasss⟩ := hclass
    obtain ⟨hnot, hkeysv, hkeyss⟩ := hkeys
    obtain ⟨hnullsv, hnullss⟩ := sameNulls_cons hclassv hnot hnulls
    have hname := hdone (name, v) (by simp)
    have hnot' : hash name ∉ Obj.keys hash t' := by rwa [keys_of_sameClass hclasss]
    have hdone' : ∀ f ∈ s, hash f.1 ∉ Obj.keys hash (done ++ [(name, v)]) := by
      intro f hf
      have hne : hash f.1 ≠ hash name := fun h => hnot (h ▸ List.mem_map.mpr ⟨f, hf, rfl⟩)
      simpa [Obj.keys, hne] using hdone f (List.mem_cons_of_mem _ hf)
    have hw : shared hash (done ++ (name, w) :: t') name v = some w :=
      shared_eq_some.mpr ⟨find_zipper hname, type_of_sameClassVal hclassv⟩
    rw [overlay, hw]
    simp only [overlayVal_eq_self v hclassv hkeysv hnullsv]
    rw [set_zipper hname hnot', overlay_eq_self s _ hclasss hkeyss hnullss hdone',
      List.append_assoc, List.singleton_append]

theorem overlayElems_eq_self (ss : List (List (String × Val))) {fresh : Obj}
    (hclass : SameClassElems ss fresh) (hkeys : DistinctKeysElems hash ss)
    (hnulls : SameNullsElems hash ss fresh) : overlayElems hash ss fresh = ss := by
  match ss with
  | [] => rfl
  | s :: ss =>
    rw [SameClassElems] at hclass
    have hs := overlay_eq_self s [] hclass.1 hkeys.1 hnulls.1 (by simp)
    simp only [List.nil_append] at hs
    rw [overlayElems, hs, overlayElems_eq_self ss hclass.2 hkeys.2 hnulls.2]

end

mutual

theorem everyDroppedVal_of_sameClass (P : Val → Obj → Prop) (v : Val) {w : Val}
    (hclass : SameClassVal v w) (hkeys : DistinctKeysVal hash v) :
    everyDroppedVal hash P v w := by
  match v with
  | .jsonStore (some s) =>
    rw [SameClassVal] at hclass
    obtain ⟨t, rfl, hptr⟩ := hclass
    rw [SameClassPtr] at hptr
    rw [everyDroppedVal]
    rintro t' heq
    cases heq
    exact everyDropped_of_sameClass P s (hptr t' rfl) hkeys
  | .jsonShared (some s) =>
    rw [SameClassVal] at hclass
    obtain ⟨t, rfl, hptr⟩ := hclass
    rw [SameClassPtr] at hptr
    rw [everyDroppedVal]
    rintro t' heq
    cases heq
    exact everyDropped_of_sameClass P s (hptr t' rfl) hkeys
  | .jsonStoreList _ ss =>
    rw [SameClassVal] at hclass
    obtain ⟨ts, rfl, helems⟩ := hclass
    rw [everyDroppedVal]
    rintro fresh ts' heq
    cases heq
    exact everyDroppedElems_of_sameClass P ss helems hkeys
  | .jsonStore none => simp [everyDroppedVal]
  | .jsonShared none => simp [everyDroppedVal]
  | .int _ => simp [everyDroppedVal]
  | .long _ => simp [everyDroppedVal]
  | .str _ => simp [everyDroppedVal]
  | .bool _ => simp [everyDroppedVal]
  | .strList _ => simp [everyDroppedVal]
  | .intList _ => simp [everyDroppedVal]
  | .strMap _ => simp [everyDroppedVal]
  | .boolPtr _ => simp [everyDroppedVal]
  | .double _ => simp [everyDroppedVal]
  | .enum _ _ => simp [everyDroppedVal]

/-- A reader of the same class drops nothing. -/
theorem everyDropped_of_sameClass (P : Val → Obj → Prop) (s : List (String × Val)) {t : Obj}
    (hclass : SameClass s t) (hkeys : DistinctKeys hash s) : everyDropped hash P s t := by
  match s with
  | [] => simp [everyDropped]
  | (name, v) :: s =>
    rw [SameClass] at hclass
    obtain ⟨w, t', rfl, hclassv, hclasss⟩ := hclass
    obtain ⟨hnot, hkeysv, hkeyss⟩ := hkeys
    rw [everyDropped, shared_zipper hclassv, everyDropped_lookup P (find_tail hnot)]
    exact ⟨everyDroppedVal_of_sameClass P v hclassv hkeysv,
      everyDropped_of_sameClass P s hclasss hkeyss⟩

theorem everyDroppedElems_of_sameClass (P : Val → Obj → Prop) (ss : List (List (String × Val)))
    {fresh : Obj} (hclass : SameClassElems ss fresh) (hkeys : DistinctKeysElems hash ss) :
    everyDroppedElems hash P ss fresh := by
  match ss with
  | [] => simp [everyDroppedElems]
  | s :: ss =>
    rw [SameClassElems] at hclass
    exact ⟨everyDropped_of_sameClass P s hclass.1 hkeys.1,
      everyDroppedElems_of_sameClass P ss hclass.2 hkeys.2⟩

end

/-! ## When JSON normalises nothing -/

theorem withoutBlanks_eq_nil {l : List String} :
    withoutBlanks l = [] ↔ ∀ s ∈ l, isBlank s = true := by
  simp [withoutBlanks, List.filter_eq_nil_iff]

theorem withoutBlanks_eq_self {l : List String} :
    withoutBlanks l = l ↔ ∀ s ∈ l, ¬ isBlank s = true := by
  simp [withoutBlanks, List.filter_eq_self]

theorem set_toString_iff (m : EnumMap) (x : BitVec 32) :
    m.set (m.toString x) = x ↔ (m.right x).isSome ∨ m.set "" = x := by
  cases h : m.right x with
  | none => simp [EnumMap.toString, h]
  | some name => simp [m.set_toString h]

mutual

theorem jsonImageVal_eq_self_iff (v : Val) {w : Val} (hclass : SameClassVal v w)
    (hkeys : DistinctKeysVal hash v) (hnulls : SameNullsVal hash v w) :
    jsonImageVal v w = v ↔ JsonExactVal v w := by
  match v with
  | .int v => simp [jsonImageVal, JsonExactVal]
  | .double v => simp [jsonImageVal, JsonExactVal]
  | .str v => simp [jsonImageVal, JsonExactVal]
  | .bool v => simp [jsonImageVal, JsonExactVal]
  | .boolPtr v => simp [jsonImageVal, JsonExactVal]
  | .strMap v => simp [jsonImageVal, JsonExactVal]
  | .long v => simp [jsonImageVal, JsonExactVal, toInteger_ofInt_iff]
  | .strList v =>
    rw [SameClassVal] at hclass
    cases w <;> cases hclass
    rename_i old
    simp only [jsonImageVal, JsonExactVal, Val.strList.injEq, forall_eq']
    by_cases hblank : withoutBlanks v = []
    · have hall := withoutBlanks_eq_nil.mp hblank
      have hnot : ¬ (v ≠ [] ∧ ∀ s ∈ v, ¬ isBlank s = true) := by
        rintro ⟨hne, hnone⟩
        obtain ⟨s, hs⟩ := List.exists_mem_of_ne_nil v hne
        exact hnone s hs (hall s hs)
      simp only [hblank, if_true]
      exact ⟨fun h => .inl ⟨hall, h⟩, fun h => (h.resolve_right hnot).2⟩
    · have hnot : ¬ ∀ s ∈ v, isBlank s = true := fun h => hblank (withoutBlanks_eq_nil.mpr h)
      have hne : v ≠ [] := by
        rintro rfl
        exact hblank rfl
      rw [if_neg hblank, withoutBlanks_eq_self]
      exact ⟨fun h => .inr ⟨hne, h⟩, fun h => (h.resolve_left fun h => hnot h.1).2⟩
  | .intList v =>
    rw [SameClassVal] at hclass
    cases w <;> cases hclass
    by_cases hv : v = [] <;> simp [jsonImageVal, JsonExactVal, hv]
  | .enum m v =>
    rw [SameClassVal] at hclass
    obtain ⟨v', rfl⟩ := hclass
    rw [SameNullsVal] at hnulls
    obtain ⟨map, v'', heq, hnull⟩ := hnulls
    cases heq
    cases v with
    | none =>
      cases v' with
      | none => simp [jsonImageVal, JsonExactVal]
      | some x => simp at hnull
    | some x =>
      cases v' with
      | none => simp at hnull
      | some x' => simpa [jsonImageVal, JsonExactVal] using set_toString_iff m x
  | .jsonStore none =>
    rw [SameNullsVal] at hnulls
    simp [jsonImageVal, JsonExactVal, hnulls]
  | .jsonStore (some s) =>
    rw [SameNullsVal] at hnulls
    obtain ⟨t, rfl, hnulls⟩ := hnulls
    rw [SameClassVal] at hclass
    obtain ⟨t', heq, hptr⟩ := hclass
    cases heq
    rw [SameClassPtr] at hptr
    have hnested := jsonImage_eq_self_iff s (hptr t rfl) hkeys hnulls
    simpa [jsonImageVal, JsonExactVal] using hnested
  | .jsonShared none =>
    rw [SameNullsVal] at hnulls
    simp [jsonImageVal, JsonExactVal, hnulls]
  | .jsonShared (some s) =>
    rw [SameNullsVal] at hnulls
    obtain ⟨t, rfl, hnulls⟩ := hnulls
    rw [SameClassVal] at hclass
    obtain ⟨t', heq, hptr⟩ := hclass
    cases heq
    rw [SameClassPtr] at hptr
    have hnested := jsonImage_eq_self_iff s (hptr t rfl) hkeys hnulls
    simpa [jsonImageVal, JsonExactVal] using hnested
  | .jsonStoreList fresh ss =>
    rw [SameClassVal] at hclass
    obtain ⟨ts, rfl, helems⟩ := hclass
    rw [SameNullsVal] at hnulls
    have helemsiff := jsonImageElems_eq_self_iff ss helems hkeys (hnulls fresh ts rfl)
    simpa [jsonImageVal, JsonExactVal] using helemsiff

theorem jsonImage_eq_self_iff (s : List (String × Val)) {t : Obj} (hclass : SameClass s t)
    (hkeys : DistinctKeys hash s) (hnulls : SameNulls hash s t) :
    jsonImage s t = s ↔ JsonExact s t := by
  match s with
  | [] => simp [jsonImage, JsonExact]
  | (name, v) :: s =>
    rw [SameClass] at hclass
    obtain ⟨w, t', rfl, hclassv, hclasss⟩ := hclass
    obtain ⟨hnot, hkeysv, hkeyss⟩ := hkeys
    obtain ⟨hnullsv, hnullss⟩ := sameNulls_cons hclassv hnot hnulls
    have hv := jsonImageVal_eq_self_iff v hclassv hkeysv hnullsv
    have hs := jsonImage_eq_self_iff s hclasss hkeyss hnullss
    simp [jsonImage, JsonExact, hv, hs]

theorem jsonImageElems_eq_self_iff (ss : List (List (String × Val))) {fresh : Obj}
    (hclass : SameClassElems ss fresh) (hkeys : DistinctKeysElems hash ss)
    (hnulls : SameNullsElems hash ss fresh) :
    jsonImageElems ss fresh = ss ↔ JsonExactElems ss fresh := by
  match ss with
  | [] => simp [jsonImageElems, JsonExactElems]
  | s :: ss =>
    rw [SameClassElems] at hclass
    have hs := jsonImage_eq_self_iff s hclass.1 hkeys.1 hnulls.1
    have hss := jsonImageElems_eq_self_iff ss hclass.2 hkeys.2 hnulls.2
    simp [jsonImageElems, JsonExactElems, hs, hss]

end

/-! ## Main theorem -/

/-- In the same class, no entry is dropped and every key is known. -/
theorem nothing_unknown {s : Obj} (done : Obj) {t : Obj} (hclass : SameClass s t)
    (hkeys : DistinctKeys hash s)
    (hdone : ∀ f ∈ s, hash f.1 ∉ Obj.keys hash done) :
    drops hash s (done ++ t) = false ∧
      ((toJson s).any fun e => (Obj.item hash (done ++ t) e.1).isNone) = false := by
  induction s generalizing done t with
  | nil => exact ⟨rfl, rfl⟩
  | cons f s ih =>
    obtain ⟨name, v⟩ := f
    rw [SameClass] at hclass
    obtain ⟨w, t', rfl, hclassv, hclasss⟩ := hclass
    obtain ⟨hnot, -, hkeyss⟩ := hkeys
    have hname := hdone (name, v) (by simp)
    have hdone' : ∀ f ∈ s, hash f.1 ∉ Obj.keys hash (done ++ [(name, w)]) := by
      intro f hf
      have hne : hash f.1 ≠ hash name := fun h => hnot (h ▸ List.mem_map.mpr ⟨f, hf, rfl⟩)
      simpa [Obj.keys, hne] using hdone f (List.mem_cons_of_mem _ hf)
    obtain ⟨hdrops, hunknown⟩ := ih _ hclasss hkeyss hdone'
    rw [List.append_assoc, List.singleton_append] at hdrops hunknown
    have hw : shared hash (done ++ (name, w) :: t') name v = some w :=
      shared_eq_some.mpr ⟨find_zipper hname, type_of_sameClassVal hclassv⟩
    have hdrops' : drops hash ((name, v) :: s) (done ++ (name, w) :: t') =
        ((shared hash (done ++ (name, w) :: t') name v).isNone ||
          drops hash s (done ++ (name, w) :: t')) := rfl
    refine ⟨by rw [hdrops', hw, hdrops]; rfl, ?_⟩
    rw [toJson, List.any_cons, item_zipper hname, hunknown]
    rfl

/-- **Main theorem.** For stores of the same class, what the two codecs leave
    of `s` in `t`. With the same null pointers the binary one leaves `s`, and
    JSON does exactly when it normalises nothing. -/
theorem fromJson_toJson {s t : Obj} (hclass : SameClass s t) (hkeys : DistinctKeys hash s)
    (hlen : (toBytes hash s).length < 2 ^ 63)
    (jsonFallback : Option (List (String × Json) → Obj → Obj))
    (bytesFallback : Option (Bytes → Obj → Obj)) :
    fromJson hash parseMap jsonFallback t (toJson s) = jsonImage s t ∧
      fromBytes hash bytesFallback t (toBytes hash s) = overlay hash s t ∧
      (SameNulls hash s t → overlay hash s t = s ∧ (jsonImage s t = s ↔ JsonExact s t)) := by
  obtain ⟨hdrops, hunknown⟩ := nothing_unknown [] hclass hkeys (by simp)
  rw [List.nil_append] at hdrops hunknown
  refine ⟨?_, ?_, fun hnulls => ⟨?_, jsonImage_eq_self_iff s hclass hkeys hnulls⟩⟩
  · have hloop : fromJsonLoop hash parseMap ([] ++ t) (toJson s) = [] ++ jsonImage s t :=
      fromJsonLoop_toJson s [] hclass hkeys (by simp)
    unfold fromJson
    rw [hunknown]
    exact hloop
  · have hloop := fromBytesLoop_toBytes s t t _ hkeys (fun _ _ => rfl) hlen
       le_rfl (everyDropped_of_sameClass _ s hclass hkeys)
    rw [fromBytes, hloop, hdrops]
  · simpa using overlay_eq_self s [] hclass hkeys hnulls (by simp)

/-- A class with one string list, as both codecs leave it: the blank string
    is lost in JSON. -/
theorem fromJson_toJson_blank :
    fromJson (fun _ => [7]) (fun _ => ∅) none [("urls", .strList [])]
        (toJson [("urls", .strList ["a", " "])]) = [("urls", .strList ["a"])] ∧
      fromBytes (fun _ => [7]) none [("urls", .strList [])]
        (toBytes (fun _ => [7]) [("urls", .strList ["a", " "])]) = [("urls", .strList ["a", " "])] := by
  have hclass : SameClass [("urls", .strList ["a", " "])] [("urls", .strList [])] := by
    simp [SameClass, SameClassVal, Val.type]
  obtain ⟨hjson, hbytes, -⟩ := @fromJson_toJson (fun _ => [7]) (fun _ => ∅) _ _ hclass
    (by simp [DistinctKeys, DistinctKeysVal, Obj.keys]) (by decide) none none
  exact ⟨hjson, hbytes⟩

/-- An empty list in `s` overwrites the list in `t` in the binary format only. -/
theorem fromJson_keeps_list :
    fromJson (fun _ => [7]) (fun _ => ∅) none [("urls", .strList ["a"])]
        (toJson [("urls", .strList [])]) ≠
      fromBytes (fun _ => [7]) none [("urls", .strList ["a"])]
        (toBytes (fun _ => [7]) [("urls", .strList [])]) := by
  have hjson : fromJson (fun _ => [7]) (fun _ => ∅) none [("urls", .strList ["a"])]
      (toJson [("urls", .strList [])]) = [("urls", .strList ["a"])] := rfl
  have hbytes : fromBytes (fun _ => [7]) none [("urls", .strList ["a"])]
      (toBytes (fun _ => [7]) [("urls", .strList [])]) = [("urls", .strList [])] := rfl
  rw [hjson, hbytes]
  simp

end NekoBox.Store
