import NekoBox.Lib.Parts
import NekoBox.Store.IniSave
import NekoBox.Store.JsonRoundTrip

/-!
# `LoadINI` after `SaveINI` over a file that is there

`loadINI_saveINI_iff`: for stores `s` and `t` of one class and every previous
content of the file, `t.LoadINI` after `s.SaveINI` gives `s` exactly when
`Restored` holds of `s`, `t` and the previous content. What can go wrong:

* a list of stores: `SaveINI` leaves the groups of earlier elements, and
  `LoadINI` makes one element for each group it finds, behind the elements that
  are there, and does it again if the name of the list is also a key;
* a map: a key that is not a single nonempty path segment is not found again,
  and an empty map leaves no trace, so the entries in `t` stay;
* a pointer: it is saved only if it is not null, and loaded only if it is not
  null in `t`;
* an enumeration: a value without a name.

Every other field is restored, whatever the file held before.
-/

namespace NekoBox.Store

open NekoBox.Lib NekoBox.Qt

/-! ## The condition -/

mutual

/-- `SaveINI` writes every nested store and every element somewhere: each of
    their classes registers a field of a kind that is always written. The index
    of an element is an `int`. -/
def WritesBelowVal : Val → Prop
  | .jsonStore (some st) => writes st = true ∧ WritesBelow st
  | .jsonShared (some st) => writes st = true ∧ WritesBelow st
  | .jsonStoreList _ elems => elems.length ≤ 2 ^ 31 ∧ WritesBelowElems elems
  | _ => True

def WritesBelow : List (String × Val) → Prop
  | [] => True
  | (_, v) :: rest => WritesBelowVal v ∧ WritesBelow rest

def WritesBelowElems : List (List (String × Val)) → Prop
  | [] => True
  | st :: rest => (writes st = true ∧ WritesBelow st) ∧ WritesBelowElems rest

end

section Condition

variable (hash : String → Bytes) (prev : Settings)

/-- The names in the file that are not `name` but have its hash. -/
def strays (path : Path) (name : String) : ℕ :=
  (children prev path).countP fun x => x ≠ name ∧ hash x = hash name

/-- Whether the file holds a value at `p` itself. -/
def staleKey (p : Path) : ℕ := if (prev[p]?).isSome then 1 else 0

mutual

/-- When a field at `p`, with `k` strays, is restored by `n` passes of `LoadINI`
    over its store. -/
def RestoredVal (n k : ℕ) (p : Path) : Val → Val → Prop
  | .jsonStore none, w => w = .jsonStore none
  | .jsonStore (some s), w =>
    ∃ t, w = .jsonStore (some t) ∧ Restored (n * (k + (staleKey prev p + 1))) p s t
  | .jsonShared none, w => w = .jsonShared none
  | .jsonShared (some s), w =>
    ∃ t, w = .jsonShared (some t) ∧ Restored (n * (k + (staleKey prev p + 1))) p s t
  | .jsonStoreList _ ss, w => ∃ fresh ts, w = .jsonStoreList fresh ts ∧
    if n = 0 ∨ (ss = [] ∧ prev.childGroups p = []) then ts = ss
    else n = 1 ∧ k = 0 ∧ staleKey prev p = 0 ∧ ts = [] ∧
      (∀ st ∈ prev.childGroups p, ∃ i < ss.length, st = indexName i) ∧ RestoredElems p 0 ss fresh
  | .strMap m, w =>
    if n = 0 ∨ (k = 0 ∧ ∀ e ∈ m.toList, segments e.1 = []) then w = .strMap m
    else ∀ e ∈ m.toList, segments e.1 = [e.1]
  | .enum map none, w => w = .enum map none
  | .enum map (some x), w => (∃ y, w = .enum map (some y)) ∧
    if n = 0 then w = .enum map (some x) else (map.right x).isSome ∨ map.set "" = x
  | .int v, w => n = 0 → w = .int v
  | .long v, w => n = 0 → w = .long v
  | .str v, w => n = 0 → w = .str v
  | .bool v, w => n = 0 → w = .bool v
  | .strList v, w => n = 0 → w = .strList v
  | .intList v, w => n = 0 → w = .intList v
  | .boolPtr v, w => n = 0 → w = .boolPtr v
  | .double v, w => n = 0 → w = .double v

/-- When `n` passes of `LoadINI` over the store `t` at `path` restore the fields
    of `s`. -/
def Restored (n : ℕ) (path : Path) : List (String × Val) → Obj → Prop
  | [], t => t = []
  | (name, v) :: s, t => ∃ w t', t = (name, w) :: t' ∧
    RestoredVal n (strays hash prev path name) (path ++ [name]) v w ∧ Restored n path s t'

/-- When one pass over a fresh element restores each element, from `index` on. -/
def RestoredElems (p : Path) : ℕ → List (List (String × Val)) → Obj → Prop
  | _, [], _ => True
  | index, s :: ss, fresh =>
    Restored 1 (p ++ [indexName index]) s fresh ∧ RestoredElems p (index + 1) ss fresh

end

end Condition

/-! ## String maps -/

/-- A segment of a key is a key of one segment. -/
theorem segments_of_mem {key k : String} (h : k ∈ segments key) : segments k = [k] := by
  unfold segments at h
  obtain ⟨l, hl, rfl⟩ := List.mem_map.mp h
  rw [List.mem_filter] at hl
  have hsplit : l.splitOn '/' = [l] := by
    rw [List.splitOn_eq_splitOnP]
    refine List.splitOnP_eq_singleton fun x hx => ?_
    have hne : x ≠ '/' := fun he => Parts.not_mem_of_mem_splitOn hl.1 (he ▸ hx)
    simpa using hne
  unfold segments
  have hfilter : [l].filter (fun s => s ≠ []) = [l] :=
    List.filter_eq_self.mpr fun s hs => List.mem_singleton.mp hs ▸ hl.2
  rw [String.toList_ofList, hsplit, hfilter]
  rfl

section StrMap

variable {p : Path}

/-- The entries of a map, saved behind each other in the group of the map. -/
abbrev saveEntries (p : Path) (es : List (String × String)) (ini : Settings) : Settings :=
  es.foldl (fun ini e => setValue ini p e.1 (.string e.2)) ini

theorem getElem?_setValue (ini : Settings) (key : String) (v : Variant) (q : Path) :
    (setValue ini p key v)[q]? =
      if segments key ≠ [] ∧ q = p ++ segments key then some v else ini[q]? := by
  unfold setValue
  split
  · next h => simp [h]
  · next x r h =>
    rw [Std.ExtTreeMap.getElem?_insert, h]
    simp [@eq_comm _ q]

theorem saveEntries_of_ne (es : List (String × String)) {q : Path}
    (h : ∀ e ∈ es, segments e.1 ≠ [] → q ≠ p ++ segments e.1) (ini : Settings) :
    (saveEntries p es ini)[q]? = ini[q]? := by
  induction es generalizing ini with
  | nil => rfl
  | cons e es ih =>
    rw [saveEntries, List.foldl_cons, ih (fun e' he' => h e' (List.mem_cons_of_mem _ he')),
      getElem?_setValue, if_neg]
    rintro ⟨hne, hq⟩
    exact h e List.mem_cons_self hne hq

theorem isSome_saveEntries (es : List (String × String)) {q : Path} {ini : Settings}
    (h : (ini[q]?).isSome ∨ ∃ e ∈ es, segments e.1 ≠ [] ∧ q = p ++ segments e.1) :
    ((saveEntries p es ini)[q]?).isSome := by
  induction es generalizing ini with
  | nil => simpa using h
  | cons e es ih =>
    refine ih ?_
    rw [getElem?_setValue]
    by_cases he : segments e.1 ≠ [] ∧ q = p ++ segments e.1
    · rw [if_pos he]
      exact Or.inl rfl
    · rw [if_neg he]
      refine h.imp_right ?_
      rintro ⟨e', he', hq⟩
      rcases List.mem_cons.mp he' with rfl | he'
      · exact absurd hq he
      · exact ⟨e', he', hq⟩

theorem saveEntries_of_mem (es : List (String × String)) (hvalid : ∀ e ∈ es, segments e.1 = [e.1])
    (hnodup : (es.map Prod.fst).Nodup) (ini : Settings) :
    ∀ e ∈ es, (saveEntries p es ini)[p ++ [e.1]]? = some (.string e.2) := by
  induction es generalizing ini with
  | nil => simp
  | cons e es ih =>
    rw [List.map_cons, List.nodup_cons] at hnodup
    have hvalid' : ∀ e ∈ es, segments e.1 = [e.1] := fun e he => hvalid e (List.mem_cons_of_mem _ he)
    intro e' he'
    rcases List.mem_cons.mp he' with rfl | he'
    · have hself := hvalid e' List.mem_cons_self
      rw [saveEntries, List.foldl_cons]
      refine (saveEntries_of_ne es ?_ _).trans ?_
      · intro e he _ heq
        rw [hvalid' e he, List.append_cancel_left_eq, List.singleton_inj] at heq
        exact hnodup.1 (List.mem_map.mpr ⟨e, he, heq.symm⟩)
      · rw [getElem?_setValue, hself, if_pos ⟨List.cons_ne_nil _ _, rfl⟩]
    · exact ih hvalid' hnodup.2 _ e' he'

/-- After a map is saved, the paths at and below its own are those of its keys. -/
theorem isSome_saveVal_strMap (m : VariantMap) (prev : Settings) (r : Path) :
    ((saveVal p (.strMap m) prev)[p ++ r]?).isSome ↔ r ≠ [] ∧ ∃ e ∈ m.toList, segments e.1 = r := by
  simp only [saveVal]
  constructor
  · intro h
    by_contra hno
    rw [saveEntries_of_ne, PathMap.getElem?_removeGroup, if_pos (List.prefix_append _ _)] at h
    · exact absurd h (by simp)
    · intro e he hne heq
      have hr : r = segments e.1 := List.append_cancel_left heq
      exact hno ⟨hr ▸ hne, e, he, hr.symm⟩
  · rintro ⟨hne, e, he, rfl⟩
    exact isSome_saveEntries _ (Or.inr ⟨e, he, hne, rfl⟩)

theorem getElem?_foldl_insert {γ : Type*} (f : String → γ) (ks : List String) :
    ∀ (m : Std.ExtTreeMap String γ) (k : String),
      (ks.foldl (fun m key => m.insert key (f key)) m)[k]? = if k ∈ ks then some (f k) else m[k]? := by
  induction ks with
  | nil => simp
  | cons key ks ih =>
    intro m k
    rw [List.foldl_cons, ih, Std.ExtTreeMap.getElem?_insert]
    by_cases hk : k ∈ ks
    · simp [hk]
    · by_cases he : key = k
      · simp [he]
      · have hne : ¬ k = key := fun h => he h.symm
        simp [hk, he, hne]

theorem getElem?_loadStrMap (conv : Conversions) (ini : Settings) (k : String) :
    (loadStrMap conv ini p)[k]? = (ini[p ++ [k]]?).map conv.toString := by
  unfold loadStrMap
  rw [getElem?_foldl_insert]
  by_cases h : k ∈ ini.childKeys p
  · obtain ⟨v, hv⟩ := Option.isSome_iff_exists.mp (PathMap.mem_childKeys.mp h)
    simp [h, value, hv]
  · have hnone : ini[p ++ [k]]? = none := by
      rw [PathMap.mem_childKeys] at h
      simpa using h
    simp [h, hnone]

/-- A saved map is loaded again exactly when all of its keys are single
    segments. -/
theorem loadStrMap_eq_iff (conv : Conversions) {m : VariantMap} {ini prev : Settings}
    (hagree : PathMap.Agree p ini (saveVal p (.strMap m) prev)) :
    loadStrMap conv ini p = m ↔ ∀ e ∈ m.toList, segments e.1 = [e.1] := by
  constructor
  · rintro h ⟨k, v⟩ he
    have hk : m[k]? = some v := Std.ExtTreeMap.mem_toList_iff_getElem?_eq_some.mp he
    rw [← h, getElem?_loadStrMap, hagree] at hk
    have hsome : ((saveVal p (.strMap m) prev)[p ++ [k]]?).isSome := by
      obtain ⟨x, hx, -⟩ := Option.map_eq_some_iff.mp hk
      rw [hx]
      rfl
    obtain ⟨-, e', -, hseg⟩ := (isSome_saveVal_strMap m prev [k]).mp hsome
    exact @segments_of_mem e'.1 k (by simp [hseg])
  · intro hvalid
    refine Std.ExtTreeMap.ext_getElem? fun k => ?_
    rw [getElem?_loadStrMap, hagree]
    cases hk : m[k]? with
    | some v =>
      have he : (k, v) ∈ m.toList := Std.ExtTreeMap.mem_toList_iff_getElem?_eq_some.mpr hk
      have hnodup : (m.toList.map Prod.fst).Nodup := by
        rw [Std.ExtTreeMap.map_fst_toList_eq_keys]
        exact Std.ExtTreeMap.nodup_keys
      simp only [saveVal]
      rw [saveEntries_of_mem _ hvalid hnodup _ _ he]
      simp [conv.toString_string]
    | none =>
      have hnone : ¬ ((saveVal p (.strMap m) prev)[p ++ [k]]?).isSome := by
        rw [isSome_saveVal_strMap]
        rintro ⟨-, ⟨k', v⟩, he, hseg⟩
        rw [hvalid _ he, List.singleton_inj] at hseg
        have hk' := Std.ExtTreeMap.mem_toList_iff_getElem?_eq_some.mp he
        simp only at hseg
        rw [hseg, hk] at hk'
        exact absurd hk' (by simp)
      simpa using hnone

end StrMap

/-! ## One kind of field after the other -/

/-- A function that is constant where it is iterated. -/
theorem iterate_of_const {α : Type*} {P : α → Prop} {f : α → α} {u w : α} (hf : ∀ x, P x → f x = u)
    (hu : P u) (hw : P w) (c : ℕ) : f^[c] w = if c = 0 then w else u := by
  match c with
  | 0 => rfl
  | c + 1 => rw [Function.iterate_succ_apply, hf w hw, Function.iterate_fixed (hf u hu), if_neg (by simp)]

theorem listStrToListInt_listIntToListStr (l : List (BitVec 32)) :
    listStrToListInt (listIntToListStr l) = l := by
  unfold listStrToListInt listIntToListStr
  rw [List.map_map]
  refine (List.map_congr_left fun v _ => ?_).trans (List.map_id l)
  have hv : IsInt32 v.toInt := ⟨BitVec.le_toInt v, BitVec.toInt_lt⟩
  simp [toInt_number hv]

section Fields

variable {hash : String → Bytes} {conv : Conversions} {ini prev : Settings}
  {load : Path → Obj → Obj} {path : Path} {name : String}

/-- A name is passed once as a key and once as a group. -/
theorem count_children (ini : Settings) (path : Path) (name : String) :
    (children ini path).count name =
      staleKey ini (path ++ [name]) + if name ∈ ini.childGroups path then 1 else 0 := by
  have hcount : ∀ l : List String, l.Nodup → l.count name = if name ∈ l then 1 else 0 := by
    intro l hl
    split_ifs with h
    · exact List.count_eq_one_of_mem hl h
    · exact List.count_eq_zero_of_not_mem h
  unfold children staleKey
  rw [List.count_append, hcount _ (PathMap.nodup_childKeys ini path),
    hcount _ (PathMap.nodup_childGroups ini path)]
  simp only [PathMap.mem_childKeys]

/-- The scalar kinds: `SaveINI` writes one value, from which `LoadINI` gets the
    field back whatever it is. -/
theorem iterate_scalar {v w : Val} {x : Variant} (htype : w.type = v.type)
    (hsaved : ini[path ++ [name]]? = some x)
    (hload : ∀ w', w'.type = v.type → loadItem conv ini load (path ++ [name]) w' = v) (n k : ℕ) :
    (loadItem conv ini load (path ++ [name]))^[n * (k + (children ini path).count name)] w = v ↔
      (n = 0 → w = v) := by
  have hpos : 0 < k + (children ini path).count name := by
    rw [count_children, staleKey, hsaved, Option.isSome_some, if_pos rfl]
    omega
  rw [iterate_of_const hload rfl htype]
  rcases Nat.eq_zero_or_pos n with rfl | hn
  · simp
  · have hmul := Nat.mul_pos hn hpos
    simp [hn.ne', hmul.ne']

theorem iterate_enum {map : EnumMap} {x : BitVec 32} {w : Val}
    (hsaved : ini[path ++ [name]]? = some (.string (map.toString x))) (n k : ℕ)
    (hw : ∃ y, w = .enum map y) :
    (loadItem conv ini load (path ++ [name]))^[n * (k + (children ini path).count name)] w =
        .enum map (some x) ↔
      (∃ y, w = .enum map (some y)) ∧
        if n = 0 then w = .enum map (some x) else (map.right x).isSome ∨ map.set "" = x := by
  obtain ⟨y, rfl⟩ := hw
  cases y with
  | none =>
    rw [Function.iterate_fixed rfl]
    simp
  | some y =>
    have hpos : 0 < k + (children ini path).count name := by
      rw [count_children, staleKey, hsaved, Option.isSome_some, if_pos rfl]
      omega
    have hload : ∀ w', (∃ y, w' = Val.enum map (some y)) →
        loadItem conv ini load (path ++ [name]) w' = .enum map (some (map.set (map.toString x))) := by
      rintro _ ⟨y, rfl⟩
      simp [loadItem, value, hsaved, conv.toString_string]
    rw [iterate_of_const hload ⟨_, rfl⟩ ⟨y, rfl⟩]
    rcases Nat.eq_zero_or_pos n with rfl | hn
    · simp
    · have hmul := Nat.mul_pos hn hpos
      simp [hn.ne', hmul.ne', ← set_toString_iff]

theorem iterate_strMap {m : VariantMap} {w : Val}
    (hagree : PathMap.Agree (path ++ [name]) ini (saveVal (path ++ [name]) (.strMap m) prev)) (n k : ℕ)
    (hw : w.type = .strMap) :
    (loadItem conv ini load (path ++ [name]))^[n * (k + (children ini path).count name)] w = .strMap m ↔
      if n = 0 ∨ (k = 0 ∧ ∀ e ∈ m.toList, segments e.1 = []) then w = .strMap m
      else ∀ e ∈ m.toList, segments e.1 = [e.1] := by
  have hkey : staleKey ini (path ++ [name]) = 0 := by
    have hnot : ¬ ((saveVal (path ++ [name]) (.strMap m) prev)[path ++ [name] ++ []]?).isSome := fun h =>
      ((isSome_saveVal_strMap m prev []).mp h).1 rfl
    rw [← hagree [], List.append_nil] at hnot
    exact if_neg hnot
  have hbelow : ∀ r, (ini[path ++ name :: r]?).isSome ↔ r ≠ [] ∧ ∃ e ∈ m.toList, segments e.1 = r := by
    intro r
    rw [List.append_cons, hagree, isSome_saveVal_strMap]
  have hgroup : name ∈ ini.childGroups path ↔ ¬ ∀ e ∈ m.toList, segments e.1 = [] := by
    rw [PathMap.mem_childGroups]
    simp only [hbelow]
    constructor
    · rintro ⟨r, hr, -, e, he, rfl⟩ hall
      exact hr (hall e he)
    · intro h
      push Not at h
      obtain ⟨e, he, hne⟩ := h
      exact ⟨_, hne, hne, e, he, rfl⟩
  have hload : ∀ w', w'.type = (Val.strMap m).type →
      loadItem conv ini load (path ++ [name]) w' = .strMap (loadStrMap conv ini (path ++ [name])) := by
    intro w' hw'
    cases w' <;> cases hw'
    rfl
  rw [iterate_of_const hload rfl hw, count_children, hkey, Nat.zero_add, ← loadStrMap_eq_iff conv hagree]
  have hzero : n * (k + if name ∈ ini.childGroups path then 1 else 0) = 0 ↔
      n = 0 ∨ (k = 0 ∧ ∀ e ∈ m.toList, segments e.1 = []) := by
    rw [Nat.mul_eq_zero, Nat.add_eq_zero_iff, ite_eq_right_iff, hgroup]
    simp
  simp only [hzero]
  split_ifs <;> simp

/-! ## Nested stores and lists -/

theorem iterate_jsonStore (load : Path → Obj → Obj) (p : Path) (t : Obj) (c : ℕ) :
    (loadItem conv ini load p)^[c] (.jsonStore (some t)) = .jsonStore (some ((load p)^[c] t)) :=
  (Function.Semiconj.iterate_right (f := fun t => Val.jsonStore (some t)) (fun _ => rfl) c t).symm

theorem iterate_jsonShared (load : Path → Obj → Obj) (p : Path) (t : Obj) (c : ℕ) :
    (loadItem conv ini load p)^[c] (.jsonShared (some t)) = .jsonShared (some ((load p)^[c] t)) :=
  (Function.Semiconj.iterate_right (f := fun t => Val.jsonShared (some t)) (fun _ => rfl) c t).symm

theorem iterate_jsonStoreList (load : Path → Obj → Obj) (p : Path) (fresh : Obj) (ts : List Obj) (c : ℕ) :
    (loadItem conv ini load p)^[c] (.jsonStoreList fresh ts) =
      .jsonStoreList fresh ((loadElems ini load p fresh)^[c] ts) :=
  (Function.Semiconj.iterate_right (f := fun ts => Val.jsonStoreList fresh ts) (fun _ => rfl) c ts).symm

theorem length_loadElem (load : Path → Obj → Obj) (p : Path) (elems : List Obj) (st : String) :
    (loadElem load p elems st).length = elems.length := by
  unfold loadElem
  split
  · split_ifs
    · exact List.length_modify _ _ _
    · rfl
  · rfl

theorem length_loadElems (load : Path → Obj → Obj) (p : Path) (fresh : Obj) (elems : List Obj) :
    (loadElems ini load p fresh elems).length = elems.length + (ini.childGroups p).length := by
  have hfold : ∀ (gs : List String) (l : List Obj), (gs.foldl (loadElem load p) l).length = l.length := by
    intro gs
    induction gs with
    | nil => exact fun _ => rfl
    | cons g gs ih => exact fun l => (ih _).trans (length_loadElem _ _ _ _)
  unfold loadElems
  rw [hfold, List.length_append, List.length_replicate]

theorem length_iterate_loadElems (load : Path → Obj → Obj) (p : Path) (fresh : Obj) (c : ℕ) :
    ∀ elems, ((loadElems ini load p fresh)^[c] elems).length =
      elems.length + c * (ini.childGroups p).length := by
  induction c with
  | zero => simp
  | succ c ih =>
    intro elems
    rw [Function.iterate_succ_apply, ih, length_loadElems]
    ring

/-- Each group names at most one element, which is loaded from it. -/
theorem getElem?_foldl_loadElem (load : Path → Obj → Obj) (p : Path) {gs : List String}
    (hnames : ∀ g ∈ gs, ∃ j < 2 ^ 31, g = indexName j) (hnodup : gs.Nodup) {i : ℕ} (hi : i < 2 ^ 31) :
    ∀ l : List Obj, (gs.foldl (loadElem load p) l)[i]? =
      if indexName i ∈ gs then (l[i]?).map (load (p ++ [indexName i])) else l[i]? := by
  induction gs with
  | nil => simp
  | cons g gs ih =>
    intro l
    obtain ⟨j, hj, rfl⟩ := hnames g List.mem_cons_self
    rw [List.nodup_cons] at hnodup
    have helem : loadElem load p l (indexName j) = l.modify j (load (p ++ [indexName j])) := by
      simp [loadElem, toInt_indexName hj]
    rw [List.foldl_cons, helem, ih (fun g hg => hnames g (List.mem_cons_of_mem _ hg)) hnodup.2,
      List.getElem?_modify]
    by_cases hij : j = i
    · subst hij
      simp [hnodup.1]
    · have hne : indexName i ≠ indexName j := fun h => hij (indexName_injective hi hj h).symm
      simp [hij, hne]

/-- With one group for each element, every element is loaded from its own. -/
theorem loadElems_nil_eq_iff (load : Path → Obj → Obj) (p : Path) (fresh : Obj) {ss : List Obj}
    (hlen : ss.length ≤ 2 ^ 31)
    (hperm : (ini.childGroups p).Perm ((List.range ss.length).map indexName)) :
    loadElems ini load p fresh [] = ss ↔
      ∀ (i : ℕ) (h : i < ss.length), load (p ++ [indexName i]) fresh = ss[i] := by
  have hnames : ∀ g ∈ ini.childGroups p, ∃ j < 2 ^ 31, g = indexName j := by
    intro g hg
    obtain ⟨j, hj, rfl⟩ := List.mem_map.mp (hperm.mem_iff.mp hg)
    rw [List.mem_range] at hj
    exact ⟨j, by omega, rfl⟩
  have hlength : (ini.childGroups p).length = ss.length := by
    rw [hperm.length_eq, List.length_map, List.length_range]
  have hget : ∀ i < ss.length,
      (loadElems ini load p fresh [])[i]? = some (load (p ++ [indexName i]) fresh) := by
    intro i hi
    have hmem : indexName i ∈ ini.childGroups p :=
      hperm.mem_iff.mpr (List.mem_map.mpr ⟨i, List.mem_range.mpr hi, rfl⟩)
    unfold loadElems
    rw [getElem?_foldl_loadElem load p hnames (PathMap.nodup_childGroups _ _) (by omega), if_pos hmem]
    simp [hlength, hi]
  constructor
  · intro h i hi
    have := hget i hi
    rw [h, List.getElem?_eq_getElem hi] at this
    exact (Option.some.inj this).symm
  · intro h
    refine List.ext_getElem? fun i => ?_
    by_cases hi : i < ss.length
    · rw [hget i hi, h i hi, List.getElem?_eq_getElem hi]
    · have hle : (loadElems ini load p fresh []).length ≤ i := by
        rw [length_loadElems, hlength, List.length_nil]
        omega
      rw [List.getElem?_eq_none hle, List.getElem?_eq_none (by omega)]

/-- How the groups of a list, its elements and the number of passes have to fit
    together. -/
theorem iterate_loadElems_eq_iff (load : Path → Obj → Obj) (p : Path) (fresh : Obj) {ts ss : List Obj}
    {c : ℕ} (hc : 0 < c) (hlen : ss.length ≤ 2 ^ 31) (hgroups : ini.childGroups p ≠ [])
    (hwritten : ∀ i < ss.length, indexName i ∈ ini.childGroups p) :
    (loadElems ini load p fresh)^[c] ts = ss ↔
      c = 1 ∧ ts = [] ∧ (∀ g ∈ ini.childGroups p, ∃ i < ss.length, g = indexName i) ∧
        ∀ (i : ℕ) (h : i < ss.length), load (p ++ [indexName i]) fresh = ss[i] := by
  have hnodup : ((List.range ss.length).map indexName).Nodup := by
    refine List.Nodup.map_on (fun i hi j hj h => ?_) List.nodup_range
    rw [List.mem_range] at hi hj
    exact indexName_injective (by omega) (by omega) h
  have hsub : ((List.range ss.length).map indexName).Subperm (ini.childGroups p) := by
    refine hnodup.subperm fun g hg => ?_
    obtain ⟨i, hi, rfl⟩ := List.mem_map.mp hg
    exact hwritten i (List.mem_range.mp hi)
  have hle := hsub.length_le
  rw [List.length_map, List.length_range] at hle
  have hpos : 0 < (ini.childGroups p).length := List.length_pos_of_ne_nil hgroups
  constructor
  · intro h
    have hlength := @length_iterate_loadElems ini load p fresh c ts
    rw [h] at hlength
    have hmul : (ini.childGroups p).length ≤ c * (ini.childGroups p).length := Nat.le_mul_of_pos_left _ hc
    have hts : ts = [] := List.eq_nil_of_length_eq_zero (by omega)
    have hone : c = 1 := by
      refine Nat.eq_of_mul_eq_mul_right hpos ?_
      omega
    subst hone hts
    have hperm : (ini.childGroups p).Perm ((List.range ss.length).map indexName) :=
      (hsub.perm_of_length_le (by
        rw [List.length_map, List.length_range]
        simp at hlength
        omega)).symm
    refine ⟨rfl, rfl, fun g hg => ?_, (loadElems_nil_eq_iff load p fresh hlen hperm).mp h⟩
    obtain ⟨i, hi, rfl⟩ := List.mem_map.mp (hperm.mem_iff.mp hg)
    exact ⟨i, List.mem_range.mp hi, rfl⟩
  · rintro ⟨rfl, rfl, hnames, helems⟩
    have hperm : (ini.childGroups p).Perm ((List.range ss.length).map indexName) := by
      refine (List.perm_ext_iff_of_nodup (PathMap.nodup_childGroups _ _) hnodup).mpr fun g => ?_
      rw [List.mem_map]
      constructor
      · intro hg
        obtain ⟨i, hi, rfl⟩ := hnames g hg
        exact ⟨i, List.mem_range.mpr hi, rfl⟩
      · rintro ⟨i, hi, rfl⟩
        exact hwritten i (List.mem_range.mp hi)
    exact (loadElems_nil_eq_iff load p fresh hlen hperm).mpr helems

end Fields

/-! ## A pass over a store, field by field -/

section Store

variable {hash : String → Bytes} {conv : Conversions} {ini prev : Settings}

theorem loadChild_eq {t : Obj} (hnodup : (Obj.keys hash t).Nodup) (load : Path → Obj → Obj)
    (path : Path) (key : String) : loadChild hash conv ini load path t key =
      t.map fun f =>
        (f.1, if hash key = hash f.1 then loadItem conv ini load (path ++ [f.1]) f.2 else f.2) := by
  unfold loadChild
  split
  · next name v hfind =>
    have hkey : hash name = hash key := by simpa using List.find?_some hfind
    refine List.map_congr_left fun f hf => ?_
    by_cases hf' : hash f.1 = hash key
    · have hfield : f = (name, v) := List.inj_on_of_nodup_map hnodup hf
        (List.mem_of_find?_eq_some hfind) (hf'.trans hkey.symm)
      rw [if_pos hf', if_pos hf'.symm, hfield]
    · rw [if_neg hf', if_neg (Ne.symm hf')]
  · next hnone =>
    refine ((List.map_congr_left fun f hf => ?_).trans (List.map_id t)).symm
    have hne : ¬ hash f.1 = hash key := by simpa using List.find?_eq_none.mp hnone f hf
    rw [if_neg (Ne.symm hne), id]

theorem keys_map (t : Obj) (g : String × Val → Val) :
    Obj.keys hash (t.map fun f => (f.1, g f)) = Obj.keys hash t := by
  unfold Obj.keys
  rw [List.map_map]
  rfl

theorem foldl_loadChild {t : Obj} (hnodup : (Obj.keys hash t).Nodup) (load : Path → Obj → Obj)
    (path : Path) (ks : List String) : ks.foldl (loadChild hash conv ini load path) t =
      t.map fun f =>
        (f.1, (loadItem conv ini load (path ++ [f.1]))^[ks.countP fun x => hash x = hash f.1] f.2) := by
  induction ks generalizing t with
  | nil => simp
  | cons key ks ih =>
    rw [List.foldl_cons, loadChild_eq hnodup, ih (by rwa [keys_map]), List.map_map]
    refine List.map_congr_left fun f _ => ?_
    by_cases h : hash key = hash f.1
    · simp [h]
    · simp [h]

theorem iterate_loadStore {fuel : ℕ} {path : Path} (hdepth : ini.depth ≤ fuel + path.length) (n : ℕ) :
    ∀ {t : Obj}, (Obj.keys hash t).Nodup → (loadStore hash conv ini fuel path)^[n] t =
      t.map fun f => (f.1, (loadItem conv ini (loadStore hash conv ini (fuel - 1)) (path ++ [f.1]))^[n *
        (children ini path).countP fun x => hash x = hash f.1] f.2) := by
  induction n with
  | zero => simp
  | succ n ih =>
    intro t hnodup
    rw [Function.iterate_succ_apply, loadStore_eq hdepth, foldl_loadChild hnodup, ih (by rwa [keys_map]),
      List.map_map]
    refine List.map_congr_left fun f _ => ?_
    rw [Nat.succ_mul, Function.iterate_add_apply]
    rfl

/-- A field is loaded by the strays with its hash and by its own name. -/
theorem countP_children (path : Path) (name : String) :
    ((children ini path).countP fun x => hash x = hash name) =
      strays hash ini path name + (children ini path).count name := by
  unfold strays
  induction children ini path with
  | nil => rfl
  | cons x l ih =>
    simp only [List.countP_cons, List.count_cons, ih]
    by_cases hx : x = name
    · simp [hx, Nat.add_assoc]
    · by_cases hh : hash x = hash name
      · simp [hx, hh, Nat.add_right_comm]
      · simp [hx, hh]

theorem countP_congr_of_nodup {α : Type*} {P : α → Bool} {l l' : List α} (h : l.Nodup) (h' : l'.Nodup)
    (hmem : ∀ x, P x = true → (x ∈ l ↔ x ∈ l')) : l.countP P = l'.countP P := by
  rw [List.countP_eq_length_filter, List.countP_eq_length_filter]
  refine ((List.perm_ext_iff_of_nodup (h.filter _) (h'.filter _)).mpr fun x => ?_).length_eq
  rw [List.mem_filter, List.mem_filter]
  exact and_congr_left (hmem x)

theorem nodup_keys {s : Obj} (h : DistinctKeys hash s) : (Obj.keys hash s).Nodup := by
  induction s with
  | nil => simp
  | cons g s ih => exact List.nodup_cons.mpr ⟨h.1, ih h.2.2⟩

theorem nodup_keys_of_sameClass {s t : Obj} (hclass : SameClass s t) (hkeys : DistinctKeys hash s) :
    (Obj.keys hash t).Nodup := by
  rw [keys_of_sameClass hclass]
  exact nodup_keys hkeys

theorem exists_of_sameClass {s t : Obj} (h : SameClass s t) : ∀ f ∈ t, ∃ g ∈ s, g.1 = f.1 := by
  induction s generalizing t with
  | nil =>
    rw [SameClass] at h
    simp [h]
  | cons g s ih =>
    obtain ⟨name, v⟩ := g
    rw [SameClass] at h
    obtain ⟨w, t', rfl, -, hclass⟩ := h
    intro f hf
    rcases List.mem_cons.mp hf with rfl | hf
    · exact ⟨_, List.mem_cons_self, rfl⟩
    · obtain ⟨g, hg, hgf⟩ := ih hclass f hf
      exact ⟨g, List.mem_cons_of_mem _ hg, hgf⟩

/-- Names that are not those of fields are left alone, so the strays stay. -/
theorem strays_eq {s : Obj} (hkeys : DistinctKeys hash s) {path : Path}
    (hagree : PathMap.Agree path ini (saveINI path s prev)) :
    ∀ f ∈ s, strays hash ini path f.1 = strays hash prev path f.1 := by
  intro f hf
  have hsame : ∀ x, x ≠ f.1 → hash x = hash f.1 → ∀ r, ini[path ++ x :: r]? = prev[path ++ x :: r]? := by
    intro x hne hx r
    rw [hagree, saveINI_frame s]
    intro g hg
    refine not_prefix_of_ne fun h => ?_
    have hfg : f = g := List.inj_on_of_nodup_map (nodup_keys hkeys) hf hg (by rw [h, hx])
    exact hne (by rw [← h, hfg])
  unfold strays children
  rw [List.countP_append, List.countP_append]
  refine congrArg₂ _ (countP_congr_of_nodup (PathMap.nodup_childKeys _ _) (PathMap.nodup_childKeys _ _) ?_)
    (countP_congr_of_nodup (PathMap.nodup_childGroups _ _) (PathMap.nodup_childGroups _ _) ?_)
  · intro x hx
    obtain ⟨hne, hh⟩ := of_decide_eq_true hx
    rw [PathMap.mem_childKeys, PathMap.mem_childKeys, hsame x hne hh]
  · intro x hx
    obtain ⟨hne, hh⟩ := of_decide_eq_true hx
    simp only [PathMap.mem_childGroups, hsame x hne hh]

/-- The passes of `LoadINI` over a store that has been saved: each field of `t`
    is loaded as often as a name with its hash is passed. -/
theorem iterate_loadStore_saved {s t : Obj} (hclass : SameClass s t) (hkeys : DistinctKeys hash s)
    {fuel : ℕ} {path : Path} (hdepth : ini.depth ≤ fuel + path.length)
    (hagree : PathMap.Agree path ini (saveINI path s prev)) (n : ℕ) :
    (loadStore hash conv ini fuel path)^[n] t =
      t.map fun f => (f.1, (loadItem conv ini (loadStore hash conv ini (fuel - 1)) (path ++ [f.1]))^[n *
        (strays hash prev path f.1 + (children ini path).count f.1)] f.2) := by
  have hnodup : (Obj.keys hash t).Nodup := nodup_keys_of_sameClass hclass hkeys
  rw [iterate_loadStore hdepth n hnodup]
  refine List.map_congr_left fun f hf => ?_
  obtain ⟨g, hg, hgf⟩ := exists_of_sameClass hclass f hf
  rw [countP_children, ← hgf, strays_eq hkeys hagree g hg]

/-! ## Every field is restored exactly under its condition -/

/-- The variant under which a scalar kind of field is saved. -/
def scalarVariant : Val → Option Variant
  | .int v => some (.int v)
  | .long v => some (.long v)
  | .str v => some (.string v)
  | .bool v => some (.bool v)
  | .strList v => some (.stringList v)
  | .intList v => some (.stringList (listIntToListStr v))
  | .boolPtr v => some (.bool v)
  | .double v => some (.double v)
  | _ => none

theorem loadItem_scalar {v w : Val} {x : Variant} (hx : scalarVariant v = some x) {p : Path}
    (hsaved : ini[p]? = some x) (load : Path → Obj → Obj) (htype : w.type = v.type) :
    loadItem conv ini load p w = v := by
  cases v <;> cases hx <;> cases w <;> cases htype <;>
    simp [loadItem, value, hsaved, conv.toInt_int, conv.toLongLong_long, conv.toDouble_double,
      conv.toBool_bool, conv.toString_string, conv.toStringList_stringList,
      listStrToListInt_listIntToListStr]

theorem iterate_scalar_saved {v w : Val} {x : Variant} (hx : scalarVariant v = some x) {path : Path}
    {name : String} (hsave : saveVal (path ++ [name]) v prev = prev.insert (path ++ [name]) x)
    (hagree : PathMap.Agree (path ++ [name]) ini (saveVal (path ++ [name]) v prev))
    (htype : w.type = v.type) (load : Path → Obj → Obj) (n k : ℕ) :
    (loadItem conv ini load (path ++ [name]))^[n * (k + (children ini path).count name)] w = v ↔
      (n = 0 → w = v) := by
  have hsaved : ini[path ++ [name]]? = some x := by
    rw [hagree.here, hsave, Std.ExtTreeMap.getElem?_insert_self]
  exact iterate_scalar htype hsaved (fun _ => loadItem_scalar hx hsaved load) n k

/-- A nested store leaves the value at its own path as it was, and a group
    there. -/
theorem count_nested {st : Obj} (hkeys : DistinctKeys hash st) (hwrites : writes st = true)
    {path : Path} {name : String}
    (hagree : PathMap.Agree (path ++ [name]) ini (saveINI (path ++ [name]) st prev)) :
    (children ini path).count name = staleKey prev (path ++ [name]) + 1 := by
  have hkey : ini[path ++ [name]]? = prev[path ++ [name]]? := by
    rw [hagree.here, saveINI_frame st]
    intro f _ hp
    simpa using hp.length_le
  obtain ⟨x, r, hr⟩ := exists_of_writes st hkeys hwrites (path ++ [name]) prev
  rw [← hagree] at hr
  have hgroup : name ∈ ini.childGroups path :=
    PathMap.mem_childGroups.mpr ⟨x :: r, List.cons_ne_nil _ _, by rwa [List.append_cons]⟩
  rw [count_children, staleKey, staleKey, hkey, if_pos hgroup]

theorem distinctKeysElems_iff {ss : List Obj} :
    DistinctKeysElems hash ss ↔ ∀ s ∈ ss, DistinctKeys hash s := by
  induction ss with
  | nil => simp [DistinctKeysElems]
  | cons s ss ih => simp [DistinctKeysElems, ih]

theorem writesBelowElems_iff {ss : List Obj} :
    WritesBelowElems ss ↔ ∀ s ∈ ss, writes s = true ∧ WritesBelow s := by
  induction ss with
  | nil => simp [WritesBelowElems]
  | cons s ss ih => simp [WritesBelowElems, ih]

/-- The groups below a list of stores: those of its elements, and those that
    were there. -/
theorem mem_childGroups_list {ss : List Obj} (hkeys : DistinctKeysElems hash ss)
    (hwrites : WritesBelowElems ss) (hlen : ss.length ≤ 2 ^ 31) {p : Path}
    (hagree : PathMap.Agree p ini (saveElems p 0 ss prev)) (g : String) :
    g ∈ ini.childGroups p ↔ (∃ i < ss.length, g = indexName i) ∨ g ∈ prev.childGroups p := by
  by_cases h : ∃ i < ss.length, g = indexName i
  · obtain ⟨i, hi, rfl⟩ := h
    have helem := saveElems_agree ss p 0 (by omega) prev i hi
    rw [Nat.zero_add] at helem
    obtain ⟨x, r, hr⟩ := exists_of_writes ss[i] (distinctKeysElems_iff.mp hkeys _ (List.getElem_mem hi))
      (writesBelowElems_iff.mp hwrites _ (List.getElem_mem hi)).1 (p ++ [indexName i]) prev
    rw [← helem, List.append_assoc, ← hagree] at hr
    have hmem : indexName i ∈ ini.childGroups p :=
      PathMap.mem_childGroups.mpr ⟨x :: r, List.cons_ne_nil _ _, hr⟩
    exact iff_of_true hmem (Or.inl ⟨i, hi, rfl⟩)
  · have hframe : ∀ r, ini[p ++ g :: r]? = prev[p ++ g :: r]? := by
      intro r
      rw [hagree, saveElems_frame ss 0]
      intro i hi
      refine not_prefix_of_ne fun heq => h ⟨i, hi, ?_⟩
      rw [← heq, Nat.zero_add]
    rw [or_iff_right h, PathMap.mem_childGroups, PathMap.mem_childGroups]
    simp only [hframe]

/-- A list of stores, with the question of its elements left open. -/
theorem iterate_list_iff {ts ss : List Obj} (hkeys : DistinctKeysElems hash ss)
    (hwrites : WritesBelowElems ss) (hlen : ss.length ≤ 2 ^ 31) {path : Path} {name : String}
    (hagree : PathMap.Agree (path ++ [name]) ini (saveElems (path ++ [name]) 0 ss prev))
    (load : Path → Obj → Obj) (fresh : Obj) (n k : ℕ) :
    (loadElems ini load (path ++ [name]) fresh)^[n * (k + (children ini path).count name)] ts = ss ↔
      if n = 0 ∨ (ss = [] ∧ prev.childGroups (path ++ [name]) = []) then ts = ss
      else n = 1 ∧ k = 0 ∧ staleKey prev (path ++ [name]) = 0 ∧ ts = [] ∧
        (∀ st ∈ prev.childGroups (path ++ [name]), ∃ i < ss.length, st = indexName i) ∧
        ∀ (i : ℕ) (h : i < ss.length), load (path ++ [name] ++ [indexName i]) fresh = ss[i] := by
  have hmem := mem_childGroups_list hkeys hwrites hlen hagree
  split_ifs with h
  · rcases h with rfl | ⟨rfl, hprev⟩
    · rw [Nat.zero_mul]
      rfl
    · have hnone : ini.childGroups (path ++ [name]) = [] := by
        refine List.eq_nil_iff_forall_not_mem.mpr fun g hg => ?_
        rw [hmem, hprev] at hg
        simp at hg
      rw [Function.iterate_fixed]
      simp [loadElems, hnone]
  · rw [not_or] at h
    obtain ⟨hn, hne⟩ := h
    have hgroups : ∃ g, g ∈ ini.childGroups (path ++ [name]) := by
      cases ss with
      | cons s ss => exact ⟨indexName 0, (hmem _).mpr (Or.inl ⟨0, by simp, rfl⟩)⟩
      | nil =>
        obtain ⟨g, hg⟩ := List.exists_mem_of_ne_nil _ fun hprev => hne ⟨rfl, hprev⟩
        exact ⟨g, (hmem g).mpr (Or.inr hg)⟩
    obtain ⟨g, hg⟩ := hgroups
    have hcount : (children ini path).count name = staleKey prev (path ++ [name]) + 1 := by
      obtain ⟨r, -, hr⟩ := PathMap.mem_childGroups.mp hg
      have hgroup : name ∈ ini.childGroups path :=
        PathMap.mem_childGroups.mpr ⟨g :: r, List.cons_ne_nil _ _, by rwa [List.append_cons]⟩
      have hkey : ini[path ++ [name]]? = prev[path ++ [name]]? := by
        rw [hagree.here, saveElems_frame ss 0]
        intro i _ hp
        simpa using hp.length_le
      rw [count_children, staleKey, staleKey, hkey, if_pos hgroup]
    have hpos : 0 < n * (k + (staleKey prev (path ++ [name]) + 1)) :=
      Nat.mul_pos (Nat.pos_of_ne_zero hn) (by omega)
    have hone : n * (k + (staleKey prev (path ++ [name]) + 1)) = 1 ↔
        n = 1 ∧ k = 0 ∧ staleKey prev (path ++ [name]) = 0 := by
      rw [mul_eq_one]
      omega
    have hnames : (∀ g ∈ ini.childGroups (path ++ [name]), ∃ i < ss.length, g = indexName i) ↔
        ∀ g ∈ prev.childGroups (path ++ [name]), ∃ i < ss.length, g = indexName i := by
      simp only [hmem, or_imp, forall_and, and_iff_right_iff_imp]
      exact fun _ _ hi => hi
    rw [hcount, iterate_loadElems_eq_iff load _ fresh hpos hlen (List.ne_nil_of_mem hg)
      (fun i hi => (hmem _).mpr (Or.inl ⟨i, hi, rfl⟩)), hone, hnames]
    simp only [and_assoc]

mutual

theorem iterate_loadItem_iff (v : Val) {w : Val} (hclass : SameClassVal v w)
    (hkeys : DistinctKeysVal hash v) (hwrites : WritesBelowVal v) {fuel : ℕ} {path : Path}
    {name : String} (hdepth : ini.depth ≤ fuel + (path.length + 1))
    (hagree : PathMap.Agree (path ++ [name]) ini (saveVal (path ++ [name]) v prev)) (n k : ℕ) :
    (loadItem conv ini (loadStore hash conv ini fuel) (path ++ [name]))^[n *
        (k + (children ini path).count name)] w = v ↔
      RestoredVal hash prev n k (path ++ [name]) v w := by
  have hdepth' : ini.depth ≤ fuel + (path ++ [name]).length := by
    rwa [List.length_append, List.length_singleton]
  match v with
  | .int _ | .long _ | .str _ | .bool _ | .strList _ | .intList _ | .boolPtr _ | .double _ =>
    simp only [RestoredVal]
    exact iterate_scalar_saved rfl (by simp only [saveVal]) hagree (type_of_sameClassVal hclass) _ n k
  | .strMap m =>
    simp only [RestoredVal]
    exact iterate_strMap hagree n k (type_of_sameClassVal hclass)
  | .enum map none =>
    rw [SameClassVal] at hclass
    obtain ⟨y, rfl⟩ := hclass
    simp only [RestoredVal]
    cases y with
    | none => rw [Function.iterate_fixed rfl]
    | some y =>
      have hload : ∀ w', (∃ y, w' = Val.enum map (some y)) →
          loadItem conv ini (loadStore hash conv ini fuel) (path ++ [name]) w' =
            .enum map (some (map.set (conv.toString (value ini (path ++ [name]) (.string ""))))) := by
        rintro _ ⟨y, rfl⟩
        rfl
      rw [iterate_of_const hload ⟨_, rfl⟩ ⟨y, rfl⟩]
      split_ifs <;> simp
  | .enum map (some x) =>
    rw [SameClassVal] at hclass
    simp only [RestoredVal]
    refine iterate_enum ?_ n k hclass
    rw [hagree.here]
    simp only [saveVal]
    exact Std.ExtTreeMap.getElem?_insert_self
  | .jsonStore none =>
    rw [SameClassVal] at hclass
    obtain ⟨t, rfl, -⟩ := hclass
    simp only [RestoredVal]
    cases t with
    | none => rw [Function.iterate_fixed rfl]
    | some t => simp [iterate_jsonStore]
  | .jsonStore (some s) =>
    rw [SameClassVal] at hclass
    obtain ⟨t, rfl, hptr⟩ := hclass
    simp only [RestoredVal]
    cases t with
    | none => simp [Function.iterate_fixed (show loadItem conv ini (loadStore hash conv ini fuel)
        (path ++ [name]) (.jsonStore none) = .jsonStore none from rfl)]
    | some t =>
      rw [SameClassPtr] at hptr
      have hclasss := hptr t rfl
      simp only [saveVal] at hagree
      have hs := map_loadItem_iff s hclasss hkeys hwrites.2 (by omega : ini.depth ≤ fuel - 1 + _)
        (fun f hf => (hagree.below [f.1]).trans (saveINI_agree hkeys _ prev f hf))
        (n * (k + (staleKey prev (path ++ [name]) + 1)))
      rw [iterate_jsonStore, count_nested hkeys hwrites.1 hagree,
        iterate_loadStore_saved hclasss hkeys hdepth' hagree]
      simp only [Val.jsonStore.injEq, Option.some.injEq, hs, exists_eq_left']
  | .jsonShared none =>
    rw [SameClassVal] at hclass
    obtain ⟨t, rfl, -⟩ := hclass
    simp only [RestoredVal]
    cases t with
    | none => rw [Function.iterate_fixed rfl]
    | some t => simp [iterate_jsonShared]
  | .jsonShared (some s) =>
    rw [SameClassVal] at hclass
    obtain ⟨t, rfl, hptr⟩ := hclass
    simp only [RestoredVal]
    cases t with
    | none => simp [Function.iterate_fixed (show loadItem conv ini (loadStore hash conv ini fuel)
        (path ++ [name]) (.jsonShared none) = .jsonShared none from rfl)]
    | some t =>
      rw [SameClassPtr] at hptr
      have hclasss := hptr t rfl
      simp only [saveVal] at hagree
      have hs := map_loadItem_iff s hclasss hkeys hwrites.2 (by omega : ini.depth ≤ fuel - 1 + _)
        (fun f hf => (hagree.below [f.1]).trans (saveINI_agree hkeys _ prev f hf))
        (n * (k + (staleKey prev (path ++ [name]) + 1)))
      rw [iterate_jsonShared, count_nested hkeys hwrites.1 hagree,
        iterate_loadStore_saved hclasss hkeys hdepth' hagree]
      simp only [Val.jsonShared.injEq, Option.some.injEq, hs, exists_eq_left']
  | .jsonStoreList fresh ss =>
    rw [SameClassVal] at hclass
    obtain ⟨ts, rfl, helems⟩ := hclass
    simp only [saveVal] at hagree
    have hss := loadStore_elems_iff ss helems hkeys hwrites.2 hdepth' 0
      (fun i hi => (hagree.below _).trans (saveElems_agree ss _ 0 (by have := hwrites.1; omega) prev i hi))
    simp only [Nat.zero_add] at hss
    rw [iterate_jsonStoreList]
    simp only [RestoredVal, Val.jsonStoreList.injEq, true_and]
    rw [iterate_list_iff hkeys hwrites.2 hwrites.1 hagree, hss]
    constructor
    · exact fun h => ⟨fresh, ts, ⟨rfl, rfl⟩, h⟩
    · rintro ⟨_, _, ⟨rfl, rfl⟩, h⟩
      exact h

theorem map_loadItem_iff (s : List (String × Val)) {t : Obj} (hclass : SameClass s t)
    (hkeys : DistinctKeys hash s) (hwrites : WritesBelow s) {fuel : ℕ} {path : Path}
    (hdepth : ini.depth ≤ fuel + (path.length + 1))
    (hagree : ∀ f ∈ s, PathMap.Agree (path ++ [f.1]) ini (saveVal (path ++ [f.1]) f.2 prev)) (n : ℕ) :
    (t.map fun f => (f.1, (loadItem conv ini (loadStore hash conv ini fuel) (path ++ [f.1]))^[n *
        (strays hash prev path f.1 + (children ini path).count f.1)] f.2)) = s ↔
      Restored hash prev n path s t := by
  match s with
  | [] =>
    rw [SameClass] at hclass
    simp [hclass, Restored]
  | (name, v) :: s =>
    rw [SameClass] at hclass
    obtain ⟨w, t, rfl, hclassv, hclasss⟩ := hclass
    have hv := iterate_loadItem_iff v hclassv hkeys.2.1 hwrites.1 hdepth (hagree _ List.mem_cons_self) n
      (strays hash prev path name)
    have hs := map_loadItem_iff s hclasss hkeys.2.2 hwrites.2 hdepth
      (fun f hf => hagree f (List.mem_cons_of_mem _ hf)) n
    simp [Restored, hv, hs]

theorem loadStore_elems_iff (ss : List (List (String × Val))) {fresh : Obj}
    (hclass : SameClassElems ss fresh) (hkeys : DistinctKeysElems hash ss)
    (hwrites : WritesBelowElems ss) {fuel : ℕ} {p : Path} (hdepth : ini.depth ≤ fuel + p.length)
    (index : ℕ) (hagree : ∀ (i : ℕ) (h : i < ss.length), PathMap.Agree (p ++ [indexName (index + i)]) ini
      (saveINI (p ++ [indexName (index + i)]) ss[i] prev)) :
    (∀ (i : ℕ) (h : i < ss.length),
        loadStore hash conv ini fuel (p ++ [indexName (index + i)]) fresh = ss[i]) ↔
      RestoredElems hash prev p index ss fresh := by
  match ss with
  | [] => simp [RestoredElems]
  | s :: ss =>
    rw [SameClassElems] at hclass
    have hs : loadStore hash conv ini fuel (p ++ [indexName index]) fresh = s ↔
        Restored hash prev 1 (p ++ [indexName index]) s fresh := by
      have hagree' := hagree 0 (by simp)
      rw [Nat.add_zero] at hagree'
      have hdepth' : ini.depth ≤ fuel + (p ++ [indexName index]).length := by
        rw [List.length_append, List.length_singleton]
        omega
      have hloop : (loadStore hash conv ini fuel (p ++ [indexName index]))^[1] fresh = _ :=
        iterate_loadStore_saved hclass.1 hkeys.1 hdepth' hagree' 1
      rw [Function.iterate_one] at hloop
      rw [hloop]
      exact map_loadItem_iff s hclass.1 hkeys.1 hwrites.1.2 (by omega)
        (fun f hf => (hagree'.below [f.1]).trans (saveINI_agree hkeys.1 _ prev f hf)) 1
    have hss := loadStore_elems_iff ss hclass.2 hkeys.2 hwrites.2 hdepth (index + 1) (fun i hi => by
      have := hagree (i + 1) (by simpa using hi)
      rwa [show index + (i + 1) = index + 1 + i by omega] at this)
    rw [RestoredElems, ← hs, ← hss]
    constructor
    · intro h
      refine ⟨h 0 (by simp), fun i hi => ?_⟩
      rw [show index + 1 + i = index + (i + 1) by omega]
      exact h (i + 1) (by simpa using hi)
    · rintro ⟨h0, hsucc⟩ i hi
      match i with
      | 0 => exact h0
      | i + 1 =>
        rw [show index + (i + 1) = index + 1 + i by omega]
        exact hsucc i (by simpa using hi)

end

/-! ## The file -/

theorem exists_of_mem_sameClass {s t : Obj} (h : SameClass s t) :
    ∀ f ∈ s, ∃ w, (f.1, w) ∈ t ∧ SameClassVal f.2 w := by
  induction s generalizing t with
  | nil => simp
  | cons g s ih =>
    obtain ⟨name, v⟩ := g
    rw [SameClass] at h
    obtain ⟨w, t', rfl, hclassv, hclass⟩ := h
    intro f hf
    rcases List.mem_cons.mp hf with rfl | hf
    · exact ⟨w, List.mem_cons_self, hclassv⟩
    · obtain ⟨w', hw', hclassw'⟩ := ih hclass f hf
      exact ⟨w', List.mem_cons_of_mem _ hw', hclassw'⟩

theorem find_eq_none_iff {t : Obj} {key : Bytes} :
    Obj.find hash t key = none ↔ key ∉ Obj.keys hash t := by
  simp [Obj.find, Obj.keys]

theorem set_find_eq_self {t : Obj} (hnodup : (Obj.keys hash t).Nodup) {key : Bytes} {v : Val}
    (h : Obj.find hash t key = some v) : Obj.set hash t key v = t := by
  obtain ⟨f, hfind, rfl⟩ := Option.map_eq_some_iff.mp h
  have hkey : hash f.1 = key := by simpa using List.find?_some hfind
  refine (List.map_congr_left fun g hg => ?_).trans (List.map_id t)
  by_cases hg' : hash g.1 = key
  · have hgf : g = f := List.inj_on_of_nodup_map hnodup hg (List.mem_of_find?_eq_some hfind)
      (hg'.trans hkey.symm)
    rw [if_pos hg', hgf]
    rfl
  · rw [if_neg hg', id]

theorem loadStore_saveINI_eq {s t : Obj} (hclass : SameClass s t) (hkeys : DistinctKeys hash s)
    (hini : ini = saveINI [] s prev) : loadStore hash conv ini ini.depth [] t =
      t.map fun f => (f.1, (loadItem conv ini (loadStore hash conv ini (ini.depth - 1)) ([] ++ [f.1]))^[1 *
        (strays hash prev [] f.1 + (children ini []).count f.1)] f.2) := by
  have hagree : PathMap.Agree [] ini (saveINI [] s prev) := by
    rw [hini]
    exact PathMap.Agree.refl _ _
  have hloop : (loadStore hash conv ini ini.depth [])^[1] t = _ :=
    iterate_loadStore_saved hclass hkeys (Nat.le_add_right _ _) hagree 1
  exact hloop

/-- The fields, without the job of the fallback store. -/
theorem loadStore_saveINI_iff {s t : Obj} (hclass : SameClass s t) (hkeys : DistinctKeys hash s)
    (hwrites : WritesBelow s) (hini : ini = saveINI [] s prev) :
    loadStore hash conv ini ini.depth [] t = s ↔ Restored hash prev 1 [] s t := by
  rw [loadStore_saveINI_eq hclass hkeys hini]
  refine map_loadItem_iff s hclass hkeys hwrites ?_ (fun f hf => ?_) 1
  · rw [List.length_nil]
    omega
  · rw [hini]
    exact saveINI_agree hkeys [] prev f hf

/-- A `bool` of the store is read back whatever the file held. -/
theorem find_loadStore_bool {s t : Obj} (hclass : SameClass s t) (hkeys : DistinctKeys hash s)
    (hini : ini = saveINI [] s prev) {name : String} {b : Bool} (hmem : (name, .bool b) ∈ s) :
    Obj.find hash (loadStore hash conv ini ini.depth [] t) (hash name) = some (.bool b) := by
  have hnodup : (Obj.keys hash t).Nodup := nodup_keys_of_sameClass hclass hkeys
  obtain ⟨w, hw, hclassw⟩ := exists_of_mem_sameClass hclass _ hmem
  have hagree : PathMap.Agree ([] ++ [name]) ini (saveVal ([] ++ [name]) (.bool b) prev) := by
    rw [hini]
    exact saveINI_agree hkeys [] prev _ hmem
  have hvalue : (loadItem conv ini (loadStore hash conv ini (ini.depth - 1)) ([] ++ [name]))^[1 *
      (strays hash prev [] name + (children ini []).count name)] w = .bool b := by
    refine (iterate_scalar_saved rfl ?_ hagree (type_of_sameClassVal hclassw) _ 1 _).mpr (by simp)
    simp only [saveVal]
  rw [loadStore_saveINI_eq hclass hkeys hini]
  refine Obj.find_of_mem (by rwa [keys_map]) (List.mem_map.mpr ⟨(name, w), hw, ?_⟩)
  exact congrArg (Prod.mk name) hvalue

/-- The names in the file that are no fields are those it had before. -/
theorem unknown_iff {s t : Obj} (hclass : SameClass s t) :
    (∃ key ∈ children (saveINI [] s prev) [], Obj.find hash t (hash key) = none) ↔
      ∃ key ∈ children prev [], Obj.find hash s (hash key) = none := by
  refine exists_congr fun key => ?_
  rw [find_eq_none_iff, find_eq_none_iff, keys_of_sameClass hclass]
  refine and_congr_left fun hkey => ?_
  have hframe : ∀ r, (saveINI [] s prev)[[] ++ key :: r]? = prev[[] ++ key :: r]? := by
    refine fun r => saveINI_frame s (fun f hf => not_prefix_of_ne fun h => ?_) prev
    exact hkey (h ▸ List.mem_map.mpr ⟨f, hf, rfl⟩)
  unfold children
  rw [List.mem_append, List.mem_append, PathMap.mem_childKeys, PathMap.mem_childKeys, hframe,
    PathMap.mem_childGroups, PathMap.mem_childGroups]
  simp only [hframe]

/-- The job of the fallback store, on fields that are read back already. -/
theorem set_bool_eq_iff {s t : Obj} {key : Bytes} {url : Bool} (hkeys : Obj.keys hash t = Obj.keys hash s)
    (hnodup : (Obj.keys hash s).Nodup)
    (hbool : Obj.find hash s key = some (.bool url) → Obj.find hash t key = some (.bool url)) :
    Obj.set hash t key (.bool url) = s ↔ t = s ∧ ∀ v, Obj.find hash s key = some v → v = .bool url := by
  cases hs : Obj.find hash s key with
  | none =>
    rw [set_eq_self (by rwa [hkeys, ← find_eq_none_iff])]
    simp
  | some v =>
    have hne : Obj.find hash t key ≠ none := by
      rw [Ne, find_eq_none_iff, hkeys, ← find_eq_none_iff, hs]
      simp
    obtain ⟨v', hv'⟩ := Option.ne_none_iff_exists'.mp hne
    constructor
    · intro h
      have hself := @Obj.find_set_self hash _ _ _ (Val.bool url) hv'
      rw [h, hs] at hself
      rw [set_find_eq_self (hkeys ▸ hnodup) (hbool (hs.trans hself))] at h
      exact ⟨h, fun w hw => (Option.some.inj hw).symm.trans (Option.some.inj hself)⟩
    · rintro ⟨rfl, hurl⟩
      exact set_find_eq_self hnodup (hs.trans (congrArg some (hurl v rfl)))

/-- **Main theorem.** `LoadINI` into a store of the same class, after `SaveINI`
    over a file with any content, gives the saved fields exactly when every
    field is `Restored`, and, if the file has names that are no fields, the job
    of the fallback store agrees with the saved `is_subscription`. -/
theorem loadINI_saveINI_iff {s t : Obj} (hclass : SameClass s t) (hkeys : DistinctKeys hash s)
    (hwrites : WritesBelow s) (conv : Conversions) (prev : Settings) (subscribed : Option Bool) :
    loadINI hash conv (saveINI [] s prev) subscribed t = s ↔
      Restored hash prev 1 [] s t ∧
        ((∃ key ∈ children prev [], Obj.find hash s (hash key) = none) →
          ∀ url, subscribed = some url →
            ∀ v, Obj.find hash s (hash "is_subscription") = some v → v = .bool url) := by
  have hfields := @loadStore_saveINI_iff hash conv _ prev s t hclass hkeys hwrites rfl
  unfold loadINI
  rw [← hfields]
  by_cases hunknown : ∃ key ∈ children prev [], Obj.find hash s (hash key) = none
  · rw [if_pos ((unknown_iff hclass).mpr hunknown)]
    cases subscribed with
    | none => simp
    | some url =>
      have hkeys' : Obj.keys hash (loadStore hash conv (saveINI [] s prev)
          (saveINI [] s prev).depth [] t) = Obj.keys hash s := by
        rw [loadStore_saveINI_eq hclass hkeys rfl, keys_map, keys_of_sameClass hclass]
      have hbool : Obj.find hash s (hash "is_subscription") = some (.bool url) →
          Obj.find hash (loadStore hash conv (saveINI [] s prev) (saveINI [] s prev).depth [] t)
            (hash "is_subscription") = some (.bool url) := by
        intro h
        obtain ⟨f, hf, hfv⟩ := Option.map_eq_some_iff.mp h
        have hname : hash f.1 = hash "is_subscription" := by simpa using List.find?_some hf
        have hmem : (f.1, .bool url) ∈ s := hfv ▸ List.mem_of_find?_eq_some hf
        rw [← hname]
        exact find_loadStore_bool hclass hkeys rfl hmem
      simp only [Option.some.injEq, forall_eq', hunknown, true_imp_iff]
      exact set_bool_eq_iff hkeys' (nodup_keys hkeys) hbool
  · rw [if_neg fun h => hunknown ((unknown_iff hclass).mp h)]
    simp [hunknown]

end Store

/-! ## Lists that grow and shrink -/

/-- Conversions to the own type of a variant only. -/
def ownType : Conversions where
  toInt | .int v => v | _ => 0
  toLongLong | .long v => v | _ => 0
  toDouble | .double v => v | _ => 0
  toBool | .bool v => v | _ => false
  toString | .string s => s | _ => ""
  toStringList | .stringList l => l | _ => []
  toInt_int _ := rfl
  toLongLong_long _ := rfl
  toDouble_double _ := rfl
  toBool_bool _ := rfl
  toString_string _ := rfl
  toStringList_stringList _ := rfl

/-- The characters of an ASCII name. -/
def asciiHash (name : String) : Bytes := name.toList.map fun c => Fin.ofNat 256 c.toNat

/-- A store with a list of rules, each with a name. -/
def ruleList (names : List String) : Obj :=
  [("rules", .jsonStoreList [("name", .str "")] (names.map fun name => [("name", .str name)]))]

/-- A list that has grown since the file was written is read back. -/
theorem loadINI_saveINI_grown :
    loadINI asciiHash ownType (saveINI [] (ruleList ["a", "b"]) (saveINI [] (ruleList ["c"]) ∅)) none
      (ruleList []) = ruleList ["a", "b"] := by
  have hclass : SameClass (ruleList ["a", "b"]) (ruleList []) := by
    simp [SameClass, SameClassVal, SameClassElems, ruleList, Val.type]
  have hkeys : DistinctKeys asciiHash (ruleList ["a", "b"]) := by
    simp [DistinctKeys, DistinctKeysVal, DistinctKeysElems, ruleList]
  have hwrites : WritesBelow (ruleList ["a", "b"]) := by
    simp [WritesBelow, WritesBelowVal, WritesBelowElems, writes, writesVal, ruleList]
  refine (loadINI_saveINI_iff hclass hkeys hwrites ownType (saveINI [] (ruleList ["c"]) ∅) none).mpr ⟨?_, ?_⟩
  · have hstrays : strays asciiHash (saveINI [] (ruleList ["c"]) ∅) [] "rules" = 0 := by decide +kernel
    have hkey : staleKey (saveINI [] (ruleList ["c"]) ∅) ["rules"] = 0 := by decide +kernel
    have hgroups : PathMap.childGroups (saveINI [] (ruleList ["c"]) ∅) ["rules"] = [indexName 0] := by
      decide +kernel
    generalize saveINI [] (ruleList ["c"]) ∅ = prev at *
    simp [Restored, RestoredVal, RestoredElems, ruleList, hstrays, hkey, hgroups]
    exact ⟨0, by simp, rfl⟩
  · simp

/-- The number of elements of each list in a store. -/
def elemCounts (t : Obj) : List ℕ :=
  t.map fun f => match f.2 with
    | .jsonStoreList _ elems => elems.length
    | _ => 0

/-- A list that has become shorter is not: the file keeps the groups of the
    elements that are gone. -/
theorem loadINI_saveINI_shrunk :
    loadINI asciiHash ownType (saveINI [] (ruleList ["a"]) (saveINI [] (ruleList ["b", "c"]) ∅)) none
      (ruleList []) ≠ ruleList ["a"] := by
  intro h
  have hcount : elemCounts (loadINI asciiHash ownType (saveINI [] (ruleList ["a"])
      (saveINI [] (ruleList ["b", "c"]) ∅)) none (ruleList [])) = [2] := by decide +kernel
  rw [h] at hcount
  exact absurd hcount (by decide)

end NekoBox.Store
