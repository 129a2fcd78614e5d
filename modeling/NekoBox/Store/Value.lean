import NekoBox.Qt.DataStream

/-!
# Stores and their fields

A `JsonStore` (`nekobox/dataStore/ConfigItem.hpp`) registers its fields in
`_map()`, a `QMap` from the hash of the field name to an item that knows the
kind of the field and where it lies in the object. A store is modelled by its
registered fields with their values, in the order of `_map()`. The class of a
store is visible in it: the names and kinds, the tables of its enumerations and
the fresh element `createJsonStore` makes for each of its lists of stores.

* `Obj.find`, `Obj.set`: the field under a hashed key;
* `EnumMap`: the table of a `JsonEnum`, in both directions.
-/

namespace NekoBox.Store

open NekoBox.Lib NekoBox.Qt

/-! ## Enumerations -/

/-- `ModifyEnumName` (`ConfigItem.cpp`, lines 1031–1036): enumeration names are
    compared without case, underscores and hyphens. -/
def modifyEnumName (name : String) : List Char :=
  (name.toList.map Char.toLower).filter fun c => c ≠ '_' ∧ c ≠ '-'

/-- `boost::bimap<EnumFieldName, int>`: no two names are equal, no two values. -/
structure EnumMap where
  entries : List (String × BitVec 32)
  names_distinct : (entries.map fun e => modifyEnumName e.1).Nodup
  values_distinct : (entries.map Prod.snd).Nodup

namespace EnumMap

/-- `map.left.at(name)`. -/
def left (m : EnumMap) (name : String) : Option (BitVec 32) :=
  (m.entries.find? fun e => modifyEnumName e.1 = modifyEnumName name).map Prod.snd

/-- `map.right.at(value)`. -/
def right (m : EnumMap) (value : BitVec 32) : Option String :=
  (m.entries.find? fun e => e.2 = value).map Prod.fst

/-- `JsonEnum::set(const EnumFieldName &)` (`Configs.cpp`, lines 275–285). -/
def set (m : EnumMap) (name : String) : BitVec 32 := (m.left name).getD 0

/-- `JsonEnum::operator QString` (lines 322–329). -/
def toString (m : EnumMap) (value : BitVec 32) : String := (m.right value).getD ""

/-- In a list without repeated keys, a member is found by its key. -/
theorem find?_eq_some {γ κ : Type*} [DecidableEq κ] {f : γ → κ} :
    ∀ {l : List γ} {e : γ}, (l.map f).Nodup → e ∈ l → l.find? (fun e' => f e' = f e) = some e := by
  intro l
  induction l with
  | nil => intro e _ he; simp at he
  | cons e' l ih =>
    intro e hnodup he
    rw [List.map_cons, List.nodup_cons] at hnodup
    obtain ⟨hnot, hnodup'⟩ := hnodup
    rcases List.mem_cons.mp he with rfl | he
    · simp
    · have hne : f e' ≠ f e := by
        intro h
        exact hnot (List.mem_map.mpr ⟨e, he, h.symm⟩)
      rw [List.find?_cons_of_neg (by simpa using hne)]
      exact ih hnodup' he

/-- A value that has a name is set again by this name. -/
theorem set_toString (m : EnumMap) {value : BitVec 32} {name : String}
    (h : m.right value = some name) : m.set (m.toString value) = value := by
  obtain ⟨e, he, rfl⟩ := Option.map_eq_some_iff.mp h
  have hvalue : e.2 = value := by simpa using List.find?_some he
  have hmem := List.mem_of_find?_eq_some he
  have hleft := find?_eq_some m.names_distinct hmem
  simp [set, left, toString, right, he, hleft, hvalue]

end EnumMap

/-! ## Fields -/

/-- The kinds of fields, `enum ConfigItemType` (lines 135–149). -/
inductive ConfigItemType where
  | int | long | str | bool | strList | intList | jsonStore | jsonStoreList | strMap | boolPtr
  | jsonShared | double | enum
  deriving DecidableEq, Repr

/-- The value of the enumerator, written as an `unsigned char`. -/
def ConfigItemType.code : ConfigItemType → Byte
  | .int => 0
  | .long => 1
  | .str => 2
  | .bool => 3
  | .strList => 4
  | .intList => 5
  | .jsonStore => 6
  | .jsonStoreList => 7
  | .strMap => 8
  | .boolPtr => 9
  | .jsonShared => 10
  | .double => 11
  | .enum => 12

theorem ConfigItemType.code_injective : Function.Injective ConfigItemType.code := by
  intro a b h
  cases a <;> cases b <;> first | rfl | (exact absurd h (by decide))

/-- The value of a field. `none` is a null pointer; a `bool` pointer is
    dereferenced by every access, and never null. A double is its bits. -/
inductive Val where
  | int (v : BitVec 32)
  | long (v : BitVec 64)
  | str (v : String)
  | bool (v : Bool)
  | strList (v : List String)
  | intList (v : List (BitVec 32))
  | jsonStore (st : Option (List (String × Val)))
  | jsonStoreList (fresh : List (String × Val)) (elems : List (List (String × Val)))
  | strMap (v : VariantMap)
  | boolPtr (v : Bool)
  | jsonShared (st : Option (List (String × Val)))
  | double (bits : BitVec 64)
  | enum (map : EnumMap) (value : Option (BitVec 32))

/-- The fields of a store, in the order of its `_map()`. -/
abbrev Obj := List (String × Val)

/-- `configItem::type`. -/
def Val.type : Val → ConfigItemType
  | .int _ => .int
  | .long _ => .long
  | .str _ => .str
  | .bool _ => .bool
  | .strList _ => .strList
  | .intList _ => .intList
  | .jsonStore _ => .jsonStore
  | .jsonStoreList _ _ => .jsonStoreList
  | .strMap _ => .strMap
  | .boolPtr _ => .boolPtr
  | .jsonShared _ => .jsonShared
  | .double _ => .double
  | .enum _ _ => .enum

/-! ## Looking fields up -/

section Lookup

variable (hash : String → Bytes)

/-- `_map.find(key)`. -/
def Obj.find (t : Obj) (key : Bytes) : Option Val :=
  (List.find? (fun f => hash f.1 = key) t).map Prod.snd

/-- Assign to the field under a key. -/
def Obj.set (t : Obj) (key : Bytes) (v : Val) : Obj :=
  t.map fun f => if hash f.1 = key then (f.1, v) else f

variable {hash}

@[simp] theorem Obj.find_nil (key : Bytes) : Obj.find hash [] key = none := rfl

theorem Obj.find_cons (name : String) (v : Val) (t : Obj) (key : Bytes) :
    Obj.find hash ((name, v) :: t) key =
      if hash name = key then some v else Obj.find hash t key := by
  unfold Obj.find
  by_cases h : hash name = key
  · simp [h]
  · rw [List.find?_cons_of_neg (by simpa using h), if_neg h]

theorem Obj.find_set_self {t : Obj} {key : Bytes} {v v' : Val} (h : Obj.find hash t key = some v) :
    Obj.find hash (Obj.set hash t key v') key = some v' := by
  induction t with
  | nil => simp at h
  | cons f t ih =>
    obtain ⟨name, w⟩ := f
    rw [Obj.find_cons] at h
    by_cases hk : hash name = key
    · simp [Obj.set, hk, Obj.find_cons]
    · rw [if_neg hk] at h
      simp only [Obj.set, List.map_cons, hk, if_false] at ih ⊢
      rw [Obj.find_cons, if_neg hk]
      exact ih h

theorem Obj.find_set_of_ne {t : Obj} {key key' : Bytes} {v' : Val} (h : key' ≠ key) :
    Obj.find hash (Obj.set hash t key v') key' = Obj.find hash t key' := by
  induction t with
  | nil => rfl
  | cons f t ih =>
    obtain ⟨name, w⟩ := f
    simp only [Obj.set, List.map_cons] at ih ⊢
    by_cases hk : hash name = key
    · have hk' : ¬ hash name = key' := fun hk' => h (hk'.symm.trans hk)
      rw [if_pos hk, Obj.find_cons, Obj.find_cons, if_neg hk', if_neg hk', ih]
    · rw [if_neg hk, Obj.find_cons, Obj.find_cons, ih]

/-- The keys of a store. -/
abbrev Obj.keys (hash : String → Bytes) (t : Obj) : List Bytes := t.map fun f => hash f.1

theorem Obj.keys_set (t : Obj) (key : Bytes) (v : Val) :
    Obj.keys hash (Obj.set hash t key v) = Obj.keys hash t := by
  unfold Obj.keys Obj.set
  rw [List.map_map]
  refine List.map_congr_left fun f _ => ?_
  by_cases h : hash f.1 = key <;> simp [h]

theorem Obj.find_of_mem {t : Obj} (hnodup : (Obj.keys hash t).Nodup) {name : String} {v : Val}
    (hmem : (name, v) ∈ t) : Obj.find hash t (hash name) = some v := by
  have hfind := EnumMap.find?_eq_some (f := fun g : String × Val => hash g.1) hnodup hmem
  simp [Obj.find, hfind]

end Lookup

end NekoBox.Store
