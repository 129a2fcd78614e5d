import NekoBox.Store.Json

/-!
# JSON objects of a configuration

`QJsonObject` as a list of members with distinct keys, and `MergeJson`
(`ConfigBuilder.cpp`, lines 428–448), by which the JSON a user attaches to a
profile goes into what the builder made. A member of the user's object replaces
the one made (`value_mergeJson`), except that two objects are merged.
-/

namespace NekoBox.Config

open NekoBox.Store

abbrev JsonObject := List (String × Json)

namespace JsonObject

/-- `object[key]`; `undefined` is `null`. -/
def value (o : JsonObject) (key : String) : Json :=
  match o with
  | [] => .null
  | (k, v) :: o => if k = key then v else value o key

/-- `object.contains(key)` -/
def contains (o : JsonObject) (key : String) : Bool :=
  match o with
  | [] => false
  | (k, _) :: o => if k = key then true else contains o key

/-- `object[key] = v` -/
def insert (o : JsonObject) (key : String) (v : Json) : JsonObject :=
  match o with
  | [] => [(key, v)]
  | (k, w) :: o => if k = key then (k, v) :: o else (k, w) :: insert o key v

variable {o : JsonObject} {key k : String} {v : Json}

theorem value_of_not_contains (h : o.contains key = false) : o.value key = .null := by
  induction o with
  | nil => rfl
  | cons m o ih =>
    obtain ⟨k, w⟩ := m
    unfold contains at h
    unfold value
    split_ifs at h ⊢
    exact ih h

theorem value_insert_self : (o.insert key v).value key = v := by
  induction o with
  | nil => simp [insert, value]
  | cons m o ih =>
    obtain ⟨k, w⟩ := m
    unfold insert
    by_cases hk : k = key
    · rw [if_pos hk, value, if_pos hk]
    · rw [if_neg hk, value, if_neg hk]
      exact ih

theorem value_insert_of_ne (h : key ≠ k) : (o.insert key v).value k = o.value k := by
  induction o with
  | nil => simp [insert, value, h]
  | cons m o ih =>
    obtain ⟨j, w⟩ := m
    unfold insert
    by_cases hj : j = key
    · rw [if_pos hj, value, value, hj, if_neg h, if_neg h]
    · rw [if_neg hj, value, value, ih]

theorem value_insert (o : JsonObject) (key k : String) (v : Json) :
    (o.insert key v).value k = if key = k then v else o.value k := by
  by_cases h : key = k
  · rw [if_pos h, ← h, value_insert_self]
  · rw [if_neg h, value_insert_of_ne h]

end JsonObject

/-! ## `MergeJson` -/

mutual

/-- `MergeJson` (lines 428–448). The keys are distinct, so the members are
    independent of one another. -/
def mergeJson (custom : List (String × Json)) (outbound : JsonObject) : JsonObject :=
  match custom with
  | [] => outbound
  | (key, v) :: custom =>
    JsonObject.insert (mergeJson custom outbound) key (mergeValue v (JsonObject.value outbound key))
termination_by structural custom

/-- `v` is merged into an object, and replaces any other value. -/
def mergeValue (v : Json) (orig : Json) : Json :=
  match v with
  | .object vo =>
    match orig with
    | .object voOrig => .object (mergeJson vo voOrig)
    | _ => .object vo
  | v => v
termination_by structural v

end

theorem value_mergeJson (custom outbound : JsonObject) (key : String) :
    (mergeJson custom outbound).value key =
      if custom.contains key then mergeValue (custom.value key) (outbound.value key)
      else outbound.value key := by
  induction custom with
  | nil => rfl
  | cons m custom ih =>
    obtain ⟨k, v⟩ := m
    show (JsonObject.insert (mergeJson custom outbound) k
      (mergeValue v (JsonObject.value outbound k))).value key = _
    rw [JsonObject.value_insert, JsonObject.contains, JsonObject.value]
    by_cases hk : k = key
    · rw [if_pos hk, if_pos hk, if_pos hk, hk]
      rfl
    · rw [if_neg hk, if_neg hk, if_neg hk]
      exact ih

/-- A value that is no object is replaced. -/
theorem mergeValue_string (v : Json) (s : String) : mergeValue v (.string s) = v := by
  cases v <;> rfl

theorem mergeValue_null (v : Json) : mergeValue v .null = v := by
  cases v <;> rfl

end NekoBox.Config
