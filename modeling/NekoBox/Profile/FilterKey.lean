import NekoBox.Store.Compare

/-!
# The key of de-duplication and subscription merging

`ProfileFilterKey` (`ProfileFilter.cpp`, lines 11–62) orders and identifies
profiles. Its `operator<` is a disjunction over type, address, port, mode and
`JsonStore::compare` of the two `ProxyEntity` objects. That comparison runs
over the fields of the entity, its identifiers and test results among them, and
not over those of the bean: `c_cfg` and `c_out`, which it is told to skip, are
fields of a bean.

A key is described by its `rank`: type, address, port and, unless beans are
skipped, the record of the entity, the values of its fields in the order of
`_map()`. A key is less than another exactly when some component of its rank is
(`lt_iff`), and equal exactly when the ranks are (`eq_iff`).

Results:
* `key_laws_iff`: on any set of keys the laws of the order hold exactly when
  any two ranks are comparable component by component, and keys that compare
  beans and agree in type, address and port have equal records exactly when
  their beans are equal.
* `ordering_laws_iff`: this for every three keys, and for stores
  `store_laws_iff`.
-/

namespace NekoBox.Profile

open NekoBox.Lib NekoBox.Store

/-! ## `ProxyEntity` -/

/-- The fields of `Stats::TrafficData` in its `_map()`. -/
structure TrafficData where
  downlink : BitVec 64
  uplink : BitVec 64
  deriving DecidableEq, Repr

/-- `ProxyEntity` (`ProxyEntity.hpp`): the fields in its `_map()` and its bean.
    `traffic_data` is set when the object is made and never replaced. -/
structure ProxyEntity (V : Type) where
  type : String
  displayType : String
  name : String
  serverAddress : String
  serverPort : BitVec 32
  id : BitVec 32
  gid : BitVec 32
  latencyInt : BitVec 32
  isWorking : Bool
  dlSpeed : String
  ulSpeed : String
  testCountry : String
  fullTestReport : String
  lastAutoTestTime : BitVec 64
  trafficData : TrafficData
  bean : Option (Items V)

/-- `QMap::insert` of a registered field. -/
def insertItem {β : Type*} (hash : String → Bytes) (c : String × β) :
    List (String × β) → List (String × β)
  | [] => [c]
  | d :: ds =>
    if hash c.1 < hash d.1 then c :: d :: ds
    else if hash c.1 = hash d.1 then c :: ds
    else d :: insertItem hash c ds

/-- A `_map()` after the calls of `_put` in order. -/
def mapOf {β : Type*} (hash : String → Bytes) (puts : List (String × β)) : List (String × β) :=
  puts.foldl (fun m c => insertItem hash c m) []

theorem mem_insertItem {β : Type*} {hash : String → Bytes} {c d : String × β} :
    ∀ {m : List (String × β)}, d ∈ insertItem hash c m → d = c ∨ d ∈ m
  | [], h => Or.inl (List.mem_singleton.mp h)
  | e :: m, h => by
    unfold insertItem at h
    split_ifs at h
    · exact List.mem_cons.mp h
    · rcases List.mem_cons.mp h with h | h
      · exact Or.inl h
      · exact Or.inr (List.mem_cons_of_mem _ h)
    · rcases List.mem_cons.mp h with h | h
      · exact Or.inr (List.mem_cons.mpr (Or.inl h))
      · rcases mem_insertItem h with h | h
        · exact Or.inl h
        · exact Or.inr (List.mem_cons_of_mem _ h)

theorem mem_mapOf {β : Type*} {hash : String → Bytes} {d : String × β}
    {puts : List (String × β)} (h : d ∈ mapOf hash puts) : d ∈ puts := by
  have hfold : ∀ (puts m : List (String × β)),
      d ∈ puts.foldl (fun m c => insertItem hash c m) m → d ∈ puts ∨ d ∈ m := by
    intro puts
    induction puts with
    | nil => exact fun m h => Or.inr h
    | cons c puts ih =>
      intro m h
      rcases ih _ h with h | h
      · exact Or.inl (List.mem_cons_of_mem _ h)
      · rcases mem_insertItem h with h | h
        · exact Or.inl (List.mem_cons.mpr (Or.inl h))
        · exact Or.inr h
  rcases hfold puts [] h with h | h
  · exact h
  · cases h

theorem mem_insertItem_self {β : Type*} {hash : String → Bytes} (c : String × β)
    (m : List (String × β)) : c ∈ insertItem hash c m := by
  induction m with
  | nil => exact List.mem_singleton.mpr rfl
  | cons d m ih =>
    unfold insertItem
    split_ifs
    · exact List.mem_cons_self
    · exact List.mem_cons_self
    · exact List.mem_cons_of_mem _ ih

theorem mem_insertItem_of_ne {β : Type*} {hash : String → Bytes} {c d : String × β}
    {m : List (String × β)} (hc : c ∈ m) (hne : hash d.1 ≠ hash c.1) : c ∈ insertItem hash d m := by
  induction m with
  | nil => cases hc
  | cons e m ih =>
    unfold insertItem
    split_ifs with hlt heq
    · exact List.mem_cons_of_mem _ hc
    · rcases List.mem_cons.mp hc with rfl | hc
      · exact absurd heq hne
      · exact List.mem_cons_of_mem _ hc
    · rcases List.mem_cons.mp hc with rfl | hc
      · exact List.mem_cons_self
      · exact List.mem_cons_of_mem _ (ih hc)

/-- A registered field whose hash is its own is in the map. -/
theorem mem_mapOf_of_mem {β : Type*} {hash : String → Bytes} {c : String × β}
    {puts : List (String × β)} (hc : c ∈ puts) (hown : ∀ d ∈ puts, hash d.1 = hash c.1 → d = c) :
    c ∈ mapOf hash puts := by
  have hfold : ∀ (puts m : List (String × β)), (∀ d ∈ puts, hash d.1 = hash c.1 → d = c) →
      c ∈ puts ∨ c ∈ m → c ∈ puts.foldl (fun m c => insertItem hash c m) m := by
    intro puts
    induction puts with
    | nil => exact fun m _ h => h.resolve_left List.not_mem_nil
    | cons d puts ih =>
      intro m hown h
      refine ih _ (fun d hd => hown d (List.mem_cons_of_mem _ hd)) ?_
      by_cases hhash : hash d.1 = hash c.1
      · rw [hown d List.mem_cons_self hhash]
        exact Or.inr (mem_insertItem_self c m)
      · rcases h with h | h
        · rcases List.mem_cons.mp h with rfl | h
          · exact absurd rfl hhash
          · exact Or.inl h
        · exact Or.inr (mem_insertItem_of_ne h hhash)
  exact hfold puts [] hown (Or.inl hc)

section

variable {V : Type}

/-- `TrafficData::_map` (`TrafficData.hpp`, lines 31–34). -/
def trafficFields : List (String × (TrafficData → Item V)) :=
  [("dl", fun t => .long t.downlink), ("ul", fun t => .long t.uplink)]

def TrafficData.store (hash : String → Bytes) (t : TrafficData) : Items V :=
  (mapOf hash trafficFields).map fun c => (c.1, c.2 t)

/-- `ProxyEntity::_map` (`ProxyEntity.cpp`, lines 223–255). -/
def proxyFields (hash : String → Bytes) : List (String × (ProxyEntity V → Item V)) :=
  [("type", fun e => .str e.type), ("id", fun e => .int e.id), ("gid", fun e => .int e.gid),
    ("yc", fun e => .int e.latencyInt), ("dl", fun e => .str e.dlSpeed),
    ("ul", fun e => .str e.ulSpeed), ("report", fun e => .str e.fullTestReport),
    ("country", fun e => .str e.testCountry), ("is_working", fun e => .bool e.isWorking),
    ("last_auto_test_time", fun e => .long e.lastAutoTestTime), ("name", fun e => .str e.name),
    ("dtype", fun e => .str e.displayType), ("addr", fun e => .str e.serverAddress),
    ("port", fun e => .int e.serverPort),
    ("traffic", fun e => .jsonShared (some (e.trafficData.store hash)))]

/-- The fields of an entity, in the order of its `_map()`. -/
def ProxyEntity.store (hash : String → Bytes) (e : ProxyEntity V) : Items V :=
  (mapOf hash (proxyFields hash)).map fun c => (c.1, c.2 e)

/-! ## `ProfileFilterKey` -/

/-- `ProfileFilterKey`. A null pointer is `none`. -/
structure ProfileFilterKey (V : Type) where
  key : Option (ProxyEntity V)
  skipCompareBeans : Bool

/-- The names `operator==` and `operator<` tell `compare` to skip. -/
def skipped : List String := ["c_cfg", "c_out"]

/-- `operator==` (lines 11–24) -/
def ProfileFilterKey.eq (hash : String → Bytes) (text : V → String) (a b : ProfileFilterKey V) :
    Bool :=
  match a.key, b.key with
  | none, key => key.isNone
  | some _, none => false
  | some x, some y =>
    x.type = y.type ∧ x.serverAddress = y.serverAddress ∧ x.serverPort = y.serverPort ∧
      a.skipCompareBeans = b.skipCompareBeans ∧
      (a.skipCompareBeans = true ∨ JsonStore.compare hash text skipped (x.store hash) (y.store hash) = .eq)

/-- `operator<` (lines 32–49) -/
def ProfileFilterKey.lt (hash : String → Bytes) (text : V → String) (a b : ProfileFilterKey V) :
    Bool :=
  match a.key, b.key with
  | _, none => false
  | none, some _ => true
  | some x, some y =>
    units16 x.type < units16 y.type ∨ units16 x.serverAddress < units16 y.serverAddress ∨
      x.serverPort.toInt < y.serverPort.toInt ∨
      (a.skipCompareBeans = true ∧ b.skipCompareBeans = false) ∨
      (b.skipCompareBeans = false ∧ a.skipCompareBeans = false ∧
        JsonStore.compare hash text skipped (x.store hash) (y.store hash) = .lt)

end

/-! ## The record of an entity -/

/-- A number or a text. -/
abbrev Scalar := Lex (ℤ ⊕ List ℕ)

def Scalar.number (z : ℤ) : Scalar := toLex (.inl z)

def Scalar.text (s : String) : Scalar := toLex (.inr (units16 s))

section

variable {V : Type}

/-- The value of an integer, a text or a flag. -/
def scalars : Item V → List Scalar
  | .int v => [Scalar.number v.toInt]
  | .long v => [Scalar.number v.toInt]
  | .bool v => [Scalar.number (if v then 1 else 0)]
  | .str v => [Scalar.text v]
  | _ => []

/-- The values in an item: those of a shared store are its fields'. -/
def values : Item V → List Scalar
  | .jsonShared (some st) => st.flatMap fun f => scalars f.2
  | v => scalars v

/-- The values of the fields of an entity, in the order of its `_map()`. -/
def ProxyEntity.record (hash : String → Bytes) (e : ProxyEntity V) : List Scalar :=
  (e.store hash).flatMap fun f => values f.2

variable {hash : String → Bytes} {text : V → String}

/-- Two items that hold one scalar of the same kind. -/
inductive Scalars : Item V → Item V → Prop where
  | int (a b) : Scalars (.int a) (.int b)
  | long (a b) : Scalars (.long a) (.long b)
  | bool (a b) : Scalars (.bool a) (.bool b)
  | str (a b) : Scalars (.str a) (.str b)

theorem Scalars.shape {a b : Item V} (h : Scalars a b) :
    a.type = b.type ∧ (scalars a).length = (scalars b).length ∧ values a = scalars a ∧
      values b = scalars b := by
  cases h <;> simp [Item.type, scalars, values]

theorem compareValue_map {α β : Type*} [LinearOrder α] [LinearOrder β] {f : α → β}
    (hf : StrictMono f) (a b : α) : compareValue (f a) (f b) = compareValue a b := by
  rcases lt_trichotomy a b with hlt | rfl | hgt
  · rw [compareValue_eq_lt.mpr hlt, compareValue_eq_lt.mpr (hf hlt)]
  · rw [compareValue_self, compareValue_self]
  · rw [compareValue_eq_gt.mpr hgt, compareValue_eq_gt.mpr (hf hgt)]

theorem compareValue_singleton {α : Type*} [LinearOrder α] (a b : α) :
    compareValue [a] [b] = compareValue a b := by
  rw [compareValue_cons, compareValue_self]
  cases compareValue a b <;> rfl

theorem strictMono_number : StrictMono Scalar.number := fun _ _ h => Sum.Lex.inl_lt_inl_iff.mpr h

theorem strictMono_text : StrictMono fun us : List ℕ => (toLex (.inr us) : Scalar) :=
  fun _ _ h => Sum.Lex.inr_lt_inr_iff.mpr h

theorem strictMono_flag : StrictMono fun v : Bool => if v then (1 : ℤ) else 0 := by
  intro a b h
  revert h
  revert a b
  decide

/-- A scalar is compared by its value. -/
theorem compareItem_scalars {a b : Item V} (h : Scalars a b) :
    compareItem hash text a b = compareValue (scalars a) (scalars b) := by
  cases h with
  | int a b => exact ((compareValue_singleton _ _).trans (compareValue_map strictMono_number _ _)).symm
  | long a b =>
    exact ((compareValue_singleton _ _).trans (compareValue_map strictMono_number _ _)).symm
  | bool a b =>
    refine ((compareValue_singleton _ _).trans ?_).symm
    exact (compareValue_map strictMono_number _ _).trans (compareValue_map strictMono_flag a b)
  | str a b => exact ((compareValue_singleton _ _).trans (compareValue_map strictMono_text _ _)).symm

/-- Stores of one shape are compared by the values of their fields, when these
    are. -/
theorem compareItems_flatMap {α : Type*} {r : Item V → List Scalar} {x y : α}
    {m : List (String × (α → Item V))}
    (hitem : ∀ c ∈ m, (c.2 x).type = (c.2 y).type ∧ (r (c.2 x)).length = (r (c.2 y)).length ∧
      compareItem hash text (c.2 x) (c.2 y) = compareValue (r (c.2 x)) (r (c.2 y))) :
    compareItems hash text [] (m.map fun c => (c.1, c.2 x)) (m.map fun c => (c.1, c.2 y)) =
      compareValue ((m.map fun c => (c.1, c.2 x)).flatMap fun f => r f.2)
        ((m.map fun c => (c.1, c.2 y)).flatMap fun f => r f.2) := by
  induction m with
  | nil => exact (compareValue_self _).symm
  | cons c m ih =>
    obtain ⟨htype, hlen, hvalue⟩ := hitem c (List.mem_cons.mpr (Or.inl rfl))
    have htail := ih fun d hd => hitem d (List.mem_cons_of_mem _ hd)
    have hhead : compareHead (c.1, c.2 x) (c.1, c.2 y) = .eq :=
      compareHead_eq_eq.mpr ⟨htype, rfl⟩
    rw [List.map_cons, List.map_cons, compareItems_cons, hhead, Ordering.eq_then, hvalue, htail,
      List.flatMap_cons, List.flatMap_cons, compareValue_append hlen]

/-- The keys of a `_map()` do not depend on the object. -/
theorem keys_map {α : Type*} (m : List (String × (α → Item V))) (x y : α) :
    Items.keys hash (m.map fun c => (c.1, c.2 x)) =
      Items.keys hash (m.map fun c => (c.1, c.2 y)) := by
  unfold Items.keys
  rw [List.map_map, List.map_map]
  rfl

theorem length_flatMap_map {α : Type*} {r : Item V → List Scalar} {x y : α}
    {m : List (String × (α → Item V))}
    (hlen : ∀ c ∈ m, (r (c.2 x)).length = (r (c.2 y)).length) :
    ((m.map fun c => (c.1, c.2 x)).flatMap fun f => r f.2).length =
      ((m.map fun c => (c.1, c.2 y)).flatMap fun f => r f.2).length := by
  induction m with
  | nil => rfl
  | cons c m ih =>
    have hhead := hlen c (List.mem_cons.mpr (Or.inl rfl))
    have htail := ih fun d hd => hlen d (List.mem_cons_of_mem _ hd)
    simp only [List.map_cons, List.flatMap_cons, List.length_append, hhead, htail]

theorem trafficFields_scalars (t u : TrafficData) :
    ∀ c ∈ mapOf hash (trafficFields (V := V)), Scalars (c.2 t) (c.2 u) := by
  intro c hc
  have hmem := mem_mapOf hc
  simp only [trafficFields, List.mem_cons, List.not_mem_nil, or_false] at hmem
  rcases hmem with rfl | rfl <;> constructor

/-- An item is compared by its values. -/
def ByValues (hash : String → Bytes) (text : V → String) (a b : Item V) : Prop :=
  a.type = b.type ∧ (values a).length = (values b).length ∧
    compareItem hash text a b = compareValue (values a) (values b)

theorem Scalars.byValues {a b : Item V} (h : Scalars a b) : ByValues hash text a b := by
  obtain ⟨htype, hlen, ha, hb⟩ := h.shape
  rw [ByValues, ha, hb]
  exact ⟨htype, hlen, compareItem_scalars h⟩

/-- The traffic data is a store of two counters. -/
theorem byValues_traffic (t u : TrafficData) :
    ByValues hash text (.jsonShared (some (t.store hash)) : Item V)
      (.jsonShared (some (u.store hash))) := by
  have hitem := @trafficFields_scalars V hash t u
  have hkeys : compareKeys hash (t.store hash : Items V) (u.store hash) = .eq :=
    compareKeys_eq_eq.mpr (keys_map _ t u)
  have hcompare : compareItems hash text [] (t.store hash) (u.store hash) =
      compareValue ((t.store hash).flatMap fun f => scalars f.2)
        ((u.store hash).flatMap fun f => scalars f.2) :=
    compareItems_flatMap fun c hc =>
      ⟨(hitem c hc).shape.1, (hitem c hc).shape.2.1, compareItem_scalars (hitem c hc)⟩
  refine ⟨rfl, length_flatMap_map fun c hc => (hitem c hc).shape.2.1, ?_⟩
  show (compareKeys hash (t.store hash) (u.store hash)).then
    (compareItems hash text [] (t.store hash) (u.store hash)) = _
  rw [hkeys, Ordering.eq_then]
  exact hcompare

/-- Every field of an entity is compared by its values. -/
theorem proxyFields_byValues (x y : ProxyEntity V) :
    ∀ c ∈ mapOf hash (proxyFields hash), ByValues hash text (c.2 x) (c.2 y) := by
  intro c hc
  have hmem := mem_mapOf hc
  simp only [proxyFields, List.mem_cons, List.not_mem_nil, or_false] at hmem
  rcases hmem with rfl | rfl | rfl | rfl | rfl | rfl | rfl | rfl | rfl | rfl | rfl | rfl | rfl |
    rfl | rfl
  case inr.inr.inr.inr.inr.inr.inr.inr.inr.inr.inr.inr.inr.inr =>
    exact byValues_traffic x.trafficData y.trafficData
  all_goals exact Scalars.byValues (by constructor)

/-- No field of an entity is skipped. -/
theorem compareItems_skipped {s t : Items V} (h : ∀ f ∈ s, f.1 ∉ skipped) :
    compareItems hash text skipped s t = compareItems hash text [] s t := by
  induction s generalizing t with
  | nil => rfl
  | cons f s ih =>
    cases t with
    | nil => rfl
    | cons g t =>
      have hf := h f (List.mem_cons.mpr (Or.inl rfl))
      have htail := ih (t := t) fun d hd => h d (List.mem_cons_of_mem _ hd)
      show (if f.1 ∈ skipped then _ else _) = (if f.1 ∈ [] then _ else _)
      rw [if_neg hf, if_neg List.not_mem_nil, htail]

/-- **Entities are compared by their records.** -/
theorem compare_store (x y : ProxyEntity V) :
    JsonStore.compare hash text skipped (x.store hash) (y.store hash) =
      compareValue (x.record hash) (y.record hash) := by
  have hskip : ∀ f ∈ x.store hash, f.1 ∉ skipped := by
    intro f hf
    obtain ⟨c, hc, rfl⟩ := List.mem_map.mp hf
    have hname : c.1 ∈ (proxyFields hash).map Prod.fst := List.mem_map_of_mem (mem_mapOf hc)
    revert hname
    generalize c.1 = name
    intro hname
    simp only [proxyFields, List.map_cons, List.map_nil, List.mem_cons, List.not_mem_nil,
      or_false] at hname
    rcases hname with rfl | rfl | rfl | rfl | rfl | rfl | rfl | rfl | rfl | rfl | rfl | rfl | rfl |
      rfl | rfl <;> decide
  have hkeys : compareKeys hash (x.store hash) (y.store hash) = .eq :=
    compareKeys_eq_eq.mpr (keys_map _ x y)
  unfold JsonStore.compare
  rw [hkeys, Ordering.eq_then, compareItems_skipped hskip]
  exact compareItems_flatMap (proxyFields_byValues x y)

/-- No other field of an entity has the hash of `id`. -/
def OwnId (hash : String → Bytes) : Prop :=
  ∀ name ∈ ["type", "gid", "yc", "dl", "ul", "report", "country", "is_working",
    "last_auto_test_time", "name", "dtype", "addr", "port", "traffic"], hash name ≠ hash "id"

theorem flatMap_inj_of_length {α β : Type*} {f g : α → List β} {m : List α}
    (hlen : ∀ c ∈ m, (f c).length = (g c).length) (h : m.flatMap f = m.flatMap g) :
    ∀ c ∈ m, f c = g c := by
  induction m with
  | nil => exact fun c hc => absurd hc List.not_mem_nil
  | cons d m ih =>
    rw [List.flatMap_cons, List.flatMap_cons] at h
    obtain ⟨hhead, htail⟩ := List.append_inj h (hlen d List.mem_cons_self)
    intro c hc
    rcases List.mem_cons.mp hc with rfl | hc
    · exact hhead
    · exact ih (fun d hd => hlen d (List.mem_cons_of_mem _ hd)) htail c hc

/-- The identifier is part of the record. -/
theorem id_of_record (hhash : OwnId hash) {x y : ProxyEntity V}
    (h : x.record hash = y.record hash) : x.id = y.id := by
  have hmem : ("id", fun e : ProxyEntity V => Item.int e.id) ∈ mapOf hash (proxyFields hash) := by
    refine mem_mapOf_of_mem (by simp [proxyFields]) fun d hd heq => ?_
    simp only [proxyFields, List.mem_cons, List.not_mem_nil, or_false] at hd
    rcases hd with rfl | rfl | rfl | rfl | rfl | rfl | rfl | rfl | rfl | rfl | rfl | rfl | rfl |
      rfl | rfl
    case inr.inl => rfl
    all_goals exact absurd heq (hhash _ (by simp))
  have hvalues : ∀ c ∈ mapOf hash (proxyFields hash), values (c.2 x) = values (c.2 y) := by
    refine flatMap_inj_of_length (fun c hc => (@proxyFields_byValues V hash (fun _ => "") x y c hc).2.1) ?_
    unfold ProxyEntity.record ProxyEntity.store at h
    rw [List.flatMap_map, List.flatMap_map] at h
    exact h
  have hid := hvalues _ hmem
  have hnumber : x.id.toInt = y.id.toInt := by simpa [values, scalars, Scalar.number] using hid
  exact BitVec.toInt_inj.mp hnumber

end

/-! ## The rank of a key -/

/-- The components by which keys are compared. A null key lies below all others,
    a key that skips beans below those that do not. -/
abbrev Rank := WithBot (List ℕ × List ℕ × ℤ × WithBot (List Scalar))

section

variable {V : Type} (hash : String → Bytes)

def beanRank (skip : Bool) (e : ProxyEntity V) : WithBot (List Scalar) :=
  if skip then ⊥ else (e.record hash : List Scalar)

def ProfileFilterKey.rank (a : ProfileFilterKey V) : Rank :=
  match a.key with
  | none => ⊥
  | some x => ((units16 x.type, units16 x.serverAddress, x.serverPort.toInt,
      beanRank hash a.skipCompareBeans x) : List ℕ × List ℕ × ℤ × WithBot (List Scalar))

end

section

variable {V : Type} {hash : String → Bytes} {text : V → String} {a b : ProfileFilterKey V}
  {x y : ProxyEntity V} {skipA skipB : Bool}

theorem not_beanRank_le :
    ¬ beanRank hash skipB y ≤ beanRank hash skipA x ↔
      (skipA = true ∧ skipB = false) ∨
        (skipB = false ∧ skipA = false ∧ x.record hash < y.record hash) := by
  cases skipA <;> cases skipB <;> simp [beanRank]

theorem beanRank_inj :
    beanRank hash skipA x = beanRank hash skipB y ↔
      skipA = skipB ∧ (skipA = true ∨ x.record hash = y.record hash) := by
  cases skipA <;> cases skipB <;> simp [beanRank]

theorem rank_le_rank_iff :
    (ProfileFilterKey.mk (some y) skipB).rank hash ≤
        (ProfileFilterKey.mk (some x) skipA).rank hash ↔
      units16 y.type ≤ units16 x.type ∧ units16 y.serverAddress ≤ units16 x.serverAddress ∧
        y.serverPort.toInt ≤ x.serverPort.toInt ∧
          beanRank hash skipB y ≤ beanRank hash skipA x :=
  WithBot.coe_le_coe

theorem rank_inj :
    (ProfileFilterKey.mk (some x) skipA).rank hash =
        (ProfileFilterKey.mk (some y) skipB).rank hash ↔
      x.type = y.type ∧ x.serverAddress = y.serverAddress ∧ x.serverPort = y.serverPort ∧
        skipA = skipB ∧ (skipA = true ∨ x.record hash = y.record hash) := by
  rw [← beanRank_inj, ← units16_inj, ← @units16_inj x.serverAddress, ← BitVec.toInt_inj]
  refine WithBot.coe_inj.trans ?_
  rw [Prod.mk.injEq, Prod.mk.injEq, Prod.mk.injEq]

theorem rank_none_ne : (ProfileFilterKey.mk (none : Option (ProxyEntity V)) skipA).rank hash ≠
    (ProfileFilterKey.mk (some y) skipB).rank hash := WithBot.bot_ne_coe

/-- `operator<` holds when some component of the rank is less. -/
theorem ProfileFilterKey.lt_iff : a.lt hash text b = true ↔ ¬ b.rank hash ≤ a.rank hash := by
  obtain ⟨ka, skipA⟩ := a
  obtain ⟨kb, skipB⟩ := b
  cases kb with
  | none =>
    have hlt : (mk ka skipA).lt hash text ⟨none, skipB⟩ = false := by simp [lt]
    rw [hlt]
    exact iff_of_false Bool.false_ne_true (not_not.mpr bot_le)
  | some y =>
    cases ka with
    | none => exact iff_of_true rfl (WithBot.not_coe_le_bot _)
    | some x =>
      rw [rank_le_rank_iff, not_and_or, not_and_or, not_and_or, not_le, not_le, not_le,
        not_beanRank_le, ← @compareValue_eq_lt _ _ (x.record hash), ← @compare_store V hash text]
      simp only [lt, decide_eq_true_iff]

/-- `operator==` holds when the ranks are equal. -/
theorem ProfileFilterKey.eq_iff : a.eq hash text b = true ↔ a.rank hash = b.rank hash := by
  obtain ⟨ka, skipA⟩ := a
  obtain ⟨kb, skipB⟩ := b
  cases ka with
  | none =>
    cases kb with
    | none => exact iff_of_true rfl rfl
    | some y => exact iff_of_false Bool.false_ne_true rank_none_ne
  | some x =>
    cases kb with
    | none => exact iff_of_false Bool.false_ne_true rank_none_ne.symm
    | some y =>
      rw [rank_inj, ← @compareValue_eq_eq _ _ (x.record hash), ← @compare_store V hash text]
      simp only [eq, decide_eq_true_iff]

/-! ## The laws of the order -/

/-- The fields of the bean that are compared. -/
def ProxyEntity.beanFields (e : ProxyEntity V) : Option (Items V) :=
  e.bean.map fun st => st.filter fun f => f.1 ∉ skipped

/-- What `operator==` is for: type, address, port and, unless beans are skipped,
    every compared field of the bean are equal. -/
def ProfileFilterKey.Agree (a b : ProfileFilterKey V) : Prop :=
  match a.key, b.key with
  | none, none => True
  | some x, some y =>
    x.type = y.type ∧ x.serverAddress = y.serverAddress ∧ x.serverPort = y.serverPort ∧
      a.skipCompareBeans = b.skipCompareBeans ∧
      (a.skipCompareBeans = false → x.beanFields = y.beanFields)
  | _, _ => False

/-- `operator<` is a strict weak order on the keys of `S`, whose incomparability
    is `operator==`, which holds exactly of keys that agree. -/
structure KeyLaws (hash : String → Bytes) (text : V → String) (S : Set (ProfileFilterKey V)) :
    Prop where
  order : StrictWeakOn (fun a b => a.lt hash text b = true) S
  incomparable : ∀ a ∈ S, ∀ b ∈ S,
    (¬ a.lt hash text b = true ∧ ¬ b.lt hash text a = true) ↔ a.eq hash text b = true
  equal : ∀ a ∈ S, ∀ b ∈ S, a.eq hash text b = true ↔ a.Agree b

/-- Any two ranks are comparable component by component, and keys that compare
    beans and agree in type, address and port have equal records exactly when
    the compared fields of their beans are equal. -/
def Ordered (hash : String → Bytes) (S : Set (ProfileFilterKey V)) : Prop :=
  (∀ a ∈ S, ∀ b ∈ S, a.rank hash ≤ b.rank hash ∨ b.rank hash ≤ a.rank hash) ∧
    ∀ x y, ⟨some x, false⟩ ∈ S → ⟨some y, false⟩ ∈ S → x.type = y.type →
      x.serverAddress = y.serverAddress → x.serverPort = y.serverPort →
        (x.record hash = y.record hash ↔ x.beanFields = y.beanFields)

/-- Equal ranks are agreement, but for the record standing in for the bean. -/
theorem ProfileFilterKey.rank_eq_iff_agree (S : Set (ProfileFilterKey V)) :
    (∀ a ∈ S, ∀ b ∈ S, a.rank hash = b.rank hash ↔ a.Agree b) ↔
      ∀ x y, ⟨some x, false⟩ ∈ S → ⟨some y, false⟩ ∈ S → x.type = y.type →
        x.serverAddress = y.serverAddress → x.serverPort = y.serverPort →
          (x.record hash = y.record hash ↔ x.beanFields = y.beanFields) := by
  constructor
  · intro h x y hx hy htype haddress hport
    have hxy := h _ hx _ hy
    rw [rank_inj] at hxy
    simpa [Agree, htype, haddress, hport] using hxy
  · rintro h ⟨ka, skipA⟩ ha ⟨kb, skipB⟩ hb
    cases ka with
    | none =>
      cases kb with
      | none => exact iff_of_true rfl trivial
      | some y => exact iff_of_false rank_none_ne id
    | some x =>
      cases kb with
      | none => exact iff_of_false rank_none_ne.symm id
      | some y =>
        rw [rank_inj]
        refine and_congr_right fun htype => and_congr_right fun haddress =>
          and_congr_right fun hport => and_congr_right fun hskip => ?_
        obtain rfl : skipA = skipB := hskip
        cases skipA with
        | true => exact iff_of_true (Or.inl rfl) fun h => nomatch h
        | false => simpa using h x y ha hb htype haddress hport

/-- **The laws of the order** on any set of keys. -/
theorem key_laws_iff (S : Set (ProfileFilterKey V)) : KeyLaws hash text S ↔ Ordered hash S := by
  have horder : StrictWeakOn (fun a b : ProfileFilterKey V => a.lt hash text b = true) S ↔
      ∀ a ∈ S, ∀ b ∈ S, a.rank hash ≤ b.rank hash ∨ b.rank hash ≤ a.rank hash := by
    simp only [ProfileFilterKey.lt_iff]
    exact strictWeakOn_not_le_iff S
  have hincomparable : ∀ a b : ProfileFilterKey V,
      (¬ a.lt hash text b = true ∧ ¬ b.lt hash text a = true) ↔ a.eq hash text b = true := by
    intro a b
    rw [ProfileFilterKey.lt_iff, ProfileFilterKey.lt_iff, ProfileFilterKey.eq_iff]
    exact not_le_incomp_iff
  have hequal := @ProfileFilterKey.rank_eq_iff_agree V hash S
  constructor
  · intro h
    refine ⟨horder.mp h.order, hequal.mp fun a ha b hb => ?_⟩
    rw [← @ProfileFilterKey.eq_iff V hash text]
    exact h.equal a ha b hb
  · rintro ⟨hchain, hbeans⟩
    refine ⟨horder.mpr hchain, fun a _ b _ => hincomparable a b, fun a ha b hb => ?_⟩
    rw [ProfileFilterKey.eq_iff]
    exact hequal.mpr hbeans a ha b hb

end

/-- **Main theorem.** For every three keys the laws of the order hold exactly
    when they are ordered in every component and compared by their beans in
    effect; for every two stores the laws of `compare` hold exactly when they
    are comparable. -/
theorem ordering_laws_iff {V : Type} (hash : String → Bytes) (text : V → String) :
    (∀ a b c : ProfileFilterKey V,
        KeyLaws hash text {a, b, c} ↔ Ordered hash {a, b, c}) ∧
      ∀ s t : Items V, StoreLaws hash text s t ↔ Comparable hash text s t :=
  ⟨fun _ _ _ => key_laws_iff _, store_laws_iff⟩

/-- A profile of a subscription. -/
def sample (type serverAddress : String) : ProxyEntity String where
  type := type
  displayType := ""
  name := ""
  serverAddress := serverAddress
  serverPort := 1080
  id := 0
  gid := 0
  latencyInt := 0
  isWorking := false
  dlSpeed := ""
  ulSpeed := ""
  testCountry := ""
  fullTestReport := ""
  lastAutoTestTime := 0
  trafficData := ⟨0, 0⟩
  bean := none

/-- Two profiles, each of which is less than the other. -/
theorem crossed_keys_less :
    ¬ ∀ (hash : String → Bytes) (text : String → String),
      (∀ a b c : ProfileFilterKey String, KeyLaws hash text {a, b, c}) ∧
        ∀ s t : Items String, StoreLaws hash text s t := by
  intro h
  let a : ProfileFilterKey String := ⟨some (sample "http" "b.example"), true⟩
  let b : ProfileFilterKey String := ⟨some (sample "socks" "a.example"), true⟩
  have hlaws := (h (fun _ => []) id).1 a b b
  refine hlaws.order.asymm a (by simp) b (by simp) ?_ ?_
  · decide
  · decide

end NekoBox.Profile
