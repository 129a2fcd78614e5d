import NekoBox.Lib.ThreeWay
import NekoBox.Store.Value

/-!
# Comparing stores

`JsonStore::compare` (`ConfigItem.cpp`, lines 1107–1148) compares two stores by
the number of their fields, the hashed names and, field by field in the order
of `_map()`, kind, name and value; the `compare` of each kind of field stands
in lines 376–609. The results 1, 0 and −1 are `gt`, `eq` and `lt`.

The fields are those of `Store/Value.lean` with what the comparison looks at:
the elements of a list of stores may be null pointers, a map holds variants, of
which `text` is `QVariant::toString`, and a double is its number. `_put` never
registers a null item, so the branches for one do not arise.

Results:
* `compare_eq_iff`: `compare` returns 0 exactly on stores that agree as far as
  it looks (`Same`): of two lists of stores only the lengths and the first
  elements, of two maps the keys and the texts.
* `compare_swap_iff`: exchanging the stores negates the result exactly when no
  null pointer meets a store, and no NaN a double, at the first difference.
* `store_laws_iff`: the two laws hold of two stores exactly when stores that
  agree that far are equal, and the second condition holds.
-/

namespace NekoBox.Store

open NekoBox.Lib NekoBox.Qt

/-! ## Items -/

/-- A double. `order` is the place of its number among the numbers, so that 0
    and −0 are one number. -/
inductive Double where
  | nan
  | number (order : ℤ)
  deriving DecidableEq, Repr

/-- The number of the bits of a double: sign and magnitude, unless the exponent
    is all ones and the fraction is not zero. -/
def Double.ofBits (bits : BitVec 64) : Double :=
  let magnitude : ℕ := bits.toNat % 2 ^ 63
  if 2047 * 2 ^ 52 < magnitude then .nan
  else if bits.toNat < 2 ^ 63 then .number magnitude
  else .number (-magnitude)

/-- The value of a field. `none` is a null pointer. -/
inductive Item (V : Type) where
  | int (v : BitVec 32)
  | long (v : BitVec 64)
  | str (v : String)
  | bool (v : Bool)
  | strList (v : List String)
  | intList (v : List (BitVec 32))
  | jsonStore (st : Option (List (String × Item V)))
  | jsonStoreList (elems : List (Option (List (String × Item V))))
  | strMap (v : List (String × V))
  | boolPtr (v : Bool)
  | jsonShared (st : Option (List (String × Item V)))
  | double (v : Double)
  | enum (value : Option (BitVec 32))

/-- The fields of a store, in the order of its `_map()`. -/
abbrev Items (V : Type) := List (String × Item V)

/-- `configItem::type`. -/
def Item.type {V : Type} : Item V → ConfigItemType
  | .int _ => .int
  | .long _ => .long
  | .str _ => .str
  | .bool _ => .bool
  | .strList _ => .strList
  | .intList _ => .intList
  | .jsonStore _ => .jsonStore
  | .jsonStoreList _ => .jsonStoreList
  | .strMap _ => .strMap
  | .boolPtr _ => .boolPtr
  | .jsonShared _ => .jsonShared
  | .double _ => .double
  | .enum _ => .enum

/-! ## Values -/

/-- The code units of a `QString`, by which it is compared. -/
def units16 (s : String) : List ℕ := s.toList.flatMap utf16

theorem units16_inj {s t : String} : units16 s = units16 t ↔ s = t := by
  constructor
  · intro h
    have hlist : s.toList = t.toList := by
      rw [← ofUtf16_flatMap s.toList, ← ofUtf16_flatMap t.toList]
      exact congrArg ofUtf16 h
    exact String.toList_inj.mp hlist
  · exact congrArg units16

/-- `CompareValue` (lines 376–386) of doubles: a NaN is neither greater than
    nor equal to anything. -/
def compareDouble : Double → Double → Ordering
  | .number x, .number y => compareValue x y
  | _, _ => .lt

/-- `CompareValue` of two elements after the other. -/
def compareElems {α β : Type*} [LinearOrder β] (f : α → β) : List α → List α → Ordering
  | a :: as, b :: bs => (compareValue (f a) (f b)).then (compareElems f as bs)
  | _, _ => .eq

/-- `compare` of `intList` and `strList`: the lengths, then the elements. -/
def compareList {α β : Type*} [LinearOrder β] (f : α → β) (as bs : List α) : Ordering :=
  (compareValue as.length bs.length).then (compareElems f as bs)

/-- `compare` of `enum`: a null pointer is greater than any value. -/
def compareEnum (a b : Option (BitVec 32)) : Ordering :=
  (compareValue a.isNone b.isNone).then
    (match a, b with
      | some x, some y => compareValue x.toInt y.toInt
      | _, _ => .eq)

section Values

variable {α β : Type*} [LinearOrder β] {f : α → β}

theorem compareElems_eq {as bs : List α} (h : as.length = bs.length) :
    compareElems f as bs = compareValue (as.map f) (bs.map f) := by
  induction as generalizing bs with
  | nil =>
    obtain rfl : bs = [] := List.length_eq_zero_iff.mp h.symm
    rw [compareValue_self]
    rfl
  | cons a as ih =>
    cases bs with
    | nil => cases h
    | cons b bs =>
      rw [List.map_cons, List.map_cons, compareValue_cons, ← ih (Nat.succ.inj h)]
      rfl

theorem compareList_eq_eq (hf : Function.Injective f) {as bs : List α} :
    compareList f as bs = .eq ↔ as = bs := by
  unfold compareList
  rw [Ordering.then_eq_eq, compareValue_eq_eq]
  constructor
  · rintro ⟨hlen, helems⟩
    rw [compareElems_eq hlen, compareValue_eq_eq] at helems
    exact List.map_injective_iff.mpr hf helems
  · rintro rfl
    refine ⟨rfl, ?_⟩
    rw [compareElems_eq rfl, compareValue_self]

theorem compareList_swap (as bs : List α) : compareList f bs as = (compareList f as bs).swap := by
  unfold compareList
  rw [then_eq_swap_iff (by rw [compareValue_eq_eq, compareValue_eq_eq]; exact eq_comm)]
  refine ⟨compareValue_swap _ _, fun h => ?_⟩
  have hlen : as.length = bs.length := compareValue_eq_eq.mp h
  rw [compareElems_eq hlen, compareElems_eq hlen.symm]
  exact compareValue_swap _ _

theorem compareEnum_eq_eq {a b : Option (BitVec 32)} : compareEnum a b = .eq ↔ a = b := by
  unfold compareEnum
  rw [Ordering.then_eq_eq, compareValue_eq_eq]
  cases a <;> cases b <;> simp [compareValue_eq_eq, BitVec.toInt_inj]

theorem compareEnum_swap (a b : Option (BitVec 32)) :
    compareEnum b a = (compareEnum a b).swap := by
  unfold compareEnum
  cases a with
  | none => cases b <;> rfl
  | some x =>
    cases b with
    | none => rfl
    | some y => exact compareValue_swap x.toInt y.toInt

end Values

/-! ## `JsonStore::compare` -/

section

variable {V : Type} (hash : String → Bytes) (text : V → String)

/-- The keys of `_map()`. -/
def Items.keys (s : Items V) : List Bytes := s.map fun f => hash f.1

/-- The comparison of `compare` before the loop over the keys. -/
def compareKeys (s t : Items V) : Ordering :=
  (compareValue s.length t.length).then (compareValue (Items.keys hash s) (Items.keys hash t))

/-- `configItem::compare` up to the values: kind, then name. -/
def compareHead (f g : String × Item V) : Ordering :=
  (compareValue f.2.type.code g.2.type.code).then (compareValue (units16 f.1) (units16 g.1))

mutual

/-- `compare` of a kind of field. Items of different kinds never get here. -/
def compareItem : Item V → Item V → Ordering
  | .int a, .int b => compareValue a.toInt b.toInt
  | .long a, .long b => compareValue a.toInt b.toInt
  | .str a, .str b => compareValue (units16 a) (units16 b)
  | .bool a, .bool b => compareValue a b
  | .boolPtr a, .boolPtr b => compareValue a b
  | .strList a, .strList b => compareList units16 a b
  | .intList a, .intList b => compareList BitVec.toInt a b
  | .strMap a, .strMap b =>
    (compareValue a.length b.length).then
      ((compareValue (a.map fun e => units16 e.1) (b.map fun e => units16 e.1)).then
        (compareElems (fun e => units16 (text e.2)) a b))
  | .double a, .double b => compareDouble a b
  | .enum a, .enum b => compareEnum a b
  | .jsonStore a, .jsonStore b => comparePtr a b
  | .jsonShared a, .jsonShared b => comparePtr a b
  | .jsonStoreList a, .jsonStoreList b =>
    -- the loop returns after the first element
    (compareValue a.length b.length).then (compareFirst a b)
  | _, _ => .eq
termination_by structural x => x

/-- `compare` of two pointers to stores. -/
def comparePtr : Option (Items V) → Option (Items V) → Ordering
  | none, none => .eq
  | none, some _ => .gt
  | some _, none => .gt
  | some s, some t => (compareKeys hash s t).then (compareItems [] s t)
termination_by structural x => x

def compareFirst : List (Option (Items V)) → List (Option (Items V)) → Ordering
  | a :: _, b :: _ => comparePtr a b
  | _, _ => .eq
termination_by structural x => x

/-- The loop of `compare` over the keys. The key lists are equal, so `find`
    gives the fields at the same place. -/
def compareItems : List String → Items V → Items V → Ordering
  | skip, (name, a) :: s, (name', b) :: t =>
    if name ∈ skip then compareItems skip s t
    else
      ((compareHead (name, a) (name', b)).then (compareItem a b)).then (compareItems skip s t)
  | _, _, _ => .eq
termination_by structural _ x => x

end

/-- `JsonStore::compare` (lines 1107–1148). -/
def JsonStore.compare (skip : List String) (s t : Items V) : Ordering :=
  (compareKeys hash s t).then (compareItems hash text skip s t)

end

/-! ## What a comparison looks at -/

section

variable {V : Type} (text : V → String)

mutual

/-- The two values agree as far as `compare` looks. -/
def SameItem : Item V → Item V → Prop
  | .int a, .int b => a = b
  | .long a, .long b => a = b
  | .str a, .str b => a = b
  | .bool a, .bool b => a = b
  | .boolPtr a, .boolPtr b => a = b
  | .strList a, .strList b => a = b
  | .intList a, .intList b => a = b
  | .strMap a, .strMap b =>
    (a.map fun e => (e.1, text e.2)) = b.map fun e => (e.1, text e.2)
  | .double a, .double b => ∃ x, a = .number x ∧ b = .number x
  | .enum a, .enum b => a = b
  | .jsonStore a, .jsonStore b => SamePtr a b
  | .jsonShared a, .jsonShared b => SamePtr a b
  | .jsonStoreList a, .jsonStoreList b => a.length = b.length ∧ SameFirst a b
  | _, _ => False
termination_by structural x => x

def SamePtr : Option (Items V) → Option (Items V) → Prop
  | none, none => True
  | some s, some t => Same s t
  | _, _ => False
termination_by structural x => x

def SameFirst : List (Option (Items V)) → List (Option (Items V)) → Prop
  | a :: _, b :: _ => SamePtr a b
  | _, _ => True
termination_by structural x => x

/-- Two stores agree as far as `compare` looks. -/
def Same : Items V → Items V → Prop
  | [], [] => True
  | (name, a) :: s, (name', b) :: t => name = name' ∧ SameItem a b ∧ Same s t
  | _, _ => False
termination_by structural x => x

end

mutual

/-- No NaN is compared, nor a null pointer with a store. -/
def ClearItem (hash : String → Bytes) : Item V → Item V → Prop
  | .double a, .double b => a ≠ .nan ∧ b ≠ .nan
  | .jsonStore a, .jsonStore b => ClearPtr hash a b
  | .jsonShared a, .jsonShared b => ClearPtr hash a b
  | .jsonStoreList a, .jsonStoreList b => a.length = b.length → ClearFirst hash a b
  | _, _ => True
termination_by structural x => x

def ClearPtr (hash : String → Bytes) : Option (Items V) → Option (Items V) → Prop
  | none, none => True
  | some s, some t => Items.keys hash s = Items.keys hash t → Clear hash s t
  | _, _ => False
termination_by structural x => x

def ClearFirst (hash : String → Bytes) :
    List (Option (Items V)) → List (Option (Items V)) → Prop
  | a :: _, b :: _ => ClearPtr hash a b
  | _, _ => True
termination_by structural x => x

/-- No NaN and no null pointer meets anything up to the first difference of two
    stores with the same keys. -/
def Clear (hash : String → Bytes) : Items V → Items V → Prop
  | (name, a) :: s, (name', b) :: t =>
    name = name' → a.type = b.type →
      ClearItem hash a b ∧ (SameItem text a b → Clear hash s t)
  | _, _ => True
termination_by structural x => x

end

end

section

variable {V : Type} {hash : String → Bytes} {text : V → String}

theorem compareHead_eq_eq {f g : String × Item V} :
    compareHead f g = .eq ↔ f.2.type = g.2.type ∧ f.1 = g.1 := by
  unfold compareHead
  rw [Ordering.then_eq_eq, compareValue_eq_eq, compareValue_eq_eq, units16_inj,
    ConfigItemType.code_injective.eq_iff]

theorem compareHead_swap (f g : String × Item V) : compareHead g f = (compareHead f g).swap := by
  unfold compareHead
  rw [then_eq_swap_iff (by rw [compareValue_eq_eq, compareValue_eq_eq]; exact eq_comm)]
  exact ⟨compareValue_swap _ _, fun _ => compareValue_swap _ _⟩

theorem compareKeys_eq_eq {s t : Items V} :
    compareKeys hash s t = .eq ↔ Items.keys hash s = Items.keys hash t := by
  unfold compareKeys
  rw [Ordering.then_eq_eq, compareValue_eq_eq, compareValue_eq_eq]
  constructor
  · exact fun h => h.2
  · intro h
    exact ⟨by simpa [Items.keys] using congrArg List.length h, h⟩

theorem compareKeys_swap (s t : Items V) :
    compareKeys hash t s = (compareKeys hash s t).swap := by
  unfold compareKeys
  rw [then_eq_swap_iff (by rw [compareValue_eq_eq, compareValue_eq_eq]; exact eq_comm)]
  exact ⟨compareValue_swap _ _, fun _ => compareValue_swap _ _⟩

theorem compareItems_cons (name name' : String) (a b : Item V) (s t : Items V) :
    compareItems hash text [] ((name, a) :: s) ((name', b) :: t) =
      ((compareHead (name, a) (name', b)).then (compareItem hash text a b)).then
        (compareItems hash text [] s t) := by
  rw [compareItems, if_neg List.not_mem_nil]

/-- The comparison of two maps that agree in length and keys. -/
theorem compareTexts_eq_eq {a b : List (String × V)} :
    (compareValue a.length b.length).then
        ((compareValue (a.map fun e => units16 e.1) (b.map fun e => units16 e.1)).then
          (compareElems (fun e => units16 (text e.2)) a b)) = .eq ↔
      (a.map fun e => (e.1, text e.2)) = b.map fun e => (e.1, text e.2) := by
  rw [Ordering.then_eq_eq, Ordering.then_eq_eq, compareValue_eq_eq, compareValue_eq_eq]
  constructor
  · rintro ⟨hlen, hkeys, htexts⟩
    rw [compareElems_eq hlen, compareValue_eq_eq] at htexts
    clear hlen
    induction a generalizing b with
    | nil => cases b with
      | nil => rfl
      | cons e b => cases hkeys
    | cons d a ih =>
      cases b with
      | nil => cases hkeys
      | cons e b =>
        obtain ⟨hkey, hkeys⟩ := List.cons.inj hkeys
        obtain ⟨htext, htexts⟩ := List.cons.inj htexts
        rw [List.map_cons, List.map_cons, units16_inj.mp hkey, units16_inj.mp htext,
          ih hkeys htexts]
  · intro h
    have hlen : a.length = b.length := by simpa using congrArg List.length h
    refine ⟨hlen, ?_, ?_⟩
    · simpa [Function.comp_def] using congrArg (List.map fun e : String × String => units16 e.1) h
    · rw [compareElems_eq hlen, compareValue_eq_eq]
      simpa [Function.comp_def] using
        congrArg (List.map fun e : String × String => units16 e.2) h

theorem Same.keys_eq : ∀ {s t : Items V}, Same text s t → Items.keys hash s = Items.keys hash t
  | [], [], _ => rfl
  | [], _ :: _, h => by simp [Same] at h
  | _ :: _, [], h => by simp [Same] at h
  | (name, a) :: s, (name', b) :: t, h => by
    simp only [Same] at h
    obtain ⟨rfl, -, htail⟩ := h
    exact congrArg (hash name :: ·) (Same.keys_eq htail)

theorem units16_injective : Function.Injective units16 := fun _ _ h => units16_inj.mp h

theorem compareDouble_eq_eq {a b : Double} :
    compareDouble a b = .eq ↔ ∃ x, a = .number x ∧ b = .number x := by
  cases a <;> cases b
  case number.number x y =>
    show compareValue x y = .eq ↔ _
    rw [compareValue_eq_eq]
    simp [eq_comm]
  all_goals simp [compareDouble]

/-- Two values of one kind. -/
inductive SameKind : Item V → Item V → Prop where
  | int (a b) : SameKind (.int a) (.int b)
  | long (a b) : SameKind (.long a) (.long b)
  | str (a b) : SameKind (.str a) (.str b)
  | bool (a b) : SameKind (.bool a) (.bool b)
  | strList (a b) : SameKind (.strList a) (.strList b)
  | intList (a b) : SameKind (.intList a) (.intList b)
  | jsonStore (a b) : SameKind (.jsonStore a) (.jsonStore b)
  | jsonStoreList (a b) : SameKind (.jsonStoreList a) (.jsonStoreList b)
  | strMap (a b) : SameKind (.strMap a) (.strMap b)
  | boolPtr (a b) : SameKind (.boolPtr a) (.boolPtr b)
  | jsonShared (a b) : SameKind (.jsonShared a) (.jsonShared b)
  | double (a b) : SameKind (.double a) (.double b)
  | enum (a b) : SameKind (.enum a) (.enum b)

/-- The values that hold stores. -/
def Item.nested : Item V → Bool
  | .jsonStore _ => true
  | .jsonShared _ => true
  | .jsonStoreList _ => true
  | _ => false

theorem sameKind_of_type_eq {a b : Item V} (h : a.type = b.type) : SameKind a b := by
  cases a <;> cases b <;> first | constructor | cases h

theorem SameItem.type_eq {a b : Item V} (h : SameItem text a b) : a.type = b.type := by
  cases a <;> cases b <;> first | rfl | exact h.elim

/-! ## When `compare` returns 0 -/

theorem compareItem_eq_eq_flat {a b : Item V} (h : SameKind a b) (hflat : a.nested = false) :
    compareItem hash text a b = .eq ↔ SameItem text a b := by
  cases h with
  | int a b => simp [compareItem, SameItem, compareValue_eq_eq, BitVec.toInt_inj]
  | long a b => simp [compareItem, SameItem, compareValue_eq_eq, BitVec.toInt_inj]
  | str a b => simp [compareItem, SameItem, compareValue_eq_eq, units16_inj]
  | bool a b => simp [compareItem, SameItem, compareValue_eq_eq]
  | boolPtr a b => simp [compareItem, SameItem, compareValue_eq_eq]
  | strList a b => simp [compareItem, SameItem, compareList_eq_eq units16_injective]
  | intList a b =>
    simp [compareItem, SameItem, compareList_eq_eq fun _ _ => BitVec.toInt_inj.mp]
  | strMap a b => exact compareTexts_eq_eq
  | double a b => exact compareDouble_eq_eq
  | enum a b => exact compareEnum_eq_eq
  | jsonStore a b => cases hflat
  | jsonShared a b => cases hflat
  | jsonStoreList a b => cases hflat

mutual

theorem compareItem_eq_eq (a b : Item V) (h : a.type = b.type) :
    compareItem hash text a b = .eq ↔ SameItem text a b := by
  match a with
  | .jsonStore a =>
    cases b with
    | jsonStore b => exact comparePtr_eq_eq a b
    | _ => cases h
  | .jsonShared a =>
    cases b with
    | jsonShared b => exact comparePtr_eq_eq a b
    | _ => cases h
  | .jsonStoreList a =>
    cases b with
    | jsonStoreList b =>
      rw [compareItem, SameItem, Ordering.then_eq_eq, compareValue_eq_eq, compareFirst_eq_eq a b]
    | _ => cases h
  | .int _ => exact compareItem_eq_eq_flat (sameKind_of_type_eq h) rfl
  | .long _ => exact compareItem_eq_eq_flat (sameKind_of_type_eq h) rfl
  | .str _ => exact compareItem_eq_eq_flat (sameKind_of_type_eq h) rfl
  | .bool _ => exact compareItem_eq_eq_flat (sameKind_of_type_eq h) rfl
  | .boolPtr _ => exact compareItem_eq_eq_flat (sameKind_of_type_eq h) rfl
  | .strList _ => exact compareItem_eq_eq_flat (sameKind_of_type_eq h) rfl
  | .intList _ => exact compareItem_eq_eq_flat (sameKind_of_type_eq h) rfl
  | .strMap _ => exact compareItem_eq_eq_flat (sameKind_of_type_eq h) rfl
  | .double _ => exact compareItem_eq_eq_flat (sameKind_of_type_eq h) rfl
  | .enum _ => exact compareItem_eq_eq_flat (sameKind_of_type_eq h) rfl
termination_by structural a

theorem comparePtr_eq_eq (a b : Option (Items V)) :
    comparePtr hash text a b = .eq ↔ SamePtr text a b := by
  match a, b with
  | none, none => simp [comparePtr, SamePtr]
  | none, some t => simp [comparePtr, SamePtr]
  | some s, none => simp [comparePtr, SamePtr]
  | some s, some t =>
    rw [comparePtr, SamePtr, Ordering.then_eq_eq, compareKeys_eq_eq]
    constructor
    · rintro ⟨hkeys, hfields⟩
      exact (compareItems_eq_eq s t (by simpa [Items.keys] using congrArg List.length hkeys)).mp
        hfields
    · intro h
      have hkeys : Items.keys hash s = Items.keys hash t := h.keys_eq
      exact ⟨hkeys, (compareItems_eq_eq s t
        (by simpa [Items.keys] using congrArg List.length hkeys)).mpr h⟩
termination_by structural a

theorem compareFirst_eq_eq (as bs : List (Option (Items V))) :
    compareFirst hash text as bs = .eq ↔ SameFirst text as bs := by
  match as, bs with
  | a :: _, b :: _ => rw [compareFirst, SameFirst, comparePtr_eq_eq a b]
  | [], _ => simp [compareFirst, SameFirst]
  | _ :: _, [] => simp [compareFirst, SameFirst]
termination_by structural as

theorem compareItems_eq_eq (s t : Items V) (hlen : s.length = t.length) :
    compareItems hash text [] s t = .eq ↔ Same text s t := by
  match s, t with
  | [], [] => simp [compareItems, Same]
  | [], _ :: _ => cases hlen
  | _ :: _, [] => cases hlen
  | (name, a) :: s, (name', b) :: t =>
    rw [compareItems_cons, Same, Ordering.then_eq_eq, Ordering.then_eq_eq, compareHead_eq_eq,
      compareItems_eq_eq s t (Nat.succ.inj hlen)]
    constructor
    · rintro ⟨⟨⟨htype, hname⟩, hvalue⟩, htail⟩
      exact ⟨hname, (compareItem_eq_eq a b htype).mp hvalue, htail⟩
    · rintro ⟨hname, hvalue, htail⟩
      have htype : a.type = b.type := hvalue.type_eq
      exact ⟨⟨⟨htype, hname⟩, (compareItem_eq_eq a b htype).mpr hvalue⟩, htail⟩
termination_by structural s

end

/-- **When `compare` returns 0.** -/
theorem compare_eq_iff (s t : Items V) : JsonStore.compare hash text [] s t = .eq ↔ Same text s t := by
  unfold JsonStore.compare
  rw [Ordering.then_eq_eq, compareKeys_eq_eq]
  constructor
  · rintro ⟨hkeys, hfields⟩
    have hlen : s.length = t.length := by simpa [Items.keys] using congrArg List.length hkeys
    exact (compareItems_eq_eq s t hlen).mp hfields
  · intro h
    have hkeys : Items.keys hash s = Items.keys hash t := h.keys_eq
    have hlen : s.length = t.length := by simpa [Items.keys] using congrArg List.length hkeys
    exact ⟨hkeys, (compareItems_eq_eq s t hlen).mpr h⟩

/-! ## When exchanging the stores negates the result -/

theorem SameItem.symm_flat {a b : Item V} (hkind : SameKind a b) (hflat : a.nested = false)
    (h : SameItem text a b) : SameItem text b a := by
  cases hkind with
  | double a b =>
    obtain ⟨x, ha, hb⟩ := h
    exact ⟨x, hb, ha⟩
  | jsonStore a b => cases hflat
  | jsonShared a b => cases hflat
  | jsonStoreList a b => cases hflat
  | _ => exact Eq.symm h

mutual

theorem SameItem.symm (a b : Item V) (h : SameItem text a b) : SameItem text b a := by
  match a with
  | .jsonStore a =>
    cases b with
    | jsonStore b => exact SamePtr.symm a b h
    | _ => exact h.elim
  | .jsonShared a =>
    cases b with
    | jsonShared b => exact SamePtr.symm a b h
    | _ => exact h.elim
  | .jsonStoreList a =>
    cases b with
    | jsonStoreList b => exact ⟨h.1.symm, SameFirst.symm a b h.2⟩
    | _ => exact h.elim
  | .int _ => exact SameItem.symm_flat (sameKind_of_type_eq h.type_eq) rfl h
  | .long _ => exact SameItem.symm_flat (sameKind_of_type_eq h.type_eq) rfl h
  | .str _ => exact SameItem.symm_flat (sameKind_of_type_eq h.type_eq) rfl h
  | .bool _ => exact SameItem.symm_flat (sameKind_of_type_eq h.type_eq) rfl h
  | .boolPtr _ => exact SameItem.symm_flat (sameKind_of_type_eq h.type_eq) rfl h
  | .strList _ => exact SameItem.symm_flat (sameKind_of_type_eq h.type_eq) rfl h
  | .intList _ => exact SameItem.symm_flat (sameKind_of_type_eq h.type_eq) rfl h
  | .strMap _ => exact SameItem.symm_flat (sameKind_of_type_eq h.type_eq) rfl h
  | .double _ => exact SameItem.symm_flat (sameKind_of_type_eq h.type_eq) rfl h
  | .enum _ => exact SameItem.symm_flat (sameKind_of_type_eq h.type_eq) rfl h
termination_by structural a

theorem SamePtr.symm (a b : Option (Items V)) (h : SamePtr text a b) : SamePtr text b a := by
  match a, b with
  | none, none => trivial
  | none, some t => exact h.elim
  | some s, none => exact h.elim
  | some s, some t => exact Same.symm s t h
termination_by structural a

theorem SameFirst.symm (as bs : List (Option (Items V))) (h : SameFirst text as bs) :
    SameFirst text bs as := by
  match as, bs with
  | a :: _, b :: _ => exact SamePtr.symm a b h
  | [], [] => trivial
  | [], _ :: _ => trivial
  | _ :: _, [] => trivial
termination_by structural as

theorem Same.symm (s t : Items V) (h : Same text s t) : Same text t s := by
  match s, t with
  | [], [] => trivial
  | [], _ :: _ => exact h.elim
  | _ :: _, [] => exact h.elim
  | (name, a) :: s, (name', b) :: t =>
    obtain ⟨hname, hvalue, htail⟩ := h
    exact ⟨hname.symm, SameItem.symm a b hvalue, Same.symm s t htail⟩
termination_by structural s

end

theorem Same.comm {s t : Items V} : Same text s t ↔ Same text t s :=
  ⟨Same.symm s t, Same.symm t s⟩

theorem compareDouble_swap_iff {a b : Double} :
    compareDouble b a = (compareDouble a b).swap ↔ a ≠ .nan ∧ b ≠ .nan := by
  cases a <;> cases b
  case number.number x y =>
    simp only [ne_eq, reduceCtorEq, not_false_eq_true, and_self, iff_true]
    exact compareValue_swap x y
  all_goals simp [compareDouble]

theorem compareTexts_swap (a b : List (String × V)) :
    compareItem hash text (.strMap b) (.strMap a) =
      (compareItem hash text (.strMap a) (.strMap b)).swap := by
  rw [compareItem, compareItem,
    then_eq_swap_iff (by rw [compareValue_eq_eq, compareValue_eq_eq]; exact eq_comm)]
  refine ⟨compareValue_swap _ _, fun h => ?_⟩
  have hlen : a.length = b.length := compareValue_eq_eq.mp h
  rw [then_eq_swap_iff (by rw [compareValue_eq_eq, compareValue_eq_eq]; exact eq_comm),
    compareElems_eq hlen, compareElems_eq hlen.symm]
  exact ⟨compareValue_swap _ _, fun _ => compareValue_swap _ _⟩

theorem compareItem_swap_iff_flat {a b : Item V} (h : SameKind a b) (hflat : a.nested = false) :
    compareItem hash text b a = (compareItem hash text a b).swap ↔
      ClearItem text hash a b := by
  cases h with
  | strList a b => exact iff_of_true (compareList_swap _ _) trivial
  | intList a b => exact iff_of_true (compareList_swap _ _) trivial
  | strMap a b => exact iff_of_true (compareTexts_swap a b) trivial
  | enum a b => exact iff_of_true (compareEnum_swap _ _) trivial
  | double a b => exact compareDouble_swap_iff
  | jsonStore a b => cases hflat
  | jsonShared a b => cases hflat
  | jsonStoreList a b => cases hflat
  | _ => exact iff_of_true (compareValue_swap _ _) trivial

mutual

theorem compareItem_swap_iff (a b : Item V) (h : a.type = b.type) :
    compareItem hash text b a = (compareItem hash text a b).swap ↔
      ClearItem text hash a b := by
  match a with
  | .jsonStore a =>
    cases b with
    | jsonStore b => exact comparePtr_swap_iff a b
    | _ => cases h
  | .jsonShared a =>
    cases b with
    | jsonShared b => exact comparePtr_swap_iff a b
    | _ => cases h
  | .jsonStoreList a =>
    cases b with
    | jsonStoreList b =>
      rw [compareItem, compareItem, ClearItem,
        then_eq_swap_iff (by rw [compareValue_eq_eq, compareValue_eq_eq]; exact eq_comm),
        compareValue_eq_eq, compareFirst_swap_iff a b]
      exact and_iff_right (compareValue_swap _ _)
    | _ => cases h
  | .int _ => exact compareItem_swap_iff_flat (sameKind_of_type_eq h) rfl
  | .long _ => exact compareItem_swap_iff_flat (sameKind_of_type_eq h) rfl
  | .str _ => exact compareItem_swap_iff_flat (sameKind_of_type_eq h) rfl
  | .bool _ => exact compareItem_swap_iff_flat (sameKind_of_type_eq h) rfl
  | .boolPtr _ => exact compareItem_swap_iff_flat (sameKind_of_type_eq h) rfl
  | .strList _ => exact compareItem_swap_iff_flat (sameKind_of_type_eq h) rfl
  | .intList _ => exact compareItem_swap_iff_flat (sameKind_of_type_eq h) rfl
  | .strMap _ => exact compareItem_swap_iff_flat (sameKind_of_type_eq h) rfl
  | .double _ => exact compareItem_swap_iff_flat (sameKind_of_type_eq h) rfl
  | .enum _ => exact compareItem_swap_iff_flat (sameKind_of_type_eq h) rfl
termination_by structural a

theorem comparePtr_swap_iff (a b : Option (Items V)) :
    comparePtr hash text b a = (comparePtr hash text a b).swap ↔ ClearPtr text hash a b := by
  match a, b with
  | none, none => exact iff_of_true rfl trivial
  | none, some t => exact iff_of_false (by simp [comparePtr]) id
  | some s, none => exact iff_of_false (by simp [comparePtr]) id
  | some s, some t =>
    rw [comparePtr, comparePtr, ClearPtr,
      then_eq_swap_iff (by rw [compareKeys_eq_eq, compareKeys_eq_eq]; exact eq_comm),
      compareKeys_eq_eq, and_iff_right (compareKeys_swap s t)]
    constructor
    · intro hswap hkeys
      have hlen : s.length = t.length := by simpa [Items.keys] using congrArg List.length hkeys
      exact (compareItems_swap_iff s t hlen).mp (hswap hkeys)
    · intro hclear hkeys
      have hlen : s.length = t.length := by simpa [Items.keys] using congrArg List.length hkeys
      exact (compareItems_swap_iff s t hlen).mpr (hclear hkeys)
termination_by structural a

theorem compareFirst_swap_iff (as bs : List (Option (Items V))) :
    compareFirst hash text bs as = (compareFirst hash text as bs).swap ↔
      ClearFirst text hash as bs := by
  match as, bs with
  | a :: _, b :: _ => exact comparePtr_swap_iff a b
  | [], [] => exact iff_of_true rfl trivial
  | [], _ :: _ => exact iff_of_true rfl trivial
  | _ :: _, [] => exact iff_of_true rfl trivial
termination_by structural as

theorem compareItems_swap_iff (s t : Items V) (hlen : s.length = t.length) :
    compareItems hash text [] t s = (compareItems hash text [] s t).swap ↔
      Clear text hash s t := by
  match s, t with
  | [], [] => exact iff_of_true rfl trivial
  | [], _ :: _ => cases hlen
  | _ :: _, [] => cases hlen
  | (name, a) :: s, (name', b) :: t =>
    have htail := compareItems_swap_iff s t (Nat.succ.inj hlen)
    rw [compareItems_cons, compareItems_cons, Clear]
    by_cases hhead : a.type = b.type ∧ name = name'
    · -- the values are compared
      obtain ⟨htype, rfl⟩ := hhead
      have heq : compareHead (name, a) (name, b) = .eq := compareHead_eq_eq.mpr ⟨htype, rfl⟩
      have heq' : compareHead (name, b) (name, a) = .eq := compareHead_eq_eq.mpr ⟨htype.symm, rfl⟩
      have hzero : compareItem hash text b a = .eq ↔ compareItem hash text a b = .eq := by
        rw [compareItem_eq_eq b a htype.symm, compareItem_eq_eq a b htype]
        exact ⟨SameItem.symm b a, SameItem.symm a b⟩
      rw [heq, heq', Ordering.eq_then, Ordering.eq_then, then_eq_swap_iff hzero, htail,
        compareItem_swap_iff a b htype, compareItem_eq_eq a b htype]
      simp [htype]
    · have hne : compareHead (name, a) (name', b) ≠ .eq := fun h => hhead (compareHead_eq_eq.mp h)
      have hswap := compareHead_swap (name, a) (name', b)
      refine iff_of_true ?_ fun hname htype => absurd ⟨htype, hname⟩ hhead
      rw [hswap]
      cases hcmp : compareHead (name, a) (name', b) with
      | eq => exact absurd hcmp hne
      | lt => rfl
      | gt => rfl
termination_by structural s

end

/-- **When exchanging the stores negates the result.** -/
theorem compare_swap_iff (s t : Items V) :
    JsonStore.compare hash text [] t s = (JsonStore.compare hash text [] s t).swap ↔
      (Items.keys hash s = Items.keys hash t → Clear text hash s t) :=
  comparePtr_swap_iff (some s) (some t)

mutual

theorem ClearItem.same (a : Item V) (h : ClearItem text hash a a) : SameItem text a a := by
  match a with
  | .int _ => rfl
  | .long _ => rfl
  | .str _ => rfl
  | .bool _ => rfl
  | .boolPtr _ => rfl
  | .strList _ => rfl
  | .intList _ => rfl
  | .strMap _ => rfl
  | .enum _ => rfl
  | .double .nan => exact absurd rfl h.1
  | .double (.number x) => exact ⟨x, rfl, rfl⟩
  | .jsonStore a => exact ClearPtr.same a h
  | .jsonShared a => exact ClearPtr.same a h
  | .jsonStoreList a => exact ⟨rfl, ClearFirst.same a (h rfl)⟩
termination_by structural a

theorem ClearPtr.same (a : Option (Items V)) (h : ClearPtr text hash a a) : SamePtr text a a := by
  match a with
  | none => trivial
  | some s => exact Clear.same s (h rfl)
termination_by structural a

theorem ClearFirst.same (as : List (Option (Items V))) (h : ClearFirst text hash as as) :
    SameFirst text as as := by
  match as with
  | [] => trivial
  | a :: _ => exact ClearPtr.same a h
termination_by structural as

theorem Clear.same (s : Items V) (h : Clear text hash s s) : Same text s s := by
  match s with
  | [] => trivial
  | (name, a) :: s =>
    obtain ⟨hvalue, htail⟩ := h rfl rfl
    have hsame := ClearItem.same a hvalue
    exact ⟨rfl, hsame, Clear.same s (htail hsame)⟩
termination_by structural s

end

/-- **The laws of `compare`** on two stores: 0 exactly when they are equal, and
    the result is negated when they are exchanged. -/
def StoreLaws (hash : String → Bytes) (text : V → String) (s t : Items V) : Prop :=
  (JsonStore.compare hash text [] s t = .eq ↔ s = t) ∧
    JsonStore.compare hash text [] t s = (JsonStore.compare hash text [] s t).swap

/-- Stores that agree as far as `compare` looks are equal, and no NaN and no
    null pointer meets anything up to the first difference. -/
def Comparable (hash : String → Bytes) (text : V → String) (s t : Items V) : Prop :=
  (Same text s t → s = t) ∧ (Items.keys hash s = Items.keys hash t → Clear text hash s t)

theorem store_laws_iff (s t : Items V) :
    StoreLaws hash text s t ↔ Comparable hash text s t := by
  unfold StoreLaws Comparable
  rw [compare_eq_iff, compare_swap_iff]
  refine and_congr_left fun hclear => ⟨Iff.mp, fun h => ⟨h, ?_⟩⟩
  rintro rfl
  exact Clear.same s (hclear rfl)

end

end NekoBox.Store
