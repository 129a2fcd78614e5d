import NekoBox.Config.Chain
import NekoBox.Lib.OrderedMap
import NekoBox.Qt.Strings
import NekoBox.Store.Compare
import NekoBox.Store.JsonRoundTrip

/-!
# Nodes

`Data::Node` (`ConfigData.cpp`), from which the beans read JSON. The keys of a
map are `EnumFieldName`s (`ConfigItem.cpp`, lines 1024–1052): they are compared
without regard to case, `_` and `-`. They are searched for by ASCII names only.

* `find_assign`: what is found after an assignment;
* `toInt_jsonInt`: an `int` written as JSON is read.
-/

namespace NekoBox.Link

open NekoBox.Config NekoBox.Lib NekoBox.Qt NekoBox.Store

/-- The value of a finite double. -/
def rationalValue (bits : BitVec 64) : ℚ :=
  let n := bits.toNat
  let sign : ℚ := if n / 2 ^ 63 = 1 then -1 else 1
  let exponent := n / 2 ^ 52 % 2 ^ 11
  let fraction := n % 2 ^ 52
  if exponent = 0 then sign * (fraction : ℕ) / 2 ^ 1074
  else sign * (2 ^ 52 + fraction : ℕ) * 2 ^ exponent / 2 ^ 1075

/-- The number of a JSON value. -/
def numberValue : JsonNumber → ℚ
  | .integer v => v
  | .double bits => rationalValue bits

/-- `Data::Node` -/
inductive Node where
  | undefined
  | null
  | bool (b : Bool)
  | number (n : ℚ)
  | string (s : String)
  | array (l : List Node)
  | map (members : List (String × Node))

namespace Node

/-- `ModifyEnumName`. Of the letters outside ASCII only the Kelvin sign has a lower
    case letter in ASCII. -/
def modifyEnumName (name : String) : String :=
  let lower := name.toList.map fun c => if c.toNat = 0x212A then 'k' else c.toLower
  String.ofList (lower.filter fun c => c ≠ '_' ∧ c ≠ '-')

/-- `EnumFieldName::operator<` -/
def keyLess (a b : String) : Bool :=
  decide (units16 (modifyEnumName a) < units16 (modifyEnumName b))

mutual

/-- `parseJsonValue` -/
def ofJson : Json → Node
  | .null => .null
  | .bool b => .bool b
  | .number n => .number (numberValue n)
  | .string s => .string s
  | .array l => .array (ofElems l)
  | .object o => .map (ofMembers o [])
termination_by structural v => v

def ofElems : List Json → List Node
  | [] => []
  | v :: l => ofJson v :: ofElems l
termination_by structural l => l

/-- The members of an object are assigned one after another. -/
def ofMembers : List (String × Json) → List (String × Node) → List (String × Node)
  | [], m => m
  | (key, v) :: o, m => ofMembers o (OrderedMap.assign keyLess key (ofJson v) m)
termination_by structural o => o

end

def ofObject (o : JsonObject) : Node := ofJson (.object o)

/-! ## Reading -/

/-- The entry of a map with a key. -/
def find (key : String) (m : List (String × Node)) : Option Node :=
  (m.find? fun e => modifyEnumName e.1 = modifyEnumName key).map Prod.snd

/-- `at` or `[]` of a constant node. -/
def get (n : Node) (key : String) : Node :=
  match n with
  | .map m => (find key m).getD .undefined
  | _ => .undefined

/-- `at(size_t)`, of a constant node. -/
def elem (n : Node) (index : ℕ) : Node :=
  match n with
  | .array l => l.getD index .undefined
  | _ => .undefined

def contains (n : Node) (key : String) : Bool :=
  match n with
  | .map m => (find key m).isSome
  | _ => false

def isString : Node → Bool
  | .string _ => true
  | _ => false

def isBool : Node → Bool
  | .bool _ => true
  | _ => false

def isNumber : Node → Bool
  | .number _ => true
  | _ => false

def isArray : Node → Bool
  | .array _ => true
  | _ => false

def isObject : Node → Bool
  | .map _ => true
  | _ => false

def isNothing : Node → Bool
  | .null => true
  | .undefined => true
  | _ => false

/-- `QString::number(double)` and `toDouble`. -/
structure NumberText where
  print : ℚ → String
  parse : String → ℚ

/-- `Quote` (`Utils.cpp`) -/
def quote (s : String) : String :=
  let escaped := s.toList.flatMap fun c => if c = '\\' ∨ c = '"' then ['\\', c] else [c]
  String.ofList ('"' :: escaped ++ ['"'])

variable (T : NumberText)

mutual

/-- `toQuoted` -/
def toQuoted : Node → String
  | .string s => quote s
  | .undefined => ""
  | .null => ""
  | .bool b => if b then "true" else "false"
  | .number n => T.print n
  | .array l => "[" ++ join "," (quotedElems l) ++ "]"
  | .map m => "\x7b" ++ join "," (quotedMembers m) ++ "\x7d"
termination_by structural n => n

def quotedElems : List Node → List String
  | [] => []
  | n :: l => toQuoted n :: quotedElems l
termination_by structural l => l

def quotedMembers : List (String × Node) → List String
  | [] => []
  | (key, n) :: m => (quote key ++ ":" ++ toQuoted n) :: quotedMembers m
termination_by structural m => m

end

/-- `toString` -/
def toString : Node → String
  | .string s => s
  | n => toQuoted T n

mutual

/-- `toNumber` -/
def toNumber : Node → ℚ
  | .number n => n
  | .string s => if modifyEnumName "true" = modifyEnumName s then 1 else T.parse s
  | .bool b => if b then 1 else 0
  | .array l => sumElems l
  | .map m => sumMembers m
  | .undefined => 0
  | .null => 0
termination_by structural n => n

def sumElems : List Node → ℚ
  | [] => 0
  | n :: l => toNumber n + sumElems l
termination_by structural l => l

def sumMembers : List (String × Node) → ℚ
  | [] => 0
  | (_, n) :: m => toNumber n + sumMembers m
termination_by structural m => m

end

/-- `toBool`: an array or a map is true if it is not empty. -/
def toBool : Node → Bool
  | .array l => !l.isEmpty
  | .map m => !m.isEmpty
  | n => decide (0 < toNumber T n)

/-- `(int) number`; −2^31 if the number does not fit. -/
def truncate (q : ℚ) : ℤ :=
  let n := q.num.tdiv q.den
  if IsInt32 n then n else -2 ^ 31

/-- `toInt` -/
def toInt (n : Node) : ℤ := truncate (toNumber T n)

/-- `toStringList` -/
def toStringList : Node → List String
  | .array l => l.map (toString T)
  | .map m => m.map fun e => toString T e.2
  | _ => []

/-- `toIntList` -/
def toIntList : Node → List ℤ
  | .array l => l.map (toInt T)
  | .map m => m.map fun e => toInt T e.2
  | _ => []

/-- `count` -/
def count : Node → ℕ
  | .array l => l.length
  | .map m => m.length
  | _ => 0

/-! ## What was written is read -/

theorem modifyEnumName_eq_of_not_less {a b : String} (hab : keyLess a b = false)
    (hba : keyLess b a = false) : modifyEnumName a = modifyEnumName b := by
  apply units16_inj.mp
  exact le_antisymm (not_lt.mp (of_decide_eq_false hba)) (not_lt.mp (of_decide_eq_false hab))

theorem modifyEnumName_ne_of_less {a b : String} (h : keyLess a b = true) :
    modifyEnumName a ≠ modifyEnumName b := by
  intro heq
  have hlt : units16 (modifyEnumName a) < units16 (modifyEnumName b) := of_decide_eq_true h
  rw [heq] at hlt
  exact lt_irrefl _ hlt

theorem find_cons (key : String) (e : String × Node) (m : List (String × Node)) :
    find key (e :: m) =
      if modifyEnumName e.1 = modifyEnumName key then some e.2 else find key m := by
  unfold find
  rw [List.find?_cons]
  by_cases h : modifyEnumName e.1 = modifyEnumName key
  · rw [if_pos h, decide_eq_true h]
    rfl
  · rw [if_neg h, decide_eq_false h]

/-- What is found after an assignment. -/
theorem find_assign (k key : String) (n : Node) (m : List (String × Node)) :
    find key (OrderedMap.assign keyLess k n m) =
      if modifyEnumName k = modifyEnumName key then some n else find key m := by
  induction m with
  | nil => exact find_cons key (k, n) []
  | cons e m ih =>
    unfold OrderedMap.assign
    by_cases hless : keyLess e.1 k = true
    · have hne := modifyEnumName_ne_of_less hless
      rw [if_pos hless, find_cons, find_cons, ih]
      by_cases hkey : modifyEnumName k = modifyEnumName key
      · rw [if_pos hkey, if_pos hkey, if_neg fun h => hne (h.trans hkey.symm)]
      · rw [if_neg hkey, if_neg hkey]
    rw [if_neg hless]
    by_cases hgreater : keyLess k e.1 = true
    · rw [if_pos hgreater, find_cons]
    · have heq := modifyEnumName_eq_of_not_less (Bool.not_eq_true _ ▸ hless)
        (Bool.not_eq_true _ ▸ hgreater)
      rw [if_neg hgreater, find_cons, find_cons, heq]
      by_cases hkey : modifyEnumName k = modifyEnumName key
      · rw [if_pos hkey, if_pos hkey]
      · rw [if_neg hkey, if_neg hkey, if_neg hkey]

/-- The member of an object with a key, if the object was read over `m`. -/
theorem find_ofMembers_cons (key k : String) (v : Json) (o : JsonObject)
    (m : List (String × Node)) :
    find key (ofMembers ((k, v) :: o) m) =
      find key (ofMembers o (OrderedMap.assign keyLess k (ofJson v) m)) := rfl

theorem find_ofMembers_nil (key : String) (m : List (String × Node)) :
    find key (ofMembers [] m) = find key m := rfl

theorem get_ofObject (key : String) (o : JsonObject) :
    (ofObject o).get key = (find key (ofMembers o [])).getD .undefined := rfl

theorem contains_ofObject (key : String) (o : JsonObject) :
    (ofObject o).contains key = (find key (ofMembers o [])).isSome := rfl

theorem truncate_intCast {n : ℤ} (hn : IsInt32 n) : truncate n = n := by
  unfold truncate
  rw [Rat.num_intCast, Rat.den_intCast]
  simp [hn]

/-- An `int` written as JSON is read. -/
theorem toInt_jsonInt {n : ℤ} (hn : IsInt32 n) : toInt T (ofJson (jsonInt n)) = n := by
  have hround : roundDouble n = n := by
    apply roundDouble_of_natAbs_le
    unfold IsInt32 at hn
    omega
  show truncate ((roundDouble n : ℤ) : ℚ) = n
  rw [hround]
  exact truncate_intCast hn

end Node

theorem jsonInt_inj {m n : ℤ} (hm : IsInt32 m) (hn : IsInt32 n) (h : jsonInt m = jsonInt n) :
    m = n := by
  have hround : ∀ k : ℤ, IsInt32 k → roundDouble k = k := by
    intro k hk
    apply roundDouble_of_natAbs_le
    unfold IsInt32 at hk
    omega
  have hvalue : roundDouble m = roundDouble n := JsonNumber.integer.inj (Json.number.inj h)
  rwa [hround m hm, hround n hn] at hvalue

end NekoBox.Link
