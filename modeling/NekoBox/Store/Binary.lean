import NekoBox.Store.Value

/-!
# The binary format of a store

`JsonStore::ToBytes` and `FromBytes` (`ConfigItem.cpp`, lines 638–725) and the
`serialize` and `deserialize` of every kind of field (lines 774–943). Each
entry is the hashed field name, the kind and the value. The reader looks the
key up in its own `_map()`; an entry it does not know, or knows with another
kind, is read with the item `getConfigItem` makes for the kind and dropped.

`Configs::hash` (MD5) is the parameter `hash`.
-/

namespace NekoBox.Store

open NekoBox.Lib NekoBox.Qt

/-! ## Values in a stream -/

/-- `QDataStream` on an `int`. -/
def int32 : Wire (BitVec 32) := Wire.bigEndian 4

/-- `QDataStream` on a `long long`, and on the bits of a `double`. -/
def int64 : Wire (BitVec 64) := Wire.bigEndian 8

/-- `QDataStream` on a `bool`. -/
def boolean : Wire Bool :=
  (Wire.bigEndian 1).iso (fun v => v != 0) (fun b => if b then 1 else 0) (by decide)

theorem put_string_ne_nil (s : String) : string.put s ≠ [] :=
  fun h => putSize_ne_nil _ (List.append_eq_nil_iff.mp h).1

theorem put_int32_ne_nil (v : BitVec 32) : int32.put v ≠ [] := by
  intro h
  have := congrArg List.length h
  simp [int32, Wire.bigEndian] at this

theorem put_byteArray_ne_nil (v : Option Bytes) : byteArray.put v ≠ [] := by
  intro h
  cases v with
  | none =>
    have := congrArg List.length h
    simp [byteArray] at this
  | some bs => exact putSize_ne_nil _ (List.append_eq_nil_iff.mp h).1

/-- `QDataStream` on a `QStringList`. -/
def stringList : Wire (List String) := sequence string put_string_ne_nil

/-- `QDataStream` on a `QList<int>`. -/
def intList : Wire (List (BitVec 32)) := sequence int32 put_int32_ne_nil

/-- `QDataStream` on a `QList<QByteArray>`. -/
def byteArrayList : Wire (List (Option Bytes)) := sequence byteArray put_byteArray_ne_nil

/-- `JsonEnum::operator QByteArray` (`Configs.cpp`, lines 330–335): a zero byte
    and the `int` as it lies in memory, little-endian. -/
def enumBytes (value : BitVec 32) : Bytes := 0 :: littleEndian 4 value.toNat

/-- `JsonEnum::set(const QByteArray &)` (lines 295–304). `memcpy` reads four
    bytes behind the first one; those beyond the end are taken as zero. An
    array that starts with another byte is a name in UTF-8. -/
def setEnumBytes (map : EnumMap) (value : Bytes) : BitVec 32 :=
  if value.headD 0 = 0 then
    let word := (value.drop 1 ++ [0, 0, 0, 0]).take 4
    BitVec.ofNat 32 (ofDigits256 word.reverse)
  else
    map.set ((String.fromUTF8? ⟨(value.map fun b => UInt8.ofNat b.val).toArray⟩).getD "")

theorem setEnumBytes_enumBytes (map : EnumMap) (value : BitVec 32) :
    setEnumBytes map (enumBytes value) = value := by
  have htake : (littleEndian 4 value.toNat ++ [0, 0, 0, 0]).take 4 = littleEndian 4 value.toNat :=
    List.take_left' (by simp [littleEndian])
  have hword : ofDigits256 (littleEndian 4 value.toNat).reverse = value.toNat :=
    ofDigits256_littleEndian (by have := value.isLt; omega)
  simp [setEnumBytes, enumBytes, htake, hword]

section Codec

variable (hash : String → Bytes)

/-! ## Writing -/

mutual

/-- `serialize` (lines 779–847). -/
def serialize : Val → Bytes
  | .int v => int32.put v
  | .double v => int64.put v
  | .long v => int64.put v
  | .str v => string.put v
  | .bool v => boolean.put v
  | .boolPtr v => boolean.put v
  | .strList v => stringList.put v
  | .intList v => intList.put v
  | .strMap v => variantMap.put v
  | .jsonStore none => byteArray.put none
  | .jsonStore (some st) => byteArray.put (some (toBytes st))
  | .jsonShared none => byteArray.put none
  | .jsonShared (some st) => byteArray.put (some (toBytes st))
  | .enum _ none => byteArray.put none
  | .enum _ (some v) => byteArray.put (some (enumBytes v))
  | .jsonStoreList _ elems => byteArrayList.put (elemBytes elems)

/-- `JsonStore::ToBytes` (lines 638–671). -/
def toBytes : List (String × Val) → Bytes
  | [] => []
  | (name, v) :: rest =>
    byteArray.put (some (hash name)) ++ v.type.code :: serialize v ++ toBytes rest

/-- The arrays of the elements of a list of stores. -/
def elemBytes : List (List (String × Val)) → List (Option Bytes)
  | [] => []
  | st :: rest => some (toBytes st) :: elemBytes rest

end

/-! ## Reading -/

/-- `getConfigItem` (lines 615–632): there is no case for `type_double`. -/
def getConfigItem (i : Byte) : ConfigItemType :=
  if i = 0 then .int
  else if i = 1 then .long
  else if i = 3 then .bool
  else if i = 2 then .str
  else if i = 4 then .strList
  else if i = 5 then .intList
  else if i = 6 then .jsonStore
  else if i = 8 then .strMap
  else if i = 7 then .jsonStoreList
  else if i = 9 then .boolPtr
  else if i = 10 then .jsonShared
  else if i = 12 then .enum
  else .jsonStore

/-- `deserialize` without a store: the value is read and dropped. -/
def skip : ConfigItemType → Bytes → Bytes
  | .int, data => (int32.get data).2
  | .double, data => (int64.get data).2
  | .long, data => (int64.get data).2
  | .str, data => (string.get data).2
  | .bool, data => (boolean.get data).2
  | .boolPtr, data => (boolean.get data).2
  | .strList, data => (stringList.get data).2
  | .intList, data => (intList.get data).2
  | .strMap, data => (variantMap.get data).2
  | .jsonStore, data => (byteArray.get data).2
  | .jsonShared, data => (byteArray.get data).2
  | .enum, data => (byteArray.get data).2
  | .jsonStoreList, data => (byteArrayList.get data).2

/-- The contents of an array that was read; a null array is empty. -/
def contents (a : Option (Option Bytes)) : Bytes := (a.bind id).getD []

/-- `deserialize` into a field (lines 848–943), with the `FromBytes` of the
    stores it points to. A value that is cut short is the default value. -/
def deserialize (fromBytes : Obj → Bytes → Obj) : Val → Bytes → Val × Bytes
  | .int _, data => let (v, data) := int32.get data; (.int (v.getD 0), data)
  | .double _, data => let (v, data) := int64.get data; (.double (v.getD 0), data)
  | .long _, data => let (v, data) := int64.get data; (.long (v.getD 0), data)
  | .str _, data => let (v, data) := string.get data; (.str (v.getD ""), data)
  | .bool _, data => let (v, data) := boolean.get data; (.bool (v.getD false), data)
  | .boolPtr _, data => let (v, data) := boolean.get data; (.boolPtr (v.getD false), data)
  | .strList _, data => let (v, data) := stringList.get data; (.strList (v.getD []), data)
  | .intList _, data => let (v, data) := intList.get data; (.intList (v.getD []), data)
  | .strMap _, data => let (v, data) := variantMap.get data; (.strMap (v.getD ∅), data)
  | .jsonStore st, data =>
    let (a, data) := byteArray.get data
    (.jsonStore (st.map fun st => fromBytes st (contents a)), data)
  | .jsonShared st, data =>
    let (a, data) := byteArray.get data
    (.jsonShared (st.map fun st => fromBytes st (contents a)), data)
  | .enum map value, data =>
    let (a, data) := byteArray.get data
    (.enum map (value.map fun _ => setEnumBytes map (contents a)), data)
  | .jsonStoreList fresh _, data =>
    let (as, data) := byteArrayList.get data
    (.jsonStoreList fresh ((as.getD []).map fun a => fromBytes fresh (a.getD [])), data)

/-- The loop of `JsonStore::FromBytes` (lines 674–716): the store, and whether
    an entry was dropped. Every turn reads at least one byte, and the array of
    a nested store is shorter than the data, so the length of the data is
    enough `fuel`. -/
def fromBytesLoop : ℕ → Obj → Bytes → Obj × Bool
  | 0, t, _ => (t, false)
  | fuel + 1, t, data =>
    if data = [] then (t, false)
    else
      let (key, data) := byteArray.get data
      let (type, data) := getWord 1 data
      let type : Byte := Fin.ofNat 256 (type.getD 0)
      match Obj.find hash t (contents key) with
      | some v =>
        if v.type.code = type then
          let (v', data) :=
            deserialize (fun st bytes => (fromBytesLoop fuel st bytes).1) v data
          fromBytesLoop fuel (Obj.set hash t (contents key) v') data
        else ((fromBytesLoop fuel t (skip (getConfigItem type) data)).1, true)
      | none => ((fromBytesLoop fuel t (skip (getConfigItem type) data)).1, true)

/-- `JsonStore::FromBytes` (lines 674–725). `fallback` is what the fallback
    store of the class does to the store when an entry was dropped; the
    default is none. -/
def fromBytes (fallback : Option (Bytes → Obj → Obj)) (t : Obj) (data : Bytes) : Obj :=
  let (t', dropped) := fromBytesLoop hash data.length t data
  match dropped, fallback with
  | true, some job => job data t'
  | _, _ => t'

end Codec

end NekoBox.Store
