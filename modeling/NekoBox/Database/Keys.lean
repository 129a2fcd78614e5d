import NekoBox.Qt.Text
import NekoBox.Lib.Wire

/-!
# Record keys, file names and RocksDB keys

Every stored record is identified by its `JsonStoreType` and its `int` id
(`nekobox/dataStore/ConfigItem.hpp`, lines 51–66). This module models the two
places a record can live in:

* `getJsonStoreFileName` (`Database.cpp`, lines 76–124): the file of the
  record, `none` for the empty name the code returns for a negative id;
* `packCharInt` (`Database.cpp`, lines 404–414): its RocksDB key.

Both identify the record (`fileName_injective`, `rocksKey_injective`), and the
decoding in `query_rocksdb` inverts `packCharInt` (`packCharInt_eq`).
-/

namespace NekoBox.Database

open NekoBox.Qt NekoBox.Lib




/-! ## Record types -/

/-- `enum JsonStoreType` without `NoSave`: a store of that type never reaches
    the database manager (`JsonStore::Save` and `Load` return first). -/
inductive JsonStoreType where
  | routes | proxies | groups | beans | shortcuts | resourceManager | proxyManager | nekoBox
  | defaultRoute | trafficLooper | databaseLogger | subscriptions
  deriving DecidableEq, Repr

/-- The value of the enumerator, a `char`. -/
def JsonStoreType.toChar : JsonStoreType → Byte
  | .routes => 1
  | .proxies => 2
  | .groups => 3
  | .beans => 4
  | .shortcuts => 5
  | .resourceManager => 6
  | .proxyManager => 7
  | .nekoBox => 8
  | .defaultRoute => 9
  | .trafficLooper => 11
  | .databaseLogger => 12
  | .subscriptions => 13

theorem JsonStoreType.toChar_injective : Function.Injective JsonStoreType.toChar := by
  intro a b h
  cases a <;> cases b <;> first | rfl | (exact absurd h (by decide))

/-- `getJsonStorePathName` (lines 108–123): the directory of the types with one
    file a record. -/
def getJsonStorePathName : JsonStoreType → Option String
  | .routes => some "route_profiles"
  | .proxies => some "profiles"
  | .groups => some "groups"
  | .subscriptions => some "subscriptions"
  | .beans => some "beans"
  | _ => none

/-- A path, as its directories and its file name. -/
abbrev Path := List String

/-- The file of the types with a single record (lines 83–97). -/
def commonFileName : JsonStoreType → Path
  | .shortcuts => ["shortcuts.cfg"]
  | .resourceManager => ["resource_manager.cfg"]
  | .proxyManager => ["profiles.cfg"]
  | .nekoBox => ["nekobox.cfg"]
  | .defaultRoute => ["default_route_profile.cfg"]
  | .trafficLooper => ["stats", "traffic.cfg"]
  | .databaseLogger => ["stats", "usage.cfg"]
  | _ => []

/-- `QString::number(id) + ".cfg"`. -/
def entryName (id : ℤ) : String := String.ofList (number id ++ ".cfg".toList)

/-- `getJsonStoreFileName` (lines 76–106). `none` is the empty `QString`. -/
def getJsonStoreFileName (type : JsonStoreType) (id : ℤ) : Option Path :=
  match getJsonStorePathName type with
  | none => some (commonFileName type)
  | some dir => if id < 0 then none else some [dir, entryName id]

/-- `pack_char_int` (lines 404–414). -/
def packCharInt (type : Byte) (id : ℤ) : Bytes :=
  let u := (id % 2 ^ 32).toNat
  [type, Fin.ofNat 256 (u % 256), Fin.ofNat 256 (u / 2 ^ 8 % 256),
    Fin.ofNat 256 (u / 2 ^ 16 % 256), Fin.ofNat 256 (u / 2 ^ 24 % 256)]

/-- The decoding of a key in `query_rocksdb` (lines 373–384): the little-endian
    `uint32_t` cast to `int32_t`. -/
def unpackId (b1 b2 b3 b4 : Byte) : ℤ :=
  let u : ℤ := b1.val + b2.val * 2 ^ 8 + b3.val * 2 ^ 16 + b4.val * 2 ^ 24
  if u < 2 ^ 31 then u else u - 2 ^ 32

/-! ## Record keys -/

/-- What identifies a record. The types with a single record are only used with
    the id `JsonStore::Id` returns, 0. -/
structure StoreKey where
  type : JsonStoreType
  id : ℤ
  isInt : IsInt32 id
  common : getJsonStorePathName type = none → id = 0
  deriving DecidableEq

@[ext] theorem StoreKey.ext {a b : StoreKey} (ht : a.type = b.type) (hi : a.id = b.id) : a = b := by
  cases a; cases b; simp_all

namespace StoreKey

/-- The file of the record. -/
def fileName (k : StoreKey) : Option Path := getJsonStoreFileName k.type k.id

/-- The RocksDB key of the record. -/
def rocksKey (k : StoreKey) : Bytes := packCharInt k.type.toChar k.id

end StoreKey

theorem unpackId_eq {b1 b2 b3 b4 : Byte} {id : ℤ} (hid : IsInt32 id)
    (h : (b1.val + b2.val * 2 ^ 8 + b3.val * 2 ^ 16 + b4.val * 2 ^ 24 : ℤ) = id % 2 ^ 32) :
    unpackId b1 b2 b3 b4 = id := by
  obtain ⟨hlo, hhi⟩ := hid
  unfold unpackId
  simp only [h]
  split_ifs <;> omega

/-- The loop of `query_rocksdb` decodes what `pack_char_int` encoded. -/
theorem packCharInt_eq {id : ℤ} (hid : IsInt32 id) (type : Byte) :
    ∃ b1 b2 b3 b4, packCharInt type id = [type, b1, b2, b3, b4] ∧ unpackId b1 b2 b3 b4 = id := by
  have hlt : (id % 2 ^ 32).toNat < 2 ^ 32 := by omega
  have hcast : (((id % 2 ^ 32).toNat : ℕ) : ℤ) = id % 2 ^ 32 := by omega
  unfold packCharInt
  generalize (id % 2 ^ 32).toNat = u at hlt hcast
  refine ⟨_, _, _, _, rfl, unpackId_eq hid ?_⟩
  rw [← hcast]
  have hval : ∀ n : ℕ, ((Fin.ofNat 256 (n % 256) : Fin 256).val : ℤ) = (n : ℤ) % 256 := by
    intro n
    simp [Fin.ofNat]
  rw [hval, hval, hval, hval]
  push_cast
  omega

theorem rocksKey_injective {a b : StoreKey} (h : a.rocksKey = b.rocksKey) : a = b := by
  obtain ⟨a1, a2, a3, a4, hpa, hia⟩ := packCharInt_eq a.isInt a.type.toChar
  obtain ⟨b1, b2, b3, b4, hpb, hib⟩ := packCharInt_eq b.isInt b.type.toChar
  rw [StoreKey.rocksKey, StoreKey.rocksKey, hpa, hpb] at h
  simp only [List.cons.injEq, and_true] at h
  obtain ⟨ht, rfl, rfl, rfl, rfl⟩ := h
  exact StoreKey.ext (JsonStoreType.toChar_injective ht) (hia.symm.trans hib)

theorem entryName_injective {m n : ℤ} (hm : IsInt32 m) (hn : IsInt32 n)
    (h : entryName m = entryName n) : m = n := by
  have := congrArg String.toList h
  simp only [entryName, String.toList_ofList] at this
  exact number_injective hm hn (List.append_cancel_right this)

theorem fileName_eq_some {k : StoreKey} {p : Path} :
    k.fileName = some p ↔
      (∃ dir, getJsonStorePathName k.type = some dir ∧ 0 ≤ k.id ∧ p = [dir, entryName k.id]) ∨
        (getJsonStorePathName k.type = none ∧ p = commonFileName k.type) := by
  unfold StoreKey.fileName getJsonStoreFileName
  cases h : getJsonStorePathName k.type with
  | none => simp [eq_comm]
  | some dir =>
    by_cases hid : k.id < 0
    · simp [hid]
    · simp [hid, not_lt.mp hid, eq_comm]

theorem getJsonStorePathName_injective {a b : JsonStoreType} {dir : String}
    (ha : getJsonStorePathName a = some dir) (hb : getJsonStorePathName b = some dir) : a = b := by
  rw [← hb] at ha
  cases a <;> cases b <;> first | rfl | (exact absurd ha (by decide)) | (cases hb)

theorem commonFileName_injective {a b : JsonStoreType} (ha : getJsonStorePathName a = none)
    (hb : getJsonStorePathName b = none) (h : commonFileName a = commonFileName b) : a = b := by
  cases a <;> cases b <;>
    first | rfl | (exact absurd h (by decide)) | (exact absurd ha (by decide))

/-- The files of the types with a single record are in no record directory. -/
theorem commonFileName_ne {a b : JsonStoreType} {dir name : String}
    (ha : getJsonStorePathName a = none) (hb : getJsonStorePathName b = some dir) :
    commonFileName a ≠ [dir, name] := by
  intro h
  cases a <;> simp_all [commonFileName, getJsonStorePathName] <;>
    obtain ⟨rfl, -⟩ := h <;> cases b <;> simp_all

/-- No two records share a file. -/
theorem fileName_injective {a b : StoreKey} {p : Path} (ha : a.fileName = some p)
    (hb : b.fileName = some p) : a = b := by
  rcases fileName_eq_some.mp ha with ⟨da, hda, -, rfl⟩ | ⟨hna, rfl⟩ <;>
    rcases fileName_eq_some.mp hb with ⟨db, hdb, -, h⟩ | ⟨hnb, h⟩
  · obtain ⟨rfl, he⟩ : da = db ∧ entryName a.id = entryName b.id := by simpa using h
    exact StoreKey.ext (getJsonStorePathName_injective hda hdb)
      (entryName_injective a.isInt b.isInt he)
  · exact absurd h.symm (commonFileName_ne hnb hda)
  · exact absurd h (commonFileName_ne hna hdb)
  · exact StoreKey.ext (commonFileName_injective hna hnb h) (by rw [a.common hna, b.common hnb])

end NekoBox.Database
