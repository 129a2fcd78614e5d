import NekoBox.Database.Disk
import NekoBox.Lib.Machine

/-!
# `FileDatabaseManager`

The operations of the database manager (`gharqad/dataStore/Database.cpp`) as
lists of durable steps with the value they return. A store's encoders are a
`StoreCodec`; the class of the store with a given key is fixed, so the codec
and the type of its field values are indexed by the key.

A record lives in its file, in RocksDB, or in both: an empty RocksDB value
(`clear_rocksdb`) says that the record is in its file.
-/

namespace NekoBox.Database

open NekoBox.Lib

/-- `class DatabaseType` (`DataStore.hpp`, lines 29–36): the values of `config_type`. -/
inductive DatabaseType where
  | json | binary | ini | rocksdb
  deriving DecidableEq, Repr

/-! ## The encoders of a store -/

/-- The encoders of a store class with field values `β`. A decoder gets the
    store it fills. `fromJsonBytes` is `none` on a parse error, which leaves
    the store as it was. `saveINI` gives the contents of the file after each
    of its writes (every field syncs its own `QSettings`), from the contents
    before the call. -/
structure StoreCodec (β : Type) where
  toBytes : β → Bytes
  fromBytes : β → Bytes → β
  toJsonBytes : β → Bytes
  fromJsonBytes : β → Bytes → Option β
  saveINI : Option Bytes → β → List Bytes
  loadINI : β → Bytes → β

/-- The seven characters `"NekoBox"`. -/
def magic : Bytes := [78, 101, 107, 111, 66, 111, 120]

namespace StoreCodec

variable {β : Type} (C : StoreCodec β)

/-- `JsonStore::content(bool)` (`Configs.cpp`, lines 202–204). -/
def content (forceJsonConfigs : Bool) (s : β) : Bytes :=
  if forceJsonConfigs then C.toJsonBytes s else magic ++ C.toBytes s

/-- `JsonStore::content(const QByteArray &)` (lines 207–220). -/
def setContent (t : β) (bytes : Bytes) : Option β :=
  if bytes.length > 7 then
    if bytes.take 7 = magic then some (C.fromBytes t (bytes.drop 7)) else C.fromJsonBytes t bytes
  else C.fromJsonBytes t bytes

/-- `JsonStore::LoadFromFile` (lines 226–240) on the file, if it exists: the
    value returned and the store afterwards. -/
def loadFromFile (t : β) : Option FileContents → Bool × β
  | none => (false, t)
  | some none => (false, t)
  | some (some bytes) => (true, (C.setContent t bytes).getD (C.loadINI t bytes))

/-- The contents of the file decode to `s`, whatever the store held before. -/
def Decodes (bytes : Bytes) (s : β) : Prop := ∀ t, C.loadFromFile t (some (some bytes)) = (true, s)

/-- Each encoder round-trips into any store, and its output is recognised as
    what it is. -/
structure Lawful : Prop where
  fromBytes_toBytes : ∀ t s, C.fromBytes t (C.toBytes s) = s
  toBytes_ne_nil : ∀ s, C.toBytes s ≠ []
  fromJsonBytes_toJsonBytes : ∀ t s, C.fromJsonBytes t (C.toJsonBytes s) = some s
  toJsonBytes_magic : ∀ s, (C.toJsonBytes s).take 7 ≠ magic
  saveINI_last : ∀ old s, ∃ bytes, (C.saveINI old s).getLast? = some bytes ∧
    bytes.take 7 ≠ magic ∧ ∀ t, C.fromJsonBytes t bytes = none ∧ C.loadINI t bytes = s

variable {C}

theorem Lawful.decodes_content (h : C.Lawful) (forceJsonConfigs : Bool) (s : β) :
    C.Decodes (C.content forceJsonConfigs s) s := by
  intro t
  cases forceJsonConfigs with
  | false =>
    have hlen : 7 < (magic ++ C.toBytes s).length := by
      have := List.length_pos_iff.mpr (h.toBytes_ne_nil s)
      simp [magic]
      omega
    have htake : (magic ++ C.toBytes s).take 7 = magic := List.take_left' rfl
    have hdrop : (magic ++ C.toBytes s).drop 7 = C.toBytes s := List.drop_left' rfl
    have hset : C.setContent t (magic ++ C.toBytes s) = some s := by
      rw [setContent, if_pos hlen, if_pos htake, hdrop, h.fromBytes_toBytes]
    simp [content, loadFromFile, hset]
  | true =>
    simp [content, loadFromFile, setContent, h.toJsonBytes_magic, h.fromJsonBytes_toJsonBytes]

theorem Lawful.decodes_saveINI (h : C.Lawful) (old : Option Bytes) (s : β) :
    ∃ bytes, (C.saveINI old s).getLast? = some bytes ∧ C.Decodes bytes s := by
  obtain ⟨bytes, hlast, hmagic, hdecode⟩ := h.saveINI_last old s
  refine ⟨bytes, hlast, fun t => ?_⟩
  obtain ⟨hjson, hini⟩ := hdecode t
  simp [loadFromFile, setContent, hmagic, hjson, hini]

end StoreCodec

/-! ### A store with one field

A class that registers one `bool` field, `flag`, encoded in the three formats. -/

/-- The bytes of an ASCII text. -/
def ascii (s : String) : Bytes := s.toList.map fun c => Fin.ofNat 256 c.toNat

/-- The entry of `ToBytes` up to the value: the size of the key, the MD5 hash
    of `flag`, and `type_bool`. -/
def flagHeader : Bytes :=
  [0, 0, 0, 16, 50, 122, 108, 67, 4, 173, 89, 56, 234, 240, 239, 182, 204, 62, 83, 220, 3]

def flagJson (s : Bool) : Bytes := ascii (if s then "\x7b\x0a    \"flag\": true\x0a\x7d\x0a" else
  "\x7b\x0a    \"flag\": false\x0a\x7d\x0a")

def flagINI (s : Bool) : Bytes :=
  ascii (if s then "[General]\x0aflag=true\x0a" else "[General]\x0aflag=false\x0a")

/-- The two texts of the class are told apart; any other text is none of its files. -/
def flagCodec : StoreCodec Bool where
  toBytes s := flagHeader ++ [if s then 1 else 0]
  fromBytes t bytes := if bytes.take 21 = flagHeader then bytes.drop 21 ≠ [0] else t
  toJsonBytes := flagJson
  fromJsonBytes _ bytes :=
    if bytes = flagJson true then some true else if bytes = flagJson false then some false else none
  saveINI _ s := [flagINI s]
  loadINI t bytes :=
    if bytes = flagINI true then true else if bytes = flagINI false then false else t

theorem flagCodec_lawful : flagCodec.Lawful where
  fromBytes_toBytes := by decide
  toBytes_ne_nil := by decide
  fromJsonBytes_toJsonBytes := by decide
  toJsonBytes_magic := by decide
  saveINI_last _ s := ⟨flagINI s, rfl, by revert s; decide⟩

/-! ## The operations -/

/-- What an operation does: its durable steps, and what it returns. -/
structure Effect (ρ : Type) where
  steps : List DiskStep
  result : ρ

section Operations

variable {α : StoreKey → Type} (C : ∀ k, StoreCodec (α k)) (mode : DatabaseType) (d : Disk)

/-- `write_rocksdb(db, store)` (lines 463–469). -/
def writeRocksdb (k : StoreKey) (s : α k) : DiskStep := .put [(k.rocksKey, (C k).toBytes s)]

/-- `clear_rocksdb` (lines 441–450): the marker for a record in its file. -/
def clearRocksdb (k : StoreKey) : DiskStep := .put [(k.rocksKey, [])]

/-- `drop_rocksdb` (lines 452–461). -/
def dropRocksdb (k : StoreKey) : DiskStep := .delete k.rocksKey

/-- `DropFromDirectory` (lines 303–310). -/
def dropFromDirectory (k : StoreKey) : List DiskStep :=
  match k.fileName with
  | none => []
  | some p => [.removeFile p]

/-- `FileDatabaseManager::SaveToFile` (lines 225–238), not called in rocksdb mode. -/
def saveToFile (k : StoreKey) (s : α k) : Effect Bool :=
  match k.fileName with
  | none => ⟨[], false⟩
  | some p =>
    if mode = .ini then
      ⟨((C k).saveINI (d.files[p]?.join) s).map (.writeFile p), true⟩
    else ⟨[.writeFile p ((C k).content (mode = .json) s)], true⟩

/-- `FileDatabaseManager::Save` (lines 145–167). -/
def save (k : StoreKey) (s : α k) : Effect Bool :=
  if mode = .rocksdb then ⟨writeRocksdb C k s :: dropFromDirectory k, true⟩
  else
    let written := saveToFile C mode d k s
    if written.result then ⟨written.steps ++ [clearRocksdb k], true⟩ else written

/-- `FileDatabaseManager::LoadFromFile` (lines 279–288): it returns `true`
    for every record that has a file name. -/
def loadFromFile (k : StoreKey) (t : α k) : Bool × α k :=
  match k.fileName with
  | none => (false, t)
  | some p => (true, ((C k).loadFromFile t d.files[p]?).2)

/-- `FileDatabaseManager::Load` (lines 169–195) into the store `t`. -/
def load (k : StoreKey) (t : α k) : Effect (Bool × α k) :=
  match d.rocks[k.rocksKey]? with
  | none => ⟨[], (false, t)⟩
  | some (b :: bs) =>
    let s := (C k).fromBytes t (b :: bs)
    if mode = .rocksdb then ⟨[], (true, s)⟩
    else
      let written := saveToFile C mode d k s
      if written.result then ⟨written.steps ++ [clearRocksdb k], (true, s)⟩ else ⟨[], (true, s)⟩
  | some [] =>
    let (readed, s) := loadFromFile C d k t
    if readed ∧ mode = .rocksdb then ⟨writeRocksdb C k s :: dropFromDirectory k, (readed, s)⟩
    else ⟨[], (readed, s)⟩

/-- `FileDatabaseManager::Drop` (lines 196–209). -/
def drop (k : StoreKey) : Effect Bool := ⟨dropFromDirectory k ++ [dropRocksdb k], true⟩

/-- The types whose directories `initialize_rocksdb` scans (line 668). -/
def directoryTypes : List JsonStoreType := [.proxies, .beans, .routes, .groups, .subscriptions]

/-- `common_types` (lines 677–679). -/
def commonTypes : List JsonStoreType :=
  [.shortcuts, .resourceManager, .proxyManager, .nekoBox, .defaultRoute, .trafficLooper,
    .databaseLogger]

/-- The keys `initialize_rocksdb` puts a marker under (lines 669–686). -/
def markedKeys : List Bytes :=
  (directoryTypes.flatMap fun c => (queryFromDirectory d c).map fun x => packCharInt c.toChar x) ++
    (commonTypes.filter fun c => commonFileName c ∈ d.files).map fun c => packCharInt c.toChar 0

/-- `initialize_rocksdb` (lines 642–700): one atomic batch. -/
def initializeRocksdb : List DiskStep := [.put ((markedKeys d).map fun key => (key, []))]

end Operations

end NekoBox.Database
