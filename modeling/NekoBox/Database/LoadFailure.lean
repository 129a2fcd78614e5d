import NekoBox.Database.Refinement

/-!
# `Load` of a record whose file cannot be read

`FileDatabaseManager::LoadFromFile` (`Database.cpp`, lines 279–288) drops the
result of `JsonStore::LoadFromFile` and returns `true` for every record that
has a file name. A marked record whose file cannot be opened or decoded is
therefore loaded "successfully" as the values the store already had, in every
mode, and in rocksdb mode these values are written to RocksDB and the file is
removed (`load_undecodable_rocksdb`). `Load` reports the failure exactly when
the record has no key, since then it does not look at the file
(`load_keepsData_iff`).
-/

namespace NekoBox.Database

open NekoBox.Lib

variable {α : StoreKey → Type} {C : ∀ k, StoreCodec (α k)} {mode : DatabaseType} {d : Disk}
  {k : StoreKey}

/-- The file cannot be opened, or holds neither the binary format nor JSON nor
    an INI file with a key of the class: `LoadINI` leaves the store as it was. -/
def Undecodable {β : Type} (C : StoreCodec β) (t : β) : FileContents → Prop
  | none => True
  | some bytes =>
    ¬ (bytes.length > 7 ∧ bytes.take 7 = magic) ∧ C.fromJsonBytes t bytes = none ∧
      C.loadINI t bytes = t

/-- `Load` reports failure, leaves the file in place and writes nothing under
    the key. -/
def KeepsData (C : ∀ k, StoreCodec (α k)) (mode : DatabaseType) (d : Disk) (k : StoreKey)
    (t : α k) : Prop :=
  let e := load C mode d k t
  e.result.1 = false ∧ fileOf (d.perform e.steps) k = fileOf d k ∧
    (d.perform e.steps).rocks[k.rocksKey]? = d.rocks[k.rocksKey]?

/-- An undecodable file leaves the store as it was. -/
theorem loadFromFile_undecodable {β : Type} {C : StoreCodec β} {t : β} {f : FileContents}
    (h : Undecodable C t f) : (C.loadFromFile t (some f)).2 = t := by
  cases f with
  | none => rfl
  | some bytes =>
    obtain ⟨hmagic, hjson, hini⟩ := h
    have hset : C.setContent t bytes = none := by
      unfold StoreCodec.setContent
      split_ifs with hlen htake
      · exact absurd ⟨hlen, htake⟩ hmagic
      · exact hjson
      · exact hjson
    simp [StoreCodec.loadFromFile, hset, hini]

/-- The manager takes an undecodable file for a loaded one. -/
theorem managerLoadFromFile_undecodable {t : α k} {f : FileContents} (hfile : fileOf d k = some f)
    (hbad : Undecodable (C k) t f) : loadFromFile C d k t = (true, t) := by
  cases hp : k.fileName with
  | none => simp [fileOf_eq_none hp] at hfile
  | some p =>
    rw [fileOf_eq hp] at hfile
    simp [loadFromFile, hp, hfile, loadFromFile_undecodable hbad]

/-- In rocksdb mode the values the store had are written over the record and
    its file is removed. -/
theorem load_undecodable_rocksdb {t : α k} {f : FileContents} (hfile : fileOf d k = some f)
    (hbad : Undecodable (C k) t f) (hmark : d.rocks[k.rocksKey]? = some []) :
    (load C .rocksdb d k t).result = (true, t) ∧
      let d' := d.perform (load C .rocksdb d k t).steps
      fileOf d' k = none ∧ d'.rocks[k.rocksKey]? = some ((C k).toBytes t) := by
  have heq : load C .rocksdb d k t = ⟨writeRocksdb C k t :: dropFromDirectory k, (true, t)⟩ := by
    simp [load, hmark, managerLoadFromFile_undecodable hfile hbad]
  rw [heq]
  obtain ⟨hrocks, hgone⟩ := perform_dropFromDirectory (d.apply (writeRocksdb C k t)) k
  refine ⟨rfl, hgone, ?_⟩
  rw [Disk.perform_cons, hrocks]
  simp [writeRocksdb]

/-- **Main theorem.** `Load` of a record whose file is undecodable reports the
    failure and keeps the data if and only if the record has no key. -/
theorem load_keepsData_iff (t : α k) {f : FileContents} (hfile : fileOf d k = some f)
    (hbad : Undecodable (C k) t f) :
    KeepsData C mode d k t ↔ d.rocks[k.rocksKey]? = none := by
  constructor
  · rintro ⟨hfailed, -⟩
    by_contra hsome
    obtain ⟨value, hvalue⟩ := Option.ne_none_iff_exists'.mp hsome
    have hok : (load C mode d k t).result.1 = true := by
      unfold load
      rw [hvalue]
      cases value with
      | nil =>
        simp only [managerLoadFromFile_undecodable hfile hbad]
        split_ifs <;> rfl
      | cons b bs =>
        dsimp only
        split_ifs <;> rfl
    rw [hok] at hfailed
    cases hfailed
  · intro hnone
    have heq : load C mode d k t = ⟨[], (false, t)⟩ := by simp [load, hnone]
    simp [KeepsData, heq]

/-- A group whose file is seven bytes of text, seen before start-up marked it. -/
def garbled : Disk := Disk.empty.perform [.writeFile ["groups", "7.cfg"] (ascii "garbled")]

theorem undecodable_garbled (t : Bool) : Undecodable flagCodec t (some (ascii "garbled")) := by
  revert t
  unfold Undecodable
  decide

theorem load_keepsData_iff_garbled :
    KeepsData (fun _ => flagCodec) .rocksdb garbled ⟨.groups, 7, by decide, by decide⟩ false :=
  (load_keepsData_iff (C := fun _ => flagCodec) (d := garbled) false
    (f := some (ascii "garbled")) rfl (undecodable_garbled false)).mpr (by decide)

/-- The same group after start-up: `Load` in rocksdb mode reports success. -/
theorem load_garbled_succeeds :
    let d := garbled.perform (initializeRocksdb garbled)
    let k : StoreKey := ⟨.groups, 7, by decide, by decide⟩
    fileOf d k = some (some (ascii "garbled")) ∧
      Undecodable flagCodec false (some (ascii "garbled")) ∧
      ¬ KeepsData (fun _ => flagCodec) .rocksdb d k false := by
  refine ⟨rfl, undecodable_garbled false, ?_⟩
  rintro ⟨hfailed, -⟩
  exact absurd hfailed (by decide)

end NekoBox.Database
