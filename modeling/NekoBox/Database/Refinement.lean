import NekoBox.Database.Manager

/-!
# The database manager refines a map of records

The abstract store is a `Table`: each record is absent or has the contents of
its last successful `Save`. `Represents` relates a disk to a table:

* an absent record has no RocksDB key and no file;
* a present record is either a non-empty RocksDB value and no file, or a
  marker and a file that decodes to the contents.

Every operation of the manager preserves the relation in every mode
(`represents_step`), so `Load` and `Query` read the table
(`load_eq_lastSaved`). `recordAt_perform_of_ne` is the frame rule: the steps of
an operation on one record leave every other record as it is.
-/

namespace NekoBox.Database

open NekoBox.Lib

variable {α : StoreKey → Type}

/-! ## The abstract store -/

/-- The contents of every record, `none` for an absent one. -/
abbrev Table (α : StoreKey → Type) := ∀ k : StoreKey, Option (α k)

/-- The calls that reach the database manager. -/
inductive Op (α : StoreKey → Type) where
  | save (k : StoreKey) (s : α k)
  | load (k : StoreKey) (t : α k)
  | drop (k : StoreKey)
  | setConfigType (mode : DatabaseType)
  | restart

/-- A successful `Save` or `Drop` is recorded. -/
def Table.record (T : Table α) : Op α → Bool → Table α
  | .save k s, true => Function.update T k (some s)
  | .drop k, true => Function.update T k none
  | _, _ => T

/-! ## The manager as a machine -/

/-- The disk and `config_type`. -/
structure State where
  disk : Disk
  configType : DatabaseType

/-- The steps and the success of a call. -/
def Op.effect (C : ∀ k, StoreCodec (α k)) (st : State) : Op α → Effect Bool
  | .save k s => Database.save C st.configType st.disk k s
  | .load k t =>
    let e := Database.load C st.configType st.disk k t
    ⟨e.steps, e.result.1⟩
  | .drop k => Database.drop k
  | .setConfigType _ => ⟨[], true⟩
  | .restart => ⟨initializeRocksdb st.disk, true⟩

/-- `config_type` after the call. -/
def Op.configType (mode : DatabaseType) : Op α → DatabaseType
  | .setConfigType mode' => mode'
  | _ => mode

/-- A call, from its first to its last step. -/
def State.next (C : ∀ k, StoreCodec (α k)) (st : State) (op : Op α) : State :=
  ⟨st.disk.perform (op.effect C st).steps, op.configType st.configType⟩

/-- The manager, with the table of what was last saved beside it. -/
def manager (C : ∀ k, StoreCodec (α k)) : Lib.Machine (State × Table α) (Op α) where
  step := fun (st, T) op => some (st.next C op, T.record op (op.effect C st).result)

/-! ## The relation -/

/-- The file of a record, if it exists. -/
def fileOf (d : Disk) (k : StoreKey) : Option FileContents := k.fileName.bind fun p => d.files[p]?

/-- How a record with the contents `v` is stored. -/
def RecordAt (C : ∀ k, StoreCodec (α k)) (d : Disk) (k : StoreKey) : Option (α k) → Prop
  | none => d.rocks[k.rocksKey]? = none ∧ fileOf d k = none
  | some s =>
    (d.rocks[k.rocksKey]? = some ((C k).toBytes s) ∧ fileOf d k = none) ∨
      (d.rocks[k.rocksKey]? = some [] ∧
        ∃ bytes, fileOf d k = some (some bytes) ∧ (C k).Decodes bytes s)

/-- Nothing but records is on the disk. -/
structure Disk.OnlyRecords (d : Disk) : Prop where
  key_known : ∀ key ∈ d.rocks, ∃ k : StoreKey, key = k.rocksKey
  file_known : ∀ p ∈ d.files, ∃ k : StoreKey, k.fileName = some p

/-- The disk stores the table. -/
structure Represents (C : ∀ k, StoreCodec (α k)) (d : Disk) (T : Table α) : Prop where
  onlyRecords : d.OnlyRecords
  record : ∀ k, RecordAt C d k (T k)

/-! ## The frame rule -/

/-- The step changes nothing but the record `k`. -/
def DiskStep.Touches (k : StoreKey) : DiskStep → Prop
  | .writeFile p _ => k.fileName = some p
  | .removeFile p => k.fileName = some p
  | .put batch => ∃ v, batch = [(k.rocksKey, v)]
  | .delete key => key = k.rocksKey

theorem rocks_apply_of_ne {d : Disk} {k k' : StoreKey} {step : DiskStep} (h : step.Touches k)
    (hne : k' ≠ k) : (d.apply step).rocks[k'.rocksKey]? = d.rocks[k'.rocksKey]? := by
  have hkey : k.rocksKey ≠ k'.rocksKey := fun he => hne (rocksKey_injective he).symm
  cases step with
  | writeFile p bs => rfl
  | removeFile p => rfl
  | put batch =>
    obtain ⟨v, rfl⟩ := h
    simp [hkey]
  | delete key =>
    cases h
    simp [hkey]

theorem fileOf_apply_of_ne {d : Disk} {k k' : StoreKey} {step : DiskStep} (h : step.Touches k)
    (hne : k' ≠ k) : fileOf (d.apply step) k' = fileOf d k' := by
  unfold fileOf
  cases hk' : k'.fileName with
  | none => rfl
  | some q =>
    have hpath : ∀ p, k.fileName = some p → p ≠ q := by
      rintro p hp rfl
      exact hne (fileName_injective hk' hp)
    cases step with
    | writeFile p bs => simp [hpath p h]
    | removeFile p => simp [hpath p h]
    | put batch => rfl
    | delete key => rfl

theorem onlyRecords_apply {d : Disk} (hd : d.OnlyRecords) {k : StoreKey} {step : DiskStep}
    (h : step.Touches k) : (d.apply step).OnlyRecords := by
  refine ⟨fun key hkey => ?_, fun p hp => ?_⟩
  · rw [Std.ExtTreeMap.mem_iff_isSome_getElem?] at hkey
    cases step with
    | writeFile q bs => exact hd.key_known key (Std.ExtTreeMap.mem_iff_isSome_getElem?.mpr hkey)
    | removeFile q => exact hd.key_known key (Std.ExtTreeMap.mem_iff_isSome_getElem?.mpr hkey)
    | put batch =>
      obtain ⟨v, rfl⟩ := h
      by_cases he : k.rocksKey = key
      · exact ⟨k, he.symm⟩
      · rw [Disk.rocks_put_one, if_neg he] at hkey
        exact hd.key_known key (Std.ExtTreeMap.mem_iff_isSome_getElem?.mpr hkey)
    | delete key' =>
      rw [Disk.rocks_delete] at hkey
      split_ifs at hkey
      · simp at hkey
      · exact hd.key_known key (Std.ExtTreeMap.mem_iff_isSome_getElem?.mpr hkey)
  · rw [Std.ExtTreeMap.mem_iff_isSome_getElem?] at hp
    cases step with
    | writeFile q bs =>
      by_cases he : q = p
      · exact ⟨k, he ▸ h⟩
      · rw [Disk.files_writeFile, if_neg he] at hp
        exact hd.file_known p (Std.ExtTreeMap.mem_iff_isSome_getElem?.mpr hp)
    | removeFile q =>
      rw [Disk.files_removeFile] at hp
      split_ifs at hp
      · simp at hp
      · exact hd.file_known p (Std.ExtTreeMap.mem_iff_isSome_getElem?.mpr hp)
    | put batch => exact hd.file_known p (Std.ExtTreeMap.mem_iff_isSome_getElem?.mpr hp)
    | delete key' => exact hd.file_known p (Std.ExtTreeMap.mem_iff_isSome_getElem?.mpr hp)

/-- The steps leave the disk with records only, and every other record as it is. -/
theorem perform_frame {k : StoreKey} :
    ∀ {steps : List DiskStep} {d : Disk}, (∀ step ∈ steps, step.Touches k) → d.OnlyRecords →
      (d.perform steps).OnlyRecords ∧ ∀ k' ≠ k,
        (d.perform steps).rocks[k'.rocksKey]? = d.rocks[k'.rocksKey]? ∧
          fileOf (d.perform steps) k' = fileOf d k' := by
  intro steps
  induction steps with
  | nil => exact fun _ hd => ⟨hd, fun _ _ => ⟨rfl, rfl⟩⟩
  | cons step steps ih =>
    intro d htouch hd
    have hstep := htouch step (by simp)
    obtain ⟨honly, hframe⟩ := ih (fun s hs => htouch s (List.mem_cons_of_mem _ hs))
      (onlyRecords_apply hd hstep)
    refine ⟨honly, fun k' hne => ?_⟩
    obtain ⟨hrocks, hfile⟩ := hframe k' hne
    exact ⟨hrocks.trans (rocks_apply_of_ne hstep hne), hfile.trans (fileOf_apply_of_ne hstep hne)⟩

theorem recordAt_congr {C : ∀ k, StoreCodec (α k)} {d d' : Disk} {k : StoreKey} {v : Option (α k)}
    (hrocks : d'.rocks[k.rocksKey]? = d.rocks[k.rocksKey]?) (hfile : fileOf d' k = fileOf d k)
    (h : RecordAt C d k v) : RecordAt C d' k v := by
  cases v <;> simpa only [RecordAt, hrocks, hfile] using h

/-- An operation on the record `k` stores a new table when it stores the new
    contents of `k`. -/
theorem represents_perform {C : ∀ k, StoreCodec (α k)} {d : Disk} {T : Table α}
    (h : Represents C d T) {k : StoreKey} {steps : List DiskStep}
    (htouch : ∀ step ∈ steps, step.Touches k) {v : Option (α k)}
    (hk : RecordAt C (d.perform steps) k v) :
    Represents C (d.perform steps) (Function.update T k v) := by
  obtain ⟨honly, hframe⟩ := perform_frame htouch h.onlyRecords
  refine ⟨honly, fun k' => ?_⟩
  by_cases he : k' = k
  · subst he
    rwa [Function.update_self]
  · rw [Function.update_of_ne he]
    exact recordAt_congr (hframe k' he).1 (hframe k' he).2 (h.record k')

/-! ## What each operation does to its record -/

section Operations

variable {C : ∀ k, StoreCodec (α k)} (hC : ∀ k, (C k).Lawful) {mode : DatabaseType} {d : Disk}
  {k : StoreKey}

theorem fileOf_eq {p : Path} (hp : k.fileName = some p) (d : Disk) : fileOf d k = d.files[p]? := by
  rw [fileOf, hp, Option.bind_some]

theorem fileOf_eq_none (hp : k.fileName = none) (d : Disk) : fileOf d k = none := by
  rw [fileOf, hp, Option.bind_none]

theorem perform_writes (p : Path) :
    ∀ (contents : List Bytes) (d : Disk),
      (d.perform (contents.map (.writeFile p))).rocks = d.rocks ∧
        (d.perform (contents.map (.writeFile p))).files[p]? =
          (contents.getLast?.map some).or d.files[p]? := by
  intro contents
  induction contents with
  | nil => exact fun d => ⟨rfl, by simp⟩
  | cons bs rest ih =>
    intro d
    obtain ⟨hrocks, hfile⟩ := ih (d.apply (.writeFile p bs))
    refine ⟨hrocks, hfile.trans ?_⟩
    cases rest with
    | nil => simp
    | cons b rest => simp [List.getLast?_cons]

/-- `DropFromDirectory` leaves no file of the record and RocksDB as it is. -/
theorem perform_dropFromDirectory (d : Disk) (k : StoreKey) :
    (d.perform (dropFromDirectory k)).rocks = d.rocks ∧
      fileOf (d.perform (dropFromDirectory k)) k = none := by
  cases hp : k.fileName with
  | none => simp [dropFromDirectory, hp, fileOf_eq_none hp]
  | some p => simp [dropFromDirectory, hp, fileOf_eq hp]

theorem touches_dropFromDirectory (k : StoreKey) :
    ∀ step ∈ dropFromDirectory k, step.Touches k := by
  intro step hstep
  cases hp : k.fileName with
  | none => simp [dropFromDirectory, hp] at hstep
  | some p =>
    obtain rfl : step = .removeFile p := by simpa [dropFromDirectory, hp] using hstep
    exact hp

/-- The contents `SaveToFile` gives the file, one for each write. -/
def savedContents (C : ∀ k, StoreCodec (α k)) (mode : DatabaseType) (d : Disk) (k : StoreKey)
    (s : α k) : List Bytes :=
  if mode = .ini then (C k).saveINI (fileOf d k).join s else [(C k).content (mode = .json) s]

theorem saveToFile_of_none (hp : k.fileName = none) (s : α k) :
    saveToFile C mode d k s = ⟨[], false⟩ := by
  simp [saveToFile, hp]

theorem saveToFile_of_some {p : Path} (hp : k.fileName = some p) (s : α k) :
    saveToFile C mode d k s = ⟨(savedContents C mode d k s).map (.writeFile p), true⟩ := by
  unfold saveToFile savedContents
  rw [hp, fileOf_eq hp]
  by_cases hmode : mode = .ini <;> simp [hmode]

include hC in
theorem savedContents_last (s : α k) :
    ∃ bytes, (savedContents C mode d k s).getLast? = some bytes ∧ (C k).Decodes bytes s := by
  unfold savedContents
  split_ifs
  · exact (hC k).decodes_saveINI _ s
  · exact ⟨_, rfl, (hC k).decodes_content _ s⟩

theorem touches_saveToFile (s : α k) :
    ∀ step ∈ (saveToFile C mode d k s).steps, step.Touches k := by
  intro step hstep
  cases hp : k.fileName with
  | none => simp [saveToFile_of_none hp] at hstep
  | some p =>
    rw [saveToFile_of_some hp, List.mem_map] at hstep
    obtain ⟨bs, -, rfl⟩ := hstep
    exact hp

include hC in
/-- Writing the file and then the marker stores the record in its file. -/
theorem recordAt_saveToFile (s : α k) (h : (saveToFile C mode d k s).result = true) :
    RecordAt C (d.perform ((saveToFile C mode d k s).steps ++ [clearRocksdb k])) k (some s) := by
  cases hp : k.fileName with
  | none => simp [saveToFile_of_none hp] at h
  | some p =>
    rw [saveToFile_of_some hp, Disk.perform_append]
    obtain ⟨bytes, hlast, hdecodes⟩ : ∃ bytes, (savedContents C mode d k s).getLast? = some bytes ∧
        (C k).Decodes bytes s := savedContents_last hC s
    obtain ⟨-, hfile⟩ := perform_writes p (savedContents C mode d k s) d
    refine .inr ⟨by simp [clearRocksdb], bytes, ?_, hdecodes⟩
    simp [fileOf_eq hp, clearRocksdb, hfile, hlast]

theorem recordAt_writeRocksdb (s : α k) :
    RecordAt C (d.perform (writeRocksdb C k s :: dropFromDirectory k)) k (some s) := by
  obtain ⟨hrocks, hfile⟩ := perform_dropFromDirectory (d.apply (writeRocksdb C k s)) k
  exact .inl ⟨by rw [Disk.perform_cons, hrocks]; simp [writeRocksdb], hfile⟩

include hC in
/-- A successful `Save` stores the record, in every mode. -/
theorem recordAt_save (s : α k) (h : (save C mode d k s).result = true) :
    RecordAt C (d.perform (save C mode d k s).steps) k (some s) := by
  unfold save at h ⊢
  dsimp only at h ⊢
  split_ifs at h ⊢ with hmode hfile
  · exact recordAt_writeRocksdb s
  · exact recordAt_saveToFile hC s hfile
  · exact absurd h hfile

theorem save_steps_of_false (s : α k) (h : (save C mode d k s).result = false) :
    (save C mode d k s).steps = [] := by
  unfold save at h ⊢
  dsimp only at h ⊢
  split_ifs at h ⊢ with hmode hfile
  cases hp : k.fileName with
  | none => simp [saveToFile_of_none hp]
  | some p => simp [saveToFile_of_some hp] at hfile

theorem touches_save (s : α k) : ∀ step ∈ (save C mode d k s).steps, step.Touches k := by
  intro step hstep
  unfold save at hstep
  dsimp only at hstep
  split_ifs at hstep with hmode hfile
  · rcases List.mem_cons.mp hstep with rfl | hstep
    · exact ⟨_, rfl⟩
    · exact touches_dropFromDirectory k step hstep
  · rcases List.mem_append.mp hstep with hstep | hstep
    · exact touches_saveToFile s step hstep
    · obtain rfl := List.mem_singleton.mp hstep
      exact ⟨_, rfl⟩
  · exact touches_saveToFile s step hstep

/-- `Load` of an absent record fails and does nothing. -/
theorem load_of_none (t : α k) (h : RecordAt C d k none) :
    load C mode d k t = ⟨[], (false, t)⟩ := by
  simp [load, h.1]

theorem loadFromFile_of_file {bytes : Bytes} {s : α k} (hfile : fileOf d k = some (some bytes))
    (hdecodes : (C k).Decodes bytes s) (t : α k) : loadFromFile C d k t = (true, s) := by
  cases hp : k.fileName with
  | none => simp [fileOf_eq_none hp] at hfile
  | some p =>
    rw [fileOf_eq hp] at hfile
    simp [loadFromFile, hp, hfile, hdecodes t]

include hC in
/-- `Load` of a stored record returns its contents and leaves it stored. -/
theorem load_of_some (s t : α k) (h : RecordAt C d k (some s)) :
    (load C mode d k t).result = (true, s) ∧
      RecordAt C (d.perform (load C mode d k t).steps) k (some s) := by
  rcases h with ⟨hrocks, hfile⟩ | ⟨hrocks, bytes, hfile, hdecodes⟩
  · obtain ⟨b, bs, hbytes⟩ := List.exists_cons_of_ne_nil ((hC k).toBytes_ne_nil s)
    have hs : (C k).fromBytes t (b :: bs) = s := by rw [← hbytes, (hC k).fromBytes_toBytes]
    rw [hbytes] at hrocks
    unfold load
    simp only [hrocks, hs]
    split_ifs with hmode hsaved
    · exact ⟨rfl, .inl ⟨by rw [hbytes]; exact hrocks, hfile⟩⟩
    · exact ⟨rfl, recordAt_saveToFile hC s hsaved⟩
    · exact ⟨rfl, .inl ⟨by rw [hbytes]; exact hrocks, hfile⟩⟩
  · have hload : loadFromFile C d k t = (true, s) := loadFromFile_of_file hfile hdecodes t
    unfold load
    simp only [hrocks, hload, true_and]
    split_ifs with hmode
    · exact ⟨rfl, recordAt_writeRocksdb s⟩
    · exact ⟨rfl, .inr ⟨hrocks, bytes, hfile, hdecodes⟩⟩

theorem touches_load (t : α k) : ∀ step ∈ (load C mode d k t).steps, step.Touches k := by
  intro step hstep
  unfold load at hstep
  split at hstep
  · simp at hstep
  · next b bs _ =>
    dsimp only at hstep
    split_ifs at hstep
    · simp at hstep
    · rcases List.mem_append.mp hstep with hstep | hstep
      · exact touches_saveToFile _ step hstep
      · obtain rfl := List.mem_singleton.mp hstep
        exact ⟨_, rfl⟩
    · simp at hstep
  · dsimp only at hstep
    split_ifs at hstep
    · rcases List.mem_cons.mp hstep with rfl | hstep
      · exact ⟨_, rfl⟩
      · exact touches_dropFromDirectory k step hstep
    · simp at hstep

/-- `Drop` leaves nothing of the record. -/
theorem recordAt_drop : RecordAt C (d.perform (drop k).steps) k none := by
  obtain ⟨-, hfile⟩ := perform_dropFromDirectory d k
  rw [drop, Disk.perform_append]
  exact ⟨by simp [dropRocksdb], hfile⟩

theorem touches_drop (k : StoreKey) : ∀ step ∈ (drop k).steps, step.Touches k := by
  intro step hstep
  rcases List.mem_append.mp hstep with hstep | hstep
  · exact touches_dropFromDirectory k step hstep
  · obtain rfl := List.mem_singleton.mp hstep
    rfl

end Operations

/-! ## Start-up -/

theorem getJsonStorePathName_eq_none_iff (type : JsonStoreType) :
    getJsonStorePathName type = none ↔ type ∈ commonTypes := by
  cases type <;> decide

theorem mem_directoryTypes {type : JsonStoreType} {dir : String}
    (h : getJsonStorePathName type = some dir) : type ∈ directoryTypes := by
  cases type <;> first | decide | simp [getJsonStorePathName] at h

/-- `initialize_rocksdb` marks exactly the records that have a file. -/
theorem mem_markedKeys {d : Disk} (hd : d.OnlyRecords) {key : Bytes} :
    key ∈ markedKeys d ↔ ∃ k : StoreKey, key = k.rocksKey ∧ (fileOf d k).isSome := by
  unfold markedKeys
  simp only [List.mem_append, List.mem_flatMap, List.mem_map, List.mem_filter, decide_eq_true_eq]
  constructor
  · rintro (⟨c, -, x, hx, rfl⟩ | ⟨c, ⟨hc, hfile⟩, rfl⟩)
    · obtain ⟨dir, e, hdir, hmem, hid⟩ := mem_queryFromDirectory.mp hx
      obtain ⟨k, hk⟩ := hd.file_known _ hmem
      rcases fileName_eq_some.mp hk with ⟨dir', hdir', -, hpath⟩ | ⟨hcommon, hpath⟩
      · obtain ⟨rfl, rfl⟩ : dir = dir' ∧ e = entryName k.id := by simpa using hpath
        obtain rfl : k.id = x := by simpa [entryId_entryName k.isInt] using hid
        refine ⟨k, by rw [StoreKey.rocksKey, getJsonStorePathName_injective hdir' hdir], ?_⟩
        rwa [fileOf_eq hk, ← Std.ExtTreeMap.mem_iff_isSome_getElem?]
      · exact absurd hpath.symm (commonFileName_ne hcommon hdir)
    · have hnone := (getJsonStorePathName_eq_none_iff c).mpr hc
      let k : StoreKey := ⟨c, 0, by decide, fun _ => rfl⟩
      have hk : k.fileName = some (commonFileName c) := fileName_eq_some.mpr (.inr ⟨hnone, rfl⟩)
      refine ⟨k, rfl, ?_⟩
      rwa [fileOf_eq hk, ← Std.ExtTreeMap.mem_iff_isSome_getElem?]
  · rintro ⟨k, rfl, hfile⟩
    cases hp : k.fileName with
    | none => simp [fileOf_eq_none hp] at hfile
    | some p =>
      rw [fileOf_eq hp, ← Std.ExtTreeMap.mem_iff_isSome_getElem?] at hfile
      rcases fileName_eq_some.mp hp with ⟨dir, hdir, -, rfl⟩ | ⟨hcommon, rfl⟩
      · exact .inl ⟨k.type, mem_directoryTypes hdir, k.id, mem_queryFromDirectory.mpr
          ⟨dir, _, hdir, hfile, entryId_entryName k.isInt⟩, rfl⟩
      · refine .inr ⟨k.type, ⟨(getJsonStorePathName_eq_none_iff _).mp hcommon, hfile⟩, ?_⟩
        rw [StoreKey.rocksKey, k.common hcommon]

/-- The disk after start-up: every record with a file has a marker. -/
theorem initializeRocksdb_spec {d : Disk} (hd : d.OnlyRecords) :
    (d.perform (initializeRocksdb d)).OnlyRecords ∧ ∀ k : StoreKey,
      fileOf (d.perform (initializeRocksdb d)) k = fileOf d k ∧
        (d.perform (initializeRocksdb d)).rocks[k.rocksKey]? =
          if (fileOf d k).isSome then some [] else d.rocks[k.rocksKey]? := by
  have hmarked : ∀ key, key ∈ markedKeys d ↔
      ∃ k : StoreKey, key = k.rocksKey ∧ (fileOf d k).isSome := fun _ => mem_markedKeys hd
  have hrocks : ∀ key, (d.perform (initializeRocksdb d)).rocks[key]? =
      if key ∈ markedKeys d then some [] else d.rocks[key]? := Disk.rocks_put_all d _ []
  refine ⟨⟨fun key hkey => ?_, hd.file_known⟩, fun k => ⟨rfl, ?_⟩⟩
  · rw [Std.ExtTreeMap.mem_iff_isSome_getElem?, hrocks] at hkey
    split_ifs at hkey with h
    · obtain ⟨k, rfl, -⟩ := (hmarked key).mp h
      exact ⟨k, rfl⟩
    · exact hd.key_known key (Std.ExtTreeMap.mem_iff_isSome_getElem?.mpr hkey)
  · rw [hrocks]
    have hiff : k.rocksKey ∈ markedKeys d ↔ (fileOf d k).isSome := by
      rw [hmarked]
      constructor
      · rintro ⟨k', hk', hfile⟩
        rwa [rocksKey_injective hk']
      · exact fun h => ⟨k, rfl, h⟩
    simp [hiff]

/-- Start-up keeps a record that is stored. -/
theorem recordAt_initializeRocksdb {C : ∀ k, StoreCodec (α k)} {d : Disk} (hd : d.OnlyRecords)
    {k : StoreKey} {v : Option (α k)} (h : RecordAt C d k v) :
    RecordAt C (d.perform (initializeRocksdb d)) k v := by
  obtain ⟨hfile, hrocks⟩ := (initializeRocksdb_spec hd).2 k
  cases v with
  | none => exact ⟨hrocks.trans (by simp [h.2, h.1]), hfile.trans h.2⟩
  | some s =>
    rcases h with ⟨hval, hnone⟩ | ⟨hmark, bytes, hbytes, hdecodes⟩
    · exact .inl ⟨hrocks.trans (by simp [hnone, hval]), hfile.trans hnone⟩
    · exact .inr ⟨hrocks.trans (by simp [hbytes]), bytes, hfile.trans hbytes, hdecodes⟩

theorem represents_initializeRocksdb {C : ∀ k, StoreCodec (α k)} {d : Disk} {T : Table α}
    (h : Represents C d T) : Represents C (d.perform (initializeRocksdb d)) T :=
  ⟨(initializeRocksdb_spec h.onlyRecords).1,
    fun k => recordAt_initializeRocksdb h.onlyRecords (h.record k)⟩

/-! ## Runs -/

theorem represents_empty (C : ∀ k, StoreCodec (α k)) :
    Represents C Disk.empty (fun _ => none) := by
  refine ⟨⟨fun key h => ?_, fun p h => ?_⟩, fun k => ⟨by simp [Disk.empty], ?_⟩⟩
  · simp [Disk.empty] at h
  · simp [Disk.empty] at h
  · cases hp : k.fileName with
    | none => exact fileOf_eq_none hp _
    | some p => simp [fileOf_eq hp, Disk.empty]

variable {C : ∀ k, StoreCodec (α k)}

/-- Recording the contents a record already has changes nothing. -/
theorem represents_self {d : Disk} {T : Table α} {k : StoreKey} {v : Option (α k)}
    (h : Represents C d (Function.update T k v)) (hT : T k = v) : Represents C d T := by
  rwa [← hT, Function.update_eq_self] at h

/-- One call keeps the disk and the table together. -/
theorem represents_step (hC : ∀ k, (C k).Lawful) {st : State} {T : Table α} (op : Op α)
    (h : Represents C st.disk T) :
    Represents C (st.next C op).disk (T.record op (op.effect C st).result) := by
  cases op with
  | save k s =>
    cases hok : (save C st.configType st.disk k s).result with
    | true =>
      simp only [State.next, Op.effect, hok]
      exact represents_perform h (touches_save s) (recordAt_save hC s hok)
    | false =>
      simp only [State.next, Op.effect, hok, save_steps_of_false s hok]
      exact h
  | load k t =>
    have hrecord : Represents C (st.disk.perform (load C st.configType st.disk k t).steps)
        (Function.update T k (T k)) := by
      refine represents_perform h (touches_load t) ?_
      have hk := h.record k
      cases hT : T k with
      | none => rw [load_of_none t (hT ▸ hk)]; exact hT ▸ hk
      | some s => exact (load_of_some hC s t (hT ▸ hk)).2
    exact represents_self hrecord rfl
  | drop k => exact represents_perform h (touches_drop k) recordAt_drop
  | setConfigType mode => exact h
  | restart => exact represents_initializeRocksdb h

/-- What `Load` returns for a record with the contents `v`, called on the store `t`. -/
def loaded {β : Type} (t : β) : Option β → Bool × β
  | none => (false, t)
  | some s => (true, s)

theorem load_result (hC : ∀ k, (C k).Lawful) {mode : DatabaseType} {d : Disk} {k : StoreKey}
    (t : α k) {v : Option (α k)} (h : RecordAt C d k v) :
    (load C mode d k t).result = loaded t v := by
  cases v with
  | none => rw [load_of_none t h]; rfl
  | some s => exact (load_of_some hC s t h).1

/-- A record has a key exactly when it is stored. -/
theorem mem_rocks_iff {d : Disk} {T : Table α} (h : Represents C d T)
    (k : StoreKey) : k.rocksKey ∈ d.rocks ↔ (T k).isSome := by
  have hk := h.record k
  rw [Std.ExtTreeMap.mem_iff_isSome_getElem?]
  cases hT : T k with
  | none => rw [hT] at hk; simp [hk.1]
  | some s =>
    rw [hT] at hk
    rcases hk with ⟨hval, -⟩ | ⟨hmark, -⟩
    · simp [hval]
    · simp [hmark]

/-- **Main theorem.** From an empty directory and an empty RocksDB, after any
    calls in any modes and any clean restarts, `Load` returns what was last
    saved and `Query` the saved ids, each once. -/
theorem load_eq_lastSaved (hC : ∀ k, (C k).Lawful) {mode : DatabaseType} {ops : List (Op α)}
    {st : State} {T : Table α}
    (hrun : (manager C).run (⟨Disk.empty, mode⟩, fun _ => none) ops = some (st, T)) :
    (∀ (k : StoreKey) (t : α k), (load C st.configType st.disk k t).result = loaded t (T k)) ∧
      ∀ type, ∃ ids, queryRocksdb st.disk type = some ids ∧ ids.Nodup ∧
        ∀ i, i ∈ ids ↔ 0 ≤ i ∧ ∃ k : StoreKey, k.type = type ∧ k.id = i ∧ (T k).isSome := by
  have hinv : Represents C st.disk T :=
    Lib.Machine.run_invariant' (fun p : State × Table α => Represents C p.1.disk p.2)
      (fun p op p' hp hstep => by
        obtain rfl := (Option.some.inj hstep).symm
        exact represents_step hC op hp)
      (represents_empty C) hrun
  refine ⟨fun k t => load_result hC t (hinv.record k), fun type => ?_⟩
  obtain ⟨ids, hids, hnodup, hmem⟩ := queryRocksdb_eq hinv.onlyRecords.key_known
  refine ⟨ids, hids, hnodup, fun i => (hmem i).trans ?_⟩
  simp only [mem_rocks_iff hinv]

/-- A record saved in RocksDB, saved again as a JSON file, and loaded after a
    clean restart with `config_type` back at RocksDB. -/
theorem load_eq_lastSaved_moved :
    ∃ st : State,
      (load (fun _ => flagCodec) st.configType st.disk
        ⟨.groups, 7, by decide, by decide⟩ true).result = (true, false) ∧
      ∃ ids, queryRocksdb st.disk .groups = some ids ∧ 7 ∈ ids := by
  let k : StoreKey := ⟨.groups, 7, by decide, by decide⟩
  let ops : List (Op fun _ => Bool) :=
    [.save k true, .setConfigType .json, .save k false, .restart, .setConfigType .rocksdb]
  have hrun : (manager fun _ => flagCodec).run (⟨Disk.empty, .rocksdb⟩, fun _ => none) ops =
    some (_, _) := rfl
  obtain ⟨hload, hquery⟩ := load_eq_lastSaved (fun _ => flagCodec_lawful) hrun
  obtain ⟨ids, hids, -, hmem⟩ := hquery .groups
  exact ⟨_, hload k true, ids, hids, (hmem 7).mpr ⟨by decide, k, rfl, rfl, by decide⟩⟩

end NekoBox.Database
