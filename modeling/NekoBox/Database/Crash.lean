import NekoBox.Database.Refinement

/-!
# Stopping between two steps

The process may stop after any of the durable steps of a call and start again
(`Action.crash`); `initialize_rocksdb` then marks every record that has a file.
`History` is what the claim of crash safety allows: the stopped call had no
effect, or its whole effect, and it had its whole effect when `write_rocksdb`
had already succeeded.

Two cuts break this (`removalPending`), both between the two steps of a call
that removes a file:

* `Save` in rocksdb mode puts the new contents under the key and then removes
  the record's file. In between, start-up finds the old file and replaces the
  new contents by a marker (`save_then_stop_loses_version`).
* `Drop` removes the file and then the key. In between, the marker stays
  without a file, and `Load` succeeds with what the store held before.

So does a stop between two writes of one `SaveINI` (`iniWrites`). At every
other cut of every call in every mode the relation `Represents` is restored by
start-up (`crash_spec`), and runs with such stops only are safe
(`load_after_crashes`).
-/

namespace NekoBox.Database

open NekoBox.Lib

variable {α : StoreKey → Type}

/-- A whole call, or a call that stops after its first `n` steps, followed by
    start-up. -/
inductive Action (α : StoreKey → Type) where
  | call (op : Op α)
  | crash (op : Op α) (n : ℕ)

/-- The disk when the call stops after `n` steps. -/
def State.cut (C : ∀ k, StoreCodec (α k)) (st : State) (op : Op α) (n : ℕ) : Disk :=
  st.disk.perform ((op.effect C st).steps.take n)

/-- The state after the stop and the start-up. -/
def State.crash (C : ∀ k, StoreCodec (α k)) (st : State) (op : Op α) (n : ℕ) : State :=
  let d := st.cut C op n
  ⟨d.perform (initializeRocksdb d), st.configType⟩

/-- The manager with stops. -/
def crashManager (C : ∀ k, StoreCodec (α k)) : Lib.Machine State (Action α) where
  step := fun st => fun
    | .call op => some (st.next C op)
    | .crash op n => some (st.crash C op n)

/-- `write_rocksdb` had reported success when the call stopped. -/
def writeReported (mode : DatabaseType) (op : Op α) (n : ℕ) : Prop :=
  match op with
  | .save _ _ => mode = .rocksdb ∧ 1 ≤ n
  | _ => False

/-- The tables a run may lead to: a stopped call counts as never made or as
    completed. -/
inductive History (C : ∀ k, StoreCodec (α k)) :
    State → Table α → List (Action α) → State → Table α → Prop
  | nil {st : State} {T : Table α} : History C st T [] st T
  | call {st st' : State} {T T' : Table α} {op : Op α} {as : List (Action α)} :
      History C (st.next C op) (T.record op (op.effect C st).result) as st' T' →
      History C st T (.call op :: as) st' T'
  | lost {st st' : State} {T T' : Table α} {op : Op α} {n : ℕ} {as : List (Action α)} :
      ¬ writeReported st.configType op n → History C (st.crash C op n) T as st' T' →
      History C st T (.crash op n :: as) st' T'
  | landed {st st' : State} {T T' : Table α} {op : Op α} {n : ℕ} {as : List (Action α)} :
      History C (st.crash C op n) (T.record op true) as st' T' →
      History C st T (.crash op n :: as) st' T'

section

variable {C : ∀ k, StoreCodec (α k)} {st st' : State} {T T' : Table α} {op : Op α} {n : ℕ}
  {as : List (Action α)}

theorem history_nil : History C st T [] st' T' ↔ st = st' ∧ T = T' := by
  constructor
  · rintro ⟨⟩
    exact ⟨rfl, rfl⟩
  · rintro ⟨rfl, rfl⟩
    exact .nil

theorem history_call : History C st T (.call op :: as) st' T' ↔
    History C (st.next C op) (T.record op (op.effect C st).result) as st' T' := by
  constructor
  · rintro ⟨⟩
    assumption
  · exact .call

theorem history_crash : History C st T (.crash op n :: as) st' T' ↔
    (¬ writeReported st.configType op n ∧ History C (st.crash C op n) T as st' T') ∨
      History C (st.crash C op n) (T.record op true) as st' T' := by
  constructor
  · intro h
    cases h with
    | lost hnot h => exact .inl ⟨hnot, h⟩
    | landed h => exact .inr h
  · rintro (⟨hnot, h⟩ | h)
    · exact .lost hnot h
    · exact .landed h

end

/-! ## The cuts that are safe -/

/-- The writes of `SaveINI` among the steps of the call. -/
def iniWrites (C : ∀ k, StoreCodec (α k)) (st : State) : Op α → ℕ
  | .save k s =>
    if st.configType = .ini then (savedContents C .ini st.disk k s).length else 0
  | .load k t =>
    match st.disk.rocks[k.rocksKey]? with
    | some (b :: bs) =>
      if st.configType = .ini then
        (savedContents C .ini st.disk k ((C k).fromBytes t (b :: bs))).length
      else 0
    | _ => 0
  | _ => 0

/-- The call removes the record's file in one of two steps. -/
def removesFile (st : State) : Op α → Prop
  | .save k _ => st.configType = .rocksdb ∧ (fileOf st.disk k).isSome
  | .drop k => (fileOf st.disk k).isSome
  | _ => False

/-- The stop is neither inside a `SaveINI` nor between the two steps of a `Save`
    or `Drop` that removes a file. -/
def SafeCut (C : ∀ k, StoreCodec (α k)) (st : State) : Action α → Prop
  | .call _ => True
  | .crash op n => (n = 0 ∨ iniWrites C st op ≤ n) ∧ ¬ (n = 1 ∧ removesFile st op)

/-! ## Start-up after a stop -/

section Recovery

variable {C : ∀ k, StoreCodec (α k)} {d : Disk} {k : StoreKey}

/-- Start-up stores what the file of the record decodes to, whatever its key holds. -/
theorem recordAt_initializeRocksdb_of_file (hd : d.OnlyRecords) {bytes : Bytes} {s : α k}
    (hfile : fileOf d k = some (some bytes)) (hdecodes : (C k).Decodes bytes s) :
    RecordAt C (d.perform (initializeRocksdb d)) k (some s) := by
  obtain ⟨hfile', hrocks⟩ := (initializeRocksdb_spec hd).2 k
  exact .inr ⟨hrocks.trans (by simp [hfile]), bytes, hfile'.trans hfile, hdecodes⟩

/-- A stop after steps on the record `k` stores a new table once start-up
    stores the new contents of `k`. -/
theorem represents_recover {T : Table α} (h : Represents C d T) {steps : List DiskStep}
    (htouch : ∀ step ∈ steps, step.Touches k) {v : Option (α k)}
    (hk : let d' := d.perform steps; RecordAt C (d'.perform (initializeRocksdb d')) k v) :
    let d' := d.perform steps
    Represents C (d'.perform (initializeRocksdb d')) (Function.update T k v) := by
  obtain ⟨honly, hframe⟩ := perform_frame htouch h.onlyRecords
  refine ⟨(initializeRocksdb_spec honly).1, fun k' => ?_⟩
  by_cases he : k' = k
  · subst he
    rwa [Function.update_self]
  · rw [Function.update_of_ne he]
    exact recordAt_initializeRocksdb honly
      (recordAt_congr (hframe k' he).1 (hframe k' he).2 (h.record k'))

end Recovery

/-! ## The cuts of each call -/

section Cuts

variable {C : ∀ k, StoreCodec (α k)} (hC : ∀ k, (C k).Lawful) {mode : DatabaseType} {d : Disk}
  {k : StoreKey} {n : ℕ}

/-- What start-up makes of the record `k` after the steps `steps`. -/
abbrev RecoversTo (C : ∀ k, StoreCodec (α k)) (d : Disk) (k : StoreKey) (steps : List DiskStep)
    (v : Option (α k)) : Prop :=
  let d' := d.perform steps
  RecordAt C (d'.perform (initializeRocksdb d')) k v

theorem recoversTo_of_recordAt (hd : d.OnlyRecords) {steps : List DiskStep}
    (htouch : ∀ step ∈ steps, step.Touches k) {v : Option (α k)}
    (h : RecordAt C (d.perform steps) k v) : RecoversTo C d k steps v :=
  recordAt_initializeRocksdb (perform_frame htouch hd).1 h

theorem recoversTo_nil (hd : d.OnlyRecords) {v : Option (α k)} (h : RecordAt C d k v) :
    RecoversTo C d k [] v :=
  recordAt_initializeRocksdb hd h

include hC in
/-- `SaveToFile` and the marker, stopped outside `SaveINI`: the record is as it
    was before the first write, and saved from the last write on. -/
theorem recoversTo_saveToFile (hd : d.OnlyRecords) (s : α k) {v : Option (α k)}
    (hk : RecordAt C d k v) (hok : (saveToFile C mode d k s).result = true)
    (hn : n = 0 ∨ (mode = .ini → (savedContents C mode d k s).length ≤ n)) :
    let steps := ((saveToFile C mode d k s).steps ++ [clearRocksdb k]).take n
    RecoversTo C d k steps v ∨ RecoversTo C d k steps (some s) := by
  intro steps
  cases hp : k.fileName with
  | none => simp [saveToFile_of_none hp] at hok
  | some p =>
    have hsteps : steps =
        ((savedContents C mode d k s).map (DiskStep.writeFile p) ++ [clearRocksdb k]).take n := by
      simp [steps, saveToFile_of_some hp]
    have htouch : ∀ step ∈ steps, step.Touches k := by
      intro step hstep
      rcases List.mem_append.mp (List.mem_of_mem_take hstep) with hstep | hstep
      · exact touches_saveToFile s step hstep
      · obtain rfl := List.mem_singleton.mp hstep
        exact ⟨_, rfl⟩
    by_cases hzero : n = 0
    · refine .inl ?_
      rw [hsteps, hzero, List.take_zero]
      exact recoversTo_nil hd hk
    · -- every write is done, so the file holds the new contents
      have hlen : (savedContents C mode d k s).length ≤ n := by
        by_cases hmode : mode = .ini
        · exact (hn.resolve_left hzero) hmode
        · simp only [savedContents, hmode, if_false, List.length_singleton]
          omega
      obtain ⟨bytes, hlast, hdecodes⟩ : ∃ bytes, (savedContents C mode d k s).getLast? = some bytes ∧
        (C k).Decodes bytes s := savedContents_last hC s
      have hsplit : steps = (savedContents C mode d k s).map (DiskStep.writeFile p) ++
          [clearRocksdb k].take (n - (savedContents C mode d k s).length) := by
        rw [hsteps, List.take_append, List.length_map, List.take_of_length_le (by simpa using hlen)]
      have hfile : fileOf (d.perform steps) k = some (some bytes) := by
        obtain ⟨-, hwrites⟩ := perform_writes p (savedContents C mode d k s) d
        rw [fileOf_eq hp, hsplit, Disk.perform_append]
        generalize n - (savedContents C mode d k s).length = m
        cases m with
        | zero => simp [hwrites, hlast]
        | succ m => simp [clearRocksdb, hwrites, hlast]
      exact .inr (recordAt_initializeRocksdb_of_file (perform_frame htouch hd).1 hfile hdecodes)

theorem length_dropFromDirectory (k : StoreKey) : (dropFromDirectory k).length ≤ 1 := by
  unfold dropFromDirectory
  split <;> simp

/-- `write_rocksdb` and the removal of the file. Between the two, start-up
    stores what the file holds, if there is one. -/
theorem recoversTo_writeRocksdb (hd : d.OnlyRecords) (s : α k) {v : Option (α k)}
    (hk : RecordAt C d k v)
    (hn : n = 1 → fileOf d k = none ∨
      ∃ bytes, fileOf d k = some (some bytes) ∧ (C k).Decodes bytes s) :
    let steps := (writeRocksdb C k s :: dropFromDirectory k).take n
    (n = 0 ∧ RecoversTo C d k steps v) ∨ RecoversTo C d k steps (some s) := by
  intro steps
  have htouch : ∀ step ∈ steps, step.Touches k := by
    intro step hstep
    rcases List.mem_cons.mp (List.mem_of_mem_take hstep) with rfl | hstep
    · exact ⟨_, rfl⟩
    · exact touches_dropFromDirectory k step hstep
  obtain rfl | rfl | htwo : n = 0 ∨ n = 1 ∨ 2 ≤ n := by omega
  · exact .inl ⟨rfl, recoversTo_nil hd hk⟩
  · have hfile : fileOf (d.perform steps) k = fileOf d k := rfl
    rcases hn rfl with hnone | ⟨bytes, hbytes, hdecodes⟩
    · refine .inr (recoversTo_of_recordAt hd htouch (.inl ⟨?_, hfile.trans hnone⟩))
      simp [steps, writeRocksdb]
    · exact .inr (recordAt_initializeRocksdb_of_file (perform_frame htouch hd).1
        (hfile.trans hbytes) hdecodes)
  · have hall : steps = writeRocksdb C k s :: dropFromDirectory k := by
      have := length_dropFromDirectory k
      exact List.take_of_length_le (by simp only [List.length_cons]; omega)
    refine .inr (recoversTo_of_recordAt hd htouch ?_)
    rw [hall]
    exact recordAt_writeRocksdb s

/-- `Drop`, not stopped between the removal of an existing file and of the key. -/
theorem recoversTo_drop (hd : d.OnlyRecords) {v : Option (α k)} (hk : RecordAt C d k v)
    (hn : n = 1 → fileOf d k = none) :
    let steps := (drop k).steps.take n
    RecoversTo C d k steps v ∨ RecoversTo C d k steps none := by
  intro steps
  have htouch : ∀ step ∈ steps, step.Touches k :=
    fun step hstep => touches_drop k step (List.mem_of_mem_take hstep)
  have hlen := length_dropFromDirectory k
  by_cases hcut : n < (drop k).steps.length
  · -- only `DropFromDirectory` can have been made, and there is no file
    refine .inl (recoversTo_of_recordAt hd htouch ?_)
    have hn1 : n ≤ (dropFromDirectory k).length := by
      simp only [drop, List.length_append, List.length_singleton] at hcut
      omega
    have hsteps : steps = (dropFromDirectory k).take n := List.take_append_of_le_length hn1
    rcases Nat.lt_or_ge n 1 with hzero | hone
    · obtain rfl : n = 0 := by omega
      exact hk
    · obtain rfl : n = 1 := by omega
      rw [hsteps, List.take_of_length_le hlen]
      obtain ⟨hrocks, hfile⟩ := perform_dropFromDirectory d k
      exact recordAt_congr (by rw [hrocks]) (hfile.trans (hn rfl).symm) hk
  · have hall : steps = (drop k).steps := List.take_of_length_le (not_lt.mp hcut)
    refine .inr (recoversTo_of_recordAt hd htouch ?_)
    rw [hall]
    exact recordAt_drop

end Cuts

/-! ## Runs -/

section Runs

variable {C : ∀ k, StoreCodec (α k)} (hC : ∀ k, (C k).Lawful) {st : State} {T : Table α}

/-- A stop in a call on the record `k` leads to the table before the call or to
    the one with the new contents, when start-up stores either. -/
theorem represents_crash (h : Represents C st.disk T) (op : Op α) {n : ℕ} {k : StoreKey}
    (htouch : ∀ step ∈ (op.effect C st).steps, step.Touches k) {v : Option (α k)}
    (hk : RecoversTo C st.disk k ((op.effect C st).steps.take n) v) :
    Represents C (st.crash C op n).disk (Function.update T k v) :=
  represents_recover h (fun step hstep => htouch step (List.mem_of_mem_take hstep)) hk

include hC in
theorem crash_save (h : Represents C st.disk T) {k : StoreKey} (s : α k) {n : ℕ}
    (hsafe : SafeCut C st (.crash (.save k s) n)) :
    (¬ writeReported st.configType (.save k s : Op α) n ∧
        Represents C (st.crash C (.save k s) n).disk T) ∨
      Represents C (st.crash C (.save k s) n).disk (Function.update T k (some s)) := by
  obtain ⟨hini, hremove⟩ := hsafe
  have hold := h.record k
  have hkeep : RecoversTo C st.disk k ((Op.effect C st (.save k s)).steps.take n) (T k) →
      Represents C (st.crash C (.save k s) n).disk T :=
    fun hk => represents_self (represents_crash h (.save k s) (touches_save s) hk) rfl
  have hnew := represents_crash h (.save k s) (n := n) (v := some s) (touches_save s)
  by_cases hmode : st.configType = .rocksdb
  · have hsteps : (Op.effect C st (.save k s)).steps = writeRocksdb C k s :: dropFromDirectory k := by
      simp [Op.effect, save, hmode]
    rw [hsteps] at hkeep hnew
    have hcut := recoversTo_writeRocksdb h.onlyRecords s hold (n := n) fun hone => by
      refine .inl ?_
      by_contra hfile
      exact hremove ⟨hone, hmode, Option.isSome_iff_ne_none.mpr hfile⟩
    rcases hcut with ⟨hzero, hk⟩ | hk
    · exact .inl ⟨fun hw => by have := hw.2; omega, hkeep hk⟩
    · exact .inr (hnew hk)
  · have hnot : ¬ writeReported st.configType (.save k s : Op α) n := fun hw => hmode hw.1
    cases hok : (saveToFile C st.configType st.disk k s).result with
    | false =>
      have hsteps : (Op.effect C st (.save k s)).steps = [] := by
        refine save_steps_of_false s ?_
        simp [save, hmode, hok]
      rw [hsteps, List.take_nil] at hkeep
      exact .inl ⟨hnot, hkeep (recoversTo_nil h.onlyRecords hold)⟩
    | true =>
      have hsteps : (Op.effect C st (.save k s)).steps =
          (saveToFile C st.configType st.disk k s).steps ++ [clearRocksdb k] := by
        simp [Op.effect, save, hmode, hok]
      rw [hsteps] at hkeep hnew
      have hn : n = 0 ∨ (st.configType = .ini →
          (savedContents C st.configType st.disk k s).length ≤ n) := by
        refine hini.imp_right fun hle hi => ?_
        simpa [iniWrites, hi] using hle
      rcases recoversTo_saveToFile hC h.onlyRecords s hold hok hn with hk | hk
      · exact .inl ⟨hnot, hkeep hk⟩
      · exact .inr (hnew hk)

include hC in
theorem crash_load (h : Represents C st.disk T) {k : StoreKey} (t : α k) {n : ℕ}
    (hsafe : SafeCut C st (.crash (.load k t) n)) :
    Represents C (st.crash C (.load k t) n).disk T := by
  obtain ⟨hini, -⟩ := hsafe
  have hold := h.record k
  refine represents_self (represents_crash h (.load k t) (touches_load t) (v := T k) ?_) rfl
  simp only [Op.effect]
  generalize T k = v at hold
  cases v with
  | none =>
    rw [load_of_none t hold, List.take_nil]
    exact recoversTo_nil h.onlyRecords hold
  | some s =>
    rcases hold with ⟨hrocks, hfile⟩ | ⟨hmark, bytes, hfile, hdecodes⟩
    · obtain ⟨b, bs, hbytes⟩ := List.exists_cons_of_ne_nil ((hC k).toBytes_ne_nil s)
      have hs : (C k).fromBytes t (b :: bs) = s := by rw [← hbytes, (hC k).fromBytes_toBytes]
      have hold : RecordAt C st.disk k (some s) := .inl ⟨hrocks, hfile⟩
      rw [hbytes] at hrocks
      unfold load
      simp only [hrocks, hs]
      split_ifs with hmode hok
      · rw [List.take_nil]
        exact recoversTo_nil h.onlyRecords hold
      · have hn : n = 0 ∨ (st.configType = .ini →
            (savedContents C st.configType st.disk k s).length ≤ n) := by
          refine hini.imp_right fun hle hi => ?_
          simpa [iniWrites, hrocks, hs, hi] using hle
        exact (recoversTo_saveToFile hC h.onlyRecords s hold hok hn).elim id id
      · rw [List.take_nil]
        exact recoversTo_nil h.onlyRecords hold
    · have hold : RecordAt C st.disk k (some s) := .inr ⟨hmark, bytes, hfile, hdecodes⟩
      have hload : loadFromFile C st.disk k t = (true, s) := loadFromFile_of_file hfile hdecodes t
      unfold load
      simp only [hmark, hload, true_and]
      split_ifs with hmode
      · have hcut := recoversTo_writeRocksdb h.onlyRecords s hold (n := n)
          fun _ => .inr ⟨bytes, hfile, hdecodes⟩
        exact hcut.elim (fun h => h.2) id
      · rw [List.take_nil]
        exact recoversTo_nil h.onlyRecords hold

include hC in
/-- After a safe stop and start-up the disk stores the table before the call or
    the one after it; the one after it, if `write_rocksdb` had succeeded. -/
theorem crash_spec (h : Represents C st.disk T) {op : Op α} {n : ℕ}
    (hsafe : SafeCut C st (.crash op n)) :
    (¬ writeReported st.configType op n ∧ Represents C (st.crash C op n).disk T) ∨
      Represents C (st.crash C op n).disk (T.record op true) := by
  cases op with
  | save k s => exact crash_save hC h s hsafe
  | load k t => exact .inl ⟨id, crash_load hC h t hsafe⟩
  | drop k =>
    have hcut := recoversTo_drop (n := n) h.onlyRecords (h.record k) fun hone => by
      by_contra hfile
      exact hsafe.2 ⟨hone, Option.isSome_iff_ne_none.mpr hfile⟩
    rcases hcut with hk | hk
    · exact .inl ⟨id, represents_self (represents_crash h (.drop k) (touches_drop k) hk) rfl⟩
    · exact .inr (represents_crash h (.drop k) (touches_drop k) hk)
  | setConfigType mode =>
    refine .inl ⟨id, ?_⟩
    simpa [State.crash, State.cut, Op.effect] using represents_initializeRocksdb h
  | restart =>
    refine .inl ⟨id, represents_initializeRocksdb ?_⟩
    cases n with
    | zero => exact h
    | succ n => simpa [State.cut, Op.effect, initializeRocksdb] using represents_initializeRocksdb h

include hC in
/-- **Main theorem.** However the process stops, at safe cuts, and starts again,
    `Load` returns the contents of a table the history allows. -/
theorem load_after_crashes {mode : DatabaseType} {as : List (Action α)} {st : State}
    (hrun : (crashManager C).run ⟨Disk.empty, mode⟩ as = some st)
    (hsafe : (crashManager C).Along (SafeCut C) ⟨Disk.empty, mode⟩ as) :
    ∃ T, History C ⟨Disk.empty, mode⟩ (fun _ => none) as st T ∧
      ∀ (k : StoreKey) (t : α k), (load C st.configType st.disk k t).result = loaded t (T k) := by
  suffices hmain : ∀ (as : List (Action α)) (st₀ : State) (T₀ : Table α),
      Represents C st₀.disk T₀ → (crashManager C).run st₀ as = some st →
      (crashManager C).Along (SafeCut C) st₀ as →
      ∃ T, History C st₀ T₀ as st T ∧ Represents C st.disk T by
    obtain ⟨T, hhistory, hT⟩ := hmain as _ _ (represents_empty C) hrun hsafe
    exact ⟨T, hhistory, fun k t => load_result hC t (hT.record k)⟩
  clear hrun hsafe
  intro as
  induction as with
  | nil =>
    intro st₀ T₀ h hrun _
    obtain rfl : st₀ = st := Option.some.inj hrun
    exact ⟨T₀, .nil, h⟩
  | cons a as ih =>
    intro st₀ T₀ h hrun halong
    obtain ⟨st₁, hstep, hrun'⟩ := Lib.Machine.run_cons_eq_some.mp hrun
    have halong' := halong.2 st₁ hstep
    cases a with
    | call op =>
      obtain rfl : st₀.next C op = st₁ := Option.some.inj hstep
      obtain ⟨T, hhistory, hT⟩ := ih _ _ (represents_step hC op h) hrun' halong'
      exact ⟨T, .call hhistory, hT⟩
    | crash op n =>
      obtain rfl : st₀.crash C op n = st₁ := Option.some.inj hstep
      rcases crash_spec hC h halong.1 with ⟨hnot, hkept⟩ | hlanded
      · obtain ⟨T, hhistory, hT⟩ := ih _ _ hkept hrun' halong'
        exact ⟨T, .lost hnot hhistory, hT⟩
      · obtain ⟨T, hhistory, hT⟩ := ih _ _ hlanded hrun' halong'
        exact ⟨T, .landed hhistory, hT⟩

/-! ### The unsafe cuts -/

/-- `Save` in rocksdb mode, stopped before it removes the record's file: the
    older version is back. -/
theorem crash_save_of_removesFile (h : Represents C st.disk T) {k : StoreKey} (s : α k)
    (hremove : removesFile st (.save k s)) : Represents C (st.crash C (.save k s) 1).disk T := by
  obtain ⟨hmode, hsome⟩ := hremove
  refine represents_self (represents_crash h (.save k s) (touches_save s) (v := T k) ?_) rfl
  have hsteps : (Op.effect C st (.save k s)).steps = writeRocksdb C k s :: dropFromDirectory k := by
    simp [Op.effect, save, hmode]
  rw [hsteps, List.take_succ_cons, List.take_zero]
  have hold := h.record k
  generalize T k = v at hold
  cases v with
  | none => simp [hold.2] at hsome
  | some old =>
    rcases hold with ⟨-, hnone⟩ | ⟨-, bytes, hbytes, hdecodes⟩
    · simp [hnone] at hsome
    · have htouch : ∀ step ∈ [writeRocksdb C k s], step.Touches k := by
        intro step hstep
        obtain rfl := List.mem_singleton.mp hstep
        exact ⟨_, rfl⟩
      have hfile : fileOf (st.disk.perform [writeRocksdb C k s]) k = fileOf st.disk k := rfl
      exact recordAt_initializeRocksdb_of_file (perform_frame htouch h.onlyRecords).1
        (hfile.trans hbytes) hdecodes

/-- `Drop`, stopped after it removed the record's file: `Load` reports success
    and leaves the store as it was. -/
theorem crash_drop_of_removesFile (h : Represents C st.disk T) {k : StoreKey}
    (hremove : removesFile st (.drop k : Op α)) (t : α k) :
    (load C st.configType (st.crash C (.drop k : Op α) 1).disk k t).result = (true, t) := by
  have hold := h.record k
  generalize T k = v at hold
  cases hp : k.fileName with
  | none => simp [removesFile, fileOf_eq_none hp] at hremove
  | some p =>
    have hcut : st.cut C (.drop k) 1 = st.disk.perform (dropFromDirectory k) := by
      simp [State.cut, Op.effect, drop, dropFromDirectory, hp]
    obtain ⟨hrocks, hfile⟩ := perform_dropFromDirectory st.disk k
    obtain ⟨honly, -⟩ := perform_frame (touches_dropFromDirectory k) h.onlyRecords
    obtain ⟨hfile', hrocks'⟩ := (initializeRocksdb_spec honly).2 k
    have hmark : st.disk.rocks[k.rocksKey]? = some [] := by
      cases v with
      | none => simp [removesFile, hold.2] at hremove
      | some s =>
        rcases hold with ⟨-, hnone⟩ | ⟨hmark, -⟩
        · simp [removesFile, hnone] at hremove
        · exact hmark
    have hmark' : (st.crash C (.drop k : Op α) 1).disk.rocks[k.rocksKey]? = some [] := by
      rw [State.crash, hcut, hrocks', hfile, hrocks]
      simpa using hmark
    have hgone : fileOf (st.crash C (.drop k : Op α) 1).disk k = none := by
      rw [State.crash, hcut, hfile', hfile]
    have hload : loadFromFile C (st.crash C (.drop k : Op α) 1).disk k t = (true, t) := by
      rw [fileOf_eq hp] at hgone
      simp [loadFromFile, hp, hgone, StoreCodec.loadFromFile]
    unfold load
    simp only [hmark', hload]
    split_ifs <;> rfl

end Runs

/-! ## A version lost -/

/-- The record of the runs below. -/
def groupSeven : StoreKey := ⟨.groups, 7, by decide, by decide⟩

/-- A record saved as a JSON file and saved again in rocksdb mode, stopped
    once with the file in place before anything is written. -/
theorem load_after_crashes_unwritten :
    ∃ T st, History (fun _ => flagCodec) ⟨Disk.empty, .json⟩ (fun _ => none)
        [.call (.save groupSeven true), .call (.setConfigType .rocksdb),
          .crash (.save groupSeven false) 0] st T ∧
      (load (fun _ => flagCodec) st.configType st.disk groupSeven false).result =
        loaded false (T groupSeven) := by
  let as : List (Action fun _ => Bool) :=
    [.call (.save groupSeven true), .call (.setConfigType .rocksdb),
      .crash (.save groupSeven false) 0]
  have hrun : (crashManager fun _ => flagCodec).run ⟨Disk.empty, .json⟩ as = some _ := rfl
  obtain ⟨T, hhistory, hload⟩ := load_after_crashes (fun _ => flagCodec_lawful) hrun
    ⟨trivial, fun _ _ => ⟨trivial, fun _ _ => ⟨⟨.inl rfl, by simp⟩, fun _ _ => trivial⟩⟩⟩
  exact ⟨T, _, hhistory, hload groupSeven false⟩

/-- `Save` in rocksdb mode of a record that has a file, stopped between
    `write_rocksdb` and the removal of the file: `write_rocksdb` succeeded, and
    after start-up `Load` returns the older contents of the file. -/
theorem save_then_stop_loses_version :
    ∃ st, (crashManager fun _ => flagCodec).run ⟨Disk.empty, .json⟩
        [.call (.save groupSeven true), .call (.setConfigType .rocksdb),
          .crash (.save groupSeven false) 1] = some st ∧
      ¬ ∃ T, History (fun _ => flagCodec) ⟨Disk.empty, .json⟩ (fun _ => none)
          [.call (.save groupSeven true), .call (.setConfigType .rocksdb),
            .crash (.save groupSeven false) 1] st T ∧
        ∀ (k : StoreKey) (t : Bool),
          (load (fun _ => flagCodec) st.configType st.disk k t).result = loaded t (T k) := by
  refine ⟨_, rfl, ?_⟩
  rintro ⟨T, hhistory, hload⟩
  rw [history_call, history_call, history_crash, history_nil, history_nil] at hhistory
  rcases hhistory with ⟨hnot, -⟩ | ⟨-, rfl⟩
  · exact hnot ⟨rfl, le_rfl⟩
  · exact absurd (hload groupSeven false) (by decide)

end NekoBox.Database
