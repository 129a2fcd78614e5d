import NekoBox.Database.Keys

/-!
# The disk: record files and the RocksDB map

The configuration directory is a map from paths to file contents, and RocksDB
an ordered map from keys to values (`std::string`s in bytewise order). Every
operation of `FileDatabaseManager` is a list of separately durable steps on
this pair (`DiskStep`): a file write replaces the file, a file removal of a
missing file changes nothing, and a RocksDB `Write` applies its whole batch.

* `query_rocksdb` (`Database.cpp`, lines 346–402) is `queryRocksdb`;
  `queryRocksdb_eq` gives its result in terms of the map.
* `QueryFromDirectory` (lines 312–333) is `queryFromDirectory`;
  `mem_queryFromDirectory` gives its result in terms of the files.
-/

namespace NekoBox.Database

open NekoBox.Qt NekoBox.Lib

/-! ## The disk -/

/-- The contents of a file, `none` when the file cannot be opened for reading. -/
abbrev FileContents := Option Bytes

/-- The configuration directory and the RocksDB map. -/
structure Disk where
  files : Std.ExtTreeMap Path FileContents compare
  rocks : Std.ExtTreeMap Bytes Bytes compare

/-- An empty directory and an empty RocksDB. -/
def Disk.empty : Disk := ⟨∅, ∅⟩

/-- One durable step. -/
inductive DiskStep where
  | writeFile (path : Path) (contents : Bytes)
  | removeFile (path : Path)
  | put (batch : List (Bytes × Bytes))
  | delete (key : Bytes)
  deriving DecidableEq, Repr

namespace Disk

def apply (d : Disk) : DiskStep → Disk
  | .writeFile p bs => { d with files := d.files.insert p (some bs) }
  | .removeFile p => { d with files := d.files.erase p }
  | .put batch => { d with rocks := batch.foldl (fun m kv => m.insert kv.1 kv.2) d.rocks }
  | .delete key => { d with rocks := d.rocks.erase key }

/-- Perform the steps in order. -/
def perform (d : Disk) (steps : List DiskStep) : Disk := steps.foldl apply d

@[simp] theorem perform_nil (d : Disk) : d.perform [] = d := rfl

@[simp] theorem perform_cons (d : Disk) (s : DiskStep) (ss : List DiskStep) :
    d.perform (s :: ss) = (d.apply s).perform ss := rfl

theorem perform_append (d : Disk) (ss ss' : List DiskStep) :
    d.perform (ss ++ ss') = (d.perform ss).perform ss' := List.foldl_append

/-! ## Reading after one step -/

variable (d : Disk)

@[simp] theorem files_writeFile (p q : Path) (bs : Bytes) :
    (d.apply (.writeFile p bs)).files[q]? = if p = q then some (some bs) else d.files[q]? := by
  simp [apply, Std.ExtTreeMap.getElem?_insert]

@[simp] theorem files_removeFile (p q : Path) :
    (d.apply (.removeFile p)).files[q]? = if p = q then none else d.files[q]? := by
  simp [apply, Std.ExtTreeMap.getElem?_erase]

@[simp] theorem files_put (batch : List (Bytes × Bytes)) : (d.apply (.put batch)).files = d.files :=
  rfl

@[simp] theorem files_delete (key : Bytes) : (d.apply (.delete key)).files = d.files := rfl

@[simp] theorem rocks_writeFile (p : Path) (bs : Bytes) :
    (d.apply (.writeFile p bs)).rocks = d.rocks := rfl

@[simp] theorem rocks_removeFile (p : Path) : (d.apply (.removeFile p)).rocks = d.rocks := rfl

@[simp] theorem rocks_put_one (key key' v : Bytes) :
    (d.apply (.put [(key, v)])).rocks[key']? = if key = key' then some v else d.rocks[key']? := by
  simp [apply, Std.ExtTreeMap.getElem?_insert]

@[simp] theorem rocks_delete (key key' : Bytes) :
    (d.apply (.delete key)).rocks[key']? = if key = key' then none else d.rocks[key']? := by
  simp [apply, Std.ExtTreeMap.getElem?_erase]

/-- A batch that puts one value under several keys. -/
theorem rocks_put_all (keys : List Bytes) (v key : Bytes) :
    (d.apply (.put (keys.map fun k => (k, v)))).rocks[key]? =
      if key ∈ keys then some v else d.rocks[key]? := by
  suffices h : ∀ m : Std.ExtTreeMap Bytes Bytes compare,
      ((keys.map fun k => (k, v)).foldl (fun m kv => m.insert kv.1 kv.2) m)[key]? =
        if key ∈ keys then some v else m[key]? from h d.rocks
  induction keys with
  | nil => simp
  | cons k ks ih =>
    intro m
    rw [List.map_cons, List.foldl_cons, ih]
    by_cases hks : key ∈ ks
    · simp [hks]
    · by_cases hk : key = k
      · simp [hk]
      · simp [hks, hk, Std.ExtTreeMap.getElem?_insert, Ne.symm hk]

end Disk

/-! ## `QueryFromDirectory` -/

/-- `e.remove(".cfg")`. -/
def removeCfg : List Char → List Char
  | '.' :: 'c' :: 'f' :: 'g' :: cs => removeCfg cs
  | c :: cs => c :: removeCfg cs
  | [] => []

/-- The body of the loop of `QueryFromDirectory` (lines 320–329) on one entry:
    the id it appends, if any. -/
def entryId (e : String) : Option ℤ :=
  let e := e.toList.map Char.toLower
  if ".cfg".toList <:+ e then toInt (removeCfg e) else none

/-- `dr.entryList(QDir::Files)` for the directory `dir`. -/
def entryList (d : Disk) (dir : String) : List String :=
  d.files.keys.filterMap fun
    | [p, e] => if p = dir then some e else none
    | _ => none

/-- `FileDatabaseManager::QueryFromDirectory` (lines 312–333). -/
def queryFromDirectory (d : Disk) (type : JsonStoreType) : List ℤ :=
  match getJsonStorePathName type with
  | none => []
  | some dir => ((entryList d dir).filterMap entryId).insertionSort (· ≤ ·)

theorem removeCfg_append {s : List Char} (h : '.' ∉ s) (s' : List Char) :
    removeCfg (s ++ s') = s ++ removeCfg s' := by
  induction s with
  | nil => rfl
  | cons c s ih =>
    obtain ⟨hc, hs⟩ : '.' ≠ c ∧ '.' ∉ s := by simpa using h
    rw [List.cons_append, removeCfg, ih hs, List.cons_append]
    intro _ hc'
    exact absurd hc'.symm hc

theorem dot_not_mem_number (n : ℤ) : '.' ∉ number n := by
  unfold number
  split_ifs
  · rw [List.mem_cons, not_or]
    exact ⟨by decide, fun h => absurd (isDigit_toDigits h) (by decide)⟩
  · exact fun h => absurd (isDigit_toDigits h) (by decide)

theorem map_toLower_number (n : ℤ) : (number n).map Char.toLower = number n := by
  have hdigit : ∀ m : ℕ, (Nat.toDigits 10 m).map Char.toLower = Nat.toDigits 10 m := by
    intro m
    refine (List.map_congr_left fun c hc => ?_).trans (List.map_id _)
    have hd := isDigit_toDigits hc
    simp only [Char.isDigit, Bool.and_eq_true, decide_eq_true_eq, ge_iff_le] at hd
    have hnot : ¬ (c.val ≥ 'A'.val ∧ c.val ≤ 'Z'.val) := by
      rintro ⟨hA, -⟩
      have h57 : c.val.toNat ≤ 57 := hd.2
      have h65 : 65 ≤ c.val.toNat := hA
      omega
    simp only [Char.toLower, id]
    rw [dif_neg hnot]
  unfold number
  split_ifs
  · rw [List.map_cons, hdigit]
    rfl
  · exact hdigit _

/-- The loop of `QueryFromDirectory` reads back the id in the name of a record
    file. -/
theorem entryId_entryName {n : ℤ} (hn : IsInt32 n) : entryId (entryName n) = some n := by
  have hcfg : ".cfg".toList.map Char.toLower = ".cfg".toList := by decide
  have hremove : removeCfg ".cfg".toList = [] := by decide
  unfold entryId entryName
  rw [String.toList_ofList, List.map_append, map_toLower_number, hcfg]
  simp only [List.suffix_append, if_true]
  rw [removeCfg_append (dot_not_mem_number n), hremove, List.append_nil, toInt_number hn]

theorem mem_entryList {d : Disk} {dir e : String} :
    e ∈ entryList d dir ↔ [dir, e] ∈ d.files := by
  unfold entryList
  rw [List.mem_filterMap]
  constructor
  · rintro ⟨p, hp, he⟩
    split at he
    · next p' e' =>
      split_ifs at he with hdir
      cases he
      rw [← hdir]
      exact Std.ExtTreeMap.mem_keys.mp hp
    · exact absurd he (by simp)
  · intro h
    exact ⟨[dir, e], Std.ExtTreeMap.mem_keys.mpr h, by simp⟩

theorem mem_queryFromDirectory {d : Disk} {type : JsonStoreType} {id : ℤ} :
    id ∈ queryFromDirectory d type ↔
      ∃ dir e, getJsonStorePathName type = some dir ∧ [dir, e] ∈ d.files ∧ entryId e = some id := by
  unfold queryFromDirectory
  cases getJsonStorePathName type with
  | none => simp
  | some dir => simp [List.mem_insertionSort, mem_entryList]

/-! ## `query_rocksdb` -/

/-- The loop of `query_rocksdb` (lines 362–398) over the keys from the iterator
    on, with its `result` and `result_set`. `none` is the `std::runtime_error`
    for a key that is not 5 bytes long. -/
def queryLoop (c : Byte) : List Bytes → List ℤ → List ℤ → Option (List ℤ)
  | [], result, _ => some result
  | [b0, b1, b2, b3, b4] :: keys, result, resultSet =>
    if b0 ≠ c then some result
    else
      let i := unpackId b1 b2 b3 b4
      if i ∈ resultSet ∨ i < 0 then queryLoop c keys result resultSet
      else queryLoop c keys (result ++ [i]) (i :: resultSet)
  | _ :: _, _, _ => none

/-- `query_rocksdb` (lines 346–402): the iterator starts at the first key that
    is not below the one-byte prefix. -/
def queryRocksdb (d : Disk) (type : JsonStoreType) : Option (List ℤ) :=
  let c := type.toChar
  queryLoop c (d.rocks.keys.dropWhile fun key => compare key [c] == .lt) [] []

/-- The ids of type `c` among keys of 5 bytes, without the negative ones. -/
def idsOf (c : Byte) (keys : List Bytes) : List ℤ :=
  keys.filterMap fun
    | [b0, b1, b2, b3, b4] =>
      if b0 = c ∧ 0 ≤ unpackId b1 b2 b3 b4 then some (unpackId b1 b2 b3 b4) else none
    | _ => none

/-- In bytewise order a smaller key has no larger first byte. -/
theorem head_le_of_compare_lt {a b : Byte} {as bs : Bytes}
    (h : compare (a :: as) (b :: bs) = .lt) : a ≤ b := by
  rw [List.compare_cons_cons, Ordering.then_eq_lt] at h
  rcases h with h | ⟨h, -⟩
  · exact (compare_lt_iff_lt.mp h).le
  · exact (compare_eq_iff_eq.mp h).le

theorem idsOf_eq_nil {c : Byte} {keys : List Bytes} (h : ∀ key ∈ keys, key.head? ≠ some c) :
    idsOf c keys = [] := by
  unfold idsOf
  rw [List.filterMap_eq_nil_iff]
  intro key hkey
  have hne := h key hkey
  split
  · next b0 b1 b2 b3 b4 =>
    have hb0 : b0 ≠ c := by simpa using hne
    simp [hb0]
  · rfl

/-- The loop on a sorted list of 5-byte keys, none below the prefix: it stops
    at the first key of another type, and so sees every key of type `c`. -/
theorem queryLoop_eq {c : Byte} :
    ∀ {keys : List Bytes} {result resultSet : List ℤ},
      keys.Pairwise (fun a b => compare a b = .lt) →
      (∀ key ∈ keys, ∃ b0 b1 b2 b3 b4, key = [b0, b1, b2, b3, b4] ∧ c ≤ b0) →
      result.Nodup → (∀ i, i ∈ resultSet ↔ i ∈ result) →
      ∃ l, queryLoop c keys result resultSet = some l ∧ l.Nodup ∧
        ∀ i, i ∈ l ↔ i ∈ result ∨ i ∈ idsOf c keys := by
  intro keys
  induction keys with
  | nil =>
    intro result resultSet _ _ hnodup _
    exact ⟨result, rfl, hnodup, by simp [idsOf]⟩
  | cons key keys ih =>
    intro result resultSet hsorted hkeys hnodup hset
    obtain ⟨hlt, hsorted'⟩ := List.pairwise_cons.mp hsorted
    obtain ⟨b0, b1, b2, b3, b4, rfl, hc⟩ := hkeys key (by simp)
    have hkeys' : ∀ k ∈ keys, ∃ b0 b1 b2 b3 b4, k = [b0, b1, b2, b3, b4] ∧ c ≤ b0 :=
      fun k hk => hkeys k (List.mem_cons_of_mem _ hk)
    by_cases hb : b0 = c
    · subst hb
      by_cases hskip : unpackId b1 b2 b3 b4 ∈ resultSet ∨ unpackId b1 b2 b3 b4 < 0
      · obtain ⟨l, hl, hnd, hmem⟩ := ih hsorted' hkeys' hnodup hset
        refine ⟨l, by simp [queryLoop, hskip, hl], hnd, fun i => (hmem i).trans ?_⟩
        by_cases hneg : 0 ≤ unpackId b1 b2 b3 b4
        · have hin := (hset _).mp (hskip.resolve_right (not_lt.mpr hneg))
          simp only [idsOf, List.filterMap_cons, hneg, and_self, if_true, List.mem_cons]
          constructor
          · rintro (h | h)
            · exact .inl h
            · exact .inr (.inr h)
          · rintro (h | h | h)
            · exact .inl h
            · exact .inl (by rw [h]; exact hin)
            · exact .inr h
        · simp [idsOf, hneg]
      · obtain ⟨hnew, hneg⟩ := not_or.mp hskip
        have hnodup' : (result ++ [unpackId b1 b2 b3 b4]).Nodup := by
          rw [List.nodup_append]
          refine ⟨hnodup, by simp, fun i hi j hj hij => ?_⟩
          have hi' : unpackId b1 b2 b3 b4 ∈ result := by simp_all
          exact hnew ((hset _).mpr hi')
        have hset' : ∀ i, i ∈ unpackId b1 b2 b3 b4 :: resultSet ↔
            i ∈ result ++ [unpackId b1 b2 b3 b4] := by
          intro i
          simp [hset, or_comm]
        obtain ⟨l, hl, hnd, hmem⟩ := ih hsorted' hkeys' hnodup' hset'
        refine ⟨l, by simp [queryLoop, hskip, hl], hnd, fun i => (hmem i).trans ?_⟩
        simp [idsOf, not_lt.mp hneg, or_assoc]
    · have hrest : idsOf c ([b0, b1, b2, b3, b4] :: keys) = [] := by
        refine idsOf_eq_nil fun k hk => ?_
        rcases List.mem_cons.mp hk with rfl | hk
        · simpa using hb
        · obtain ⟨c0, c1, c2, c3, c4, rfl, -⟩ := hkeys' k hk
          have hle := head_le_of_compare_lt (hlt _ hk)
          have : c < c0 := lt_of_lt_of_le (lt_of_le_of_ne hc (Ne.symm hb)) hle
          simpa using this.ne'
      refine ⟨result, by simp [queryLoop, hb], hnodup, ?_⟩
      simp [hrest]

/-- Every key of type `c` is at or behind the iterator position. -/
theorem mem_dropWhile_seek {c : Byte} {key : Bytes} {keys : List Bytes} (hkey : key ∈ keys)
    (hhead : key.head? = some c) :
    key ∈ keys.dropWhile fun key => compare key [c] == .lt := by
  rw [← List.takeWhile_append_dropWhile (p := fun key => compare key [c] == .lt) (l := keys),
    List.mem_append] at hkey
  rcases hkey with htake | hdrop
  · have hlt := List.mem_takeWhile_imp htake
    obtain ⟨tail, rfl⟩ : ∃ tail, key = c :: tail := by
      cases key with
      | nil => simp at hhead
      | cons b tail => exact ⟨tail, by simpa using hhead⟩
    have : compare tail ([] : Bytes) = .lt := by simpa [List.compare_cons_cons] using hlt
    cases tail <;> simp at this
  · exact hdrop

/-- The keys behind the iterator position have no smaller first byte. -/
theorem le_head_of_mem_dropWhile {c b : Byte} {tail : Bytes} {keys : List Bytes}
    (hsorted : keys.Pairwise fun a b => compare a b = .lt)
    (hlen : ∀ key ∈ keys, key ≠ [])
    (h : b :: tail ∈ keys.dropWhile fun key => compare key [c] == .lt) : c ≤ b := by
  induction keys with
  | nil => simp at h
  | cons key keys ih =>
    obtain ⟨hlt, hsorted'⟩ := List.pairwise_cons.mp hsorted
    obtain ⟨b0, tail0, rfl⟩ := List.exists_cons_of_ne_nil (hlen key (by simp))
    by_cases hk : compare (b0 :: tail0) [c] = .lt
    · rw [List.dropWhile_cons_of_pos (by simpa using hk)] at h
      exact ih hsorted' (fun k hk => hlen k (List.mem_cons_of_mem _ hk)) h
    · rw [List.dropWhile_cons_of_neg (by simpa using hk)] at h
      have hb0 : c ≤ b0 := by
        by_contra hcb
        exact hk (by simp [List.compare_cons_cons, compare_lt_iff_lt.mpr (not_le.mp hcb)])
      rcases List.mem_cons.mp h with heq | hmem
      · obtain ⟨rfl, rfl⟩ := List.cons.inj heq
        exact hb0
      · exact hb0.trans (head_le_of_compare_lt (hlt _ hmem))

/-- What `query_rocksdb` returns: the non-negative ids of the type that have a
    key, each once. -/
theorem queryRocksdb_eq {d : Disk} {type : JsonStoreType}
    (hkeys : ∀ key ∈ d.rocks, ∃ k : StoreKey, key = k.rocksKey) :
    ∃ l, queryRocksdb d type = some l ∧ l.Nodup ∧
      ∀ i, i ∈ l ↔ 0 ≤ i ∧ ∃ k : StoreKey, k.type = type ∧ k.id = i ∧ k.rocksKey ∈ d.rocks := by
  set seek := d.rocks.keys.dropWhile fun key => compare key [type.toChar] == .lt with hseek
  have hsorted : d.rocks.keys.Pairwise fun a b => compare a b = .lt := Std.ExtTreeMap.ordered_keys
  have hmem : ∀ key ∈ d.rocks.keys, ∃ k : StoreKey, key = k.rocksKey :=
    fun key h => hkeys key (Std.ExtTreeMap.mem_keys.mp h)
  have hsub : seek.Sublist d.rocks.keys := List.dropWhile_sublist _
  have hshape : ∀ key ∈ seek, ∃ b0 b1 b2 b3 b4, key = [b0, b1, b2, b3, b4] ∧ type.toChar ≤ b0 := by
    intro key hkey
    obtain ⟨k, rfl⟩ := hmem key (hsub.subset hkey)
    obtain ⟨b1, b2, b3, b4, hpack, -⟩ := packCharInt_eq k.isInt k.type.toChar
    refine ⟨k.type.toChar, b1, b2, b3, b4, hpack, ?_⟩
    rw [StoreKey.rocksKey, hpack] at hkey
    refine le_head_of_mem_dropWhile hsorted (fun key hkey => ?_) hkey
    obtain ⟨k', rfl⟩ := hmem key hkey
    simp [StoreKey.rocksKey, packCharInt]
  obtain ⟨l, hl, hnodup, hl_mem⟩ :=
    queryLoop_eq (hsorted.sublist hsub) hshape List.nodup_nil fun _ => Iff.rfl
  refine ⟨l, hl, hnodup, fun i => (hl_mem i).trans ?_⟩
  simp only [List.not_mem_nil, false_or, idsOf, List.mem_filterMap]
  constructor
  · rintro ⟨key, hkey, hi⟩
    obtain ⟨k, rfl⟩ := hmem key (hsub.subset hkey)
    obtain ⟨b1, b2, b3, b4, hpack, hid⟩ := packCharInt_eq k.isInt k.type.toChar
    simp only [StoreKey.rocksKey, hpack, hid, Option.ite_none_right_eq_some, Option.some.injEq] at hi
    obtain ⟨⟨htype, hpos⟩, rfl⟩ := hi
    exact ⟨hpos, k, JsonStoreType.toChar_injective htype, rfl,
      Std.ExtTreeMap.mem_keys.mp (hsub.subset hkey)⟩
  · rintro ⟨hpos, k, rfl, rfl, hk⟩
    obtain ⟨b1, b2, b3, b4, hpack, hid⟩ := packCharInt_eq k.isInt k.type.toChar
    refine ⟨k.rocksKey, mem_dropWhile_seek (Std.ExtTreeMap.mem_keys.mpr hk) ?_, ?_⟩
    · simp [StoreKey.rocksKey, hpack]
    · simp [StoreKey.rocksKey, hpack, hid, hpos]

end NekoBox.Database
