import NekoBox.Store.Binary

/-!
# Reading back the binary format

A store `s` written by `ToBytes` is read into a store `t` of any class that
shares some of its keys. Specification: every field that both register with
the same kind has its value (`Restores`), and every other entry is skipped over
exactly its own bytes (`everyDropped` of `skippedExactly`).

`getConfigItem` has no item for a double, and reads one it has to drop as a
`QByteArray`: its high 32 bits as the size and that many bytes. Pointers are
followed but never allocated. The code meets the specification exactly when
neither gets in the way (`fromBytes_toBytes_iff`):

* `SkipsDouble`: no dropped double, or one that happens to be skipped;
* `SameNulls`: a pointer is null in `s` if and only if it is in `t`.

`fromBytesLoop_toBytes` computes what the loop leaves in `t` (`overlay`), and
`restores_overlay_iff` when that restores `s`.
-/

namespace NekoBox.Store

open NekoBox.Lib NekoBox.Qt

section RoundTrip

variable (hash : String → Bytes)

/-! ## Specification -/

/-- The field of `t` with the key and the kind of an entry. -/
def shared (t : Obj) (name : String) (v : Val) : Option Val :=
  (Obj.find hash t (hash name)).filter fun v' => v'.type = v.type

mutual

/-- The field `w` has the value `v` of a field of its kind. -/
def RestoresVal : Val → Val → Prop
  | .int v, w => w = .int v
  | .long v, w => w = .long v
  | .str v, w => w = .str v
  | .bool v, w => w = .bool v
  | .strList v, w => w = .strList v
  | .intList v, w => w = .intList v
  | .strMap v, w => w = .strMap v
  | .boolPtr v, w => w = .boolPtr v
  | .double v, w => w = .double v
  | .enum _ v, w => ∃ map, w = .enum map v
  | .jsonStore none, w => w = .jsonStore none
  | .jsonStore (some s), w => ∃ t, w = .jsonStore (some t) ∧ Restores s t
  | .jsonShared none, w => w = .jsonShared none
  | .jsonShared (some s), w => ∃ t, w = .jsonShared (some t) ∧ Restores s t
  | .jsonStoreList _ ss, w => ∃ fresh ts, w = .jsonStoreList fresh ts ∧ RestoresElems ss ts

/-- Every field that `s` and `t` register with the same kind has in `t` its
    value in `s`. -/
def Restores : List (String × Val) → Obj → Prop
  | [], _ => True
  | (name, v) :: rest, t => (∀ w, shared hash t name v = some w → RestoresVal v w) ∧ Restores rest t

def RestoresElems : List (List (String × Val)) → List Obj → Prop
  | [], ts => ts = []
  | s :: ss, ts => ∃ t ts', ts = t :: ts' ∧ Restores s t ∧ RestoresElems ss ts'

end

mutual

/-- `P` holds of every entry that the reader drops, with the entries behind it,
    at every level of nesting: inside a pointer both have, and inside the
    elements of a list, which are read into fresh ones. -/
def everyDroppedVal (P : Val → Obj → Prop) : Val → Val → Prop
  | .jsonStore (some s), w => ∀ t, w = .jsonStore (some t) → everyDropped P s t
  | .jsonShared (some s), w => ∀ t, w = .jsonShared (some t) → everyDropped P s t
  | .jsonStoreList _ ss, w => ∀ fresh ts, w = .jsonStoreList fresh ts → everyDroppedElems P ss fresh
  | _, _ => True

def everyDropped (P : Val → Obj → Prop) : List (String × Val) → Obj → Prop
  | [], _ => True
  | (name, v) :: rest, t =>
    (match shared hash t name v with
      | some w => everyDroppedVal P v w
      | none => P v rest) ∧ everyDropped P rest t

def everyDroppedElems (P : Val → Obj → Prop) : List (List (String × Val)) → Obj → Prop
  | [], _ => True
  | s :: ss, fresh => everyDropped P s fresh ∧ everyDroppedElems P ss fresh

end

/-- The dropped entry is read up to where the next one starts. -/
def skippedExactly (v : Val) (rest : Obj) : Prop :=
  skip (getConfigItem v.type.code) (serialize hash v ++ toBytes hash rest) = toBytes hash rest

/-- A double is skipped if its high 32 bits, read as a size, are 4, or if it is
    the last entry and they are larger (but not the code of a null array). -/
def SkipsDouble (v : Val) (rest : Obj) : Prop :=
  ∀ bits, v = .double bits →
    let size := bits.toNat / 256 ^ 4
    size = 4 ∨ rest = [] ∧ 4 < size ∧ size ≠ 0xFFFFFFFF

mutual

def SameNullsVal : Val → Val → Prop
  | .jsonStore none, w => w = .jsonStore none
  | .jsonStore (some s), w => ∃ t, w = .jsonStore (some t) ∧ SameNulls s t
  | .jsonShared none, w => w = .jsonShared none
  | .jsonShared (some s), w => ∃ t, w = .jsonShared (some t) ∧ SameNulls s t
  | .jsonStoreList _ ss, w => ∀ fresh ts, w = .jsonStoreList fresh ts → SameNullsElems ss fresh
  | .enum _ v, w => ∃ map v', w = .enum map v' ∧ v.isSome = v'.isSome
  | _, _ => True

/-- A pointer that both register is null in `s` if and only if it is in `t`. -/
def SameNulls : List (String × Val) → Obj → Prop
  | [], _ => True
  | (name, v) :: rest, t => (∀ w, shared hash t name v = some w → SameNullsVal v w) ∧ SameNulls rest t

def SameNullsElems : List (List (String × Val)) → Obj → Prop
  | [], _ => True
  | s :: ss, fresh => SameNulls s fresh ∧ SameNullsElems ss fresh

end

mutual

def DistinctKeysVal : Val → Prop
  | .jsonStore (some s) => DistinctKeys s
  | .jsonShared (some s) => DistinctKeys s
  | .jsonStoreList _ ss => DistinctKeysElems ss
  | _ => True

/-- The fields are those of a `QMap`: no two have the same key. -/
def DistinctKeys : List (String × Val) → Prop
  | [] => True
  | (name, v) :: rest => hash name ∉ Obj.keys hash rest ∧ DistinctKeysVal v ∧ DistinctKeys rest

def DistinctKeysElems : List (List (String × Val)) → Prop
  | [] => True
  | s :: ss => DistinctKeys s ∧ DistinctKeysElems ss

end

/-! ## What the loop leaves in the reader -/

mutual

def overlayVal : Val → Val → Val
  | .int v, _ => .int v
  | .long v, _ => .long v
  | .str v, _ => .str v
  | .bool v, _ => .bool v
  | .strList v, _ => .strList v
  | .intList v, _ => .intList v
  | .strMap v, _ => .strMap v
  | .boolPtr v, _ => .boolPtr v
  | .double v, _ => .double v
  | .enum _ v, w =>
    match w with
    | .enum map v' => .enum map (v'.map fun _ => v.getD 0)
    | w => w
  | .jsonStore none, w => w
  | .jsonStore (some s), w =>
    match w with
    | .jsonStore (some t) => .jsonStore (some (overlay s t))
    | w => w
  | .jsonShared none, w => w
  | .jsonShared (some s), w =>
    match w with
    | .jsonShared (some t) => .jsonShared (some (overlay s t))
    | w => w
  | .jsonStoreList _ ss, w =>
    match w with
    | .jsonStoreList fresh _ => .jsonStoreList fresh (overlayElems ss fresh)
    | w => w

/-- The shared fields of `s` assigned to `t`, entry by entry. -/
def overlay : List (String × Val) → Obj → Obj
  | [], t => t
  | (name, v) :: rest, t =>
    overlay rest
      (match shared hash t name v with
        | some w => Obj.set hash t (hash name) (overlayVal v w)
        | none => t)

def overlayElems : List (List (String × Val)) → Obj → List Obj
  | [], _ => []
  | s :: ss, fresh => overlay s fresh :: overlayElems ss fresh

end

/-- Some entry of `s` is dropped by `t`. -/
def drops (s t : Obj) : Bool := s.any fun f => (shared hash t f.1 f.2).isNone

variable {hash}

/-! ## Looking up entries -/

theorem shared_eq_some {t : Obj} {name : String} {v w : Val} :
    shared hash t name v = some w ↔ Obj.find hash t (hash name) = some w ∧ w.type = v.type := by
  simp [shared, Option.filter_eq_some_iff]

theorem shared_congr {t t' : Obj} {name : String} (h : Obj.find hash t' (hash name) =
    Obj.find hash t (hash name)) (v : Val) : shared hash t' name v = shared hash t name v := by
  rw [shared, shared, h]

theorem toBytes_eq_nil {s : Obj} : toBytes hash s = [] ↔ s = [] := by
  cases s with
  | nil => simp [toBytes]
  | cons f s =>
    obtain ⟨name, v⟩ := f
    simp [toBytes]

/-! ## Skipping -/

/-- The item `getConfigItem` makes for any other kind reads what `serialize`
    wrote. -/
theorem skip_serialize {v : Val} (hv : v.type ≠ .double) (hlen : (serialize hash v).length < 2 ^ 63)
    (rest : Bytes) : skip (getConfigItem v.type.code) (serialize hash v ++ rest) = rest := by
  have hread : ∀ {β : Type} (W : Wire β) (x : β), serialize hash v = W.put x →
      (W.get (serialize hash v ++ rest)).2 = rest := by
    intro β W x hx
    rw [hx] at hlen ⊢
    rw [W.get_put x rest hlen]
  cases v with
  | int v => exact hread int32 v rfl
  | long v => exact hread int64 v rfl
  | str v => exact hread string v rfl
  | bool v => exact hread boolean v rfl
  | strList v => exact hread stringList v rfl
  | intList v => exact hread intList v rfl
  | strMap v => exact hread variantMap v rfl
  | boolPtr v => exact hread boolean v rfl
  | double v => exact absurd rfl hv
  | jsonStore st =>
    cases st with
    | none => exact hread byteArray none rfl
    | some st => exact hread byteArray (some (toBytes hash st)) rfl
  | jsonShared st =>
    cases st with
    | none => exact hread byteArray none rfl
    | some st => exact hread byteArray (some (toBytes hash st)) rfl
  | enum map v =>
    cases v with
    | none => exact hread byteArray none rfl
    | some v => exact hread byteArray (some (enumBytes v)) rfl
  | jsonStoreList fresh elems => exact hread byteArrayList (elemBytes hash elems) rfl

/-- A dropped entry is skipped exactly unless it is a double of the wrong kind. -/
theorem skippedExactly_iff {v : Val} (hlen : (serialize hash v).length < 2 ^ 63) (rest : Obj) :
    skippedExactly hash v rest ↔ SkipsDouble v rest := by
  unfold skippedExactly SkipsDouble
  by_cases hv : v.type = .double
  · obtain ⟨bits, rfl⟩ : ∃ bits, v = .double bits := by
      cases v <;> first | exact ⟨_, rfl⟩ | cases hv
    have hword := get_byteArray_of_word (n := bits.toNat) (by have := bits.isLt; omega)
      (toBytes hash rest)
    have hskip : skip (getConfigItem (Val.double bits).type.code)
        (serialize hash (.double bits) ++ toBytes hash rest) =
          (byteArray.get (digits256 8 bits.toNat ++ toBytes hash rest)).2 := by
      rw [serialize]
      rfl
    rw [toBytes_eq_nil] at hword
    rw [hskip, hword]
    simp
  · simp only [skip_serialize hv hlen, true_iff]
    rintro bits rfl
    exact absurd rfl hv

/-! ## The loop on what `ToBytes` wrote -/

theorem getWord_code (type : ConfigItemType) (rest : Bytes) :
    getWord 1 (type.code :: rest) = (some type.code.val, rest) := by
  cases type <;> rfl

theorem length_toBytes_cons (name : String) (v : Val) (rest : Obj) :
    (toBytes hash ((name, v) :: rest)).length =
      (byteArray.put (some (hash name))).length + 1 + (serialize hash v).length +
        (toBytes hash rest).length := by
  simp [toBytes]
  omega

theorem length_le_put_byteArray (bs : Bytes) : bs.length ≤ (byteArray.put (some bs)).length := by
  simp [byteArray]

/-- The first entry of the loop: its key and its kind are read, and the rest is
    the value and the other entries. -/
theorem fromBytesLoop_cons {fuel : ℕ} {t : Obj} {name : String} {v : Val} {rest : Obj}
    (hlen : (byteArray.put (some (hash name))).length < 2 ^ 63) :
    fromBytesLoop hash (fuel + 1) t (toBytes hash ((name, v) :: rest)) =
      match shared hash t name v with
      | some w =>
        let (w', data) := deserialize (fun st bytes => (fromBytesLoop hash fuel st bytes).1) w
          (serialize hash v ++ toBytes hash rest)
        fromBytesLoop hash fuel (Obj.set hash t (hash name) w') data
      | none =>
        ((fromBytesLoop hash fuel t (skip (getConfigItem v.type.code)
          (serialize hash v ++ toBytes hash rest))).1, true) := by
  have hne : toBytes hash ((name, v) :: rest) ≠ [] := by
    rw [Ne, toBytes_eq_nil]
    simp
  have hkey : byteArray.get (toBytes hash ((name, v) :: rest)) =
      (some (some (hash name)), v.type.code :: (serialize hash v ++ toBytes hash rest)) := by
    rw [toBytes, List.append_assoc]
    exact byteArray.get_put (some (hash name)) _ hlen
  have hcode : (Fin.ofNat 256 v.type.code.val : Byte) = v.type.code := by
    cases v.type <;> rfl
  rw [fromBytesLoop, if_neg hne, hkey]
  simp only [getWord_code, contents, Option.bind_some, id, Option.getD_some, hcode]
  unfold shared
  cases hfind : Obj.find hash t (hash name) with
  | none => rfl
  | some w =>
    by_cases htype : w.type = v.type
    · have hfilter : (some w).filter (fun v' => decide (v'.type = v.type)) = some w := by
        simp [htype]
      rw [hfilter]
      simp [htype]
    · have hne' : w.type.code ≠ v.type.code := fun h => htype (ConfigItemType.code_injective h)
      have hfilter : (some w).filter (fun v' => decide (v'.type = v.type)) = none := by
        simp [htype]
      rw [hfilter]
      simp [hne']

@[simp] theorem fromBytesLoop_nil (fuel : ℕ) (t : Obj) :
    fromBytesLoop hash fuel t [] = (t, false) := by
  cases fuel <;> rfl

mutual

/-- `deserialize` reads back what `serialize` wrote, into a field of its kind. -/
theorem deserialize_serialize (v : Val) {w : Val} (fuel : ℕ) (rest : Bytes)
    (htype : w.type = v.type) (hkeys : DistinctKeysVal hash v)
    (hlen : (serialize hash v).length < 2 ^ 63) (hfuel : (serialize hash v).length ≤ fuel)
    (hskip : everyDroppedVal hash (skippedExactly hash) v w) :
    deserialize (fun st bytes => (fromBytesLoop hash fuel st bytes).1) w
      (serialize hash v ++ rest) = (overlayVal hash v w, rest) := by
  match v with
  | .int v =>
    cases w <;> cases htype
    simp only [deserialize, serialize] at hlen ⊢
    simp [int32.get_put v rest hlen, overlayVal]
  | .long v =>
    cases w <;> cases htype
    simp only [deserialize, serialize] at hlen ⊢
    simp [int64.get_put v rest hlen, overlayVal]
  | .double v =>
    cases w <;> cases htype
    simp only [deserialize, serialize] at hlen ⊢
    simp [int64.get_put v rest hlen, overlayVal]
  | .str v =>
    cases w <;> cases htype
    simp only [deserialize, serialize] at hlen ⊢
    simp [string.get_put v rest hlen, overlayVal]
  | .bool v =>
    cases w <;> cases htype
    simp only [deserialize, serialize] at hlen ⊢
    simp [boolean.get_put v rest hlen, overlayVal]
  | .boolPtr v =>
    cases w <;> cases htype
    simp only [deserialize, serialize] at hlen ⊢
    simp [boolean.get_put v rest hlen, overlayVal]
  | .strList v =>
    cases w <;> cases htype
    simp only [deserialize, serialize] at hlen ⊢
    simp [stringList.get_put v rest hlen, overlayVal]
  | .intList v =>
    cases w <;> cases htype
    simp only [deserialize, serialize] at hlen ⊢
    simp [intList.get_put v rest hlen, overlayVal]
  | .strMap v =>
    cases w <;> cases htype
    simp only [deserialize, serialize] at hlen ⊢
    simp [variantMap.get_put v rest hlen, overlayVal]
  | .enum map none =>
    cases w <;> cases htype
    rw [serialize] at hlen ⊢
    rw [deserialize, byteArray.get_put none rest hlen]
    rfl
  | .enum map (some v) =>
    cases w <;> cases htype
    rw [serialize] at hlen ⊢
    rw [deserialize, byteArray.get_put (some (enumBytes v)) rest hlen]
    simp [overlayVal, contents, setEnumBytes_enumBytes]
  | .jsonStore none =>
    cases w <;> cases htype
    rw [serialize] at hlen ⊢
    rw [deserialize, byteArray.get_put none rest hlen]
    simp [overlayVal, contents]
  | .jsonStore (some s) =>
    cases w <;> cases htype
    rename_i t
    rw [serialize] at hlen hfuel ⊢
    rw [deserialize, byteArray.get_put (some (toBytes hash s)) rest hlen]
    cases t with
    | none => rfl
    | some t =>
      have hle := length_le_put_byteArray (toBytes hash s)
      have hnested := fromBytesLoop_toBytes s t t fuel hkeys
        (fun _ _ => rfl) (by omega) (by omega) (hskip t rfl)
      simp [contents, hnested, overlayVal]
  | .jsonShared none =>
    cases w <;> cases htype
    rw [serialize] at hlen ⊢
    rw [deserialize, byteArray.get_put none rest hlen]
    simp [overlayVal, contents]
  | .jsonShared (some s) =>
    cases w <;> cases htype
    rename_i t
    rw [serialize] at hlen hfuel ⊢
    rw [deserialize, byteArray.get_put (some (toBytes hash s)) rest hlen]
    cases t with
    | none => rfl
    | some t =>
      have hle := length_le_put_byteArray (toBytes hash s)
      have hnested := fromBytesLoop_toBytes s t t fuel hkeys
        (fun _ _ => rfl) (by omega) (by omega) (hskip t rfl)
      simp [contents, hnested, overlayVal]
  | .jsonStoreList _ ss =>
    cases w <;> cases htype
    rename_i fresh elems
    rw [serialize] at hlen hfuel ⊢
    rw [deserialize, byteArrayList.get_put (elemBytes hash ss) rest hlen]
    have hle : (byteArray.putN (elemBytes hash ss)).length ≤
        (byteArrayList.put (elemBytes hash ss)).length := by
      simp [byteArrayList, Qt.sequence]
    have helems := fromBytes_elemBytes ss fresh fuel hkeys (by omega)
      (by omega) (hskip fresh elems rfl)
    simp [helems, overlayVal]

/-- The loop assigns the shared fields, entry by entry, when every dropped one
    is skipped exactly. -/
theorem fromBytesLoop_toBytes (s : List (String × Val)) (t cur : Obj) (fuel : ℕ)
    (hkeys : DistinctKeys hash s)
    (hcur : ∀ f ∈ s, Obj.find hash cur (hash f.1) = Obj.find hash t (hash f.1))
    (hlen : (toBytes hash s).length < 2 ^ 63) (hfuel : (toBytes hash s).length ≤ fuel)
    (hskip : everyDropped hash (skippedExactly hash) s t) :
    fromBytesLoop hash fuel cur (toBytes hash s) = (overlay hash s cur, drops hash s t) := by
  match s with
  | [] => simp [toBytes, overlay, drops]
  | (name, v) :: rest =>
    obtain ⟨hnot, hkeysv, hkeysrest⟩ := hkeys
    obtain ⟨hskipv, hskiprest⟩ := hskip
    rw [length_toBytes_cons] at hlen hfuel
    obtain ⟨fuel, rfl⟩ : ∃ f, fuel = f + 1 := ⟨fuel - 1, by omega⟩
    have hshared : shared hash cur name v = shared hash t name v :=
      shared_congr (hcur (name, v) (by simp)) v
    have hcurrest : ∀ f ∈ rest, Obj.find hash cur (hash f.1) = Obj.find hash t (hash f.1) :=
      fun f hf => hcur f (List.mem_cons_of_mem _ hf)
    rw [fromBytesLoop_cons (by omega), hshared, overlay, hshared]
    cases hw : shared hash t name v with
    | none =>
      rw [hw] at hskipv
      have hrest := fromBytesLoop_toBytes rest t cur fuel hkeysrest hcurrest (by omega)
        (by omega) hskiprest
      have hexact : skip (getConfigItem v.type.code) (serialize hash v ++ toBytes hash rest) =
          toBytes hash rest := hskipv
      simp [hexact, hrest, drops, hw]
    | some w =>
      rw [hw] at hskipv
      obtain ⟨-, htype⟩ := shared_eq_some.mp hw
      have hvalue := deserialize_serialize v fuel (toBytes hash rest) htype hkeysv
        (by omega) (by omega) hskipv
      -- the keys of the other entries are different, so they are found as before
      have hcurset : ∀ f ∈ rest, Obj.find hash (Obj.set hash cur (hash name) (overlayVal hash v w))
          (hash f.1) = Obj.find hash t (hash f.1) := by
        intro f hf
        have hne : hash f.1 ≠ hash name := fun h =>
          hnot (h ▸ List.mem_map.mpr ⟨f, hf, rfl⟩)
        rw [Obj.find_set_of_ne hne, hcurrest f hf]
      have hrest := fromBytesLoop_toBytes rest t _ fuel hkeysrest hcurset (by omega)
        (by omega) hskiprest
      simp [hvalue, hrest, drops, hw]

theorem fromBytes_elemBytes (ss : List (List (String × Val))) (fresh : Obj) (fuel : ℕ)
    (hkeys : DistinctKeysElems hash ss)
    (hlen : (byteArray.putN (elemBytes hash ss)).length < 2 ^ 63)
    (hfuel : (byteArray.putN (elemBytes hash ss)).length ≤ fuel)
    (hskip : everyDroppedElems hash (skippedExactly hash) ss fresh) :
    (elemBytes hash ss).map (fun a => (fromBytesLoop hash fuel fresh (a.getD [])).1) =
      overlayElems hash ss fresh := by
  match ss with
  | [] => rfl
  | s :: ss =>
    have hsplit : (byteArray.putN (elemBytes hash (s :: ss))).length =
        (byteArray.put (some (toBytes hash s))).length +
          (byteArray.putN (elemBytes hash ss)).length := by
      simp [elemBytes, Wire.putN]
    have hle := length_le_put_byteArray (toBytes hash s)
    rw [hsplit] at hlen hfuel
    have hs := fromBytesLoop_toBytes s fresh fresh fuel hkeys.1
      (fun _ _ => rfl) (by omega) (by omega) hskip.1
    have hss := fromBytes_elemBytes ss fresh fuel hkeys.2 (by omega) (by omega) hskip.2
    simp [elemBytes, overlayElems, hs, hss]

end

/-! ## When the fields are restored -/

theorem type_overlayVal {v w : Val} (htype : w.type = v.type) :
    (overlayVal hash v w).type = v.type := by
  cases v with
  | enum map v =>
    cases w <;> cases htype
    rfl
  | jsonStore s =>
    cases w <;> cases htype
    rename_i t
    cases s <;> cases t <;> rfl
  | jsonShared s =>
    cases w <;> cases htype
    rename_i t
    cases s <;> cases t <;> rfl
  | jsonStoreList fresh ss =>
    cases w <;> cases htype
    rfl
  | _ => rfl

theorem find_overlay_of_notMem {s t : Obj} {key : Bytes} (h : key ∉ Obj.keys hash s) :
    Obj.find hash (overlay hash s t) key = Obj.find hash t key := by
  induction s generalizing t with
  | nil => rfl
  | cons f rest ih =>
    obtain ⟨name, v⟩ := f
    obtain ⟨hne, hrest⟩ : key ≠ hash name ∧ key ∉ Obj.keys hash rest := by
      simpa [Obj.keys] using h
    rw [overlay, ih hrest]
    cases shared hash t name v with
    | none => rfl
    | some w => exact Obj.find_set_of_ne hne

theorem sameNulls_congr {s t t' : Obj}
    (h : ∀ f ∈ s, Obj.find hash t' (hash f.1) = Obj.find hash t (hash f.1)) :
    SameNulls hash s t' ↔ SameNulls hash s t := by
  induction s with
  | nil => rfl
  | cons f rest ih =>
    obtain ⟨name, v⟩ := f
    rw [SameNulls, SameNulls, shared_congr (h (name, v) (by simp)),
      ih fun g hg => h g (List.mem_cons_of_mem _ hg)]

theorem everyDropped_lookup (P : Val → Obj → Prop) {s t t' : Obj}
    (h : ∀ f ∈ s, Obj.find hash t' (hash f.1) = Obj.find hash t (hash f.1)) :
    everyDropped hash P s t' ↔ everyDropped hash P s t := by
  induction s with
  | nil => simp [everyDropped]
  | cons f rest ih =>
    obtain ⟨name, v⟩ := f
    rw [everyDropped, everyDropped, shared_congr (h (name, v) (by simp)),
      ih fun g hg => h g (List.mem_cons_of_mem _ hg)]

mutual

theorem restoresVal_overlayVal_iff (v : Val) {w : Val} (htype : w.type = v.type)
    (hkeys : DistinctKeysVal hash v) :
    RestoresVal hash v (overlayVal hash v w) ↔ SameNullsVal hash v w := by
  match v with
  | .int v => simp [RestoresVal, overlayVal, SameNullsVal]
  | .long v => simp [RestoresVal, overlayVal, SameNullsVal]
  | .str v => simp [RestoresVal, overlayVal, SameNullsVal]
  | .bool v => simp [RestoresVal, overlayVal, SameNullsVal]
  | .strList v => simp [RestoresVal, overlayVal, SameNullsVal]
  | .intList v => simp [RestoresVal, overlayVal, SameNullsVal]
  | .strMap v => simp [RestoresVal, overlayVal, SameNullsVal]
  | .boolPtr v => simp [RestoresVal, overlayVal, SameNullsVal]
  | .double v => simp [RestoresVal, overlayVal, SameNullsVal]
  | .enum _ v =>
    cases w <;> cases htype
    rename_i map v'
    cases v <;> cases v' <;> simp [RestoresVal, overlayVal, SameNullsVal]
  | .jsonStore none => simp [RestoresVal, overlayVal, SameNullsVal]
  | .jsonStore (some s) =>
    cases w <;> cases htype
    rename_i t
    cases t with
    | none => simp [RestoresVal, overlayVal, SameNullsVal]
    | some t =>
      have hnested := restores_overlay_iff s (t := t) hkeys
      simp [RestoresVal, overlayVal, SameNullsVal, hnested]
  | .jsonShared none => simp [RestoresVal, overlayVal, SameNullsVal]
  | .jsonShared (some s) =>
    cases w <;> cases htype
    rename_i t
    cases t with
    | none => simp [RestoresVal, overlayVal, SameNullsVal]
    | some t =>
      have hnested := restores_overlay_iff s (t := t) hkeys
      simp [RestoresVal, overlayVal, SameNullsVal, hnested]
  | .jsonStoreList _ ss =>
    cases w <;> cases htype
    rename_i fresh ts
    have helems := restoresElems_overlayElems_iff ss fresh hkeys
    simp [RestoresVal, overlayVal, SameNullsVal, helems]

theorem restores_overlay_iff (s : List (String × Val)) {t : Obj} (hkeys : DistinctKeys hash s) :
    Restores hash s (overlay hash s t) ↔ SameNulls hash s t := by
  match s with
  | [] => simp [Restores, SameNulls]
  | (name, v) :: rest =>
    obtain ⟨hnot, hkeysv, hkeysrest⟩ := hkeys
    rw [overlay, Restores, SameNulls, restores_overlay_iff rest hkeysrest]
    have hne : ∀ f ∈ rest, hash f.1 ≠ hash name := fun f hf h =>
      hnot (h ▸ List.mem_map.mpr ⟨f, hf, rfl⟩)
    cases hw : shared hash t name v with
    | none =>
      have hnone : shared hash (overlay hash rest t) name v = none := by
        rw [shared_congr (find_overlay_of_notMem hnot), hw]
      simp [hnone]
    | some w =>
      obtain ⟨hfind, htype⟩ := shared_eq_some.mp hw
      -- the other entries leave the field as the head assigned it
      have hset := find_overlay_of_notMem (t := Obj.set hash t (hash name) (overlayVal hash v w)) hnot
      rw [Obj.find_set_self hfind] at hset
      have hsome : ∀ w', shared hash (overlay hash rest
          (Obj.set hash t (hash name) (overlayVal hash v w))) name v = some w' ↔
            overlayVal hash v w = w' := by
        intro w'
        rw [shared_eq_some, hset, Option.some.injEq]
        constructor
        · exact fun h => h.1
        · rintro rfl
          exact ⟨rfl, type_overlayVal htype⟩
      have hrest : SameNulls hash rest (Obj.set hash t (hash name) (overlayVal hash v w)) ↔
          SameNulls hash rest t := sameNulls_congr fun f hf => Obj.find_set_of_ne (hne f hf)
      simp only [hsome, forall_eq', Option.some.injEq, hrest,
        restoresVal_overlayVal_iff v htype hkeysv]

theorem restoresElems_overlayElems_iff (ss : List (List (String × Val))) (fresh : Obj)
    (hkeys : DistinctKeysElems hash ss) :
    RestoresElems hash ss (overlayElems hash ss fresh) ↔ SameNullsElems hash ss fresh := by
  match ss with
  | [] => simp [RestoresElems, overlayElems, SameNullsElems]
  | s :: ss =>
    have hs := restores_overlay_iff s (t := fresh) hkeys.1
    have hss := restoresElems_overlayElems_iff ss fresh hkeys.2
    simp [RestoresElems, overlayElems, SameNullsElems, hs, hss]

end

/-! ## Main theorem -/

mutual

theorem everyDroppedVal_congr {P Q : Val → Obj → Prop}
    (hPQ : ∀ v rest, (serialize hash v).length < 2 ^ 63 → (P v rest ↔ Q v rest)) (v : Val) {w : Val}
    (hlen : (serialize hash v).length < 2 ^ 63) :
    everyDroppedVal hash P v w ↔ everyDroppedVal hash Q v w := by
  match v with
  | .jsonStore (some s) =>
    rw [serialize] at hlen
    have hle := length_le_put_byteArray (toBytes hash s)
    have hs := fun t => everyDropped_congr hPQ s (t := t) (by omega)
    simp only [everyDroppedVal, hs]
  | .jsonShared (some s) =>
    rw [serialize] at hlen
    have hle := length_le_put_byteArray (toBytes hash s)
    have hs := fun t => everyDropped_congr hPQ s (t := t) (by omega)
    simp only [everyDroppedVal, hs]
  | .jsonStoreList _ ss =>
    rw [serialize] at hlen
    have hle : (byteArray.putN (elemBytes hash ss)).length ≤
        (byteArrayList.put (elemBytes hash ss)).length := by
      simp [byteArrayList, Qt.sequence]
    have hss := fun fresh => everyDroppedElems_congr hPQ ss fresh (by omega)
    simp only [everyDroppedVal, hss]
  | .jsonStore none => simp [everyDroppedVal]
  | .jsonShared none => simp [everyDroppedVal]
  | .int _ => simp [everyDroppedVal]
  | .long _ => simp [everyDroppedVal]
  | .str _ => simp [everyDroppedVal]
  | .bool _ => simp [everyDroppedVal]
  | .strList _ => simp [everyDroppedVal]
  | .intList _ => simp [everyDroppedVal]
  | .strMap _ => simp [everyDroppedVal]
  | .boolPtr _ => simp [everyDroppedVal]
  | .double _ => simp [everyDroppedVal]
  | .enum _ _ => simp [everyDroppedVal]

theorem everyDropped_congr {P Q : Val → Obj → Prop}
    (hPQ : ∀ v rest, (serialize hash v).length < 2 ^ 63 → (P v rest ↔ Q v rest))
    (s : List (String × Val)) {t : Obj} (hlen : (toBytes hash s).length < 2 ^ 63) :
    everyDropped hash P s t ↔ everyDropped hash Q s t := by
  match s with
  | [] => simp [everyDropped]
  | (name, v) :: rest =>
    rw [length_toBytes_cons] at hlen
    rw [everyDropped, everyDropped, everyDropped_congr hPQ rest (by omega)]
    cases shared hash t name v with
    | none => simp only [hPQ v rest (by omega)]
    | some w => simp only [everyDroppedVal_congr hPQ v (by omega)]

theorem everyDroppedElems_congr {P Q : Val → Obj → Prop}
    (hPQ : ∀ v rest, (serialize hash v).length < 2 ^ 63 → (P v rest ↔ Q v rest))
    (ss : List (List (String × Val))) (fresh : Obj)
    (hlen : (byteArray.putN (elemBytes hash ss)).length < 2 ^ 63) :
    everyDroppedElems hash P ss fresh ↔ everyDroppedElems hash Q ss fresh := by
  match ss with
  | [] => simp [everyDroppedElems]
  | s :: ss =>
    have hsplit : (byteArray.putN (elemBytes hash (s :: ss))).length =
        (byteArray.put (some (toBytes hash s))).length +
          (byteArray.putN (elemBytes hash ss)).length := by
      simp [elemBytes, Wire.putN]
    have hle := length_le_put_byteArray (toBytes hash s)
    rw [everyDroppedElems, everyDroppedElems, everyDropped_congr hPQ s (by omega),
      everyDroppedElems_congr hPQ ss _ (by omega)]

end

/-- **Main theorem.** `FromBytes` restores every shared field and skips every
    other entry exactly if and only if no double gets in the way and the
    pointers are null in both or in neither. A fallback job that keeps the
    restored fields changes nothing. -/
theorem fromBytes_toBytes_iff {s t : Obj} (hkeys : DistinctKeys hash s)
    (hlen : (toBytes hash s).length < 2 ^ 63) :
    ((everyDropped hash (skippedExactly hash) s t ∧
        Restores hash s (fromBytes hash none t (toBytes hash s))) ↔
      (everyDropped hash SkipsDouble s t ∧ SameNulls hash s t)) ∧
    ∀ job : Bytes → Obj → Obj,
      (drops hash s t = true → ∀ t', Restores hash s t' →
        Restores hash s (job (toBytes hash s) t')) →
      everyDropped hash SkipsDouble s t → SameNulls hash s t →
      everyDropped hash (skippedExactly hash) s t ∧
        Restores hash s (fromBytes hash (some job) t (toBytes hash s)) := by
  have hskips : everyDropped hash (skippedExactly hash) s t ↔ everyDropped hash SkipsDouble s t :=
    everyDropped_congr (fun _ rest hv => skippedExactly_iff hv rest) s hlen
  have hloop : everyDropped hash (skippedExactly hash) s t →
      fromBytesLoop hash (toBytes hash s).length t (toBytes hash s) =
        (overlay hash s t, drops hash s t) :=
    fun h => fromBytesLoop_toBytes s t t _ hkeys (fun _ _ => rfl) hlen le_rfl h
  refine ⟨?_, fun job hjob hdouble hnulls => ?_⟩
  · rw [← hskips]
    refine and_congr_right fun hexact => ?_
    have hresult : fromBytes hash none t (toBytes hash s) = overlay hash s t := by
      rw [fromBytes, hloop hexact]
      cases drops hash s t <;> rfl
    rw [hresult, restores_overlay_iff s hkeys]
  · have hexact := hskips.mpr hdouble
    have hrestored := (restores_overlay_iff s (t := t) hkeys).mpr hnulls
    refine ⟨hexact, ?_⟩
    rw [fromBytes, hloop hexact]
    cases hdrops : drops hash s t with
    | true => exact hjob hdrops _ hrestored
    | false => exact hrestored

/-! ## Stores of plain values -/

/-- What an entry leaves in a field of its kind. -/
theorem find_overlay {s t : Obj} (hkeys : DistinctKeys hash s) {name : String} {v w : Val}
    (hmem : (name, v) ∈ s) (hfind : Obj.find hash t (hash name) = some w) (htype : w.type = v.type) :
    Obj.find hash (overlay hash s t) (hash name) = some (overlayVal hash v w) := by
  induction s generalizing t with
  | nil => cases hmem
  | cons f rest ih =>
    obtain ⟨name', v'⟩ := f
    obtain ⟨hnot, -, hkeysrest⟩ := hkeys
    rw [overlay]
    rcases List.mem_cons.mp hmem with heq | hrest
    · obtain ⟨rfl, rfl⟩ := Prod.mk.inj heq
      have hshared : shared hash t name v = some w := shared_eq_some.mpr ⟨hfind, htype⟩
      rw [find_overlay_of_notMem hnot, hshared]
      exact Obj.find_set_self hfind
    · have hne : hash name ≠ hash name' := fun h =>
        hnot (h ▸ List.mem_map.mpr ⟨(name, v), hrest, rfl⟩)
      refine ih hkeysrest hrest ?_
      cases shared hash t name' v' with
      | none => exact hfind
      | some w' => exact (Obj.find_set_of_ne hne).trans hfind

/-- A value that holds no other store and is no double. -/
def Val.Flat : Val → Prop
  | .jsonStore _ | .jsonStoreList _ _ | .jsonShared _ | .double _ => False
  | _ => True

theorem everyDropped_flat {s : Obj} (hflat : ∀ f ∈ s, f.2.Flat) (t : Obj) :
    everyDropped hash SkipsDouble s t := by
  induction s with
  | nil => trivial
  | cons f rest ih =>
    obtain ⟨name, v⟩ := f
    have hv : v.Flat := hflat (name, v) List.mem_cons_self
    refine ⟨?_, ih fun g hg => hflat g (List.mem_cons_of_mem _ hg)⟩
    cases shared hash t name v with
    | none =>
      rintro bits rfl
      cases hv
    | some w => cases v <;> trivial

theorem distinctKeys_flat {s : Obj} (hflat : ∀ f ∈ s, f.2.Flat) (hnodup : (Obj.keys hash s).Nodup) :
    DistinctKeys hash s := by
  induction s with
  | nil => trivial
  | cons f rest ih =>
    obtain ⟨name, v⟩ := f
    obtain ⟨hnot, hrest⟩ := List.nodup_cons.mp hnodup
    have hv : v.Flat := hflat (name, v) List.mem_cons_self
    refine ⟨hnot, ?_, ih (fun g hg => hflat g (List.mem_cons_of_mem _ hg)) hrest⟩
    cases v <;> trivial

/-- A store without other stores in it and without doubles is read field by field. -/
theorem find_fromBytes {s t : Obj} (hflat : ∀ f ∈ s, f.2.Flat) (hnodup : (Obj.keys hash s).Nodup)
    (hlen : (toBytes hash s).length < 2 ^ 63) {name : String} {v w : Val} (hmem : (name, v) ∈ s)
    (hfind : Obj.find hash t (hash name) = some w) (htype : w.type = v.type) :
    Obj.find hash (fromBytes hash none t (toBytes hash s)) (hash name) =
      some (overlayVal hash v w) := by
  have hkeys := distinctKeys_flat hflat hnodup
  have hexact : everyDropped hash (skippedExactly hash) s t :=
    (everyDropped_congr (fun _ rest hv => skippedExactly_iff hv rest) s hlen).mpr
      (everyDropped_flat hflat t)
  have hresult : fromBytes hash none t (toBytes hash s) = overlay hash s t := by
    rw [fromBytes, fromBytesLoop_toBytes s t t _ hkeys (fun _ _ => rfl) hlen le_rfl hexact]
    cases drops hash s t <;> rfl
  rw [hresult]
  exact find_overlay hkeys hmem hfind htype

end RoundTrip

/-! ## A dropped double -/

/-- The MD5 hashes of two of the fields of `IndicatorRule` (`GuiUtils.cpp`,
    lines 85–90). -/
def indicatorHash (name : String) : Bytes :=
  if name = "diameter" then
    [53, 241, 109, 192, 132, 165, 56, 96, 245, 203, 57, 98, 16, 125, 83, 120]
  else if name = "color" then
    [112, 221, 165, 223, 184, 5, 61, 198, 209, 196, 146, 87, 75, 206, 155, 253]
  else []

/-- The color survives between equal classes. -/
theorem fromBytes_toBytes_color :
    Restores indicatorHash [("color", .intList [0, 0, 255, 255])]
      (fromBytes indicatorHash none [("color", .intList [])]
        (toBytes indicatorHash [("color", .intList [0, 0, 255, 255])])) :=
  ((@fromBytes_toBytes_iff indicatorHash [("color", .intList [0, 0, 255, 255])]
    [("color", .intList [])] (by simp [DistinctKeys, DistinctKeysVal, Obj.keys]) (by decide)).1.mpr
      ⟨⟨trivial, trivial⟩, fun _ _ => trivial, trivial⟩).2

/-- A reader without the field `diameter` does not get `color`, which follows
    it: the bits of 0.4 start with the size `0x3FD99999`. -/
theorem fromBytes_after_dropped_double :
    let s : Obj := [("diameter", .double 0x3FD999999999999A), ("color", .intList [0, 0, 255, 255])]
    let t : Obj := [("color", .intList [])]
    DistinctKeys indicatorHash s ∧ (toBytes indicatorHash s).length < 2 ^ 63 ∧
      ¬ (everyDropped indicatorHash (skippedExactly indicatorHash) s t ∧
        Restores indicatorHash s (fromBytes indicatorHash none t (toBytes indicatorHash s))) := by
  refine ⟨?_, by decide, ?_⟩
  · simp [DistinctKeys, DistinctKeysVal, Obj.keys, indicatorHash]
  · rintro ⟨-, hrestores⟩
    have hresult : fromBytes indicatorHash none [("color", .intList [])]
        (toBytes indicatorHash [("diameter", .double 0x3FD999999999999A),
          ("color", .intList [0, 0, 255, 255])]) = [("color", .intList [])] := rfl
    rw [hresult] at hrestores
    have hcolor := hrestores.2.1 (.intList []) rfl
    simp [RestoresVal] at hcolor

end NekoBox.Store
