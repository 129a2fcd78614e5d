import NekoBox.Lib.Wire

/-!
# `QDataStream`

The encodings of the Qt value types the stores write, as `QDataStream` writes
them (big-endian, `Qt_6_7` sizes):

* `size`: 32 bits, `0xFFFFFFFE` before a 64-bit size, `0xFFFFFFFF` for null;
* `byteArray`, `string` (UTF-16), `sequence` for `QList`, `variantMap` for a
  `QVariantMap` of strings;
* `get_byteArray_of_word`: how the bytes of another 64-bit value are read as a
  `QByteArray`.
-/

namespace NekoBox.Qt

open NekoBox.Lib

/-! ## Sizes -/

/-- `QDataStream::writeQSizeType`. -/
def putSize (n : ℕ) : Bytes :=
  if n < 0xFFFFFFFE then digits256 4 n else digits256 4 0xFFFFFFFE ++ digits256 8 n

/-- What `QDataStream::readQSizeType` returns. -/
inductive Size where
  /-- The code of a null array or string, or a size the reader rejects. -/
  | null
  | size (n : ℕ)
  deriving DecidableEq

/-- `QDataStream::readQSizeType`. The sizes from `2 ^ 63` on are negative there. -/
def getSize (data : Bytes) : Option Size × Bytes :=
  match getWord 4 data with
  | (none, data) => (none, data)
  | (some first, data) =>
    if first = 0xFFFFFFFF then (some .null, data)
    else if first < 0xFFFFFFFE then (some (.size first), data)
    else
      match getWord 8 data with
      | (none, data) => (none, data)
      | (some n, data) => (if n < 2 ^ 63 then some (.size n) else none, data)

theorem getSize_putSize {n : ℕ} (h : n < 2 ^ 63) (rest : Bytes) :
    getSize (putSize n ++ rest) = (some (.size n), rest) := by
  unfold putSize
  split_ifs with hsmall
  · have hword : getWord 4 (digits256 4 n ++ rest) = (some n, rest) :=
      getWord_append (by omega) rest
    have hne : n ≠ 0xFFFFFFFF := by omega
    simp [getSize, hword, hsmall, hne]
  · have hmark : getWord 4 (digits256 4 0xFFFFFFFE ++ (digits256 8 n ++ rest)) =
        (some 0xFFFFFFFE, digits256 8 n ++ rest) := getWord_append (by norm_num) _
    have hword : getWord 8 (digits256 8 n ++ rest) = (some n, rest) :=
      getWord_append (by omega) rest
    rw [List.append_assoc, getSize, hmark]
    simp only [hword]
    simp
    exact h

theorem putSize_ne_nil (n : ℕ) : putSize n ≠ [] := by
  intro h
  have := congrArg List.length h
  unfold putSize at this
  split_ifs at this <;> simp at this

/-! ## `QByteArray` -/

/-- `QDataStream >> QByteArray`, `none` a null array. A size beyond the end
    reads what is left, and clears the array. -/
def getByteArray (data : Bytes) : Option (Option Bytes) × Bytes :=
  match getSize data with
  | (none, data) => (none, data)
  | (some .null, data) => (some none, data)
  | (some (.size n), data) =>
    if n ≤ data.length then (some (some (data.take n)), data.drop n) else (none, [])

/-- `QDataStream << QByteArray`. -/
def byteArray : Wire (Option Bytes) where
  put
    | none => digits256 4 0xFFFFFFFF
    | some bs => putSize bs.length ++ bs
  get := getByteArray
  get_put v rest hlen := by
    cases v with
    | none =>
      have hword : getWord 4 (digits256 4 0xFFFFFFFF ++ rest) = (some 0xFFFFFFFF, rest) :=
        getWord_append (by norm_num) rest
      simp [getByteArray, getSize, hword]
    | some bs =>
      have hbs : bs.length < 2 ^ 63 := by
        simp only [List.length_append] at hlen
        omega
      rw [List.append_assoc]
      simp [getByteArray, getSize_putSize hbs]

/-- Eight bytes that are not an array, read as a `QByteArray`: exactly these
    eight are read if the first four are the number 4, or if nothing follows
    and the first four are a larger size. -/
theorem get_byteArray_of_word {n : ℕ} (hn : n < 256 ^ 8) (rest : Bytes) :
    (byteArray.get (digits256 8 n ++ rest)).2 = rest ↔
      n / 256 ^ 4 = 4 ∨ rest = [] ∧ 4 < n / 256 ^ 4 ∧ n / 256 ^ 4 ≠ 0xFFFFFFFF := by
  have hhi : n / 256 ^ 4 < 256 ^ 4 := by omega
  rw [show (8 : ℕ) = 4 + 4 from rfl, digits256_add, List.append_assoc]
  generalize n / 256 ^ 4 = hi at hhi
  have hlow : (digits256 4 n).length = 4 := length_digits256 4 n
  generalize digits256 4 n = low at hlow
  have hlen : (low ++ rest).length = 4 + rest.length := by rw [List.length_append, hlow]
  have hword : getWord 4 (digits256 4 hi ++ (low ++ rest)) = (some hi, low ++ rest) :=
    getWord_append hhi _
  change (getByteArray _).2 = rest ↔ _
  unfold getByteArray getSize
  rw [hword]
  dsimp only
  split_ifs with hnull hsmall
  · -- a null array leaves the other four bytes
    have hne : low ++ rest ≠ rest := fun h => by
      have := congrArg List.length h
      omega
    simp [hne, hnull]
  · dsimp only
    split_ifs with hle
    · constructor
      · intro h
        have := congrArg List.length h
        rw [List.length_drop] at this
        left
        omega
      · rintro (rfl | ⟨rfl, hgt, -⟩)
        · exact List.drop_left' hlow
        · rw [hlen] at hle
          simp only [List.length_nil] at hle
          omega
    · constructor
      · intro h
        exact .inr ⟨h.symm, by omega, hnull⟩
      · rintro (rfl | ⟨h, -⟩)
        · omega
        · exact h.symm
  · obtain rfl : hi = 0xFFFFFFFE := by omega
    rw [show (4294967294 : ℕ) = 4 ↔ False by simp, false_or]
    by_cases hshort : (low ++ rest).length < 8
    · have hget : getWord 8 (low ++ rest) = (none, []) := if_pos hshort
      rw [hget]
      exact ⟨fun h => ⟨h.symm, by norm_num, by norm_num⟩, fun h => h.1.symm⟩
    · -- the 64-bit size takes bytes of what follows
      have hget : getWord 8 (low ++ rest) = (some (ofDigits256 ((low ++ rest).take 8)),
          (low ++ rest).drop 8) := if_neg hshort
      have hne : ∀ m, ((low ++ rest).drop 8).drop m ≠ rest := fun m h => by
        have := congrArg List.length h
        rw [List.length_drop, List.length_drop] at this
        omega
      have hrest : rest ≠ [] := by
        rintro rfl
        rw [hlen] at hshort
        simp at hshort
      rw [hget]
      dsimp only
      split_ifs with hsize
      · dsimp only
        split_ifs with hle
        · exact iff_of_false (hne _) fun h => hrest h.1
        · exact iff_of_false (Ne.symm hrest) fun h => hrest h.1
      · have := hne 0
        rw [List.drop_zero] at this
        simp only [this, hrest, false_and]

/-! ## `QString` -/

/-- The UTF-16 code units of a character. -/
def utf16 (c : Char) : List ℕ :=
  if c.toNat < 0x10000 then [c.toNat]
  else [0xD800 + (c.toNat - 0x10000) / 0x400, 0xDC00 + (c.toNat - 0x10000) % 0x400]

/-- The characters of a sequence of code units. -/
def ofUtf16 : List ℕ → List Char
  | hi :: lo :: units =>
    if 0xD800 ≤ hi ∧ hi < 0xDC00 ∧ 0xDC00 ≤ lo ∧ lo < 0xE000 then
      Char.ofNat (0x10000 + (hi - 0xD800) * 0x400 + (lo - 0xDC00)) :: ofUtf16 units
    else Char.ofNat hi :: ofUtf16 (lo :: units)
  | [u] => [Char.ofNat u]
  | [] => []

/-- The code units in a byte string. -/
def units : Bytes → List ℕ
  | hi :: lo :: bytes => (hi.val * 256 + lo.val) :: units bytes
  | _ => []

theorem ofUtf16_utf16_append (c : Char) (us : List ℕ) :
    ofUtf16 (utf16 c ++ us) = c :: ofUtf16 us := by
  have hvalid := c.valid
  have hrange : c.toNat < 0xD800 ∨ (0xDFFF < c.toNat ∧ c.toNat < 0x110000) := hvalid
  unfold utf16
  split_ifs with hbmp
  · -- a character of the basic plane is no high surrogate
    have hnot : ¬ (0xD800 ≤ c.toNat ∧ c.toNat < 0xDC00) := by omega
    cases us with
    | nil => simp [ofUtf16]
    | cons lo us =>
      have hnot' : ¬ (0xD800 ≤ c.toNat ∧ c.toNat < 0xDC00 ∧ 0xDC00 ≤ lo ∧ lo < 0xE000) :=
        fun h => hnot ⟨h.1, h.2.1⟩
      simp only [List.singleton_append, ofUtf16, if_neg hnot', Char.ofNat_toNat]
  · obtain ⟨n, hn⟩ : ∃ n, c.toNat = 0x10000 + n := ⟨c.toNat - 0x10000, by omega⟩
    rw [hn, Nat.add_sub_cancel_left]
    have hpair : 0xD800 ≤ 0xD800 + n / 0x400 ∧ 0xD800 + n / 0x400 < 0xDC00 ∧
        0xDC00 ≤ 0xDC00 + n % 0x400 ∧ 0xDC00 + n % 0x400 < 0xE000 := by omega
    have hsum : 0x10000 + (0xD800 + n / 0x400 - 0xD800) * 0x400 + (0xDC00 + n % 0x400 - 0xDC00) =
        c.toNat := by omega
    simp only [List.cons_append, List.nil_append, ofUtf16, if_pos hpair, hsum, Char.ofNat_toNat]

theorem ofUtf16_flatMap (s : List Char) : ofUtf16 (s.flatMap utf16) = s := by
  induction s with
  | nil => rfl
  | cons c s ih => rw [List.flatMap_cons, ofUtf16_utf16_append, ih]

theorem utf16_lt (c : Char) : ∀ u ∈ utf16 c, u < 65536 := by
  have hrange : c.toNat < 0xD800 ∨ (0xDFFF < c.toNat ∧ c.toNat < 0x110000) := c.valid
  unfold utf16
  split_ifs with hbmp <;> simp <;> omega

theorem units_flatMap (us : List ℕ) (h : ∀ u ∈ us, u < 65536) :
    units (us.flatMap (digits256 2)) = us := by
  induction us with
  | nil => rfl
  | cons u us ih =>
    have hu := h u (by simp)
    have htail := ih fun v hv => h v (List.mem_cons_of_mem _ hv)
    have hword : digits256 2 u = [Fin.ofNat 256 (u / 256 ^ 1), Fin.ofNat 256 (u / 256 ^ 0)] := rfl
    rw [List.flatMap_cons, hword, List.cons_append, List.cons_append, List.nil_append, units, htail]
    simp only [Fin.val_ofNat]
    congr 1
    omega

/-- The text of a `QString` in a stream. -/
def stringBytes (s : String) : Bytes := (s.toList.flatMap utf16).flatMap (digits256 2)

theorem even_length_stringBytes (s : String) : (stringBytes s).length % 2 = 0 := by
  unfold stringBytes
  generalize s.toList.flatMap utf16 = us
  induction us with
  | nil => rfl
  | cons u us ih => simp only [List.flatMap_cons, List.length_append, length_digits256]; omega

theorem ofUtf16_units_stringBytes (s : String) :
    String.ofList (ofUtf16 (units (stringBytes s))) = s := by
  have hlt : ∀ u ∈ s.toList.flatMap utf16, u < 65536 := by
    intro u hu
    obtain ⟨c, -, hc⟩ := List.mem_flatMap.mp hu
    exact utf16_lt c u hc
  rw [stringBytes, units_flatMap _ hlt, ofUtf16_flatMap, String.ofList_toList]

/-- `QDataStream >> QString`. A null string is an empty one; an odd size is
    corrupt data. -/
def getString (data : Bytes) : Option String × Bytes :=
  match getSize data with
  | (none, data) => (none, data)
  | (some .null, data) => (some "", data)
  | (some (.size n), data) =>
    if n % 2 = 1 then (none, data)
    else if n ≤ data.length then (some (String.ofList (ofUtf16 (units (data.take n)))), data.drop n)
    else (none, [])

/-- `QDataStream << QString`. -/
def string : Wire String where
  put s := putSize (stringBytes s).length ++ stringBytes s
  get := getString
  get_put s rest hlen := by
    have hs : (stringBytes s).length < 2 ^ 63 := by
      simp only [List.length_append] at hlen
      omega
    rw [List.append_assoc]
    simp [getString, getSize_putSize hs, even_length_stringBytes, ofUtf16_units_stringBytes]

/-! ## Containers -/

/-- `QDataStream` on a `QList`: the number of elements and the elements. -/
def sequence {β : Type*} (W : Wire β) (hpos : ∀ v, W.put v ≠ []) : Wire (List β) where
  put vs := putSize vs.length ++ W.putN vs
  get data :=
    match getSize data with
    | (some (.size n), data) => W.getN n data
    | (_, data) => (none, data)
  get_put vs rest hlen := by
    rw [List.length_append] at hlen
    have hcount := W.length_le_putN hpos vs
    rw [List.append_assoc, getSize_putSize (by omega)]
    exact W.getN_putN vs rest (by omega)

/-- `QDataStream` on a `QVariant` that holds a `QString` (type id 10, then the
    null flag). Variants of other types are not read. -/
def variant : Wire String where
  put s := digits256 4 10 ++ (digits256 1 0 ++ string.put s)
  get data :=
    match getWord 4 data with
    | (some 10, data) => string.get (getWord 1 data).2
    | (_, data) => (none, data)
  get_put s rest hlen := by
    simp only [List.length_append, length_digits256] at hlen
    have htype : getWord 4 (digits256 4 10 ++ (digits256 1 0 ++ (string.put s ++ rest))) =
        (some 10, digits256 1 0 ++ (string.put s ++ rest)) := getWord_append (by norm_num) _
    have hnull : getWord 1 (digits256 1 0 ++ (string.put s ++ rest)) =
        (some 0, string.put s ++ rest) := getWord_append (by norm_num) _
    rw [List.append_assoc, List.append_assoc, htype]
    simp only [hnull]
    exact string.get_put s rest (by omega)

/-- A `QVariantMap` that holds strings. -/
abbrev VariantMap := Std.ExtTreeMap String String compare

theorem ofList_toList (m : VariantMap) : Std.ExtTreeMap.ofList m.toList compare = m := by
  apply Std.ExtTreeMap.ext_getElem?
  intro k
  cases h : m[k]? with
  | none =>
    refine Std.ExtTreeMap.getElem?_ofList_of_contains_eq_false ?_
    rw [Std.ExtTreeMap.map_fst_toList_eq_keys]
    have hnot : k ∉ m.keys := by
      rw [Std.ExtTreeMap.mem_keys, Std.ExtTreeMap.mem_iff_isSome_getElem?, h]
      simp
    simpa using hnot
  | some v =>
    exact Std.ExtTreeMap.getElem?_ofList_of_mem (compare_eq_iff_eq.mpr rfl)
      Std.ExtTreeMap.distinct_keys_toList (Std.ExtTreeMap.mem_toList_iff_getElem?_eq_some.mpr h)

/-- `QDataStream` on a `QVariantMap`: the number of entries and the entries in
    the order of their keys. -/
def variantMap : Wire VariantMap :=
  (sequence (string.pair variant) fun v h => putSize_ne_nil _ (by
    have := (List.append_eq_nil_iff.mp h).1
    exact (List.append_eq_nil_iff.mp this).1)).iso
    (fun l => Std.ExtTreeMap.ofList l compare) (fun m => m.toList) ofList_toList

end NekoBox.Qt
