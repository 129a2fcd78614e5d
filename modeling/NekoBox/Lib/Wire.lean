import Mathlib

/-!
# Self-delimiting encodings

A `Wire` writes a value in front of a byte string and reads it back off its
front. The law `get_put` says that reading stops exactly where writing ended.
It is conditional on the length of the encoding: a length field has 64 bits.

* `Wire.bigEndian`: fixed-width words;
* `getN_putN`, `Wire.iso`: sequences of values, and values up to a bijection;
* `length_le_putN`: the encoding of a sequence is at least as long as it, so a
  bound on the encoding bounds every length written into it.
-/

namespace NekoBox.Lib

abbrev Byte := Fin 256

instance neZero_256 : NeZero 256 := ⟨by decide⟩

abbrev Bytes := List Byte

instance transOrd_bytes : Std.TransOrd Bytes := inferInstance

/-- An encoding of `β`. `get` is `none` when the input ends too early; the
    second component is what is left of the input in either case. -/
structure Wire (β : Type*) where
  put : β → Bytes
  get : Bytes → Option β × Bytes
  get_put : ∀ v rest, (put v).length < 2 ^ 63 → get (put v ++ rest) = (some v, rest)

/-! ## Words -/

/-- The last `k` base-256 digits of `n`, the most significant first. -/
def digits256 : ℕ → ℕ → Bytes
  | 0, _ => []
  | k + 1, n => Fin.ofNat 256 (n / 256 ^ k) :: digits256 k n

/-- The number with the given base-256 digits. -/
def ofDigits256 (bs : Bytes) : ℕ := bs.foldl (fun n b => n * 256 + b.val) 0

@[simp] theorem length_digits256 (k n : ℕ) : (digits256 k n).length = k := by
  induction k with
  | zero => rfl
  | succ k ih => simp [digits256, ih]

theorem foldl_digits256 (k n acc : ℕ) :
    (digits256 k n).foldl (fun n b => n * 256 + b.val) acc = acc * 256 ^ k + n % 256 ^ k := by
  induction k generalizing acc with
  | zero => simp [digits256, Nat.mod_one]
  | succ k ih =>
    have hmod : n % 256 ^ (k + 1) = n / 256 ^ k % 256 * 256 ^ k + n % 256 ^ k := by
      rw [pow_succ, Nat.mod_mul, add_comm, mul_comm]
    rw [digits256, List.foldl_cons, ih, hmod, Fin.val_ofNat, pow_succ]
    ring

theorem ofDigits256_digits256 {k n : ℕ} (h : n < 256 ^ k) : ofDigits256 (digits256 k n) = n := by
  rw [ofDigits256, foldl_digits256, Nat.mod_eq_of_lt h]
  simp

theorem digits256_add (j k n : ℕ) :
    digits256 (j + k) n = digits256 j (n / 256 ^ k) ++ digits256 k n := by
  induction j with
  | zero => simp [digits256]
  | succ j ih =>
    rw [Nat.add_right_comm, digits256, digits256, ih, List.cons_append, Nat.div_div_eq_div_mul,
      ← pow_add, Nat.add_comm k j]

/-- Read `k` bytes as a number, all that is left if there are fewer. -/
def getWord (k : ℕ) (data : Bytes) : Option ℕ × Bytes :=
  if data.length < k then (none, []) else (some (ofDigits256 (data.take k)), data.drop k)

theorem getWord_append {k n : ℕ} (h : n < 256 ^ k) (rest : Bytes) :
    getWord k (digits256 k n ++ rest) = (some n, rest) := by
  have hlen : ¬ (digits256 k n ++ rest).length < k := by simp
  rw [getWord, if_neg hlen, List.take_left' (length_digits256 k n),
    List.drop_left' (length_digits256 k n), ofDigits256_digits256 h]

/-- The least significant byte first. -/
def littleEndian (k n : ℕ) : Bytes := (digits256 k n).reverse

theorem ofDigits256_littleEndian {k n : ℕ} (h : n < 256 ^ k) :
    ofDigits256 (littleEndian k n).reverse = n := by
  rw [littleEndian, List.reverse_reverse, ofDigits256_digits256 h]

namespace Wire

variable {β γ : Type*}

/-- A word of `8 k` bits, big-endian. -/
def bigEndian (k : ℕ) : Wire (BitVec (8 * k)) where
  put v := digits256 k v.toNat
  get data :=
    let (n, rest) := getWord k data
    (n.map (BitVec.ofNat (8 * k)), rest)
  get_put v rest _ := by
    have hv : v.toNat < 256 ^ k := by
      have := v.isLt
      rwa [pow_mul] at this
    simp [getWord_append hv]

/-- The values of `γ`, encoded as those of `β`. -/
def iso (W : Wire β) (f : β → γ) (g : γ → β) (h : ∀ v, f (g v) = v) : Wire γ where
  put v := W.put (g v)
  get data :=
    let (v, rest) := W.get data
    (v.map f, rest)
  get_put v rest hlen := by simp [W.get_put (g v) rest hlen, h]

/-- Two values in a row. -/
def pair (V : Wire β) (W : Wire γ) : Wire (β × γ) where
  put v := V.put v.1 ++ W.put v.2
  get data :=
    let (v, data) := V.get data
    let (w, data) := W.get data
    (v.bind fun v => w.map fun w => (v, w), data)
  get_put v rest hlen := by
    rw [List.length_append] at hlen
    rw [List.append_assoc]
    simp [V.get_put v.1 _ (by omega), W.get_put v.2 rest (by omega)]

/-! ## Sequences -/

variable (W : Wire β)

/-- The encodings of the values in a row. -/
def putN (vs : List β) : Bytes := vs.flatMap W.put

/-- Read `n` values; the first one that is cut short ends the reading. -/
def getN : ℕ → Bytes → Option (List β) × Bytes
  | 0, data => (some [], data)
  | n + 1, data =>
    match W.get data with
    | (none, data) => (none, data)
    | (some v, data) =>
      let (vs, data) := getN n data
      (vs.map (v :: ·), data)

theorem getN_putN (vs : List β) (rest : Bytes) (h : (W.putN vs).length < 2 ^ 63) :
    W.getN vs.length (W.putN vs ++ rest) = (some vs, rest) := by
  induction vs with
  | nil => rfl
  | cons v vs ih =>
    have hlen : (W.put v).length + (W.putN vs).length < 2 ^ 63 := by
      simpa [putN] using h
    have hput : W.putN (v :: vs) ++ rest = W.put v ++ (W.putN vs ++ rest) := by simp [putN]
    rw [hput, List.length_cons, getN, W.get_put v _ (by omega)]
    simp only [ih (by omega), Option.map_some]

/-- A sequence of values with encodings that are not empty is no longer than
    its encoding. -/
theorem length_le_putN (hpos : ∀ v, W.put v ≠ []) (vs : List β) :
    vs.length ≤ (W.putN vs).length := by
  induction vs with
  | nil => simp
  | cons v vs ih =>
    have := List.length_pos_iff.mpr (hpos v)
    simp only [putN, List.flatMap_cons, List.length_append, List.length_cons] at ih ⊢
    omega

end Wire

end NekoBox.Lib
