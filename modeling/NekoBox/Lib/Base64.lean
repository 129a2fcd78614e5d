import NekoBox.Lib.Wire

/-!
# Base64

Base64 with any alphabet of 64 characters and the padding `=`: the encoding of
bytes, and a decoder that reads the digits one after another and refuses what is
no digit, unless it is the padding of a text whose length is a multiple of 4.

* `decode_encode`: what was encoded is decoded.
-/

namespace NekoBox.Lib.Base64

/-- An alphabet: the character of each of the 64 digits. -/
structure Alphabet where
  char : ℕ → Char
  digit : Char → Option ℕ
  digit_char : ∀ n < 64, digit (char n) = some n
  digit_pad : digit '=' = none

variable (A : Alphabet)

/-- The characters of each group of three bytes, and the padding. -/
def encode : Bytes → List Char
  | [] => []
  | [a] => [A.char (a.val / 4), A.char (a.val % 4 * 16), '=', '=']
  | [a, b] =>
    [A.char (a.val / 4), A.char (a.val % 4 * 16 + b.val / 16), A.char (b.val % 16 * 4), '=']
  | a :: b :: c :: rest =>
    A.char (a.val / 4) :: A.char (a.val % 4 * 16 + b.val / 16) ::
      A.char (b.val % 16 * 4 + c.val / 64) :: A.char (c.val % 64) :: encode rest

/-- The decoder has `nbits` bits in `buf` that are not put out yet. -/
def decodeLoop (size : ℕ) : List Char → ℕ → ℕ → Option Bytes
  | [], _, _ => some []
  | ch :: rest, buf, nbits =>
    match A.digit ch with
    | some d =>
      let buf := buf * 64 + d
      let nbits := nbits + 6
      if 8 ≤ nbits then
        let nbits := nbits - 8
        (decodeLoop size rest (buf % 2 ^ nbits) nbits).map (Fin.ofNat 256 (buf / 2 ^ nbits) :: ·)
      else decodeLoop size rest buf nbits
    | none => if ch = '=' ∧ size % 4 = 0 ∧ (rest = [] ∨ rest = ['=']) then some [] else none

def decode (s : List Char) : Option Bytes := decodeLoop A s.length s 0 0

theorem length_encode (bs : Bytes) : (encode A bs).length % 4 = 0 := by
  induction bs using encode.induct with
  | case1 => rfl
  | case2 a =>
    rw [encode]
    simp only [List.length_cons, List.length_nil]
  | case3 a b =>
    rw [encode]
    simp only [List.length_cons, List.length_nil]
  | case4 a b c rest ih =>
    rw [encode]
    simp only [List.length_cons]
    omega

variable {A} {size d : ℕ}

/-- A digit that completes no byte. -/
theorem decodeLoop_digit (hd : d < 64) (rest : List Char) (buf : ℕ) {nbits : ℕ} (hbits : nbits < 2) :
    decodeLoop A size (A.char d :: rest) buf nbits =
      decodeLoop A size rest (buf * 64 + d) (nbits + 6) := by
  rw [decodeLoop, A.digit_char d hd]
  exact if_neg (by omega)

/-- A digit that completes a byte, of which the rest of the buffer is kept. -/
theorem decodeLoop_byte (hd : d < 64) (rest : List Char) (buf : ℕ) {nbits : ℕ} (hbits : 2 ≤ nbits) :
    decodeLoop A size (A.char d :: rest) buf nbits =
      (decodeLoop A size rest ((buf * 64 + d) % 2 ^ (nbits - 2)) (nbits - 2)).map
        (Fin.ofNat 256 ((buf * 64 + d) / 2 ^ (nbits - 2)) :: ·) := by
  have hleft : nbits + 6 - 8 = nbits - 2 := by omega
  rw [decodeLoop, A.digit_char d hd]
  show (if 8 ≤ nbits + 6 then _ else _) = _
  rw [if_pos (by omega), hleft]

theorem decodeLoop_pad (hsize : size % 4 = 0) {rest : List Char} (hrest : rest = [] ∨ rest = ['='])
    (buf nbits : ℕ) : decodeLoop A size ('=' :: rest) buf nbits = some [] := by
  rw [decodeLoop, A.digit_pad]
  exact if_pos ⟨rfl, hsize, hrest⟩

theorem ofNat_eq {n : ℕ} {a : Byte} (h : n = a.val) : Fin.ofNat 256 n = a := by
  apply Fin.ext
  rw [h]
  exact Nat.mod_eq_of_lt a.isLt

theorem decodeLoop_encode (hsize : size % 4 = 0) (bs : Bytes) :
    decodeLoop A size (encode A bs) 0 0 = some bs := by
  induction bs using encode.induct with
  | case1 => rfl
  | case2 a =>
    have ha := a.isLt
    rw [encode, decodeLoop_digit (by omega) _ _ (by decide),
      decodeLoop_byte (by omega) _ _ (by decide), decodeLoop_pad hsize (Or.inr rfl),
      Option.map_some, ofNat_eq (a := a) (by omega)]
  | case3 a b =>
    have ha := a.isLt
    have hb := b.isLt
    rw [encode, decodeLoop_digit (by omega) _ _ (by decide),
      decodeLoop_byte (by omega) _ _ (by decide), decodeLoop_byte (by omega) _ _ (by decide),
      decodeLoop_pad hsize (Or.inl rfl), Option.map_some, Option.map_some,
      ofNat_eq (a := a) (by omega), ofNat_eq (a := b) (by omega)]
  | case4 a b c rest ih =>
    have ha := a.isLt
    have hb := b.isLt
    have hc := c.isLt
    have hlast : ((((0 * 64 + a.val / 4) * 64 + (a.val % 4 * 16 + b.val / 16)) % 2 ^ (0 + 6 - 2) * 64 +
        (b.val % 16 * 4 + c.val / 64)) % 2 ^ (0 + 6 - 2 - 2) * 64 + c.val % 64) %
        2 ^ (0 + 6 - 2 - 2 - 2) = 0 := by
      omega
    rw [encode, decodeLoop_digit (by omega) _ _ (by decide),
      decodeLoop_byte (by omega) _ _ (by decide), decodeLoop_byte (by omega) _ _ (by decide),
      decodeLoop_byte (by omega) _ _ (by decide), hlast, ih, Option.map_some, Option.map_some,
      Option.map_some, ofNat_eq (a := a) (by omega), ofNat_eq (a := b) (by omega),
      ofNat_eq (a := c) (by omega)]

/-- What was encoded is decoded. -/
theorem decode_encode (bs : Bytes) : decode A (encode A bs) = some bs :=
  decodeLoop_encode (length_encode A bs) bs

/-! ## The alphabet for URLs -/

def urlChar (n : ℕ) : Char :=
  if n < 26 then Char.ofNat ('A'.toNat + n)
  else if n < 52 then Char.ofNat ('a'.toNat + (n - 26))
  else if n < 62 then Char.ofNat ('0'.toNat + (n - 52))
  else if n = 62 then '-'
  else '_'

def urlDigit (ch : Char) : Option ℕ :=
  let c := ch.toNat
  if 'A'.toNat ≤ c ∧ c ≤ 'Z'.toNat then some (c - 'A'.toNat)
  else if 'a'.toNat ≤ c ∧ c ≤ 'z'.toNat then some (c - 'a'.toNat + 26)
  else if '0'.toNat ≤ c ∧ c ≤ '9'.toNat then some (c - '0'.toNat + 52)
  else if ch = '-' then some 62
  else if ch = '_' then some 63
  else none

/-- The alphabet with `-` and `_` in place of `+` and `/`. -/
def urlAlphabet : Alphabet where
  char := urlChar
  digit := urlDigit
  digit_char := by decide
  digit_pad := by decide

example : String.ofList (encode urlAlphabet [97, 58, 255]) = "YTr_" := by decide

end NekoBox.Lib.Base64
