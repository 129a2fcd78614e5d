import NekoBox.Lib.Wire
import NekoBox.Qt.Strings

/-!
# Encoded words

`decodeQuotedPrintableWord` and `decodeMimeWords` (`GroupUpdater.cpp`, lines 30–75): the
title of a subscription may come as the encoded words of RFC 2047.

* `decode_of_encodes`: a byte string is read back from each of its Q-encodings;
* `decode_eq_iff`: an escape that is none is kept, but for one that `toUInt` reads;
* `decodeMimeWords_of_splits`: the text around the words of a header is kept.
-/

namespace NekoBox.Subscription

open NekoBox.Lib NekoBox.Qt

/-! ## Numbers -/

/-- A byte of a literal of the source. -/
def byte (c : Char) : Byte := Fin.ofNat 256 c.toNat

def hexDigit (b : Byte) : Option ℕ :=
  if 48 ≤ b.val ∧ b.val ≤ 57 then some (b.val - 48)
  else if 65 ≤ b.val ∧ b.val ≤ 70 then some (b.val - 55)
  else if 97 ≤ b.val ∧ b.val ≤ 102 then some (b.val - 87)
  else none

/-- `ascii_isspace` -/
def isSpaceByte (b : Byte) : Bool := b.val == 32 || (9 ≤ b.val && b.val ≤ 13)

/-- Where the number starts, behind blanks and a plus sign. -/
def numberStart (s : Bytes) : Bytes :=
  let s := s.dropWhile isSpaceByte
  if s.head? = some (byte '+') then s.tail else s

/-- The `0x` of base 16. -/
def skipPrefix : Bytes → Bytes
  | a :: b :: rest =>
    if a = byte '0' ∧ (b = byte 'x' ∨ b = byte 'X') then rest else a :: b :: rest
  | s => s

/-- `std::from_chars`; the number ends with the array or at a NUL. -/
def readDigits (s : Bytes) : Option ℕ :=
  let digits := s.takeWhile fun b => (hexDigit b).isSome
  let rest := s.dropWhile fun b => (hexDigit b).isSome
  let value := digits.foldl (fun n b => 16 * n + (hexDigit b).getD 0) 0
  if digits ≠ [] ∧ (rest.head? = none ∨ rest.head? = some 0) ∧ value < 2 ^ 32 then some value
  else none

/-- `QByteArray::toUInt(&ok, 16)` -/
def toUInt (s : Bytes) : Option ℕ := readDigits (skipPrefix (numberStart s))

/-- A pair that is read as a number though it is not two digits. -/
def Slips (a b : Byte) : Prop :=
  (isSpaceByte a = true ∨ a = byte '+') ∧ (hexDigit b).isSome = true ∨
    (hexDigit a).isSome = true ∧ b = 0

instance (a b : Byte) : Decidable (Slips a b) := inferInstanceAs (Decidable (_ ∨ _))

theorem hexDigit_lt {b : Byte} {x : ℕ} (h : hexDigit b = some x) : x < 16 := by
  unfold hexDigit at h
  split_ifs at h <;> obtain rfl := Option.some.inj h <;> omega

theorem isSpaceByte_of_hexDigit {b : Byte} {x : ℕ} (h : hexDigit b = some x) :
    isSpaceByte b = false := by
  unfold hexDigit at h
  unfold isSpaceByte
  split_ifs at h <;> simp <;> omega

theorem ne_of_hexDigit {b c : Byte} {x : ℕ} (h : hexDigit b = some x) (hc : hexDigit c = none) :
    b ≠ c := by
  rintro rfl
  rw [hc] at h
  cases h

theorem readDigits_of_none {a : Byte} (ha : hexDigit a = none) (s : Bytes) :
    readDigits (a :: s) = none := by
  simp [readDigits, ha]

theorem readDigits_one {a : Byte} {x : ℕ} (ha : hexDigit a = some x) :
    readDigits [a] = some x := by
  have hlt := hexDigit_lt ha
  have hsmall : x < 4294967296 := by omega
  simp [readDigits, ha, hsmall]

theorem readDigits_two {a b : Byte} {x : ℕ} (ha : hexDigit a = some x) :
    readDigits [a, b] =
      match hexDigit b with
      | some y => some (16 * x + y)
      | none => if b = 0 then some x else none := by
  have hlt := hexDigit_lt ha
  cases hb : hexDigit b with
  | some y =>
    have hltb := hexDigit_lt hb
    have hsmall : 16 * x + y < 4294967296 := by omega
    simp [readDigits, ha, hb, hsmall]
  | none =>
    have hsmall : x < 4294967296 := by omega
    simp [readDigits, ha, hb, hsmall]

/-- What the parser makes of the two bytes behind a `=`. -/
theorem toUInt_pair (a b : Byte) :
    toUInt [a, b] =
      match hexDigit a, hexDigit b with
      | some x, some y => some (16 * x + y)
      | some x, none => if b = 0 then some x else none
      | none, some y => if isSpaceByte a = true ∨ a = byte '+' then some y else none
      | none, none => none := by
  have hplus : hexDigit (byte '+') = none := by decide
  cases ha : hexDigit a with
  | some x =>
    have hstart : numberStart [a, b] = [a, b] := by
      simp [numberStart, isSpaceByte_of_hexDigit ha, ne_of_hexDigit ha hplus]
    by_cases hprefix : a = byte '0' ∧ (b = byte 'x' ∨ b = byte 'X')
    · have hb : hexDigit b = none ∧ b ≠ 0 := by
        rcases hprefix.2 with rfl | rfl <;> decide
      have hskip : skipPrefix [a, b] = [] := if_pos hprefix
      have hnil : readDigits [] = none := rfl
      rw [toUInt, hstart, hskip, hnil, hb.1]
      exact (if_neg hb.2).symm
    · have hskip : skipPrefix [a, b] = [a, b] := if_neg hprefix
      rw [toUInt, hstart, hskip, readDigits_two ha]
      cases hexDigit b <;> rfl
  | none =>
    have hzero : a ≠ byte '0' := by
      rintro rfl
      exact absurd ha (by decide)
    have hone : ∀ s : Bytes, s.length ≤ 1 → skipPrefix s = s := by
      intro s hs
      match s with
      | [] => rfl
      | [_] => rfl
    -- the number starts at the second byte, if there is one
    by_cases hfirst : isSpaceByte a = true ∨ a = byte '+'
    · cases hb : hexDigit b with
      | some y =>
        have hstart : numberStart [a, b] = [b] := by
          rcases hfirst with hspace | rfl
          · simp [numberStart, hspace, isSpaceByte_of_hexDigit hb, ne_of_hexDigit hb hplus]
          · simp [numberStart, isSpaceByte, byte]
        rw [toUInt, hstart, hone [b] (by simp), readDigits_one hb]
        simp [hfirst]
      | none =>
        have hstart : numberStart [a, b] = [b] ∨ numberStart [a, b] = [] := by
          rcases hfirst with hspace | rfl
          · cases hspaceb : isSpaceByte b with
            | true => simp [numberStart, hspace, hspaceb]
            | false =>
              refine .symm ((em (b = byte '+')).imp (fun hb' => ?_) fun hb' => ?_)
              · simp [numberStart, hspace, hspaceb, ← hb']
              · simp [numberStart, hspace, hspaceb, hb']
          · simp [numberStart, isSpaceByte, byte]
        rcases hstart with hstart | hstart
        · rw [toUInt, hstart, hone [b] (by simp), readDigits_of_none hb]
        · rw [toUInt, hstart]
          rfl
    · obtain ⟨hspace, hnot⟩ := not_or.mp hfirst
      have hstart : numberStart [a, b] = [a, b] := by simp [numberStart, hspace, hnot]
      have hskip : skipPrefix [a, b] = [a, b] := if_neg fun h => hzero h.1
      rw [toUInt, hstart, hskip, readDigits_of_none ha]
      cases hexDigit b with
      | some y => simp [hfirst]
      | none => rfl

/-! ## Q-encoded words -/

/-- The loop of `decodeQuotedPrintableWord`. -/
def decodeLoop : Bytes → Bytes
  | [] => []
  | [c] => [if c = byte '_' then byte ' ' else c]
  | [c, a] => (if c = byte '_' then byte ' ' else c) :: decodeLoop [a]
  | c :: a :: b :: rest =>
    if c = byte '_' then byte ' ' :: decodeLoop (a :: b :: rest)
    else if c = byte '=' then
      match toUInt [a, b] with
      | some n => Fin.ofNat 256 n :: decodeLoop rest
      | none => c :: decodeLoop (a :: b :: rest)
    else c :: decodeLoop (a :: b :: rest)

/-- `value.replace('_', ' ')` -/
def unscore (b : Byte) : Byte := if b = byte '_' then byte ' ' else b

def decodeQuotedPrintableWord (value : Bytes) : Bytes := decodeLoop (value.map unscore)

/-- The Q-encodings of a byte string: what is printable may stand for itself. -/
inductive Encodes : Bytes → Bytes → Prop
  | nil : Encodes [] []
  | literal (b : Byte) (bs e : Bytes) : 33 ≤ b.val → b.val ≤ 126 → b ≠ byte '=' → b ≠ byte '?' →
    b ≠ byte '_' → Encodes bs e → Encodes (b :: bs) (b :: e)
  | space (bs e : Bytes) : Encodes bs e → Encodes (byte ' ' :: bs) (byte '_' :: e)
  | hex (b x y : Byte) (bs e : Bytes) : hexDigit x = some (b.val / 16) →
    hexDigit y = some (b.val % 16) → Encodes bs e → Encodes (b :: bs) (byte '=' :: x :: y :: e)

theorem exists_encodes (bs : Bytes) : ∃ e, Encodes bs e := by
  have hdigit : ∀ n < 16, ∃ x, hexDigit x = some n := by
    intro n hn
    by_cases hdec : n < 10
    · exact ⟨⟨48 + n, by omega⟩, by simp [hexDigit]; omega⟩
    · refine ⟨⟨55 + n, by omega⟩, ?_⟩
      rw [hexDigit, if_neg (by dsimp only; omega), if_pos (by dsimp only; omega)]
      exact congrArg some (Nat.add_sub_cancel_left 55 n)
  induction bs with
  | nil => exact ⟨[], .nil⟩
  | cons b bs ih =>
    obtain ⟨e, he⟩ := ih
    obtain ⟨x, hx⟩ := hdigit (b.val / 16) (by omega)
    obtain ⟨y, hy⟩ := hdigit (b.val % 16) (by omega)
    exact ⟨_, .hex b x y bs e hx hy he⟩

/-- An `=` with a pair that is read stands for a byte, the rest for itself. -/
def unescape (read : Byte → Byte → Option ℕ) : Bytes → Bytes
  | c :: a :: b :: rest =>
    if c = byte '=' then
      match read a b with
      | some n => Fin.ofNat 256 n :: unescape read rest
      | none => c :: unescape read (a :: b :: rest)
    else c :: unescape read (a :: b :: rest)
  | s => s

def digitPair (a b : Byte) : Option ℕ :=
  match hexDigit a, hexDigit b with
  | some x, some y => some (16 * x + y)
  | _, _ => none

/-- What a Q-encoded word says: an escape is an `=` with two hexadecimal digits, and an
    underscore is a blank. -/
def escapesOnly (value : Bytes) : Bytes := unescape digitPair (value.map unscore)

section Unescape

variable {read read' : Byte → Byte → Option ℕ}

theorem unescape_cons_of_ne {c : Byte} (hc : c ≠ byte '=') (s : Bytes) :
    unescape read (c :: s) = c :: unescape read s := by
  match s with
  | [] => rfl
  | [_] => rfl
  | a :: b :: rest => rw [unescape, if_neg hc]

theorem unescape_some {a b : Byte} {n : ℕ} (h : read a b = some n) (rest : Bytes) :
    unescape read (byte '=' :: a :: b :: rest) = Fin.ofNat 256 n :: unescape read rest := by
  rw [unescape, if_pos rfl, h]

theorem unescape_none {a b : Byte} (h : read a b = none) (rest : Bytes) :
    unescape read (byte '=' :: a :: b :: rest) = byte '=' :: unescape read (a :: b :: rest) := by
  rw [unescape, if_pos rfl, h]

/-- The underscores are gone before the loop. -/
theorem decodeLoop_eq {s : Bytes} (h : byte '_' ∉ s) :
    decodeLoop s = unescape (fun a b => toUInt [a, b]) s := by
  induction s using decodeLoop.induct with
  | case1 => rfl
  | case2 c =>
    have hc : c ≠ byte '_' := fun hc => h (hc ▸ List.mem_cons_self ..)
    rw [decodeLoop, if_neg hc]
    rfl
  | case3 c a ih =>
    have hc : c ≠ byte '_' := fun hc => h (hc ▸ List.mem_cons_self ..)
    rw [decodeLoop, if_neg hc, ih (List.not_mem_of_not_mem_cons h)]
    rfl
  | case4 a b rest ih => exact absurd (List.mem_cons_self ..) h
  | case5 a b rest n hn hne ih =>
    rw [decodeLoop, if_neg hne, if_pos rfl, unescape_some hn, hn]
    refine congrArg _ (ih fun hmem => h ?_)
    simp [hmem]
  | case6 a b rest hn hne ih =>
    rw [decodeLoop, if_neg hne, if_pos rfl, unescape_none hn, hn]
    exact congrArg _ (ih (List.not_mem_of_not_mem_cons h))
  | case7 c a b rest hne hne' ih =>
    rw [decodeLoop, if_neg hne, if_neg hne', unescape_cons_of_ne hne']
    exact congrArg _ (ih (List.not_mem_of_not_mem_cons h))

/-- A byte string comes back whatever pairs are read besides those with two digits. -/
theorem unescape_of_encodes (hread : ∀ a b n, digitPair a b = some n → read a b = some n)
    {bs e : Bytes} (h : Encodes bs e) : unescape read (e.map unscore) = bs := by
  induction h with
  | nil => rfl
  | literal b bs e _ _ hequals _ hscore _ ih =>
    rw [List.map_cons, unscore, if_neg hscore, unescape_cons_of_ne hequals, ih]
  | space bs e _ ih =>
    rw [List.map_cons, unscore, if_pos rfl, unescape_cons_of_ne (by decide), ih]
  | hex b x y bs e hx hy _ ih =>
    have hscore : hexDigit (byte '_') = none := by decide
    have hpair : digitPair x y = some (16 * (b.val / 16) + b.val % 16) := by
      rw [digitPair, hx, hy]
    have hequals : unscore (byte '=') = byte '=' := by decide
    rw [List.map_cons, List.map_cons, List.map_cons, hequals, unscore,
      if_neg (ne_of_hexDigit hx hscore), unscore, if_neg (ne_of_hexDigit hy hscore),
      unescape_some (hread x y _ hpair), ih, Nat.div_add_mod]
    exact congrArg (· :: bs) (Fin.ofNat_val_eq_self b)

/-- A pair that is read is shorter than one that is not. -/
theorem length_unescape_le (hread : ∀ a b n, digitPair a b = some n → read a b = some n)
    (hequals : ∀ a b, read a b ≠ none → a ≠ byte '=' ∧ b ≠ byte '=') (s : Bytes) :
    (unescape read s).length ≤ (unescape digitPair s).length := by
  induction s using unescape.induct read with
  | case1 a b rest n hn ih =>
    rw [unescape_some hn]
    cases hpair : digitPair a b with
    | some m =>
      rw [unescape_some hpair]
      exact Nat.succ_le_succ ih
    | none =>
      obtain ⟨ha, hb⟩ := hequals a b (by simp [hn])
      rw [unescape_none hpair, unescape_cons_of_ne ha, unescape_cons_of_ne hb]
      simp only [List.length_cons]
      omega
  | case2 a b rest hn ih =>
    have hpair : digitPair a b = none := by
      by_contra hsome
      obtain ⟨n, hn'⟩ := Option.ne_none_iff_exists'.mp hsome
      rw [hread a b n hn'] at hn
      cases hn
    rw [unescape_none hn, unescape_none hpair]
    exact Nat.succ_le_succ ih
  | case3 c a b rest hc ih =>
    rw [unescape_cons_of_ne hc, unescape_cons_of_ne hc]
    exact Nat.succ_le_succ ih
  | case4 s hs =>
    have hshort : ∀ r : Byte → Byte → Option ℕ, unescape r s = s := fun r => by
      match s, hs with
      | [], _ => rfl
      | [_], _ => rfl
      | [_, _], _ => rfl
      | c :: a :: b :: rest, hs => exact absurd rfl (hs c a b rest)
    rw [hshort, hshort]

theorem infix_cons_iff {c a b c' : Byte} {s : Bytes} :
    [c, a, b] <:+: c' :: s ↔ (c = c' ∧ ∃ rest, s = a :: b :: rest) ∨ [c, a, b] <:+: s := by
  rw [List.infix_cons_iff]
  refine or_congr_left ?_
  constructor
  · rintro ⟨rest, hrest⟩
    obtain ⟨rfl, rfl⟩ := List.cons.inj hrest
    exact ⟨rfl, rest, rfl⟩
  · rintro ⟨rfl, rest, rfl⟩
    exact ⟨rest, rfl⟩

/-- The two readings differ at a pair that only one of them reads. -/
theorem unescape_eq_iff (hread : ∀ a b n, digitPair a b = some n → read a b = some n)
    (hequals : ∀ a b, read a b ≠ none → a ≠ byte '=' ∧ b ≠ byte '=') (s : Bytes) :
    unescape read s = unescape digitPair s ↔
      ∀ a b, [byte '=', a, b] <:+: s → read a b ≠ none → digitPair a b ≠ none := by
  -- the pair behind a sign holds no sign
  have hskip : ∀ {c : Byte} {s : Bytes}, c ≠ byte '=' →
      ((∀ a b, [byte '=', a, b] <:+: c :: s → read a b ≠ none → digitPair a b ≠ none) ↔
        ∀ a b, [byte '=', a, b] <:+: s → read a b ≠ none → digitPair a b ≠ none) := by
    intro c s hc
    refine forall₂_congr fun a b => ?_
    rw [infix_cons_iff]
    refine imp_congr_left ⟨?_, .inr⟩
    rintro (⟨hc', -⟩ | hinfix)
    · exact absurd hc'.symm hc
    · exact hinfix
  induction s using unescape.induct read with
  | case1 a b rest n hn ih =>
    obtain ⟨ha, hb⟩ := hequals a b (by simp [hn])
    rw [unescape_some hn]
    cases hpair : digitPair a b with
    | some m =>
      have hm := hread a b m hpair
      rw [hn] at hm
      obtain rfl := Option.some.inj hm
      rw [unescape_some hpair, List.cons_inj_right]
      refine (ih.trans ((hskip hb).symm.trans (hskip ha).symm)).trans ?_
      refine forall₂_congr fun a' b' => ?_
      rw [@infix_cons_iff (byte '=') a' b' (byte '=')]
      constructor
      · rintro h (⟨-, rest', hrest⟩ | hinfix)
        · obtain ⟨ha', hrest⟩ := List.cons.inj hrest
          obtain ⟨hb', -⟩ := List.cons.inj hrest
          rw [← ha', ← hb', hpair]
          exact fun _ => Option.some_ne_none _
        · exact h hinfix
      · exact fun h hinfix => h (.inr hinfix)
    | none =>
      constructor
      · -- the pair is lost to the shorter reading
        intro heq
        have hlength := congrArg List.length heq
        have hle := length_unescape_le hread hequals rest
        rw [unescape_none hpair, unescape_cons_of_ne ha, unescape_cons_of_ne hb] at hlength
        simp only [List.length_cons] at hlength
        omega
      · intro h
        exact absurd hpair (h a b (infix_cons_iff.mpr (.inl ⟨rfl, rest, rfl⟩)) (by simp [hn]))
  | case2 a b rest hn ih =>
    have hpair : digitPair a b = none := by
      by_contra hsome
      obtain ⟨n, hn'⟩ := Option.ne_none_iff_exists'.mp hsome
      rw [hread a b n hn'] at hn
      cases hn
    rw [unescape_none hn, unescape_none hpair, List.cons_inj_right]
    refine ih.trans (forall₂_congr fun a' b' => ?_)
    rw [@infix_cons_iff (byte '=') a' b' (byte '=')]
    constructor
    · rintro h (⟨-, rest', hrest⟩ | hinfix)
      · obtain ⟨ha', hrest⟩ := List.cons.inj hrest
        obtain ⟨hb', -⟩ := List.cons.inj hrest
        rw [← ha', ← hb']
        exact fun hread' => absurd hn hread'
      · exact h hinfix
    · exact fun h hinfix => h (.inr hinfix)
  | case3 c a b rest hc ih =>
    rw [unescape_cons_of_ne hc, unescape_cons_of_ne hc, List.cons_inj_right]
    exact ih.trans (hskip hc).symm
  | case4 s hs =>
    have hnot : ∀ a b, ¬ [byte '=', a, b] <:+: s := by
      intro a b hinfix
      have hlength := hinfix.length_le
      match s, hs with
      | c :: a :: b :: rest, hs => exact absurd rfl (hs c a b rest)
    have hshort : ∀ r : Byte → Byte → Option ℕ, unescape r s = s := fun r => by
      match s, hs with
      | [], _ => rfl
      | [_], _ => rfl
      | [_, _], _ => rfl
      | c :: a :: b :: rest, hs => exact absurd rfl (hs c a b rest)
    rw [hshort, hshort]
    exact ⟨fun _ a b hinfix => absurd hinfix (hnot a b), fun _ => rfl⟩

end Unescape

/-! ## `decodeQuotedPrintableWord` -/

theorem digitPair_toUInt {a b : Byte} {n : ℕ} (h : digitPair a b = some n) :
    toUInt [a, b] = some n := by
  rw [toUInt_pair]
  unfold digitPair at h
  cases ha : hexDigit a with
  | none => simp [ha] at h
  | some x =>
    cases hb : hexDigit b with
    | none => simp [ha, hb] at h
    | some y => simpa [ha, hb] using h

theorem slips_iff {a b : Byte} : Slips a b ↔ toUInt [a, b] ≠ none ∧ digitPair a b = none := by
  have hplus : hexDigit (byte '+') = none := by decide
  have hnul : hexDigit 0 = none := by decide
  rw [toUInt_pair, digitPair, Slips]
  cases ha : hexDigit a with
  | some x =>
    have hne := ne_of_hexDigit ha hplus
    cases hb : hexDigit b with
    | some y =>
      have hb0 : b ≠ 0 := ne_of_hexDigit hb hnul
      simp [isSpaceByte_of_hexDigit ha, hne, hb0]
    | none => simp
  | none =>
    cases hb : hexDigit b with
    | some y =>
      by_cases hfirst : isSpaceByte a = true ∨ a = byte '+'
      · simp [hfirst]
      · simp [hfirst]
    | none => simp

theorem equals_of_toUInt {a b : Byte} (h : toUInt [a, b] ≠ none) :
    a ≠ byte '=' ∧ b ≠ byte '=' := by
  have hequals : hexDigit (byte '=') = none := by decide
  rw [toUInt_pair] at h
  constructor
  · rintro rfl
    rw [hequals] at h
    have hnot : ¬ (isSpaceByte (byte '=') = true ∨ byte '=' = byte '+') := by decide
    cases hb : hexDigit b with
    | some y => exact h (by rw [hb]; exact if_neg hnot)
    | none => exact h (by rw [hb])
  · rintro rfl
    rw [hequals] at h
    have hnot : byte '=' ≠ 0 := by decide
    cases ha : hexDigit a with
    | some x => exact h (by rw [ha]; exact if_neg hnot)
    | none => exact h (by rw [ha])

theorem decodeQuotedPrintableWord_eq (value : Bytes) :
    decodeQuotedPrintableWord value =
      unescape (fun a b => toUInt [a, b]) (value.map unscore) := by
  refine decodeLoop_eq fun hmem => ?_
  obtain ⟨b, -, hb⟩ := List.mem_map.mp hmem
  unfold unscore at hb
  split_ifs at hb with hscore
  · exact absurd hb (by decide)
  · exact hscore hb

theorem decode_of_encodes {bs e : Bytes} (h : Encodes bs e) :
    decodeQuotedPrintableWord e = bs := by
  rw [decodeQuotedPrintableWord_eq]
  exact unescape_of_encodes (fun _ _ _ => digitPair_toUInt) h

theorem decode_eq_iff (value : Bytes) :
    decodeQuotedPrintableWord value = escapesOnly value ↔
      ∀ a b, [byte '=', a, b] <:+: value.map unscore → ¬ Slips a b := by
  rw [decodeQuotedPrintableWord_eq, escapesOnly,
    unescape_eq_iff (fun _ _ _ => digitPair_toUInt) fun _ _ => equals_of_toUInt]
  refine forall₂_congr fun a b => imp_congr_right fun _ => ?_
  rw [slips_iff, not_and]

/-! ## Headers -/

/-- An encoded word: a match of `=\?([^?]+)\?([bBqQ])\?([^?]*)\?=`. -/
structure Word where
  charset : List Char
  encoding : Char
  encoded : List Char
  charset_ne : charset ≠ []
  not_mem_charset : '?' ∉ charset
  mem_encoding : encoding ∈ ['b', 'B', 'q', 'Q']
  not_mem_encoded : '?' ∉ encoded

def Word.text (w : Word) : List Char :=
  '=' :: '?' :: (w.charset ++ '?' :: w.encoding :: '?' :: (w.encoded ++ ['?', '=']))

/-- The characters up to a question mark. -/
def beforeMark (s : List Char) : List Char := s.takeWhile (· ≠ '?')

def fromMark (s : List Char) : List Char := s.dropWhile (· ≠ '?')

theorem not_mem_beforeMark (s : List Char) : '?' ∉ beforeMark s := by
  intro h
  simpa using List.mem_takeWhile_imp h

/-- The match at the start of a text; the expression leaves no choice. -/
def matchWord : List Char → Option Word
  | '=' :: '?' :: s =>
    match fromMark s with
    | '?' :: encoding :: '?' :: rest =>
      match fromMark rest with
      | '?' :: '=' :: _ =>
        if h : beforeMark s ≠ [] ∧ encoding ∈ ['b', 'B', 'q', 'Q'] then
          some ⟨beforeMark s, encoding, beforeMark rest, h.1, not_mem_beforeMark s, h.2,
            not_mem_beforeMark rest⟩
        else none
      | _ => none
    | _ => none
  | _ => none

/-- `QRegularExpressionMatch` -/
structure Match where
  capturedStart : ℕ
  capturedEnd : ℕ
  word : Word

/-- `globalMatch`: the matches from a position on, where some characters belong to the last. -/
def globalMatchFrom : ℕ → ℕ → List Char → List Match
  | _, _, [] => []
  | pos, skip + 1, _ :: s => globalMatchFrom (pos + 1) skip s
  | pos, 0, c :: s =>
    match matchWord (c :: s) with
    | some w =>
      ⟨pos, pos + w.text.length, w⟩ :: globalMatchFrom (pos + 1) (w.text.length - 1) s
    | none => globalMatchFrom (pos + 1) 0 s

/-- What becomes of the captured texts; how Qt decodes them is left open. -/
structure Decoders where
  toLatin1 : List Char → Bytes
  fromBase64 : Bytes → Bytes
  fromUtf8 : Bytes → List Char

variable (D : Decoders)

def decodeHeaderBytes (bytes : Bytes) (charset : List Char) : List Char :=
  if equalsNoCase (String.ofList charset) "iso-8859-1" ||
      equalsNoCase (String.ofList charset) "latin1" then
    bytes.map fun b => Char.ofNat b.val
  else D.fromUtf8 bytes

/-- A word of the header. -/
def decodeWord (w : Word) : List Char :=
  let encoded := D.toLatin1 w.encoded
  let bytes := if equalsNoCase (String.ofList [w.encoding]) "b" then D.fromBase64 encoded
    else decodeQuotedPrintableWord encoded
  decodeHeaderBytes D bytes w.charset

/-- The body of the loop: `result` and `offset`. -/
def decodeStep (value : List Char) (r : List Char × ℕ) (m : Match) : List Char × ℕ :=
  (r.1 ++ (value.drop r.2).take (m.capturedStart - r.2) ++ decodeWord D m.word, m.capturedEnd)

def decodeMimeWords (value : List Char) : List Char :=
  let r := (globalMatchFrom 0 0 value).foldl (decodeStep D value) ([], 0)
  r.1 ++ value.drop r.2

/-! ## The text around the words -/

/-- No word starts in a text, whatever of the rest it takes in. -/
def NoWord (text rest : List Char) : Prop :=
  ∀ u v, text = u ++ v → v ≠ [] → ∀ w : Word, ¬ w.text <+: v ++ rest

/-- A header as its words, each with the text before it, and the text behind them. -/
inductive Splits : List Char → List (List Char × Word) → List Char → Prop
  | tail (text : List Char) : NoWord text [] → Splits text [] text
  | word (text rest tail : List Char) (w : Word) (parts : List (List Char × Word)) :
    NoWord text (w.text ++ rest) → Splits rest parts tail →
    Splits (text ++ w.text ++ rest) ((text, w) :: parts) tail

theorem matchWord_text (w : Word) (rest : List Char) : matchWord (w.text ++ rest) = some w := by
  have hmark : ∀ {s : List Char}, '?' ∉ s → ∀ s', beforeMark (s ++ '?' :: s') = s ∧
      fromMark (s ++ '?' :: s') = '?' :: s' := by
    intro s hs s'
    have hall : ∀ c ∈ s, decide (c ≠ '?') = true := fun c hc => by
      simp only [ne_eq, decide_not, Bool.not_eq_eq_eq_not, Bool.not_true, decide_eq_false_iff_not]
      exact fun heq => hs (heq ▸ hc)
    constructor
    · rw [beforeMark, List.takeWhile_append_of_pos hall]
      simp
    · rw [fromMark, List.dropWhile_append_of_pos hall]
      simp
  have htext : w.text ++ rest = '=' :: '?' :: (w.charset ++ '?' :: (w.encoding :: '?' ::
      (w.encoded ++ '?' :: '=' :: rest))) := by simp [Word.text]
  obtain ⟨hcharset, hfrom⟩ := hmark w.not_mem_charset
    (w.encoding :: '?' :: (w.encoded ++ '?' :: '=' :: rest))
  obtain ⟨hencoded, hfrom'⟩ := hmark w.not_mem_encoded ('=' :: rest)
  rw [htext]
  simp only [matchWord, hfrom, hfrom', hcharset, hencoded]
  rw [dif_pos ⟨w.charset_ne, w.mem_encoding⟩]

theorem text_of_matchWord {s : List Char} {w : Word} (h : matchWord s = some w) :
    ∃ rest, s = w.text ++ rest := by
  have hsplit : ∀ l : List Char, l = beforeMark l ++ fromMark l := fun l =>
    (List.takeWhile_append_dropWhile (p := fun c => decide (c ≠ '?'))).symm
  unfold matchWord at h
  split at h
  · next s =>
    split at h
    · next encoding rest hfrom =>
      split at h
      · next rest' hfrom' =>
        split_ifs at h with hvalid
        obtain rfl := Option.some.inj h
        refine ⟨rest', ?_⟩
        have hs := hsplit s
        rw [hfrom] at hs
        have hrest := hsplit rest
        rw [hfrom'] at hrest
        simp only [Word.text, List.cons_append, List.append_assoc, List.nil_append]
        rw [← hrest, ← hs]
      · cases h
    · cases h
  · cases h

theorem matchWord_eq_none {s : List Char} :
    matchWord s = none ↔ ∀ w : Word, ¬ w.text <+: s := by
  constructor
  · rintro hnone w ⟨rest, rfl⟩
    rw [matchWord_text] at hnone
    cases hnone
  · intro hnot
    by_contra hsome
    obtain ⟨w, hw⟩ := Option.ne_none_iff_exists'.mp hsome
    obtain ⟨rest, rfl⟩ := text_of_matchWord hw
    exact hnot w (List.prefix_append _ _)

theorem noWord_nil {rest : List Char} : NoWord [] rest := by
  intro u v huv hne
  exact absurd (List.append_eq_nil_iff.mp huv.symm).2 hne

theorem noWord_cons {c : Char} {text rest : List Char} :
    NoWord (c :: text) rest ↔ matchWord (c :: (text ++ rest)) = none ∧ NoWord text rest := by
  rw [matchWord_eq_none]
  constructor
  · intro h
    exact ⟨h [] (c :: text) rfl (List.cons_ne_nil _ _),
      fun u v huv => h (c :: u) v (by rw [huv]; rfl)⟩
  · rintro ⟨hfirst, htext⟩ u v huv hne
    cases u with
    | nil =>
      obtain rfl : c :: text = v := huv
      exact hfirst
    | cons c' u => exact htext u v (List.cons.inj huv).2 hne

theorem globalMatchFrom_skip (pos : ℕ) (u s : List Char) :
    globalMatchFrom pos u.length (u ++ s) = globalMatchFrom (pos + u.length) 0 s := by
  induction u generalizing pos with
  | nil => rfl
  | cons c u ih =>
    rw [List.length_cons, List.cons_append, globalMatchFrom, ih, Nat.add_right_comm, Nat.add_assoc]

theorem globalMatchFrom_noWord {text rest : List Char} (h : NoWord text rest) (pos : ℕ) :
    globalMatchFrom pos 0 (text ++ rest) = globalMatchFrom (pos + text.length) 0 rest := by
  induction text generalizing pos with
  | nil => rfl
  | cons c text ih =>
    obtain ⟨hnone, htext⟩ := noWord_cons.mp h
    rw [List.cons_append, globalMatchFrom, hnone]
    dsimp only
    rw [ih htext, List.length_cons, Nat.add_right_comm, Nat.add_assoc]

theorem globalMatchFrom_word (pos : ℕ) (w : Word) (rest : List Char) :
    globalMatchFrom pos 0 (w.text ++ rest) =
      ⟨pos, pos + w.text.length, w⟩ :: globalMatchFrom (pos + w.text.length) 0 rest := by
  have hmatch := matchWord_text w rest
  cases htext : w.text with
  | nil => cases htext
  | cons c text =>
    rw [htext, List.cons_append] at hmatch
    rw [List.cons_append, globalMatchFrom, hmatch]
    dsimp only
    rw [htext, List.length_cons, Nat.add_sub_cancel, globalMatchFrom_skip, Nat.add_right_comm,
      Nat.add_assoc]

/-- What a header becomes. -/
def decoded (parts : List (List Char × Word)) (tail : List Char) : List Char :=
  parts.flatMap (fun part => part.1 ++ decodeWord D part.2) ++ tail

/-- The loop from one of the words on. -/
theorem foldl_decodeStep {header tail : List Char} {parts : List (List Char × Word)}
    (h : Splits header parts tail) (before result : List Char) :
    let r := (globalMatchFrom before.length 0 header).foldl (decodeStep D (before ++ header))
      (result, before.length)
    r.1 ++ (before ++ header).drop r.2 = result ++ decoded D parts tail := by
  induction h generalizing before result with
  | tail text hno =>
    have hend := globalMatchFrom_noWord hno before.length
    rw [List.append_nil] at hend
    rw [hend, globalMatchFrom]
    simp [decoded]
  | word text rest tail w parts hno _ ih =>
    have hheader : text ++ w.text ++ rest = text ++ (w.text ++ rest) := List.append_assoc ..
    have hpos : before.length + text.length + w.text.length =
        (before ++ text ++ w.text).length := by simp only [List.length_append]
    rw [hheader, globalMatchFrom_noWord hno, globalMatchFrom_word, List.foldl_cons, hpos]
    have hstep : decodeStep D (before ++ (text ++ (w.text ++ rest))) (result, before.length)
        ⟨before.length + text.length, (before ++ text ++ w.text).length, w⟩ =
        (result ++ (text ++ decodeWord D w), (before ++ text ++ w.text).length) := by
      simp [decodeStep]
    have hrest := ih (before ++ text ++ w.text) (result ++ (text ++ decodeWord D w))
    rw [hstep]
    simp only [List.append_assoc] at hrest ⊢
    rw [hrest]
    simp [decoded]

theorem decodeMimeWords_of_splits {header tail : List Char} {parts : List (List Char × Word)}
    (h : Splits header parts tail) : decodeMimeWords D header = decoded D parts tail :=
  foldl_decodeStep D h [] []

/-- Every header has its words. -/
theorem exists_splits (header : List Char) : ∃ parts tail, Splits header parts tail := by
  induction hn : header.length using Nat.strong_induction_on generalizing header with
  | _ n ih =>
    cases header with
    | nil => exact ⟨[], [], .tail [] noWord_nil⟩
    | cons c s =>
      cases hmatch : matchWord (c :: s) with
      | some w =>
        obtain ⟨rest, hrest⟩ := text_of_matchWord hmatch
        have hlength : rest.length < n := by
          have hle := congrArg List.length hrest
          simp only [Word.text, List.length_cons, List.length_append, List.length_nil] at hle hn
          omega
        obtain ⟨parts, tail, hparts⟩ := ih rest.length hlength rest rfl
        rw [hrest]
        exact ⟨([], w) :: parts, tail, .word [] rest tail w parts noWord_nil hparts⟩
      | none =>
        obtain ⟨parts, tail, hparts⟩ := ih s.length (by simp [← hn]) s rfl
        cases hparts with
        | tail _ hno =>
          refine ⟨[], c :: s, .tail (c :: s) (noWord_cons.mpr ⟨?_, hno⟩)⟩
          rw [List.append_nil]
          exact hmatch
        | word text rest _ w parts hno hrest =>
          refine ⟨(c :: text, w) :: parts, tail, .word (c :: text) rest tail w parts
            (noWord_cons.mpr ⟨?_, hno⟩) hrest⟩
          rw [← List.append_assoc]
          exact hmatch

/-- What the decoding of encoded words is to do. -/
structure DecodeSound (value : Bytes) : Prop where
  encoded : ∀ bs, Encodes bs value → decodeQuotedPrintableWord value = bs
  kept : decodeQuotedPrintableWord value = escapesOnly value
  text : ∀ (D : Decoders) (header : List Char),
    (∃ parts tail, Splits header parts tail) ∧
    ∀ parts tail, Splits header parts tail → decodeMimeWords D header = decoded D parts tail

/-- The decoding is right where no sign is followed by a pair that is read as a number though it
    is not two digits. -/
theorem decodeSound_iff (value : Bytes) :
    DecodeSound value ↔ ∀ a b, [byte '=', a, b] <:+: value.map unscore → ¬ Slips a b := by
  rw [← decode_eq_iff]
  constructor
  · exact DecodeSound.kept
  · intro hkept
    exact ⟨fun _ => decode_of_encodes, hkept, fun D header =>
      ⟨exists_splits header, fun _ _ => decodeMimeWords_of_splits D⟩⟩

/-- `=+4` is read as the byte 4. -/
theorem plus_is_read : ¬ ∀ value : Bytes, DecodeSound value := by
  intro h
  have hkept := (h [byte '=', byte '+', byte '4']).kept
  rw [decodeQuotedPrintableWord_eq] at hkept
  exact absurd hkept (by decide)

end NekoBox.Subscription
