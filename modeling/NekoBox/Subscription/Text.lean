import NekoBox.Lib.Wire
import NekoBox.Qt.Text

/-!
# The texts of a subscription

`QByteArray_fromBase64Encoding` (`base64.cpp`) as `DecodeB64IfValid` calls it,
`JsonEndIdx` and `Disect` (`GroupUpdater.cpp`, lines 174–212), and the search
for a scheme in `RawUpdater::update` (lines 954–1000). Texts are lists of
characters, walked from the left in place of an index.

* `length_fromBase64`: a decoded text is shorter than its encoding;
* `mem_disect`: a piece of a text with a line break is shorter than the text,
  or is the whole text, a block from its first brace to the matching one.
-/

namespace NekoBox.Subscription

open NekoBox.Lib NekoBox.Qt

/-! ## Base64 -/

/-- The six bits of a character of the standard alphabet. -/
def base64Digit (ch : Char) : Option ℕ :=
  let c := ch.toNat
  if 'A'.toNat ≤ c ∧ c ≤ 'Z'.toNat then some (c - 'A'.toNat)
  else if 'a'.toNat ≤ c ∧ c ≤ 'z'.toNat then some (c - 'a'.toNat + 26)
  else if '0'.toNat ≤ c ∧ c ≤ '9'.toNat then some (c - '0'.toNat + 52)
  else if ch = '+' then some 62
  else if ch = '/' then some 63
  else none

/-- The loop of `fromBase64_helper` with `AbortOnBase64DecodingErrors`; `none`
    is a status other than `Ok`. A character outside ASCII stands for bytes
    that are all illegal. -/
def fromBase64Loop (inputSize : ℕ) : List Char → ℕ → ℕ → Option Bytes
  | [], _, _ => some []
  | ch :: rest, buf, nbits =>
    match base64Digit ch with
    | some d =>
      let buf := buf * 64 + d
      let nbits := nbits + 6
      if 8 ≤ nbits then
        let nbits := nbits - 8
        (fromBase64Loop inputSize rest (buf % 2 ^ nbits) nbits).map
          (Fin.ofNat 256 (buf / 2 ^ nbits) :: ·)
      else fromBase64Loop inputSize rest buf nbits
    | none =>
      -- one or two `=` at the end of an input whose size is a multiple of 4
      if ch = '=' ∧ inputSize % 4 = 0 ∧ (rest = [] ∨ rest = ['=']) then some [] else none

/-- `QByteArray_fromBase64Encoding`. -/
def fromBase64 (input : List Char) : Option Bytes := fromBase64Loop input.length input 0 0

/-- `DecodeB64IfValid` (`Utils.cpp`, lines 205–219): empty when not valid. -/
def decodeB64IfValid (input : List Char) : Bytes := (fromBase64 input).getD []

/-- A character that does not belong to Base64 makes the input invalid. -/
theorem fromBase64_of_mem {input : List Char} {c : Char} (hc : c ∈ input)
    (hdigit : base64Digit c = none) (hpad : c ≠ '=') : fromBase64 input = none := by
  have hloop : ∀ (input : List Char) (size buf nbits : ℕ), c ∈ input →
      fromBase64Loop size input buf nbits = none := by
    intro input size
    induction input with
    | nil =>
      intro buf nbits hc
      cases hc
    | cons ch rest ih =>
      intro buf nbits hc
      unfold fromBase64Loop
      cases hch : base64Digit ch with
      | some d =>
        have hrest : c ∈ rest := by
          rcases List.mem_cons.mp hc with rfl | hrest
          · rw [hdigit] at hch
            cases hch
          · exact hrest
        dsimp only
        split_ifs
        · rw [ih _ _ hrest]
          rfl
        · exact ih _ _ hrest
      | none =>
        refine if_neg ?_
        rintro ⟨rfl, -, hrest⟩
        have hmem := (List.mem_cons.mp hc).resolve_left hpad
        rcases hrest with rfl | rfl
        · cases hmem
        · exact hpad (List.mem_singleton.mp hmem)
  exact hloop input _ _ _ hc

theorem length_fromBase64Loop {inputSize : ℕ} :
    ∀ {input : List Char} {buf nbits : ℕ} {out : Bytes}, nbits < 8 →
      fromBase64Loop inputSize input buf nbits = some out →
        8 * out.length ≤ 6 * input.length + nbits := by
  intro input
  induction input with
  | nil =>
    intro buf nbits out _ h
    obtain rfl : [] = out := Option.some.inj h
    simp
  | cons ch rest ih =>
    intro buf nbits out hbits h
    unfold fromBase64Loop at h
    cases hdigit : base64Digit ch with
    | some d =>
      rw [hdigit] at h
      dsimp only at h
      split_ifs at h with hbyte
      · obtain ⟨tail, htail, rfl⟩ := Option.map_eq_some_iff.mp h
        have hlen := ih (by omega) htail
        simp only [List.length_cons]
        omega
      · have hlen := ih (by omega) h
        simp only [List.length_cons]
        omega
    | none =>
      rw [hdigit] at h
      dsimp only at h
      split_ifs at h
      obtain rfl : [] = out := Option.some.inj h
      simp

/-- A decoded text is shorter than its encoding. -/
theorem length_fromBase64 {input : List Char} (h : decodeB64IfValid input ≠ []) :
    (decodeB64IfValid input).length < input.length := by
  unfold decodeB64IfValid at h ⊢
  cases hout : fromBase64 input with
  | none => simp [hout] at h
  | some out =>
    have hlen := length_fromBase64Loop (by decide) hout
    have hpos : 0 < out.length := by
      rw [hout] at h
      exact List.length_pos_iff.mpr h
    simp only [Option.getD_some]
    omega

/-- Nothing that starts with a brace is valid. -/
theorem decodeB64IfValid_brace (s : List Char) : decodeB64IfValid ('{' :: s) = [] := rfl

/-! ## Pieces of a text -/

/-- The counter of `JsonEndIdx` behind a character. -/
def countBrace (counter : ℕ) (c : Char) : ℕ :=
  if c = '{' then counter + 1 else if c = '}' then counter - 1 else counter

theorem eq_brace_of_countBrace {counter : ℕ} {c : Char} (hpos : 0 < counter)
    (h : countBrace counter c = 0) : c = '}' := by
  unfold countBrace at h
  split_ifs at h with hopen hclose
  · exact hclose
  · omega

/-- `JsonEndIdx`: split a text behind the brace that brings the counter to 0. -/
def jsonEnd : ℕ → List Char → Option (List Char × List Char)
  | _, [] => none
  | counter, c :: s =>
    if countBrace counter c = 0 then some ([c], s)
    else (jsonEnd (countBrace counter c) s).map fun p => (c :: p.1, p.2)

theorem jsonEnd_eq_some {counter : ℕ} :
    ∀ {s block rest : List Char}, jsonEnd counter s = some (block, rest) → s = block ++ rest := by
  intro s
  induction s generalizing counter with
  | nil => intro block rest h; cases h
  | cons c s ih =>
    intro block rest h
    unfold jsonEnd at h
    split_ifs at h with hzero
    · obtain ⟨rfl, rfl⟩ := Prod.mk.inj (Option.some.inj h)
      rfl
    · obtain ⟨⟨b, r⟩, hb, hpair⟩ := Option.map_eq_some_iff.mp h
      obtain ⟨rfl, rfl⟩ := Prod.mk.inj hpair
      rw [ih hb]
      rfl

/-- A block ends with a brace. -/
theorem getLast_jsonEnd {counter : ℕ} (hpos : 0 < counter) :
    ∀ {s block rest : List Char}, jsonEnd counter s = some (block, rest) →
      ∃ init, block = init ++ ['}'] := by
  intro s
  induction s generalizing counter with
  | nil => intro block rest h; cases h
  | cons c s ih =>
    intro block rest h
    unfold jsonEnd at h
    split_ifs at h with hzero
    · obtain ⟨rfl, rfl⟩ := Prod.mk.inj (Option.some.inj h)
      rw [eq_brace_of_countBrace hpos hzero]
      exact ⟨[], rfl⟩
    · obtain ⟨⟨b, r⟩, hb, hpair⟩ := Option.map_eq_some_iff.mp h
      obtain ⟨rfl, rfl⟩ := Prod.mk.inj hpair
      obtain ⟨init, rfl⟩ := ih (Nat.pos_of_ne_zero hzero) hb
      exact ⟨c :: init, rfl⟩

/-- `Disect`: blocks in braces, and the other lines up to their line break. -/
def disect (s : List Char) : List (List Char) :=
  match s with
  | [] => []
  | c :: s =>
    if c = '\n' then disect s
    else if c = '{' then
      match h : jsonEnd 1 s with
      | none => []
      | some (block, rest) =>
        have : rest.length ≤ s.length := by
          rw [jsonEnd_eq_some h, List.length_append]
          exact Nat.le_add_left _ _
        (c :: block) :: disect rest
    else
      have : (s.dropWhile (· ≠ '\n')).tail.length ≤ s.length :=
        ((List.tail_suffix _).trans (List.dropWhile_suffix _)).length_le
      (c :: s.takeWhile (· ≠ '\n')) :: disect (s.dropWhile (· ≠ '\n')).tail
termination_by s.length
decreasing_by
  · exact Nat.lt_succ_self _
  · exact Nat.lt_succ_of_le this
  · exact Nat.lt_succ_of_le this

theorem disect_nil : disect [] = [] := by rw [disect]

theorem disect_newline (s : List Char) : disect ('\n' :: s) = disect s := by
  rw [disect]
  simp

theorem disect_brace (s : List Char) :
    disect ('{' :: s) =
      match jsonEnd 1 s with
      | none => []
      | some (block, rest) => ('{' :: block) :: disect rest := by
  rw [disect, if_neg (by decide), if_pos rfl]
  split <;> simp_all

theorem disect_line {c : Char} (s : List Char) (hnewline : c ≠ '\n') (hbrace : c ≠ '{') :
    disect (c :: s) =
      (c :: s.takeWhile (· ≠ '\n')) :: disect (s.dropWhile (· ≠ '\n')).tail := by
  rw [disect, if_neg hnewline, if_neg hbrace]

/-- A text that is one block: it starts with a brace and ends with the matching
    one. -/
def IsBlock (s : List Char) : Prop := ∃ inner, s = '{' :: inner ∧ jsonEnd 1 inner = some (inner, [])

/-- No piece is longer than the text. -/
theorem length_disect : ∀ {s piece : List Char}, piece ∈ disect s → piece.length ≤ s.length := by
  intro s
  induction hn : s.length using Nat.strong_induction_on generalizing s with
  | _ n ih =>
    subst hn
    intro piece hpiece
    cases s with
    | nil =>
      rw [disect_nil] at hpiece
      cases hpiece
    | cons c s =>
      have hsuffix : ∀ {rest : List Char}, rest <:+ s → piece ∈ disect rest →
          piece.length ≤ (c :: s).length := by
        intro rest hrest hmem
        have hle : rest.length ≤ s.length := hrest.length_le
        have hpiece := ih rest.length (by simp only [List.length_cons]; omega) rfl hmem
        simp only [List.length_cons]
        omega
      by_cases hnewline : c = '\n'
      · subst hnewline
        rw [disect_newline] at hpiece
        exact hsuffix (List.suffix_refl s) hpiece
      · by_cases hbrace : c = '{'
        · subst hbrace
          rw [disect_brace] at hpiece
          cases hend : jsonEnd 1 s with
          | none =>
            rw [hend] at hpiece
            cases hpiece
          | some p =>
            obtain ⟨block, rest⟩ := p
            have hs : s = block ++ rest := jsonEnd_eq_some hend
            rw [hend] at hpiece
            rcases List.mem_cons.mp hpiece with rfl | hpiece
            · rw [hs]
              simp
            · exact hsuffix ⟨block, hs.symm⟩ hpiece
        · rw [disect_line s hnewline hbrace] at hpiece
          rcases List.mem_cons.mp hpiece with rfl | hpiece
          · simpa using (List.takeWhile_prefix (· ≠ '\n')).length_le
          · exact hsuffix ((List.tail_suffix _).trans (List.dropWhile_suffix _)) hpiece

/-- A piece of a text with a line break is shorter, unless the text is one block. -/
theorem mem_disect {s piece : List Char} (hpiece : piece ∈ disect s) (hbreak : '\n' ∈ s) :
    piece.length < s.length ∨ (piece = s ∧ IsBlock s) := by
  cases s with
  | nil => cases hbreak
  | cons c s =>
    have hsuffix : ∀ {rest : List Char}, rest <:+ s → piece ∈ disect rest →
        piece.length < (c :: s).length := fun hrest hmem =>
      lt_of_le_of_lt ((length_disect hmem).trans hrest.length_le) (Nat.lt_succ_self _)
    by_cases hnewline : c = '\n'
    · subst hnewline
      rw [disect_newline] at hpiece
      exact Or.inl (hsuffix (List.suffix_refl s) hpiece)
    · by_cases hbrace : c = '{'
      · subst hbrace
        rw [disect_brace] at hpiece
        cases hend : jsonEnd 1 s with
        | none =>
          rw [hend] at hpiece
          cases hpiece
        | some p =>
          obtain ⟨block, rest⟩ := p
          have hs : s = block ++ rest := jsonEnd_eq_some hend
          rw [hend] at hpiece
          rcases List.mem_cons.mp hpiece with rfl | hpiece
          · -- the first block: it is the whole text when nothing is left
            cases rest with
            | nil =>
              rw [List.append_nil] at hs
              subst hs
              exact Or.inr ⟨rfl, s, rfl, hend⟩
            | cons d rest =>
              refine Or.inl ?_
              rw [hs]
              simp
          · exact Or.inl (hsuffix ⟨block, hs.symm⟩ hpiece)
      · rw [disect_line s hnewline hbrace] at hpiece
        rcases List.mem_cons.mp hpiece with rfl | hpiece
        · -- the first line stops before a line break
          have hmem : '\n' ∈ s := (List.mem_cons.mp hbreak).resolve_left (Ne.symm hnewline)
          refine Or.inl ?_
          have hne : s.takeWhile (· ≠ '\n') ≠ s := by
            intro h
            have := List.all_takeWhile (p := (· ≠ '\n')) (l := s)
            rw [h] at this
            exact absurd (List.all_eq_true.mp this _ hmem) (by decide)
          have hle := (List.takeWhile_prefix (l := s) (· ≠ '\n')).length_le
          have hlt : (s.takeWhile (· ≠ '\n')).length ≠ s.length := fun h =>
            hne ((List.takeWhile_prefix _).eq_of_length h)
          simp only [List.length_cons]
          omega
        · exact Or.inl (hsuffix ((List.tail_suffix _).trans (List.dropWhile_suffix _)) hpiece)

/-- A text that is one block is its own only piece. -/
theorem disect_of_isBlock {s : List Char} (h : IsBlock s) : disect s = [s] := by
  obtain ⟨inner, rfl, hend⟩ := h
  rw [disect_brace, hend]
  simp [disect_nil]

theorem length_trimmed (s : List Char) : (trimmed s).length ≤ s.length := by
  unfold trimmed
  rw [List.length_reverse]
  calc ((s.dropWhile isSpace).reverse.dropWhile isSpace).length
      ≤ (s.dropWhile isSpace).reverse.length := (List.dropWhile_suffix _).length_le
    _ = (s.dropWhile isSpace).length := List.length_reverse ..
    _ ≤ s.length := (List.dropWhile_suffix _).length_le

/-- A block has no blanks around it. -/
theorem trimmed_of_isBlock {s : List Char} (h : IsBlock s) : trimmed s = s := by
  obtain ⟨inner, rfl, hend⟩ := h
  obtain ⟨init, rfl⟩ := getLast_jsonEnd Nat.one_pos hend
  have hopen : ('{' :: (init ++ ['}'])).dropWhile isSpace = '{' :: (init ++ ['}']) := rfl
  have hclose : ('{' :: (init ++ ['}'])).reverse = '}' :: ('{' :: init).reverse := by simp
  unfold trimmed
  rw [hopen, hclose]
  show ('}' :: ('{' :: init).reverse).reverse = _
  simp

/-! ## The scheme of a link -/

/-- The loop over at most 30 characters (lines 954–995): the position of the
    colon and the slashes after it. A character beyond U+FFFF is seen as its
    surrogates, which are no letters. -/
def schemeLoop (isLetterOrNumber : Char → Bool) : List Char → ℕ → Option ℕ → ℕ → Option ℕ × ℕ
  | [], _, colonIndex, slashCount => (colonIndex, slashCount)
  | ch :: s, index, some colon, slashCount =>
    if ch = '/' then
      if slashCount + 1 = 2 then (some colon, 2)
      else schemeLoop isLetterOrNumber s (index + 1) (some colon) (slashCount + 1)
    else (some colon, slashCount)
  | ch :: s, index, none, slashCount =>
    if (ch.toNat < 0x10000 && isLetterOrNumber ch) || ch == '+' || ch == '-' || ch == '.' then
      schemeLoop isLetterOrNumber s (index + 1) none slashCount
    else if ch = ':' then schemeLoop isLetterOrNumber s (index + 1) (some index) slashCount
    else (none, slashCount)

/-- `scheme_index`; `none` is −1. -/
def schemeIndex (isLetterOrNumber : Char → Bool) (s : List Char) : Option ℕ :=
  match schemeLoop isLetterOrNumber (s.take 30) 0 none 0 with
  | (some colon, slashCount) => if 0 < colon ∧ slashCount = 2 then some colon else none
  | (none, _) => none

/-- A text that starts with a brace has no scheme. -/
theorem schemeIndex_brace {isLetterOrNumber : Char → Bool} (h : isLetterOrNumber '{' = false)
    (s : List Char) : schemeIndex isLetterOrNumber ('{' :: s) = none := by
  have hloop : schemeLoop isLetterOrNumber ('{' :: s.take 29) 0 none 0 = (none, 0) := by
    simp [schemeLoop, h]
  show (match schemeLoop isLetterOrNumber ('{' :: s.take 29) 0 none 0 with
    | (some colon, slashCount) => if 0 < colon ∧ slashCount = 2 then some colon else none
    | (none, _) => none) = none
  rw [hloop]

end NekoBox.Subscription
