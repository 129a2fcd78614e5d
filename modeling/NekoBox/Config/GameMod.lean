import NekoBox.Lib.Regex
import NekoBox.Qt.Folding

/-!
# Process patterns of the game rules

`BuildRules` and the patterns it puts in the place of process names
(`GameModCatalog.cpp`, lines 59–105 and 162–214).

* `compile_pattern`: a pattern compiles to the start of a component, a body that translates
  the name character by character, and perhaps `.exe`; a NUL takes octal digits behind it
  in;
* `compile_eq_none`: it does not compile for a name with anything outside ASCII.
-/

namespace NekoBox.Config.GameMod

open NekoBox.Lib NekoBox.Lib.Regex NekoBox.Qt

/-! ## The patterns -/

def nul : Char := Char.ofNat 0

/-- `QRegularExpression::escape` of one unit. -/
def escape (c : Char) : List Char :=
  if c = nul then ['\\', '0'] else if c.isAlphanum ∨ c = '_' then [c] else ['\\', c]

/-- The units of a `QString`. A half of a pair is U+FFFD when the pattern is written. -/
def units (c : Char) : List Char :=
  if c.toNat < 0x10000 then [c] else [Char.ofNat 0xFFFD, Char.ofNat 0xFFFD]

/-- The body of the loop over the characters. -/
def translate (c : Char) : List Char :=
  if c = '*' then ['.', '*'] else if c = '?' then ['.'] else escape c

def exe : List Char := ".exe".toList

variable (F : Folding)

/-- `endsWith(".exe", Qt::CaseInsensitive)` -/
def endsWithExe (s : List Char) : Bool := (s.drop (s.length - 4)).map F.fold == exe

/-- `chop(4)` of a suffix. -/
def chopExe (s : List Char) : List Char :=
  if endsWithExe F s then s.take (s.length - 4) else s

def caseInsensitiveProcessPathPattern (processName : List Char) : List Char :=
  let normalized := chopExe F processName
  "(?i)(?:^|.*[\\\\/])".toList ++ (normalized.flatMap units).flatMap translate ++
    "(?:\\.exe)?".toList ++ ['$']

/-- The loop over the names; `seen` is what `result` holds. -/
def caseInsensitiveProcessPathPatterns (processNames : List (List Char)) : List (List Char) :=
  processNames.foldl (fun result value =>
    let processName := trimmed value
    if processName = [] then result
    else
      let pattern := caseInsensitiveProcessPathPattern F processName
      if pattern ∈ result then result else result ++ [pattern]) []

/-! ## The rules -/

/-- A rule of the catalog, or one that is emitted. -/
structure Rule where
  processName : List (List Char) := []
  processPathRegex : List (List Char) := []
  outbound : String := ""

structure CatalogService where
  id : String
  legacyIds : List String
  rules : List Rule

def matchedId (enabled : List String) (service : CatalogService) : String :=
  if service.id ∈ enabled then service.id
  else (service.legacyIds.find? (· ∈ enabled)).getD ""

def buildRule (serviceOutbounds : String → String) (service : CatalogService) (matchedId : String)
    (rule : Rule) : Rule :=
  let rule := if rule.processName = [] then rule
    else { rule with
      processName := []
      processPathRegex := caseInsensitiveProcessPathPatterns F rule.processName }
  if rule.outbound = "proxy" then
    let outbound := serviceOutbounds service.id
    let outbound := if outbound = "" then serviceOutbounds matchedId else outbound
    if outbound = "" then rule else { rule with outbound }
  else rule

def buildRules (catalog : List CatalogService) (enabled : List String)
    (serviceOutbounds : String → String) : List Rule :=
  if enabled = [] then []
  else catalog.flatMap fun service =>
    let id := matchedId enabled service
    if id = "" then [] else service.rules.map (buildRule F serviceOutbounds service id)

variable {F}

theorem mem_patterns {pattern : List Char} {names : List (List Char)} :
    pattern ∈ caseInsensitiveProcessPathPatterns F names ↔
      ∃ name ∈ names, trimmed name ≠ [] ∧
        pattern = caseInsensitiveProcessPathPattern F (trimmed name) := by
  unfold caseInsensitiveProcessPathPatterns
  induction names using List.reverseRecOn with
  | nil => simp
  | append_singleton names name ih =>
    rw [List.foldl_append, List.foldl_cons, List.foldl_nil]
    simp only [List.mem_append, List.mem_singleton, or_and_right, exists_or, exists_eq_left]
    rw [← ih]
    split_ifs with hblank hseen
    · simp [hblank]
    · constructor
      · exact .inl
      · rintro (hmem | ⟨-, rfl⟩)
        · exact hmem
        · exact hseen
    · simp [hblank]

/-- A rule with process names comes out with the patterns of all of them. -/
theorem processPathRegex_buildRule {serviceOutbounds : String → String} {service : CatalogService}
    {id : String} {rule : Rule} (h : rule.processName ≠ []) :
    (buildRule F serviceOutbounds service id rule).processName = [] ∧
    (buildRule F serviceOutbounds service id rule).processPathRegex =
      caseInsensitiveProcessPathPatterns F rule.processName := by
  unfold buildRule
  rw [if_neg h]
  dsimp only
  split_ifs <;> exact ⟨rfl, rfl⟩

/-! ## What a name is translated to -/

/-- What the body of a pattern is made of. -/
inductive Item where
  | lit (c : Char)
  | any
  | anyStar
  deriving DecidableEq

def Item.tokens : Item → List Token
  | .lit c => [.lit c]
  | .any => [.any]
  | .anyStar => [.any, .star]

def Item.regex : Item → Regex
  | .lit c => .lit true c
  | .any => .any
  | .anyStar => .star .any

/-- What a character of a name stands for. -/
def itemOf (c : Char) : Item := if c = '*' then .anyStar else if c = '?' then .any else .lit c

/-- How many characters a match has at least. -/
def width (items : List Item) : ℕ := items.countP (· ≠ .anyStar)

/-- A NUL, which is written as an octal escape, before a digit of one. -/
def NulOctal (s : List Char) : Prop := ∃ d, isOctal d = true ∧ [nul, d] <:+: s

/-- A character that starts no octal digit. -/
def NoOctal (s : List Char) : Prop := ∀ c, s.head? = some c → isOctal c = false

theorem tokenAt_plain {c : Char} (h : c.isAlphanum = true ∨ c = '_') (s : List Char) :
    tokenAt (c :: s) = some (.lit c, 1) := by
  have hne : ∀ d : Char, d.isAlphanum = false → d ≠ '_' → c ≠ d := by
    rintro d hd hscore rfl
    rcases h with halnum | rfl
    · rw [hd] at halnum
      cases halnum
    · exact hscore rfl
  unfold tokenAt
  split
  all_goals first
    | exact absurd (List.cons.inj ‹_›).1 (hne _ (by decide) (by decide))
    | skip
  · next heq =>
    obtain ⟨rfl, -⟩ := List.cons.inj heq
    rw [if_neg]
    rintro (rfl | rfl | rfl)
    · exact hne _ (by decide) (by decide) rfl
    · exact hne _ (by decide) (by decide) rfl
    · exact hne _ (by decide) (by decide) rfl
  · next heq => cases heq

/-- One character of a name. -/
theorem lex_translate {c : Char} (hc : c.toNat < 128) (hnul : c ≠ nul) (s : List Char) :
    lexFrom 0 (translate c ++ s) = (lexFrom 0 s).map ((itemOf c).tokens ++ ·) := by
  unfold translate itemOf
  split_ifs with hstar hmark
  · have hany : lexFrom 0 (['.'] ++ ('*' :: s)) = (lexFrom 0 ('*' :: s)).map (Token.any :: ·) :=
      lex_append rfl (List.cons_ne_nil _ _)
    have htoken : lexFrom 0 (['*'] ++ s) = (lexFrom 0 s).map (Token.star :: ·) :=
      lex_append rfl (List.cons_ne_nil _ _)
    show lexFrom 0 (['.'] ++ ('*' :: s)) = _
    rw [hany]
    show (lexFrom 0 (['*'] ++ s)).map _ = _
    rw [htoken, Option.map_map]
    rfl
  · exact lex_append (u := ['.']) rfl (List.cons_ne_nil _ _)
  · unfold escape
    rw [if_neg hnul]
    split_ifs with hplain
    · exact lex_append (u := [c]) (tokenAt_plain hplain s) (List.cons_ne_nil _ _)
    · have hescaped : escaped (c :: s) = some (c, 1) := by
        obtain ⟨halnum, -⟩ := not_or.mp hplain
        have hzero : c ≠ '0' := by
          rintro rfl
          exact halnum (by decide)
        rw [escaped, if_neg hzero, if_pos ⟨hc, by simpa using halnum⟩]
      refine lex_append (u := ['\\', c]) ?_ (List.cons_ne_nil _ _)
      show (escaped (c :: s)).map _ = _
      rw [hescaped]
      rfl

/-- The octal digits of an escape. -/
def octalDigits (s : List Char) : List Char := (s.take 2).takeWhile isOctal

theorem octalDigits_append (s : List Char) : octalDigits s ++ s.drop (octalDigits s).length = s :=
  (List.prefix_iff_eq_append.mp ((List.takeWhile_prefix _).trans (List.take_prefix 2 s)))

/-- A NUL takes the digits behind it in. -/
theorem lex_nul (s : List Char) :
    ∃ c, (octalDigits s = [] → c = nul) ∧
      lexFrom 0 (translate nul ++ s) =
        (lexFrom 0 (s.drop (octalDigits s).length)).map (Token.lit c :: ·) := by
  have hsplit := octalDigits_append s
  refine ⟨Char.ofNat ((octalDigits s).foldl (fun n d => 8 * n + (d.toNat - '0'.toNat)) 0),
    fun hnil => by rw [hnil]; rfl, ?_⟩
  have htext : translate nul ++ s = ('\\' :: '0' :: octalDigits s) ++
      s.drop (octalDigits s).length := by
    rw [List.cons_append, List.cons_append, hsplit]
    rfl
  rw [htext]
  refine lex_append ?_ (List.cons_ne_nil _ _)
  rw [List.cons_append, List.cons_append, hsplit]
  rfl

theorem translate_of_isOctal {d : Char} (hd : isOctal d = true) : translate d = [d] := by
  have hall : ∀ n < 128, isOctal (Char.ofNat n) = true →
      translate (Char.ofNat n) = [Char.ofNat n] := by decide +kernel
  have hle : d.toNat ≤ '7'.toNat := by
    simp only [isOctal, Bool.and_eq_true, decide_eq_true_eq] at hd
    exact hd.2
  have h := hall d.toNat (lt_of_le_of_lt hle (by decide))
  rw [Char.ofNat_toNat] at h
  exact h hd

theorem noOctal_translate {d : Char} (hd : isOctal d = false) (s : List Char) :
    NoOctal (translate d ++ s) := by
  intro c hc
  unfold translate escape at hc
  split_ifs at hc <;> obtain rfl := Option.some.inj hc <;> first | rfl | exact hd

theorem octalDigits_of_noOctal {s : List Char} (h : NoOctal s) : octalDigits s = [] := by
  cases s with
  | nil => rfl
  | cons c s =>
    rw [octalDigits, List.take_succ_cons, List.takeWhile_cons, h c rfl]
    rfl

theorem octalDigits_cons {c : Char} (hc : isOctal c = true) {s : List Char} (h : NoOctal s) :
    octalDigits (c :: s) = [c] := by
  cases s with
  | nil => simp [octalDigits, hc]
  | cons d s => simp [octalDigits, hc, h d rfl]

/-- The octal digits behind a NUL are those of the name. -/
theorem octalDigits_body {s rest : List Char} (hrest : NoOctal rest) :
    octalDigits (s.flatMap translate ++ rest) = octalDigits s := by
  match s with
  | [] =>
    rw [List.flatMap_nil, List.nil_append, octalDigits_of_noOctal hrest]
    rfl
  | d :: s =>
    rw [List.flatMap_cons, List.append_assoc]
    cases hd : isOctal d with
    | false =>
      have hno : NoOctal (d :: s) := fun c hc => Option.some.inj hc ▸ hd
      rw [octalDigits_of_noOctal (noOctal_translate hd _), octalDigits_of_noOctal hno]
    | true =>
      rw [translate_of_isOctal hd, List.singleton_append]
      match s with
      | [] =>
        rw [List.flatMap_nil, List.nil_append, octalDigits_cons hd hrest]
        exact (octalDigits_cons hd fun c hc => by cases hc).symm
      | e :: s =>
        rw [List.flatMap_cons, List.append_assoc]
        cases he : isOctal e with
        | false =>
          have hno : NoOctal (e :: s) := fun c hc => Option.some.inj hc ▸ he
          rw [octalDigits_cons hd (noOctal_translate he _), octalDigits_cons hd hno]
        | true =>
          rw [translate_of_isOctal he]
          simp [octalDigits, hd, he]

theorem drop_body {s rest : List Char} :
    (s.flatMap translate ++ rest).drop (octalDigits s).length =
      (s.drop (octalDigits s).length).flatMap translate ++ rest := by
  have hdigits : (octalDigits s).flatMap translate = octalDigits s := by
    have hall : ∀ d ∈ octalDigits s, translate d = [d] := fun d hd =>
      translate_of_isOctal (List.mem_takeWhile_imp hd)
    rw [List.flatMap_congr hall]
    exact List.flatMap_singleton' _
  have hbody : s.flatMap translate ++ rest = octalDigits s ++
      ((s.drop (octalDigits s).length).flatMap translate ++ rest) := by
    have happend := congrArg (fun l => l.flatMap translate ++ rest) (octalDigits_append s)
    rw [← happend, List.flatMap_append, hdigits, List.append_assoc]
  rw [hbody, List.drop_left]

theorem octalDigits_eq_nil {s : List Char} : octalDigits s = [] ↔ NoOctal s := by
  constructor
  · intro h c hc
    cases s with
    | nil => cases hc
    | cons d s =>
      obtain rfl := Option.some.inj hc
      cases hd : isOctal d with
      | false => rfl
      | true => simp [octalDigits, hd] at h
  · exact octalDigits_of_noOctal

theorem nulOctal_cons {c : Char} {s : List Char} :
    NulOctal (c :: s) ↔ c = nul ∧ ¬ NoOctal s ∨ NulOctal s := by
  constructor
  · rintro ⟨d, hd, hinfix⟩
    rcases List.infix_cons_iff.mp hinfix with ⟨t, ht⟩ | hinfix
    · obtain ⟨hc, hs⟩ := List.cons.inj ht
      refine .inl ⟨hc.symm, fun hno => ?_⟩
      have hfalse := hno d (by rw [← hs]; rfl)
      rw [hd] at hfalse
      cases hfalse
    · exact .inr ⟨d, hd, hinfix⟩
  · rintro (⟨rfl, hoctal⟩ | ⟨d, hd, hinfix⟩)
    · cases s with
      | nil => exact absurd (fun c hc => by cases hc) hoctal
      | cons d s =>
        refine ⟨d, ?_, List.infix_cons_iff.mpr (.inl ⟨s, rfl⟩)⟩
        by_contra hd
        refine hoctal fun c hc => ?_
        obtain rfl := Option.some.inj hc
        simpa using hd
    · exact ⟨d, hd, List.infix_cons_iff.mpr (.inr hinfix)⟩

theorem width_append (items items' : List Item) :
    width (items ++ items') = width items + width items' := List.countP_append

theorem itemOf_of_isOctal {d : Char} (hd : isOctal d = true) : itemOf d = .lit d := by
  have hne : d ≠ '*' ∧ d ≠ '?' := by
    constructor <;> rintro rfl <;> cases hd
  rw [itemOf, if_neg hne.1, if_neg hne.2]

theorem width_map_octal {s : List Char} (h : ∀ c ∈ s, isOctal c = true) :
    width (s.map itemOf) = s.length := by
  rw [width, List.countP_eq_length.mpr, List.length_map]
  intro i hi
  obtain ⟨c, hc, rfl⟩ := List.mem_map.mp hi
  rw [itemOf_of_isOctal (h c hc)]
  rfl

theorem width_cons (i : Item) (items : List Item) :
    width (i :: items) = width items + if i = .anyStar then 0 else 1 := by
  rw [width, List.countP_cons]
  split_ifs <;> simp_all [width]

theorem itemOf_nul : itemOf nul = .lit nul := by decide

/-- The tokens of the body of a pattern. -/
theorem lex_body {b : List Char} (hb : ∀ c ∈ b, c.toNat < 128) {rest : List Char}
    (hrest : NoOctal rest) :
    ∃ items : List Item,
      lexFrom 0 (b.flatMap translate ++ rest) =
        (lexFrom 0 rest).map (items.flatMap Item.tokens ++ ·) ∧
      width items ≤ width (b.map itemOf) ∧
      (NulOctal b → width items < width (b.map itemOf)) ∧
      (¬ NulOctal b → items = b.map itemOf) := by
  induction hn : b.length using Nat.strong_induction_on generalizing b with
  | _ n ih =>
    cases b with
    | nil =>
      refine ⟨[], ?_, le_rfl, ?_, fun _ => rfl⟩
      · simp
      · rintro ⟨d, -, hinfix⟩
        cases List.infix_nil.mp hinfix
    | cons c s =>
      obtain ⟨hc, hs⟩ := List.forall_mem_cons.mp hb
      rw [List.flatMap_cons, List.append_assoc]
      by_cases hnul : c = nul
      · subst hnul
        obtain ⟨c, hzero, hlex⟩ := lex_nul (s.flatMap translate ++ rest)
        rw [octalDigits_body hrest] at hzero hlex
        rw [drop_body] at hlex
        have hdrop : ∀ c ∈ s.drop (octalDigits s).length, c.toNat < 128 :=
          fun c hc => hs c (List.mem_of_mem_drop hc)
        have hlength : (s.drop (octalDigits s).length).length < n := by
          rw [← hn, List.length_drop, List.length_cons]
          omega
        obtain ⟨items, hitems, hle, hlt, heq⟩ := ih _ hlength hdrop rfl
        -- the digits that the escape takes in make the body shorter
        have hwidth : width (s.map itemOf) =
            width ((s.drop (octalDigits s).length).map itemOf) + (octalDigits s).length := by
          have hsplit := congrArg (fun l => width (l.map itemOf)) (octalDigits_append s)
          simp only [List.map_append, width_append] at hsplit
          have hdigits := width_map_octal (s := octalDigits s) fun c hc =>
            List.mem_takeWhile_imp hc
          omega
        refine ⟨.lit c :: items, ?_, ?_, ?_, ?_⟩
        · rw [hlex, hitems, Option.map_map]
          rfl
        · rw [List.map_cons, itemOf_nul, width_cons, width_cons, if_neg nofun, if_neg nofun]
          omega
        · intro h
          rw [List.map_cons, itemOf_nul, width_cons, width_cons, if_neg nofun, if_neg nofun]
          cases hdigits : octalDigits s with
          | nil =>
            rw [hdigits] at hlt
            have hs' : NulOctal s := (nulOctal_cons.mp h).resolve_left fun hoctal =>
              hoctal.2 (octalDigits_eq_nil.mp hdigits)
            have hrec := hlt hs'
            rw [hdigits] at hwidth
            simp only [List.length_nil, List.drop_zero] at hwidth hrec
            omega
          | cons d digits =>
            rw [hdigits] at hwidth hle
            simp only [List.length_cons] at hwidth hle
            omega
        · intro h
          have hdigits : octalDigits s = [] := by
            by_contra hne
            exact h (nulOctal_cons.mpr (.inl ⟨rfl, fun hno => hne (octalDigits_eq_nil.mpr hno)⟩))
          rw [hdigits] at heq
          rw [hzero hdigits, heq fun hs => h (nulOctal_cons.mpr (.inr hs)), List.map_cons,
            itemOf_nul]
          rfl
      · obtain ⟨items, hitems, hle, hlt, heq⟩ := ih s.length (by rw [← hn]; simp) hs rfl
        have hnulOctal : NulOctal (c :: s) ↔ NulOctal s :=
          nulOctal_cons.trans (or_iff_right fun hoctal => hnul hoctal.1)
        refine ⟨itemOf c :: items, ?_, ?_, ?_, ?_⟩
        · rw [lex_translate hc hnul, hitems, Option.map_map]
          congr 1
          funext tokens
          simp
        · rw [List.map_cons, width_cons, width_cons]
          omega
        · intro h
          have hrec := hlt (hnulOctal.mp h)
          rw [List.map_cons, width_cons, width_cons]
          omega
        · intro h
          rw [heq fun hs => h (hnulOctal.mpr hs), List.map_cons]

/-! ## What a pattern compiles to -/

/-- The start of a pattern: a component begins here. -/
def pathStart : Regex := .alt (cats [.bot]) (cats [.star .any, .set true ['\\', '/']])

/-- The end of a pattern. -/
def exeOrNot : Regex := .opt (cats [.lit true '.', .lit true 'e', .lit true 'x', .lit true 'e'])

def patternRegex (items : List Item) : Regex :=
  cats (pathStart :: items.map Item.regex ++ [exeOrNot, .eot])

def startTokens : List Token :=
  [.flag, .group, .bot, .bar, .any, .star, .set ['\\', '/'], .close]

def endTokens : List Token :=
  [.group, .lit '.', .lit 'e', .lit 'x', .lit 'e', .close, .opt, .eot]

theorem lex_start (s : List Char) :
    lexFrom 0 ("(?i)(?:^|.*[\\\\/])".toList ++ s) = (lexFrom 0 s).map (startTokens ++ ·) := by
  cases h : lexFrom 0 s with
  | none => simp [lexFrom, tokenAt, setChars, escaped, h]
  | some tokens => simp [lexFrom, tokenAt, setChars, escaped, h, startTokens]

theorem lex_end : lexFrom 0 ("(?:\\.exe)?".toList ++ ['$']) =
    some endTokens := by decide

/-- The body of a pattern is added to what has been read. -/
theorem parse_items (items : List Item) (branches before : List Regex) (rest : List Token) :
    (items.flatMap Item.tokens ++ rest).foldlM parseStep
        { top := { branches, items := before, fold := true } } =
      rest.foldlM parseStep
        { top := { branches, items := (items.map Item.regex).reverse ++ before, fold := true } } := by
  induction items generalizing before with
  | nil => rfl
  | cons i items ih =>
    have hstep : (i.tokens ++ (items.flatMap Item.tokens ++ rest)).foldlM parseStep
        { top := { branches, items := before, fold := true } } =
        (items.flatMap Item.tokens ++ rest).foldlM parseStep
          { top := { branches, items := i.regex :: before, fold := true } } := by
      cases i <;> rfl
    rw [List.flatMap_cons, List.append_assoc, hstep, ih]
    simp

theorem flatMap_units {b : List Char} (hb : ∀ c ∈ b, c.toNat < 128) : b.flatMap units = b := by
  have hall : ∀ c ∈ b, units c = [c] := by
    intro c hc
    have hlt := hb c hc
    exact if_pos (by omega)
  rw [List.flatMap_congr hall]
  exact List.flatMap_singleton' _

theorem translate_foreign {c : Char} (hc : 128 ≤ c.toNat) : translate c = ['\\', c] := by
  have hne : ∀ d : Char, d.toNat < 128 → c ≠ d := by
    rintro d hd rfl
    omega
  have halnum : c.isAlphanum ≠ true := by
    intro h
    simp only [Char.isAlphanum, Char.isAlpha, Char.isUpper, Char.isLower, Char.isDigit,
      Bool.or_eq_true, Bool.and_eq_true, decide_eq_true_eq, ge_iff_le,
      UInt32.le_iff_toNat_le] at h
    change ((65 ≤ c.toNat ∧ c.toNat ≤ 90) ∨ 97 ≤ c.toNat ∧ c.toNat ≤ 122) ∨
      48 ≤ c.toNat ∧ c.toNat ≤ 57 at h
    omega
  rw [translate, if_neg (hne '*' (by decide)), if_neg (hne '?' (by decide)), escape,
    if_neg (hne nul (by decide)), if_neg]
  rintro (h | h)
  · exact halnum h
  · exact hne '_' (by decide) h

/-- The pattern of a name without units outside ASCII. -/
theorem compile_pattern {name : List Char} (hb : ∀ c ∈ chopExe F name, c.toNat < 128) :
    ∃ items : List Item,
      compile (caseInsensitiveProcessPathPattern F name) = some (patternRegex items) ∧
      width items ≤ width ((chopExe F name).map itemOf) ∧
      (NulOctal (chopExe F name) → width items < width ((chopExe F name).map itemOf)) ∧
      (¬ NulOctal (chopExe F name) → items = (chopExe F name).map itemOf) := by
  have hend : NoOctal ("(?:\\.exe)?".toList ++ ['$']) := by
    intro c hc
    obtain rfl := Option.some.inj hc
    rfl
  obtain ⟨items, hlex, hwidth⟩ := lex_body hb hend
  refine ⟨items, ?_, hwidth⟩
  have hunits := flatMap_units hb
  have hpattern : lexFrom 0 (caseInsensitiveProcessPathPattern F name) =
      some (startTokens ++ (items.flatMap Item.tokens ++ endTokens)) := by
    unfold caseInsensitiveProcessPathPattern
    dsimp only
    rw [hunits, List.append_assoc, List.append_assoc, lex_start, hlex, lex_end]
    rfl
  have hparse : (startTokens ++ (items.flatMap Item.tokens ++ endTokens)).foldlM parseStep {} =
      endTokens.foldlM parseStep
        { top := { items := (items.map Item.regex).reverse ++ [pathStart], fold := true } } := by
    rw [← parse_items]
    rfl
  rw [compile, hpattern]
  simp only [Option.bind_eq_bind, Option.bind_some]
  rw [hparse]
  have hend : endTokens.foldlM parseStep
        { top := { items := (items.map Item.regex).reverse ++ [pathStart], fold := true } } =
      some { top := {
        items := .eot :: exeOrNot :: ((items.map Item.regex).reverse ++ [pathStart])
        fold := true } } := rfl
  rw [hend]
  simp [Frame.regex, patternRegex]

/-- A unit outside ASCII must not be escaped. -/
theorem compile_eq_none {name : List Char} {c : Char} (hmem : c ∈ chopExe F name)
    (hc : 128 ≤ c.toNat) : compile (caseInsensitiveProcessPathPattern F name) = none := by
  have hfirst : ∀ b : List Char, c ∈ b → ∃ b₁ d b₂, b = b₁ ++ d :: b₂ ∧
      (∀ c ∈ b₁, c.toNat < 128) ∧ 128 ≤ d.toNat := by
    intro b hb
    induction b with
    | nil => cases hb
    | cons e b ih =>
      by_cases he : e.toNat < 128
      · have hne : c ≠ e := by
          rintro rfl
          omega
        obtain ⟨b₁, d, b₂, rfl, hb₁, hd⟩ := ih ((List.mem_cons.mp hb).resolve_left hne)
        exact ⟨e :: b₁, d, b₂, rfl, List.forall_mem_cons.mpr ⟨he, hb₁⟩, hd⟩
      · exact ⟨[], e, b, rfl, fun _ h => absurd h List.not_mem_nil, by omega⟩
  obtain ⟨b₁, d, b₂, hb, hb₁, hd⟩ := hfirst _ hmem
  have hunit : ∃ e us, units d = e :: us ∧ 128 ≤ e.toNat := by
    unfold units
    split_ifs
    · exact ⟨d, [], rfl, hd⟩
    · exact ⟨_, _, rfl, by decide⟩
  obtain ⟨e, us, hunits, he⟩ := hunit
  have hrest : ∀ s, NoOctal ('\\' :: s) := by
    intro s c hc
    obtain rfl := Option.some.inj hc
    rfl
  have hescaped : ∀ s, lexFrom 0 ('\\' :: e :: s) = none := by
    intro s
    refine lex_none ?_
    have hzero : e ≠ '0' := by
      rintro rfl
      exact absurd he (by decide)
    show (escaped (e :: s)).map _ = none
    rw [escaped, if_neg hzero, if_neg fun h => absurd h.1 (by omega)]
    rfl
  obtain ⟨items, hlex, -⟩ := lex_body hb₁ (hrest (e :: (us.flatMap translate ++
    ((b₂.flatMap units).flatMap translate ++ ("(?:\\.exe)?".toList ++ ['$'])))))
  rw [hescaped] at hlex
  have htext : caseInsensitiveProcessPathPattern F name = "(?i)(?:^|.*[\\\\/])".toList ++
      (b₁.flatMap translate ++ '\\' :: e :: (us.flatMap translate ++
        ((b₂.flatMap units).flatMap translate ++ ("(?:\\.exe)?".toList ++ ['$'])))) := by
    unfold caseInsensitiveProcessPathPattern
    dsimp only
    rw [hb, List.flatMap_append, flatMap_units hb₁, List.flatMap_cons, hunits]
    simp only [List.flatMap_append, List.flatMap_cons, translate_foreign he, List.append_assoc,
      List.cons_append, List.nil_append]
  rw [compile, htext, lex_start, hlex]
  rfl

end NekoBox.Config.GameMod
