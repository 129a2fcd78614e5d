import Mathlib

/-!
# Regular expressions

Expressions with anchors, and which part of a text they match in its place (`Matches`):
what is before and behind a part decides about `^` and `$`. The syntax is the part of
RE2's with groups, alternatives, sets, the flag `i`, `*` and `?`; `compile` gives nothing
for what it does not know.

* `matches_cats_append`: a sequence of expressions, cut in two;
* `lex_append`: a pattern is read token by token.
-/

namespace NekoBox.Lib

inductive Regex where
  | lit (fold : Bool) (c : Char)
  /-- anything but a line feed -/
  | any
  | set (fold : Bool) (cs : List Char)
  | bot
  | eot
  | empty
  | cat (r s : Regex)
  | alt (r s : Regex)
  | star (r : Regex)
  | opt (r : Regex)
  deriving DecidableEq

namespace Regex

/-- Expressions one after the other. -/
def cats : List Regex → Regex
  | [] => .empty
  | r :: rs => .cat r (cats rs)

/-- Any number of matches, each in its place. -/
inductive Star (R : List Char → List Char → List Char → Prop) :
    List Char → List Char → List Char → Prop
  | nil (u w : List Char) : Star R u [] w
  | cons (u v v' w : List Char) : R u v (v' ++ w) → Star R (u ++ v) v' w → Star R u (v ++ v') w

section Matches

variable (fold : Char → Char)

/-- The expression matches the middle of a text. -/
def Matches : Regex → List Char → List Char → List Char → Prop
  | .lit f c, _, v, _ => ∃ d, v = [d] ∧ (d = c ∨ f = true ∧ fold d = fold c)
  | .any, _, v, _ => ∃ d, v = [d] ∧ d ≠ '\n'
  | .set f cs, _, v, _ => ∃ d, v = [d] ∧ ∃ c ∈ cs, d = c ∨ f = true ∧ fold d = fold c
  | .bot, u, v, _ => v = [] ∧ u = []
  | .eot, _, v, w => v = [] ∧ w = []
  | .empty, _, v, _ => v = []
  | .cat r s, u, v, w =>
    ∃ v₁ v₂, v = v₁ ++ v₂ ∧ Matches r u v₁ (v₂ ++ w) ∧ Matches s (u ++ v₁) v₂ w
  | .alt r s, u, v, w => Matches r u v w ∨ Matches s u v w
  | .star r, u, v, w => Star (Matches r) u v w
  | .opt r, u, v, w => v = [] ∨ Matches r u v w

/-- `MatchString`: some part of the text is matched. -/
def MatchString (r : Regex) (text : List Char) : Prop :=
  ∃ u v w, text = u ++ v ++ w ∧ Matches fold r u v w

variable {fold}

theorem matches_cats_cons {r : Regex} {rs : List Regex} {u v w : List Char} :
    Matches fold (cats (r :: rs)) u v w ↔
      ∃ v₁ v₂, v = v₁ ++ v₂ ∧ Matches fold r u v₁ (v₂ ++ w) ∧
        Matches fold (cats rs) (u ++ v₁) v₂ w := Iff.rfl

theorem matches_cats_append {rs rs' : List Regex} {u v w : List Char} :
    Matches fold (cats (rs ++ rs')) u v w ↔
      ∃ v₁ v₂, v = v₁ ++ v₂ ∧ Matches fold (cats rs) u v₁ (v₂ ++ w) ∧
        Matches fold (cats rs') (u ++ v₁) v₂ w := by
  induction rs generalizing u v with
  | nil =>
    constructor
    · intro h
      refine ⟨[], v, rfl, rfl, ?_⟩
      rw [List.append_nil]
      exact h
    · rintro ⟨v₁, v₂, rfl, hv₁, h⟩
      obtain rfl : v₁ = [] := hv₁
      rw [List.append_nil] at h
      exact h
  | cons r rs ih =>
    rw [List.cons_append, matches_cats_cons]
    constructor
    · rintro ⟨v₁, v₂, rfl, hr, hrest⟩
      obtain ⟨v₃, v₄, rfl, hrs, hrs'⟩ := ih.mp hrest
      refine ⟨v₁ ++ v₃, v₄, (List.append_assoc ..).symm, ?_, ?_⟩
      · refine matches_cats_cons.mpr ⟨v₁, v₃, rfl, ?_, hrs⟩
        rw [← List.append_assoc]
        exact hr
      · rw [← List.append_assoc]
        exact hrs'
    · rintro ⟨v₁, v₂, rfl, hall, hrs'⟩
      obtain ⟨v₃, v₄, rfl, hr, hrs⟩ := matches_cats_cons.mp hall
      refine ⟨v₃, v₄ ++ v₂, List.append_assoc .., ?_, ih.mpr ⟨v₄, v₂, rfl, hrs, ?_⟩⟩
      · rw [List.append_assoc]
        exact hr
      · rw [List.append_assoc]
        exact hrs'

theorem matches_cats_singleton {r : Regex} {u v w : List Char} :
    Matches fold (cats [r]) u v w ↔ Matches fold r u v w := by
  rw [matches_cats_cons]
  constructor
  · rintro ⟨v₁, v₂, rfl, hr, hnil⟩
    obtain rfl : v₂ = [] := hnil
    rw [List.append_nil]
    exact hr
  · intro hr
    exact ⟨v, [], (List.append_nil v).symm, hr, rfl⟩

/-- A star over single characters. -/
theorem matches_star_iff {r : Regex} {P : Char → Prop}
    (h : ∀ u v w, Matches fold r u v w ↔ ∃ d, v = [d] ∧ P d) {u v w : List Char} :
    Matches fold (.star r) u v w ↔ ∀ d ∈ v, P d := by
  constructor
  · intro hstar
    induction hstar with
    | nil => exact fun d hd => absurd hd List.not_mem_nil
    | cons u v v' w hr _ ih =>
      obtain ⟨d, rfl, hd⟩ := (h ..).mp hr
      exact List.forall_mem_cons.mpr ⟨hd, ih⟩
  · intro hall
    induction v generalizing u with
    | nil => exact .nil u w
    | cons d v ih =>
      obtain ⟨hd, hv⟩ := List.forall_mem_cons.mp hall
      exact .cons u [d] v w ((h ..).mpr ⟨d, rfl, hd⟩) (ih hv)

end Matches

/-! ## Tokens -/

inductive Token where
  | lit (c : Char)
  | any
  | set (cs : List Char)
  | bot
  | eot
  | bar
  | star
  | opt
  /-- `(?i)` -/
  | flag
  /-- `(?:` -/
  | group
  | close
  deriving DecidableEq

def isOctal (c : Char) : Bool := '0' ≤ c && c ≤ '7'

/-- What a backslash makes of a character, and how many characters that takes. -/
def escaped : List Char → Option (Char × ℕ)
  | [] => none
  | c :: s =>
    if c = '0' then
      let digits := (s.take 2).takeWhile isOctal
      some (Char.ofNat (digits.foldl (fun n d => 8 * n + (d.toNat - '0'.toNat)) 0),
        digits.length + 1)
    else if c.toNat < 128 ∧ c.isAlphanum = false then some (c, 1)
    else none

/-- The characters of a set without ranges and classes, up to its bracket. -/
def setChars : ℕ → List Char → Option (List Char × ℕ)
  | 0, _ => none
  | _, [] => none
  | _, ']' :: _ => some ([], 1)
  | fuel + 1, '\\' :: s => do
    let (c, n) ← escaped s
    let (cs, m) ← setChars fuel (s.drop n)
    some (c :: cs, n + m + 1)
  | fuel + 1, c :: s => do
    if c = '^' ∨ c = '-' ∨ c = '[' then none
    else
      let (cs, m) ← setChars fuel s
      some (c :: cs, m + 1)

/-- The token at the start of a pattern, and its length. -/
def tokenAt : List Char → Option (Token × ℕ)
  | '(' :: '?' :: 'i' :: ')' :: _ => some (.flag, 4)
  | '(' :: '?' :: ':' :: _ => some (.group, 3)
  | ')' :: _ => some (.close, 1)
  | '|' :: _ => some (.bar, 1)
  | '^' :: _ => some (.bot, 1)
  | '$' :: _ => some (.eot, 1)
  | '.' :: _ => some (.any, 1)
  | '*' :: _ => some (.star, 1)
  | '?' :: _ => some (.opt, 1)
  | '\\' :: s => (escaped s).map fun r => (.lit r.1, r.2 + 1)
  | '[' :: s => (setChars s.length s).bind fun r => if r.1 = [] then none else
    some (.set r.1, r.2 + 1)
  | c :: _ => if c = '(' ∨ c = '+' ∨ c = '{' then none else some (.lit c, 1)
  | [] => none

/-- The tokens of a pattern; some characters belong to the last one. -/
def lexFrom : ℕ → List Char → Option (List Token)
  | _, [] => some []
  | skip + 1, _ :: s => lexFrom skip s
  | 0, c :: s => do
    let (token, n) ← tokenAt (c :: s)
    let tokens ← lexFrom (n - 1) s
    some (token :: tokens)

theorem lexFrom_skip (u s : List Char) : lexFrom u.length (u ++ s) = lexFrom 0 s := by
  induction u with
  | nil => rfl
  | cons c u ih => exact ih

/-- A pattern is read token by token. -/
theorem lex_append {u s : List Char} {token : Token}
    (h : tokenAt (u ++ s) = some (token, u.length)) (hne : u ≠ []) :
    lexFrom 0 (u ++ s) = (lexFrom 0 s).map (token :: ·) := by
  cases u with
  | nil => exact absurd rfl hne
  | cons c u =>
    rw [List.cons_append] at h ⊢
    rw [lexFrom, h]
    simp only [List.length_cons, Nat.add_sub_cancel, lexFrom_skip, Option.bind_eq_bind,
      Option.bind_some]
    cases lexFrom 0 s <;> rfl

theorem lex_none {c : Char} {s : List Char} (h : tokenAt (c :: s) = none) :
    lexFrom 0 (c :: s) = none := by
  rw [lexFrom, h]
  rfl

/-! ## The parser -/

/-- A group that is being read: the branches before the last `|`, and what has been read
    since, the last first. -/
structure Frame where
  branches : List Regex := []
  items : List Regex := []
  fold : Bool := false

def Frame.regex (f : Frame) : Regex := f.branches.foldr .alt (cats f.items.reverse)

/-- The group being read and those around it. -/
structure Parsing where
  top : Frame := {}
  outer : List Frame := []

def Parsing.push (s : Parsing) (r : Regex) : Parsing :=
  { s with top := { s.top with items := r :: s.top.items } }

/-- A repetition has something to repeat that is none. -/
def Parsing.repeat (s : Parsing) (f : Regex → Regex) : Option Parsing :=
  match s.top.items with
  | [] | .star _ :: _ | .opt _ :: _ => none
  | r :: items => some { s with top := { s.top with items := f r :: items } }

def parseStep (s : Parsing) : Token → Option Parsing
  | .lit c => some (s.push (.lit s.top.fold c))
  | .any => some (s.push .any)
  | .set cs => some (s.push (.set s.top.fold cs))
  | .bot => some (s.push .bot)
  | .eot => some (s.push .eot)
  | .bar => some { s with top :=
      { s.top with branches := s.top.branches ++ [cats s.top.items.reverse], items := [] } }
  | .star => s.repeat .star
  | .opt => s.repeat .opt
  | .flag => some { s with top := { s.top with fold := true } }
  | .group => some { top := { fold := s.top.fold }, outer := s.top :: s.outer }
  | .close =>
    match s.outer with
    | f :: outer => some ({ top := f, outer := outer : Parsing }.push s.top.regex)
    | [] => none

/-- `regexp.Compile` -/
def compile (pattern : List Char) : Option Regex := do
  let tokens ← lexFrom 0 pattern
  let s ← tokens.foldlM parseStep {}
  if s.outer.isEmpty then some s.top.regex else none

example : compile "(?i)a|(?:b.)?$".toList =
    some (.alt (.cat (.lit true 'a') .empty) (.cat (.opt (.cat (.lit true 'b') (.cat .any .empty)))
      (.cat .eot .empty))) := by decide

end Regex

end NekoBox.Lib
