import NekoBox.Lib.Assignments
import NekoBox.Lib.JsonText
import NekoBox.Link.Node

/-!
# Nodes and JSON

`Data::Node` (`ConfigData.cpp`) between the values it is made from and the texts and values that
are made from it, with any type of doubles and any way to write and read them.
-/

namespace NekoBox.Link

open NekoBox.Lib NekoBox.Lib.OrderedMap NekoBox.Store

namespace Data

/-- What the nodes use of Qt. -/
structure Conversions (D : Type) where
  /-- `QString::toLower` -/
  toLower : String → String
  /-- `QString::number(double)`, which writes six digits at most. -/
  number : D → String
  /-- `toDouble(&ok)`; none if it is not `ok`. -/
  toDouble : String → Option D
  /-- The double of a literal in a JSON text. -/
  literal : List Char → D

/-- Finite doubles, which are written as literals of JSON. -/
structure JsonConversions (D : Type) extends Conversions D where
  isNumber_number : ∀ d, JsonText.isNumber (number d).toList = true

instance (D : Type) : CoeOut (JsonConversions D) (Conversions D) :=
  ⟨JsonConversions.toConversions⟩

/-- `Data::Node` -/
inductive Node (D : Type) where
  | undefined
  | null
  | bool (b : Bool)
  | number (d : D)
  | string (s : String)
  | array (l : List (Node D))
  | map (m : List (String × Node D))

/-- A `QJsonValue`, or a `QVariant` made of the types of JSON. The members of an object are in the
    order of their keys. -/
inductive Value (D : Type) where
  | null
  | bool (b : Bool)
  | number (d : D)
  | string (s : String)
  | array (l : List (Value D))
  | object (o : List (String × Value D))

variable {D : Type} (Q : Conversions D)

/-- `ModifyEnumName` (`ConfigItem.cpp`, lines 1025–1030), as `operator<` compares it. -/
def nameKey (name : String) : List ℕ :=
  units16 (String.ofList ((Q.toLower name).toList.filter fun c => c ≠ '_' ∧ c ≠ '-'))

mutual

/-- `parseJsonValue` (lines 297–316) -/
def ofValue : Value D → Node D
  | .null => .null
  | .bool b => .bool b
  | .number d => .number d
  | .string s => .string s
  | .array l => .array (ofElems l)
  | .object o => .map (assignAll (nameKey Q) (ofMembers o))
termination_by structural v => v

def ofElems : List (Value D) → List (Node D)
  | [] => []
  | v :: l => ofValue v :: ofElems l
termination_by structural l => l

def ofMembers : List (String × Value D) → List (String × Node D)
  | [] => []
  | (key, v) :: o => (key, ofValue v) :: ofMembers o
termination_by structural o => o

end

mutual

/-- `toVariant` (lines 406–424) -/
def toVariant : Node D → Value D
  | .undefined => .null
  | .null => .null
  | .bool b => .bool b
  | .number d => .number d
  | .string s => .string s
  | .array l => .array (toVariantList l)
  | .map m => .object (assignAll units16 (toVariantMap m))
termination_by structural n => n

def toVariantList : List (Node D) → List (Value D)
  | [] => []
  | n :: l => toVariant n :: toVariantList l
termination_by structural l => l

def toVariantMap : List (String × Node D) → List (String × Value D)
  | [] => []
  | (key, n) :: m => (key, toVariant n) :: toVariantMap m
termination_by structural m => m

end

mutual

/-- `toQuoted` (lines 144–162) -/
def toQuoted : Node D → List Char
  | .string s => (Link.Node.quote s).toList
  | .undefined => []
  | .null => []
  | .bool b => if b then ['t', 'r', 'u', 'e'] else ['f', 'a', 'l', 's', 'e']
  | .number d => (Q.number d).toList
  | .array l => '[' :: ([','].intercalate (quotedElems l) ++ [']'])
  | .map m => '{' :: ([','].intercalate (quotedMembers m) ++ ['}'])
termination_by structural n => n

def quotedElems : List (Node D) → List (List Char)
  | [] => []
  | n :: l => toQuoted n :: quotedElems l
termination_by structural l => l

def quotedMembers : List (String × Node D) → List (List Char)
  | [] => []
  | (key, n) :: m => ((Link.Node.quote key).toList ++ ':' :: toQuoted n) :: quotedMembers m
termination_by structural m => m

end

/-- `toString` (lines 164–176) -/
def toString : Node D → String
  | .string s => s
  | n => String.ofList (toQuoted Q n)

/-! ## Lists -/

theorem ofElems_eq (l : List (Value D)) : ofElems Q l = l.map (ofValue Q) := by
  induction l with
  | nil => rfl
  | cons v l ih => exact congrArg (ofValue Q v :: ·) ih

theorem ofMembers_eq (o : List (String × Value D)) :
    ofMembers Q o = o.map fun e => (e.1, ofValue Q e.2) := by
  induction o with
  | nil => rfl
  | cons e o ih => exact congrArg ((e.1, ofValue Q e.2) :: ·) ih

theorem toVariantList_eq (l : List (Node D)) : toVariantList l = l.map toVariant := by
  induction l with
  | nil => rfl
  | cons n l ih => exact congrArg (toVariant n :: ·) ih

theorem toVariantMap_eq (m : List (String × Node D)) :
    toVariantMap m = m.map fun e => (e.1, toVariant e.2) := by
  induction m with
  | nil => rfl
  | cons e m ih => exact congrArg ((e.1, toVariant e.2) :: ·) ih

theorem quotedElems_eq (l : List (Node D)) : quotedElems Q l = l.map (toQuoted Q) := by
  induction l with
  | nil => rfl
  | cons n l ih => exact congrArg (toQuoted Q n :: ·) ih

theorem quotedMembers_eq (m : List (String × Node D)) :
    quotedMembers Q m = m.map fun e => (Link.Node.quote e.1).toList ++ ':' :: toQuoted Q e.2 := by
  induction m with
  | nil => rfl
  | cons e m ih => exact congrArg (((Link.Node.quote e.1).toList ++ ':' :: toQuoted Q e.2) :: ·) ih

/-- Induction over a value with its elements and members. -/
theorem Value.induction {P : Value D → Prop} (null : P .null) (bool : ∀ b, P (.bool b))
    (number : ∀ d, P (.number d)) (string : ∀ s, P (.string s))
    (array : ∀ l, (∀ v ∈ l, P v) → P (.array l))
    (object : ∀ o, (∀ e ∈ o, P e.2) → P (.object o)) (v : Value D) : P v :=
  @Value.rec D P (fun l => ∀ v ∈ l, P v) (fun o => ∀ e ∈ o, P e.2) (fun e => P e.2) null bool
    number string array object (fun _ h => absurd h List.not_mem_nil)
    (fun _ _ hv hl => List.forall_mem_cons.mpr ⟨hv, hl⟩) (fun _ h => absurd h List.not_mem_nil)
    (fun _ _ he ho => List.forall_mem_cons.mpr ⟨he, ho⟩) (fun _ _ h => h) v

theorem Node.induction {P : Node D → Prop} (undefined : P .undefined) (null : P .null)
    (bool : ∀ b, P (.bool b)) (number : ∀ d, P (.number d)) (string : ∀ s, P (.string s))
    (array : ∀ l, (∀ n ∈ l, P n) → P (.array l)) (map : ∀ m, (∀ e ∈ m, P e.2) → P (.map m))
    (n : Node D) : P n :=
  @Node.rec D P (fun l => ∀ n ∈ l, P n) (fun m => ∀ e ∈ m, P e.2) (fun e => P e.2) undefined null
    bool number string array map (fun _ h => absurd h List.not_mem_nil)
    (fun _ _ hn hl => List.forall_mem_cons.mpr ⟨hn, hl⟩) (fun _ h => absurd h List.not_mem_nil)
    (fun _ _ he hm => List.forall_mem_cons.mpr ⟨he, hm⟩) (fun _ _ h => h) n

/-! ## Reading the text -/

open JsonText

mutual

/-- The value of a JSON text; of two members with a key the last one stays. -/
def toValue : Tree → Value D
  | .null => .null
  | .bool b => .bool b
  | .number literal => .number (Q.literal literal)
  | .string s => .string (String.ofList s)
  | .array l => .array (toElems l)
  | .object o => .object (assignAll units16 (toMembers o))
termination_by structural t => t

def toElems : List Tree → List (Value D)
  | [] => []
  | t :: l => toValue t :: toElems l
termination_by structural l => l

def toMembers : List (List Char × Tree) → List (String × Value D)
  | [] => []
  | (key, t) :: o => (String.ofList key, toValue t) :: toMembers o
termination_by structural o => o

end

/-- No character is a control character. -/
def NoControl (s : List Char) : Prop := ∀ c ∈ s, 0x20 ≤ c.toNat

instance (s : List Char) : Decidable (NoControl s) := inferInstanceAs (Decidable (∀ c ∈ s, _))

mutual

/-- What a parser makes of the text of a node. -/
def readBack : Node D → Option Tree
  | .undefined => none
  | .null => none
  | .bool b => some (.bool b)
  | .number d => some (.number (Q.number d).toList)
  | .string s => if NoControl s.toList then some (.string s.toList) else none
  | .array l =>
    -- the text of an array of one null is that of the empty array
    if [','].intercalate (quotedElems Q l) = [] then some (.array [])
    else (readElems l).map .array
  | .map m => (readMembers m).map .object
termination_by structural n => n

def readElems : List (Node D) → Option (List Tree)
  | [] => some []
  | n :: l => (readBack n).bind fun t => (readElems l).map (t :: ·)
termination_by structural l => l

def readMembers : List (String × Node D) → Option (List (List Char × Tree))
  | [] => some []
  | (key, n) :: m =>
    if NoControl key.toList then
      (readBack n).bind fun t => (readMembers m).map ((key.toList, t) :: ·)
    else none
termination_by structural m => m

end

/-! ## Strings -/

/-- `Quote`, without the quotation marks -/
def escape (s : List Char) : List Char :=
  s.flatMap fun c => if c = '\\' ∨ c = '"' then ['\\', c] else [c]

theorem scanString_escape (s rest : List Char) :
    scanString (escape s ++ '"' :: rest) =
      if NoControl s then some (s.map .char, rest) else none := by
  induction s with
  | nil =>
    rw [if_pos (show NoControl [] from fun _ h => absurd h List.not_mem_nil)]
    exact scanString_quote rest
  | cons c s ih =>
    have hstep : scanString (escape (c :: s) ++ '"' :: rest) =
        if 0x20 ≤ c.toNat then
          (scanString (escape s ++ '"' :: rest)).map fun r => (.char c :: r.1, r.2)
        else none := by
      by_cases hc : c = '\\' ∨ c = '"'
      · have hescape : escape (c :: s) = '\\' :: c :: escape s := by
          simp [escape, hc]
        rw [hescape]
        rcases hc with rfl | rfl
        · exact scanString_shortEscape (show shortEscape? '\\' = some '\\' from rfl) _
        · exact scanString_shortEscape (show shortEscape? '"' = some '"' from rfl) _
      · have hescape : escape (c :: s) = c :: escape s := by
          simp [escape, hc]
        rw [hescape]
        exact scanString_char (fun h => hc (.inr h)) (fun h => hc (.inl h)) _
    rw [hstep, ih]
    have hcons : NoControl (c :: s) ↔ 0x20 ≤ c.toNat ∧ NoControl s := List.forall_mem_cons
    by_cases hc : 0x20 ≤ c.toNat
    · by_cases hs : NoControl s
      · rw [if_pos hc, if_pos hs, if_pos (hcons.mpr ⟨hc, hs⟩)]
        rfl
      · rw [if_pos hc, if_neg hs, if_neg fun h => hs (hcons.mp h).2]
        rfl
    · rw [if_neg hc, if_neg fun h => hc (hcons.mp h).1]

theorem decode_chars (s : List Char) : decode (s.map .char) = s := by
  induction s with
  | nil => rfl
  | cons c s ih =>
    show c :: decode (s.map .char) = c :: s
    rw [ih]

theorem toList_quote (s : String) :
    (Link.Node.quote s).toList = '"' :: (escape s.toList ++ ['"']) := by
  unfold Link.Node.quote
  rw [String.toList_ofList]
  rfl

/-- A quoted string is read if it has no control characters. -/
theorem string_quote (s : String) (rest : List Char) :
    string (escape s.toList ++ '"' :: rest) =
      if NoControl s.toList then some (s.toList, rest) else none := by
  unfold string
  rw [scanString_escape]
  by_cases hs : NoControl s.toList
  · rw [if_pos hs, if_pos hs, Option.map_some, decode_chars]
  · rw [if_neg hs, if_neg hs, Option.map_none]

/-! ## The text of a node -/

/-- What follows a value in a list. -/
def Delimited (rest : List Char) : Prop := ∀ c ∈ rest.head?, c = ',' ∨ c = ']' ∨ c = '}'

theorem Delimited.head {rest : List Char} (h : Delimited rest) :
    ∀ c ∈ rest.head?, isWs c = false ∧ isNumberChar c = false ∧
      (c ≠ '{' ∧ c ≠ '[' ∧ c ≠ '"') ∧ c ≠ 't' ∧ c ≠ 'f' ∧ c ≠ 'n' := by
  intro c hc
  rcases h c hc with rfl | rfl | rfl <;> decide

/-- Statements about enough fuel. -/
theorem eventually_succ {p : ℕ → Prop} (h : ∀ᶠ n in Filter.atTop, p (n + 1)) :
    ∀ᶠ n in Filter.atTop, p n := by
  rw [← Filter.map_add_atTop_eq_nat 1]
  exact Filter.eventually_map.mpr h

section Text

variable (J : JsonConversions D)

/-- The text of a node is empty, or does not begin like what follows a value. -/
theorem head_toQuoted (n : Node D) : ∀ c ∈ (toQuoted J n).head?,
    isWs c = false ∧ c ≠ ',' ∧ c ≠ ']' ∧ c ≠ '}' := by
  cases n with
  | undefined => exact fun c hc => absurd hc (by simp [toQuoted])
  | null => exact fun c hc => absurd hc (by simp [toQuoted])
  | bool b =>
    intro c hc
    cases b <;> obtain rfl := Option.some.inj hc <;> decide
  | number d =>
    intro c hc
    have hchar := List.all_eq_true.mp (isNumber_chars (J.isNumber_number d)).2 c
      (List.mem_of_head? hc)
    refine ⟨?_, ?_, ?_, ?_⟩
    · by_contra hws
      simp only [isWs, Bool.not_eq_false, Bool.or_eq_true, decide_eq_true_eq] at hws
      rcases hws with ((rfl | rfl) | rfl) | rfl <;> exact Bool.noConfusion hchar
    all_goals
      rintro rfl
      exact Bool.noConfusion hchar
  | string s =>
    intro c hc
    rw [toQuoted, toList_quote] at hc
    obtain rfl := Option.some.inj hc
    decide
  | array l =>
    intro c hc
    obtain rfl := Option.some.inj hc
    decide
  | map m =>
    intro c hc
    obtain rfl := Option.some.inj hc
    decide

/-- The text of a node is read, up to what follows it. -/
def Reads (n : Node D) : Prop := ∀ rest, Delimited rest → ∀ᶠ fuel in Filter.atTop,
  value fuel (toQuoted J n ++ rest) =
    (readBack J n).map (·, rest)

theorem reads_nothing {n : Node D} (htext : toQuoted J n = [])
    (hread : readBack J n = none) : Reads J n := by
  intro rest hrest
  refine eventually_succ (Filter.Eventually.of_forall fun fuel => ?_)
  have hhead : ∀ c, (c = '{' ∨ c = '[' ∨ c = '"') → rest.head? ≠ some c := by
    rintro c hc heq
    have hne := (hrest.head c heq).2.2.1
    rcases hc with rfl | rfl | rfl
    · exact hne.1 rfl
    · exact hne.2.1 rfl
    · exact hne.2.2 rfl
  rw [htext, hread, List.nil_append, value_scalar fuel (hhead _ (.inl rfl))
    (hhead _ (.inr (.inl rfl))) (hhead _ (.inr (.inr rfl)))]
  exact scalar_none (fun c hc => (hrest.head c hc).2.1) fun c hc => (hrest.head c hc).2.2.2

theorem reads_bool (b : Bool) : Reads J (.bool b) := by
  intro rest _
  refine eventually_succ (Filter.Eventually.of_forall fun fuel => ?_)
  cases b with
  | false =>
    have hprefix : ['f', 'a', 'l', 's', 'e'] <+: 'f' :: 'a' :: 'l' :: 's' :: 'e' :: rest :=
      ⟨rest, rfl⟩
    show value (fuel + 1) ('f' :: 'a' :: 'l' :: 's' :: 'e' :: rest) = some (.bool false, rest)
    rw [value_scalar fuel (by simp) (by simp) (by simp), scalar, if_neg (by simp),
      if_pos hprefix]
    rfl
  | true =>
    have hprefix : ['t', 'r', 'u', 'e'] <+: 't' :: 'r' :: 'u' :: 'e' :: rest := ⟨rest, rfl⟩
    show value (fuel + 1) ('t' :: 'r' :: 'u' :: 'e' :: rest) = some (.bool true, rest)
    rw [value_scalar fuel (by simp) (by simp) (by simp), scalar, if_pos hprefix]
    rfl

theorem reads_number (d : D) : Reads J (.number d) := by
  intro rest hrest
  refine eventually_succ (Filter.Eventually.of_forall fun fuel => ?_)
  obtain ⟨hnil, hchars⟩ := isNumber_chars (J.isNumber_number d)
  have hhead : ∀ c, isNumberChar c = false →
      (toQuoted J (.number d) ++ rest).head? ≠ some c := by
    intro c hc heq
    change ((J.number d).toList ++ rest).head? = some c at heq
    rw [List.head?_append_of_ne_nil _ hnil] at heq
    rw [List.all_eq_true.mp hchars c (List.mem_of_head? heq)] at hc
    exact Bool.noConfusion hc
  rw [value_scalar fuel (hhead _ rfl) (hhead _ rfl) (hhead _ rfl)]
  exact scalar_number (J.isNumber_number d) fun c hc => (hrest.head c hc).2.1

theorem reads_string (s : String) : Reads J (.string s) := by
  intro rest _
  refine eventually_succ (Filter.Eventually.of_forall fun fuel => ?_)
  rw [toQuoted, toList_quote, List.cons_append, List.append_assoc, value_quote]
  show (string (escape s.toList ++ '"' :: rest)).map _ = _
  rw [string_quote, readBack]
  split_ifs <;> rfl

theorem skipWs_toQuoted (n : Node D) {rest : List Char}
    (hrest : ∀ c ∈ rest.head?, isWs c = false) :
    skipWs (toQuoted J n ++ rest) = toQuoted J n ++ rest := by
  refine skipWs_of_not_ws fun c hc => ?_
  by_cases hnil : toQuoted J n = []
  · rw [hnil] at hc
    exact hrest c hc
  · rw [List.head?_append_of_ne_nil _ hnil] at hc
    exact (head_toQuoted J n c hc).1

/-- What follows the first of the texts of a list. -/
def tailText (close : Char) : List (List Char) → List Char → List Char
  | [], rest => close :: rest
  | text :: texts, rest => ',' :: (text ++ tailText close texts rest)

theorem intercalate_tailText (close : Char) (text : List Char) (texts : List (List Char))
    (rest : List Char) : [','].intercalate (text :: texts) ++ close :: rest =
      text ++ tailText close texts rest := by
  induction texts generalizing text with
  | nil =>
    rw [List.intercalate_singleton]
    rfl
  | cons text' texts ih =>
    rw [List.intercalate_cons_cons, List.append_assoc, List.append_assoc, ih]
    rfl

theorem delimited_tailText {close : Char} (h : close = ']' ∨ close = '}')
    (texts : List (List Char)) (rest : List Char) : Delimited (tailText close texts rest) := by
  intro c hc
  cases texts with
  | nil =>
    obtain rfl := Option.some.inj hc
    exact .inr h
  | cons text texts =>
    obtain rfl := Option.some.inj hc
    exact .inl rfl

theorem skipWs_quote (s : String) (rest : List Char) :
    skipWs ((Link.Node.quote s).toList ++ rest) = (Link.Node.quote s).toList ++ rest := by
  refine skipWs_of_not_ws fun c hc => ?_
  rw [toList_quote] at hc
  obtain rfl := Option.some.inj hc
  decide

theorem readMembers_cons (e : String × Node D) (m : List (String × Node D)) :
    readMembers J (e :: m) = if NoControl e.1.toList then
      (readBack J e.2).bind fun t => (readMembers J m).map ((e.1.toList, t) :: ·) else none := by
  obtain ⟨key, n⟩ := e
  rw [readMembers]

/-- The elements of an array with at least one. -/
theorem reads_elems (n : Node D) (l : List (Node D)) (h : ∀ m ∈ n :: l, Reads J m)
    (rest : List Char) : ∀ᶠ fuel in Filter.atTop,
      elements fuel (toQuoted J n ++ tailText ']' (quotedElems J l) rest) =
        (readElems J (n :: l)).map (·, rest) := by
  obtain ⟨hn, hl⟩ := List.forall_mem_cons.mp h
  have hvalue := hn _ (delimited_tailText (.inl rfl) (quotedElems J l) rest)
  induction l generalizing n with
  | nil =>
    refine eventually_succ (hvalue.mono fun fuel hfuel => ?_)
    rw [elements_last hfuel]
    show _ = (((readBack J n).bind fun t => some [t]).map (·, rest))
    cases readBack J n <;> rfl
  | cons m l ih =>
    obtain ⟨hm, -⟩ := List.forall_mem_cons.mp hl
    have hrest := ih m hl hm (List.forall_mem_cons.mp hl).2
      (hm _ (delimited_tailText (.inl rfl) (quotedElems J l) rest))
    refine eventually_succ ((hvalue.and hrest).mono fun fuel hfuel => ?_)
    have hskip := skipWs_toQuoted J m fun c hc =>
      ((delimited_tailText (.inl rfl) (quotedElems J l) rest).head c hc).1
    rw [elements_more hfuel.1, hskip, hfuel.2]
    show _ = (((readBack J n).bind fun t => (readElems J (m :: l)).map (t :: ·)).map (·, rest))
    cases readBack J n with
    | none => rfl
    | some t =>
      show ((readElems J (m :: l)).map (·, rest)).map _ = ((readElems J (m :: l)).map _).map _
      rw [Option.map_map, Option.map_map]
      rfl

/-- The members of an object with at least one. -/
theorem reads_members (e : String × Node D) (m : List (String × Node D))
    (h : ∀ e' ∈ e :: m, Reads J e'.2) (rest : List Char) : ∀ᶠ fuel in Filter.atTop,
      members fuel ((Link.Node.quote e.1).toList ++ ':' :: toQuoted J e.2 ++
        tailText '}' (quotedMembers J m) rest) =
        (readMembers J (e :: m)).map (·, rest) := by
  induction m generalizing e with
  | nil =>
    have hvalue := (List.forall_mem_cons.mp h).1 _
      (delimited_tailText (.inr rfl) (quotedMembers J ([] : List (String × Node D))) rest)
    refine eventually_succ (hvalue.mono fun fuel hfuel => ?_)
    have hskip := skipWs_toQuoted J e.2 fun c hc =>
      ((delimited_tailText (.inr rfl) (quotedMembers J ([] : List (String × Node D))) rest).head c hc).1
    rw [toList_quote, List.append_assoc, List.cons_append, List.append_assoc, List.singleton_append,
      List.cons_append]
    rw [readMembers_cons]
    have hkey := string_quote e.1 (':' :: (toQuoted J e.2 ++
      tailText '}' (quotedMembers J ([] : List (String × Node D))) rest))
    by_cases hcontrol : NoControl e.1.toList
    · rw [if_pos hcontrol] at hkey ⊢
      rw [members_last hkey (hskip ▸ hfuel), readMembers]
      cases readBack J e.2 <;> rfl
    · rw [if_neg hcontrol] at hkey ⊢
      exact members_none hkey
  | cons e' m ih =>
    obtain ⟨he, hm⟩ := List.forall_mem_cons.mp h
    have hvalue := he _ (delimited_tailText (.inr rfl) (quotedMembers J (e' :: m)) rest)
    refine eventually_succ ((hvalue.and (ih e' hm)).mono fun fuel hfuel => ?_)
    have hskip := skipWs_toQuoted J e.2 fun c hc =>
      ((delimited_tailText (.inr rfl) (quotedMembers J (e' :: m)) rest).head c hc).1
    rw [toList_quote, List.append_assoc, List.cons_append, List.append_assoc, List.singleton_append,
      List.cons_append]
    rw [readMembers_cons]
    have hkey := string_quote e.1 (':' :: (toQuoted J e.2 ++
      tailText '}' (quotedMembers J (e' :: m)) rest))
    by_cases hcontrol : NoControl e.1.toList
    · rw [if_pos hcontrol] at hkey ⊢
      rw [members_more hkey (hskip ▸ hfuel.1)]
      show (readBack J e.2).bind (fun v => (members fuel (skipWs ((Link.Node.quote e'.1).toList ++
        ':' :: toQuoted J e'.2 ++ tailText '}' (quotedMembers J m) rest))).map _) = _
      rw [List.append_assoc, skipWs_quote, ← List.append_assoc, hfuel.2]
      cases readBack J e.2 with
      | none => rfl
      | some t =>
        rw [Option.bind_some, Option.bind_some, Option.map_map, Option.map_map, Function.comp_def,
          Function.comp_def]
    · rw [if_neg hcontrol] at hkey ⊢
      exact members_none hkey

theorem reads_array (l : List (Node D)) (h : ∀ n ∈ l, Reads J n) : Reads J (.array l) := by
  intro rest hrest
  show ∀ᶠ fuel in Filter.atTop,
    value fuel ('[' :: ([','].intercalate (quotedElems J l) ++ [']']) ++ rest) = _
  rw [List.cons_append, List.append_assoc, List.singleton_append]
  cases l with
  | nil =>
    refine eventually_succ (eventually_succ (Filter.Eventually.of_forall fun fuel => ?_))
    rw [value_open_bracket]
    exact array_close fuel rest
  | cons n l =>
    have htext : [','].intercalate (quotedElems J (n :: l)) ++ ']' :: rest =
        toQuoted J n ++ tailText ']' (quotedElems J l) rest := by
      rw [show quotedElems J (n :: l) = toQuoted J n :: quotedElems J l from rfl]
      exact intercalate_tailText ']' _ _ rest
    have hskip := skipWs_toQuoted J n fun c hc =>
      ((delimited_tailText (.inl rfl) (quotedElems J l) rest).head c hc).1
    by_cases hempty : [','].intercalate (quotedElems J (n :: l)) = []
    · refine eventually_succ (eventually_succ (Filter.Eventually.of_forall fun fuel => ?_))
      rw [value_open_bracket, htext, hskip, ← htext, hempty, List.nil_append, array_close,
        readBack, if_pos hempty]
      rfl
    · have hhead : (toQuoted J n ++ tailText ']' (quotedElems J l) rest).head? ≠ some ']' := by
        intro hclose
        by_cases hnil : toQuoted J n = []
        · cases l with
          | nil =>
            apply hempty
            show [','].intercalate [toQuoted J n] = []
            rw [List.intercalate_singleton, hnil]
          | cons m l =>
            rw [hnil] at hclose
            exact absurd (Option.some.inj hclose) (by decide)
        · rw [List.head?_append_of_ne_nil _ hnil] at hclose
          exact (head_toQuoted J n ']' hclose).2.2.1 rfl
      refine eventually_succ (eventually_succ ((reads_elems J n l h rest).mono fun fuel hfuel => ?_))
      rw [value_open_bracket, htext, hskip, array_elements fuel hhead, hfuel, readBack,
        if_neg hempty]
      rw [Option.map_map, Option.map_map]
      rfl

theorem reads_map (m : List (String × Node D)) (h : ∀ e ∈ m, Reads J e.2) : Reads J (.map m) := by
  intro rest hrest
  show ∀ᶠ fuel in Filter.atTop,
    value fuel ('{' :: ([','].intercalate (quotedMembers J m) ++ ['}']) ++ rest) = _
  rw [List.cons_append, List.append_assoc, List.singleton_append]
  cases m with
  | nil =>
    refine eventually_succ (eventually_succ (Filter.Eventually.of_forall fun fuel => ?_))
    rw [value_open_brace]
    exact object_close fuel rest
  | cons e m =>
    have htext : [','].intercalate (quotedMembers J (e :: m)) ++ '}' :: rest =
        (Link.Node.quote e.1).toList ++ ':' :: toQuoted J e.2 ++
          tailText '}' (quotedMembers J m) rest := by
      rw [show quotedMembers J (e :: m) = ((Link.Node.quote e.1).toList ++ ':' :: toQuoted J e.2) ::
        quotedMembers J m from rfl]
      exact intercalate_tailText '}' _ _ rest
    refine eventually_succ (eventually_succ ((reads_members J e m h rest).mono fun fuel hfuel => ?_))
    rw [value_open_brace, htext]
    have hhead : ((Link.Node.quote e.1).toList ++ ':' :: toQuoted J e.2 ++
        tailText '}' (quotedMembers J m) rest).head? ≠ some '}' := by
      rw [toList_quote]
      simp
    rw [List.append_assoc, skipWs_quote, ← List.append_assoc, object_members fuel hhead, hfuel,
      readBack, Option.map_map, Option.map_map]
    rfl

/-- **The text of a node is read as `readBack` says.** -/
theorem reads (n : Node D) : Reads J n := by
  induction n using Node.induction with
  | undefined => exact reads_nothing J rfl rfl
  | null => exact reads_nothing J rfl rfl
  | bool b => exact reads_bool J b
  | number d => exact reads_number J d
  | string s => exact reads_string J s
  | array l ih => exact reads_array J l ih
  | map m ih => exact reads_map J m ih

theorem denotes_iff (n : Node D) (t : Tree) :
    Denotes (toQuoted J n) t ↔ readBack J n = some t := by
  have hreads := reads J n [] fun _ h => absurd h (Option.some_ne_none _).symm
  have hskip : skipWs (toQuoted J n ++ []) = toQuoted J n ++ [] :=
    skipWs_toQuoted J n fun _ h => absurd h (Option.some_ne_none _).symm
  rw [List.append_nil] at hreads hskip
  obtain ⟨bound, hbound⟩ := Filter.eventually_atTop.mp hreads
  constructor
  · rintro ⟨fuel, rest, hvalue, -⟩
    rw [hskip] at hvalue
    have hmore := value_mono (le_max_left fuel bound) hvalue
    rw [hbound _ (le_max_right fuel bound)] at hmore
    obtain ⟨t', ht', heq⟩ := Option.map_eq_some_iff.mp hmore
    rw [ht', (Prod.mk.inj heq).1]
  · intro hread
    refine ⟨bound, [], ?_, rfl⟩
    rw [hskip, hbound bound (le_refl bound), hread]
    rfl

end Text

end Data

end NekoBox.Link
