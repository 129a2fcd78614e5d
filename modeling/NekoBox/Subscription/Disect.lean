import NekoBox.Lib.JsonText

/-!
# The pieces of a subscription text

`Disect` (`GroupUpdater.cpp`, lines 174–212) cuts a text into lines and, where a line would begin
with an opening brace, into JSON objects. `JsonEndIdx` finds the end of an object by counting
braces, in strings as well.

* `disect_iff`: items that are joined by newlines come back exactly when the braces of every
  object among them close at its end (`Closes`); and every character of a text is in a piece or
  between two exactly when no object stays open (`AllClose`);
* `closes_of_plain`: the braces of an object close at its end if its strings have none.
-/

namespace NekoBox.Subscription

open NekoBox.Lib

namespace Disect

/-! ## The code -/

/-- The counter after a character. -/
def turn (counter : ℕ) (c : Char) : ℕ :=
  let counter := if c = '{' then counter + 1 else counter
  if c = '}' then counter - 1 else counter

/-- The loop of `JsonEndIdx` over what follows the opening brace, from index `i`; none is -1. -/
def jsonEndIdxFrom : ℕ → ℕ → List Char → Option ℕ
  | _, _, [] => none
  | counter, i, c :: rest =>
    let counter := turn counter c
    if counter = 0 then some i else jsonEndIdxFrom counter (i + 1) rest

def jsonEndIdx (str : List Char) (start : ℕ) : Option ℕ :=
  jsonEndIdxFrom 1 (start + 1) (str.drop (start + 1))

/-- The pieces from `idx` on, with a bound on the number of turns. -/
def disectFrom (str : List Char) : ℕ → ℕ → List (List Char)
  | 0, _ => []
  | fuel + 1, idx =>
    if idx < str.length then
      if str[idx]? = some '\n' then disectFrom str fuel (idx + 1)
      else if str[idx]? = some '{' then
        match jsonEndIdx str idx with
        | none => []
        | some endIdx =>
          (str.drop idx).take (endIdx - idx + 1) :: disectFrom str fuel (endIdx + 1)
      else
        let nlineIdx := idx + (str.drop idx).idxOf '\n'
        (str.drop idx).take (nlineIdx - idx) :: disectFrom str fuel (nlineIdx + 1)
    else []

def disect (str : List Char) : List (List Char) := disectFrom str str.length 0

/-! ## Braces -/

/-- The braces close at the end of the text, and not before. -/
def Closes (text : List Char) : Prop :=
  text.count '{' = text.count '}' ∧
    ∀ start, start <+: text → start ≠ [] → start ≠ text → start.count '}' < start.count '{'

theorem jsonEndIdxFrom_add (counter i k : ℕ) (text : List Char) :
    jsonEndIdxFrom counter (i + k) text = (jsonEndIdxFrom counter i text).map (· + k) := by
  induction text generalizing counter i with
  | nil => rfl
  | cons c rest ih =>
    unfold jsonEndIdxFrom
    dsimp only
    split_ifs
    · rfl
    · rw [Nat.add_right_comm]
      exact ih (turn counter c) (i + 1)

theorem turn_count {counter : ℕ} (hpos : 0 < counter) (c : Char) (text : List Char) :
    counter + (c :: text).count '{' + text.count '}' =
      turn counter c + text.count '{' + (c :: text).count '}' := by
  unfold turn
  rw [List.count_cons, List.count_cons]
  by_cases hopen : c = '{'
  · subst hopen
    simp
    omega
  · by_cases hclose : c = '}'
    · subst hclose
      simp
      omega
    · simp [hopen, hclose]

/-- The counter stays positive along a text. -/
def Open (counter : ℕ) (text : List Char) : Prop :=
  ∀ start, start <+: text → start.count '}' < counter + start.count '{'

theorem Open.pos {counter : ℕ} {text : List Char} (h : Open counter text) : 0 < counter :=
  h [] List.nil_prefix

theorem open_cons_iff {counter : ℕ} (hpos : 0 < counter) (c : Char) (text : List Char) :
    Open counter (c :: text) ↔ Open (turn counter c) text := by
  constructor
  · intro h start hstart
    have hlt := h (c :: start) (List.cons_prefix_cons.mpr ⟨rfl, hstart⟩)
    have hcount := turn_count hpos c start
    omega
  · intro h start hstart
    cases start with
    | nil => simpa using hpos
    | cons c' start =>
      obtain ⟨rfl, htail⟩ := List.cons_prefix_cons.mp hstart
      have hlt := h start htail
      have hcount := turn_count hpos c' start
      omega

/-- Where the counter is zero for the first time. -/
theorem jsonEndIdxFrom_eq_some_iff {counter : ℕ} (hpos : 0 < counter) (text : List Char) (i : ℕ) :
    jsonEndIdxFrom counter 0 text = some i ↔
      ∃ body rest, text = body ++ '}' :: rest ∧ body.length = i ∧ Open counter body ∧
        counter + body.count '{' = body.count '}' + 1 := by
  induction text generalizing counter i with
  | nil =>
    refine iff_of_false (Option.some_ne_none i).symm ?_
    rintro ⟨body, rest, h, -⟩
    simp at h
  | cons c text ih =>
    unfold jsonEndIdxFrom
    dsimp only
    by_cases hzero : turn counter c = 0
    · have hc : c = '}' ∧ counter = 1 := by
        unfold turn at hzero
        dsimp only at hzero
        split_ifs at hzero <;> first | omega | skip
        exact ⟨by assumption, by omega⟩
      obtain ⟨rfl, rfl⟩ := hc
      rw [if_pos hzero, Option.some_inj]
      constructor
      · rintro rfl
        exact ⟨[], text, rfl, rfl, fun start hstart => by
          rw [List.prefix_nil.mp hstart]
          exact Nat.one_pos, rfl⟩
      · rintro ⟨body, rest, hsplit, rfl, hopen, -⟩
        cases body with
        | nil => rfl
        | cons c' body =>
          obtain rfl := (List.cons.inj hsplit).1
          exact absurd (hopen ['}'] (by simp)) (by decide)
    · rw [if_neg hzero, jsonEndIdxFrom_add, Option.map_eq_some_iff]
      have hpos' : 0 < turn counter c := Nat.pos_of_ne_zero hzero
      constructor
      · rintro ⟨i, hi, rfl⟩
        obtain ⟨body, rest, rfl, rfl, hopen, hcount⟩ := (ih hpos' i).mp hi
        refine ⟨c :: body, rest, rfl, rfl, (open_cons_iff hpos c body).mpr hopen, ?_⟩
        have hturn := turn_count hpos c body
        omega
      · rintro ⟨body, rest, hsplit, rfl, hopen, hcount⟩
        cases body with
        | nil =>
          obtain rfl := (List.cons.inj hsplit).1
          have hone : counter = 1 := by simpa using hcount
          subst hone
          exact absurd rfl hzero
        | cons c' body =>
          obtain ⟨rfl, rfl⟩ := List.cons.inj hsplit
          have hturn := turn_count hpos c body
          exact ⟨body.length, (ih hpos' _).mpr
            ⟨body, rest, rfl, rfl, (open_cons_iff hpos c body).mp hopen, by omega⟩, rfl⟩

theorem closes_iff (text : List Char) :
    Closes ('{' :: text) ↔ ∃ body, text = body ++ ['}'] ∧ Open 1 body ∧
      body.count '{' = body.count '}' := by
  constructor
  · rintro ⟨hcount, hstarts⟩
    rcases List.eq_nil_or_concat' text with rfl | ⟨body, c, rfl⟩
    · exact absurd hcount (by decide)
    · have hopen : Open 1 body := by
        intro start hstart
        have hlt := hstarts ('{' :: start)
          (List.cons_prefix_cons.mpr ⟨rfl, hstart.trans (List.prefix_append _ _)⟩)
          (List.cons_ne_nil _ _) ?_
        · rw [List.count_cons, List.count_cons] at hlt
          simp at hlt
          omega
        · intro heq
          have hle := hstart.length_le
          have hlength := congrArg List.length (List.cons.inj heq).2
          rw [List.length_append, List.length_singleton] at hlength
          omega
      have hbody := hopen body List.prefix_rfl
      rw [List.count_cons, List.count_cons, List.count_append, List.count_append,
        List.count_singleton, List.count_singleton] at hcount
      have hc : c = '}' := by
        by_contra hne
        simp [hne] at hcount
        omega
      subst hc
      simp at hcount
      exact ⟨body, rfl, hopen, by omega⟩
  · rintro ⟨body, rfl, hopen, hcount⟩
    constructor
    · simp [List.count_append, hcount]
    · intro start hstart hnil hne
      cases start with
      | nil => exact absurd rfl hnil
      | cons c start =>
        obtain ⟨rfl, htail⟩ := List.cons_prefix_cons.mp hstart
        have hbody : start <+: body := by
          rcases List.prefix_concat_iff.mp htail with heq | hbody
          · exact absurd (congrArg ('{' :: ·) heq) hne
          · exact hbody
        have hlt := hopen start hbody
        rw [List.count_cons, List.count_cons]
        simp
        omega

/-- The end of an object is found where its braces close. -/
theorem jsonEndIdxFrom_iff_closes (text tail : List Char) :
    (∃ i, jsonEndIdxFrom 1 0 (text ++ tail) = some i ∧ i + 1 = text.length) ↔
      Closes ('{' :: text) := by
  rw [closes_iff]
  constructor
  · rintro ⟨i, hi, hlength⟩
    obtain ⟨body, rest, hsplit, rfl, hopen, hcount⟩ :=
      (jsonEndIdxFrom_eq_some_iff Nat.one_pos _ _).mp hi
    refine ⟨body, ?_, hopen, by omega⟩
    have htake := congrArg (List.take text.length) hsplit
    rw [List.take_left, ← hlength, List.take_append, List.take_of_length_le (Nat.le_succ _),
      Nat.add_sub_cancel_left] at htake
    simpa using htake
  · rintro ⟨body, rfl, hopen, hcount⟩
    refine ⟨body.length, ?_, by simp⟩
    rw [jsonEndIdxFrom_eq_some_iff Nat.one_pos, List.append_assoc]
    exact ⟨body, tail, rfl, rfl, hopen, by omega⟩

/-! ## The pieces -/

theorem jsonEndIdx_eq (str : List Char) (start : ℕ) :
    jsonEndIdx str start =
      (jsonEndIdxFrom 1 0 ((str.drop start).drop 1)).map (· + (start + 1)) := by
  unfold jsonEndIdx
  rw [← jsonEndIdxFrom_add, Nat.zero_add, List.drop_drop]

theorem disectFrom_of_le (str : List Char) {idx : ℕ} (hle : str.length ≤ idx) (fuel : ℕ) :
    disectFrom str fuel idx = [] := by
  cases fuel with
  | zero => rfl
  | succ fuel =>
    unfold disectFrom
    rw [if_neg (Nat.not_lt.mpr hle)]

/-- The pieces from an index are those of the text from there on, however many turns are left. -/
theorem disectFrom_eq (str : List Char) {fuel idx fuel' idx' : ℕ} {str' : List Char}
    (hdrop : str.drop idx = str'.drop idx') (hfuel : str.length ≤ idx + fuel)
    (hfuel' : str'.length ≤ idx' + fuel') :
    disectFrom str fuel idx = disectFrom str' fuel' idx' := by
  induction fuel generalizing idx idx' fuel' with
  | zero =>
    have hlength := congrArg List.length hdrop
    rw [List.length_drop, List.length_drop] at hlength
    rw [disectFrom_of_le str (show str.length ≤ idx from hfuel), disectFrom_of_le str' (by omega)]
  | succ fuel ih =>
    have hlength := congrArg List.length hdrop
    rw [List.length_drop, List.length_drop] at hlength
    by_cases hlt : idx < str.length
    · obtain ⟨fuel', rfl⟩ := Nat.exists_eq_succ_of_ne_zero (show fuel' ≠ 0 by omega)
      have hnext : ∀ k, disectFrom str fuel (idx + k + 1) =
          disectFrom str' fuel' (idx' + k + 1) := by
        intro k
        refine ih ?_ (by omega) (by omega)
        rw [Nat.add_assoc, ← List.drop_drop, hdrop, List.drop_drop, Nat.add_assoc]
      have hchar : str[idx]? = str'[idx']? := by
        rw [← List.head?_drop, ← List.head?_drop, hdrop]
      unfold disectFrom
      rw [if_pos hlt, if_pos (show idx' < str'.length by omega), hchar, jsonEndIdx_eq,
        jsonEndIdx_eq, hdrop]
      split_ifs
      · exact hnext 0
      · cases jsonEndIdxFrom 1 0 ((str'.drop idx').drop 1) with
        | none => rfl
        | some i =>
          have hidx := hnext (i + 1)
          dsimp only [Option.map_some]
          rw [show i + (idx + 1) = idx + (i + 1) by omega,
            show i + (idx' + 1) = idx' + (i + 1) by omega, Nat.add_sub_cancel_left,
            Nat.add_sub_cancel_left, hidx]
      · dsimp only
        rw [Nat.add_sub_cancel_left, Nat.add_sub_cancel_left, hnext]
    · rw [disectFrom_of_le str (Nat.le_of_not_lt hlt), disectFrom_of_le str' (by omega)]

theorem disect_eq (str : List Char) {fuel idx : ℕ} (hfuel : str.length ≤ idx + fuel) :
    disectFrom str fuel idx = disect (str.drop idx) :=
  disectFrom_eq str (List.drop_zero.symm ▸ rfl) hfuel (Nat.le_add_left _ _)

@[simp] theorem disect_nil : disect [] = [] := rfl

theorem disect_newline (text : List Char) : disect ('\n' :: text) = disect text := by
  conv_lhs => unfold disect
  rw [List.length_cons, disectFrom, if_pos (by simp), if_pos (by rfl)]
  exact disect_eq _ (by rw [List.length_cons]; omega)

/-- An object begins. -/
theorem disect_brace (text : List Char) :
    disect ('{' :: text) = match jsonEndIdxFrom 1 0 text with
      | none => []
      | some i => ('{' :: text.take (i + 1)) :: disect (text.drop (i + 1)) := by
  conv_lhs => unfold disect
  rw [List.length_cons, disectFrom, if_pos (by simp), if_neg (by simp), if_pos (by rfl), jsonEndIdx_eq]
  rw [show (('{' :: text).drop 0).drop 1 = text from rfl]
  cases jsonEndIdxFrom 1 0 text with
  | none => rfl
  | some i =>
    dsimp only [Option.map_some]
    rw [disect_eq _ (by rw [List.length_cons]; omega)]
    rfl

/-- A line begins. -/
theorem disect_line {line tail : List Char} (hnil : line ≠ []) (hnewline : '\n' ∉ line)
    (hbrace : line.head? ≠ some '{') (htail : ∀ c ∈ tail.head?, c = '\n') :
    disect (line ++ tail) = line :: disect tail := by
  have hfirst : (line ++ tail)[0]? = line.head? := by
    rw [← List.head?_eq_getElem?, List.head?_append_of_ne_nil _ hnil]
  have hchar : line.head? ≠ some '\n' := fun h => hnewline (List.mem_of_head? h)
  have hidx : (line ++ tail).idxOf '\n' = line.length := by
    rw [List.idxOf_append_of_notMem hnewline]
    cases tail with
    | nil => rfl
    | cons c tail =>
      obtain rfl := htail c rfl
      rw [List.idxOf_cons_self, Nat.add_zero]
  have hskip : disect (tail.drop 1) = disect tail := by
    cases tail with
    | nil => rfl
    | cons c tail =>
      obtain rfl := htail c rfl
      exact (disect_newline tail).symm
  obtain ⟨n, hn⟩ := Nat.exists_eq_succ_of_ne_zero
    (show (line ++ tail).length ≠ 0 by simpa using fun h => absurd h hnil)
  conv_lhs => unfold disect
  rw [hn, disectFrom, if_pos (by rw [hn]; exact Nat.succ_pos n), hfirst, if_neg hchar,
    if_neg hbrace]
  dsimp only
  rw [List.drop_zero, hidx, Nat.zero_add, Nat.sub_zero, List.take_left,
    disect_eq _ (by omega), ← List.drop_drop, List.drop_left, hskip]

/-! ## Items -/

/-- A line that is not empty and does not begin with a brace. -/
def IsLine (item : List Char) : Prop := item ≠ [] ∧ '\n' ∉ item ∧ item.head? ≠ some '{'

/-- A JSON object, from brace to brace. -/
def IsObject (item : List Char) : Prop :=
  item.head? = some '{' ∧ ∃ fuel ms, JsonText.value fuel item = some (.object ms, [])

theorem disect_object {text : List Char} (tail : List Char) (h : Closes ('{' :: text)) :
    disect ('{' :: text ++ tail) = ('{' :: text) :: disect tail := by
  obtain ⟨i, hi, hlength⟩ := (jsonEndIdxFrom_iff_closes text tail).mpr h
  rw [List.cons_append, disect_brace, hi]
  dsimp only
  rw [hlength, List.take_left, List.drop_left]

theorem closes_of_disect_object {text tail : List Char} {pieces : List (List Char)}
    (h : disect ('{' :: text ++ tail) = ('{' :: text) :: pieces) : Closes ('{' :: text) := by
  rw [List.cons_append, disect_brace] at h
  cases hi : jsonEndIdxFrom 1 0 (text ++ tail) with
  | none =>
    rw [hi] at h
    exact absurd h.symm (List.cons_ne_nil _ _)
  | some i =>
    rw [hi] at h
    refine (jsonEndIdxFrom_iff_closes text tail).mp ⟨i, hi, ?_⟩
    obtain ⟨body, rest, hsplit, rfl, -⟩ := (jsonEndIdxFrom_eq_some_iff Nat.one_pos _ _).mp hi
    have htake := congrArg List.length (List.cons.inj (List.cons.inj h).1).2
    rwa [hsplit, List.length_take_of_le (by simp)] at htake

theorem IsObject.exists_cons {item : List Char} (h : IsObject item) :
    ∃ text, item = '{' :: text := by
  obtain ⟨hhead, -⟩ := h
  obtain ⟨text, htext⟩ := List.head?_eq_some_iff.mp hhead
  exact ⟨text, htext⟩

/-- The first item of a text. -/
theorem disect_item_iff {item tail : List Char} {pieces : List (List Char)}
    (hitem : IsLine item ∨ IsObject item) (htail : ∀ c ∈ tail.head?, c = '\n') :
    disect (item ++ tail) = item :: pieces ↔
      (IsObject item → Closes item) ∧ disect tail = pieces := by
  rcases hitem with ⟨hnil, hnewline, hbrace⟩ | hobject
  · rw [disect_line hnil hnewline hbrace htail, List.cons_inj_right]
    exact (and_iff_right fun h => absurd h.1 hbrace).symm
  · rw [forall_prop_of_true hobject]
    obtain ⟨text, rfl⟩ := hobject.exists_cons
    constructor
    · intro h
      have hcloses := closes_of_disect_object h
      rw [disect_object tail hcloses, List.cons_inj_right] at h
      exact ⟨hcloses, h⟩
    · rintro ⟨hcloses, rfl⟩
      exact disect_object tail hcloses

theorem intercalate_cons (item : List Char) (items : List (List Char)) :
    ∃ tail, ['\n'].intercalate (item :: items) = item ++ tail ∧
      (∀ c ∈ tail.head?, c = '\n') ∧ disect tail = disect (['\n'].intercalate items) := by
  cases items with
  | nil => exact ⟨[], by rw [List.intercalate_singleton, List.append_nil], by simp, rfl⟩
  | cons next items =>
    refine ⟨'\n' :: ['\n'].intercalate (next :: items), ?_, by simp, disect_newline _⟩
    rw [List.intercalate_cons_cons, List.append_assoc]
    rfl

/-- The items of a text come back exactly when the objects among them close at their ends. -/
theorem disect_intercalate_iff {items : List (List Char)}
    (hitems : ∀ item ∈ items, IsLine item ∨ IsObject item) :
    disect (['\n'].intercalate items) = items ↔
      ∀ item ∈ items, IsObject item → Closes item := by
  induction items with
  | nil => simp
  | cons item items ih =>
    obtain ⟨hitem, hrest⟩ := List.forall_mem_cons.mp hitems
    obtain ⟨tail, heq, htail, hdisect⟩ := intercalate_cons item items
    rw [heq, disect_item_iff hitem htail, hdisect, ih hrest, List.forall_mem_cons]

/-! ## Objects without braces in their strings -/

/-- The braces of a text match. -/
def Level (text : List Char) : Prop :=
  text.count '{' = text.count '}' ∧ ∀ start, start <+: text → start.count '}' ≤ start.count '{'

theorem level_of_no_braces {text : List Char} (hopen : '{' ∉ text) (hclose : '}' ∉ text) :
    Level text := by
  constructor
  · rw [List.count_eq_zero_of_not_mem hopen, List.count_eq_zero_of_not_mem hclose]
  · intro start hstart
    rw [List.count_eq_zero_of_not_mem fun hmem => hclose (hstart.subset hmem)]
    exact Nat.zero_le _

theorem Level.append {a b : List Char} (ha : Level a) (hb : Level b) : Level (a ++ b) := by
  constructor
  · rw [List.count_append, List.count_append, ha.1, hb.1]
  · intro start hstart
    rcases List.prefix_or_prefix_of_prefix hstart (List.prefix_append a b) with h | ⟨start', rfl⟩
    · exact ha.2 start h
    · rw [List.count_append, List.count_append, ha.1]
      exact Nat.add_le_add_left (hb.2 start' ((List.prefix_append_right_inj a).mp hstart)) _

theorem Level.closes {body : List Char} (h : Level body) : Closes ('{' :: (body ++ ['}'])) :=
  (closes_iff _).mpr ⟨body, rfl, fun start hstart => by
    have hle := h.2 start hstart
    omega, h.1⟩

theorem Level.braces {body : List Char} (h : Level body) : Level ('{' :: (body ++ ['}'])) := by
  refine ⟨h.closes.1, fun start hstart => ?_⟩
  by_cases hnil : start = []
  · rw [hnil]
    rfl
  · by_cases hall : start = '{' :: (body ++ ['}'])
    · rw [hall, h.closes.1]
    · exact (h.closes.2 start hstart hnil hall).le

/-- What leads from a text to its rest has matching braces. -/
def Uses (text rest : List Char) : Prop := ∃ used, text = used ++ rest ∧ Level used

instance : Trans Uses Uses Uses where
  trans := by
    rintro a b c ⟨used, rfl, hlevel⟩ ⟨used', rfl, hlevel'⟩
    exact ⟨used ++ used', (List.append_assoc _ _ _).symm, hlevel.append hlevel'⟩

theorem Uses.trans {a b c : List Char} (h : Uses a b) (h' : Uses b c) : Uses a c :=
  Trans.trans h h'

theorem uses_self (text : List Char) : Uses text text :=
  ⟨[], rfl, level_of_no_braces List.not_mem_nil List.not_mem_nil⟩

theorem uses_cons {c : Char} (hopen : c ≠ '{') (hclose : c ≠ '}') (text : List Char) :
    Uses (c :: text) text :=
  ⟨[c], rfl, level_of_no_braces (by simpa using hopen.symm) (by simpa using hclose.symm)⟩

theorem uses_braces {text rest : List Char} (h : Uses text ('}' :: rest)) :
    Uses ('{' :: text) rest := by
  obtain ⟨used, rfl, hlevel⟩ := h
  exact ⟨'{' :: (used ++ ['}']), by simp, hlevel.braces⟩

theorem uses_skipWs (text : List Char) : Uses text (JsonText.skipWs text) := by
  obtain ⟨used, heq, hws⟩ := JsonText.skipWs_used text
  exact ⟨used, heq, level_of_no_braces (fun hmem => absurd (hws _ hmem) (by decide))
    fun hmem => absurd (hws _ hmem) (by decide)⟩

/-- White space, and a character. -/
theorem uses_token {text rest : List Char} {c : Char} (h : JsonText.skipWs text = c :: rest)
    (hopen : c ≠ '{') (hclose : c ≠ '}') : Uses text rest := by
  have hskip := uses_skipWs text
  rw [h] at hskip
  exact hskip.trans (uses_cons hopen hclose rest)

theorem uses_scalar {text rest : List Char} {t : JsonText.Tree}
    (h : JsonText.scalar text = some (t, rest)) : Uses text rest := by
  obtain ⟨used, rfl, hchars⟩ := JsonText.scalar_used h
  exact ⟨used, rfl, level_of_no_braces (fun hmem => absurd (hchars _ hmem) (by decide))
    fun hmem => absurd (hchars _ hmem) (by decide)⟩

/-- No string has a brace. -/
def NoBraces (strings : List (List Char)) : Prop := ∀ s ∈ strings, '{' ∉ s ∧ '}' ∉ s

theorem uses_string {text s rest : List Char} (h : JsonText.string text = some (s, rest))
    (hs : '{' ∉ s ∧ '}' ∉ s) : Uses text rest := by
  obtain ⟨used, rfl, hopen⟩ := JsonText.string_used (by decide) rfl (by decide) h hs.1
  obtain ⟨used', heq, hclose⟩ := JsonText.string_used (by decide) rfl (by decide) h hs.2
  obtain rfl := List.append_cancel_right heq
  exact ⟨used, rfl, level_of_no_braces hopen hclose⟩

/-- What a parser reads has matching braces. -/
structure Levels (n : ℕ) : Prop where
  value : ∀ {text t rest}, JsonText.value n text = some (t, rest) → NoBraces t.strings →
    Uses text rest
  object : ∀ {text t rest}, JsonText.object n text = some (t, rest) → NoBraces t.strings →
    Uses text ('}' :: rest)
  members : ∀ {text ms rest}, JsonText.members n text = some (ms, rest) →
    NoBraces (JsonText.memberStrings ms) → Uses text ('}' :: rest)
  array : ∀ {text t rest}, JsonText.array n text = some (t, rest) → NoBraces t.strings →
    Uses text rest
  elements : ∀ {text vs rest}, JsonText.elements n text = some (vs, rest) →
    NoBraces (JsonText.elementStrings vs) → Uses text rest

theorem levels (n : ℕ) : Levels n := by
  induction n with
  | zero =>
    constructor
    all_goals
      intro text t rest h
      simp [JsonText.value, JsonText.object, JsonText.members, JsonText.array,
        JsonText.elements] at h
  | succ n ih =>
    constructor
    · intro text t rest h hplain
      rcases JsonText.value_cases h with ⟨tail, rfl, h⟩ | ⟨tail, rfl, h⟩ |
        ⟨tail, s, rfl, hs, rfl⟩ | hscalar
      · exact uses_braces ((uses_skipWs tail).trans (ih.object h hplain))
      · exact (uses_cons (by decide) (by decide) tail).trans
          ((uses_skipWs tail).trans (ih.array h hplain))
      · exact (uses_cons (by decide) (by decide) tail).trans
          (uses_string hs (hplain s (List.mem_singleton_self s)))
      · exact uses_scalar hscalar
    · intro text t rest h hplain
      rcases JsonText.object_cases h with ⟨rfl, rfl⟩ | ⟨ms, hms, rfl⟩
      · exact uses_self _
      · exact ih.members hms hplain
    · intro text ms rest h hplain
      obtain ⟨tail, key, afterKey, colon, v, afterValue, rfl, hkey, hcolon, hv, hend⟩ :=
        JsonText.members_cases h
      have hsome : ∀ ms', ms = (key, v) :: ms' → ('{' ∉ key ∧ '}' ∉ key) ∧
          NoBraces v.strings ∧ NoBraces (JsonText.memberStrings ms') := by
        rintro ms' rfl
        obtain ⟨hkey, hrest⟩ := List.forall_mem_cons.mp hplain
        exact ⟨hkey, List.forall_mem_append.mp hrest⟩
      have hfirst : ∀ ms', ms = (key, v) :: ms' → Uses ('"' :: tail) afterValue := by
        intro ms' heq
        obtain ⟨hkey', hv', -⟩ := hsome ms' heq
        calc Uses ('"' :: tail) tail := uses_cons (by decide) (by decide) tail
          Uses _ afterKey := uses_string hkey hkey'
          Uses _ colon := uses_token hcolon (by decide) (by decide)
          Uses _ (JsonText.skipWs colon) := uses_skipWs colon
          Uses _ afterValue := ih.value hv hv'
      rcases hend with ⟨next, ms', hnext, hms, heq⟩ | ⟨hclose, heq⟩
      · calc Uses ('"' :: tail) afterValue := hfirst ms' heq
          Uses _ next := uses_token hnext (by decide) (by decide)
          Uses _ (JsonText.skipWs next) := uses_skipWs next
          Uses _ ('}' :: rest) := ih.members hms (hsome ms' heq).2.2
      · exact (hfirst [] heq).trans (hclose ▸ uses_skipWs afterValue)
    · intro text t rest h hplain
      rcases JsonText.array_cases h with ⟨rfl, rfl⟩ | ⟨vs, hvs, rfl⟩
      · exact uses_cons (by decide) (by decide) rest
      · exact ih.elements hvs hplain
    · intro text vs rest h hplain
      obtain ⟨v, afterValue, hv, hend⟩ := JsonText.elements_cases h
      rcases hend with ⟨next, vs', hnext, hvs, rfl⟩ | ⟨hclose, rfl⟩
      · obtain ⟨hv', hvs'⟩ := List.forall_mem_append.mp hplain
        calc Uses text afterValue := ih.value hv hv'
          Uses _ next := uses_token hnext (by decide) (by decide)
          Uses _ (JsonText.skipWs next) := uses_skipWs next
          Uses _ rest := ih.elements hvs hvs'
      · obtain ⟨hv', -⟩ := List.forall_mem_append.mp hplain
        exact (ih.value hv hv').trans (uses_token hclose (by decide) (by decide))

/-- **The braces of an object close at its end if its strings have none.** -/
theorem closes_of_plain {text : List Char} {fuel : ℕ} {ms : List (List Char × JsonText.Tree)}
    (h : JsonText.value fuel ('{' :: text) = some (.object ms, []))
    (hplain : NoBraces (JsonText.memberStrings ms)) : Closes ('{' :: text) := by
  cases fuel with
  | zero => exact absurd h.symm (Option.some_ne_none _)
  | succ n =>
    rw [JsonText.value_open_brace] at h
    obtain ⟨used, rfl, hlevel⟩ := (uses_skipWs text).trans ((levels n).object h hplain)
    exact hlevel.closes

/-! ## All characters -/

/-- The text is made of the pieces, with newlines before, between and after them. -/
inductive Covers : List Char → List (List Char) → Prop
  | nil : Covers [] []
  | newline {text pieces} : Covers text pieces → Covers ('\n' :: text) pieces
  | piece {piece text pieces} : piece ≠ [] → piece.head? ≠ some '\n' → Covers text pieces →
      Covers (piece ++ text) (piece :: pieces)

/-- The text is made of newlines, of lines and of texts in braces that close. -/
inductive AllClose : List Char → Prop
  | nil : AllClose []
  | newline {text} : AllClose text → AllClose ('\n' :: text)
  | line {line text} : IsLine line → (∀ c ∈ text.head?, c = '\n') → AllClose text →
      AllClose (line ++ text)
  | braces {inner text} : Closes ('{' :: inner) → AllClose text → AllClose ('{' :: inner ++ text)

theorem covers_of_allClose {text : List Char} (h : AllClose text) :
    Covers text (disect text) := by
  induction h with
  | nil => exact .nil
  | newline _ ih =>
    rw [disect_newline]
    exact .newline ih
  | line hline htail _ ih =>
    obtain ⟨hnil, hnewline, hbrace⟩ := hline
    rw [disect_line hnil hnewline hbrace htail]
    exact .piece hnil (fun h => hnewline (List.mem_of_head? h)) ih
  | braces hcloses _ ih =>
    rw [disect_object _ hcloses]
    exact .piece (List.cons_ne_nil _ _) (by simp) ih

theorem Covers.of_newline {text : List Char} {pieces : List (List Char)}
    (h : Covers ('\n' :: text) pieces) : Covers text pieces := by
  generalize htext : '\n' :: text = whole at h
  cases h with
  | nil => exact absurd htext (List.cons_ne_nil _ _)
  | newline h =>
    obtain ⟨-, rfl⟩ := List.cons.inj htext
    exact h
  | @piece piece rest pieces hnil hhead h =>
    cases piece with
    | nil => exact absurd rfl hnil
    | cons c piece =>
      obtain ⟨rfl, -⟩ := List.cons.inj htext
      exact absurd rfl hhead

theorem Covers.of_piece {piece text : List Char} {pieces : List (List Char)}
    (hnil : piece ≠ []) (hhead : piece.head? ≠ some '\n')
    (h : Covers (piece ++ text) (piece :: pieces)) : Covers text pieces := by
  generalize hwhole : piece ++ text = whole at h
  generalize hpieces : piece :: pieces = all at h
  cases h with
  | nil => exact absurd hpieces (List.cons_ne_nil _ _)
  | newline h =>
    cases piece with
    | nil => exact absurd rfl hnil
    | cons c piece =>
      obtain ⟨rfl, -⟩ := List.cons.inj hwhole
      exact absurd rfl hhead
  | piece _ _ h =>
    obtain ⟨rfl, rfl⟩ := List.cons.inj hpieces
    rwa [List.append_cancel_left hwhole]

theorem not_covers_nil {text : List Char} (h : Covers text []) : ∀ c ∈ text, c = '\n' := by
  generalize hpieces : ([] : List (List Char)) = pieces at h
  induction h with
  | nil => simp
  | newline _ ih => exact List.forall_mem_cons.mpr ⟨rfl, ih hpieces⟩
  | piece _ _ _ _ => exact absurd hpieces.symm (List.cons_ne_nil _ _)

/-- What a text begins with. -/
theorem text_cases (text : List Char) :
    text = [] ∨ (∃ rest, text = '\n' :: rest) ∨ (∃ rest, text = '{' :: rest) ∨
      ∃ line tail, text = line ++ tail ∧ IsLine line ∧ ∀ c ∈ tail.head?, c = '\n' := by
  cases text with
  | nil => exact .inl rfl
  | cons c rest =>
    by_cases hnewline : c = '\n'
    · exact .inr (.inl ⟨rest, hnewline ▸ rfl⟩)
    · by_cases hbrace : c = '{'
      · exact .inr (.inr (.inl ⟨rest, hbrace ▸ rfl⟩))
      · refine .inr (.inr (.inr ⟨c :: rest.takeWhile (· ≠ '\n'), rest.dropWhile (· ≠ '\n'),
          ?_, ⟨List.cons_ne_nil _ _, ?_, ?_⟩, ?_⟩))
        · rw [List.cons_append, List.takeWhile_append_dropWhile]
        · rw [List.mem_cons, not_or]
          refine ⟨Ne.symm hnewline, fun hmem => ?_⟩
          simpa using List.mem_takeWhile_imp hmem
        · simpa using hbrace
        · intro d hd
          have hhead := List.head?_dropWhile_not (fun d => decide (d ≠ '\n')) rest
          rw [Option.mem_def.mp hd] at hhead
          simpa using hhead

theorem allClose_of_covers {text : List Char} (h : Covers text (disect text)) :
    AllClose text := by
  induction hn : text.length using Nat.strong_induction_on generalizing text with
  | _ n ih =>
    subst hn
    rcases text_cases text with rfl | ⟨rest, rfl⟩ | ⟨rest, rfl⟩ | ⟨line, tail, rfl, hline, htail⟩
    · exact .nil
    · rw [disect_newline] at h
      exact .newline (ih rest.length (Nat.lt_succ_self _) h.of_newline rfl)
    · cases hi : jsonEndIdxFrom 1 0 rest with
      | none =>
        rw [disect_brace, hi] at h
        exact absurd (not_covers_nil h '{' List.mem_cons_self) (by decide)
      | some i =>
        obtain ⟨body, tail, rfl, rfl, -⟩ := (jsonEndIdxFrom_eq_some_iff Nat.one_pos _ _).mp hi
        have hsplit : body ++ '}' :: tail = (body ++ ['}']) ++ tail := by simp
        rw [hsplit] at hi h ih ⊢
        have hcloses : Closes ('{' :: (body ++ ['}'])) :=
          (jsonEndIdxFrom_iff_closes _ tail).mp ⟨body.length, by simpa using hi, by simp⟩
        rw [← List.cons_append, disect_object tail hcloses] at h
        exact .braces hcloses (ih tail.length (by simp; omega)
          (h.of_piece (List.cons_ne_nil _ _) (by simp)) rfl)
    · obtain ⟨hnil, hnewline, hbrace⟩ := hline
      rw [disect_line hnil hnewline hbrace htail] at h
      have hlength := List.length_pos_iff.mpr hnil
      exact .line ⟨hnil, hnewline, hbrace⟩ htail (ih tail.length (by simp; omega)
        (h.of_piece hnil fun hhead => hnewline (List.mem_of_head? hhead)) rfl)

/-- **Items that are joined by newlines come back exactly when the braces of every object among
    them close at its end; and all characters of a text but the newlines between the pieces are in
    a piece exactly when no brace at the head of a piece stays open.** -/
theorem disect_iff {items : List (List Char)}
    (hitems : ∀ item ∈ items, IsLine item ∨ IsObject item) (text : List Char) :
    (disect (['\n'].intercalate items) = items ↔ ∀ item ∈ items, IsObject item → Closes item) ∧
      (Covers text (disect text) ↔ AllClose text) :=
  ⟨disect_intercalate_iff hitems, allClose_of_covers, covers_of_allClose⟩

theorem disect_iff_link :
    disect ['s', 's', '\n', '{', '}'] = [['s', 's'], ['{', '}']] ∧
      Covers ['s', 's', '\n', '{', '}'] (disect ['s', 's', '\n', '{', '}']) := by
  have hline : IsLine ['s', 's'] := by
    unfold IsLine
    decide
  have hitems : ∀ item ∈ [['s', 's'], ['{', '}']], IsLine item ∨ IsObject item :=
    List.forall_mem_cons.mpr
      ⟨.inl hline, List.forall_mem_singleton.mpr (.inr ⟨rfl, 2, [], rfl⟩)⟩
  have hcloses : Closes ['{', '}'] :=
    (closes_iff ['}']).mpr ⟨[], rfl, fun start hstart => by
      rw [List.prefix_nil.mp hstart]
      decide, rfl⟩
  have hiff := disect_iff hitems ['s', 's', '\n', '{', '}']
  refine ⟨hiff.1.mpr (List.forall_mem_cons.mpr ⟨fun h => ?_, ?_⟩), hiff.2.mpr ?_⟩
  · exact absurd h.1 (by decide)
  · exact List.forall_mem_singleton.mpr fun _ => hcloses
  · have hbraces : AllClose ['{', '}'] := .braces hcloses .nil
    exact .line hline (by simp) (.newline hbraces)

/-- An object with a closing brace in a string. -/
def braceInString : List Char := ['{', '"', 'p', '"', ':', '"', '}', '"', '}']

theorem password_ends_the_object :
    ¬ (∀ items : List (List Char), (∀ item ∈ items, IsLine item ∨ IsObject item) →
      disect (['\n'].intercalate items) = items) ∧
    ¬ (∀ text, Covers text (disect text)) ∧
    disect braceInString = [['{', '"', 'p', '"', ':', '"', '}'], ['"', '}']] := by
  have hpieces : disect braceInString = [['{', '"', 'p', '"', ':', '"', '}'], ['"', '}']] := by
    decide
  refine ⟨fun h => ?_, fun h => ?_, hpieces⟩
  · have hobject : IsObject braceInString := ⟨rfl, 5, [(['p'], .string ['}'])], rfl⟩
    have heq := h [braceInString] (List.forall_mem_singleton.mpr (.inr hobject))
    rw [List.intercalate_singleton, hpieces] at heq
    exact absurd heq (by decide)
  · exact absurd (not_covers_nil (h ['{']) '{' List.mem_cons_self) (by decide)

end Disect

end NekoBox.Subscription
