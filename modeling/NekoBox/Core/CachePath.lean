import NekoBox.Lib.SlashPath

/-!
# Where a rule set is cached

`urlToPath` (`utils.go`, lines 164–178) makes a path in the directory of the rule sets of a
URL: it takes the colon of the scheme away, spells some characters with underscores and
cleans the path. The paths are those of Unix. `filepath.Clean` resolves the segments of the
URL that are two dots, also those of a query.

* `contained_iff`: the path is below the directory, whichever it is, exactly when the
  segments of the URL lead to a place below where they start;
* `separate_iff`: two contained paths differ, and neither is below the other, exactly when
  neither URL's place is at or below that of the other.
-/

namespace NekoBox.Core

open NekoBox.Lib SlashPath

namespace CachePath

/-! ## The code -/

/-- `strings.Replace(url, ":/", "/", 1)` -/
def withoutColon : List Char → List Char
  | ':' :: '/' :: url => '/' :: url
  | c :: url => c :: withoutColon url
  | [] => []

/-- `strings.ReplaceAll` of a character. -/
def replaceAll (old : Char) (new : List Char) (url : List Char) : List Char :=
  url.flatMap fun c => if c = old then new else [c]

/-- The spelling of a URL (lines 166–174). -/
def spell (url : List Char) : List Char :=
  let url := replaceAll '_' ['_', '0', '_'] url
  let url := replaceAll ':' ['_', '1', '_'] url
  let url := replaceAll '@' ['_', '2', '_'] url
  let url := replaceAll '?' ['_', '3', '_'] url
  let url := replaceAll '=' ['_', '4', '_'] url
  let url := replaceAll '&' ['_', '5', '_'] url
  let url := replaceAll '"' ['_', '6', '_'] url
  let url := replaceAll '\'' ['_', '7', '_'] url
  replaceAll '*' ['_', '8', '_'] url

/-- `filepath.Join` of two elements. -/
def join (dir path : List Char) : List Char :=
  if dir = [] then (if path = [] then [] else clean path)
  else if path = [] then clean dir
  else clean (dir ++ '/' :: path)

/-- `urlToPath`, for a directory. -/
def urlToPath (rulesetCachedir url : List Char) : List Char :=
  clean (join rulesetCachedir (clean (spell (withoutColon url))))

/-! ## Spelling -/

/-- The spelling of a character. -/
def code (c : Char) : List Char :=
  if c = '_' then ['_', '0', '_']
  else if c = ':' then ['_', '1', '_']
  else if c = '@' then ['_', '2', '_']
  else if c = '?' then ['_', '3', '_']
  else if c = '=' then ['_', '4', '_']
  else if c = '&' then ['_', '5', '_']
  else if c = '"' then ['_', '6', '_']
  else if c = '\'' then ['_', '7', '_']
  else if c = '*' then ['_', '8', '_']
  else [c]

theorem replaceAll_flatMap (old : Char) (new : List Char) (f : Char → List Char)
    (url : List Char) :
    replaceAll old new (url.flatMap f) = url.flatMap fun c => replaceAll old new (f c) :=
  List.flatMap_assoc

/-- The URL is spelt character by character. -/
theorem spell_eq (url : List Char) : spell url = url.flatMap code := by
  have hfirst : replaceAll '_' ['_', '0', '_'] url =
      url.flatMap fun c => if c = '_' then ['_', '0', '_'] else [c] := rfl
  unfold spell
  rw [hfirst]
  simp only [replaceAll_flatMap]
  refine List.flatMap_congr fun c _ => ?_
  by_cases h : c ∈ ['_', ':', '@', '?', '=', '&', '"', '\'', '*']
  · simp only [List.mem_cons, List.not_mem_nil, or_false] at h
    rcases h with rfl | rfl | rfl | rfl | rfl | rfl | rfl | rfl | rfl <;> rfl
  · simp only [List.mem_cons, List.not_mem_nil, or_false, not_or] at h
    simp [code, replaceAll, h]

/-- The spelling of a segment. -/
def spellSeg (s : Seg) : Seg := s.flatMap code

theorem code_ne_nil (c : Char) : code c ≠ [] := by
  unfold code
  split_ifs <;> exact List.cons_ne_nil _ _

theorem code_of_plain {c : Char} (h : c ∉ ['_', ':', '@', '?', '=', '&', '"', '\'', '*']) :
    code c = [c] := by
  simp only [List.mem_cons, List.not_mem_nil, or_false, not_or] at h
  obtain ⟨h0, h1, h2, h3, h4, h5, h6, h7, h8⟩ := h
  unfold code
  rw [if_neg h0, if_neg h1, if_neg h2, if_neg h3, if_neg h4, if_neg h5, if_neg h6, if_neg h7,
    if_neg h8]

/-- The character of a code. -/
def decodeDigit (d : Char) : Char :=
  if d = '0' then '_'
  else if d = '1' then ':'
  else if d = '2' then '@'
  else if d = '3' then '?'
  else if d = '4' then '='
  else if d = '5' then '&'
  else if d = '6' then '"'
  else if d = '7' then '\''
  else '*'

/-- A code has an underscore, a digit and an underscore, or is the character. -/
theorem code_cases (c : Char) :
    (∃ d, code c = ['_', d, '_'] ∧ decodeDigit d = c) ∨ code c = [c] ∧ c ≠ '_' := by
  by_cases h : c ∈ ['_', ':', '@', '?', '=', '&', '"', '\'', '*']
  · left
    simp only [List.mem_cons, List.not_mem_nil, or_false] at h
    rcases h with rfl | rfl | rfl | rfl | rfl | rfl | rfl | rfl | rfl
    · exact ⟨'0', rfl, rfl⟩
    · exact ⟨'1', rfl, rfl⟩
    · exact ⟨'2', rfl, rfl⟩
    · exact ⟨'3', rfl, rfl⟩
    · exact ⟨'4', rfl, rfl⟩
    · exact ⟨'5', rfl, rfl⟩
    · exact ⟨'6', rfl, rfl⟩
    · exact ⟨'7', rfl, rfl⟩
    · exact ⟨'8', rfl, rfl⟩
  · exact .inr ⟨code_of_plain h, fun heq => h (heq ▸ List.mem_cons_self)⟩

/-- A text starts with one code. -/
theorem code_append_inj {c d : Char} {a b : List Char} (h : code c ++ a = code d ++ b) :
    c = d ∧ a = b := by
  rcases code_cases c with ⟨x, hc, rfl⟩ | ⟨hc, hne⟩
  · rcases code_cases d with ⟨y, hd, rfl⟩ | ⟨hd, hne'⟩
    · rw [hc, hd] at h
      obtain ⟨rfl, rfl⟩ : x = y ∧ a = b := by simpa using h
      exact ⟨rfl, rfl⟩
    · rw [hc, hd] at h
      exact absurd (List.cons.inj h).1.symm hne'
  · rcases code_cases d with ⟨y, hd, rfl⟩ | ⟨hd, hne'⟩
    · rw [hc, hd] at h
      exact absurd (List.cons.inj h).1 hne
    · rw [hc, hd] at h
      exact List.cons.inj h

/-- The spelling of a text tells the text. -/
theorem spellSeg_injective : Function.Injective spellSeg := by
  intro s
  induction s with
  | nil =>
    intro t h
    cases t with
    | nil => rfl
    | cons d t => exact absurd (List.append_eq_nil_iff.mp h.symm).1 (code_ne_nil d)
  | cons c s ih =>
    intro t h
    cases t with
    | nil => exact absurd (List.append_eq_nil_iff.mp h).1 (code_ne_nil c)
    | cons d t =>
      obtain ⟨rfl, hrest⟩ := code_append_inj h
      rw [ih hrest]

theorem renames_spellSeg : Renames spellSeg where
  nothing := fun _ => spellSeg_injective.eq_iff' rfl
  dot := fun _ => spellSeg_injective.eq_iff' rfl
  up := fun _ => spellSeg_injective.eq_iff' rfl

theorem code_slash : code '/' = ['/'] := rfl

theorem eq_slash_of_mem_code {c : Char} (h : '/' ∈ code c) : c = '/' := by
  unfold code at h
  split_ifs at h
  all_goals simp at h
  exact h.symm

/-- The spelling of segments joined. -/
theorem spellSeg_intercalate (segs : List Seg) :
    spellSeg (['/'].intercalate segs) = ['/'].intercalate (segs.map spellSeg) := by
  induction segs with
  | nil => rfl
  | cons s segs ih =>
    cases segs with
    | nil => simp [List.intercalate]
    | cons t segs =>
      have hcons : ∀ (a b : Seg) (l : List Seg), ['/'].intercalate (a :: b :: l) =
          a ++ '/' :: ['/'].intercalate (b :: l) := fun a b l => rfl
      rw [hcons, List.map_cons, List.map_cons, hcons]
      rw [List.map_cons] at ih
      rw [← ih]
      unfold spellSeg
      rw [List.flatMap_append, List.flatMap_cons, code_slash]
      rfl

theorem segments_spell (url : List Char) : segments (spell url) = (segments url).map spellSeg := by
  have hjoin : ['/'].intercalate (segments url) = url := List.intercalate_splitOn '/'
  have hne : (segments url).map spellSeg ≠ [] := fun h =>
    List.splitOn_ne_nil _ _ (List.map_eq_nil_iff.mp h)
  have hslash : ∀ s ∈ (segments url).map spellSeg, '/' ∉ s := by
    intro s hs hmem
    obtain ⟨t, ht, rfl⟩ := List.mem_map.mp hs
    obtain ⟨c, hc, hcode⟩ := List.mem_flatMap.mp hmem
    exact slash_not_mem_segments ht (eq_slash_of_mem_code hcode ▸ hc)
  show segments (spell url) = _
  rw [spell_eq, ← hjoin]
  show segments (spellSeg _) = _
  rw [spellSeg_intercalate, hjoin]
  exact List.splitOn_intercalate '/' hslash hne

theorem isRooted_spell (url : List Char) : isRooted (spell url) = isRooted url := by
  rw [spell_eq]
  cases url with
  | nil => rfl
  | cons c url =>
    rcases code_cases c with ⟨x, hc, -⟩ | ⟨hc, -⟩
    · have hne : c ≠ '/' := by
        rintro rfl
        exact absurd (List.cons.inj hc).1 (by decide)
      rw [List.flatMap_cons, hc]
      simp [isRooted, hne]
    · rw [List.flatMap_cons, hc]
      rfl

/-! ## The path of a URL -/

/-- Where the segments of a URL lead. -/
def place (url : List Char) : List Seg := parts (withoutColon url)

theorem parts_spell (url : List Char) : parts (spell url) = (parts url).map spellSeg := by
  unfold parts resolve
  rw [isRooted_spell, segments_spell]
  have hmap := walk_map renames_spellSeg (isRooted url) [] (segments url)
  rw [List.map_nil] at hmap
  rw [hmap, List.map_reverse]

theorem clean_ne_nil (p : List Char) : clean p ≠ [] := by
  unfold clean
  generalize (if isRooted p then ['/'] else []) ++ ['/'].intercalate (parts p) = out
  dsimp only
  split_ifs with h
  · exact List.cons_ne_nil _ _
  · exact h

variable {dir url url' : List Char}

theorem urlToPath_eq (hdir : dir ≠ []) :
    urlToPath dir url = clean (clean (dir ++ '/' :: clean (spell (withoutColon url)))) := by
  unfold urlToPath join
  rw [if_neg hdir, if_neg (clean_ne_nil _)]

theorem isRooted_urlToPath (hdir : dir ≠ []) : isRooted (urlToPath dir url) = isRooted dir := by
  rw [urlToPath_eq hdir, isRooted_clean, isRooted_clean]
  obtain ⟨c, cs, rfl⟩ := List.exists_cons_of_ne_nil hdir
  rfl

/-- The path goes on from the directory to the place of the URL. -/
theorem parts_urlToPath (hdir : dir ≠ []) : parts (urlToPath dir url) =
    (walk (isRooted dir) (parts dir).reverse ((place url).map spellSeg)).reverse := by
  have hrooted : ∀ p, isRooted (dir ++ '/' :: p) = isRooted dir := by
    obtain ⟨c, cs, rfl⟩ := List.exists_cons_of_ne_nil hdir
    exact fun _ => rfl
  rw [urlToPath_eq hdir, parts_clean, parts_clean]
  show (walk _ [] _).reverse = _
  rw [hrooted, segments_append_cons, walk_append, walk_segments_clean, parts_spell]
  show _ = (walk _ (walk _ [] _).reverse.reverse _).reverse
  rw [List.reverse_reverse]
  rfl

/-- The URL leads to a place below where it starts. -/
def Descends (url : List Char) : Prop := up ∉ place url ∧ place url ≠ []

instance (url : List Char) : Decidable (Descends url) := inferInstanceAs (Decidable (_ ∧ _))

theorem Descends.names (h : Descends url) : ∀ s ∈ place url, Name s := by
  obtain ⟨n, names, hplace, hnames, -⟩ := exists_ups_names (isRooted (withoutColon url))
    (segments (withoutColon url))
  cases n with
  | zero =>
    intro s hs
    have hplace' : place url = names := hplace
    exact hnames s (hplace' ▸ hs)
  | succ n =>
    refine absurd ?_ h.1
    show up ∈ resolve _ _
    rw [hplace]
    exact List.mem_append_left _ (List.mem_replicate.mpr ⟨Nat.succ_ne_zero n, rfl⟩)

theorem name_spellSeg {s : Seg} (h : Name s) : Name (spellSeg s) :=
  ⟨fun heq => h.1 ((renames_spellSeg.nothing s).mp heq),
    fun heq => h.2.1 ((renames_spellSeg.dot s).mp heq),
    fun heq => h.2.2 ((renames_spellSeg.up s).mp heq)⟩

/-- The path of a URL that leads below where it starts. -/
theorem Descends.parts_urlToPath (h : Descends url) (hdir : dir ≠ []) :
    parts (urlToPath dir url) = parts dir ++ (place url).map spellSeg := by
  have hnames : ∀ s ∈ (place url).map spellSeg, Name s := by
    intro s hs
    obtain ⟨t, ht, rfl⟩ := List.mem_map.mp hs
    exact name_spellSeg (h.names t ht)
  rw [CachePath.parts_urlToPath hdir, walk_names _ _ hnames, List.reverse_append,
    List.reverse_reverse, List.reverse_reverse]

/-! ## Containment -/

/-- A path lies below another, taken as a directory. -/
def Below (dir path : List Char) : Prop :=
  isRooted path = isRooted dir ∧ ∃ rest, rest ≠ [] ∧ up ∉ rest ∧ parts path = parts dir ++ rest

theorem Descends.below (h : Descends url) (hdir : dir ≠ []) : Below dir (urlToPath dir url) := by
  refine ⟨isRooted_urlToPath hdir, (place url).map spellSeg, ?_, ?_, h.parts_urlToPath hdir⟩
  · exact fun hnil => h.2 (List.map_eq_nil_iff.mp hnil)
  · intro hup
    obtain ⟨s, hs, hspell⟩ := List.mem_map.mp hup
    exact not_name_up (hspell ▸ name_spellSeg (h.names s hs))

/-- The path of a URL in two directories tells where the URL leads. -/
theorem descends_of_below (h : ∀ dir, dir ≠ [] → Below dir (urlToPath dir url)) :
    Descends url := by
  have hspell : spellSeg up = up := rfl
  obtain ⟨n, names, hplace, hnames, -⟩ := exists_ups_names (isRooted (withoutColon url))
    (segments (withoutColon url))
  have hplace' : place url = List.replicate n up ++ names := hplace
  have hnames' : ∀ s ∈ names.map spellSeg, Name s := by
    intro s hs
    obtain ⟨t, ht, rfl⟩ := List.mem_map.mp hs
    exact name_spellSeg (hnames t ht)
  -- below a directory of one segment
  have hone : ∀ c : Char, Name [c] → isRooted [c] = false → parts [c] = [[c]] →
      n = 0 ∧ names ≠ [] ∨ ∃ rest, names.map spellSeg = [c] :: rest := by
    intro c hc hrooted hparts
    obtain ⟨-, rest, hrest, hup, heq⟩ := h [c] (List.cons_ne_nil _ _)
    rw [parts_urlToPath (List.cons_ne_nil _ _), hparts, hrooted, hplace', List.map_append,
      List.map_replicate, hspell, walk_append, walk_names _ _ hnames'] at heq
    cases n with
    | zero =>
      refine .inl ⟨rfl, fun hnil => hrest ?_⟩
      rw [hnil] at heq
      simpa [walk] using heq
    | succ n =>
      rw [List.reverse_singleton, walk_ups_of_name n hc, List.reverse_append, List.reverse_reverse,
        List.reverse_replicate] at heq
      cases n with
      | zero => exact .inr ⟨rest, heq⟩
      | succ n =>
        rw [List.replicate_succ] at heq
        exact absurd ((List.cons.inj heq).1 ▸ hc) not_name_up
  have ha := hone 'a' (by decide) rfl (by decide)
  have hb := hone 'b' (by decide) rfl (by decide)
  have hzero : n = 0 ∧ names ≠ [] := by
    rcases ha with ha | ⟨rest, ha⟩
    · exact ha
    · rcases hb with hb | ⟨rest', hb⟩
      · exact hb
      · rw [ha] at hb
        exact absurd (List.cons.inj hb).1 (by decide)
  obtain ⟨rfl, hne⟩ := hzero
  refine ⟨fun hup => ?_, ?_⟩
  · rw [hplace'] at hup
    exact not_name_up (hnames up hup)
  · rw [hplace']
    exact hne

/-- Two paths can be files beside each other. -/
def Separate (p q : List Char) : Prop := p ≠ q ∧ ¬ Below p q ∧ ¬ Below q p

theorem urlToPath_eq_iff (hdir : dir ≠ []) :
    urlToPath dir url = urlToPath dir url' ↔
      parts (urlToPath dir url) = parts (urlToPath dir url') := by
  refine ⟨congrArg parts, fun h => ?_⟩
  rw [urlToPath_eq hdir, urlToPath_eq hdir] at h ⊢
  have htwice : ∀ p, parts (clean (clean p)) = parts (clean p) := fun p => parts_clean _
  rw [htwice, htwice] at h
  have hrooted : ∀ p, isRooted (clean (dir ++ '/' :: p)) = isRooted dir := by
    obtain ⟨c, cs, rfl⟩ := List.exists_cons_of_ne_nil hdir
    exact fun p => isRooted_clean _
  have hspell : ∀ p q, isRooted p = isRooted q → parts p = parts q → clean p = clean q := by
    intro p q hpq hparts
    unfold clean
    rw [hpq, hparts]
  exact hspell _ _ ((hrooted _).trans (hrooted _).symm) h

theorem below_iff (hdir : dir ≠ []) (h : Descends url) (h' : Descends url') :
    Below (urlToPath dir url) (urlToPath dir url') ↔
      ∃ rest, rest ≠ [] ∧ place url' = place url ++ rest := by
  unfold Below
  rw [isRooted_urlToPath hdir, isRooted_urlToPath hdir, h.parts_urlToPath hdir,
    h'.parts_urlToPath hdir, and_iff_right rfl]
  constructor
  · rintro ⟨rest, hrest, -, heq⟩
    rw [List.append_assoc] at heq
    have hmap := List.append_cancel_left heq
    obtain ⟨a, b, hplace, ha, rfl⟩ := List.map_eq_append_iff.mp hmap
    obtain rfl := spellSeg_injective.list_map ha
    exact ⟨b, fun hb => hrest (by rw [hb]; rfl), hplace⟩
  · rintro ⟨rest, hrest, heq⟩
    refine ⟨rest.map spellSeg, fun hnil => hrest (List.map_eq_nil_iff.mp hnil), ?_, ?_⟩
    · intro hup
      obtain ⟨s, hs, hspell⟩ := List.mem_map.mp hup
      have hname := h'.names s (heq ▸ List.mem_append_right _ hs)
      exact not_name_up (hspell ▸ name_spellSeg hname)
    · rw [heq, List.map_append, List.append_assoc]

theorem separate_of_descends (hdir : dir ≠ []) (h : Descends url) (h' : Descends url') :
    Separate (urlToPath dir url) (urlToPath dir url') ↔
      ¬ place url <+: place url' ∧ ¬ place url' <+: place url := by
  have hprefix : ∀ a b : List Seg, a <+: b ↔ a = b ∨ ∃ rest, rest ≠ [] ∧ b = a ++ rest := by
    intro a b
    constructor
    · rintro ⟨rest, rfl⟩
      cases rest with
      | nil => exact .inl (List.append_nil a).symm
      | cons s rest => exact .inr ⟨s :: rest, List.cons_ne_nil _ _, rfl⟩
    · rintro (rfl | ⟨rest, -, rfl⟩)
      · exact List.prefix_rfl
      · exact List.prefix_append _ _
  have heq : urlToPath dir url = urlToPath dir url' ↔ place url = place url' := by
    rw [urlToPath_eq_iff hdir, h.parts_urlToPath hdir, h'.parts_urlToPath hdir]
    constructor
    · exact fun hparts => spellSeg_injective.list_map (List.append_cancel_left hparts)
    · exact fun hplace => by rw [hplace]
  unfold Separate
  rw [below_iff hdir h h', below_iff hdir h' h, hprefix, hprefix, ne_eq, heq, not_or, not_or]
  constructor
  · rintro ⟨hne, hbelow, hbelow'⟩
    exact ⟨⟨hne, hbelow⟩, fun hsame => hne hsame.symm, hbelow'⟩
  · rintro ⟨⟨hne, hbelow⟩, -, hbelow'⟩
    exact ⟨hne, hbelow, hbelow'⟩

/-- **Two URLs that lead below where they start are cached beside each other exactly when
    neither leads to or below the place of the other.** -/
theorem separate_iff (dir url url' : List Char) (hdir : dir ≠ []) (h : Descends url)
    (h' : Descends url') :
    Separate (urlToPath dir url) (urlToPath dir url') ↔
      ¬ place url <+: place url' ∧ ¬ place url' <+: place url :=
  separate_of_descends hdir h h'

theorem separate_iff_two :
    ("/var/cache".toList ≠ [] ∧ Descends "https://h/a".toList ∧ Descends "https://h/b".toList) ∧
    (Separate (urlToPath "/var/cache".toList "https://h/a".toList)
        (urlToPath "/var/cache".toList "https://h/b".toList) ↔
      ¬ place "https://h/a".toList <+: place "https://h/b".toList ∧
        ¬ place "https://h/b".toList <+: place "https://h/a".toList) :=
  ⟨by decide, separate_iff _ _ _ (by decide) (by decide) (by decide)⟩

/-- The path of a URL may be that of a directory of another, and a query may lead to the
    path of another. -/
theorem urls_meet :
    ¬ Separate (urlToPath "/var/cache".toList "https://h/a".toList)
        (urlToPath "/var/cache".toList "https://h/a/b".toList) ∧
    ¬ Separate (urlToPath "/var/cache".toList "https://h/b".toList)
        (urlToPath "/var/cache".toList "https://h/a?x=/../b".toList) := by
  constructor
  · rw [separate_of_descends (by decide) (by decide) (by decide)]
    exact fun h => absurd h.1 (by decide)
  · rw [separate_of_descends (by decide) (by decide) (by decide)]
    exact fun h => absurd h.1 (by decide)

end CachePath

end NekoBox.Core
