import NekoBox.Lib.Parts

/-!
# Slash-separated paths

A path is a text with slashes; it is rooted when it starts with one. The empty segments and
those that are a dot say nothing, two dots lead out of the segment before, and at the root
they lead nowhere.

* `parts_clean`: `clean` spells a path with the same parts;
* `walk_under`: segments that do not lead out of a place are put below it, wherever it is;
* `walk_map`: renaming the names of the segments.
-/

namespace NekoBox.Lib.SlashPath

abbrev Seg := List Char

/-- The segment that leads out. -/
def up : Seg := ['.', '.']

/-- A segment that names something. -/
def Name (s : Seg) : Prop := s ≠ [] ∧ s ≠ ['.'] ∧ s ≠ up

instance (s : Seg) : Decidable (Name s) := inferInstanceAs (Decidable (_ ∧ _))

def segments (p : List Char) : List Seg := p.splitOn '/'

def isRooted (p : List Char) : Bool := p.head? = some '/'

/-- Follow a segment; the innermost one of the place stands first. -/
def enter (rooted : Bool) (place : List Seg) (s : Seg) : List Seg :=
  if s = [] ∨ s = ['.'] then place
  else if s = up then
    match place with
    | [] => if rooted then [] else [up]
    | top :: rest => if top = up then up :: place else rest
  else s :: place

def walk (rooted : Bool) (place segs : List Seg) : List Seg := segs.foldl (enter rooted) place

/-- The parts of segments. -/
def resolve (rooted : Bool) (segs : List Seg) : List Seg := (walk rooted [] segs).reverse

/-- The parts of a path. -/
def parts (p : List Char) : List Seg := resolve (isRooted p) (segments p)

/-- The shortest spelling of a path. -/
def clean (p : List Char) : List Char :=
  let out := (if isRooted p then ['/'] else []) ++ ['/'].intercalate (parts p)
  if out = [] then ['.'] else out

section

variable {rooted : Bool} {place segs : List Seg} {s : Seg}

theorem walk_append (rooted : Bool) (place segs segs' : List Seg) :
    walk rooted place (segs ++ segs') = walk rooted (walk rooted place segs) segs' :=
  List.foldl_append

theorem walk_concat (rooted : Bool) (place segs : List Seg) (s : Seg) :
    walk rooted place (segs ++ [s]) = enter rooted (walk rooted place segs) s :=
  walk_append rooted place segs [s]

theorem enter_name (h : Name s) : enter rooted place s = s :: place := by
  unfold enter
  rw [if_neg (not_or.mpr ⟨h.1, h.2.1⟩), if_neg h.2.2]

theorem enter_empty : enter rooted place [] = place := if_pos (.inl rfl)

theorem enter_up_cons (rooted : Bool) (top : Seg) (rest : List Seg) :
    enter rooted (top :: rest) up = if top = up then up :: top :: rest else rest := by
  unfold enter
  rw [if_neg (by decide), if_pos rfl]

theorem not_name_up : ¬ Name up := fun h => h.2.2 rfl

/-- A segment says nothing, leads out or is a name. -/
theorem seg_cases (s : Seg) : (s = [] ∨ s = ['.']) ∨ s = up ∨ Name s := by
  unfold Name
  tauto

/-! ## Where a walk ends -/

/-- Names, and outside of them ways out of an unrooted path. -/
def Normal (rooted : Bool) (place : List Seg) : Prop :=
  ∃ names n, place = names ++ List.replicate n up ∧ (∀ s ∈ names, Name s) ∧
    (rooted = true → n = 0)

theorem normal_nil : Normal rooted [] :=
  ⟨[], 0, rfl, fun _ h => absurd h List.not_mem_nil, fun _ => rfl⟩

theorem Normal.enter (h : Normal rooted place) (s : Seg) :
    Normal rooted (enter rooted place s) := by
  obtain ⟨names, n, rfl, hnames, hroot⟩ := h
  rcases seg_cases s with hnothing | rfl | hname
  · unfold SlashPath.enter
    rw [if_pos hnothing]
    exact ⟨names, n, rfl, hnames, hroot⟩
  · cases names with
    | nil =>
      cases n with
      | zero =>
        unfold SlashPath.enter
        rw [if_neg (by decide), if_pos rfl]
        cases rooted with
        | true => exact normal_nil
        | false => exact ⟨[], 1, rfl, hnames, fun h => nomatch h⟩
      | succ n =>
        refine ⟨[], n + 2, ?_, hnames, fun h => absurd (hroot h) (Nat.succ_ne_zero n)⟩
        rw [List.nil_append, List.replicate_succ, enter_up_cons, if_pos rfl]
        rfl
    | cons name names =>
      obtain ⟨hname, hnames⟩ := List.forall_mem_cons.mp hnames
      rw [List.cons_append, enter_up_cons, if_neg hname.2.2]
      exact ⟨names, n, rfl, hnames, hroot⟩
  · rw [enter_name hname]
    exact ⟨s :: names, n, rfl, List.forall_mem_cons.mpr ⟨hname, hnames⟩, hroot⟩

theorem normal_walk (h : Normal rooted place) (segs : List Seg) :
    Normal rooted (walk rooted place segs) := by
  induction segs generalizing place with
  | nil => exact h
  | cons s segs ih => exact ih (h.enter s)

theorem mem_enter {t : Seg} (h : t ∈ enter rooted place s) : t ∈ place ∨ t = s := by
  rcases seg_cases s with hnothing | rfl | hname
  · unfold enter at h
    rw [if_pos hnothing] at h
    exact .inl h
  · cases place with
    | nil =>
      unfold enter at h
      rw [if_neg (by decide), if_pos rfl] at h
      cases rooted with
      | true => exact nomatch h
      | false => exact .inr (List.mem_singleton.mp h)
    | cons top rest =>
      rw [enter_up_cons] at h
      split_ifs at h with htop
      · exact (List.mem_cons.mp h).symm
      · exact .inl (List.mem_cons_of_mem top h)
  · rw [enter_name hname] at h
    exact (List.mem_cons.mp h).symm

theorem mem_walk {t : Seg} (h : t ∈ walk rooted place segs) : t ∈ place ∨ t ∈ segs := by
  induction segs generalizing place with
  | nil => exact .inl h
  | cons s segs ih =>
    rcases ih h with h | h
    · refine (mem_enter h).imp_right fun heq => ?_
      rw [heq]
      exact List.mem_cons_self
    · exact .inr (List.mem_cons_of_mem s h)

/-- Names are put below a place. -/
theorem walk_names (rooted : Bool) (place : List Seg) {names : List Seg}
    (h : ∀ s ∈ names, Name s) : walk rooted place names = names.reverse ++ place := by
  induction names generalizing place with
  | nil => rfl
  | cons s names ih =>
    obtain ⟨hs, hnames⟩ := List.forall_mem_cons.mp h
    show walk rooted (enter rooted place s) names = _
    rw [enter_name hs, ih _ hnames, List.reverse_cons, List.append_assoc]
    rfl

theorem walk_ups (n : ℕ) : walk false [] (List.replicate n up) = List.replicate n up := by
  induction n with
  | zero => rfl
  | succ n ih =>
    rw [List.replicate_succ', walk_concat, ih, ← List.replicate_succ']
    cases n with
    | zero => rfl
    | succ n => rw [List.replicate_succ, enter_up_cons, if_pos rfl]; rfl

/-- Out of a name and on. -/
theorem walk_ups_of_name (n : ℕ) (h : Name s) :
    walk false [s] (List.replicate (n + 1) up) = List.replicate n up := by
  show walk false (enter false [s] up) (List.replicate n up) = _
  rw [enter_up_cons, if_neg h.2.2]
  exact walk_ups n

/-- Parts are resolved as they are. -/
theorem resolve_of_normal {ps : List Seg} (h : Normal rooted ps.reverse) : resolve rooted ps = ps := by
  obtain ⟨names, n, hps, hnames, hroot⟩ := h
  have hparts : ps = List.replicate n up ++ names.reverse := by
    rw [← List.reverse_reverse ps, hps, List.reverse_append, List.reverse_replicate]
  have hups : walk rooted [] (List.replicate n up) = List.replicate n up := by
    cases rooted with
    | true => rw [hroot rfl]; rfl
    | false => exact walk_ups n
  unfold resolve
  rw [hparts, walk_append, hups, walk_names rooted _ fun s hs => hnames s (List.mem_reverse.mp hs),
    List.reverse_append, List.reverse_reverse, List.reverse_replicate]

theorem normal_resolve (rooted : Bool) (segs : List Seg) :
    Normal rooted (resolve rooted segs).reverse := by
  rw [resolve, List.reverse_reverse]
  exact normal_walk normal_nil segs

/-- The parts of a path: ways out, then names. -/
theorem exists_ups_names (rooted : Bool) (segs : List Seg) :
    ∃ n names, resolve rooted segs = List.replicate n up ++ names ∧ (∀ s ∈ names, Name s) ∧
      (rooted = true → n = 0) := by
  obtain ⟨names, n, hplace, hnames, hroot⟩ := normal_resolve rooted segs
  refine ⟨n, names.reverse, ?_, fun s hs => hnames s (List.mem_reverse.mp hs), hroot⟩
  rw [← List.reverse_reverse (resolve rooted segs), hplace, List.reverse_append,
    List.reverse_replicate]

/-- A way out stays. -/
theorem up_mem_enter (h : up ∈ place) : up ∈ enter rooted place s := by
  rcases seg_cases s with hnothing | rfl | hname
  · unfold enter
    rw [if_pos hnothing]
    exact h
  · cases place with
    | nil => exact nomatch h
    | cons top rest =>
      rw [enter_up_cons]
      split_ifs with htop
      · exact List.mem_cons_self
      · exact (List.mem_cons.mp h).resolve_left fun heq => htop heq.symm
  · rw [enter_name hname]
    exact List.mem_cons_of_mem s h

/-- What does not lead out of a place is put below it. -/
theorem walk_under (rooted : Bool) (place : List Seg) (h : up ∉ walk false [] segs) :
    walk rooted place segs = walk false [] segs ++ place := by
  induction segs using List.reverseRecOn with
  | nil => rfl
  | append_singleton segs s ih =>
    rw [walk_concat] at h
    have hsegs : up ∉ walk false [] segs := fun hmem => h (up_mem_enter hmem)
    rw [walk_concat, walk_concat, ih hsegs]
    rcases seg_cases s with hnothing | rfl | hname
    · unfold enter
      rw [if_pos hnothing, if_pos hnothing]
    · cases hwalk : walk false [] segs with
      | nil =>
        rw [hwalk] at h
        exact absurd List.mem_cons_self h
      | cons top rest =>
        have htop : top ≠ up := fun heq => hsegs (by rw [hwalk, heq]; exact List.mem_cons_self)
        rw [List.cons_append, enter_up_cons, enter_up_cons, if_neg htop, if_neg htop]
    · rw [enter_name hname, enter_name hname]
      rfl

/-! ## Renaming -/

/-- A renaming of names. -/
structure Renames (f : Seg → Seg) : Prop where
  nothing : ∀ s, f s = [] ↔ s = []
  dot : ∀ s, f s = ['.'] ↔ s = ['.']
  up : ∀ s, f s = up ↔ s = up

theorem walk_map {f : Seg → Seg} (hf : Renames f) (rooted : Bool) (place segs : List Seg) :
    walk rooted (place.map f) (segs.map f) = (walk rooted place segs).map f := by
  have henter : ∀ (place : List Seg) (s : Seg),
      enter rooted (place.map f) (f s) = (enter rooted place s).map f := by
    intro place s
    rcases seg_cases s with hnothing | rfl | hname
    · have hfs : f s = [] ∨ f s = ['.'] :=
        hnothing.imp (hf.nothing s).mpr (hf.dot s).mpr
      unfold enter
      rw [if_pos hnothing, if_pos hfs]
    · rw [(hf.up SlashPath.up).mpr rfl]
      cases place with
      | nil => cases rooted <;> simp [enter, SlashPath.up, (hf.up ['.', '.']).mpr rfl]
      | cons top rest =>
        rw [List.map_cons, enter_up_cons, enter_up_cons]
        simp only [hf.up]
        split_ifs
        · rw [List.map_cons, List.map_cons, (hf.up SlashPath.up).mpr rfl]
        · rfl
    · have hfs : Name (f s) := by
        refine ⟨fun h => hname.1 ((hf.nothing s).mp h), fun h => hname.2.1 ((hf.dot s).mp h),
          fun h => hname.2.2 ((hf.up s).mp h)⟩
      rw [enter_name hname, enter_name hfs]
      rfl
  induction segs generalizing place with
  | nil => rfl
  | cons s segs ih =>
    show walk rooted (enter rooted (place.map f) (f s)) (segs.map f) = _
    rw [henter]
    exact ih _

/-! ## Spelling -/

theorem segments_append_cons (a b : List Char) :
    segments (a ++ '/' :: b) = segments a ++ segments b :=
  List.splitOn_append_cons_self a b

theorem slash_not_mem_segments {p : List Char} (h : s ∈ segments p) : '/' ∉ s :=
  Parts.not_mem_of_mem_splitOn h

theorem slash_not_mem_parts {p : List Char} (h : s ∈ parts p) : '/' ∉ s := by
  rcases mem_walk (List.mem_reverse.mp h) with hnil | hmem
  · exact nomatch hnil
  · exact slash_not_mem_segments hmem

theorem ne_nil_of_mem_resolve (h : s ∈ resolve rooted segs) : s ≠ [] := by
  obtain ⟨n, names, hresolve, hnames, -⟩ := exists_ups_names rooted segs
  rw [hresolve] at h
  rcases List.mem_append.mp h with hup | hname
  · rw [List.eq_of_mem_replicate hup]
    decide
  · exact (hnames s hname).1

/-- The segments of a clean path are its parts, apart from those that say nothing. -/
theorem walk_segments_clean (rooted : Bool) (place : List Seg) (p : List Char) :
    walk rooted place (segments (clean p)) = walk rooted place (parts p) := by
  by_cases hparts : parts p = []
  · unfold clean
    rw [hparts]
    cases isRooted p <;> rfl
  · have hsplit : segments (['/'].intercalate (parts p)) = parts p :=
      List.splitOn_intercalate '/' (fun s hs => slash_not_mem_parts hs) hparts
    have hne : ['/'].intercalate (parts p) ≠ [] := by
      intro hnil
      rw [hnil] at hsplit
      have hmem : [] ∈ parts p := by
        rw [← hsplit]
        exact List.mem_singleton_self []
      exact ne_nil_of_mem_resolve hmem rfl
    unfold clean
    dsimp only
    rw [if_neg fun h => hne (List.append_eq_nil_iff.mp h).2]
    cases isRooted p with
    | false => exact congrArg (walk rooted place) hsplit
    | true =>
      have htext : segments ('/' :: ['/'].intercalate (parts p)) = [] :: parts p := by
        rw [← List.nil_append ('/' :: _), segments_append_cons, hsplit]
        rfl
      show walk rooted place (segments ('/' :: ['/'].intercalate (parts p))) = _
      rw [htext]
      rfl

theorem isRooted_clean (p : List Char) : isRooted (clean p) = isRooted p := by
  unfold clean
  cases hrooted : isRooted p with
  | true => rfl
  | false =>
    dsimp only
    cases hparts : parts p with
    | nil => rfl
    | cons s rest =>
      have hs : s ∈ parts p := hparts ▸ List.mem_cons_self
      have hslash := slash_not_mem_parts hs
      obtain ⟨c, cs, rfl⟩ := List.exists_cons_of_ne_nil (ne_nil_of_mem_resolve hs)
      have hc : c ≠ '/' := fun h => hslash (h ▸ List.mem_cons_self)
      obtain ⟨tail, htail⟩ : ∃ tail, ['/'].intercalate ((c :: cs) :: rest) = c :: tail := by
        cases rest with
        | nil => exact ⟨cs, by simp [List.intercalate]⟩
        | cons t rest => exact ⟨_, rfl⟩
      rw [htail, if_neg Bool.false_ne_true, List.nil_append, if_neg (List.cons_ne_nil _ _)]
      simp [isRooted, hc]

/-- **A clean path has the parts of the path.** -/
theorem parts_clean (p : List Char) : parts (clean p) = parts p := by
  unfold parts
  rw [isRooted_clean]
  show (walk _ _ _).reverse = _
  rw [walk_segments_clean]
  exact resolve_of_normal (normal_resolve _ _)

end

end NekoBox.Lib.SlashPath
