import NekoBox.Qt.Text

/-!
# What the core prints

The handler of `readyReadStandardOutput` (`Process.cpp`, lines 71–99): each chunk that
arrives is searched for three markers. What counts is the lines of the core (`RunCore` in
`main.go` prints the first marker): each calls for the messages of the markers it has. The
log itself, which the handler shows afterwards, is left out.

* `mem_marks`: a line has each of its markers once;
* `handler_eq`: what one chunk makes the handler do;
* `handleAll_eq`: in a run without torn or crowded chunks the lines decide alone.
-/

namespace NekoBox.Core

open NekoBox.Qt

/-! ## The handler -/

/-- What is done for the main window: a dialog message, or the process is killed. -/
inductive LogEvent where
  | dialogMessage (sender message : List Char)
  | kill
  deriving DecidableEq

inductive Marker where
  | coreListening
  | failedToServe
  | extraExited
  deriving DecidableEq

def Marker.text : Marker → List Char
  | .coreListening => "Core listening".toList
  | .failedToServe => "failed to serve".toList
  | .extraExited => "Extra process exited unexpectedly".toList

/-- `log.contains` -/
def Marker.isIn (m : Marker) (log : List Char) : Prop := m.text <:+: log

instance (m : Marker) (log : List Char) : Decidable (m.isIn log) :=
  inferInstanceAs (Decidable (_ <:+: _))

def externalProcess : List Char := "ExternalProcess".toList

def coreStarted (id : ℤ) : LogEvent :=
  .dialogMessage externalProcess ("CoreStarted,".toList ++ number id)

def crashed : LogEvent := .dialogMessage externalProcess "Crashed".toList

/-- The handler, with `start_profile_when_core_is_up`. -/
def handler (startProfile : ℤ) (log : List Char) : List LogEvent × ℤ :=
  let showLog := if Marker.extraExited.isIn log then ([crashed], startProfile)
    else ([], startProfile)
  if 0 ≤ startProfile then
    if Marker.coreListening.isIn log then ([coreStarted startProfile], -1)
    else if Marker.failedToServe.isIn log then ([.kill], startProfile)
    else showLog
  else
    if Marker.coreListening.isIn log then ([coreStarted (-1)], startProfile)
    else showLog

/-- The chunks one after the other. -/
def handleAll : ℤ → List (List Char) → List LogEvent × ℤ
  | startProfile, [] => ([], startProfile)
  | startProfile, log :: logs =>
    let r := handler startProfile log
    let rest := handleAll r.2 logs
    (r.1 ++ rest.1, rest.2)

/-! ## The lines -/

/-- What a marker calls for. -/
def react (startProfile : ℤ) : Marker → List LogEvent × ℤ
  | .coreListening => if 0 ≤ startProfile then ([coreStarted startProfile], -1)
    else ([coreStarted (-1)], startProfile)
  | .failedToServe => (if 0 ≤ startProfile then [.kill] else [], startProfile)
  | .extraExited => ([crashed], startProfile)

def reactAll : ℤ → List Marker → List LogEvent × ℤ
  | startProfile, [] => ([], startProfile)
  | startProfile, m :: ms =>
    let r := react startProfile m
    let rest := reactAll r.2 ms
    (r.1 ++ rest.1, rest.2)

/-- The markers of a text, in the order in which they end; none counts twice in a line. The
    first argument is what the line has before the text. -/
def marks : List Char → List Char → List Marker
  | _, [] => []
  | line, c :: s =>
    ([.coreListening, .failedToServe, .extraExited].filter fun m : Marker =>
      decide (m.text <:+ line ++ [c] ∧ ¬ m.isIn line)) ++
        marks (if c = '\n' then [] else line ++ [c]) s

/-- The line that a text leaves unfinished. -/
def lineAfter : List Char → List Char → List Char
  | line, [] => line
  | line, c :: s => lineAfter (if c = '\n' then [] else line ++ [c]) s

/-- A line as it is printed. -/
def IsLine (l : List Char) : Prop := ∃ body, l = body ++ ['\n'] ∧ '\n' ∉ body

variable {m : Marker} {line s : List Char}

theorem text_ne_nil (m : Marker) : m.text ≠ [] := by
  cases m <;> decide

theorem not_mem_text (m : Marker) : '\n' ∉ m.text := by
  cases m <;> decide

theorem marks_append (line s t : List Char) :
    marks line (s ++ t) = marks line s ++ marks (lineAfter line s) t := by
  induction s generalizing line with
  | nil => rfl
  | cons c s ih => rw [List.cons_append, marks, marks, lineAfter, ih, List.append_assoc]

theorem lineAfter_append (line s t : List Char) :
    lineAfter line (s ++ t) = lineAfter (lineAfter line s) t := by
  induction s generalizing line with
  | nil => rfl
  | cons c s ih => exact ih _

theorem lineAfter_of_not_mem (h : '\n' ∉ s) : lineAfter line s = line ++ s := by
  induction s generalizing line with
  | nil => exact (List.append_nil line).symm
  | cons c s ih =>
    obtain ⟨hc, hs⟩ := List.ne_and_not_mem_of_not_mem_cons h
    rw [lineAfter, if_neg (Ne.symm hc), ih hs, List.append_assoc]
    rfl

theorem lineAfter_line (line s : List Char) : lineAfter line (s ++ ['\n']) = [] := by
  rw [lineAfter_append]
  rfl

theorem mem_marks_cons {c : Char} :
    m ∈ marks line (c :: s) ↔ (m.text <:+ line ++ [c] ∧ ¬ m.isIn line) ∨
      m ∈ marks (if c = '\n' then [] else line ++ [c]) s := by
  rw [marks, List.mem_append, List.mem_filter, decide_eq_true_eq]
  refine or_congr_left (and_iff_right ?_)
  cases m <;> simp

/-- A marker that ends in the rest of a line is found there. -/
theorem mem_marks_of_isIn (hnot : ¬ m.isIn line) (hs : '\n' ∉ s) (h : m.isIn (line ++ s))
    (t : List Char) : m ∈ marks line (s ++ t) := by
  induction s generalizing line with
  | nil =>
    rw [List.append_nil] at h
    exact absurd h hnot
  | cons c s ih =>
    obtain ⟨hc, hs⟩ := List.ne_and_not_mem_of_not_mem_cons hs
    rw [List.cons_append, mem_marks_cons, if_neg (Ne.symm hc)]
    by_cases hnow : m.isIn (line ++ [c])
    · exact .inl ⟨(List.infix_concat_iff.mp hnow).resolve_right hnot, hnot⟩
    · refine .inr (ih hnow hs ?_)
      rw [List.append_assoc]
      exact h

/-- Where a marker of a text ends. -/
theorem exists_of_mem_marks (h : m ∈ marks line s) :
    ∃ a c b, s = a ++ c :: b ∧ m.text <:+ lineAfter line a ++ [c] ∧
      ¬ m.isIn (lineAfter line a) := by
  induction s generalizing line with
  | nil => cases h
  | cons c s ih =>
    rcases mem_marks_cons.mp h with hnow | hlater
    · exact ⟨[], c, s, rfl, hnow⟩
    · obtain ⟨a, d, b, rfl, hend⟩ := ih hlater
      exact ⟨c :: a, d, b, rfl, hend⟩

theorem lineAfter_suffix (line s : List Char) : lineAfter line s <:+ line ++ s := by
  induction s generalizing line with
  | nil =>
    rw [List.append_nil]
    exact List.suffix_refl line
  | cons c s ih =>
    rw [lineAfter]
    refine (ih _).trans ?_
    split_ifs
    · exact ⟨line ++ [c], by simp⟩
    · exact ⟨[], by simp⟩

/-- A line has the markers that it contains. -/
theorem mem_marks (hline : IsLine s) : m ∈ marks [] s ↔ m.isIn s := by
  obtain ⟨body, rfl, hbody⟩ := hline
  constructor
  · intro h
    obtain ⟨a, c, b, hs, hend, -⟩ := exists_of_mem_marks h
    obtain ⟨x, hx⟩ := lineAfter_suffix [] a
    obtain ⟨y, hy⟩ := hend
    refine ⟨x ++ y, b, ?_⟩
    rw [List.append_assoc x, hy, hs, ← List.append_assoc, hx]
    simp
  · intro h
    refine mem_marks_of_isIn ?_ hbody ?_ ['\n']
    · exact fun hnil => text_ne_nil m (List.infix_nil.mp hnil)
    · refine (List.infix_concat_iff.mp h).resolve_left ?_
      rintro ⟨x, hx⟩
      have hlast := congrArg List.getLast? hx
      rw [List.getLast?_append, List.getLast?_eq_some_getLast (text_ne_nil m), Option.some_or,
        List.getLast?_concat] at hlast
      exact not_mem_text m (Option.some.inj hlast ▸ List.getLast_mem _)

theorem not_mem_marks (h : m.isIn line) (hs : '\n' ∉ s) : m ∉ marks line s := by
  induction s generalizing line with
  | nil => exact List.not_mem_nil
  | cons c s ih =>
    obtain ⟨hc, hs⟩ := List.ne_and_not_mem_of_not_mem_cons hs
    rw [mem_marks_cons, if_neg (Ne.symm hc)]
    rintro (⟨-, hnot⟩ | hlater)
    · exact hnot h
    · exact ih (h.trans (List.prefix_append line [c]).isInfix) hs hlater

/-- No marker counts twice in a line. -/
theorem nodup_marks (hs : '\n' ∉ s) : (marks line s).Nodup := by
  induction s generalizing line with
  | nil => exact List.nodup_nil
  | cons c s ih =>
    obtain ⟨hc, hs⟩ := List.ne_and_not_mem_of_not_mem_cons hs
    rw [marks, if_neg (Ne.symm hc)]
    refine List.Nodup.append (List.Nodup.filter _ (by decide)) (ih hs) fun m hm hm' => ?_
    have hend := (List.mem_filter.mp hm).2
    exact not_mem_marks (of_decide_eq_true hend).1.isInfix hs hm'

/-! ## A chunk -/

/-- A chunk that the handler can read by itself, when the line before it is not finished: a
    marker that ends in it begins in it, none of the line comes again, and it calls for one
    message at most. -/
structure Readable (startProfile : ℤ) (line log : List Char) : Prop where
  whole : ∀ (m : Marker) (x y : List Char), line ++ log = x ++ m.text ++ y →
    line.length < (x ++ m.text).length → line.length ≤ x.length
  fresh : ∀ m : Marker, m.isIn line → ¬ m.isIn (log.takeWhile (· ≠ '\n'))
  single : (reactAll startProfile (marks line log)).1.length ≤ 1

variable {log : List Char} {startProfile : ℤ}

theorem Readable.mem_marks (h : Readable startProfile line log) :
    m ∈ marks line log ↔ m.isIn log := by
  constructor
  · intro hm
    obtain ⟨a, c, b, hlog, ⟨y, hy⟩, -⟩ := exists_of_mem_marks hm
    obtain ⟨x, hx⟩ := lineAfter_suffix line a
    have htext : line ++ (a ++ [c]) = x ++ y ++ m.text := by
      rw [List.append_assoc x, hy, ← List.append_assoc, ← List.append_assoc, hx]
    have hlength := congrArg List.length htext
    have hstart := h.whole m (x ++ y) b (by rw [hlog, ← htext]; simp) (by
      rw [← hlength]
      simp)
    -- the marker lies behind the unfinished line
    rcases List.append_eq_append_iff.mp htext with ⟨z, hz, hrest⟩ | ⟨z, hz, hrest⟩
    · exact ⟨z, b, by rw [← hrest, hlog]; simp⟩
    · have hnil : z = [] := by
        have hz' := congrArg List.length hz
        rw [List.length_append] at hz'
        exact List.length_eq_zero_iff.mp (by omega)
      rw [hnil, List.nil_append] at hrest
      exact ⟨[], b, by rw [hlog, hrest]; simp⟩
  · rintro ⟨x, y, hlog⟩
    have hsplit : ∀ x : List Char, ∃ x₁ x₂, x = x₁ ++ x₂ ∧ '\n' ∉ x₂ ∧
        (x₁ = [] ∨ lineAfter line x₁ = []) := by
      intro x
      induction x using List.reverseRecOn with
      | nil => exact ⟨[], [], rfl, List.not_mem_nil, .inl rfl⟩
      | append_singleton x c ih =>
        by_cases hc : c = '\n'
        · subst hc
          exact ⟨x ++ ['\n'], [], by simp, List.not_mem_nil, .inr (lineAfter_line line x)⟩
        · obtain ⟨x₁, x₂, rfl, hx₂, hx₁⟩ := ih
          refine ⟨x₁, x₂ ++ [c], by simp, ?_, hx₁⟩
          simpa using ⟨hx₂, Ne.symm hc⟩
    obtain ⟨x₁, x₂, rfl, hx₂, hx₁⟩ := hsplit x
    have hpart : '\n' ∉ x₂ ++ m.text := by
      simpa using ⟨hx₂, not_mem_text m⟩
    have hin : ∀ before, m.isIn (before ++ (x₂ ++ m.text)) := fun before =>
      ⟨before ++ x₂, [], by simp⟩
    have hlog' : log = x₁ ++ ((x₂ ++ m.text) ++ y) := by rw [← hlog]; simp
    rw [hlog', marks_append, List.mem_append]
    rcases hx₁ with rfl | hnil
    · -- the marker belongs to the unfinished line
      refine .inr (mem_marks_of_isIn (fun hline => h.fresh m hline ?_) hpart (hin _) y)
      rw [hlog', List.nil_append, List.takeWhile_append_of_pos]
      · exact ⟨x₂, (y.takeWhile (· ≠ '\n')), rfl⟩
      · intro c hc
        simp only [ne_eq, decide_not, Bool.not_eq_eq_eq_not, Bool.not_true, decide_eq_false_iff_not]
        rintro rfl
        exact hpart hc
    · rw [hnil]
      refine .inr (mem_marks_of_isIn (fun hline => ?_) hpart (hin []) y)
      exact text_ne_nil m (List.infix_nil.mp hline)

/-- While no profile waits, only one marker calls for nothing. -/
theorem reactAll_eq_nil (hstart : ¬ 0 ≤ startProfile) {ms : List Marker}
    (h : (reactAll startProfile ms).1 = []) :
    (∀ m ∈ ms, m = .failedToServe) ∧ (reactAll startProfile ms).2 = startProfile := by
  induction ms with
  | nil => exact ⟨fun m hm => absurd hm List.not_mem_nil, rfl⟩
  | cons m ms ih =>
    cases m with
    | coreListening => simp [reactAll, react, hstart] at h
    | extraExited => simp [reactAll, react] at h
    | failedToServe =>
      have hreact : react startProfile .failedToServe = ([], startProfile) := by
        simp [react, hstart]
      rw [reactAll, hreact] at h
      obtain ⟨hall, hsame⟩ := ih h
      refine ⟨List.forall_mem_cons.mpr ⟨rfl, hall⟩, ?_⟩
      rw [reactAll, hreact]
      exact hsame

/-- While a profile waits, every marker calls for something. -/
theorem eq_nil_of_reactAll (hstart : 0 ≤ startProfile) {ms : List Marker}
    (h : (reactAll startProfile ms).1 = []) : ms = [] := by
  cases ms with
  | nil => rfl
  | cons m ms => cases m <;> simp [reactAll, react, hstart] at h

/-- The markers of a chunk that calls for one message at most. -/
theorem handler_eq (h : Readable startProfile line log) :
    handler startProfile log = reactAll startProfile (marks line log) := by
  have hsingle := h.single
  simp only [handler, ← h.mem_marks]
  generalize marks line log = ms at hsingle
  by_cases hstart : 0 ≤ startProfile
  · rw [if_pos hstart]
    cases ms with
    | nil => rfl
    | cons m ms =>
      cases m with
      | coreListening =>
        have hreact : react startProfile .coreListening = ([coreStarted startProfile], -1) :=
          if_pos hstart
        rw [reactAll, hreact] at hsingle ⊢
        have hrest : (reactAll (-1) ms).1 = [] := by simpa using hsingle
        rw [if_pos (List.mem_cons_self ..), hrest, (reactAll_eq_nil (by decide) hrest).2]
        rfl
      | failedToServe =>
        have hreact : react startProfile .failedToServe = ([.kill], startProfile) := by
          simp [react, hstart]
        rw [reactAll, hreact] at hsingle ⊢
        obtain rfl := eq_nil_of_reactAll hstart (by simpa using hsingle)
        simp [reactAll]
      | extraExited =>
        have hreact : react startProfile .extraExited = ([crashed], startProfile) := rfl
        rw [reactAll, hreact] at hsingle ⊢
        obtain rfl := eq_nil_of_reactAll hstart (by simpa using hsingle)
        simp [reactAll]
  · rw [if_neg hstart]
    induction ms with
    | nil => rfl
    | cons m ms ih =>
      cases m with
      | failedToServe =>
        have hreact : react startProfile .failedToServe = ([], startProfile) := by
          simp [react, hstart]
        rw [reactAll, hreact] at hsingle ⊢
        have hrest := ih hsingle
        simpa using hrest
      | coreListening =>
        have hreact : react startProfile .coreListening = ([coreStarted (-1)], startProfile) :=
          if_neg hstart
        rw [reactAll, hreact] at hsingle ⊢
        have hrest : (reactAll startProfile ms).1 = [] := by simpa using hsingle
        rw [if_pos (List.mem_cons_self ..), hrest, (reactAll_eq_nil hstart hrest).2]
        rfl
      | extraExited =>
        have hreact : react startProfile .extraExited = ([crashed], startProfile) := rfl
        rw [reactAll, hreact] at hsingle ⊢
        have hrest : (reactAll startProfile ms).1 = [] := by simpa using hsingle
        obtain ⟨hall, hsame⟩ := reactAll_eq_nil hstart hrest
        have hnot : Marker.coreListening ∉ Marker.extraExited :: ms := by
          rintro hmem
          rcases List.mem_cons.mp hmem with heq | hmem
          · cases heq
          · cases hall _ hmem
        rw [if_neg hnot, if_pos (List.mem_cons_self ..), hrest, hsame]
        rfl

/-! ## Runs -/

theorem reactAll_append (startProfile : ℤ) (ms ms' : List Marker) :
    reactAll startProfile (ms ++ ms') =
      ((reactAll startProfile ms).1 ++ (reactAll (reactAll startProfile ms).2 ms').1,
        (reactAll (reactAll startProfile ms).2 ms').2) := by
  induction ms generalizing startProfile with
  | nil => rfl
  | cons m ms ih =>
    rw [List.cons_append, reactAll, reactAll, ih]
    simp only [List.append_assoc]

/-- Every chunk of a run can be read by itself. -/
def AllReadable : ℤ → List Char → List (List Char) → Prop
  | _, _, [] => True
  | startProfile, line, log :: logs => Readable startProfile line log ∧
    AllReadable (handler startProfile log).2 (lineAfter line log) logs

theorem handleAll_eq_reactAll {logs : List (List Char)} (h : AllReadable startProfile line logs) :
    handleAll startProfile logs = reactAll startProfile (marks line logs.flatten) := by
  induction logs generalizing startProfile line with
  | nil => rfl
  | cons log logs ih =>
    obtain ⟨hlog, hlogs⟩ := h
    have hrest := ih hlogs
    rw [handler_eq hlog] at hrest
    rw [handleAll, List.flatten_cons, marks_append, reactAll_append, handler_eq hlog, hrest]

theorem marks_lines {lines : List (List Char)} (h : ∀ l ∈ lines, IsLine l) :
    marks [] lines.flatten = lines.flatMap (marks []) := by
  induction lines with
  | nil => rfl
  | cons l lines ih =>
    obtain ⟨hl, hlines⟩ := List.forall_mem_cons.mp h
    obtain ⟨body, rfl, -⟩ := hl
    rw [List.flatten_cons, List.flatMap_cons, marks_append, lineAfter_line, ih hlines]

/-- What the handler does is what the lines call for, where every chunk can be read by
    itself. -/
theorem handleAll_eq (startProfile : ℤ) (lines logs : List (List Char))
    (hlines : ∀ l ∈ lines, IsLine l) (hcut : logs.flatten = lines.flatten)
    (hlogs : AllReadable startProfile [] logs) :
    handleAll startProfile logs = reactAll startProfile (lines.flatMap (marks [])) := by
  rw [handleAll_eq_reactAll hlogs, hcut, marks_lines hlines]

/-- Behind a finished line only the number of the messages matters. -/
theorem readable_nil (h : (reactAll startProfile (marks [] log)).1.length ≤ 1) :
    Readable startProfile [] log where
  whole _ _ _ _ _ := Nat.zero_le _
  fresh m hline := absurd (List.infix_nil.mp hline) (text_ne_nil m)
  single := h

theorem handleAll_eq_two :
    handleAll 7 ["Core listening\n".toList, "Extra process exited unexpectedly\n".toList] =
      reactAll 7 (["Core listening\n".toList,
        "Extra process exited unexpectedly\n".toList].flatMap (marks [])) :=
  handleAll_eq 7 _ _
    (fun l hl => by
      rcases List.mem_pair.mp hl with rfl | rfl
      · exact ⟨"Core listening".toList, by decide, by decide⟩
      · exact ⟨"Extra process exited unexpectedly".toList, by decide, by decide⟩)
    rfl ⟨readable_nil (by decide +kernel), readable_nil (by decide +kernel), trivial⟩

/-- A marker that is cut in two is not seen. -/
theorem marker_is_cut : ¬ ∀ (startProfile : ℤ) (lines logs : List (List Char)),
    (∀ l ∈ lines, IsLine l) → logs.flatten = lines.flatten →
    handleAll startProfile logs = reactAll startProfile (lines.flatMap (marks [])) := by
  intro h
  have heq := h 7 ["Core listening\n".toList] ["Core lis".toList, "tening\n".toList]
    (fun l hl => by
      obtain rfl := List.mem_singleton.mp hl
      exact ⟨"Core listening".toList, by decide, by decide⟩)
    (by decide)
  exact absurd heq (by decide +kernel)

end NekoBox.Core
