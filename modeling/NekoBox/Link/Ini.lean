import NekoBox.Lib.OrderedMap
import NekoBox.Qt.Strings
import NekoBox.Store.Compare

/-!
# INI texts

`iniqt::Ini::parse` (`3rdparty/ini/ini.h`, lines 146–184) with the default
format. The lines it reports as errors are read by nobody and left out. A `QMap`
is the list of its entries by the code units of their keys.
-/

namespace NekoBox.Link.Ini

open NekoBox.Lib NekoBox.Qt NekoBox.Store

/-- The order of the keys of a `QMap<QString, …>`. -/
def keyLess (a b : String) : Bool := decide (units16 a < units16 b)

/-- `QMap<QString, QString>` -/
abbrev Section := List (String × String)

abbrev Sections := List (String × Section)

/-- `sections[name]`, before anything is put there. -/
def sectionOf (sections : Sections) (name : String) : Section := (sections.lookup name).getD []

/-- A line (lines 151–183): the section the next line is in, and the sections. -/
def parseLine (st : String × Sections) (line : String) : String × Sections :=
  let line := trimmed line.toList
  match line with
  | [] => st
  | front :: rest =>
    if front = ';' then st
    else if front = '[' then
      if line.getLast? = some ']' then (String.ofList rest.dropLast, st.2) else st
    -- `assign_idx > 0`
    else if front ≠ '=' ∧ '=' ∈ rest then
      let key := trimString (String.ofList (line.takeWhile (· ≠ '=')))
      let value := trimString (String.ofList ((line.dropWhile (· ≠ '=')).drop 1))
      let sec := sectionOf st.2 st.1
      if OrderedMap.contains keyLess key sec then st
      else (st.1, OrderedMap.assign keyLess st.1 (OrderedMap.assign keyLess key value sec) st.2)
    else st

/-- `Ini::parse` -/
def parse (text : String) : Sections := ((split '\n' text).foldl parseLine ("", [])).2

/-- The values have no blanks around them. -/
def Trimmed (sections : Sections) : Prop :=
  ∀ sec ∈ sections, ∀ e ∈ sec.2, trimString e.2 = e.2

theorem trimmed_parseLine {st : String × Sections} (h : Trimmed st.2) (line : String) :
    Trimmed (parseLine st line).2 := by
  unfold parseLine
  dsimp only
  split
  · exact h
  · next front rest _ =>
    split_ifs
    · exact h
    · exact h
    · exact h
    · exact h
    · have hold : ∀ e ∈ sectionOf st.2 st.1, trimString e.2 = e.2 := by
        unfold sectionOf
        cases hlookup : st.2.lookup st.1 with
        | none => exact fun e he => absurd he List.not_mem_nil
        | some sec =>
          obtain ⟨before, after, hsections, -⟩ := List.lookup_eq_some_iff.mp hlookup
          have hmem : (st.1, sec) ∈ st.2 := by simp [hsections]
          exact h _ hmem
      have hnew : ∀ (key value : String),
          ∀ e ∈ OrderedMap.assign keyLess key (trimString value) (sectionOf st.2 st.1),
            trimString e.2 = e.2 := by
        intro key value e he
        rcases OrderedMap.mem_assign he with he | rfl | ⟨e', -, -, rfl⟩
        · exact hold e he
        · exact trimString_trimString value
        · exact trimString_trimString value
      intro sec hsec
      rcases OrderedMap.mem_assign hsec with hsec | rfl | ⟨sec', -, -, rfl⟩
      · exact h sec hsec
      · exact hnew _ _
      · exact hnew _ _
    · exact h

theorem trimString_of_mem_parse {text : String} {sec : String × Section} {e : String × String}
    (hsec : sec ∈ parse text) (he : e ∈ sec.2) : trimString e.2 = e.2 := by
  have hlines : ∀ (lines : List String) (st : String × Sections), Trimmed st.2 →
      Trimmed (lines.foldl parseLine st).2 := by
    intro lines
    induction lines with
    | nil => exact fun st h => h
    | cons line lines ih => exact fun st h => ih _ (trimmed_parseLine h line)
  exact hlines _ ("", []) (fun sec hsec => absurd hsec List.not_mem_nil) sec hsec e he

/-- A line without blanks that opens no section: the only section there can be is
    the one without a name. -/
theorem parse_line {text : String} {front : Char} {rest : List Char}
    (htext : text.toList = front :: rest) (hspace : ∀ c ∈ text.toList, isSpace c = false)
    (hfront : front ≠ '[') {name : String} (hname : name ≠ "") :
    (parse text).lookup name = none := by
  have hbreak : '\n' ∉ text.toList := by
    intro h
    have hline := hspace '\n' h
    revert hline
    decide
  rw [parse, split_of_not_mem hbreak, List.foldl_cons, List.foldl_nil, parseLine, trimmed_of_no_space hspace, htext]
  dsimp only
  rw [if_neg hfront]
  split_ifs
  · rfl
  · rfl
  · simp [OrderedMap.assign, hname]
  · rfl

end NekoBox.Link.Ini
