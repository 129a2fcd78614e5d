import NekoBox.Subscription.RawUpdater

/-!
# When the import loop ends

Unwrapping, the texts in a JSON document, decryption and the lines of a text
all give shorter texts. The one exception is a text that is one block in
braces with a line break inside and that none of the importers takes: `Disect`
returns it whole, and the loop appends it again.

Results:
* `length_expand`: what a turn appends is shorter than its text, or is the text
  itself, a block of this kind.
* `returns_iff`: `RawUpdater::update` returns exactly when it reaches no such
  block.
-/

namespace NekoBox.Subscription

open NekoBox.Lib NekoBox.Qt NekoBox.Store

/-! ## What the loop relies on -/

mutual

/-- The strings in a JSON value. -/
def jsonStrings : Json → List String
  | .string s => [s]
  | .array l => elemStrings l
  | .object ms => memberStrings ms
  | _ => []

def elemStrings : List Json → List String
  | [] => []
  | v :: l => jsonStrings v ++ elemStrings l

def memberStrings : List (String × Json) → List String
  | [] => []
  | (_, v) :: ms => jsonStrings v ++ memberStrings ms

end

/-- Decoded UTF-8 has at most a character for each byte, the strings in a JSON
    text are shorter than the text, and so is a decrypted link; a brace is no
    letter. -/
structure Importers.Lawful (E : Importers) : Prop where
  length_fromUtf8 : ∀ bytes, (E.fromUtf8 bytes).length ≤ bytes.length
  length_fromJson : ∀ str document, E.fromJson str = some document →
    ∀ s ∈ jsonStrings document, s.length < str.length
  length_decryptLink : ∀ str, E.decryptLink str ≠ "" → (E.decryptLink str).length < str.length
  brace : E.isLetterOrNumber '{' = false

/-- A block in braces with a line break that no importer takes. -/
def SelfBlock (E : Importers) (str : String) : Prop :=
  IsBlock str.toList ∧ '\n' ∈ str.toList ∧ E.fromJson str = none ∧ E.updateClash str = false ∧
    E.updateWireguardFileConfig str = false

variable {E : Importers}

/-! ## Texts in JSON -/

theorem length_trimmedString (s : String) : (trimmedString s).length ≤ s.length := by
  unfold trimmedString
  rw [String.length_ofList, ← String.length_toList]
  exact length_trimmed s.toList

theorem jsonStrings_memberValue {ms : Members} {key s : String}
    (h : s ∈ jsonStrings (memberValue ms key)) : s ∈ memberStrings ms := by
  induction ms with
  | nil => simp [memberValue, jsonStrings] at h
  | cons m ms ih =>
    obtain ⟨k, v⟩ := m
    unfold memberValue at h ih
    by_cases hk : k = key
    · rw [List.find?_cons_of_pos (by simpa using hk)] at h
      exact List.mem_append_left _ h
    · rw [List.find?_cons_of_neg (by simpa using hk)] at h
      exact List.mem_append_right _ (ih h)

theorem length_memberLink {ms : Members} {key : String} (h : memberLink ms key ≠ "") :
    ∃ s ∈ memberStrings ms, (memberLink ms key).length ≤ s.length := by
  unfold memberLink at h ⊢
  cases hvalue : memberValue ms key with
  | string s =>
    have hmem : s ∈ jsonStrings (memberValue ms key) := by
      rw [hvalue]
      exact List.mem_singleton.mpr rfl
    exact ⟨s, jsonStrings_memberValue hmem, length_trimmedString s⟩
  | null => simp [hvalue] at h
  | bool b => simp [hvalue] at h
  | number n => simp [hvalue] at h
  | array l => simp [hvalue] at h
  | object ms' => simp [hvalue] at h

theorem length_importObject {ms : Members} {t : Turn} (h : importObject E ms = some t) :
    ∀ q ∈ t.1, ∃ s ∈ memberStrings ms, q.length ≤ s.length := by
  unfold importObject at h
  cases hlink : firstLink ms with
  | some link =>
    rw [hlink] at h
    obtain rfl := Option.some.inj h
    intro q hq
    obtain rfl := List.mem_singleton.mp hq
    have hfound := List.find?_some hlink
    obtain ⟨key, -, rfl⟩ := List.mem_map.mp (List.mem_of_find?_eq_some hlink)
    exact length_memberLink (by simpa using hfound)
  | none =>
    rw [hlink] at h
    dsimp only at h
    split_ifs at h <;>
      · obtain rfl := Option.some.inj h
        intro q hq
        cases hq

mutual

/-- Every text taken from a JSON value is at most as long as a string in it. -/
theorem length_importJsonValue (v : Json) :
    ∀ q ∈ (importJsonValue E v).2.1, ∃ s ∈ jsonStrings v, q.length ≤ s.length := by
  match v with
  | .string s =>
    intro q hq
    unfold importJsonValue at hq
    dsimp only at hq
    split_ifs at hq with hempty
    · obtain rfl := List.mem_singleton.mp hq
      exact ⟨s, List.mem_singleton.mpr rfl, length_trimmedString s⟩
    · cases hq
  | .object ms =>
    intro q hq
    unfold importJsonValue at hq
    cases hobject : importObject E ms with
    | some t =>
      rw [hobject] at hq
      exact length_importObject hobject q hq
    | none =>
      rw [hobject] at hq
      rcases List.mem_append.mp hq with hq | hq
      · rcases List.mem_append.mp hq with hq | hq
        · exact length_importMember "nodes" ms q hq
        · exact length_importMember "configs" ms q hq
      · exact length_importMember "items" ms q hq
  | .null => intro q hq; cases hq
  | .bool _ => intro q hq; cases hq
  | .number _ => intro q hq; cases hq
  | .array _ => intro q hq; cases hq
termination_by structural v

theorem length_importMember (key : String) (ms : List (String × Json)) :
    ∀ q ∈ (importMember E key ms).2.1, ∃ s ∈ memberStrings ms, q.length ≤ s.length := by
  match ms with
  | [] => intro q hq; cases hq
  | (k, v) :: ms =>
    intro q hq
    unfold importMember at hq
    split_ifs at hq with hk
    · obtain ⟨s, hs, hle⟩ := length_importArray v q hq
      exact ⟨s, List.mem_append_left _ hs, hle⟩
    · obtain ⟨s, hs, hle⟩ := length_importMember key ms q hq
      exact ⟨s, List.mem_append_right _ hs, hle⟩
termination_by structural ms

theorem length_importArray (v : Json) :
    ∀ q ∈ (importArray E v).2.1, ∃ s ∈ jsonStrings v, q.length ≤ s.length := by
  match v with
  | .array l => exact length_importElems l
  | .null => intro q hq; cases hq
  | .bool _ => intro q hq; cases hq
  | .number _ => intro q hq; cases hq
  | .string _ => intro q hq; cases hq
  | .object _ => intro q hq; cases hq
termination_by structural v

theorem length_importElems (l : List Json) :
    ∀ q ∈ (importElems E l).2.1, ∃ s ∈ elemStrings l, q.length ≤ s.length := by
  match l with
  | [] => intro q hq; cases hq
  | v :: l =>
    intro q hq
    unfold importElems at hq
    rcases List.mem_append.mp hq with hq | hq
    · obtain ⟨s, hs, hle⟩ := length_importJsonValue v q hq
      exact ⟨s, List.mem_append_left _ hs, hle⟩
    · obtain ⟨s, hs, hle⟩ := length_importElems l q hq
      exact ⟨s, List.mem_append_right _ hs, hle⟩
termination_by structural l

end

/-! ## One turn -/

/-- Unwrapping leaves a text or shortens it. -/
theorem length_unwrap (hE : E.Lawful) (i : ℕ) (str : String) :
    unwrap E i str = str ∨ (unwrap E i str).length < str.length := by
  induction i generalizing str with
  | zero => exact Or.inl rfl
  | succ i ih =>
    unfold unwrap
    dsimp only
    split_ifs with hvalid
    · have hbytes := length_fromBase64 hvalid
      have hdecoded := hE.length_fromUtf8 (decodeB64IfValid str.toList)
      rw [String.length_toList] at hbytes
      rcases ih (E.fromUtf8 (decodeB64IfValid str.toList)) with heq | hlt
      · rw [heq]
        exact Or.inr (by omega)
      · exact Or.inr (by omega)
    · exact Or.inl rfl

/-- A text that starts with a brace is not unwrapped. -/
theorem unwrap_brace {str : String} (h : ∃ s, str.toList = '{' :: s) (i : ℕ) :
    unwrap E i str = str := by
  obtain ⟨s, hs⟩ := h
  cases i with
  | zero => rfl
  | succ i =>
    unfold unwrap
    rw [hs, decodeB64IfValid_brace]
    rfl

theorem length_importTopArray (l : List Json) :
    ∀ q ∈ (importTopArray E l).2.1, ∃ s ∈ elemStrings l, q.length ≤ s.length := by
  induction l with
  | nil => intro q hq; cases hq
  | cons v l ih =>
    have hrest : ∀ q ∈ (importTopArray E l).2.1, ∃ s ∈ elemStrings (v :: l), q.length ≤ s.length := by
      intro q hq
      obtain ⟨s, hs, hle⟩ := ih q hq
      exact ⟨s, List.mem_append_right _ hs, hle⟩
    have hboth : ∀ q ∈ (importJsonValue E v).2.1 ++ (importTopArray E l).2.1,
        ∃ s ∈ elemStrings (v :: l), q.length ≤ s.length := by
      intro q hq
      rcases List.mem_append.mp hq with hq | hq
      · obtain ⟨s, hs, hle⟩ := length_importJsonValue v q hq
        exact ⟨s, List.mem_append_left _ hs, hle⟩
      · exact hrest q hq
    intro q hq
    unfold importTopArray at hq
    cases v with
    | object ms =>
      dsimp only at hq
      cases hserver : sip008Server ms with
      | some server =>
        rw [hserver] at hq
        exact hrest q hq
      | none =>
        rw [hserver] at hq
        exact hboth q hq
    | null => exact hboth q hq
    | bool b => exact hboth q hq
    | number n => exact hboth q hq
    | string s => exact hboth q hq
    | array l' => exact hboth q hq

theorem length_importDocument (str : String) (document : Json) :
    ∀ q ∈ (importDocument E str document).1, ∃ s ∈ jsonStrings document, q.length ≤ s.length := by
  intro q hq
  unfold importDocument at hq
  cases document with
  | array l => exact length_importTopArray l q hq
  | object ms =>
    dsimp only at hq
    by_cases houtbounds : (hasMember ms "outbounds" || hasMember ms "endpoints") = true
    · rw [if_pos houtbounds] at hq
      cases hq
    · rw [if_neg houtbounds] at hq
      split at hq
      · cases hq
      · split_ifs at hq with hclash
        · cases hq
        · exact length_importJsonValue (.object ms) q hq
      · exact length_importJsonValue (.object ms) q hq
  | null => cases hq
  | bool b => cases hq
  | number n => cases hq
  | string s => cases hq

theorem length_importLink (hE : E.Lawful) (str : String) (scheme : Option ℕ) :
    ∀ q ∈ (importLink E str scheme).1, q.length < str.length := by
  intro q hq
  unfold importLink at hq
  by_cases hcomment : "//".toList <+: str.toList ∨ "#".toList <+: str.toList ∨
      (str.toList.flatMap utf16).length < 2
  · rw [if_pos hcomment] at hq
    cases hq
  · rw [if_neg hcomment] at hq
    cases scheme with
    | none => cases hq
    | some colon =>
      dsimp only at hq
      split_ifs at hq with hhapp hdecrypted
      · obtain rfl := List.mem_singleton.mp hq
        exact hE.length_decryptLink str hdecrypted
      all_goals cases hq

/-- The pieces of a text are shorter, unless it is one block. -/
theorem length_importLines (hE : E.Lawful) (str : String) (scheme : Option ℕ) :
    ∀ q ∈ (importLines E str scheme).1,
      q.length < str.length ∨ (q = str ∧ IsBlock str.toList ∧ '\n' ∈ str.toList) := by
  intro q hq
  unfold importLines at hq
  split_ifs at hq with hbreak
  · obtain ⟨piece, hpiece, rfl⟩ := List.mem_map.mp hq
    have htrimmed : (trimmed piece).length ≤ piece.length := length_trimmed piece
    rw [String.length_ofList, ← String.length_toList]
    rcases mem_disect hpiece hbreak with hlt | ⟨rfl, hblock⟩
    · exact Or.inl (lt_of_le_of_lt htrimmed hlt)
    · rw [trimmed_of_isBlock hblock]
      exact Or.inr ⟨String.ofList_toList, hblock, hbreak⟩
  · exact Or.inl (length_importLink hE str scheme q hq)

/-- **One turn.** -/
theorem length_expand (hE : E.Lawful) (text : String) :
    ∀ q ∈ expand E text, q.length < text.length ∨ (q = text ∧ SelfBlock E text) := by
  intro q hq
  unfold expand turn at hq
  have hunwrap := length_unwrap hE 32 text
  generalize hstr : unwrap E 32 text = str at hq hunwrap
  have hle : str.length ≤ text.length := by
    rcases hunwrap with rfl | hlt
    · exact le_rfl
    · exact hlt.le
  have hlines : ∀ scheme, q ∈ (importLines E str scheme).1 →
      q.length < text.length ∨ (q = text ∧ str = text ∧ IsBlock text.toList ∧ '\n' ∈ text.toList) := by
    intro scheme hmem
    rcases length_importLines hE str scheme q hmem with hlt | ⟨rfl, hblock, hbreak⟩
    · exact Or.inl (lt_of_lt_of_le hlt hle)
    · rcases hunwrap with rfl | hlt
      · exact Or.inr ⟨rfl, rfl, hblock, hbreak⟩
      · exact Or.inl hlt
  dsimp only at hq
  split at hq
  · rename_i colon hscheme
    rcases hlines (some colon) hq with hlt | ⟨hqt, hst, hblock, hbreak⟩
    · exact Or.inl hlt
    · -- a text in braces has no scheme
      obtain ⟨inner, hinner, -⟩ := hblock
      rw [hst, hinner, schemeIndex_brace hE.brace] at hscheme
      cases hscheme
  · split at hq
    · rename_i document hdocument
      obtain ⟨s, hs, hqs⟩ := length_importDocument str document q hq
      have hshort := hE.length_fromJson str document hdocument s hs
      exact Or.inl (by omega)
    · rename_i hjson
      split_ifs at hq with hclash hwireguard
      · cases hq
      · cases hq
      · rcases hlines none hq with hlt | ⟨hqt, hst, hblock, hbreak⟩
        · exact Or.inl hlt
        · rw [hst] at hjson hclash hwireguard
          exact Or.inr ⟨hqt, hblock, hbreak, hjson, by simpa using hclash, by simpa using hwireguard⟩

/-- A block that no importer takes is appended again. -/
theorem mem_expand_of_selfBlock (hE : E.Lawful) {text : String} (h : SelfBlock E text) :
    text ∈ expand E text := by
  obtain ⟨hblock, hbreak, hjson, hclash, hwireguard⟩ := h
  obtain ⟨inner, hinner, -⟩ := id hblock
  have hunwrap : unwrap E 32 text = text := unwrap_brace ⟨inner, hinner⟩ 32
  have hscheme : schemeIndex E.isLetterOrNumber text.toList = none := by
    rw [hinner]
    exact schemeIndex_brace hE.brace inner
  have hturn : turn E text = importLines E text none := by
    simp [turn, hunwrap, hscheme, hjson, hclash, hwireguard]
  unfold expand
  rw [hturn, importLines, if_pos hbreak, disect_of_isBlock hblock]
  simp [trimmed_of_isBlock hblock, String.ofList_toList]

/-! ## The loop -/

theorem step_fst (st : List String × List Import) :
    (step E st).1 = WorkList.step (expand E) st.1 := by
  obtain ⟨stack, imports⟩ := st
  cases stack <;> rfl

theorem returns_iff_done (str3 : String) :
    Returns E str3 ↔ WorkList.Done (expand E) [str3] := by
  have hiterate : ∀ (n : ℕ) (st : List String × List Import),
      ((step E)^[n] st).1 = (WorkList.step (expand E))^[n] st.1 := by
    intro n
    induction n with
    | zero => intro st; rfl
    | succ n ih =>
      intro st
      rw [Function.iterate_succ_apply, Function.iterate_succ_apply, ih, step_fst]
  unfold Returns WorkList.Done
  simp only [hiterate]

/-- **Main theorem.** `RawUpdater::update` returns exactly when it reaches no
    block with a line break that no importer takes. -/
theorem returns_iff (hE : E.Lawful) (str3 : String) :
    Returns E str3 ↔ ∀ text, WorkList.Reaches (expand E) str3 text → ¬ SelfBlock E text := by
  have hself : ∀ text, text ∉ expand E text ↔ ¬ SelfBlock E text := by
    intro text
    refine not_congr ⟨fun h => ?_, mem_expand_of_selfBlock hE⟩
    rcases length_expand hE text text h with hlt | ⟨-, hblock⟩
    · exact absurd hlt (lt_irrefl _)
    · exact hblock
  have hmeasure : ∀ a, ∀ b ∈ expand E a, b = a ∨ b.length < a.length := by
    intro a b hb
    rcases length_expand hE a b hb with hlt | ⟨rfl, -⟩
    · exact Or.inr hlt
    · exact Or.inl rfl
  rw [returns_iff_done, WorkList.done_iff_acc]
  simp only [List.mem_singleton, forall_eq, WorkList.acc_iff_of_measure String.length hmeasure,
    hself]

/-- Importers that take nothing; the decoder and the character classes are those
    of ASCII. -/
def plainImporters : Importers where
  fromUtf8 := fun bytes => String.ofList (bytes.map fun b => Char.ofNat b.val)
  fromJson := fun _ => none
  isLetterOrNumber := Char.isAlphanum
  toLower := String.toLower
  updateClash := fun _ => false
  updateWireguardFileConfig := fun _ => false
  convertV2RayNToSingBox := fun _ => []
  tryParseNekorayLink := fun _ => false
  tryParseLink := fun _ _ => false
  decryptLink := fun _ => ""

theorem lawful_plainImporters : plainImporters.Lawful where
  length_fromUtf8 := by
    intro bytes
    simp [plainImporters, String.length_ofList]
  length_fromJson := by
    intro str document h
    cases h
  length_decryptLink := by
    intro str h
    exact absurd rfl h
  brace := by decide

/-- A link in one line is handled in one turn. -/
theorem returns_vless : Returns plainImporters "vless://a" := by
  refine (returns_iff lawful_plainImporters "vless://a").mpr fun text hreaches => ?_
  have hexpand : expand plainImporters "vless://a" = [] := by decide +kernel
  have htext : text = "vless://a" := by
    induction hreaches with
    | refl => rfl
    | tail _ hc ih =>
      rw [ih, hexpand] at hc
      cases hc
  rintro ⟨⟨inner, hinner, -⟩, -⟩
  rw [htext] at hinner
  have hhead : 'v' = '{' := (List.cons.inj hinner).1
  exact absurd hhead (by decide)

/-- A block in braces that is neither JSON nor YAML with proxies: the loop takes
    it off the list and appends it for ever. -/
theorem block_never_returns :
    ¬ ∀ (E : Importers) (str3 : String), E.Lawful → Returns E str3 := by
  intro h
  have hreturns := h plainImporters "\x7b\na\n\x7d" lawful_plainImporters
  rw [returns_iff_done, WorkList.done_iff_acc] at hreturns
  have hacc := hreturns "\x7b\na\n\x7d" (List.mem_singleton.mpr rfl)
  have hblock : SelfBlock plainImporters "\x7b\na\n\x7d" :=
    ⟨⟨['\n', 'a', '\n', '}'], by decide, by decide⟩, by decide, rfl, rfl, rfl⟩
  have hself := mem_expand_of_selfBlock lawful_plainImporters hblock
  exact WorkList.belowAcc_irrefl _ ⟨hself, hacc⟩

end NekoBox.Subscription
