import NekoBox.Config.Builder

/-!
# Addresses of DNS servers

What `BuildDnsObject` (`ConfigBuilder.cpp`, lines 1273–1349) makes of an address
`scheme://host:port/path`. It cuts the port off at the last semicolon, of which there is none,
and of a path it keeps what follows the last slash.

* `rest_of_scheme`: the scheme is recognised and taken away, unless a path repeats it.
* `correct_iff`: the object has the parts of the address exactly when no port is given, the host
  without a scheme is not taken for `local`, and a path is given to `https` or `h3` only and has
  no slash.
-/

namespace NekoBox.Config

open NekoBox.Store

/-- The schemes that `BuildDnsObject` supports. -/
inductive DnsScheme where
  | plain | udp | tcp | tls | quic | https | h3
  deriving DecidableEq

namespace DnsScheme

/-- What stands before the host. -/
def start : DnsScheme → String
  | plain => ""
  | udp => "udp://"
  | tcp => "tcp://"
  | tls => "tls://"
  | quic => "quic://"
  | https => "https://"
  | h3 => "h3://"

def type : DnsScheme → String
  | plain => "udp"
  | udp => "udp"
  | tcp => "tcp"
  | tls => "tls"
  | quic => "quic"
  | https => "https"
  | h3 => "h3"

end DnsScheme

/-- A name or an IPv4 address, or an IPv6 address in brackets. -/
def IsHost (host : List Char) : Prop :=
  (host ≠ [] ∧ ∀ c ∈ host, c ≠ '/' ∧ c ≠ ':' ∧ c ≠ ';') ∨
    ∃ inner, host = '[' :: inner ++ [']'] ∧ ∀ c ∈ inner, c ≠ '/' ∧ c ≠ ';'

structure DnsAddress where
  scheme : DnsScheme
  host : String
  port : Option ℕ
  path : Option String
  isHost : IsHost host.toList

namespace DnsAddress

variable (a : DnsAddress)

def portText : List Char :=
  match a.port with
  | none => []
  | some port => ':' :: Nat.toDigits 10 port

def pathText : List Char :=
  match a.path with
  | none => []
  | some path => '/' :: path.toList

/-- What follows the scheme. -/
def rest : List Char := a.host.toList ++ a.portText ++ a.pathText

/-- `scheme://host:port/path` -/
def text : String := String.ofList (a.scheme.start.toList ++ a.rest)

/-- The object has the type, the server, the port and the whole path of the address, those that
    are given. -/
structure Correct (o : JsonObject) : Prop where
  type : o.value "type" = .string a.scheme.type
  server : o.value "server" = .string a.host
  port : o.value "server_port" = (a.port.map fun port => jsonInt port).getD .null
  path : o.value "path" =
    ((a.path.filter fun path => decide (path ≠ "")).map Json.string).getD .null

/-- The addresses that are taken apart as they are meant. -/
def Understood : Prop :=
  a.port = none ∧ (a.scheme = .plain → startsWith "local" a.host = false) ∧
    ∀ path, a.path = some path → (a.scheme = .https ∨ a.scheme = .h3) ∧ '/' ∉ path.toList

end DnsAddress

/-! ## The end of `BuildDnsObject` -/

/-- The path that is cut off (lines 1316–1327), -/
def pathOf (type addr : String) : String :=
  if (type = "https" ∨ type = "h3") ∧ '/' ∈ addr.toList then afterLast '/' addr else ""

/-- and what is before it. -/
def serverOf (type addr : String) : String :=
  if (type = "https" ∨ type = "h3") ∧ '/' ∈ addr.toList then upTo '/' addr else addr

/-- The object for a type and an address without the scheme (lines 1316–1349). -/
def dnsObjectOf (type addr : String) : JsonObject :=
  let (server, port) := splitPort (serverOf type addr)
  [("type", .string type), ("server", .string server)] ++
    (match port with
      | some port => member (port ≠ -1) "server_port" (jsonInt port)
      | none => []) ++
    member (pathOf type addr ≠ "") "path" (.string (pathOf type addr))

theorem buildDnsObject_eq {address : String} (hlocal : startsWith "local" address = false)
    (hdhcp : startsWith "dhcp://" address = false) :
    buildDnsObject address =
      dnsObjectOf (((dnsSchemes.find? fun s => startsWith s.1 address).map Prod.snd).getD "udp")
        (((dnsSchemes.find? fun s => startsWith s.1 address).map fun s =>
          withoutScheme s.1 address).getD address) := by
  unfold buildDnsObject
  rw [if_neg (Bool.eq_false_iff.mp hlocal), if_neg (Bool.eq_false_iff.mp hdhcp)]
  generalize dnsSchemes.find? (fun s => startsWith s.1 address) = scheme
  dsimp only
  generalize (Option.map Prod.snd scheme).getD "udp" = type
  generalize (Option.map (fun s => withoutScheme s.1 address) scheme).getD address = addr
  unfold dnsObjectOf pathOf serverOf
  generalize splitPort _ = parts
  obtain ⟨server, port⟩ := parts
  cases port <;> rfl

section

variable {type addr : String}

theorem value_type : (dnsObjectOf type addr).value "type" = .string type := rfl

theorem value_server :
    (dnsObjectOf type addr).value "server" = .string (splitPort (serverOf type addr)).1 := rfl

theorem value_path :
    (dnsObjectOf type addr).value "path" =
      if pathOf type addr = "" then .null else .string (pathOf type addr) := by
  unfold dnsObjectOf
  rcases splitPort (serverOf type addr) with ⟨server, _ | port⟩
  · by_cases hpath : pathOf type addr = ""
    · simp [hpath, member, JsonObject.value]
    · simp [hpath, member, JsonObject.value]
  · by_cases hport : port = -1 <;> by_cases hpath : pathOf type addr = "" <;>
      simp [hport, hpath, member, JsonObject.value]

theorem value_server_port (h : (splitPort (serverOf type addr)).2 = none) :
    (dnsObjectOf type addr).value "server_port" = .null := by
  unfold dnsObjectOf
  rcases hsplit : splitPort (serverOf type addr) with ⟨server, port⟩
  rw [hsplit] at h
  obtain rfl : port = none := h
  by_cases hpath : pathOf type addr = "" <;> simp [hpath, member, JsonObject.value]

/-- Without a semicolon no port is cut off. -/
theorem splitPort_of_not_mem (h : ';' ∉ addr.toList) : splitPort addr = (addr, none) := if_neg h

/-- The last part of a text has no slash. -/
theorem not_mem_afterLast (c : Char) (s : String) : c ∉ (afterLast c s).toList := by
  unfold afterLast
  rw [String.toList_ofList, List.mem_reverse]
  exact fun hmem => absurd (List.mem_takeWhile_imp hmem) (by simp)

theorem afterLast_append {c : Char} {before after : List Char} (h : c ∉ after) :
    afterLast c (String.ofList (before ++ c :: after)) = String.ofList after := by
  unfold afterLast
  rw [String.toList_ofList, List.reverse_append, List.reverse_cons, List.append_assoc,
    List.takeWhile_append_of_pos (fun d hd => ?_), List.singleton_append, List.takeWhile_cons_of_neg]
  · rw [List.append_nil, List.reverse_reverse]
  · simp
  · have hne : d ≠ c := fun heq => h (heq ▸ List.mem_reverse.mp hd)
    simpa using hne

theorem upTo_append {c : Char} {before after : List Char} (h : c ∉ before) :
    upTo c (String.ofList (before ++ c :: after)) = String.ofList before := by
  unfold upTo
  rw [String.toList_ofList, List.takeWhile_append_of_pos (fun d hd => ?_),
    List.takeWhile_cons_of_neg, List.append_nil]
  · simp
  · have hne : d ≠ c := fun heq => h (heq ▸ hd)
    simpa using hne

end

/-! ## The scheme -/

/-- A text at the beginning is taken away, and nothing else where it does not come again. -/
theorem replaceText_append {old s : List Char} (hold : old ≠ []) (h : Qt.cut old s = none) :
    Qt.replaceText (String.ofList (old ++ s)) (String.ofList old) "" = String.ofList s := by
  obtain ⟨c, old, rfl⟩ := List.exists_cons_of_ne_nil hold
  have hcut : Qt.cut (c :: old) (c :: old ++ s) = some ([], s) := by
    rw [List.cons_append, Qt.cut, if_pos]
    · simp
    · rw [List.isPrefixOf_iff_prefix]
      exact List.prefix_append (c :: old) s
  have hrest : ∀ fuel, Qt.replaceLoop (c :: old) [] fuel s = s := by
    intro fuel
    cases fuel with
    | zero => rfl
    | succ fuel => rw [Qt.replaceLoop, h]
  unfold Qt.replaceText
  simp only [String.toList_ofList]
  rw [String.length_ofList, List.cons_append, List.length_cons, Qt.replaceLoop,
    ← List.cons_append, hcut]
  dsimp only
  rw [show "".toList = [] from rfl, hrest]
  rfl

/-- A text with two slashes does not stand in one with no more than one. -/
theorem cut_of_count {old s : List Char} (hold : 1 < old.count '/') (hs : s.count '/' ≤ 1) :
    Qt.cut old s = none := by
  cases hcut : Qt.cut old s with
  | none => rfl
  | some parts =>
    rw [Qt.eq_append_of_cut hcut, List.count_append, List.count_append] at hs
    omega

namespace DnsAddress

variable {a : DnsAddress}

/-- What follows the host begins with a colon or a slash. -/
theorem tail_cases (a : DnsAddress) :
    a.portText ++ a.pathText = [] ∨
      ∃ c tail, a.portText ++ a.pathText = c :: tail ∧ (c = ':' ∨ c = '/') := by
  unfold portText pathText
  cases a.port with
  | some port => exact Or.inr ⟨':', _, rfl, Or.inl rfl⟩
  | none =>
    cases a.path with
    | none => exact Or.inl rfl
    | some path => exact Or.inr ⟨'/', _, rfl, Or.inr rfl⟩

theorem not_mem_host (a : DnsAddress) : '/' ∉ a.host.toList ∧ ';' ∉ a.host.toList := by
  rcases a.isHost with ⟨-, hname⟩ | ⟨inner, hbrackets, hinner⟩
  · exact ⟨fun h => (hname _ h).1 rfl, fun h => (hname _ h).2.2 rfl⟩
  · rw [hbrackets]
    refine ⟨fun h => ?_, fun h => ?_⟩
    · simp only [List.cons_append, List.mem_cons, List.mem_append, List.not_mem_nil, or_false] at h
      rcases h with h | h | h
      · exact absurd h (by decide)
      · exact (hinner _ h).1 rfl
      · exact absurd h (by decide)
    · simp only [List.cons_append, List.mem_cons, List.mem_append, List.not_mem_nil, or_false] at h
      rcases h with h | h | h
      · exact absurd h (by decide)
      · exact (hinner _ h).2 rfl
      · exact absurd h (by decide)

/-- A word without a colon and a slash at the beginning of what follows the scheme is at the
    beginning of the host. -/
theorem prefix_host {word : List Char} (hplain : ∀ c ∈ word, c ≠ ':' ∧ c ≠ '/') :
    word <+: a.rest ↔ word <+: a.host.toList := by
  unfold rest
  rw [List.append_assoc]
  constructor
  · intro hprefix
    rcases List.prefix_or_prefix_of_prefix hprefix (List.prefix_append _ _) with h | ⟨more, hmore⟩
    · exact h
    · rw [← hmore, List.prefix_append_right_inj] at hprefix
      cases more with
      | nil => rw [← hmore, List.append_nil]
      | cons c more =>
        obtain ⟨hcolon, hslash⟩ := hplain c (hmore ▸ by simp)
        rcases tail_cases a with hnil | ⟨d, tail, htail, hd⟩
        · rw [hnil] at hprefix
          exact absurd (List.prefix_nil.mp hprefix) (List.cons_ne_nil c more)
        · rw [htail, List.cons_prefix_cons] at hprefix
          obtain ⟨rfl, -⟩ := hprefix
          exact (hd.elim hcolon hslash).elim
  · exact fun hprefix => hprefix.trans (List.prefix_append _ _)

/-- What follows the scheme does not begin with one. -/
theorem not_prefix_scheme {word : List Char} (hword : word ≠ [])
    (hplain : ∀ c ∈ word, c ≠ ':' ∧ c ≠ '/' ∧ c ≠ '[') : ¬ word ++ "://".toList <+: a.rest := by
  intro hprefix
  have hhost : word <+: a.host.toList :=
    (prefix_host fun c hc => ⟨(hplain c hc).1, (hplain c hc).2.1⟩).mp
      ((List.prefix_append _ _).trans hprefix)
  obtain ⟨c, word, rfl⟩ := List.exists_cons_of_ne_nil hword
  rcases a.isHost with ⟨-, hname⟩ | ⟨inner, hbrackets, -⟩
  · -- a name ends where the word does
    obtain ⟨more, hmore⟩ := hhost
    unfold rest at hprefix
    rw [List.append_assoc, ← hmore, List.append_assoc, List.prefix_append_right_inj] at hprefix
    cases more with
    | cons d more =>
      rw [List.cons_append, show "://".toList = ':' :: "//".toList from rfl,
        List.cons_prefix_cons] at hprefix
      exact (hname d (hmore ▸ by simp)).2.1 hprefix.1.symm
    | nil =>
      unfold portText pathText at hprefix
      rw [List.nil_append, show "://".toList = ':' :: "//".toList from rfl] at hprefix
      cases hport : a.port with
      | none =>
        rw [hport] at hprefix
        cases hpath : a.path with
        | none =>
          rw [hpath] at hprefix
          exact absurd (List.prefix_nil.mp hprefix) (List.cons_ne_nil _ _)
        | some path =>
          rw [hpath] at hprefix
          exact absurd (List.cons_prefix_cons.mp hprefix).1 (by decide)
      | some port =>
        rw [hport] at hprefix
        have hdigits := (List.cons_prefix_cons.mp hprefix).2
        obtain ⟨d, digits, hd⟩ := List.exists_cons_of_ne_nil (Nat.toDigits_ne_nil (n := port) (b := 10))
        have hdigit := Qt.isDigit_toDigits (n := port) (c := d) (hd ▸ List.mem_cons_self)
        rw [hd] at hdigits
        rw [← (List.cons_prefix_cons.mp hdigits).1] at hdigit
        exact absurd hdigit (by decide)
  · rw [hbrackets, List.cons_append, List.cons_prefix_cons] at hhost
    exact (hplain c List.mem_cons_self).2.2 hhost.1

theorem find_scheme (h : a.scheme ≠ .plain) :
    (dnsSchemes.find? fun s => startsWith s.1 a.text) = some (a.scheme.start, a.scheme.type) := by
  obtain ⟨scheme, host, port, path, isHost⟩ := a
  cases scheme with
  | plain => exact absurd rfl h
  | _ =>
    simp [dnsSchemes, startsWith, text, DnsScheme.start, DnsScheme.type, List.isPrefixOf]

theorem toList_text (a : DnsAddress) : a.text.toList = a.scheme.start.toList ++ a.rest :=
  String.toList_ofList

/-- A text is a word with `://`. -/
def IsScheme (scheme : String) : Prop :=
  scheme.toList = scheme.toList.takeWhile (· ≠ ':') ++ "://".toList ∧
    scheme.toList.takeWhile (· ≠ ':') ≠ [] ∧
    ∀ c ∈ scheme.toList.takeWhile (· ≠ ':'), c ≠ ':' ∧ c ≠ '/' ∧ c ≠ '['

instance (scheme : String) : Decidable (IsScheme scheme) := inferInstanceAs (Decidable (_ ∧ _ ∧ _))

theorem not_startsWith_scheme (h : a.scheme = .plain) {scheme : String} (hscheme : IsScheme scheme) :
    startsWith scheme a.text = false := by
  obtain ⟨htext, hword, hplain⟩ := hscheme
  rw [Bool.eq_false_iff]
  intro hprefix
  unfold startsWith at hprefix
  rw [List.isPrefixOf_iff_prefix, toList_text, h, htext] at hprefix
  exact not_prefix_scheme hword hplain hprefix

theorem find_plain (h : a.scheme = .plain) :
    (dnsSchemes.find? fun s => startsWith s.1 a.text) = none := by
  have hschemes : ∀ s ∈ dnsSchemes, IsScheme s.1 := by
    simp [dnsSchemes, IsScheme]
  rw [List.find?_eq_none]
  intro s hs
  rw [Bool.not_eq_true]
  exact not_startsWith_scheme h (hschemes s hs)

theorem not_startsWith_dhcp (a : DnsAddress) : startsWith "dhcp://" a.text = false := by
  by_cases h : a.scheme = .plain
  · exact not_startsWith_scheme h (by simp [IsScheme])
  · obtain ⟨scheme, host, port, path, isHost⟩ := a
    cases scheme with
    | plain => exact absurd rfl h
    | _ => simp [startsWith, text, DnsScheme.start, List.isPrefixOf]

/-- Only an address without a scheme is taken for `local`. -/
theorem startsWith_local (a : DnsAddress) :
    startsWith "local" a.text = (decide (a.scheme = .plain) && startsWith "local" a.host) := by
  by_cases h : a.scheme = .plain
  · rw [decide_eq_true h, Bool.true_and, Bool.eq_iff_iff]
    unfold startsWith
    rw [List.isPrefixOf_iff_prefix, List.isPrefixOf_iff_prefix, toList_text, h]
    exact prefix_host (by simp)
  · rw [decide_eq_false h, Bool.false_and]
    obtain ⟨scheme, host, port, path, isHost⟩ := a
    cases scheme with
    | plain => exact absurd rfl h
    | _ => simp [startsWith, text, DnsScheme.start, List.isPrefixOf]

/-! ## The parts -/

theorem not_mem_portText (a : DnsAddress) : '/' ∉ a.portText ∧ ';' ∉ a.portText := by
  unfold portText
  cases a.port with
  | none => exact ⟨List.not_mem_nil, List.not_mem_nil⟩
  | some port =>
    have hdigit : ∀ c, c.isDigit = false → c ≠ ':' → c ∉ ':' :: Nat.toDigits 10 port := by
      intro c hc hcolon hmem
      rcases List.mem_cons.mp hmem with heq | hmem
      · exact hcolon heq
      · rw [Qt.isDigit_toDigits hmem] at hc
        exact absurd hc (Bool.false_ne_true ∘ Eq.symm)
    exact ⟨hdigit '/' (by decide) (by decide), hdigit ';' (by decide) (by decide)⟩

/-- The host and the port. -/
def authority (a : DnsAddress) : List Char := a.host.toList ++ a.portText

theorem not_mem_authority (a : DnsAddress) : '/' ∉ a.authority ∧ ';' ∉ a.authority := by
  unfold authority
  rw [List.mem_append, List.mem_append, not_or, not_or]
  exact ⟨⟨(not_mem_host a).1, (not_mem_portText a).1⟩, (not_mem_host a).2, (not_mem_portText a).2⟩

/-- The authority is the host when no port is given. -/
theorem authority_eq_host : String.ofList a.authority = a.host ↔ a.port = none := by
  unfold authority portText
  cases a.port with
  | none => simp
  | some port =>
    refine iff_of_false (fun heq => ?_) (by simp)
    have hlength := congrArg (fun s : String => s.toList.length) heq
    simp at hlength

/-- The address that is left without the scheme. -/
theorem rest_of_scheme (h : ∀ path, a.path = some path → '/' ∉ path.toList) :
    (((dnsSchemes.find? fun s => startsWith s.1 a.text).map fun s =>
      withoutScheme s.1 a.text).getD a.text) = String.ofList a.rest := by
  have hcount : a.rest.count '/' ≤ 1 := by
    unfold rest
    rw [List.count_append, show a.host.toList ++ a.portText = a.authority from rfl,
      List.count_eq_zero_of_not_mem (not_mem_authority a).1]
    unfold pathText
    cases hpath : a.path with
    | none => simp
    | some path =>
      rw [List.count_cons_self, List.count_eq_zero_of_not_mem (h path hpath)]
  by_cases hplain : a.scheme = .plain
  · rw [find_plain hplain, Option.map_none, Option.getD_none, text, hplain]
    rfl
  · rw [find_scheme hplain, Option.map_some, Option.getD_some]
    have hslashes : 1 < a.scheme.start.toList.count '/' := by
      cases hscheme : a.scheme with
      | plain => exact absurd hscheme hplain
      | _ => decide +kernel
    have hne : a.scheme.start.toList ≠ [] := fun hnil => by
      rw [hnil, List.count_nil] at hslashes
      omega
    have hreplace := replaceText_append hne (cut_of_count hslashes hcount)
    rwa [String.ofList_toList] at hreplace

theorem type_of_scheme (a : DnsAddress) :
    (((dnsSchemes.find? fun s => startsWith s.1 a.text).map Prod.snd).getD "udp") = a.scheme.type := by
  by_cases hplain : a.scheme = .plain
  · rw [find_plain hplain, hplain]
    rfl
  · rw [find_scheme hplain]
    rfl

theorem type_iff (a : DnsAddress) :
    a.scheme.type = "https" ∨ a.scheme.type = "h3" ↔ a.scheme = .https ∨ a.scheme = .h3 := by
  cases a.scheme <;> decide +kernel

/-! ## The result -/

/-- The path that the code finds. -/
theorem pathOf_rest (h : ∀ path, a.path = some path → '/' ∉ path.toList) :
    pathOf a.scheme.type (String.ofList a.rest) =
      if a.scheme = .https ∨ a.scheme = .h3 then a.path.getD "" else "" := by
  have hrest : a.rest = a.authority ++ a.pathText := rfl
  unfold pathOf
  rw [String.toList_ofList, hrest]
  simp only [type_iff]
  by_cases hscheme : a.scheme = .https ∨ a.scheme = .h3
  · rw [if_pos hscheme]
    unfold pathText
    cases hpath : a.path with
    | none =>
      rw [if_neg fun hmem => (not_mem_authority a).1 (by simpa using hmem.2)]
      rfl
    | some path =>
      rw [if_pos ⟨hscheme, by simp⟩, afterLast_append (h path hpath), String.ofList_toList]
      rfl
  · rw [if_neg hscheme, if_neg fun hmem => hscheme hmem.1]

/-- The server, with the port. -/
theorem serverOf_rest
    (h : ∀ path, a.path = some path → (a.scheme = .https ∨ a.scheme = .h3) ∧ '/' ∉ path.toList) :
    serverOf a.scheme.type (String.ofList a.rest) = String.ofList a.authority := by
  have hrest : a.rest = a.authority ++ a.pathText := rfl
  unfold serverOf
  rw [String.toList_ofList, hrest]
  unfold pathText
  cases hpath : a.path with
  | none => rw [if_neg fun hmem => (not_mem_authority a).1 (by simpa using hmem.2), List.append_nil]
  | some path =>
    rw [if_pos ⟨(type_iff a).mpr (h path hpath).1, by simp⟩, upTo_append (not_mem_authority a).1]

theorem buildDnsObject_text (hlocal : a.scheme = .plain → startsWith "local" a.host = false) :
    buildDnsObject a.text = dnsObjectOf a.scheme.type
      (((dnsSchemes.find? fun s => startsWith s.1 a.text).map fun s =>
        withoutScheme s.1 a.text).getD a.text) := by
  have hnot : startsWith "local" a.text = false := by
    rw [startsWith_local]
    by_cases hplain : a.scheme = .plain
    · rw [hlocal hplain, Bool.and_false]
    · rw [decide_eq_false hplain, Bool.false_and]
  rw [buildDnsObject_eq hnot (not_startsWith_dhcp a), type_of_scheme]

/-- An address that is understood. -/
theorem Understood.correct (h : a.Understood) : a.Correct (buildDnsObject a.text) := by
  obtain ⟨hport, hlocal, hpath⟩ := h
  have hslash : ∀ path, a.path = some path → '/' ∉ path.toList := fun path hp => (hpath path hp).2
  have hserver := serverOf_rest hpath
  have hsplit : splitPort (String.ofList a.authority) = (String.ofList a.authority, none) :=
    splitPort_of_not_mem (by rw [String.toList_ofList]; exact (not_mem_authority a).2)
  rw [buildDnsObject_text hlocal, rest_of_scheme hslash]
  refine ⟨value_type, ?_, ?_, ?_⟩
  · rw [value_server, hserver, hsplit, authority_eq_host.mpr hport]
  · rw [value_server_port, hport]
    · rfl
    · rw [hserver, hsplit]
  · rw [value_path, pathOf_rest hslash]
    cases hp : a.path with
    | none => simp
    | some path =>
      rw [if_pos (hpath path hp).1, Option.getD_some]
      by_cases hempty : path = ""
      · rw [if_pos hempty, hempty]
        rfl
      · rw [if_neg hempty, Option.filter_some, if_pos (by simpa using hempty)]
        rfl

/-- No other address is. -/
theorem Correct.understood (h : a.Correct (buildDnsObject a.text)) : a.Understood := by
  -- a plain host may be taken for the local server
  have hlocal : a.scheme = .plain → startsWith "local" a.host = false := by
    intro hplain
    rw [Bool.eq_false_iff]
    intro hhost
    have htype := h.type
    unfold buildDnsObject at htype
    rw [if_pos (by rw [startsWith_local, hhost, decide_eq_true hplain]; rfl), hplain] at htype
    exact absurd htype (by simp [JsonObject.value, DnsScheme.type])
  obtain ⟨-, hserver, -, hpath⟩ := h
  rw [buildDnsObject_text hlocal] at hserver hpath
  have hslash : ∀ path, a.path = some path → '/' ∉ path.toList := by
    intro path hp hmem
    have hempty : path ≠ "" := by
      rintro rfl
      exact absurd hmem (by simp)
    have hgiven : (some path).filter (fun path => decide (path ≠ "")) = some path := by
      simp [hempty]
    rw [hp, hgiven, value_path] at hpath
    split_ifs at hpath with hnone
    · exact absurd hpath (by simp)
    · have heq := Json.string.inj hpath
      unfold pathOf at heq
      split_ifs at heq
      · exact not_mem_afterLast '/' _ (heq ▸ hmem)
      · exact hempty heq.symm
  rw [rest_of_scheme hslash] at hserver hpath
  have hhttp : ∀ path, a.path = some path → a.scheme = .https ∨ a.scheme = .h3 := by
    intro path hp
    by_contra hscheme
    rw [value_path, pathOf_rest hslash, if_neg hscheme, if_pos rfl, hp] at hpath
    by_cases hempty : path = ""
    · -- the slash stays in the server
      have hrest : a.rest = a.authority ++ ['/'] := by
        unfold rest pathText
        rw [hp, hempty]
        rfl
      rw [value_server, serverOf, if_neg fun hmem => hscheme ((type_iff a).mp hmem.1),
        splitPort_of_not_mem] at hserver
      · have hhost : '/' ∈ a.host.toList := by
          rw [← Json.string.inj hserver, String.toList_ofList, hrest]
          simp
        exact (not_mem_host a).1 hhost
      · rw [String.toList_ofList, hrest, List.mem_append, not_or]
        exact ⟨(not_mem_authority a).2, by decide⟩
    · have hgiven : (some path).filter (fun path => decide (path ≠ "")) = some path := by
        simp [hempty]
      rw [hgiven] at hpath
      exact absurd hpath (by simp)
  refine ⟨authority_eq_host.mp ?_, hlocal, fun path hp => ⟨hhttp path hp, hslash path hp⟩⟩
  rw [value_server, serverOf_rest fun path hp => ⟨hhttp path hp, hslash path hp⟩,
    splitPort_of_not_mem] at hserver
  · exact Json.string.inj hserver
  · rw [String.toList_ofList]
    exact (not_mem_authority a).2

/-- **DNS addresses.** -/
theorem correct_iff (a : DnsAddress) : a.Correct (buildDnsObject a.text) ↔ a.Understood :=
  ⟨Correct.understood, Understood.correct⟩

/-- A server that is given with its port. -/
def withPort : DnsAddress where
  scheme := .tls
  host := "a.example"
  port := some 853
  path := none
  isHost := Or.inl (by simp)

/-- The port stays in the server. -/
theorem port_in_server : ¬ ∀ a : DnsAddress, a.Correct (buildDnsObject a.text) := by
  intro h
  have hport : withPort.port = none := (h withPort).understood.1
  exact absurd hport (by decide)

end DnsAddress

end NekoBox.Config
