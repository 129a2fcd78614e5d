import NekoBox.Link.Amnezia

/-!
# What a WireGuard configuration file gives

`parseWgConfig` (`WireguardBean.cpp`, lines 211–346) against a `Conf`, which is what such
a file says whatever the order and the letter case of its keys.

* `parseEntry_eq`: an entry does what the one key it is equal to does;
* `get_parseWgConfig`: so a field has the values of its own key;
* `parseWgConfig_gives_iff`: a fresh bean gets what the file says, unless its endpoint is
  an IPv6 address, which is cut at its first colon.
-/

namespace NekoBox.Link

open NekoBox.Config NekoBox.Lib NekoBox.Qt NekoBox.Store NekoBox.Subscription

namespace WireguardBean

/-- `parseWgConfig` (lines 211–346): what it returns, and the bean it leaves. -/
def readWgConfig (b : WireguardBean) (config : String) : Bool × WireguardBean :=
  let sections := Ini.parse config
  if (sections.lookup "Interface").isNone ∨ (sections.lookup "Peer").isNone then (false, b)
  else
    let st := (sections.flatMap Prod.snd).foldl
      (fun st e => if isBlank e.1 then st else parseEntry st e.1 e.2) (b, false)
    (true, { st.1 with
      isAmnezia := st.2
      entity := { st.1.entity with name := "Wg file config" } })

theorem readWgConfig_eq (b : WireguardBean) (config : String) :
    readWgConfig b config =
      ((parseWgConfig b config).isSome, (parseWgConfig b config).getD b) := by
  unfold readWgConfig parseWgConfig
  dsimp only
  split_ifs
  · rfl
  · rfl

end WireguardBean

/-! ## The keys -/

/-- The keys whose value is a text. -/
inductive TextKey where
  | privateKey
  | publicKey
  | presharedKey
  | h1
  | h2
  | h3
  | h4
  | i1
  | i2
  | i3
  | i4
  | i5
  deriving DecidableEq

namespace TextKey

def name : TextKey → String
  | privateKey => "PrivateKey"
  | publicKey => "PublicKey"
  | presharedKey => "PresharedKey"
  | h1 => "H1"
  | h2 => "H2"
  | h3 => "H3"
  | h4 => "H4"
  | i1 => "I1"
  | i2 => "I2"
  | i3 => "I3"
  | i4 => "I4"
  | i5 => "I5"

def get (b : WireguardBean) : TextKey → String
  | privateKey => b.privateKey
  | publicKey => b.publicKey
  | presharedKey => b.preSharedKey
  | h1 => b.initPacketMagicHeader
  | h2 => b.responsePacketMagicHeader
  | h3 => b.cookieReplyMagicHeader
  | h4 => b.transportPacketMagicHeader
  | i1 => b.i1
  | i2 => b.i2
  | i3 => b.i3
  | i4 => b.i4
  | i5 => b.i5

def set (b : WireguardBean) (value : String) : TextKey → WireguardBean
  | privateKey => { b with privateKey := value }
  | publicKey => { b with publicKey := value }
  | presharedKey => { b with preSharedKey := value }
  | h1 => { b with initPacketMagicHeader := value }
  | h2 => { b with responsePacketMagicHeader := value }
  | h3 => { b with cookieReplyMagicHeader := value }
  | h4 => { b with transportPacketMagicHeader := value }
  | i1 => { b with i1 := value }
  | i2 => { b with i2 := value }
  | i3 => { b with i3 := value }
  | i4 => { b with i4 := value }
  | i5 => { b with i5 := value }

/-- The key is one of AmneziaWG. -/
def isAmnezia : TextKey → Bool
  | privateKey | publicKey | presharedKey => false
  | _ => true

/-- The keys of WireGuard have their values trimmed once more. -/
def read (k : TextKey) (value : String) : String :=
  if k.isAmnezia then value else trimString value

theorem get_set (b : WireguardBean) (value : String) (k k' : TextKey) :
    k.get (k'.set b value) = if k' = k then value else k.get b := by
  cases k <;> cases k' <;> rfl

/-- The other fields that a file fills. -/
theorem get_frame (b : WireguardBean) (flag : Bool) (entity : Entity) (addresses : List String)
    (k : TextKey) :
    k.get { b with isAmnezia := flag, entity := entity, localAddress := addresses } = k.get b := by
  cases k <;> rfl

end TextKey

/-- The keys whose value is a number. -/
inductive NumberKey where
  | mtu
  | persistentKeepalive
  | s1
  | s2
  | s3
  | s4
  | jc
  | jmin
  | jmax
  deriving DecidableEq

namespace NumberKey

def name : NumberKey → String
  | mtu => "MTU"
  | persistentKeepalive => "PersistentKeepalive"
  | s1 => "S1"
  | s2 => "S2"
  | s3 => "S3"
  | s4 => "S4"
  | jc => "Jc"
  | jmin => "Jmin"
  | jmax => "Jmax"

def get (b : WireguardBean) : NumberKey → ℤ
  | mtu => b.mtu
  | persistentKeepalive => b.persistentKeepalive
  | s1 => b.initPacketJunkSize
  | s2 => b.responsePacketJunkSize
  | s3 => b.cookieReplyJunkSize
  | s4 => b.transportPacketJunkSize
  | jc => b.junkPacketCount
  | jmin => b.junkPacketMinSize
  | jmax => b.junkPacketMaxSize

def set (b : WireguardBean) (value : ℤ) : NumberKey → WireguardBean
  | mtu => { b with mtu := value }
  | persistentKeepalive => { b with persistentKeepalive := value }
  | s1 => { b with initPacketJunkSize := value }
  | s2 => { b with responsePacketJunkSize := value }
  | s3 => { b with cookieReplyJunkSize := value }
  | s4 => { b with transportPacketJunkSize := value }
  | jc => { b with junkPacketCount := value }
  | jmin => { b with junkPacketMinSize := value }
  | jmax => { b with junkPacketMaxSize := value }

/-- The key is one of AmneziaWG. -/
def isAmnezia : NumberKey → Bool
  | mtu | persistentKeepalive => false
  | _ => true

theorem get_set (b : WireguardBean) (value : ℤ) (k k' : NumberKey) :
    k.get (k'.set b value) = if k' = k then value else k.get b := by
  cases k <;> cases k' <;> rfl

/-- The other fields that a file fills. -/
theorem get_frame (b : WireguardBean) (flag : Bool) (entity : Entity) (addresses : List String)
    (k : NumberKey) :
    k.get { b with isAmnezia := flag, entity := entity, localAddress := addresses } = k.get b := by
  cases k <;> rfl

/-- The fields of one kind are not those of the other. -/
theorem get_set_text (b : WireguardBean) (value : String) (k : NumberKey) (k' : TextKey) :
    k.get (k'.set b value) = k.get b := by
  cases k <;> cases k' <;> rfl

theorem text_get_set (b : WireguardBean) (value : ℤ) (k : TextKey) (k' : NumberKey) :
    k.get (k'.set b value) = k.get b := by
  cases k <;> cases k' <;> rfl

end NumberKey

/-- The keys of a configuration file. -/
inductive ConfKey where
  | text (k : TextKey)
  | number (k : NumberKey)
  | address
  | endpoint
  deriving DecidableEq

namespace ConfKey

def name : ConfKey → String
  | text k => k.name
  | number k => k.name
  | address => "Address"
  | endpoint => "Endpoint"

def isAmnezia : ConfKey → Bool
  | text k => k.isAmnezia
  | number k => k.isAmnezia
  | _ => false

/-- `Endpoint`: the value is cut at its colons (lines 259–265). -/
def endpointOf (entity : Entity) : List String → Entity
  | host :: port :: _ =>
    { entity with
      serverAddress := trimString host
      serverPort := intOf (trimString port) }
  | _ => entity

def readEndpoint (entity : Entity) (value : String) : Entity :=
  endpointOf entity (split ':' (trimString value))

/-- What an entry with the key does to the bean. -/
def apply (b : WireguardBean) (value : String) : ConfKey → WireguardBean
  | text k => k.set b (k.read value)
  | number k => k.set b (intOf value)
  | address =>
    { b with localAddress := b.localAddress ++ (split ',' (trimString value)).map trimString }
  | endpoint => { b with entity := readEndpoint b.entity value }

/-- The keys in the order in which they are tried. -/
def all : List ConfKey :=
  [text .privateKey, address, number .mtu, text .publicKey, text .presharedKey,
    number .persistentKeepalive, endpoint, number .s1, number .s2, number .s3, number .s4,
    number .jc, number .jmin, number .jmax, text .h1, text .h2, text .h3, text .h4, text .i1,
    text .i2, text .i3, text .i4, text .i5]

theorem mem_all (k : ConfKey) : k ∈ all := by
  cases k with
  | text k => cases k <;> decide
  | number k => cases k <;> decide
  | address => decide
  | endpoint => decide

/-- The names differ, whatever the case of their letters. -/
theorem name_injective {k k' : ConfKey} (h : equalsNoCase k.name k'.name = true) : k = k' := by
  have hall : ∀ k ∈ all, ∀ k' ∈ all, equalsNoCase k.name k'.name = true → k = k' := by
    decide +kernel
  exact hall k k.mem_all k' k'.mem_all h

end ConfKey

namespace WireguardBean

open ConfKey

/-- An entry does what the key it is equal to does, and nothing if there is none. -/
theorem parseEntry_eq (st : WireguardBean × Bool) (key value : String) :
    parseEntry st key value =
      (all.find? fun k => equalsNoCase key k.name).elim st
        fun k => (k.apply st.1 value, st.2 || k.isAmnezia) := by
  have hcons : ∀ (k : ConfKey) (ks : List ConfKey),
      ((k :: ks).find? fun k => equalsNoCase key k.name).elim st
          (fun k => (k.apply st.1 value, st.2 || k.isAmnezia)) =
        if equalsNoCase key k.name = true then (k.apply st.1 value, st.2 || k.isAmnezia)
        else (ks.find? fun k => equalsNoCase key k.name).elim st
          (fun k => (k.apply st.1 value, st.2 || k.isAmnezia)) := by
    intro k ks
    rw [List.find?_cons]
    cases equalsNoCase key k.name with
    | false => rfl
    | true => rfl
  unfold parseEntry all
  simp only [hcons, List.find?_nil, Option.elim_none]
  simp only [ConfKey.isAmnezia, TextKey.isAmnezia, NumberKey.isAmnezia, Bool.or_false,
    Bool.or_true]
  iterate 6 refine if_congr Iff.rfl rfl ?_
  refine if_congr Iff.rfl ?_ ?_
  · simp only [apply, readEndpoint]
    generalize split ':' (trimString value) = parts
    rcases parts with _ | ⟨host, _ | ⟨port, rest⟩⟩
    · rfl
    · rfl
    · rfl
  · iterate 15 refine if_congr Iff.rfl rfl ?_
    exact if_congr Iff.rfl rfl rfl

theorem isSpace_foldAscii {c : Char} (h : isSpace c = true) : isSpace (foldAscii c) = true := by
  unfold foldAscii
  split_ifs with hkelvin hlong
  · unfold isSpace at h
    rw [hkelvin] at h
    exact absurd h (by decide)
  · unfold isSpace at h
    rw [hlong] at h
    exact absurd h (by decide)
  · have hlower : c.toLower = c := by
      unfold Char.toLower
      rw [dif_neg]
      intro hupper
      have hlow : 65 ≤ c.toNat := hupper.1
      have hhigh : c.toNat ≤ 90 := hupper.2
      revert h
      simp [isSpace]
      omega
    rw [hlower]
    exact h

/-- A key of blanks is none of the names. -/
theorem equalsNoCase_of_isBlank {key : String} (h : isBlank key = true) (k : ConfKey) :
    equalsNoCase key k.name = false := by
  rw [← Bool.not_eq_true]
  intro hname
  have hfold : key.toList.map foldAscii = k.name.toList.map foldAscii := of_decide_eq_true hname
  have hblank : (k.name.toList.map foldAscii).all isSpace = true := by
    rw [← hfold, List.all_map, List.all_eq_true]
    exact fun c hc => isSpace_foldAscii (List.all_eq_true.mp h c hc)
  have hnames : ∀ k ∈ all, (k.name.toList.map foldAscii).all isSpace = false := by decide +kernel
  rw [hnames k k.mem_all] at hblank
  exact Bool.false_ne_true hblank

/-! ## The entries -/

/-- The values of a key, in the entries of a file. -/
def valuesOf (entries : List (String × String)) (name : String) : List String :=
  (entries.filter fun e => equalsNoCase e.1 name).map Prod.snd

/-- What `parseWgConfig` does with an entry. -/
def entryStep (st : WireguardBean × Bool) (e : String × String) : WireguardBean × Bool :=
  if isBlank e.1 then st else parseEntry st e.1 e.2

section

variable {β : Type*} {get : WireguardBean → β} {upd : β → String → β} {k : ConfKey}
  (happly : ∀ b value (k' : ConfKey),
    get (k'.apply b value) = if k' = k then upd (get b) value else get b)

include happly

theorem get_entryStep (st : WireguardBean × Bool) (e : String × String) :
    get (entryStep st e).1 =
      if equalsNoCase e.1 k.name = true then upd (get st.1) e.2 else get st.1 := by
  unfold entryStep
  by_cases hblank : isBlank e.1 = true
  · rw [if_pos hblank, equalsNoCase_of_isBlank hblank, if_neg Bool.false_ne_true]
  · rw [if_neg hblank, parseEntry_eq]
    cases hfind : all.find? fun k' => equalsNoCase e.1 k'.name with
    | none =>
      have hnone := List.find?_eq_none.mp hfind k k.mem_all
      rw [if_neg hnone]
      rfl
    | some k' =>
      have hk' : equalsNoCase e.1 k'.name = true := by simpa using List.find?_some hfind
      show get (k'.apply st.1 e.2) = _
      rw [happly]
      refine if_congr ⟨?_, fun h => ?_⟩ rfl rfl
      · rintro rfl
        exact hk'
      · exact name_injective ((equalsNoCase_congr hk' k.name).symm.trans h)

/-- The field that one key fills is filled by the values of this key. -/
theorem get_foldl_entryStep (entries : List (String × String)) (st : WireguardBean × Bool) :
    get (entries.foldl entryStep st).1 = (valuesOf entries k.name).foldl upd (get st.1) := by
  unfold valuesOf
  rw [List.foldl_map, List.foldl_filter]
  exact (@List.foldl_hom _ _ _ (fun st => get st.1) entryStep
    (fun x e => if equalsNoCase e.1 k.name = true then upd x e.2 else x) entries st
    fun st e => (get_entryStep happly st e).symm).symm

end

/-- What a field of a fresh bean is after a file has been read. -/
theorem get_parseWgConfig {β : Type*} {get : WireguardBean → β} {upd : β → String → β}
    {k : ConfKey} {config : String} {b : WireguardBean}
    (happly : ∀ b value (k' : ConfKey),
      get (k'.apply b value) = if k' = k then upd (get b) value else get b)
    (hframe : ∀ (b : WireguardBean) flag name,
      get { b with isAmnezia := flag, entity := { b.entity with name := name } } = get b)
    (h : parseWgConfig {} config = some b) :
    get b = (valuesOf (configEntries config) k.name).foldl upd (get {}) := by
  unfold parseWgConfig at h
  dsimp only at h
  split_ifs at h
  rw [← Option.some.inj h, hframe]
  exact get_foldl_entryStep happly (configEntries config) ({}, false)

/-- The file has blanks around none of its values. -/
theorem trimString_of_mem_valuesOf {config name value : String}
    (h : value ∈ valuesOf (configEntries config) name) : trimString value = value := by
  obtain ⟨e, he, rfl⟩ := List.mem_map.mp h
  obtain ⟨sec, hsec, hmem⟩ := List.mem_flatMap.mp (List.mem_filter.mp he).1
  exact Ini.trimString_of_mem_parse hsec hmem

/-- A key of AmneziaWG is in the file. -/
theorem configEnablesAmnezia_iff {config : String} :
    configEnablesAmnezia config = true ↔
      ∃ k : ConfKey, k.isAmnezia = true ∧ valuesOf (configEntries config) k.name ≠ [] := by
  have hkeys : ∀ k ∈ all, k.isAmnezia = true → k.name ∈ amneziaKeys := by decide +kernel
  have hnames : ∀ name ∈ amneziaKeys, ∃ k ∈ all, k.isAmnezia = true ∧ k.name = name := by
    decide +kernel
  unfold configEnablesAmnezia
  rw [List.any_eq_true]
  constructor
  · rintro ⟨e, he, hany⟩
    obtain ⟨-, hany⟩ := Bool.and_eq_true_iff.mp hany
    obtain ⟨name, hname, hequal⟩ := List.any_eq_true.mp hany
    obtain ⟨k, -, hk, rfl⟩ := hnames name hname
    exact ⟨k, hk, List.ne_nil_of_mem
      (List.mem_map_of_mem (List.mem_filter.mpr ⟨he, hequal⟩))⟩
  · rintro ⟨k, hk, hne⟩
    obtain ⟨value, hvalue⟩ := List.exists_mem_of_ne_nil _ hne
    obtain ⟨e, he, -⟩ := List.mem_map.mp hvalue
    obtain ⟨hmem, hequal⟩ := List.mem_filter.mp he
    refine ⟨e, hmem, Bool.and_eq_true_iff.mpr ⟨?_, List.any_eq_true.mpr
      ⟨k.name, hkeys k k.mem_all hk, hequal⟩⟩⟩
    rw [Bool.not_eq_true', ← Bool.not_eq_true]
    intro hblank
    rw [equalsNoCase_of_isBlank hblank] at hequal
    exact Bool.false_ne_true hequal

end WireguardBean

/-! ## What a file says -/

/-- A name or an IPv4 address; an IPv6 address if it has a colon. -/
structure Host where
  text : String
  noSpace : ∀ c ∈ text.toList, isSpace c = false

namespace Host

def isIPv6 (h : Host) : Bool := decide (':' ∈ h.text.toList)

/-- An IPv6 address stands in brackets. -/
def written (h : Host) : String := if h.isIPv6 then "[" ++ h.text ++ "]" else h.text

end Host

structure Endpoint where
  host : Host
  port : ℤ

/-- `host:port` -/
def Endpoint.WrittenAs (e : Endpoint) (value : String) : Prop :=
  ∃ port : String, value = e.host.written ++ ":" ++ port ∧ ':' ∉ port.toList ∧
    toInt port.toList = some e.port

/-- What a configuration file says. -/
structure Conf where
  text : TextKey → Option String
  number : NumberKey → Option ℤ
  addresses : List String
  endpoint : Option Endpoint

namespace Conf

open WireguardBean

/-- The entries say it: their order, the case of their keys and any other keys are left
    open. Every address list has its own entry. -/
structure WrittenAs (c : Conf) (entries : List (String × String)) : Prop where
  text : ∀ k : TextKey, valuesOf entries k.name = (c.text k).toList
  number : ∀ k : NumberKey, List.Forall₂ (fun n value => toInt value.toList = some n)
    (c.number k).toList (valuesOf entries k.name)
  addresses : ∃ lists : List (List String), valuesOf entries "Address" = lists.map (join ",") ∧
    (∀ l ∈ lists, l ≠ [] ∧ ∀ a ∈ l, ',' ∉ a.toList) ∧ c.addresses = lists.flatten.map trimString
  endpoint : List.Forall₂ Endpoint.WrittenAs c.endpoint.toList (valuesOf entries "Endpoint")

/-- A key of AmneziaWG stands in the file. -/
def HasAmnezia (c : Conf) : Prop :=
  (∃ k : TextKey, k.isAmnezia = true ∧ (c.text k).isSome = true) ∨
    ∃ k : NumberKey, k.isAmnezia = true ∧ (c.number k).isSome = true

/-- The bean has what the file says, and of a fresh bean what it leaves out. The brackets
    of the host may be kept or dropped. -/
structure Gives (c : Conf) (b : WireguardBean) : Prop where
  text : ∀ k : TextKey, k.get b = (c.text k).getD (k.get {})
  number : ∀ k : NumberKey, k.get b = (c.number k).getD (k.get {})
  addresses : b.localAddress = c.addresses
  host : ∀ e ∈ c.endpoint, b.entity.serverAddress = e.host.text ∨
    b.entity.serverAddress = e.host.written
  port : ∀ e ∈ c.endpoint, b.entity.serverPort = e.port
  amnezia : b.isAmnezia = true ↔ c.HasAmnezia

variable {c : Conf} {config : String} {b : WireguardBean}

theorem parsed_text (h : c.WrittenAs (configEntries config))
    (hparse : parseWgConfig {} config = some b) (k : TextKey) :
    k.get b = (c.text k).getD (k.get {}) := by
  have happly : ∀ b value (k' : ConfKey), k.get (k'.apply b value) =
      if k' = .text k then (fun _ v => k.read v) (k.get b) value else k.get b := by
    intro b value k'
    cases k' with
    | text k' =>
      simp only [ConfKey.apply, TextKey.get_set, ConfKey.text.injEq]
      split_ifs with heq
      · rw [heq]
      · rfl
    | number k' =>
      rw [if_neg (by simp)]
      exact NumberKey.text_get_set b _ k k'
    | address =>
      rw [if_neg (by simp)]
      exact k.get_frame b b.isAmnezia b.entity _
    | endpoint =>
      rw [if_neg (by simp)]
      exact k.get_frame b b.isAmnezia _ b.localAddress
  have hframe : ∀ (b : WireguardBean) flag name, k.get
      { b with isAmnezia := flag, entity := { b.entity with name := name } } = k.get b :=
    fun b flag _ => k.get_frame b flag _ b.localAddress
  have hread : k.get b = (valuesOf (configEntries config) k.name).foldl (fun _ v => k.read v)
      (k.get {}) :=
    @get_parseWgConfig _ (fun b => k.get b) (fun _ v => k.read v) (.text k) _ _ happly hframe hparse
  rw [hread, h.text k]
  cases hvalue : c.text k with
  | none => rw [Option.toList_none, List.foldl_nil, Option.getD_none]
  | some v =>
    have hmem : v ∈ valuesOf (configEntries config) k.name := by
      rw [h.text k, hvalue]
      exact List.mem_singleton_self v
    show k.read v = v
    unfold TextKey.read
    split_ifs
    · rfl
    · exact trimString_of_mem_valuesOf hmem

theorem parsed_number (h : c.WrittenAs (configEntries config))
    (hparse : parseWgConfig {} config = some b) (k : NumberKey) :
    k.get b = (c.number k).getD (k.get {}) := by
  have happly : ∀ b value (k' : ConfKey), k.get (k'.apply b value) =
      if k' = .number k then (fun _ v => intOf v) (k.get b) value else k.get b := by
    intro b value k'
    cases k' with
    | text k' =>
      rw [if_neg (by simp)]
      exact NumberKey.get_set_text b _ k k'
    | number k' => simp only [ConfKey.apply, NumberKey.get_set, ConfKey.number.injEq]
    | address =>
      rw [if_neg (by simp)]
      exact k.get_frame b b.isAmnezia b.entity _
    | endpoint =>
      rw [if_neg (by simp)]
      exact k.get_frame b b.isAmnezia _ b.localAddress
  have hvalues := h.number k
  have hframe : ∀ (b : WireguardBean) flag name, k.get
      { b with isAmnezia := flag, entity := { b.entity with name := name } } = k.get b :=
    fun b flag _ => k.get_frame b flag _ b.localAddress
  have hread : k.get b = (valuesOf (configEntries config) k.name).foldl (fun _ v => intOf v)
      (k.get {}) :=
    @get_parseWgConfig _ (fun b => k.get b) (fun _ v => intOf v) (.number k) _ _ happly hframe hparse
  rw [hread]
  cases hnumber : c.number k with
  | none =>
    rw [hnumber] at hvalues
    rw [List.forall₂_nil_left_iff.mp hvalues, List.foldl_nil, Option.getD_none]
  | some n =>
    rw [hnumber] at hvalues
    obtain ⟨v, rest, hv, hrest, heq⟩ := List.forall₂_cons_left_iff.mp hvalues
    rw [heq, List.forall₂_nil_left_iff.mp hrest]
    show intOf v = n
    unfold intOf
    rw [hv]
    rfl

theorem split_join {l : List String} (hne : l ≠ []) (hcomma : ∀ a ∈ l, ',' ∉ a.toList) :
    split ',' (join "," l) = l := by
  have hsep : (",":String).toList = [','] := by simp
  unfold split join
  rw [String.toList_intercalate, hsep, List.splitOn_intercalate, List.map_map]
  · simp
  · simpa using hcomma
  · simpa using hne

/-- The lists are read one after another. -/
theorem foldl_addresses (lists : List (List String)) (acc : List String)
    (htrim : ∀ l ∈ lists, trimString (join "," l) = join "," l)
    (hlists : ∀ l ∈ lists, l ≠ [] ∧ ∀ a ∈ l, ',' ∉ a.toList) :
    (lists.map (join ",")).foldl
      (fun l value => l ++ (split ',' (trimString value)).map trimString) acc =
      acc ++ lists.flatten.map trimString := by
  induction lists generalizing acc with
  | nil => exact (List.append_nil acc).symm
  | cons l lists ih =>
    obtain ⟨⟨hne, hcomma⟩, hlists⟩ := List.forall_mem_cons.mp hlists
    obtain ⟨htrim, htrims⟩ := List.forall_mem_cons.mp htrim
    rw [List.map_cons, List.foldl_cons, ih _ htrims hlists, htrim, split_join hne hcomma,
      List.flatten_cons, List.map_append, List.append_assoc]

theorem parsed_addresses (h : c.WrittenAs (configEntries config))
    (hparse : parseWgConfig {} config = some b) : b.localAddress = c.addresses := by
  have happly : ∀ b value (k' : ConfKey), (k'.apply b value).localAddress =
      if k' = .address then
        (fun l value => l ++ (split ',' (trimString value)).map trimString) b.localAddress value
      else b.localAddress := by
    intro b value k'
    cases k' with
    | text k' =>
      rw [if_neg (by simp)]
      cases k' <;> rfl
    | number k' =>
      rw [if_neg (by simp)]
      cases k' <;> rfl
    | address => simp only [ConfKey.apply, if_true]
    | endpoint =>
      rw [if_neg (by simp)]
      simp only [ConfKey.apply]
  obtain ⟨lists, hvalues, hlists, haddresses⟩ := h.addresses
  have htrim : ∀ l ∈ lists, trimString (join "," l) = join "," l := by
    intro l hl
    have hmem : join "," l ∈ valuesOf (configEntries config) "Address" := by
      rw [hvalues]
      exact List.mem_map_of_mem hl
    exact trimString_of_mem_valuesOf hmem
  have hread : b.localAddress = (valuesOf (configEntries config) "Address").foldl
      (fun l value => l ++ (split ',' (trimString value)).map trimString) [] :=
    @get_parseWgConfig _ WireguardBean.localAddress
      (fun l value => l ++ (split ',' (trimString value)).map trimString) .address _ _ happly
      (fun _ _ _ => rfl) hparse
  rw [hread, hvalues, foldl_addresses lists [] htrim hlists, haddresses, List.nil_append]

/-! ## The endpoint -/

/-- The values of the endpoint, one after another. -/
theorem parsed_endpoint (hparse : parseWgConfig {} config = some b) :
    (b.entity.serverAddress, b.entity.serverPort) =
      (valuesOf (configEntries config) "Endpoint").foldl
        (fun p value =>
          let e := ConfKey.readEndpoint { serverAddress := p.1, serverPort := p.2 } value
          (e.serverAddress, e.serverPort))
        ("127.0.0.1", 1080) := by
  refine @get_parseWgConfig _ (fun b => (b.entity.serverAddress, b.entity.serverPort)) _ .endpoint
    _ _ ?_ (fun _ _ _ => rfl) hparse
  intro b value k'
  cases k' with
  | text k' =>
    rw [if_neg (by simp)]
    cases k' <;> rfl
  | number k' =>
    rw [if_neg (by simp)]
    cases k' <;> rfl
  | address => rfl
  | endpoint =>
    rw [if_pos rfl]
    show ((ConfKey.readEndpoint b.entity value).serverAddress,
      (ConfKey.readEndpoint b.entity value).serverPort) = _
    unfold ConfKey.readEndpoint
    rcases split ':' (trimString value) with _ | ⟨host, _ | ⟨port, rest⟩⟩
    · rfl
    · rfl
    · rfl

/-- A host without colons is read with its port. -/
theorem readEndpoint_of_name {e : Endpoint} {value : String} (h : e.WrittenAs value)
    (htrim : trimString value = value) (hname : e.host.isIPv6 = false) (entity : Entity) :
    ConfKey.readEndpoint entity value =
      { entity with serverAddress := e.host.text, serverPort := e.port } := by
  obtain ⟨port, rfl, hcolon, hport⟩ := h
  have hhost : ':' ∉ e.host.text.toList := of_decide_eq_false hname
  have hwritten : e.host.written = e.host.text := by
    unfold Host.written
    rw [hname]
    rfl
  have hsplit : split ':' (e.host.text ++ ":" ++ port) = [e.host.text, port] := by
    have hlist : (e.host.text ++ ":" ++ port).toList = e.host.text.toList ++ ':' :: port.toList := by
      simp
    unfold split
    rw [hlist, List.splitOn_append_cons_self_of_not_mem hhost, List.splitOn_eq_singleton hcolon,
      List.map_cons, List.map_singleton, String.ofList_toList, String.ofList_toList]
  have haddress : trimString e.host.text = e.host.text := by
    unfold trimString
    rw [trimmed_of_no_space e.host.noSpace, String.ofList_toList]
  have hint : intOf (trimString port) = e.port := by
    unfold intOf
    have htoInt : toInt (trimString port).toList = toInt port.toList := by
      unfold trimString toInt
      rw [String.toList_ofList, trimmed_trimmed]
    rw [htoInt, hport]
    rfl
  unfold ConfKey.readEndpoint
  rw [htrim, hwritten, hsplit]
  show ({ entity with serverAddress := _, serverPort := _ } : Entity) = _
  rw [haddress, hint]

/-- The address that is read has no colon, so it is no IPv6 address. -/
theorem not_mem_serverAddress {entity : Entity} (h : ':' ∉ entity.serverAddress.toList)
    (value : String) : ':' ∉ (ConfKey.readEndpoint entity value).serverAddress.toList := by
  unfold ConfKey.readEndpoint
  rcases hsplit : split ':' (trimString value) with _ | ⟨host, _ | ⟨port, rest⟩⟩
  · exact h
  · exact h
  · have hpart : ':' ∉ host.toList := not_mem_of_mem_split (hsplit ▸ List.mem_cons_self)
    exact fun hmem => hpart (mem_of_mem_trimString hmem)

/-- The endpoint of the file is that of the bean, unless it is an IPv6 address. -/
theorem parsed_endpoint_iff (h : c.WrittenAs (configEntries config))
    (hparse : parseWgConfig {} config = some b) :
    (∀ e ∈ c.endpoint, (b.entity.serverAddress = e.host.text ∨
        b.entity.serverAddress = e.host.written) ∧ b.entity.serverPort = e.port) ↔
      ∀ e ∈ c.endpoint, e.host.isIPv6 = false := by
  have hvalues := h.endpoint
  have hread := parsed_endpoint hparse
  cases hendpoint : c.endpoint with
  | none => exact iff_of_true nofun nofun
  | some e =>
    rw [hendpoint] at hvalues
    obtain ⟨value, rest, hvalue, hrest, heq⟩ := List.forall₂_cons_left_iff.mp hvalues
    have hlist : valuesOf (configEntries config) "Endpoint" = [value] := by
      rw [heq, List.forall₂_nil_left_iff.mp hrest]
    have htrim : trimString value = value := by
      refine @trimString_of_mem_valuesOf config "Endpoint" value ?_
      rw [hlist]
      exact List.mem_singleton_self value
    rw [hlist] at hread
    obtain ⟨haddress, hport⟩ := Prod.mk.inj hread
    constructor
    · intro hall e' he'
      obtain rfl := Option.some.inj he'
      have hcolon : ':' ∉ b.entity.serverAddress.toList := by
        rw [haddress]
        exact not_mem_serverAddress (by decide) value
      refine decide_eq_false fun hmem => ?_
      rcases (hall e rfl).1 with htext | hwritten
      · exact hcolon (htext ▸ hmem)
      · have hbrackets : e.host.written = "[" ++ e.host.text ++ "]" :=
          if_pos (decide_eq_true hmem)
        refine hcolon (hwritten.trans hbrackets ▸ ?_)
        simp [hmem]
    · intro hname e' he'
      obtain rfl := Option.some.inj he'
      rw [haddress, hport, readEndpoint_of_name hvalue htrim (hname e rfl)]
      exact ⟨.inl rfl, rfl⟩

/-! ## The file -/

theorem parsed_amnezia (h : c.WrittenAs (configEntries config))
    (hparse : parseWgConfig {} config = some b) : b.isAmnezia = true ↔ c.HasAmnezia := by
  obtain ⟨-, -, hflag⟩ := parseWgConfig_iff hparse
  have htext : ∀ k : TextKey, valuesOf (configEntries config) k.name ≠ [] ↔
      (c.text k).isSome = true := by
    intro k
    rw [h.text k, ne_eq, Option.toList_eq_nil_iff, Option.isSome_iff_ne_none]
  have hnumber : ∀ k : NumberKey, valuesOf (configEntries config) k.name ≠ [] ↔
      (c.number k).isSome = true := by
    intro k
    rw [← List.length_pos_iff, ← (h.number k).length_eq, List.length_pos_iff, ne_eq,
      Option.toList_eq_nil_iff, Option.isSome_iff_ne_none]
  rw [hflag, configEnablesAmnezia_iff]
  constructor
  · rintro ⟨k, hk, hvalues⟩
    cases k with
    | text k => exact .inl ⟨k, hk, (htext k).mp hvalues⟩
    | number k => exact .inr ⟨k, hk, (hnumber k).mp hvalues⟩
    | address => cases hk
    | endpoint => cases hk
  · rintro (⟨k, hk, hsome⟩ | ⟨k, hk, hsome⟩)
    · exact ⟨.text k, hk, (htext k).mpr hsome⟩
    · exact ⟨.number k, hk, (hnumber k).mpr hsome⟩

end Conf

open WireguardBean Conf

/-- A fresh bean gets what the file says exactly if its endpoint is no IPv6 address, and a
    text that is no such file leaves the bean as it is. -/
theorem parseWgConfig_gives_iff {config : String} {c : Conf} (hconfig : isConfig config)
    (hwritten : c.WrittenAs (configEntries config)) :
    ((readWgConfig {} config).1 = true ∧ c.Gives (readWgConfig {} config).2 ↔
        ∀ e ∈ c.endpoint, e.host.isIPv6 = false) ∧
      ∀ b text, (readWgConfig b text).1 = false → (readWgConfig b text).2 = b := by
  constructor
  · obtain ⟨b, hparse⟩ := Option.isSome_iff_exists.mp (parseWgConfig_isConfig hconfig {})
    have hread : readWgConfig {} config = (true, b) := by
      rw [readWgConfig_eq, hparse]
      rfl
    rw [hread, ← parsed_endpoint_iff hwritten hparse]
    constructor
    · exact fun ⟨_, hgives⟩ e he => ⟨hgives.host e he, hgives.port e he⟩
    · exact fun hendpoint => ⟨rfl, parsed_text hwritten hparse, parsed_number hwritten hparse,
        parsed_addresses hwritten hparse, fun e he => (hendpoint e he).1,
        fun e he => (hendpoint e he).2, parsed_amnezia hwritten hparse⟩
  · intro b text hfalse
    rw [readWgConfig_eq] at hfalse ⊢
    dsimp only at hfalse ⊢
    rw [Option.isSome_eq_false_iff, Option.isNone_iff_eq_none] at hfalse
    rw [hfalse]
    rfl

/-! ## Examples -/

def nameConfig : String :=
  "[Peer]\nENDPOINT = vpn.example:51820\npublickey = key\n[Interface]\n" ++
    "address = 10.0.0.2/32, fd00::2\nmtu = 1280\nJc = 4"

def nameConf : Conf where
  text k := if k = .publicKey then some "key" else none
  number k := if k = .mtu then some 1280 else if k = .jc then some 4 else none
  addresses := ["10.0.0.2/32", "fd00::2"]
  endpoint := some ⟨⟨"vpn.example", by simp [isSpace]⟩, 51820⟩

theorem nameConf_written : nameConf.WrittenAs (configEntries nameConfig) := by
  have hentries : configEntries nameConfig =
      [("Jc", "4"), ("address", "10.0.0.2/32, fd00::2"), ("mtu", "1280"),
        ("ENDPOINT", "vpn.example:51820"), ("publickey", "key")] := by decide +kernel
  rw [hentries]
  refine ⟨?_, ?_, ⟨[["10.0.0.2/32", " fd00::2"]], ?_, by decide +kernel, by decide +kernel⟩, ?_⟩
  · intro k
    cases k <;> decide +kernel
  · intro k
    cases k
    case mtu => exact .cons (by decide +kernel) .nil
    case jc => exact .cons (by decide +kernel) .nil
    all_goals exact .nil
  · decide +kernel
  · exact .cons ⟨"51820", by decide +kernel, by decide +kernel, by decide +kernel⟩ .nil

theorem parseWgConfig_gives_iff_name :
    (readWgConfig {} nameConfig).1 = true ∧ nameConf.Gives (readWgConfig {} nameConfig).2 :=
  (parseWgConfig_gives_iff ⟨by decide +kernel, by decide +kernel⟩ nameConf_written).1.mpr (by decide +kernel)

def ipv6Config : String :=
  "[Interface]\nPrivateKey = key\n[Peer]\nEndpoint = [2001:db8::1]:51820"

def ipv6Conf : Conf where
  text k := if k = .privateKey then some "key" else none
  number _ := none
  addresses := []
  endpoint := some ⟨⟨"2001:db8::1", by simp [isSpace]⟩, 51820⟩

/-- An IPv6 address is cut at its first colon. -/
theorem ipv6_endpoint_is_cut :
    ¬ ∀ (config : String) (c : Conf), isConfig config → c.WrittenAs (configEntries config) →
      (readWgConfig {} config).1 = true ∧ c.Gives (readWgConfig {} config).2 := by
  intro h
  have hentries : configEntries ipv6Config =
      [("PrivateKey", "key"), ("Endpoint", "[2001:db8::1]:51820")] := by decide +kernel
  have hwritten : ipv6Conf.WrittenAs (configEntries ipv6Config) := by
    rw [hentries]
    refine ⟨?_, ?_, ⟨[], by decide +kernel, by simp, rfl⟩, ?_⟩
    · intro k
      cases k <;> decide +kernel
    · intro k
      cases k <;> exact .nil
    · exact .cons ⟨"51820", by decide +kernel, by decide +kernel, by decide +kernel⟩ .nil
  obtain ⟨-, hgives⟩ := h ipv6Config ipv6Conf ⟨by decide +kernel, by decide +kernel⟩ hwritten
  have haddress : (readWgConfig {} ipv6Config).2.entity.serverAddress = "[2001" := by
    decide +kernel
  have hhost := hgives.host _ rfl
  rw [haddress] at hhost
  revert hhost
  decide +kernel

end NekoBox.Link
