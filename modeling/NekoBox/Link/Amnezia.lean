import NekoBox.Link.Fields
import NekoBox.Link.Wireguard

/-!
# The parameters of AmneziaWG

`ValidateAmnezia` and the four ways a profile is imported (`WireguardBean.cpp`): a
link, a configuration file, an endpoint in JSON (lines 122–141 and 407–452) and a
link of the Amnezia client. The last one only checks what it has read.

* `validateAmnezia_iff`: what is checked;
* `AmneziaParams.Usable.sound`: the junk sizes and the headers that are accepted can
  be used by the core;
* `Import.usable_iff`: when an import gives a profile that passes the check.
-/

namespace NekoBox.Link

open NekoBox.Config NekoBox.Lib NekoBox.Qt NekoBox.Store NekoBox.Subscription

/-! ## What is checked -/

/-- The parameters that are checked. -/
structure AmneziaParams where
  junkPacketCount : ℤ
  junkPacketMinSize : ℤ
  junkPacketMaxSize : ℤ
  initPacketMagicHeader : String
  responsePacketMagicHeader : String
  cookieReplyMagicHeader : String
  transportPacketMagicHeader : String

namespace AmneziaParams

/-- The headers are ranges, a blank one being the type of the message, and no two of
    them meet. -/
def HeadersUsable (p : AmneziaParams) : Prop :=
  ∃ r₁ r₂ r₃ r₄, WireguardBean.parseMagicHeader p.initPacketMagicHeader 1 = some r₁ ∧
    WireguardBean.parseMagicHeader p.responsePacketMagicHeader 2 = some r₂ ∧
    WireguardBean.parseMagicHeader p.cookieReplyMagicHeader 3 = some r₃ ∧
    WireguardBean.parseMagicHeader p.transportPacketMagicHeader 4 = some r₄ ∧
    [r₁, r₂, r₃, r₄].Pairwise fun r s => Disjoint (Set.Icc r.1 r.2) (Set.Icc s.1 s.2)

/-- Parameters the core can use. -/
structure Usable (p : AmneziaParams) : Prop where
  /-- Junk packets have sizes. -/
  junk : 0 < p.junkPacketCount → 0 < p.junkPacketMinSize ∧ 0 < p.junkPacketMaxSize
  sizes : 0 < p.junkPacketMinSize → 0 < p.junkPacketMaxSize →
    p.junkPacketMinSize ≤ p.junkPacketMaxSize
  headers : p.HeadersUsable

/-- The range of a header is not empty and lies within 32 bits. -/
theorem parseMagicHeader_range {spec : String} {standard : ℤ} {r : ℤ × ℤ}
    (hstandard : 0 ≤ standard ∧ standard ≤ 0xFFFFFFFF)
    (h : WireguardBean.parseMagicHeader spec standard = some r) :
    0 ≤ r.1 ∧ r.1 ≤ r.2 ∧ r.2 < 2 ^ 32 := by
  unfold WireguardBean.parseMagicHeader at h
  split_ifs at h
  · obtain rfl := Option.some.inj h
    dsimp only
    omega
  · have hrange := (Option.filter_eq_some_iff.mp h).2
    simp only [decide_eq_true_eq] at hrange
    omega

theorem disjoint_Icc_iff {r s : ℤ × ℤ} (hr : r.1 ≤ r.2) (hs : s.1 ≤ s.2) :
    Disjoint (Set.Icc r.1 r.2) (Set.Icc s.1 s.2) ↔ ¬ (r.1 ≤ s.2 ∧ s.1 ≤ r.2) := by
  rw [Set.disjoint_iff_inter_eq_empty, Set.Icc_inter_Icc, Set.Icc_eq_empty_iff]
  simp only [sup_le_iff, le_inf_iff, not_iff_not]
  exact ⟨fun h => ⟨h.2.1, h.1.2⟩, fun h => ⟨⟨hr, h.2⟩, h.1, hs⟩⟩

/-- The loops that compare the headers. -/
theorem disjointRanges_iff {l : List (ℤ × ℤ)} (hl : ∀ r ∈ l, r.1 ≤ r.2) :
    WireguardBean.disjointRanges l = true ↔
      l.Pairwise fun r s => Disjoint (Set.Icc r.1 r.2) (Set.Icc s.1 s.2) := by
  induction l with
  | nil => simp [WireguardBean.disjointRanges]
  | cons r rest ih =>
    have hr : r.1 ≤ r.2 := hl r List.mem_cons_self
    have hrest : ∀ s ∈ rest, s.1 ≤ s.2 := fun s hs => hl s (List.mem_cons_of_mem _ hs)
    rw [WireguardBean.disjointRanges, Bool.and_eq_true, ih hrest, List.pairwise_cons,
      List.all_eq_true]
    refine and_congr_left fun _ => forall₂_congr fun s hs => ?_
    rw [disjoint_Icc_iff hr (hrest s hs), Bool.not_eq_true', decide_eq_false_iff_not]

/-- Junk sizes that are accepted are a range that is not empty, and the headers are
    disjoint ranges within 32 bits. -/
theorem Usable.sound {p : AmneziaParams} (h : p.Usable) :
    (0 < p.junkPacketCount → 0 ≤ p.junkPacketMinSize ∧
      p.junkPacketMinSize ≤ p.junkPacketMaxSize) ∧
    ∃ r₁ r₂ r₃ r₄, WireguardBean.parseMagicHeader p.initPacketMagicHeader 1 = some r₁ ∧
      WireguardBean.parseMagicHeader p.responsePacketMagicHeader 2 = some r₂ ∧
      WireguardBean.parseMagicHeader p.cookieReplyMagicHeader 3 = some r₃ ∧
      WireguardBean.parseMagicHeader p.transportPacketMagicHeader 4 = some r₄ ∧
      (∀ r ∈ [r₁, r₂, r₃, r₄], 0 ≤ r.1 ∧ r.1 ≤ r.2 ∧ r.2 < 2 ^ 32) ∧
      [r₁, r₂, r₃, r₄].Pairwise fun r s => Disjoint (Set.Icc r.1 r.2) (Set.Icc s.1 s.2) := by
  constructor
  · intro hcount
    obtain ⟨hmin, hmax⟩ := h.junk hcount
    exact ⟨hmin.le, h.sizes hmin hmax⟩
  · obtain ⟨r₁, r₂, r₃, r₄, h₁, h₂, h₃, h₄, hdisjoint⟩ := h.headers
    refine ⟨r₁, r₂, r₃, r₄, h₁, h₂, h₃, h₄, ?_, hdisjoint⟩
    simp only [List.forall_mem_cons, List.not_mem_nil, false_imp_iff, implies_true, and_true]
    exact ⟨parseMagicHeader_range (by decide) h₁, parseMagicHeader_range (by decide) h₂,
      parseMagicHeader_range (by decide) h₃, parseMagicHeader_range (by decide) h₄⟩

end AmneziaParams

namespace WireguardBean

def amneziaParams (b : WireguardBean) : AmneziaParams where
  junkPacketCount := b.junkPacketCount
  junkPacketMinSize := b.junkPacketMinSize
  junkPacketMaxSize := b.junkPacketMaxSize
  initPacketMagicHeader := b.initPacketMagicHeader
  responsePacketMagicHeader := b.responsePacketMagicHeader
  cookieReplyMagicHeader := b.cookieReplyMagicHeader
  transportPacketMagicHeader := b.transportPacketMagicHeader

/-- What is checked is that the core can use the parameters. -/
theorem headersUsable_iff (b : WireguardBean) :
    b.amneziaParams.HeadersUsable ↔ ∃ r₁ r₂ r₃ r₄,
      parseMagicHeader b.initPacketMagicHeader 1 = some r₁ ∧
      parseMagicHeader b.responsePacketMagicHeader 2 = some r₂ ∧
      parseMagicHeader b.cookieReplyMagicHeader 3 = some r₃ ∧
      parseMagicHeader b.transportPacketMagicHeader 4 = some r₄ ∧
      disjointRanges [r₁, r₂, r₃, r₄] = true := by
  have hrange : ∀ {spec : String} {standard : ℤ} {r : ℤ × ℤ}, 0 ≤ standard ∧ standard ≤ 0xFFFFFFFF →
      parseMagicHeader spec standard = some r → r.1 ≤ r.2 :=
    fun hstandard h => (AmneziaParams.parseMagicHeader_range hstandard h).2.1
  have hdisjoint : ∀ {r₁ r₂ r₃ r₄ : ℤ × ℤ},
      parseMagicHeader b.initPacketMagicHeader 1 = some r₁ →
      parseMagicHeader b.responsePacketMagicHeader 2 = some r₂ →
      parseMagicHeader b.cookieReplyMagicHeader 3 = some r₃ →
      parseMagicHeader b.transportPacketMagicHeader 4 = some r₄ →
      ∀ r ∈ [r₁, r₂, r₃, r₄], r.1 ≤ r.2 := by
    intro r₁ r₂ r₃ r₄ h₁ h₂ h₃ h₄
    simp only [List.forall_mem_cons, List.not_mem_nil, false_imp_iff, implies_true, and_true]
    exact ⟨hrange (by decide) h₁, hrange (by decide) h₂, hrange (by decide) h₃,
      hrange (by decide) h₄⟩
  unfold AmneziaParams.HeadersUsable amneziaParams
  dsimp only
  constructor
  · rintro ⟨r₁, r₂, r₃, r₄, h₁, h₂, h₃, h₄, h⟩
    refine ⟨r₁, r₂, r₃, r₄, h₁, h₂, h₃, h₄, ?_⟩
    exact (AmneziaParams.disjointRanges_iff (hdisjoint h₁ h₂ h₃ h₄)).mpr h
  · rintro ⟨r₁, r₂, r₃, r₄, h₁, h₂, h₃, h₄, h⟩
    refine ⟨r₁, r₂, r₃, r₄, h₁, h₂, h₃, h₄, ?_⟩
    exact (AmneziaParams.disjointRanges_iff (hdisjoint h₁ h₂ h₃ h₄)).mp h

theorem validateAmnezia_iff (b : WireguardBean) :
    b.validateAmnezia = true ↔ b.amneziaParams.Usable := by
  unfold validateAmnezia
  split_ifs with hjunk hsizes
  · refine iff_of_false id fun h => ?_
    have husable := h.junk hjunk.1
    simp only [amneziaParams] at husable
    omega
  · refine iff_of_false id fun h => ?_
    have husable := h.sizes hsizes.1 hsizes.2.1
    simp only [amneziaParams] at husable
    omega
  · have hnumbers : b.amneziaParams.HeadersUsable → b.amneziaParams.Usable := by
      intro h
      refine ⟨?_, ?_, h⟩
      · simp only [amneziaParams]
        omega
      · simp only [amneziaParams]
        omega
    split
    · next r₁ r₂ r₃ r₄ h₁ h₂ h₃ h₄ =>
      constructor
      · intro h
        exact hnumbers ((headersUsable_iff b).mpr ⟨r₁, r₂, r₃, r₄, h₁, h₂, h₃, h₄, h⟩)
      · intro h
        obtain ⟨s₁, s₂, s₃, s₄, hs₁, hs₂, hs₃, hs₄, h⟩ := (headersUsable_iff b).mp h.headers
        rw [h₁] at hs₁
        rw [h₂] at hs₂
        rw [h₃] at hs₃
        rw [h₄] at hs₄
        rwa [Option.some.inj hs₁, Option.some.inj hs₂, Option.some.inj hs₃, Option.some.inj hs₄]
    · next hnone =>
      refine iff_of_false nofun fun h => ?_
      obtain ⟨r₁, r₂, r₃, r₄, h₁, h₂, h₃, h₄, -⟩ := (headersUsable_iff b).mp h.headers
      exact hnone r₁ r₂ r₃ r₄ h₁ h₂ h₃ h₄

/-! ## JSON -/

/-- `TryParseJsonAwg` (lines 407–452) -/
def tryParseJsonAwg (T : Node.NumberText) (b : WireguardBean) (obj : Node) : WireguardBean :=
  let peer := (obj.get "peers").elem 0
  { b with
    privateKey := (obj.get "private_key").toString T
    localAddress := (obj.get "address").toStringList T
    mtu := (obj.get "mtu").toInt T
    useSystemInterface := (obj.get "useIntegratedTun").toBool T
    entity :=
      { b.entity with
        serverAddress := (peer.get "address").toString T
        serverPort := (peer.get "port").toInt T }
    publicKey := (peer.get "public_key").toString T
    preSharedKey := (peer.get "pre_shared_key").toString T
    persistentKeepalive := (peer.get "persistent_keepalive_interval").toInt T
    junkPacketCount := (obj.get "jc").toInt T
    junkPacketMaxSize := (obj.get "jmax").toInt T
    junkPacketMinSize := (obj.get "jmin").toInt T
    initPacketJunkSize := (obj.get "s1").toInt T
    responsePacketJunkSize := (obj.get "s2").toInt T
    cookieReplyJunkSize := (obj.get "s3").toInt T
    transportPacketJunkSize := (obj.get "s4").toInt T
    initPacketMagicHeader := (obj.get "h1").toString T
    responsePacketMagicHeader := (obj.get "h2").toString T
    cookieReplyMagicHeader := (obj.get "h3").toString T
    transportPacketMagicHeader := (obj.get "h4").toString T
    i1 := (obj.get "i1").toString T
    i2 := (obj.get "i2").toString T
    i3 := (obj.get "i3").toString T
    i4 := (obj.get "i4").toString T
    i5 := (obj.get "i5").toString T }

/-- `TryParseJson` (lines 122–141); `none` if it returns false. -/
def tryParseJson (T : Node.NumberText) (b : WireguardBean) (obj : Node) : Option WireguardBean :=
  let isAmnezia : Bool := (obj.get "type").toString T = "awg"
  let b := { b with isAmnezia := isAmnezia }
  if isAmnezia then some (b.tryParseJsonAwg T obj)
  else
    let peers := obj.get "peers"
    let peer := peers.elem 0
    if ¬ peers.isArray ∨ peers.count = 0 then none
    else
      some { b with
        entity := Entity.ofNode T obj
        publicKey := (peer.get "public_key").toString T
        reserved := (peer.get "reserved").toIntList T
        persistentKeepalive := (peer.get "persistent_keepalive_interval").toInt T
        privateKey := (obj.get "private_key").toString T
        localAddress := (obj.get "address").toStringList T
        mtu := (obj.get "mtu").toInt T
        useSystemInterface := (obj.get "system").toBool T }

end WireguardBean

/-! ## Parameters in the inputs -/

namespace AmneziaParams

/-- The parameters of the query of a link. -/
def ofQuery (query : QUrlQuery) : AmneziaParams where
  junkPacketCount := getQueryIntValue query "junk_packet_count" 0
  junkPacketMinSize := getQueryIntValue query "junk_packet_min_size" 0
  junkPacketMaxSize := getQueryIntValue query "junk_packet_max_size" 0
  initPacketMagicHeader :=
    getQueryValue query "init_packet_magic_header" (getQueryValue query "h1" "")
  responsePacketMagicHeader :=
    getQueryValue query "response_packet_magic_header" (getQueryValue query "h2" "")
  cookieReplyMagicHeader :=
    getQueryValue query "underload_packet_magic_header"
      (getQueryValue query "cookie_reply_magic_header" (getQueryValue query "h3" ""))
  transportPacketMagicHeader :=
    getQueryValue query "transport_packet_magic_header" (getQueryValue query "h4" "")

/-- The parameters of an endpoint in JSON. -/
def ofNode (T : Node.NumberText) (obj : Node) : AmneziaParams where
  junkPacketCount := (obj.get "jc").toInt T
  junkPacketMinSize := (obj.get "jmin").toInt T
  junkPacketMaxSize := (obj.get "jmax").toInt T
  initPacketMagicHeader := (obj.get "h1").toString T
  responsePacketMagicHeader := (obj.get "h2").toString T
  cookieReplyMagicHeader := (obj.get "h3").toString T
  transportPacketMagicHeader := (obj.get "h4").toString T

/-- The parameter a key stands for. -/
def parseEntry (p : AmneziaParams) (key value : String) : AmneziaParams :=
  if equalsNoCase key "Jc" then { p with junkPacketCount := intOf value }
  else if equalsNoCase key "Jmin" then { p with junkPacketMinSize := intOf value }
  else if equalsNoCase key "Jmax" then { p with junkPacketMaxSize := intOf value }
  else if equalsNoCase key "H1" then { p with initPacketMagicHeader := value }
  else if equalsNoCase key "H2" then { p with responsePacketMagicHeader := value }
  else if equalsNoCase key "H3" then { p with cookieReplyMagicHeader := value }
  else if equalsNoCase key "H4" then { p with transportPacketMagicHeader := value }
  else p

/-- The parameters of a configuration file; the last entry with a key counts. -/
def ofEntries (entries : List (String × String)) : AmneziaParams :=
  entries.foldl (fun p e => if isBlank e.1 then p else p.parseEntry e.1 e.2)
    ⟨0, 0, 0, "", "", "", ""⟩

end AmneziaParams

/-- The keys of AmneziaWG in a configuration file. -/
def amneziaKeys : List String :=
  ["S1", "S2", "S3", "S4", "Jc", "Jmin", "Jmax", "H1", "H2", "H3", "H4", "I1", "I2", "I3", "I4",
    "I5"]

namespace WireguardBean

theorem equalsNoCase_congr {key name : String} (h : equalsNoCase key name = true)
    (name' : String) : equalsNoCase key name' = equalsNoCase name name' := by
  unfold equalsNoCase at *
  rw [of_decide_eq_true h]

/-- An entry of a file changes the parameter its key stands for. -/
theorem amneziaParams_parseEntry (st : WireguardBean × Bool) (key value : String) :
    (parseEntry st key value).1.amneziaParams = st.1.amneziaParams.parseEntry key value := by
  by_cases h : ∃ name ∈ ["Jc", "Jmin", "Jmax", "H1", "H2", "H3", "H4"], equalsNoCase key name = true
  · obtain ⟨name, hname, hkey⟩ := h
    simp only [List.mem_cons, List.not_mem_nil, or_false] at hname
    unfold parseEntry AmneziaParams.parseEntry
    rcases hname with rfl | rfl | rfl | rfl | rfl | rfl | rfl <;>
      simp +decide only [equalsNoCase_congr hkey, if_true, if_false, amneziaParams]
  · push Not at h
    simp only [List.mem_cons, List.not_mem_nil, or_false, forall_eq_or_imp, forall_eq,
      ne_eq, Bool.not_eq_true] at h
    obtain ⟨h₁, h₂, h₃, h₄, h₅, h₆, h₇⟩ := h
    unfold parseEntry AmneziaParams.parseEntry
    by_cases hendpoint : equalsNoCase key "Endpoint" = true
    · simp +decide only [equalsNoCase_congr hendpoint, if_true, if_false]
      split <;> rfl
    · simp only [hendpoint, h₁, h₂, h₃, h₄, h₅, h₆, h₇, apply_ite Prod.fst, apply_ite amneziaParams,
        Bool.false_eq_true, if_false]
      simp only [amneziaParams, ite_self]

/-- The keys of AmneziaWG turn it on. -/
theorem snd_parseEntry (st : WireguardBean × Bool) (key value : String) :
    (parseEntry st key value).2 = (st.2 || amneziaKeys.any fun name => equalsNoCase key name) := by
  by_cases h : ∃ name ∈ amneziaKeys, equalsNoCase key name = true
  · have hany : (amneziaKeys.any fun name => equalsNoCase key name) = true := by
      simpa [List.any_eq_true] using h
    obtain ⟨name, hname, hkey⟩ := h
    rw [hany, Bool.or_true]
    simp only [amneziaKeys, List.mem_cons, List.not_mem_nil, or_false] at hname
    unfold parseEntry
    rcases hname with rfl | rfl | rfl | rfl | rfl | rfl | rfl | rfl | rfl | rfl | rfl | rfl | rfl |
      rfl | rfl | rfl <;> simp +decide only [equalsNoCase_congr hkey, if_true, if_false]
  · have hany : (amneziaKeys.any fun name => equalsNoCase key name) = false := by
      simpa [List.any_eq_false] using h
    have hnone := List.any_eq_false.mp hany
    simp only [amneziaKeys, List.forall_mem_cons, Bool.not_eq_true] at hnone
    obtain ⟨h₁, h₂, h₃, h₄, h₅, h₆, h₇, h₈, h₉, h₁₀, h₁₁, h₁₂, h₁₃, h₁₄, h₁₅, h₁₆, -⟩ := hnone
    rw [hany, Bool.or_false]
    unfold parseEntry
    by_cases hendpoint : equalsNoCase key "Endpoint" = true
    · simp +decide only [equalsNoCase_congr hendpoint, if_true, if_false]
      split <;> rfl
    · simp only [hendpoint, h₁, h₂, h₃, h₄, h₅, h₆, h₇, h₈, h₉, h₁₀, h₁₁, h₁₂, h₁₃, h₁₄, h₁₅, h₁₆,
        apply_ite Prod.snd, Bool.false_eq_true, if_false, ite_self]

/-- The entries of a file, in all its sections. -/
def configEntries (config : String) : List (String × String) :=
  (Ini.parse config).flatMap Prod.snd

/-- There are the sections of a configuration file. -/
def isConfig (config : String) : Prop :=
  ((Ini.parse config).lookup "Interface").isSome ∧ ((Ini.parse config).lookup "Peer").isSome

/-- A key of AmneziaWG stands in the file. -/
def configEnablesAmnezia (config : String) : Bool :=
  (configEntries config).any fun e => !isBlank e.1 && amneziaKeys.any fun name => equalsNoCase e.1 name

/-- What the entries of a file leave of the parameters and of the flag. -/
theorem foldl_parseEntry (entries : List (String × String)) (st : WireguardBean × Bool) :
    let st' := entries.foldl (fun st e => if isBlank e.1 then st else parseEntry st e.1 e.2) st
    st'.1.amneziaParams =
        entries.foldl (fun p e => if isBlank e.1 then p else p.parseEntry e.1 e.2)
          st.1.amneziaParams ∧
      st'.2 = (st.2 || entries.any fun e =>
        !isBlank e.1 && amneziaKeys.any fun name => equalsNoCase e.1 name) := by
  induction entries generalizing st with
  | nil => exact ⟨rfl, (Bool.or_false _).symm⟩
  | cons e entries ih =>
    obtain ⟨hparams, hflag⟩ := ih (if isBlank e.1 then st else parseEntry st e.1 e.2)
    refine ⟨?_, ?_⟩
    · rw [List.foldl_cons, hparams, List.foldl_cons]
      split_ifs
      · rfl
      · rw [amneziaParams_parseEntry]
    · rw [List.foldl_cons, hflag, List.any_cons]
      by_cases hblank : isBlank e.1 = true
      · rw [if_pos hblank, hblank]
        rfl
      · have hblank : isBlank e.1 = false := by simpa using hblank
        rw [hblank, if_neg Bool.false_ne_true, snd_parseEntry, Bool.or_assoc]
        rfl

/-- A file gives the parameters that stand in it. -/
theorem parseWgConfig_iff {b : WireguardBean} {config : String} :
    parseWgConfig {} config = some b →
      isConfig config ∧ b.amneziaParams = AmneziaParams.ofEntries (configEntries config) ∧
        b.isAmnezia = configEnablesAmnezia config := by
  intro h
  unfold parseWgConfig at h
  dsimp only at h
  split_ifs at h with hsections
  push Not at hsections
  obtain ⟨hparams, hflag⟩ := foldl_parseEntry (configEntries config) ({}, false)
  rw [← Option.some.inj h]
  refine ⟨?_, hparams, hflag⟩
  simpa [isConfig, Option.isSome_iff_ne_none] using hsections

theorem parseWgConfig_isConfig {config : String} (h : isConfig config) (b : WireguardBean) :
    (parseWgConfig b config).isSome = true := by
  unfold parseWgConfig
  dsimp only
  have hsections : ¬ (((Ini.parse config).lookup "Interface").isNone = true ∨
      ((Ini.parse config).lookup "Peer").isNone = true) := by
    simp only [← Option.not_isSome, h.1, h.2]
    decide
  rw [if_neg hsections]
  rfl

/-- What in a link makes the profile an Amnezia one (lines 107–117). -/
def LinkEnables (L : UrlLibrary) (url : Url) : Prop :=
  let int := getQueryIntValue url.query
  setBoolean L "enable_amnezia" false url.query = true ∨
    (0 < int "junk_packet_count" 0 ∨ 0 < int "junk_packet_min_size" 0 ∨
      0 < int "junk_packet_max_size" 0 ∨ 0 < int "init_packet_junk_size" (int "s1" 0) ∨
      0 < int "response_packet_junk_size" (int "s2" 0) ∨
      0 < int "underload_packet_junk_size" (int "s3" 0) ∨
      0 < int "transport_packet_junk_size" (int "s4" 0)) ∨
    url.scheme ∈ ["awg", "amneziawg", "amnezia"]

variable {L : UrlLibrary}

theorem linkEnablesAmnezia_iff (url : Url) (b : WireguardBean) :
    (b.readQuery L url.query).linkEnablesAmnezia L url = true ↔ LinkEnables L url := by
  unfold linkEnablesAmnezia LinkEnables
  simp only [Bool.or_eq_true, decide_eq_true_eq, List.mem_cons, List.not_mem_nil, or_false,
    or_assoc]
  rfl

end WireguardBean

/-! ## Imports -/

/-- An input of one of the importers. -/
inductive Import where
  | link (link : String)
  | file (config : String)
  | json (obj : Node)
  | vpn (link : String)

namespace Import

open WireguardBean

variable (L : UrlLibrary) (V : VpnLibrary) (T : Node.NumberText)

/-- The importer of the input, on a fresh bean. -/
def accept : Import → Option WireguardBean
  | .link s => WireguardBean.tryParseLink L V {} s
  | .file config => WireguardBean.parseWgConfig {} config
  | .json obj => WireguardBean.tryParseJson T {} obj
  | .vpn s => WireguardBean.parseAmneziaVpnLink V {} s

/-- A file is harmless if it has no key of AmneziaWG, or parameters the core can use. -/
def ConfigHarmless (config : String) : Prop :=
  configEnablesAmnezia config = true → (AmneziaParams.ofEntries (configEntries config)).Usable

/-- A link of the Amnezia client is checked; the other inputs are harmless if they are
    no Amnezia profile, or have parameters the core can use. -/
def Harmless : Import → Prop
  | .link s => startsWithNoCase s "vpn://" = false →
    (isConfig s → ConfigHarmless s) ∧
    (¬ isConfig s → ∀ url, L.fromString s = some url → LinkEnables L url →
      (AmneziaParams.ofQuery url.query).Usable)
  | .file config => isConfig config → ConfigHarmless config
  | .json obj => (obj.get "type").toString T = "awg" → (AmneziaParams.ofNode T obj).Usable
  | .vpn _ => True

variable {L V T}

/-- The profile of a link of the Amnezia client is checked. -/
theorem parseAmneziaVpnLink_valid {link : String} {b b' : WireguardBean}
    (h : WireguardBean.parseAmneziaVpnLink V b link = some b') : b'.validateAmnezia = true := by
  unfold WireguardBean.parseAmneziaVpnLink at h
  dsimp only at h
  obtain ⟨-, h⟩ := Option.ite_none_left_eq_some.mp h
  split at h
  · cases h
  · obtain ⟨-, h⟩ := Option.ite_none_left_eq_some.mp h
    obtain ⟨hvalid, h⟩ := Option.ite_none_right_eq_some.mp h
    rw [← Option.some.inj h]
    exact hvalid

theorem parseWgConfig_harmless_iff {config : String} :
    (∀ b, WireguardBean.parseWgConfig {} config = some b → b.isAmnezia = true →
      b.validateAmnezia = true) ↔ (isConfig config → ConfigHarmless config) := by
  constructor
  · intro h hconfig henabled
    obtain ⟨b, hb⟩ := Option.isSome_iff_exists.mp (parseWgConfig_isConfig hconfig {})
    obtain ⟨-, hparams, hflag⟩ := parseWgConfig_iff hb
    rw [← hparams, ← validateAmnezia_iff]
    exact h b hb (hflag.trans henabled)
  · intro h b hb hamnezia
    obtain ⟨hconfig, hparams, hflag⟩ := parseWgConfig_iff hb
    rw [validateAmnezia_iff, hparams]
    exact h hconfig (hflag.symm.trans hamnezia)

/-- An accepted Amnezia profile passes the check exactly if the input is harmless. -/
theorem valid_iff (i : Import) :
    (∀ b, i.accept L V T = some b → b.isAmnezia = true → b.validateAmnezia = true) ↔
      i.Harmless L T := by
  cases i with
  | vpn s => exact iff_of_true (fun b hb _ => parseAmneziaVpnLink_valid hb) trivial
  | file config => exact parseWgConfig_harmless_iff
  | json obj =>
    constructor
    · intro h htype
      have haccepted : accept L V T (json obj) =
          some (WireguardBean.tryParseJsonAwg T { isAmnezia := true } obj) := by
        show WireguardBean.tryParseJson T {} obj = _
        rw [WireguardBean.tryParseJson, decide_eq_true htype]
        rfl
      exact (validateAmnezia_iff _).mp (h _ haccepted rfl)
    · intro h b hb hamnezia
      change WireguardBean.tryParseJson T {} obj = some b at hb
      unfold WireguardBean.tryParseJson at hb
      by_cases htype : (obj.get "type").toString T = "awg"
      · rw [decide_eq_true htype, if_pos rfl] at hb
        rw [← Option.some.inj hb]
        exact (validateAmnezia_iff _).mpr (h htype)
      · rw [decide_eq_false htype] at hb
        dsimp only at hb
        rw [if_neg Bool.false_ne_true] at hb
        split_ifs at hb
        rw [← Option.some.inj hb] at hamnezia
        cases hamnezia
  | link s =>
    by_cases hvpn : startsWithNoCase s "vpn://" = true
    · refine iff_of_true (fun b hb _ => ?_) fun hother => ?_
      · change WireguardBean.tryParseLink L V {} s = some b at hb
        rw [WireguardBean.tryParseLink, if_pos hvpn] at hb
        exact parseAmneziaVpnLink_valid hb
      · rw [hvpn] at hother
        cases hother
    have hother : startsWithNoCase s "vpn://" = false := by simpa using hvpn
    show (∀ b, WireguardBean.tryParseLink L V {} s = some b → _) ↔ (_ → _)
    rw [WireguardBean.tryParseLink, if_neg hvpn, forall_prop_of_true hother]
    by_cases hconfig : isConfig s
    · obtain ⟨b, hb⟩ := Option.isSome_iff_exists.mp (parseWgConfig_isConfig hconfig {})
      have hiff : _ ↔ (isConfig s → ConfigHarmless s) := parseWgConfig_harmless_iff
      rw [hb] at hiff ⊢
      dsimp only
      rw [hiff]
      exact ⟨fun h => ⟨h, fun hnot => absurd hconfig hnot⟩, And.left⟩
    · have hnone : WireguardBean.parseWgConfig {} s = none := by
        rw [Option.eq_none_iff_forall_ne_some]
        intro b hb
        exact hconfig (parseWgConfig_iff hb).1
      rw [hnone]
      dsimp only
      simp only [Option.map_eq_some_iff, forall_exists_index, and_imp, forall_apply_eq_imp_iff₂]
      refine ⟨fun h => ⟨fun hsections => absurd hsections hconfig, fun _ url hurl henables => ?_⟩,
        fun h url hurl hamnezia => ?_⟩
      · have hvalid := h url hurl ((linkEnablesAmnezia_iff url _).mpr henables)
        exact (validateAmnezia_iff _).mp hvalid
      · exact (validateAmnezia_iff _).mpr
          (h.2 hconfig url hurl ((linkEnablesAmnezia_iff url _).mp hamnezia))

variable (L V T)

/-- What is imported as an Amnezia profile can be used exactly if the input is harmless;
    what passes the check can always be used. -/
theorem usable_iff (i : Import) :
    ((∀ b, i.accept L V T = some b → b.isAmnezia = true → b.validateAmnezia = true) ∧
      ∀ b : WireguardBean, b.validateAmnezia = true →
        (0 < b.junkPacketCount → 0 ≤ b.junkPacketMinSize ∧
          b.junkPacketMinSize ≤ b.junkPacketMaxSize) ∧
        ∃ r₁ r₂ r₃ r₄, parseMagicHeader b.initPacketMagicHeader 1 = some r₁ ∧
          parseMagicHeader b.responsePacketMagicHeader 2 = some r₂ ∧
          parseMagicHeader b.cookieReplyMagicHeader 3 = some r₃ ∧
          parseMagicHeader b.transportPacketMagicHeader 4 = some r₄ ∧
          (∀ r ∈ [r₁, r₂, r₃, r₄], 0 ≤ r.1 ∧ r.1 ≤ r.2 ∧ r.2 < 2 ^ 32) ∧
          [r₁, r₂, r₃, r₄].Pairwise fun r s =>
            Disjoint (Set.Icc r.1 r.2) (Set.Icc s.1 s.2)) ↔
      i.Harmless L T := by
  rw [← valid_iff (V := V)]
  refine and_iff_left fun b hvalid => ?_
  have husable := (validateAmnezia_iff b).mp hvalid
  exact husable.sound

/-- An endpoint whose junk sizes are the wrong way round. -/
def sampleEndpoint : Node :=
  .map [("type", .string "awg"), ("jc", .number 4), ("jmin", .number 1000), ("jmax", .number 50),
    ("h1", .string "1"), ("h2", .string "2"), ("h3", .string "3"), ("h4", .string "4")]

def sampleText : Node.NumberText where
  print q := toString q
  parse s := intOf s

/-- The endpoint is imported. -/
theorem json_not_checked :
    ∃ b, WireguardBean.tryParseJson sampleText {} sampleEndpoint = some b ∧
      b.isAmnezia = true ∧ b.validateAmnezia = false ∧ 0 < b.junkPacketCount ∧
      b.junkPacketMaxSize < b.junkPacketMinSize := by
  refine ⟨WireguardBean.tryParseJsonAwg sampleText { isAmnezia := true } sampleEndpoint, ?_, rfl,
    ?_, ?_, ?_⟩
  · show WireguardBean.tryParseJson sampleText {} sampleEndpoint = _
    rw [WireguardBean.tryParseJson, decide_eq_true (by decide +kernel)]
    rfl
  · decide +kernel
  · decide +kernel
  · decide +kernel

end Import

end NekoBox.Link
