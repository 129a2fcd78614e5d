import NekoBox.Link.StreamSettings
import NekoBox.Store.BinaryRoundTrip

/-!
# Stream settings in a store

The fields of `V2rayStreamSettings` that are registered
(`V2RayStreamSettings.hpp`, lines 98–122) and so are saved with a profile. Those of
ECH and of KCP are not.

* `outboundMembers_eq_iff`: when settings with the same registered fields build the
  same outbound;
* `sameSaved_reload`: a profile that is loaded has the registered fields it was saved
  with.
-/

namespace NekoBox.Link

open NekoBox.Config NekoBox.Lib NekoBox.Qt NekoBox.Store

/-! ## Registered fields -/

/-- The tables of `V2RAYTransports` and `VmessPacketEncodings`. -/
def transportTable : EnumMap where
  entries := v2rayTransports.names.zipIdx.map fun e => (e.1, BitVec.ofNat 32 e.2)
  names_distinct := by decide
  values_distinct := by decide

def packetEncodingTable : EnumMap where
  entries := vmessPacketEncodings.names.zipIdx.map fun e => (e.1, BitVec.ofNat 32 e.2)
  names_distinct := by decide
  values_distinct := by decide

namespace V2rayStreamSettings

variable (s : V2rayStreamSettings)

/-- An `int` of a store. -/
def intVal (n : ℤ) : BitVec 32 := BitVec.ofInt 32 n

/-- `_map()` in the order of the source. -/
def registered : Obj :=
  [("net", .enum transportTable (some (intVal s.network))), ("sec", .str s.security),
    ("pac_enc", .enum packetEncodingTable (some (intVal s.packetEncoding))), ("path", .str s.path),
    ("host", .str s.host), ("sni", .str s.sni), ("alpn", .str s.alpn),
    ("cert", .str s.certificate), ("insecure", .bool s.allowInsecure),
    ("headers", .str s.headers), ("h_type", .str s.headerType), ("method", .str s.method),
    ("ed_name", .str s.wsEarlyDataName), ("ed_len", .int (intVal s.wsEarlyDataLength)),
    ("xhttp_mode", .str s.xhttpMode), ("xhttp_extra", .str s.xhttpExtra),
    ("utls", .str s.utlsFingerprint), ("tls_frag", .bool s.enableTlsFragment),
    ("tls_frag_fall_delay", .str s.tlsFragmentFallbackDelay),
    ("tls_record_frag", .bool s.enableTlsRecordFragment), ("pbk", .str s.realityPbk),
    ("sid", .str s.realitySid)]

/-- `_map()`: the fields in the order of their keys. -/
def map (hash : String → Bytes) : Obj :=
  s.registered.insertionSort fun f g => hash f.1 ≤ hash g.1

/-- The fields of type `int` that are registered. -/
structure Ints : Prop where
  network : IsInt32 s.network
  packetEncoding : IsInt32 s.packetEncoding
  wsEarlyDataLength : IsInt32 s.wsEarlyDataLength

variable {s} {s' : V2rayStreamSettings}

theorem intVal_inj {m n : ℤ} (hm : IsInt32 m) (hn : IsInt32 n) : intVal m = intVal n ↔ m = n := by
  unfold IsInt32 at hm hn
  constructor
  · intro h
    have hint := congrArg BitVec.toInt h
    rw [intVal, intVal, BitVec.toInt_ofInt, BitVec.toInt_ofInt, Int.bmod_eq_of_le (by omega) (by omega),
      Int.bmod_eq_of_le (by omega) (by omega)] at hint
    exact hint
  · exact congrArg intVal

/-- The registered fields are equal. -/
structure SameSaved (s s' : V2rayStreamSettings) : Prop where
  network : s.network = s'.network
  security : s.security = s'.security
  packetEncoding : s.packetEncoding = s'.packetEncoding
  path : s.path = s'.path
  host : s.host = s'.host
  sni : s.sni = s'.sni
  alpn : s.alpn = s'.alpn
  certificate : s.certificate = s'.certificate
  allowInsecure : s.allowInsecure = s'.allowInsecure
  headers : s.headers = s'.headers
  headerType : s.headerType = s'.headerType
  method : s.method = s'.method
  wsEarlyDataName : s.wsEarlyDataName = s'.wsEarlyDataName
  wsEarlyDataLength : s.wsEarlyDataLength = s'.wsEarlyDataLength
  xhttpMode : s.xhttpMode = s'.xhttpMode
  xhttpExtra : s.xhttpExtra = s'.xhttpExtra
  utlsFingerprint : s.utlsFingerprint = s'.utlsFingerprint
  enableTlsFragment : s.enableTlsFragment = s'.enableTlsFragment
  tlsFragmentFallbackDelay : s.tlsFragmentFallbackDelay = s'.tlsFragmentFallbackDelay
  enableTlsRecordFragment : s.enableTlsRecordFragment = s'.enableTlsRecordFragment
  realityPbk : s.realityPbk = s'.realityPbk
  realitySid : s.realitySid = s'.realitySid

theorem registered_eq_iff (hs : s.Ints) (hs' : s'.Ints) :
    s.registered = s'.registered ↔ SameSaved s s' := by
  simp only [registered, List.cons.injEq, Prod.mk.injEq, true_and, and_true, Val.enum.injEq,
    Option.some.injEq, Val.str.injEq, Val.bool.injEq, Val.int.injEq,
    intVal_inj hs.network hs'.network, intVal_inj hs.packetEncoding hs'.packetEncoding,
    intVal_inj hs.wsEarlyDataLength hs'.wsEarlyDataLength]
  constructor
  · intro h
    constructor <;> simp only [h]
  · intro h
    exact ⟨h.network, h.security, h.packetEncoding, h.path, h.host, h.sni, h.alpn, h.certificate,
      h.allowInsecure, h.headers, h.headerType, h.method, h.wsEarlyDataName, h.wsEarlyDataLength,
      h.xhttpMode, h.xhttpExtra, h.utlsFingerprint, h.enableTlsFragment,
      h.tlsFragmentFallbackDelay, h.enableTlsRecordFragment, h.realityPbk, h.realitySid⟩

/-! ## What is built -/

/-- ECH is off in both, or it is on with the same lines and the same name. -/
def SameEch (s s' : V2rayStreamSettings) : Prop :=
  s.enableEch = s'.enableEch ∧ (s.enableEch = true →
    withoutBlanks (split '\n' (trimString s.echConfig)) =
        withoutBlanks (split '\n' (trimString s'.echConfig)) ∧
      s.queryServerName = s'.queryServerName)

theorem nonEmpty_inj {t t' : String} : nonEmpty t = nonEmpty t' ↔ t = t' := by
  unfold nonEmpty
  by_cases h : t = "" <;> by_cases h' : t' = "" <;> simp [h, h', eq_comm]

theorem ech_eq_iff :
    onlyIf (s.enableEch = true) (.object s.echObject) =
      onlyIf (s'.enableEch = true) (.object s'.echObject) ↔ SameEch s s' := by
  have hobject : s.echObject = s'.echObject ↔
      withoutBlanks (split '\n' (trimString s.echConfig)) =
          withoutBlanks (split '\n' (trimString s'.echConfig)) ∧
        s.queryServerName = s'.queryServerName := by
    unfold echObject
    refine (Members.present_inj ?hkeys ?hnodup).trans ?_
    case hkeys => simp only [List.map_cons, List.map_nil]
    case hnodup => simp
    simp only [List.cons.injEq, Prod.mk.injEq, true_and, and_true, Option.some.injEq,
      stringArray_inj, nonEmpty_inj]
  unfold onlyIf SameEch
  cases s.enableEch <;> cases s'.enableEch <;> simp [hobject]

end V2rayStreamSettings

namespace KCPExtra

variable {e e' : KCPExtra}

/-- The numbers of KCP. -/
structure Ints (e : KCPExtra) : Prop where
  mtu : IsInt32 e.mtu
  tti : IsInt32 e.tti
  uplinkcapacity : IsInt32 e.uplinkcapacity
  downlinkcapacity : IsInt32 e.downlinkcapacity
  readbuffersize : IsInt32 e.readbuffersize
  writebuffersize : IsInt32 e.writebuffersize

/-- The options that are set; a number below 0 is not. -/
def settled (e : KCPExtra) : KCPExtra :=
  { e with
    mtu := max e.mtu (-1)
    tti := max e.tti (-1)
    uplinkcapacity := max e.uplinkcapacity (-1)
    downlinkcapacity := max e.downlinkcapacity (-1)
    readbuffersize := max e.readbuffersize (-1)
    writebuffersize := max e.writebuffersize (-1) }

theorem natural_eq_iff {m n : ℤ} (hm : IsInt32 m) (hn : IsInt32 n) :
    onlyIf (0 ≤ m) (jsonInt m) = onlyIf (0 ≤ n) (jsonInt n) ↔ max m (-1) = max n (-1) := by
  unfold onlyIf
  by_cases h : 0 ≤ m <;> by_cases h' : 0 ≤ n
  · rw [if_pos h, if_pos h', Option.some_inj]
    refine ⟨fun heq => congrArg (max · (-1)) (jsonInt_inj hm hn heq), fun heq => ?_⟩
    have heq : m = n := by omega
    rw [heq]
  · rw [if_pos h, if_neg h']
    simp only [reduceCtorEq, false_iff]
    omega
  · rw [if_neg h, if_pos h']
    simp only [reduceCtorEq, false_iff]
    omega
  · rw [if_neg h, if_neg h']
    simp only [true_iff]
    omega

theorem members_eq_iff (he : e.Ints) (he' : e'.Ints) :
    Members.present e.members = Members.present e'.members ↔ e.settled = e'.settled := by
  have hflag : ∀ b b' : Bool, onlyIf (b = true) (.bool true) = onlyIf (b' = true) (.bool true) ↔
      b = b' := by
    intro b b'
    cases b <;> cases b' <;> simp [onlyIf]
  refine (Members.present_inj ?hkeys ?hnodup).trans ?_
  case hkeys => rfl
  case hnodup => simp [members]
  simp only [members, List.cons.injEq, Prod.mk.injEq, true_and, and_true,
    natural_eq_iff he.mtu he'.mtu, natural_eq_iff he.tti he'.tti,
    natural_eq_iff he.uplinkcapacity he'.uplinkcapacity,
    natural_eq_iff he.downlinkcapacity he'.downlinkcapacity,
    natural_eq_iff he.readbuffersize he'.readbuffersize,
    natural_eq_iff he.writebuffersize he'.writebuffersize, hflag, V2rayStreamSettings.nonEmpty_inj,
    settled, KCPExtra.mk.injEq]

end KCPExtra

namespace V2rayStreamSettings

variable {s s' : V2rayStreamSettings}

/-- What settings with the same registered fields must have in common besides, for an
    outbound of the type. -/
structure SameRest (type : String) (s s' : V2rayStreamSettings) : Prop where
  ech : s.security = "tls" → SameEch s s'
  kcp : type ≠ "naive" → s.networkName = "kcp" → s.kcpExtra.settled = s'.kcpExtra.settled

theorem tls_eq_iff (L : StreamLibrary) (isNaive : Bool) (h : SameSaved s s') :
    s.tls L isNaive = s'.tls L isNaive ↔ (s.security = "tls" → SameEch s s') := by
  unfold tls
  rw [← h.security]
  by_cases htls : s.security = "tls"
  · rw [if_pos htls, if_pos htls, Option.some_inj]
    refine (Members.present_inj ?hkeys ?hnodup).trans ?_
    case hkeys => simp only [tlsMembers, List.map_cons, List.map_nil]
    case hnodup => simp [tlsMembers]
    rw [tlsMembers, tlsMembers, fingerprint, fingerprint, realityObject, realityObject, h.sni,
      h.certificate, h.allowInsecure, h.alpn, h.realityPbk, h.realitySid, h.utlsFingerprint,
      h.enableTlsFragment, h.tlsFragmentFallbackDelay, h.enableTlsRecordFragment]
    simp only [List.cons.injEq, Prod.mk.injEq, true_and, and_true, ech_eq_iff, htls, forall_const]
  · rw [if_neg htls, if_neg htls]
    simp only [htls, false_implies]

theorem transport_eq_iff (L : StreamLibrary) (hkcp : s.kcpExtra.Ints) (hkcp' : s'.kcpExtra.Ints)
    (h : SameSaved s s') :
    s.transport L = s'.transport L ↔
      (s.networkName = "kcp" → s.kcpExtra.settled = s'.kcpExtra.settled) := by
  have hname : s'.networkName = s.networkName := by rw [networkName, networkName, h.network]
  unfold transport
  rw [hname]
  by_cases hnetwork : s.networkName = "kcp"
  · rw [hnetwork]
    simp only [ne_eq, String.reduceEq, not_false_eq_true, if_true, if_false, Option.some.injEq,
      forall_const]
    show ("type", Json.string "kcp") :: Members.present s.kcpExtra.members =
      ("type", Json.string "kcp") :: Members.present s'.kcpExtra.members ↔ _
    rw [List.cons.injEq, KCPExtra.members_eq_iff hkcp hkcp']
    exact and_iff_right rfl
  · have hother : s.networkTransport L s.networkName = s'.networkTransport L s.networkName := by
      simp only [networkTransport, hnetwork, if_false]
      rw [wsHeaders, wsHeaders, earlyData, earlyData, h.path, h.host, h.headers, h.method,
        h.wsEarlyDataName, h.wsEarlyDataLength, h.xhttpMode, h.xhttpExtra]
    dsimp only
    rw [hother, h.headerType, h.path, h.host]
    simp only [hnetwork, false_implies]

/-- Settings with the same registered fields build the same outbound exactly if the
    fields that are not registered do not tell them apart. -/
theorem outboundMembers_eq_iff (L : StreamLibrary) (type : String) (hkcp : s.kcpExtra.Ints)
    (hkcp' : s'.kcpExtra.Ints) (h : SameSaved s s') :
    Members.present (s.outboundMembers L type) = Members.present (s'.outboundMembers L type) ↔
      SameRest type s s' := by
  have hobject : ∀ o o' : Option JsonObject, o.map Json.object = o'.map Json.object ↔ o = o' := by
    intro o o'
    exact (Option.map_injective fun _ _ => Json.object.inj).eq_iff
  refine (Members.present_inj ?hkeys ?hnodup).trans ?_
  case hkeys => simp only [outboundMembers, List.map_cons, List.map_nil]
  case hnodup => simp [outboundMembers]
  simp only [outboundMembers, List.cons.injEq, Prod.mk.injEq, true_and, and_true, hobject,
    tls_eq_iff L _ h, h.packetEncoding]
  by_cases hnaive : type = "naive"
  · rw [if_pos (decide_eq_true hnaive), if_pos (decide_eq_true hnaive)]
    simp only [true_and]
    exact ⟨fun hech => ⟨hech, fun hne => absurd hnaive hne⟩, fun hrest => hrest.ech⟩
  · simp only [hnaive, decide_false, Bool.false_eq_true, if_false, hobject,
      transport_eq_iff L hkcp hkcp' h]
    exact ⟨fun hrest => ⟨hrest.2, fun _ => hrest.1⟩, fun hrest => ⟨hrest.kcp hnaive, hrest.ech⟩⟩

/-! ## Saving and loading -/

variable (hash : String → Bytes)

/-- A field of the store, as the type of the member has it. -/
def textOf (t : Obj) (name : String) : String :=
  match Obj.find hash t (hash name) with
  | some (.str v) => v
  | _ => ""

def flagOf (t : Obj) (name : String) : Bool :=
  match Obj.find hash t (hash name) with
  | some (.bool v) => v
  | _ => false

def intFieldOf (t : Obj) (name : String) : ℤ :=
  match Obj.find hash t (hash name) with
  | some (.int v) => v.toInt
  | some (.enum _ (some v)) => v.toInt
  | _ => 0

/-- The settings whose registered fields are those of a store. -/
def ofObj (t : Obj) : V2rayStreamSettings where
  network := intFieldOf hash t "net"
  security := textOf hash t "sec"
  packetEncoding := intFieldOf hash t "pac_enc"
  path := textOf hash t "path"
  host := textOf hash t "host"
  sni := textOf hash t "sni"
  alpn := textOf hash t "alpn"
  certificate := textOf hash t "cert"
  allowInsecure := flagOf hash t "insecure"
  headers := textOf hash t "headers"
  headerType := textOf hash t "h_type"
  method := textOf hash t "method"
  wsEarlyDataName := textOf hash t "ed_name"
  wsEarlyDataLength := intFieldOf hash t "ed_len"
  xhttpMode := textOf hash t "xhttp_mode"
  xhttpExtra := textOf hash t "xhttp_extra"
  utlsFingerprint := textOf hash t "utls"
  enableTlsFragment := flagOf hash t "tls_frag"
  tlsFragmentFallbackDelay := textOf hash t "tls_frag_fall_delay"
  enableTlsRecordFragment := flagOf hash t "tls_record_frag"
  realityPbk := textOf hash t "pbk"
  realitySid := textOf hash t "sid"

/-- The settings of a profile that was saved with `s` and is loaded. -/
def reload (s : V2rayStreamSettings) : V2rayStreamSettings :=
  ofObj hash (fromBytes hash none (map {} hash) (toBytes hash (s.map hash)))

variable {hash} {s : V2rayStreamSettings}

theorem flat_registered : ∀ f ∈ s.registered, f.2.Flat := by
  simp [registered, Val.Flat]

theorem mem_map {f : String × Val} : f ∈ s.map hash ↔ f ∈ s.registered :=
  (List.perm_insertionSort _ _).mem_iff

/-- A fresh store has every field, and of the same kind. -/
theorem exists_fresh {name : String} {v : Val} (h : (name, v) ∈ s.registered) :
    ∃ w, (name, w) ∈ registered {} ∧ w.type = v.type ∧ overlayVal hash v w = v := by
  have hfresh : List.Forall₂ (fun f g : String × Val => g.1 = f.1 ∧ g.2.type = f.2.type ∧
      overlayVal hash f.2 g.2 = f.2) s.registered (registered {}) := by
    simp [registered, Val.type, overlayVal]
  have hexists : ∀ {l l' : Obj}, List.Forall₂ (fun f g : String × Val => g.1 = f.1 ∧
      g.2.type = f.2.type ∧ overlayVal hash f.2 g.2 = f.2) l l' → (name, v) ∈ l →
      ∃ w, (name, w) ∈ l' ∧ w.type = v.type ∧ overlayVal hash v w = v := by
    intro l l' hall hmem
    induction hall with
    | nil => cases hmem
    | @cons f g l l' hfg _ ih =>
      rcases List.mem_cons.mp hmem with rfl | hmem
      · obtain ⟨hname, htype, hvalue⟩ := hfg
        refine ⟨g.2, ?_, htype, hvalue⟩
        have hg : (name, g.2) = g := Prod.ext hname.symm rfl
        rw [hg]
        exact List.mem_cons_self
      · obtain ⟨w, hw, hrest⟩ := ih hmem
        exact ⟨w, List.mem_cons_of_mem _ hw, hrest⟩
  exact hexists hfresh h

/-- The keys of the fields are distinct. -/
def DistinctNames (hash : String → Bytes) : Prop := (Obj.keys hash (registered {})).Nodup

theorem find_reload (hnames : DistinctNames hash) (hlen : (toBytes hash (s.map hash)).length < 2 ^ 63)
    {name : String} {v : Val} (hmem : (name, v) ∈ s.registered) :
    Obj.find hash (fromBytes hash none (map {} hash) (toBytes hash (s.map hash))) (hash name) =
      some v := by
  have hkeys : ∀ s : V2rayStreamSettings, (Obj.keys hash (s.map hash)).Nodup := by
    intro s
    refine ((List.perm_insertionSort _ _).map fun f : String × Val => hash f.1).nodup_iff.mpr ?_
    exact hnames
  obtain ⟨w, hfresh, htype, hvalue⟩ := @exists_fresh hash _ _ _ hmem
  rw [find_fromBytes (fun f hf => flat_registered f (mem_map.mp hf)) (hkeys s) hlen (mem_map.mpr hmem)
    (Obj.find_of_mem (hkeys {}) (mem_map.mpr hfresh)) htype, hvalue]

/-- The registered fields are loaded as they were saved. -/
theorem sameSaved_reload (hs : s.Ints) (hnames : DistinctNames hash)
    (hlen : (toBytes hash (s.map hash)).length < 2 ^ 63) : SameSaved (s.reload hash) s := by
  have hfind := @find_reload hash s hnames hlen
  have hint : ∀ n : ℤ, IsInt32 n → (intVal n).toInt = n := by
    intro n hn
    unfold IsInt32 at hn
    rw [intVal, BitVec.toInt_ofInt, Int.bmod_eq_of_le (by omega) (by omega)]
  unfold reload
  generalize fromBytes hash none (map {} hash) (toBytes hash (s.map hash)) = t at hfind ⊢
  have htext : ∀ {name value : String}, (name, .str value) ∈ s.registered →
      textOf hash t name = value := by
    intro name value hmem
    rw [textOf, hfind hmem]
  have hflag : ∀ {name : String} {value : Bool}, (name, .bool value) ∈ s.registered →
      flagOf hash t name = value := by
    intro name value hmem
    rw [flagOf, hfind hmem]
  constructor
  case network =>
    show intFieldOf hash t "net" = _
    rw [intFieldOf, hfind (show ("net", Val.enum transportTable (some (intVal s.network))) ∈ _ by
      simp [registered])]
    exact hint _ hs.network
  case packetEncoding =>
    show intFieldOf hash t "pac_enc" = _
    rw [intFieldOf, hfind (show ("pac_enc",
      Val.enum packetEncodingTable (some (intVal s.packetEncoding))) ∈ _ by simp [registered])]
    exact hint _ hs.packetEncoding
  case wsEarlyDataLength =>
    show intFieldOf hash t "ed_len" = _
    rw [intFieldOf, hfind (show ("ed_len", Val.int (intVal s.wsEarlyDataLength)) ∈ _ by
      simp [registered])]
    exact hint _ hs.wsEarlyDataLength
  case allowInsecure => exact hflag (by simp [registered])
  case enableTlsFragment => exact hflag (by simp [registered])
  case enableTlsRecordFragment => exact hflag (by simp [registered])
  all_goals exact htext (by simp [registered])

/-- A profile that is loaded builds the same outbound exactly if nothing is set that is
    not registered, where it counts. -/
theorem sameRest_reload_iff (type : String) (hs : s.Ints) (hnames : DistinctNames hash)
    (hlen : (toBytes hash (s.map hash)).length < 2 ^ 63) :
    SameRest type (s.reload hash) s ↔
      (s.security = "tls" → s.enableEch = false) ∧
        (type ≠ "naive" → s.networkName = "kcp" → s.kcpExtra.settled = {}) := by
  have hsame := sameSaved_reload hs hnames hlen
  have hname : (s.reload hash).networkName = s.networkName := by
    rw [networkName, networkName, hsame.network]
  have hech : SameEch (s.reload hash) s ↔ s.enableEch = false := by
    have hoff : (s.reload hash).enableEch = false := rfl
    rw [SameEch, hoff]
    exact ⟨fun h => h.1.symm, fun h => ⟨h.symm, fun hon => by cases hon⟩⟩
  constructor
  · intro h
    refine ⟨fun htls => hech.mp (h.ech (hsame.security.trans htls)), fun hnaive hkcp => ?_⟩
    exact (h.kcp hnaive (hname.trans hkcp)).symm
  · rintro ⟨htls, hkcp⟩
    exact ⟨fun h => hech.mpr (htls (hsame.security.symm.trans h)),
      fun hnaive h => (hkcp hnaive (hname.symm.trans h)).symm⟩

/-- **Saved stream settings.** Settings that agree on the registered fields build the
    same exactly if they agree on ECH, with TLS, and on KCP, with this network; and a
    profile that is loaded builds the same exactly if neither is set there. -/
theorem saved_settings_iff (L : StreamLibrary) (hash : String → Bytes) (type : String)
    (s s' : V2rayStreamSettings) (hs : s.Ints) (hs' : s'.Ints) (hkcp : s.kcpExtra.Ints)
    (hkcp' : s'.kcpExtra.Ints) (hnames : DistinctNames hash)
    (hlen : (toBytes hash (s.map hash)).length < 2 ^ 63) :
    (s.registered = s'.registered →
      (Members.present (s.outboundMembers L type) = Members.present (s'.outboundMembers L type) ↔
        SameRest type s s')) ∧
    (Members.present ((s.reload hash).outboundMembers L type) =
        Members.present (s.outboundMembers L type) ↔
      (s.security = "tls" → s.enableEch = false) ∧
        (type ≠ "naive" → s.networkName = "kcp" → s.kcpExtra.settled = {})) := by
  constructor
  · intro h
    exact outboundMembers_eq_iff L type hkcp hkcp' ((registered_eq_iff hs hs').mp h)
  · rw [← sameRest_reload_iff type hs hnames hlen]
    have hfresh : (s.reload hash).kcpExtra.Ints := by
      rw [show (s.reload hash).kcpExtra = {} from rfl]
      constructor <;> decide
    exact outboundMembers_eq_iff L type hfresh hkcp (sameSaved_reload hs hnames hlen)

/-- The MD5 hashes of the names. -/
def fieldHash (name : String) : Bytes :=
  (List.lookup name [
    ("net",
      [64, 250, 115, 201, 208, 8, 48, 67, 198, 87, 109, 210, 180, 5, 17, 228]),
    ("sec",
      [116, 69, 156, 163, 207, 133, 168, 29, 249, 13, 169, 95, 246, 231, 162, 7]),
    ("pac_enc",
      [172, 24, 99, 196, 187, 148, 28, 113, 8, 128, 227, 56, 241, 137, 135, 75]),
    ("path",
      [214, 254, 29, 11, 230, 52, 123, 142, 242, 66, 127, 166, 41, 192, 68, 133]),
    ("host",
      [103, 179, 219, 168, 188, 103, 120, 16, 24, 146, 235, 119, 36, 157, 179, 46]),
    ("sni",
      [247, 15, 162, 246, 139, 181, 2, 46, 217, 180, 203, 58, 149, 28, 140, 123]),
    ("alpn",
      [216, 9, 136, 168, 59, 60, 100, 231, 68, 88, 238, 17, 207, 189, 47, 198]),
    ("cert",
      [182, 186, 159, 166, 234, 24, 32, 27, 243, 158, 166, 53, 236, 202, 159, 19]),
    ("insecure",
      [199, 166, 0, 37, 73, 176, 255, 84, 50, 78, 204, 230, 44, 217, 171, 109]),
    ("headers",
      [67, 64, 253, 115, 231, 93, 247, 169, 217, 228, 89, 2, 165, 155, 163, 164]),
    ("h_type",
      [145, 124, 17, 213, 73, 1, 201, 178, 136, 205, 181, 75, 139, 111, 87, 33]),
    ("method",
      [234, 159, 106, 202, 39, 145, 56, 197, 143, 112, 92, 141, 76, 180, 184, 206]),
    ("ed_name",
      [41, 160, 71, 216, 190, 28, 2, 113, 63, 106, 124, 42, 143, 201, 240, 193]),
    ("ed_len",
      [177, 128, 166, 170, 7, 26, 180, 85, 200, 101, 109, 115, 195, 169, 168, 45]),
    ("xhttp_mode",
      [119, 52, 180, 2, 247, 234, 136, 213, 148, 210, 41, 251, 98, 46, 187, 95]),
    ("xhttp_extra",
      [242, 255, 53, 178, 209, 12, 50, 76, 244, 74, 117, 235, 94, 153, 214, 221]),
    ("utls",
      [248, 157, 38, 29, 21, 87, 85, 173, 161, 37, 219, 169, 178, 54, 195, 225]),
    ("tls_frag",
      [165, 84, 158, 227, 195, 233, 57, 118, 116, 112, 44, 85, 236, 9, 219, 45]),
    ("tls_frag_fall_delay",
      [56, 157, 118, 94, 51, 237, 249, 77, 217, 145, 44, 254, 190, 0, 223, 25]),
    ("tls_record_frag",
      [55, 10, 162, 109, 197, 248, 190, 169, 50, 169, 66, 188, 144, 232, 38, 171]),
    ("pbk",
      [174, 110, 3, 203, 236, 183, 222, 69, 193, 157, 36, 89, 106, 166, 108, 209]),
    ("sid",
      [184, 193, 163, 6, 145, 103, 36, 126, 53, 3, 240, 218, 186, 108, 87, 35])]).getD []

/-- Settings of Reality over WebSocket. -/
def sampleSettings : V2rayStreamSettings where
  network := v2rayTransports.valueOf "ws"
  security := "tls"
  path := "/ws"
  sni := "example.com"
  realityPbk := "jNXHt1yRo0vDuchQlIP6Z0ZvjT3KtzVI"

theorem saved_settings_iff_sample :
    Members.present ((sampleSettings.reload fieldHash).outboundMembers (.ofUrl {}) "vless") =
      Members.present (sampleSettings.outboundMembers (.ofUrl {}) "vless") := by
  have hints : sampleSettings.Ints := by constructor <;> decide
  have hkcp : sampleSettings.kcpExtra.Ints := by constructor <;> decide
  refine (saved_settings_iff (.ofUrl {}) fieldHash "vless" sampleSettings sampleSettings hints hints
    hkcp hkcp ?_ ?_).2.mpr ⟨fun _ => rfl, fun _ _ => rfl⟩
  · unfold DistinctNames
    decide +kernel
  · decide +kernel

/-- ECH is not registered. -/
theorem ech_not_saved :
    registered { sampleSettings with enableEch := true } = sampleSettings.registered ∧
      Members.present
          (outboundMembers (.ofUrl {}) { sampleSettings with enableEch := true } "vless") ≠
        Members.present (outboundMembers (.ofUrl {}) sampleSettings "vless") := by
  have hsaved : SameSaved { sampleSettings with enableEch := true } sampleSettings := by
    constructor <;> rfl
  refine ⟨rfl, fun h => ?_⟩
  have hrest := (outboundMembers_eq_iff (.ofUrl {}) "vless" (by constructor <;> decide)
    (by constructor <;> decide) hsaved).mp h
  exact absurd (hrest.ech rfl).1 (by decide)

end V2rayStreamSettings

end NekoBox.Link
