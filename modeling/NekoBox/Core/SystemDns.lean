import NekoBox.Lib.Machine

/-!
# System DNS

`DnsManager` of the Windows core (`dns_manager_windows.go`, lines 19–254). While system DNS
is set the servers of the default interface are the local one, those it had, and a mark:
`127.1.2.3` if they came from DHCP, `127.3.2.1` otherwise. The setting to go back to is
nowhere else.

An interface is its index. Its adapter reports the servers it was given, in order, or the
leased ones when it was given none; these are the IPv4 servers, as text. System calls
succeed.

* `restore_set`: what `setSystemDNS` does to an interface `restoreSystemDNS` undoes.
* `safe_iff`: the local server stays on the default interface, and every interface has its
  own setting while system DNS is not set, exactly in the runs in which the default
  interface changes while system DNS is set only to another, and only while `lastIfc` is
  the one it changes from.
-/

namespace NekoBox.Core

open NekoBox.Lib

namespace SystemDns

/-! ## The code -/

/-- `server.String()` -/
abbrev Addr := String

def localAddr : Addr := "127.1.1.1"

def dhcpMarkAddr : Addr := "127.1.2.3"

def setMarkAddr : Addr := "127.3.2.1"

structure State where
  /-- The name servers of each adapter in the registry, none for DHCP. -/
  nameServer : ℕ → List Addr
  dnsIsSet : Bool
  lastIfc : Option ℕ
  /-- `Monitor.DefaultInterface()` -/
  defaultInterface : Option ℕ

/-- The loop over the servers an adapter reports, with `newDnsServers`, whether a mark was
    found and whether the last one was that of DHCP. -/
structure Scan where
  newDnsServers : List Addr
  wasSet : Bool
  dhcp : Bool

/-- The loop body (lines 142–149 and 186–193). -/
def scanServer (s : Scan) (server : Addr) : Scan :=
  if server = setMarkAddr ∨ server = dhcpMarkAddr then
    { s with wasSet := true, dhcp := server = dhcpMarkAddr }
  else { s with newDnsServers := s.newDnsServers ++ [server] }

def scan (dnsServers : List Addr) : Scan := dnsServers.foldl scanServer ⟨[], false, false⟩

/-- `if len(newDnsServers) > 0 && newDnsServers[0].String() == localAddr` -/
def dropLocal : List Addr → List Addr
  | [] => []
  | server :: servers => if server = localAddr then servers else server :: servers

section

variable (leased : ℕ → List Addr)

/-- `luid.DNS()` -/
def State.dns (s : State) (ifc : ℕ) : List Addr :=
  if s.nameServer ifc = [] then leased ifc else s.nameServer ifc

/-- `luid.SetDNS(AF_INET, servers, nil)` -/
def State.setDNS (s : State) (ifc : ℕ) (servers : List Addr) : State :=
  { s with nameServer := Function.update s.nameServer ifc servers }

/-- `isIfcDNSDhcp` (lines 85–125) -/
def isIfcDNSDhcp (s : State) (ifc : ℕ) : Bool :=
  if dhcpMarkAddr ∈ s.dns leased ifc then true
  else if s.nameServer ifc ≠ [] then false
  else true

/-- `restoreSystemDNS` (lines 127–170) -/
def restoreSystemDNS (ifx : ℕ) (s : State) : State :=
  let scanned := scan (s.dns leased ifx)
  if !scanned.wasSet then s
  else
    let newDnsServers := dropLocal scanned.newDnsServers
    if scanned.dhcp then s.setDNS ifx [] else s.setDNS ifx newDnsServers

/-- `setSystemDNS` (lines 172–222) -/
def setSystemDNS (ifx : ℕ) (s : State) : State :=
  let scanned := scan (s.dns leased ifx)
  let newDnsServers :=
    if scanned.wasSet then dropLocal scanned.newDnsServers else scanned.newDnsServers
  let newDnsServers := localAddr :: newDnsServers
  let dhcp := isIfcDNSDhcp leased s ifx
  if dhcp || scanned.dhcp then s.setDNS ifx (newDnsServers ++ [dhcpMarkAddr])
  else s.setDNS ifx (newDnsServers ++ [setMarkAddr])

/-- `HandleSystemDNS` (lines 27–42) -/
def handleSystemDNS (ifc : Option ℕ) (s : State) : State :=
  match ifc with
  | none => s
  | some ifc =>
    let s := if !s.dnsIsSet then restoreSystemDNS leased ifc s else setSystemDNS leased ifc s
    match s.lastIfc with
    | none => s
    | some last => if last ≠ ifc then restoreSystemDNS leased last s else s

/-- `SetSystemDNS` (lines 228–254), as the server calls it: without an interface. -/
def setSystemDNSRequest (clear : Bool) (s : State) : State :=
  match s.defaultInterface with
  | none => s
  | some ifc =>
    if clear then restoreSystemDNS leased ifc { s with dnsIsSet := false }
    else setSystemDNS leased ifc { s with dnsIsSet := true, lastIfc := some ifc }

inductive Action where
  | setSystemDNS (clear : Bool)
  /-- The monitor finds a default interface, or that there is none, and calls
      `HandleSystemDNS`. -/
  | defaultChanged (ifc : Option ℕ)

def step (s : State) : Action → State
  | .setSystemDNS clear => setSystemDNSRequest leased clear s
  | .defaultChanged ifc => handleSystemDNS leased ifc { s with defaultInterface := ifc }

def machine : Machine State Action := ⟨fun s a => some (step leased s a)⟩

/-- Before the first request: nothing is set. -/
def init (original : ℕ → List Addr) : State := ⟨original, false, none, none⟩

end

/-! ## The property -/

/-- The local server is configured on no interface but the default one, and on none while
    system DNS is not set: then every interface has its own setting. -/
structure Safe (original : ℕ → List Addr) (s : State) : Prop where
  onlyDefault : s.dnsIsSet = true → ∀ i, localAddr ∈ s.nameServer i → s.defaultInterface = some i
  givenBack : s.dnsIsSet = false → ∀ i, s.nameServer i = original i

/-- While system DNS is set the default interface changes only to another one, and only
    while `lastIfc` is the one it changes from. -/
def Harmless (s : State) : Action → Prop
  | .setSystemDNS _ => True
  | .defaultChanged ifc => s.dnsIsSet = true → ifc ≠ none ∧
    (ifc = s.defaultInterface ∨ s.lastIfc = s.defaultInterface)

/-! ## The loop over the servers -/

/-- Not one of the addresses used as marks. -/
def Unmarked (servers : List Addr) : Prop := setMarkAddr ∉ servers ∧ dhcpMarkAddr ∉ servers

theorem foldl_scanServer {servers : List Addr} (h : Unmarked servers) (s : Scan) :
    servers.foldl scanServer s = { s with newDnsServers := s.newDnsServers ++ servers } := by
  induction servers generalizing s with
  | nil => simp
  | cons server servers ih =>
    obtain ⟨hset, hdhcp⟩ := h
    rw [List.mem_cons, not_or] at hset hdhcp
    have hserver : ¬ (server = setMarkAddr ∨ server = dhcpMarkAddr) :=
      not_or.mpr ⟨Ne.symm hset.1, Ne.symm hdhcp.1⟩
    rw [List.foldl_cons, scanServer, if_neg hserver, ih ⟨hset.2, hdhcp.2⟩, List.append_assoc,
      List.singleton_append]

theorem scan_unmarked {servers : List Addr} (h : Unmarked servers) :
    scan servers = ⟨servers, false, false⟩ := by
  unfold scan
  rw [foldl_scanServer h, List.nil_append]

theorem scan_append_mark {servers : List Addr} (h : Unmarked servers) {mark : Addr}
    (hmark : mark = setMarkAddr ∨ mark = dhcpMarkAddr) :
    scan (servers ++ [mark]) = ⟨servers, true, mark = dhcpMarkAddr⟩ := by
  unfold scan
  rw [List.foldl_append, foldl_scanServer h, List.foldl_cons, List.foldl_nil, scanServer,
    if_pos hmark, List.nil_append]

/-- The servers that the loop collects are not marks. -/
theorem unmarked_foldl (servers : List Addr) {s : Scan} (h : Unmarked s.newDnsServers) :
    Unmarked (servers.foldl scanServer s).newDnsServers := by
  induction servers generalizing s with
  | nil => exact h
  | cons server servers ih =>
    rw [List.foldl_cons, scanServer]
    split_ifs with hserver
    · exact ih h
    · rw [not_or] at hserver
      apply ih
      constructor
      · show setMarkAddr ∉ s.newDnsServers ++ [server]
        rw [List.mem_append, List.mem_singleton, not_or]
        exact ⟨h.1, Ne.symm hserver.1⟩
      · show dhcpMarkAddr ∉ s.newDnsServers ++ [server]
        rw [List.mem_append, List.mem_singleton, not_or]
        exact ⟨h.2, Ne.symm hserver.2⟩

theorem unmarked_dropLocal {servers : List Addr} (h : Unmarked servers) :
    Unmarked (dropLocal servers) := by
  cases servers with
  | nil => exact h
  | cons server servers =>
    show Unmarked (if server = localAddr then servers else server :: servers)
    split_ifs
    · exact ⟨fun hm => h.1 (List.mem_cons_of_mem _ hm), fun hm => h.2 (List.mem_cons_of_mem _ hm)⟩
    · exact h

/-- The reported servers that `setSystemDNS` keeps. -/
def keptServers (servers : List Addr) : List Addr :=
  if (scan servers).wasSet then dropLocal (scan servers).newDnsServers
  else (scan servers).newDnsServers

theorem unmarked_keptServers (servers : List Addr) : Unmarked (keptServers servers) := by
  have hnew : Unmarked (scan servers).newDnsServers :=
    unmarked_foldl servers ⟨List.not_mem_nil, List.not_mem_nil⟩
  unfold keptServers
  split_ifs
  · exact unmarked_dropLocal hnew
  · exact hnew

/-! ## Setting and restoring -/

section

variable (leased original : ℕ → List Addr)

/-- What an interface reports that has its own setting. -/
def reported (i : ℕ) : List Addr := if original i = [] then leased i else original i

/-- The mark of its setting. -/
def markOf (i : ℕ) : Addr := if original i = [] then dhcpMarkAddr else setMarkAddr

/-- The name servers of an interface while system DNS is set on it. -/
def marked (i : ℕ) : List Addr :=
  localAddr :: keptServers (reported leased original i) ++ [markOf original i]

/-- What is assumed of the interfaces: a static list has neither the marks nor the local
    server, and of the servers that a DHCP interface is leased `restoreSystemDNS` makes no
    static list, as it would if the last mark among them were `setMarkAddr`. -/
structure Given : Prop where
  static : ∀ i, original i ≠ [] → Unmarked (original i)
  noLocal : ∀ i, localAddr ∉ original i
  dhcp : ∀ i, original i = [] → (scan (leased i)).wasSet = true →
    (scan (leased i)).dhcp = true ∨ dropLocal (scan (leased i)).newDnsServers = []

end

section

variable {leased original : ℕ → List Addr} {i : ℕ} {s : State}

theorem reported_dhcp (hempty : original i = []) : reported leased original i = leased i := by
  unfold reported
  rw [if_pos hempty]

theorem reported_static (hempty : original i ≠ []) : reported leased original i = original i := by
  unfold reported
  rw [if_neg hempty]

theorem mem_marked_local : localAddr ∈ marked leased original i :=
  List.mem_append_left _ List.mem_cons_self

theorem marked_ne_nil : marked leased original i ≠ [] :=
  List.append_ne_nil_of_right_ne_nil _ (List.cons_ne_nil _ _)

theorem unmarked_cons_kept (servers : List Addr) :
    Unmarked (localAddr :: keptServers servers) := by
  have hkept := unmarked_keptServers servers
  constructor
  · rw [List.mem_cons, not_or]
    exact ⟨by decide, hkept.1⟩
  · rw [List.mem_cons, not_or]
    exact ⟨by decide, hkept.2⟩

theorem dns_own (hi : s.nameServer i = original i) :
    s.dns leased i = reported leased original i := by
  unfold State.dns reported
  rw [hi]

theorem dns_marked (hi : s.nameServer i = marked leased original i) :
    s.dns leased i = marked leased original i := by
  unfold State.dns
  rw [hi, if_neg marked_ne_nil]

/-- What the loop finds in the servers of an interface that is set. -/
theorem scan_marked :
    scan (marked leased original i) =
      ⟨localAddr :: keptServers (reported leased original i), true, decide (original i = [])⟩ := by
  unfold marked markOf
  by_cases hdhcp : original i = []
  · rw [if_pos hdhcp, scan_append_mark (unmarked_cons_kept _) (Or.inr rfl), decide_eq_true hdhcp,
      decide_eq_true rfl]
  · rw [if_neg hdhcp, scan_append_mark (unmarked_cons_kept _) (Or.inl rfl),
      decide_eq_false hdhcp, decide_eq_false (by decide)]

/-- `isIfcDNSDhcp` remembers, by the mark, what the registry said. -/
theorem isIfcDNSDhcp_eq (hgiven : Given leased original)
    (hi : s.nameServer i = original i ∨ s.nameServer i = marked leased original i) :
    isIfcDNSDhcp leased s i = decide (original i = []) := by
  unfold isIfcDNSDhcp
  rcases hi with hi | hi
  · rw [dns_own hi, hi]
    by_cases hdhcp : original i = []
    · simp [hdhcp]
    · rw [reported_static hdhcp, if_neg (hgiven.static i hdhcp).2, if_pos hdhcp,
        decide_eq_false hdhcp]
  · rw [dns_marked hi, hi]
    by_cases hdhcp : original i = []
    · rw [if_pos, decide_eq_true hdhcp]
      unfold marked markOf
      rw [if_pos hdhcp]
      exact List.mem_append_right _ (List.mem_singleton.mpr rfl)
    · rw [if_neg, if_pos, decide_eq_false hdhcp]
      · exact marked_ne_nil
      · unfold marked markOf
        rw [if_neg hdhcp, List.mem_append, List.mem_singleton, not_or]
        exact ⟨(unmarked_cons_kept _).2, by decide⟩

/-- `setSystemDNS` leaves the same servers, whether the interface was set or not. -/
theorem setSystemDNS_eq (hgiven : Given leased original)
    (hi : s.nameServer i = original i ∨ s.nameServer i = marked leased original i) :
    setSystemDNS leased i s = s.setDNS i (marked leased original i) := by
  have hdhcp := isIfcDNSDhcp_eq hgiven hi
  have hscan : keptServers (s.dns leased i) = keptServers (reported leased original i) ∧
      (isIfcDNSDhcp leased s i || (scan (s.dns leased i)).dhcp) = decide (original i = []) := by
    rw [hdhcp]
    rcases hi with hi | hi
    · rw [dns_own hi]
      refine ⟨rfl, ?_⟩
      by_cases hempty : original i = []
      · rw [decide_eq_true hempty, Bool.true_or]
      · rw [reported_static hempty, scan_unmarked (hgiven.static i hempty), Bool.or_false]
    · rw [dns_marked hi]
      constructor
      · show (if (scan (marked leased original i)).wasSet then _ else _) = _
        rw [scan_marked]
        rfl
      · rw [scan_marked, Bool.or_self]
  show (if isIfcDNSDhcp leased s i || (scan (s.dns leased i)).dhcp then
      s.setDNS i (localAddr :: keptServers (s.dns leased i) ++ [dhcpMarkAddr])
    else s.setDNS i (localAddr :: keptServers (s.dns leased i) ++ [setMarkAddr])) = _
  rw [hscan.1, hscan.2]
  unfold marked markOf
  by_cases hempty : original i = []
  · rw [if_pos hempty, if_pos (decide_eq_true hempty)]
  · rw [if_neg hempty, if_neg (by simp [hempty])]

theorem setDNS_self (hi : s.nameServer i = original i) : s.setDNS i (original i) = s := by
  unfold State.setDNS
  rw [← hi, Function.update_eq_self]

/-- `restoreSystemDNS` leaves an interface alone that is not set, -/
theorem restoreSystemDNS_own (hgiven : Given leased original)
    (hi : s.nameServer i = original i) : restoreSystemDNS leased i s = s := by
  unfold restoreSystemDNS
  rw [dns_own hi]
  by_cases hempty : original i = []
  · rw [reported_dhcp hempty]
    dsimp only
    cases hset : (scan (leased i)).wasSet with
    | false => rfl
    | true =>
      have hnone : s.setDNS i [] = s := hempty ▸ setDNS_self hi
      rcases hgiven.dhcp i hempty hset with hdhcp | hdrop
      · rw [hdhcp]
        exact hnone
      · rw [hdrop, ite_self]
        exact hnone
  · rw [reported_static hempty, scan_unmarked (hgiven.static i hempty)]
    rfl

/-- and gives one that is its setting back. -/
theorem restoreSystemDNS_marked (hgiven : Given leased original)
    (hi : s.nameServer i = marked leased original i) :
    restoreSystemDNS leased i s = s.setDNS i (original i) := by
  unfold restoreSystemDNS
  rw [dns_marked hi, scan_marked]
  dsimp only
  by_cases hempty : original i = []
  · rw [decide_eq_true hempty, hempty]
    rfl
  · rw [decide_eq_false hempty]
    show s.setDNS i (keptServers (reported leased original i)) = s.setDNS i (original i)
    unfold keptServers
    rw [reported_static hempty, scan_unmarked (hgiven.static i hempty)]
    rfl

theorem restoreSystemDNS_eq (hgiven : Given leased original)
    (hi : s.nameServer i = original i ∨ s.nameServer i = marked leased original i) :
    restoreSystemDNS leased i s = s.setDNS i (original i) := by
  rcases hi with hi | hi
  · rw [restoreSystemDNS_own hgiven hi, setDNS_self hi]
  · exact restoreSystemDNS_marked hgiven hi

/-- **Setting and restoring.** -/
theorem restore_set (hgiven : Given leased original) (hi : s.nameServer i = original i) :
    restoreSystemDNS leased i (setSystemDNS leased i s) = s := by
  rw [setSystemDNS_eq hgiven (Or.inl hi),
    restoreSystemDNS_marked hgiven (Function.update_self _ _ _)]
  unfold State.setDNS
  rw [Function.update_idem, ← hi, Function.update_eq_self]

/-! ## The invariant -/

/-- The interface `i` is set and the default one, and no other is set. -/
structure SetOn (leased original : ℕ → List Addr) (s : State) (i : ℕ) : Prop where
  default : s.defaultInterface = some i
  self : s.nameServer i = marked leased original i
  others : ∀ j, j ≠ i → s.nameServer j = original j

/-- While system DNS is set the default interface is, and otherwise none. -/
structure Inv (leased original : ℕ → List Addr) (s : State) : Prop where
  unset : s.dnsIsSet = false → ∀ i, s.nameServer i = original i
  set : s.dnsIsSet = true → ∃ i, SetOn leased original s i

theorem SetOn.each (h : SetOn leased original s i) (j : ℕ) :
    s.nameServer j = original j ∨ s.nameServer j = marked leased original j := by
  by_cases hj : j = i
  · subst hj
    exact Or.inr h.self
  · exact Or.inl (h.others j hj)

theorem Inv.each (h : Inv leased original s) (j : ℕ) :
    s.nameServer j = original j ∨ s.nameServer j = marked leased original j := by
  cases hset : s.dnsIsSet with
  | false => exact Or.inl (h.unset hset j)
  | true =>
    obtain ⟨i, hi⟩ := h.set hset
    exact hi.each j

theorem Inv.safe (hgiven : Given leased original) (h : Inv leased original s) :
    Safe original s where
  onlyDefault := by
    intro hset j hj
    obtain ⟨i, hi⟩ := h.set hset
    by_cases hji : j = i
    · rw [hji]
      exact hi.default
    · rw [hi.others j hji] at hj
      exact absurd hj (hgiven.noLocal j)
  givenBack := h.unset

theorem inv_init : Inv leased original (init original) where
  unset := fun _ _ => rfl
  set := fun h => absurd h Bool.false_ne_true

end

/-! ## Requests -/

section

variable {leased original : ℕ → List Addr} (hgiven : Given leased original) {s : State}

include hgiven

/-- `SetSystemDNS` clears what it set, and sets one interface only. -/
theorem Inv.request (h : Inv leased original s) (clear : Bool) :
    Inv leased original (setSystemDNSRequest leased clear s) := by
  unfold setSystemDNSRequest
  cases hdefault : s.defaultInterface with
  | none => exact h
  | some i =>
    have hothers : ∀ j, j ≠ i → s.nameServer j = original j := by
      intro j hj
      cases hset : s.dnsIsSet with
      | false => exact h.unset hset j
      | true =>
        obtain ⟨i', hi'⟩ := h.set hset
        obtain rfl : i = i' := Option.some.inj (hdefault.symm.trans hi'.default)
        exact hi'.others j hj
    cases clear with
    | true =>
      let t : State := { s with dnsIsSet := false, defaultInterface := some i }
      show Inv leased original (restoreSystemDNS leased i t)
      rw [@restoreSystemDNS_eq leased original i t hgiven (h.each i)]
      refine ⟨fun _ j => ?_, fun hset => absurd hset Bool.false_ne_true⟩
      show Function.update s.nameServer i (original i) j = original j
      by_cases hj : j = i
      · rw [hj, Function.update_self]
      · rw [Function.update_of_ne hj, hothers j hj]
    | false =>
      let t : State := ⟨s.nameServer, true, some i, some i⟩
      show Inv leased original (setSystemDNS leased i t)
      rw [@setSystemDNS_eq leased original i t hgiven (h.each i)]
      refine ⟨fun hset => absurd hset.symm Bool.false_ne_true,
        fun _ => ⟨i, rfl, ?_, fun j hj => ?_⟩⟩
      · exact Function.update_self _ _ _
      · show Function.update s.nameServer i _ j = original j
        rw [Function.update_of_ne hj, hothers j hj]

/-! ## Changes of the default interface -/

/-- While system DNS is not set, `HandleSystemDNS` changes nothing. -/
theorem handleSystemDNS_unset (hset : s.dnsIsSet = false)
    (hown : ∀ i, s.nameServer i = original i) (ifc : Option ℕ) :
    handleSystemDNS leased ifc s = s := by
  have hrestore : ∀ i, restoreSystemDNS leased i s = s := fun i =>
    restoreSystemDNS_own hgiven (hown i)
  unfold handleSystemDNS
  cases ifc with
  | none => rfl
  | some ifc =>
    dsimp only
    rw [if_pos (by rw [hset]; rfl), hrestore]
    cases s.lastIfc with
    | none => rfl
    | some last =>
      dsimp only
      rw [hrestore, ite_self]

section

variable (hset : s.dnsIsSet = true)
  (heach : ∀ k, s.nameServer k = original k ∨ s.nameServer k = marked leased original k)

include hset heach

/-- While it is set, `HandleSystemDNS` sets the new interface, -/
theorem handleSystemDNS_set {j : ℕ} (hlast : ∀ last, s.lastIfc = some last → last = j) :
    handleSystemDNS leased (some j) s = s.setDNS j (marked leased original j) := by
  unfold handleSystemDNS
  dsimp only
  rw [if_neg (by rw [hset]; decide), setSystemDNS_eq hgiven (heach j)]
  show (match s.lastIfc with
    | none => s.setDNS j (marked leased original j)
    | some last => if last ≠ j then _ else s.setDNS j (marked leased original j)) = _
  cases h : s.lastIfc with
  | none => rfl
  | some last =>
    dsimp only
    rw [if_neg (not_not.mpr (hlast last h))]

/-- and restores the one that is remembered, if that is another. -/
theorem handleSystemDNS_restore {j last : ℕ} (hlast : s.lastIfc = some last) (hne : last ≠ j) :
    handleSystemDNS leased (some j) s =
      (s.setDNS j (marked leased original j)).setDNS last (original last) := by
  have hafter : (s.setDNS j (marked leased original j)).nameServer last = original last ∨
      (s.setDNS j (marked leased original j)).nameServer last = marked leased original last := by
    show Function.update s.nameServer j _ last = _ ∨ Function.update s.nameServer j _ last = _
    rw [Function.update_of_ne hne]
    exact heach last
  unfold handleSystemDNS
  dsimp only
  rw [if_neg (by rw [hset]; decide), setSystemDNS_eq hgiven (heach j)]
  show (match s.lastIfc with
    | none => s.setDNS j (marked leased original j)
    | some last => if last ≠ j then
        restoreSystemDNS leased last (s.setDNS j (marked leased original j))
      else s.setDNS j (marked leased original j)) = _
  rw [hlast]
  dsimp only
  rw [if_pos hne, restoreSystemDNS_eq hgiven hafter]

end

end

/-! ## Steps -/

section

variable {leased original : ℕ → List Addr} (hgiven : Given leased original) {s : State}

include hgiven

/-- While system DNS is set on `i`, a change to `j` leaves `j` set, and no other if `i` is `j`
    or the interface that is remembered. -/
theorem SetOn.change {i j : ℕ} (h : SetOn leased original s i) (hset : s.dnsIsSet = true)
    (hleft : j = i ∨ s.lastIfc = some i) :
    Inv leased original (handleSystemDNS leased (some j) { s with defaultInterface := some j }) := by
  let t : State := ⟨s.nameServer, s.dnsIsSet, s.lastIfc, some j⟩
  show Inv leased original (handleSystemDNS leased (some j) t)
  have hother : ∀ k, k ≠ j → k ≠ i → s.nameServer k = original k := fun k _ hk => h.others k hk
  by_cases hlast : ∀ last, t.lastIfc = some last → last = j
  · have hji : j = i := by
      rcases hleft with hji | hremembered
      · exact hji
      · exact (hlast i hremembered).symm
    rw [@handleSystemDNS_set leased original hgiven t hset h.each j hlast]
    refine ⟨fun hunset => absurd (hunset.symm.trans hset) Bool.false_ne_true,
      fun _ => ⟨j, rfl, Function.update_self _ _ _, fun k hk => ?_⟩⟩
    show Function.update s.nameServer j _ k = original k
    rw [Function.update_of_ne hk]
    exact h.others k (hji ▸ hk)
  · push Not at hlast
    obtain ⟨last, hlast, hne⟩ := hlast
    rw [@handleSystemDNS_restore leased original hgiven t hset h.each j last hlast hne]
    refine ⟨fun hunset => absurd (hunset.symm.trans hset) Bool.false_ne_true,
      fun _ => ⟨j, rfl, ?_, fun k hk => ?_⟩⟩
    · show Function.update (Function.update s.nameServer j _) last _ j = _
      rw [Function.update_of_ne hne.symm, Function.update_self]
    · show Function.update (Function.update s.nameServer j _) last _ k = original k
      by_cases hk' : k = last
      · rw [hk', Function.update_self]
      · rw [Function.update_of_ne hk', Function.update_of_ne hk]
        apply h.others
        rcases hleft with hji | hremembered
        · exact hji ▸ hk
        · exact Option.some.inj (hlast.symm.trans hremembered) ▸ hk'

/-- Otherwise `i` stays set. -/
theorem SetOn.not_safe {i j : ℕ} (h : SetOn leased original s i) (hset : s.dnsIsSet = true)
    (hji : j ≠ i) (hlast : s.lastIfc ≠ some i) :
    ¬ Safe original
      (handleSystemDNS leased (some j) { s with defaultInterface := some j }) := by
  let t : State := ⟨s.nameServer, s.dnsIsSet, s.lastIfc, some j⟩
  show ¬ Safe original (handleSystemDNS leased (some j) t)
  have hstays : ∀ nameServer : ℕ → List Addr, nameServer i = marked leased original i →
      ¬ Safe original ⟨nameServer, s.dnsIsSet, s.lastIfc, some j⟩ := by
    intro nameServer hi hsafe
    have hlocal : localAddr ∈ nameServer i := by
      rw [hi]
      exact mem_marked_local
    exact hji (Option.some.inj (hsafe.onlyDefault hset i hlocal))
  by_cases hsame : ∀ last, t.lastIfc = some last → last = j
  · rw [@handleSystemDNS_set leased original hgiven t hset h.each j hsame]
    apply hstays
    rw [Function.update_of_ne hji.symm]
    exact h.self
  · push Not at hsame
    obtain ⟨last, hother, hne⟩ := hsame
    have hi : i ≠ last := fun hi => hlast (hi ▸ hother)
    rw [@handleSystemDNS_restore leased original hgiven t hset h.each j last hother hne]
    apply hstays
    show Function.update (Function.update s.nameServer j _) last _ i = _
    rw [Function.update_of_ne hi, Function.update_of_ne hji.symm, h.self]

theorem Inv.step (h : Inv leased original s) {a : Action} (ha : Harmless s a) :
    Inv leased original (SystemDns.step leased s a) := by
  cases a with
  | setSystemDNS clear => exact h.request hgiven clear
  | defaultChanged ifc =>
    show Inv leased original (handleSystemDNS leased ifc { s with defaultInterface := ifc })
    cases hset : s.dnsIsSet with
    | false =>
      let t : State := ⟨s.nameServer, false, s.lastIfc, ifc⟩
      show Inv leased original (handleSystemDNS leased ifc t)
      rw [@handleSystemDNS_unset leased original hgiven t rfl (h.unset hset) ifc]
      exact ⟨fun _ => h.unset hset, fun hset' => absurd hset' Bool.false_ne_true⟩
    | true =>
      obtain ⟨i, hi⟩ := h.set hset
      obtain ⟨hsome, hleft⟩ := ha hset
      obtain ⟨j, rfl⟩ := Option.ne_none_iff_exists'.mp hsome
      rw [hi.default] at hleft
      have hchange := hi.change hgiven hset (hleft.imp_left Option.some.inj)
      rw [hset] at hchange
      exact hchange

/-- **One step.** -/
theorem safe_step_iff (h : Inv leased original s) (a : Action) :
    Safe original (SystemDns.step leased s a) ↔ Harmless s a := by
  refine ⟨fun hsafe => ?_, fun ha => (h.step hgiven ha).safe hgiven⟩
  cases a with
  | setSystemDNS clear => trivial
  | defaultChanged ifc =>
    intro hset
    obtain ⟨i, hi⟩ := h.set hset
    rw [hi.default]
    cases ifc with
    | none =>
      have hdefault : none = some i :=
        hsafe.onlyDefault hset i (hi.self ▸ mem_marked_local)
      exact absurd hdefault (Option.some_ne_none i).symm
    | some j =>
      refine ⟨Option.some_ne_none j, ?_⟩
      by_contra hleft
      rw [not_or, Option.some_inj] at hleft
      exact hi.not_safe hgiven hset hleft.1 hleft.2 hsafe

/-- **System DNS is given back.** -/
theorem safe_iff (is : List Action) :
    (machine leased).Along (fun s a => Safe original (step leased s a)) (init original) is ↔
      (machine leased).Along Harmless (init original) is := by
  apply Machine.along_iff (Inv leased original)
  · intro s a h
    exact safe_step_iff hgiven h a
  · intro s a s' h ha hs'
    obtain rfl : SystemDns.step leased s a = s' := Option.some.inj hs'
    exact h.step hgiven ha
  · exact inv_init

end

/-! ## Two sample runs -/

instance (s : State) : ∀ a, Decidable (Harmless s a)
  | .setSystemDNS _ => isTrue trivial
  | .defaultChanged ifc => inferInstanceAs (Decidable (_ → ifc ≠ none ∧
      (ifc = s.defaultInterface ∨ s.lastIfc = s.defaultInterface)))

def sampleLeased (_ : ℕ) : List Addr := ["192.168.0.1"]

/-- The second interface has a static list. -/
def sampleOriginal (i : ℕ) : List Addr := if i = 2 then ["8.8.8.8", "1.1.1.1"] else []

theorem given_sample : Given sampleLeased sampleOriginal where
  static := by
    intro i hi
    unfold sampleOriginal at hi ⊢
    split_ifs at hi ⊢
    · exact ⟨by decide, by decide⟩
    · exact absurd rfl hi
  noLocal := by
    intro i
    unfold sampleOriginal
    split_ifs <;> decide
  dhcp := by
    intro i _ hset
    exact absurd (show (scan ["192.168.0.1"]).wasSet = true from hset) (by decide)

/-- System DNS is set on the first interface, given to the second and cleared. -/
def sampleRun : List Action :=
  [.defaultChanged (some 1), .setSystemDNS false, .defaultChanged (some 2), .setSystemDNS true]

theorem safe_sampleRun :
    (machine sampleLeased).Along (fun s a => Safe sampleOriginal (step sampleLeased s a))
      (init sampleOriginal) sampleRun :=
  (safe_iff given_sample sampleRun).mpr (by decide)

/-- The default interface changes once more before the clear: the second one keeps the local
    server and a mark. -/
def twoChanges : List Action :=
  [.defaultChanged (some 1), .setSystemDNS false, .defaultChanged (some 2),
    .defaultChanged (some 3), .setSystemDNS true]

theorem second_interface_stays_set :
    ¬ ∀ (leased original : ℕ → List Addr), Given leased original → ∀ is : List Action,
      (machine leased).Along (fun s a => Safe original (step leased s a)) (init original) is := by
  intro h
  obtain ⟨-, h⟩ := h sampleLeased sampleOriginal given_sample twoChanges
  obtain ⟨-, h⟩ := h _ rfl
  obtain ⟨-, h⟩ := h _ rfl
  obtain ⟨-, h⟩ := h _ rfl
  obtain ⟨hcleared, -⟩ := h _ rfl
  exact absurd (hcleared.givenBack rfl 2) (by decide)

end SystemDns

end NekoBox.Core
