import NekoBox.Link.Presets
import NekoBox.Link.Query

/-!
# Fields of several beans

The helpers of `AbstractBeanExtra.hpp`, `Bean2Link.cpp`, `Link2Bean.cpp` and
`Json2Bean.cpp` for the fields that several beans have: network, multiplexing and
UDP over TCP.

* `linkNetwork_zero`: no network is read of a link;
* `networkName_valueOf`: JSON gives the network back.
-/

namespace NekoBox.Link

open NekoBox.Config NekoBox.Lib NekoBox.Qt NekoBox.Store

/-! ## Definitions -/

/-- `add_non_empty` -/
def nonEmptyMember (key value : String) : JsonObject :=
  if value = "" then [] else [(key, .string value)]

/-- `From_Link::add_mux_state` -/
def linkMuxState (query : QUrlQuery) : ℤ :=
  let mux := getQueryValue query "mux" ""
  if mux = "true" then 1 else if mux = "false" then 2 else 0

/-- `To_Link::add_mux_state` -/
def addMuxState (query : QUrlQuery) (muxState : ℤ) : QUrlQuery :=
  if muxState = 0 then query else addQueryBoolean query "mux" (muxState = 1)

/-- `From_Link::add_network` sets the network only if the link has none, and to no
    network then. -/
def linkNetwork (network : ℤ) (query : QUrlQuery) : ℤ :=
  let name := getQueryValue query "network" ""
  if name = "" then networkEnum.valueOf name else network

/-- `From_Link::add_udp_over_tcp` -/
def linkUdpOverTcp (query : QUrlQuery) : ℤ :=
  getQueryIntValue query "uot" (getQueryIntValue query "udp_over_tcp" 0)

/-- `To_Link::add_udp_over_tcp` -/
def addUdpOverTcp (query : QUrlQuery) (uot : ℤ) : QUrlQuery :=
  if 1 ≤ uot ∧ uot ≤ 2 then addQueryInt query "uot" uot else query

/-- `udp_over_tcp_object` -/
def udpOverTcpObject (version : ℤ) : Json :=
  if version = 0 then .bool false
  else .object [("enabled", .bool true), ("version", jsonInt version)]

/-- `From_Json::add_mux_state` -/
def jsonMuxState (T : Node.NumberText) (obj : Node) : ℤ :=
  if (obj.get "multiplex").isObject then
    if ((obj.get "multiplex").get "enabled").toBool T then 1 else 2
  else 0

/-- The flag as a number. -/
def boolInt (b : Bool) : ℤ := if b then 1 else 0

/-- `From_Json::parseUOT` -/
def parseUOT (T : Node.NumberText) (obj : Node) : ℤ :=
  let uotObj := obj.get "uot"
  let uot := boolInt ((obj.get "udp_over_tcp").toBool T)
  if uotObj.isNumber then uotObj.toInt T
  else if uotObj.isBool then boolInt (uotObj.toBool T)
  else if uotObj.isObject then
    if (uotObj.get "enabled").toBool T then
      if (uotObj.get "version").isNumber then (uotObj.get "version").toInt T else 1
    else 0
  else uot

/-- `From_Json::add_network` -/
def jsonNetwork (T : Node.NumberText) (network : ℤ) (obj : Node) : ℤ :=
  if (obj.get "network").isString then networkEnum.valueOf ((obj.get "network").toString T)
  else network

/-- `From_Json::add_default_fields` -/
def Entity.ofNode (T : Node.NumberText) (obj : Node) : Entity where
  name := (obj.get "tag").toString T
  serverAddress := (obj.get "server").toString T
  serverPort := (obj.get "server_port").toInt T

/-! ## Their results -/

theorem nonEmptyMember_inj {key s t : String} (h : nonEmptyMember key s = nonEmptyMember key t) :
    s = t := by
  unfold nonEmptyMember at h
  split_ifs at h with hs ht ht
  · exact hs.trans ht.symm
  · simpa using h

theorem key_nonEmptyMember {key value : String} {m : String × Json}
    (h : m ∈ nonEmptyMember key value) : m.1 = key := by
  unfold nonEmptyMember at h
  split_ifs at h
  · cases h
  · rw [List.mem_singleton.mp h]

/-- The network is not read. -/
theorem linkNetwork_zero (query : QUrlQuery) : linkNetwork 0 query = 0 := by
  show (if getQueryValue query "network" "" = "" then _ else (0 : ℤ)) = 0
  split_ifs with h
  · rw [h]
    decide
  · rfl

/-- A network comes back by its name. -/
theorem networkName_valueOf (network : ℤ) :
    networkName (if networkName network = "" then 0
      else networkEnum.valueOf (networkName network)) = networkName network := by
  by_cases hname : networkName network = ""
  · rw [if_pos hname, hname]
    rfl
  rw [if_neg hname]
  unfold networkName at hname ⊢
  by_cases hpos : 0 < network
  · rw [if_pos hpos] at hname ⊢
    have hhigh : network < 1 + 2 := by
      by_contra hlarge
      refine hname ?_
      unfold Enumeration.nameOf
      rw [if_neg (by show ¬ network < 1; omega)]
      exact List.getD_eq_default _ _ (by show 2 ≤ (network - 1).toNat; omega)
    rw [Enumeration.valueOf_nameOf (e := networkEnum) (by decide) hpos hhigh, if_pos hpos]
  · rw [if_neg hpos] at hname
    exact absurd rfl hname

/-- The flag of UDP over TCP is read, and not its version. -/
theorem toBool_udpOverTcpObject (T : Node.NumberText) (version : ℤ) :
    (Node.ofJson (udpOverTcpObject version)).toBool T = decide (version ≠ 0) := by
  unfold udpOverTcpObject
  by_cases hzero : version = 0
  · rw [if_pos hzero, hzero]
    simp [Node.ofJson, Node.toBool, Node.toNumber]
  · rw [if_neg hzero, decide_eq_true hzero]
    rfl

end NekoBox.Link
