import NekoBox.Lib.WorkList
import NekoBox.Store.Json
import NekoBox.Subscription.Text

/-!
# The import loop of a subscription

`RawUpdater::update` (`GroupUpdater.cpp`, lines 834–1176): a list of texts, each
of which is unwrapped from base64 up to 32 times and then imported, or replaced
by the texts found in it. The parsers and the decryptor are parameters; what is
handed to an importer is recorded as an `Import`.

`RawUpdater.expand` is one turn of the loop, `RawUpdater.step` the turn on the
list and the record.
-/

namespace NekoBox.Subscription

open NekoBox.Lib NekoBox.Qt NekoBox.Store

/-- The members of a `QJsonObject`. -/
abbrev Members := List (String × Json)

/-- `object[key]`. -/
def memberValue (ms : Members) (key : String) : Json :=
  ((ms.find? fun m => m.1 = key).map Prod.snd).getD .null

/-- `object.contains(key)`. -/
def hasMember (ms : Members) (key : String) : Bool := ms.any fun m => m.1 = key

/-- What the loop hands to an importer. -/
inductive Import where
  | fullJson (json : Members) (remarks : String)
  | singBox (json : Members) (remarks : String)
  | sip008 (json : Members)
  | clash (str : String)
  | wireguard (str : String)
  | nekoray (str : String)
  | link (scheme : String) (str : String)

/-- The code outside the loop: Qt's decoding, JSON parser and character classes,
    the YAML, INI and link importers with their results, and the decryptor. -/
structure Importers where
  fromUtf8 : Bytes → String
  fromJson : String → Option Json
  isLetterOrNumber : Char → Bool
  toLower : String → String
  updateClash : String → Bool
  updateWireguardFileConfig : String → Bool
  convertV2RayNToSingBox : Members → Members
  tryParseNekorayLink : String → Bool
  tryParseLink : String → String → Bool
  decryptLink : String → String

/-- What a turn of the loop appends to the list, and what it imports. -/
abbrev Turn := List String × List Import

def trimmedString (s : String) : String := String.ofList (trimmed s.toList)

section

variable (E : Importers)

/-! ## Texts in JSON -/

/-- `toString().trimmed()` of a member. -/
def memberLink (ms : Members) (key : String) : String :=
  match memberValue ms key with
  | .string s => trimmedString s
  | _ => ""

/-- `object["remarks"].toString()`. -/
def remarks (ms : Members) : String :=
  match memberValue ms "remarks" with
  | .string s => s
  | _ => ""

/-- The first of the four keys that holds a text. -/
def firstLink (ms : Members) : Option String :=
  (["proxy", "url", "uri", "link"].map (memberLink ms)).find? (· ≠ "")

/-- `addFullJsonProxy` or `updateSingBox`, by what else the object holds. -/
def importConfig (ms : Members) : Import :=
  if hasMember ms "inbounds" || hasMember ms "routing" || hasMember ms "route" || hasMember ms "dns" then
    .fullJson ms (remarks ms)
  else .singBox ms (remarks ms)

/-- The branches of `importJsonValue` for an object before its nested lists
    (lines 886–921). `none` falls through to them. -/
def importObject (ms : Members) : Option Turn :=
  match firstLink ms with
  | some link => some ([link], [])
  | none =>
    if hasMember ms "outbounds" || hasMember ms "endpoints" then some ([], [importConfig ms])
    else if hasMember ms "type" then
      some ([], [.singBox [("outbounds", .array [.object ms])] (remarks ms)])
    else if hasMember ms "protocol" && E.convertV2RayNToSingBox ms ≠ [] then
      some ([], [.singBox [("outbounds", .array [.object (E.convertV2RayNToSingBox ms)])] (remarks ms)])
    else none

mutual

/-- `importJsonValue` (lines 876–929): its result, and what it does. -/
def importJsonValue : Json → Bool × Turn
  | .string s => (trimmedString s ≠ "", if trimmedString s ≠ "" then [trimmedString s] else [], [])
  | .object ms =>
    match importObject E ms with
    | some turn => (true, turn)
    | none =>
      let nodes := importMember "nodes" ms
      let configs := importMember "configs" ms
      let items := importMember "items" ms
      (nodes.1 || configs.1 || items.1, nodes.2.1 ++ configs.2.1 ++ items.2.1,
        nodes.2.2 ++ configs.2.2 ++ items.2.2)
  | _ => (false, [], [])

/-- The loop over `object[key].toArray()`. -/
def importMember (key : String) : Members → Bool × Turn
  | [] => (false, [], [])
  | (k, v) :: ms => if k = key then importArray v else importMember key ms

def importArray : Json → Bool × Turn
  | .array l => importElems l
  | _ => (false, [], [])

def importElems : List Json → Bool × Turn
  | [] => (false, [], [])
  | v :: l =>
    let first := importJsonValue v
    let rest := importElems l
    (first.1 || rest.1, first.2.1 ++ rest.2.1, first.2.2 ++ rest.2.2)

end

/-! ## One turn -/

/-- `loop:` (lines 938–948): unwrap while the text is valid base64 and `i > 0`. -/
def unwrap : ℕ → String → String
  | 0, str => str
  | i + 1, str =>
    let str2 := decodeB64IfValid str.toList
    if str2 ≠ [] then unwrap i (E.fromUtf8 str2) else str

/-- A server of SIP008 in an array (lines 1006–1014), with its port. -/
def sip008Server (ms : Members) : Option Members :=
  if hasMember ms "method" && hasMember ms "server" &&
      (hasMember ms "server_port" || hasMember ms "port") then
    some (if hasMember ms "server_port" then ms else ms ++ [("server_port", memberValue ms "port")])
  else none

/-- The loop over a top-level array: the servers found, and the turns of the
    other elements. -/
def importTopArray : List Json → List Json × Turn
  | [] => ([], [], [])
  | v :: l =>
    let rest := importTopArray l
    match v with
    | .object ms =>
      match sip008Server ms with
      | some server => (.object server :: rest.1, rest.2)
      | none =>
        let turn := (importJsonValue E v).2
        (rest.1, turn.1 ++ rest.2.1, turn.2 ++ rest.2.2)
    | _ =>
      let turn := (importJsonValue E v).2
      (rest.1, turn.1 ++ rest.2.1, turn.2 ++ rest.2.2)

/-- A JSON document (lines 1003–1064). At `parse_json` a document has neither
    outbounds nor endpoints nor a type, and nothing is done. -/
def importDocument (str : String) : Json → Turn
  | .array l =>
    let found := importTopArray E l
    (found.2.1, found.2.2 ++
      if found.1 ≠ [] then
        [.sip008 [("version", .number (.ofInt 1)), ("servers", .array found.1)]]
      else [])
  | .object ms =>
    if hasMember ms "outbounds" || hasMember ms "endpoints" then ([], [importConfig ms])
    else
      match memberValue ms "servers", memberValue ms "proxies" with
      | .array _, _ => ([], [.sip008 ms])
      | _, .array _ =>
        if E.updateClash str then ([], [.clash str]) else (importJsonValue E (.object ms)).2
      | _, _ => (importJsonValue E (.object ms)).2
  | _ => ([], [])

/-- The last part of a turn (lines 1116–1173), for a text in one line. -/
def importLink (str : String) (scheme : Option ℕ) : Turn :=
  if "//".toList <+: str.toList ∨ "#".toList <+: str.toList ∨
      (str.toList.flatMap utf16).length < 2 then ([], [])
  else
    match scheme with
    | none => ([], [])
    | some colon =>
      let scheme := E.toLower (String.ofList (str.toList.take colon))
      if scheme = "happ" then
        if E.decryptLink str ≠ "" then ([E.decryptLink str], []) else ([], [])
      else if scheme = "nekoray" then
        ([], if E.tryParseNekorayLink str then [.nekoray str] else [])
      else ([], if E.tryParseLink scheme str then [.link scheme str] else [])

/-- The pieces of a text in several lines (lines 1083–1098), or the link. -/
def importLines (str : String) (scheme : Option ℕ) : Turn :=
  if '\n' ∈ str.toList then
    ((disect str.toList).map fun piece => String.ofList (trimmed piece), [])
  else importLink E str scheme

/-- One turn of the loop on a text. -/
def turn (text : String) : Turn :=
  let str := unwrap E 32 text
  match schemeIndex E.isLetterOrNumber str.toList with
  | some colon => importLines E str (some colon)
  | none =>
    match E.fromJson str with
    | some document => importDocument E str document
    | none =>
      if E.updateClash str then ([], [.clash str])
      else if E.updateWireguardFileConfig str then ([], [.wireguard str])
      else importLines E str none

/-- What a turn appends to the list. -/
def expand (text : String) : List String := (turn E text).1

/-- The loop from `ret_loop` to the next `ret_loop`. -/
def step (st : List String × List Import) : List String × List Import :=
  match st.1 with
  | [] => st
  | text :: stack => (stack ++ (turn E text).1, st.2 ++ (turn E text).2)

/-- `RawUpdater::update` returns: its list of texts becomes empty. -/
def Returns (str3 : String) : Prop := ∃ n : ℕ, ((step E)^[n] ([str3], [])).1 = []

end

end NekoBox.Subscription
