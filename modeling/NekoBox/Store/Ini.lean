import NekoBox.Lib.PathMap
import NekoBox.Store.Value
import NekoBox.Qt.Text

/-!
# The INI format of a store

`JsonStore::SaveINI` and `LoadINI` (`Configs.cpp`, lines 99–141) and the
`SaveINI` and `LoadINI` of every kind of field (`ConfigItem.cpp`, lines
183–372). Both work on a `QSettings` file, a map from paths to variants: a
field of a store at path `p` lies at `p ++ [name]`, a nested store below it, and
element `i` of a list of stores below `p ++ [name, i]`.

`SaveINI` edits the file that is there, field by field. `LoadINI` runs over the
keys and the groups it finds at the path of the store, and loads the field with
the hash of each. A name that is both a key and a group is loaded twice.

* `loadStore_eq`: one pass of that loop, without the fuel.
-/

namespace NekoBox.Store

open NekoBox.Lib NekoBox.Qt

/-! ## Files -/

abbrev Path := List String

instance transOrd_path : Std.TransOrd Path := inferInstance

/-- The `QVariant`s that a store writes. -/
inductive Variant where
  | invalid
  | int (v : BitVec 32)
  | long (v : BitVec 64)
  | double (bits : BitVec 64)
  | bool (v : Bool)
  | string (s : String)
  | stringList (l : List String)
  deriving DecidableEq

abbrev Settings := PathMap String Variant

/-- The conversions of a `QVariant`. Each is the identity on its own type. -/
structure Conversions where
  toInt : Variant → BitVec 32
  toLongLong : Variant → BitVec 64
  toDouble : Variant → BitVec 64
  toBool : Variant → Bool
  toString : Variant → String
  toStringList : Variant → List String
  toInt_int : ∀ v, toInt (.int v) = v
  toLongLong_long : ∀ v, toLongLong (.long v) = v
  toDouble_double : ∀ v, toDouble (.double v) = v
  toBool_bool : ∀ v, toBool (.bool v) = v
  toString_string : ∀ s, toString (.string s) = s
  toStringList_stringList : ∀ l, toStringList (.stringList l) = l

/-- `QSettings::value(key, defaultValue)`. -/
def value (ini : Settings) (p : Path) (default : Variant) : Variant := (ini[p]?).getD default

/-- The path of a key inside a group: `QSettings` splits keys at slashes, and
    ignores superfluous ones. -/
def segments (key : String) : Path :=
  ((key.toList.splitOn '/').filter fun s => s ≠ []).map String.ofList

/-- `QSettings::setValue` inside a group. An empty key is not set. -/
def setValue (ini : Settings) (group : Path) (key : String) (v : Variant) : Settings :=
  match segments key with
  | [] => ini
  | s :: r => ini.insert (group ++ s :: r) v

/-- The group of element `i` of a list. -/
def indexName (i : ℕ) : String := String.ofList (number i)

/-- `QListInt2QListStr` (`Utils.cpp`, lines 367–373). -/
def listIntToListStr (l : List (BitVec 32)) : List String :=
  l.map fun v => String.ofList (number v.toInt)

/-- `QListStr2QListInt` (lines 359–365). -/
def listStrToListInt (l : List String) : List (BitVec 32) :=
  l.map fun s => BitVec.ofInt 32 ((toInt s.toList).getD 0)

/-! ## Saving -/

mutual

/-- `SaveINI` of the field at path `p` (`ConfigItem.cpp`, lines 291–372). -/
def saveVal (p : Path) : Val → Settings → Settings
  | .int v, ini => ini.insert p (.int v)
  | .double v, ini => ini.insert p (.double v)
  | .long v, ini => ini.insert p (.long v)
  | .bool v, ini => ini.insert p (.bool v)
  | .boolPtr v, ini => ini.insert p (.bool v)
  | .str v, ini => ini.insert p (.string v)
  | .strList v, ini => ini.insert p (.stringList v)
  | .intList v, ini => ini.insert p (.stringList (listIntToListStr v))
  | .strMap m, ini =>
    m.toList.foldl (fun ini e => setValue ini p e.1 (.string e.2)) (PathMap.removeGroup ini p)
  | .enum _ none, ini => ini
  | .enum map (some v), ini => ini.insert p (.string (map.toString v))
  | .jsonShared none, ini => ini
  | .jsonShared (some st), ini => saveINI p st ini
  | .jsonStore none, ini => ini
  | .jsonStore (some st), ini => saveINI p st ini
  | .jsonStoreList _ elems, ini => saveElems p 0 elems ini

/-- `JsonStore::SaveINI` (`Configs.cpp`, lines 99–106) of the store at `path`. -/
def saveINI (path : Path) : List (String × Val) → Settings → Settings
  | [], ini => ini
  | (name, v) :: rest, ini => saveINI path rest (saveVal (path ++ [name]) v ini)

/-- The loop of `SAVE_CONF(jsonStoreList)` from `index` on. -/
def saveElems (p : Path) : ℕ → List (List (String × Val)) → Settings → Settings
  | _, [], ini => ini
  | index, st :: rest, ini => saveElems p (index + 1) rest (saveINI (p ++ [indexName index]) st ini)

end

/-! ## Loading -/

section Loading

variable (hash : String → Bytes) (conv : Conversions) (ini : Settings)

/-- `LOAD_CONF(strMap)` (`ConfigItem.cpp`, lines 228–236). -/
def loadStrMap (p : Path) : VariantMap :=
  (ini.childKeys p).foldl
    (fun m key => m.insert key (conv.toString (value ini (p ++ [key]) (.string "")))) ∅

/-- The element whose index the group `st` names is loaded from it. -/
def loadElem (load : Path → Obj → Obj) (p : Path) (elems : List Obj) (st : String) : List Obj :=
  match toInt st.toList with
  | some key => if 0 ≤ key then elems.modify key.toNat (load (p ++ [st])) else elems
  | none => elems

/-- `LOAD_CONF(jsonStoreList)` (lines 260–289): one fresh element for each
    group, behind the elements that are there. -/
def loadElems (load : Path → Obj → Obj) (p : Path) (fresh : Obj) (elems : List Obj) : List Obj :=
  (ini.childGroups p).foldl (loadElem load p)
    (elems ++ List.replicate (ini.childGroups p).length fresh)

/-- `LoadINI` of the field at path `p` (lines 188–289), with `load` for the
    `LoadINI` of a store. -/
def loadItem (load : Path → Obj → Obj) (p : Path) : Val → Val
  | .int _ => .int (conv.toInt (value ini p (.int 0)))
  | .double _ => .double (conv.toDouble (value ini p (.int 0)))
  | .long _ => .long (conv.toLongLong (value ini p (.int 0)))
  | .bool _ => .bool (conv.toBool (value ini p (.bool false)))
  | .boolPtr _ => .boolPtr (conv.toBool (value ini p (.bool false)))
  | .str _ => .str (conv.toString (value ini p (.string "")))
  | .strList _ => .strList (conv.toStringList (value ini p .invalid))
  | .intList _ => .intList (listStrToListInt (conv.toStringList (value ini p .invalid)))
  | .strMap _ => .strMap (loadStrMap conv ini p)
  | .enum map v => .enum map (v.map fun _ => map.set (conv.toString (value ini p (.string ""))))
  | .jsonShared st => .jsonShared (st.map (load p))
  | .jsonStore st => .jsonStore (st.map (load p))
  | .jsonStoreList fresh elems => .jsonStoreList fresh (loadElems ini load p fresh elems)

/-- The names over which `LoadINI` of the store at `path` runs. -/
def children (path : Path) : List String := ini.childKeys path ++ ini.childGroups path

/-- One step of that loop: the field with the hash of the key is loaded, from
    the path of its own name. -/
def loadChild (load : Path → Obj → Obj) (path : Path) (t : Obj) (key : String) : Obj :=
  match List.find? (fun f => hash f.1 = hash key) t with
  | some (name, v) => Obj.set hash t (hash key) (loadItem conv ini load (path ++ [name]) v)
  | none => t

/-- `JsonStore::LoadINI` (`Configs.cpp`, lines 108–133) of the store at `path`.
    The fuel bounds the nesting: no path of the file is longer than its depth. -/
def loadStore : ℕ → Path → Obj → Obj
  | 0, _, t => t
  | fuel + 1, path, t =>
    (children ini path).foldl (loadChild hash conv ini (loadStore fuel) path) t

/-- `JsonStore::LoadINI` of the file. `subscribed` is `none` for a class without
    `fallback()`. The only other class is `Group`: when the file has a name that
    is no field, its `GroupExtra` is loaded too, and `fallback_job` (`Group.cpp`,
    lines 80–85) sets `is_subscription` if that has a url. -/
def loadINI (subscribed : Option Bool) (t : Obj) : Obj :=
  let t' := loadStore hash conv ini ini.depth [] t
  if ∃ key ∈ children ini [], Obj.find hash t (hash key) = none then
    match subscribed with
    | none => t'
    | some url => Obj.set hash t' (hash "is_subscription") (.bool url)
  else t'

variable {hash conv ini}

/-- The fuel plays no role: where it has run out, there is nothing to load. -/
theorem loadStore_eq {fuel : ℕ} {path : Path} (h : ini.depth ≤ fuel + path.length) (t : Obj) :
    loadStore hash conv ini fuel path t =
      (children ini path).foldl (loadChild hash conv ini (loadStore hash conv ini (fuel - 1)) path) t := by
  match fuel with
  | 0 =>
    have hdepth : ini.depth ≤ path.length := by omega
    have hnil : children ini path = [] := by
      simp [children, PathMap.childKeys_of_depth_le hdepth, PathMap.childGroups_of_depth_le hdepth]
    rw [hnil]
    rfl
  | fuel + 1 => rfl

end Loading

end NekoBox.Store
