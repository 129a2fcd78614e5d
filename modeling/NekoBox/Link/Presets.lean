import NekoBox.Link.Node

/-!
# Enumerations

`JsonEnum` (`Configs.cpp`, lines 268–327): a number with a name, and the
enumerations of `V2RayStreamSettings.hpp` with the names of `Preset.hpp`. A name
is found as a key of a node is; an unknown one is 0, and a number without a name
has an empty one.

* `valueOf_nameOf`: a number with a name is found by it.
-/

namespace NekoBox.Link

open NekoBox.Config NekoBox.Store

/-- `ADD_ENUM_LIST`: names for the numbers from `base` on. -/
structure Enumeration where
  names : List String
  base : ℤ

namespace Enumeration

variable (e : Enumeration)

/-- `operator QString` -/
def nameOf (value : ℤ) : String :=
  if value < e.base then "" else e.names.getD (value - e.base).toNat ""

/-- `set` with a name. -/
def valueOf (name : String) : ℤ :=
  match e.names.findIdx? fun n => Node.modifyEnumName n = Node.modifyEnumName name with
  | some i => e.base + i
  | none => 0

/-- The names are not empty and differ, also in the way keys are compared. -/
def Distinct : Prop := (e.names.map Node.modifyEnumName).Nodup

instance instDecidableDistinct : Decidable e.Distinct :=
  inferInstanceAs (Decidable (List.Nodup _))

theorem valueOf_nameOf {e : Enumeration} (hdistinct : e.Distinct) {value : ℤ}
    (hlow : e.base ≤ value) (hhigh : value < e.base + e.names.length) :
    e.valueOf (e.nameOf value) = value := by
  obtain ⟨i, rfl⟩ : ∃ i : ℕ, value = e.base + i := ⟨(value - e.base).toNat, by omega⟩
  have hi : i < e.names.length := by omega
  have hname : e.nameOf (e.base + i) = e.names[i] := by
    rw [nameOf, if_neg (by omega), show (e.base + i - e.base).toNat = i by omega,
      List.getD_eq_getElem _ _ hi]
  have hfind : e.names.findIdx? (fun n => Node.modifyEnumName n = Node.modifyEnumName e.names[i]) =
      some i := by
    rw [List.findIdx?_eq_some_iff_getElem]
    refine ⟨hi, by simp, ?_⟩
    intro j hj
    have hne : Node.modifyEnumName e.names[j] ≠ Node.modifyEnumName e.names[i] := by
      intro heq
      have hi' : i < (e.names.map Node.modifyEnumName).length := by simpa using hi
      have hj' : j < (e.names.map Node.modifyEnumName).length := by omega
      have hmap : (e.names.map Node.modifyEnumName)[j] = (e.names.map Node.modifyEnumName)[i] := by
        simpa using heq
      exact hj.ne (hdistinct.getElem_inj_iff.mp hmap)
    simpa using hne
  rw [hname, valueOf, hfind]

theorem nameOf_mem (e : Enumeration) (value : ℤ) : e.nameOf value = "" ∨ e.nameOf value ∈ e.names := by
  unfold nameOf
  split_ifs
  · exact Or.inl rfl
  · by_cases hindex : (value - e.base).toNat < e.names.length
    · rw [List.getD_eq_getElem _ _ hindex]
      exact Or.inr (List.getElem_mem hindex)
    · exact Or.inl (List.getD_eq_default _ _ (not_lt.mp hindex))

end Enumeration

def networkEnum : Enumeration := ⟨["tcp", "udp"], 1⟩

/-- `To_CoreObj_box::add_network` and `To_Link::add_network`: the name, if the
    number is positive and has one. -/
def networkName (network : ℤ) : String := if 0 < network then networkEnum.nameOf network else ""

end NekoBox.Link
