import NekoBox.Store.Ini
import NekoBox.Store.BinaryRoundTrip

/-!
# What `SaveINI` leaves in the file

* `saveVal_pointwise`: what a path holds after `SaveINI` depends only on what it
  held before;
* `saveVal_frame`, `saveINI_frame`: a field is saved at and below its own path;
* `saveINI_agree`, `saveElems_agree`: hence every field and every element ends
  up as if it alone had been saved over the previous file;
* `exists_of_writes`: a store that registers a field of a kind that is always
  written (`writes`) leaves a value in the file.
-/

namespace NekoBox.Store

open NekoBox.Lib NekoBox.Qt

/-! ## Element groups -/

theorem indexName_injective {i j : ℕ} (hi : i < 2 ^ 31) (hj : j < 2 ^ 31)
    (h : indexName i = indexName j) : i = j := by
  have hlist : number (i : ℤ) = number (j : ℤ) := by
    unfold indexName at h
    exact String.ofList_injective h
  have := number_injective (m := i) (n := j) ⟨by omega, by omega⟩ ⟨by omega, by omega⟩ hlist
  exact_mod_cast this

theorem toInt_indexName {i : ℕ} (hi : i < 2 ^ 31) : toInt (indexName i).toList = some (i : ℤ) := by
  unfold indexName
  rw [String.toList_ofList]
  exact toInt_number ⟨by omega, by omega⟩

/-! ## One path at a time -/

theorem setValue_pointwise {a b : Settings} {q : Path} (h : a[q]? = b[q]?) (group : Path)
    (key : String) (v : Variant) : (setValue a group key v)[q]? = (setValue b group key v)[q]? := by
  unfold setValue
  split
  · exact h
  · rw [Std.ExtTreeMap.getElem?_insert, Std.ExtTreeMap.getElem?_insert, h]

theorem foldl_setValue_pointwise (group : Path) (es : List (String × String)) :
    ∀ {a b : Settings} {q : Path}, a[q]? = b[q]? →
      (es.foldl (fun ini e => setValue ini group e.1 (.string e.2)) a)[q]? =
        (es.foldl (fun ini e => setValue ini group e.1 (.string e.2)) b)[q]? := by
  induction es with
  | nil => exact fun h => h
  | cons e es ih => exact fun h => ih (setValue_pointwise h _ _ _)

theorem insert_pointwise {a b : Settings} {q : Path} (h : a[q]? = b[q]?) (p : Path) (v : Variant) :
    (a.insert p v)[q]? = (b.insert p v)[q]? := by
  rw [Std.ExtTreeMap.getElem?_insert, Std.ExtTreeMap.getElem?_insert, h]

mutual

/-- What a path holds after a field is saved depends on what it held before. -/
theorem saveVal_pointwise (v : Val) (p : Path) {a b : Settings} {q : Path} (h : a[q]? = b[q]?) :
    (saveVal p v a)[q]? = (saveVal p v b)[q]? := by
  match v with
  | .int _ | .double _ | .long _ | .bool _ | .boolPtr _ | .str _ | .strList _ | .intList _ =>
    simp only [saveVal]
    exact insert_pointwise h _ _
  | .strMap m =>
    simp only [saveVal]
    refine foldl_setValue_pointwise p _ ?_
    rw [PathMap.getElem?_removeGroup, PathMap.getElem?_removeGroup, h]
  | .enum map none | .jsonShared none | .jsonStore none =>
    simp only [saveVal]
    exact h
  | .enum map (some v) =>
    simp only [saveVal]
    exact insert_pointwise h _ _
  | .jsonShared (some st) | .jsonStore (some st) =>
    simp only [saveVal]
    exact saveINI_pointwise st p h
  | .jsonStoreList _ elems =>
    simp only [saveVal]
    exact saveElems_pointwise elems p 0 h

theorem saveINI_pointwise (s : List (String × Val)) (path : Path) {a b : Settings} {q : Path}
    (h : a[q]? = b[q]?) : (saveINI path s a)[q]? = (saveINI path s b)[q]? := by
  match s with
  | [] => exact h
  | (name, v) :: rest =>
    rw [saveINI, saveINI]
    exact saveINI_pointwise rest path (saveVal_pointwise v _ h)

theorem saveElems_pointwise (ss : List (List (String × Val))) (p : Path) (index : ℕ)
    {a b : Settings} {q : Path} (h : a[q]? = b[q]?) :
    (saveElems p index ss a)[q]? = (saveElems p index ss b)[q]? := by
  match ss with
  | [] => exact h
  | st :: rest =>
    rw [saveElems, saveElems]
    exact saveElems_pointwise rest p (index + 1) (saveINI_pointwise st _ h)

end

theorem saveVal_agree {p : Path} {a b : Settings} (h : PathMap.Agree p a b) (v : Val) :
    PathMap.Agree p (saveVal p v a) (saveVal p v b) := fun r => saveVal_pointwise v p (h r)

/-! ## Frame -/

theorem insert_frame {p q : Path} (h : ¬ p <+: q) (v : Variant) (ini : Settings) :
    (ini.insert p v)[q]? = ini[q]? := by
  rw [Std.ExtTreeMap.getElem?_insert, if_neg]
  intro heq
  rw [Std.LawfulEqOrd.compare_eq_iff_eq] at heq
  exact h (heq ▸ List.prefix_refl _)

theorem setValue_frame {p q : Path} (h : ¬ p <+: q) (key : String) (v : Variant) (ini : Settings) :
    (setValue ini p key v)[q]? = ini[q]? := by
  unfold setValue
  split
  · rfl
  · exact insert_frame (fun hp => h ((List.prefix_append _ _).trans hp)) _ _

theorem foldl_setValue_frame {p q : Path} (h : ¬ p <+: q) (es : List (String × String)) :
    ∀ ini : Settings,
      (es.foldl (fun ini e => setValue ini p e.1 (.string e.2)) ini)[q]? = ini[q]? := by
  induction es with
  | nil => exact fun _ => rfl
  | cons e es ih => exact fun ini => (ih _).trans (setValue_frame h _ _ _)

mutual

/-- A field is saved at and below its path. -/
theorem saveVal_frame (v : Val) {p q : Path} (h : ¬ p <+: q) (ini : Settings) :
    (saveVal p v ini)[q]? = ini[q]? := by
  match v with
  | .int _ | .double _ | .long _ | .bool _ | .boolPtr _ | .str _ | .strList _ | .intList _ =>
    simp only [saveVal]
    exact insert_frame h _ _
  | .strMap m =>
    simp only [saveVal]
    rw [foldl_setValue_frame h, PathMap.getElem?_removeGroup, if_neg h]
  | .enum map none | .jsonShared none | .jsonStore none => simp only [saveVal]
  | .enum map (some v) =>
    simp only [saveVal]
    exact insert_frame h _ _
  | .jsonShared (some st) | .jsonStore (some st) =>
    simp only [saveVal]
    exact saveINI_frame st (fun _ _ hp => h ((List.prefix_append _ _).trans hp)) ini
  | .jsonStoreList _ elems =>
    simp only [saveVal]
    exact saveElems_frame elems 0 (fun _ _ hp => h ((List.prefix_append _ _).trans hp)) ini

/-- A store is saved at and below the paths of its fields. -/
theorem saveINI_frame (s : List (String × Val)) {path q : Path}
    (h : ∀ f ∈ s, ¬ path ++ [f.1] <+: q) (ini : Settings) :
    (saveINI path s ini)[q]? = ini[q]? := by
  match s with
  | [] => rfl
  | (name, v) :: rest =>
    rw [saveINI, saveINI_frame rest (fun f hf => h f (List.mem_cons_of_mem _ hf)),
      saveVal_frame v (h (name, v) List.mem_cons_self)]

/-- A list is saved below the groups of its elements. -/
theorem saveElems_frame (ss : List (List (String × Val))) {p q : Path} (index : ℕ)
    (h : ∀ i < ss.length, ¬ p ++ [indexName (index + i)] <+: q) (ini : Settings) :
    (saveElems p index ss ini)[q]? = ini[q]? := by
  match ss with
  | [] => rfl
  | st :: rest =>
    have hrest : ∀ i < rest.length, ¬ p ++ [indexName (index + 1 + i)] <+: q := by
      intro i hi
      have := h (i + 1) (by simpa using hi)
      rwa [show index + 1 + i = index + (i + 1) by omega]
    have hst : ¬ p ++ [indexName index] <+: q := h 0 (by simp)
    rw [saveElems, saveElems_frame rest (index + 1) hrest,
      saveINI_frame st (fun _ _ hp => hst ((List.prefix_append _ _).trans hp))]

end

/-- Paths through different names are apart. -/
theorem not_prefix_of_ne {path r : Path} {x y : String} (h : x ≠ y) : ¬ path ++ [x] <+: path ++ y :: r := by
  rw [List.prefix_append_right_inj, List.cons_prefix_cons]
  exact fun hp => h hp.1

/-! ## Each field as if it were saved alone -/

section Agree

variable {hash : String → Bytes}

theorem name_ne_of_distinct {name : String} {s : Obj} (h : hash name ∉ Obj.keys hash s) :
    ∀ f ∈ s, name ≠ f.1 := by
  rintro f hf rfl
  exact h (List.mem_map.mpr ⟨f, hf, rfl⟩)

theorem saveINI_agree {s : Obj} (hkeys : DistinctKeys hash s) (path : Path) (prev : Settings) :
    ∀ f ∈ s, PathMap.Agree (path ++ [f.1]) (saveINI path s prev) (saveVal (path ++ [f.1]) f.2 prev) := by
  induction s generalizing prev with
  | nil => simp
  | cons g s ih =>
    obtain ⟨name, v⟩ := g
    obtain ⟨hnot, -, hkeys'⟩ := hkeys
    have hne := name_ne_of_distinct hnot
    intro f hf
    rcases List.mem_cons.mp hf with rfl | hf
    · intro r
      rw [saveINI, saveINI_frame s]
      intro f hf
      rw [List.append_assoc, List.singleton_append]
      exact not_prefix_of_ne (hne f hf).symm
    · refine (ih hkeys' _ f hf).trans (saveVal_agree (fun r => ?_) f.2)
      refine saveVal_frame v ?_ prev
      rw [List.append_assoc, List.singleton_append]
      exact not_prefix_of_ne (hne f hf)

theorem saveElems_agree (ss : List Obj) (p : Path) (index : ℕ) (hlen : index + ss.length ≤ 2 ^ 31)
    (prev : Settings) : ∀ (i : ℕ) (h : i < ss.length), PathMap.Agree (p ++ [indexName (index + i)])
      (saveElems p index ss prev) (saveINI (p ++ [indexName (index + i)]) ss[i] prev) := by
  induction ss generalizing index prev with
  | nil => simp
  | cons st ss ih =>
    intro i hi
    rw [List.length_cons] at hlen hi
    match i with
    | 0 =>
      intro r
      rw [saveElems, saveElems_frame ss]
      · rfl
      · intro j hj
        rw [List.append_assoc, List.singleton_append]
        refine not_prefix_of_ne fun h => ?_
        have := indexName_injective (by omega) (by omega) h
        omega
    | i + 1 =>
      rw [show index + (i + 1) = index + 1 + i by omega, saveElems]
      refine (ih (index + 1) (by omega) _ i (by omega)).trans fun r => ?_
      refine saveINI_pointwise _ _ (saveINI_frame st (fun f hf hp => ?_) prev)
      have hpre := (List.prefix_append _ _).trans hp
      rw [List.append_assoc p, List.singleton_append] at hpre
      refine not_prefix_of_ne (fun h => ?_) hpre
      have := indexName_injective (by omega) (by omega) h
      omega

end Agree

/-! ## What is always written -/

mutual

/-- The kinds of fields that `SaveINI` writes whatever their value. -/
def writesVal : Val → Bool
  | .jsonStore (some st) => writes st
  | .jsonShared (some st) => writes st
  | .jsonStore none | .jsonShared none | .enum _ _ | .strMap _ | .jsonStoreList _ _ => false
  | .int _ | .long _ | .str _ | .bool _ | .strList _ | .intList _ | .boolPtr _ | .double _ => true

/-- Some field of the store is always written. -/
def writes : List (String × Val) → Bool
  | [] => false
  | (_, v) :: rest => writesVal v || writes rest

end

theorem isSome_insert (ini : Settings) (p : Path) (v : Variant) : ((ini.insert p v)[p]?).isSome := by
  rw [Std.ExtTreeMap.getElem?_insert_self]
  rfl

mutual

theorem exists_of_writesVal {hash : String → Bytes} (v : Val) (hkeys : DistinctKeysVal hash v)
    (hwrites : writesVal v = true) (p : Path) (prev : Settings) :
    ∃ r, ((saveVal p v prev)[p ++ r]?).isSome := by
  match v with
  | .int _ | .long _ | .str _ | .bool _ | .strList _ | .intList _ | .boolPtr _ | .double _ =>
    refine ⟨[], ?_⟩
    simp only [saveVal, List.append_nil]
    exact isSome_insert _ _ _
  | .jsonStore (some st) | .jsonShared (some st) =>
    obtain ⟨x, r, h⟩ := exists_of_writes st hkeys hwrites p prev
    refine ⟨x :: r, ?_⟩
    simp only [saveVal]
    exact h
  | .jsonStore none | .jsonShared none | .enum _ _ | .strMap _ | .jsonStoreList _ _ =>
    simp [writesVal] at hwrites

theorem exists_of_writes {hash : String → Bytes} (s : List (String × Val)) (hkeys : DistinctKeys hash s)
    (hwrites : writes s = true) (path : Path) (prev : Settings) :
    ∃ x r, ((saveINI path s prev)[path ++ x :: r]?).isSome := by
  match s with
  | [] => simp [writes] at hwrites
  | (name, v) :: rest =>
    rw [writes, Bool.or_eq_true] at hwrites
    rcases hwrites with hv | hrest
    · obtain ⟨r, hr⟩ := exists_of_writesVal v hkeys.2.1 hv (path ++ [name]) prev
      refine ⟨name, r, ?_⟩
      have hagree := saveINI_agree hkeys path prev (name, v) List.mem_cons_self r
      rw [← hagree] at hr
      simpa using hr
    · exact exists_of_writes rest hkeys.2.2 hrest path _

end

end NekoBox.Store
