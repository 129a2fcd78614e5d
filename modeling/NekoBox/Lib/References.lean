import Mathlib

/-!
# Objects that refer to one another by name

A list of objects with distinct names is closed when every name one of them refers to is
the name of one of them. The order does not matter (`Closed.perm`), and objects that are
closed among themselves can be added under new names (`Closed.append`).
-/

namespace NekoBox.Lib.References

variable {α ν : Type} {name : α → ν} {refers : α → ν → Prop} {l l' : List α}

structure Closed (name : α → ν) (refers : α → ν → Prop) (l : List α) : Prop where
  distinct : (l.map name).Nodup
  resolves : ∀ a ∈ l, ∀ n, refers a n → n ∈ l.map name

theorem closed_nil : Closed name refers [] where
  distinct := List.nodup_nil
  resolves := fun _ ha => nomatch ha

theorem Closed.perm (h : Closed name refers l) (hperm : l'.Perm l) : Closed name refers l' where
  distinct := (hperm.map name).nodup_iff.mpr h.distinct
  resolves a ha n hn := (hperm.map name).mem_iff.mpr (h.resolves a (hperm.mem_iff.mp ha) n hn)

theorem Closed.append (h : Closed name refers l) (h' : Closed name refers l')
    (hnew : ∀ n ∈ l.map name, n ∉ l'.map name) : Closed name refers (l ++ l') where
  distinct := by
    rw [List.map_append, List.nodup_append]
    refine ⟨h.distinct, h'.distinct, fun n hn m hm heq => ?_⟩
    subst heq
    exact hnew n hn hm
  resolves a ha n hn := by
    rw [List.map_append, List.mem_append]
    rcases List.mem_append.mp ha with ha | ha
    · exact .inl (h.resolves a ha n hn)
    · exact .inr (h'.resolves a ha n hn)

/-- Objects that refer to nothing. -/
theorem closed_of_not_refers (hdistinct : (l.map name).Nodup) (h : ∀ a ∈ l, ∀ n, ¬ refers a n) :
    Closed name refers l where
  distinct := hdistinct
  resolves a ha n hn := absurd hn (h a ha n)

/-- New names for the objects: nothing that is referred to is renamed otherwise. -/
theorem Closed.rename {f : α → α} {r : ν → ν} (h : Closed name refers l)
    (hname : ∀ a ∈ l, name (f a) = r (name a)) (hinjective : Set.InjOn r {n | n ∈ l.map name})
    (hrefers : ∀ a ∈ l, ∀ n, refers (f a) n → ∃ m, refers a m ∧ n = r m) :
    Closed name refers (l.map f) := by
  have hnames : (l.map f).map name = (l.map name).map r := by
    rw [List.map_map, List.map_map]
    exact List.map_congr_left hname
  constructor
  · rw [hnames]
    exact List.Nodup.map_on (fun n hn m hm heq => hinjective hn hm heq) h.distinct
  · intro b hb n hn
    obtain ⟨a, ha, rfl⟩ := List.mem_map.mp hb
    obtain ⟨m, hm, rfl⟩ := hrefers a ha n hn
    rw [hnames]
    exact List.mem_map_of_mem (h.resolves a ha m hm)

/-- On a path in which each object refers to the next one, if to any, nothing refers to the
    first. -/
theorem mem_tail_of_path (hnext : l.IsChain fun a b => ∀ n, refers a n → n = name b)
    (hlast : ∀ a ∈ l.getLast?, ∀ n, ¬ refers a n) {a : α} (ha : a ∈ l) {n : ν}
    (hn : refers a n) : n ∈ (l.map name).tail := by
  induction l with
  | nil => cases ha
  | cons b l ih =>
    cases l with
    | nil =>
      obtain rfl := List.mem_singleton.mp ha
      exact absurd hn (hlast a rfl n)
    | cons c l =>
      rw [List.isChain_cons_cons] at hnext
      rcases List.mem_cons.mp ha with rfl | ha
      · rw [hnext.1 n hn]
        exact List.mem_cons_self
      · exact List.mem_cons_of_mem _ (ih hnext.2 (by rwa [List.getLast?_cons_cons] at hlast) ha)

/-- A path in which each object refers to the next one, if to any. -/
theorem closed_of_path (hdistinct : (l.map name).Nodup)
    (hnext : l.IsChain fun a b => ∀ n, refers a n → n = name b)
    (hlast : ∀ a ∈ l.getLast?, ∀ n, ¬ refers a n) : Closed name refers l where
  distinct := hdistinct
  resolves _ ha _ hn := List.mem_of_mem_tail (mem_tail_of_path hnext hlast ha hn)

end NekoBox.Lib.References
