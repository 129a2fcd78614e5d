import Mathlib

/-!
# Trees of files

A tree as a program walks it (`Tree`), and as a map from paths to what lies there
(`Tree.find`). Files have contents of any type, and names have decidable equality.

* `mem_visits`: a walk comes by what the map has, and by nothing else;
* `nodup_visits`: by each path once;
* `find_closed`: above what lies somewhere there are only directories.
-/

namespace NekoBox.Lib

/-- What lies at a path. -/
inductive Node (C : Type*) where
  | dir
  | file (c : C)
  deriving DecidableEq

inductive Tree (N C : Type*) where
  | file (c : C)
  | dir (entries : List (N × Tree N C))

namespace Tree

variable {N C : Type*}

/-- Induction over the directories of a tree. -/
theorem induct {P : Tree N C → Prop} (file : ∀ c, P (.file c))
    (dir : ∀ entries : List (N × Tree N C), (∀ e ∈ entries, P e.2) → P (.dir entries)) :
    ∀ t, P t := by
  intro t
  refine Tree.rec (motive_1 := P) (motive_2 := fun es => ∀ e ∈ es, P e.2)
    (motive_3 := fun e => P e.2) file dir ?_ ?_ ?_ t
  · exact fun e he => absurd he List.not_mem_nil
  · intro e es he hes
    exact List.forall_mem_cons.mpr ⟨he, hes⟩
  · exact fun _ t ht => ht

def node : Tree N C → Node C
  | .file c => .file c
  | .dir _ => .dir

/-- The names in a directory differ. -/
inductive Proper : Tree N C → Prop
  | file (c : C) : Proper (.file c)
  | dir (entries : List (N × Tree N C)) :
    (entries.map Prod.fst).Nodup → (∀ e ∈ entries, Proper e.2) → Proper (.dir entries)

mutual

/-- The paths of a tree with what lies there, in the order of a walk. -/
def visits (p : List N) : Tree N C → List (List N × Node C)
  | .file c => [(p, .file c)]
  | .dir entries => (p, .dir) :: visitsEntries p entries

def visitsEntries (p : List N) : List (N × Tree N C) → List (List N × Node C)
  | [] => []
  | (n, t) :: entries => visits (p ++ [n]) t ++ visitsEntries p entries

end

theorem mem_visitsEntries {p : List N} {v : List N × Node C} {entries : List (N × Tree N C)} :
    v ∈ visitsEntries p entries ↔ ∃ e ∈ entries, v ∈ visits (p ++ [e.1]) e.2 := by
  induction entries with
  | nil => simp [visitsEntries]
  | cons e entries ih => simp [visitsEntries, ih]

variable [DecidableEq N]

/-- What lies at a path of the tree. -/
def find : List N → Tree N C → Option (Node C)
  | [], t => some t.node
  | n :: p, .dir entries => (entries.lookup n).bind (find p)
  | _ :: _, .file _ => none

/-- The entry a name stands for. -/
theorem lookup_eq_some {entries : List (N × Tree N C)} (h : (entries.map Prod.fst).Nodup) {n : N}
    {t : Tree N C} : entries.lookup n = some t ↔ (n, t) ∈ entries := by
  constructor
  · intro hlookup
    obtain ⟨before, after, rfl, -⟩ := List.lookup_eq_some_iff.mp hlookup
    simp
  · intro hmem
    obtain ⟨before, after, rfl⟩ := List.append_of_mem hmem
    refine List.lookup_eq_some_iff.mpr ⟨before, after, rfl, fun e he => ?_⟩
    rw [List.map_append, List.map_cons, List.nodup_middle] at h
    have hnot := (List.nodup_cons.mp h).1
    rw [bne_iff_ne]
    intro heq
    exact hnot (List.mem_append_left _ (List.mem_map.mpr ⟨e, he, heq.symm⟩))

theorem mem_visits {t : Tree N C} (h : t.Proper) {p q : List N} {node : Node C} :
    (q, node) ∈ visits p t ↔ ∃ r, q = p ++ r ∧ find r t = some node := by
  induction t using Tree.induct generalizing p with
  | file c =>
    rw [visits, List.mem_singleton]
    constructor
    · intro heq
      obtain ⟨rfl, rfl⟩ := Prod.mk.inj heq
      exact ⟨[], (List.append_nil q).symm, rfl⟩
    · rintro ⟨r, rfl, hr⟩
      cases r with
      | nil =>
        obtain rfl := Option.some.inj hr
        rw [List.append_nil]
        rfl
      | cons n r => cases hr
  | dir entries ih =>
    cases h with
    | dir _ hnodup hproper =>
      rw [visits, List.mem_cons, mem_visitsEntries]
      constructor
      · rintro (heq | ⟨e, he, hv⟩)
        · obtain ⟨rfl, rfl⟩ := Prod.mk.inj heq
          exact ⟨[], (List.append_nil q).symm, rfl⟩
        · obtain ⟨r, rfl, hr⟩ := (ih e he (hproper e he)).mp hv
          refine ⟨e.1 :: r, by rw [List.append_assoc]; rfl, ?_⟩
          rw [find, (lookup_eq_some hnodup).mpr he]
          exact hr
      · rintro ⟨r, rfl, hr⟩
        cases r with
        | nil =>
          obtain rfl := Option.some.inj hr
          exact .inl (by rw [List.append_nil]; rfl)
        | cons n r =>
          rw [find, Option.bind_eq_some_iff] at hr
          obtain ⟨t, hlookup, hr⟩ := hr
          have he := (lookup_eq_some hnodup).mp hlookup
          refine .inr ⟨(n, t), he, (ih _ he (hproper _ he)).mpr ⟨r, ?_, hr⟩⟩
          rw [List.append_assoc]
          rfl

theorem nodup_visits {t : Tree N C} (h : t.Proper) (p : List N) :
    ((visits p t).map Prod.fst).Nodup := by
  induction t using Tree.induct generalizing p with
  | file c => exact List.nodup_singleton p
  | dir entries ih =>
    cases h with
    | dir _ hnodup hproper =>
      rw [visits, List.map_cons, List.nodup_cons]
      constructor
      · intro hmem
        obtain ⟨v, hv, hp⟩ := List.mem_map.mp hmem
        obtain ⟨e, he, hv⟩ := mem_visitsEntries.mp hv
        obtain ⟨r, hr, -⟩ := (mem_visits (hproper e he)).mp hv
        rw [hp] at hr
        have hlength := congrArg List.length hr
        simp only [List.length_append, List.length_singleton] at hlength
        omega
      · -- the paths through one entry are not those through another
        induction entries with
        | nil => exact List.nodup_nil
        | cons e entries ihe =>
          obtain ⟨hnot, hnodup⟩ := List.nodup_cons.mp hnodup
          obtain ⟨hproper_e, hproper⟩ := List.forall_mem_cons.mp hproper
          obtain ⟨ih_e, ih⟩ := List.forall_mem_cons.mp ih
          rw [visitsEntries, List.map_append]
          refine (ih_e hproper_e (p ++ [e.1])).append (ihe ih hnodup hproper) ?_
          intro q hq hq'
          obtain ⟨v, hv, rfl⟩ := List.mem_map.mp hq
          obtain ⟨v', hv', hpath⟩ := List.mem_map.mp hq'
          obtain ⟨e', he', hv'⟩ := mem_visitsEntries.mp hv'
          obtain ⟨r, hr, -⟩ := (mem_visits hproper_e).mp hv
          obtain ⟨r', hr', -⟩ := (mem_visits (hproper e' he')).mp hv'
          rw [hpath, hr, List.append_assoc, List.append_assoc] at hr'
          obtain ⟨hname, -⟩ := List.cons.inj (List.append_cancel_left hr')
          exact hnot (hname ▸ List.mem_map_of_mem he')

/-- What has something in it is a directory. -/
theorem find_closed {t : Tree N C} {p : List N} {n : N} (h : find (p ++ [n]) t ≠ none) :
    find p t = some .dir := by
  induction p generalizing t with
  | nil =>
    cases t with
    | file c => exact absurd rfl h
    | dir entries => rfl
  | cons m p ih =>
    cases t with
    | file c => exact absurd rfl h
    | dir entries =>
      rw [List.cons_append, find] at h
      rw [find]
      cases hlookup : entries.lookup m with
      | none =>
        rw [hlookup] at h
        exact absurd rfl h
      | some t =>
        rw [hlookup] at h
        exact ih h

end Tree

/-- A map whose entries lie in directories, like that of a tree. -/
def Closed {N C : Type*} (m : List N → Option (Node C)) : Prop :=
  ∀ p n, m (p ++ [n]) ≠ none → m p = some .dir

namespace Closed

variable {N C : Type*} {m : List N → Option (Node C)}

theorem above (h : Closed m) {p r : List N} (hne : r ≠ []) (hr : m (p ++ r) ≠ none) :
    m p = some .dir := by
  induction r using List.reverseRecOn with
  | nil => exact absurd rfl hne
  | append_singleton r n ih =>
    rw [← List.append_assoc] at hr
    have hdir := h _ _ hr
    by_cases hempty : r = []
    · rw [hempty, List.append_nil] at hdir
      exact hdir
    · exact ih hempty (by rw [hdir]; exact Option.some_ne_none _)

/-- Nothing lies below a file. -/
theorem below_file (h : Closed m) {p r : List N} {c : C} (hp : m p = some (.file c))
    (hne : r ≠ []) : m (p ++ r) = none := by
  by_contra hr
  have hdir := h.above hne hr
  rw [hp] at hdir
  cases hdir

end Closed

end NekoBox.Lib
