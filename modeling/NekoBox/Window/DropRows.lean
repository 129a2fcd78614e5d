import Mathlib

/-!
# Rows dropped on the table of profiles

`MyTableModel::dropMimeData` (`mainwindow_table.cpp`, lines 540–633) moves the dragged rows one
by one, from the first to the last, each by the row it had before the drop.

The list is followed as a list of entries, a profile and the row it had.

* `dropMimeData_perm`: no profile is lost or doubled;
* `reordered_iff`: the others keep their order, and the dragged ones stand together in theirs
  where they were dropped, exactly when at most one row is dragged.
-/

namespace NekoBox.Window

namespace DropRows

/-! ## The code -/

/-- What `mimeData` (lines 514–533) encodes of a table with `size` rows: the rows of the
    selected cells, in the order of a set. -/
structure DraggedRows (size : ℕ) where
  rows : List ℕ
  nodup : rows.Nodup
  valid : ∀ row ∈ rows, row < size

/-- `beginMoveRows` for one row: it refuses to move it to where it stands. -/
def beginMoveRows (sourceRow destination : ℕ) : Bool :=
  ¬ (sourceRow ≤ destination ∧ destination ≤ sourceRow + 1)

variable {α : Type*}

/-- The body of the loop (lines 590–624), with the number of rows moved. -/
def moveRow (targetRow : ℕ) (s : List α × ℕ) (sourceRow : ℕ) : List α × ℕ :=
  if sourceRow = targetRow then s
  else
    let visualTarget := if sourceRow < targetRow then targetRow + 1 else targetRow
    let profSize := s.1.length
    let visualTarget := if visualTarget ≥ profSize then profSize else visualTarget
    if ¬ beginMoveRows sourceRow visualTarget then s
    else
      match s.1[sourceRow]? with
      | none => s
      | some item =>
        if sourceRow < targetRow then
          ((s.1.insertIdx visualTarget item).eraseIdx sourceRow, s.2 + 1)
        else ((s.1.eraseIdx sourceRow).insertIdx visualTarget item, s.2 + 1)

/-- The loop over the rows. -/
def moveRows (targetRow : ℕ) (s : List α × ℕ) (rows : List ℕ) : List α × ℕ :=
  rows.foldl (moveRow targetRow) s

/-- `targetRow` (lines 556–562); a row of -1 is none. -/
def targetRow (row parent : Option ℕ) (rowCount : ℕ) : ℕ :=
  match row, parent with
  | some row, _ => row
  | none, some parent => parent
  | none, none => rowCount

/-- `dropMimeData`: the list, and whether the drop was taken (and the group saved). -/
def dropMimeData {size : ℕ} (profiles : List α) (dragged : DraggedRows size)
    (row parent : Option ℕ) : List α × Bool :=
  let targetRow := targetRow row parent profiles.length
  if dragged.rows.length = 0 then (profiles, false)
  else
    let indexes := dragged.rows.insertionSort (· ≤ ·)
    let moved := moveRows targetRow (profiles, 0) indexes
    (moved.1, decide (moved.2 > 0))

/-! ## One row -/

theorem beginMoveRows_iff (sourceRow destination : ℕ) :
    beginMoveRows sourceRow destination = true ↔
      ¬ (sourceRow ≤ destination ∧ destination ≤ sourceRow + 1) :=
  decide_eq_true_iff

theorem insertIdx_length_append (A C : List α) (x : α) :
    (A ++ C).insertIdx A.length x = A ++ x :: C := by
  induction A with
  | nil => exact List.insertIdx_zero
  | cons a A ih => exact congrArg (a :: ·) ih

theorem eraseIdx_length_append (A C : List α) (x : α) :
    (A ++ x :: C).eraseIdx A.length = A ++ C := by
  rw [List.eraseIdx_append_of_length_le (le_refl _), Nat.sub_self, List.eraseIdx_cons_zero]

/-- A row is moved down. -/
theorem moveRow_of_lt {target : ℕ} {A B C : List α} {x : α} (moved : ℕ) (hlt : A.length < target)
    (hB : A.length + B.length = min target (A.length + (B.length + C.length))) :
    (moveRow target (A ++ x :: (B ++ C), moved) A.length).1 = A ++ (B ++ x :: C) := by
  have hlength : (A ++ x :: (B ++ C)).length = A.length + (B.length + C.length) + 1 := by
    simp
    omega
  have hvisual : (if (if A.length < target then target + 1 else target) ≥
      (A ++ x :: (B ++ C)).length then (A ++ x :: (B ++ C)).length
      else if A.length < target then target + 1 else target) = A.length + B.length + 1 := by
    rw [if_pos hlt, hlength]
    split_ifs <;> omega
  have hitem : (A ++ x :: (B ++ C))[A.length]? = some x := by
    rw [List.getElem?_append_right (le_refl _), Nat.sub_self, List.getElem?_cons_zero]
  unfold moveRow
  dsimp only
  rw [if_neg hlt.ne, hvisual]
  by_cases hnil : B.length = 0
  · obtain rfl := List.length_eq_zero_iff.mp hnil
    rw [if_pos]
    · rfl
    · rw [beginMoveRows_iff, not_not]
      exact ⟨Nat.le_succ _, le_refl _⟩
  · rw [if_neg, hitem]
    · dsimp only
      rw [if_pos hlt]
      have hinsert := insertIdx_length_append (A ++ x :: B) C x
      rw [List.length_append, List.length_cons, List.append_assoc, List.cons_append,
        ← Nat.add_assoc] at hinsert
      rw [hinsert, List.append_assoc, List.cons_append]
      exact eraseIdx_length_append A (B ++ x :: C) x
    · rw [not_not, beginMoveRows_iff]
      omega

/-- A row is moved up. -/
theorem moveRow_of_gt {A B C : List α} {x : α} (moved : ℕ) (hB : B ≠ []) :
    (moveRow A.length (A ++ (B ++ x :: C), moved) (A.length + B.length)).1 =
      A ++ x :: (B ++ C) := by
  have hpos := List.length_pos_iff.mpr hB
  have hvisual : (if (if A.length + B.length < A.length then A.length + 1 else A.length) ≥
      (A ++ (B ++ x :: C)).length then (A ++ (B ++ x :: C)).length
      else if A.length + B.length < A.length then A.length + 1 else A.length) = A.length := by
    have hlength : (A ++ (B ++ x :: C)).length = A.length + (B.length + C.length) + 1 := by
      simp
      omega
    rw [if_neg (show ¬ A.length + B.length < A.length by omega), hlength, if_neg (by omega)]
  have hitem : (A ++ (B ++ x :: C))[A.length + B.length]? = some x := by
    rw [← List.append_assoc, ← List.length_append, List.getElem?_append_right (le_refl _),
      Nat.sub_self, List.getElem?_cons_zero]
  unfold moveRow
  dsimp only
  rw [if_neg (by omega), hvisual, if_neg, hitem]
  · dsimp only
    rw [if_neg (by omega), ← List.append_assoc, ← List.length_append, eraseIdx_length_append,
      List.append_assoc]
    exact insertIdx_length_append A (B ++ C) x
  · rw [not_not, beginMoveRows_iff]
    omega

theorem split_at (xs : List α) {i : ℕ} (hi : i < xs.length) :
    ∃ A x D, xs = A ++ x :: D ∧ A.length = i := by
  refine ⟨xs.take i, xs[i], xs.drop (i + 1), ?_, List.length_take_of_le hi.le⟩
  rw [← List.drop_eq_getElem_cons hi, List.take_append_drop]

theorem getElem_split {xs A D : List α} {x : α} {i : ℕ} (hsplit : xs = A ++ x :: D)
    (hA : A.length = i) {hi : i < xs.length} : xs[i] = x := by
  subst hsplit hA
  rw [List.getElem_append_right (Nat.le_refl _)]
  simp

theorem split_take (xs : List α) {i : ℕ} (hi : i ≤ xs.length) :
    ∃ A D, xs = A ++ D ∧ A.length = i :=
  ⟨xs.take i, xs.drop i, (List.take_append_drop i xs).symm, List.length_take_of_le hi⟩

/-- Where a row goes: everything a move can do to the list. -/
theorem moveRow_cases (target : ℕ) (s : List α × ℕ) {source : ℕ} (hs : source < s.1.length) :
    (source = target ∧ (moveRow target s source).1 = s.1) ∨
    (source < target ∧ ∃ A x B C, s.1 = A ++ x :: (B ++ C) ∧ A.length = source ∧
      A.length + B.length = min target (s.1.length - 1) ∧
      (moveRow target s source).1 = A ++ (B ++ x :: C)) ∨
    (target < source ∧ ∃ A x B C, s.1 = A ++ (B ++ x :: C) ∧ A.length = target ∧
      A.length + B.length = source ∧ (moveRow target s source).1 = A ++ x :: (B ++ C)) := by
  obtain ⟨xs, moved⟩ := s
  dsimp only at hs ⊢
  rcases lt_trichotomy source target with hlt | rfl | hgt
  · refine .inr (.inl ⟨hlt, ?_⟩)
    obtain ⟨A, x, D, rfl, rfl⟩ := split_at xs hs
    have hlength : (A ++ x :: D).length = A.length + (D.length + 1) := List.length_append
    obtain ⟨B, C, rfl, hB⟩ := split_take D (i := min target (A.length + D.length) - A.length)
      (by omega)
    have hBC : (B ++ C).length = B.length + C.length := List.length_append
    refine ⟨A, x, B, C, rfl, rfl, by omega, moveRow_of_lt moved hlt (by omega)⟩
  · refine .inl ⟨rfl, ?_⟩
    unfold moveRow
    rw [if_pos rfl]
  · refine .inr (.inr ⟨hgt, ?_⟩)
    obtain ⟨D, x, C, rfl, rfl⟩ := split_at xs hs
    obtain ⟨A, B, rfl, rfl⟩ := split_take D hgt.le
    refine ⟨A, x, B, C, by rw [List.append_assoc], rfl, (List.length_append).symm, ?_⟩
    rw [List.length_append, List.append_assoc]
    refine moveRow_of_gt moved fun hnil => ?_
    rw [hnil, List.append_nil] at hgt
    exact lt_irrefl _ hgt

theorem moveRow_perm (target : ℕ) (s : List α × ℕ) {source : ℕ} (hs : source < s.1.length) :
    (moveRow target s source).1.Perm s.1 := by
  rcases moveRow_cases target s hs with ⟨-, heq⟩ | ⟨-, A, x, B, C, hold, -, -, hnew⟩ |
    ⟨-, A, x, B, C, hold, -, -, hnew⟩
  · rw [heq]
  · rw [hnew, hold]
    exact List.perm_middle.append_left A
  · rw [hnew, hold]
    exact List.perm_middle.symm.append_left A

/-- What stands above the row and the drop stays. -/
theorem moveRow_take {target : ℕ} (s : List α × ℕ) {source m : ℕ} (hs : source < s.1.length)
    (hsource : m ≤ source) (htarget : m ≤ target) :
    (moveRow target s source).1.take m = s.1.take m := by
  rcases moveRow_cases target s hs with ⟨-, heq⟩ | ⟨-, A, x, B, C, hold, hA, -, hnew⟩ |
    ⟨-, A, x, B, C, hold, hA, -, hnew⟩
  · rw [heq]
  · rw [hnew, hold, List.take_append_of_le_length (by omega),
      List.take_append_of_le_length (by omega)]
  · rw [hnew, hold, List.take_append_of_le_length (by omega),
      List.take_append_of_le_length (by omega)]

theorem drop_append_congr {P P' : List α} (C : List α) {m : ℕ} (hlength : P.length = P'.length)
    (hle : P.length ≤ m) : (P ++ C).drop m = (P' ++ C).drop m := by
  have hle' : P'.length ≤ m := hlength ▸ hle
  rw [List.drop_append, List.drop_append, List.drop_eq_nil_of_le hle,
    List.drop_eq_nil_of_le hle', hlength]

/-- What stands below the row and the drop stays. -/
theorem moveRow_drop {target : ℕ} (s : List α × ℕ) {source m : ℕ} (hs : source < s.1.length)
    (hsource : source < m) (htarget : target < m) :
    (moveRow target s source).1.drop m = s.1.drop m := by
  rcases moveRow_cases target s hs with ⟨-, heq⟩ | ⟨-, A, x, B, C, hold, hA, hB, hnew⟩ |
    ⟨-, A, x, B, C, hold, hA, hB, hnew⟩
  · rw [heq]
  · rw [hnew, hold]
    have hnewLeft : A ++ (B ++ x :: C) = (A ++ (B ++ [x])) ++ C := by simp
    have holdLeft : A ++ x :: (B ++ C) = (A ++ x :: B) ++ C := by simp
    rw [hnewLeft, holdLeft]
    exact drop_append_congr C (by simp) (by simp; omega)
  · rw [hnew, hold]
    have hnewLeft : A ++ x :: (B ++ C) = (A ++ x :: B) ++ C := by simp
    have holdLeft : A ++ (B ++ x :: C) = (A ++ (B ++ [x])) ++ C := by simp
    rw [hnewLeft, holdLeft]
    exact drop_append_congr C (by simp) (by simp; omega)

/-- A row moved down leaves the rows above the drop. -/
theorem mem_drop_moveRow {target : ℕ} (s : List α × ℕ) {source m : ℕ} (hs : source < m)
    (htarget : m ≤ target) (hm : m < s.1.length) :
    s.1[source] ∈ (moveRow target s source).1.drop m := by
  rcases moveRow_cases target s (hs.trans hm) with ⟨heq, -⟩ |
    ⟨-, A, x, B, C, hold, hA, hB, hnew⟩ | ⟨hgt, -⟩
  · omega
  · rw [getElem_split hold hA, hnew, ← List.append_assoc, List.drop_append_of_le_length]
    · exact List.mem_append_right _ List.mem_cons_self
    · rw [List.length_append]
      omega
  · omega

/-- The row below a row that is moved down comes up. -/
theorem mem_take_moveRow {target : ℕ} (s : List α × ℕ) {source m : ℕ} (hs : source < m)
    (htarget : m ≤ target) (hm : m < s.1.length) :
    s.1[m] ∈ (moveRow target s source).1.take m := by
  rcases moveRow_cases target s (hs.trans hm) with ⟨heq, -⟩ |
    ⟨-, A, x, B, C, hold, hA, hB, hnew⟩ | ⟨hgt, -⟩
  · omega
  · obtain ⟨B₁, y, B₂, rfl, hB₁⟩ := split_at B (i := m - source - 1) (by omega)
    have holdLeft : s.1 = (A ++ x :: B₁) ++ y :: (B₂ ++ C) := by
      rw [hold]
      simp
    have hnewLeft : A ++ (B₁ ++ y :: B₂ ++ x :: C) = (A ++ (B₁ ++ [y])) ++ (B₂ ++ x :: C) := by
      simp
    have hlength : (A ++ x :: B₁).length = m := by
      rw [List.length_append, List.length_cons]
      omega
    rw [getElem_split holdLeft hlength, hnew, hnewLeft, List.take_left' (by simpa using hlength)]
    simp
  · omega

/-! ## All rows -/

theorem moveRows_perm (target : ℕ) {s : List α × ℕ} {rows : List ℕ}
    (hvalid : ∀ row ∈ rows, row < s.1.length) : (moveRows target s rows).1.Perm s.1 := by
  induction rows generalizing s with
  | nil => exact .refl _
  | cons row rows ih =>
    have hperm := moveRow_perm target s (hvalid row List.mem_cons_self)
    have hrest : ∀ row' ∈ rows, row' < (moveRow target s row).1.length := fun row' hmem =>
      hperm.length_eq ▸ hvalid row' (List.mem_cons_of_mem _ hmem)
    exact (ih hrest).trans hperm

theorem moveRows_append (target : ℕ) (s : List α × ℕ) (rows rows' : List ℕ) :
    moveRows target s (rows ++ rows') = moveRows target (moveRows target s rows) rows' :=
  List.foldl_append

/-- What all moves keep of the list, the run keeps. -/
theorem moveRows_keep {β : Type*} (view : List α → β) {target : ℕ} {fits : ℕ → Prop}
    (hstep : ∀ (s : List α × ℕ) (row : ℕ), row < s.1.length → fits row →
      view (moveRow target s row).1 = view s.1) {s : List α × ℕ} {rows : List ℕ}
    (hvalid : ∀ row ∈ rows, row < s.1.length) (hfits : ∀ row ∈ rows, fits row) :
    view (moveRows target s rows).1 = view s.1 := by
  induction rows generalizing s with
  | nil => rfl
  | cons row rows ih =>
    have hrow := hvalid row List.mem_cons_self
    have hrest : ∀ row' ∈ rows, row' < (moveRow target s row).1.length := fun row' hmem =>
      (moveRow_perm target s hrow).length_eq ▸ hvalid row' (List.mem_cons_of_mem _ hmem)
    calc view (moveRows target s (row :: rows)).1
        = view (moveRow target s row).1 :=
          ih hrest fun row' hmem => hfits row' (List.mem_cons_of_mem _ hmem)
      _ = view s.1 := hstep s row hrow (hfits row List.mem_cons_self)

theorem moveRows_take {target m : ℕ} {s : List α × ℕ} {rows : List ℕ}
    (hvalid : ∀ row ∈ rows, row < s.1.length) (hrows : ∀ row ∈ rows, m ≤ row)
    (htarget : m ≤ target) : (moveRows target s rows).1.take m = s.1.take m :=
  moveRows_keep (·.take m) (fun s _ hs hrow => moveRow_take s hs hrow htarget) hvalid hrows

theorem moveRows_drop {target m : ℕ} {s : List α × ℕ} {rows : List ℕ}
    (hvalid : ∀ row ∈ rows, row < s.1.length) (hrows : ∀ row ∈ rows, row < m)
    (htarget : target < m) : (moveRows target s rows).1.drop m = s.1.drop m :=
  moveRows_keep (·.drop m) (fun s _ hs hrow => moveRow_drop s hs hrow htarget) hvalid hrows

/-- Below the first row moved and the drop, the entries stay the same ones. -/
theorem mem_drop_moveRows {target m : ℕ} {s : List α × ℕ} {rows : List ℕ}
    (hvalid : ∀ row ∈ rows, row < s.1.length) (hrows : ∀ row ∈ rows, m ≤ row)
    (htarget : m ≤ target) {x : α} (hmem : x ∈ s.1.drop m) :
    x ∈ (moveRows target s rows).1.drop m := by
  have hperm := moveRows_perm target hvalid
  rw [← List.take_append_drop m s.1, ← List.take_append_drop m (moveRows target s rows).1,
    moveRows_take hvalid hrows htarget, List.perm_append_left_iff] at hperm
  exact hperm.mem_iff.mpr hmem

/-- **No profile is lost or doubled.** -/
theorem dropMimeData_perm (profiles : List α) (dragged : DraggedRows profiles.length)
    (row parent : Option ℕ) : (dropMimeData profiles dragged row parent).1.Perm profiles := by
  unfold dropMimeData
  split_ifs
  · exact .refl _
  · exact moveRows_perm _ fun row hmem =>
      dragged.valid row ((List.perm_insertionSort _ _).mem_iff.mp hmem)

/-- A drop does not look at the profiles. -/
theorem moveRow_map {β : Type*} (f : α → β) (target : ℕ) (s : List α × ℕ) (row : ℕ) :
    moveRow target (s.1.map f, s.2) row =
      ((moveRow target s row).1.map f, (moveRow target s row).2) := by
  unfold moveRow
  dsimp only
  rw [List.length_map, List.getElem?_map]
  generalize (if (if row < target then target + 1 else target) ≥ s.1.length then s.1.length
    else if row < target then target + 1 else target) = visualTarget
  cases s.1[row]? with
  | none =>
    split_ifs
    all_goals rfl
  | some item =>
    dsimp only [Option.map_some]
    rw [← List.map_insertIdx, List.eraseIdx_map, List.eraseIdx_map, ← List.map_insertIdx]
    split_ifs
    all_goals rfl

theorem moveRows_map {β : Type*} (f : α → β) (target : ℕ) (s : List α × ℕ) (rows : List ℕ) :
    moveRows target (s.1.map f, s.2) rows =
      ((moveRows target s rows).1.map f, (moveRows target s rows).2) := by
  induction rows generalizing s with
  | nil => rfl
  | cons row rows ih =>
    show moveRows target (moveRow target (s.1.map f, s.2) row) rows = _
    rw [moveRow_map]
    exact ih (moveRow target s row)

/-- A drop does not look at the profiles: it moves them as it moves their entries. -/
theorem dropMimeData_map {β : Type*} (f : α → β) {size : ℕ} (profiles : List α)
    (dragged : DraggedRows size) (row parent : Option ℕ) :
    dropMimeData (profiles.map f) dragged row parent =
      ((dropMimeData profiles dragged row parent).1.map f,
        (dropMimeData profiles dragged row parent).2) := by
  unfold dropMimeData
  dsimp only
  rw [List.length_map]
  split_ifs
  · rfl
  · rw [moveRows_map f _ (profiles, 0)]

/-- The profiles go where their entries go. -/
theorem dropMimeData_fst {size : ℕ} (profiles : List α) (dragged : DraggedRows size)
    (row parent : Option ℕ) : (dropMimeData profiles dragged row parent).1 =
      (dropMimeData profiles.zipIdx dragged row parent).1.map Prod.fst := by
  have hmap := congrArg Prod.fst (dropMimeData_map Prod.fst profiles.zipIdx dragged row parent)
  rwa [List.zipIdx_map_fst] at hmap

/-! ## The property -/

/-- The dragged entries stand together in their order, the others in theirs, those from above
    the drop before them and those from below it after them. -/
def Reordered (profiles : List α) (rows : List ℕ) (target : ℕ) (dropped : List (α × ℕ)) : Prop :=
  ∃ before after,
    before ++ after = profiles.zipIdx.filter (·.2 ∉ rows) ∧
    dropped = before ++ profiles.zipIdx.filter (·.2 ∈ rows) ++ after ∧
    (∀ entry ∈ before, entry.2 ≤ target) ∧ ∀ entry ∈ after, target ≤ entry.2

theorem pairwise_zipIdx (profiles : List α) :
    profiles.zipIdx.Pairwise fun entry entry' => entry.2 < entry'.2 := by
  rw [← List.pairwise_map (f := Prod.snd) (R := (· < ·)), List.zipIdx_map_snd]
  exact List.pairwise_lt_range'

/-- The order of the dragged entries. -/
theorem Reordered.lt {profiles : List α} {rows : List ℕ} {target : ℕ} {P Q : List (α × ℕ)}
    (h : Reordered profiles rows target (P ++ Q)) {entry entry' : α × ℕ} (hmem : entry ∈ P)
    (hmem' : entry' ∈ Q) (hrow : entry.2 ∈ rows) (hrow' : entry'.2 ∈ rows) :
    entry.2 < entry'.2 := by
  obtain ⟨before, after, hothers, hsplit, -, -⟩ := h
  have hnone : ∀ others : List (α × ℕ), (∀ e ∈ others, e ∈ before ++ after) →
      others.filter (·.2 ∈ rows) = [] := by
    intro others hsub
    refine List.filter_eq_nil_iff.mpr fun e he => ?_
    have hmem := hothers ▸ hsub e he
    simpa using (List.mem_filter.mp hmem).2
  have hfilter : (P ++ Q).filter (·.2 ∈ rows) = profiles.zipIdx.filter (·.2 ∈ rows) := by
    rw [hsplit, List.filter_append, List.filter_append,
      hnone before fun e he => List.mem_append_left _ he,
      hnone after fun e he => List.mem_append_right _ he, List.filter_filter, List.nil_append,
      List.append_nil]
    simp
  have hsorted := (pairwise_zipIdx profiles).sublist
    (List.filter_sublist (p := fun e => decide (e.2 ∈ rows)))
  rw [← hfilter, List.filter_append] at hsorted
  exact (List.pairwise_append.mp hsorted).2.2 entry
    (List.mem_filter.mpr ⟨hmem, decide_eq_true hrow⟩) entry'
    (List.mem_filter.mpr ⟨hmem', decide_eq_true hrow'⟩)

/-! ## Two rows and more -/

section Entries

variable {profiles : List α} {target : ℕ}

theorem getElem_zipIdx_row {row : ℕ} (h : row < profiles.zipIdx.length) :
    (profiles.zipIdx[row]).2 = row := by
  rw [List.getElem_zipIdx]
  exact Nat.zero_add row

/-- The second row is not below the drop: it comes up while the first is moved over it. -/
theorem not_reordered_of_le {p q : ℕ} {rest : List ℕ} {rows : List ℕ} (hp : p ∈ rows)
    (hq : q ∈ rows) (hpq : p < q) (hle : q ≤ target) (hrest : ∀ row ∈ rest, q ≤ row)
    (hvalid : ∀ row ∈ p :: q :: rest, row < profiles.length) :
    ¬ Reordered profiles rows target
      (moveRows target (profiles.zipIdx, 0) (p :: q :: rest)).1 := by
  intro h
  have hlength : profiles.zipIdx.length = profiles.length := List.length_zipIdx
  have hqlt : q < profiles.zipIdx.length := by
    rw [hlength]
    exact hvalid q (by simp)
  set s : List (α × ℕ) × ℕ := (profiles.zipIdx, 0)
  set t := moveRow target s p
  have htlength : t.1.length = profiles.length := by
    rw [(moveRow_perm target s (hpq.trans hqlt)).length_eq]
    exact hlength
  have htvalid : ∀ row ∈ q :: rest, row < t.1.length := fun row hmem =>
    htlength ▸ hvalid row (List.mem_cons_of_mem _ hmem)
  have htrows : ∀ row ∈ q :: rest, q ≤ row := List.forall_mem_cons.mpr ⟨le_refl q, hrest⟩
  have hbelow : s.1[p] ∈ (moveRows target t (q :: rest)).1.drop q :=
    mem_drop_moveRows htvalid htrows hle (mem_drop_moveRow s hpq hle hqlt)
  have habove : s.1[q] ∈ (moveRows target t (q :: rest)).1.take q := by
    rw [moveRows_take htvalid htrows hle]
    exact mem_take_moveRow s hpq hle hqlt
  have hp' : (s.1[p]).2 = p := getElem_zipIdx_row (hpq.trans hqlt)
  have hq' : (s.1[q]).2 = q := getElem_zipIdx_row hqlt
  change Reordered profiles rows target (moveRows target t (q :: rest)).1 at h
  rw [← List.take_append_drop q (moveRows target t (q :: rest)).1] at h
  have hlt := h.lt habove hbelow (by rwa [hq']) (by rwa [hp'])
  omega

/-- The last row is below the drop: it comes before the first. -/
theorem not_reordered_of_gt {p last : ℕ} {mid : List ℕ} {rows : List ℕ} (hp : p ∈ rows)
    (hlast : last ∈ rows) (hplast : p < last) (hmid : ∀ row ∈ mid, target < row ∧ row < last)
    (hgt : target < last) (hvalid : ∀ row ∈ p :: mid ++ [last], row < profiles.length) :
    ¬ Reordered profiles rows target
      (moveRows target (profiles.zipIdx, 0) (p :: mid ++ [last])).1 := by
  intro h
  have hlength : profiles.zipIdx.length = profiles.length := List.length_zipIdx
  set s : List (α × ℕ) × ℕ := (profiles.zipIdx, 0)
  have hs : ∀ row ∈ p :: mid, row < s.1.length := fun row hmem =>
    hlength.symm ▸ hvalid row (List.mem_append_left _ hmem)
  have hlastlt : last < s.1.length := hlength.symm ▸ hvalid last (by simp)
  have hplt : p < s.1.length := hplast.trans hlastlt
  set t := moveRows target s (p :: mid)
  have htlast : last < t.1.length := by
    rw [(moveRows_perm target hs).length_eq]
    exact hlastlt
  have hdrop : t.1.drop last = s.1.drop last :=
    moveRows_drop hs (List.forall_mem_cons.mpr ⟨hplast, fun row hmem => (hmid row hmem).2⟩) hgt
  -- the first entry stands at the drop or below it
  have hfirst : s.1[p] ∈ t.1.drop target := by
    rcases lt_or_ge p target with hlt | hge
    · have hmoved := mem_drop_moveRow s hlt (le_refl target) (hgt.trans hlastlt)
      have hlen := (moveRow_perm target s hplt).length_eq
      exact mem_drop_moveRows (s := moveRow target s p)
        (fun row hmem => hlen ▸ hs row (List.mem_cons_of_mem _ hmem))
        (fun row hmem => (hmid row hmem).1.le) (le_refl target) hmoved
    · refine mem_drop_moveRows hs ?_ (le_refl target) ?_
      · exact List.forall_mem_cons.mpr ⟨hge, fun row hmem => (hmid row hmem).1.le⟩
      · exact List.mem_drop_iff_getElem.mpr ⟨p - target, by omega, by simp [hge]⟩
  rw [moveRows_append] at h
  change Reordered profiles rows target (moveRow target t last).1 at h
  rcases moveRow_cases target t htlast with ⟨heq, -⟩ | ⟨hlt, -⟩ |
    ⟨-, A, x, B, C, hold, hA, hB, hnew⟩
  · omega
  · omega
  · have hx : x = s.1[last] := by
      rw [hold, ← List.append_assoc, List.drop_left' (by simpa using hB),
        List.drop_eq_getElem_cons hlastlt] at hdrop
      exact (List.cons.inj hdrop).1
    have hp' : (s.1[p]).2 = p := getElem_zipIdx_row hplt
    have hlast' : x.2 = last := by
      rw [hx]
      exact getElem_zipIdx_row hlastlt
    have hbelow : s.1[p] ∈ B ++ C := by
      rw [hold, List.drop_left' hA] at hfirst
      rcases List.mem_append.mp hfirst with hmem | hmem
      · exact List.mem_append_left _ hmem
      · rcases List.mem_cons.mp hmem with heq | hmem
        · rw [heq] at hp'
          omega
        · exact List.mem_append_right _ hmem
    rw [hnew, show A ++ x :: (B ++ C) = (A ++ [x]) ++ (B ++ C) by simp] at h
    have hlt := h.lt (List.mem_append_right A (List.mem_singleton_self x)) hbelow
      (by rwa [hlast']) (by rwa [hp'])
    omega

theorem row_of_getElem? {i : ℕ} {entry : α × ℕ} (h : profiles.zipIdx[i]? = some entry) :
    entry.2 = i := by
  rw [List.getElem?_zipIdx] at h
  obtain ⟨item, -, rfl⟩ := Option.map_eq_some_iff.mp h
  exact Nat.zero_add i

theorem row_lt_of_split {P Q : List (α × ℕ)} (hsplit : profiles.zipIdx = P ++ Q) {entry : α × ℕ}
    (hmem : entry ∈ P) : entry.2 < P.length := by
  obtain ⟨i, hi⟩ := List.mem_iff_getElem?.mp hmem
  obtain ⟨hlt, -⟩ := List.getElem?_eq_some_iff.mp hi
  have hentry : profiles.zipIdx[i]? = some entry := by
    rw [hsplit, List.getElem?_append_left hlt, hi]
  have hrow := row_of_getElem? hentry
  rwa [hrow]

theorem le_row_of_split {P Q : List (α × ℕ)} (hsplit : profiles.zipIdx = P ++ Q) {entry : α × ℕ}
    (hmem : entry ∈ Q) : P.length ≤ entry.2 := by
  obtain ⟨i, hi⟩ := List.mem_iff_getElem?.mp hmem
  have hentry : profiles.zipIdx[P.length + i]? = some entry := by
    rw [hsplit, List.getElem?_append_right (Nat.le_add_right _ _), Nat.add_sub_cancel_left, hi]
  rw [row_of_getElem? hentry]
  exact Nat.le_add_right _ _

/-- One row and the others. -/
theorem filter_of_split {A D : List (α × ℕ)} {x : α × ℕ} {row : ℕ}
    (hsplit : profiles.zipIdx = A ++ x :: D) (hA : A.length = row) :
    profiles.zipIdx.filter (·.2 ∉ [row]) = A ++ D ∧
      profiles.zipIdx.filter (·.2 ∈ [row]) = [x] := by
  have hsplit' : profiles.zipIdx = (A ++ [x]) ++ D := by
    rw [hsplit, List.append_assoc]
    rfl
  have hlength : (A ++ [x]).length = row + 1 := by rw [List.length_append, hA]; rfl
  have hx : x.2 = row := by
    have hlt := row_lt_of_split hsplit' (List.mem_append_right A (List.mem_singleton_self x))
    have hge : A.length ≤ x.2 := le_row_of_split hsplit List.mem_cons_self
    omega
  have hothers : ∀ entry, entry ∈ A ∨ entry ∈ D → ¬ entry.2 = row := by
    rintro entry (hmem | hmem)
    · have hlt := row_lt_of_split hsplit hmem
      omega
    · have hge := le_row_of_split hsplit' hmem
      omega
  have hpart : ∀ others : List (α × ℕ), (∀ e ∈ others, ¬ e.2 = row) →
      others.filter (·.2 ∉ [row]) = others ∧ others.filter (·.2 ∈ [row]) = [] := by
    intro others hne
    refine ⟨List.filter_eq_self.mpr fun e he => ?_, List.filter_eq_nil_iff.mpr fun e he => ?_⟩
    · simpa using hne e he
    · simpa using hne e he
  obtain ⟨hA₁, hA₂⟩ := hpart A fun e he => hothers e (.inl he)
  obtain ⟨hD₁, hD₂⟩ := hpart D fun e he => hothers e (.inr he)
  constructor
  · rw [hsplit, List.filter_append, hA₁, List.filter_cons_of_neg (by simp [hx]), hD₁]
  · rw [hsplit, List.filter_append, hA₂, List.filter_cons_of_pos (by simp [hx]), hD₂]
    rfl

/-- No row, or one. -/
theorem reordered_of_le_one {rows : List ℕ} (hle : rows.length ≤ 1)
    (hvalid : ∀ row ∈ rows, row < profiles.length) :
    Reordered profiles rows target (moveRows target (profiles.zipIdx, 0) rows).1 := by
  match rows with
  | [] =>
    refine ⟨profiles.zipIdx.take target, profiles.zipIdx.drop target, ?_, ?_, ?_, ?_⟩
    · simp
    · show profiles.zipIdx = _
      simp
    · intro entry hmem
      have hlt := row_lt_of_split (List.take_append_drop target profiles.zipIdx).symm hmem
      rw [List.length_take] at hlt
      omega
    · intro entry hmem
      have hge := le_row_of_split (List.take_append_drop target profiles.zipIdx).symm hmem
      have hpos := List.length_pos_of_mem hmem
      rw [List.length_drop] at hpos
      rw [List.length_take] at hge
      omega
  | [row] =>
    show Reordered profiles [row] target (moveRow target (profiles.zipIdx, 0) row).1
    have hlength : profiles.zipIdx.length = profiles.length := List.length_zipIdx
    have hrow : row < profiles.zipIdx.length := by
      rw [hlength]
      exact hvalid row (List.mem_singleton_self row)
    rcases moveRow_cases target (profiles.zipIdx, 0) hrow with ⟨heq, hnew⟩ |
      ⟨hlt, A, x, B, C, hold, hA, hB, hnew⟩ | ⟨hgt, A, x, B, C, hold, hA, hB, hnew⟩
    · obtain ⟨A, x, D, hold, hA⟩ := split_at profiles.zipIdx hrow
      obtain ⟨hothers, hdragged⟩ := filter_of_split hold hA
      refine ⟨A, D, hothers.symm, ?_, fun entry hmem => ?_, fun entry hmem => ?_⟩
      · rw [hnew, hdragged, List.append_assoc]
        exact hold
      · have hlt := row_lt_of_split hold hmem
        omega
      · have hge := le_row_of_split hold (List.mem_cons_of_mem x hmem)
        omega
    · obtain ⟨hothers, hdragged⟩ := filter_of_split hold hA
      have hleft : profiles.zipIdx = (A ++ x :: B) ++ C := by
        rw [List.append_assoc]
        exact hold
      have hlen : (A ++ x :: B).length = A.length + B.length + 1 := by
        rw [List.length_append, List.length_cons, Nat.add_assoc]
      refine ⟨A ++ B, C, ?_, ?_, fun entry hmem => ?_, fun entry hmem => ?_⟩
      · rw [hothers, List.append_assoc]
      · rw [hnew, hdragged]
        simp
      · have hmem' : entry ∈ A ++ x :: B := by
          rcases List.mem_append.mp hmem with hmem | hmem
          · exact List.mem_append_left _ hmem
          · exact List.mem_append_right _ (List.mem_cons_of_mem x hmem)
        have hlt := row_lt_of_split hleft hmem'
        omega
      · have hge := le_row_of_split hleft hmem
        have hlast := row_lt_of_split (List.append_nil profiles.zipIdx).symm
          (hleft ▸ List.mem_append_right _ hmem)
        dsimp only at hB
        omega
    · have hleft : profiles.zipIdx = (A ++ B) ++ x :: C := by
        rw [List.append_assoc]
        exact hold
      obtain ⟨hothers, hdragged⟩ := filter_of_split hleft (by rw [List.length_append, hB])
      refine ⟨A, B ++ C, ?_, ?_, fun entry hmem => ?_, fun entry hmem => ?_⟩
      · rw [hothers, List.append_assoc]
      · rw [hnew, hdragged]
        simp
      · have hlt := row_lt_of_split hold hmem
        omega
      · have hmem' : entry ∈ B ++ x :: C := by
          rcases List.mem_append.mp hmem with hmem | hmem
          · exact List.mem_append_left _ hmem
          · exact List.mem_append_right _ (List.mem_cons_of_mem x hmem)
        have hge := le_row_of_split hold hmem'
        omega

/-- In a drop of rows in their order, the entries go where they should exactly when there is at
    most one. -/
theorem moveRows_reordered_iff {rows : List ℕ} (hsorted : rows.Pairwise (· < ·))
    (hvalid : ∀ row ∈ rows, row < profiles.length) :
    Reordered profiles rows target (moveRows target (profiles.zipIdx, 0) rows).1 ↔
      rows.length ≤ 1 := by
  refine ⟨fun h => ?_, fun hle => reordered_of_le_one hle hvalid⟩
  by_contra hlong
  match rows with
  | [] => simp at hlong
  | [row] => simp at hlong
  | p :: q :: rest =>
    obtain ⟨hp, hsorted⟩ := List.pairwise_cons.mp hsorted
    have hq := (List.pairwise_cons.mp hsorted).1
    have hpq : p < q := hp q List.mem_cons_self
    rcases Nat.lt_or_ge target q with hlt | hge
    · obtain ⟨mid, last, hmid⟩ : ∃ mid last, q :: rest = mid ++ [last] :=
        ⟨_, _, (List.dropLast_append_getLast (List.cons_ne_nil q rest)).symm⟩
      have hge : ∀ row ∈ mid ++ [last], q ≤ row := by
        rw [← hmid]
        exact List.forall_mem_cons.mpr ⟨le_refl q, fun row hmem => (hq row hmem).le⟩
      have hlast : q ≤ last := hge last (by simp)
      rw [hmid] at h hsorted hvalid
      refine not_reordered_of_gt List.mem_cons_self (show last ∈ _ by simp)
        (hpq.trans_le hlast) (fun row hmem => ⟨?_, ?_⟩) (hlt.trans_le hlast) hvalid h
      · exact hlt.trans_le (hge row (List.mem_append_left _ hmem))
      · exact (List.pairwise_append.mp hsorted).2.2 row hmem last (List.mem_singleton_self last)
    · exact not_reordered_of_le List.mem_cons_self (by simp) hpq hge (fun row hmem =>
        (hq row hmem).le) hvalid h

end Entries

theorem sorted_rows {size : ℕ} (dragged : DraggedRows size) :
    (dragged.rows.insertionSort (· ≤ ·)).Pairwise (· < ·) := by
  have hle := List.pairwise_insertionSort (· ≤ ·) dragged.rows
  have hnodup := (List.perm_insertionSort (· ≤ ·) dragged.rows).nodup_iff.mpr dragged.nodup
  exact (hle.and hnodup).imp fun {a b} h => lt_of_le_of_ne h.1 h.2

/-- The property reads the rows as a set. -/
theorem reordered_congr {profiles : List α} {rows rows' : List ℕ} (hperm : rows.Perm rows')
    (target : ℕ) (dropped : List (α × ℕ)) :
    Reordered profiles rows target dropped ↔ Reordered profiles rows' target dropped := by
  have hmem : ∀ row, row ∈ rows ↔ row ∈ rows' := fun row => hperm.mem_iff
  unfold Reordered
  simp only [hmem]

/-- **The dragged profiles stand together in their order where they were dropped, and the others
    keep theirs, exactly when at most one row is dragged.** -/
theorem reordered_iff (profiles : List α) (dragged : DraggedRows profiles.length)
    (row parent : Option ℕ) :
    Reordered profiles dragged.rows (targetRow row parent profiles.length)
        (dropMimeData profiles.zipIdx dragged row parent).1 ↔ dragged.rows.length ≤ 1 := by
  have hperm := List.perm_insertionSort (· ≤ ·) dragged.rows
  have hdrop : (dropMimeData profiles.zipIdx dragged row parent).1 =
      (moveRows (targetRow row parent profiles.length) (profiles.zipIdx, 0)
        (dragged.rows.insertionSort (· ≤ ·))).1 := by
    unfold dropMimeData
    rw [List.length_zipIdx]
    split_ifs with hnil
    · rw [List.length_eq_zero_iff.mp hnil]
      rfl
    · rfl
  rw [hdrop, ← reordered_congr hperm, ← hperm.length_eq]
  exact moveRows_reordered_iff (sorted_rows dragged)
    fun row hmem => dragged.valid row (hperm.mem_iff.mp hmem)

/-- The first two of four rows, dropped on the last. -/
def firstTwo : DraggedRows ["a", "b", "c", "d"].length := ⟨[0, 1], by decide, by decide⟩

theorem two_rows_are_torn_apart :
    ¬ (∀ (profiles : List String) (dragged : DraggedRows profiles.length)
        (row parent : Option ℕ),
      Reordered profiles dragged.rows (targetRow row parent profiles.length)
        (dropMimeData profiles.zipIdx dragged row parent).1) ∧
      (dropMimeData ["a", "b", "c", "d"] firstTwo (some 3) none).1 = ["b", "d", "a", "c"] := by
  refine ⟨fun h => ?_, by decide +kernel⟩
  have hdropped : (dropMimeData (["a", "b", "c", "d"].zipIdx) firstTwo (some 3) none).1 =
      [("b", 1)] ++ [("d", 3), ("a", 0), ("c", 2)] := by decide +kernel
  have hdrop := h ["a", "b", "c", "d"] firstTwo (some 3) none
  rw [hdropped] at hdrop
  have hlt : 1 < 0 := hdrop.lt (List.mem_singleton_self ("b", 1))
    (show ("a", 0) ∈ _ by decide) (by decide) (by decide)
  exact absurd hlt (by decide)

end DropRows

end NekoBox.Window
