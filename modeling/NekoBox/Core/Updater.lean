import NekoBox.Lib.FileTree

/-!
# The move of an update

`Mv` (`updater_unix.go`, lines 85–113) moves the files of one tree into another. Every
step of it at the file system may fail (`fails` says which do); `os.MkdirAll` is taken
apart into one step for each directory. The two trees are apart from each other, and
`Mv` takes nothing of the source away before it has read and walked by it.

* `mv_eq`: the recursion performs the steps of a plan, which the source tree alone
  determines;
* `run_visits`: what the destination has is its old contents or those of the source, up
  to the step whose failure ends the move;
* `mv_sound_iff`: the exception is a rename that fails after the old file was removed.
-/

namespace NekoBox.Core.Updater

open NekoBox.Lib

variable {N C : Type*}

/-- A step of `Mv` at the file system; the paths are relative to the two roots. -/
inductive Step (N : Type*) where
  | stat (p : List N)
  | readDir (p : List N)
  /-- to see that a directory of the destination is there, or to make it -/
  | mkdir (p : List N)
  | removeAll (p : List N)
  | rename (p : List N)

/-- The error of `os.RemoveAll` is dropped. -/
def Step.isRemove : Step N → Bool
  | .removeAll _ => true
  | _ => false

/-- The two trees, and how many steps have been made. -/
structure State (N C : Type*) where
  src : List N → Option (Node C)
  dst : List N → Option (Node C)
  tick : ℕ := 0

variable [DecidableEq N]

/-- What a step does if nothing hinders it; `false` if it cannot. -/
def effect (s : State N C) : Step N → Bool × State N C
  | .stat p => ((s.src p).isSome, s)
  | .readDir p => (match s.src p with
    | some .dir => true
    | _ => false, s)
  | .mkdir p =>
    match s.dst p, s.dst p.dropLast with
    | some .dir, _ => (true, s)
    | none, some .dir => (true, { s with dst := Function.update s.dst p (some .dir) })
    | _, _ => (false, s)
  | .removeAll p => (true, { s with dst := fun q => if p <+: q then none else s.dst q })
  | .rename p =>
    match s.src p, s.dst p, s.dst p.dropLast with
    | some (.file c), some (.file _), some .dir | some (.file c), none, some .dir =>
      (true, { s with
        src := Function.update s.src p none
        dst := Function.update s.dst p (some (.file c)) })
    | _, _, _ => (false, s)

/-- A step, which may fail. -/
def perform (fails : ℕ → Bool) (step : Step N) (s : State N C) : Bool × State N C :=
  if fails s.tick then (false, { s with tick := s.tick + 1 })
  else
    let r := effect s step
    (r.1, { r.2 with tick := s.tick + 1 })

/-- `if err != nil { return err }` -/
def andThen (a b : State N C → Bool × State N C) (s : State N C) : Bool × State N C :=
  let r := a s
  if r.1 then b r.2 else (false, r.2)

/-- `os.MkdirAll` for the directory of a path, from the root down. -/
def mkdirAll (fails : ℕ → Bool) : List (List N) → State N C → Bool × State N C
  | [], s => (true, s)
  | p :: ps, s => andThen (perform fails (.mkdir p)) (mkdirAll fails ps) s

mutual

/-- `Mv` of the tree at a path. -/
def mv (fails : ℕ → Bool) (p : List N) : Tree N C → State N C → Bool × State N C
  | .dir entries, s =>
    andThen (perform fails (.stat p))
      (andThen (perform fails (.readDir p)) (mvEntries fails p entries)) s
  | .file _, s =>
    andThen (perform fails (.stat p))
      (andThen (mkdirAll fails p.dropLast.inits) fun s =>
        let r := perform fails (.removeAll p) s
        perform fails (.rename p) r.2) s

/-- The loop over the entries of a directory. -/
def mvEntries (fails : ℕ → Bool) (p : List N) :
    List (N × Tree N C) → State N C → Bool × State N C
  | [], s => (true, s)
  | (n, t) :: entries, s => andThen (mv fails (p ++ [n]) t) (mvEntries fails p entries) s

end

/-! ## The plan -/

/-- The steps for what lies at a path. -/
def steps (v : List N × Node C) : List (Step N) :=
  match v.2 with
  | .dir => [.stat v.1, .readDir v.1]
  | .file _ => .stat v.1 :: v.1.dropLast.inits.map .mkdir ++ [.removeAll v.1, .rename v.1]

/-- All the steps of a move. -/
def plan (p : List N) (t : Tree N C) : List (Step N) := (t.visits p).flatMap steps

/-- Perform steps up to one that fails. -/
def run (fails : ℕ → Bool) : List (Step N) → State N C → Bool × State N C
  | [], s => (true, s)
  | step :: rest, s =>
    let r := perform fails step s
    if r.1 || step.isRemove then run fails rest r.2 else (false, r.2)

variable {fails : ℕ → Bool} {s : State N C}

theorem run_append (l l' : List (Step N)) (s : State N C) :
    run fails (l ++ l') s = andThen (run fails l) (run fails l') s := by
  induction l generalizing s with
  | nil => rfl
  | cons step l ih =>
    rw [List.cons_append, run]
    unfold andThen
    rw [run]
    dsimp only
    split_ifs with hgo hdone
    · rw [ih, andThen, if_pos hdone]
    · rw [ih, andThen, if_neg hdone]
    · contradiction
    · rfl

/-- A step whose failure ends the move. -/
theorem run_cons {step : Step N} (hstep : step.isRemove = false) (l : List (Step N))
    (s : State N C) :
    run fails (step :: l) s = andThen (perform fails step) (run fails l) s := by
  rw [run, hstep, andThen, Bool.or_false]

theorem run_remove (p : List N) (l : List (Step N)) (s : State N C) :
    run fails (.removeAll p :: l) s = run fails l (perform fails (.removeAll p) s).2 := by
  rw [run]
  exact if_pos (Bool.or_true _)

theorem run_singleton {step : Step N} (hstep : step.isRemove = false) (s : State N C) :
    run fails [step] s = perform fails step s := by
  rw [run_cons hstep, andThen]
  split_ifs with hok
  · exact Prod.ext hok.symm rfl
  · exact Prod.ext (by simpa using hok) rfl

theorem mkdirAll_eq (ps : List (List N)) (s : State N C) :
    mkdirAll fails ps s = run fails (ps.map .mkdir) s := by
  induction ps generalizing s with
  | nil => rfl
  | cons p ps ih =>
    rw [mkdirAll, List.map_cons, run_cons rfl, andThen, andThen]
    split_ifs
    · exact ih _
    · rfl

/-- The recursion performs the plan of the tree. -/
theorem mv_eq (p : List N) (t : Tree N C) (s : State N C) :
    mv fails p t s = run fails (plan p t) s := by
  induction t using Tree.induct generalizing p s with
  | file c =>
    have hplan : plan p (.file c : Tree N C) =
        .stat p :: (p.dropLast.inits.map .mkdir ++ [.removeAll p, .rename p]) := by
      simp [plan, Tree.visits, steps]
    rw [hplan, mv, run_cons rfl]
    congr 1
    funext s
    rw [run_append]
    have hmkdir : (mkdirAll fails p.dropLast.inits : State N C → _) =
        run fails (p.dropLast.inits.map .mkdir) := funext fun s => mkdirAll_eq _ s
    rw [hmkdir]
    congr 1
    funext s
    rw [run_remove, run_singleton rfl]
  | dir entries ih =>
    have hentries : ∀ (es : List (N × Tree N C)),
        (∀ e ∈ es, ∀ p s, mv fails p e.2 s = run fails (plan p e.2) s) → ∀ s,
        mvEntries fails p es s = run fails ((Tree.visitsEntries p es).flatMap steps) s := by
      intro es
      induction es with
      | nil => exact fun _ s => rfl
      | cons e es ihes =>
        intro hes s
        obtain ⟨he, hes⟩ := List.forall_mem_cons.mp hes
        rw [mvEntries, Tree.visitsEntries, List.flatMap_append, run_append]
        have hfirst : (mv fails (p ++ [e.1]) e.2 : State N C → _) =
            run fails ((Tree.visits (p ++ [e.1]) e.2).flatMap steps) := funext (he (p ++ [e.1]))
        rw [hfirst]
        congr 1
        exact funext (ihes hes)
    have hplan : plan p (.dir entries : Tree N C) =
        .stat p :: .readDir p :: (Tree.visitsEntries p entries).flatMap steps := by
      simp [plan, Tree.visits, steps]
    rw [hplan, mv, run_cons rfl]
    congr 1
    funext s
    rw [run_cons rfl]
    congr 1
    exact funext (hentries entries ih)

/-! ## The step that ends a move -/

/-- The first step that fails, but for those whose error is dropped, and when it is made. -/
def firstFailure (fails : ℕ → Bool) : List (Step N) → ℕ → Option (ℕ × Step N)
  | [], _ => none
  | step :: rest, k =>
    if fails k = true ∧ step.isRemove = false then some (k, step)
    else firstFailure fails rest (k + 1)

omit [DecidableEq N] in
theorem firstFailure_append (l l' : List (Step N)) (k : ℕ) :
    firstFailure fails (l ++ l') k =
      (firstFailure fails l k).or (firstFailure fails l' (k + l.length)) := by
  induction l generalizing k with
  | nil => rfl
  | cons step l ih =>
    rw [List.cons_append, firstFailure, firstFailure]
    split_ifs
    · rfl
    · rw [ih, List.length_cons, Nat.add_right_comm, Nat.add_assoc]

omit [DecidableEq N] in
theorem firstFailure_eq_none {l : List (Step N)} {k : ℕ}
    (h : ∀ i < l.length, fails (k + i) = false) : firstFailure fails l k = none := by
  induction l generalizing k with
  | nil => rfl
  | cons step l ih =>
    have hk : fails k = false := h 0 (Nat.succ_pos _)
    rw [firstFailure, if_neg (by simp [hk])]
    refine ih fun i hi => ?_
    rw [Nat.add_assoc, Nat.add_comm 1 i]
    exact h (i + 1) (Nat.succ_lt_succ hi)

omit [DecidableEq N] in
theorem not_fails_of_firstFailure {step : Step N} (hstep : step.isRemove = false) {k : ℕ}
    (h : firstFailure fails [step] k = none) : fails k ≠ true := by
  intro hfails
  rw [firstFailure, if_pos ⟨hfails, hstep⟩] at h
  cases h

/-! ## What the trees have -/

/-- The trees agree on which of their common paths are directories. -/
def Agree (S D : List N → Option (Node C)) : Prop :=
  ∀ p a b, S p = some a → D p = some b → (a = .dir ↔ b = .dir)

/-- What the source has left is its own, or a file has been moved. -/
def Left (S : List N → Option (Node C)) (p : List N) (src dst : Option (Node C)) : Prop :=
  src = S p ∨ src = none ∧ ∃ c, S p = some (.file c) ∧ dst = some (.file c)

/-- What the destination has is its own, a file of the source, or a directory for one. -/
def Placed (S D : List N → Option (Node C)) (p : List N) (dst : Option (Node C)) : Prop :=
  dst = D p ∨ (∃ c, S p = some (.file c) ∧ dst = some (.file c)) ∨
    S p = some .dir ∧ D p = none ∧ dst = some .dir ∧ ∃ r c, S (p ++ r) = some (.file c)

/-- The state between the moves of two files. -/
structure Inv (S D : List N → Option (Node C)) (s : State N C) : Prop where
  src : ∀ p, Left S p (s.src p) (s.dst p)
  dst : ∀ p, Placed S D p (s.dst p)
  closed : Closed s.dst

variable {S D : List N → Option (Node C)} {p q : List N} {c : C}

omit [DecidableEq N] in
theorem Inv.dst_ne_dir (h : Inv S D s) (hagree : Agree S D) (hfile : S p = some (.file c)) :
    s.dst p ≠ some .dir := by
  intro hdir
  rcases h.dst p with hold | ⟨c', -, hnew⟩ | ⟨hnew, -⟩
  · have hboth := hagree p _ _ hfile (hold.symm.trans hdir)
    exact absurd (hboth.mpr rfl) nofun
  · rw [hdir] at hnew
    cases hnew
  · rw [hfile] at hnew
    cases hnew

omit [DecidableEq N] in
theorem Inv.dst_of_dir (h : Inv S D s) (hagree : Agree S D) (hdir : S p = some .dir) :
    s.dst p = none ∨ s.dst p = some .dir := by
  rcases h.dst p with hold | ⟨c', hfile, -⟩ | ⟨-, -, hnew, -⟩
  · cases hdst : D p with
    | none => exact .inl (hold.trans hdst)
    | some b =>
      obtain rfl := (hagree p _ b hdir hdst).mp rfl
      exact .inr (hold.trans hdst)
  · rw [hdir] at hfile
    cases hfile
  · exact .inr hnew

omit [DecidableEq N] in
theorem Inv.tick (h : Inv S D s) (k : ℕ) : Inv S D { s with tick := k } :=
  ⟨h.src, h.dst, h.closed⟩

/-- A directory that leads to a file. -/
theorem Inv.mkdir (h : Inv S D s) (hdir : S p = some .dir) (hD : s.dst p = none)
    (hparent : s.dst p.dropLast = some .dir) (hfile : ∃ r c, S (p ++ r) = some (.file c)) :
    Inv S D { s with dst := Function.update s.dst p (some .dir) } := by
  have hother : ∀ q, q ≠ p → Function.update s.dst p (some .dir) q = s.dst q :=
    fun q hq => Function.update_of_ne hq _ _
  have hself : Function.update s.dst p (some Node.dir) p = some .dir := Function.update_self ..
  refine ⟨fun q => ?_, fun q => ?_, fun q n hq => ?_⟩
  · rcases h.src q with hold | ⟨hnone, c, hc, hmoved⟩
    · exact .inl hold
    · have hne : q ≠ p := by
        rintro rfl
        rw [hdir] at hc
        cases hc
      exact .inr ⟨hnone, c, hc, (hother q hne).trans hmoved⟩
  · by_cases hq : q = p
    · subst hq
      refine .inr (.inr ⟨hdir, ?_, hself, hfile⟩)
      rcases h.dst q with hold | ⟨c, hc, -⟩ | ⟨-, hnone, -⟩
      · exact hold.symm.trans hD
      · rw [hdir] at hc
        cases hc
      · exact hnone
    · show Placed S D q (Function.update s.dst p (some .dir) q)
      rw [hother q hq]
      exact h.dst q
  · by_cases hne : q = p
    · exact hne ▸ hself
    · refine (hother q hne).trans ?_
      by_cases hp : q ++ [n] = p
      · rw [← hp, List.dropLast_concat] at hparent
        exact hparent
      · exact h.closed q n ((hother _ hp) ▸ hq)

/-- A file is moved to where nothing but an old file is. -/
theorem Inv.move (h : Inv S D s) (hagree : Agree S D) (hfile : S p = some (.file c))
    (hparent : s.dst p.dropLast = some .dir) :
    Inv S D { s with
      src := Function.update s.src p none
      dst := Function.update s.dst p (some (.file c)) } := by
  have hother : ∀ q, q ≠ p → Function.update s.dst p (some (.file c)) q = s.dst q :=
    fun q hq => Function.update_of_ne hq _ _
  have hself : Function.update s.dst p (some (Node.file c)) p = some (.file c) :=
    Function.update_self ..
  refine ⟨fun q => ?_, fun q => ?_, fun q n hq => ?_⟩
  · by_cases hq : q = p
    · subst hq
      exact .inr ⟨Function.update_self .., c, hfile, hself⟩
    · show Left S q (Function.update s.src p none q) (Function.update s.dst p (some (.file c)) q)
      rw [Function.update_of_ne hq, hother q hq]
      exact h.src q
  · by_cases hq : q = p
    · subst hq
      exact .inr (.inl ⟨c, hfile, hself⟩)
    · show Placed S D q (Function.update s.dst p (some (.file c)) q)
      rw [hother q hq]
      exact h.dst q
  · by_cases hp : q ++ [n] = p
    · have hne : q ≠ p := by
        rintro rfl
        exact absurd hp (by simp)
      rw [← hp, List.dropLast_concat] at hparent
      exact (hother q hne).trans hparent
    · have hdir := h.closed q n ((hother _ hp) ▸ hq)
      have hne : q ≠ p := by
        rintro rfl
        exact h.dst_ne_dir hagree hfile hdir
      exact (hother q hne).trans hdir

/-- The old file is gone, and nothing else. -/
theorem Inv.removed (h : Inv S D s) (hagree : Agree S D) (hfile : S p = some (.file c)) :
    (fun q => if p <+: q then none else s.dst q) = Function.update s.dst p none := by
  funext q
  by_cases hq : q = p
  · subst hq
    rw [Function.update_self, if_pos (List.prefix_refl q)]
  · rw [Function.update_of_ne hq]
    split_ifs with hbelow
    · obtain ⟨r, rfl⟩ := hbelow
      by_contra hne
      have hr : r ≠ [] := by
        rintro rfl
        exact hq (List.append_nil p)
      exact h.dst_ne_dir hagree hfile (h.closed.above hr (Ne.symm hne))
    · rfl

/-- There was no old file to remove. -/
theorem Inv.remove (h : Inv S D s) (hagree : Agree S D) (hfile : S p = some (.file c))
    (hsrc : s.src p = S p) (hnew : D p = none) :
    Inv S D { s with dst := Function.update s.dst p none } := by
  have hother : ∀ q, q ≠ p → Function.update s.dst p none q = s.dst q :=
    fun q hq => Function.update_of_ne hq _ _
  have hself : Function.update s.dst p none p = none := Function.update_self ..
  refine ⟨fun q => ?_, fun q => ?_, fun q n hq => ?_⟩
  · by_cases hq : q = p
    · exact .inl (hq ▸ hsrc)
    · show Left S q (s.src q) (Function.update s.dst p none q)
      rw [hother q hq]
      exact h.src q
  · by_cases hq : q = p
    · subst hq
      exact .inl (hself.trans hnew.symm)
    · show Placed S D q (Function.update s.dst p none q)
      rw [hother q hq]
      exact h.dst q
  · have hp : q ++ [n] ≠ p := by
      rintro rfl
      exact hq hself
    have hdir := h.closed q n ((hother _ hp) ▸ hq)
    have hne : q ≠ p := by
      rintro rfl
      exact h.dst_ne_dir hagree hfile hdir
    exact (hother q hne).trans hdir

/-! ## How a move ends -/

/-- The move ends at a rename, and the old file was removed for it. -/
def Tears (fails : ℕ → Bool) (D : List N → Option (Node C)) (f : Option (ℕ × Step N)) : Prop :=
  ∃ k p, f = some (k, .rename p) ∧ D p ≠ none ∧ fails (k - 1) = false

/-- What steps make of a state, by the first that fails. -/
structure Outcome (S D : List N → Option (Node C)) (fails : ℕ → Bool) (l : List (Step N))
    (s : State N C) : Prop where
  done : firstFailure fails l s.tick = none →
    (run fails l s).1 = true ∧ Inv S D (run fails l s).2 ∧
      (run fails l s).2.tick = s.tick + l.length
  torn : Tears fails D (firstFailure fails l s.tick) →
    (run fails l s).1 = false ∧ ∃ p c, D p = some (.file c) ∧ (run fails l s).2.dst p = none
  kept : firstFailure fails l s.tick ≠ none → ¬ Tears fails D (firstFailure fails l s.tick) →
    (run fails l s).1 = false ∧ Inv S D (run fails l s).2

omit [DecidableEq N] in
theorem not_tears_none : ¬ Tears fails D none := by
  rintro ⟨k, p, h, -⟩
  cases h

theorem Outcome.nil (h : Inv S D s) : Outcome S D fails [] s where
  done _ := ⟨rfl, h, rfl⟩
  torn htears := absurd htears not_tears_none
  kept hne := absurd rfl hne

/-- A failure makes the steps stop. -/
theorem Outcome.stops {l : List (Step N)} (h : Outcome S D fails l s)
    (hne : firstFailure fails l s.tick ≠ none) : (run fails l s).1 = false := by
  by_cases htears : Tears fails D (firstFailure fails l s.tick)
  · exact (h.torn htears).1
  · exact (h.kept hne htears).1

theorem Outcome.append {l l' : List (Step N)} (h : Outcome S D fails l s)
    (h' : firstFailure fails l s.tick = none → Outcome S D fails l' (run fails l s).2) :
    Outcome S D fails (l ++ l') s := by
  cases hf : firstFailure fails l s.tick with
  | none =>
    obtain ⟨hok, -, htick⟩ := h.done hf
    have hrun : run fails (l ++ l') s = run fails l' (run fails l s).2 := by
      rw [run_append, andThen, if_pos hok]
    have hfirst : firstFailure fails (l ++ l') s.tick =
        firstFailure fails l' (run fails l s).2.tick := by
      rw [firstFailure_append, hf, htick]
      rfl
    obtain ⟨hdone, htorn, hkept⟩ := h' hf
    refine ⟨fun hnone => ?_, ?_, ?_⟩
    · rw [hrun]
      rw [hfirst] at hnone
      obtain ⟨hok, hinv, hcount⟩ := hdone hnone
      refine ⟨hok, hinv, ?_⟩
      rw [hcount, htick, List.length_append, Nat.add_assoc]
    · rw [hrun, hfirst]
      exact htorn
    · rw [hrun, hfirst]
      exact hkept
  | some f =>
    have hne : firstFailure fails l s.tick ≠ none := by
      rw [hf]
      exact Option.some_ne_none f
    have hstop := h.stops hne
    have hrun : run fails (l ++ l') s = run fails l s := by
      rw [run_append, andThen, if_neg (by rw [hstop]; exact Bool.false_ne_true)]
      exact Prod.ext hstop.symm rfl
    have hfirst : firstFailure fails (l ++ l') s.tick = firstFailure fails l s.tick := by
      rw [firstFailure_append, hf]
      rfl
    refine ⟨fun hnone => absurd (hfirst.symm.trans hnone) hne, ?_, ?_⟩
    · rw [hrun, hfirst]
      exact h.torn
    · rw [hrun, hfirst]
      exact h.kept

/-- A step that takes nothing away. -/
theorem Outcome.single {step : Step N} (h : Inv S D s) (hrename : ∀ p, step ≠ .rename p)
    (hremove : step.isRemove = false) (hok : (effect s step).1 = true)
    (hinv : Inv S D (effect s step).2) : Outcome S D fails [step] s := by
  have hrun : run fails [step] s = perform fails step s := run_singleton hremove s
  by_cases hfails : fails s.tick = true
  · have hfirst : firstFailure fails [step] s.tick = some (s.tick, step) :=
      if_pos ⟨hfails, hremove⟩
    have hperform : perform fails step s = (false, { s with tick := s.tick + 1 }) :=
      if_pos hfails
    refine ⟨fun hnone => ?_, fun ⟨k, p, htears, _⟩ => ?_, fun _ _ => ?_⟩
    · rw [hfirst] at hnone
      cases hnone
    · rw [hfirst] at htears
      obtain ⟨-, hstep⟩ := Prod.mk.inj (Option.some.inj htears)
      exact absurd hstep (hrename p)
    · rw [hrun, hperform]
      exact ⟨rfl, h.tick _⟩
  · have hfirst : firstFailure fails [step] s.tick = none := if_neg fun h => hfails h.1
    have hperform : perform fails step s =
        ((effect s step).1, { (effect s step).2 with tick := s.tick + 1 }) := if_neg hfails
    refine ⟨fun _ => ?_, fun htears => ?_, fun hne => absurd hfirst hne⟩
    · rw [hrun, hperform]
      exact ⟨hok, hinv.tick _, rfl⟩
    · rw [hfirst] at htears
      exact absurd htears not_tears_none

/-! ## The steps for a file -/

/-- What the source is to be like. -/
structure Source (S D : List N → Option (Node C)) : Prop where
  closed : Closed S
  agree : Agree S D
  root : D [] = some .dir

omit [DecidableEq N] in
theorem Source.dir_above (h : Source S D) (hfile : S p = some (.file c)) {r : List N}
    (hne : r ≠ []) (hp : q ++ r = p) : S q = some .dir := by
  refine h.closed.above hne ?_
  rw [hp, hfile]
  exact Option.some_ne_none _

omit [DecidableEq N] in
theorem Inv.dst_root (h : Inv S D s) (hs : Source S D) (hdir : S [] = some .dir) :
    s.dst [] = some .dir := by
  rcases h.dst [] with hold | ⟨c, hc, -⟩ | ⟨-, -, hnew, -⟩
  · exact hold.trans hs.root
  · rw [hdir] at hc
    cases hc
  · exact hnew

/-- The directories that lead to a file. -/
theorem outcome_mkdirs (hs : Source S D) (hfile : S p = some (.file c)) {r : List N}
    (hne : r ≠ []) (hp : q ++ r = p) (h : Inv S D s) :
    Outcome S D fails (q.inits.map .mkdir) s ∧
      (firstFailure fails (q.inits.map .mkdir) s.tick = none →
        (run fails (q.inits.map .mkdir) s).2.dst q = some .dir) := by
  induction q using List.reverseRecOn generalizing r with
  | nil =>
    have hroot := h.dst_root hs (hs.dir_above hfile hne hp)
    have heffect : effect s (.mkdir []) = (true, s) := by simp [effect, hroot]
    refine ⟨?_, fun hnone => ?_⟩
    · refine Outcome.single h nofun rfl ?_ ?_
      · rw [heffect]
      · rw [heffect]
        exact h
    · have hfails : fails s.tick ≠ true := not_fails_of_firstFailure rfl hnone
      show (run fails [.mkdir []] s).2.dst [] = some .dir
      rw [run_singleton rfl, perform, if_neg hfails, heffect]
      exact hroot
  | append_singleton q n ih =>
    have habove : q ++ (n :: r) = p := by
      rw [← hp, List.append_assoc]
      rfl
    obtain ⟨hq, hmade⟩ := ih (List.cons_ne_nil n r) habove
    have hinits : (q ++ [n]).inits.map Step.mkdir = q.inits.map .mkdir ++ [.mkdir (q ++ [n])] := by
      rw [List.inits_append, List.map_append]
      rfl
    rw [hinits]
    have hdir : S (q ++ [n]) = some .dir := hs.dir_above hfile hne hp
    -- what the last of the steps does, where the others have been made
    have hlast : ∀ s' : State N C, Inv S D s' → s'.dst q = some .dir →
        (effect s' (.mkdir (q ++ [n]))).1 = true ∧
        Inv S D (effect s' (.mkdir (q ++ [n]))).2 ∧
        (effect s' (.mkdir (q ++ [n]))).2.dst (q ++ [n]) = some .dir := by
      intro s' h' hparent
      rcases h'.dst_of_dir hs.agree hdir with hnone | hthere
      · have heffect : effect s' (.mkdir (q ++ [n])) = (true, { s' with
            dst := Function.update s'.dst (q ++ [n]) (some .dir) }) := by
          simp [effect, hnone, hparent]
        rw [heffect]
        refine ⟨rfl, h'.mkdir hdir hnone ?_ ⟨r, c, hp.symm ▸ hfile⟩, Function.update_self ..⟩
        rw [List.dropLast_concat]
        exact hparent
      · have heffect : effect s' (.mkdir (q ++ [n])) = (true, s') := by simp [effect, hthere]
        rw [heffect]
        exact ⟨rfl, h', hthere⟩
    refine ⟨hq.append fun hnone => ?_, fun hnone => ?_⟩
    · obtain ⟨hok, hinv, -⟩ := hlast _ (hq.done hnone).2.1 (hmade hnone)
      exact Outcome.single (hq.done hnone).2.1 nofun rfl hok hinv
    · rw [firstFailure_append, Option.or_eq_none_iff] at hnone
      obtain ⟨hnone, hlastnone⟩ := hnone
      obtain ⟨hrun, hinv, htick⟩ := hq.done hnone
      obtain ⟨-, -, hdst⟩ := hlast _ hinv (hmade hnone)
      rw [← htick] at hlastnone
      have hfails := not_fails_of_firstFailure rfl hlastnone
      rw [run_append, andThen, if_pos hrun, run_singleton rfl, perform, if_neg hfails]
      exact hdst

/-- Out with the old file, in with the new. -/
theorem outcome_replace (hs : Source S D) (hfile : S p = some (.file c)) (h : Inv S D s)
    (hsrc : s.src p = S p) (hparent : s.dst p.dropLast = some .dir) :
    Outcome S D fails [.removeAll p, .rename p] s := by
  have hnotdir := h.dst_ne_dir hs.agree hfile
  have hne : p.dropLast ≠ p := by
    intro heq
    rw [heq] at hparent
    exact hnotdir hparent
  have hrun : run fails [.removeAll p, .rename p] s =
      perform fails (.rename p) (perform fails (.removeAll p) s).2 := by
    rw [run_remove, run_singleton rfl]
  -- the rename, where there is no directory in its way
  have hrename : ∀ (dst : List N → Option (Node C)) (k : ℕ), fails k ≠ true →
      dst p ≠ some .dir → dst p.dropLast = some .dir →
      perform fails (.rename p) ⟨s.src, dst, k⟩ = (true,
        ⟨Function.update s.src p none, Function.update dst p (some (.file c)), k + 1⟩) := by
    intro dst k hk hdst hdir
    rw [hfile] at hsrc
    rw [perform, if_neg hk]
    cases hold : dst p with
    | none => simp [effect, hsrc, hold, hdir]
    | some node =>
      cases node with
      | dir => exact absurd hold hdst
      | file old => simp [effect, hsrc, hold, hdir]
  have hfirst : firstFailure fails [.removeAll p, .rename p] s.tick =
      if fails (s.tick + 1) = true then some (s.tick + 1, .rename p) else none := by
    rw [firstFailure, if_neg (by simp [Step.isRemove]), firstFailure, firstFailure]
    simp [Step.isRemove]
  have htears : Tears fails D (firstFailure fails [.removeAll p, .rename p] s.tick) ↔
      fails (s.tick + 1) = true ∧ D p ≠ none ∧ fails s.tick = false := by
    rw [hfirst]
    constructor
    · rintro ⟨k, q, hf, hold, hremoved⟩
      split_ifs at hf with hfails
      obtain ⟨rfl, hq⟩ := Prod.mk.inj (Option.some.inj hf)
      obtain rfl := Step.rename.inj hq
      exact ⟨hfails, hold, hremoved⟩
    · rintro ⟨hfails, hold, hremoved⟩
      exact ⟨s.tick + 1, p, if_pos hfails, hold, hremoved⟩
  by_cases hremove : fails s.tick = true
  · -- the old file stays until the rename replaces it
    have hfst : (perform fails (.removeAll p) s).2 = { s with tick := s.tick + 1 } := by
      rw [perform, if_pos hremove]
    rw [hfst] at hrun
    by_cases hfails : fails (s.tick + 1) = true
    · have hsnd : perform fails (.rename p) { s with tick := s.tick + 1 } =
          (false, { s with tick := s.tick + 1 + 1 }) := if_pos hfails
      refine ⟨fun hnone => ?_, fun ht => ?_, fun _ _ => ?_⟩
      · rw [hfirst, if_pos hfails] at hnone
        cases hnone
      · obtain ⟨-, -, hremoved⟩ := htears.mp ht
        rw [hremove] at hremoved
        cases hremoved
      · rw [hrun, hsnd]
        exact ⟨rfl, h.tick _⟩
    · have hsnd := hrename s.dst (s.tick + 1) hfails hnotdir hparent
      refine ⟨fun _ => ?_, fun ht => absurd (htears.mp ht).1 hfails, fun hf => ?_⟩
      · rw [hrun, hsnd]
        exact ⟨rfl, (h.move hs.agree hfile hparent).tick _, rfl⟩
      · rw [hfirst, if_neg hfails] at hf
        exact absurd rfl hf
  · have hfst : (perform fails (.removeAll p) s).2 =
        { s with dst := Function.update s.dst p none, tick := s.tick + 1 } := by
      rw [perform, if_neg hremove, effect, h.removed hs.agree hfile]
    rw [hfst] at hrun
    have hgone : Function.update s.dst p none p = none := Function.update_self ..
    by_cases hfails : fails (s.tick + 1) = true
    · have hsnd : perform fails (.rename p)
          { s with dst := Function.update s.dst p none, tick := s.tick + 1 } =
          (false, { s with dst := Function.update s.dst p none, tick := s.tick + 1 + 1 }) :=
        if_pos hfails
      refine ⟨fun hnone => ?_, fun ht => ?_, fun _ ht => ?_⟩
      · rw [hfirst, if_pos hfails] at hnone
        cases hnone
      · obtain ⟨-, hold, -⟩ := htears.mp ht
        rw [hrun, hsnd]
        cases hD : D p with
        | none => exact absurd hD hold
        | some node =>
          cases node with
          | dir => exact absurd ((hs.agree p _ _ hfile hD).mpr rfl) nofun
          | file old => exact ⟨rfl, p, old, hD, hgone⟩
      · have hnew : D p = none := by
          by_contra hold
          exact ht (htears.mpr ⟨hfails, hold, by simpa using hremove⟩)
        rw [hrun, hsnd]
        exact ⟨rfl, (h.remove hs.agree hfile hsrc hnew).tick _⟩
    · have hsnd := hrename (Function.update s.dst p none) (s.tick + 1) hfails
        (by rw [hgone]; exact nofun) ((Function.update_of_ne hne none s.dst).trans hparent)
      rw [Function.update_idem] at hsnd
      refine ⟨fun _ => ?_, fun ht => absurd (htears.mp ht).1 hfails, fun hf => ?_⟩
      · rw [hrun, hsnd]
        exact ⟨rfl, (h.move hs.agree hfile hparent).tick _, rfl⟩
      · rw [hfirst, if_neg hfails] at hf
        exact absurd rfl hf

/-! ## A walk -/

theorem outcome_dir (hdir : S p = some .dir) (h : Inv S D s) :
    Outcome S D fails [.stat p, .readDir p] s := by
  have hsrc : ∀ s' : State N C, Inv S D s' → s'.src p = some .dir := by
    intro s' h'
    rcases h'.src p with hleft | ⟨-, c, hfile, -⟩
    · exact hleft.trans hdir
    · rw [hdir] at hfile
      cases hfile
  have hstat : effect s (.stat p) = (true, s) := by simp [effect, hsrc s h]
  have hfirst : Outcome S D fails [.stat p] s :=
    Outcome.single h nofun rfl (by rw [hstat]) (by rw [hstat]; exact h)
  refine hfirst.append fun hnone => ?_
  have hinv := (hfirst.done hnone).2.1
  have hread : effect (run fails [.stat p] s).2 (.readDir p) =
      (true, (run fails [.stat p] s).2) := by simp [effect, hsrc _ hinv]
  exact Outcome.single hinv nofun rfl (by rw [hread]) (by rw [hread]; exact hinv)

/-- Only its own rename takes a file out of the source. -/
theorem run_src (l : List (Step N)) (s : State N C) (q : List N) :
    (run fails l s).2.src q = s.src q ∨
      .rename q ∈ l ∧ (run fails l s).2.src q = none := by
  induction l generalizing s with
  | nil => exact .inl rfl
  | cons step l ih =>
    have hstep : (perform fails step s).2.src q = s.src q ∨
        step = .rename q ∧ (perform fails step s).2.src q = none := by
      rw [perform]
      split_ifs
      · exact .inl rfl
      · cases step with
        | stat p => exact .inl rfl
        | readDir p => exact .inl rfl
        | removeAll p => exact .inl rfl
        | mkdir p =>
          simp only [effect]
          split <;> exact .inl rfl
        | rename p =>
          simp only [effect]
          by_cases hq : q = p
          · subst hq
            split
            · exact .inr ⟨rfl, Function.update_self ..⟩
            · exact .inr ⟨rfl, Function.update_self ..⟩
            · exact .inl rfl
          · split
            · exact .inl (Function.update_of_ne hq _ _)
            · exact .inl (Function.update_of_ne hq _ _)
            · exact .inl rfl
    rw [run]
    split_ifs
    · rcases ih (perform fails step s).2 with hrest | ⟨hmem, hnone⟩
      · rw [hrest]
        rcases hstep with hleft | ⟨rfl, hnone⟩
        · exact .inl hleft
        · exact .inr ⟨List.mem_cons_self .., hnone⟩
      · exact .inr ⟨List.mem_cons_of_mem _ hmem, hnone⟩
    · rcases hstep with hleft | ⟨rfl, hnone⟩
      · exact .inl hleft
      · exact .inr ⟨List.mem_cons_self .., hnone⟩

omit [DecidableEq N] in
theorem mem_steps {v : List N × Node C} (h : .rename q ∈ steps v) : v.1 = q := by
  obtain ⟨p, node⟩ := v
  cases node with
  | dir => simp [steps] at h
  | file c =>
    simp [steps] at h
    exact h.symm

theorem run_moved {l : List (Step N)} (h : (run fails (l ++ [Step.rename p]) s).1 = true) :
    (run fails (l ++ [Step.rename p]) s).2.src p = none := by
  rw [run_append, andThen] at h ⊢
  split_ifs at h ⊢
  rw [run_singleton rfl, perform] at h ⊢
  split_ifs at h ⊢
  simp only [effect] at h ⊢
  split at h
  · exact Function.update_self ..
  · exact Function.update_self ..
  · cases h

theorem outcome_visit (hs : Source S D) (hroot : S [] = some .dir) {v : List N × Node C}
    (hv : S v.1 = some v.2) (hsrc : s.src v.1 = S v.1) (h : Inv S D s) :
    Outcome S D fails (steps v) s := by
  obtain ⟨p, node⟩ := v
  cases node with
  | dir => exact outcome_dir hv h
  | file c =>
    have hp : p ≠ [] := by
      rintro rfl
      rw [hroot] at hv
      cases hv
    have hlast : p.dropLast ++ [p.getLast hp] = p := List.dropLast_append_getLast hp
    have hstat : effect s (.stat p) = (true, s) := by simp [effect, hsrc, hv]
    have hfirst : Outcome S D fails [.stat p] s :=
      Outcome.single h nofun rfl (by rw [hstat]) (by rw [hstat]; exact h)
    -- the file stays in the source until it is renamed
    have hstays : ∀ (l : List (Step N)) (s' : State N C), .rename p ∉ l →
        s'.src p = S p → (run fails l s').2.src p = S p := by
      intro l s' hnot hsrc'
      rcases @run_src _ _ _ fails l s' p with heq | ⟨hmem, -⟩
      · exact heq.trans hsrc'
      · exact absurd hmem hnot
    have hsteps : steps (p, (.file c : Node C)) =
        [Step.stat p] ++ (p.dropLast.inits.map Step.mkdir ++ [Step.removeAll p, Step.rename p]) :=
      rfl
    rw [hsteps]
    refine hfirst.append fun hnone => ?_
    have hstatted := hstays [.stat p] s (by simp) hsrc
    have hmkdirs : Outcome S D fails (p.dropLast.inits.map .mkdir) (run fails [.stat p] s).2 ∧ _ :=
      outcome_mkdirs hs hv (List.cons_ne_nil _ _) hlast (hfirst.done hnone).2.1
    obtain ⟨hway, hmade⟩ := hmkdirs
    refine hway.append fun hnone => ?_
    exact outcome_replace hs hv (hway.done hnone).2.1 (hstays _ _ (by simp) hstatted) (hmade hnone)

/-- What the destination has is its own or the source's, up to a rename that tears. -/
theorem run_visits (hs : Source S D) (hroot : S [] = some .dir) {vs : List (List N × Node C)}
    (hv : ∀ v ∈ vs, S v.1 = some v.2) (hnodup : (vs.map Prod.fst).Nodup)
    (hsrc : ∀ v ∈ vs, s.src v.1 = S v.1) (h : Inv S D s) :
    Outcome S D fails (vs.flatMap steps) s := by
  induction vs generalizing s with
  | nil => exact Outcome.nil h
  | cons v vs ih =>
    obtain ⟨hv, hvs⟩ := List.forall_mem_cons.mp hv
    obtain ⟨hsrcv, hsrcs⟩ := List.forall_mem_cons.mp hsrc
    obtain ⟨hnot, hnodup⟩ := List.nodup_cons.mp hnodup
    have hvisit : Outcome S D fails (steps v) s := outcome_visit hs hroot hv hsrcv h
    rw [List.flatMap_cons]
    refine hvisit.append fun hnone => ih hvs hnodup (fun v' hv' => ?_) (hvisit.done hnone).2.1
    rcases @run_src _ _ _ fails (steps v) s v'.1 with heq | ⟨hmem, -⟩
    · exact heq.trans (hsrcs v' hv')
    · exact absurd (List.mem_map.mpr ⟨v', hv', (mem_steps hmem).symm⟩) hnot

/-- A walk that ends well has moved every file. -/
theorem run_all_moved {vs : List (List N × Node C)} (h : (run fails (vs.flatMap steps) s).1 = true)
    (hmem : (p, .file c) ∈ vs) : (run fails (vs.flatMap steps) s).2.src p = none := by
  obtain ⟨before, after, rfl⟩ := List.append_of_mem hmem
  have hsteps : steps (p, (.file c : Node C)) =
      (Step.stat p :: p.dropLast.inits.map Step.mkdir ++ [Step.removeAll p]) ++
        [Step.rename p] := by
    simp [steps]
  have hplan : (before ++ (p, .file c) :: after).flatMap steps =
      (before.flatMap steps ++
        (Step.stat p :: p.dropLast.inits.map Step.mkdir ++ [Step.removeAll p]) ++
        [Step.rename p]) ++ after.flatMap steps := by
    rw [List.flatMap_append, List.flatMap_cons, hsteps]
    simp only [List.append_assoc]
  rw [hplan, run_append, andThen] at h ⊢
  split_ifs at h ⊢ with hfirst
  have hmoved := run_moved hfirst
  rcases @run_src _ _ _ fails (after.flatMap steps) _ p with heq | ⟨-, hnone⟩
  · exact heq.trans hmoved
  · exact hnone

/-! ## The whole move -/

/-- The source laid over the destination. -/
def overlay (S D : List N → Option (Node C)) (p : List N) : Option (Node C) := (S p).or (D p)

/-- What a move is for: no old file is lost, no new one is, and all of them arrive. -/
structure MvSound (S D : List N → Option (Node C)) (unhindered : Prop)
    (r : Bool × State N C) : Prop where
  old : ∀ p c, D p = some (.file c) →
    r.2.dst p = some (.file c) ∨ ∃ c', S p = some (.file c') ∧ r.2.dst p = some (.file c')
  source : ∀ p c, S p = some (.file c) →
    r.2.src p = some (.file c) ∨ r.2.src p = none ∧ r.2.dst p = some (.file c)
  arrived : unhindered → r.1 = true ∧ r.2.dst = overlay S D

omit [DecidableEq N] in
theorem Inv.old (h : Inv S D s) (hold : D p = some (.file c)) :
    s.dst p = some (.file c) ∨ ∃ c', S p = some (.file c') ∧ s.dst p = some (.file c') := by
  rcases h.dst p with hsame | hnew | ⟨-, hnone, -⟩
  · exact .inl (hsame.trans hold)
  · exact .inr hnew
  · rw [hold] at hnone
    cases hnone

omit [DecidableEq N] in
theorem Inv.source (h : Inv S D s) (hfile : S p = some (.file c)) :
    s.src p = some (.file c) ∨ s.src p = none ∧ s.dst p = some (.file c) := by
  rcases h.src p with hleft | ⟨hnone, c', hc', hmoved⟩
  · exact .inl (hleft.trans hfile)
  · rw [hfile] at hc'
    obtain rfl := Node.file.inj (Option.some.inj hc')
    exact .inr ⟨hnone, hmoved⟩

omit [DecidableEq N] in
/-- Where all files have been moved, only directories without files are missing. -/
theorem Inv.dst_eq_overlay (h : Inv S D s) (hagree : Agree S D)
    (hmoved : ∀ p c, S p = some (.file c) → s.src p = none) :
    s.dst = overlay S D ↔
      ∀ p, S p = some .dir → D p = none → ∃ r c, S (p ++ r) = some (.file c) := by
  have harrived : ∀ p c, S p = some (.file c) → s.dst p = some (.file c) := by
    intro p c hfile
    rcases h.source hfile with hleft | ⟨-, hdst⟩
    · rw [hmoved p c hfile] at hleft
      cases hleft
    · exact hdst
  constructor
  · intro heq p hdir hnone
    have hdst : s.dst p = some .dir := by rw [heq, overlay, hdir, Option.some_or]
    rcases h.dst p with hold | ⟨c, hfile, -⟩ | ⟨-, -, -, hbelow⟩
    · rw [hdst, hnone] at hold
      cases hold
    · rw [hdir] at hfile
      cases hfile
    · exact hbelow
  · intro hfiles
    funext p
    unfold overlay
    cases hS : S p with
    | none =>
      rcases h.dst p with hold | ⟨c, hfile, -⟩ | ⟨hdir, -⟩
      · exact hold
      · rw [hS] at hfile
        cases hfile
      · rw [hS] at hdir
        cases hdir
    | some node =>
      rw [Option.some_or]
      cases node with
      | file c => exact harrived p c hS
      | dir =>
        rcases h.dst_of_dir hagree hS with hnone | hdir
        · cases hD : D p with
          | none =>
            -- a file below it has arrived, and so has all above that
            obtain ⟨r, c, hfile⟩ := hfiles p hS hD
            have hr : r ≠ [] := by
              rintro rfl
              rw [List.append_nil, hS] at hfile
              cases hfile
            refine h.closed.above hr ?_
            rw [harrived _ c hfile]
            exact Option.some_ne_none _
          | some node =>
            rcases h.dst p with hold | ⟨c, hfile, -⟩ | ⟨-, hD', -⟩
            · rw [hnone, hD] at hold
              cases hold
            · rw [hS] at hfile
              cases hfile
            · rw [hD] at hD'
              cases hD'
        · exact hdir

/-- `Mv` keeps the old files and brings the new ones, unless a rename onto an old file fails
    after the removal before it did not, or there are directories without files. -/
theorem mv_sound_iff (t : Tree N C) (D : List N → Option (Node C)) (fails : ℕ → Bool)
    (ht : t.Proper) (hclosed : Closed D) (hroot : D [] = some .dir)
    (hagree : Agree (fun p => t.find p) D) :
    MvSound (fun p => t.find p) D (∀ k < (plan [] t).length, fails k = false)
        (mv fails [] t ⟨fun p => t.find p, D, 0⟩) ↔
      (∀ k p, firstFailure fails (plan [] t) 0 = some (k, .rename p) → D p ≠ none →
        fails (k - 1) = true) ∧
      ((∀ k < (plan [] t).length, fails k = false) →
        ∀ p, t.find p = some .dir → D p = none → ∃ r c, t.find (p ++ r) = some (.file c)) := by
  have hs : Source (fun p => t.find p) D := ⟨fun p n h => Tree.find_closed h, hagree, hroot⟩
  have htop : t.find [] = some .dir := by
    have hnode : t.find [] = some t.node := by cases t <;> rfl
    rw [hnode, (hagree [] t.node .dir hnode hroot).mpr rfl]
  have hinit : Inv (fun p => t.find p) D ⟨fun p => t.find p, D, 0⟩ :=
    ⟨fun p => .inl rfl, fun p => .inl rfl, hclosed⟩
  have hv : ∀ v ∈ t.visits [], t.find v.1 = some v.2 := by
    intro v hv
    obtain ⟨r, hr, hfind⟩ := (Tree.mem_visits ht).mp hv
    rw [hr]
    exact hfind
  rw [mv_eq]
  have hout : Outcome (fun p => t.find p) D fails (plan [] t) ⟨fun p => t.find p, D, 0⟩ :=
    run_visits hs htop hv (Tree.nodup_visits ht []) (fun v _ => rfl) hinit
  -- where nothing failed, all files have been moved
  have hoverlay : (∀ k < (plan [] t).length, fails k = false) →
      (run fails (plan [] t) ⟨fun p => t.find p, D, 0⟩).1 = true ∧
      ((run fails (plan [] t) ⟨fun p => t.find p, D, 0⟩).2.dst = overlay (fun p => t.find p) D ↔
        ∀ p, t.find p = some .dir → D p = none → ∃ r c, t.find (p ++ r) = some (.file c)) := by
    intro hfree
    have hnone : firstFailure fails (plan [] t) 0 = none :=
      firstFailure_eq_none fun i hi => by
        rw [Nat.zero_add]
        exact hfree i hi
    obtain ⟨hok, hinv, -⟩ := hout.done hnone
    refine ⟨hok, hinv.dst_eq_overlay hagree fun p c hfile => ?_⟩
    exact run_all_moved hok ((Tree.mem_visits ht).mpr ⟨p, rfl, hfile⟩)
  constructor
  · intro hsound
    refine ⟨fun k p hfirst hold => ?_, fun hfree => ?_⟩
    · by_contra hremoved
      have htears : Tears fails D (firstFailure fails (plan [] t) 0) :=
        ⟨k, p, hfirst, hold, by simpa using hremoved⟩
      obtain ⟨-, q, c, hq, hlost⟩ := hout.torn htears
      rcases hsound.old q c hq with hdst | ⟨c', -, hdst⟩
      · rw [hlost] at hdst
        cases hdst
      · rw [hlost] at hdst
        cases hdst
    · exact (hoverlay hfree).2.mp (hsound.arrived hfree).2
  · rintro ⟨hwhole, hfiles⟩
    have htears : ¬ Tears fails D (firstFailure fails (plan [] t) 0) := by
      rintro ⟨k, p, hfirst, hold, hremoved⟩
      rw [hwhole k p hfirst hold] at hremoved
      cases hremoved
    have hinv : Inv (fun p => t.find p) D
        (run fails (plan [] t) ⟨fun p => t.find p, D, 0⟩).2 := by
      by_cases hnone : firstFailure fails (plan [] t) 0 = none
      · exact (hout.done hnone).2.1
      · exact (hout.kept hnone htears).2
    refine ⟨fun p c => hinv.old, fun p c => hinv.source, fun hfree => ?_⟩
    obtain ⟨hok, hdst⟩ := hoverlay hfree
    exact ⟨hok, hdst.mpr (hfiles hfree)⟩

/-! ## One executable -/

/-- An update with one file, and the directory it goes to. -/
def one (c : ℕ) : Tree String ℕ := .dir [("nekobox", .file c)]

theorem one_proper (c : ℕ) : (one c).Proper :=
  .dir _ (by simp) (by simpa using .file c)

theorem find_one {c : ℕ} {p : List String} {node : Node ℕ} (h : (one c).find p = some node) :
    p = [] ∧ node = .dir ∨ p = ["nekobox"] ∧ node = .file c := by
  have hmem : (p, node) ∈ (one c).visits [] := (Tree.mem_visits (one_proper c)).mpr ⟨p, rfl, h⟩
  simpa [one, Tree.visits, Tree.visitsEntries] using hmem

theorem one_agree (c c' : ℕ) : Agree (fun p => (one c).find p) fun p => (one c').find p := by
  intro p a b ha hb
  rcases find_one ha with ⟨rfl, rfl⟩ | ⟨rfl, rfl⟩
  · rcases find_one hb with ⟨-, rfl⟩ | ⟨hp, -⟩
    · exact Iff.rfl
    · cases hp
  · rcases find_one hb with ⟨hp, -⟩ | ⟨-, rfl⟩
    · cases hp
    · simp

theorem mv_sound_iff_one : MvSound (fun p => (one 1).find p) (fun p => (one 0).find p)
    (∀ k < (plan [] (one 1)).length, (fun _ => false) k = false)
    (mv (fun _ => false) [] (one 1) ⟨fun p => (one 1).find p, fun p => (one 0).find p, 0⟩) :=
  (mv_sound_iff (one 1) (fun p => (one 0).find p) (fun _ => false) (one_proper 1)
    (fun p n h => Tree.find_closed h) rfl (one_agree 1 0)).mpr (by
      have hfirst : firstFailure (fun _ => false) (plan [] (one 1)) 0 = none :=
        firstFailure_eq_none fun i hi => rfl
      refine ⟨fun k p h => ?_, fun _ p hdir hnone => ?_⟩
      · rw [hfirst] at h
        cases h
      · rcases find_one hdir with ⟨rfl, -⟩ | ⟨-, hnode⟩
        · cases hnone
        · cases hnode)

/-- A rename that fails leaves no executable at all. -/
theorem executable_is_lost : ¬ ∀ (t : Tree String ℕ) (D : List String → Option (Node ℕ))
    (fails : ℕ → Bool), t.Proper → Closed D → D [] = some .dir → Agree (fun p => t.find p) D →
    MvSound (fun p => t.find p) D (∀ k < (plan [] t).length, fails k = false)
      (mv fails [] t ⟨fun p => t.find p, D, 0⟩) := by
  intro h
  have hsound := h (one 1) (fun p => (one 0).find p) (fun k => k == 5) (one_proper 1)
    (fun p n h => Tree.find_closed h) rfl (one_agree 1 0)
  have hlost : (mv (fun k => k == 5) [] (one 1)
      ⟨fun p => (one 1).find p, fun p => (one 0).find p, 0⟩).2.dst ["nekobox"] = none := by decide
  rcases hsound.old ["nekobox"] 0 rfl with hdst | ⟨c', -, hdst⟩
  · exact absurd (hlost.symm.trans hdst) nofun
  · exact absurd (hlost.symm.trans hdst) nofun

end NekoBox.Core.Updater
