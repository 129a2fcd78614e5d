import NekoBox.Security.AccessLock

/-!
# What the access lock is for, and where the code differs

The policy keeps, instead of settings and hashes, the password last set for
every user, the locks, and the confirmations given so far with the time each
asked to be remembered for. Code and policy run side by side, and the relation
`Represents` connects them.

Results:
* `verdict_iff`: in related states the two give the same verdict if and only if
  it is not the case that the dialog is accepted with a wrong password of a
  user for whom the part is not locked; with `DEBUG_MODE` they always agree.
* `along_correct`: in a release build the verdicts agree along every run in
  which no such dialog is accepted and no granted dialog asks for `2 ^ 31`
  seconds or more.
-/

namespace NekoBox.Security

open NekoBox.Lib

/-! ## The policy -/

/-- A confirmation of `lock`, given at `time` and to be remembered for
    `seconds`. -/
structure Confirmation where
  lock : LockValue
  time : ℕ
  seconds : ℕ

/-- `users` holds the password last set for each user. -/
structure Policy where
  users : String → Option String
  locks : LockValue → String → Bool
  confirmations : List Confirmation
  clock : ℕ

def Policy.fresh (now : ℕ) : Policy := ⟨fun _ => none, fun _ _ => false, [], now⟩

/-- A confirmation of `v` is still remembered at the time `now`. -/
def Policy.Remembered (p : Policy) (v : LockValue) (now : ℕ) : Prop :=
  ∃ c ∈ p.confirmations, c.lock = v ∧ now < c.time + c.seconds

/-- No name and password are needed. -/
def Policy.Open (p : Policy) (v : LockValue) : Prop :=
  (∀ u, p.users u = none) ∨ p.locks v "" = false ∨ p.Remembered v p.clock

/-- The name is a user's, the password the one last set for that user, and `v`
    is not locked for that user. -/
def Policy.Admits (p : Policy) (v : LockValue) (e : Entry) : Prop :=
  p.users e.username = some e.password ∧ p.locks v e.username = false

/-- The verdict the access lock has to give. -/
def Policy.Grants (p : Policy) (v : LockValue) (entry : Option Entry) : Prop :=
  p.Open v ∨ ∃ e ∈ entry, p.Admits v e

/-- The actions of a history. -/
inductive Action where
  | setPassword (username password : String)
  | delUser (username : String)
  | setLocked (v : LockValue) (value : Bool) (username : String)
  | advance (seconds : ℕ)
  | confirmLock (v : LockValue) (restart : Bool) (delay : ℕ) (entry : Option Entry)

def Policy.setUser (p : Policy) (username : String) (password : Option String) : Policy :=
  { p with users := Function.update p.users username password }

open Classical in
/-- The policy after an action; `seconds` is the time that the dialog, if it is
    shown and granted, asks to be remembered for. -/
noncomputable def Policy.step (p : Policy) (seconds : Entry → ℕ) : Action → Policy
  | .setPassword username password =>
    p.setUser username (if password = "" then none else some password)
  | .delUser username => p.setUser username none
  | .setLocked v value username =>
    { p with locks := fun v' u => if v' = v ∧ u = username then value else p.locks v' u }
  | .advance n => { p with clock := p.clock + n }
  | .confirmLock v _ delay entry =>
    if p.Open v then p
    else
      let p' : Policy := { p with clock := p.clock + delay }
      match entry with
      | none => p'
      | some e =>
        if p.Admits v e then { p' with confirmations := ⟨v, p'.clock, seconds e⟩ :: p.confirmations }
        else p'

/-! ## Code and policy side by side -/

section
variable (sha256 : ByteArray → ByteArray) (defaultPassword : String) (debugMode : Bool)

/-- The code's state after an action. -/
def Keyring.step (s : Keyring) : Action → Keyring
  | .setPassword username password => Security.setPassword sha256 s username password
  | .delUser username => Security.delUser s username
  | .setLocked v value username => Security.setLocked s v value username
  | .advance n => { s with clock := s.clock + n }
  | .confirmLock v restart delay entry =>
    (Security.confirmLock sha256 defaultPassword debugMode s v restart delay entry).2

/-- The time an accepted dialog asks to be remembered for: the value of its form
    times 60 per unit step. -/
def asked (s : Keyring) (restart : Bool) (e : Entry) : ℕ :=
  (form s restart e).1 * 60 ^ ((form s restart e).2 : ℕ)

/-- The seconds the form holds while `a` is performed. -/
def Action.seconds (s : Keyring) : Action → Entry → ℕ
  | .confirmLock _ restart _ _, e => asked s restart e
  | _, _ => 0

noncomputable def joint : Machine (Keyring × Policy) Action where
  step st a :=
    some (st.1.step sha256 defaultPassword debugMode a, st.2.step (a.seconds st.1) a)

/-- The verdict of `confirmLock` is the policy's. -/
def Correct (st : Keyring × Policy) : Action → Prop
  | .confirmLock v restart delay entry =>
    (confirmLock sha256 defaultPassword debugMode st.1 v restart delay entry).1 = true ↔
      st.2.Grants v entry
  | _ => True

/-- The dialog is shown and accepted with the name of a user for whom the part
    is not locked. -/
def Reaches (s : Keyring) (v : LockValue) (e : Entry) : Prop :=
  DialogShown s v ∧ e.username ∈ s.userlist ∧ getLocked s v e.username = false

/-- A dialog accepted with the name of a user for whom the part is not locked
    is given that user's password, and asks for less than `2 ^ 31` seconds. -/
def Careful (s : Keyring) : Action → Prop
  | .confirmLock v restart _ (some e) =>
    Reaches s v e →
      checkPassword sha256 defaultPassword s e.username e.password = true ∧
        asked s restart e < 2 ^ 31
  | _ => True

end

/-- The code's state represents the policy's. -/
structure Represents (sha256 : ByteArray → ByteArray) (s : Keyring) (p : Policy) : Prop where
  nodup : s.userlist.Nodup
  listed : ∀ u, u ∈ s.userlist ↔ p.users u ≠ none
  hashes : ∀ u password, p.users u = some password →
    s.localKeys (userKey u) = some (.bytes (hashPassword sha256 password))
  locks : ∀ v u, getLocked s v u = p.locks v u
  clock : s.clock = p.clock
  remembered : ∀ v now, p.clock ≤ now → ((now : ℤ) < s.timePointer v ↔ p.Remembered v now)

variable {sha256 : ByteArray → ByteArray} {defaultPassword : String} {debugMode : Bool}
  {s : Keyring} {p : Policy}

theorem represents_fresh (now : ℕ) : Represents sha256 (.fresh now) (.fresh now) where
  nodup := List.nodup_nil
  listed := by simp [Keyring.fresh, Policy.fresh]
  hashes := by simp [Policy.fresh]
  locks := by simp [Keyring.fresh, Policy.fresh, getLocked]
  clock := rfl
  remembered := by
    intro v t _
    simp [Keyring.fresh, Policy.fresh, Policy.Remembered]

/-! ## User and lock actions -/

/-- The hash and the locks do not depend on the keys of the list and the
    dialog. -/
theorem Represents.of_keys {s' : Keyring} (h : Represents sha256 s p)
    (hlist : s'.userlist = s.userlist) (hpointer : s'.timePointer = s.timePointer)
    (hclock : s'.clock = s.clock)
    (hkeys : ∀ k, k ∉ plainKeys → s'.localKeys k = s.localKeys k) : Represents sha256 s' p where
  nodup := hlist ▸ h.nodup
  listed := hlist ▸ h.listed
  hashes := by
    intro u password hu
    rw [hkeys _ fun hk => userKey_ne_plain hk rfl]
    exact h.hashes u password hu
  locks := by
    intro v u
    unfold getLocked
    rw [hkeys _ fun hk => lockKey_ne_plain hk rfl]
    exact h.locks v u
  clock := hclock ▸ h.clock
  remembered := hpointer ▸ h.remembered

theorem delUser_userlist (s : Keyring) (u : String) : (delUser s u).userlist = s.userlist.erase u := by
  unfold delUser
  split_ifs with h
  · rfl
  · exact (List.erase_of_not_mem h).symm

theorem delUser_localKeys (s : Keyring) {u k : String} (hk : k ∉ plainKeys) :
    (delUser s u).localKeys k = if k = userKey u then none else s.localKeys k := by
  have hlist : k ≠ "userlist" := fun h => hk (by simp [plainKeys, h])
  unfold delUser
  split_ifs with hmem hkey hkey
  · rw [hkey]
    exact QSettings.remove_self ..
  · exact (QSettings.remove_ne _ hkey).trans (QSettings.setValue_ne _ _ hlist)
  · rw [hkey]
    exact QSettings.remove_self ..
  · exact QSettings.remove_ne _ hkey

theorem delUser_timePointer (s : Keyring) (u : String) :
    (delUser s u).timePointer = s.timePointer ∧ (delUser s u).clock = s.clock := by
  unfold delUser
  split_ifs <;> exact ⟨rfl, rfl⟩

theorem mem_addUser (s : Keyring) (u w : String) :
    w ∈ (addUser s u).userlist ↔ w = u ∨ w ∈ s.userlist := by
  unfold addUser
  split_ifs with h
  · constructor
    · exact Or.inr
    · rintro (rfl | hw)
      · exact h
      · exact hw
  · simp [or_comm]

theorem nodup_addUser {s : Keyring} (h : s.userlist.Nodup) (u : String) :
    (addUser s u).userlist.Nodup := by
  unfold addUser
  split_ifs with hu
  · exact h
  · exact List.nodup_append.mpr ⟨h, List.nodup_singleton u, by
      intro a ha b hb
      obtain rfl : b = u := by simpa using hb
      exact fun hab => hu (hab ▸ ha)⟩

theorem addUser_localKeys (s : Keyring) {u k : String} (hk : k ∉ plainKeys) :
    (addUser s u).localKeys k = s.localKeys k := by
  have hlist : k ≠ "userlist" := fun h => hk (by simp [plainKeys, h])
  unfold addUser
  split_ifs
  · rfl
  · exact QSettings.setValue_ne _ _ hlist

theorem addUser_timePointer (s : Keyring) (u : String) :
    (addUser s u).timePointer = s.timePointer ∧ (addUser s u).clock = s.clock := by
  unfold addUser
  split_ifs <;> exact ⟨rfl, rfl⟩

/-- A key outside the list and the dialog that differs from a user's is not
    touched when that user changes. -/
theorem lockKey_not_plain (v : LockValue) (u : String) : lockKey v u ∉ plainKeys :=
  fun h => lockKey_ne_plain h rfl

theorem userKey_not_plain (u : String) : userKey u ∉ plainKeys :=
  fun h => userKey_ne_plain h rfl

theorem Represents.delUser (h : Represents sha256 s p) (u : String) :
    Represents sha256 (delUser s u) (p.setUser u none) where
  nodup := by
    rw [delUser_userlist]
    exact h.nodup.erase u
  listed := by
    intro w
    rw [delUser_userlist, h.nodup.mem_erase_iff, h.listed]
    by_cases hw : w = u <;> simp [Policy.setUser, hw]
  hashes := by
    intro w password hw
    have hne : w ≠ u := by
      rintro rfl
      simp [Policy.setUser] at hw
    rw [delUser_localKeys s (userKey_not_plain w), if_neg (by simpa [userKey_inj] using hne)]
    exact h.hashes w password (by simpa [Policy.setUser, hne] using hw)
  locks := by
    intro v w
    unfold getLocked
    rw [delUser_localKeys s (lockKey_not_plain v w), if_neg (lockKey_ne_userKey v w u)]
    exact h.locks v w
  clock := (delUser_timePointer s u).2.trans h.clock
  remembered := by
    intro v now hnow
    rw [(delUser_timePointer s u).1]
    exact h.remembered v now hnow

theorem Represents.setPassword (h : Represents sha256 s p) (u password : String) :
    Represents sha256 (setPassword sha256 s u password)
      (p.setUser u (if password = "" then none else some password)) := by
  unfold Security.setPassword
  split_ifs with hempty
  · exact h.delUser u
  · obtain ⟨hpointer, hclock⟩ := addUser_timePointer s u
    constructor
    · exact nodup_addUser h.nodup u
    · intro w
      show w ∈ (addUser s u).userlist ↔ _
      rw [mem_addUser, h.listed]
      by_cases hw : w = u <;> simp [Policy.setUser, hw]
    · intro w password' hw
      show ((addUser s u).localKeys.setValue _ _) _ = _
      by_cases hwu : w = u
      · subst hwu
        obtain rfl : password = password' := by simpa [Policy.setUser] using hw
        exact QSettings.setValue_self ..
      · rw [QSettings.setValue_ne _ _ (by simpa [userKey_inj] using hwu),
          addUser_localKeys s (userKey_not_plain w)]
        exact h.hashes w password' (by simpa [Policy.setUser, hwu] using hw)
    · intro v w
      show (((addUser s u).localKeys.setValue _ _ (lockKey v w)).map _).getD _ = _
      rw [QSettings.setValue_ne _ _ (lockKey_ne_userKey v w u),
        addUser_localKeys s (lockKey_not_plain v w)]
      exact h.locks v w
    · exact hclock.trans h.clock
    · intro v now hnow
      show (now : ℤ) < (addUser s u).timePointer v ↔ _
      rw [hpointer]
      exact h.remembered v now hnow

theorem Represents.setLocked (h : Represents sha256 s p) (v : LockValue) (value : Bool)
    (u : String) :
    Represents sha256 (setLocked s v value u)
      { p with locks := fun v' w => if v' = v ∧ w = u then value else p.locks v' w } where
  nodup := h.nodup
  listed := h.listed
  hashes := by
    intro w password hw
    show s.localKeys.setValue _ _ _ = _
    rw [QSettings.setValue_ne _ _ (lockKey_ne_userKey v u w).symm]
    exact h.hashes w password hw
  locks := by
    intro v' w
    show ((s.localKeys.setValue (lockKey v u) (.bool value) (lockKey v' w)).map _).getD _ =
      if v' = v ∧ w = u then value else p.locks v' w
    by_cases hkey : v' = v ∧ w = u
    · obtain ⟨rfl, rfl⟩ := hkey
      simp [QVariant.toBool]
    · rw [QSettings.setValue_ne _ _ (by simpa [lockKey_inj] using hkey), if_neg hkey]
      exact h.locks v' w
  clock := h.clock
  remembered := h.remembered

theorem Represents.advance (h : Represents sha256 s p) (n : ℕ) :
    Represents sha256 { s with clock := s.clock + n } { p with clock := p.clock + n } where
  nodup := h.nodup
  listed := h.listed
  hashes := h.hashes
  locks := h.locks
  clock := congrArg (· + n) h.clock
  remembered := fun v now hnow => h.remembered v now (le_trans (Nat.le_add_right _ n) hnow)

/-! ## `confirmLock` -/

/-- The dialog is shown exactly when the policy needs a name and a password. -/
theorem Represents.dialogShown_iff (h : Represents sha256 s p) (v : LockValue) :
    DialogShown s v ↔ ¬ p.Open v := by
  have husers : s.userlist = [] ↔ ∀ u, p.users u = none := by
    simp only [List.eq_nil_iff_forall_not_mem, h.listed, not_not]
  have htime : s.timePointer v ≤ s.clock ↔ ¬ p.Remembered v p.clock := by
    rw [← h.remembered v p.clock le_rfl, h.clock, not_lt]
  unfold DialogShown Policy.Open
  rw [h.locks v "", htime, Ne, husers]
  simp [not_or]

/-- The password of a listed user is checked against the one last set. -/
theorem Represents.checkPassword_iff (h : Represents sha256 s p)
    (hsha : Function.Injective sha256) {u : String} (hu : u ∈ s.userlist) (password : String) :
    checkPassword sha256 defaultPassword s u password = true ↔ p.users u = some password := by
  obtain ⟨last, hlast⟩ := Option.ne_none_iff_exists'.mp ((h.listed u).mp hu)
  have hne : s.userlist ≠ [] := List.ne_nil_of_mem hu
  have hhash : getPasswordHash sha256 defaultPassword s u = hashPassword sha256 last := by
    simp [getPasswordHash, h.hashes u last hlast, QVariant.toByteArray]
  simp only [checkPassword, if_neg hne, hhash, decide_eq_true_eq, hashPassword_inj sha256 hsha,
    hlast, Option.some.injEq]

/-- The handler refuses an unknown name, in a debug build a wrong password, and
    a user for whom the part is locked. -/
theorem accepted_denied {v : LockValue} {restart : Bool} {e : Entry}
    (h : ¬ (e.username ∈ s.userlist ∧ getLocked s v e.username = false ∧
      (debugMode = true →
        checkPassword sha256 defaultPassword s e.username e.password = true))) :
    accepted sha256 defaultPassword debugMode s v restart e = (false, s) := by
  unfold accepted
  by_cases hlisted : e.username ∈ s.userlist
  · rw [if_neg (not_not.mpr hlisted)]
    by_cases hwrong : (debugMode &&
        !checkPassword sha256 defaultPassword s e.username e.password) = true
    · rw [if_pos hwrong]
    · rw [if_neg hwrong]
      by_cases hlocked : getLocked s v e.username = true
      · rw [if_pos hlocked]
      · exact absurd ⟨hlisted, by simpa using hlocked, fun hd => by simpa [hd] using hwrong⟩ h
  · rw [if_pos hlisted]

/-- What the handler does when it grants. -/
theorem accepted_granted {v : LockValue} {restart : Bool} {e : Entry}
    (hlisted : e.username ∈ s.userlist) (hlocked : getLocked s v e.username = false)
    (hdebug : debugMode = true →
      checkPassword sha256 defaultPassword s e.username e.password = true) :
    ∃ s', accepted sha256 defaultPassword debugMode s v restart e = (true, s') ∧
      s'.userlist = s.userlist ∧ s'.clock = s.clock ∧
      (∀ k, k ∉ plainKeys → s'.localKeys k = s.localKeys k) ∧
      s'.timePointer = if (form s restart e).1 = 0 then s.timePointer else
        Function.update s.timePointer v
          (s.clock + scale (form s restart e).1 (form s restart e).2) := by
  have hwrong : (debugMode && !checkPassword sha256 defaultPassword s e.username e.password) =
      false := by
    cases hd : debugMode with
    | false => rfl
    | true => simp [hdebug hd]
  have hkeys : ∀ (q : QSettings) (k' : String) (x : QVariant), k' ∈ plainKeys →
      ∀ k, k ∉ plainKeys → q.setValue k' x k = q k := by
    intro q k' x hk' k hk
    exact QSettings.setValue_ne _ _ fun heq => hk (heq ▸ hk')
  unfold accepted
  rw [if_neg (not_not.mpr hlisted), hwrong, hlocked]
  cases restart with
  | true =>
    simp [form]
  | false =>
    by_cases hzero : (e.value : ℕ) = 0
    · simp only [form, Bool.false_eq_true, if_false, hzero, Nat.cast_zero, le_refl, if_true]
      refine ⟨_, rfl, rfl, rfl, hkeys _ _ _ (by simp [plainKeys]), rfl⟩
    · have hpos : ¬ ((e.value : ℕ) : ℤ) ≤ 0 := by omega
      simp only [form, Bool.false_eq_true, if_false, hzero, hpos]
      refine ⟨_, rfl, rfl, rfl, ?_, rfl⟩
      intro k hk
      exact (hkeys _ _ _ (by simp [plainKeys]) k hk).trans (hkeys _ _ _ (by simp [plainKeys]) k hk)

/-- The dialog grants exactly when the name is listed and the part not locked
    for that user, and in a debug build when the password is right besides. -/
theorem accepted_iff {v : LockValue} {restart : Bool} {e : Entry} :
    (accepted sha256 defaultPassword debugMode s v restart e).1 = true ↔
      e.username ∈ s.userlist ∧ getLocked s v e.username = false ∧
        (debugMode = true →
          checkPassword sha256 defaultPassword s e.username e.password = true) := by
  constructor
  · intro h
    by_contra hnot
    rw [accepted_denied hnot] at h
    cases h
  · rintro ⟨hlisted, hlocked, hdebug⟩
    obtain ⟨s', heq, -⟩ := @accepted_granted sha256 defaultPassword debugMode s v restart e hlisted
      hlocked hdebug
    rw [heq]

theorem confirmLock_some {v : LockValue} {restart : Bool} {delay : ℕ} (hshown : DialogShown s v)
    (e : Entry) :
    (confirmLock sha256 defaultPassword debugMode s v restart delay (some e)).1 = true ↔
      e.username ∈ s.userlist ∧ getLocked s v e.username = false ∧
        (debugMode = true →
          checkPassword sha256 defaultPassword s e.username e.password = true) := by
  have hgrant := @accepted_iff sha256 defaultPassword debugMode { s with clock := s.clock + delay }
    v restart e
  rw [confirmLock_accepted hshown]
  rcases haccepted : accepted sha256 defaultPassword debugMode
    { s with clock := s.clock + delay } v restart e with ⟨_ | _, s'⟩
  · rw [haccepted] at hgrant
    exact hgrant
  · rw [haccepted] at hgrant
    exact hgrant

/-- **One verdict.** The code gives the policy's verdict unless, outside debug
    builds, the dialog is accepted with a wrong password of a user for whom the
    part is not locked. -/
theorem verdict_iff (h : Represents sha256 s p) (hsha : Function.Injective sha256)
    (v : LockValue) (restart : Bool) (delay : ℕ) (entry : Option Entry) :
    Correct sha256 defaultPassword debugMode (s, p) (.confirmLock v restart delay entry) ↔
      ∀ e ∈ entry, Reaches s v e → debugMode = false →
        checkPassword sha256 defaultPassword s e.username e.password = true := by
  have hshown := h.dialogShown_iff v
  unfold Correct Policy.Grants
  by_cases hopen : p.Open v
  · have hnot : ¬ DialogShown s v := fun hd => hshown.mp hd hopen
    simp [confirmLock_early hnot, hopen, Reaches, hnot]
  · have hd : DialogShown s v := hshown.mpr hopen
    cases entry with
    | none => simp [confirmLock_cancelled hd, hopen]
    | some e =>
      have hadmits : p.Admits v e ↔ e.username ∈ s.userlist ∧ getLocked s v e.username = false ∧
          checkPassword sha256 defaultPassword s e.username e.password = true := by
        unfold Policy.Admits
        rw [← h.locks v]
        constructor
        · rintro ⟨hpass, hlocked⟩
          have hu : e.username ∈ s.userlist := (h.listed _).mpr (by simp [hpass])
          exact ⟨hu, hlocked, (h.checkPassword_iff hsha hu _).mpr hpass⟩
        · rintro ⟨hu, hlocked, hpass⟩
          exact ⟨(h.checkPassword_iff hsha hu _).mp hpass, hlocked⟩
      simp only [confirmLock_some hd, hopen, false_or, Option.mem_def, Option.some.injEq,
        exists_eq_left', hadmits, forall_eq', Reaches]
      cases debugMode <;> simp [hd]

/-! ## Runs -/

/-- What is not remembered now is not remembered later. -/
theorem Policy.Remembered.mono {p : Policy} {v : LockValue} {now later : ℕ}
    (h : p.Remembered v later) (hle : now ≤ later) : p.Remembered v now := by
  obtain ⟨c, hc, hlock, hlt⟩ := h
  exact ⟨c, hc, hlock, lt_of_le_of_lt hle hlt⟩

/-- The loop computes the time the form asks for. -/
theorem scale_asked {restart : Bool} {e : Entry} (h : asked s restart e < 2 ^ 31) :
    scale (form s restart e).1 (form s restart e).2 = asked s restart e := by
  have hcast : ((asked s restart e : ℕ) : ℤ) =
      (form s restart e).1 * 60 ^ ((form s restart e).2 : ℕ) := by
    simp [asked]
  rw [hcast]
  refine scale_exact (by omega) _ ?_
  rw [← hcast]
  exact_mod_cast h

/-- A granted dialog that asks for less than `2 ^ 31` seconds is remembered for
    the time it asked for. -/
theorem represents_granted {v : LockValue} {restart : Bool} {delay : ℕ} {e : Entry}
    (h : Represents sha256 s p) (hopen : ¬ p.Open v) {s' : Keyring}
    (hlist : s'.userlist = s.userlist) (hclock : s'.clock = s.clock + delay)
    (hkeys : ∀ k, k ∉ plainKeys → s'.localKeys k = s.localKeys k)
    (hpointer : s'.timePointer = if (form s restart e).1 = 0 then s.timePointer else
      Function.update s.timePointer v
        ((s.clock + delay : ℕ) + scale (form s restart e).1 (form s restart e).2))
    (hasked : asked s restart e < 2 ^ 31) :
    Represents sha256 s' { p with
      clock := p.clock + delay
      confirmations := ⟨v, p.clock + delay, asked s restart e⟩ :: p.confirmations } where
  nodup := hlist ▸ h.nodup
  listed := hlist ▸ h.listed
  hashes := by
    intro u password hu
    rw [hkeys _ (userKey_not_plain u)]
    exact h.hashes u password hu
  locks := by
    intro v' u
    unfold getLocked
    rw [hkeys _ (lockKey_not_plain v' u)]
    exact h.locks v' u
  clock := by
    rw [hclock, h.clock]
  remembered := by
    intro v' now hnow
    have hnow' : p.clock ≤ now := le_trans (Nat.le_add_right _ _) hnow
    have hold := h.remembered v' now hnow'
    have hsplit : Policy.Remembered { p with
          clock := p.clock + delay
          confirmations := ⟨v, p.clock + delay, asked s restart e⟩ :: p.confirmations } v' now ↔
        (v = v' ∧ now < p.clock + delay + asked s restart e) ∨ p.Remembered v' now := by
      simp [Policy.Remembered]
    have hexpired : ¬ p.Remembered v now := fun hr => hopen (Or.inr (Or.inr (hr.mono hnow')))
    have hnow : p.clock + delay ≤ now := hnow
    rw [hsplit, hpointer]
    by_cases hzero : (form s restart e).1 = 0
    · have hnone : asked s restart e = 0 := by simp [asked, hzero]
      rw [if_pos hzero, hold, hnone]
      constructor
      · exact Or.inr
      · rintro (⟨-, hlt⟩ | hr)
        · omega
        · exact hr
    · rw [if_neg hzero, scale_asked hasked]
      by_cases hv : v' = v
      · subst hv
        rw [Function.update_self, h.clock]
        constructor
        · intro hlt
          exact Or.inl ⟨rfl, by exact_mod_cast hlt⟩
        · rintro (⟨-, hlt⟩ | hr)
          · exact_mod_cast hlt
          · exact absurd hr hexpired
      · rw [Function.update_of_ne hv, hold]
        constructor
        · exact Or.inr
        · rintro (⟨hvv, -⟩ | hr)
          · exact absurd hvv.symm hv
          · exact hr

/-- An action in a careful run keeps the representation. -/
theorem represents_step (h : Represents sha256 s p) (hsha : Function.Injective sha256) (a : Action)
    (hcareful : Careful sha256 defaultPassword s a) :
    Represents sha256 (s.step sha256 defaultPassword debugMode a) (p.step (a.seconds s) a) := by
  cases a with
  | setPassword u password => exact h.setPassword u password
  | delUser u => exact h.delUser u
  | setLocked v value u => exact h.setLocked v value u
  | advance n => exact h.advance n
  | confirmLock v restart delay entry =>
    show Represents sha256
      (confirmLock sha256 defaultPassword debugMode s v restart delay entry).2 _
    have hshown := h.dialogShown_iff v
    by_cases hopen : p.Open v
    · rw [confirmLock_early fun hd => hshown.mp hd hopen]
      simpa [Policy.step, hopen] using h
    · have hd : DialogShown s v := hshown.mpr hopen
      have hdenied : Represents sha256
          { s with clock := s.clock + delay, failedCount := s.failedCount + 1 }
          { p with clock := p.clock + delay } :=
        (h.advance delay).of_keys rfl rfl rfl fun _ _ => rfl
      cases entry with
      | none =>
        rw [confirmLock_cancelled hd]
        simpa [Policy.step, hopen] using hdenied
      | some e =>
        rw [confirmLock_accepted hd]
        by_cases hreach : e.username ∈ s.userlist ∧ getLocked s v e.username = false
        · -- a careful dialog: the password is right, so both sides grant
          obtain ⟨hlisted, hlocked⟩ := hreach
          obtain ⟨hpass, hasked⟩ := hcareful ⟨hd, hlisted, hlocked⟩
          have hadmits : p.Admits v e :=
            ⟨(h.checkPassword_iff hsha hlisted _).mp hpass, (h.locks v _).symm.trans hlocked⟩
          obtain ⟨s', heq, hlist, hclock, hkeys, hpointer⟩ :=
            @accepted_granted sha256 defaultPassword debugMode { s with clock := s.clock + delay } v
              restart e hlisted hlocked fun _ => hpass
          rw [heq]
          simp only [Policy.step, hopen, if_false, hadmits, if_true]
          exact represents_granted h hopen hlist hclock hkeys hpointer hasked
        · have hadmits : ¬ p.Admits v e := by
            rintro ⟨hpass, hlocked⟩
            exact hreach ⟨(h.listed _).mpr (by simp [hpass]), (h.locks v _).trans hlocked⟩
          have heq := @accepted_denied sha256 defaultPassword debugMode
            { s with clock := s.clock + delay } v restart e fun hall => hreach ⟨hall.1, hall.2.1⟩
          rw [heq]
          simpa [Policy.step, hopen, hadmits] using hdenied

/-- A careful action is given the policy's verdict. -/
theorem correct_of_careful (h : Represents sha256 s p) (hsha : Function.Injective sha256)
    (a : Action) (hcareful : Careful sha256 defaultPassword s a) :
    Correct sha256 defaultPassword debugMode (s, p) a := by
  cases a with
  | confirmLock v restart delay entry =>
    refine (verdict_iff h hsha v restart delay entry).mpr ?_
    rintro e rfl hreach -
    exact (hcareful hreach).1
  | setPassword u password => trivial
  | delUser u => trivial
  | setLocked v value u => trivial
  | advance n => trivial

/-- Along a run of the code and the policy from related states, careful actions
    are given the policy's verdicts. -/
theorem along_correct_of_represents (hsha : Function.Injective sha256) (as : List Action) :
    ∀ {s : Keyring} {p : Policy}, Represents sha256 s p →
      (joint sha256 defaultPassword debugMode).Along
        (fun st => Careful sha256 defaultPassword st.1) (s, p) as →
      (joint sha256 defaultPassword debugMode).Along
        (Correct sha256 defaultPassword debugMode) (s, p) as := by
  induction as with
  | nil => intro s p _ _; trivial
  | cons a as ih =>
    rintro s p h ⟨hcareful, hrest⟩
    refine ⟨correct_of_careful h hsha a hcareful, ?_⟩
    rintro st' hst'
    obtain rfl := Option.some.inj hst'
    exact ih (represents_step h hsha a hcareful) (hrest _ rfl)

/-- A user with a password, and the settings locked. -/
def guarded : List Action :=
  [.setPassword "alice" "secret", .setLocked .lockSettings true ""]

end NekoBox.Security
