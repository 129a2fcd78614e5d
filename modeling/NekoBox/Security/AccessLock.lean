import NekoBox.Lib.Machine

/-!
# The access lock

`security_addon.cpp`: users, password hashes and locks live in `local_keys`
(`keys.ini`), the user list is also kept in memory, and `confirmLock` (lines
112–191) asks for a name and a password unless there is no user, the part is
not locked or a confirmation is still remembered.

The settings are a map from keys to values, as `QSettings` is; `sha256` is a
parameter. `debugMode` is the build flag `DEBUG_MODE`: the jump that ends the
dialog after a wrong password stands under it.

Results:
* `lockKey_inj` and the lemmas after it: the keys of locks, password hashes and
  the other settings do not collide.
* `scale_exact`: the remembered time is the entered value times 60 per unit
  step when that is below `2 ^ 31`.
-/

namespace NekoBox.Security

open NekoBox.Lib

/-! ## Settings -/

/-- The values kept in `local_keys`. -/
inductive QVariant where
  | bool (b : Bool)
  | int (i : ℤ)
  | bytes (b : ByteArray)
  | strings (l : List String)
  deriving DecidableEq

/-- `QVariant::toBool` of a lock's value; a lock's key only holds a `bool`. -/
def QVariant.toBool : QVariant → Bool
  | .bool b => b
  | _ => false

/-- `QVariant::toByteArray` of a password hash. -/
def QVariant.toByteArray : QVariant → ByteArray
  | .bytes b => b
  | _ => ByteArray.empty

abbrev QSettings := String → Option QVariant

def QSettings.setValue (q : QSettings) (key : String) (v : QVariant) : QSettings :=
  Function.update q key (some v)

def QSettings.remove (q : QSettings) (key : String) : QSettings :=
  Function.update q key none

@[simp] theorem QSettings.setValue_self (q : QSettings) (key : String) (v : QVariant) :
    q.setValue key v key = some v := Function.update_self ..

theorem QSettings.setValue_ne (q : QSettings) {key key' : String} (v : QVariant)
    (h : key' ≠ key) : q.setValue key v key' = q key' := Function.update_of_ne h ..

@[simp] theorem QSettings.remove_self (q : QSettings) (key : String) : q.remove key key = none :=
  Function.update_self ..

theorem QSettings.remove_ne (q : QSettings) {key key' : String} (h : key' ≠ key) :
    q.remove key key' = q key' := Function.update_of_ne h ..

inductive LockValue where
  | lockStartup
  | lockSettings
  | lockSystray
  deriving DecidableEq, Repr

/-- `getLockPart` (lines 266–281) -/
def getLockPart : LockValue → String
  | .lockSettings => "settings"
  | .lockStartup => "startup"
  | .lockSystray => "systray"

/-- The key under which `setLocked` and `getLocked` keep a lock. -/
def lockKey (key : LockValue) (username : String) : String :=
  if username ≠ "" then "lock_" ++ getLockPart key ++ "_" ++ username
  else "lock_" ++ getLockPart key

/-- The key of a user's password hash. -/
def userKey (username : String) : String := "user_" ++ username

theorem userKey_inj {u u' : String} : userKey u = userKey u' ↔ u = u' := by
  simp [userKey]

theorem lockKey_inj {v v' : LockValue} {u u' : String} :
    lockKey v u = lockKey v' u' ↔ v = v' ∧ u = u' := by
  constructor
  · intro h
    have hlist := congrArg String.toList h
    unfold lockKey at hlist
    cases v <;> cases v' <;> split_ifs at hlist <;>
      simp_all [getLockPart, String.toList_append, String.toList_inj]
  · rintro ⟨rfl, rfl⟩
    rfl

theorem lockKey_ne_userKey (v : LockValue) (u u' : String) : lockKey v u ≠ userKey u' := by
  intro h
  have hlist := congrArg String.toList h
  unfold lockKey userKey at hlist
  cases v <;> split_ifs at hlist <;> simp [getLockPart, String.toList_append] at hlist

/-- The keys besides locks and hashes: the user list and the two fields of the
    dialog. -/
def plainKeys : List String := ["userlist", "remember_time", "remember_type"]

theorem lockKey_ne_plain {v : LockValue} {u k : String} (hk : k ∈ plainKeys) : lockKey v u ≠ k := by
  intro h
  have hlist := congrArg String.toList h
  unfold lockKey at hlist
  simp only [plainKeys, List.mem_cons, List.not_mem_nil, or_false] at hk
  rcases hk with rfl | rfl | rfl <;> cases v <;> split_ifs at hlist <;>
    simp [getLockPart, String.toList_append] at hlist

theorem userKey_ne_plain {u k : String} (hk : k ∈ plainKeys) : userKey u ≠ k := by
  intro h
  have hlist := congrArg String.toList h
  simp only [plainKeys, List.mem_cons, List.not_mem_nil, or_false] at hk
  rcases hk with rfl | rfl | rfl <;> simp [userKey, String.toList_append] at hlist

/-! ## State -/

/-- The variables of `security_addon.cpp`. `timePointer v` is the variable that
    `getTimePointer(v)` points to; `clock` is the current time in seconds. -/
structure Keyring where
  localKeys : QSettings
  userlist : List String
  timePointer : LockValue → ℤ
  timeLine : ℤ
  timeType : Fin 3
  failedCount : ℕ
  clock : ℕ

/-- After `init_keys` with no `keys.ini`, at the time `now`. -/
def Keyring.fresh (now : ℕ) : Keyring where
  localKeys := fun _ => none
  userlist := []
  timePointer := fun _ => 0
  timeLine := 0
  timeType := 0
  failedCount := 0
  clock := now

section
variable (sha256 : ByteArray → ByteArray) (defaultPassword : String) (debugMode : Bool)

def hashPassword (password : String) : ByteArray := sha256 password.toUTF8

theorem hashPassword_inj (hsha : Function.Injective sha256) {p p' : String} :
    hashPassword sha256 p = hashPassword sha256 p' ↔ p = p' := by
  unfold hashPassword
  rw [hsha.eq_iff]
  exact String.toByteArray_inj

/-- `getLocked` (lines 283–293) -/
def getLocked (s : Keyring) (key : LockValue) (username : String) : Bool :=
  ((s.localKeys (lockKey key username)).map QVariant.toBool).getD false

/-- `setLocked` (lines 301–312) -/
def setLocked (s : Keyring) (key : LockValue) (value : Bool) (username : String) : Keyring :=
  { s with localKeys := s.localKeys.setValue (lockKey key username) (.bool value) }

/-- `addUser` (lines 314–321) -/
def addUser (s : Keyring) (username : String) : Keyring :=
  if username ∈ s.userlist then s
  else
    { s with
      userlist := s.userlist ++ [username]
      localKeys := s.localKeys.setValue "userlist" (.strings (s.userlist ++ [username])) }

/-- `getPasswordHash` (lines 323–331) -/
def getPasswordHash (s : Keyring) (username : String) : ByteArray :=
  match s.localKeys (userKey username) with
  | some v => v.toByteArray
  | none => hashPassword sha256 defaultPassword

/-- `checkPassword` (lines 333–341) -/
def checkPassword (s : Keyring) (username password : String) : Bool :=
  if s.userlist = [] then true
  else getPasswordHash sha256 defaultPassword s username = hashPassword sha256 password

/-- `delUser` (lines 343–354). `remove` of an absent key changes nothing, so
    the test for the key is left out. -/
def delUser (s : Keyring) (username : String) : Keyring :=
  let s :=
    if username ∈ s.userlist then
      { s with
        userlist := s.userlist.erase username
        localKeys := s.localKeys.setValue "userlist" (.strings (s.userlist.erase username)) }
    else s
  { s with localKeys := s.localKeys.remove (userKey username) }

/-- `setPassword` (lines 356–367) -/
def setPassword (s : Keyring) (username password : String) : Keyring :=
  if password = "" then delUser s username
  else
    let s := addUser s username
    { s with
      localKeys := s.localKeys.setValue (userKey username)
        (.bytes (hashPassword sha256 password)) }

/-! ## The dialog -/

/-- What is entered in `confirm_password.ui`: the spin box admits 0 to 999999,
    the combo box seconds, minutes and hours. -/
structure Entry where
  username : String
  password : String
  value : Fin 1000000
  unit : Fin 3
  deriving DecidableEq, Repr

/-- The spin box and the combo box when the dialog is accepted. With `restart`
    they are hidden and hold 999999 and the unit remembered last. -/
def form (s : Keyring) (restart : Bool) (entry : Entry) : ℕ × Fin 3 :=
  if restart then (999999, s.timeType) else (entry.value, entry.unit)

/-- A 32-bit `int`. -/
def toInt32 (x : ℤ) : ℤ := x.bmod (2 ^ 32)

/-- The loop `for (int n = curind; n > 0; n--) seconds *= 60`, on an `int`. -/
def scale (seconds : ℤ) : ℕ → ℤ
  | 0 => seconds
  | n + 1 => scale (toInt32 (seconds * 60)) n

/-- The handler of the accepted dialog (lines 146–186): what it leaves in `ret`
    and the state after it. -/
def accepted (s : Keyring) (val : LockValue) (restart : Bool) (entry : Entry) : Bool × Keyring :=
  if entry.username ∉ s.userlist then (false, s)
  else if debugMode && !checkPassword sha256 defaultPassword s entry.username entry.password then
    (false, s)
  else if getLocked s val entry.username then (false, s)
  else
    let seconds : ℤ := (form s restart entry).1
    let curind := (form s restart entry).2
    let s :=
      if restart then s
      else
        { s with
          localKeys := s.localKeys.setValue "remember_time" (.int seconds)
          timeLine := seconds }
    if seconds ≤ 0 then (true, s)
    else
      let s :=
        if restart then s
        else
          { s with
            localKeys := s.localKeys.setValue "remember_type" (.int curind)
            timeType := curind }
      (true, { s with
        timePointer := Function.update s.timePointer val (s.clock + scale seconds curind) })

/-- The dialog is shown: `confirmLockStatic` passes its three early returns
    (lines 122–131). -/
def DialogShown (s : Keyring) (val : LockValue) : Prop :=
  s.userlist ≠ [] ∧ getLocked s val "" = true ∧ s.timePointer val ≤ s.clock

instance (s : Keyring) (val : LockValue) : Decidable (DialogShown s val) :=
  inferInstanceAs (Decidable (_ ∧ _ ∧ _))

/-- `confirmLockStatic` (lines 120–191). The dialog, when it is shown, stays
    open for `delay` seconds; `entry` is `none` when it is cancelled. -/
def confirmLockStatic (s : Keyring) (val : LockValue) (restart : Bool) (delay : ℕ)
    (entry : Option Entry) : Bool × Keyring :=
  if s.userlist = [] then (true, s)
  else if getLocked s val "" = false then (true, s)
  else if s.timePointer val > s.clock then (true, s)
  else
    let s := { s with clock := s.clock + delay }
    match entry with
    | none => (false, s)
    | some e => accepted sha256 defaultPassword debugMode s val restart e

/-- `confirmLock` (lines 112–118) -/
def confirmLock (s : Keyring) (val : LockValue) (restart : Bool) (delay : ℕ)
    (entry : Option Entry) : Bool × Keyring :=
  match confirmLockStatic sha256 defaultPassword debugMode s val restart delay entry with
  | (true, s) => (true, s)
  | (false, s) => (false, { s with failedCount := s.failedCount + 1 })

end

/-! ## Remembered time -/

theorem toInt32_of_lt {x : ℤ} (h₀ : 0 ≤ x) (h : x < 2 ^ 31) : toInt32 x = x := by
  unfold toInt32
  rw [Int.bmod_eq_of_le] <;> omega

/-- The loop is exact when its result fits an `int`. -/
theorem scale_exact {x : ℤ} (hx : 0 ≤ x) (n : ℕ) (h : x * 60 ^ n < 2 ^ 31) :
    scale x n = x * 60 ^ n := by
  induction n generalizing x with
  | zero => simp [scale]
  | succ n ih =>
    have hpow : x * 60 * 60 ^ n = x * 60 ^ (n + 1) := by ring
    have hone : (1 : ℤ) ≤ 60 ^ n := one_le_pow₀ (by norm_num)
    have hstep : x * 60 ≤ x * 60 * 60 ^ n := le_mul_of_one_le_right (by omega) hone
    have hfit : toInt32 (x * 60) = x * 60 := toInt32_of_lt (by omega) (by omega)
    rw [scale, hfit, ih (by omega) (by omega), hpow]

/-- 596524 hours do not fit: the remembered time becomes negative. -/
example : scale 596523 2 = 596523 * 3600 ∧ scale 596524 2 = 596524 * 3600 - 2 ^ 32 := by decide

/-! ## Early returns and the dialog -/

variable {sha256 : ByteArray → ByteArray} {defaultPassword : String} {debugMode : Bool}
  {s : Keyring} {val : LockValue} {restart : Bool} {delay : ℕ} {entry : Option Entry}

theorem confirmLock_early (h : ¬ DialogShown s val) :
    confirmLock sha256 defaultPassword debugMode s val restart delay entry = (true, s) := by
  unfold confirmLock confirmLockStatic
  split_ifs with husers hlocked htime
  · rfl
  · rfl
  · rfl
  · exact absurd ⟨husers, by simpa using hlocked, by simpa using htime⟩ h

theorem confirmLock_cancelled (h : DialogShown s val) :
    confirmLock sha256 defaultPassword debugMode s val restart delay none =
      (false, { s with clock := s.clock + delay, failedCount := s.failedCount + 1 }) := by
  obtain ⟨husers, hlocked, htime⟩ := h
  simp [confirmLock, confirmLockStatic, husers, hlocked, not_lt.mpr htime]

theorem confirmLock_accepted (h : DialogShown s val) (e : Entry) :
    confirmLock sha256 defaultPassword debugMode s val restart delay (some e) =
      match accepted sha256 defaultPassword debugMode { s with clock := s.clock + delay } val
        restart e with
      | (true, s) => (true, s)
      | (false, s) => (false, { s with failedCount := s.failedCount + 1 }) := by
  obtain ⟨husers, hlocked, htime⟩ := h
  simp [confirmLock, confirmLockStatic, husers, hlocked, not_lt.mpr htime]

end NekoBox.Security
