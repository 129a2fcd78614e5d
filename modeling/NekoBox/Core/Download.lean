import NekoBox.Lib.Machine

/-!
# The cache of rule sets

`CacheHttpBool` (`utils.go`, lines 185–210) takes whatever is found at the path of a URL as its
rule set, and else has `DownloadFile` (lines 95–162) fetch it. That creates the file first,
fills it with any response, and leaves it where it is on each of its early returns.

* `download_sound_iff`: a call keeps the meaning of the cache exactly when the rule set was cached, or
  nothing was at the path and the file cannot be created or a success response is received
  and written as a whole;
* `meaningful_of_run`: in a run of such calls nothing else is ever accepted.
-/

namespace NekoBox.Core

open NekoBox.Lib

namespace Download

/-! ## The code -/

/-- What is at the path of a URL. -/
inductive Entry where
  | absent
  /-- A file; `whole` when it holds a success response that was received completely. -/
  | file (data : List UInt8) (whole : Bool)
  /-- A directory, or a path through a file: `os.Stat` does not say that it does not exist. -/
  | unusual
  deriving DecidableEq

/-- How far `DownloadFile` gets. -/
inductive Attempt where
  /-- `os.Create` returns an error. -/
  | createFails
  /-- `url.Parse` or `http.NewRequest` does. -/
  | badUrl
  /-- `client.Do` does. -/
  | noResponse
  /-- `io.Copy` does, when it has written a part. -/
  | copyFails (status : ℕ) (written : List UInt8)
  /-- The process is ended when a part is written. -/
  | killed (written : List UInt8)
  /-- `io.Copy` returns at the end of the body, and the file is closed, which may fail and lose
      a part. -/
  | copied (status : ℕ) (kept : List UInt8) (closed : Bool)

/-- How `DownloadFile` ends. -/
inductive Outcome where
  | returned | failed | ended
  deriving DecidableEq

/-- A response is a success, and all of it is in the file. -/
def isWhole (status : ℕ) (closed : Bool) : Bool := 200 ≤ status ∧ status < 300 ∧ closed = true

/-- `DownloadFile`. The status of the response and the result of `outFile.Close` are not looked
    at. -/
def downloadFile (entry : Entry) : Attempt → Entry × Outcome
  | .createFails => (entry, .failed)
  | .badUrl => (.file [] false, .failed)
  | .noResponse => (.file [] false, .failed)
  | .copyFails _ written => (.file written false, .failed)
  | .killed written => (.file written false, .ended)
  | .copied status kept closed => (.file kept (isWhole status closed), .returned)

/-- `fileExists` (lines 180–183) -/
def fileExists : Entry → Bool
  | .absent => false
  | _ => true

/-- `CacheHttpBool`, for a URL that is not empty: what is then at the path, and whether the path
    is returned. A failed download ends the process (`log.Fatalf`). -/
def cacheHttpBool (entry : Entry) (attempt : Attempt) : Entry × Bool :=
  if fileExists entry then (entry, true)
  else ((downloadFile entry attempt).1, (downloadFile entry attempt).2 = .returned)

/-! ## The property -/

/-- A rule set is at the path. -/
def HoldsRuleSet (entry : Entry) : Prop := ∃ data, entry = .file data true

/-- What a call should do. -/
structure Sound (entry : Entry) (attempt : Attempt) : Prop where
  /-- A rule set that was cached stays. -/
  kept : HoldsRuleSet entry → (cacheHttpBool entry attempt).1 = entry
  /-- What a later call accepts is a rule set. -/
  left : fileExists (cacheHttpBool entry attempt).1 = true →
    HoldsRuleSet (cacheHttpBool entry attempt).1
  /-- What is returned is the path of a rule set. -/
  served : (cacheHttpBool entry attempt).2 = true → HoldsRuleSet (cacheHttpBool entry attempt).1

/-- The file cannot be created, or a success response is received and written as a whole. -/
def Clean : Attempt → Prop
  | .createFails => True
  | .copied status _ closed => isWhole status closed = true
  | _ => False

/-- The rule set is cached, or nothing is at the path and the download is clean. -/
def Fits (entry : Entry) (attempt : Attempt) : Prop :=
  HoldsRuleSet entry ∨ entry = .absent ∧ Clean attempt

theorem not_holds_of_incomplete (data : List UInt8) : ¬ HoldsRuleSet (.file data false) := by
  rintro ⟨data', h⟩
  cases h

theorem cacheHttpBool_of_exists {entry : Entry} (h : fileExists entry = true) (attempt : Attempt) :
    cacheHttpBool entry attempt = (entry, true) := if_pos h

theorem fileExists_of_holds {entry : Entry} (h : HoldsRuleSet entry) : fileExists entry = true := by
  obtain ⟨data, rfl⟩ := h
  rfl

/-- A download into an empty place that leaves nothing wrong is clean. -/
theorem clean_of_sound {attempt : Attempt} (h : Sound .absent attempt) : Clean attempt := by
  cases attempt with
  | createFails => trivial
  | badUrl => exact absurd (h.left rfl) (not_holds_of_incomplete [])
  | noResponse => exact absurd (h.left rfl) (not_holds_of_incomplete [])
  | copyFails status written => exact absurd (h.left rfl) (not_holds_of_incomplete written)
  | killed written => exact absurd (h.left rfl) (not_holds_of_incomplete written)
  | copied status kept closed =>
    obtain ⟨data, hdata⟩ := h.left rfl
    exact (Entry.file.inj hdata).2

/-- **A call keeps the meaning of the cache exactly when it fits.** -/
theorem download_sound_iff (entry : Entry) (attempt : Attempt) :
    Sound entry attempt ↔ Fits entry attempt := by
  constructor
  · intro h
    cases entry with
    | absent => exact .inr ⟨rfl, clean_of_sound h⟩
    | file data whole => exact .inl (h.left rfl)
    | unusual => exact .inl (h.left rfl)
  · rintro (hholds | ⟨rfl, hclean⟩)
    · have hcall := cacheHttpBool_of_exists (fileExists_of_holds hholds) attempt
      exact ⟨fun _ => by rw [hcall], fun _ => by rw [hcall]; exact hholds,
        fun _ => by rw [hcall]; exact hholds⟩
    · refine ⟨fun ⟨_, h⟩ => absurd h (by simp), ?_, ?_⟩
      · intro hexists
        cases attempt with
        | createFails => exact nomatch hexists
        | copied status kept closed => exact ⟨kept, congrArg (Entry.file kept) hclean⟩
        | badUrl | noResponse | copyFails | killed => exact hclean.elim
      · intro hreturned
        cases attempt with
        | createFails => exact nomatch hreturned
        | copied status kept closed => exact ⟨kept, congrArg (Entry.file kept) hclean⟩
        | badUrl | noResponse | copyFails | killed => exact hclean.elim

/-- The answer `404` is cached, and so is what has come when the connection breaks. -/
theorem errors_are_cached :
    ¬ (∀ entry attempt, Sound entry attempt) ∧ ¬ Sound .absent (.copied 404 [110, 111] true) ∧
      ¬ Sound .absent (.copyFails 200 [1, 2, 3]) := by
  have hstatus : ¬ Sound .absent (.copied 404 [110, 111] true) := by
    intro h
    have hwhole : isWhole 404 true = true := clean_of_sound h
    exact absurd hwhole (by decide)
  refine ⟨fun h => hstatus (h _ _), hstatus, fun h => ?_⟩
  exact clean_of_sound h

/-! ## Runs -/

/-- The calls for a URL, also of later processes. -/
def machine : Machine Entry Attempt := ⟨fun entry attempt => some (cacheHttpBool entry attempt).1⟩

/-- Nothing is at the path, or a rule set is. -/
def Meaningful (entry : Entry) : Prop := entry = .absent ∨ HoldsRuleSet entry

/-- In a run of calls that fit, from an empty cache, what is accepted is a rule set. -/
theorem meaningful_of_run {attempts : List Attempt} {entry : Entry}
    (hfits : machine.Along Fits .absent attempts)
    (hrun : machine.run .absent attempts = some entry) : Meaningful entry := by
  refine Machine.run_invariant Fits Meaningful ?_ (.inl rfl) hfits hrun
  intro s attempt s' _ hfit hstep
  obtain rfl := Option.some.inj hstep
  have hsound := (download_sound_iff s attempt).mpr hfit
  cases hexists : fileExists (cacheHttpBool s attempt).1 with
  | false =>
    left
    cases hentry : (cacheHttpBool s attempt).1 with
    | absent => rfl
    | file | unusual =>
      rw [hentry] at hexists
      exact nomatch hexists
  | true => exact .inr (hsound.left hexists)

end Download

end NekoBox.Core
