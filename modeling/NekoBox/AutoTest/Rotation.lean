import Mathlib

/-!
# The profiles of a test cycle

`getProxiesToTest` (`ProxyAutoTester.cpp`, lines 291–353) goes round the profiles of the
current group, from an offset on, until it has found as many as a cycle tests. The offset of
the next cycle is further by the number of profiles found, not by that of the profiles
looked at.

* `testLoop_eq`: what a call returns, as a list;
* `getProxiesToTest_fair`: in as many calls as there are profiles each that is accepted is
  returned, and no call returns a profile twice or more profiles than the cycle tests.
-/

namespace NekoBox.AutoTest

/-! ## The code -/

/-- What `shouldTestProxy` reads of a profile; `core` is that of the `CustomBean`, if the
    profile has one. -/
structure Proxy where
  type : String
  core : Option String

/-- `shouldTestProxy` (lines 338–353) -/
def shouldTestProxy : Option Proxy → Bool
  | none => false
  | some proxy =>
    if proxy.type = "chain" then false
    else if proxy.type = "custom" then proxy.core = some "internal-full"
    else true

/-- The loop (lines 322–330), from `i` on with `left` turns at most before it ends. -/
def testLoop (getProfile : ℤ → Option Proxy) (allProxies : List ℤ) (proxyCountPerCycle : ℤ)
    (startIdx : ℕ) : ℕ → ℕ → List ℤ → List ℤ
  | 0, _, result => result
  | left + 1, i, result =>
    if result.length < proxyCountPerCycle then
      match allProxies[(startIdx + i) % allProxies.length]? with
      | none => result
      | some id =>
        testLoop getProfile allProxies proxyCountPerCycle startIdx left (i + 1)
          (if shouldTestProxy (getProfile id) then result ++ [id] else result)
    else result

/-- `getProxiesToTest`: the profiles to test, and `currentTestOffset` for the next call. -/
def getProxiesToTest (getProfile : ℤ → Option Proxy) (group : Option (List ℤ))
    (proxyCountPerCycle : ℤ) (currentTestOffset : ℕ) : List ℤ × ℕ :=
  match group with
  | none => ([], currentTestOffset)
  | some allProxies =>
    if allProxies = [] then ([], currentTestOffset)
    else if allProxies.length > 3000 then ([], currentTestOffset)
    else
      let startIdx := currentTestOffset % allProxies.length
      let result := testLoop getProfile allProxies proxyCountPerCycle startIdx
        allProxies.length 0 []
      (result, (startIdx + result.length) % allProxies.length)

/-- What `m` calls return, one after another. -/
def calls (getProfile : ℤ → Option Proxy) (group : Option (List ℤ)) (proxyCountPerCycle : ℤ) :
    ℕ → ℕ → List (List ℤ)
  | 0, _ => []
  | m + 1, currentTestOffset =>
    let next := getProxiesToTest getProfile group proxyCountPerCycle currentTestOffset
    next.1 :: calls getProfile group proxyCountPerCycle m next.2

section

variable {getProfile : ℤ → Option Proxy} {profiles : List ℤ} {k : ℤ}

/-! ## One call -/

/-- The profiles that are tested, in the order in which the loop meets them. -/
def accepted (getProfile : ℤ → Option Proxy) (profiles : List ℤ) : List ℤ :=
  profiles.filter fun id => shouldTestProxy (getProfile id)

theorem testLoop_from (hprofiles : profiles ≠ []) (startIdx : ℕ) {left i : ℕ}
    (hleft : i + left = profiles.length) (result : List ℤ) :
    testLoop getProfile profiles k startIdx left i result =
      result ++ (accepted getProfile ((profiles.rotate startIdx).drop i)).take
        (k.toNat - result.length) := by
  induction left generalizing i result with
  | zero =>
    have hend : (profiles.rotate startIdx).drop i = [] := by
      rw [List.drop_eq_nil_iff, List.length_rotate]
      omega
    rw [hend]
    simp [testLoop, accepted]
  | succ left ih =>
    have hpos : 0 < profiles.length := List.length_pos_iff.mpr hprofiles
    have hi : i < (profiles.rotate startIdx).length := by
      rw [List.length_rotate]
      omega
    have hmod : (startIdx + i) % profiles.length < profiles.length := Nat.mod_lt _ hpos
    unfold testLoop
    by_cases hcount : (result.length : ℤ) < k
    · have hget : profiles[(startIdx + i) % profiles.length]? =
          some ((profiles.rotate startIdx)[i]) := by
        rw [List.getElem?_eq_getElem hmod, List.getElem_rotate]
        simp only [Nat.add_comm]
      rw [if_pos hcount, hget]
      dsimp only
      rw [ih (by omega), List.drop_eq_getElem_cons hi]
      unfold accepted
      rw [List.filter_cons]
      by_cases haccept : shouldTestProxy (getProfile (profiles.rotate startIdx)[i]) = true
      · have hsucc : k.toNat - result.length = (k.toNat - (result.length + 1)) + 1 := by omega
        rw [if_pos haccept, if_pos haccept, List.length_append, List.length_singleton, hsucc,
          List.take_succ_cons, List.append_assoc]
        rfl
      · rw [if_neg haccept, if_neg haccept]
    · have hzero : k.toNat - result.length = 0 := by omega
      rw [if_neg hcount, hzero, List.take_zero, List.append_nil]

/-- What a call returns: the first accepted profiles from the offset on. -/
theorem testLoop_eq (hprofiles : profiles ≠ []) (startIdx : ℕ) :
    testLoop getProfile profiles k startIdx profiles.length 0 [] =
      (accepted getProfile (profiles.rotate startIdx)).take k.toNat := by
  rw [testLoop_from hprofiles startIdx (Nat.zero_add _)]
  simp

/-- The number of profiles that a call returns does not depend on the offset. -/
theorem length_accepted_rotate (startIdx : ℕ) :
    (accepted getProfile (profiles.rotate startIdx)).length =
      (accepted getProfile profiles).length :=
  ((List.rotate_perm profiles startIdx).filter _).length_eq

/-- Of the profiles that the offset passes over, all that are accepted are returned. -/
theorem mem_take_accepted {l : List ℤ} {t c : ℕ} (hc : c ≤ k.toNat) (ht : t < c) {id : ℤ}
    (hid : l[t]? = some id)
    (haccept : shouldTestProxy (getProfile id) = true) :
    id ∈ (accepted getProfile l).take k.toNat := by
  have hsplit : accepted getProfile l =
      accepted getProfile (l.take c) ++ accepted getProfile (l.drop c) := by
    unfold accepted
    rw [← List.filter_append, List.take_append_drop]
  have hlength : (accepted getProfile (l.take c)).length ≤ k.toNat := by
    refine (List.length_filter_le _ _).trans ?_
    rw [List.length_take]
    omega
  have hmem : id ∈ accepted getProfile (l.take c) := by
    refine List.mem_filter.mpr ⟨List.mem_of_getElem? (i := t) ?_, haccept⟩
    rw [List.getElem?_take_of_lt ht]
    exact hid
  rw [hsplit, List.take_append, List.take_of_length_le hlength]
  exact List.mem_append_left _ hmem

/-! ## Many calls -/

section

variable (hone : 1 ≤ profiles.length) (hmany : profiles.length ≤ 3000)

include hone hmany

/-- A call on a group that is tested. -/
theorem getProxiesToTest_eq (offset : ℕ) :
    getProxiesToTest getProfile (some profiles) k offset =
      ((accepted getProfile (profiles.rotate offset)).take k.toNat,
        (offset + min k.toNat (accepted getProfile profiles).length) % profiles.length) := by
  have hne : profiles ≠ [] := List.length_pos_iff.mp hone
  unfold getProxiesToTest
  dsimp only
  rw [if_neg hne, if_neg (not_lt.mpr hmany), testLoop_eq hne, List.rotate_mod, List.length_take,
    length_accepted_rotate, Nat.mod_add_mod]

/-- Each call returns distinct profiles, at most `k` of them. -/
theorem calls_spec (hnodup : profiles.Nodup) (m offset : ℕ) :
    ∀ tested ∈ calls getProfile (some profiles) k m offset,
      tested.Nodup ∧ tested.length ≤ k.toNat := by
  induction m generalizing offset with
  | zero => exact fun tested h => nomatch h
  | succ m ih =>
    unfold calls
    dsimp only
    rw [getProxiesToTest_eq hone hmany]
    refine List.forall_mem_cons.mpr ⟨⟨?_, ?_⟩, ih _⟩
    · exact ((List.nodup_rotate.mpr hnodup).filter _).sublist (List.take_sublist _ _)
    · exact List.length_take_le _ _

/-- The offset of each call is further by the number of profiles that a call returns. -/
theorem mem_calls {m offset j : ℕ} (hj : j < m) :
    (accepted getProfile (profiles.rotate
        (offset + j * min k.toNat (accepted getProfile profiles).length))).take k.toNat ∈
      calls getProfile (some profiles) k m offset := by
  induction m generalizing offset j with
  | zero => exact absurd hj (Nat.not_lt_zero j)
  | succ m ih =>
    unfold calls
    dsimp only
    rw [getProxiesToTest_eq hone hmany]
    cases j with
    | zero =>
      rw [Nat.zero_mul, Nat.add_zero]
      exact List.mem_cons_self
    | succ j =>
      refine List.mem_cons_of_mem _ ?_
      have hnext := @ih ((offset + min k.toNat (accepted getProfile profiles).length) %
        profiles.length) j (Nat.lt_of_succ_lt_succ hj)
      rw [← List.rotate_mod, Nat.mod_add_mod, List.rotate_mod] at hnext
      rw [Nat.succ_mul, Nat.add_comm (j * _), ← Nat.add_assoc]
      exact hnext

end

/-- **In as many calls as there are profiles each that is accepted is tested, and no call
    tests a profile twice or more profiles than a cycle does.** -/
theorem getProxiesToTest_fair (getProfile : ℤ → Option Proxy) (profiles : List ℤ)
    (hone : 1 ≤ profiles.length) (hmany : profiles.length ≤ 3000) (hnodup : profiles.Nodup)
    (k : ℤ) (hk : 1 ≤ k) (offset : ℕ) :
    (∀ id ∈ profiles, shouldTestProxy (getProfile id) = true →
      ∃ tested ∈ calls getProfile (some profiles) k profiles.length offset, id ∈ tested) ∧
    ∀ m, ∀ tested ∈ calls getProfile (some profiles) k m offset,
      tested.Nodup ∧ (tested.length : ℤ) ≤ k := by
  refine ⟨fun id hid haccept => ?_, fun m tested htested => ?_⟩
  · obtain ⟨p, hp⟩ := List.mem_iff_getElem?.mp hid
    obtain ⟨hlt, -⟩ := List.getElem?_eq_some_iff.mp hp
    have hpositive : 1 ≤ (accepted getProfile profiles).length :=
      List.length_pos_iff.mpr (List.ne_nil_of_mem (List.mem_filter.mpr ⟨hid, haccept⟩))
    obtain ⟨c, hc⟩ : ∃ c, c = min k.toNat (accepted getProfile profiles).length := ⟨_, rfl⟩
    have hcpos : 1 ≤ c := by omega
    -- the distance from the offset to the profile, and the call that passes over it
    obtain ⟨d, hd⟩ : ∃ d, d = (p + profiles.length - offset % profiles.length) %
        profiles.length := ⟨_, rfl⟩
    have hdlt : d < profiles.length := hd ▸ Nat.mod_lt _ hone
    have hmod : (offset + d) % profiles.length = p := by
      have hstart : offset % profiles.length < profiles.length := Nat.mod_lt _ hone
      have hround : offset % profiles.length + (p + profiles.length - offset % profiles.length) =
          p + profiles.length := by omega
      rw [hd, Nat.add_mod_mod, ← Nat.mod_add_mod, hround, Nat.add_mod_right, Nat.mod_eq_of_lt hlt]
    have hdiv : d / c < profiles.length := (Nat.div_le_self d c).trans_lt hdlt
    have hsum : d / c * c + d % c = d := Nat.div_add_mod' d c
    have hrem : d % c < c := Nat.mod_lt d hcpos
    refine ⟨_, mem_calls hone hmany hdiv, ?_⟩
    rw [← hc]
    refine mem_take_accepted (by omega) hrem ?_ haccept
    have hrem' : d % c < profiles.length := (Nat.mod_le d c).trans_lt hdlt
    rw [List.getElem?_rotate hrem', ← hp]
    congr 1
    rw [← hmod]
    congr 1
    omega
  · obtain ⟨hdistinct, hlength⟩ := calls_spec hone hmany hnodup m offset tested htested
    exact ⟨hdistinct, by omega⟩

theorem getProxiesToTest_fair_pair :
    (∀ id ∈ [(1 : ℤ), 2], shouldTestProxy ((fun _ => some ⟨"vmess", none⟩) id) = true →
      ∃ tested ∈ calls (fun _ => some ⟨"vmess", none⟩) (some [1, 2]) 1 2 0, id ∈ tested) ∧
    ∀ m, ∀ tested ∈ calls (fun _ => some ⟨"vmess", none⟩) (some [1, 2]) 1 m 0,
      tested.Nodup ∧ (tested.length : ℤ) ≤ 1 :=
  getProxiesToTest_fair (fun _ => some ⟨"vmess", none⟩) [1, 2] (by decide) (by decide) (by decide)
    1 (by decide) 0

end

end NekoBox.AutoTest
