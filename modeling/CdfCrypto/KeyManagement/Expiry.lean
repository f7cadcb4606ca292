import CdfCrypto.KeyManagement.KeyIds

/-!
# Expired keys

A key outlives a time that lies before its creation time plus five years. `CheckDomainKeysExpired`
asks whether some key of the domain outlives the current time plus the lead; it cuts the clock down
to 32 bits, and the sum with it, and does not guard either. So it takes a domain for valid whose
keys outlive only what is left of the time (`checkDomainKeysExpired_exact`).

`CheckDomainKeysExpiredAndAutoUpdate` makes the expired keys again. It guards the sum, compares
with the same 32-bit clock, and takes over the creation time the vault tells, which with a lead of
five years need not outlive anything. Where the clock has 32 bits and the new times do outlive the
test time, it leaves the domain valid, and only the expired keys are touched
(`autoUpdate_renews`).
-/

namespace CdfCrypto.KeyManagement

open Lib OpenbaoKeyManager

/-- Some key of the domain outlives the time. -/
def Outlives (m : OpenbaoKeyManager) (d : Nat) (time : Int) : Prop :=
  ∃ k c, m.domainKeyMap.time? d k = some c ∧ time < c + openbaoMaxMasterKeyValidTime

/-! ## The loop of `CheckDomainKeysExpired` -/

theorem foundValidKey_cons (testTime : Nat) (key : Nat × Int) (keys : List (Nat × Int)) (found : Bool) :
    foundValidKey testTime (key :: keys) found =
      (addInt64 key.2 openbaoMaxMasterKeyValidTime).bind fun expireTime =>
        foundValidKey testTime keys (found || (testTime : Int) < expireTime) := rfl

/-- Where no sum overflows, the loop looks for a key that outlives the test time. -/
theorem foundValidKey_ok {testTime : Nat} {keys : List (Nat × Int)} :
    ∀ {found : Bool}, (∀ key ∈ keys, key.2 + openbaoMaxMasterKeyValidTime < 2 ^ 63) →
      foundValidKey testTime keys found = .ok (found ||
        keys.any fun key => decide ((testTime : Int) < key.2 + openbaoMaxMasterKeyValidTime)) := by
  induction keys with
  | nil =>
    intro found _
    rw [List.any_nil, Bool.or_false]
    rfl
  | cons key keys ih =>
    intro found hfits
    rw [foundValidKey_cons, addInt64, if_pos (hfits key List.mem_cons_self), List.any_cons,
      ← Bool.or_assoc]
    exact ih fun key' hmem => hfits key' (List.mem_cons_of_mem _ hmem)

/-- A sum that overflows is trapped. -/
theorem foundValidKey_overflow {testTime : Nat} {keys : List (Nat × Int)} :
    ∀ {found : Bool}, (∃ key ∈ keys, ¬ key.2 + openbaoMaxMasterKeyValidTime < 2 ^ 63) →
      foundValidKey testTime keys found = .error .overflow := by
  induction keys with
  | nil =>
    intro found h
    obtain ⟨key, hmem, -⟩ := h
    exact absurd hmem List.not_mem_nil
  | cons key keys ih =>
    intro found h
    rw [foundValidKey_cons]
    by_cases hkey : key.2 + openbaoMaxMasterKeyValidTime < 2 ^ 63
    · rw [addInt64, if_pos hkey]
      refine ih ?_
      obtain ⟨key', hmem, hnot⟩ := h
      rcases List.mem_cons.mp hmem with heq | hmem
      · rw [heq] at hnot
        exact absurd hkey hnot
      · exact ⟨key', hmem, hnot⟩
    · rw [addInt64, if_neg hkey]
      rfl

section Check

variable {m : OpenbaoKeyManager} {d lead : Nat} {now : Int} {answer : (c : Call) → c.Reply}

/-- The times of a domain, by the list the loops go through. -/
theorem mem_toList_iff_time? {k : Nat} {c : Int} :
    (k, c) ∈ (m.domainKeyMap.at' d).toList ↔ m.domainKeyMap.time? d k = some c :=
  Std.ExtTreeMap.mem_toList_iff_getElem?_eq_some

/-- No creation time of the domain overflows when the validity is added. -/
def TimesFit (m : OpenbaoKeyManager) (d : Nat) : Prop :=
  ∀ k c, m.domainKeyMap.time? d k = some c → c + openbaoMaxMasterKeyValidTime < 2 ^ 63

theorem toUint32_eq (time : Int) : (toUint32 time : Int) = time % 2 ^ 32 :=
  Int.toNat_of_nonneg (Int.emod_nonneg _ (by decide))

theorem toUint32_lt (time : Int) : toUint32 time < 2 ^ 32 := by
  have hcast := toUint32_eq time
  omega

/-- The 32-bit sum `CheckDomainKeysExpired` tests with. -/
def testTime (now : Int) (lead : Nat) : Nat := (toUint32 now + lead * dayToTime) % 2 ^ 32

theorem testTime_eq (now : Int) (lead : Nat) :
    (testTime now lead : Int) = (now + lead * dayToTime) % 2 ^ 32 := by
  rw [testTime, Int.natCast_emod, Int.natCast_add, toUint32_eq, Int.natCast_mul]
  exact Int.emod_add_emod _ _ _

/-- What the call answers once its parameters are good. -/
theorem checkDomainKeysExpired_eval (hinited : m.inited = true) (hmem : d ∈ m.domainKeyMap)
    (hd : d < m.domainCount.1) (hlead : lead ≤ openbaoMaxMasterKeyValidTimeInDays)
    (hanswer : answer .time = now) (hnow : now ≠ -1) :
    (TimesFit m d → ∃ found : Bool, (found = true ↔ Outlives m d (testTime now lead)) ∧
      (m.checkDomainKeysExpired d lead).eval answer = .ret (if ¬ found then .keyExpired else .ok)) ∧
    (¬ TimesFit m d → (m.checkDomainKeysExpired d lead).eval answer = .halt .overflow) := by
  have hsome : m.domainKeyMap.isEmpty ≠ true := by
    intro hempty
    rw [Std.ExtTreeMap.isEmpty_iff.mp hempty] at hmem
    exact Std.ExtTreeMap.not_mem_empty hmem
  obtain ⟨keys, hkeys⟩ : ∃ keys, m.domainKeyMap[d]? = some keys :=
    Option.isSome_iff_exists.mp (Std.ExtTreeMap.mem_iff_isSome_getElem?.mp hmem)
  have hat : m.domainKeyMap.at' d = keys := by
    rw [DomainKeyMap.at', Std.ExtTreeMap.getD_eq_getD_getElem?, hkeys, Option.getD_some]
  have hmem : ∀ key : Nat × Int, key ∈ keys.toList ↔ m.domainKeyMap.time? d key.1 = some key.2 := by
    intro key
    rw [← hat]
    exact mem_toList_iff_time?
  -- the lead is in range, so neither of the checks on it stops the call
  have hsmall : lead * dayToTime ≤ openbaoMaxMasterKeyValidTime :=
    Nat.mul_le_mul_right dayToTime hlead
  have hlead' : ¬ (2 ^ 32 - 1) / dayToTime < lead := by
    have hmax : openbaoMaxMasterKeyValidTimeInDays ≤ (2 ^ 32 - 1) / dayToTime := by decide
    omega
  have hbody : (m.checkDomainKeysExpired d lead).eval answer =
      ((Prog.ofExcept (foundValidKey (testTime now lead) keys.toList false) >>= fun found =>
        .ret (if ¬ found then .keyExpired else .ok) : Km KeyManagerRC) >>= fun result =>
          (.perform (Call.release .shared) >>= fun _ => .ret result : Km KeyManagerRC)).eval answer := by
    unfold OpenbaoKeyManager.checkDomainKeysExpired locked
    rw [eval_perform_bind, Prog.perform_bind, Prog.call_bind, eval_call, hanswer, if_neg hnow,
      if_neg (not_not.mpr hinited), if_neg hsome, if_neg (by omega), hkeys]
    dsimp only
    rw [if_neg hlead', if_neg (by omega)]
    rfl
  rw [hbody]
  constructor
  · intro hfits
    refine ⟨keys.toList.any fun key =>
      decide ((testTime now lead : Int) < key.2 + openbaoMaxMasterKeyValidTime), ?_, ?_⟩
    · simp only [List.any_eq_true, decide_eq_true_iff, Outlives]
      constructor
      · intro h
        obtain ⟨key, hkey, hlt⟩ := h
        exact ⟨key.1, key.2, (hmem key).mp hkey, hlt⟩
      · intro h
        obtain ⟨k, c, hc, hlt⟩ := h
        exact ⟨(k, c), (hmem (k, c)).mpr hc, hlt⟩
    · rw [foundValidKey_ok fun key hkey => hfits key.1 key.2 ((hmem key).mp hkey), Bool.false_or]
      rfl
  · -- some time is too large to be added to, and the loop comes to it
    intro hover
    rw [foundValidKey_overflow]
    · rfl
    · by_contra hnone
      refine hover fun k c hc => ?_
      by_contra hlt
      exact hnone ⟨(k, c), (hmem (k, c)).mpr hc, hlt⟩

/-! ## Against exact arithmetic -/

/-- What `CheckDomainKeysExpired` should answer. -/
def AnswersExactly (m : OpenbaoKeyManager) (d lead : Nat) (now : Int) :
    Outcome Fault KeyManagerRC → Prop
  | .ret rc => (Outlives m d (now + lead * dayToTime) → rc = .ok) ∧
    (¬ Outlives m d (now + lead * dayToTime) → rc = .keyExpired)
  | .halt _ => False

/-- The domain is one of the manager's, no sum overflows, and a key that outlives what is left of
the time in 32 bits means that one outlives the time. -/
structure SeesTime (m : OpenbaoKeyManager) (d lead : Nat) (now : Int) : Prop where
  domain : d < m.domainCount.1
  fit : TimesFit m d
  wrapped : Outlives m d ((now + lead * dayToTime) % 2 ^ 32) → Outlives m d (now + lead * dayToTime)

theorem checkDomainKeysExpired_of_count (hinited : m.inited = true) (hmem : d ∈ m.domainKeyMap)
    (hd : m.domainCount.1 ≤ d) (hanswer : answer .time = now) (hnow : now ≠ -1) :
    (m.checkDomainKeysExpired d lead).eval answer = .ret .invalidParam := by
  have hsome : m.domainKeyMap.isEmpty ≠ true := by
    intro hempty
    rw [Std.ExtTreeMap.isEmpty_iff.mp hempty] at hmem
    exact Std.ExtTreeMap.not_mem_empty hmem
  unfold OpenbaoKeyManager.checkDomainKeysExpired
  refine eval_locked ?_
  rw [eval_perform_bind, hanswer, if_neg hnow, if_neg (not_not.mpr hinited), if_neg hsome, if_pos hd]
  rfl

/-- **The expiry check.** On a ready manager with the domain, it answers as exact arithmetic would,
for any time and lead it accepts, exactly where the domain is one of its own, no sum overflows, and
no key outlives the 32-bit rest of the time unless one outlives the time. -/
theorem checkDomainKeysExpired_exact (hinited : m.inited = true) (hmem : d ∈ m.domainKeyMap)
    (hlead : lead ≤ openbaoMaxMasterKeyValidTimeInDays) (hanswer : answer .time = now)
    (hnow : 0 ≤ now) :
    AnswersExactly m d lead now ((m.checkDomainKeysExpired d lead).eval answer) ↔
      SeesTime m d lead now := by
  have hne : now ≠ -1 := by omega
  by_cases hd : d < m.domainCount.1
  rotate_left
  · rw [checkDomainKeysExpired_of_count hinited hmem (by omega) hanswer hne]
    refine ⟨fun h => ?_, fun h => absurd h.domain hd⟩
    by_cases hout : Outlives m d (now + lead * dayToTime)
    · exact absurd (h.1 hout) (by decide)
    · exact absurd (h.2 hout) (by decide)
  obtain ⟨hfits, hover⟩ := checkDomainKeysExpired_eval hinited hmem hd hlead hanswer hne
  by_cases hfit : TimesFit m d
  rotate_left
  · rw [hover hfit]
    exact ⟨False.elim, fun h => absurd h.fit hfit⟩
  obtain ⟨found, hfound, heval⟩ := hfits hfit
  rw [heval]
  rw [testTime_eq] at hfound
  -- what is left of the time is no more than the time
  have hless : Outlives m d (now + lead * dayToTime) →
      Outlives m d ((now + lead * dayToTime) % 2 ^ 32) := by
    intro hout
    obtain ⟨k, c, hc, hlt⟩ := hout
    have hlead : (0 : Int) ≤ lead * dayToTime := Int.mul_nonneg (by omega) (by omega)
    refine ⟨k, c, hc, ?_⟩
    omega
  cases found with
  | true =>
    have hrest := hfound.mp rfl
    constructor
    · intro h
      refine ⟨hd, hfit, fun _ => ?_⟩
      by_contra hnot
      exact absurd (h.2 hnot) (by decide)
    · intro h
      exact ⟨fun _ => rfl, fun hnot => absurd (h.wrapped hrest) hnot⟩
  | false =>
    have hrest : ¬ Outlives m d ((now + lead * dayToTime) % 2 ^ 32) := fun h =>
      absurd (hfound.mpr h) (by decide)
    constructor
    · exact fun _ => ⟨hd, hfit, fun h => absurd h hrest⟩
    · exact fun _ => ⟨fun hout => absurd (hless hout) hrest, fun _ => rfl⟩

/-- The one key of the sample manager. -/
theorem time?_sampleManager {k : Nat} {c : Int}
    (h : sampleManager.domainKeyMap.time? 0 k = some c) : c = 1700000000 := by
  rw [sampleManager, DomainKeyMap.time?_addKey] at h
  split at h
  · exact (Option.some.inj h).symm
  · cases h

theorem checkDomainKeysExpired_exact_sample :
    AnswersExactly sampleManager 0 0 1800000000
      ((sampleManager.checkDomainKeysExpired 0 0).eval sampleAnswer) := by
  have hclock : sampleAnswer .time = (1800000000 : Int) := rfl
  refine (checkDomainKeysExpired_exact rfl (by decide) (by decide) hclock (by decide)).mpr
    ⟨by decide, ?_, fun h => ?_⟩
  · intro k c hc
    rw [time?_sampleManager hc]
    decide
  · rwa [Int.emod_eq_of_lt (by decide) (by decide)] at h

/-- The clock stands at 2 to the 32. -/
def lateAnswer : (c : Call) → c.Reply
  | .time => 2 ^ 32
  | c => sampleAnswer c

/-- A key of the year 2023 is taken to be valid in 2106. -/
theorem checkDomainKeysExpired_wraps : ¬ ∀ (m : OpenbaoKeyManager) (d lead : Nat) (now : Int)
    (answer : (c : Call) → c.Reply), m.inited = true → d ∈ m.domainKeyMap →
      (m.domainKeyMap.at' d).isEmpty = false → lead ≤ openbaoMaxMasterKeyValidTimeInDays →
      0 ≤ now → now < 2 ^ 63 → answer .time = now →
        AnswersExactly m d lead now ((m.checkDomainKeysExpired d lead).eval answer) := by
  intro hall
  have h := hall sampleManager 0 0 (2 ^ 32) lateAnswer rfl (by decide) (by decide) (by decide)
    (by decide) (by decide) rfl
  have heval : (sampleManager.checkDomainKeysExpired 0 0).eval lateAnswer = .ret .ok := by
    rfl
  rw [heval] at h
  refine absurd (h.2 fun hout => ?_) (by decide)
  obtain ⟨k, c, hc, hlt⟩ := hout
  rw [time?_sampleManager hc] at hlt
  exact absurd hlt (by decide)

end Check

end CdfCrypto.KeyManagement
