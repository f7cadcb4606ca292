import CdfCrypto.Rand.Rand

/-!
# What `GetSecurePwd` leaves

The loop counts what it tries, whether `GetRand` failed or the password was refused, in 32 bits;
the counter stops at `retryTimes`, which 32 bits hold, so it never comes round. The mask of a
password has one bit for each class it has a character of, and a mask with its lowest bit taken
away is not empty where it has a second one (`hasMultipleCharTypes_iff`).

`Attempts` cuts the trace of a call into those of its calls of `GetRand`; `Ended` says how these
decide the call, and the claim of the interface is read off it (`getSecurePwd_ends`).
-/

namespace CdfCrypto.Rand

open Lib

/-! ## Classes of characters -/

/-- `CharType` -/
inductive CharType
  | digit
  | lower
  | upper
  | special
  deriving DecidableEq, Repr

/-- The class of a character. -/
def charTypeOf (c : UInt8) : CharType :=
  if 48 ≤ c ∧ c ≤ 57 then .digit
  else if 97 ≤ c ∧ c ≤ 122 then .lower
  else if 65 ≤ c ∧ c ≤ 90 then .upper
  else .special

/-- The bit of a class. -/
def CharType.bit : CharType → UInt8
  | digit => 1
  | lower => 2
  | upper => 4
  | special => 8

theorem charType_eq (c : UInt8) : charType c = (charTypeOf c).bit := by
  unfold charType charTypeOf
  split
  · rfl
  split
  · rfl
  split
  · rfl
  · rfl

/-- The mask of a set of classes. -/
def maskOf (has : CharType → Bool) : UInt8 :=
  (bif has .digit then 1 else 0) ||| (bif has .lower then 2 else 0) |||
    (bif has .upper then 4 else 0) ||| (bif has .special then 8 else 0)

theorem maskOf_or (has : CharType → Bool) (t : CharType) :
    maskOf has ||| t.bit = maskOf fun t' => has t' || decide (t = t') := by
  unfold maskOf
  dsimp only
  generalize has .digit = d
  generalize has .lower = l
  generalize has .upper = u
  generalize has .special = s
  cases t <;> cases d <;> cases l <;> cases u <;> cases s <;> rfl

/-- **The bit trick**: a mask without its lowest bit is not empty where there are two. -/
theorem maskOf_and_pred (has : CharType → Bool) :
    maskOf has &&& (maskOf has - 1) ≠ 0 ↔ ∃ t t', t ≠ t' ∧ has t = true ∧ has t' = true := by
  have hclasses : (∃ t t', t ≠ t' ∧ has t = true ∧ has t' = true) ↔
      (has .digit = true ∧ has .lower = true) ∨ (has .digit = true ∧ has .upper = true) ∨
        (has .digit = true ∧ has .special = true) ∨ (has .lower = true ∧ has .upper = true) ∨
        (has .lower = true ∧ has .special = true) ∨ (has .upper = true ∧ has .special = true) := by
    constructor
    · rintro ⟨t, t', hne, h, h'⟩
      cases t <;> cases t' <;> first | exact absurd rfl hne | simp [h, h']
    · rintro (⟨h, h'⟩ | ⟨h, h'⟩ | ⟨h, h'⟩ | ⟨h, h'⟩ | ⟨h, h'⟩ | ⟨h, h'⟩)
      all_goals exact ⟨_, _, by decide, h, h'⟩
  rw [hclasses]
  unfold maskOf
  generalize has .digit = d
  generalize has .lower = l
  generalize has .upper = u
  generalize has .special = s
  cases d <;> cases l <;> cases u <;> cases s <;> decide

/-- The mask that the characters of a password leave. -/
theorem foldl_charType (pwd : Bytes) : ∀ has : CharType → Bool,
    pwd.foldl (fun types c => types ||| charType c) (maskOf has) =
      maskOf fun t => has t || pwd.any fun c => decide (charTypeOf c = t) := by
  induction pwd with
  | nil =>
    intro has
    simp
  | cons c cs ih =>
    intro has
    rw [List.foldl_cons, charType_eq, maskOf_or, ih]
    simp only [List.any_cons, Bool.or_assoc]

/-- **Two classes** are what is asked of a password. -/
theorem hasMultipleCharTypes_iff (pwd : Bytes) :
    hasMultipleCharTypes pwd = true ↔ ∃ c ∈ pwd, ∃ c' ∈ pwd, charTypeOf c ≠ charTypeOf c' := by
  have hmask : pwd.foldl (fun types c => types ||| charType c) 0 =
      maskOf fun t => pwd.any fun c => decide (charTypeOf c = t) := by
    have hfold := foldl_charType pwd fun _ => false
    simp only [Bool.false_or] at hfold
    exact hfold
  unfold hasMultipleCharTypes
  dsimp only
  rw [hmask, decide_eq_true_eq, maskOf_and_pred]
  simp only [List.any_eq_true, decide_eq_true_eq]
  constructor
  · rintro ⟨t, t', hne, ⟨c, hc, rfl⟩, ⟨c', hc', rfl⟩⟩
    exact ⟨c, hc, c', hc', hne⟩
  · rintro ⟨c, hc, c', hc', hne⟩
    exact ⟨_, _, hne, ⟨c, hc, rfl⟩, ⟨c', hc', rfl⟩⟩

/-! ## Characters -/

theorem pwdChars_length (enhancedRand : Bytes) (pwdLength : Nat) :
    (pwdChars enhancedRand pwdLength).length = pwdLength := by
  simp [pwdChars]

/-- Whatever the bytes are, the index is inside the table. -/
theorem mem_pwdAllChars {enhancedRand : Bytes} {pwdLength : Nat} {c : UInt8}
    (h : c ∈ pwdChars enhancedRand pwdLength) : c ∈ pwdAllChars := by
  obtain ⟨pwdIdx, -, rfl⟩ := List.mem_map.mp h
  have hlength : (UInt64.ofNat pwdAllChars.length).toNat = pwdAllChars.length := by
    decide +kernel
  have hindex : (randValue (slice enhancedRand (pwdIdx * 8) 8) %
      UInt64.ofNat pwdAllChars.length).toNat < pwdAllChars.length := by
    rw [UInt64.toNat_mod, hlength]
    exact Nat.mod_lt _ (by decide +kernel)
  rw [List.getD_eq_getElem?_getD, List.getElem?_eq_getElem hindex, Option.getD_some]
  exact List.getElem_mem hindex

/-! ## Attempts -/

/-- No call of `GetRand` goes on for ever. -/
theorem halts_getRand (randBuff : Bool) (len : UInt32) :
    Halts (fun _ => False) (getRand randBuff len) := by
  have hready : Halts (fun _ => False) ensureRandReady := by
    refine Halts.perform_bind fun initialized => ?_
    split
    · trivial
    refine Halts.bind ?_ fun result => ?_
    · refine Halts.perform_bind fun initialized => ?_
      split
      · trivial
      · exact fun _ => trivial
    · split <;> trivial
  have hloop : ∀ attempts : Nat, Halts (fun _ => False) (getRandLoop len attempts) := by
    intro attempts
    induction attempts with
    | zero => trivial
    | succ attempts ih =>
      refine hready.bind fun ready => ?_
      split
      · exact ih
      refine Halts.perform_bind fun result => ?_
      split
      · exact ih
      · trivial
  unfold getRand
  split
  · trivial
  split
  · trivial
  · exact hloop _

/-- The trace of some calls of `GetRand`, and what each came to. -/
inductive Attempts (len : UInt32) : List (Event RandAction RandAction.Reply) →
    List (Except CcsecCryptErrorCode Bytes) → Prop
  | nil : Attempts len [] []
  | cons {tr tr' : List (Event RandAction RandAction.Reply)}
      {outcome : Except CcsecCryptErrorCode Bytes}
      {outcomes : List (Except CcsecCryptErrorCode Bytes)} :
      Traces (getRand true len) tr (.ret outcome) → Attempts len tr' outcomes →
      Attempts len (tr ++ tr') (outcome :: outcomes)

/-- No password comes of it. -/
def Refused (pwdLength : UInt32) : Except CcsecCryptErrorCode Bytes → Prop
  | .error _ => True
  | .ok rand => hasMultipleCharTypes (pwdChars rand pwdLength.toNat) = false

/-- What so many attempts come to: the first that is not refused makes the password, and where
all are refused the buffer is cleared. -/
inductive Ended (pwdLength : UInt32) (pwdBuff : Bytes) (attempts : Nat) :
    List (Except CcsecCryptErrorCode Bytes) → Except CcsecCryptErrorCode Unit × Bytes → Prop
  | made {refused : List (Except CcsecCryptErrorCode Bytes)} {rand : Bytes} :
      (∀ outcome ∈ refused, Refused pwdLength outcome) → refused.length < attempts →
      hasMultipleCharTypes (pwdChars rand pwdLength.toNat) = true →
      Ended pwdLength pwdBuff attempts (refused ++ [.ok rand])
        (.ok (), pwdChars rand pwdLength.toNat ++ pwdBuff.drop pwdLength.toNat)
  | spent {refused : List (Except CcsecCryptErrorCode Bytes)} :
      (∀ outcome ∈ refused, Refused pwdLength outcome) → refused.length = attempts →
      Ended pwdLength pwdBuff attempts refused
        (.error .error, List.replicate pwdLength.toNat 0 ++ pwdBuff.drop pwdLength.toNat)

section Loop

variable {pwdLength retryTimes : UInt32} {pwdBuff : Bytes}

/-- One refused attempt before. What it wrote is written over. -/
theorem Ended.cons {pwdBuff' : Bytes} {attempts : Nat}
    {outcome : Except CcsecCryptErrorCode Bytes}
    {outcomes : List (Except CcsecCryptErrorCode Bytes)}
    {result : Except CcsecCryptErrorCode Unit × Bytes} (hrefused : Refused pwdLength outcome)
    (hbuff : pwdBuff'.drop pwdLength.toNat = pwdBuff.drop pwdLength.toNat)
    (h : Ended pwdLength pwdBuff' attempts outcomes result) :
    Ended pwdLength pwdBuff (attempts + 1) (outcome :: outcomes) result := by
  have hcons : ∀ {refused : List (Except CcsecCryptErrorCode Bytes)},
      (∀ o ∈ refused, Refused pwdLength o) → ∀ o ∈ outcome :: refused, Refused pwdLength o := by
    intro refused hall o ho
    rcases List.mem_cons.mp ho with rfl | ho
    · exact hrefused
    · exact hall o ho
  cases h with
  | made hall hlt hmany =>
    rw [hbuff]
    exact .made (hcons hall) (Nat.succ_lt_succ hlt) hmany
  | spent hall hlength =>
    rw [hbuff]
    exact .spent (hcons hall) (congrArg Nat.succ hlength)

/-- **The loop**, from any value of its counter, by induction on the rounds it is given. -/
theorem securePwdLoop_ends : ∀ {rounds : Nat} {retry : UInt32} {pwdBuff : Bytes},
    retry ≤ retryTimes → retryTimes.toNat < rounds + retry.toNat →
    wp (securePwdLoop pwdLength retryTimes rounds retry pwdBuff) fun tr o =>
      ∃ outcomes result, Attempts (pwdLength * 8) tr outcomes ∧ o = .ret result ∧
        Ended pwdLength pwdBuff (retryTimes.toNat - retry.toNat) outcomes result := by
  intro rounds
  induction rounds with
  | zero =>
    intro retry pwdBuff hle hrounds
    have := UInt32.le_iff_toNat_le.mp hle
    omega
  | succ rounds ih =>
    intro retry pwdBuff hle hrounds
    unfold securePwdLoop
    have hle := UInt32.le_iff_toNat_le.mp hle
    split
    next hlt =>
      have hlt := UInt32.lt_iff_toNat_lt.mp hlt
      have hbound := retryTimes.toNat_lt
      have hnext : (retry + 1).toNat = retry.toNat + 1 := by
        rw [UInt32.toNat_add]
        exact Nat.mod_eq_of_lt (show retry.toNat + 1 < 2 ^ 32 by omega)
      have hstep : retryTimes.toNat - retry.toNat =
          retryTimes.toNat - (retry + 1).toNat + 1 := by omega
      have hrest : ∀ {pwdBuff' : Bytes} {tr : List (Event RandAction RandAction.Reply)}
          {outcome : Except CcsecCryptErrorCode Bytes}, Refused pwdLength outcome →
          pwdBuff'.drop pwdLength.toNat = pwdBuff.drop pwdLength.toNat →
          Traces (getRand true (pwdLength * 8)) tr (.ret outcome) →
          wp (securePwdLoop pwdLength retryTimes rounds (retry + 1) pwdBuff') fun tr' o =>
            ∃ outcomes result, Attempts (pwdLength * 8) (tr ++ tr') outcomes ∧ o = .ret result ∧
              Ended pwdLength pwdBuff (retryTimes.toNat - retry.toNat) outcomes result := by
        intro pwdBuff' tr outcome hrefused hbuff htr
        refine wp_mono (ih (UInt32.le_iff_toNat_le.mpr (by omega)) (by omega)) fun tr' o h => ?_
        obtain ⟨outcomes, result, hattempts, ho, hended⟩ := h
        rw [hstep]
        exact ⟨outcome :: outcomes, result, .cons htr hattempts, ho, hended.cons hrefused hbuff⟩
      refine wp_bind_of (wp_iff.mpr fun _ _ h => h) (fun tr outcome htr => ?_) fun tr x htr =>
        ((halts_getRand _ _).trace htr).elim
      split
      next rc => exact hrest (show Refused pwdLength (.error rc) from trivial) rfl htr
      next rand =>
        dsimp only
        split
        next hmany =>
          have hone : Ended pwdLength pwdBuff (retryTimes.toNat - retry.toNat)
              ([] ++ [.ok rand]) _ := .made (by simp) (show 0 < _ by omega) hmany
          rw [writeAt_start (pwdChars_length _ _)]
          exact ⟨_, _, .cons htr .nil, rfl, hone⟩
        next hfew =>
          have hrefused : Refused pwdLength (.ok rand) := Bool.eq_false_iff.mpr hfew
          refine hrest hrefused ?_ htr
          rw [writeAt_start (pwdChars_length _ _), List.drop_left' (pwdChars_length _ _)]
    next hnot =>
      have hge := Nat.not_lt.mp fun h => hnot (UInt32.lt_iff_toNat_lt.mpr h)
      rw [writeAt_start List.length_replicate]
      refine ⟨[], _, .nil, rfl, .spent (by simp) ?_⟩
      show 0 = retryTimes.toNat - retry.toNat
      omega

end Loop

/-- **What `GetSecurePwd` leaves**, whatever `GetRand` answers: it comes to an end after at most
`retryTimes` calls of it, either with a password of two classes from the table, or after all of
them with a cleared buffer. -/
theorem getSecurePwd_ends {pwdLength retryTimes : UInt32} (hmin : 8 ≤ pwdLength)
    (hmax : pwdLength ≤ 32) (hretry : 1 ≤ retryTimes) (pwdBuff : Bytes) :
    wp (getSecurePwd (some pwdBuff) pwdLength retryTimes) fun tr o =>
      ∃ outcomes result pwd, Attempts (pwdLength * 8) tr outcomes ∧
        outcomes.length ≤ retryTimes.toNat ∧
        o = .ret (result, some (pwd ++ pwdBuff.drop pwdLength.toNat)) ∧
        pwd.length = pwdLength.toNat ∧
        (result = .ok () → (∀ c ∈ pwd, c ∈ pwdAllChars) ∧
          ∃ c ∈ pwd, ∃ c' ∈ pwd, charTypeOf c ≠ charTypeOf c') ∧
        ∀ rc, result = .error rc → outcomes.length = retryTimes.toNat ∧
          pwd = List.replicate pwdLength.toNat 0 := by
  have hlength : ¬ (pwdLength < 8 ∨ 32 < pwdLength) := by
    rw [not_or]
    exact ⟨UInt32.not_lt.mpr hmin, UInt32.not_lt.mpr hmax⟩
  have hzero : ¬ retryTimes = 0 := by
    intro heq
    rw [heq] at hretry
    exact absurd hretry (by decide)
  unfold getSecurePwd
  dsimp only
  rw [if_neg hlength, if_neg hzero]
  refine wp_bind_of (securePwdLoop_ends (UInt32.le_iff_toNat_le.mpr (Nat.zero_le _))
    (show retryTimes.toNat < 2 ^ 32 + 0 from retryTimes.toNat_lt)) (fun tr result h => ?_)
    fun tr x h => ?_
  · obtain ⟨outcomes, result', hattempts, ho, hended⟩ := h
    obtain rfl := Outcome.ret.inj ho
    rw [wp_ret, List.append_nil]
    cases hended with
    | made hall hlt hmany =>
      refine ⟨_, _, _, hattempts, ?_, rfl, pwdChars_length _ _,
        fun _ => ⟨fun c hc => mem_pwdAllChars hc, ?_⟩, fun rc heq => ?_⟩
      · rw [List.length_append]
        exact hlt
      · exact (hasMultipleCharTypes_iff _).mp hmany
      · cases heq
    | spent hall hspent =>
      refine ⟨_, _, _, hattempts, Nat.le_of_eq hspent, rfl, List.length_replicate, fun heq => ?_,
        fun rc heq => ⟨hspent, rfl⟩⟩
      cases heq
  · obtain ⟨outcomes, result', -, ho, -⟩ := h
    cases ho

/-- A module that is initialised and generates the bytes from 0 on. -/
def countingRand : (a : RandAction) → a.Reply
  | .loadInitialized => true
  | .init _ => .ok ()
  | .attempt len => some (.ok (stream UInt8.ofNat len.toNat))
  | .deinit => ()

/-- Eight characters in a buffer of nine bytes: the ninth stays. -/
theorem getSecurePwd_ends_sample : ∃ outcomes result pwd,
    Attempts 64 ((getSecurePwd (some (List.replicate 9 1)) 8 10).runWith countingRand).1 outcomes ∧
      outcomes.length ≤ 10 ∧
      (getSecurePwd (some (List.replicate 9 1)) 8 10).eval countingRand =
        .ret (result, some (pwd ++ [1])) ∧ pwd.length = 8 := by
  have hmin : (8 : UInt32) ≤ 8 := by decide
  have hretry : (1 : UInt32) ≤ 10 := by decide
  obtain ⟨outcomes, result, pwd, hattempts, hle, heval, hlength, -, -⟩ := wp_eval countingRand
    (getSecurePwd_ends hmin (by decide) hretry (List.replicate 9 1))
  exact ⟨outcomes, result, pwd, hattempts, hle, heval, hlength⟩

end CdfCrypto.Rand
