import CdfCrypto.Jwt.KeyPass
import CdfCrypto.Jwt.Lifetime

/-!
# What an accepted token is

`ValidateToken` says OK only to a token of three pieces, whose header is still in its time and
whose last piece is the signature of the first two (`validateToken_sound`). In `INTERNAL_KEY`
mode the server has two keys to try. Its guard lets a token through to the present key while
either of them is in its time; that the present key is then in its time too rests on the order
in which the two were set, which `KeyTimes` keeps in a run whose clock never goes back.
-/

namespace CdfCrypto.Jwt

open Lib KeyManagement

/-! ## Time -/

/-- The clock never shows an earlier time, and the key manager decrypts by a function. The rest
is as it comes. -/
def TimedStep (D : Decryption) (t : Int64) (ev : JwtEvent) (t' : Int64) : Prop :=
  match ev with
  | ⟨.clockGettime, now⟩ => t ≤ now ∧ t' = now
  | ⟨.decrypt type alg ciphertext d, result⟩ => t' = t ∧ result = D type alg ciphertext d
  | ⟨.newChars _, _⟩ => t' = t
  | ⟨.accessPath _, _⟩ => t' = t
  | ⟨.init _ _ _ _, _⟩ => t' = t
  | ⟨.unInit _, _⟩ => t' = t
  | ⟨.encrypt _ _ _ _, _⟩ => t' = t

variable {O : OpensslHmac} {D : Decryption} {t t' : Int64}

theorem TimedStep.le {ev : JwtEvent} (h : TimedStep D t ev t') : t.toInt ≤ t'.toInt := by
  have hsame : t' = t → t.toInt ≤ t'.toInt := fun heq => Int.le_of_eq (congrArg _ heq.symm)
  obtain ⟨call, reply⟩ := ev
  cases call with
  | clockGettime =>
    obtain ⟨hle, rfl⟩ := h
    exact Int64.le_iff_toInt_le.mp hle
  | decrypt type alg ciphertext d => exact hsame h.1
  | newChars len => exact hsame h
  | accessPath path => exact hsame h
  | init km execPath accessToken domainCount => exact hsame h
  | unInit km => exact hsame h
  | encrypt type alg plaintext d => exact hsame h

theorem TimedStep.run_le {tr : List JwtEvent} (h : Run (TimedStep D) t tr t') :
    t.toInt ≤ t'.toInt := by
  induction h with
  | nil t => exact Int.le_refl _
  | cons hstep _ ih => exact Int.le_trans hstep.le ih

/-- A run at one time. -/
theorem TimedStep.run_atTime {tr : List JwtEvent} (h : ∀ ev ∈ tr, ev = ⟨ev.1, atTime D t ev.1⟩) :
    Run (TimedStep D) t tr t := by
  induction tr with
  | nil => exact .nil t
  | cons ev tr ih =>
    have hstep : TimedStep D t ⟨ev.1, atTime D t ev.1⟩ t := by
      cases ev.1 with
      | clockGettime => exact ⟨Int64.le_refl t, rfl⟩
      | decrypt type alg ciphertext d => exact ⟨rfl, rfl⟩
      | newChars len => rfl
      | accessPath path => rfl
      | init km execPath accessToken domainCount => rfl
      | unInit km => rfl
      | encrypt type alg plaintext d => rfl
    rw [← h ev List.mem_cons_self] at hstep
    exact .cons hstep (ih fun ev' hev' => h ev' (List.mem_cons_of_mem _ hev'))

/-! ## The times of the keys -/

/-- The old key is no younger than the present one, and neither is of the future. -/
structure KeyTimes (k : JwtKeyPass) (t : Int64) : Prop where
  epoch : 0 ≤ t.toInt
  ordered : k.oldKeyCreateTimeSec.toNat ≤ k.newKeyCreateTimeSec.toNat
  past : k.newKeyCreateTimeSec.toNat ≤ t.toInt
  hours : k.serverKeyExpiredHours.toNat ≤ 65535

/-- A key set at `createTimeSec` is in its time: the plain reading of `expiredAt`. -/
def JwtKeyPass.InTime (k : JwtKeyPass) (createTimeSec : UInt64) (now : Int64) : Prop :=
  now.toInt ≤ createTimeSec.toNat + 3600 * k.serverKeyExpiredHours.toNat

variable {k : JwtKeyPass}

theorem KeyTimes.mono (h : KeyTimes k t) (hle : t.toInt ≤ t'.toInt) : KeyTimes k t' :=
  ⟨Int.le_trans h.epoch hle, h.ordered, Int.le_trans h.past hle, h.hours⟩

/-- The sum does not leave 64 bits. -/
theorem KeyTimes.expiredAt_iff (h : KeyTimes k t) {createTimeSec : UInt64} {now : Int64}
    (hcreate : createTimeSec.toNat ≤ t.toInt) (hle : t.toInt ≤ now.toInt) :
    k.expiredAt createTimeSec now = false ↔ k.InTime createTimeSec now := by
  have hepoch := h.epoch
  have hhours := h.hours
  have hnow : (now.toUInt64.toNat : Int) = now.toInt :=
    toNat_toUInt64 (Int64.le_iff_toInt_le.mpr (Int.le_trans hepoch hle))
  have hbound := Int64.toInt_lt now
  have hsecond : secondsPerHour.toNat = 3600 := rfl
  have hsum : (createTimeSec + k.serverKeyExpiredHours * secondsPerHour).toNat =
      createTimeSec.toNat + k.serverKeyExpiredHours.toNat * 3600 := by
    rw [UInt64.toNat_add, UInt64.toNat_mul, hsecond]
    omega
  unfold JwtKeyPass.expiredAt JwtKeyPass.InTime
  rw [decide_eq_false_iff_not, UInt64.lt_iff_toNat_lt, hsum]
  omega

/-- The times are kept, in an outcome. -/
def TimesKept : Outcome Fault (JwtAuthRC × JwtKeyPass) → Int64 → Prop
  | .ret (_, k'), t' => KeyTimes k' t'
  | .halt _, _ => True

variable {k' : JwtKeyPass} {key : Option Bytes} {len : UInt32} {type : KeyManagerTy} {d : Nat}
variable {alg : CryptoSymAlg} {rc : JwtAuthRC}

/-- A key is set now, and whatever was there before was set earlier. -/
theorem SetKeyEnds.keyTimes {tr : List JwtEvent} (hends : SetKeyEnds k key len type d alg tr rc k')
    (h : KeyTimes k t) (hrun : Run (TimedStep D) t tr t') : KeyTimes k' t' := by
  have hlater := h.mono (TimedStep.run_le hrun)
  cases hends with
  | refused => exact hlater
  | notEncrypted => exact hlater
  | noMemory => exact ⟨hlater.epoch, hlater.ordered, hlater.past, hlater.hours⟩
  | notCopied => exact ⟨hlater.epoch, hlater.ordered, hlater.past, hlater.hours⟩
  | @set now buf cipher copy =>
    obtain ⟨hfirst, hlast⟩ : t ≤ now ∧ now.toInt ≤ t'.toInt := by
      cases hrun with
      | cons hclock hrest =>
        obtain ⟨hle, rfl⟩ := hclock
        exact ⟨hle, TimedStep.run_le hrest⟩
    have hfirst := Int64.le_iff_toInt_le.mp hfirst
    have hepoch := h.epoch
    have hpast := h.past
    have hordered := h.ordered
    have hnow : (now.toUInt64.toNat : Int) = now.toInt :=
      toNat_toUInt64 (Int64.le_iff_toInt_le.mpr (Int.le_trans hepoch hfirst))
    exact ⟨hlater.epoch, show k.oldKeyCreateTimeSec.toNat ≤ now.toUInt64.toNat by omega,
      show (now.toUInt64.toNat : Int) ≤ _ by omega, h.hours⟩

theorem setKey_keyTimes (h : KeyTimes k t) (key : Option Bytes) (len : UInt32)
    (type : KeyManagerTy) (d : Nat) (alg : CryptoSymAlg) :
    wpIn (TimedStep D) (k.setKey key len type d alg) t fun _ o t' => TimesKept o t' := by
  refine (setKey_ends k key len type d alg).wpIn fun tr o t' hends hrun => ?_
  obtain ⟨rc, k', rfl, hends⟩ := hends
  exact hends.keyTimes h hrun

theorem refreshKey_keyTimes (h : KeyTimes k t) (key : Option Bytes) (len : UInt32)
    (type : KeyManagerTy) (d : Nat) (alg : CryptoSymAlg) :
    wpIn (TimedStep D) (k.refreshKey key len type d alg) t fun _ o t' => TimesKept o t' := by
  refine (refreshKey_ends k key len type d alg).wpIn fun tr o t' hends hrun => ?_
  obtain ⟨rc, k', rfl, hends⟩ := hends
  have hlater := h.mono (TimedStep.run_le hrun)
  cases hends with
  | refused => exact hlater
  | noMemory => exact ⟨hlater.epoch, hlater.ordered, hlater.past, hlater.hours⟩
  | notCopied => exact ⟨hlater.epoch, hlater.ordered, hlater.past, hlater.hours⟩
  | @moved copy tr rc k' hkey hcopy hset =>
    -- the present key becomes the old one, with its time
    have hmoved : KeyTimes (k.moved copy) t := ⟨h.epoch, Nat.le_refl _, h.past, h.hours⟩
    cases hrun with
    | cons hallocated hrest =>
      cases hallocated
      exact hset.keyTimes hmoved hrest

theorem keyTimes_ofHours (hepoch : 0 ≤ t.toInt) (expireHours : UInt64) :
    KeyTimes (.ofHours expireHours) t := by
  refine ⟨hepoch, Nat.le_refl _, hepoch, ?_⟩
  show UInt64.toNat (if maxAllowedExpireHours < expireHours then _ else _) ≤ 65535
  by_cases hmax : maxAllowedExpireHours < expireHours
  · rw [if_pos hmax]
    decide
  · rw [if_neg hmax]
    exact UInt64.le_iff_toNat_le.mp (UInt64.not_lt.mp hmax)

/-! ## Runs -/

/-- A server at a time: its keys are in order, and it is started in one of the two modes. -/
structure Timely (s : Impl) (t : Int64) : Prop where
  keys : KeyTimes s.keyPass t
  mode : s.started = true → s.options.keyTransferMode ≠ .unknown

variable {s s' : Impl}

theorem Timely.mono (h : Timely s t) (hle : t.toInt ≤ t'.toInt) : Timely s t' :=
  ⟨h.keys.mono hle, h.mode⟩

/-- What is true of the server whatever the outcome. -/
def StaysTimely {α : Type} : Outcome Fault (α × Impl) → Int64 → Prop
  | .ret (_, s'), t' => Timely s' t'
  | .halt _, _ => True

theorem start_timely (h : Timely s t) (opt : CDFDistAuthServerOptions) :
    wpIn (TimedStep D) (s.start opt) t fun _ o t' => StaysTimely o t' := by
  refine (start_ends s opt).wpIn fun tr o t' hends hrun => ?_
  have hle := TimedStep.run_le hrun
  cases hends with
  | already => exact h.mono hle
  | refused => exact h.mono hle
  | failed hpre => exact ⟨h.keys.mono hle, fun _ => hpre.mode⟩
  | internal hpre =>
    exact ⟨keyTimes_ofHours (Int.le_trans h.keys.epoch hle) _, fun _ => hpre.mode⟩
  | external hpre => exact ⟨h.keys.mono hle, fun _ => hpre.mode⟩

/-- `Stop` leaves everything but `started` as it is, in no time. -/
theorem stop_stops (s : Impl) (t : Int64) : wpIn (TimedStep D) s.stop t fun _ o t' =>
    (∃ rc, o = .ret (rc, { s with started := false })) ∧ t' = t := by
  unfold Impl.stop
  split
  next hnot =>
    have hsame : s = { s with started := false } := by
      rw [← Bool.eq_false_iff.mpr hnot]
    refine ⟨⟨JwtAuthRC.ok, ?_⟩, rfl⟩
    rw [← hsame]
  dsimp only
  split
  · split
    · exact ⟨⟨_, rfl⟩, rfl⟩
    · refine wpIn_perform_bind.mpr fun rc t' hunInit => ?_
      exact ⟨⟨_, rfl⟩, hunInit⟩
  · exact ⟨⟨_, rfl⟩, rfl⟩

theorem stop_timely (h : Timely s t) :
    wpIn (TimedStep D) s.stop t fun _ o t' => StaysTimely o t' := by
  refine wpIn_mono (stop_stops s t) fun tr o t' hstops => ?_
  obtain ⟨⟨rc, rfl⟩, rfl⟩ := hstops
  exact ⟨h.keys, fun hstarted => by cases hstarted⟩

theorem refreshEncryptionKey_timely (h : Timely s t) (newKey : Option Bytes) (keyLen : UInt32) :
    wpIn (TimedStep D) (s.refreshEncryptionKey newKey keyLen) t fun _ o t' => StaysTimely o t' := by
  unfold Impl.refreshEncryptionKey
  dsimp only
  split
  · exact h
  · exact wpIn_bind_of (refreshKey_keyTimes h.keys newKey keyLen _ _ _)
      (fun _ _ _ hkept => ⟨hkept, h.mode⟩) fun _ _ _ _ => trivial

theorem setEncryptionKey_timely (h : Timely s t) (newKey : Option Bytes) (keyLen : UInt32) :
    wpIn (TimedStep D) (s.setEncryptionKey newKey keyLen) t fun _ o t' => StaysTimely o t' := by
  unfold Impl.setEncryptionKey
  dsimp only
  split
  · exact h
  split
  · exact h
  · exact wpIn_bind_of (setKey_keyTimes h.keys newKey keyLen _ _ _)
      (fun _ _ _ hkept => ⟨hkept, h.mode⟩) fun _ _ _ _ => trivial

/-- Every call of the interface keeps a server timely. -/
theorem prog_timely (O : OpensslHmac) (h : Timely s t) (op : ServerOp) :
    wpIn (TimedStep D) (op.prog O s) t fun _ o t' => StaysTimely o t' := by
  -- calls that only read the server take time
  have hreads : ∀ {α : Type} {body : Auth α} {f : α → Auth (ServerAnswer × Impl)},
      (∀ a, ∃ answer, f a = .ret (answer, s)) →
      wpIn (TimedStep D) (body >>= f) t fun _ o t' => StaysTimely o t' := by
    intro α body f hf
    refine wpIn_bind_of (Q := fun _ _ t' => t.toInt ≤ t'.toInt)
      (wpIn_iff.mpr fun _ _ _ hexec => TimedStep.run_le hexec.2) (fun _ a t' hle => ?_)
      fun _ _ _ _ => trivial
    obtain ⟨answer, hanswer⟩ := hf a
    rw [hanswer]
    exact h.mono hle
  cases op with
  | start opt =>
    refine wpIn_bind_of (start_timely h opt) (fun _ result t' hkept => ?_) fun _ _ _ _ => trivial
    split
    · exact hkept
    · exact hkept
  | stop => exact wpIn_bind_of (stop_timely h) (fun _ _ _ hkept => hkept) fun _ _ _ _ => trivial
  | refreshEncryptionKey newKey keyLen =>
    exact wpIn_bind_of (refreshEncryptionKey_timely h newKey keyLen) (fun _ _ _ hkept => hkept)
      fun _ _ _ _ => trivial
  | setEncryptionKey newKey keyLen =>
    exact wpIn_bind_of (setEncryptionKey_timely h newKey keyLen) (fun _ _ _ hkept => hkept)
      fun _ _ _ _ => trivial
  | estimateTokenLength inputLen => exact h
  | createToken opt => exact hreads fun result => ⟨_, rfl⟩
  | validateToken opt => exact hreads fun rc => ⟨_, rfl⟩

/-- One call that comes back, and the time before and after it. -/
def TimedCall (O : OpensslHmac) (D : Decryption) (w : Impl × Int64)
    (call : ServerOp × List JwtEvent) (w' : Impl × Int64) : Prop :=
  ∃ answer, Exec (TimedStep D) (call.1.prog O w.1) w.2 call.2 (.ret (answer, w'.1)) w'.2

/-- **In a run** whose clock never goes back, the server stays timely. -/
theorem timely_of_run {calls : List (ServerOp × List JwtEvent)} {t₀ : Int64} (hepoch : 0 ≤ t₀)
    (hrun : Run (TimedCall O D) ({}, t₀) calls (s, t)) : Timely s t := by
  have hepoch : 0 ≤ t₀.toInt := Int64.le_iff_toInt_le.mp hepoch
  have hfresh : Timely {} t₀ :=
    ⟨⟨hepoch, Nat.le_refl _, hepoch, by decide⟩, fun h => by cases h⟩
  refine Run.invariant (I := fun w => Timely w.1 w.2) (fun w call w' hw hcall => ?_) hrun hfresh
  obtain ⟨answer, hexec⟩ := hcall
  exact wpIn_iff.mp (prog_timely O hw call.1) _ _ _ hexec

/-! ## The header -/

/-- A token that may be used at `now`. -/
def TokenInfo.Fresh (info : TokenInfo) (now : Int) : Prop :=
  info.expireTimeMinute = -1 ∨ now - info.createTimeSec ≤ 60 * info.expireTimeMinute ∨
    now < info.createTimeSec

theorem TokenInfo.fresh_of_expiredAt {info : TokenInfo} {now : Int}
    (h : info.expiredAt now = .ok false) : info.Fresh now := by
  unfold TokenInfo.expiredAt at h
  by_cases hmax : jwtExpireTimeMaxMinute < info.expireTimeMinute
  · rw [if_pos hmax] at h
    cases h
  rw [if_neg hmax] at h
  by_cases hcond : info.expireTimeMinute ≠ -1 ∧ info.createTimeSec ≤ now
  rotate_left
  · unfold Fresh
    omega
  rw [if_pos hcond] at h
  unfold subInt64 mulInt64 at h
  -- neither operation has been trapped
  by_cases hage : -(2 ^ 63) ≤ now - info.createTimeSec ∧ now - info.createTimeSec < 2 ^ 63
  rotate_left
  · rw [if_neg hage] at h
    cases h
  rw [if_pos hage] at h
  by_cases hlimit : -(2 ^ 63) ≤ info.expireTimeMinute * jwtSecondsPerMinute ∧
      info.expireTimeMinute * jwtSecondsPerMinute < 2 ^ 63
  rotate_left
  · rw [if_neg hlimit] at h
    cases h
  rw [if_pos hlimit] at h
  have hdecided := of_decide_eq_false (Except.ok.inj h)
  unfold jwtSecondsPerMinute at hdecided
  exact .inr (.inl (by omega))

/-- A header that has been accepted, in the outcome. -/
def HeaderAccepted (headerB64 : Bytes) (tr : List JwtEvent) :
    Outcome Fault (Except JwtAuthRC CryptoHmacAlg) → Prop
  | .ret (.ok alg) => ∃ info, getInfoByToken (base64Decode (tryFixBase64 headerB64)) = some info ∧
      info.algType = alg ∧ ∃ now, ⟨.clockGettime, now⟩ ∈ tr ∧ info.Fresh now.toInt
  | .ret (.error rc) => rc ≠ .ok
  | .halt _ => True

theorem checkTokenExpiredTime_accepted (headerB64 : Bytes) :
    wp (checkTokenExpiredTime headerB64) (HeaderAccepted headerB64) := by
  unfold checkTokenExpiredTime
  dsimp only
  split
  · exact fun hrc => by cases hrc
  split
  · exact fun hrc => by cases hrc
  next info hinfo =>
  refine wp_perform_bind.mpr fun now => ?_
  refine wp_ofExcept_bind (fun expired hexpired => ?_) fun _ _ => trivial
  cases expired with
  | true => exact fun hrc => by cases hrc
  | false => exact ⟨info, hinfo, rfl, now, by simp, TokenInfo.fresh_of_expiredAt hexpired⟩

/-! ## The key -/

/-- A key of the server: where it is kept and when it was set. -/
structure ServerKey (s : Impl) (cipher : Bytes) (createTimeSec : UInt64) : Prop where
  held : (s.keyPass.getKey = .ok cipher ∧ createTimeSec = s.keyPass.newKeyCreateTimeSec) ∨
    (s.keyPass.getOldKey = .ok cipher ∧ createTimeSec = s.keyPass.oldKeyCreateTimeSec)
  ne_nil : cipher ≠ []

/-- What a token may be signed with: the caller's key, or what the manager decrypts the present
or the old key to while that is in its time. -/
inductive SigningKey (D : Decryption) (s : Impl) (opt : CDFDistAuthValidateTokenOptions)
    (tr : List JwtEvent) (K : Bytes) : Prop
  | external {buf : Bytes} (hmode : s.options.keyTransferMode = .externalKey)
      (hkey : opt.key = some buf) (hK : K = buf.take opt.keyLen.toNat)
  | internal {cipher : Bytes} {createTimeSec : UInt64} {now : Int64}
      (hmode : s.options.keyTransferMode = .internalKey) (hcipher : ServerKey s cipher createTimeSec)
      (hdecrypt : D s.options.keyManagerType jwtDefaultSymEncAlg cipher
        (int16ToU32 s.options.domainId) = (.ok, K))
      (hnow : ⟨.clockGettime, now⟩ ∈ tr) (hvalid : s.keyPass.InTime createTimeSec now)

/-- What the guard lets through: a present key that is in its time, or none. -/
def PresentUsable (s : Impl) (cipher : Bytes) (tr : List JwtEvent) : Outcome Fault Bool → Prop
  | .ret invalid => invalid = false → cipher = [] ∨
      ∃ now, ⟨.clockGettime, now⟩ ∈ tr ∧ s.keyPass.InTime s.keyPass.newKeyCreateTimeSec now
  | .halt _ => True

/-- **The guard** asks for one of the two keys, but the present one outlives the old one. -/
theorem bothNullOrExpired_usable (h : Timely s t) (cipher : Bytes) :
    wpIn (TimedStep D) (s.bothNullOrExpired cipher) t fun tr o _ => PresentUsable s cipher tr o := by
  have hpast := h.keys.past
  have hordered := h.keys.ordered
  unfold Impl.bothNullOrExpired Impl.nullOrExpired
  by_cases hnil : cipher = []
  · rw [if_pos hnil]
    exact wpIn_iff.mpr fun tr o _ _ => by
      cases o with
      | ret invalid => exact fun _ => .inl hnil
      | halt x => trivial
  rw [if_neg hnil]
  unfold JwtKeyPass.isExpired
  intro now t₁ hclock
  obtain ⟨hle, rfl⟩ := hclock
  have hle : t.toInt ≤ t₁.toInt := Int64.le_iff_toInt_le.mp hle
  have hpresent := h.keys.expiredAt_iff hpast hle
  show wpIn _ (if ¬ s.keyPass.expiredAt s.keyPass.newKeyCreateTimeSec t₁ = true then _ else _) _ _
  by_cases hexpired : s.keyPass.expiredAt s.keyPass.newKeyCreateTimeSec t₁ = true
  rotate_left
  · rw [if_pos hexpired]
    exact fun _ => .inr ⟨t₁, by simp, hpresent.mp (Bool.eq_false_iff.mpr hexpired)⟩
  rw [if_neg (not_not.mpr hexpired)]
  refine wpIn_ofExcept_bind (fun oldKey _ => ?_) fun _ _ => trivial
  by_cases hold : oldKey = []
  · rw [if_pos hold]
    exact fun hvalid => by cases hvalid
  rw [if_neg hold]
  unfold JwtKeyPass.isOldKeyExpired
  intro now₂ t₂ hclock
  obtain ⟨hle₂, rfl⟩ := hclock
  have hle₂ : t₁.toInt ≤ t₂.toInt := Int64.le_iff_toInt_le.mp hle₂
  intro hvalid
  -- the old key would have outlived the present one
  have hkept := (h.keys.expiredAt_iff (by omega) (Int.le_trans hle hle₂)).mp hvalid
  have hlate : s.keyPass.InTime s.keyPass.newKeyCreateTimeSec t₁ := by
    unfold JwtKeyPass.InTime at hkept ⊢
    omega
  rw [hpresent.mpr hlate] at hexpired
  cases hexpired

/-- The old key, where it is not refused, is in its time. -/
theorem oldKey_usable (h : Timely s t) {t₁ : Int64} (hle : t.toInt ≤ t₁.toInt) (oldKey : Bytes) :
    wpIn (TimedStep D) (Impl.nullOrExpired oldKey s.keyPass.isOldKeyExpired) t₁ fun tr o _ =>
      o = .ret false → ∃ now, ⟨.clockGettime, now⟩ ∈ tr ∧
        s.keyPass.InTime s.keyPass.oldKeyCreateTimeSec now := by
  unfold Impl.nullOrExpired
  by_cases hold : oldKey = []
  · rw [if_pos hold]
    exact nofun
  rw [if_neg hold]
  unfold JwtKeyPass.isOldKeyExpired
  intro now t₂ hclock hvalid
  obtain ⟨hle₂, rfl⟩ := hclock
  have hlater : t₁.toInt ≤ t₂.toInt := Int64.le_iff_toInt_le.mp hle₂
  have hpast := h.keys.past
  have hordered := h.keys.ordered
  refine ⟨t₂, List.mem_cons_self, ?_⟩
  exact (h.keys.expiredAt_iff (by omega) (Int.le_trans hle hlater)).mp (Outcome.ret.inj hvalid)

/-! ## The signature -/

/-- A signature that has been computed with a decrypted key. -/
def CipherSigns (O : OpensslHmac) (D : Decryption) (s : Impl) (alg : CryptoHmacAlg)
    (cipher message : Bytes) : Outcome Fault (Except JwtAuthRC Bytes) → Prop
  | .ret (.ok sign) => cipher ≠ [] ∧ ∃ K, D s.options.keyManagerType jwtDefaultSymEncAlg cipher
      (int16ToU32 s.options.domainId) = (.ok, K) ∧ Signs O alg K message sign
  | .ret (.error rc) => rc ≠ .ok
  | .halt _ => True

theorem checkCalculateSignature_signs (O : OpensslHmac) (s : Impl) (alg : CryptoHmacAlg)
    (cipher message : Bytes) : wpIn (TimedStep D) (s.checkCalculateSignature O alg cipher message) t
      fun _ o t' => CipherSigns O D s alg cipher message o ∧ t' = t := by
  unfold Impl.checkCalculateSignature
  split
  · exact ⟨nofun, rfl⟩
  next hne =>
  refine wpIn_perform_bind.mpr fun result t' hdecrypt => ?_
  obtain ⟨ht', hD⟩ := hdecrypt
  split
  · exact ⟨nofun, ht'⟩
  next hrc =>
  cases hsign : calSignB64 O alg message result.2 with
  | error x => exact ⟨trivial, ht'⟩
  | ok created =>
    cases created with
    | error rc => exact ⟨calSignB64_error hsign, ht'⟩
    | ok sign =>
      have hresult : (.ok, result.2) = result := Prod.ext (not_not.mp hrc).symm rfl
      exact ⟨⟨hne, result.2, hD.symm.trans hresult.symm, (calSignB64_ok hsign).2.1⟩, ht'⟩

/-- The signature a token is compared with, in the outcome. -/
def SignatureExpected (O : OpensslHmac) (D : Decryption) (s : Impl)
    (opt : CDFDistAuthValidateTokenOptions) (alg : CryptoHmacAlg) (message : Bytes)
    (tr : List JwtEvent) : Outcome Fault (Except JwtAuthRC Bytes) → Prop
  | .ret (.ok sign) => ∃ K, SigningKey D s opt tr K ∧ Signs O alg K message sign
  | .ret (.error rc) => rc ≠ .ok
  | .halt _ => True

theorem validateTokenFromInternalKey_expected (h : Timely s t)
    (hmode : s.options.keyTransferMode = .internalKey) (opt : CDFDistAuthValidateTokenOptions)
    (alg : CryptoHmacAlg) (sign message : Bytes) :
    wpIn (TimedStep D) (s.validateTokenFromInternalKey O alg sign message) t
      fun tr o _ => SignatureExpected O D s opt alg message tr o := by
  unfold Impl.validateTokenFromInternalKey
  refine wpIn_ofExcept_bind (fun cipher hcipher => ?_) fun _ _ => trivial
  have hguard := wpIn_iff.mpr fun tr o t' hexec =>
    And.intro (wpIn_iff.mp (bothNullOrExpired_usable (D := D) h cipher) tr o t' hexec)
      (TimedStep.run_le hexec.2)
  refine wpIn_bind_of hguard (fun tr invalid t₁ husable => ?_) fun _ _ _ _ => trivial
  obtain ⟨husable, hle⟩ := husable
  split
  · exact fun hrc => by cases hrc
  next hvalid =>
  refine wpIn_bind_of (checkCalculateSignature_signs O s alg cipher message)
    (fun tr₁ result t₂ hfirst => ?_) fun _ _ _ _ => trivial
  obtain ⟨hfirst, rfl⟩ := hfirst
  cases result with
  | error rc => exact hfirst
  | ok signB64 =>
    obtain ⟨hne, K, hD, hsigns⟩ := hfirst
    dsimp only
    split
    · -- the present key
      obtain hnil | ⟨now, hnow, hintime⟩ := husable (by simpa using hvalid)
      · exact absurd hnil hne
      · refine ⟨K, .internal hmode ⟨.inl ⟨hcipher, rfl⟩, hne⟩ hD ?_ hintime, hsigns⟩
        simp [hnow]
    -- the old key, which must be in its time itself
    refine wpIn_ofExcept_bind (fun oldKey holdKey => ?_) fun _ _ => trivial
    refine wpIn_bind_of (oldKey_usable h hle oldKey) (fun tr₂ invalid t₃ holdUsable => ?_)
      fun _ _ _ _ => trivial
    split
    · exact fun hrc => by cases hrc
    next holdValid =>
    obtain ⟨now, hnow, hintime⟩ := holdUsable (congrArg Outcome.ret (Bool.eq_false_iff.mpr holdValid))
    refine wpIn_bind_of (checkCalculateSignature_signs O s alg oldKey message)
      (fun tr₃ result t₄ hsecond => ?_) fun _ _ _ _ => trivial
    obtain ⟨hsecond, -⟩ := hsecond
    cases result with
    | error rc => exact hsecond
    | ok signB64 =>
      dsimp only
      split
      · exact fun hrc => by cases hrc
      · obtain ⟨hne, K, hD, hsigns⟩ := hsecond
        refine ⟨K, .internal hmode ⟨.inr ⟨holdKey, rfl⟩, hne⟩ hD ?_ hintime, hsigns⟩
        simp [hnow]

theorem expectedSignature_expected (h : Timely s t) (hstarted : s.started = true)
    (opt : CDFDistAuthValidateTokenOptions) (alg : CryptoHmacAlg) (sign message : Bytes) :
    wpIn (TimedStep D) (s.expectedSignature O opt alg sign message) t
      fun tr o _ => SignatureExpected O D s opt alg message tr o := by
  unfold Impl.expectedSignature
  by_cases hmode : s.options.keyTransferMode = .internalKey
  · rw [if_pos hmode]
    exact validateTokenFromInternalKey_expected h hmode opt alg sign message
  rw [if_neg hmode]
  have hexternal : s.options.keyTransferMode = .externalKey := by
    have hknown := h.mode hstarted
    cases heq : s.options.keyTransferMode with
    | internalKey => exact absurd heq hmode
    | externalKey => rfl
    | unknown => exact absurd heq hknown
  split
  · exact fun hrc => by cases hrc
  next buf hkey =>
  split
  · exact fun hrc => by cases hrc
  split
  · exact fun hrc => by cases hrc
  cases hsign : calSignB64 O alg message (buf.take opt.keyLen.toNat) with
  | error x => trivial
  | ok created =>
    cases created with
    | error rc => exact calSignB64_error hsign
    | ok sign => exact ⟨_, .external hexternal hkey rfl, (calSignB64_ok hsign).2.1⟩

/-! ## The token -/

variable {opt : CDFDistAuthValidateTokenOptions} {tr : List JwtEvent}

/-- What is known of a token that has been accepted, and of the call that did. -/
structure Accepted (O : OpensslHmac) (D : Decryption) (s : Impl)
    (opt : CDFDistAuthValidateTokenOptions) (tr : List JwtEvent)
    (header payload sign : Bytes) (info : TokenInfo) (K : Bytes) : Prop where
  pieces : split (cstr (opt.token.getD [])) jwtSepDot = [header, payload, sign]
  parsed : getInfoByToken (base64Decode (tryFixBase64 header)) = some info
  fresh : ∃ now, ⟨.clockGettime, now⟩ ∈ tr ∧ info.Fresh now.toInt
  key : SigningKey D s opt tr K
  signed : Signs O info.algType K (header ++ jwtSepDot ++ payload) sign

/-- An OK of `ValidateToken`, in its outcome. -/
def TokenAccepted (O : OpensslHmac) (D : Decryption) (s : Impl)
    (opt : CDFDistAuthValidateTokenOptions) (tr : List JwtEvent) : Outcome Fault JwtAuthRC → Prop
  | .ret rc => rc = .ok → ∃ header payload sign info K,
      Accepted O D s opt tr header payload sign info K
  | .halt _ => True

theorem SigningKey.mono {tr' : List JwtEvent} {K : Bytes} (h : SigningKey D s opt tr K)
    (hsub : tr ⊆ tr') : SigningKey D s opt tr' K := by
  cases h with
  | external hmode hkey hK => exact .external hmode hkey hK
  | internal hmode hcipher hdecrypt hnow hvalid =>
    exact .internal hmode hcipher hdecrypt (hsub hnow) hvalid

theorem validateToken_accepted (h : Timely s t) (opt : CDFDistAuthValidateTokenOptions) :
    wpIn (TimedStep D) (s.validateToken O opt) t fun tr o _ => TokenAccepted O D s opt tr o := by
  unfold Impl.validateToken
  dsimp only
  split
  next hparams => exact fun hrc => absurd hrc hparams
  next hparams =>
  have hstarted : s.started = true := by
    unfold Impl.checkValidateTokenParams at hparams
    by_cases hstarted : s.started = true
    · exact hstarted
    · rw [if_pos hstarted] at hparams
      exact absurd (by decide) hparams
  split
  rotate_left
  · exact fun hrc => by cases hrc
  next header payload sign hpieces =>
  have hheader : wpIn (TimedStep D) (checkTokenExpiredTime header) t fun tr o t' =>
      HeaderAccepted header tr o ∧ t.toInt ≤ t'.toInt :=
    (checkTokenExpiredTime_accepted header).wpIn fun _ _ _ haccepted hrun =>
      ⟨haccepted, TimedStep.run_le hrun⟩
  refine wpIn_bind_of hheader (fun tr result t₁ haccepted => ?_) fun _ _ _ _ => trivial
  obtain ⟨haccepted, hle⟩ := haccepted
  cases result with
  | error rc =>
    have hne : rc ≠ .ok := haccepted
    exact fun hrc => absurd hrc hne
  | ok alg =>
    obtain ⟨info, hinfo, rfl, now, hnow, hfresh⟩ := haccepted
    dsimp only
    refine wpIn_bind_of (expectedSignature_expected (h.mono hle) hstarted opt info.algType sign
      (header ++ jwtSepDot ++ payload)) (fun tr₁ result t₂ hexpected => ?_) fun _ _ _ _ => trivial
    cases result with
    | error rc =>
      have hne : rc ≠ .ok := hexpected
      exact fun hrc => absurd hrc hne
    | ok signB64 =>
      obtain ⟨K, hkey, hsigns⟩ := hexpected
      intro hrc
      have hsame : signB64 = sign := by
        by_contra hne
        rw [if_pos hne] at hrc
        cases hrc
      rw [hsame] at hsigns
      exact ⟨header, payload, sign, info, K, hpieces, hinfo, ⟨now, by simp [hnow], hfresh⟩,
        hkey.mono (by simp), hsigns⟩

/-- **Soundness.** In every run whose clock never goes back, a token that `ValidateToken` accepts
has three pieces, a header that is fresh, and the signature of a key in its time. -/
theorem validateToken_sound {calls : List (ServerOp × List JwtEvent)} {t₀ : Int64}
    (hepoch : 0 ≤ t₀) (hrun : Run (TimedCall O D) ({}, t₀) calls (s, t))
    (hok : Exec (TimedStep D) (s.validateToken O opt) t tr (.ret .ok) t') :
    ∃ header payload sign info K, Accepted O D s opt tr header payload sign info K :=
  wpIn_iff.mp (validateToken_accepted (timely_of_run hepoch hrun) opt) _ _ _ hok rfl

/-! ## A token that is accepted -/

/-- The server after `Start` and `SetEncryptionKey`. -/
def keyedServer (now : Int64) : Impl :=
  { sampleServer now with
    keyPass := { key := some (ascii "cipher"), keyLen := 6, newKeyCreateTimeSec := now.toUInt64 } }

def sampleKey : Bytes := List.replicate 32 65

/-- A key manager that has encrypted nothing else. -/
def keyDecryption : Decryption := fun _ _ _ _ => (.ok, sampleKey)

def startCall (now : Int64) : ServerOp × List JwtEvent := (.start sampleOptions, (sampleStart 0 now).tr)

def setKeyCall (now : Int64) : ServerOp × List JwtEvent :=
  (.setEncryptionKey (some sampleKey) 32, [⟨.clockGettime, now⟩,
    ⟨.encrypt .openbao jwtDefaultSymEncAlg sampleKey 0, (.ok, ascii "cipher")⟩,
    ⟨.newChars 6, true⟩])

theorem traces_startCall (O : OpensslHmac) (now : Int64) : Traces ((startCall now).1.prog O {})
    (startCall now).2 (.ret (.code .ok, sampleServer now)) := .call (.call (.call (.ret _)))

theorem traces_setKeyCall (O : OpensslHmac) (now : Int64) :
    Traces ((setKeyCall now).1.prog O (sampleServer now)) (setKeyCall now).2
      (.ret (.code .ok, keyedServer now)) := .call (.call (.call (.ret _)))

theorem keyedServer_run (O : OpensslHmac) (D : Decryption) (now : Int64) :
    Run (TimedCall O D) ({}, now) [startCall now, setKeyCall now] (keyedServer now, now) := by
  have hclock : TimedStep D now ⟨.clockGettime, now⟩ now := ⟨Int64.le_refl _, rfl⟩
  have hstart : TimedCall O D ({}, now) (startCall now) (sampleServer now, now) :=
    ⟨.code .ok, traces_startCall O now, .cons rfl (.cons hclock (.cons rfl (.nil _)))⟩
  have hset : TimedCall O D (sampleServer now, now) (setKeyCall now) (keyedServer now, now) :=
    ⟨.code .ok, traces_setKeyCall O now, .cons hclock (.cons rfl (.cons rfl (.nil _)))⟩
  exact .cons hstart (.cons hset (.nil _))

/-- The server makes a token in the same second. -/
theorem keyedServer_created : ∃ created, ((keyedServer 1700000000).createToken sampleHmac
    sampleRequest).eval (atTime keyDecryption 1700000000) = .ret (.ok, created) := by
  have hsome : (createdToken (((keyedServer 1700000000).createToken sampleHmac
      sampleRequest).eval (atTime keyDecryption 1700000000))).isSome = true := by decide +kernel
  obtain ⟨created, hcreated⟩ := Option.isSome_iff_exists.mp hsome
  exact ⟨created, createdToken_eq_some hcreated⟩

theorem validateToken_sound_keyed : ∃ (opt : CDFDistAuthValidateTokenOptions) (tr : List JwtEvent)
    (header payload sign : Bytes) (info : TokenInfo) (K : Bytes), Accepted sampleHmac keyDecryption
      (keyedServer 1700000000) opt tr header payload sign info K := by
  obtain ⟨created, hcreated⟩ := keyedServer_created
  have hkeeps : KeepsKey keyDecryption (keyedServer 1700000000) (keyedServer 1700000000)
      1700000000 := by
    intro _
    exact ⟨⟨ascii "cipher", ascii "cipher", rfl, rfl, by decide, rfl⟩, by decide⟩
  have hstart : Traces (({} : Impl).start sampleOptions) (startCall 1700000000).2
      (.ret (.ok .ok, sampleServer 1700000000)) := .call (.call (.call (.ret _)))
  have hclock : (⟨.clockGettime, (1700000000 : Int64)⟩ : JwtEvent) ∈ (startCall 1700000000).2 := by
    simp [startCall, sampleStart]
  have hnotStop : (setKeyCall 1700000000).1 ≠ .stop := fun h => by cases h
  have hset : Run (ServerStep sampleHmac) (sampleServer 1700000000) [setKeyCall 1700000000]
      (keyedServer 1700000000) := .cons ⟨hnotStop, .code .ok, traces_setKeyCall _ _⟩ (.nil _)
  have heval : ((keyedServer 1700000000).validateToken sampleHmac created.validateOptions).eval
      (atTime keyDecryption 1700000000) = .ret .ok := by
    rw [validateToken_created (by decide) (by decide) rfl hstart hclock hset (Int64.le_refl _)
      hcreated (.nil _) (Int64.le_refl _) hkeeps]
    rw [if_neg (by decide +kernel), if_neg (by decide)]
  exact ⟨created.validateOptions, _, validateToken_sound (by decide) (keyedServer_run _ _ _)
    ⟨traces_of_eval heval, TimedStep.run_atTime fun _ => mem_runWith⟩⟩

end CdfCrypto.Jwt
