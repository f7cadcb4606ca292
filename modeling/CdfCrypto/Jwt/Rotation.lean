import CdfCrypto.Jwt.Soundness

/-!
# A token and the next key

`RefreshEncryptionKey` moves the present key with its time to the place of the old one. A token
signed with it is then tried with the new key first, which must work although it does not
match, and with the old key after that. So a token outlives the refresh as long as its own
time and that of its key run, but for the limit that `ValidateToken` puts on what it reads and
`CreateToken` does not know (`validateToken_refreshed_iff`).
-/

namespace CdfCrypto.Jwt

open Lib KeyManagement

variable {O : OpensslHmac} {D : Decryption} {s s' : Impl} {t t' : Int64}

/-! ## Along a run -/

/-- A time that was read lies between the first and the last. -/
theorem TimedStep.run_clock {tr : List JwtEvent} {now : Int64} (h : Run (TimedStep D) t tr t')
    (hnow : ⟨.clockGettime, now⟩ ∈ tr) : t.toInt ≤ now.toInt ∧ now.toInt ≤ t'.toInt := by
  induction h with
  | nil => exact absurd hnow List.not_mem_nil
  | cons hstep hrest ih =>
    rcases List.mem_cons.mp hnow with rfl | hnow
    · obtain ⟨hle, rfl⟩ := hstep
      exact ⟨Int64.le_iff_toInt_le.mp hle, TimedStep.run_le hrest⟩
    · obtain ⟨hfirst, hlast⟩ := ih hnow
      exact ⟨Int.le_trans hstep.le hfirst, hlast⟩

/-- Every decryption was the function's. -/
theorem TimedStep.run_decrypt {tr : List JwtEvent} {type : KeyManagerTy} {alg : CryptoSymAlg}
    {cipher : Bytes} {d : Nat} {result : CryptionRC × Bytes} (h : Run (TimedStep D) t tr t')
    (hmem : ⟨.decrypt type alg cipher d, result⟩ ∈ tr) : result = D type alg cipher d := by
  induction h with
  | nil => exact absurd hmem List.not_mem_nil
  | cons hstep _ ih =>
    rcases List.mem_cons.mp hmem with rfl | hmem
    · exact hstep.2
    · exact ih hmem

/-- The header of a started server: of its own algorithm, and made at a time that has been. -/
structure Headed (s : Impl) (t : Int64) : Prop where
  epoch : 0 ≤ t.toInt
  alg : s.started = true → s.tokenHeader.alg = s.options.algType ∧ s.options.algType.isValue = true
  past : s.started = true → s.tokenHeader.createTimeSec.toNat ≤ t.toInt

theorem Headed.mono (h : Headed s t) (hle : t.toInt ≤ t'.toInt) : Headed s t' :=
  ⟨Int.le_trans h.epoch hle, h.alg, fun hs => Int.le_trans (h.past hs) hle⟩

/-- The header is kept, in an outcome. -/
def StaysHeaded {α : Type} : Outcome Fault (α × Impl) → Int64 → Prop
  | .ret (_, s'), t' => Headed s' t'
  | .halt _, _ => True

theorem start_headed (h : Headed s t) (opt : CDFDistAuthServerOptions) :
    wpIn (TimedStep D) (s.start opt) t fun _ o t' => StaysHeaded o t' := by
  refine (start_ends s opt).wpIn fun tr o t' hends hrun => ?_
  have hle := TimedStep.run_le hrun
  -- the header made at `now`, whether the rest of the start succeeds or not
  have hmade : ∀ {pre : List JwtEvent} {now : Int64} {server : Impl}, Prepares s opt pre →
      ⟨.clockGettime, now⟩ ∈ tr → server.tokenHeader = (s.prepared opt now).tokenHeader →
      server.options = opt → Headed server t' := by
    intro pre now server hpre hmem hheader hoptions
    obtain ⟨hfirst, hlast⟩ := TimedStep.run_clock hrun hmem
    refine ⟨Int.le_trans h.epoch hle, fun _ => ?_, fun _ => ?_⟩
    · rw [hheader, hoptions]
      exact ⟨rfl, hpre.alg⟩
    · rw [hheader]
      show (now.toUInt64.toNat : Int) ≤ _
      rwa [toNat_toUInt64 (Int64.le_iff_toInt_le.mpr (Int.le_trans h.epoch hfirst))]
  cases hends with
  | already => exact h.mono hle
  | refused => exact h.mono hle
  | failed hpre => exact hmade hpre (by simp) rfl rfl
  | internal hpre => exact hmade hpre (by simp) rfl rfl
  | external hpre => exact hmade hpre (by simp) rfl rfl

theorem stop_headed (h : Headed s t) :
    wpIn (TimedStep D) s.stop t fun _ o t' => StaysHeaded o t' := by
  refine wpIn_mono (stop_stops s t) fun tr o t' hstops => ?_
  obtain ⟨⟨rc, rfl⟩, rfl⟩ := hstops
  exact ⟨h.epoch, fun hs => (nomatch hs), fun hs => (nomatch hs)⟩

/-- Every call of the interface keeps a header. -/
theorem prog_headed (O : OpensslHmac) (h : Headed s t) (op : ServerOp) :
    wpIn (TimedStep D) (op.prog O s) t fun _ o t' => StaysHeaded o t' := by
  by_cases hstart : ∃ opt, op = .start opt
  · obtain ⟨opt, rfl⟩ := hstart
    refine wpIn_bind_of (start_headed h opt) (fun _ result t' hkept => ?_) fun _ _ _ _ => trivial
    split
    · exact hkept
    · exact hkept
  by_cases hstop : op = .stop
  · subst hstop
    exact wpIn_bind_of (stop_headed h) (fun _ _ _ hkept => hkept) fun _ _ _ _ => trivial
  · refine (prog_keysOnly O s (fun opt h => hstart ⟨opt, h⟩) hstop).wpIn fun tr o t' hkeys hrun => ?_
    cases o with
    | halt x => trivial
    | ret result =>
      obtain ⟨keyPass, hsame⟩ := hkeys
      show Headed result.2 t'
      have hlater := h.mono (TimedStep.run_le hrun)
      rw [hsame]
      exact ⟨hlater.epoch, hlater.alg, hlater.past⟩

theorem headed_of_run {calls : List (ServerOp × List JwtEvent)} {t₀ : Int64} (hepoch : 0 ≤ t₀)
    (hrun : Run (TimedCall O D) ({}, t₀) calls (s, t)) : Headed s t := by
  have hfresh : Headed {} t₀ := ⟨Int64.le_iff_toInt_le.mp hepoch, fun hs => (nomatch hs),
    fun hs => (nomatch hs)⟩
  refine Run.invariant (I := fun w => Headed w.1 w.2) (fun w call w' hw hcall => ?_) hrun hfresh
  obtain ⟨answer, hexec⟩ := hcall
  exact wpIn_iff.mp (prog_headed O hw call.1) _ _ _ hexec

/-- One call that comes back and does not stop the server. -/
def TimedServing (O : OpensslHmac) (D : Decryption) (w : Impl × Int64)
    (call : ServerOp × List JwtEvent) (w' : Impl × Int64) : Prop :=
  call.1 ≠ .stop ∧ TimedCall O D w call w'

/-- The calls that leave the keys alone. -/
def ServerOp.KeepsKeys : ServerOp → Prop
  | start _ => True
  | estimateTokenLength _ => True
  | createToken _ => True
  | validateToken _ => True
  | stop => False
  | refreshEncryptionKey _ _ => False
  | setEncryptionKey _ _ => False

/-- One call that comes back and leaves the keys alone. -/
def TimedKeeping (O : OpensslHmac) (D : Decryption) (w : Impl × Int64)
    (call : ServerOp × List JwtEvent) (w' : Impl × Int64) : Prop :=
  call.1.KeepsKeys ∧ TimedCall O D w call w'

/-- A started server is the same server after calls that do not stop it. -/
structure SameServer (s s' : Impl) : Prop where
  started : s'.started = true
  options : s'.options = s.options
  header : s'.tokenHeader = s.tokenHeader

theorem sameServer_of_run {calls : List (ServerOp × List JwtEvent)} (hstarted : s.started = true)
    (hrun : Run (TimedServing O D) (s, t) calls (s', t')) : SameServer s s' := by
  refine Run.invariant (I := fun w => SameServer s w.1) (fun w call w' hw hcall => ?_) hrun
    ⟨hstarted, rfl, rfl⟩
  obtain ⟨hop, answer, hexec⟩ := hcall
  obtain ⟨keyPass, hsame⟩ := wp_iff.mp (keysOnly_of_started O hw.started hop) _ _ hexec.1
  rw [hsame]
  exact ⟨hw.started, hw.options, hw.header⟩

/-- Nothing of the server changes, in an outcome. -/
def LeavesServer (s : Impl) : Outcome Fault (ServerAnswer × Impl) → Prop
  | .ret (_, s') => s' = s
  | .halt _ => True

theorem prog_leavesServer (O : OpensslHmac) (hstarted : s.started = true) {op : ServerOp}
    (hop : op.KeepsKeys) : wp (op.prog O s) fun _ o => LeavesServer s o := by
  cases op with
  | start opt =>
    have hsame : s.start opt = .ret (.ok .ok, s) := if_pos hstarted
    show wp (s.start opt >>= _) _
    rw [hsame]
    rfl
  | estimateTokenLength inputLen => rfl
  | createToken opt => exact wp_bind_any (fun _ _ => rfl) fun _ _ => trivial
  | validateToken opt => exact wp_bind_any (fun _ _ => rfl) fun _ _ => trivial
  | stop => exact hop.elim
  | refreshEncryptionKey newKey keyLen => exact hop.elim
  | setEncryptionKey newKey keyLen => exact hop.elim

theorem eq_of_run {calls : List (ServerOp × List JwtEvent)} (hstarted : s.started = true)
    (hrun : Run (TimedKeeping O D) (s, t) calls (s', t')) : s' = s := by
  refine Run.invariant (I := fun w => w.1 = s) (fun w call w' hw hcall => ?_) hrun rfl
  obtain ⟨hop, answer, hexec⟩ := hcall
  obtain ⟨server, now⟩ := w
  obtain rfl : server = s := hw
  exact wp_iff.mp (prog_leavesServer O hstarted hop) _ _ hexec.1

/-! ## The keys after a refresh -/

/-- `k'` is `k` with a new key, and with `k`'s key, `cipher`, and its time in the old place. -/
structure Refreshed (k k' : JwtKeyPass) (cipher newCipher : Bytes) : Prop where
  key : k'.getKey = .ok newCipher
  ne_nil : newCipher ≠ []
  oldKey : k'.getOldKey = .ok cipher
  oldTime : k'.oldKeyCreateTimeSec = k.newKeyCreateTimeSec
  hours : k'.serverKeyExpiredHours = k.serverKeyExpiredHours

/-- The manager encrypted `plaintext` to `cipher` in the trace. -/
def EncryptedTo (tr : List JwtEvent) (type : KeyManagerTy) (alg : CryptoSymAlg) (d : Nat)
    (plaintext cipher : Bytes) : Prop :=
  ⟨.encrypt type alg plaintext d, (.ok, cipher)⟩ ∈ tr

variable {k : JwtKeyPass}

variable {key : Option Bytes} {len : UInt32} {type : KeyManagerTy} {d : Nat} {alg : CryptoSymAlg}

/-- A ciphertext that was copied is not empty, and is read back by its length. -/
theorem copiedCipher_eq_some {cipher copy : Bytes} (hcopy : copiedCipher cipher = some copy) :
    copy = cipher ∧ cipher ≠ [] ∧ stringOf (some cipher) cipher.length.toUInt32 = .ok cipher := by
  unfold copiedCipher JwtKeyPass.copyFrom at hcopy
  dsimp only at hcopy
  split at hcopy
  next hfits =>
    rw [List.take_length] at hcopy
    -- the length did not wrap
    simp only [memcpyS, Bool.and_eq_true, decide_eq_true_eq] at hfits
    have hle : cipher.length.toUInt32.toNat ≤ cipher.length := by
      show cipher.length % 2 ^ 32 ≤ _
      exact Nat.mod_le _ _
    refine ⟨(Option.some.inj hcopy).symm, List.ne_nil_of_length_pos (by omega), ?_⟩
    show Except.ok (cipher.take _) = _
    rw [List.take_of_length_le hfits.2]
  · cases hcopy

/-- What an OK of `SetKey` leaves. -/
def KeySet (k : JwtKeyPass) (key : Option Bytes) (len : UInt32) (type : KeyManagerTy) (d : Nat)
    (alg : CryptoSymAlg) (tr : List JwtEvent) : Outcome Fault (JwtAuthRC × JwtKeyPass) → Prop
  | .ret (rc, k') => rc = .ok → ∃ buf cipher, key = some buf ∧
      EncryptedTo tr type alg d (buf.take len.toNat) cipher ∧ cipher ≠ [] ∧
      k'.getKey = .ok cipher ∧ k'.oldKey = k.oldKey ∧ k'.oldKeyLen = k.oldKeyLen ∧
      k'.oldKeyCreateTimeSec = k.oldKeyCreateTimeSec ∧
      k'.serverKeyExpiredHours = k.serverKeyExpiredHours
  | .halt _ => True

theorem SetKeyEnds.keySet {k' : JwtKeyPass} {rc : JwtAuthRC}
    (h : SetKeyEnds k key len type d alg tr rc k') :
    KeySet k key len type d alg tr (.ret (rc, k')) := by
  cases h with
  | refused => exact nofun
  | notEncrypted => exact nofun
  | noMemory => exact nofun
  | notCopied => exact nofun
  | @set now buf cipher copy hkey hcopy =>
    obtain ⟨rfl, hne, hread⟩ := copiedCipher_eq_some hcopy
    exact fun _ => ⟨buf, _, hkey, by simp [EncryptedTo], hne, hread, rfl, rfl, rfl, rfl⟩

/-- An OK of `RefreshKey`, in its outcome. -/
def KeyRefreshed (k : JwtKeyPass) (cipher : Bytes) (key : Option Bytes) (len : UInt32)
    (type : KeyManagerTy) (d : Nat) (alg : CryptoSymAlg) (tr : List JwtEvent) :
    Outcome Fault (JwtAuthRC × JwtKeyPass) → Prop
  | .ret (rc, k') => rc = .ok → ∃ buf newCipher, key = some buf ∧
      EncryptedTo tr type alg d (buf.take len.toNat) newCipher ∧ Refreshed k k' cipher newCipher
  | .halt _ => True

/-- What is copied of the present key is what `getKey` reads, and is read so again. -/
theorem copied_eq_some {cipher buf : Bytes} (hkey : k.getKey = .ok cipher)
    (hcopy : k.copied = some buf) : buf = cipher ∧ stringOf (some buf) k.keyLen = .ok buf := by
  unfold JwtKeyPass.getKey stringOf at hkey
  unfold JwtKeyPass.copied JwtKeyPass.copyFrom at hcopy
  cases hpresent : k.key with
  | none =>
    rw [hpresent] at hcopy
    cases hcopy
  | some present =>
    rw [hpresent] at hkey hcopy
    dsimp only at hcopy
    split at hcopy
    · obtain rfl : buf = cipher := (Option.some.inj hcopy).symm.trans (Except.ok.inj hkey)
      refine ⟨rfl, ?_⟩
      show Except.ok (buf.take _) = _
      rw [← Except.ok.inj hkey, List.take_take, Nat.min_self]
    · cases hcopy

/-- **The present key goes to the old place**, as it is and with its time. -/
theorem refreshKey_refreshed {cipher : Bytes} (hkey : k.getKey = .ok cipher)
    (key : Option Bytes) (len : UInt32) (type : KeyManagerTy) (d : Nat) (alg : CryptoSymAlg) :
    wp (k.refreshKey key len type d alg) (KeyRefreshed k cipher key len type d alg) := by
  refine wp_mono (refreshKey_ends k key len type d alg) fun tr o hends => ?_
  obtain ⟨rc, k', rfl, hends⟩ := hends
  intro hrc
  cases hends with
  | refused => cases hrc
  | noMemory => cases hrc
  | notCopied => cases hrc
  | @moved copy tr rc k' _ hcopy hset =>
    obtain ⟨rfl, hold⟩ := copied_eq_some hkey hcopy
    have hok : rc = .ok := by
      by_contra hfailed
      rw [if_pos hfailed] at hrc
      cases hrc
    obtain ⟨newBuf, newCipher, hnew, hencrypted, hne, hgetKey, holdKey, holdLen, htime, hhours⟩ :=
      hset.keySet hok
    refine ⟨newBuf, newCipher, hnew, List.mem_cons_of_mem _ hencrypted, hgetKey, hne, ?_, htime,
      hhours⟩
    unfold JwtKeyPass.getOldKey
    rw [holdKey, holdLen]
    exact hold

/-- An OK of `RefreshEncryptionKey`, in its outcome. -/
def ServerRefreshed (s : Impl) (cipher : Bytes) (newKey : Option Bytes) (keyLen : UInt32)
    (tr : List JwtEvent) : Outcome Fault (JwtAuthRC × Impl) → Prop
  | .ret (rc, s') => rc = .ok → s.checkNewKey .paramInvalid newKey keyLen = .ok ∧
      ∃ buf newCipher k', newKey = some buf ∧
        EncryptedTo tr s.options.keyManagerType jwtDefaultSymEncAlg (int16ToU32 s.options.domainId)
          (buf.take keyLen.toNat) newCipher ∧
        s' = { s with keyPass := k' } ∧ Refreshed s.keyPass k' cipher newCipher
  | .halt _ => True

theorem refreshEncryptionKey_refreshed {cipher : Bytes} (hkey : s.keyPass.getKey = .ok cipher)
    (newKey : Option Bytes) (keyLen : UInt32) :
    wp (s.refreshEncryptionKey newKey keyLen) (ServerRefreshed s cipher newKey keyLen) := by
  unfold Impl.refreshEncryptionKey
  dsimp only
  split
  next hrefused => exact fun hrc => absurd hrc hrefused
  next hchecked =>
  refine wp_bind_of (refreshKey_refreshed hkey newKey keyLen _ _ _)
    (fun tr result hrefreshed => ?_) fun _ _ _ => trivial
  intro hrc
  obtain ⟨buf, newCipher, hnew, hencrypted, hmoved⟩ := hrefreshed hrc
  refine ⟨not_not.mp hchecked, buf, newCipher, result.2, hnew, ?_, rfl, hmoved⟩
  rwa [List.append_nil]

/-! ## Two keys to try -/

/-- A key long enough for the algorithm signs what there is to sign. -/
theorem calSignB64_signs {alg : CryptoHmacAlg} {message key : Bytes}
    (htotal : ∀ alg key input, O.hmac alg key input ≠ none) (hmessage : message ≠ [])
    (hlen : checkHmacKeyLen alg (key.length % 2 ^ 32) = .ok) :
    ∃ sign, calSignB64 O alg message key = .ok (.ok sign) := by
  have halg : alg ≠ .unknown := by
    intro heq
    subst heq
    cases hlen
  have hkey : key ≠ [] := by
    intro heq
    subst heq
    cases alg <;> cases hlen
  obtain ⟨digest, hdigest⟩ := Option.ne_none_iff_exists'.mp (htotal alg key message)
  have hlength := O.length_eq alg key message digest hdigest
  have hhmac : nativeHmac O alg key message = (.ok, digest) := by
    unfold nativeHmac
    rw [if_neg (by simp [hkey, hmessage]), if_neg (not_not.mpr hlen), if_neg halg, hdigest]
  have hdigestLen : 0 < digest.length ∧ digest.length < 2 ^ 32 := by
    rw [hlength]
    cases alg with
    | unknown => exact absurd rfl halg
    | _ => decide
  have hbase64 : base64Encode digest ≠ [] := by
    intro hnil
    have hlen64 := base64Encode_length hdigestLen.2
    rw [hnil, List.length_nil] at hlen64
    omega
  unfold calSignB64
  rw [if_neg hkey, hhmac]
  dsimp only
  rw [if_neg (by decide), if_neg hbase64, unpadded_eq hbase64]
  exact ⟨_, rfl⟩

/-- **The signature is found again in the old place**, whatever the new key makes of it. -/
theorem expectedSignature_eval_old {opt : CDFDistAuthValidateTokenOptions} {alg : CryptoHmacAlg}
    {cipher newCipher K newK sign newSign message : Bytes}
    (hmode : s.options.keyTransferMode = .internalKey) (hkey : s.keyPass.getKey = .ok newCipher)
    (hne : newCipher ≠ []) (hold : s.keyPass.getOldKey = .ok cipher) (holdNe : cipher ≠ [])
    (hvalid : s.keyPass.expiredAt s.keyPass.oldKeyCreateTimeSec t = false)
    (hnewD : D s.options.keyManagerType jwtDefaultSymEncAlg newCipher
      (int16ToU32 s.options.domainId) = (.ok, newK))
    (hD : D s.options.keyManagerType jwtDefaultSymEncAlg cipher (int16ToU32 s.options.domainId) =
      (.ok, K))
    (hnewSign : calSignB64 O alg message newK = .ok (.ok newSign))
    (hsign : calSignB64 O alg message K = .ok (.ok sign)) :
    (s.expectedSignature O opt alg sign message).eval (atTime D t) = .ret (.ok sign) := by
  have holdValid : (Impl.nullOrExpired cipher s.keyPass.isOldKeyExpired).eval (atTime D t) =
      .ret false := by
    unfold Impl.nullOrExpired JwtKeyPass.isOldKeyExpired
    rw [if_neg holdNe, ← hvalid]
    rfl
  -- the old key opens the guard even where the new one does not
  have hguard : (s.bothNullOrExpired newCipher).eval (atTime D t) = .ret false := by
    unfold Impl.bothNullOrExpired
    have hnewValid : (Impl.nullOrExpired newCipher s.keyPass.isExpired).eval (atTime D t) =
        .ret (s.keyPass.expiredAt s.keyPass.newKeyCreateTimeSec t) := by
      unfold Impl.nullOrExpired JwtKeyPass.isExpired
      rw [if_neg hne]
      rfl
    rw [eval_bind hnewValid]
    split
    · rfl
    · rw [hold]
      exact holdValid
  have hfirst := checkCalculateSignature_eval (t := t) hne hnewD hnewSign
  have hsecond := checkCalculateSignature_eval (t := t) holdNe hD hsign
  unfold Impl.expectedSignature Impl.validateTokenFromInternalKey
  rw [if_pos hmode, hkey, eval_bind (a := newCipher) rfl, eval_bind hguard, if_neg (by decide),
    eval_bind hfirst]
  dsimp only
  by_cases hsame : newSign = sign
  · rw [if_pos hsame, hsame]
    rfl
  rw [if_neg hsame, hold, eval_bind (a := cipher) rfl, eval_bind holdValid, if_neg (by decide),
    eval_bind hsecond]
  dsimp only
  rw [if_neg (not_not.mpr rfl)]
  rfl

/-! ## The run -/

/-- A server in a run: it makes a token, serves on with the same present key, refreshes that
key, and serves on without another. The manager decrypts what it made of the new key. -/
structure Rotation (O : OpensslHmac) (D : Decryption) where
  {first asked made refreshing refreshed now : Int64}
  {maker holder renewed keeper : Impl}
  {request created : CDFDistAuthCreateTokenOptions}
  {newKey : Bytes}
  {keyLen : UInt32}
  {trCreate trRefresh : List JwtEvent}
  {calls serving keeping : List (ServerOp × List JwtEvent)}
  epoch : 0 ≤ first
  run : Run (TimedCall O D) ({}, first) calls (maker, asked)
  mode : maker.options.keyTransferMode = .internalKey
  creates : Exec (TimedStep D) (maker.createToken O request) asked trCreate (.ret (.ok, created)) made
  serves : Run (TimedServing O D) (maker, made) serving (holder, refreshing)
  present : holder.keyPass.getKey = maker.keyPass.getKey
  buffer : keyLen.toNat ≤ newKey.length
  refreshes : Exec (TimedStep D) (holder.refreshEncryptionKey (some newKey) keyLen) refreshing
    trRefresh (.ret (.ok, renewed)) refreshed
  decrypts : ∀ cipher, EncryptedTo trRefresh holder.options.keyManagerType jwtDefaultSymEncAlg
    (int16ToU32 holder.options.domainId) (newKey.take keyLen.toNat) cipher →
      D holder.options.keyManagerType jwtDefaultSymEncAlg cipher
        (int16ToU32 holder.options.domainId) = (.ok, newKey.take keyLen.toNat)
  keeps : Run (TimedKeeping O D) (renewed, refreshed) keeping (keeper, now)

theorem TimedCall.run_le {w w' : Impl × Int64} {calls : List (ServerOp × List JwtEvent)}
    (hrun : Run (TimedCall O D) w calls w') : w.2.toInt ≤ w'.2.toInt := by
  refine Run.invariant (I := fun u => w.2.toInt ≤ u.2.toInt) (fun u call u' hu hcall => ?_) hrun
    (Int.le_refl _)
  obtain ⟨answer, hexec⟩ := hcall
  exact Int.le_trans hu (TimedStep.run_le hexec.2)

/-- A key that is accepted is long enough for the algorithm of the header. -/
theorem checkHmacKeyLen_ok {buf : Bytes} {keyLen : UInt32}
    (hchecked : s.checkNewKey .paramInvalid (some buf) keyLen = .ok)
    (hbuf : keyLen.toNat ≤ buf.length) (halg : s.tokenHeader.alg = s.options.algType) :
    checkHmacKeyLen s.tokenHeader.alg ((buf.take keyLen.toNat).length % 2 ^ 32) = .ok := by
  have hlength : (buf.take keyLen.toNat).length % 2 ^ 32 = keyLen.toNat := by
    rw [List.length_take_of_le hbuf]
    exact Nat.mod_eq_of_lt keyLen.toNat_lt
  have hlen : s.checkKeyLen keyLen = .ok := by
    by_contra hshort
    unfold Impl.checkNewKey at hchecked
    rw [if_pos hshort] at hchecked
    simp only [ite_self] at hchecked
    split at hchecked
    · cases hchecked
    · cases hchecked
  have hmin : ∀ bound : UInt32, (if keyLen < bound then JwtAuthRC.paramInvalid else .ok) = .ok →
      ¬ keyLen.toNat < bound.toNat := by
    intro bound hok hlt
    rw [if_pos (UInt32.lt_iff_toNat_lt.mpr hlt)] at hok
    cases hok
  rw [hlength, halg]
  unfold Impl.checkKeyLen at hlen
  unfold checkHmacKeyLen
  cases heq : s.options.algType with
  | hmacSha256 =>
    rw [heq] at hlen
    exact if_neg (hmin 32 hlen)
  | hmacSha384 =>
    rw [heq] at hlen
    exact if_neg (hmin 48 hlen)
  | hmacSha512 =>
    rw [heq] at hlen
    exact if_neg (hmin 64 hlen)
  | unknown =>
    rw [heq] at hlen
    cases hlen

namespace Rotation

variable (R : Rotation O D)

/-- The refresh comes late in a run from a fresh server. -/
theorem timely : Timely R.holder R.refreshing := by
  have hcreate : TimedCall O D (R.maker, R.asked) (.createToken R.request, R.trCreate)
      (R.maker, R.made) :=
    ⟨.token .ok R.created, Traces.bind_ret (fun _ => rfl) R.creates.1, R.creates.2⟩
  have hserves := R.serves.mono fun _ _ _ hcall => hcall.2
  exact timely_of_run R.epoch (R.run.append (.cons hcreate hserves))

/-- The token as it was made, and the key that signed it as it was kept. -/
structure Signed (cipher K sign : Bytes) : Prop where
  created : Created O R.maker R.request R.created R.trCreate K sign
  present : R.maker.keyPass.getKey = .ok cipher
  ne_nil : cipher ≠ []
  decrypt : D R.maker.options.keyManagerType jwtDefaultSymEncAlg cipher
    (int16ToU32 R.maker.options.domainId) = (.ok, K)

theorem signed : ∃ cipher K sign, R.Signed cipher K sign := by
  obtain ⟨K, sign, hcreated⟩ := wp_iff.mp (createToken_created O R.maker R.request) _ _ R.creates.1 rfl
  cases hcreated.keyOf with
  | external hmode => exact absurd (hmode.symm.trans R.mode) (by decide)
  | internal _ hcipher hne _ _ hdecrypt =>
    exact ⟨_, K, sign, hcreated, hcipher, hne, (TimedStep.run_decrypt R.creates.2 hdecrypt).symm⟩

/-- The refresh moves the key, and the manager can read the one in its place. -/
theorem moved {cipher K sign : Bytes} (h : R.Signed cipher K sign) : ∃ newCipher keyPass,
    R.holder.checkNewKey .paramInvalid (some R.newKey) R.keyLen = .ok ∧
      R.renewed = { R.holder with keyPass } ∧
      Refreshed R.holder.keyPass keyPass cipher newCipher ∧
      D R.holder.options.keyManagerType jwtDefaultSymEncAlg newCipher
        (int16ToU32 R.holder.options.domainId) = (.ok, R.newKey.take R.keyLen.toNat) := by
  obtain ⟨hchecked, buf, newCipher, keyPass, hbuf, hencrypted, hrenewed, hmoved⟩ :=
    wp_iff.mp (refreshEncryptionKey_refreshed (R.present.trans h.present) (some R.newKey) R.keyLen)
      _ _ R.refreshes.1 rfl
  obtain rfl := Option.some.inj hbuf
  exact ⟨newCipher, keyPass, hchecked, hrenewed, hmoved, R.decrypts newCipher hencrypted⟩

/-- The time of the key that was moved is its own, so it is not over before. -/
theorem oldKey_inTime {cipher newCipher : Bytes} {keyPass : JwtKeyPass} {t' : Int64}
    (hrenewed : R.renewed = { R.holder with keyPass })
    (hmoved : Refreshed R.holder.keyPass keyPass cipher newCipher) (hle : R.now ≤ t')
    (hintime : R.holder.keyPass.InTime R.holder.keyPass.newKeyCreateTimeSec t') :
    R.renewed.keyPass.expiredAt R.renewed.keyPass.oldKeyCreateTimeSec t' = false := by
  have htimely := wpIn_iff.mp (refreshEncryptionKey_timely R.timely (some R.newKey) R.keyLen)
    _ _ _ R.refreshes
  have hpast := htimely.keys.past
  have hordered := htimely.keys.ordered
  have hlater : R.refreshed.toInt ≤ t'.toInt :=
    Int.le_trans (TimedCall.run_le (R.keeps.mono fun _ _ _ hcall => hcall.2))
      (Int64.le_iff_toInt_le.mp hle)
  refine (htimely.keys.expiredAt_iff (by omega) hlater).mpr ?_
  rw [hrenewed]
  unfold JwtKeyPass.InTime at hintime ⊢
  rwa [hmoved.oldTime, hmoved.hours]

/-- The header was made before anything is asked of the token. -/
theorem header_past {t' : Int64} (hstarted : R.maker.started = true) (hle : R.now ≤ t') :
    R.maker.tokenHeader.createTimeSec.toNat ≤ t'.toInt := by
  have hpast := (headed_of_run R.epoch R.run).past hstarted
  have hmade := TimedStep.run_le R.creates.2
  have hserved := TimedCall.run_le (R.serves.mono fun _ _ _ hcall => hcall.2)
  have hrefreshed := TimedStep.run_le R.refreshes.2
  have hkept := TimedCall.run_le (R.keeps.mono fun _ _ _ hcall => hcall.2)
  have hlast := Int64.le_iff_toInt_le.mp hle
  dsimp only at hserved hkept
  omega

/-- **What becomes of the token**, while the key that signed it is in its time. -/
theorem validateToken_eq {t' : Int64} (htotal : ∀ alg key input, O.hmac alg key input ≠ none)
    (hle : R.now ≤ t') (hintime : R.holder.keyPass.InTime R.holder.keyPass.newKeyCreateTimeSec t') :
    (R.keeper.validateToken O R.created.validateOptions).eval (atTime D t') =
      .ret (if jwtInputLengthMax < tokenLength R.maker.tokenHeader R.request.payload.length + 1 then
          .paramInvalid
        else if R.maker.tokenHeader.OutOfTime t' then .tokenExpired
        else .ok) := by
  obtain ⟨cipher, K, sign, hsigned⟩ := R.signed
  obtain ⟨newCipher, keyPass, hchecked, hrenewed, hmoved, hnewDecrypt⟩ := R.moved hsigned
  have hstarted := (token_of_checkCreateTokenParams hsigned.created.params).1
  have hholder := sameServer_of_run hstarted R.serves
  obtain ⟨halg, hvalue⟩ := (headed_of_run R.epoch R.run).alg hstarted
  have hrenewedStarted : R.renewed.started = true := by
    rw [hrenewed]
    exact hholder.started
  have hoptions : R.renewed.options = R.maker.options := by
    rw [hrenewed]
    exact hholder.options
  have hkeyPass : R.renewed.keyPass = keyPass := by rw [hrenewed]
  -- the new key, which is tried first, does not fail either
  have hheaderAlg : R.holder.tokenHeader.alg = R.holder.options.algType := by
    rw [hholder.header, hholder.options]
    exact halg
  obtain ⟨newSign, hnewSign⟩ := calSignB64_signs htotal (signedPart_ne_nil R.maker R.request.payload)
    (checkHmacKeyLen_ok hchecked R.buffer hheaderAlg)
  rw [eq_of_run hrenewedStarted R.keeps]
  refine validateToken_eval_of_signature hsigned.created hrenewedStarted (halg ▸ hvalue)
    (R.header_past hstarted hle) ?_
  rw [hholder.header] at hnewSign
  rw [hholder.options] at hnewDecrypt
  refine expectedSignature_eval_old (hoptions ▸ R.mode) (hkeyPass ▸ hmoved.key) hmoved.ne_nil
    (hkeyPass ▸ hmoved.oldKey) hsigned.ne_nil (R.oldKey_inTime hrenewed hmoved hle hintime) ?_ ?_
    hnewSign hsigned.created.signed
  · rw [hoptions]
    exact hnewDecrypt
  · rw [hoptions]
    exact hsigned.decrypt

/-- **A token outlives the refresh of its key.** While the key that signed it is in its time, the
token is accepted if and only if its own time is not over and it is not too long to be read. -/
theorem validateToken_iff {t' : Int64} (htotal : ∀ alg key input, O.hmac alg key input ≠ none)
    (hle : R.now ≤ t') (hintime : R.holder.keyPass.InTime R.holder.keyPass.newKeyCreateTimeSec t') :
    (R.keeper.validateToken O R.created.validateOptions).eval (atTime D t') = .ret .ok ↔
      ¬ R.maker.tokenHeader.OutOfTime t' ∧
        tokenLength R.maker.tokenHeader R.request.payload.length + 1 ≤ jwtInputLengthMax := by
  rw [R.validateToken_eq htotal hle hintime]
  by_cases hlong : jwtInputLengthMax < tokenLength R.maker.tokenHeader R.request.payload.length + 1
  · rw [if_pos hlong]
    exact ⟨nofun, fun h => absurd h.2 (by omega)⟩
  rw [if_neg hlong]
  by_cases hold : R.maker.tokenHeader.OutOfTime t'
  · rw [if_pos hold]
    exact ⟨nofun, fun h => absurd hold h.1⟩
  · rw [if_neg hold]
    exact ⟨fun _ => ⟨hold, by omega⟩, fun _ => rfl⟩

end Rotation

/-! ## A key renewed -/

/-- A digest that tells keys apart by their first byte. -/
def headHmac : OpensslHmac where
  hmac alg key _ := some (List.replicate (getEstimateHmacOutLen alg) (key.headD 0))
  length_eq alg _ _ digest h := by
    obtain rfl := Option.some.inj h
    exact List.length_replicate

def renewedKey : Bytes := List.replicate 32 66

/-- A key manager that has encrypted two keys. -/
def twoKeys : Decryption := fun _ _ cipher _ =>
  (.ok, if cipher = ascii "cipher" then sampleKey else renewedKey)

/-- The server after a refresh in the same second. -/
def renewedServer (now : Int64) : Impl :=
  { sampleServer now with
    keyPass := { key := some (ascii "renewed"), keyLen := 7, newKeyCreateTimeSec := now.toUInt64,
                 oldKey := some (ascii "cipher"), oldKeyLen := 6,
                 oldKeyCreateTimeSec := now.toUInt64 } }

def sampleRefresh (now : Int64) : List JwtEvent :=
  [⟨.newChars 6, true⟩, ⟨.clockGettime, now⟩,
    ⟨.encrypt .openbao jwtDefaultSymEncAlg renewedKey 0, (.ok, ascii "renewed")⟩,
    ⟨.newChars 7, true⟩]

theorem renewed_of_sampleRefresh {now : Int64} {type : KeyManagerTy} {alg : CryptoSymAlg} {d : Nat}
    {plaintext cipher : Bytes} (h : EncryptedTo (sampleRefresh now) type alg d plaintext cipher) :
    cipher = ascii "renewed" := by
  unfold EncryptedTo sampleRefresh at h
  simp only [List.mem_cons, Sigma.mk.injEq, reduceCtorEq, false_and, false_or, JwtCall.encrypt.injEq,
    heq_eq_eq, Prod.mk.injEq, true_and, List.not_mem_nil, or_false] at h
  exact h.2

/-- A token made and its key renewed within a second of the start. -/
def sampleRotation {request created : CDFDistAuthCreateTokenOptions}
    (hcreated : ((keyedServer 1700000000).createToken headHmac request).eval
      (atTime twoKeys 1700000000) = .ret (.ok, created)) : Rotation headHmac twoKeys where
  maker := keyedServer 1700000000
  holder := keyedServer 1700000000
  renewed := renewedServer 1700000000
  keeper := renewedServer 1700000000
  newKey := renewedKey
  keyLen := 32
  request
  created
  trRefresh := sampleRefresh 1700000000
  epoch := by decide
  run := keyedServer_run _ _ _
  mode := rfl
  creates := ⟨traces_of_eval hcreated, TimedStep.run_atTime fun _ => mem_runWith⟩
  serves := .nil _
  present := rfl
  buffer := by decide
  refreshes := ⟨.call (.call (.call (.call (.ret _)))),
    .cons rfl (.cons ⟨Int64.le_refl _, rfl⟩ (.cons rfl (.cons rfl (.nil _))))⟩
  decrypts cipher hencrypted := by
    obtain rfl := renewed_of_sampleRefresh hencrypted
    decide
  keeps := .nil _

theorem headHmac_total (alg : CryptoHmacAlg) (key input : Bytes) :
    headHmac.hmac alg key input ≠ none := nofun

theorem keyedServer_inTime : (keyedServer 1700000000).keyPass.InTime
    (keyedServer 1700000000).keyPass.newKeyCreateTimeSec 1700000060 := by
  unfold JwtKeyPass.InTime
  decide

/-- A minute after the refresh the token is accepted still. -/
theorem validateToken_iff_renewed : ∃ R : Rotation headHmac twoKeys,
    R.renewed.keyPass.key ≠ R.maker.keyPass.key ∧
      (R.keeper.validateToken headHmac R.created.validateOptions).eval (atTime twoKeys 1700000060) =
        .ret .ok := by
  have hsome : (createdToken (((keyedServer 1700000000).createToken headHmac sampleRequest).eval
      (atTime twoKeys 1700000000))).isSome = true := by decide +kernel
  obtain ⟨created, hcreated⟩ := Option.isSome_iff_exists.mp hsome
  have hlater : (1700000000 : Int64) ≤ 1700000060 := by decide
  have hyoung : ¬ (keyedServer 1700000000).tokenHeader.OutOfTime 1700000060 := by
    unfold JwtTokenHeader.OutOfTime
    decide
  have hshort : tokenLength (keyedServer 1700000000).tokenHeader sampleRequest.payload.length + 1 ≤
      jwtInputLengthMax := by decide
  have hother : (renewedServer 1700000000).keyPass.key ≠ (keyedServer 1700000000).keyPass.key := by
    decide
  refine ⟨sampleRotation (createdToken_eq_some hcreated), hother, ?_⟩
  exact ((sampleRotation (createdToken_eq_some hcreated)).validateToken_iff headHmac_total hlater
    keyedServer_inTime).mpr ⟨hyoung, hshort⟩

/-! ## A token too long to be read -/

/-- The header of a token is not empty. -/
theorem header_ne_nil (h : JwtTokenHeader) : base64Encode h.text ≠ [] := by
  have htext := text_length_le h
  have hpos := List.length_pos_iff.mpr (text_ne_nil h)
  intro hnil
  have hlength : (base64Encode h.text).length = _ := base64Encode_length (by omega)
  rw [hnil, List.length_nil] at hlength
  omega

theorem createTokenFromExternalKey_eval {K input sign : Bytes}
    (hsign : calSignB64 O s.tokenHeader.alg (s.signedPart input) K = .ok (.ok sign)) :
    s.createTokenFromExternalKey O K input =
      .ok (.ok (s.signedPart input ++ jwtSepDot ++ sign)) := by
  rw [createTokenFromExternalKey_eq K input (header_ne_nil s.tokenHeader), hsign]
  rfl

/-- What is signed under a present key that is in order. -/
theorem createInnerToken_eval {opt : CDFDistAuthCreateTokenOptions} {cipher K sign : Bytes}
    (hmode : s.options.keyTransferMode = .internalKey)
    (hkey : s.keyPass.getKey = .ok cipher) (hne : cipher ≠ [])
    (hvalid : s.keyPass.expiredAt s.keyPass.newKeyCreateTimeSec t = false)
    (hD : D s.options.keyManagerType jwtDefaultSymEncAlg cipher (int16ToU32 s.options.domainId) =
      (.ok, K))
    (hsign : calSignB64 O s.tokenHeader.alg (s.signedPart opt.payload) K = .ok (.ok sign)) :
    (s.createInnerToken O opt).eval (atTime D t) =
      .ret (.ok (s.signedPart opt.payload ++ jwtSepDot ++ sign)) := by
  have hanswer : atTime D t (.decrypt s.options.keyManagerType jwtDefaultSymEncAlg cipher
      (int16ToU32 s.options.domainId)) = (.ok, K) := hD
  have hkeyValid : (Impl.nullOrExpired cipher s.keyPass.isExpired).eval (atTime D t) = .ret false := by
    unfold Impl.nullOrExpired JwtKeyPass.isExpired
    rw [if_neg hne, ← hvalid]
    rfl
  unfold Impl.createInnerToken
  rw [hmode]
  show (s.createTokenFromInternalKey O opt.payload).eval _ = _
  unfold Impl.createTokenFromInternalKey
  rw [hkey, eval_bind (a := cipher) rfl, eval_bind hkeyValid, if_neg (by decide),
    eval_perform_bind, hanswer, if_neg (by simp), createTokenFromExternalKey_eval hsign]
  rfl

/-- `CreateToken` where the token has room. -/
theorem createToken_eval {opt : CDFDistAuthCreateTokenOptions} {inner : Bytes}
    (hparams : s.checkCreateTokenParams opt = .ok)
    (hinner : (s.createInnerToken O opt).eval (atTime D t) = .ret (.ok inner))
    (hroom : inner.length + 1 ≤ opt.tokenLen.toNat) (hbound : opt.tokenLen.toNat < 2 ^ 31) :
    ∃ created, (s.createToken O opt).eval (atTime D t) = .ret (.ok, created) := by
  have hpush : (inner ++ [0]).length = inner.length + 1 := List.length_append
  have hlen : (UInt32.ofNat inner.length).toNat = inner.length :=
    UInt32.toNat_ofNat_of_lt' (show inner.length < 2 ^ 32 by omega)
  have hcopy : memcpyS (inner.length + 1) (inner.length + 1) = true := by
    simp only [memcpyS, Bool.and_eq_true, decide_eq_true_eq]
    omega
  unfold Impl.createToken
  dsimp only
  rw [if_neg (not_not.mpr hparams), eval_bind hinner]
  dsimp only
  rw [hpush, Nat.add_sub_cancel, if_neg (by omega), hlen, if_neg (not_not.mpr hcopy)]
  exact ⟨_, rfl⟩

/-- A request with a payload of `n` letters. -/
def longRequest (n : Nat) : CDFDistAuthCreateTokenOptions where
  input := some (List.replicate n 65 ++ [0])
  inputLen := UInt32.ofNat (n + 1)
  token := some (List.replicate 120000000 0)
  tokenLen := 120000000

theorem longRequest_inputLen {n : Nat} (hn : n ≤ 80000000) :
    (longRequest n).inputLen.toNat = n + 1 :=
  UInt32.toNat_ofNat_of_lt' (show n + 1 < 2 ^ 32 by omega)

theorem longRequest_payload {n : Nat} (hn : n ≤ 80000000) :
    (longRequest n).payload.length = n + 1 := by
  unfold CDFDistAuthCreateTokenOptions.payload
  rw [longRequest_inputLen hn]
  show ((List.replicate n (65 : UInt8) ++ [0]).take (n + 1)).length = n + 1
  simp

/-- `CreateToken` makes a token of it. -/
theorem longRequest_created {n : Nat} (hn : n ≤ 80000000) :
    ∃ created, ((keyedServer 1700000000).createToken headHmac (longRequest n)).eval
      (atTime twoKeys 1700000000) = .ret (.ok, created) := by
  have hinputLen := longRequest_inputLen hn
  have hparams : (keyedServer 1700000000).checkCreateTokenParams (longRequest n) = .ok := by
    have hzero : (0 : UInt8) ∉ List.replicate n (65 : UInt8) := fun h => by
      have heq := List.eq_of_mem_replicate h
      exact absurd heq (by decide)
    have hterm : strnlen (List.replicate n (65 : UInt8) ++ [0]) (n + 1) = n := by
      have hwritten := strnlen_written hzero []
      rw [List.length_replicate] at hwritten
      simpa [writeAt] using hwritten
    have hne : (longRequest n).inputLen ≠ 0 := fun h => by
      rw [h] at hinputLen
      exact absurd hinputLen (Nat.succ_ne_zero n).symm
    have hsome : ¬ ((longRequest n).input = none ∨ (longRequest n).inputLen = 0 ∨
        (longRequest n).token = none ∨ (longRequest n).tokenLen = 0) := by
      intro hboth
      obtain h | h | h | h := hboth
      · cases h
      · exact hne h
      · cases h
      · exact absurd (show (120000000 : UInt32) = 0 from h) (by decide)
    unfold Impl.checkCreateTokenParams
    rw [if_neg (by decide), if_neg hsome, hinputLen]
    show (if strnlen (List.replicate n (65 : UInt8) ++ [0]) (n + 1) ≠ n + 1 - 1 then _ else _) = _
    rw [hterm, if_neg (by simp), if_neg (by unfold jwtInputLengthMax; omega)]
  have hkeyLen : checkHmacKeyLen (keyedServer 1700000000).tokenHeader.alg
      (sampleKey.length % 2 ^ 32) = .ok := by decide
  obtain ⟨sign, hsign⟩ := calSignB64_signs headHmac_total
    (signedPart_ne_nil (keyedServer 1700000000) (longRequest n).payload) hkeyLen
  have hlength := tokenLength_eq (s := keyedServer 1700000000) (payload_length_lt (longRequest n))
    (calSignB64_ok hsign).2.2.2
  rw [longRequest_payload hn] at hlength
  have htokenLen : (longRequest n).tokenLen.toNat = 120000000 := rfl
  have hinner := createInnerToken_eval (D := twoKeys) (t := 1700000000) rfl rfl (by decide) (by decide)
    (by decide) hsign
  refine createToken_eval hparams hinner ?_ (by omega)
  rw [hlength]
  have htext := text_length_le (keyedServer 1700000000).tokenHeader
  have halg := getEstimateHmacOutLen_le (keyedServer 1700000000).tokenHeader.alg
  unfold tokenLength
  omega

/-- **A token made and not accepted**: the limit is on what `ValidateToken` reads. -/
theorem long_token_refused : ¬ ∀ (O : OpensslHmac) (D : Decryption) (R : Rotation O D) (t' : Int64),
    (∀ alg key input, O.hmac alg key input ≠ none) → R.now ≤ t' →
    R.holder.keyPass.InTime R.holder.keyPass.newKeyCreateTimeSec t' →
    ¬ R.maker.tokenHeader.OutOfTime t' →
    (R.keeper.validateToken O R.created.validateOptions).eval (atTime D t') = .ret .ok := by
  intro hall
  have hn : 80000000 ≤ 80000000 := Nat.le_refl _
  obtain ⟨created, hcreated⟩ := longRequest_created hn
  have hlater : (1700000000 : Int64) ≤ 1700000060 := by decide
  have hfresh : ¬ (keyedServer 1700000000).tokenHeader.OutOfTime 1700000060 := by decide
  have hok := hall _ _ (sampleRotation hcreated) 1700000060 headHmac_total hlater
    keyedServer_inTime hfresh
  rw [(sampleRotation hcreated).validateToken_eq headHmac_total hlater keyedServer_inTime] at hok
  have hlong : jwtInputLengthMax <
      tokenLength (keyedServer 1700000000).tokenHeader (longRequest 80000000).payload.length + 1 := by
    rw [longRequest_payload hn]
    unfold jwtInputLengthMax tokenLength
    omega
  have hrefused : (if jwtInputLengthMax < tokenLength (keyedServer 1700000000).tokenHeader
      (longRequest 80000000).payload.length + 1 then JwtAuthRC.paramInvalid
    else if (keyedServer 1700000000).tokenHeader.OutOfTime 1700000060 then .tokenExpired
    else .ok) = .ok := Outcome.ret.inj hok
  rw [if_pos hlong] at hrefused
  cases hrefused

end CdfCrypto.Jwt
