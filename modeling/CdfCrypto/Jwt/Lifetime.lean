import CdfCrypto.Jwt.Format
import CdfCrypto.Jwt.Independence

/-!
# How long a token lives

`Start` makes the header, and with it the time every token of the server will carry: a token
created later is taken for one created at the start. So a token that `CreateToken` made at `t`
is accepted until the server is `tokenExpireMinutes` old, not until the token is
(`validateToken_created_iff`), and never when its base64 has outgrown the limit on what
`ValidateToken` reads.
-/

namespace CdfCrypto.Jwt

open Lib KeyManagement

/-! ## What `CreateToken` made -/

/-- The bytes of the payload. -/
def CDFDistAuthCreateTokenOptions.payload (opt : CDFDistAuthCreateTokenOptions) : Bytes :=
  (opt.input.getD []).take opt.inputLen.toNat

/-- The part of a token that is signed. -/
def Impl.signedPart (s : Impl) (input : Bytes) : Bytes :=
  stripPad (base64Encode s.tokenHeader.text) ++ jwtSepDot ++ base64Encode input

theorem signedPart_ne_nil (s : Impl) (input : Bytes) : s.signedPart input ≠ [] := by
  unfold Impl.signedPart jwtSepDot
  simp [ascii]

/-- The key a token is signed with: the caller's, or the one the manager decrypts the present
key to while that is not expired. -/
inductive SignedWith (s : Impl) (key : Option Bytes) (keyLen : UInt32) (tr : List JwtEvent)
    (K : Bytes) : Prop
  | external {buf : Bytes} (hmode : s.options.keyTransferMode = .externalKey)
      (hkey : key = some buf) (hlen : keyLen ≠ 0)
      (hterm : strnlen buf keyLen.toNat = keyLen.toNat - 1) (hK : K = buf.take keyLen.toNat)
  | internal {cipher : Bytes} {now : Int64} (hmode : s.options.keyTransferMode = .internalKey)
      (hcipher : s.keyPass.getKey = .ok cipher) (hne : cipher ≠ [])
      (hnow : ⟨.clockGettime, now⟩ ∈ tr)
      (hvalid : s.keyPass.expiredAt s.keyPass.newKeyCreateTimeSec now = false)
      (hdecrypt : ⟨.decrypt s.options.keyManagerType jwtDefaultSymEncAlg cipher
        (int16ToU32 s.options.domainId), (.ok, K)⟩ ∈ tr)

/-- What an OK of `CreateToken` means. -/
structure Created (O : OpensslHmac) (s : Impl) (opt opt' : CDFDistAuthCreateTokenOptions)
    (tr : List JwtEvent) (K sign : Bytes) : Prop where
  params : s.checkCreateTokenParams opt = .ok
  keyOf : SignedWith s opt.key opt.keyLen tr K
  signed : calSignB64 O s.tokenHeader.alg (s.signedPart opt.payload) K = .ok (.ok sign)
  fits : (s.signedPart opt.payload ++ jwtSepDot ++ sign).length + 1 < 2 ^ 31
  tokenLen : opt'.tokenLen.toNat = (s.signedPart opt.payload ++ jwtSepDot ++ sign).length
  token : opt'.token = opt.token.map fun buf =>
    writeAt buf 0 (s.signedPart opt.payload ++ jwtSepDot ++ sign ++ [0])
  same : opt'.key = opt.key ∧ opt'.keyLen = opt.keyLen

/-- A token is what is signed and the signature. -/
theorem createTokenFromExternalKey_eq {O : OpensslHmac} {s : Impl} (key input : Bytes)
    (hheader : base64Encode s.tokenHeader.text ≠ []) :
    s.createTokenFromExternalKey O key input =
      (calSignB64 O s.tokenHeader.alg (s.signedPart input) key).map fun result =>
        result.map fun signB64 => s.signedPart input ++ jwtSepDot ++ signB64 := by
  unfold Impl.createTokenFromExternalKey Impl.signedPart
  dsimp only
  rw [if_neg hheader, unpadded_eq hheader]
  dsimp only [bind, Except.bind]
  cases calSignB64 O s.tokenHeader.alg
    (stripPad (base64Encode s.tokenHeader.text) ++ jwtSepDot ++ base64Encode input) key with
  | error x => rfl
  | ok result =>
    cases result with
    | error rc => rfl
    | ok signB64 => rfl

theorem createTokenFromExternalKey_ok {O : OpensslHmac} {s : Impl} {key input inner : Bytes}
    (h : s.createTokenFromExternalKey O key input = .ok (.ok inner)) :
    ∃ sign, calSignB64 O s.tokenHeader.alg (s.signedPart input) key = .ok (.ok sign) ∧
      inner = s.signedPart input ++ jwtSepDot ++ sign := by
  by_cases hnil : base64Encode s.tokenHeader.text = []
  · unfold Impl.createTokenFromExternalKey at h
    dsimp only at h
    rw [if_pos hnil] at h
    cases h
  rw [createTokenFromExternalKey_eq key input hnil] at h
  cases hsign : calSignB64 O s.tokenHeader.alg (s.signedPart input) key with
  | error x =>
    rw [hsign] at h
    cases h
  | ok result =>
    rw [hsign] at h
    cases result with
    | error rc => cases h
    | ok sign => exact ⟨sign, rfl, (Except.ok.inj (Except.ok.inj h)).symm⟩

/-- What `createInnerToken` comes to, in either mode. -/
def InnerCreated (O : OpensslHmac) (s : Impl) (opt : CDFDistAuthCreateTokenOptions)
    (tr : List JwtEvent) : Outcome Fault (Except JwtAuthRC Bytes) → Prop
  | .ret (.ok inner) => ∃ K sign, SignedWith s opt.key opt.keyLen tr K ∧
    calSignB64 O s.tokenHeader.alg (s.signedPart opt.payload) K = .ok (.ok sign) ∧
    inner = s.signedPart opt.payload ++ jwtSepDot ++ sign
  | .ret (.error rc) => rc ≠ .ok
  | .halt _ => True

/-- The end of both modes, once there is a key. -/
theorem innerCreated_of_key {O : OpensslHmac} {s : Impl} {opt : CDFDistAuthCreateTokenOptions}
    {tr : List JwtEvent} {K : Bytes} (hkey : SignedWith s opt.key opt.keyLen tr K)
    {created : Except JwtAuthRC Bytes}
    (hcreated : s.createTokenFromExternalKey O K opt.payload = .ok created) :
    InnerCreated O s opt tr (.ret (created.mapError fun _ => .createTokenFail)) := by
  cases created with
  | error rc => exact fun h => by cases h
  | ok inner =>
    obtain ⟨sign, hsign, hinner⟩ := createTokenFromExternalKey_ok hcreated
    exact ⟨K, sign, hkey, hsign, hinner⟩

theorem createInnerToken_created (O : OpensslHmac) (s : Impl)
    (opt : CDFDistAuthCreateTokenOptions) :
    wp (s.createInnerToken O opt) (InnerCreated O s opt) := by
  unfold Impl.createInnerToken
  dsimp only
  split
  next hmode =>
    unfold Impl.createTokenFromInternalKey
    refine wp_ofExcept_bind (fun cipher hcipher => ?_) fun _ _ => trivial
    unfold Impl.nullOrExpired
    by_cases hne : cipher = []
    · rw [if_pos hne]
      exact fun h => by cases h
    rw [if_neg hne]
    unfold JwtKeyPass.isExpired
    intro now
    show wp (if _ then _ else _) _
    split
    · exact fun h => by cases h
    next hvalid =>
    refine wp_perform_bind.mpr fun result => ?_
    split
    · exact fun h => by cases h
    next hrc =>
    refine wp_ofExcept_bind (fun created hcreated => ?_) fun _ _ => trivial
    have hresult : result = (.ok, result.2) := Prod.ext (not_not.mp hrc) rfl
    refine innerCreated_of_key (.internal hmode hcipher hne List.mem_cons_self ?_ ?_) hcreated
    · simpa using hvalid
    · rw [hresult]
      simp
  next hmode =>
    split
    · exact fun h => by cases h
    next buf hkey =>
    split
    · exact fun h => by cases h
    next hlen =>
    split
    · exact fun h => by cases h
    next hterm =>
    refine wp_ofExcept_bind (fun created hcreated => ?_) fun _ _ => trivial
    exact innerCreated_of_key (.external hmode hkey hlen (not_not.mp hterm) rfl) hcreated
  · exact fun h => by cases h

/-- An OK of `CreateToken`, in its outcome. -/
def TokenCreated (O : OpensslHmac) (s : Impl) (opt : CDFDistAuthCreateTokenOptions)
    (tr : List JwtEvent) : Outcome Fault (JwtAuthRC × CDFDistAuthCreateTokenOptions) → Prop
  | .ret (rc, opt') => rc = .ok → ∃ K sign, Created O s opt opt' tr K sign
  | .halt _ => True

/-- **What `CreateToken` made** when it returns OK. -/
theorem createToken_created (O : OpensslHmac) (s : Impl) (opt : CDFDistAuthCreateTokenOptions) :
    wp (s.createToken O opt) (TokenCreated O s opt) := by
  unfold Impl.createToken
  dsimp only
  split
  next hparams => exact fun hrc => absurd hrc hparams
  next hparams =>
  refine wp_bind_of (createInnerToken_created O s opt) (fun tr result hinner => ?_)
    fun _ _ _ => trivial
  cases result with
  | error rc =>
    have hne : rc ≠ .ok := hinner
    show rc = .ok → _
    exact fun hrc => absurd hrc hne
  | ok inner =>
    obtain ⟨K, sign, hkey, hsign, hinner⟩ := hinner
    have hpush : (inner ++ [0]).length = inner.length + 1 := List.length_append
    dsimp only
    rw [hpush, Nat.add_sub_cancel]
    split
    · exact fun hrc => by cases hrc
    split
    · exact fun hrc => by cases hrc
    next hcopy =>
    -- the copy's bound is far below the 32 bits of the length
    have hbound : inner.length + 1 < 2 ^ 31 := by
      simp only [memcpyS, Bool.and_eq_true, decide_eq_true_eq, not_not] at hcopy
      omega
    have hlen : (UInt32.ofNat inner.length).toNat = inner.length :=
      UInt32.toNat_ofNat_of_lt' (show inner.length < 2 ^ 32 by omega)
    refine fun _ => ⟨K, sign, not_not.mp hparams, ?_, hsign, ?_, ?_, ?_, rfl, rfl⟩
    · simpa using hkey
    · rw [← hinner]
      exact hbound
    · rw [← hinner]
      exact hlen
    · rw [← hinner]

/-! ## What `ValidateToken` makes of it -/

/-- The key manager's decryption, as a function. -/
abbrev Decryption := KeyManagerTy → CryptoSymAlg → Bytes → Nat → CryptionRC × Bytes

/-- The answers at one time: the clock shows it, and the key manager decrypts. -/
def atTime (D : Decryption) (now : Int64) : (c : JwtCall) → c.Reply
  | .clockGettime => now
  | .newChars _ => true
  | .accessPath _ => true
  | .init _ _ _ _ => .ok .ok
  | .unInit _ => .ok
  | .encrypt _ _ _ _ => (.error, [])
  | .decrypt type alg ciphertext d => D type alg ciphertext d

variable {O : OpensslHmac} {D : Decryption} {s s' : Impl}

/-- The options with which a created token is validated. -/
def CDFDistAuthCreateTokenOptions.validateOptions (opt : CDFDistAuthCreateTokenOptions) :
    CDFDistAuthValidateTokenOptions where
  key := opt.key
  keyLen := opt.keyLen
  token := opt.token
  tokenLen := opt.tokenLen + 1

/-- No piece of a token holds a NUL. -/
theorem zero_not_mem_token {message sign : Bytes} {alg : CryptoHmacAlg} {K : Bytes}
    (input : Bytes) (hsign : Signs O alg K message sign) :
    (0 : UInt8) ∉ s.signedPart input ++ jwtSepDot ++ sign := by
  have hheader := not_mem_stripPad (b := 0) (by decide) (by decide) s.tokenHeader.text
  have hpayload := not_mem_base64Encode (b := 0) (by decide) (by decide) input
  have hsign := hsign.not_mem (b := 0) (by decide) (by decide)
  have hdot : (0 : UInt8) ∉ jwtSepDot := by decide
  simp [Impl.signedPart, hheader, hpayload, hsign, hdot]

/-- The age of a token from this century fits 64 bits, and so does its limit. -/
theorem TokenInfo.expiredAt_eq {info : TokenInfo} {now : Int} (hmin : -32768 ≤ info.expireTimeMinute)
    (hmax : info.expireTimeMinute ≤ 32767) (hcreate : 0 ≤ info.createTimeSec)
    (hle : info.createTimeSec ≤ now) (hnow : now < 2 ^ 63) :
    info.expiredAt now = .ok (decide (info.expireTimeMinute ≠ -1 ∧
      info.expireTimeMinute * 60 < now - info.createTimeSec)) := by
  have hbelow : ¬ jwtExpireTimeMaxMinute < info.expireTimeMinute := by
    unfold jwtExpireTimeMaxMinute
    omega
  unfold TokenInfo.expiredAt
  rw [if_neg hbelow]
  by_cases hnever : info.expireTimeMinute = -1
  · rw [if_neg fun h => h.1 hnever, decide_eq_false fun h => h.1 hnever]
  rw [if_pos ⟨hnever, hle⟩]
  have hage : subInt64 now info.createTimeSec = .ok (now - info.createTimeSec) := if_pos (by omega)
  have hlimit : mulInt64 info.expireTimeMinute jwtSecondsPerMinute =
      .ok (info.expireTimeMinute * 60) := by
    unfold mulInt64 jwtSecondsPerMinute
    exact if_pos (by omega)
  rw [hage, hlimit]
  show Except.ok (decide _) = Except.ok (decide _)
  rw [decide_eq_decide.mpr (and_iff_right hnever)]

/-- A token of this header is past its time. -/
def JwtTokenHeader.OutOfTime (h : JwtTokenHeader) (now : Int64) : Prop :=
  h.expireTimeMinute.toInt ≠ -1 ∧ h.expireTimeMinute.toInt * 60 < now.toInt - h.createTimeSec.toNat

instance (h : JwtTokenHeader) (now : Int64) : Decidable (h.OutOfTime now) :=
  inferInstanceAs (Decidable (_ ∧ _))

/-- The check of a header that the server wrote itself. -/
theorem checkTokenExpiredTime_eval {h : JwtTokenHeader} {now : Int64}
    (halg : h.alg.isValue = true) (hcreate : h.createTimeSec.toNat ≤ now.toInt) :
    (checkTokenExpiredTime (stripPad (base64Encode h.text))).eval (atTime D now) =
      .ret (if h.OutOfTime now then .error .tokenExpired else .ok h.alg) := by
  have hnow := Int64.toInt_lt now
  have hlow := Int16.le_toInt h.expireTimeMinute
  have hhigh := Int16.toInt_lt h.expireTimeMinute
  have hlen := text_length_le h
  unfold checkTokenExpiredTime
  rw [decode_stripPad (by omega)]
  dsimp only
  rw [if_neg (text_ne_nil h), getInfoByToken_text halg (by omega)]
  dsimp only
  rw [eval_perform_bind]
  show (Prog.ofExcept (TokenInfo.expiredAt _ now.toInt) >>= _).eval _ = _
  have hmin : -32768 ≤ h.expireTimeMinute.toInt := by omega
  have hmax : h.expireTimeMinute.toInt ≤ 32767 := by omega
  rw [TokenInfo.expiredAt_eq hmin hmax (Int.natCast_nonneg _) hcreate hnow]
  show Outcome.ret (if decide (h.OutOfTime now) = true then _ else _) = _
  simp only [decide_eq_true_eq]

/-- The present keys of both are there, and decrypt to the same. -/
def SameKey (D : Decryption) (s s' : Impl) : Prop :=
  ∃ cipher cipher', s.keyPass.getKey = .ok cipher ∧ s'.keyPass.getKey = .ok cipher' ∧ cipher' ≠ [] ∧
    D s.options.keyManagerType jwtDefaultSymEncAlg cipher (int16ToU32 s.options.domainId) =
      D s.options.keyManagerType jwtDefaultSymEncAlg cipher' (int16ToU32 s.options.domainId)

/-- What a server must have kept for a token made in `s`: in `INTERNAL_KEY` mode the key, which
is not expired. -/
def KeepsKey (D : Decryption) (s s' : Impl) (now : Int64) : Prop :=
  s.options.keyTransferMode = .internalKey →
    SameKey D s s' ∧ s'.keyPass.expiredAt s'.keyPass.newKeyCreateTimeSec now = false

/-- A signature under a key that the manager decrypts. -/
theorem checkCalculateSignature_eval {alg : CryptoHmacAlg} {cipher K sign message : Bytes}
    {t : Int64} (hne : cipher ≠ [])
    (hD : D s.options.keyManagerType jwtDefaultSymEncAlg cipher (int16ToU32 s.options.domainId) =
      (.ok, K))
    (hsign : calSignB64 O alg message K = .ok (.ok sign)) :
    (s.checkCalculateSignature O alg cipher message).eval (atTime D t) = .ret (.ok sign) := by
  have hanswer : atTime D t (.decrypt s.options.keyManagerType jwtDefaultSymEncAlg cipher
      (int16ToU32 s.options.domainId)) = (.ok, K) := hD
  unfold Impl.checkCalculateSignature
  rw [if_neg hne, eval_perform_bind, hanswer, if_neg (by simp), hsign]
  rfl

/-- **The signature is found again** with the key that made it. -/
theorem expectedSignature_eval {opt : CDFDistAuthValidateTokenOptions} {alg : CryptoHmacAlg}
    {tr : List JwtEvent} {K sign message : Bytes} {t t' : Int64}
    (hkey : SignedWith s opt.key opt.keyLen tr K) (htr : ∀ ev ∈ tr, ev = ⟨ev.1, atTime D t ev.1⟩)
    (hoptions : s'.options = s.options) (hkeeps : KeepsKey D s s' t')
    (hsign : calSignB64 O alg message K = .ok (.ok sign)) :
    (s'.expectedSignature O opt alg sign message).eval (atTime D t') = .ret (.ok sign) := by
  unfold Impl.expectedSignature
  cases hkey with
  | external hmode hopt hlen hterm hK =>
    rw [if_neg (by rw [hoptions, hmode]; decide), hopt]
    dsimp only
    rw [if_neg hlen, if_neg (not_not.mpr hterm), ← hK, hsign]
    rfl
  | @internal cipher now hmode hcipher _ hnow _ hdecrypt =>
    obtain ⟨⟨cipher₁, cipher', hcipher₁, hcipher', hne, hsame⟩, hvalid⟩ := hkeeps hmode
    obtain rfl : cipher₁ = cipher := Except.ok.inj (hcipher₁.symm.trans hcipher)
    -- the manager decrypts as it did when the token was made
    have hD : D s'.options.keyManagerType jwtDefaultSymEncAlg cipher'
        (int16ToU32 s'.options.domainId) = (.ok, K) := by
      have heq := htr _ hdecrypt
      simp only [Sigma.mk.injEq, heq_eq_eq, true_and] at heq
      rw [hoptions]
      exact hsame.symm.trans heq.symm
    have hguard : (s'.bothNullOrExpired cipher').eval (atTime D t') = .ret false := by
      unfold Impl.bothNullOrExpired Impl.nullOrExpired JwtKeyPass.isExpired
      rw [if_neg hne]
      show (if ¬ s'.keyPass.expiredAt s'.keyPass.newKeyCreateTimeSec t' = true then _ else _ :
        Auth Bool).eval _ = _
      rw [if_pos (by simp [hvalid])]
      rfl
    have hfirst : (s'.checkCalculateSignature O alg cipher' message).eval (atTime D t') =
        .ret (.ok sign) := checkCalculateSignature_eval hne hD hsign
    rw [if_pos (hoptions ▸ hmode)]
    unfold Impl.validateTokenFromInternalKey
    rw [hcipher', eval_bind (a := cipher') rfl, eval_bind hguard]
    rw [if_neg (by decide), eval_bind hfirst]
    show (if sign = sign then _ else _ : Auth (Except JwtAuthRC Bytes)).eval _ = _
    rw [if_pos rfl]
    rfl

/-- The length of a token, by its header and the length of its payload. -/
def tokenLength (h : JwtTokenHeader) (payloadLen : Nat) : Nat :=
  (4 * h.text.length + 2) / 3 + 1 + 4 * ((payloadLen + 2) / 3) + 1 +
    (4 * getEstimateHmacOutLen h.alg + 2) / 3

theorem tokenLength_eq {input sign : Bytes} (hinput : input.length < 2 ^ 32)
    (hsign : sign.length = (4 * getEstimateHmacOutLen s.tokenHeader.alg + 2) / 3) :
    (s.signedPart input ++ jwtSepDot ++ sign).length = tokenLength s.tokenHeader input.length := by
  have htext := text_length_le s.tokenHeader
  have hheader : (stripPad (base64Encode s.tokenHeader.text)).length =
      (4 * s.tokenHeader.text.length + 2) / 3 := by
    rw [base64Encode_eq (by omega), (encodeGroups_stripPad _).2]
  have hdot : jwtSepDot.length = 1 := rfl
  unfold Impl.signedPart tokenLength
  simp only [List.length_append, hheader, base64Encode_length hinput, hsign, hdot]

theorem payload_length_lt (opt : CDFDistAuthCreateTokenOptions) : opt.payload.length < 2 ^ 32 := by
  have hle : opt.payload.length ≤ opt.inputLen.toNat := List.length_take_le _ _
  exact lt_of_le_of_lt hle opt.inputLen.toNat_lt

theorem token_of_checkCreateTokenParams {opt : CDFDistAuthCreateTokenOptions}
    (h : s.checkCreateTokenParams opt = .ok) : s.started = true ∧ ∃ buf, opt.token = some buf := by
  unfold Impl.checkCreateTokenParams at h
  by_cases hstarted : s.started = true
  rotate_left
  · rw [if_pos hstarted] at h
    cases h
  rw [if_neg (not_not.mpr hstarted)] at h
  refine ⟨hstarted, ?_⟩
  cases htoken : opt.token with
  | some buf => exact ⟨buf, rfl⟩
  | none =>
    rw [if_pos (by simp [htoken])] at h
    cases h

/-- The parameters of a created token are in order, unless it is too long. -/
theorem checkValidateTokenParams_eq {opt' : CDFDistAuthCreateTokenOptions} {token buf : Bytes}
    (hstarted : s.started = true) (hzero : (0 : UInt8) ∉ token)
    (htoken : opt'.token = some (writeAt buf 0 (token ++ [0])))
    (hlen : opt'.tokenLen.toNat = token.length) (hbound : token.length + 1 < 2 ^ 32) :
    s.checkValidateTokenParams opt'.validateOptions =
      if jwtInputLengthMax < token.length + 1 then .paramInvalid else .ok := by
  have hlen' : (opt'.tokenLen + 1).toNat = token.length + 1 := by
    rw [UInt32.toNat_add, hlen]
    exact Nat.mod_eq_of_lt hbound
  have hne : opt'.tokenLen + 1 ≠ 0 := fun h => by
    rw [h] at hlen'
    exact absurd hlen' (Nat.succ_ne_zero _).symm
  unfold Impl.checkValidateTokenParams CDFDistAuthCreateTokenOptions.validateOptions
  dsimp only
  rw [htoken, if_neg (not_not.mpr hstarted), if_neg (by simp [hne]), Option.getD_some, hlen',
    strnlen_written hzero buf, if_neg (by simp)]

/-- **What becomes of a created token**, at any server that finds the token's signature again. -/
theorem validateToken_eval_of_signature {opt opt' : CDFDistAuthCreateTokenOptions}
    {tr : List JwtEvent} {K sign : Bytes} {t' : Int64} (hcreated : Created O s opt opt' tr K sign)
    (hstarted : s'.started = true) (halg : s.tokenHeader.alg.isValue = true)
    (hcreate : s.tokenHeader.createTimeSec.toNat ≤ t'.toInt)
    (hsignature : (s'.expectedSignature O opt'.validateOptions s.tokenHeader.alg sign
      (s.signedPart opt.payload)).eval (atTime D t') = .ret (.ok sign)) :
    (s'.validateToken O opt'.validateOptions).eval (atTime D t') =
      .ret (if jwtInputLengthMax < tokenLength s.tokenHeader opt.payload.length + 1 then
          .paramInvalid
        else if s.tokenHeader.OutOfTime t' then .tokenExpired
        else .ok) := by
  obtain ⟨hparams, -, hsigned, hfits, htokenLen, htoken, -⟩ := hcreated
  obtain ⟨-, hsigns, hsignNe, hsignLen⟩ := calSignB64_ok hsigned
  have hlength := tokenLength_eq (s := s) (payload_length_lt opt) hsignLen
  have hzero := zero_not_mem_token (s := s) opt.payload hsigns
  obtain ⟨-, buf, hbuf⟩ := token_of_checkCreateTokenParams hparams
  rw [hbuf, Option.map_some] at htoken
  have hchecked := checkValidateTokenParams_eq hstarted hzero htoken htokenLen (by omega)
  rw [hlength] at hchecked
  have hsplit : split (s.signedPart opt.payload ++ jwtSepDot ++ sign) jwtSepDot =
      [stripPad (base64Encode s.tokenHeader.text), base64Encode opt.payload, sign] :=
    split_token (not_mem_stripPad (by decide) (by decide) _) (dot_not_mem_base64Encode _)
      (hsigns.not_mem (by decide) (by decide)) hsignNe
  have hcstr : cstr (opt'.validateOptions.token.getD []) =
      s.signedPart opt.payload ++ jwtSepDot ++ sign := by
    show cstr (opt'.token.getD []) = _
    rw [htoken]
    exact cstr_written hzero buf
  unfold Impl.validateToken
  dsimp only
  rw [hchecked]
  by_cases hlong : jwtInputLengthMax < tokenLength s.tokenHeader opt.payload.length + 1
  · rw [if_pos hlong, if_pos hlong, if_pos (by decide)]
    rfl
  rw [if_neg hlong, if_neg hlong, if_neg (by decide), hcstr, hsplit]
  dsimp only
  rw [eval_bind (checkTokenExpiredTime_eval halg hcreate)]
  by_cases hold : s.tokenHeader.OutOfTime t'
  · rw [if_pos hold, if_pos hold]
    rfl
  · rw [if_neg hold, if_neg hold]
    dsimp only
    unfold Impl.signedPart at hsignature
    rw [eval_bind hsignature]
    dsimp only
    rw [if_neg (not_not.mpr rfl)]
    rfl

/-- **At a server of the same options that has kept the key.** -/
theorem validateToken_eval {opt opt' : CDFDistAuthCreateTokenOptions} {tr : List JwtEvent}
    {K sign : Bytes} {t t' : Int64} (hcreated : Created O s opt opt' tr K sign)
    (htr : ∀ ev ∈ tr, ev = ⟨ev.1, atTime D t ev.1⟩) (hstarted : s'.started = true)
    (hoptions : s'.options = s.options) (hkeeps : KeepsKey D s s' t')
    (halg : s.tokenHeader.alg.isValue = true)
    (hcreate : s.tokenHeader.createTimeSec.toNat ≤ t'.toInt) :
    (s'.validateToken O opt'.validateOptions).eval (atTime D t') =
      .ret (if jwtInputLengthMax < tokenLength s.tokenHeader opt.payload.length + 1 then
          .paramInvalid
        else if s.tokenHeader.OutOfTime t' then .tokenExpired
        else .ok) := by
  have hkey : SignedWith s opt'.validateOptions.key opt'.validateOptions.keyLen tr K := by
    show SignedWith s opt'.key opt'.keyLen tr K
    rw [hcreated.same.1, hcreated.same.2]
    exact hcreated.keyOf
  exact validateToken_eval_of_signature hcreated hstarted halg hcreate
    (expectedSignature_eval hkey htr hoptions hkeeps hcreated.signed)

/-! ## A server that runs -/

/-- One call on a server that comes back and does not stop it. -/
def ServerStep (O : OpensslHmac) (s : Impl) (call : ServerOp × List JwtEvent) (s' : Impl) : Prop :=
  call.1 ≠ .stop ∧ ∃ answer, Traces (call.1.prog O s) call.2 (.ret (answer, s'))

/-- Started with these options when the clock showed `start`. -/
structure StartedAt (opt : CDFDistAuthServerOptions) (start : Int64) (s : Impl) : Prop where
  started : s.started = true
  options : s.options = opt
  header : s.tokenHeader = ⟨opt.algType, opt.tokenExpireMinutes, start.toUInt64⟩
  alg : opt.algType.isValue = true

/-- What an OK of `Start` makes. -/
def Starts (opt : CDFDistAuthServerOptions) (tr : List JwtEvent) :
    Outcome Fault (Except StdException JwtAuthRC × Impl) → Prop
  | .ret (.ok rc, s') => rc = .ok → ∀ start, ⟨.clockGettime, start⟩ ∈ tr → StartedAt opt start s'
  | _ => True

theorem start_starts (hstopped : s.started = false) (opt : CDFDistAuthServerOptions) :
    wp (s.start opt) (Starts opt) := by
  refine wp_mono (start_ends s opt) fun tr o hends => ?_
  -- no other call of it reads the clock
  have hread : ∀ {pre post : List JwtEvent} {now start : Int64}, Prepares s opt pre →
      (∀ now, ⟨.clockGettime, now⟩ ∉ post) →
      ⟨.clockGettime, start⟩ ∈ pre ++ ⟨.clockGettime, now⟩ :: post → start = now := by
    intro pre post now start hpre hpost hmem
    rcases List.mem_append.mp hmem with hmem | hmem
    · exact absurd hmem (hpre.noClock start)
    rcases List.mem_cons.mp hmem with heq | hmem
    · simpa using heq
    · exact absurd hmem (hpost start)
  cases hends with
  | already hstarted => exact absurd (hstarted.symm.trans hstopped) (by decide)
  | refused _ hrc => exact fun h => absurd h hrc
  | @failed pre post now result hpre hresult =>
    cases result with
    | error e => trivial
    | ok rc => exact fun h => absurd (congrArg _ h) hresult
  | internal hpre =>
    intro _ start hstart
    rw [hread hpre (by simp) hstart]
    exact ⟨rfl, rfl, rfl, hpre.alg⟩
  | external hpre =>
    intro _ start hstart
    rw [hread hpre (by simp) hstart]
    exact ⟨rfl, rfl, rfl, hpre.alg⟩

/-- `Start` leaves a server that is started as it is. -/
theorem keysOnly_of_started (O : OpensslHmac) (hstarted : s.started = true) {op : ServerOp}
    (hstop : op ≠ .stop) : wp (op.prog O s) fun _ o => KeysOnly s o := by
  by_cases hstart : ∃ opt, op = .start opt
  · obtain ⟨opt, rfl⟩ := hstart
    have hsame : s.start opt = .ret (.ok .ok, s) := by
      unfold Impl.start
      rw [if_pos hstarted]
    show wp (s.start opt >>= _) _
    rw [hsame]
    exact ⟨s.keyPass, rfl⟩
  · exact prog_keysOnly O s (fun opt h => hstart ⟨opt, h⟩) hstop

theorem StartedAt.step {opt : CDFDistAuthServerOptions} {start : Int64}
    {call : ServerOp × List JwtEvent} (hs : StartedAt opt start s) (h : ServerStep O s call s') :
    StartedAt opt start s' := by
  obtain ⟨hop, answer, htr⟩ := h
  obtain ⟨keyPass, rfl⟩ := wp_iff.mp (keysOnly_of_started O hs.started hop) _ _ htr
  exact ⟨hs.started, hs.options, hs.header, hs.alg⟩

theorem StartedAt.run {opt : CDFDistAuthServerOptions} {start : Int64}
    {calls : List (ServerOp × List JwtEvent)} (hs : StartedAt opt start s)
    (hrun : Run (ServerStep O) s calls s') : StartedAt opt start s' :=
  Run.invariant (I := StartedAt opt start) (fun _ _ _ hs h => hs.step h) hrun hs

/-- A time after 1970 is stored as it is. -/
theorem toNat_toUInt64 {now : Int64} (h : 0 ≤ now) : (now.toUInt64.toNat : Int) = now.toInt := by
  have hnonneg : 0 ≤ now.toInt := Int64.le_iff_toInt_le.mp h
  rw [← Int64.toNat_toBitVec, Int64.toNat_toBitVec_of_le h, ← Int64.toNat_toInt]
  exact Int.toNat_of_nonneg hnonneg

section Lifetime

variable {pre s₀ : Impl} {opt : CDFDistAuthServerOptions}
  {request created : CDFDistAuthCreateTokenOptions} {trStart : List JwtEvent}
  {calls calls' : List (ServerOp × List JwtEvent)} {start t t' : Int64}

/-- What becomes of a token, in a run of its server. -/
theorem validateToken_created (hminutes : 0 ≤ opt.tokenExpireMinutes.toInt) (hepoch : 0 ≤ start)
    (hpre : pre.started = false) (hstart : Traces (pre.start opt) trStart (.ret (.ok .ok, s₀)))
    (hclock : ⟨.clockGettime, start⟩ ∈ trStart) (hrun : Run (ServerStep O) s₀ calls s)
    (hle : start ≤ t) (hcreated : (s.createToken O request).eval (atTime D t) = .ret (.ok, created))
    (hrun' : Run (ServerStep O) s calls' s') (hle' : t ≤ t') (hkeeps : KeepsKey D s s' t') :
    (s'.validateToken O created.validateOptions).eval (atTime D t') =
      .ret (if jwtInputLengthMax < tokenLength s.tokenHeader request.payload.length + 1 then
          .paramInvalid
        else if opt.tokenExpireMinutes.toInt * 60 < t'.toInt - start.toInt then .tokenExpired
        else .ok) := by
  have hs₀ : StartedAt opt start s₀ := wp_iff.mp (start_starts hpre opt) _ _ hstart rfl start hclock
  have hs := hs₀.run hrun
  have hs' := hs.run hrun'
  obtain ⟨K, sign, hmade⟩ : ∃ K sign, Created O s request created _ K sign := by
    have htoken := wp_eval (atTime D t) (createToken_created O s request)
    rw [hcreated] at htoken
    exact htoken rfl
  -- the time in the header is the start's
  have hstamp : s.tokenHeader.createTimeSec.toNat = start.toInt := by
    rw [hs.header]
    exact toNat_toUInt64 hepoch
  have hexpire : s.tokenHeader.expireTimeMinute = opt.tokenExpireMinutes := by rw [hs.header]
  have halg : s.tokenHeader.alg.isValue = true := by
    rw [hs.header]
    exact hs.alg
  have hle₁ : start.toInt ≤ t.toInt := Int64.le_iff_toInt_le.mp hle
  have hle₂ : t.toInt ≤ t'.toInt := Int64.le_iff_toInt_le.mp hle'
  have hnever : opt.tokenExpireMinutes.toInt ≠ -1 := by omega
  rw [validateToken_eval hmade (fun _ => mem_runWith) hs'.started (hs'.options.trans hs.options.symm)
    hkeeps halg (by omega)]
  unfold JwtTokenHeader.OutOfTime
  simp only [hstamp, hexpire, ne_eq, hnever, not_false_eq_true, true_and]

/-- **How long a token lives.** The server is started at `start`, creates the token at `t` and is
asked at `t'`, with any calls but `Stop` in between. The token is accepted if and only if the
server has not outlived its `tokenExpireMinutes`, and the token is not too long to be read. -/
theorem validateToken_created_iff (hminutes : 0 ≤ opt.tokenExpireMinutes.toInt) (hepoch : 0 ≤ start)
    (hpre : pre.started = false) (hstart : Traces (pre.start opt) trStart (.ret (.ok .ok, s₀)))
    (hclock : ⟨.clockGettime, start⟩ ∈ trStart) (hrun : Run (ServerStep O) s₀ calls s)
    (hle : start ≤ t) (hcreated : (s.createToken O request).eval (atTime D t) = .ret (.ok, created))
    (hrun' : Run (ServerStep O) s calls' s') (hle' : t ≤ t') (hkeeps : KeepsKey D s s' t') :
    (s'.validateToken O created.validateOptions).eval (atTime D t') = .ret .ok ↔
      t'.toInt ≤ start.toInt + 60 * opt.tokenExpireMinutes.toInt ∧
        tokenLength s.tokenHeader request.payload.length + 1 ≤ jwtInputLengthMax := by
  rw [validateToken_created hminutes hepoch hpre hstart hclock hrun hle hcreated hrun' hle' hkeeps]
  by_cases hlong : jwtInputLengthMax < tokenLength s.tokenHeader request.payload.length + 1
  · rw [if_pos hlong]
    exact ⟨nofun, fun h => absurd h.2 (by omega)⟩
  rw [if_neg hlong]
  by_cases hold : opt.tokenExpireMinutes.toInt * 60 < t'.toInt - start.toInt
  · rw [if_pos hold]
    exact ⟨nofun, fun h => absurd h.1 (by omega)⟩
  · rw [if_neg hold]
    exact ⟨fun _ => ⟨by omega, by omega⟩, fun _ => rfl⟩

end Lifetime

/-! ## A server eight hours old -/

/-- A server in the caller's keys, with tokens of eight hours. -/
def externalOptions : CDFDistAuthServerOptions := { keyTransferMode := .externalKey }

def externalServer (start : Int64) : Impl where
  started := true
  options := externalOptions
  tokenHeader := { expireTimeMinute := 480, createTimeSec := start.toUInt64 }

def sampleRequest : CDFDistAuthCreateTokenOptions where
  key := some (List.replicate 32 65 ++ [0])
  keyLen := 33
  input := some (ascii "user" ++ [0])
  inputLen := 5
  token := some (List.replicate 512 0)
  tokenLen := 512

/-- No key manager. -/
def noDecryption : Decryption := fun _ _ _ _ => (.error, [])

/-- What a call of `CreateToken` has written, where it returns OK. -/
def createdToken : Outcome Fault (JwtAuthRC × CDFDistAuthCreateTokenOptions) →
    Option CDFDistAuthCreateTokenOptions
  | .ret (.ok, opt) => some opt
  | _ => none

theorem createdToken_eq_some {o : Outcome Fault (JwtAuthRC × CDFDistAuthCreateTokenOptions)}
    {opt : CDFDistAuthCreateTokenOptions} (h : createdToken o = some opt) : o = .ret (.ok, opt) := by
  unfold createdToken at h
  split at h
  · obtain rfl := Option.some.inj h
    rfl
  · cases h

/-- The server makes a token when it is exactly eight hours old. -/
theorem sampleRequest_created : ∃ created, ((externalServer 1700000000).createToken sampleHmac
    sampleRequest).eval (atTime noDecryption 1700028800) = .ret (.ok, created) := by
  have hsome : (createdToken (((externalServer 1700000000).createToken sampleHmac
      sampleRequest).eval (atTime noDecryption 1700028800))).isSome = true := by decide +kernel
  obtain ⟨created, hcreated⟩ := Option.isSome_iff_exists.mp hsome
  exact ⟨created, createdToken_eq_some hcreated⟩

/-- `Start` in the caller's keys. -/
theorem externalOptions_start (start : Int64) :
    Traces (({} : Impl).start externalOptions) [⟨.clockGettime, start⟩]
      (.ret (.ok .ok, externalServer start)) := .call (.ret _)

/-- A token is accepted in the second it is made, the last of the eight hours, and not in the
next. -/
theorem validateToken_created_iff_start : ∃ created : CDFDistAuthCreateTokenOptions,
    ((externalServer 1700000000).createToken sampleHmac sampleRequest).eval
        (atTime noDecryption 1700028800) = .ret (.ok, created) ∧
      ((externalServer 1700000000).validateToken sampleHmac created.validateOptions).eval
        (atTime noDecryption 1700028800) = .ret .ok ∧
      ((externalServer 1700000000).validateToken sampleHmac created.validateOptions).eval
        (atTime noDecryption 1700028801) ≠ .ret .ok := by
  obtain ⟨created, hcreated⟩ := sampleRequest_created
  have hkeeps : ∀ t', KeepsKey noDecryption (externalServer 1700000000) (externalServer 1700000000)
      t' := fun t' h => by cases h
  have hstarted := externalOptions_start 1700000000
  have hlives : ∀ {t' : Int64}, 1700028800 ≤ t' → _ := fun hlater =>
    validateToken_created_iff (by decide) (by decide) rfl hstarted List.mem_cons_self (.nil _)
      (by decide) hcreated (.nil _) hlater (hkeeps _)
  refine ⟨created, hcreated, (hlives (by decide)).mpr (by decide), fun hok => ?_⟩
  exact absurd ((hlives (by decide)).mp hok) (by decide)

/-- **A token one second old is expired**, made by a server eight hours old. -/
theorem token_expires_with_server : ¬ ∀ (O : OpensslHmac) (D : Decryption) (pre s₀ s s' : Impl)
    (opt : CDFDistAuthServerOptions) (request created : CDFDistAuthCreateTokenOptions)
    (trStart : List JwtEvent) (calls calls' : List (ServerOp × List JwtEvent))
    (start t t' : Int64), 0 ≤ opt.tokenExpireMinutes.toInt → 0 ≤ start → pre.started = false →
    Traces (pre.start opt) trStart (.ret (.ok .ok, s₀)) → ⟨.clockGettime, start⟩ ∈ trStart →
    Run (ServerStep O) s₀ calls s → start ≤ t →
    (s.createToken O request).eval (atTime D t) = .ret (.ok, created) →
    Run (ServerStep O) s calls' s' → t ≤ t' →
    t'.toInt ≤ t.toInt + 60 * opt.tokenExpireMinutes.toInt → KeepsKey D s s' t' →
    (s'.validateToken O created.validateOptions).eval (atTime D t') = .ret .ok := by
  intro hall
  obtain ⟨created, hcreated⟩ := sampleRequest_created
  have hkeeps : KeepsKey noDecryption (externalServer 1700000000) (externalServer 1700000000)
      1700028801 := fun h => by cases h
  have hstarted := externalOptions_start 1700000000
  have hlater : (1700028800 : Int64) ≤ 1700028801 := by decide
  have hok := hall _ _ _ _ _ _ _ _ _ _ _ _ _ _ _ (by decide) (by decide) rfl hstarted
    List.mem_cons_self (.nil _) (by decide) hcreated (.nil _) hlater (by decide) hkeeps
  rw [validateToken_created (by decide) (by decide) rfl hstarted List.mem_cons_self (.nil _)
    (by decide) hcreated (.nil _) hlater hkeeps] at hok
  cases hok

end CdfCrypto.Jwt
