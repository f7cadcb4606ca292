import CdfCrypto.Jwt.Rotation

/-!
# How long a token gets

`EstimateTokenLength` adds three padded base64 lengths, each with a terminator, and the two dots.
A token has one terminator, and its header and signature have no padding, so the estimate is
always at least two bytes too long (`estimate_suffices`), whatever the lengths are modulo 3.

What `ValidateToken` reads is limited by the constant that limits what `CreateToken` takes as its
input, and the token of an input is a third longer: the tokens of the longest inputs are made and
then not read (`checkValidateTokenParams_created_iff`).
-/

namespace CdfCrypto.Jwt

open Lib KeyManagement

variable {O : OpensslHmac} {s : Impl}

/-! ## The estimate -/

/-- The sum of `EstimateTokenLength`, in unbounded arithmetic. -/
def estimatedLength (h : JwtTokenHeader) (inputLen : Nat) : Nat :=
  ((h.text.length + 2) / 3 * 4 + 1) + ((inputLen + 2) / 3 * 4 + 1) +
    ((getEstimateHmacOutLen h.alg + 2) / 3 * 4 + 1) + 2

/-- Where no length of a data of `dataLen` bytes wraps. -/
theorem base64EncodeLen_eq {dataLen : Nat} (h : dataLen ≤ jwtInputLengthMax) :
    Impl.base64EncodeLen dataLen = (dataLen + 2) / 3 * 4 + 1 := by
  unfold Impl.base64EncodeLen
  unfold jwtInputLengthMax at h
  exact Nat.mod_eq_of_lt (by omega)

/-- An estimate is exact arithmetic. -/
theorem estimateTokenLength_ok {inputLen m : UInt32}
    (h : s.estimateTokenLength inputLen = (.ok, m)) :
    inputLen.toNat ≤ jwtInputLengthMax ∧
      m.toNat = estimatedLength s.tokenHeader inputLen.toNat := by
  unfold Impl.estimateTokenLength at h
  split at h
  · cases h
  next hmax =>
  dsimp only at h
  split at h
  · cases h
  have hmax := Nat.not_lt.mp hmax
  have htext := text_length_le s.tokenHeader
  have halg := getEstimateHmacOutLen_le s.tokenHeader.alg
  have hlimit : jwtInputLengthMax = 104857600 := rfl
  obtain rfl := (Prod.mk.inj h).2
  refine ⟨hmax, ?_⟩
  rw [base64EncodeLen_eq (by omega), base64EncodeLen_eq hmax, base64EncodeLen_eq (by omega)]
  exact UInt32.toNat_ofNat_of_lt' (show _ < 2 ^ 32 by omega)

/-- **The slack**: a token and its terminator leave two bytes of the estimate at least. -/
theorem tokenLength_le_estimated {h : JwtTokenHeader} {payloadLen inputLen : Nat}
    (hle : payloadLen ≤ inputLen) : tokenLength h payloadLen + 3 ≤ estimatedLength h inputLen := by
  unfold tokenLength estimatedLength
  omega

/-- What `CreateToken` leaves in the options when it has written the token. -/
def CDFDistAuthCreateTokenOptions.written (opt : CDFDistAuthCreateTokenOptions) (inner : Bytes) :
    CDFDistAuthCreateTokenOptions :=
  { opt with
    tokenLen := UInt32.ofNat inner.length
    token := opt.token.map fun buf => writeAt buf 0 (inner ++ [0]) }

/-- What a call of `CreateToken` returns with a buffer of `m` bytes: the code of its parameter
check or of the making of the token, or OK with the token and its terminator inside the buffer. -/
inductive HasRoom (O : OpensslHmac) (s : Impl) (opt : CDFDistAuthCreateTokenOptions) (m : Nat)
    (tr : List JwtEvent) : JwtAuthRC → CDFDistAuthCreateTokenOptions → Prop
  | refused (hparams : s.checkCreateTokenParams opt ≠ .ok) :
      HasRoom O s opt m tr (s.checkCreateTokenParams opt) opt
  | failed {rc : JwtAuthRC} (hrc : rc ≠ .ok)
      (hinner : Traces (s.createInnerToken O opt) tr (.ret (.error rc))) :
      HasRoom O s opt m tr rc opt
  | made {inner : Bytes} (hinner : Traces (s.createInnerToken O opt) tr (.ret (.ok inner)))
      (hlength : inner.length = tokenLength s.tokenHeader opt.payload.length)
      (hexact : (UInt32.ofNat inner.length).toNat = inner.length) (hroom : inner.length + 1 ≤ m) :
      HasRoom O s opt m tr .ok (opt.written inner)

theorem payload_length_le (opt : CDFDistAuthCreateTokenOptions) :
    opt.payload.length ≤ opt.inputLen.toNat := List.length_take_le _ _

/-- The token that is made is as long as its parts say. -/
theorem createInnerToken_length {opt : CDFDistAuthCreateTokenOptions} {tr : List JwtEvent}
    {inner : Bytes} (h : Traces (s.createInnerToken O opt) tr (.ret (.ok inner))) :
    inner.length = tokenLength s.tokenHeader opt.payload.length := by
  obtain ⟨K, sign, -, hsign, hinner⟩ := wp_iff.mp (createInnerToken_created O s opt) tr _ h
  rw [hinner]
  exact tokenLength_eq (payload_length_lt opt) (calSignB64_ok hsign).2.2.2

/-- **The estimate suffices**: it wraps nowhere, and a buffer of that size is never too small for
the token of an input of that length. -/
theorem estimate_suffices (O : OpensslHmac) {s : Impl} {n m : UInt32}
    (hestimate : s.estimateTokenLength n = (.ok, m)) :
    m.toNat = estimatedLength s.tokenHeader n.toNat ∧
      ∀ (opt opt' : CDFDistAuthCreateTokenOptions) (tr : List JwtEvent) (rc : JwtAuthRC),
        opt.inputLen = n → opt.tokenLen = m →
        Traces (s.createToken O opt) tr (.ret (rc, opt')) → HasRoom O s opt m.toNat tr rc opt' := by
  obtain ⟨hmax, hm⟩ := estimateTokenLength_ok hestimate
  refine ⟨hm, fun opt opt' tr rc hn htokenLen htr => ?_⟩
  have hlimit : estimatedLength s.tokenHeader n.toNat < 2 ^ 31 - 1 := by
    have htext := text_length_le s.tokenHeader
    have halg := getEstimateHmacOutLen_le s.tokenHeader.alg
    unfold jwtInputLengthMax at hmax
    unfold estimatedLength
    omega
  have hwp : wp (s.createToken O opt) fun tr o => ∀ rc opt', o = .ret (rc, opt') →
      HasRoom O s opt m.toNat tr rc opt' := by
    unfold Impl.createToken
    dsimp only
    split
    next hparams =>
      intro rc opt' heq
      obtain ⟨rfl, rfl⟩ := Prod.mk.inj (Outcome.ret.inj heq)
      exact .refused hparams
    refine wp_bind_of (wp_and (wp_iff.mpr fun _ _ h => h) (createInnerToken_created O s opt))
      (fun tr result hinner => ?_) fun _ _ _ _ _ heq => by cases heq
    obtain ⟨hinner, hcreated⟩ := hinner
    cases result with
    | error rc =>
      intro rc' opt' heq
      obtain ⟨rfl, rfl⟩ := Prod.mk.inj (Outcome.ret.inj heq)
      rw [List.append_nil]
      exact .failed hcreated hinner
    | ok inner =>
      have hlength := createInnerToken_length hinner
      have hle := tokenLength_le_estimated (h := s.tokenHeader) (hn ▸ payload_length_le opt)
      have hroom : inner.length + 1 ≤ m.toNat := by omega
      have hpush : (inner ++ [0]).length = inner.length + 1 := List.length_append
      have hexact : (UInt32.ofNat inner.length).toNat = inner.length :=
        UInt32.toNat_ofNat_of_lt' (show inner.length < 2 ^ 32 by omega)
      have hcopy : memcpyS (inner.length + 1) (inner.length + 1) = true := by
        simp only [memcpyS, Bool.and_eq_true, decide_eq_true_eq]
        omega
      dsimp only
      rw [hpush, Nat.add_sub_cancel, htokenLen, if_neg (by omega), hexact,
        if_neg (not_not.mpr hcopy)]
      intro rc opt' heq
      obtain ⟨rfl, rfl⟩ := Prod.mk.inj (Outcome.ret.inj heq)
      rw [List.append_nil]
      exact .made hinner hlength hexact hroom
  exact wp_iff.mp hwp tr _ htr rc opt' rfl

/-- `sampleRequest` with a buffer of 121 bytes. -/
def tightRequest : CDFDistAuthCreateTokenOptions :=
  { sampleRequest with token := some (List.replicate 121 0), tokenLen := 121 }

/-- The estimate for the four letters of the request and their terminator, and a `CreateToken` with
that buffer. -/
theorem estimate_suffices_sample : (externalServer 1700000000).estimateTokenLength 5 = (.ok, 121) ∧
    (121 : UInt32).toNat = estimatedLength (externalServer 1700000000).tokenHeader 5 ∧
    ∃ tr created,
      Traces ((externalServer 1700000000).createToken sampleHmac tightRequest) tr
        (.ret (.ok, created)) ∧
      HasRoom sampleHmac (externalServer 1700000000) tightRequest 121 tr .ok created := by
  have hestimate : (externalServer 1700000000).estimateTokenLength 5 = (.ok, 121) := by
    decide +kernel
  obtain ⟨hexact, hroom⟩ :=
    estimate_suffices sampleHmac (s := externalServer 1700000000) (n := 5) hestimate
  have hsome : (createdToken (((externalServer 1700000000).createToken sampleHmac
      tightRequest).eval (atTime noDecryption 1700000000))).isSome = true := by decide +kernel
  obtain ⟨created, hcreated⟩ := Option.isSome_iff_exists.mp hsome
  have htr := traces_of_eval (createdToken_eq_some hcreated)
  exact ⟨hestimate, hexact, _, created, htr, hroom tightRequest created _ .ok rfl rfl htr⟩

/-! ## Two limits -/

/-- What `ValidateToken` makes of the length of a token that was made. -/
theorem checkValidateTokenParams_eq_created {opt opt' : CDFDistAuthCreateTokenOptions}
    {tr : List JwtEvent} {K sign : Bytes} (hmade : Created O s opt opt' tr K sign) :
    s.checkValidateTokenParams opt'.validateOptions =
      if jwtInputLengthMax < tokenLength s.tokenHeader opt.payload.length + 1 then .paramInvalid
      else .ok := by
  obtain ⟨hstarted, buf, hbuf⟩ := token_of_checkCreateTokenParams hmade.params
  obtain ⟨-, hsigns, -, hsignLen⟩ := calSignB64_ok hmade.signed
  have hlength := tokenLength_eq (s := s) (payload_length_lt opt) hsignLen
  have hfits := hmade.fits
  have htoken := hmade.token
  rw [hbuf, Option.map_some] at htoken
  rw [checkValidateTokenParams_eq hstarted (zero_not_mem_token opt.payload hsigns) htoken
    hmade.tokenLen (by omega), hlength]

/-- **A created token is read** where it is not longer, with its terminator, than the input may
be. -/
theorem checkValidateTokenParams_created_iff {opt opt' : CDFDistAuthCreateTokenOptions}
    {tr : List JwtEvent} (hcreated : Traces (s.createToken O opt) tr (.ret (.ok, opt'))) :
    s.checkValidateTokenParams opt'.validateOptions = .ok ↔
      tokenLength s.tokenHeader opt.payload.length + 1 ≤ jwtInputLengthMax := by
  obtain ⟨K, sign, hmade⟩ := wp_iff.mp (createToken_created O s opt) tr _ hcreated rfl
  rw [checkValidateTokenParams_eq_created hmade]
  by_cases hlong : jwtInputLengthMax < tokenLength s.tokenHeader opt.payload.length + 1
  · rw [if_pos hlong]
    exact iff_of_false (fun h => by cases h) (Nat.not_le.mpr hlong)
  · rw [if_neg hlong]
    exact iff_of_true rfl (Nat.not_lt.mp hlong)

theorem checkValidateTokenParams_created_iff_sample : ∃ created : CDFDistAuthCreateTokenOptions,
    (externalServer 1700000000).checkValidateTokenParams created.validateOptions = .ok := by
  obtain ⟨created, hcreated⟩ := sampleRequest_created
  exact ⟨created, (checkValidateTokenParams_created_iff (traces_of_eval hcreated)).mpr
    (by decide +kernel)⟩

/-- **A payload of 80 million letters** is accepted, and its token is not. -/
theorem long_token_not_read : ¬ ∀ (O : OpensslHmac) (s : Impl)
    (opt opt' : CDFDistAuthCreateTokenOptions) (tr : List JwtEvent),
    Traces (s.createToken O opt) tr (.ret (.ok, opt')) →
    s.checkValidateTokenParams opt'.validateOptions = .ok := by
  intro hall
  have hn : 80000000 ≤ 80000000 := Nat.le_refl _
  obtain ⟨created, hcreated⟩ := longRequest_created hn
  have htraces := traces_of_eval hcreated
  obtain ⟨K, sign, hmade⟩ := wp_iff.mp (createToken_created _ _ _) _ _ htraces rfl
  have hok := hall _ _ _ _ _ htraces
  rw [checkValidateTokenParams_eq_created hmade, if_pos] at hok
  · cases hok
  · rw [longRequest_payload hn]
    unfold jwtInputLengthMax tokenLength
    omega

end CdfCrypto.Jwt
