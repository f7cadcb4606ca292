import CdfCrypto.Jwt.Lifetime
import CdfCrypto.Utils.SplitJoin

/-!
# A token before it is believed

`ValidateToken` takes the token apart and computes with the two numbers of its header before it
has verified anything, so both steps are open to whoever writes the text.

The numbers are read as 64 bits and bounded on one side only, by `JWT_EXPIRE_TIME_MAX_MINUTE`:
the age of a token that claims to be from long before 1970, or the limit of one with hugely
negative minutes, does not fit (`noOverflow_iff`). The splitter leaves out an empty piece at the
end, so a text of three pieces may be followed by one more dot that nothing looks at
(`validateToken_text_iff`).
-/

namespace CdfCrypto.Jwt

open Lib KeyManagement

/-! ## The numbers of the header -/

/-- What the header piece of a token tells. -/
def headerInfo? (headerB64 : Bytes) : Option TokenInfo :=
  let headerData := base64Decode (tryFixBase64 headerB64)
  if headerData = [] then none else getInfoByToken headerData

/-- The characters of the token, up to its terminator. -/
def CDFDistAuthValidateTokenOptions.text (opt : CDFDistAuthValidateTokenOptions) : Bytes :=
  cstr (opt.token.getD [])

/-- What `ValidateToken` reads in the header: nothing where it refuses the parameters, or finds
other than three pieces. -/
def Impl.tokenInfo? (s : Impl) (opt : CDFDistAuthValidateTokenOptions) : Option TokenInfo :=
  if s.checkValidateTokenParams opt ≠ .ok then none
  else
    match split opt.text jwtSepDot with
    | [header, _, _] => headerInfo? header
    | _ => none

/-- The age of the token and its limit have 64 bits, where they are computed at all. -/
def TokenInfo.FitsAt (info : TokenInfo) (now : Int) : Prop :=
  info.expireTimeMinute = -1 ∨ now < info.createTimeSec ∨
    now - info.createTimeSec < 2 ^ 63 ∧ -(2 ^ 63) ≤ info.expireTimeMinute * 60

theorem getInfoByToken_le {text : Bytes} {info : TokenInfo} (h : getInfoByToken text = some info) :
    info.expireTimeMinute ≤ jwtExpireTimeMaxMinute := by
  unfold getInfoByToken at h
  split at h
  rotate_left
  · cases h
  next algStr expireStr createStr _ =>
  simp only [Option.bind_eq_bind, Option.bind_eq_some_iff] at h
  obtain ⟨_, _, _, _, _, _, minutes, _, _, _, _, _, h⟩ := h
  split at h
  · cases h
  next hmax =>
  obtain rfl := Option.some.inj h
  exact Int.not_lt.mp hmax

/-- **Both operands must fit.** -/
theorem TokenInfo.expiredAt_overflows_iff {info : TokenInfo} {now : Int}
    (hmax : info.expireTimeMinute ≤ jwtExpireTimeMaxMinute) :
    info.expiredAt now = .error .overflow ↔ ¬ info.FitsAt now := by
  unfold TokenInfo.expiredAt TokenInfo.FitsAt
  rw [if_neg (Int.not_lt.mpr hmax)]
  unfold jwtExpireTimeMaxMinute at hmax
  by_cases hcomputes : info.expireTimeMinute ≠ -1 ∧ info.createTimeSec ≤ now
  rotate_left
  · rw [if_neg hcomputes]
    refine iff_of_false (fun h => by cases h) (not_not.mpr ?_)
    by_cases hnever : info.expireTimeMinute = -1
    · exact .inl hnever
    · exact .inr (.inl (Int.not_le.mp fun hle => hcomputes ⟨hnever, hle⟩))
  rw [if_pos hcomputes]
  obtain ⟨hminutes, hcreate⟩ := hcomputes
  by_cases hage : now - info.createTimeSec < 2 ^ 63
  rotate_left
  · -- the difference is computed first
    have hsub : subInt64 now info.createTimeSec = .error .overflow := if_neg (by omega)
    rw [hsub]
    exact iff_of_true rfl (by omega)
  have hsub : subInt64 now info.createTimeSec = .ok (now - info.createTimeSec) := if_pos (by omega)
  rw [hsub]
  by_cases hlimit : -(2 ^ 63) ≤ info.expireTimeMinute * 60
  · have hmul : mulInt64 info.expireTimeMinute jwtSecondsPerMinute =
        .ok (info.expireTimeMinute * 60) := by
      unfold mulInt64 jwtSecondsPerMinute
      exact if_pos (by omega)
    dsimp only [bind, Except.bind]
    rw [hmul]
    exact iff_of_false (fun h => by cases h) (by omega)
  · have hmul : mulInt64 info.expireTimeMinute jwtSecondsPerMinute = .error .overflow := by
      unfold mulInt64 jwtSecondsPerMinute
      exact if_neg (by omega)
    dsimp only [bind, Except.bind]
    rw [hmul]
    exact iff_of_true rfl (by omega)

theorem headerInfo?_eq_some {header : Bytes} {info : TokenInfo} :
    headerInfo? header = some info ↔ base64Decode (tryFixBase64 header) ≠ [] ∧
      getInfoByToken (base64Decode (tryFixBase64 header)) = some info := by
  unfold headerInfo?
  dsimp only
  by_cases hnil : base64Decode (tryFixBase64 header) = []
  · rw [if_pos hnil]
    exact iff_of_false (fun h => by cases h) fun h => h.1 hnil
  · rw [if_neg hnil]
    exact (and_iff_right hnil).symm

/-- The check of a header reads the clock once, and computes with what it shows. -/
theorem checkTokenExpiredTime_overflows_iff {header : Bytes} {tr : List JwtEvent} :
    Traces (checkTokenExpiredTime header) tr (.halt .overflow) ↔
      ∃ info now, headerInfo? header = some info ∧ tr = [⟨.clockGettime, now⟩] ∧
        ¬ info.FitsAt now.toInt := by
  constructor
  · intro htr
    have hwp : wp (checkTokenExpiredTime header) fun tr o => o = .halt .overflow →
        ∃ info now, headerInfo? header = some info ∧ tr = [⟨.clockGettime, now⟩] ∧
          ¬ info.FitsAt now.toInt := by
      unfold checkTokenExpiredTime
      dsimp only
      split
      · exact fun h => by cases h
      next hnil =>
      split
      · exact fun h => by cases h
      next info hinfo =>
      refine wp_perform_bind.mpr fun now => ?_
      refine wp_ofExcept_bind (fun expired _ => fun h => by cases h) fun e he heq => ?_
      obtain rfl := Outcome.halt.inj heq
      exact ⟨info, now, headerInfo?_eq_some.mpr ⟨hnil, hinfo⟩, rfl,
        (TokenInfo.expiredAt_overflows_iff (getInfoByToken_le hinfo)).mp he⟩
    exact wp_iff.mp hwp tr _ htr rfl
  · intro hover
    obtain ⟨info, now, hheader, rfl, hnot⟩ := hover
    obtain ⟨hnil, hinfo⟩ := headerInfo?_eq_some.mp hheader
    have hexpired := (TokenInfo.expiredAt_overflows_iff (getInfoByToken_le hinfo)).mpr hnot
    unfold checkTokenExpiredTime
    dsimp only
    rw [if_neg hnil, hinfo]
    refine .call ?_
    show Traces (Prog.ofExcept (info.expiredAt now.toInt) >>= _) [] _
    rw [hexpired]
    exact .halt _

/-! ## Nothing after the header overflows -/

section Faults

variable {O : OpensslHmac} {s : Impl}

theorem calSignB64_undefined {alg : CryptoHmacAlg} {message key : Bytes} {f : Fault}
    (h : calSignB64 O alg message key = .error f) : f = .undefined := by
  unfold calSignB64 at h
  split at h
  · cases h
  dsimp only at h
  split at h
  · cases h
  split at h
  · cases h
  next hnil =>
  rw [unpadded_eq hnil] at h
  cases h

theorem stringOf_undefined {ptr : Option Bytes} {len : UInt32} {f : Fault}
    (h : stringOf ptr len = .error f) : f = .undefined := by
  unfold stringOf at h
  split at h
  · cases h
  · split at h
    · cases h
    · cases h
      rfl

/-- What stops a computation other than an overflow. -/
abbrev NotOverflow (f : Fault) : Prop := f ≠ .overflow

theorem notOverflow_of_undefined {f : Fault} (h : f = .undefined) : NotOverflow f := by
  rw [h]
  decide

theorem halts_nullOrExpired (key : Bytes) (createTimeSec : UInt64) (k : JwtKeyPass) :
    Halts NotOverflow (Impl.nullOrExpired key (do
      let now ← .perform JwtCall.clockGettime
      .ret (k.expiredAt createTimeSec now))) := by
  unfold Impl.nullOrExpired
  split
  · trivial
  · exact fun _ => trivial

theorem halts_checkCalculateSignature (alg : CryptoHmacAlg) (key message : Bytes) :
    Halts NotOverflow (s.checkCalculateSignature O alg key message) := by
  unfold Impl.checkCalculateSignature
  split
  · trivial
  refine Halts.perform_bind fun result => ?_
  split
  · trivial
  · exact halts_ofExcept fun f hf => notOverflow_of_undefined (calSignB64_undefined hf)

theorem halts_bothNullOrExpired (key : Bytes) : Halts NotOverflow (s.bothNullOrExpired key) := by
  unfold Impl.bothNullOrExpired
  refine (halts_nullOrExpired key _ s.keyPass).bind fun keyInvalid => ?_
  split
  · trivial
  refine (halts_ofExcept fun f hf => notOverflow_of_undefined (stringOf_undefined hf)).bind
    fun oldKey => ?_
  exact halts_nullOrExpired oldKey _ s.keyPass

theorem halts_validateTokenFromInternalKey (alg : CryptoHmacAlg) (sign message : Bytes) :
    Halts NotOverflow (s.validateTokenFromInternalKey O alg sign message) := by
  unfold Impl.validateTokenFromInternalKey
  refine (halts_ofExcept fun f hf => notOverflow_of_undefined (stringOf_undefined hf)).bind
    fun key => ?_
  refine (halts_bothNullOrExpired key).bind fun invalid => ?_
  split
  · trivial
  refine (halts_checkCalculateSignature alg key message).bind fun result => ?_
  split
  · trivial
  split
  · trivial
  refine (halts_ofExcept fun f hf => notOverflow_of_undefined (stringOf_undefined hf)).bind
    fun oldKey => ?_
  refine (halts_nullOrExpired oldKey _ s.keyPass).bind fun oldInvalid => ?_
  split
  · trivial
  refine (halts_checkCalculateSignature alg oldKey message).bind fun result => ?_
  split
  · trivial
  · split
    · trivial
    · trivial

theorem halts_expectedSignature (opt : CDFDistAuthValidateTokenOptions) (alg : CryptoHmacAlg)
    (sign message : Bytes) : Halts NotOverflow (s.expectedSignature O opt alg sign message) := by
  unfold Impl.expectedSignature
  split
  · exact halts_validateTokenFromInternalKey alg sign message
  split
  · trivial
  split
  · trivial
  split
  · trivial
  · exact halts_ofExcept fun f hf => notOverflow_of_undefined (calSignB64_undefined hf)

end Faults

/-! ## The whole check -/

section Overflow

variable {O : OpensslHmac} {s : Impl} {opt : CDFDistAuthValidateTokenOptions}

theorem tokenInfo?_eq {header payload sign : Bytes} (hparams : s.checkValidateTokenParams opt = .ok)
    (hpieces : split opt.text jwtSepDot = [header, payload, sign]) :
    s.tokenInfo? opt = headerInfo? header := by
  unfold Impl.tokenInfo?
  rw [if_neg (not_not.mpr hparams), hpieces]

/-- What never overflows promises anything of an overflow. -/
theorem wp_of_notOverflow {α : Type} {p : Auth α} (h : Halts NotOverflow p)
    (Q : List JwtEvent → Prop) : wp p fun tr o => o = .halt .overflow → Q tr := by
  refine wp_iff.mpr fun tr o htr ho => ?_
  rw [ho] at htr
  exact absurd rfl (h.trace htr)

/-- **The overflow of a call**: the one reading of the clock, and a header that does not fit it. -/
theorem validateToken_overflows_iff {tr : List JwtEvent} :
    Traces (s.validateToken O opt) tr (.halt .overflow) ↔
      ∃ info now, s.tokenInfo? opt = some info ∧ tr = [⟨.clockGettime, now⟩] ∧
        ¬ info.FitsAt now.toInt := by
  constructor
  · intro htr
    have hwp : wp (s.validateToken O opt) fun tr o => o = .halt .overflow →
        ∃ info now, s.tokenInfo? opt = some info ∧ tr = [⟨.clockGettime, now⟩] ∧
          ¬ info.FitsAt now.toInt := by
      unfold Impl.validateToken
      dsimp only
      split
      · exact fun h => by cases h
      next hparams =>
      split
      rotate_left
      · exact fun h => by cases h
      next header payload sign hpieces =>
      rw [tokenInfo?_eq (not_not.mp hparams) hpieces]
      refine wp_bind_of (P := fun tr o => o = .halt .overflow → ∃ info now,
          headerInfo? header = some info ∧ tr = [⟨.clockGettime, now⟩] ∧ ¬ info.FitsAt now.toInt)
        ?_ (fun tr result _ => ?_) fun tr x h heq => h (by rw [Outcome.halt.inj heq])
      · refine wp_iff.mpr fun tr o htr ho => ?_
        rw [ho] at htr
        exact checkTokenExpiredTime_overflows_iff.mp htr
      · -- what follows the header stops for other reasons
        refine wp_of_notOverflow ?_ _
        split
        · trivial
        refine (halts_expectedSignature opt _ sign _).bind fun result => ?_
        split
        · trivial
        · trivial
    exact wp_iff.mp hwp tr _ htr rfl
  · intro hover
    obtain ⟨info, now, hinfo, rfl, hnot⟩ := hover
    unfold Impl.tokenInfo? at hinfo
    split at hinfo
    · cases hinfo
    next hparams =>
    split at hinfo
    rotate_left
    · cases hinfo
    next header payload sign hpieces =>
    have hheader := checkTokenExpiredTime_overflows_iff.mpr ⟨info, now, hinfo, rfl, hnot⟩
    have hpieces : split (cstr (opt.token.getD [])) jwtSepDot = [header, payload, sign] := hpieces
    unfold Impl.validateToken
    dsimp only
    rw [if_neg hparams, hpieces]
    exact hheader.bind_halt _

/-- Nothing overflows in the call, where the clock shows `now` when it is read for the first
time. -/
def Impl.NoOverflow (O : OpensslHmac) (s : Impl) (opt : CDFDistAuthValidateTokenOptions)
    (now : Int64) : Prop :=
  ∀ tr, (∀ ev ∈ tr.head?, ev = ⟨.clockGettime, now⟩) →
    ¬ Traces (s.validateToken O opt) tr (.halt .overflow)

/-- **When the arithmetic on an untrusted header is safe.** -/
theorem noOverflow_iff (O : OpensslHmac) (s : Impl) (opt : CDFDistAuthValidateTokenOptions)
    (now : Int64) :
    s.NoOverflow O opt now ↔ ∀ info, s.tokenInfo? opt = some info → info.FitsAt now.toInt := by
  constructor
  · intro hsafe info hinfo
    by_contra hnot
    refine hsafe [⟨.clockGettime, now⟩] (fun ev hev => (Option.some.inj hev).symm) ?_
    exact validateToken_overflows_iff.mpr ⟨info, now, hinfo, rfl, hnot⟩
  · intro hfits tr hclock htr
    obtain ⟨info, now', hinfo, rfl, hnot⟩ := validateToken_overflows_iff.mp htr
    have hevent : (⟨.clockGettime, now'⟩ : JwtEvent) = ⟨.clockGettime, now⟩ := hclock _ rfl
    obtain rfl : now' = now := eq_of_heq (Sigma.mk.inj hevent).2
    exact hnot (hfits info hinfo)

/-- A token that says it was made 2 to the 63 seconds before 1970. -/
def ancientRequest : CDFDistAuthValidateTokenOptions where
  token := some (ascii
    "YWxnOiAwOyBleHBpcmVUaW1lOiA0ODA7IGNyZWF0ZVRpbWU6LTkyMjMzNzIwMzY4NTQ3NzU4MDg7.AA==.AA" ++ [0])
  tokenLen := 85

theorem ancientRequest_tokenInfo? : (externalServer 1700000000).tokenInfo? ancientRequest =
    some ⟨.hmacSha256, 480, -(2 ^ 63)⟩ := by
  decide +kernel

/-- **Its age has more than 64 bits**, at any time since 1970. -/
theorem ancientRequest_overflows : ¬ ∀ (O : OpensslHmac) (s : Impl)
    (opt : CDFDistAuthValidateTokenOptions) (now : Int64), s.NoOverflow O opt now := by
  intro hall
  refine hall sampleHmac (externalServer 1700000000) ancientRequest 1700000060
    [⟨.clockGettime, 1700000060⟩] (fun ev hev => (Option.some.inj hev).symm) ?_
  refine validateToken_overflows_iff.mpr ⟨_, 1700000060, ancientRequest_tokenInfo?, rfl, ?_⟩
  have hnow : (1700000060 : Int64).toInt = 1700000060 := by decide
  unfold TokenInfo.FitsAt
  rw [hnow]
  dsimp only
  omega

end Overflow

/-! ## The text around the pieces -/

section Text

variable {O : OpensslHmac} {s : Impl} {opt : CDFDistAuthValidateTokenOptions}

/-- The pieces that were verified: those of the text, of which the first is a header in its time
and the third the signature of the first two. -/
structure Verified (O : OpensslHmac) (s : Impl) (opt : CDFDistAuthValidateTokenOptions)
    (tr : List JwtEvent) (header payload sign : Bytes) : Prop where
  pieces : split opt.text jwtSepDot = [header, payload, sign]
  checked : ∃ alg tr₁ tr₂, tr = tr₁ ++ tr₂ ∧
    Traces (checkTokenExpiredTime header) tr₁ (.ret (.ok alg)) ∧
    Traces (s.expectedSignature O opt alg sign (header ++ jwtSepDot ++ payload)) tr₂
      (.ret (.ok sign))

/-- A refusal has a code of its own. -/
def RefusedWithCode {α : Type} (_ : List JwtEvent) : Outcome Fault (Except JwtAuthRC α) → Prop
  | .ret (.error rc) => rc ≠ .ok
  | .ret (.ok _) => True
  | .halt _ => True

theorem checkTokenExpiredTime_refused (header : Bytes) :
    wp (checkTokenExpiredTime header) RefusedWithCode := by
  unfold checkTokenExpiredTime
  dsimp only
  split
  · exact fun hrc => by cases hrc
  split
  · exact fun hrc => by cases hrc
  refine wp_perform_bind.mpr fun now => ?_
  refine wp_ofExcept_bind (fun expired _ => ?_) fun _ _ => trivial
  cases expired with
  | true => exact fun hrc => by cases hrc
  | false => trivial

theorem wp_calSignB64_refused (alg : CryptoHmacAlg) (message key : Bytes) :
    wp (Prog.ofExcept (calSignB64 O alg message key) : Auth (Except JwtAuthRC Bytes))
      RefusedWithCode := by
  cases hsign : calSignB64 O alg message key with
  | error f => trivial
  | ok result =>
    cases result with
    | error rc => exact calSignB64_error hsign
    | ok sign => trivial

theorem checkCalculateSignature_refused (alg : CryptoHmacAlg) (key message : Bytes) :
    wp (s.checkCalculateSignature O alg key message) RefusedWithCode := by
  unfold Impl.checkCalculateSignature
  split
  · exact fun hrc => by cases hrc
  refine wp_perform_bind.mpr fun result => ?_
  split
  · exact fun hrc => by cases hrc
  · exact wp_calSignB64_refused alg message result.2

theorem validateTokenFromInternalKey_refused (alg : CryptoHmacAlg) (sign message : Bytes) :
    wp (s.validateTokenFromInternalKey O alg sign message) RefusedWithCode := by
  unfold Impl.validateTokenFromInternalKey
  refine wp_ofExcept_bind (fun key _ => ?_) fun _ _ => trivial
  refine wp_bind_any (fun _ invalid => ?_) fun _ _ => trivial
  split
  · exact fun hrc => by cases hrc
  refine wp_bind_of (checkCalculateSignature_refused alg key message) (fun _ result hrefused => ?_)
    fun _ _ _ => trivial
  cases result with
  | error rc => exact hrefused
  | ok signB64 =>
    dsimp only
    split
    · trivial
    refine wp_ofExcept_bind (fun oldKey _ => ?_) fun _ _ => trivial
    refine wp_bind_any (fun _ oldInvalid => ?_) fun _ _ => trivial
    split
    · exact fun hrc => by cases hrc
    refine wp_bind_of (checkCalculateSignature_refused alg oldKey message)
      (fun _ result hrefused => ?_) fun _ _ _ => trivial
    cases result with
    | error rc => exact hrefused
    | ok signB64 =>
      dsimp only
      split
      · exact fun hrc => by cases hrc
      · trivial

theorem expectedSignature_refused (alg : CryptoHmacAlg) (sign message : Bytes) :
    wp (s.expectedSignature O opt alg sign message) RefusedWithCode := by
  unfold Impl.expectedSignature
  split
  · exact validateTokenFromInternalKey_refused alg sign message
  split
  · exact fun hrc => by cases hrc
  split
  · exact fun hrc => by cases hrc
  split
  · exact fun hrc => by cases hrc
  · exact wp_calSignB64_refused alg message _

/-- An OK of `ValidateToken`, in its outcome. -/
def TextVerified (O : OpensslHmac) (s : Impl) (opt : CDFDistAuthValidateTokenOptions)
    (tr : List JwtEvent) : Outcome Fault JwtAuthRC → Prop
  | .ret rc => rc = .ok → ∃ header payload sign, Verified O s opt tr header payload sign
  | .halt _ => True

theorem validateToken_verified : wp (s.validateToken O opt) (TextVerified O s opt) := by
  unfold Impl.validateToken
  dsimp only
  split
  next hparams => exact fun hrc => absurd hrc hparams
  split
  rotate_left
  · exact fun hrc => by cases hrc
  next header payload sign hpieces =>
  -- the trace of each part is kept, beside what a refusal says
  refine wp_bind_of (wp_and (wp_iff.mpr fun _ _ htr => htr) (checkTokenExpiredTime_refused header))
    (fun tr₁ result hheader => ?_) fun _ _ _ => trivial
  obtain ⟨htr₁, hrefused⟩ := hheader
  cases result with
  | error rc => exact fun hrc => absurd hrc hrefused
  | ok alg =>
    dsimp only
    refine wp_bind_of (wp_and (wp_iff.mpr fun _ _ htr => htr)
      (expectedSignature_refused alg sign _)) (fun tr₂ result hsignature => ?_) fun _ _ _ => trivial
    obtain ⟨htr₂, hrefused⟩ := hsignature
    cases result with
    | error rc => exact fun hrc => absurd hrc hrefused
    | ok signB64 =>
      intro hrc
      have hsame : signB64 = sign := by
        by_contra hne
        rw [if_pos hne] at hrc
        cases hrc
      rw [hsame] at htr₂
      exact ⟨header, payload, sign, hpieces, alg, tr₁, tr₂, by simp, htr₁, htr₂⟩

theorem dot_not_mem_of_mem_split (text : Bytes) {piece : Bytes} (h : piece ∈ split text jwtSepDot) :
    (46 : UInt8) ∉ piece := by
  intro hdot
  obtain ⟨before, after, rfl⟩ := List.append_of_mem hdot
  refine not_infix_of_mem_split (by decide) text _ h ⟨before, after, ?_⟩
  rw [List.append_assoc]
  rfl

/-- Three pieces tell the text, but for a dot at its end. -/
theorem text_of_pieces {text header payload sign : Bytes}
    (hpieces : split text jwtSepDot = [header, payload, sign]) :
    (text = header ++ jwtSepDot ++ payload ++ jwtSepDot ++ sign ∧ ¬ jwtSepDot <:+ text) ∨
      (text = header ++ jwtSepDot ++ payload ++ jwtSepDot ++ sign ++ jwtSepDot ∧
        jwtSepDot <:+ text) := by
  have hjoin : jwtSepDot.intercalate [header, payload, sign] =
      header ++ jwtSepDot ++ payload ++ jwtSepDot ++ sign := by
    rw [List.intercalate_cons_cons, List.intercalate_cons_cons, List.intercalate_singleton]
    simp only [List.append_assoc]
  have hjoins : Joins jwtSepDot text (split text jwtSepDot) := split_joins (by decide) text
  rw [hpieces] at hjoins
  unfold Joins at hjoins
  rw [hjoin] at hjoins
  rcases hjoins with ⟨htext, hlast⟩ | ⟨htext, -⟩
  · refine .inl ⟨htext, fun hdot => ?_⟩
    -- the last character is one of the signature
    have hsign : (46 : UInt8) ∉ sign := dot_not_mem_of_mem_split text (by simp [hpieces])
    have hne : sign ≠ [] := by simpa using hlast
    have hsuffix : sign <:+ text := ⟨_, htext.symm⟩
    have hlen : jwtSepDot.length ≤ sign.length := List.length_pos_iff.mpr hne
    have hmem := (List.suffix_of_suffix_length_le hdot hsuffix hlen).subset
    exact hsign (hmem (List.mem_singleton.mpr rfl))
  · exact .inr ⟨htext, ⟨_, htext.symm⟩⟩

/-- Three pieces are the whole text where it does not end in a dot. -/
theorem text_eq_iff {text header payload sign : Bytes}
    (hpieces : split text jwtSepDot = [header, payload, sign]) :
    text = header ++ jwtSepDot ++ payload ++ jwtSepDot ++ sign ↔ ¬ jwtSepDot <:+ text := by
  rcases text_of_pieces hpieces with ⟨htext, hdot⟩ | ⟨htext, hdot⟩
  · exact iff_of_true htext hdot
  · refine iff_of_false (fun hexact => ?_) (not_not.mpr hdot)
    have hlength := congrArg List.length (hexact.symm.trans htext)
    have hone : jwtSepDot.length = 1 := rfl
    simp only [List.length_append, hone] at hlength
    omega

/-- **The grammar of an accepted token**: three verified pieces without a dot between them, and
the text is these with their dots exactly when it does not end in one more. Two texts are accepted
for the same pieces where one of them does. -/
theorem validateToken_text_iff {tr : List JwtEvent}
    (haccepted : Traces (s.validateToken O opt) tr (.ret .ok)) :
    ∃ header payload sign, Verified O s opt tr header payload sign ∧
      (46 : UInt8) ∉ header ∧ (46 : UInt8) ∉ payload ∧ (46 : UInt8) ∉ sign ∧
      (opt.text = header ++ jwtSepDot ++ payload ++ jwtSepDot ++ sign ↔ ¬ jwtSepDot <:+ opt.text) ∧
      ∀ (O' : OpensslHmac) (s' : Impl) (opt' : CDFDistAuthValidateTokenOptions)
        (tr' : List JwtEvent), Traces (s'.validateToken O' opt') tr' (.ret .ok) →
        Verified O' s' opt' tr' header payload sign →
        (opt'.text = opt.text ↔ (jwtSepDot <:+ opt'.text ↔ jwtSepDot <:+ opt.text)) := by
  obtain ⟨header, payload, sign, hverified⟩ := wp_iff.mp validateToken_verified tr _ haccepted rfl
  have hpieces := hverified.pieces
  refine ⟨header, payload, sign, hverified, dot_not_mem_of_mem_split opt.text ?_,
    dot_not_mem_of_mem_split opt.text ?_, dot_not_mem_of_mem_split opt.text ?_,
    text_eq_iff hpieces, ?_⟩
  · simp [hpieces]
  · simp [hpieces]
  · simp [hpieces]
  · intro O' s' opt' tr' _ hverified'
    rcases text_of_pieces hpieces with ⟨htext, hdot⟩ | ⟨htext, hdot⟩ <;>
      rcases text_of_pieces hverified'.pieces with ⟨htext', hdot'⟩ | ⟨htext', hdot'⟩
    · exact iff_of_true (htext'.trans htext.symm) (iff_of_false hdot' hdot)
    · exact iff_of_false (fun heq => hdot (heq ▸ hdot')) fun hiff => hdot (hiff.mp hdot')
    · exact iff_of_false (fun heq => hdot' (heq.symm ▸ hdot)) fun hiff => hdot' (hiff.mpr hdot)
    · exact iff_of_true (htext'.trans htext.symm) (iff_of_true hdot' hdot)

/-- The token of `sampleRequest`, with one more dot. -/
def dottedRequest : CDFDistAuthValidateTokenOptions where
  key := sampleRequest.key
  keyLen := sampleRequest.keyLen
  token := some (ascii
    "YWxnOiAwOyBleHBpcmVUaW1lOiA0ODA7IGNyZWF0ZVRpbWU6MTcwMDAwMDAwMDs.dXNlcgA=." ++
      List.replicate 43 65 ++ ascii "." ++ [0])
  tokenLen := 118

/-- The code of a call that returns. -/
def returnedCode : Outcome Fault JwtAuthRC → Option JwtAuthRC
  | .ret rc => some rc
  | .halt _ => none

theorem returnedCode_eq_some {o : Outcome Fault JwtAuthRC} {rc : JwtAuthRC}
    (h : returnedCode o = some rc) : o = .ret rc := by
  cases o with
  | ret rc' =>
    obtain rfl := Option.some.inj h
    rfl
  | halt f => cases h

theorem dottedRequest_accepted : ((externalServer 1700000000).validateToken sampleHmac
    dottedRequest).eval (atTime noDecryption 1700000060) = .ret .ok :=
  returnedCode_eq_some (by decide +kernel)

theorem dottedRequest_dot : jwtSepDot <:+ dottedRequest.text :=
  ⟨dottedRequest.text.dropLast, by decide +kernel⟩

theorem validateToken_text_iff_dotted : ∃ header payload sign,
    ¬ dottedRequest.text = header ++ jwtSepDot ++ payload ++ jwtSepDot ++ sign := by
  obtain ⟨header, payload, sign, -, -, -, -, hiff, -⟩ :=
    validateToken_text_iff (traces_of_eval dottedRequest_accepted)
  exact ⟨header, payload, sign, fun htext => hiff.mp htext dottedRequest_dot⟩

/-- **A token with a fourth, empty piece is accepted.** -/
theorem dotted_token_accepted : ¬ ∀ (O : OpensslHmac) (s : Impl)
    (opt : CDFDistAuthValidateTokenOptions) (tr : List JwtEvent),
    Traces (s.validateToken O opt) tr (.ret .ok) →
    ∃ header payload sign, Verified O s opt tr header payload sign ∧
      (46 : UInt8) ∉ header ∧ (46 : UInt8) ∉ payload ∧ (46 : UInt8) ∉ sign ∧
      opt.text = header ++ jwtSepDot ++ payload ++ jwtSepDot ++ sign := by
  intro hall
  obtain ⟨header, payload, sign, hverified, -, -, -, htext⟩ :=
    hall _ _ _ _ (traces_of_eval dottedRequest_accepted)
  exact (text_eq_iff hverified.pieces).mp htext dottedRequest_dot

end Text

end CdfCrypto.Jwt
