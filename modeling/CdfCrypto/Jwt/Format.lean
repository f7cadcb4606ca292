import CdfCrypto.Jwt.AuthServer

/-!
# The text of a token

A token is three pieces around two dots: the header's text in base64 without its padding, the
payload in base64 with it, and the signature in base64 without it. None of them holds a dot,
so the splitter gives the three back; the padding is restored from the length; and the header
is read back field by field (`getInfoByToken_text`).
-/

namespace CdfCrypto.Jwt

open Lib KeyManagement

/-! ## The header -/

theorem not_mem_decimal {b : UInt8} (hb : isDigit b = false) (n : Nat) : b ∉ decimal n :=
  fun h => absurd ((isDigit_of_mem_decimal h).symm.trans hb) (by decide)

theorem not_mem_decimalInt {b : UInt8} (hb : isDigit b = false) (hminus : b ≠ 45) (n : Int) :
    b ∉ decimalInt n := by
  unfold decimalInt
  split
  · intro h
    rcases List.mem_cons.mp h with rfl | h
    · exact hminus rfl
    · exact not_mem_decimal hb _ h
  · exact not_mem_decimal hb _

/-- A field is read back when neither side of its `:` holds another. -/
theorem valueOf_field {name value : Bytes} (hname : (58 : UInt8) ∉ name)
    (hvalue : (58 : UInt8) ∉ value) (hne : value ≠ []) :
    valueOf (name ++ 58 :: value) = some value := by
  unfold valueOf
  have hcolon : ascii ":" = [58] := rfl
  rw [hcolon, split_append value hname, split_of_not_mem hvalue hne]

/-- The three fields of a header, each with its `;`. -/
theorem text_eq (h : JwtTokenHeader) : h.text =
    (ascii "alg" ++ 58 :: (32 :: decimal h.alg.toNat)) ++ 59 ::
      ((ascii " expireTime" ++ 58 :: (32 :: decimalInt h.expireTimeMinute.toInt)) ++ 59 ::
        ((ascii " createTime" ++ 58 :: decimal h.createTimeSec.toNat) ++ [59])) := by
  have h₁ : ascii "alg: " = ascii "alg" ++ [58, 32] := rfl
  have h₂ : ascii "; expireTime: " = 59 :: (ascii " expireTime" ++ [58, 32]) := rfl
  have h₃ : ascii "; createTime:" = 59 :: (ascii " createTime" ++ [58]) := rfl
  have h₄ : ascii ";" = [59] := rfl
  unfold JwtTokenHeader.text
  rw [h₁, h₂, h₃, h₄]
  simp only [List.append_assoc, List.cons_append, List.nil_append]

theorem text_ne_nil (h : JwtTokenHeader) : h.text ≠ [] := by
  rw [text_eq]
  simp

/-- **A header is read back**, when it has a known algorithm and was made after 1970. -/
theorem getInfoByToken_text {h : JwtTokenHeader} (halg : h.alg.isValue = true)
    (htime : h.createTimeSec.toNat < 2 ^ 63) :
    getInfoByToken h.text =
      some ⟨h.alg, h.expireTimeMinute.toInt, h.createTimeSec.toNat⟩ := by
  have hlow := Int16.le_toInt h.expireTimeMinute
  have hhigh := Int16.toInt_lt h.expireTimeMinute
  -- no field holds a `;`, and no name or value a `:`
  have hsplit : split h.text (ascii ";") =
      [ascii "alg" ++ 58 :: (32 :: decimal h.alg.toNat),
        ascii " expireTime" ++ 58 :: (32 :: decimalInt h.expireTimeMinute.toInt),
        ascii " createTime" ++ 58 :: decimal h.createTimeSec.toNat] := by
    have hdecimal : ∀ n, (59 : UInt8) ∉ decimal n := not_mem_decimal (by decide)
    have hint : (59 : UInt8) ∉ decimalInt h.expireTimeMinute.toInt :=
      not_mem_decimalInt (by decide) (by decide) _
    have hnames : (59 : UInt8) ∉ ascii "alg" ∧ (59 : UInt8) ∉ ascii " expireTime" ∧
        (59 : UInt8) ∉ ascii " createTime" := by decide
    rw [text_eq]
    show split _ [59] = _
    rw [split_append _ (by simp [hnames, hdecimal]), split_append _ (by simp [hnames, hint]),
      split_append [] (by simp [hnames, hdecimal]), split_nil]
  have hcolon : ∀ n, (58 : UInt8) ∉ decimal n := not_mem_decimal (by decide)
  have hcolonInt : (58 : UInt8) ∉ decimalInt h.expireTimeMinute.toInt :=
    not_mem_decimalInt (by decide) (by decide) _
  have hend : ∀ c ∈ ([] : Bytes).head?, isDigit c = false := by simp
  have halgType : getAlgType (32 :: decimal h.alg.toNat) = some h.alg := by
    have hsmall : h.alg.toNat ≤ 3 := by cases h.alg <;> decide
    have hread := stoll_decimal (n := h.alg.toNat) (by omega) hend
    rw [List.append_nil] at hread
    unfold getAlgType strToInt
    rw [stoll_cons_space (by decide), hread]
    show (if _ then none else some (h.alg.toNat : Int)).bind CryptoHmacAlg.ofInt? = _
    rw [if_neg (by omega)]
    exact CryptoHmacAlg.ofInt?_toNat halg
  have hexpire : strToInt64 (32 :: decimalInt h.expireTimeMinute.toInt) =
      some h.expireTimeMinute.toInt := by
    unfold strToInt64
    rw [stoll_cons_space (by decide)]
    exact stoll_decimalInt (by omega) (by omega)
  have hcreate : strToLong (decimal h.createTimeSec.toNat) =
      some (h.createTimeSec.toNat : Int) := by
    have hread := stoll_decimal htime hend
    rw [List.append_nil] at hread
    exact hread
  unfold getInfoByToken
  rw [hsplit]
  dsimp only
  rw [valueOf_field (by decide) (by simp [hcolon]) (by simp),
    valueOf_field (by decide) (by simp [hcolonInt]) (by simp),
    valueOf_field (by decide) (hcolon _) (decimal_ne_nil _)]
  simp only [Option.bind_eq_bind, Option.bind_some, halgType, hexpire, hcreate]
  rw [if_neg]
  show ¬ (32767 : Int) < h.expireTimeMinute.toInt
  omega

/-! ## The padding -/

/-- `Split` finds the first `=`, or none. -/
theorem unpadded_eq {s : Bytes} (hs : s ≠ []) : unpadded s = .ok (stripPad s) := by
  unfold unpadded
  by_cases hpad : base64Pad ∈ s
  · have hnot : base64Pad ∉ stripPad s := fun hmem => by
      have hne := List.mem_takeWhile_imp hmem
      simp at hne
    obtain ⟨rest, hrest⟩ : ∃ rest, s.dropWhile (fun c => c != base64Pad) = base64Pad :: rest := by
      cases hdrop : s.dropWhile fun c => c != base64Pad with
      | nil =>
        have hall := List.dropWhile_eq_nil_iff.mp hdrop base64Pad hpad
        simp at hall
      | cons c rest =>
        have hc := List.head?_dropWhile_not (fun c => c != base64Pad) s
        rw [hdrop] at hc
        obtain rfl : c = base64Pad := by simpa using hc
        exact ⟨rest, rfl⟩
    have heq : s = stripPad s ++ base64Pad :: rest := by
      rw [← hrest]
      exact List.takeWhile_append_dropWhile.symm
    rw [heq, split_append rest hnot, ← heq]
  · have hstrip : stripPad s = s := by
      refine List.takeWhile_eq_self_iff.mpr fun c hc => ?_
      have hne : c ≠ base64Pad := fun h => hpad (h ▸ hc)
      simpa using hne
    rw [split_of_not_mem hpad hs, hstrip]

/-- The length tells how much padding was taken off. -/
theorem tryFixBase64_stripPad {buf : Bytes} (hlen : buf.length < 2 ^ 32) :
    tryFixBase64 (stripPad (base64Encode buf)) = base64Encode buf := by
  rw [base64Encode_eq hlen]
  obtain ⟨heq, hlength⟩ := encodeGroups_stripPad buf
  unfold tryFixBase64
  rw [hlength]
  rcases (by omega : buf.length % 3 = 0 ∨ buf.length % 3 = 1 ∨ buf.length % 3 = 2) with h | h | h
  · have hmod : (4 * buf.length + 2) / 3 % 4 = 0 := by omega
    rw [hmod]
    rw [h] at heq
    exact (heq.trans (List.append_nil _)).symm
  · have hmod : (4 * buf.length + 2) / 3 % 4 = 2 := by omega
    rw [hmod]
    rw [h] at heq
    exact heq.symm
  · have hmod : (4 * buf.length + 2) / 3 % 4 = 3 := by omega
    rw [hmod]
    rw [h] at heq
    exact heq.symm

/-- What stands before the first dot is decoded to what was encoded. -/
theorem decode_stripPad {buf : Bytes} (hlen : buf.length ≤ 3 * 2 ^ 30) :
    base64Decode (tryFixBase64 (stripPad (base64Encode buf))) = buf := by
  rw [tryFixBase64_stripPad (by omega), base64Decode_base64Encode hlen]

/-! ## The pieces -/

/-- **The splitter gives the three pieces back.** -/
theorem split_token {header payload sign : Bytes} (hheader : (46 : UInt8) ∉ header)
    (hpayload : (46 : UInt8) ∉ payload) (hsign : (46 : UInt8) ∉ sign) (hne : sign ≠ []) :
    split (header ++ jwtSepDot ++ payload ++ jwtSepDot ++ sign) jwtSepDot =
      [header, payload, sign] := by
  have heq : header ++ jwtSepDot ++ payload ++ jwtSepDot ++ sign =
      header ++ 46 :: (payload ++ 46 :: sign) := by
    simp [jwtSepDot, ascii]
  rw [heq]
  show split _ [46] = _
  rw [split_append _ hheader, split_append _ hpayload, split_of_not_mem hsign hne]

/-- A header has at most 60 characters. -/
theorem text_length_le (h : JwtTokenHeader) : h.text.length ≤ 60 := by
  have halg : (decimal h.alg.toNat).length ≤ 1 :=
    decimal_length_le (k := 0) (by cases h.alg <;> decide)
  have hcreate : (decimal h.createTimeSec.toNat).length ≤ 20 :=
    decimal_length_le (k := 19) (h.createTimeSec.toNat_lt.trans (by decide))
  have hexpire : (decimalInt h.expireTimeMinute.toInt).length ≤ 6 := by
    have hlow := Int16.le_toInt h.expireTimeMinute
    have hhigh := Int16.toInt_lt h.expireTimeMinute
    have habs : (decimal h.expireTimeMinute.toInt.natAbs).length ≤ 5 :=
      decimal_length_le (k := 4) (by omega)
    unfold decimalInt
    split
    · exact Nat.succ_le_succ habs
    · exact habs.trans (by decide)
  have h₁ : (ascii "alg: ").length = 5 := rfl
  have h₂ : (ascii "; expireTime: ").length = 14 := rfl
  have h₃ : (ascii "; createTime:").length = 13 := rfl
  have h₄ : (ascii ";").length = 1 := rfl
  unfold JwtTokenHeader.text
  simp only [List.length_append, h₁, h₂, h₃, h₄]
  omega

/-! ## Signatures -/

theorem getEstimateHmacOutLen_le (alg : CryptoHmacAlg) : getEstimateHmacOutLen alg ≤ 64 := by
  cases alg <;> decide

/-- `sign` is the unpadded base64 of the message's HMAC under the key. -/
def Signs (O : OpensslHmac) (alg : CryptoHmacAlg) (key message sign : Bytes) : Prop :=
  ∃ digest, O.hmac alg key message = some digest ∧ sign = stripPad (base64Encode digest)

theorem Signs.not_mem {O : OpensslHmac} {alg : CryptoHmacAlg} {key message sign : Bytes}
    (h : Signs O alg key message sign) {b : UInt8} (hb : isBase64 b = false)
    (hpad : b ≠ base64Pad) : b ∉ sign := by
  obtain ⟨digest, -, rfl⟩ := h
  exact not_mem_stripPad hb hpad digest

/-- **A signature that is computed** is one, and not empty. -/
theorem calSignB64_ok {O : OpensslHmac} {alg : CryptoHmacAlg} {totalB64 key sign : Bytes}
    (h : calSignB64 O alg totalB64 key = .ok (.ok sign)) :
    key ≠ [] ∧ Signs O alg key totalB64 sign ∧ sign ≠ [] ∧
      sign.length = (4 * getEstimateHmacOutLen alg + 2) / 3 := by
  unfold calSignB64 at h
  by_cases hkey : key = []
  · rw [if_pos hkey] at h
    cases h
  rw [if_neg hkey] at h
  dsimp only at h
  by_cases hrc : (nativeHmac O alg key totalB64).1 ≠ .ok
  · rw [if_pos hrc] at h
    cases h
  rw [if_neg hrc] at h
  by_cases hnil : base64Encode (nativeHmac O alg key totalB64).2 = []
  · rw [if_pos hnil] at h
    cases h
  rw [if_neg hnil, unpadded_eq hnil] at h
  obtain rfl := Except.ok.inj (Except.ok.inj h)
  have hok : nativeHmac O alg key totalB64 = (.ok, (nativeHmac O alg key totalB64).2) :=
    Prod.ext (not_not.mp hrc) rfl
  obtain ⟨hhmac, hlength⟩ := nativeHmac_ok hok
  have hle := getEstimateHmacOutLen_le alg
  have hne : (nativeHmac O alg key totalB64).2 ≠ [] := by
    intro hempty
    rw [hempty] at hnil
    exact hnil rfl
  refine ⟨hkey, ⟨_, hhmac, rfl⟩, stripPad_ne_nil hne (by omega), ?_⟩
  rw [base64Encode_eq (by omega), (encodeGroups_stripPad _).2, hlength]

/-- A signature that is refused is refused with a code. -/
theorem calSignB64_error {O : OpensslHmac} {alg : CryptoHmacAlg} {totalB64 key : Bytes}
    {rc : JwtAuthRC} (h : calSignB64 O alg totalB64 key = .ok (.error rc)) : rc ≠ .ok := by
  unfold calSignB64 at h
  by_cases hkey : key = []
  · rw [if_pos hkey] at h
    cases h
    decide
  rw [if_neg hkey] at h
  dsimp only at h
  by_cases hrc : (nativeHmac O alg key totalB64).1 ≠ .ok
  · rw [if_pos hrc] at h
    cases h
    decide
  rw [if_neg hrc] at h
  by_cases hnil : base64Encode (nativeHmac O alg key totalB64).2 = []
  · rw [if_pos hnil] at h
    cases h
    decide
  · rw [if_neg hnil, unpadded_eq hnil] at h
    cases h

end CdfCrypto.Jwt
