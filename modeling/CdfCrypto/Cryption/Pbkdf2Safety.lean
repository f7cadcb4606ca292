import CdfCrypto.Cryption.Pbkdf2

/-!
# Records from anywhere

`GetPbkdf2Config` measures the text and reads the data. A text of any length may decode to no data
at all, and the length of the output is whatever two bytes say: seven bytes of header are read
whether or not there are seven, and the length of the salt is a difference of unsigned numbers.

What is returned is right nevertheless: a difference that wraps is too large for the copy, which
refuses it (`readPbkdf2Config_ok`). What is not right is the way there, exactly with data that is
shorter than its header and the output the header tells of (`parsesSafely_iff`).
-/

namespace CdfCrypto

open Lib.BigEndian

/-- The output length that the data tells of, in the two bytes it has for it. -/
def outLenField (decodedData : Bytes) : Nat :=
  (decodedData.getD 5 0).toNat * 2 ^ 8 + (decodedData.getD 6 0).toNat

/-- The configuration that stands in the data. -/
structure Pbkdf2ConfigStruct.ReadFrom (config : Pbkdf2ConfigStruct) (decodedData : Bytes) : Prop where
  length : 7 + outLenField decodedData ≤ decodedData.length
  algId : config.ccsecCryptMacAlgId = .ofNat (decodedData.getD 0 0).toNat
  iterationTimes : config.iterationTimes.toNat = (decodedData.getD 1 0).toNat * 2 ^ 24 +
    (decodedData.getD 2 0).toNat * 2 ^ 16 + (decodedData.getD 3 0).toNat * 2 ^ 8 +
    (decodedData.getD 4 0).toNat
  outLen : config.outLen.toNat = outLenField decodedData
  salt : config.salt = decodedData.drop (7 + outLenField decodedData)

/-- An access that stays in the data, and a difference that does not wrap. -/
def Pbkdf2Access.Safe (decodedData : Bytes) : Pbkdf2Access → Prop
  | read off len => off + len ≤ decodedData.length
  | subtract minuend subtrahend => subtrahend ≤ minuend

/-- The parse of a text: every access is safe, and what it returns is read from the data. -/
structure ParsesSafely (memory : Nat → UInt8) (base64Code : Bytes) (config : Pbkdf2ConfigStruct) :
    Prop where
  accesses : ∀ access ∈ (getPbkdf2Config memory base64Code config).1,
    access.Safe (base64Decode base64Code)
  fields : (getPbkdf2Config memory base64Code config).2.1 = .ok () →
    (getPbkdf2Config memory base64Code config).2.2.ReadFrom (base64Decode base64Code)

variable (memory : Nat → UInt8) {decodedData : Bytes}

/-- The output length that is used. -/
def outLenRead (memory : Nat → UInt8) (decodedData : Bytes) : UInt32 :=
  (decodeBuf memory decodedData 5).toUInt32 <<< 8 ||| (decodeBuf memory decodedData 6).toUInt32

theorem outLenRead_lt (decodedData : Bytes) : (outLenRead memory decodedData).toNat < 2 ^ 16 := by
  have h₁ := (decodeBuf memory decodedData 5).toNat_lt
  have h₀ := (decodeBuf memory decodedData 6).toNat_lt
  unfold outLenRead
  rw [toNat_be16]
  omega

/-- Where there are seven bytes, it is the data's. -/
theorem outLenRead_eq (h : 7 ≤ decodedData.length) :
    (outLenRead memory decodedData).toNat = outLenField decodedData := by
  unfold outLenRead outLenField
  rw [toNat_be16, decodeBuf_of_lt (by omega) 0, decodeBuf_of_lt (by omega) 0]

/-- The accesses before the copy. -/
theorem safe_before_copy {len : UInt32} (hlen : len.toNat = decodedData.length)
    (outLen : UInt32) (h : 7 + outLen.toNat ≤ decodedData.length) :
    ∀ access ∈ [Pbkdf2Access.read 0 1, .read 1 4, .read 5 2, .subtract len outLen,
      .subtract (len - outLen) (UInt32.ofNat pbkdf2OutOffset)], access.Safe decodedData := by
  have hle : outLen ≤ len := UInt32.le_iff_toNat_le.mpr (by omega)
  have hdiff := UInt32.toNat_sub_of_le len outLen hle
  have hseven : (UInt32.ofNat pbkdf2OutOffset).toNat = 7 := rfl
  intro access haccess
  simp only [List.mem_cons, List.not_mem_nil, or_false] at haccess
  obtain rfl | rfl | rfl | rfl | rfl := haccess
  · show 0 + 1 ≤ _
    omega
  · show 1 + 4 ≤ _
    omega
  · show 5 + 2 ≤ _
    omega
  · exact hle
  · refine UInt32.le_iff_toNat_le.mpr ?_
    omega

/-- **Data that is long enough** is read inside its bounds, and what is returned stands in it. -/
theorem readPbkdf2Config_long (hsize : decodedData.length < 2 ^ 32)
    (h : 7 + outLenField decodedData ≤ decodedData.length) (config : Pbkdf2ConfigStruct) :
    (∀ access ∈ (readPbkdf2Config memory decodedData config).1, access.Safe decodedData) ∧
      ((readPbkdf2Config memory decodedData config).2.1 = .ok () →
        (readPbkdf2Config memory decodedData config).2.2.ReadFrom decodedData) := by
  have hout := outLenRead_eq memory (show 7 ≤ decodedData.length by omega)
  have hnat : (UInt32.ofNat decodedData.length).toNat = decodedData.length :=
    UInt32.toNat_ofNat_of_lt' hsize
  have hsaltLen := saltLen_toNat (outLenRead memory decodedData) hsize (by omega)
  have hbefore := safe_before_copy hnat (outLenRead memory decodedData) (by omega)
  unfold outLenRead at hout hsaltLen hbefore
  unfold readPbkdf2Config
  dsimp only
  rw [hsaltLen, hout]
  split
  · have hall : 7 + outLenField decodedData + (decodedData.length - outLenField decodedData - 7) =
        decodedData.length := by omega
    refine ⟨fun access haccess => ?_, fun _ => ⟨h, ?_, ?_, hout, ?_⟩⟩
    · obtain haccess | haccess := List.mem_append.mp haccess
      · exact hbefore access haccess
      · obtain rfl := List.mem_singleton.mp haccess
        exact Nat.le_of_eq hall
    · show CcsecCryptMacAlgId.ofNat _ = _
      rw [decodeBuf_of_lt (by omega) 0]
    · show UInt32.toNat (_ ||| _) = _
      rw [toNat_be32, decodeBuf_of_lt (by omega) 0, decodeBuf_of_lt (by omega) 0,
        decodeBuf_of_lt (by omega) 0, decodeBuf_of_lt (by omega) 0]
    · show stream _ _ = _
      have hrest : (decodedData.drop (7 + outLenField decodedData)).length ≤
          decodedData.length - outLenField decodedData - 7 := by
        rw [List.length_drop]
        omega
      rw [show pbkdf2OutOffset = 7 from rfl, stream_decodeBuf memory (Nat.le_of_eq hall), slice,
        List.take_of_length_le hrest]
  · exact ⟨hbefore, fun h => by cases h⟩

/-- **Data that is too short** is read past its end, or its length is taken for a larger one. -/
theorem readPbkdf2Config_short (hsize : decodedData.length < 2 ^ 32)
    (h : decodedData.length < 7 + outLenField decodedData) (config : Pbkdf2ConfigStruct) :
    ∃ access ∈ (readPbkdf2Config memory decodedData config).1, ¬ access.Safe decodedData := by
  have hmem : ∀ access ∈ [Pbkdf2Access.read 5 2,
      .subtract (UInt32.ofNat decodedData.length) (outLenRead memory decodedData),
      .subtract (UInt32.ofNat decodedData.length - outLenRead memory decodedData)
        (UInt32.ofNat pbkdf2OutOffset)],
      access ∈ (readPbkdf2Config memory decodedData config).1 := by
    intro access haccess
    unfold readPbkdf2Config
    dsimp only
    split <;> simp only [List.mem_append, List.mem_cons, List.not_mem_nil, or_false] at haccess ⊢ <;>
      simp only [outLenRead] at haccess <;> tauto
  by_cases hheader : decodedData.length < 7
  · refine ⟨_, hmem _ List.mem_cons_self, fun hsafe => ?_⟩
    have hsafe : 5 + 2 ≤ decodedData.length := hsafe
    omega
  have hout := outLenRead_eq memory (Nat.le_of_not_lt hheader)
  have hnat : (UInt32.ofNat decodedData.length).toNat = decodedData.length :=
    UInt32.toNat_ofNat_of_lt' hsize
  by_cases hfirst : outLenRead memory decodedData ≤ UInt32.ofNat decodedData.length
  · refine ⟨_, hmem _ (.tail _ (.tail _ List.mem_cons_self)), fun hsafe => ?_⟩
    have hsafe := UInt32.le_iff_toNat_le.mp hsafe
    have hdiff := UInt32.toNat_sub_of_le _ _ hfirst
    have hseven : (UInt32.ofNat pbkdf2OutOffset).toNat = 7 := rfl
    omega
  · exact ⟨_, hmem _ (.tail _ List.mem_cons_self), hfirst⟩

/-- **What is returned is right in any case**: a length that has wrapped is refused by the copy. -/
theorem readPbkdf2Config_ok (hsize : decodedData.length < 2 ^ 32) (config : Pbkdf2ConfigStruct)
    (hok : (readPbkdf2Config memory decodedData config).2.1 = .ok ()) :
    (readPbkdf2Config memory decodedData config).2.2.ReadFrom decodedData := by
  by_cases h : 7 + outLenField decodedData ≤ decodedData.length
  · exact (readPbkdf2Config_long memory hsize h config).2 hok
  have hlt := outLenRead_lt memory decodedData
  have hshort : decodedData.length < 7 + (outLenRead memory decodedData).toNat := by
    by_cases hheader : 7 ≤ decodedData.length
    · rw [outLenRead_eq memory hheader]
      omega
    · omega
  have hnat : (UInt32.ofNat decodedData.length).toNat = decodedData.length :=
    UInt32.toNat_ofNat_of_lt' hsize
  have hseven : (UInt32.ofNat pbkdf2OutOffset).toNat = 7 := rfl
  -- at least 2³² − 2¹⁶ − 7 bytes are asked for
  have hwrapped : memcpyS (UInt32.ofNat decodedData.length - outLenRead memory decodedData -
      UInt32.ofNat pbkdf2OutOffset).toNat (UInt32.ofNat decodedData.length -
        outLenRead memory decodedData - UInt32.ofNat pbkdf2OutOffset).toNat = false := by
    simp only [memcpyS, UInt32.toNat_sub, hnat, hseven, Bool.and_eq_false_iff, decide_eq_false_iff_not]
    omega
  unfold outLenRead at hwrapped
  unfold readPbkdf2Config at hok
  dsimp only at hok
  rw [hwrapped] at hok
  cases hok

/-- **Where the parse is safe**: exactly where the text is refused for its length or that of its
data, and where the data is as long as its header says. -/
theorem parsesSafely_iff (memory : Nat → UInt8) (base64Code : Bytes) (config : Pbkdf2ConfigStruct) :
    ParsesSafely memory base64Code config ↔ base64Code.length < 76 ∨
      base64DecodeLen base64Code.length < (base64Decode base64Code).length ∨
      7 + outLenField (base64Decode base64Code) ≤ (base64Decode base64Code).length := by
  have hmin : pbkdf2MinSrcLen = 76 := rfl
  by_cases hshort : base64Code.length < 76
  · have hrun : getPbkdf2Config memory base64Code config = ([], .error .paramInvalid, config) :=
      if_pos (hmin ▸ hshort)
    refine iff_of_true ⟨?_, ?_⟩ (.inl hshort)
    · rw [hrun]
      nofun
    · rw [hrun]
      nofun
  by_cases hlong : base64DecodeLen base64Code.length < (base64Decode base64Code).length
  · have hrun : getPbkdf2Config memory base64Code config = ([], .error .error, config) := by
      unfold getPbkdf2Config
      rw [if_neg (hmin ▸ hshort)]
      exact if_pos hlong
    refine iff_of_true ⟨?_, ?_⟩ (.inr (.inl hlong))
    · rw [hrun]
      nofun
    · rw [hrun]
      nofun
  have hrun : getPbkdf2Config memory base64Code config =
      readPbkdf2Config memory (base64Decode base64Code) config := by
    unfold getPbkdf2Config
    rw [if_neg (hmin ▸ hshort)]
    exact if_neg hlong
  have hsize : (base64Decode base64Code).length < 2 ^ 32 := by
    unfold base64DecodeLen at hlong
    omega
  rw [or_iff_right hshort, or_iff_right hlong]
  constructor
  · intro hsafe
    by_contra hnot
    obtain ⟨access, haccess, hunsafe⟩ :=
      readPbkdf2Config_short memory hsize (Nat.lt_of_not_le hnot) config
    exact hunsafe (hsafe.accesses access (hrun ▸ haccess))
  · intro h
    obtain ⟨haccesses, -⟩ := readPbkdf2Config_long memory hsize h config
    constructor
    · rw [hrun]
      exact haccesses
    · rw [hrun]
      exact readPbkdf2Config_ok memory hsize config

/-- A text of 76 characters, whose data says that its output has 65535 bytes. -/
theorem slashes_wrap :
    .subtract 57 65535 ∈ (getPbkdf2Config (fun _ => 0) (List.replicate 76 47) {}).1 ∧
      ¬ ParsesSafely (fun _ => 0) (List.replicate 76 47) {} := by
  have hmem : .subtract 57 65535 ∈
      (getPbkdf2Config (fun _ => 0) (List.replicate 76 47) {}).1 := by decide +kernel
  refine ⟨hmem, fun hsafe => ?_⟩
  have hle : (65535 : UInt32) ≤ 57 := hsafe.accesses _ hmem
  exact absurd hle (by decide)

end CdfCrypto
