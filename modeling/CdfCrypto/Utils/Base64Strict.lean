import CdfCrypto.Utils.Base64RoundTrip

/-!
# Which texts are base64

The decoder turns any text into bytes: it reads the characters it knows up to the first it does
not know, and makes do with the last group as it finds it. A caller that takes no bytes for an
error and anything else for what was encoded is right about the texts an encoder writes
(`isCanonical`) and about those that begin with fewer than two characters of the alphabet; with
every other text it is handed bytes whose encoding is another text (`decodesStrictly_iff`).
-/

namespace CdfCrypto

/-! ## The grammar -/

/-- Groups of four characters of the alphabet. The last may be padded, and then the bits that
stand for nothing are zero. -/
def isCanonical : Bytes → Bool
  | [] => true
  | p :: q :: r :: s :: rest =>
    if s ≠ base64Pad then isBase64 p && isBase64 q && isBase64 r && isBase64 s && isCanonical rest
    else if r ≠ base64Pad then
      isBase64 p && isBase64 q && isBase64 r && (base64Index r).toNat % 4 = 0 && rest = []
    else isBase64 p && isBase64 q && (base64Index q).toNat % 16 = 0 && rest = []
  | _ => false

/-- The characters of the alphabet are told apart by their indices. -/
theorem base64Index_spec {c : UInt8} (h : isBase64 c = true) :
    base64Char (base64Index c) = c ∧ (base64Index c).toNat < 64 ∧ c ≠ base64Pad := by
  revert h
  exact forall_byte (p := fun c => isBase64 c = true →
    base64Char (base64Index c) = c ∧ (base64Index c).toNat < 64 ∧ c ≠ base64Pad)
    (by decide +kernel) c

/-! ## A group and back -/

section Group

variable {w x y z : UInt8}

/-- Four indices are found again in the three bytes made of them. -/
theorem sextets_octets (hw : w.toNat < 64) (hx : x.toNat < 64) (hy : y.toNat < 64)
    (hz : z.toNat < 64) :
    sextets (octets w x y z).1 (octets w x y z).2.1 (octets w x y z).2.2 = (w, x, y, z) := by
  obtain ⟨ha, hb, hc⟩ := octets_toNat w x y z
  obtain ⟨h₁, h₂, h₃, h₄⟩ := sextets_toNat (octets w x y z).1 (octets w x y z).2.1
    (octets w x y z).2.2
  refine Prod.ext ?_ (Prod.ext ?_ (Prod.ext ?_ ?_)) <;> apply UInt8.toNat_inj.mp <;>
    dsimp only <;> omega

/-- Of two indices, where the second has no bits of a third byte. -/
theorem sextets_octets_two (hw : w.toNat < 64) (hx : x.toNat < 64) (hbits : x.toNat % 16 = 0) :
    (sextets (octets w x y z).1 0 0).1 = w ∧ (sextets (octets w x y z).1 0 0).2.1 = x := by
  obtain ⟨ha, -, -⟩ := octets_toNat w x y z
  obtain ⟨h₁, h₂, -, -⟩ := sextets_toNat (octets w x y z).1 0 0
  have hzero : (0 : UInt8).toNat = 0 := rfl
  constructor <;> apply UInt8.toNat_inj.mp <;> omega

/-- Of three indices, where the third has no bits of a third byte. -/
theorem sextets_octets_three (hw : w.toNat < 64) (hx : x.toNat < 64) (hy : y.toNat < 64)
    (hbits : y.toNat % 4 = 0) :
    (sextets (octets w x y z).1 (octets w x y z).2.1 0).1 = w ∧
      (sextets (octets w x y z).1 (octets w x y z).2.1 0).2.1 = x ∧
      (sextets (octets w x y z).1 (octets w x y z).2.1 0).2.2.1 = y := by
  obtain ⟨ha, hb, -⟩ := octets_toNat w x y z
  obtain ⟨h₁, h₂, h₃, -⟩ := sextets_toNat (octets w x y z).1 (octets w x y z).2.1 0
  have hzero : (0 : UInt8).toNat = 0 := rfl
  refine ⟨?_, ?_, ?_⟩ <;> apply UInt8.toNat_inj.mp <;> omega

end Group

/-! ## The grammar is what the encoder writes -/

theorem isCanonical_encodeGroups : ∀ buf : Bytes, isCanonical (encodeGroups buf) = true
  | [] => rfl
  | [a] => by
    obtain ⟨h₁, h₂, -, -⟩ := sextets_lt a 0 0
    obtain ⟨-, h, -, -⟩ := sextets_toNat a 0 0
    obtain ⟨-, hp, -⟩ := base64Char_spec h₁
    obtain ⟨hindex, hq, -⟩ := base64Char_spec h₂
    have hbits : (sextets a 0 0).2.1.toNat % 16 = 0 := by
      have hzero : (0 : UInt8).toNat = 0 := rfl
      omega
    simp [encodeGroups, isCanonical, hp, hq, hindex, hbits]
  | [a, b] => by
    obtain ⟨h₁, h₂, h₃, -⟩ := sextets_lt a b 0
    obtain ⟨-, -, h, -⟩ := sextets_toNat a b 0
    obtain ⟨-, hp, -⟩ := base64Char_spec h₁
    obtain ⟨-, hq, -⟩ := base64Char_spec h₂
    obtain ⟨hindex, hr, hne⟩ := base64Char_spec h₃
    have hbits : (sextets a b 0).2.2.1.toNat % 4 = 0 := by
      have hzero : (0 : UInt8).toNat = 0 := rfl
      omega
    simp [encodeGroups, isCanonical, hp, hq, hr, hne, hindex, hbits]
  | a :: b :: c :: rest => by
    have ih := isCanonical_encodeGroups rest
    obtain ⟨h₁, h₂, h₃, h₄⟩ := sextets_lt a b c
    obtain ⟨-, hp, -⟩ := base64Char_spec h₁
    obtain ⟨-, hq, -⟩ := base64Char_spec h₂
    obtain ⟨-, hr, -⟩ := base64Char_spec h₃
    obtain ⟨-, hs, hne⟩ := base64Char_spec h₄
    simp [encodeGroups, isCanonical, hp, hq, hr, hs, hne, ih]

theorem accepted_cons_of {c : UInt8} (h : isBase64 c = true) (s : Bytes) :
    accepted (c :: s) = c :: accepted s := by
  obtain ⟨-, -, hne⟩ := base64Index_spec h
  simp [accepted, h, hne]

/-- **Canonical texts come back**: the groups they decode to are encoded to them. -/
theorem encodeGroups_decodeGroups : ∀ {s : Bytes}, isCanonical s = true →
    encodeGroups (decodeGroups (accepted s)) = s
  | [], _ => rfl
  | [_], h => by cases h
  | [_, _], h => by cases h
  | [_, _, _], h => by cases h
  | p :: q :: r :: s :: rest, h => by
    unfold isCanonical at h
    split at h
    next hs =>
      simp only [Bool.and_eq_true] at h
      obtain ⟨⟨⟨⟨hp, hq⟩, hr⟩, hs⟩, hrest⟩ := h
      have ih := encodeGroups_decodeGroups hrest
      obtain ⟨hp', hp₆₄, -⟩ := base64Index_spec hp
      obtain ⟨hq', hq₆₄, -⟩ := base64Index_spec hq
      obtain ⟨hr', hr₆₄, -⟩ := base64Index_spec hr
      obtain ⟨hs', hs₆₄, -⟩ := base64Index_spec hs
      rw [accepted_cons_of hp, accepted_cons_of hq, accepted_cons_of hr, accepted_cons_of hs]
      simp only [decodeGroups, encodeGroups, sextets_octets hp₆₄ hq₆₄ hr₆₄ hs₆₄, ih, hp', hq', hr',
        hs']
    next hs =>
      obtain rfl : s = base64Pad := not_not.mp hs
      split at h
      next hr =>
        simp only [Bool.and_eq_true, decide_eq_true_eq] at h
        obtain ⟨⟨⟨⟨hp, hq⟩, hr⟩, hbits⟩, rfl⟩ := h
        obtain ⟨hp', hp₆₄, -⟩ := base64Index_spec hp
        obtain ⟨hq', hq₆₄, -⟩ := base64Index_spec hq
        obtain ⟨hr', hr₆₄, -⟩ := base64Index_spec hr
        obtain ⟨h₁, h₂, h₃⟩ := sextets_octets_three (z := base64Index 0) hp₆₄ hq₆₄ hr₆₄ hbits
        rw [accepted_cons_of hp, accepted_cons_of hq, accepted_cons_of hr, accepted_pad]
        simp only [decodeGroups, encodeGroups, h₁, h₂, h₃, hp', hq', hr']
      next hr =>
        obtain rfl : r = base64Pad := not_not.mp hr
        simp only [Bool.and_eq_true, decide_eq_true_eq] at h
        obtain ⟨⟨⟨hp, hq⟩, hbits⟩, rfl⟩ := h
        obtain ⟨hp', hp₆₄, -⟩ := base64Index_spec hp
        obtain ⟨hq', hq₆₄, -⟩ := base64Index_spec hq
        obtain ⟨h₁, h₂⟩ := sextets_octets_two (y := base64Index 0) (z := base64Index 0) hp₆₄ hq₆₄
          hbits
        rw [accepted_cons_of hp, accepted_cons_of hq, accepted_pad]
        simp only [decodeGroups, encodeGroups, h₁, h₂, hp', hq']

/-! ## Texts of whole groups -/

theorem isCanonical_of_whole : ∀ {s : Bytes}, (∀ c ∈ s, isBase64 c = true) → 4 ∣ s.length →
    isCanonical s = true
  | [], _, _ => rfl
  | [_], _, h => absurd h (by simp)
  | [_, _], _, h => absurd h (by simp)
  | [_, _, _], _, h => absurd h (by simp)
  | p :: q :: r :: s :: rest, hall, h => by
    simp only [List.forall_mem_cons] at hall
    obtain ⟨hp, hq, hr, hs, hrest⟩ := hall
    obtain ⟨-, -, hne⟩ := base64Index_spec hs
    have hfour : 4 ∣ rest.length := by
      simp only [List.length_cons] at h
      omega
    unfold isCanonical
    rw [if_pos hne, hp, hq, hr, hs, isCanonical_of_whole hrest hfour]
    rfl

theorem decodeGroups_length : ∀ a : Bytes,
    (decodeGroups a).length = 3 * (a.length / 4) + (a.length % 4 - 1)
  | [] => rfl
  | [_] => by simp [decodeGroups]
  | [_, _] => by simp [decodeGroups]
  | [_, _, _] => by simp [decodeGroups]
  | p :: q :: r :: s :: rest => by
    have ih := decodeGroups_length rest
    simp only [decodeGroups, List.length_cons, ih]
    omega

theorem accepted_length_le (s : Bytes) : (accepted s).length ≤ s.length :=
  (List.takeWhile_prefix _).length_le

/-- A text that is accepted to its end is of the alphabet. -/
theorem mem_of_accepted {s : Bytes} (h : accepted s = s) : ∀ c ∈ s, isBase64 c = true := by
  intro c hc
  have hboth := List.takeWhile_eq_self_iff.mp h c hc
  rw [Bool.and_eq_true] at hboth
  exact hboth.2

/-! ## Long texts -/

/-- Where the decoder's index starts over, it reads the beginning again. -/
theorem cursorBytes_eq {s : Bytes} (h : s.length ≤ 2 * 2 ^ 32) :
    cursorBytes s = s.take (2 ^ 32) ++ s.take (s.length - 2 ^ 32) := by
  unfold cursorBytes
  by_cases hshort : s.length ≤ 2 ^ 32
  · have hnone : s.length - 2 ^ 32 = 0 := Nat.sub_eq_zero_of_le hshort
    rw [if_pos hshort, List.take_of_length_le hshort, hnone, List.take_zero, List.append_nil]
  · rw [if_neg hshort]
    exact map_getD_mod_range (by omega) h

theorem cursorBytes_length (s : Bytes) : (cursorBytes s).length = s.length := by
  unfold cursorBytes
  split
  · rfl
  · rw [List.length_map, List.length_range]

/-- The characters past the index are the ones at the beginning. -/
theorem cursorBytes_eq_self_iff {s : Bytes} (h : s.length ≤ 2 * 2 ^ 32) :
    cursorBytes s = s ↔ s.drop (2 ^ 32) <+: s := by
  rw [cursorBytes_eq h, take_append_take_iff (Nat.sub_le _ _)]
  exact and_iff_right rfl

/-- The first characters are read once in any case. -/
theorem accepted_cursorBytes_short (s : Bytes) :
    (accepted (cursorBytes s)).length < 2 ↔ (accepted s).length < 2 := by
  by_cases hshort : s.length ≤ 2 ^ 32
  · rw [cursorBytes, if_pos hshort]
  · rcases s with _ | ⟨p, _ | ⟨q, rest⟩⟩
    · exact absurd (Nat.zero_le _) hshort
    · exact absurd (show 1 ≤ 2 ^ 32 by omega) hshort
    · have hread : ∃ others, cursorBytes (p :: q :: rest) = p :: q :: others := by
        rw [cursorBytes, if_neg hshort]
        have hrange : (p :: q :: rest).length = rest.length + 1 + 1 := rfl
        rw [hrange, List.range_succ_eq_map, List.range_succ_eq_map]
        exact ⟨_, rfl⟩
      obtain ⟨others, hread⟩ := hread
      rw [hread]
      unfold accepted
      rw [List.takeWhile_cons, List.takeWhile_cons, List.takeWhile_cons, List.takeWhile_cons]
      split
      · split
        · simp only [List.length_cons]
          omega
        · exact Iff.rfl
      · exact Iff.rfl

/-- Of a text that starts over, a character that stops the decoder is in the beginning. -/
theorem accepted_cursorBytes_cases {s : Bytes} (hlow : 2 ^ 32 < s.length)
    (hhigh : s.length ≤ 2 * 2 ^ 32) :
    accepted (cursorBytes s) = cursorBytes s ∨ (accepted (cursorBytes s)).length < 2 ^ 32 := by
  have hfirst : (s.take (2 ^ 32)).length = 2 ^ 32 := List.length_take_of_le (Nat.le_of_lt hlow)
  have hle := accepted_length_le (s.take (2 ^ 32))
  rw [cursorBytes_eq hhigh]
  unfold accepted at hle ⊢
  rw [List.takeWhile_append]
  split
  next hall =>
    -- what is read again is a part of what has been accepted
    have hself : List.takeWhile (fun c => c != base64Pad && isBase64 c) (s.take (2 ^ 32)) =
        s.take (2 ^ 32) := (List.takeWhile_prefix _).eq_of_length hall
    have hagain : s.take (s.length - 2 ^ 32) <+: s.take (2 ^ 32) :=
      List.take_prefix_take_left (by omega)
    refine .inl (congrArg _ (List.takeWhile_eq_self_iff.mpr fun c hc => ?_))
    exact List.takeWhile_eq_self_iff.mp hself c (hagain.subset hc)
  next hall => exact .inr (by omega)

/-! ## The promise -/

/-- What is decoded of a text is what the text encodes. -/
def DecodesStrictly (s : Bytes) : Prop :=
  base64Decode s ≠ [] → base64Encode (base64Decode s) = s

theorem base64Decode_eq_nil_iff (s : Bytes) : base64Decode s = [] ↔ (accepted s).length < 2 := by
  have hlength := decodeGroups_length (accepted (cursorBytes s))
  rw [← accepted_cursorBytes_short, base64Decode, ← List.length_eq_zero_iff, hlength]
  omega

/-- An encoding is canonical, and no longer than 32 bits of data make it. -/
theorem base64Encode_canonical (buf : Bytes) :
    isCanonical (base64Encode buf) = true ∧ 3 * (base64Encode buf).length < 4 * 2 ^ 32 := by
  have hlength := encodeGroups_length (buf.take (buf.length % 2 ^ 32))
  have htake := List.length_take_le (buf.length % 2 ^ 32) buf
  refine ⟨isCanonical_encodeGroups _, ?_⟩
  unfold base64Encode
  omega

/-- A text the encoder wrote is not read past the end of the index. -/
theorem cursorBytes_of_strict {s : Bytes} (hlen : 3 * s.length < 4 * 2 ^ 32)
    (hs : base64Encode (base64Decode s) = s) : cursorBytes s = s := by
  by_cases hshort : s.length ≤ 2 ^ 32
  · rw [cursorBytes, if_pos hshort]
  have hdecoded := decodeGroups_length (accepted (cursorBytes s))
  have hlength := congrArg List.length hs
  rw [base64Encode, encodeGroups_length, base64Decode] at hlength
  have htake := List.length_take_le' ((decodeGroups (accepted (cursorBytes s))).length % 2 ^ 32)
    (decodeGroups (accepted (cursorBytes s)))
  obtain hall | hstopped := accepted_cursorBytes_cases (Nat.lt_of_not_le hshort) (by omega)
  · have hfour : 4 ∣ (cursorBytes s).length := by
      rw [cursorBytes_length]
      omega
    have hwhole := isCanonical_of_whole (mem_of_accepted hall) hfour
    have hread := cursorBytes_length s
    rw [← encodeGroups_decodeGroups hwhole]
    rw [base64Decode, base64Encode_eq] at hs
    · exact hs
    · rw [hdecoded, hall]
      omega
  · -- too little has been read for so long a text
    omega

/-- **Where the decoder is strict**: exactly with a text that gives no bytes, and with one that
is canonical and, where it is longer than the index reaches, goes on as it began. -/
theorem decodesStrictly_iff (s : Bytes) : DecodesStrictly s ↔ (accepted s).length < 2 ∨
    isCanonical s = true ∧ 3 * s.length < 4 * 2 ^ 32 ∧ s.drop (2 ^ 32) <+: s := by
  rw [← base64Decode_eq_nil_iff]
  constructor
  · intro hstrict
    by_cases hnil : base64Decode s = []
    · exact .inl hnil
    have hs := hstrict hnil
    obtain ⟨hcanonical, hlen⟩ := base64Encode_canonical (base64Decode s)
    rw [hs] at hcanonical hlen
    exact .inr ⟨hcanonical, hlen, (cursorBytes_eq_self_iff (by omega)).mp
      (cursorBytes_of_strict hlen hs)⟩
  · intro hcases hne
    obtain hnil | hcanonical := hcases
    · exact absurd hnil hne
    obtain ⟨hcanonical, hlen, hagain⟩ := hcanonical
    have hsame := (cursorBytes_eq_self_iff (by omega)).mpr hagain
    have hdecoded := decodeGroups_length (accepted s)
    have hle := accepted_length_le s
    rw [base64Decode, hsame, base64Encode_eq (by omega), encodeGroups_decodeGroups hcanonical]

/-- Three letters of a text that is no base64 are decoded to two bytes. -/
theorem not_base64_decoded : base64Decode (ascii "not-base64!") = [158, 139] ∧
    ¬ DecodesStrictly (ascii "not-base64!") := by
  have hdecoded : base64Decode (ascii "not-base64!") = [158, 139] := by decide +kernel
  refine ⟨hdecoded, fun hstrict => ?_⟩
  have hback := hstrict (by rw [hdecoded]; exact List.cons_ne_nil _ _)
  revert hback
  rw [hdecoded]
  decide +kernel

end CdfCrypto
