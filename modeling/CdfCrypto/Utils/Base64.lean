import CdfCrypto.Utils.Bytes

/-!
# Base64 as the framework writes and reads it

`base64Encode` is the source's loop over groups of three bytes, with its masks
and shifts, and `base64Decode` its loop over groups of four characters. The
decoder is lenient: it stops at the first `=` or the first character outside
the alphabet and never looks at what follows, and a last group of two or three
characters yields one or two bytes with no `=` asked for.

Both loops count in 32 bits. The encoder's length argument is an
`unsigned int`, so a longer buffer is cut (`base64Encode`); the decoder's read
index is a `uint32_t` under a `size_t` counter, so a longer text is read again
from its start (`cursorBytes`).

The masks are arithmetic: `sextets_toNat` and `octets_toNat` say which quotient
and remainder each of them is, and the round trip `base64Decode_base64Encode`
is then linear arithmetic on a group at a time.
-/

namespace CdfCrypto

def base64Chars : Bytes :=
  ascii "ABCDEFGHIJKLMNOPQRSTUVWXYZabcdefghijklmnopqrstuvwxyz0123456789+/"

/-- The padding character `=`. -/
def base64Pad : UInt8 := 61

/-- `isalnum` of the C locale. -/
def isAlnum (c : UInt8) : Bool :=
  (48 ≤ c && c ≤ 57) || (65 ≤ c && c ≤ 90) || (97 ≤ c && c ≤ 122)

def isBase64 (c : UInt8) : Bool := isAlnum c || c == 43 || c == 47

/-- `BASE64_CHARS[k]`. -/
def base64Char (k : UInt8) : UInt8 := base64Chars.getD k.toNat 0

/-- `BASE64_CHARS.find(c)` stored in a byte: `npos` is stored as 255. -/
def base64Index (c : UInt8) : UInt8 :=
  if c ∈ base64Chars then (base64Chars.idxOf c).toUInt8 else 255

/-- `charArray4` of the encoder for one group of three bytes. -/
def sextets (a b c : UInt8) : UInt8 × UInt8 × UInt8 × UInt8 :=
  ((a &&& 0xfc) >>> 2,
   ((a &&& 0x03) <<< 4) + ((b &&& 0xf0) >>> 4),
   ((b &&& 0x0f) <<< 2) + ((c &&& 0xc0) >>> 6),
   c &&& 0x3f)

/-- `charArray3` of the decoder for one group of four indices. -/
def octets (w x y z : UInt8) : UInt8 × UInt8 × UInt8 :=
  ((w <<< 2) + ((x &&& 0x30) >>> 4),
   ((x &&& 0xf) <<< 4) + ((y &&& 0x3c) >>> 2),
   ((y &&& 0x3) <<< 6) + z)

/-- The encoder's loop; the last group is filled up with zero bytes and its
missing characters with `=`. -/
def encodeGroups : Bytes → Bytes
  | [] => []
  | [a] =>
    let (w, x, _, _) := sextets a 0 0
    [base64Char w, base64Char x, base64Pad, base64Pad]
  | [a, b] =>
    let (w, x, y, _) := sextets a b 0
    [base64Char w, base64Char x, base64Char y, base64Pad]
  | a :: b :: c :: rest =>
    let (w, x, y, z) := sextets a b c
    base64Char w :: base64Char x :: base64Char y :: base64Char z :: encodeGroups rest

/-- `Base64Encode(buf, bufLen)` where the caller passes the size of `buf`, which
the parameter's type cuts to 32 bits. -/
def base64Encode (buf : Bytes) : Bytes := encodeGroups (buf.take (buf.length % 2 ^ 32))

/-- The characters the decoder's 32-bit index reads, in order. -/
def cursorBytes (s : Bytes) : Bytes :=
  if s.length ≤ 2 ^ 32 then s
  else (List.range s.length).map fun k => s.getD (k % 2 ^ 32) 0

/-- The decoder's loop over the accepted characters. A missing character of the
last group is a `\0`, whose index is `npos`. -/
def decodeGroups : Bytes → Bytes
  | [] => []
  | [_] => []
  | [p, q] =>
    let (a, _, _) := octets (base64Index p) (base64Index q) (base64Index 0) (base64Index 0)
    [a]
  | [p, q, r] =>
    let (a, b, _) := octets (base64Index p) (base64Index q) (base64Index r) (base64Index 0)
    [a, b]
  | p :: q :: r :: s :: rest =>
    let (a, b, c) := octets (base64Index p) (base64Index q) (base64Index r) (base64Index s)
    a :: b :: c :: decodeGroups rest

/-- The part of a text the decoder's loop condition accepts. -/
def accepted (s : Bytes) : Bytes := s.takeWhile fun c => c != base64Pad && isBase64 c

def base64Decode (encodedString : Bytes) : Bytes :=
  decodeGroups (accepted (cursorBytes encodedString))

/-! ## What the masks compute -/

theorem toNat_and_shift (a : UInt8) :
    ((a &&& 0xfc) >>> 2).toNat = a.toNat / 4 ∧ ((a &&& 0x03) <<< 4).toNat = a.toNat % 4 * 16 ∧
    ((a &&& 0xf0) >>> 4).toNat = a.toNat / 16 ∧ ((a &&& 0x0f) <<< 2).toNat = a.toNat % 16 * 4 ∧
    ((a &&& 0xc0) >>> 6).toNat = a.toNat / 64 ∧ (a &&& 0x3f).toNat = a.toNat % 64 :=
  forall_byte (p := fun a => ((a &&& 0xfc) >>> 2).toNat = a.toNat / 4 ∧
    ((a &&& 0x03) <<< 4).toNat = a.toNat % 4 * 16 ∧ ((a &&& 0xf0) >>> 4).toNat = a.toNat / 16 ∧
    ((a &&& 0x0f) <<< 2).toNat = a.toNat % 16 * 4 ∧ ((a &&& 0xc0) >>> 6).toNat = a.toNat / 64 ∧
    (a &&& 0x3f).toNat = a.toNat % 64) (by decide +kernel) a

theorem toNat_shift_and (i : UInt8) :
    (i <<< 2).toNat = i.toNat * 4 % 256 ∧ ((i &&& 0x30) >>> 4).toNat = i.toNat / 16 % 4 ∧
    ((i &&& 0xf) <<< 4).toNat = i.toNat % 16 * 16 ∧ ((i &&& 0x3c) >>> 2).toNat = i.toNat / 4 % 16 ∧
    ((i &&& 0x3) <<< 6).toNat = i.toNat % 4 * 64 :=
  forall_byte (p := fun i => (i <<< 2).toNat = i.toNat * 4 % 256 ∧
    ((i &&& 0x30) >>> 4).toNat = i.toNat / 16 % 4 ∧ ((i &&& 0xf) <<< 4).toNat = i.toNat % 16 * 16 ∧
    ((i &&& 0x3c) >>> 2).toNat = i.toNat / 4 % 16 ∧ ((i &&& 0x3) <<< 6).toNat = i.toNat % 4 * 64)
    (by decide +kernel) i

/-- The encoder cuts the 24 bits of a group into quotients and remainders. -/
theorem sextets_toNat (a b c : UInt8) :
    (sextets a b c).1.toNat = a.toNat / 4 ∧
    (sextets a b c).2.1.toNat = a.toNat % 4 * 16 + b.toNat / 16 ∧
    (sextets a b c).2.2.1.toNat = b.toNat % 16 * 4 + c.toNat / 64 ∧
    (sextets a b c).2.2.2.toNat = c.toNat % 64 := by
  obtain ⟨ha₁, ha₂, -, -, -, -⟩ := toNat_and_shift a
  obtain ⟨-, -, hb₃, hb₄, -, -⟩ := toNat_and_shift b
  obtain ⟨-, -, -, -, hc₅, hc₆⟩ := toNat_and_shift c
  have hb := b.toNat_lt
  have hc := c.toNat_lt
  refine ⟨ha₁, ?_, ?_, hc₆⟩
  · simp only [sextets, UInt8.toNat_add, ha₂, hb₃]
    omega
  · simp only [sextets, UInt8.toNat_add, hb₄, hc₅]
    omega

theorem octets_toNat (w x y z : UInt8) :
    (octets w x y z).1.toNat = (w.toNat * 4 % 256 + x.toNat / 16 % 4) % 256 ∧
    (octets w x y z).2.1.toNat = x.toNat % 16 * 16 + y.toNat / 4 % 16 ∧
    (octets w x y z).2.2.toNat = (y.toNat % 4 * 64 + z.toNat) % 256 := by
  obtain ⟨hw, -, -, -, -⟩ := toNat_shift_and w
  obtain ⟨-, hx₂, hx₃, -, -⟩ := toNat_shift_and x
  obtain ⟨-, -, -, hy₄, hy₅⟩ := toNat_shift_and y
  refine ⟨?_, ?_, ?_⟩
  · simp only [octets, UInt8.toNat_add, hw, hx₂]
  · simp only [octets, UInt8.toNat_add, hx₃, hy₄]
    omega
  · simp only [octets, UInt8.toNat_add, hy₅]

/-- Decoding the indices of a group gives the group back; a byte that was not
encoded leaves only the earlier bytes determined. -/
theorem octets_sextets (a b c z : UInt8) :
    (octets (sextets a b c).1 (sextets a b c).2.1 (sextets a b c).2.2.1 z).1 = a ∧
    (octets (sextets a b c).1 (sextets a b c).2.1 (sextets a b c).2.2.1 z).2.1 = b ∧
    (octets (sextets a b c).1 (sextets a b c).2.1 (sextets a b c).2.2.1
      (sextets a b c).2.2.2).2.2 = c := by
  obtain ⟨h₁, h₂, h₃, h₄⟩ := sextets_toNat a b c
  have ha := a.toNat_lt
  have hb := b.toNat_lt
  have hc := c.toNat_lt
  refine ⟨?_, ?_, ?_⟩ <;> apply UInt8.toNat_inj.mp
  · rw [(octets_toNat _ _ _ _).1, h₁, h₂]
    omega
  · rw [(octets_toNat _ _ _ _).2.1, h₂, h₃]
    omega
  · rw [(octets_toNat _ _ _ _).2.2, h₃, h₄]
    omega

/-! ## The alphabet -/

theorem base64Chars_spec : ∀ k : Fin 64,
    base64Index (base64Char k.val.toUInt8) = k.val.toUInt8 ∧
    isBase64 (base64Char k.val.toUInt8) = true ∧ base64Char k.val.toUInt8 ≠ base64Pad := by
  decide +kernel

/-- The characters the encoder writes for bits. -/
theorem base64Char_spec {k : UInt8} (hk : k.toNat < 64) :
    base64Index (base64Char k) = k ∧ isBase64 (base64Char k) = true ∧
    base64Char k ≠ base64Pad := by
  have h := base64Chars_spec ⟨k.toNat, hk⟩
  simpa using h

theorem sextets_lt (a b c : UInt8) :
    (sextets a b c).1.toNat < 64 ∧ (sextets a b c).2.1.toNat < 64 ∧
    (sextets a b c).2.2.1.toNat < 64 ∧ (sextets a b c).2.2.2.toNat < 64 := by
  obtain ⟨h₁, h₂, h₃, h₄⟩ := sextets_toNat a b c
  have ha := a.toNat_lt
  have hb := b.toNat_lt
  have hc := c.toNat_lt
  omega

/-! ## Round trip -/

theorem base64Encode_eq {buf : Bytes} (h : buf.length < 2 ^ 32) :
    base64Encode buf = encodeGroups buf := by
  unfold base64Encode
  rw [Nat.mod_eq_of_lt h, List.take_length]

theorem encodeGroups_length : ∀ buf : Bytes,
    (encodeGroups buf).length = 4 * ((buf.length + 2) / 3)
  | [] => rfl
  | [_] => by simp [encodeGroups]
  | [_, _] => by simp [encodeGroups]
  | a :: b :: c :: rest => by
    have ih := encodeGroups_length rest
    simp only [encodeGroups, List.length_cons, ih]
    omega

/-- Every character of an encoding is of the alphabet or a `=`. -/
theorem mem_encodeGroups : ∀ {buf : Bytes} {c : UInt8}, c ∈ encodeGroups buf →
    isBase64 c = true ∨ c = base64Pad
  | [], c, h => by cases h
  | [a], c, h => by
    obtain ⟨h₁, h₂, -, -⟩ := sextets_lt a 0 0
    simp only [encodeGroups, List.mem_cons, List.not_mem_nil, or_false] at h
    rcases h with rfl | rfl | rfl | rfl
    exacts [.inl (base64Char_spec h₁).2.1, .inl (base64Char_spec h₂).2.1, .inr rfl, .inr rfl]
  | [a, b], c, h => by
    obtain ⟨h₁, h₂, h₃, -⟩ := sextets_lt a b 0
    simp only [encodeGroups, List.mem_cons, List.not_mem_nil, or_false] at h
    rcases h with rfl | rfl | rfl | rfl
    exacts [.inl (base64Char_spec h₁).2.1, .inl (base64Char_spec h₂).2.1,
      .inl (base64Char_spec h₃).2.1, .inr rfl]
  | a :: b :: d :: rest, c, h => by
    obtain ⟨h₁, h₂, h₃, h₄⟩ := sextets_lt a b d
    simp only [encodeGroups, List.mem_cons] at h
    rcases h with rfl | rfl | rfl | rfl | h
    exacts [.inl (base64Char_spec h₁).2.1, .inl (base64Char_spec h₂).2.1,
      .inl (base64Char_spec h₃).2.1, .inl (base64Char_spec h₄).2.1, mem_encodeGroups h]

theorem accepted_cons {k : UInt8} (hk : k.toNat < 64) (s : Bytes) :
    accepted (base64Char k :: s) = base64Char k :: accepted s := by
  obtain ⟨-, h₁, h₂⟩ := base64Char_spec hk
  simp [accepted, h₁, h₂]

theorem accepted_pad (s : Bytes) : accepted (base64Pad :: s) = [] := by
  simp [accepted]

theorem decodeGroups_accepted_encodeGroups : ∀ buf : Bytes,
    decodeGroups (accepted (encodeGroups buf)) = buf
  | [] => rfl
  | [a] => by
    obtain ⟨h₁, h₂, -, -⟩ := sextets_lt a 0 0
    obtain ⟨ha, -, -⟩ := octets_sextets a 0 0 0
    simp only [encodeGroups, accepted_cons, h₁, h₂, accepted_pad, decodeGroups,
      (base64Char_spec h₁).1, (base64Char_spec h₂).1]
    simp only [octets] at ha ⊢
    rw [ha]
  | [a, b] => by
    obtain ⟨h₁, h₂, h₃, -⟩ := sextets_lt a b 0
    obtain ⟨ha, hb, -⟩ := octets_sextets a b 0 0
    simp only [encodeGroups, accepted_cons, h₁, h₂, h₃, accepted_pad, decodeGroups,
      (base64Char_spec h₁).1, (base64Char_spec h₂).1, (base64Char_spec h₃).1]
    simp only [octets] at ha hb ⊢
    rw [ha, hb]
  | a :: b :: c :: rest => by
    have ih := decodeGroups_accepted_encodeGroups rest
    obtain ⟨h₁, h₂, h₃, h₄⟩ := sextets_lt a b c
    obtain ⟨ha, hb, hc⟩ := octets_sextets a b c (sextets a b c).2.2.2
    simp only [encodeGroups, accepted_cons, h₁, h₂, h₃, h₄, decodeGroups, ih,
      (base64Char_spec h₁).1, (base64Char_spec h₂).1, (base64Char_spec h₃).1,
      (base64Char_spec h₄).1, ha, hb, hc]

/-- **Base64 round trip.** Every byte string whose encoding the decoder's 32-bit
index can reach is decoded to itself. -/
theorem base64Decode_base64Encode {buf : Bytes} (h : buf.length ≤ 3 * 2 ^ 30) :
    base64Decode (base64Encode buf) = buf := by
  have hlen : (encodeGroups buf).length ≤ 2 ^ 32 := by
    rw [encodeGroups_length]
    omega
  unfold base64Decode
  rw [base64Encode_eq (by omega), cursorBytes, if_pos hlen]
  exact decodeGroups_accepted_encodeGroups buf

/-- A byte outside the alphabet is in no encoding. -/
theorem not_mem_base64Encode {b : UInt8} (hb : isBase64 b = false) (hpad : b ≠ base64Pad)
    (buf : Bytes) : b ∉ base64Encode buf := by
  intro h
  rcases mem_encodeGroups h with h | h
  · exact absurd (hb.symm.trans h) Bool.false_ne_true
  · exact hpad h

theorem dot_not_mem_base64Encode (buf : Bytes) : (46 : UInt8) ∉ base64Encode buf :=
  not_mem_base64Encode (by decide) (by decide) buf

theorem base64Encode_length {buf : Bytes} (h : buf.length < 2 ^ 32) :
    (base64Encode buf).length = 4 * ((buf.length + 2) / 3) := by
  rw [base64Encode_eq h, encodeGroups_length]

example : base64Encode (ascii "hello") = ascii "aGVsbG8=" := by decide +kernel

/-! ## The padding taken off -/

/-- A text up to its first `=`. -/
def stripPad (s : Bytes) : Bytes := s.takeWhile fun c => c != base64Pad

theorem stripPad_cons {k : UInt8} (hk : k.toNat < 64) (s : Bytes) :
    stripPad (base64Char k :: s) = base64Char k :: stripPad s := by
  obtain ⟨-, -, hne⟩ := base64Char_spec hk
  unfold stripPad
  rw [List.takeWhile_cons, if_pos (by simpa using hne)]

theorem stripPad_pad (s : Bytes) : stripPad (base64Pad :: s) = [] := by
  simp [stripPad]

/-- **An encoding is its characters and the padding** that their number asks for. -/
theorem encodeGroups_stripPad : ∀ buf : Bytes,
    encodeGroups buf =
      stripPad (encodeGroups buf) ++ List.replicate ((3 - buf.length % 3) % 3) base64Pad ∧
    (stripPad (encodeGroups buf)).length = (4 * buf.length + 2) / 3
  | [] => ⟨rfl, rfl⟩
  | [a] => by
    obtain ⟨h₁, h₂, -, -⟩ := sextets_lt a 0 0
    simp only [encodeGroups, stripPad_cons, h₁, h₂, stripPad_pad]
    exact ⟨rfl, by simp⟩
  | [a, b] => by
    obtain ⟨h₁, h₂, h₃, -⟩ := sextets_lt a b 0
    simp only [encodeGroups, stripPad_cons, h₁, h₂, h₃, stripPad_pad]
    exact ⟨rfl, by simp⟩
  | a :: b :: c :: rest => by
    obtain ⟨heq, hlen⟩ := encodeGroups_stripPad rest
    obtain ⟨h₁, h₂, h₃, h₄⟩ := sextets_lt a b c
    have hmod : (a :: b :: c :: rest).length % 3 = rest.length % 3 := by
      simp only [List.length_cons]
      omega
    simp only [encodeGroups, stripPad_cons, h₁, h₂, h₃, h₄, hmod, List.cons_append, ← heq]
    simp only [List.length_cons, hlen]
    exact ⟨trivial, by omega⟩

theorem not_mem_stripPad {b : UInt8} (hb : isBase64 b = false) (hpad : b ≠ base64Pad)
    (buf : Bytes) : b ∉ stripPad (base64Encode buf) :=
  fun h => not_mem_base64Encode hb hpad buf (List.takeWhile_subset _ h)

theorem stripPad_ne_nil {buf : Bytes} (hne : buf ≠ []) (hlen : buf.length < 2 ^ 32) :
    stripPad (base64Encode buf) ≠ [] := by
  rw [base64Encode_eq hlen]
  have hpos : 0 < buf.length := List.length_pos_iff.mpr hne
  have hlength := (encodeGroups_stripPad buf).2
  intro hnil
  rw [hnil, List.length_nil] at hlength
  omega

end CdfCrypto
