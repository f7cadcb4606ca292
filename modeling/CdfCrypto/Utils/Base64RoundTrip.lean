import CdfCrypto.Utils.Base64

/-!
# The round trip of long strings

An encoding is a third longer than what it encodes, and the decoder's index is no wider than the
encoder's length: for a string of more than 3·2³⁰ bytes the encoding is longer than 2³² and the
decoder starts over at its beginning. It returns the first 3·2³⁰ bytes and then, for the rest of
the encoding, as many groups from the beginning again (`decode_wrapped`). That is the string itself
only if it consists of whole groups and goes on as it began.
-/

namespace CdfCrypto

/-! ## Whole groups -/

/-- Whole groups are encoded by themselves. -/
theorem encodeGroups_append : ∀ {x : Bytes}, 3 ∣ x.length → ∀ y : Bytes,
    encodeGroups (x ++ y) = encodeGroups x ++ encodeGroups y
  | [], _, _ => rfl
  | [_], h, _ => absurd h (by simp)
  | [_, _], h, _ => absurd h (by simp)
  | a :: b :: c :: x, h, y => by
    have hx : 3 ∣ x.length := by
      simp only [List.length_cons] at h
      omega
    simp only [encodeGroups, List.cons_append, encodeGroups_append hx y]

/-- The decoder takes whole groups, whatever comes after. -/
theorem decodeGroups_append : ∀ {x : Bytes}, 3 ∣ x.length → ∀ s : Bytes,
    decodeGroups (accepted (encodeGroups x ++ s)) = x ++ decodeGroups (accepted s)
  | [], _, _ => rfl
  | [_], h, _ => absurd h (by simp)
  | [_, _], h, _ => absurd h (by simp)
  | a :: b :: c :: x, h, s => by
    have hx : 3 ∣ x.length := by
      simp only [List.length_cons] at h
      omega
    -- three bytes become four characters of the alphabet, and come back as they were
    have ih := decodeGroups_append hx s
    obtain ⟨h₁, h₂, h₃, h₄⟩ := sextets_lt a b c
    obtain ⟨ha, hb, hc⟩ := octets_sextets a b c (sextets a b c).2.2.2
    simp only [encodeGroups, List.cons_append, accepted_cons, h₁, h₂, h₃, h₄, decodeGroups, ih,
      (base64Char_spec h₁).1, (base64Char_spec h₂).1, (base64Char_spec h₃).1,
      (base64Char_spec h₄).1, ha, hb, hc]

/-- The beginning of an encoding encodes the beginning. -/
theorem take_encodeGroups {x : Bytes} {m : Nat} (h : 3 * m ≤ x.length) :
    (encodeGroups x).take (4 * m) = encodeGroups (x.take (3 * m)) := by
  have hlength : (x.take (3 * m)).length = 3 * m := List.length_take_of_le h
  have hgroups : (encodeGroups (x.take (3 * m))).length = 4 * m := by
    rw [encodeGroups_length, hlength]
    omega
  calc (encodeGroups x).take (4 * m)
      = (encodeGroups (x.take (3 * m)) ++ encodeGroups (x.drop (3 * m))).take (4 * m) := by
        rw [← encodeGroups_append ⟨m, hlength⟩, List.take_append_drop]
    _ = encodeGroups (x.take (3 * m)) := List.take_left' hgroups

/-! ## The index starts over -/

theorem map_getD_range {s : Bytes} {n : Nat} (h : n ≤ s.length) :
    (List.range n).map (fun k => s.getD k 0) = s.take n := by
  refine List.ext_getElem (by simp [h]) fun k hk hk' => ?_
  rw [List.length_map, List.length_range] at hk
  have hlt : k < s.length := Nat.lt_of_lt_of_le hk h
  rw [List.getElem_map, List.getElem_range, List.getElem_take, List.getD_eq_getElem?_getD,
    List.getElem?_eq_getElem hlt, Option.getD_some]

/-- An index that wraps at `w` reads the beginning twice. -/
theorem map_getD_mod_range {s : Bytes} {w : Nat} (hlow : w ≤ s.length) (hhigh : s.length ≤ 2 * w) :
    (List.range s.length).map (fun k => s.getD (k % w) 0) =
      s.take w ++ s.take (s.length - w) := by
  have hfirst : (List.range w).map (fun k => s.getD (k % w) 0) = s.take w := by
    rw [← map_getD_range hlow]
    refine List.map_congr_left fun k hk => ?_
    rw [Nat.mod_eq_of_lt (List.mem_range.mp hk)]
  have hagain : ((List.range (s.length - w)).map (w + ·)).map (fun k => s.getD (k % w) 0) =
      s.take (s.length - w) := by
    rw [← map_getD_range (Nat.sub_le _ _), List.map_map]
    refine List.map_congr_left fun k hk => ?_
    have hk : k < s.length - w := List.mem_range.mp hk
    show s.getD ((w + k) % w) 0 = s.getD k 0
    rw [Nat.add_mod_left, Nat.mod_eq_of_lt (by omega)]
  calc (List.range s.length).map (fun k => s.getD (k % w) 0)
      = (List.range (w + (s.length - w))).map (fun k => s.getD (k % w) 0) := by
        rw [Nat.add_sub_cancel' hlow]
    _ = s.take w ++ s.take (s.length - w) := by
        rw [List.range_add, List.map_append, hfirst, hagain]

/-- **What comes back of a long string**: its reachable part, and its beginning again. -/
theorem base64Decode_wrapped {buf : Bytes} (hlow : 3 * 2 ^ 30 < buf.length)
    (hhigh : buf.length < 2 ^ 32) :
    base64Decode (base64Encode buf) =
      buf.take (3 * 2 ^ 30) ++ buf.take (3 * ((buf.length + 2) / 3 - 2 ^ 30)) := by
  have hlength := encodeGroups_length buf
  -- more than 2³² characters, and less than twice as many
  have hlong : ¬ (encodeGroups buf).length ≤ 2 ^ 32 := by omega
  have hrest : (encodeGroups buf).length - 2 ^ 32 = 4 * ((buf.length + 2) / 3 - 2 ^ 30) := by omega
  have hfour : 2 ^ 32 = 4 * 2 ^ 30 := by decide
  rw [base64Decode, base64Encode_eq hhigh, cursorBytes, if_neg hlong,
    map_getD_mod_range (by omega) (by omega), hrest, hfour, take_encodeGroups (by omega),
    take_encodeGroups (by omega)]
  -- no padding stands between the two parts
  have hwhole : 3 ∣ (buf.take (3 * 2 ^ 30)).length :=
    ⟨2 ^ 30, List.length_take_of_le (Nat.le_of_lt hlow)⟩
  rw [decodeGroups_append hwhole, decodeGroups_accepted_encodeGroups]

theorem take_append_take_iff {x : Bytes} {k r : Nat} (hr : r ≤ x.length) :
    x.take k ++ x.take r = x ↔ r = x.length - k ∧ x.drop k <+: x := by
  have hcut : x.take k ++ x.take r = x ↔ x.take r = x.drop k := by
    constructor
    · intro heq
      exact List.append_cancel_left (heq.trans (List.take_append_drop k x).symm)
    · intro heq
      rw [heq, List.take_append_drop]
  rw [hcut]
  constructor
  · intro heq
    have hlength := congrArg List.length heq
    rw [List.length_take_of_le hr, List.length_drop] at hlength
    exact ⟨hlength, heq ▸ List.take_prefix r x⟩
  · intro hboth
    obtain ⟨rfl, hbegins⟩ := hboth
    rw [List.prefix_iff_eq_take.mp hbegins, List.length_drop]

/-- What the decoder's index gives back whole: what it reaches, or what goes on in whole groups as it
began. -/
def WithinIndex (x : Bytes) : Prop :=
  x.length ≤ 3 * 2 ^ 30 ∨ 3 ∣ x.length ∧ x.drop (3 * 2 ^ 30) <+: x

theorem base64Decode_base64Encode_iff {x : Bytes} (h : x.length < 2 ^ 32) :
    base64Decode (base64Encode x) = x ↔ WithinIndex x := by
  unfold WithinIndex
  by_cases hshort : x.length ≤ 3 * 2 ^ 30
  · exact iff_of_true (base64Decode_base64Encode hshort) (.inl hshort)
  · have hgroups : 3 * ((x.length + 2) / 3 - 2 ^ 30) = x.length - 3 * 2 ^ 30 ↔ 3 ∣ x.length := by
      omega
    rw [base64Decode_wrapped (by omega) h, take_append_take_iff (by omega), hgroups,
      or_iff_right hshort]

/-! ## The promise -/

/-- The length, the shape, and the way back. -/
def RoundTrips (x : Bytes) : Prop :=
  (base64Encode x).length = 4 * ((x.length + 2) / 3) ∧
  (∃ chars : Bytes, (∀ c ∈ chars, c ∈ base64Chars) ∧
    base64Encode x = chars ++ List.replicate ((3 - x.length % 3) % 3) base64Pad) ∧
  base64Decode (base64Encode x) = x

theorem mem_base64Chars {c : UInt8} (h : isBase64 c = true) : c ∈ base64Chars := by
  revert h
  exact forall_byte (p := fun c => isBase64 c = true → c ∈ base64Chars) (by decide +kernel) c

/-- The shape is right at every length. -/
theorem base64Encode_shape {x : Bytes} (h : x.length < 2 ^ 32) :
    ∃ chars : Bytes, (∀ c ∈ chars, c ∈ base64Chars) ∧
      base64Encode x = chars ++ List.replicate ((3 - x.length % 3) % 3) base64Pad := by
  rw [base64Encode_eq h]
  refine ⟨stripPad (encodeGroups x), fun c hc => ?_, (encodeGroups_stripPad x).1⟩
  have hne : c ≠ base64Pad := by simpa using List.mem_takeWhile_imp hc
  obtain hchar | hpad := mem_encodeGroups (List.takeWhile_subset _ hc)
  · exact mem_base64Chars hchar
  · exact absurd hpad hne

/-- **When the round trip is exact.** -/
theorem roundTrips_iff {x : Bytes} (h : x.length < 2 ^ 32) :
    RoundTrips x ↔ x.length ≤ 3 * 2 ^ 30 ∨ 3 ∣ x.length ∧ x.drop (3 * 2 ^ 30) <+: x := by
  -- length and shape hold at every length, so the way back decides
  have hback : RoundTrips x ↔ base64Decode (base64Encode x) = x :=
    ⟨fun hx => hx.2.2, fun hx => ⟨base64Encode_length h, base64Encode_shape h, hx⟩⟩
  exact hback.trans (base64Decode_base64Encode_iff h)

theorem roundTrips_hello : RoundTrips (ascii "hello") :=
  (roundTrips_iff (by decide)).mpr (.inl (by decide))

/-- One byte more than the index reaches comes back as three. -/
theorem zeros_grow : ¬ RoundTrips (List.replicate (3 * 2 ^ 30 + 1) 0) := by
  intro h
  have hback := congrArg List.length h.2.2
  have hlength : (List.replicate (3 * 2 ^ 30 + 1) (0 : UInt8)).length = 3 * 2 ^ 30 + 1 :=
    List.length_replicate
  rw [base64Decode_wrapped (by omega) (by omega), List.length_append, List.length_take,
    List.length_take, hlength] at hback
  omega

end CdfCrypto
