import Mathlib.Data.List.TakeWhile
import Mathlib.Algebra.Group.Nat.Defs
import Mathlib.Algebra.Ring.Int.Defs

/-!
# Byte strings

`std::string`, `std::string_view`, `std::vector<uint8_t>` and
`std::vector<std::byte>` are all lists of bytes here. What differs between
them is which operation stops at a NUL: `cstr` is the reading of a `char *`
(`c_str()`, `data()`, `GetString()` handed to something that measures it by
its terminator), `strnlen` the C function.
-/

namespace CdfCrypto

/-- A byte string. -/
abbrev Bytes := List UInt8

/-- The bytes of an ASCII literal. -/
def ascii (s : String) : Bytes := s.toList.map fun c => c.toNat.toUInt8

/-- What a `char *` reader sees of a string: the bytes before the first NUL. -/
def cstr (s : Bytes) : Bytes := s.takeWhile (· ≠ 0)

/-- `strnlen(s, n)`. -/
def strnlen (s : Bytes) (n : Nat) : Nat := (cstr (s.take n)).length

theorem cstr_of_forall_ne {s : Bytes} (h : ∀ b ∈ s, b ≠ 0) : cstr s = s := by
  unfold cstr
  rw [List.takeWhile_eq_self_iff]
  simpa using h

theorem cstr_ne_zero {s : Bytes} : ∀ b ∈ cstr s, b ≠ 0 := by
  intro b hb
  simpa using List.mem_takeWhile_imp hb

/-- A string survives a `char *` copy exactly when it holds no NUL. -/
theorem cstr_eq_self_iff {s : Bytes} : cstr s = s ↔ ∀ b ∈ s, b ≠ 0 :=
  ⟨fun h b hb => cstr_ne_zero b (h.symm ▸ hb), cstr_of_forall_ne⟩

@[simp] theorem cstr_cstr (s : Bytes) : cstr (cstr s) = cstr s :=
  cstr_of_forall_ne cstr_ne_zero

/-- A NUL ends the reading. -/
theorem cstr_append_zero {s : Bytes} (h : 0 ∉ s) (rest : Bytes) : cstr (s ++ 0 :: rest) = s := by
  have hpos : ∀ b ∈ s, decide (b ≠ 0) = true := fun b hb =>
    decide_eq_true fun heq => h (heq ▸ hb)
  unfold cstr
  rw [List.takeWhile_append_of_pos hpos]
  simp

/-- A property of every byte, checked byte by byte. -/
theorem forall_byte {p : UInt8 → Prop} (h : ∀ n : Fin 256, p (UInt8.ofFin n)) (b : UInt8) : p b := by
  have hb := h b.toFin
  simpa using hb

/-! ## Buffers -/

/-- The first `n` bytes of a source of bytes. -/
def stream (source : Nat → UInt8) (n : Nat) : Bytes := (List.range n).map source

/-- The `len` bytes of a buffer from `off` on. -/
def slice (buf : Bytes) (off len : Nat) : Bytes := (buf.drop off).take len

/-- A buffer after a write of `bs` at `off`. -/
def writeAt (buf : Bytes) (off : Nat) (bs : Bytes) : Bytes :=
  buf.take off ++ bs ++ buf.drop (off + bs.length)

/-- `memcpy_s(dest, destMax, src, count)` copies exactly when the destination is
not empty, is not larger than the library accepts, and holds `count` bytes. -/
def memcpyS (destMax count : Nat) : Bool := 0 < destMax && destMax < 2 ^ 31 && count ≤ destMax

@[simp] theorem stream_length (source : Nat → UInt8) (n : Nat) : (stream source n).length = n := by
  simp [stream]

theorem slice_append {pre mid post : Bytes} {off len : Nat} (hpre : pre.length = off)
    (hmid : mid.length = len) : slice (pre ++ (mid ++ post)) off len = mid := by
  subst hpre hmid
  rw [slice, List.drop_left, List.take_left]

/-- A write over a field of the buffer replaces that field. -/
theorem writeAt_append {pre mid post bs : Bytes} {off : Nat} (hpre : pre.length = off)
    (hmid : mid.length = bs.length) : writeAt (pre ++ (mid ++ post)) off bs = pre ++ (bs ++ post) := by
  subst hpre
  rw [writeAt, List.take_left, ← hmid, ← List.drop_drop, List.drop_left, List.drop_left,
    List.append_assoc]

/-- A write of so many bytes at the start of the buffer. -/
theorem writeAt_start {bs : Bytes} {n : Nat} (h : bs.length = n) (buf : Bytes) :
    writeAt buf 0 bs = bs ++ buf.drop n := by
  subst h
  simp [writeAt]

theorem writeAt_zero (buf s : Bytes) :
    writeAt buf 0 (s ++ [0]) = s ++ 0 :: buf.drop (s.length + 1) := by
  rw [writeAt_start List.length_append, List.append_assoc]
  rfl

/-- A string that is written with its terminator is read back. -/
theorem cstr_written {s : Bytes} (h : 0 ∉ s) (buf : Bytes) :
    cstr (writeAt buf 0 (s ++ [0])) = s := by
  rw [writeAt_zero, cstr_append_zero h]

theorem strnlen_written {s : Bytes} (h : 0 ∉ s) (buf : Bytes) :
    strnlen (writeAt buf 0 (s ++ [0])) (s.length + 1) = s.length := by
  have htake : (s ++ 0 :: buf.drop (s.length + 1)).take (s.length + 1) = s ++ [0] := by
    rw [List.take_length_add_append]
    rfl
  unfold strnlen
  rw [writeAt_zero, htake, cstr_append_zero h]

/-- A buffer splits at every offset inside it. -/
theorem exists_append_of_le {buf : Bytes} {n : Nat} (h : n ≤ buf.length) :
    ∃ pre post, buf = pre ++ post ∧ pre.length = n ∧ post.length = buf.length - n :=
  ⟨buf.take n, buf.drop n, (List.take_append_drop n buf).symm, List.length_take_of_le h,
    List.length_drop⟩

/-! What a write leaves of the other fields. -/

section Writes

variable {buf bs : Bytes} {off : Nat}

/-- A write inside the buffer does not resize it. -/
theorem length_writeAt (h : off + bs.length ≤ buf.length) :
    (writeAt buf off bs).length = buf.length := by
  have hoff : min off buf.length = off := Nat.min_eq_left (by omega)
  simp only [writeAt, List.length_append, List.length_take, List.length_drop, hoff]
  omega

/-- A field before the write. -/
theorem slice_writeAt_before {o len : Nat} (h : o + len ≤ off) (hoff : off ≤ buf.length) :
    slice (writeAt buf off bs) o len = slice buf o len := by
  have hlen : (buf.take off).length = off := List.length_take_of_le hoff
  have hrest : len ≤ ((buf.take off).drop o).length := by
    rw [List.length_drop, hlen]
    omega
  have hinner : min len (off - o) = len := Nat.min_eq_left (by omega)
  rw [slice, writeAt, List.append_assoc, List.drop_append_of_le_length (by omega),
    List.take_append_of_le_length hrest, List.drop_take, List.take_take, hinner, slice]

/-- The field the write fills. -/
theorem slice_writeAt_self (hoff : off ≤ buf.length) :
    slice (writeAt buf off bs) off bs.length = bs := by
  rw [writeAt, List.append_assoc]
  exact slice_append (List.length_take_of_le hoff) rfl

/-- Everything from a point behind the write on. -/
theorem drop_writeAt_after {k : Nat} (h : off + bs.length ≤ k) (hoff : off ≤ buf.length) :
    (writeAt buf off bs).drop k = buf.drop k := by
  have hlen : (buf.take off ++ bs).length = off + bs.length := by
    rw [List.length_append, List.length_take_of_le hoff]
  have hpre : (buf.take off ++ bs).drop k = [] := List.drop_eq_nil_of_le (by omega)
  have hk : off + bs.length + (k - (off + bs.length)) = k := by omega
  rw [writeAt, List.drop_append, hpre, hlen, List.nil_append, List.drop_drop, hk]

/-- A write that runs to the end of the buffer. -/
theorem drop_writeAt_self (h : off + bs.length = buf.length) :
    (writeAt buf off bs).drop off = bs := by
  have hoff : (buf.take off).length = off := List.length_take_of_le (by omega)
  have hrest : buf.drop (off + bs.length) = [] := List.drop_eq_nil_of_le (by omega)
  rw [writeAt, hrest, List.append_nil]
  calc (buf.take off ++ bs).drop off
      = (buf.take off ++ bs).drop (buf.take off).length := by rw [hoff]
    _ = bs := List.drop_left

end Writes

end CdfCrypto
