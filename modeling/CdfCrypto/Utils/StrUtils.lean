import CdfCrypto.Lib.Decimal
import CdfCrypto.Utils.Bytes

/-!
# `StrUtils`

Numbers out of text and text into pieces. The readers are the `sto*` family of
the standard library over `strtoll`: leading white space and a sign are skipped,
whatever follows the digits is ignored, and no digits or a value out of range is
an exception, which every caller here turns into `false` (`none`).

`split` is the scan for a separator; it leaves out a last piece that would be
empty, and only that one.
-/

namespace CdfCrypto

open Lib

/-! ## Numbers -/

/-- `isspace` of the C locale. -/
def isSpace (c : UInt8) : Bool := c == 32 || (9 ≤ c && c ≤ 13)

/-- The optional sign: whether it is a minus, and what follows it. -/
def takeSign : Bytes → Bool × Bytes
  | 45 :: rest => (true, rest)
  | 43 :: rest => (false, rest)
  | s => (false, s)

/-- `std::stoll` (and `std::stol`, of the same width), base ten, of a C string. -/
def stoll (s : Bytes) : Option Int :=
  let signed := takeSign ((cstr s).dropWhile isSpace)
  let digits := signed.2.takeWhile isDigit
  let magnitude : Int := Int.ofNat (ofDecimal digits)
  let value := if signed.1 then -magnitude else magnitude
  if digits = [] then none
  else if value < -(2 ^ 63) ∨ 2 ^ 63 ≤ value then none
  else some value

/-- `StrUtils::StrToLong`. -/
def strToLong (src : Bytes) : Option Int := stoll src

/-- `StrUtils::StrToInt64`: `long long` and `int64_t` have one range. -/
def strToInt64 (src : Bytes) : Option Int := stoll src

/-- `StrUtils::StrToInt`, which `std::stoi` narrows to an `int`. -/
def strToInt (src : Bytes) : Option Int :=
  match stoll src with
  | none => none
  | some v => if v < -(2 ^ 31) ∨ 2 ^ 31 ≤ v then none else some v

/-- `StrUtils::StrToU32`. -/
def strToU32 (src : Bytes) : Option Nat :=
  match stoll src with
  | none => none
  | some tmp => if tmp < 0 ∨ 2 ^ 32 ≤ tmp then none else some tmp.toNat

/-! ## Pieces -/

/-- The first occurrence of `sep`: what stands before it and what stands after. -/
def cutAt (sep : Bytes) : Bytes → Option (Bytes × Bytes)
  | [] => none
  | c :: cs =>
    if sep.isPrefixOf (c :: cs) then some ([], (c :: cs).drop sep.length)
    else (cutAt sep cs).map fun cut => (c :: cut.1, cut.2)

theorem cutAt_length {sep : Bytes} : ∀ {src piece rest : Bytes},
    cutAt sep src = some (piece, rest) → rest.length + sep.length ≤ src.length
  | [], _, _, h => nomatch h
  | c :: cs, piece, rest, h => by
    unfold cutAt at h
    split at h
    next hprefix =>
      obtain ⟨-, rfl⟩ := Prod.mk.inj (Option.some.inj h)
      have hle := (List.isPrefixOf_iff_prefix.mp hprefix).length_le
      rw [List.length_drop]
      omega
    next =>
      obtain ⟨cut, hcut, heq⟩ := Option.map_eq_some_iff.mp h
      obtain ⟨-, rfl⟩ := Prod.mk.inj heq
      have := cutAt_length hcut
      rw [List.length_cons]
      omega

/-- The scan of `StrUtils::Split` from one position on. -/
def splitFrom (sep : Bytes) (hsep : sep ≠ []) (src : Bytes) : List Bytes :=
  match _hcut : cutAt sep src with
  | some (piece, rest) => piece :: splitFrom sep hsep rest
  | none => if src = [] then [] else [src]
termination_by src.length
decreasing_by
  have := cutAt_length _hcut
  have := List.length_pos_of_ne_nil hsep
  omega

/-- `StrUtils::Split(src, sep)`: no pieces at all for an empty separator. -/
def split (src sep : Bytes) : List Bytes :=
  if hsep : sep = [] then [] else splitFrom sep hsep src

/-! ## Reading back a numeral -/

theorem isDigit_spec (c : UInt8) (h : isDigit c = true) : isSpace c = false ∧ c ≠ 0 := by
  obtain ⟨h₁, h₂⟩ : 48 ≤ c ∧ c ≤ 57 := by simpa [isDigit] using h
  have h₁' : 48 ≤ c.toNat := UInt8.le_iff_toNat_le.mp h₁
  have h₂' : c.toNat ≤ 57 := UInt8.le_iff_toNat_le.mp h₂
  constructor
  · simp only [isSpace, Bool.or_eq_false_iff, beq_eq_false_iff_ne, Bool.and_eq_false_imp,
      decide_eq_true_eq, decide_eq_false_iff_not, UInt8.le_iff_toNat_le, ne_eq,
      ← UInt8.toNat_inj]
    show c.toNat ≠ 32 ∧ (9 ≤ c.toNat → ¬ c.toNat ≤ 13)
    omega
  · intro heq
    subst heq
    exact absurd h₁' (by decide)

theorem takeSign_of_isDigit {c : UInt8} (h : isDigit c = true) (cs : Bytes) :
    takeSign (c :: cs) = (false, c :: cs) := by
  unfold takeSign
  split
  next heq =>
    obtain ⟨rfl, -⟩ := List.cons.inj heq
    exact absurd h (by decide)
  next heq =>
    obtain ⟨rfl, -⟩ := List.cons.inj heq
    exact absurd h (by decide)
  next => rfl

/-- The number of some digits behind a sign. -/
def signedValue (sign digits : Bytes) : Int :=
  if sign = [45] then -(ofDecimal digits : Int) else ofDecimal digits

/-- The digits of a C string that starts with some, up to where they end. -/
theorem takeWhile_digits {digits rest : Bytes} (hdigit : ∀ c ∈ digits, isDigit c = true)
    (hrest : ∀ c ∈ rest.head?, isDigit c = false) :
    (cstr (digits ++ rest)).takeWhile isDigit = digits := by
  have hcstr : cstr (digits ++ rest) = digits ++ cstr rest := by
    unfold cstr
    exact List.takeWhile_append_of_pos fun c hc => by simpa using (isDigit_spec c (hdigit c hc)).2
  have hstop : (cstr rest).takeWhile isDigit = [] := by
    unfold cstr
    cases rest with
    | nil => rfl
    | cons c cs =>
      have hc : isDigit c = false := hrest c (by simp)
      by_cases h0 : c = 0
      · simp [h0]
      · simp [h0, hc]
  rw [hcstr, List.takeWhile_append_of_pos hdigit, hstop, List.append_nil]

theorem takeSign_plus (s : Bytes) : takeSign (43 :: s) = (false, s) := rfl

theorem takeSign_minus (s : Bytes) : takeSign (45 :: s) = (true, s) := rfl

/-- A value that fits is read, another is not. -/
theorem stoll_signed {sign digits rest : Bytes} (hsign : sign = [] ∨ sign = [43] ∨ sign = [45])
    (hne : digits ≠ []) (hdigit : ∀ c ∈ digits, isDigit c = true)
    (hrest : ∀ c ∈ rest.head?, isDigit c = false) :
    stoll (sign ++ (digits ++ rest)) =
      if signedValue sign digits < -(2 ^ 63) ∨ 2 ^ 63 ≤ signedValue sign digits then none
      else some (signedValue sign digits) := by
  have hdigits := takeWhile_digits hdigit hrest
  have hspace : ∀ c cs, c ≠ 0 → isSpace c = false →
      (cstr (c :: cs)).dropWhile isSpace = c :: cstr cs := by
    intro c cs h0 hc
    unfold cstr
    rw [List.takeWhile_cons, if_pos (by simpa using h0), List.dropWhile_cons, if_neg (by simp [hc])]
  rcases hsign with rfl | rfl | rfl
  · -- no sign: the first digit is neither white space nor a sign
    obtain ⟨d, ds, rfl⟩ := List.exists_cons_of_ne_nil hne
    have hd : isDigit d = true := hdigit d List.mem_cons_self
    obtain ⟨hnot, h0⟩ := isDigit_spec d hd
    have hcstr : cstr (d :: (ds ++ rest)) = d :: cstr (ds ++ rest) := by
      unfold cstr
      rw [List.takeWhile_cons, if_pos (by simpa using h0)]
    rw [List.cons_append, hcstr] at hdigits
    unfold stoll
    rw [List.nil_append, List.cons_append, hspace d _ h0 hnot, takeSign_of_isDigit hd]
    dsimp only
    rw [hdigits, if_neg hne]
    rfl
  · unfold stoll
    rw [List.singleton_append, hspace 43 _ (by decide) (by decide), takeSign_plus]
    dsimp only
    rw [hdigits, if_neg hne]
    rfl
  · unfold stoll
    rw [List.singleton_append, hspace 45 _ (by decide) (by decide), takeSign_minus]
    dsimp only
    rw [hdigits, if_neg hne]
    rfl

/-- **Digits are read as their number** where that is in range, whatever stands after them. -/
theorem stoll_digits {ds rest : Bytes} (hdigit : ∀ c ∈ ds, isDigit c = true) (hne : ds ≠ [])
    (hrest : ∀ c ∈ rest.head?, isDigit c = false) :
    stoll (ds ++ rest) = if 2 ^ 63 ≤ ofDecimal ds then none else some (ofDecimal ds : Int) := by
  have hread := stoll_signed (.inl rfl) hne hdigit hrest
  have hrange : ((ofDecimal ds : Int) < -(2 ^ 63) ∨ 2 ^ 63 ≤ (ofDecimal ds : Int)) ↔
      2 ^ 63 ≤ ofDecimal ds := by omega
  exact hread.trans (if_congr hrange rfl rfl)

/-- So is a numeral. -/
theorem stoll_numeral (n : Nat) {rest : Bytes} (hrest : ∀ c ∈ rest.head?, isDigit c = false) :
    stoll (decimal n ++ rest) = if 2 ^ 63 ≤ n then none else some (n : Int) := by
  have hread := stoll_digits (fun c hc => isDigit_of_mem_decimal hc) (decimal_ne_nil n) hrest
  rwa [ofDecimal_decimal] at hread

theorem stoll_decimal {n : Nat} (hn : n < 2 ^ 63) {rest : Bytes}
    (hrest : ∀ c ∈ rest.head?, isDigit c = false) : stoll (decimal n ++ rest) = some n := by
  rw [stoll_numeral n hrest, if_neg (by omega)]
  rfl

/-- White space in front of a number is skipped. -/
theorem stoll_cons_space {c : UInt8} (hc : isSpace c = true) (s : Bytes) :
    stoll (c :: s) = stoll s := by
  have h0 : c ≠ 0 := by
    intro heq
    subst heq
    exact absurd hc (by decide)
  have hcstr : cstr (c :: s) = c :: cstr s := by
    unfold cstr
    rw [List.takeWhile_cons, if_pos (by simpa using h0)]
  unfold stoll
  rw [hcstr, List.dropWhile_cons, if_pos hc]

/-- A negative numeral. -/
theorem stoll_neg_decimal {n : Nat} (hn : n ≤ 2 ^ 63) :
    stoll (45 :: decimal n) = some (-(n : Int)) := by
  have hread : stoll ([45] ++ (decimal n ++ [])) = _ :=
    stoll_signed (.inr (.inr rfl)) (decimal_ne_nil n) (fun c hc => isDigit_of_mem_decimal hc)
      fun c hc => by cases hc
  have hvalue : signedValue [45] (decimal n) = -(n : Int) := by
    rw [signedValue, if_pos rfl, ofDecimal_decimal]
  rw [hvalue, if_neg (by omega), List.append_nil] at hread
  exact hread

/-- **A signed numeral is read as its number.** -/
theorem stoll_decimalInt {n : Int} (hlow : -(2 ^ 63) ≤ n) (hhigh : n < 2 ^ 63) :
    stoll (decimalInt n) = some n := by
  unfold decimalInt
  by_cases hneg : n < 0
  · rw [if_pos hneg, stoll_neg_decimal (by omega)]
    exact congrArg some (by omega)
  · have hend : ∀ c ∈ ([] : Bytes).head?, isDigit c = false := by simp
    have hread := stoll_decimal (n := n.natAbs) (by omega) hend
    rw [List.append_nil] at hread
    rw [if_neg hneg, hread]
    exact congrArg some (by omega)

/-- A 32-bit reader takes the digits of a number below its bound, and no others. -/
theorem strToU32_digits {ds : Bytes} (hdigit : ∀ c ∈ ds, isDigit c = true) (hne : ds ≠ []) :
    strToU32 ds = if ofDecimal ds < 2 ^ 32 then some (ofDecimal ds) else none := by
  have hread : stoll ds = if 2 ^ 63 ≤ ofDecimal ds then none else some (ofDecimal ds : Int) := by
    have hend : ∀ c ∈ ([] : Bytes).head?, isDigit c = false := by simp
    rw [← stoll_digits hdigit hne hend, List.append_nil]
  unfold strToU32
  rw [hread]
  by_cases hbig : 2 ^ 63 ≤ ofDecimal ds
  · rw [if_pos hbig, if_neg (by omega)]
  · rw [if_neg hbig]
    by_cases hn : ofDecimal ds < 2 ^ 32
    · rw [if_pos hn]
      show (if _ then _ else _) = _
      rw [if_neg (by omega), Int.toNat_natCast]
    · rw [if_neg hn]
      show (if _ then _ else _) = _
      rw [if_pos (by omega)]

theorem strToU32_decimal (n : Nat) : strToU32 (decimal n) = if n < 2 ^ 32 then some n else none := by
  have hread := strToU32_digits (fun c hc => isDigit_of_mem_decimal hc) (decimal_ne_nil n)
  rwa [ofDecimal_decimal] at hread

/-! ## Splitting at one byte -/

theorem cutAt_of_not_mem {b : UInt8} : ∀ {s : Bytes}, b ∉ s → cutAt [b] s = none
  | [], _ => rfl
  | c :: cs, h => by
    have hc : b ≠ c := fun he => h (he ▸ List.mem_cons_self)
    have hcs : b ∉ cs := fun hm => h (List.mem_cons_of_mem _ hm)
    simp [cutAt, hc, cutAt_of_not_mem hcs]

/-- A cut takes out the byte and nothing else. -/
theorem cutAt_eq_some {b : UInt8} : ∀ {s piece rest : Bytes}, cutAt [b] s = some (piece, rest) →
    s = piece ++ b :: rest
  | [], _, _, h => nomatch h
  | c :: cs, piece, rest, h => by
    unfold cutAt at h
    split at h
    next hcut =>
      obtain ⟨rfl, rfl⟩ := Prod.mk.inj (Option.some.inj h)
      obtain rfl : b = c := by simpa using hcut
      rfl
    next =>
      obtain ⟨cut, hcut, heq⟩ := Option.map_eq_some_iff.mp h
      obtain ⟨rfl, rfl⟩ := Prod.mk.inj heq
      rw [List.cons_append, ← cutAt_eq_some hcut]

theorem cutAt_append {b : UInt8} (rest : Bytes) : ∀ {s : Bytes}, b ∉ s →
    cutAt [b] (s ++ b :: rest) = some (s, rest)
  | [], _ => by simp [cutAt]
  | c :: cs, h => by
    have hc : b ≠ c := fun he => h (he ▸ List.mem_cons_self)
    have hcs : b ∉ cs := fun hm => h (List.mem_cons_of_mem _ hm)
    simp [cutAt, hc, cutAt_append rest hcs]

theorem split_nil (b : UInt8) : split [] [b] = [] := by
  rw [split, dif_neg (by simp), splitFrom]
  rfl

theorem split_of_not_mem {b : UInt8} {s : Bytes} (h : b ∉ s) (hs : s ≠ []) :
    split s [b] = [s] := by
  rw [split, dif_neg (by simp), splitFrom]
  split
  next heq =>
    rw [cutAt_of_not_mem h] at heq
    cases heq
  next => rw [if_neg hs]

theorem split_append {b : UInt8} {s : Bytes} (rest : Bytes) (h : b ∉ s) :
    split (s ++ b :: rest) [b] = s :: split rest [b] := by
  rw [split, split, dif_neg (by simp), dif_neg (by simp), splitFrom]
  split
  next piece rest' heq =>
    rw [cutAt_append rest h] at heq
    obtain ⟨rfl, rfl⟩ := Prod.mk.inj (Option.some.inj heq)
    rfl
  next heq =>
    rw [cutAt_append rest h] at heq
    cases heq

end CdfCrypto
