import CdfCrypto.Utils.StrUtils

/-!
# What is read as a number

`std::stoll` takes white space, a sign and digits, and does not look at what follows, and its
callers do not ask. `Numeral` is that grammar, `stoll_iff` says that it is read and nothing else,
and `strToU32_reads` the same of the 32-bit reader that key names and the arguments of the command
line go through.
-/

namespace CdfCrypto

open Lib

/-- White space, a sign or none, digits, and anything that does not go on with one: the text is
read as the number. -/
def Numeral (s : Bytes) (n : Int) : Prop :=
  ∃ spaces sign digits rest, s = spaces ++ (sign ++ (digits ++ rest)) ∧
    (∀ c ∈ spaces, isSpace c = true) ∧ (sign = [] ∨ sign = [43] ∨ sign = [45]) ∧
    digits ≠ [] ∧ (∀ c ∈ digits, isDigit c = true) ∧ (∀ c ∈ rest.head?, isDigit c = false) ∧
    n = signedValue sign digits

/-! ## The grammar is read -/

theorem stoll_spaces {spaces : Bytes} (h : ∀ c ∈ spaces, isSpace c = true) (s : Bytes) :
    stoll (spaces ++ s) = stoll s := by
  induction spaces with
  | nil => rfl
  | cons c cs ih =>
    rw [List.cons_append, stoll_cons_space (h c List.mem_cons_self)]
    exact ih fun c hc => h c (List.mem_cons_of_mem _ hc)

/-! ## Nothing else is -/

/-- What a sign is taken from. -/
theorem takeSign_spec (s : Bytes) : ∃ sign, s = sign ++ (takeSign s).2 ∧
    (sign = [] ∨ sign = [43] ∨ sign = [45]) ∧ ((takeSign s).1 = true ↔ sign = [45]) := by
  unfold takeSign
  split
  · exact ⟨[45], rfl, .inr (.inr rfl), by simp⟩
  · exact ⟨[43], rfl, .inr (.inl rfl), by simp⟩
  · exact ⟨[], rfl, .inl rfl, by simp⟩

/-- A C string and what its reader does not see. -/
theorem cstr_append_rest (s : Bytes) :
    ∃ rest, s = cstr s ++ rest ∧ ∀ c ∈ rest.head?, c = 0 := by
  refine ⟨s.dropWhile (· ≠ 0), (List.takeWhile_append_dropWhile).symm, fun c hc => ?_⟩
  have hhead := List.head?_dropWhile_not (fun c : UInt8 => decide (c ≠ 0)) s
  rw [Option.mem_def.mp hc] at hhead
  simpa using hhead

/-- **What `std::stoll` reads.** -/
theorem stoll_iff {s : Bytes} {n : Int} :
    stoll s = some n ↔ Numeral s n ∧ -(2 ^ 63) ≤ n ∧ n < 2 ^ 63 := by
  constructor
  · intro h
    obtain ⟨unseen, hs, hunseen⟩ := cstr_append_rest s
    obtain ⟨sign, hbody, hsign, hminus⟩ := takeSign_spec ((cstr s).dropWhile isSpace)
    have hspaces : cstr s = (cstr s).takeWhile isSpace ++ (cstr s).dropWhile isSpace :=
      (List.takeWhile_append_dropWhile).symm
    unfold stoll at h
    dsimp only at h
    generalize takeSign ((cstr s).dropWhile isSpace) = signed at h hbody hminus
    obtain ⟨minus, body⟩ := signed
    dsimp only at h hbody hminus
    have hdigits : body = body.takeWhile isDigit ++ body.dropWhile isDigit :=
      (List.takeWhile_append_dropWhile).symm
    have hvalue : (if minus = true then -Int.ofNat (ofDecimal (body.takeWhile isDigit))
        else Int.ofNat (ofDecimal (body.takeWhile isDigit))) =
        signedValue sign (body.takeWhile isDigit) := by
      unfold signedValue
      exact if_congr hminus rfl rfl
    rw [hvalue] at h
    split at h
    · cases h
    next hne =>
    split at h
    · cases h
    next hrange =>
    obtain rfl := Option.some.inj h
    have hbounds := not_or.mp hrange
    refine ⟨⟨(cstr s).takeWhile isSpace, sign, body.takeWhile isDigit,
      body.dropWhile isDigit ++ unseen, ?_, fun c hc => List.mem_takeWhile_imp hc, hsign, hne,
      fun c hc => List.mem_takeWhile_imp hc, ?_, rfl⟩, Int.not_lt.mp hbounds.1,
      Int.not_le.mp hbounds.2⟩
    · rw [← List.append_assoc (body.takeWhile isDigit), ← hdigits, ← List.append_assoc sign,
        ← hbody, ← List.append_assoc, ← hspaces]
      exact hs
    · intro c hc
      cases hrest : body.dropWhile isDigit with
      | nil =>
        rw [hrest, List.nil_append] at hc
        rw [hunseen c hc]
        rfl
      | cons b bs =>
        rw [hrest, List.cons_append] at hc
        obtain rfl := Option.some.inj hc
        have hhead := List.head?_dropWhile_not isDigit body
        rw [hrest] at hhead
        exact hhead
  · rintro ⟨⟨spaces, sign, digits, rest, rfl, hspaces, hsign, hne, hdigit, hrest, rfl⟩, hlow, hhigh⟩
    rw [stoll_spaces hspaces, stoll_signed hsign hne hdigit hrest, if_neg]
    exact not_or.mpr ⟨Int.not_lt.mpr hlow, Int.not_le.mpr hhigh⟩

theorem strToU32_iff (s : Bytes) (v : Nat) : strToU32 s = some v ↔ v < 2 ^ 32 ∧ Numeral s v := by
  unfold strToU32
  cases hread : stoll s with
  | none =>
    refine iff_of_false (fun h => by cases h) fun h => ?_
    have hsome := stoll_iff.mpr ⟨h.2, by omega, by omega⟩
    rw [hread] at hsome
    cases hsome
  | some tmp =>
    dsimp only
    obtain ⟨hnumeral, -⟩ := stoll_iff.mp hread
    constructor
    · intro h
      split at h
      · cases h
      next hrange =>
      obtain rfl := Option.some.inj h
      have hback : ((tmp.toNat : Nat) : Int) = tmp := Int.toNat_of_nonneg (by omega)
      exact ⟨by omega, hback.symm ▸ hnumeral⟩
    · intro h
      have hsome := stoll_iff.mpr ⟨h.2, by omega, by omega⟩
      rw [hread] at hsome
      obtain rfl := Option.some.inj hsome
      rw [if_neg (by omega)]
      rfl

/-- **What the 32-bit reader accepts**, and as what. A text of digits alone is its own number. -/
theorem strToU32_reads (s : Bytes) :
    (∀ v, strToU32 s = some v ↔ v < 2 ^ 32 ∧ Numeral s v) ∧
    (s ≠ [] → (∀ c ∈ s, isDigit c = true) →
      ∀ v, strToU32 s = some v ↔ v < 2 ^ 32 ∧ v = ofDecimal s) := by
  refine ⟨strToU32_iff s, fun hne hdigit v => ?_⟩
  rw [strToU32_digits hdigit hne, Option.ite_none_right_eq_some, Option.some.injEq]
  exact ⟨fun h => ⟨h.2 ▸ h.1, h.2.symm⟩, fun h => ⟨h.2 ▸ h.1, h.2.symm⟩⟩

/-- What stands behind the digits is not looked at: `12abc` is the key 12. -/
theorem strToU32_mixed_text : ¬ ∀ (s : Bytes) (v : Nat), strToU32 s = some v ↔
    (s ≠ [] ∧ ∀ c ∈ s, isDigit c = true) ∧ ofDecimal s = v ∧ v < 2 ^ 32 := by
  intro hall
  have hread : strToU32 (ascii "12abc") = some 12 := by decide +kernel
  have hdigit := ((hall _ _).mp hread).1.2 97 (by decide)
  exact absurd hdigit (by decide)

end CdfCrypto
