import CdfCrypto.KeyManagement.OpenbaoUtils

/-!
# Names of keys

The listing of the vault holds the names of all its keys, also of those other users made.
`StrDecodeToDomainIdKeyId` takes a name apart by its first `_` alone: the domain is whatever number
stands from position 3 up to it, the key whatever number stands four positions behind. It looks at
no prefix and at nothing in between, takes white space and a sign before a number and anything
after one, and throws where fewer than three bytes follow the `_`.

So the listing is read right where no name makes it throw before another one stops it, and, if none
stops it, every name that passes for a key is one (`getJsonFieldIntPairVec_exact`).
-/

namespace CdfCrypto.KeyManagement

open Lib

/-! ## The names the manager gives -/

/-- Digits, leading zeros allowed, of a 32-bit number. -/
structure Numeral (ds : Bytes) (n : Nat) : Prop where
  digits : ∀ c ∈ ds, isDigit c = true
  ne : ds ≠ []
  value : ofDecimal ds = n
  bits : n < 2 ^ 32

/-- A name of the form `CDF<d>_Key<k>`. -/
def KeyForm (name : Bytes) (d k : Nat) : Prop :=
  ∃ ds ks, name = ascii "CDF" ++ (ds ++ (ascii "_Key" ++ ks)) ∧ Numeral ds d ∧ Numeral ks k

def numeral? (ds : Bytes) : Option Nat :=
  if ds ≠ [] ∧ ds.all isDigit = true ∧ ofDecimal ds < 2 ^ 32 then some (ofDecimal ds) else none

/-- The domain and the id in a name of that form. -/
def keyOf? (name : Bytes) : Option (Nat × Nat) :=
  if (ascii "CDF").isPrefixOf name then
    match cutAt [95] (name.drop 3) with
    | none => none
    | some (ds, rest) =>
      if (ascii "Key").isPrefixOf rest then
        match numeral? ds, numeral? (rest.drop 3) with
        | some d, some k => some (d, k)
        | _, _ => none
      else none
  else none

theorem numeral?_eq_some {ds : Bytes} {n : Nat} : numeral? ds = some n ↔ Numeral ds n := by
  unfold numeral?
  constructor
  · intro h
    split at h
    next hds =>
      obtain rfl := Option.some.inj h
      exact ⟨List.all_eq_true.mp hds.2.1, hds.1, rfl, hds.2.2⟩
    next => cases h
  · intro h
    obtain ⟨hdigits, hne, rfl, hbits⟩ := h
    exact if_pos ⟨hne, List.all_eq_true.mpr hdigits, hbits⟩

/-- No digit is a `_`. -/
theorem Numeral.not_mem {ds : Bytes} {n : Nat} (h : Numeral ds n) : (95 : UInt8) ∉ ds := by
  intro hmem
  exact absurd (h.digits 95 hmem) (by decide)

theorem Numeral.strToU32 {ds : Bytes} {n : Nat} (h : Numeral ds n) : strToU32 ds = some n := by
  rw [strToU32_digits h.digits h.ne, h.value, if_pos h.bits]

theorem drop_CDF (s : Bytes) : (ascii "CDF" ++ s).drop 3 = s := List.drop_left' rfl

theorem drop_Key (s : Bytes) : (ascii "Key" ++ s).drop 3 = s := List.drop_left' rfl

theorem keyOf?_eq_some {name : Bytes} {d k : Nat} : keyOf? name = some (d, k) ↔ KeyForm name d k := by
  constructor
  · intro h
    unfold keyOf? at h
    split at h
    next hbegins =>
      obtain ⟨tail, rfl⟩ := List.isPrefixOf_iff_prefix.mp hbegins
      rw [drop_CDF] at h
      split at h
      · cases h
      next ds rest hcut =>
      split at h
      next hkey =>
        obtain ⟨ks, rfl⟩ := List.isPrefixOf_iff_prefix.mp hkey
        rw [drop_Key] at h
        split at h
        next d' k' hd hk =>
          obtain ⟨rfl, rfl⟩ := Prod.mk.inj (Option.some.inj h)
          refine ⟨ds, ks, ?_, numeral?_eq_some.mp hd, numeral?_eq_some.mp hk⟩
          rw [cutAt_eq_some hcut]
          rfl
        next => cases h
      next => cases h
    next => cases h
  · intro h
    obtain ⟨ds, ks, rfl, hd, hk⟩ := h
    have hcut : cutAt [95] (ds ++ (ascii "_Key" ++ ks)) = some (ds, ascii "Key" ++ ks) :=
      cutAt_append (ascii "Key" ++ ks) hd.not_mem
    have hbegins : ∀ pre post : Bytes, pre.isPrefixOf (pre ++ post) = true := fun pre post =>
      List.isPrefixOf_iff_prefix.mpr ⟨post, rfl⟩
    unfold keyOf?
    rw [if_pos (hbegins _ _), drop_CDF, hcut]
    dsimp only
    rw [if_pos (hbegins _ _), drop_Key, numeral?_eq_some.mpr hd, numeral?_eq_some.mpr hk]

/-! ## What a name is decoded to -/

/-- A number up to the `_`, and fewer than three bytes behind it. -/
def Short (name : Bytes) : Prop := ∃ domainStr rest d, cutAt [95] ((cstr name).drop 3) =
  some (domainStr, rest) ∧ strToU32 domainStr = some d ∧ rest.length < 3

/-- There is a `_`, and no number before it, or none where the key should be. -/
def Stops (name : Bytes) : Prop := ∃ domainStr rest, cutAt [95] ((cstr name).drop 3) =
  some (domainStr, rest) ∧ (strToU32 domainStr = none ∨ 3 ≤ rest.length ∧ strToU32 (rest.drop 3) = none)

/-- A number up to the `_` and one from four bytes behind it on. -/
def PassesFor (name : Bytes) (d k : Nat) : Prop := ∃ domainStr rest, cutAt [95] ((cstr name).drop 3) =
  some (domainStr, rest) ∧ strToU32 domainStr = some d ∧ 3 ≤ rest.length ∧ strToU32 (rest.drop 3) = some k

/-- A name of a key passes for that key. -/
theorem KeyForm.passesFor {name : Bytes} {d k : Nat} (h : KeyForm name d k) : PassesFor name d k := by
  obtain ⟨ds, ks, rfl, hd, hk⟩ := h
  have hnul : ∀ b ∈ ascii "CDF" ++ (ds ++ (ascii "_Key" ++ ks)), b ≠ 0 := by
    have hliteral : ∀ b ∈ ascii "CDF" ++ ascii "_Key", b ≠ 0 := by decide +kernel
    intro b hb
    simp only [List.mem_append] at hb hliteral
    rcases hb with hb | hb | hb | hb
    · exact hliteral b (.inl hb)
    · exact (isDigit_spec b (hd.digits b hb)).2
    · exact hliteral b (.inr hb)
    · exact (isDigit_spec b (hk.digits b hb)).2
  refine ⟨ds, ascii "Key" ++ ks, ?_, hd.strToU32, ?_, ?_⟩
  · rw [cstr_of_forall_ne hnul, drop_CDF]
    exact cutAt_append (ascii "Key" ++ ks) hd.not_mem
  · rw [List.length_append, show (ascii "Key").length = 3 from rfl]
    omega
  · rw [drop_Key]
    exact hk.strToU32

/-- The four ways to decode a name. -/
inductive DecodesTo (name : Bytes) : Except StdException Decoded → Prop
  | skipped (hnone : cutAt [95] ((cstr name).drop 3) = none) : DecodesTo name (.ok .skipped)
  | failed (hstops : Stops name) : DecodesTo name (.ok .failed)
  | thrown (hshort : Short name) : DecodesTo name (.error .outOfRange)
  | pair {d k : Nat} (hpasses : PassesFor name d k) : DecodesTo name (.ok (.pair d k))

theorem strDecode_decodesTo (name : Bytes) : DecodesTo name (strDecodeToDomainIdKeyId (cstr name)) := by
  unfold strDecodeToDomainIdKeyId
  split
  next hnone => exact .skipped hnone
  next domainStr rest hcut =>
  split
  next hd => exact .failed ⟨domainStr, rest, hcut, .inl hd⟩
  next d hd =>
  split
  next hshort => exact .thrown ⟨domainStr, rest, d, hcut, hd, hshort⟩
  next hlong =>
  have hlong : 3 ≤ rest.length := by omega
  split
  next hk => exact .failed ⟨domainStr, rest, hcut, .inr ⟨hlong, hk⟩⟩
  next k hk => exact .pair ⟨domainStr, rest, hcut, hd, hlong, hk⟩

/-- They exclude each other. -/
theorem Short.not_stops {name : Bytes} (h : Short name) : ¬ Stops name := by
  intro hstops
  obtain ⟨domainStr, rest, d, hcut, hd, hshort⟩ := h
  obtain ⟨domainStr', rest', hcut', hno⟩ := hstops
  obtain ⟨rfl, rfl⟩ := Prod.mk.inj (Option.some.inj (hcut.symm.trans hcut'))
  rcases hno with hnone | ⟨hlong, -⟩
  · rw [hd] at hnone
    cases hnone
  · omega

theorem PassesFor.not_stops {name : Bytes} {d k : Nat} (h : PassesFor name d k) :
    ¬ Stops name ∧ ¬ Short name := by
  obtain ⟨domainStr, rest, hcut, hd, hlong, hk⟩ := h
  constructor
  · intro hstops
    obtain ⟨domainStr', rest', hcut', hno⟩ := hstops
    obtain ⟨rfl, rfl⟩ := Prod.mk.inj (Option.some.inj (hcut.symm.trans hcut'))
    rcases hno with hnone | ⟨-, hnone⟩
    · rw [hd] at hnone
      cases hnone
    · rw [hk] at hnone
      cases hnone
  · intro hshort
    obtain ⟨domainStr', rest', d', hcut', -, hlen⟩ := hshort
    obtain ⟨rfl, rfl⟩ := Prod.mk.inj (Option.some.inj (hcut.symm.trans hcut'))
    omega

/-! ## The listing -/

/-- Read in order, no name is too short before one stops the reading. -/
def NoShortFirst : List Bytes → Prop
  | [] => True
  | name :: names => ¬ Short name ∧ (¬ Stops name → NoShortFirst names)

/-- The pair a name is decoded to. -/
def decodedPair? (name : Bytes) : Option (Nat × Nat) :=
  match strDecodeToDomainIdKeyId (cstr name) with
  | .ok (.pair d k) => some (d, k)
  | _ => none

theorem decodedPair?_eq_some {name : Bytes} {d k : Nat} :
    decodedPair? name = some (d, k) ↔ PassesFor name d k := by
  have hdecodes := strDecode_decodesTo name
  unfold decodedPair?
  constructor
  · intro h
    cases hdecode : strDecodeToDomainIdKeyId (cstr name) with
    | error e => simp [hdecode] at h
    | ok decoded =>
      rw [hdecode] at h hdecodes
      cases hdecodes with
      | skipped _ => cases h
      | failed _ => cases h
      | pair hpasses =>
        obtain ⟨rfl, rfl⟩ := Prod.mk.inj (Option.some.inj h)
        exact hpasses
  · intro hpasses
    obtain ⟨domainStr, rest, hcut, hd, hlong, hk⟩ := hpasses
    unfold strDecodeToDomainIdKeyId
    rw [hcut]
    dsimp only
    rw [hd]
    dsimp only
    rw [if_neg (by omega), hk]

/-- What the loop makes of the names. -/
def NamesRead (names : List Bytes) (out : List (Nat × Nat)) :
    Except StdException (Option (List (Nat × Nat))) → Prop
  | .error _ => ¬ NoShortFirst names
  | .ok none => NoShortFirst names ∧ ∃ name ∈ names, Stops name
  | .ok (some pairs) => NoShortFirst names ∧ (∀ name ∈ names, ¬ Stops name) ∧
    pairs = out ++ names.filterMap decodedPair?

theorem NamesRead.cons {name : Bytes} {names : List Bytes} {out out' : List (Nat × Nat)}
    {result : Except StdException (Option (List (Nat × Nat)))} (hshort : ¬ Short name)
    (hstops : ¬ Stops name)
    (hout : out' ++ names.filterMap decodedPair? = out ++ (name :: names).filterMap decodedPair?)
    (h : NamesRead names out' result) : NamesRead (name :: names) out result := by
  match result with
  | .error _ => exact fun hno => h (hno.2 hstops)
  | .ok none =>
    obtain ⟨hno, name', hmem, hstops'⟩ := h
    exact ⟨⟨hshort, fun _ => hno⟩, name', List.mem_cons_of_mem _ hmem, hstops'⟩
  | .ok (some pairs) =>
    obtain ⟨hno, hall, rfl⟩ := h
    refine ⟨⟨hshort, fun _ => hno⟩, fun name' hmem => ?_, hout⟩
    rcases List.mem_cons.mp hmem with rfl | hmem
    · exact hstops
    · exact hall name' hmem

/-- **The loop.** -/
theorem intPairLoop_reads (names : List Bytes) : ∀ out : List (Nat × Nat),
    NamesRead names out (intPairLoop (names.map .string) out) := by
  induction names with
  | nil => exact fun out => ⟨trivial, fun _ hmem => absurd hmem List.not_mem_nil, by simp⟩
  | cons name names ih =>
    intro out
    have hdecodes := strDecode_decodesTo name
    have hpair : decodedPair? name = match strDecodeToDomainIdKeyId (cstr name) with
      | .ok (.pair d k) => some (d, k)
      | _ => none := rfl
    rw [List.map_cons]
    unfold intPairLoop
    simp only [JsonValue.cstr?]
    cases hdecode : strDecodeToDomainIdKeyId (cstr name) with
    | error e =>
      rw [hdecode] at hdecodes
      cases hdecodes with
      | thrown hshort => exact fun hno => hno.1 hshort
    | ok decoded =>
      rw [hdecode] at hdecodes hpair
      cases hdecodes with
      | skipped hnone =>
        have hcut : ∀ {P : Bytes → Bytes → Prop}, ¬ ∃ domainStr rest,
            cutAt [95] ((cstr name).drop 3) = some (domainStr, rest) ∧ P domainStr rest := by
          intro P h
          obtain ⟨domainStr, rest, hcut, -⟩ := h
          rw [hnone] at hcut
          cases hcut
        refine NamesRead.cons ?_ hcut ?_ (ih out)
        · intro hshort
          obtain ⟨domainStr, rest, d, hsome, -⟩ := hshort
          rw [hnone] at hsome
          cases hsome
        · rw [List.filterMap_cons, hpair]
      | failed hstops =>
        exact ⟨⟨fun hshort => hshort.not_stops hstops, fun hno => absurd hstops hno⟩, name,
          List.mem_cons_self, hstops⟩
      | pair hpasses =>
        obtain ⟨hstops, hshort⟩ := hpasses.not_stops
        refine NamesRead.cons hshort hstops ?_ (ih _)
        rw [List.filterMap_cons, hpair, List.append_assoc]
        rfl

/-- The more it is defined, the more it keeps. -/
theorem length_filterMap_mono {α β : Type} {f g : α → Option β}
    (hle : ∀ x b, g x = some b → f x = some b) (xs : List α) :
    (xs.filterMap g).length ≤ (xs.filterMap f).length := by
  induction xs with
  | nil => exact Nat.le_refl _
  | cons x xs ih =>
    cases hg : g x with
    | none =>
      rw [List.filterMap_cons_none hg]
      refine ih.trans ?_
      cases hf : f x with
      | none => rw [List.filterMap_cons_none hf]
      | some b =>
        rw [List.filterMap_cons_some hf]
        exact Nat.le_succ _
    | some b =>
      rw [List.filterMap_cons_some hg, List.filterMap_cons_some (hle x b hg)]
      exact Nat.succ_le_succ ih

/-- Of two readings, one of which reads all the other does and the same, the lists agree where each
element does. -/
theorem filterMap_eq_iff {α β : Type} {f g : α → Option β} (hle : ∀ x b, g x = some b → f x = some b) :
    ∀ {xs : List α}, xs.filterMap f = xs.filterMap g ↔ ∀ x ∈ xs, ∀ b, f x = some b → g x = some b := by
  intro xs
  induction xs with
  | nil => simp
  | cons x xs ih =>
    cases hf : f x with
    | none =>
      have hg : g x = none := by
        cases hg : g x with
        | none => rfl
        | some b =>
          have hsome := hle x b hg
          rw [hf] at hsome
          cases hsome
      rw [List.filterMap_cons_none hf, List.filterMap_cons_none hg, ih]
      simp [hf]
    | some b =>
      rw [List.filterMap_cons_some hf]
      cases hg : g x with
      | none =>
        rw [List.filterMap_cons_none hg]
        constructor
        · -- one element more than there can be
          intro heq
          have hlen := congrArg List.length heq
          have hshort := length_filterMap_mono hle xs
          rw [List.length_cons] at hlen
          omega
        · intro hall
          have hsome := hall x List.mem_cons_self b hf
          rw [hg] at hsome
          cases hsome
      | some b' =>
        have heq : b = b' := Option.some.inj (hf.symm.trans (hle x b' hg))
        subst heq
        rw [List.filterMap_cons_some hg, List.cons.injEq, ih]
        constructor
        · intro h x' hmem c hc
          rcases List.mem_cons.mp hmem with rfl | hmem
          · rw [hf] at hc
            rw [hg, hc]
          · exact h.2 x' hmem c hc
        · exact fun h => ⟨rfl, fun x' hmem => h x' (List.mem_cons_of_mem _ hmem)⟩

/-! ## The call -/

/-- What the listing should be read as: no exception, and nothing but the pairs of its keys. -/
def ListsKeys (names : List Bytes) : Except StdException (Option (List (Nat × Nat))) → Prop
  | .error _ => False
  | .ok none => True
  | .ok (some pairs) => pairs = names.filterMap keyOf?

/-- **The listing.** It is read as its keys exactly where no name is too short before one stops the
reading and, if none stops it, only names of keys pass for keys. -/
theorem getJsonFieldIntPairVec_exact {J : RapidJson} {text : Bytes} {names : List Bytes}
    (hparse : J.parse text = some (.array (names.map .string))) (hne : names ≠ []) :
    ListsKeys names (getJsonFieldIntPairVec J text) ↔ NoShortFirst names ∧
      ((∀ name ∈ names, ¬ Stops name) →
        ∀ name ∈ names, ∀ d k, PassesFor name d k → KeyForm name d k) := by
  have hloop : getJsonFieldIntPairVec J text = intPairLoop (names.map .string) [] := by
    unfold getJsonFieldIntPairVec
    rw [hparse]
    exact if_neg (by simpa using hne)
  have hreads := intPairLoop_reads names []
  rw [hloop]
  match hresult : intPairLoop (names.map .string) [] with
  | .error e =>
    rw [hresult] at hreads
    exact ⟨False.elim, fun h => hreads h.1⟩
  | .ok none =>
    rw [hresult] at hreads
    obtain ⟨hno, name, hmem, hstops⟩ := hreads
    exact ⟨fun _ => ⟨hno, fun hall => absurd hstops (hall name hmem)⟩, fun _ => trivial⟩
  | .ok (some pairs) =>
    rw [hresult] at hreads
    obtain ⟨hno, hall, rfl⟩ := hreads
    have hkeys : ∀ (name : Bytes) (pair : Nat × Nat), keyOf? name = some pair →
        decodedPair? name = some pair := fun name pair h =>
      decodedPair?_eq_some.mpr (keyOf?_eq_some.mp h).passesFor
    show [] ++ names.filterMap decodedPair? = names.filterMap keyOf? ↔ _
    rw [List.nil_append, filterMap_eq_iff hkeys]
    constructor
    · intro h
      refine ⟨hno, fun _ name hmem d k hpasses => ?_⟩
      exact keyOf?_eq_some.mp (h name hmem (d, k) (decodedPair?_eq_some.mpr hpasses))
    · intro h name hmem pair hpair
      exact keyOf?_eq_some.mpr (h.2 hall name hmem pair.1 pair.2 (decodedPair?_eq_some.mp hpair))

/-! ## Names of other users -/

/-- A listing that is parsed to these names. -/
def listingJson (names : List Bytes) : RapidJson where
  parse _ := some (.array (names.map .string))
  write _ := []

theorem getJsonFieldIntPairVec_throws : ¬ ∀ (J : RapidJson) (text : Bytes) (names : List Bytes),
    J.parse text = some (.array (names.map .string)) → names ≠ [] →
      ListsKeys names (getJsonFieldIntPairVec J text) := by
  intro hall
  have h := hall (listingJson [ascii "key1_v2"]) [] [ascii "key1_v2"] rfl (by decide)
  have hthrows : getJsonFieldIntPairVec (listingJson [ascii "key1_v2"]) [] = .error .outOfRange := by
    decide +kernel
  rw [hthrows] at h
  exact h

/-- A name without a `_` behind its third byte is passed over. -/
theorem passed_over {name : Bytes} (hnone : cutAt [95] ((cstr name).drop 3) = none) :
    ¬ Short name ∧ ¬ Stops name ∧ ∀ d k, ¬ PassesFor name d k := by
  refine ⟨fun hshort => ?_, fun hstops => ?_, fun d k hpasses => ?_⟩
  · obtain ⟨_, _, _, hcut, -⟩ := hshort
    cases hnone.symm.trans hcut
  · obtain ⟨_, _, hcut, -⟩ := hstops
    cases hnone.symm.trans hcut
  · obtain ⟨_, _, hcut, -⟩ := hpasses
    cases hnone.symm.trans hcut

/-- A name of a key passes for no other. -/
theorem KeyForm.passes_only {name : Bytes} {d k d' k' : Nat} (h : KeyForm name d k)
    (hpasses : PassesFor name d' k') : KeyForm name d' k' := by
  have hsame := (decodedPair?_eq_some.mpr h.passesFor).symm.trans (decodedPair?_eq_some.mpr hpasses)
  obtain ⟨rfl, rfl⟩ := Prod.mk.inj (Option.some.inj hsame)
  exact h

/-- Two keys, one with leading zeros as the tests have them, and the name of another user between
them. -/
def sharedNames : List Bytes := [ascii "CDF1_Key001", ascii "mysql-root", ascii "CDF0_Key3"]

theorem getJsonFieldIntPairVec_exact_key :
    ListsKeys sharedNames (getJsonFieldIntPairVec (listingJson sharedNames) []) ∧
      sharedNames.filterMap keyOf? = [(1, 1), (0, 3)] := by
  have hfirst : KeyForm (ascii "CDF1_Key001") 1 1 := keyOf?_eq_some.mp (by decide +kernel)
  have hlast : KeyForm (ascii "CDF0_Key3") 0 3 := keyOf?_eq_some.mp (by decide +kernel)
  obtain ⟨hshort, -, hforeign⟩ := @passed_over (ascii "mysql-root") (by decide +kernel)
  have hread : NoShortFirst sharedNames :=
    ⟨hfirst.passesFor.not_stops.2, fun _ => ⟨hshort, fun _ =>
      ⟨hlast.passesFor.not_stops.2, fun _ => trivial⟩⟩⟩
  refine ⟨(getJsonFieldIntPairVec_exact rfl (by decide)).mpr ⟨hread, fun _ name hmem d k hpasses => ?_⟩,
    by decide +kernel⟩
  simp only [sharedNames, List.mem_cons, List.not_mem_nil, or_false] at hmem
  obtain rfl | rfl | rfl := hmem
  · exact hfirst.passes_only hpasses
  · exact absurd hpasses (hforeign d k)
  · exact hlast.passes_only hpasses

end CdfCrypto.KeyManagement
