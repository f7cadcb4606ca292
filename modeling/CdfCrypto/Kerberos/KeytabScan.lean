import CdfCrypto.Kerberos.KeytabMemory

/-!
# What a record asks for

How far the reader comes in a record is a matter of the bytes of the keytab and of the answers of
`malloc`. The bytes say where each field ends, if it is there (`pastContent`, `wholeRecord`), and
how often memory is asked for on the way: the reader finds what they say if it gets all that memory,
and otherwise fails at the first call that is refused (`kerberosReadEntryContent_read`).
-/

namespace CdfCrypto.Kerberos

open Lib

/-! ## Bytes -/

section Bytes

variable (buf : Bytes)

/-- The cursor after so many items, where they are there. -/
def past (size count : Nat) (pos : UInt32) : Option UInt32 :=
  (kerberosRead buf size count pos).1.map fun _ => (kerberosRead buf size count pos).2

/-- A number of things that come after it, with the cursor after it. -/
def countAt (pos : UInt32) : Option (Nat × UInt32) :=
  match kerberosRead buf 2 1 pos with
  | (none, _) => none
  | (some bytes, pos) =>
    if (ntohs bytes).toInt16 ≤ 0 then none else some ((ntohs bytes).toNat, pos)

/-- The cursor after a string with its length before it. -/
def pastCounted (pos : UInt32) : Option UInt32 :=
  (countAt buf pos).bind fun length => past buf 1 length.1 length.2

/-- The cursor after so many of them. -/
def pastComponents : Nat → UInt32 → Option UInt32
  | 0, pos => some pos
  | count + 1, pos => (pastCounted buf pos).bind (pastComponents count)

/-- The cursor after the realm of a record. -/
def pastRealm (pos : UInt32) : Option UInt32 :=
  (countAt buf pos).bind fun count => pastCounted buf count.2

/-- The cursor after the principal, of so many components. -/
def pastPrincipal (count : Nat) (pos : UInt32) : Option UInt32 :=
  (pastCounted buf pos).bind fun pos => (pastComponents buf count pos).bind (past buf 4 1)

/-- The cursor after the timestamp and the version. -/
def pastTSVNo (pos : UInt32) : Option UInt32 := (past buf 4 1 pos).bind (past buf 1 1)

/-- The cursor after the key. -/
def pastKey (pos : UInt32) : Option UInt32 := (past buf 2 1 pos).bind (pastCounted buf)

/-- The number of the components of a record and the cursor after its key. -/
def pastContent (pos : UInt32) : Option (Nat × UInt32) :=
  (countAt buf pos).bind fun count => (pastPrincipal buf count.1 count.2).bind fun pos =>
    (pastTSVNo buf pos).bind fun pos => (pastKey buf pos).map fun pos => (count.1, pos)

/-- The cursor after the version of four bytes, where the record is long enough for it. -/
def pastVno32 (startPos : UInt32) (size : Int32) (pos : UInt32) : Option UInt32 :=
  if pos.toNat + 4 ≤ (size.toUInt32 + startPos).toNat then past buf 4 1 pos else some pos

/-- The number of the components of a record that is whole, in the size that it is said to have. -/
def wholeRecord (startPos : UInt32) (size : Int32) : Option Nat :=
  (pastContent buf startPos).bind fun content => (pastVno32 buf startPos size content.2).bind
    fun pos => if startPos + size.toUInt32 < pos then none else some content.1

/-- The size of a hole or a record, with the cursor after it. -/
def sizeAt (pos : UInt32) : Option (Int32 × UInt32) :=
  (kerberosRead buf 4 1 pos).1.map fun bytes =>
    ((ntohl bytes).toInt32, (kerberosRead buf 4 1 pos).2)

/-- A hole that is in the keytab. -/
def IsHole (size : Int32) (startPos : UInt32) : Prop :=
  size < 0 ∧ size ≠ Int32.minValue ∧ (startPos + (-size).toUInt32).toNat ≤ buf.length

end Bytes

variable {buf : Bytes} {pos : UInt32} {granted : List Bool}

/-! ## Memory -/

/-- Whether there was memory, of a call that asks for it. -/
def ktGranted : KtEvent → Option Bool
  | ⟨.malloc _, allocated⟩ => some allocated.isSome
  | ⟨.free _, _⟩ => none
  | ⟨.errno, _⟩ => none

/-- What a part of the reader finds, by what is there: the cursor after it, with all the memory it
asks for, or nothing, where the bytes are not there or memory is refused. -/
def Covered (there : Option UInt32) (asks : Nat) (granted : List Bool) : Option UInt32 → Prop
  | some pos => there = some pos ∧ granted = List.replicate asks true
  | none => there = none ∨ ∃ k < asks, granted = List.replicate k true ++ [false]

/-- A part of the reader, by the bytes it goes over and how often it asks for memory. -/
def Covers {α : Type} (p : Kt α) (found : α → Option UInt32) (there : Option UInt32)
    (asks : Nat) : Prop :=
  wp p fun tr o => ∃ a, o = .ret a ∧ Covered there asks (tr.filterMap ktGranted) (found a)

section Covers

variable {α β : Type} {p : Kt α} {f : α → Kt β} {found : β → Option UInt32}
variable {there x : Option UInt32} {asks : Nat}

theorem Covered.append (h : Covered there asks granted x) (n : Nat) :
    Covered there (n + asks) (List.replicate n true ++ granted) x := by
  cases x with
  | some pos =>
    obtain ⟨hthere, rfl⟩ := h
    exact ⟨hthere, List.replicate_append_replicate⟩
  | none =>
    rcases h with hthere | ⟨k, hk, rfl⟩
    · exact .inl hthere
    · refine .inr ⟨n + k, by omega, ?_⟩
      rw [← List.append_assoc, List.replicate_append_replicate]

theorem Covers.ret {b : β} (h : Covered there asks [] (found b)) :
    Covers (.ret b) found there asks := ⟨b, rfl, h⟩

/-- The bytes are not there. -/
theorem Covers.failed {b : β} (h : found b = none) (hthere : there = none) :
    Covers (.ret b) found there asks := by
  refine .ret ?_
  rw [h]
  exact .inl hthere

theorem Covers.malloc {size : Nat} {f : Option Nat → Kt β}
    (hnone : ∃ b, f none = .ret b ∧ found b = none)
    (hsome : ∀ addr, Covers (f (some addr)) found there asks) :
    Covers (.perform (KtCall.malloc size) >>= f) found there (1 + asks) := by
  refine wp_perform_bind.mpr fun allocated => ?_
  cases allocated with
  | none =>
    obtain ⟨b, hb, hfound⟩ := hnone
    rw [hb]
    refine ⟨b, rfl, ?_⟩
    rw [hfound]
    exact .inr ⟨0, by omega, rfl⟩
  | some addr =>
    refine wp_mono (hsome addr) fun tr o ho => ?_
    obtain ⟨b, rfl, hb⟩ := ho
    exact ⟨b, rfl, hb.append 1⟩

theorem Covers.bind {found₁ : α → Option UInt32} {there₁ : Option UInt32} {asks₁ : Nat}
    {next : UInt32 → Option UInt32} (hp : Covers p found₁ there₁ asks₁)
    (hfail : ∀ a, found₁ a = none → ∃ b, f a = .ret b ∧ found b = none)
    (hok : ∀ a pos, found₁ a = some pos → Covers (f a) found (next pos) asks) :
    Covers (p >>= f) found (there₁.bind next) (asks₁ + asks) := by
  refine wp_bind_of hp (fun tr a ha => ?_) fun tr x hx => ?_
  · obtain ⟨a', heq, hcovered⟩ := ha
    obtain rfl := Outcome.ret.inj heq
    cases hfound : found₁ a with
    | none =>
      obtain ⟨b, hb, hnone⟩ := hfail a hfound
      rw [hfound] at hcovered
      rw [hb]
      refine ⟨b, rfl, ?_⟩
      rw [hnone, List.append_nil]
      rcases hcovered with rfl | ⟨k, hk, hgranted⟩
      · exact .inl rfl
      · exact .inr ⟨k, by omega, hgranted⟩
    | some pos =>
      rw [hfound] at hcovered
      obtain ⟨rfl, hgranted⟩ := hcovered
      refine wp_mono (hok a pos hfound) fun tr' o ho => ?_
      obtain ⟨b, rfl, hb⟩ := ho
      refine ⟨b, rfl, ?_⟩
      rw [List.filterMap_append, hgranted]
      exact hb.append asks₁
  · obtain ⟨a', heq, -⟩ := hx
    cases heq

end Covers

/-! ## The parts of the reader -/

theorem past_none {size count : Nat} {keypos : UInt32}
    (h : kerberosRead buf size count pos = (none, keypos)) : past buf size count pos = none := by
  unfold past
  rw [h]
  rfl

theorem past_some {size count : Nat} {bytes : Bytes} {keypos : UInt32}
    (h : kerberosRead buf size count pos = (some bytes, keypos)) :
    past buf size count pos = some keypos := by
  unfold past
  rw [h]
  rfl

theorem countAt_some {bytes : Bytes} {keypos : UInt32}
    (h : kerberosRead buf 2 1 pos = (some bytes, keypos)) : countAt buf pos =
      if (ntohs bytes).toInt16 ≤ 0 then none else some ((ntohs bytes).toNat, keypos) := by
  unfold countAt
  rw [h]

theorem countAt_none {keypos : UInt32} (h : kerberosRead buf 2 1 pos = (none, keypos)) :
    countAt buf pos = none := by
  unfold countAt
  rw [h]

theorem readCounted_covers (buf : Bytes) (st : KtState) :
    Covers (readCounted buf st) (fun r => r.1.map fun _ => r.2.keypos)
      (pastCounted buf st.keypos) 1 := by
  unfold readCounted readShort pastCounted
  rcases hshort : kerberosRead buf 2 1 st.keypos with ⟨_ | bytes, keypos⟩
  · rw [countAt_none hshort]
    exact .failed rfl rfl
  · rw [countAt_some hshort]
    dsimp only [Option.map_some]
    split
    · exact .failed rfl rfl
    · show Covers _ _ _ (1 + 0)
      refine .malloc ⟨_, rfl, rfl⟩ fun addr => ?_
      dsimp only [Option.bind_some]
      rcases hread : kerberosRead buf 1 (ntohs bytes).toNat keypos with ⟨_ | bytes', keypos'⟩
      · rw [past_none hread]
        exact fun _ => ⟨_, rfl, .inl rfl⟩
      · rw [past_some hread]
        exact .ret ⟨rfl, rfl⟩

/-- What a reader of a part of the principal finds. -/
def foundPart (r : Bool × Krb5Principal × KtState) : Option UInt32 :=
  if r.1 then some r.2.2.keypos else none

/-- What a reader of a part of the entry finds. -/
def foundEntry (r : Bool × KtState) : Option UInt32 := if r.1 then some r.2.keypos else none

theorem realm_covers (buf : Bytes) (p : Krb5Principal) (st : KtState) :
    Covers (kerberosReadEntryPrincipalRealm buf p st) foundPart (pastCounted buf st.keypos) 1 := by
  rw [← Option.bind_fun_some (pastCounted buf st.keypos)]
  show Covers _ _ _ (1 + 0)
  refine (readCounted_covers buf st).bind (fun r hr => ?_) fun r keypos hr => ?_
  · rcases r with ⟨_ | realm, st₁⟩
    · exact ⟨_, rfl, rfl⟩
    · cases hr
  · rcases r with ⟨_ | realm, st₁⟩
    · cases hr
    · exact .ret ⟨hr.symm, rfl⟩

theorem component_covers (buf : Bytes) (p : Krb5Principal) (st : KtState) :
    Covers (kerberosReadEntryPrincipalData buf p st) foundPart (pastCounted buf st.keypos) 1 := by
  rw [← Option.bind_fun_some (pastCounted buf st.keypos)]
  show Covers _ _ _ (1 + 0)
  refine (readCounted_covers buf st).bind (fun r hr => ?_) fun r keypos hr => ?_
  · rcases r with ⟨_ | data, st₁⟩
    · exact ⟨_, rfl, rfl⟩
    · cases hr
  · rcases r with ⟨_ | data, st₁⟩
    · cases hr
    · exact .ret ⟨hr.symm, rfl⟩

theorem foundPart_none {r : Bool × Krb5Principal × KtState} (h : foundPart r = none) :
    ¬ r.1 = true := by
  intro hok
  unfold foundPart at h
  rw [if_pos hok] at h
  cases h

theorem foundPart_some {r : Bool × Krb5Principal × KtState} (h : foundPart r = some pos) :
    r.1 = true ∧ r.2.2.keypos = pos := by
  unfold foundPart at h
  split at h
  next hok => exact ⟨hok, Option.some.inj h⟩
  · cases h

theorem readComponents_covers (buf : Bytes) : ∀ (count : Nat) (p : Krb5Principal) (st : KtState),
    Covers (readComponents buf count p st) foundPart (pastComponents buf count st.keypos) count
  | 0, p, st => .ret ⟨rfl, rfl⟩
  | count + 1, p, st => by
    unfold readComponents pastComponents
    rw [add_comm]
    refine (component_covers buf p st).bind (fun r hr => ?_) fun r pos hr => ?_
    · have hnot := foundPart_none hr
      rw [if_pos hnot]
      exact ⟨r, rfl, hr⟩
    · obtain ⟨hok, rfl⟩ := foundPart_some hr
      rw [if_neg (not_not.mpr hok)]
      exact readComponents_covers buf count _ _

/-- The principal, of the number of components that is there. -/
theorem principal_covers (buf : Bytes) (st : KtState) {count : Nat × UInt32}
    (hcount : countAt buf st.keypos = some count) :
    Covers (kerberosReadEntryPrincipal buf st) foundEntry (pastPrincipal buf count.1 count.2)
      (count.1 + 3) := by
  unfold kerberosReadEntryPrincipal readShort pastPrincipal
  rcases hshort : kerberosRead buf 2 1 st.keypos with ⟨_ | bytes, keypos⟩
  · rw [countAt_none hshort] at hcount
    cases hcount
  · rw [countAt_some hshort] at hcount
    dsimp only [Option.map_some]
    split at hcount
    · cases hcount
    next hpositive =>
    obtain rfl := Option.some.inj hcount
    rw [if_neg hpositive, show (ntohs bytes).toNat + 3 = 1 + (1 + (1 + (ntohs bytes).toNat)) by omega]
    refine .malloc ⟨_, rfl, rfl⟩ fun addr => .malloc ⟨_, rfl, rfl⟩ fun dataAddr => ?_
    refine (realm_covers buf _ _).bind (fun realm hrealm => ?_) fun realm pos hrealm => ?_
    · exact ⟨_, if_pos (foundPart_none hrealm), rfl⟩
    obtain ⟨hok, rfl⟩ := foundPart_some hrealm
    rw [if_neg (not_not.mpr hok)]
    show Covers _ _ _ ((ntohs bytes).toNat + 0)
    refine (readComponents_covers buf _ _ _).bind (fun components hcomponents => ?_)
      fun components pos hcomponents => ?_
    · exact ⟨_, if_pos (foundPart_none hcomponents), rfl⟩
    obtain ⟨hok, rfl⟩ := foundPart_some hcomponents
    rw [if_neg (not_not.mpr hok)]
    unfold readLong
    rcases hlong : kerberosRead buf 4 1 components.2.2.keypos with ⟨_ | bytes', keypos'⟩
    · rw [past_none hlong]
      exact .failed rfl rfl
    · rw [past_some hlong]
      exact .ret ⟨rfl, rfl⟩

/-- The timestamp and the version need no memory. -/
theorem tsvno_past (buf : Bytes) (st : KtState) :
    foundEntry (kerberosReadEntryTSVNo buf st) = pastTSVNo buf st.keypos := by
  unfold kerberosReadEntryTSVNo readLong pastTSVNo
  rcases hlong : kerberosRead buf 4 1 st.keypos with ⟨_ | bytes, keypos⟩
  · rw [past_none hlong]
    rfl
  · rw [past_some hlong]
    dsimp only [Option.map_some, Option.bind_some]
    unfold readOctet
    rcases hoctet : kerberosRead buf 1 1 keypos with ⟨_ | bytes', keypos'⟩
    · rw [past_none hoctet]
      rfl
    · rw [past_some hoctet]
      rfl

theorem key_covers (buf : Bytes) (st : KtState) :
    Covers (kerberosReadEntryKey buf st) foundEntry (pastKey buf st.keypos) 1 := by
  unfold kerberosReadEntryKey readShort pastKey
  rcases henctype : kerberosRead buf 2 1 st.keypos with ⟨_ | enctype, keypos⟩
  · rw [past_none henctype]
    exact .failed rfl rfl
  · rw [past_some henctype]
    dsimp only [Option.map_some, Option.bind_some]
    unfold pastCounted
    rcases hcount : kerberosRead buf 2 1 keypos with ⟨_ | bytes, keypos'⟩
    · rw [countAt_none hcount]
      exact .failed rfl rfl
    · rw [countAt_some hcount]
      dsimp only [Option.map_some]
      split
      · exact .failed rfl rfl
      · show Covers _ _ _ (1 + 0)
        refine .malloc ⟨_, rfl, rfl⟩ fun addr => ?_
        dsimp only [Option.bind_some]
        rcases hread : kerberosRead buf 1 (ntohs bytes).toNat keypos' with ⟨_ | bytes', keypos''⟩
        · rw [past_none hread]
          exact .failed rfl rfl
        · rw [past_some hread]
          exact .ret ⟨rfl, rfl⟩

theorem foundEntry_none {r : Bool × KtState} (h : foundEntry r = none) : ¬ r.1 = true := by
  intro hok
  unfold foundEntry at h
  rw [if_pos hok] at h
  cases h

theorem foundEntry_some {r : Bool × KtState} (h : foundEntry r = some pos) :
    r.1 = true ∧ r.2.keypos = pos := by
  unfold foundEntry at h
  split at h
  next hok => exact ⟨hok, Option.some.inj h⟩
  · cases h

/-- What the content of a record has come to. -/
def ContentRead (buf : Bytes) (pos : UInt32) (granted : List Bool) (r : Bool × KtState) : Prop :=
  if r.1 then ∃ count, pastContent buf pos = some (count, r.2.keypos) ∧
    granted = List.replicate (count + 4) true
  else ∀ count keypos, pastContent buf pos = some (count, keypos) →
    ∃ k < count + 4, granted = List.replicate k true ++ [false]

/-- A record without components. -/
theorem kerberosReadEntryContent_none {st : KtState} (hcount : countAt buf st.keypos = none) :
    ∃ st', kerberosReadEntryContent buf st = .ret (false, st') := by
  have hprincipal : ∃ st', kerberosReadEntryPrincipal buf st = .ret (false, st') := by
    unfold kerberosReadEntryPrincipal readShort
    rcases hshort : kerberosRead buf 2 1 st.keypos with ⟨_ | bytes, keypos⟩
    · exact ⟨_, rfl⟩
    · rw [countAt_some hshort] at hcount
      dsimp only [Option.map_some]
      split at hcount
      next hnone =>
        rw [if_pos hnone]
        exact ⟨_, rfl⟩
      · cases hcount
  obtain ⟨st', hst'⟩ := hprincipal
  unfold kerberosReadEntryContent
  rw [hst']
  exact ⟨st', rfl⟩

theorem kerberosReadEntryContent_read (buf : Bytes) (st : KtState) :
    wp (kerberosReadEntryContent buf st) fun tr o => ∃ r, o = .ret r ∧
      ContentRead buf st.keypos (tr.filterMap ktGranted) r := by
  cases hcount : countAt buf st.keypos with
  | none =>
    obtain ⟨st', hst'⟩ := kerberosReadEntryContent_none hcount
    rw [hst']
    refine ⟨_, rfl, fun count keypos hthere => ?_⟩
    unfold pastContent at hthere
    rw [hcount] at hthere
    cases hthere
  | some count =>
    have hcovers : Covers (kerberosReadEntryContent buf st) foundEntry
        ((pastPrincipal buf count.1 count.2).bind fun pos => (pastTSVNo buf pos).bind (pastKey buf))
        (count.1 + 3 + 1) := by
      refine (principal_covers buf st hcount).bind (fun r hr => ⟨r, if_pos (foundEntry_none hr), hr⟩)
        fun r pos hr => ?_
      obtain ⟨hok, rfl⟩ := foundEntry_some hr
      rw [if_neg (not_not.mpr hok), ← tsvno_past buf r.2]
      dsimp only
      cases htsvno : foundEntry (kerberosReadEntryTSVNo buf r.2) with
      | none =>
        rw [if_pos (foundEntry_none htsvno)]
        exact .failed htsvno rfl
      | some keypos =>
        obtain ⟨hok, rfl⟩ := foundEntry_some htsvno
        rw [if_neg (not_not.mpr hok)]
        exact key_covers buf _
    have hthere : pastContent buf st.keypos = ((pastPrincipal buf count.1 count.2).bind fun pos =>
        (pastTSVNo buf pos).bind (pastKey buf)).map fun pos => (count.1, pos) := by
      unfold pastContent
      rw [hcount]
      simp only [Option.bind_some, Option.map_bind, Function.comp_def]
    refine wp_mono hcovers fun tr o ho => ?_
    obtain ⟨r, rfl, hr⟩ := ho
    refine ⟨r, rfl, ?_⟩
    unfold ContentRead
    rw [hthere]
    cases hfound : foundEntry r with
    | none =>
      rw [hfound] at hr
      rw [if_neg (foundEntry_none hfound)]
      intro count' keypos heq
      rcases hr with hnone | hrefused
      · rw [hnone] at heq
        cases heq
      · obtain ⟨pos, -, hpos⟩ := Option.map_eq_some_iff.mp heq
        obtain ⟨rfl, -⟩ := Prod.mk.inj hpos
        exact hrefused
    | some pos =>
      rw [hfound] at hr
      obtain ⟨hok, rfl⟩ := foundEntry_some hfound
      rw [if_pos hok]
      refine ⟨count.1, ?_, hr.2⟩
      rw [hr.1]
      rfl

end CdfCrypto.Kerberos
