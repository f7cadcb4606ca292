import CdfCrypto.Kerberos.KrbCtx

/-!
# No keytab breaks the reader

Sizes, counts and the lengths of holes come from the keytab. A read is compared with its end
before it is made, in more bits than the cursor has, so it stays inside from any cursor
(`checkedItems_eq`). What is added to the cursor without a look, the length of a hole or the size
of an entry, is less than 2³¹ and is added to a cursor inside the buffer; with a buffer of at most
`MAX_FILE_SIZE` bytes that is less than 2³². Nothing is read past the buffer's end, so nothing
more is added there, and the loops come to an end with the bytes (`kerberosGetEntry_safe`).
-/

namespace CdfCrypto.Kerberos

open Lib

variable {buf : Bytes}

/-! ## Reads -/

/-- So many bytes of the buffer from a place on, if all of them are in it. -/
def load (buf : Bytes) : Nat → Nat → Option Bytes
  | _, 0 => some []
  | pos, size + 1 => do
    let b ← buf[pos]?
    let rest ← load buf (pos + 1) size
    return b :: rest

/-- The loop of `KerberosRead` with a look at each of its steps: nothing where one goes outside
the buffer, or where the cursor wraps. -/
def checkedItems (buf : Bytes) (size : Nat) : Nat → UInt32 → Option (Option Bytes × UInt32)
  | 0, pos => some (some [], pos)
  | count + 1, pos =>
    if buf.length < pos.toNat + size then some (none, pos)
    else do
      let item ← load buf pos.toNat size
      if pos.toNat + size < 2 ^ 32 then
        let rest ← checkedItems buf size count (pos + UInt32.ofNat size)
        return (rest.1.map (item ++ ·), rest.2)
      else none

theorem load_eq : ∀ {size pos : Nat}, pos + size ≤ buf.length →
    load buf pos size = some ((buf.drop pos).take size)
  | 0, pos, _ => rfl
  | size + 1, pos, h => by
    have hlt : pos < buf.length := by omega
    have hrest := load_eq (show pos + 1 + size ≤ buf.length by omega)
    unfold load
    rw [List.getElem?_eq_getElem hlt, hrest, List.drop_eq_getElem_cons hlt]
    rfl

/-- **No look finds anything**: from whatever cursor, the reads are inside and the cursor does not
wrap. -/
theorem checkedItems_eq (hbuf : buf.length < 2 ^ 32) (size : Nat) : ∀ (count : Nat) (pos : UInt32),
    checkedItems buf size count pos = some (readItems buf size count pos)
  | 0, _ => rfl
  | count + 1, pos => by
    unfold checkedItems readItems
    split
    · rfl
    next hinside =>
      rw [load_eq (Nat.le_of_not_lt hinside)]
      have hrest := checkedItems_eq hbuf size count (pos + UInt32.ofNat size)
      show (if _ then _ else _) = _
      rw [if_pos (by omega), hrest]
      rfl

/-! ## The cursor -/

/-- A cursor that has gone on, to a place inside the buffer, or has stayed. -/
def Advances (buf : Bytes) (pos pos' : UInt32) : Prop :=
  pos.toNat ≤ pos'.toNat ∧ pos'.toNat ≤ max pos.toNat buf.length

theorem Advances.refl (pos : UInt32) : Advances buf pos pos := ⟨Nat.le_refl _, Nat.le_max_left _ _⟩

theorem Advances.trans {pos₁ pos₂ pos₃ : UInt32} (h : Advances buf pos₁ pos₂)
    (h' : Advances buf pos₂ pos₃) : Advances buf pos₁ pos₃ := by
  unfold Advances at h h' ⊢
  omega

/-- The sum is exact where it is inside the buffer. -/
theorem add_inside {pos : UInt32} {size : Nat} (hbuf : buf.length < 2 ^ 32)
    (h : pos.toNat + size ≤ buf.length) : (pos + UInt32.ofNat size).toNat = pos.toNat + size := by
  rw [UInt32.toNat_add, UInt32.toNat_ofNat_of_lt' (show size < 2 ^ 32 by omega)]
  exact Nat.mod_eq_of_lt (by omega)

theorem readItems_advances (hbuf : buf.length < 2 ^ 32) (size : Nat) : ∀ (count : Nat) (pos : UInt32),
    Advances buf pos (readItems buf size count pos).2
  | 0, pos => .refl pos
  | count + 1, pos => by
    unfold readItems
    split
    · exact .refl pos
    next hinside =>
      have hsum := add_inside hbuf (Nat.le_of_not_lt hinside)
      have hitem : Advances buf pos (pos + UInt32.ofNat size) := by
        unfold Advances
        omega
      exact hitem.trans (readItems_advances hbuf size count _)

theorem kerberosRead_cursor (buf : Bytes) (size count : Nat) (pos : UInt32) :
    (kerberosRead buf size count pos).2 = (readItems buf size count pos).2 := by
  unfold kerberosRead
  rcases readItems buf size count pos with ⟨_ | _ | ⟨b, bytes⟩, pos'⟩ <;> rfl

theorem kerberosRead_advances (hbuf : buf.length < 2 ^ 32) (size count : Nat) (pos : UInt32) :
    Advances buf pos (kerberosRead buf size count pos).2 := by
  rw [kerberosRead_cursor]
  exact readItems_advances hbuf size count pos

/-- What has been read, the loop has read. -/
theorem kerberosRead_some {size count : Nat} {pos pos' : UInt32} {bytes : Bytes}
    (h : kerberosRead buf size count pos = (some bytes, pos')) :
    readItems buf size count pos = (some bytes, pos') := by
  unfold kerberosRead at h
  split at h
  · cases h
  · exact h

/-- One item that has been read was inside, and the cursor is past it. -/
theorem kerberosRead_one {size : Nat} {pos pos' : UInt32} {bytes : Bytes}
    (hbuf : buf.length < 2 ^ 32) (h : kerberosRead buf size 1 pos = (some bytes, pos')) :
    pos'.toNat = pos.toNat + size ∧ pos'.toNat ≤ buf.length := by
  have hitems := kerberosRead_some h
  unfold readItems at hitems
  split at hitems
  · cases hitems
  next hinside =>
    obtain ⟨-, rfl⟩ := Prod.mk.inj hitems
    have hsum := add_inside hbuf (Nat.le_of_not_lt hinside)
    exact ⟨hsum, by show (pos + UInt32.ofNat size).toNat ≤ buf.length; omega⟩

/-! ## The fields -/

/-- The program comes back from whatever it is answered, with its cursor on from `keypos`. -/
def Forward {α : Type} (buf : Bytes) (keypos : UInt32) (p : Kt α) (cursor : α → UInt32) : Prop :=
  Total (fun _ => True) p fun a => Advances buf keypos (cursor a)

section Forward

variable {α β : Type} {keypos : UInt32} {cursor : α → UInt32} {cursor' : β → UInt32}

theorem Forward.ret {a : α} (h : Advances buf keypos (cursor a)) :
    Forward buf keypos (.ret a) cursor := h

theorem Forward.bind {p : Kt α} {f : α → Kt β} (hp : Forward buf keypos p cursor)
    (hf : ∀ a, Forward buf (cursor a) (f a) cursor') : Forward buf keypos (p >>= f) cursor' :=
  Total.bind hp fun a ha => (hf a).mono fun _ => ha.trans

theorem Forward.perform_bind {call : KtCall} {f : call.Reply → Kt β}
    (hf : ∀ r, Forward buf keypos (f r) cursor') :
    Forward buf keypos (.perform call >>= f) cursor' := ⟨trivial, hf⟩

/-- After a read that has moved the cursor. -/
theorem Forward.from {keypos' : UInt32} {p : Kt α} (h : Advances buf keypos keypos')
    (hp : Forward buf keypos' p cursor) : Forward buf keypos p cursor := hp.mono fun _ => h.trans

end Forward

variable {st : KtState}

theorem readShort_advances (hbuf : buf.length < 2 ^ 32) (st : KtState) :
    Advances buf st.keypos (readShort buf st).2.keypos := kerberosRead_advances hbuf 2 1 st.keypos

theorem readLong_advances (hbuf : buf.length < 2 ^ 32) (st : KtState) :
    Advances buf st.keypos (readLong buf st).2.keypos := kerberosRead_advances hbuf 4 1 st.keypos

theorem readOctet_advances (hbuf : buf.length < 2 ^ 32) (st : KtState) :
    Advances buf st.keypos (readOctet buf st).2.keypos := kerberosRead_advances hbuf 1 1 st.keypos

theorem readCounted_forward (hbuf : buf.length < 2 ^ 32) (st : KtState) :
    Forward buf st.keypos (readCounted buf st) fun r => r.2.keypos := by
  have hshort := readShort_advances hbuf st
  unfold readCounted
  generalize readShort buf st = r at hshort ⊢
  rcases r with ⟨_ | princSize, st₁⟩
  · exact .ret hshort
  · refine .from hshort ?_
    dsimp only
    split
    · exact .ret (.refl _)
    · refine .perform_bind fun tmpdata => ?_
      cases tmpdata with
      | none => exact .ret (.refl _)
      | some addr =>
        have hstring := kerberosRead_advances hbuf 1 princSize.toNat st₁.keypos
        dsimp only
        generalize kerberosRead buf 1 princSize.toNat st₁.keypos = r at hstring ⊢
        rcases r with ⟨_ | bytes, keypos⟩
        · exact .perform_bind fun _ => .ret hstring
        · exact .ret hstring

theorem realm_forward (hbuf : buf.length < 2 ^ 32) (principal : Krb5Principal) (st : KtState) :
    Forward buf st.keypos (kerberosReadEntryPrincipalRealm buf principal st)
      fun r => r.2.2.keypos := by
  refine (readCounted_forward hbuf st).bind fun r => ?_
  rcases r with ⟨_ | realm, st₁⟩
  · exact .ret (.refl _)
  · exact .ret (.refl _)

theorem component_forward (hbuf : buf.length < 2 ^ 32) (principal : Krb5Principal) (st : KtState) :
    Forward buf st.keypos (kerberosReadEntryPrincipalData buf principal st)
      fun r => r.2.2.keypos := by
  refine (readCounted_forward hbuf st).bind fun r => ?_
  rcases r with ⟨_ | data, st₁⟩
  · exact .ret (.refl _)
  · exact .ret (.refl _)

theorem readComponents_forward (hbuf : buf.length < 2 ^ 32) : ∀ (count : Nat)
    (principal : Krb5Principal) (st : KtState),
    Forward buf st.keypos (readComponents buf count principal st) fun r => r.2.2.keypos
  | 0, _, _ => .ret (.refl _)
  | count + 1, principal, st => by
    unfold readComponents
    refine (component_forward hbuf principal st).bind fun component => ?_
    split
    · exact .ret (.refl _)
    · exact readComponents_forward hbuf count _ _

theorem principal_forward (hbuf : buf.length < 2 ^ 32) (st : KtState) :
    Forward buf st.keypos (kerberosReadEntryPrincipal buf st) fun r => r.2.keypos := by
  have hshort := readShort_advances hbuf st
  unfold kerberosReadEntryPrincipal
  generalize readShort buf st = r at hshort ⊢
  rcases r with ⟨_ | count, st₁⟩
  · exact .ret hshort
  · refine .from hshort ?_
    dsimp only
    split
    · exact .ret (.refl _)
    · refine .perform_bind fun allocated => ?_
      cases allocated with
      | none => exact .ret (.refl _)
      | some addr =>
        refine .perform_bind fun allocated => ?_
        cases allocated with
        | none => exact .ret (.refl _)
        | some dataAddr =>
          refine (realm_forward hbuf _ st₁).bind fun realm => ?_
          split
          · exact .ret (.refl _)
          · refine (readComponents_forward hbuf _ _ _).bind fun components => ?_
            split
            · exact .ret (.refl _)
            · have hlong := readLong_advances hbuf components.2.2
              generalize readLong buf components.2.2 = r at hlong ⊢
              rcases r with ⟨_ | type, st₂⟩
              · exact .ret hlong
              · exact .ret hlong

theorem tsvno_advances (hbuf : buf.length < 2 ^ 32) (st : KtState) :
    Advances buf st.keypos (kerberosReadEntryTSVNo buf st).2.keypos := by
  have hlong := readLong_advances hbuf st
  unfold kerberosReadEntryTSVNo
  generalize readLong buf st = r at hlong ⊢
  rcases r with ⟨_ | timestamp, st₁⟩
  · exact hlong
  · have hoctet := readOctet_advances hbuf
      { st₁ with retEntry := { st₁.retEntry with timestamp := timestamp.toInt32 } }
    dsimp only
    generalize readOctet buf
      { st₁ with retEntry := { st₁.retEntry with timestamp := timestamp.toInt32 } } = r at hoctet ⊢
    rcases r with ⟨_ | vno, st₂⟩
    · exact hlong.trans hoctet
    · exact hlong.trans hoctet

theorem key_forward (hbuf : buf.length < 2 ^ 32) (st : KtState) :
    Forward buf st.keypos (kerberosReadEntryKey buf st) fun r => r.2.keypos := by
  have henctype := readShort_advances hbuf st
  unfold kerberosReadEntryKey
  generalize readShort buf st = r at henctype ⊢
  rcases r with ⟨_ | enctype, st₁⟩
  · exact .ret henctype
  · have hcount := readShort_advances hbuf
      { st₁ with retEntry := { st₁.retEntry with enctype := enctype.toInt16.toInt32 } }
    refine .from henctype ?_
    dsimp only
    generalize readShort buf
      { st₁ with retEntry := { st₁.retEntry with enctype := enctype.toInt16.toInt32 } } = r
      at hcount ⊢
    rcases r with ⟨_ | count, st₂⟩
    · exact .ret hcount
    · refine .from hcount ?_
      dsimp only
      split
      · exact .ret (.refl _)
      · refine .perform_bind fun allocated => ?_
        cases allocated with
        | none => exact .ret (.refl _)
        | some addr =>
          have hkey := kerberosRead_advances hbuf 1 count.toNat st₂.keypos
          dsimp only
          generalize kerberosRead buf 1 count.toNat st₂.keypos = r at hkey ⊢
          rcases r with ⟨_ | bytes, keypos⟩
          · exact .ret hkey
          · exact .ret hkey

theorem content_forward (hbuf : buf.length < 2 ^ 32) (st : KtState) :
    Forward buf st.keypos (kerberosReadEntryContent buf st) fun r => r.2.keypos := by
  refine (principal_forward hbuf st).bind fun principal => ?_
  split
  · exact .ret (.refl _)
  · have htsvno := tsvno_advances hbuf principal.2
    refine .from htsvno ?_
    dsimp only
    split
    · exact .ret (.refl _)
    · exact key_forward hbuf _

theorem vno32_advances (hbuf : buf.length < 2 ^ 32) (startPos : UInt32) (size : Int32)
    (st : KtState) : Advances buf st.keypos (readVno32 buf startPos size st).2.keypos := by
  unfold readVno32
  split
  · have hlong := readLong_advances hbuf st
    generalize readLong buf st = r at hlong ⊢
    rcases r with ⟨_ | vno32, st₁⟩
    · exact hlong
    · dsimp only
      split
      · exact hlong
      · exact hlong
  · exact .refl _

/-! ## What is told -/

/-- What a mark must say: the cursor goes on, by a sum of numbers and not only of words, and what
has been read of an entry is of its size at most. -/
def KtMark.Safe : KtMark → Prop
  | hole keypos length after =>
    keypos.toNat < after.toNat ∧ after.toNat = keypos.toNat + 4 + length.toNat
  | accepted keypos startPos endPos size after =>
    keypos.toNat < after.toNat ∧ keypos.toNat + 4 ≤ startPos.toNat ∧
      startPos.toNat ≤ endPos.toNat ∧ (endPos.toNat : Int) ≤ startPos.toNat + size.toInt ∧
      (after.toNat : Int) = startPos.toNat + size.toInt
  | failed _ => True

def WatchCall.Safe : WatchCall → Prop
  | kt _ => True
  | mark told => told.Safe

def CtxCall.Safe : CtxCall → Prop
  | read call => call.Safe
  | _ => True

/-! ## An entry -/

/-- The number of a word that is read as one with a sign. -/
theorem toNat_toUInt32 {size : Int32} (h : 0 ≤ size.toInt) : (size.toUInt32.toNat : Int) = size.toInt := by
  have hcond : size.toInt = _ := BitVec.toInt_eq_toNat_cond size.toBitVec
  have hlt : size.toUInt32.toNat < 2 ^ 32 := size.toUInt32.toNat_lt
  have hnat : size.toBitVec.toNat = size.toUInt32.toNat := rfl
  rw [hnat] at hcond
  split at hcond
  · omega
  · omega

/-- The length of a hole, from its size. -/
theorem hole_length {size : Int32} (hneg : size < 0) (hmin : size ≠ Int32.minValue) :
    0 < (-size).toUInt32.toNat ∧ (-size).toUInt32.toNat < 2 ^ 31 := by
  have hint : size.toInt < 0 := Int32.lt_iff_toInt_lt.mp hneg
  have hle : -2 ^ 31 ≤ size.toInt := size.le_toInt
  have hne : size.toInt ≠ -2 ^ 31 := fun h => hmin (Int32.toInt_inj.mp h)
  have hnegated : (-size).toInt = -size.toInt := by
    rw [Int32.toInt_neg]
    exact Int.bmod_eq_of_le (by omega) (by omega)
  have hbound : (-size).toInt < 2 ^ 31 := (-size).toInt_lt
  have hnat := toNat_toUInt32 (show 0 ≤ (-size).toInt by omega)
  omega

/-- What is added without a look is added inside the buffer, and does not carry. -/
theorem add_skipped {pos length : UInt32} (hsize : buf.length ≤ maxFileSize)
    (hinside : pos.toNat ≤ buf.length) (hlength : length.toNat < 2 ^ 31) :
    (pos + length).toNat = pos.toNat + length.toNat := by
  have hmax : maxFileSize = 1024000000 := rfl
  rw [UInt32.toNat_add]
  exact Nat.mod_eq_of_lt (by omega)

/-- What the size of an entry is read to, from a cursor. -/
def SizeFound (buf : Bytes) (keypos : UInt32) (r : Int32 × Int32 × UInt32) : Prop :=
  r.1 = 0 → 0 ≤ r.2.1 → keypos.toNat + 4 ≤ r.2.2.toNat ∧ r.2.2.toNat ≤ buf.length

theorem SizeFound.from {keypos keypos' : UInt32} {r : Int32 × Int32 × UInt32}
    (hle : keypos.toNat ≤ keypos'.toNat) (h : SizeFound buf keypos' r) : SizeFound buf keypos r := by
  intro herror hsize
  obtain ⟨hpast, hinside⟩ := h herror hsize
  exact ⟨by omega, hinside⟩

/-- **The holes come to an end.** Each round begins inside the buffer, four bytes and a hole after
the one before. -/
theorem watchedSizeLoop_safe (hsize : buf.length ≤ maxFileSize) : ∀ (rounds : Nat) (keypos : UInt32)
    (size : Int32), 0 < rounds → buf.length < keypos.toNat + rounds →
    Total WatchCall.Safe (watchedSizeLoop buf rounds keypos size) (SizeFound buf keypos)
  | 0, _, _, hpos, _ => absurd hpos (Nat.lt_irrefl 0)
  | rounds + 1, keypos, size, _, hrounds => by
    have hbuf : buf.length < 2 ^ 32 := Nat.lt_of_le_of_lt hsize (by decide)
    unfold watchedSizeLoop
    rcases hread : kerberosRead buf 4 1 keypos with ⟨_ | bytes, startPos⟩
    · exact .ret fun herror => absurd herror (show (1 : Int32) ≠ 0 by decide)
    · obtain ⟨hstart, hinside⟩ := kerberosRead_one hbuf hread
      dsimp only
      split
      next hneg =>
        split
        · exact .ret fun herror => absurd herror (show (1 : Int32) ≠ 0 by decide)
        next hmin =>
          obtain ⟨hpos, hlength⟩ := hole_length hneg hmin
          have hafter := add_skipped hsize hinside hlength
          refine .perform_bind ⟨by omega, by omega⟩ fun _ => ?_
          split
          · refine .perform_bind trivial fun error => .ret fun _ hnonneg => ?_
            exact absurd hneg (Int32.not_lt.mpr hnonneg)
          next hin =>
            refine (watchedSizeLoop_safe hsize rounds _ _ ?_ ?_).mono fun r => .from ?_
            · omega
            · omega
            · omega
      · exact .ret fun _ _ => ⟨by dsimp only; omega, hinside⟩

/-- What `KerberosReadEntry` has found, where it has. -/
def EntryFound (buf : Bytes) (keypos : UInt32) (r : Bool × KtState) : Prop :=
  r.1 = true → keypos.toNat + 4 ≤ buf.length ∧ keypos < r.2.keypos

/-- A part that tells nothing. -/
theorem unwatched_total {α : Type} {p : Kt α} {P : α → Prop} (h : Total (fun _ => True) p P) :
    Total WatchCall.Safe (unwatched p) P := Total.within (A := WatchCall.Safe) h

theorem freeBuffers_total : ∀ buffers, Total (fun _ => True) (freeBuffers buffers) fun _ => True
  | [] => trivial
  | _ :: buffers => ⟨trivial, fun _ => freeBuffers_total buffers⟩

theorem freeAny_total (addr : Option Nat) : Total (fun _ => True) (freeAny addr) fun _ => True := by
  cases addr with
  | none => exact trivial
  | some addr => exact ⟨trivial, fun _ => trivial⟩

/-- An entry that is given up is not found. -/
theorem watchedFailEntry_safe (keypos : UInt32) (st : KtState) :
    Total WatchCall.Safe (watchedFailEntry st) (EntryFound buf keypos) := by
  have hfree : Total (fun _ => True) (kerberosFreeEntry st.retEntry) fun _ => True := by
    unfold kerberosFreeEntry
    split
    · exact (freeAny_total _).bind fun _ _ => trivial
    · refine (freeBuffers_total _).bind fun _ _ => (freeAny_total _).bind fun _ _ => ?_
      exact .perform_bind trivial fun _ => (freeAny_total _).bind fun _ _ => trivial
  exact .perform_bind trivial fun _ =>
    unwatched_total (hfree.bind fun entry _ => .ret fun hok => absurd hok Bool.false_ne_true)

/-- **One entry**: whatever is told of it is safe, and a cursor past the buffer finds none. -/
theorem watchedReadEntry_safe (hsize : buf.length ≤ maxFileSize) (keypos : UInt32) :
    Total WatchCall.Safe (watchedReadEntry buf keypos) (EntryFound buf keypos) := by
  have hbuf : buf.length < 2 ^ 32 := Nat.lt_of_le_of_lt hsize (by decide)
  unfold watchedReadEntry watchedReadEntrySize
  refine (watchedSizeLoop_safe hsize _ keypos 0 (Nat.succ_pos _) (by omega)).bind fun r hr => ?_
  obtain ⟨error, size, startPos⟩ := r
  dsimp only
  split
  · exact .ret fun hok => absurd hok Bool.false_ne_true
  next hfound =>
    obtain ⟨herror, hpositive⟩ := not_or.mp hfound
    have hsizePos : 0 < size.toInt := Int32.lt_iff_toInt_lt.mp (Int32.not_le.mp hpositive)
    have hsizeLt : size.toInt < 2 ^ 31 := size.toInt_lt
    have hsizeNat := toNat_toUInt32 (Int.le_of_lt hsizePos)
    obtain ⟨hstart, hinside⟩ := hr (not_not.mp herror)
      (Int32.le_of_lt (Int32.not_le.mp hpositive))
    dsimp only at hstart hinside
    have hafter := add_skipped hsize hinside
      (show size.toUInt32.toNat < 2 ^ 31 by omega)
    refine (unwatched_total (content_forward hbuf { keypos := startPos })).bind
      fun content hcontent => ?_
    split
    · exact watchedFailEntry_safe keypos _
    · have hvno := vno32_advances hbuf startPos size content.2
      split
      · exact watchedFailEntry_safe keypos _
      · split
        · exact watchedFailEntry_safe keypos _
        next hwithin =>
          have hend := (hcontent.trans hvno).1
          have hle := UInt32.le_iff_toNat_le.mp (UInt32.not_lt.mp hwithin)
          dsimp only at hend
          refine .perform_bind ⟨by omega, hstart, hend, by omega, by omega⟩ fun _ => .ret fun _ => ?_
          rw [UInt32.lt_iff_toNat_lt]
          dsimp only
          omega

/-! ## The search -/

theorem kerberosCompareEntry_total (krb5Context : Option Handle) (kvno : UInt32)
    (curEntry newEntry : KeytabEntry) (find : Bool) : Total CtxCall.Safe
      (kerberosCompareEntry krb5Context kvno curEntry newEntry find) fun _ => True := by
  unfold kerberosCompareEntry
  split
  · split
    · exact .perform_bind trivial fun _ => trivial
    · exact .perform_bind trivial fun _ => trivial
  · split
    · exact .perform_bind trivial fun _ => trivial
    · split
      · exact .ret trivial
      · exact .perform_bind trivial fun _ => trivial

/-- **The loop comes to an end**: each round begins inside the buffer, behind the one before. -/
theorem getEntryLoop_safe (krb5Context principal : Option Handle) (hsize : buf.length ≤ maxFileSize)
    (kvno : UInt32) (enctype : Int32) : ∀ (rounds : Nat) (pos : UInt32) (curEntry : KeytabEntry)
    (find : Bool), 0 < rounds → buf.length < pos.toNat + rounds → Total CtxCall.Safe
      (getEntryLoop krb5Context principal buf kvno enctype rounds pos curEntry find) fun _ => True
  | 0, _, _, _, hpos, _ => absurd hpos (Nat.lt_irrefl 0)
  | rounds + 1, pos, curEntry, find, _, hrounds => by
    have hentry := watchedReadEntry_safe hsize pos
    unfold getEntryLoop
    refine (Total.within (A := CtxCall.Safe) hentry).bind fun entry hfound => ?_
    split
    · exact .ret trivial
    next hok =>
      obtain ⟨hinside, hlt⟩ := hfound (by simpa using hok)
      rw [UInt32.lt_iff_toNat_lt] at hlt
      have hrest := fun cur found => getEntryLoop_safe krb5Context principal hsize kvno enctype rounds
        entry.2.keypos cur found (by omega) (by omega)
      refine .perform_bind trivial fun same => ?_
      split
      · exact .perform_bind trivial fun _ => hrest _ _
      · refine (kerberosCompareEntry_total _ _ _ _ _).bind fun compared _ => ?_
        split
        · exact .ret trivial
        · exact hrest _ _

/-- **No keytab breaks the search.** It comes back, for any buffer of a size that is accepted and
whatever the environment answers; its reads are inside the buffer from whatever cursor, and what
is added to the cursor besides, for a hole or an accepted entry, moves it on and does not wrap. -/
theorem kerberosGetEntry_safe (hsize : buf.length ≤ maxFileSize)
    (krb5Context principal : Option Handle) (kvno : UInt32) (enctype : Int32) (entry : KeytabEntry)
    (rounds : Nat) (hrounds : buf.length < rounds) :
    (∀ size count pos, checkedItems buf size count pos = some (readItems buf size count pos)) ∧
      wp (kerberosGetEntry rounds krb5Context principal buf kvno enctype entry) fun tr o =>
        (∃ found, o = .ret found) ∧ ∀ ev ∈ tr, ev.1.Safe := by
  refine ⟨checkedItems_eq (Nat.lt_of_le_of_lt hsize (by decide)), ?_⟩
  have htotal : Total CtxCall.Safe (kerberosGetEntry rounds krb5Context principal buf kvno enctype
      entry) fun _ => True := by
    unfold kerberosGetEntry
    split
    · exact .ret trivial
    · exact (getEntryLoop_safe krb5Context principal hsize kvno enctype rounds _ _ _ (by omega)
        (by omega)).bind fun _ _ => .ret trivial
  exact wp_mono htotal.trace fun tr o ⟨⟨found, heq, _⟩, hsafe⟩ => ⟨⟨found, heq⟩, hsafe⟩

/-- A hole of one byte, the record, and the size of an entry that is not there. -/
def holeKeytab : Bytes := [5, 2, 255, 255, 255, 255, 0] ++ smallKeytab.drop 2 ++ [127, 255, 255, 255]

/-- The entry that is found in it. -/
def holeEntry : KeytabEntry :=
  match (kerberosGetEntry 38 none none holeKeytab 0 0 {}).eval granting with
  | .ret r => r.2
  | .halt _ => {}

/-- The search passes the hole, accepts the entry and stops at the size that leads outside. -/
theorem kerberosGetEntry_safe_sample : ∃ tr,
    Traces (kerberosGetEntry 38 none none holeKeytab 0 0 {}) tr
      (.ret (⟨0, ascii "GetEntry succeed"⟩, holeEntry)) ∧
    holeEntry.vno = 3 ∧ (∀ ev ∈ tr, ev.1.Safe) ∧
    ∀ size count pos,
      checkedItems holeKeytab size count pos = some (readItems holeKeytab size count pos) := by
  obtain ⟨hreads, hwp⟩ := @kerberosGetEntry_safe holeKeytab (by decide) none none 0 0 {} 38
    (by decide)
  have heval : (kerberosGetEntry 38 none none holeKeytab 0 0 {}).eval granting =
      .ret (⟨0, ascii "GetEntry succeed"⟩, holeEntry) := rfl
  have htr := traces_of_eval heval
  exact ⟨_, htr, rfl, (wp_iff.mp hwp _ _ htr).2, hreads⟩

end CdfCrypto.Kerberos
