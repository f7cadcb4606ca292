import CdfCrypto.Kerberos.Keytab

/-!
# The format of a keytab

A keytab is a version and a row of records with holes between them. An `Entry` is one that can
be written: its lengths fit the format. Its bytes and what is read from them are the two sides
of `readEntries_encode`: a row of records is read back in order, whatever holes there are, and
then the reader stops.

The reader is told of by what it gives where no allocation fails (`Gives`), one statement for
each field, from what stands at its cursor (`At`).
-/

namespace CdfCrypto.Kerberos

open Lib

/-! ## What is written -/

/-- A string that has a length to put before it. -/
def Counted (bytes : Bytes) : Prop := 1 ≤ bytes.length ∧ bytes.length ≤ 32767

instance (bytes : Bytes) : Decidable (Counted bytes) := inferInstanceAs (Decidable (_ ∧ _))

/-- An entry of a keytab. -/
structure Entry where
  realm : Bytes
  components : List Bytes
  nameType : Int32
  timestamp : Int32
  vno8 : UInt8
  enctype : Int16
  key : Bytes
  realm_counted : Counted realm
  components_pos : 1 ≤ components.length
  components_le : components.length ≤ 32767
  components_counted : ∀ component ∈ components, Counted component
  key_counted : Counted key

/-- What may follow an entry in its record: a kvno of 32 bits, and anything after it. -/
structure Trailer where
  vno32 : UInt32
  padding : Bytes

/-- A record, or a hole where one was. -/
inductive Item
  | record (e : Entry) (trailer : Option Trailer)
  | hole (bytes : Bytes) (hne : bytes ≠ [])

def be16 (n : Nat) : Bytes := BigEndian.toBytes 2 n
def be32 (n : Nat) : Bytes := BigEndian.toBytes 4 n

/-- A string with its length before it. -/
def counted (bytes : Bytes) : Bytes := be16 bytes.length ++ bytes

/-- The bytes of an entry. -/
def Entry.content (e : Entry) : Bytes :=
  be16 e.components.length ++ (counted e.realm ++ (e.components.flatMap counted ++
    (be32 e.nameType.toUInt32.toNat ++ (be32 e.timestamp.toUInt32.toNat ++ ([e.vno8] ++
      (be16 e.enctype.toUInt16.toNat ++ counted e.key))))))

/-- The bytes after an entry. -/
def trailing : Option Trailer → Bytes
  | none => []
  | some trailer => be32 trailer.vno32.toNat ++ trailer.padding

/-- The bytes of a record or a hole: its size, negative for a hole, and what is in it. -/
def Item.encode : Item → Bytes
  | record e trailer => be32 (e.content ++ trailing trailer).length ++
      (e.content ++ trailing trailer)
  | hole bytes _ => be32 (2 ^ 32 - bytes.length) ++ bytes

/-- A keytab, version and all. -/
def encodeKeytab (items : List Item) : Bytes := be16 0x0502 ++ items.flatMap Item.encode

/-! ## What is read -/

/-- The kvno of a record: the long one, where there is one that is not zero. -/
def Entry.kvno (e : Entry) : Option Trailer → UInt32
  | none => e.vno8.toUInt32
  | some trailer => if trailer.vno32 ≠ 0 then trailer.vno32 else e.vno8.toUInt32

/-- The records of a row, each with its kvno. -/
def records : List Item → List (Entry × UInt32)
  | [] => []
  | .record e trailer :: items => (e, e.kvno trailer) :: records items
  | .hole _ _ :: items => records items

/-- A principal as it was written. -/
structure Krb5Principal.Is (p : Krb5Principal) (e : Entry) : Prop where
  type : p.type = e.nameType
  length : p.length.toNat = e.components.length
  realm : p.realm.map Buffer.bytes = some e.realm
  data : p.data.map Buffer.bytes = e.components

/-- An entry as it was written, with a kvno. -/
structure KeytabEntry.Is (entry : KeytabEntry) (e : Entry) (kvno : UInt32) : Prop where
  principal : ∃ p, entry.principal = some p ∧ p.Is e
  timestamp : entry.timestamp = e.timestamp
  vno : entry.vno = kvno
  enctype : entry.enctype = e.enctype.toInt32
  key : entry.contents.map Buffer.bytes = some e.key

/-- The first record of a row, with what follows it. -/
def nextRecord : List Item → Option (Entry × Option Trailer × List Item)
  | [] => none
  | .record e trailer :: items => some (e, trailer, items)
  | .hole _ _ :: items => nextRecord items

theorem records_eq (items : List Item) : records items =
    match nextRecord items with
    | none => []
    | some (e, trailer, rest) => (e, e.kvno trailer) :: records rest := by
  induction items with
  | nil => rfl
  | cons item items ih =>
    cases item with
    | record e trailer => rfl
    | hole bytes hne => exact ih

/-- Successive calls of `KerberosReadEntry`, so many at most: the entries they have read, and
whether the last of them has read one. -/
def readEntries (buf : Bytes) : Nat → UInt32 → Kt (List KeytabEntry × Bool)
  | 0, _ => .ret ([], true)
  | calls + 1, keypos => do
    let entry ← kerberosReadEntry buf keypos
    if ¬ entry.1 then .ret ([], false)
    else do
      let rest ← readEntries buf calls entry.2.keypos
      .ret (entry.2.retEntry :: rest.1, rest.2)

/-! ## Where there is memory -/

/-- An environment in which no allocation fails. -/
def Allocating (_ : Unit) (ev : KtEvent) (_ : Unit) : Prop :=
  match ev with
  | ⟨.malloc _, allocated⟩ => allocated ≠ none
  | ⟨.free _, _⟩ => True
  | ⟨.errno, _⟩ => True

/-- There the program comes back, with a value that has the property. -/
def Gives {α : Type} (p : Kt α) (P : α → Prop) : Prop :=
  wpIn Allocating p () fun _ o _ => ∃ a, o = .ret a ∧ P a

section Gives

variable {α β : Type} {P : α → Prop} {Q : β → Prop}

theorem Gives.ret {a : α} (h : P a) : Gives (.ret a) P := ⟨a, rfl, h⟩

theorem Gives.bind {p : Kt α} {f : α → Kt β} (hp : Gives p P) (hf : ∀ a, P a → Gives (f a) Q) :
    Gives (p >>= f) Q := Yields.bind hp fun a _ ha => hf a ha

theorem Gives.mono {P' : α → Prop} {p : Kt α} (hp : Gives p P) (himp : ∀ a, P a → P' a) :
    Gives p P' := Yields.mono hp fun a _ ha => himp a ha

theorem Gives.malloc {size : Nat} {f : Option Nat → Kt β} (hf : ∀ addr, Gives (f (some addr)) Q) :
    Gives (.perform (KtCall.malloc size) >>= f) Q := by
  refine wpIn_perform_bind.mpr fun allocated w hallocated => ?_
  obtain ⟨addr, rfl⟩ := Option.ne_none_iff_exists'.mp hallocated
  exact hf addr

end Gives

/-! ## The cursor -/

/-- From the cursor on the buffer holds `rest`, and ends where 32 bits can point. -/
structure At (buf : Bytes) (keypos : UInt32) (rest : Bytes) : Prop where
  drop_eq : buf.drop keypos.toNat = rest
  length : keypos.toNat + rest.length = buf.length
  bound : buf.length < 2 ^ 31

variable {buf bytes rest : Bytes} {keypos : UInt32} {st : KtState}

/-- The cursor goes past what stands at it. -/
theorem At.advance (h : At buf keypos (bytes ++ rest)) :
    At buf (keypos + UInt32.ofNat bytes.length) rest := by
  have hlength := h.length
  have hbound := h.bound
  rw [List.length_append] at hlength
  have hpos : (keypos + UInt32.ofNat bytes.length).toNat = keypos.toNat + bytes.length := by
    rw [UInt32.toNat_add, UInt32.toNat_ofNat_of_lt' (show bytes.length < 2 ^ 32 by omega)]
    exact Nat.mod_eq_of_lt (by omega)
  refine ⟨?_, by omega, hbound⟩
  rw [hpos, ← List.drop_drop, h.drop_eq, List.drop_left]

theorem readItems_at {size : Nat} : ∀ (count : Nat) {keypos : UInt32} {bytes : Bytes},
    At buf keypos (bytes ++ rest) → bytes.length = count * size →
    readItems buf size count keypos = (some bytes, keypos + UInt32.ofNat bytes.length)
  | 0, keypos, bytes, _, hlen => by
    obtain rfl : bytes = [] := List.length_eq_zero_iff.mp (by omega)
    show (some [], keypos) = (some [], keypos + 0)
    rw [UInt32.add_zero]
  | count + 1, keypos, bytes, h, hlen => by
    rw [Nat.succ_mul] at hlen
    have hle : size ≤ bytes.length := by omega
    obtain ⟨item, items, rfl, hitem, -⟩ := exists_append_of_le hle
    rw [List.length_append] at hlen
    rw [List.append_assoc] at h
    have hlength := h.length
    simp only [List.length_append] at hlength
    have hitems : items.length = count * size := by omega
    have hrest := readItems_at count h.advance hitems
    have hpos : keypos + UInt32.ofNat (item ++ items).length =
        keypos + UInt32.ofNat item.length + UInt32.ofNat items.length := by
      rw [List.length_append, UInt32.ofNat_add, UInt32.add_assoc]
    subst hitem
    unfold readItems
    rw [if_neg (by omega), hrest, hpos, h.drop_eq, List.take_left]
    rfl

/-- **What stands at the cursor is read**, if it is as long as asked for. -/
theorem kerberosRead_at {size count : Nat} (h : At buf keypos (bytes ++ rest))
    (hlen : bytes.length = count * size) (hne : bytes ≠ []) :
    kerberosRead buf size count keypos = (some bytes, keypos + UInt32.ofNat bytes.length) := by
  unfold kerberosRead
  rw [readItems_at count h hlen]
  cases bytes with
  | nil => exact absurd rfl hne
  | cons b bytes => rfl

/-- At the end there is nothing to read. -/
theorem kerberosRead_end {size : Nat} (hsize : 0 < size) (h : At buf keypos []) :
    kerberosRead buf size 1 keypos = (none, keypos) := by
  have hlength := h.length
  rw [List.length_nil] at hlength
  unfold kerberosRead readItems
  rw [if_pos (by omega)]

theorem be16_length (n : Nat) : (be16 n).length = 2 := BigEndian.toBytes_length 2 n

theorem be32_length (n : Nat) : (be32 n).length = 4 := BigEndian.toBytes_length 4 n

theorem ntohs_be16 (n : Nat) : ntohs (be16 n) = UInt16.ofNat n := by
  unfold ntohs be16
  rw [BigEndian.ofBytes_toBytes]
  exact UInt16.ofNat_mod_size

theorem ntohl_be32 (n : Nat) : ntohl (be32 n) = UInt32.ofNat n := by
  unfold ntohl be32
  rw [BigEndian.ofBytes_toBytes]
  exact UInt32.ofNat_mod_size

variable {entry : KeytabEntry}

theorem readShort_at {n : Nat} (h : At buf keypos (be16 n ++ rest)) :
    readShort buf ⟨keypos, entry⟩ = (some (UInt16.ofNat n), ⟨keypos + 2, entry⟩) := by
  have hlen := be16_length n
  unfold readShort
  rw [kerberosRead_at h (by omega) (List.ne_nil_of_length_pos (by omega)), hlen]
  show (some (ntohs (be16 n)), _) = _
  rw [ntohs_be16]
  rfl

theorem kerberosRead_be32 {n : Nat} (h : At buf keypos (be32 n ++ rest)) :
    kerberosRead buf 4 1 keypos = (some (be32 n), keypos + 4) := by
  have hlen := be32_length n
  rw [kerberosRead_at h (by omega) (List.ne_nil_of_length_pos (by omega)), hlen]
  rfl

theorem readLong_at {n : Nat} (h : At buf keypos (be32 n ++ rest)) :
    readLong buf ⟨keypos, entry⟩ = (some (UInt32.ofNat n), ⟨keypos + 4, entry⟩) := by
  unfold readLong
  rw [kerberosRead_be32 h]
  show (some (ntohl (be32 n)), _) = _
  rw [ntohl_be32]

theorem readOctet_at {b : UInt8} (h : At buf keypos ([b] ++ rest)) :
    readOctet buf ⟨keypos, entry⟩ = (some b, ⟨keypos + 1, entry⟩) := by
  unfold readOctet
  rw [kerberosRead_at h rfl (List.cons_ne_nil _ _)]
  rfl

theorem At.short {n : Nat} (h : At buf keypos (be16 n ++ rest)) : At buf (keypos + 2) rest := by
  have hadvance := h.advance
  rwa [be16_length] at hadvance

theorem At.long {n : Nat} (h : At buf keypos (be32 n ++ rest)) : At buf (keypos + 4) rest := by
  have hadvance := h.advance
  rwa [be32_length] at hadvance

/-! ## The fields -/

/-- A length that is taken for one. -/
theorem length_accepted {n : Nat} (hpos : 1 ≤ n) (hle : n ≤ 32767) :
    (UInt16.ofNat n).toNat = n ∧ ¬ (UInt16.ofNat n).toInt16 ≤ 0 := by
  refine ⟨UInt16.toNat_ofNat_of_lt' (show n < 2 ^ 16 by omega), fun h => ?_⟩
  rw [UInt16.toInt16_ofNat', Int16.le_iff_toInt_le, Int16.toInt_ofNat_of_lt (by omega)] at h
  have hzero : (0 : Int16).toInt = 0 := rfl
  omega

theorem Counted.ne_nil (h : Counted bytes) : bytes ≠ [] := List.ne_nil_of_length_pos h.1

/-- What a reader gives: the value, and the cursor past it. -/
def Past {α : Type} (buf rest : Bytes) (st : KtState) (value : α → Prop) (r : Option α × KtState) :
    Prop := ∃ a keypos, r = (some a, { st with keypos }) ∧ value a ∧ At buf keypos rest

theorem readCounted_gives (h : At buf st.keypos (counted bytes ++ rest)) (hcounted : Counted bytes) :
    Gives (readCounted buf st) (Past buf rest st fun buffer => buffer.bytes = bytes) := by
  obtain ⟨hlen, haccepted⟩ := length_accepted hcounted.1 hcounted.2
  unfold counted at h
  rw [List.append_assoc] at h
  have hstring := h.short
  unfold readCounted
  rw [readShort_at h]
  dsimp only
  rw [if_neg haccepted, hlen]
  refine Gives.malloc fun addr => ?_
  dsimp only
  rw [kerberosRead_at hstring (by omega) hcounted.ne_nil]
  exact Gives.ret ⟨_, _, rfl, rfl, hstring.advance⟩

theorem realm_gives {principal : Krb5Principal} (h : At buf st.keypos (counted bytes ++ rest))
    (hcounted : Counted bytes) :
    Gives (kerberosReadEntryPrincipalRealm buf principal st) fun r => ∃ realm keypos,
      r = (true, { principal with realm := some realm }, { st with keypos }) ∧
        realm.bytes = bytes ∧ At buf keypos rest := by
  refine (readCounted_gives h hcounted).bind fun r hr => ?_
  obtain ⟨realm, keypos, rfl, hbytes, hat⟩ := hr
  exact Gives.ret ⟨realm, keypos, rfl, hbytes, hat⟩

/-- The components are read one after the other, behind those there are. -/
theorem components_give : ∀ {components : List Bytes} {principal : Krb5Principal} {st : KtState},
    (∀ component ∈ components, Counted component) →
    At buf st.keypos (components.flatMap counted ++ rest) →
    Gives (readComponents buf components.length principal st) fun r => ∃ data keypos,
      r = (true, { principal with data := principal.data ++ data }, { st with keypos }) ∧
        data.map Buffer.bytes = components ∧ At buf keypos rest
  | [], principal, st, _, h => by
    refine Gives.ret ⟨[], st.keypos, ?_, rfl, h⟩
    rw [List.append_nil]
  | component :: components, principal, st, hcounted, h => by
    obtain ⟨hfirst, hothers⟩ := List.forall_mem_cons.mp hcounted
    rw [List.flatMap_cons, List.append_assoc] at h
    have hread : Gives (kerberosReadEntryPrincipalData buf principal st) fun r => ∃ data keypos,
        r = (true, { principal with data := principal.data ++ [data] }, { st with keypos }) ∧
          data.bytes = component ∧ At buf keypos (components.flatMap counted ++ rest) := by
      refine (readCounted_gives h hfirst).bind fun r hr => ?_
      obtain ⟨data, keypos, rfl, hbytes, hat⟩ := hr
      exact Gives.ret ⟨data, keypos, rfl, hbytes, hat⟩
    refine hread.bind fun r hr => ?_
    obtain ⟨data, keypos, rfl, hbytes, hat⟩ := hr
    dsimp only
    rw [if_neg (by decide)]
    refine (components_give hothers hat).mono fun r hr => ?_
    obtain ⟨others, keypos', rfl, hothersBytes, hat'⟩ := hr
    refine ⟨data :: others, keypos', ?_, ?_, hat'⟩
    · rw [List.append_assoc]
      rfl
    · rw [List.map_cons, hbytes, hothersBytes]

theorem principal_gives {e : Entry} (h : At buf st.keypos (be16 e.components.length ++
      (counted e.realm ++ (e.components.flatMap counted ++
        (be32 e.nameType.toUInt32.toNat ++ rest))))) :
    Gives (kerberosReadEntryPrincipal buf st) fun r => ∃ p keypos,
      r = (true, KtState.setPrincipal { st with keypos } p) ∧ p.Is e ∧ At buf keypos rest := by
  obtain ⟨hlen, haccepted⟩ := length_accepted e.components_pos e.components_le
  unfold kerberosReadEntryPrincipal
  rw [readShort_at h]
  dsimp only
  rw [if_neg haccepted]
  refine Gives.malloc fun addr => Gives.malloc fun dataAddr => ?_
  refine (realm_gives h.short e.realm_counted).bind fun r hr => ?_
  obtain ⟨realm, keypos₁, rfl, hrealm, hat₁⟩ := hr
  dsimp only
  rw [if_neg (by decide), hlen]
  refine (components_give e.components_counted hat₁).bind fun r hr => ?_
  obtain ⟨data, keypos₂, rfl, hdata, hat₂⟩ := hr
  dsimp only
  rw [if_neg (by decide), readLong_at hat₂]
  refine Gives.ret ⟨_, _, rfl, ⟨?_, hlen, ?_, hdata⟩, hat₂.long⟩
  · show (UInt32.ofNat e.nameType.toUInt32.toNat).toInt32 = e.nameType
    rw [UInt32.ofNat_toNat]
    rfl
  · exact congrArg some hrealm

theorem tsvno_gives {e : Entry}
    (h : At buf st.keypos (be32 e.timestamp.toUInt32.toNat ++ ([e.vno8] ++ rest))) :
    ∃ keypos, kerberosReadEntryTSVNo buf st = (true, { keypos, retEntry :=
      { st.retEntry with timestamp := e.timestamp, vno := e.vno8.toUInt32 } }) ∧
        At buf keypos rest := by
  have hvno := h.long
  refine ⟨_, ?_, hvno.advance⟩
  unfold kerberosReadEntryTSVNo
  rw [readLong_at h]
  dsimp only
  rw [readOctet_at hvno, UInt32.ofNat_toNat]
  rfl

theorem key_gives {e : Entry}
    (h : At buf st.keypos (be16 e.enctype.toUInt16.toNat ++ (counted e.key ++ rest))) :
    Gives (kerberosReadEntryKey buf st) fun r => ∃ contents keypos,
      r = (true, { keypos, retEntry :=
        { st.retEntry with enctype := e.enctype.toInt32, contents := some contents } }) ∧
        contents.bytes = e.key ∧ At buf keypos rest := by
  obtain ⟨hlen, haccepted⟩ := length_accepted e.key_counted.1 e.key_counted.2
  have hcount := h.short
  unfold counted at hcount
  rw [List.append_assoc] at hcount
  have hkey := hcount.short
  unfold kerberosReadEntryKey
  rw [readShort_at h]
  dsimp only
  rw [readShort_at hcount]
  dsimp only
  rw [if_neg haccepted, hlen]
  refine Gives.malloc fun addr => ?_
  dsimp only
  rw [kerberosRead_at hkey (by omega) e.key_counted.ne_nil, UInt16.ofNat_toNat]
  exact Gives.ret ⟨_, _, rfl, rfl, hkey.advance⟩

theorem content_gives {e : Entry} (h : At buf keypos (e.content ++ rest)) :
    Gives (kerberosReadEntryContent buf { keypos }) fun r => ∃ entry keypos,
      r = (true, ⟨keypos, entry⟩) ∧ entry.Is e e.vno8.toUInt32 ∧ At buf keypos rest := by
  simp only [Entry.content, List.append_assoc] at h
  refine (principal_gives h).bind fun r hr => ?_
  obtain ⟨p, keypos₁, rfl, hp, hat₁⟩ := hr
  dsimp only
  have hprincipal : At buf (KtState.setPrincipal { keypos := keypos₁ } p).keypos _ := hat₁
  obtain ⟨keypos₂, htsvno, hat₂⟩ := tsvno_gives hprincipal
  rw [if_neg (not_not.mpr rfl), htsvno, if_neg (not_not.mpr rfl)]
  refine (key_gives hat₂).mono fun r hr => ?_
  obtain ⟨contents, keypos₃, rfl, hkey, hat₃⟩ := hr
  exact ⟨_, keypos₃, rfl, ⟨⟨p, rfl, hp⟩, rfl, rfl, rfl, congrArg some hkey⟩, hat₃⟩

/-! ## The size of a record -/

theorem record_size {n : Nat} (hlt : n < 2 ^ 31) : (UInt32.ofNat n).toInt32.toInt = n := by
  show (Int32.ofNat n).toInt = n
  exact Int32.toInt_ofNat_of_lt hlt

/-- The size of what is not empty is positive. -/
theorem record_size_pos {n : Nat} (hpos : 0 < n) (hlt : n < 2 ^ 31) :
    ¬ (UInt32.ofNat n).toInt32 ≤ 0 ∧ (UInt32.ofNat n).toInt32 ≠ 0 := by
  have hnotLe : ¬ (UInt32.ofNat n).toInt32 ≤ 0 := by
    rw [Int32.le_iff_toInt_le, record_size hlt]
    show ¬ (n : Int) ≤ 0
    omega
  refine ⟨hnotLe, fun hzero => ?_⟩
  rw [hzero] at hnotLe
  exact hnotLe (by decide)

/-- The size of a hole is negative, and its length is found again. -/
theorem hole_size {n : Nat} (hpos : 1 ≤ n) (hlt : n < 2 ^ 31) :
    (UInt32.ofNat (2 ^ 32 - n)).toInt32 < 0 ∧
      (UInt32.ofNat (2 ^ 32 - n)).toInt32 ≠ Int32.minValue ∧
      (-(UInt32.ofNat (2 ^ 32 - n)).toInt32).toUInt32 = UInt32.ofNat n := by
  have hnat : (UInt32.ofNat (2 ^ 32 - n)).toNat = 2 ^ 32 - n :=
    UInt32.toNat_ofNat_of_lt' (show 2 ^ 32 - n < 2 ^ 32 by omega)
  have hint : (UInt32.ofNat (2 ^ 32 - n)).toInt32.toInt = -n := by
    show (UInt32.ofNat (2 ^ 32 - n)).toBitVec.toInt = -n
    rw [BitVec.toInt_eq_toNat_cond, UInt32.toNat_toBitVec, hnat]
    omega
  refine ⟨?_, fun h => ?_, ?_⟩
  · rw [Int32.lt_iff_toInt_lt, hint]
    show -(n : Int) < 0
    omega
  · rw [h] at hint
    have hmin : Int32.minValue.toInt = -2 ^ 31 := rfl
    omega
  · show -(UInt32.ofNat (2 ^ 32 - n)).toInt32.toUInt32 = _
    rw [UInt32.toUInt32_toInt32, ← UInt32.toNat_inj, UInt32.toNat_neg, hnat,
      UInt32.toNat_ofNat_of_lt' (show n < 2 ^ 32 by omega)]
    show (2 ^ 32 - (2 ^ 32 - n)) % 2 ^ 32 = n
    omega

/-- What the loop over the holes comes to. -/
def SizeRead (buf : Bytes) (items : List Item) (r : Int32 × Int32 × UInt32) : Prop :=
  match nextRecord items with
  | none => r.1 = 1
  | some (e, trailer, rest) => ∃ keypos,
      r = (0, (UInt32.ofNat (e.content ++ trailing trailer).length).toInt32, keypos) ∧
        At buf keypos (e.content ++ trailing trailer ++ rest.flatMap Item.encode)

/-- **The holes are passed over**, in as many rounds as there are, and one more. -/
theorem readEntrySizeLoop_gives : ∀ (items : List Item) {rounds : Nat} {keypos : UInt32}
    {size : Int32}, items.length < rounds → At buf keypos (items.flatMap Item.encode) →
    Gives (readEntrySizeLoop buf rounds keypos size) (SizeRead buf items)
  | items, 0, _, _, hrounds, _ => absurd hrounds (Nat.not_lt_zero _)
  | [], rounds + 1, keypos, size, _, h => by
    unfold readEntrySizeLoop
    rw [kerberosRead_end (by decide) h]
    exact Gives.ret rfl
  | .record e trailer :: items, rounds + 1, keypos, size, _, h => by
    rw [List.flatMap_cons, Item.encode, List.append_assoc] at h
    have hbody := h.long
    have hlength := hbody.length
    have hbound := hbody.bound
    rw [List.length_append] at hlength
    have hsize : ¬ (UInt32.ofNat (e.content ++ trailing trailer).length).toInt32 < 0 := by
      rw [Int32.lt_iff_toInt_lt, record_size (by omega)]
      show ¬ ((e.content ++ trailing trailer).length : Int) < 0
      omega
    unfold readEntrySizeLoop
    rw [kerberosRead_be32 h]
    dsimp only
    rw [ntohl_be32, if_neg hsize]
    exact Gives.ret ⟨_, rfl, hbody⟩
  | .hole bytes hne :: items, rounds + 1, keypos, size, hrounds, h => by
    rw [List.flatMap_cons, Item.encode, List.append_assoc] at h
    have hbody := h.long
    have hnext := hbody.advance
    have hlength := hbody.length
    have hbound := hbody.bound
    have hend := hnext.length
    rw [List.length_append] at hlength
    obtain ⟨hnegative, hmin, hskip⟩ := hole_size (List.length_pos_iff.mpr hne) (by omega)
    unfold readEntrySizeLoop
    rw [kerberosRead_be32 h]
    dsimp only
    rw [ntohl_be32, if_pos hnegative, if_neg hmin, hskip, if_neg (by omega)]
    exact readEntrySizeLoop_gives items (Nat.lt_of_succ_lt_succ hrounds) hnext

/-! ## A record -/

/-- The kvno of a record, and where the cursor comes to. -/
theorem readVno32_at {e : Entry} {trailer : Option Trailer} {startPos : UInt32}
    (hvno : entry.vno = e.vno8.toUInt32) (hstart : At buf startPos (e.content ++ trailing trailer ++
      rest)) (h : At buf keypos (trailing trailer ++ rest)) :
    ∃ keypos', readVno32 buf startPos
        (UInt32.ofNat (e.content ++ trailing trailer).length).toInt32 ⟨keypos, entry⟩ =
      (true, ⟨keypos', { entry with vno := e.kvno trailer }⟩) ∧
        ¬ startPos + UInt32.ofNat (e.content ++ trailing trailer).length < keypos' := by
  have hnext := hstart.advance
  have hlength := h.length
  have hend := hnext.length
  rw [List.length_append] at hlength
  have hsum : (UInt32.ofNat (e.content ++ trailing trailer).length + startPos).toNat + rest.length =
      buf.length := by rwa [UInt32.add_comm]
  unfold readVno32
  rw [UInt32.toUInt32_toInt32]
  cases trailer with
  | none =>
    have hnone : (trailing none).length = 0 := rfl
    rw [if_neg (by dsimp only; omega)]
    refine ⟨keypos, ?_, ?_⟩
    · show _ = (true, (⟨keypos, { entry with vno := e.vno8.toUInt32 }⟩ : KtState))
      rw [← hvno]
    · rw [UInt32.lt_iff_toNat_lt]
      omega
  | some trailer =>
    have htrailer : (trailing (some trailer)).length = 4 + trailer.padding.length := by
      unfold trailing
      rw [List.length_append, be32_length]
    unfold trailing at h
    rw [List.append_assoc] at h
    have hpadding := h.long.length
    rw [List.length_append] at hpadding
    rw [if_pos (by dsimp only; omega), readLong_at h]
    dsimp only
    rw [UInt32.ofNat_toNat]
    refine ⟨keypos + 4, ?_, ?_⟩
    · unfold Entry.kvno
      dsimp only
      split
      · rfl
      · rw [← hvno]
    · rw [UInt32.lt_iff_toNat_lt]
      omega

/-- What one call of `KerberosReadEntry` comes to. -/
def EntryRead (buf : Bytes) (items : List Item) (r : Bool × KtState) : Prop :=
  match nextRecord items with
  | none => r.1 = false
  | some (e, trailer, rest) => ∃ entry keypos, r = (true, ⟨keypos, entry⟩) ∧
      entry.Is e (e.kvno trailer) ∧ At buf keypos (rest.flatMap Item.encode)

theorem Entry.content_length_pos (e : Entry) : 0 < e.content.length := by
  unfold Entry.content
  rw [List.length_append, be16_length]
  omega

theorem Item.encode_length_pos (item : Item) : 1 ≤ item.encode.length := by
  cases item with
  | record e trailer =>
    unfold Item.encode
    rw [List.length_append, be32_length]
    omega
  | hole bytes hne =>
    unfold Item.encode
    rw [List.length_append, be32_length]
    omega

/-- There are no more records and holes than bytes. -/
theorem length_le_encode (items : List Item) : items.length ≤ (items.flatMap Item.encode).length := by
  induction items with
  | nil => exact Nat.le_refl 0
  | cons item items ih =>
    have hpos := item.encode_length_pos
    rw [List.flatMap_cons, List.length_append, List.length_cons]
    omega

/-- **One call** reads the next record, or finds none. -/
theorem kerberosReadEntry_gives {items : List Item} (h : At buf keypos (items.flatMap Item.encode)) :
    Gives (kerberosReadEntry buf keypos) (EntryRead buf items) := by
  have hitems := length_le_encode items
  have hlength := h.length
  unfold kerberosReadEntry kerberosReadEntrySize
  refine (readEntrySizeLoop_gives items (by omega) h).bind fun r hr => ?_
  unfold SizeRead at hr
  unfold EntryRead
  cases hnext : nextRecord items with
  | none =>
    rw [hnext] at hr
    obtain ⟨error, size, keypos₁⟩ := r
    obtain rfl : error = 1 := hr
    dsimp only
    rw [if_pos (.inl (by decide))]
    exact Gives.ret rfl
  | some next =>
    obtain ⟨e, trailer, rest⟩ := next
    rw [hnext] at hr
    obtain ⟨keypos₁, rfl, hat⟩ := hr
    have hbody := hat
    rw [List.append_assoc] at hbody
    have hbound := hat.bound
    have hlen := hat.length
    rw [List.length_append] at hlen
    have hpos : 0 < (e.content ++ trailing trailer).length := by
      rw [List.length_append]
      exact Nat.lt_of_lt_of_le e.content_length_pos (Nat.le_add_right _ _)
    obtain ⟨hnotLe, hnotZero⟩ := record_size_pos hpos (by omega)
    dsimp only
    rw [if_neg (not_or.mpr ⟨not_not.mpr rfl, hnotLe⟩)]
    refine (content_gives hbody).bind fun r hr => ?_
    obtain ⟨entry, keypos₂, rfl, hentry, hat₂⟩ := hr
    obtain ⟨keypos₃, hvno, hpast⟩ := readVno32_at hentry.vno hat hat₂
    dsimp only
    rw [if_neg (not_or.mpr ⟨not_not.mpr rfl, hnotZero⟩), hvno]
    dsimp only
    rw [if_neg (not_not.mpr rfl), UInt32.toUInt32_toInt32, if_neg hpast]
    exact Gives.ret ⟨_, _, rfl, { hentry with vno := rfl }, hat.advance⟩

/-! ## A keytab -/

/-- The calls read the records in order, and the one after the last finds none. -/
theorem readEntries_gives : ∀ {items : List Item} {calls : Nat} {keypos : UInt32},
    (records items).length < calls → At buf keypos (items.flatMap Item.encode) →
    Gives (readEntries buf calls keypos) fun r => r.2 = false ∧
      List.Forall₂ (fun entry x => entry.Is x.1 x.2) r.1 (records items)
  | items, 0, _, hcalls, _ => absurd hcalls (Nat.not_lt_zero _)
  | items, calls + 1, keypos, hcalls, h => by
    have heq := records_eq items
    refine (kerberosReadEntry_gives h).bind fun r hr => ?_
    unfold EntryRead at hr
    cases hnext : nextRecord items with
    | none =>
      rw [hnext] at hr heq
      rw [if_pos (by rw [hr]; decide), heq]
      exact Gives.ret ⟨rfl, .nil⟩
    | some next =>
      obtain ⟨e, trailer, rest⟩ := next
      rw [hnext] at hr heq
      obtain ⟨entry, keypos₁, rfl, hentry, hat⟩ := hr
      rw [if_neg (not_not.mpr rfl)]
      rw [heq, List.length_cons] at hcalls
      refine (readEntries_gives (Nat.lt_of_succ_lt_succ hcalls) hat).bind fun r hr => ?_
      obtain ⟨hlast, hrest⟩ := hr
      rw [heq]
      exact Gives.ret ⟨hlast, .cons hentry hrest⟩

/-- **Decoding undoes encoding.** Where no allocation fails, the calls after the version read the
records that were written, each with its kvno, in order and past all holes, and then fail. -/
theorem readEntries_encode (items : List Item) (hsize : (encodeKeytab items).length ≤ maxFileSize)
    (calls : Nat) (hcalls : (records items).length < calls) {tr : List KtEvent}
    {o : Outcome KtFault (List KeytabEntry × Bool)} {w : Unit}
    (h : Exec Allocating (readEntries (encodeKeytab items) calls 2) () tr o w) :
    ∃ entries, o = .ret (entries, false) ∧
      List.Forall₂ (fun entry x => entry.Is x.1 x.2) entries (records items) := by
  have hstart : At (encodeKeytab items) 0 (be16 0x0502 ++ items.flatMap Item.encode) :=
    ⟨rfl, Nat.zero_add _, Nat.lt_of_le_of_lt hsize (by decide)⟩
  have hat : At (encodeKeytab items) 2 (items.flatMap Item.encode) := hstart.short
  obtain ⟨⟨entries, last⟩, rfl, hlast, hentries⟩ :=
    wpIn_iff.mp (readEntries_gives hcalls hat) tr o w h
  obtain rfl : last = false := hlast
  exact ⟨entries, rfl, hentries⟩

/-- An environment with memory at one address. -/
def plenty : (call : KtCall) → call.Reply
  | .malloc _ => some 0
  | .free _ => ()
  | .errno => 0

theorem exec_plenty {α : Type} (p : Kt α) :
    Exec Allocating p () (p.runWith plenty).1 (p.eval plenty) () := by
  refine exec_runWith (fun call => ?_) p
  cases call with
  | malloc size => exact Option.some_ne_none 0
  | free addr => trivial
  | errno => trivial

/-- One entry with a long kvno and padding after it, and one without, about a hole. -/
def sampleEntry : Entry where
  realm := [82]
  components := [[97], [98, 99]]
  nameType := 1
  timestamp := -1
  vno8 := 3
  enctype := -18
  key := [0, 255]
  realm_counted := by decide
  components_pos := by decide
  components_le := by decide
  components_counted := by decide
  key_counted := by decide

def sampleItems : List Item :=
  [.record sampleEntry (some ⟨259, [7]⟩), .hole [0, 0, 0, 9, 1] (by decide),
    .record sampleEntry none]

theorem readEntries_encode_sample : ∃ entries,
    (readEntries (encodeKeytab sampleItems) 3 2).eval plenty = .ret (entries, false) ∧
      List.Forall₂ (fun entry x => entry.Is x.1 x.2) entries [(sampleEntry, 259), (sampleEntry, 3)] :=
  readEntries_encode sampleItems (by decide) 3 (by decide) (exec_plenty _)

end CdfCrypto.Kerberos
