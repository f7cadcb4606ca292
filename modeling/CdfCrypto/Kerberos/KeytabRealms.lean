import CdfCrypto.Kerberos.KeytabScan

/-!
# Which keytabs lose a realm

The realm of an entry that is given up stays allocated. Whether there is one is a matter of the
bytes of the keytab and of the answers of `malloc`: the search goes from hole to hole and from
record to record, and ends at the first place where it finds none, or none that is whole. So no
realm is lost if no record begins there, or if it comes to an end before its realm
(`KeepsRealms`), and a realm is lost if it comes to an end after it (`kerberosGetEntry_realms`). An
operation of a context reads at most one keytab, once its name has been resolved (`Spares`).
-/

namespace CdfCrypto.Kerberos

open Lib

/-! ## Keytabs -/

section Keytabs

variable (buf : Bytes)

/-- A record comes to an end before its realm: the realm is not there, or the memory of the
principal, of its components or of the realm is not. -/
def EndsEarly (startPos : UInt32) (granted : List Bool) : Prop :=
  pastRealm buf startPos = none ∨ false ∈ granted.take 3

/-- **No realm is lost** by a search of the keytab from a place on, with these answers of
`malloc`. A record that is whole asks for memory once for each component, and four times more. -/
inductive KeepsRealms : UInt32 → List Bool → Prop
  | ended {pos : UInt32} {granted : List Bool}
      (h : ∀ size startPos, sizeAt buf pos = some (size, startPos) →
        ¬ 0 < size ∧ ¬ IsHole buf size startPos) : KeepsRealms pos granted
  | hole {pos startPos : UInt32} {size : Int32} {granted : List Bool}
      (hsize : sizeAt buf pos = some (size, startPos)) (hhole : IsHole buf size startPos)
      (hrest : KeepsRealms (startPos + (-size).toUInt32) granted) : KeepsRealms pos granted
  | early {pos startPos : UInt32} {size : Int32} {granted : List Bool}
      (hsize : sizeAt buf pos = some (size, startPos)) (hpos : 0 < size)
      (hearly : EndsEarly buf startPos granted) : KeepsRealms pos granted
  | whole {pos startPos : UInt32} {size : Int32} {count : Nat} {granted : List Bool}
      (hsize : sizeAt buf pos = some (size, startPos)) (hpos : 0 < size)
      (hwhole : wholeRecord buf startPos size = some count)
      (hrest : KeepsRealms (startPos + size.toUInt32) granted) :
      KeepsRealms pos (List.replicate (count + 4) true ++ granted)

end Keytabs

variable {buf : Bytes} {pos startPos : UInt32} {size : Int32} {granted : List Bool}

/-- Of a record that has been begun: it ends early, or is whole and none is lost after it. -/
def KeepsRecord (buf : Bytes) (startPos : UInt32) (size : Int32) (granted : List Bool) : Prop :=
  EndsEarly buf startPos granted ∨ ∃ count rest, wholeRecord buf startPos size = some count ∧
    granted = List.replicate (count + 4) true ++ rest ∧
      KeepsRealms buf (startPos + size.toUInt32) rest

theorem keepsRealms_record (hsize : sizeAt buf pos = some (size, startPos)) (hpos : 0 < size) :
    KeepsRealms buf pos granted ↔ KeepsRecord buf startPos size granted := by
  constructor
  · intro h
    cases h with
    | ended h => exact absurd hpos (h _ _ hsize).1
    | hole hsize' hhole _ =>
      obtain ⟨rfl, rfl⟩ := Prod.mk.inj (Option.some.inj (hsize.symm.trans hsize'))
      exact absurd hpos (Int32.not_lt.mpr (Int32.le_of_lt hhole.1))
    | early hsize' _ hearly =>
      obtain ⟨rfl, rfl⟩ := Prod.mk.inj (Option.some.inj (hsize.symm.trans hsize'))
      exact .inl hearly
    | whole hsize' _ hwhole hrest =>
      obtain ⟨rfl, rfl⟩ := Prod.mk.inj (Option.some.inj (hsize.symm.trans hsize'))
      exact .inr ⟨_, _, hwhole, rfl, hrest⟩
  · rintro (hearly | ⟨count, rest, hwhole, rfl, hrest⟩)
    · exact .early hsize hpos hearly
    · exact .whole hsize hpos hwhole hrest

theorem keepsRealms_hole (hsize : sizeAt buf pos = some (size, startPos))
    (hhole : IsHole buf size startPos) :
    KeepsRealms buf pos granted ↔ KeepsRealms buf (startPos + (-size).toUInt32) granted := by
  have hneg := Int32.not_lt.mpr (Int32.le_of_lt hhole.1)
  constructor
  · intro h
    cases h with
    | ended h => exact absurd hhole (h _ _ hsize).2
    | hole hsize' _ hrest =>
      obtain ⟨rfl, rfl⟩ := Prod.mk.inj (Option.some.inj (hsize.symm.trans hsize'))
      exact hrest
    | early hsize' hpos _ =>
      obtain ⟨rfl, rfl⟩ := Prod.mk.inj (Option.some.inj (hsize.symm.trans hsize'))
      exact absurd hpos hneg
    | whole hsize' hpos _ _ =>
      obtain ⟨rfl, rfl⟩ := Prod.mk.inj (Option.some.inj (hsize.symm.trans hsize'))
      exact absurd hpos hneg
  · exact fun h => .hole hsize hhole h

/-! ## The realm -/

/-- There is no realm in an entry. -/
def KeytabEntry.NoRealm (entry : KeytabEntry) : Prop :=
  ∀ p, entry.principal = some p → p.realm = none

/-- An entry has a realm unless it has ended early, whatever memory is asked for later. -/
def RealmRead (buf : Bytes) (pos : UInt32) (granted : List Bool) (r : Bool × KtState) : Prop :=
  ∀ more, r.2.retEntry.NoRealm ↔ EndsEarly buf pos (granted ++ more)

theorem realmRead_none {r : Bool × KtState} (hnone : r.2.retEntry.NoRealm)
    (hthere : pastRealm buf pos = none) : RealmRead buf pos granted r :=
  fun _ => ⟨fun _ => .inl hthere, fun _ => hnone⟩

/-- Memory has been refused. -/
theorem realmRead_refused {r : Bool × KtState} (hnone : r.2.retEntry.NoRealm)
    (hrefused : false ∈ granted.take 3) : RealmRead buf pos granted r := by
  refine fun more => ⟨fun _ => .inr ?_, fun _ => hnone⟩
  rw [List.take_append]
  exact List.mem_append_left _ hrefused

theorem realmRead_some {r : Bool × KtState} {p : Krb5Principal} {rest : List Bool}
    (hprincipal : r.2.retEntry.principal = some p) (hrealm : p.realm ≠ none)
    (hthere : pastRealm buf pos ≠ none) :
    RealmRead buf pos (true :: true :: true :: rest) r := by
  refine fun more => ⟨fun hnone => absurd (hnone p hprincipal) hrealm, fun hearly => ?_⟩
  rcases hearly with hnothing | hrefused
  · exact absurd hnothing hthere
  · simp at hrefused

/-- The components leave the realm. -/
theorem readComponents_realm (buf : Bytes) : ∀ (count : Nat) (p : Krb5Principal) (st : KtState),
    Bounded (fun _ => True) (readComponents buf count p st) fun r => r.2.1.realm = p.realm
  | 0, p, st => .ret rfl
  | count + 1, p, st => by
    have hcounted : Bounded (fun _ => True) (readCounted buf st) fun _ => True :=
      Calls.bounded (calls_any _)
    have hcomponent : Bounded (fun _ => True) (kerberosReadEntryPrincipalData buf p st) fun r =>
        r.2.1.realm = p.realm := by
      refine hcounted.bind fun r _ => ?_
      rcases r with ⟨_ | data, st₁⟩
      · exact .ret rfl
      · exact .ret rfl
    unfold readComponents
    refine hcomponent.bind fun component hrealm => ?_
    split
    · exact .ret hrealm
    · rw [← hrealm]
      exact readComponents_realm buf count _ _

/-- The realm is set where it has been read, and nothing is where it has not. -/
theorem realm_set (buf : Bytes) (p : Krb5Principal) (st : KtState) :
    Bounded (fun _ => True) (kerberosReadEntryPrincipalRealm buf p st) fun r =>
      if r.1 then r.2.1.realm ≠ none else r.2.1 = p := by
  refine (calls_any (readCounted buf st)).bounded.bind fun r _ => ?_
  rcases r with ⟨_ | realm, st₁⟩
  · exact .ret rfl
  · exact .ret (Option.some_ne_none realm)

/-- What is read after the realm leaves it. -/
theorem afterRealm_read {rest : Kt (Bool × KtState)}
    (hthere : pastRealm buf pos ≠ none) (hrest : Bounded (fun _ => True) rest fun r =>
      ∃ p, r.2.retEntry.principal = some p ∧ p.realm ≠ none) :
    wp rest fun tr o => ∀ r, o = .ret r →
      RealmRead buf pos (true :: true :: true :: tr.filterMap ktGranted) r := by
  refine wp_mono hrest.trace fun tr o ho r heq => ?_
  obtain ⟨p, hprincipal, hrealm⟩ := ho.2 r heq
  exact realmRead_some hprincipal hrealm hthere

theorem noRealm_of_none {st : KtState} (h : st.retEntry.principal = none) :
    st.retEntry.NoRealm := by
  intro p hp
  rw [h] at hp
  cases hp

theorem noRealm_setPrincipal {st : KtState} {p : Krb5Principal} (h : p.realm = none) :
    (st.setPrincipal p).retEntry.NoRealm := by
  intro p' hp
  obtain rfl := Option.some.inj hp
  exact h

theorem kerberosReadEntryPrincipal_realm (buf : Bytes) (st : KtState)
    (hst : st.retEntry.principal = none) : wp (kerberosReadEntryPrincipal buf st) fun tr o =>
      ∀ r, o = .ret r → RealmRead buf st.keypos (tr.filterMap ktGranted) r := by
  have hnone := noRealm_of_none hst
  unfold kerberosReadEntryPrincipal readShort
  rcases hshort : kerberosRead buf 2 1 st.keypos with ⟨_ | bytes, keypos⟩
  · rintro r ⟨⟩
    refine realmRead_none hnone ?_
    unfold pastRealm
    rw [countAt_none hshort]
    rfl
  dsimp only [Option.map_some]
  have hrealm : pastRealm buf st.keypos =
      if (ntohs bytes).toInt16 ≤ 0 then none else pastCounted buf keypos := by
    unfold pastRealm
    rw [countAt_some hshort]
    split <;> rfl
  split
  next hpositive =>
    rintro r ⟨⟩
    exact realmRead_none hnone (hrealm.trans (if_pos hpositive))
  next hpositive =>
  rw [if_neg hpositive] at hrealm
  refine wp_perform_bind.mpr fun allocated => ?_
  cases allocated with
  | none =>
    rintro r ⟨⟩
    exact realmRead_refused hnone (List.mem_singleton_self _)
  | some addr =>
  refine wp_perform_bind.mpr fun allocated => ?_
  cases allocated with
  | none =>
    rintro r ⟨⟩
    exact realmRead_refused (noRealm_setPrincipal rfl) (by simp [ktGranted])
  | some dataAddr =>
  refine wp_bind_of (wp_and (realm_covers buf _ _) (realm_set buf _ _).trace)
    (fun tr realm hread => ?_) fun tr x hx => ?_
  · obtain ⟨⟨realm', heq, hcovered⟩, -, hset⟩ := hread
    obtain rfl := Outcome.ret.inj heq
    have hset := hset realm rfl
    cases hfound : foundPart realm with
    | none =>
      have hfailed := foundPart_none hfound
      rw [if_neg hfailed] at hset
      rw [hfound] at hcovered
      rw [if_pos hfailed, hset]
      rintro r ⟨⟩
      rcases hcovered with hthere | ⟨k, hk, hgranted⟩
      · exact realmRead_none (noRealm_setPrincipal rfl) (hrealm.trans hthere)
      · obtain rfl : k = 0 := by omega
        refine realmRead_refused (noRealm_setPrincipal rfl) ?_
        rw [List.append_nil]
        simp [ktGranted, hgranted]
    | some pos =>
      rw [hfound] at hcovered
      obtain ⟨hok, -⟩ := foundPart_some hfound
      rw [if_pos hok] at hset
      rw [if_neg (not_not.mpr hok)]
      have hthere : pastRealm buf st.keypos ≠ none := by
        rw [hrealm, show pastCounted buf keypos = some pos from hcovered.1]
        exact Option.some_ne_none pos
      refine wp_mono (afterRealm_read hthere ?_) fun tr' o ho r heq => ?_
      · refine (readComponents_realm buf _ _ _).bind fun components hrealm' => ?_
        rw [← hrealm'] at hset
        split
        · exact .ret ⟨_, rfl, hset⟩
        · split
          · exact .ret ⟨_, rfl, hset⟩
          · exact .ret ⟨_, rfl, hset⟩
      · have hread := ho r heq
        have hgranted : tr.filterMap ktGranted = [true] := hcovered.2
        simpa [ktGranted, hgranted] using hread
  · obtain ⟨⟨r, heq, -⟩, -⟩ := hx
    cases heq

/-- The key leaves the principal. -/
theorem key_principal (buf : Bytes) (st : KtState) :
    Bounded (fun _ => True) (kerberosReadEntryKey buf st) fun r =>
      r.2.retEntry.principal = st.retEntry.principal := by
  unfold kerberosReadEntryKey readShort
  rcases kerberosRead buf 2 1 st.keypos with ⟨_ | enctype, keypos⟩
  · exact .ret rfl
  dsimp only [Option.map_some]
  rcases kerberosRead buf 2 1 keypos with ⟨_ | bytes, keypos'⟩
  · exact .ret rfl
  dsimp only [Option.map_some]
  split
  · exact .ret rfl
  refine .perform_bind trivial fun allocated => ?_
  cases allocated with
  | none => exact .ret rfl
  | some addr =>
    dsimp only
    rcases kerberosRead buf 1 (ntohs bytes).toNat keypos' with ⟨_ | bytes', keypos''⟩
    · exact .ret rfl
    · exact .ret rfl

/-- The same principal, and more memory. -/
theorem RealmRead.append {r r' : Bool × KtState} (h : RealmRead buf pos granted r)
    (hsame : r'.2.retEntry.principal = r.2.retEntry.principal) (later : List Bool) :
    RealmRead buf pos (granted ++ later) r' := by
  intro more
  rw [List.append_assoc, ← h (later ++ more)]
  unfold KeytabEntry.NoRealm
  rw [hsame]

theorem kerberosReadEntryContent_realm (buf : Bytes) (st : KtState)
    (hst : st.retEntry.principal = none) : wp (kerberosReadEntryContent buf st) fun tr o =>
      ∀ r, o = .ret r → RealmRead buf st.keypos (tr.filterMap ktGranted) r := by
  refine wp_bind_of (kerberosReadEntryPrincipal_realm buf st hst) (fun tr principal hprincipal => ?_)
    fun tr x _ r heq => by cases heq
  have hread := hprincipal principal rfl
  have hsame := (tsvno_memory buf principal.2).1
  split
  · rintro r ⟨⟩
    rw [List.append_nil]
    exact hread
  dsimp only
  split
  · rintro r ⟨⟩
    rw [List.filterMap_append]
    exact hread.append hsame _
  · refine wp_mono (key_principal buf _).trace fun tr' o ho r heq => ?_
    rw [List.filterMap_append]
    exact hread.append ((ho.2 r heq).trans hsame) _

/-! ## The search -/

/-- Whether there was memory, of a call of the watched reader. -/
def watchGranted : WatchEvent → Option Bool
  | ⟨.kt call, r⟩ => ktGranted ⟨call, r⟩
  | ⟨.mark _, _⟩ => none

theorem granted_unwatched (tr : List KtEvent) :
    (tr.map (Event.within WatchCall.kt)).filterMap watchGranted = tr.filterMap ktGranted :=
  List.filterMap_map

/-- A part that tells nothing loses nothing. -/
theorem noRealmLost_unwatched (tr : List KtEvent) (ev : WatchEvent)
    (hev : ev ∈ tr.map (Event.within WatchCall.kt)) : NoRealmLost ev := by
  obtain ⟨kt, -, rfl⟩ := List.mem_map.mp hev
  trivial

/-- What is said of the value of a search that does not go on for ever. -/
def UnlessEndless {α : Type} (Q : α → Prop) : Outcome KtFault α → Prop
  | .ret a => Q a
  | .halt x => x = .diverges

/-- Where the search of a record has come to: it has found one, or there is none. -/
def Searched (buf : Bytes) (keypos : UInt32) (r : Int32 × Int32 × UInt32) : Prop :=
  if r.1 ≠ 0 ∨ r.2.1 ≤ 0 then ∀ granted, KeepsRealms buf keypos granted
  else ∀ granted, KeepsRealms buf keypos granted ↔ KeepsRecord buf r.2.2 r.2.1 granted

theorem sizeRead_none {r : Int32 × Int32 × UInt32} {keypos : UInt32} (hr : r.1 ≠ 0 ∨ r.2.1 ≤ 0)
    (h : ∀ size startPos, sizeAt buf keypos = some (size, startPos) →
      ¬ 0 < size ∧ ¬ IsHole buf size startPos) : Searched buf keypos r := by
  unfold Searched
  rw [if_pos hr]
  exact fun _ => .ended h

theorem watchedSizeLoop_read (buf : Bytes) : ∀ (rounds : Nat) (keypos : UInt32) (size : Int32),
    wp (watchedSizeLoop buf rounds keypos size) fun tr o => tr.filterMap watchGranted = [] ∧
      (∀ ev ∈ tr, NoRealmLost ev) ∧ UnlessEndless (Searched buf keypos) o
  | 0, _, _ => ⟨rfl, List.forall_mem_nil _, rfl⟩
  | rounds + 1, keypos, size => by
    have herror : (1 : Int32) ≠ 0 := by decide
    unfold watchedSizeLoop
    rcases hread : kerberosRead buf 4 1 keypos with ⟨_ | bytes, startPos⟩
    · have hsize : sizeAt buf keypos = none := by
        unfold sizeAt
        rw [hread]
        rfl
      refine ⟨rfl, List.forall_mem_nil _, sizeRead_none (.inl herror) fun _ _ heq => ?_⟩
      rw [hsize] at heq
      cases heq
    have hsize : sizeAt buf keypos = some ((ntohl bytes).toInt32, startPos) := by
      unfold sizeAt
      rw [hread]
      rfl
    -- what is not a record or a hole there is none at all
    have hnothing : ¬ 0 < (ntohl bytes).toInt32 → ¬ IsHole buf (ntohl bytes).toInt32 startPos →
        ∀ size startPos, sizeAt buf keypos = some (size, startPos) →
          ¬ 0 < size ∧ ¬ IsHole buf size startPos := by
      intro hpos hhole size' startPos' heq
      rw [hsize] at heq
      obtain ⟨rfl, rfl⟩ := Prod.mk.inj (Option.some.inj heq)
      exact ⟨hpos, hhole⟩
    dsimp only
    split
    next hneg =>
      have hpos := Int32.not_lt.mpr (Int32.le_of_lt hneg)
      split
      next hmin =>
        exact ⟨rfl, List.forall_mem_nil _, sizeRead_none (.inl herror)
          (hnothing hpos fun hhole => hhole.2.1 hmin)⟩
      next hmin =>
        refine wp_perform_bind.mpr fun _ => ?_
        split
        next hpast =>
          refine wp_perform_bind.mpr fun error => ⟨rfl, ?_, sizeRead_none
            (.inr (Int32.le_of_lt hneg))
              (hnothing hpos fun hhole => absurd hhole.2.2 (Nat.not_le_of_lt hpast))⟩
          exact List.forall_mem_cons.mpr ⟨trivial, List.forall_mem_singleton.mpr trivial⟩
        next hinside =>
          have hhole : IsHole buf (ntohl bytes).toInt32 startPos :=
            ⟨hneg, hmin, Nat.le_of_not_lt hinside⟩
          refine wp_mono (watchedSizeLoop_read buf rounds _ _) fun tr o ho => ?_
          obtain ⟨hgranted, hkept, hread'⟩ := ho
          refine ⟨hgranted, List.forall_mem_cons.mpr ⟨trivial, hkept⟩, ?_⟩
          cases o with
          | ret r =>
            have hrest : Searched buf _ r := hread'
            show Searched buf keypos r
            unfold Searched at hrest ⊢
            simp only [keepsRealms_hole hsize hhole]
            exact hrest
          | halt x => exact hread'
    next hnonneg =>
      refine ⟨rfl, List.forall_mem_nil _, ?_⟩
      by_cases hzero : (ntohl bytes).toInt32 ≤ 0
      · exact sizeRead_none (.inr hzero) (hnothing (Int32.not_lt.mpr hzero) fun hhole =>
          hnonneg hhole.1)
      · show Searched buf keypos _
        unfold Searched
        rw [if_neg (not_or.mpr ⟨not_not.mpr rfl, hzero⟩)]
        exact fun granted => keepsRealms_record hsize (Int32.not_le.mp hzero)

/-! ### One record -/

/-- A call that asks for no memory. -/
def KtCall.Frees : KtCall → Prop
  | malloc _ => False
  | free _ => True
  | errno => True

theorem granted_of_frees {tr : List KtEvent} (h : ∀ ev ∈ tr, ev.1.Frees) :
    tr.filterMap ktGranted = [] := by
  refine List.filterMap_eq_nil_iff.mpr fun ev hev => ?_
  obtain ⟨call, r⟩ := ev
  cases call with
  | malloc size => exact (h _ hev).elim
  | free addr => rfl
  | errno => rfl

theorem freeBuffers_frees : ∀ buffers,
    Total KtCall.Frees (freeBuffers buffers) fun _ => True
  | [] => trivial
  | _ :: buffers => ⟨trivial, fun _ => freeBuffers_frees buffers⟩

theorem freeAny_frees (addr : Option Nat) : Total KtCall.Frees (freeAny addr) fun _ => True := by
  cases addr with
  | none => trivial
  | some addr => exact ⟨trivial, fun _ => trivial⟩

theorem failEntry_frees (st : KtState) :
    Total KtCall.Frees (failEntry st) fun r => r.1 = false := by
  have hfree : Total KtCall.Frees (kerberosFreeEntry st.retEntry) fun _ => True := by
    unfold kerberosFreeEntry
    split
    · exact (freeAny_frees _).bind fun _ _ => trivial
    · refine (freeBuffers_frees _).bind fun _ _ => (freeAny_frees _).bind fun _ _ => ?_
      exact .perform_bind trivial fun _ => (freeAny_frees _).bind fun _ _ => trivial
  exact hfree.bind fun _ _ => .ret rfl

/-- An entry that is given up tells whether it has a realm. -/
theorem watchedFailEntry_read (st : KtState) : wp (watchedFailEntry st) fun tr o =>
    ∃ r, o = .ret r ∧ r.1 = false ∧ tr.filterMap watchGranted = [] ∧
      ((∀ ev ∈ tr, NoRealmLost ev) ↔ st.retEntry.NoRealm) := by
  refine wp_perform_bind.mpr fun _ => wp_within.mpr ?_
  refine wp_mono (failEntry_frees st).trace fun tr o ho => ?_
  obtain ⟨⟨r, rfl, hfailed⟩, hfrees⟩ := ho
  refine ⟨r, rfl, hfailed, (granted_unwatched tr).trans (granted_of_frees hfrees), ?_⟩
  rw [List.forall_mem_cons]
  exact and_iff_left (noRealmLost_unwatched tr)

variable {content : Bool × KtState}

theorem pastRealm_of_content {found : Nat × UInt32} (h : pastContent buf startPos = some found) :
    pastRealm buf startPos ≠ none := by
  intro hnone
  unfold pastRealm at hnone
  unfold pastContent pastPrincipal at h
  cases hcount : countAt buf startPos with
  | none =>
    rw [hcount] at h
    cases h
  | some count =>
    rw [hcount] at h hnone
    rw [Option.bind_some] at h hnone
    rw [hnone] at h
    cases h

theorem content_of_whole {count : Nat} (h : wholeRecord buf startPos size = some count) :
    ∃ keypos, pastContent buf startPos = some (count, keypos) := by
  unfold wholeRecord at h
  obtain ⟨⟨count', keypos⟩, hcontent, h⟩ := Option.bind_eq_some_iff.mp h
  obtain ⟨keypos', -, h⟩ := Option.bind_eq_some_iff.mp h
  split at h
  · cases h
  · obtain rfl := Option.some.inj h
    exact ⟨keypos, hcontent⟩

/-- Where memory has been refused, it has not all been granted. -/
theorem not_granted {k n : Nat} (hk : k < n) (more rest : List Bool) :
    List.replicate k true ++ [false] ++ more ≠ List.replicate n true ++ rest := by
  intro heq
  have hkth := congrArg (fun granted => granted[k]?) heq
  simp [List.getElem?_append, hk] at hkth

/-- A record that is not whole is kept only where it ends early. -/
theorem keepsRecord_of_none (h : wholeRecord buf startPos size = none) :
    KeepsRecord buf startPos size granted ↔ EndsEarly buf startPos granted := by
  refine ⟨?_, .inl⟩
  rintro (hearly | ⟨count, rest, hwhole, -⟩)
  · exact hearly
  · rw [h] at hwhole
    cases hwhole

theorem keepsRecord_of_failed (h : ContentRead buf startPos granted content)
    (hfailed : ¬ content.1 = true) (more : List Bool) :
    KeepsRecord buf startPos size (granted ++ more) ↔ EndsEarly buf startPos (granted ++ more) := by
  unfold ContentRead at h
  rw [if_neg hfailed] at h
  refine ⟨?_, .inl⟩
  rintro (hearly | ⟨count, rest, hwhole, heq, -⟩)
  · exact hearly
  · obtain ⟨keypos, hcontent⟩ := content_of_whole hwhole
    obtain ⟨k, hk, rfl⟩ := h count keypos hcontent
    exact absurd heq (not_granted hk more rest)

/-- One that is whole does not end early. -/
theorem keepsRecord_of_whole {count : Nat} (hwhole : wholeRecord buf startPos size = some count)
    (more : List Bool) :
    KeepsRecord buf startPos size (List.replicate (count + 4) true ++ more) ↔
      KeepsRealms buf (startPos + size.toUInt32) more := by
  constructor
  · rintro (hearly | ⟨count', rest, hwhole', heq, hrest⟩)
    · obtain ⟨keypos, hcontent⟩ := content_of_whole hwhole
      rcases hearly with hnothing | hrefused
      · exact absurd hnothing (pastRealm_of_content hcontent)
      · simp [List.replicate_succ] at hrefused
    · obtain rfl := Option.some.inj (hwhole.symm.trans hwhole')
      rw [List.append_cancel_left heq]
      exact hrest
  · exact fun hrest => .inr ⟨count, more, hwhole, rfl, hrest⟩

theorem vno32_past (buf : Bytes) (startPos : UInt32) (size : Int32) (st : KtState) :
    foundEntry (readVno32 buf startPos size st) = pastVno32 buf startPos size st.keypos := by
  unfold readVno32 pastVno32
  split
  · unfold readLong
    rcases hlong : kerberosRead buf 4 1 st.keypos with ⟨_ | bytes, keypos⟩
    · rw [past_none hlong]
      rfl
    · rw [past_some hlong]
      dsimp only [Option.map_some]
      split <;> rfl
  · rfl

/-- The content of a record, in the watched reader. -/
theorem unwatched_content (buf : Bytes) (startPos : UInt32) :
    wp (unwatched (kerberosReadEntryContent buf { keypos := startPos })) fun tr o =>
      ∃ r, o = .ret r ∧ (∀ ev ∈ tr, NoRealmLost ev) ∧
        ContentRead buf startPos (tr.filterMap watchGranted) r ∧
          RealmRead buf startPos (tr.filterMap watchGranted) r := by
  refine wp_within.mpr (wp_mono (wp_and (kerberosReadEntryContent_read buf _)
    (kerberosReadEntryContent_realm buf { keypos := startPos } rfl)) fun tr o ho => ?_)
  obtain ⟨⟨r, rfl, hread⟩, hrealm⟩ := ho
  rw [granted_unwatched]
  exact ⟨r, rfl, noRealmLost_unwatched tr, hread, hrealm r rfl⟩

/-- **One call of the reader** loses no realm exactly where the bytes and the memory say so. -/
theorem watchedReadEntry_realms (buf : Bytes) (keypos : UInt32) :
    wp (watchedReadEntry buf keypos) fun tr o => UnlessEndless (fun r => ∀ more,
      KeepsRealms buf keypos (tr.filterMap watchGranted ++ more) ↔
        (∀ ev ∈ tr, NoRealmLost ev) ∧ (r.1 = true → KeepsRealms buf r.2.keypos more)) o := by
  unfold watchedReadEntry watchedReadEntrySize
  refine wp_bind_of (watchedSizeLoop_read buf _ keypos 0) (fun tr found hfound => ?_)
    fun tr x hx => hx.2.2
  obtain ⟨hgranted, hkept, hread⟩ := hfound
  obtain ⟨error, size, startPos⟩ := found
  have hread : Searched buf keypos (error, size, startPos) := hread
  unfold Searched at hread
  dsimp only at hread ⊢
  split
  next hnone =>
    rw [if_pos hnone] at hread
    intro more
    rw [List.append_nil]
    exact iff_of_true (hread _) ⟨hkept, nofun⟩
  next hsome =>
  rw [if_neg hsome] at hread
  refine wp_bind_of (unwatched_content buf startPos) (fun tr' content hcontent => ?_)
    fun tr' x hx => ?_
  · obtain ⟨content', heq, hkept', hcontent, hrealm⟩ := hcontent
    obtain rfl := Outcome.ret.inj heq
    generalize hgranted' : tr'.filterMap watchGranted = granted at hcontent hrealm
    -- given up: the record is kept if it has ended early, which the entry shows
    have hfail : ∀ st : KtState, st.retEntry.principal = content.2.retEntry.principal →
        (∀ more, KeepsRecord buf startPos size (granted ++ more) ↔
          EndsEarly buf startPos (granted ++ more)) →
        wp (watchedFailEntry st) fun tr'' o => UnlessEndless (fun r => ∀ more,
          KeepsRealms buf keypos ((tr ++ (tr' ++ tr'')).filterMap watchGranted ++ more) ↔
            (∀ ev ∈ tr ++ (tr' ++ tr''), NoRealmLost ev) ∧
              (r.1 = true → KeepsRealms buf r.2.keypos more)) o := by
      intro st hsame hrecord
      refine wp_mono (watchedFailEntry_read st) fun tr'' o ho => ?_
      obtain ⟨r, rfl, hfailed, hnothing, htold⟩ := ho
      intro more
      have hnoRealm : st.retEntry.NoRealm ↔ content.2.retEntry.NoRealm := by
        unfold KeytabEntry.NoRealm
        rw [hsame]
      rw [List.filterMap_append, List.filterMap_append, hgranted, hgranted', hnothing, List.nil_append,
        List.append_nil, hread, hrecord, ← hrealm more, List.forall_mem_append, List.forall_mem_append,
        htold, hnoRealm, hfailed]
      simp only [Bool.false_eq_true, false_implies, and_true]
      exact ⟨fun h => ⟨hkept, hkept', h⟩, fun h => h.2.2⟩
    split
    next hfailed =>
      have hpositive := (not_or.mp hsome).2
      rcases hfailed with hfailed | rfl
      · exact hfail content.2 rfl (keepsRecord_of_failed hcontent hfailed)
      · exact absurd (Int32.le_refl 0) hpositive
    next hok =>
    unfold ContentRead at hcontent
    rw [if_pos (not_not.mp (not_or.mp hok).1)] at hcontent
    obtain ⟨count, hthere, rfl⟩ := hcontent
    have hsame := (vno32_memory buf startPos size content.2).1
    have hwhole : wholeRecord buf startPos size =
        (foundEntry (readVno32 buf startPos size content.2)).bind fun pos =>
          if startPos + size.toUInt32 < pos then none else some count := by
      unfold wholeRecord
      rw [hthere, vno32_past]
      rfl
    generalize readVno32 buf startPos size content.2 = vno at hsame hwhole ⊢
    cases hvno : foundEntry vno with
    | none =>
      rw [hvno] at hwhole
      rw [if_pos (foundEntry_none hvno)]
      exact hfail vno.2 hsame fun more => keepsRecord_of_none hwhole
    | some pos =>
      obtain ⟨hok, rfl⟩ := foundEntry_some hvno
      rw [hvno, Option.bind_some] at hwhole
      rw [if_neg (not_not.mpr hok)]
      split
      next hpast => exact hfail vno.2 hsame fun more => keepsRecord_of_none (hwhole.trans (if_pos hpast))
      next hwithin =>
        refine wp_perform_bind.mpr fun _ more => ?_
        rw [List.filterMap_append, List.filterMap_append, hgranted, hgranted', List.nil_append]
        show KeepsRealms buf keypos (List.replicate (count + 4) true ++ [] ++ more) ↔ _
        rw [List.append_nil, hread, keepsRecord_of_whole (hwhole.trans (if_neg hwithin))]
        refine ⟨fun h => ⟨?_, fun _ => h⟩, fun h => h.2 rfl⟩
        exact List.forall_mem_append.mpr ⟨hkept, List.forall_mem_append.mpr ⟨hkept',
          List.forall_mem_singleton.mpr trivial⟩⟩
  · obtain ⟨r, heq, -⟩ := hx
    cases heq

/-! ### All of them -/

/-- Whether there was memory, of a call of a context. -/
def ctxGranted : CtxEvent → Option Bool
  | ⟨.read call, r⟩ => watchGranted ⟨call, r⟩
  | _ => none

/-- No entry is given up after its realm. -/
def RealmKept : CtxEvent → Prop
  | ⟨.read call, r⟩ => NoRealmLost ⟨call, r⟩
  | _ => True

/-- A call that is none of the reader. -/
def CtxCall.Outside : CtxCall → Prop
  | read _ => False
  | _ => True

/-- A call of an end: none of the reader, and no credentials cache is asked for. -/
def CtxCall.Ends : CtxCall → Prop
  | read _ => False
  | krb5CcDefault _ => False
  | _ => True

theorem CtxCall.Ends.outside {call : CtxCall} (h : call.Ends) : call.Outside := by
  cases call with
  | read call => exact h.elim
  | _ => trivial

theorem CtxCall.Outside.kept {ev : CtxEvent} (h : ev.1.Outside) : RealmKept ev := by
  obtain ⟨call, r⟩ := ev
  cases call with
  | read call => exact h.elim
  | _ => trivial

theorem granted_outside {tr : List CtxEvent} (h : ∀ ev ∈ tr, ev.1.Outside) :
    tr.filterMap ctxGranted = [] := by
  refine List.filterMap_eq_nil_iff.mpr fun ev hev => ?_
  obtain ⟨call, r⟩ := ev
  have houtside := h _ hev
  cases call with
  | read call => exact houtside.elim
  | _ => rfl

/-- What is compared without a version is followed by more. -/
theorem kerberosCompareEntry_zero (krb5Context : Option Handle) (curEntry newEntry : KeytabEntry)
    (find : Bool) : Total CtxCall.Outside
      (kerberosCompareEntry krb5Context 0 curEntry newEntry find) fun r => r.1 = true := by
  unfold kerberosCompareEntry
  rw [if_pos (.inl rfl)]
  split
  · exact .perform_bind trivial fun _ => .ret rfl
  · exact .perform_bind trivial fun _ => .ret rfl

/-- A search from a place on has lost no realm, and the bytes and the memory say so. -/
def RealmsTold (buf : Bytes) (pos : UInt32) (tr : List CtxEvent) : Prop :=
  KeepsRealms buf pos (tr.filterMap ctxGranted) ↔ ∀ ev ∈ tr, RealmKept ev

theorem RealmsTold.after {pre tr : List CtxEvent} (h : RealmsTold buf pos tr)
    (hpre : ∀ ev ∈ pre, ev.1.Outside) : RealmsTold buf pos (pre ++ tr) := by
  unfold RealmsTold at h ⊢
  rw [List.filterMap_append, granted_outside hpre, List.nil_append, h, List.forall_mem_append]
  exact (and_iff_right fun ev hev => (hpre ev hev).kept).symm

/-- One call of the reader, in a context. -/
theorem readEntry_realms (buf : Bytes) (pos : UInt32) :
    wp (α := Bool × KtState) (F := KtFault) ((watchedReadEntry buf pos).within CtxCall.read)
      fun tr o => UnlessEndless (fun r => ∀ more,
        KeepsRealms buf pos (tr.filterMap ctxGranted ++ more) ↔
          (∀ ev ∈ tr, RealmKept ev) ∧ (r.1 = true → KeepsRealms buf r.2.keypos more)) o := by
  refine wp_within.mpr (wp_mono (watchedReadEntry_realms buf pos) fun tr o ho => ?_)
  have hgranted : (tr.map (Event.within CtxCall.read)).filterMap ctxGranted =
      tr.filterMap watchGranted := List.filterMap_map
  cases o with
  | ret r =>
    intro more
    rw [hgranted, List.forall_mem_map]
    exact ho more
  | halt x => exact ho

theorem getEntryLoop_realms (krb5Context principal : Option Handle) (enctype : Int32) :
    ∀ (rounds : Nat) (pos : UInt32) (curEntry : KeytabEntry) (find : Bool),
      wp (getEntryLoop krb5Context principal buf 0 enctype rounds pos curEntry find) fun tr o =>
        UnlessEndless (fun _ => RealmsTold buf pos tr) o
  | 0, _, _, _ => rfl
  | rounds + 1, pos, curEntry, find => by
    unfold getEntryLoop
    refine wp_bind_of (readEntry_realms buf pos) (fun tr entry hentry => ?_) fun _ _ hx => hx
    have hentry : ∀ more, KeepsRealms buf pos (tr.filterMap ctxGranted ++ more) ↔
        (∀ ev ∈ tr, RealmKept ev) ∧ (entry.1 = true → KeepsRealms buf entry.2.keypos more) := hentry
    split
    next hnone =>
      show RealmsTold buf pos (tr ++ [])
      have hlast := hentry []
      rw [List.append_nil] at hlast ⊢
      exact hlast.trans (and_iff_left fun hok => absurd hok hnone)
    next hsome =>
    have hok := not_not.mp hsome
    -- the record is followed by what lies outside the reader, and the rest of the search
    have hrest : ∀ {pre tr' : List CtxEvent} {o : Outcome KtFault (KeytabEntry × Bool)},
        (∀ ev ∈ pre, ev.1.Outside) → UnlessEndless (fun _ => RealmsTold buf entry.2.keypos tr') o →
          UnlessEndless (fun _ => RealmsTold buf pos (tr ++ (pre ++ tr'))) o := by
      intro pre tr' o hpre htold
      cases o with
      | halt x => exact htold
      | ret r =>
      show RealmsTold buf pos (tr ++ (pre ++ tr'))
      have hafter := RealmsTold.after htold hpre
      unfold RealmsTold at hafter ⊢
      rw [List.filterMap_append, hentry, List.forall_mem_append, ← hafter]
      exact and_congr_right fun _ => ⟨fun h => h hok, fun h _ => h⟩
    refine wp_perform_bind.mpr fun same => ?_
    split
    · refine wp_perform_bind.mpr fun _ => wp_mono (getEntryLoop_realms krb5Context principal enctype
        rounds entry.2.keypos curEntry find) fun tr' o ho => ?_
      exact @hrest [_, _] tr' o (List.forall_mem_cons.mpr
        ⟨trivial, List.forall_mem_singleton.mpr trivial⟩) ho
    · refine wp_bind_of (kerberosCompareEntry_zero krb5Context curEntry _ find).trace
        (fun pre compared hcompared => ?_) fun pre x hx => ?_
      · obtain ⟨⟨compared', heq, hmore⟩, hpre⟩ := hcompared
        obtain rfl := Outcome.ret.inj heq
        rw [if_neg (not_not.mpr hmore)]
        refine wp_mono (getEntryLoop_realms krb5Context principal enctype rounds entry.2.keypos _ _)
          fun tr' o ho => ?_
        exact @hrest (_ :: pre) tr' o (List.forall_mem_cons.mpr ⟨trivial, hpre⟩) ho
      · obtain ⟨⟨compared', heq, -⟩, -⟩ := hx
        cases heq

/-- Bytes that are not there. -/
theorem kerberosRead_short {size : Nat} (h : buf.length < pos.toNat + size) :
    kerberosRead buf size 1 pos = (none, pos) := by
  unfold kerberosRead readItems
  rw [if_pos h]

theorem kerberosRead_version (hlong : ¬ buf.length < 2) :
    ∃ bytes, kerberosRead buf 2 1 0 = (some bytes, 2) := by
  match buf with
  | [] => exact absurd Nat.two_pos hlong
  | [_] => exact absurd Nat.one_lt_two hlong
  | b :: b' :: buf =>
    refine ⟨[b, b'], ?_⟩
    unfold kerberosRead readItems
    rw [if_neg (show ¬ (b :: b' :: buf).length < (0 : UInt32).toNat + 2 from hlong)]
    rfl

/-- **A search for any version** loses no realm exactly where the bytes of the keytab and the
answers of `malloc` say so. -/
theorem kerberosGetEntry_realms (rounds : Nat) (krb5Context principal : Option Handle) (buf : Bytes)
    (enctype : Int32) (entry : KeytabEntry) :
    wp (kerberosGetEntry rounds krb5Context principal buf 0 enctype entry) fun tr o =>
      UnlessEndless (fun _ => RealmsTold buf 2 tr) o := by
  unfold kerberosGetEntry
  by_cases hshort : buf.length < 2
  · have hsize : sizeAt buf 2 = none := by
      unfold sizeAt
      rw [kerberosRead_short (show buf.length < (2 : UInt32).toNat + 4 from Nat.lt_of_lt_of_le hshort
        (by decide))]
      rfl
    rw [kerberosRead_short (show buf.length < (0 : UInt32).toNat + 2 from hshort)]
    refine iff_of_true (.ended fun size startPos heq => ?_) (List.forall_mem_nil _)
    rw [hsize] at heq
    cases heq
  · obtain ⟨bytes, hversion⟩ := kerberosRead_version hshort
    rw [hversion]
    refine wp_bind_of (getEntryLoop_realms krb5Context principal enctype rounds 2 {} false)
      (fun tr got hgot => ?_) fun tr x hx => hx
    show RealmsTold buf 2 (tr ++ [])
    rw [List.append_nil]
    exact hgot

/-! ## The operations

What the reader tells of its realms is a matter of the keytab and of the memory, and it is called
where the keytab has been resolved, and nowhere else. -/

variable {maxKeytabNameLen rounds : Nat}
variable {keytabValue inPrincipal memoryKeytabName inkrb5ccname : Bytes}

/-- The name of the keytab has been resolved. -/
def Resolves (tr : List CtxEvent) : Prop :=
  ∃ context name keytab, ⟨.krb5KtResolve context name, some keytab⟩ ∈ tr

/-- The keytab loses no realm, if it comes to be read. -/
def RealmsKept (keytabValue : Bytes) (tr : List CtxEvent) : Prop :=
  Resolves tr → KeepsRealms keytabValue 2 (tr.filterMap ctxGranted)

/-- No entry is given up after its realm, unless the bytes and the memory say so. -/
def Spares {α : Type} (keytabValue : Bytes) (tr : List CtxEvent) (o : Outcome KtFault α) : Prop :=
  o = .halt .diverges ∨ (RealmsKept keytabValue tr → ∀ ev ∈ tr, RealmKept ev)

section Spares

variable {α β : Type} {p : Ctx α} {f : α → Ctx β}

theorem calls_whenHeld {A : CtxCall → Prop} {handle : Option Handle} {release : Handle → Ctx Unit}
    (h : ∀ handle, Calls A (release handle)) : Calls A (whenHeld handle release) := by
  cases handle with
  | none => trivial
  | some handle => exact h handle

theorem kerberosUninit_ends (s : KrbCtx) : Calls CtxCall.Ends s.kerberosUninit :=
  (calls_whenHeld fun _ => calls_perform trivial).bind fun _ =>
    (calls_whenHeld fun _ => calls_perform trivial).bind fun _ =>
      (calls_whenHeld fun _ => calls_perform trivial).bind fun _ =>
        (calls_whenHeld fun _ => calls_perform trivial).bind fun _ =>
          (calls_whenHeld fun _ => calls_perform trivial).bind fun _ => trivial

theorem uninitWith_ends (result : KrbResult) (s : KrbCtx) :
    Calls CtxCall.Ends (s.uninitWith result) := (kerberosUninit_ends s).bind fun _ => trivial

theorem calls_deref {A : CtxCall → Prop} {handle : Option Handle} {use : Handle → Ctx Unit}
    (h : ∀ handle, Calls A (use handle)) : Calls A (deref handle use) := by
  cases handle with
  | none => trivial
  | some handle => exact h handle

theorem kerberosDestroyKeytab_ends (s : KrbCtx) : Calls CtxCall.Ends s.kerberosDestroyKeytab := by
  have hremove : Calls CtxCall.Ends s.removeEntry := by
    unfold KrbCtx.removeEntry
    split
    · exact (calls_deref fun _ => calls_perform trivial).bind fun _ =>
        (calls_perform trivial).bind fun _ => trivial
    · trivial
  exact hremove.bind fun s => (calls_whenHeld fun _ => calls_perform trivial).bind fun _ =>
    uninitWith_ends _ _

theorem destroyWith_ends (result : KrbResult) (s : KrbCtx) :
    Calls CtxCall.Ends (s.destroyWith result) :=
  (kerberosDestroyKeytab_ends s).bind fun _ => trivial

theorem kerberosDestroyCCache_ends (s : KrbCtx) : Calls CtxCall.Ends s.kerberosDestroyCCache :=
  (calls_whenHeld fun _ => calls_perform trivial).bind fun _ => destroyWith_ends _ _

theorem outside_of_ends (h : Calls CtxCall.Ends p) : Calls CtxCall.Outside p :=
  h.mono fun _ => CtxCall.Ends.outside

theorem uninitWith_outside (result : KrbResult) (s : KrbCtx) :
    Calls CtxCall.Outside (s.uninitWith result) := outside_of_ends (uninitWith_ends result s)

theorem destroyWith_outside (result : KrbResult) (s : KrbCtx) :
    Calls CtxCall.Outside (s.destroyWith result) := outside_of_ends (destroyWith_ends result s)

theorem obtainKerberosCredentials_outside (s : KrbCtx) :
    Calls CtxCall.Outside s.obtainKerberosCredentials := by
  unfold KrbCtx.obtainKerberosCredentials
  refine (calls_perform trivial).bind fun rc => ?_
  split
  · exact (calls_perform trivial).bind fun _ => trivial
  · refine (calls_perform trivial).bind fun inited => ?_
    split
    · exact (calls_perform trivial).bind fun _ => trivial
    · exact (calls_perform trivial).bind fun _ => (calls_perform trivial).bind fun _ => trivial

theorem kerberosInit_outside (s : KrbCtx) (inPrincipal : Bytes) :
    Calls CtxCall.Outside (s.kerberosInit inPrincipal) := by
  unfold KrbCtx.kerberosInit
  refine (calls_perform trivial).bind fun context => ?_
  cases context with
  | none => exact uninitWith_outside _ _
  | some context =>
    refine (calls_perform trivial).bind fun principal => ?_
    cases principal with
    | none => exact uninitWith_outside _ _
    | some principal => trivial

theorem kept_outside (h : Calls CtxCall.Outside p) : wp p fun tr _ => ∀ ev ∈ tr, RealmKept ev :=
  wp_mono h.trace fun _ _ ho ev hev => (ho ev hev).kept

theorem kept_ends (h : Calls CtxCall.Ends p) : wp p fun tr _ => ∀ ev ∈ tr, RealmKept ev :=
  kept_outside (outside_of_ends h)

theorem spares_outside (h : Calls CtxCall.Outside p) : wp p (Spares keytabValue) :=
  wp_mono (kept_outside h) fun _ _ ho => .inr fun _ => ho

theorem RealmsKept.right {tr tr' : List CtxEvent} (h : RealmsKept keytabValue (tr ++ tr'))
    (houtside : ∀ ev ∈ tr, ev.1.Outside) : RealmsKept keytabValue tr' := by
  rintro ⟨context, name, keytab, hmem⟩
  have hkeeps := h ⟨context, name, keytab, List.mem_append_right _ hmem⟩
  rwa [List.filterMap_append, granted_outside houtside, List.nil_append] at hkeeps

theorem RealmsKept.left {tr tr' : List CtxEvent} (h : RealmsKept keytabValue (tr ++ tr'))
    (houtside : ∀ ev ∈ tr', ev.1.Outside) : RealmsKept keytabValue tr := by
  rintro ⟨context, name, keytab, hmem⟩
  have hkeeps := h ⟨context, name, keytab, List.mem_append_left _ hmem⟩
  rwa [List.filterMap_append, granted_outside houtside, List.append_nil] at hkeeps

/-- A part outside the reader comes first. -/
theorem spares_after (hp : Calls CtxCall.Outside p) (hf : ∀ a, wp (f a) (Spares keytabValue)) :
    wp (p >>= f) (Spares keytabValue) := by
  refine wp_bind_of hp.trace (fun tr a htr => wp_mono (hf a) fun tr' o ho => ?_)
    fun tr x htr => .inr fun _ ev hev => (htr ev hev).kept
  refine ho.imp_right fun h hkept => List.forall_mem_append.mpr ⟨fun ev hev => (htr ev hev).kept, ?_⟩
  exact h (hkept.right htr)

/-- What comes last, outside the reader. -/
theorem Spares.append {tr tr' : List CtxEvent} {a : α} {o : Outcome KtFault β}
    (h : Spares keytabValue tr (.ret a : Outcome KtFault α)) (htr' : ∀ ev ∈ tr', ev.1.Outside) :
    Spares keytabValue (tr ++ tr') o := by
  rcases h with hendless | h
  · cases hendless
  · exact .inr fun hkept =>
      List.forall_mem_append.mpr ⟨h (hkept.left htr'), fun ev hev => (htr' ev hev).kept⟩

/-- A fault is the end of whatever comes after. -/
theorem Spares.halt {tr : List CtxEvent} {x : KtFault}
    (h : Spares keytabValue tr (.halt x : Outcome KtFault α)) :
    Spares keytabValue tr (.halt x : Outcome KtFault β) := by
  refine h.imp_left fun heq => ?_
  obtain rfl := Outcome.halt.inj heq
  rfl

/-- A part outside the reader comes last. -/
theorem spares_before (hp : wp p (Spares keytabValue)) (hf : ∀ a, Calls CtxCall.Outside (f a)) :
    wp (p >>= f) (Spares keytabValue) :=
  wp_bind_of hp (fun _ a ho => wp_mono (hf a).trace fun _ _ htr' => ho.append htr') fun _ _ ho =>
    ho.halt

end Spares

/-- The keytab is read. -/
theorem takeEntry_spares (s : KrbCtx) (keytab : Handle) :
    wp (s.takeEntry rounds keytab keytabValue) fun tr o => o = .halt .diverges ∨
      (KeepsRealms keytabValue 2 (tr.filterMap ctxGranted) → ∀ ev ∈ tr, RealmKept ev) := by
  unfold KrbCtx.takeEntry
  refine wp_bind_of (kerberosGetEntry_realms rounds _ _ keytabValue 0 s.keytabEntry)
    (fun tr got htold => ?_) fun tr x hx => .inl (congrArg Outcome.halt hx)
  have htold : RealmsTold keytabValue 2 tr := htold
  refine wp_mono (Calls.trace (A := CtxCall.Outside) ?_) fun tr' o htr' => .inr fun hkeeps => ?_
  · split
    · exact (calls_perform trivial).bind fun _ => uninitWith_outside _ _
    · refine (calls_perform trivial).bind fun added => ?_
      split
      · exact (calls_perform trivial).bind fun _ => (calls_perform trivial).bind fun _ =>
          uninitWith_outside _ _
      · trivial
  · rw [List.filterMap_append, granted_outside htr', List.append_nil] at hkeeps
    exact List.forall_mem_append.mpr ⟨htold.mp hkeeps, fun ev hev => (htr' ev hev).kept⟩

theorem kerberosInitKeytab_spares (s : KrbCtx) :
    wp (s.kerberosInitKeytab maxKeytabNameLen rounds keytabValue inPrincipal memoryKeytabName)
      (Spares keytabValue) := by
  unfold KrbCtx.kerberosInitKeytab
  refine spares_after (kerberosInit_outside s inPrincipal) fun ar => ?_
  split
  · exact spares_outside (calls_ret _)
  split
  · exact spares_outside (calls_ret _)
  refine spares_after (calls_perform trivial) fun set => ?_
  split
  · exact spares_outside (uninitWith_outside _ _)
  refine wp_perform_bind.mpr fun keytab => ?_
  cases keytab with
  | none =>
    refine wp_mono (kept_outside (uninitWith_outside _ _)) fun tr o ho => .inr fun _ => ?_
    exact List.forall_mem_cons.mpr ⟨trivial, ho⟩
  | some keytab =>
    refine wp_mono (takeEntry_spares _ keytab) fun tr o ho => ho.imp_right fun h hkept => ?_
    exact List.forall_mem_cons.mpr ⟨trivial, h (hkept ⟨_, _, keytab, List.mem_cons_self⟩)⟩

theorem kerberosInitCCache_spares (s : KrbCtx) :
    wp (s.kerberosInitCCache maxKeytabNameLen rounds keytabValue inPrincipal memoryKeytabName
      inkrb5ccname) (Spares keytabValue) := by
  unfold KrbCtx.kerberosInitCCache
  split
  · exact spares_outside (calls_ret _)
  refine spares_before (kerberosInitKeytab_spares s) fun ar => ?_
  dsimp only
  split
  · exact calls_ret _
  refine (calls_perform trivial).bind fun set => ?_
  split
  · exact destroyWith_outside _ _
  refine (calls_perform trivial).bind fun ccache => ?_
  cases ccache with
  | none =>
    exact (calls_deref fun _ => calls_perform trivial).bind fun _ => destroyWith_outside _ _
  | some ccache =>
    refine (calls_perform trivial).bind fun opts => ?_
    cases opts with
    | none => exact (calls_perform trivial).bind fun _ => destroyWith_outside _ _
    | some opts =>
      refine (obtainKerberosCredentials_outside _).bind fun credResult => ?_
      split
      · exact calls_ret _
      · exact (calls_perform trivial).bind fun _ => (calls_perform trivial).bind fun _ =>
          destroyWith_outside _ _

end CdfCrypto.Kerberos
