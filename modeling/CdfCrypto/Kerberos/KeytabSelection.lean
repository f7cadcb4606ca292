import CdfCrypto.Kerberos.KeytabFormat
import CdfCrypto.Kerberos.KrbCtx
import CdfCrypto.Lib.Best
import Mathlib.Data.List.Nodup

/-!
# Which entry of a keytab is taken

`KerberosGetEntry` keeps the first entry that matches until another is more recent. More recent
is first a matter of the kvno, and of the timestamp only where a small kvno may have come round
after a large one: two entries of one kvno leave each other in place whatever their timestamps,
and three entries can be more recent than one another in a circle. So what is taken depends on
the order in the file, unless one entry is more recent than each of the others
(`selectsSame_iff`).
-/

namespace CdfCrypto.Kerberos

open Lib

/-! ## The records of a keytab -/

/-- The record of an item, with its kvno. -/
def Item.record? : Item → Option (Entry × UInt32)
  | record e trailer => some (e, e.kvno trailer)
  | hole _ _ => none

theorem records_filterMap (items : List Item) : records items = items.filterMap Item.record? := by
  induction items with
  | nil => rfl
  | cons item items ih =>
    cases item with
    | record e trailer => exact congrArg ((e, e.kvno trailer) :: ·) ih
    | hole bytes hne => exact ih

/-- The principal of a record is the wanted one, and its encryption type what was asked for. -/
def Matches (wanted : Bytes → List Bytes → Bool) (enctype : Int32) (x : Entry × UInt32) : Bool :=
  wanted x.1.realm x.1.components && (enctype == 0 || enctype == x.1.enctype.toInt32)

theorem matches_iff {wanted : Bytes → List Bytes → Bool} {enctype : Int32} {x : Entry × UInt32} :
    Matches wanted enctype x = true ↔ wanted x.1.realm x.1.components = true ∧
      (enctype = 0 ∨ enctype = x.1.enctype.toInt32) := by
  unfold Matches
  rw [Bool.and_eq_true, Bool.or_eq_true, beq_iff_eq, beq_iff_eq]

/-- The records of a keytab that match. -/
def matchingRecords (wanted : Bytes → List Bytes → Bool) (enctype : Int32) (items : List Item) :
    List (Entry × UInt32) := (records items).filter (Matches wanted enctype)

/-- `KerberosMoreRecent`, of two records. -/
def moreRecent (x y : Entry × UInt32) : Bool :=
  kerberosMoreRecent { timestamp := x.1.timestamp, vno := x.2 }
    { timestamp := y.1.timestamp, vno := y.2 }

/-- The timestamp and the kvno of a record. -/
def recency (x : Entry × UInt32) : Int32 × UInt32 := (x.1.timestamp, x.2)

variable {wanted : Bytes → List Bytes → Bool} {enctype : Int32} {items : List Item}
variable {buf : Bytes} {keypos : UInt32}

theorem matchingRecords_filterMap : matchingRecords wanted enctype items =
    items.filterMap fun item => item.record?.filter (Matches wanted enctype) := by
  unfold matchingRecords
  rw [records_filterMap, List.filter_filterMap]

/-- Of two records, one at most is more recent. -/
theorem moreRecent_asymm (x y : Entry × UInt32) (h : moreRecent x y = true) :
    moreRecent y x = false := by
  unfold moreRecent kerberosMoreRecent kerberosTSAfter kMinKvno kMaxKvno at h ⊢
  grind

theorem kerberosMoreRecent_is {entry entry' : KeytabEntry} {x x' : Entry × UInt32}
    (h : entry.Is x.1 x.2) (h' : entry'.Is x'.1 x'.2) :
    kerberosMoreRecent entry entry' = moreRecent x x' := by
  unfold moreRecent kerberosMoreRecent
  rw [h.timestamp, h.vno, h'.timestamp, h'.vno]

/-! ## Where everything parses -/

/-- What the watched reader is answered where no allocation fails. -/
def WatchAllocating (_ : Unit) (ev : WatchEvent) (_ : Unit) : Prop :=
  match ev with
  | ⟨.kt call, r⟩ => Allocating () ⟨call, r⟩ ()
  | ⟨.mark _, _⟩ => True

/-- An environment in which no allocation fails, and principals are compared by their realm and
their components. -/
def Answering (wanted : Bytes → List Bytes → Bool) (_ : Unit) (ev : CtxEvent) (_ : Unit) : Prop :=
  match ev with
  | ⟨.read call, r⟩ => WatchAllocating () ⟨call, r⟩ ()
  | ⟨.krb5PrincipalCompare _ _ (some p), same⟩ => ∀ realm, p.realm.map Buffer.bytes = some realm →
      same = wanted realm (p.data.map Buffer.bytes)
  | _ => True

/-- The watched reader reads what the reader reads. -/
theorem watchedReadEntry_yields (h : At buf keypos (items.flatMap Item.encode)) :
    Yields (Answering wanted) ((watchedReadEntry buf keypos).within CtxCall.read) ()
      fun r _ => EntryRead buf items r := by
  have hgives := kerberosReadEntry_gives h
  rw [← kerberosReadEntry_watched] at hgives
  have hplays : ∀ (call : WatchCall) (r : call.Reply) (w w' : Unit),
      WatchAllocating w ⟨call, r⟩ w' → ∃ tr, Exec Allocating (unmark call) w tr (.ret r) w' := by
    intro call r _ _ hcall
    cases call with
    | kt call => exact ⟨[⟨call, r⟩], .call (.ret r), .cons hcall (.nil ())⟩
    | mark told => exact ⟨[], .ret (), .nil ()⟩
  exact wpIn_within.mpr (wpIn_of_handle hplays hgives)

/-! ## The search -/

/-- What the search has found so far. -/
def Current (found : Option (Entry × UInt32)) (curEntry : KeytabEntry) (find : Bool) : Prop :=
  match found with
  | none => curEntry.principal = none ∧ find = false
  | some x => curEntry.Is x.1 x.2 ∧ find = true

theorem kerberosCompareEntry_yields {found : Option (Entry × UInt32)}
    {curEntry newEntry : KeytabEntry} {find : Bool} (x : Entry × UInt32)
    (krb5Context : Option Handle)
    (hcur : Current found curEntry find) (hnew : newEntry.Is x.1 x.2) :
    Yields (Answering wanted) (kerberosCompareEntry krb5Context 0 curEntry newEntry find) ()
      fun r _ => r.1 = true ∧ Current (best moreRecent found [x]) r.2.1 r.2.2 := by
  unfold kerberosCompareEntry
  rw [if_pos (.inl rfl)]
  cases found with
  | none =>
    rw [if_pos (.inl hcur.1)]
    exact .perform_bind fun _ _ _ => .ret ⟨rfl, hnew, rfl⟩
  | some y =>
    obtain ⟨⟨p, hp, -⟩, -⟩ := hcur.1
    have hprincipal : curEntry.principal ≠ none := by
      rw [hp]
      exact Option.some_ne_none p
    have hrecent := kerberosMoreRecent_is hnew hcur.1
    unfold best
    by_cases hbeats : moreRecent x y = true
    · rw [if_pos (.inr (hrecent.trans hbeats)), if_pos hbeats]
      exact .perform_bind fun _ _ _ => .ret ⟨rfl, hnew, rfl⟩
    · rw [if_neg (not_or.mpr ⟨hprincipal, hrecent ▸ hbeats⟩), if_neg hbeats]
      exact .perform_bind fun _ _ _ => .ret ⟨rfl, hcur⟩

/-- **The loop keeps the best** of the records that match, by being more recent. -/
theorem getEntryLoop_yields (krb5Context principal : Option Handle) : ∀ {rounds : Nat}
    {items : List Item} {keypos : UInt32} {found : Option (Entry × UInt32)} {curEntry : KeytabEntry}
    {find : Bool}, (records items).length < rounds → At buf keypos (items.flatMap Item.encode) →
    Current found curEntry find → Yields (Answering wanted)
      (getEntryLoop krb5Context principal buf 0 enctype rounds keypos curEntry find) ()
      fun r _ => Current (best moreRecent found (matchingRecords wanted enctype items)) r.1 r.2
  | 0, _, _, _, _, _, hrounds, _, _ => absurd hrounds (Nat.not_lt_zero _)
  | rounds + 1, items, keypos, found, curEntry, find, hrounds, hat, hcur => by
    have hrecords := records_eq items
    unfold getEntryLoop
    refine (watchedReadEntry_yields hat).bind fun entry _ hentry => ?_
    unfold EntryRead at hentry
    unfold matchingRecords
    cases hnext : nextRecord items with
    | none =>
      rw [hnext] at hentry hrecords
      rw [hentry, if_pos (by decide), hrecords]
      exact .ret hcur
    | some next =>
      obtain ⟨e, trailer, rest⟩ := next
      rw [hnext] at hentry hrecords
      obtain ⟨newEntry, keypos', rfl, hnew, hat'⟩ := hentry
      rw [if_neg (not_not.mpr rfl), hrecords]
      rw [hrecords, List.length_cons] at hrounds
      obtain ⟨p, hp, hpe⟩ := hnew.principal
      obtain ⟨principal', timestamp, vno, enctype', contents⟩ := newEntry
      obtain rfl : principal' = some p := hp
      have hrest : (records rest).length < rounds := Nat.lt_of_succ_lt_succ hrounds
      refine .perform_bind fun same _ hsame => ?_
      have hsame : same = wanted e.realm e.components := by
        rw [← hpe.data]
        exact hsame e.realm hpe.realm
      have henctype : enctype' = e.enctype.toInt32 := hnew.enctype
      by_cases hmatch : Matches wanted enctype (e, e.kvno trailer) = true
      · obtain ⟨hwanted, htype⟩ := matches_iff.mp hmatch
        rw [if_neg, List.filter_cons_of_pos hmatch, best_cons]
        · refine (kerberosCompareEntry_yields (e, e.kvno trailer) krb5Context hcur hnew).bind
            fun compared _ hcompared => ?_
          obtain ⟨hon, hcur'⟩ := hcompared
          rw [if_neg (not_not.mpr hon)]
          exact getEntryLoop_yields krb5Context principal hrest hat' hcur'
        · intro hnot
          rw [hsame, hwanted, henctype] at hnot
          obtain hfalse | ⟨hne, hother⟩ := hnot
          · exact hfalse rfl
          · exact htype.elim hne hother
      · rw [if_pos, List.filter_cons_of_neg hmatch]
        · exact .perform_bind fun _ _ _ => getEntryLoop_yields krb5Context principal hrest hat' hcur
        · rw [matches_iff, not_and_or, not_or] at hmatch
          rw [hsame, henctype]
          exact hmatch

/-- What is found, if anything is. -/
def SelectedIs : Option (Entry × UInt32) → KrbResult × KeytabEntry → Prop
  | none, r => r.1.mResult ≠ 0
  | some x, r => r.1.mResult = 0 ∧ r.2.Is x.1 x.2

/-- **`KerberosGetEntry`** with kvno 0, on a keytab that was written. -/
theorem kerberosGetEntry_selects (wanted : Bytes → List Bytes → Bool) (enctype : Int32)
    (hsize : (encodeKeytab items).length ≤ maxFileSize)
    (krb5Context principal : Option Handle) (entry : KeytabEntry) {rounds : Nat}
    (hrounds : (encodeKeytab items).length < rounds) : Yields (Answering wanted)
      (kerberosGetEntry rounds krb5Context principal (encodeKeytab items) 0 enctype entry) ()
      fun r _ => SelectedIs (best moreRecent none (matchingRecords wanted enctype items)) r := by
  have hstart : At (encodeKeytab items) 0 (be16 0x0502 ++ items.flatMap Item.encode) :=
    ⟨rfl, Nat.zero_add _, Nat.lt_of_le_of_lt hsize (by decide)⟩
  have hat : At (encodeKeytab items) 2 (items.flatMap Item.encode) := hstart.short
  have hread : kerberosRead (encodeKeytab items) 2 1 0 = (some (be16 0x0502), 2) :=
    kerberosRead_at hstart rfl (by decide)
  have hcount : (records items).length < rounds := by
    have hitems := length_le_encode items
    have hlength := hat.length
    have hrecords : (records items).length ≤ items.length := by
      rw [records_filterMap]
      exact List.length_filterMap_le _ _
    omega
  unfold kerberosGetEntry
  rw [hread]
  refine (getEntryLoop_yields krb5Context principal hcount hat
    (show Current none {} false from ⟨rfl, rfl⟩)).bind fun got _ hgot => .ret ?_
  cases hbest : best moreRecent none (matchingRecords wanted enctype items) with
  | none =>
    rw [hbest] at hgot
    rw [hgot.2]
    exact show (1 : UInt32) ≠ 0 by decide
  | some x =>
    rw [hbest] at hgot
    rw [hgot.2]
    exact ⟨rfl, hgot.1⟩

/-! ## The order of the records -/

/-- Answers of an environment where everything parses. -/
def answering (wanted : Bytes → List Bytes → Bool) : (call : CtxCall) → call.Reply
  | .read (.kt call) => plenty call
  | .read (.mark _) => ()
  | .krb5PrincipalCompare _ _ none => false
  | .krb5PrincipalCompare _ _ (some p) =>
    wanted ((p.realm.map Buffer.bytes).getD []) (p.data.map Buffer.bytes)
  | .setenv _ _ => 0
  | .krb5InitContext => some 0
  | .krb5FreeContext _ => ()
  | .krb5ParseName _ _ => some 0
  | .krb5FreePrincipal _ _ => ()
  | .krb5KtResolve _ _ => some 0
  | .krb5KtClose _ _ => ()
  | .krb5KtAddEntry _ _ _ => 0
  | .krb5KtRemoveEntry _ _ _ => ()
  | .krb5KtFreeEntry _ _ => ()
  | .krb5CcDefault _ => some 0
  | .krb5CcInitialize _ _ _ => 0
  | .krb5CcStoreCred _ _ => 0
  | .krb5CcDestroy _ _ => ()
  | .krb5GetInitCredsOptAlloc _ => some 0
  | .krb5GetInitCredsOptFree _ _ => ()
  | .krb5GetInitCredsKeytab _ _ _ _ => 0
  | .krb5FreeCredContents _ => ()

theorem answering_answers (wanted : Bytes → List Bytes → Bool) (call : CtxCall) :
    Answering wanted () ⟨call, answering wanted call⟩ () := by
  cases call with
  | read call =>
    cases call with
    | kt call =>
      cases call with
      | malloc size => exact Option.some_ne_none 0
      | free addr => trivial
      | errno => trivial
    | mark told => trivial
  | krb5PrincipalCompare krb5Context principal entry =>
    cases entry with
    | none => trivial
    | some p =>
      intro realm hrealm
      show wanted ((p.realm.map Buffer.bytes).getD []) _ = _
      rw [hrealm]
      rfl
  | _ => trivial

/-- A record than which no other is more recent, if there is any. -/
def Newest (l : List (Entry × UInt32)) : Option (Entry × UInt32) → Prop
  | none => l = []
  | some x => x ∈ l ∧ ∀ y ∈ l, moreRecent y x = false

/-- **Order independence**: whatever order the records and holes of a keytab are put in, every
search of it with kvno 0 finds the same record, one than which none that matches is more recent. -/
def SelectsSame (wanted : Bytes → List Bytes → Bool) (enctype : Int32) (items : List Item) : Prop :=
  ∃ found, Newest (matchingRecords wanted enctype items) found ∧
    ∀ (items' : List Item), items'.Perm items →
      ∀ (rounds : Nat), (encodeKeytab items').length < rounds →
        ∀ (krb5Context principal : Option Handle) (entry : KeytabEntry) (tr : List CtxEvent)
          (o : Outcome KtFault (KrbResult × KeytabEntry)),
          Exec (Answering wanted) (kerberosGetEntry rounds krb5Context principal
            (encodeKeytab items') 0 enctype entry) () tr o () →
          ∃ r, o = .ret r ∧ SelectedIs found r

theorem encodeKeytab_perm {items' : List Item} (h : items'.Perm items) :
    (encodeKeytab items').length = (encodeKeytab items).length := by
  unfold encodeKeytab
  rw [List.length_append, List.length_append, (h.flatMap_right Item.encode).length_eq]

theorem matchingRecords_perm {items' : List Item} (h : items'.Perm items) :
    (matchingRecords wanted enctype items').Perm (matchingRecords wanted enctype items) := by
  rw [matchingRecords_filterMap, matchingRecords_filterMap]
  exact h.filterMap _

/-- A search there is. -/
theorem exists_search (wanted : Bytes → List Bytes → Bool) (enctype : Int32) (items : List Item) :
    ∃ tr o, Exec (Answering wanted) (kerberosGetEntry ((encodeKeytab items).length + 1) none none
      (encodeKeytab items) 0 enctype {}) () tr o () :=
  ⟨_, _, exec_runWith (answering_answers wanted) _⟩

/-- One entry is not two records of different timestamp or kvno. -/
theorem SelectedIs.unique {l : List (Entry × UInt32)} (hdistinct : (l.map recency).Nodup)
    {found found' : Option (Entry × UInt32)} {r : KrbResult × KeytabEntry}
    (h : SelectedIs found r) (h' : SelectedIs found' r) (hmem : ∀ x ∈ found, x ∈ l)
    (hmem' : ∀ x ∈ found', x ∈ l) : found = found' := by
  cases found with
  | none =>
    cases found' with
    | none => rfl
    | some x' => exact absurd h'.1 h
  | some x =>
    cases found' with
    | none => exact absurd h.1 h'
    | some x' =>
      have hkey : recency x = recency x' := by
        unfold recency
        rw [← h.2.timestamp, ← h.2.vno, ← h'.2.timestamp, ← h'.2.vno]
      rw [List.inj_on_of_nodup_map hdistinct (hmem x rfl) (hmem' x' rfl) hkey]

theorem best_mem {l : List (Entry × UInt32)} : ∀ x ∈ best moreRecent none l, x ∈ l := by
  intro x hx
  cases l with
  | nil => cases hx
  | cons y l =>
    obtain ⟨z, hz, hmem⟩ := best_some_mem moreRecent l y
    obtain rfl : z = x := Option.some.inj (hz.symm.trans hx)
    exact List.mem_cons.mpr hmem

/-- Where every order gives one record, the best of each order is that record. -/
theorem SelectsSame.best_eq (hsize : (encodeKeytab items).length ≤ maxFileSize)
    (hdistinct : ((matchingRecords wanted enctype items).map recency).Nodup)
    (h : SelectsSame wanted enctype items) :
    ∃ found, ∀ l' : List (Entry × UInt32), l'.Perm (matchingRecords wanted enctype items) →
      best moreRecent none l' = found := by
  obtain ⟨found, hnewest, hruns⟩ := h
  refine ⟨found, fun l' hperm => ?_⟩
  rw [matchingRecords_filterMap] at hperm
  obtain ⟨items', hitems, hl'⟩ := exists_perm_filterMap hperm
  rw [← matchingRecords_filterMap] at hl'
  subst hl'
  obtain ⟨tr, o, hexec⟩ := exists_search wanted enctype items'
  obtain ⟨r, rfl, hfound⟩ := hruns items' hitems _ (Nat.lt_succ_self _) none none {} tr o hexec
  have hsearch := kerberosGetEntry_selects wanted enctype (encodeKeytab_perm hitems ▸ hsize) none none {}
    (Nat.lt_succ_self _)
  obtain ⟨r', hr', hbest⟩ := hsearch.exec hexec
  obtain rfl := Outcome.ret.inj hr'
  refine hbest.unique hdistinct hfound (fun x hx => ?_) fun x hx => ?_
  · exact (matchingRecords_perm hitems).mem_iff.mp (best_mem x hx)
  · obtain rfl : found = some x := hx
    exact hnewest.1

/-- Where the best of each order is one record, every order gives it. -/
theorem selectsSame_of_best (hsize : (encodeKeytab items).length ≤ maxFileSize)
    {found : Option (Entry × UInt32)}
    (hnewest : Newest (matchingRecords wanted enctype items) found)
    (hbest : ∀ l' : List (Entry × UInt32), l'.Perm (matchingRecords wanted enctype items) →
      best moreRecent none l' = found) : SelectsSame wanted enctype items := by
  refine ⟨found, hnewest, fun items' hperm rounds hrounds krb5Context principal entry tr o hexec => ?_⟩
  have hsearch := kerberosGetEntry_selects wanted enctype (encodeKeytab_perm hperm ▸ hsize) krb5Context
    principal entry hrounds
  rw [hbest _ (matchingRecords_perm hperm)] at hsearch
  exact hsearch.exec hexec

/-- **When the order does not matter**: exactly where nothing matches, or where one record is more
recent than each of the others. -/
theorem selectsSame_iff (hsize : (encodeKeytab items).length ≤ maxFileSize)
    (hdistinct : ((matchingRecords wanted enctype items).map recency).Nodup) :
    SelectsSame wanted enctype items ↔ matchingRecords wanted enctype items = [] ∨
      ∃ x, Champion moreRecent (matchingRecords wanted enctype items) x := by
  constructor
  · intro h
    exact (best_perm_iff moreRecent_asymm (List.Nodup.of_map _ hdistinct)).mp
      (h.best_eq hsize hdistinct)
  · intro h
    obtain hnil | ⟨x, hx⟩ := h
    · refine selectsSame_of_best hsize (show Newest _ none from hnil) fun l' hperm => ?_
      rw [hnil] at hperm
      rw [hperm.eq_nil]
      rfl
    · exact selectsSame_of_best hsize
        (show Newest _ (some x) from ⟨hx.mem, hx.unbeaten moreRecent_asymm⟩)
        fun l' hperm => (hx.perm hperm).best_eq moreRecent_asymm

theorem selectsSame_iff_sample : SelectsSame (fun _ _ => true) 0 sampleItems := by
  refine (selectsSame_iff (by decide) (by decide)).mpr
    (.inr ⟨(sampleEntry, 3), .tail _ (.head _), fun y hy hne => ?_⟩)
  obtain rfl : y = (sampleEntry, 259) :=
    (List.mem_cons.mp hy).resolve_right fun h => hne (List.mem_singleton.mp h)
  decide

/-- An entry of one kvno, written at one time or another. -/
def rekeyed (timestamp : Int32) : Entry := { sampleEntry with timestamp }

/-- Two entries of one kvno: the first is kept, whatever their timestamps. -/
theorem order_matters : ¬ ∀ (wanted : Bytes → List Bytes → Bool) (enctype : Int32)
    (items : List Item), (encodeKeytab items).length ≤ maxFileSize →
      ((matchingRecords wanted enctype items).map recency).Nodup →
      SelectsSame wanted enctype items := by
  intro h
  have hsize : (encodeKeytab [.record (rekeyed 1) none, .record (rekeyed 2) none]).length ≤
      maxFileSize := by decide
  have hdistinct : ((matchingRecords (fun _ _ => true) 0
      [.record (rekeyed 1) none, .record (rekeyed 2) none]).map recency).Nodup := by decide
  obtain ⟨found, hbest⟩ := (h (fun _ _ => true) 0 _ hsize hdistinct).best_eq hsize hdistinct
  have hfirst : some (rekeyed 1, 3) = found := hbest [(rekeyed 1, 3), (rekeyed 2, 3)] (.refl _)
  have hsecond : some (rekeyed 2, 3) = found :=
    hbest [(rekeyed 2, 3), (rekeyed 1, 3)] (.swap _ _ _)
  have heq : rekeyed 1 = rekeyed 2 :=
    congrArg Prod.fst (Option.some.inj (hfirst.trans hsecond.symm))
  exact absurd (congrArg Entry.timestamp heq) (by decide)

end CdfCrypto.Kerberos
