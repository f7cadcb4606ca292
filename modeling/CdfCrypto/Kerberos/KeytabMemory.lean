import CdfCrypto.Kerberos.KrbCtx
import CdfCrypto.Lib.Ownership
import Mathlib.Tactic.Abel

/-!
# The memory of an entry

The memory an entry is read into is asked for part by part: the principal, the array of its
components, the realm, each component and the key. What has been asked for is the entry's at
each time (`kerberosReadEntryContent_owns`). An entry that is given up gives all of it back but
the realm, so that nothing is lost where the realm had not been read yet
(`watchedReadEntry_owns`).
-/

namespace CdfCrypto.Kerberos

open Lib

/-- What a context can hold: memory, and what it got of the library. -/
inductive CtxHandle
  | memory (addr : Nat)
  | context (handle : Handle)
  | principal (handle : Handle)
  | keytab (handle : Handle)
  | ccache (handle : Handle)
  | opts (handle : Handle)
  deriving DecidableEq

/-- What a call of the reader does with memory. -/
def ktDeeds : KtEvent → List (Deed CtxHandle)
  | ⟨.malloc _, some addr⟩ => [.acquired (.memory addr)]
  | ⟨.malloc _, none⟩ => []
  | ⟨.free addr, _⟩ => [.released (.memory addr)]
  | ⟨.errno, _⟩ => []

def watchDeeds : WatchEvent → List (Deed CtxHandle)
  | ⟨.kt call, r⟩ => ktDeeds ⟨call, r⟩
  | ⟨.mark _, _⟩ => []

/-- An entry that is given up has no realm yet. -/
def NoRealmLost : WatchEvent → Prop
  | ⟨.mark (.failed entry), _⟩ => ∀ p, entry.principal = some p → p.realm = none
  | _ => True

/-- The memory of a principal. -/
def Krb5Principal.memory (p : Krb5Principal) : List Nat :=
  p.data.map Buffer.addr ++ (p.dataAddr.toList ++ ([p.addr] ++ (p.realm.map Buffer.addr).toList))

/-- The memory of the principal of an entry, if there is one. -/
def principalMemory : Option Krb5Principal → List Nat
  | none => []
  | some p => p.memory

/-- The memory of an entry. -/
def KeytabEntry.memory (entry : KeytabEntry) : List Nat :=
  principalMemory entry.principal ++ (entry.contents.map Buffer.addr).toList

/-- Memory, as it is held. -/
def inMemory (addrs : List Nat) : Multiset CtxHandle :=
  ((addrs.map CtxHandle.memory : List CtxHandle) : Multiset CtxHandle)

@[simp] theorem inMemory_nil : inMemory [] = 0 := rfl

@[simp] theorem inMemory_append (addrs addrs' : List Nat) :
    inMemory (addrs ++ addrs') = inMemory addrs + inMemory addrs' := by
  unfold inMemory
  rw [List.map_append, ← Multiset.coe_add]

/-- A fault that is not the end of the process. -/
def KtFault.GoesOn : KtFault → Prop
  | diverges => True
  | nullPointer => False

/-- A program that reads a keytab, by the memory it holds. -/
abbrev Owns {α : Type} (held : Multiset CtxHandle) (p : Kt α)
    (Q : α → Multiset CtxHandle → Prop) : Prop :=
  OwningIf (fun _ => True) KtFault.GoesOn ktDeeds held p Q

/-- The same of the watched reader, where no realm is lost. -/
abbrev WatchOwns {α : Type} (held : Multiset CtxHandle) (p : Watched α)
    (Q : α → Multiset CtxHandle → Prop) : Prop :=
  OwningIf NoRealmLost KtFault.GoesOn watchDeeds held p Q

section Owns

variable {α : Type} {held : Multiset CtxHandle} {Q : α → Multiset CtxHandle → Prop}

theorem Owns.malloc {size : Nat} {f : Option Nat → Kt α}
    (hf : ∀ allocated : Option Nat, Owns (held + inMemory allocated.toList) (f allocated) Q) :
    Owns held (.perform (KtCall.malloc size) >>= f) Q := by
  refine OwningIf.acquire (fun allocated => allocated.toList.map CtxHandle.memory)
    (fun allocated => ?_) (List.forall_mem_nil _) fun allocated _ => hf allocated
  cases allocated <;> rfl

theorem Owns.free {before : Multiset CtxHandle} {addr : Nat} {f : Unit → Kt α}
    (hheld : before = held + inMemory [addr]) (hf : Owns held (f ()) Q) :
    Owns before (.perform (KtCall.free addr) >>= f) Q :=
  OwningIf.release [.memory addr] (fun _ => rfl) (List.forall_mem_nil _) hheld fun _ => hf

end Owns

variable {buf : Bytes} {held : Multiset CtxHandle}

/-! ## Reading -/

theorem readCounted_owns (buf : Bytes) (held : Multiset CtxHandle) (st : KtState) :
    Owns held (readCounted buf st) fun r held' =>
      held' = held + inMemory (r.1.map Buffer.addr).toList ∧ r.2.retEntry = st.retEntry := by
  have hnone : held = held + inMemory [] := (add_zero held).symm
  have hshort : (readShort buf st).2.retEntry = st.retEntry := rfl
  unfold readCounted
  generalize readShort buf st = r at hshort ⊢
  rcases r with ⟨_ | princSize, st₁⟩
  · exact .ret ⟨hnone, hshort⟩
  · dsimp only
    split
    · exact .ret ⟨hnone, hshort⟩
    · refine .malloc fun tmpdata => ?_
      cases tmpdata with
      | none => exact .ret ⟨rfl, hshort⟩
      | some addr =>
        dsimp only
        rcases kerberosRead buf 1 princSize.toNat st₁.keypos with ⟨_ | bytes, keypos⟩
        · exact .free rfl (.ret ⟨hnone, hshort⟩)
        · exact .ret ⟨rfl, hshort⟩

/-- A realm is memory of the principal. -/
theorem memory_realm (p : Krb5Principal) (hrealm : p.realm = none) (realm : Buffer) :
    inMemory ({ p with realm := some realm } : Krb5Principal).memory =
      inMemory p.memory + inMemory [realm.addr] := by
  unfold Krb5Principal.memory
  rw [hrealm]
  simp only [Option.map_some, Option.map_none, Option.toList_some, Option.toList_none,
    inMemory_append, inMemory_nil]
  abel

/-- A component is memory of the principal. -/
theorem memory_component (p : Krb5Principal) (component : Buffer) :
    inMemory ({ p with data := p.data ++ [component] } : Krb5Principal).memory =
      inMemory p.memory + inMemory [component.addr] := by
  unfold Krb5Principal.memory
  simp only [List.map_append, List.map_cons, List.map_nil, inMemory_append]
  abel

/-- What a reader of a part of the principal holds at its end: the principal. -/
def PrincipalHeld (held : Multiset CtxHandle) (st : KtState)
    (r : Bool × Krb5Principal × KtState) (held' : Multiset CtxHandle) : Prop :=
  held' = held + inMemory r.2.1.memory ∧ r.2.2.retEntry = st.retEntry

theorem realm_owns (buf : Bytes) (held : Multiset CtxHandle) (p : Krb5Principal)
    (hrealm : p.realm = none) (st : KtState) : Owns (held + inMemory p.memory)
      (kerberosReadEntryPrincipalRealm buf p st) (PrincipalHeld held st) := by
  refine (readCounted_owns buf _ st).bind fun r held' hr => ?_
  obtain ⟨rfl, hentry⟩ := hr
  rcases r with ⟨_ | realm, st₁⟩
  · exact .ret ⟨add_zero _, hentry⟩
  · refine .ret ⟨?_, hentry⟩
    rw [memory_realm p hrealm, add_assoc]
    rfl

theorem component_owns (buf : Bytes) (held : Multiset CtxHandle) (p : Krb5Principal)
    (st : KtState) : Owns (held + inMemory p.memory)
      (kerberosReadEntryPrincipalData buf p st) (PrincipalHeld held st) := by
  refine (readCounted_owns buf _ st).bind fun r held' hr => ?_
  obtain ⟨rfl, hentry⟩ := hr
  rcases r with ⟨_ | data, st₁⟩
  · exact .ret ⟨add_zero _, hentry⟩
  · refine .ret ⟨?_, hentry⟩
    rw [memory_component p, add_assoc]
    rfl

theorem readComponents_owns (buf : Bytes) (held : Multiset CtxHandle) : ∀ (count : Nat)
    (p : Krb5Principal) (st : KtState), Owns (held + inMemory p.memory)
      (readComponents buf count p st) (PrincipalHeld held st)
  | 0, p, st => .ret ⟨rfl, rfl⟩
  | count + 1, p, st => by
    unfold readComponents
    refine (component_owns buf held p st).bind fun component held' hcomponent => ?_
    obtain ⟨rfl, hentry⟩ := hcomponent
    split
    · exact .ret ⟨rfl, hentry⟩
    · exact (readComponents_owns buf held count _ _).mono fun r held' hr =>
        ⟨hr.1, hr.2.trans hentry⟩

/-- What a reader of a part of the entry holds at its end: the entry. -/
def EntryHeld (held : Multiset CtxHandle) (r : Bool × KtState) (held' : Multiset CtxHandle) : Prop :=
  held' = held + inMemory r.2.retEntry.memory ∧ (r.1 = true → r.2.retEntry.principal ≠ none)

/-- An entry whose principal has been set, and that has no key yet. -/
theorem memory_setPrincipal {st : KtState} (hcontents : st.retEntry.contents = none)
    (p : Krb5Principal) : (st.setPrincipal p).retEntry.memory = p.memory := by
  unfold KeytabEntry.memory
  rw [show (st.setPrincipal p).retEntry.contents = none from hcontents]
  exact List.append_nil _

/-- A principal that has been read, or begun. -/
theorem entryHeld_setPrincipal {st : KtState} (hcontents : st.retEntry.contents = none) (ok : Bool)
    (p : Krb5Principal) : EntryHeld held (ok, st.setPrincipal p) (held + inMemory p.memory) := by
  refine ⟨?_, fun _ => Option.some_ne_none p⟩
  rw [memory_setPrincipal hcontents]

theorem principal_owns (buf : Bytes) (held : Multiset CtxHandle) (st : KtState)
    (hentry : st.retEntry = {}) : Owns held (kerberosReadEntryPrincipal buf st) fun r held' =>
      EntryHeld held r held' ∧ r.2.retEntry.contents = none := by
  have hempty : ∀ st₁ : KtState, st₁.retEntry = {} →
      EntryHeld held (false, st₁) held ∧ st₁.retEntry.contents = none := by
    intro st₁ hst₁
    unfold EntryHeld
    rw [hst₁]
    exact ⟨⟨(add_zero held).symm, nofun⟩, rfl⟩
  have hshort : (readShort buf st).2.retEntry = {} := hentry
  unfold kerberosReadEntryPrincipal
  generalize readShort buf st = r at hshort ⊢
  rcases r with ⟨_ | count, st₁⟩
  · exact .ret (hempty _ hshort)
  · have hcontents : ∀ st₂ : KtState, st₂.retEntry = st₁.retEntry → st₂.retEntry.contents = none := by
      intro st₂ hst₂
      rw [hst₂, hshort]
    have hset : ∀ (ok : Bool) (p : Krb5Principal) (st₂ : KtState), st₂.retEntry = st₁.retEntry →
        EntryHeld held (ok, st₂.setPrincipal p) (held + inMemory p.memory) ∧
          (st₂.setPrincipal p).retEntry.contents = none := fun ok p st₂ hst₂ =>
      ⟨entryHeld_setPrincipal (hcontents st₂ hst₂) ok p, hcontents st₂ hst₂⟩
    dsimp only
    split
    · exact .ret (hempty _ hshort)
    · refine .malloc fun allocated => ?_
      cases allocated with
      | none => exact .ret (by simpa using hempty st₁ hshort)
      | some addr =>
        refine .malloc fun allocated => ?_
        cases allocated with
        | none =>
          refine .ret ?_
          rw [show inMemory (none : Option Nat).toList = 0 from rfl, add_zero]
          exact hset false { addr, length := count } st₁ rfl
        | some dataAddr =>
          have hbegun : held + inMemory (some addr).toList + inMemory (some dataAddr).toList =
              held + inMemory ({ addr, length := count, dataAddr := some dataAddr } :
                Krb5Principal).memory := by
            rw [add_assoc, add_comm (inMemory (some addr).toList), ← inMemory_append]
            rfl
          rw [hbegun]
          refine (realm_owns buf held _ rfl st₁).bind fun realm held' hrealm => ?_
          obtain ⟨rfl, hentry₁⟩ := hrealm
          split
          · exact .ret (hset false _ _ hentry₁)
          · refine (readComponents_owns buf held _ _ _).bind fun components held' hcomponents => ?_
            obtain ⟨rfl, hentry₂⟩ := hcomponents
            split
            · exact .ret (hset false _ _ (hentry₂.trans hentry₁))
            · have hlong : (readLong buf components.2.2).2.retEntry = st₁.retEntry :=
                hentry₂.trans hentry₁
              generalize readLong buf components.2.2 = r at hlong ⊢
              rcases r with ⟨_ | type, st₂⟩
              · exact .ret (hset false _ _ hlong)
              · exact .ret (hset true { components.2.1 with type := type.toInt32 } _ hlong)

/-- The timestamp and the version are no memory. -/
theorem tsvno_memory (buf : Bytes) (st : KtState) :
    (kerberosReadEntryTSVNo buf st).2.retEntry.principal = st.retEntry.principal ∧
      (kerberosReadEntryTSVNo buf st).2.retEntry.contents = st.retEntry.contents := by
  have hlong : (readLong buf st).2.retEntry = st.retEntry := rfl
  unfold kerberosReadEntryTSVNo
  generalize readLong buf st = r at hlong ⊢
  rcases r with ⟨_ | timestamp, st₁⟩
  · exact ⟨congrArg KeytabEntry.principal hlong, congrArg KeytabEntry.contents hlong⟩
  · have hprincipal₁ : st₁.retEntry.principal = st.retEntry.principal :=
      congrArg KeytabEntry.principal hlong
    have hcontents₁ : st₁.retEntry.contents = st.retEntry.contents :=
      congrArg KeytabEntry.contents hlong
    have hoctet : (readOctet buf
        { st₁ with retEntry := { st₁.retEntry with timestamp := timestamp.toInt32 } }).2.retEntry =
        { st₁.retEntry with timestamp := timestamp.toInt32 } := rfl
    dsimp only
    generalize readOctet buf
      { st₁ with retEntry := { st₁.retEntry with timestamp := timestamp.toInt32 } } = r at hoctet ⊢
    have hprincipal : r.2.retEntry.principal = st.retEntry.principal :=
      (congrArg KeytabEntry.principal hoctet).trans hprincipal₁
    have hcontents : r.2.retEntry.contents = st.retEntry.contents :=
      (congrArg KeytabEntry.contents hoctet).trans hcontents₁
    rcases r with ⟨_ | vno, st₂⟩
    · exact ⟨hprincipal, hcontents⟩
    · exact ⟨hprincipal, hcontents⟩

theorem vno32_memory (buf : Bytes) (startPos : UInt32) (size : Int32) (st : KtState) :
    (readVno32 buf startPos size st).2.retEntry.principal = st.retEntry.principal ∧
      (readVno32 buf startPos size st).2.retEntry.contents = st.retEntry.contents := by
  unfold readVno32
  split
  · have hlong : (readLong buf st).2.retEntry = st.retEntry := rfl
    generalize readLong buf st = r at hlong ⊢
    have hsame := And.intro (congrArg KeytabEntry.principal hlong)
      (congrArg KeytabEntry.contents hlong)
    rcases r with ⟨_ | vno32, st₁⟩
    · exact hsame
    · dsimp only
      split
      · exact hsame
      · exact hsame
  · exact ⟨rfl, rfl⟩

/-- The key is the memory that an entry with a principal lacks. -/
theorem key_owns (buf : Bytes) (held : Multiset CtxHandle) (st : KtState)
    (hprincipal : st.retEntry.principal ≠ none) (hcontents : st.retEntry.contents = none) :
    Owns (held + inMemory (principalMemory st.retEntry.principal)) (kerberosReadEntryKey buf st)
      (EntryHeld held) := by
  have hwithout : ∀ st₁ : KtState, st₁.retEntry.principal = st.retEntry.principal →
      st₁.retEntry.contents = none →
      EntryHeld held (false, st₁) (held + inMemory (principalMemory st.retEntry.principal)) := by
    intro st₁ hsame hnone
    refine ⟨?_, nofun⟩
    unfold KeytabEntry.memory
    rw [hsame, hnone]
    exact congrArg (fun addrs => held + inMemory addrs) (List.append_nil _).symm
  have henctype : (readShort buf st).2.retEntry = st.retEntry := rfl
  unfold kerberosReadEntryKey
  generalize readShort buf st = r at henctype ⊢
  rcases r with ⟨_ | enctype, st₁⟩
  · exact .ret (hwithout _ (congrArg KeytabEntry.principal henctype)
      ((congrArg KeytabEntry.contents henctype).trans hcontents))
  · have hprincipal₁ : st₁.retEntry.principal = st.retEntry.principal :=
      congrArg KeytabEntry.principal henctype
    have hcontents₁ : st₁.retEntry.contents = none :=
      (congrArg KeytabEntry.contents henctype).trans hcontents
    have hcount : (readShort buf { st₁ with retEntry :=
        { st₁.retEntry with enctype := enctype.toInt16.toInt32 } }).2.retEntry =
        { st₁.retEntry with enctype := enctype.toInt16.toInt32 } := rfl
    dsimp only
    generalize readShort buf { st₁ with retEntry :=
      { st₁.retEntry with enctype := enctype.toInt16.toInt32 } } = r at hcount ⊢
    have hprincipal₂ : r.2.retEntry.principal = st.retEntry.principal :=
      (congrArg KeytabEntry.principal hcount).trans hprincipal₁
    have hcontents₂ : r.2.retEntry.contents = none :=
      (congrArg KeytabEntry.contents hcount).trans hcontents₁
    rcases r with ⟨_ | count, st₂⟩
    · exact .ret (hwithout _ hprincipal₂ hcontents₂)
    · have hwith : ∀ (ok : Bool) (keypos : UInt32) (addr : Nat) (bytes : Bytes),
          EntryHeld held (ok, { keypos, retEntry :=
            { st₂.retEntry with contents := some ⟨addr, bytes⟩ } })
            (held + inMemory (principalMemory st.retEntry.principal) + inMemory [addr]) := by
        intro ok keypos addr bytes
        refine ⟨?_, fun _ => by rw [← hprincipal₂] at hprincipal; exact hprincipal⟩
        rw [add_assoc, ← inMemory_append, ← hprincipal₂]
        rfl
      dsimp only
      split
      · exact .ret (hwithout _ hprincipal₂ hcontents₂)
      · refine .malloc fun allocated => ?_
        cases allocated with
        | none =>
          refine .ret ?_
          rw [show inMemory (none : Option Nat).toList = 0 from rfl, add_zero]
          exact hwithout _ hprincipal₂ hcontents₂
        | some addr =>
          dsimp only
          rcases kerberosRead buf 1 count.toNat st₂.keypos with ⟨_ | bytes, keypos⟩
          · exact .ret (hwith _ _ _ _)
          · exact .ret (hwith _ _ _ _)

/-- **An entry holds what has been asked for**, wherever its reading has come to. -/
theorem kerberosReadEntryContent_owns (buf : Bytes) (held : Multiset CtxHandle) (keypos : UInt32) :
    Owns held (kerberosReadEntryContent buf { keypos }) (EntryHeld held) := by
  refine (principal_owns buf held { keypos } rfl).bind fun principal held' hprincipal => ?_
  obtain ⟨⟨rfl, hsome⟩, hcontents⟩ := hprincipal
  have hmemory : ∀ entry : KeytabEntry, entry.contents = none →
      entry.memory = principalMemory entry.principal := by
    intro entry hnone
    unfold KeytabEntry.memory
    rw [hnone]
    exact List.append_nil _
  split
  next hfailed => exact .ret ⟨rfl, hsome⟩
  next hok =>
    have hok := hsome (not_not.mp hok)
    obtain ⟨hsame, hsameContents⟩ := tsvno_memory buf principal.2
    rw [hmemory _ hcontents, ← hsame]
    dsimp only
    split
    next hfailed =>
      refine .ret ⟨?_, fun htrue => absurd htrue hfailed⟩
      rw [hmemory _ (hsameContents.trans hcontents)]
    · exact key_owns buf held _ (hsame ▸ hok) (hsameContents.trans hcontents)

/-! ## Giving it back -/

theorem freeBuffers_owns : ∀ (buffers : List Buffer) (held : Multiset CtxHandle),
    Owns (held + inMemory (buffers.map Buffer.addr)) (freeBuffers buffers) fun _ held' => held' = held
  | [], held => .ret (add_zero held)
  | buffer :: buffers, held => by
    refine .free ?_ (freeBuffers_owns buffers held)
    rw [List.map_cons, ← List.singleton_append, inMemory_append]
    abel

theorem freeAny_owns (addr : Option Nat) (held : Multiset CtxHandle) :
    Owns (held + inMemory addr.toList) (freeAny addr) fun _ held' => held' = held := by
  cases addr with
  | none => exact .ret (add_zero held)
  | some addr => exact .free rfl (.ret rfl)

/-- All the memory of an entry without a realm is given back. -/
theorem kerberosFreeEntry_owns (entry : KeytabEntry)
    (hrealm : ∀ p, entry.principal = some p → p.realm = none) (held : Multiset CtxHandle) :
    Owns (held + inMemory entry.memory) (kerberosFreeEntry entry) fun _ held' => held' = held := by
  unfold kerberosFreeEntry KeytabEntry.memory
  cases hprincipal : entry.principal with
  | none =>
    refine OwningIf.bind (freeAny_owns _ held) fun _ held' hheld => .ret hheld
  | some p =>
    have hsplit : held + inMemory (p.memory ++ (entry.contents.map Buffer.addr).toList) =
        held + inMemory (entry.contents.map Buffer.addr).toList + inMemory [p.addr] +
          inMemory p.dataAddr.toList + inMemory (p.data.map Buffer.addr) := by
      unfold Krb5Principal.memory
      rw [hrealm p hprincipal]
      simp only [Option.map_none, Option.toList_none, inMemory_append, inMemory_nil]
      abel
    show Owns (held + inMemory (p.memory ++ _)) _ _
    rw [hsplit]
    refine OwningIf.bind (freeBuffers_owns _ _) fun _ held₁ hheld₁ => ?_
    subst hheld₁
    refine OwningIf.bind (freeAny_owns _ _) fun _ held₂ hheld₂ => ?_
    subst hheld₂
    refine Owns.free rfl ?_
    exact OwningIf.bind (freeAny_owns _ held) fun _ held' hheld => .ret hheld

/-- A part of the reader that tells nothing. -/
theorem unwatched_owns {α : Type} {p : Kt α} {Q : α → Multiset CtxHandle → Prop}
    (hp : Owns held p Q) : WatchOwns held (unwatched p) Q :=
  OwningIf.within (A := NoRealmLost) hp

/-- What a call of the reader holds at its end: an entry with a principal, or nothing. -/
def ReadHeld (held : Multiset CtxHandle) (r : Bool × KtState) (held' : Multiset CtxHandle) : Prop :=
  if r.1 then held' = held + inMemory r.2.retEntry.memory ∧ r.2.retEntry.principal ≠ none
  else held' = held

theorem watchedFailEntry_owns (held : Multiset CtxHandle) (st : KtState) :
    WatchOwns (held + inMemory st.retEntry.memory) (watchedFailEntry st) (ReadHeld held) := by
  refine .quiet (fun _ => rfl) fun _ hrealm => unwatched_owns ?_
  exact (kerberosFreeEntry_owns st.retEntry hrealm held).bind fun _ held' hheld => .ret hheld

/-- The holes are passed over without memory. -/
theorem watchedSizeLoop_owns (held : Multiset CtxHandle) : ∀ (rounds : Nat) (keypos : UInt32)
    (size : Int32), WatchOwns held (watchedSizeLoop buf rounds keypos size) fun _ held' => held' = held
  | 0, _, _ => trivial
  | rounds + 1, keypos, size => by
    unfold watchedSizeLoop
    rcases kerberosRead buf 4 1 keypos with ⟨_ | bytes, startPos⟩
    · exact .ret rfl
    · dsimp only
      split
      · split
        · exact .ret rfl
        · refine .quiet (fun _ => rfl) fun _ _ => ?_
          split
          · exact .quiet (fun _ => rfl) fun _ _ => .ret rfl
          · exact watchedSizeLoop_owns held rounds _ _
      · exact .ret rfl

/-- **One entry**: it holds its memory where it is accepted, and nothing is held where it is not,
if it is not given up after its realm. -/
theorem watchedReadEntry_owns (buf : Bytes) (held : Multiset CtxHandle) (keypos : UInt32) :
    WatchOwns held (watchedReadEntry buf keypos) (ReadHeld held) := by
  unfold watchedReadEntry watchedReadEntrySize
  refine (watchedSizeLoop_owns held _ keypos 0).bind fun r held' hheld => ?_
  subst hheld
  obtain ⟨error, size, startPos⟩ := r
  dsimp only
  split
  · exact .ret rfl
  · refine (unwatched_owns (kerberosReadEntryContent_owns buf _ startPos)).bind
      fun content held' hcontent => ?_
    obtain ⟨rfl, hsome⟩ := hcontent
    obtain ⟨hprincipal, hcontents⟩ := vno32_memory buf startPos size content.2
    have hmemory : (readVno32 buf startPos size content.2).2.retEntry.memory =
        content.2.retEntry.memory := by
      unfold KeytabEntry.memory
      rw [hprincipal, hcontents]
    split
    · exact watchedFailEntry_owns _ _
    next hok =>
      obtain ⟨hok, -⟩ := not_or.mp hok
      rw [← hmemory]
      split
      · exact watchedFailEntry_owns _ _
      · split
        · exact watchedFailEntry_owns _ _
        · refine .quiet (fun _ => rfl) fun _ _ => .ret ⟨rfl, ?_⟩
          show (readVno32 buf startPos size content.2).2.retEntry.principal ≠ none
          rw [hprincipal]
          exact hsome (not_not.mp hok)

end CdfCrypto.Kerberos
