import CdfCrypto.Kerberos.KeytabRealms
import Mathlib.Data.Multiset.OrderedMonoid

/-!
# What a context holds

Each field of a context stands for a handle, and the entry for its memory: `KrbCtx.holdings`.
An `Init` that starts from nothing ends holding what its fields say, or nothing where it fails,
and a `Destroy` gives back what a context holds (`ctxStep_held`). A call of the library uses the
handles it is given, and only what is held can be used. So in every run in which no call does one
of five things, all that was acquired is held by a field or has been given back, once, and the
process does not come to an end (`run_owned`): an `Init` of a context that holds something
overwrites it, one with a name that is too long leaves the context and the principal, one whose
keytab loses a realm keeps that, one that gets no credentials cache destroys a null one, and
`KerberosUninit` leaves the entry.
-/

namespace CdfCrypto.Kerberos

open Lib

/-! ## Handles -/

/-- A handle that is there. -/
def there {η : Type} (kind : Handle → η) (handle : Option Handle) : List η := handle.toList.map kind

/-- What a call of a context does with handles: it uses those it is given, and acquires or releases
one. -/
def ctxDeeds : CtxEvent → List (Deed CtxHandle)
  | ⟨.read call, r⟩ => watchDeeds ⟨call, r⟩
  | ⟨.setenv _ _, _⟩ => []
  | ⟨.krb5InitContext, made⟩ => (there .context made).map .acquired
  | ⟨.krb5FreeContext context, _⟩ => [.context context].map .released
  | ⟨.krb5ParseName context _, made⟩ =>
    lent (there .context context) ++ (there .principal made).map .acquired
  | ⟨.krb5FreePrincipal context principal, _⟩ =>
    lent (there .context context) ++ [.principal principal].map .released
  | ⟨.krb5PrincipalCompare context principal entry, _⟩ =>
    lent (there .context context ++ (there .principal principal ++
      (principalMemory entry).map .memory))
  | ⟨.krb5KtResolve context _, made⟩ =>
    lent (there .context context) ++ (there .keytab made).map .acquired
  | ⟨.krb5KtClose context keytab, _⟩ =>
    lent (there .context context) ++ [.keytab keytab].map .released
  | ⟨.krb5KtAddEntry context keytab entry, _⟩ =>
    lent (there .context context ++ (there .keytab keytab ++ entry.memory.map .memory))
  | ⟨.krb5KtRemoveEntry context keytab entry, _⟩ =>
    lent (there .context context ++ ([.keytab keytab] ++ entry.memory.map .memory))
  | ⟨.krb5KtFreeEntry context entry, _⟩ =>
    lent (there .context context) ++ (entry.memory.map .memory).map .released
  | ⟨.krb5CcDefault context, made⟩ =>
    lent (there .context context) ++ (there .ccache made).map .acquired
  | ⟨.krb5CcInitialize context ccache principal, _⟩ =>
    lent (there .context context ++ (there .ccache ccache ++ there .principal principal))
  | ⟨.krb5CcStoreCred context ccache, _⟩ => lent (there .context context ++ there .ccache ccache)
  | ⟨.krb5CcDestroy context ccache, _⟩ =>
    lent (there .context context) ++ [.ccache ccache].map .released
  | ⟨.krb5GetInitCredsOptAlloc context, made⟩ =>
    lent (there .context context) ++ (there .opts made).map .acquired
  | ⟨.krb5GetInitCredsOptFree context opts, _⟩ =>
    lent (there .context context) ++ [.opts opts].map .released
  | ⟨.krb5GetInitCredsKeytab context principal keytab opts, _⟩ =>
    lent (there .context context ++ (there .principal principal ++
      (there .keytab keytab ++ there .opts opts)))
  | ⟨.krb5FreeCredContents context, _⟩ => lent (there .context context)

/-- No entry is given up after its realm, and there is a credentials cache. -/
def CtxKept : CtxEvent → Prop
  | ⟨.read call, r⟩ => NoRealmLost ⟨call, r⟩
  | ⟨.krb5CcDefault _, ccache⟩ => ccache ≠ none
  | _ => True

/-- A program of a context, by what it holds, and by the faults that it comes to. -/
abbrev CtxBooks {α : Type} (B : KtFault → Prop) (held : Multiset CtxHandle) (p : Ctx α)
    (Q : α → Multiset CtxHandle → Prop) : Prop := OwningIf CtxKept B ctxDeeds held p Q

/-- One with a search in it. -/
abbrev CtxOwns {α : Type} (held : Multiset CtxHandle) (p : Ctx α)
    (Q : α → Multiset CtxHandle → Prop) : Prop := CtxBooks KtFault.GoesOn held p Q

/-- What an entry holds that is told by its principal. -/
def KeytabEntry.kept (entry : KeytabEntry) : Multiset CtxHandle :=
  if entry.principal = none then 0 else inMemory entry.memory

/-- What a field holds. -/
def ofField (kind : Handle → CtxHandle) (field : Option Handle) : Multiset CtxHandle :=
  (there kind field : Multiset CtxHandle)

@[simp] theorem ofField_none (kind : Handle → CtxHandle) : ofField kind none = 0 := rfl

/-- What a context holds. -/
def KrbCtx.holdings (s : KrbCtx) : Multiset CtxHandle :=
  ofField .context s.krb5Context + ofField .principal s.principal + s.keytabEntry.kept +
    ofField .keytab s.keytab + ofField .ccache s.ccache + ofField .opts s.opts

/-! One field at a time. -/

theorem holdings_keytab (s : KrbCtx) :
    s.holdings = { s with keytab := none }.holdings + ofField .keytab s.keytab := by
  unfold KrbCtx.holdings
  simp only [ofField_none]
  abel

theorem holdings_ccache (s : KrbCtx) :
    s.holdings = { s with ccache := none }.holdings + ofField .ccache s.ccache := by
  unfold KrbCtx.holdings
  simp only [ofField_none]
  abel

theorem holdings_opts (s : KrbCtx) :
    s.holdings = { s with opts := none }.holdings + ofField .opts s.opts := by
  unfold KrbCtx.holdings
  simp only [ofField_none, add_zero]

variable {buf : Bytes} {held : Multiset CtxHandle} {B : KtFault → Prop}

/-! What a call uses is held. -/

section Uses

theorem uses_field {kind : Handle → CtxHandle} {field : Option Handle}
    (hfield : ofField kind field ≤ held) : ∀ h ∈ there kind field, h ∈ held :=
  fun _ hmem => Multiset.mem_of_le hfield (Multiset.mem_coe.mpr hmem)

theorem uses_memory {addrs : List Nat} (hmemory : inMemory addrs ≤ held) :
    ∀ h ∈ addrs.map CtxHandle.memory, h ∈ held :=
  fun _ hmem => Multiset.mem_of_le hmemory (Multiset.mem_coe.mpr hmem)

end Uses

section Fields

variable (s : KrbCtx)

theorem le_context : ofField .context s.krb5Context ≤ s.holdings := by
  unfold KrbCtx.holdings
  simp only [add_assoc]
  exact le_self_add

theorem le_principal : ofField .principal s.principal ≤ s.holdings := by
  unfold KrbCtx.holdings
  simp only [add_assoc]
  exact le_add_left le_self_add

theorem le_kept : s.keytabEntry.kept ≤ s.holdings := by
  unfold KrbCtx.holdings
  simp only [add_assoc]
  exact le_add_left (le_add_left le_self_add)

theorem le_keytab : ofField .keytab s.keytab ≤ s.holdings := by
  rw [holdings_keytab]
  exact le_add_self

theorem le_ccache : ofField .ccache s.ccache ≤ s.holdings := by
  rw [holdings_ccache]
  exact le_add_self

theorem le_opts : ofField .opts s.opts ≤ s.holdings := by
  rw [holdings_opts]
  exact le_add_self

end Fields

/-! ## The entry of a keytab -/

/-- The current entry of a search: without a principal it is the empty one, and it is found or has
none. -/
def Settled (curEntry : KeytabEntry) (find : Bool) : Prop :=
  (curEntry.principal = none → curEntry.memory = []) ∧ (find = false → curEntry.principal = none)

theorem Settled.kept {curEntry : KeytabEntry} {find : Bool} (h : Settled curEntry find) :
    inMemory curEntry.memory = curEntry.kept := by
  unfold KeytabEntry.kept
  split
  next hnone => rw [h.1 hnone, inMemory_nil]
  · rfl

theorem settled_of_principal {entry : KeytabEntry} (h : entry.principal ≠ none) :
    Settled entry true := ⟨fun hnone => absurd hnone h, nofun⟩

/-- An entry is given back, in a context that is held. -/
theorem ktFreeEntry_owns {α : Type} {before : Multiset CtxHandle} {krb5Context : Option Handle}
    {entry : KeytabEntry} {f : Unit → Ctx α} {Q : α → Multiset CtxHandle → Prop}
    (hctx : ofField .context krb5Context ≤ held)
    (hheld : before = held + inMemory entry.memory) (hf : CtxBooks B held (f ()) Q) :
    CtxBooks B before (.perform (CtxCall.krb5KtFreeEntry krb5Context entry) >>= f) Q :=
  OwningIf.release (entry.memory.map .memory) (fun _ => rfl)
    (uses_field (hheld ▸ le_add_right hctx)) hheld fun _ => hf

theorem kerberosCompareEntry_owns {krb5Context : Option Handle}
    (hctx : ofField .context krb5Context ≤ held) (kvno : UInt32)
    {curEntry newEntry : KeytabEntry} {find : Bool} (hcur : Settled curEntry find)
    (hnew : newEntry.principal ≠ none) :
    CtxOwns (held + inMemory curEntry.memory + inMemory newEntry.memory)
      (kerberosCompareEntry krb5Context kvno curEntry newEntry find) fun r held' =>
        held' = held + inMemory r.2.1.memory ∧ Settled r.2.1 r.2.2 := by
  have hswap : held + inMemory curEntry.memory + inMemory newEntry.memory =
      held + inMemory newEntry.memory + inMemory curEntry.memory := by abel
  unfold kerberosCompareEntry
  split
  · split
    · exact ktFreeEntry_owns (le_add_right hctx) hswap (.ret ⟨rfl, settled_of_principal hnew⟩)
    · exact ktFreeEntry_owns (le_add_right hctx) rfl (.ret ⟨rfl, hcur⟩)
  · split
    · exact ktFreeEntry_owns (le_add_right hctx) hswap (.ret ⟨rfl, settled_of_principal hnew⟩)
    · split
      next hempty =>
        refine .ret ⟨?_, settled_of_principal hnew⟩
        rw [hcur.1 hempty.2, inMemory_nil, add_zero]
      · exact ktFreeEntry_owns (le_add_right hctx) rfl (.ret ⟨rfl, hcur⟩)

theorem le_principalMemory (entry : KeytabEntry) :
    inMemory (principalMemory entry.principal) ≤ inMemory entry.memory := by
  unfold KeytabEntry.memory
  rw [inMemory_append]
  exact le_self_add

/-- **The search holds its current entry**, and no other. -/
theorem getEntryLoop_owns {krb5Context principal : Option Handle} (kvno : UInt32) (enctype : Int32)
    (hctx : ofField .context krb5Context ≤ held) (hprincipal : ofField .principal principal ≤ held) :
    ∀ (rounds : Nat) (pos : UInt32) (curEntry : KeytabEntry) (find : Bool), Settled curEntry find →
      CtxOwns (held + inMemory curEntry.memory)
        (getEntryLoop krb5Context principal buf kvno enctype rounds pos curEntry find)
          fun r held' => held' = held + inMemory r.1.memory ∧ Settled r.1 r.2
  | 0, _, _, _, _ => trivial
  | rounds + 1, pos, curEntry, find, hcur => by
    have hread : CtxOwns (held + inMemory curEntry.memory)
        ((watchedReadEntry buf pos).within CtxCall.read)
        (ReadHeld (held + inMemory curEntry.memory)) :=
      OwningIf.within (A := CtxKept) (watchedReadEntry_owns buf _ pos)
    unfold getEntryLoop
    refine hread.bind fun entry held' hentry => ?_
    unfold ReadHeld at hentry
    split
    next hnone =>
      rw [if_neg hnone] at hentry
      exact .ret ⟨hentry, hcur⟩
    next hsome =>
      rw [if_pos (not_not.mp hsome)] at hentry
      obtain ⟨rfl, hnew⟩ := hentry
      refine .lend (fun _ => rfl) ?_ fun same _ => ?_
      · refine List.forall_mem_append.mpr ⟨?_, List.forall_mem_append.mpr ⟨?_, ?_⟩⟩
        · exact uses_field (le_add_right (le_add_right hctx))
        · exact uses_field (le_add_right (le_add_right hprincipal))
        · exact uses_memory (le_add_left (le_principalMemory _))
      split
      · exact ktFreeEntry_owns (le_add_right hctx) rfl
          (getEntryLoop_owns kvno enctype hctx hprincipal rounds _ _ _ hcur)
      · refine (kerberosCompareEntry_owns hctx kvno hcur hnew).bind fun compared held' hcompared => ?_
        obtain ⟨rfl, hsettled⟩ := hcompared
        split
        · exact .ret ⟨rfl, hsettled⟩
        · exact getEntryLoop_owns kvno enctype hctx hprincipal rounds _ _ _ hsettled

/-- What `KerberosGetEntry` ends with: the entry, and none where it fails. An entry that has been
found has no memory but what its principal tells of. -/
theorem kerberosGetEntry_owns (rounds : Nat) {krb5Context principal : Option Handle}
    (hctx : ofField .context krb5Context ≤ held) (hprincipal : ofField .principal principal ≤ held)
    (kvno : UInt32) (enctype : Int32) {entry : KeytabEntry} (hentry : entry.principal = none) :
    CtxOwns held (kerberosGetEntry rounds krb5Context principal buf kvno enctype entry)
      fun r held' => held' = held + r.2.kept ∧ (r.1.mResult ≠ 0 → r.2.principal = none) ∧
        (r.1.mResult = 0 → inMemory r.2.memory = r.2.kept) := by
  unfold kerberosGetEntry
  split
  · refine .ret ⟨?_, fun _ => hentry, fun hfound =>
      absurd hfound (show (1 : UInt32) ≠ 0 by decide)⟩
    unfold KeytabEntry.kept
    rw [if_pos hentry, add_zero]
  · have hempty : held = held + inMemory ({} : KeytabEntry).memory := (add_zero held).symm
    have hloop := fun pos => @getEntryLoop_owns buf held _ _ kvno enctype hctx hprincipal rounds
      pos {} false ⟨fun _ => rfl, fun _ => rfl⟩
    rw [← hempty] at hloop
    refine (hloop _).bind fun got held' hgot => ?_
    obtain ⟨rfl, hsettled⟩ := hgot
    refine .ret ⟨?_, fun hfailed => ?_, fun _ => hsettled.kept⟩
    · rw [hsettled.kept]
    · cases hfind : got.2 with
      | false => exact hsettled.2 hfind
      | true =>
        rw [hfind] at hfailed
        exact absurd rfl hfailed

/-! ## The operations -/

/-- What is released if it is held. -/
theorem whenHeld_owns (kind : Handle → CtxHandle) (field : Option Handle)
    {release : Handle → Ctx Unit} (hrelease : ∀ handle, CtxBooks B (held + ofField kind (some handle))
      (release handle) fun _ held' => held' = held) :
    CtxBooks B (held + ofField kind field) (whenHeld field release) fun _ held' => held' = held := by
  cases field with
  | none => exact .ret (add_zero held)
  | some handle => exact hrelease handle

/-- Only the entry is left of a context. -/
def KrbCtx.entryOnly (s : KrbCtx) : KrbCtx := { keytabEntry := s.keytabEntry }

theorem holdings_entryOnly (s : KrbCtx) : s.entryOnly.holdings = s.keytabEntry.kept := by
  unfold KrbCtx.holdings KrbCtx.entryOnly
  simp only [ofField_none, zero_add, add_zero]

/-- `KerberosUninit` gives back all but the entry. -/
theorem kerberosUninit_owns (s : KrbCtx) : CtxBooks B s.holdings s.kerberosUninit
    fun r held' => held' = s.keytabEntry.kept ∧ r.2 = s.entryOnly := by
  have hsplit : s.holdings = s.keytabEntry.kept + ofField .context s.krb5Context +
      ofField .opts s.opts + ofField .ccache s.ccache + ofField .keytab s.keytab +
      ofField .principal s.principal := by
    unfold KrbCtx.holdings
    abel
  have hctx : ofField .context s.krb5Context ≤
      s.keytabEntry.kept + ofField .context s.krb5Context := le_add_self
  have hlast : ∀ (call : CtxCall) (held : Multiset CtxHandle) (hs : List CtxHandle),
      ofField .context s.krb5Context ≤ held →
      (∀ r, ctxDeeds ⟨call, r⟩ = lent (there .context s.krb5Context) ++ hs.map .released) →
      CtxBooks B (held + (hs : Multiset CtxHandle)) (.perform call) fun _ held' => held' = held :=
    fun call held hs hctx hdeeds => OwningIf.release_last hs hdeeds (uses_field (le_add_right hctx))
  unfold KrbCtx.kerberosUninit
  rw [hsplit]
  refine (whenHeld_owns .principal s.principal fun _ => hlast _ _ _ (le_add_right (le_add_right
    (le_add_right hctx))) fun _ => rfl).bind fun _ held₁ hheld₁ => ?_
  subst hheld₁
  refine (whenHeld_owns .keytab s.keytab fun _ => hlast _ _ _ (le_add_right (le_add_right hctx))
    fun _ => rfl).bind fun _ held₂ hheld₂ => ?_
  subst hheld₂
  refine (whenHeld_owns .ccache s.ccache fun _ => hlast _ _ _ (le_add_right hctx)
    fun _ => rfl).bind fun _ held₃ hheld₃ => ?_
  subst hheld₃
  refine (whenHeld_owns .opts s.opts fun _ => hlast _ _ _ hctx fun _ => rfl).bind
    fun _ held₄ hheld₄ => ?_
  subst hheld₄
  refine (whenHeld_owns .context s.krb5Context fun context => ?_).bind fun _ held₅ hheld₅ => ?_
  · exact OwningIf.release_last [CtxHandle.context context] (fun _ => rfl) (List.forall_mem_nil _)
  · exact .ret ⟨hheld₅, rfl⟩

theorem uninitWith_owns (result : KrbResult) (s : KrbCtx) : CtxBooks B s.holdings
    (s.uninitWith result) fun r held' => held' = s.keytabEntry.kept ∧ r = (result, s.entryOnly) := by
  refine (kerberosUninit_owns s).bind fun uninited held' hheld => .ret ⟨hheld.1, ?_⟩
  rw [hheld.2]

theorem kept_of_none {entry : KeytabEntry} (h : entry.principal = none) : entry.kept = 0 :=
  if_pos h

theorem kept_of_some {entry : KeytabEntry} (h : entry.principal ≠ none) :
    entry.kept = inMemory entry.memory := if_neg h

/-- An entry that is there is in a keytab that is there. -/
def KrbCtx.Filed (s : KrbCtx) : Prop := s.keytabEntry.principal ≠ none → s.keytab ≠ none

theorem KrbCtx.Filed.of_none {s : KrbCtx} (h : s.keytabEntry.principal = none) : s.Filed :=
  fun hsome => absurd h hsome

/-- The keytab is closed, in a context that is held. -/
theorem closeKeytab_owns (s : KrbCtx) : CtxBooks B s.holdings
    (whenHeld s.keytab fun keytab => .perform (CtxCall.krb5KtClose s.krb5Context keytab))
      fun _ held' => held' = { s with keytab := none }.holdings := by
  rw [holdings_keytab]
  refine whenHeld_owns .keytab s.keytab fun keytab => ?_
  exact OwningIf.release_last [CtxHandle.keytab keytab] (fun _ => rfl)
    (uses_field (le_add_right (le_context { s with keytab := none })))

theorem removeEntry_owns {s : KrbCtx} (hs : s.Filed) : CtxBooks B s.holdings s.removeEntry
    fun s' held' => held' = s'.holdings ∧ s'.keytabEntry.principal = none := by
  unfold KrbCtx.removeEntry
  split
  next hsome =>
    obtain ⟨context, principal, entry, _ | keytab, ccache, opts⟩ := s
    · exact absurd rfl (hs hsome)
    have hkept : entry.kept = inMemory entry.memory := kept_of_some hsome
    have hmemory := le_kept ⟨context, principal, entry, some keytab, ccache, opts⟩
    have hkeytab := le_keytab ⟨context, principal, entry, some keytab, ccache, opts⟩
    rw [hkept] at hmemory
    refine .lend (fun _ => rfl) ?_ fun _ _ => ?_
    · exact List.forall_mem_append.mpr ⟨uses_field (le_context _),
        List.forall_mem_append.mpr ⟨uses_field hkeytab, uses_memory hmemory⟩⟩
    refine ktFreeEntry_owns ?_ ?_ (.ret ⟨rfl, rfl⟩)
    · exact le_context _
    · unfold KrbCtx.holdings
      rw [hkept, kept_of_none rfl]
      abel
  next hnone => exact .ret ⟨rfl, not_not.mp hnone⟩

/-- `KerberosDestroyKeytab` gives back whatever a context holds. -/
theorem kerberosDestroyKeytab_owns {s : KrbCtx} (hs : s.Filed) :
    CtxBooks B s.holdings s.kerberosDestroyKeytab fun r held' => held' = 0 ∧ r.2.holdings = 0 := by
  unfold KrbCtx.kerberosDestroyKeytab
  refine (removeEntry_owns hs).bind fun s' held' hs' => ?_
  obtain ⟨rfl, hnone⟩ := hs'
  refine (closeKeytab_owns s').bind fun _ held' hheld => ?_
  subst hheld
  refine (uninitWith_owns _ _).mono fun r held' hr => ?_
  obtain ⟨rfl, rfl⟩ := hr
  have hkept : s'.keytabEntry.kept = 0 := kept_of_none hnone
  exact ⟨hkept, (holdings_entryOnly _).trans hkept⟩

theorem destroyWith_owns (result : KrbResult) {s : KrbCtx} (hs : s.Filed) : CtxBooks B s.holdings
    (s.destroyWith result) fun r held' => held' = 0 ∧ r.1 = result ∧ r.2.holdings = 0 :=
  (kerberosDestroyKeytab_owns hs).bind fun _ _ hheld => .ret ⟨hheld.1, rfl, hheld.2⟩

/-- So does `KerberosDestroyCCache`. -/
theorem kerberosDestroyCCache_owns {s : KrbCtx} (hs : s.Filed) :
    CtxBooks B s.holdings s.kerberosDestroyCCache fun r held' => held' = 0 ∧ r.2.holdings = 0 := by
  unfold KrbCtx.kerberosDestroyCCache
  rw [holdings_opts]
  refine (whenHeld_owns .opts s.opts fun opts => ?_).bind fun _ held' hheld => ?_
  · exact OwningIf.release_last [CtxHandle.opts opts] (fun _ => rfl)
      (uses_field (le_add_right (le_context { s with opts := none })))
  · subst hheld
    have hfiled : KrbCtx.Filed { s with opts := none } := hs
    exact (destroyWith_owns _ hfiled).mono fun r held' hr => ⟨hr.1, hr.2.2⟩

/-! ### From nothing -/

theorem ofField_eq_zero {kind : Handle → CtxHandle} {field : Option Handle}
    (h : ofField kind field = 0) : field = none := by
  cases field with
  | none => rfl
  | some handle => cases (congrArg Multiset.card h : 1 = 0)

theorem kept_eq_zero {entry : KeytabEntry} (h : entry.kept = 0) : entry.principal = none := by
  by_contra hsome
  obtain ⟨p, hp⟩ := Option.ne_none_iff_exists'.mp hsome
  have hcard := congrArg Multiset.card h
  unfold KeytabEntry.kept KeytabEntry.memory inMemory at hcard
  rw [if_neg hsome, hp] at hcard
  simp only [principalMemory, Krb5Principal.memory, Multiset.coe_card, List.length_map,
    List.length_append, List.length_cons, Multiset.card_zero] at hcard
  omega

/-- A context that holds nothing. -/
theorem eq_entryOnly {s : KrbCtx} (h : s.holdings = 0) :
    s = s.entryOnly ∧ s.keytabEntry.principal = none := by
  have hcard := congrArg Multiset.card h
  unfold KrbCtx.holdings at hcard
  simp only [Multiset.card_add, Multiset.card_zero] at hcard
  have hzero : ∀ {part : Multiset CtxHandle}, part.card = 0 → part = 0 := Multiset.card_eq_zero.mp
  have hcontext := ofField_eq_zero (hzero (show (ofField .context s.krb5Context).card = 0 by omega))
  have hprincipal := ofField_eq_zero (hzero (show (ofField .principal s.principal).card = 0 by omega))
  have hkeytab := ofField_eq_zero (hzero (show (ofField .keytab s.keytab).card = 0 by omega))
  have hccache := ofField_eq_zero (hzero (show (ofField .ccache s.ccache).card = 0 by omega))
  have hopts := ofField_eq_zero (hzero (show (ofField .opts s.opts).card = 0 by omega))
  have hentry := kept_eq_zero (hzero (show s.keytabEntry.kept.card = 0 by omega))
  obtain ⟨context, principal, entry, keytab, ccache, opts⟩ := s
  subst hcontext hprincipal hkeytab hccache hopts
  exact ⟨rfl, hentry⟩

/-- What an `Init` ends with: what its fields say, or nothing where it fails. -/
def InitHeld (P : KrbCtx → Prop) (r : KrbResult × KrbCtx) (held' : Multiset CtxHandle) : Prop :=
  if r.1.mResult = 0 then held' = r.2.holdings ∧ P r.2 else held' = 0 ∧ r.2.holdings = 0

section InitHeld

variable {P P' : KrbCtx → Prop} {result : KrbResult} {s : KrbCtx} {before : Multiset CtxHandle}

theorem InitHeld.of_failed {r : KrbResult × KrbCtx} (h : InitHeld P r held)
    (hfailed : r.1.mResult ≠ 0) : InitHeld P' r held := by
  unfold InitHeld at h ⊢
  rw [if_neg hfailed] at h ⊢
  exact h

theorem InitHeld.of_ok {r : KrbResult × KrbCtx} (h : InitHeld P r held) (hok : r.1.mResult = 0) :
    held = r.2.holdings ∧ P r.2 := by
  unfold InitHeld at h
  rw [if_pos hok] at h
  exact h

theorem ret_initHeld (hok : result.mResult = 0) (hheld : before = s.holdings) (hs : P s) :
    CtxOwns before (.ret (result, s)) (InitHeld P) := by
  refine OwningIf.ret ?_
  unfold InitHeld
  rw [if_pos hok]
  exact ⟨hheld, hs⟩

/-- A failure that ends in `KerberosUninit`, where no entry is held. -/
theorem uninitWith_initHeld (hfailed : result.mResult ≠ 0) (hentry : s.keytabEntry.principal = none)
    (hheld : before = s.holdings) : CtxOwns before (s.uninitWith result) (InitHeld P) := by
  subst hheld
  refine (uninitWith_owns result s).mono fun r held' hr => ?_
  obtain ⟨rfl, rfl⟩ := hr
  have hnone := kept_of_none hentry
  unfold InitHeld
  rw [if_neg hfailed]
  exact ⟨hnone, (holdings_entryOnly s).trans hnone⟩

/-- A failure that ends in `KerberosDestroyKeytab`. -/
theorem destroyWith_initHeld (hfailed : result.mResult ≠ 0) (hs : s.Filed)
    (hheld : before = s.holdings) : CtxOwns before (s.destroyWith result) (InitHeld P) := by
  subst hheld
  refine (destroyWith_owns result hs).mono fun r held' hr => ?_
  obtain ⟨rfl, rfl, hnothing⟩ := hr
  unfold InitHeld
  rw [if_neg hfailed]
  exact ⟨rfl, hnothing⟩

end InitHeld

/-- What a context holds that has no entry. -/
theorem holdings_of_none {context principal : Option Handle} {entry : KeytabEntry}
    {keytab ccache opts : Option Handle} (hentry : entry.principal = none) :
    (KrbCtx.mk context principal entry keytab ccache opts).holdings =
      ofField .context context + ofField .principal principal + ofField .keytab keytab +
        ofField .ccache ccache + ofField .opts opts := by
  unfold KrbCtx.holdings
  rw [kept_of_none hentry, add_zero]

/-- A context that has been inited, and holds nothing else. -/
def Inited (entry : KeytabEntry) (s : KrbCtx) : Prop := ∃ context principal,
  s = { krb5Context := some context, principal := some principal, keytabEntry := entry }

/-- `KerberosInit` of a context that holds nothing. -/
theorem kerberosInit_owns {entry : KeytabEntry} (hentry : entry.principal = none)
    (inPrincipal : Bytes) : CtxOwns 0 (KrbCtx.kerberosInit { keytabEntry := entry } inPrincipal)
      (InitHeld (Inited entry)) := by
  unfold KrbCtx.kerberosInit
  refine .acquire (there .context) (fun _ => rfl) (List.forall_mem_nil _) fun context _ => ?_
  cases context with
  | none =>
    refine uninitWith_initHeld (by decide) hentry ?_
    rw [holdings_of_none hentry]
    rfl
  | some context =>
    refine .acquire (there .principal) (fun _ => rfl) (uses_field le_add_self) fun principal _ => ?_
    cases principal with
    | none =>
      refine uninitWith_initHeld (by decide) hentry ?_
      rw [holdings_of_none hentry]
      simp only [ofField_none, add_zero]
      exact (add_zero _).trans (zero_add _)
    | some principal =>
      refine ret_initHeld rfl ?_ ⟨context, principal, rfl⟩
      rw [holdings_of_none hentry]
      simp only [ofField_none, add_zero]
      exact congrArg (· + _) (zero_add _)

/-- A context with a keytab and its entry, and no credentials. -/
def WithKeytab (s : KrbCtx) : Prop := s.keytab ≠ none ∧ s.ccache = none ∧ s.opts = none

/-- The keytab is closed and the rest given back. -/
theorem closeKeytab_initHeld {P : KrbCtx → Prop} {result : KrbResult} {s : KrbCtx}
    {before : Multiset CtxHandle} (keytab : Handle) (hfailed : result.mResult ≠ 0)
    (hentry : s.keytabEntry.principal = none) (hheld : before = s.holdings)
    (hkeytab : s.keytab = some keytab) :
    CtxOwns before (Prog.perform (CtxCall.krb5KtClose s.krb5Context keytab) >>= fun _ =>
      KrbCtx.uninitWith result { s with keytab := none }) (InitHeld P) := by
  refine OwningIf.release [CtxHandle.keytab keytab] (fun _ => rfl)
    (uses_field (hheld ▸ le_context s)) ?_ fun _ => uninitWith_initHeld hfailed hentry rfl
  rw [hheld, holdings_keytab, hkeytab]
  rfl

/-- From the resolved keytab on. -/
theorem takeEntry_owns (rounds : Nat) {context principal keytab : Handle} {entry : KeytabEntry}
    (hentry : entry.principal = none) (keytabValue : Bytes) :
    CtxOwns (ofField .context (some context) + ofField .principal (some principal) +
        ofField .keytab (some keytab))
      (KrbCtx.takeEntry rounds ⟨some context, some principal, entry, some keytab, none, none⟩ keytab
        keytabValue) (InitHeld WithKeytab) := by
  unfold KrbCtx.takeEntry
  refine (kerberosGetEntry_owns rounds (le_add_right le_self_add) (le_add_right le_add_self) 0 0
    hentry).bind fun got held' hgot => ?_
  obtain ⟨rfl, hnone, hsome⟩ := hgot
  have hheld : ofField .context (some context) + ofField .principal (some principal) +
      ofField .keytab (some keytab) + got.2.kept = (KrbCtx.mk (some context) (some principal) got.2
        (some keytab) none none).holdings := by
    unfold KrbCtx.holdings
    simp only [ofField_none, add_zero]
    abel
  split
  next hfailed => exact closeKeytab_initHeld keytab hfailed (hnone hfailed) hheld rfl
  next hok =>
    have hmemory := le_kept ⟨some context, some principal, got.2, some keytab, none, none⟩
    rw [← hsome (not_not.mp hok)] at hmemory
    rw [hheld]
    refine .lend (fun _ => rfl) ?_ fun added _ => ?_
    · exact List.forall_mem_append.mpr ⟨uses_field (le_context _),
        List.forall_mem_append.mpr ⟨uses_field (le_keytab _), uses_memory hmemory⟩⟩
    rw [← hheld]
    split
    · refine ktFreeEntry_owns ?_ ?_ (closeKeytab_initHeld keytab (by decide) rfl rfl rfl)
      · exact le_context _
      · rw [hsome (not_not.mp hok), holdings_of_none rfl]
        simp only [ofField_none, add_zero]
    · exact ret_initHeld rfl hheld ⟨Option.some_ne_none keytab, rfl, rfl⟩

variable {s : KrbCtx} {maxKeytabNameLen rounds : Nat}
variable {keytabValue inPrincipal memoryKeytabName inkrb5ccname : Bytes}

/-- `KerberosInitKeytab` of a context that holds nothing, with a name that is not too long. -/
theorem kerberosInitKeytab_owns (hs : s.holdings = 0)
    (hname : memoryKeytabName.length ≤ maxKeytabNameLen) :
    CtxOwns 0 (s.kerberosInitKeytab maxKeytabNameLen rounds keytabValue inPrincipal
      memoryKeytabName) (InitHeld WithKeytab) := by
  obtain ⟨heq, hentry⟩ := eq_entryOnly hs
  rw [heq]
  unfold KrbCtx.kerberosInitKeytab
  refine (kerberosInit_owns hentry inPrincipal).bind fun ar held' har => ?_
  split
  next hfailed => exact .ret (har.of_failed hfailed)
  next hok =>
    obtain ⟨rfl, context, principal, hinited⟩ := har.of_ok (not_not.mp hok)
    rw [if_neg (by omega), hinited]
    refine .quiet (fun _ => rfl) fun set _ => ?_
    split
    · exact uninitWith_initHeld (by decide) hentry rfl
    · refine .acquire (there .keytab) (fun _ => rfl) (uses_field (le_context _)) fun keytab _ => ?_
      cases keytab with
      | none => exact uninitWith_initHeld (by decide) hentry (add_zero _)
      | some keytab =>
        have hheld : (KrbCtx.mk (some context) (some principal) s.keytabEntry none none none).holdings =
            ofField .context (some context) + ofField .principal (some principal) := by
          rw [holdings_of_none hentry]
          simp only [ofField_none, add_zero]
        rw [hheld]
        exact takeEntry_owns rounds hentry keytabValue

/-- Nothing is kept of the credentials themselves. -/
theorem obtainKerberosCredentials_owns (s : KrbCtx) :
    CtxOwns s.holdings s.obtainKerberosCredentials fun _ held' => held' = s.holdings := by
  have hctx := uses_field (le_context s)
  have hprincipal := uses_field (le_principal s)
  have hccache := uses_field (le_ccache s)
  unfold KrbCtx.obtainKerberosCredentials
  refine .lend (fun _ => rfl) ?_ fun rc _ => ?_
  · exact List.forall_mem_append.mpr ⟨hctx, List.forall_mem_append.mpr ⟨hprincipal,
      List.forall_mem_append.mpr ⟨uses_field (le_keytab s), uses_field (le_opts s)⟩⟩⟩
  split
  · exact .lend (fun _ => rfl) hctx fun _ _ => .ret rfl
  · refine .lend (fun _ => rfl) ?_ fun inited _ => ?_
    · exact List.forall_mem_append.mpr ⟨hctx, List.forall_mem_append.mpr ⟨hccache, hprincipal⟩⟩
    split
    · exact .lend (fun _ => rfl) hctx fun _ _ => .ret rfl
    · refine .lend (fun _ => rfl) (List.forall_mem_append.mpr ⟨hctx, hccache⟩) fun _ _ => ?_
      exact .lend (fun _ => rfl) hctx fun _ _ => .ret rfl

/-- `KerberosInitCCache` of a context that holds nothing. A name that is too long is seen before
anything is acquired. -/
theorem kerberosInitCCache_owns (hs : s.holdings = 0) :
    CtxOwns 0 (s.kerberosInitCCache maxKeytabNameLen rounds keytabValue inPrincipal
      memoryKeytabName inkrb5ccname) (InitHeld fun s' => s'.keytab ≠ none) := by
  unfold KrbCtx.kerberosInitCCache
  split
  · exact .ret ((if_neg (show (1 : UInt32) ≠ 0 by decide)).mpr ⟨rfl, hs⟩)
  next hshort =>
    obtain ⟨hname, -⟩ := not_or.mp hshort
    refine (kerberosInitKeytab_owns hs (by omega)).bind fun ar held' har => ?_
    obtain ⟨result, context, principal, entry, keytab, ccache, opts⟩ := ar
    split
    next hfailed => exact .ret (har.of_failed hfailed)
    next hok =>
      obtain ⟨rfl, hkeytab, hccache, hopts⟩ := har.of_ok (not_not.mp hok)
      dsimp only at hccache hopts
      subst hccache hopts
      have hfiled : ∀ ccache opts,
          (KrbCtx.mk context principal entry keytab ccache opts).Filed := fun _ _ _ => hkeytab
      refine .quiet (fun _ => rfl) fun set _ => ?_
      split
      · exact destroyWith_initHeld (by decide) (hfiled none none) rfl
      · refine .acquire (there .ccache) (fun _ => rfl) (uses_field (le_context _))
          fun ccache hkept => ?_
        cases ccache with
        | none => exact absurd rfl hkept
        | some ccache =>
          refine .acquire (there .opts) (fun _ => rfl) (uses_field (le_add_right (le_context _)))
            fun opts _ => ?_
          cases opts with
          | none =>
            exact .release [.ccache ccache] (fun _ => rfl)
              (uses_field (le_add_right (le_add_right (le_context _)))) (add_zero _) fun _ =>
                destroyWith_initHeld (by decide) (hfiled none none) rfl
          | some opts =>
            have hall := holdings_opts ⟨context, principal, entry, keytab, some ccache, some opts⟩
            have hheld := (hall.trans (congrArg (· + _) (holdings_ccache _))).symm
            refine OwningIf.bind (hheld ▸ obtainKerberosCredentials_owns _)
              fun credResult held' hheld' => ?_
            subst hheld'
            split
            next hok => exact ret_initHeld hok hheld hkeytab
            next hfailed =>
              exact .release [.opts opts] (fun _ => rfl)
                (uses_field (le_add_right (le_add_right (le_context _)))) rfl fun _ =>
                  .release [.ccache ccache] (fun _ => rfl) (uses_field (le_add_right (le_context _)))
                    rfl fun _ => destroyWith_initHeld hfailed (hfiled none none) rfl

/-! ## Runs -/

/-- What can be asked of a context. -/
inductive CtxOp
  | kerberosInitKeytab (keytabValue inPrincipal memoryKeytabName : Bytes)
  | kerberosInitCCache (keytabValue inPrincipal memoryKeytabName inkrb5ccname : Bytes)
  | kerberosDestroyKeytab
  | kerberosDestroyCCache
  | kerberosUninit

def CtxOp.prog (maxKeytabNameLen rounds : Nat) (s : KrbCtx) : CtxOp → Ctx (KrbResult × KrbCtx)
  | kerberosInitKeytab keytabValue inPrincipal memoryKeytabName =>
    s.kerberosInitKeytab maxKeytabNameLen rounds keytabValue inPrincipal memoryKeytabName
  | kerberosInitCCache keytabValue inPrincipal memoryKeytabName inkrb5ccname =>
    s.kerberosInitCCache maxKeytabNameLen rounds keytabValue inPrincipal memoryKeytabName
      inkrb5ccname
  | kerberosDestroyKeytab => s.kerberosDestroyKeytab
  | kerberosDestroyCCache => s.kerberosDestroyCCache
  | kerberosUninit => s.kerberosUninit

/-- One operation, with its result, or with none where it was the end of the process. -/
structure CtxReturn where
  op : CtxOp
  rounds : Nat
  trace : List CtxEvent
  result : Option KrbResult

/-- What it did with handles. -/
def CtxReturn.deeds (l : CtxReturn) : List (Deed CtxHandle) := l.trace.flatMap ctxDeeds

/-- After an operation with this result nothing is to be held. -/
def CtxOp.GivesBack (result : KrbResult) : CtxOp → Prop
  | kerberosInitKeytab .. | kerberosInitCCache .. => result.mResult ≠ 0
  | kerberosDestroyKeytab | kerberosDestroyCCache | kerberosUninit => True

/-- One operation on a context. Where the process comes to an end, the context is as it was. -/
def CtxStep (maxKeytabNameLen : Nat) (s : KrbCtx) (l : CtxReturn) (s' : KrbCtx) : Prop :=
  match l.result with
  | some result => Traces (l.op.prog maxKeytabNameLen l.rounds s) l.trace (.ret (result, s'))
  | none => Traces (l.op.prog maxKeytabNameLen l.rounds s) l.trace (.halt .nullPointer) ∧ s' = s

/-- The operation can be called on the context as it is: an `Init` is of a context that holds
nothing and has no name that is found too long after it has begun, and `KerberosUninit` finds no
entry. -/
def CtxOp.Fits (maxKeytabNameLen : Nat) (s : KrbCtx) : CtxOp → Prop
  | kerberosInitKeytab _ _ memoryKeytabName =>
    s.holdings = 0 ∧ memoryKeytabName.length ≤ maxKeytabNameLen
  | kerberosInitCCache .. => s.holdings = 0
  | kerberosDestroyKeytab | kerberosDestroyCCache => True
  | kerberosUninit => s.keytabEntry.principal = none

/-- The keytab of an `Init` loses no realm. -/
def CtxOp.RealmsKept (tr : List CtxEvent) : CtxOp → Prop
  | kerberosInitKeytab keytabValue _ _ => Kerberos.RealmsKept keytabValue tr
  | kerberosInitCCache keytabValue _ _ _ => Kerberos.RealmsKept keytabValue tr
  | kerberosDestroyKeytab | kerberosDestroyCCache | kerberosUninit => True

/-- There is a credentials cache, where one is asked for. -/
def CacheFound (tr : List CtxEvent) : Prop := ∀ context, ⟨.krb5CcDefault context, none⟩ ∉ tr

/-- None of the five things is done. -/
def Proper (maxKeytabNameLen : Nat) (s : KrbCtx) (l : CtxReturn) : Prop :=
  l.op.Fits maxKeytabNameLen s ∧ l.op.RealmsKept l.trace ∧ CacheFound l.trace

/-- What an operation leaves: what the fields say, an entry only where there is a keytab, and
nothing where nothing is to be held. -/
def OpHeld (op : CtxOp) (r : KrbResult × KrbCtx) (held : Multiset CtxHandle) : Prop :=
  held = r.2.holdings ∧ r.2.Filed ∧ (op.GivesBack r.1 → r.2.holdings = 0)

theorem KrbCtx.Filed.of_nothing {s : KrbCtx} (h : s.holdings = 0) : s.Filed :=
  .of_none (eq_entryOnly h).2

/-- An operation that fits goes from what the fields say to what the fields say. -/
theorem ctxOp_owns {op : CtxOp} (hs : s.Filed) (hfits : op.Fits maxKeytabNameLen s) :
    CtxOwns s.holdings (op.prog maxKeytabNameLen rounds s) (OpHeld op) := by
  have hinit : ∀ {P : KrbCtx → Prop} {p : Ctx (KrbResult × KrbCtx)}, s.holdings = 0 →
      (∀ s', P s' → s'.keytab ≠ none) → (∀ result, op.GivesBack result → result.mResult ≠ 0) →
      CtxOwns 0 p (InitHeld P) → CtxOwns s.holdings p (OpHeld op) := by
    intro P p hnothing hkeytab hback howns
    rw [hnothing]
    refine howns.mono fun r held' hr => ?_
    by_cases hok : r.1.mResult = 0
    · obtain ⟨rfl, hP⟩ := hr.of_ok hok
      exact ⟨rfl, fun _ => hkeytab _ hP, fun h => absurd hok (hback _ h)⟩
    · unfold InitHeld at hr
      rw [if_neg hok] at hr
      exact ⟨hr.1.trans hr.2.symm, .of_nothing hr.2, fun _ => hr.2⟩
  have hdestroy : ∀ {p : Ctx (KrbResult × KrbCtx)},
      CtxOwns s.holdings p (fun r held' => held' = 0 ∧ r.2.holdings = 0) →
      CtxOwns s.holdings p (OpHeld op) := fun howns => howns.mono fun r held' hr =>
    ⟨hr.1.trans hr.2.symm, .of_nothing hr.2, fun _ => hr.2⟩
  cases op with
  | kerberosInitKeytab keytabValue inPrincipal memoryKeytabName =>
    exact hinit hfits.1 (fun _ hP => hP.1) (fun _ h => h) (kerberosInitKeytab_owns hfits.1 hfits.2)
  | kerberosInitCCache keytabValue inPrincipal memoryKeytabName inkrb5ccname =>
    exact hinit hfits (fun _ hP => hP) (fun _ h => h) (kerberosInitCCache_owns hfits)
  | kerberosDestroyKeytab => exact hdestroy (kerberosDestroyKeytab_owns hs)
  | kerberosDestroyCCache => exact hdestroy (kerberosDestroyCCache_owns hs)
  | kerberosUninit =>
    refine hdestroy ((kerberosUninit_owns s).mono fun r held' hr => ?_)
    have hnone : s.keytabEntry.kept = 0 := kept_of_none hfits
    rw [hr.1, hr.2, holdings_entryOnly]
    exact ⟨hnone, hnone⟩

theorem ctxKept_of {ev : CtxEvent} {tr : List CtxEvent} (hrealm : RealmKept ev)
    (hcache : CacheFound tr) (hev : ev ∈ tr) : CtxKept ev := by
  obtain ⟨call, r⟩ := ev
  cases call with
  | read call => exact hrealm
  | krb5CcDefault context =>
    rintro rfl
    exact hcache context hev
  | _ => trivial

/-- What the keytab and the memory say of realms, the trace of an operation shows. -/
theorem ctxOp_kept {op : CtxOp} {tr : List CtxEvent} {o : Outcome KtFault (KrbResult × KrbCtx)}
    (htr : Traces (op.prog maxKeytabNameLen rounds s) tr o) (hends : o ≠ .halt .diverges)
    (hrealms : op.RealmsKept tr) (hcache : CacheFound tr) : ∀ ev ∈ tr, CtxKept ev := by
  have hkept : ∀ ev ∈ tr, RealmKept ev := by
    cases op with
    | kerberosInitKeytab keytabValue inPrincipal memoryKeytabName =>
      exact (wp_iff.mp (kerberosInitKeytab_spares s) tr o htr).resolve_left hends hrealms
    | kerberosInitCCache keytabValue inPrincipal memoryKeytabName inkrb5ccname =>
      exact (wp_iff.mp (kerberosInitCCache_spares s) tr o htr).resolve_left hends hrealms
    | kerberosDestroyKeytab =>
      exact wp_iff.mp (kept_ends (kerberosDestroyKeytab_ends s)) tr o htr
    | kerberosDestroyCCache =>
      exact wp_iff.mp (kept_ends (kerberosDestroyCCache_ends s)) tr o htr
    | kerberosUninit => exact wp_iff.mp (kept_ends (kerberosUninit_ends s)) tr o htr
  exact fun ev hev => ctxKept_of (hkept ev hev) hcache hev

/-- **One operation**: it comes to a result, and the books go from what the fields say to what the
fields say. -/
theorem ctxStep_held {s s' : KrbCtx} {l : CtxReturn} (hs : s.Filed)
    (hstep : CtxStep maxKeytabNameLen s l s') (hproper : Proper maxKeytabNameLen s l) :
    ∃ result, l.result = some result ∧ Run Ledger s.holdings l.deeds s'.holdings ∧ s'.Filed ∧
      (l.op.GivesBack result → s'.holdings = 0) := by
  obtain ⟨op, rounds, trace, _ | result⟩ := l
  · obtain ⟨htr, -⟩ := hstep
    have hkept := ctxOp_kept htr nofun hproper.2.1 hproper.2.2
    exact ((ctxOp_owns hs hproper.1).halted htr hkept).elim
  · have htr : Traces (op.prog maxKeytabNameLen rounds s) trace (.ret (result, s')) := hstep
    have hkept := ctxOp_kept htr nofun hproper.2.1 hproper.2.2
    obtain ⟨held', hrun, rfl, hfiled, hback⟩ := (ctxOp_owns hs hproper.1).returned htr hkept
    exact ⟨result, rfl, hrun, hfiled, hback⟩

/-- A run and what its context holds: no operation was the end of the process, nothing was used or
given back that was not held, all that was acquired is held by a field or has been given back, and
after what gives everything back, each handle has been given back as often as it was acquired. -/
def Owned (ls : List CtxReturn) (s : KrbCtx) : Prop :=
  (∀ l ∈ ls, l.result ≠ none) ∧ Run Ledger 0 (ls.flatMap CtxReturn.deeds) s.holdings ∧
    ∀ pre l result, ls = pre ++ [l] → l.result = some result → l.op.GivesBack result →
      s.holdings = 0 ∧ ∀ handle : CtxHandle,
        (ls.flatMap CtxReturn.deeds).count (.acquired handle) =
          (ls.flatMap CtxReturn.deeds).count (.released handle)

/-- The books of the run of a context from what it holds. -/
theorem run_books {s s' : KrbCtx} {ls : List CtxReturn} (hs : s.Filed)
    (hrun : Run (Guarded (Proper maxKeytabNameLen) (CtxStep maxKeytabNameLen)) s ls s') :
    (∀ l ∈ ls, l.result ≠ none) ∧ Run Ledger s.holdings (ls.flatMap CtxReturn.deeds) s'.holdings ∧
      s'.Filed := by
  induction hrun with
  | nil s => exact ⟨List.forall_mem_nil _, .nil _, hs⟩
  | cons hl _ ih =>
    obtain ⟨result, hresult, hbooks, hfiled, -⟩ := ctxStep_held hs hl.2 hl.1
    obtain ⟨hresults, hrest, hlast⟩ := ih hfiled
    rw [List.flatMap_cons, List.forall_mem_cons]
    exact ⟨⟨hresult ▸ Option.some_ne_none result, hresults⟩, hbooks.append hrest, hlast⟩

theorem filed_new : KrbCtx.Filed {} := .of_none rfl

/-- **Every proper run owns what it acquires.** -/
theorem run_owned {s : KrbCtx} {ls : List CtxReturn}
    (hrun : Run (Guarded (Proper maxKeytabNameLen) (CtxStep maxKeytabNameLen)) {} ls s) :
    Owned ls s := by
  obtain ⟨hresults, hbooks, -⟩ := run_books filed_new hrun
  have hbooks : Run Ledger 0 (ls.flatMap CtxReturn.deeds) s.holdings := hbooks
  refine ⟨hresults, hbooks, fun pre l result heq hresult hback => ?_⟩
  subst heq
  obtain ⟨t, hpre, hlast⟩ := Run.split pre [l] hrun
  have hnothing : s.holdings = 0 := by
    cases hlast with
    | cons hl hnil =>
      cases hnil
      obtain ⟨result', hresult', -, -, hgives⟩ :=
        ctxStep_held (run_books filed_new hpre).2.2 hl.2 hl.1
      obtain rfl := Option.some.inj (hresult.symm.trans hresult')
      exact hgives hback
  refine ⟨hnothing, fun handle => ?_⟩
  have hcount := books_count hbooks handle
  rw [hnothing, Multiset.count_zero] at hcount
  omega

/-- `KerberosInitCCache` of a new context, with everything granted. -/
def smallInitProg : Ctx (KrbResult × KrbCtx) :=
  KrbCtx.kerberosInitCCache 1100 40 {} smallKeytab (ascii "a@R") (ascii "MEMORY:k") (ascii "MEMORY:c")

/-- What it ends with. -/
def smallCtx : KrbCtx :=
  match smallInitProg.eval granting with
  | .ret r => r.2
  | .halt _ => {}

def smallInit : CtxReturn where
  op := .kerberosInitCCache smallKeytab (ascii "a@R") (ascii "MEMORY:k") (ascii "MEMORY:c")
  rounds := 40
  trace := (smallInitProg.runWith granting).1
  result := some ⟨0, ascii "KerberosInitCcache Succeed"⟩

def smallDestroy : CtxReturn where
  op := .kerberosDestroyCCache
  rounds := 40
  trace := (smallCtx.kerberosDestroyCCache.runWith granting).1
  result := some ⟨0, ascii "KerberosDestroyCcache succeed"⟩

/-- The record is whole, and nothing comes after it. -/
theorem smallKeytab_keeps : KeepsRealms smallKeytab 2 (List.replicate 5 true) :=
  @KeepsRealms.whole smallKeytab 2 6 22 1 [] rfl (by decide) rfl (.ended nofun)

theorem cacheFound_granting {α : Type} (p : Ctx α) : CacheFound (p.runWith granting).1 := by
  intro context hmem
  have heq := mem_runWith hmem
  injection heq with _ hanswer
  cases hanswer

theorem run_owned_sample : ∃ s, Owned [smallInit, smallDestroy] s := by
  have hinit : CtxStep 1100 {} smallInit smallCtx := traces_of_eval rfl
  have hdestroy : CtxStep 1100 smallCtx smallDestroy
      { keytabEntry := { smallCtx.keytabEntry with principal := none } } := traces_of_eval rfl
  have hkept : RealmsKept smallKeytab smallInit.trace := fun _ => smallKeytab_keeps
  exact ⟨_, run_owned (.cons ⟨⟨rfl, hkept, cacheFound_granting _⟩, hinit⟩
    (.cons ⟨⟨trivial, trivial, cacheFound_granting _⟩, hdestroy⟩ (.nil _)))⟩

/-- The same, but for the credentials cache. -/
def withoutCache : (call : CtxCall) → call.Reply
  | .krb5CcDefault _ => none
  | call => granting call

/-- The cache that is destroyed is a null pointer. -/
example : smallInitProg.eval withoutCache = .halt .nullPointer := rfl

/-- A name that is too long is found out when the context and the principal are there, whatever
was in their fields. -/
theorem kerberosInitKeytab_longName {maxKeytabNameLen : Nat} {memoryKeytabName : Bytes}
    (hlong : maxKeytabNameLen < memoryKeytabName.length) (rounds : Nat) (s : KrbCtx)
    (keytabValue inPrincipal : Bytes) (context principal : Handle) :
    Traces (s.kerberosInitKeytab maxKeytabNameLen rounds keytabValue inPrincipal memoryKeytabName)
      [⟨.krb5InitContext, some context⟩,
        ⟨.krb5ParseName (some context) (cstr inPrincipal), some principal⟩]
      (.ret (⟨1, []⟩, { s with krb5Context := some context, principal := some principal })) := by
  refine .call (.call ?_)
  show Traces (if maxKeytabNameLen < memoryKeytabName.length then _ else _) _ _
  rw [if_pos hlong]
  exact .ret _

/-- A name of one byte too many. -/
def longNameInit : CtxReturn where
  op := .kerberosInitKeytab smallKeytab (ascii "a@R") (List.replicate 1101 97)
  rounds := 40
  trace := [⟨.krb5InitContext, some 1⟩, ⟨.krb5ParseName (some 1) (cstr (ascii "a@R")), some 2⟩]
  result := some ⟨1, []⟩

/-- Not every run owns what it acquires: an `Init` that fails keeps what it has. -/
theorem longName_keeps : ¬ ∀ (maxKeytabNameLen : Nat) (ls : List CtxReturn) (s : KrbCtx),
    Run (CtxStep maxKeytabNameLen) {} ls s → Owned ls s := by
  intro hall
  have hlong : 1100 < (List.replicate 1101 (97 : UInt8)).length := by
    rw [List.length_replicate]
    decide
  have hstep : CtxStep 1100 {} longNameInit { krb5Context := some 1, principal := some 2 } :=
    kerberosInitKeytab_longName hlong 40 {} smallKeytab (ascii "a@R") 1 2
  obtain ⟨-, -, hback⟩ := hall 1100 [longNameInit] _ (.cons hstep (.nil _))
  obtain ⟨hnothing, -⟩ := hback [] longNameInit _ rfl rfl (show (1 : UInt32) ≠ 0 by decide)
  exact absurd (eq_entryOnly hnothing).1 (by decide)

end CdfCrypto.Kerberos
