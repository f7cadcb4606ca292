import CdfCrypto.Kerberos.KrbClient
import CdfCrypto.Kerberos.KrbCtxOwnership

/-!
# What a client holds

A client holds the names, the credentials and the security context in its fields, and what its
Kerberos context holds. Every operation leaves held what the fields then say (`clientStep_held`),
and the end of the object gives it all back (`destroy_owns`). A call of the libraries that is given
a handle uses it, and only what is held can be used; what the object itself does with memory and
with the bytes of a buffer is not told. So in every run and to the end of the object, nothing is
leaked, given back twice, or handed to the libraries after it was given back, and the process does
not come to an end (`client_gives_back`).

Four things are ruled out. A `ClientInit` that is not refused writes over what the object holds.
A first token that is empty, or too large to be copied, is not given back. A keytab may lose a
realm. And where there is no credentials cache, a null one is destroyed.
-/

namespace CdfCrypto.Kerberos

open Lib

/-! ## Handles -/

/-- What a client may hold: what a Kerberos context may, what GSS-API makes, and the buffers that
it fills. -/
inductive ClientHandle
  | library (handle : CtxHandle)
  | name (handle : Handle)
  | credentials (handle : Handle)
  | secContext (handle : Handle)
  | buffer (buffer : GssBuffer)
  deriving DecidableEq

/-- The memory of a buffer. -/
def GssBuffer.memory (buffer : GssBuffer) : List ClientHandle :=
  if buffer.value = none then [] else [.buffer buffer]

/-- A variable that a call is given and writes. -/
def rewritten (kind : Handle → ClientHandle) (before after : Option Handle) :
    List (Deed ClientHandle) :=
  if before = after then lent (there kind before)
  else (there kind before).map .released ++ (there kind after).map .acquired

/-- What a call of a client does with handles. -/
def clientDeeds : ClientEvent → List (Deed ClientHandle)
  | ⟨.inContext call, r⟩ => (ctxDeeds ⟨call, r⟩).map (Deed.map .library)
  | ⟨.malloc _, made⟩ => (made.toList.map fun addr => .library (.memory addr)).map .acquired
  | ⟨.free addr, _⟩ => [.library (.memory addr)].map .released
  | ⟨.krb5InitContext, made⟩ => (made.toList.map fun h => .library (.context h)).map .acquired
  | ⟨.krb5FreeContext context, _⟩ => [.library (.context context)].map .released
  | ⟨.krb5ParseName context _, parsed⟩ => lent [.library (.context context)] ++
      (parsed.2.toList.map fun h => .library (.principal h)).map .acquired
  | ⟨.krb5FreePrincipal context principal, _⟩ => lent [.library (.context context)] ++
      (principal.toList.map fun h => .library (.principal h)).map .released
  | ⟨.gssImportName _ _, imported⟩ => (there .name imported.2).map .acquired
  | ⟨.gssAcquireCred name, acquired⟩ => lent (there .name name) ++
      (there .credentials acquired.2).map .acquired
  | ⟨.gssInitSecContext credentials context name _, got⟩ =>
      lent (there .credentials credentials ++ there .name name) ++
        (rewritten .secContext context got.context ++ got.outputToken.memory.map .acquired)
  | ⟨.gssReleaseName name, _⟩ => (there .name name).map .released
  | ⟨.gssReleaseCred credentials, _⟩ => (there .credentials credentials).map .released
  | ⟨.gssReleaseBuffer buffer, _⟩ => buffer.memory.map .released
  | ⟨.gssDeleteSecContext context, _⟩ => (there .secContext context).map .released

/-- Nothing is done in the Kerberos context that is ruled out there, and a first token is one that
can be copied. -/
def ClientKept : ClientEvent → Prop
  | ⟨.inContext call, r⟩ => CtxKept ⟨call, r⟩
  | ⟨.gssInitSecContext _ _ _ none, got⟩ => got.outputToken.value ≠ none →
      0 < got.outputToken.length ∧ got.outputToken.length < 2 ^ 31
  | _ => True

/-- A program of a client, by what it holds, and by the faults that it comes to. -/
abbrev ClientBooks {α : Type} (B : KtFault → Prop) (held : Multiset ClientHandle) (p : Client α)
    (Q : α → Multiset ClientHandle → Prop) : Prop := OwningIf ClientKept B clientDeeds held p Q

/-- One with a search in it. -/
abbrev ClientOwns {α : Type} (held : Multiset ClientHandle) (p : Client α)
    (Q : α → Multiset ClientHandle → Prop) : Prop := ClientBooks KtFault.GoesOn held p Q

/-- What a field holds. -/
def inField (kind : Handle → ClientHandle) (field : Option Handle) : Multiset ClientHandle :=
  (there kind field : Multiset ClientHandle)

@[simp] theorem inField_none (kind : Handle → ClientHandle) : inField kind none = 0 := rfl

/-- What is held of a Kerberos context. -/
def inLibrary (held : Multiset CtxHandle) : Multiset ClientHandle := held.map .library

@[simp] theorem inLibrary_zero : inLibrary 0 = 0 := rfl

/-- What a client holds. -/
def KrbClient.holdings (s : KrbClient) : Multiset ClientHandle :=
  inField .name s.gssClientName + inField .name s.gssServiceName +
    inField .secContext s.gssClientContext + inField .credentials s.clientCredentials +
      inLibrary s.kerberosContext.holdings

/-- What is held is what the fields of the object say, and an entry is in a keytab. -/
def Left {α : Type} (r : α × KrbClient) (held : Multiset ClientHandle) : Prop :=
  held = r.2.holdings ∧ r.2.kerberosContext.Filed

/-- The same, of an object that still has the name of its service. -/
def LeftServing {α : Type} (name : Option Handle) (r : α × KrbClient)
    (held : Multiset ClientHandle) : Prop := Left r held ∧ r.2.gssServiceName = name

section Fields

variable (s : KrbClient)

theorem holdings_gssClientName :
    s.holdings = { s with gssClientName := none }.holdings + inField .name s.gssClientName := by
  unfold KrbClient.holdings
  simp only [inField_none]
  abel

theorem holdings_gssServiceName :
    s.holdings = { s with gssServiceName := none }.holdings + inField .name s.gssServiceName := by
  unfold KrbClient.holdings
  simp only [inField_none]
  abel

theorem holdings_gssClientContext : s.holdings =
    { s with gssClientContext := none }.holdings + inField .secContext s.gssClientContext := by
  unfold KrbClient.holdings
  simp only [inField_none]
  abel

theorem holdings_clientCredentials : s.holdings =
    { s with clientCredentials := none }.holdings + inField .credentials s.clientCredentials := by
  unfold KrbClient.holdings
  simp only [inField_none]
  abel

theorem holdings_kerberosContext : s.holdings =
    { s with kerberosContext := {} }.holdings + inLibrary s.kerberosContext.holdings := by
  have hnew : KrbCtx.holdings {} = 0 := rfl
  unfold KrbClient.holdings
  simp only [hnew, inLibrary_zero]
  abel

variable {s}

/-- A field that was empty. -/
theorem holdings_named (h : s.gssClientName = none) (name : Option Handle) :
    { s with gssClientName := name }.holdings = s.holdings + inField .name name := by
  rw [holdings_gssClientName, holdings_gssClientName s, h, inField_none, add_zero]

theorem holdings_served (h : s.gssServiceName = none) (name : Option Handle) :
    { s with gssServiceName := name }.holdings = s.holdings + inField .name name := by
  rw [holdings_gssServiceName, holdings_gssServiceName s, h, inField_none, add_zero]

theorem holdings_credited (h : s.clientCredentials = none) (credentials : Option Handle) :
    { s with clientCredentials := credentials }.holdings =
      s.holdings + inField .credentials credentials := by
  rw [holdings_clientCredentials, holdings_clientCredentials s, h, inField_none, add_zero]

/-- What a field names is held. -/
theorem mem_of_there {kind : Handle → ClientHandle} {handle : Option Handle}
    {held rest : Multiset ClientHandle} (hheld : held = rest + inField kind handle) :
    ∀ h ∈ there kind handle, h ∈ held := by
  intro h hmem
  rw [hheld]
  exact Multiset.mem_add.mpr (.inr (Multiset.mem_coe.mpr hmem))

end Fields

section Rules

variable {α β : Type} {held : Multiset ClientHandle} {Q : α → Multiset ClientHandle → Prop}
variable {s : KrbClient} {result : KrbResult} {addr : Nat} {B : KtFault → Prop}

/-- What runs in the Kerberos context. -/
theorem inContext_owns {own : Multiset CtxHandle} {p : Ctx β} {P : β → Multiset CtxHandle → Prop}
    (hp : CtxBooks B own p P) (rest : Multiset ClientHandle) :
    ClientBooks B (rest + inLibrary own) (p.within ClientCall.inContext) fun r held' =>
      ∃ own', held' = rest + inLibrary own' ∧ P r own' := by
  refine OwningIf.within (A := ClientKept) (OwningIf.framed hp ?_ rest)
  exact fun _ => rfl

/-- What a variable holds after a call is acquired. -/
theorem acquire_there {call : ClientCall} {kind : Handle → ClientHandle}
    (made : call.Reply → Option Handle) {f : call.Reply → Client α}
    (hacquires : ∀ r, clientDeeds ⟨call, r⟩ = (there kind (made r)).map .acquired)
    (hf : ∀ r, ClientOwns (held + inField kind (made r)) (f r) Q) :
    ClientOwns held (.perform call >>= f) Q := by
  refine .acquire (fun r => there kind (made r)) ?_ (List.forall_mem_nil _) fun r _ => hf r
  exact hacquires

/-- A handle that is there is given back. -/
theorem release_there {call : ClientCall} {kind : Handle → ClientHandle} {handle : Option Handle}
    {before : Multiset ClientHandle} {f : call.Reply → Client α}
    (hreleases : ∀ r, clientDeeds ⟨call, r⟩ = (there kind handle).map .released)
    (hheld : before = held + inField kind handle) (hf : ∀ r, ClientBooks B held (f r) Q) :
    ClientBooks B before (.perform call >>= f) Q := by
  refine .release (there kind handle) ?_ (List.forall_mem_nil _) hheld hf
  exact hreleases

theorem destroyCCacheWith_owns (result : KrbResult) {s : KrbClient}
    (hfiled : s.kerberosContext.Filed) :
    ClientOwns s.holdings (s.destroyCCacheWith result) (LeftServing s.gssServiceName) := by
  rw [holdings_kerberosContext]
  refine (inContext_owns (kerberosDestroyCCache_owns hfiled) _).bind fun destroyed held' hheld => ?_
  obtain ⟨own', rfl, rfl, hnothing⟩ := hheld
  refine .ret ⟨⟨?_, .of_nothing hnothing⟩, rfl⟩
  rw [holdings_kerberosContext { s with kerberosContext := destroyed.2 }, hnothing]

/-- A failure, and then the copy of the name. -/
theorem cleanupBuffer_owns {failed : Client (KrbResult × KrbClient)}
    {Q : KrbResult × KrbClient → Multiset ClientHandle → Prop} (hfailed : ClientOwns held failed Q) :
    ClientOwns (held + {.library (.memory addr)}) (KrbClient.cleanupBuffer addr failed) Q := by
  rw [add_comm]
  refine (hfailed.frame _).bind fun r held' hheld => ?_
  obtain ⟨own, rfl, hown⟩ := hheld
  exact .release [.library (.memory addr)] (fun _ => rfl) (List.forall_mem_nil _) (add_comm _ _)
    fun _ => .ret hown

/-- The copy of the name, where all went well. -/
theorem freeName_owns (result : KrbResult) {s : KrbClient} (hfiled : s.kerberosContext.Filed) :
    ClientOwns (s.holdings + {.library (.memory addr)})
      (.perform (ClientCall.free addr) >>= fun _ => .ret (result, s))
      (LeftServing s.gssServiceName) :=
  .release [.library (.memory addr)] (fun _ => rfl) (List.forall_mem_nil _) rfl
    fun _ => .ret ⟨⟨rfl, hfiled⟩, rfl⟩

/-- The library runs in a context of its own. -/
theorem krb5NameFormatCheckHack_owns (name : Bytes) :
    ClientOwns held (KrbClient.krb5NameFormatCheckHack name) fun _ held' => held' = held := by
  unfold KrbClient.krb5NameFormatCheckHack
  refine .acquire (fun made => made.toList.map fun h => ClientHandle.library (.context h))
    (fun _ => rfl) (List.forall_mem_nil _) fun made _ => ?_
  cases made with
  | none => exact .ret (add_zero held)
  | some context =>
    have huses : ∀ h ∈ [ClientHandle.library (.context context)],
        h ∈ held + {ClientHandle.library (.context context)} := fun h hmem =>
      Multiset.mem_add.mpr (.inr (Multiset.mem_coe.mpr hmem))
    have hstill : ∀ more : Multiset ClientHandle, ∀ h ∈ [ClientHandle.library (.context context)],
        h ∈ held + {ClientHandle.library (.context context)} + more := fun more h hmem =>
      Multiset.mem_add.mpr (.inl (huses h hmem))
    refine .acquire (fun parsed => parsed.2.toList.map fun h => .library (.principal h))
      (fun _ => rfl) huses fun parsed _ => ?_
    refine .release (parsed.2.toList.map fun h => .library (.principal h)) (fun _ => rfl) (hstill _)
      rfl fun _ => ?_
    exact .release [.library (.context context)] (fun _ => rfl) (List.forall_mem_nil _) rfl
      fun _ => .ret rfl

end Rules

/-! ## Initialisation -/

variable {s : KrbClient} {addr maxKeytabNameLen rounds : Nat}

theorem importClient_owns (inClientName : Bytes) (hname : s.gssClientName = none)
    (hcred : s.clientCredentials = none) (hfiled : s.kerberosContext.Filed) :
    ClientOwns (s.holdings + {.library (.memory addr)}) (s.importClient addr inClientName)
      (LeftServing s.gssServiceName) := by
  unfold KrbClient.importClient
  refine acquire_there Prod.snd (fun _ => rfl) fun imported => ?_
  have hnamed : s.holdings + {ClientHandle.library (.memory addr)} + inField .name imported.2 =
      { s with gssClientName := imported.2 }.holdings + {.library (.memory addr)} := by
    rw [holdings_named hname imported.2]
    abel
  rw [hnamed]
  split
  · exact cleanupBuffer_owns (destroyCCacheWith_owns _ hfiled)
  · have huses : ∀ h ∈ there .name imported.2,
        h ∈ { s with gssClientName := imported.2 }.holdings + {ClientHandle.library (.memory addr)} :=
      mem_of_there hnamed.symm
    refine .call fun acquired _ => ⟨_, (books_lent huses).append (books_acquired _ _), ?_⟩
    have hcredited : { s with gssClientName := imported.2 }.holdings +
        {ClientHandle.library (.memory addr)} + inField .credentials acquired.2 =
          { s with gssClientName := imported.2, clientCredentials := acquired.2 }.holdings +
            {.library (.memory addr)} := by
      rw [holdings_credited (s := { s with gssClientName := imported.2 }) hcred acquired.2]
      abel
    show ClientOwns (_ + inField .credentials acquired.2) _ _
    rw [hcredited]
    split
    · refine @release_there _ ({ s with clientCredentials := acquired.2 }.holdings +
        {.library (.memory addr)}) _ _ _ _ _ _ _ (fun _ => rfl) ?_ fun _ => ?_
      · rw [holdings_named (s := { s with clientCredentials := acquired.2 }) hname imported.2]
        abel
      · rw [← hname]
        exact cleanupBuffer_owns (destroyCCacheWith_owns _ hfiled)
    · exact freeName_owns _ hfiled

theorem clientInitClient_owns (inClientName : Bytes) (hname : s.gssClientName = none)
    (hcred : s.clientCredentials = none) (hfiled : s.kerberosContext.Filed) :
    ClientOwns s.holdings (s.clientInitClient inClientName) (LeftServing s.gssServiceName) := by
  unfold KrbClient.clientInitClient
  refine .acquire (fun made => made.toList.map fun addr => ClientHandle.library (.memory addr))
    (fun _ => rfl) (List.forall_mem_nil _) fun made _ => ?_
  cases made with
  | none =>
    show ClientOwns (s.holdings + 0) _ _
    rw [add_zero]
    exact destroyCCacheWith_owns _ hfiled
  | some addr =>
    show ClientOwns (s.holdings + {.library (.memory addr)}) (if _ then _ else _) _
    split
    · exact cleanupBuffer_owns (destroyCCacheWith_owns _ hfiled)
    · exact importClient_owns inClientName hname hcred hfiled

theorem importServer_owns (inServiceName : Bytes) (hname : s.gssServiceName = none)
    (hfiled : s.kerberosContext.Filed) :
    ClientOwns (s.holdings + {.library (.memory addr)}) (s.importServer addr inServiceName)
      Left := by
  unfold KrbClient.importServer
  refine acquire_there Prod.snd (fun _ => rfl) fun imported => ?_
  have hserved : s.holdings + {ClientHandle.library (.memory addr)} + inField .name imported.2 =
      { s with gssServiceName := imported.2 }.holdings + {.library (.memory addr)} := by
    rw [holdings_served hname imported.2]
    abel
  rw [hserved]
  split
  · refine @release_there _ ({ s with gssServiceName := imported.2, gssClientName := none
      }.holdings + {.library (.memory addr)}) _ _ _ _ _ _ _ (fun _ => rfl) ?_ fun _ => ?_
    · rw [holdings_gssClientName { s with gssServiceName := imported.2 }]
      abel
    refine @release_there _ ({ s with gssServiceName := none, gssClientName := none
      }.holdings + {.library (.memory addr)}) _ _ _ _ _ _ _ (fun _ => rfl) ?_ fun _ => ?_
    · rw [holdings_gssServiceName { s with gssServiceName := imported.2, gssClientName := none }]
      abel
    refine @release_there _ (KrbClient.holdings { s with
      gssServiceName := none, gssClientName := none, clientCredentials := none } +
        {.library (.memory addr)}) _ _ _ _ _ _ _ (fun _ => rfl) ?_ fun _ => ?_
    · rw [holdings_clientCredentials { s with gssServiceName := none, gssClientName := none }]
      abel
    refine cleanupBuffer_owns (OwningIf.mono (destroyCCacheWith_owns _ ?_) fun _ _ hleft => hleft.1)
    exact hfiled
  · refine OwningIf.mono (freeName_owns _ ?_) fun _ _ hleft => hleft.1
    exact hfiled

theorem clientInitServer_owns (inServiceName : Bytes) (hname : s.gssServiceName = none)
    (hfiled : s.kerberosContext.Filed) :
    ClientOwns s.holdings (s.clientInitServer inServiceName) Left := by
  unfold KrbClient.clientInitServer
  refine (krb5NameFormatCheckHack_owns inServiceName).bind fun checked held' hheld => ?_
  subst hheld
  split
  · exact .ret ⟨rfl, hfiled⟩
  refine .acquire (fun made => made.toList.map fun addr => ClientHandle.library (.memory addr))
    (fun _ => rfl) (List.forall_mem_nil _) fun made _ => ?_
  cases made with
  | none =>
    show ClientOwns (s.holdings + 0) _ _
    rw [add_zero]
    exact .ret ⟨rfl, hfiled⟩
  | some addr =>
    show ClientOwns (s.holdings + {.library (.memory addr)}) (if _ then _ else _) _
    split
    · exact (freeName_owns _ hfiled).mono fun _ _ hleft => hleft.1
    · exact importServer_owns inServiceName hname hfiled

/-- What an `Init` leaves is what its fields say, however it ends. -/
theorem InitHeld.eq {P : KrbCtx → Prop} {r : KrbResult × KrbCtx} {held : Multiset CtxHandle}
    (h : InitHeld P r held) : held = r.2.holdings := by
  by_cases hok : r.1.mResult = 0
  · exact (h.of_ok hok).1
  · unfold InitHeld at h
    rw [if_neg hok] at h
    exact h.1.trans h.2.symm

/-- And its entry is in its keytab. -/
theorem InitHeld.filed {r : KrbResult × KrbCtx} {held : Multiset CtxHandle}
    (h : InitHeld (fun s' => s'.keytab ≠ none) r held) : r.2.Filed := by
  by_cases hok : r.1.mResult = 0
  · exact fun _ => (h.of_ok hok).2
  · unfold InitHeld at h
    rw [if_neg hok] at h
    exact .of_nothing h.2

theorem inField_eq_zero {kind : Handle → ClientHandle} {field : Option Handle}
    (h : inField kind field = 0) : field = none := by
  cases field with
  | none => rfl
  | some handle => cases (congrArg Multiset.card h : 1 = 0)

/-- An object that holds nothing. -/
theorem holdings_eq_zero (h : s.holdings = 0) :
    s = { kerberosContext := s.kerberosContext } ∧ s.kerberosContext.holdings = 0 := by
  have hcard := congrArg Multiset.card h
  unfold KrbClient.holdings at hcard
  simp only [Multiset.card_add, Multiset.card_zero] at hcard
  have hzero : ∀ {part : Multiset ClientHandle}, part.card = 0 → part = 0 := Multiset.card_eq_zero.mp
  obtain ⟨clientName, serviceName, context, credentials, kerberosContext⟩ := s
  dsimp only at hcard
  obtain rfl := inField_eq_zero (hzero (show (inField .name clientName).card = 0 by omega))
  obtain rfl := inField_eq_zero (hzero (show (inField .name serviceName).card = 0 by omega))
  obtain rfl := inField_eq_zero (hzero (show (inField .secContext context).card = 0 by omega))
  obtain rfl := inField_eq_zero (hzero (show (inField .credentials credentials).card = 0 by omega))
  have hlibrary := hzero (show (inLibrary kerberosContext.holdings).card = 0 by omega)
  exact ⟨rfl, Multiset.map_eq_zero.mp hlibrary⟩

/-- `ClientInit` of an object that holds nothing. -/
theorem clientInit_owns (inClientName inServiceName keyTable : Bytes) (hs : s.holdings = 0) :
    ClientOwns 0 (s.clientInit maxKeytabNameLen rounds inClientName inServiceName keyTable)
      Left := by
  obtain ⟨heq, hcontext⟩ := holdings_eq_zero hs
  rw [heq]
  unfold KrbClient.clientInit
  split
  · exact .ret ⟨hs.symm.trans (congrArg KrbClient.holdings heq), .of_nothing hcontext⟩
  have hinit := inContext_owns (@kerberosInitCCache_owns s.kerberosContext maxKeytabNameLen rounds keyTable
    inClientName krb5KtName krb5CcName hcontext) 0
  refine OwningIf.bind hinit fun authAr held' hheld => ?_
  obtain ⟨own, rfl, hown⟩ := hheld
  have hfiled := hown.filed
  obtain rfl := hown.eq
  have hheld : 0 + inLibrary authAr.2.holdings = KrbClient.holdings { kerberosContext := authAr.2 } := by
    rw [holdings_kerberosContext]
    rfl
  rw [hheld]
  split
  · exact .ret ⟨rfl, hfiled⟩
  refine (clientInitClient_owns inClientName rfl rfl hfiled).bind fun authAr held' hleft => ?_
  obtain ⟨⟨rfl, hfiled⟩, hservice⟩ := hleft
  split
  · exact .ret ⟨rfl, hfiled⟩
  refine (clientInitServer_owns inServiceName hservice hfiled).bind fun authAr held' hleft => ?_
  obtain ⟨rfl, hfiled⟩ := hleft
  split <;> exact .ret ⟨rfl, hfiled⟩

/-! ## The handshake -/

/-- A variable that a call is given and writes goes from what it held to what it holds. -/
theorem books_rewritten (rest : Multiset ClientHandle) (kind : Handle → ClientHandle)
    (before after : Option Handle) :
    Run Ledger (rest + inField kind before) (rewritten kind before after)
      (rest + inField kind after) := by
  unfold rewritten
  split
  next heq =>
    rw [heq]
    exact books_lent (mem_of_there rfl)
  · exact (books_released (there kind before) rest).append (books_acquired (there kind after) rest)

/-- What is held of a buffer. -/
def inBuffer (buffer : GssBuffer) : Multiset ClientHandle :=
  (buffer.memory : Multiset ClientHandle)

/-- One call of a handshake: the context is what it says then, and there is a token to give back. -/
theorem initSecContext_owns {α : Type} {inputToken : Option Bytes} {f : Initiated → Client α}
    {Q : α → Multiset ClientHandle → Prop}
    (hf : ∀ got, ClientKept ⟨.gssInitSecContext s.clientCredentials s.gssClientContext
        s.gssServiceName inputToken, got⟩ →
      ClientOwns ({ s with gssClientContext := got.context }.holdings + inBuffer got.outputToken)
        (f got) Q) :
    ClientOwns s.holdings (.perform (ClientCall.gssInitSecContext s.clientCredentials
      s.gssClientContext s.gssServiceName inputToken) >>= f) Q := by
  have huses : ∀ h ∈ there .credentials s.clientCredentials ++ there .name s.gssServiceName,
      h ∈ s.holdings := by
    refine List.forall_mem_append.mpr ⟨?_, ?_⟩
    · exact mem_of_there (holdings_clientCredentials s)
    · exact mem_of_there (holdings_gssServiceName s)
  refine .call fun got hkept => ⟨_, ?_, hf got hkept⟩
  refine (books_lent huses).append (Run.append ?_ (books_acquired got.outputToken.memory _))
  rw [holdings_gssClientContext s, holdings_gssClientContext { s with gssClientContext := got.context }]
  exact books_rewritten _ .secContext s.gssClientContext got.context

theorem releaseBuffer_owns {α : Type} {buffer : GssBuffer} {held : Multiset ClientHandle}
    {f : UInt32 → Client α} {Q : α → Multiset ClientHandle → Prop}
    (hf : ∀ minorStatus, ClientOwns held (f minorStatus) Q) :
    ClientOwns (held + inBuffer buffer) (.perform (ClientCall.gssReleaseBuffer buffer) >>= f) Q := by
  refine .release buffer.memory ?_ (List.forall_mem_nil _) rfl hf
  exact fun _ => rfl

theorem deleteAnyContext_owns (minorStatus : UInt32) {s : KrbClient}
    (hfiled : s.kerberosContext.Filed) :
    ClientOwns s.holdings (s.deleteAnyContext minorStatus) Left := by
  unfold KrbClient.deleteAnyContext
  split
  · exact .ret ⟨rfl, hfiled⟩
  · exact release_there (fun _ => rfl) (holdings_gssClientContext s) fun _ => .ret ⟨rfl, hfiled⟩

theorem releaseAnyCred_owns {s : KrbClient} (hfiled : s.kerberosContext.Filed) :
    ClientOwns s.holdings s.releaseAnyCred fun s' held' =>
      held' = s'.holdings ∧ s'.kerberosContext.Filed := by
  unfold KrbClient.releaseAnyCred
  split
  · exact .ret ⟨rfl, hfiled⟩
  · exact release_there (fun _ => rfl) (holdings_clientCredentials s) fun _ => .ret ⟨rfl, hfiled⟩

/-- A buffer that can be copied is. -/
theorem copy_ne_none {buffer : GssBuffer} (hvalue : buffer.value ≠ none) (hlength : 0 < buffer.length)
    (hsize : buffer.length < 2 ^ 31) : buffer.copy ≠ none := by
  obtain ⟨bytes, hbytes⟩ := Option.ne_none_iff_exists'.mp hvalue
  have hcopied : memcpyS buffer.length buffer.length = true := by
    unfold memcpyS
    rw [decide_eq_true hlength, decide_eq_true hsize, decide_eq_true le_rfl]
    rfl
  unfold GssBuffer.copy
  rw [hbytes]
  dsimp only
  rw [if_pos hcopied]
  exact Option.some_ne_none _

theorem clientGetCred_owns (hfiled : s.kerberosContext.Filed) :
    ClientOwns s.holdings s.clientGetCred Left := by
  unfold KrbClient.clientGetCred
  split
  · exact .ret ⟨rfl, hfiled⟩
  refine initSecContext_owns fun got hkept => ?_
  by_cases hvalue : got.outputToken.value = none
  · have hempty : inBuffer got.outputToken = 0 := by
      unfold inBuffer GssBuffer.memory
      rw [if_pos hvalue]
      rfl
    rw [if_neg fun hboth => hboth.2 hvalue, hempty, add_zero]
    refine OwningIf.bind (deleteAnyContext_owns _ ?_) fun deleted held' hleft => .ret hleft
    exact hfiled
  · obtain ⟨hlength, hsize⟩ := hkept hvalue
    rw [if_pos ⟨hlength, hvalue⟩]
    split
    next hcopy => exact absurd hcopy (copy_ne_none hvalue hlength hsize)
    · exact releaseBuffer_owns fun _ => .ret ⟨rfl, hfiled⟩

theorem clientAuthServer_owns (hfiled : s.kerberosContext.Filed) (cred : Option Bytes) :
    ClientOwns s.holdings (s.clientAuthServer cred) Left := by
  unfold KrbClient.clientAuthServer
  cases cred with
  | none => exact .ret ⟨rfl, hfiled⟩
  | some inputToken =>
    dsimp only
    split
    · exact .ret ⟨rfl, hfiled⟩
    refine initSecContext_owns fun got _ => ?_
    have hleft : KrbCtx.Filed (KrbClient.kerberosContext { s with gssClientContext := got.context }) :=
      hfiled
    rw [add_comm]
    refine ((releaseAnyCred_owns hleft).frame (inBuffer got.outputToken)).bind
      fun s' held' hheld => ?_
    obtain ⟨own, rfl, rfl, hfiled⟩ := hheld
    rw [add_comm]
    refine releaseBuffer_owns fun minorStatus => ?_
    split
    · exact .ret ⟨rfl, hfiled⟩
    split
    · exact .ret ⟨rfl, hfiled⟩
    · exact (deleteAnyContext_owns _ hfiled).bind fun deleted held' hleft => .ret hleft

/-! ## The end -/

theorem releaseAny_owns {kind : Handle → ClientHandle} {handle : Option Handle} {call : ClientCall}
    {held : Multiset ClientHandle} {B : KtFault → Prop}
    (hreleases : ∀ r, clientDeeds ⟨call, r⟩ = (there kind handle).map .released) :
    ClientBooks B (held + inField kind handle) (KrbClient.releaseAny handle call) fun _ held' =>
      held' = held := by
  unfold KrbClient.releaseAny
  split
  next hnone =>
    rw [hnone, inField_none, add_zero]
    exact .ret rfl
  · exact release_there hreleases rfl fun _ => .ret rfl

/-- **The end of an object** comes to its own end, and gives back what it holds, whatever that is. -/
theorem destroy_owns (hfiled : s.kerberosContext.Filed) :
    ClientBooks (fun _ => False) s.holdings s.destroy fun _ held' => held' = 0 := by
  have hsplit : s.holdings = 0 + inLibrary s.kerberosContext.holdings +
      inField .secContext s.gssClientContext + inField .credentials s.clientCredentials +
        inField .name s.gssServiceName + inField .name s.gssClientName := by
    unfold KrbClient.holdings
    abel
  unfold KrbClient.destroy
  rw [hsplit]
  refine (releaseAny_owns fun _ => rfl).bind fun _ held₁ hheld₁ => ?_
  subst hheld₁
  refine (releaseAny_owns fun _ => rfl).bind fun _ held₂ hheld₂ => ?_
  subst hheld₂
  refine (releaseAny_owns fun _ => rfl).bind fun _ held₃ hheld₃ => ?_
  subst hheld₃
  refine (releaseAny_owns fun _ => rfl).bind fun _ held₄ hheld₄ => ?_
  subst hheld₄
  refine (inContext_owns (kerberosDestroyCCache_owns hfiled) 0).bind fun _ held₅ hheld₅ => ?_
  obtain ⟨own, rfl, rfl, -⟩ := hheld₅
  exact .ret rfl

/-- A call by which nothing is done that is ruled out. -/
def ClientCall.Plain : ClientCall → Prop
  | inContext call => call.Ends
  | gssInitSecContext _ _ _ none => False
  | _ => True

theorem ClientCall.Plain.kept {ev : ClientEvent} (h : ev.1.Plain) : ClientKept ev := by
  obtain ⟨call, r⟩ := ev
  cases call with
  | inContext call =>
    cases call with
    | read call => exact h.elim
    | krb5CcDefault context => exact h.elim
    | _ => trivial
  | gssInitSecContext credentials context name inputToken =>
    cases inputToken with
    | none => exact h.elim
    | some inputToken => trivial
  | _ => trivial

theorem kept_plain {α : Type} {p : Client α} (h : Calls ClientCall.Plain p) :
    wp p fun tr _ => ∀ ev ∈ tr, ClientKept ev :=
  wp_mono h.trace fun _ _ ho ev hev => (ho ev hev).kept

theorem plain_kerberosDestroyCCache (s : KrbCtx) :
    Calls ClientCall.Plain (F := KtFault) (s.kerberosDestroyCCache.within ClientCall.inContext :
      Client (KrbResult × KrbCtx)) :=
  Calls.within (A := ClientCall.Plain) (kerberosDestroyCCache_ends s)

theorem calls_destroy (s : KrbClient) : Calls ClientCall.Plain s.destroy := by
  have hany : ∀ (call : ClientCall) {handle : Option Handle}, call.Plain →
      Calls ClientCall.Plain (KrbClient.releaseAny handle call) := by
    intro call handle hcall
    unfold KrbClient.releaseAny
    split
    · trivial
    · exact (calls_perform hcall).bind fun _ => trivial
  refine (hany (.gssReleaseName s.gssClientName) trivial).bind fun _ => ?_
  refine (hany (.gssReleaseName s.gssServiceName) trivial).bind fun _ => ?_
  refine (hany (.gssReleaseCred s.clientCredentials) trivial).bind fun _ => ?_
  refine (hany (.gssDeleteSecContext s.gssClientContext) trivial).bind fun _ => ?_
  exact (plain_kerberosDestroyCCache s.kerberosContext).bind fun _ => trivial

/-! ## What is ruled out

Of `ClientInit` it is said by what was called in the Kerberos context. -/

section Ruled

variable {s : KrbClient} {addr maxKeytabNameLen rounds : Nat}

theorem calls_destroyCCacheWith (result : KrbResult) (s : KrbClient) :
    Calls ClientCall.Plain (s.destroyCCacheWith result) :=
  (plain_kerberosDestroyCCache s.kerberosContext).bind fun _ => trivial

theorem calls_cleanupBuffer {failed : Client (KrbResult × KrbClient)}
    (h : Calls ClientCall.Plain failed) :
    Calls ClientCall.Plain (KrbClient.cleanupBuffer addr failed) :=
  h.bind fun _ => (calls_perform trivial).bind fun _ => trivial

theorem calls_importClient (s : KrbClient) (inClientName : Bytes) :
    Calls ClientCall.Plain (s.importClient addr inClientName) := by
  unfold KrbClient.importClient
  refine (calls_perform trivial).bind fun imported => ?_
  dsimp only
  split
  · exact calls_cleanupBuffer (calls_destroyCCacheWith _ _)
  · refine (calls_perform trivial).bind fun acquired => ?_
    split
    · exact (calls_perform trivial).bind fun _ => calls_cleanupBuffer (calls_destroyCCacheWith _ _)
    · exact (calls_perform trivial).bind fun _ => trivial

theorem calls_clientInitClient (s : KrbClient) (inClientName : Bytes) :
    Calls ClientCall.Plain (s.clientInitClient inClientName) := by
  unfold KrbClient.clientInitClient
  refine (calls_perform trivial).bind fun allocated => ?_
  cases allocated with
  | none => exact calls_destroyCCacheWith _ _
  | some addr =>
    dsimp only
    split
    · exact calls_cleanupBuffer (calls_destroyCCacheWith _ _)
    · exact calls_importClient s inClientName

theorem calls_importServer (s : KrbClient) (inServiceName : Bytes) :
    Calls ClientCall.Plain (s.importServer addr inServiceName) := by
  unfold KrbClient.importServer
  refine (calls_perform trivial).bind fun imported => ?_
  dsimp only
  split
  · exact (calls_perform trivial).bind fun _ => (calls_perform trivial).bind fun _ =>
      (calls_perform trivial).bind fun _ => calls_cleanupBuffer (calls_destroyCCacheWith _ _)
  · exact (calls_perform trivial).bind fun _ => trivial

theorem calls_clientInitServer (s : KrbClient) (inServiceName : Bytes) :
    Calls ClientCall.Plain (s.clientInitServer inServiceName) := by
  have hcheck : Calls ClientCall.Plain (KrbClient.krb5NameFormatCheckHack inServiceName) := by
    refine (calls_perform trivial).bind fun context => ?_
    cases context with
    | none => trivial
    | some context =>
      exact (calls_perform trivial).bind fun _ => (calls_perform trivial).bind fun _ =>
        (calls_perform trivial).bind fun _ => trivial
  unfold KrbClient.clientInitServer
  refine hcheck.bind fun checked => ?_
  split
  · trivial
  refine (calls_perform trivial).bind fun allocated => ?_
  cases allocated with
  | none => trivial
  | some addr =>
    dsimp only
    split
    · exact (calls_perform trivial).bind fun _ => trivial
    · exact calls_importServer s inServiceName

/-- What was called in the Kerberos context. -/
def inner : ClientEvent → Option CtxEvent
  | ⟨.inContext call, r⟩ => some ⟨call, r⟩
  | _ => none

theorem inner_within (tr : List CtxEvent) :
    (tr.map (Event.within ClientCall.inContext)).filterMap inner = tr := by
  rw [List.filterMap_map]
  exact List.filterMap_some

theorem inner_outside {tr : List ClientEvent} (h : ∀ ev ∈ tr, ev.1.Plain) :
    ∀ ev ∈ tr.filterMap inner, ev.1.Outside := by
  intro ev hev
  obtain ⟨⟨call, r⟩, hmem, heq⟩ := List.mem_filterMap.mp hev
  have hplain := h _ hmem
  cases call with
  | inContext call =>
    cases heq
    exact CtxCall.Ends.outside hplain
  | _ => cases heq

end Ruled

/-! ## Runs -/

/-- What can be asked of a client. -/
inductive ClientOp
  | clientInit (inClientName inServiceName keyTable : Bytes)
  | clientGetCred
  | clientAuthServer (cred : Option Bytes)

/-- One operation. Only `ClientGetCred` answers bytes. -/
def ClientOp.prog (maxKeytabNameLen rounds : Nat) (s : KrbClient) :
    ClientOp → Client ((KrbResult × Bytes) × KrbClient)
  | clientInit inClientName inServiceName keyTable => do
    let r ← s.clientInit maxKeytabNameLen rounds inClientName inServiceName keyTable
    .ret ((r.1, []), r.2)
  | clientGetCred => s.clientGetCred
  | clientAuthServer cred => do
    let r ← s.clientAuthServer cred
    .ret ((r.1, []), r.2)

/-- One operation that returned. -/
structure ClientReturn where
  op : ClientOp
  rounds : Nat
  trace : List ClientEvent
  result : KrbResult
  outCred : Bytes

/-- What it did with handles. -/
def ClientReturn.deeds (l : ClientReturn) : List (Deed ClientHandle) := l.trace.flatMap clientDeeds

/-- One operation on a client. -/
def ClientStep (maxKeytabNameLen : Nat) (s : KrbClient) (l : ClientReturn) (s' : KrbClient) : Prop :=
  Traces (l.op.prog maxKeytabNameLen l.rounds s) l.trace (.ret ((l.result, l.outCred), s'))

/-- The operation can be called on the object as it is: a `ClientInit` is refused, or of an object
that holds nothing. -/
def ClientOp.Fits (s : KrbClient) : ClientOp → Prop
  | clientInit inClientName inServiceName keyTable =>
      KrbClient.Refused inClientName inServiceName keyTable ∨ s.holdings = 0
  | clientGetCred => True
  | clientAuthServer _ => True

/-- A first token is one that can be copied. -/
def FirstTokenFits (tr : List ClientEvent) : Prop :=
  ∀ credentials context name got, ⟨.gssInitSecContext credentials context name none, got⟩ ∈ tr →
    got.outputToken.value ≠ none →
      0 < got.outputToken.length ∧ got.outputToken.length < 2 ^ 31

/-- The keytab of a `ClientInit` loses no realm, and there is a credentials cache for it. The first
token of a handshake can be copied. -/
def ClientOp.Kept (tr : List ClientEvent) : ClientOp → Prop
  | clientInit _ _ keyTable =>
    RealmsKept keyTable (tr.filterMap inner) ∧ CacheFound (tr.filterMap inner)
  | clientGetCred => FirstTokenFits tr
  | clientAuthServer _ => True

/-- None of the four things is done. -/
def ProperClient (s : KrbClient) (l : ClientReturn) : Prop := l.op.Fits s ∧ l.op.Kept l.trace

/-- What is called in the Kerberos context comes first, and then nothing that is ruled out. -/
theorem kept_of_spares {α : Type} {keyTable : Bytes} {tr : List CtxEvent} {tr' : List ClientEvent}
    {o : Outcome KtFault α} (hspares : Spares keyTable tr o) (htr' : ∀ ev ∈ tr', ev.1.Plain) :
    o = .halt .diverges ∨ (ClientOp.Kept (tr.map (Event.within ClientCall.inContext) ++ tr')
        (.clientInit inClientName inServiceName keyTable) →
      ∀ ev ∈ tr.map (Event.within ClientCall.inContext) ++ tr', ClientKept ev) := by
  refine hspares.imp_right fun hkept hboth => ?_
  obtain ⟨hrealms, hcache⟩ := hboth
  rw [List.filterMap_append, inner_within] at hrealms hcache
  have hrealms := hkept (hrealms.left (inner_outside htr'))
  refine List.forall_mem_append.mpr ⟨List.forall_mem_map.mpr fun ev hev => ?_,
    fun ev hev => (htr' ev hev).kept⟩
  exact ctxKept_of (hrealms ev hev) hcache (List.mem_append_left _ hev)

theorem clientInit_kept (inClientName inServiceName keyTable : Bytes) :
    wp (s.clientInit maxKeytabNameLen rounds inClientName inServiceName keyTable) fun tr o =>
      o = .halt .diverges ∨ (ClientOp.Kept tr (.clientInit inClientName inServiceName keyTable) →
        ∀ ev ∈ tr, ClientKept ev) := by
  unfold KrbClient.clientInit
  split
  · exact .inr fun _ => List.forall_mem_nil _
  have hspares := @kerberosInitCCache_spares maxKeytabNameLen rounds keyTable inClientName
    krb5KtName krb5CcName s.kerberosContext
  refine wp_bind_of (P := fun tr o => ∃ own : List CtxEvent,
      tr = own.map (Event.within ClientCall.inContext) ∧ Spares keyTable own o)
    (wp_within.mpr (wp_mono hspares fun own o ho => ⟨own, rfl, ho⟩))
    (fun tr authAr htr => ?_) fun tr x htr => ?_
  · obtain ⟨own, rfl, hspares⟩ := htr
    refine wp_mono (Calls.trace (A := ClientCall.Plain) ?_) fun tr' o htr' =>
      .inr ((kept_of_spares hspares htr').resolve_left nofun)
    dsimp only
    split
    · trivial
    refine (calls_clientInitClient _ inClientName).bind fun authAr => ?_
    split
    · trivial
    refine (calls_clientInitServer _ inServiceName).bind fun authAr => ?_
    split <;> trivial
  · obtain ⟨own, rfl, hspares⟩ := htr
    have hlast := @kept_of_spares inClientName inServiceName _ keyTable own [] _ hspares
      (List.forall_mem_nil _)
    rw [List.append_nil] at hlast
    exact hlast.imp_left fun heq => congrArg Outcome.halt (Outcome.halt.inj heq)

theorem calls_deleteAnyContext (minorStatus : UInt32) (s : KrbClient) :
    Calls ClientCall.Plain (s.deleteAnyContext minorStatus) := by
  unfold KrbClient.deleteAnyContext
  split
  · trivial
  · exact (calls_perform trivial).bind fun _ => trivial

theorem clientGetCred_kept (s : KrbClient) : wp s.clientGetCred fun tr _ =>
    FirstTokenFits tr → ∀ ev ∈ tr, ClientKept ev := by
  unfold KrbClient.clientGetCred
  split
  · exact fun _ => List.forall_mem_nil _
  refine wp_perform_bind.mpr fun got => ?_
  refine wp_mono (Calls.trace (A := ClientCall.Plain) ?_) fun tr o htr hfits => ?_
  · dsimp only
    split
    · split
      · exact (calls_deleteAnyContext _ _).bind fun _ => trivial
      · exact (calls_perform trivial).bind fun _ => trivial
    · exact (calls_deleteAnyContext _ _).bind fun _ => trivial
  · refine List.forall_mem_cons.mpr ⟨?_, fun ev hev => (htr ev hev).kept⟩
    exact hfits _ _ _ got List.mem_cons_self

theorem calls_clientAuthServer (s : KrbClient) (cred : Option Bytes) :
    Calls ClientCall.Plain (s.clientAuthServer cred) := by
  unfold KrbClient.clientAuthServer
  cases cred with
  | none => trivial
  | some inputToken =>
    dsimp only
    split
    · trivial
    refine (calls_perform trivial).bind fun got => Calls.bind ?_ fun s => ?_
    · unfold KrbClient.releaseAnyCred
      split
      · trivial
      · exact (calls_perform trivial).bind fun _ => trivial
    refine (calls_perform trivial).bind fun minorStatus => ?_
    split
    · trivial
    split
    · trivial
    · exact (calls_deleteAnyContext _ _).bind fun _ => trivial

/-- What the keytab, the memory and the libraries answer, the trace of an operation shows. -/
theorem prog_kept (s : KrbClient) (op : ClientOp) :
    wp (op.prog maxKeytabNameLen rounds s) fun tr o =>
      o = .halt .diverges ∨ (op.Kept tr → ∀ ev ∈ tr, ClientKept ev) := by
  cases op with
  | clientInit inClientName inServiceName keyTable =>
    refine (wp_bind_ret fun _ => rfl).mpr (wp_mono (clientInit_kept _ _ _) fun tr o ho => ?_)
    refine ho.imp_left fun heq => ?_
    rw [heq]
    rfl
  | clientGetCred => exact wp_mono (clientGetCred_kept s) fun _ _ ho => .inr ho
  | clientAuthServer cred =>
    refine (wp_bind_ret fun _ => rfl).mpr (wp_mono (kept_plain (calls_clientAuthServer s cred))
      fun tr o ho => .inr fun _ => ho)

/-- An operation that fits goes from what the fields say to what the fields say. -/
theorem prog_owns {op : ClientOp} (hfiled : s.kerberosContext.Filed) (hfits : op.Fits s) :
    ClientOwns s.holdings (op.prog maxKeytabNameLen rounds s) Left := by
  cases op with
  | clientInit inClientName inServiceName keyTable =>
    rcases hfits with hrefused | hnothing
    · have hnothing : s.clientInit maxKeytabNameLen rounds inClientName inServiceName keyTable =
          .ret (_, s) := if_pos hrefused
      show ClientOwns _ (s.clientInit _ _ _ _ _ >>= _) _
      rw [hnothing]
      exact .ret ⟨rfl, hfiled⟩
    · rw [hnothing]
      exact (clientInit_owns _ _ _ hnothing).bind fun r held' hleft => .ret hleft
  | clientGetCred => exact clientGetCred_owns hfiled
  | clientAuthServer cred =>
    exact (clientAuthServer_owns hfiled cred).bind fun r held' hleft => .ret hleft

/-- **One operation** that comes to a value goes from what the fields say to what the fields say. -/
theorem clientStep_held {s' : KrbClient} {l : ClientReturn} (hfiled : s.kerberosContext.Filed)
    (hstep : ClientStep maxKeytabNameLen s l s') (hproper : ProperClient s l) :
    Run Ledger s.holdings l.deeds s'.holdings ∧ s'.kerberosContext.Filed := by
  obtain ⟨hfits, hkept⟩ := hproper
  have hkept := (wp_iff.mp (prog_kept s l.op) _ _ hstep).resolve_left nofun hkept
  obtain ⟨held', hrun, rfl, hleft⟩ := (prog_owns hfiled hfits).returned hstep hkept
  exact ⟨hrun, hleft⟩

/-- And one that does not, was cut short. -/
theorem prog_goes_on {op : ClientOp} {tr : List ClientEvent} (hfiled : s.kerberosContext.Filed)
    (hfits : op.Fits s) (hkept : op.Kept tr) :
    ¬ Traces (op.prog maxKeytabNameLen rounds s) tr (.halt .nullPointer) := fun htr =>
  (prog_owns hfiled hfits).halted htr ((wp_iff.mp (prog_kept s op) _ _ htr).resolve_left nofun hkept)

theorem clientRun_held {s' : KrbClient} {ls : List ClientReturn} (hfiled : s.kerberosContext.Filed)
    (hrun : Run (Guarded ProperClient (ClientStep maxKeytabNameLen)) s ls s') :
    Run Ledger s.holdings (ls.flatMap ClientReturn.deeds) s'.holdings ∧
      s'.kerberosContext.Filed := by
  induction hrun with
  | nil s => exact ⟨.nil _, hfiled⟩
  | cons hl _ ih =>
    obtain ⟨hbooks, hmid⟩ := clientStep_held hfiled hl.2 hl.1
    obtain ⟨hrest, hlast⟩ := ih hmid
    rw [List.flatMap_cons]
    exact ⟨hbooks.append hrest, hlast⟩

/-- A whole life: nothing is used or given back that is not held, and in the end all has been given
back, as often as it was acquired. -/
def GivenBack (deeds : List (Deed ClientHandle)) : Prop :=
  Run Ledger 0 deeds 0 ∧ ∀ handle : ClientHandle,
    deeds.count (.acquired handle) = deeds.count (.released handle)

/-- **A client gives back what it was given**: after any run of what is not ruled out, no operation
that is not ruled out is the end of the process, and the end of the object comes to its own end
and leaves nothing. -/
theorem client_gives_back {s : KrbClient} {ls : List ClientReturn}
    (hrun : Run (Guarded ProperClient (ClientStep maxKeytabNameLen)) {} ls s) :
    (∀ (op : ClientOp) (rounds : Nat) (tr : List ClientEvent), op.Fits s → op.Kept tr →
      ¬ Traces (op.prog maxKeytabNameLen rounds s) tr (.halt .nullPointer)) ∧
    ∀ tr o, Traces s.destroy tr o →
      o = .ret () ∧ GivenBack (ls.flatMap ClientReturn.deeds ++ tr.flatMap clientDeeds) := by
  obtain ⟨hbooks, hfiled⟩ := clientRun_held filed_new hrun
  refine ⟨fun op rounds tr hfits hkept => prog_goes_on hfiled hfits hkept, fun tr o hend => ?_⟩
  have hkept : ∀ ev ∈ tr, ClientKept ev := wp_iff.mp (kept_plain (calls_destroy s)) tr o hend
  rcases (destroy_owns hfiled).trace hend hkept with ⟨_, held', rfl, hlast, rfl⟩ | ⟨_, _, hfault⟩
  · have hall := hbooks.append hlast
    refine ⟨rfl, hall, fun handle => ?_⟩
    have hcount := books_count hall handle
    rw [Multiset.count_zero] at hcount
    have hnew : (KrbClient.holdings {}).count handle = 0 := rfl
    rw [hnew] at hcount
    omega
  · exact hfault.elim

/-! ## A handshake -/

/-- Every call succeeds, and a token has three bytes. -/
def clientGranting : (call : ClientCall) → call.Reply
  | .inContext call => granting call
  | .malloc _ => some 90
  | .free _ => ()
  | .krb5InitContext => some 9
  | .krb5FreeContext _ => ()
  | .krb5ParseName _ _ => (true, some 9)
  | .krb5FreePrincipal _ _ => ()
  | .gssImportName name _ => (⟨0, 0⟩, some name.length)
  | .gssAcquireCred _ => (⟨0, 0⟩, some 1)
  | .gssInitSecContext _ _ _ none => ⟨⟨1, 0⟩, some 1, ⟨3, some [1, 2, 3]⟩⟩
  | .gssInitSecContext _ context _ (some _) => ⟨⟨0, 0⟩, context, {}⟩
  | .gssReleaseName _ => 0
  | .gssReleaseCred _ => 0
  | .gssReleaseBuffer _ => 0
  | .gssDeleteSecContext _ => 0

/-- One operation in that environment. -/
def grantedReturn (s : KrbClient) (op : ClientOp) (result : KrbResult) (outCred : Bytes) :
    ClientReturn where
  op
  rounds := 40
  trace := ((op.prog 1100 40 s).runWith clientGranting).1
  result
  outCred

/-- The object after it. -/
def grantedClient (s : KrbClient) (op : ClientOp) : KrbClient :=
  match (op.prog 1100 40 s).eval clientGranting with
  | .ret r => r.2
  | .halt _ => {}

def sampleInitOp : ClientOp := .clientInit (ascii "a@R") (ascii "host@R") smallKeytab

def sampleReady : KrbClient := grantedClient {} sampleInitOp

def sampleAwaiting : KrbClient := grantedClient sampleReady .clientGetCred

def sampleDone : KrbClient := grantedClient sampleAwaiting (.clientAuthServer (some [4]))

def sampleCalls : List ClientReturn := [
  grantedReturn {} sampleInitOp (.ofRc .cdfOk "ClientInit Succeed") [],
  grantedReturn sampleReady .clientGetCred (.ofRc .cdfOk "ClientGetCred succeed") [1, 2, 3],
  grantedReturn sampleAwaiting (.clientAuthServer (some [4]))
    (.ofRc .cdfOk "ClientAuthServer Succeed") []]

theorem firstTokenFits_granting {α : Type} (p : Client α) :
    FirstTokenFits (p.runWith clientGranting).1 := by
  intro credentials context name got hmem _
  have heq := mem_runWith hmem
  injection heq with _ hanswer
  rw [hanswer]
  exact ⟨Nat.succ_pos 2, show 3 < 2 ^ 31 by decide⟩

theorem cacheFound_clientGranting {α : Type} (p : Client α) :
    CacheFound ((p.runWith clientGranting).1.filterMap inner) := by
  intro context hmem
  obtain ⟨⟨call, r⟩, hev, heq⟩ := List.mem_filterMap.mp hmem
  have hanswer := mem_runWith hev
  cases call with
  | inContext call =>
    cases heq
    injection hanswer with _ hanswer
    cases hanswer
  | _ => cases heq

theorem client_gives_back_sample :
    (∀ rounds tr, ¬ Traces (ClientOp.prog 1100 rounds sampleDone (.clientAuthServer (some [4]))) tr
      (.halt .nullPointer)) ∧
    GivenBack (sampleCalls.flatMap ClientReturn.deeds ++
      (sampleDone.destroy.runWith clientGranting).1.flatMap clientDeeds) := by
  have hinit : ClientStep 1100 {} sampleCalls[0] sampleReady := traces_of_eval rfl
  have hgot : ClientStep 1100 sampleReady sampleCalls[1] sampleAwaiting := traces_of_eval rfl
  have hauth : ClientStep 1100 sampleAwaiting sampleCalls[2] sampleDone := traces_of_eval rfl
  have hkept : RealmsKept smallKeytab (sampleCalls[0].trace.filterMap inner) :=
    fun _ => smallKeytab_keeps
  have hrun : Run (Guarded ProperClient (ClientStep 1100)) {} sampleCalls sampleDone :=
    .cons ⟨⟨.inr rfl, hkept, cacheFound_clientGranting _⟩, hinit⟩
      (.cons ⟨⟨trivial, firstTokenFits_granting _⟩, hgot⟩ (.cons ⟨⟨trivial, trivial⟩, hauth⟩ (.nil _)))
  obtain ⟨hgoes, hends⟩ := client_gives_back hrun
  exact ⟨fun rounds tr => hgoes _ rounds tr trivial trivial, (hends _ _ (traces_of_eval rfl)).2⟩

end CdfCrypto.Kerberos
