import CdfCrypto.Kerberos.KrbClientOwnership

/-!
# What a client has authenticated

A client that answers OK from `ClientAuthServer` says that GSS-API completed a handshake. With
whom, is a matter of what the object went through before: the name that is passed as the target is
in a field that `ClientInit` fills, last of all, and that stays as it was where a `ClientInit` fails
before it gets there.

So each operation is told by the calls that matter (`ClientTrace`), and a run by what its past says
of the fields (`Recalled`): the name of the service is the one that was imported last, and a security
context that is there was begun for that name. What `ClientAuthServer` has completed follows
(`authenticated_of_run`). Where there is no name, GSS-API is passed none, and what it does then is not
said here.
-/

namespace CdfCrypto.Kerberos

open Lib

/-- A call of a handshake. -/
def ClientCall.Shakes : ClientCall → Prop
  | gssInitSecContext _ _ _ _ => True
  | _ => False

/-- The import of the name of a service. -/
def ClientCall.Imports : ClientCall → Prop
  | gssImportName _ oid => oid = principalNameElements
  | _ => False

/-- A call that is neither. -/
def ClientCall.Aside (call : ClientCall) : Prop := ¬ call.Shakes ∧ ¬ call.Imports

variable {s s' : KrbClient} {maxKeytabNameLen rounds : Nat}

/-! ## Calls aside -/

section Aside

theorem aside_inContext (call : CtxCall) : (ClientCall.inContext call).Aside := ⟨id, id⟩

theorem aside_free (addr : Nat) : (ClientCall.free addr).Aside := ⟨id, id⟩

theorem calls_within {α : Type} (p : Ctx α) :
    Calls ClientCall.Aside (p.within ClientCall.inContext : Client α) := by
  refine Calls.within ?_
  induction p with
  | ret a => trivial
  | halt x => trivial
  | call e k ih => exact ⟨aside_inContext e, ih⟩

/-- The fields of the handshake are as they were. -/
def Unshaken (s : KrbClient) (s' : KrbClient) : Prop :=
  s'.gssServiceName = s.gssServiceName ∧ s'.gssClientContext = s.gssClientContext

theorem destroyCCacheWith_aside (result : KrbResult) (s : KrbClient) :
    Bounded ClientCall.Aside (s.destroyCCacheWith result) fun r => Unshaken s r.2 :=
  (calls_within _).bounded.bind fun _ _ => .ret ⟨rfl, rfl⟩

theorem cleanupBuffer_aside {failed : Client (KrbResult × KrbClient)} (addr : Nat)
    (h : Bounded ClientCall.Aside failed fun r => Unshaken s r.2) :
    Bounded ClientCall.Aside (KrbClient.cleanupBuffer addr failed) fun r => Unshaken s r.2 :=
  h.bind fun _ hr => .perform_bind (aside_free addr) fun _ => .ret hr

theorem clientInitClient_aside (s : KrbClient) (inClientName : Bytes) :
    Bounded ClientCall.Aside (s.clientInitClient inClientName) fun r => Unshaken s r.2 := by
  have hdestroy : ∀ (t : KrbClient) (result : KrbResult), Unshaken s t →
      Bounded ClientCall.Aside (t.destroyCCacheWith result) fun r => Unshaken s r.2 :=
    fun t result ht => (calls_within _).bounded.bind fun _ _ => .ret ht
  unfold KrbClient.clientInitClient
  refine .perform_bind ⟨id, id⟩ fun made => ?_
  cases made with
  | none => exact destroyCCacheWith_aside _ s
  | some addr =>
    dsimp only
    split
    · exact cleanupBuffer_aside addr (destroyCCacheWith_aside _ s)
    unfold KrbClient.importClient
    -- the name of a client is imported as one of another type
    have hother : userNameElements ≠ principalNameElements := by decide
    refine .perform_bind ⟨id, hother⟩ fun imported => ?_
    dsimp only
    split
    · exact cleanupBuffer_aside addr (hdestroy _ _ ⟨rfl, rfl⟩)
    refine .perform_bind ⟨id, id⟩ fun acquired => ?_
    split
    · refine .perform_bind ⟨id, id⟩ fun _ => ?_
      exact cleanupBuffer_aside addr (hdestroy _ _ ⟨rfl, rfl⟩)
    · exact .perform_bind ⟨id, id⟩ fun _ => .ret ⟨rfl, rfl⟩

theorem calls_krb5NameFormatCheckHack (name : Bytes) :
    Calls ClientCall.Aside (KrbClient.krb5NameFormatCheckHack name) := by
  unfold KrbClient.krb5NameFormatCheckHack
  refine (calls_perform ⟨id, id⟩).bind fun made => ?_
  cases made with
  | none => trivial
  | some context =>
    refine (calls_perform ⟨id, id⟩).bind fun parsed => (calls_perform ⟨id, id⟩).bind fun _ => ?_
    exact (calls_perform ⟨id, id⟩).bind fun _ => trivial

end Aside

/-! ## Operations, by the calls that matter -/

/-- What an initialisation does to the name of the service: it imports one, or leaves the name. -/
inductive InitTrace (before : Option Handle) (service : Bytes) :
    List ClientEvent → Option Handle → Prop
  | aside {tr : List ClientEvent} (h : ∀ ev ∈ tr, ev.1.Aside) : InitTrace before service tr before
  | imported {pre post : List ClientEvent} {status : GssStatus} {name : Option Handle}
      (hpre : ∀ ev ∈ pre, ev.1.Aside) (hpost : ∀ ev ∈ post, ev.1.Aside) :
      InitTrace before service
        (pre ++ ⟨.gssImportName service principalNameElements, (status, name)⟩ :: post)
        (if status.major = gssSComplete then name else none)

theorem InitTrace.after {before name : Option Handle} {service : Bytes} {tr tr' : List ClientEvent}
    (h : InitTrace before service tr' name) (htr : ∀ ev ∈ tr, ev.1.Aside) :
    InitTrace before service (tr ++ tr') name := by
  cases h with
  | aside h => exact .aside (List.forall_mem_append.mpr ⟨htr, h⟩)
  | imported hpre hpost =>
    rw [← List.append_assoc]
    exact .imported (List.forall_mem_append.mpr ⟨htr, hpre⟩) hpost

/-- What one operation comes to. -/
inductive ClientTrace (s : KrbClient) : ClientOp → List ClientEvent → KrbResult → KrbClient → Prop
  | refused {op : ClientOp} {result : KrbResult} (hfailed : result.mResult ≠ 0) :
      ClientTrace s op [] result s
  | inited {inClientName service keyTable : Bytes} {tr : List ClientEvent} {result : KrbResult}
      {s' : KrbClient} (hservice : InitTrace s.gssServiceName service tr s'.gssServiceName)
      (hcontext : s'.gssClientContext = none) :
      ClientTrace s (.clientInit inClientName service keyTable) tr result s'
  | asked {got : Initiated} {post : List ClientEvent} {result : KrbResult} {s' : KrbClient}
      (hcontext : s.gssClientContext = none) (hpost : ∀ ev ∈ post, ev.1.Aside)
      (hservice : s'.gssServiceName = s.gssServiceName) :
      ClientTrace s .clientGetCred (⟨.gssInitSecContext s.clientCredentials none s.gssServiceName
        none, got⟩ :: post) result s'
  | answered {inputToken : Bytes} {got : Initiated} {post : List ClientEvent} {result : KrbResult}
      {s' : KrbClient} (hpost : ∀ ev ∈ post, ev.1.Aside)
      (hservice : s'.gssServiceName = s.gssServiceName)
      (hok : result.mResult = 0 → got.major = gssSComplete) :
      ClientTrace s (.clientAuthServer (some inputToken)) (⟨.gssInitSecContext s.clientCredentials
        s.gssClientContext s.gssServiceName (some inputToken), got⟩ :: post) result s'

/-- What is said of the values of a program. -/
def OfValue {α : Type} (Q : List ClientEvent → α → Prop) (tr : List ClientEvent)
    (o : Outcome KtFault α) : Prop := ∀ a, o = .ret a → Q tr a

section OfValue

variable {α β : Type} {P : α → Prop} {Q : List ClientEvent → β → Prop} {p : Client α}
variable {f : α → Client β}

theorem ofValue_halt {tr : List ClientEvent} {x : KtFault} : OfValue Q tr (.halt x) :=
  fun _ heq => by cases heq

theorem ofValue_ret {b : β} (h : Q [] b) : wp (.ret b : Client β) (OfValue Q) := by
  intro b' heq
  obtain rfl := Outcome.ret.inj heq
  exact h

/-- A part aside comes first. -/
theorem ofValue_aside (hp : Bounded ClientCall.Aside p P)
    (hf : ∀ a tr, P a → (∀ ev ∈ tr, ev.1.Aside) →
      wp (f a) fun tr' o => OfValue Q (tr ++ tr') o) :
    wp (p >>= f) (OfValue Q) := by
  refine wp_bind_of hp.trace (fun tr a ha => hf a tr (ha.2 a rfl) ha.1) fun _ _ _ => ofValue_halt

/-- A part aside is all. -/
theorem ofValue_of_bounded (hp : Bounded ClientCall.Aside p P) :
    wp p (OfValue fun tr a => (∀ ev ∈ tr, ev.1.Aside) ∧ P a) :=
  wp_mono hp.trace fun _ _ ho a heq => ⟨ho.1, ho.2 a heq⟩

end OfValue

/-- What an initialisation comes to, from the object `s`. -/
def InitDone (s : KrbClient) (service : Bytes) (tr : List ClientEvent)
    (r : KrbResult × KrbClient) : Prop :=
  InitTrace s.gssServiceName service tr r.2.gssServiceName ∧
    r.2.gssClientContext = s.gssClientContext

/-- The import, and then a part aside. -/
theorem done_of_imported {rest : Client (KrbResult × KrbClient)} {service : Bytes}
    {status : GssStatus} {name : Option Handle}
    (h : Bounded ClientCall.Aside rest fun r => Unshaken
      { s with gssServiceName := if status.major = gssSComplete then name else none } r.2) :
    wp rest fun tr o => OfValue (InitDone s service)
      (⟨.gssImportName service principalNameElements, (status, name)⟩ :: tr) o := by
  refine wp_mono (ofValue_of_bounded h) fun tr o ho r heq => ?_
  obtain ⟨haside, hservice, hcontext⟩ := ho r heq
  refine ⟨?_, hcontext⟩
  rw [hservice]
  exact @InitTrace.imported _ _ [] tr status name (List.forall_mem_nil _) haside

theorem importServer_done (s : KrbClient) (addr : Nat) (inServiceName : Bytes) :
    wp (s.importServer addr inServiceName) (OfValue (InitDone s inServiceName)) := by
  unfold KrbClient.importServer
  refine wp_perform_bind.mpr fun imported => ?_
  obtain ⟨status, name⟩ := imported
  dsimp only
  by_cases hcomplete : status.major = gssSComplete
  · rw [if_neg (not_not.mpr hcomplete)]
    refine done_of_imported ?_
    rw [if_pos hcomplete]
    exact .perform_bind (aside_free addr) fun _ => .ret ⟨rfl, rfl⟩
  · rw [if_pos hcomplete]
    refine done_of_imported ?_
    rw [if_neg hcomplete]
    refine .perform_bind ⟨id, id⟩ fun _ => .perform_bind ⟨id, id⟩ fun _ => ?_
    refine .perform_bind ⟨id, id⟩ fun _ => cleanupBuffer_aside addr ?_
    exact (calls_within _).bounded.bind fun _ _ => .ret ⟨rfl, rfl⟩

/-- A failure that does not come to the name of the service. -/
theorem done_of_aside {p : Client (KrbResult × KrbClient)} {service : Bytes}
    (h : Bounded ClientCall.Aside p fun r => Unshaken s r.2) :
    wp p (OfValue (InitDone s service)) := by
  refine wp_mono (ofValue_of_bounded h) fun tr o ho r heq => ?_
  obtain ⟨haside, hservice, hcontext⟩ := ho r heq
  refine ⟨?_, hcontext⟩
  rw [hservice]
  exact .aside haside

/-- A part aside has gone before. -/
theorem done_after {p : Client (KrbResult × KrbClient)} {service : Bytes} {tr : List ClientEvent}
    (htr : ∀ ev ∈ tr, ev.1.Aside) (h : wp p (OfValue (InitDone s service))) :
    wp p fun tr' o => OfValue (InitDone s service) (tr ++ tr') o :=
  wp_mono h fun _ _ ho r heq => ⟨(ho r heq).1.after htr, (ho r heq).2⟩

theorem clientInitServer_done (s : KrbClient) (inServiceName : Bytes) :
    wp (s.clientInitServer inServiceName) (OfValue (InitDone s inServiceName)) := by
  have hreturn : ∀ result : KrbResult,
      Bounded ClientCall.Aside (.ret (result, s) : Client (KrbResult × KrbClient)) fun r =>
        Unshaken s r.2 := fun _ => .ret ⟨rfl, rfl⟩
  unfold KrbClient.clientInitServer
  refine ofValue_aside (calls_krb5NameFormatCheckHack inServiceName).bounded
    fun checked tr _ htr => done_after htr ?_
  split
  · exact done_of_aside (hreturn _)
  refine ofValue_aside (calls_perform ⟨id, id⟩).bounded fun made tr _ htr => done_after htr ?_
  cases made with
  | none => exact done_of_aside (hreturn _)
  | some addr =>
    dsimp only
    split
    · exact done_of_aside (.perform_bind (aside_free addr) fun _ => hreturn _)
    · exact importServer_done s addr inServiceName

/-- What one operation comes to, where it comes to an answer. -/
def Told (s : KrbClient) (op : ClientOp) (tr : List ClientEvent)
    (r : (KrbResult × Bytes) × KrbClient) : Prop := ClientTrace s op tr r.1.1 r.2

theorem invalidParam_failed (text : String) : (KrbResult.ofRc .cdfInvalidParam text).mResult ≠ 0 :=
  show (2 : UInt32) ≠ 0 by decide

theorem clientInit_told (s : KrbClient) (inClientName inServiceName keyTable : Bytes) :
    wp (ClientOp.prog maxKeytabNameLen rounds s (.clientInit inClientName inServiceName keyTable))
      (OfValue (Told s (.clientInit inClientName inServiceName keyTable))) := by
  have hinit : ¬ KrbClient.Refused inClientName inServiceName keyTable →
      wp (s.clientInit maxKeytabNameLen rounds inClientName inServiceName keyTable)
        (OfValue (InitDone { s with gssClientContext := none } inServiceName)) := by
    intro hfits
    unfold KrbClient.clientInit
    rw [if_neg hfits]
    refine ofValue_aside (calls_within _).bounded fun authAr tr _ htr => done_after htr ?_
    dsimp only
    split
    · exact done_of_aside (.ret ⟨rfl, rfl⟩)
    refine ofValue_aside (clientInitClient_aside _ _) fun authAr tr hauth htr => done_after htr ?_
    obtain ⟨hservice, hcontext⟩ := hauth
    split
    · exact done_of_aside (.ret ⟨hservice, hcontext⟩)
    refine wp_bind_of (clientInitServer_done authAr.2 inServiceName) (fun tr r hr => ?_)
      fun _ _ _ => ofValue_halt
    obtain ⟨htrace, hcontext'⟩ := hr r rfl
    rw [hservice] at htrace
    split
    · refine ofValue_ret ⟨?_, hcontext'.trans hcontext⟩
      rw [List.append_nil]
      exact htrace
    · refine ofValue_ret ⟨?_, hcontext'.trans hcontext⟩
      rw [List.append_nil]
      exact htrace
  by_cases hrefused : KrbClient.Refused inClientName inServiceName keyTable
  · obtain ⟨result, hfailed, hnothing⟩ : ∃ result : KrbResult, result.mResult ≠ 0 ∧ s.clientInit
        maxKeytabNameLen rounds inClientName inServiceName keyTable = .ret (result, s) :=
      ⟨_, invalidParam_failed _, if_pos hrefused⟩
    show wp (s.clientInit _ _ _ _ _ >>= _) _
    rw [hnothing]
    exact ofValue_ret (.refused hfailed)
  · refine wp_bind_of (hinit hrefused) (fun tr r hr => ?_) fun _ _ _ => ofValue_halt
    obtain ⟨htrace, hcontext⟩ := hr r rfl
    refine ofValue_ret ?_
    rw [List.append_nil]
    exact .inited htrace hcontext

theorem deleteAnyContext_aside (minorStatus : UInt32) (s : KrbClient) :
    Bounded ClientCall.Aside (s.deleteAnyContext minorStatus) fun r =>
      r.2.gssServiceName = s.gssServiceName := by
  unfold KrbClient.deleteAnyContext
  split
  · exact .ret rfl
  · exact .perform_bind ⟨id, id⟩ fun _ => .ret rfl

theorem releaseAnyCred_aside (s : KrbClient) :
    Bounded ClientCall.Aside s.releaseAnyCred fun s' => s'.gssServiceName = s.gssServiceName := by
  unfold KrbClient.releaseAnyCred
  split
  · exact .ret rfl
  · exact .perform_bind ⟨id, id⟩ fun _ => .ret rfl

theorem clientGetCred_told (s : KrbClient) :
    wp s.clientGetCred (OfValue (Told s .clientGetCred)) := by
  unfold KrbClient.clientGetCred
  split
  · exact ofValue_ret (.refused (show (1 : UInt32) ≠ 0 by decide))
  next hidle =>
  have hcontext : s.gssClientContext = none := not_not.mp hidle
  refine wp_perform_bind.mpr fun got => ?_
  have hrest : ∀ {p : Client ((KrbResult × Bytes) × KrbClient)},
      Bounded ClientCall.Aside p (fun r => r.2.gssServiceName = s.gssServiceName) →
      wp p fun tr o => OfValue (Told s .clientGetCred) (⟨.gssInitSecContext s.clientCredentials
        s.gssClientContext s.gssServiceName none, got⟩ :: tr) o := by
    intro p h
    refine wp_mono (ofValue_of_bounded h) fun tr o ho r heq => ?_
    obtain ⟨haside, hservice⟩ := ho r heq
    rw [hcontext]
    exact .asked hcontext haside hservice
  refine hrest ?_
  dsimp only
  split
  · split
    · exact (deleteAnyContext_aside _ _).bind fun _ hr => .ret hr
    · exact .perform_bind ⟨id, id⟩ fun _ => .ret rfl
  · exact (deleteAnyContext_aside _ _).bind fun _ hr => .ret hr

theorem clientAuthServer_told (s : KrbClient) (cred : Option Bytes) :
    wp (s.clientAuthServer cred)
      (OfValue fun tr r => ClientTrace s (.clientAuthServer cred) tr r.1 r.2) := by
  unfold KrbClient.clientAuthServer
  cases cred with
  | none => exact ofValue_ret (.refused (invalidParam_failed _))
  | some inputToken =>
    dsimp only
    split
    · exact ofValue_ret (.refused (invalidParam_failed _))
    refine wp_perform_bind.mpr fun got => ?_
    have hrest : ∀ {p : Client (KrbResult × KrbClient)},
        Bounded ClientCall.Aside p (fun r => r.2.gssServiceName = s.gssServiceName ∧
          (r.1.mResult = 0 → got.major = gssSComplete)) →
        wp p fun tr o => OfValue
          (fun tr r => ClientTrace s (.clientAuthServer (some inputToken)) tr r.1 r.2)
          (⟨.gssInitSecContext s.clientCredentials s.gssClientContext s.gssServiceName
            (some inputToken), got⟩ :: tr) o := by
      intro p h
      refine wp_mono (ofValue_of_bounded h) fun tr o ho r heq => ?_
      obtain ⟨haside, hservice, hok⟩ := ho r heq
      exact .answered haside hservice hok
    refine hrest ?_
    refine (releaseAnyCred_aside _).bind fun s' hs' => .perform_bind ⟨id, id⟩ fun minorStatus => ?_
    have hfailed : KrbRc.cdfError.toUInt32 ≠ 0 := by decide
    split
    · exact .ret ⟨hs', fun hok => absurd hok hfailed⟩
    split
    next hcomplete => exact .ret ⟨hs', fun _ => hcomplete⟩
    · exact (deleteAnyContext_aside _ _).bind fun _ hr =>
        .ret ⟨hr.trans hs', fun hok => absurd hok hfailed⟩

/-- **One operation.** -/
theorem prog_told (s : KrbClient) (op : ClientOp) :
    wp (op.prog maxKeytabNameLen rounds s) (OfValue (Told s op)) := by
  cases op with
  | clientInit inClientName inServiceName keyTable => exact clientInit_told s _ _ _
  | clientGetCred => exact clientGetCred_told s
  | clientAuthServer cred =>
    refine wp_bind_of (clientAuthServer_told s cred) (fun tr r hr => ?_) fun _ _ _ => ofValue_halt
    refine ofValue_ret ?_
    rw [List.append_nil]
    exact hr r rfl

theorem clientStep_told {l : ClientReturn} (hstep : ClientStep maxKeytabNameLen s l s') :
    ClientTrace s l.op l.trace l.result s' := wp_iff.mp (prog_told s l.op) _ _ hstep _ rfl

/-! ## The past -/

/-- The operation imported the name for its service, and all went well. -/
def ClientReturn.Serves (l : ClientReturn) (service : Bytes) (name : Handle) : Prop :=
  (∃ inClientName keyTable, l.op = .clientInit inClientName service keyTable) ∧
    ∃ status : GssStatus, status.major = gssSComplete ∧
      ⟨.gssImportName service principalNameElements, (status, some name)⟩ ∈ l.trace

/-- The operation imported a name for a service. -/
def ClientReturn.Imports (l : ClientReturn) : Prop := ∃ ev ∈ l.trace, ev.1.Imports

/-- The operation began a security context, for this target. -/
def ClientReturn.BeginsFor (l : ClientReturn) (target : Option Handle) : Prop :=
  ∃ credentials inputToken got,
    ⟨.gssInitSecContext credentials none target inputToken, got⟩ ∈ l.trace

def ClientReturn.Begins (l : ClientReturn) : Prop := ∃ target, l.BeginsFor target

/-- What the operations so far say of the fields: the name of the service is the one that was
imported last, and the security context was last begun for it. -/
structure Recalled (ls : List ClientReturn) (s : KrbClient) : Prop where
  service : ∀ name, s.gssServiceName = some name →
    ∃ l service, Latest ClientReturn.Imports ls l ∧ l.Serves service name
  context : s.gssClientContext ≠ none →
    ∃ l, Latest ClientReturn.Begins ls l ∧ l.BeginsFor s.gssServiceName

theorem recalled_nil : Recalled [] {} := ⟨nofun, fun h => absurd rfl h⟩

variable {ls : List ClientReturn} {l : ClientReturn}

/-- One operation more: the fields are as it made them, or as they were. -/
theorem Recalled.snoc (h : Recalled ls s) (hservice : ∀ name, s'.gssServiceName = some name →
      (l.Imports ∧ ∃ service, l.Serves service name) ∨ ¬ l.Imports ∧ s.gssServiceName = some name)
    (hcontext : s'.gssClientContext ≠ none → l.BeginsFor s'.gssServiceName ∨
      ¬ l.Begins ∧ s.gssClientContext ≠ none ∧ s'.gssServiceName = s.gssServiceName) :
    Recalled (ls ++ [l]) s' where
  service := by
    intro name hname
    rcases hservice name hname with ⟨himports, service, hserves⟩ | ⟨hnot, hold⟩
    · exact ⟨l, service, .last himports ls, hserves⟩
    · obtain ⟨l', service, hlatest, hserves⟩ := h.service name hold
      exact ⟨l', service, hlatest.before hnot, hserves⟩
  context := by
    intro hthere
    rcases hcontext hthere with hbegins | ⟨hnot, hold, hsame⟩
    · exact ⟨l, .last ⟨_, hbegins⟩ ls, hbegins⟩
    · obtain ⟨l', hlatest, hbegins⟩ := h.context hold
      rw [hsame]
      exact ⟨l', hlatest.before hnot, hbegins⟩

/-- An operation all of whose calls are aside, but for one of a handshake at most. -/
theorem not_imports {first : List ClientEvent} {post : List ClientEvent}
    (hfirst : ∀ ev ∈ first, ev.1.Shakes) (hpost : ∀ ev ∈ post, ev.1.Aside)
    (htrace : l.trace = first ++ post) : ¬ l.Imports := by
  rintro ⟨⟨call, r⟩, hev, himports⟩
  rw [htrace] at hev
  rcases List.mem_append.mp hev with hev | hev
  · have hshakes := hfirst _ hev
    cases call with
    | gssImportName name oid => exact hshakes
    | _ => exact himports
  · exact (hpost _ hev).2 himports

/-- An operation all of whose calls are aside, but for one that goes on with a context. -/
theorem not_begins {first post : List ClientEvent}
    (hfirst : ∀ credentials target inputToken got,
      ⟨.gssInitSecContext credentials none target inputToken, got⟩ ∉ first)
    (hpost : ∀ ev ∈ post, ev.1.Aside) (htrace : l.trace = first ++ post) : ¬ l.Begins := by
  rintro ⟨target, credentials, inputToken, got, hev⟩
  rw [htrace] at hev
  rcases List.mem_append.mp hev with hev | hev
  · exact hfirst _ _ _ _ hev
  · exact (hpost _ hev).1 trivial

theorem recalled_step (h : Recalled ls s) (hstep : ClientStep maxKeytabNameLen s l s') :
    Recalled (ls ++ [l]) s' := by
  have htold := clientStep_told hstep
  generalize hop : l.op = op at htold
  generalize htrace : l.trace = trace at htold
  have hnothing : ∀ ev ∈ ([] : List ClientEvent), ev.1.Shakes := List.forall_mem_nil _
  cases htold with
  | refused _ =>
    have hquiet : ∀ ev ∈ ([] : List ClientEvent), ev.1.Aside := List.forall_mem_nil _
    exact h.snoc (fun name hname => .inr ⟨not_imports hnothing hquiet htrace, hname⟩)
      fun hthere => .inr ⟨not_begins (fun _ _ _ _ => List.not_mem_nil) hquiet htrace, hthere, rfl⟩
  | @inited inClientName service keyTable _ _ _ hservice hcontext =>
    refine h.snoc (fun name hname => ?_) fun hthere => absurd hcontext hthere
    generalize hbefore : s.gssServiceName = before at hservice
    generalize hafter : s'.gssServiceName = after at hservice hname
    cases hservice with
    | aside haside => exact .inr ⟨not_imports hnothing haside htrace, hname⟩
    | @imported pre post status imported _ _ =>
      left
      have hmem : ⟨.gssImportName service principalNameElements, (status, imported)⟩ ∈ l.trace := by
        rw [htrace]
        exact List.mem_append_right _ List.mem_cons_self
      refine ⟨⟨_, hmem, rfl⟩, service, ⟨inClientName, keyTable, hop⟩, status, ?_⟩
      split at hname
      next hcomplete => exact ⟨hcomplete, hname ▸ hmem⟩
      · cases hname
  | @asked got post _ _ _ hpost hservice =>
    have hfirst : ∀ ev ∈ [(⟨.gssInitSecContext s.clientCredentials none s.gssServiceName none, got⟩ :
        ClientEvent)], ev.1.Shakes := List.forall_mem_singleton.mpr trivial
    refine h.snoc (fun name hname => .inr ⟨not_imports hfirst hpost htrace, ?_⟩) fun _ => .inl ?_
    · rwa [← hservice]
    · rw [hservice]
      refine ⟨s.clientCredentials, none, got, ?_⟩
      rw [htrace]
      exact List.mem_cons_self
  | @answered inputToken got post _ _ hpost hservice _ =>
    have hfirst : ∀ ev ∈ [(⟨.gssInitSecContext s.clientCredentials s.gssClientContext
        s.gssServiceName (some inputToken), got⟩ : ClientEvent)], ev.1.Shakes :=
      List.forall_mem_singleton.mpr trivial
    refine h.snoc (fun name hname => .inr ⟨not_imports hfirst hpost htrace, ?_⟩) fun _ => ?_
    · rwa [← hservice]
    · -- a handshake that is answered without a context begins one
      by_cases hcontext : s.gssClientContext = none
      · left
        rw [hservice]
        refine ⟨s.clientCredentials, some inputToken, got, ?_⟩
        rw [htrace, ← hcontext]
        exact List.mem_cons_self
      · refine .inr ⟨@not_begins l [_] post (fun _ _ _ _ hmem => ?_) hpost htrace, hcontext, hservice⟩
        have heq := List.mem_singleton.mp hmem
        injection heq with hcall _
        injection hcall with _ hnone
        exact hcontext hnone.symm

theorem recalled_of_run (hrun : Run (ClientStep maxKeytabNameLen) {} ls s) : Recalled ls s :=
  Run.history (K := Recalled) (fun _ _ _ _ h hstep => recalled_step h hstep) hrun recalled_nil

/-- **What a client has authenticated.** Where `ClientAuthServer` answers OK, GSS-API has completed
the handshake with the token of the server; its target was the name that the last `ClientInit` that
imported one took from GSS-API, for the service it was called with, and the context that it went on
with was last begun for that target. Of a handshake without a target (`GSS_C_NO_NAME`, which a client
passes that has imported no name) it says nothing about whom; GSS-API refuses to begin one. -/
theorem authenticated_of_run {past rest : List ClientReturn} {cred : Option Bytes}
    (hrun : Run (ClientStep maxKeytabNameLen) {} (past ++ l :: rest) s)
    (hop : l.op = .clientAuthServer cred) (hok : l.result.mResult = 0) :
    ∃ inputToken credentials context target got, cred = some inputToken ∧
      ⟨.gssInitSecContext credentials context target (some inputToken), got⟩ ∈ l.trace ∧
      got.major = gssSComplete ∧
      (∀ name, target = some name →
        ∃ l' service, Latest ClientReturn.Imports past l' ∧ l'.Serves service name) ∧
      (context ≠ none → ∃ l', Latest ClientReturn.Begins past l' ∧ l'.BeginsFor target) := by
  obtain ⟨t, hpast, hlast⟩ := Run.split past (l :: rest) hrun
  have hknown := recalled_of_run hpast
  cases hlast with
  | cons hstep _ =>
    have htold := clientStep_told hstep
    rw [hop] at htold
    generalize htrace : l.trace = trace at htold
    cases htold with
    | refused hfailed => exact absurd hok hfailed
    | answered _ _ hcomplete =>
      exact ⟨_, _, _, _, _, rfl, List.mem_cons_self, hcomplete hok, hknown.service, hknown.context⟩

/-- The handshake of the sample. -/
theorem authenticated_of_run_sample : ∃ credentials context target got,
    ⟨.gssInitSecContext credentials context target (some [4]), got⟩ ∈ sampleCalls[2].trace ∧
    (∀ name, target = some name → ∃ l' service,
      Latest ClientReturn.Imports (sampleCalls.take 2) l' ∧ l'.Serves service name) ∧
    (context ≠ none → ∃ l', Latest ClientReturn.Begins (sampleCalls.take 2) l' ∧
      l'.BeginsFor target) := by
  have hinit : ClientStep 1100 {} sampleCalls[0] sampleReady := traces_of_eval rfl
  have hgot : ClientStep 1100 sampleReady sampleCalls[1] sampleAwaiting := traces_of_eval rfl
  have hauth : ClientStep 1100 sampleAwaiting sampleCalls[2] sampleDone := traces_of_eval rfl
  have hrun : Run (ClientStep 1100) {} (sampleCalls.take 2 ++ sampleCalls[2] :: []) sampleDone :=
    .cons hinit (.cons hgot (.cons hauth (.nil _)))
  obtain ⟨inputToken, credentials, context, target, got, hcred, hmem, -, hservice, hcontext⟩ :=
    authenticated_of_run hrun rfl rfl
  obtain rfl : [4] = inputToken := Option.some.inj hcred
  exact ⟨credentials, context, target, got, hmem, hservice, hcontext⟩

end CdfCrypto.Kerberos
