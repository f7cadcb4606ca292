import CdfCrypto.Kerberos.KrbServer

/-!
# What an authentication means

`ServerAuth` has one result for what GSS-API says four times over, and passes on a minor status
where it can. Zero means success in all of them, so the question is what else could come out as
zero: nothing does (`serverAuth_sound`). Whatever comes out, the context that was accepted is
gone.
-/

namespace CdfCrypto.Kerberos

open Lib

/-! ## Statuses -/

/-- The major status of a call that is part of an authentication. -/
def majorOf : KrbEvent → Option UInt32
  | ⟨.gssAcceptSecContext _ _, accepted⟩ => some accepted.major
  | ⟨.gssInquireContext _, inquired⟩ => some inquired.major
  | ⟨.gssDisplayName _, displayed⟩ => some displayed.1.major
  | _ => none

/-- A call that has not gone wrong, as far as it can. -/
def Complete (ev : KrbEvent) : Prop := ∀ major, majorOf ev = some major → major = gssSComplete

/-- The call that makes a context. -/
def KrbCall.Accepts : KrbCall → Prop
  | gssAcceptSecContext _ _ => True
  | _ => False

/-- Calls about memory. -/
def KrbCall.OfMemory : KrbCall → Prop
  | malloc _ => True
  | gssReleaseName _ => True
  | gssReleaseBuffer _ => True
  | _ => False

theorem KrbCall.OfMemory.complete {ev : KrbEvent} (h : ev.1.OfMemory) : Complete ev := by
  obtain ⟨call, reply⟩ := ev
  cases call with
  | malloc size => exact nofun
  | gssReleaseName name => exact nofun
  | gssReleaseBuffer buffer => exact nofun
  | _ => exact h.elim

theorem KrbCall.OfMemory.not_accepts {call : KrbCall} (h : call.OfMemory) : ¬ call.Accepts := by
  cases call with
  | gssAcceptSecContext credentials inputToken => exact h.elim
  | _ => exact id

/-- A status that is passed on is not zero where the major one is not. -/
theorem statusOf_ne_zero {majorStatus : UInt32} (h : majorStatus ≠ gssSComplete)
    (minorStatus : UInt32) : statusOf minorStatus majorStatus ≠ 0 := by
  unfold statusOf
  by_cases hminor : minorStatus ≠ 0
  · rwa [if_pos hminor]
  · rwa [if_neg hminor]

namespace KrbServer

variable {s s' : KrbServer}

/-! ## The name of the client -/

/-- The name was asked for and is what GSS-API showed, up to its first NUL. -/
inductive Named (context : Option Handle) (tr : List KrbEvent) : Bytes → Prop
  | mk {inquired : Inquired} {status : GssStatus} {name : GssBuffer} {bytes : Bytes}
      (hinquired : ⟨.gssInquireContext context, inquired⟩ ∈ tr)
      (hdisplayed : ⟨.gssDisplayName inquired.clientName, (status, name)⟩ ∈ tr)
      (hlength : 0 < name.length) (hvalue : name.value = some bytes) :
      Named context tr (cstr (bytes.take name.length))

theorem Named.mono {context : Option Handle} {tr tr' : List KrbEvent} {name : Bytes}
    (h : Named context tr name) (hsub : tr ⊆ tr') : Named context tr' name := by
  obtain ⟨hinquired, hdisplayed, hlength, hvalue⟩ := h
  exact .mk (hsub hinquired) (hsub hdisplayed) hlength hvalue

/-- What was copied of a name that was shown. -/
theorem Named.of_copy {context : Option Handle} {tr : List KrbEvent} {inquired : Inquired}
    {status : GssStatus} {name : GssBuffer} {clientPrincipal : Bytes}
    (hinquired : ⟨.gssInquireContext context, inquired⟩ ∈ tr)
    (hdisplayed : ⟨.gssDisplayName inquired.clientName, (status, name)⟩ ∈ tr)
    (hlength : 0 < name.length) (hcopy : name.copy = some clientPrincipal) :
    Named context tr (cstr clientPrincipal) := by
  unfold GssBuffer.copy at hcopy
  split at hcopy
  · cases hcopy
  next bytes hvalue =>
  split at hcopy
  · obtain rfl := Option.some.inj hcopy
    exact .mk hinquired hdisplayed hlength hvalue
  · cases hcopy

theorem calls_releaseName (minorStatus : UInt32) (name : Option Handle) :
    Calls KrbCall.OfMemory (releaseName minorStatus name) := by
  unfold releaseName
  split
  · trivial
  · exact calls_perform trivial

theorem calls_freeClientPrincipalRes (minorStatus : UInt32) (clientName serverName : Option Handle)
    (name : GssBuffer) :
    Calls KrbCall.OfMemory (freeClientPrincipalRes minorStatus clientName serverName name) := by
  refine (calls_releaseName _ _).bind fun minorStatus => (calls_releaseName _ _).bind fun _ => ?_
  split
  · trivial
  · exact calls_perform trivial

/-- What `ServerGetClientPrincipal` comes to. -/
def PrincipalGot (s : KrbServer) (tr : List KrbEvent) : Outcome Empty (KrbResult × KrbServer) → Prop
  | .ret (result, s') => s'.gssServerContext = s.gssServerContext ∧
      (∀ ev ∈ tr, ¬ ev.1.Accepts) ∧
      (result.mResult = 0 → (∀ ev ∈ tr, Complete ev) ∧
        Named s.gssServerContext tr s'.clientPrincipName)
  | .halt _ => True

/-- The client was asked for, and its name; the rest is about memory. -/
def asked (s : KrbServer) (inquired : Inquired) (displayed : GssStatus × GssBuffer)
    (tr : List KrbEvent) : List KrbEvent :=
  ⟨.gssInquireContext s.gssServerContext, inquired⟩ ::
    ⟨.gssDisplayName inquired.clientName, displayed⟩ :: tr

theorem asked_quiet {inquired : Inquired} {displayed : GssStatus × GssBuffer} {tr : List KrbEvent}
    (h : ∀ ev ∈ tr, ev.1.OfMemory) : ∀ ev ∈ asked s inquired displayed tr, ¬ ev.1.Accepts :=
  List.forall_mem_cons.mpr ⟨id, List.forall_mem_cons.mpr
    ⟨id, fun ev hev => (h ev hev).not_accepts⟩⟩

theorem asked_complete {inquired : Inquired} {displayed : GssStatus × GssBuffer}
    {tr : List KrbEvent} (hinquired : inquired.major = gssSComplete)
    (hdisplayed : displayed.1.major = gssSComplete) (h : ∀ ev ∈ tr, ev.1.OfMemory) :
    ∀ ev ∈ asked s inquired displayed tr, Complete ev := by
  refine List.forall_mem_cons.mpr ⟨?_, List.forall_mem_cons.mpr
    ⟨?_, fun ev hev => (h ev hev).complete⟩⟩
  · intro major hmajor
    exact (Option.some.inj hmajor).symm.trans hinquired
  · intro major hmajor
    exact (Option.some.inj hmajor).symm.trans hdisplayed

/-- A failure after the name was asked for. -/
theorem free_refuses (s : KrbServer) {inquired : Inquired} {status : GssStatus} {name : GssBuffer}
    {pre : List KrbEvent} {result : UInt32 → KrbResult} (hpre : ∀ ev ∈ pre, ev.1.OfMemory)
    (hresult : ∀ minorStatus, (result minorStatus).mResult ≠ 0) :
    wp (freeClientPrincipalRes status.minor inquired.clientName inquired.serverName name >>=
      fun minorStatus => .ret (result minorStatus, s)) fun tr =>
        PrincipalGot s (asked s inquired (status, name) (pre ++ tr)) := by
  refine wp_bind_of (calls_freeClientPrincipalRes status.minor inquired.clientName
    inquired.serverName name).trace (fun tr minorStatus htr => ?_) fun _ _ _ => trivial
  rw [wp_ret, List.append_nil]
  exact ⟨rfl, asked_quiet (List.forall_mem_append.mpr ⟨hpre, htr⟩),
    fun h => absurd h (hresult minorStatus)⟩

theorem serverGetClientPrincipal_got (s : KrbServer) :
    wp s.serverGetClientPrincipal (PrincipalGot s) := by
  unfold serverGetClientPrincipal
  refine wp_perform_bind.mpr fun inquired => ?_
  by_cases hinquired : inquired.major = gssSComplete
  rotate_left
  · rw [if_pos hinquired]
    exact ⟨rfl, by simp [KrbCall.Accepts], fun h => absurd h (statusOf_ne_zero hinquired _)⟩
  rw [if_neg (not_not.mpr hinquired)]
  refine wp_perform_bind.mpr fun displayed => ?_
  obtain ⟨status, name⟩ := displayed
  dsimp only
  by_cases hdisplayed : status.major = gssSComplete
  rotate_left
  · rw [if_pos hdisplayed]
    have hnothing : ∀ ev ∈ ([] : List KrbEvent), ev.1.OfMemory := nofun
    exact free_refuses s hnothing (statusOf_ne_zero hdisplayed)
  rw [if_neg (not_not.mpr hdisplayed)]
  split
  · have hnothing : ∀ ev ∈ ([] : List KrbEvent), ev.1.OfMemory := nofun
    exact free_refuses s hnothing fun _ => nofun
  next hlength =>
  refine wp_perform_bind.mpr fun allocated => ?_
  have hmalloc : ∀ ev ∈ ([⟨.malloc (name.length + 1), allocated⟩] : List KrbEvent),
      ev.1.OfMemory := List.forall_mem_singleton.mpr trivial
  split
  · exact free_refuses s hmalloc fun _ => nofun
  split
  · exact free_refuses s hmalloc fun _ => nofun
  next clientPrincipal hcopy =>
  refine wp_bind_of (calls_freeClientPrincipalRes status.minor inquired.clientName
    inquired.serverName name).trace (fun tr minorStatus htr => ?_) fun _ _ _ => trivial
  have hrest : ∀ ev ∈ (⟨.malloc (name.length + 1), allocated⟩ :: tr : List KrbEvent),
      ev.1.OfMemory := List.forall_mem_cons.mpr ⟨trivial, htr⟩
  rw [wp_ret, List.append_nil]
  refine ⟨rfl, asked_quiet hrest, fun _ => ⟨asked_complete hinquired hdisplayed hrest, ?_⟩⟩
  exact Named.of_copy List.mem_cons_self (List.mem_cons_of_mem _ List.mem_cons_self) (by omega) hcopy

/-! ## The output token and the status -/

/-- What `HandleServerAuthOutputToken` comes to. -/
def TokenHandled (s : KrbServer) (outputToken : GssBuffer) (tr : List KrbEvent) :
    Outcome Empty (KrbResult × Option CredOut × KrbServer) → Prop
  | .ret (result, _, s') => (∀ ev ∈ tr, ev.1.OfMemory) ∧
      s'.gssServerContext = s.gssServerContext ∧
      (result.mResult = KrbRc.cdfOk.toUInt32 → outputToken.length ≠ 0 ∧ outputToken.value ≠ none)
  | .halt _ => True

theorem handleServerAuthOutputToken_handled (s : KrbServer) (outputToken : GssBuffer) :
    wp (s.handleServerAuthOutputToken outputToken) (TokenHandled s outputToken) := by
  unfold handleServerAuthOutputToken
  split
  · exact ⟨nofun, rfl, nofun⟩
  next hempty =>
  obtain ⟨hlength, hvalue⟩ := not_or.mp hempty
  refine wp_perform_bind.mpr fun allocated => ?_
  have hmalloc : ∀ ev ∈ ([⟨.malloc outputToken.length, allocated⟩] : List KrbEvent),
      ev.1.OfMemory := List.forall_mem_singleton.mpr trivial
  split
  · exact ⟨hmalloc, rfl, nofun⟩
  split
  · exact ⟨hmalloc, rfl, nofun⟩
  refine wp_perform_bind.mpr fun minorStatus => ?_
  exact ⟨List.forall_mem_cons.mpr ⟨trivial, List.forall_mem_singleton.mpr trivial⟩, rfl,
    fun _ => ⟨hlength, hvalue⟩⟩

/-- The trace of a context's end. -/
def Deletes (context : Option Handle) (tr : List KrbEvent) : Prop :=
  ∃ minorStatus, tr = [⟨.gssDeleteSecContext context, minorStatus⟩]

/-- What `CheckReturn` comes to: nothing, or the end of the context and a status that is not
zero. -/
def Checked (s : KrbServer) (majorStatus : UInt32) (tr : List KrbEvent) :
    Outcome Empty (KrbResult × KrbServer) → Prop
  | .ret (result, s') => (majorStatus = gssSComplete ∧ tr = [] ∧ result.mResult = 0 ∧ s' = s) ∨
      (result.mResult ≠ 0 ∧ Deletes s.gssServerContext tr ∧ s'.gssServerContext = none)
  | .halt _ => True

theorem refuse_checked {majorStatus : UInt32} (h : majorStatus ≠ gssSComplete) :
    wp (s.refuse majorStatus) (Checked s majorStatus) :=
  fun minorStatus => .inr ⟨statusOf_ne_zero h minorStatus, ⟨minorStatus, rfl⟩, rfl⟩

theorem checkReturn_checked (s : KrbServer) (majorStatus : UInt32) :
    wp (s.checkReturn majorStatus) (Checked s majorStatus) := by
  unfold checkReturn
  split
  next hfailed => exact refuse_checked hfailed.1
  next hfailed =>
  split
  next hcontinue => exact refuse_checked (hcontinue ▸ by decide)
  next hcontinue => exact .inl ⟨by_contra fun h => hfailed ⟨h, hcontinue⟩, rfl, rfl, rfl⟩

/-! ## The whole -/

/-- What must have been said of a client, from the call that accepted it on. -/
structure Authenticated (accepted : Accepted) (tr : List KrbEvent) (name : Bytes) : Prop where
  complete : accepted.major = gssSComplete
  token : accepted.outputToken.length ≠ 0 ∧ accepted.outputToken.value ≠ none
  calls : ∀ ev ∈ tr, Complete ev
  named : Named accepted.context tr name

/-- The context that was made is ended. -/
def Ends (context : Option Handle) (tr : List KrbEvent) : Prop :=
  ∀ handle, context = some handle →
    ∃ minorStatus, ⟨.gssDeleteSecContext (some handle), minorStatus⟩ ∈ tr

/-- What `ServerAuth` comes to: nothing is asked, or one context is accepted and ended. -/
inductive AuthEnds (s : KrbServer) (credIn : Bytes) :
    List KrbEvent → Outcome Empty (KrbResult × Option CredOut × KrbServer) → Prop
  | refused {result : KrbResult} (hresult : result.mResult ≠ 0) :
    AuthEnds s credIn [] (.ret (result, none, s))
  | accepted {accepted : Accepted} {tr : List KrbEvent} {result : KrbResult}
      {written : Option CredOut} {s' : KrbServer} (hquiet : ∀ ev ∈ tr, ¬ ev.1.Accepts)
      (hends : Ends accepted.context tr) (hgone : s'.gssServerContext = none)
      (hok : result.mResult = 0 → Authenticated accepted tr s'.clientPrincipName) :
    AuthEnds s credIn (⟨.gssAcceptSecContext s.serverCredentials credIn, accepted⟩ :: tr)
      (.ret (result, written, s'))

theorem ends_of_mem {context : Option Handle} {tr : List KrbEvent} (minorStatus : UInt32)
    (h : ⟨.gssDeleteSecContext context, minorStatus⟩ ∈ tr) : Ends context tr := by
  intro handle heq
  subst heq
  exact ⟨minorStatus, h⟩

section Accepted

variable {credIn : Bytes} {accepted : Accepted} {written : Option CredOut} {s₁ : KrbServer}
  {tr : List KrbEvent}

/-- The end after an output token that could not be handled. -/
theorem refuseToken_ends {authResult : KrbResult} (hfailed : authResult.mResult ≠ 0)
    (hcontext : s₁.gssServerContext = accepted.context) (hquiet : ∀ ev ∈ tr, ¬ ev.1.Accepts) :
    wp (s₁.deleteAnyContext >>= fun s₂ =>
      .perform (KrbCall.gssReleaseBuffer accepted.outputToken) >>= fun _ =>
        .ret (authResult, written, s₂)) fun tr' => AuthEnds s credIn
          (⟨.gssAcceptSecContext s.serverCredentials credIn, accepted⟩ :: (tr ++ tr')) := by
  unfold deleteAnyContext
  rw [hcontext]
  split
  next hnone =>
    intro released
    refine .accepted (List.forall_mem_append.mpr ⟨hquiet, List.forall_mem_singleton.mpr id⟩) ?_
      (hcontext.trans hnone) fun h => absurd h hfailed
    rw [hnone]
    exact nofun
  next hsome =>
    unfold deleteSecContext
    rw [hcontext]
    intro deleted released
    exact .accepted (List.forall_mem_append.mpr ⟨hquiet, List.forall_mem_cons.mpr
      ⟨id, List.forall_mem_singleton.mpr id⟩⟩) (ends_of_mem deleted (by simp)) rfl
      fun h => absurd h hfailed

/-- The end with a client whose context is complete. -/
theorem client_ends (hcontext : s₁.gssServerContext = accepted.context)
    (hcomplete : accepted.major = gssSComplete)
    (htoken : accepted.outputToken.length ≠ 0 ∧ accepted.outputToken.value ≠ none)
    (hmemory : ∀ ev ∈ tr, ev.1.OfMemory) :
    wp (s₁.serverGetClientPrincipal >>= fun principal => principal.2.deleteSecContext >>=
      fun deleted => .ret (principal.1, written, deleted.2)) fun tr' => AuthEnds s credIn
        (⟨.gssAcceptSecContext s.serverCredentials credIn, accepted⟩ :: (tr ++ tr')) := by
  refine wp_bind_of (serverGetClientPrincipal_got s₁) (fun tr₁ principal hgot => ?_)
    fun _ x _ => x.elim
  obtain ⟨principal, s₂⟩ := principal
  obtain ⟨hsame, hquiet, hnamed⟩ := hgot
  dsimp only at hsame hnamed ⊢
  rw [hcontext] at hsame hnamed
  unfold deleteSecContext
  rw [hsame]
  intro deleted
  have hdelete : ∀ ev ∈ ([⟨.gssDeleteSecContext accepted.context, deleted⟩] : List KrbEvent),
      ¬ ev.1.Accepts ∧ Complete ev := List.forall_mem_singleton.mpr ⟨id, nofun⟩
  refine .accepted ?_ (ends_of_mem deleted (by simp)) rfl fun hok => ?_
  · exact List.forall_mem_append.mpr ⟨fun ev hev => (hmemory ev hev).not_accepts,
      List.forall_mem_append.mpr ⟨hquiet, fun ev hev => (hdelete ev hev).1⟩⟩
  · obtain ⟨hcalls, hname⟩ := hnamed hok
    refine ⟨hcomplete, htoken, ?_, hname.mono (by simp)⟩
    exact List.forall_mem_append.mpr ⟨fun ev hev => (hmemory ev hev).complete,
      List.forall_mem_append.mpr ⟨hcalls, fun ev hev => (hdelete ev hev).2⟩⟩

end Accepted

theorem serverAuth_ends (initial : Bool) (s : KrbServer) (credIn : Bytes)
    (credOut credLenOut : Bool) :
    wp (s.serverAuth initial credIn credOut credLenOut) (AuthEnds s credIn) := by
  unfold serverAuth
  split
  · exact .refused (by decide)
  split
  · exact .refused (by decide)
  split
  · exact .refused (by decide)
  refine wp_perform_bind.mpr fun accepted => ?_
  dsimp only
  refine wp_bind_of (handleServerAuthOutputToken_handled _ accepted.outputToken)
    (fun tr handled hhandled => ?_) fun _ x _ => x.elim
  obtain ⟨authResult, written, s₁⟩ := handled
  obtain ⟨hmemory, hcontext, htoken⟩ := hhandled
  have hquiet : ∀ ev ∈ tr, ¬ ev.1.Accepts := fun ev hev => (hmemory ev hev).not_accepts
  dsimp only at hcontext htoken ⊢
  split
  next hfailed => exact refuseToken_ends hfailed hcontext hquiet
  next hhandled =>
  refine wp_bind_of (checkReturn_checked s₁ accepted.major) (fun tr₁ checked hchecked => ?_)
    fun _ x _ => x.elim
  obtain ⟨checked, s₂⟩ := checked
  rcases hchecked with ⟨hcomplete, rfl, hzero, rfl⟩ | ⟨hrefused, ⟨deleted, rfl⟩, hgone⟩
  · dsimp only
    rw [if_neg (not_not.mpr hzero)]
    exact client_ends hcontext hcomplete (htoken (not_not.mp hhandled)) hmemory
  · dsimp only
    rw [if_pos hrefused, hcontext]
    exact .accepted (List.forall_mem_append.mpr ⟨hquiet, List.forall_mem_singleton.mpr id⟩)
      (ends_of_mem deleted (by simp)) hgone fun h => absurd h hrefused

/-- **Soundness.** An authentication succeeds only where every call of it did and a client has
shown a name, and the context it accepted never outlives the call. -/
theorem serverAuth_sound {initial : Bool} {credIn : Bytes} {credOut credLenOut : Bool}
    {tr : List KrbEvent} {result : KrbResult} {written : Option CredOut}
    (h : Traces (s.serverAuth initial credIn credOut credLenOut) tr (.ret (result, written, s'))) :
    (result.mResult = KrbRc.cdfOk.toUInt32 → ∃ accepted rest,
      tr = ⟨.gssAcceptSecContext s.serverCredentials credIn, accepted⟩ :: rest ∧
        Authenticated accepted rest s'.clientPrincipName) ∧
    ∀ pre credentials inputToken accepted post,
      tr = pre ++ ⟨.gssAcceptSecContext credentials inputToken, accepted⟩ :: post →
        Ends accepted.context post ∧ s'.gssServerContext = none := by
  cases wp_iff.mp (serverAuth_ends initial s credIn credOut credLenOut) _ _ h with
  | refused hresult =>
    exact ⟨fun hok => absurd hok hresult, fun pre _ _ _ post htr => by simp at htr⟩
  | @accepted a rest result written s' hquiet hends hgone hok =>
    refine ⟨fun hzero => ⟨a, rest, rfl, hok hzero⟩, fun pre credentials inputToken b post htr => ?_⟩
    -- there is no other such call
    cases pre with
    | nil =>
      obtain ⟨hcall, rfl⟩ := List.cons.inj htr
      cases hcall
      exact ⟨hends, hgone⟩
    | cons ev pre =>
      obtain ⟨-, rfl⟩ := List.cons.inj htr
      exact absurd trivial (hquiet _ (List.mem_append_right _ List.mem_cons_self))

/-- A server that has been inited, and a client it knows. -/
def sampleTrace : List KrbEvent :=
  [⟨.gssAcceptSecContext (some 1) (ascii "ticket"), ⟨⟨0, 0⟩, some 2, ⟨2, some [6, 9]⟩⟩⟩,
    ⟨.malloc 2, true⟩, ⟨.gssReleaseBuffer ⟨2, some [6, 9]⟩, 0⟩,
    ⟨.gssInquireContext (some 2), ⟨⟨0, 0⟩, some 3, some 4⟩⟩,
    ⟨.gssDisplayName (some 3), (⟨0, 0⟩, ⟨5, some (ascii "alice")⟩)⟩, ⟨.malloc 6, true⟩,
    ⟨.gssReleaseName (some 3), 0⟩, ⟨.gssReleaseName (some 4), 0⟩,
    ⟨.gssReleaseBuffer ⟨5, some (ascii "alice")⟩, 0⟩, ⟨.gssDeleteSecContext (some 2), 0⟩]

theorem sampleTrace_traces : Traces
    (({ serverCredentials := some 1 } : KrbServer).serverAuth true (ascii "ticket") true true)
    sampleTrace (.ret (.ofRc .cdfOk "ServerGetClientPrincipal succeed", some ⟨[6, 9], 2⟩,
      { serverCredentials := some 1, serverCredOut := some [6, 9],
        clientPrincipName := ascii "alice" })) :=
  .call (.call (.call (.call (.call (.call (.call (.call (.call (.call (.ret _))))))))))

theorem serverAuth_sound_alice : ∃ accepted rest,
    sampleTrace = ⟨.gssAcceptSecContext (some 1) (ascii "ticket"), accepted⟩ :: rest ∧
      Authenticated accepted rest (ascii "alice") :=
  (serverAuth_sound sampleTrace_traces).1 rfl

end KrbServer

end CdfCrypto.Kerberos
