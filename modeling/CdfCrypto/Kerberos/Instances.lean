import CdfCrypto.Kerberos.AuthSoundness
import Mathlib.Logic.Function.Basic

/-!
# Several servers in one process

`ServerAuth` refuses a server that has not been inited, but asks the process and not the object:
`g_initial` is set by the first `ServerInit` that succeeds, of whatever object, and by none
cleared (`initial_of_run`). So an object is refused for want of its own `ServerInit` exactly as
long as there has been none at all (`refusesUninited_iff`).
-/

namespace CdfCrypto.Kerberos

open Lib

/-! ## The process -/

/-- The servers of a process, and the variable they share. -/
structure KrbProcess where
  initial : Bool := false
  server : Nat → KrbServer := fun _ => {}

/-- A call on a server. -/
inductive KrbOp
  | serverInit (servicePrincipleName keyTable : Bytes)
  | serverAuth (credIn : Bytes) (credOut credLenOut : Bool)

/-- One call on a server, with the variable, as the process makes it. -/
def KrbOp.prog (initial : Bool) (s : KrbServer) : KrbOp → Krb (KrbResult × Bool × KrbServer)
  | serverInit servicePrincipleName keyTable => s.serverInit initial servicePrincipleName keyTable
  | serverAuth credIn credOut credLenOut => do
    let result ← s.serverAuth initial credIn credOut credLenOut
    .ret (result.1, initial, result.2.2)

/-- A call that has been made: on which server, what was asked meanwhile, and the answer. -/
structure KrbServerCall where
  id : Nat
  op : KrbOp
  tr : List KrbEvent
  result : KrbResult

/-- One call. -/
def KrbStep (p : KrbProcess) (c : KrbServerCall) (p' : KrbProcess) : Prop :=
  ∃ s', Traces (c.op.prog p.initial (p.server c.id)) c.tr (.ret (c.result, p'.initial, s')) ∧
    p'.server = Function.update p.server c.id s'

/-- A `ServerInit`. -/
def KrbServerCall.Inits (c : KrbServerCall) : Prop :=
  match c.op with
  | .serverInit _ _ => True
  | .serverAuth _ _ _ => False

/-- A `ServerInit` that succeeded. -/
def KrbServerCall.Inited (c : KrbServerCall) : Prop :=
  c.Inits ∧ c.result.mResult = KrbRc.cdfOk.toUInt32

/-- The last `ServerInit` on a server succeeded. -/
def LastInited (id : Nat) (calls : List KrbServerCall) : Prop :=
  ∃ pre c post, calls = pre ++ c :: post ∧ c.id = id ∧ c.Inited ∧
    ∀ c' ∈ post, c'.id = id → ¬ c'.Inits

/-! ## The variable -/

/-- What `ServerInit` does to the variable. -/
def SetsInitial (initial : Bool) : Outcome Empty (KrbResult × Bool × KrbServer) → Prop
  | .ret (result, initial', _) =>
    initial' = true ↔ initial = true ∨ result.mResult = KrbRc.cdfOk.toUInt32
  | .halt _ => True

theorem serverInit_setsInitial (initial : Bool) (s : KrbServer)
    (servicePrincipleName keyTable : Bytes) :
    wp (s.serverInit initial servicePrincipleName keyTable) fun _ o => SetsInitial initial o := by
  have hfailed : initial = true ↔
      initial = true ∨ KrbRc.cdfError.toUInt32 = KrbRc.cdfOk.toUInt32 :=
    ⟨.inl, fun h => h.elim id nofun⟩
  unfold KrbServer.serverInit
  split
  · exact ⟨.inl, fun h => h.elim id nofun⟩
  refine wp_perform_bind.mpr fun keytab => ?_
  split
  · exact hfailed
  dsimp only
  refine wp_bind_any (fun gssUserName _ => ?_) fun _ _ => trivial
  split
  · exact hfailed
  refine wp_bind_any (fun serviceNameBuffer _ => ?_) fun _ _ => trivial
  split
  · exact hfailed
  refine wp_perform_bind.mpr fun imported => ?_
  split
  · exact fun _ => hfailed
  refine wp_perform_bind.mpr fun acquired => ?_
  split
  · exact fun _ _ => hfailed
  · exact ⟨fun _ => .inr rfl, fun _ => rfl⟩

/-- The variable is as it was. -/
def KeepsInitial (initial : Bool) : Outcome Empty (KrbResult × Bool × KrbServer) → Prop
  | .ret (_, initial', _) => initial' = initial
  | .halt _ => True

theorem serverAuth_keepsInitial (initial : Bool) (s : KrbServer) (credIn : Bytes)
    (credOut credLenOut : Bool) :
    wp ((KrbOp.serverAuth credIn credOut credLenOut).prog initial s)
      fun _ o => KeepsInitial initial o := wp_bind_any (fun _ _ => rfl) fun _ _ => trivial

variable {p p' : KrbProcess} {calls : List KrbServerCall} {c : KrbServerCall}

/-- **One call.** The variable is set by a `ServerInit` that succeeds, and kept by the rest. -/
theorem KrbStep.initial_iff (h : KrbStep p c p') :
    p'.initial = true ↔ p.initial = true ∨ c.Inited := by
  obtain ⟨s', htr, -⟩ := h
  obtain ⟨id, op, tr, result⟩ := c
  cases op with
  | serverInit servicePrincipleName keyTable =>
    have hsets := wp_iff.mp (serverInit_setsInitial p.initial (p.server id) servicePrincipleName
      keyTable) _ _ htr
    exact hsets.trans (or_congr_right ⟨fun h => ⟨trivial, h⟩, And.right⟩)
  | serverAuth credIn credOut credLenOut =>
    have hkeeps := wp_iff.mp (serverAuth_keepsInitial p.initial (p.server id) credIn credOut
      credLenOut) _ _ htr
    rw [show p'.initial = p.initial from hkeeps]
    exact ⟨.inl, fun h => h.elim (fun hset => hset) fun hinited => hinited.1.elim⟩

/-- **A run.** The variable is set once any `ServerInit` has succeeded. -/
theorem initial_of_run (hrun : Run KrbStep p calls p') :
    p'.initial = true ↔ p.initial = true ∨ ∃ c ∈ calls, c.Inited := by
  induction hrun with
  | nil p => exact ⟨.inl, fun h => h.elim id fun ⟨_, hmem, _⟩ => absurd hmem List.not_mem_nil⟩
  | cons hstep _ ih =>
    rw [ih, hstep.initial_iff, or_assoc]
    simp only [List.mem_cons, exists_eq_or_imp]

/-! ## A server that has not been inited -/

/-- The server is refused for want of a `ServerInit`, and GSS-API is not asked. -/
def RefusesUninited (tr : List KrbEvent) (result : KrbResult) : Prop :=
  result.mResult = KrbRc.cdfUninited.toUInt32 ∧ ∀ ev ∈ tr, ¬ ev.1.Accepts

/-- What `ServerAuth` says first. -/
def AsksProcess (initial : Bool) (tr : List KrbEvent) :
    Outcome Empty (KrbResult × Option CredOut × KrbServer) → Prop
  | .ret (result, _, _) => RefusesUninited tr result ↔ initial = false
  | .halt _ => True

theorem serverAuth_asksProcess (initial : Bool) (s : KrbServer) (credIn : Bytes)
    (credOut credLenOut : Bool) :
    wp (s.serverAuth initial credIn credOut credLenOut) (AsksProcess initial) := by
  unfold KrbServer.serverAuth
  cases initial with
  | false => exact ⟨fun _ => rfl, fun _ => ⟨rfl, nofun⟩⟩
  | true =>
    rw [if_neg (not_not.mpr rfl)]
    split
    · exact ⟨fun h => absurd h.1 (by decide), nofun⟩
    split
    · exact ⟨fun h => absurd h.1 (by decide), nofun⟩
    -- from here on the client is accepted first
    intro accepted
    refine wp_iff.mpr fun tr o _ => ?_
    cases o with
    | halt x => exact x.elim
    | ret answer => exact ⟨fun h => absurd trivial (h.2 _ List.mem_cons_self), nofun⟩

variable {id : Nat} {credIn : Bytes} {credOut credLenOut : Bool} {tr : List KrbEvent}
  {result : KrbResult} {written : Option CredOut} {s' : KrbServer}

/-- **When a server is refused for want of its own `ServerInit`.** After any calls on any servers,
a `ServerAuth` on a server whose last `ServerInit` has not succeeded is refused, and GSS-API not
asked, if and only if no `ServerInit` of any server has succeeded. -/
theorem refusesUninited_iff (hrun : Run KrbStep {} calls p)
    (h : Traces ((p.server id).serverAuth p.initial credIn credOut credLenOut) tr
      (.ret (result, written, s'))) :
    (LastInited id calls ∨ RefusesUninited tr result) ↔
      (LastInited id calls ∨ ∀ c ∈ calls, ¬ c.Inited) := by
  have hasks := wp_iff.mp (serverAuth_asksProcess p.initial (p.server id) credIn credOut credLenOut)
    _ _ h
  have hinitial := initial_of_run hrun
  refine or_congr_right (hasks.trans ?_)
  rw [← Bool.not_eq_true, hinitial]
  simp

/-! ## A stranger among the servers -/

/-- The first server is inited. -/
def sampleInit : KrbServerCall where
  id := 0
  op := .serverInit (ascii "host") (ascii "keytab")
  tr := [⟨.kerberosInitKeytab (ascii "keytab") (ascii "host"), 0⟩, ⟨.malloc 10, true⟩,
    ⟨.malloc 4, true⟩, ⟨.gssImportName (ascii "host") userNameElements, (⟨0, 0⟩, some 1)⟩,
    ⟨.gssAcquireCred (some 1), (⟨0, 0⟩, some 1)⟩]
  result := .ofRc .cdfOk "ServerInit success"

def sampleProcess : KrbProcess where
  initial := true
  server := Function.update (fun _ => {}) 0 { gssServiceName := some 1, serverCredentials := some 1 }

theorem sampleInit_traces : Traces (sampleInit.op.prog false {}) sampleInit.tr
    (.ret (sampleInit.result, true, { gssServiceName := some 1, serverCredentials := some 1 })) :=
  .call (.call (.call (.call (.call (.ret _)))))

theorem sampleInit_run : Run KrbStep {} [sampleInit] sampleProcess :=
  .cons ⟨_, sampleInit_traces, rfl⟩ (.nil _)

/-- The second one is asked to accept a client, and has no credentials. -/
def strangerTrace : List KrbEvent :=
  ⟨.gssAcceptSecContext none (ascii "ticket"), ⟨⟨0, 0⟩, some 2, ⟨2, some [6, 9]⟩⟩⟩ ::
    KrbServer.sampleTrace.tail

theorem strangerTrace_traces : Traces
    ((sampleProcess.server 1).serverAuth sampleProcess.initial (ascii "ticket") true true)
    strangerTrace (.ret (.ofRc .cdfOk "ServerGetClientPrincipal succeed", some ⟨[6, 9], 2⟩,
      { serverCredOut := some [6, 9], clientPrincipName := ascii "alice" })) :=
  .call (.call (.call (.call (.call (.call (.call (.call (.call (.call (.ret _))))))))))

/-- An `Init` of the first server whose keytab is refused. -/
def failedInit : KrbServerCall where
  id := 0
  op := .serverInit (ascii "host") (ascii "keytab")
  tr := [⟨.kerberosInitKeytab (ascii "keytab") (ascii "host"), 1⟩]
  result := .ofRc .cdfError "ServerInit keytab error"

theorem failedInit_run : Run KrbStep {} [failedInit] {} := by
  have htr : Traces (failedInit.op.prog false {}) failedInit.tr
      (.ret (failedInit.result, false, {})) := .call (.ret _)
  have hsame : Function.update (fun _ : Nat => ({} : KrbServer)) 0 {} = fun _ => {} :=
    Function.update_eq_self 0 _
  have hstep : KrbStep {} failedInit { server := Function.update (fun _ => {}) 0 {} } :=
    ⟨_, htr, rfl⟩
  rw [hsame] at hstep
  exact .cons hstep (.nil _)

theorem not_lastInited_one {c : KrbServerCall} (hid : c.id = 0) : ¬ LastInited 1 [c] := by
  intro hlast
  obtain ⟨pre, c', post, heq, hid', -, -⟩ := hlast
  have hmem : c' ∈ [c] := heq ▸ List.mem_append_right _ List.mem_cons_self
  obtain rfl := List.mem_singleton.mp hmem
  exact absurd (hid.symm.trans hid') (by decide)

theorem sampleInit_inited : sampleInit.Inited := ⟨trivial, rfl⟩

theorem failedInit_not_inited : ¬ failedInit.Inited := fun h => absurd h.2 (by decide)

theorem refused_traces : Traces ((({} : KrbProcess).server 1).serverAuth false (ascii "ticket") true
    true) [] (.ret (.ofRc .cdfUninited "Server is not inited", none, {})) := .ret _

/-- After a failed `Init` of the first server the second is refused; after one that succeeds it is
not, though neither was its own. -/
theorem refusesUninited_iff_stranger :
    (Run KrbStep {} [failedInit] {} ∧
      RefusesUninited [] (.ofRc .cdfUninited "Server is not inited")) ∧
    Run KrbStep {} [sampleInit] sampleProcess ∧
      ¬ RefusesUninited strangerTrace (.ofRc .cdfOk "ServerGetClientPrincipal succeed") := by
  refine ⟨⟨failedInit_run, ?_⟩, sampleInit_run, fun hrefuses => ?_⟩
  · refine ((refusesUninited_iff failedInit_run refused_traces).mpr
      (.inr fun c hc => ?_)).resolve_left (not_lastInited_one rfl)
    obtain rfl := List.mem_singleton.mp hc
    exact failedInit_not_inited
  · rcases (refusesUninited_iff sampleInit_run strangerTrace_traces).mp (.inr hrefuses) with
      hlast | hnone
    · exact not_lastInited_one rfl hlast
    · exact hnone _ (List.mem_singleton.mpr rfl) sampleInit_inited

/-- **A server that has never been inited accepts a client.** -/
theorem stranger_accepts : ¬ ∀ (calls : List KrbServerCall) (p : KrbProcess) (id : Nat)
    (credIn : Bytes) (credOut credLenOut : Bool) (tr : List KrbEvent) (result : KrbResult)
    (written : Option CredOut) (s' : KrbServer), Run KrbStep {} calls p →
    Traces ((p.server id).serverAuth p.initial credIn credOut credLenOut) tr
      (.ret (result, written, s')) →
    LastInited id calls ∨ RefusesUninited tr result := by
  intro hall
  rcases hall _ _ 1 _ _ _ _ _ _ _ sampleInit_run strangerTrace_traces with hlast | hrefused
  · exact not_lastInited_one rfl hlast
  · exact absurd hrefused.1 (by decide)

end CdfCrypto.Kerberos
