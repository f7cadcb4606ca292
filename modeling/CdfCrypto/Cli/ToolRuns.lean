import CdfCrypto.Cli.Printed
import CdfCrypto.Lib.Handler
import CdfCrypto.Lib.Parallel

/-!
# Processes of the tool

A process of the tool has key managers of its own, which are new, and a terminal. What all
processes have in common is the vault. `Process.prog` puts the managers in the place of the calls of
`main`, so a process is a program over what a manager asks of its environment, and `ToolStep` is one
such call of one of any number of processes. A process that is killed makes no more calls.

A ciphertext that is printed was made of a line that was typed: `Derived` follows it back through
any number of `--reEncrypt` to the plaintext of one `--encrypt`.
-/

namespace CdfCrypto.Cli

open Lib
open KeyManagement OpenbaoKeyManager

/-! ## One process -/

/-- The managers of a process, and what is still to be typed. -/
structure ToolState where
  managers : Managers := {}
  input : Bytes

/-- The state with a manager that has run. -/
def ToolState.ran (s : ToolState) (m : OpenbaoKeyManager) : ToolState :=
  { s with managers := { s.managers with openbao := m } }

/-- What answers a call of `main`. Both classes of managers end in the singleton. -/
def CliCall.answer (H : KmHost) : (c : CliCall) → ToolState → Km (Except StdException c.Reply × ToolState)
  | cinGet, s => .ret (.ok s.input.head?, { s with input := s.input.tail })
  | init km kmcPath accessToken domainCount, s => do
    let result ← (LifeCall.init km kmcPath accessToken domainCount).prog H s.managers
    .ret (result.1, { s with managers := result.2 })
  | unInit km, s => do
    let result ← (LifeCall.unInit km).prog H s.managers
    .ret (result.1, { s with managers := result.2 })
  | type km, s => .ret (.ok (km.type s.managers), s)
  | getLatestKey _ domainId, s => do
    let result ← s.managers.openbao.getLatestKey H domainId 0
    .ret (.ok result.1.1, s.ran result.2)
  | createKey _ domainId, s => do
    let result ← s.managers.openbao.createKey H domainId
    .ret (.ok result.1, s.ran result.2)
  | displayKey _ domainId, s => do
    let result ← s.managers.openbao.displayKey domainId
    .ret (.ok result.1, s)
  | removeKey _ domainId keyId, s => do
    let result ← s.managers.openbao.removeKey domainId keyId
    .ret (.ok result.1, s.ran result.2)
  | encrypt _ alg domainId plaintext, s => do
    let result ← s.managers.openbao.encrypt H alg domainId plaintext
    .ret (.ok result.1, s.ran result.2)
  | decrypt _ alg domainId ciphertext, s => do
    let result ← s.managers.openbao.decrypt H alg domainId ciphertext
    .ret (.ok result, s)

structure Process where
  host : ToolHost
  args : List Bytes
  input : Bytes

/-- What a process comes to: its exit code and the ciphertext it prints, or an exception. -/
abbrev ToolEnd := Except StdException (Nat × Option Bytes) × ToolState

/-- `main`, with its managers. -/
def Process.prog (H : KmHost) (P : Process) : Km ToolEnd :=
  (cryptionToolMain P.host P.args).serve (CliCall.answer H) (fun _ => .undefined) { input := P.input }

/-! ### The casts of the tool -/

section Casts

variable {H : KmHost} {s : ToolState} {km : Borrowed} {domainId : Nat}

/-- A program of the tool, with its managers. -/
abbrev served {α : Type} (H : KmHost) (s : ToolState) (p : CliProg α) :
    Km (Except StdException α × ToolState) :=
  p.serve (CliCall.answer H) (fun _ => .undefined) s

/-- The `switch` of the tool is that of the cryptor. -/
theorem switchType_served : served H s (switchType km) = (do
    let cls ← .ofExcept (castTo s.managers km)
    .ret (.ok cls.isSome, s)) := by
  unfold switchType served castTo
  rw [serve_perform_bind, CliCall.answer, Prog.ret_bind, goOn]
  cases km.type s.managers <;> cases km <;> rfl

/-- What comes after the `switch`. -/
theorem switchType_bind_served {α : Type} {f : Bool → CliProg α} :
    served H s (switchType km >>= f) = (do
      let cls ← .ofExcept (castTo s.managers km)
      served H s (f cls.isSome)) := by
  have hbind : served H s (switchType km >>= f) =
      served H s (switchType km) >>= goOn fun known s' => served H s' (f known) :=
    serve_bind _ f s
  rw [hbind, switchType_served]
  cases castTo s.managers km <;> rfl

/-- `KmCryptor::Encrypt` of the tool, with its managers, is that of the library. -/
theorem cryptorEncrypt_served {alg : CryptoSymAlg} {plaintext : Bytes} :
    served H s (cryptorEncrypt km alg plaintext domainId) = (do
      let result ← kmCryptorEncrypt H s.managers (some km) alg plaintext domainId
      .ret (.ok result.1, { s with managers := result.2 })) := by
  unfold cryptorEncrypt kmCryptorEncrypt
  rw [switchType_bind_served]
  dsimp only
  rw [Prog.bind_assoc]
  refine congrArg (_ >>= ·) (funext fun cls => ?_)
  cases cls with
  | none => rfl
  | some b =>
    rw [Option.isSome_some, if_pos rfl, served, serve_perform_bind, CliCall.answer, Prog.bind_assoc]
    dsimp only
    rw [Prog.bind_assoc]
    rfl

theorem cryptorDecrypt_served {alg : CryptoSymAlg} {ciphertext : Bytes} :
    served H s (cryptorDecrypt km alg ciphertext domainId) = (do
      let result ← kmCryptorDecrypt H s.managers (some km) alg ciphertext domainId
      .ret (.ok result, s)) := by
  unfold cryptorDecrypt kmCryptorDecrypt
  rw [switchType_bind_served]
  dsimp only
  rw [Prog.bind_assoc]
  refine congrArg (_ >>= ·) (funext fun cls => ?_)
  cases cls with
  | none => rfl
  | some b =>
    rw [Option.isSome_some, if_pos rfl, served, serve_perform_bind, CliCall.answer, Prog.bind_assoc]
    dsimp only
    rw [Prog.bind_assoc]
    rfl

/-- The tool's own callers have no meaning either, once the singleton carries the vault's tag. -/
theorem domainKey_mistagged (htype : s.managers.openbao.type = .vault) :
    served H s (prepareKmDomainKey .openbao domainId) = .halt .undefined ∧
      served H s (checkDomainKey .openbao domainId) = .halt .undefined := by
  unfold prepareKmDomainKey checkDomainKey
  rw [switchType_bind_served, switchType_bind_served, castTo_mistagged htype]
  exact ⟨rfl, rfl⟩

end Casts

/-! ### What a call does -/

variable {H : KmHost} {d k : Nat}

theorem calls_prepareMapLoop {A : Call → Prop}
    (hread : ∀ exePath token d k, A (.run exePath token (.read d k))) (pairs : List (Nat × Nat)) :
    ∀ m, Calls A (OpenbaoKeyManager.prepareMapLoop H m pairs) := by
  induction pairs with
  | nil => exact fun m => trivial
  | cons pair pairs ih =>
    intro m
    refine (calls_runCommandAndGetResult _ _ _ (hread _ _ _ _)).bind fun result => ?_
    split
    · trivial
    split
    · trivial
    refine (calls_ofExcept _).bind fun time => ?_
    split
    · exact ih _
    · trivial

/-- `Init` lists and reads. -/
theorem calls_init {A : Call → Prop} (hlock : ∀ mode, A (.acquire mode) ∧ A (.release mode))
    (hpath : ∀ path, A (.canonicalPath path)) (hlist : ∀ exePath token, A (.run exePath token .list))
    (hread : ∀ exePath token d k, A (.run exePath token (.read d k))) (m : OpenbaoKeyManager)
    (exePath token : Bytes) (domainCount : Nat) : Calls A (m.init H exePath token domainCount) := by
  refine calls_locked (hlock _).1 (hlock _).2 ?_
  split
  · trivial
  refine ⟨hpath _, fun canonical => ?_⟩
  cases canonical with
  | none => trivial
  | some exeRealPath =>
    dsimp only
    split
    · split
      · trivial
      split
      · trivial
      have hprepare : ∀ m, Calls A (OpenbaoKeyManager.prepareMap H m) := by
        intro m
        refine (calls_runCommandAndGetResult _ _ _ (hlist _ _)).bind fun result => ?_
        split
        · trivial
        split
        · trivial
        split
        · trivial
        · trivial
        · exact (calls_prepareMapLoop hread _ _).bind fun _ => trivial
      refine (hprepare _).bind fun prepared => ?_
      split
      · trivial
      · split <;> trivial
    · trivial

/-- `Init` and `UnInit` of either manager. -/
theorem calls_lifeCall {A : Call → Prop} (hlock : ∀ mode, A (.acquire mode) ∧ A (.release mode))
    (hpath : ∀ path, A (.canonicalPath path)) (hlist : ∀ exePath token, A (.run exePath token .list))
    (hread : ∀ exePath token d k, A (.run exePath token (.read d k))) (call : LifeCall)
    (s : Managers) : Calls A (call.prog H s) := by
  cases call with
  | init km exePath token domainCount =>
    cases km with
    | openbao => exact (calls_init hlock hpath hlist hread _ _ _ _).bind fun _ => trivial
    | vault => exact (calls_init hlock hpath hlist hread _ _ _ _).bind fun _ => trivial
  | unInit km => cases km <;> trivial

/-- The call does not delete the key. -/
def LeavesKey (d k : Nat) : Call → Prop
  | .run _ _ (.delete d' k') => ¬ (d' = d ∧ k' = k)
  | _ => True

theorem LeavesKey.noDelete {ev : KmEvent} (h : LeavesKey d k ev.1) : ¬ Deletes d k ev := by
  obtain ⟨c, reply⟩ := ev
  intro hdel
  cases c with
  | run exePath token cmd =>
    cases cmd with
    | delete d' k' => exact h hdel.1
    | _ => exact hdel
  | _ => exact hdel

/-- **Only a removal deletes**, and only its key. -/
theorem answer_noDelete (c : CliCall) (s : ToolState) (hc : ∀ km, c ≠ .removeKey km d k) :
    wp (c.answer H s) fun tr _ => ∀ ev ∈ tr, ¬ Deletes d k ev := by
  have hlife : ∀ call : LifeCall, wp (call.prog H s.managers) fun tr _ =>
      ∀ ev ∈ tr, ¬ Deletes d k ev := by
    intro call
    have hcalls : Calls (LeavesKey d k) (call.prog H s.managers) :=
      calls_lifeCall (fun _ => ⟨trivial, trivial⟩) (fun _ => trivial) (fun _ _ => trivial)
        (fun _ _ _ _ => trivial) call _
    exact wp_mono hcalls.trace fun tr o h ev hev => (h ev hev).noDelete
  cases c with
  | cinGet => exact fun ev hev => absurd hev List.not_mem_nil
  | type km => exact fun ev hev => absurd hev List.not_mem_nil
  | init km kmcPath token n => exact wp_bind_answer (hlife _) fun _ => ⟨_, rfl⟩
  | unInit km => exact wp_bind_answer (hlife _) fun _ => ⟨_, rfl⟩
  | getLatestKey km d' =>
    refine wp_bind_answer (wp_mono (getLatestKey_traces H _ d' 0) fun tr o h => ?_) fun _ => ⟨_, rfl⟩
    exact h.sparesKey.noDelete
  | createKey km d' =>
    refine wp_bind_answer (wp_mono (createKey_traces H _ d') fun tr o h => ?_) fun _ => ⟨_, rfl⟩
    exact h.sparesKey.noDelete
  | displayKey km d' =>
    have hreads := displayKey_reads (d := d) (k := k) H s.managers.openbao d'
    refine wp_bind_answer (wp_mono hreads fun tr o h => ?_) fun _ => ⟨_, rfl⟩
    exact h.noDelete
  | removeKey km d' k' =>
    have hne : ¬ (d' = d ∧ k' = k) := by
      rintro ⟨rfl, rfl⟩
      exact hc km rfl
    refine wp_bind_answer (wp_mono (removeKey_traces _ d' k') fun tr o h => ?_) fun _ => ⟨_, rfl⟩
    cases h with
    | refused _ => simp [Deletes, acquired, released]
    | failed _ => simp [Deletes, acquired, released, ran, hne]
    | removed _ _ => simp [Deletes, acquired, released, ran, hne]
  | encrypt km alg d' p =>
    refine wp_bind_answer (wp_mono (encrypt_traces H _ alg d' p) fun tr o h => ?_) fun _ => ⟨_, rfl⟩
    exact h.sparesKey.noDelete
  | decrypt km alg d' c =>
    refine wp_bind_answer (wp_mono (decrypt_traces H _ alg d' c) fun tr o h => ?_) fun _ => ⟨_, rfl⟩
    exact h.reads.noDelete

/-- What is made has a small id. -/
theorem answer_createsSmall (c : CliCall) (s : ToolState) : Calls CreatesSmall (c.answer H s) := by
  have hlife : ∀ call : LifeCall, Calls CreatesSmall (call.prog H s.managers) := fun call =>
    calls_lifeCall (fun _ => ⟨trivial, trivial⟩) (fun _ => trivial) (fun _ _ => trivial)
      (fun _ _ _ _ => trivial) call _
  have hasks : ∀ {α : Type} {p : Km α}, Calls AsksOnly p → Calls CreatesSmall p := fun h =>
    h.mono AsksOnly.createsSmall
  cases c with
  | cinGet => trivial
  | type km => trivial
  | init km kmcPath token n => exact (hlife _).bind fun _ => trivial
  | unInit km => exact (hlife _).bind fun _ => trivial
  | getLatestKey km d => exact (calls_getLatestKey _ (fun _ _ _ => trivial) 0).bind fun _ => trivial
  | createKey km d => exact (createsSmall_createKey H _ d).bind fun _ => trivial
  | displayKey km d => exact (hasks (asksOnly_displayKey _ d)).bind fun _ => trivial
  | removeKey km d k => exact (createsSmall_removeKey _ d k).bind fun _ => trivial
  | encrypt km alg d p => exact (createsSmall_encrypt H _ alg d p).bind fun _ => trivial
  | decrypt km alg d c => exact (hasks (asksOnly_decrypt H _ alg d c)).bind fun _ => trivial

theorem Process.noDelete (P : Process) (h : ¬ Removes P.host P.args d k) :
    wp (P.prog H) fun tr _ => ∀ ev ∈ tr, ¬ Deletes d k ev := by
  have hcalls : Calls (fun c => ∀ km, c ≠ .removeKey km d k) (cryptionToolMain P.host P.args) := by
    refine calls_main (fun c hplain km heq => ?_) fun km d' k' hremoves km' heq => ?_
    · rw [heq] at hplain
      exact hplain trivial
    · obtain ⟨-, rfl, rfl⟩ := CliCall.removeKey.inj heq
      exact h hremoves
  exact wp_serve_events (fun c s hc => answer_noDelete c s hc) hcalls _

theorem Process.createsSmall (P : Process) : Calls CreatesSmall (P.prog H) := by
  have hcalls : Calls (fun _ => True) (cryptionToolMain P.host P.args) :=
    calls_main (fun _ _ => trivial) fun _ _ _ _ => trivial
  exact Calls.serve (fun c s _ => answer_createsSmall c s) hcalls _

/-! ### What is typed -/

theorem answer_input (c : CliCall) (s : ToolState) (hc : c ≠ .cinGet) :
    wp (c.answer H s) fun _ o => ∀ r s', o = .ret (r, s') → s'.input = s.input := by
  have hkept : ∀ {α β : Type} {p : Km α} {f : α → Km (β × ToolState)},
      (∀ a, ∃ b s', f a = .ret (b, s') ∧ s'.input = s.input) →
        wp (p >>= f) fun _ o => ∀ r s', o = .ret (r, s') → s'.input = s.input := by
    intro α β p f hf
    refine wp_bind_any (fun tr a => ?_) fun tr x r s' heq => by cases heq
    obtain ⟨b, s₁, hret, hinput⟩ := hf a
    rw [hret]
    intro r s' heq
    obtain ⟨-, rfl⟩ := Prod.mk.inj (Outcome.ret.inj heq)
    exact hinput
  cases c with
  | cinGet => exact absurd rfl hc
  | type km =>
    intro r s' heq
    obtain ⟨-, rfl⟩ := Prod.mk.inj (Outcome.ret.inj heq)
    rfl
  | _ => exact hkept fun _ => ⟨_, _, rfl, rfl⟩

/-- The characters that were read are those of the terminal, and what stands for its end. -/
theorem keystrokes_of_served {s s' : ToolState} {evs : List CliEvent} {tr : List KmEvent}
    (h : Served (CliCall.answer H) s evs tr s') :
    ∃ n, keystrokes evs <+: s.input ++ List.replicate n 255 := by
  induction h with
  | nil s => exact ⟨0, List.nil_prefix⟩
  | @cons c r s s' s'' evs first rest hfirst hrest ih =>
    obtain ⟨n, hprefix⟩ := ih
    by_cases hc : c = .cinGet
    · subst hc
      cases hfirst
      cases hinput : s.input with
      | nil =>
        simp only [hinput, List.tail_nil, List.nil_append] at hprefix
        exact ⟨n + 1, List.prefix_cons_inj _ |>.mpr hprefix⟩
      | cons b input =>
        simp only [hinput, List.tail_cons] at hprefix
        exact ⟨n, List.prefix_cons_inj _ |>.mpr hprefix⟩
    · have hsame : s'.input = s.input := wp_iff.mp (answer_input c s hc) _ _ hfirst _ _ rfl
      have hkeys : keystrokes (⟨c, r⟩ :: evs) = keystrokes evs := by
        cases c with
        | cinGet => exact absurd rfl hc
        | _ => rfl
      rw [hsame] at hprefix
      rw [hkeys]
      exact ⟨n, hprefix⟩

theorem firstLine_of_prefix {text rest input : Bytes} {stop : UInt8} {n : Nat}
    (htext : ∀ b ∈ text, ¬ EndsLine b) (hstop : EndsLine stop)
    (h : text ++ stop :: rest <+: input ++ List.replicate n 255) : firstLine input = text := by
  have hnot : ∀ {as : Bytes}, stop ∈ as ++ List.replicate n 255 → stop ∈ as := by
    intro as hmem
    rcases List.mem_append.mp hmem with hmem | hmem
    · exact hmem
    · obtain rfl := (List.mem_replicate.mp hmem).2
      rcases hstop with hstop | hstop | hstop <;> cases hstop
  obtain ⟨post, heq⟩ := h
  rw [List.append_assoc, List.cons_append] at heq
  rcases List.append_eq_append_iff.mp heq with ⟨as, rfl, has⟩ | ⟨as, -, has⟩
  · cases as with
    | nil => exact absurd (hnot (has ▸ List.mem_cons_self)) List.not_mem_nil
    | cons b as =>
      obtain ⟨rfl, -⟩ := List.cons.inj has
      exact firstLine_append htext hstop as
  · have hmem : stop ∈ [] ++ List.replicate n 255 := by
      rw [List.nil_append, has]
      exact List.mem_append_right _ List.mem_cons_self
    exact absurd (hnot hmem) List.not_mem_nil

/-- **One process that prints.** Each event of its `main` was answered by calls of its own. -/
theorem Process.printed {P : Process} {tr : List KmEvent} {code : Nat} {c : Bytes} {s : ToolState}
    (htr : Traces (P.prog H) tr (.ret (.ok (code, some c), s))) :
    ∃ cmd cmdParams config evs, Runs P.host P.args cmd cmdParams config ∧
      Fits (firstLine P.input) cmd.room ∧ cmd.Turns config (firstLine P.input) c evs ∧
      ∀ ev ∈ evs, ∃ s₁ s₂ part, Traces (ev.1.answer H s₁) part (.ret (.ok ev.2, s₂)) ∧
        ∀ x ∈ part, x ∈ tr := by
  obtain ⟨evs, hmain, hserved⟩ := wp_iff.mp (wp_serve _ _) _ _ htr _ _ rfl
  obtain ⟨cmd, cmdParams, config, text, hruns, hcame⟩ := printed_of_main hmain
  obtain ⟨stop, rest, hstop, htyped⟩ := hcame.typed
  obtain ⟨n, hprefix⟩ := keystrokes_of_served hserved
  rw [htyped] at hprefix
  have hline : firstLine P.input = text := firstLine_of_prefix hcame.fits.line hstop hprefix
  rw [hline]
  exact ⟨cmd, cmdParams, config, evs, hruns, hcame.fits, hcame.turns, fun ev => hserved.of_mem⟩

/-- **What is printed can be typed.** A ciphertext fits the buffer that `--reEncrypt` reads it into,
and is read as it is. -/
theorem printed_fits (hC : ∀ symAlg, H.ciphers.Correct (getCipherSuite symAlg)) {P : Process}
    {tr : List KmEvent} {code : Nat} {c : Bytes} {s : ToolState}
    (htr : Traces (P.prog H) tr (.ret (.ok (code, some c), s))) : Fits c maxCipherLength ∧
      Traces (readEncryptContent maxCipherLength) (typed c ++ typed c) (.ret (some c)) := by
  suffices hfits : Fits c maxCipherLength from ⟨hfits, readEncryptContent_typed hfits⟩
  obtain ⟨cmd, cmdParams, config, evs, -, hline, hturns, hserved⟩ := Process.printed htr
  -- the length follows from that of what was sealed
  have hsealed : ∀ {p : Bytes}, Sealed config p c evs → p.length ≤ 61 → Fits c maxCipherLength := by
    rintro p ⟨km, d, hmem⟩ hshort
    obtain ⟨s₁, s₂, part, hpart, -⟩ := hserved _ hmem
    obtain ⟨⟨reply, m'⟩, henc, heq⟩ := Traces.of_bind_ret (fun _ => rfl) hpart
    obtain rfl := Except.ok.inj (Prod.mk.inj heq).1
    obtain ⟨-, hlength, hends⟩ := shape_of_encrypt hC henc
    refine ⟨List.ne_nil_of_length_pos (by omega), ?_, hends⟩
    show c.length < 149
    omega
  have hroom := hline.room
  cases cmd with
  | encrypt =>
    refine hsealed hturns ?_
    simp only [Command.room, maxKeyLength] at hroom
    omega
  | reEncrypt =>
    obtain ⟨p, ⟨km, d, hmem⟩, hagain⟩ := hturns
    obtain ⟨s₁, s₂, part, hpart, -⟩ := hserved _ hmem
    obtain ⟨reply, hdec, heq⟩ := Traces.of_bind_ret (fun _ => rfl) hpart
    obtain rfl := Except.ok.inj (Prod.mk.inj heq).1
    have hlength := length_of_decrypt hdec
    refine hsealed hagain ?_
    simp only [Command.room, maxCipherLength] at hroom
    omega
  | createkey => exact hturns.elim
  | displaykey => exact hturns.elim
  | removekey => exact hturns.elim

/-! ## Processes side by side -/

/-- Nothing is left of the process but its end, and it has printed the text. -/
def Printed (left : Km ToolEnd) (c : Bytes) : Prop :=
  ∃ code s, left = .ret (.ok (code, some c), s)

section Runs

variable {ι : Type} {procs : ι → Process} {left : ι → Km ToolEnd} {c p : Bytes}

/-- `c` was printed for the plaintext `p`, at once or by way of other ciphertexts. -/
inductive Derived (procs : ι → Process) (left : ι → Km ToolEnd) : Bytes → Bytes → Prop
  | encrypted {i : ι} {c : Bytes} {cmdParams : List Bytes} {config : CliConfig}
      (hruns : Runs (procs i).host (procs i).args .encrypt cmdParams config)
      (hprinted : Printed (left i) c) : Derived procs left c (firstLine (procs i).input)
  | reEncrypted {i : ι} {c p : Bytes} {cmdParams : List Bytes} {config : CliConfig}
      (hruns : Runs (procs i).host (procs i).args .reEncrypt cmdParams config)
      (hprinted : Printed (left i) c)
      (hfrom : Derived procs left (firstLine (procs i).input) p) : Derived procs left c p

variable [DecidableEq ι] {store store' : TransitStore} {ls : List (ι × KmEvent)}

/-- The processes, before their first call. -/
def start (H : KmHost) (procs : ι → Process) : ι → Km ToolEnd := fun i => (procs i).prog H

/-- One call of one of the processes, with what the vault makes of it. -/
abbrev ToolStep (H : KmHost) := @SideBySide Call Call.Reply Fault ToolEnd ι TransitStore _
  (TransitStep H.json)

/-- No process removes a key that a ciphertext names. -/
def KeysKept (procs : ι → Process) (left : ι → Km ToolEnd) : Prop :=
  ∀ c p d k, Derived procs left c p → Names c d k → ∀ i, ¬ Removes (procs i).host (procs i).args d k

section Steps

variable (hrun : Run (ToolStep H) (start H procs, store) ls (left, store'))

include hrun

/-- What all processes have called, seen from the vault. -/
theorem vault_of_run : Run (TransitStep H.json) store (ls.map Prod.snd) store' :=
  world_of_interleaving hrun

theorem noDelete_of_run {d k : Nat} (hnot : ∀ i, ¬ Removes (procs i).host (procs i).args d k) :
    ∀ ev ∈ ls.map Prod.snd, ¬ Deletes d k ev :=
  events_of_interleaving refusedAnswer (fun i => (procs i).noDelete (hnot i)) hrun

theorem createsSmall_of_run : ∀ ev ∈ ls.map Prod.snd, CreatesSmall ev.1 :=
  calls_of_interleaving (fun i => (procs i).createsSmall) hrun

/-- What is known of a process that has printed. -/
theorem printed_of_run {i : ι} (hprinted : Printed (left i) c) :
    ∃ cmd cmdParams config evs, Runs (procs i).host (procs i).args cmd cmdParams config ∧
      Fits (firstLine (procs i).input) cmd.room ∧
      cmd.Turns config (firstLine (procs i).input) c evs ∧
      ∀ ev ∈ evs, ∃ s₁ s₂ part, Traces (ev.1.answer H s₁) part (.ret (.ok ev.2, s₂)) ∧
        ∀ x ∈ part, x ∈ ls.map Prod.snd := by
  obtain ⟨code, s, hleft⟩ := hprinted
  have hreaches : Reaches ((procs i).prog H) (eventsOf i ls) (left i) :=
    reaches_of_interleaving hrun i
  rw [hleft] at hreaches
  obtain ⟨cmd, cmdParams, config, evs, hruns, hfits, hturns, hserved⟩ :=
    Process.printed hreaches.ended
  refine ⟨cmd, cmdParams, config, evs, hruns, hfits, hturns, fun ev hev => ?_⟩
  obtain ⟨s₁, s₂, part, htr, hmem⟩ := hserved ev hev
  refine ⟨s₁, s₂, part, htr, fun x hx => List.mem_map.mpr ⟨(i, x), ?_, rfl⟩⟩
  exact mem_eventsOf.mp (hmem x hx)

variable (hC : ∀ symAlg, H.ciphers.Correct (getCipherSuite symAlg)) (hsmall : SmallIds store)

include hC hsmall

/-- What a process has sealed stays sealed to the end of the run, if its key is kept. -/
theorem sealedIn_of_sealed {config : CliConfig} {evs : List CliEvent}
    (hserved : ∀ ev ∈ evs, ∃ s₁ s₂ part, Traces (ev.1.answer H s₁) part (.ret (.ok ev.2, s₂)) ∧
      ∀ x ∈ part, x ∈ ls.map Prod.snd) (hsealed : Sealed config p c evs)
    (hkept : ∀ d k, Names c d k → ∀ i, ¬ Removes (procs i).host (procs i).args d k) :
    ∃ d k, SealedIn H store' d k c p := by
  obtain ⟨km, d, hmem⟩ := hsealed
  obtain ⟨s₁, s₂, part, htr, hpart⟩ := hserved _ hmem
  obtain ⟨⟨reply, m'⟩, henc, heq⟩ := Traces.of_bind_ret (fun _ => rfl) htr
  obtain ⟨hreply, -⟩ := Prod.mk.inj heq
  obtain rfl := Except.ok.inj hreply
  obtain ⟨k, u, post, hin, hpost, hsub⟩ := sealedIn_of_encrypt henc (vault_of_run hrun) hpart hsmall
    (createsSmall_of_run hrun)
  have hnot := noDelete_of_run hrun (hkept d k (hin.names hC))
  exact ⟨d, k, hin.of_run hpost fun ev hev => hnot ev (hsub ev hev)⟩

/-- **Every ciphertext that was derived is sealed in the end.** By induction on how it was derived:
an encryption seals the line that was typed, and what a decryption of a sealed text has answered
is its plaintext. -/
theorem sealedIn_of_derived (hkept : KeysKept procs left) (h : Derived procs left c p) :
    ∃ d k, SealedIn H store' d k c p := by
  have hnames : ∀ {c p : Bytes}, Derived procs left c p → ∀ d k, Names c d k →
      ∀ i, ¬ Removes (procs i).host (procs i).args d k := fun h d k => hkept _ _ d k h
  induction h with
  | @encrypted i c cmdParams config hruns hprinted =>
    obtain ⟨cmd, cmdParams', config', evs, hruns', hfits, hturns, hserved⟩ :=
      printed_of_run hrun hprinted
    obtain ⟨rfl, rfl, rfl⟩ := hruns.unique hruns'
    exact sealedIn_of_sealed hrun hC hsmall hserved hturns (hnames (.encrypted hruns hprinted))
  | @reEncrypted i c p cmdParams config hruns hprinted hfrom ih =>
    obtain ⟨d, k, hin⟩ := ih
    obtain ⟨cmd, cmdParams', config', evs, hruns', hfits, hturns, hserved⟩ :=
      printed_of_run hrun hprinted
    obtain ⟨rfl, rfl, rfl⟩ := hruns.unique hruns'
    obtain ⟨p', ⟨km, d', hmem⟩, hsealed⟩ := hturns
    obtain ⟨s₁, s₂, part, htr, hpart⟩ := hserved _ hmem
    obtain ⟨reply, hdec, heq⟩ := Traces.of_bind_ret (fun _ => rfl) htr
    obtain ⟨hreply, -⟩ := Prod.mk.inj heq
    obtain rfl := Except.ok.inj hreply
    have hnot := noDelete_of_run hrun (hnames hfrom d k (hin.names hC))
    obtain ⟨rfl, -⟩ := hin.opens hC (vault_of_run hrun) hnot hdec hpart
    exact sealedIn_of_sealed hrun hC hsmall hserved hsealed
      (hnames (.reEncrypted hruns hprinted hfrom))

end Steps

/-- **What is printed opens to what was typed.** Any number of processes of the tool use the vault
at the same time, each with managers of its own, and may be killed at any point. While none removes
a key that a ciphertext names, every ciphertext that was printed for a plaintext, through however
many rounds of `--reEncrypt`, is sealed under a key that the vault gives out, and no manager
decrypts it to anything else. -/
theorem derived_opens (hC : ∀ symAlg, H.ciphers.Correct (getCipherSuite symAlg))
    (hsmall : SmallIds store) (hrun : Run (ToolStep H) (start H procs, store) ls (left, store'))
    (hkept : KeysKept procs left) (h : Derived procs left c p) :
    (∃ d k, SealedIn H store' d k c p) ∧
      ∀ (m : OpenbaoKeyManager) (symAlg : CryptoSymAlg) (d' : Nat) (tr : List KmEvent) (vec : Bytes)
        (store'' : TransitStore), Traces (m.decrypt H symAlg d' c) tr (.ret (.ok, vec)) →
        Run (TransitStep H.json) store' tr store'' → vec = p := by
  obtain ⟨d, k, hin⟩ := sealedIn_of_derived hrun hC hsmall hkept h
  refine ⟨⟨d, k, hin⟩, fun m symAlg d' tr vec store'' hdec hstore => ?_⟩
  -- a decryption deletes nothing
  have hnot : ∀ ev ∈ tr, ¬ Deletes d k ev :=
    (wp_iff.mp (decrypt_traces H m symAlg d' c) _ _ hdec).reads.noDelete
  exact ((hin.of_run hstore hnot).opens hC hstore hnot hdec fun ev hev => hev).1

end Runs

/-! ### A process on an empty vault -/

def sampleProcess : Process where
  host := sampleToolHost
  args := sampleArgs (ascii "--encrypt")
  input := ascii "secret\nsecret\ntoken\n"

/-- The store after commands that all succeed. -/
def follow (store : TransitStore) (tr : List KmEvent) : Option TransitStore :=
  tr.foldlM (fun store ev => match ev.1 with
    | .run _ _ cmd => store.apply sampleVersion cmd
    | _ => some store) store

/-- Every key of the store is as `create` has made it. -/
def AllSample (store : TransitStore) : Prop :=
  ∀ d k key, store.key? d k = some key → key.versions = [sampleVersion]

theorem AllSample.apply {store store' : TransitStore} {cmd : KeyManagement.Command}
    (h : AllSample store) (happly : store.apply sampleVersion cmd = some store') :
    AllSample store' := by
  have hsame : some store = some store' → AllSample store' := fun heq => Option.some.inj heq ▸ h
  intro d' k' key' hkey
  cases cmd with
  | list => exact hsame happly d' k' key' hkey
  | read d k =>
    obtain ⟨_, -, heq⟩ := Option.map_eq_some_iff.mp happly
    exact hsame (congrArg some heq) d' k' key' hkey
  | create d k =>
    obtain rfl := Option.some.inj happly
    rw [key?_insertIfNew] at hkey
    split at hkey
    · rw [← Option.some.inj hkey]
      rfl
    · exact h d' k' key' hkey
  | config d k flags =>
    obtain ⟨key, hold, rfl⟩ := Option.map_eq_some_iff.mp happly
    rw [key?_insert] at hkey
    split at hkey
    · rw [← Option.some.inj hkey, (TransitKey.grows_setFlags flags key).versions]
      exact h d k key hold
    · exact h d' k' key' hkey
  | delete d k =>
    unfold TransitStore.apply at happly
    dsimp only at happly
    split at happly
    · cases happly
    split at happly
    · obtain rfl := Option.some.inj happly
      rw [key?_erase] at hkey
      split at hkey
      · cases hkey
      · exact h d' k' key' hkey
    · cases happly
  | exportKey d k =>
    unfold TransitStore.apply at happly
    dsimp only at happly
    split at happly
    · cases happly
    split at happly
    · exact hsame happly d' k' key' hkey
    · cases happly

theorem AllSample.follow : ∀ {tr : List KmEvent} {store store' : TransitStore}, AllSample store →
    CdfCrypto.Cli.follow store tr = some store' → AllSample store'
  | [], store, store', h, hfollow => by
    obtain rfl := Option.some.inj hfollow
    exact h
  | ev :: tr, store, store', h, hfollow => by
    unfold CdfCrypto.Cli.follow at hfollow
    rw [List.foldlM_cons] at hfollow
    obtain ⟨next, hnext, hfollow⟩ := Option.bind_eq_some_iff.mp hfollow
    refine AllSample.follow ?_ hfollow
    cases hcall : ev.1 with
    | run exePath token cmd =>
      rw [hcall] at hnext
      exact h.apply hnext
    | _ =>
      rw [hcall] at hnext
      exact Option.some.inj hnext ▸ h

section Follow

variable {listing : Bytes} (hlisting : Succeeded (0, listing))

include hlisting

theorem listedAnswer_succeeds (exePath token : Bytes) (cmd : KeyManagement.Command) :
    Succeeded (listedAnswer listing (.run exePath token cmd)) := by
  have hread : Succeeded (0, ascii "time") := by decide
  have hexport : Succeeded (0, ascii "key") := by decide
  have hsilent : Succeeded (0, []) := by decide
  cases cmd with
  | list => exact hlisting
  | read d k => exact hread
  | exportKey d k => exact hexport
  | _ => exact hsilent

theorem run_of_follow : ∀ {tr : List KmEvent} {store store' : TransitStore}, AllSample store →
    (∀ ev ∈ tr, ev = ⟨ev.1, listedAnswer listing ev.1⟩) → follow store tr = some store' →
      Run (TransitStep sampleHost.json) store tr store'
  | [], store, store', _, _, hfollow => by
    obtain rfl := Option.some.inj hfollow
    exact .nil store
  | ev :: tr, store, store', hstore, hanswers, hfollow => by
    have hev := hanswers ev List.mem_cons_self
    have hrest := fun ev' hev' => hanswers ev' (List.mem_cons_of_mem ev hev')
    unfold follow at hfollow
    rw [List.foldlM_cons] at hfollow
    obtain ⟨next, hnext, hfollow⟩ := Option.bind_eq_some_iff.mp hfollow
    rw [hev]
    cases hcall : ev.1 with
    | run exePath token cmd =>
      rw [hcall] at hnext
      refine .cons (transitStep_succeeded ?_ hnext ?_) (run_of_follow (hstore.apply hnext) hrest hfollow)
      · exact listedAnswer_succeeds hlisting exePath token cmd
      · cases cmd with
        | read d k =>
          intro key hkey
          rw [hstore d k key hkey]
          rfl
        | exportKey d k =>
          intro key hkey
          rw [hstore d k key hkey]
          rfl
        | _ => trivial
    | _ =>
      rw [hcall] at hnext
      obtain rfl := Option.some.inj hnext
      exact .cons rfl (run_of_follow hstore hrest hfollow)

end Follow

/-- What a process has printed at its end. -/
def printedText : Outcome Fault ToolEnd → Option (Nat × Bytes × ToolState)
  | .ret (.ok (code, some c), s) => some (code, c, s)
  | _ => none

theorem printedText_eq_some {o : Outcome Fault ToolEnd} {code : Nat} {c : Bytes} {s : ToolState}
    (h : printedText o = some (code, c, s)) : o = .ret (.ok (code, some c), s) := by
  unfold printedText at h
  split at h
  · obtain ⟨rfl, hrest⟩ := Prod.mk.inj (Option.some.inj h)
    obtain ⟨rfl, rfl⟩ := Prod.mk.inj hrest
    rfl
  · cases h

/-- The end of a process on the sample's vault, and its calls. -/
def Process.ran (P : Process) (listing : Bytes) : List KmEvent × Outcome Fault ToolEnd :=
  (P.prog sampleHost).runWith (listedAnswer listing)

theorem Process.ran_traces (P : Process) {listing c : Bytes} {code : Nat} {s : ToolState}
    {store store' : TransitStore} (hlisting : Succeeded (0, listing)) (hstore : AllSample store)
    (hprinted : printedText (P.ran listing).2 = some (code, c, s))
    (hfollow : follow store (P.ran listing).1 = some store') :
    Traces (P.prog sampleHost) (P.ran listing).1 (.ret (.ok (code, some c), s)) ∧
      Run (TransitStep sampleHost.json) store (P.ran listing).1 store' := by
  have htr := traces_runWith (listedAnswer listing) (P.prog sampleHost)
  have hends : (P.ran listing).2 = .ret (.ok (code, some c), s) := printedText_eq_some hprinted
  exact ⟨hends ▸ htr, run_of_follow hlisting hstore (fun ev hev => mem_runWith hev) hfollow⟩

/-- What the first process prints, and the store that it leaves. -/
def sampleCipher : Bytes := ((printedText (sampleProcess.ran (ascii "{}\n")).2).map (·.2.1)).getD []

def sampleKeys : TransitStore := (follow ∅ (sampleProcess.ran (ascii "{}\n")).1).getD ∅

theorem allSample_empty : AllSample ∅ := fun d k key hkey => by cases hkey

/-- A process that encrypts. -/
theorem sampleProcess_prints : ∃ code s,
    Traces (sampleProcess.prog sampleHost) (sampleProcess.ran (ascii "{}\n")).1
      (.ret (.ok (code, some sampleCipher), s)) ∧
    Run (TransitStep sampleHost.json) ∅ (sampleProcess.ran (ascii "{}\n")).1 sampleKeys ∧
    AllSample sampleKeys := by
  have hsome : (printedText (sampleProcess.ran (ascii "{}\n")).2).isSome = true := by
    decide +kernel
  have hfollow : (follow ∅ (sampleProcess.ran (ascii "{}\n")).1).isSome = true := by
    decide +kernel
  obtain ⟨⟨code, c, s⟩, hprinted⟩ := Option.isSome_iff_exists.mp hsome
  obtain ⟨store', hstore⟩ := Option.isSome_iff_exists.mp hfollow
  have hcipher : sampleCipher = c := by
    unfold sampleCipher
    rw [hprinted]
    rfl
  have hkeys : sampleKeys = store' := by
    unfold sampleKeys
    rw [hstore]
    rfl
  rw [hcipher, hkeys]
  obtain ⟨htr, hrun⟩ := sampleProcess.ran_traces (by decide) allSample_empty hprinted hstore
  exact ⟨code, s, htr, hrun, allSample_empty.follow hstore⟩

theorem printed_fits_sample : ∃ tr code c s,
    Traces (sampleProcess.prog sampleHost) tr (.ret (.ok (code, some c), s)) ∧
      Fits c maxCipherLength := by
  obtain ⟨code, s, htr, -⟩ := sampleProcess_prints
  exact ⟨_, code, _, s, htr, (printed_fits (fun _ => sampleCiphers_correct _) htr).1⟩

/-! ### Another one after it -/

/-- A process that encrypts again what the first has printed. -/
def againProcess : Process where
  host := sampleToolHost
  args := sampleArgs (ascii "--reEncrypt")
  input := sampleCipher ++ [10] ++ (sampleCipher ++ [10]) ++ ascii "token\n"

theorem againProcess_prints : ∃ code c s store',
    Traces (againProcess.prog sampleHost) (againProcess.ran (ascii "names")).1
      (.ret (.ok (code, some c), s)) ∧
    Run (TransitStep sampleHost.json) sampleKeys (againProcess.ran (ascii "names")).1 store' := by
  have hsome : (printedText (againProcess.ran (ascii "names")).2).isSome = true := by
    decide +kernel
  have hfollow : (follow sampleKeys (againProcess.ran (ascii "names")).1).isSome = true := by
    decide +kernel
  obtain ⟨⟨code, c, s⟩, hprinted⟩ := Option.isSome_iff_exists.mp hsome
  obtain ⟨store', hstore⟩ := Option.isSome_iff_exists.mp hfollow
  obtain ⟨-, -, -, -, hkeys⟩ := sampleProcess_prints
  exact ⟨code, c, s, store', againProcess.ran_traces (by decide) hkeys hprinted hstore⟩

def twoProcesses : Bool → Process
  | false => sampleProcess
  | true => againProcess

/-- One process encrypts a line, and another one re-encrypts what the first has printed. -/
theorem derived_opens_sample : ∃ left c store',
    Printed (left false) sampleCipher ∧ Printed (left true) c ∧
      Derived twoProcesses left c (ascii "secret") ∧
      ∃ d k, SealedIn sampleHost store' d k c (ascii "secret") := by
  obtain ⟨code, s, htr, hstore, -⟩ := sampleProcess_prints
  obtain ⟨code', c, s', store', htr', hstore'⟩ := againProcess_prints
  have hfirst := interleaving_alone htr hstore (start sampleHost twoProcesses)
    (show start sampleHost twoProcesses false = _ from rfl)
  have hsecond := interleaving_alone htr' hstore' (Function.update (start sampleHost twoProcesses) false
    (.ret (.ok (code, some sampleCipher), s)))
    (show Function.update (start sampleHost twoProcesses) false _ true = _ from rfl)
  have hrun := hfirst.append hsecond
  let left : Bool → Km ToolEnd := Function.update (Function.update (start sampleHost twoProcesses)
    false (.ret (.ok (code, some sampleCipher), s))) true (.ret (.ok (code', some c), s'))
  have hruns : Runs sampleProcess.host sampleProcess.args .encrypt [ascii "0", ascii "2"]
      openbaoConfig := sampleToolHost_runs (by decide +kernel)
  have hagain : Runs againProcess.host againProcess.args .reEncrypt [ascii "0", ascii "2"]
      openbaoConfig := sampleToolHost_runs (by decide +kernel)
  have hprinted : Printed (left false) sampleCipher := ⟨code, s, rfl⟩
  have hprinted' : Printed (left true) c := ⟨code', s', rfl⟩
  have hfrom : Derived twoProcesses left sampleCipher (ascii "secret") := by
    have hline : firstLine sampleProcess.input = ascii "secret" := by decide +kernel
    rw [← hline]
    exact .encrypted (i := false) hruns hprinted
  have hderived : Derived twoProcesses left c (ascii "secret") := by
    have hline : firstLine againProcess.input = sampleCipher := by decide +kernel
    rw [← hline] at hfrom
    exact .reEncrypted (i := true) hagain hprinted' hfrom
  have hkept : KeysKept twoProcesses left := by
    rintro c p d k - - i ⟨cmdParams', config', n, hruns', -⟩
    cases i with
    | false => cases (hruns.unique hruns').1
    | true => cases (hagain.unique hruns').1
  have hsmall : SmallIds ∅ := fun d k key hkey => by cases hkey
  exact ⟨left, c, store', hprinted, hprinted', hderived,
    (derived_opens (fun _ => sampleCiphers_correct _) hsmall hrun hkept hderived).1⟩

end CdfCrypto.Cli
