import CdfCrypto.Cli.KmcCmd
import CdfCrypto.Lib.Handler

/-!
# Every manager that is initialised is released

A manager keeps its access token until `UnInit`. `Released` asks of the trace of a handler that one
`UnInit` of the same manager follows an `Init` that succeeds. The trace is some characters that are
typed, the `Init`, and what the handler does with the manager (`withKm_wp`), and the last is a list
of calls that one can look through.

`--encrypt` and `--reEncrypt` each have an early return without `UnInit`: where `Type()` names no
class, and in `--reEncrypt` also where the domain has no key. `Keeps` is that neither happens.
-/

namespace CdfCrypto.Cli

open Lib
open KeyManagement (Borrowed)

/-! ## Traces -/

/-- The manager that a call releases. -/
def CliCall.unInit? : CliCall → Option Borrowed
  | unInit km => some km
  | _ => none

/-- The managers that are released, in order. -/
def unInits (tr : List CliEvent) : List Borrowed := tr.filterMap fun ev => ev.1.unInit?

/-- An `Init` that succeeds is followed by one `UnInit`, of its manager. -/
def Released (tr : List CliEvent) : Prop :=
  ∀ pre post km kmcPath accessToken domainCount,
    tr = pre ++ (⟨.init km kmcPath accessToken domainCount, KeyManagerRC.ok⟩ : CliEvent) :: post →
      unInits pre = [] ∧ unInits post = [km]

/-- What is answered to `Type()`. -/
def typeReply : (c : CliCall) → c.Reply → Option KeyManagerTy
  | .type _, reply => some reply
  | _, _ => none

/-- What is answered to `GetLatestKey`. -/
def latestReply : (c : CliCall) → c.Reply → Option Bytes
  | .getLatestKey _ _, reply => some reply
  | _, _ => none

/-- The first answers to `Type()` and to `GetLatestKey`, if there are any. -/
def firstType (tr : List CliEvent) : Option KeyManagerTy :=
  tr.findSome? fun ev => typeReply ev.1 ev.2

def firstLatest (tr : List CliEvent) : Option Bytes :=
  tr.findSome? fun ev => latestReply ev.1 ev.2

/-- No early return: `--encrypt` needs a type that names a class, `--reEncrypt` a key as well. -/
def Command.Keeps : Command → List CliEvent → Prop
  | encrypt, tr => firstType tr ≠ some .unknown
  | reEncrypt, tr => firstType tr ≠ some .unknown ∧ firstLatest tr ≠ some []
  | createkey, _ => True
  | displaykey, _ => True
  | removekey, _ => True

/-- No manager is initialised. -/
def NoInit (tr : List CliEvent) : Prop :=
  ∀ ev ∈ tr, ∀ km kmcPath accessToken domainCount, ev.1 ≠ .init km kmcPath accessToken domainCount

theorem NoInit.released {tr : List CliEvent} (h : NoInit tr) : Released tr := by
  intro pre post km kmcPath accessToken domainCount heq
  have hmem : (⟨.init km kmcPath accessToken domainCount, KeyManagerRC.ok⟩ : CliEvent) ∈ tr := by
    rw [heq]
    exact List.mem_append_right _ List.mem_cons_self
  exact absurd rfl (h _ hmem km kmcPath accessToken domainCount)

/-- The call neither initialises nor releases. -/
def CliCall.Plain : CliCall → Prop
  | init _ _ _ _ => False
  | unInit _ => False
  | _ => True

/-- Such calls alone. -/
def Plain (tr : List CliEvent) : Prop := ∀ ev ∈ tr, ev.1.Plain

theorem Plain.noInit {tr : List CliEvent} (h : Plain tr) : NoInit tr := by
  intro ev hev km kmcPath accessToken domainCount heq
  have hplain := h ev hev
  rw [heq] at hplain
  exact hplain

theorem Plain.unInits {tr : List CliEvent} (h : Plain tr) : unInits tr = [] := by
  refine List.filterMap_eq_nil_iff.mpr fun ev hev => ?_
  have hplain := h ev hev
  cases hcall : ev.1 with
  | unInit km =>
    rw [hcall] at hplain
    exact hplain.elim
  | _ => rfl

theorem unInits_append {tr tr' : List CliEvent} (h : Plain tr) :
    unInits (tr ++ tr') = unInits tr' := by
  have hnil := h.unInits
  unfold unInits at hnil ⊢
  rw [List.filterMap_append, hnil, List.nil_append]

/-- Characters that are typed, and nothing else. -/
def Quiet (tr : List CliEvent) : Prop := ∀ ev ∈ tr, ev.1 = .cinGet

theorem Quiet.plain {tr : List CliEvent} (h : Quiet tr) : Plain tr := by
  intro ev hev
  rw [h ev hev]
  trivial

/-- What is asked beforehand does not matter. -/
theorem released_append {pre tr : List CliEvent} (h : Plain pre) :
    Released (pre ++ tr) ↔ Released tr := by
  constructor
  · intro hrel p post km kmcPath accessToken domainCount heq
    have hboth := hrel (pre ++ p) post km kmcPath accessToken domainCount
      (by rw [heq, List.append_assoc])
    rw [unInits_append h] at hboth
    exact hboth
  · intro hrel
    induction pre with
    | nil => exact hrel
    | cons ev pre ih =>
      have hev : Plain [ev] := fun ev' hev' =>
        h ev' (List.mem_singleton.mp hev' ▸ List.mem_cons_self)
      have hrest := ih fun ev' hev' => h ev' (List.mem_cons_of_mem _ hev')
      intro p post km kmcPath accessToken domainCount heq
      cases p with
      | nil =>
        obtain ⟨rfl, -⟩ := List.cons.inj heq
        exact (hev _ (List.mem_singleton_self _)).elim
      | cons ev' p =>
        obtain ⟨rfl, htail⟩ := List.cons.inj heq
        have hboth := hrest p post km kmcPath accessToken domainCount htail
        rw [← unInits_append hev] at hboth
        exact hboth

theorem released_init {post : List CliEvent} (h : NoInit post) (km : Borrowed)
    (kmcPath accessToken : Bytes) (domainCount : Nat) (r : KeyManagerRC) :
    Released ((⟨.init km kmcPath accessToken domainCount, r⟩ : CliEvent) :: post) ↔
      (r = .ok → unInits post = [km]) := by
  constructor
  · rintro hrel rfl
    exact (hrel [] post km kmcPath accessToken domainCount rfl).2
  · intro hpost p post' km' kmcPath' accessToken' domainCount' heq
    cases p with
    | nil =>
      obtain ⟨hev, rfl⟩ := List.cons.inj heq
      cases hev
      exact ⟨rfl, hpost rfl⟩
    | cons ev p =>
      obtain ⟨-, rfl⟩ := List.cons.inj heq
      exact absurd rfl (h _ (List.mem_append_right _ List.mem_cons_self) _ _ _ _)

/-- Answers are looked for behind events that give none. -/
theorem Command.keeps_append {cmd : Command} {pre tr : List CliEvent}
    (h : ∀ ev ∈ pre, typeReply ev.1 ev.2 = none ∧ latestReply ev.1 ev.2 = none) :
    cmd.Keeps (pre ++ tr) ↔ cmd.Keeps tr := by
  have htype : firstType (pre ++ tr) = firstType tr := by
    rw [firstType, List.findSome?_append,
      List.findSome?_eq_none_iff.mpr fun ev hev => (h ev hev).1]
    rfl
  have hlatest : firstLatest (pre ++ tr) = firstLatest tr := by
    rw [firstLatest, List.findSome?_append,
      List.findSome?_eq_none_iff.mpr fun ev hev => (h ev hev).2]
    rfl
  cases cmd with
  | encrypt =>
    show firstType (pre ++ tr) ≠ _ ↔ _
    rw [htype]
    exact Iff.rfl
  | reEncrypt =>
    show firstType (pre ++ tr) ≠ _ ∧ firstLatest (pre ++ tr) ≠ _ ↔ _
    rw [htype, hlatest]
    exact Iff.rfl
  | createkey => exact Iff.rfl
  | displaykey => exact Iff.rfl
  | removekey => exact Iff.rfl

/-! ## The terminal asks nothing of the manager -/

theorem inputLoop_total : ∀ (room : Nat) (ch : UInt8) (text : Bytes),
    Total (· = CliCall.cinGet) (inputLoop room ch text) fun _ => True := by
  intro room
  induction room with
  | zero => exact fun _ _ => Total.ret trivial
  | succ room ih =>
    intro ch text
    unfold inputLoop
    split
    · exact Total.ret trivial
    · exact Total.perform_bind rfl fun next => ih _ _

theorem lineFromInput_total (size : Nat) :
    Total (· = CliCall.cinGet) (lineFromInput size) fun _ => True := by
  unfold lineFromInput
  refine Total.perform_bind rfl fun ch => (inputLoop_total _ _ _).bind fun text _ => ?_
  split
  · exact Total.ret trivial
  split
  · exact Total.ret trivial
  · exact Total.ret trivial

theorem readEncryptContent_total (plainTextLength : Nat) :
    Total (· = CliCall.cinGet) (readEncryptContent plainTextLength) fun _ => True := by
  unfold readEncryptContent
  refine (lineFromInput_total _).bind fun plainText _ => ?_
  split
  · exact Total.ret trivial
  refine (lineFromInput_total _).bind fun plainTextCheck _ => ?_
  split
  · exact Total.ret trivial
  split
  · exact Total.ret trivial
  · exact Total.ret trivial

/-! ## What is shown of a handler -/

/-- Where a handler returns, the manager is released just where no early return is taken. -/
def Exact {α : Type} (cmd : Command) (tr : List CliEvent) (o : Outcome CliFault α) : Prop :=
  ∀ a, o = .ret a → (Released tr ↔ cmd.Keeps tr)

/-- The same of what a handler does with a manager that is initialised. -/
def BodyExact {α : Type} (cmd : Command) (km : Borrowed) (tr : List CliEvent)
    (o : Outcome CliFault α) : Prop :=
  NoInit tr ∧ ∀ a, o = .ret a → (unInits tr = [km] ↔ cmd.Keeps tr)

theorem Quiet.replies {tr : List CliEvent} (h : Quiet tr) :
    ∀ ev ∈ tr, typeReply ev.1 ev.2 = none ∧ latestReply ev.1 ev.2 = none := by
  intro ev hev
  obtain ⟨call, reply⟩ := ev
  have hcall : call = .cinGet := h _ hev
  subst hcall
  exact ⟨rfl, rfl⟩

theorem Command.keeps_nil (cmd : Command) : cmd.Keeps [] := by
  cases cmd with
  | encrypt => exact (fun h => by cases h)
  | reEncrypt => exact ⟨(fun h => by cases h), (fun h => by cases h)⟩
  | createkey => trivial
  | displaykey => trivial
  | removekey => trivial

theorem Exact.quiet {α : Type} {cmd : Command} {pre tr : List CliEvent} {o : Outcome CliFault α}
    (hpre : Quiet pre) (h : Exact cmd tr o) : Exact cmd (pre ++ tr) o := fun a ho => by
  rw [released_append hpre.plain, Command.keeps_append hpre.replies]
  exact h a ho

/-- Nothing is initialised, and nothing was asked. -/
theorem Exact.of_quiet {α : Type} {cmd : Command} {tr : List CliEvent} {o : Outcome CliFault α}
    (h : Quiet tr) : Exact cmd tr o := by
  have hnil : Exact cmd [] o := fun _ _ =>
    iff_of_true (NoInit.released fun _ hev => absurd hev List.not_mem_nil) cmd.keeps_nil
  have happend := hnil.quiet h
  rwa [List.append_nil] at happend

theorem Command.keeps_init {cmd : Command} {tr : List CliEvent} (km : Borrowed)
    (kmcPath accessToken : Bytes) (domainCount : Nat) (r : KeyManagerRC) :
    cmd.Keeps ((⟨.init km kmcPath accessToken domainCount, r⟩ : CliEvent) :: tr) ↔
      cmd.Keeps tr := by
  show cmd.Keeps ([⟨.init km kmcPath accessToken domainCount, r⟩] ++ tr) ↔ _
  refine Command.keeps_append fun ev hev => ?_
  obtain rfl := List.mem_singleton.mp hev
  exact ⟨rfl, rfl⟩

/-- An `Init` in front of what is done with the manager. -/
theorem BodyExact.init {α : Type} {cmd : Command} {km : Borrowed} {tr : List CliEvent}
    {o : Outcome CliFault α} (h : BodyExact cmd km tr o) (kmcPath accessToken : Bytes)
    (domainCount : Nat) :
    Exact cmd ((⟨.init km kmcPath accessToken domainCount, KeyManagerRC.ok⟩ : CliEvent) :: tr)
      o := by
  intro a ho
  rw [released_init h.1, Command.keeps_init]
  exact ⟨fun hrel => (h.2 a ho).mp (hrel rfl), fun hkeep _ => (h.2 a ho).mpr hkeep⟩

/-- An `Init` that fails, at the end. -/
theorem Exact.of_failed {α : Type} {cmd : Command} {o : Outcome CliFault α} (km : Borrowed)
    (kmcPath accessToken : Bytes) (domainCount : Nat) {r : KeyManagerRC} (hr : r ≠ .ok) :
    Exact cmd [(⟨.init km kmcPath accessToken domainCount, r⟩ : CliEvent)] o := by
  intro a ho
  rw [released_init (fun _ hev => absurd hev List.not_mem_nil), Command.keeps_init]
  exact iff_of_true (fun h => absurd h hr) cmd.keeps_nil

/-- How `InitKm` may end: without asking the manager, or with its answer. -/
inductive InitTrace (km : Option Borrowed) :
    List CliEvent → Outcome CliFault CryptionToolRc → Prop
  | refused {tr : List CliEvent} {rc : CryptionToolRc} (hquiet : Quiet tr) (hrc : rc ≠ .ok) :
    InitTrace km tr (.ret rc)
  | answered {pre : List CliEvent} (hquiet : Quiet pre) {borrowed : Borrowed}
    (hkm : km = some borrowed) (kmcPath accessToken : Bytes) (domainCount : Nat)
    (r : KeyManagerRC) :
    InitTrace km (pre ++ [⟨.init borrowed kmcPath accessToken domainCount, r⟩])
      (.ret (if r ≠ .ok then .encryptError else .ok))

theorem initKm_wp (config : CliConfig) (km : Option Borrowed) (domainCount : Nat) :
    wp (initKm config km domainCount) (InitTrace km) := by
  cases km with
  | none => exact .refused (fun _ hev => absurd hev List.not_mem_nil) (by decide)
  | some borrowed =>
    refine wp_bind_of (lineFromInput_total 128).trace (fun tr accessToken htr => ?_)
      fun tr x htr => ?_
    · have hquiet : Quiet tr := htr.2
      split
      next hrc =>
        rw [wp_ret, List.append_nil]
        exact .refused hquiet hrc
      · intro r
        exact .answered hquiet rfl _ _ _ r
    · obtain ⟨⟨a, heq, -⟩, -⟩ := htr
      cases heq

/-- **The handlers in common.** What is shown of the part with the manager holds of the whole. -/
theorem withKm_wp {α : Type} {cmd : Command} {body : Borrowed → CliProg α}
    (hbody : ∀ km, wp (body km) (BodyExact cmd km)) (config : CliConfig) (domainCount : Nat)
    (failed : α) : wp (withKm config domainCount failed body) (Exact cmd) := by
  refine wp_bind_of (initKm_wp config (getKm config) domainCount) (fun tr rc htr => ?_)
    fun tr x htr => by cases htr
  cases htr with
  | refused hquiet hrc =>
    rw [if_neg hrc, wp_ret, List.append_nil]
    exact Exact.of_quiet hquiet
  | answered hquiet hkm kmcPath accessToken domainCount r =>
    by_cases hr : r = .ok
    · subst hr
      have hrc : (if KeyManagerRC.ok ≠ .ok then CryptionToolRc.encryptError else .ok) = .ok := rfl
      rw [hrc, if_pos rfl, hkm]
      refine wp_mono (hbody _) fun tr o h => ?_
      rw [List.append_assoc]
      exact (h.init kmcPath accessToken domainCount).quiet hquiet
    · rw [if_pos hr, if_neg (by decide), wp_ret, List.append_nil]
      exact (Exact.of_failed _ kmcPath accessToken domainCount hr).quiet hquiet

/-! ## What is done with the manager -/

theorem NoInit.append {tr tr' : List CliEvent} (h : NoInit tr) (h' : NoInit tr') :
    NoInit (tr ++ tr') := by
  intro ev hev
  rcases List.mem_append.mp hev with hev | hev
  · exact h ev hev
  · exact h' ev hev

/-- The manager is released once, and not initialised. -/
def Finishes {α : Type} (km : Borrowed) (p : CliProg α) : Prop :=
  wp p fun tr o => NoInit tr ∧ ∀ a, o = .ret a → unInits tr = [km]

/-- `UnInit` at the end. -/
theorem finishes_unInit {α : Type} {km : Borrowed} {f : KeyManagerRC → CliProg α}
    (hf : ∀ r, ∃ a, f r = .ret a) : Finishes km (.perform (CliCall.unInit km) >>= f) := by
  intro r
  obtain ⟨a, ha⟩ := hf r
  show wp (f r) _
  rw [ha]
  refine ⟨fun ev hev => ?_, fun _ _ => rfl⟩
  obtain rfl := List.mem_singleton.mp hev
  exact fun _ _ _ _ h => by cases h

/-- Other calls before it. -/
theorem Finishes.bind {α β : Type} {km : Borrowed} {p : CliProg α} {f : α → CliProg β}
    (hp : Calls CliCall.Plain p) (hf : ∀ a, Finishes km (f a)) : Finishes km (p >>= f) := by
  refine wp_bind_of hp.trace (fun tr a htr => ?_) fun tr x htr => ?_
  · have hplain : Plain tr := htr
    refine wp_mono (hf a) fun tr' o h => ⟨hplain.noInit.append h.1, fun b ho => ?_⟩
    rw [unInits_append hplain]
    exact h.2 b ho
  · have hplain : Plain tr := htr
    exact ⟨hplain.noInit, fun b ho => by cases ho⟩

theorem switchType_plain (km : Borrowed) : Calls CliCall.Plain (switchType km) := by
  refine ⟨trivial, fun type => ?_⟩
  cases type with
  | unknown => trivial
  | openbao => cases km <;> trivial
  | vault => cases km <;> trivial

theorem cryptorEncrypt_plain (km : Borrowed) (alg : CryptoSymAlg) (plaintext : Bytes) (d : Nat) :
    Calls CliCall.Plain (cryptorEncrypt km alg plaintext d) := by
  refine (switchType_plain km).bind fun known => ?_
  split
  · exact ⟨trivial, fun _ => trivial⟩
  · trivial

theorem cryptorDecrypt_plain (km : Borrowed) (alg : CryptoSymAlg) (ciphertext : Bytes) (d : Nat) :
    Calls CliCall.Plain (cryptorDecrypt km alg ciphertext d) := by
  refine (switchType_plain km).bind fun known => ?_
  split
  · exact ⟨trivial, fun _ => trivial⟩
  · trivial

/-- A check before the work: it lets the work begin where no early return is taken, whatever comes
after, and else returns there and then. -/
def Guards (cmd : Command) (tr : List CliEvent) (o : Outcome CliFault CryptionToolRc) : Prop :=
  Plain tr ∧ ∀ rc, o = .ret rc →
    (rc = .ok → ∀ tr', cmd.Keeps (tr ++ tr')) ∧ (rc ≠ .ok → ¬ cmd.Keeps tr)

/-- **A handler with a check.** -/
theorem bodyExact_of_guard {α : Type} {cmd : Command} {km : Borrowed}
    {guard : CliProg CryptionToolRc} (hguard : wp guard (Guards cmd)) {early : CryptionToolRc → α}
    {work : CliProg α} (hwork : Finishes km work) :
    wp (guard >>= fun rc => if rc ≠ .ok then .ret (early rc) else work) (BodyExact cmd km) := by
  refine wp_bind_of hguard (fun tr rc htr => ?_) fun tr x htr => ?_
  · obtain ⟨hplain, hkeeps⟩ := htr
    by_cases hrc : rc = .ok
    · rw [if_neg (fun h => h hrc)]
      refine wp_mono hwork fun tr' o h => ⟨hplain.noInit.append h.1, fun a ho => ?_⟩
      refine iff_of_true ?_ ((hkeeps rc rfl).1 hrc tr')
      rw [unInits_append hplain]
      exact h.2 a ho
    · rw [if_pos hrc, wp_ret, List.append_nil]
      refine ⟨hplain.noInit, fun a _ => iff_of_false ?_ ((hkeeps rc rfl).2 hrc)⟩
      rw [hplain.unInits]
      exact fun h => by cases h
  · exact ⟨htr.1.noInit, fun a ho => by cases ho⟩

theorem plain_cons {ev : CliEvent} {tr : List CliEvent} (h : ev.1.Plain) (htr : Plain tr) :
    Plain (ev :: tr) := List.forall_mem_cons.mpr ⟨h, htr⟩

theorem plain_nil : Plain [] := fun _ hev => absurd hev List.not_mem_nil

theorem Guards.passed {cmd : Command} {tr : List CliEvent} (hplain : Plain tr)
    (hkeeps : ∀ tr', cmd.Keeps (tr ++ tr')) : Guards cmd tr (.ret .ok) :=
  ⟨hplain, fun _ ho => ⟨fun _ => hkeeps, fun hrc => absurd (Outcome.ret.inj ho).symm hrc⟩⟩

theorem Guards.stopped {cmd : Command} {tr : List CliEvent} {rc : CryptionToolRc} (hrc : rc ≠ .ok)
    (hplain : Plain tr) (hkeeps : ¬ cmd.Keeps tr) : Guards cmd tr (.ret rc) :=
  ⟨hplain, fun _ ho => ⟨fun hok => absurd ((Outcome.ret.inj ho).trans hok) hrc, fun _ => hkeeps⟩⟩

/-- Past the question for the type there is an answer to it. -/
theorem keeps_encrypt_of_type {km : Borrowed} {type : KeyManagerTy} (h : type ≠ .unknown)
    (tr : List CliEvent) : Command.Keeps .encrypt ((⟨.type km, type⟩ : CliEvent) :: tr) :=
  fun heq => h (Option.some.inj heq)

/-- Past the question for a key as well. -/
theorem keeps_reEncrypt_iff {km : Borrowed} {type : KeyManagerTy} (h : type ≠ .unknown)
    {domainId : Nat} {latest : Bytes} (tr : List CliEvent) :
    Command.Keeps .reEncrypt ((⟨.type km, type⟩ : CliEvent) ::
      (⟨.getLatestKey km domainId, latest⟩ : CliEvent) :: tr) ↔ latest ≠ [] := by
  constructor
  · rintro ⟨-, hlatest⟩ rfl
    exact hlatest rfl
  · exact fun hlatest =>
      ⟨fun heq => h (Option.some.inj heq), fun heq => hlatest (Option.some.inj heq)⟩

/-- The question for the type goes on with a case, or with none, or ends in a wrong cast. -/
theorem switchType_bind {α : Type} {km : Borrowed} {f : Bool → CliProg α}
    {Q : List CliEvent → Outcome CliFault α → Prop}
    (hknown : ∀ type ≠ .unknown, wp (f true) fun tr => Q (⟨.type km, type⟩ :: tr))
    (hunknown : wp (f false) fun tr => Q (⟨.type km, KeyManagerTy.unknown⟩ :: tr))
    (hhalt : ∀ type, Q [⟨.type km, type⟩] (.halt .undefined)) : wp (switchType km >>= f) Q := by
  intro type
  cases type with
  | unknown => exact hunknown
  | openbao =>
    cases km with
    | openbao => exact hknown .openbao (by decide)
    | vault => exact hhalt .openbao
  | vault =>
    cases km with
    | openbao => exact hhalt .vault
    | vault => exact hknown .vault (by decide)

theorem prepareKmDomainKey_guards (km : Borrowed) (domainId : Nat) :
    wp (prepareKmDomainKey km domainId) (Guards .encrypt) := by
  refine switchType_bind (fun type htype => ?_) ?_ fun type => ?_
  · intro latest
    show wp (if latest = [] then _ else _) _
    split
    · intro created
      exact .passed (plain_cons trivial (plain_cons trivial (plain_cons trivial plain_nil)))
        fun tr' => keeps_encrypt_of_type htype _
    · exact .passed (plain_cons trivial (plain_cons trivial plain_nil))
        fun tr' => keeps_encrypt_of_type htype _
  · exact .stopped (by decide) (plain_cons trivial plain_nil) fun h => h rfl
  · exact ⟨plain_cons trivial plain_nil, fun rc ho => by cases ho⟩

theorem checkDomainKey_guards (km : Borrowed) (domainId : Nat) :
    wp (checkDomainKey km domainId) (Guards .reEncrypt) := by
  refine switchType_bind (fun type htype => ?_) ?_ fun type => ?_
  · intro latest
    show wp (if latest = [] then _ else _) _
    have hplain : Plain [⟨.type km, type⟩, ⟨.getLatestKey km domainId, latest⟩] :=
      plain_cons trivial (plain_cons trivial plain_nil)
    split
    next hlatest =>
      exact .stopped (by decide) hplain fun h => (keeps_reEncrypt_iff htype []).mp h hlatest
    next hlatest => exact .passed hplain fun tr' => (keeps_reEncrypt_iff htype tr').mpr hlatest
  · exact .stopped (by decide) (plain_cons trivial plain_nil) fun h => h.1 rfl
  · exact ⟨plain_cons trivial plain_nil, fun rc ho => by cases ho⟩

theorem encrypt_wp (config : CliConfig) (domainId domainCount : Nat) (inputPlainText : Bytes) :
    wp (encrypt config domainId domainCount inputPlainText) (Exact .encrypt) := by
  refine withKm_wp (fun km => ?_) config domainCount _
  refine bodyExact_of_guard (prepareKmDomainKey_guards km domainId) ?_
  refine Finishes.bind (cryptorEncrypt_plain km _ _ domainId) fun result => ?_
  refine finishes_unInit fun r => ?_
  split
  · exact ⟨_, rfl⟩
  · exact ⟨_, rfl⟩

theorem reEncrypt_wp (config : CliConfig) (domainId domainCount : Nat) (inputCipherText : Bytes) :
    wp (reEncrypt config domainId domainCount inputCipherText) (Exact .reEncrypt) := by
  refine withKm_wp (fun km => ?_) config domainCount _
  refine bodyExact_of_guard (checkDomainKey_guards km domainId) ?_
  refine Finishes.bind (cryptorDecrypt_plain km _ _ domainId) fun result => ?_
  split
  · exact finishes_unInit fun r => ⟨_, rfl⟩
  refine Finishes.bind (cryptorEncrypt_plain km _ _ domainId) fun result => ?_
  split
  · exact finishes_unInit fun r => ⟨_, rfl⟩
  · exact finishes_unInit fun r => ⟨_, rfl⟩

/-- The commands whose handlers have no early return. -/
def Command.Straight (cmd : Command) : Prop := ∀ tr, cmd.Keeps tr

theorem keyOperation_wp {cmd : Command} (hcmd : cmd.Straight) (config : CliConfig)
    (domainCount : Nat) {operation : Borrowed → CliCall} (hplain : ∀ km, (operation km).Plain)
    (rc : ∀ km, (operation km).Reply → KeyManagerRC) :
    wp (keyOperation config domainCount operation rc) (Exact cmd) := by
  refine withKm_wp (fun km => ?_) config domainCount _
  have hfinishes : Finishes km (do
      let result ← .perform (operation km)
      let _ ← .perform (CliCall.unInit km)
      if rc km result ≠ .ok then .ret .activeKeyError else .ret .ok : CliProg CryptionToolRc) := by
    refine Finishes.bind (calls_perform (hplain km)) fun result => finishes_unInit fun r => ?_
    split
    · exact ⟨_, rfl⟩
    · exact ⟨_, rfl⟩
  exact wp_mono hfinishes fun tr o h => ⟨h.1, fun a ho => iff_of_true (h.2 a ho) (hcmd tr)⟩

/-! ## The handlers -/

theorem exact_bind_ret {α β : Type} {cmd : Command} {p : CliProg α} {f : α → CliProg β}
    (hp : wp p (Exact cmd)) (hf : ∀ a, ∃ b, f a = .ret b) : wp (p >>= f) (Exact cmd) := by
  refine wp_bind_of hp (fun tr a htr => ?_) fun tr x _ b ho => by cases ho
  obtain ⟨b, hb⟩ := hf a
  rw [hb, wp_ret, List.append_nil]
  exact fun _ _ => htr a rfl

theorem exact_quiet_bind {α β : Type} {cmd : Command} {p : CliProg α} {f : α → CliProg β}
    (hp : Total (· = CliCall.cinGet) p fun _ => True) (hf : ∀ a, wp (f a) (Exact cmd)) :
    wp (p >>= f) (Exact cmd) := by
  refine wp_bind_of hp.trace (fun tr a htr => ?_) fun tr x _ b ho => by cases ho
  exact wp_mono (hf a) fun tr' o h => h.quiet htr.2

theorem exact_ret {α : Type} {cmd : Command} (a : α) :
    wp (.ret a : CliProg α) (Exact cmd) := Exact.of_quiet fun _ hev => absurd hev List.not_mem_nil

theorem withDomain_wp {cmd : Command} {body : Nat → Nat → CliProg CryptionToolRc}
    (hbody : ∀ domainId domainCount, wp (body domainId domainCount) (Exact cmd)) (paramCount : Nat)
    (cmdParams : List Bytes) : wp (withDomain paramCount cmdParams body) (Exact cmd) := by
  unfold withDomain
  split
  · exact exact_ret _
  split
  · exact exact_ret _
  next domainId domainCount _ => exact hbody domainId domainCount

theorem handleCmd_wp (cmd : Command) (cmdParams : List Bytes) (config : CliConfig) :
    wp (cmd.handleCmd cmdParams config) (Exact cmd) := by
  cases cmd with
  | encrypt =>
    refine withDomain_wp (fun domainId domainCount => ?_) 2 cmdParams
    refine exact_quiet_bind (readEncryptContent_total _) fun inputPlainText => ?_
    cases inputPlainText with
    | none => exact exact_ret _
    | some inputPlainText =>
      refine exact_bind_ret (encrypt_wp config domainId domainCount inputPlainText) fun ret => ?_
      split
      · exact ⟨_, rfl⟩
      · exact ⟨_, rfl⟩
  | reEncrypt =>
    refine withDomain_wp (fun domainId domainCount => ?_) 2 cmdParams
    refine exact_quiet_bind (readEncryptContent_total _) fun inputCipherText => ?_
    cases inputCipherText with
    | none => exact exact_ret _
    | some inputCipherText =>
      exact exact_bind_ret (reEncrypt_wp config domainId domainCount inputCipherText)
        fun ret => ⟨_, rfl⟩
  | createkey =>
    refine withDomain_wp (fun domainId domainCount => ?_) 2 cmdParams
    refine keyOperation_wp ?_ config domainCount ?_ _
    · exact fun _ => trivial
    · exact fun _ => trivial
  | displaykey =>
    refine withDomain_wp (fun domainId domainCount => ?_) 2 cmdParams
    refine keyOperation_wp ?_ config domainCount ?_ _
    · exact fun _ => trivial
    · exact fun _ => trivial
  | removekey =>
    refine withDomain_wp (fun domainId domainCount => ?_) 3 cmdParams
    split
    · exact exact_ret _
    · refine keyOperation_wp ?_ config domainCount ?_ _
      · exact fun _ => trivial
      · exact fun _ => trivial

/-- **Where the manager is released.** Whatever the parameters, the configuration and the answers
are, a handler that returns has released the manager it initialised, once, if and only if it took
none of the two early returns. -/
theorem handleCmd_released_iff {cmd : Command} {cmdParams : List Bytes} {config : CliConfig}
    {tr : List CliEvent} {rc : CryptionToolRc}
    (htr : Traces (cmd.handleCmd cmdParams config) tr (.ret rc)) : Released tr ↔ cmd.Keeps tr :=
  wp_iff.mp (handleCmd_wp cmd cmdParams config) tr _ htr rc rfl

/-! ## A domain without a key -/

/-- A line that is typed. -/
def typed (text : Bytes) : List CliEvent :=
  text.map (fun c => ⟨.cinGet, some c⟩) ++ [⟨.cinGet, some 10⟩]

/-- A line that fits its buffer, with nothing in it that ends a line. -/
structure Fits (text : Bytes) (size : Nat) : Prop where
  ne : text ≠ []
  room : text.length < size - 1
  line : ∀ c ∈ text, ¬ (c = 10 ∨ c = 13 ∨ c = 0)

theorem inputLoop_typed : ∀ (cs : Bytes) (c : UInt8) (room : Nat) (text : Bytes),
    cs.length < room → (∀ c' ∈ c :: cs, ¬ (c' = 10 ∨ c' = 13 ∨ c' = 0)) →
    Traces (inputLoop room c text) (typed cs) (.ret (text ++ c :: cs)) := by
  intro cs
  induction cs with
  | nil =>
    intro c room text hroom hline
    cases room with
    | zero => exact absurd hroom (Nat.not_lt_zero _)
    | succ room =>
      unfold inputLoop
      rw [if_neg (hline c List.mem_cons_self)]
      refine .call ?_
      show Traces (inputLoop room 10 (text ++ [c])) [] _
      -- the end of the line is seen unless there was no room for it
      cases room with
      | zero => exact .ret _
      | succ room =>
        unfold inputLoop
        rw [if_pos (.inl rfl)]
        exact .ret _
  | cons d ds ih =>
    intro c room text hroom hline
    cases room with
    | zero => exact absurd hroom (Nat.not_lt_zero _)
    | succ room =>
      have htail := ih d room (text ++ [c]) (Nat.lt_of_succ_lt_succ hroom)
        fun c' hc' => hline c' (List.mem_cons_of_mem _ hc')
      rw [List.append_assoc] at htail
      unfold inputLoop
      rw [if_neg (hline c List.mem_cons_self)]
      exact .call htail

theorem lineFromInput_typed {text : Bytes} {size : Nat} (h : Fits text size) :
    Traces (lineFromInput size) (typed text) (.ret (.ok, text)) := by
  obtain ⟨c, cs, rfl⟩ := List.exists_cons_of_ne_nil h.ne
  have hroom : cs.length < size - 1 := Nat.lt_of_succ_lt h.room
  have hloop := inputLoop_typed cs c (size - 1) [] hroom h.line
  have hne : (c :: cs).length ≠ 0 := Nat.succ_ne_zero _
  refine .call ?_
  show Traces (inputLoop (size - 1) c [] >>= _) (typed cs) _
  rw [← List.append_nil (typed cs)]
  refine hloop.bind ?_
  rw [List.nil_append, if_neg hne, if_neg (Nat.ne_of_lt h.room)]
  exact .ret _

theorem readEncryptContent_typed {text : Bytes} {size : Nat} (h : Fits text size) :
    Traces (readEncryptContent size) (typed text ++ typed text) (.ret (some text)) := by
  have hline := lineFromInput_typed h
  refine hline.bind ?_
  rw [if_neg (fun h => h rfl), ← List.append_nil (typed text)]
  refine hline.bind ?_
  rw [if_neg (fun h => h rfl), if_neg (fun h => h rfl)]
  exact .ret _

/-- What is typed and answered on the way to a manager that is initialised. -/
def opening (content token : Bytes) (km : Borrowed) (kmcPath : Bytes) (domainCount : Nat) :
    List CliEvent :=
  (typed content ++ typed content) ++
    (typed token ++ [⟨.init km kmcPath token domainCount, KeyManagerRC.ok⟩])

/-- A domain of OpenBao for which no key is found. -/
def noKey (domainId : Nat) : List CliEvent :=
  [⟨.type .openbao, KeyManagerTy.openbao⟩, ⟨.getLatestKey .openbao domainId, ([] : Bytes)⟩]

def openbaoConfig : CliConfig := { kmcType := ascii "openbao", thirdKmc := ⟨ascii "/usr/bin/bao"⟩ }

theorem initKm_typed {token : Bytes} (h : Fits token 128) (domainCount : Nat) :
    Traces (initKm openbaoConfig (some .openbao) domainCount)
      (typed token ++ [⟨.init .openbao (ascii "/usr/bin/bao") token domainCount, KeyManagerRC.ok⟩])
      (.ret .ok) := by
  have htoken : cstr token = token :=
    cstr_of_forall_ne fun c hc h0 => h.line c hc (.inr (.inr h0))
  refine (lineFromInput_typed h).bind ?_
  rw [if_neg (fun h => h rfl), htoken]
  exact .call (.ret _)

theorem withKm_typed {α : Type} {token : Bytes} (h : Fits token 128) {domainCount : Nat} {failed a : α}
    {body : Borrowed → CliProg α} {tr : List CliEvent} (hbody : Traces (body .openbao) tr (.ret a)) :
    Traces (withKm openbaoConfig domainCount failed body)
      (typed token ++ [⟨.init .openbao (ascii "/usr/bin/bao") token domainCount, KeyManagerRC.ok⟩] ++ tr)
      (.ret a) := by
  have hkm : getKm openbaoConfig = some .openbao := by decide +kernel
  unfold withKm
  rw [hkm]
  refine (initKm_typed h domainCount).bind ?_
  rw [if_pos rfl]
  exact hbody

/-- `--reEncrypt` up to its manager. -/
theorem reEncryptCmd_typed {tr : List CliEvent} {ret : CryptionToolRc × Bytes}
    (h : Traces (reEncrypt openbaoConfig 0 2 (ascii "ab")) tr (.ret ret)) :
    Traces (Command.handleCmd .reEncrypt [ascii "0", ascii "2"] openbaoConfig)
      ((typed (ascii "ab") ++ typed (ascii "ab")) ++ tr) (.ret ret.1) := by
  have hparams : parseDomainIdAndDomainCount [ascii "0", ascii "2"] = some (0, 2) := by
    decide +kernel
  have hcontent : Fits (ascii "ab") maxCipherLength :=
    ⟨by decide, by decide, by decide +kernel⟩
  show Traces (reEncryptCmd _ _) _ _
  unfold reEncryptCmd withDomain
  rw [if_neg (fun h => h rfl), hparams]
  refine (readEncryptContent_typed hcontent).bind ?_
  dsimp only
  rw [← List.append_nil tr]
  exact h.bind (.ret _)

theorem fits_token : Fits (ascii "t") 128 := ⟨by decide, by decide, by decide +kernel⟩

/-- `--reEncrypt` of a domain without a key: the answer is an error, and the manager keeps its
token. -/
theorem reEncrypt_noKey : Traces (Command.handleCmd .reEncrypt [ascii "0", ascii "2"] openbaoConfig)
    (opening (ascii "ab") (ascii "t") .openbao (ascii "/usr/bin/bao") 2 ++ noKey 0)
    (.ret .paramInvalid) := by
  have hleft : Traces (reEncrypt openbaoConfig 0 2 (ascii "ab"))
      (_ ++ noKey 0) (.ret (.paramInvalid, [])) := withKm_typed fits_token (.call (.call (.ret _)))
  unfold opening
  rw [List.append_assoc]
  exact reEncryptCmd_typed hleft

/-- What is answered where there is a key and the ciphertext `ab` holds `p`. -/
def withKey (domainId : Nat) : List CliEvent :=
  [⟨.type .openbao, KeyManagerTy.openbao⟩, ⟨.getLatestKey .openbao domainId, ascii "key"⟩,
    ⟨.type .openbao, KeyManagerTy.openbao⟩,
    ⟨.decrypt .openbao .aes256Gcm domainId (ascii "ab"), (KeyManagerRC.ok, ascii "p")⟩,
    ⟨.type .openbao, KeyManagerTy.openbao⟩,
    ⟨.encrypt .openbao .aes256Gcm domainId (ascii "p"), (KeyManagerRC.ok, ascii "c")⟩,
    ⟨.unInit .openbao, KeyManagerRC.ok⟩]

theorem reEncrypt_withKey : Traces (Command.handleCmd .reEncrypt [ascii "0", ascii "2"] openbaoConfig)
    (opening (ascii "ab") (ascii "t") .openbao (ascii "/usr/bin/bao") 2 ++ withKey 0)
    (.ret .ok) := by
  have hleft : Traces (reEncrypt openbaoConfig 0 2 (ascii "ab"))
      (_ ++ withKey 0) (.ret (.ok, ascii "c")) :=
    withKm_typed fits_token (.call (.call (.call (.call (.call (.call (.call (.ret _))))))))
  unfold opening
  rw [List.append_assoc]
  exact reEncryptCmd_typed hleft

/-- So the manager is not released whenever a handler returns. -/
theorem reEncrypt_leaks : ¬ ∀ (cmd : Command) (cmdParams : List Bytes) (config : CliConfig)
    (tr : List CliEvent) (rc : CryptionToolRc),
    Traces (cmd.handleCmd cmdParams config) tr (.ret rc) → Released tr := by
  intro hall
  have hrel := hall _ _ _ _ _ reEncrypt_noKey
  have hboth := hrel ((typed (ascii "ab") ++ typed (ascii "ab")) ++ typed (ascii "t")) (noKey 0)
    .openbao (ascii "/usr/bin/bao") (ascii "t") 2 (by simp [opening])
  cases hboth.2

/-- With a key the manager is released, without one it is not. -/
theorem handleCmd_released_iff_sample :
    Released (opening (ascii "ab") (ascii "t") .openbao (ascii "/usr/bin/bao") 2 ++ withKey 0) ∧
      ¬ Released (opening (ascii "ab") (ascii "t") .openbao (ascii "/usr/bin/bao") 2 ++ noKey 0) := by
  have hpre : ∀ ev ∈ opening (ascii "ab") (ascii "t") .openbao (ascii "/usr/bin/bao") 2,
      typeReply ev.1 ev.2 = none ∧ latestReply ev.1 ev.2 = none := by
    decide +kernel
  constructor
  · refine (handleCmd_released_iff reEncrypt_withKey).mpr ((Command.keeps_append hpre).mpr ⟨?_, ?_⟩)
    · simp [firstType, withKey, typeReply]
    · decide +kernel
  · intro hreleased
    have hkeeps := (handleCmd_released_iff reEncrypt_noKey).mp hreleased
    exact ((Command.keeps_append hpre).mp hkeeps).2 rfl

end CdfCrypto.Cli
