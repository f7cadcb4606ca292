import CdfCrypto.Cli.CryptionTool
import CdfCrypto.Lib.Verdict

/-!
# The exit code

Each command stands for one operation of a key manager. A handler does much beside it (it asks for
the type of the manager, looks for a key or makes one, decrypts), and has many ways to end.
`CarriedOut` is that the operation itself has been called, on the manager of the configuration and
with the ids of the parameters, and has answered OK: the exit code is zero just then
(`exitCode_iff`).
-/

namespace CdfCrypto.Cli

open Lib
open KeyManagement (Borrowed cryptorAnswer)

/-- The call is the operation of the command, and its answer is OK. -/
def Command.CarriedOut (cmd : Command) (config : CliConfig) (cmdParams : List Bytes) :
    (c : CliCall) → c.Reply → Prop
  | .encrypt km alg domainId _, reply => (cmd = .encrypt ∨ cmd = .reEncrypt) ∧
    getKm config = some km ∧ alg = configParseCryptoAlg config ∧
    (∃ n, parseDomainIdAndDomainCount cmdParams = some (domainId, n)) ∧ reply.1 = .ok
  | .createKey km domainId, reply => cmd = .createkey ∧ getKm config = some km ∧
    (∃ n, parseDomainIdAndDomainCount cmdParams = some (domainId, n)) ∧ reply.1 = .ok
  | .displayKey km domainId, reply => cmd = .displaykey ∧ getKm config = some km ∧
    (∃ n, parseDomainIdAndDomainCount cmdParams = some (domainId, n)) ∧ reply = KeyManagerRC.ok
  | .removeKey km domainId keyId, reply => cmd = .removekey ∧ getKm config = some km ∧
    (∃ n, parseDomainIdAndDomainCount cmdParams = some (domainId, n)) ∧
    strToU32 (cmdParams.getD domainRemoveKeyIndex []) = some keyId ∧ reply = KeyManagerRC.ok
  | _, _ => False

/-- A call that is not the operation of the command. -/
def Command.Aside (cmd : Command) : CliCall → Prop
  | .encrypt _ _ _ _ => cmd ≠ .encrypt ∧ cmd ≠ .reEncrypt
  | .createKey _ _ => cmd ≠ .createkey
  | .displayKey _ _ => cmd ≠ .displaykey
  | .removeKey _ _ _ => cmd ≠ .removekey
  | _ => True

theorem parseKeyManagerRC_eq_ok (rc : KeyManagerRC) :
    KeyManagement.parseKeyManagerRC rc = .ok ↔ rc = .ok := by
  cases rc <;> decide

section Handlers

variable {cmd : Command} {config : CliConfig} {cmdParams : List Bytes} {α β : Type}

/-- The event is the operation, with an answer of OK. -/
def Done (cmd : Command) (config : CliConfig) (cmdParams : List Bytes) (ev : CliEvent) : Prop :=
  cmd.CarriedOut config cmdParams ev.1 ev.2

theorem not_done_of_aside {ev : CliEvent} (h : cmd.Aside ev.1) : ¬ Done cmd config cmdParams ev := by
  obtain ⟨c, reply⟩ := ev
  intro hdone
  cases c with
  | encrypt km alg d p =>
    rcases hdone.1 with heq | heq
    · exact h.1 heq
    · exact h.2 heq
  | createKey km d => exact h hdone.1
  | displayKey km d => exact h hdone.1
  | removeKey km d k => exact h hdone.1
  | _ => exact hdone

theorem aside {p : CliProg α} (h : Calls cmd.Aside p) :
    wp p fun tr _ => ∀ ev ∈ tr, ¬ Done cmd config cmdParams ev :=
  wp_mono h.trace fun _ _ htr ev hev => not_done_of_aside (htr ev hev)

theorem quiet_aside {tr : List CliEvent} (h : Quiet tr) :
    ∀ ev ∈ tr, ¬ Done cmd config cmdParams ev := by
  intro ev hev
  refine not_done_of_aside ?_
  rw [h ev hev]
  trivial

theorem readEncryptContent_aside (size : Nat) : wp (readEncryptContent size) fun tr _ =>
    ∀ ev ∈ tr, ¬ Done cmd config cmdParams ev :=
  wp_mono (readEncryptContent_total size).trace fun _ _ h => quiet_aside h.2

theorem initKm_aside (km : Option Borrowed) (domainCount : Nat) :
    wp (initKm config km domainCount) fun tr _ => ∀ ev ∈ tr, ¬ Done cmd config cmdParams ev := by
  refine wp_mono (initKm_wp config km domainCount) fun tr o h => ?_
  cases h with
  | refused hquiet _ => exact quiet_aside hquiet
  | answered hquiet _ kmcPath accessToken domainCount r =>
    refine List.forall_mem_append.mpr ⟨quiet_aside hquiet, List.forall_mem_singleton.mpr ?_⟩
    exact fun h => h

/-- What holds of the part with the manager holds of the whole. -/
theorem withKm_verdict {good : α → Prop} {failed : α} (hfailed : ¬ good failed)
    {body : Borrowed → CliProg α} (hbody : ∀ km, getKm config = some km →
      wp (body km) (Verdict good (Done cmd config cmdParams))) (domainCount : Nat) :
    wp (withKm config domainCount failed body) (Verdict good (Done cmd config cmdParams)) := by
  unfold withKm
  refine verdict_bind (initKm_aside _ domainCount) fun inited => ?_
  split
  · cases hkm : getKm config with
    | none => exact fun a ho => by cases ho
    | some km => exact hbody km hkm
  · exact verdict_ret hfailed

theorem switchType_aside (km : Borrowed) : Calls cmd.Aside (switchType km) := by
  refine ⟨trivial, fun type => ?_⟩
  cases type with
  | unknown => trivial
  | openbao => cases km <;> trivial
  | vault => cases km <;> trivial

/-- The encryption, where it is the operation of the command. -/
theorem cryptorEncrypt_verdict (hcmd : cmd = .encrypt ∨ cmd = .reEncrypt) {km : Borrowed}
    (hkm : getKm config = some km) {d n : Nat}
    (hd : parseDomainIdAndDomainCount cmdParams = some (d, n)) (p : Bytes) :
    wp (cryptorEncrypt km (configParseCryptoAlg config) p d)
      (Verdict (fun r => r.1 = .ok) (Done cmd config cmdParams)) := by
  unfold cryptorEncrypt
  refine verdict_bind (aside (switchType_aside km)) fun known => ?_
  split
  · refine verdict_perform fun reply => ?_
    refine ⟨fun _ hev => absurd hev List.not_mem_nil, fun b heq => ?_⟩
    obtain rfl := Outcome.ret.inj heq
    show KeyManagement.parseKeyManagerRC reply.1 = .ok ↔ _
    rw [parseKeyManagerRC_eq_ok]
    exact ⟨fun hok => ⟨hcmd, hkm, rfl, ⟨n, hd⟩, hok⟩, fun hdone => hdone.2.2.2.2⟩
  · exact verdict_ret (by decide)

/-- `UnInit` at the end, and an answer that is known by then. -/
theorem unInit_after {good : α → Prop} {P : Prop} (km : Borrowed) {f : KeyManagerRC → CliProg α}
    (hf : ∀ r, ∃ a, f r = .ret a ∧ (good a ↔ P)) :
    wp (.perform (CliCall.unInit km) >>= f) fun tr o =>
      (∀ ev ∈ tr, ¬ Done cmd config cmdParams ev) ∧ ∀ a, o = .ret a → (good a ↔ P) := by
  intro r
  obtain ⟨a, ha, hsame⟩ := hf r
  show wp (f r) _
  rw [ha]
  refine ⟨List.forall_mem_singleton.mpr fun h => h, fun b heq => ?_⟩
  obtain rfl := Outcome.ret.inj heq
  exact hsame

/-- `UnInit` on the way out of a failure. -/
theorem unInit_failed {good : α → Prop} (km : Borrowed) {a : α} (ha : ¬ good a) :
    wp (.perform (CliCall.unInit km) >>= fun _ => (.ret a : CliProg α))
      (Verdict good (Done cmd config cmdParams)) :=
  verdict_bind (aside ⟨trivial, fun _ => trivial⟩) fun _ => verdict_ret ha

end Handlers

/-! ## Handlers -/

variable {config : CliConfig} {cmdParams : List Bytes} {d n : Nat}

theorem encrypt_verdict (hd : parseDomainIdAndDomainCount cmdParams = some (d, n)) (text : Bytes) :
    wp (encrypt config d n text)
      (Verdict (fun r => r.1 = .ok) (Done .encrypt config cmdParams)) := by
  refine withKm_verdict (by decide) (fun km hkm => ?_) n
  have hprepare : Calls (Command.Aside .encrypt) (prepareKmDomainKey km d) := by
    refine (switchType_aside km).bind fun known => ?_
    split
    · refine ⟨trivial, fun latest => ?_⟩
      show Calls _ (if latest = [] then _ else _)
      split
      · exact ⟨show Command.encrypt ≠ .createkey by decide, fun _ => trivial⟩
      · trivial
    · trivial
  refine verdict_bind (aside hprepare) fun tmpRc => ?_
  split
  next hrc => exact verdict_ret hrc
  next hrc =>
  refine verdict_bind_after (cryptorEncrypt_verdict (.inl rfl) hkm hd (cstr text)) fun result => ?_
  refine unInit_after km fun _ => ?_
  split
  next hfailed => exact ⟨_, rfl, iff_of_false (by decide) hfailed⟩
  next hok => exact ⟨_, rfl, iff_of_true rfl (not_not.mp hok)⟩

theorem reEncrypt_verdict (hd : parseDomainIdAndDomainCount cmdParams = some (d, n)) (text : Bytes) :
    wp (reEncrypt config d n text)
      (Verdict (fun r => r.1 = .ok) (Done .reEncrypt config cmdParams)) := by
  refine withKm_verdict (by decide) (fun km hkm => ?_) n
  have hcheck : Calls (Command.Aside .reEncrypt) (checkDomainKey km d) := by
    refine (switchType_aside km).bind fun known => ?_
    split
    · refine ⟨trivial, fun latest => ?_⟩
      show Calls _ (if latest = [] then _ else _)
      split <;> trivial
    · trivial
  have hdecrypt : Calls (Command.Aside .reEncrypt)
      (cryptorDecrypt km (configParseCryptoAlg config) (cstr text) d) := by
    refine (switchType_aside km).bind fun known => ?_
    split
    · exact ⟨trivial, fun _ => trivial⟩
    · trivial
  refine verdict_bind (aside hcheck) fun tmpRc => ?_
  split
  next hrc => exact verdict_ret hrc
  next hrc =>
  refine verdict_bind (aside hdecrypt) fun result => ?_
  split
  · exact unInit_failed km (by decide)
  · refine verdict_bind_after (cryptorEncrypt_verdict (.inr rfl) hkm hd result.2) fun result => ?_
    split
    next hfailed => exact unInit_after km fun _ => ⟨_, rfl, iff_of_false (by decide) hfailed⟩
    next hok => exact unInit_after km fun _ => ⟨_, rfl, iff_of_true rfl (not_not.mp hok)⟩

theorem keyOperation_verdict {cmd : Command} {operation : Borrowed → CliCall}
    {rc : ∀ km, (operation km).Reply → KeyManagerRC}
    (hop : ∀ km, getKm config = some km → ∀ reply,
      (rc km reply = .ok ↔ cmd.CarriedOut config cmdParams (operation km) reply)) :
    wp (keyOperation config n operation rc)
      (Verdict (fun r => r = .ok) (Done cmd config cmdParams)) := by
  refine withKm_verdict (by decide) (fun km hkm => ?_) n
  refine verdict_perform fun reply => ?_
  refine unInit_after km fun _ => ?_
  have hsame := hop km hkm reply
  split
  next hfailed => exact ⟨_, rfl, iff_of_false (by decide) fun h => hfailed (hsame.mpr h)⟩
  next hok => exact ⟨_, rfl, iff_of_true rfl (hsame.mp (not_not.mp hok))⟩

/-- A handler with a text. -/
theorem contentCmd_verdict {cmd : Command} {size : Nat}
    {op : Nat → Nat → Bytes → CliProg (CryptionToolRc × Bytes)}
    {failed : CryptionToolRc → CryptionToolRc} (hfailed : ∀ rc, rc ≠ .ok → failed rc ≠ .ok)
    (hop : ∀ d n text, parseDomainIdAndDomainCount cmdParams = some (d, n) →
      wp (op d n text) (Verdict (fun r => r.1 = .ok) (Done cmd config cmdParams))) :
    wp (contentCmd size op failed cmdParams)
      (Verdict (fun r => r.1 = .ok) (Done cmd config cmdParams)) := by
  unfold contentCmd
  split
  · exact verdict_ret (by decide)
  split
  · exact verdict_ret (by decide)
  next d n hd =>
  refine verdict_bind (readEncryptContent_aside size) fun content => ?_
  cases content with
  | none => exact verdict_ret (by decide)
  | some content =>
    refine verdict_bind_ret (hop d n content hd) fun ret => ?_
    by_cases hrc : ret.1 = .ok
    · exact ⟨_, by rw [if_neg (not_not.mpr hrc)], iff_of_true rfl hrc⟩
    · exact ⟨_, by rw [if_pos hrc], iff_of_false (hfailed _ hrc) hrc⟩

/-- A handler for the keys of a domain. -/
theorem keyCmd_verdict {cmd : Command} {paramCount : Nat}
    {body : Nat → Nat → CliProg CryptionToolRc}
    (hbody : ∀ d n, parseDomainIdAndDomainCount cmdParams = some (d, n) →
      wp (body d n) (Verdict (fun r => r = .ok) (Done cmd config cmdParams))) :
    wp (withDomain paramCount cmdParams body >>= fun rc => .ret (rc, (none : Option Bytes)))
      (Verdict (fun r => r.1 = .ok) (Done cmd config cmdParams)) := by
  have hhandler : wp (withDomain paramCount cmdParams body)
      (Verdict (fun r => r = .ok) (Done cmd config cmdParams)) := by
    unfold withDomain
    split
    · exact verdict_ret (by decide)
    split
    · exact verdict_ret (by decide)
    next d n hd => exact hbody d n hd
  exact verdict_bind_ret hhandler fun rc => ⟨_, rfl, Iff.rfl⟩

/-- **Every handler** answers OK just where its operation does. -/
theorem handleOut_verdict (cmd : Command) (cmdParams : List Bytes) (config : CliConfig) :
    wp (cmd.handleOut cmdParams config)
      (Verdict (fun r => r.1 = .ok) (Done cmd config cmdParams)) := by
  cases cmd with
  | encrypt =>
    have hfailed : CryptionToolRc.paramInvalid ≠ .ok := by decide
    exact contentCmd_verdict (fun _ _ => hfailed) fun d n text hd => encrypt_verdict hd text
  | reEncrypt =>
    exact contentCmd_verdict (fun _ hrc => hrc) fun d n text hd => reEncrypt_verdict hd text
  | createkey =>
    refine keyCmd_verdict fun d n hd => keyOperation_verdict fun km hkm reply => ?_
    exact ⟨fun hok => ⟨rfl, hkm, ⟨n, hd⟩, hok⟩, fun hdone => hdone.2.2.2⟩
  | displaykey =>
    refine keyCmd_verdict fun d n hd => keyOperation_verdict fun km hkm reply => ?_
    exact ⟨fun hok => ⟨rfl, hkm, ⟨n, hd⟩, hok⟩, fun hdone => hdone.2.2.2⟩
  | removekey =>
    refine keyCmd_verdict fun d n hd => ?_
    split
    · exact verdict_ret (by decide)
    next k hk =>
      refine keyOperation_verdict fun km hkm reply => ?_
      exact ⟨fun hok => ⟨rfl, hkm, ⟨n, hd⟩, hk, hok⟩, fun hdone => hdone.2.2.2.2⟩

/-- **The exit code.** A process exits with zero, one or two, and with zero just where it came to
the handler of a command whose operation it carried out. -/
theorem exitCode_iff {host : ToolHost} {args : List Bytes} {tr : List CliEvent} {code : Nat}
    {printed : Option Bytes} (htr : Traces (cryptionToolMain host args) tr (.ret (code, printed))) :
    code ≤ 2 ∧ (code = 0 ↔ ∃ cmd cmdParams config, Runs host args cmd cmdParams config ∧
      ∃ ev ∈ tr, cmd.CarriedOut config cmdParams ev.1 ev.2) := by
  rcases cryptionToolMain_eq host args with ⟨cmd, cmdParams, config, hruns, heq⟩ |
    ⟨hnone, ⟨code', hcode, hle, heq⟩ | heq⟩
  · rw [heq] at htr
    have hverdict : wp (cmd.handleOut cmdParams config >>= fun ret =>
        (.ret (if ret.1 ≠ .ok then (2, ret.2) else (0, ret.2)) : CliProg (Nat × Option Bytes)))
        (fun tr o => (∀ a, o = .ret a → a.1 ≤ 2) ∧
          Verdict (fun r => r.1 = 0) (Done cmd config cmdParams) tr o) := by
      refine wp_and ?_ (verdict_bind_ret (handleOut_verdict cmd cmdParams config) fun ret => ?_)
      · refine wp_bind_any (fun tr ret a ho => ?_) fun tr x a ho => by cases ho
        obtain rfl := Outcome.ret.inj ho
        split
        · exact Nat.le_refl 2
        · exact Nat.zero_le 2
      · by_cases hrc : ret.1 = .ok
        · exact ⟨_, by rw [if_neg (not_not.mpr hrc)], iff_of_true rfl hrc⟩
        · exact ⟨_, by rw [if_pos hrc], iff_of_false (Nat.succ_ne_zero 1) hrc⟩
    obtain ⟨hle, hiff⟩ := wp_iff.mp hverdict _ _ htr
    refine ⟨hle _ rfl, (hiff _ rfl).trans ?_⟩
    constructor
    · exact fun hdone => ⟨cmd, cmdParams, config, hruns, hdone⟩
    · rintro ⟨cmd', cmdParams', config', hruns', hdone⟩
      obtain ⟨rfl, rfl, rfl⟩ := hruns.unique hruns'
      exact hdone
  · rw [heq] at htr
    cases htr
    refine ⟨hle, iff_of_false hcode ?_⟩
    rintro ⟨cmd, cmdParams, config, hruns, -⟩
    exact hnone _ _ _ hruns
  · rw [heq] at htr
    cases htr

/-! ## A key that is made -/

/-- Files are there, may be read, and hold the configuration. -/
def sampleToolHost : ToolHost where
  fs := {
    stat := fun _ => some ⟨0o100600, 100, 0⟩
    lstat := fun _ => some ⟨0o100600, 100, 0⟩
    realpath := some
    access := fun _ _ => true
    uid := 0
    seekEnd := fun _ => some 100 }
  json := {
    parse := fun _ => some (.object [(ascii "keyManagerType", .string (ascii "openbao")),
      (ascii "thirdKeyManager", .object [(ascii "keyManagerPath", .string (ascii "/usr/bin/bao"))])])
    write := fun _ => [] }
  text := some
  configFolder := some (ascii "/etc")

/-- The arguments of a process, for the domain 0 of two. -/
def sampleArgs (cmd : Bytes) : List Bytes := [ascii "cryption_tool", cmd, ascii "0", ascii "2"]

theorem sampleToolHost_runs {name : Bytes} {cmd : Command} (h : getHandler name = some cmd) :
    Runs sampleToolHost (sampleArgs name) cmd [ascii "0", ascii "2"] openbaoConfig :=
  ⟨⟨name, rfl, h⟩, ascii "/etc", ⟨openbaoConfig, []⟩, rfl, rfl, rfl⟩

/-- What a `--createkey` does that succeeds. -/
def created (keyId : Nat) : List CliEvent :=
  (typed (ascii "t") ++ [⟨.init .openbao (ascii "/usr/bin/bao") (ascii "t") 2, KeyManagerRC.ok⟩]) ++
    [⟨.createKey .openbao 0, (KeyManagerRC.ok, keyId)⟩, ⟨.unInit .openbao, KeyManagerRC.ok⟩]

theorem createkey_created (keyId : Nat) :
    Traces (cryptionToolMain sampleToolHost (sampleArgs (ascii "--createkey"))) (created keyId)
      (.ret (0, none)) := by
  have hparams : parseDomainIdAndDomainCount [ascii "0", ascii "2"] = some (0, 2) := by
    decide +kernel
  have hhandler : Traces (createKeyCmd [ascii "0", ascii "2"] openbaoConfig) (created keyId)
      (.ret .ok) := by
    unfold createKeyCmd withDomain
    rw [if_neg (fun h => h rfl), hparams]
    show Traces (keyOperation openbaoConfig 2 _ _) _ _
    exact withKm_typed fits_token (.call (.call (.ret _)))
  have hout : Traces (Command.handleOut .createkey [ascii "0", ascii "2"] openbaoConfig)
      (created keyId) (.ret (.ok, none)) :=
    @Traces.bind_ret _ _ _ _ _ _ _ (fun rc => (rc, (none : Option Bytes))) (fun _ => rfl) _ _ hhandler
  have hruns : Runs sampleToolHost (sampleArgs (ascii "--createkey")) .createkey
      [ascii "0", ascii "2"] openbaoConfig := sampleToolHost_runs (by decide +kernel)
  rcases cryptionToolMain_eq sampleToolHost (sampleArgs (ascii "--createkey")) with
    ⟨cmd, cmdParams, config, hruns', heq⟩ | ⟨hnone, -⟩
  · obtain ⟨rfl, rfl, rfl⟩ := hruns.unique hruns'
    rw [heq, ← List.append_nil (created keyId)]
    exact hout.bind (.ret _)
  · exact absurd hruns (hnone _ _ _)

theorem exitCode_iff_created : ∃ cmd cmdParams config,
    Runs sampleToolHost (sampleArgs (ascii "--createkey")) cmd cmdParams config ∧
      ∃ ev ∈ created 0, cmd.CarriedOut config cmdParams ev.1 ev.2 :=
  (exitCode_iff (createkey_created 0)).2.mp rfl

end CdfCrypto.Cli
