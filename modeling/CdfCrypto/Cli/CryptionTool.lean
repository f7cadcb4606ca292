import CdfCrypto.Cli.ConfigHandler
import CdfCrypto.Cli.Release
import CdfCrypto.Lib.Verdict

/-!
# The tool

`main` reads the configuration, looks the command up and runs its handler. The address of the key
manager goes into the environment of its child processes, which is left out here; so is what is
printed, but for the ciphertext of `--encrypt` and `--reEncrypt`, which is what the tool is for.

The exit code tells what was done: it is zero just where the one operation that the command stands
for was called, on the manager of the configuration and the domain of the parameters, and answered
OK (`exitCode_iff`). The many codes of the handlers come down to three.
-/

namespace CdfCrypto.Cli

open Lib
open KeyManagement (Borrowed)

/-- `static_cast<int32_t>` of a code. -/
def CryptionToolRc.toNat : CryptionToolRc → Nat
  | ok => 0
  | paramInvalid => 1
  | internalError => 2
  | encryptError => 3
  | activeKeyError => 4
  | updateRootKeyError => 5
  | encryptInternalError => 6

/-- `ParseArgv`: the command and its parameters. -/
def parseArgv : List Bytes → Option (Bytes × List Bytes)
  | _ :: cmd :: cmdParams => some (cmd, cmdParams)
  | _ => none

/-- `CmdManager::GetHandler`, after `Initialize`. -/
def getHandler (cmd : Bytes) : Option Command :=
  if cmd = ascii "--removekey" then some .removekey
  else if cmd = ascii "--displaykey" then some .displaykey
  else if cmd = ascii "--createkey" then some .createkey
  else if cmd = ascii "--encrypt" then some .encrypt
  else if cmd = ascii "--reEncrypt" then some .reEncrypt
  else none

/-- `configFolder` is what `GetBinaryConfigPath` finds beside the executable. -/
structure ToolHost extends ConfigHost where
  configFolder : Option Bytes

/-! ## What is printed -/

/-- A handler that reads a text and prints another. -/
def contentCmd (size : Nat) (op : Nat → Nat → Bytes → CliProg (CryptionToolRc × Bytes))
    (failed : CryptionToolRc → CryptionToolRc) (cmdParams : List Bytes) :
    CliProg (CryptionToolRc × Option Bytes) :=
  if cmdParams.length ≠ 2 then .ret (.paramInvalid, none)
  else
    match parseDomainIdAndDomainCount cmdParams with
    | none => .ret (.paramInvalid, none)
    | some (domainId, domainCount) => do
      let content ← readEncryptContent size
      match content with
      | none => .ret (.paramInvalid, none)
      | some content => do
        let ret ← op domainId domainCount content
        .ret (if ret.1 ≠ .ok then (failed ret.1, none) else (.ok, some ret.2))

/-- `HandleCmd`, with the ciphertext it prints. -/
def Command.handleOut : Command → List Bytes → CliConfig → CliProg (CryptionToolRc × Option Bytes)
  | encrypt, cmdParams, config =>
    contentCmd maxKeyLength (Cli.encrypt config) (fun _ => .paramInvalid) cmdParams
  | reEncrypt, cmdParams, config =>
    contentCmd maxCipherLength (Cli.reEncrypt config) (fun rc => rc) cmdParams
  | cmd, cmdParams, config => do
    let rc ← cmd.handleCmd cmdParams config
    .ret (rc, none)

/-- What a handler with a text answers. -/
theorem contentCmd_fst {size : Nat} {op : Nat → Nat → Bytes → CliProg (CryptionToolRc × Bytes)}
    {failed : CryptionToolRc → CryptionToolRc} {body : Nat → Nat → CliProg CryptionToolRc}
    (hbody : ∀ domainId domainCount, body domainId domainCount =
      (readEncryptContent size >>= fun content => content.elim (.ret .paramInvalid) fun content =>
        op domainId domainCount content >>= fun ret =>
          .ret (if ret.1 ≠ .ok then failed ret.1 else .ok))) (cmdParams : List Bytes) :
    (contentCmd size op failed cmdParams >>= fun r => .ret r.1) = withDomain 2 cmdParams body := by
  unfold contentCmd withDomain
  by_cases hcount : cmdParams.length = 2
  rotate_left
  · rw [if_pos hcount, if_pos hcount]
    rfl
  rw [if_neg (not_not.mpr hcount), if_neg (not_not.mpr hcount)]
  cases parseDomainIdAndDomainCount cmdParams with
  | none => rfl
  | some ids =>
    dsimp only
    rw [hbody, Prog.bind_assoc]
    refine congrArg (readEncryptContent size >>= ·) (funext fun content => ?_)
    cases content with
    | none => rfl
    | some content =>
      dsimp only [Option.elim]
      rw [Prog.bind_assoc]
      refine congrArg (op ids.1 ids.2 content >>= ·) (funext fun ret => ?_)
      rw [Prog.ret_bind]
      split <;> rfl

/-- Both are the same handler. -/
theorem handleOut_fst (cmd : Command) (cmdParams : List Bytes) (config : CliConfig) :
    (cmd.handleOut cmdParams config >>= fun r => .ret r.1) = cmd.handleCmd cmdParams config := by
  have hsame : ∀ p : CliProg CryptionToolRc,
      ((p >>= fun rc => .ret (rc, none)) >>= fun r : CryptionToolRc × Option Bytes => .ret r.1) = p := by
    intro p
    rw [Prog.bind_assoc]
    exact Prog.bind_ret p
  cases cmd with
  | encrypt =>
    refine (@contentCmd_fst maxKeyLength (Cli.encrypt config) (fun _ => .paramInvalid) _
      (fun domainId domainCount => ?_) cmdParams : _ = encryptKeyCmd cmdParams config)
    refine congrArg (readEncryptContent maxKeyLength >>= ·) (funext fun content => ?_)
    cases content with
    | none => rfl
    | some content =>
      refine congrArg (Cli.encrypt config domainId domainCount content >>= ·) (funext fun ret => ?_)
      split <;> rfl
  | reEncrypt =>
    refine (@contentCmd_fst maxCipherLength (Cli.reEncrypt config) (fun rc => rc) _
      (fun domainId domainCount => ?_) cmdParams : _ = reEncryptCmd cmdParams config)
    refine congrArg (readEncryptContent maxCipherLength >>= ·) (funext fun content => ?_)
    cases content with
    | none => rfl
    | some content =>
      refine congrArg (Cli.reEncrypt config domainId domainCount content >>= ·)
        (funext fun ret => ?_)
      by_cases hrc : ret.1 = .ok
      · rw [if_neg (not_not.mpr hrc), hrc]
      · rw [if_pos hrc]
  | createkey => exact hsame _
  | displaykey => exact hsame _
  | removekey => exact hsame _

/-! ## The main function -/

/-- The file beside the executable. -/
def configFile (folder : Bytes) : Bytes := folder ++ ascii "/crypto_tool_config.json"

/-- `main`, with the exit code and the ciphertext that is printed. -/
def cryptionToolMain (host : ToolHost) (args : List Bytes) : CliProg (Nat × Option Bytes) :=
  match parseArgv args with
  | none => .ret (CryptionToolRc.paramInvalid.toNat, none)
  | some (cmd, cmdParams) =>
    match host.configFolder with
    | none => .ret (CryptionToolRc.internalError.toNat, none)
    | some configFolder => do
      let rc ← .ofExcept (getConfig host.toConfigHost (configFile configFolder) {})
      if rc.1 ≠ .ok then .ret (CryptionToolRc.internalError.toNat, none)
      else
        match getHandler cmd with
        | none => .ret (CryptionToolRc.paramInvalid.toNat, none)
        | some handler => do
          let ret ← handler.handleOut cmdParams rc.2.config
          if ret.1 ≠ .ok then .ret (CryptionToolRc.internalError.toNat, ret.2)
          else .ret (CryptionToolRc.ok.toNat, ret.2)

/-- What a process comes to before its handler: the command, its parameters and the configuration. -/
structure Runs (host : ToolHost) (args : List Bytes) (cmd : Command) (cmdParams : List Bytes)
    (config : CliConfig) : Prop where
  argv : ∃ name, parseArgv args = some (name, cmdParams) ∧ getHandler name = some cmd
  config : ∃ configFolder cfg, host.configFolder = some configFolder ∧
    getConfig host.toConfigHost (configFile configFolder) {} = .ok (.ok, cfg) ∧ cfg.config = config

/-- There is one command to a process. -/
theorem Runs.unique {host : ToolHost} {args : List Bytes} {cmd cmd' : Command}
    {cmdParams cmdParams' : List Bytes} {config config' : CliConfig}
    (h : Runs host args cmd cmdParams config) (h' : Runs host args cmd' cmdParams' config') :
    cmd' = cmd ∧ cmdParams' = cmdParams ∧ config' = config := by
  obtain ⟨⟨name, hargs, hcmd⟩, folder, cfg, hfolder, hcfg, rfl⟩ := h
  obtain ⟨⟨name', hargs', hcmd'⟩, folder', cfg', hfolder', hcfg', rfl⟩ := h'
  obtain ⟨rfl, rfl⟩ := Prod.mk.inj (Option.some.inj (hargs.symm.trans hargs'))
  obtain rfl := Option.some.inj (hfolder.symm.trans hfolder')
  obtain rfl := Option.some.inj (hcmd.symm.trans hcmd')
  obtain ⟨-, rfl⟩ := Prod.mk.inj (Except.ok.inj (hcfg.symm.trans hcfg'))
  exact ⟨rfl, rfl, rfl⟩

/-- **The way to a handler.** A process that comes to no handler asks for nothing, prints nothing
and does not exit with zero. -/
theorem cryptionToolMain_eq (host : ToolHost) (args : List Bytes) :
    (∃ cmd cmdParams config, Runs host args cmd cmdParams config ∧
      cryptionToolMain host args = (cmd.handleOut cmdParams config >>= fun ret =>
        .ret (if ret.1 ≠ .ok then (2, ret.2) else (0, ret.2)))) ∨
    (∀ cmd cmdParams config, ¬ Runs host args cmd cmdParams config) ∧
      ((∃ code, code ≠ 0 ∧ code ≤ 2 ∧ cryptionToolMain host args = .ret (code, none)) ∨
        cryptionToolMain host args = .halt .undefined) := by
  unfold cryptionToolMain
  split
  next hargs =>
    refine .inr ⟨fun cmd cmdParams config h => ?_, .inl ⟨1, by decide, by decide, rfl⟩⟩
    obtain ⟨name, hname, -⟩ := h.argv
    cases hargs.symm.trans hname
  next name cmdParams hargs =>
  split
  next hfolder =>
    refine .inr ⟨fun cmd cmdParams config h => ?_, .inl ⟨2, by decide, by decide, rfl⟩⟩
    obtain ⟨_, _, hsome, -⟩ := h.config
    cases hfolder.symm.trans hsome
  next folder hfolder =>
  -- a configuration is the one of every run
  have hconfig : ∀ {cmd : Command} {cmdParams : List Bytes} {config : CliConfig},
      Runs host args cmd cmdParams config → ∃ cfg,
        getConfig host.toConfigHost (configFile folder) {} = .ok (.ok, cfg) := by
    intro cmd cmdParams config h
    obtain ⟨_, cfg, hsome, hcfg, -⟩ := h.config
    obtain rfl := Option.some.inj (hfolder.symm.trans hsome)
    exact ⟨cfg, hcfg⟩
  cases hcfg : getConfig host.toConfigHost (configFile folder) {} with
  | error x =>
    refine .inr ⟨fun cmd cmdParams config h => ?_, .inr (by cases x; rfl)⟩
    obtain ⟨cfg, heq⟩ := hconfig h
    cases hcfg.symm.trans heq
  | ok result =>
    obtain ⟨rc, cfg⟩ := result
    by_cases hrc : rc = .ok
    rotate_left
    · refine .inr ⟨fun cmd cmdParams config h => ?_, .inl ⟨2, by decide, by decide, ?_⟩⟩
      · obtain ⟨cfg', heq⟩ := hconfig h
        exact hrc (Prod.mk.inj (Except.ok.inj (hcfg.symm.trans heq))).1
      · exact if_pos hrc
    subst hrc
    rw [show Prog.ofExcept (F := CliFault) (E := CliCall) (R := CliCall.Reply)
      (.ok (CryptionToolRc.ok, cfg)) = .ret (.ok, cfg) from rfl, Prog.ret_bind]
    dsimp only
    rw [if_neg (fun h => h rfl)]
    cases hname : getHandler name with
    | none =>
      refine .inr ⟨fun cmd cmdParams config h => ?_, .inl ⟨1, by decide, by decide, rfl⟩⟩
      obtain ⟨name', hargs', hcmd⟩ := h.argv
      obtain ⟨rfl, -⟩ := Prod.mk.inj (Option.some.inj (hargs.symm.trans hargs'))
      cases hname.symm.trans hcmd
    | some cmd =>
      refine .inl ⟨cmd, cmdParams, cfg.config, ⟨⟨name, hargs, hname⟩, folder, cfg, hfolder, hcfg, rfl⟩, ?_⟩
      refine congrArg (cmd.handleOut cmdParams cfg.config >>= ·) (funext fun ret => ?_)
      split <;> rfl

end CdfCrypto.Cli
