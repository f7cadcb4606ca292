import CdfCrypto.Cli.KmcCmd
import CdfCrypto.Utils.FileChecks
import CdfCrypto.Utils.Json

/-!
# The configuration of the tool

`GetConfig` reads a JSON file into a `CliConfig`. A member that is missing keeps its default, and
so does one of the wrong type, but for the algorithm and the scope of the key manager; the type of
the key manager must be there. None of the values is looked at: that is `CheckConfig`, which the
tool does not call.

`CheckConfig` and the handlers have a table of algorithms each. They agree but for the empty name
(`cdfCheckAlg_iff`), which the check takes for the default and the handlers for no algorithm.
-/

namespace CdfCrypto.Cli

open Lib

/-- `CliConfig`, with the address of the key manager, which no handler looks at. -/
structure ToolConfig where
  config : CliConfig := { kmcType := [], thirdKmc := ⟨[]⟩ }
  kmcAddr : Bytes := []

/-- What reading the configuration depends on: `text` is the text of a file that can be opened. -/
structure ConfigHost where
  fs : FileSystem
  json : RapidJson
  text : Bytes → Option Bytes

/-! ## The file -/

/-- `MAX_FILE_SIZE` -/
def maxConfigSize : Int := 10 * 1024 * 1024

/-- `CheckFileStat` of the configuration. -/
def checkConfigStat (fs : FileSystem) (filePath : Bytes) : Bool :=
  match fs.stat (cstr filePath) with
  | none => false
  | some st => ¬ (¬ st.isReg ∨ maxConfigSize < st.size)

/-- `CDFCheckFilePathAndStat`, with the path it makes canonical where it succeeds. -/
def cdfCheckFilePathAndStat (fs : FileSystem) (filePath : Bytes) (mode : Nat) : Option Bytes :=
  if ¬ isAbsolutePath filePath then none
  else
    match FileUtils.canonicalPath fs filePath with
    | none => none
    | some filePath =>
      if ¬ checkConfigStat fs filePath then none
      else if ¬ fs.access (cstr filePath) mode then none
      else some filePath

/-- `CDF_ReadConfig`: the null document on every failure. -/
def cdfReadConfig (host : ConfigHost) (filePath : Bytes) : JsonValue :=
  match cdfCheckFilePathAndStat host.fs filePath FileUtils.readable with
  | none => .null
  | some filePath =>
    match host.text filePath with
    | none => .null
    | some text => (host.json.parse text).getD .null

/-! ## The values -/

/-- A member of type string sets a value, any other leaves it. -/
def stringOr (value : Bytes) : Option JsonValue → Bytes
  | some v => (v.cstr?).getD value
  | none => value

/-- `ConfigKMC`. `HasMember` of what is no object has no meaning. -/
def configKmc (configDoc : JsonValue) (cfg : ToolConfig) :
    Except CliFault (CryptionToolRc × ToolConfig) :=
  match configDoc.members? with
  | none => .error .undefined
  | some members =>
    let algorithm := match findMember members (ascii "algorithm") with
      | none => some cfg.config.algorithm
      | some v => v.cstr?
    match algorithm with
    | none => .ok (.internalError, cfg)
    | some algorithm =>
      let cfg := { cfg with config.algorithm := algorithm }
      match findMember members (ascii "keyManagerType") with
      | none => .ok (.paramInvalid, cfg)
      | some kmcType =>
        let cfg := { cfg with config.kmcType := stringOr cfg.config.kmcType (some kmcType) }
        match findMember members (ascii "thirdKeyManager") with
        | none => .ok (.ok, cfg)
        | some thirdKmc =>
          match thirdKmc.members? with
          | none => .ok (.internalError, cfg)
          | some scope =>
            let kmcPath := stringOr cfg.config.thirdKmc.kmcPath (findMember scope (ascii "keyManagerPath"))
            let kmcAddr := stringOr cfg.kmcAddr (findMember scope (ascii "keyManagerAddr"))
            .ok (.ok, { cfg with config.thirdKmc.kmcPath := kmcPath, kmcAddr })

/-- `GetConfig` -/
def getConfig (host : ConfigHost) (filePath : Bytes) (cfg : ToolConfig) :
    Except CliFault (CryptionToolRc × ToolConfig) :=
  match cdfReadConfig host filePath with
  | .null => .ok (.internalError, cfg)
  | configDoc => configKmc configDoc cfg

/-! ## The checks -/

/-- `CDFCheckAlg` -/
def cdfCheckAlg (algStr : Bytes) : CryptionToolRc :=
  if algStr = [] then .ok
  else if algStr ∈ [ascii "AES128_GCM", ascii "AES256_GCM", ascii "SM4_CTR", ascii "AES128_CCM",
      ascii "CHACHA20_POLY1305"] then .ok
  else .internalError

/-- `CDFCheckType` -/
def cdfCheckType (kmcType : Bytes) : CryptionToolRc :=
  if kmcType = [] then .ok
  else if kmcType ≠ ascii "openbao" ∧ kmcType ≠ ascii "vault" then .internalError
  else .ok

/-- `F_OK | R_OK | X_OK` -/
def executable : Nat := 5

/-- `CDFCheckPath` -/
def cdfCheckPath (fs : FileSystem) (kmcPath : Bytes) : CryptionToolRc :=
  if cdfCheckFilePathAndStat fs kmcPath executable = none then .internalError else .ok

/-- `CheckConfig` -/
def checkConfig (fs : FileSystem) (cfg : ToolConfig) : CryptionToolRc :=
  if cdfCheckAlg cfg.config.algorithm ≠ .ok then .internalError
  else if cdfCheckType cfg.config.kmcType ≠ .ok then .internalError
  else if cdfCheckPath fs cfg.config.thirdKmc.kmcPath ≠ .ok then .internalError
  else .ok

/-- **Two tables of algorithms.** -/
theorem cdfCheckAlg_iff (config : CliConfig) : cdfCheckAlg config.algorithm = .ok ↔
    config.algorithm = [] ∨ configParseCryptoAlg config ≠ .unknown := by
  unfold cdfCheckAlg configParseCryptoAlg
  simp only [List.mem_cons, List.not_mem_nil, or_false]
  by_cases hnil : config.algorithm = []
  · simp [hnil]
  simp only [hnil, if_false, false_or]
  split
  next hmem =>
    refine iff_of_true rfl fun h => ?_
    rcases hmem with heq | heq | heq | heq | heq <;>
    · rw [heq] at h
      revert h
      decide
  next hmem =>
    obtain ⟨h₁, h₂, h₃, h₄, h₅⟩ : _ ∧ _ ∧ _ ∧ _ ∧ _ := by simpa only [not_or] using hmem
    rw [if_neg h₁, if_neg h₂, if_neg h₃, if_neg h₄, if_neg h₅]
    exact iff_of_false (fun h => by cases h) fun h => h rfl

end CdfCrypto.Cli
