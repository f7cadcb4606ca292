import CdfCrypto.Lib.Prog
import CdfCrypto.Cryption.NativeCryptor
import CdfCrypto.KeyManagement.Define
import CdfCrypto.Utils.Json
import CdfCrypto.Utils.StrUtils

/-!
# Running the vault's command line

The key manager reaches the vault through its command-line client. `Command` is
the list of commands it runs, with the texts the source builds; one command is
one `Call.run`, answered by what `ExecOpenbaoCmd` returns (a status and an
output). The other calls are the ones the manager makes itself: its mutex, the
clock, the path check of `Init`, and the world of one native encryption.

The readers of the JSON output come after. rapidjson's accessors have type
preconditions which the readers do not all check; an accessor used outside its
precondition is `Fault.undefined`.
-/

namespace CdfCrypto.KeyManagement

open Lib

/-! ## Commands -/

/-- The flags a `config` command can set. -/
inductive KeyFlag
  | exportable
  | deletionAllowed
  deriving DecidableEq, Repr

inductive Command
  | list
  | read (domainId keyId : Nat)
  | create (domainId keyId : Nat)
  | config (domainId keyId : Nat) (flags : List KeyFlag)
  | delete (domainId keyId : Nat)
  | exportKey (domainId keyId : Nat)
  deriving DecidableEq, Repr

/-- The name of a key in the vault. -/
def keyName (domainId keyId : Nat) : Bytes :=
  ascii "CDF" ++ (decimal domainId ++ (ascii "_Key" ++ decimal keyId))

def KeyFlag.text : KeyFlag → Bytes
  | exportable => ascii " exportable=true"
  | deletionAllowed => ascii " deletion_allowed=true"

/-- The command line, as the source streams it together. -/
def Command.text (exePath : Bytes) : Command → Bytes
  | list => exePath ++ ascii " list -format=json transit/keys"
  | read d k => exePath ++ ascii " read -format=json transit/keys/" ++ keyName d k
  | create d k => exePath ++ ascii " write -f transit/keys/" ++ keyName d k
  | config d k flags =>
    exePath ++ ascii " write transit/keys/" ++ keyName d k ++ ascii "/config" ++
      flags.flatMap KeyFlag.text
  | delete d k => exePath ++ ascii " delete transit/keys/" ++ keyName d k
  | exportKey d k =>
    exePath ++ ascii " read transit/export/encryption-key/" ++ keyName d k ++ ascii " -format=json"

/-! ## Calls -/

/-- How `mutex_` is held. -/
inductive LockMode
  | shared
  | exclusive
  deriving DecidableEq, Repr

/-- What the key manager asks of its environment. -/
inductive Call
  | acquire (mode : LockMode)
  | release (mode : LockMode)
  | run (exePath accessToken : Bytes) (cmd : Command)
  | time
  | canonicalPath (path : Bytes)
  | crypt

/-- `canonicalPath` answers the path after `CanonicalPath` and `CheckUserAccess`, if they allow it. -/
abbrev Call.Reply : Call → Type
  | acquire _ => Unit
  | release _ => Unit
  | run _ _ _ => Int × Bytes
  | time => Int
  | canonicalPath _ => Option Bytes
  | crypt => OpensslWorld

/-- A step without a meaning, or the trap of `-ftrapv`. -/
inductive Fault
  | undefined
  | overflow
  deriving DecidableEq, Repr

/-- A program of the key manager. -/
abbrev Km (α : Type) := Prog Call Call.Reply Fault α

/-- One call of the key manager and its answer. -/
abbrev KmEvent := Event Call Call.Reply

/-! ## Results of a command -/

/-- `out.find("Error") != npos` -/
def hasError (out : Bytes) : Bool := (cutAt (ascii "Error") out).isSome

/-- What `RunCommandAndGetResult` makes of a status and an output. -/
def commandResult (reply : Int × Bytes) : KeyManagerRC × Bytes :=
  if reply.1 ≠ 0 then (.error, [])
  else if hasError reply.2 then (.error, reply.2)
  else (.ok, reply.2)

/-- The command has run, as far as the key manager can see. -/
def Succeeded (reply : Int × Bytes) : Prop := (commandResult reply).1 = .ok

instance (reply : Int × Bytes) : Decidable (Succeeded reply) :=
  inferInstanceAs (Decidable ((commandResult reply).1 = .ok))

def runCommandAndGetResult (exePath accessToken : Bytes) (cmd : Command) :
    Km (KeyManagerRC × Bytes) :=
  if cmd.text exePath = [] then .ret (.error, [])
  else if accessToken = [] then .ret (.error, [])
  else do
    let reply ← .perform (.run exePath accessToken cmd)
    .ret (commandResult reply)

def runCommandAndCheck (exePath accessToken : Bytes) (cmd : Command) : Km KeyManagerRC := do
  let result ← runCommandAndGetResult exePath accessToken cmd
  .ret (if result.1 ≠ .ok then .error else .ok)

/-! ## Reading the output -/

/-- `ParseJsonAndCheck`, with the members of `data.keys` it leaves to its callers. -/
def parseJsonAndCheck (J : RapidJson) (readResultStr : Bytes) :
    Except Fault (Option (List (Bytes × JsonValue))) :=
  match J.parse readResultStr with
  | none => .ok none
  | some doc =>
    match doc.members? with
    | none => .ok none
    | some members =>
      if members = [] then .ok none
      else
        match findMember members (ascii "data") with
        | none => .ok none
        | some data =>
          match data.members? with
          | none => .error .undefined
          | some dataMembers =>
            match findMember dataMembers (ascii "keys") with
            | none => .ok none
            | some keys =>
              match keys.members? with
              | none => .error .undefined
              | some keyMembers => if keyMembers = [] then .ok none else .ok (some keyMembers)

/-- `GetJsonFieldAsStr`: the last member of `data.keys`, empty where it is no string. -/
def getJsonFieldAsStr (J : RapidJson) (jsonStr : Bytes) : Except Fault Bytes := do
  match ← parseJsonAndCheck J jsonStr with
  | none => return []
  | some keys =>
    match keys.getLast? with
    | none => return []
    | some lastElem =>
      match lastElem.2.cstr? with
      | none => return []
      | some s => return s

/-- The loop of `GetJsonFieldMaxInt`: each member is looked up again by its name. -/
def maxIntLoop (keys : List (Bytes × JsonValue)) :
    List (Bytes × JsonValue) → Int → Except Fault Int
  | [], ret => .ok ret
  | member :: rest, ret =>
    match findMember keys (cstr member.1) with
    | none => .error .undefined
    | some value =>
      match value.int? with
      | none => .ok (-1)
      | some tmpInt => maxIntLoop keys rest (if ret < tmpInt then tmpInt else ret)

def getJsonFieldMaxInt (J : RapidJson) (jsonStr : Bytes) : Except Fault Int := do
  match ← parseJsonAndCheck J jsonStr with
  | none => return -1
  | some keys => maxIntLoop keys keys (-1)

/-- The exception of the standard library that no handler below `main` catches. -/
inductive StdException
  | outOfRange
  deriving DecidableEq, Repr

/-- What `StrDecodeToDomainIdKeyId` reports: `1`, `-1` and `0` with the pair. -/
inductive Decoded
  | skipped
  | failed
  | pair (domain key : Nat)
  deriving DecidableEq, Repr

/-- `StrDecodeToDomainIdKeyId`: the domain stands between position 3 and the next
`_`, the key from four positions after that `_`; `substr` throws past the end. -/
def strDecodeToDomainIdKeyId (str : Bytes) : Except StdException Decoded :=
  match cutAt [95] (str.drop 3) with
  | none => .ok .skipped
  | some (domainStr, rest) =>
    match strToU32 domainStr with
    | none => .ok .failed
    | some domain =>
      if rest.length < 3 then .error .outOfRange
      else
        match strToU32 (rest.drop 3) with
        | none => .ok .failed
        | some key => .ok (.pair domain key)

/-- The loop of `GetJsonFieldIntPairVec`, `none` for its error code. -/
def intPairLoop : List JsonValue → List (Nat × Nat) → Except StdException (Option (List (Nat × Nat)))
  | [], out => .ok (some out)
  | element :: rest, out =>
    match element.cstr? with
    | none => .ok none
    | some tmpStr =>
      match strDecodeToDomainIdKeyId tmpStr with
      | .error e => .error e
      | .ok .failed => .ok none
      | .ok .skipped => intPairLoop rest out
      | .ok (.pair domain key) => intPairLoop rest (out ++ [(domain, key)])

def getJsonFieldIntPairVec (J : RapidJson) (jsonStr : Bytes) :
    Except StdException (Option (List (Nat × Nat))) :=
  match J.parse jsonStr with
  | some (.array elements) => if elements = [] then .ok none else intPairLoop elements []
  | _ => .ok none

/-! ## What the readers and commands satisfy -/

/-- The domain of a name ends at the first `_`, which no numeral holds. -/
theorem cutAt_keyName (d k : Nat) :
    cutAt [95] ((keyName d k).drop 3) = some (decimal d, ascii "Key" ++ decimal k) :=
  cutAt_append (ascii "Key" ++ decimal k) fun hmem =>
    absurd (isDigit_of_mem_decimal hmem) (by decide)

theorem keyName_injective {d k d' k' : Nat} (h : keyName d k = keyName d' k') :
    d = d' ∧ k = k' := by
  have heq : some (decimal d, ascii "Key" ++ decimal k) =
      some (decimal d', ascii "Key" ++ decimal k') := by
    rw [← cutAt_keyName, ← cutAt_keyName, h]
  obtain ⟨hd, hk⟩ := Prod.mk.inj (Option.some.inj heq)
  exact ⟨decimal_injective hd, decimal_injective (List.append_cancel_left hk)⟩

/-- A name holds no NUL, so a `char *` reader sees all of it. -/
theorem cstr_keyName (d k : Nat) : cstr (keyName d k) = keyName d k := by
  have hnumeral : ∀ n, ∀ b ∈ decimal n, b ≠ 0 := fun n b hb =>
    (isDigit_spec b (isDigit_of_mem_decimal hb)).2
  have hliteral : ∀ b ∈ ascii "CDF" ++ ascii "_Key", b ≠ 0 := by decide +kernel
  refine cstr_of_forall_ne fun b hb => ?_
  simp only [keyName, List.mem_append] at hb hliteral
  rcases hb with hb | hb | hb | hb
  · exact hliteral b (.inl hb)
  · exact hnumeral d b hb
  · exact hliteral b (.inr hb)
  · exact hnumeral k b hb

/-- **A name is decoded to its domain and id**, or not at all where one has more than 32 bits. -/
theorem strDecode_keyName (d k : Nat) : strDecodeToDomainIdKeyId (keyName d k) =
    .ok (if d < 2 ^ 32 ∧ k < 2 ^ 32 then .pair d k else .failed) := by
  unfold strDecodeToDomainIdKeyId
  rw [cutAt_keyName]
  simp only [strToU32_decimal]
  by_cases hd : d < 2 ^ 32
  · have hlen : ¬ (ascii "Key" ++ decimal k).length < 3 := by
      rw [List.length_append, show (ascii "Key").length = 3 from rfl]
      omega
    have hdrop : (ascii "Key" ++ decimal k).drop 3 = decimal k := List.drop_left' rfl
    rw [if_pos hd]
    dsimp only
    rw [if_neg hlen, hdrop, strToU32_decimal]
    by_cases hk : k < 2 ^ 32
    · rw [if_pos hk, if_pos ⟨hd, hk⟩]
    · rw [if_neg hk, if_neg fun h => hk h.2]
  · rw [if_neg hd, if_neg fun h => hd h.1]

/-- **What a listing is decoded to**: every key named in it, and nothing it does not name. -/
theorem intPairLoop_ok {elements : List JsonValue} {pairs : List (Nat × Nat)} :
    ∀ {out : List (Nat × Nat)}, intPairLoop elements out = .ok (some pairs) →
      (∀ pair ∈ out, pair ∈ pairs) ∧
      (∀ d k, .string (keyName d k) ∈ elements → (d, k) ∈ pairs) ∧
      ∀ d k, (d, k) ∈ pairs → (d, k) ∈ out ∨
        ∃ name, .string name ∈ elements ∧ strDecodeToDomainIdKeyId (cstr name) = .ok (.pair d k) := by
  induction elements with
  | nil =>
    intro out h
    obtain rfl := Option.some.inj (Except.ok.inj h)
    exact ⟨fun _ => id, by simp, fun _ _ => .inl⟩
  | cons element elements ih =>
    intro out h
    unfold intPairLoop at h
    cases element with
    | string name =>
      simp only [JsonValue.cstr?] at h
      cases hdecode : strDecodeToDomainIdKeyId (cstr name) with
      | error e => simp [hdecode] at h
      | ok decoded =>
        rw [hdecode] at h
        cases decoded with
        | failed => simp at h
        | skipped =>
          obtain ⟨hout, hnamed, horigin⟩ := ih h
          refine ⟨hout, fun d k hmem => ?_, fun d k hmem => ?_⟩
          · rcases List.mem_cons.mp hmem with heq | hmem
            · -- the name of a key is never skipped
              obtain rfl := JsonValue.string.inj heq
              rw [cstr_keyName, strDecode_keyName] at hdecode
              split at hdecode <;> cases hdecode
            · exact hnamed d k hmem
          · refine (horigin d k hmem).imp id ?_
            intro hboth
            obtain ⟨name', hname', hd⟩ := hboth
            exact ⟨name', List.mem_cons_of_mem _ hname', hd⟩
        | pair d' k' =>
          obtain ⟨hout, hnamed, horigin⟩ := ih h
          refine ⟨fun pair hpair => hout pair (List.mem_append_left _ hpair), fun d k hmem => ?_,
            fun d k hmem => ?_⟩
          · rcases List.mem_cons.mp hmem with heq | hmem
            · obtain rfl := JsonValue.string.inj heq
              rw [cstr_keyName, strDecode_keyName] at hdecode
              split at hdecode
              · obtain ⟨rfl, rfl⟩ := Decoded.pair.inj (Except.ok.inj hdecode)
                exact hout _ (List.mem_append_right _ List.mem_cons_self)
              · cases hdecode
            · exact hnamed d k hmem
          · rcases horigin d k hmem with hmem | ⟨name', hname', hd⟩
            · rcases List.mem_append.mp hmem with hmem | hmem
              · exact .inl hmem
              · obtain ⟨rfl, rfl⟩ := Prod.mk.inj (List.mem_singleton.mp hmem)
                exact .inr ⟨name, List.mem_cons_self, hdecode⟩
            · exact .inr ⟨name', List.mem_cons_of_mem _ hname', hd⟩
    | _ => simp [JsonValue.cstr?] at h

theorem Command.text_ne_nil (exePath : Bytes) (cmd : Command) : cmd.text exePath ≠ [] := by
  have h : ∀ (s : Bytes), s ≠ [] → ∀ pre post : Bytes, pre ++ s ++ post ≠ [] := by
    intro s hs pre post hnil
    simp only [List.append_eq_nil_iff] at hnil
    exact hs hnil.1.2
  cases cmd with
  | list => exact fun hnil => h (ascii " list -format=json transit/keys") (by decide) exePath [] (by
      rw [List.append_nil]; exact hnil)
  | read d k => exact h (ascii " read -format=json transit/keys/") (by decide) _ _
  | create d k => exact h (ascii " write -f transit/keys/") (by decide) _ _
  | config d k flags =>
    intro hnil
    simp only [Command.text, List.append_eq_nil_iff] at hnil
    exact absurd hnil.1.1.1.2 (by decide)
  | delete d k => exact h (ascii " delete transit/keys/") (by decide) _ _
  | exportKey d k =>
    intro hnil
    simp only [Command.text, List.append_eq_nil_iff] at hnil
    exact absurd hnil.1.1.2 (by decide)

section Wp

/-- A command is not run at all without a token; else its reply is classified. -/
theorem wp_runCommandAndGetResult {exePath token : Bytes} {cmd : Command}
    {Q : List KmEvent → Outcome Fault (KeyManagerRC × Bytes) → Prop}
    (hnone : token = [] → Q [] (.ret (.error, [])))
    (hrun : token ≠ [] → ∀ reply,
      Q [⟨.run exePath token cmd, reply⟩] (.ret (commandResult reply))) :
    wp (runCommandAndGetResult exePath token cmd) Q := by
  unfold runCommandAndGetResult
  rw [if_neg (Command.text_ne_nil exePath cmd)]
  by_cases htoken : token = []
  · rw [if_pos htoken]
    exact hnone htoken
  · rw [if_neg htoken]
    exact hrun htoken

/-- Both ways of ending badly look alike to `RunCommandAndCheck`. -/
theorem wp_runCommandAndCheck {exePath token : Bytes} {cmd : Command}
    {Q : List KmEvent → Outcome Fault KeyManagerRC → Prop}
    (hnone : token = [] → Q [] (.ret .error))
    (hok : token ≠ [] → ∀ reply, Succeeded reply →
      Q [⟨.run exePath token cmd, reply⟩] (.ret .ok))
    (hfail : token ≠ [] → ∀ reply, ¬ Succeeded reply →
      Q [⟨.run exePath token cmd, reply⟩] (.ret .error)) :
    wp (runCommandAndCheck exePath token cmd) Q := by
  unfold runCommandAndCheck
  refine wp_bind.mpr (wp_runCommandAndGetResult hnone ?_)
  intro htoken reply
  rw [then_ret, wp_ret]
  by_cases hs : Succeeded reply
  · rw [if_neg (show ¬ (commandResult reply).1 ≠ .ok from not_not.mpr hs)]
    exact hok htoken reply hs
  · rw [if_pos (show (commandResult reply).1 ≠ .ok from hs)]
    exact hfail htoken reply hs

end Wp

/-- The calls that run commands are no calls on the mutex. -/
theorem calls_runCommandAndGetResult {A : Call → Prop} (exePath token : Bytes) (cmd : Command)
    (h : A (.run exePath token cmd)) : Calls A (runCommandAndGetResult exePath token cmd) := by
  unfold runCommandAndGetResult
  split
  · trivial
  split
  · trivial
  · exact ⟨h, fun _ => trivial⟩

theorem calls_runCommandAndCheck {A : Call → Prop} (exePath token : Bytes) (cmd : Command)
    (h : A (.run exePath token cmd)) : Calls A (runCommandAndCheck exePath token cmd) :=
  (calls_runCommandAndGetResult exePath token cmd h).bind fun _ => trivial

end CdfCrypto.KeyManagement
