import CdfCrypto.Cli.ExitCode
import CdfCrypto.Cli.Terminal

/-!
# What is printed

A process prints a ciphertext at the end of `--encrypt` and of `--reEncrypt`. It is what the manager
has answered to an `Encrypt`: of the first line that was typed, or of what the manager has answered
to a `Decrypt` of that line (`printed_of_main`). No other command prints one.

The only command that removes a key is `--removekey`, and it removes the one that its parameters
name (`calls_main`).
-/

namespace CdfCrypto.Cli

open Lib
open KeyManagement (Borrowed EndsLine cryptorAnswer parseKeyManagerRC)

variable {config : CliConfig} {cmdParams : List Bytes} {α β : Type}

/-! ## Evidence -/

/-- The manager has sealed the text, and this is what it has returned. -/
def Sealed (config : CliConfig) (p c : Bytes) (tr : List CliEvent) : Prop :=
  ∃ km d, (⟨.encrypt km (configParseCryptoAlg config) d p, (KeyManagerRC.ok, c)⟩ : CliEvent) ∈ tr

/-- The manager has opened the text. -/
def Opened (config : CliConfig) (c p : Bytes) (tr : List CliEvent) : Prop :=
  ∃ km d, (⟨.decrypt km (configParseCryptoAlg config) d c, (KeyManagerRC.ok, p)⟩ : CliEvent) ∈ tr

/-- How a command has come from the text that was typed to the one that it prints. -/
def Command.Turns (config : CliConfig) (text c : Bytes) (tr : List CliEvent) : Command → Prop
  | .encrypt => Sealed config text c tr
  | .reEncrypt => ∃ p, Opened config text p tr ∧ Sealed config p c tr
  | _ => False

theorem Sealed.append {p c : Bytes} {tr : List CliEvent} (h : Sealed config p c tr)
    (pre : List CliEvent) : Sealed config p c (pre ++ tr) := by
  obtain ⟨km, d, hmem⟩ := h
  exact ⟨km, d, List.mem_append_right pre hmem⟩

theorem Command.Turns.append {cmd : Command} {text c : Bytes} {tr : List CliEvent}
    (h : cmd.Turns config text c tr) (pre : List CliEvent) :
    cmd.Turns config text c (pre ++ tr) := by
  cases cmd with
  | encrypt => exact Sealed.append h pre
  | reEncrypt =>
    obtain ⟨p, ⟨km, d, hmem⟩, hsealed⟩ := h
    exact ⟨p, ⟨km, d, List.mem_append_right pre hmem⟩, hsealed.append pre⟩
  | createkey => exact h
  | displaykey => exact h
  | removekey => exact h

/-- `P` holds of the value that is come to, and of the trace up to there. -/
def Shows (P : α → List CliEvent → Prop) (tr : List CliEvent) (o : Outcome CliFault α) : Prop :=
  ∀ a, o = .ret a → P a tr

theorem shows_ret {P : α → List CliEvent → Prop} {a : α} (h : P a []) :
    wp (.ret a : CliProg α) (Shows P) := by
  intro b heq
  obtain rfl := Outcome.ret.inj heq
  exact h

/-- What comes before does not matter. -/
theorem shows_bind {p : CliProg α} {f : α → CliProg β} {P : β → List CliEvent → Prop}
    (hP : ∀ b pre tr, P b tr → P b (pre ++ tr)) (hf : ∀ a, wp (f a) (Shows P)) :
    wp (p >>= f) (Shows P) := by
  refine wp_bind_any (fun pre a => wp_mono (hf a) fun tr o h b heq => ?_) fun tr x b heq => ?_
  · exact hP b pre tr (h b heq)
  · cases heq

/-! ## The manager -/

theorem cryptorAnswer_eq_ok {result : KeyManagerRC × Bytes} {vec : Bytes}
    (h : cryptorAnswer result = (.ok, vec)) : result = (KeyManagerRC.ok, vec) := by
  obtain ⟨hrc, hvec⟩ := Prod.mk.inj h
  have hok := (parseKeyManagerRC_eq_ok result.1).mp hrc
  rw [if_pos hok] at hvec
  exact Prod.ext hok hvec

theorem cryptorEncrypt_shows (km : Borrowed) (p : Bytes) (d : Nat) :
    wp (cryptorEncrypt km (configParseCryptoAlg config) p d)
      (Shows fun ret tr => ∀ c, ret = (.ok, c) → Sealed config p c tr) := by
  refine shows_bind (fun ret pre tr h c heq => (h c heq).append pre) fun known => ?_
  split
  · intro result
    refine fun ret heq c hret => ⟨km, d, ?_⟩
    obtain rfl := Outcome.ret.inj heq
    obtain rfl := cryptorAnswer_eq_ok hret
    exact List.mem_cons_self
  · exact shows_ret fun c heq => by cases heq

theorem cryptorDecrypt_shows (km : Borrowed) (c : Bytes) (d : Nat) :
    wp (cryptorDecrypt km (configParseCryptoAlg config) c d)
      (Shows fun ret tr => ∀ p, ret = (.ok, p) → Opened config c p tr) := by
  refine shows_bind (fun ret pre tr h p heq => ?_) fun known => ?_
  · obtain ⟨km, d, hmem⟩ := h p heq
    exact ⟨km, d, List.mem_append_right pre hmem⟩
  split
  · intro result
    refine fun ret heq p hret => ⟨km, d, ?_⟩
    obtain rfl := Outcome.ret.inj heq
    obtain rfl := cryptorAnswer_eq_ok hret
    exact List.mem_cons_self
  · exact shows_ret fun p heq => by cases heq

/-- The text of a value, where the code before it is OK. -/
def OkText (cmd : Command) (config : CliConfig) (text : Bytes) (ret : CryptionToolRc × Bytes)
    (tr : List CliEvent) : Prop := ret.1 = .ok → cmd.Turns config text ret.2 tr

theorem okText_append {cmd : Command} {text : Bytes} (ret : CryptionToolRc × Bytes)
    (pre tr : List CliEvent) (h : OkText cmd config text ret tr) :
    OkText cmd config text ret (pre ++ tr) := fun hok => (h hok).append pre

theorem withKm_shows {cmd : Command} {text : Bytes} {n : Nat}
    {body : Borrowed → CliProg (CryptionToolRc × Bytes)}
    (hbody : ∀ km, wp (body km) (Shows (OkText cmd config text))) :
    wp (withKm config n (.internalError, []) body) (Shows (OkText cmd config text)) := by
  refine shows_bind okText_append fun inited => ?_
  split
  · exact shows_bind okText_append hbody
  · exact shows_ret fun h => by cases h

/-- **What is encrypted** is the text. -/
theorem encrypt_shows (d n : Nat) (text : Bytes) :
    wp (encrypt config d n text) (Shows (OkText .encrypt config (cstr text))) := by
  refine withKm_shows fun km => ?_
  refine shows_bind okText_append fun tmpRc => ?_
  split
  next hrc => exact shows_ret fun hok => absurd hok hrc
  refine wp_bind_of (cryptorEncrypt_shows km (cstr text) d) (fun tr result hsealed => ?_)
    fun tr x _ ret heq => by cases heq
  intro r
  show wp (if result.1 ≠ .ok then _ else _) _
  split
  · exact fun ret heq hok => by
      obtain rfl := Outcome.ret.inj heq
      cases hok
  next hok =>
    intro ret heq _
    obtain rfl := Outcome.ret.inj heq
    obtain ⟨km, d, hmem⟩ := hsealed result rfl result.2 (Prod.ext (not_not.mp hok) rfl)
    exact ⟨km, d, List.mem_append_left _ hmem⟩

/-- **What is encrypted again** is what the text was opened to. -/
theorem reEncrypt_shows (d n : Nat) (text : Bytes) :
    wp (reEncrypt config d n text) (Shows (OkText .reEncrypt config (cstr text))) := by
  have hfailed : ∀ km, wp (.perform (CliCall.unInit km) >>= fun _ =>
      (.ret (.encryptError, []) : CliProg (CryptionToolRc × Bytes)))
      (Shows (OkText .reEncrypt config (cstr text))) := fun km =>
    shows_bind okText_append fun _ => shows_ret fun hok => by cases hok
  refine withKm_shows fun km => ?_
  refine shows_bind okText_append fun tmpRc => ?_
  split
  next hrc => exact shows_ret fun hok => absurd hok hrc
  refine wp_bind_of (cryptorDecrypt_shows km (cstr text) d) (fun tr opened hopened => ?_)
    fun tr x _ ret heq => by cases heq
  split
  · exact wp_mono (hfailed km) fun tr' o h ret heq => okText_append ret tr tr' (h ret heq)
  next hok =>
  have hopened := hopened opened rfl opened.2 (Prod.ext (not_not.mp hok) rfl)
  refine wp_bind_of (cryptorEncrypt_shows km opened.2 d) (fun tr' result hsealed => ?_)
    fun tr' x _ ret heq => by cases heq
  split
  · refine wp_mono (hfailed km) fun tr'' o h ret heq => ?_
    exact okText_append ret tr _ (okText_append ret tr' tr'' (h ret heq))
  next hok' =>
  intro r ret heq _
  obtain rfl := Outcome.ret.inj heq
  obtain ⟨km₁, d₁, hmem₁⟩ := hopened
  obtain ⟨km₂, d₂, hmem₂⟩ := hsealed result rfl result.2 (Prod.ext (not_not.mp hok') rfl)
  refine ⟨opened.2, ⟨km₁, d₁, List.mem_append_left _ hmem₁⟩, km₂, d₂, ?_⟩
  exact List.mem_append_right _ (List.mem_append_left _ hmem₂)

/-! ## The process -/

/-- The room for the text of a command. -/
def Command.room : Command → Nat
  | .encrypt => maxKeyLength
  | .reEncrypt => maxCipherLength
  | _ => 0

/-- `c` was made of `text`, which was the first line. -/
structure Came (cmd : Command) (config : CliConfig) (text c : Bytes) (tr : List CliEvent) : Prop where
  fits : Fits text cmd.room
  typed : ∃ stop rest, EndsLine stop ∧ keystrokes tr = text ++ stop :: rest
  turns : cmd.Turns config text c tr

/-- What is printed has come from somewhere. -/
def OnlyMade (cmd : Command) (config : CliConfig) (printed : Option Bytes) (tr : List CliEvent) : Prop :=
  ∀ c, printed = some c → ∃ text, Came cmd config text c tr

theorem onlyMade_none {cmd : Command} {tr : List CliEvent} : OnlyMade cmd config none tr :=
  fun _ heq => by cases heq

theorem contentCmd_shows {cmd : Command}
    {op : Nat → Nat → Bytes → CliProg (CryptionToolRc × Bytes)}
    {failed : CryptionToolRc → CryptionToolRc}
    (hop : ∀ d n text, wp (op d n text) (Shows (OkText cmd config (cstr text)))) :
    wp (contentCmd cmd.room op failed cmdParams) (Shows fun ret tr => OnlyMade cmd config ret.2 tr) := by
  unfold contentCmd
  split
  · exact shows_ret onlyMade_none
  split
  · exact shows_ret onlyMade_none
  next d n hd =>
  refine wp_bind_of (readEncryptContent_keys cmd.room) (fun tr content hkeys => ?_)
    fun tr x _ ret heq => by cases heq
  cases content with
  | none =>
    refine fun ret heq => ?_
    obtain rfl := Outcome.ret.inj heq
    exact onlyMade_none
  | some text =>
    obtain ⟨hfits, stop, stop', hstop, -, htyped⟩ := hkeys text rfl
    refine wp_bind_of (hop d n text) (fun tr' ret hturns => ?_) fun tr x _ ret heq => by cases heq
    intro printed heq c hc
    obtain rfl := Outcome.ret.inj heq
    by_cases hok : ret.1 = .ok
    · rw [if_neg (not_not.mpr hok)] at hc
      obtain rfl := Option.some.inj hc
      have hturns := (hturns ret rfl hok).append tr
      rw [cstr_line hfits.line] at hturns
      rw [List.append_nil]
      refine ⟨text, hfits, ⟨stop, text ++ stop' :: keystrokes tr', hstop, ?_⟩, hturns⟩
      rw [keystrokes_append, htyped]
      simp
    · rw [if_pos hok] at hc
      cases hc

theorem handleOut_shows (cmd : Command) (cmdParams : List Bytes) (config : CliConfig) :
    wp (cmd.handleOut cmdParams config) (Shows fun ret tr => OnlyMade cmd config ret.2 tr) := by
  -- the commands for keys print no ciphertext
  have hnone : ∀ p : CliProg CryptionToolRc, wp (p >>= fun rc => .ret (rc, none))
      (Shows fun ret tr => OnlyMade cmd config ret.2 tr) := by
    refine fun p => wp_bind_any (fun tr rc ret heq => ?_) fun tr x ret heq => by cases heq
    obtain rfl := Outcome.ret.inj heq
    exact onlyMade_none
  cases cmd with
  | encrypt =>
    show wp (contentCmd (Command.room .encrypt) _ (fun _ => .paramInvalid) cmdParams) _
    exact contentCmd_shows encrypt_shows
  | reEncrypt =>
    show wp (contentCmd (Command.room .reEncrypt) _ (fun rc => rc) cmdParams) _
    exact contentCmd_shows reEncrypt_shows
  | createkey => exact hnone _
  | displaykey => exact hnone _
  | removekey => exact hnone _

/-- **What is printed.** -/
theorem printed_of_main {host : ToolHost} {args : List Bytes} {tr : List CliEvent} {code : Nat}
    {c : Bytes} (htr : Traces (cryptionToolMain host args) tr (.ret (code, some c))) :
    ∃ cmd cmdParams config text, Runs host args cmd cmdParams config ∧
      Came cmd config text c tr := by
  rcases cryptionToolMain_eq host args with ⟨cmd, cmdParams, config, hruns, heq⟩ |
    ⟨-, ⟨code', -, -, heq⟩ | heq⟩
  · rw [heq] at htr
    have hshows : wp (cmd.handleOut cmdParams config >>= fun ret =>
        (.ret (if ret.1 ≠ .ok then (2, ret.2) else (0, ret.2)) : CliProg (Nat × Option Bytes)))
        (Shows fun ret tr => OnlyMade cmd config ret.2 tr) := by
      refine wp_bind_of (handleOut_shows cmd cmdParams config) (fun tr ret hret => ?_)
        fun tr x _ ret heq => by cases heq
      intro ret' heq
      obtain rfl := Outcome.ret.inj heq
      rw [List.append_nil]
      have hprinted := hret ret rfl
      split
      · exact hprinted
      · exact hprinted
    obtain ⟨text, hcame⟩ := wp_iff.mp hshows _ _ htr _ rfl c rfl
    exact ⟨cmd, cmdParams, config, text, hruns, hcame⟩
  · rw [heq] at htr
    cases htr
  · rw [heq] at htr
    cases htr

/-! ## Keys that are removed -/

/-- The process is a `--removekey` of the key. -/
def Removes (host : ToolHost) (args : List Bytes) (d k : Nat) : Prop :=
  ∃ cmdParams config n, Runs host args .removekey cmdParams config ∧
    parseDomainIdAndDomainCount cmdParams = some (d, n) ∧
    strToU32 (cmdParams.getD domainRemoveKeyIndex []) = some k

/-- The call removes a key. -/
def CliCall.Removal : CliCall → Prop
  | removeKey _ _ _ => True
  | _ => False

section Calls

variable {A : CliCall → Prop} (hplain : ∀ c, ¬ c.Removal → A c)

include hplain

theorem calls_typed {p : CliProg α} (h : Total (· = CliCall.cinGet) p fun _ => True) : Calls A p := by
  refine Total.calls h fun c hc => hplain c ?_
  subst hc
  exact id

theorem calls_withKm {n : Nat} {failed : α} {body : Borrowed → CliProg α}
    (hbody : ∀ km, Calls A (body km)) : Calls A (withKm config n failed body) := by
  have hinit : Calls A (initKm config (getKm config) n) := by
    cases getKm config with
    | none => trivial
    | some km =>
      refine (calls_typed hplain (lineFromInput_total 128)).bind fun token => ?_
      split
      · trivial
      · exact ⟨hplain _ id, fun _ => trivial⟩
  refine hinit.bind fun inited => ?_
  split
  · cases getKm config with
    | none => trivial
    | some km => exact hbody km
  · trivial

theorem calls_switchType (km : Borrowed) : Calls A (switchType km) := by
  refine ⟨hplain _ id, fun type => ?_⟩
  cases type with
  | unknown => trivial
  | openbao => cases km <;> trivial
  | vault => cases km <;> trivial

theorem calls_cryptorEncrypt (km : Borrowed) (alg : CryptoSymAlg) (p : Bytes) (d : Nat) :
    Calls A (cryptorEncrypt km alg p d) := by
  refine (calls_switchType hplain km).bind fun known => ?_
  split
  · exact ⟨hplain _ id, fun _ => trivial⟩
  · trivial

theorem calls_unInit {km : Borrowed} {a : α} :
    Calls A (.perform (CliCall.unInit km) >>= fun _ => (.ret a : CliProg α)) :=
  ⟨hplain _ id, fun _ => trivial⟩

theorem calls_encrypt (d n : Nat) (text : Bytes) : Calls A (encrypt config d n text) := by
  refine calls_withKm hplain fun km => ?_
  have hprepare : Calls A (prepareKmDomainKey km d) := by
    refine (calls_switchType hplain km).bind fun known => ?_
    split
    · refine ⟨hplain _ id, fun latest => ?_⟩
      show Calls _ (if latest = [] then _ else _)
      split
      · exact ⟨hplain _ id, fun _ => trivial⟩
      · trivial
    · trivial
  refine hprepare.bind fun tmpRc => ?_
  split
  · trivial
  refine (calls_cryptorEncrypt hplain km _ _ _).bind fun result => ⟨hplain _ id, fun _ => ?_⟩
  show Calls _ (if result.1 ≠ .ok then _ else _)
  split <;> trivial

theorem calls_reEncrypt (d n : Nat) (text : Bytes) : Calls A (reEncrypt config d n text) := by
  refine calls_withKm hplain fun km => ?_
  have hcheck : Calls A (checkDomainKey km d) := by
    refine (calls_switchType hplain km).bind fun known => ?_
    split
    · refine ⟨hplain _ id, fun latest => ?_⟩
      show Calls _ (if latest = [] then _ else _)
      split <;> trivial
    · trivial
  have hdecrypt : Calls A (cryptorDecrypt km (configParseCryptoAlg config) (cstr text) d) := by
    refine (calls_switchType hplain km).bind fun known => ?_
    split
    · exact ⟨hplain _ id, fun _ => trivial⟩
    · trivial
  refine hcheck.bind fun tmpRc => ?_
  split
  · trivial
  refine hdecrypt.bind fun opened => ?_
  split
  · exact calls_unInit hplain
  refine (calls_cryptorEncrypt hplain km _ _ _).bind fun result => ?_
  split
  · exact calls_unInit hplain
  · exact calls_unInit hplain

theorem calls_contentCmd {size : Nat} {op : Nat → Nat → Bytes → CliProg (CryptionToolRc × Bytes)}
    {failed : CryptionToolRc → CryptionToolRc} (hop : ∀ d n text, Calls A (op d n text)) :
    Calls A (contentCmd size op failed cmdParams) := by
  unfold contentCmd
  split
  · trivial
  split
  · trivial
  refine (calls_typed hplain (readEncryptContent_total size)).bind fun content => ?_
  cases content with
  | none => trivial
  | some content => exact (hop _ _ content).bind fun ret => trivial

theorem calls_keyOperation {n : Nat} {operation : Borrowed → CliCall}
    {rc : ∀ km, (operation km).Reply → KeyManagerRC} (hop : ∀ km, A (operation km)) :
    Calls A (keyOperation config n operation rc) := by
  refine calls_withKm hplain fun km => ⟨hop km, fun result => ⟨hplain _ id, fun _ => ?_⟩⟩
  show Calls _ (if _ then _ else _)
  split <;> trivial

theorem calls_handleOut (cmd : Command) (hremove : ∀ km d n k, cmd = .removekey →
    parseDomainIdAndDomainCount cmdParams = some (d, n) →
      strToU32 (cmdParams.getD domainRemoveKeyIndex []) = some k → A (.removeKey km d k)) :
    Calls A (cmd.handleOut cmdParams config) := by
  have hkeys : ∀ {paramCount : Nat} {body : Nat → Nat → CliProg CryptionToolRc},
      (∀ d n, parseDomainIdAndDomainCount cmdParams = some (d, n) → Calls A (body d n)) →
        Calls A (withDomain paramCount cmdParams body >>= fun rc => .ret (rc, (none : Option Bytes))) := by
    intro paramCount body hbody
    refine Calls.bind ?_ fun _ => trivial
    unfold withDomain
    split
    · trivial
    split
    · trivial
    next d n hd => exact hbody d n hd
  cases cmd with
  | encrypt =>
    show Calls A (contentCmd _ _ (fun _ => .paramInvalid) cmdParams)
    exact calls_contentCmd hplain (calls_encrypt hplain)
  | reEncrypt =>
    show Calls A (contentCmd _ _ (fun rc => rc) cmdParams)
    exact calls_contentCmd hplain (calls_reEncrypt hplain)
  | createkey => exact hkeys fun d n _ => calls_keyOperation hplain fun km => hplain _ id
  | displaykey => exact hkeys fun d n _ => calls_keyOperation hplain fun km => hplain _ id
  | removekey =>
    refine hkeys fun d n hd => ?_
    split
    · trivial
    next k hk => exact calls_keyOperation hplain fun km => hremove km d n k rfl hd hk

/-- **What is removed.** -/
theorem calls_main {host : ToolHost} {args : List Bytes}
    (hremove : ∀ km d k, Removes host args d k → A (.removeKey km d k)) :
    Calls A (cryptionToolMain host args) := by
  rcases cryptionToolMain_eq host args with ⟨cmd, cmdParams, config, hruns, heq⟩ |
    ⟨-, ⟨code, -, -, heq⟩ | heq⟩
  · rw [heq]
    refine (calls_handleOut hplain cmd fun km d n k hcmd hd hk => ?_).bind fun _ => trivial
    subst hcmd
    exact hremove km d k ⟨cmdParams, config, n, hruns, hd, hk⟩
  · rw [heq]
    trivial
  · rw [heq]
    trivial

end Calls

end CdfCrypto.Cli
