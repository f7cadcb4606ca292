import CdfCrypto.KeyManagement.Exec

/-!
# When a command counts as done

`RunCommandAndGetResult` should answer `OK` only if the login exited with 0, and the command did
too or failed with the output of an empty listing. The login is always asked. The command's failure
is forgiven by a comparison that runs over the output's own length: an output that is a beginning
of the listing's, the empty one before all, compares equal, and a longer one than the literal is
read against memory behind it.

`CommandFailed` and `commandOutput` are read off the answers of the system calls, and `Judged` is
the condition on them under which the promise is kept.
-/

namespace CdfCrypto.KeyManagement

namespace Exec

open Lib

/-! ## What the children said -/

/-- The answers of `waitpid` in their order: that for the login, then that for the command. -/
def waits (tr : List SysEvent) : List (Option WaitStatus) :=
  tr.flatMap fun ev =>
    match ev with
    | ⟨.waitpid _, status⟩ => [status]
    | _ => []

/-- What was read. -/
def outputOf (tr : List SysEvent) : Bytes :=
  tr.flatMap fun ev =>
    match ev with
    | ⟨.read _, some bytes⟩ => bytes
    | _ => []

/-- The events after the first wait. -/
def afterLogin : List SysEvent → List SysEvent
  | [] => []
  | ⟨.waitpid _, _⟩ :: tr => tr
  | _ :: tr => afterLogin tr

/-- What was read from the command. -/
def commandOutput (tr : List SysEvent) : Bytes := outputOf (afterLogin tr)

def LoginExited (tr : List SysEvent) : Prop := (waits tr)[0]? = some (some (.exited 0))

def CommandExited (tr : List SysEvent) : Prop := (waits tr)[1]? = some (some (.exited 0))

/-- The command was waited for, and it is not known to have exited with 0. -/
def CommandFailed (tr : List SysEvent) : Prop :=
  ∃ status, (waits tr)[1]? = some status ∧ status ≠ some (.exited 0)

/-- `OK` comes of two exits with 0, or of the empty listing; nothing is read past a string. -/
def Vouched (tr : List SysEvent) (o : Outcome SysFault (KeyManagerRC × Bytes)) : Prop :=
  (∀ out, o = .ret (.ok, out) → LoginExited tr ∧
    (CommandExited tr ∨ CommandFailed tr ∧ commandOutput tr = vaultListEmptyCaseRet)) ∧
  o ≠ .halt .overread

/-- Where the command failed, its output is that of an empty listing, or no longer than the literal
and no beginning of it. -/
def Judged (tr : List SysEvent) : Prop :=
  CommandFailed tr → commandOutput tr = vaultListEmptyCaseRet ∨
    (commandOutput tr).length ≤ vaultListEmptyCaseRet.length + 1 ∧
      ¬ commandOutput tr <+: vaultListEmptyCaseRet ++ [0]

/-! ## Along a trace -/

section Traces

variable {tr tr' : List SysEvent}

@[simp] theorem waits_append : waits (tr ++ tr') = waits tr ++ waits tr' := List.flatMap_append

@[simp] theorem waits_closing (pipes : List PipeTy) : waits (closing pipes) = [] := by
  induction pipes with
  | nil => rfl
  | cons p pipes ih => exact ih

@[simp] theorem outputOf_append : outputOf (tr ++ tr') = outputOf tr ++ outputOf tr' :=
  List.flatMap_append

@[simp] theorem outputOf_closing (pipes : List PipeTy) : outputOf (closing pipes) = [] := by
  induction pipes with
  | nil => rfl
  | cons p pipes ih => exact ih

theorem afterLogin_append (h : waits tr = []) : afterLogin (tr ++ tr') = afterLogin tr' := by
  induction tr with
  | nil => rfl
  | cons ev tr ih =>
    obtain ⟨call, answer⟩ := ev
    -- there is no wait in the first part, so every event of it is passed over
    cases call with
    | waitpid pid => cases h
    | pipe => exact ih h
    | fork => exact ih h
    | close fd => exact ih h
    | write fd bytes => exact ih h
    | read fd => exact ih h
    | dup2 old new => exact ih h
    | execv path argv => exact ih h

theorem ReadTrace.waits {fd : Fd} {vec : Bytes} {o : Outcome SysFault (Bool × Bytes)}
    (h : ReadTrace fd vec tr o) : Exec.waits tr = [] := by
  induction h with
  | unfinished => rfl
  | failed => rfl
  | ended => rfl
  | more _ ih => exact ih

/-- The loop returns what it was given and what it read. -/
theorem ReadTrace.output {fd : Fd} {vec out : Bytes} {ended : Bool}
    {o : Outcome SysFault (Bool × Bytes)} (h : ReadTrace fd vec tr o) (ho : o = .ret (ended, out)) :
    out = vec ++ outputOf tr := by
  induction h with
  | unfinished => cases ho
  | failed =>
    cases ho
    exact (List.append_nil _).symm
  | ended =>
    cases ho
    exact (List.append_nil _).symm
  | @more vec bytes tr o _ ih =>
    rw [ih ho, List.append_assoc]
    rfl

/-- Only the rounds stop the loop without a result. -/
theorem ReadTrace.halt {fd : Fd} {vec : Bytes} {x : SysFault}
    {o : Outcome SysFault (Bool × Bytes)} (h : ReadTrace fd vec tr o) (ho : o = .halt x) :
    x = .unfinished := by
  induction h with
  | unfinished =>
    cases ho
    rfl
  | failed => cases ho
  | ended => cases ho
  | more _ ih => exact ih ho

@[simp] theorem waits_fed {pin pout pcmd : PipeTy} {token : Bytes} {pid : Pid} :
    waits (fed pin pout pcmd token pid tr) = waits tr := rfl

@[simp] theorem afterLogin_fed {pin pout pcmd : PipeTy} {token : Bytes} {pid : Pid} :
    afterLogin (fed pin pout pcmd token pid tr) = afterLogin tr := rfl

theorem PipesTrace.waits {pipes : Option (PipeTy × PipeTy × PipeTy)} (h : PipesTrace tr pipes) :
    Exec.waits tr = [] := by
  cases h <;> rfl

end Traces

/-! ## The comparison -/

theorem memcmpEmptyCase_error {out : Bytes} {x : SysFault} (h : memcmpEmptyCase out = .error x) :
    x = .overread ∧ vaultListEmptyCaseRet.length + 1 < out.length := by
  unfold memcmpEmptyCase at h
  by_cases hlong : vaultListEmptyCaseRet.length + 1 < out.length
  · rw [if_pos hlong] at h
    exact ⟨(Except.error.inj h).symm, hlong⟩
  · rw [if_neg hlong] at h
    cases h

theorem memcmpEmptyCase_ok {out : Bytes} {equal : Bool} (h : memcmpEmptyCase out = .ok equal) :
    out.length ≤ vaultListEmptyCaseRet.length + 1 ∧
      (equal = true ↔ out <+: vaultListEmptyCaseRet ++ [0]) := by
  unfold memcmpEmptyCase at h
  by_cases hlong : vaultListEmptyCaseRet.length + 1 < out.length
  · rw [if_pos hlong] at h
    cases h
  · rw [if_neg hlong] at h
    rw [← Except.ok.inj h, List.isPrefixOf_iff_prefix]
    exact ⟨Nat.not_lt.mp hlong, Iff.rfl⟩

/-- What compares equal has no room for an error. -/
theorem hasError_of_compared {out : Bytes} (h : out <+: vaultListEmptyCaseRet ++ [0]) :
    hasError out = false := by
  have hlength : out.length ≤ 4 := h.length_le
  -- five texts are left to look through
  have hbeginning : ∀ k ≤ 4, hasError ((vaultListEmptyCaseRet ++ [0]).take k) = false := by
    decide
  rw [List.prefix_iff_eq_take.mp h]
  exact hbeginning _ hlength

/-! ## The result -/

theorem vouched_of_status {tr : List SysEvent} {out : Bytes} :
    Vouched tr (.ret (commandResult (1, out))) := by
  refine ⟨fun _ hok => ?_, fun hhalt => ?_⟩
  · cases hok
  · cases hhalt

theorem vouched_of_unfinished {tr : List SysEvent} : Vouched tr (.halt .unfinished) := by
  refine ⟨fun _ hok => ?_, fun hhalt => ?_⟩
  · cases hok
  · cases hhalt

/-- A command that was not waited for has not failed. -/
theorem judged_of_waits {tr : List SysEvent} (h : (waits tr)[1]? = none) : Judged tr := by
  intro hfailed
  obtain ⟨status, hstatus, -⟩ := hfailed
  rw [h] at hstatus
  cases hstatus

section Waited

variable {full : List SysEvent} {status : Option WaitStatus}

theorem loginExited_of_waits (h : waits full = [some (.exited 0), status]) : LoginExited full := by
  rw [LoginExited, h]
  rfl

theorem commandExited_of_waits (h : waits full = [some (.exited 0), some (.exited 0)]) :
    CommandExited full := by
  rw [CommandExited, h]
  rfl

theorem commandFailed_iff (h : waits full = [some (.exited 0), status]) :
    CommandFailed full ↔ status ≠ some (.exited 0) := by
  unfold CommandFailed
  rw [h]
  constructor
  · intro hfailed
    obtain ⟨status', hstatus, hne⟩ := hfailed
    obtain rfl := Option.some.inj hstatus
    exact hne
  · exact fun hne => ⟨status, rfl, hne⟩

end Waited

section Command

variable {fd : Fd} {pid : Pid} {reads rest : List SysEvent} {out : Bytes} {ended : Bool}
variable {status : Option WaitStatus}

theorem waits_command (hreads : ReadTrace fd [] reads (.ret (ended, out))) (hrest : waits rest = []) :
    waits (reads ++ (⟨.waitpid pid, status⟩ :: rest)) = [status] := by
  rw [waits_append, hreads.waits, List.nil_append]
  show status :: waits rest = [status]
  rw [hrest]

theorem outputOf_command (hreads : ReadTrace fd [] reads (.ret (ended, out)))
    (hrest : outputOf rest = []) :
    outputOf (reads ++ (⟨.waitpid pid, status⟩ :: rest)) = out := by
  rw [outputOf_append, ← List.nil_append (outputOf reads), ← hreads.output rfl]
  show out ++ outputOf rest = out
  rw [hrest, List.append_nil]

end Command

/-- The command failed, and its output was compared. -/
theorem vouched_compared {full : List SysEvent} {status : Option WaitStatus} {out : Bytes}
    {equal : Bool} (hwaits : waits full = [some (.exited 0), status])
    (houtput : commandOutput full = out) (hstatus : status ≠ some (.exited 0))
    (hlength : out.length ≤ vaultListEmptyCaseRet.length + 1)
    (hequal : equal = true ↔ out <+: vaultListEmptyCaseRet ++ [0]) :
    Vouched full (.ret (commandResult (cond equal 0 1, out))) ↔ Judged full := by
  have hfailed : CommandFailed full := (commandFailed_iff hwaits).mpr hstatus
  unfold Judged
  rw [houtput, ← hequal]
  cases equal with
  | false => exact iff_of_true vouched_of_status fun _ => .inr ⟨hlength, Bool.false_ne_true⟩
  | true =>
    -- the output is a beginning of the literal, so the answer is `OK`
    have hok : commandResult (0, out) = (.ok, out) := by
      simp [commandResult, hasError_of_compared (hequal.mp rfl)]
    have hexited : ¬ CommandExited full := by
      intro hexited
      rw [CommandExited, hwaits] at hexited
      exact hstatus (Option.some.inj hexited)
    constructor
    · -- `OK` is vouched for by the empty listing alone
      intro hvouched _
      obtain ⟨-, hzero | ⟨-, hempty⟩⟩ := hvouched.1 out (congrArg _ hok)
      · exact absurd hzero hexited
      · exact .inl (houtput.symm.trans hempty)
    · intro hjudged
      obtain hempty | hother := hjudged hfailed
      · refine ⟨fun _ _ => ⟨loginExited_of_waits hwaits, .inr ⟨hfailed, ?_⟩⟩, fun hhalt => ?_⟩
        · exact houtput.trans hempty
        · cases hhalt
      · exact absurd rfl hother.2

/-- After the login, by what the command did. -/
theorem CommandTrace.vouched_iff {pin pout pcmd : PipeTy} {full tr : List SysEvent}
    {o : Outcome SysFault (Int × Bytes)} (h : CommandTrace pin pout pcmd tr o)
    (hwaits : waits full = some (.exited 0) :: waits tr)
    (houtput : commandOutput full = outputOf tr) :
    Vouched full (o.map commandResult) ↔ Judged full := by
  cases h with
  | unstarted => exact iff_of_true vouched_of_status (judged_of_waits (by rw [hwaits]; rfl))
  | @unfinished pid reads x hreads =>
    obtain rfl := hreads.halt rfl
    have hwait : waits (⟨.fork, some pid⟩ :: ⟨.close pcmd.2, ()⟩ :: reads) = [] := hreads.waits
    exact iff_of_true vouched_of_unfinished (judged_of_waits (by rw [hwaits, hwait]; rfl))
  | @unread pid reads out hreads =>
    have hwait : waits (⟨.fork, some pid⟩ :: ⟨.close pcmd.2, ()⟩ ::
        (reads ++ closing [pin, pout, pcmd])) = [] := by
      show waits (reads ++ closing [pin, pout, pcmd]) = []
      rw [waits_append, hreads.waits, waits_closing, List.nil_append]
    exact iff_of_true vouched_of_status (judged_of_waits (by rw [hwaits, hwait]; rfl))
  | exited hreads =>
    -- both statuses are known, and the condition asks nothing
    replace hwaits : waits full = [some (.exited 0), some (.exited 0)] :=
      hwaits.trans (congrArg _ (waits_command hreads (waits_closing _)))
    refine iff_of_true ⟨fun _ _ => ?_, fun hhalt => ?_⟩ fun hfailed => ?_
    · exact ⟨loginExited_of_waits hwaits, .inl (commandExited_of_waits hwaits)⟩
    · cases hhalt
    · exact absurd rfl ((commandFailed_iff hwaits).mp hfailed)
  | overread hreads hstatus hcmp =>
    obtain ⟨rfl, hlong⟩ := memcmpEmptyCase_error hcmp
    replace hwaits := hwaits.trans (congrArg _ (waits_command hreads rfl))
    replace houtput := houtput.trans (outputOf_command hreads (outputOf_closing []))
    rw [← houtput] at hlong
    -- the condition allows no output of that length
    refine iff_of_false (fun hvouched => hvouched.2 rfl) fun hjudged => ?_
    obtain hempty | hshort := hjudged ((commandFailed_iff hwaits).mpr hstatus)
    · rw [hempty] at hlong
      omega
    · omega
  | compared hreads hstatus hcmp =>
    obtain ⟨hlength, hequal⟩ := memcmpEmptyCase_ok hcmp
    replace hwaits := hwaits.trans (congrArg _ (waits_command hreads (waits_closing _)))
    replace houtput := houtput.trans (outputOf_command hreads (outputOf_closing _))
    exact vouched_compared hwaits houtput hstatus hlength hequal

theorem ExecTrace.vouched_iff {token : Bytes} {tr : List SysEvent}
    {o : Outcome SysFault (Int × Bytes)} (h : ExecTrace token tr o) :
    Vouched tr (o.map commandResult) ↔ Judged tr := by
  cases h with
  | noPipes hpipes =>
    exact iff_of_true vouched_of_status (judged_of_waits (by rw [hpipes.waits]; rfl))
  | unstarted => exact iff_of_true vouched_of_status (judged_of_waits rfl)
  | unfed => exact iff_of_true vouched_of_status (judged_of_waits rfl)
  | unfinished hreads =>
    obtain rfl := hreads.halt rfl
    exact iff_of_true vouched_of_unfinished
      (judged_of_waits (by rw [waits_fed, hreads.waits]; rfl))
  | unread hreads =>
    refine iff_of_true vouched_of_status (judged_of_waits ?_)
    rw [waits_fed, waits_append, hreads.waits]
    rfl
  | failed hreads hstatus =>
    refine iff_of_true vouched_of_status (judged_of_waits ?_)
    rw [waits_fed, waits_append, hreads.waits]
    rfl
  | loggedIn hreads hcommand =>
    -- the login's wait is the first, and what comes after it is the command's
    refine hcommand.vouched_iff ?_ ?_
    · rw [waits_fed, waits_append, hreads.waits]
      rfl
    · rw [commandOutput, afterLogin_fed, afterLogin_append hreads.waits]
      rfl

/-- The key manager's view: what comes back of the system calls is the answer of one `run`. -/
theorem runCommandAndGetResult_refines (rounds : Nat) (exePath accessToken : Bytes) (cmd : Command) :
    wp (runCommandAndGetResult rounds accessToken (cmd.text exePath)) fun _ o =>
      ∀ x, o = .ret x →
        ∃ es, Traces (KeyManagement.runCommandAndGetResult exePath accessToken cmd) es (.ret x) := by
  unfold runCommandAndGetResult KeyManagement.runCommandAndGetResult
  rw [if_neg (Command.text_ne_nil exePath cmd), if_neg (Command.text_ne_nil exePath cmd)]
  by_cases htoken : accessToken = []
  · rw [if_pos htoken, if_pos htoken]
    intro x hx
    obtain rfl := Outcome.ret.inj hx
    exact ⟨[], .ret _⟩
  · rw [if_neg htoken, if_neg htoken]
    refine (wp_bind_ret fun _ => rfl).mpr (wp_iff.mpr fun _ o _ x hx => ?_)
    cases o with
    | halt _ => cases hx
    | ret reply =>
      -- the reply of the one call is what the system calls came to
      obtain rfl := Outcome.ret.inj hx
      exact ⟨[⟨.run exePath accessToken cmd, reply⟩], .call (.ret _)⟩

/-- **When the result is to be trusted**: for every outcome of the system calls, `OK` is vouched
for and no string is overrun exactly where a failing command's output is the empty listing, or
short and no beginning of it. -/
theorem runCommandAndGetResult_vouched (rounds : Nat) (accessToken cmdArgs : Bytes) :
    wp (runCommandAndGetResult rounds accessToken cmdArgs) fun tr o => Vouched tr o ↔ Judged tr := by
  unfold runCommandAndGetResult
  have hrefused : Vouched [] (.ret (.error, [])) ↔ Judged [] :=
    iff_of_true (@vouched_of_status [] []) (judged_of_waits rfl)
  split
  · exact hrefused
  split
  · exact hrefused
  · refine (wp_bind_ret fun _ => rfl).mpr ?_
    exact wp_mono (execOpenbaoCmd_traces rounds accessToken) fun _ _ htrace => htrace.vouched_iff

/-- A command that a signal ends before it has written anything. -/
def killedTrace : List SysEvent :=
  [⟨.pipe, some (3, 4)⟩, ⟨.pipe, some (5, 6)⟩, ⟨.pipe, some (7, 8)⟩, ⟨.fork, some 100⟩,
    ⟨.write 4 (ascii "token"), (5 : Int)⟩, ⟨.close 3, ()⟩, ⟨.close 4, ()⟩, ⟨.close 6, ()⟩,
    ⟨.read 5, some []⟩, ⟨.waitpid 100, some (.exited 0)⟩, ⟨.fork, some 101⟩, ⟨.close 8, ()⟩,
    ⟨.read 7, some []⟩, ⟨.waitpid 101, some (.signaled 9)⟩, ⟨.close 3, ()⟩, ⟨.close 4, ()⟩,
    ⟨.close 5, ()⟩, ⟨.close 6, ()⟩, ⟨.close 7, ()⟩, ⟨.close 8, ()⟩]

/-- It counts as done. -/
theorem killed_command_succeeds :
    Traces (runCommandAndGetResult 1 (ascii "token") (ascii "bao list")) killedTrace
      (.ret (.ok, [])) ∧ ¬ Vouched killedTrace (.ret (.ok, [])) := by
  refine ⟨?_, fun hvouched => ?_⟩
  · iterate 20 refine .call ?_
    exact .ret _
  · obtain ⟨-, hexited | ⟨-, hempty⟩⟩ := hvouched.1 [] rfl
    · revert hexited
      unfold CommandExited
      decide
    · revert hempty
      decide

end Exec

end CdfCrypto.KeyManagement
