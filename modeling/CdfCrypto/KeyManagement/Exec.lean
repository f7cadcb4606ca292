import CdfCrypto.KeyManagement.OpenbaoUtils

/-!
# Running a command

`ExecOpenbaoCmd` runs the command line tool twice: once to log in, with the token on its standard
input, and once for the command. It makes three pipes, forks, reads what the child writes, and
waits for it. `Sys` is a program over the system calls that this takes, so each answer of each call
is an execution of its own. It holds `g_mtx` from its first line to its last.

- A call that fails answers `none`; `read` answers the bytes, none at the end of the file.
- `PipeTy` is zero-initialised, and `pipe` leaves it so where it fails: `unopened`.
- The loop of `ReadFromPipe` ends when `read` says so. Its model is given a number of rounds, and
  stops at `unfinished` when they are used up; a result says something of an execution that comes
  back, for any number of them.
- `memcmp` is given the length of the output. The literal it compares with has four bytes, its
  terminator included; a longer output is read against what lies behind it (`overread`).
- `execv` answers whether the image was replaced; only the children call it.
-/

namespace CdfCrypto.KeyManagement

namespace Exec

open Lib

/-! ## System calls -/

abbrev Fd := Nat

abbrev Pid := Nat

/-- What `waitpid` stores: `WIFEXITED` with its status, `WIFSIGNALED`, or neither. -/
inductive WaitStatus
  | exited (status : Nat)
  | signaled (signal : Nat)
  | other
  deriving DecidableEq, Repr

/-- A system call. -/
inductive SysCall
  | pipe
  | fork
  | close (fd : Fd)
  | write (fd : Fd) (bytes : Bytes)
  | read (fd : Fd)
  | waitpid (pid : Pid)
  | dup2 (old new : Fd)
  | execv (path : Bytes) (argv : List Bytes)

/-- `PipeTy`: the end to read from and the end to write to. -/
abbrev PipeTy := Fd × Fd

/-- The answers; that of `fork` is the parent's. -/
abbrev SysCall.Reply : SysCall → Type
  | pipe => Option PipeTy
  | fork => Option Pid
  | close _ => Unit
  | write _ _ => Int
  | read _ => Option Bytes
  | waitpid _ => Option WaitStatus
  | dup2 _ _ => Bool
  | execv _ _ => Bool

/-- A comparison past the end of the literal, or a read that has not ended. -/
inductive SysFault
  | overread
  | unfinished
  deriving DecidableEq, Repr

abbrev Sys (α : Type) := Prog SysCall SysCall.Reply SysFault α

abbrev SysEvent := Event SysCall SysCall.Reply

/-! ## The parent -/

/-- `VAULT_LIST_EMPTY_CASE_RET` -/
def vaultListEmptyCaseRet : Bytes := ascii "{}\n"

/-- A pipe that was not made. -/
def unopened : PipeTy := (0, 0)

def closePipes : List PipeTy → Sys Unit
  | [] => .ret ()
  | p :: pipes => do
    .perform (SysCall.close p.1)
    .perform (SysCall.close p.2)
    closePipes pipes

/-- `CreatePipes`, with the pipes for the login's input, its output, and the command's output. -/
def createPipes : Sys (Option (PipeTy × PipeTy × PipeTy)) := do
  let p₁ ← .perform SysCall.pipe
  match p₁ with
  | none => do
    -- descriptor 0, six times
    closePipes [unopened, unopened, unopened]
    .ret none
  | some p₁ => do
    let p₂ ← .perform SysCall.pipe
    match p₂ with
    | none => do
      closePipes [p₁, unopened, unopened]
      .ret none
    | some p₂ => do
      let p₃ ← .perform SysCall.pipe
      match p₃ with
      | none => do
        closePipes [p₁, p₂, unopened]
        .ret none
      | some p₃ => .ret (some (p₁, p₂, p₃))

/-- `ForkAndRunLogin` in the parent. -/
def forkAndRunLogin (pipefdIn pipefdOut : PipeTy) : Sys (Option Pid) := do
  let pid ← .perform SysCall.fork
  match pid with
  | none => do
    -- the caller closes them again
    closePipes [pipefdIn, pipefdOut]
    .ret none
  | some pid => .ret (some pid)

/-- `ForkAndRunCommand` in the parent. -/
def forkAndRunCommand : Sys (Option Pid) := .perform SysCall.fork

/-- `ReadFromPipe`: whether the end was reached, and what was read. -/
def readFromPipe (pipefd : Fd) : Nat → Bytes → Sys (Bool × Bytes)
  | 0, _ => .halt .unfinished
  | rounds + 1, vec => do
    let bytesRead ← .perform (SysCall.read pipefd)
    match bytesRead with
    | none => do
      .perform (SysCall.close pipefd)
      .ret (false, vec)
    | some bytes => if bytes = [] then .ret (true, vec) else readFromPipe pipefd rounds (vec ++ bytes)

/-- `WaitForChildProcess`: the child exited with 0. -/
def waitForChildProcess (pid : Pid) : Sys Bool := do
  let status ← .perform (SysCall.waitpid pid)
  .ret (decide (status = some (.exited 0)))

/-- `memcmp(out.data(), VAULT_LIST_EMPTY_CASE_RET.data(), out.size()) == 0` -/
def memcmpEmptyCase (out : Bytes) : Except SysFault Bool :=
  if vaultListEmptyCaseRet.length + 1 < out.length then .error .overread
  else .ok (out.isPrefixOf (vaultListEmptyCaseRet ++ [0]))

/-- `!WaitForChildProcess(cmdPid, &cmdStatus) && memcmp(...) != 0`: the comparison is made only where
the command failed. -/
def commandFails (cmdPid : Pid) (out : Bytes) : Sys Bool := do
  let exited ← waitForChildProcess cmdPid
  if exited then .ret false
  else do
    let equal ← .ofExcept (memcmpEmptyCase out)
    .ret (!equal)

/-- Step 3 of `ExecOpenbaoCmd`: the command, after the login. A pair of a `bool` and an output
becomes one of an `int`, so an output that is handed on comes with status 1. -/
def execCommand (rounds : Nat) (loginPipefdIn loginPipefdOut cmdPipefd : PipeTy) :
    Sys (Int × Bytes) := do
  let cmdPid ← forkAndRunCommand
  match cmdPid with
  | none => do
    closePipes [loginPipefdIn, loginPipefdOut, cmdPipefd]
    .ret (1, [])
  | some cmdPid => do
    .perform (SysCall.close cmdPipefd.2)
    let cmdRet2 ← readFromPipe cmdPipefd.1 rounds []
    if ¬ cmdRet2.1 then do
      closePipes [loginPipefdIn, loginPipefdOut, cmdPipefd]
      .ret (1, [])
    else do
      let fails ← commandFails cmdPid cmdRet2.2
      if fails then do
        closePipes [loginPipefdIn, loginPipefdOut, cmdPipefd]
        .ret (1, cmdRet2.2)
      else do
        closePipes [loginPipefdIn, loginPipefdOut, cmdPipefd]
        .ret (0, cmdRet2.2)

/-- `ExecOpenbaoCmd` -/
def execOpenbaoCmd (rounds : Nat) (accessToken : Bytes) : Sys (Int × Bytes) := do
  let pipes ← createPipes
  match pipes with
  | none => .ret (1, [])
  | some (loginPipefdIn, loginPipefdOut, cmdPipefd) => do
    -- step 2-0: the login
    let loginPid ← forkAndRunLogin loginPipefdIn loginPipefdOut
    match loginPid with
    | none => do
      closePipes [loginPipefdIn, loginPipefdOut, cmdPipefd]
      .ret (1, [])
    | some loginPid => do
      -- step 2-1: its token; a part of it is not enough
      let written ← .perform (SysCall.write loginPipefdIn.2 accessToken)
      if written ≠ accessToken.length then do
        closePipes [loginPipefdIn, loginPipefdOut, cmdPipefd]
        .ret (1, [])
      else do
        closePipes [loginPipefdIn]
        -- step 2-2: its output, to the end
        .perform (SysCall.close loginPipefdOut.2)
        let cmdRet1 ← readFromPipe loginPipefdOut.1 rounds []
        if ¬ cmdRet1.1 then do
          closePipes [loginPipefdIn, loginPipefdOut, cmdPipefd]
          .ret (1, [])
        else do
          -- step 2-3: its status
          let login ← waitForChildProcess loginPid
          if ¬ login then do
            closePipes [loginPipefdIn, loginPipefdOut, cmdPipefd]
            .ret (1, cmdRet1.2)
          else execCommand rounds loginPipefdIn loginPipefdOut cmdPipefd

/-- `RunCommandAndGetResult` -/
def runCommandAndGetResult (rounds : Nat) (accessToken cmdArgs : Bytes) :
    Sys (KeyManagerRC × Bytes) :=
  if cmdArgs = [] then .ret (.error, [])
  else if accessToken = [] then .ret (.error, [])
  else do
    let ret ← execOpenbaoCmd rounds accessToken
    .ret (commandResult ret)

/-! ## Traces of the parent -/

/-- The events of `closePipes`. -/
def closing (pipes : List PipeTy) : List SysEvent :=
  pipes.flatMap fun p => [⟨.close p.1, ()⟩, ⟨.close p.2, ()⟩]

theorem closePipes_traces (pipes : List PipeTy) :
    wp (closePipes pipes) fun tr o => tr = closing pipes ∧ o = .ret () := by
  induction pipes with
  | nil => exact ⟨rfl, rfl⟩
  | cons p pipes ih =>
    intro _ _
    refine wp_mono ih fun tr o h => ?_
    obtain ⟨rfl, rfl⟩ := h
    exact ⟨rfl, rfl⟩

theorem wp_closePipes_bind {α : Type} {pipes : List PipeTy} {f : Unit → Sys α}
    {Q : List SysEvent → Outcome SysFault α → Prop}
    (h : wp (f ()) fun tr => Q (closing pipes ++ tr)) : wp (closePipes pipes >>= f) Q := by
  refine wp_bind_of (closePipes_traces pipes) (fun tr a hclosed => ?_) fun _ _ hclosed => ?_
  · obtain ⟨rfl, -⟩ := hclosed
    exact h
  · cases hclosed.2

/-- Pipes are closed at the end. -/
theorem wp_closePipes_ret {α : Type} {pipes : List PipeTy} {a : α}
    {Q : List SysEvent → Outcome SysFault α → Prop} (h : Q (closing pipes) (.ret a)) :
    wp (closePipes pipes >>= fun _ => .ret a) Q := by
  refine wp_closePipes_bind ?_
  rw [wp_ret, List.append_nil]
  exact h

/-- Three pipes are made. -/
def opened (pin pout pcmd : PipeTy) : List SysEvent :=
  [⟨.pipe, some pin⟩, ⟨.pipe, some pout⟩, ⟨.pipe, some pcmd⟩]

/-- The traces of `createPipes`. -/
inductive PipesTrace : List SysEvent → Option (PipeTy × PipeTy × PipeTy) → Prop
  | first : PipesTrace (⟨.pipe, none⟩ :: closing [unopened, unopened, unopened]) none
  | second {p : PipeTy} :
      PipesTrace (⟨.pipe, some p⟩ :: ⟨.pipe, none⟩ :: closing [p, unopened, unopened]) none
  | third {p q : PipeTy} :
      PipesTrace (⟨.pipe, some p⟩ :: ⟨.pipe, some q⟩ :: ⟨.pipe, none⟩ :: closing [p, q, unopened]) none
  | made {p q r : PipeTy} : PipesTrace (opened p q r) (some (p, q, r))

theorem createPipes_traces :
    wp createPipes fun tr o => ∃ pipes, o = .ret pipes ∧ PipesTrace tr pipes := by
  refine wp_perform_bind.mpr fun p₁ => ?_
  cases p₁ with
  | none => exact wp_closePipes_ret ⟨none, rfl, .first⟩
  | some p₁ =>
    -- a later failure closes what there is and the zeros for what there is not
    refine wp_perform_bind.mpr fun p₂ => ?_
    cases p₂ with
    | none => exact wp_closePipes_ret ⟨none, rfl, .second⟩
    | some p₂ =>
      refine wp_perform_bind.mpr fun p₃ => ?_
      cases p₃ with
      | none => exact wp_closePipes_ret ⟨none, rfl, .third⟩
      | some p₃ => exact ⟨_, rfl, .made⟩

/-- The traces of `readFromPipe`. -/
inductive ReadTrace (fd : Fd) : Bytes → List SysEvent → Outcome SysFault (Bool × Bytes) → Prop
  | unfinished {vec : Bytes} : ReadTrace fd vec [] (.halt .unfinished)
  | failed {vec : Bytes} : ReadTrace fd vec [⟨.read fd, none⟩, ⟨.close fd, ()⟩] (.ret (false, vec))
  | ended {vec : Bytes} : ReadTrace fd vec [⟨.read fd, some []⟩] (.ret (true, vec))
  | more {vec bytes : Bytes} {tr : List SysEvent} {o : Outcome SysFault (Bool × Bytes)}
      (hrest : ReadTrace fd (vec ++ bytes) tr o) : ReadTrace fd vec (⟨.read fd, some bytes⟩ :: tr) o

theorem readFromPipe_traces (fd : Fd) (rounds : Nat) :
    ∀ vec : Bytes, wp (readFromPipe fd rounds vec) (ReadTrace fd vec) := by
  induction rounds with
  | zero => exact fun _ => .unfinished
  | succ rounds ih =>
    intro vec
    refine wp_perform_bind.mpr fun bytesRead => ?_
    cases bytesRead with
    | none => exact fun _ => .failed
    | some bytes =>
      dsimp only
      by_cases hempty : bytes = []
      · rw [if_pos hempty, hempty]
        exact .ended
      · rw [if_neg hempty]
        exact wp_mono (ih _) fun _ _ hrest => .more hrest

/-- The traces of `execCommand`. -/
inductive CommandTrace (pin pout pcmd : PipeTy) :
    List SysEvent → Outcome SysFault (Int × Bytes) → Prop
  | unstarted :
      CommandTrace pin pout pcmd (⟨.fork, none⟩ :: closing [pin, pout, pcmd]) (.ret (1, []))
  | unfinished {pid : Pid} {reads : List SysEvent} {x : SysFault}
      (hreads : ReadTrace pcmd.1 [] reads (.halt x)) :
      CommandTrace pin pout pcmd (⟨.fork, some pid⟩ :: ⟨.close pcmd.2, ()⟩ :: reads) (.halt x)
  | unread {pid : Pid} {reads : List SysEvent} {out : Bytes}
      (hreads : ReadTrace pcmd.1 [] reads (.ret (false, out))) :
      CommandTrace pin pout pcmd (⟨.fork, some pid⟩ :: ⟨.close pcmd.2, ()⟩ ::
        (reads ++ closing [pin, pout, pcmd])) (.ret (1, []))
  | exited {pid : Pid} {reads : List SysEvent} {out : Bytes}
      (hreads : ReadTrace pcmd.1 [] reads (.ret (true, out))) :
      CommandTrace pin pout pcmd (⟨.fork, some pid⟩ :: ⟨.close pcmd.2, ()⟩ ::
        (reads ++ (⟨.waitpid pid, some (.exited 0)⟩ :: closing [pin, pout, pcmd]))) (.ret (0, out))
  | overread {pid : Pid} {reads : List SysEvent} {out : Bytes} {status : Option WaitStatus}
      {x : SysFault} (hreads : ReadTrace pcmd.1 [] reads (.ret (true, out)))
      (hstatus : status ≠ some (.exited 0)) (hcmp : memcmpEmptyCase out = .error x) :
      CommandTrace pin pout pcmd (⟨.fork, some pid⟩ :: ⟨.close pcmd.2, ()⟩ ::
        (reads ++ [⟨.waitpid pid, status⟩])) (.halt x)
  | compared {pid : Pid} {reads : List SysEvent} {out : Bytes} {status : Option WaitStatus}
      {equal : Bool} (hreads : ReadTrace pcmd.1 [] reads (.ret (true, out)))
      (hstatus : status ≠ some (.exited 0)) (hcmp : memcmpEmptyCase out = .ok equal) :
      CommandTrace pin pout pcmd (⟨.fork, some pid⟩ :: ⟨.close pcmd.2, ()⟩ ::
        (reads ++ (⟨.waitpid pid, status⟩ :: closing [pin, pout, pcmd])))
        (.ret (cond equal 0 1, out))

/-- The login is started and is given its token; `rest` comes after. -/
def fed (pin pout pcmd : PipeTy) (token : Bytes) (pid : Pid) (rest : List SysEvent) :
    List SysEvent :=
  opened pin pout pcmd ++ (⟨.fork, some pid⟩ :: ⟨.write pin.2 token, (token.length : Int)⟩ ::
    (closing [pin] ++ (⟨.close pout.2, ()⟩ :: rest)))

/-- The traces of `execOpenbaoCmd`. -/
inductive ExecTrace (token : Bytes) : List SysEvent → Outcome SysFault (Int × Bytes) → Prop
  | noPipes {tr : List SysEvent} (hpipes : PipesTrace tr none) : ExecTrace token tr (.ret (1, []))
  | unstarted {pin pout pcmd : PipeTy} :
      ExecTrace token (opened pin pout pcmd ++
        (⟨.fork, none⟩ :: (closing [pin, pout] ++ closing [pin, pout, pcmd]))) (.ret (1, []))
  | unfed {pin pout pcmd : PipeTy} {pid : Pid} {written : Int} :
      ExecTrace token (opened pin pout pcmd ++ (⟨.fork, some pid⟩ :: ⟨.write pin.2 token, written⟩ ::
        closing [pin, pout, pcmd])) (.ret (1, []))
  | unfinished {pin pout pcmd : PipeTy} {pid : Pid} {reads : List SysEvent} {x : SysFault}
      (hreads : ReadTrace pout.1 [] reads (.halt x)) :
      ExecTrace token (fed pin pout pcmd token pid reads) (.halt x)
  | unread {pin pout pcmd : PipeTy} {pid : Pid} {reads : List SysEvent} {out : Bytes}
      (hreads : ReadTrace pout.1 [] reads (.ret (false, out))) :
      ExecTrace token (fed pin pout pcmd token pid (reads ++ closing [pin, pout, pcmd]))
        (.ret (1, []))
  | failed {pin pout pcmd : PipeTy} {pid : Pid} {reads : List SysEvent} {out : Bytes}
      {status : Option WaitStatus} (hreads : ReadTrace pout.1 [] reads (.ret (true, out)))
      (hstatus : status ≠ some (.exited 0)) :
      ExecTrace token (fed pin pout pcmd token pid
        (reads ++ (⟨.waitpid pid, status⟩ :: closing [pin, pout, pcmd]))) (.ret (1, out))
  | loggedIn {pin pout pcmd : PipeTy} {pid : Pid} {reads tr : List SysEvent} {out : Bytes}
      {o : Outcome SysFault (Int × Bytes)} (hreads : ReadTrace pout.1 [] reads (.ret (true, out)))
      (hcommand : CommandTrace pin pout pcmd tr o) :
      ExecTrace token (fed pin pout pcmd token pid
        (reads ++ (⟨.waitpid pid, some (.exited 0)⟩ :: tr))) o

section Steps

variable {α : Type} {Q : List SysEvent → Outcome SysFault α → Prop}

theorem wp_forkAndRunLogin {pin pout : PipeTy} {f : Option Pid → Sys α}
    (hnone : wp (f none) fun tr => Q (⟨.fork, none⟩ :: (closing [pin, pout] ++ tr)))
    (hsome : ∀ pid, wp (f (some pid)) fun tr => Q (⟨.fork, some pid⟩ :: tr)) :
    wp (forkAndRunLogin pin pout >>= f) Q := by
  intro pid
  cases pid with
  | none =>
    intro _ _ _ _
    exact hnone
  | some pid => exact hsome pid

theorem wp_waitForChildProcess {pid : Pid} {f : Bool → Sys α}
    (h : ∀ status, wp (f (decide (status = some (.exited 0)))) fun tr =>
      Q (⟨.waitpid pid, status⟩ :: tr)) : wp (waitForChildProcess pid >>= f) Q := h

theorem wp_commandFails {pid : Pid} {out : Bytes} {f : Bool → Sys α}
    (hexited : wp (f false) fun tr => Q (⟨.waitpid pid, some (.exited 0)⟩ :: tr))
    (hcompared : ∀ status equal, status ≠ some (.exited 0) → memcmpEmptyCase out = .ok equal →
      wp (f !equal) fun tr => Q (⟨.waitpid pid, status⟩ :: tr))
    (hover : ∀ status x, status ≠ some (.exited 0) → memcmpEmptyCase out = .error x →
      Q [⟨.waitpid pid, status⟩] (.halt x)) : wp (commandFails pid out >>= f) Q := by
  intro status
  by_cases hstatus : status = some (.exited 0)
  · subst hstatus
    exact hexited
  · show wp ((if decide (status = some (.exited 0)) = true then _ else _) >>= f) _
    rw [if_neg (by simpa using hstatus)]
    cases hcmp : memcmpEmptyCase out with
    | error x => exact hover status x hstatus hcmp
    | ok equal => exact hcompared status equal hstatus hcmp

/-- A read, to its end, its failure, or never. -/
theorem wp_readFromPipe {fd : Fd} {rounds : Nat} {f : Bool × Bytes → Sys α}
    (hret : ∀ reads r, ReadTrace fd [] reads (.ret r) → wp (f r) fun tr => Q (reads ++ tr))
    (hhalt : ∀ reads x, ReadTrace fd [] reads (.halt x) → Q reads (.halt x)) :
    wp (readFromPipe fd rounds [] >>= f) Q :=
  wp_bind_of (readFromPipe_traces fd rounds []) (fun reads r h => hret reads r h)
    fun reads x h => hhalt reads x h

end Steps

theorem execCommand_traces (rounds : Nat) (pin pout pcmd : PipeTy) :
    wp (execCommand rounds pin pout pcmd) (CommandTrace pin pout pcmd) := by
  refine wp_perform_bind.mpr fun cmdPid => ?_
  cases cmdPid with
  | none => exact wp_closePipes_ret .unstarted
  | some cmdPid =>
    refine wp_perform_bind.mpr fun _ => wp_readFromPipe ?_ fun reads x hreads => .unfinished hreads
    intro reads r hreads
    obtain ⟨ended, out⟩ := r
    cases ended with
    | false => exact wp_closePipes_ret (.unread hreads)
    | true =>
      apply wp_commandFails
      · exact wp_closePipes_ret (.exited hreads)
      · intro status equal hstatus hcmp
        have hend := @CommandTrace.compared pin pout pcmd cmdPid _ _ _ _ hreads hstatus hcmp
        cases equal with
        | false => exact wp_closePipes_ret hend
        | true => exact wp_closePipes_ret hend
      · intro status x hstatus hcmp
        exact .overread hreads hstatus hcmp

theorem execOpenbaoCmd_traces (rounds : Nat) (token : Bytes) :
    wp (execOpenbaoCmd rounds token) (ExecTrace token) := by
  unfold execOpenbaoCmd
  refine wp_bind_of createPipes_traces (fun tr pipes hpipes => ?_) fun _ _ hpipes => ?_
  rotate_left
  -- making the pipes always ends in an answer
  · obtain ⟨_, heq, -⟩ := hpipes
    cases heq
  obtain ⟨_, heq, hpipes⟩ := hpipes
  obtain rfl := Outcome.ret.inj heq
  cases pipes with
  | none =>
    rw [wp_ret, List.append_nil]
    exact .noPipes hpipes
  | some pipes =>
    obtain ⟨pin, pout, pcmd⟩ := pipes
    cases hpipes
    -- from here on each way out is a constructor, in the order of the source
    refine wp_forkAndRunLogin (wp_closePipes_ret .unstarted) fun pid => ?_
    refine wp_perform_bind.mpr fun written => ?_
    by_cases hwritten : written = token.length
    rotate_left
    · rw [if_pos hwritten]
      exact wp_closePipes_ret .unfed
    subst hwritten
    rw [if_neg (not_not.mpr rfl)]
    refine wp_closePipes_bind (wp_perform_bind.mpr fun _ => ?_)
    refine wp_readFromPipe (fun reads r hreads => ?_) fun reads x hreads => .unfinished hreads
    obtain ⟨ended, out⟩ := r
    cases ended with
    | false => exact wp_closePipes_ret (.unread hreads)
    | true =>
      refine wp_waitForChildProcess fun status => ?_
      by_cases hstatus : status = some (.exited 0)
      · subst hstatus
        exact wp_mono (execCommand_traces rounds pin pout pcmd) fun tr o hcommand =>
          .loggedIn hreads hcommand
      · rw [decide_eq_false hstatus]
        exact wp_closePipes_ret (.failed hreads hstatus)

end Exec

end CdfCrypto.KeyManagement
