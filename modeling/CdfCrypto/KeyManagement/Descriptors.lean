import CdfCrypto.KeyManagement.Exec
import CdfCrypto.Lib.Ownership

/-!
# Descriptors and children of a command

What `ExecOpenbaoCmd` opens it should close, each descriptor once and no other, and every child it
forks it should wait for once. Both are ledgers: `pipe` acquires two descriptors and `close` releases
one, `fork` acquires a child and `waitpid` releases it.

No execution that comes back keeps both. The last step of each is to close all three pipes, whatever
of them was made or has been closed by then: a login that has its token has lost three ends already,
and a pipe that was never made is the descriptor 0, twice. So more is released than was ever
acquired, and the descriptors in between belong to someone else. The one exit at which exactly the
six ends are closed is that of a token not written, and that leaves the login behind. The count
needs no assumption on which descriptors the system hands out.
-/

namespace CdfCrypto.KeyManagement

namespace Exec

open Lib

/-! ## The two ledgers -/

def fdDeeds (ev : SysEvent) : List (Deed Fd) :=
  match ev with
  | ⟨.pipe, some p⟩ => [.acquired p.1, .acquired p.2]
  | ⟨.close fd, _⟩ => [.released fd]
  | _ => []

def childDeeds (ev : SysEvent) : List (Deed Pid) :=
  match ev with
  | ⟨.fork, some pid⟩ => [.acquired pid]
  | ⟨.waitpid pid, _⟩ => [.released pid]
  | _ => []

/-- Only what is open is closed, nothing stays open, and each child is waited for once. -/
def Disciplined (tr : List SysEvent) : Prop :=
  Run Ledger 0 (tr.flatMap fdDeeds) 0 ∧ Run Ledger 0 (tr.flatMap childDeeds) 0

/-! ## Counting -/

/-- Descriptors opened less descriptors closed. -/
def fdBalance (tr : List SysEvent) : Int := balance (tr.flatMap fdDeeds)

section Counting

variable {tr tr' : List SysEvent} {pin pout pcmd : PipeTy}

theorem Disciplined.fdBalance (h : Disciplined tr) : Exec.fdBalance tr = 0 := balance_of_books h.1

@[simp] theorem fdBalance_append : fdBalance (tr ++ tr') = fdBalance tr + fdBalance tr' := by
  rw [fdBalance, List.flatMap_append, balance_append]
  rfl

@[simp] theorem fdBalance_close (fd : Fd) (answer : Unit) :
    fdBalance (⟨.close fd, answer⟩ :: tr) = -1 + fdBalance tr := rfl

@[simp] theorem fdBalance_fork (answer : Option Pid) :
    fdBalance (⟨.fork, answer⟩ :: tr) = fdBalance tr := rfl

@[simp] theorem fdBalance_waitpid (pid : Pid) (answer : Option WaitStatus) :
    fdBalance (⟨.waitpid pid, answer⟩ :: tr) = fdBalance tr := rfl

@[simp] theorem fdBalance_fed (token : Bytes) (pid : Pid) :
    fdBalance (fed pin pout pcmd token pid tr) = 3 + fdBalance tr := by
  -- six ends opened, three closed
  show 1 + (1 + (1 + (1 + (1 + (1 + (-1 + (-1 + (-1 + fdBalance tr)))))))) = 3 + fdBalance tr
  omega

@[simp] theorem fdBalance_closing (p q r : PipeTy) : fdBalance (closing [p, q, r]) = -6 := rfl

/-- A read closes, if anything. -/
theorem ReadTrace.fdBalance_le {fd : Fd} {vec : Bytes} {o : Outcome SysFault (Bool × Bytes)}
    (h : ReadTrace fd vec tr o) : fdBalance tr ≤ 0 := by
  induction h with
  | unfinished => exact Int.le_refl 0
  | failed =>
    show (-1 : Int) ≤ 0
    omega
  | ended => exact Int.le_refl 0
  | more _ ih => exact ih

theorem PipesTrace.fdBalance_neg (h : PipesTrace tr none) : fdBalance tr < 0 := by
  cases h with
  | first =>
    show (-6 : Int) < 0
    omega
  | second =>
    show (-4 : Int) < 0
    omega
  | third =>
    show (-2 : Int) < 0
    omega

/-- A step that comes back has closed all three pipes. -/
theorem CommandTrace.fdBalance_le {r : Int × Bytes} (h : CommandTrace pin pout pcmd tr (.ret r)) :
    fdBalance tr ≤ -6 := by
  cases h with
  | unstarted =>
    show (-6 : Int) ≤ -6
    omega
  | unread hreads =>
    have := hreads.fdBalance_le
    simp only [fdBalance_fork, fdBalance_close, fdBalance_append, fdBalance_closing]
    omega
  | exited hreads =>
    have := hreads.fdBalance_le
    simp only [fdBalance_fork, fdBalance_close, fdBalance_append, fdBalance_waitpid,
      fdBalance_closing]
    omega
  | compared hreads =>
    have := hreads.fdBalance_le
    simp only [fdBalance_fork, fdBalance_close, fdBalance_append, fdBalance_waitpid,
      fdBalance_closing]
    omega

/-- The login that was not given its token is nobody's. -/
theorem not_disciplined_unfed {token : Bytes} {pid : Pid} {written : Int} :
    ¬ Disciplined (opened pin pout pcmd ++ (⟨.fork, some pid⟩ :: ⟨.write pin.2 token, written⟩ ::
      closing [pin, pout, pcmd])) := by
  intro hdisciplined
  have hchildren : (1 : Int) = 0 := balance_of_books hdisciplined.2
  omega

/-- Every way back is one too many closed, or a child too few waited for. -/
theorem ExecTrace.not_disciplined {token : Bytes} {r : Int × Bytes}
    (h : ExecTrace token tr (.ret r)) : ¬ Disciplined tr := by
  intro hdisciplined
  have hbalance := hdisciplined.fdBalance
  cases h with
  | noPipes hpipes =>
    -- zeros are closed that were never opened
    have := hpipes.fdBalance_neg
    omega
  | unstarted =>
    -- the fork's failure has closed the login's pipes already
    have hunstarted : (-4 : Int) = 0 := hbalance
    omega
  | unfed => exact not_disciplined_unfed hdisciplined
  | unread hreads =>
    -- three ends are closed when the login has its token, and six more come
    have := hreads.fdBalance_le
    simp only [fdBalance_fed, fdBalance_append, fdBalance_closing] at hbalance
    omega
  | failed hreads =>
    have := hreads.fdBalance_le
    simp only [fdBalance_fed, fdBalance_append, fdBalance_waitpid, fdBalance_closing] at hbalance
    omega
  | loggedIn hreads hcommand =>
    have := hreads.fdBalance_le
    have := hcommand.fdBalance_le
    simp only [fdBalance_fed, fdBalance_append, fdBalance_waitpid] at hbalance
    omega

end Counting

/-- **No execution that comes back is disciplined**, whatever the system calls answer. -/
theorem execOpenbaoCmd_undisciplined (rounds : Nat) (accessToken : Bytes) :
    wp (execOpenbaoCmd rounds accessToken) fun tr o => ∀ r, o = .ret r → ¬ Disciplined tr := by
  refine wp_mono (execOpenbaoCmd_traces rounds accessToken) fun tr o htrace r hret => ?_
  subst hret
  exact htrace.not_disciplined

/-- A login and a command that do all that is asked of them. -/
def servedTrace : List SysEvent :=
  [⟨.pipe, some (3, 4)⟩, ⟨.pipe, some (5, 6)⟩, ⟨.pipe, some (7, 8)⟩, ⟨.fork, some 100⟩,
    ⟨.write 4 (ascii "token"), (5 : Int)⟩, ⟨.close 3, ()⟩, ⟨.close 4, ()⟩, ⟨.close 6, ()⟩,
    ⟨.read 5, some []⟩, ⟨.waitpid 100, some (.exited 0)⟩, ⟨.fork, some 101⟩, ⟨.close 8, ()⟩,
    ⟨.read 7, some (ascii "{}")⟩, ⟨.read 7, some []⟩, ⟨.waitpid 101, some (.exited 0)⟩,
    ⟨.close 3, ()⟩, ⟨.close 4, ()⟩, ⟨.close 5, ()⟩, ⟨.close 6, ()⟩, ⟨.close 7, ()⟩, ⟨.close 8, ()⟩]

/-- Even then the descriptors 3, 4, 6 and 8 are closed a second time. -/
theorem served_closes_twice :
    Traces (execOpenbaoCmd 2 (ascii "token")) servedTrace (.ret (0, ascii "{}")) ∧
      ¬ Disciplined servedTrace := by
  refine ⟨?_, fun hdisciplined => ?_⟩
  · iterate 21 refine .call ?_
    exact .ret _
  · have hbalance : (-4 : Int) = 0 := hdisciplined.fdBalance
    omega

end Exec

end CdfCrypto.KeyManagement
