import CdfCrypto.Jwt.KeyPass
import CdfCrypto.Jwt.Rotation

/-!
# How long a key lives

`Start` in `INTERNAL_KEY` mode makes the key pass from the hours of the options, and nothing
changes them after that. The present key carries the time at which it was set, and the old one
the time at which it had been set as the present one (`present_time`, `old_time`). So both are
checked against the hours of the options (`keyLifetime_iff`): but -1 hours, which stands for no
end, is no number of hours the key pass accepts, and it falls back to a day.
-/

namespace CdfCrypto.Jwt

open Lib KeyManagement

/-! ## The hours of the options -/

/-- The hours that are accepted for a key of the server. -/
def CDFDistAuthServerOptions.HoursAccepted (opt : CDFDistAuthServerOptions) : Prop :=
  -1 ≤ opt.serverKeyExpiredHours.toInt ∧ opt.serverKeyExpiredHours.toInt ≤ 546

/-- An OK of `ValidateOptions`, or of `Start`, for what it says of the hours. -/
def ChecksHours {α : Type} (opt : CDFDistAuthServerOptions) (ok : α) :
    Outcome Fault (α × Impl) → Prop
  | .ret (rc, _) => rc = ok → opt.HoursAccepted
  | .halt _ => True

theorem validateOptions_hours (s : Impl) {opt : CDFDistAuthServerOptions}
    (hmode : opt.keyTransferMode ≠ .externalKey) :
    wp (s.validateOptions opt) fun _ o => ChecksHours opt JwtAuthRC.ok o := by
  unfold Impl.validateOptions
  split
  · exact nofun
  split
  · exact nofun
  split
  · exact nofun
  split
  · exact nofun
  next hhours =>
  have haccepted : opt.HoursAccepted := by
    unfold jwtExpireTimeMaxMinute jwtMinutesPerHour at hhours
    unfold CDFDistAuthServerOptions.HoursAccepted
    omega
  refine wp_perform_bind.mpr fun accessible => ?_
  split
  · exact nofun
  split
  · exact nofun
  · exact fun _ => haccepted

theorem start_hours {s : Impl} {opt : CDFDistAuthServerOptions} (hstopped : s.started = false)
    (hmode : opt.keyTransferMode = .internalKey) :
    wp (s.start opt) fun _ o => ChecksHours opt (.ok JwtAuthRC.ok) o := by
  unfold Impl.start
  rw [if_neg (Bool.eq_false_iff.mp hstopped)]
  split
  · exact nofun
  refine wp_bind_of (validateOptions_hours s (by rw [hmode]; decide))
    (fun _ validated hhours => ?_) fun _ _ _ => trivial
  by_cases hrc : validated.1 = .ok
  · refine wp_iff.mpr fun _ o _ => ?_
    cases o with
    | ret result => exact fun _ => hhours hrc
    | halt x => trivial
  · rw [if_pos hrc]
    exact fun heq => absurd (Except.ok.inj heq) hrc

/-- What `Start` makes of the keys. -/
theorem start_keyPass {s s' : Impl} {opt : CDFDistAuthServerOptions} {tr : List JwtEvent}
    (hstopped : s.started = false) (hmode : opt.keyTransferMode = .internalKey)
    (hstart : Traces (s.start opt) tr (.ret (.ok .ok, s'))) : s'.started = true ∧
      s'.keyPass = .ofHours opt.serverKeyExpiredHours.toInt64.toUInt64 ∧ opt.HoursAccepted := by
  have hends := wp_iff.mp (start_ends s opt) _ _ hstart
  have haccepted : opt.HoursAccepted := wp_iff.mp (start_hours hstopped hmode) _ _ hstart rfl
  generalize ho : (Outcome.ret (Except.ok JwtAuthRC.ok, s') :
    Outcome Fault (Except StdException JwtAuthRC × Impl)) = o at hends
  cases hends with
  | already hstarted => exact absurd (hstarted.symm.trans hstopped) (by decide)
  | refused _ hrc =>
    cases ho
    exact absurd rfl hrc
  | failed _ hresult =>
    cases ho
    exact absurd rfl hresult
  | internal =>
    cases ho
    exact ⟨rfl, rfl, haccepted⟩
  | external _ hother => exact absurd hmode hother

/-- The hours that a key pass takes from accepted options: -1 is too large for it. -/
theorem ofHours_toNat {opt : CDFDistAuthServerOptions} (h : opt.HoursAccepted) :
    ((JwtKeyPass.ofHours opt.serverKeyExpiredHours.toInt64.toUInt64).serverKeyExpiredHours.toNat :
      Int) = if opt.serverKeyExpiredHours = -1 then 24 else opt.serverKeyExpiredHours.toInt := by
  obtain ⟨hmin, hmax⟩ := h
  by_cases hnever : opt.serverKeyExpiredHours = -1
  · rw [if_pos hnever, hnever]
    decide
  · have hne : opt.serverKeyExpiredHours.toInt ≠ -1 := fun heq => hnever (Int16.toInt_inj.mp heq)
    have hwide : opt.serverKeyExpiredHours.toInt64.toInt = opt.serverKeyExpiredHours.toInt :=
      Int16.toInt_toInt64 _
    have hnonneg : (0 : Int64) ≤ opt.serverKeyExpiredHours.toInt64 := by
      rw [Int64.le_iff_toInt_le, hwide]
      show (0 : Int) ≤ _
      omega
    have hstored := toNat_toUInt64 hnonneg
    rw [if_neg hnever]
    unfold JwtKeyPass.ofHours
    rw [if_neg]
    · rw [hstored, hwide]
    · rw [UInt64.lt_iff_toNat_lt]
      show ¬ 65535 < _
      omega

/-! ## The times of the keys -/

variable {k : JwtKeyPass} {tr : List JwtEvent} {rc : JwtAuthRC}

/-- The outcome of an operation on the keys of a server. -/
def ServerTimed (s : Impl) (old : JwtAuthRC → JwtKeyPass → Prop) (tr : List JwtEvent)
    (o : Outcome Fault (JwtAuthRC × Impl)) : Prop :=
  ∃ rc k', o = .ret (rc, { s with keyPass := k' }) ∧ PresentTimed s.keyPass tr rc k' ∧ old rc k'

theorem PresentTimed.refused (hrc : rc ≠ .ok) (tr : List JwtEvent) : PresentTimed k tr rc k :=
  ⟨rfl, fun hok => absurd hok hrc, fun _ => rfl⟩

theorem setEncryptionKey_timed (s : Impl) (newKey : Option Bytes) (keyLen : UInt32) :
    wp (s.setEncryptionKey newKey keyLen) (ServerTimed s fun _ k' =>
      k'.oldKeyCreateTimeSec = s.keyPass.oldKeyCreateTimeSec) := by
  unfold Impl.setEncryptionKey
  dsimp only
  split
  next hrefused => exact ⟨_, s.keyPass, rfl, .refused hrefused _, rfl⟩
  split
  · exact ⟨_, s.keyPass, rfl, .refused (by decide) _, rfl⟩
  refine wp_bind_of (setKey_ends _ newKey keyLen _ _ _) (fun tr result hends => ?_)
    fun _ _ hhalt => ?_
  · obtain ⟨rc, k', heq, hends⟩ := hends
    cases heq
    refine ⟨rc, k', rfl, ?_⟩
    rw [List.append_nil]
    exact hends.timed
  · obtain ⟨_, _, heq, -⟩ := hhalt
    cases heq

theorem refreshEncryptionKey_timed (s : Impl) (newKey : Option Bytes) (keyLen : UInt32) :
    wp (s.refreshEncryptionKey newKey keyLen) (ServerTimed s fun rc k' =>
      rc = .ok → k'.oldKeyCreateTimeSec = s.keyPass.newKeyCreateTimeSec) := by
  unfold Impl.refreshEncryptionKey
  dsimp only
  split
  next hrefused =>
    exact ⟨_, s.keyPass, rfl, .refused hrefused _, fun hok => absurd hok hrefused⟩
  refine wp_bind_of (refreshKey_ends _ newKey keyLen _ _ _) (fun tr result hends => ?_)
    fun _ _ hhalt => ?_
  · obtain ⟨rc, k', heq, hends⟩ := hends
    cases heq
    refine ⟨rc, k', rfl, ?_⟩
    rw [List.append_nil]
    exact hends.timed
  · obtain ⟨_, _, heq, -⟩ := hhalt
    cases heq

/-- The same of the call, which answers the code. -/
theorem timed_of_code {s s' : Impl} {p : Auth (JwtAuthRC × Impl)}
    {old : JwtAuthRC → JwtKeyPass → Prop} {answer : ServerAnswer} (hp : wp p (ServerTimed s old))
    (htr : Traces (p >>= fun result => .ret (ServerAnswer.code result.1, result.2)) tr
      (.ret (answer, s'))) :
    ∃ rc, answer = .code rc ∧ s'.started = s.started ∧
      PresentTimed s.keyPass tr rc s'.keyPass ∧ old rc s'.keyPass := by
  have hcode : wp (p >>= fun result => .ret (ServerAnswer.code result.1, result.2)) fun tr o =>
      ∃ rc k', o = .ret (.code rc, { s with keyPass := k' }) ∧ PresentTimed s.keyPass tr rc k' ∧
        old rc k' := by
    refine wp_bind_of hp (fun tr result htimed => ?_) fun _ _ hhalt => ?_
    · obtain ⟨rc, k', heq, htimed⟩ := htimed
      cases heq
      refine ⟨rc, k', rfl, ?_⟩
      rw [List.append_nil]
      exact htimed
    · obtain ⟨_, _, heq, -⟩ := hhalt
      cases heq
  obtain ⟨rc, k', heq, hpresent, hold⟩ := wp_iff.mp hcode _ _ htr
  cases heq
  exact ⟨rc, rfl, rfl, hpresent, hold⟩

/-! ## Runs -/

/-- A call that came back. -/
structure ServerReturn where
  op : ServerOp
  trace : List JwtEvent
  answer : ServerAnswer

/-- One call on a server that does not stop it. -/
def ReturnStep (O : OpensslHmac) (s : Impl) (c : ServerReturn) (s' : Impl) : Prop :=
  c.op ≠ .stop ∧ Traces (c.op.prog O s) c.trace (.ret (c.answer, s'))

def ServerReturn.IsRefresh (c : ServerReturn) : Prop :=
  ∃ newKey keyLen, c.op = .refreshEncryptionKey newKey keyLen

/-- A key was set, in one way or the other. -/
def ServerReturn.SetsKey (c : ServerReturn) : Prop :=
  ((∃ newKey keyLen, c.op = .setEncryptionKey newKey keyLen) ∨ c.IsRefresh) ∧
    c.answer = .code .ok

/-- What a call does with the keys of a started server. -/
structure KeysTimed (s : Impl) (c : ServerReturn) (s' : Impl) : Prop where
  started : s'.started = true
  hours : s'.keyPass.serverKeyExpiredHours = s.keyPass.serverKeyExpiredHours
  set : c.SetsKey → ∀ now, ⟨.clockGettime, now⟩ ∈ c.trace →
    s'.keyPass.newKeyCreateTimeSec = now.toUInt64
  kept : ¬ c.SetsKey → s'.keyPass.newKeyCreateTimeSec = s.keyPass.newKeyCreateTimeSec
  moved : c.IsRefresh → c.SetsKey →
    s'.keyPass.oldKeyCreateTimeSec = s.keyPass.newKeyCreateTimeSec
  oldKept : ¬ c.IsRefresh → s'.keyPass.oldKeyCreateTimeSec = s.keyPass.oldKeyCreateTimeSec

variable {O : OpensslHmac} {s s' : Impl} {c : ServerReturn}

theorem ReturnStep.timed (hstarted : s.started = true) (h : ReturnStep O s c s') :
    KeysTimed s c s' := by
  obtain ⟨op, trace, answer⟩ := c
  obtain ⟨hstop, htr⟩ := h
  have hother : op.KeepsKeys → KeysTimed s ⟨op, trace, answer⟩ s' := by
    intro hop
    have hsame : s' = s := wp_iff.mp (prog_leavesServer O hstarted hop) _ _ htr
    have hnot : ¬ (ServerReturn.mk op trace answer).SetsKey := by
      intro hsets
      rcases hsets.1 with ⟨newKey, keyLen, heq⟩ | ⟨newKey, keyLen, heq⟩
      · exact (heq ▸ hop : ServerOp.KeepsKeys (.setEncryptionKey newKey keyLen))
      · exact (heq ▸ hop : ServerOp.KeepsKeys (.refreshEncryptionKey newKey keyLen))
    rw [hsame]
    exact ⟨hstarted, rfl, fun hsets => absurd hsets hnot, fun _ => rfl,
      fun _ hsets => absurd hsets hnot, fun _ => rfl⟩
  cases op with
  | stop => exact absurd rfl hstop
  | refreshEncryptionKey newKey keyLen =>
    obtain ⟨rc, rfl, hsame, hpresent, hold⟩ :=
      timed_of_code (refreshEncryptionKey_timed s newKey keyLen) htr
    have hrefresh : (ServerReturn.mk (.refreshEncryptionKey newKey keyLen) trace
        (.code rc)).IsRefresh := ⟨_, _, rfl⟩
    exact ⟨hsame.trans hstarted, hpresent.hours, fun hsets => hpresent.set (ServerAnswer.code.inj hsets.2),
      fun hnot => hpresent.kept fun hrc => hnot ⟨.inr hrefresh, congrArg _ hrc⟩,
      fun _ hsets => hold (ServerAnswer.code.inj hsets.2), fun hnot => absurd hrefresh hnot⟩
  | setEncryptionKey newKey keyLen =>
    obtain ⟨rc, rfl, hsame, hpresent, hold⟩ :=
      timed_of_code (setEncryptionKey_timed s newKey keyLen) htr
    exact ⟨hsame.trans hstarted, hpresent.hours, fun hsets => hpresent.set (ServerAnswer.code.inj hsets.2),
      fun hnot => hpresent.kept fun hrc => hnot ⟨.inl ⟨_, _, rfl⟩, congrArg _ hrc⟩,
      fun hrefresh => (nomatch hrefresh), fun _ => hold⟩
  | start opt => exact hother trivial
  | estimateTokenLength inputLen => exact hother trivial
  | createToken opt => exact hother trivial
  | validateToken opt => exact hother trivial

variable {calls : List ServerReturn} {created t : Int64}

/-- What no call of a run changes. -/
theorem kept_of_run {f : Impl → UInt64} (hstarted : s.started = true)
    (hrun : Run (ReturnStep O) s calls s')
    (hkept : ∀ s c s', c ∈ calls → KeysTimed s c s' → f s' = f s) :
    s'.started = true ∧ f s' = f s := by
  refine Run.invariant (I := fun now => now.started = true ∧ f now = f s)
    (fun now c next hnow hstep => ?_) hrun.labelled ⟨hstarted, rfl⟩
  have htimed := hstep.2.timed hnow.1
  exact ⟨htimed.started, (hkept now c next hstep.1 htimed).trans hnow.2⟩

theorem hours_of_run (hstarted : s.started = true) (hrun : Run (ReturnStep O) s calls s') :
    s'.started = true ∧
      s'.keyPass.serverKeyExpiredHours = s.keyPass.serverKeyExpiredHours :=
  kept_of_run (f := fun s => s.keyPass.serverKeyExpiredHours) hstarted hrun
    fun _ _ _ _ htimed => htimed.hours

/-- The present key was set when the clock showed `created`, and no other since. -/
def PresentSetAt (calls : List ServerReturn) (created : Int64) : Prop :=
  ∃ pre call post, calls = pre ++ call :: post ∧ call.SetsKey ∧
    ⟨.clockGettime, created⟩ ∈ call.trace ∧ ∀ later ∈ post, ¬ later.SetsKey

/-- The old key was set when the clock showed `created`: it was the present one then, up to the
last refresh. -/
def OldSetAt (calls : List ServerReturn) (created : Int64) : Prop :=
  ∃ pre call post, calls = pre ++ call :: post ∧ PresentSetAt pre created ∧ call.IsRefresh ∧
    call.SetsKey ∧ ∀ later ∈ post, ¬ later.IsRefresh

/-- A run, taken apart at a call. -/
theorem split_at_call {pre post : List ServerReturn} {call : ServerReturn}
    (hstarted : s.started = true) (hrun : Run (ReturnStep O) s (pre ++ call :: post) s') :
    ∃ before after, Run (ReturnStep O) s pre before ∧ KeysTimed before call after ∧
      Run (ReturnStep O) after post s' := by
  obtain ⟨before, hpre, hrest⟩ := Run.split pre (call :: post) hrun
  cases hrest with
  | cons hcall hpost =>
    exact ⟨before, _, hpre, hcall.timed (hours_of_run hstarted hpre).1, hpost⟩

theorem present_time (hstarted : s.started = true) (hrun : Run (ReturnStep O) s calls s')
    (hset : PresentSetAt calls created) : s'.keyPass.newKeyCreateTimeSec = created.toUInt64 := by
  obtain ⟨pre, call, post, rfl, hsets, hclock, hlater⟩ := hset
  obtain ⟨before, after, -, htimed, hpost⟩ := split_at_call hstarted hrun
  have hkept := kept_of_run (f := fun s => s.keyPass.newKeyCreateTimeSec) htimed.started hpost
    fun _ later _ hmem htimed => htimed.kept (hlater later hmem)
  exact hkept.2.trans (htimed.set hsets created hclock)

theorem old_time (hstarted : s.started = true) (hrun : Run (ReturnStep O) s calls s')
    (hset : OldSetAt calls created) : s'.keyPass.oldKeyCreateTimeSec = created.toUInt64 := by
  obtain ⟨pre, call, post, rfl, hpresent, hrefresh, hsets, hlater⟩ := hset
  obtain ⟨before, after, hpre, htimed, hpost⟩ := split_at_call hstarted hrun
  have hkept := kept_of_run (f := fun s => s.keyPass.oldKeyCreateTimeSec) htimed.started hpost
    fun _ later _ hmem htimed => htimed.oldKept (hlater later hmem)
  calc s'.keyPass.oldKeyCreateTimeSec = after.keyPass.oldKeyCreateTimeSec := hkept.2
    _ = before.keyPass.newKeyCreateTimeSec := htimed.moved hrefresh hsets
    _ = created.toUInt64 := present_time hstarted hpre hpresent

/-! ## The check -/

/-- The check says at `t` whether a key set at `created` has had the hours of the options; -1 has
no end. -/
def TellsLifetime (opt : CDFDistAuthServerOptions) (created t : Int64) (check : Auth Bool) : Prop :=
  Traces check [⟨.clockGettime, t⟩] (.ret (decide (opt.serverKeyExpiredHours ≠ -1 ∧
    created.toInt + 3600 * opt.serverKeyExpiredHours.toInt < t.toInt)))

/-- The options set an end, or the end that is taken in its place has not come. -/
def EndKept (opt : CDFDistAuthServerOptions) (created t : Int64) : Prop :=
  opt.serverKeyExpiredHours ≠ -1 ∨ t.toInt ≤ created.toInt + 24 * 3600

/-- A check of the clock answers what it computes of it. -/
theorem traces_check_iff {f : Int64 → Bool} {expired : Bool} :
    Traces (Prog.perform JwtCall.clockGettime >>= fun now => .ret (f now) : Auth Bool)
      [⟨.clockGettime, t⟩] (.ret expired) ↔ f t = expired := by
  constructor
  · intro h
    cases h with
    | call h =>
      cases h
      rfl
  · intro h
    subst h
    exact .call (.ret _)

section Check

variable {opt : CDFDistAuthServerOptions} (haccepted : opt.HoursAccepted) (hepoch : 0 ≤ created)
variable (hle : created ≤ t) (hhours : k.serverKeyExpiredHours =
  (JwtKeyPass.ofHours opt.serverKeyExpiredHours.toInt64.toUInt64).serverKeyExpiredHours)
include haccepted hepoch hle hhours

/-- What the check computes, in plain numbers. -/
theorem expiredAt_iff : k.expiredAt created.toUInt64 t = true ↔ created.toInt + 3600 *
    (if opt.serverKeyExpiredHours = -1 then 24 else opt.serverKeyExpiredHours.toInt) <
      t.toInt := by
  have hnonneg : 0 ≤ created.toInt := Int64.le_iff_toInt_le.mp hepoch
  have hcreated := toNat_toUInt64 hepoch
  have hbound : k.serverKeyExpiredHours.toNat ≤ 65535 := by
    rw [hhours]
    exact (keyTimes_ofHours hnonneg _).hours
  -- the check looks at the hours alone, so the other times are of no matter
  have htimes : KeyTimes { serverKeyExpiredHours := k.serverKeyExpiredHours } created :=
    ⟨hnonneg, Nat.le_refl _, hnonneg, hbound⟩
  have hintime : k.expiredAt created.toUInt64 t = false ↔
      t.toInt ≤ (created.toUInt64.toNat : Int) + 3600 * (k.serverKeyExpiredHours.toNat : Int) :=
    htimes.expiredAt_iff (Int.le_of_eq hcreated) (Int64.le_iff_toInt_le.mp hle)
  rw [hcreated, hhours, ofHours_toNat haccepted] at hintime
  rw [← Bool.not_eq_false, hintime]
  exact Int.not_le

/-- The check is right exactly where the options set an end, or the day has not gone by. -/
theorem expiredAt_tells : k.expiredAt created.toUInt64 t = decide (opt.serverKeyExpiredHours ≠ -1 ∧
    created.toInt + 3600 * opt.serverKeyExpiredHours.toInt < t.toInt) ↔ EndKept opt created t := by
  have hcheck := expiredAt_iff haccepted hepoch hle hhours
  rw [Bool.eq_iff_iff, decide_eq_true_iff, hcheck]
  unfold EndKept
  by_cases hnever : opt.serverKeyExpiredHours = -1
  · rw [if_pos hnever]
    constructor
    · intro h
      exact .inr (by by_contra hlate; exact (h.mp (by omega)).1 hnever)
    · intro h
      have hday := h.resolve_left (not_not.mpr hnever)
      exact ⟨fun hlate => by omega, fun hends => absurd hnever hends.1⟩
  · rw [if_neg hnever]
    exact ⟨fun _ => .inl hnever, fun _ => (and_iff_right hnever).symm⟩

end Check

/-- **How long the keys of a server live.** It was started with these options, and any calls but
`Stop` have been made since. The check of the present key and that of the old key tell whether it
has had the hours of the options, counted from when it was set, exactly where these set an end or
a day has not gone by. -/
theorem keyLifetime_iff {opt : CDFDistAuthServerOptions} {pre s₀ : Impl} {trStart : List JwtEvent}
    (hpre : pre.started = false) (hmode : opt.keyTransferMode = .internalKey)
    (hstart : Traces (pre.start opt) trStart (.ret (.ok .ok, s₀)))
    (hrun : Run (ReturnStep O) s₀ calls s) (hepoch : 0 ≤ created) (hle : created ≤ t) :
    (PresentSetAt calls created →
      (TellsLifetime opt created t s.keyPass.isExpired ↔ EndKept opt created t)) ∧
    (OldSetAt calls created →
      (TellsLifetime opt created t s.keyPass.isOldKeyExpired ↔ EndKept opt created t)) := by
  obtain ⟨hstarted, hkeyPass, haccepted⟩ := start_keyPass hpre hmode hstart
  have hhours := (hours_of_run hstarted hrun).2
  rw [hkeyPass] at hhours
  have htells := expiredAt_tells haccepted hepoch hle hhours
  refine ⟨fun hset => ?_, fun hset => ?_⟩
  · rw [← htells, ← present_time hstarted hrun hset]
    exact traces_check_iff
  · rw [← htells, ← old_time hstarted hrun hset]
    exact traces_check_iff

/-! ## A key and the next one -/

/-- The first key of a server. -/
def setReturn (now : Int64) : ServerReturn where
  op := (setKeyCall now).1
  trace := (setKeyCall now).2
  answer := .code .ok

/-- The next one. -/
def refreshReturn (now : Int64) : ServerReturn where
  op := .refreshEncryptionKey (some renewedKey) 32
  trace := sampleRefresh now
  answer := .code .ok

theorem setReturn_setsKey (now : Int64) : (setReturn now).SetsKey :=
  ⟨.inl ⟨some sampleKey, 32, rfl⟩, rfl⟩

theorem refreshReturn_isRefresh (now : Int64) : (refreshReturn now).IsRefresh :=
  ⟨some renewedKey, 32, rfl⟩

theorem refreshReturn_setsKey (now : Int64) : (refreshReturn now).SetsKey :=
  ⟨.inr (refreshReturn_isRefresh now), rfl⟩

theorem setReturn_setAt (now : Int64) : PresentSetAt [setReturn now] now :=
  ⟨[], setReturn now, [], rfl, setReturn_setsKey now, List.mem_cons_self, List.forall_mem_nil _⟩

theorem refreshReturn_setAt (first now : Int64) :
    PresentSetAt [setReturn first, refreshReturn now] now :=
  ⟨[setReturn first], refreshReturn now, [], rfl, refreshReturn_setsKey now,
    List.mem_cons_of_mem _ List.mem_cons_self, List.forall_mem_nil _⟩

theorem refreshReturn_oldSetAt (first now : Int64) :
    OldSetAt [setReturn first, refreshReturn now] first :=
  ⟨[setReturn first], refreshReturn now, [], rfl, setReturn_setAt first,
    refreshReturn_isRefresh now, refreshReturn_setsKey now, List.forall_mem_nil _⟩

/-- Two keys have been set. -/
theorem refreshed_run (first now : Int64) : ∃ s, Run (ReturnStep sampleHmac) (sampleServer first)
    [setReturn first, refreshReturn now] s := by
  have hset : ReturnStep sampleHmac (sampleServer first) (setReturn first) (keyedServer first) :=
    ⟨nofun, traces_setKeyCall _ _⟩
  have hrefresh : ReturnStep sampleHmac (keyedServer first) (refreshReturn now) _ :=
    ⟨nofun, .call (.call (.call (.call (.ret _))))⟩
  exact ⟨_, .cons hset (.cons hrefresh (.nil _))⟩

theorem keyLifetime_iff_sample : ∃ s : Impl,
    TellsLifetime sampleOptions 1700003600 1700010000 s.keyPass.isExpired ∧
      TellsLifetime sampleOptions 1700000000 1700010000 s.keyPass.isOldKeyExpired := by
  have hstart : ∀ now, Traces (({} : Impl).start sampleOptions) (startCall now).2
      (.ret (.ok .ok, sampleServer now)) := fun now => .call (.call (.call (.ret _)))
  obtain ⟨s, hrun⟩ := refreshed_run 1700000000 1700003600
  have hends : ∀ created t, EndKept sampleOptions created t := fun _ _ => .inl (by decide)
  have hpresent := keyLifetime_iff rfl rfl (hstart 1700000000) hrun
    (show (0 : Int64) ≤ 1700003600 by decide) (show (1700003600 : Int64) ≤ 1700010000 by decide)
  have hold := keyLifetime_iff rfl rfl (hstart 1700000000) hrun
    (show (0 : Int64) ≤ 1700000000 by decide) (show (1700000000 : Int64) ≤ 1700010000 by decide)
  exact ⟨s, (hpresent.1 (refreshReturn_setAt _ _)).mpr (hends _ _),
    (hold.2 (refreshReturn_oldSetAt _ _)).mpr (hends _ _)⟩

/-- The options of a server whose keys are to have no end. -/
def lastingOptions : CDFDistAuthServerOptions := { sampleOptions with serverKeyExpiredHours := -1 }

/-- The server that is started with them, before it has a key. -/
def lastingServer (now : Int64) : Impl :=
  { sampleServer now with
    options := lastingOptions
    keyPass := .ofHours lastingOptions.serverKeyExpiredHours.toInt64.toUInt64 }

/-- The same server with its key. -/
def lastingKeyed (now : Int64) : Impl :=
  { lastingServer now with
    keyPass := { (lastingServer now).keyPass with
      key := some (ascii "cipher"), keyLen := 6, newKeyCreateTimeSec := now.toUInt64 } }

theorem lastingServer_started (now : Int64) : Traces (({} : Impl).start lastingOptions)
    (startCall now).2 (.ret (.ok .ok, lastingServer now)) := .call (.call (.call (.ret _)))

theorem lastingServer_keyed (now : Int64) :
    ReturnStep sampleHmac (lastingServer now) (setReturn now) (lastingKeyed now) :=
  ⟨nofun, .call (.call (.call (.ret _)))⟩

/-- A key without an end is expired after a day. -/
theorem lasting_key_expires : ¬ ∀ (O : OpensslHmac) (opt : CDFDistAuthServerOptions)
    (pre s₀ s : Impl) (trStart : List JwtEvent) (calls : List ServerReturn) (created t : Int64),
    pre.started = false → opt.keyTransferMode = .internalKey →
    Traces (pre.start opt) trStart (.ret (.ok .ok, s₀)) → Run (ReturnStep O) s₀ calls s →
    0 ≤ created → created ≤ t → PresentSetAt calls created →
    TellsLifetime opt created t s.keyPass.isExpired := by
  intro hall
  have htells := hall sampleHmac lastingOptions {} _ _ _ _ 1700000000 1700086401 rfl rfl
    (lastingServer_started _) (.cons (lastingServer_keyed _) (.nil _)) (by decide) (by decide)
    (setReturn_setAt _)
  exact absurd (traces_check_iff.mp htells) (by decide)

end CdfCrypto.Jwt
