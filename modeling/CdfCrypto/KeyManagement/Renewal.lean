import CdfCrypto.KeyManagement.Expiry

/-!
# The automatic update

`CheckDomainKeysExpiredAndAutoUpdate` goes through the keys of the domain in order. A key that does
not outlive the 32-bit test time is deleted, created, configured and read again, and the map takes
the creation time that was read. `Renewal` is the part of its traces that ends in OK: the loop is
left early on every failure, so each key was either left alone or has gone through all four
commands.

What the update should establish is said with the exact time (`LeavesValid`); it does exactly where
the 32-bit clock tells the same keys apart, the new times outlive the test time, and there is a key
to begin with (`autoUpdate_renews`).
-/

namespace CdfCrypto.KeyManagement

open Lib OpenbaoKeyManager

/-! ## Traces -/

/-- The key a command is about. -/
def Command.key? : Command → Option (Nat × Nat)
  | .list => none
  | .read d k => some (d, k)
  | .create d k => some (d, k)
  | .config d k _ => some (d, k)
  | .delete d k => some (d, k)
  | .exportKey d k => some (d, k)

/-- A command about the key was run. -/
def CommandOn (d k : Nat) : KmEvent → Prop
  | ⟨.run _ _ cmd, _⟩ => cmd.key? = some (d, k)
  | _ => False

@[simp] theorem commandOn_ran {m : OpenbaoKeyManager} {cmd : Command} {reply : Int × Bytes} {d k : Nat} :
    CommandOn d k (ran m cmd reply) ↔ cmd.key? = some (d, k) := Iff.rfl

/-- Some read told the creation time of the key. -/
def Told (H : KmHost) (tr : List KmEvent) (d k : Nat) (time : Int) : Prop :=
  ∃ ev ∈ tr, Dates H d k time ev

/-- The test of the update, on the 32-bit clock. -/
def TestsExpired (now : Int) (lead : Nat) (createTime : Int) : Prop :=
  createTime + openbaoMaxMasterKeyValidTime ≤ toUint32 now + lead * dayToTime

/-- A creation time the update goes on with. -/
structure Guards (now : Int) (lead : Nat) (createTime : Int) : Prop where
  fits : createTime + openbaoMaxMasterKeyValidTime < 2 ^ 63
  sum : toUint32 now + lead * dayToTime < 2 ^ 32

/-- The loop, where it ends in OK. -/
inductive Renewal (H : KmHost) (d lead : Nat) (now : Int) :
    OpenbaoKeyManager → List (Nat × Int) → List KmEvent → OpenbaoKeyManager → Prop
  | done (m : OpenbaoKeyManager) : Renewal H d lead now m [] [] m
  | kept {m m' : OpenbaoKeyManager} {k : Nat} {c : Int} {keys : List (Nat × Int)} {tr : List KmEvent}
      (hguards : Guards now lead c) (hnot : ¬ TestsExpired now lead c)
      (hrest : Renewal H d lead now m keys tr m') : Renewal H d lead now m ((k, c) :: keys) tr m'
  | renewed {m m' : OpenbaoKeyManager} {k : Nat} {c time : Int} {keys : List (Nat × Int)}
      {tr : List KmEvent} {r₁ r₂ r₃ r₄ : Int × Bytes} (hguards : Guards now lead c)
      (hexpired : TestsExpired now lead c) (hread : Succeeded r₄)
      (htime : getJsonFieldMaxInt H.json r₄.2 = .ok time) (hne : time ≠ -1)
      (hrest : Renewal H d lead now
        { m with domainKeyMap := m.domainKeyMap.setTime d k time } keys tr m') :
      Renewal H d lead now m ((k, c) :: keys)
        (ran m (.delete d k) r₁ :: ran m (.create d k) r₂ ::
          ran m (.config d k [.deletionAllowed]) r₃ :: ran m (.read d k) r₄ :: tr) m'

variable {H : KmHost} {d lead : Nat} {now : Int}

theorem autoUpdateLoop_renewal (keys : List (Nat × Int)) : ∀ m : OpenbaoKeyManager,
    wp (autoUpdateLoop H d lead now m keys) fun tr o => ∀ m', o = .ret (.ok, m') →
      Renewal H d lead now m keys tr m' := by
  induction keys with
  | nil =>
    intro m m' heq
    obtain rfl := (Prod.mk.inj (Outcome.ret.inj heq)).2
    exact .done m
  | cons key keys ih =>
    obtain ⟨k, c⟩ := key
    intro m
    have herror : ∀ {rc : KeyManagerRC} {tr : List KmEvent}, rc ≠ .ok → ∀ m',
        (Outcome.ret (rc, m) : Outcome Fault (KeyManagerRC × OpenbaoKeyManager)) = .ret (.ok, m') →
          Renewal H d lead now m ((k, c) :: keys) tr m' :=
      fun hrc m' heq => absurd (Prod.mk.inj (Outcome.ret.inj heq)).1 hrc
    unfold autoUpdateLoop
    split
    · exact herror (by decide)
    next hover =>
    split
    · exact herror (by decide)
    next hsum =>
    have hbits := toUint32_lt now
    have hguards : Guards now lead c := ⟨by omega, by omega⟩
    split
    rotate_left
    next hnot =>
      exact wp_mono (ih m) fun tr o h m' heq => .kept hguards hnot (h m' heq)
    next hexpired =>
    refine wp_bind_of (handleCommand_traces m d k) (fun tr₁ ret hhandled => ?_)
      fun _ _ _ m' heq => by cases heq
    split
    next hrc => exact herror hrc
    next hrc =>
    obtain rfl : ret = .ok := not_not.mp hrc
    cases hhandled with
    | remade h₁ h₂ h₃ =>
    refine wp_bind.mpr (wp_runCommandAndGetResult ?_ ?_)
    · intro _
      rw [then_ret, if_pos (by decide)]
      exact herror (by decide)
    intro _ r₄
    rw [then_ret]
    split
    · exact herror (by decide)
    next hs =>
    have hs : Succeeded r₄ := not_not.mp hs
    rw [commandResult_of_succeeded hs]
    refine wp_ofExcept_bind (fun time htime => ?_) fun _ _ m' heq => by cases heq
    split
    · exact herror (by decide)
    next hne =>
    exact wp_mono (ih _) fun tr o h m' heq => .renewed hguards hexpired hs htime hne (h m' heq)

/-! ## What becomes of a key -/

theorem DomainKeyMap.time?_setTime {map : DomainKeyMap} {d d' k k' : Nat} {t : Int} :
    (map.setTime d k t).time? d' k' = if d = d' ∧ k = k' then some t else map.time? d' k' := by
  unfold DomainKeyMap.time? DomainKeyMap.setTime
  rw [DomainKeyMap.at'_insert]
  by_cases hd : d = d'
  · subst hd
    rw [if_pos rfl, Std.ExtTreeMap.getElem?_insert]
    simp
  · rw [if_neg hd, if_neg fun h => hd h.1]

/-- A creation time that was told is an `int`. -/
theorem maxIntLoop_lt {keys : List (Bytes × JsonValue)} {time : Int} (members : List (Bytes × JsonValue)) :
    ∀ {ret : Int}, ret < 2 ^ 31 → maxIntLoop keys members ret = .ok time → time < 2 ^ 31 := by
  induction members with
  | nil =>
    intro ret hret h
    obtain rfl := Except.ok.inj h
    exact hret
  | cons member members ih =>
    intro ret hret h
    unfold maxIntLoop at h
    split at h
    · cases h
    next value hvalue =>
    split at h
    · obtain rfl := Except.ok.inj h
      decide
    next tmpInt hint =>
    have htmp : tmpInt < 2 ^ 31 := by
      unfold JsonValue.int? at hint
      split at hint
      next n =>
        split at hint
        · obtain rfl := Option.some.inj hint
          rw [Int.ofNat_eq_natCast]
          omega
        · cases hint
      next n =>
        split at hint
        · obtain rfl := Option.some.inj hint
          omega
        · cases hint
      next => cases hint
    refine ih ?_ h
    split
    · exact htmp
    · exact hret

theorem getJsonFieldMaxInt_lt {J : RapidJson} {text : Bytes} {time : Int}
    (h : getJsonFieldMaxInt J text = .ok time) : time < 2 ^ 31 := by
  unfold getJsonFieldMaxInt at h
  cases hparse : parseJsonAndCheck J text with
  | error x =>
    rw [hparse] at h
    cases h
  | ok keys? =>
    rw [hparse] at h
    cases keys? with
    | none =>
      obtain rfl := Except.ok.inj h
      decide
    | some keys => exact maxIntLoop_lt keys (by decide) h

section Fate

variable {m m' : OpenbaoKeyManager} {keys : List (Nat × Int)} {tr : List KmEvent}

theorem Renewal.sameButMap (h : Renewal H d lead now m keys tr m') : SameButMap m m' := by
  induction h with
  | done m => exact .refl m
  | kept _ _ _ ih => exact ih
  | @renewed m m' k c time _ _ _ _ _ _ _ _ _ _ _ _ ih =>
    have hset : SameButMap m { m with domainKeyMap := m.domainKeyMap.setTime d k time } := rfl
    exact hset.trans ih

theorem Renewal.mem (h : Renewal H d lead now m keys tr m') (hmem : d ∈ m.domainKeyMap) :
    d ∈ m'.domainKeyMap := by
  induction h with
  | done m => exact hmem
  | kept _ _ _ ih => exact ih hmem
  | renewed _ _ _ _ _ _ ih => exact ih (by simp [DomainKeyMap.setTime])

theorem Renewal.guards (h : Renewal H d lead now m keys tr m') {k : Nat} {c : Int}
    (hkey : (k, c) ∈ keys) : Guards now lead c := by
  induction h with
  | done m => exact absurd hkey List.not_mem_nil
  | kept hguards _ _ ih =>
    rcases List.mem_cons.mp hkey with heq | hkey
    · obtain ⟨rfl, rfl⟩ := Prod.mk.inj heq
      exact hguards
    · exact ih hkey
  | renewed hguards _ _ _ _ _ ih =>
    rcases List.mem_cons.mp hkey with heq | hkey
    · obtain ⟨rfl, rfl⟩ := Prod.mk.inj heq
      exact hguards
    · exact ih hkey

/-- The loop runs commands only. -/
theorem Renewal.not_time (h : Renewal H d lead now m keys tr m') (time : Int) :
    (⟨.time, time⟩ : KmEvent) ∉ tr := by
  induction h with
  | done m => exact List.not_mem_nil
  | kept _ _ _ ih => exact ih
  | renewed _ _ _ _ _ _ ih =>
    intro hmem
    refine ih ?_
    simpa [ran] using hmem

/-- A key that is not tested expired is left alone. -/
theorem Renewal.untouched (h : Renewal H d lead now m keys tr m') {k : Nat}
    (hnot : ∀ c, (k, c) ∈ keys → ¬ TestsExpired now lead c) :
    m'.domainKeyMap.time? d k = m.domainKeyMap.time? d k ∧ ∀ ev ∈ tr, ¬ CommandOn d k ev := by
  induction h with
  | done m => exact ⟨rfl, fun ev hev => absurd hev List.not_mem_nil⟩
  | kept _ _ _ ih => exact ih fun c hkey => hnot c (List.mem_cons_of_mem _ hkey)
  | @renewed m m' k' c time keys tr r₁ r₂ r₃ r₄ _ hexpired _ _ _ _ ih =>
    have hne : k' ≠ k := by
      intro heq
      subst heq
      exact hnot c List.mem_cons_self hexpired
    obtain ⟨htime, hquiet⟩ := ih fun c hkey => hnot c (List.mem_cons_of_mem _ hkey)
    constructor
    · rw [htime, DomainKeyMap.time?_setTime, if_neg fun h => hne h.2]
    · intro ev hev
      simp only [List.mem_cons] at hev
      rcases hev with rfl | rfl | rfl | rfl | hev
      · simp [Command.key?, hne]
      · simp [Command.key?, hne]
      · simp [Command.key?, hne]
      · simp [Command.key?, hne]
      · exact hquiet ev hev

/-- A key that is tested expired is made again, and its new creation time is told. -/
theorem Renewal.made (h : Renewal H d lead now m keys tr m') {k : Nat} {c : Int}
    (hkey : (k, c) ∈ keys) (hexpired : TestsExpired now lead c) :
    (∃ time, Told H tr d k time) ∧ ∃ ev ∈ tr, CommandOn d k ev := by
  induction h with
  | done m => exact absurd hkey List.not_mem_nil
  | kept _ hnot _ ih =>
    rcases List.mem_cons.mp hkey with heq | hkey
    · obtain ⟨rfl, rfl⟩ := Prod.mk.inj heq
      exact absurd hexpired hnot
    · exact ih hkey
  | @renewed m m' k' c' time keys tr r₁ r₂ r₃ r₄ _ _ hread htime hne _ ih =>
    rcases List.mem_cons.mp hkey with heq | hkey
    · obtain ⟨rfl, rfl⟩ := Prod.mk.inj heq
      refine ⟨⟨time, ran m (.read d k) r₄, by simp, ⟨rfl, rfl⟩, hread, htime, hne⟩, ?_⟩
      exact ⟨ran m (.delete d k) r₁, List.mem_cons_self, rfl⟩
    · obtain ⟨⟨time', ev, hev, hdates⟩, ev', hev', hon⟩ := ih hkey
      exact ⟨⟨time', ev, by simp [hev], hdates⟩, ev', by simp [hev'], hon⟩

/-- A time that is told is the time of the key afterwards. -/
theorem Renewal.told (h : Renewal H d lead now m keys tr m') (hnodup : (keys.map Prod.fst).Nodup)
    {k : Nat} {time : Int} (htold : Told H tr d k time) :
    m'.domainKeyMap.time? d k = some time ∧ time < 2 ^ 31 := by
  induction h with
  | done m =>
    obtain ⟨ev, hev, -⟩ := htold
    exact absurd hev List.not_mem_nil
  | kept _ _ _ ih => exact ih (List.nodup_cons.mp hnodup).2 htold
  | @renewed m m' k' c' time' keys tr r₁ r₂ r₃ r₄ _ _ hread htime hne hrest ih =>
    obtain ⟨hnew, hnodup⟩ := List.nodup_cons.mp hnodup
    obtain ⟨ev, hev, hdates⟩ := htold
    simp only [List.mem_cons] at hev
    rcases hev with rfl | rfl | rfl | rfl | hev
    · exact hdates.elim
    · exact hdates.elim
    · exact hdates.elim
    · obtain ⟨⟨-, rfl⟩, -, htold, -⟩ := hdates
      obtain rfl : time' = time := Except.ok.inj (htime.symm.trans htold)
      -- the id stands once in the list, so the rest leaves it alone
      have huntouched := hrest.untouched (k := k') fun c hkey =>
        absurd (List.mem_map_of_mem (f := Prod.fst) hkey) hnew
      refine ⟨?_, getJsonFieldMaxInt_lt htime⟩
      rw [huntouched.1, DomainKeyMap.time?_setTime, if_pos ⟨rfl, rfl⟩]
    · exact ih hnodup ⟨ev, hev, hdates⟩

end Fate

/-! ## The whole call -/

theorem checkDomainKeysExpiredParams_eq_ok {m : OpenbaoKeyManager}
    (h : m.checkDomainKeysExpiredParams d lead = .ok) : m.inited = true ∧ d ∈ m.domainKeyMap ∧
      d < m.domainCount.1 ∧ lead ≤ openbaoMaxMasterKeyValidTimeInDays := by
  unfold OpenbaoKeyManager.checkDomainKeysExpiredParams at h
  by_cases hinited : m.inited = true
  rotate_left
  · rw [if_pos hinited] at h
    cases h
  by_cases hempty : m.domainKeyMap.isEmpty = true
  · rw [if_neg (not_not.mpr hinited), if_pos hempty] at h
    cases h
  by_cases hd : m.domainCount.1 ≤ d
  · rw [if_neg (not_not.mpr hinited), if_neg hempty, if_pos hd] at h
    cases h
  by_cases hmem : d ∈ m.domainKeyMap
  rotate_left
  · rw [if_neg (not_not.mpr hinited), if_neg hempty, if_neg hd, if_pos hmem] at h
    cases h
  rw [if_neg (not_not.mpr hinited), if_neg hempty, if_neg hd, if_neg (not_not.mpr hmem)] at h
  by_cases hmax : (2 ^ 32 - 1) / dayToTime < lead
  · rw [if_pos hmax] at h
    cases h
  by_cases hlead : openbaoMaxMasterKeyValidTime < lead * dayToTime
  · rw [if_neg hmax, if_pos hlead] at h
    cases h
  refine ⟨hinited, hmem, by omega, ?_⟩
  exact Nat.le_of_mul_le_mul_right (Nat.le_of_not_lt hlead) (by decide)

/-- A call that ends in OK, by what its loop did. -/
theorem autoUpdate_renewal (H : KmHost) (m : OpenbaoKeyManager) (d lead : Nat) :
    wp (m.checkDomainKeysExpiredAndAutoUpdate H d lead) fun es o => ∀ m', o = .ret (.ok, m') →
      ∃ time tr, es = acquired .exclusive :: ⟨.time, time⟩ :: (tr ++ [released .exclusive]) ∧
        time ≠ -1 ∧ m.checkDomainKeysExpiredParams d lead = .ok ∧
        Renewal H d lead time m (m.domainKeyMap.at' d).toList tr m' := by
  unfold OpenbaoKeyManager.checkDomainKeysExpiredAndAutoUpdate
  rw [wp_locked, Prog.perform_bind]
  intro time
  dsimp only
  split
  · exact fun m' heq => absurd (Prod.mk.inj (Outcome.ret.inj heq)).1 (by decide)
  next hne =>
  split
  next hparams => exact fun m' heq => absurd (Prod.mk.inj (Outcome.ret.inj heq)).1 hparams
  next hparams =>
  refine wp_mono (autoUpdateLoop_renewal _ m) fun tr o h => ?_
  cases o with
  | halt x => exact fun m' heq => nomatch heq
  | ret a =>
    intro m' heq
    exact ⟨time, tr, rfl, hne, not_not.mp hparams, h m' heq⟩

/-- What the update should leave, by the exact time. -/
structure LeavesValid (m : OpenbaoKeyManager) (d lead : Nat) (now : Int) (tr : List KmEvent)
    (m' : OpenbaoKeyManager) : Prop where
  outlive : ∀ k c, m'.domainKeyMap.time? d k = some c →
    now + lead * dayToTime < c + openbaoMaxMasterKeyValidTime
  ids : ∀ k, m'.domainKeyMap.Holds d k ↔ m.domainKeyMap.Holds d k
  kept : ∀ k c, m.domainKeyMap.time? d k = some c →
    now + lead * dayToTime < c + openbaoMaxMasterKeyValidTime →
      m'.domainKeyMap.time? d k = some c ∧ ∀ ev ∈ tr, ¬ CommandOn d k ev
  checks : ∀ answer : (c : Call) → c.Reply, answer .time = now →
    (m'.checkDomainKeysExpired d lead).eval answer = .ret .ok

/-- When it does: the 32-bit clock finds the same keys expired, the times that are told outlive the
time, and some key outlives what the clock makes of it. -/
structure Renewable (H : KmHost) (m : OpenbaoKeyManager) (d lead : Nat) (now : Int)
    (tr : List KmEvent) : Prop where
  clock : ∀ k c, m.domainKeyMap.time? d k = some c →
    (c + openbaoMaxMasterKeyValidTime ≤ toUint32 now + lead * dayToTime ↔
      c + openbaoMaxMasterKeyValidTime ≤ now + lead * dayToTime)
  times : ∀ k time, Told H tr d k time → now + lead * dayToTime < time + openbaoMaxMasterKeyValidTime
  some : ∃ k c, (m.domainKeyMap.time? d k = some c ∨ Told H tr d k c) ∧
    toUint32 now + lead * dayToTime < c + openbaoMaxMasterKeyValidTime

section Update

variable {m m' : OpenbaoKeyManager} {tr : List KmEvent}

/-- No id comes twice in a domain. -/
theorem nodup_ids (m : OpenbaoKeyManager) (d : Nat) :
    ((m.domainKeyMap.at' d).toList.map Prod.fst).Nodup := by
  rw [Std.ExtTreeMap.map_fst_toList_eq_keys]
  exact Std.ExtTreeMap.nodup_keys

/-- A key after the loop: as it was, and not found expired, or with a time that was told. -/
theorem Renewal.origin (h : Renewal H d lead now m (m.domainKeyMap.at' d).toList tr m') {k : Nat}
    {c : Int} (hc : m'.domainKeyMap.time? d k = some c) :
    (m.domainKeyMap.time? d k = some c ∧ ¬ TestsExpired now lead c) ∨ Told H tr d k c := by
  by_cases hold : ∃ c₀, m.domainKeyMap.time? d k = some c₀ ∧ TestsExpired now lead c₀
  · obtain ⟨c₀, hc₀, hexpired⟩ := hold
    obtain ⟨⟨time, htold⟩, -⟩ := h.made (mem_toList_iff_time?.mpr hc₀) hexpired
    have htime := (h.told (nodup_ids m d) htold).1
    obtain rfl : time = c := Option.some.inj (htime.symm.trans hc)
    exact .inr htold
  · have hsame := (h.untouched fun c₀ hkey hexpired =>
      hold ⟨c₀, mem_toList_iff_time?.mp hkey, hexpired⟩).1
    rw [hsame] at hc
    exact .inl ⟨hc, fun hexpired => hold ⟨c, hc, hexpired⟩⟩

theorem Renewal.fit (h : Renewal H d lead now m (m.domainKeyMap.at' d).toList tr m') : TimesFit m' d := by
  intro k c hc
  rcases h.origin hc with ⟨hold, -⟩ | htold
  · exact (h.guards (mem_toList_iff_time?.mpr hold)).fits
  · have hbits := (h.told (nodup_ids m d) htold).2
    have hvalid : (openbaoMaxMasterKeyValidTime : Int) = 157680000 := by decide
    omega

/-- Where the domain has a key, the sum does not wrap. -/
theorem Renewal.testTime_eq (h : Renewal H d lead now m (m.domainKeyMap.at' d).toList tr m')
    {k : Nat} {c : Int} (hc : m.domainKeyMap.time? d k = some c) :
    (testTime now lead : Int) = toUint32 now + lead * dayToTime := by
  have hsum := (h.guards (mem_toList_iff_time?.mpr hc)).sum
  rw [testTime, Nat.mod_eq_of_lt hsum, Int.natCast_add, Int.natCast_mul]

theorem Renewal.ids (h : Renewal H d lead now m (m.domainKeyMap.at' d).toList tr m') (k : Nat) :
    m'.domainKeyMap.Holds d k ↔ m.domainKeyMap.Holds d k := by
  rw [DomainKeyMap.holds_iff_time?, DomainKeyMap.holds_iff_time?]
  by_cases hold : ∃ c, m.domainKeyMap.time? d k = some c ∧ TestsExpired now lead c
  · obtain ⟨c, hc, hexpired⟩ := hold
    obtain ⟨⟨time, htold⟩, -⟩ := h.made (mem_toList_iff_time?.mpr hc) hexpired
    exact ⟨fun _ => ⟨c, hc⟩, fun _ => ⟨time, (h.told (nodup_ids m d) htold).1⟩⟩
  · have hsame := (h.untouched fun c hkey hexpired =>
      hold ⟨c, mem_toList_iff_time?.mp hkey, hexpired⟩).1
    rw [hsame]

/-- Whether the check passes afterwards. -/
theorem Renewal.checks_iff (h : Renewal H d lead now m (m.domainKeyMap.at' d).toList tr m')
    (hparams : m.checkDomainKeysExpiredParams d lead = .ok) (hne : now ≠ -1)
    {answer : (c : Call) → c.Reply} (hanswer : answer .time = now) :
    (m'.checkDomainKeysExpired d lead).eval answer = .ret .ok ↔ Outlives m' d (testTime now lead) := by
  obtain ⟨hinited, hmem, hd, hlead⟩ := checkDomainKeysExpiredParams_eq_ok hparams
  have hsame := h.sameButMap
  have heval := checkDomainKeysExpired_eval (m := m') (hsame.inited.trans hinited) (h.mem hmem)
    (by rw [hsame.domainCount]; exact hd) hlead hanswer hne
  obtain ⟨found, hfound, hret⟩ := heval.1 h.fit
  rw [hret, ← hfound]
  cases found with
  | true => simp
  | false => simp

/-- No key is new. -/
theorem Renewal.before (h : Renewal H d lead now m (m.domainKeyMap.at' d).toList tr m') {k : Nat}
    {c : Int} (hc : m'.domainKeyMap.time? d k = some c) :
    ∃ c₀, m.domainKeyMap.time? d k = some c₀ :=
  DomainKeyMap.holds_iff_time?.mp ((h.ids k).mp (DomainKeyMap.holds_iff_time?.mpr ⟨c, hc⟩))

/-- The clock of a vault whose reads all tell the same time. -/
def clockAnswer (now : Int) : (c : Call) → c.Reply
  | .time => now
  | c => sampleAnswer c

/-- **The loop.** -/
theorem Renewal.leavesValid_iff (h : Renewal H d lead now m (m.domainKeyMap.at' d).toList tr m')
    (hparams : m.checkDomainKeysExpiredParams d lead = .ok) (hne : now ≠ -1) :
    LeavesValid m d lead now tr m' ↔ Renewable H m d lead now tr := by
  -- a key of the map that is not found expired
  have hkept : ∀ {k c}, m.domainKeyMap.time? d k = some c → ¬ TestsExpired now lead c →
      m'.domainKeyMap.time? d k = some c ∧ ∀ ev ∈ tr, ¬ CommandOn d k ev := by
    intro k c hc hnot
    have huntouched := h.untouched (k := k) fun c' hkey => by
      obtain rfl : c = c' := Option.some.inj (hc.symm.trans (mem_toList_iff_time?.mp hkey))
      exact hnot
    exact ⟨huntouched.1.trans hc, huntouched.2⟩
  constructor
  · intro hvalid
    refine ⟨fun k c hc => ⟨fun hexpired => ?_, fun hexact => ?_⟩, fun k time htold => ?_, ?_⟩
    · -- a key that outlives the time would have received a command
      by_contra hout
      obtain ⟨-, ev, hev, hon⟩ := h.made (mem_toList_iff_time?.mpr hc) hexpired
      exact (hvalid.kept k c hc (by omega)).2 ev hev hon
    · by_contra hnot
      have hout := hvalid.outlive k c (hkept hc hnot).1
      omega
    · exact hvalid.outlive k time (h.told (nodup_ids m d) htold).1
    · -- the check that follows, at the time the update saw
      have hok := hvalid.checks (clockAnswer now) rfl
      obtain ⟨k, c, hc, hlt⟩ := (h.checks_iff hparams hne rfl).mp hok
      obtain ⟨c₀, hc₀⟩ := h.before hc
      rw [h.testTime_eq hc₀] at hlt
      exact ⟨k, c, (h.origin hc).imp And.left id, hlt⟩
  · intro hrenewable
    refine ⟨fun k c hc => ?_, h.ids, fun k c hc hout => ?_, fun answer hanswer => ?_⟩
    · rcases h.origin hc with ⟨hold, hnot⟩ | htold
      · by_contra hout
        exact hnot ((hrenewable.clock k c hold).mpr (by omega))
      · exact hrenewable.times k c htold
    · refine hkept hc fun hexpired => ?_
      have hexact := (hrenewable.clock k c hc).mp hexpired
      omega
    · -- the key that will do was kept, or is one of the new ones
      obtain ⟨k, c, hkey, hlt⟩ := hrenewable.some
      have hc : m'.domainKeyMap.time? d k = some c := by
        rcases hkey with hold | htold
        · refine (hkept hold fun hexpired => ?_).1
          unfold TestsExpired at hexpired
          omega
        · exact (h.told (nodup_ids m d) htold).1
      obtain ⟨c₀, hc₀⟩ := h.before hc
      refine (h.checks_iff hparams hne hanswer).mpr ⟨k, c, hc, ?_⟩
      rw [h.testTime_eq hc₀]
      exact hlt

/-- **The automatic update.** Where it returns OK, it has made exactly the expired keys again and
left the domain valid, if and only if the 32-bit clock found the same keys expired as the time
does, the times it was told outlive the time, and there was a key for it to find. -/
theorem autoUpdate_renews
    (htr : Traces (m.checkDomainKeysExpiredAndAutoUpdate H d lead) tr (.ret (.ok, m')))
    (hnow : ⟨.time, now⟩ ∈ tr) :
    LeavesValid m d lead now tr m' ↔ Renewable H m d lead now tr := by
  obtain ⟨time, tr', rfl, hne, hparams, hrenewal⟩ :=
    wp_iff.mp (autoUpdate_renewal H m d lead) _ _ htr m' rfl
  obtain rfl : now = time := by
    have hnot := hrenewal.not_time now
    simpa [acquired, released, hnot] using hnow
  have htold : ∀ k c, Told H (acquired .exclusive :: ⟨.time, now⟩ :: (tr' ++ [released .exclusive])) d k c ↔
      Told H tr' d k c := by
    intro k c
    simp [Told, Dates, acquired, released]
  have hquiet : ∀ k, (∀ ev ∈ acquired .exclusive :: ⟨.time, now⟩ :: (tr' ++ [released .exclusive]),
      ¬ CommandOn d k ev) ↔ ∀ ev ∈ tr', ¬ CommandOn d k ev := by
    intro k
    constructor
    · intro hall ev hev
      exact hall ev (by simp [hev])
    · intro hall ev hev
      simp only [List.mem_cons, List.mem_append, List.not_mem_nil, or_false] at hev
      rcases hev with rfl | rfl | hev | rfl
      · exact id
      · exact id
      · exact hall ev hev
      · exact id
  have hiff := hrenewal.leavesValid_iff hparams hne
  constructor
  · intro h
    have hrenewable := hiff.mp ⟨h.outlive, h.ids,
      fun k c hc hout => (h.kept k c hc hout).imp id (hquiet k).mp, h.checks⟩
    refine ⟨hrenewable.clock, fun k t ht => hrenewable.times k t ((htold k t).mp ht), ?_⟩
    obtain ⟨k, c, hkey, hlt⟩ := hrenewable.some
    exact ⟨k, c, hkey.imp id (htold k c).mpr, hlt⟩
  · intro h
    obtain ⟨k, c, hkey, hlt⟩ := h.some
    have hvalid := hiff.mpr ⟨h.clock, fun k t ht => h.times k t ((htold k t).mpr ht),
      k, c, hkey.imp id (htold k c).mp, hlt⟩
    exact ⟨hvalid.outlive, hvalid.ids,
      fun k c hc hout => (hvalid.kept k c hc hout).imp id (hquiet k).mpr, hvalid.checks⟩

/-! ## A lead of five years -/

theorem told_clockAnswer {α : Type} {p : Km α} {k : Nat} {time : Int}
    (h : Told sampleHost (p.runWith (clockAnswer now)).1 d k time) : time = 1700000000 := by
  obtain ⟨ev, hev, hdates⟩ := h
  have hanswer := mem_runWith hev
  obtain ⟨c, reply⟩ := ev
  cases c with
  | run exePath token cmd =>
    cases cmd with
    | read d' k' =>
      obtain ⟨-, -, htime, -⟩ := hdates
      have hreply : reply = (0, ascii "time") := eq_of_heq (Sigma.mk.inj hanswer).2
      rw [hreply] at htime
      have htold : getJsonFieldMaxInt sampleHost.json (ascii "time") = .ok 1700000000 := by
        decide +kernel
      exact Except.ok.inj (htime.symm.trans htold)
    | _ => exact hdates.elim
  | _ => exact hdates.elim

/-- The manager of a call that returns OK. -/
def okAfter : Outcome Fault (KeyManagerRC × OpenbaoKeyManager) → Option OpenbaoKeyManager
  | .ret (.ok, m) => some m
  | _ => none

theorem okAfter_eq_some {o : Outcome Fault (KeyManagerRC × OpenbaoKeyManager)}
    (h : okAfter o = some m) : o = .ret (.ok, m) := by
  unfold okAfter at h
  split at h
  · obtain rfl := Option.some.inj h
    rfl
  · cases h

/-- A run of the update, with the key it leaves. -/
theorem sample_update (m : OpenbaoKeyManager) (lead : Nat) (now : Int)
    (hrun : (okAfter ((m.checkDomainKeysExpiredAndAutoUpdate sampleHost 0 lead).eval
      (clockAnswer now))).map (fun m => m.domainKeyMap.time? 0 3) = some (some 1700000000)) :
    ∃ m', Traces (m.checkDomainKeysExpiredAndAutoUpdate sampleHost 0 lead)
      ((m.checkDomainKeysExpiredAndAutoUpdate sampleHost 0 lead).runWith
        (clockAnswer now)).1 (.ret (.ok, m')) ∧ m'.domainKeyMap.time? 0 3 = some 1700000000 := by
  obtain ⟨m', hafter, htime⟩ := Option.map_eq_some_iff.mp hrun
  exact ⟨m', traces_of_eval (okAfter_eq_some hafter), htime⟩

/-- The key is made again in the second of the call, and is expired five years later as before. -/
theorem autoUpdate_keeps_expired : ¬ ∀ (H : KmHost) (m : OpenbaoKeyManager) (d lead : Nat) (now : Int)
    (tr : List KmEvent) (m' : OpenbaoKeyManager), m.inited = true →
      m.checkDomainKeysExpiredParams d lead = .ok →
      Traces (m.checkDomainKeysExpiredAndAutoUpdate H d lead) tr (.ret (.ok, m')) →
      ⟨.time, now⟩ ∈ tr → (∀ k time, Told H tr d k time → now ≤ time) →
        LeavesValid m d lead now tr m' := by
  intro hall
  obtain ⟨m', htr, htime⟩ := sample_update sampleManager 1825 1700000000 (by decide +kernel)
  have hmem : (⟨.time, 1700000000⟩ : KmEvent) ∈ ((sampleManager.checkDomainKeysExpiredAndAutoUpdate
      sampleHost 0 1825).runWith (clockAnswer 1700000000)).1 :=
    List.mem_cons_of_mem _ List.mem_cons_self
  have hvalid := hall sampleHost sampleManager 0 1825 1700000000 _ m' rfl (by decide) htr hmem
    fun k time htold => Int.le_of_eq (told_clockAnswer htold).symm
  exact absurd (hvalid.outlive 3 1700000000 htime) (by decide)

/-- Domain 0 with an expired key and one that is not. -/
def mixedManager : OpenbaoKeyManager :=
  { sampleManager with
    domainKeyMap := DomainKeyMap.addKey (DomainKeyMap.addKey ∅ 0 3 1600000000) 0 5 1700000000 }

theorem time?_mixedManager {k : Nat} {c : Int} (h : mixedManager.domainKeyMap.time? 0 k = some c) :
    c = 1600000000 ∨ c = 1700000000 := by
  unfold mixedManager at h
  rw [DomainKeyMap.time?_addKey, DomainKeyMap.time?_addKey] at h
  split at h
  · exact .inr (Option.some.inj h).symm
  split at h
  · exact .inl (Option.some.inj h).symm
  · cases h

theorem autoUpdate_renews_sample : ∃ tr m',
    Traces (mixedManager.checkDomainKeysExpiredAndAutoUpdate sampleHost 0 0) tr (.ret (.ok, m')) ∧
      m'.domainKeyMap.time? 0 3 = some 1700000000 ∧
        LeavesValid mixedManager 0 0 1800000000 tr m' := by
  obtain ⟨m', htr, htime⟩ := sample_update mixedManager 0 1800000000 (by decide +kernel)
  have hmem : (⟨.time, 1800000000⟩ : KmEvent) ∈ ((mixedManager.checkDomainKeysExpiredAndAutoUpdate
      sampleHost 0 0).runWith (clockAnswer 1800000000)).1 :=
    List.mem_cons_of_mem _ List.mem_cons_self
  refine ⟨_, m', htr, htime, (autoUpdate_renews htr hmem).mpr
    ⟨fun k c hc => ?_, fun k time htold => ?_, ?_⟩⟩
  · rcases time?_mixedManager hc with rfl | rfl <;> decide
  · rw [told_clockAnswer htold]
    decide
  · exact ⟨5, 1700000000, .inl (by decide +kernel), by decide⟩

end Update

end CdfCrypto.KeyManagement
