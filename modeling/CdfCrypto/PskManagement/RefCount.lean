import CdfCrypto.PskManagement.Atomicity

/-!
# Counting `Init` and `UnInit`

`initCount_` is the one thing `Init` and `UnInit` have in common: every
successful `Init` counts up, every `UnInit` down, and only the outermost pair
reaches the key manager. `Tally` keeps beside a run what that is meant to
amount to, and `CallMatches` says what a call must do to agree with it.

`refCount_of_run` is exact: as long as every call meets `KeepsCount`, the manager
is inited while the tally is positive, and the next call agrees with the tally
if and only if it meets `KeepsCount` too. What that excludes is

* an `Init` that would take the counter past the largest `int`;
* an `Init` with acceptable options that the key manager refuses: the options are
  stored before the key manager is asked;
* a closing `UnInit` that the key manager refuses: the counter is down already
  and the PSKs stay;
* a closing `UnInit` after a `LoadAllPsk` under `VAULT`: the load reset the
  options, so it is the other key manager that is closed.
-/

namespace CdfCrypto.PskManagement

open Lib

/-! ## The tally -/

/-- The calls made so far. -/
structure Tally where
  /-- Successful `Init`s less `UnInit`s, floored at 0. -/
  count : Nat := 0
  /-- The key manager type of the `Init` that brought the count to one. -/
  owner : KeyManagerTy := .unknown
  /-- A `LoadAllPsk` has got past its checks since that `Init`. -/
  loaded : Bool := false

/-- The tally after a call made in state `s` and answered with `r`. -/
def Tally.record (s : PskManager) (l : Call × World) (r : Reply) (t : Tally) : Tally :=
  match l.1 with
  | .init opt =>
    if r.rc ≠ .ok then t
    else if t.count = 0 then { count := 1, owner := opt.keyManagerType }
    else { t with count := t.count + 1 }
  | .unInit => { t with count := t.count - 1 }
  | .loadAllPsk pskList =>
    if s.checkInited = true ∧ pskList ≠ [] then { t with loaded := true } else t
  | .generatePsk _ | .importPsk _ _ | .updatePsk _ _ | .deletePsk _ => t

/-- One call with its tally. -/
def tallyStep (H : Host) (p : PskManager × Tally) (l : Call × World) (p' : PskManager × Tally) :
    Prop :=
  ∃ r, exec H l.2 p.1 l.1 = some (p'.1, r) ∧ p'.2 = p.2.record p.1 l r

/-! ## The key manager `UnInit` reaches -/

/-- The type of the key manager whose own `UnInit` is called, if one is. -/
def unInitBorrows (s : PskManager) : Option KeyManagerTy :=
  if wrapInt32 (s.initCount - 1) = 0 ∧ borrows s.options.keyManagerType = true then
    some s.options.keyManagerType
  else none

/-- With a key manager to call, its answer decides; nothing else is asked. -/
theorem unInit_of_borrows {w : World} {s : PskManager} {ty : KeyManagerTy}
    (h : unInitBorrows s = some ty) :
    unInit w s =
      if w.kmUnInit ty ≠ .ok then answer { s with initCount := 0 } .initFailed else answer {} .ok := by
  unfold unInitBorrows at h
  split at h
  · next hclose =>
    cases h
    unfold unInit
    dsimp only
    rw [hclose.1, if_neg (by omega), if_neg (by omega), if_neg (by simp [hclose.2])]
  · cases h

/-! ## What a call must do -/

/-- A call made in state `p` does what the tally says: afterwards the manager is
inited exactly when the count is positive; an `Init` that fails changes
nothing; an `UnInit` that brings the count to zero calls `UnInit` on the key
manager of the owner's type and leaves no PSK and the counter at 1. -/
def CallMatches (H : Host) (p : PskManager × Tally) (l : Call × World) : Prop :=
  ∀ s' r, exec H l.2 p.1 l.1 = some (s', r) →
    (s'.checkInited = true ↔ 0 < (p.2.record p.1 l r).count) ∧
    match l.1 with
    | .init _ => r.rc ≠ .ok → s' = p.1
    | .unInit => p.2.count = 1 → unInitBorrows p.1 = some p.2.owner ∧
        s'.pskIdMap = ∅ ∧ s'.pskContentMap = ∅ ∧ s'.curPskMaxId = 1
    | .generatePsk _ | .importPsk _ _ | .updatePsk _ _ | .deletePsk _ | .loadAllPsk _ => True

/-- The calls that keep count. -/
def KeepsCount (p : PskManager × Tally) (l : Call × World) : Prop :=
  match l.1 with
  | .init opt =>
    if p.2.count = 0 then
      validateInitOptions l.2 opt = .ok →
        l.2.kmInit opt.keyManagerType (opt.exePath.getD []) (opt.accessToken.getD [])
          opt.domainCount = .ok ∨ p.1.options = opt
    else p.2.count < 2 ^ 31 - 1
  | .unInit =>
    p.2.count = 1 →
      (p.2.loaded = true → p.2.owner = .openbao) ∧
      (l.2.kmUnInit p.2.owner = .ok ∨
        p.1.pskIdMap = ∅ ∧ p.1.pskContentMap = ∅ ∧ p.1.curPskMaxId = 1)
  | .generatePsk _ | .importPsk _ _ | .updatePsk _ _ | .deletePsk _ | .loadAllPsk _ => True

/-- The invariant: the counter is the tally's count, and the stored options name
the owner's key manager unless a load has reset them. -/
structure Tallied (s : PskManager) (t : Tally) : Prop where
  count : s.initCount = t.count
  range : t.count < 2 ^ 31
  owner : 0 < t.count → t.owner = .openbao ∨ t.owner = .vault
  options : 0 < t.count →
    s.options.keyManagerType = if t.loaded then KeyManagerTy.openbao else t.owner

theorem tallied_fresh : Tallied {} {} where
  count := rfl
  range := by decide
  owner h := absurd h (by decide)
  options h := absurd h (by decide)

theorem Tallied.checkInited {s : PskManager} {t : Tally} (h : Tallied s t) :
    s.checkInited = true ↔ 0 < t.count := by
  unfold PskManager.checkInited
  rw [h.count]
  simp

/-- Counting within `int`. -/
theorem wrapInt32_of_lt {n : Int} (hlo : -(2 ^ 31) ≤ n) (hhi : n < 2 ^ 31) : wrapInt32 n = n := by
  unfold wrapInt32
  rw [Int.bmod_def]
  split <;> omega

/-- The counter goes from the largest `int` to the smallest. -/
theorem wrapInt32_max : wrapInt32 (2 ^ 31) = -(2 ^ 31) := by decide

/-! ## `Init` -/

theorem init_open {w : World} {s : PskManager} {opt : PsKManagerInitOptions}
    (hin : s.checkInited = true) :
    init w s opt = answer { s with initCount := wrapInt32 (s.initCount + 1) } .ok :=
  if_pos hin

theorem init_invalid {w : World} {s : PskManager} {opt : PsKManagerInitOptions}
    (hin : s.checkInited = false) (hv : validateInitOptions w opt ≠ .ok) :
    init w s opt = answer s (validateInitOptions w opt) := by
  unfold init
  rw [if_neg (by simp [hin]), if_pos hv]

/-- With valid options the key manager is the only thing left to fail. -/
theorem init_valid {w : World} {s : PskManager} {opt : PsKManagerInitOptions}
    (hin : s.checkInited = false) (hv : validateInitOptions w opt = .ok) :
    init w s opt =
      if w.kmInit opt.keyManagerType (opt.exePath.getD []) (opt.accessToken.getD [])
          opt.domainCount ≠ .ok then
        answer { s with options := opt } .initFailed
      else answer { s with options := opt, initCount := wrapInt32 (s.initCount + 1) } .ok := by
  have hborrows : borrows opt.keyManagerType = true := by
    rcases (validateInitOptions_ok hv).2.1 with hty | hty <;> rw [hty] <;> rfl
  unfold init
  rw [if_neg (by simp [hin]), if_neg (by simp [hv]), if_neg (by simp [hborrows])]

/-- The result of a call settles what it has to match. -/
theorem callMatches_of_eq {H : Host} {p : PskManager × Tally} {l : Call × World} {s₁ : PskManager}
    {r₁ : Reply} (h : exec H l.2 p.1 l.1 = some (s₁, r₁)) :
    CallMatches H p l ↔
      (s₁.checkInited = true ↔ 0 < (p.2.record p.1 l r₁).count) ∧
      match l.1 with
      | .init _ => r₁.rc ≠ .ok → s₁ = p.1
      | .unInit => p.2.count = 1 → unInitBorrows p.1 = some p.2.owner ∧
          s₁.pskIdMap = ∅ ∧ s₁.pskContentMap = ∅ ∧ s₁.curPskMaxId = 1
      | .generatePsk _ | .importPsk _ _ | .updatePsk _ _ | .deletePsk _ | .loadAllPsk _ => True := by
  constructor
  · intro hall
    exact hall s₁ r₁ h
  · intro hmatch s' r hexec
    rw [h] at hexec
    cases hexec
    exact hmatch

theorem Tallied.init_matches {H : Host} {w : World} {s : PskManager} {t : Tally}
    {opt : PsKManagerInitOptions} (h : Tallied s t) :
    CallMatches H (s, t) (.init opt, w) ↔ KeepsCount (s, t) (.init opt, w) := by
  by_cases hzero : t.count = 0
  · have hin : s.checkInited = false := by
      have := h.checkInited
      rw [hzero] at this
      simpa using this
    have hcount : s.initCount = 0 := by
      rw [h.count, hzero]
      rfl
    simp only [KeepsCount, hzero, if_true]
    by_cases hv : validateInitOptions w opt = .ok
    · by_cases hkm : w.kmInit opt.keyManagerType (opt.exePath.getD []) (opt.accessToken.getD [])
          opt.domainCount = .ok
      · have hexec : exec H w s (.init opt) = some (_, _) :=
          (init_valid hin hv).trans (if_neg (not_not.mpr hkm))
        rw [callMatches_of_eq (p := (s, t)) (l := (.init opt, w)) hexec]
        simp [Tally.record, PskManager.checkInited, hzero, hkm, hcount,
          wrapInt32_of_lt (show -(2 ^ 31) ≤ (1 : Int) by decide) (by decide)]
      · -- the options are stored although the key manager refused them
        have hexec : exec H w s (.init opt) = some (_, _) := (init_valid hin hv).trans (if_pos hkm)
        rw [callMatches_of_eq (p := (s, t)) (l := (.init opt, w)) hexec]
        have hsame : { s with options := opt } = s ↔ s.options = opt := by
          constructor
          · intro heq
            rw [← heq]
          · intro heq₂
            subst heq₂
            rfl
        dsimp only
        rw [hsame]
        simp [Tally.record, PskManager.checkInited, hzero, hkm, hv, hcount]
    · have hexec : exec H w s (.init opt) = some (_, _) := init_invalid hin hv
      rw [callMatches_of_eq (p := (s, t)) (l := (.init opt, w)) hexec]
      simp [Tally.record, hzero, hv, hin]
  · have hin : s.checkInited = true := h.checkInited.mpr (by omega)
    have hrange := h.range
    have hexec : exec H w s (.init opt) = some (_, _) := init_open hin
    rw [callMatches_of_eq (p := (s, t)) (l := (.init opt, w)) hexec]
    simp only [KeepsCount, hzero, if_false, Tally.record, PskManager.checkInited, h.count]
    by_cases hmax : t.count < 2 ^ 31 - 1
    · have hbelow : t.count < 2147483647 := hmax
      rw [wrapInt32_of_lt (by omega) (by omega)]
      simp [hbelow]
    · -- one more and the counter is negative
      have hreached : ¬ t.count < 2147483647 := hmax
      rw [show ((t.count : Int) + 1) = 2 ^ 31 by omega, wrapInt32_max]
      simp [hreached]

/-! ## `UnInit` -/

/-- An `UnInit` that does not close only counts. -/
theorem unInit_counts {w : World} {s : PskManager} (h : wrapInt32 (s.initCount - 1) ≠ 0) :
    unInit w s =
      answer
        { s with
          initCount :=
            if wrapInt32 (s.initCount - 1) < 0 then 0 else wrapInt32 (s.initCount - 1) } .ok := by
  unfold unInit
  dsimp only
  by_cases hneg : wrapInt32 (s.initCount - 1) < 0
  · rw [if_pos hneg, if_pos hneg]
  · rw [if_neg hneg, if_neg hneg, if_pos (by omega)]

theorem Tallied.wrap {s : PskManager} {t : Tally} (h : Tallied s t) :
    wrapInt32 (s.initCount - 1) = (t.count : Int) - 1 := by
  have hrange := h.range
  rw [h.count]
  exact wrapInt32_of_lt (by omega) (by omega)

/-- The closing `UnInit` reaches the key manager the options name. -/
theorem Tallied.unInitBorrows_eq {s : PskManager} {t : Tally} (h : Tallied s t)
    (hone : t.count = 1) :
    unInitBorrows s = some (if t.loaded then KeyManagerTy.openbao else t.owner) := by
  have hpos : 0 < t.count := by omega
  have hopt := h.options hpos
  have hborrows : borrows s.options.keyManagerType = true := by
    rw [hopt]
    split
    · rfl
    · rcases h.owner hpos with hty | hty <;> rw [hty] <;> rfl
  unfold unInitBorrows
  rw [if_pos ⟨by rw [h.wrap, hone]; rfl, hborrows⟩, hopt]

theorem unInit_returns (w : World) (s : PskManager) : ∃ s' r, unInit w s = some (s', r) := by
  unfold unInit answer
  dsimp only
  repeat' split
  all_goals exact ⟨_, _, rfl⟩

theorem Tallied.unInit_matches {H : Host} {w : World} {s : PskManager} {t : Tally}
    (h : Tallied s t) :
    CallMatches H (s, t) (.unInit, w) ↔ KeepsCount (s, t) (.unInit, w) := by
  by_cases hone : t.count = 1
  · have hborrows := h.unInitBorrows_eq hone
    simp only [KeepsCount, hone, true_imp_iff]
    by_cases hty : t.loaded = true → t.owner = .openbao
    · -- the options name the owner, with or without a load
      have howner : (if t.loaded then KeyManagerTy.openbao else t.owner) = t.owner := by
        split
        · next hloaded => exact (hty hloaded).symm
        · rfl
      rw [howner] at hborrows
      by_cases hkm : w.kmUnInit t.owner = .ok
      · have hexec : exec H w s .unInit = some (_, _) :=
          (unInit_of_borrows hborrows).trans (if_neg (not_not.mpr hkm))
        rw [callMatches_of_eq (p := (s, t)) (l := (.unInit, w)) hexec]
        simp [Tally.record, PskManager.checkInited, hone, hborrows, hkm]
        exact hty
      · have hexec : exec H w s .unInit = some (_, _) :=
          (unInit_of_borrows hborrows).trans (if_pos hkm)
        rw [callMatches_of_eq (p := (s, t)) (l := (.unInit, w)) hexec]
        simp [Tally.record, PskManager.checkInited, hone, hborrows, hkm]
        exact fun _ _ _ => hty
    · -- a load under `VAULT`: the other key manager is called, whatever it answers
      constructor
      · intro hmatch
        obtain ⟨s', r, hexec⟩ := unInit_returns w s
        have hcalls := ((hmatch s' r hexec).2 hone).1
        rw [show unInitBorrows (s, t).1 = _ from hborrows] at hcalls
        have hloaded : t.loaded = true := by
          by_contra hno
          exact hty fun hyes => absurd hyes hno
        rw [if_pos hloaded] at hcalls
        exact absurd (fun _ => (Option.some.inj hcalls).symm) hty
      · intro hkeeps
        exact absurd hkeeps.1 hty
  · have hne : wrapInt32 (s.initCount - 1) ≠ 0 := by
      rw [h.wrap]
      omega
    have hexec : exec H w s .unInit = some (_, _) := unInit_counts hne
    rw [callMatches_of_eq (p := (s, t)) (l := (.unInit, w)) hexec, h.wrap]
    simp only [KeepsCount, Tally.record, PskManager.checkInited, hone, false_imp_iff, and_true,
      iff_true, decide_eq_true_eq]
    split
    · omega
    · omega

/-! ## The other calls -/

/-- An edit keeps the counter and the options. -/
theorem exec_edit {H : Host} {w : World} {s s' : PskManager} {call : Call} {r : Reply}
    (hedit : call.EditsOnePsk) (hexec : exec H w s call = some (s', r)) :
    s'.initCount = s.initCount ∧ s'.options = s.options := by
  cases call with
  | init opt => exact hedit.elim
  | unInit => exact hedit.elim
  | generatePsk pskParam =>
    rcases generatePsk_cases hexec with ⟨rfl, -⟩ | ⟨_, _, -, -, rfl, -⟩ <;> exact ⟨rfl, rfl⟩
  | importPsk pskParam content =>
    rcases importPsk_cases hexec with ⟨rfl, -⟩ | ⟨_, -, rfl, -⟩ <;> exact ⟨rfl, rfl⟩
  | updatePsk pskId content =>
    rcases updatePsk_cases hexec with ⟨rfl, -⟩ | ⟨_, _, _, -, -, -, -, -, rfl, -⟩ <;>
      exact ⟨rfl, rfl⟩
  | deletePsk pskId =>
    rcases deletePsk_cases hexec with ⟨rfl, -⟩ | ⟨_, -, -, -, rfl, -⟩ <;> exact ⟨rfl, rfl⟩
  | loadAllPsk pskList => exact hedit.elim

/-- What neither counts nor closes keeps the count. -/
theorem exec_initCount {H : Host} {w : World} {s s' : PskManager} {call : Call} {r : Reply}
    (hcall : ∀ opt, call ≠ .init opt) (hcall' : call ≠ .unInit)
    (hexec : exec H w s call = some (s', r)) : s'.initCount = s.initCount := by
  cases call with
  | init opt => exact absurd rfl (hcall opt)
  | unInit => exact absurd rfl hcall'
  | loadAllPsk pskList =>
    rcases loadAllPsk_cases hexec with ⟨rfl, -⟩ | ⟨-, -, rfl, -⟩
    · rfl
    · rw [foldl_addEntry]
      rfl
  | _ =>
    refine (exec_edit ?_ hexec).1
    trivial

theorem Tallied.matches_iff {H : Host} {s : PskManager} {t : Tally} (h : Tallied s t)
    (l : Call × World) : CallMatches H (s, t) l ↔ KeepsCount (s, t) l := by
  obtain ⟨call, w⟩ := l
  -- a call that keeps the counter and the count matches, and is not constrained
  have hother : (∀ opt, call ≠ .init opt) → call ≠ .unInit →
      ∀ s' r, exec H w s call = some (s', r) → (s'.checkInited = true ↔ 0 < t.count) := by
    intro hcall hcall' s' r hexec
    have hcount := exec_initCount hcall hcall' hexec
    have hin := h.checkInited
    unfold PskManager.checkInited at hin ⊢
    rwa [hcount]
  cases call with
  | init opt => exact h.init_matches
  | unInit => exact h.unInit_matches
  | loadAllPsk pskList =>
    refine iff_of_true (fun s' r hexec => ⟨?_, trivial⟩) trivial
    rw [hother (by simp) (by simp) s' r hexec]
    show 0 < t.count ↔ 0 < (Tally.record s (.loadAllPsk pskList, w) r t).count
    simp only [Tally.record]
    split
    · rfl
    · rfl
  | _ =>
    exact iff_of_true (fun s' r hexec => ⟨hother (by simp) (by simp) s' r hexec, trivial⟩) trivial

/-! ## Runs -/

/-- The invariant is about the counter and the options alone. -/
theorem Tallied.frame {s s' : PskManager} {t : Tally} (h : Tallied s t)
    (hcount : s'.initCount = s.initCount) (hoptions : s'.options = s.options) : Tallied s' t where
  count := hcount.trans h.count
  range := h.range
  owner := h.owner
  options := by
    rw [hoptions]
    exact h.options

theorem Tallied.edit {H : Host} {w : World} {s s' : PskManager} {t : Tally} {call : Call} {r : Reply}
    (h : Tallied s t) (hedit : call.EditsOnePsk) (hexec : exec H w s call = some (s', r)) :
    Tallied s' t := by
  obtain ⟨hcount, hoptions⟩ := exec_edit hedit hexec
  exact h.frame hcount hoptions

theorem Tallied.init {w : World} {s s' : PskManager} {t : Tally} {opt : PsKManagerInitOptions}
    {r : Reply} (h : Tallied s t) (hcond : KeepsCount (s, t) (.init opt, w))
    (hexec : init w s opt = some (s', r)) : Tallied s' (t.record s (.init opt, w) r) := by
  by_cases hzero : t.count = 0
  · have hin : s.checkInited = false := by
      have := h.checkInited
      rw [hzero] at this
      simpa using this
    have hclosed : ∀ options, Tallied { s with options } t := fun options =>
      ⟨h.count, h.range, h.owner, fun hpos => by omega⟩
    by_cases hv : validateInitOptions w opt = .ok
    · rw [init_valid hin hv] at hexec
      split at hexec
      · cases hexec
        exact hclosed opt
      · cases hexec
        have hone : wrapInt32 (s.initCount + 1) = 1 := by
          rw [h.count, hzero]
          rfl
        simp only [Tally.record, hzero, ne_eq, not_true_eq_false, if_true, if_false]
        exact ⟨hone, show 1 < 2 ^ 31 by decide, fun _ => (validateInitOptions_ok hv).2.1, fun _ => rfl⟩
    · rw [init_invalid hin hv] at hexec
      cases hexec
      simp only [Tally.record, ne_eq, hv, not_false_eq_true, if_true]
      exact h
  · have hmax : t.count < 2 ^ 31 - 1 := by simpa [KeepsCount, hzero] using hcond
    rw [init_open (h.checkInited.mpr (by omega))] at hexec
    cases hexec
    have hnext : wrapInt32 (s.initCount + 1) = (t.count : Int) + 1 := by
      rw [h.count]
      exact wrapInt32_of_lt (by omega) (by omega)
    simp only [Tally.record, hzero, ne_eq, not_true_eq_false, if_false]
    exact ⟨hnext, by show t.count + 1 < 2 ^ 31; omega, fun _ => h.owner (by omega),
      fun _ => h.options (by omega)⟩

theorem Tallied.unInit {w : World} {s s' : PskManager} {t : Tally} {r : Reply} (h : Tallied s t)
    (hexec : unInit w s = some (s', r)) : Tallied s' (t.record s (.unInit, w) r) := by
  have hrange := h.range
  show Tallied s' { t with count := t.count - 1 }
  by_cases hone : t.count = 1
  · obtain ⟨ty, hty⟩ : ∃ ty, unInitBorrows s = some ty := ⟨_, h.unInitBorrows_eq hone⟩
    rw [unInit_of_borrows hty] at hexec
    have hzero : ∀ s' : PskManager, s'.initCount = 0 → Tallied s' { t with count := t.count - 1 } :=
      fun s' hs => ⟨by rw [hs, hone]; rfl, by show t.count - 1 < 2 ^ 31; omega,
        fun hpos => h.owner (by omega), fun hpos => absurd hpos (by simp [hone])⟩
    split at hexec
    · cases hexec
      exact hzero _ rfl
    · cases hexec
      exact hzero _ rfl
  · have hne : wrapInt32 (s.initCount - 1) ≠ 0 := by
      rw [h.wrap]
      omega
    rw [unInit_counts hne] at hexec
    cases hexec
    have hpos : 0 < t.count - 1 → 0 < t.count := fun hlt => by omega
    refine ⟨?_, by show t.count - 1 < 2 ^ 31; omega, fun hlt => h.owner (hpos hlt),
      fun hlt => h.options (hpos hlt)⟩
    dsimp only
    rw [h.wrap]
    split
    · omega
    · omega

theorem Tallied.loadAllPsk {H : Host} {w : World} {s s' : PskManager} {t : Tally}
    {pskList : List Bytes} {r : Reply} (h : Tallied s t)
    (hexec : loadAllPsk H w s pskList = some (s', r)) :
    Tallied s' (t.record s (.loadAllPsk pskList, w) r) := by
  rcases loadAllPsk_cases hexec with ⟨rfl, -, hno⟩ | ⟨hin, hne, rfl, -⟩
  · have hrec : t.record s' (.loadAllPsk pskList, w) r = t := if_neg hno
    rwa [hrec]
  · have hrec : t.record s (.loadAllPsk pskList, w) r = { t with loaded := true } :=
      if_pos ⟨hin, hne⟩
    rw [hrec, foldl_addEntry]
    exact ⟨h.count, h.range, h.owner, fun _ => rfl⟩

/-- **Every call that keeps count keeps the invariant.** -/
theorem tallyStep_tallied {H : Host} {s s' : PskManager} {t t' : Tally} {l : Call × World}
    (h : Tallied s t) (hcond : KeepsCount (s, t) l) (hstep : tallyStep H (s, t) l (s', t')) :
    Tallied s' t' := by
  obtain ⟨call, w⟩ := l
  obtain ⟨r, hexec, htally⟩ := hstep
  dsimp only at hexec htally
  subst htally
  cases call with
  | init opt => exact h.init hcond hexec
  | unInit => exact h.unInit hexec
  | generatePsk pskParam =>
    exact h.edit (show Call.EditsOnePsk (.generatePsk pskParam) from trivial) hexec
  | importPsk pskParam content =>
    exact h.edit (show Call.EditsOnePsk (.importPsk pskParam content) from trivial) hexec
  | updatePsk pskId content =>
    exact h.edit (show Call.EditsOnePsk (.updatePsk pskId content) from trivial) hexec
  | deletePsk pskId =>
    exact h.edit (show Call.EditsOnePsk (.deletePsk pskId) from trivial) hexec
  | loadAllPsk pskList => exact h.loadAllPsk hexec

/-- **Reference counting.** After every run from a fresh manager whose calls keep
count, the manager is inited exactly while the count is positive, and the next
call does what the tally says if and only if it keeps count too. -/
theorem refCount_of_run {H : Host} {ls : List (Call × World)} {s : PskManager} {t : Tally}
    (hrun : Run (Guarded KeepsCount (tallyStep H)) ({}, {}) ls (s, t)) :
    (s.checkInited = true ↔ 0 < t.count) ∧
    ∀ l : Call × World, CallMatches H (s, t) l ↔ KeepsCount (s, t) l := by
  have h := Run.invariant (I := fun p : PskManager × Tally => Tallied p.1 p.2)
    (fun _ _ _ h ⟨hcond, hstep⟩ => tallyStep_tallied h hcond hstep) hrun tallied_fresh
  exact ⟨h.checkInited, h.matches_iff⟩

/-- Two `Init`s: the next `UnInit` closes nothing and matches. -/
theorem refCount_of_run_nested :
    ∃ s t, Run (Guarded KeepsCount (tallyStep sampleHost)) ({}, {})
        [(.init sampleOptions, quietWorld), (.init sampleOptions, quietWorld)] (s, t) ∧
      t.count = 2 ∧ s.checkInited = true ∧
      CallMatches sampleHost (s, t) (.unInit, quietWorld) := by
  have hfirst : Guarded KeepsCount (tallyStep sampleHost) ({}, {}) (.init sampleOptions, quietWorld)
      ({ options := sampleOptions, initCount := 1 }, { count := 1, owner := .openbao }) :=
    ⟨fun _ => .inl rfl, { rc := .ok }, rfl, rfl⟩
  have hrun : Run (Guarded KeepsCount (tallyStep sampleHost)) ({}, {})
      [(.init sampleOptions, quietWorld), (.init sampleOptions, quietWorld)]
      ({ options := sampleOptions, initCount := 2 }, { count := 2, owner := .openbao }) :=
    Run.cons hfirst (Run.cons ⟨by simp [KeepsCount], { rc := .ok }, rfl, rfl⟩ (Run.nil _))
  obtain ⟨hin, hmatch⟩ := refCount_of_run hrun
  refine ⟨_, _, hrun, rfl, hin.mpr (by decide), (hmatch _).mpr ?_⟩
  intro htwo
  cases htwo

/-- A load under `VAULT` makes the closing `UnInit` close the other key manager. -/
theorem unInit_closes_other :
    ¬ ∀ (H : Host) (ls : List (Call × World)) (s : PskManager) (t : Tally) (l : Call × World),
      Run (tallyStep H) ({}, {}) ls (s, t) → CallMatches H (s, t) l := by
  intro hall
  let vault : PsKManagerInitOptions := { sampleOptions with keyManagerType := .vault }
  have hfirst : tallyStep sampleHost ({}, {}) (.init vault, quietWorld)
      ({ options := vault, initCount := 1 }, { count := 1, owner := .vault }) :=
    ⟨{ rc := .ok }, rfl, rfl⟩
  have hrun : Run (tallyStep sampleHost) ({}, {})
      [(.init vault, quietWorld), (.loadAllPsk [[]], quietWorld)]
      ({ initCount := 1 }, { count := 1, owner := .vault, loaded := true }) :=
    Run.cons hfirst (Run.cons ⟨{ rc := .invalidParam }, rfl, rfl⟩ (Run.nil _))
  have hmatch := hall sampleHost _ _ _ (.unInit, quietWorld) hrun {} { rc := .ok } rfl
  have hborrows := (hmatch.2 rfl).1
  rw [show unInitBorrows { initCount := 1 } = some .openbao from rfl] at hborrows
  cases hborrows

end CdfCrypto.PskManagement
