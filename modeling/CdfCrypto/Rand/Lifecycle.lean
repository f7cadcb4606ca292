import CdfCrypto.Lib.Ownership
import CdfCrypto.Lib.Pool
import CdfCrypto.Rand.Rand
import Mathlib.Tactic.Abel

/-!
# The life of the RAND module

`RandInit` acquires up to three providers, two algorithms and two contexts, and each of its
failures gives back what there is by then. Every function is told of by what it does to the
multiset of handles that are held (`Owning`): from those in the globals as it finds them to
those in the globals as it leaves them. What holds between two actions is `RandModule.Wf`, and
`locked_keeps` is that each action keeps it; `lifecycle` takes it to every interleaving of the
calls.

A pointer can be given out more than once (OpenSSL counts the references to an algorithm), so
a handle is released as often as it was acquired.
-/

namespace CdfCrypto.Rand

open Lib

/-! ## Handles -/

/-- What OpenSSL gives out. -/
inductive Handle
  | rand (p : Nat)
  | ctx (p : Nat)
  | provider (p : Nat)
  deriving DecidableEq

/-- What a call of OpenSSL does with handles. -/
def deeds : OsslEvent → List (Deed Handle)
  | ⟨.evpRandFetch _ _, some p⟩ => [.acquired (.rand p)]
  | ⟨.evpRandFree p, _⟩ => [.released (.rand p)]
  | ⟨.evpRandCtxNew _ _, some p⟩ => [.acquired (.ctx p)]
  | ⟨.evpRandCtxFree p, _⟩ => [.released (.ctx p)]
  | ⟨.providerLoad _, some p⟩ => [.acquired (.provider p)]
  | ⟨.providerUnload p, _⟩ => [.released (.provider p)]
  | _ => []

/-- What a pointer holds. -/
def slot (f : Nat → Handle) : Option Nat → Multiset Handle
  | none => 0
  | some p => {f p}

/-- What the globals hold. -/
def RandModule.held (m : RandModule) : Multiset Handle :=
  slot .rand m.parent + slot .ctx m.parentCtx + slot .rand m.drbg + slot .ctx m.randCtx +
    slot .provider m.customProvider + slot .provider m.fipsProvider +
      slot .provider m.defaultProvider

/-- The chain is there. -/
structure RandModule.Built (m : RandModule) : Prop where
  parent : m.parent ≠ none
  parentCtx : m.parentCtx ≠ none
  drbg : m.drbg ≠ none
  randCtx : m.randCtx ≠ none

/-- Nothing of the chain is there. -/
structure RandModule.Unbuilt (m : RandModule) : Prop where
  parent : m.parent = none
  parentCtx : m.parentCtx = none
  drbg : m.drbg = none
  randCtx : m.randCtx = none

/-- No provider is there. -/
structure RandModule.Unloaded (m : RandModule) : Prop where
  customProvider : m.customProvider = none
  fipsProvider : m.fipsProvider = none
  defaultProvider : m.defaultProvider = none

/-! ## Releasing -/

variable {α β : Type} {m m' : RandModule} {held : Multiset Handle} {config : RandConfig}

/-- A release, and what goes on without what it has released. -/
theorem freeAny_then (rest : Multiset Handle) {Q : β → Multiset Handle → Prop} {f : Nat → Handle}
    {call : Nat → OsslCall} {p : Option Nat} {k : Unit → Ossl β}
    (hcall : ∀ p r, deeds ⟨call p, r⟩ = [.released (f p)])
    (hheld : held = rest + slot f p) (hk : Owning deeds rest (k ()) Q) :
    Owning deeds held (freeAny call p >>= k) Q := by
  subst hheld
  cases p with
  | none =>
    show Owning deeds (rest + 0) (k ()) Q
    rwa [add_zero]
  | some p => exact Owning.release (hcall p) fun _ => hk

/-- From `m`, whose globals hold what is held, to `m'`, whose globals do. -/
def Cleans (m : RandModule) (p : Ossl RandModule) (m' : RandModule) : Prop :=
  Owning deeds m.held p fun r held' => r = m' ∧ held' = m'.held

theorem Cleans.bind {p : Ossl RandModule} {f : RandModule → Ossl β}
    {Q : β → Multiset Handle → Prop} (hp : Cleans m p m') (hf : Owning deeds m'.held (f m') Q) :
    Owning deeds m.held (p >>= f) Q := by
  refine Owning.bind hp fun r held' hr => ?_
  obtain ⟨rfl, rfl⟩ := hr
  exact hf

theorem freeParent_cleans : Cleans m (freeParent m) { m with parent := none } := by
  refine freeAny_then _ (fun _ _ => rfl) ?_ (Owning.ret ⟨rfl, rfl⟩)
  simp only [RandModule.held, slot]
  abel

theorem freeDrbg_cleans : Cleans m (freeDrbg m) { m with drbg := none } := by
  refine freeAny_then _ (fun _ _ => rfl) ?_ (Owning.ret ⟨rfl, rfl⟩)
  simp only [RandModule.held, slot]
  abel

theorem freeParentCtx_cleans : Cleans m (freeParentCtx m) { m with parentCtx := none } := by
  refine freeAny_then _ (fun _ _ => rfl) ?_ (Owning.ret ⟨rfl, rfl⟩)
  simp only [RandModule.held, slot]
  abel

theorem freeRandCtx_cleans : Cleans m (freeRandCtx m) { m with randCtx := none } := by
  refine freeAny_then _ (fun _ _ => rfl) ?_ (Owning.ret ⟨rfl, rfl⟩)
  simp only [RandModule.held, slot]
  abel

theorem cleanupRandResources_cleans : Cleans m (cleanupRandResources m)
    { m with randCtx := none, parentCtx := none, drbg := none, parent := none } :=
  freeRandCtx_cleans.bind (freeParentCtx_cleans.bind (freeDrbg_cleans.bind freeParent_cleans))

theorem cleanupProviders_cleans : Cleans m (cleanupProviders m)
    { m with customProvider := none, fipsProvider := none, defaultProvider := none } := by
  refine freeAny_then { m with customProvider := none }.held (fun _ _ => rfl) ?_
    (freeAny_then { m with customProvider := none, fipsProvider := none }.held (fun _ _ => rfl) ?_
      (freeAny_then _ (fun _ _ => rfl) ?_ (Owning.ret ⟨rfl, rfl⟩)))
  · simp only [RandModule.held, slot]
    abel
  · simp only [RandModule.held, slot]
    abel
  · simp only [RandModule.held, slot]
    abel

/-! ## Acquiring -/

/-- What is done from `held` on leaves in the globals what is held then. -/
def Keeps (held : Multiset Handle) (p : Ossl (α × RandModule)) (Q : α → RandModule → Prop) :
    Prop := Owning deeds held p fun r held' => held' = r.2.held ∧ Q r.1 r.2

theorem Keeps.ret {Q : α → RandModule → Prop} {a : α} (h : Q a m) (hheld : held = m.held) :
    Keeps held (.ret (a, m)) Q := Owning.ret ⟨hheld, h⟩

theorem Keeps.bind {P : α → RandModule → Prop} {Q : β → RandModule → Prop}
    {p : Ossl (α × RandModule)} {f : α × RandModule → Ossl (β × RandModule)} (hp : Keeps held p P)
    (hf : ∀ a m', P a m' → Keeps m'.held (f (a, m')) Q) : Keeps held (p >>= f) Q := by
  refine Owning.bind hp fun r held' hr => ?_
  obtain ⟨rfl, hP⟩ := hr
  exact hf r.1 r.2 hP

theorem Keeps.quiet {Q : β → RandModule → Prop} {call : OsslCall}
    {k : call.Reply → Ossl (β × RandModule)} (hquiet : ∀ r, deeds ⟨call, r⟩ = [])
    (hk : ∀ r, Keeps held (k r) Q) : Keeps held (.perform call >>= k) Q :=
  Owning.quiet hquiet hk

theorem Keeps.mono {P Q : α → RandModule → Prop} {p : Ossl (α × RandModule)} (hp : Keeps held p P)
    (himp : ∀ a m', P a m' → Q a m') : Keeps held p Q :=
  Owning.mono hp fun _ _ ⟨hheld, hP⟩ => ⟨hheld, himp _ _ hP⟩

/-- An algorithm that OpenSSL gives, or does not. -/
theorem Keeps.fetch {Q : β → RandModule → Prop} {name propq : Bytes}
    {k : Option Nat → Ossl (β × RandModule)} (hk : ∀ p, Keeps (held + slot .rand p) (k p) Q) :
    Keeps held (.perform (Rand.fetch name propq) >>= k) Q := by
  refine Owning.acquire (fun p : Option Nat => p.toList.map .rand) (fun p => ?_) fun p => ?_
  · cases p <;> rfl
  · cases p <;> exact hk _

/-- A context. -/
theorem Keeps.ctxNew {Q : β → RandModule → Prop} {rand : Nat} {parent : Option Nat}
    {k : Option Nat → Ossl (β × RandModule)} (hk : ∀ p, Keeps (held + slot .ctx p) (k p) Q) :
    Keeps held (.perform (OsslCall.evpRandCtxNew rand parent) >>= k) Q := by
  refine Owning.acquire (fun p : Option Nat => p.toList.map .ctx) (fun p => ?_) fun p => ?_
  · cases p <;> rfl
  · cases p <;> exact hk _

/-- A provider. -/
theorem Keeps.load {Q : β → RandModule → Prop} {name : Bytes}
    {k : Option Nat → Ossl (β × RandModule)} (hk : ∀ p, Keeps (held + slot .provider p) (k p) Q) :
    Keeps held (.perform (OsslCall.providerLoad name) >>= k) Q := by
  refine Owning.acquire (fun p : Option Nat => p.toList.map .provider) (fun p => ?_) fun p => ?_
  · cases p <;> rfl
  · cases p <;> exact hk _

/-! ## The providers -/

/-- Of the globals only the two providers and the count of errors may have changed. -/
def Loading (m m' : RandModule) : Prop := ∃ n fips default,
  m' = { m with errorCount := n, fipsProvider := fips, defaultProvider := default }

theorem Loading.trans {m₁ m₂ m₃ : RandModule} (h₁ : Loading m₁ m₂) (h₂ : Loading m₂ m₃) :
    Loading m₁ m₃ := by
  obtain ⟨_, _, _, rfl⟩ := h₁
  obtain ⟨n, fips, default, rfl⟩ := h₂
  exact ⟨n, fips, default, rfl⟩

theorem loadDefaultProvider_keeps :
    Keeps m.held (loadDefaultProvider m) fun _ m' => Loading m m' := by
  unfold loadDefaultProvider
  split
  · exact Keeps.ret ⟨_, _, _, rfl⟩ rfl
  rename_i hnone
  have hheld : ∀ p, m.held + slot .provider p = { m with defaultProvider := p }.held := fun p => by
    simp only [RandModule.held, not_not.mp hnone, slot]
    abel
  refine Keeps.load fun p => ?_
  rw [hheld]
  dsimp only
  split
  · exact Keeps.ret ⟨_, _, _, rfl⟩ rfl
  · exact Keeps.ret ⟨_, _, _, rfl⟩ rfl

theorem loadFipsProvider_keeps : Keeps m.held (loadFipsProvider m) fun _ m' => Loading m m' := by
  refine loadDefaultProvider_keeps.bind fun loaded m₁ h₁ => ?_
  dsimp only
  split
  · exact Keeps.ret h₁ rfl
  split
  · exact Keeps.ret h₁ rfl
  rename_i hnone
  have hheld : ∀ p, m₁.held + slot .provider p = { m₁ with fipsProvider := p }.held := fun p => by
    simp only [RandModule.held, not_not.mp hnone, slot]
    abel
  refine Keeps.load fun p => ?_
  rw [hheld]
  split
  · exact Keeps.ret (h₁.trans ⟨_, _, _, rfl⟩) rfl
  · exact Keeps.ret (h₁.trans ⟨_, _, _, rfl⟩) rfl

/-- Of the globals only the providers and the count of errors may have changed. -/
def Prepared (m m' : RandModule) : Prop := ∃ n custom fips default,
  m' = { m with errorCount := n, customProvider := custom, fipsProvider := fips,
                defaultProvider := default }

theorem Loading.prepared {m₁ : RandModule} (h₁ : Loading m m₁) (h : Prepared m₁ m') :
    Prepared m m' := by
  obtain ⟨_, _, _, rfl⟩ := h₁
  obtain ⟨n, custom, fips, default, rfl⟩ := h
  exact ⟨n, custom, fips, default, rfl⟩

theorem Prepared.refl (m : RandModule) : Prepared m m := ⟨_, _, _, _, rfl⟩

theorem prepareSeedProvider_keeps (hcustom : m.customProvider = none) :
    Keeps m.held (prepareSeedProvider config m) fun _ m' => Prepared m m' := by
  unfold prepareSeedProvider
  split
  · exact loadDefaultProvider_keeps.mono fun _ m' h => h.prepared (.refl m')
  split
  · exact Keeps.ret ⟨_, _, _, _, rfl⟩ rfl
  have hheld : ∀ p, m.held + slot .provider p = { m with customProvider := p }.held := fun p => by
    simp only [RandModule.held, hcustom, slot]
    abel
  refine Keeps.load fun p => ?_
  rw [hheld]
  cases p with
  | none =>
    refine Keeps.ret ⟨_, _, _, _, rfl⟩ ?_
    simp only [RandModule.held, recordError, hcustom]
  | some p => exact Keeps.ret ⟨_, _, _, _, rfl⟩ rfl

theorem prepareProviders_keeps (hcustom : m.customProvider = none) :
    Keeps m.held (prepareProviders config m) fun _ m' => Prepared m m' := by
  unfold prepareProviders
  split
  · refine loadFipsProvider_keeps.bind fun loaded m₁ h₁ => ?_
    have hcustom₁ : m₁.customProvider = none := by
      obtain ⟨_, _, _, rfl⟩ := h₁
      exact hcustom
    dsimp only
    split
    · exact Keeps.ret (h₁.prepared (.refl m₁)) rfl
    · exact (prepareSeedProvider_keeps hcustom₁).mono fun _ m' h => h₁.prepared h
  · exact prepareSeedProvider_keeps hcustom

theorem validateParentRandAvailable_keeps :
    Keeps m.held (validateParentRandAvailable config m) fun _ m' =>
      ∃ n, m' = { m with errorCount := n } := by
  have havailable : ∀ name propq, Owning deeds m.held (fetchRandAvailable name propq)
      fun _ held' => held' = m.held := fun name propq => by
    refine Owning.acquire (fun p : Option Nat => p.toList.map .rand) (fun p => ?_) fun p => ?_
    · cases p <;> rfl
    · cases p with
      | none => exact Owning.ret (add_zero _)
      | some p => exact Owning.release (fun _ => rfl) fun _ => Owning.ret rfl
  refine Owning.bind (havailable _ _) fun available held' hheld => ?_
  subst hheld
  split
  · exact Owning.ret ⟨rfl, m.errorCount, rfl⟩
  · exact Owning.ret ⟨rfl, _, rfl⟩

/-! ## The chain -/

/-- Of the globals only the chain and the count of errors may have changed. -/
def Begun (m m' : RandModule) : Prop := ∃ n parent parentCtx drbg randCtx, m' = { m with
  errorCount := n, parent := parent, parentCtx := parentCtx, drbg := drbg, randCtx := randCtx }

/-- What building leaves: everything, or nothing, and the rest of the globals. -/
structure Chained (m : RandModule) (built : Bool) (m' : RandModule) : Prop where
  only : Begun m m'
  built : if built then m'.Built else m'.Unbuilt

theorem Begun.chained {m₁ : RandModule} {built : Bool} (h₁ : Begun m m₁)
    (h : Chained m₁ built m') : Chained m built m' := by
  obtain ⟨hm', hbuilt⟩ := h
  obtain ⟨_, _, _, _, _, rfl⟩ := h₁
  obtain ⟨n, parent, parentCtx, drbg, randCtx, rfl⟩ := hm'
  exact ⟨⟨n, parent, parentCtx, drbg, randCtx, rfl⟩, hbuilt⟩

theorem Begun.keeps {m₁ : RandModule} {p : Ossl (Bool × RandModule)} (h₁ : Begun m m₁)
    (hp : Keeps m₁.held p (Chained m₁)) : Keeps m₁.held p (Chained m) :=
  hp.mono fun _ _ => h₁.chained

/-! What fails gives back what there is by then. -/

theorem failParent_keeps (hctx : m.parentCtx = none) (hdrbg : m.drbg = none)
    (hrand : m.randCtx = none) : Keeps m.held (failParent m) (Chained m) :=
  freeParent_cleans.bind (Keeps.ret ⟨⟨_, _, _, _, _, rfl⟩, rfl, hctx, hdrbg, hrand⟩ rfl)

theorem failParentCtx_keeps (hdrbg : m.drbg = none) (hrand : m.randCtx = none) :
    Keeps m.held (failParentCtx m) (Chained m) := by
  have hbegun : Begun m { m with parentCtx := none } := ⟨_, _, _, _, _, rfl⟩
  exact freeParentCtx_cleans.bind (hbegun.keeps (failParent_keeps rfl hdrbg hrand))

theorem failDrbg_keeps (hrand : m.randCtx = none) : Keeps m.held (failDrbg m) (Chained m) := by
  have hbegun : Begun m { m with parentCtx := none, drbg := none } := ⟨_, _, _, _, _, rfl⟩
  exact freeParentCtx_cleans.bind
    (freeDrbg_cleans.bind (hbegun.keeps (failParent_keeps rfl rfl hrand)))

theorem failRandCtx_keeps : Keeps m.held (failRandCtx m) (Chained m) := by
  have hbegun : Begun m { m with randCtx := none } := ⟨_, _, _, _, _, rfl⟩
  exact freeRandCtx_cleans.bind (hbegun.keeps (failDrbg_keeps rfl))

theorem instantiateDrbg_keeps {params : List DrbgParam} {randCtx : Nat} (h : m.Built) :
    Keeps m.held (instantiateDrbg config params randCtx m) (Chained m) := by
  have hpoll : Owning deeds m.held (pollOs config m) fun m' held' =>
      held' = m.held ∧ ∃ n, m' = { m with errorCount := n } := by
    unfold pollOs
    split
    · refine Owning.quiet (fun _ => rfl) fun polled => ?_
      split
      · exact Owning.ret ⟨rfl, _, rfl⟩
      · exact Owning.ret ⟨rfl, m.errorCount, rfl⟩
    · exact Owning.ret ⟨rfl, m.errorCount, rfl⟩
  refine Owning.bind hpoll fun m₁ held' h₁ => ?_
  obtain ⟨rfl, n, rfl⟩ := h₁
  refine Keeps.quiet (fun _ => rfl) fun instantiated => ?_
  split
  · have hbegun : Begun m (recordError { m with errorCount := n }) := ⟨_, _, _, _, _, rfl⟩
    exact hbegun.keeps failRandCtx_keeps
  · exact Keeps.ret ⟨⟨_, _, _, _, _, rfl⟩, ⟨h.parent, h.parentCtx, h.drbg, h.randCtx⟩⟩ rfl

theorem buildDrbg_keeps {params : List DrbgParam} {parentCtx : Nat} (hparent : m.parent ≠ none)
    (hctx : m.parentCtx ≠ none) (hdrbg : m.drbg = none) (hrand : m.randCtx = none) :
    Keeps m.held (buildDrbg config params parentCtx m) (Chained m) := by
  refine Keeps.fetch fun drbg => ?_
  have hheld : m.held + slot .rand drbg = { m with drbg := drbg }.held := by
    simp only [RandModule.held, hdrbg, slot]
    abel
  rw [hheld]
  cases drbg with
  | none =>
    have hbegun : Begun m (recordError { m with drbg := none }) := ⟨_, _, _, _, _, rfl⟩
    exact hbegun.keeps (failParentCtx_keeps rfl hrand)
  | some drbg =>
    refine Keeps.ctxNew fun randCtx => ?_
    have hheld : { m with drbg := some drbg }.held + slot .ctx randCtx =
        { m with drbg := some drbg, randCtx := randCtx }.held := by
      simp only [RandModule.held, hrand, slot]
      abel
    rw [hheld]
    have hbegun : Begun m { m with drbg := some drbg, randCtx := randCtx } :=
      ⟨_, _, _, _, _, rfl⟩
    cases randCtx with
    | none =>
      have hbegun : Begun m (recordError { m with drbg := some drbg, randCtx := none }) :=
        ⟨_, _, _, _, _, rfl⟩
      exact hbegun.keeps (failDrbg_keeps rfl)
    | some randCtx =>
      exact hbegun.keeps (instantiateDrbg_keeps
        ⟨hparent, hctx, Option.some_ne_none drbg, Option.some_ne_none randCtx⟩)

theorem buildParent_keeps {parent : Nat} (hparent : m.parent ≠ none) (hctx : m.parentCtx = none)
    (hdrbg : m.drbg = none) (hrand : m.randCtx = none) :
    Keeps m.held (buildParent config parent m) (Chained m) := by
  refine Keeps.ctxNew fun parentCtx => ?_
  have hheld : m.held + slot .ctx parentCtx = { m with parentCtx := parentCtx }.held := by
    simp only [RandModule.held, hctx, slot]
    abel
  rw [hheld]
  cases parentCtx with
  | none =>
    have hbegun : Begun m (recordError { m with parentCtx := none }) := ⟨_, _, _, _, _, rfl⟩
    exact hbegun.keeps (failParent_keeps rfl hdrbg hrand)
  | some parentCtx =>
    refine Keeps.quiet (fun _ => rfl) fun instantiated => ?_
    split
    · have hbegun : Begun m (recordError { m with parentCtx := some parentCtx }) :=
        ⟨_, _, _, _, _, rfl⟩
      exact hbegun.keeps (failParentCtx_keeps hdrbg hrand)
    · have hbegun : Begun m { m with parentCtx := some parentCtx } := ⟨_, _, _, _, _, rfl⟩
      exact hbegun.keeps (buildDrbg_keeps hparent (Option.some_ne_none parentCtx) hdrbg hrand)

theorem buildRandChain_keeps (h : m.Unbuilt) :
    Keeps m.held (buildRandChain config m) (Chained m) := by
  refine Keeps.fetch fun parent => ?_
  have hheld : m.held + slot .rand parent = { m with parent := parent }.held := by
    simp only [RandModule.held, h.parent, slot]
    abel
  rw [hheld]
  have hbegun : Begun m { m with parent := parent } := ⟨_, _, _, _, _, rfl⟩
  cases parent with
  | none => exact Keeps.ret ⟨⟨_, _, _, _, _, rfl⟩, rfl, h.parentCtx, h.drbg, h.randCtx⟩ rfl
  | some parent =>
    exact hbegun.keeps
      (buildParent_keeps (Option.some_ne_none parent) h.parentCtx h.drbg h.randCtx)

/-! ## The invariant -/

/-- The globals between two actions. -/
structure RandModule.Wf (m : RandModule) : Prop where
  built : m.initialized = true → m.Built
  unbuilt : m.initialized = false → m.Unbuilt
  unloaded : m.initialized = false → m.Unloaded

/-- Nothing is held where nothing is initialized. -/
theorem RandModule.Wf.held_eq (h : m.Wf) (hinit : m.initialized = false) : m.held = 0 := by
  obtain ⟨hparent, hctx, hdrbg, hrand⟩ := h.unbuilt hinit
  obtain ⟨hcustom, hfips, hdefault⟩ := h.unloaded hinit
  simp only [RandModule.held, hparent, hctx, hdrbg, hrand, hcustom, hfips, hdefault, slot, add_zero]

/-- What an action may do to `initialized` and to the configuration that is in force. -/
def Sets (a : RandAction) (m m' : RandModule) : Prop := m'.initialized = true →
  m.initialized = true ∧ m'.activeConfig = m.activeConfig ∨
    m.initialized = false ∧ a = .init m'.activeConfig

/-- Before the chain is begun. -/
structure RandModule.Blank (m : RandModule) : Prop where
  initialized : m.initialized = false
  unbuilt : m.Unbuilt

theorem Prepared.blank (h : Prepared m m') (hblank : m.Blank) : m'.Blank := by
  obtain ⟨_, _, _, _, rfl⟩ := h
  obtain ⟨hinit, hparent, hctx, hdrbg, hrand⟩ := hblank
  exact ⟨hinit, hparent, hctx, hdrbg, hrand⟩

/-- A blank module without providers is as it should be, and nothing has been set. -/
theorem RandModule.Blank.wf (h : m.Blank) (hproviders : m.Unloaded) (a : RandAction)
    (m₀ : RandModule) : m.Wf ∧ Sets a m₀ m := by
  have hnever : m.initialized = true → False := fun htrue => by
    rw [h.initialized] at htrue
    cases htrue
  exact ⟨⟨fun htrue => (hnever htrue).elim, fun _ => h.unbuilt, fun _ => hproviders⟩,
    fun htrue => (hnever htrue).elim⟩

theorem failInit_keeps (h : m.Blank) (a : RandAction) (m₀ : RandModule) :
    Keeps m.held (failInit m) fun _ m' => m'.Wf ∧ Sets a m₀ m' := by
  have hblank : RandModule.Blank { m with
      customProvider := none, fipsProvider := none, defaultProvider := none } :=
    Prepared.blank ⟨_, _, _, _, rfl⟩ h
  exact cleanupProviders_cleans.bind (Owning.ret ⟨rfl, hblank.wf ⟨rfl, rfl, rfl⟩ a m₀⟩)

/-- The chain is built, or everything is given back. -/
theorem initChain_keeps {m₀ : RandModule} (hinit₀ : m₀.initialized = false) (h : m.Blank) :
    Keeps m.held (initChain config m) fun _ m' => m'.Wf ∧ Sets (.init config) m₀ m' := by
  refine (buildRandChain_keeps h.unbuilt).bind fun built m₁ h₁ => ?_
  obtain ⟨hbegun, hbuilt⟩ := h₁
  have hinit₁ : m₁.initialized = false := by
    obtain ⟨_, _, _, _, _, rfl⟩ := hbegun
    exact h.initialized
  cases built with
  | false =>
    have hblank : RandModule.Blank { m₁ with
        customProvider := none, fipsProvider := none, defaultProvider := none,
        randCtx := none, parentCtx := none, drbg := none, parent := none } :=
      ⟨hinit₁, rfl, rfl, rfl, rfl⟩
    exact cleanupProviders_cleans.bind (cleanupRandResources_cleans.bind
      (Owning.ret ⟨rfl, hblank.wf ⟨rfl, rfl, rfl⟩ _ m₀⟩))
  | true =>
    refine Keeps.quiet (fun _ => rfl) fun now => Keeps.ret ⟨⟨fun _ => ?_, nofun, nofun⟩, ?_⟩ rfl
    · exact ⟨hbuilt.parent, hbuilt.parentCtx, hbuilt.drbg, hbuilt.randCtx⟩
    · exact fun _ => .inr ⟨hinit₀, rfl⟩

theorem validateConfig_prepared (config : RandConfig) (m : RandModule) :
    ∃ n, (validateConfig config m).2 = { m with errorCount := n } := by
  unfold validateConfig
  split_ifs
  · exact ⟨_, rfl⟩
  · exact ⟨_, rfl⟩
  · exact ⟨_, rfl⟩
  · exact ⟨_, rfl⟩
  · exact ⟨m.errorCount, rfl⟩

theorem initLocked_keeps (h : m.Wf) :
    Keeps m.held (initLocked config m) fun _ m' => m'.Wf ∧ Sets (.init config) m m' := by
  unfold initLocked
  cases hinit : m.initialized with
  | true =>
    rw [if_pos rfl]
    exact Keeps.ret ⟨h, fun _ => .inl ⟨hinit, rfl⟩⟩ rfl
  | false =>
    rw [if_neg Bool.false_ne_true]
    obtain ⟨n, hvalid⟩ := validateConfig_prepared config m
    obtain ⟨hcustom, hfips, hdefault⟩ := h.unloaded hinit
    have hblank : m.Blank := ⟨hinit, h.unbuilt hinit⟩
    have hblank₁ : RandModule.Blank { m with errorCount := n } :=
      Prepared.blank ⟨_, _, _, _, rfl⟩ hblank
    dsimp only
    rw [hvalid]
    split
    · exact Keeps.ret (hblank₁.wf ⟨hcustom, hfips, hdefault⟩ _ m) rfl
    refine Keeps.bind (prepareProviders_keeps (m := { m with errorCount := n }) hcustom)
      fun prepared m₁ h₁ => ?_
    have hblank₂ := h₁.blank hblank₁
    dsimp only
    split
    · exact failInit_keeps hblank₂ _ m
    refine validateParentRandAvailable_keeps.bind fun available m₂ h₂ => ?_
    have hblank₃ : m₂.Blank := by
      obtain ⟨n₂, rfl⟩ := h₂
      exact Prepared.blank ⟨_, _, _, _, rfl⟩ hblank₂
    dsimp only
    split
    · exact failInit_keeps hblank₃ _ m
    · exact initChain_keeps hinit hblank₃

/-- Of the globals only the count of errors and the time of the last check may have changed. -/
def Checked (m m' : RandModule) : Prop :=
  ∃ n now, m' = { m with errorCount := n, lastHealthCheckMs := now }

theorem Checked.refl (m : RandModule) : Checked m m := ⟨_, _, rfl⟩

theorem Checked.recorded {m₁ : RandModule} (h : Checked m m₁) : Checked m (recordError m₁) := by
  obtain ⟨n, now, rfl⟩ := h
  exact ⟨n + 1, now, rfl⟩

theorem Checked.wf (hchecked : Checked m m') (h : m.Wf) (a : RandAction) :
    m'.Wf ∧ Sets a m m' := by
  obtain ⟨n, now, rfl⟩ := hchecked
  refine ⟨⟨fun hinit => ?_, fun hinit => ?_, fun hinit => ?_⟩, fun hinit => .inl ⟨hinit, rfl⟩⟩
  · obtain ⟨hparent, hctx, hdrbg, hrand⟩ := h.built hinit
    exact ⟨hparent, hctx, hdrbg, hrand⟩
  · obtain ⟨hparent, hctx, hdrbg, hrand⟩ := h.unbuilt hinit
    exact ⟨hparent, hctx, hdrbg, hrand⟩
  · obtain ⟨hcustom, hfips, hdefault⟩ := h.unloaded hinit
    exact ⟨hcustom, hfips, hdefault⟩

theorem healthCheck_keeps {ctx : Nat} :
    Keeps m.held (healthCheck ctx m) fun _ m' => Checked m m' := by
  unfold healthCheck
  split
  · exact Keeps.ret (.refl m) rfl
  refine Keeps.quiet (fun _ => rfl) fun now => ?_
  split
  · exact Keeps.ret (.refl m) rfl
  refine Keeps.quiet (fun _ => rfl) fun state => ?_
  split
  · exact Keeps.ret (Checked.refl m).recorded rfl
  · exact Keeps.ret ⟨_, _, rfl⟩ rfl

/-- An attempt to generate leaves what is held where it is. -/
theorem attempt_keeps {len : UInt32} : Keeps m.held (attempt len m) fun _ m' => Checked m m' := by
  unfold attempt
  split
  · refine healthCheck_keeps.bind fun healthy m₁ h₁ => ?_
    dsimp only
    split
    · exact Keeps.ret h₁ rfl
    refine Keeps.quiet (fun _ => rfl) fun generated => ?_
    split
    · exact Keeps.ret h₁.recorded rfl
    · exact Keeps.ret h₁ rfl
  · exact Keeps.ret (.refl m) rfl

theorem deinitLocked_keeps {m₀ : RandModule} :
    Keeps m.held (deinitLocked m) fun _ m' => m'.Wf ∧ Sets .deinit m₀ m' := by
  have hblank : RandModule.Blank {} := ⟨rfl, rfl, rfl, rfl, rfl⟩
  exact cleanupRandResources_cleans.bind (cleanupProviders_cleans.bind
    (Owning.ret ⟨rfl, hblank.wf ⟨rfl, rfl, rfl⟩ _ m₀⟩))

/-- **One action**, whatever OpenSSL answers. -/
theorem locked_keeps (h : m.Wf) (a : RandAction) :
    Keeps m.held (a.locked m) fun _ m' => m'.Wf ∧ Sets a m m' := by
  cases a with
  | loadInitialized => exact Keeps.ret ⟨h, fun hinit => .inl ⟨hinit, rfl⟩⟩ rfl
  | init config => exact initLocked_keeps h
  | attempt len => exact attempt_keeps.mono fun _ _ hchecked => hchecked.wf h _
  | deinit => exact deinitLocked_keeps

/-! ## Runs -/

/-- An action with the calls of OpenSSL it makes. -/
def act (m : RandModule) (a : RandAction) (r : a.Reply) (log : List OsslEvent) (m' : RandModule) :
    Prop := Traces (a.locked m) log (.ret (r, m'))

/-- Threads that make calls of the module, in any order of their actions. -/
abbrev RandPool := Pool RandModule RandAction RandAction.Reply RandFault

/-- A step of one of them. -/
abbrev PoolStep : RandPool → PoolLabel RandCall RandAction OsslEvent → RandPool → Prop :=
  Pool.Step RandCall.code act

/-- No call has been made. -/
def RandPool.start : RandPool := ⟨{}, fun _ => .ret ()⟩

theorem start_wf : RandModule.Wf {} :=
  ⟨nofun, fun _ => ⟨rfl, rfl, rfl, rfl⟩, fun _ => ⟨rfl, rfl, rfl⟩⟩

/-- **One step**, whoever takes it. -/
theorem step_keeps {p q : RandPool} {l : PoolLabel RandCall RandAction OsslEvent}
    (h : p.shared.Wf) (hstep : PoolStep p l q) :
    Run Ledger p.shared.held (l.log.flatMap deeds) q.shared.held ∧ q.shared.Wf ∧
      (q.shared.initialized = true →
        p.shared.initialized = true ∧ q.shared.activeConfig = p.shared.activeConfig ∨
          p.shared.initialized = false ∧
            ∃ i log, l = .acts i (.init q.shared.activeConfig) log) := by
  rcases hstep.shared with ⟨hshared, hlog⟩ | ⟨i, a, r, log, rfl, hact⟩
  · rw [hshared, hlog]
    exact ⟨.nil _, h, fun hinit => .inl ⟨hinit, rfl⟩⟩
  · obtain ⟨r', held', heq, hrun, hheld, hwf, hsets⟩ := wp_iff.mp (locked_keeps h a) log _ hact
    obtain rfl := Outcome.ret.inj heq
    obtain rfl : held' = q.shared.held := hheld
    refine ⟨hrun, hwf, fun hinit => ?_⟩
    rcases hsets hinit with hsame | ⟨hbefore, ha⟩
    · exact .inl hsame
    · exact .inr ⟨hbefore, i, log, congrArg (fun a => PoolLabel.acts i a log) ha⟩

/-- `initialized` was last set by a `RandInit` with this configuration. -/
def InitedBy (ls : List (PoolLabel RandCall RandAction OsslEvent)) (w : RandPool)
    (config : RandConfig) : Prop := ∃ pre i log post u v,
  ls = pre ++ .acts i (.init config) log :: post ∧ Run PoolStep .start pre u ∧
    u.shared.initialized = false ∧ PoolStep u (.acts i (.init config) log) v ∧
    v.shared.initialized = true ∧
    Run (Within (fun p => p.shared.initialized = true) PoolStep) v post w

/-- The globals with all that has been asked of OpenSSL so far. `books` says that nothing was
released that was not held then, `balanced` that what was acquired has been released as often
or is in the globals. -/
structure Lifecycle (m : RandModule) (log : List OsslEvent) : Prop where
  initialized_iff : m.initialized = true ↔ m.Built
  unbuilt : m.initialized = false → m.Unbuilt
  unloaded : m.initialized = false → m.Unloaded
  books : Run Ledger 0 (log.flatMap deeds) m.held
  balanced : ∀ h : Handle, (log.flatMap deeds).count (.acquired h) =
    m.held.count h + (log.flatMap deeds).count (.released h)
  held_eq : m.initialized = false → m.held = 0

theorem RandModule.Wf.recorded {log : List OsslEvent} (h : m.Wf)
    (hbooks : Run Ledger 0 (log.flatMap deeds) m.held) : Lifecycle m log where
  initialized_iff := by
    refine ⟨h.built, fun hbuilt => ?_⟩
    cases hinit : m.initialized with
    | true => rfl
    | false => exact absurd (h.unbuilt hinit).parent hbuilt.parent
  unbuilt := h.unbuilt
  unloaded := h.unloaded
  books := hbooks
  balanced := fun handle => by
    have hcount := books_count hbooks handle
    rwa [Multiset.count_zero, Nat.zero_add] at hcount
  held_eq := h.held_eq

theorem run_keeps {p w : RandPool} {ls : List (PoolLabel RandCall RandAction OsslEvent)}
    (h : p.shared.Wf) (hrun : Run PoolStep p ls w) :
    Run Ledger p.shared.held ((ls.flatMap PoolLabel.log).flatMap deeds) w.shared.held ∧
      w.shared.Wf := by
  induction hrun with
  | nil p => exact ⟨.nil _, h⟩
  | cons hstep _ ih =>
    obtain ⟨hledger, hwf, -⟩ := step_keeps h hstep
    obtain ⟨hrest, hwf'⟩ := ih hwf
    rw [List.flatMap_cons, List.flatMap_append]
    exact ⟨hledger.append hrest, hwf'⟩

/-- **The life of the module.** After every step of every interleaving of its calls, whatever
OpenSSL has answered: it is initialized if and only if the chain is there, else nothing of it
and no provider is; what the globals hold is what was acquired and has not been released, and
nothing was released that was not held; and the configuration in force is that of the
`RandInit` that last initialized it. -/
theorem lifecycle {ls : List (PoolLabel RandCall RandAction OsslEvent)} {w : RandPool}
    (hrun : Run PoolStep .start ls w) :
    Lifecycle w.shared (ls.flatMap PoolLabel.log) ∧
      (w.shared.initialized = true → InitedBy ls w w.shared.activeConfig) := by
  obtain ⟨hledger, hwf⟩ := run_keeps start_wf hrun
  refine ⟨hwf.recorded hledger, fun hinit => ?_⟩
  have hsince := hrun.since (P := fun p : RandPool => p.shared.initialized = true) hinit
  rcases hsince with ⟨hstart, -⟩ | ⟨pre, l, post, u, v, rfl, hpre, hu, hl, hv, hkept⟩
  · cases hstart
  have hu' : u.shared.Wf := (run_keeps start_wf hpre).2
  obtain ⟨-, hv', hset⟩ := step_keeps hu' hl
  rcases hset hv with ⟨hinit', -⟩ | ⟨hbefore, i, log, rfl⟩
  · exact absurd hinit' hu
  -- the configuration stays what it is while the module stays initialized
  have hsame : w.shared.Wf ∧ w.shared.activeConfig = v.shared.activeConfig := by
    refine Run.invariant (I := fun p : RandPool => p.shared.Wf ∧
      p.shared.activeConfig = v.shared.activeConfig) ?_ hkept ⟨hv', rfl⟩
    intro p l q ⟨hp, hconfig⟩ ⟨hpinit, hstep, hqinit⟩
    obtain ⟨-, hq, hset⟩ := step_keeps hp hstep
    rcases hset hqinit with ⟨-, hkeeps⟩ | ⟨hnot, -⟩
    · exact ⟨hq, hkeeps.trans hconfig⟩
    · rw [hpinit] at hnot
      cases hnot
  rw [hsame.2]
  exact ⟨pre, i, log, post, u, v, rfl, hpre, hbefore, hl, hv, hkept⟩

/-- OpenSSL with everything there. -/
def plenty : (call : OsslCall) → call.Reply
  | .evpRandFetch _ _ => some 1
  | .evpRandFree _ => ()
  | .evpRandCtxNew _ none => some 2
  | .evpRandCtxNew _ (some _) => some 3
  | .evpRandCtxFree _ => ()
  | .evpRandInstantiate _ _ _ _ => 1
  | .evpRandGetState _ => 1
  | .evpRandGenerate _ _ _ _ => (1, fun _ => 0)
  | .providerLoad _ => some 4
  | .providerUnload _ => ()
  | .randPoll => 1
  | .nowMs => 5

/-- A thread that calls `RandInit`, and one that calls `RandDeinit` after it. -/
def sampleLabels : List (PoolLabel RandCall RandAction OsslEvent) :=
  [.starts 0 (.randInit {}), .acts 0 .loadInitialized [], .starts 1 .randDeinit,
    .acts 0 (.init {}) ((initLocked {} {}).runWith plenty).1]

/-- What the first of them leaves. -/
def sampleModule : RandModule where
  initialized := true
  lastHealthCheckMs := 5
  randCtx := some 3
  parentCtx := some 2
  drbg := some 1
  parent := some 1
  defaultProvider := some 4

theorem sample_run : ∃ w : RandPool, w.shared = sampleModule ∧
    Run PoolStep .start sampleLabels w := by
  have hinit : Traces (RandAction.locked {} (.init {})) ((initLocked {} {}).runWith plenty).1
      (.ret (.ok (), sampleModule)) := traces_of_eval rfl
  exact ⟨_, rfl, .cons (.starts _ rfl) (.cons (.acts rfl (.ret _))
    (.cons (.starts _ rfl) (.cons (.acts rfl hinit) (.nil _))))⟩

theorem lifecycle_sample : ∃ w : RandPool,
    Lifecycle w.shared ((initLocked {} {}).runWith plenty).1 ∧ InitedBy sampleLabels w {} := by
  obtain ⟨w, hw, hrun⟩ := sample_run
  obtain ⟨hlife, hinited⟩ := lifecycle hrun
  rw [hw] at hinited
  have hlog : sampleLabels.flatMap PoolLabel.log = ((initLocked {} {}).runWith plenty).1 := by
    simp [sampleLabels, PoolLabel.log]
  rw [hlog] at hlife
  exact ⟨w, hlife, hinited rfl⟩

end CdfCrypto.Rand
