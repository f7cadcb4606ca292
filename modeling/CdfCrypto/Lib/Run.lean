/-!
# Labelled runs and their invariants

A system is a step relation `σ → ℓ → σ → Prop`: the label is one call with
everything the environment answers while it runs. `Run` is its reflexive
transitive closure with the labels kept, so a statement about *every run* is
a statement about every label list, and the induction over a run is done
once, in `Run.invariant`.

A property that only survives some steps is a property of the *guarded*
relation: `Guarded cond step` keeps the steps whose label meets `cond` in the
state the step starts from.
-/

namespace CdfCrypto.Lib

variable {σ ℓ : Type}

/-- `Run step s ls s'`: taking the labels `ls` in order leads from `s` to `s'`. -/
inductive Run (step : σ → ℓ → σ → Prop) : σ → List ℓ → σ → Prop
  | nil (s : σ) : Run step s [] s
  | cons {s s' t : σ} {l : ℓ} {ls : List ℓ} :
      step s l s' → Run step s' ls t → Run step s (l :: ls) t

/-- The steps that meet `cond` where they start. -/
def Guarded (cond : σ → ℓ → Prop) (step : σ → ℓ → σ → Prop) : σ → ℓ → σ → Prop :=
  fun s l s' => cond s l ∧ step s l s'

/-- **The invariant rule.** What every step preserves, every run preserves. -/
theorem Run.invariant {step : σ → ℓ → σ → Prop} {I : σ → Prop}
    (hstep : ∀ s l s', I s → step s l s' → I s') {s t : σ} {ls : List ℓ}
    (hrun : Run step s ls t) (hs : I s) : I t := by
  induction hrun with
  | nil s => exact hs
  | cons hl _ ih => exact ih (hstep _ _ _ hs hl)

theorem Run.append {step : σ → ℓ → σ → Prop} {s t u : σ} {ls ms : List ℓ}
    (h₁ : Run step s ls t) (h₂ : Run step t ms u) : Run step s (ls ++ ms) u := by
  induction h₁ with
  | nil s => exact h₂
  | cons hl _ ih => exact Run.cons hl (ih h₂)

/-- A run splits where its label list splits. -/
theorem Run.split {step : σ → ℓ → σ → Prop} :
    ∀ (ls ms : List ℓ) {s u : σ}, Run step s (ls ++ ms) u →
      ∃ t, Run step s ls t ∧ Run step t ms u
  | [], _, s, _, h => ⟨s, Run.nil s, h⟩
  | l :: ls, ms, s, u, h => by
    cases h with
    | cons hl hrest =>
      obtain ⟨t, h₁, h₂⟩ := Run.split ls ms hrest
      exact ⟨t, Run.cons hl h₁, h₂⟩

/-- A run around one of its steps. -/
theorem Run.of_mem {step : σ → ℓ → σ → Prop} {s t : σ} {ls : List ℓ} (hrun : Run step s ls t)
    {l : ℓ} (hl : l ∈ ls) : ∃ pre post u v, ls = pre ++ l :: post ∧ Run step s pre u ∧ step u l v ∧
      Run step v post t := by
  obtain ⟨pre, post, rfl⟩ := List.append_of_mem hl
  obtain ⟨u, hpre, hrest⟩ := hrun.split pre (l :: post)
  cases hrest with
  | cons hstep hpost => exact ⟨pre, post, u, _, rfl, hpre, hstep, hpost⟩

/-- A run of a weaker relation. -/
theorem Run.mono {step step' : σ → ℓ → σ → Prop}
    (himp : ∀ s l s', step s l s' → step' s l s') {s t : σ} {ls : List ℓ}
    (hrun : Run step s ls t) : Run step' s ls t := by
  induction hrun with
  | nil s => exact Run.nil s
  | cons hl _ ih => exact Run.cons (himp _ _ _ hl) ih

/-- A run each of whose steps meets the condition where it is taken. -/
theorem Run.guarded {step : σ → ℓ → σ → Prop} {cond : σ → ℓ → Prop} {s u : σ} {ls : List ℓ}
    (hrun : Run step s ls u)
    (hcond : ∀ pre l post t t', ls = pre ++ l :: post → Run step s pre t → step t l t' →
      Run step t' post u → cond t l) : Run (Guarded cond step) s ls u := by
  induction hrun with
  | nil s => exact Run.nil s
  | @cons s s' u l ls hl hrest ih =>
    refine Run.cons ⟨hcond [] l ls s s' rfl (Run.nil s) hl hrest, hl⟩ (ih ?_)
    intro pre l' post t t' heq hpre hstep hpost
    subst heq
    exact hcond (l :: pre) l' post t t' rfl (Run.cons hl hpre) hstep hpost

/-- The labels of a run are known at its steps. -/
theorem Run.labelled {step : σ → ℓ → σ → Prop} {s t : σ} {ls : List ℓ} (hrun : Run step s ls t) :
    Run (fun s l s' => l ∈ ls ∧ step s l s') s ls t := by
  induction hrun with
  | nil s => exact Run.nil s
  | cons hl _ ih =>
    exact Run.cons ⟨List.mem_cons_self, hl⟩
      (ih.mono fun _ _ _ ⟨hmem, hstep⟩ => ⟨List.mem_cons_of_mem _ hmem, hstep⟩)

/-- The steps that start and end where `P` holds. -/
def Within (P : σ → Prop) (step : σ → ℓ → σ → Prop) : σ → ℓ → σ → Prop :=
  fun s l s' => P s ∧ step s l s' ∧ P s'

/-- **Since when.** Where `P` holds at the end of a run, it has held all along, or since a step
that brought it. -/
theorem Run.since {step : σ → ℓ → σ → Prop} {P : σ → Prop} {s t : σ} {ls : List ℓ}
    (hrun : Run step s ls t) (ht : P t) : P s ∧ Run (Within P step) s ls t ∨
      ∃ pre l post u v, ls = pre ++ l :: post ∧ Run step s pre u ∧ ¬ P u ∧ step u l v ∧ P v ∧
        Run (Within P step) v post t := by
  induction hrun with
  | nil s => exact .inl ⟨ht, .nil s⟩
  | @cons s s' t l ls hl _ ih =>
    rcases ih ht with ⟨hs', hkept⟩ | ⟨pre, l', post, u, v, rfl, hpre, hu, hl', hv, hkept⟩
    · by_cases hs : P s
      · exact .inl ⟨hs, .cons ⟨hs, hl, hs'⟩ hkept⟩
      · exact .inr ⟨[], l, ls, s, s', rfl, .nil s, hs, hl, hs', hkept⟩
    · exact .inr ⟨l :: pre, l', post, u, v, rfl, .cons hl hpre, hu, hl', hv, hkept⟩

/-- What holds of a state, and is kept, bounds every label to come. -/
theorem Run.bounds {step : σ → ℓ → σ → Prop} {K : σ → Prop} {R : ℓ → Prop}
    (hkeep : ∀ s l s', K s → step s l s' → R l ∧ K s') {s t : σ} {ls : List ℓ}
    (hrun : Run step s ls t) (hs : K s) : (∀ l ∈ ls, R l) ∧ K t := by
  induction hrun with
  | nil s => exact ⟨fun _ hmem => absurd hmem List.not_mem_nil, hs⟩
  | cons hl _ ih =>
    obtain ⟨hfirst, hs'⟩ := hkeep _ _ _ hs hl
    obtain ⟨hrest, ht⟩ := ih hs'
    exact ⟨List.forall_mem_cons.mpr ⟨hfirst, hrest⟩, ht⟩

/-- **Earlier and later.** Where a step leaves a mark in the state that later steps keep, and that
bounds their labels, any two labels of a run are so related, the earlier to the later. -/
theorem Run.pairwise {step : σ → ℓ → σ → Prop} {I : σ → Prop} {M : ℓ → σ → Prop}
    {R : ℓ → ℓ → Prop} (hI : ∀ s l s', I s → step s l s' → I s' ∧ M l s')
    (hkeep : ∀ m s l s', I s → M m s → step s l s' → R m l ∧ M m s') {s t : σ} {ls : List ℓ}
    (hrun : Run step s ls t) (hs : I s) : ls.Pairwise R := by
  induction hrun with
  | nil s => exact .nil
  | @cons s s' t l ls hl hrest ih =>
    obtain ⟨hs', hmark⟩ := hI _ _ _ hs hl
    have hlater := hrest.bounds (K := fun s => I s ∧ M l s) (R := R l)
      (fun s l' s'' h hstep =>
        ⟨(hkeep l s l' s'' h.1 h.2 hstep).1, (hI _ _ _ h.1 hstep).1,
          (hkeep l s l' s'' h.1 h.2 hstep).2⟩) ⟨hs', hmark⟩
    exact .cons hlater.1 (ih hs')

/-- The last element of a list with `P`. -/
def Latest (P : ℓ → Prop) (ls : List ℓ) (l : ℓ) : Prop :=
  ∃ pre post, ls = pre ++ l :: post ∧ P l ∧ ∀ l' ∈ post, ¬ P l'

theorem Latest.last {P : ℓ → Prop} {l : ℓ} (h : P l) (ls : List ℓ) : Latest P (ls ++ [l]) l :=
  ⟨ls, [], rfl, h, fun _ hmem => absurd hmem List.not_mem_nil⟩

theorem Latest.before {P : ℓ → Prop} {ls : List ℓ} {l l' : ℓ} (h : Latest P ls l) (hnot : ¬ P l') :
    Latest P (ls ++ [l']) l := by
  obtain ⟨pre, post, rfl, hl, hpost⟩ := h
  refine ⟨pre, post ++ [l'], by rw [List.append_assoc, List.cons_append], hl, ?_⟩
  exact List.forall_mem_append.mpr ⟨hpost, List.forall_mem_singleton.mpr hnot⟩

/-- **What is known of the past.** What holds of the start with no past, and each step passes on
with one label more, holds at the end of a run with its labels. -/
theorem Run.history {step : σ → ℓ → σ → Prop} {K : List ℓ → σ → Prop}
    (hkeep : ∀ past s l s', K past s → step s l s' → K (past ++ [l]) s') {s t : σ} {ls : List ℓ}
    (hrun : Run step s ls t) (hs : K [] s) : K ls t := by
  suffices h : ∀ past, K past s → K (past ++ ls) t from h [] hs
  clear hs
  induction hrun with
  | nil s =>
    intro past hs
    rwa [List.append_nil]
  | @cons s s' t l ls hl _ ih =>
    intro past hs
    have h := ih (past ++ [l]) (hkeep past s l s' hs hl)
    rwa [List.append_assoc] at h

end CdfCrypto.Lib
