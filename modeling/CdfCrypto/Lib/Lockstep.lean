import CdfCrypto.Lib.Prog

/-!
# Programs in lock step

`Lockstep Q p q` says that two programs make the same calls, whatever the answers, fault
in the same places, and end in values related by `Q`. It is proved along the two programs
at once: `bind` takes it through a sequence, `ite` through a test that both make. A trace
of one is then a trace of the other, with the related end.

A trace leaves a program no choice, so two executions along one trace end alike.
-/

namespace CdfCrypto.Lib

open Prog

variable {E : Type} {R : E → Type} {F α β γ δ : Type}

/-- The same calls, the same faults, related values. -/
inductive Lockstep (Q : α → β → Prop) : Prog E R F α → Prog E R F β → Prop
  | ret {a : α} {b : β} : Q a b → Lockstep Q (.ret a) (.ret b)
  | halt (f : F) : Lockstep Q (.halt f) (.halt f)
  | call {e : E} {k : R e → Prog E R F α} {k' : R e → Prog E R F β} :
      (∀ r, Lockstep Q (k r) (k' r)) → Lockstep Q (.call e k) (.call e k')

namespace Lockstep

variable {Q : α → β → Prop} {p : Prog E R F α} {q : Prog E R F β}

/-- A program is in step with itself. -/
theorem refl (p : Prog E R F α) : Lockstep Eq p p := by
  induction p with
  | ret a => exact .ret rfl
  | halt f => exact .halt f
  | call e k ih => exact .call ih

theorem symm (h : Lockstep Q p q) : Lockstep (fun b a => Q a b) q p := by
  induction h with
  | ret hab => exact .ret hab
  | halt f => exact .halt f
  | call _ ih => exact .call ih

/-- The rule of consequence. -/
theorem mono {Q' : α → β → Prop} (h : Lockstep Q p q) (hQ : ∀ a b, Q a b → Q' a b) :
    Lockstep Q' p q := by
  induction h with
  | ret hab => exact .ret (hQ _ _ hab)
  | halt f => exact .halt f
  | call _ ih => exact .call ih

/-- The rule of sequencing. -/
theorem bind {Q' : γ → δ → Prop} {f : α → Prog E R F γ} {g : β → Prog E R F δ}
    (h : Lockstep Q p q) (hf : ∀ a b, Q a b → Lockstep Q' (f a) (g b)) :
    Lockstep Q' (p >>= f) (q >>= g) := by
  induction h with
  | ret hab => exact hf _ _ hab
  | halt x => exact .halt x
  | call _ ih => exact .call ih

/-- Sequencing after a part that is the same on both sides. -/
theorem bind_same {Q : β → γ → Prop} {f : α → Prog E R F β} {g : α → Prog E R F γ}
    (p : Prog E R F α) (hf : ∀ a, Lockstep Q (f a) (g a)) : Lockstep Q (p >>= f) (p >>= g) :=
  (refl p).bind fun a _ hab => hab ▸ hf a

/-- Dressing up the value of one side. -/
theorem map_left {Q' : γ → β → Prop} {f : α → Prog E R F γ} {g : α → γ} (h : Lockstep Q p q)
    (hf : ∀ a, f a = .ret (g a)) (hg : ∀ a b, Q a b → Q' (g a) b) : Lockstep Q' (p >>= f) q := by
  induction h with
  | ret hab =>
    show Lockstep Q' (f _) _
    rw [hf]
    exact .ret (hg _ _ hab)
  | halt x => exact .halt x
  | call _ ih => exact .call ih

/-- A test that both make. -/
theorem ite {c : Prop} [Decidable c] {p' : Prog E R F α} {q' : Prog E R F β}
    (hthen : c → Lockstep Q p q) (helse : ¬ c → Lockstep Q p' q') :
    Lockstep Q (if c then p else p') (if c then q else q') := by
  by_cases h : c
  · rw [if_pos h, if_pos h]
    exact hthen h
  · rw [if_neg h, if_neg h]
    exact helse h

/-- What one does, the other does. -/
theorem traces (h : Lockstep Q p q) {tr : List (Event E R)} {a : α} (htr : Traces p tr (.ret a)) :
    ∃ b, Traces q tr (.ret b) ∧ Q a b := by
  induction h generalizing tr with
  | @ret a b hab =>
    cases htr
    exact ⟨b, .ret b, hab⟩
  | halt f => cases htr
  | call _ ih =>
    cases htr with
    | call hrest =>
      obtain ⟨b, hb, hab⟩ := ih _ hrest
      exact ⟨b, .call hb, hab⟩

/-- Where one faults, the other does. -/
theorem traces_halt (h : Lockstep Q p q) {tr : List (Event E R)} {f : F}
    (htr : Traces p tr (.halt f)) : Traces q tr (.halt f) := by
  induction h generalizing tr with
  | ret hab => cases htr
  | halt x =>
    cases htr
    exact .halt f
  | call _ ih =>
    cases htr with
    | call hrest => exact .call (ih _ hrest)

end Lockstep

/-- A trace has one end. -/
theorem Traces.unique {p : Prog E R F α} {tr : List (Event E R)} {o o' : Outcome F α}
    (h : Traces p tr o) (h' : Traces p tr o') : o = o' := by
  induction h with
  | ret a => cases h'; rfl
  | halt f => cases h'; rfl
  | call _ ih =>
    cases h' with
    | call hrest => exact ih hrest

end CdfCrypto.Lib
