import CdfCrypto.Lib.Handler
import Mathlib.Algebra.Order.Group.Multiset
import Mathlib.Algebra.Ring.Int.Defs

/-!
# Handles and who holds them

A program is given handles by its environment and gives them back. `Ledger` follows what is
held: anything may be acquired, only what is held can be released. One value may be given out
more than once (a reference that is counted), so what is held is a multiset.

A run of the ledger is a log in which nothing is released that is not held at that time, and
nothing twice; `books_count` is the balance it ends with, and `books_card` the same by number alone.
`Owning` says of a program, from what is held when it starts, that each of its traces is such a log
and what is held at its end; `OwningIf` says it of the traces alone in which the environment did
nothing that is ruled out, and allows for faults of a kind.
-/

namespace CdfCrypto.Lib

open Prog

/-- What a call does with one handle. -/
inductive Deed (η : Type)
  | acquired (h : η)
  | released (h : η)
  deriving DecidableEq

variable {η : Type}

/-- What is held before and after. -/
inductive Ledger : Multiset η → Deed η → Multiset η → Prop
  | acquired (held : Multiset η) (h : η) : Ledger held (.acquired h) (held + {h})
  | released (held : Multiset η) (h : η) : Ledger (held + {h}) (.released h) held

theorem count_same [DecidableEq η] {f : η → Deed η} (hf : Function.Injective f) (h h' : η)
    (deeds : List (Deed η)) :
    (f h' :: deeds).count (f h) = deeds.count (f h) + if h = h' then 1 else 0 := by
  rw [List.count_cons]
  by_cases heq : h = h'
  · rw [heq, if_pos rfl, if_pos (beq_self_eq_true _)]
  · rw [if_neg heq, if_neg fun hbeq => heq (hf (eq_of_beq hbeq)).symm]

/-- **The balance.** What was held and what was acquired has been released or is held. -/
theorem books_count [DecidableEq η] {held held' : Multiset η} {deeds : List (Deed η)}
    (hrun : Run Ledger held deeds held') (h : η) :
    held.count h + deeds.count (.acquired h) = held'.count h + deeds.count (.released h) := by
  induction hrun with
  | nil held => rfl
  | @cons held mid held' deed deeds hstep _ ih =>
    cases hstep with
    | acquired held h' =>
      have hother : (Deed.acquired h' :: deeds).count (.released h) = deeds.count (.released h) :=
        List.count_cons_of_ne (by simp)
      rw [Multiset.count_add, Multiset.count_singleton] at ih
      rw [hother, count_same (f := Deed.acquired) (fun _ _ => Deed.acquired.inj)]
      omega
    | released held h' =>
      have hother : (Deed.released h' :: deeds).count (.acquired h) = deeds.count (.acquired h) :=
        List.count_cons_of_ne (by simp)
      rw [Multiset.count_add, Multiset.count_singleton, hother,
        count_same (f := Deed.released) (fun _ _ => Deed.released.inj)]
      omega

/-- What else is held makes no difference. -/
theorem books_frame {held held' : Multiset η} {deeds : List (Deed η)} (rest : Multiset η)
    (hrun : Run Ledger held deeds held') : Run Ledger (rest + held) deeds (rest + held') := by
  induction hrun with
  | nil held => exact .nil _
  | cons hstep _ ih =>
    cases hstep with
    | acquired held h =>
      rw [← add_assoc] at ih
      exact .cons (.acquired _ h) ih
    | released held h =>
      rw [← add_assoc]
      exact .cons (.released _ h) ih

/-- A deed with a handle of one kind, among handles of more. -/
def Deed.map {θ : Type} (f : η → θ) : Deed η → Deed θ
  | acquired h => .acquired (f h)
  | released h => .released (f h)

theorem books_map {θ : Type} (f : η → θ) {held held' : Multiset η} {deeds : List (Deed η)}
    (hrun : Run Ledger held deeds held') :
    Run Ledger (held.map f) (deeds.map (Deed.map f)) (held'.map f) := by
  induction hrun with
  | nil held => exact .nil _
  | cons hstep _ ih =>
    cases hstep with
    | acquired held h =>
      rw [Multiset.map_add, Multiset.map_singleton] at ih
      exact .cons (.acquired _ (f h)) ih
    | released held h =>
      rw [Multiset.map_add, Multiset.map_singleton]
      exact .cons (.released _ (f h)) ih

/-- Handles that are used: given out of hand and taken back. -/
def lent (hs : List η) : List (Deed η) := hs.flatMap fun h => [.released h, .acquired h]

/-- Only what is held can be used. -/
theorem books_lent {hs : List η} {held : Multiset η} (hmem : ∀ h ∈ hs, h ∈ held) :
    Run Ledger held (lent hs) held := by
  induction hs with
  | nil => exact .nil held
  | cons h hs ih =>
    obtain ⟨hfirst, hothers⟩ := List.forall_mem_cons.mp hmem
    obtain ⟨rest, rfl⟩ := Multiset.exists_cons_of_mem hfirst
    rw [← Multiset.singleton_add, add_comm] at ih ⊢
    exact .cons (.released rest h) (.cons (.acquired rest h) (ih fun h' hh' => by
      rw [add_comm, Multiset.singleton_add]
      exact hothers h' hh'))

/-- What a deed adds to the number of handles held. -/
def Deed.change : Deed η → Int
  | acquired _ => 1
  | released _ => -1

def balance (deeds : List (Deed η)) : Int := (deeds.map Deed.change).sum

@[simp] theorem balance_nil : balance ([] : List (Deed η)) = 0 := rfl

@[simp] theorem balance_cons (deed : Deed η) (deeds : List (Deed η)) :
    balance (deed :: deeds) = deed.change + balance deeds := rfl

@[simp] theorem balance_append (deeds deeds' : List (Deed η)) :
    balance (deeds ++ deeds') = balance deeds + balance deeds' := by
  rw [balance, List.map_append, List.sum_append]
  rfl

/-- **The balance by number.** -/
theorem books_card {held held' : Multiset η} {deeds : List (Deed η)}
    (hrun : Run Ledger held deeds held') : (held.card : Int) + balance deeds = held'.card := by
  induction hrun with
  | nil held => exact Int.add_zero _
  | cons hstep _ ih =>
    cases hstep with
    | acquired held h =>
      rw [Multiset.card_add, Multiset.card_singleton] at ih
      rw [balance_cons, Deed.change]
      omega
    | released held h =>
      rw [Multiset.card_add, Multiset.card_singleton, balance_cons, Deed.change]
      omega

/-- Books that end as they began have balance zero. -/
theorem balance_of_books {held : Multiset η} {deeds : List (Deed η)}
    (hrun : Run Ledger held deeds held) : balance deeds = 0 := by
  have := books_card hrun
  omega

section Owning

variable {E : Type} {R : E → Type} {F α β : Type} {deeds : Event E R → List (Deed η)}
variable {held : Multiset η} {Q : α → Multiset η → Prop} {Q' : β → Multiset η → Prop}

/-- From `held`, every trace is a run of the ledger to a value and what is held then. -/
def Owning (deeds : Event E R → List (Deed η)) (held : Multiset η) (p : Prog E R F α)
    (Q : α → Multiset η → Prop) : Prop :=
  wp p fun tr o => ∃ a held', o = .ret a ∧ Run Ledger held (tr.flatMap deeds) held' ∧ Q a held'

theorem Owning.ret {a : α} (h : Q a held) : Owning deeds held (.ret a : Prog E R F α) Q :=
  ⟨a, held, rfl, .nil held, h⟩

theorem Owning.mono {Q₁ : α → Multiset η → Prop} {p : Prog E R F α} (hp : Owning deeds held p Q)
    (himp : ∀ a held', Q a held' → Q₁ a held') : Owning deeds held p Q₁ := by
  refine wp_mono hp fun tr o ho => ?_
  obtain ⟨a, held', rfl, hrun, hQ⟩ := ho
  exact ⟨a, held', rfl, hrun, himp a held' hQ⟩

theorem Owning.bind {p : Prog E R F α} {f : α → Prog E R F β} (hp : Owning deeds held p Q)
    (hf : ∀ a held', Q a held' → Owning deeds held' (f a) Q') :
    Owning deeds held (p >>= f) Q' := by
  refine wp_bind_of hp (fun tr a ha => ?_) fun tr x hx => ?_
  · obtain ⟨a', held', heq, hrun, hQ⟩ := ha
    obtain rfl := Outcome.ret.inj heq
    refine wp_mono (hf a held' hQ) fun tr' o ho => ?_
    obtain ⟨b, held'', rfl, hrun', hQ'⟩ := ho
    refine ⟨b, held'', rfl, ?_, hQ'⟩
    rw [List.flatMap_append]
    exact hrun.append hrun'
  · obtain ⟨a', held', heq, -, -⟩ := hx
    cases heq

/-- One call, by what each answer means. -/
theorem Owning.call {e : E} {f : R e → Prog E R F β}
    (h : ∀ r, ∃ held', Run Ledger held (deeds ⟨e, r⟩) held' ∧ Owning deeds held' (f r) Q') :
    Owning deeds held (perform e >>= f) Q' := by
  refine wp_perform_bind.mpr fun r => ?_
  obtain ⟨held', hrun, hf⟩ := h r
  refine wp_mono hf fun tr o ho => ?_
  obtain ⟨b, held'', rfl, hrun', hQ'⟩ := ho
  refine ⟨b, held'', rfl, ?_, hQ'⟩
  rw [List.flatMap_cons]
  exact hrun.append hrun'

/-- A call that has to do with no handle. -/
theorem Owning.quiet {e : E} {f : R e → Prog E R F β} (hquiet : ∀ r, deeds ⟨e, r⟩ = [])
    (hf : ∀ r, Owning deeds held (f r) Q') : Owning deeds held (perform e >>= f) Q' := by
  refine .call fun r => ⟨held, ?_, hf r⟩
  rw [hquiet]
  exact .nil held

theorem books_acquired (hs : List η) (held : Multiset η) :
    Run Ledger held (hs.map .acquired) (held + (hs : Multiset η)) := by
  induction hs generalizing held with
  | nil =>
    rw [Multiset.coe_nil, add_zero]
    exact .nil held
  | cons h hs ih =>
    rw [← Multiset.cons_coe, ← Multiset.singleton_add, ← add_assoc]
    exact .cons (.acquired held h) (ih _)

/-- A call that acquires handles, as its answer says. -/
theorem Owning.acquire {e : E} {f : R e → Prog E R F β} (acquired : R e → List η)
    (hacquires : ∀ r, deeds ⟨e, r⟩ = (acquired r).map .acquired)
    (hf : ∀ r, Owning deeds (held + (acquired r : Multiset η)) (f r) Q') :
    Owning deeds held (perform e >>= f) Q' := by
  refine .call fun r => ⟨_, ?_, hf r⟩
  rw [hacquires]
  exact books_acquired (acquired r) held

/-- A call that releases a handle. -/
theorem Owning.release {e : E} {h : η} {f : R e → Prog E R F β}
    (hreleases : ∀ r, deeds ⟨e, r⟩ = [.released h]) (hf : ∀ r, Owning deeds held (f r) Q') :
    Owning deeds (held + {h}) (perform e >>= f) Q' := by
  refine .call fun r => ⟨held, ?_, hf r⟩
  rw [hreleases]
  exact .cons (.released held h) (.nil held)

end Owning

section OwningIf

variable {E : Type} {R : E → Type} {F α β : Type} {A : Event E R → Prop} {B : F → Prop}
variable {deeds : Event E R → List (Deed η)} {held : Multiset η}
variable {Q Q₁ : α → Multiset η → Prop} {Q' : β → Multiset η → Prop}

/-- `Owning` of the traces by events with `A`, and of no others: one that comes to no value comes to
a fault with `B`. -/
def OwningIf (A : Event E R → Prop) (B : F → Prop) (deeds : Event E R → List (Deed η)) :
    Multiset η → Prog E R F α → (α → Multiset η → Prop) → Prop
  | held, .ret a, Q => Q a held
  | _, .halt x, _ => B x
  | held, .call e k, Q => ∀ r, A ⟨e, r⟩ →
    ∃ held', Run Ledger held (deeds ⟨e, r⟩) held' ∧ OwningIf A B deeds held' (k r) Q

theorem OwningIf.ret {a : α} (h : Q a held) :
    OwningIf A B deeds held (.ret a : Prog E R F α) Q := h

theorem OwningIf.mono {p : Prog E R F α} (hp : OwningIf A B deeds held p Q)
    (himp : ∀ a held', Q a held' → Q₁ a held') : OwningIf A B deeds held p Q₁ := by
  induction p generalizing held with
  | ret a => exact himp a held hp
  | halt x => exact hp
  | call e k ih =>
    intro r hr
    obtain ⟨held', hrun, hk⟩ := hp r hr
    exact ⟨held', hrun, ih r hk⟩

theorem OwningIf.bind {p : Prog E R F α} {f : α → Prog E R F β} (hp : OwningIf A B deeds held p Q)
    (hf : ∀ a held', Q a held' → OwningIf A B deeds held' (f a) Q') :
    OwningIf A B deeds held (p >>= f) Q' := by
  induction p generalizing held with
  | ret a => exact hf a held hp
  | halt x => exact hp
  | call e k ih =>
    intro r hr
    obtain ⟨held', hrun, hk⟩ := hp r hr
    exact ⟨held', hrun, ih r hk⟩

/-- One call, by what each answer means. -/
theorem OwningIf.call {e : E} {f : R e → Prog E R F β}
    (h : ∀ r, A ⟨e, r⟩ →
      ∃ held', Run Ledger held (deeds ⟨e, r⟩) held' ∧ OwningIf A B deeds held' (f r) Q') :
    OwningIf A B deeds held (perform e >>= f) Q' := h

/-- A call that has to do with no handle. -/
theorem OwningIf.quiet {e : E} {f : R e → Prog E R F β} (hquiet : ∀ r, deeds ⟨e, r⟩ = [])
    (hf : ∀ r, A ⟨e, r⟩ → OwningIf A B deeds held (f r) Q') :
    OwningIf A B deeds held (perform e >>= f) Q' := by
  refine .call fun r hr => ⟨held, ?_, hf r hr⟩
  rw [hquiet]
  exact .nil held

/-- A call that uses handles, and no more. -/
theorem OwningIf.lend {e : E} {f : R e → Prog E R F β} {uses : List η}
    (hdeeds : ∀ r, deeds ⟨e, r⟩ = lent uses) (huses : ∀ h ∈ uses, h ∈ held)
    (hf : ∀ r, A ⟨e, r⟩ → OwningIf A B deeds held (f r) Q') :
    OwningIf A B deeds held (perform e >>= f) Q' := by
  refine .call fun r hr => ⟨held, ?_, hf r hr⟩
  rw [hdeeds]
  exact books_lent huses

/-- A call that uses handles, and acquires some as its answer says. -/
theorem OwningIf.acquire {e : E} {f : R e → Prog E R F β} {uses : List η} (acquired : R e → List η)
    (hdeeds : ∀ r, deeds ⟨e, r⟩ = lent uses ++ (acquired r).map .acquired)
    (huses : ∀ h ∈ uses, h ∈ held)
    (hf : ∀ r, A ⟨e, r⟩ → OwningIf A B deeds (held + (acquired r : Multiset η)) (f r) Q') :
    OwningIf A B deeds held (perform e >>= f) Q' := by
  refine .call fun r hr => ⟨_, ?_, hf r hr⟩
  rw [hdeeds]
  exact (books_lent huses).append (books_acquired (acquired r) held)

theorem books_released (hs : List η) (held : Multiset η) :
    Run Ledger (held + (hs : Multiset η)) (hs.map .released) held := by
  induction hs with
  | nil =>
    rw [Multiset.coe_nil, add_zero]
    exact .nil held
  | cons h hs ih =>
    rw [← Multiset.cons_coe, ← Multiset.singleton_add, add_comm ({h} : Multiset η), ← add_assoc]
    exact .cons (.released _ h) ih

/-- A call that uses handles, and releases some. -/
theorem OwningIf.release {e : E} {f : R e → Prog E R F β} {before : Multiset η} {uses : List η}
    (hs : List η) (hdeeds : ∀ r, deeds ⟨e, r⟩ = lent uses ++ hs.map .released)
    (huses : ∀ h ∈ uses, h ∈ before) (hheld : before = held + (hs : Multiset η))
    (hf : ∀ r, OwningIf A B deeds held (f r) Q') :
    OwningIf A B deeds before (perform e >>= f) Q' := by
  refine .call fun r _ => ⟨held, ?_, hf r⟩
  rw [hdeeds]
  exact (books_lent huses).append (hheld ▸ books_released hs held)

/-- A call that uses handles and releases some, and no more. -/
theorem OwningIf.release_last {e : E} {uses : List η} (hs : List η)
    (hdeeds : ∀ r, deeds ⟨e, r⟩ = lent uses ++ hs.map .released)
    (huses : ∀ h ∈ uses, h ∈ held + (hs : Multiset η)) :
    OwningIf A B deeds (held + (hs : Multiset η)) (perform e : Prog E R F (R e))
      fun _ held' => held' = held := by
  intro r _
  refine ⟨held, ?_, rfl⟩
  rw [hdeeds]
  exact (books_lent huses).append (books_released hs held)

/-- **The frame.** A program that knows one kind of handles, where more is held, and of more
kinds. -/
theorem OwningIf.framed {θ : Type} {f : η → θ} {deeds' : Event E R → List (Deed θ)}
    {p : Prog E R F α} (hp : OwningIf A B deeds held p Q)
    (hdeeds : ∀ ev, deeds' ev = (deeds ev).map (Deed.map f)) (rest : Multiset θ) :
    OwningIf A B deeds' (rest + held.map f) p fun a held' =>
      ∃ own, held' = rest + own.map f ∧ Q a own := by
  induction p generalizing held with
  | ret a => exact ⟨held, rfl, hp⟩
  | halt x => exact hp
  | call e k ih =>
    intro r hr
    obtain ⟨held', hrun, hk⟩ := hp r hr
    refine ⟨rest + held'.map f, ?_, ih r hk⟩
    rw [hdeeds]
    exact books_frame rest (books_map f hrun)

/-- The frame, of handles of the same kind. -/
theorem OwningIf.frame {p : Prog E R F α} (hp : OwningIf A B deeds held p Q) (rest : Multiset η) :
    OwningIf A B deeds (rest + held) p fun a held' => ∃ own, held' = rest + own ∧ Q a own := by
  have hid : ∀ ev, deeds ev = (deeds ev).map (Deed.map id) := fun ev => by
    refine (List.map_id _).symm.trans (List.map_congr_left fun deed _ => ?_)
    cases deed <;> rfl
  have hframed := hp.framed hid rest
  simpa only [Multiset.map_id] using hframed

/-- What it says of one trace. -/
theorem OwningIf.trace {p : Prog E R F α} {tr : List (Event E R)} {o : Outcome F α}
    (hp : OwningIf A B deeds held p Q) (htr : Traces p tr o) (hA : ∀ ev ∈ tr, A ev) :
    (∃ a held', o = .ret a ∧ Run Ledger held (tr.flatMap deeds) held' ∧ Q a held') ∨
      ∃ x, o = .halt x ∧ B x := by
  induction htr generalizing held with
  | ret a => exact .inl ⟨a, held, rfl, .nil held, hp⟩
  | halt x => exact .inr ⟨x, rfl, hp⟩
  | @call e k r tr o _ ih =>
    obtain ⟨hfirst, hothers⟩ := List.forall_mem_cons.mp hA
    obtain ⟨held', hrun, hk⟩ := hp r hfirst
    rcases ih hk hothers with ⟨a, held'', heq, hrun', hQ⟩ | hfault
    · refine .inl ⟨a, held'', heq, ?_, hQ⟩
      rw [List.flatMap_cons]
      exact hrun.append hrun'
    · exact .inr hfault

/-- Of one that comes to a value. -/
theorem OwningIf.returned {p : Prog E R F α} {tr : List (Event E R)} {a : α}
    (hp : OwningIf A B deeds held p Q) (htr : Traces p tr (.ret a)) (hA : ∀ ev ∈ tr, A ev) :
    ∃ held', Run Ledger held (tr.flatMap deeds) held' ∧ Q a held' := by
  rcases hp.trace htr hA with ⟨a', held', heq, hrun, hQ⟩ | ⟨x, heq, -⟩
  · obtain rfl := Outcome.ret.inj heq
    exact ⟨held', hrun, hQ⟩
  · cases heq

/-- Of one that does not. -/
theorem OwningIf.halted {p : Prog E R F α} {tr : List (Event E R)} {x : F}
    (hp : OwningIf A B deeds held p Q) (htr : Traces p tr (.halt x)) (hA : ∀ ev ∈ tr, A ev) : B x := by
  rcases hp.trace htr hA with ⟨a, held', heq, -⟩ | ⟨y, heq, hy⟩
  · cases heq
  · obtain rfl := Outcome.halt.inj heq
    exact hy

/-- A program among more calls owns what it owned. -/
theorem OwningIf.within {E' : Type} {R' : E' → Type} {inj : E → E'} {A : Event E' R' → Prop}
    {deeds : Event E' R' → List (Deed η)} {p : Prog E (fun e => R' (inj e)) F α}
    (hp : OwningIf (fun ev => A (ev.within inj)) B (fun ev => deeds (ev.within inj)) held p Q) :
    OwningIf A B deeds held (p.within inj) Q := by
  induction p generalizing held with
  | ret a => exact hp
  | halt x => exact hp
  | call e k ih =>
    intro r hr
    obtain ⟨held', hrun, hk⟩ := hp r hr
    exact ⟨held', hrun, ih r hk⟩

end OwningIf

end CdfCrypto.Lib
