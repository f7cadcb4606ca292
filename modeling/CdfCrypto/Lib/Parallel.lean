import CdfCrypto.Lib.Prog
import Mathlib.Logic.Function.Basic

/-!
# Programs side by side

Any number of programs share a world, and each step is one call of one of them. `SideBySide` is
that step, so a run of it is an interleaving, and a program that makes no more calls, whether it has
come to its end or was stopped, is one whose turn does not come again.

An interleaving is known by its parts: its calls, whoever made them, are a run of the world
(`world_of_interleaving`), and those of one program are a part of its own trace, with what is left
of the program at the end (`reaches_of_interleaving`). What is shown of the traces of a program by
itself so holds of it among others.
-/

namespace CdfCrypto.Lib

open Prog

variable {E : Type} {R : E → Type} {F α : Type} {p q : Prog E R F α} {tr tr' : List (Event E R)}

/-! ## Part of a trace -/

/-- The calls that lead from a program to what is left of it. -/
inductive Reaches : Prog E R F α → List (Event E R) → Prog E R F α → Prop
  | nil (p : Prog E R F α) : Reaches p [] p
  | cons {e : E} {k : R e → Prog E R F α} {r : R e} {tr : List (Event E R)} {q : Prog E R F α} :
      Reaches (k r) tr q → Reaches (call e k) (⟨e, r⟩ :: tr) q

/-- What is left has the rest of the trace. -/
theorem Reaches.traces {o : Outcome F α} (h : Reaches p tr q) (hq : Traces q tr' o) :
    Traces p (tr ++ tr') o := by
  induction h with
  | nil p => exact hq
  | cons _ ih => exact .call (ih hq)

theorem Reaches.snoc {e : E} {k : R e → Prog E R F α} (h : Reaches p tr (call e k)) (r : R e) :
    Reaches p (tr ++ [⟨e, r⟩]) (k r) := by
  generalize hq : (call e k : Prog E R F α) = q at h
  induction h with
  | nil p =>
    subst hq
    exact .cons (.nil _)
  | cons _ ih => exact .cons (ih hq)

/-- Nothing is left but the value. -/
theorem Reaches.ended {a : α} (h : Reaches p tr (.ret a)) : Traces p tr (.ret a) := by
  have htraces := h.traces (.ret a)
  rwa [List.append_nil] at htraces

/-- What every event of every trace satisfies, those of a part of one do. -/
theorem Reaches.events (answer : (e : E) → R e) {P : Event E R → Prop} (h : Reaches p tr q)
    (hp : wp p fun tr _ => ∀ ev ∈ tr, P ev) : ∀ ev ∈ tr, P ev := by
  have hall := wp_iff.mp hp _ _ (h.traces (traces_runWith answer q))
  exact fun ev hev => hall ev (List.mem_append_left _ hev)

theorem Calls.reaches {A : E → Prop} (h : Calls A p) (hreaches : Reaches p tr q) :
    ∀ ev ∈ tr, A ev.1 := by
  induction hreaches with
  | nil p => exact fun _ hev => absurd hev List.not_mem_nil
  | cons _ ih => exact List.forall_mem_cons.mpr ⟨h.1, ih (h.2 _)⟩

/-! ## Interleavings -/

variable {ι W : Type} [DecidableEq ι] {env : W → Event E R → W → Prop}

/-- One call of one of the programs. -/
inductive SideBySide (env : W → Event E R → W → Prop) :
    (ι → Prog E R F α) × W → ι × Event E R → (ι → Prog E R F α) × W → Prop
  | step {ps : ι → Prog E R F α} {w w' : W} {i : ι} {e : E} {k : R e → Prog E R F α} {r : R e}
      (hturn : ps i = .call e k) (henv : env w ⟨e, r⟩ w') :
      SideBySide env (ps, w) (i, ⟨e, r⟩) (Function.update ps i (k r), w')

/-- The events of one program, in order. -/
def eventsOf (i : ι) (ls : List (ι × Event E R)) : List (Event E R) :=
  ls.filterMap fun l => if l.1 = i then some l.2 else none

theorem mem_eventsOf {i : ι} {ls : List (ι × Event E R)} {ev : Event E R} :
    ev ∈ eventsOf i ls ↔ (i, ev) ∈ ls := by
  unfold eventsOf
  rw [List.mem_filterMap]
  constructor
  · rintro ⟨⟨j, ev'⟩, hmem, heq⟩
    split at heq
    next hj =>
      obtain rfl := Option.some.inj heq
      obtain rfl : j = i := hj
      exact hmem
    · cases heq
  · exact fun hmem => ⟨(i, ev), hmem, if_pos rfl⟩

variable {s t : (ι → Prog E R F α) × W} {ls : List (ι × Event E R)}

/-- **The world** sees the calls, whoever makes them. -/
theorem world_of_interleaving (hrun : Run (SideBySide env) s ls t) :
    Run env s.2 (ls.map Prod.snd) t.2 := by
  induction hrun with
  | nil s => exact .nil s.2
  | cons hl _ ih =>
    cases hl with
    | step _ henv => exact .cons henv ih

/-- **One program** sees its own calls. -/
theorem reaches_of_interleaving (hrun : Run (SideBySide env) s ls t) (i : ι) :
    Reaches (s.1 i) (eventsOf i ls) (t.1 i) := by
  induction hrun with
  | nil s => exact .nil (s.1 i)
  | @cons s s' t l ls hl _ ih =>
    cases hl with
    | @step ps w w' j e k r hturn henv =>
      by_cases hj : j = i
      · subst hj
        rw [show eventsOf j ((j, (⟨e, r⟩ : Event E R)) :: ls) = ⟨e, r⟩ :: eventsOf j ls from
          List.filterMap_cons_some (if_pos rfl)]
        show Reaches (ps j) _ _
        rw [hturn]
        have hrest : Reaches (Function.update ps j (k r) j) (eventsOf j ls) (t.1 j) := ih
        rw [Function.update_self] at hrest
        exact .cons hrest
      · rw [show eventsOf i ((j, (⟨e, r⟩ : Event E R)) :: ls) = eventsOf i ls from
          List.filterMap_cons_none (if_neg hj)]
        have hrest : Reaches (Function.update ps j (k r) i) (eventsOf i ls) (t.1 i) := ih
        rwa [Function.update_of_ne (fun h => hj h.symm)] at hrest

/-- Every call is one that some program can make. -/
theorem calls_of_interleaving {A : E → Prop} (hcalls : ∀ i, Calls A (s.1 i))
    (hrun : Run (SideBySide env) s ls t) : ∀ ev ∈ ls.map Prod.snd, A ev.1 := by
  intro ev hev
  obtain ⟨⟨i, ev⟩, hmem, rfl⟩ := List.mem_map.mp hev
  exact (hcalls i).reaches (reaches_of_interleaving hrun i) ev (mem_eventsOf.mpr hmem)

/-- The same of what holds of every event. -/
theorem events_of_interleaving (answer : (e : E) → R e) {P : Event E R → Prop}
    (hevents : ∀ i, wp (s.1 i) fun tr _ => ∀ ev ∈ tr, P ev)
    (hrun : Run (SideBySide env) s ls t) : ∀ ev ∈ ls.map Prod.snd, P ev := by
  intro ev hev
  obtain ⟨⟨i, ev⟩, hmem, rfl⟩ := List.mem_map.mp hev
  exact (reaches_of_interleaving hrun i).events answer (hevents i) ev (mem_eventsOf.mpr hmem)

/-- One program may run to its end while the others wait. -/
theorem interleaving_alone {i : ι} {w w' : W} {a : α} (htr : Traces p tr (.ret a))
    (hrun : Run env w tr w') : ∀ ps : ι → Prog E R F α, ps i = p →
      Run (SideBySide env) (ps, w) (tr.map (Prod.mk i)) (Function.update ps i (.ret a), w') := by
  generalize ho : (Outcome.ret a : Outcome F α) = o at htr
  induction htr generalizing w with
  | ret b =>
    obtain rfl := Outcome.ret.inj ho
    cases hrun
    intro ps hps
    rw [← hps, Function.update_eq_self]
    exact .nil _
  | halt x => cases ho
  | @call e k r tr o _ ih =>
    cases hrun with
    | cons hstep hrest =>
      intro ps hps
      have hthen := ih hrest ho (Function.update ps i (k r)) (Function.update_self i (k r) ps)
      rw [Function.update_idem] at hthen
      exact .cons (.step hps hstep) hthen

end CdfCrypto.Lib
