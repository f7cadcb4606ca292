import CdfCrypto.Lib.Run

/-!
# Programs that call their environment

`Prog E R F α` is the tree of a program that makes calls `e : E`, goes on with
whatever answer in `R e` it gets, and ends in a value or in a fault (a step the
language gives no meaning to, or one that aborts). A program is data: nothing
is assumed about the environment, so `Traces p tr o` says that `p` may make the
calls of `tr`, with the answers recorded there, and end in `o`.

`wp` is the weakest precondition over traces: it is computed from the tree, so
a proof about every trace follows the program's own branches, and `wp_iff` says
that it speaks of all of them. `Calls` bounds the calls a program can make at
all, `Halts` the faults it can end in.

An environment with a state is a relation `W → Event E R → W → Prop`; what it
does along a trace is a `Run` of that relation, and `Exec` is a trace the
environment can follow; `wpIn` is the weakest precondition over those, and `Yields` says that
each comes to a value.
-/

namespace CdfCrypto.Lib

/-- A program over the calls `E` answered in `R`, with faults `F`. -/
inductive Prog (E : Type) (R : E → Type) (F α : Type)
  | ret (a : α)
  | halt (f : F)
  | call (e : E) (k : R e → Prog E R F α)

/-- How an execution ends. -/
inductive Outcome (F α : Type)
  | ret (a : α)
  | halt (f : F)

/-- The same end with another value. -/
def Outcome.map {F α β : Type} (g : α → β) : Outcome F α → Outcome F β
  | ret a => ret (g a)
  | halt f => halt f

variable {E : Type} {R : E → Type} {F α β : Type}

/-- One call and its answer. -/
abbrev Event (E : Type) (R : E → Type) := (e : E) × R e

namespace Prog

/-- Sequencing: a fault of the first part is a fault of the whole. -/
def bind : Prog E R F α → (α → Prog E R F β) → Prog E R F β
  | ret a, f => f a
  | halt x, _ => halt x
  | call e k, f => call e fun r => (k r).bind f

instance : Monad (Prog E R F) where
  pure := ret
  bind := bind

/-- The program of one call. -/
def perform (e : E) : Prog E R F (R e) := call e ret

/-- A computation that makes no call but may fault. -/
def ofExcept : Except F α → Prog E R F α
  | .ok a => ret a
  | .error f => halt f

@[simp] theorem pure_eq (a : α) : (pure a : Prog E R F α) = ret a := rfl

@[simp] theorem ret_bind (a : α) (f : α → Prog E R F β) : (ret a >>= f) = f a := rfl

@[simp] theorem halt_bind (x : F) (f : α → Prog E R F β) :
    ((halt x : Prog E R F α) >>= f) = halt x := rfl

@[simp] theorem call_bind (e : E) (k : R e → Prog E R F α) (f : α → Prog E R F β) :
    (call e k >>= f) = call e fun r => k r >>= f := rfl

@[simp] theorem perform_bind (e : E) (f : R e → Prog E R F β) :
    (perform e >>= f) = call e f := rfl

end Prog

open Prog

/-- A trace of the program and how it ends. -/
inductive Traces : Prog E R F α → List (Event E R) → Outcome F α → Prop
  | ret (a : α) : Traces (ret a) [] (.ret a)
  | halt (f : F) : Traces (halt f) [] (.halt f)
  | call {e : E} {k : R e → Prog E R F α} {r : R e} {tr : List (Event E R)} {o : Outcome F α} :
      Traces (k r) tr o → Traces (call e k) (⟨e, r⟩ :: tr) o

/-- What holds of every trace of the program. -/
def wp : Prog E R F α → (List (Event E R) → Outcome F α → Prop) → Prop
  | .ret a, Q => Q [] (.ret a)
  | .halt f, Q => Q [] (.halt f)
  | .call e k, Q => ∀ r, wp (k r) fun tr => Q (⟨e, r⟩ :: tr)

section Rules

variable {Q Q' : List (Event E R) → Outcome F α → Prop}

@[simp] theorem wp_ret (a : α) : wp (.ret a) Q ↔ Q [] (.ret a) := Iff.rfl

@[simp] theorem wp_halt (f : F) : wp (.halt f) Q ↔ Q [] (.halt f) := Iff.rfl

@[simp] theorem wp_call (e : E) (k : R e → Prog E R F α) :
    wp (.call e k) Q ↔ ∀ r, wp (k r) fun tr => Q (⟨e, r⟩ :: tr) := Iff.rfl

/-- **Soundness and completeness.** `wp` is what all traces satisfy. -/
theorem wp_iff {p : Prog E R F α} : wp p Q ↔ ∀ tr o, Traces p tr o → Q tr o := by
  constructor
  · intro h tr o htr
    induction htr generalizing Q with
    | ret a => exact h
    | halt f => exact h
    | call _ ih => exact ih (h _)
  · intro h
    induction p generalizing Q with
    | ret a => exact h _ _ (.ret a)
    | halt f => exact h _ _ (.halt f)
    | call e k ih => exact fun r => ih r fun tr o htr => h _ _ (.call htr)

/-- The rule of consequence. -/
theorem wp_mono {p : Prog E R F α} (h : wp p Q) (himp : ∀ tr o, Q tr o → Q' tr o) : wp p Q' := by
  rw [wp_iff] at h ⊢
  exact fun tr o htr => himp tr o (h tr o htr)

/-- Two facts about the same traces. -/
theorem wp_and {p : Prog E R F α} (h : wp p Q) (h' : wp p Q') :
    wp p fun tr o => Q tr o ∧ Q' tr o := by
  rw [wp_iff] at h h' ⊢
  exact fun tr o htr => ⟨h tr o htr, h' tr o htr⟩

/-- What the second part must do, given how the first ended. -/
def Then (f : α → Prog E R F β) (Q : List (Event E R) → Outcome F β → Prop) :
    List (Event E R) → Outcome F α → Prop
  | tr, .ret a => wp (f a) fun tr' => Q (tr ++ tr')
  | tr, .halt x => Q tr (.halt x)

@[simp] theorem then_ret {f : α → Prog E R F β} {Q : List (Event E R) → Outcome F β → Prop}
    {tr : List (Event E R)} {a : α} :
    Then f Q tr (.ret a) ↔ wp (f a) fun tr' => Q (tr ++ tr') := Iff.rfl

@[simp] theorem then_halt {f : α → Prog E R F β} {Q : List (Event E R) → Outcome F β → Prop}
    {tr : List (Event E R)} {x : F} : Then f Q tr (.halt x) ↔ Q tr (.halt x) := Iff.rfl

/-- The rule of sequencing. -/
theorem wp_bind {p : Prog E R F α} {f : α → Prog E R F β}
    {Q : List (Event E R) → Outcome F β → Prop} : wp (p >>= f) Q ↔ wp p (Then f Q) := by
  induction p generalizing Q with
  | ret a => simp
  | halt x => simp
  | call e k ih =>
    simp only [call_bind, wp_call]
    refine forall_congr' fun r => ?_
    rw [ih r]
    -- the two continuations differ only in where the first call is consed
    have hcont : (fun tr => Then f Q (⟨e, r⟩ :: tr)) =
        Then f (fun tr => Q (⟨e, r⟩ :: tr)) := by
      funext tr o
      cases o <;> rfl
    rw [hcont]

/-- Sequencing from a specification of the first part. -/
theorem wp_bind_of {p : Prog E R F α} {f : α → Prog E R F β}
    {P : List (Event E R) → Outcome F α → Prop} {Q : List (Event E R) → Outcome F β → Prop}
    (hp : wp p P) (hret : ∀ tr a, P tr (.ret a) → wp (f a) fun tr' => Q (tr ++ tr'))
    (hhalt : ∀ tr x, P tr (.halt x) → Q tr (.halt x)) : wp (p >>= f) Q := by
  refine wp_bind.mpr (wp_mono hp fun tr o h => ?_)
  cases o with
  | ret a => exact hret tr a h
  | halt x => exact hhalt tr x h

/-- Sequencing where nothing about the first part matters. -/
theorem wp_bind_any {p : Prog E R F α} {f : α → Prog E R F β}
    {Q : List (Event E R) → Outcome F β → Prop}
    (hret : ∀ tr a, wp (f a) fun tr' => Q (tr ++ tr')) (hhalt : ∀ tr x, Q tr (.halt x)) :
    wp (p >>= f) Q :=
  wp_bind_of (P := fun _ _ => True) (wp_iff.mpr fun _ _ _ => trivial) (fun tr a _ => hret tr a)
    fun tr x _ => hhalt tr x

/-- Sequencing where the second part only dresses up the value. -/
theorem wp_bind_ret {p : Prog E R F α} {f : α → Prog E R F β} {g : α → β}
    (hf : ∀ a, f a = .ret (g a)) {Q : List (Event E R) → Outcome F β → Prop} :
    wp (p >>= f) Q ↔ wp p fun tr o => Q tr (o.map g) := by
  have hcont : Then f Q = fun tr o => Q tr (o.map g) := by
    funext tr o
    cases o with
    | ret a => rw [Then, hf, wp, List.append_nil, Outcome.map]
    | halt x => rfl
  rw [wp_bind, hcont]

/-- What the calls of the first part satisfy, those of the whole do where the second makes none. -/
theorem wp_bind_answer {p : Prog E R F α} {f : α → Prog E R F β} {P : List (Event E R) → Prop}
    (h : wp p fun tr _ => P tr) (hf : ∀ a, ∃ b, f a = .ret b) : wp (p >>= f) fun tr _ => P tr := by
  refine wp_bind_of h (fun tr a htr => ?_) (fun tr x htr => htr)
  obtain ⟨b, hb⟩ := hf a
  rw [hb, wp_ret, List.append_nil]
  exact htr

/-- Sequencing after one call. -/
theorem wp_perform_bind {e : E} {f : R e → Prog E R F β}
    {Q : List (Event E R) → Outcome F β → Prop} :
    wp (perform e >>= f) Q ↔ ∀ r, wp (f r) fun tr => Q (⟨e, r⟩ :: tr) := Iff.rfl

/-- A computation without calls either faults at once or goes on with its value. -/
theorem wp_ofExcept_bind {x : Except F α} {f : α → Prog E R F β}
    {Q : List (Event E R) → Outcome F β → Prop} (hok : ∀ a, x = .ok a → wp (f a) Q)
    (herr : ∀ e, x = .error e → Q [] (.halt e)) : wp (ofExcept x >>= f) Q := by
  cases x with
  | ok a => exact hok a rfl
  | error e => exact herr e rfl

end Rules

/-- A trace of the first part, where the second only dresses up the value. -/
theorem Traces.bind_ret {p : Prog E R F α} {f : α → Prog E R F β} {g : α → β}
    (hf : ∀ a, f a = .ret (g a)) {tr : List (Event E R)} {o : Outcome F α} (h : Traces p tr o) :
    Traces (p >>= f) tr (o.map g) := by
  induction h with
  | ret a =>
    show Traces (f a) [] (.ret (g a))
    rw [hf]
    exact .ret (g a)
  | halt x => exact .halt x
  | call _ ih => exact .call ih

/-- And back. -/
theorem Traces.of_bind_ret {p : Prog E R F α} {f : α → Prog E R F β} {g : α → β}
    (hf : ∀ a, f a = .ret (g a)) {tr : List (Event E R)} {b : β} (h : Traces (p >>= f) tr (.ret b)) :
    ∃ a, Traces p tr (.ret a) ∧ b = g a := by
  have hown : wp p (Traces p) := wp_iff.mpr fun _ _ h => h
  have hboth : wp (p >>= f) fun tr o => ∀ b, o = .ret b → ∃ a, Traces p tr (.ret a) ∧ b = g a := by
    refine (wp_bind_ret hf).mpr (wp_mono hown fun tr o htr b heq => ?_)
    cases o with
    | ret a => exact ⟨a, htr, (Outcome.ret.inj heq).symm⟩
    | halt x => cases heq
  exact wp_iff.mp hboth tr _ h b rfl

/-- A fault of the first part, with what was called before it. -/
theorem Traces.bind_halt {p : Prog E R F α} {tr : List (Event E R)} {x : F}
    (h : Traces p tr (.halt x)) (f : α → Prog E R F β) : Traces (p >>= f) tr (.halt x) := by
  induction p generalizing tr with
  | ret a => cases h
  | halt y =>
    cases h
    exact .halt x
  | call e k ih =>
    cases h with
    | call hrest => exact .call (ih _ hrest)

/-! ## Running against fixed answers -/

/-- The trace against an environment that answers each call by a function. -/
def Prog.runWith (answer : (e : E) → R e) : Prog E R F α → List (Event E R) × Outcome F α
  | .ret a => ([], .ret a)
  | .halt f => ([], .halt f)
  | .call e k =>
    let rest := (k (answer e)).runWith answer
    (⟨e, answer e⟩ :: rest.1, rest.2)

/-- Whatever the answers are, the program comes to an end. -/
theorem traces_runWith (answer : (e : E) → R e) (p : Prog E R F α) :
    Traces p (p.runWith answer).1 (p.runWith answer).2 := by
  induction p with
  | ret a => exact .ret a
  | halt f => exact .halt f
  | call e k ih => exact .call (ih (answer e))

/-- Every answer in that trace is the function's. -/
theorem mem_runWith {answer : (e : E) → R e} {p : Prog E R F α} {ev : Event E R}
    (h : ev ∈ (p.runWith answer).1) : ev = ⟨ev.1, answer ev.1⟩ := by
  induction p with
  | ret a => cases h
  | halt f => cases h
  | call e k ih =>
    rcases List.mem_cons.mp h with rfl | h
    · rfl
    · exact ih (answer e) h

/-- A program has a trace with the answers of any function. -/
theorem exists_answered (answer : (e : E) → R e) (p : Prog E R F α) :
    ∃ tr o, Traces p tr o ∧ ∀ ev ∈ tr, ev = ⟨ev.1, answer ev.1⟩ :=
  ⟨_, _, traces_runWith answer p, fun _ => mem_runWith⟩

/-- How it ends. -/
def Prog.eval (answer : (e : E) → R e) (p : Prog E R F α) : Outcome F α := (p.runWith answer).2

section Eval

variable {answer : (e : E) → R e}

@[simp] theorem eval_ret (a : α) : (.ret a : Prog E R F α).eval answer = .ret a := rfl

@[simp] theorem eval_halt (x : F) : (.halt x : Prog E R F α).eval answer = .halt x := rfl

@[simp] theorem eval_call (e : E) (k : R e → Prog E R F α) :
    (Prog.call e k).eval answer = (k (answer e)).eval answer := rfl

@[simp] theorem eval_perform_bind (e : E) (f : R e → Prog E R F β) :
    (perform e >>= f).eval answer = (f (answer e)).eval answer := rfl

/-- Where the first part ends in a value, the second decides. -/
theorem eval_bind {p : Prog E R F α} {f : α → Prog E R F β} {a : α}
    (h : p.eval answer = .ret a) : (p >>= f).eval answer = (f a).eval answer := by
  induction p with
  | ret b =>
    obtain rfl := Outcome.ret.inj h
    rfl
  | halt x => cases h
  | call e k ih => exact ih (answer e) h

theorem traces_of_eval {p : Prog E R F α} {o : Outcome F α} (h : p.eval answer = o) :
    Traces p (p.runWith answer).1 o := by
  rw [← h]
  exact traces_runWith answer p

/-- What holds of every trace holds of this one. -/
theorem wp_eval (answer : (e : E) → R e) {p : Prog E R F α}
    {Q : List (Event E R) → Outcome F α → Prop} (h : wp p Q) :
    Q (p.runWith answer).1 (p.eval answer) := wp_iff.mp h _ _ (traces_runWith answer p)

end Eval

section Calls

/-- Every call the program can make, whatever the answers, satisfies `A`. -/
def Calls (A : E → Prop) : Prog E R F α → Prop
  | .ret _ => True
  | .halt _ => True
  | .call e k => A e ∧ ∀ r, Calls A (k r)

variable {A : E → Prop}

@[simp] theorem calls_ret (a : α) : Calls A (.ret a : Prog E R F α) := trivial

@[simp] theorem calls_halt (x : F) : Calls A (.halt x : Prog E R F α) := trivial

theorem calls_perform {e : E} (h : A e) : Calls A (perform e : Prog E R F (R e)) :=
  ⟨h, fun _ => trivial⟩

theorem Calls.bind {p : Prog E R F α} {f : α → Prog E R F β} (hp : Calls A p)
    (hf : ∀ a, Calls A (f a)) : Calls A (p >>= f) := by
  induction p with
  | ret a => exact hf a
  | halt x => trivial
  | call e k ih => exact ⟨hp.1, fun r => ih r (hp.2 r)⟩

theorem Calls.mono {A' : E → Prop} {p : Prog E R F α} (h : Calls A p) (himp : ∀ e, A e → A' e) :
    Calls A' p := by
  induction p with
  | ret a => trivial
  | halt x => trivial
  | call e k ih => exact ⟨himp e h.1, fun r => ih r (h.2 r)⟩

theorem calls_ofExcept (x : Except F α) : Calls A (ofExcept x : Prog E R F α) := by
  cases x <;> trivial

theorem calls_any (p : Prog E R F α) : Calls (fun _ => True) p := by
  induction p with
  | ret a => trivial
  | halt x => trivial
  | call e k ih => exact ⟨trivial, ih⟩

/-- Every trace holds only such calls. -/
theorem Calls.trace {p : Prog E R F α} (h : Calls A p) : wp p fun tr _ => ∀ ev ∈ tr, A ev.1 := by
  induction p with
  | ret a => simp
  | halt x => simp
  | call e k ih =>
    intro r
    refine wp_mono (ih r (h.2 r)) fun tr o htr ev hev => ?_
    rcases List.mem_cons.mp hev with rfl | hev
    · exact h.1
    · exact htr ev hev

end Calls

section Halts

/-- Every fault the program can end in, whatever the answers, satisfies `B`. -/
def Halts (B : F → Prop) : Prog E R F α → Prop
  | .ret _ => True
  | .halt f => B f
  | .call _ k => ∀ r, Halts B (k r)

variable {B : F → Prop}

@[simp] theorem halts_ret (a : α) : Halts B (.ret a : Prog E R F α) := trivial

theorem Halts.bind {p : Prog E R F α} {f : α → Prog E R F β} (hp : Halts B p)
    (hf : ∀ a, Halts B (f a)) : Halts B (p >>= f) := by
  induction p with
  | ret a => exact hf a
  | halt x => exact hp
  | call e k ih => exact fun r => ih r (hp r)

theorem Halts.perform_bind {e : E} {f : R e → Prog E R F β} (hf : ∀ r, Halts B (f r)) :
    Halts B (perform e >>= f) := hf

theorem halts_ofExcept {x : Except F α} (h : ∀ f, x = .error f → B f) :
    Halts B (ofExcept x : Prog E R F α) := by
  cases x with
  | ok a => trivial
  | error f => exact h f rfl

/-- So it is of every trace that ends in a fault. -/
theorem Halts.trace {p : Prog E R F α} (h : Halts B p) {tr : List (Event E R)} {f : F}
    (htr : Traces p tr (.halt f)) : B f := by
  induction p generalizing tr with
  | ret a => cases htr
  | halt x =>
    cases htr
    exact h
  | call e k ih =>
    cases htr with
    | call hrest => exact ih _ (h _) hrest

end Halts

section Total

/-- Whatever the answers are, the program comes to a value with `P`, by calls that satisfy `A`. -/
def Total (A : E → Prop) : Prog E R F α → (α → Prop) → Prop
  | .ret a, P => P a
  | .halt _, _ => False
  | .call e k, P => A e ∧ ∀ r, Total A (k r) P

variable {A : E → Prop} {P P' : α → Prop} {Q : β → Prop}

theorem Total.ret {a : α} (h : P a) : Total A (.ret a : Prog E R F α) P := h

theorem Total.mono {p : Prog E R F α} (h : Total A p P) (himp : ∀ a, P a → P' a) :
    Total A p P' := by
  induction p with
  | ret a => exact himp a h
  | halt x => exact h
  | call e k ih => exact ⟨h.1, fun r => ih r (h.2 r)⟩

theorem Total.bind {p : Prog E R F α} {f : α → Prog E R F β} (hp : Total A p P)
    (hf : ∀ a, P a → Total A (f a) Q) : Total A (p >>= f) Q := by
  induction p with
  | ret a => exact hf a hp
  | halt x => exact hp
  | call e k ih => exact ⟨hp.1, fun r => ih r (hp.2 r)⟩

theorem Total.perform_bind {e : E} {f : R e → Prog E R F β} (he : A e)
    (hf : ∀ r, Total A (f r) Q) : Total A (perform e >>= f) Q := ⟨he, hf⟩

theorem Total.calls {A' : E → Prop} {p : Prog E R F α} (h : Total A p P)
    (himp : ∀ e, A e → A' e) : Calls A' p := by
  induction p with
  | ret a => trivial
  | halt x => trivial
  | call e k ih => exact ⟨himp e h.1, fun r => ih r (h.2 r)⟩

/-- What it says of every trace. -/
theorem Total.trace {p : Prog E R F α} (h : Total A p P) :
    wp p fun tr o => (∃ a, o = .ret a ∧ P a) ∧ ∀ ev ∈ tr, A ev.1 := by
  induction p with
  | ret a => exact ⟨⟨a, rfl, h⟩, nofun⟩
  | halt x => exact h.elim
  | call e k ih =>
    intro r
    refine wp_mono (ih r (h.2 r)) fun tr o ho => ⟨ho.1, fun ev hev => ?_⟩
    rcases List.mem_cons.mp hev with rfl | hev
    · exact h.1
    · exact ho.2 ev hev

end Total

section Bounded

/-- `Calls`, and the program comes to no value without `P`. -/
def Bounded (A : E → Prop) : Prog E R F α → (α → Prop) → Prop
  | .ret a, P => P a
  | .halt _, _ => True
  | .call e k, P => A e ∧ ∀ r, Bounded A (k r) P

variable {A : E → Prop} {P P' : α → Prop} {Q : β → Prop}

theorem Bounded.ret {a : α} (h : P a) : Bounded A (.ret a : Prog E R F α) P := h

theorem Bounded.bind {p : Prog E R F α} {f : α → Prog E R F β} (hp : Bounded A p P)
    (hf : ∀ a, P a → Bounded A (f a) Q) : Bounded A (p >>= f) Q := by
  induction p with
  | ret a => exact hf a hp
  | halt x => trivial
  | call e k ih => exact ⟨hp.1, fun r => ih r (hp.2 r)⟩

theorem Bounded.perform_bind {e : E} {f : R e → Prog E R F β} (he : A e)
    (hf : ∀ r, Bounded A (f r) Q) : Bounded A (perform e >>= f) Q := ⟨he, hf⟩

theorem Calls.bounded {p : Prog E R F α} (h : Calls A p) : Bounded A p fun _ => True := by
  induction p with
  | ret a => trivial
  | halt x => trivial
  | call e k ih => exact ⟨h.1, fun r => ih r (h.2 r)⟩

/-- What it says of every trace. -/
theorem Bounded.trace {p : Prog E R F α} (h : Bounded A p P) :
    wp p fun tr o => (∀ ev ∈ tr, A ev.1) ∧ ∀ a, o = .ret a → P a := by
  induction p with
  | ret a => exact ⟨nofun, fun a' heq => Outcome.ret.inj heq ▸ h⟩
  | halt x => exact ⟨nofun, nofun⟩
  | call e k ih =>
    intro r
    refine wp_mono (ih r (h.2 r)) fun tr o ho => ⟨fun ev hev => ?_, ho.2⟩
    rcases List.mem_cons.mp hev with rfl | hev
    · exact h.1
    · exact ho.1 ev hev

end Bounded

section Worlds

variable {W : Type} {env : W → Event E R → W → Prop}

/-- A trace that the environment can follow from `w` to `w'`. -/
def Exec (env : W → Event E R → W → Prop) (p : Prog E R F α) (w : W) (tr : List (Event E R))
    (o : Outcome F α) (w' : W) : Prop := Traces p tr o ∧ Run env w tr w'

/-- What holds of every execution from `w`. -/
def wpIn (env : W → Event E R → W → Prop) :
    Prog E R F α → W → (List (Event E R) → Outcome F α → W → Prop) → Prop
  | .ret a, w, Q => Q [] (.ret a) w
  | .halt f, w, Q => Q [] (.halt f) w
  | .call e k, w, Q => ∀ r w', env w ⟨e, r⟩ w' → wpIn env (k r) w' fun tr => Q (⟨e, r⟩ :: tr)

variable {w : W} {Q : List (Event E R) → Outcome F α → W → Prop}

/-- **Soundness and completeness** of `wpIn`. -/
theorem wpIn_iff {p : Prog E R F α} :
    wpIn env p w Q ↔ ∀ tr o w', Exec env p w tr o w' → Q tr o w' := by
  constructor
  · intro h tr o w' hboth
    obtain ⟨htr, hrun⟩ := hboth
    induction htr generalizing w Q with
    | ret a =>
      cases hrun
      exact h
    | halt f =>
      cases hrun
      exact h
    | call _ ih =>
      cases hrun with
      | cons hstep hrest => exact ih (h _ _ hstep) hrest
  · intro h
    induction p generalizing w Q with
    | ret a => exact h _ _ _ ⟨.ret a, .nil w⟩
    | halt f => exact h _ _ _ ⟨.halt f, .nil w⟩
    | call e k ih =>
      intro r w' hstep
      exact ih r fun tr o w'' hexec => h _ _ _ ⟨.call hexec.1, .cons hstep hexec.2⟩

theorem wpIn_mono {p : Prog E R F α} {Q' : List (Event E R) → Outcome F α → W → Prop}
    (h : wpIn env p w Q) (himp : ∀ tr o w', Q tr o w' → Q' tr o w') : wpIn env p w Q' :=
  wpIn_iff.mpr fun tr o w' hexec => himp tr o w' (wpIn_iff.mp h tr o w' hexec)

/-- What holds of every trace holds of those the environment can follow, beside what holds of
the environment's runs. -/
theorem wp.wpIn {p : Prog E R F α} {P : List (Event E R) → Outcome F α → Prop} (h : wp p P)
    (himp : ∀ tr o w', P tr o → Run env w tr w' → Q tr o w') : wpIn env p w Q :=
  wpIn_iff.mpr fun tr o w' hexec => himp tr o w' (wp_iff.mp h tr o hexec.1) hexec.2

/-- Sequencing in an environment, from a specification of the first part. -/
theorem wpIn_bind_of {p : Prog E R F α} {f : α → Prog E R F β}
    {Q' : List (Event E R) → Outcome F β → W → Prop} (hp : wpIn env p w Q)
    (hret : ∀ tr a w', Q tr (.ret a) w' → wpIn env (f a) w' fun tr' => Q' (tr ++ tr'))
    (hhalt : ∀ tr x w', Q tr (.halt x) w' → Q' tr (.halt x) w') : wpIn env (p >>= f) w Q' := by
  induction p generalizing w Q Q' with
  | ret a => exact hret [] a w hp
  | halt x => exact hhalt [] x w hp
  | call e k ih =>
    intro r w' hstep
    exact ih r (hp r w' hstep) (fun tr a w'' h => hret (⟨e, r⟩ :: tr) a w'' h)
      fun tr x w'' h => hhalt (⟨e, r⟩ :: tr) x w'' h

/-- Sequencing after one call, in an environment. -/
theorem wpIn_perform_bind {e : E} {f : R e → Prog E R F β}
    {Q : List (Event E R) → Outcome F β → W → Prop} : wpIn env (perform e >>= f) w Q ↔
      ∀ r w', env w ⟨e, r⟩ w' → wpIn env (f r) w' fun tr => Q (⟨e, r⟩ :: tr) := Iff.rfl

/-- A computation without calls, in an environment. -/
theorem wpIn_ofExcept_bind {x : Except F α} {f : α → Prog E R F β}
    {Q : List (Event E R) → Outcome F β → W → Prop} (hok : ∀ a, x = .ok a → wpIn env (f a) w Q)
    (herr : ∀ e, x = .error e → Q [] (.halt e) w) : wpIn env (ofExcept x >>= f) w Q := by
  cases x with
  | ok a => exact hok a rfl
  | error e => exact herr e rfl

section Yields

variable {P P' : α → W → Prop} {P₂ : β → W → Prop}

/-- Every execution from `w` comes to a value, and to a state, with `P`. -/
def Yields (env : W → Event E R → W → Prop) (p : Prog E R F α) (w : W) (P : α → W → Prop) : Prop :=
  wpIn env p w fun _ o w' => ∃ a, o = .ret a ∧ P a w'

theorem Yields.ret {a : α} (h : P a w) : Yields env (.ret a : Prog E R F α) w P := ⟨a, rfl, h⟩

theorem Yields.mono {p : Prog E R F α} (hp : Yields env p w P)
    (himp : ∀ a w', P a w' → P' a w') : Yields env p w P' :=
  wpIn_mono hp fun _ _ w' ⟨a, heq, hP⟩ => ⟨a, heq, himp a w' hP⟩

theorem Yields.bind {p : Prog E R F α} {f : α → Prog E R F β} (hp : Yields env p w P)
    (hf : ∀ a w', P a w' → Yields env (f a) w' P₂) : Yields env (p >>= f) w P₂ := by
  refine wpIn_bind_of hp (fun tr a w' ha => ?_) fun tr x w' hx => ?_
  · obtain ⟨a', heq, hP⟩ := ha
    obtain rfl := Outcome.ret.inj heq
    exact hf a w' hP
  · obtain ⟨a', heq, -⟩ := hx
    cases heq

theorem Yields.perform_bind {e : E} {f : R e → Prog E R F β}
    (hf : ∀ r w', env w ⟨e, r⟩ w' → Yields env (f r) w' P₂) :
    Yields env (perform e >>= f) w P₂ := hf

/-- In an environment that can do less. -/
theorem Yields.mono_env {env' : W → Event E R → W → Prop} {p : Prog E R F α} (hp : Yields env p w P)
    (henv : ∀ w ev w', env' w ev w' → env w ev w') : Yields env' p w P :=
  wpIn_iff.mpr fun _ _ _ hexec => wpIn_iff.mp hp _ _ _ ⟨hexec.1, hexec.2.mono henv⟩

/-- What is known of each value there is, beside that there is one. -/
theorem Yields.and_of {p : Prog E R F α} (hp : Yields env p w P)
    (hp' : wpIn env p w fun _ o w' => ∀ a, o = .ret a → P' a w') :
    Yields env p w fun a w' => P a w' ∧ P' a w' := by
  refine wpIn_iff.mpr fun tr o w' hexec => ?_
  obtain ⟨a, rfl, hP⟩ := wpIn_iff.mp hp tr o w' hexec
  exact ⟨a, rfl, hP, wpIn_iff.mp hp' _ _ _ hexec a rfl⟩

theorem Yields.and {p : Prog E R F α} (hp : Yields env p w P) (hp' : Yields env p w P') :
    Yields env p w fun a w' => P a w' ∧ P' a w' := by
  refine hp.and_of (wpIn_mono hp' fun _ o w' ho a heq => ?_)
  obtain ⟨a', rfl, hP'⟩ := ho
  exact Outcome.ret.inj heq ▸ hP'

/-- What it says of one execution. -/
theorem Yields.exec {p : Prog E R F α} {tr : List (Event E R)} {o : Outcome F α} {w' : W}
    (hp : Yields env p w P) (hexec : Exec env p w tr o w') : ∃ a, o = .ret a ∧ P a w' :=
  wpIn_iff.mp hp tr o w' hexec

/-- What comes of a program whatever the answers are comes of it in an environment, and where its
calls leave the state alone, so does the program. -/
theorem Total.yields {A : E → Prop} {p : Prog E R F α} {P : α → Prop} (hp : Total A p P)
    (henv : ∀ e r w', A e → env w ⟨e, r⟩ w' → w' = w) :
    Yields env p w fun a w' => P a ∧ w' = w := by
  induction p with
  | ret a => exact Yields.ret ⟨hp, rfl⟩
  | halt x => exact hp.elim
  | call e k ih =>
    intro r w' hstep
    obtain rfl := henv e r w' hp.1 hstep
    exact wpIn_mono (ih r (hp.2 r)) fun _ _ _ h => h

end Yields

/-- Answers that the environment can give at any time make an execution. -/
theorem exec_runWith {answer : (e : E) → R e} (hanswer : ∀ e, env w ⟨e, answer e⟩ w)
    (p : Prog E R F α) : Exec env p w (p.runWith answer).1 (p.eval answer) w := by
  refine ⟨traces_runWith answer p, ?_⟩
  induction p with
  | ret a => exact .nil w
  | halt x => exact .nil w
  | call e k ih => exact .cons (hanswer e) (ih (answer e))

end Worlds

end CdfCrypto.Lib
