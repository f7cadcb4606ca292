import CdfCrypto.Lib.Parallel

/-!
# Threads under a readers-writer lock

The calls of a program on a lock are calls like its others. `LockStep` is one step of any number of
threads that perform operations on a value which the lock guards: a thread enters by taking the lock,
makes calls, and leaves when it gives the lock back. Readers are inside together, a writer is alone,
and a thread that takes the lock a second time never goes on.

The guarded value is read on entry and written on leaving. That is what the code does as long as
readers write nothing, and `Disciplined` asks for it: until it blocks, a reader only makes calls that
leave the world as it is, and it hands the value back unchanged.

Then the lock does what it is for. In the order in which the operations have returned, they might
have been performed one after the other, by a single thread (`serial_of_run`).

Where several such groups of threads share the world, each with a value and a lock of its own
(`Crowd`), a group no longer has the world for itself. What is left is that an operation which has
returned made the calls of a trace, and that they are among those of the run (`performed_of_crowd`).
-/

namespace CdfCrypto.Lib

open Prog

variable {E : Type} {R : E → Type} {F α β : Type}

/-! ## Up to a call that blocks -/

section Until

variable {stop A : E → Prop} {P : α → Prop} {Q : β → Prop}

/-- Up to the first call of `stop` the program makes calls of `A` only, and it comes to no value
without `P`. -/
def Until (stop A : E → Prop) : Prog E R F α → (α → Prop) → Prop
  | .ret a, P => P a
  | .halt _, _ => True
  | .call e k, P => stop e ∨ A e ∧ ∀ r, Until stop A (k r) P

theorem Until.ret {a : α} (h : P a) : Until stop A (.ret a : Prog E R F α) P := h

theorem Until.blocked {e : E} {k : R e → Prog E R F α} (h : stop e) : Until stop A (.call e k) P :=
  .inl h

theorem Until.perform_bind {e : E} {f : R e → Prog E R F β} (he : A e)
    (hf : ∀ r, Until stop A (f r) Q) : Until stop A (perform e >>= f) Q := .inr ⟨he, hf⟩

theorem Until.bind {p : Prog E R F α} {f : α → Prog E R F β} (hp : Until stop A p P)
    (hf : ∀ a, P a → Until stop A (f a) Q) : Until stop A (p >>= f) Q := by
  induction p with
  | ret a => exact hf a hp
  | halt x => trivial
  | call e k ih =>
    rcases hp with hstop | ⟨he, hk⟩
    · exact .inl hstop
    · exact .inr ⟨he, fun r => ih r (hk r)⟩

theorem Bounded.until {p : Prog E R F α} (h : Bounded A p P) : Until stop A p P := by
  induction p with
  | ret a => exact h
  | halt x => trivial
  | call e k ih => exact .inr ⟨h.1, fun r => ih r (h.2 r)⟩

end Until

/-! ## The lock -/

/-- Which calls take a lock, which of them exclusively, and which give it back. -/
structure Lock (E : Type) where
  acquires : E → Prop
  exclusive : E → Prop
  releases : E → Prop

variable {O A M W ι : Type}

/-- A thread that holds the lock: the call that took it, the operation it is in, the calls of the
operation so far, and what is left of it. -/
structure Holder (E : Type) (R : E → Type) (F O A M : Type) where
  lock : E
  op : O
  tr : List (Event E R)
  left : Prog E R F (A × M)

/-- After one more call. -/
def Holder.next (x : Holder E R F O A M) (ev : Event E R) (left : Prog E R F (A × M)) :
    Holder E R F O A M := { x with tr := x.tr ++ [ev], left }

/-- The guarded value, and who holds the lock. -/
structure Threads (ι E : Type) (R : E → Type) (F O A M : Type) where
  guarded : M
  inside : ι → Option (Holder E R F O A M)

/-- An operation that has returned: its calls and its answer. -/
structure Performed (E : Type) (R : E → Type) (O A : Type) where
  op : O
  tr : List (Event E R)
  answer : A

/-- What a thread does in one step, and the call that it makes. -/
inductive LockLabel (ι E : Type) (R : E → Type) (O A : Type)
  | enters (i : ι) (op : O) (ev : Event E R)
  | calls (i : ι) (ev : Event E R)
  | leaves (i : ι) (ev : Event E R) (performed : Performed E R O A)

namespace LockLabel

def event : LockLabel ι E R O A → Event E R
  | enters _ _ ev => ev
  | calls _ ev => ev
  | leaves _ ev _ => ev

def performed? : LockLabel ι E R O A → Option (Performed E R O A)
  | leaves _ _ performed => some performed
  | _ => none

end LockLabel

/-- The operations that have returned, in this order. -/
def returned (ls : List (LockLabel ι E R O A)) : List (Performed E R O A) :=
  ls.filterMap LockLabel.performed?

variable (L : Lock E) (code : O → M → Prog E R F (A × M)) (env : W → Event E R → W → Prop)

/-- Nobody is inside yet. -/
def Threads.start (ι E : Type) (R : E → Type) (F O A : Type) {M : Type} (m : M) :
    Threads ι E R F O A M := { guarded := m, inside := fun _ => none }

/-- One step of one thread. -/
inductive LockStep [DecidableEq ι] :
    Threads ι E R F O A M × W → LockLabel ι E R O A → Threads ι E R F O A M × W → Prop
  | enters {t : Threads ι E R F O A M} {w w' : W} {i : ι} {op : O} {e : E}
      {k : R e → Prog E R F (A × M)} {r : R e} (hidle : t.inside i = none)
      (hcode : code op t.guarded = .call e k) (hacquires : L.acquires e)
      (hfree : ∀ j x, t.inside j = some x → ¬ L.exclusive e ∧ ¬ L.exclusive x.lock)
      (henv : env w ⟨e, r⟩ w') :
      LockStep (t, w) (.enters i op ⟨e, r⟩)
        ({ t with inside := Function.update t.inside i (some ⟨e, op, [⟨e, r⟩], k r⟩) }, w')
  | calls {t : Threads ι E R F O A M} {w w' : W} {i : ι} {x : Holder E R F O A M} {e : E}
      {k : R e → Prog E R F (A × M)} {r : R e} (hinside : t.inside i = some x)
      (hleft : x.left = .call e k) (hother : ¬ L.acquires e ∧ ¬ L.releases e)
      (henv : env w ⟨e, r⟩ w') :
      LockStep (t, w) (.calls i ⟨e, r⟩)
        ({ t with inside := Function.update t.inside i (some (x.next ⟨e, r⟩ (k r))) }, w')
  | leaves {t : Threads ι E R F O A M} {w w' : W} {i : ι} {x : Holder E R F O A M} {e : E}
      {k : R e → Prog E R F (A × M)} {r : R e} {a : A} {m : M} (hinside : t.inside i = some x)
      (hleft : x.left = .call e k) (hreleases : L.releases e) (henv : env w ⟨e, r⟩ w')
      (hret : k r = .ret (a, m)) :
      LockStep (t, w) (.leaves i ⟨e, r⟩ ⟨x.op, x.tr ++ [⟨e, r⟩], a⟩)
        ({ guarded := m, inside := Function.update t.inside i none }, w')

/-- One operation from its beginning to its end, with nobody else inside. -/
def Serial (s : M × W) (c : Performed E R O A) (s' : M × W) : Prop :=
  Traces (code c.op s.1) c.tr (.ret (c.answer, s'.1)) ∧ Run env s.2 c.tr s'.2

/-- The call leaves the world as it is. -/
def Keeps (e : E) : Prop := ∀ w r w', env w ⟨e, r⟩ w' → w' = w

/-- What a readers-writer lock asks of those who use it. -/
structure Disciplined : Prop where
  apart : ∀ e, L.releases e → ¬ L.acquires e
  lock : ∀ e, L.acquires e ∨ L.releases e → Keeps env e
  reads : ∀ op m e k r, code op m = .call e k → L.acquires e → ¬ L.exclusive e →
    Until L.acquires (Keeps env) (k r) fun x => x.2 = m

/-! ## The order of returning -/

/-- The invariant of the threads: those that have returned might have done so one after the other, up
to `w`, and whoever is inside went on from there. -/
structure Orderly (s : M × W) (done : List (Performed E R O A)) (w : W)
    (t : Threads ι E R F O A M) (now : W) : Prop where
  serial : Run (Serial code env) s done (t.guarded, w)
  inside : ∀ i x, t.inside i = some x →
    Reaches (code x.op t.guarded) x.tr x.left ∧ Run env w x.tr now
  reads : ∀ i x, t.inside i = some x → ¬ L.exclusive x.lock →
    Until L.acquires (Keeps env) x.left fun y => y.2 = t.guarded
  alone : ∀ i x, t.inside i = some x → L.exclusive x.lock → ∀ j, j ≠ i → t.inside j = none
  still : (∀ i x, t.inside i = some x → ¬ L.exclusive x.lock) → now = w

section Steps

variable {L code env} {s : M × W} {done : List (Performed E R O A)} {w now now' : W}
variable {t t' : Threads ι E R F O A M} {i : ι} {x : Holder E R F O A M} {op : O} {e : E}
variable {k : R e → Prog E R F (A × M)} {r : R e}

theorem orderly_start (m : M) (w : W) :
    Orderly L code env (m, w) [] w (Threads.start ι E R F O A m) w where
  serial := .nil _
  inside i x hx := by cases hx
  reads i x hx := by cases hx
  alone i x hx := by cases hx
  still _ := rfl

/-- Where somebody is inside who is no writer, nobody is. -/
theorem Orderly.readers (h : Orderly L code env s done w t now) (hx : t.inside i = some x)
    (hreader : ¬ L.exclusive x.lock) : ∀ j y, t.inside j = some y → ¬ L.exclusive y.lock := by
  intro j y hy hwriter
  by_cases hij : i = j
  · subst hij
    obtain rfl := Option.some.inj (hx.symm.trans hy)
    exact hreader hwriter
  · rw [h.alone j y hy hwriter i hij] at hx
    cases hx

/-- What a reader may call next, and where that leaves it. -/
theorem Orderly.next_read (h : Orderly L code env s done w t now) (hinside : t.inside i = some x)
    (hleft : x.left = .call e k) (hnot : ¬ L.acquires e) (hreader : ¬ L.exclusive x.lock) :
    Keeps env e ∧ ∀ r, Until L.acquires (Keeps env) (k r) fun y => y.2 = t.guarded := by
  have huntil := h.reads i x hinside hreader
  rw [hleft] at huntil
  exact huntil.resolve_left hnot

variable [DecidableEq ι]

/-- Who is inside after one thread has moved: that thread, or one that was inside before. -/
theorem inside_update {inside : ι → Option (Holder E R F O A M)}
    {here : Option (Holder E R F O A M)} {j : ι} {y : Holder E R F O A M}
    (h : Function.update inside i here j = some y) :
    (j = i ∧ here = some y) ∨ (j ≠ i ∧ inside j = some y) := by
  by_cases hj : j = i
  · subst hj
    rw [Function.update_self] at h
    exact .inl ⟨rfl, h⟩
  · rw [Function.update_of_ne hj] at h
    exact .inr ⟨hj, h⟩

/-- A thread enters. The world is that of the last return, or a writer would be inside. -/
theorem Orderly.enters (hdis : Disciplined L code env) (h : Orderly L code env s done w t now)
    (hcode : code op t.guarded = .call e k) (hacquires : L.acquires e)
    (hfree : ∀ j x, t.inside j = some x → ¬ L.exclusive e ∧ ¬ L.exclusive x.lock)
    (henv : env now ⟨e, r⟩ now') :
    Orderly L code env s done w
      { t with inside := Function.update t.inside i (some ⟨e, op, [⟨e, r⟩], k r⟩) } now' := by
  obtain rfl : now = w := h.still fun j x hx => (hfree j x hx).2
  obtain rfl : now' = now := hdis.lock e (.inl hacquires) _ _ _ henv
  refine ⟨h.serial, fun j y hy => ?_, fun j y hy hreader => ?_, fun j y hy hwriter j' hj' => ?_,
    fun _ => rfl⟩
  · rcases inside_update hy with ⟨rfl, hnew⟩ | ⟨-, hy⟩
    · obtain rfl := Option.some.inj hnew
      refine ⟨?_, .cons henv (.nil _)⟩
      show Reaches (code op t.guarded) _ _
      rw [hcode]
      exact .cons (.nil _)
    · exact h.inside j y hy
  · rcases inside_update hy with ⟨rfl, hnew⟩ | ⟨-, hy⟩
    · obtain rfl := Option.some.inj hnew
      exact hdis.reads op t.guarded e k r hcode hacquires hreader
    · exact h.reads j y hy hreader
  · show Function.update t.inside i _ j' = none
    rcases inside_update hy with ⟨rfl, hnew⟩ | ⟨-, hy⟩
    · -- a writer enters where nobody is
      obtain rfl := Option.some.inj hnew
      rw [Function.update_of_ne hj']
      refine Option.eq_none_iff_forall_ne_some.mpr fun z hz => ?_
      exact (hfree j' z hz).1 hwriter
    · exact absurd hwriter (hfree j y hy).2

/-- A thread makes a call. Where it is a reader the world stays; where it is a writer nobody else is
inside. -/
theorem Orderly.calls (h : Orderly L code env s done w t now) (hinside : t.inside i = some x)
    (hleft : x.left = .call e k) (hnot : ¬ L.acquires e) (henv : env now ⟨e, r⟩ now') :
    Orderly L code env s done w
      { t with inside := Function.update t.inside i (some (x.next ⟨e, r⟩ (k r))) } now' := by
  obtain ⟨hreaches, hrun⟩ := h.inside i x hinside
  rw [hleft] at hreaches
  refine ⟨h.serial, fun j y hy => ?_, fun j y hy hreader => ?_, fun j y hy hwriter j' hj' => ?_,
    fun hnone => ?_⟩
  · rcases inside_update hy with ⟨rfl, hnew⟩ | ⟨hj, hy⟩
    · obtain rfl := Option.some.inj hnew
      exact ⟨hreaches.snoc r, hrun.append (.cons henv (.nil _))⟩
    · obtain ⟨hreaches', hrun'⟩ := h.inside j y hy
      refine ⟨hreaches', ?_⟩
      -- somebody else is inside, so this one is a reader
      have hreader : ¬ L.exclusive x.lock := by
        intro hwriter
        rw [h.alone i x hinside hwriter j hj] at hy
        cases hy
      obtain rfl : now' = now := (h.next_read hinside hleft hnot hreader).1 _ _ _ henv
      exact hrun'
  · rcases inside_update hy with ⟨rfl, hnew⟩ | ⟨-, hy⟩
    · obtain rfl := Option.some.inj hnew
      exact (h.next_read hinside hleft hnot hreader).2 r
    · exact h.reads j y hy hreader
  · show Function.update t.inside i _ j' = none
    rcases inside_update hy with ⟨rfl, hnew⟩ | ⟨hj, hy⟩
    · obtain rfl := Option.some.inj hnew
      rw [Function.update_of_ne hj']
      exact h.alone j x hinside hwriter j' hj'
    · rw [h.alone j y hy hwriter i (Ne.symm hj)] at hinside
      cases hinside
  · have hreader : ¬ L.exclusive x.lock :=
      hnone i (x.next ⟨e, r⟩ (k r)) (Function.update_self i _ _)
    obtain rfl : now' = now := (h.next_read hinside hleft hnot hreader).1 _ _ _ henv
    exact h.still (h.readers hinside hreader)

/-- **A thread returns.** It has performed its operation as if alone: where it is a reader, from
the state that it still finds, and where it is a writer, because it was. -/
theorem Orderly.leaves (hdis : Disciplined L code env) (h : Orderly L code env s done w t now)
    (hinside : t.inside i = some x) (hleft : x.left = .call e k) (hreleases : L.releases e)
    (henv : env now ⟨e, r⟩ now') {a : A} {m : M} (hret : k r = .ret (a, m)) :
    Orderly L code env s (done ++ [⟨x.op, x.tr ++ [⟨e, r⟩], a⟩]) now'
      { guarded := m, inside := Function.update t.inside i none } now' := by
  obtain ⟨hreaches, hrun⟩ := h.inside i x hinside
  rw [hleft] at hreaches
  have hended : Reaches (code x.op t.guarded) (x.tr ++ [⟨e, r⟩]) (.ret (a, m)) := by
    rw [← hret]
    exact hreaches.snoc r
  obtain rfl : now' = now := hdis.lock e (.inr hreleases) _ _ _ henv
  have hserial : Run (Serial code env) s (done ++ [⟨x.op, x.tr ++ [⟨e, r⟩], a⟩]) (m, now') :=
    h.serial.append (.cons ⟨hended.ended, hrun.append (.cons henv (.nil _))⟩ (.nil _))
  -- who is inside still was there before, so this one is a reader
  have hcases : ∀ j y, Function.update t.inside i none j = some y →
      t.inside j = some y ∧ m = t.guarded ∧ now' = w := by
    intro j y hy
    rcases inside_update hy with ⟨-, hy⟩ | ⟨hj, hy⟩
    · cases hy
    have hreader : ¬ L.exclusive x.lock := by
      intro hwriter
      rw [h.alone i x hinside hwriter j hj] at hy
      cases hy
    have hend := (h.next_read hinside hleft (hdis.apart e hreleases) hreader).2 r
    rw [hret] at hend
    exact ⟨hy, hend, h.still (h.readers hinside hreader)⟩
  refine ⟨hserial, fun j y hy => ?_, fun j y hy hreader => ?_, fun j y hy hwriter j' hj' => ?_,
    fun _ => rfl⟩
  · obtain ⟨hthere, rfl, rfl⟩ := hcases j y hy
    exact h.inside j y hthere
  · obtain ⟨hthere, rfl, -⟩ := hcases j y hy
    exact h.reads j y hthere hreader
  · obtain ⟨hj, hy⟩ := (inside_update hy).resolve_left fun hnone => by cases hnone.2
    rw [h.alone j y hy hwriter i (Ne.symm hj)] at hinside
    cases hinside

theorem orderly_step (hdis : Disciplined L code env) {l : LockLabel ι E R O A}
    (h : Orderly L code env s done w t now) (hstep : LockStep L code env (t, now) l (t', now')) :
    ∃ w', Orderly L code env s (done ++ returned [l]) w' t' now' := by
  cases hstep with
  | enters hidle hcode hacquires hfree henv =>
    rw [show returned [_] = [] from rfl, List.append_nil]
    exact ⟨w, h.enters hdis hcode hacquires hfree henv⟩
  | calls hinside hleft hother henv =>
    rw [show returned [_] = [] from rfl, List.append_nil]
    exact ⟨w, h.calls hinside hleft hother.1 henv⟩
  | leaves hinside hleft hreleases henv hret =>
    exact ⟨_, h.leaves hdis hinside hleft hreleases henv hret⟩

/-- **The threads take turns.** Whatever the order of their steps, the operations that have returned
might have been performed one after the other, in the order they returned, each with the same calls
and the same answer; whoever is inside might have entered after the last of them. -/
theorem serial_of_run (hdis : Disciplined L code env) {ls : List (LockLabel ι E R O A)} {m : M}
    (hrun : Run (LockStep L code env) (Threads.start ι E R F O A m, w) ls (t, now)) :
    ∃ w', Run (Serial code env) (m, w) (returned ls) (t.guarded, w') ∧
      (∀ i x, t.inside i = some x →
        Reaches (code x.op t.guarded) x.tr x.left ∧ Run env w' x.tr now) ∧
      ((∀ i x, t.inside i = some x → ¬ L.exclusive x.lock) → w' = now) := by
  have hhistory : ∃ w', Orderly L code env (m, w) (returned ls) w' t now := by
    refine Run.history
      (K := fun ls (u : Threads ι E R F O A M × W) =>
        ∃ w', Orderly L code env (m, w) (returned ls) w' u.1 u.2)
      (fun ls u l u' hK hstep => ?_) hrun ⟨w, orderly_start m w⟩
    obtain ⟨w', h⟩ := hK
    rw [returned, List.filterMap_append]
    exact orderly_step hdis h hstep
  obtain ⟨w', h⟩ := hhistory
  exact ⟨w', h.serial, h.inside, fun hreaders => (h.still hreaders).symm⟩

/-! ## One thread alone -/

/-- The trace takes the lock first, gives it back last, and leaves it alone in between. -/
def Locking (L : Lock E) (tr : List (Event E R)) : Prop :=
  ∃ first mid last, tr = first :: (mid ++ [last]) ∧ L.acquires first.1 ∧ L.releases last.1 ∧
    ∀ ev ∈ mid, ¬ L.acquires ev.1 ∧ ¬ L.releases ev.1

theorem eq_ret_of_traces {p : Prog E R F α} {a : α} (h : Traces p [] (.ret a)) : p = .ret a := by
  cases p with
  | ret b =>
    cases h
    rfl
  | halt x => cases h
  | call e k => cases h

/-- A thread that is inside goes on to its end, while the others stay where they are. -/
theorem leaves_alone {m m' : M} {a : A} {last : Event E R}
    (inside : ι → Option (Holder E R F O A M)) (i : ι) (hlast : L.releases last.1) :
    ∀ {mid : List (Event E R)} {x : Holder E R F O A M} {w : W},
      Traces x.left (mid ++ [last]) (.ret (a, m')) → Run env w (mid ++ [last]) now →
      (∀ ev ∈ mid, ¬ L.acquires ev.1 ∧ ¬ L.releases ev.1) →
      ∃ ls, ls.map LockLabel.event = mid ∧ returned ls = [] ∧
        Run (LockStep L code env) (⟨m, Function.update inside i (some x)⟩, w)
          (ls ++ [.leaves i last ⟨x.op, x.tr ++ (mid ++ [last]), a⟩])
          (⟨m', Function.update inside i none⟩, now)
  | [], x, w, htr, hrun, _ => by
    have hthere : Function.update inside i (some x) i = some x := Function.update_self i _ _
    generalize hleft : x.left = p at htr
    cases htr with
    | call htr =>
      cases hrun with
      | cons henv hrest =>
        cases hrest
        have hstep : LockStep L code env (⟨m, Function.update inside i (some x)⟩, w)
            (.leaves i _ ⟨x.op, x.tr ++ [_], a⟩) (⟨m', _⟩, now) :=
          .leaves hthere hleft hlast henv (eq_ret_of_traces htr)
        rw [Function.update_idem] at hstep
        exact ⟨[], rfl, rfl, .cons hstep (.nil _)⟩
  | ev :: mid, x, w, htr, hrun, hmid => by
    have hthere : Function.update inside i (some x) i = some x := Function.update_self i _ _
    obtain ⟨hother, hothers⟩ := List.forall_mem_cons.mp hmid
    generalize hleft : x.left = p at htr
    cases htr with
    | @call e k r _ _ htr =>
      cases hrun with
      | @cons _ w₁ _ _ _ henv hrest =>
        obtain ⟨ls, hevents, hnone, hls⟩ :=
          leaves_alone inside i hlast (x := x.next ⟨e, r⟩ (k r)) htr hrest hothers
        have hstep : LockStep L code env (⟨m, Function.update inside i (some x)⟩, w)
            (.calls i ⟨e, r⟩) (⟨m, _⟩, _) := .calls hthere hleft hother henv
        rw [Function.update_idem] at hstep
        refine ⟨.calls i ⟨e, r⟩ :: ls, ?_, hnone, .cons hstep ?_⟩
        · rw [List.map_cons, hevents]
          rfl
        rw [show x.tr ++ (⟨e, r⟩ :: mid ++ [last]) =
          (x.next ⟨e, r⟩ (k r)).tr ++ (mid ++ [last]) from List.append_cons _ _ _]
        exact hls

/-- **Any operation can be performed**: what one thread does alone is what the lock allows. -/
theorem run_alone {m m' : M} {op : O} {a : A} {tr : List (Event E R)} (i : ι)
    (htr : Traces (code op m) tr (.ret (a, m'))) (hrun : Run env w tr now) (hlock : Locking L tr) :
    ∃ ls ev, .leaves i ev ⟨op, tr, a⟩ ∈ ls ∧ ls.map LockLabel.event = tr ∧
      Run (LockStep L code env) (Threads.start ι E R F O A m, w) ls
        (Threads.start ι E R F O A m', now) := by
  obtain ⟨first, mid, last, rfl, hfirst, hlast, hmid⟩ := hlock
  generalize hcode : code op m = p at htr
  cases htr with
  | @call e k r _ _ htr =>
    cases hrun with
    | cons henv hrest =>
      obtain ⟨ls, hevents, -, hls⟩ :=
        leaves_alone (fun _ => none) i hlast (x := ⟨e, op, [⟨e, r⟩], k r⟩) htr hrest hmid
      rw [Function.update_eq_self] at hls
      have hstep : LockStep L code env (Threads.start ι E R F O A m, w) (.enters i op ⟨e, r⟩) _ :=
        .enters rfl hcode hfirst (fun j x hx => by cases hx) henv
      refine ⟨_, last, List.mem_cons_of_mem _ (List.mem_append_right _ List.mem_cons_self), ?_,
        .cons hstep hls⟩
      rw [List.map_cons, List.map_append, hevents]
      rfl

variable (L code env) in
/-- An operation that reads: it takes the lock as others may, and leaves the value and the world as
they are. -/
structure Reader (m : M) (w : W) (op : O) (first : Event E R) (mid : List (Event E R))
    (last : Event E R) (a : A) : Prop where
  traces : Traces (code op m) (first :: (mid ++ [last])) (.ret (a, m))
  shares : L.acquires first.1 ∧ ¬ L.exclusive first.1
  inside : ∀ ev ∈ mid, ¬ L.acquires ev.1 ∧ ¬ L.releases ev.1
  releases : L.releases last.1
  enters : env w first w
  run : Run env w (mid ++ [last]) w

/-- A reader enters beside readers. -/
theorem Reader.step {m : M} {op : O} {first last : Event E R} {mid : List (Event E R)} {a : A}
    (h : Reader L code env m w op first mid last a) (inside : ι → Option (Holder E R F O A M)) {i : ι}
    (hidle : inside i = none) (hothers : ∀ j x, inside j = some x → ¬ L.exclusive x.lock) :
    ∃ left, Traces left (mid ++ [last]) (.ret (a, m)) ∧
      LockStep L code env (⟨m, inside⟩, w) (.enters i op first)
        (⟨m, Function.update inside i (some ⟨first.1, op, [first], left⟩)⟩, w) := by
  have htr := h.traces
  generalize hcode : code op m = p at htr
  cases htr with
  | call htr =>
    exact ⟨_, htr, .enters (t := ⟨m, inside⟩) hidle hcode h.shares.1
      (fun j x hx => ⟨h.shares.2, hothers j x hx⟩) h.enters⟩

/-- **Two readers can be inside at once**, and the second come out first. -/
theorem run_readers {m : M} {op op' : O} {first last first' last' : Event E R}
    {mid mid' : List (Event E R)} {a a' : A} {i j : ι} (hne : j ≠ i)
    (h : Reader L code env m w op first mid last a)
    (h' : Reader L code env m w op' first' mid' last' a') : ∃ ls,
    returned ls = [⟨op', first' :: (mid' ++ [last']), a'⟩, ⟨op, first :: (mid ++ [last]), a⟩] ∧
      Run (LockStep L code env) (Threads.start ι E R F O A m, w)
        (.enters i op first :: .enters j op' first' :: ls) (Threads.start ι E R F O A m, w) := by
  obtain ⟨left, hleft, henters⟩ := h.step (fun _ => none) (i := i) rfl nofun
  let one : ι → Option (Holder E R F O A M) :=
    Function.update (fun _ => none) i (some ⟨first.1, op, [first], left⟩)
  have hfree : one j = none := Function.update_of_ne hne _ _
  obtain ⟨left', hleft', hjoins⟩ := h'.step one hfree fun k x hx => by
    by_cases hk : k = i
    · subst hk
      obtain rfl := Option.some.inj ((Function.update_self k _ _).symm.trans hx)
      exact h.shares.2
    · exact absurd ((Function.update_of_ne hk _ _).symm.trans hx) nofun
  obtain ⟨ls', -, hnone', hfirst⟩ :=
    leaves_alone one j h'.releases (x := ⟨_, op', [first'], left'⟩) hleft' h'.run h'.inside
  rw [← hfree, Function.update_eq_self] at hfirst
  obtain ⟨ls, -, hnone, hsecond⟩ := leaves_alone (fun _ => none) i h.releases
    (x := ⟨_, op, [first], left⟩) hleft h.run h.inside
  rw [Function.update_eq_self] at hsecond
  refine ⟨_, ?_, .cons henters (.cons hjoins (hfirst.append hsecond))⟩
  unfold returned at hnone hnone' ⊢
  rw [List.filterMap_append, List.filterMap_append, List.filterMap_append, hnone, hnone']
  rfl

end Steps

/-! ## Several groups of threads -/

section Crowd

variable {π S ℓ : Type} [DecidableEq π]

/-- One step of one of several systems that share a world. -/
inductive Crowd (step : S × W → ℓ → S × W → Prop) : (π → S) × W → π × ℓ → (π → S) × W → Prop
  | step {ss : π → S} {w w' : W} {p : π} {l : ℓ} {s : S} (hstep : step (ss p, w) l (s, w')) :
      Crowd step (ss, w) (p, l) (Function.update ss p s, w')

variable [DecidableEq ι] {L code env} {w w' : W} {p : π}
variable {ts ts' : π → Threads ι E R F O A M} {ls : List (π × LockLabel ι E R O A)}

/-- All calls of all groups, in order. -/
def events (ls : List (π × LockLabel ι E R O A)) : List (Event E R) :=
  ls.map fun l => l.2.event

theorem LockStep.change {t t' : Threads ι E R F O A M} {l : LockLabel ι E R O A}
    (h : LockStep L code env (t, w) l (t', w')) : env w l.event w' := by
  cases h with
  | enters _ _ _ _ henv => exact henv
  | calls _ _ _ henv => exact henv
  | leaves _ _ _ henv _ => exact henv

/-- The world sees the calls, whoever makes them. -/
theorem world_of_crowd (hrun : Run (Crowd (LockStep L code env)) (ts, w) ls (ts', w')) :
    Run env w (events ls) w' := by
  generalize hs : (ts, w) = s at hrun
  generalize ht : (ts', w') = t at hrun
  induction hrun generalizing ts w with
  | nil s =>
    obtain ⟨-, rfl⟩ := Prod.mk.inj (hs.trans ht.symm)
    exact .nil _
  | cons hl _ ih =>
    cases hl with
    | step hstep =>
      obtain ⟨rfl, rfl⟩ := Prod.mk.inj hs
      exact .cons hstep.change (ih rfl ht)

/-- What a group does alone is a run of them all. -/
theorem crowd_alone {t t' : Threads ι E R F O A M} {ls : List (LockLabel ι E R O A)} (p : π)
    (hrun : Run (LockStep L code env) (t, w) ls (t', w')) (hthere : ts p = t) :
    Run (Crowd (LockStep L code env)) (ts, w) (ls.map (Prod.mk p))
      (Function.update ts p t', w') := by
  generalize hs : (t, w) = s at hrun
  generalize hs' : (t', w') = s' at hrun
  induction hrun generalizing ts t w with
  | nil s =>
    obtain ⟨rfl, rfl⟩ := Prod.mk.inj (hs.trans hs'.symm)
    rw [← hthere, Function.update_eq_self]
    exact .nil _
  | @cons _ u _ l _ hl _ ih =>
    subst hs hthere
    obtain ⟨t₁, w₁⟩ := u
    have hrest := ih (Function.update_self p t₁ ts) rfl hs'
    rw [Function.update_idem] at hrest
    exact .cons (.step hl) hrest

/-- What is known of a thread inside: where it has come from, and that its calls were made. -/
def Underway (code : O → M → Prog E R F (A × M)) (made : List (Event E R))
    (x : Holder E R F O A M) : Prop :=
  ∃ m, Reaches (code x.op m) x.tr x.left ∧ ∀ ev ∈ x.tr, ev ∈ made

/-- What is known of an operation that has returned. -/
def Genuine (code : O → M → Prog E R F (A × M)) (made : List (Event E R))
    (c : Performed E R O A) : Prop :=
  ∃ m m', Traces (code c.op m) c.tr (.ret (c.answer, m')) ∧ ∀ ev ∈ c.tr, ev ∈ made

theorem Underway.mono {made : List (Event E R)} {x : Holder E R F O A M}
    (h : Underway code made x) (ev : Event E R) : Underway code (made ++ [ev]) x := by
  obtain ⟨m, hreaches, hmade⟩ := h
  exact ⟨m, hreaches, fun ev' hev => List.mem_append_left _ (hmade ev' hev)⟩

/-- One call more. -/
theorem Underway.snoc {made : List (Event E R)} {x : Holder E R F O A M} {e : E}
    {k : R e → Prog E R F (A × M)} (h : Underway code made x) (hleft : x.left = .call e k) (r : R e) :
    ∃ m, Reaches (code x.op m) (x.tr ++ [⟨e, r⟩]) (k r) ∧
      ∀ ev ∈ x.tr ++ [⟨e, r⟩], ev ∈ made ++ [⟨e, r⟩] := by
  obtain ⟨m, hreaches, hmade⟩ := h
  rw [hleft] at hreaches
  refine ⟨m, hreaches.snoc r, List.forall_mem_append.mpr ⟨fun ev hev => ?_, fun ev hev => ?_⟩⟩
  · exact List.mem_append_left _ (hmade ev hev)
  · exact List.mem_append_right _ hev

/-- What one step of a group does to what is known of it. -/
theorem LockStep.genuine {t t' : Threads ι E R F O A M} {l : LockLabel ι E R O A}
    {made : List (Event E R)} (h : LockStep L code env (t, w) l (t', w'))
    (hinside : ∀ i x, t.inside i = some x → Underway code made x) :
    (∀ i x, t'.inside i = some x → Underway code (made ++ [l.event]) x) ∧
      ∀ c, l.performed? = some c → Genuine code (made ++ [l.event]) c := by
  cases h with
  | enters hidle hcode hacquires hfree henv =>
    refine ⟨fun j y hy => ?_, fun c hc => by cases hc⟩
    rcases inside_update hy with ⟨rfl, hnew⟩ | ⟨-, hy⟩
    · obtain rfl := Option.some.inj hnew
      refine ⟨t.guarded, ?_, fun ev hev => List.mem_append_right _ hev⟩
      show Reaches (code _ t.guarded) _ _
      rw [hcode]
      exact .cons (.nil _)
    · exact (hinside j y hy).mono _
  | calls hin hleft hother henv =>
    refine ⟨fun j y hy => ?_, fun c hc => by cases hc⟩
    rcases inside_update hy with ⟨rfl, hnew⟩ | ⟨-, hy⟩
    · obtain rfl := Option.some.inj hnew
      exact (hinside _ _ hin).snoc hleft _
    · exact (hinside j y hy).mono _
  | leaves hin hleft hreleases henv hret =>
    refine ⟨fun j y hy => ?_, fun c hc => ?_⟩
    · rcases inside_update hy with ⟨-, hnone⟩ | ⟨-, hy⟩
      · cases hnone
      · exact (hinside j y hy).mono _
    · obtain rfl := Option.some.inj hc
      obtain ⟨m, hreaches, hmade⟩ := (hinside _ _ hin).snoc hleft _
      rw [hret] at hreaches
      exact ⟨m, _, hreaches.ended, hmade⟩

/-- **What has returned was performed.** Among any number of groups of threads, an operation that
has returned made the calls of one of its traces, from some guarded value, and each is a call of the
run. -/
theorem performed_of_crowd
    (hrun : Run (Crowd (LockStep L code env)) (ts, w) ls (ts', w'))
    (hidle : ∀ p i, (ts p).inside i = none) {i : ι} {ev : Event E R} {c : Performed E R O A}
    (hc : (p, LockLabel.leaves i ev c) ∈ ls) : Genuine code (events ls) c := by
  let K (past : List (π × LockLabel ι E R O A)) (u : (π → Threads ι E R F O A M) × W) : Prop :=
    (∀ p i x, (u.1 p).inside i = some x → Underway code (events past) x) ∧
      ∀ l ∈ past, ∀ c, l.2.performed? = some c → Genuine code (events past) c
  have hkeep : ∀ past u l u', K past u → Crowd (LockStep L code env) u l u' → K (past ++ [l]) u' := by
    intro past u l u' hK hstep
    have hevents : events (past ++ [l]) = events past ++ [l.2.event] := List.map_append
    obtain ⟨hinside, hdone⟩ := hK
    cases hstep with
    | @step ss w w' p l s hstep =>
      obtain ⟨hnow, hleft⟩ := hstep.genuine (hinside p)
      refine ⟨fun q i x hx => ?_, fun l' hl' c hc => ?_⟩
      · rw [hevents]
        by_cases hq : q = p
        · subst hq
          rw [show (Function.update ss q s, w').1 q = s from Function.update_self q s ss] at hx
          exact hnow i x hx
        · rw [show (Function.update ss p s, w').1 q = ss q from Function.update_of_ne hq s ss] at hx
          exact (hinside q i x hx).mono _
      · rw [hevents]
        rcases List.mem_append.mp hl' with hl' | hl'
        · obtain ⟨m, m', htr, hmade⟩ := hdone l' hl' c hc
          exact ⟨m, m', htr, fun ev' hev => List.mem_append_left _ (hmade ev' hev)⟩
        · obtain rfl := List.mem_singleton.mp hl'
          exact hleft c hc
  have hK : K ls (ts', w') := by
    refine Run.history (K := K) hkeep hrun ⟨fun p i x hx => ?_, fun l hl => by cases hl⟩
    rw [hidle p i] at hx
    cases hx
  exact hK.2 _ hc c rfl

end Crowd

end CdfCrypto.Lib
