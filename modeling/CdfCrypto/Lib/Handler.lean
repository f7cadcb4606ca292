import CdfCrypto.Lib.Prog

/-!
# Programs inside other programs

A program that makes calls of one kind can run inside one that makes more: `Prog.within` renames
its calls, and its executions are those it had, renamed (`wpIn_within`).

A handler answers each call by a program of its own. `Prog.handle` puts these programs in the
place of the calls, as a way to forget a kind of call, or to say what it stands for. Where an
environment can play the handler's part, what holds of every execution of the handled program
holds of the program itself (`wpIn_of_handle`).

`Prog.serve` is the same with a state that the handler hands on from call to call, and with answers
that may be exceptions. A program that comes to a value so has a trace whose events were served one
after the other (`wp_serve`).
-/

namespace CdfCrypto.Lib

open Prog

variable {E E' : Type} {R : E → Type} {R' : E' → Type} {F α β γ : Type}

theorem Prog.bind_assoc (p : Prog E R F α) (f : α → Prog E R F β) (g : β → Prog E R F γ) :
    ((p >>= f) >>= g) = p >>= fun a => f a >>= g := by
  induction p with
  | ret a => rfl
  | halt x => rfl
  | call e k ih =>
    show Prog.call e _ = Prog.call e _
    exact congrArg (Prog.call e) (funext ih)

theorem Prog.bind_ret (p : Prog E R F α) : (p >>= fun a => .ret a) = p := by
  induction p with
  | ret a => rfl
  | halt x => rfl
  | call e k ih =>
    show Prog.call e _ = Prog.call e _
    exact congrArg (Prog.call e) (funext ih)

/-- A trace of a sequence, where its first part comes to a value. -/
theorem Traces.bind {p : Prog E R F α} {f : α → Prog E R F β} {tr tr' : List (Event E R)} {a : α}
    {o : Outcome F β} (h : Traces p tr (.ret a)) (h' : Traces (f a) tr' o) :
    Traces (p >>= f) (tr ++ tr') o := by
  generalize ho : (Outcome.ret a : Outcome F α) = end' at h
  induction h with
  | ret b =>
    obtain rfl := Outcome.ret.inj ho
    exact h'
  | halt x => cases ho
  | call _ ih => exact .call (ih ho)

/-! ## More calls -/

section Within

variable {inj : E → E'}

/-- The program, with its calls among more. -/
def Prog.within (inj : E → E') : Prog E (fun e => R' (inj e)) F α → Prog E' R' F α
  | .ret a => .ret a
  | .halt f => .halt f
  | .call e k => .call (inj e) fun r => (k r).within inj

/-- The event, with its call among more. -/
def Event.within (inj : E → E') (ev : Event E (fun e => R' (inj e))) : Event E' R' :=
  ⟨inj ev.1, ev.2⟩

/-- The traces are those of the program itself, renamed. -/
theorem wp_within {p : Prog E (fun e => R' (inj e)) F α}
    {Q : List (Event E' R') → Outcome F α → Prop} :
    wp (p.within inj) Q ↔ wp p fun tr o => Q (tr.map (Event.within inj)) o := by
  induction p generalizing Q with
  | ret a => rfl
  | halt x => rfl
  | call e k ih => exact forall_congr' fun r => ih r

/-- The executions are those of the program itself. -/
theorem wpIn_within {W : Type} {env : W → Event E' R' → W → Prop}
    {p : Prog E (fun e => R' (inj e)) F α} {w : W}
    {Q : List (Event E' R') → Outcome F α → W → Prop} :
    wpIn env (p.within inj) w Q ↔ wpIn (fun w ev w' => env w (ev.within inj) w') p w
      fun tr o w' => Q (tr.map (Event.within inj)) o w' := by
  induction p generalizing w Q with
  | ret a => rfl
  | halt x => rfl
  | call e k ih => exact forall_congr' fun r => forall_congr' fun w' => imp_congr_right fun _ => ih r

/-- Its calls are those of the program itself. -/
theorem Total.within {A : E' → Prop} {p : Prog E (fun e => R' (inj e)) F α} {P : α → Prop}
    (h : Total (fun e => A (inj e)) p P) : Total A (p.within inj) P := by
  induction p with
  | ret a => exact h
  | halt x => exact h
  | call e k ih => exact ⟨h.1, fun r => ih r (h.2 r)⟩

theorem Calls.within {A : E' → Prop} {p : Prog E (fun e => R' (inj e)) F α}
    (h : Calls (fun e => A (inj e)) p) : Calls A (p.within inj) := by
  induction p with
  | ret a => trivial
  | halt x => trivial
  | call e k ih => exact ⟨h.1, fun r => ih r (h.2 r)⟩

end Within

/-! ## Calls that stand for programs -/

section Handle

variable {h : (e : E) → Prog E' R' F (R e)}

/-- The program, with each call answered by a program. -/
def Prog.handle (h : (e : E) → Prog E' R' F (R e)) : Prog E R F α → Prog E' R' F α
  | .ret a => .ret a
  | .halt f => .halt f
  | .call e k => h e >>= fun r => (k r).handle h

@[simp] theorem handle_ret (a : α) : (.ret a : Prog E R F α).handle h = .ret a := rfl

@[simp] theorem handle_halt (x : F) : (.halt x : Prog E R F α).handle h = .halt x := rfl

theorem handle_call (e : E) (k : R e → Prog E R F α) :
    (Prog.call e k).handle h = h e >>= fun r => (k r).handle h := rfl

theorem handle_perform_bind (e : E) (f : R e → Prog E R F α) :
    (perform e >>= f).handle h = h e >>= fun r => (f r).handle h := rfl

theorem handle_bind (p : Prog E R F α) (f : α → Prog E R F β) :
    (p >>= f).handle h = p.handle h >>= fun a => (f a).handle h := by
  induction p with
  | ret a => rfl
  | halt x => rfl
  | call e k ih =>
    rw [handle_call, Prog.bind_assoc]
    exact congrArg (h e >>= ·) (funext ih)

/-- What was put among more calls comes back where the handler passes its calls on. -/
theorem handle_within (inj : E → E') {h : (e : E') → Prog E (fun e => R' (inj e)) F (R' e)}
    (hpass : ∀ e, h (inj e) = perform e) (p : Prog E (fun e => R' (inj e)) F α) :
    (p.within inj).handle h = p := by
  induction p with
  | ret a => rfl
  | halt x => rfl
  | call e k ih =>
    show (h (inj e) >>= fun r => ((k r).within inj).handle h) = Prog.call e k
    rw [hpass]
    exact congrArg (Prog.call e) (funext ih)

variable {W : Type} {env : W → Event E R → W → Prop} {env' : W → Event E' R' → W → Prop}

/-- **An environment that plays the handler.** Where every answer of one environment is one the
handler comes to in the other, the program does nothing that the handled program does not. -/
theorem Exec.handle
    (hplays : ∀ e r w w', env w ⟨e, r⟩ w' → ∃ tr, Exec env' (h e) w tr (.ret r) w')
    {p : Prog E R F α} {w w' : W} {tr : List (Event E R)} {o : Outcome F α}
    (hexec : Exec env p w tr o w') : ∃ tr', Exec env' (p.handle h) w tr' o w' := by
  obtain ⟨htr, hrun⟩ := hexec
  induction htr generalizing w with
  | ret a =>
    cases hrun
    exact ⟨[], .ret a, .nil _⟩
  | halt x =>
    cases hrun
    exact ⟨[], .halt x, .nil _⟩
  | call _ ih =>
    cases hrun with
    | cons hstep hrest =>
      obtain ⟨first, hfirst, hrunFirst⟩ := hplays _ _ _ _ hstep
      obtain ⟨others, hothers, hrunOthers⟩ := ih hrest
      exact ⟨first ++ others, hfirst.bind hothers, hrunFirst.append hrunOthers⟩

theorem wpIn_of_handle
    (hplays : ∀ e r w w', env w ⟨e, r⟩ w' → ∃ tr, Exec env' (h e) w tr (.ret r) w')
    {p : Prog E R F α} {w : W} {Q : Outcome F α → W → Prop}
    (hp : wpIn env' (p.handle h) w fun _ o w' => Q o w') : wpIn env p w fun _ o w' => Q o w' := by
  refine wpIn_iff.mpr fun tr o w' hexec => ?_
  obtain ⟨tr', hexec'⟩ := Exec.handle hplays hexec
  exact wpIn_iff.mp hp tr' o w' hexec'

end Handle

/-! ## Calls that a state serves -/

section Serve

variable {S X F' : Type} {host : (e : E) → S → Prog E' R' F' (Except X (R e) × S)} {fault : F → F'}

/-- Go on with an answer and a state. An exception ends the whole. -/
def goOn (f : β → S → Prog E' R' F' (Except X α × S)) :
    Except X β × S → Prog E' R' F' (Except X α × S)
  | (.error x, s) => .ret (.error x, s)
  | (.ok b, s) => f b s

/-- The program, with each call answered by a program that hands a state on. -/
def Prog.serve (host : (e : E) → S → Prog E' R' F' (Except X (R e) × S)) (fault : F → F') :
    Prog E R F α → S → Prog E' R' F' (Except X α × S)
  | .ret a, s => .ret (.ok a, s)
  | .halt x, _ => .halt (fault x)
  | .call e k, s => host e s >>= goOn fun r s' => (k r).serve host fault s'

theorem serve_call (e : E) (k : R e → Prog E R F α) (s : S) : (Prog.call e k).serve host fault s =
    host e s >>= goOn fun r s' => (k r).serve host fault s' := rfl

theorem serve_perform_bind (e : E) (f : R e → Prog E R F α) (s : S) :
    (perform e >>= f).serve host fault s =
      host e s >>= goOn fun r s' => (f r).serve host fault s' := rfl

theorem serve_bind (p : Prog E R F α) (f : α → Prog E R F β) : ∀ s : S,
    (p >>= f).serve host fault s =
      p.serve host fault s >>= goOn fun a s' => (f a).serve host fault s' := by
  induction p with
  | ret a => exact fun s => rfl
  | halt x => exact fun s => rfl
  | call e k ih =>
    intro s
    show host e s >>= _ = (host e s >>= _) >>= _
    rw [Prog.bind_assoc]
    congr 1
    funext reply
    obtain ⟨result, s'⟩ := reply
    cases result with
    | error x => rfl
    | ok r => exact ih r s'

/-- The events of a program, with the states and the calls they were served by. -/
inductive Served (host : (e : E) → S → Prog E' R' F' (Except X (R e) × S)) :
    S → List (Event E R) → List (Event E' R') → S → Prop
  | nil (s : S) : Served host s [] [] s
  | cons {e : E} {r : R e} {s s' s'' : S} {evs : List (Event E R)} {first rest : List (Event E' R')}
      (hfirst : Traces (host e s) first (.ret (.ok r, s'))) (hrest : Served host s' evs rest s'') :
      Served host s (⟨e, r⟩ :: evs) (first ++ rest) s''

/-- **What was served** is a trace of the program. -/
theorem wp_serve (p : Prog E R F α) : ∀ s : S, wp (p.serve host fault s) fun tr o =>
    ∀ a s', o = .ret (.ok a, s') → ∃ evs, Traces p evs (.ret a) ∧ Served host s evs tr s' := by
  induction p with
  | ret a =>
    intro s b s' heq
    obtain ⟨hval, rfl⟩ := Prod.mk.inj (Outcome.ret.inj heq)
    obtain rfl := Except.ok.inj hval
    exact ⟨[], .ret a, .nil s⟩
  | halt x => exact fun s a s' heq => by cases heq
  | call e k ih =>
    intro s
    have hown : wp (host e s) (Traces (host e s)) := wp_iff.mpr fun _ _ h => h
    rw [serve_call]
    refine wp_bind_of hown (fun tr reply hfirst => ?_) fun tr x _ a s' heq => by cases heq
    obtain ⟨result, s₁⟩ := reply
    cases result with
    | error x => exact fun a s' heq => by cases heq
    | ok r =>
      refine wp_mono (ih r s₁) fun tr' o h a s' heq => ?_
      obtain ⟨evs, htr, hserved⟩ := h a s' heq
      exact ⟨⟨e, r⟩ :: evs, .call htr, .cons hfirst hserved⟩

/-- Each event is served by calls of the whole. -/
theorem Served.of_mem {s s' : S} {evs : List (Event E R)} {tr : List (Event E' R')}
    (h : Served host s evs tr s') {ev : Event E R} (hev : ev ∈ evs) : ∃ s₁ s₂ part,
      Traces (host ev.1 s₁) part (.ret (.ok ev.2, s₂)) ∧ ∀ x ∈ part, x ∈ tr := by
  induction h with
  | nil s => cases hev
  | cons hfirst _ ih =>
    rcases List.mem_cons.mp hev with rfl | hev
    · exact ⟨_, _, _, hfirst, fun x hx => List.mem_append_left _ hx⟩
    · obtain ⟨s₁, s₂, part, htr, hmem⟩ := ih hev
      exact ⟨s₁, s₂, part, htr, fun x hx => List.mem_append_right _ (hmem x hx)⟩

variable {A : E → Prop}

/-- What the events of every service satisfy, those of the whole do. -/
theorem wp_serve_events {P : Event E' R' → Prop}
    (hserve : ∀ e s, A e → wp (host e s) fun tr _ => ∀ ev ∈ tr, P ev) {p : Prog E R F α}
    (hp : Calls A p) : ∀ s : S, wp (p.serve host fault s) fun tr _ => ∀ ev ∈ tr, P ev := by
  induction p with
  | ret a => exact fun s ev hev => absurd hev List.not_mem_nil
  | halt x => exact fun s ev hev => absurd hev List.not_mem_nil
  | call e k ih =>
    intro s
    rw [serve_call]
    refine wp_bind_of (hserve e s hp.1) (fun tr reply hfirst => ?_) fun tr x h => h
    obtain ⟨result, s₁⟩ := reply
    cases result with
    | error x =>
      show ∀ ev ∈ tr ++ [], P ev
      rw [List.append_nil]
      exact hfirst
    | ok r =>
      refine wp_mono (ih r (hp.2 r) s₁) fun tr' o hrest => ?_
      exact List.forall_mem_append.mpr ⟨hfirst, hrest⟩

theorem Calls.serve {B : E' → Prop} (hserve : ∀ e s, A e → Calls B (host e s))
    {p : Prog E R F α} (hp : Calls A p) : ∀ s : S, Calls B (p.serve host fault s) := by
  induction p with
  | ret a => exact fun _ => trivial
  | halt x => exact fun _ => trivial
  | call e k ih =>
    intro s
    rw [serve_call]
    refine (hserve e s hp.1).bind fun reply => ?_
    obtain ⟨result, s₁⟩ := reply
    cases result with
    | error x => trivial
    | ok r => exact ih r (hp.2 r) s₁

end Serve

end CdfCrypto.Lib
