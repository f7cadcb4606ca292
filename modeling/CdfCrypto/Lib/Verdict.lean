import CdfCrypto.Lib.Prog

/-!
# Answers that tell what happened

A program may say in its value whether something was done while it ran: an exit code, a Boolean, a
status. `Verdict good Op` asks of a trace that the value is `good` just where some event of the
trace satisfies `Op`. What comes before and after the one part that may do it must do nothing of
the kind, and the rules here follow the program: `verdict_bind` for what comes before,
`verdict_perform` for the call itself, `verdict_bind_after` for what comes after.
-/

namespace CdfCrypto.Lib

open Prog

variable {E : Type} {R : E → Type} {F α β : Type}

/-- The value is good just where something of the kind has happened. -/
def Verdict (good : α → Prop) (Op : Event E R → Prop) (tr : List (Event E R)) (o : Outcome F α) :
    Prop := ∀ a, o = .ret a → (good a ↔ ∃ ev ∈ tr, Op ev)

variable {good : β → Prop} {Op : Event E R → Prop}

theorem verdict_ret {b : β} (h : ¬ good b) : wp (.ret b : Prog E R F β) (Verdict good Op) := by
  intro b' heq
  obtain rfl := Outcome.ret.inj heq
  refine iff_of_false h fun hop => ?_
  obtain ⟨ev, hev, -⟩ := hop
  cases hev

/-- What comes before does nothing of the kind. -/
theorem verdict_bind {p : Prog E R F α} {f : α → Prog E R F β}
    (hp : wp p fun tr _ => ∀ ev ∈ tr, ¬ Op ev) (hf : ∀ a, wp (f a) (Verdict good Op)) :
    wp (p >>= f) (Verdict good Op) := by
  refine wp_bind_of hp (fun tr a htr => wp_mono (hf a) fun tr' o h b heq => ?_)
    fun tr x _ b heq => by cases heq
  rw [h b heq]
  constructor
  · rintro ⟨ev, hev, hop⟩
    exact ⟨ev, List.mem_append_right _ hev, hop⟩
  · rintro ⟨ev, hev, hop⟩
    rcases List.mem_append.mp hev with hev | hev
    · exact absurd hop (htr ev hev)
    · exact ⟨ev, hev, hop⟩

/-- The call itself, and what is made of its answer. -/
theorem verdict_perform {e : E} {f : R e → Prog E R F β}
    (hf : ∀ r, wp (f r) fun tr o => (∀ ev ∈ tr, ¬ Op ev) ∧ ∀ b, o = .ret b → (good b ↔ Op ⟨e, r⟩)) :
    wp (perform e >>= f) (Verdict good Op) := by
  intro r
  refine wp_mono (hf r) fun tr o h b heq => ?_
  rw [h.2 b heq]
  constructor
  · exact fun hop => ⟨_, List.mem_cons_self, hop⟩
  · rintro ⟨ev, hev, hop⟩
    rcases List.mem_cons.mp hev with rfl | hev
    · exact hop
    · exact absurd hop (h.1 ev hev)

/-- What comes after does nothing of the kind, and its value says the same. -/
theorem verdict_bind_after {good' : α → Prop} {p : Prog E R F α} {f : α → Prog E R F β}
    (hp : wp p (Verdict good' Op))
    (hf : ∀ a, wp (f a) fun tr o => (∀ ev ∈ tr, ¬ Op ev) ∧ ∀ b, o = .ret b → (good b ↔ good' a)) :
    wp (p >>= f) (Verdict good Op) := by
  refine wp_bind_of hp (fun tr a h => wp_mono (hf a) fun tr' o h' b heq => ?_)
    fun tr x _ b heq => by cases heq
  rw [h'.2 b heq, h a rfl]
  constructor
  · rintro ⟨ev, hev, hop⟩
    exact ⟨ev, List.mem_append_left _ hev, hop⟩
  · rintro ⟨ev, hev, hop⟩
    rcases List.mem_append.mp hev with hev | hev
    · exact ⟨ev, hev, hop⟩
    · exact absurd hop (h'.1 ev hev)

/-- The same where nothing comes after. -/
theorem verdict_bind_ret {good' : α → Prop} {p : Prog E R F α} {f : α → Prog E R F β}
    (hp : wp p (Verdict good' Op)) (hf : ∀ a, ∃ b, f a = .ret b ∧ (good b ↔ good' a)) :
    wp (p >>= f) (Verdict good Op) := by
  refine verdict_bind_after hp fun a => ?_
  obtain ⟨b, hb, hsame⟩ := hf a
  rw [hb]
  refine ⟨fun _ hev => absurd hev List.not_mem_nil, fun b' heq => ?_⟩
  obtain rfl := Outcome.ret.inj heq
  exact hsame

end CdfCrypto.Lib
