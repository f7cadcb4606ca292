import CdfCrypto.Lib.Prog
import Mathlib.Logic.Function.Basic

/-!
# Threads over a shared state

Each thread of a `Pool` runs a program whose calls are the atomic actions on a state they
share. A step lets one thread take its next action, or start another call once its last has
returned, so a run of the pool is one order of the actions of any number of threads. What an
action does to the state does not depend on who takes it (`Step.shared`): an invariant of the
actions is an invariant of every interleaving.
-/

namespace CdfCrypto.Lib

variable {S A F C ε : Type} {R : A → Type}

/-- The shared state, and what each thread has still to do. -/
structure Pool (S A : Type) (R : A → Type) (F : Type) where
  shared : S
  threads : Nat → Prog A R F Unit

/-- What is seen of a step: a call that starts, or an action with its log. -/
inductive PoolLabel (C A ε : Type)
  | starts (i : Nat) (call : C)
  | acts (i : Nat) (action : A) (log : List ε)

/-- What a step puts in the log. -/
def PoolLabel.log : PoolLabel C A ε → List ε
  | starts _ _ => []
  | acts _ _ log => log

/-- One step: `code` says what a call does, `act` what an action does to the state. -/
inductive Pool.Step (code : C → Prog A R F Unit) (act : S → (a : A) → R a → List ε → S → Prop) :
    Pool S A R F → PoolLabel C A ε → Pool S A R F → Prop
  | starts {p : Pool S A R F} {i : Nat} (call : C) : p.threads i = .ret () →
      Step code act p (.starts i call) { p with threads := Function.update p.threads i (code call) }
  | acts {p : Pool S A R F} {i : Nat} {a : A} {k : R a → Prog A R F Unit} {r : R a} {log : List ε}
      {s : S} : p.threads i = .call a k → act p.shared a r log s →
      Step code act p (.acts i a log) ⟨s, Function.update p.threads i (k r)⟩

variable {code : C → Prog A R F Unit} {act : S → (a : A) → R a → List ε → S → Prop}
variable {p q : Pool S A R F} {l : PoolLabel C A ε}

/-- What a step does to the state, whoever takes it: nothing, or one action. -/
theorem Pool.Step.shared (h : Pool.Step code act p l q) :
    (q.shared = p.shared ∧ l.log = []) ∨
      ∃ i a r log, l = .acts i a log ∧ act p.shared a r log q.shared := by
  cases h with
  | starts call hidle => exact .inl ⟨rfl, rfl⟩
  | acts hnext hact => exact .inr ⟨_, _, _, _, rfl, hact⟩

end CdfCrypto.Lib
