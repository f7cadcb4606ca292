import Mathlib.Logic.Function.Basic

/-!
# Journals of a keyed store

Whoever keeps records by key may tell a second party of every change, for it to
keep a copy: something made of each record, not the record itself. The changes
told are a journal of `Entry`s, and `replay` is what the second party does with
them. It has no result where an entry adds a key that is there already, or
updates or deletes one that is not.

`ReplaysTo image stored journal` says that the journal replays, and to a copy
with exactly the stored keys, an `image` of its record under each. It is kept by
telling of each change once it is made (`ReplaysTo.create`, `ReplaysTo.update`,
`ReplaysTo.delete`).
-/

namespace CdfCrypto.Lib

variable {κ ν ρ : Type} [DecidableEq κ]

inductive Entry (κ ν : Type)
  | create (k : κ) (v : ν)
  | update (k : κ) (v : ν)
  | delete (k : κ)

/-- The copy after one entry. -/
def Entry.apply (m : κ → Option ν) : Entry κ ν → Option (κ → Option ν)
  | .create k v => if m k = none then some (Function.update m k (some v)) else none
  | .update k v => if m k = none then none else some (Function.update m k (some v))
  | .delete k => if m k = none then none else some (Function.update m k none)

/-- The copy after a journal, in order. -/
def replay (m : κ → Option ν) : List (Entry κ ν) → Option (κ → Option ν)
  | [] => some m
  | entry :: journal => (entry.apply m).bind fun m' => replay m' journal

theorem replay_append : ∀ (journal journal' : List (Entry κ ν)) (m : κ → Option ν),
    replay m (journal ++ journal') = (replay m journal).bind fun m' => replay m' journal'
  | [], _, _ => rfl
  | entry :: journal, journal', m => by
    rw [List.cons_append, replay, replay, Option.bind_assoc]
    exact congrArg _ (funext fun m' => replay_append journal journal' m')

/-- The journal replays from nothing, to an image of what is stored under every
key and to nothing elsewhere. -/
def ReplaysTo (image : ρ → ν → Prop) (stored : κ → Option ρ) (journal : List (Entry κ ν)) : Prop :=
  ∃ m, replay (fun _ => none) journal = some m ∧ ∀ k, Option.Rel image (stored k) (m k)

theorem replaysTo_nil (image : ρ → ν → Prop) :
    ReplaysTo image (fun _ : κ => none) ([] : List (Entry κ ν)) :=
  ⟨fun _ => none, rfl, fun _ => .none⟩

namespace ReplaysTo

variable {image : ρ → ν → Prop} {stored : κ → Option ρ} {journal : List (Entry κ ν)}

/-- What one further entry must do. -/
theorem snoc {stored' : κ → Option ρ} {entry : Entry κ ν} (h : ReplaysTo image stored journal)
    (hentry : ∀ m : κ → Option ν, (∀ k, Option.Rel image (stored k) (m k)) →
      ∃ m', entry.apply m = some m' ∧ ∀ k, Option.Rel image (stored' k) (m' k)) :
    ReplaysTo image stored' (journal ++ [entry]) := by
  obtain ⟨m, hm, himage⟩ := h
  obtain ⟨m', hm', himage'⟩ := hentry m himage
  refine ⟨m', ?_, himage'⟩
  rw [replay_append, hm, Option.bind_some, replay, hm']
  rfl

/-- Changing a record and its image together. -/
theorem rel_update {m : κ → Option ν} (h : ∀ k, Option.Rel image (stored k) (m k)) {k : κ}
    {r : Option ρ} {v : Option ν} (hk : Option.Rel image r v) (k' : κ) :
    Option.Rel image (Function.update stored k r k') (Function.update m k v k') := by
  by_cases hkk : k' = k
  · subst hkk
    simpa using hk
  · simpa [hkk] using h k'

theorem create (h : ReplaysTo image stored journal) {k : κ} {r : ρ} {v : ν}
    (hnew : stored k = none) (hv : image r v) :
    ReplaysTo image (Function.update stored k (some r)) (journal ++ [.create k v]) := by
  refine h.snoc fun m hm => ⟨Function.update m k (some v), ?_, rel_update hm (.some hv)⟩
  have hk := hm k
  rw [hnew] at hk
  cases hmk : m k with
  | none => exact if_pos hmk
  | some v' =>
    rw [hmk] at hk
    cases hk

omit [DecidableEq κ] in
/-- A stored key is in the copy. -/
theorem ne_none_of_stored {m : κ → Option ν} (h : ∀ k, Option.Rel image (stored k) (m k)) {k : κ}
    {r : ρ} (hold : stored k = some r) : m k ≠ none := by
  intro hmk
  have hk := h k
  rw [hold, hmk] at hk
  cases hk

theorem update (h : ReplaysTo image stored journal) {k : κ} {r r' : ρ} {v : ν}
    (hold : stored k = some r) (hv : image r' v) :
    ReplaysTo image (Function.update stored k (some r')) (journal ++ [.update k v]) :=
  h.snoc fun m hm => ⟨Function.update m k (some v), if_neg (ne_none_of_stored hm hold),
    rel_update hm (.some hv)⟩

theorem delete (h : ReplaysTo image stored journal) {k : κ} {r : ρ} (hold : stored k = some r) :
    ReplaysTo image (Function.update stored k none) (journal ++ [.delete k]) :=
  h.snoc fun m hm => ⟨Function.update m k none, if_neg (ne_none_of_stored hm hold),
    rel_update hm .none⟩

end ReplaysTo

end CdfCrypto.Lib
