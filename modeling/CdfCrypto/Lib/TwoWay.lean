import Mathlib.Data.List.Basic
import Std.Data.ExtTreeMap

/-!
# Two maps over one set of records

A store that keeps records by an identifier and, beside it, an index from a key
of the record back to the identifier. `TwoWay` says that the two are inverse to
each other. It is kept by inserting a record whose identifier and key are both
new (`TwoWay.insert`), and by erasing both entries of a stored record
(`TwoWay.erase`); `insertIfNew`, the insertion that leaves an existing key
alone, is the same as an insertion there and nowhere else; folded over a list it
keeps the first element of every key (`getElem?_foldl_insertIfNew`).
-/

namespace CdfCrypto.Lib

section

variable {κ ι ρ : Type} [Ord κ] [Std.TransOrd κ] [Std.LawfulEqOrd κ]
  [Ord ι] [Std.TransOrd ι] [Std.LawfulEqOrd ι]

/-- Every stored record is found again under its key, and every key leads to a
stored record that has it. -/
structure TwoWay (key : ρ → κ) (ident : ρ → ι) (byIdent : Std.ExtTreeMap ι ρ compare)
    (byKey : Std.ExtTreeMap κ ι compare) : Prop where
  key_of_ident : ∀ (i : ι) (r : ρ), byIdent[i]? = some r → byKey[key r]? = some i ∧ ident r = i
  ident_of_key : ∀ (k : κ) (i : ι), byKey[k]? = some i → ∃ r, byIdent[i]? = some r ∧ key r = k

omit [Std.LawfulEqOrd ι] in
/-- Inserting under a new key; `insertIfNew` elsewhere does nothing. -/
theorem getElem?_insertIfNew_of_new {m : Std.ExtTreeMap ι ρ compare} {i : ι} {r : ρ}
    (hnew : m[i]? = none) (j : ι) :
    (m.insertIfNew i r)[j]? = if compare i j = .eq then some r else m[j]? := by
  rw [Std.ExtTreeMap.getElem?_insertIfNew]
  have hmem : i ∉ m := by
    rw [← Std.ExtTreeMap.isSome_getElem?_iff_mem, hnew]
    simp
  simp only [hmem, not_false_eq_true, and_true]

/-- What an insertion adds is the new pair. -/
theorem getElem?_insertIfNew_some {m : Std.ExtTreeMap ι ρ compare} {i j : ι} {r x : ρ}
    (h : (m.insertIfNew i r)[j]? = some x) : (j = i ∧ x = r) ∨ m[j]? = some x := by
  rw [Std.ExtTreeMap.getElem?_insertIfNew] at h
  split at h
  · next hij =>
    cases h
    exact .inl ⟨(Std.LawfulEqCmp.eq_of_compare hij.1).symm, rfl⟩
  · exact .inr h

omit [Std.LawfulEqOrd ι] in
theorem getElem?_erase_some {m : Std.ExtTreeMap ι ρ compare} {i j : ι} {x : ρ}
    (h : (m.erase i)[j]? = some x) : m[j]? = some x := by
  rw [Std.ExtTreeMap.getElem?_erase] at h
  split at h
  · cases h
  · exact h

/-- Inserting past the last key appends. -/
theorem toList_insertIfNew_last {m : Std.ExtTreeMap Nat ρ compare} {n : Nat} {r : ρ}
    (hlast : ∀ (i : Nat) (x : ρ), m[i]? = some x → i < n) :
    (m.insertIfNew n r).toList = m.toList ++ [(n, r)] := by
  have hnew : m[n]? = none := by
    refine Option.eq_none_iff_forall_ne_some.mpr fun x hx => ?_
    exact Nat.lt_irrefl n (hlast n x hx)
  have hsorted : (m.toList ++ [(n, r)]).Pairwise fun a b => a.1 < b.1 := by
    refine List.pairwise_append.mpr ⟨?_, by simp, ?_⟩
    · exact m.ordered_keys_toList.imp fun h => Nat.compare_eq_lt.mp h
    · intro a ha b hb
      obtain rfl := List.mem_singleton.mp hb
      exact hlast a.1 a.2 (Std.ExtTreeMap.mem_toList_iff_getElem?_eq_some.mp ha)
  have hsorted' : (m.insertIfNew n r).toList.Pairwise fun a b => a.1 < b.1 :=
    (m.insertIfNew n r).ordered_keys_toList.imp fun h => Nat.compare_eq_lt.mp h
  have hnodup : ∀ l : List (Nat × ρ), l.Pairwise (fun a b => a.1 < b.1) → l.Nodup := by
    intro l hl
    refine hl.imp ?_
    intro a b hab heq
    subst heq
    exact Nat.lt_irrefl _ hab
  have hperm : (m.insertIfNew n r).toList.Perm (m.toList ++ [(n, r)]) := by
    refine (List.perm_ext_iff_of_nodup (hnodup _ hsorted') (hnodup _ hsorted)).mpr ?_
    intro entry
    obtain ⟨i, x⟩ := entry
    rw [Std.ExtTreeMap.mem_toList_iff_getElem?_eq_some, getElem?_insertIfNew_of_new hnew,
      List.mem_append, Std.ExtTreeMap.mem_toList_iff_getElem?_eq_some]
    by_cases hi : n = i
    · subst hi
      simp [hnew, eq_comm]
    · simp [hi, Ne.symm hi]
  exact hperm.eq_of_pairwise (fun a b _ _ hab hba => absurd hab (Nat.lt_asymm hba)) hsorted' hsorted

/-- Folding insertions that leave existing keys alone: a key leads to what the
map held, and else to the first element that has it. -/
theorem getElem?_foldl_insertIfNew [DecidableEq ι] {α : Type} (key : α → ι) (val : α → ρ) (i : ι) :
    ∀ (l : List α) (m : Std.ExtTreeMap ι ρ compare),
      (l.foldl (fun m a => m.insertIfNew (key a) (val a)) m)[i]? =
        m[i]?.or ((l.find? fun a => key a = i).map val)
  | [], m => by simp
  | a :: l, m => by
    rw [List.foldl_cons, getElem?_foldl_insertIfNew key val i l, Std.ExtTreeMap.getElem?_insertIfNew,
      List.find?_cons]
    by_cases ha : key a = i
    · subst ha
      by_cases hm : key a ∈ m
      · simp [hm]
      · simp [hm]
    · simp [ha]

namespace TwoWay

variable {key : ρ → κ} {ident : ρ → ι} {byIdent : Std.ExtTreeMap ι ρ compare}
  {byKey : Std.ExtTreeMap κ ι compare}

omit [Std.LawfulEqOrd κ] [Std.LawfulEqOrd ι] in
theorem empty (key : ρ → κ) (ident : ρ → ι) : TwoWay key ident ∅ ∅ where
  key_of_ident i r h := by simp at h
  ident_of_key k i h := by simp at h

omit [Std.LawfulEqOrd κ] [Std.LawfulEqOrd ι] in
/-- No two stored records share a key. -/
theorem ident_unique (h : TwoWay key ident byIdent byKey) {i j : ι} {r r' : ρ}
    (hr : byIdent[i]? = some r) (hr' : byIdent[j]? = some r') (hkey : key r = key r') : i = j := by
  have h₁ := (h.key_of_ident i r hr).1
  have h₂ := (h.key_of_ident j r' hr').1
  rw [hkey, h₂] at h₁
  exact (Option.some.inj h₁).symm

/-- **A record that is new in both maps can be added.** -/
theorem insert (h : TwoWay key ident byIdent byKey) {r : ρ}
    (hident : byIdent[ident r]? = none) (hkey : byKey[key r]? = none) :
    TwoWay key ident (byIdent.insertIfNew (ident r) r) (byKey.insertIfNew (key r) (ident r)) where
  key_of_ident i x hx := by
    rw [getElem?_insertIfNew_of_new hident] at hx
    rw [getElem?_insertIfNew_of_new hkey]
    by_cases hi : ident r = i
    · simp only [hi, Std.ReflCmp.compare_self, if_true, Option.some.injEq] at hx
      subst hx
      simp [hi]
    · simp only [Std.LawfulEqCmp.compare_eq_iff_eq, hi, if_false] at hx
      obtain ⟨hk, hid⟩ := h.key_of_ident i x hx
      have hne : key r ≠ key x := by
        intro heq
        rw [← heq, hkey] at hk
        cases hk
      simp [hne, hk, hid]
  ident_of_key k i hk := by
    rw [getElem?_insertIfNew_of_new hkey] at hk
    by_cases hkr : key r = k
    · simp only [hkr, Std.ReflCmp.compare_self, if_true, Option.some.injEq] at hk
      subst hk
      exact ⟨r, by rw [getElem?_insertIfNew_of_new hident]; simp, hkr⟩
    · simp only [Std.LawfulEqCmp.compare_eq_iff_eq, hkr, if_false] at hk
      obtain ⟨x, hx, hxk⟩ := h.ident_of_key k i hk
      have hne : ident r ≠ i := by
        intro hsame
        subst hsame
        rw [hident] at hx
        cases hx
      exact ⟨x, by simp [getElem?_insertIfNew_of_new hident, hne, hx], hxk⟩

/-- **Both entries of a stored record can be erased.** -/
theorem erase (h : TwoWay key ident byIdent byKey) {i : ι} {r : ρ} (hr : byIdent[i]? = some r) :
    TwoWay key ident (byIdent.erase i) (byKey.erase (key r)) where
  key_of_ident j x hx := by
    rw [Std.ExtTreeMap.getElem?_erase] at hx
    split at hx
    · cases hx
    · next hij =>
      obtain ⟨hk, hid⟩ := h.key_of_ident j x hx
      have hne : key r ≠ key x := by
        intro heq
        have := h.ident_unique hr hx heq
        exact hij (by simp [this])
      simp [Std.ExtTreeMap.getElem?_erase, hne, hk, hid]
  ident_of_key k j hk := by
    rw [Std.ExtTreeMap.getElem?_erase] at hk
    split at hk
    · cases hk
    · next hkr =>
      obtain ⟨x, hx, hxk⟩ := h.ident_of_key k j hk
      have hne : i ≠ j := by
        intro hsame
        subst hsame
        rw [hr] at hx
        cases hx
        exact hkr (by simp [hxk])
      exact ⟨x, by simp [Std.ExtTreeMap.getElem?_erase, hne, hx], hxk⟩

end TwoWay

end

end CdfCrypto.Lib
