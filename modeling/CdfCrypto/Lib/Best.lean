import Mathlib.Data.List.Basic
import Mathlib.Data.List.Perm.Basic

/-!
# The best of a list, by one pass

`best` goes through a list and keeps the element it has until one beats it. What it ends with is
the same for every order of the list exactly where one element beats each of the others
(`best_perm_iff`): of a relation that is not transitive, or leaves two elements equal, there need
be none.
-/

namespace CdfCrypto.Lib

variable {α β : Type} {beats : α → α → Bool} {l : List α} {x : α}

/-- The best of what there is and a list. -/
def best (beats : α → α → Bool) : Option α → List α → Option α
  | cur, [] => cur
  | none, x :: l => best beats (some x) l
  | some cur, x :: l => best beats (some (if beats x cur then x else cur)) l

/-- The first element, and then the others. -/
theorem best_cons (beats : α → α → Bool) (cur : Option α) (x : α) (l : List α) :
    best beats cur (x :: l) = best beats (best beats cur [x]) l := by
  cases cur <;> rfl

/-- An element that beats each of the others. -/
structure Champion (beats : α → α → Bool) (l : List α) (x : α) : Prop where
  mem : x ∈ l
  beats : ∀ y ∈ l, y ≠ x → beats x y = true

/-- What is kept was there. -/
theorem best_some_mem (beats : α → α → Bool) : ∀ (l : List α) (cur : α),
    ∃ x, best beats (some cur) l = some x ∧ (x = cur ∨ x ∈ l)
  | [], cur => ⟨cur, rfl, .inl rfl⟩
  | y :: l, cur => by
    obtain ⟨x, hbest, hx⟩ := best_some_mem beats l (if beats y cur then y else cur)
    refine ⟨x, hbest, ?_⟩
    obtain rfl | hmem := hx
    · split
      · exact .inr List.mem_cons_self
      · exact .inl rfl
    · exact .inr (List.mem_cons_of_mem _ hmem)

/-- What nothing beats is kept. -/
theorem best_kept : ∀ {l : List α}, (∀ y ∈ l, beats y x = false) →
    best beats (some x) l = some x
  | [], _ => rfl
  | y :: l, h => by
    obtain ⟨hy, hl⟩ := List.forall_mem_cons.mp h
    unfold best
    rw [hy]
    exact best_kept hl

/-- What nothing beats is taken when it comes, if it beats what is there. -/
theorem best_taken : ∀ {l : List α} {cur : Option α}, x ∈ l → (∀ y ∈ l, beats y x = false) →
    (∀ y ∈ l, y ≠ x → beats x y = true) → (∀ c ∈ cur, c ≠ x → beats x c = true) →
    best beats cur l = some x
  | [], _, hmem, _, _, _ => absurd hmem List.not_mem_nil
  | y :: l, cur, hmem, hnone, hall, hcur => by
    obtain ⟨hnoney, hnonel⟩ := List.forall_mem_cons.mp hnone
    obtain ⟨hally, halll⟩ := List.forall_mem_cons.mp hall
    by_cases hyx : y = x
    · subst hyx
      cases cur with
      | none => exact best_kept hnonel
      | some c =>
        have hbeaten : (if beats y c then y else c) = y := by
          by_cases hcy : c = y
          · rw [hcy, ite_self]
          · rw [if_pos (hcur c rfl hcy)]
        unfold best
        rw [hbeaten]
        exact best_kept hnonel
    · have hrest : x ∈ l := (List.mem_cons.mp hmem).resolve_left fun h => hyx h.symm
      cases cur with
      | none =>
        unfold best
        refine best_taken hrest hnonel halll fun c hc _ => ?_
        obtain rfl := Option.some.inj hc
        exact hally hyx
      | some c =>
        unfold best
        refine best_taken hrest hnonel halll fun d hd hdx => ?_
        obtain rfl := Option.some.inj hd
        by_cases hyc : beats y c = true
        · rw [if_pos hyc]
          exact hally hyx
        · rw [if_neg hyc] at hdx ⊢
          exact hcur c rfl hdx

/-- Nothing beats a champion. -/
theorem Champion.unbeaten (hasymm : ∀ x y, beats x y = true → beats y x = false)
    (h : Champion beats l x) : ∀ y ∈ l, beats y x = false := by
  intro y hy
  by_cases hyx : y = x
  · subst hyx
    cases hself : beats y y with
    | false => rfl
    | true => rw [← hself, hasymm y y hself]
  · exact hasymm x y (h.beats y hy hyx)

/-- A champion is found, in whatever order. -/
theorem Champion.best_eq (hasymm : ∀ x y, beats x y = true → beats y x = false)
    (h : Champion beats l x) : best beats none l = some x :=
  best_taken h.mem (h.unbeaten hasymm) h.beats nofun

theorem Champion.perm {l' : List α} (h : Champion beats l x) (hperm : l'.Perm l) :
    Champion beats l' x :=
  ⟨hperm.mem_iff.mpr h.mem, fun y hy => h.beats y (hperm.mem_iff.mp hy)⟩

/-- Two elements of a list can come first. -/
theorem exists_perm_cons_cons (hx : x ∈ l) (hy : y ∈ l) (hne : y ≠ x) :
    ∃ rest, (y :: x :: rest).Perm l := by
  obtain ⟨s, t, rfl⟩ := List.append_of_mem hx
  have hmid : (s ++ x :: t).Perm (x :: (s ++ t)) := List.perm_middle
  have hy' : y ∈ s ++ t := (List.mem_cons.mp (hmid.mem_iff.mp hy)).resolve_left hne
  obtain ⟨s', t', hst⟩ := List.append_of_mem hy'
  refine ⟨s' ++ t', ?_⟩
  have hmid' : (s' ++ y :: t').Perm (y :: (s' ++ t')) := List.perm_middle
  exact (List.Perm.swap x y _).trans ((hmid'.symm.cons x).trans (hst ▸ hmid.symm))

/-- **When the order does not matter.** -/
theorem best_perm_iff (hasymm : ∀ x y, beats x y = true → beats y x = false) (hnodup : l.Nodup) :
    (∃ found, ∀ l' : List α, l'.Perm l → best beats none l' = found) ↔
      l = [] ∨ ∃ x, Champion beats l x := by
  constructor
  · intro h
    obtain ⟨found, hfound⟩ := h
    cases l with
    | nil => exact .inl rfl
    | cons z l =>
      obtain ⟨x, hbest, hx⟩ := best_some_mem beats l z
      have hmem : x ∈ z :: l := List.mem_cons.mpr hx
      obtain rfl : some x = found := hbest.symm.trans (hfound _ (.refl _))
      refine .inr ⟨x, hmem, fun y hy hne => ?_⟩
      obtain ⟨rest, hperm⟩ := exists_perm_cons_cons hmem hy hne
      have hfirst := hfound _ hperm
      -- with `y` before `x`, `x` is only found where it beats `y`
      by_contra hbeats
      have hkept : best beats none (y :: x :: rest) = best beats (some y) rest := by
        show best beats (some (if beats x y then x else y)) rest = _
        rw [if_neg hbeats]
      obtain ⟨w, hw, hwy⟩ := best_some_mem beats rest y
      obtain rfl : w = x := Option.some.inj (hw.symm.trans (hkept.symm.trans hfirst))
      have hdistinct := hperm.nodup_iff.mpr hnodup
      rw [List.nodup_cons, List.nodup_cons] at hdistinct
      obtain heq | hrest := hwy
      · exact hne heq.symm
      · exact hdistinct.2.1 hrest
  · intro h
    obtain rfl | ⟨x, hx⟩ := h
    · exact ⟨none, fun l' hperm => by rw [hperm.eq_nil]; rfl⟩
    · exact ⟨some x, fun l' hperm => (hx.perm hperm).best_eq hasymm⟩

/-- Whatever order the images can have, the elements can be put so that they have it. -/
theorem exists_perm_filterMap {f : β → Option α} : ∀ {l' : List α} {l : List β},
    l'.Perm (l.filterMap f) → ∃ m : List β, m.Perm l ∧ m.filterMap f = l'
  | [], l, h => ⟨l, .refl l, h.symm.eq_nil⟩
  | a :: l', l, h => by
    obtain ⟨b, hb, hfb⟩ := List.mem_filterMap.mp (h.mem_iff.mp List.mem_cons_self)
    obtain ⟨s, t, rfl⟩ := List.append_of_mem hb
    have hmid : (s ++ b :: t).Perm (b :: (s ++ t)) := List.perm_middle
    have himage : ((s ++ b :: t).filterMap f).Perm (a :: (s ++ t).filterMap f) := by
      refine (hmid.filterMap f).trans ?_
      rw [List.filterMap_cons_some hfb]
    obtain ⟨m, hm, hmap⟩ := exists_perm_filterMap (h.trans himage).cons_inv
    refine ⟨b :: m, (hm.cons b).trans hmid.symm, ?_⟩
    rw [List.filterMap_cons_some hfb, hmap]

end CdfCrypto.Lib
