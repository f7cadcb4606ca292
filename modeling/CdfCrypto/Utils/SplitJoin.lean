import CdfCrypto.Utils.StrUtils

/-!
# Pieces and what they were cut from

`cutAt` finds the first occurrence of a separator, so no piece holds one (`not_infix_of_mem_split`),
and the pieces joined again give the text (`split_joins`). The one thing that is lost is a
separator at the very end: the scan leaves out the empty piece behind it, so a text and the text
with one separator more have the same pieces.

The source has two positions where `cutAt` has what is left of the text; `splitLoop` is its loop,
and does what the cutting does (`splitLoop_eq`). `Scans` are the positions it comes to, and the
separator that is lost is one that the scan finds at the end (`splitFrom_endsFound`).
-/

namespace CdfCrypto

/-- The scan has found the first occurrence. -/
theorem cutAt_some {sep : Bytes} (hsep : sep ≠ []) : ∀ {src piece rest : Bytes},
    cutAt sep src = some (piece, rest) → src = piece ++ sep ++ rest ∧ ¬ sep <:+: piece
  | [], _, _, h => by cases h
  | c :: cs, piece, rest, h => by
    unfold cutAt at h
    split at h
    next hstart =>
      obtain ⟨rfl, rfl⟩ := Prod.mk.inj (Option.some.inj h)
      have heq := List.prefix_iff_eq_append.mp (List.isPrefixOf_iff_prefix.mp hstart)
      exact ⟨heq.symm, fun hocc => hsep (List.infix_nil.mp hocc)⟩
    next hmiss =>
      obtain ⟨cut, hcut, heq⟩ := Option.map_eq_some_iff.mp h
      obtain ⟨rfl, rfl⟩ := Prod.mk.inj heq
      obtain ⟨hsrc, hnot⟩ := cutAt_some hsep hcut
      have hfront : c :: cs = (c :: cut.1) ++ (sep ++ cut.2) := by
        rw [hsrc, List.cons_append, List.append_assoc]
      refine ⟨hfront.trans (List.append_assoc _ _ _).symm, fun hocc => ?_⟩
      -- an occurrence that starts the piece would have been found at once
      rcases List.infix_cons_iff.mp hocc with hstart | hlater
      · refine hmiss (List.isPrefixOf_iff_prefix.mpr ?_)
        rw [hfront]
        exact hstart.trans (List.prefix_append _ _)
      · exact hnot hlater

theorem cutAt_none {sep : Bytes} (hsep : sep ≠ []) : ∀ {src : Bytes}, cutAt sep src = none →
    ¬ sep <:+: src
  | [], _ => fun hocc => hsep (List.infix_nil.mp hocc)
  | c :: cs, h => by
    unfold cutAt at h
    split at h
    · cases h
    next hmiss =>
      intro hocc
      rcases List.infix_cons_iff.mp hocc with hstart | hlater
      · exact hmiss (List.isPrefixOf_iff_prefix.mpr hstart)
      · exact cutAt_none hsep (Option.map_eq_none_iff.mp h) hlater

/-! ## The scan -/

section Scan

variable {sep : Bytes} {hsep : sep ≠ []} {src : Bytes}

theorem splitFrom_some {piece rest : Bytes} (hcut : cutAt sep src = some (piece, rest)) :
    splitFrom sep hsep src = piece :: splitFrom sep hsep rest := by
  rw [splitFrom]
  split
  next heq =>
    rw [hcut] at heq
    obtain ⟨rfl, rfl⟩ := Prod.mk.inj (Option.some.inj heq)
    rfl
  next heq =>
    rw [hcut] at heq
    cases heq

theorem splitFrom_none (hcut : cutAt sep src = none) :
    splitFrom sep hsep src = if src = [] then [] else [src] := by
  rw [splitFrom]
  split
  next heq =>
    rw [hcut] at heq
    cases heq
  next => rfl

theorem splitFrom_eq_nil (h : splitFrom sep hsep src = []) : src = [] := by
  cases hcut : cutAt sep src with
  | some cut =>
    rw [splitFrom_some hcut] at h
    cases h
  | none =>
    rw [splitFrom_none hcut] at h
    by_contra hne
    rw [if_neg hne] at h
    cases h

end Scan

variable {sep : Bytes}

/-- **No piece holds the separator.** -/
theorem not_infix_of_mem_splitFrom (hsep : sep ≠ []) (src : Bytes) :
    ∀ piece ∈ splitFrom sep hsep src, ¬ sep <:+: piece := by
  induction src using splitFrom.induct sep hsep with
  | case1 src piece rest hcut ih =>
    intro p hp
    rw [splitFrom_some hcut] at hp
    rcases List.mem_cons.mp hp with rfl | hp
    · exact (cutAt_some hsep hcut).2
    · exact ih p hp
  | case2 hcut =>
    intro p hp
    rw [splitFrom_none hcut] at hp
    cases hp
  | case3 src hcut hne =>
    intro p hp
    rw [splitFrom_none hcut, if_neg hne] at hp
    obtain rfl := List.mem_singleton.mp hp
    exact cutAt_none hsep hcut

/-- What the pieces joined again give: the text, or the text without a separator that the scan
found at its end. -/
def Joins (sep src : Bytes) (pieces : List Bytes) : Prop :=
  (src = sep.intercalate pieces ∧ pieces.getLast? ≠ some []) ∨
    (src = sep.intercalate pieces ++ sep ∧ pieces ≠ [])

/-- **Joining undoes the scan**, up to a separator at the end. -/
theorem splitFrom_joins (hsep : sep ≠ []) (src : Bytes) :
    Joins sep src (splitFrom sep hsep src) := by
  induction src using splitFrom.induct sep hsep with
  | case1 src piece rest hcut ih =>
    obtain ⟨hsrc, -⟩ := cutAt_some hsep hcut
    rw [splitFrom_some hcut]
    by_cases hnil : splitFrom sep hsep rest = []
    · -- nothing stands behind the separator
      rw [splitFrom_eq_nil hnil, List.append_nil] at hsrc
      rw [hnil]
      exact .inr ⟨by rw [List.intercalate_singleton, hsrc], List.cons_ne_nil _ _⟩
    · have hjoin : sep.intercalate (piece :: splitFrom sep hsep rest) =
          piece ++ sep ++ sep.intercalate (splitFrom sep hsep rest) :=
        List.intercalate_cons_of_ne_nil hnil
      rcases ih with ⟨hrest, hlast⟩ | ⟨hrest, -⟩
      · refine .inl ⟨by rw [hjoin, ← hrest, hsrc], ?_⟩
        rwa [List.getLast?_cons_of_ne_nil hnil]
      · exact .inr ⟨by rw [hjoin, List.append_assoc _ _ sep, ← hrest, hsrc], List.cons_ne_nil _ _⟩
  | case2 hcut =>
    rw [splitFrom_none hcut]
    exact .inl ⟨rfl, by simp⟩
  | case3 src hcut hne =>
    rw [splitFrom_none hcut, if_neg hne]
    exact .inl ⟨List.intercalate_singleton.symm, by simpa using hne⟩

theorem split_joins (hsep : sep ≠ []) (src : Bytes) : Joins sep src (split src sep) := by
  rw [split, dif_neg hsep]
  exact splitFrom_joins hsep src

theorem not_infix_of_mem_split (hsep : sep ≠ []) (src : Bytes) :
    ∀ piece ∈ split src sep, ¬ sep <:+: piece := by
  rw [split, dif_neg hsep]
  exact not_infix_of_mem_splitFrom hsep src

/-! ## Positions -/

/-- `src.find(sep, pos)` -/
def find (src sep : Bytes) (pos : Nat) : Option Nat :=
  (List.range (src.length + 1)).find? fun i => pos ≤ i && sep.isPrefixOf (src.drop i)

theorem find_eq_some {src sep : Bytes} {pos i : Nat} : find src sep pos = some i ↔
    (pos ≤ i ∧ sep <+: src.drop i) ∧ i ≤ src.length ∧
      ∀ j, pos ≤ j → j < i → ¬ sep <+: src.drop j := by
  unfold find
  simp only [List.find?_range_eq_some, Bool.and_eq_true, decide_eq_true_eq,
    List.isPrefixOf_iff_prefix, List.mem_range, Nat.lt_succ_iff, Bool.not_eq_true',
    Bool.and_eq_false_imp]
  refine and_congr_right' (and_congr_right' (forall_congr' fun j => ?_))
  constructor
  · intro h hpos hlt hocc
    exact Bool.false_ne_true ((h hlt hpos).symm.trans (List.isPrefixOf_iff_prefix.mpr hocc))
  · intro h hlt hpos
    exact Bool.eq_false_iff.mpr fun hocc => h hpos hlt (List.isPrefixOf_iff_prefix.mp hocc)

theorem find_eq_none {src sep : Bytes} {pos : Nat} : find src sep pos = none ↔
    ∀ i, pos ≤ i → i ≤ src.length → ¬ sep <+: src.drop i := by
  unfold find
  simp only [List.find?_range_eq_none, Nat.lt_succ_iff, Bool.not_eq_true', Bool.and_eq_false_imp,
    decide_eq_true_eq]
  refine forall_congr' fun i => ?_
  constructor
  · intro h hpos hle hocc
    exact Bool.false_ne_true ((h hle hpos).symm.trans (List.isPrefixOf_iff_prefix.mpr hocc))
  · intro h hle hpos
    exact Bool.eq_false_iff.mpr fun hocc => h hpos hle (List.isPrefixOf_iff_prefix.mp hocc)

/-- The loop of `StrUtils::Split`, from one value of `pos1` on: `pos2` is found from there. -/
def splitLoop (src sep : Bytes) (hsep : sep ≠ []) (pos1 : Nat) (out : List Bytes) : List Bytes :=
  match _hfind : find src sep pos1 with
  | some pos2 => splitLoop src sep hsep (pos2 + sep.length) (out ++ [slice src pos1 (pos2 - pos1)])
  | none => if pos1 ≠ src.length then out ++ [src.drop pos1] else out
termination_by src.length + 1 - pos1
decreasing_by
  have hfound := find_eq_some.mp _hfind
  have := List.length_pos_of_ne_nil hsep
  omega

/-- `StrUtils::Split(src, sep, out)` -/
def splitInto (src sep : Bytes) (out : List Bytes) : List Bytes :=
  if hsep : sep = [] then out else splitLoop src sep hsep 0 out

/-- The values of `pos1` that the loop comes to, from one of them on. -/
inductive Scans (src sep : Bytes) : Nat → Nat → Prop
  | here (pos1 : Nat) : Scans src sep pos1 pos1
  | on {pos1 pos2 pos : Nat} : find src sep pos1 = some pos2 →
      Scans src sep (pos2 + sep.length) pos → Scans src sep pos1 pos

/-- The scan from `pos1` finds an occurrence that ends the text. -/
def EndsFound (src sep : Bytes) (pos1 : Nat) : Prop :=
  ∃ pos pos2, Scans src sep pos1 pos ∧ find src sep pos = some pos2 ∧
    pos2 + sep.length = src.length

/-- The first occurrence is where the text is cut. -/
theorem cutAt_of_first (hsep : sep ≠ []) : ∀ {s : Bytes} {n : Nat}, sep <+: s.drop n →
    (∀ j < n, ¬ sep <+: s.drop j) → cutAt sep s = some (s.take n, s.drop (n + sep.length))
  | [], n, hocc, _ => by
    rw [List.drop_nil] at hocc
    exact absurd (List.prefix_nil.mp hocc) hsep
  | c :: cs, 0, hocc, _ => by
    have hocc : sep <+: c :: cs := hocc
    rw [cutAt, if_pos (List.isPrefixOf_iff_prefix.mpr hocc), Nat.zero_add]
    rfl
  | c :: cs, n + 1, hocc, hfirst => by
    have hmiss : ¬ sep.isPrefixOf (c :: cs) = true := fun h =>
      hfirst 0 (Nat.succ_pos n) (List.isPrefixOf_iff_prefix.mp h)
    have hrest : ∀ j < n, ¬ sep <+: cs.drop j := fun j hj => hfirst (j + 1) (Nat.succ_lt_succ hj)
    have hocc : sep <+: cs.drop n := hocc
    rw [cutAt, if_neg hmiss, cutAt_of_first hsep hocc hrest, Nat.succ_add]
    rfl

theorem cutAt_of_never : ∀ {s : Bytes}, (∀ j ≤ s.length, ¬ sep <+: s.drop j) → cutAt sep s = none
  | [], _ => rfl
  | c :: cs, hnever => by
    have hmiss : ¬ sep.isPrefixOf (c :: cs) = true := fun h =>
      hnever 0 (Nat.zero_le _) (List.isPrefixOf_iff_prefix.mp h)
    have hrest : ∀ j ≤ cs.length, ¬ sep <+: cs.drop j := fun j hj =>
      hnever (j + 1) (Nat.succ_le_succ hj)
    rw [cutAt, if_neg hmiss, cutAt_of_never hrest]
    rfl

section Positions

variable {src : Bytes} {pos1 : Nat}

/-- An occurrence that is found lies inside the text. -/
theorem find_inside {pos2 : Nat} (hsep : sep ≠ []) (h : find src sep pos1 = some pos2) :
    pos1 ≤ pos2 ∧ pos2 + sep.length ≤ src.length := by
  obtain ⟨⟨hpos, hocc⟩, -, -⟩ := find_eq_some.mp h
  have hle := hocc.length_le
  have hlen := List.length_pos_of_ne_nil hsep
  rw [List.length_drop] at hle
  omega

theorem cutAt_of_find {pos2 : Nat} (hsep : sep ≠ []) (h : find src sep pos1 = some pos2) :
    cutAt sep (src.drop pos1) =
      some (slice src pos1 (pos2 - pos1), src.drop (pos2 + sep.length)) := by
  obtain ⟨⟨hpos, hocc⟩, -, hfirst⟩ := find_eq_some.mp h
  have hback : pos1 + (pos2 - pos1) = pos2 := Nat.add_sub_of_le hpos
  have hthere : sep <+: (src.drop pos1).drop (pos2 - pos1) := by
    rwa [List.drop_drop, hback]
  have hbefore : ∀ j < pos2 - pos1, ¬ sep <+: (src.drop pos1).drop j := by
    intro j hj
    rw [List.drop_drop]
    exact hfirst (pos1 + j) (Nat.le_add_right _ _) (by omega)
  rw [cutAt_of_first hsep hthere hbefore, List.drop_drop, ← Nat.add_assoc, hback]
  rfl

theorem cutAt_of_find_none (hle : pos1 ≤ src.length) (h : find src sep pos1 = none) :
    cutAt sep (src.drop pos1) = none := by
  refine cutAt_of_never fun j hj => ?_
  rw [List.length_drop] at hj
  rw [List.drop_drop]
  exact find_eq_none.mp h (pos1 + j) (Nat.le_add_right _ _) (by omega)

/-- **The loop over positions is the scan of what stands behind them.** -/
theorem splitLoop_eq (hsep : sep ≠ []) (hle : pos1 ≤ src.length) (out : List Bytes) :
    splitLoop src sep hsep pos1 out = out ++ splitFrom sep hsep (src.drop pos1) := by
  induction pos1, out using splitLoop.induct src sep hsep with
  | case1 pos1 out pos2 hfind ih =>
    rw [splitFrom_some (cutAt_of_find hsep hfind), splitLoop]
    split
    next heq =>
      obtain rfl := Option.some.inj (hfind.symm.trans heq)
      rw [ih (find_inside hsep hfind).2, List.append_assoc]
      rfl
    next heq =>
      rw [hfind] at heq
      cases heq
  | case2 pos1 out hfind hne =>
    rw [splitFrom_none (cutAt_of_find_none hle hfind), splitLoop]
    split
    next heq =>
      rw [hfind] at heq
      cases heq
    next =>
      have hrest : src.drop pos1 ≠ [] := fun hnil => by
        have := List.drop_eq_nil_iff.mp hnil
        omega
      rw [if_pos hne, if_neg hrest]
  | case3 pos1 out hfind heq =>
    rw [splitFrom_none (cutAt_of_find_none hle hfind), splitLoop]
    split
    next hsome =>
      rw [hfind] at hsome
      cases hsome
    next =>
      have hrest : src.drop pos1 = [] := List.drop_eq_nil_iff.mpr (by omega)
      rw [if_neg heq, if_pos hrest, List.append_nil]

theorem splitInto_eq (src sep : Bytes) (out : List Bytes) :
    splitInto src sep out = out ++ split src sep := by
  unfold splitInto split
  split
  · rw [List.append_nil]
  next hsep => exact splitLoop_eq hsep (Nat.zero_le _) out

/-- The occurrence that ends the text is this one, or one behind it. -/
theorem endsFound_iff {pos2 : Nat} (h : find src sep pos1 = some pos2) : EndsFound src sep pos1 ↔
    pos2 + sep.length = src.length ∨ EndsFound src sep (pos2 + sep.length) := by
  constructor
  · rintro ⟨pos, last, hscan, hfind, hend⟩
    cases hscan with
    | here =>
      obtain rfl := Option.some.inj (h.symm.trans hfind)
      exact .inl hend
    | on hfirst hscan =>
      obtain rfl := Option.some.inj (h.symm.trans hfirst)
      exact .inr ⟨pos, last, hscan, hfind, hend⟩
  · rintro (hend | ⟨pos, last, hscan, hfind, hend⟩)
    · exact ⟨pos1, pos2, .here pos1, h, hend⟩
    · exact ⟨pos, last, .on h hscan, hfind, hend⟩

theorem not_endsFound (h : find src sep pos1 = none) : ¬ EndsFound src sep pos1 := by
  rintro ⟨pos, last, hscan, hfind, -⟩
  cases hscan with
  | here =>
    rw [h] at hfind
    cases hfind
  | on hfirst =>
    rw [h] at hfirst
    cases hfirst

/-- **What joining gives**, from any position: the text, but for an occurrence that ends it and
that the scan has found. -/
theorem splitFrom_endsFound (hsep : sep ≠ []) (hle : pos1 ≤ src.length) :
    (EndsFound src sep pos1 →
      src.drop pos1 = sep.intercalate (splitFrom sep hsep (src.drop pos1)) ++ sep) ∧
    (¬ EndsFound src sep pos1 →
      src.drop pos1 = sep.intercalate (splitFrom sep hsep (src.drop pos1))) := by
  generalize hn : src.length - pos1 = n
  induction n using Nat.strong_induction_on generalizing pos1 with
  | _ n ih =>
    cases hfind : find src sep pos1 with
    | none =>
      refine ⟨fun h => absurd h (not_endsFound hfind), fun _ => ?_⟩
      rw [splitFrom_none (cutAt_of_find_none hle hfind)]
      split
      next hnil => exact hnil
      next => exact List.intercalate_singleton.symm
    | some pos2 =>
      obtain ⟨hpos, hinside⟩ := find_inside hsep hfind
      have hlen := List.length_pos_of_ne_nil hsep
      have hcut := cutAt_of_find hsep hfind
      have hsrc := (cutAt_some hsep hcut).1
      rw [splitFrom_some hcut, endsFound_iff hfind]
      by_cases hend : pos2 + sep.length = src.length
      · -- nothing stands behind the occurrence
        have hrest : src.drop (pos2 + sep.length) = [] :=
          List.drop_eq_nil_iff.mpr (Nat.le_of_eq hend.symm)
        rw [hrest, List.append_nil] at hsrc
        have hnil : splitFrom sep hsep [] = [] := by
          rw [splitFrom_none rfl, if_pos rfl]
        rw [hrest, hnil, List.intercalate_singleton]
        exact ⟨fun _ => hsrc, fun hnot => absurd (.inl hend) hnot⟩
      · have hrest : src.drop (pos2 + sep.length) ≠ [] := fun hnil => by
          have := List.drop_eq_nil_iff.mp hnil
          omega
        have hne : splitFrom sep hsep (src.drop (pos2 + sep.length)) ≠ [] := fun hnil =>
          hrest (splitFrom_eq_nil hnil)
        obtain ⟨hfound, hmissed⟩ := ih (src.length - (pos2 + sep.length)) (by omega) hinside rfl
        rw [List.intercalate_cons_of_ne_nil hne]
        constructor
        · intro h
          rw [hsrc, List.append_assoc _ _ sep, ← hfound (h.resolve_left hend)]
        · intro h
          rw [hsrc, ← hmissed fun hbehind => h (.inr hbehind)]

end Positions

/-- **Splitting and joining.** What is put out are pieces without the separator, and joined with
it they are the text; where the scan has found an occurrence that ends the text, that one is
left out. -/
theorem splitInto_joins (hsep : sep ≠ []) (src : Bytes) (out : List Bytes) :
    ∃ pieces, splitInto src sep out = out ++ pieces ∧ (∀ piece ∈ pieces, ¬ sep <:+: piece) ∧
      (EndsFound src sep 0 → src = sep.intercalate pieces ++ sep) ∧
      (¬ EndsFound src sep 0 → src = sep.intercalate pieces) := by
  refine ⟨split src sep, splitInto_eq src sep out, not_infix_of_mem_split hsep src, ?_⟩
  rw [split, dif_neg hsep]
  exact splitFrom_endsFound hsep (Nat.zero_le _)

/-- A separator that overlaps itself: the scan finds the first of the two occurrences. -/
theorem splitInto_joins_overlap : ∃ pieces,
    splitInto (ascii "aaa") (ascii "aa") [] = pieces ∧
      ∀ piece ∈ pieces, ¬ ascii "aa" <:+: piece := by
  have hsep : ascii "aa" ≠ [] := by decide
  obtain ⟨pieces, hpieces, hnot, -⟩ := splitInto_joins hsep (ascii "aaa") []
  exact ⟨pieces, hpieces, hnot⟩

end CdfCrypto
