import CdfCrypto.Utils.Bytes
import Mathlib.Data.List.Infix

/-!
# `FileUtils::IsAbsolutePath`

A path is refused that holds `/./` or `/../`, as a C string. The check is meant for the
components `.` and `..`, and these show as such a text only between two slashes and before the
first NUL (`component_iff`): a path that ends in one of them is let through, and so is whatever
stands behind a NUL. `isAbsolutePath_exact_iff` says for which paths the check is the one that was
meant. The file that reads the configuration has a copy of it.
-/

namespace CdfCrypto

/-- `strstr(s, needle) != nullptr` -/
def strstr (s needle : Bytes) : Bool := decide (needle <:+: cstr s)

/-- `FileUtils::IsAbsolutePath` -/
def isAbsolutePath (filePath : Bytes) : Bool :=
  if filePath.length = 0 then false
  else if filePath.head? ≠ some 47 then false
  else if strstr filePath (ascii "/../") ∨ strstr filePath (ascii "/./") then false
  else true

/-- What stands between two slashes, or between one and an end of the path. -/
def Component (path c : Bytes) : Prop :=
  47 ∉ c ∧ ∃ pre post, path = pre ++ c ++ post ∧
    (pre = [] ∨ ∃ front, pre = front ++ [47]) ∧ (post = [] ∨ ∃ back, post = 47 :: back)

/-- No component is one of the two that lead elsewhere. -/
def NoTraversal (path : Bytes) : Prop :=
  ∀ c, Component path c → c ≠ ascii "." ∧ c ≠ ascii ".."

/-- One of them stands between two slashes. -/
def DotsInside (s : Bytes) : Prop := ascii "/../" <:+: s ∨ ascii "/./" <:+: s

/-- One of them stands at the end. -/
def DotsAtEnd (s : Bytes) : Prop := ascii "/.." <:+ s ∨ ascii "/." <:+ s

theorem isAbsolutePath_iff (path : Bytes) :
    isAbsolutePath path = true ↔ path.head? = some 47 ∧ ¬ DotsInside (cstr path) := by
  have hfound : (strstr path (ascii "/../") = true ∨ strstr path (ascii "/./") = true) ↔
      DotsInside (cstr path) := by
    simp only [strstr, DotsInside, decide_eq_true_eq]
  unfold isAbsolutePath
  rw [← hfound]
  split
  next hempty =>
    have hnil := List.length_eq_zero_iff.mp hempty
    subst hnil
    simp
  split
  next hstart => exact iff_of_false (fun h => by cases h) fun h => hstart h.1
  next hstart =>
    have hstart := not_not.mp hstart
    split
    next hdots => exact iff_of_false (fun h => by cases h) fun h => h.2 hdots
    next hdots => exact iff_of_true rfl ⟨hstart, hdots⟩

/-- A component that is not empty, in a path that starts with a slash. -/
theorem component_iff {path c : Bytes} (hstart : path.head? = some 47) (hc : 47 ∉ c)
    (hne : c ≠ []) : Component path c ↔ [47] ++ c ++ [47] <:+: path ∨ [47] ++ c <:+ path := by
  constructor
  · rintro ⟨-, pre, post, rfl, hpre, hpost⟩
    rcases hpre with rfl | ⟨front, rfl⟩
    · -- then the path would start with the component
      exfalso
      obtain ⟨b, bs, rfl⟩ := List.exists_cons_of_ne_nil hne
      obtain rfl : b = 47 := by simpa using hstart
      exact hc List.mem_cons_self
    · rcases hpost with rfl | ⟨back, rfl⟩
      · exact .inr ⟨front, by simp⟩
      · exact .inl ⟨front, back, by simp⟩
  · rintro (⟨front, back, rfl⟩ | ⟨front, rfl⟩)
    · exact ⟨hc, front ++ [47], 47 :: back, by simp, .inr ⟨front, rfl⟩, .inr ⟨back, rfl⟩⟩
    · exact ⟨hc, front ++ [47], [], by simp, .inr ⟨front, rfl⟩, .inl rfl⟩

theorem noTraversal_iff {path : Bytes} (hstart : path.head? = some 47) :
    NoTraversal path ↔ ¬ DotsInside path ∧ ¬ DotsAtEnd path := by
  have hdot := component_iff hstart (c := ascii ".") (by decide) (by decide)
  have hdots := component_iff hstart (c := ascii "..") (by decide) (by decide)
  have hall : NoTraversal path ↔ ¬ Component path (ascii ".") ∧ ¬ Component path (ascii "..") := by
    constructor
    · exact fun h => ⟨fun hcomp => (h _ hcomp).1 rfl, fun hcomp => (h _ hcomp).2 rfl⟩
    · rintro ⟨hone, htwo⟩ c hcomp
      exact ⟨fun heq => hone (heq ▸ hcomp), fun heq => htwo (heq ▸ hcomp)⟩
  have hinside : DotsInside path ↔ [47] ++ ascii ".." ++ [47] <:+: path ∨
      [47] ++ ascii "." ++ [47] <:+: path := Iff.rfl
  have hend : DotsAtEnd path ↔ [47] ++ ascii ".." <:+ path ∨ [47] ++ ascii "." <:+ path := Iff.rfl
  rw [hall, hdot, hdots, hinside, hend]
  constructor
  · rintro ⟨hone, htwo⟩
    exact ⟨not_or.mpr ⟨fun h => htwo (.inl h), fun h => hone (.inl h)⟩,
      not_or.mpr ⟨fun h => htwo (.inr h), fun h => hone (.inr h)⟩⟩
  · rintro ⟨hin, hat⟩
    exact ⟨not_or.mpr ⟨fun h => hin (.inr h), fun h => hat (.inr h)⟩,
      not_or.mpr ⟨fun h => hin (.inl h), fun h => hat (.inl h)⟩⟩

/-- The path is let through with a component that leads elsewhere. -/
def Escapes (path : Bytes) : Prop :=
  path.head? = some 47 ∧ ¬ DotsInside (cstr path) ∧ (DotsInside path ∨ DotsAtEnd path)

/-- **When the check is the one that was meant.** -/
theorem isAbsolutePath_exact_iff (path : Bytes) :
    (isAbsolutePath path = true ↔ path.head? = some 47 ∧ NoTraversal path) ↔ ¬ Escapes path := by
  rw [isAbsolutePath_iff]
  unfold Escapes
  by_cases hstart : path.head? = some 47
  · rw [noTraversal_iff hstart]
    have hshort : DotsInside (cstr path) → DotsInside path := by
      have hprefix : cstr path <:+: path := (List.takeWhile_prefix _).isInfix
      rintro (h | h)
      · exact .inl (h.trans hprefix)
      · exact .inr (h.trans hprefix)
    simp only [hstart, true_and]
    by_cases hdots : DotsInside (cstr path)
    · exact iff_of_true (iff_of_false (fun h => h hdots) fun h => h.1 (hshort hdots))
        fun h => h.1 hdots
    · simp only [hdots, not_false_eq_true, true_iff, true_and, not_or]
  · exact iff_of_true (iff_of_false (fun h => hstart h.1) fun h => hstart h.1) fun h => hstart h.1

/-- **A path that ends in `..`** is let through. -/
theorem parent_at_end_accepted : ¬ ∀ path : Bytes,
    (isAbsolutePath path = true ↔ path.head? = some 47 ∧ NoTraversal path) := by
  intro hall
  have haccepted : isAbsolutePath (ascii "/etc/..") = true := by decide +kernel
  have hcomp : Component (ascii "/etc/..") (ascii "..") :=
    ⟨by decide, ascii "/etc/", [], by decide, .inr ⟨ascii "/etc", by decide⟩, .inl rfl⟩
  exact (((hall _).mp haccepted).2 _ hcomp).2 rfl

end CdfCrypto
