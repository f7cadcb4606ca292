import CdfCrypto.Cli.Release
import CdfCrypto.KeyManagement.SealedTexts

/-!
# What is typed

A handler reads a text as two lines that must be the same, and `InitKm` reads one more for the
access token. `keystrokes` is what was typed in the course of a trace, and the text of a handler is
its first line (`readEncryptContent_keys`): nothing that was typed is lost, and no NUL is left for
`strcmp` to stop at.
-/

namespace CdfCrypto.Cli

open Lib
open KeyManagement (EndsLine)

/-! ## Lines -/

/-- What `static_cast<char>` makes of an answer; there is none at the end of the input. -/
def keystroke : (c : CliCall) → c.Reply → Option UInt8
  | .cinGet, reply => some (reply.getD 255)
  | _, _ => none

/-- Everything that was typed. -/
def keystrokes (tr : List CliEvent) : Bytes := tr.filterMap fun ev => keystroke ev.1 ev.2

/-- Up to the first character that ends a line. -/
def firstLine (keys : Bytes) : Bytes := keys.takeWhile fun b => ¬ EndsLine b

@[simp] theorem keystrokes_nil : keystrokes [] = [] := rfl

@[simp] theorem keystrokes_append (tr tr' : List CliEvent) :
    keystrokes (tr ++ tr') = keystrokes tr ++ keystrokes tr' := List.filterMap_append

@[simp] theorem keystrokes_cinGet (reply : Option UInt8) (tr : List CliEvent) :
    keystrokes ((⟨.cinGet, reply⟩ : CliEvent) :: tr) = reply.getD 255 :: keystrokes tr := rfl

theorem firstLine_append {text : Bytes} (htext : ∀ b ∈ text, ¬ EndsLine b) {stop : UInt8}
    (hstop : EndsLine stop) (rest : Bytes) : firstLine (text ++ stop :: rest) = text := by
  unfold firstLine
  rw [List.takeWhile_append_of_pos fun b hb => decide_eq_true (htext b hb)]
  simp [hstop]

/-- A line without a NUL is the C string it makes. -/
theorem cstr_line {text : Bytes} (htext : ∀ b ∈ text, ¬ EndsLine b) : cstr text = text :=
  cstr_of_forall_ne fun b hb hzero => htext b hb (.inr (.inr hzero))

/-! ## Reading -/

/-- The loop: what is behind the character at hand is read until the room is used up or the line
has ended. -/
theorem inputLoop_keys : ∀ (room : Nat) (ch : UInt8) (text : Bytes),
    wp (inputLoop room ch text) fun tr o => ∃ rest last, o = .ret (text ++ rest) ∧
      ch :: keystrokes tr = rest ++ [last] ∧ (∀ b ∈ rest, ¬ EndsLine b) ∧ rest.length ≤ room ∧
        (rest.length < room → EndsLine last)
  | 0, ch, text => ⟨[], ch, by rw [List.append_nil], rfl, fun _ hb => absurd hb List.not_mem_nil,
      Nat.le_refl _, fun h => absurd h (Nat.lt_irrefl _)⟩
  | room + 1, ch, text => by
    unfold inputLoop
    split
    next hends =>
      exact ⟨[], ch, by rw [List.append_nil], rfl, fun _ hb => absurd hb List.not_mem_nil,
        Nat.zero_le _, fun _ => hends⟩
    next hends =>
      intro reply
      refine wp_mono (inputLoop_keys room (reply.getD 255) (text ++ [ch])) fun tr o h => ?_
      obtain ⟨rest, last, rfl, hkeys, hrest, hle, hlast⟩ := h
      refine ⟨ch :: rest, last, by rw [List.append_assoc]; rfl, ?_, ?_, Nat.succ_le_succ hle, ?_⟩
      · rw [keystrokes_cinGet, hkeys]
        rfl
      · exact List.forall_mem_cons.mpr ⟨hends, hrest⟩
      · exact fun hlt => hlast (Nat.lt_of_succ_lt_succ hlt)

theorem lineFromInput_keys (size : Nat) : wp (lineFromInput size) fun tr o => ∀ text,
    o = .ret (.ok, text) → Fits text size ∧ ∃ stop, EndsLine stop ∧ keystrokes tr = text ++ [stop] := by
  intro reply
  show wp (inputLoop (size - 1) (reply.getD 255) [] >>= fun text => _) _
  refine wp_bind_of (inputLoop_keys (size - 1) (reply.getD 255) []) (fun tr text h => ?_)
    fun tr x h => ?_
  · obtain ⟨rest, last, ho, hkeys, hrest, hle, hlast⟩ := h
    obtain rfl := Outcome.ret.inj ho
    split
    · intro _ hret
      cases hret
    next hsome =>
    split
    · intro _ hret
      cases hret
    next hroom =>
    intro _ hret
    obtain ⟨-, rfl⟩ := Prod.mk.inj (Outcome.ret.inj hret)
    refine ⟨⟨List.ne_nil_of_length_pos (Nat.pos_of_ne_zero hsome), by omega, hrest⟩, last,
      hlast (by omega), ?_⟩
    rw [List.append_nil, keystrokes_cinGet]
    exact hkeys
  · obtain ⟨_, _, ho, -⟩ := h
    cases ho

/-- **The text of a handler** is the first line, and the second is the same. -/
theorem readEncryptContent_keys (size : Nat) : wp (readEncryptContent size) fun tr o => ∀ text,
    o = .ret (some text) → Fits text size ∧ ∃ stop stop', EndsLine stop ∧ EndsLine stop' ∧
      keystrokes tr = text ++ stop :: (text ++ [stop']) := by
  have hnone : ∀ (tr : List CliEvent) text, (Outcome.ret none : Outcome CliFault (Option Bytes)) =
      .ret (some text) → Fits text size ∧ ∃ stop stop', EndsLine stop ∧ EndsLine stop' ∧
        keystrokes tr = text ++ stop :: (text ++ [stop']) := fun _ _ ho => by cases ho
  refine wp_bind_of (lineFromInput_keys size) (fun tr first hfirst => ?_)
    fun tr x _ => fun _ ho => by cases ho
  split
  · exact hnone _
  next hok =>
  obtain ⟨rc, text⟩ := first
  obtain rfl : rc = .ok := not_not.mp hok
  obtain ⟨hline, stop, hstop, hkeys⟩ := hfirst text rfl
  refine wp_bind_of (lineFromInput_keys size) (fun tr' second hsecond => ?_)
    fun tr' x _ => fun _ ho => by cases ho
  split
  · exact hnone _
  next hok' =>
  obtain ⟨rc', text'⟩ := second
  obtain rfl : rc' = .ok := not_not.mp hok'
  obtain ⟨hline', stop', hstop', hkeys'⟩ := hsecond text' rfl
  split
  · exact hnone _
  next hsame =>
  intro typed ho
  obtain rfl := Option.some.inj (Outcome.ret.inj ho)
  have hsame : cstr text = cstr text' := not_not.mp hsame
  rw [cstr_line hline.line, cstr_line hline'.line] at hsame
  subst hsame
  refine ⟨hline, stop, stop', hstop, hstop', ?_⟩
  rw [List.append_nil, keystrokes_append, hkeys, hkeys', List.append_assoc]
  rfl

end CdfCrypto.Cli
