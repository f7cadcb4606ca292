import CdfCrypto.Kerberos.Keytab
import CdfCrypto.Lib.Handler

/-!
# The reader of a keytab, watched

What `KerberosReadEntry` does with its cursor shows in none of its calls. The reader here makes
one call more where the cursor goes past a hole, where an entry is accepted and where one that
was begun is given up: a `KtMark`, which nobody answers. It is the reader of the source where the
marks are forgotten (`kerberosReadEntry_watched`).
-/

namespace CdfCrypto.Kerberos

open Lib

/-- What the reader tells of itself. -/
inductive KtMark
  /-- A hole whose size stands at `keypos`, and the cursor past it. -/
  | hole (keypos : UInt32) (length after : UInt32)
  /-- An entry that was asked for at `keypos`: from `startPos` on it is said to be of so many
  bytes, and has been read up to `endPos`. -/
  | accepted (keypos startPos endPos : UInt32) (size : Int32) (after : UInt32)
  /-- An entry that is given up, as it is before its memory is given back. -/
  | failed (entry : KeytabEntry)

/-- What the watched reader asks and tells. -/
inductive WatchCall
  | kt (call : KtCall)
  | mark (mark : KtMark)

abbrev WatchCall.Reply : WatchCall → Type
  | kt call => call.Reply
  | mark _ => Unit

/-- A watched program that reads a keytab. -/
abbrev Watched (α : Type) := Prog WatchCall WatchCall.Reply KtFault α

/-- One call of the watched reader and its answer. -/
abbrev WatchEvent := Event WatchCall WatchCall.Reply

/-- A part of the reader that tells nothing. -/
def unwatched {α : Type} (p : Kt α) : Watched α := p.within WatchCall.kt

/-- The loop of `KerberosReadEntrySize`, which tells the holes. -/
def watchedSizeLoop (buf : Bytes) : Nat → UInt32 → Int32 → Watched (Int32 × Int32 × UInt32)
  | 0, _, _ => .halt .diverges
  | rounds + 1, keypos, size =>
    match kerberosRead buf 4 1 keypos with
    | (none, keypos) => .ret (1, size, keypos)
    | (some bytes, startPos) =>
      let size := (ntohl bytes).toInt32
      if size < 0 then
        if size = Int32.minValue then .ret (1, size, startPos)
        else do
          let after := startPos + (-size).toUInt32
          .perform (WatchCall.mark (.hole keypos (-size).toUInt32 after))
          if buf.length < after.toNat then do
            let error ← .perform (WatchCall.kt .errno)
            .ret (error, size, after)
          else watchedSizeLoop buf rounds after size
      else .ret (0, size, startPos)

/-- `KerberosReadEntrySize`, watched. -/
def watchedReadEntrySize (buf : Bytes) (keypos : UInt32) (size : Int32) :
    Watched (Int32 × Int32 × UInt32) := watchedSizeLoop buf (buf.length + 1) keypos size

/-- The failure of an entry that has been begun, which tells what there is of it. -/
def watchedFailEntry (st : KtState) : Watched (Bool × KtState) := do
  .perform (WatchCall.mark (.failed st.retEntry))
  unwatched (failEntry st)

/-- `KerberosReadEntry`, watched. -/
def watchedReadEntry (buf : Bytes) (keypos : UInt32) : Watched (Bool × KtState) := do
  let (error, size, startPos) ← watchedReadEntrySize buf keypos 0
  if error ≠ 0 ∨ size ≤ 0 then .ret (false, { keypos := startPos })
  else do
    let content ← unwatched (kerberosReadEntryContent buf { keypos := startPos })
    if ¬ content.1 ∨ size = 0 then watchedFailEntry content.2
    else
      let vno := readVno32 buf startPos size content.2
      if ¬ vno.1 then watchedFailEntry vno.2
      else if startPos + size.toUInt32 < vno.2.keypos then watchedFailEntry vno.2
      else do
        let after := startPos + size.toUInt32
        .perform (WatchCall.mark (.accepted keypos startPos vno.2.keypos size after))
        .ret (true, { vno.2 with keypos := after })

/-! ## The marks forgotten -/

/-- A handler that passes on what the reader asks, and takes no notice of what it tells. -/
def unmark : (call : WatchCall) → Kt call.Reply
  | .kt call => .perform call
  | .mark _ => .ret ()

theorem unmark_unwatched {α : Type} (p : Kt α) : (unwatched p).handle unmark = p :=
  @handle_within KtCall WatchCall WatchCall.Reply KtFault α WatchCall.kt unmark (fun _ => rfl) p

theorem readEntrySizeLoop_watched (buf : Bytes) : ∀ (rounds : Nat) (keypos : UInt32) (size : Int32),
    (watchedSizeLoop buf rounds keypos size).handle unmark =
      readEntrySizeLoop buf rounds keypos size
  | 0, _, _ => rfl
  | rounds + 1, keypos, size => by
    unfold watchedSizeLoop readEntrySizeLoop
    rcases kerberosRead buf 4 1 keypos with ⟨_ | bytes, startPos⟩
    · rfl
    · dsimp only
      split
      · split
        · rfl
        · rw [handle_perform_bind]
          show Prog.handle unmark (if _ then _ else _) = _
          split
          · rfl
          · exact readEntrySizeLoop_watched buf rounds _ _
      · rfl

theorem failEntry_watched (st : KtState) : (watchedFailEntry st).handle unmark = failEntry st := by
  unfold watchedFailEntry
  rw [handle_perform_bind]
  exact unmark_unwatched (failEntry st)

/-- **The watched reader is the reader**, for anyone who does not hear the marks. -/
theorem kerberosReadEntry_watched (buf : Bytes) (keypos : UInt32) :
    (watchedReadEntry buf keypos).handle unmark = kerberosReadEntry buf keypos := by
  unfold watchedReadEntry kerberosReadEntry watchedReadEntrySize kerberosReadEntrySize
  rw [handle_bind, readEntrySizeLoop_watched]
  refine congrArg (readEntrySizeLoop buf (buf.length + 1) keypos 0 >>= ·) (funext fun r => ?_)
  obtain ⟨error, size, startPos⟩ := r
  dsimp only
  split
  · rfl
  · rw [handle_bind, unmark_unwatched]
    refine congrArg (kerberosReadEntryContent buf { keypos := startPos } >>= ·)
      (funext fun content => ?_)
    split
    · exact failEntry_watched content.2
    · split
      · exact failEntry_watched _
      · split
        · exact failEntry_watched _
        · rfl

end CdfCrypto.Kerberos
